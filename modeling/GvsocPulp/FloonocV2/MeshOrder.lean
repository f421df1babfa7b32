import GvsocPulp.FloonocV2.Wormhole
import GvsocPulp.FloonocV2.XyRouting

/-!
# Flits over a mesh

The routers of a mesh that fills a rectangle, wired as `finalize` wires them and with XY routing: what one NI sends to
another arrives in order.
-/

namespace GvsocPulp.FloonocV2

open Lib List RouterV2 Dir

/-- `DIR_*`. -/
def Dir.port : Dir → Nat
  | .right => 0
  | .left => 1
  | .up => 2
  | .down => 3
  | .local => 4

/-- `_DIR_OPPOSITE`. -/
def Dir.opposite : Dir → Dir
  | .right => .left
  | .left => .right
  | .up => .down
  | .down => .up
  | .local => .local

theorem Dir.port_injective : Function.Injective port := by
  intro dir dir' h
  cases dir <;> cases dir' <;> first | rfl | cases h

theorem Dir.opposite_opposite (dir : Dir) : dir.opposite.opposite = dir := by cases dir <;> rfl

theorem Dir.opposite_ne_local {dir : Dir} (h : dir ≠ .local) : dir.opposite ≠ .local := by
  cases dir <;> simp [opposite] at h ⊢

theorem Dir.opposite_step (pos : Pos) (dir : Dir) : dir.opposite.step (dir.step pos) = pos := by
  cases dir <;> simp [opposite, step]

namespace MeshFabric

abbrev Router (fab : MeshFabric) := { pos // pos ∈ fab.routers }

variable {fab : MeshFabric} {capacity : Pos → Nat → Nat} {x₀ x₁ y₀ y₁ : Int} {a b : Pos}
  {ra rb : fab.Router} {dest : Int}

/-- The router at a port, and its port to this one. -/
def feeder (fab : MeshFabric) (router : fab.Router) (input : Nat) : Option (fab.Router × Nat) :=
  ([.right, .left, .up, .down].find? fun dir : Dir => dir.port = input).bind fun dir =>
    (fab.routers.attach.find? fun next => next.1 = dir.step router).map fun next => (next, dir.opposite.port)

theorem feeder_eq_some {router : fab.Router} {input : Nat} {src : fab.Router × Nat} :
    fab.feeder router input = some src ↔
      ∃ dir : Dir, dir ≠ .local ∧ input = dir.port ∧ src.1.1 = dir.step router ∧ src.2 = dir.opposite.port := by
  rw [feeder, Option.bind_eq_some_iff]
  constructor
  · rintro ⟨dir, hfind, h⟩
    obtain ⟨next, hnext, rfl⟩ := Option.map_eq_some_iff.1 h
    refine ⟨dir, ?_, by simpa [eq_comm] using find?_some hfind, by simpa using find?_some hnext, rfl⟩
    rintro rfl
    simpa using mem_of_find?_eq_some hfind
  · rintro ⟨dir, hdir, rfl, hstep, hport⟩
    refine ⟨dir, by cases dir <;> simp [port] at hdir ⊢, ?_⟩
    cases hnext : fab.routers.attach.find? fun next => next.1 = dir.step router with
    | none => simpa [hstep] using find?_eq_none.1 hnext src.1 (mem_attach ..)
    | some next =>
      have hpos : next.1 = src.1 := by simpa [hstep] using find?_some hnext
      exact congrArg some (Prod.ext (Subtype.ext hpos) hport.symm)

/-- One network of a mesh. -/
def network (fab : MeshFabric) (capacity : Pos → Nat → Nat) : Network fab.Router where
  cfg router :=
    { nbPorts := 5
      queueCapacity := capacity router
      getOutputPort := fun id => ((fab.routerConfig router).getOutputPort id).map Dir.port }
  feeds := fab.feeder
  single := by
    intro n input n' input' src h h'
    obtain ⟨dir, hdir, rfl, hstep, hport⟩ := feeder_eq_some.1 h
    obtain ⟨dir', hdir', rfl, hstep', hport'⟩ := feeder_eq_some.1 h'
    have hopp := congrArg Dir.opposite (Dir.port_injective (hport.symm.trans hport'))
    obtain rfl : dir = dir' := by simpa only [Dir.opposite_opposite] using hopp
    refine ⟨Subtype.ext ?_, rfl⟩
    rw [← Dir.opposite_step n.1 dir, ← hstep, hstep', Dir.opposite_step]

/-- A hop of the network is a link of the mesh that the routing takes. -/
theorem hop_iff {x y : fab.Router × Nat} (hdest : xyNodeId b.1 b.2 = some dest) :
    (fab.network capacity).Hop dest x y ↔ ∃ dir : Dir, dir ≠ .local ∧ fab.outputPort x.1 b = some dir ∧
      y.1.1 = dir.step x.1 ∧ y.2 = dir.opposite.port := by
  have hport : ∀ output, ((fab.network capacity).cfg x.1).getOutputPort dest = some output ↔
      ∃ dir, fab.outputPort x.1 b = some dir ∧ dir.port = output := fun output => by
    simp [network, outputPort, hdest]
  simp only [Network.Hop, hport]
  constructor
  · rintro ⟨output, ⟨dir, hdir, rfl⟩, hfeeds⟩
    obtain ⟨dir', hne, hy, hstep, hopp⟩ := feeder_eq_some.1 hfeeds
    obtain rfl := port_injective hopp
    refine ⟨_, opposite_ne_local hne, hdir, ?_, ?_⟩
    · rw [hstep, opposite_step]
    · rw [hy, opposite_opposite]
  · rintro ⟨dir, hne, hdir, hstep, hy⟩
    refine ⟨_, ⟨dir, hdir, rfl⟩, feeder_eq_some.2 ⟨dir.opposite, opposite_ne_local hne, hy, ?_, ?_⟩⟩
    · rw [hstep, opposite_step]
    · rw [opposite_opposite]

def away (router pos : Pos) : Nat := (router.1 - pos.1).natAbs + (router.2 - pos.2).natAbs

theorem exists_route (capacity : Pos → Nat → Nat) (hrect : ∀ p, p ∈ fab.routers ↔ x₀ ≤ p.1 ∧ p.1 ≤ x₁ ∧
    y₀ ≤ p.2 ∧ p.2 ≤ y₁)
    (hb : b ∈ fab.nis) (hrb : fab.niRouterPos b.1 b.2 = some rb.1) (hdest : xyNodeId b.1 b.2 = some dest) :
    ∀ (d : Nat) (x : fab.Router × Nat), away rb x.1 = d → ∃ route input,
      (x :: route).IsChain (fun y z => (fab.network capacity).Hop dest y z ∧ away rb z.1 < away rb y.1) ∧
      (x :: route).getLast? = some (rb, input)
  | 0, (router, input), hd => by
    simp only [away] at hd
    obtain rfl : router = rb := Subtype.ext (Prod.ext (by omega) (by omega))
    exact ⟨[], input, .singleton _, rfl⟩
  | d + 1, x, hd => by
    have hne : x.1.1 ≠ rb.1 := fun h => by simp [h, away] at hd
    obtain ⟨dir, hdir, hlocal, hstep, hcloser⟩ := follow_hop hrect hb hrb x.1.2 hne
    replace hcloser : away rb (dir.step x.1) + 1 = away rb x.1 := hcloser
    have hd' : away rb (dir.step x.1) = d := by omega
    obtain ⟨route, input, hchain, hlast⟩ := exists_route capacity hrect hb hrb hdest d
      (⟨_, hstep⟩, dir.opposite.port) hd'
    refine ⟨_, input, .cons_cons ⟨(hop_iff hdest).2 ⟨dir, hlocal, hdir, rfl, rfl⟩, ?_⟩ hchain, ?_⟩
    · exact Nat.lt_of_succ_le hcloser.le
    · rwa [getLast?_cons_cons]

/-- The NIs inject flits with their own identifiers. -/
def Injects (fab : MeshFabric) : fab.Router × RouterEnv × RouterEvent → Prop
  | (router, _, .linkReq input f) => fab.feeder router input = none → ∃ n ∈ fab.nis,
      fab.niRouterPos n.1 n.2 = some router.1 ∧ input = (dirFrom router n).port ∧ xyNodeId n.1 n.2 = some f.srcId
  | _ => True

/-- **What one NI sends to another arrives in order**, none lost and none doubled, in every run of a mesh that fills a
rectangle: of its flits to the other NI, those delivered are the first ones injected, and all of them once nothing is on
the way. -/
theorem mesh_in_order (hrect : ∀ p, p ∈ fab.routers ↔ x₀ ≤ p.1 ∧ p.1 ≤ x₁ ∧ y₀ ≤ p.2 ∧ p.2 ≤ y₁)
    {s : fab.Router → Logged} {es : List (fab.Router × RouterEnv × RouterEvent)}
    (hrun : run (fab.network capacity).step (fun _ => {}) es = some s) (hin : ∀ e ∈ es, fab.Injects e)
    (hb : b ∈ fab.nis) (hra : fab.niRouterPos a.1 a.2 = some ra.1)
      (hrb : fab.niRouterPos b.1 b.2 = some rb.1) {src : Int}
    (hsrc : xyNodeId a.1 a.2 = some src) (hdest : xyNodeId b.1 b.2 = some dest) : (fab.network capacity).Delivers s
      (flow src dest ((s rb).sent (dirFrom rb b).port)) (flow src dest ((s ra).arrived (dirFrom ra a).port)) := by
  have hinv : (fab.network capacity).Inv (fun _ => ()) s := Network.run_inv hrun
  have hend : fab.outputPort rb b = some (dirFrom rb b) := by
    rw [outputPort_eq hrect hb hrb rb.2, if_pos rfl]
  obtain ⟨route, input, hchain, hlast⟩ := exists_route capacity hrect hb hrb hdest _ (ra, (dirFrom ra a).port) rfl
  refine hinv.delivers_flow ⟨hchain.imp fun _ _ h => h.1, ?_, ?_⟩ (fun m j hnone f hf hfrom _ => ?_) hlast ?_
  · -- each hop comes closer, so no router is met twice
    have hcloser : ((ra, (dirFrom ra a).port) :: route).IsChain fun y z => away rb z.1 < away rb y.1 :=
      hchain.imp fun _ _ h => h.2
    have : IsTrans (fab.Router × Nat) fun y z => away rb z.1 < away rb y.1 := ⟨fun _ _ _ h h' => h'.trans h⟩
    exact pairwise_map.2 ((isChain_iff_pairwise.1 hcloser).imp fun h heq => by simp [heq] at h)
  · rintro x hx y hhop
    obtain rfl : (rb, input) = x := by simpa [hlast] using hx
    obtain ⟨dir, hlocal, hdir, hstep, -⟩ := (hop_iff hdest).1 hhop
    obtain rfl : dirFrom rb b = dir := by simpa [hend] using hdir
    obtain ⟨-, hface, hno⟩ := niRouterPos_spec hrb
    exact hno hlocal (hface ▸ hstep ▸ y.1.2)
  · obtain ⟨env, he⟩ := (Network.mem_arrived hrun hf).resolve_left (by simp)
    obtain ⟨n, -, hn, rfl, hid⟩ := hin _ he hnone
    obtain ⟨-, hx, hy⟩ := xyNodeId_decode hsrc
    obtain ⟨-, hx', hy'⟩ := xyNodeId_decode (hfrom ▸ hid)
    obtain rfl : n = a := Prod.ext (hx'.symm.trans hx) (hy'.symm.trans hy)
    obtain rfl : m = ra := Subtype.ext (by simpa [hra] using hn.symm)
    rfl
  · simp only [outputPort, hdest] at hend
    simpa [network] using ⟨_, hend, rfl⟩

def west : smallMesh.Router := ⟨(1, 1), by decide⟩

def east : smallMesh.Router := ⟨(2, 1), by decide⟩

/-- A flit from the left of the mesh to above it. -/
def acrossMesh : List (smallMesh.Router × RouterEnv × RouterEvent) :=
  let flit := { writeFlit 0 true with srcId := 0x10000, destId := 0x20002 }
  [(west, RouterEvent.linkReq 1 flit), (west, .fsm), (west, .fsm), (east, .linkReq 1 flit), (east, .fsm),
    (east, .fsm)].map
    fun e => (e.1, { now := 0 }, e.2)

theorem mesh_in_order_acrossMesh : ∃ s, run (smallMesh.network fun _ _ => 2).step (fun _ => {}) acrossMesh = some s ∧
    ((s east).sent 2).length = 1 ∧ (smallMesh.network fun _ _ => 2).Delivers s
      (flow 0x10000 0x20002 ((s east).sent 2)) (flow 0x10000 0x20002 ((s west).arrived 1)) := by
  obtain ⟨s, hs, hsent⟩ := (Option.any_eq_true (fun s : smallMesh.Router → Logged => decide
    (((s east).sent 2).length = 1)) _).1
    (show (run (smallMesh.network fun _ _ => 2).step (fun _ => {}) acrossMesh).any _ = true by decide +kernel)
  have hrect : ∀ p, p ∈ smallMesh.routers ↔ 1 ≤ p.1 ∧ p.1 ≤ 2 ∧ 1 ≤ p.2 ∧ p.2 ≤ 1 := by
    rintro ⟨x, y⟩
    simp only [smallMesh, mem_cons, not_mem_nil, or_false, Prod.mk.injEq]
    omega
  refine ⟨s, hs, of_decide_eq_true hsent, mesh_in_order (a := (0, 1)) (b := (2, 2)) hrect hs ?_
    (by decide) rfl rfl rfl rfl⟩
  simp only [acrossMesh, map_cons, map_nil, forall_mem_cons, Injects]
  refine ⟨fun _ => ⟨(0, 1), by decide⟩, trivial, trivial, fun h => ?_, trivial, trivial, by simp⟩
  cases h

end MeshFabric

end GvsocPulp.FloonocV2
