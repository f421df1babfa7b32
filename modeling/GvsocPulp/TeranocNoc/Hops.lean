import GvsocPulp.TeranocNoc.Net

/-!
# How far the requests still have to go

Every step of a network brings one request one queue further, and as long as no target owes a grant, the requests that
have come furthest are free to move (`Inv.exists_free`).
-/

namespace GvsocPulp.TeranocNoc

open Function List

/-- How often a request has to move from this queue on. -/
def remaining (dest : Pos) : Queue → Nat
  | .input p _ => 2 * dist p dest + 2
  | .output p _ => 2 * dist p dest + 1

def Dir.all : List Dir := [.right, .left, .up, .down, .local]

theorem Dir.mem_all (d : Dir) : d ∈ Dir.all := by cases d <;> decide

def Config.queues (cfg : Config) : List Queue :=
  (cfg.positions.product Dir.all).map (fun c => .input c.1 c.2) ++ (cfg.positions.product Dir.all).map fun c =>
    .output c.1 c.2

def load (q : Queue) (rs : List Req) : Nat := (rs.map fun r => remaining r.dest q).sum

/-- How often the requests in the queues have to move. -/
def hops (cfg : Config) (queues : Queue → List Req) : Nat := (cfg.queues.map fun q => load q (queues q)).sum

variable {cfg : Config} {q : Queue}

theorem mem_queues : q ∈ cfg.queues ↔ cfg.Mesh q.pos := by
  cases q <;> simp [Config.queues, Queue.pos, mem_positions, Dir.mem_all]

theorem queues_nodup (cfg : Config) : cfg.queues.Nodup := by
  have hnd : (cfg.positions.product Dir.all).Nodup := (positions_nodup cfg).product (by decide)
  refine nodup_append.2 ⟨hnd.map fun c c' h => ?_, hnd.map fun c c' h => ?_, fun q hq q' hq' heq => ?_⟩
  · exact Prod.ext (Queue.input.inj h).1 (Queue.input.inj h).2
  · exact Prod.ext (Queue.output.inj h).1 (Queue.output.inj h).2
  · obtain ⟨c, -, rfl⟩ := mem_map.1 hq
    obtain ⟨c', -, rfl⟩ := mem_map.1 hq'
    cases heq

@[simp] theorem load_cons (q : Queue) (r : Req) (rs : List Req) :
    load q (r :: rs) = remaining r.dest q + load q rs := by
  simp [load]

@[simp] theorem load_concat (q : Queue) (r : Req) (rs : List Req) :
    load q (rs ++ [r]) = load q rs + remaining r.dest q := by
  simp [load]

theorem hops_change (qs qs' : Queue → List Req) (hq : cfg.Mesh q.pos) (h : ∀ q', q' ≠ q → qs' q' = qs q') :
    hops cfg qs' + load q (qs q) = hops cfg qs + load q (qs' q) := by
  rw [hops, hops]
  exact Lib.sum_map_change (f := fun q' => load q' (qs' q')) (g := fun q' => load q' (qs q')) (queues_nodup cfg)
    (mem_queues.2 hq) fun q' hq' => by rw [h q' hq']

theorem hops_eq_zero {qs : Queue → List Req} (h : hops cfg qs = 0) (hq : cfg.Mesh q.pos) : qs q = [] := by
  have hzero := List.sum_eq_zero_iff_forall_eq_nat.1 h _ (mem_map.2 ⟨q, mem_queues.2 hq, rfl⟩)
  cases heq : qs q with
  | nil => rfl
  | cons r rest =>
    rw [heq, load_cons] at hzero
    cases q <;> simp [remaining] at hzero

namespace Net

variable {n n' : Net} {p : Pos} {d : Dir} {q' : Queue} {r : Req} {rest : List Req}

theorem Inv.hops_move (hinv : n.Inv cfg) (h : n.queues q = r :: rest) (hnext : Next r q q')
    (hrem : remaining r.dest q = remaining r.dest q' + 1) :
      hops cfg (n.move cfg q q' r rest).queues < hops cfg n.queues := by
  obtain ⟨hsrc, hdest, -⟩ := hinv.located q r (h ▸ mem_cons_self)
  have hout := hops_change n.queues (update n.queues q rest) (hinv.mesh h)
    fun q₀ hq => update_of_ne hq ..
  have hin := hops_change (update n.queues q rest) (n.move cfg q q' r rest).queues
    (mesh_of_mem hdest hsrc hnext.mem) fun q₀ hq => update_of_ne hq ..
  rw [update_self, h, load_cons] at hout
  rw [move_queues_to, update_of_ne hnext.ne.symm, load_concat] at hin
  omega

theorem Inv.hops_advance (hinv : n.Inv cfg) (h : n.queues (.input p d) = r :: rest) :
    hops cfg (n.advance cfg p d r rest).queues < hops cfg n.queues :=
  hinv.hops_move h (hinv.next_output h) rfl

theorem Inv.hops_forward (hinv : n.Inv cfg) (hd : d ≠ .local) (h : n.queues (.output p d) = r :: rest) :
    hops cfg (n.forward cfg p d r rest).queues < hops cfg n.queues := by
  refine hinv.hops_move h (hinv.next_input hd h) ?_
  have hroute := hinv.route_eq h
  have hp : p ≠ r.dest := fun hp => hd (by rw [hroute, route_eq_local, hp])
  have hdist := next_dist hp
  rw [← getNextRouterPos_eq, ← hroute] at hdist
  simp only [remaining]
  omega

theorem Inv.hops_deliver (hinv : n.Inv cfg) (h : n.queues (.output p .local) = r :: rest) (deny : Bool) :
    hops cfg (n.deliver p r rest deny).queues < hops cfg n.queues := by
  have hout := hops_change n.queues (n.deliver p r rest deny).queues (hinv.mesh h)
    fun q₀ hq => deliver_queues_of_ne hq
  rw [deliver_queues_self, h, load_cons] at hout
  have hpos : 0 < remaining r.dest (.output p .local) := Nat.succ_pos _
  omega

/-- The head of a queue can move as soon as it shows. -/
def Free (n : Net) : Queue → Prop
  | .input p d => ∃ r rest, n.queues (.input p d) = r :: rest ∧ n.queues (.output p (route p r.dest)) = []
  | .output p d => n.queues (.output p d) ≠ [] ∧
      (if d = .local then n.exit p else n.sender (getPosFromQueue p d) d.opposite) = false

/-- The requests in the queue of the highest rank are free to move. -/
theorem Inv.exists_free (hinv : n.Inv cfg) (howed : ∀ p, n.owed p = false) (hq : n.queues q ≠ []) :
    ∃ q', n.Free q' := by
  have hmesh : ∀ {q₀ : Queue}, n.queues q₀ ≠ [] → cfg.Mesh q₀.pos := fun {q₀} hne => by
    obtain ⟨r, rest, h⟩ := exists_cons_of_ne_nil hne
    exact hinv.mesh h
  -- no queue after this one holds a request
  obtain ⟨top, htop, hmax⟩ := (measure fun q₀ : Queue =>
    (2 * cfg.dimX + 2 * cfg.dimY + 9 - rank cfg q₀).toNat).wf.has_min
    { q₀ | n.queues q₀ ≠ [] } ⟨q, hq⟩
  have hempty : ∀ q₀, rank cfg top < rank cfg q₀ → n.queues q₀ = [] := fun q₀ hlt => by
    by_contra hne
    have hle := rank_le (hmesh hne)
    exact hmax q₀ hne (show Int.toNat _ < Int.toNat _ by omega)
  refine ⟨top, ?_⟩
  obtain ⟨r, rest, h⟩ := exists_cons_of_ne_nil htop
  cases top with
  | input p d =>
    have hhead : Heading p r.dest d := heading_of_mem (p := r.src) (d := .local) trivial
      (hinv.located _ r (h ▸ mem_cons_self)).2.2
    exact ⟨r, rest, h, hempty _ (rank_lt_output (hmesh htop) hhead)⟩
  | output p d =>
    refine ⟨htop, ?_⟩
    split_ifs with hd
    · rw [hinv.exit_eq, howed]
    · have hnil := hempty _ (rank_lt_input hd)
      refine Bool.eq_false_iff.2 fun hstall => ?_
      have hfull := (hinv.sender_iff _ _).1 hstall
      rw [hnil] at hfull
      cases hfull

end Net

end GvsocPulp.TeranocNoc
