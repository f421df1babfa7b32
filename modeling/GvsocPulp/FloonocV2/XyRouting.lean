import GvsocPulp.Lib.Cycle
import GvsocPulp.Lib.Lists

/-!
# XY routing on the mesh the generator builds

The mesh of `FlooNocV2MeshFabric` (`floonoc_v2.py`) and the XY routing of `RouterV2::get_output_port`. A port is its
direction, and the links are what `finalize` binds to the output ports of the routers.

- `niRouterPos_spec`: an NI attaches to the router of its position, or to one next to it;
- `lookup_links_router`, `lookup_links_ni`: what an output port is bound to;
- `outputPort_eq`: the output port at a router, from the router of the destination;
- `xyRouting_correct`: routes are minimal, stay on the routers, end at the port of the destination and cannot deadlock.
-/

namespace GvsocPulp.FloonocV2

open Lib List Option

variable {id : Int} {n r : Pos}

/-! ## Positions -/

/-- A position of the mesh. -/
abbrev Pos := Int × Int

/-- The ports of an XY router, `DIR_*`. -/
inductive Dir
  | right
  | left
  | up
  | down
  | «local»
  deriving DecidableEq, Repr

/-- `xy_node_id(x, y)`; `none` where it raises. -/
def xyNodeId (x y : Int) : Option Int :=
  if 0 ≤ x ∧ x < 0x10000 ∧ 0 ≤ y ∧ y < 0x8000 then some ((y.toNat <<< 16 ||| x.toNat : Nat) : Int) else none

/-- `floonoc_xy_node_x(node_id)`: the identifier masked with `0xffff`. -/
def xyNodeX (nodeId : Int) : Int := nodeId % 0x10000

/-- `floonoc_xy_node_y(node_id)`: the identifier shifted right by 16. -/
def xyNodeY (nodeId : Int) : Int := nodeId / 0x10000

theorem xyNodeId_decode {x y : Int} (h : xyNodeId x y = some id) :
    0 ≤ id ∧ xyNodeX id = x ∧ xyNodeY id = y := by
  unfold xyNodeId at h
  split at h
  case isFalse => cases h
  case isTrue hr =>
    have hlt : x.toNat < 2 ^ 16 := by omega
    rw [← Nat.shiftLeft_add_eq_or_of_lt hlt, Nat.shiftLeft_eq] at h
    cases h
    refine ⟨by omega, ?_, ?_⟩
    · unfold xyNodeX; omega
    · unfold xyNodeY; omega

/-! ## The routers -/

structure XyConfig where
  x : Int
  y : Int
  routerMinX : Int
  routerMaxX : Int

def clamp (v lo hi : Int) : Int := if v < lo then lo else if hi < v then hi else v

namespace XyConfig

variable (cfg : XyConfig)

/-- `get_next_router_pos(dest_id)`; `none` for a negative identifier that is no direction. -/
def getNextRouterPos (destId : Int) : Option Pos :=
  if destId < 0 then
    if destId = -2 then some (cfg.x, cfg.y + 1)
    else if destId = -1 then some (cfg.x, cfg.y - 1)
    else if destId = -4 then some (cfg.x + 1, cfg.y)
    else if destId = -3 then some (cfg.x - 1, cfg.y)
    else none
  else
    let destX := xyNodeX destId
    let destY := xyNodeY destId
    if destX = cfg.x ∧ destY = cfg.y then some (cfg.x, cfg.y)
    else
      let routerX := clamp destX cfg.routerMinX cfg.routerMaxX
      if routerX ≠ cfg.x then some (if routerX < cfg.x then cfg.x - 1 else cfg.x + 1, cfg.y)
      else if destY ≠ cfg.y then some (cfg.x, if destY < cfg.y then cfg.y - 1 else cfg.y + 1)
      else some (if destX < cfg.x then cfg.x - 1 else cfg.x + 1, cfg.y)

def getReqQueue (pos : Pos) : Dir :=
  if pos.1 ≠ cfg.x then (if pos.1 < cfg.x then .left else .right)
  else if pos.2 ≠ cfg.y then (if pos.2 < cfg.y then .down else .up)
  else .local

def getOutputPort (destId : Int) : Option Dir := (cfg.getNextRouterPos destId).map cfg.getReqQueue

end XyConfig

/-! ## The mesh -/

/-- What an output port is bound to. -/
inductive Node
  | router (pos : Pos)
  | ni (pos : Pos)
  deriving DecidableEq, Repr

/-- `FlooNocV2MeshFabric`: the positions of the routers and of the NIs, each given once. The identifier of an NI has to
exist. -/
structure MeshFabric where
  dimX : Int
  dimY : Int
  routers : List Pos
  nis : List Pos
  routers_nodup : routers.Nodup
  nis_nodup : nis.Nodup
  nodeId_isSome : ∀ n ∈ nis, (xyNodeId n.1 n.2).isSome

/-- The position a port faces; its own for the local port. -/
def Dir.step (pos : Pos) : Dir → Pos
  | .right => (pos.1 + 1, pos.2)
  | .left => (pos.1 - 1, pos.2)
  | .up => (pos.1, pos.2 + 1)
  | .down => (pos.1, pos.2 - 1)
  | .local => pos

def dirFrom (router pos : Pos) : Dir :=
  if pos.1 ≠ router.1 then (if pos.1 < router.1 then .left else .right)
  else if pos.2 ≠ router.2 then (if pos.2 < router.2 then .down else .up)
  else .local

namespace MeshFabric

variable (fab : MeshFabric)

/-- `_ni_router_pos(x, y)`; `none` where it raises. -/
def niRouterPos (x y : Int) : Option Pos :=
  let pos : Pos :=
    if (x, y) ∈ fab.routers then (x, y)
    else if ¬(x = fab.dimX - 1 ∨ (x + 1, y) ∉ fab.routers) then (x + 1, y)
    else if ¬(x = 0 ∨ (x - 1, y) ∉ fab.routers) then (x - 1, y)
    else if ¬(y ≥ fab.dimY - 1 ∨ (x, y + 1) ∉ fab.routers) then (x, y + 1)
    else if y = 0 then (x, y)
    else (x, y - 1)
  if pos ∈ fab.routers then some pos else none

def routerLinks : List ((Pos × Dir) × Node) :=
  fab.routers.flatMap fun pos =>
    ([.right, .left, .up, .down] : List Dir).filterMap fun dir =>
      if dir.step pos ∈ fab.routers then some ((pos, dir), .router (dir.step pos)) else none

def niLink (n : Pos) : Option ((Pos × Dir) × Node) :=
  (fab.niRouterPos n.1 n.2).map fun pos => ((pos, dirFrom pos n), .ni n)

/-- `finalize()`: what the output ports are bound to; `none` where it raises. -/
def finalize : Option (List ((Pos × Dir) × Node)) := (fab.nis.mapM fab.niLink).map (fab.routerLinks ++ ·)

/-- The config of the router of a position, after `finalize`. -/
def routerConfig (pos : Pos) : XyConfig where
  x := pos.1
  y := pos.2
  routerMinX := ((fab.routers.map (·.1)).min?).getD 0
  routerMaxX := ((fab.routers.map (·.1)).max?).getD 0

/-- The output port by which the router of a position sends what is for the NI `n`. -/
def outputPort (pos n : Pos) : Option Dir :=
  (xyNodeId n.1 n.2).bind fun id => (fab.routerConfig pos).getOutputPort id

/-- Where the router of a position sends what is for the NI `n`. -/
def nextNode (links : List ((Pos × Dir) × Node)) (n pos : Pos) : Option Node :=
  (fab.outputPort pos n).bind fun dir => links.lookup (pos, dir)

/-- The router `k` hops after the one of a position, on the route to the NI `n`. -/
def follow (links : List ((Pos × Dir) × Node)) (n : Pos) : Nat → Pos → Option Pos
  | 0, pos => some pos
  | k + 1, pos =>
    match fab.nextNode links n pos with
    | some (.router next) => follow links n k next
    | _ => none

/-- A link by which a flit enters the network or leaves a router. -/
inductive Channel
  | inject (n : Pos)
  | output (pos : Pos) (dir : Dir)
  deriving DecidableEq, Repr

/-- The channel dependencies of all routes: a route to an NI takes the second channel after the first one. -/
inductive ChannelDep (links : List ((Pos × Dir) × Node)) : Channel → Channel → Prop
  | inject {s n pos : Pos} {dir : Dir} (hs : s ∈ fab.nis) (hn : n ∈ fab.nis) (hpos : fab.niRouterPos s.1 s.2 = some pos)
      (hdir : fab.outputPort pos n = some dir) : ChannelDep links (.inject s) (.output pos dir)
  | hop {n pos next : Pos} {dir dir' : Dir} (hn : n ∈ fab.nis) (hpos : pos ∈ fab.routers)
      (hdir : fab.outputPort pos n = some dir) (hnext : links.lookup (pos, dir) = some (.router next))
      (hdir' : fab.outputPort next n = some dir') : ChannelDep links (.output pos dir) (.output next dir')

end MeshFabric

/-! ## Where the NIs attach -/

variable {pos : Pos} {dir : Dir}

section Attach

variable {fab : MeshFabric}

theorem dirFrom_step (pos : Pos) (dir : Dir) : dirFrom pos (dir.step pos) = dir := by
  cases dir with
  | right => rw [dirFrom, Dir.step, if_pos (by simp), if_neg (by simp only; omega)]
  | left => rw [dirFrom, Dir.step, if_pos (by simp), if_pos (by simp only; omega)]
  | up => rw [dirFrom, Dir.step, if_neg (by simp), if_pos (by simp), if_neg (by simp only; omega)]
  | down => rw [dirFrom, Dir.step, if_neg (by simp), if_pos (by simp), if_pos (by simp only; omega)]
  | «local» => rw [dirFrom, Dir.step, if_neg (by simp), if_neg (by simp)]

/-- The router of an NI is next to it, and on its own position only if a router stands there. -/
theorem niRouterPos_spec (h : fab.niRouterPos n.1 n.2 = some pos) :
    pos ∈ fab.routers ∧ (dirFrom pos n).step pos = n ∧ (dirFrom pos n ≠ .local → n ∉ fab.routers) := by
  obtain ⟨x, y⟩ := n
  obtain ⟨hmem, h⟩ := ite_none_right_eq_some.1 h
  rw [Option.some.injEq] at h
  simp only at h
  rw [h] at hmem
  refine ⟨hmem, ?_⟩
  have hdir : ∃ dir : Dir, (x, y) = dir.step pos ∧ (dir ≠ .local → (x, y) ∉ fab.routers) := by
    split_ifs at h with h₁ h₂ h₃ h₄ h₅
    · exact ⟨.local, h, fun hne => absurd rfl hne⟩
    · rw [← h] at hmem
      exact absurd hmem h₁
    · exact ⟨.up, by rw [← h]; simp [Dir.step], fun _ => h₁⟩
    · exact ⟨.down, by rw [← h]; simp [Dir.step], fun _ => h₁⟩
    · exact ⟨.right, by rw [← h]; simp [Dir.step], fun _ => h₁⟩
    · exact ⟨.left, by rw [← h]; simp [Dir.step], fun _ => h₁⟩
  obtain ⟨dir, hstep, hno⟩ := hdir
  rw [hstep, dirFrom_step]
  exact ⟨rfl, fun hne => hstep ▸ hno hne⟩

theorem getOutputPort_eq (cfg : XyConfig) (hid : 0 ≤ id) : cfg.getOutputPort id = some
    (if xyNodeX id = cfg.x ∧ xyNodeY id = cfg.y then .local
     else if clamp (xyNodeX id) cfg.routerMinX cfg.routerMaxX ≠ cfg.x then
       (if clamp (xyNodeX id) cfg.routerMinX cfg.routerMaxX < cfg.x then .left else .right)
     else if xyNodeY id ≠ cfg.y then (if xyNodeY id < cfg.y then .down else .up)
     else if xyNodeX id < cfg.x then .left else .right) := by
  have hqueue : ∀ dir : Dir, cfg.getReqQueue (dir.step (cfg.x, cfg.y)) = dir := dirFrom_step (cfg.x, cfg.y)
  rw [XyConfig.getOutputPort, XyConfig.getNextRouterPos, if_neg (by omega)]
  simp only
  split_ifs
  · exact congrArg some (hqueue .local)
  · exact congrArg some (hqueue .left)
  · exact congrArg some (hqueue .right)
  · exact congrArg some (hqueue .down)
  · exact congrArg some (hqueue .up)
  · exact congrArg some (hqueue .left)
  · exact congrArg some (hqueue .right)

/-! ## What the ports are bound to -/

variable {links : List ((Pos × Dir) × Node)}

variable {node : Node}

theorem mem_routerLinks : ((pos, dir), node) ∈ fab.routerLinks ↔
    pos ∈ fab.routers ∧ dir ≠ .local ∧ dir.step pos ∈ fab.routers ∧ node = .router (dir.step pos) := by
  unfold MeshFabric.routerLinks
  simp only [mem_flatMap, mem_filterMap, ite_none_right_eq_some, Option.some.injEq, Prod.mk.injEq]
  constructor
  · rintro ⟨pos', hpos, dir', hdir, hstep, ⟨rfl, rfl⟩, rfl⟩
    refine ⟨hpos, ?_, hstep, rfl⟩
    rintro rfl
    simp at hdir
  · rintro ⟨hpos, hdir, hstep, rfl⟩
    refine ⟨pos, hpos, dir, ?_, hstep, ⟨rfl, rfl⟩, rfl⟩
    cases dir <;> simp at hdir ⊢

section

variable (h : fab.finalize = some links)
include h

theorem mem_finalize :
    ((pos, dir), node) ∈ links ↔ ((pos, dir), node) ∈ fab.routerLinks ∨
      ∃ n ∈ fab.nis, fab.niRouterPos n.1 n.2 = some pos ∧ dir = dirFrom pos n ∧ node = .ni n := by
  unfold MeshFabric.finalize at h
  obtain ⟨niLinks, hni, rfl⟩ := map_eq_some_iff.1 h
  rw [mem_append]
  refine or_congr_right ?_
  have hall := forall₂_of_mapM hni
  constructor
  · intro hmem
    obtain ⟨n, hn, hlink⟩ := forall₂_right_mem hall hmem
    obtain ⟨pos', hpos', heq⟩ := map_eq_some_iff.1 hlink
    cases heq
    exact ⟨n, hn, hpos', rfl, rfl⟩
  · rintro ⟨n, hn, hpos, rfl, rfl⟩
    obtain ⟨link, hlink, heq⟩ := forall₂_left_mem hall hn
    rw [MeshFabric.niLink, hpos, map_some, Option.some.injEq] at heq
    rwa [heq]

theorem niRouterPos_of_mem (hn : n ∈ fab.nis) :
    ∃ pos, fab.niRouterPos n.1 n.2 = some pos := by
  unfold MeshFabric.finalize at h
  obtain ⟨niLinks, hni, rfl⟩ := map_eq_some_iff.1 h
  obtain ⟨link, -, heq⟩ := forall₂_left_mem (forall₂_of_mapM hni) hn
  obtain ⟨pos, hpos, -⟩ := map_eq_some_iff.1 heq
  exact ⟨pos, hpos⟩

/-- A port is bound to one thing only: to the router it faces, or to the NI it faces. -/
theorem mem_links_unique {a b : Node} (ha : ((pos, dir), a) ∈ links) (hb : ((pos, dir), b) ∈ links) : a = b := by
  rw [mem_finalize h] at ha hb
  have hface : ∀ n, fab.niRouterPos n.1 n.2 = some pos → dir = dirFrom pos n →
      dir.step pos = n ∧ (dir ≠ .local → n ∉ fab.routers) := by
    intro n hn hdir
    obtain ⟨-, hstep, hno⟩ := niRouterPos_spec hn
    rw [hdir]
    exact ⟨hstep, hno⟩
  rcases ha with ha | ⟨n, -, hn, hdir, rfl⟩ <;> rcases hb with hb | ⟨m, -, hm, hdir', rfl⟩
  · rw [mem_routerLinks] at ha hb
    rw [ha.2.2.2, hb.2.2.2]
  · rw [mem_routerLinks] at ha
    obtain ⟨hstep, hno⟩ := hface m hm hdir'
    exact absurd (hstep ▸ ha.2.2.1) (hno ha.2.1)
  · rw [mem_routerLinks] at hb
    obtain ⟨hstep, hno⟩ := hface n hn hdir
    exact absurd (hstep ▸ hb.2.2.1) (hno hb.2.1)
  · rw [← (hface n hn hdir).1, (hface m hm hdir').1]

theorem lookup_links :
    links.lookup (pos, dir) = some node ↔ ((pos, dir), node) ∈ links := by
  constructor
  · intro hl
    obtain ⟨l₁, l₂, rfl, -⟩ := List.lookup_eq_some_iff.1 hl
    simp
  · intro hmem
    cases hl : links.lookup (pos, dir) with
    | none =>
      rw [lookup_eq_none_iff] at hl
      have := hl _ hmem
      simp at this
    | some node' =>
      obtain ⟨l₁, l₂, hl', -⟩ := List.lookup_eq_some_iff.1 hl
      have hmem' : ((pos, dir), node') ∈ links := by rw [hl']; simp
      rw [mem_links_unique h hmem hmem']

theorem lookup_links_router {next : Pos} :
    links.lookup (pos, dir) = some (.router next) ↔
      pos ∈ fab.routers ∧ dir ≠ .local ∧ next ∈ fab.routers ∧ next = dir.step pos := by
  rw [lookup_links h, mem_finalize h, mem_routerLinks]
  constructor
  · rintro (⟨hpos, hdir, hstep, heq⟩ | ⟨n, -, -, -, heq⟩)
    · cases heq; exact ⟨hpos, hdir, hstep, rfl⟩
    · cases heq
  · rintro ⟨hpos, hdir, hnext, rfl⟩
    exact Or.inl ⟨hpos, hdir, hnext, rfl⟩

theorem lookup_links_ni :
    links.lookup (pos, dir) = some (.ni n) ↔
      n ∈ fab.nis ∧ fab.niRouterPos n.1 n.2 = some pos ∧ dir = dirFrom pos n := by
  rw [lookup_links h, mem_finalize h, mem_routerLinks]
  constructor
  · rintro (⟨-, -, -, heq⟩ | ⟨n, hn, hpos, hdir, heq⟩)
    · cases heq
    · cases heq; exact ⟨hn, hpos, hdir⟩
  · rintro ⟨hn, hpos, hdir⟩
    exact Or.inr ⟨n, hn, hpos, hdir, rfl⟩

end

theorem lookup_dirFrom (hlinks : fab.finalize = some links) (hn : n ∈ fab.nis)
    (hr : fab.niRouterPos n.1 n.2 = some r) : links.lookup (r, dirFrom r n) = some (.ni n) :=
  (lookup_links_ni hlinks).2 ⟨hn, hr, rfl⟩

/-! ## Ranks of the channels -/

/-- The rank of a port towards a router: the channels along X, then those along Y, each the higher the further they
lead; then those to the NIs. -/
def dirRank (x₀ x₁ y₀ y₁ : Int) (pos : Pos) : Dir → Nat
  | .right => 1 + (pos.1 - x₀).toNat
  | .left => 1 + (x₁ - pos.1).toNat
  | .up => 2 + (x₁ - x₀).toNat + (pos.2 - y₀).toNat
  | .down => 2 + (x₁ - x₀).toNat + (y₁ - pos.2).toNat
  | .local => 3 + (x₁ - x₀).toNat + (y₁ - y₀).toNat

def channelRank (fab : MeshFabric) (x₀ x₁ y₀ y₁ : Int) : MeshFabric.Channel → Nat
  | .inject _ => 0
  | .output pos dir => dirRank x₀ x₁ y₀ y₁ pos (if dir.step pos ∈ fab.routers then dir else .local)

theorem channelRank_mem {x₀ x₁ y₀ y₁ : Int} (h : dir.step pos ∈ fab.routers) :
    channelRank fab x₀ x₁ y₀ y₁ (.output pos dir) = dirRank x₀ x₁ y₀ y₁ pos dir := by
  rw [channelRank, if_pos h]

theorem channelRank_dirFrom {x₀ x₁ y₀ y₁ : Int} (hr : fab.niRouterPos n.1 n.2 = some r) :
    channelRank fab x₀ x₁ y₀ y₁ (.output r (dirFrom r n)) = dirRank x₀ x₁ y₀ y₁ r .local := by
  obtain ⟨-, hstep, hno⟩ := niRouterPos_spec hr
  rw [channelRank, hstep]
  split_ifs with hmem
  · by_cases h : dirFrom r n = .local
    · rw [h]
    · exact absurd hmem (hno h)
  · rfl

end Attach

/-! ## Rectangular meshes -/

section Rectangle

variable {fab : MeshFabric} {links : List ((Pos × Dir) × Node)} {x₀ x₁ y₀ y₁ : Int}
  (hrect : ∀ p, p ∈ fab.routers ↔ x₀ ≤ p.1 ∧ p.1 ≤ x₁ ∧ y₀ ≤ p.2 ∧ p.2 ≤ y₁)

include hrect

theorem routerConfig_eq (hpos : pos ∈ fab.routers) : fab.routerConfig pos = ⟨pos.1, pos.2, x₀, x₁⟩ := by
  have hb := (hrect pos).1 hpos
  have hmin : (fab.routers.map (·.1)).min? = some x₀ := by
    rw [min?_eq_some_iff]
    refine ⟨mem_map.2 ⟨(x₀, pos.2), (hrect _).2 ⟨by simp, by simp only; omega, hb.2.2⟩, rfl⟩, ?_⟩
    rintro x hx
    obtain ⟨p, hp, rfl⟩ := mem_map.1 hx
    exact ((hrect p).1 hp).1
  have hmax : (fab.routers.map (·.1)).max? = some x₁ := by
    rw [max?_eq_some_iff]
    refine ⟨mem_map.2 ⟨(x₁, pos.2), (hrect _).2 ⟨by simp only; omega, by simp, hb.2.2⟩, rfl⟩, ?_⟩
    rintro x hx
    obtain ⟨p, hp, rfl⟩ := mem_map.1 hx
    exact ((hrect p).1 hp).2.1
  rw [MeshFabric.routerConfig, hmin, hmax]
  rfl

theorem clamp_eq (hr : fab.niRouterPos n.1 n.2 = some r) :
    clamp n.1 x₀ x₁ = r.1 ∧ (n.2 = r.2 ∨ (n.2 < y₀ ∧ r.2 = y₀) ∨ (y₁ < n.2 ∧ r.2 = y₁)) := by
  obtain ⟨hmem, hstep, hno⟩ := niRouterPos_spec hr
  have hrb := (hrect r).1 hmem
  have hout : dirFrom r n ≠ .local → ¬(x₀ ≤ n.1 ∧ n.1 ≤ x₁ ∧ y₀ ≤ n.2 ∧ n.2 ≤ y₁) := fun h hn =>
    hno h ((hrect n).2 hn)
  generalize dirFrom r n = dir at hstep hout
  subst hstep
  unfold clamp
  cases dir with
  | «local» => exact ⟨by dsimp only [Dir.step]; split_ifs <;> omega, Or.inl rfl⟩
  | right =>
    have hout := hout nofun
    dsimp only [Dir.step] at hout ⊢
    exact ⟨by split_ifs <;> omega, Or.inl rfl⟩
  | left =>
    have hout := hout nofun
    dsimp only [Dir.step] at hout ⊢
    exact ⟨by split_ifs <;> omega, Or.inl rfl⟩
  | up =>
    have hout := hout nofun
    dsimp only [Dir.step] at hout ⊢
    exact ⟨by split_ifs <;> omega, Or.inr (Or.inr (by omega))⟩
  | down =>
    have hout := hout nofun
    dsimp only [Dir.step] at hout ⊢
    exact ⟨by split_ifs <;> omega, Or.inr (Or.inl (by omega))⟩

section

variable (hn : n ∈ fab.nis) (hr : fab.niRouterPos n.1 n.2 = some r) (hpos : pos ∈ fab.routers)
include hn hr hpos

/-- A router sends towards the router of the destination, along X first, and the router of the destination to its NI. -/
theorem outputPort_eq : fab.outputPort pos n = some (if pos = r then dirFrom r n
       else if pos.1 < r.1 then .right
       else if r.1 < pos.1 then .left
       else if pos.2 < r.2 then .up
       else .down) := by
  obtain ⟨hmem, hstep, hno⟩ := niRouterPos_spec hr
  obtain ⟨id, hid⟩ := isSome_iff_exists.1 (fab.nodeId_isSome n hn)
  obtain ⟨hid₀, hidx, hidy⟩ := xyNodeId_decode hid
  obtain ⟨hclamp, hy⟩ := clamp_eq hrect hr
  have hb := (hrect pos).1 hpos
  have hport : fab.outputPort pos n = some
      (if n.1 = pos.1 ∧ n.2 = pos.2 then .local
       else if r.1 ≠ pos.1 then (if r.1 < pos.1 then .left else .right)
       else if n.2 ≠ pos.2 then (if n.2 < pos.2 then .down else .up)
       else if n.1 < pos.1 then .left else .right) := by
    rw [MeshFabric.outputPort, hid, bind_some, routerConfig_eq hrect hpos, getOutputPort_eq _ hid₀, hidx, hidy,
      hclamp]
  rw [hport, Option.some.injEq]
  by_cases hpr : pos = r
  · -- the last hop
    rw [if_pos hpr, hpr]
    have h₁ := congrArg Prod.fst hstep
    have h₂ := congrArg Prod.snd hstep
    generalize dirFrom r n = dir at h₁ h₂ ⊢
    cases dir <;> dsimp only [Dir.step] at h₁ h₂ <;> split_ifs <;> first | rfl | omega
  · have hne : ¬(pos.1 = r.1 ∧ pos.2 = r.2) := fun h => hpr (Prod.ext h.1 h.2)
    have hnp : ¬(n.1 = pos.1 ∧ n.2 = pos.2) := by
      -- the NI of a router position attaches to that router
      rintro ⟨h₁, h₂⟩
      have hnpos : n = pos := Prod.ext h₁ h₂
      have hlocal : dirFrom r n = .local := by
        by_contra h
        exact hno h (hnpos ▸ hpos)
      rw [hlocal] at hstep
      exact hpr (hnpos ▸ hstep.symm)
    rw [if_neg hnp, if_neg hpr]
    split_ifs <;> first | rfl | omega

/-- Away from the router of the destination, a router sends along X to its column, then along Y. -/
theorem outputPort_towards (hne : pos ≠ r) (hdir : fab.outputPort pos n = some dir) :
    (dir = .right ∧ pos.1 < r.1) ∨ (dir = .left ∧ r.1 < pos.1) ∨ (dir = .up ∧ pos.1 = r.1 ∧ pos.2 < r.2) ∨
      (dir = .down ∧ pos.1 = r.1 ∧ r.2 < pos.2) := by
  have hne' : ¬(pos.1 = r.1 ∧ pos.2 = r.2) := fun h => hne (Prod.ext h.1 h.2)
  rw [outputPort_eq hrect hn hr hpos, if_neg hne, Option.some.injEq] at hdir
  split_ifs at hdir with h₁ h₂ h₃
  · exact Or.inl ⟨hdir.symm, h₁⟩
  · exact Or.inr (Or.inl ⟨hdir.symm, h₂⟩)
  · exact Or.inr (Or.inr (Or.inl ⟨hdir.symm, by omega, h₃⟩))
  · exact Or.inr (Or.inr (Or.inr ⟨hdir.symm, by omega, by omega⟩))

/-- A hop towards the router of a destination stays on the routers and comes one hop closer. -/
theorem follow_hop (hne : pos ≠ r) : ∃ dir : Dir, fab.outputPort pos n = some dir ∧ dir ≠ .local ∧
      dir.step pos ∈ fab.routers ∧
      (r.1 - (dir.step pos).1).natAbs + (r.2 - (dir.step pos).2).natAbs + 1 =
        (r.1 - pos.1).natAbs + (r.2 - pos.2).natAbs := by
  have hb := (hrect pos).1 hpos
  have hrb := (hrect r).1 (niRouterPos_spec hr).1
  have hdir := outputPort_eq hrect hn hr hpos
  refine ⟨_, hdir, ?_⟩
  rcases outputPort_towards hrect hn hr hpos hne hdir with ⟨hd, h⟩ | ⟨hd, h⟩ | ⟨hd, h⟩ | ⟨hd, h⟩ <;> rw [hd] <;>
    refine ⟨nofun, (hrect _).2 ?_, ?_⟩ <;> dsimp only [Dir.step] <;> omega

end

theorem follow_spec (hlinks : fab.finalize = some links) (hn : n ∈ fab.nis)
    (hr : fab.niRouterPos n.1 n.2 = some r) : ∀ {d : Nat} {pos : Pos}, pos ∈ fab.routers →
    (r.1 - pos.1).natAbs + (r.2 - pos.2).natAbs = d →
    (∀ k ≤ d, ∃ q ∈ fab.routers, fab.follow links n k pos = some q) ∧ fab.follow links n d pos = some r
  | 0, pos, hpos, hd => by
    have heq : pos = r := Prod.ext (by omega) (by omega)
    refine ⟨fun k hk => ?_, by rw [heq]; rfl⟩
    rw [Nat.le_zero.1 hk]
    exact ⟨pos, hpos, rfl⟩
  | d + 1, pos, hpos, hd => by
    have hne : pos ≠ r := by rintro rfl; omega
    obtain ⟨dir, hdir, hlocal, hstep, hcloser⟩ := follow_hop hrect hn hr hpos hne
    obtain ⟨hall, hend⟩ := follow_spec hlinks hn hr hstep (by omega : _ = d)
    have hnext : fab.nextNode links n pos = some (.router (dir.step pos)) := by
      rw [MeshFabric.nextNode, hdir, bind_some]
      exact (lookup_links_router hlinks).2 ⟨hpos, hlocal, hstep, rfl⟩
    have hfollow : ∀ k, fab.follow links n (k + 1) pos = fab.follow links n k (dir.step pos) := by
      intro k
      rw [MeshFabric.follow, hnext]
    refine ⟨fun k hk => ?_, by rw [hfollow, hend]⟩
    cases k with
    | zero => exact ⟨pos, hpos, rfl⟩
    | succ k => rw [hfollow]; exact hall k (by omega)

theorem channelDep_ranks (hlinks : fab.finalize = some links) :
    Ranks (fab.ChannelDep links) (channelRank fab x₀ x₁ y₀ y₁) := by
  rintro c c' h
  cases h with
  | @inject s n pos dir hs hn hpos hdir =>
    rw [channelRank, channelRank]
    generalize (if dir.step pos ∈ fab.routers then dir else .local) = d
    cases d <;> simp only [dirRank] <;> omega
  | @hop n pos next dir dir' hn hpos hdir hnext hdir' =>
    obtain ⟨r, hr⟩ := niRouterPos_of_mem hlinks hn
    obtain ⟨-, hlocal, hmem, rfl⟩ := (lookup_links_router hlinks).1 hnext
    have hb := (hrect pos).1 hpos
    have hb' := (hrect _).1 hmem
    have hne : pos ≠ r := by
      -- the router of the destination does not send to a router
      rintro rfl
      rw [outputPort_eq hrect hn hr hpos, if_pos rfl] at hdir
      cases hdir
      rw [lookup_dirFrom hlinks hn hr] at hnext
      cases hnext
    rw [channelRank_mem hmem]
    by_cases hend : dir.step pos = r
    · -- the next hop is the last one
      rw [hend, outputPort_eq hrect hn hr (niRouterPos_spec hr).1, if_pos rfl] at hdir'
      cases hdir'
      rw [hend, channelRank_dirFrom hr]
      cases dir <;> simp only [dirRank, Dir.step] at hb' hlocal ⊢ <;> first | exact absurd rfl hlocal | omega
    · -- the next hop goes on along X, turns to Y or goes on along Y
      obtain ⟨d, hd, -, hd', -⟩ := follow_hop hrect hn hr hmem hend
      rw [hd] at hdir'
      cases hdir'
      rw [channelRank_mem hd']
      have hb'' := (hrect _).1 hd'
      rcases outputPort_towards hrect hn hr hpos hne hdir with ⟨rfl, h⟩ | ⟨rfl, h⟩ | ⟨rfl, h⟩ | ⟨rfl, h⟩ <;>
        rcases outputPort_towards hrect hn hr hmem hend hd with ⟨rfl, h'⟩ | ⟨rfl, h'⟩ | ⟨rfl, h'⟩ | ⟨rfl, h'⟩ <;>
        simp only [dirRank, Dir.step] at hb' hb'' h' ⊢ <;> omega

end Rectangle

/-- XY routing on a rectangular mesh: from every router, the route to every NI takes as many hops as the mesh makes
necessary, stays on the routers, and ends at the one port that the NI is bound to; and the routes cannot deadlock. -/
theorem xyRouting_correct (fab : MeshFabric) (x₀ x₁ y₀ y₁ : Int)
    (hrect : ∀ p, p ∈ fab.routers ↔ x₀ ≤ p.1 ∧ p.1 ≤ x₁ ∧ y₀ ≤ p.2 ∧ p.2 ≤ y₁)
    (links : List ((Pos × Dir) × Node)) (hlinks : fab.finalize = some links) :
    (∀ n ∈ fab.nis, ∃ r, fab.niRouterPos n.1 n.2 = some r ∧
      (∀ port, links.lookup port = some (.ni n) ↔ port = (r, dirFrom r n)) ∧
      ∀ pos ∈ fab.routers,
        let d := (r.1 - pos.1).natAbs + (r.2 - pos.2).natAbs
        (∀ k ≤ d, ∃ q ∈ fab.routers, fab.follow links n k pos = some q) ∧ fab.follow links n d pos = some r ∧
          fab.outputPort r n = some (dirFrom r n)) ∧
    ¬∃ c, IsCycle (fab.ChannelDep links) c := by
  refine ⟨fun n hn => ?_, fun ⟨c, hc⟩ => (channelDep_ranks hrect hlinks).not_isCycle hc⟩
  obtain ⟨r, hr⟩ := niRouterPos_of_mem hlinks hn
  refine ⟨r, hr, fun port => ?_, fun pos hpos => ?_⟩
  · obtain ⟨pos, dir⟩ := port
    rw [lookup_links_ni hlinks, hr]
    constructor
    · rintro ⟨-, ⟨⟩, rfl⟩; rfl
    · rintro ⟨⟩; exact ⟨hn, rfl, rfl⟩
  · obtain ⟨hall, hend⟩ := follow_spec hrect hlinks hn hr hpos rfl
    refine ⟨hall, hend, ?_⟩
    rw [outputPort_eq hrect hn hr (niRouterPos_spec hr).1, if_pos rfl]

/-- A mesh of two routers, with NIs in it and to its left and above it. -/
def smallMesh : MeshFabric where
  dimX := 4
  dimY := 4
  routers := [(1, 1), (2, 1)]
  nis := [(1, 1), (2, 1), (0, 1), (2, 2)]
  routers_nodup := by decide
  nis_nodup := by decide
  nodeId_isSome := by decide

theorem xyRouting_correct_smallMesh :
    ∃ links, smallMesh.finalize = some links ∧
      (∀ n ∈ smallMesh.nis, ∃ r, smallMesh.niRouterPos n.1 n.2 = some r ∧
        (∀ port, links.lookup port = some (.ni n) ↔ port = (r, dirFrom r n)) ∧
        ∀ pos ∈ smallMesh.routers,
          let d := (r.1 - pos.1).natAbs + (r.2 - pos.2).natAbs
          (∀ k ≤ d, ∃ q ∈ smallMesh.routers, smallMesh.follow links n k pos = some q) ∧
            smallMesh.follow links n d pos = some r ∧ smallMesh.outputPort r n = some (dirFrom r n)) ∧
      ¬∃ c, IsCycle (smallMesh.ChannelDep links) c := by
  have hlinks : smallMesh.finalize.isSome := by decide
  obtain ⟨links, hlinks⟩ := isSome_iff_exists.1 hlinks
  refine ⟨links, hlinks, xyRouting_correct smallMesh 1 2 1 1 ?_ links hlinks⟩
  rintro ⟨x, y⟩
  simp only [smallMesh, mem_cons, not_mem_nil, or_false, Prod.mk.injEq]
  omega

end GvsocPulp.FloonocV2
