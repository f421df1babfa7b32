import GvsocPulp.Lib.Lists

/-!
# XY routing on a mesh of queues

The positions and the routing of `Router` (`floonoc_router.cpp`). A request goes from queue to queue along a lane that
only depends on where it starts and where it goes.

- `next_dist`: every hop gets nearer to the destination;
- `mem_lane_input`, `mem_lane_output`: what comes after a queue of a lane;
- `rank_lt`: the queues are ordered such that every lane goes up.
-/

namespace GvsocPulp.TeranocNoc

open List

variable {q : Queue} {p' : Pos} {d' : Dir}

abbrev Pos := Int × Int

/-- `DIR_*`, in the order of their values. -/
inductive Dir
  | right
  | left
  | up
  | down
  | «local»
  deriving DecidableEq, Repr

structure Config where
  dimX : Nat
  dimY : Nat
  queueSize : Nat
  queueSize_pos : 0 < queueSize

/-- There is a router, and a network interface, at this position. -/
def Config.Mesh (cfg : Config) (p : Pos) : Prop := 0 ≤ p.1 ∧ p.1 < cfg.dimX ∧ 0 ≤ p.2 ∧ p.2 < cfg.dimY

instance (cfg : Config) (p : Pos) : Decidable (cfg.Mesh p) := inferInstanceAs (Decidable (_ ∧ _))

def Config.positions (cfg : Config) : List Pos :=
  ((List.range cfg.dimX).product (List.range cfg.dimY)).map fun c => ((c.1 : Int), (c.2 : Int))

def getPosFromQueue (p : Pos) : Dir → Pos
  | .right => (p.1 + 1, p.2)
  | .left => (p.1 - 1, p.2)
  | .up => (p.1, p.2 + 1)
  | .down => (p.1, p.2 - 1)
  | .local => p

def getReqQueue (p src : Pos) : Dir :=
  if src.1 ≠ p.1 then (if src.1 < p.1 then .left else .right)
  else if src.2 ≠ p.2 then (if src.2 < p.2 then .down else .up)
  else .local

def getNextRouterPos (p dest : Pos) : Pos :=
  if dest.1 = p.1 ∧ dest.2 = p.2 then p
  else if dest.1 = p.1 then (p.1, if dest.2 < p.2 then p.2 - 1 else p.2 + 1)
  else (if dest.1 < p.1 then p.1 - 1 else p.1 + 1, p.2)

/-- The output queue of the router at `p` for a destination. -/
def route (p dest : Pos) : Dir := getReqQueue p (getNextRouterPos p dest)

/-- The input queue of a neighbour that an output queue leads to. -/
def Dir.opposite : Dir → Dir
  | .right => .left
  | .left => .right
  | .up => .down
  | .down => .up
  | .local => .local

variable {cfg : Config} {p dest : Pos} {d : Dir}

theorem mem_positions : p ∈ cfg.positions ↔ cfg.Mesh p := by
  obtain ⟨x, y⟩ := p
  simp only [Config.positions, Config.Mesh, List.mem_map, Prod.exists, pair_mem_product, mem_range, Prod.mk.injEq]
  constructor
  · rintro ⟨a, b, ⟨ha, hb⟩, rfl, rfl⟩
    omega
  · intro h
    exact ⟨x.toNat, y.toNat, by omega, by omega, by omega⟩

theorem positions_nodup (cfg : Config) : cfg.positions.Nodup := by
  refine List.Nodup.map (fun c c' h => ?_) (nodup_range.product nodup_range)
  obtain ⟨hx, hy⟩ := Prod.mk.inj h
  exact Prod.ext (Int.ofNat.inj hx) (Int.ofNat.inj hy)

@[simp] theorem getReqQueue_pos (p : Pos) (d : Dir) : getReqQueue p (getPosFromQueue p d) = d := by
  have hl : ∀ z : Int, z - 1 < z := fun z => by omega
  have hr : ∀ z : Int, ¬ z + 1 < z := fun z => by omega
  cases d <;> simp [getReqQueue, getPosFromQueue, hl, hr]

@[simp] theorem getReqQueue_self (p : Pos) : getReqQueue p p = .local := getReqQueue_pos p .local

@[simp] theorem getPosFromQueue_opposite (p : Pos) (d : Dir) :
    getPosFromQueue (getPosFromQueue p d) d.opposite = p := by
  cases d <;> simp [getPosFromQueue, Dir.opposite]

@[simp] theorem getReqQueue_back (p : Pos) (d : Dir) : getReqQueue (getPosFromQueue p d) p = d.opposite := by
  have h := getReqQueue_pos (getPosFromQueue p d) d.opposite
  rwa [getPosFromQueue_opposite] at h

@[simp] theorem opposite_opposite (d : Dir) : d.opposite.opposite = d := by cases d <;> rfl

theorem opposite_eq_local : d.opposite = .local ↔ d = .local := by cases d <;> simp [Dir.opposite]

theorem getPosFromQueue_eq_self : getPosFromQueue p d = p ↔ d = .local := by
  constructor
  · intro h
    rw [← getReqQueue_pos p d, h, getReqQueue_self]
  · rintro rfl
    rfl

theorem exists_getNextRouterPos (p dest : Pos) : ∃ d, getNextRouterPos p dest = getPosFromQueue p d := by
  rw [getNextRouterPos]
  split_ifs
  · exact ⟨.local, rfl⟩
  · exact ⟨.down, rfl⟩
  · exact ⟨.up, rfl⟩
  · exact ⟨.left, rfl⟩
  · exact ⟨.right, rfl⟩

theorem getNextRouterPos_eq (p dest : Pos) : getPosFromQueue p (route p dest) = getNextRouterPos p dest := by
  obtain ⟨d, h⟩ := exists_getNextRouterPos p dest
  rw [route, h, getReqQueue_pos]

theorem route_eq_local : route p dest = .local ↔ p = dest := by
  obtain ⟨x, y⟩ := p
  obtain ⟨x', y'⟩ := dest
  rw [← getPosFromQueue_eq_self (p := (x, y)), getNextRouterPos_eq, getNextRouterPos]
  split_ifs <;> simp <;> omega

/-- How many hops it is to the destination. -/
def dist (p dest : Pos) : Nat := (dest.1 - p.1).natAbs + (dest.2 - p.2).natAbs

theorem next_dist (h : p ≠ dest) : dist (getNextRouterPos p dest) dest + 1 = dist p dest := by
  obtain ⟨x, y⟩ := p
  obtain ⟨x', y'⟩ := dest
  simp only [ne_eq, Prod.ext_iff, not_and] at h
  simp only [dist, getNextRouterPos]
  split_ifs <;> simp <;> omega

theorem next_mesh (hp : cfg.Mesh p) (hdest : cfg.Mesh dest) : cfg.Mesh (getNextRouterPos p dest) := by
  obtain ⟨x, y⟩ := p
  obtain ⟨x', y'⟩ := dest
  simp only [Config.Mesh, getNextRouterPos] at hp hdest ⊢
  split_ifs <;> simp <;> omega

/-! ## Lanes -/

inductive Queue
  | input (p : Pos) (d : Dir)
  | output (p : Pos) (d : Dir)
  deriving DecidableEq, Repr

def Queue.pos : Queue → Pos
  | .input p _ => p
  | .output p _ => p

/-- The queues from the target of `dest` back to the input queue `d` of the router at `p`. -/
def lane (dest p : Pos) (d : Dir) : List Queue :=
  (if _h : p = dest then [] else lane dest (getNextRouterPos p dest) (route p dest).opposite) ++
    [.output p (route p dest), .input p d]
termination_by dist p dest
decreasing_by
  have := next_dist _h
  omega

theorem lane_self : lane dest dest d = [.output dest .local, .input dest d] := by
  rw [lane, dif_pos rfl, route_eq_local.2 rfl]
  rfl

theorem lane_next (h : p ≠ dest) : lane dest p d =
    lane dest (getNextRouterPos p dest) (route p dest).opposite ++ [.output p (route p dest), .input p d] := by
  rw [lane, dif_neg h]

theorem lane_induct {P : Pos → Dir → Prop} (dest : Pos) (hself : ∀ d, P dest d)
    (hnext : ∀ p d, p ≠ dest → P (getNextRouterPos p dest) (route p dest).opposite → P p d) (p : Pos)
      (d : Dir) : P p d := by
  by_cases h : p = dest
  · exact h ▸ hself d
  · exact hnext p d h (lane_induct dest hself hnext _ _)
termination_by dist p dest
decreasing_by
  have := next_dist h
  omega

theorem lane_ends (dest p : Pos) (d : Dir) : ∃ bs, lane dest p d = bs ++ [.input p d] := by
  rw [lane]
  exact ⟨(if p = dest then [] else lane dest (getNextRouterPos p dest) (route p dest).opposite) ++
    [.output p (route p dest)], by split_ifs <;> simp⟩

theorem dist_le_of_mem : ∀ {p : Pos} {d : Dir}, q ∈ lane dest p d → dist q.pos dest ≤ dist p dest := by
  intro p d
  refine lane_induct (P := fun p d => q ∈ lane dest p d → dist q.pos dest ≤ dist p dest) dest ?_ ?_ p d
  · intro d hq
    rw [lane_self] at hq
    rcases mem_pair.1 hq with rfl | rfl <;> exact le_rfl
  · intro p d hp ih hq
    rw [lane_next hp, mem_append] at hq
    rcases hq with hq | hq
    · have := ih hq
      have := next_dist hp
      omega
    · rcases mem_pair.1 hq with rfl | rfl <;> exact le_rfl

theorem lane_nodup (dest p : Pos) (d : Dir) : (lane dest p d).Nodup := by
  refine lane_induct (P := fun p d => (lane dest p d).Nodup) dest ?_ ?_ p d
  · intro d
    rw [lane_self]
    simp
  · intro p d hp ih
    rw [lane_next hp]
    refine nodup_append.2 ⟨ih, by simp, fun q hq q' hq' heq => ?_⟩
    have hle := dist_le_of_mem hq
    have hpos : q'.pos = p := by rcases mem_pair.1 hq' with rfl | rfl <;> rfl
    rw [heq, hpos] at hle
    have := next_dist hp
    omega

theorem mesh_of_mem (hdest : cfg.Mesh dest) (hp : cfg.Mesh p) (hq : q ∈ lane dest p d) : cfg.Mesh q.pos := by
  refine lane_induct (P := fun p d => cfg.Mesh p → q ∈ lane dest p d → cfg.Mesh q.pos) dest ?_ ?_ p d hp hq
  · intro d hp hq
    rw [lane_self] at hq
    rcases mem_pair.1 hq with rfl | rfl <;> exact hp
  · intro p d hne ih hp hq
    rw [lane_next hne, mem_append] at hq
    rcases hq with hq | hq
    · exact ih (next_mesh hp hdest) hq
    · rcases mem_pair.1 hq with rfl | rfl <;> exact hp

theorem mem_lane_input (hq : .input p' d' ∈ lane dest p d) :
    ∃ bs as, lane dest p d = bs ++ .output p' (route p' dest) :: .input p' d' :: as := by
  refine lane_induct (P := fun p d => .input p' d' ∈ lane dest p d →
    ∃ bs as, lane dest p d = bs ++ .output p' (route p' dest) :: .input p' d' :: as) dest ?_ ?_ p d hq
  · intro d hq
    rw [lane_self] at hq ⊢
    simp only [mem_cons, Queue.input.injEq, reduceCtorEq, not_mem_nil, or_false, false_or] at hq
    obtain ⟨rfl, rfl⟩ := hq
    exact ⟨[], [], by rw [route_eq_local.2 rfl]; rfl⟩
  · intro p d hp ih hq
    rw [lane_next hp] at hq ⊢
    rcases mem_append.1 hq with hq | hq
    · obtain ⟨bs, as, heq⟩ := ih hq
      exact ⟨bs, as ++ [.output p (route p dest), .input p d], by simp [heq]⟩
    · simp only [mem_cons, Queue.input.injEq, reduceCtorEq, not_mem_nil, or_false, false_or] at hq
      obtain ⟨rfl, rfl⟩ := hq
      exact ⟨_, [], rfl⟩

theorem mem_lane_output (hq : .output p' d' ∈ lane dest p d) :
    d' = route p' dest ∧ if p' = dest then ∃ as, lane dest p d = .output p' d' :: as
      else ∃ bs as, lane dest p d = bs ++ .input (getPosFromQueue p' d') d'.opposite :: .output p' d' :: as := by
  refine lane_induct (P := fun p d => .output p' d' ∈ lane dest p d → d' = route p' dest ∧
    if p' = dest then ∃ as, lane dest p d = .output p' d' :: as
    else ∃ bs as, lane dest p d = bs ++ .input (getPosFromQueue p' d') d'.opposite :: .output p' d' :: as)
      dest ?_ ?_ p d hq
  · intro d hq
    rw [lane_self] at hq ⊢
    simp only [mem_cons, Queue.output.injEq, reduceCtorEq, not_mem_nil, or_false] at hq
    obtain ⟨rfl, rfl⟩ := hq
    refine ⟨(route_eq_local.2 rfl).symm, ?_⟩
    rw [if_pos rfl]
    exact ⟨_, rfl⟩
  · intro p d hp ih hq
    rw [lane_next hp] at hq ⊢
    rcases mem_append.1 hq with hq | hq
    · obtain ⟨hd, hnext⟩ := ih hq
      refine ⟨hd, ?_⟩
      split at hnext
      case isTrue heq =>
        obtain ⟨as, h⟩ := hnext
        rw [if_pos heq]
        exact ⟨as ++ [.output p (route p dest), .input p d], by simp [h]⟩
      case isFalse hne =>
        obtain ⟨bs, as, h⟩ := hnext
        rw [if_neg hne]
        exact ⟨bs, as ++ [.output p (route p dest), .input p d], by simp [h]⟩
    · simp only [mem_cons, Queue.output.injEq, reduceCtorEq, not_mem_nil, or_false] at hq
      obtain ⟨rfl, rfl⟩ := hq
      refine ⟨rfl, ?_⟩
      rw [if_neg hp]
      obtain ⟨bs, hbs⟩ := lane_ends dest (getNextRouterPos p' dest) (route p' dest).opposite
      exact ⟨bs, [.input p' d], by simp [hbs, getNextRouterPos_eq]⟩

/-! ## The order of the queues -/

/-- Where a request that came in from `d` can still have to go: along the row first, and along the column then. -/
def Heading (p dest : Pos) : Dir → Prop
  | .left => p.1 ≤ dest.1
  | .right => dest.1 ≤ p.1
  | .down => dest.1 = p.1 ∧ p.2 ≤ dest.2
  | .up => dest.1 = p.1 ∧ dest.2 ≤ p.2
  | .local => True

theorem heading_next (p dest : Pos) : Heading (getNextRouterPos p dest) dest (route p dest).opposite := by
  obtain ⟨x, y⟩ := p
  obtain ⟨x', y'⟩ := dest
  have hroute : ∀ d, getNextRouterPos (x, y) (x', y') = getPosFromQueue (x, y) d →
    route (x, y) (x', y') = d := fun d h => by
    rw [route, h, getReqQueue_pos]
  by_cases hx : x' = x
  · by_cases hy : y' = y
    · rw [hroute .local (by simp [getNextRouterPos, getPosFromQueue, hx, hy])]
      trivial
    · by_cases hlt : y' < y
      · have h : getNextRouterPos (x, y) (x', y') = getPosFromQueue (x, y) .down := by
          simp [getNextRouterPos, getPosFromQueue, hx, hy, hlt]
        rw [hroute _ h, h]
        exact ⟨hx, show y' ≤ y - 1 by omega⟩
      · have h : getNextRouterPos (x, y) (x', y') = getPosFromQueue (x, y) .up := by
          simp [getNextRouterPos, getPosFromQueue, hx, hy, hlt]
        rw [hroute _ h, h]
        exact ⟨hx, show y + 1 ≤ y' by omega⟩
  · by_cases hlt : x' < x
    · have h : getNextRouterPos (x, y) (x', y') = getPosFromQueue (x, y) .left := by
        simp [getNextRouterPos, getPosFromQueue, hx, hlt]
      rw [hroute _ h, h]
      exact show x' ≤ x - 1 by omega
    · have h : getNextRouterPos (x, y) (x', y') = getPosFromQueue (x, y) .right := by
        simp [getNextRouterPos, getPosFromQueue, hx, hlt]
      rw [hroute _ h, h]
      exact show x + 1 ≤ x' by omega

theorem heading_of_mem (hd : Heading p dest d) (hq : .input p' d' ∈ lane dest p d) :
    Heading p' dest d' := by
  refine lane_induct (P := fun p d => Heading p dest d → .input p' d' ∈ lane dest p d → Heading p' dest d') dest
    ?_ ?_ p d hd hq
  · intro d hd hq
    rw [lane_self] at hq
    simp only [mem_cons, Queue.input.injEq, reduceCtorEq, not_mem_nil, or_false, false_or] at hq
    obtain ⟨rfl, rfl⟩ := hq
    exact hd
  · intro p d hp ih hd hq
    rw [lane_next hp] at hq
    rcases mem_append.1 hq with hq | hq
    · exact ih (heading_next p dest) hq
    · simp only [mem_cons, Queue.input.injEq, reduceCtorEq, not_mem_nil, or_false, false_or] at hq
      obtain ⟨rfl, rfl⟩ := hq
      exact hd

/-- Every lane goes up in this order. -/
def rank (cfg : Config) : Queue → Int
  | .input _ .local => 0
  | .input p .left => 2 * p.1 + 1
  | .output p .right => 2 * p.1 + 2
  | .input p .right => 2 * (cfg.dimX - p.1) + 1
  | .output p .left => 2 * (cfg.dimX - p.1) + 2
  | .input p .down => 2 * cfg.dimX + 4 + 2 * p.2 + 1
  | .output p .up => 2 * cfg.dimX + 4 + 2 * p.2 + 2
  | .input p .up => 2 * cfg.dimX + 4 + 2 * (cfg.dimY - p.2) + 1
  | .output p .down => 2 * cfg.dimX + 4 + 2 * (cfg.dimY - p.2) + 2
  | .output _ .local => 2 * cfg.dimX + 2 * cfg.dimY + 9

theorem rank_le (h : cfg.Mesh q.pos) : rank cfg q ≤ 2 * cfg.dimX + 2 * cfg.dimY + 9 := by
  obtain ⟨hx, hx', hy, hy'⟩ := h
  cases q with
  | input p d => cases d <;> simp only [rank, Queue.pos] at * <;> omega
  | output p d => cases d <;> simp only [rank, Queue.pos] at * <;> omega

theorem rank_lt_input (hd : d ≠ .local) :
    rank cfg (.output p d) < rank cfg (.input (getPosFromQueue p d) d.opposite) := by
  cases d
  case «local» => exact absurd rfl hd
  all_goals simp only [rank, getPosFromQueue, Dir.opposite]; omega

theorem rank_lt_output (hp : cfg.Mesh p) (hd : Heading p dest d) :
    rank cfg (.input p d) < rank cfg (.output p (route p dest)) := by
  obtain ⟨hx, hx', hy, hy'⟩ := hp
  have hnext := heading_next p dest
  rw [← getNextRouterPos_eq] at hnext
  generalize route p dest = out at hnext ⊢
  cases d <;> cases out <;> simp only [Heading, Dir.opposite, getPosFromQueue] at hd hnext <;>
    simp only [rank] <;> omega

end GvsocPulp.TeranocNoc
