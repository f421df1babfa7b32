import GvsocPulp.FloonocV2.DimensionOrder
import GvsocPulp.FloonocV2.HexSteps

/-!
# `hexamesh`

A route first goes along its row to the column of its target; where the next position does not exist, it takes the
neighbour closest to the target.

- `HexMesh`: a router and an NI for each coordinate, and links between adjacent positions;
- `hexHop_step`: on a `Convex` shape every hop is a `HexStep`; `hexamesh_accepted`: `check_routes` accepts the tables;
- `not_accepted_of_gap`: where the last edge of the ring lacks some of its positions but the first, two routers send the
  packets for a third one back and forth;
- `hexamesh_works_iff`: the sizes that work.
-/

namespace GvsocPulp.FloonocV2.Routing

open Lib List Option

/-! ## The generator -/

/-- `distance(a, b)`; `none` where an entry is missing. -/
def axialDistance (a b : List Int) : Option Nat :=
  match a[0]?, a[1]?, b[0]?, b[1]? with
  | some q, some r, some x, some y => some (hexDistance (q, r) (x, y))
  | _, _, _, _ => none

/-- `next_coord`: along the row, then along the column. -/
def hexNext (q r : Int) (dst : List Int) : Except RoutingError (List Int) :=
  match dst[0]? with
  | none => .error .shortCoordinate
  | some x =>
    if q ≠ x then .ok [q + if x > q then 1 else -1, r]
    else
      match dst[1]? with
      | none => .error .shortCoordinate
      | some y => .ok [q, r + if y > r then 1 else -1]

variable (t : Topology)

/-- `min(candidates, key=…)`: the neighbour closest to a position, the first one of several. -/
def closest (src : NodeId) (dst : List Int) : Except RoutingError NodeId :=
  if ∃ n ∈ t.routerAdj src, axialDistance (coordOf t n) dst = none then .error .shortCoordinate
  else
    match (t.routerAdj src).argmin fun n =>
      toLex ((axialDistance (coordOf t n) dst).getD 0, (t.routerAdj src).idxOf n) with
    | none => .error .minEmpty
    | some n => .ok n

def hexHop (index : CoordMap) (src : NodeId) (q r : Int) (target : NodeId) : Except RoutingError NodeId :=
  match hexNext q r (coordOf t target) with
  | .error e => .error e
  | .ok next =>
    match index next with
    | some router => .ok router
    | none => closest t src (coordOf t target)

/-- The hops of one router: `q, r = topo.coords[src]` first. -/
def hexHops (index : CoordMap) (src : NodeId) : Except RoutingError Hops :=
  match coordOf t src with
  | [q, r] => hopsTowards (hexHop t index src q r) src t.routers
  | coord => .error (.unpack coord.length)

def hexamesh : Except RoutingError Tables :=
  match coordToRouter t (fun router => .noAxialCoordinates (t.name router)) t.routers fun _ => none with
  | .error e => .error e
  | .ok index =>
    match firstHopsOf (hexHops t index) t.routers with
    | .error e => .error e
    | .ok firstHops => tablesFromFirstHops t firstHops t.routers

/-! ## The network -/

def posOf (router : NodeId) : Axial := ((coordOf t router).getD 0 0, (coordOf t router).getD 1 0)

structure HexMesh (n : Nat) (t : Topology) : Prop where
  coords : ∃ coords, hexameshCoords n = some coords ∧
    (t.routers.map t.coords).Perm (coords.map fun p => some [p.1, p.2])
  attached : ∀ ni ∈ t.nis, ∃ r, t.adj ni = [r]
  served : ∀ r ∈ t.routers, ∃! ni, ni ∈ t.nis ∧ t.adj ni = [r]
  links : ∀ u ∈ t.routers, ∀ v ∈ t.routers, v ∈ t.adj u ↔ hexDistance (posOf t u) (posOf t v) = 1

/-- The routers have the positions of a shape, and links to the adjacent ones. -/
structure Placed (t : Topology) (k j : Int) : Prop where
  coord : ∀ u ∈ t.routers, t.coords u = some [(posOf t u).1, (posOf t u).2]
  inside : ∀ u ∈ t.routers, Inside k j (posOf t u)
  router : ∀ p, Inside k j p → ∃ u ∈ t.routers, posOf t u = p
  inj : ∀ u ∈ t.routers, ∀ v ∈ t.routers, posOf t u = posOf t v → u = v
  links : ∀ u ∈ t.routers, ∀ v ∈ t.routers, v ∈ t.adj u ↔ hexDistance (posOf t u) (posOf t v) = 1

section Mesh

variable {n : Nat} {t : Topology} {k j : Int}

theorem posOf_eq {u : NodeId} {p : Axial} (h : t.coords u = some [p.1, p.2]) : posOf t u = p := by
  unfold posOf coordOf
  rw [h]
  rfl

theorem HexMesh.placed (h : HexMesh n t) (hn : 0 < n) :
    ∃ m j : Nat, n = 3 * m * (m + 1) + 1 + j ∧ j ≤ 6 * (m + 1) ∧ Placed t (m + 1) j := by
  obtain ⟨coords, hcoords, hperm⟩ := h.coords
  have hnodup := hexameshCoords_nodup hn hcoords
  obtain ⟨m, j, hlen, hj, hrun⟩ := hexameshCoords_eq hn
  rw [hcoords, some.injEq] at hrun
  rw [hexagon_length] at hlen
  have hinside : ∀ p, p ∈ coords ↔ Inside (m + 1) j p := by
    intro p
    rw [hrun, mem_append, mem_hexagon, mem_partialRing hj, inside_iff]
  have hat : ∀ u ∈ t.routers, ∃ p ∈ coords, t.coords u = some [p.1, p.2] := by
    intro u hu
    obtain ⟨p, hp, heq⟩ := List.mem_map.1 (hperm.mem_iff.1 (List.mem_map_of_mem hu))
    exact ⟨p, hp, heq.symm⟩
  refine ⟨m, j, hlen, hj, fun u hu => ?_, fun u hu => ?_, fun p hp => ?_, fun u hu v hv huv => ?_, h.links⟩
  · obtain ⟨p, -, heq⟩ := hat u hu
    rw [posOf_eq heq]
    exact heq
  · obtain ⟨p, hp, heq⟩ := hat u hu
    rw [posOf_eq heq]
    exact (hinside p).1 hp
  · obtain ⟨u, hu, heq⟩ := List.mem_map.1 (hperm.mem_iff.2 (List.mem_map_of_mem ((hinside p).2 hp)))
    exact ⟨u, hu, posOf_eq heq⟩
  · have hmap : (t.routers.map t.coords).Nodup := by
      refine hperm.nodup_iff.2 (hnodup.map_on fun p _ p' _ hpp => ?_)
      simp only [some.injEq, List.cons.injEq, and_true] at hpp
      exact Prod.ext hpp.1 hpp.2
    obtain ⟨p, -, hp⟩ := hat u hu
    obtain ⟨p', -, hp'⟩ := hat v hv
    refine inj_on_of_nodup_map hmap hu hv ?_
    rw [posOf_eq hp, posOf_eq hp'] at huv
    rw [hp, hp', huv]

variable (hP : Placed t k j)
include hP

theorem Placed.coordOf_eq {u : NodeId} (hu : u ∈ t.routers) :
    coordOf t u = [(posOf t u).1, (posOf t u).2] := by
  rw [coordOf, hP.coord u hu]
  rfl

theorem Placed.axialDistance_eq {u w : NodeId} (hu : u ∈ t.routers) (hw : w ∈ t.routers) :
    axialDistance (coordOf t u) (coordOf t w) = some (hexDistance (posOf t u) (posOf t w)) := by
  rw [hP.coordOf_eq hu, hP.coordOf_eq hw]
  rfl

/-- The neighbour that is taken is at least as close to the target as any other one. -/
theorem Placed.closest_ok {u w v : NodeId} (hw : w ∈ t.routers) (hv : v ∈ t.routerAdj u) :
    ∃ v' ∈ t.routerAdj u, closest t u (coordOf t w) = .ok v' ∧
      hexDistance (posOf t v') (posOf t w) ≤ hexDistance (posOf t v) (posOf t w) := by
  have hdist : ∀ n ∈ t.routerAdj u, axialDistance (coordOf t n) (coordOf t w) =
    some (hexDistance (posOf t n) (posOf t w)) :=
    fun n hn => hP.axialDistance_eq (t.mem_routerAdj.1 hn).2 hw
  have hall : ¬∃ n ∈ t.routerAdj u, axialDistance (coordOf t n) (coordOf t w) = none := by
    rintro ⟨n, hn, hnone⟩
    rw [hdist n hn] at hnone
    cases hnone
  unfold closest
  rw [if_neg hall]
  cases hmin : (t.routerAdj u).argmin fun n =>
      toLex ((axialDistance (coordOf t n) (coordOf t w)).getD 0, (t.routerAdj u).idxOf n) with
  | none =>
    rw [argmin_eq_none] at hmin
    rw [hmin] at hv
    cases hv
  | some v' =>
    have hv' := argmin_mem hmin
    have hle := le_of_mem_argmin hv hmin
    rw [hdist v hv, hdist v' hv', getD_some, getD_some, Prod.Lex.toLex_le_toLex] at hle
    refine ⟨v', hv', rfl, ?_⟩
    rcases hle with hlt | ⟨heq, -⟩
    · exact hlt.le
    · exact heq.le

theorem Placed.index_eq {missing : NodeId → RoutingError} {index : CoordMap}
    (h : coordToRouter t missing t.routers (fun _ => none) = .ok index) (p : Axial) :
    (Inside k j p → ∃ v ∈ t.routers, index [p.1, p.2] = some v ∧ posOf t v = p) ∧
      (¬Inside k j p → index [p.1, p.2] = none) := by
  obtain ⟨-, hsound, hcomplete⟩ := coordToRouter_ok h
  have hat : ∀ v, index [p.1, p.2] = some v → v ∈ t.routers ∧ posOf t v = p := by
    intro v hv
    rcases hsound _ v hv with hv | ⟨hmem, hc⟩
    · cases hv
    · exact ⟨hmem, posOf_eq hc⟩
  constructor
  · intro hin
    obtain ⟨u, hu, rfl⟩ := hP.router p hin
    obtain ⟨v, hv⟩ := isSome_iff_exists.1 (hcomplete _ (.inr ⟨u, hu, hP.coord u hu⟩))
    exact ⟨v, (hat v hv).1, hv, (hat v hv).2⟩
  · intro hout
    cases hv : index [p.1, p.2] with
    | none => rfl
    | some v =>
      obtain ⟨hmem, hpos⟩ := hat v hv
      exact absurd (hpos ▸ hP.inside v hmem) hout

end Mesh

/-! ## The neighbours closer to a target -/

section Neighbours

variable {q r q' r' x y : Int}

theorem hexDistance_eq_one : hexDistance (q, r) (q', r') = 1 ↔
    (q' = q + 1 ∧ r' = r) ∨ (q' = q - 1 ∧ r' = r) ∨ (q' = q ∧ r' = r + 1) ∨ (q' = q ∧ r' = r - 1) ∨
      (q' = q + 1 ∧ r' = r - 1) ∨ (q' = q - 1 ∧ r' = r + 1) := by
  unfold hexDistance
  simp only
  omega

/-- Where the signs of the two differences agree, the distance is their sum, else the larger one. -/
theorem hexDistance_eq (q r x y : Int) : (hexDistance (q, r) (x, y) : Int) =
    if 0 ≤ x - q ∧ 0 ≤ y - r then (x - q) + (y - r)
    else if x - q ≤ 0 ∧ y - r ≤ 0 then (q - x) + (r - y)
    else max ((x - q).natAbs : Int) (y - r).natAbs := by
  unfold hexDistance
  simp only
  omega

theorem hexDistance_le {n : Int} : (hexDistance (q, r) (x, y) : Int) ≤ n ↔
    x - q ≤ n ∧ q - x ≤ n ∧ y - r ≤ n ∧ r - y ≤ n ∧ x - q + (y - r) ≤ n ∧ q - x + (r - y) ≤ n := by
  unfold hexDistance
  simp only
  omega

section Closer

variable (hadj : hexDistance (q, r) (q', r') = 1) (hcloser : hexDistance (q', r') (x, y) < hexDistance (q, r) (x, y))
include hadj hcloser

/-- A step towards a node at distance `n`, along the axis that is off the most, stays within `n`. -/
theorem closer_step {n : Int} (hn : hexDistance (q, r) (x, y) = n) :
    ((q' = q + 1 ∧ r' = r) ∨ (q' = q - 1 ∧ r' = r) ∨ (q' = q ∧ r' = r + 1) ∨ (q' = q ∧ r' = r - 1) ∨
      (q' = q + 1 ∧ r' = r - 1) ∨ (q' = q - 1 ∧ r' = r + 1)) ∧
    x - q' < n ∧ q' - x < n ∧ y - r' < n ∧ r' - y < n ∧ x - q' + (y - r') < n ∧ q' - x + (r' - y) < n := by
  have h := hexDistance_le.1 (Int.le_refl (hexDistance (q', r') (x, y)))
  exact ⟨hexDistance_eq_one.1 hadj, by omega⟩

theorem closer_southeast (hx : q < x) (hy : y < r) : r' = r - 1 ∧ q' = q + 1 ∨ r' = r - 1 ∧ q' = q ∨ r' = r ∧
    q' = q + 1 := by
  have h := hexDistance_eq q r x y
  rw [if_neg (by omega), if_neg (by omega)] at h
  have hstep := closer_step hadj hcloser h
  omega

theorem closer_northeast (hx : q < x) (hy : r < y) : r' = r + 1 ∧ q' = q ∨ r' = r ∧ q' = q + 1 := by
  have h := hexDistance_eq q r x y
  rw [if_pos (by omega)] at h
  have hstep := closer_step hadj hcloser h
  omega

theorem closer_northwest (hx : x < q) (hy : r < y) :
    r' = r + 1 ∧ q' = q - 1 ∨ r' = r + 1 ∧ q' = q ∧ q - x < y - r ∨ r' = r ∧ q' = q - 1 := by
  have h := hexDistance_eq q r x y
  rw [if_neg (by omega), if_neg (by omega)] at h
  have hstep := closer_step hadj hcloser h
  omega

theorem closer_southwest (hx : x < q) (hy : y < r) : r' = r - 1 ∧ q' = q ∨ r' = r ∧ q' = q - 1 := by
  have h := hexDistance_eq q r x y
  rw [if_neg (by omega), if_pos (by omega)] at h
  have hstep := closer_step hadj hcloser h
  omega

end Closer

end Neighbours

/-! ## The hops -/

section Hops

variable {t : Topology} {k j : Int} {missing : NodeId → RoutingError} {index : CoordMap} {u w : NodeId} {p : Axial}

theorem Placed.mem_routerAdj (hP : Placed t k j) {v : NodeId} (hu : u ∈ t.routers) (hv : v ∈ t.routers) :
    v ∈ t.routerAdj u ↔ hexDistance (posOf t u) (posOf t v) = 1 := by
  rw [t.mem_routerAdj, hP.links u hu v hv]
  exact and_iff_left hv

section

variable (hP : Placed t k j) (hindex : coordToRouter t missing t.routers (fun _ => none) = .ok index)
include hP hindex

theorem Placed.hexHop_there {q r : Int} (hnext : hexNext q r (coordOf t w) = .ok [p.1, p.2]) (hin : Inside k j p) :
    ∃ v ∈ t.routers, hexHop t index u q r w = .ok v ∧ posOf t v = p := by
  obtain ⟨v, hv, hlookup, hpos⟩ := (hP.index_eq hindex p).1 hin
  refine ⟨v, hv, ?_, hpos⟩
  rw [hexHop, hnext]
  simp only [hlookup]

/-- A hop where the next position is missing goes to a neighbour as close to the target as any other. -/
theorem Placed.hexHop_missing (hu : u ∈ t.routers) (hw : w ∈ t.routers)
    {q r : Int} (hnext : hexNext q r (coordOf t w) = .ok [p.1, p.2]) (hout : ¬Inside k j p) {p' : Axial}
    (hin : Inside k j p') (hadj : hexDistance (posOf t u) p' = 1) :
    ∃ v ∈ t.routers, hexHop t index u q r w = .ok v ∧ hexDistance (posOf t u) (posOf t v) = 1 ∧
      hexDistance (posOf t v) (posOf t w) ≤ hexDistance p' (posOf t w) := by
  obtain ⟨v₀, hv₀, rfl⟩ := hP.router p' hin
  obtain ⟨v, hv, hclosest, hle⟩ := hP.closest_ok hw ((hP.mem_routerAdj hu hv₀).2 hadj)
  have hvr := (t.mem_routerAdj.1 hv).2
  refine ⟨v, hvr, ?_, (hP.mem_routerAdj hu hvr).1 hv, hle⟩
  rw [hexHop, hnext]
  simp only [(hP.index_eq hindex p).2 hout]
  exact hclosest

end

variable {q r x y : Int}

variable (hP : Placed t k j)
include hP

theorem Placed.hexNext_eq (hw : w ∈ t.routers) (hpw : posOf t w = (x, y)) :
    hexNext q r (coordOf t w) =
      if q ≠ x then .ok [q + if x > q then 1 else -1, r] else .ok [q, r + if y > r then 1 else -1] := by
  rw [hP.coordOf_eq hw, hpw]
  rfl

theorem Placed.hexHop_column (hc : Convex k j)
    (hindex : coordToRouter t missing t.routers (fun _ => none) = .ok index) (hu : u ∈ t.routers) (hw : w ∈ t.routers)
    (hpu : posOf t u = (q, r)) (hpw : posOf t w = (q, y)) (hy : r ≠ y) :
    ∃ v ∈ t.routers, hexHop t index u q r w = .ok v ∧ ∃ q' r', posOf t v = (q', r') ∧
      hexDistance (q, r) (q', r') = 1 ∧ HexStep k j q r q y q' r' := by
  have ha := hpu ▸ hP.inside u hu
  have hd := hpw ▸ hP.inside w hw
  have hnext := @Placed.hexNext_eq t k j w q r q y hP hw hpw
  rw [if_neg (by simp)] at hnext
  rcases Int.lt_or_gt_of_ne hy with hy | hy
  · rw [if_pos hy] at hnext
    obtain ⟨v, hv, hhop, hpos⟩ := hP.hexHop_there (p := (q, r + 1)) hindex hnext (column_up hc ha hd hy)
    exact ⟨v, hv, hhop, q, r + 1, hpos, hexDistance_eq_one.2 (by omega), .up hy⟩
  · rw [if_neg (by omega)] at hnext
    obtain ⟨v, hv, hhop, hpos⟩ := hP.hexHop_there (p := (q, r - 1)) hindex hnext (column_down hc ha hd hy)
    exact ⟨v, hv, hhop, q, r - 1, hpos, hexDistance_eq_one.2 (by omega), .down hy⟩

/-- A hop around the end of a row: the step is one of those that come closer, but not the one along the row. -/
theorem Placed.hexHop_around
    (hindex : coordToRouter t missing t.routers (fun _ => none) = .ok index) (hu : u ∈ t.routers) (hw : w ∈ t.routers)
    (hpu : posOf t u = (q, r)) (hpw : posOf t w = (x, y)) {p p' : Axial}
    (hnext : hexNext q r (coordOf t w) = .ok [p.1, p.2]) (hout : ¬Inside k j p) (hin : Inside k j p')
    (hadj : hexDistance (q, r) p' = 1) (hcloser : hexDistance p' (x, y) < hexDistance (q, r) (x, y)) :
    ∃ v ∈ t.routers, hexHop t index u q r w = .ok v ∧ ∃ q' r', posOf t v = (q', r') ∧
      hexDistance (q, r) (q', r') = 1 ∧ hexDistance (q', r') (x, y) < hexDistance (q, r) (x, y) ∧ (q', r') ≠ p := by
  obtain ⟨v, hv, hhop, hadj', hle⟩ := hP.hexHop_missing hindex hu hw hnext hout hin (hpu ▸ hadj)
  rw [hpu] at hadj'
  rw [hpw] at hle
  exact ⟨v, hv, hhop, (posOf t v).1, (posOf t v).2, rfl, hadj', hle.trans_lt hcloser,
    fun h => hout (h ▸ hP.inside v hv)⟩

variable (hc : Convex k j) (hindex : coordToRouter t missing t.routers (fun _ => none) = .ok index) (hu : u ∈ t.routers)
  (hw : w ∈ t.routers)
include hc hindex hu hw

theorem Placed.hexHop_east (hpu : posOf t u = (q, r)) (hpw : posOf t w = (x, y)) (hx : q < x) :
    ∃ v ∈ t.routers, hexHop t index u q r w = .ok v ∧ ∃ q' r', posOf t v = (q', r') ∧
      hexDistance (q, r) (q', r') = 1 ∧ HexStep k j q r x y q' r' := by
  have ha := hpu ▸ hP.inside u hu
  have hd := hpw ▸ hP.inside w hw
  have hnext := @Placed.hexNext_eq t k j w q r x y hP hw hpw
  rw [if_pos (by omega), if_pos hx] at hnext
  by_cases hin : Inside k j (q + 1, r)
  · obtain ⟨v, hv, hhop, hpos⟩ := hP.hexHop_there (p := (q + 1, r)) hindex hnext hin
    exact ⟨v, hv, hhop, q + 1, r, hpos, hexDistance_eq_one.2 (by omega), .east hx⟩
  · have hdist := hexDistance_eq q r x y
    obtain ⟨hend, ⟨hr, hy, hin'⟩ | ⟨hr, hy, hin'⟩⟩ := east_blocked hc ha hd hx hin
    · have hdist' := hexDistance_eq (q + 1) (r - 1) x y
      obtain ⟨v, hv, hhop, q', r', hpos, hadj, hcloser, hne⟩ := hP.hexHop_around (p := (q + 1, r)) hindex hu hw hpu hpw
        hnext hin hin' (hexDistance_eq_one.2 (by omega)) (by omega)
      refine ⟨v, hv, hhop, q', r', hpos, hadj, ?_⟩
      rcases closer_southeast hadj hcloser hx hy with ⟨rfl, rfl⟩ | ⟨rfl, rfl⟩ | ⟨rfl, rfl⟩
      · exact .eastDiagonal hx hend hr hy
      · exact .eastDown hx hend hr hy
      · exact absurd rfl hne
    · have hdist' := hexDistance_eq q (r + 1) x y
      obtain ⟨v, hv, hhop, q', r', hpos, hadj, hcloser, hne⟩ := hP.hexHop_around (p := (q + 1, r)) hindex hu hw hpu hpw
        hnext hin hin' (hexDistance_eq_one.2 (by omega)) (by omega)
      refine ⟨v, hv, hhop, q', r', hpos, hadj, ?_⟩
      rcases closer_northeast hadj hcloser hx hy with ⟨rfl, rfl⟩ | ⟨rfl, rfl⟩
      · exact .eastUp hx hend hr hy
      · exact absurd rfl hne

theorem Placed.hexHop_west (hpu : posOf t u = (q, r)) (hpw : posOf t w = (x, y)) (hx : x < q) :
    ∃ v ∈ t.routers, hexHop t index u q r w = .ok v ∧ ∃ q' r', posOf t v = (q', r') ∧
      hexDistance (q, r) (q', r') = 1 ∧ HexStep k j q r x y q' r' := by
  have ha := hpu ▸ hP.inside u hu
  have hd := hpw ▸ hP.inside w hw
  have hnext := @Placed.hexNext_eq t k j w q r x y hP hw hpw
  rw [if_pos (by omega), if_neg (by omega)] at hnext
  by_cases hin : Inside k j (q - 1, r)
  · obtain ⟨v, hv, hhop, hpos⟩ := hP.hexHop_there (p := (q - 1, r)) hindex hnext hin
    exact ⟨v, hv, hhop, q - 1, r, hpos, hexDistance_eq_one.2 (by omega), .west hx⟩
  · have hdist := hexDistance_eq q r x y
    obtain ⟨hend, ⟨hr, hy, hup⟩ | ⟨hr, hy, hin'⟩⟩ := west_blocked hc ha hd hx hin
    · obtain ⟨p', hin', hadj', hcloser'⟩ : ∃ p', Inside k j p' ∧ hexDistance (q, r) p' = 1 ∧
          hexDistance p' (x, y) < hexDistance (q, r) (x, y) := by
        rcases hup with hin' | ⟨hlt, hin'⟩
        · have hdist' := hexDistance_eq (q - 1) (r + 1) x y
          exact ⟨_, hin', hexDistance_eq_one.2 (by omega), by omega⟩
        · have hdist' := hexDistance_eq q (r + 1) x y
          exact ⟨_, hin', hexDistance_eq_one.2 (by omega), by omega⟩
      obtain ⟨v, hv, hhop, q', r', hpos, hadj, hcloser, hne⟩ := hP.hexHop_around (p := (q - 1, r)) hindex hu hw hpu hpw
        hnext hin hin' hadj' hcloser'
      refine ⟨v, hv, hhop, q', r', hpos, hadj, ?_⟩
      rcases closer_northwest hadj hcloser hx hy with ⟨rfl, rfl⟩ | ⟨rfl, rfl, hlt⟩ | ⟨rfl, rfl⟩
      · exact .westDiagonal hx hend hr hy
      · exact .westUp hx hend hr hlt
      · exact absurd rfl hne
    · have hdist' := hexDistance_eq q (r - 1) x y
      obtain ⟨v, hv, hhop, q', r', hpos, hadj, hcloser, hne⟩ := hP.hexHop_around (p := (q - 1, r)) hindex hu hw hpu hpw
        hnext hin hin' (hexDistance_eq_one.2 (by omega)) (by omega)
      refine ⟨v, hv, hhop, q', r', hpos, hadj, ?_⟩
      rcases closer_southwest hadj hcloser hx hy with ⟨rfl, rfl⟩ | ⟨rfl, rfl⟩
      · exact .westDown hx hend hr hy
      · exact absurd rfl hne

/-- **The hops** of a HexaMesh whose rows and columns have no gap. -/
theorem Placed.hexHop_step (hwu : w ≠ u) : ∃ v ∈ t.routerAdj u, hexHop t index u (posOf t u).1 (posOf t u).2 w = .ok v ∧
      HexStep k j (posOf t u).1 (posOf t u).2 (posOf t w).1 (posOf t w).2 (posOf t v).1 (posOf t v).2 := by
  suffices hstep : ∃ v ∈ t.routers, hexHop t index u (posOf t u).1 (posOf t u).2 w = .ok v ∧
      ∃ q' r', posOf t v = (q', r') ∧ hexDistance (posOf t u) (q', r') = 1 ∧
        HexStep k j (posOf t u).1 (posOf t u).2 (posOf t w).1 (posOf t w).2 q' r' by
    obtain ⟨v, hv, hhop, q', r', hpos, hadj, hstep⟩ := hstep
    rw [← hpos] at hadj
    exact ⟨v, (hP.mem_routerAdj hu hv).2 hadj, hhop, by rw [hpos]; exact hstep⟩
  obtain ⟨⟨q, r⟩, hpu⟩ : ∃ p, posOf t u = p := ⟨_, rfl⟩
  obtain ⟨⟨x, y⟩, hpw⟩ : ∃ p, posOf t w = p := ⟨_, rfl⟩
  rw [hpu, hpw]
  rcases Int.lt_trichotomy q x with hx | rfl | hx
  · exact hP.hexHop_east hc hindex hu hw hpu hpw hx
  · refine hP.hexHop_column hc hindex hu hw hpu hpw ?_
    rintro rfl
    exact hwu (hP.inj w hw u hu (hpw.trans hpu.symm))
  · exact hP.hexHop_west hc hindex hu hw hpu hpw hx

end Hops

/-! ## The tables -/

section Tables

variable {t : Topology} {k j : Int} {tables : Tables}

theorem Placed.hexamesh_hops (hP : Placed t k j) (h : hexamesh t = .ok tables) :
    ∃ (index : CoordMap) (hops : NodeId → Hops),
      coordToRouter t (fun router => .noAxialCoordinates (t.name router)) t.routers (fun _ => none) = .ok index ∧
      tablesFromFirstHops t (t.routers.map fun u => (u, hops u)) t.routers = .ok tables ∧
      ∀ u ∈ t.routers, ∀ w ∈ t.routers, w ≠ u →
        ∃ v, hexHop t index u (posOf t u).1 (posOf t u).2 w = .ok v ∧ (hops u).lookup w = some v := by
  unfold hexamesh at h
  split at h
  case h_1 => cases h
  case h_2 index hindex =>
    split at h
    case h_1 => cases h
    case h_2 firstHops hfirst =>
      obtain ⟨hops, rfl, hhops⟩ := firstHopsOf_ok hfirst
      refine ⟨index, hops, hindex, h, fun u hu w hw hwu => ?_⟩
      have hrun := hhops u hu
      rw [hexHops, hP.coordOf_eq hu] at hrun
      exact hopsTowards_ok hrun w hw hwu

theorem Placed.hexamesh_of_hops (hP : Placed t k j) {index : CoordMap}
    (hindex : coordToRouter t (fun router => .noAxialCoordinates (t.name router)) t.routers (fun _ => none) = .ok index)
    (hall : ∀ u ∈ t.routers, ∀ w ∈ t.routers, w ≠ u → ∃ v, hexHop t index u (posOf t u).1 (posOf t u).2 w = .ok v) :
    ∃ hops : NodeId → Hops,
      hexamesh t = tablesFromFirstHops t (t.routers.map fun u => (u, hops u)) t.routers ∧
      ∀ u ∈ t.routers, ∀ w ∈ t.routers, w ≠ u →
        ∃ v, hexHop t index u (posOf t u).1 (posOf t u).2 w = .ok v ∧ (hops u).lookup w = some v := by
  have hrun : ∀ u ∈ t.routers, hexHops t index u =
      hopsTowards (hexHop t index u (posOf t u).1 (posOf t u).2) u t.routers := by
    intro u hu
    rw [hexHops, hP.coordOf_eq hu]
  obtain ⟨firstHops, hfirst⟩ := @firstHopsOf_of_forall (hexHops t index) t.routers fun u hu => by
    rw [hrun u hu]
    exact hopsTowards_of_forall (hall u hu)
  obtain ⟨hops, hmap, hhops⟩ := firstHopsOf_ok hfirst
  refine ⟨hops, ?_, fun u hu w hw hwu => ?_⟩
  · rw [hexamesh, hindex]
    simp only [hfirst, hmap]
  · exact hopsTowards_ok (hrun u hu ▸ hhops u hu) w hw hwu

/-- **HexaMesh tables are safe** where the rows and columns have no gap. -/
theorem Placed.hexamesh_accepted (hP : Placed t k j) (hc : Convex k j) (hni : ∀ ni ∈ t.nis, ∃ r, t.adj ni = [r]) :
    ∃ tables, hexamesh t = .ok tables ∧ Accepted t tables := by
  obtain ⟨index, hindex⟩ := @coordToRouter_of_coords t (fun router => .noAxialCoordinates (t.name router)) t.routers
    (fun _ => none) fun r hr => by rw [hP.coord r hr]; rfl
  obtain ⟨hops, hrun, hhops⟩ := hP.hexamesh_of_hops hindex fun u hu w hw hwu =>
    (hP.hexHop_step hc hindex hu hw hwu).imp fun v hv => hv.2.1
  have hstep : ∀ u ∈ t.routers, ∀ w ∈ t.routers, w ≠ u → ∃ v ∈ t.routerAdj u, (hops u).lookup w = some v ∧
      HexStep k j (posOf t u).1 (posOf t u).2 (posOf t w).1 (posOf t w).2 (posOf t v).1 (posOf t v).2 := by
    intro u hu w hw hwu
    obtain ⟨v, hadj, hhop, hstep⟩ := hP.hexHop_step hc hindex hu hw hwu
    obtain ⟨v', hhop', hlookup⟩ := hhops u hu w hw hwu
    rw [hhop, Except.ok.injEq] at hhop'
    subst hhop'
    exact ⟨v, hadj, hlookup, hstep⟩
  have hspec : ∀ w ∈ t.routers, ∀ u ∈ t.routers, w ≠ u → ∀ v, (hops u).lookup w = some v → v ∈ t.routerAdj u ∧
      HexStep k j (posOf t u).1 (posOf t u).2 (posOf t w).1 (posOf t w).2 (posOf t v).1 (posOf t v).2 := by
    intro w hw u hu hwu v hv
    obtain ⟨v', hadj, hlookup, hstep⟩ := hstep u hu w hw hwu
    rw [hv, some.injEq] at hlookup
    subst hlookup
    exact ⟨hadj, hstep⟩
  obtain ⟨tables, htables, hT⟩ := hopTables_of_hops hni fun u hu ni hm w hw hwu =>
    (hstep u hu w (router_of_attached hm hw) hwu).imp fun v hv => hv.2.1
  refine ⟨tables, hrun.trans htables, ?_⟩
  refine hT.accepted (fun a b => hexKey k j (posOf t a).1 (posOf t a).2 (posOf t b).1 (posOf t b).2)
    (fun u hu ni hm => ?_)
    (fun w hw u hu hwu v hv => (hspec w hw u hu hwu v hv).1) ?_
  · obtain ⟨w, hw⟩ := hni ni hm
    have hwr := router_of_attached hm hw
    obtain ⟨l, hl, -⟩ := hT.routesTo hm hw
      (fun v => ((posOf t v).1 - (posOf t w).1).natAbs + ((posOf t v).2 - (posOf t w).2).natAbs) (fun v hv hwv => by
        obtain ⟨v', hadj, hlookup, hstep⟩ := hstep v hv w hwr hwv
        exact ⟨v', hadj, hlookup, hstep.l1_lt⟩) hu
    exact ⟨l, hl⟩
  · intro w hw a ha b hb c hc' hwa hwb hab hbc
    exact hexKey_lt hc (hP.inside a ha) (hP.inside b hb) (hP.inside w hw) (hspec w hw a ha hwa b hab).2
      (hspec w hw b hb hwb c hbc).2

/-- Two routers that are each other's hop towards an NI never reach it. -/
theorem not_routesTo_of_swap {ni u v : NodeId} {l : List NodeId} (huv : tables.hop u ni = some v)
    (hvu : tables.hop v ni = some u) (hu : ni ≠ u) (hv : ni ≠ v) : ¬RoutesTo t tables ni u l := by
  intro h
  have hcopy := h
  cases h with
  | here => exact hu rfl
  | hop _ _ h₁ _ hl =>
    rw [huv, some.injEq] at h₁
    subst h₁
    cases hl with
    | here => exact hv rfl
    | hop _ _ h₂ _ hl' =>
      rw [hvu, some.injEq] at h₂
      subst h₂
      have hlen := congrArg List.length (hcopy.unique hl')
      simp only [length_cons] at hlen
      omega

theorem Accepted.isRoute (h : Accepted t tables) {src dst : NodeId} (hs : src ∈ t.nis) (hd : dst ∈ t.nis)
    (hne : src ≠ dst) : ∃ path, IsRoute t tables src dst path := by
  obtain ⟨n, routes, hrun⟩ := h
  obtain ⟨hall, -⟩ := checkRoutes_ok (hrun n le_rfl)
  obtain ⟨i, hi, heq⟩ := getElem_of_mem (mem_niPairs.2 ⟨hs, hd, hne⟩)
  obtain ⟨hlen, hget⟩ := List.forall₂_iff_get.1 hall
  have hroute := hget i hi (hlen ▸ hi)
  simp only [get_eq_getElem, heq] at hroute
  exact ⟨_, hroute⟩

theorem Placed.not_accepted_of_gap (hP : Placed t k j) (hlow : 5 * k < j) (hhigh : j < 6 * k)
    (hserved : ∀ r ∈ t.routers, ∃ ni ∈ t.nis, t.adj ni = [r]) (h : hexamesh t = .ok tables) : ¬Accepted t tables := by
  intro hacc
  obtain ⟨index, hops, hindex, htables, hhops⟩ := hP.hexamesh_hops h
  obtain ⟨a, ha, hpa⟩ := hP.router (k, 0) (by unfold Inside rowLeft rowRight; simp only; omega)
  obtain ⟨b, hb, hpb⟩ := hP.router (k - 1, 0) (by unfold Inside rowLeft rowRight; simp only; omega)
  obtain ⟨c, hc, hpc⟩ := hP.router (k, -k) (by unfold Inside rowLeft rowRight; simp only; omega)
  have hout : ∀ p : Axial, (0 < p.2 ∧ k ≤ p.1) ∨ k < p.1 ∨ p = (k, -1) → ¬Inside k j p := by
    rintro ⟨q, r⟩ hp
    simp only [Prod.mk.injEq] at hp
    unfold Inside rowLeft rowRight
    simp only
    omega
  have hca : c ≠ a := by
    rintro rfl
    rw [hpa] at hpc
    simp only [Prod.mk.injEq] at hpc
    omega
  have hcb : c ≠ b := by
    rintro rfl
    rw [hpb] at hpc
    simp only [Prod.mk.injEq] at hpc
    omega
  obtain ⟨ni, hni, hw⟩ := hserved c hc
  obtain ⟨src, hsrc, hr⟩ := hserved a ha
  obtain ⟨hT, -⟩ := hopTables_of_ok (ne_nil_of_mem ha) htables
  have hab : tables.hop a ni = some b := by
    obtain ⟨v, hhop, hlookup⟩ := hhops a ha c hc hca
    rw [hT.hop_eq a ha ni hni c hw, if_neg hca, hlookup]
    have hnext := @Placed.hexNext_eq t k j c k 0 k (-k) hP hc hpc
    rw [if_neg (by simp), if_neg (by omega)] at hnext
    have hin := hpb ▸ hP.inside b hb
    obtain ⟨v', hv', hhop', hadj, hle⟩ := hP.hexHop_missing (p := (k, 0 + -1)) hindex ha hc hnext
      (hout _ (.inr (.inr rfl))) hin (by rw [hpa]; exact hexDistance_eq_one.2 (by omega))
    rw [hpa] at hhop
    rw [hhop, Except.ok.injEq] at hhop'
    subst hhop'
    obtain ⟨⟨q, r⟩, hpv⟩ : ∃ p, posOf t v = p := ⟨_, rfl⟩
    have hinv := hP.inside v hv'
    rw [hpa, hpv] at hadj
    rw [hpv, hpc] at hle
    rw [hpv] at hinv
    have hqr : q = k - 1 ∧ r = 0 := by
      have hnot : ¬((0 < r ∧ k ≤ q) ∨ k < q ∨ (q = k ∧ r = -1)) := fun hp =>
        hout (q, r) (by simpa using hp) hinv
      have hdist := hexDistance_eq q r k (-k)
      have hdist' := hexDistance_eq (k - 1) 0 k (-k)
      rcases hexDistance_eq_one.1 hadj with hq | hq | hq | hq | hq | hq <;> omega
    rw [hqr.1, hqr.2] at hpv
    rw [hP.inj v hv' b hb (hpv.trans hpb.symm)]
  have hba : tables.hop b ni = some a := by
    obtain ⟨v, hhop, hlookup⟩ := hhops b hb c hc hcb
    rw [hT.hop_eq b hb ni hni c hw, if_neg hcb, hlookup]
    have hnext := @Placed.hexNext_eq t k j c (k - 1) 0 k (-k) hP hc hpc
    rw [if_pos (by omega), if_pos (by omega)] at hnext
    rw [Int.sub_add_cancel] at hnext
    obtain ⟨v', hv', hhop', hpos⟩ := @Placed.hexHop_there t k j _ index b c (k, 0) hP hindex (k - 1) 0 hnext
      (hpa ▸ hP.inside a ha)
    rw [hpb] at hhop
    rw [hhop, Except.ok.injEq] at hhop'
    subst hhop'
    rw [hP.inj v hv' a ha (hpos.trans hpa.symm)]
  have hne : src ≠ ni := by
    rintro rfl
    rw [hr] at hw
    cases hw
    exact hca rfl
  obtain ⟨path, router, l, hrouter, -, hl⟩ := hacc.isRoute hsrc hni hne
  rw [hr] at hrouter
  cases hrouter
  have hnr : ∀ u ∈ t.routers, ni ≠ u := fun u hu heq => not_router_of_ni hni (heq ▸ hu)
  exact not_routesTo_of_swap hab hba (hnr a ha) (hnr b hb) hl

end Tables

/-! ## The sizes that work -/

/-- What a HexaMesh is for: distinct coordinates without a gap, and tables that `check_routes` accepts. -/
def HexMeshWorks (n : Nat) (t : Topology) : Prop :=
  (∃ coords, hexameshCoords n = some coords ∧ coords.length = n ∧ coords.Nodup ∧
    ∀ c ∈ coords, ∀ p, hexDistance p (0, 0) < hexDistance c (0, 0) → p ∈ coords) ∧
  ∃ tables, hexamesh t = .ok tables ∧ Accepted t tables

theorem hexagon_size_mono {a b : Nat} (h : a ≤ b) : 3 * a * (a + 1) ≤ 3 * b * (b + 1) :=
  Nat.mul_le_mul (Nat.mul_le_mul_left 3 h) (Nat.succ_le_succ h)

theorem hexagon_size_succ (a : Nat) : 3 * (a + 1) * (a + 1 + 1) = 3 * a * (a + 1) + 6 * (a + 1) := by ring

theorem gap_iff {m j : Nat} (hj : j ≤ 6 * (m + 1)) :
    (∃ k g, 0 < g ∧ g < k ∧ 3 * m * (m + 1) + 1 + j + g = 3 * k * (k + 1) + 1) ↔ 5 * (m + 1) < j ∧ j < 6 * (m + 1) := by
  have hsucc := hexagon_size_succ m
  constructor
  · rintro ⟨k, g, hg, hgk, heq⟩
    have hk : k = m + 1 := by
      rcases lt_trichotomy k (m + 1) with hlt | heq' | hlt
      · have := hexagon_size_mono (show k ≤ m by omega)
        omega
      · exact heq'
      · obtain ⟨k', rfl⟩ : ∃ k', k = k' + 1 := ⟨k - 1, by omega⟩
        have := hexagon_size_mono (show m + 1 ≤ k' by omega)
        have := hexagon_size_succ k'
        omega
    subst hk
    omega
  · rintro ⟨hlow, hhigh⟩
    exact ⟨m + 1, 6 * (m + 1) - j, by omega, by omega, by omega⟩

/-- **HexaMesh routing works** for the sizes whose last ring is complete or lacks an edge at least. -/
theorem hexamesh_works_iff {n : Nat} {t : Topology} (hn : 0 < n) (h : HexMesh n t) :
    HexMeshWorks n t ↔ ¬∃ k g, 0 < g ∧ g < k ∧ n + g = 3 * k * (k + 1) + 1 := by
  obtain ⟨m, j, rfl, hj, hP⟩ := h.placed hn
  rw [gap_iff hj]
  constructor
  · rintro ⟨-, tables, htables, hacc⟩ ⟨hlow, hhigh⟩
    refine hP.not_accepted_of_gap (by omega) (by omega) (fun r hr => ?_) htables hacc
    obtain ⟨ni, hni, -⟩ := h.served r hr
    exact ⟨ni, hni⟩
  · intro hgap
    have hc : Convex (m + 1) j := ⟨by omega, by omega, by omega⟩
    refine ⟨?_, hP.hexamesh_accepted hc h.attached⟩
    obtain ⟨coords, hcoords, -⟩ := h.coords
    obtain ⟨m', j', hlen, hj', hrun⟩ := hexameshCoords_eq hn
    refine ⟨coords, hcoords, ?_, hexameshCoords_nodup hn hcoords,
      fun c hc p hp => hexameshCoords_closer hn hcoords hc hp⟩
    rw [hcoords, some.injEq] at hrun
    rw [hrun, length_append, length_take, ringList_length, hlen]
    omega

/-! ## Two sizes -/

/-- The links of a HexaMesh, as the test of the generator adds them. -/
def hexLinks (coords : List Axial) : List (NodeId × NodeId) :=
  (coords.zipIdx.map fun c => [(1, 0), (0, 1), (-1, 1)].filterMap fun d : Axial =>
    (coords.idxOf? (c.1.1 + d.1, c.1.2 + d.2)).map fun i => ((c.2 : Int), (i : Int))).flatten

/-- A HexaMesh with consecutive identifiers. -/
def hexMeshOf (n : Nat) : Topology :=
  let coords := (hexameshCoords n).getD []
  match gridOf (coords.zipIdx.map fun c => (c.2, [c.1.1, c.1.2])) (hexLinks coords) with
  | .ok t => t
  | .error _ => .empty

theorem HexMesh.of_lists {n : Nat} {t : Topology} {coords : List Axial} (hcoords : hexameshCoords n = some coords)
    (hperm : (t.routers.map t.coords).isPerm (coords.map fun p => some [p.1, p.2]) = true)
    (hattached : ∀ ni ∈ t.nis, (t.adj ni).length = 1)
    (hserved : ∀ r ∈ t.routers, (t.nis.filter fun ni => t.adj ni = [r]).length = 1)
    (hlinks : ∀ u ∈ t.routers, ∀ v ∈ t.routers, v ∈ t.adj u ↔ hexDistance (posOf t u) (posOf t v) = 1) :
      HexMesh n t := by
  refine ⟨⟨coords, hcoords, isPerm_iff.1 hperm⟩, fun ni hni => ?_, fun r hr => ?_, hlinks⟩
  · exact length_eq_one_iff.1 (hattached ni hni)
  · obtain ⟨ni, hni⟩ := length_eq_one_iff.1 (hserved r hr)
    have hmem : ∀ x, x = ni ↔ x ∈ t.nis ∧ t.adj x = [r] := by
      intro x
      rw [← mem_singleton, ← hni, mem_filter, decide_eq_true_eq]
    exact ⟨ni, (hmem ni).1 rfl, fun x hx => (hmem x).2 hx⟩

/-- Half of the ring around the first one. -/
theorem hexamesh_works_ten : HexMesh 10 (hexMeshOf 10) ∧ HexMeshWorks 10 (hexMeshOf 10) := by
  have h : HexMesh 10 (hexMeshOf 10) := by
    refine HexMesh.of_lists (show hexameshCoords 10 = some (hexagon 1 ++ (ringList 2).take 3) by
      decide +kernel) ?_ ?_ ?_ ?_ <;>
      decide +kernel
  refine ⟨h, (hexamesh_works_iff (by decide) h).2 fun hgap => ?_⟩
  have := (@gap_iff 1 3 (by decide)).1 hgap
  omega

/-- One position short of the second ring: the routers at `(2, 0)` and `(1, 0)` send what is for `(2, -2)` to each
other. -/
theorem hexamesh_gap_eighteen : HexMesh 18 (hexMeshOf 18) ∧ ¬HexMeshWorks 18 (hexMeshOf 18) := by
  have h : HexMesh 18 (hexMeshOf 18) := by
    refine HexMesh.of_lists (show hexameshCoords 18 = some (hexagon 1 ++ (ringList 2).take 11) by
      decide +kernel) ?_ ?_ ?_ ?_ <;>
      decide +kernel
  refine ⟨h, ?_⟩
  rintro ⟨-, tables, htables, hacc⟩
  obtain ⟨m, j, hlen, hj, hP⟩ := h.placed (by decide)
  obtain ⟨hlow, hhigh⟩ := (gap_iff hj).1 ⟨2, 1, by omega, by omega, by omega⟩
  refine hP.not_accepted_of_gap (by omega) (by omega) (fun r hr => ?_) htables hacc
  obtain ⟨ni, hni, -⟩ := h.served r hr
  exact ⟨ni, hni⟩

end GvsocPulp.FloonocV2.Routing
