import Mathlib

/-!
# `hexamesh_coords`

The axial coordinates of a HexaMesh, spiralling out from the centre.

- `ringPos`, `ringList`: the positions of a ring, in the order of the walk (`walkRing_eq`);
- `hexagon`: the complete rings up to one; `hexameshCoords_eq`: the coordinates are a hexagon and the first positions of
  the next ring;
- `hexameshCoords_nodup`, `hexameshCoords_closer`: they are pairwise distinct and leave no gap.
-/

namespace GvsocPulp.FloonocV2.Routing

open List Nat

/-- An axial position `(q, r)`. -/
abbrev Axial := Int × Int

def hexDistance (a b : Axial) : Nat :=
  ((a.1 - b.1).natAbs + (a.1 + a.2 - b.1 - b.2).natAbs + (a.2 - b.2).natAbs) / 2

def ringWalk : List Axial := [(-1, 1), (-1, 0), (0, -1), (1, -1), (1, 0), (0, 1)]

/-- `for _ in range(ring)`: one edge of a ring. -/
def walkEdge (nbRouters : Nat) (d : Axial) : Nat → Axial → List Axial → Axial × List Axial
  | 0, pos, coords => (pos, coords)
  | n + 1, (q, r), coords =>
    walkEdge nbRouters d n (q + d.1, r + d.2) (if coords.length < nbRouters then coords ++ [(q, r)] else coords)

/-- `for dq, dr in ring_walk`. -/
def walkRing (nbRouters ring : Nat) : List Axial → Axial → List Axial → List Axial
  | [], _, coords => coords
  | d :: ds, pos, coords =>
    let (pos', coords') := walkEdge nbRouters d ring pos coords
    walkRing nbRouters ring ds pos' coords'

/-- `while len(coords) < nb_routers`; `none` when the fuel runs out. -/
def spiral (nbRouters : Nat) : Nat → Nat → List Axial → Option (List Axial)
  | 0, _, _ => none
  | fuel + 1, ring, coords =>
    if coords.length < nbRouters then spiral nbRouters fuel (ring + 1)
      (walkRing nbRouters ring ringWalk (ring, 0) coords)
    else some coords

/-- `hexamesh_coords(nb_routers)`; each ring adds a coordinate, so that the fuel is enough. -/
def hexameshCoords (nbRouters : Nat) : Option (List Axial) := spiral nbRouters (nbRouters + 1) 1 [(0, 0)]

/-! ## A ring -/

/-- The position at a place of the walk around a ring. -/
def ringPos (k i : Nat) : Axial :=
  if i < k then (k - i, i)
  else if i < 2 * k then (k - i, k)
  else if i < 3 * k then (-k, 3 * k - i)
  else if i < 4 * k then (i - 4 * k, 3 * k - i)
  else if i < 5 * k then (i - 4 * k, -k)
  else (k, i - 6 * k)

def ringList (k : Nat) : List Axial := (List.range (6 * k)).map (ringPos k)

theorem ringList_length (k : Nat) : (ringList k).length = 6 * k := by simp [ringList]

theorem walkEdge_eq {nbRouters : Nat} {d : Axial} : ∀ (n : Nat) (q r : Int) (coords : List Axial),
    walkEdge nbRouters d n (q, r) coords = ((q + n * d.1, r + n * d.2),
      coords ++ ((range n).map fun i : Nat => (q + i * d.1, r + i * d.2)).take (nbRouters - coords.length))
  | 0, q, r, coords => by simp [walkEdge]
  | n + 1, q, r, coords => by
    rw [walkEdge, walkEdge_eq n, range_succ_eq_map, map_cons, map_map]
    have hshift : ((fun i : Nat => (q + i * d.1, r + i * d.2)) ∘ Nat.succ) =
        fun i : Nat => (q + d.1 + i * d.1, r + d.2 + i * d.2) := by
      funext i
      simp only [Function.comp_apply, succ_eq_add_one, cast_add, cast_one, Prod.mk.injEq]
      constructor <;> ring
    rw [hshift]
    refine Prod.ext (Prod.ext ?_ ?_) ?_
    · simp only [cast_add, cast_one]
      ring
    · simp only [cast_add, cast_one]
      ring
    · by_cases hlt : coords.length < nbRouters
      · obtain ⟨m, hm⟩ : ∃ m, nbRouters - coords.length = m + 1 := ⟨nbRouters - coords.length - 1, by omega⟩
        have hm' : nbRouters - (coords ++ [(q, r)]).length = m := by
          rw [length_append, length_singleton]
          omega
        simp only [if_pos hlt, hm, hm', take_succ_cons, append_assoc, singleton_append, cast_zero,
          zero_mul, add_zero]
      · have hm : nbRouters - coords.length = 0 := by omega
        simp only [if_neg hlt, hm, take_zero]

theorem edge_eq {k e : Nat} {c d : Axial} (h : ∀ i < k, ringPos k (e + i) = (c.1 + i * d.1, c.2 + i * d.2)) :
    ((range k).map fun i : Nat => (c.1 + i * d.1, c.2 + i * d.2)) = (range k).map fun i => ringPos k (e + i) :=
  map_congr_left fun i hi => (h i (mem_range.1 hi)).symm

theorem take_append_take {α : Type*} (coords A B : List α) (n : Nat) :
    coords ++ A.take (n - coords.length) ++ B.take (n - (coords ++ A.take (n - coords.length)).length) =
      coords ++ (A ++ B).take (n - coords.length) := by
  rw [take_append, append_assoc, length_append, length_take]
  have hlen : n - (coords.length + min (n - coords.length) A.length) = n - coords.length - A.length := by omega
  rw [hlen]

theorem walkRing_eq (nbRouters k : Nat) (coords : List Axial) :
    walkRing nbRouters k ringWalk (k, 0) coords = coords ++ (ringList k).take (nbRouters - coords.length) := by
  have h₀ := @edge_eq k 0 (k, 0) (-1, 1) (fun i hi => by
    rw [ringPos, if_pos (by omega)]
    simp only [Prod.mk.injEq]
    omega)
  have h₁ := @edge_eq k k (0, k) (-1, 0) (fun i hi => by
    rw [ringPos, if_neg (by omega), if_pos (by omega)]
    simp only [Prod.mk.injEq]
    omega)
  have h₂ := @edge_eq k (2 * k) (-k, k) (0, -1) (fun i hi => by
    rw [ringPos, if_neg (by omega), if_neg (by omega), if_pos (by omega)]
    simp only [Prod.mk.injEq]
    omega)
  have h₃ := @edge_eq k (3 * k) (-k, 0) (1, -1) (fun i hi => by
    rw [ringPos, if_neg (by omega), if_neg (by omega), if_neg (by omega), if_pos (by omega)]
    simp only [Prod.mk.injEq]
    omega)
  have h₄ := @edge_eq k (4 * k) (0, -k) (1, 0) (fun i hi => by
    rw [ringPos, if_neg (by omega), if_neg (by omega), if_neg (by omega), if_neg (by omega), if_pos (by omega)]
    simp only [Prod.mk.injEq]
    omega)
  have h₅ := @edge_eq k (5 * k) (k, -k) (0, 1) (fun i hi => by
    rw [ringPos, if_neg (by omega), if_neg (by omega), if_neg (by omega), if_neg (by omega), if_neg (by omega)]
    simp only [Prod.mk.injEq]
    omega)
  have hring : ringList k = (range k).map (fun i => ringPos k (0 + i)) ++ (range k).map (fun i => ringPos k (k + i)) ++
      (range k).map (fun i => ringPos k (2 * k + i)) ++ (range k).map (fun i => ringPos k (3 * k + i)) ++
      (range k).map (fun i => ringPos k (4 * k + i)) ++ (range k).map (fun i => ringPos k (5 * k + i)) := by
    have hrange : range (6 * k) = range k ++ (range k).map (k + ·) ++ (range k).map (2 * k + ·) ++
        (range k).map (3 * k + ·) ++ (range k).map (4 * k + ·) ++ (range k).map (5 * k + ·) := by
      rw [show 6 * k = 5 * k + k by omega, range_add, show 5 * k = 4 * k + k by omega, range_add,
        show 4 * k = 3 * k + k by omega, range_add, show 3 * k = 2 * k + k by omega, range_add,
        show 2 * k = k + k by omega, range_add]
    rw [ringList, hrange]
    simp only [map_append, map_map, Function.comp_def, zero_add]
  unfold ringWalk
  simp only [walkRing, walkEdge_eq]
  rw [hring, ← h₀, ← h₁, ← h₂, ← h₃, ← h₄, ← h₅, ← take_append_take, ← take_append_take, ← take_append_take,
    ← take_append_take, ← take_append_take]
  simp

theorem hexDistance_le_iff {m : Nat} {q r : Int} :
    hexDistance (q, r) (0, 0) ≤ m ↔ -m ≤ q ∧ q ≤ m ∧ -m ≤ r ∧ r ≤ m ∧ -m ≤ q + r ∧ q + r ≤ m := by
  unfold hexDistance
  omega

theorem hexDistance_ringPos {k i : Nat} (hi : i < 6 * k) : hexDistance (ringPos k i) (0, 0) = k := by
  unfold ringPos
  split
  · simp only [hexDistance]
    omega
  · split
    · simp only [hexDistance]
      omega
    · split
      · simp only [hexDistance]
        omega
      · split
        · simp only [hexDistance]
          omega
        · split <;> (simp only [hexDistance]; omega)

/-- The place of a position in the walk around its ring. -/
def ringIndex (k : Nat) (p : Axial) : Nat :=
  (if 0 < p.1 ∧ 0 ≤ p.2 then p.2
    else if p.1 ≤ 0 ∧ p.2 = k ∧ -k < p.1 then k - p.1
    else if 0 < p.2 then 3 * k - p.2
    else if p.1 < k then 4 * k + p.1
    else 6 * k + p.2).toNat

theorem ringIndex_ringPos {k i : Nat} (hi : i < 6 * k) : ringIndex k (ringPos k i) = i := by
  unfold ringPos
  split
  · simp only [ringIndex]
    omega
  · split
    · simp only [ringIndex, true_and]
      omega
    · split
      · simp only [ringIndex]
        omega
      · split
        · simp only [ringIndex]
          omega
        · split <;> (simp only [ringIndex]; omega)

theorem ringPos_inj {k i i' : Nat} (hi : i < 6 * k) (hi' : i' < 6 * k) (h : ringPos k i = ringPos k i') : i = i' := by
  rw [← ringIndex_ringPos hi, h, ringIndex_ringPos hi']

theorem exists_ringPos {k : Nat} {q r : Int} (hk : 0 < k) (h : hexDistance (q, r) (0, 0) = k) :
    ∃ i < 6 * k, ringPos k i = (q, r) := by
  obtain ⟨hq, hq', hr, hr', hs, hs'⟩ := hexDistance_le_iff.1 h.le
  have hnot : ¬hexDistance (q, r) (0, 0) ≤ k - 1 := by omega
  rw [hexDistance_le_iff] at hnot
  unfold ringPos
  by_cases h₀ : 0 < q ∧ 0 ≤ r
  · refine ⟨r.toNat, by omega, ?_⟩
    rw [if_pos (by omega)]
    exact Prod.ext (by simp only; omega) (by simp only; omega)
  by_cases h₁ : q ≤ 0 ∧ r = k ∧ -k < q
  · refine ⟨(k - q).toNat, by omega, ?_⟩
    rw [if_neg (by omega), if_pos (by omega)]
    exact Prod.ext (by simp only; omega) (by simp only; omega)
  by_cases h₂ : 0 < r
  · refine ⟨(3 * k - r).toNat, by omega, ?_⟩
    rw [if_neg (by omega), if_neg (by omega), if_pos (by omega)]
    exact Prod.ext (by simp only; omega) (by simp only; omega)
  by_cases h₃ : q < k
  · refine ⟨(4 * k + q).toNat, by omega, ?_⟩
    rw [if_neg (by omega), if_neg (by omega), if_neg (by omega)]
    split
    · exact Prod.ext (by simp only; omega) (by simp only; omega)
    · rw [if_pos (by omega)]
      exact Prod.ext (by simp only; omega) (by simp only; omega)
  · refine ⟨(6 * k + r).toNat, by omega, ?_⟩
    rw [if_neg (by omega), if_neg (by omega), if_neg (by omega), if_neg (by omega), if_neg (by omega)]
    exact Prod.ext (by simp only; omega) (by simp only; omega)

theorem ringPos_ringIndex {k : Nat} {p : Axial} (hk : 0 < k) (h : hexDistance p (0, 0) = k) :
    ringIndex k p < 6 * k ∧ ringPos k (ringIndex k p) = p := by
  obtain ⟨i, hi, hpos⟩ := exists_ringPos hk h
  obtain rfl : ringPos k i = p := hpos
  rw [ringIndex_ringPos hi]
  exact ⟨hi, rfl⟩

theorem mem_ringList {k : Nat} (hk : 0 < k) {p : Axial} : p ∈ ringList k ↔ hexDistance p (0, 0) = k := by
  unfold ringList
  rw [mem_map]
  constructor
  · rintro ⟨i, hi, rfl⟩
    exact hexDistance_ringPos (mem_range.1 hi)
  · intro h
    obtain ⟨hlt, hpos⟩ := ringPos_ringIndex hk h
    exact ⟨_, mem_range.2 hlt, hpos⟩

theorem ringList_nodup (k : Nat) : (ringList k).Nodup := by
  unfold ringList
  refine nodup_range.map_on fun i hi i' hi' h => ?_
  exact ringPos_inj (mem_range.1 hi) (mem_range.1 hi') h

/-! ## The rings together -/

/-- The centre and the complete rings up to the given one. -/
def hexagon : Nat → List Axial
  | 0 => [(0, 0)]
  | m + 1 => hexagon m ++ ringList (m + 1)

theorem hexagon_length (m : Nat) : (hexagon m).length = 3 * m * (m + 1) + 1 := by
  induction m with
  | zero => rfl
  | succ m ih =>
    rw [hexagon, length_append, ih, ringList_length]
    ring

theorem mem_hexagon {m : Nat} {p : Axial} : p ∈ hexagon m ↔ hexDistance p (0, 0) ≤ m := by
  induction m with
  | zero =>
    obtain ⟨q, r⟩ := p
    rw [hexDistance_le_iff]
    simp only [hexagon, mem_singleton, Prod.mk.injEq]
    omega
  | succ m ih =>
    rw [hexagon, mem_append, ih, mem_ringList (succ_pos m)]
    omega

theorem hexagon_nodup (m : Nat) : (hexagon m).Nodup := by
  induction m with
  | zero => exact nodup_singleton _
  | succ m ih =>
    refine nodup_append.2 ⟨ih, ringList_nodup _, fun a ha b hb hab => ?_⟩
    subst hab
    have hle := mem_hexagon.1 ha
    have heq := (mem_ringList (succ_pos m)).1 hb
    omega

theorem spiral_eq {nbRouters : Nat} : ∀ (fuel m : Nat), (hexagon m).length < nbRouters →
    nbRouters - (hexagon m).length < fuel →
    ∃ m' j, nbRouters = (hexagon m').length + j ∧ 0 < j ∧ j ≤ 6 * (m' + 1) ∧
      spiral nbRouters fuel (m + 1) (hexagon m) = some (hexagon m' ++ (ringList (m' + 1)).take j) := by
  intro fuel
  induction fuel with
  | zero => intro m hlt hf; omega
  | succ fuel ih =>
    intro m hlt hf
    have hring := walkRing_eq nbRouters (m + 1) (hexagon m)
    rw [spiral, if_pos hlt, hring]
    by_cases hlast : nbRouters - (hexagon m).length ≤ 6 * (m + 1)
    · refine ⟨m, nbRouters - (hexagon m).length, by omega, by omega, hlast, ?_⟩
      obtain ⟨f, rfl⟩ : ∃ f, fuel = f + 1 := ⟨fuel - 1, by omega⟩
      rw [spiral, if_neg]
      rw [length_append, length_take, ringList_length]
      omega
    · have hfull : hexagon m ++ (ringList (m + 1)).take (nbRouters - (hexagon m).length) = hexagon (m + 1) := by
        rw [take_of_length_le (by rw [ringList_length]; omega)]
        rfl
      have hlen : (hexagon (m + 1)).length = (hexagon m).length + 6 * (m + 1) := by
        rw [hexagon, length_append, ringList_length]
      rw [hfull]
      exact ih (m + 1) (by omega) (by omega)

/-- **The coordinates**: a hexagon, and the first positions of the ring around it. -/
theorem hexameshCoords_eq {n : Nat} (hn : 0 < n) : ∃ m j, n = (hexagon m).length + j ∧ j ≤ 6 * (m + 1) ∧
    hexameshCoords n = some (hexagon m ++ (ringList (m + 1)).take j) := by
  rcases (succ_le_of_lt hn).lt_or_eq with hlt | rfl
  · obtain ⟨m, j, hlen, -, hj, hrun⟩ := @spiral_eq n (n + 1) 0 hlt (by omega)
    exact ⟨m, j, hlen, hj, hrun⟩
  · exact ⟨0, 0, rfl, by omega, rfl⟩

theorem mem_partialRing {m j : Nat} (hj : j ≤ 6 * (m + 1)) {p : Axial} : p ∈ (ringList (m + 1)).take j ↔
    hexDistance p (0, 0) = m + 1 ∧ ringIndex (m + 1) p < j := by
  have htake : (ringList (m + 1)).take j = (range j).map (ringPos (m + 1)) := by
    rw [ringList, ← map_take, take_range, min_eq_left hj]
  rw [htake, mem_map]
  constructor
  · rintro ⟨i, hi, rfl⟩
    have hlt := mem_range.1 hi
    have hdist := hexDistance_ringPos (show i < 6 * (m + 1) by omega)
    obtain ⟨hindex, hpos⟩ := ringPos_ringIndex (succ_pos m) hdist
    rw [ringPos_inj hindex (by omega) hpos]
    exact ⟨hdist, hlt⟩
  · rintro ⟨hdist, hlt⟩
    exact ⟨_, mem_range.2 hlt, (ringPos_ringIndex (succ_pos m) hdist).2⟩

theorem hexameshCoords_nodup {n : Nat} {coords : List Axial} (hn : 0 < n) (h : hexameshCoords n = some coords) :
    coords.Nodup := by
  obtain ⟨m, j, -, hj, hrun⟩ := hexameshCoords_eq hn
  cases h.symm.trans hrun
  refine nodup_append.2 ⟨hexagon_nodup m, (ringList_nodup _).sublist (take_sublist ..), fun a ha b hb hab => ?_⟩
  subst hab
  have hle := mem_hexagon.1 ha
  have heq := ((mem_partialRing hj).1 hb).1
  omega

theorem hexameshCoords_closer {n : Nat} {coords : List Axial} (hn : 0 < n) (h : hexameshCoords n = some coords)
    {p c : Axial} (hc : c ∈ coords) (hp : hexDistance p (0, 0) < hexDistance c (0, 0)) : p ∈ coords := by
  obtain ⟨m, j, -, hj, hrun⟩ := hexameshCoords_eq hn
  cases h.symm.trans hrun
  have hle : hexDistance c (0, 0) ≤ m + 1 := by
    rcases mem_append.1 hc with hc | hc
    · have := mem_hexagon.1 hc
      omega
    · exact ((mem_partialRing hj).1 hc).1.le
  exact mem_append_left _ (mem_hexagon.2 (by omega))

end GvsocPulp.FloonocV2.Routing
