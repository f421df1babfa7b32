import GvsocPulp.FloonocV2.HexCoords

/-!
# The shape of a HexaMesh

A hexagon of radius `k - 1` and the first `j` positions of the ring around it, row by row: row `r` goes from `rowLeft`
to `rowRight` (`inside_iff`).

- `Convex`: all of the ring is there, or none of its last edge but the start; then the columns have no gap either
  (`column_up`, `column_down`);
- `east_blocked`, `west_blocked`: where a row ends before the column of a destination, a position next to its end is
  closer to the destination.
-/

namespace GvsocPulp.FloonocV2.Routing

def rowRight (k j r : Int) : Int :=
  if r = k then (if k < j then 0 else -k - 1)
  else if 0 ≤ r then (if r < j then k - r else k - 1 - r)
  else if -k < r then (if 6 * k + r < j then k else k - 1)
  else min k (j - 1 - 4 * k)

def rowLeft (k j r : Int) : Int :=
  if r = k then max (-k) (k - j + 1)
  else if -k < r then (if 3 * k - r < j then -k - min r 0 else 1 - k - min r 0)
  else 0

/-- The positions of the shape. -/
def Inside (k j : Int) (p : Axial) : Prop := -k ≤ p.2 ∧ p.2 ≤ k ∧ rowLeft k j p.2 ≤ p.1 ∧ p.1 ≤ rowRight k j p.2

instance (k j : Int) (p : Axial) : Decidable (Inside k j p) := inferInstanceAs (Decidable (_ ∧ _))

theorem inside_iff {m j : Nat} {p : Axial} : Inside (m + 1) j p ↔
    hexDistance p (0, 0) ≤ m ∨ (hexDistance p (0, 0) = m + 1 ∧ ringIndex (m + 1) p < j) := by
  obtain ⟨q, r⟩ := p
  have hle := @hexDistance_le_iff m q r
  have hle' := @hexDistance_le_iff (m + 1) q r
  have heq : hexDistance (q, r) (0, 0) = m + 1 ↔ hexDistance (q, r) (0, 0) ≤ m + 1 ∧
    ¬hexDistance (q, r) (0, 0) ≤ m := by
    omega
  rw [heq, hle', hle]
  unfold Inside
  simp only [Nat.cast_add, Nat.cast_one]
  rcases Int.lt_trichotomy r 0 with hr | rfl | hr
  · have hindex : ringIndex (m + 1) (q, r) = (if q < m + 1 then 4 * (m + 1) + q else 6 * (m + 1) + r).toNat := by
      simp only [ringIndex, Nat.cast_add, Nat.cast_one]
      rw [if_neg (by omega), if_neg (by omega), if_neg (by omega)]
    rw [hindex]
    rcases Int.lt_or_le (-(m + 1)) r with hlow | hlow
    · have hleft : rowLeft (m + 1) j r = if 3 * (m + 1) - r < j then -(m + 1) - r else 1 - (m + 1) - r := by
        unfold rowLeft
        rw [if_neg (by omega), if_pos hlow, Int.min_eq_left (Int.le_of_lt hr)]
      have hright : rowRight (m + 1) j r = if 6 * (m + 1) + r < j then (m : Int) + 1 else m + 1 - 1 := by
        unfold rowRight
        rw [if_neg (by omega), if_neg (by omega), if_pos hlow]
      rw [hleft, hright]
      omega
    · have hleft : -(m + 1) = r → rowLeft (m + 1) j r = 0 := fun heq => by
        unfold rowLeft
        rw [if_neg (by omega), if_neg (by omega)]
      have hright : -(m + 1) = r → rowRight (m + 1) j r = min ((m : Int) + 1) ((j : Int) - 1 - 4 * ((m : Int) + 1)) :=
        fun heq => by
        unfold rowRight
        rw [if_neg (by omega), if_neg (by omega), if_neg (by omega)]
      omega
  · have hindex : ringIndex (m + 1) (q, 0) = (if 0 < q then 0 else if q < m + 1 then 4 * (m + 1) + q
      else 6 * (m + 1)).toNat := by
      simp only [ringIndex, Nat.cast_add, Nat.cast_one]
      omega
    rw [hindex]
    unfold rowLeft rowRight
    omega
  · have hindex : ringIndex (m + 1) (q, r) =
        (if 0 < q then r else if r = m + 1 ∧ -(m + 1) < q then m + 1 - q else 3 * (m + 1) - r).toNat := by
      simp only [ringIndex, Nat.cast_add, Nat.cast_one]
      omega
    rw [hindex]
    rcases Int.lt_or_le r (m + 1) with hhigh | hhigh
    · have hleft : rowLeft (m + 1) j r = if 3 * (m + 1) - r < j then -((m : Int) + 1) else 1 - (m + 1) := by
        unfold rowLeft
        omega
      have hright : rowRight (m + 1) j r = if r < j then m + 1 - r else m + 1 - 1 - r := by
        unfold rowRight
        rw [if_neg (by omega), if_pos (by omega)]
      rw [hleft, hright]
      omega
    · have hleft : r = m + 1 → rowLeft (m + 1) j r = max (-((m : Int) + 1)) (m + 1 - j + 1) := by
        intro heq
        rw [rowLeft, if_pos heq]
      have hright : r = m + 1 → rowRight (m + 1) j r = if (m : Int) + 1 < j then 0 else -((m : Int) + 1) - 1 := by
        intro heq
        rw [rowRight, if_pos heq]
      omega

/-! ## Rows and columns -/

/-- The ring is complete, or its last edge has its first position at most. -/
structure Convex (k j : Int) : Prop where
  pos : 0 < k
  nonneg : 0 ≤ j
  last : j ≤ 5 * k ∨ j = 6 * k

section Rows

variable {k j q r x y : Int}

section

variable (hc : Convex k j)
include hc

theorem rowRight_lt (hr : 0 < r) (hk : r ≤ k) : rowRight k j r < rowRight k j (r - 1) := by
  obtain ⟨hpos, hnonneg, hlast⟩ := hc
  unfold rowRight
  omega

theorem rowRight_anti (hr : 0 ≤ r) (hry : r ≤ y) (hy : y ≤ k) : rowRight k j y ≤ rowRight k j r := by
  obtain ⟨hpos, hnonneg, hlast⟩ := hc
  unfold rowRight
  omega

theorem rowRight_mono (hy : -k ≤ y) (hyr : y ≤ r) (hr : r ≤ 0) : rowRight k j y ≤ rowRight k j r := by
  obtain ⟨hpos, hnonneg, hlast⟩ := hc
  unfold rowRight
  omega

theorem rowRight_nonneg (hr : 0 ≤ r) (hk : r < k) : 0 ≤ rowRight k j r := by
  obtain ⟨hpos, hnonneg, hlast⟩ := hc
  unfold rowRight
  omega

theorem rowLeft_lt (hr : -k ≤ r) (hr₀ : r < 0) (hrow : rowLeft k j r ≤ rowRight k j r) :
    rowLeft k j (r + 1) < rowLeft k j r := by
  obtain ⟨hpos, hnonneg, hlast⟩ := hc
  unfold rowLeft rowRight at *
  omega

theorem rowLeft_anti (hy : -k < y) (hyr : y ≤ r) (hr : r < k) : rowLeft k j r ≤ rowLeft k j y := by
  obtain ⟨hpos, hnonneg, hlast⟩ := hc
  unfold rowLeft
  omega

theorem rowLeft_bounds (hr : 0 ≤ r) (hk : r < k) :
    (rowLeft k j r = -k ∧ 3 * k - r < j) ∨ (rowLeft k j r = 1 - k ∧ j ≤ 3 * k - r) := by
  obtain ⟨hpos, hnonneg, hlast⟩ := hc
  unfold rowLeft
  omega

theorem rowLeft_ge (r : Int) : -k ≤ rowLeft k j r := by
  obtain ⟨hpos, hnonneg, hlast⟩ := hc
  unfold rowLeft
  omega

theorem rowLeft_gt (hr : -k ≤ r) (hr₀ : r < 0) : -k < rowLeft k j r := by
  obtain ⟨hpos, hnonneg, hlast⟩ := hc
  unfold rowLeft
  omega

theorem rowLeft_first : rowLeft k j (-k) = 0 := by
  obtain ⟨hpos, hnonneg, hlast⟩ := hc
  unfold rowLeft
  omega

theorem row_last (hrow : rowLeft k j k ≤ rowRight k j k) :
    rowRight k j k = 0 ∧ rowLeft k j k ≤ 0 ∧ (rowLeft k j k = -k ∨ (rowLeft k j k = k - j + 1 ∧ j ≤ 2 * k)) ∧
      k < j := by
  obtain ⟨hpos, hnonneg, hlast⟩ := hc
  unfold rowLeft rowRight at *
  omega

end

theorem Inside.row {p : Axial} (h : Inside k j p) : rowLeft k j p.2 ≤ rowRight k j p.2 := h.2.2.1.trans h.2.2.2

variable (hc : Convex k j) (ha : Inside k j (q, r))
include hc ha

theorem column_up (hd : Inside k j (q, y)) (hy : r < y) :
    Inside k j (q, r + 1) := by
  obtain ⟨hlow, hhigh, hleft, hright⟩ := id ha
  obtain ⟨hlow', hhigh', hleft', hright'⟩ := id hd
  refine ⟨by simp only; omega, by simp only; omega, ?_, ?_⟩
  · change rowLeft k j (r + 1) ≤ q
    rcases Int.lt_or_le r 0 with hr | hr
    · have hlt := rowLeft_lt hc hlow hr ha.row
      exact (Int.le_of_lt hlt).trans hleft
    · by_cases hk : r + 1 = k
      · have hyk : y = r + 1 := by
          simp only at hhigh'
          omega
        rw [← hyk]
        exact hleft'
      · have hpos := hc.pos
        simp only at hhigh'
        exact (rowLeft_anti hc (by omega) (by omega) (by omega)).trans hleft
  · change q ≤ rowRight k j (r + 1)
    rcases Int.lt_or_le r 0 with hr | hr
    · exact hright.trans (rowRight_mono hc hlow (by omega) (by omega))
    · exact hright'.trans (rowRight_anti hc (by omega) (by omega) hhigh')

theorem column_down (hd : Inside k j (q, y)) (hy : y < r) :
    Inside k j (q, r - 1) := by
  obtain ⟨hlow, hhigh, hleft, hright⟩ := id ha
  obtain ⟨hlow', hhigh', hleft', hright'⟩ := id hd
  have hpos := hc.pos
  simp only at hlow hhigh hlow' hhigh' hleft hright hleft' hright'
  refine ⟨by simp only; omega, by simp only; omega, ?_, ?_⟩
  · change rowLeft k j (r - 1) ≤ q
    by_cases hfirst : y = -k
    · -- the first row ends where the others begin
      by_cases hr : r - 1 = -k
      · rw [hr, ← hfirst]
        exact hleft'
      · have hlt := rowLeft_lt hc hlow' (by omega) hd.row
        have hanti := rowLeft_anti hc (show -k < y + 1 by omega) (show y + 1 ≤ r - 1 by omega) (by omega)
        omega
    · exact (rowLeft_anti hc (by omega) (by omega) (by omega)).trans hleft'
  · change q ≤ rowRight k j (r - 1)
    rcases Int.lt_or_le 0 r with hr | hr
    · have hlt := rowRight_lt hc hr hhigh
      omega
    · exact hright'.trans (rowRight_mono hc hlow' (by omega) (by omega))

theorem east_blocked (hd : Inside k j (x, y)) (hx : q < x) (hb : ¬Inside k j (q + 1, r)) : rowRight k j r = q ∧
      ((0 < r ∧ y < r ∧ Inside k j (q + 1, r - 1)) ∨ (r < 0 ∧ r < y ∧ Inside k j (q, r + 1))) := by
  obtain ⟨hlow, hhigh, hleft, hright⟩ := id ha
  obtain ⟨hlow', hhigh', hleft', hright'⟩ := id hd
  have hpos := hc.pos
  simp only at hlow hhigh hlow' hhigh' hleft hright hleft' hright'
  have hend : rowRight k j r = q := by
    by_contra hne
    exact hb ⟨hlow, hhigh, by simp only; omega, by simp only; omega⟩
  refine ⟨hend, ?_⟩
  rcases Int.lt_trichotomy r 0 with hr | rfl | hr
  · have hy : r < y := by
      by_contra hy
      have := rowRight_mono hc hlow' (show y ≤ r by omega) (by omega)
      omega
    have hlt := rowLeft_lt hc hlow hr ha.row
    have hmono := rowRight_mono hc hlow (show r ≤ r + 1 by omega) (by omega)
    exact .inr ⟨hr, hy, by simp only; omega, by simp only; omega, by simp only; omega, by simp only; omega⟩
  · -- the middle row is the longest
    rcases Int.lt_or_le y 0 with hy | hy
    · have := rowRight_mono hc hlow' (show y ≤ 0 by omega) (by omega)
      omega
    · have := rowRight_anti hc (show (0 : Int) ≤ 0 by omega) hy hhigh'
      omega
  · have hy : y < r := by
      by_contra hy
      have := rowRight_anti hc (show 0 ≤ r by omega) (show r ≤ y by omega) hhigh'
      omega
    have hlt := rowRight_lt hc hr hhigh
    have hbounds := rowLeft_bounds hc (show 0 ≤ r - 1 by omega) (by omega)
    have hq : 0 ≤ q := by
      by_cases hk : r = k
      · subst hk
        have := row_last hc ha.row
        omega
      · have := rowRight_nonneg hc (show 0 ≤ r by omega) (by omega)
        omega
    exact .inl ⟨hr, hy, by simp only; omega, by simp only; omega, by simp only; omega, by simp only; omega⟩

/-- A row that begins after the column of a destination: a step to an earlier column, up, or down from the last row. -/
theorem west_blocked (hd : Inside k j (x, y)) (hx : x < q) (hb : ¬Inside k j (q - 1, r)) : rowLeft k j r = q ∧
      ((r < k ∧ r < y ∧ (Inside k j (q - 1, r + 1) ∨ (q - x < y - r ∧ Inside k j (q, r + 1)))) ∨
        (r = k ∧ y < r ∧ Inside k j (q, r - 1))) := by
  obtain ⟨hlow, hhigh, hleft, hright⟩ := id ha
  obtain ⟨hlow', hhigh', hleft', hright'⟩ := id hd
  have hpos := hc.pos
  simp only at hlow hhigh hlow' hhigh' hleft hright hleft' hright'
  have hend : rowLeft k j r = q := by
    by_contra hne
    exact hb ⟨hlow, hhigh, by simp only; omega, by simp only; omega⟩
  have hxge := rowLeft_ge hc y
  refine ⟨hend, ?_⟩
  rcases Int.lt_or_le r 0 with hr | hr
  · have hy : r < y := by
      by_contra hy
      by_cases hfirst : y = -k
      · have hzero := rowLeft_first hc
        rw [← hfirst] at hzero
        by_cases hry : r = y
        · subst hry
          omega
        · have hlt := rowLeft_lt hc hlow' (by omega) hd.row
          have := rowLeft_anti hc (show -k < y + 1 by omega) (show y + 1 ≤ r by omega) (by omega)
          omega
      · have := rowLeft_anti hc (show -k < y by omega) (show y ≤ r by omega) (by omega)
        omega
    have hlt := rowLeft_lt hc hlow hr ha.row
    have hmono := rowRight_mono hc hlow (show r ≤ r + 1 by omega) (by omega)
    exact .inl ⟨by omega, hy, .inl ⟨by simp only; omega, by simp only; omega, by simp only; omega, by simp only; omega⟩⟩
  · by_cases hk : r = k
    · subst hk
      obtain ⟨hzero, hle, hform, hj⟩ := row_last hc ha.row
      have hy : y < r := by
        by_contra hy
        have : y = r := by omega
        subst this
        omega
      have hbounds := rowLeft_bounds hc (show 0 ≤ r - 1 by omega) (by omega)
      have hnonneg := rowRight_nonneg hc (show 0 ≤ r - 1 by omega) (by omega)
      exact .inr ⟨rfl, hy, by simp only; omega, by simp only; omega, by simp only; omega, by simp only; omega⟩
    · -- the last column but one, and a destination in the last one
      have hbounds := rowLeft_bounds hc hr (by omega)
      have hxk : x = -k := by omega
      have hy : r < y := by
        by_contra hy
        rcases Int.lt_or_le y 0 with hy₀ | hy₀
        · have := rowLeft_gt hc hlow' hy₀
          omega
        · have := rowLeft_bounds hc hy₀ (by omega)
          omega
      refine .inl ⟨by omega, hy, ?_⟩
      by_cases hy₁ : y = r + 1
      · subst hy₁
        refine .inl ?_
        have hq : q - 1 = x := by omega
        rw [hq]
        exact hd
      · have hbounds' := rowLeft_bounds hc (show 0 ≤ r + 1 by omega) (by omega)
        have hnonneg := rowRight_nonneg hc (show 0 ≤ r + 1 by omega) (by omega)
        exact .inr ⟨by omega, by simp only; omega, by simp only; omega, by simp only; omega, by simp only; omega⟩

end Rows

end GvsocPulp.FloonocV2.Routing
