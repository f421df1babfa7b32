import GvsocPulp.FloonocV2.HexShape

/-!
# The steps of a route through a HexaMesh

- `HexStep`: a step towards the column of the destination, then along the column; at the end of a row it goes around the
  border instead;
- `HexStep.l1_lt`: every step brings the coordinates closer together;
- `hexKey`, `hexKey_lt`: an order of the links that increases along two steps towards one destination. The links along
  the rows and around the border come first, those along the columns last.
-/

namespace GvsocPulp.FloonocV2.Routing

/-- A step from `(q, r)` towards `(x, y)`. -/
inductive HexStep (k j : Int) : Int → Int → Int → Int → Int → Int → Prop
  | east {q r x y : Int} : q < x → HexStep k j q r x y (q + 1) r
  | west {q r x y : Int} : x < q → HexStep k j q r x y (q - 1) r
  | up {q r y : Int} : r < y → HexStep k j q r q y q (r + 1)
  | down {q r y : Int} : y < r → HexStep k j q r q y q (r - 1)
  | eastDiagonal {q r x y : Int} : q < x → rowRight k j r = q → 0 < r → y < r → HexStep k j q r x y (q + 1) (r - 1)
  | eastDown {q r x y : Int} : q < x → rowRight k j r = q → 0 < r → y < r → HexStep k j q r x y q (r - 1)
  | eastUp {q r x y : Int} : q < x → rowRight k j r = q → r < 0 → r < y → HexStep k j q r x y q (r + 1)
  | westDiagonal {q r x y : Int} : x < q → rowLeft k j r = q → r < k → r < y → HexStep k j q r x y (q - 1) (r + 1)
  | westUp {q r x y : Int} : x < q → rowLeft k j r = q → r < k → q - x < y - r → HexStep k j q r x y q (r + 1)
  | westDown {q r x y : Int} : x < q → rowLeft k j r = q → r = k → y < r → HexStep k j q r x y q (r - 1)

section Steps

variable {k j q r x y q' r' q'' r'' : Int}

theorem HexStep.l1_lt (h : HexStep k j q r x y q' r') :
    (q' - x).natAbs + (r' - y).natAbs < (q - x).natAbs + (r - y).natAbs := by
  cases h <;> omega

/-- How far along a route to the west a position is; the last row, which such a route only leaves, comes before the one
below. -/
def westward (k q r : Int) : Int := -2 * q + if r < k then r else k - 2

def hexKey (k j q r q' r' : Int) : Int :=
  if q < q' then q - r.natAbs
  else if q' < q then westward k q r
  else if r' < r then
    if rowRight k j r = q ∧ 0 < r then q - r.natAbs
    else if rowLeft k j r = q ∧ r = k then westward k q r
    else 10 * k - r
  else if rowRight k j r = q ∧ r < 0 then q - r.natAbs
  else if rowLeft k j r = q then westward k q r
  else 10 * k + r

theorem rowRight_le (hc : Convex k j) (r : Int) : rowRight k j r ≤ k := by
  obtain ⟨hpos, hnonneg, hlast⟩ := hc
  unfold rowRight
  omega

theorem rowRight_ge (hc : Convex k j) (hr : -k < r) (hr₀ : r < 0) : k - 1 ≤ rowRight k j r := by
  obtain ⟨hpos, hnonneg, hlast⟩ := hc
  unfold rowRight
  omega

theorem Inside.column_bounds (hc : Convex k j) (h : Inside k j (q, r)) : -k ≤ q ∧ q ≤ k := by
  obtain ⟨hlow, hhigh, hleft, hright⟩ := h
  simp only at hlow hhigh hleft hright
  have hge := rowLeft_ge hc r
  have hle := rowRight_le hc r
  omega

theorem HexStep.east_key (h : HexStep k j q r x y q' r') (hx : q < x) :
    hexKey k j q r q' r' = q - r.natAbs ∧ q - r.natAbs < q' - r'.natAbs := by
  unfold hexKey
  cases h <;> omega

/-- The rows above and below the middle have several positions, but the last one and the first one. -/
theorem row_single (hc : Convex k j) (ha : Inside k j (q, r)) (hr : r ≠ 0) (hleft : rowLeft k j r = q)
    (hright : rowRight k j r = q) : q = 0 ∧ (r = k ∨ r = -k) := by
  obtain ⟨hlow, hhigh, -, -⟩ := ha
  obtain ⟨hpos, hnonneg, hlast⟩ := hc
  simp only at hlow hhigh
  unfold rowLeft at hleft
  unfold rowRight at hright
  omega

theorem HexStep.west_lt (hc : Convex k j) (ha : Inside k j (q, r)) (hd : Inside k j (x, y))
    (h : HexStep k j q r x y q' r') (hx : x < q) : hexKey k j q r q' r' < westward k q' r' := by
  have hpos := hc.pos
  obtain ⟨-, hhigh, -, -⟩ := id hd
  simp only at hhigh
  unfold hexKey westward
  cases h with
  | east h => omega
  | west h => omega
  | up h => omega
  | down h => omega
  | eastDiagonal h => omega
  | eastDown h => omega
  | eastUp h => omega
  | westDiagonal h hend hr hy => omega
  | westUp h hend hr hy =>
    have hsingle : r < 0 → rowRight k j r = q → q = 0 ∧ (r = k ∨ r = -k) :=
      fun hr₀ hright => row_single hc ha (by omega) hend hright
    omega
  | westDown h hend hr hy =>
    have hsingle := row_single hc ha (by omega) hend
    omega

theorem HexStep.west_key (h : HexStep k j q r x y q' r') (hx : x < q) (hend : rowRight k j r ≠ q ∨ 0 ≤ r ∧ r < k) :
    hexKey k j q r q' r' = westward k q r := by
  unfold hexKey
  cases h <;> omega

variable (hc : Convex k j) (ha : Inside k j (q, r)) (hb : Inside k j (q', r')) (hd : Inside k j (x, y))
  (h : HexStep k j q r x y q' r')
include hc ha hb hd h

/-- A position that a step to the west leads to is not the last one of a row that such a step would leave upwards. -/
theorem HexStep.west_row (hx : x < q) : rowRight k j r' ≠ q' ∨ 0 ≤ r' ∧ r' < k := by
  have hpos := hc.pos
  obtain ⟨hlow, hhigh, hleft, hright⟩ := id ha
  simp only at hlow hhigh hleft hright
  cases h with
  | east h => omega
  | west h => exact .inl (by omega)
  | up h => omega
  | down h => omega
  | eastDiagonal h => omega
  | eastDown h => omega
  | eastUp h => omega
  | westDiagonal h hend hr hy =>
    rcases Int.lt_or_le r 0 with hr₀ | hr₀
    · have := rowRight_mono hc hlow (show r ≤ r + 1 by omega) (by omega)
      exact .inl (by omega)
    · by_cases hk : r + 1 = k
      · have hbounds := rowLeft_bounds hc hr₀ hr
        have hrow := hb.row
        simp only [hk] at hrow
        have := row_last hc hrow
        rw [hk]
        exact .inl (by omega)
      · exact .inr ⟨by omega, by omega⟩
  | westUp h hend hr hy =>
    obtain ⟨-, hhigh, -, -⟩ := id hd
    simp only at hhigh
    rcases Int.lt_or_le (r + 1) 0 with hr₀ | hr₀
    · have hge := rowRight_ge hc (show -k < r + 1 by omega) hr₀
      have hlt := rowLeft_lt hc hlow (by omega) ha.row
      have hmono := rowRight_mono hc hlow (show r ≤ r + 1 by omega) (by omega)
      by_cases hright : rowRight k j r = q
      · have hsingle := row_single hc ha (by omega) hend hright
        exact .inl (by omega)
      · exact .inl (by omega)
    · exact .inr ⟨hr₀, by omega⟩
  | westDown h hend hr hy => exact .inr ⟨by omega, by omega⟩

theorem hexKey_lt (h' : HexStep k j q' r' x y q'' r'') :
    hexKey k j q r q' r' < hexKey k j q' r' q'' r'' := by
  have hpos := hc.pos
  have hbounds := ha.column_bounds hc
  have hbounds' := hb.column_bounds hc
  obtain ⟨hlow, hhigh, hleft, hright⟩ := id ha
  obtain ⟨hlow', hhigh', hleft', hright'⟩ := id hb
  obtain ⟨hlowd, hhighd, -, -⟩ := id hd
  simp only at hlow hhigh hleft hright hlow' hhigh' hleft' hright' hlowd hhighd
  rcases Int.lt_trichotomy q x with hx | rfl | hx
  · obtain ⟨hkey, hlt⟩ := h.east_key hx
    rw [hkey]
    rcases Int.lt_or_eq_of_le (show q' ≤ x by cases h <;> omega) with hx' | rfl
    · rw [(h'.east_key hx').1]
      exact hlt
    · -- in the column of the destination
      unfold hexKey westward
      cases h <;> cases h' <;> omega
  · cases h with
    | up hy =>
      cases h' with
      | up hy' =>
        unfold hexKey westward
        rcases Int.lt_or_le r 0 with hr | hr
        · have hlt := rowLeft_lt hc hlow hr ha.row
          have hmono := rowRight_mono hc hlow (show r ≤ r + 1 by omega) (by omega)
          have hsingle : rowLeft k j r = q → rowRight k j r = q → q = 0 ∧ (r = k ∨ r = -k) :=
            row_single hc ha (by omega)
          omega
        · have hanti := rowLeft_anti hc (show -k < r by omega) (show r ≤ r + 1 by omega) (by omega)
          omega
      | _ => omega
    | down hy =>
      cases h' with
      | down hy' =>
        have hlt : 0 < r → rowRight k j r < rowRight k j (r - 1) := fun hr => rowRight_lt hc hr hhigh
        unfold hexKey westward
        omega
      | _ => omega
    | _ => omega
  · have hlt := h.west_lt hc ha hd hx
    have hrow := h.west_row hc ha hb hd hx
    rcases Int.lt_or_eq_of_le (show x ≤ q' by cases h <;> omega) with hx' | rfl
    · rw [h'.west_key hx' hrow]
      exact hlt
    · refine Int.lt_of_lt_of_le hlt ?_
      unfold hexKey westward
      cases h <;> cases h' <;> omega

end Steps

end GvsocPulp.FloonocV2.Routing
