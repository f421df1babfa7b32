import Mathlib

/-!
# The first element above a bound

Binary search for the first element with a property that holds from some position of the list on.

- `upperBound_spec`: the elements before the position do not have the property, the others do;
- `mem_take_upperBound`: so the elements before it are those without the property.
-/

namespace GvsocPulp.Lib

open List

variable {α : Type*}

/-- The search in the `len` elements from `first` on: the upper half is cut off where its first element is above. -/
def upperBoundLoop (above : α → Bool) (xs : List α) : Nat → Nat → Nat → Nat
  | 0, first, _ => first
  | fuel + 1, first, len =>
    if len = 0 then first
    else if (xs[first + len / 2]?).any above then upperBoundLoop above xs fuel first (len / 2)
    else upperBoundLoop above xs fuel (first + len / 2 + 1) (len - len / 2 - 1)

/-- The position of the first element above, the length of the list if there is none. -/
def upperBound (above : α → Bool) (xs : List α) : Nat := upperBoundLoop above xs xs.length 0 xs.length

section UpperBound

variable {above : α → Bool} {xs : List α}

/-- The elements before `first` are not above, those from `first + len` on are, and so the loop goes on. -/
theorem upperBoundLoop_spec (hmono : xs.Pairwise fun x y => above x = true → above y = true) (fuel : Nat) :
    ∀ first len : Nat, len ≤ fuel → first + len ≤ xs.length →
      (∀ i < first, ∀ x, xs[i]? = some x → above x = false) →
      (∀ i, first + len ≤ i → ∀ x, xs[i]? = some x → above x = true) →
      upperBoundLoop above xs fuel first len ≤ xs.length ∧
      (∀ i < upperBoundLoop above xs fuel first len, ∀ x, xs[i]? = some x → above x = false) ∧
      (∀ i, upperBoundLoop above xs fuel first len ≤ i → ∀ x, xs[i]? = some x → above x = true) := by
  induction fuel with
  | zero =>
    intro first len hlen hle hlow hhigh
    obtain rfl : len = 0 := by omega
    exact ⟨hle, hlow, hhigh⟩
  | succ fuel ih =>
    intro first len hlen hle hlow hhigh
    rw [upperBoundLoop]
    split_ifs with hzero hmid
    · subst hzero
      exact ⟨hle, hlow, hhigh⟩
    · obtain ⟨m, hm, habove⟩ := (Option.any_eq_true _ _).1 hmid
      refine ih first (len / 2) (by omega) (by omega) hlow fun i hi x hx => ?_
      -- what follows the middle is above, too
      rcases hi.lt_or_eq with hlt | rfl
      · obtain ⟨hil, hix⟩ := List.getElem?_eq_some_iff.1 hx
        obtain ⟨hml, hmx⟩ := List.getElem?_eq_some_iff.1 hm
        rw [← hix]
        apply pairwise_iff_getElem.1 hmono _ _ hml hil hlt
        rw [hmx]
        exact habove
      · rw [hm, Option.some.injEq] at hx
        rw [← hx]
        exact habove
    · have hml : first + len / 2 < xs.length := by omega
      have hbelow : above xs[first + len / 2] = false := by
        rw [getElem?_eq_getElem hml, Option.any_some, Bool.not_eq_true] at hmid
        exact hmid
      refine ih (first + len / 2 + 1) (len - len / 2 - 1) (by omega) (by omega) (fun i hi x hx => ?_)
        fun i hi => hhigh i (by omega)
      rcases (Nat.le_of_lt_succ hi).lt_or_eq with hlt | rfl
      · obtain ⟨hil, hix⟩ := List.getElem?_eq_some_iff.1 hx
        have himp := pairwise_iff_getElem.1 hmono _ _ hil hml hlt
        rw [← hix, ← Bool.not_eq_true]
        intro hup
        rw [himp hup] at hbelow
        cases hbelow
      · obtain ⟨hil, hix⟩ := List.getElem?_eq_some_iff.1 hx
        rw [← hix]
        exact hbelow

theorem upperBound_spec (hmono : xs.Pairwise fun x y => above x = true → above y = true) :
    upperBound above xs ≤ xs.length ∧ (∀ i < upperBound above xs, ∀ x, xs[i]? = some x → above x = false) ∧
      (∀ i, upperBound above xs ≤ i → ∀ x, xs[i]? = some x → above x = true) := by
  refine upperBoundLoop_spec hmono xs.length 0 xs.length le_rfl (by omega)
    (fun i hi => absurd hi (Nat.not_lt_zero i)) ?_
  intro i hi x hx
  rw [getElem?_eq_none (by omega)] at hx
  cases hx

/-- The elements before the position are those that are not above. -/
theorem mem_take_upperBound (hmono : xs.Pairwise fun x y => above x = true → above y = true) {x : α} :
    x ∈ xs.take (upperBound above xs) ↔ x ∈ xs ∧ above x = false := by
  obtain ⟨-, hlow, hhigh⟩ := upperBound_spec hmono
  constructor
  · intro hx
    obtain ⟨i, hi, hix⟩ := mem_take_iff_getElem.1 hx
    refine ⟨mem_of_mem_take hx, hlow i (by omega) x ?_⟩
    rw [← hix]
    exact getElem?_eq_getElem _
  · rintro ⟨hx, hbelow⟩
    obtain ⟨i, hi, rfl⟩ := mem_iff_getElem.1 hx
    have hlt : i < upperBound above xs := by
      by_contra hge
      rw [hhigh i (by omega) _ (getElem?_eq_getElem hi)] at hbelow
      cases hbelow
    exact mem_take_iff_getElem.2 ⟨i, by omega, rfl⟩

end UpperBound

end GvsocPulp.Lib
