import Mathlib

/-!
# Lists of groups

The elements of a group have one key and come one after the other, and the last one is final. `Grouped key final xs o`:
the last group of `xs` may be open, and then has the key `o`.
-/

namespace GvsocPulp.Lib

open List Option

variable {α β : Type*} {key : α → β} {final : α → Bool} {x : α} {xs : List α} {o o' : Option β}

/-- Each element that is not final is followed by one with the same key, or by the open group. -/
def Grouped (key : α → β) (final : α → Bool) : List α → Option β → Prop
  | [], _ => True
  | x :: xs, o => (final x = false → (xs.head?.map key).or o = some (key x)) ∧ Grouped key final xs o

namespace Grouped

theorem nil : Grouped key final [] o := trivial

theorem tail (h : Grouped key final (x :: xs) o) : Grouped key final xs o := h.2

variable (h : Grouped key final xs o)
include h

theorem mem (hx : x ∈ xs) : key x ∈ (xs.filter final).map key ∨ o = some (key x) := by
  induction xs generalizing x with
  | nil => cases hx
  | cons y xs ih =>
    have hsub : ((xs.filter final).map key) ⊆ ((y :: xs).filter final).map key :=
      map_subset _ ((sublist_cons_self y xs).filter final).subset
    have hrest : ∀ z ∈ xs, key z ∈ ((y :: xs).filter final).map key ∨ o = some (key z) :=
      fun z hz => (ih h.2 hz).imp_left fun hmem => hsub hmem
    rcases mem_cons.1 hx with rfl | hx
    · cases hf : final x with
      | true => exact .inl (List.mem_map_of_mem (mem_filter.2 ⟨mem_cons_self, hf⟩))
      | false =>
        have hnext := h.1 hf
        cases xs with
        | nil => exact .inr hnext
        | cons z zs =>
          rw [head?_cons, map_some, some_or, Option.some.injEq] at hnext
          rw [← hnext]
          exact hrest z mem_cons_self
    · exact hrest x hx

/-- The next element is of the open group. -/
theorem snoc (ho : ∀ k, o = some k → k = key x) (hx : final x = false → o' = some (key x)) :
    Grouped key final (xs ++ [x]) o' := by
  induction xs with
  | nil => exact ⟨fun hf => by rw [head?_nil, map_none, none_or]; exact hx hf, trivial⟩
  | cons y xs ih =>
    refine ⟨fun hf => ?_, ih h.2⟩
    have hnext := h.1 hf
    cases xs with
    | nil =>
      rw [head?_nil, map_none, none_or] at hnext
      show some (key x) = some (key y)
      rw [ho _ hnext]
    | cons z zs => exact hnext

/-- Without elements of the open group, the last group is closed. -/
theorem close (ho : ∀ x ∈ xs, o ≠ some (key x)) : Grouped key final xs o' := by
  induction xs with
  | nil => trivial
  | cons y xs ih =>
    refine ⟨fun hf => ?_, ih h.2 fun x hx => ho x (mem_cons_of_mem _ hx)⟩
    have hnext := h.1 hf
    cases xs with
    | nil => exact absurd hnext (ho y mem_cons_self)
    | cons z zs => exact hnext

end Grouped

end GvsocPulp.Lib
