import Mathlib

/-!
# Requests that are answered later

Requests by their number in the list of all of them, of which some have been answered (`Pending`).
-/

namespace GvsocPulp.Lib

open List

variable {α κ : Type*} {reqs : List α} {answered : List Nat} {x y : α} {i : Nat}

/-- A request has been made, and has not been answered. -/
def Pending (reqs : List α) (answered : List Nat) (x : α) (i : Nat) : Prop := reqs[i]? = some x ∧ i ∉ answered

theorem Pending.inj (h : Pending reqs answered x i) (h' : Pending reqs answered y i) : x = y :=
  Option.some.inj (h.1.symm.trans h'.1)

theorem Pending.lt (h : Pending reqs answered x i) : i < reqs.length := (List.getElem?_eq_some_iff.1 h.1).1

/-- A request that has just come is pending. -/
theorem pending_concat (hans : ∀ j ∈ answered, j < reqs.length) :
    Pending (reqs ++ [x]) answered y i ↔ Pending reqs answered y i ∨ y = x ∧ i = reqs.length := by
  rcases lt_trichotomy i reqs.length with hlt | rfl | hgt
  · rw [Pending, getElem?_append_left hlt]
    exact ⟨Or.inl, fun h => h.resolve_right fun h => hlt.ne h.2⟩
  · have hnew : reqs.length ∉ answered := fun h => lt_irrefl _ (hans _ h)
    rw [Pending, getElem?_concat_length]
    constructor
    · rintro ⟨h, -⟩
      cases h
      exact Or.inr ⟨rfl, rfl⟩
    · rintro (h | ⟨rfl, -⟩)
      · exact absurd h.lt (lt_irrefl _)
      · exact ⟨rfl, hnew⟩
  · rw [Pending, getElem?_eq_none (by rw [length_append, length_singleton]; omega)]
    constructor
    · rintro ⟨h, -⟩
      cases h
    · rintro (h | ⟨-, rfl⟩)
      · exact absurd h.lt (lt_asymm hgt)
      · exact absurd hgt (lt_irrefl _)

theorem pending_answered {j : Nat} : Pending reqs (answered ++ [j]) x i ↔ Pending reqs answered x i ∧ i ≠ j := by
  rw [Pending, mem_append, mem_singleton, not_or, ← and_assoc]
  rfl

/-- All the requests of a kind have been answered. -/
theorem forall_answered_iff {f : α → κ} {k : κ} :
    (∀ j < reqs.length, (reqs[j]?).map f = some k → j ∈ answered) ↔ ∀ y j, Pending reqs answered y j → f y ≠ k := by
  constructor
  · intro h y j hp heq
    exact hp.2 (h j hp.lt (by rw [hp.1, Option.map_some, heq]))
  · intro h j _ hk
    obtain ⟨y, hy, heq⟩ := Option.map_eq_some_iff.1 hk
    by_contra hans
    exact h y j ⟨hy, hans⟩ heq

end GvsocPulp.Lib
