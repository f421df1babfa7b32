import Mathlib

/-!
# Cycles and rankings of a relation

- `IsCycle r c`: the list `c` is a cycle of `r`, each element related to the next and the last one to the first;
- `Ranks r rank`: the ranking strictly increases along every edge of `r`;
- a ranked relation has no cycle (`Ranks.not_isCycle`);
- a relation on finitely many elements that increases along some order has a ranking (`exists_ranks`).
-/

namespace GvsocPulp.Lib

open List

variable {V : Type*} {r : V → V → Prop}

/-- Each element of `c` is related to the next one, and the last one to the first one. -/
def IsCycle (r : V → V → Prop) (c : List V) : Prop := c ≠ [] ∧ List.IsChain r (c ++ c.take 1)

/-- The ranking strictly increases along every edge. -/
def Ranks (r : V → V → Prop) (rank : V → Nat) : Prop := ∀ u v, r u v → rank u < rank v

/-- A ranking strictly increases along a chain. -/
theorem Ranks.chain_lt {rank : V → Nat} (h : Ranks r rank) {u v : V} {l : List V}
    (hl : List.IsChain r (u :: l ++ [v])) : rank u < rank v := by
  induction l generalizing u with
  | nil => exact h u v (by simpa using hl)
  | cons w l ih =>
    simp only [cons_append, isChain_cons_cons] at hl
    exact (h u w hl.1).trans (ih (by simpa using hl.2))

theorem Ranks.not_isCycle {rank : V → Nat} (h : Ranks r rank) {c : List V} : ¬IsCycle r c := by
  rintro ⟨hne, hc⟩
  cases c with
  | nil => exact hne rfl
  | cons v l => exact absurd (h.chain_lt (by simpa using hc)) (lt_irrefl _)

/-- A cycle of a smaller relation is a cycle of a larger one. -/
theorem IsCycle.mono {s : V → V → Prop} (h : ∀ u v, r u v → s u v) {c : List V} (hc : IsCycle r c) :
    IsCycle s c := ⟨hc.1, hc.2.imp h⟩

/-- A relation that starts from finitely many elements and increases along the keys in an order has a ranking: the
number of these elements with a smaller key. -/
theorem exists_ranks {K : Type*} [Preorder K] (key : V → K) (L : List V) (h : ∀ u v, r u v → u ∈ L ∧ key u < key v) :
    ∃ rank, Ranks r rank := by
  classical
  refine ⟨fun v => (L.filter fun x => key x < key v).length, fun u v huv => ?_⟩
  obtain ⟨hmem, hlt⟩ := h u v huv
  have hsub : (L.filter fun x => key x < key u).Sublist (L.filter fun x => key x < key v) := by
    refine monotone_filter_right L fun x hx => ?_
    simp only [decide_eq_true_eq] at hx ⊢
    exact hx.trans hlt
  refine hsub.length_le.lt_of_ne fun hlen => ?_
  -- `u` is counted for `v` only
  have hu : u ∈ L.filter fun x => key x < key u := by
    rw [hsub.eq_of_length hlen]
    exact mem_filter.2 ⟨hmem, by simpa using hlt⟩
  simp at hu

end GvsocPulp.Lib
