import Mathlib

/-!
# Trees given by lists of children

- `preorder`: visit a node, then its children, each of them in the same way;
- `Forest`: a set of nodes closed under children, in which no node has two parents and each child is lower than its
  parent; the nodes above a node form a chain (`Forest.comparable`);
- `Forest.preorder_spec`: the visit of a forest ends, meets exactly the nodes below the root, and meets none of them
  twice.
-/

namespace GvsocPulp.Lib

open List Relation.ReflTransGen

section Tree

variable {V : Type*} (children : V → List V)

/-- The node, then the nodes below each child; `none` when the fuel runs out. -/
def preorder : Nat → V → Option (List V)
  | 0, _ => none
  | fuel + 1, v => ((children v).mapM (preorder fuel)).map fun below => v :: below.flatten

abbrev Below : V → V → Prop := Relation.ReflTransGen fun v c => c ∈ children v

structure Forest (S : V → Prop) (height : V → Nat) : Prop where
  closed : ∀ v, S v → ∀ c ∈ children v, S c
  parent_unique : ∀ a b c, S a → S b → c ∈ children a → c ∈ children b → a = b
  lower : ∀ v, S v → ∀ c ∈ children v, height c < height v
  nodup : ∀ v, S v → (children v).Nodup

variable {children}

theorem mapM_of_forall {α β : Type*} {f : α → Option β} {g : α → β} : ∀ {l : List α},
    (∀ a ∈ l, f a = some (g a)) → l.mapM f = some (l.map g)
  | [], _ => rfl
  | a :: l, h => by
    rw [mapM_cons, h a (by simp), mapM_of_forall fun b hb => h b (mem_cons_of_mem _ hb)]
    rfl

namespace Forest

variable {S : V → Prop} {height : V → Nat}

variable (hf : Forest children S height)
include hf

/-- The nodes below a node of the set are in the set. -/
theorem below_mem {a b : V} (ha : S a) (h : Below children a b) : S b := by
  induction h with
  | refl => exact ha
  | tail _ hc ih => exact hf.closed _ ih _ hc

/-- Two nodes above the same node are above one another. -/
theorem comparable {a b v : V} (hSa : S a) (hSb : S b) (ha : Below children a v)
    (hb : Below children b v) : Below children a b ∨ Below children b a := by
  induction ha with
  | refl => exact Or.inr hb
  | @tail x v hax hv ih =>
    rcases cases_tail hb with rfl | ⟨y, hby, hv'⟩
    · exact Or.inl (hax.tail hv)
    · rw [hf.parent_unique y x v (hf.below_mem hSb hby) (hf.below_mem hSa hax) hv' hv] at hby
      exact ih hby

theorem height_le {a b : V} (ha : S a) (h : Below children a b) :
    height b ≤ height a := by
  induction h with
  | refl => exact le_rfl
  | tail hab hc ih => exact (hf.lower _ (hf.below_mem ha hab) _ hc).le.trans ih

/-- The nodes below two children of one node are different. -/
theorem disjoint {v a b x : V} (hv : S v) (ha : a ∈ children v) (hb : b ∈ children v)
    (hax : Below children a x) (hbx : Below children b x) : a = b := by
  have key : ∀ {a b : V}, a ∈ children v → b ∈ children v → Below children a b → a = b := by
    intro a b ha hb hab
    rcases cases_tail hab with rfl | ⟨y, hay, hy⟩
    · rfl
    · -- the parent of `b` is the parent of `a`, which is higher
      have hSa := hf.closed v hv a ha
      rw [hf.parent_unique y v b (hf.below_mem hSa hay) hv hy hb] at hay
      have := hf.height_le hSa hay
      have := hf.lower v hv a ha
      omega
  rcases hf.comparable (hf.closed v hv a ha) (hf.closed v hv b hb) hax hbx with h | h
  · exact key ha hb h
  · exact (key hb ha h).symm

theorem preorder_spec : ∀ (m : Nat) (v : V), S v → height v ≤ m →
    ∃ l, (∀ fuel, m < fuel → preorder children fuel v = some l) ∧ (∀ x, x ∈ l ↔ Below children v x) ∧ l.Nodup := by
  intro m
  induction m with
  | zero =>
    intro v hS hv
    have hnil : children v = [] := eq_nil_iff_forall_not_mem.2 fun c hc => by have := hf.lower v hS c hc; omega
    refine ⟨[v], fun fuel hn => ?_, fun x => ?_, by simp⟩
    · obtain ⟨fuel, rfl⟩ : ∃ f, fuel = f + 1 := ⟨fuel - 1, by omega⟩
      rw [preorder, hnil]
      rfl
    · rw [mem_singleton]
      constructor
      · rintro rfl; exact .refl
      · intro h
        rcases cases_head h with rfl | ⟨c, hc, _⟩
        · rfl
        · rw [hnil] at hc; cases hc
  | succ m ih =>
    intro v hS hv
    have hsub : ∀ c, ∃ l, c ∈ children v → (∀ fuel, m < fuel → preorder children fuel c = some l) ∧
        (∀ x, x ∈ l ↔ Below children c x) ∧ l.Nodup := by
      intro c
      by_cases hc : c ∈ children v
      · obtain ⟨l, hl⟩ := ih c (hf.closed v hS c hc) (by have := hf.lower v hS c hc; omega)
        exact ⟨l, fun _ => hl⟩
      · exact ⟨[], fun h => absurd h hc⟩
    choose below hbelow using hsub
    refine ⟨v :: ((children v).map below).flatten, fun fuel hn => ?_, fun x => ?_, ?_⟩
    · obtain ⟨fuel, rfl⟩ : ∃ f, fuel = f + 1 := ⟨fuel - 1, by omega⟩
      rw [preorder, mapM_of_forall fun c hc => (hbelow c hc).1 fuel (by omega)]
      rfl
    · rw [mem_cons, mem_flatten]
      constructor
      · rintro (rfl | ⟨l, hl, hx⟩)
        · exact .refl
        · obtain ⟨c, hc, rfl⟩ := mem_map.1 hl
          exact .head hc (((hbelow c hc).2.1 x).1 hx)
      · intro h
        rcases cases_head h with rfl | ⟨c, hc, hx⟩
        · exact Or.inl rfl
        · exact Or.inr ⟨below c, List.mem_map_of_mem hc, ((hbelow c hc).2.1 x).2 hx⟩
    · refine nodup_cons.2 ⟨fun h => ?_, ?_⟩
      · obtain ⟨l, hl, hx⟩ := mem_flatten.1 h
        obtain ⟨c, hc, rfl⟩ := mem_map.1 hl
        have := hf.height_le (hf.closed v hS c hc) (((hbelow c hc).2.1 v).1 hx)
        have := hf.lower v hS c hc
        omega
      · rw [nodup_flatten]
        refine ⟨fun l hl => ?_, ?_⟩
        · obtain ⟨c, hc, rfl⟩ := mem_map.1 hl
          exact (hbelow c hc).2.2
        · rw [pairwise_map]
          refine (hf.nodup v hS).imp_of_mem fun {a b} ha hb hab => ?_
          intro x hxa hxb
          exact hab (hf.disjoint hS ha hb (((hbelow a ha).2.1 x).1 hxa) (((hbelow b hb).2.1 x).1 hxb))

end Forest

end Tree

end GvsocPulp.Lib
