import Mathlib

/-!
# General facts about lists
-/

namespace GvsocPulp.Lib

open List

variable {α : Type*}

variable {l : List α} {a : α} {β : Type*} {b : β} {κ : Type*}

variable {r : α → β → Prop} {l' : List β} {k : κ}

/-- Changing one summand of a sum over distinct elements. -/
theorem sum_map_change (hnd : l.Nodup) (ha : a ∈ l) {f g : α → Nat}
    (h : ∀ v, v ≠ a → f v = g v) : (l.map f).sum + g a = (l.map g).sum + f a := by
  induction l with
  | nil => cases ha
  | cons b l ih =>
    simp only [map_cons, sum_cons]
    obtain ⟨hb, hl⟩ := nodup_cons.1 hnd
    rcases mem_cons.1 ha with rfl | ha
    · have : l.map f = l.map g := map_congr_left fun v hv => h v fun hva => hb (hva ▸ hv)
      rw [this]; omega
    · have := ih hl ha
      rw [h b fun hba => hb (hba ▸ ha)]
      omega

/-- Changing what one of distinct elements contributes to a list. -/
theorem count_flatMap_change [BEq β] (hnd : l.Nodup) (ha : a ∈ l) {f g : α → List β}
    (h : ∀ v, v ≠ a → f v = g v) (x : β) : (l.flatMap f).count x + (g a).count x = (l.flatMap g).count x +
      (f a).count x := by
  rw [count_flatMap, count_flatMap]
  exact sum_map_change hnd ha fun v hv => congrArg (List.count x) (h v hv)

/-- An element of the first of two related lists has its partner in the second. -/
theorem forall₂_left_mem (h : Forall₂ r l l')
    (ha : a ∈ l) : ∃ b ∈ l', r a b := by
  induction h with
  | nil => cases ha
  | @cons x y _ _ hr _ ih =>
    rcases mem_cons.1 ha with rfl | ha
    · exact ⟨y, by simp, hr⟩
    · obtain ⟨b, hb, hab⟩ := ih ha
      exact ⟨b, mem_cons_of_mem _ hb, hab⟩

/-- An element of the second of two related lists has its partner in the first. -/
theorem forall₂_right_mem (h : Forall₂ r l l')
    (hb : b ∈ l') : ∃ a ∈ l, r a b := forall₂_left_mem (r := fun b a => r a b) h.flip hb

/-- Mapping a function that may fail over a list. -/
theorem forall₂_of_mapM {f : α → Option β} : ∀ {l : List α} {l' : List β}, l.mapM f = some l' →
    Forall₂ (fun a b => f a = some b) l l'
  | [], l', h => by
    rw [mapM_nil] at h
    cases h
    exact .nil
  | a :: l, l', h => by
    rw [mapM_cons] at h
    obtain ⟨b, hb, h⟩ := Option.bind_eq_some_iff.1 h
    obtain ⟨bs, hbs, h⟩ := Option.bind_eq_some_iff.1 h
    cases h
    exact .cons hb (forall₂_of_mapM hbs)

/-- Looking up a key in a list with distinct keys. -/
theorem lookup_eq_some_iff_mem [DecidableEq κ] {l : List (κ × β)} (hnd : (l.map Prod.fst).Nodup) : l.lookup k = some b ↔
    (k, b) ∈ l := by
  rw [List.lookup_eq_some_iff]
  constructor
  · rintro ⟨l₁, l₂, rfl, _⟩; simp
  · intro h
    obtain ⟨l₁, l₂, rfl⟩ := append_of_mem h
    refine ⟨l₁, l₂, rfl, fun e he => ?_⟩
    simp only [map_append, map_cons, nodup_append] at hnd
    exact bne_iff_ne.2 fun hk => hnd.2.2 e.1 (List.mem_map_of_mem he) k (by simp) hk.symm

/-- Entries with one key are equal in a list with distinct keys. -/
theorem eq_of_mem_of_nodup_fst {l : List (κ × β)} (hnd : (l.map Prod.fst).Nodup) {b' : β}
    (h : (k, b) ∈ l) (h' : (k, b') ∈ l) : b = b' :=
  congrArg Prod.snd (inj_on_of_nodup_map hnd h h' rfl)

/-- A list of pairs whose first components are given on a range has its second components given on the range too. -/
theorem exists_eq_map_range' [Inhabited β] (f : Nat → κ) : ∀ {n a : Nat} {xs : List (κ × β)},
    xs.map (·.1) = (range' a n).map f → ∃ v : Nat → β, xs = (range' a n).map fun j => (f j, v j)
  | 0, a, xs, h => ⟨fun _ => default, by simpa using h⟩
  | n + 1, a, [], h => by simp at h
  | n + 1, a, x :: xs, h => by
    rw [range'_succ, map_cons, map_cons, List.cons.injEq] at h
    obtain ⟨v, hv⟩ := exists_eq_map_range' f h.2
    refine ⟨fun j => if j = a then x.2 else v j, ?_⟩
    have hrest : xs = (range' (a + 1) n).map fun j => (f j, if j = a then x.2 else v j) := by
      rw [hv]
      apply map_congr_left
      intro j hj
      have hj := mem_range'_1.1 hj
      rw [if_neg (by omega)]
    rw [range'_succ, map_cons, ← hrest, ← h.1]
    simp

end GvsocPulp.Lib
