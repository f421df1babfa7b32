import Mathlib

/-!
# Numbered entries, and completion in order

- `numbered`: the entries of a log that matter, each with its number;
- `next_of_covers`: completing one more of the entries leaves no gap iff it is the next one.
-/

namespace GvsocPulp.Lib

open List

variable {α τ : Type*}

theorem getElem?_concat (l : List α) (a : α) (n : Nat) : (l ++ [a])[n]? = if n = l.length then some a else l[n]? := by
  split
  case isTrue h => rw [h, getElem?_concat_length]
  case isFalse h =>
    rcases Nat.lt_or_gt_of_ne h with h | h
    · exact getElem?_append_left h
    · rw [getElem?_eq_none h.le, getElem?_eq_none (by simpa using h)]

def numbered (f : α → Option τ) (l : List α) : List (Nat × τ) := l.zipIdx.filterMap fun p => (f p.1).map (p.2, ·)

section Numbered

variable (f : α → Option τ) (l : List α)

theorem numbered_concat (a : α) : numbered f (l ++ [a]) = numbered f l ++ ((f a).map (l.length, ·)).toList := by
  rw [numbered, zipIdx_append, filterMap_append, numbered, zero_add]
  congr 1

variable {f l} {n : Nat} {t : τ}

theorem mem_numbered : (n, t) ∈ numbered f l ↔ ∃ a, l[n]? = some a ∧ f a = some t := by
  rw [numbered, mem_filterMap]
  constructor
  · rintro ⟨⟨a, i⟩, hmem, h⟩
    obtain ⟨u, hu, heq⟩ := Option.map_eq_some_iff.1 h
    cases heq
    exact ⟨a, mem_zipIdx_iff_getElem?.1 hmem, hu⟩
  · rintro ⟨a, ha, hu⟩
    exact ⟨(a, n), mem_zipIdx_iff_getElem?.2 ha, by rw [hu]; rfl⟩

theorem numbered_nodup : ((numbered f l).map (·.1)).Nodup := by
  have hsub : Sublist ((numbered f l).map (·.1)) (l.zipIdx.map (·.2)) := by
    rw [numbered]
    generalize l.zipIdx = ps
    induction ps with
    | nil => exact .slnil
    | cons p ps ih =>
      cases h : f p.1 with
      | none =>
        rw [filterMap_cons_none (by rw [h]; rfl)]
        exact .cons _ ih
      | some u =>
        rw [filterMap_cons_some (b := (p.2, u)) (by rw [h]; rfl)]
        exact .cons_cons _ ih
  refine hsub.nodup ?_
  rw [zipIdx_map_snd]
  exact nodup_range'

end Numbered

section Covers

variable {l done : List α} {a : α}

theorem next_of_covers (hl : l.Nodup) (hdone : ∀ x ∈ l.take done.length, x ∈ done) (ha : a ∈ l) (hnew : a ∉ done) :
    (∀ x ∈ l.take (done ++ [a]).length, x ∈ done ++ [a]) ↔ l[done.length]? = some a := by
  rw [length_append, length_singleton, take_add_one]
  constructor
  · intro h
    by_contra hne
    have hlt : done.length < l.length := by
      by_contra hge
      rw [take_of_length_le (not_lt.1 hge)] at hdone
      exact hnew (hdone a ha)
    -- the next entry is done already: then all of the first `done.length + 1` ones are among the `done.length` that are
    -- done
    have hnext : l[done.length] ∈ done := by
      have hmem := h l[done.length] (mem_append_right _ (by rw [getElem?_eq_getElem hlt]; exact mem_singleton_self _))
      refine (mem_append.1 hmem).resolve_right fun heq => hne ?_
      rw [getElem?_eq_getElem hlt, mem_singleton.1 heq]
    have hsub : l.take (done.length + 1) ⊆ done := by
      intro x hx
      rw [take_add_one, mem_append, getElem?_eq_getElem hlt] at hx
      rcases hx with hx | hx
      · exact hdone x hx
      · obtain rfl := mem_singleton.1 hx
        exact hnext
    have hle := (subperm_of_subset (hl.sublist (take_sublist _ _)) hsub).length_le
    rw [length_take] at hle
    omega
  · intro h x hx
    rw [h] at hx
    rcases mem_append.1 hx with hx | hx
    · exact mem_append_left _ (hdone x hx)
    · exact mem_append_right _ hx

end Covers

end GvsocPulp.Lib
