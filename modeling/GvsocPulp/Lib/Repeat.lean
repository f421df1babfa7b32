import Mathlib

/-!
# A body that is repeated

The instances of the elements of a list, each with the number of the repetition it is in: the whole body `reps` times
(`outerLoop`), or each element `reps` times (`innerLoop`). `outerTodo` and `innerTodo` are what is left of them from
repetition `k` of element `i` on, and the lemmas take the next instance from it.
-/

namespace GvsocPulp.Lib

open List

variable {α β : Type*} (f : Nat → α → β) (body : List α) (reps : Nat)

/-- The whole body, repeated. -/
def outerLoop : List β := (List.range reps).flatMap fun k => body.map (f k)

/-- Each element, repeated in place. -/
def innerLoop : List β := body.flatMap fun a => (List.range reps).map (f · a)

/-- What is left of the outer loop. -/
def outerTodo (i k : Nat) : List β :=
  (body.drop i).map (f k) ++ (List.range' (k + 1) (reps - (k + 1))).flatMap fun k => body.map (f k)

/-- What is left of the inner loop. -/
def innerTodo (i k : Nat) : List β :=
  ((body.drop i).take 1).flatMap (fun a => (List.range' k (reps - k)).map (f · a)) ++
    innerLoop f (body.drop (i + 1)) reps

variable {f body reps} {i k : Nat} {a : α}

theorem outerLoop_eq (hr : 0 < reps) : outerLoop f body reps = outerTodo f body reps 0 0 := by
  rw [outerLoop, outerTodo, drop_zero, range_eq_range', show reps = reps - (0 + 1) + 1 by omega,
    range'_succ, flatMap_cons]
  rfl

theorem innerLoop_eq : innerLoop f body reps = innerTodo f body reps 0 0 := by
  cases body with
  | nil => rfl
  | cons a body => simp [innerLoop, innerTodo, range_eq_range']

/-- The next instance of the outer loop is not in the last element. -/
theorem outerTodo_next (ha : body[i]? = some a) :
    outerTodo f body reps i k = f k a :: outerTodo f body reps (i + 1) k := by
  obtain ⟨hlt, rfl⟩ := List.getElem?_eq_some_iff.1 ha
  rw [outerTodo, outerTodo, drop_eq_getElem_cons hlt, map_cons, cons_append]

/-- After the last element the outer loop goes on with the next repetition. -/
theorem outerTodo_wrap (hk : k + 1 < reps) :
    outerTodo f body reps body.length k = outerTodo f body reps 0 (k + 1) := by
  rw [outerTodo, outerTodo, drop_length, drop_zero, map_nil, nil_append,
    show reps - (k + 1) = reps - (k + 1 + 1) + 1 by omega, range'_succ, flatMap_cons]

theorem outerTodo_end (hk : k + 1 = reps) : outerTodo f body reps body.length k = [] := by
  rw [outerTodo, drop_length, ← hk, Nat.sub_self]
  rfl

theorem innerTodo_next (ha : body[i]? = some a) (hk : k < reps) :
    innerTodo f body reps i k = f k a :: innerTodo f body reps i (k + 1) := by
  obtain ⟨hlt, rfl⟩ := List.getElem?_eq_some_iff.1 ha
  have hfirst : (body.drop i).take 1 = [body[i]] := by
    rw [drop_eq_getElem_cons hlt]
    rfl
  rw [innerTodo, innerTodo, hfirst, show reps - k = reps - (k + 1) + 1 by omega, range'_succ,
    flatMap_singleton, flatMap_singleton, map_cons, cons_append]

/-- After the last repetition the inner loop goes on with the next element. -/
theorem innerTodo_wrap : innerTodo f body reps i reps = innerTodo f body reps (i + 1) 0 := by
  rw [innerTodo, Nat.sub_self]
  rw [show innerTodo f body reps (i + 1) 0 = innerTodo f (body.drop (i + 1)) reps 0 0 by simp [innerTodo],
    ← innerLoop_eq]
  simp

theorem innerTodo_end : innerTodo f body reps body.length 0 = [] := by
  rw [innerTodo, drop_length, drop_of_length_le (Nat.le_succ _)]
  rfl

theorem mem_outerTodo {x : β}
    (h : x ∈ outerTodo f body reps i k) :
    (∃ a ∈ body.drop i, ∃ k, x = f k a) ∨ k + 1 < reps ∧ ∃ a ∈ body, ∃ k, x = f k a := by
  rcases mem_append.1 h with h | h
  · obtain ⟨a, ha, rfl⟩ := mem_map.1 h
    exact .inl ⟨a, ha, k, rfl⟩
  · obtain ⟨k', hk', h⟩ := mem_flatMap.1 h
    obtain ⟨a, ha, rfl⟩ := mem_map.1 h
    refine .inr ⟨?_, a, ha, k', rfl⟩
    have := mem_range'_1.1 hk'
    omega

/-- What an inner loop has left is from the rest of its body. -/
theorem mem_innerTodo {x : β}
    (h : x ∈ innerTodo f body reps i k) : ∃ a ∈ body.drop i, ∃ k, x = f k a := by
  rcases mem_append.1 h with h | h
  · obtain ⟨a, ha, h⟩ := mem_flatMap.1 h
    obtain ⟨k', -, rfl⟩ := mem_map.1 h
    exact ⟨a, mem_of_mem_take ha, k', rfl⟩
  · obtain ⟨a, ha, h⟩ := mem_flatMap.1 h
    obtain ⟨k', -, rfl⟩ := mem_map.1 h
    refine ⟨a, ?_, k', rfl⟩
    rw [← drop_drop] at ha
    exact mem_of_mem_drop ha

end GvsocPulp.Lib
