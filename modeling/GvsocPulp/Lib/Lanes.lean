import Mathlib

/-!
# Lanes and rings

A stream dealt out to lanes, and the ring storage of one lane.

- `onLane`: what a lane holds of a stream of elements tagged with their lane;
- `mem_onLane`, `count_onLane`: what is on a lane, and how often;
- `mem_fst_of_onLane_ne_nil`: a lane holds something only if the stream has an element for it;
- `length_onLane_le_one`: elements on different lanes;
- `ringContents_push`, `ringContents_pop`: a ring of rows is a FIFO.
-/

namespace GvsocPulp.Lib

open List

variable {ι α : Type*} [DecidableEq ι]

variable {i j : ι} {a : α} {xs : List (ι × α)} {count head : Nat} {row : Nat → α}

/-! ## Lanes -/

/-- What lane `i` holds of the stream, oldest first. -/
def onLane (i : ι) (xs : List (ι × α)) : List α := (xs.filter fun x => x.1 = i).map (·.2)

@[simp] theorem onLane_nil (i : ι) : onLane i ([] : List (ι × α)) = [] := rfl

theorem onLane_append (i : ι) (xs ys : List (ι × α)) : onLane i (xs ++ ys) = onLane i xs ++ onLane i ys := by
  simp [onLane]

@[simp] theorem onLane_cons_self (i : ι) (a : α) (xs : List (ι × α)) : onLane i ((i, a) :: xs) = a :: onLane i xs := by
  simp [onLane]

theorem onLane_cons_ne (h : j ≠ i) (a : α) (xs : List (ι × α)) : onLane i ((j, a) :: xs) = onLane i xs := by
  simp [onLane, h]

theorem onLane_singleton_ne (h : j ≠ i) (a : α) : onLane i [(j, a)] = [] := by
  rw [onLane_cons_ne h, onLane_nil]

/-- Elements that all have one tag. -/
theorem onLane_tagged (i k : ι) (xs : List α) : onLane i (xs.map (Prod.mk k)) = if k = i then xs else [] := by
  induction xs with
  | nil => simp
  | cons x xs ih =>
    rw [map_cons]
    by_cases h : k = i
    · subst h
      rw [onLane_cons_self, ih, if_pos rfl, if_pos rfl]
    · rw [onLane_cons_ne h, ih, if_neg h, if_neg h]

theorem mem_onLane : a ∈ onLane i xs ↔ (i, a) ∈ xs := by
  simp only [onLane, List.mem_map, mem_filter, decide_eq_true_eq]
  exact ⟨fun ⟨x, ⟨hx, hi⟩, ha⟩ => by rwa [← hi, ← ha], fun h => ⟨(i, a), ⟨h, rfl⟩, rfl⟩⟩

theorem count_onLane [DecidableEq α] : ∀ {xs : List (ι × α)}, (∀ x ∈ xs, x.2 = a → x.1 = i) →
    (onLane i xs).count a = (xs.map (·.2)).count a
  | [], _ => rfl
  | (j, b) :: xs, h => by
    have ih : (onLane i xs).count a = (xs.map (·.2)).count a := count_onLane fun x hx => h x (mem_cons_of_mem _ hx)
    rw [map_cons, count_cons]
    by_cases hj : j = i
    · rw [hj, onLane_cons_self, count_cons, ih]
    · have hb : b ≠ a := fun hb => hj (h (j, b) mem_cons_self hb)
      rw [onLane_cons_ne hj, ih, if_neg (by simpa using hb), add_zero]

theorem mem_fst_of_onLane_ne_nil (h : onLane i xs ≠ []) : i ∈ xs.map (·.1) := by
  obtain ⟨a, ha⟩ := exists_mem_of_ne_nil _ h
  simp only [onLane, List.mem_map, mem_filter, decide_eq_true_eq] at ha ⊢
  obtain ⟨x, ⟨hx, hxi⟩, -⟩ := ha
  exact ⟨x, hx, hxi⟩

/-- On lanes that all differ, no lane holds two elements. -/
theorem length_onLane_le_one (hnd : (xs.map (·.1)).Nodup) : (onLane i xs).length ≤ 1 := by
  have hcount : (onLane i xs).length = (xs.map (·.1)).count i := by
    rw [onLane, length_map, List.count, countP_map, countP_eq_length_filter]
    rfl
  rw [hcount]
  exact nodup_iff_count_le_one.1 hnd i

/-- A stream that sends one element to each lane of a list leaves one element on each of them. -/
theorem onLane_map_of_nodup {β : Type*} {lane : β → ι} (val : β → α) : ∀ {js : List β} {j : β},
    (js.map lane).Nodup → j ∈ js → onLane (lane j) (js.map fun j => (lane j, val j)) = [val j]
  | k :: ks, j, hnd, hj => by
    rw [map_cons, nodup_cons] at hnd
    rw [map_cons]
    rcases mem_cons.1 hj with rfl | hj
    · rw [onLane_cons_self]
      have hnil : onLane (lane j) (ks.map fun k => (lane k, val k)) = [] := by
        by_contra hne
        apply hnd.1
        simpa using mem_fst_of_onLane_ne_nil hne
      rw [hnil]
    · have hne : lane k ≠ lane j := fun h => hnd.1 (h ▸ List.mem_map_of_mem hj)
      rw [onLane_cons_ne hne]
      exact onLane_map_of_nodup val hnd.2 hj

/-! ## Rings -/

section Ring

variable (depth : Nat)

/-- The rows of a ring from `head` on, oldest first. -/
def ringContents (head count : Nat) (row : Nat → α) : List α :=
  (List.range count).map fun k => row ((head + k) % depth)

@[simp] theorem ringContents_length (head count : Nat) (row : Nat → α) :
    (ringContents depth head count row).length = count := by simp [ringContents]

variable {depth}

theorem ringContents_push (hc : count < depth) :
    ringContents depth head (count + 1) (Function.update row ((head + count) % depth) a)
      = ringContents depth head count row ++ [a] := by
  simp only [ringContents, List.range_succ, map_append, map_cons, map_nil, Function.update_self]
  congr 1
  apply map_congr_left
  intro k hk
  have hk : k < count := mem_range.1 hk
  apply Function.update_of_ne
  intro h
  have hmod : k % depth = count % depth := Nat.ModEq.add_left_cancel' head h
  rw [Nat.mod_eq_of_lt (by omega), Nat.mod_eq_of_lt hc] at hmod
  omega

theorem ringContents_pop (hh : head < depth) :
    ringContents depth head (count + 1) row = row head :: ringContents depth ((head + 1) % depth) count row := by
  simp only [ringContents, range_succ_eq_map, map_cons, List.map_map, add_zero, Nat.mod_eq_of_lt hh]
  congr 1
  apply map_congr_left
  intro k _
  show row ((head + (k + 1)) % depth) = row (((head + 1) % depth + k) % depth)
  rw [Nat.mod_add_mod, add_assoc, add_comm 1 k]

end Ring

end GvsocPulp.Lib
