import Mathlib

/-!
# Loop nests with a moving pointer

A nest of counted loops that walks a pointer, as address generators do: the innermost loop that has not reached its
bound counts on and moves the pointer by its stride, the loops inside it start again.

- `advance`: one step of the counters; `nest`: the positions as nested loops;
- `walks_nest`: the steps visit the positions of the nested loops, in their order.
-/

namespace GvsocPulp.Lib

open List

/-- A counted loop: it runs `bound + 1` times. -/
structure Loop (α : Type*) where
  bound : Nat
  stride : α
  cnt : Nat := 0

section LoopNest

variable {α : Type*} [Add α]

/-- One step of the counters, innermost loop first; `none` once all loops are at their bounds. -/
def advance : List (Loop α) → α → Option (List (Loop α) × α)
  | [], _ => none
  | l :: ls, p =>
    if l.cnt < l.bound then some ({ l with cnt := l.cnt + 1 } :: ls, p + l.stride)
    else (advance ls p).map fun r => ({ l with cnt := 0 } :: r.1, r.2)

/-- The positions visited from a state of the counters on. -/
inductive Walks : List (Loop α) → α → List α → Prop
  | last {ls : List (Loop α)} {p : α} (h : advance ls p = none) : Walks ls p [p]
  | next {ls ls' : List (Loop α)} {p p' : α} {ps : List α} (h : advance ls p = some (ls', p'))
      (hw : Walks ls' p' ps) : Walks ls p (p :: ps)

/-- A body run `k + 1` times, the pointer moved by the stride from where the body leaves it. -/
def sweep (body : α → List α) (stride : α) : Nat → α → List α
  | 0, p => body p
  | k + 1, p => body p ++ sweep body stride k ((body p).getLast?.getD p + stride)

/-- The positions of nested loops, given as bounds and strides from the outermost loop on. -/
def nest : List (Nat × α) → α → List α
  | [], p => [p]
  | (bound, stride) :: inner, p => sweep (nest inner) stride bound p

def restart (ls : List (Loop α)) : List (Loop α) := ls.map fun l => { l with cnt := 0 }

variable {ls : List (Loop α)} {p : α} {ps : List α} {o : Loop α}

theorem Walks.ne_nil (h : Walks ls p ps) : ps ≠ [] := by
  cases h <;> simp

/-- A walk starts where the pointer is. -/
theorem Walks.getElem?_zero (h : Walks ls p ps) : ps[0]? = some p := by
  cases h <;> rfl

theorem Walks.step {ls' : List (Loop α)} {p' : α} (h : Walks ls p ps)
    (ha : advance ls p = some (ls', p')) : Walks ls' p' ps.tail := by
  cases h with
  | last hn => rw [hn] at ha; cases ha
  | next hn hw =>
    rw [hn] at ha
    cases ha
    exact hw

theorem Walks.tail_eq_nil (h : Walks ls p ps)
    (ha : advance ls p = none) : ps.tail = [] := by
  cases h with
  | last _ => rfl
  | next hn _ => rw [hn] at ha; cases ha

theorem advance_restart {ls' : List (Loop α)} {p' : α} (h : advance ls p = some (ls', p')) :
    restart ls' = restart ls := by
  induction ls generalizing ls' p' with
  | nil => cases h
  | cons l ls ih =>
    rw [advance] at h
    split at h
    case isTrue => cases h; rfl
    case isFalse =>
      obtain ⟨⟨ls₁, p₁⟩, h₁, h⟩ := Option.map_eq_some_iff.1 h
      cases h
      show _ :: restart ls₁ = _ :: restart ls
      rw [ih h₁]

/-- An outer loop counts when the inner ones are done. -/
theorem advance_concat : advance (ls ++ [o]) p =
    match advance ls p with
    | some (ls', p') => some (ls' ++ [o], p')
    | none => if o.cnt < o.bound then some (restart ls ++ [{ o with cnt := o.cnt + 1 }], p + o.stride) else none := by
  induction ls with
  | nil =>
    simp only [nil_append, advance, restart, map_nil]
    split <;> rfl
  | cons l ls ih =>
    rw [cons_append, advance, advance]
    by_cases h : l.cnt < l.bound
    · rw [if_pos h, if_pos h]
      rfl
    · rw [if_neg h, if_neg h, ih]
      cases advance ls p with
      | some r => rfl
      | none =>
        simp only [Option.map_none]
        split
        · simp [restart]
        · rfl

/-- The last time the outer loop runs. -/
theorem Walks.concat_last (h : Walks ls p ps)
    (ho : ¬o.cnt < o.bound) : Walks (ls ++ [o]) p ps := by
  induction h with
  | last h => exact .last (by rw [advance_concat, h]; exact if_neg ho)
  | next h _ ih => exact .next (by rw [advance_concat, h]) ih

/-- The outer loop runs once more after this time. -/
theorem Walks.concat_next {qs : List α} (h : Walks ls p ps)
    (ho : o.cnt < o.bound)
    (hq : Walks (restart ls ++ [{ o with cnt := o.cnt + 1 }]) (ps.getLast?.getD p + o.stride) qs) :
    Walks (ls ++ [o]) p (ps ++ qs) := by
  induction h with
  | @last ls p h =>
    refine @Walks.next _ _ _ (restart ls ++ [{ o with cnt := o.cnt + 1 }]) _ _ _ ?_ hq
    rw [advance_concat, h]
    exact if_pos ho
  | @next ls ls' p p' ps h hw ih =>
    refine .next (by rw [advance_concat, h]) (ih ?_)
    obtain ⟨q, ps, rfl⟩ := exists_cons_of_ne_nil hw.ne_nil
    rw [advance_restart h]
    rwa [getLast?_cons_cons] at hq

theorem walks_nest (ls : List (Loop α)) (p : α) :
    Walks (restart ls) p (nest (ls.reverse.map fun l => (l.bound, l.stride)) p) := by
  induction ls using List.reverseRecOn generalizing p with
  | nil => exact .last rfl
  | append_singleton ls o ih =>
    rw [reverse_append, reverse_singleton, singleton_append, map_cons, nest]
    have hrestart : restart (ls ++ [o]) = restart ls ++ [{ o with cnt := o.bound - o.bound }] := by
      simp [restart]
    rw [hrestart]
    -- the outer loop still runs `k` times after this one
    have hsweep : ∀ k ≤ o.bound, ∀ p, Walks (restart ls ++ [{ o with cnt := o.bound - k }]) p
        (sweep (nest (ls.reverse.map fun l => (l.bound, l.stride))) o.stride k p) := by
      intro k
      induction k with
      | zero => exact fun _ p => (ih p).concat_last (by simp)
      | succ k ihk =>
        intro hk p
        refine (ih p).concat_next (by simp only; omega) ?_
        have hcnt : o.bound - (k + 1) + 1 = o.bound - k := by omega
        have hidem : restart (restart ls) = restart ls := by simp [restart]
        rw [hidem]
        simp only [hcnt]
        exact ihk (by omega) _
    exact hsweep o.bound le_rfl p

theorem sweep_length {body : α → List α} {stride : α} {n : Nat} (hbody : ∀ p, (body p).length = n) :
    ∀ (k : Nat) (p : α), (sweep body stride k p).length = (k + 1) * n
  | 0, p => by rw [sweep, hbody, zero_add, one_mul]
  | k + 1, p => by
    rw [sweep, length_append, hbody, sweep_length hbody k, Nat.add_one_mul (k + 1), add_comm]

/-- A nest visits as many positions as its loops run together. -/
theorem nest_length : ∀ (dims : List (Nat × α)) (p : α), (nest dims p).length = (dims.map fun d => d.1 + 1).prod
  | [], _ => rfl
  | (bound, stride) :: inner, p => by
    rw [nest, sweep_length (nest_length inner), map_cons, prod_cons]

end LoopNest

end GvsocPulp.Lib
