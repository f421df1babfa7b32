import Mathlib

/-!
# Events of a clock

The cycle an event is enqueued for, if it is: enqueueing keeps the earliest of the pending and the new cycle.
-/

namespace GvsocPulp.Lib

/-- `enqueue(delay)` at cycle `now`. -/
def enqueue (now delay : Nat) : Option Nat → Option Nat
  | none => some (now + delay)
  | some due => some (min due (now + delay))

variable {now delay due : Nat} {event : Option Nat}

@[simp] theorem enqueue_ne_none : enqueue now delay event ≠ none := by cases event <;> nofun

theorem enqueue_eq_some (h : enqueue now delay event = some due) : due = now + delay ∨ event = some due := by
  cases event with
  | none => exact .inl (Option.some.inj h).symm
  | some old =>
    have hmin : min old (now + delay) = due := Option.some.inj h
    rw [Option.some.injEq]
    omega

/-- What is due at `now` at the latest is not moved. -/
theorem enqueue_zero (h : ∀ due, event = some due → now ≤ due) : enqueue now 0 event = some now := by
  cases event with
  | none => rfl
  | some old => rw [enqueue, Nat.add_zero, Nat.min_eq_right (h old rfl)]

end GvsocPulp.Lib
