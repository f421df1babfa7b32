import Mathlib

/-!
# Round robin

A pointer that moves around `n` positions, past each one that is served.

- `add_turnsTo`: the position that is `turnsTo` after the pointer;
- `turnsTo_next`: one that is served before another brings it nearer.
-/

namespace GvsocPulp.Lib

open Nat

variable {n rr i j : Nat}

/-- How many positions there are from the pointer on to `i`. -/
def turnsTo (n rr i : Nat) : Nat := if rr ≤ i then i - rr else i + n - rr

theorem turnsTo_lt (hrr : rr < n) (hi : i < n) : turnsTo n rr i < n := by
  unfold turnsTo
  split <;> omega

theorem mod_of_lt_two (h : i < 2 * n) : i % n = if i < n then i else i - n := by
  split
  case isTrue hlt => exact mod_eq_of_lt hlt
  case isFalse hge => rw [mod_eq_sub_mod (by omega), mod_eq_of_lt (by omega)]

variable (hrr : rr < n) (hi : i < n)
include hrr hi

theorem add_turnsTo : (rr + turnsTo n rr i) % n = i := by
  unfold turnsTo
  split
  case isTrue hle => rw [Nat.add_sub_cancel' hle, mod_eq_of_lt hi]
  case isFalse =>
    have hsum : rr + (i + n - rr) = i + n := by omega
    rw [hsum, add_mod_right, mod_eq_of_lt hi]

theorem turnsTo_add : turnsTo n rr ((rr + i) % n) = i := by
  rw [mod_of_lt_two (by omega)]
  unfold turnsTo
  split <;> split <;> omega

theorem turnsTo_next (hj : j < n) (hlt : turnsTo n rr j < turnsTo n rr i) :
    turnsTo n ((j + 1) % n) i < turnsTo n rr i := by
  rw [mod_of_lt_two (by omega)]
  unfold turnsTo at *
  split at hlt <;> split at hlt <;> split <;> split <;> omega

theorem eq_of_turnsTo (hj : j < n) (h : turnsTo n rr i = turnsTo n rr j) : i = j := by
  rw [← add_turnsTo hrr hi, h, add_turnsTo hrr hj]

end GvsocPulp.Lib
