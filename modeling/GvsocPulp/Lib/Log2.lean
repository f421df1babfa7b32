import Mathlib

/-!
# The logarithm as a loop

`while ((1 << l) < bound) l++`, as components compute the number of bits of a width or of an index.
-/

namespace GvsocPulp.Lib

/-- `while ((1 << l) < bound) l++`. -/
def log2Loop (bound : Nat) : Nat → Nat → Nat
  | 0, l => l
  | fuel + 1, l => if 2 ^ l < bound then log2Loop bound fuel (l + 1) else l

/-- The loop finds the logarithm of a power of two. -/
theorem log2Loop_two_pow {k : Nat} : ∀ {fuel l : Nat}, l ≤ k → k ≤ l + fuel → log2Loop (2 ^ k) fuel l = k
  | 0, l, hl, hk => by
    show l = k
    omega
  | fuel + 1, l, hl, hk => by
    rw [log2Loop]
    by_cases hlt : l < k
    · rw [if_pos (Nat.pow_lt_pow_right (by decide) hlt)]
      exact log2Loop_two_pow hlt (by omega)
    · have heq : l = k := by omega
      rw [heq, if_neg (lt_irrefl _)]

/-- The indices up to any bound fit in the bits the loop finds. -/
theorem le_two_pow_log2Loop {bound : Nat} : ∀ {fuel l : Nat}, bound ≤ 2 ^ (l + fuel) →
    bound ≤ 2 ^ log2Loop bound fuel l
  | 0, _, h => h
  | fuel + 1, l, h => by
    rw [log2Loop]
    by_cases hlt : 2 ^ l < bound
    · rw [if_pos hlt]
      exact le_two_pow_log2Loop (by rwa [add_right_comm, add_assoc])
    · rw [if_neg hlt]
      omega

end GvsocPulp.Lib
