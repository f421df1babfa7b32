import GvsocPulp.Lib.Masks
import GvsocPulp.Lib.RoundRobin

/-!
# The bit sets of the MAGIA TCDM interconnect

`Mask`: a fixed number of bits in words of 64. The operations bit by bit, and `first_from`.

- `firstFrom_mem`, `firstFrom_ne_none`: the search gives a bit of the mask, and one if there is any.
-/

namespace GvsocPulp.TcdmInterco

open Lib Function BitVec

/-- `Mask`; it has no bit from `nbBits` on. -/
structure Mask (nbBits : Nat) where
  words : Nat → BitVec 64
  inRange : ∀ bit, (words (bit / 64)).getLsbD (bit % 64) = true → bit < nbBits

namespace Mask

variable {nbBits : Nat}

theorem shiftRight_six (bit : Nat) : bit >>> 6 = bit / 64 := Nat.shiftRight_eq_div_pow bit 6

theorem and_63 (bit : Nat) : bit &&& 63 = bit % 64 := Nat.and_two_pow_sub_one_eq_mod bit 6

def test (m : Mask nbBits) (bit : Nat) : Bool := (m.words (bit >>> 6)).getLsbD (bit &&& 63)

theorem test_eq (m : Mask nbBits) (bit : Nat) : m.test bit = (m.words (bit / 64)).getLsbD (bit % 64) := by
  rw [test, shiftRight_six, and_63]

/-- `resize` and `clear`. -/
def clear : Mask nbBits := ⟨fun _ => 0#64, fun _ h => by simp at h⟩

variable {words : Nat → BitVec 64}

variable {j : Nat} {m : Mask nbBits} {k : Nat}

theorem getLsbD_update {bit : Nat} {f : BitVec 64 → BitVec 64} :
    (update words (bit / 64) (f (words (bit / 64))) (j / 64)).getLsbD (j % 64) =
      if j / 64 = bit / 64 then (f (words (bit / 64))).getLsbD (j % 64) else (words (j / 64)).getLsbD (j % 64) := by
  rw [update_apply]
  split <;> rfl

theorem getLsbD_set (bit j : Nat) :
    (update words (bit >>> 6) (words (bit >>> 6) ||| 1#64 <<< (bit &&& 63)) (j / 64)).getLsbD (j % 64) =
      ((words (j / 64)).getLsbD (j % 64) || decide (bit = j)) := by
  rw [shiftRight_six, and_63, getLsbD_update (f := (· ||| 1#64 <<< (bit % 64)))]
  split
  case isTrue heq =>
    rw [getLsbD_or_bit (Nat.mod_lt _ (by decide)), heq]
    refine congrArg₂ or rfl (decide_eq_decide.2 ⟨fun hmod => ?_, fun h => h ▸ rfl⟩)
    rw [← Nat.div_add_mod bit 64, ← Nat.div_add_mod j 64, heq, hmod]
  case isFalse hne =>
    have hbit : bit ≠ j := fun h => hne (h ▸ rfl)
    simp [hbit]

theorem getLsbD_reset (bit j : Nat) :
    (update words (bit >>> 6) (words (bit >>> 6) &&& ~~~(1#64 <<< (bit &&& 63))) (j / 64)).getLsbD (j % 64) =
      ((words (j / 64)).getLsbD (j % 64) && decide (bit ≠ j)) := by
  rw [shiftRight_six, and_63, getLsbD_update (f := (· &&& ~~~(1#64 <<< (bit % 64))))]
  split
  case isTrue heq =>
    rw [getLsbD_andNot_bit (Nat.mod_lt _ (by decide)), heq]
    refine congrArg₂ and rfl (decide_eq_decide.2 (not_congr ⟨fun hmod => ?_, fun h => h ▸ rfl⟩))
    rw [← Nat.div_add_mod bit 64, ← Nat.div_add_mod j 64, heq, hmod]
  case isFalse hne =>
    have hbit : bit ≠ j := fun h => hne (h ▸ rfl)
    simp [hbit]

def set (m : Mask nbBits) (bit : Fin nbBits) : Mask nbBits where
  words := update m.words (bit.1 >>> 6) (m.words (bit.1 >>> 6) ||| 1#64 <<< (bit.1 &&& 63))
  inRange j h := by
    rw [getLsbD_set, Bool.or_eq_true, decide_eq_true_eq] at h
    rcases h with h | h
    · exact m.inRange j h
    · exact h ▸ bit.2

def reset (m : Mask nbBits) (bit : Nat) : Mask nbBits where
  words := update m.words (bit >>> 6) (m.words (bit >>> 6) &&& ~~~(1#64 <<< (bit &&& 63)))
  inRange j h := by
    rw [getLsbD_reset, Bool.and_eq_true] at h
    exact m.inRange j h.1

def merge (m other : Mask nbBits) : Mask nbBits where
  words i := m.words i ||| other.words i
  inRange j h := by
    rw [getLsbD_or, Bool.or_eq_true] at h
    exact h.elim (m.inRange j) (other.inRange j)

def nbWords (nbBits : Nat) : Nat := (nbBits + 63) / 64

def any (m : Mask nbBits) : Bool := (List.range (nbWords nbBits)).any fun i => m.words i ≠ 0#64

def intersects (m other : Mask nbBits) : Bool :=
  (List.range (nbWords nbBits)).any fun i => m.words i &&& other.words i ≠ 0#64

/-- The loop of `first_from`, with the word it is at and how many iterations are left. -/
def firstFromLoop (m : Mask nbBits) (start : Nat) : Nat → Nat → BitVec 64 → Option (Fin nbBits)
  | 0, _, _ => none
  | left + 1, wordId, word =>
    if h : word ≠ 0#64 ∧ (wordId <<< 6) + word.ctz.toNat < nbBits then some ⟨(wordId <<< 6) + word.ctz.toNat, h.2⟩
    else
      let next := (wordId + 1) % nbWords nbBits
      let word := m.words next
      -- the start word again: only the bits below the start are left
      let word := if left = 1 then
          word &&& if start &&& 63 ≠ 0 then ~~~(~~~0#64 <<< (start &&& 63)) else 0#64
        else word
      m.firstFromLoop start left next word

/-- `first_from`; `none` for -1. -/
def firstFrom (m : Mask nbBits) (start : Nat) : Option (Fin nbBits) :=
  m.firstFromLoop start (nbWords nbBits + 1) (start >>> 6) (m.words (start >>> 6) &&& ~~~0#64 <<< (start &&& 63))

/-! ## Bit by bit -/

@[simp] theorem test_clear (j : Nat) : (clear : Mask nbBits).test j = false := by
  rw [test_eq]
  exact getLsbD_zero

theorem test_set (m : Mask nbBits) (bit : Fin nbBits) (j : Nat) :
    (m.set bit).test j = (m.test j || decide (bit.1 = j)) := by
  rw [test_eq, test_eq]
  exact getLsbD_set _ _

theorem test_reset (m : Mask nbBits) (bit j : Nat) : (m.reset bit).test j = (m.test j && decide (bit ≠ j)) := by
  rw [test_eq, test_eq]
  exact getLsbD_reset _ _

theorem test_merge (m other : Mask nbBits) (j : Nat) : (m.merge other).test j = (m.test j || other.test j) := by
  rw [test_eq, test_eq, test_eq]
  exact getLsbD_or

theorem test_lt (h : m.test j = true) : j < nbBits := m.inRange j (test_eq m j ▸ h)

theorem div_lt_nbWords (h : j < nbBits) : j / 64 < nbWords nbBits := by
  rw [nbWords]
  omega

theorem test_of_word {i : Nat} (h : (m.words i).getLsbD k = true) : m.test (i * 64 + k) = true := by
  have hk : k < 64 := lt_of_getLsbD h
  rw [test_eq, show (i * 64 + k) / 64 = i by omega, show (i * 64 + k) % 64 = k by omega, h]

theorem any_iff : m.any = true ↔ ∃ j, m.test j = true := by
  rw [any, List.any_eq_true]
  constructor
  · rintro ⟨i, -, hi⟩
    obtain ⟨k, hk⟩ := exists_getLsbD (of_decide_eq_true hi)
    exact ⟨_, test_of_word hk⟩
  · rintro ⟨j, hj⟩
    refine ⟨j / 64, List.mem_range.2 (div_lt_nbWords (test_lt hj)), decide_eq_true fun h0 => ?_⟩
    rw [test_eq, h0] at hj
    simp at hj

theorem intersects_iff {other : Mask nbBits} : m.intersects other = true ↔ ∃ j, m.test j = true ∧
    other.test j = true := by
  rw [intersects, List.any_eq_true]
  constructor
  · rintro ⟨i, -, hi⟩
    obtain ⟨k, hk⟩ := exists_getLsbD (of_decide_eq_true hi)
    rw [getLsbD_and, Bool.and_eq_true] at hk
    exact ⟨_, test_of_word hk.1, test_of_word hk.2⟩
  · rintro ⟨j, hj, hj'⟩
    refine ⟨j / 64, List.mem_range.2 (div_lt_nbWords (test_lt hj)), decide_eq_true fun h0 => ?_⟩
    have hbit := eq_zero_iff_getLsbD.1 h0 (j % 64)
    rw [getLsbD_and, ← test_eq, ← test_eq, hj, hj'] at hbit
    cases hbit

/-! ## `first_from` -/

variable {start : Nat}

/-- Where the search meets a bit: the bits below the start come after all words. -/
def scanPos (nbBits start j : Nat) : Nat := if start ≤ j then j else 64 * nbWords nbBits + j

theorem getLsbD_ones {s : Nat} (hk : k < 64) : (~~~0#64 <<< s).getLsbD k = decide (s ≤ k) := by
  have hsub : k - s < 64 := by omega
  rw [getLsbD_shiftLeft, getLsbD_not, getLsbD_zero]
  by_cases h : s ≤ k
  · simp [hk, hsub, h]
  · simp [h, not_le.1 h]

theorem scanPos_mod (nbBits start j : Nat) : scanPos nbBits start j % 64 = j % 64 := by
  unfold scanPos
  split
  · rfl
  · rw [Nat.mul_add_mod]

/-- The search at the word `q`, counted on from the first one: the word has the bits that are met there. -/
theorem firstFromLoop_first (hstart : start < nbBits) : ∀ {left q : Nat} {word : BitVec 64},
    q + left = start / 64 + nbWords nbBits + 1 → start / 64 ≤ q →
    (0 < left → ∀ k < 64, word.getLsbD k = true ↔ m.test (64 * (q % nbWords nbBits) + k) = true ∧
      scanPos nbBits start (64 * (q % nbWords nbBits) + k) / 64 = q) →
    (∀ j, m.test j = true → q ≤ scanPos nbBits start j / 64) →
    match m.firstFromLoop start left (q % nbWords nbBits) word with
    | some b => m.test b = true ∧ ∀ j, m.test j = true → scanPos nbBits start b ≤ scanPos nbBits start j
    | none => ∀ j, m.test j = false
  | 0, q, word, hq, _, _, hahead => by
    intro j
    rw [Bool.eq_false_iff]
    intro hj
    have hle := hahead j hj
    have hjw := div_lt_nbWords (test_lt hj)
    unfold scanPos at hle
    split at hle <;> omega
  | left + 1, q, word, hq, hge, hword, hahead => by
    have hsw := div_lt_nbWords hstart
    have hlt := Nat.mod_lt q ((Nat.zero_le _).trans_lt hsw)
    -- a bit that is met here is in the word
    have hhere : ∀ j, m.test j = true → scanPos nbBits start j / 64 = q →
        word.getLsbD (j % 64) = true ∧ scanPos nbBits start j = 64 * q + j % 64 := by
      intro j hj heq
      have hjw := div_lt_nbWords (test_lt hj)
      have hmod : j / 64 = q % nbWords nbBits := by
        rw [← heq, scanPos]
        split
        case isTrue => exact (Nat.mod_eq_of_lt hjw).symm
        case isFalse => rw [Nat.mul_add_div (by decide), Nat.add_mod_left, Nat.mod_eq_of_lt hjw]
      have hsplit : 64 * (q % nbWords nbBits) + j % 64 = j := by omega
      have hpos := scanPos_mod nbBits start j
      exact ⟨(hword (Nat.succ_pos _) _ (Nat.mod_lt j (by decide))).2 (by rw [hsplit]; exact ⟨hj, heq⟩), by omega⟩
    rw [firstFromLoop]
    by_cases hzero : word = 0#64
    · rw [dif_neg fun h => h.1 hzero]
      have hnext : ∀ j, m.test j = true → q + 1 ≤ scanPos nbBits start j / 64 := fun j hj =>
        (hahead j hj).lt_of_ne fun heq => by
          have hbit := (hhere j hj heq.symm).1
          rw [hzero] at hbit
          simp at hbit
      rw [Nat.mod_add_mod]
      refine firstFromLoop_first hstart (by omega) (by omega) (fun hleft k hk => ?_) hnext
      have htest : m.test (64 * ((q + 1) % nbWords nbBits) + k) = (m.words ((q + 1) % nbWords nbBits)).getLsbD k := by
        rw [test_eq, Nat.mul_add_div (by decide), Nat.mul_add_mod, Nat.div_eq_of_lt hk, Nat.mod_eq_of_lt hk, add_zero]
      rw [htest]
      by_cases hlast : left = 1
      · -- the start word again
        have hw : (q + 1) % nbWords nbBits = start / 64 := by
          rw [show q + 1 = start / 64 + nbWords nbBits by omega, Nat.add_mod_right, Nat.mod_eq_of_lt hsw]
        have hlow : (if start &&& 63 ≠ 0 then ~~~(~~~0#64 <<< (start &&& 63)) else 0#64).getLsbD k =
          decide (k < start % 64) := by
          rw [and_63]
          split
          case isTrue => simp only [getLsbD_not, getLsbD_ones hk, hk, decide_true, Bool.true_and, ← decide_not, not_le]
          case isFalse h => simp [show start % 64 ≤ k by omega]
        rw [if_pos hlast, getLsbD_and, hlow, Bool.and_eq_true, decide_eq_true_eq, hw]
        refine and_congr_right fun _ => ?_
        unfold scanPos
        split <;> omega
      · rw [if_neg hlast]
        refine (and_iff_left ?_).symm
        have hw : (q + 1) % nbWords nbBits = if q + 1 < nbWords nbBits then q + 1 else q + 1 - nbWords nbBits := by
          split
          case isTrue h => exact Nat.mod_eq_of_lt h
          case isFalse h => rw [Nat.mod_eq_sub_mod (by omega), Nat.mod_eq_of_lt (by omega)]
        rw [hw, scanPos]
        split <;> split <;> omega
    · have hbit := getLsbD_true_ctz_of_ne_zero hzero
      obtain ⟨htest, hpos⟩ := (hword (Nat.succ_pos _) _ (lt_of_getLsbD hbit)).1 hbit
      have heq : (q % nbWords nbBits) <<< 6 + word.ctz.toNat = 64 * (q % nbWords nbBits) + word.ctz.toNat := by
        rw [Nat.shiftLeft_eq, mul_comm]
      rw [dif_pos ⟨hzero, by rw [heq]; exact test_lt htest⟩]
      simp only [heq]
      refine ⟨htest, fun j hj => ?_⟩
      rcases Nat.eq_or_lt_of_le (hahead j hj) with hq' | hq'
      · have hle := ctz_le (hhere j hj hq'.symm).1
        have hkey := (hhere _ htest hpos).2
        have hkey' := (hhere j hj hq'.symm).2
        have hc := lt_of_getLsbD hbit
        omega
      · omega

theorem firstFrom_first (m : Mask nbBits) (hstart : start < nbBits) :
    match m.firstFrom start with
    | some b => m.test b = true ∧ ∀ j, m.test j = true → scanPos nbBits start b ≤ scanPos nbBits start j
    | none => ∀ j, m.test j = false := by
  have hsw := div_lt_nbWords hstart
  have hmod : start >>> 6 = start / 64 % nbWords nbBits := by rw [shiftRight_six, Nat.mod_eq_of_lt hsw]
  rw [firstFrom, hmod]
  refine firstFromLoop_first hstart (by omega) le_rfl (fun _ k hk => ?_) fun j _ => ?_
  · rw [Nat.mod_eq_of_lt hsw, test_eq, Nat.mul_add_div (by decide), Nat.mul_add_mod, Nat.div_eq_of_lt hk,
      Nat.mod_eq_of_lt hk, add_zero, getLsbD_and, Bool.and_eq_true, and_63]
    rw [getLsbD_ones hk, decide_eq_true_eq]
    refine and_congr_right fun _ => ?_
    unfold scanPos
    split <;> omega
  · unfold scanPos
    split <;> omega

theorem firstFrom_mem {b : Fin nbBits} (hstart : start < nbBits) (h : m.firstFrom start = some b) :
    m.test b = true ∧ ∀ j, m.test j = true → turnsTo nbBits start b ≤ turnsTo nbBits start j := by
  have hfirst := m.firstFrom_first hstart
  rw [h] at hfirst
  refine ⟨hfirst.1, fun j hj => ?_⟩
  have hle := hfirst.2 j hj
  have hj := test_lt hj
  have hjw := div_lt_nbWords hj
  have hb := b.2
  unfold scanPos at hle
  unfold turnsTo
  by_cases hsb : start ≤ b.1 <;> by_cases hsj : start ≤ j <;> simp only [hsb, hsj, if_true, if_false] at hle ⊢ <;> omega

/-- **`first_from` finds a bit if there is one.** -/
theorem firstFrom_ne_none (hstart : start < nbBits) (h : m.any = true) :
    m.firstFrom start ≠ none := by
  intro hnone
  obtain ⟨j, hj⟩ := any_iff.1 h
  have hfirst := m.firstFrom_first hstart
  rw [hnone] at hfirst
  rw [hfirst j] at hj
  cases hj

end Mask

end GvsocPulp.TcdmInterco
