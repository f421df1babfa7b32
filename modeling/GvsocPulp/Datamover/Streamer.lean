import Mathlib

/-!
# The address generator of the datamover

`HWPEStreamer`: five counters of which the innermost that has not reached its length advances, and an address for each.

- `Streamer.iterate`: the code;
- `iterate_after`: the addresses, in the mixed radix of the enabled dimensions.
-/

namespace GvsocPulp.Datamover

open List BitVec

/-- A dimension of the generator, with its counter and its address. -/
structure Dim where
  len : Nat
  stride : BitVec 32
  enabled : Bool
  addr : BitVec 32 := 0
  counter : Nat := 1
  deriving DecidableEq

/-- The fields that `update_params` sets; bit `i` of `dim_enable_1h` enables dimension `i`. -/
structure AddressGenConfig where
  baseAddr : BitVec 32
  d0 : Nat × BitVec 32
  d1 : Nat × BitVec 32
  d2 : Nat × BitVec 32
  d3 : Nat × BitVec 32
  d4Stride : BitVec 32
  totLen : Nat
  dimEnable1h : BitVec 8

structure Streamer where
  cfg : AddressGenConfig
  dims : List Dim
  overallCounter : Nat

namespace AddressGenConfig

variable (cfg : AddressGenConfig)

/-- The dimensions after `reset`; the last one has no length. -/
def dims : List Dim :=
  [⟨cfg.d0.1, cfg.d0.2, cfg.dimEnable1h.getLsbD 0, 0, 1⟩, ⟨cfg.d1.1, cfg.d1.2, cfg.dimEnable1h.getLsbD 1, 0, 1⟩,
    ⟨cfg.d2.1, cfg.d2.2, cfg.dimEnable1h.getLsbD 2, 0, 1⟩, ⟨cfg.d3.1, cfg.d3.2, cfg.dimEnable1h.getLsbD 3, 0, 1⟩,
    ⟨0, cfg.d4Stride, false, 0, 1⟩]

def updateParams : Streamer := ⟨cfg, cfg.dims, 0⟩

def Lengths : Prop := ∀ d ∈ cfg.dims, d.enabled = true → 1 ≤ d.len

end AddressGenConfig

/-- The chain of tests of `iterate`, from the innermost dimension on. -/
def advance : List Dim → List Dim
  | [] => []
  | d :: ds =>
    if d.counter < d.len ∨ d.enabled = false then { d with addr := d.addr + d.stride, counter := d.counter + 1 } :: ds
    else { d with addr := 0, counter := 1 } :: advance ds

namespace Streamer

def computeAddress (s : Streamer) : BitVec 32 := s.cfg.baseAddr + (s.dims.map (·.addr)).sum

def isDone (s : Streamer) : Bool := s.cfg.totLen ≤ s.overallCounter

/-- `none` where it throws. -/
def iterate (s : Streamer) : Option (BitVec 32 × Streamer) :=
  if s.isDone then none
  else some (s.computeAddress, { s with dims := advance s.dims, overallCounter := s.overallCounter + 1 })

end Streamer

/-! ## The addresses -/

/-- Stride times digit, summed over the digits of `k`; a dimension that is not enabled takes what is left. -/
def digitSum : List Dim → Nat → BitVec 32
  | [], _ => 0
  | d :: ds, k =>
    if d.enabled then d.stride * BitVec.ofNat 32 (k % d.len) + digitSum ds (k / d.len) else d.stride * BitVec.ofNat 32 k

/-- The dimensions stand at position `k`. -/
def StandAt : List Dim → Nat → Prop
  | [], _ => True
  | d :: ds, k =>
    if d.enabled then
      1 ≤ d.len ∧ d.counter = k % d.len + 1 ∧ d.addr = d.stride * BitVec.ofNat 32 (k % d.len) ∧ StandAt ds (k / d.len)
    else d.counter = k + 1 ∧ d.addr = d.stride * BitVec.ofNat 32 k ∧ ∀ d' ∈ ds, d'.addr = 0

variable {dims : List Dim} {k : Nat}

theorem StandAt.sum (h : StandAt dims k) : (dims.map (·.addr)).sum = digitSum dims k := by
  induction dims generalizing k with
  | nil => rfl
  | cons d ds ih =>
    rw [StandAt] at h
    rw [map_cons, sum_cons, digitSum]
    split at h
    case isTrue hen =>
      obtain ⟨-, -, haddr, hds⟩ := h
      rw [if_pos hen, haddr, ih hds]
    case isFalse hen =>
      obtain ⟨-, haddr, hds⟩ := h
      have hzero : ∀ ds : List Dim, (∀ d' ∈ ds, d'.addr = 0) → (ds.map (·.addr)).sum = 0 := by
        intro ds
        induction ds with
        | nil => exact fun _ => rfl
        | cons d' ds ih =>
          intro hds
          rw [map_cons, sum_cons, hds d' mem_cons_self, ih fun d hd => hds d (mem_cons_of_mem _ hd)]
          rfl
      rw [if_neg hen, haddr, hzero ds hds]
      exact add_zero _

theorem mul_succ (stride : BitVec 32) (k : Nat) :
    stride * BitVec.ofNat 32 k + stride = stride * BitVec.ofNat 32 (k + 1) := by
  rw [BitVec.ofNat_add, BitVec.mul_add, BitVec.mul_one]

theorem succ_div_mod {n : Nat} (hn : 0 < n) : (k % n + 1 < n → (k + 1) / n = k / n ∧ (k + 1) % n = k % n + 1) ∧
    (k % n + 1 = n → (k + 1) / n = k / n + 1 ∧ (k + 1) % n = 0) := by
  have hsplit : k + 1 = n * (k / n) + (k % n + 1) := by rw [← Nat.add_assoc, Nat.div_add_mod]
  refine ⟨fun hlt => ?_, fun heq => ?_⟩
  · rw [hsplit, Nat.mul_add_div hn, Nat.div_eq_of_lt hlt, Nat.mul_add_mod, Nat.mod_eq_of_lt hlt]
    exact ⟨rfl, rfl⟩
  · rw [hsplit, heq, Nat.mul_add_div hn, Nat.div_self hn, Nat.mul_add_mod, Nat.mod_self]
    exact ⟨rfl, rfl⟩

/-- **A step of the counters is a step of the digits.** -/
theorem StandAt.advance (h : StandAt dims k) : StandAt (advance dims) (k + 1) := by
  induction dims generalizing k with
  | nil => trivial
  | cons d ds ih =>
    rw [StandAt] at h
    rw [Datamover.advance]
    split at h
    case isTrue hen =>
      obtain ⟨hlen, hcounter, haddr, hds⟩ := h
      have hmod := Nat.mod_lt k hlen
      by_cases hlt : d.counter < d.len
      · obtain ⟨hdiv, hrest⟩ := (succ_div_mod (k := k) hlen).1 (by omega)
        rw [if_pos (.inl hlt), StandAt, if_pos hen]
        exact ⟨hlen, by rw [hcounter, hrest], by rw [haddr, hrest, mul_succ], by rw [hdiv]; exact hds⟩
      · obtain ⟨hdiv, hrest⟩ := (succ_div_mod (k := k) hlen).2 (by omega)
        rw [if_neg (not_or.2 ⟨hlt, by rw [hen]; decide⟩), StandAt, if_pos hen]
        exact ⟨hlen, by rw [hrest], by rw [hrest]; exact (mul_zero).symm, by rw [hdiv]; exact ih hds⟩
    case isFalse hen =>
      obtain ⟨hcounter, haddr, hds⟩ := h
      rw [if_pos (.inr (Bool.eq_false_iff.2 hen)), StandAt, if_neg hen]
      exact ⟨by rw [hcounter], by rw [haddr, mul_succ], hds⟩

namespace AddressGenConfig

variable {cfg : AddressGenConfig}

theorem standAt_zero (h : cfg.Lengths) : StandAt cfg.dims 0 := by
  have hstand : ∀ dims : List Dim, (∀ d ∈ dims, d.enabled = true → 1 ≤ d.len) →
    (∀ d ∈ dims, d.addr = 0 ∧ d.counter = 1) →
      StandAt dims 0 := by
    intro dims
    induction dims with
    | nil => exact fun _ _ => trivial
    | cons d ds ih =>
      intro hlen hfresh
      obtain ⟨haddr, hcounter⟩ := hfresh d mem_cons_self
      have hrest := fun d' hd' => hfresh d' (mem_cons_of_mem d hd')
      rw [StandAt]
      split
      case isTrue hen =>
        rw [Nat.zero_mod, Nat.zero_div]
        exact ⟨hlen d mem_cons_self hen, hcounter, by rw [haddr]; exact mul_zero.symm,
          ih (fun d' hd' => hlen d' (mem_cons_of_mem d hd')) hrest⟩
      case isFalse => exact ⟨hcounter, by rw [haddr]; exact mul_zero.symm, fun d' hd' => (hrest d' hd').1⟩
  exact hstand _ h (by simp [dims])

/-- The address of position `k`. -/
def address (cfg : AddressGenConfig) (k : Nat) : BitVec 32 := cfg.baseAddr + digitSum cfg.dims k

/-- The generator after `k` positions. -/
def after (cfg : AddressGenConfig) (k : Nat) : Streamer := ⟨cfg, advance^[k] cfg.dims, k⟩

theorem digitSum_advance (dims : List Dim) (k : Nat) : digitSum (advance dims) k = digitSum dims k := by
  induction dims generalizing k with
  | nil => rfl
  | cons d ds ih =>
    rw [advance]
    split
    · rfl
    · simp only [digitSum, ih]

/-- **Position `k` has the address of its digits.** -/
theorem iterate_after (h : cfg.Lengths) (hk : k < cfg.totLen) :
    (cfg.after k).iterate = some (cfg.address k, cfg.after (k + 1)) := by
  have hstand : StandAt (advance^[k] cfg.dims) k ∧ digitSum (advance^[k] cfg.dims) k = digitSum cfg.dims k := by
    clear hk
    have hall : ∀ k, StandAt (advance^[k] cfg.dims) k ∧ ∀ n, digitSum (advance^[k] cfg.dims) n =
      digitSum cfg.dims n := by
      intro k
      induction k with
      | zero => exact ⟨standAt_zero h, fun _ => rfl⟩
      | succ k ih =>
        rw [Function.iterate_succ_apply']
        exact ⟨ih.1.advance, fun n => (digitSum_advance _ n).trans (ih.2 n)⟩
    exact ⟨(hall k).1, (hall k).2 k⟩
  have hdone : ¬ (cfg.after k).isDone = true := by
    rw [Streamer.isDone, decide_eq_true_eq, not_le]
    exact hk
  rw [Streamer.iterate, if_neg hdone, Streamer.computeAddress]
  simp only [after, hstand.1.sum, hstand.2, address, Function.iterate_succ_apply']

end AddressGenConfig

end GvsocPulp.Datamover
