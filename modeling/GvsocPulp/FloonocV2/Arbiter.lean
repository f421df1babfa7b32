import GvsocPulp.FloonocV2.Router
import GvsocPulp.Lib.Lists
import GvsocPulp.Lib.Run

/-!
# The arbitration of the router

How long a flit at the head of an input FIFO waits for its output.

- `arbSelect_spec`: the selected input asks for the output, and it is the one with priority if that one asks;
- `arbNext_ahead`: the priority moves on, but not past an input that asks;
- `arbitrate_cases'`: what an arbiter in order (`OutputArbiter.Ok`) does in a cycle: it lets a flit of the selected
  input through, or locks its requests;
- `turns`: how many packets may still go before an input; `turns_step`: each packet that goes takes one;
- `bounded_overtaking`: over a whole run no more than there are ports.
-/

namespace GvsocPulp.FloonocV2

open Lib Function List Nat OutputArbiter

namespace RouterV2

/-! ## The selection -/

section Select

variable {req rr : Nat}

theorem slice_eq_zero {lo len : Nat} : (req >>> lo) % 2 ^ len = 0 ↔ ∀ i, lo ≤ i → i < lo + len →
    req.testBit i = false := by
  constructor
  · intro h i hlo hhi
    have hbit : ((req >>> lo) % 2 ^ len).testBit (i - lo) = false := by rw [h, zero_testBit]
    rw [testBit_mod_two_pow, testBit_shiftRight] at hbit
    simpa [show i - lo < len by omega, show lo + (i - lo) = i by omega] using hbit
  · intro h
    refine eq_of_testBit_eq fun i => ?_
    rw [testBit_mod_two_pow, testBit_shiftRight, zero_testBit]
    by_cases hi : i < len
    · rw [h (lo + i) (by omega) (by omega), Bool.and_false]
    · rw [decide_eq_false hi, Bool.false_and]

theorem arbSelect_mem : ∀ {levels lo : Nat}, (req >>> lo) % 2 ^ 2 ^ levels ≠ 0 →
    lo ≤ arbSelect req rr levels lo ∧ arbSelect req rr levels lo < lo + 2 ^ levels ∧
      req.testBit (arbSelect req rr levels lo) = true
  | 0, lo, h => by
    refine ⟨le_rfl, lt_succ_self _, ?_⟩
    by_contra hno
    refine h (slice_eq_zero.2 fun i hlo hhi => ?_)
    have hi : i = lo := by
      rw [pow_zero] at hhi
      omega
    rw [hi]
    exact Bool.eq_false_iff.2 hno
  | level + 1, lo, h => by
    rw [arbSelect]
    have hpow : 2 ^ (level + 1) = 2 ^ level + 2 ^ level := by rw [pow_succ]; omega
    have hright : (req >>> lo) % 2 ^ 2 ^ level = 0 → (req >>> (lo + 2 ^ level)) % 2 ^ 2 ^ level ≠ 0 := by
      intro hleft hright
      refine h (slice_eq_zero.2 fun i hlo hhi => ?_)
      rcases lt_or_ge i (lo + 2 ^ level) with hi | hi
      · exact slice_eq_zero.1 hleft i hlo hi
      · exact slice_eq_zero.1 hright i hi (by omega)
    split
    case isTrue hbit =>
      have hne : (req >>> (lo + 2 ^ level)) % 2 ^ 2 ^ level ≠ 0 := hbit.elim hright fun h => h.1
      obtain ⟨hlo, hhi, hmem⟩ := arbSelect_mem hne
      exact ⟨by omega, by omega, hmem⟩
    case isFalse hbit =>
      obtain ⟨hlo, hhi, hmem⟩ := arbSelect_mem fun hleft => hbit (.inl hleft)
      exact ⟨hlo, by omega, hmem⟩

theorem testBit_level {level c : Nat} (hlo : 2 ^ (level + 1) * c ≤ rr)
    (hhi : rr < 2 ^ (level + 1) * c + 2 ^ (level + 1)) :
    rr.testBit level = true ↔ 2 ^ (level + 1) * c + 2 ^ level ≤ rr := by
  obtain ⟨x, rfl⟩ : ∃ x, rr = 2 ^ (level + 1) * c + x := ⟨rr - 2 ^ (level + 1) * c, by omega⟩
  have hx : x < 2 ^ (level + 1) := by omega
  rw [testBit_two_pow_mul_add _ hx, if_pos (lt_succ_self _)]
  rw [testBit_eq_decide_div_mod_eq, decide_eq_true_eq]
  have hpow : 2 ^ (level + 1) = 2 ^ level * 2 := pow_succ ..
  have hdiv : x / 2 ^ level < 2 := by
    rw [Nat.div_lt_iff_lt_mul (Nat.two_pow_pos _)]
    omega
  rw [mod_eq_of_lt hdiv]
  have hle : 1 ≤ x / 2 ^ level ↔ 2 ^ level ≤ x := by
    rw [Nat.le_div_iff_mul_le (Nat.two_pow_pos _), one_mul]
  omega

theorem arbSelect_rr (hreq : req.testBit rr = true) : ∀ {levels c : Nat}, 2 ^ levels * c ≤ rr →
    rr < 2 ^ levels * c + 2 ^ levels → arbSelect req rr levels (2 ^ levels * c) = rr
  | 0, c, hlo, hhi => by
    rw [arbSelect]
    omega
  | level + 1, c, hlo, hhi => by
    have hbit := testBit_level hlo hhi
    have hpow : 2 ^ (level + 1) = 2 ^ level + 2 ^ level := by rw [pow_succ]; omega
    have heven : 2 ^ (level + 1) * c = 2 ^ level * (2 * c) := by rw [pow_succ, mul_assoc]
    have hodd : 2 ^ (level + 1) * c + 2 ^ level = 2 ^ level * (2 * c + 1) := by rw [Nat.mul_succ, heven]
    rw [arbSelect]
    by_cases hrr : 2 ^ (level + 1) * c + 2 ^ level ≤ rr
    · have hne : (req >>> (2 ^ (level + 1) * c + 2 ^ level)) % 2 ^ 2 ^ level ≠ 0 := fun h => by
        rw [slice_eq_zero.1 h rr hrr (by omega)] at hreq
        cases hreq
      rw [if_pos (.inr ⟨hne, hbit.2 hrr⟩), hodd]
      exact arbSelect_rr hreq (by omega) (by omega)
    · have hne : (req >>> (2 ^ (level + 1) * c)) % 2 ^ 2 ^ level ≠ 0 := fun h => by
        rw [slice_eq_zero.1 h rr hlo (by omega)] at hreq
        cases hreq
      rw [if_neg, heven]
      · exact arbSelect_rr hreq (by omega) (by omega)
      · rintro (h | ⟨-, h⟩)
        · exact hne h
        · exact hrr (hbit.1 h)

/-- The tree selects a requesting port, the one at the round-robin position if it requests. -/
theorem arbSelect_spec {cfg : RouterV2Config} (hne : req ≠ 0) (hports : ∀ i, req.testBit i = true → i < cfg.nbPorts) :
    arbSelect req rr cfg.arbLevels 0 < cfg.nbPorts ∧ req.testBit (arbSelect req rr cfg.arbLevels 0) = true ∧
      (req.testBit rr = true → arbSelect req rr cfg.arbLevels 0 = rr) := by
  have hle : cfg.nbPorts ≤ 2 ^ cfg.arbLevels := le_pow_clog (by decide) _
  have hslice : (req >>> 0) % 2 ^ 2 ^ cfg.arbLevels ≠ 0 := by
    intro h
    refine hne (eq_of_testBit_eq fun i => ?_)
    rw [zero_testBit]
    by_contra hbit
    have hi := hports i (by simpa using hbit)
    exact hbit (slice_eq_zero.1 h i (zero_le _) (by omega))
  obtain ⟨-, -, hmem⟩ := @arbSelect_mem req rr cfg.arbLevels 0 hslice
  refine ⟨hports _ hmem, hmem, fun hrr => ?_⟩
  have hlt := hports rr hrr
  have h := @arbSelect_rr req rr hrr cfg.arbLevels 0 (by omega) (by omega)
  rwa [mul_zero] at h

end Select

/-! ## The priority -/

section Next

variable {nbPorts req rr w : Nat}

theorem arbNext_lt (hrr : rr < nbPorts) : arbNext nbPorts req rr < nbPorts := by
  unfold arbNext
  cases h : (List.range' (rr + 1) (nbPorts - (rr + 1)) ++ List.range (rr + 1)).find? (req.testBit ·) with
  | none => exact hrr
  | some i =>
    have hmem := mem_of_find?_eq_some h
    rw [mem_append, mem_range'_1, mem_range] at hmem
    rw [Option.getD_some]
    omega

/-- How many ports there are from the priority on to an input. -/
def ahead (nbPorts rr w : Nat) : Nat := if rr ≤ w then w - rr else w + nbPorts - rr

theorem ahead_lt (hrr : rr < nbPorts) (hw : w < nbPorts) : ahead nbPorts rr w < nbPorts := by
  unfold ahead
  split <;> omega

theorem arbNext_ahead (hrr : rr < nbPorts) (hw : w < nbPorts) (hne : rr ≠ w) (hreq : req.testBit w = true) :
    ahead nbPorts (arbNext nbPorts req rr) w < ahead nbPorts rr w := by
  have hlt := @arbNext_lt nbPorts req rr hrr
  unfold arbNext at *
  rw [find?_append] at *
  cases hup : (List.range' (rr + 1) (nbPorts - (rr + 1))).find? (req.testBit ·) with
  | some i =>
    -- an input after the one with priority
    rw [find?_range'_eq_some] at hup
    obtain ⟨-, hmem, hfirst⟩ := hup
    rw [mem_range'_1] at hmem
    rw [Option.some_or, Option.getD_some]
    have hpast : rr < w → i ≤ w := by
      intro hrw
      by_contra hiw
      have := hfirst w (by omega) (by omega)
      rw [hreq] at this
      cases this
    unfold ahead
    split <;> split <;> omega
  | none =>
    rw [find?_eq_none] at hup
    have hwr : w < rr := by
      by_contra hrw
      exact hup w (by rw [mem_range'_1]; omega) hreq
    rw [Option.none_or]
    cases hdown : (List.range (rr + 1)).find? (req.testBit ·) with
    | none =>
      rw [find?_eq_none] at hdown
      exact absurd hreq (hdown w (mem_range.2 (by omega)))
    | some i =>
      rw [find?_range_eq_some] at hdown
      obtain ⟨-, -, hfirst⟩ := hdown
      have hiw : i ≤ w := by
        by_contra hiw
        have := hfirst w (by omega)
        rw [hreq] at this
        cases this
      rw [Option.getD_some]
      unfold ahead
      split <;> split <;> omega

end Next

/-! ## One arbiter -/

section Heads

variable {heads : List (Option Nat)} {output i : Nat}

theorem testBit_foldl_or : ∀ {inputs : List Nat} {mask : Nat},
    (inputs.foldl (fun mask input => mask ||| 1 <<< input) mask).testBit i = true ↔ mask.testBit i = true ∨ i ∈ inputs
  | [], mask => by simp
  | input :: inputs, mask => by
    rw [foldl_cons, testBit_foldl_or, testBit_or, Bool.or_eq_true, mem_cons, Nat.one_shiftLeft,
      testBit_two_pow, decide_eq_true_eq, or_assoc, @eq_comm _ input]

theorem testBit_validIn : (validIn heads output).testBit i = true ↔ heads[i]? = some (some output) := by
  unfold validIn
  rw [testBit_foldl_or, zero_testBit, mem_filter, mem_range, decide_eq_true_eq]
  constructor
  · rintro (h | ⟨-, h⟩)
    · cases h
    · exact h
  · intro h
    exact .inr ⟨(List.getElem?_eq_some_iff.1 h).1, h⟩

end Heads

end RouterV2

/-- An arbiter between two cycles: it has requests locked, or it takes new ones. -/
structure OutputArbiter.Ok (nbPorts : Nat) (arb : OutputArbiter) : Prop where
  fresh : arb.lockQ = false → arb.validQ = 0 ∨ arb.lastQ = true
  locked : arb.lockQ = true → arb.reqQ ≠ 0 ∧ arb.validQ = arb.reqQ ∧ arb.lastQ = false
  rr_lt : arb.rrQ < nbPorts
  mask : ∀ i, arb.validQ.testBit i = true → i < nbPorts

def OutputArbiter.requests (arb : OutputArbiter) (validI : Nat) : Nat := if arb.lockQ then arb.reqQ else validI

structure OutputArbiter.After (arb' : OutputArbiter) (req : Nat) (last : Bool) (rr : Nat) : Prop where
  validQ : arb'.validQ = req
  lastQ : arb'.lastQ = last
  lockQ : arb'.lockQ = (decide (req ≠ 0) && !last)
  reqQ : arb'.lockQ = true → arb'.reqQ = req
  rrQ : arb'.rrQ = rr

theorem OutputArbiter.After.ok {arb' : OutputArbiter} {req rr nbPorts : Nat} {last : Bool} (h : arb'.After req last rr)
    (hrr : rr < nbPorts) (hmask : ∀ i, req.testBit i = true → i < nbPorts) : arb'.Ok nbPorts := by
  refine ⟨fun hlock => ?_, fun hlock => ?_, by rw [h.rrQ]; exact hrr, by rw [h.validQ]; exact hmask⟩
  · rw [h.lockQ, Bool.and_eq_false_iff, decide_eq_false_iff_not, not_not, Bool.not_eq_false'] at hlock
    rw [h.validQ, h.lastQ]
    exact hlock
  · have hreq := h.reqQ hlock
    rw [h.lockQ, Bool.and_eq_true, decide_eq_true_eq, Bool.not_eq_true'] at hlock
    rw [hreq, h.validQ, h.lastQ]
    exact ⟨hlock.1, rfl, hlock.2⟩

theorem OutputArbiter.Ok.requests_lt {arb : OutputArbiter} {nbPorts validI : Nat} (h : arb.Ok nbPorts)
    (hvalid : ∀ i, validI.testBit i = true → i < nbPorts) : ∀ i, (arb.requests validI).testBit i = true →
      i < nbPorts := by
  intro i hi
  rw [requests] at hi
  split at hi
  case isTrue hlock =>
    rw [← (h.locked hlock).2.1] at hi
    exact h.mask i hi
  case isFalse => exact hvalid i hi

/-- How many packets an arbiter may still let through before an input that asks. -/
def OutputArbiter.turns (nbPorts w : Nat) (arb : OutputArbiter) : Nat :=
  if arb.lockQ && !arb.reqQ.testBit w then nbPorts else RouterV2.ahead nbPorts arb.rrQ w

theorem OutputArbiter.Ok.turns_le {nbPorts w : Nat} {arb : OutputArbiter} (hok : arb.Ok nbPorts) (hw : w < nbPorts) :
    turns nbPorts w arb ≤ nbPorts := by
  unfold turns
  split
  · exact le_rfl
  · exact (RouterV2.ahead_lt hok.rr_lt hw).le

theorem OutputArbiter.After.turns_eq {nbPorts w req rr : Nat} {arb' : OutputArbiter} (h : arb'.After req false rr)
    (hne : req ≠ 0) : turns nbPorts w arb' = if req.testBit w then RouterV2.ahead nbPorts rr w else nbPorts := by
  have hlock : arb'.lockQ = true := by
    rw [h.lockQ, decide_eq_true hne]
    rfl
  rw [turns, hlock, h.reqQ hlock, h.rrQ]
  cases req.testBit w <;> rfl

theorem OutputArbiter.After.turns_last {nbPorts w req rr : Nat} {arb' : OutputArbiter} (h : arb'.After req true rr) :
    turns nbPorts w arb' = RouterV2.ahead nbPorts rr w := by
  have hlock : arb'.lockQ = false := by
    rw [h.lockQ]
    exact Bool.and_false _
  rw [turns, hlock, h.rrQ]
  rfl

namespace RouterV2

section Arbitrate

variable {cfg : RouterV2Config} {full : Nat → Bool} {heads : List (Option Nat)} {s : RouterV2} {output : Nat}

theorem requests_eq (hok : (s.arbiters output).Ok cfg.nbPorts) {validI req : Nat}
    (hreq : (s.arbiters output).requests validI = req) :
    (if (s.arbiters output).validQ = 0 ∨ (s.arbiters output).lastQ = true then validI
      else (s.arbiters output).validQ) = req ∧
    (if (s.arbiters output).lockQ = true then (s.arbiters output).reqQ else req) = req := by
  subst hreq
  unfold requests
  cases hlock : (s.arbiters output).lockQ with
  | false => simp [hok.fresh hlock]
  | true =>
    obtain ⟨hne, hvalid, hlast⟩ := hok.locked hlock
    simp [hvalid, hne, hlast]

/-- **A cycle of an arbiter** in order: a flit of the selected input goes, or nothing does and the requests stay. -/
theorem arbitrate_spec (hok : (s.arbiters output).Ok cfg.nbPorts) {req sel : Nat}
    (hreq : (s.arbiters output).requests (validIn heads output) = req)
    (hsel : arbSelect req (s.arbiters output).rrQ cfg.arbLevels 0 = sel) :
    (∃ flit rest, s.inputQueues sel = flit :: rest ∧ heads[sel]? = some (some output) ∧ req ≠ 0 ∧
      (arbitrate cfg full heads s output).inputQueues = update s.inputQueues sel rest ∧
      After ((arbitrate cfg full heads s output).arbiters output) req flit.isLast
        (if flit.isLast then arbNext cfg.nbPorts req (s.arbiters output).rrQ else (s.arbiters output).rrQ)) ∨
    ((arbitrate cfg full heads s output).inputQueues = s.inputQueues ∧
      After ((arbitrate cfg full heads s output).arbiters output) req false (s.arbiters output).rrQ) := by
  obtain ⟨hvalidD, hreqD⟩ := requests_eq hok hreq
  rw [arbitrate]
  split
  case isTrue hidle =>
    -- an idle arbiter stays as it is
    obtain ⟨hvalid, hvalidQ, hlock, hlast⟩ := hidle
    rw [Bool.not_eq_true'] at hlock hlast
    have hzero : req = 0 := by
      rw [← hreq, requests, hlock, hvalid]
      rfl
    refine .inr ⟨rfl, hvalidQ.trans hzero.symm, hlast, ?_, fun h => ?_, rfl⟩
    · rw [hlock, hzero]
      rfl
    · rw [hlock] at h
      cases h
  case isFalse hidle =>
    simp only [hvalidD, hreqD]
    have hasked : validIn heads output ≠ 0 → req ≠ 0 := by
      intro hne
      rw [← hreq, requests]
      split
      case isTrue hlock => exact (hok.locked hlock).1
      case isFalse => exact hne
    by_cases hvalid : validIn heads output = 0
    · -- nobody asks
      refine .inr ?_
      simp only [hvalid, ne_eq, not_true_eq_false, if_false, zero_testBit, Bool.false_and, Bool.false_eq_true]
      cases hq : s.inputQueues 0 with
      | nil => exact ⟨rfl, by simp, by simp, by simp, by simp, by simp⟩
      | cons flit rest => exact ⟨rfl, by simp, by simp, by simp, by simp, by simp⟩
    · have hne := hasked hvalid
      simp only [ne_eq, hvalid, hne, not_false_eq_true, if_true, hsel]
      cases hq : s.inputQueues sel with
      | nil => exact .inr ⟨rfl, by simp, by simp, by simp [hne], by simp, by simp⟩
      | cons flit rest =>
        by_cases hmove : ((validIn heads output).testBit sel && !full output) = true
        · rw [Bool.and_eq_true, Bool.not_eq_true'] at hmove
          refine .inl ⟨flit, rest, rfl, testBit_validIn.1 hmove.1, trivial, ?_, ?_⟩
          · simp [hmove.1, hmove.2]
          · simp only [hmove.1, hmove.2, Bool.not_false, Bool.and_self, if_true, update_self, Bool.and_true,
              Bool.true_and, and_true]
            exact ⟨rfl, rfl, by simp [hne], fun _ => rfl, rfl⟩
        · refine .inr ?_
          simp only [if_neg hmove, update_self]
          have hgnt : (!full output && ((validIn heads output).testBit sel && flit.isLast)) = false := by
            rw [← Bool.and_assoc, Bool.and_comm (!full output), Bool.eq_false_iff.2 hmove, Bool.false_and]
          rw [Bool.and_comm _ (!full output)]
          rw [hgnt]
          exact ⟨trivial, rfl, rfl, by simp [hne], fun _ => rfl, by simp⟩

/-! ## All arbiters -/

theorem moveFlit_arbiters {input output : Nat} {flit : Flit} {rest : List Flit} :
    (s.moveFlit cfg input output flit rest).arbiters = s.arbiters := by
  rw [moveFlit]
  split <;> rfl

def OnlyFor (heads : List (Option Nat)) (output input : Nat) : Prop := ∀ o, heads[input]? = some (some o) → o = output

/-- An arbiter leaves the others alone, and the inputs that do not ask for its output. -/
theorem arbitrate_frame {output' : Nat} (hne : output' ≠ output) :
    (arbitrate cfg full heads s output').arbiters output = s.arbiters output ∧
      ∀ input, OnlyFor heads output input → (arbitrate cfg full heads s output').inputQueues input =
        s.inputQueues input := by
  constructor
  · rw [arbitrate]
    split
    case isTrue => rfl
    case isFalse =>
      dsimp only
      rw [update_of_ne hne.symm]
      generalize (if validIn heads output' ≠ 0 then _ else 0) = sel
      split
      case h_1 flit rest hq =>
        split
        case isTrue => rw [moveFlit_arbiters]
        case isFalse => rfl
      case h_2 => rfl
  · intro input honly
    obtain ⟨arbiters, h | ⟨input', flit, rest, -, -, hvalid, h⟩⟩ := arbitrate_cases cfg full heads s output'
    · rw [h]
    · rw [h]
      rw [moveFlit_inputQueues, update_of_ne]
      rintro rfl
      exact hne (honly output' (testBit_validIn.1 hvalid))

theorem foldl_arbitrate_frame : ∀ {ports : List Nat} {s : RouterV2}, output ∉ ports →
    (ports.foldl (arbitrate cfg full heads) s).arbiters output = s.arbiters output ∧
      ∀ input, OnlyFor heads output input →
        (ports.foldl (arbitrate cfg full heads) s).inputQueues input = s.inputQueues input
  | [], _, _ => ⟨rfl, fun _ _ => rfl⟩
  | port :: ports, s, h => by
    rw [mem_cons, not_or] at h
    obtain ⟨harb, hqueue⟩ := @arbitrate_frame cfg full heads s output port (Ne.symm h.1)
    obtain ⟨harb', hqueue'⟩ := @foldl_arbitrate_frame ports (arbitrate cfg full heads s port) h.2
    exact ⟨harb'.trans harb, fun input honly => (hqueue' input honly).trans (hqueue input honly)⟩

theorem foldl_arbitrate {ports : List Nat} (hnd : ports.Nodup) (hmem : output ∈ ports) : ∃ s₁ : RouterV2,
    s₁.arbiters output = s.arbiters output ∧
    (∀ input, OnlyFor heads output input → s₁.inputQueues input = s.inputQueues input) ∧
    (ports.foldl (arbitrate cfg full heads) s).arbiters output = (arbitrate cfg full heads s₁ output).arbiters output ∧
    ∀ input, OnlyFor heads output input → (ports.foldl (arbitrate cfg full heads) s).inputQueues input =
      (arbitrate cfg full heads s₁ output).inputQueues input := by
  obtain ⟨before, after, rfl⟩ := append_of_mem hmem
  rw [nodup_append, nodup_cons] at hnd
  obtain ⟨-, ⟨hafter, -⟩, hdisj⟩ := hnd
  have hbefore : output ∉ before := fun h => hdisj output h output mem_cons_self rfl
  obtain ⟨harb, hqueue⟩ := @foldl_arbitrate_frame cfg full heads output before s hbefore
  obtain ⟨harb', hqueue'⟩ := @foldl_arbitrate_frame cfg full heads output after
    (arbitrate cfg full heads (before.foldl (arbitrate cfg full heads) s) output) hafter
  refine ⟨before.foldl (arbitrate cfg full heads) s, harb, hqueue, ?_, fun input honly => ?_⟩
  · rw [foldl_append, foldl_cons]
    exact harb'
  · rw [foldl_append, foldl_cons]
    exact hqueue' input honly

theorem foldl_sendOutput {env : RouterEnv} : ∀ (ports : List Nat) (s : RouterV2),
    (ports.foldl (sendOutput env) s).inputQueues = s.inputQueues ∧
      (ports.foldl (sendOutput env) s).arbiters = s.arbiters
  | [], _ => ⟨rfl, rfl⟩
  | port :: ports, s => by
    obtain ⟨hqueue, harb⟩ := foldl_sendOutput ports (sendOutput env s port)
    have hframe : (sendOutput env s port).inputQueues = s.inputQueues ∧ (sendOutput env s port).arbiters =
      s.arbiters := by
      rw [sendOutput]
      split
      case h_1 => exact ⟨rfl, rfl⟩
      case h_2 => split <;> exact ⟨rfl, rfl⟩
    exact ⟨hqueue.trans hframe.1, harb.trans hframe.2⟩

end Arbitrate

/-! ## A cycle of the router -/

section Cycle

variable {cfg : RouterV2Config} {env : RouterEnv} {s s' : RouterV2} {output : Nat}

/-- The flits that leave the input FIFOs for an output in a step, with their inputs. -/
def passed (cfg : RouterV2Config) (output : Nat) (s s' : RouterV2) : List (Nat × Flit) :=
  (List.range cfg.nbPorts).filterMap fun input =>
    match s.inputQueues input with
    | [] => none
    | flit :: rest =>
      if s'.inputQueues input = rest ∧ cfg.getOutputPort flit.destId = some output then some (input, flit) else none

theorem passed_eq_nil (h : ∀ input < cfg.nbPorts, ∀ flit rest, s.inputQueues input = flit :: rest →
    cfg.getOutputPort flit.destId = some output → s'.inputQueues input ≠ rest) : passed cfg output s s' = [] := by
  unfold passed
  rw [filterMap_eq_nil_iff]
  intro input hinput
  split
  · rfl
  · rename_i flit rest hq
    exact if_neg fun hpass => h input (mem_range.1 hinput) flit rest hq hpass.2 hpass.1

theorem passed_eq_singleton {sel : Nat} {flit : Flit} {rest : List Flit} (hsel : sel < cfg.nbPorts)
    (hq : s.inputQueues sel = flit :: rest) (hport : cfg.getOutputPort flit.destId = some output)
    (hrest : s'.inputQueues sel = rest)
    (h : ∀ input < cfg.nbPorts, input ≠ sel → ∀ flit rest, s.inputQueues input = flit :: rest →
      cfg.getOutputPort flit.destId = some output → s'.inputQueues input ≠ rest) :
    passed cfg output s s' = [(sel, flit)] := by
  obtain ⟨before, after, hrange⟩ := append_of_mem (mem_range.2 hsel)
  have hnd := @List.nodup_range cfg.nbPorts
  have hlt : ∀ input ∈ before ++ sel :: after, input < cfg.nbPorts := fun input hi => mem_range.1 (hrange ▸ hi)
  rw [hrange, nodup_append, nodup_cons] at hnd
  obtain ⟨-, ⟨hafter, -⟩, hdisj⟩ := hnd
  have hnone : ∀ inputs : List Nat, (∀ input ∈ inputs, input < cfg.nbPorts ∧ input ≠ sel) →
      inputs.filterMap (fun input =>
        match s.inputQueues input with
        | [] => none
        | flit :: rest =>
          if s'.inputQueues input = rest ∧ cfg.getOutputPort flit.destId = some output then some (input, flit)
          else none) = [] := by
    intro inputs hall
    rw [filterMap_eq_nil_iff]
    intro input hinput
    obtain ⟨hlt, hne⟩ := hall input hinput
    split
    · rfl
    · rename_i flit rest hq
      exact if_neg fun hpass => h input hlt hne flit rest hq hpass.2 hpass.1
  unfold passed
  rw [hrange, filterMap_append, filterMap_cons,
    hnone before fun input hi => ⟨hlt input (mem_append_left _ hi), hdisj input hi sel mem_cons_self⟩,
    hnone after fun input hi => ⟨hlt input (mem_append_right _ (mem_cons_of_mem _ hi)), fun heq => hafter (heq ▸ hi)⟩]
  simp [hq, hrest, hport]

/-- **A cycle**, as the arbiter of one output sees it. -/
theorem fsmHandler_arbiter (h : s.fsmHandler cfg env = some s') (ho : output < cfg.nbPorts)
    (hok : (s.arbiters output).Ok cfg.nbPorts) : ∃ validI req sel,
    (∀ i, validI.testBit i = true ↔ i < cfg.nbPorts ∧ s.headOutput cfg env i = some (some output)) ∧
    (s.arbiters output).requests validI = req ∧ arbSelect req (s.arbiters output).rrQ cfg.arbLevels 0 = sel ∧
    ((∃ flit, validI.testBit sel = true ∧ req ≠ 0 ∧ passed cfg output s s' = [(sel, flit)] ∧
      (s'.arbiters output).After req flit.isLast
        (if flit.isLast then arbNext cfg.nbPorts req (s.arbiters output).rrQ else (s.arbiters output).rrQ)) ∨
    (passed cfg output s s' = [] ∧ (s'.arbiters output).After req false (s.arbiters output).rrQ)) := by
  rw [fsmHandler, Option.map_eq_some_iff] at h
  obtain ⟨heads, hheads, rfl⟩ := h
  obtain ⟨hqueues, harbs⟩ := @foldl_sendOutput env (List.range cfg.nbPorts) s
  -- the heads of the inputs
  obtain ⟨hlen, hget⟩ := List.forall₂_iff_get.1 (forall₂_of_mapM hheads)
  rw [length_range] at hlen
  have hhead : ∀ i o, heads[i]? = some (some o) ↔ i < cfg.nbPorts ∧ s.headOutput cfg env i = some (some o) := by
    intro i o
    have hof : ∀ hi : i < cfg.nbPorts, s.headOutput cfg env i = some (heads.get ⟨i, hlen ▸ hi⟩) := by
      intro hi
      have := hget i (by rwa [length_range]) (hlen ▸ hi)
      rw [get_eq_getElem, getElem_range] at this
      rw [headOutput, hqueues] at this
      exact this
    constructor
    · intro hi
      obtain ⟨hlt, heq⟩ := List.getElem?_eq_some_iff.1 hi
      exact ⟨hlen ▸ hlt, by rw [hof (hlen ▸ hlt), get_eq_getElem, heq]⟩
    · rintro ⟨hi, heq⟩
      rw [hof hi, Option.some.injEq] at heq
      exact List.getElem?_eq_some_iff.2 ⟨hlen ▸ hi, heq⟩
  have honly : ∀ i flit rest, s.inputQueues i = flit :: rest → cfg.getOutputPort flit.destId = some output →
      OnlyFor heads output i := by
    intro i flit rest hq hport o hi
    have heq := ((hhead i o).1 hi).2
    rw [headOutput, hq] at heq
    simp only [hport, Option.map_some] at heq
    split at heq <;> cases heq
    rfl
  obtain ⟨s₁, harb₁, hqueue₁, harb₂, hqueue₂⟩ := @foldl_arbitrate cfg
    (fun output => decide (outputDepth ≤ (s.outputQueues output).length)) heads
    ((List.range cfg.nbPorts).foldl (sendOutput env) s) output (List.range cfg.nbPorts) nodup_range
    (mem_range.2 ho)
  rw [harbs] at harb₁
  rw [hqueues] at hqueue₁
  have hok₁ : (s₁.arbiters output).Ok cfg.nbPorts := harb₁ ▸ hok
  have hspec := @arbitrate_spec cfg (fun output => decide (outputDepth ≤ (s.outputQueues output).length))
    heads s₁ output
    hok₁ _ _ rfl rfl
  rw [harb₁] at hspec
  refine ⟨validIn heads output, _, _, fun i => testBit_validIn.trans (hhead i output), rfl, rfl, ?_⟩
  have hstill : ∀ i flit rest, s.inputQueues i = flit :: rest → cfg.getOutputPort flit.destId = some output →
      (arbitrate cfg (fun output => decide (outputDepth ≤ (s.outputQueues output).length)) heads s₁ output).inputQueues
        i = s₁.inputQueues i →
      ((List.range cfg.nbPorts).foldl
        (arbitrate cfg (fun output => decide (outputDepth ≤ (s.outputQueues output).length)) heads)
        ((List.range cfg.nbPorts).foldl (sendOutput env) s)).inputQueues i ≠ rest := by
    intro i flit rest hq hport hsame hrest
    have hi := honly i flit rest hq hport
    rw [hqueue₂ i hi, hsame, hqueue₁ i hi, hq] at hrest
    have := congrArg length hrest
    rw [length_cons] at this
    omega
  rcases hspec with ⟨flit, rest, hq, hvalid, hne, hpop, hafter⟩ | ⟨hsame, hafter⟩
  · left
    generalize hsel : arbSelect _ (s.arbiters output).rrQ cfg.arbLevels 0 = sel at hq hvalid hpop hafter ⊢
    obtain ⟨hlt, hheadSel⟩ := (hhead sel output).1 hvalid
    have honlySel : OnlyFor heads output sel := by
      intro o hi
      rw [hvalid, Option.some.injEq, Option.some.injEq] at hi
      exact hi.symm
    rw [hqueue₁ sel honlySel] at hq
    have hport : cfg.getOutputPort flit.destId = some output := by
      rw [headOutput, hq] at hheadSel
      simp only at hheadSel
      split at hheadSel
      · obtain ⟨o, ho, heq⟩ := Option.map_eq_some_iff.1 hheadSel
        rw [ho, Option.some.inj heq]
      · cases hheadSel
    refine ⟨flit, testBit_validIn.2 hvalid, hne, passed_eq_singleton hlt hq hport ?_ ?_, by rw [harb₂]; exact hafter⟩
    · rw [hqueue₂ sel honlySel, hpop, update_self]
    · intro i _ hi flit' rest' hq' hport'
      exact hstill i flit' rest' hq' hport' (by rw [hpop, update_of_ne hi])
  · right
    refine ⟨passed_eq_nil fun i _ flit rest hq hport => hstill i flit rest hq hport (by rw [hsame]), by
      rw [harb₂]; exact hafter⟩

def ArbitersOk (cfg : RouterV2Config) (s : RouterV2) : Prop := ∀ output < cfg.nbPorts,
    (s.arbiters output).Ok cfg.nbPorts

theorem arbitersOk_init (hports : 0 < cfg.nbPorts) : ArbitersOk cfg {} := by
  intro output _
  refine ⟨fun _ => .inl rfl, nofun, hports, fun i hi => ?_⟩
  rw [show ({} : OutputArbiter).validQ = 0 from rfl, zero_testBit] at hi
  cases hi

theorem arbitersOk_step (s : RouterV2) (e : RouterEnv × RouterEvent) (s' : RouterV2) (hok : ArbitersOk cfg s)
    (h : routerStep cfg s e = some s') : ArbitersOk cfg s' := by
  obtain ⟨env, e⟩ := e
  cases e with
  | fsm =>
    intro output ho
    obtain ⟨validI, req, sel, hvalid, rfl, -, hstep⟩ :=
      @fsmHandler_arbiter cfg env { s with outputs := [] } s' output h ho
      (hok output ho)
    have hmask := (hok output ho).requests_lt fun i hi => ((hvalid i).1 hi).1
    rcases hstep with ⟨flit, -, -, -, hafter⟩ | ⟨-, hafter⟩
    · refine hafter.ok ?_ hmask
      split
      · exact arbNext_lt (hok output ho).rr_lt
      · exact (hok output ho).rr_lt
    · exact hafter.ok (hok output ho).rr_lt hmask
  | linkReq input flit =>
    cases h
    exact hok
  | linkUnstall output =>
    cases h
    exact hok

/-! ## Waiting -/

/-- An input waits for an output: in every cycle, its head flit is for that output. -/
def Waits (cfg : RouterV2Config) (output w : Nat) (s : RouterV2) (e : RouterEnv × RouterEvent) : Prop :=
  e.2 = .fsm → s.headOutput cfg e.1 w = some (some output)

/-- **A step while an input waits**: the end of a packet takes one of the turns, and a flit in it needs one. -/
theorem turns_step {w : Nat} {e : RouterEnv × RouterEvent} (hok : ArbitersOk cfg s) (ho : output < cfg.nbPorts)
    (hw : w < cfg.nbPorts) (h : routerStep cfg s e = some s') (hwait : Waits cfg output w s e)
    (hother : ∀ p ∈ passed cfg output s s', p.1 ≠ w) :
    (passed cfg output s s' = [] ∧
      turns cfg.nbPorts w (s'.arbiters output) ≤ turns cfg.nbPorts w (s.arbiters output)) ∨
    ∃ p, passed cfg output s s' = [p] ∧
      if p.2.isLast then
        turns cfg.nbPorts w (s'.arbiters output) < turns cfg.nbPorts w (s.arbiters output)
      else
        0 < turns cfg.nbPorts w (s'.arbiters output) ∧
          turns cfg.nbPorts w (s'.arbiters output) ≤ turns cfg.nbPorts w (s.arbiters output) := by
  obtain ⟨env, e⟩ := e
  cases e with
  | fsm =>
    obtain ⟨validI, req, sel, hvalid, hreq, hsel, hstep⟩ :=
      @fsmHandler_arbiter cfg env { s with outputs := [] } s' output h
      ho (hok output ho)
    replace hstep : (∃ flit, validI.testBit sel = true ∧ req ≠ 0 ∧ passed cfg output s s' = [(sel, flit)] ∧
        (s'.arbiters output).After req flit.isLast (if flit.isLast then arbNext cfg.nbPorts req (s.arbiters output).rrQ
          else (s.arbiters output).rrQ)) ∨
        (passed cfg output s s' = [] ∧ (s'.arbiters output).After req false (s.arbiters output).rrQ) := hstep
    replace hsel : arbSelect req (s.arbiters output).rrQ cfg.arbLevels 0 = sel := hsel
    have hrr := (hok output ho).rr_lt
    have hwv : validI.testBit w = true := (hvalid w).2 ⟨hw, hwait rfl⟩
    have hmask : ∀ i, req.testBit i = true → i < cfg.nbPorts :=
      hreq ▸ (hok output ho).requests_lt fun i hi => ((hvalid i).1 hi).1
    have hreq' : req = if (s.arbiters output).lockQ then (s.arbiters output).reqQ else validI := hreq.symm
    -- the waiting input is among the requests, unless those were locked before it asked
    have hturns : turns cfg.nbPorts w (s.arbiters output) =
        if req.testBit w then ahead cfg.nbPorts (s.arbiters output).rrQ w else cfg.nbPorts := by
      rw [turns, hreq']
      cases (s.arbiters output).lockQ with
      | false => simp [hwv]
      | true => cases hbit : (s.arbiters output).reqQ.testBit w <;> simp [hbit]
    have hne : req ≠ 0 := by
      rw [hreq']
      split
      case isTrue hlock => exact ((hok output ho).locked hlock).1
      case isFalse =>
        rintro rfl
        rw [zero_testBit] at hwv
        cases hwv
    rcases hstep with ⟨flit, -, -, hpass, hafter⟩ | ⟨hpass, hafter⟩
    · have hselw : sel ≠ w := hother (sel, flit) (by rw [hpass]; exact mem_singleton_self _)
      have hrrw : req.testBit w = true → (s.arbiters output).rrQ ≠ w := by
        intro hbit heq
        have := (@arbSelect_spec req (s.arbiters output).rrQ cfg hne hmask).2.2 (by rw [heq]; exact hbit)
        exact hselw (hsel.symm.trans (this.trans heq))
      refine .inr ⟨(sel, flit), hpass, ?_⟩
      cases hlast : flit.isLast with
      | true =>
        rw [hlast, if_pos rfl] at hafter
        rw [if_pos rfl, hafter.turns_last, hturns]
        split
        case isTrue hbit => exact arbNext_ahead hrr hw (hrrw hbit) hbit
        case isFalse => exact ahead_lt (arbNext_lt hrr) hw
      | false =>
        rw [hlast] at hafter
        simp only [Bool.false_eq_true, if_false] at hafter ⊢
        rw [hafter.turns_eq hne, hturns]
        refine ⟨?_, le_rfl⟩
        split
        case isTrue hbit =>
          have := hrrw hbit
          unfold ahead
          split <;> omega
        case isFalse => omega
    · refine .inl ⟨hpass, ?_⟩
      rw [hafter.turns_eq hne, hturns]
  | linkReq input flit =>
    cases h
    refine .inl ⟨passed_eq_nil fun i _ flit' rest hq _ hrest => ?_, le_rfl⟩
    replace hrest : update s.inputQueues input (s.inputQueues input ++ [flit]) i = rest := hrest
    have hlen := congrArg length hrest
    by_cases hi : i = input
    · subst hi
      rw [update_self, hq, length_append, length_cons] at hlen
      omega
    · rw [update_of_ne hi, hq, length_cons] at hlen
      omega
  | linkUnstall output' =>
    cases h
    refine .inl ⟨passed_eq_nil fun i _ flit' rest hq _ hrest => ?_, le_rfl⟩
    replace hrest : s.inputQueues i = rest := hrest
    have hlen := congrArg length hrest
    rw [hq, length_cons] at hlen
    omega

end Cycle

/-! ## Whole runs -/

/-- The packets, complete or begun, that a sequence of flits belongs to. -/
def packets : List Flit → Nat
  | [] => 0
  | [_] => 1
  | flit :: flits => if flit.isLast then packets flits + 1 else packets flits

def passedIn (cfg : RouterV2Config) (output : Nat) : RouterV2 → List (RouterEnv × RouterEvent) → List (Nat × Flit)
  | _, [] => []
  | s, e :: es =>
    match routerStep cfg s e with
    | none => []
    | some s' => passed cfg output s s' ++ passedIn cfg output s' es

section Runs

variable {cfg : RouterV2Config} {output w : Nat}

theorem packets_cons_le (flit : Flit) (flits : List Flit) :
    packets (flit :: flits) ≤ if flit.isLast then packets flits + 1 else max 1 (packets flits) := by
  cases flits with
  | nil =>
    simp only [packets]
    split <;> omega
  | cons flit' flits =>
    rw [packets]
    · split <;> omega
    · nofun

theorem packets_le_turns (ho : output < cfg.nbPorts) (hw : w < cfg.nbPorts) :
    ∀ {es : List (RouterEnv × RouterEvent)} {s : RouterV2}, ArbitersOk cfg s →
      AllSteps (routerStep cfg) (Waits cfg output w) s es → (∀ p ∈ passedIn cfg output s es, p.1 ≠ w) →
      packets ((passedIn cfg output s es).map Prod.snd) ≤ turns cfg.nbPorts w (s.arbiters output)
  | [], _, _, _, _ => zero_le _
  | e :: es, s, hok, hwait, hother => by
    rw [passedIn] at hother ⊢
    cases h : routerStep cfg s e with
    | none => exact zero_le _
    | some s' =>
      simp only [h] at hother ⊢
      obtain ⟨hwaits, hrest⟩ := hwait s' h
      have ih := packets_le_turns ho hw (arbitersOk_step s e s' hok h) hrest fun p hp =>
        hother p (mem_append_right _ hp)
      rcases turns_step hok ho hw h hwaits fun p hp => hother p (mem_append_left _ hp) with ⟨hnil, hle⟩ | ⟨p, hp, hstep⟩
      · rw [hnil]
        exact ih.trans hle
      · rw [hp, singleton_append, map_cons]
        refine (packets_cons_le _ _).trans ?_
        split at hstep
        case isTrue hlast =>
          rw [if_pos hlast]
          omega
        case isFalse hlast =>
          rw [if_neg hlast]
          omega

/-- **Bounded overtaking**: the arbitration selects an input that asks, the one with priority if it does, and from any
reachable state no more packets than there are ports pass before the head flit of an input. -/
theorem bounded_overtaking (cfg : RouterV2Config) :
    (∀ req rr, req ≠ 0 → (∀ i, req.testBit i = true → i < cfg.nbPorts) →
      arbSelect req rr cfg.arbLevels 0 < cfg.nbPorts ∧ req.testBit (arbSelect req rr cfg.arbLevels 0) = true ∧
        (req.testBit rr = true → arbSelect req rr cfg.arbLevels 0 = rr)) ∧
    ∀ before s es, run (routerStep cfg) {} before = some s → ∀ output < cfg.nbPorts, ∀ w < cfg.nbPorts,
      AllSteps (routerStep cfg) (Waits cfg output w) s es → (∀ p ∈ passedIn cfg output s es, p.1 ≠ w) →
      packets ((passedIn cfg output s es).map Prod.snd) ≤ cfg.nbPorts := by
  refine ⟨fun req rr hne hports => arbSelect_spec hne hports, fun before s es hrun output ho w hw hwait hother => ?_⟩
  have hok := run_invariant (I := ArbitersOk cfg) arbitersOk_step (arbitersOk_init (by omega)) hrun
  exact (packets_le_turns ho hw hok hwait hother).trans ((hok output ho).turns_le hw)

end Runs

/-- Two ports: the rest of a packet that is on its way and a whole one pass before the flit that came to input 0. -/
example :
    let flit (burst : Nat) (last : Bool) : Flit :=
      { destId := 1, srcId := 0, isRsp := false, burst := burst, wide := false, isAddress := false, initiatorAddr := 0
        opcode := .write, addr := 0, size := 4, isLast := last }
    let cfg : RouterV2Config := { nbPorts := 2, queueCapacity := fun _ => 2, getOutputPort := fun _ => some 0 }
    (passedIn cfg 0 {} ([RouterEvent.linkReq 1 (flit 0 false), .fsm, .linkReq 0 (flit 1 true), .linkReq 1 (flit 0 true),
      .linkReq 1 (flit 2 true), .fsm, .fsm, .fsm].map fun e => ({ now := 0 }, e))).map (fun p => (p.1, p.2.burst)) =
        [(1, 0), (1, 0), (1, 2), (0, 1)] := by
  decide +kernel

end RouterV2

end GvsocPulp.FloonocV2
