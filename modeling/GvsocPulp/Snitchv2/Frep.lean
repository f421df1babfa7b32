import GvsocPulp.Lib.Repeat
import GvsocPulp.Snitchv2.FpSs

/-!
# FREP loops

A program is a list of blocks: an instruction on its own, or an FREP with its body. `Block.unroll` is what it executes
when its loops are unrolled. The counters of a running loop say what is left of it (`loopTodo`), how much of its body
has had its last execution (`lastDone`) and how much a first one (`firstDone`); `LoopOk.next` is their step.
-/

namespace GvsocPulp.Snitchv2

open Lib Nat BitVec FpSs

variable {w : Nat}

/-! ## Programs -/

/-- A piece of a program: an instruction on its own, or an FREP with its body. -/
inductive Block (w : Nat)
  | single (insn : FpInsn w)
  | frep (insn : FpInsn w) (body : List (FpInsn w))

namespace Block

/-- The instructions of a block, in program order. -/
def insns : Block w → List (FpInsn w)
  | single insn => [insn]
  | frep insn body => insn :: body

/-- An FREP is followed by its body, of sequenced instructions that the buffer has room for. -/
def Ok (cfg : FpConfig) : Block w → Prop
  | single insn => insn.kind.isFrep = false
  | frep insn body => insn.kind.isFrep = true ∧ body.length = insn.uim2 + 1 ∧ body.length ≤ cfg.seqBufferSize + 1 ∧
      ∀ b ∈ body, b.kind.isFrep = false ∧ b.kind.isBypass = false

end Block

/-- How often the body of an FREP is executed. -/
def FpInsn.reps (insn : FpInsn w) : Nat := insn.intValue.toNat + 1

/-- An instruction of the body in repetition `k`: the masked FP registers are shifted. -/
def FpInsn.repetition (frep : FpInsn w) (k : Nat) (insn : FpInsn w) : Nat × List InsnArg :=
  (insn.entry, staggerArgs frep.uim0 (k % (frep.uim1 + 1)) insn.args)

def Block.unroll : Block w → List (Nat × List InsnArg)
  | single insn => [(insn.entry, insn.args)]
  | frep insn body =>
    if insn.kind = .frepI then innerLoop insn.repetition body insn.reps else outerLoop insn.repetition body insn.reps

def program (prog : List (Block w)) : List (FpInsn w) := prog.flatMap Block.insns

def unroll (prog : List (Block w)) : List (Nat × List InsnArg) := prog.flatMap Block.unroll

/-! ## Loops -/

structure LoopOk (frep : FpInsn w) (body : List (FpInsn w)) (loop : FrepLoop) : Prop where
  inner : loop.inner = decide (frep.kind = .frepI)
  nbInsns : loop.nbInsns = body.length
  nbRpt : loop.nbRpt = frep.intValue.setWidth 64 + 1
  staggerMax : loop.staggerMax = frep.uim1
  staggerMask : loop.staggerMask = frep.uim0
  insn_lt : loop.insn < body.length
  rpt_lt : loop.rpt.toNat < frep.reps

def loopTodo (frep : FpInsn w) (body : List (FpInsn w)) (loop : FrepLoop) : List (Nat × List InsnArg) :=
  if loop.inner then innerTodo frep.repetition body frep.reps loop.insn loop.rpt.toNat
  else outerTodo frep.repetition body frep.reps loop.insn loop.rpt.toNat

/-- How many instructions of the body have had their last execution. -/
def lastDone (loop : FrepLoop) : Nat :=
  if loop.inner then loop.insn else if loop.rpt = loop.nbRpt - 1 then loop.insn else 0

/-- How many instructions of the body have had an execution. -/
def firstDone (loop : FrepLoop) : Nat :=
  if loop.rpt = 0 then loop.insn else if loop.inner then loop.insn + 1 else loop.nbInsns

section Loop

variable {frep b : FpInsn w} {body : List (FpInsn w)} {loop : FrepLoop}

section

variable (h : LoopOk frep body loop)
include h

theorem stagger_eq : stagger loop = loop.rpt.toNat % (frep.uim1 + 1) := by
  rw [stagger, h.staggerMax]
  split
  case isTrue => rfl
  case isFalse hzero =>
    rw [show frep.uim1 = 0 by omega]
    simp [mod_one]

variable (hw : w < 64)
include hw

theorem LoopOk.toNat_nbRpt : loop.nbRpt.toNat = frep.reps := by
  have hv := frep.intValue.isLt
  have hpow : 2 ^ w ≤ 2 ^ 63 := Nat.pow_le_pow_right (by omega) (by omega)
  rw [h.nbRpt, toNat_add, toNat_setWidth, show BitVec.toNat 1 = 1 from rfl, mod_add_mod,
    mod_eq_of_lt (by omega), FpInsn.reps]

theorem LoopOk.reps_lt : frep.reps < 2 ^ 64 := by
  rw [← h.toNat_nbRpt hw]
  exact loop.nbRpt.isLt

theorem LoopOk.toNat_rpt_succ : (loop.rpt + 1).toNat = loop.rpt.toNat + 1 := by
  have hlt := h.rpt_lt
  have hreps := h.reps_lt hw
  rw [toNat_add, show BitVec.toNat 1 = 1 from rfl, mod_eq_of_lt (by omega)]

theorem LoopOk.next_iff :
    loop.rpt + 1 = loop.nbRpt ↔ loop.rpt.toNat + 1 = frep.reps := by
  rw [← toNat_inj, h.toNat_rpt_succ hw, h.toNat_nbRpt hw]

theorem LoopOk.last_iff :
    loop.rpt = loop.nbRpt - 1 ↔ loop.rpt.toNat + 1 = frep.reps := by
  rw [← h.next_iff hw]
  constructor
  · intro hlast
    rw [hlast, BitVec.sub_add_cancel]
  · intro hnext
    rw [← hnext, BitVec.add_sub_cancel]

end

theorem loopOk_start {insn : FpInsn w} (hlen : body.length = insn.uim2 + 1) :
    LoopOk insn body (loopStart insn) where
  inner := rfl
  nbInsns := hlen.symm
  nbRpt := rfl
  staggerMax := rfl
  staggerMask := rfl
  insn_lt := by simp [loopStart, hlen]
  rpt_lt := by simp [loopStart, FpInsn.reps]

theorem loopTodo_start {insn : FpInsn w} :
    loopTodo insn body (loopStart insn) = (Block.frep insn body).unroll := by
  rw [loopTodo, Block.unroll, loopStart]
  by_cases hk : insn.kind = .frepI
  · simp [hk, innerLoop_eq]
  · have hreps : 0 < insn.reps := succ_pos _
    simp [hk, outerLoop_eq hreps]

/-- One execution of a loop: what is left of it, and the counters. -/
structure LoopNext (frep : FpInsn w) (body : List (FpInsn w)) (loop loop' : FrepLoop)
    (todo : List (Nat × List InsnArg)) :
    Prop where
  ok : LoopOk frep body loop'
  todo : todo = loopTodo frep body loop'
  lastDone : lastDone loop' = if loop.rpt = loop.nbRpt - 1 then loop.insn + 1 else lastDone loop
  firstDone : firstDone loop' ≤ max (firstDone loop) (loop.insn + 1)

/-- A loop takes the next execution from what is left, and is done when nothing is. -/
abbrev LoopTakes (frep : FpInsn w) (body : List (FpInsn w)) (b : FpInsn w) (loop loop' : FrepLoop)
    (done : Bool) : Prop :=
  ∃ todo, loopTodo frep body loop = frep.repetition loop.rpt.toNat b :: todo ∧
    (done = true → todo = [] ∧ loop.rpt = loop.nbRpt - 1 ∧ loop.insn + 1 = body.length) ∧
    (done = false → LoopNext frep body loop loop' todo)

theorem lastDone_of_last (hlast : loop.rpt = loop.nbRpt - 1) :
    lastDone loop = loop.insn := by
  rw [lastDone, if_pos hlast]
  split <;> rfl

variable {loop' : FrepLoop} {done : Bool}

variable (h : LoopOk frep body loop) (hw : w < 64) (hb : body[loop.insn]? = some b)
include h hw hb

theorem LoopOk.next_inner (hin : loop.inner = true) (hnext : loopNext loop = (loop', done)) :
    LoopTakes frep body b loop loop' done := by
  have hlt := h.rpt_lt
  have hinsn := h.insn_lt
  refine ⟨_, by rw [loopTodo, if_pos hin, innerTodo_next hb hlt], ?_⟩
  rw [loopNext, if_pos hin] at hnext
  by_cases hrpt : loop.rpt + 1 = loop.nbRpt
  · -- the last repetition of this instruction
    have hreps := (h.next_iff hw).1 hrpt
    have hlast := (h.last_iff hw).2 hreps
    simp only [hrpt, if_true] at hnext
    cases hnext
    rw [hreps, innerTodo_wrap]
    constructor
    · intro hdone
      have hdone : loop.insn + 1 = body.length := by rw [← h.nbInsns]; simpa using hdone
      exact ⟨by rw [hdone, innerTodo_end], hlast, hdone⟩
    · intro hdone
      have hdone : loop.insn + 1 ≠ body.length := by rw [← h.nbInsns]; simpa using hdone
      refine ⟨{ h with insn_lt := ?_, rpt_lt := succ_pos _ }, ?_, ?_, ?_⟩
      · show loop.insn + 1 < body.length
        omega
      · rw [loopTodo, if_pos hin]
        rfl
      · rw [if_pos hlast, lastDone, if_pos hin]
      · exact le_max_right _ _
  · have hreps : loop.rpt.toNat + 1 ≠ frep.reps := fun heq => hrpt ((h.next_iff hw).2 heq)
    have hlast : ¬loop.rpt = loop.nbRpt - 1 := fun heq => hreps ((h.last_iff hw).1 heq)
    have hsucc := h.toNat_rpt_succ hw
    simp only [hrpt, if_false] at hnext
    cases hnext
    refine ⟨fun hdone => ?_, fun _ => ⟨?_, ?_, ?_, ?_⟩⟩
    · have hdone : loop.insn = loop.nbInsns := by simpa using hdone
      rw [h.nbInsns] at hdone
      omega
    · refine { h with insn_lt := hinsn, rpt_lt := ?_ }
      show (loop.rpt + 1).toNat < frep.reps
      omega
    · rw [loopTodo, if_pos hin, hsucc]
    · rw [if_neg hlast, lastDone, lastDone, if_pos hin, if_pos hin]
    · rw [firstDone, if_neg, if_pos hin]
      · exact le_max_right _ _
      · intro hzero
        rw [show loop.rpt + 1 = 0 from hzero] at hsucc
        cases hsucc

theorem LoopOk.next_outer (hin : ¬loop.inner = true) (hnext : loopNext loop = (loop', done)) :
    LoopTakes frep body b loop loop' done := by
  have hlt := h.rpt_lt
  have hinsn := h.insn_lt
  have hsucc := h.toNat_rpt_succ hw
  have hlen := h.nbInsns
  refine ⟨_, by rw [loopTodo, if_neg hin, outerTodo_next hb], ?_⟩
  rw [loopNext, if_neg hin] at hnext
  by_cases hend : loop.insn + 1 = loop.nbInsns
  · -- the last instruction of this repetition
    simp only [hend, if_true] at hnext
    cases hnext
    rw [hend, hlen]
    constructor
    · intro hdone
      have hdone : loop.rpt + 1 = loop.nbRpt := by simpa using hdone
      have hreps := (h.next_iff hw).1 hdone
      exact ⟨outerTodo_end hreps, (h.last_iff hw).2 hreps, rfl⟩
    · intro hdone
      have hdone : ¬loop.rpt + 1 = loop.nbRpt := by simpa using hdone
      have hreps : loop.rpt.toNat + 1 ≠ frep.reps := fun heq => hdone ((h.next_iff hw).2 heq)
      have hlast : ¬loop.rpt = loop.nbRpt - 1 := fun heq => hreps ((h.last_iff hw).1 heq)
      refine ⟨{ h with nbInsns := rfl, insn_lt := ?_, rpt_lt := ?_ }, ?_, ?_, ?_⟩
      · show 0 < body.length
        omega
      · show (loop.rpt + 1).toNat < frep.reps
        omega
      · rw [loopTodo, if_neg hin, outerTodo_wrap (by omega), hsucc]
      · rw [if_neg hlast, lastDone, lastDone, if_neg hin, if_neg hin, if_neg hlast, ite_self]
      · rw [firstDone, if_neg, if_neg hin]
        · rw [hend, hlen]
          exact le_max_right _ _
        · intro hzero
          rw [show loop.rpt + 1 = 0 from hzero] at hsucc
          cases hsucc
  · simp only [hend, if_false] at hnext
    cases hnext
    refine ⟨fun hdone => ?_, fun _ => ⟨?_, ?_, ?_, ?_⟩⟩
    · have hdone : loop.rpt = loop.nbRpt := by simpa using hdone
      rw [← toNat_inj, h.toNat_nbRpt hw] at hdone
      omega
    · refine { h with nbInsns := hlen, insn_lt := ?_, rpt_lt := hlt }
      show loop.insn + 1 < body.length
      omega
    · rw [loopTodo, if_neg hin]
    · rw [lastDone, lastDone, if_neg hin, if_neg hin]
      split <;> rfl
    · rw [firstDone, firstDone, if_neg hin]
      split
      · exact le_max_right _ _
      · exact Nat.le_max_left _ _

theorem LoopOk.next (hnext : loopNext loop = (loop', done)) :
    LoopTakes frep body b loop loop' done := by
  by_cases hin : loop.inner = true
  · exact h.next_inner hw hb hin hnext
  · exact h.next_outer hw hb hin hnext

end Loop

end GvsocPulp.Snitchv2
