import GvsocPulp.Cv32e40p.Cosim

/-!
# Interrupts and debug entry of the CV32E40P

The decisions of the interrupt slot in the wire-driven mode: `check` before each fetch, `dispatchDecide` at the dispatch
of the decoded instruction, and what the instructions and the wires do to their state.

- `dispatchCheck`: the decision in DECODE, for a debug entry or an interrupt;
- `haltreqSync`, `dretStepCheck`, `ebreakDebugEntry`: the halt request wire, the single-step window and the ebreaks;
- `step`: the order in which an in-order core calls them. Where an instruction goes, and the CSRs it writes, are left to
  the event.
-/

namespace GvsocPulp.Cv32e40p

/-- The CSRs that the decisions read or write. -/
structure Csrs where
  mie : Word := 0
  mip : Word := 0
  mtvec : Word := 0
  mepc : Word := 0
  mcause : Word := 0
  mstatusMie : Bool := false
  mstatusMpie : Bool := false
  dcsr : Word := 0
  depc : Word := 0
  tdata1 : Word := 0
  tdata2 : Word := 0
  deriving DecidableEq, Repr

/-- A decoded instruction. -/
structure IdInsn where
  opcode : Word
  size : Nat
  deriving DecidableEq, Repr

/-- What has happened so far. -/
structure HartLog where
  /-- The identifiers sent on `irq_ack_itf`. -/
  irqAck : List Nat := []
  /-- The debug entries: `dpc` and the cause. -/
  entries : List (Word × Word) := []
  /-- The instructions executed since the single-step window opened: those that have left the PC where it was, and the
  others. -/
  looped : Nat := 0
  stepped : Nat := 0
  deriving DecidableEq, Repr

structure HartConfig where
  debugHandler : Word
  corevCluster : Bool := false
  deriving DecidableEq, Repr

structure Hart extends Csrs, HartLog where
  currentInsn : Word
  debugMode : Bool := false
  reqDebug : Bool := false
  reqDebugCause : Word := 3
  haltreqLevel : Bool := false
  stepState : Bool := false
  stepPc : Word := 0
  decideAtDispatch : Bool := false
  debugWakeup : Bool := false
  wfi : Bool := false
  /-- The core has called `check` for its next fetch. -/
  checked : Bool := false
  /-- The instruction that executes. -/
  dispatched : Option IdInsn := none
  deriving DecidableEq, Repr

/-! ## The interrupts -/

def irqMask : Word := 0xFFFF0888

/-- `cv32e40p_irq_pick`. -/
def irqPick (pending : Word) : Nat :=
  match [31, 30, 29, 28, 27, 26, 25, 24, 23, 22, 21, 20, 19, 18, 17, 16].find? (pending.getLsbD ·) with
  | some id => id
  | none => if pending.getLsbD 11 then 11 else if pending.getLsbD 3 then 3 else 7

def isEbreak (insn : IdInsn) : Bool :=
  if insn.size = 2 then insn.opcode &&& 0xFFFF = 0x9002 else insn.opcode = 0x00100073

def isDret (insn : IdInsn) : Bool := insn.size = 4 && insn.opcode = 0x7B200073

def isWfi (insn : IdInsn) : Bool := insn.size = 4 && insn.opcode = 0x10500073

namespace Csrs

variable (c : Csrs)

def ebreakMModeEntersDebug : Bool := c.dcsr.getLsbD 15

def stepie : Bool := c.dcsr.getLsbD 11

def dcsrStep : Bool := c.dcsr.getLsbD 2

/-- The pending and wired interrupts that are enabled in `mie`. -/
def pending : Word := c.mie &&& c.mip &&& irqMask

def irqEntry (irq : Nat) : Word :=
  if c.mtvec.getLsbD 0 then (c.mtvec &&& 0xFFFFFF00) + BitVec.ofNat 32 (irq <<< 2) else c.mtvec &&& 0xFFFFFF00

end Csrs

namespace Hart

variable (cfg : HartConfig) (s : Hart)

def debugRequestPending : Bool := s.reqDebug || s.haltreqLevel

def debugStateEnter (cause dpc : Word) : Hart :=
  { s with
    stepState := false
    debugMode := true
    depc := dpc
    dcsr := s.dcsr &&& ~~~((7 : Word) <<< 6) ||| (cause &&& 7) <<< 6
    reqDebugCause := 3
    reqDebug := false
    entries := s.entries ++ [(dpc, cause)] }

def debugEnter : Hart := { s.debugStateEnter s.reqDebugCause s.currentInsn with currentInsn := cfg.debugHandler }

def ebreakEntersDebug (insn : Option IdInsn) : Bool :=
  match insn with
  | none => false
  | some insn => s.ebreakMModeEntersDebug && isEbreak insn

def irqTake (pending : Word) : Hart :=
  { s with
    stepPc := if s.stepState then s.irqEntry (irqPick pending) else s.stepPc
    irqAck := s.irqAck ++ [irqPick pending]
    mepc := s.currentInsn
    mstatusMpie := s.mstatusMie
    mstatusMie := false
    mcause := 0x80000000 ||| BitVec.ofNat 32 (irqPick pending)
    currentInsn := s.irqEntry (irqPick pending) }

/-- `irq_check`, and whether the PC has moved. -/
def irqCheck : Hart × Bool :=
  if s.debugMode then (s, false)
  else if s.stepState && !s.stepie then (s, false)
  else if s.pending = 0 ∨ s.mstatusMie = false then (s, false)
  else (s.irqTake s.pending, true)

def stepCompleted : Bool := s.stepState && s.currentInsn != s.stepPc

/-- The execute-address trigger is at the PC. -/
def triggerAt : Bool := s.tdata1.getLsbD 2 && s.currentInsn == s.tdata2

def triggerMatch : Bool :=
  s.triggerAt && !s.debugMode && (!s.reqDebug || s.reqDebugCause == 3) && !s.stepCompleted

/-- The part of `dispatch_check` that arms a debug request. -/
def armDebug : Hart :=
  if s.triggerMatch then { s with reqDebug := true, reqDebugCause := 2 }
  else if s.stepCompleted && !s.debugMode && !s.reqDebug then { s with reqDebug := true, reqDebugCause := 4 }
  else if s.haltreqLevel && !s.reqDebug && !s.debugMode then { s with reqDebug := true }
  else s

/-- `dispatch_check`, and whether the PC has moved. -/
def dispatchCheck (insn : Option IdInsn) : Hart × Bool :=
  if s.armDebug.reqDebug && !s.armDebug.debugMode then
    if s.armDebug.reqDebugCause == 3 && s.armDebug.ebreakEntersDebug insn then
      (debugEnter cfg { s.armDebug with reqDebugCause := 1 }, true)
    else (debugEnter cfg s.armDebug, true)
  else s.armDebug.irqCheck

/-- `check`, and whether the PC has moved. -/
def check : Hart × Bool :=
  if s.debugRequestPending && !s.debugMode && !s.debugWakeup then ({ s with decideAtDispatch := true }, false)
  else dispatchCheck cfg { s with debugWakeup := false } none

def dispatchDecide (insn : IdInsn) : Hart × Bool :=
  if s.decideAtDispatch then dispatchCheck cfg { s with decideAtDispatch := false } (some insn) else (s, false)

def haltreqSync (value : Bool) : Hart :=
  if value then
    if s.wfi then { s with haltreqLevel := true, reqDebug := true, debugWakeup := true, wfi := false }
    else { s with haltreqLevel := true, reqDebug := true }
  else { s with haltreqLevel := false }

def dretStepCheck : Hart :=
  if s.dcsrStep then { s with stepState := true, stepPc := s.depc, looped := 0, stepped := 0 } else s

/-- An instruction goes to `nextPc`. -/
def goTo (nextPc : Word) : Hart :=
  { s with
    currentInsn := nextPc
    looped := if s.stepState ∧ nextPc = s.stepPc then s.looped + 1 else s.looped
    stepped := if s.stepState ∧ nextPc ≠ s.stepPc then s.stepped + 1 else s.stepped }

/-- The CSRs after an instruction: outside debug mode it does not write those of the debug unit. -/
def writeCsrs (csrs : Csrs) : Csrs :=
  if s.debugMode then { csrs with mip := s.mip }
  else { csrs with mip := s.mip, dcsr := s.dcsr, depc := s.depc, tdata1 := s.tdata1, tdata2 := s.tdata2 }

/-- An instruction executes, or enters its exception. -/
def execute (insn : IdInsn) (nextPc : Word) (csrs : Csrs) : Hart :=
  if isEbreak insn ∧ s.debugMode then { s with currentInsn := cfg.debugHandler }
  else if isEbreak insn ∧ s.ebreakMModeEntersDebug then
    { s.debugStateEnter 1 s.currentInsn with currentInsn := cfg.debugHandler }
  else if isDret insn ∧ s.debugMode then { s.dretStepCheck with debugMode := false, currentInsn := s.depc }
  else if isWfi insn then
    { s.goTo nextPc with wfi := !cfg.corevCluster && !s.debugRequestPending && !s.debugMode && !s.dcsrStep }
  else { s.goTo nextPc with toCsrs := s.writeCsrs csrs }

end Hart

inductive HartEvent
  | haltreq (value : Bool)
  | irqs (mip : Word)
  /-- An interrupt wakes the core up from a WFI. -/
  | wake
  | check
  | dispatch (insn : IdInsn)
  /-- The instruction stalls, and is dispatched again. -/
  | stall
  | execute (nextPc : Word) (csrs : Csrs)
  deriving DecidableEq, Repr

namespace Hart

def step (cfg : HartConfig) (s : Hart) : HartEvent → Option Hart
  | .haltreq value => some (s.haltreqSync value)
  | .irqs mip => some { s with mip := mip }
  | .wake => if s.wfi then some { s with wfi := false } else none
  | .check =>
    if s.wfi ∨ s.dispatched.isSome then none
    else some { (s.check cfg).1 with checked := !(s.check cfg).2 }
  | .dispatch insn =>
    if s.checked ∧ s.dispatched = none then
      -- where the PC has moved the core fetches again
      if (s.dispatchDecide cfg insn).2 then some { (s.dispatchDecide cfg insn).1 with checked := false }
      else some { (s.dispatchDecide cfg insn).1 with dispatched := some insn }
    else none
  | .stall => if s.dispatched.isSome then some { s with dispatched := none } else none
  | .execute nextPc csrs =>
    match s.dispatched with
    | some insn => some { s.execute cfg insn nextPc csrs with checked := false, dispatched := none }
    | none => none

def reset (csrs : Csrs) (pc : Word) (haltreqLevel : Bool) : Hart :=
  { toCsrs := csrs, currentInsn := pc, haltreqLevel := haltreqLevel }

end Hart

end GvsocPulp.Cv32e40p
