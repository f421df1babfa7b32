import Mathlib

/-!
# `SnitchFpSs`: the FP subsystem

The offload queue, the FREP sequencer, the scoreboard and the FP load / store unit, as a step function over clock
cycles, offloads, calls of `fsm_handler` and the calls of the memory. `iss_reg_t` has `w` bits. What the handlers
compute and the instruction trace are left out: an execution is the held instruction with the operands it is executed
with.
-/

namespace GvsocPulp.Snitchv2

open Function

/-! ## Instructions -/

inductive FpSsKind
  | compute
  | load
  | store
  | toInt
  | fromInt
  | frepO
  | frepI
  deriving DecidableEq

namespace FpSsKind

def isFrep : FpSsKind → Bool
  | frepO | frepI => true
  | _ => false

/-- Whether it bypasses the sequencer. -/
def isBypass : FpSsKind → Bool
  | toInt | fromInt => true
  | _ => false

def isMem : FpSsKind → Bool
  | load | store => true
  | _ => false

end FpSsKind

/-- `ISS_DECODER_ARG_TYPE_*`. -/
inductive ArgType
  | outReg
  | inReg
  | other
  deriving DecidableEq

/-- A register operand of an instruction with what the decoder says about it: for an FP register `lid`, the index less
`ISS_NB_REGS`. -/
structure InsnArg where
  type : ArgType
  freg : Bool
  id : Nat
  lid : Fin 32
  deriving DecidableEq

/-- An instruction that the core offloads, with the integer operand that is captured then. -/
structure FpInsn (w : Nat) where
  /-- The held instruction, `InsnEntry`. -/
  entry : Nat
  kind : FpSsKind
  args : List InsnArg
  uim0 : Nat := 0
  uim1 : Nat := 0
  uim2 : Nat := 0
  /-- `resource_latency` and `resource_bandwidth`. -/
  latency : Int
  divsqrt : Bool := false
  intValue : BitVec w

/-- The bit of the stagger mask for an operand: rd, rs1, rs2, rs3. -/
def maskBit (arg : InsnArg) : Option Nat :=
  if arg.freg then
    match arg.type with
    | .outReg => if arg.id = 0 then some 0 else none
    | .inReg => if arg.id < 3 then some (arg.id + 1) else none
    | .other => none
  else none

scoped instance neZero_regs : NeZero 32 := ⟨by decide⟩

/-- The operands with the masked FP registers shifted. -/
def staggerArgs (mask offset : Nat) (args : List InsnArg) : List InsnArg :=
  args.map fun arg =>
    match maskBit arg with
    | some bit => if mask.testBit bit then { arg with lid := arg.lid + Fin.ofNat 32 offset } else arg
    | none => arg

/-! ## The state -/

/-- `CONFIG_GVSOC_ISS_SNITCH_*`. -/
structure FpConfig where
  seqBufferSize : Nat
  frepConfigSize : Nat
  offloadLatency : Nat
  resultLatency : Nat
  respLatency : Nat
  lsuNbOutstanding : Nat
  caqDepth : Nat
  nbSsrs : Nat
  frepConfigSize_pos : 0 < frepConfigSize
  lsuNbOutstanding_pos : 0 < lsuNbOutstanding
  caqDepth_pos : 0 < caqDepth

structure FpSsEntry (w : Nat) where
  insn : FpInsn w
  readyCycle : Int
  staggerInsns : List (Option (List InsnArg)) := []
  caqPending : Bool

structure FrepLoop where
  inner : Bool
  nbInsns : Nat
  nbRpt : BitVec 64
  staggerMax : Nat
  staggerMask : Nat
  insn : Nat := 0
  rpt : BitVec 64 := 0

structure FpLsuReq (w : Nat) where
  isRead : Bool
  reg : Fin 32
  entry : Option Nat
  caqAddr : BitVec w
  caqRelease : Bool
  timestamp : Int := 0

/-- The requests of the FP LSU: how many are free, the others by the state of their access. -/
structure FpLsu (w : Nat) where
  free : Nat
  denied : Option (FpLsuReq w)
  syncReqs : List (FpLsuReq w)
  /-- Accepted by the memory and not answered yet. -/
  inFlight : List (FpLsuReq w)

/-- The state, with the instructions that the core has not offloaded yet, the executions and the terminated
instructions. -/
structure FpSs (w : Nat) where
  rest : List (FpInsn w)
  queue : List (FpSsEntry w)
  nbInsns : Int
  nbFreps : Int
  pendingBypass : Bool
  nbInflight : Int
  /-- `fp_ready`, `none` for `INT64_MAX`. -/
  fpReady : Fin 32 → Option Int
  divsqrtReady : Int
  /-- `none` when `loop_active` is false. -/
  loop : Option FrepLoop
  completions : List (Int × Nat)
  lsu : FpLsu w
  caq : List (BitVec w)
  fsmEvent : Bool
  cycle : Int
  executed : List (Nat × List InsnArg)
  terminated : List Nat

/-- What the memory answers to a load or store. -/
inductive LsuStatus
  | done (latency : Nat)
  | granted
  | denied

/-- What a call of `fsm_handler` finds around it: the SSRs, and the memory for the access that it may make. -/
structure FpEnv where
  ssrEnabled : Bool
  canRead : Fin 32 → Bool
  canWrite : Fin 32 → Bool
  status : LsuStatus

namespace FpSs

variable {w : Nat} (cfg : FpConfig)

/-- `reset(true)`, before the core offloads instructions. -/
def init (prog : List (FpInsn w)) : FpSs w where
  rest := prog
  queue := []
  nbInsns := 0
  nbFreps := 0
  pendingBypass := false
  nbInflight := 0
  fpReady := fun _ => some 0
  divsqrtReady := 0
  loop := none
  completions := []
  lsu := ⟨cfg.lsuNbOutstanding, none, [], []⟩
  caq := []
  fsmEvent := false
  cycle := 0
  executed := []
  terminated := []

variable (s : FpSs w)

/-! ## Offload -/

def canOffload (kind : FpSsKind) : Bool :=
  if s.pendingBypass then false
  else if kind.isFrep then s.nbFreps < cfg.frepConfigSize
  else if kind.isMem && s.caq.length ≥ cfg.caqDepth then false
  else s.nbInsns < cfg.seqBufferSize + 1

def wordAddr (addr : BitVec w) : BitVec w := addr &&& ~~~7

/-- `offload_stub`, for the next instruction of the core; `none` where the core stalls. -/
def offload : Option (FpSs w) :=
  match s.rest with
  | [] => none
  | insn :: rest =>
    if s.canOffload cfg insn.kind then
      some { s with
        rest := rest
        queue := s.queue ++ [{ insn := insn, readyCycle := s.cycle + cfg.offloadLatency, caqPending :=
          insn.kind.isMem }]
        caq := if insn.kind.isMem then s.caq ++ [wordAddr insn.intValue] else s.caq
        nbInflight := s.nbInflight + 1
        nbFreps := if insn.kind.isFrep then s.nbFreps + 1 else s.nbFreps
        nbInsns := if insn.kind.isFrep then s.nbInsns else s.nbInsns + 1
        pendingBypass := s.pendingBypass || insn.kind.isBypass
        fsmEvent := true }
    else none

/-! ## Loads and stores -/

/-- `lsu_send(req)`, with what the memory answers. -/
def lsuSend (req : FpLsuReq w) : LsuStatus → FpSs w
  | .done latency =>
    let req := { req with timestamp := s.cycle + latency }
    { s with
      lsu := { s.lsu with syncReqs := s.lsu.syncReqs ++ [req] }
      fsmEvent := true
      fpReady := if req.isRead then update s.fpReady req.reg (some (req.timestamp + cfg.resultLatency))
        else s.fpReady }
  | .granted => { s with lsu := { s.lsu with inFlight := s.lsu.inFlight ++ [req] } }
  | .denied => { s with lsu := { s.lsu with denied := some req } }

/-- The register a load writes, `REG_OUT(0)`. -/
def outReg (args : List InsnArg) : Fin 32 :=
  ((args.find? fun arg => arg.type = .outReg && arg.id = 0).map InsnArg.lid).getD 0

def lsuReq (entry : FpSsEntry w) (args : List InsnArg) (last : Bool) : FpLsuReq w where
  isRead := entry.insn.kind = .load
  reg := outReg args
  entry := if last then some entry.insn.entry else none
  caqAddr := wordAddr entry.insn.intValue
  caqRelease := entry.caqPending

/-- The handlers of the FP loads and stores, `load` and `store`. -/
def lsuAccess (req : FpLsuReq w) (status : LsuStatus) : FpSs w :=
  lsuSend cfg { s with
    lsu := { s.lsu with free := s.lsu.free - 1 }
    fpReady := if req.isRead then update s.fpReady req.reg none else s.fpReady } req status

def lsuEnd (req : FpLsuReq w) : FpSs w :=
  let ready := s.cycle + cfg.resultLatency
  { s with
    fpReady :=
      if req.isRead && (s.fpReady req.reg).all (· < ready) then update s.fpReady req.reg (some ready)
      else s.fpReady
    caq := if req.caqRelease then s.caq.erase req.caqAddr else s.caq
    nbInflight := if req.entry.isSome then s.nbInflight - 1 else s.nbInflight
    terminated := s.terminated ++ req.entry.toList
    lsu := { s.lsu with free := s.lsu.free + 1 } }

/-! ## Issue -/

def completeAt (entry : Nat) (cycle : Int) : FpSs w := { s with completions := s.completions ++ [(cycle, entry)] }

def loopStart (insn : FpInsn w) : FrepLoop where
  inner := insn.kind = .frepI
  nbInsns := insn.uim2 + 1
  nbRpt := insn.intValue.setWidth 64 + 1
  staggerMax := insn.uim1
  staggerMask := insn.uim0

def popEntry : FpSs w :=
  { s with
    pendingBypass := s.pendingBypass && !s.queue.head?.any (·.insn.kind.isBypass)
    queue := s.queue.tail
    nbInsns := s.nbInsns - 1 }

/-- `get_stagger_insn(entry, insn, offset)` for an offset other than 0: the operands of the copy, made when it is first
needed. -/
def getStaggerInsn (mask : Nat) (entry : FpSsEntry w) (offset : Nat) : FpSsEntry w × List InsnArg :=
  let copies := entry.staggerInsns ++ List.replicate (offset - entry.staggerInsns.length) none
  match copies[offset - 1]? with
  | some (some copy) => ({ entry with staggerInsns := copies }, copy)
  | _ =>
    let copy := staggerArgs mask offset entry.insn.args
    ({ entry with staggerInsns := copies.set (offset - 1) (some copy) }, copy)

/-- The entry with the operands it is issued with at an offset. -/
def entryArgs (mask : Nat) (entry : FpSsEntry w) (offset : Nat) : FpSsEntry w × List InsnArg :=
  if offset ≠ 0 then getStaggerInsn mask entry offset else (entry, entry.insn.args)

variable (env : FpEnv)

/-- Whether an operand is that of an SSR; the destination of a load is not. -/
def isSsr (kind : FpSsKind) (arg : InsnArg) : Bool :=
  env.ssrEnabled && arg.lid < cfg.nbSsrs && !(kind = .load && arg.type = .outReg)

def argReady (kind : FpSsKind) (arg : InsnArg) : Bool :=
  if !arg.freg || arg.type = .other then true
  else if isSsr cfg env kind arg then if arg.type = .inReg then env.canRead arg.lid else env.canWrite arg.lid
  else (s.fpReady arg.lid).any (· ≤ s.cycle)

def checkOperands (insn : FpInsn w) (args : List InsnArg) : Bool :=
  args.all (s.argReady cfg env insn.kind) &&
    !(insn.kind.isMem && (s.lsu.free = 0 || s.lsu.denied.isSome)) &&
    !(insn.divsqrt && s.divsqrtReady > s.cycle)

/-- The result timing for an operand of an instruction that is done at a cycle. -/
def setResult (done : Int) (fpReady : Fin 32 → Option Int) (arg : InsnArg) : Fin 32 → Option Int :=
  if arg.type = .outReg && arg.freg && (!env.ssrEnabled || arg.lid ≥ cfg.nbSsrs) then
    update fpReady arg.lid (some (done + cfg.resultLatency))
  else fpReady

/-- The result timing; that of a load comes from its access. -/
def setResults (kind : FpSsKind) (args : List InsnArg) (done : Int) : FpSs w :=
  if kind = .load then s else { s with fpReady := args.foldl (setResult cfg env done) s.fpReady }

/-- The last execution of an instruction: when it is terminated; the loads and stores by the LSU. -/
def complete (insn : FpInsn w) (done : Int) : FpSs w :=
  match insn.kind with
  | .load | .store => s
  | .toInt => s.completeAt insn.entry (done + cfg.respLatency)
  | _ => s.completeAt insn.entry done

/-- The execution of an instruction whose operands are ready. -/
def execute (index : Nat) (entry : FpSsEntry w) (args : List InsnArg) (last : Bool) : FpSs w :=
  let done := s.cycle + entry.insn.latency
  let s := { s with
    queue := s.queue.set index { entry with caqPending := false }
    executed := s.executed ++ [(entry.insn.entry, args)] }
  let s := if entry.insn.kind.isMem then s.lsuAccess cfg (lsuReq entry args last) env.status else s
  let s := s.setResults cfg env entry.insn.kind args done
  let s := { s with divsqrtReady := if entry.insn.divsqrt then done else s.divsqrtReady }
  if last then s.complete cfg entry.insn done else s

def issueEntry (mask index offset : Nat) (last : Bool) : FpSs w × Bool :=
  match s.queue[index]? with
  | none => (s, false)
  | some entry =>
    if entry.readyCycle > s.cycle then (s, false)
    else
      let (entry, args) := entryArgs mask entry offset
      let s := { s with queue := s.queue.set index entry }
      if s.checkOperands cfg env entry.insn args then (s.execute cfg env index entry args last, true) else (s, false)

/-- The stagger offset of the current repetition. -/
def stagger (loop : FrepLoop) : Nat :=
  if loop.staggerMax ≠ 0 then loop.rpt.toNat % (loop.staggerMax + 1) else 0

/-- The loop after an execution, and whether it is done. -/
def loopNext (loop : FrepLoop) : FrepLoop × Bool :=
  if loop.inner then
    let rpt := loop.rpt + 1
    let loop := if rpt = loop.nbRpt then { loop with rpt := 0, insn := loop.insn + 1 } else { loop with rpt := rpt }
    (loop, loop.insn = loop.nbInsns)
  else
    let insn := loop.insn + 1
    let loop := if insn = loop.nbInsns then { loop with insn := 0, rpt := loop.rpt + 1 } else { loop with insn := insn }
    (loop, loop.rpt = loop.nbRpt)

def issueLoop (loop : FrepLoop) : FpSs w × Bool :=
  if loop.insn ≥ s.queue.length then (s, false)
  else
    let last : Bool := loop.rpt = loop.nbRpt - 1
    match s.issueEntry cfg env loop.staggerMask loop.insn (stagger loop) last with
    | (s, false) => (s, false)
    | (s, true) =>
      let (loop, done) := loopNext loop
      if done then ({ popEntry^[loop.nbInsns] s with loop := none }, true) else ({ s with loop := some loop }, true)

/-- `issue()`: at most one execution; a loop starts on the way. -/
def issue : FpSs w × Bool :=
  match s.loop with
  | some loop => s.issueLoop cfg env loop
  | none =>
    match s.queue with
    | [] => (s, false)
    | head :: queue =>
      if head.readyCycle > s.cycle then (s, false)
      else if head.insn.kind.isFrep then
        let loop := loopStart head.insn
        let s := s.completeAt head.insn.entry s.cycle
        { s with loop := some loop, queue := queue, nbFreps := s.nbFreps - 1 }.issueLoop cfg env loop
      else
        match s.issueEntry cfg env 0 0 0 true with
        | (s, false) => (s, false)
        | (s, true) => (s.popEntry, true)

/-! ## The clock event -/

/-- The loop over `completions`. -/
def endCompletions : FpSs w :=
  let done := s.completions.filter (·.1 ≤ s.cycle)
  { s with
    completions := s.completions.filter fun c => ¬c.1 ≤ s.cycle
    nbInflight := s.nbInflight - done.length
    terminated := s.terminated ++ done.map (·.2) }

/-- The loop over `lsu_sync_reqs`. -/
def endLsuSync : FpSs w :=
  (s.lsu.syncReqs.filter fun req => req.timestamp ≤ s.cycle).foldl (lsuEnd cfg)
    { s with lsu := { s.lsu with syncReqs := s.lsu.syncReqs.filter fun req => ¬req.timestamp ≤ s.cycle } }

def checkIdle : FpSs w :=
  if s.queue.isEmpty && s.completions.isEmpty && s.lsu.syncReqs.isEmpty then { s with fsmEvent := false } else s

def fsmHandler : FpSs w := ((s.endCompletions.endLsuSync cfg).issue cfg env).1.checkIdle

def lsuRetry (status : LsuStatus) : FpSs w :=
  match s.lsu.denied with
  | none => s
  | some req => { s with lsu := { s.lsu with denied := none } }.lsuSend cfg req status

/-- `lsu_response` for the `k`-th access that the memory has accepted. -/
def lsuResponse (k : Nat) : Option (FpSs w) :=
  (s.lsu.inFlight[k]?).map fun req =>
    { s with lsu := { s.lsu with inFlight := s.lsu.inFlight.eraseIdx k } }.lsuEnd cfg req

end FpSs

/-! ## Runs -/

/-- What happens to the subsystem. -/
inductive FpEvent
  | cycle
  | offload
  | fsmHandler (env : FpEnv)
  | lsuRetry (status : LsuStatus)
  | lsuResponse (k : Nat)

/-- One event; a stalled offload and a disabled clock event do not take place. -/
def fpStep {w : Nat} (cfg : FpConfig) (s : FpSs w) : FpEvent → Option (FpSs w)
  | .cycle => some { s with cycle := s.cycle + 1 }
  | .offload => s.offload cfg
  | .fsmHandler env => if s.fsmEvent then some (s.fsmHandler cfg env) else none
  | .lsuRetry status => some (s.lsuRetry cfg status)
  | .lsuResponse k => s.lsuResponse cfg k

end GvsocPulp.Snitchv2
