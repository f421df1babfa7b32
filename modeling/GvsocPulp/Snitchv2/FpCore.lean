import GvsocPulp.Snitchv2.FpSsInv

/-!
# The FP registers and the memory accesses

`FpSs` with the values it moves: the FP registers, what the instructions read and write of them, the data of the
accesses, and the integer accesses that wait on the consistency address queue. The handlers of the computations are a
parameter. The program the core offloads, executed one instruction after the other, is `seqRegs`, `seqReads` and
`seqAccesses`.
-/

namespace GvsocPulp.Snitchv2

open Function

variable {w : Nat} {V : Type}

/-! ## Instructions and values -/

/-- What the handler of an instruction writes, from the FP operands that it reads. -/
abbrev FpHandler (w : Nat) (V : Type) := FpInsn w → List V → V

/-- The FP operands that an instruction reads. -/
def freadArgs (args : List InsnArg) : List InsnArg := args.filter fun arg => arg.freg && arg.type = .inReg

/-- Their values. -/
def operands (regs : Fin 32 → V) (args : List InsnArg) : List V := (freadArgs args).map fun arg => regs arg.lid

/-- `set_freg` for the FP destinations of an instruction. -/
def writeResult (args : List InsnArg) (value : V) (regs : Fin 32 → V) : Fin 32 → V :=
  args.foldl (fun regs arg => if arg.type = .outReg && arg.freg then update regs arg.lid value else regs) regs

/-- The register a store reads, `REG_IN(1)`. -/
def storeReg (args : List InsnArg) : Fin 32 :=
  ((args.find? fun arg => arg.type = .inReg && arg.id = 1).map InsnArg.lid).getD 0

/-- A request to the memory. -/
structure FpAccess (w : Nat) (V : Type) where
  isRead : Bool
  addr : BitVec w
  /-- What a store writes. -/
  data : Option V
  deriving DecidableEq

/-- The request that `load` or `store` makes. -/
def fpAccess (regs : Fin 32 → V) (insn : FpInsn w) (args : List InsnArg) : FpAccess w V where
  isRead := insn.kind = .load
  addr := insn.intValue
  data := if insn.kind = .load then none else some (regs (storeReg args))

/-- The decoder finds the FP register of a load or store among its operands. -/
def FpInsn.Decoded (insn : FpInsn w) : Prop :=
  (insn.kind = .load → ∃ arg ∈ insn.args, arg.freg = true ∧ arg.type = .outReg ∧ arg.lid = FpSs.outReg insn.args) ∧
    (insn.kind = .store → ∃ arg ∈ insn.args, arg.freg = true ∧ arg.type = .inReg ∧ arg.lid = storeReg insn.args)

/-! ## The sequential program -/

section Sequential

variable (handler : FpHandler w V) (data : Nat → V)

/-- An instruction on its own; the memory answers to the load of a held instruction with its `data`. -/
def seqStep (regs : Fin 32 → V) (x : FpInsn w × List InsnArg) : Fin 32 → V :=
  match x.1.kind with
  | .load => update regs (FpSs.outReg x.2) (data x.1.entry)
  | .store => regs
  | _ => writeResult x.2 (handler x.1 (operands regs x.2)) regs

/-- The FP registers after the instructions. -/
def seqRegs (regs : Fin 32 → V) (log : List (FpInsn w × List InsnArg)) : Fin 32 → V :=
  log.foldl (seqStep handler data) regs

/-- The FP operands that the instructions read, each after those before it. -/
def seqReads : (Fin 32 → V) → List (FpInsn w × List InsnArg) → List (List V)
  | _, [] => []
  | regs, x :: log => operands regs x.2 :: seqReads (seqStep handler data regs x) log

/-- The requests that the loads and stores make. -/
def seqAccesses : (Fin 32 → V) → List (FpInsn w × List InsnArg) → List (FpAccess w V)
  | _, [] => []
  | regs, x :: log =>
    (if x.1.kind.isMem then [fpAccess regs x.1 x.2] else []) ++ seqAccesses (seqStep handler data regs x) log

end Sequential

/-! ## What is executed -/

namespace FpSs

variable (cfg : FpConfig) (s : FpSs w) (env : FpEnv)

/-- The entry that `issue_entry(index, offset, _)` executes, with its operands. -/
def entryAt (mask index offset : Nat) : Option (FpSsEntry w × List InsnArg) :=
  match s.queue[index]? with
  | none => none
  | some entry =>
    if entry.readyCycle > s.cycle then none
    else if s.checkOperands cfg env entry.insn (entryArgs mask entry offset).2 then some (entryArgs mask entry offset)
    else none

/-- The entry that the turn of a loop executes, and whether it is its last execution. -/
def loopEntry (loop : FrepLoop) : Option (FpSsEntry w × List InsnArg × Bool) :=
  (s.entryAt cfg env loop.staggerMask loop.insn (stagger loop)).map fun x => (x.1, x.2, loop.rpt = loop.nbRpt - 1)

def issuing : Option (FpSsEntry w × List InsnArg × Bool) :=
  match s.loop with
  | some loop => s.loopEntry cfg env loop
  | none =>
    match s.queue with
    | [] => none
    | head :: queue =>
      if head.readyCycle > s.cycle then none
      else if head.insn.kind.isFrep then { s with queue := queue }.loopEntry cfg env (loopStart head.insn)
      else (s.entryAt cfg env 0 0 0).map fun x => (x.1, x.2, true)

end FpSs

/-! ## The state -/

/-- The FP subsystem with the FP registers and the data of the accesses; in the log, the executed instructions, the
operands that they read, the requests that the memory has accepted and what it answered to the loads of held
instructions. -/
structure FpCore (w : Nat) (V : Type) where
  ss : FpSs w
  regs : Fin 32 → V
  /-- The request of `lsu_denied`. -/
  denied : Option (FpAccess w V)
  /-- The data of the requests in `lsu_sync_reqs`. -/
  syncData : List V
  log : List (FpInsn w × List InsnArg)
  reads : List (List V)
  sent : List (FpAccess w V)
  loaded : Nat → Option V

namespace FpCore

variable (cfg : FpConfig) (handler : FpHandler w V) (c : FpCore w V)

def init (regs : Fin 32 → V) (prog : List (FpInsn w)) : FpCore w V where
  ss := .init cfg prog
  regs := regs
  denied := none
  syncData := []
  log := []
  reads := []
  sent := []
  loaded := fun _ => none

/-- The memory has answered an access of a held instruction. -/
def answer (entry : Option Nat) (isRead : Bool) (value : V) : FpCore w V :=
  match entry with
  | some entry => if isRead then { c with loaded := update c.loaded entry (some value) } else c
  | none => c

/-- `lsu_send(req)`: the data of a request that is answered at once is `value`. -/
def send (entry : Option Nat) (access : FpAccess w V) (status : LsuStatus) (value : V) : FpCore w V :=
  match status with
  | .done _ => { c.answer entry access.isRead value with
      sent := c.sent ++ [access]
      syncData := c.syncData ++ [value] }
  | .granted => { c with sent := c.sent ++ [access] }
  | .denied => { c with denied := some access }

/-- `lsu_end(req)`: a load writes its register. -/
def writeBack (regs : Fin 32 → V) (x : FpLsuReq w × V) : Fin 32 → V :=
  if x.1.isRead then update regs x.1.reg x.2 else regs

/-- The requests in `lsu_sync_reqs` with their data. -/
def syncReqs : List (FpLsuReq w × V) := c.ss.lsu.syncReqs.zip c.syncData

/-- The loop over `lsu_sync_reqs`. -/
def endLsuSync : FpCore w V :=
  { c with
    ss := c.ss.endLsuSync cfg
    regs := (c.syncReqs.filter fun x => x.1.timestamp ≤ c.ss.cycle).foldl writeBack c.regs
    syncData := (c.syncReqs.filter fun x => ¬x.1.timestamp ≤ c.ss.cycle).map (·.2) }

/-- The handler of the instruction that is issued. -/
def execute (entry : FpSsEntry w) (args : List InsnArg) (last : Bool) (status : LsuStatus) (value : V) : FpCore w V :=
  let c := { c with log := c.log ++ [(entry.insn, args)], reads := c.reads ++ [operands c.regs args] }
  if entry.insn.kind.isMem then
    c.send (FpSs.lsuReq entry args last).entry (fpAccess c.regs entry.insn args) status value
  else { c with regs := writeResult args (handler entry.insn (operands c.regs args)) c.regs }

def issue (env : FpEnv) (value : V) : FpCore w V :=
  match c.ss.issuing cfg env with
  | none => { c with ss := (c.ss.issue cfg env).1 }
  | some (entry, args, last) => { c.execute handler entry args last env.status value with ss := (c.ss.issue cfg env).1 }

def fsmHandler (env : FpEnv) (value : V) : FpCore w V :=
  let c := ({ c with ss := c.ss.endCompletions }.endLsuSync cfg).issue cfg handler env value
  { c with ss := c.ss.checkIdle }

def lsuRetry (status : LsuStatus) (value : V) : FpCore w V :=
  match c.ss.lsu.denied, c.denied with
  | some req, some access =>
    { { c with denied := none }.send req.entry access status value with ss := c.ss.lsuRetry cfg status }
  | _, _ => c

/-- `lsu_response` for the `k`-th access that the memory has accepted, with its data. -/
def lsuResponse (k : Nat) (value : V) : Option (FpCore w V) :=
  (c.ss.lsu.inFlight[k]?).bind fun req => (c.ss.lsuResponse cfg k).map fun ss =>
    { c.answer req.entry req.isRead value with ss := ss, regs := writeBack c.regs (req, value) }

end FpCore

/-- What happens to the subsystem, with the data that the memory brings. -/
inductive FpCoreEvent (V : Type)
  | cycle
  | offload
  | fsmHandler (env : FpEnv) (value : V)
  | lsuRetry (status : LsuStatus) (value : V)
  | lsuResponse (k : Nat) (value : V)

/-- The SSRs are disabled. -/
def FpCoreEvent.NoSsr : FpCoreEvent V → Prop
  | .fsmHandler env _ => env.ssrEnabled = false
  | _ => True

instance (event : FpCoreEvent V) : Decidable event.NoSsr :=
  match event with
  | .fsmHandler env _ => inferInstanceAs (Decidable (env.ssrEnabled = false))
  | .cycle | .offload | .lsuRetry .. | .lsuResponse .. => isTrue trivial

def fpCoreStep (cfg : FpConfig) (handler : FpHandler w V) (c : FpCore w V) : FpCoreEvent V → Option (FpCore w V)
  | .cycle => some { c with ss := { c.ss with cycle := c.ss.cycle + 1 } }
  | .offload => (c.ss.offload cfg).map fun ss => { c with ss := ss }
  | .fsmHandler env value => if c.ss.fsmEvent then some (c.fsmHandler cfg handler env value) else none
  | .lsuRetry status value => some (c.lsuRetry cfg status value)
  | .lsuResponse k value => c.lsuResponse cfg k value

/-! ## Integer accesses -/

/-- An operand of an integer access: `ISS_DECODER_ARG_TYPE_INDIRECT_IMM`, or another one. -/
inductive IntArg (w : Nat)
  | indirectImm (reg : Nat) (imm : BitVec w)
  | other

/-- An integer load, store or atomic, with the register of its first operand. -/
structure IntAccess (w : Nat) where
  args : List (IntArg w)
  rs1 : Nat

/-- The address of an integer access; that of an atomic is in `rs1`. -/
def IntAccess.addr (regs : Nat → BitVec w) (insn : IntAccess w) : BitVec w :=
  (insn.args.findSome? fun
    | .indirectImm reg imm => some (regs reg + imm)
    | .other => none).getD (regs insn.rs1)

/-- `caq_stub`: whether an integer access goes on to its handler. -/
def FpSs.caqStub (s : FpSs w) (regs : Nat → BitVec w) (insn : IntAccess w) : Bool :=
  if !s.caq.isEmpty then
    let addr := wordAddr (insn.addr regs)
    !s.caq.any fun caqAddr => caqAddr = addr
  else true

/-! ## The claim on a state -/

/-- No FP access is in the body of an FREP. -/
def Block.NoAccess : Block w → Prop
  | .single _ => True
  | .frep _ body => ∀ b ∈ body, b.kind.isMem = false

def FpSs.offloaded (s : FpSs w) (prog : List (Block w)) : List (FpInsn w) :=
  (program prog).take ((program prog).length - s.rest.length)

def FpSs.outstanding (s : FpSs w) (prog : List (Block w)) : List (FpInsn w) :=
  (s.offloaded prog).filter fun insn => insn.kind.isMem && !s.terminated.contains insn.entry

/-- Data for the loads that agrees with what the memory has answered. -/
def FpCore.Answers (c : FpCore w V) (data : Nat → V) : Prop := ∀ entry v, c.loaded entry = some v → data entry = v

/-- The subsystem does what the sequential program does, whatever the loads not answered yet will bring. -/
structure FpSequential (cfg : FpConfig) (handler : FpHandler w V) (regs : Fin 32 → V) (prog : List (Block w))
    (c : FpCore w V) : Prop where
  order : (c.log.map fun x => (x.1.entry, x.2)) <+: unroll prog
  insns : ∀ x ∈ c.log, x.1 ∈ program prog
  reads : ∀ data, c.Answers data → c.reads = seqReads handler data regs c.log
  accesses : ∀ data, c.Answers data → c.sent ++ c.denied.toList = seqAccesses handler data regs c.log
  regs : c.ss.lsu.reqs = [] → ∀ data, c.Answers data → c.regs = seqRegs handler data regs c.log
  caqStub : ∀ intRegs (insn : IntAccess w), c.ss.caqStub intRegs insn = true →
    ∀ x ∈ c.ss.outstanding prog, FpSs.wordAddr x.intValue ≠ FpSs.wordAddr (insn.addr intRegs)
  caq : c.ss.caq.Perm ((c.ss.outstanding prog).map fun x => FpSs.wordAddr x.intValue)
  caq_le : c.ss.caq.length ≤ cfg.caqDepth
  lsu : c.ss.lsu.free + c.ss.lsu.denied.toList.length + c.ss.lsu.syncReqs.length + c.ss.lsu.inFlight.length =
    cfg.lsuNbOutstanding

end GvsocPulp.Snitchv2
