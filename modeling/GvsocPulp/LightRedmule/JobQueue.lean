import GvsocPulp.Lib.ClockEvent

/-!
# The job queue of LightRedmule

The HWPE port of the accelerator, and the states of its FSM as far as they start and retire jobs.

- `acquire`, `commit`, `startNextJob`, `reqV2`: the register accesses;
- `fsmHandler`: the passes of the FSM. What the passes of `PRELOAD`, `ROUTINE` and `STORING` compute is left out: a pass
  may stay or go on, and enqueues the next one;
- `step`: the accesses, without `SOFT_CLEAR` and with configuration writes only between an acquire and its commit, the
  passes of the FSM and the clock. A fatal error ends the run.
-/

namespace GvsocPulp.LightRedmule

open Lib Function

inductive FsmState
  | idle
  | preload
  | routine
  | storing
  | finished
  deriving DecidableEq, Repr

def gemmOpMatmul : BitVec 32 := 0
def gemmOpGemm : BitVec 32 := 1

def jobStartLatency : Nat := 8

/-- `op_foramt_parser`; other formats are fatal. -/
def opForamtParser (opFormat : BitVec 32) : Option (BitVec 32) :=
  let dataFormat := opFormat &&& 0x7
  let operation := (opFormat >>> 3) &&& 0x7
  if operation = 1 ∧ dataFormat = 1 then some 3
  else if operation = 1 ∧ dataFormat = 0 then some 7
  else none

structure Context where
  mSize : BitVec 32 := 0
  nSize : BitVec 32 := 0
  kSize : BitVec 32 := 0
  xAddr : BitVec 32 := 0
  wAddr : BitVec 32 := 0
  zAddr : BitVec 32 := 0
  yOffs : BitVec 32 := 0
  gemmOps : BitVec 32 := gemmOpGemm
  computeAble : BitVec 32 := 0
  deriving DecidableEq, Repr

structure Write where
  offset : Nat
  value : BitVec 32
  deriving DecidableEq, Repr

/-- What a configuration write does to the slot that is being configured. -/
def Context.write (cxt : Context) (w : Write) : Option Context :=
  match w.offset with
  | 0x20 => some { cxt with mSize := w.value &&& 0xFFFF, kSize := w.value >>> 16 }
  | 0x24 =>
    let gemmOps := (w.value >>> 20) &&& 0x7
    let inFmt := (w.value >>> 23) &&& 0x3
    let outFmt := (w.value >>> 25) &&& 0x7
    if gemmOps ≠ gemmOpMatmul ∧ gemmOps ≠ gemmOpGemm then none
    else
      let cxt := { cxt with nSize := w.value &&& 0xFFFF, gemmOps := gemmOps }
      if inFmt = 1 ∧ outFmt = 1 then (opForamtParser 9).map fun able => { cxt with computeAble := able } else some cxt
  | 0x28 => some { cxt with yOffs := w.value }
  | 0x2C => some { cxt with xAddr := w.value }
  | 0x30 => some { cxt with wAddr := w.value }
  | 0x34 => some { cxt with zAddr := w.value }
  | 0x54 => (opForamtParser (if w.value = 0x480 then 9 else 0)).map fun able => { cxt with computeAble := able }
  | _ => some cxt

structure Registers where
  mSize : BitVec 32 := 4
  nSize : BitVec 32 := 4
  kSize : BitVec 32 := 4
  xAddr : BitVec 32 := 0
  wAddr : BitVec 32 := 0
  yAddr : BitVec 32 := 0
  zAddr : BitVec 32 := 0
  yOffs : BitVec 32 := 0
  gemmOps : BitVec 32 := gemmOpGemm
  computeAble : BitVec 32 := 0
  elemSize : Nat := 2
  runningJobId : Int := -1
  deriving DecidableEq, Repr

/-- What `start_next_job` loads from a slot. -/
def Context.registers (cxt : Context) (id : Int) : Registers where
  mSize := cxt.mSize
  nSize := cxt.nSize
  kSize := cxt.kSize
  xAddr := cxt.xAddr
  wAddr := cxt.wAddr
  yAddr := cxt.zAddr + cxt.yOffs
  zAddr := cxt.zAddr
  yOffs := cxt.yOffs
  gemmOps := cxt.gemmOps
  computeAble := cxt.computeAble
  elemSize := if cxt.computeAble < 4 then 2 else 1
  runningJobId := id

/-- A committed job: the writes made for it, and its slot when it was committed. -/
structure Job where
  id : Int
  writes : List Write
  context : Context
  start : Bool
  deriving DecidableEq, Repr

def Job.registers (job : Job) : Registers := job.context.registers job.id

/-- What the queue has done so far. -/
structure History where
  acquired : List Int := []
  writes : List Write := []
  committed : List Job := []
  started : List Registers := []
  finished : Nat := 0
  /-- The number of jobs that had been committed at the last trigger. -/
  triggered : Nat := 0
  doneSyncs : List Bool := []

structure Queue extends History where
  jobIdCounter : BitVec 8 := 0
  jobState : Int := 0
  jobPending : Nat := 0
  cxtCfgPtr : Fin 2 := 0
  cxtUsePtr : Fin 2 := 0
  cxtJobId : Fin 2 → Int := fun _ => -1
  cxt : Fin 2 → Context := fun _ => {}
  completedJobs : BitVec 8 := 0
  regs : Registers := {}
  state : FsmState := .idle
  fsmEvent : Option Nat := none
  cycle : Nat := 0

namespace Queue

variable (s : Queue)

/-- `acquire`, with what it returns. -/
def acquire : Int × Queue :=
  if s.jobState ≠ 0 then (s.jobState, s)
  else if s.jobPending = 2 then (-1, s)
  else
    let id : Int := s.jobIdCounter.toNat
    (id, { s with
      jobIdCounter := s.jobIdCounter + 1
      cxtJobId := update s.cxtJobId s.cxtCfgPtr id
      jobState := -2
      acquired := s.acquired ++ [id] })

def startNextJob : Option Queue :=
  let regs := (s.cxt s.cxtUsePtr).registers (s.cxtJobId s.cxtUsePtr)
  if regs.mSize = 0 ∨ regs.nSize = 0 ∨ regs.kSize = 0 then none
  else some { s with
    regs := regs
    started := s.started ++ [regs]
    state := .preload
    fsmEvent := enqueue s.cycle jobStartLatency s.fsmEvent }

def commit (start : Bool) : Option Queue :=
  -- a trigger without an acquire does not advance the job id counter
  let s := if s.jobState = 0 ∧ s.jobPending < 2 then
      { s with cxtJobId := update s.cxtJobId s.cxtCfgPtr s.jobIdCounter.toNat, jobState := -2 }
    else s
  if s.jobState ≠ -2 then some s
  else
    let s := { s with
      jobPending := s.jobPending + 1
      jobState := 0
      cxtCfgPtr := 1 - s.cxtCfgPtr
      committed := s.committed ++ [Job.mk (s.cxtJobId s.cxtCfgPtr) s.writes (s.cxt s.cxtCfgPtr) start]
      writes := [] }
    if start ∧ s.state = .idle then s.startNextJob else some s

def commitTrigger (value : BitVec 32) : Option Queue :=
  let ct := value &&& 0x3
  if ct = 2 then
    let s := { s with triggered := s.committed.length }
    if 0 < s.jobPending ∧ s.state = .idle then s.startNextJob else some s
  else if ct = 3 then some s
  else s.commit (ct = 0)

/-- A configuration write of `req_v2`. -/
def configure (w : Write) : Option Queue :=
  ((s.cxt s.cxtCfgPtr).write w).map fun cxt =>
    { s with cxt := update s.cxt s.cxtCfgPtr cxt, writes := s.writes ++ [w] }

/-- `fsm_handler`: whether a pass of the computation is its last one, and how long the next pass takes to come. -/
def fsmHandler (last : Bool) (latency : Nat) : Option Queue :=
  let s := { s with fsmEvent := none }
  match s.state with
  | .idle =>
    let s := { s with doneSyncs := s.doneSyncs ++ [false] }
    if 0 < s.jobPending then s.startNextJob else some s
  | .preload => some { s with
      state := if last then .routine else .preload
      fsmEvent := enqueue s.cycle latency s.fsmEvent }
  | .routine => some { s with
      state := if last then .storing else .routine
      fsmEvent := enqueue s.cycle latency s.fsmEvent }
  | .storing => some { s with
      state := if last then .finished else .storing
      fsmEvent := enqueue s.cycle latency s.fsmEvent }
  | .finished => some { s with
      cxtJobId := update s.cxtJobId s.cxtUsePtr (-1)
      cxtUsePtr := 1 - s.cxtUsePtr
      completedJobs := s.completedJobs + 1
      jobPending := s.jobPending - 1
      regs := { s.regs with gemmOps := gemmOpGemm }
      finished := s.finished + 1
      doneSyncs := s.doneSyncs ++ [true]
      state := .idle
      fsmEvent := enqueue s.cycle 1 s.fsmEvent }

end Queue

inductive Event
  | acquire
  | configure (w : Write)
  | commitTrigger (value : BitVec 32)
  | fsm (last : Bool) (latency : Nat)
  | tick
  deriving DecidableEq, Repr

namespace Queue

def step (s : Queue) : Event → Option Queue
  | .acquire => some s.acquire.2
  | .configure w => if s.jobState = -2 ∧ w.offset ≠ 0x00 ∧ w.offset ≠ 0x14 then s.configure w else none
  | .commitTrigger value => s.commitTrigger value
  | .fsm last latency => if s.fsmEvent = some s.cycle ∧ 0 < latency then s.fsmHandler last latency else none
  | .tick => if s.fsmEvent ≠ some s.cycle then some { s with cycle := s.cycle + 1 } else none

end Queue

end GvsocPulp.LightRedmule
