import Mathlib

/-!
# The co-simulation interface of the CV32E40P

The records that the core publishes for a checker, one for each instruction, and the commit FIFO of the core behind
them.

- `Effects.hook`: what the slots report of the instruction in flight;
- `dispatch`, `retry`, `load`, `retire`, `drain`, `boundary`: the hooks;
- `status`, `poll`, `externalLoadResponse`: the calls of the checker;
- `step`: the hooks in the order of an in-order core, which drains each held instruction once, oldest first. What
  `consume` decides at a dispatch is left to the event.
-/

namespace GvsocPulp.Cv32e40p

abbrev Word := BitVec 32

structure RegWrite where
  index : Nat
  value : Word
  deriving DecidableEq, Repr

inductive CsrOrigin
  | insn
  | trap
  | retire
  | fpState
  | take
  | debugEntry
  deriving DecidableEq, Repr

structure CsrWrite where
  address : Nat
  value : Word
  origin : CsrOrigin
  deriving DecidableEq, Repr

structure MemOp where
  transactionId : Nat
  isStore : Bool
  address : Word
  size : Word
  byteEnable : Word
  data : Word
  deriving DecidableEq, Repr

/-- The messages of `fail`; `decision` stands for those of `consume`. -/
inductive Fault
  | decision
  | noDecisionPoint (sequence : Nat)
  | tooManyGprWrites
  | tooManyFprWrites
  | tooManyCsrWrites
  | tooManyMemOps
  | crossesBoundary (address size : Word)
  | executedBeforeData (sequence load : Nat)
  | drainWithoutRecord
  deriving DecidableEq, Repr

/-- What an instruction does, as its record has it; `trap` is the cause and the target of `REC_TRAPPED`. -/
structure Effects where
  trap : Option (Word × Word) := none
  overflow : Bool := false
  gpr : List RegWrite := []
  fpr : List RegWrite := []
  csr : List CsrWrite := []
  mem : List MemOp := []
  deriving DecidableEq, Repr

/-- `Cv32e40pCosimCommit`. -/
structure Commit extends Effects where
  sequence : Nat := 0
  cycle : Int := 0
  minstret : Nat := 0
  pc : Word := 0
  nextPc : Word := 0
  insn : Word := 0
  insnLen : Word := 0
  debugBefore : Bool := false
  debugAfter : Bool := false
  deriving DecidableEq, Repr

inductive BoundaryKind
  | irqTake
  | debugEnter
  | wake
  deriving DecidableEq, Repr

/-- `Cv32e40pCosimBoundary`. -/
structure Boundary where
  kind : BoundaryKind
  opportunityId : Nat
  afterSequence : Nat
  cause : Word
  irqId : Word
  pc : Word
  nextPc : Word
  csr : List CsrWrite
  deriving DecidableEq, Repr

inductive CosimEvent
  | commit (commit : Commit)
  | boundary (boundary : Boundary)
  deriving DecidableEq, Repr

def CosimEvent.isBoundary : CosimEvent → Bool
  | .commit _ => false
  | .boundary _ => true

inductive RegionKind
  | ram
  | external
  | storeOnly
  deriving DecidableEq, Repr

structure Region where
  base : Word
  length : Word
  kind : RegionKind
  deriving DecidableEq, Repr

/-- A load into a unified register. -/
structure Load where
  address : Word
  size : Word
  reg : Nat
  isSigned : Bool
  deriving DecidableEq, Repr

structure ExternalLoad extends Load where
  sequence : Nat
  deriving DecidableEq, Repr

/-! ## The effects of an instruction -/

/-- The bits of an access of `size` bytes. -/
def sizeMask (size : Word) : Word := if 4 ≤ size.toNat then 0xFFFFFFFF else (1 <<< (8 * size.toNat)) - 1

def Load.extend (load : Load) (data : Word) : Word :=
  let value := data &&& sizeMask load.size
  if load.isSigned ∧ load.size.toNat < 4 ∧ value.getLsbD (8 * load.size.toNat - 1) then value |||
    ~~~(sizeMask load.size) else value

/-- The first entry of a list that is for the same is replaced; a new one may find the list full. -/
def put {α : Type} (same : α → Bool) (max : Nat) (x : α) (xs : List α) : Option (List α) :=
  match xs.findIdx? same with
  | some i => some (xs.set i x)
  | none => if xs.length = max then none else some (xs ++ [x])

/-- What the slots report of the instruction in flight. -/
inductive Hook
  | gpr (index : Nat) (value : Word)
  | fpr (index : Nat) (value : Word)
  | csr (address : Nat) (value : Word) (origin : CsrOrigin)
  /-- With the values of `mstatus`, `mepc` and `mcause` then. -/
  | trap (cause target : Word) (debugModeTrap : Bool) (mstatus mepc mcause : Word)
  | mem (isStore : Bool) (address size data : Word)
  | response (load : Load) (data : Word)
  deriving DecidableEq, Repr

def csrFflags : Nat := 0x001
def csrMstatus : Nat := 0x300
def csrMepc : Nat := 0x341
def csrMcause : Nat := 0x342

namespace Effects

variable (e : Effects)

def addCsr (address : Nat) (value : Word) (origin : CsrOrigin) : Effects × Option Fault :=
  match put (·.address = address) 16 ⟨address, value, origin⟩ e.csr with
  | some csr => ({ e with csr := csr }, none)
  | none => ({ e with overflow := true }, some .tooManyCsrWrites)

def respond (load : Load) (data : Word) : Effects :=
  let value := load.extend data
  let replace := List.map fun (w : RegWrite) => if w.index = load.reg % 32 then { w with value := value } else w
  { e with
    gpr := if load.reg ≠ 0 ∧ load.reg < 32 then replace e.gpr else e.gpr
    fpr := if 32 ≤ load.reg then replace e.fpr else e.fpr
    mem := e.mem.map fun op =>
      if op.isStore = false ∧ op.address = load.address then { op with data := data &&& sizeMask load.size } else op }

/-- `gpr`, `fpr`, `csr`, `trap` and `mem`, for an open record. -/
def hook (sequence : Nat) : Hook → Effects × Option Fault
  | .gpr index value =>
    if index = 0 ∨ 32 ≤ index then (e, none)
    else match put (·.index = index) 4 ⟨index, value⟩ e.gpr with
      | some gpr => ({ e with gpr := gpr }, none)
      | none => ({ e with overflow := true }, some .tooManyGprWrites)
  | .fpr index value =>
    if 32 ≤ index then (e, none)
    else match put (·.index = index) 2 ⟨index, value⟩ e.fpr with
      | some fpr => ({ e with fpr := fpr }, none)
      | none => ({ e with overflow := true }, some .tooManyFprWrites)
  | .csr address value origin => e.addCsr address value origin
  | .trap cause target debugModeTrap mstatus mepc mcause =>
    let e := { e with trap := some (cause, target) }
    if debugModeTrap then (e, none)
    else
      let (e, fault) := e.addCsr csrMstatus mstatus .trap
      let (e, fault') := e.addCsr csrMepc mepc .trap
      let (e, fault'') := e.addCsr csrMcause mcause .trap
      (e, fault <|> fault' <|> fault'')
  | .mem isStore address size data =>
    if e.mem.length = 2 then ({ e with overflow := true }, some .tooManyMemOps)
    else
      let byteEnable := ((1 <<< size.toNat) - 1) <<< (address &&& 3).toNat
      ({ e with mem := e.mem ++ [⟨sequence, isStore, address, size, byteEnable, data⟩] }, none)
  | .response load data => (e.respond load data, none)

/-- What an attempt leaves in the record. -/
def ofHooks (sequence : Nat) (hooks : List Hook) : Effects :=
  hooks.foldl (fun e h => (e.hook sequence h).1) {}

end Effects

/-! ## The regions -/

/-- How a load lies to a region. -/
inductive Reach
  | outside
  | crosses
  | inside
  deriving DecidableEq, Repr

/-- The test of `load`, with its 32-bit sums. -/
def Region.reach (r : Region) (address size : Word) : Reach :=
  if r.kind = .ram ∨ address + size ≤ r.base ∨ r.base + r.length ≤ address then .outside
  else if address < r.base ∨ r.base + r.length < address + size then .crosses
  else .inside

/-- The loop of `load`: the first region that a load is not outside of. -/
def reach (regions : List Region) (address size : Word) : Reach :=
  match regions with
  | [] => .outside
  | r :: rs => if r.reach address size = .outside then reach rs address size else r.reach address size

/-! ## The interface -/

/-- An instruction in the commit FIFO; a WFI sleeps until the core wakes up. -/
structure Entry where
  sequence : Nat
  wfi : Bool
  asleep : Bool
  deriving DecidableEq, Repr

structure Log where
  /-- The reports of the attempt in flight, and of the last attempt of each instruction. -/
  attempt : List Hook := []
  attempts : List (List Hook) := []
  /-- The load of the attempt in flight, and of the last attempt of each instruction. -/
  loading : Option Load := none
  loads : List (Option Load) := []
  boundaries : List Boundary := []
  responded : List Nat := []
  polled : List CosimEvent := []

structure Cosim extends Log where
  regions : List Region
  error : Option Fault := none
  armed : Nat := 0
  lastSequence : Nat := 0
  decidedId : Nat := 0
  externalPending : Bool := false
  external : ExternalLoad := ⟨⟨0, 0, 0, false⟩, 0⟩
  /-- `open`. -/
  opened : Bool := false
  current : Commit := {}
  held : List CosimEvent := []
  wfiDrains : Nat := 0
  events : List CosimEvent := []
  /-- The register file and the commit FIFO of the core. -/
  regs : Nat → Word := fun _ => 0
  fifo : List Entry := []

/-- What the dispatch reads of an instruction. -/
structure Insn where
  pc : Word
  insn : Word
  insnLen : Word
  deriving DecidableEq, Repr

/-- What the retire reads of the core: the FP state if it has changed, whether the instruction is held in the commit
FIFO, and whether it has put the core to sleep. -/
structure Retire where
  cycle : Int := 0
  minstret : Nat := 0
  nextPc : Word := 0
  debugBefore : Bool := false
  debugAfter : Bool := false
  fflags : Option Word := none
  mstatus : Option Word := none
  hold : Bool := false
  wfi : Bool := false
  deriving DecidableEq, Repr

inductive Status
  | error
  | event
  | externalLoad
  | sleeping
  | running
  deriving DecidableEq, Repr

namespace Cosim

variable (s : Cosim)

def fail (fault : Fault) : Cosim := { s with error := s.error <|> some fault }

/-- `exec.wfi`. -/
def wfi : Bool := s.fifo.any (·.asleep)

def hook (h : Hook) : Cosim :=
  if s.opened then
    { s with
      current := { s.current with toEffects := (s.current.toEffects.hook (s.lastSequence + 1) h).1 }
      error := s.error <|> (s.current.toEffects.hook (s.lastSequence + 1) h).2
      attempt := s.attempt ++ [h] }
  else s

def setReg (reg : Nat) (value : Word) : Cosim :=
  if reg = 0 then s
  else
    let s := { s with regs := fun r => if r = reg then value else s.regs r }
    if 32 ≤ reg then s.hook (.fpr (reg % 32) value) else s.hook (.gpr reg value)

/-- The end of `dispatch`: the record is opened once the decision points of its instruction are applied. -/
def openRecord (insn : Insn) (moved decided : Bool) : Cosim :=
  if moved then s
  else if decided then
    { s with
      current := { pc := insn.pc, insn := insn.insn, insnLen := insn.insnLen }
      opened := true
      attempt := []
      loading := none }
  else s.fail (.noDecisionPoint (s.lastSequence + 1))

/-- `dispatch`, with what `consume` has found and whether the PC has moved. -/
def dispatch (insn : Insn) (fault moved decided : Bool) : Cosim :=
  if s.error.isSome ∨ s.armed < s.lastSequence + 1 then s
  else if s.opened then s
  else (if fault then s.fail .decision else s).openRecord insn moved decided

def load (l : Load) : Cosim :=
  if s.opened then
    let s := { s with loading := some l }
    match reach s.regions l.address l.size with
    | .outside => s
    | .crosses => s.fail (.crossesBoundary l.address l.size)
    | .inside =>
      { s with
        external := ⟨{ l with reg := if l.reg < 64 then l.reg else 0 }, s.lastSequence + 1⟩
        externalPending := true }
  else s

def cosimLoad (l : Load) : Cosim := (s.hook (.mem false l.address l.size 0)).load l

def publish (c : Commit) : Cosim := { s with events := s.events ++ [.commit c] }

def push (e : CosimEvent) : Cosim := if s.held = [] then { s with events := s.events ++ [e] }
    else { s with held := s.held ++ [e] }

variable (r : Retire)

def fpState : List Hook :=
  if s.current.trap.isSome then []
  else
    (r.fflags.map fun value => .csr csrFflags value .fpState).toList ++
      if s.current.csr.any (·.address = csrMstatus) then []
        else (r.mstatus.map fun value => .csr csrMstatus value .fpState).toList

def record : Commit :=
  { s.current with
    sequence := s.lastSequence + 1
    cycle := r.cycle
    minstret := r.minstret
    nextPc := r.nextPc
    debugBefore := r.debugBefore
    debugAfter := r.debugAfter }

/-- The commit FIFO with the instruction that retires; behind a held instruction the others are held as well. -/
def fifoAfter : List Entry :=
  if r.wfi ∨ r.hold ∨ s.fifo ≠ [] then s.fifo ++ [⟨s.lastSequence + 1, r.wfi, r.wfi⟩] else s.fifo

/-- The end of `retire`: the record is published, or held. -/
def close : Cosim :=
  let t := { s with
    lastSequence := s.lastSequence + 1
    opened := false
    fifo := s.fifoAfter r
    attempts := s.attempts ++ [s.attempt]
    loads := s.loads ++ [s.loading] }
  if r.wfi then { t with wfiDrains := s.wfiDrains + 1 }.publish (s.record r)
  else if s.fifoAfter r ≠ [] then { t with held := s.held ++ [.commit (s.record r)] }
  else t.publish (s.record r)

/-- An instruction that retires does not find a load of an earlier one without its data. -/
def checkExternal : Cosim :=
  if s.externalPending ∧ s.external.sequence < s.lastSequence + 1 then
    s.fail (.executedBeforeData (s.lastSequence + 1) s.external.sequence)
  else s

def retire : Cosim :=
  if s.opened then ((s.fpState r).foldl hook s.checkExternal).close r else s

/-- `retry`; an instruction that has raised an exception retires. -/
def retry (exception : Option Retire) : Cosim :=
  if s.opened then
    let s := { s with externalPending := false }
    match exception with
    | some r => s.retire r
    | none => { s with current := { s.current with toEffects := {} }, attempt := [], loading := none }
  else s

/-- `boundary_begin` and `boundary_end`. -/
def boundary (kind : BoundaryKind) (cause irqId pc nextPc : Word) (csr : List CsrWrite) : Cosim :=
  let b := Boundary.mk kind s.decidedId s.lastSequence cause irqId pc nextPc csr
  { s with boundaries := s.boundaries ++ [b] }.push (.boundary b)

def drain (pc : Word) : Cosim :=
  if 0 < s.wfiDrains then { s with wfiDrains := s.wfiDrains - 1 }.boundary .wake 0 0 pc pc []
  else
    match s.held with
    | .commit c :: rest =>
      { s with
        events := s.events ++ .commit c :: rest.takeWhile CosimEvent.isBoundary
        held := rest.dropWhile CosimEvent.isBoundary }
    | _ => s.fail .drainWithoutRecord

def status : Status :=
  if s.error.isSome then .error
  else
    match s.events with
    | .commit c :: _ => if s.externalPending ∧ c.sequence = s.external.sequence then .externalLoad else .event
    | .boundary _ :: _ => .event
    | [] => if s.wfi then .sleeping else .running

/-- `poll`, when it returns an event. -/
def poll : Option Cosim :=
  match s.status, s.events with
  | .event, e :: rest => some { s with events := rest, polled := s.polled ++ [e] }
  | _, _ => none

def externalLoadResponse (sequence : Nat) (data : Word) : Option Cosim :=
  match s.status, s.events with
  | .externalLoad, .commit c :: rest =>
    if sequence = s.external.sequence then
      let x := s.external
      some { s.setReg x.reg (x.extend data) with
        -- the write is no report of the attempt in flight
        attempt := s.attempt
        events := .commit { c with toEffects := c.toEffects.respond x.toLoad data } :: rest
        externalPending := false
        attempts := s.attempts.modify (sequence - 1) (· ++ [.response x.toLoad data])
        responded := s.responded ++ [sequence] }
    else none
  | _, _ => none

end Cosim

inductive Event
  | arm (sequence : Nat)
  | decide (opportunityId : Nat)
  | dispatch (insn : Insn) (fault moved decided : Bool)
  | setReg (reg : Nat) (value : Word)
  | csr (address : Nat) (value : Word) (origin : CsrOrigin)
  | trap (cause target : Word) (debugModeTrap : Bool) (mstatus mepc mcause : Word)
  | store (address size data : Word)
  | load (load : Load)
  | retry (exception : Option Retire)
  | retire (r : Retire)
  | boundary (kind : BoundaryKind) (cause irqId pc nextPc : Word) (csr : List CsrWrite)
  | wake
  | drain (pc : Word)
  | poll
  | externalLoadResponse (sequence : Nat) (data : Word)
  deriving DecidableEq, Repr

namespace Cosim

def step (s : Cosim) : Event → Option Cosim
  | .arm sequence => if s.armed ≤ sequence then some { s with armed := sequence } else none
  | .decide opportunityId => some { s with decidedId := opportunityId }
  -- a core that sleeps does not dispatch
  | .dispatch insn fault moved decided => if s.wfi then none else some (s.dispatch insn fault moved decided)
  | .setReg reg value => some (s.setReg reg value)
  | .csr address value origin => some (s.hook (.csr address value origin))
  | .trap cause target debugModeTrap mstatus mepc mcause =>
      some (s.hook (.trap cause target debugModeTrap mstatus mepc mcause))
  | .store address size data => some (s.hook (.mem true address size (data &&& sizeMask size)))
  -- an instruction reports one load
  | .load l => if s.opened ∧ s.loading = none then some (s.cosimLoad l) else none
  -- an illegal instruction does not load
  | .retry exception => if exception.isSome ∧ s.loading.isSome then none else some (s.retry exception)
  | .retire r => some (s.retire r)
  | .boundary kind cause irqId pc nextPc csr => some (s.boundary kind cause irqId pc nextPc csr)
  | .wake => if s.wfi then some { s with fifo := s.fifo.map fun e => { e with asleep := false } } else none
  | .drain pc =>
    match s.fifo with
    | e :: rest => if e.asleep then none else some ({ s with fifo := rest }.drain pc)
    | [] => none
  | .poll => s.poll
  | .externalLoadResponse sequence data => s.externalLoadResponse sequence data

end Cosim

end GvsocPulp.Cv32e40p
