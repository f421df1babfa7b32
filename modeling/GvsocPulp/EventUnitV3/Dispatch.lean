import GvsocPulp.EventUnitV3.Core
import GvsocPulp.Lib.Requests
import GvsocPulp.Lib.Run

/-!
# The event unit: the dispatch FIFO

`Dispatch_unit`: a ring of values, each pushed for a team of cores. Each core walks the ring with its own tail; a core
that finds nothing ready sleeps at the entry it has come to.

- `dispatchStep`: pushes, pops and wake-ups, with what has been pushed and asked for;
- `PopsInOrder`: a core that pops has not been overtaken by the ring in a way that its walk does not notice;
- `Delivers`: what the cores are to get.
-/

namespace GvsocPulp.EventUnitV3

open Lib CoreEventUnit

/-! ## State -/

/-- `Dispatch`: an entry. -/
structure Dispatch where
  value : BitVec 32 := 0#32
  statusMask : BitVec 32 := 0#32
  configMask : BitVec 32 := 0#32
  waitingMask : BitVec 32 := 0#32
  waitingReqs : Nat → Option Nat := fun _ => none

/-- `Dispatch_unit`, with the tails of its cores. -/
structure DispatchUnit where
  top : EventUnit
  size : Nat
  dispatchEvent : Nat
  tail : Nat → Nat := fun _ => 0
  dispatches : Nat → Dispatch := fun _ => {}
  fifoHead : Nat := 0
  config : BitVec 32 := 0#32

namespace DispatchUnit

/-- The entry after the given one. -/
def next (u : DispatchUnit) (id : Nat) : Nat := if id + 1 = u.size then 0 else id + 1

def setDispatch (u : DispatchUnit) (id : Nat) (dispatch : Dispatch) : DispatchUnit :=
  { u with dispatches := Function.update u.dispatches id dispatch }

def advance (u : DispatchUnit) (core : Nat) : DispatchUnit :=
  { u with tail := Function.update u.tail core (u.next (u.tail core)) }

/-- The core has seen the entry. -/
def clearStatus (u : DispatchUnit) (id core : Nat) : DispatchUnit :=
  u.setDispatch id { u.dispatches id with statusMask := (u.dispatches id).statusMask &&& ~~~(1#32 <<< core) }

def clearsEvent (u : DispatchUnit) (core : Nat) : EventUnit :=
  u.top.setCore core { u.top.core core with clearEvtMask := 1#32 <<< u.dispatchEvent }

def enqueueSleep (u : DispatchUnit) (id req core : Nat) (isCaller : Bool) : DispatchUnit :=
  let dispatch := u.dispatches id
  let top := u.clearsEvent core
  { u with
    top := if isCaller then top.waitEvent core req .waitingEvent
      else top.setCore core ((top.core core).putToSleep req .waitingEvent) }.setDispatch id
    { dispatch with
      waitingReqs := Function.update dispatch.waitingReqs core (some req)
      waitingMask := dispatch.waitingMask ||| 1#32 <<< core }

/-- The core no longer sleeps at the entry, and goes on to the next one. -/
def leave (u : DispatchUnit) (id core : Nat) : DispatchUnit :=
  let dispatch := u.dispatches id
  (u.setDispatch id { dispatch with
    statusMask := dispatch.statusMask &&& ~~~(1#32 <<< core)
    waitingMask := dispatch.waitingMask &&& ~~~(1#32 <<< core) }).advance core

/-- A push finds a core that sleeps at the entry: the core is woken with the value if it is in the team, and sleeps on
at the next entry otherwise. -/
def wakeWaiting (u : DispatchUnit) (id core : Nat) : DispatchUnit :=
  let dispatch := u.dispatches id
  match dispatch.waitingReqs core with
  | none => u.leave id core
  | some req =>
    if dispatch.configMask.getLsbD core then
      { u.leave id core with
        top := (u.top.writeData req dispatch.value).triggerEvent (1#32 <<< u.dispatchEvent) (1#32 <<< core) 0 }
    else (u.leave id core).enqueueSleep (u.next (u.tail core)) req core false

/-- A write to `EU_DISPATCH_FIFO_ACCESS`. -/
def push (u : DispatchUnit) (value : BitVec 32) : DispatchUnit :=
  let id := u.fifoHead
  let dispatch := { u.dispatches id with configMask := u.config, value := value, statusMask := BitVec.allOnes 32 }
  ((List.range 32).filter fun i => (dispatch.waitingMask &&& dispatch.statusMask).getLsbD i).foldl
    (fun u i => u.wakeWaiting id i) ({ u with fifoHead := u.next id }.setDispatch id dispatch)

/-- The entry that the core has come to is ready, and not for it. -/
def skips (u : DispatchUnit) (core : Nat) : Bool :=
  (u.dispatches (u.tail core)).statusMask.getLsbD core && !(u.dispatches (u.tail core)).configMask.getLsbD core

/-- Ready entries in which the core is not involved are bypassed. -/
def bypass (u : DispatchUnit) (core : Nat) : Nat → DispatchUnit
  | 0 => u
  | fuel + 1 => if u.skips core then ((u.clearStatus (u.tail core) core).advance core).bypass core fuel else u

/-- A read of `EU_DISPATCH_FIFO_ACCESS`. After `size` entries all status bits of the core are clear. -/
def pop (u : DispatchUnit) (req core : Nat) : DispatchUnit :=
  let u := u.bypass core u.size
  let dispatch := u.dispatches (u.tail core)
  if dispatch.statusMask.getLsbD core then
    let value := if dispatch.configMask.getLsbD core then dispatch.value else 0#32
    let top := (u.clearsEvent core).writeData req value
    let top := top.setCore core ((top.core core).putToSleep req .waitingEvent)
    { (u.clearStatus (u.tail core) core).advance core with
      top := top.triggerEvent (1#32 <<< u.dispatchEvent) (1#32 <<< core) 0 }
  else u.enqueueSleep (u.tail core) req core true

/-! ## Pops in order -/

def ringIndex (u : DispatchUnit) (k : Nat) : Nat := (u.fifoHead + k) % u.size

/-- The core has not passed the entry. -/
def unread (u : DispatchUnit) (core k : Nat) : Bool := (u.dispatches (u.ringIndex k)).statusMask.getLsbD core

def isFor (u : DispatchUnit) (core k : Nat) : Bool := (u.dispatches (u.ringIndex k)).configMask.getLsbD core

/-- How many of the first `n` entries, from the last of them down, the core has not passed. -/
def lagFrom (u : DispatchUnit) (core : Nat) : Nat → Nat
  | 0 => 0
  | n + 1 => if u.unread core n then u.lagFrom core n + 1 else 0

/-- How many entries are behind the core: older than the one it has come to. -/
def behind (u : DispatchUnit) (core : Nat) : Nat :=
  if u.lagFrom core u.size = u.size then (u.tail core + (u.size - u.fifoHead)) % u.size
  else u.size - u.lagFrom core u.size

/-- No entry behind the core that it has not passed is for it; and if there is an entry behind it that it has not
passed, some entry from its tail on is for it. -/
def PopsInOrder (u : DispatchUnit) (core : Nat) : Prop :=
  (∀ k < u.behind core, u.unread core k = true → u.isFor core k = false) ∧
    ((∃ k < u.behind core, u.unread core k = true) → ∃ k < u.size, u.behind core ≤ k ∧ u.isFor core k = true)

instance (u : DispatchUnit) (core : Nat) : Decidable (u.PopsInOrder core) := by unfold PopsInOrder; infer_instance

/-- All cores of the team of the oldest entry have read it. -/
def Reusable (u : DispatchUnit) : Prop :=
  ∀ core < u.top.nbCore, (u.dispatches u.fifoHead).configMask.getLsbD core = true →
    (u.dispatches u.fifoHead).statusMask.getLsbD core = false

instance (u : DispatchUnit) : Decidable u.Reusable := by unfold Reusable; infer_instance

end DispatchUnit

/-! ## Steps -/

/-- The unit, with what has been pushed (the value and its team) and the core of each pop. -/
structure DispatchSystem where
  unit : DispatchUnit
  pushes : List (BitVec 32 × BitVec 32) := []
  pops : List Nat := []

/-- What happens to the unit. -/
inductive DispatchEvent
  | config (core : Nat) (team : BitVec 32)
  | push (core : Nat) (value : BitVec 32)
  | pop (core : Nat)
  | wakeup (core : Nat)
  | tick
  deriving DecidableEq, Repr

def valuesFor (core : Nat) (pushes : List (BitVec 32 × BitVec 32)) : List (BitVec 32) :=
  (pushes.filter (·.2.getLsbD core)).map (·.1)

namespace DispatchSystem

variable (s : DispatchSystem)

def answered : List Nat := s.unit.top.answers.map (·.1)

def answersOf (core : Nat) : List (BitVec 32) :=
  (s.unit.top.answers.filter fun answer => s.pops[answer.1]? = some core).map (·.2)

def Waits (core req : Nat) : Prop := Pending s.pops s.answered core req

/-- The core waits for no answer. -/
def Runs (core : Nat) : Prop :=
  core < s.unit.top.nbCore ∧ ∀ req < s.pops.length, (s.pops[req]?).map id = some core → req ∈ s.answered

instance (s : DispatchSystem) (core : Nat) : Decidable (s.Runs core) := by unfold Runs; infer_instance

/-- An access of the core begins. -/
def demux (core : Nat) : DispatchUnit := { s.unit with top := s.unit.top.demuxReq core }

/-- A write to `EU_DISPATCH_TEAM_CONFIG`. -/
def config (s : DispatchSystem) (core : Nat) (team : BitVec 32) : DispatchSystem :=
  { s with unit := { s.demux core with config := team } }

def push (core : Nat) (value : BitVec 32) : DispatchSystem :=
  { s with unit := (s.demux core).push value, pushes := s.pushes ++ [(value, s.unit.config)] }

def pop (core : Nat) : DispatchSystem :=
  { s with unit := (s.demux core).pop s.pops.length core, pops := s.pops ++ [core] }

def withTop (top : EventUnit) : DispatchSystem := { s with unit := { s.unit with top := top } }

structure Sleeps (s : DispatchSystem) (core req : Nat) : Prop where
  isActive : (s.unit.top.core core).isActive = false
  pendingReq : (s.unit.top.core core).pendingReq = some req
  wakeupEvent : (s.unit.top.core core).wakeupEvent = none

structure Wakes (s : DispatchSystem) (core req : Nat) : Prop where
  pendingReq : (s.unit.top.core core).pendingReq = some req
  wakeupEvent : ∃ cycle, (s.unit.top.core core).wakeupEvent = some cycle ∧ s.unit.top.now ≤ cycle ∧
    cycle ≤ s.unit.top.now + 1

/-- **Delivery**: each core is answered the values that are for it, in order, each once; it sleeps exactly while there
are no more of them. -/
structure Delivers (s : DispatchSystem) : Prop where
  answeredOnce : s.answered.Nodup
  inOrder : ∀ core < s.unit.top.nbCore, s.answersOf core <+: valuesFor core s.pushes
  pending : ∀ core req, s.Waits core req →
    (s.Sleeps core req ∧ s.answersOf core = valuesFor core s.pushes) ∨
      (s.Wakes core req ∧ s.answersOf core ++ [s.unit.top.data req] <+: valuesFor core s.pushes)

end DispatchSystem

/-- **A step**: a core that runs writes the team, pushes when the oldest entry may be reused, or pops; a core is woken
up; a cycle goes by. -/
def dispatchStep (s : DispatchSystem) : DispatchEvent → Option DispatchSystem
  | .config core team => if s.Runs core then some (s.config core team) else none
  | .push core value => if s.Runs core ∧ s.unit.Reusable then some (s.push core value) else none
  | .pop core => if s.Runs core then some (s.pop core) else none
  | .wakeup core => if core < s.unit.top.nbCore then (s.unit.top.wakeupHandler core).map s.withTop else none
  | .tick => s.unit.top.tick.map s.withTop

/-- After reset: each core has the dispatch event unmasked, and no other. -/
def dispatchInit (nbCore size dispatchEvent : Nat) : DispatchSystem where
  unit :=
    { top := { nbCore := nbCore, core := fun _ => { evtMask := 1#32 <<< dispatchEvent } }
      size := size
      dispatchEvent := dispatchEvent }

def InOrder (s : DispatchSystem) : DispatchEvent → Prop
  | .pop core => s.unit.PopsInOrder core
  | _ => True

instance (s : DispatchSystem) (event : DispatchEvent) : Decidable (InOrder s event) := by
  unfold InOrder; split <;> infer_instance

end GvsocPulp.EventUnitV3
