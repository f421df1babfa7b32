import GvsocPulp.EventUnitV3.Core
import GvsocPulp.Lib.Requests
import GvsocPulp.Lib.Run

/-!
# The event unit: mutexes

`Mutex_unit`: a lock read of a free mutex is answered through the mutex event of its core, one of a locked mutex sleeps;
an unlock hands the mutex to the lowest core that waits, and a lower core that asks in the same cycle takes it over.

- `mutexStep`: the steps of the cores, of the clock and of the events, with what the cores have been answered;
- `give_running`, `takeOver_waking`, `writeReq_waiting`: what the operations of the unit do.
-/

namespace GvsocPulp.EventUnitV3

open Lib CoreEventUnit Function EventUnit

/-! ## State -/

structure Mutex where
  locked : Bool := false
  waitingMask : BitVec 32 := 0#32
  value : BitVec 32
  waitingReqs : Nat → Option Nat := fun _ => none
  elected : Int := -1
  electCycle : Int := -1

structure MutexUnit where
  top : EventUnit
  nbMutexes : Nat
  mutexEvent : Nat
  mutexes : Nat → Mutex

namespace MutexUnit

variable (u : MutexUnit)

def setMutex (id : Nat) (mutex : Mutex) : MutexUnit :=
  { u with mutexes := update u.mutexes id mutex }

def clearsEvent (core : Nat) : EventUnit :=
  u.top.setCore core { u.top.core core with clearEvtMask := 1#32 <<< u.mutexEvent }

def enqueueSleep (id req core : Nat) : MutexUnit :=
  let mutex := u.mutexes id
  { u with top := (u.clearsEvent core).waitEvent core req .waitingEvent }.setMutex id
    { mutex with
      waitingReqs := update mutex.waitingReqs core (some req)
      waitingMask := mutex.waitingMask ||| 1#32 <<< core }

def give (id req core : Nat) : MutexUnit :=
  let mutex := u.mutexes id
  let top := (u.clearsEvent core).writeData req mutex.value
  let top := top.setCore core ((top.core core).putToSleep req .waitingEvent)
  { u with top := top.triggerEvent (1#32 <<< u.mutexEvent) (1#32 <<< core) 0 }.setMutex id
    { mutex with locked := true, elected := core, electCycle := u.top.now }

/-- The core that the mutex was given to in this cycle sleeps again, where a lower one asks. -/
def takeOver (id core : Nat) : Option MutexUnit :=
  let mutex := u.mutexes id
  let prev := mutex.elected.toNat
  if mutex.electCycle = u.top.now ∧ (core : Int) < mutex.elected then
    ((u.top.core prev).unwake u.mutexEvent).map fun e =>
      { u with top := u.top.setCore prev e }.setMutex id
        { mutex with
          waitingReqs := update mutex.waitingReqs prev e.pendingReq
          waitingMask := mutex.waitingMask ||| 1#32 <<< prev }
  else none

def readReq (id req core : Nat) : MutexUnit :=
  if (u.mutexes id).locked = false then u.give id req core
  else match u.takeOver id core with
    | some u' => u'.give id req core
    | none => u.enqueueSleep id req core

/-- `req` for a write, which is answered at once. -/
def writeReq (id : Nat) (value : BitVec 32) : MutexUnit :=
  let mutex := u.mutexes id
  if mutex.waitingMask ≠ 0#32 then
    let i := mutex.waitingMask.ctz.toNat
    let top := match mutex.waitingReqs i with
      | some req => u.top.writeData req value
      | none => u.top
    { u with top := top.triggerEvent (1#32 <<< u.mutexEvent) (1#32 <<< i) 0 }.setMutex id
      { mutex with
        value := value
        waitingMask := mutex.waitingMask &&& ~~~(1#32 <<< i)
        elected := i
        electCycle := u.top.now }
  else u.setMutex id { mutex with value := value, locked := false }

end MutexUnit

/-! ## Steps -/

/-- What a lock read has been answered, and what the mutex was last unlocked with at that time. -/
structure LockAnswer where
  req : Nat
  value : BitVec 32
  unlocked : BitVec 32
  deriving DecidableEq, Repr

/-- The unit, with what its cores have asked for and have been answered. -/
structure MutexSystem where
  unit : MutexUnit
  reads : List (Nat × Nat) := []
  answers : List LockAnswer := []
  /-- The cores that have been answered for a mutex and have not unlocked it. -/
  holders : Nat → List Nat := fun _ => []
  /-- What a mutex was last unlocked with. -/
  unlocked : Nat → BitVec 32

/-- What happens to the unit. -/
inductive MutexEvent
  | lockRead (core id : Nat)
  | unlock (core id : Nat) (value : BitVec 32)
  | wakeup (core : Nat)
  | tick
  deriving DecidableEq, Repr

def MutexEvent.unlocks (id : Nat) : MutexEvent → Bool
  | .unlock _ id' _ => id' = id
  | _ => false

/-- Whether an event is a lock read of the mutex by a core below the given one. -/
def MutexEvent.overtakes (core id : Nat) : MutexEvent → Bool
  | .lockRead core' id' => id' = id && core' < core
  | _ => false

namespace MutexSystem

variable (s : MutexSystem)

def answered : List Nat := s.answers.map (·.req)

def Waits (core id req : Nat) : Prop := Pending s.reads s.answered (core, id) req

/-- The core waits for no answer. -/
def Runs (core : Nat) : Prop :=
  core < s.unit.top.nbCore ∧ ∀ req < s.reads.length, (s.reads[req]?).map (·.1) = some core → req ∈ s.answered

instance (s : MutexSystem) (core : Nat) : Decidable (s.Runs core) := by unfold Runs; infer_instance

/-- An answer reaches its core, which then holds the mutex. -/
def observe (answer : Nat × BitVec 32) : MutexSystem :=
  match s.reads[answer.1]? with
  | some (core, id) =>
    { s with
      answers := s.answers ++ [⟨answer.1, answer.2, s.unlocked id⟩]
      holders := update s.holders id (s.holders id ++ [core]) }
  | none => s

/-- An access of the core begins. -/
def demux (core : Nat) : MutexUnit := { s.unit with top := s.unit.top.demuxReq core }

def lockRead (core id : Nat) : MutexSystem :=
  { s with unit := (s.demux core).readReq id s.reads.length core, reads := s.reads ++ [(core, id)] }

def unlock (core id : Nat) (value : BitVec 32) : MutexSystem :=
  { s with
    unit := (s.demux core).writeReq id value
    holders := update s.holders id ((s.holders id).erase core)
    unlocked := update s.unlocked id value }

def withTop (top : EventUnit) : MutexSystem :=
  (top.answers.drop s.unit.top.answers.length).foldl observe { s with unit := { s.unit with top := top } }

end MutexSystem

/-- **A step**: a core that runs asks for a mutex, or unlocks one that it holds; a core is woken up; a cycle goes by. -/
def mutexStep (s : MutexSystem) : MutexEvent → Option MutexSystem
  | .lockRead core id => if s.Runs core ∧ id < s.unit.nbMutexes then some (s.lockRead core id) else none
  | .unlock core id value =>
    if s.Runs core ∧ id < s.unit.nbMutexes ∧ core ∈ s.holders id then some (s.unlock core id value) else none
  | .wakeup core => if core < s.unit.top.nbCore then (s.unit.top.wakeupHandler core).map s.withTop else none
  | .tick => s.unit.top.tick.map s.withTop

/-- After reset: each core has the mutex event unmasked, and no other. -/
def mutexInit (nbCore nbMutexes mutexEvent : Nat) (value : Nat → BitVec 32) : MutexSystem where
  unit :=
    { top := { nbCore := nbCore, core := fun _ => { evtMask := 1#32 <<< mutexEvent } }
      nbMutexes := nbMutexes
      mutexEvent := mutexEvent
      mutexes := fun id => { value := value id } }
  unlocked := value

/-! ## The operations of the unit -/

namespace MutexUnit

variable {u : MutexUnit} {id req core : Nat}

/-- The event that all cores have unmasked. -/
abbrev eventBit (u : MutexUnit) : BitVec 32 := 1#32 <<< u.mutexEvent

/-- The unit after an access: some cores, one value and one mutex have changed. -/
def changed (u : MutexUnit) (cores : Nat → CoreEventUnit) (data : Nat → BitVec 32) (id : Nat) (mutex : Mutex) :
    MutexUnit :=
  { u with top := { u.top with core := cores, data := data }, mutexes := update u.mutexes id mutex }

theorem enqueueSleep_running (h : Running u.eventBit (u.top.core core)) :
    ∃ e, Asleep u.eventBit u.eventBit req .waitingEvent e ∧
      u.enqueueSleep id req core = u.changed (update u.top.core core e) u.top.data id
        { u.mutexes id with
          waitingReqs := update (u.mutexes id).waitingReqs core (some req)
          waitingMask := (u.mutexes id).waitingMask ||| 1#32 <<< core } := by
  obtain ⟨e, he, hwait⟩ := u.top.waitEvent_running h .waitingEvent
  refine ⟨e, he, ?_⟩
  rw [enqueueSleep, clearsEvent, hwait]
  rfl

theorem give_running (h : Running u.eventBit (u.top.core core)) (hcore : core < u.top.nbCore) (hnb : u.top.nbCore ≤ 32)
    (hevent : u.mutexEvent < 32) :
    ∃ e, Waking u.eventBit req false (u.top.now + 1) e ∧
      u.give id req core = u.changed (update u.top.core core e)
        (update u.top.data req (u.mutexes id).value) id
        { u.mutexes id with locked := true, elected := core, electCycle := u.top.now } := by
  have hbit : u.eventBit &&& u.eventBit ≠ 0#32 := by rw [BitVec.and_self]; exact bit_ne_zero hevent
  obtain ⟨e, he, htrigger⟩ := sleep_trigger 0 (s := u.top.writeData req (u.mutexes id).value)
    h hcore hnb hbit
  refine ⟨e, he, ?_⟩
  rw [give]
  dsimp only [clearsEvent]
  simp only [setCore, writeData, update_self, update_idem] at htrigger ⊢
  rw [htrigger]
  rfl

theorem takeOver_waking {prev preq : Nat} {cycle : Int}
    (h : Waking u.eventBit preq false cycle (u.top.core prev)) (hprev : (u.mutexes id).elected = prev)
    (hnow : (u.mutexes id).electCycle = u.top.now) (hlt : core < prev) :
    ∃ e, Asleep u.eventBit u.eventBit preq .waitingEvent e ∧
      u.takeOver id core = some (u.changed (update u.top.core prev e) u.top.data id
        { u.mutexes id with
          waitingReqs := update (u.mutexes id).waitingReqs prev (some preq)
          waitingMask := (u.mutexes id).waitingMask ||| 1#32 <<< prev }) := by
  obtain ⟨e, hunwake, he⟩ := h.unwake
  refine ⟨e, he, ?_⟩
  have hguard : (u.mutexes id).electCycle = u.top.now ∧ (core : Int) < (u.mutexes id).elected :=
    ⟨hnow, by rw [hprev]; exact Int.ofNat_lt.2 hlt⟩
  have htoNat : (u.mutexes id).elected.toNat = prev := by rw [hprev]; rfl
  rw [takeOver]
  rw [if_pos hguard, htoNat, hunwake, Option.map_some, he.pendingReq]
  rfl

theorem writeReq_free {value : BitVec 32} (h : (u.mutexes id).waitingMask = 0#32) :
    u.writeReq id value = u.changed u.top.core u.top.data id { u.mutexes id with value := value, locked := false } := by
  rw [writeReq]
  rw [if_neg (not_not_intro h)]
  rfl

theorem writeReq_waiting {value : BitVec 32} {i : Nat} (h : (u.mutexes id).waitingMask ≠ 0#32)
    (hi : (u.mutexes id).waitingMask.ctz.toNat = i) (hreq : (u.mutexes id).waitingReqs i = some req)
    (hasleep : Asleep u.eventBit u.eventBit req .waitingEvent (u.top.core i)) (hcore : i < u.top.nbCore)
    (hnb : u.top.nbCore ≤ 32) (hevent : u.mutexEvent < 32) :
    ∃ e, Waking u.eventBit req false (u.top.now + 1) e ∧
      u.writeReq id value = u.changed (update u.top.core i e) (update u.top.data req value) id
        { u.mutexes id with
          value := value
          waitingMask := (u.mutexes id).waitingMask &&& ~~~(1#32 <<< i)
          elected := i
          electCycle := u.top.now } := by
  have hbit : u.eventBit &&& u.eventBit ≠ 0#32 := by rw [BitVec.and_self]; exact bit_ne_zero hevent
  obtain ⟨e, he, htrigger⟩ := triggerEvent_asleep 0 (s := u.top.writeData req value) hcore hnb
    hasleep hbit
  refine ⟨e, he, ?_⟩
  rw [writeReq]
  dsimp only
  rw [if_pos h, hi, hreq]
  rw [htrigger]
  rfl

end MutexUnit

end GvsocPulp.EventUnitV3
