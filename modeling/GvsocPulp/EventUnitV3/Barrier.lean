import GvsocPulp.EventUnitV3.Core
import GvsocPulp.Lib.Requests
import GvsocPulp.Lib.Run

/-!
# The event unit: barriers

`Barrier_unit`: a core that arrives sets its bit in the status of the barrier; the last one of the mask resets the
status and triggers the barrier event of all of them, which answers their reads.

- `barrierStep`: the steps of the cores, of the clock and of the events;
- `arrive_early`, `arrive_last`: what an arrival does to the cores.
-/

namespace GvsocPulp.EventUnitV3

open Lib CoreEventUnit Function

/-! ## State -/

structure Barrier where
  coreMask : BitVec 32 := 0#32
  status : BitVec 32 := 0#32
  targetMask : BitVec 32 := 0#32

structure BarrierUnit where
  top : EventUnit
  nbBarriers : Nat
  barrierEvent : Nat
  barriers : Nat → Barrier

inductive BarrierReg
  | triggerMask
  | status
  | statusSummary
  | targetMask
  | trigger
  | triggerSelf
  | triggerWait
  | triggerWaitClear
  deriving DecidableEq, Repr

/-- How an access is answered: a parked read is granted. -/
inductive BarrierResp
  | invalid
  | ok (data : BitVec 32)
  | granted
  deriving DecidableEq, Repr

namespace BarrierUnit

variable (u : BarrierUnit)

def setBarrier (id : Nat) (barrier : Barrier) : BarrierUnit :=
  { u with barriers := update u.barriers id barrier }

def checkBarrier (id : Nat) : BarrierUnit :=
  let barrier := u.barriers id
  if barrier.status = barrier.coreMask then
    -- matched on the registered status, one cycle after the last trigger
    { u with top := u.top.triggerEvent (1#32 <<< u.barrierEvent) barrier.targetMask 1 }.setBarrier id
      { barrier with status := 0#32 }
  else u

def arrive (id : Nat) (mask : BitVec 32) : BarrierUnit :=
  u.setBarrier id { u.barriers id with status := (u.barriers id).status ||| mask }

/-- A core that was already waiting, and was interrupted, resumes. -/
def arriveSelf (id core : Nat) : BarrierUnit :=
  if (u.top.core core).state = .waitingBarrier then u else u.arrive id (1#32 <<< core)

def clearsAll (core : Nat) : BarrierUnit :=
  { u with top := u.top.setCore core { u.top.core core with clearEvtMask := (u.top.core core).evtMask } }

def sleep (req core : Nat) : BarrierUnit :=
  { u with top := u.top.waitEvent core req .waitingBarrier }

def triggerWaitClear (id req core : Nat) : BarrierUnit :=
  (((u.arriveSelf id core).clearsAll core).checkBarrier id).sleep req core

/-- `EU_HW_BARR_STATUS_SUMMARY`. -/
def statusSummary : BitVec 32 :=
  ((List.range u.nbBarriers).drop 1).foldl (fun status i => status ||| (u.barriers i).status) 0#32

/-- `req`, of an access that comes by the demux of the core. -/
def req (reqId id : Nat) (reg : BarrierReg) (isWrite : Bool) (data : BitVec 32) (core : Nat) :
    BarrierUnit × BarrierResp :=
  let barrier := u.barriers id
  if u.nbBarriers ≤ id then (u, .invalid)
  else match reg, isWrite with
    | .triggerMask, false => (u, .ok barrier.coreMask)
    | .triggerMask, true => ((u.setBarrier id { barrier with coreMask := data }).checkBarrier id, .ok data)
    | .targetMask, false => (u, .ok barrier.targetMask)
    | .targetMask, true => ((u.setBarrier id { barrier with targetMask := data }).checkBarrier id, .ok data)
    | .status, false => (u, .ok barrier.status)
    | .status, true => ((u.setBarrier id { barrier with status := data }).checkBarrier id, .ok data)
    | .trigger, false => (u, .invalid)
    | .trigger, true => ((u.arrive id data).checkBarrier id, .ok data)
    | .triggerSelf, _ => ((u.arrive id (1#32 <<< core)).checkBarrier id, .ok data)
    | .triggerWait, _ => (((u.arriveSelf id core).checkBarrier id).sleep reqId core, .granted)
    | .triggerWaitClear, _ => (u.triggerWaitClear id reqId core, .granted)
    | .statusSummary, true => (u, .invalid)
    | .statusSummary, false => (u, .ok u.statusSummary)

end BarrierUnit

/-! ## Steps -/

/-- The unit, with the arrivals of its cores: the core and the barrier of each read. -/
structure BarrierSystem where
  unit : BarrierUnit
  arrivals : List (Nat × Nat) := []

/-- What happens to the unit. -/
inductive BarrierEvent
  | arrive (core id : Nat)
  | wakeup (core : Nat)
  | tick
  deriving DecidableEq, Repr

namespace BarrierSystem

variable (s : BarrierSystem)

def answered : List Nat := s.unit.top.answers.map (·.1)

/-- The core has arrived at the barrier, and has not been answered. -/
def Waits (core id req : Nat) : Prop := Pending s.arrivals s.answered (core, id) req

/-- The core waits for no answer. -/
def Runs (core : Nat) : Prop :=
  core < s.unit.top.nbCore ∧ ∀ req < s.arrivals.length, (s.arrivals[req]?).map (·.1) = some core → req ∈ s.answered

instance (s : BarrierSystem) (core : Nat) : Decidable (s.Runs core) := by unfold Runs; infer_instance

def count (core id : Nat) : Nat := s.arrivals.count (core, id)

/-- The round of an arrival: how often its core had arrived at the barrier before. -/
def round (core id req : Nat) : Nat := (s.arrivals.take req).count (core, id)

def arrive (core id : Nat) : BarrierSystem :=
  { unit := ({ s.unit with top := s.unit.top.demuxReq core } : BarrierUnit).req s.arrivals.length id
      .triggerWaitClear false 0#32 core |>.1
    arrivals := s.arrivals ++ [(core, id)] }

def withTop (top : EventUnit) : BarrierSystem := { s with unit := { s.unit with top := top } }

end BarrierSystem

/-- **A step**: a core that runs arrives at a barrier; a core is woken up; a cycle goes by. -/
def barrierStep (s : BarrierSystem) : BarrierEvent → Option BarrierSystem
  | .arrive core id => if s.Runs core ∧ id < s.unit.nbBarriers then some (s.arrive core id) else none
  | .wakeup core => if core < s.unit.top.nbCore then (s.unit.top.wakeupHandler core).map s.withTop else none
  | .tick => s.unit.top.tick.map s.withTop

/-- After the configuration: each core has the barrier event unmasked, and no other; each barrier has its mask. -/
def barrierInit (nbCore nbBarriers barrierEvent : Nat) (mask : Nat → BitVec 32) : BarrierSystem where
  unit :=
    { top := { nbCore := nbCore, core := fun _ => { evtMask := 1#32 <<< barrierEvent } }
      nbBarriers := nbBarriers
      barrierEvent := barrierEvent
      barriers := fun id => { coreMask := mask id, targetMask := mask id } }

/-! ## Arrivals -/

namespace BarrierUnit

variable {u : BarrierUnit} {id req core : Nat}

/-- The event that all cores have unmasked. -/
abbrev eventBit (u : BarrierUnit) : BitVec 32 := 1#32 <<< u.barrierEvent

def arrivedStatus (u : BarrierUnit) (id core : Nat) : BitVec 32 := (u.barriers id).status ||| 1#32 <<< core

theorem checkBarrier_early (h : (u.barriers id).status ≠ (u.barriers id).coreMask) : u.checkBarrier id = u := if_neg h

theorem checkBarrier_last (h : (u.barriers id).status = (u.barriers id).coreMask) :
    u.checkBarrier id = { u with
      top := u.top.triggerEvent u.eventBit (u.barriers id).targetMask 1
      barriers := update u.barriers id { u.barriers id with status := 0#32 } } := if_pos h

def arriving (u : BarrierUnit) (id core : Nat) : BarrierUnit :=
  { u with
    top := u.top.setCore core { u.top.core core with clearEvtMask := u.eventBit }
    barriers := update u.barriers id { u.barriers id with status := u.arrivedStatus id core } }

theorem arriving_barrier : (u.arriving id core).barriers id =
    { u.barriers id with status := u.arrivedStatus id core } :=
  update_self id _ u.barriers

theorem arriveSelf_running (h : Running u.eventBit (u.top.core core)) :
    (u.arriveSelf id core).clearsAll core = u.arriving id core := by
  have hstate : (u.top.core core).state ≠ .waitingBarrier := by rw [h.state]; decide
  rw [arriveSelf, if_neg hstate, clearsAll]
  simp only [arrive, setBarrier, h.evtMask_eq, arriving, arrivedStatus]

theorem arrive_early (h : Running u.eventBit (u.top.core core))
    (hmask : u.arrivedStatus id core ≠ (u.barriers id).coreMask) :
    ∃ e, Asleep u.eventBit u.eventBit req .waitingBarrier e ∧
      u.triggerWaitClear id req core =
        { u with
          top := u.top.setCore core e
          barriers := update u.barriers id { u.barriers id with status := u.arrivedStatus id core } } := by
  obtain ⟨e, he, hwait⟩ := u.top.waitEvent_running h .waitingBarrier
  refine ⟨e, he, ?_⟩
  rw [triggerWaitClear, arriveSelf_running h, checkBarrier_early (by rw [arriving_barrier]; exact hmask),
    sleep, arriving]
  rw [hwait]

/-- What the last arrival does: the cores of the mask are woken up. -/
structure Released (u : BarrierUnit) (id req core : Nat) (u' : BarrierUnit) : Prop where
  nbBarriers : u'.nbBarriers = u.nbBarriers
  barrierEvent : u'.barrierEvent = u.barrierEvent
  barriers : u'.barriers = update u.barriers id { u.barriers id with status := 0#32 }
  now : u'.top.now = u.top.now
  nbCore : u'.top.nbCore = u.top.nbCore
  answers : u'.top.answers = u.top.answers
  last : Waking u.eventBit req true (u.top.now + 2) (u'.top.core core)
  sleepers : ∀ i r, i < u.top.nbCore → i ≠ core → (u.barriers id).coreMask.getLsbD i = true →
    Asleep u.eventBit u.eventBit r .waitingBarrier (u.top.core i) →
      Waking u.eventBit r false (u.top.now + 2) (u'.top.core i)
  others : ∀ i, i ≠ core → (u.barriers id).coreMask.getLsbD i = false → u'.top.core i = u.top.core i

theorem arrive_last (id req : Nat) (h : Running u.eventBit (u.top.core core)) (hcore : core < u.top.nbCore)
    (hnb : u.top.nbCore ≤ 32) (hevent : u.barrierEvent < 32)
    (htarget : (u.barriers id).targetMask = (u.barriers id).coreMask)
    (hmask : u.arrivedStatus id core = (u.barriers id).coreMask) :
    Released u id req core (u.triggerWaitClear id req core) := by
  have hbit : u.eventBit &&& u.eventBit ≠ 0#32 := by rw [BitVec.and_self]; exact bit_ne_zero hevent
  have hcore32 : core < 32 := Nat.lt_of_lt_of_le hcore hnb
  have hself : (u.barriers id).coreMask.getLsbD core = true := by
    rw [← hmask, arrivedStatus, getLsbD_or_bit hcore32]
    simp
  have hne : (u.barriers id).coreMask ≠ 0#32 := fun h0 => by
    rw [h0] at hself
    simp at hself
  rw [triggerWaitClear, arriveSelf_running h, checkBarrier_last (by rw [arriving_barrier]; exact hmask),
    arriving_barrier, htarget, sleep]
  -- the event is sent to the cores of the mask
  have hspec := EventUnit.triggerEvent_spec (s := (u.arriving id core).top) u.eventBit (u.barriers id).coreMask 1
  obtain ⟨top, htop⟩ : ∃ top, top = (u.arriving id core).top.triggerEvent u.eventBit (u.barriers id).coreMask 1 :=
    ⟨_, rfl⟩
  rw [← htop] at hspec
  have hmem : ∀ i, ((u.barriers id).coreMask = 0#32 ∨ (u.barriers id).coreMask.getLsbD i = true) ↔
      (u.barriers id).coreMask.getLsbD i = true := fun i => ⟨fun h => h.resolve_left hne, Or.inr⟩
  have hcoreIs : (u.arriving id core).top.core core = { u.top.core core with clearEvtMask := u.eventBit } :=
    update_self core _ u.top.core
  have hother : ∀ i ≠ core, (u.arriving id core).top.core i = u.top.core i := fun i hi => update_of_ne hi _ _
  obtain ⟨-, syncIrq, hbuffered⟩ := h.send u.top.now 1
  have hsent : top.core core = { u.top.core core with
      clearEvtMask := u.eventBit, status := u.eventBit, syncIrq := syncIrq } := by
    rw [hspec.sent core hcore ((hmem core).2 hself), hcoreIs]
    exact hbuffered
  obtain ⟨e, he, hwait⟩ := EventUnit.waitEvent_buffered (s := top) h hbit hsent .waitingBarrier
  show Released u id req core { u.arriving id core with
    top := ((u.arriving id core).top.triggerEvent u.eventBit (u.barriers id).coreMask 1).waitEvent core req
      .waitingBarrier
    barriers := update (u.arriving id core).barriers id { u.barriers id with status := 0#32 } }
  rw [← htop, hwait]
  have hnow : top.now = u.top.now := hspec.now
  refine ⟨rfl, rfl, update_idem _ _ _, hnow, hspec.nbCore, hspec.answers, ?_, fun i r hi hne' hi' hasleep => ?_,
    fun i hne' hi' => ?_⟩
  · show Waking _ _ _ _ (update top.core core e core)
    rw [update_self, ← hnow]
    exact he
  · show Waking _ _ _ _ (update top.core core e i)
    rw [update_of_ne hne', hspec.sent i hi ((hmem i).2 hi'), hother i hne']
    exact (hasleep.send hbit (Or.inr rfl) u.top.now 1).1
  · show update top.core core e i = _
    rw [update_of_ne hne', hspec.kept i (fun h => by rw [(hmem i).1 h.2] at hi'; cases hi'), hother i hne']

end BarrierUnit

end GvsocPulp.EventUnitV3
