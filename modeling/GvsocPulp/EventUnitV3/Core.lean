import GvsocPulp.Lib.Masks

/-!
# The event unit: its cores

`Core_event_unit`, the event buffer of a core: its read of a unit parks until an unmasked event is buffered, then is
answered some cycles later (`wakeup_event`). `Event_unit` sends the events of the units to the cores.

A core of which one event is unmasked, and to which no other event comes, runs (`Running`), sleeps on a read (`Asleep`)
or has been woken and is about to be answered (`Waking`): `Asleep.send`, `Waking.unwake` and `Waking.wakeup` are its
moves.
-/

namespace GvsocPulp.EventUnitV3

open Function Nat

variable {cycle : Int} {active : Bool}

/-! ## State -/

/-- `Event_unit_core_state_e`. -/
inductive CoreState
  | none
  | waitingEvent
  | waitingBarrier
  | skipElw
  deriving DecidableEq, Repr

/-- `Core_event_unit`. A request is a number; an event of the clock is the cycle in which it fires. -/
structure CoreEventUnit where
  status : BitVec 32 := 0#32
  evtMask : BitVec 32 := 0#32
  irqMask : BitVec 32 := 0#32
  clearEvtMask : BitVec 32 := 0#32
  syncIrq : Int := -1
  pendingElw : Bool := false
  pendingReqIsWait : Bool := false
  state : CoreState := .none
  pendingReq : Option Nat := none
  isActive : Bool := true
  wakeupEvent : Option Int := none
  irqWakeupEvent : Option Int := none

/-- `Event_unit`, with the data of the requests and the requests that it has answered. -/
structure EventUnit where
  nbCore : Nat
  now : Int := 0
  core : Nat → CoreEventUnit
  data : Nat → BitVec 32 := fun _ => 0#32
  answers : List (Nat × BitVec 32) := []

abbrev wakeupLatency : Int := 2

abbrev eventWakeupLatency : Int := 1

namespace CoreEventUnit

variable (e : CoreEventUnit)

/-- `check_wait_mask`, with `clear_status`. -/
def checkWaitMask : CoreEventUnit :=
  if e.clearEvtMask ≠ 0#32 then { e with status := e.status &&& ~~~e.clearEvtMask, clearEvtMask := 0#32 } else e

def putToSleep (req : Nat) (waitState : CoreState) : CoreEventUnit :=
  { e with state := waitState, isActive := false, pendingReq := some req }

/-- The event of the clock is enqueued, unless it is already. -/
def enqueue (event : Option Int) (cycle : Int) : Option Int := event.orElse fun _ => some cycle

/-- `check_state`, and what it writes to the data of the pending request. -/
def checkState (now wakeupDelay : Int) : CoreEventUnit × Option (BitVec 32) :=
  let statusIrqMasked := e.status &&& e.irqMask
  let statusEvtMasked := e.status &&& e.evtMask
  let irq : Int := if statusIrqMasked = 0#32 then -1 else Nat.log2 statusIrqMasked.toNat
  if e.isActive then ({ e with syncIrq := irq }, none)
  else if statusIrqMasked ≠ 0#32 ∧ statusEvtMasked = 0#32 then
    -- woken for the interrupt only; the read stays as it is
    ({ e with
      pendingElw := true
      irqWakeupEvent := enqueue e.irqWakeupEvent (now + wakeupLatency)
      syncIrq := if e.irqWakeupEvent.isSome then e.syncIrq else -1 }, none)
  else if statusEvtMasked = 0#32 then (e, none)
  else if e.pendingElw then ({ e with state := .skipElw }, none)
  else if e.state = .waitingEvent ∨ e.state = .waitingBarrier then
    let writes := e.pendingReq.isSome && ((e.state == .waitingEvent && e.pendingReqIsWait) ||
      e.state == .waitingBarrier)
    let woken := { e with state := .none }.checkWaitMask
    ({ woken with wakeupEvent := enqueue woken.wakeupEvent (now + (eventWakeupLatency + wakeupDelay)) },
      if writes then some statusEvtMasked else none)
  else (e, none)

def send (now : Int) (mask : BitVec 32) (delay : Int) : CoreEventUnit × Option (BitVec 32) :=
  { e with status := e.status ||| mask }.checkState now delay

/-- `unwake`: the core sleeps again; `none` where it was not about to wake. -/
def unwake (event : Nat) : Option CoreEventUnit :=
  if e.wakeupEvent = none ∨ e.pendingReq = none then none
  else some
    { e with
      wakeupEvent := none
      state := .waitingEvent
      clearEvtMask := 1#32 <<< event
      status := e.status &&& ~~~(1#32 <<< event) }

end CoreEventUnit

namespace EventUnit

variable (s : EventUnit)

def setCore (core : Nat) (e : CoreEventUnit) : EventUnit :=
  { s with core := update s.core core e }

def writeData (req : Nat) (value : BitVec 32) : EventUnit :=
  { s with data := update s.data req value }

/-- What a function of a core writes to the data of its pending request. -/
def applyCore (core : Nat) (r : CoreEventUnit × Option (BitVec 32)) : EventUnit :=
  match r.2, (s.core core).pendingReq with
  | some value, some req => (s.writeData req value).setCore core r.1
  | _, _ => s.setCore core r.1

def sendEvent (core : Nat) (mask : BitVec 32) (delay : Int) : EventUnit :=
  s.applyCore core ((s.core core).send s.now mask delay)

def triggerEvent (eventMask coreMask : BitVec 32) (delay : Int) : EventUnit :=
  (List.range s.nbCore).foldl
    (fun s i => if coreMask = 0#32 ∨ coreMask.getLsbD i then s.sendEvent i eventMask delay else s) s

/-- `wait_event` of a read that is not answered at once (`sync_if_ready` is false). -/
def waitEvent (core req : Nat) (waitState : CoreState) : EventUnit :=
  let e := s.core core
  if e.evtMask &&& e.status ≠ 0#32 then
    let e' := e.checkWaitMask
    (s.writeData req (e.evtMask &&& e.status)).setCore core
      { e' with pendingReq := some req, wakeupEvent := CoreEventUnit.enqueue e'.wakeupEvent (s.now + wakeupLatency) }
  else s.setCore core (e.putToSleep req waitState)

def checkPendingReq (core : Nat) : EventUnit :=
  match (s.core core).pendingReq with
  | some req => { s with answers := s.answers ++ [(req, s.data req)] }
  | none => s

/-- `wakeup_handler`, when the event of the core fires; `none` in other cycles. -/
def wakeupHandler (core : Nat) : Option EventUnit :=
  if (s.core core).wakeupEvent = some s.now then
    let s := (s.setCore core { s.core core with wakeupEvent := none, isActive := true }).checkPendingReq core
    some (s.applyCore core ((s.core core).checkState s.now 0))
  else none

/-- `demux_req` answers the next access of the core itself: it takes it for the wait that an interrupt has ended. -/
def skips (core : Nat) : Bool := (s.core core).state == .skipElw

/-- `demux_req`, up to the unit that is accessed. -/
def demuxReq (core : Nat) : EventUnit :=
  s.setCore core
    { s.core core with
      pendingElw := false
      pendingReqIsWait := false
      state := if s.skips core then .none else (s.core core).state }

/-- The next cycle, once the events of this one have fired. -/
def tick : Option EventUnit :=
  if ∀ core < s.nbCore, ∀ cycle, (s.core core).wakeupEvent = some cycle → s.now < cycle then
    some { s with now := s.now + 1 }
  else none

end EventUnit

/-! ## The phases of a core -/

namespace CoreEventUnit

/-- What all phases share: the events that are unmasked, no interrupt, no event buffered. -/
structure Quiet (evtMask : BitVec 32) (e : CoreEventUnit) : Prop where
  evtMask_eq : e.evtMask = evtMask
  irqMask : e.irqMask = 0#32
  status : e.status = 0#32
  pendingElw : e.pendingElw = false
  pendingReqIsWait : e.pendingReqIsWait = false

structure Running (evtMask : BitVec 32) (e : CoreEventUnit) : Prop extends Quiet evtMask e where
  isActive : e.isActive = true
  clearEvtMask : e.clearEvtMask = 0#32
  state : e.state = .none
  wakeupEvent : e.wakeupEvent = none

/-- The core sleeps on a read, until an event of the mask `bit`. -/
structure Asleep (evtMask bit : BitVec 32) (req : Nat) (waitState : CoreState) (e : CoreEventUnit) : Prop
    extends Quiet evtMask e where
  isActive : e.isActive = false
  clearEvtMask : e.clearEvtMask = bit
  state : e.state = waitState
  pendingReq : e.pendingReq = some req
  wakeupEvent : e.wakeupEvent = none

/-- The read of the core is answered in a cycle to come. -/
structure Waking (evtMask : BitVec 32) (req : Nat) (active : Bool) (cycle : Int) (e : CoreEventUnit) : Prop
    extends Quiet evtMask e where
  isActive : e.isActive = active
  clearEvtMask : e.clearEvtMask = 0#32
  state : e.state = .none
  pendingReq : e.pendingReq = some req
  wakeupEvent : e.wakeupEvent = some cycle

variable {evtMask bit : BitVec 32} {req : Nat} {e : CoreEventUnit}

theorem Running.sleep (h : Running evtMask e) (waitState : CoreState) :
    Asleep evtMask bit req waitState ({ e with clearEvtMask := bit }.putToSleep req waitState) :=
  ⟨{ h with }, rfl, rfl, rfl, rfl, h.wakeupEvent⟩

theorem Asleep.send {waitState : CoreState} (h : Asleep evtMask bit req waitState e) (hbit : bit &&& evtMask ≠ 0#32)
    (hwait : waitState = .waitingEvent ∨ waitState = .waitingBarrier) (now delay : Int) :
    Waking evtMask req false (now + (eventWakeupLatency + delay)) (e.send now bit delay).1 ∧
      (waitState = .waitingEvent → (e.send now bit delay).2 = none) := by
  have hne : bit ≠ 0#32 := fun h0 => hbit (by rw [h0, BitVec.zero_and])
  have hstate : e.state = .waitingEvent ∨ e.state = .waitingBarrier := by rw [h.state]; exact hwait
  have hstatus : e.status ||| bit = bit := by rw [h.status, BitVec.zero_or]
  have hcleared : bit &&& ~~~e.clearEvtMask = 0#32 := by rw [h.clearEvtMask]; exact BitVec.and_not_self bit
  have hclear : e.clearEvtMask ≠ 0#32 := by rw [h.clearEvtMask]; exact hne
  have hevt : bit &&& e.evtMask ≠ 0#32 := by rw [h.evtMask_eq]; exact hbit
  rw [CoreEventUnit.send, checkState]
  simp only [hstatus, h.irqMask, BitVec.and_zero, h.isActive, h.pendingElw, ne_eq, not_true_eq_false,
    false_and, if_false, Bool.false_eq_true, if_neg hevt, if_pos hstate, checkWaitMask, if_pos hclear, hcleared,
    h.wakeupEvent, enqueue]
  refine ⟨⟨⟨h.evtMask_eq, rfl, rfl, rfl, h.pendingReqIsWait⟩, rfl, rfl, rfl, h.pendingReq, rfl⟩, ?_⟩
  rintro rfl
  rw [h.pendingReqIsWait, h.pendingReq, h.state]
  rfl

theorem Waking.unwake {event : Nat} (h : Waking evtMask req false cycle e) :
    ∃ e', e.unwake event = some e' ∧ Asleep evtMask (1#32 <<< event) req .waitingEvent e' := by
  refine ⟨_, if_neg ?_, { h with status := ?_ }, h.isActive, rfl, rfl, h.pendingReq,
    rfl⟩
  · rw [h.wakeupEvent, h.pendingReq]
    simp
  · rw [h.status, BitVec.zero_and]

theorem Running.send {clearEvtMask : BitVec 32} (h : Running evtMask e) (now delay : Int) :
    (({ e with clearEvtMask := clearEvtMask } : CoreEventUnit).send now bit delay).2 = none ∧
      ∃ syncIrq, (({ e with clearEvtMask := clearEvtMask } : CoreEventUnit).send now bit delay).1 =
        { e with clearEvtMask := clearEvtMask, status := bit, syncIrq := syncIrq } := by
  have hstatus : e.status ||| bit = bit := by rw [h.status, BitVec.zero_or]
  rw [CoreEventUnit.send, checkState]
  rw [if_pos h.isActive, hstatus]
  exact ⟨rfl, _, rfl⟩

theorem Waking.wakeup (now : Int) (h : Waking evtMask req active cycle e) :
    Running evtMask (({ e with wakeupEvent := none, isActive := true } : CoreEventUnit).checkState now 0).1 ∧
      (({ e with wakeupEvent := none, isActive := true } : CoreEventUnit).checkState now 0).2 = none := by
  rw [checkState]
  rw [if_pos rfl]
  exact ⟨⟨{ h with }, rfl, h.clearEvtMask, h.state, rfl⟩, rfl⟩

end CoreEventUnit

/-! ## The events of the units -/

namespace EventUnit

open CoreEventUnit

variable {s : EventUnit} {core req : Nat} {eventMask coreMask evtMask bit : BitVec 32} {delay : Int}

theorem demuxReq_running (h : Running evtMask (s.core core)) : s.demuxReq core = s := by
  have hskips : s.skips core = false := by rw [skips, h.state]; rfl
  have he : ({ s.core core with pendingElw := false, pendingReqIsWait := false } : CoreEventUnit) = s.core core := by
    have hElw := h.pendingElw
    have hWait := h.pendingReqIsWait
    generalize s.core core = e at hElw hWait ⊢
    cases e
    simp only at hElw hWait
    rw [hElw, hWait]
  rw [demuxReq, hskips, if_neg Bool.false_ne_true, he, setCore, update_eq_self]

theorem waitEvent_running (h : Running evtMask (s.core core)) (waitState : CoreState) :
    ∃ e, Asleep evtMask bit req waitState e ∧
      (s.setCore core { s.core core with clearEvtMask := bit }).waitEvent core req waitState = s.setCore core e := by
  refine ⟨_, h.sleep waitState, ?_⟩
  have hstatus : (s.core core).evtMask &&& (s.core core).status = 0#32 := by rw [h.status, BitVec.and_zero]
  simp [waitEvent, setCore, hstatus]

theorem waitEvent_buffered {e : CoreEventUnit} {syncIrq : Int} (h : Running evtMask e) (hbit : evtMask &&& bit ≠ 0#32)
    (hs : s.core core = { e with clearEvtMask := bit, status := bit, syncIrq := syncIrq }) (waitState : CoreState) :
    ∃ e', Waking evtMask req true (s.now + wakeupLatency) e' ∧
      s.waitEvent core req waitState = (s.writeData req (evtMask &&& bit)).setCore core e' := by
  have hne : bit ≠ 0#32 := fun h0 => hbit (by rw [h0, BitVec.and_zero])
  have hevt : e.evtMask &&& bit ≠ 0#32 := by rw [h.evtMask_eq]; exact hbit
  have hcleared : (s.core core).checkWaitMask = { e with clearEvtMask := 0#32, status := 0#32, syncIrq :=
    syncIrq } := by
    rw [hs, checkWaitMask]
    rw [if_pos hne, BitVec.and_not_self]
    rfl
  rw [waitEvent]
  rw [hcleared, hs]
  rw [if_pos hevt, h.evtMask_eq]
  refine ⟨_, ?_, rfl⟩
  refine ⟨{ h with evtMask_eq := rfl, status := rfl }, h.isActive, rfl, h.state, rfl, ?_⟩
  rw [h.wakeupEvent]
  rfl

theorem applyCore_spec (r : CoreEventUnit × Option (BitVec 32)) :
    (s.applyCore core r).now = s.now ∧ (s.applyCore core r).nbCore = s.nbCore ∧
      (s.applyCore core r).answers = s.answers ∧ (s.applyCore core r).core = update s.core core r.1 ∧
      (r.2 = none → (s.applyCore core r).data = s.data) := by
  rw [applyCore]
  split
  case h_1 value req hvalue hreq =>
    exact ⟨rfl, rfl, rfl, rfl, fun h => by rw [h] at hvalue; cases hvalue⟩
  case h_2 => exact ⟨rfl, rfl, rfl, rfl, fun _ => rfl⟩

/-- What `trigger_event` does, of which the sends write no data. -/
structure Triggered (s : EventUnit) (eventMask coreMask : BitVec 32) (delay : Int) (nb : Nat)
    (s' : EventUnit) : Prop where
  now : s'.now = s.now
  nbCore : s'.nbCore = s.nbCore
  answers : s'.answers = s.answers
  sent : ∀ i < nb, coreMask = 0#32 ∨ coreMask.getLsbD i → s'.core i = ((s.core i).send s.now eventMask delay).1
  kept : ∀ i, ¬(i < nb ∧ (coreMask = 0#32 ∨ coreMask.getLsbD i)) → s'.core i = s.core i
  data : (∀ i < nb, coreMask = 0#32 ∨ coreMask.getLsbD i → ((s.core i).send s.now eventMask delay).2 = none) →
    s'.data = s.data

theorem triggered_range (nb : Nat) : Triggered s eventMask coreMask delay nb
    ((List.range nb).foldl
      (fun s i => if coreMask = 0#32 ∨ coreMask.getLsbD i then s.sendEvent i eventMask delay else s) s) := by
  induction nb with
  | zero => exact ⟨rfl, rfl, rfl, fun i hi => absurd hi (Nat.not_lt_zero i), fun _ _ => rfl, fun _ => rfl⟩
  | succ nb ih =>
    rw [List.range_succ, List.foldl_append, List.foldl_cons, List.foldl_nil]
    generalize (List.range nb).foldl _ s = s₁ at ih ⊢
    have hcore : s₁.core nb = s.core nb := ih.kept nb fun h => lt_irrefl _ h.1
    split
    case isTrue hmask =>
      obtain ⟨hnow, hnb, hans, hcores, hdata⟩ := applyCore_spec (s := s₁) ((s₁.core nb).send s₁.now eventMask delay)
      rw [sendEvent]
      rw [hcore, ih.now] at hcores hdata hnow hnb hans ⊢
      refine ⟨hnow, hnb.trans ih.nbCore, hans.trans ih.answers, fun i hi himask => ?_, fun i hi => ?_, fun hnone => ?_⟩
      · rw [hcores]
        rcases Nat.lt_succ_iff_lt_or_eq.1 hi with hlt | rfl
        · rw [update_of_ne hlt.ne, ih.sent i hlt himask]
        · rw [update_self]
      · rw [hcores, update_of_ne (fun heq => hi ⟨by omega, by rw [heq]; exact hmask⟩)]
        exact ih.kept i fun h => hi ⟨lt_succ_of_lt h.1, h.2⟩
      · rw [hdata (hnone nb (lt_succ_self nb) hmask)]
        exact ih.data fun i hi => hnone i (lt_succ_of_lt hi)
    case isFalse hmask =>
      refine ⟨ih.now, ih.nbCore, ih.answers, fun i hi himask => ?_, fun i hi => ?_,
        fun hnone => ih.data fun i hi => hnone i (lt_succ_of_lt hi)⟩
      · rcases Nat.lt_succ_iff_lt_or_eq.1 hi with hlt | rfl
        · exact ih.sent i hlt himask
        · exact absurd himask hmask
      · exact ih.kept i fun h => hi ⟨lt_succ_of_lt h.1, h.2⟩

/-- What `trigger_event` does to each core: to those of the mask, and to the others nothing. -/
theorem triggerEvent_spec (eventMask coreMask : BitVec 32) (delay : Int) :
    Triggered s eventMask coreMask delay s.nbCore (s.triggerEvent eventMask coreMask delay) :=
  triggered_range s.nbCore

theorem triggerEvent_asleep (delay : Int) (hcore : core < s.nbCore) (hnb : s.nbCore ≤ 32)
    (h : Asleep evtMask bit req .waitingEvent (s.core core)) (hbit : bit &&& evtMask ≠ 0#32) :
    ∃ e, Waking evtMask req false (s.now + (eventWakeupLatency + delay)) e ∧
      s.triggerEvent bit (1#32 <<< core) delay = s.setCore core e := by
  have hspec := triggerEvent_spec (s := s) bit (1#32 <<< core) delay
  have hsend := h.send hbit (Or.inl rfl) s.now delay
  have hmask : ∀ i, (1#32 <<< core = 0#32 ∨ (1#32 <<< core).getLsbD i = true) ↔ core = i := fun i => by
    have hlt : core < 32 := hcore.trans_le hnb
    rw [Lib.getLsbD_bit hlt, decide_eq_true_eq]
    exact ⟨fun h => h.resolve_left (Lib.bit_ne_zero hlt), Or.inr⟩
  refine ⟨_, hsend.1, ?_⟩
  generalize s.triggerEvent bit (1#32 <<< core) delay = s' at hspec
  obtain ⟨nb', now', core', data', answers'⟩ := s'
  have hdata : data' = s.data := hspec.data fun i _ hi => by rw [← (hmask i).1 hi]; exact hsend.2 rfl
  have hcores : core' = update s.core core ((s.core core).send s.now bit delay).1 := by
    funext i
    by_cases hi : core = i
    · subst hi
      rw [update_self]
      exact hspec.sent core hcore ((hmask core).2 rfl)
    · rw [update_of_ne (Ne.symm hi)]
      exact hspec.kept i fun h => hi ((hmask i).1 h.2)
  rw [setCore, ← hcores, ← hdata, ← hspec.now, ← hspec.nbCore, ← hspec.answers]

theorem sleep_trigger (delay : Int) (h : Running evtMask (s.core core)) (hcore : core < s.nbCore) (hnb : s.nbCore ≤ 32)
    (hbit : bit &&& evtMask ≠ 0#32) :
    ∃ e, Waking evtMask req false (s.now + (eventWakeupLatency + delay)) e ∧
      ((s.setCore core { s.core core with clearEvtMask := bit }).setCore core
        (({ s.core core with clearEvtMask := bit } : CoreEventUnit).putToSleep req .waitingEvent)).triggerEvent bit
          (1#32 <<< core) delay = s.setCore core e := by
  have hslept : Asleep evtMask bit req .waitingEvent
    (((s.setCore core { s.core core with clearEvtMask := bit }).setCore core
      (({ s.core core with clearEvtMask := bit } : CoreEventUnit).putToSleep req .waitingEvent)).core core) := by
    simp only [setCore, update_self]
    exact h.sleep .waitingEvent
  obtain ⟨e, he, htrigger⟩ := triggerEvent_asleep delay (s := (s.setCore core
    { s.core core with clearEvtMask := bit }).setCore core
      (({ s.core core with clearEvtMask := bit } : CoreEventUnit).putToSleep req .waitingEvent)) hcore hnb hslept hbit
  refine ⟨e, he, htrigger.trans ?_⟩
  simp [setCore]

theorem wakeupHandler_waking {s' : EventUnit}
    (h : Waking evtMask req active cycle (s.core core)) (hs : s.wakeupHandler core = some s') :
    s.now = cycle ∧ s'.now = s.now ∧ s'.nbCore = s.nbCore ∧ s'.data = s.data ∧
      s'.answers = s.answers ++ [(req, s.data req)] ∧
      ∃ e, Running evtMask e ∧ s'.core = update s.core core e := by
  rw [wakeupHandler] at hs
  split at hs
  case isFalse => cases hs
  case isTrue hnow =>
    cases hs
    have hup := h.wakeup s.now
    have hpending : (s.setCore core { s.core core with wakeupEvent := none, isActive := true }).checkPendingReq core =
        { s with
          core := update s.core core { s.core core with wakeupEvent := none, isActive := true }
          answers := s.answers ++ [(req, s.data req)] } := by
      simp [checkPendingReq, setCore, h.pendingReq]
    rw [hpending]
    dsimp only
    rw [update_self]
    obtain ⟨hnow', hnb, hans, hcores, hdata⟩ := applyCore_spec
      (s := { s with
        core := update s.core core { s.core core with wakeupEvent := none, isActive := true }
        answers := s.answers ++ [(req, s.data req)] })
      (({ s.core core with wakeupEvent := none, isActive := true } : CoreEventUnit).checkState s.now 0)
    refine ⟨Option.some.inj (hnow.symm.trans h.wakeupEvent), hnow', hnb, hdata hup.2, hans, _, hup.1, hcores.trans ?_⟩
    exact update_idem _ _ _

end EventUnit

end GvsocPulp.EventUnitV3
