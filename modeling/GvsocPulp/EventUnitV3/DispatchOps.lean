import GvsocPulp.EventUnitV3.Dispatch

/-!
# The event unit: what the dispatch FIFO keeps for a core

The unit as one core sees it (`CoreView`: its tail, its bit of the masks of the entries, its event buffer) and what all
cores share (`Shared`). An operation for one core leaves the views of the others alone.

- `bypass_view`, `wakeWaiting_team`, `wakeWaiting_other`: the operations for one core;
- `push_spec`: a push, with all the cores that sleep at its entry.
-/

namespace GvsocPulp.EventUnitV3

open Lib CoreEventUnit Function List

/-! ## Views -/

/-- What the unit keeps for one core. -/
@[ext]
structure CoreView where
  tail : Nat
  status : Nat → Bool
  waiting : Nat → Bool
  waitingReqs : Nat → Option Nat
  eu : CoreEventUnit

structure Shared where
  size : Nat
  dispatchEvent : Nat
  fifoHead : Nat
  config : BitVec 32
  value : Nat → BitVec 32
  team : Nat → BitVec 32
  now : Int
  nbCore : Nat
  answers : List (Nat × BitVec 32)

namespace DispatchUnit

def view (u : DispatchUnit) (core : Nat) : CoreView where
  tail := u.tail core
  status := fun id => (u.dispatches id).statusMask.getLsbD core
  waiting := fun id => (u.dispatches id).waitingMask.getLsbD core
  waitingReqs := fun id => (u.dispatches id).waitingReqs core
  eu := u.top.core core

def shared (u : DispatchUnit) : Shared where
  size := u.size
  dispatchEvent := u.dispatchEvent
  fifoHead := u.fifoHead
  config := u.config
  value := fun id => (u.dispatches id).value
  team := fun id => (u.dispatches id).configMask
  now := u.top.now
  nbCore := u.top.nbCore
  answers := u.top.answers

variable {u : DispatchUnit} {id core other req : Nat}

/-- The event that all cores have unmasked. -/
abbrev eventBit (u : DispatchUnit) : BitVec 32 := 1#32 <<< u.dispatchEvent

theorem view_setDispatch (d : Dispatch) : (u.setDispatch id d).view core =
    { u.view core with
      status := update (u.view core).status id (d.statusMask.getLsbD core)
      waiting := update (u.view core).waiting id (d.waitingMask.getLsbD core)
      waitingReqs := update (u.view core).waitingReqs id (d.waitingReqs core) } := by
  have hupdate : ∀ {β : Type} (f : Dispatch → β), (fun j => f (update u.dispatches id d j)) =
      update (fun j => f (u.dispatches j)) id (f d) := fun f => comp_update f u.dispatches id d
  exact CoreView.ext rfl (hupdate fun d => d.statusMask.getLsbD core) (hupdate fun d => d.waitingMask.getLsbD core)
    (hupdate fun d => d.waitingReqs core) rfl

theorem shared_setDispatch (d : Dispatch) : (u.setDispatch id d).shared =
    { u.shared with
      value := update u.shared.value id d.value
      team := update u.shared.team id d.configMask } := by
  have hupdate : ∀ (f : Dispatch → BitVec 32), (fun j => f (update u.dispatches id d j)) =
      update (fun j => f (u.dispatches j)) id (f d) := fun f => comp_update f u.dispatches id d
  rw [shared, setDispatch]
  rw [hupdate (·.value), hupdate (·.configMask)]
  rfl

/-- An operation for one core: what the others see, and what all share, stays. -/
structure Only (u u' : DispatchUnit) (core : Nat) : Prop where
  shared : u'.shared = u.shared
  view : ∀ other ≠ core, u'.view other = u.view other

variable {u' : DispatchUnit}

theorem Only.trans {u'' : DispatchUnit} (h : Only u u' core) (h' : Only u' u'' core) : Only u u'' core :=
  ⟨h'.shared.trans h.shared, fun other hne => (h'.view other hne).trans (h.view other hne)⟩

theorem Only.eventBit_eq (h : Only u u' core) : u'.eventBit = u.eventBit := by
  have hevent : u'.dispatchEvent = u.dispatchEvent := congrArg Shared.dispatchEvent h.shared
  rw [eventBit, hevent]

theorem only_setDispatch {d : Dispatch} (hvalue : d.value = (u.dispatches id).value)
    (hconfig : d.configMask = (u.dispatches id).configMask)
    (hstatus : ∀ other ≠ core, d.statusMask.getLsbD other = (u.dispatches id).statusMask.getLsbD other)
    (hwaiting : ∀ other ≠ core, d.waitingMask.getLsbD other = (u.dispatches id).waitingMask.getLsbD other)
    (hreqs : ∀ other ≠ core, d.waitingReqs other = (u.dispatches id).waitingReqs other) :
    Only u (u.setDispatch id d) core := by
  refine ⟨?_, fun other hne => ?_⟩
  · have hv : update u.shared.value id (u.dispatches id).value = u.shared.value := update_eq_self id _
    have ht : update u.shared.team id (u.dispatches id).configMask = u.shared.team := update_eq_self id _
    rw [shared_setDispatch, hvalue, hconfig, hv, ht]
  · have hs : update (u.view other).status id ((u.dispatches id).statusMask.getLsbD other) = (u.view other).status :=
      update_eq_self id _
    have hw : update (u.view other).waiting id ((u.dispatches id).waitingMask.getLsbD other) =
        (u.view other).waiting := update_eq_self id _
    have hr : update (u.view other).waitingReqs id ((u.dispatches id).waitingReqs other) =
        (u.view other).waitingReqs := update_eq_self id _
    rw [view_setDispatch, hstatus other hne, hwaiting other hne, hreqs other hne, hs, hw, hr]

theorem only_advance : Only u (u.advance core) core :=
  ⟨rfl, fun other hne => by
    rw [view, view, advance]
    dsimp only
    rw [update_of_ne hne]⟩

theorem view_advance : (u.advance core).view core = { u.view core with tail := u.next (u.tail core) } := by
  rw [view, advance]
  dsimp only
  rw [update_self]
  rfl

theorem only_setCore {e : CoreEventUnit} : Only u { u with top := u.top.setCore core e } core :=
  ⟨rfl, fun other hne => by
    rw [view, view, EventUnit.setCore]
    dsimp only
    rw [update_of_ne hne]⟩

theorem view_setCore {e : CoreEventUnit} :
    ({ u with top := u.top.setCore core e } : DispatchUnit).view core = { u.view core with eu := e } := by
  rw [view, EventUnit.setCore]
  dsimp only
  rw [update_self]
  rfl

/-! ## The operations for one core -/

theorem skip_view (hcore : core < 32) :
    Only u ((u.clearStatus (u.tail core) core).advance core) core ∧
      ((u.clearStatus (u.tail core) core).advance core).view core =
        { u.view core with
          tail := u.next (u.tail core)
          status := update (u.view core).status (u.tail core) false } := by
  have honly : Only u (u.clearStatus (u.tail core) core) core := only_setDispatch rfl rfl
    (fun _ hne => getLsbD_andNot_bit_of_ne hcore hne) (fun _ _ => rfl) fun _ _ => rfl
  refine ⟨honly.trans only_advance, ?_⟩
  have hw : update (u.view core).waiting (u.tail core) ((u.dispatches (u.tail core)).waitingMask.getLsbD core) =
      (u.view core).waiting := update_eq_self _ _
  have hr : update (u.view core).waitingReqs (u.tail core) ((u.dispatches (u.tail core)).waitingReqs core) =
      (u.view core).waitingReqs := update_eq_self _ _
  rw [view_advance, clearStatus, view_setDispatch, hw, hr, getLsbD_andNot_bit_self hcore]
  rfl

theorem leave_view (hcore : core < 32) :
    Only u (u.leave id core) core ∧
      (u.leave id core).view core =
        { u.view core with
          tail := u.next (u.tail core)
          status := update (u.view core).status id false
          waiting := update (u.view core).waiting id false } := by
  have honly : Only u (u.setDispatch id { u.dispatches id with
      statusMask := (u.dispatches id).statusMask &&& ~~~(1#32 <<< core)
      waitingMask := (u.dispatches id).waitingMask &&& ~~~(1#32 <<< core) }) core :=
    only_setDispatch rfl rfl (fun _ hne => getLsbD_andNot_bit_of_ne hcore hne)
      (fun _ hne => getLsbD_andNot_bit_of_ne hcore hne) fun _ _ => rfl
  refine ⟨honly.trans only_advance, ?_⟩
  have hr : update (u.view core).waitingReqs id ((u.dispatches id).waitingReqs core) = (u.view core).waitingReqs :=
    update_eq_self _ _
  rw [leave]
  rw [view_advance, view_setDispatch]
  rw [getLsbD_andNot_bit_self hcore, getLsbD_andNot_bit_self hcore, hr]
  rfl

theorem queue_view (hcore : core < 32) {v w : DispatchUnit} (hv : v.dispatches = u.dispatches)
    (hw : w = v.setDispatch id { u.dispatches id with
      waitingReqs := update (u.dispatches id).waitingReqs core (some req)
      waitingMask := (u.dispatches id).waitingMask ||| 1#32 <<< core }) :
    Only v w core ∧ w.view core =
      { v.view core with
        waiting := update (v.view core).waiting id true
        waitingReqs := update (v.view core).waitingReqs id (some req) } := by
  subst hw
  rw [← hv]
  refine ⟨only_setDispatch rfl rfl (fun _ _ => rfl) (fun other hne => ?_) fun other hne => ?_, ?_⟩
  · rw [getLsbD_or_bit_of_ne hne]
  · exact update_of_ne hne _ _
  · have hs : update (v.view core).status id ((v.dispatches id).statusMask.getLsbD core) = (v.view core).status :=
      update_eq_self _ _
    have hw : ((v.dispatches id).waitingMask ||| 1#32 <<< core).getLsbD core = true := by
      rw [getLsbD_or_bit hcore]
      simp
    rw [view_setDispatch]
    dsimp only
    rw [hs, hw, update_self]

theorem enqueueSleep_running (h : Running u.eventBit (u.top.core core)) (hcore : core < 32) :
    ∃ e, Asleep u.eventBit u.eventBit req .waitingEvent e ∧ Only u (u.enqueueSleep id req core true) core ∧
      (u.enqueueSleep id req core true).top.data = u.top.data ∧
      (u.enqueueSleep id req core true).view core =
        { u.view core with
          waiting := update (u.view core).waiting id true
          waitingReqs := update (u.view core).waitingReqs id (some req)
          eu := e } := by
  obtain ⟨e, he, hwait⟩ := u.top.waitEvent_running h .waitingEvent
  obtain ⟨honly, hview⟩ := queue_view (u := u) (v := { u with top := u.top.setCore core e }) hcore rfl rfl
  refine ⟨e, he, ?_⟩
  rw [enqueueSleep, clearsEvent]
  rw [if_pos rfl, hwait]
  refine ⟨only_setCore.trans honly, rfl, hview.trans ?_⟩
  rw [view_setCore]

theorem enqueueSleep_asleep {req' : Nat} (h : Asleep u.eventBit u.eventBit req' .waitingEvent (u.top.core core))
    (hcore : core < 32) :
    ∃ e, Asleep u.eventBit u.eventBit req .waitingEvent e ∧ Only u (u.enqueueSleep id req core false) core ∧
      (u.enqueueSleep id req core false).top.data = u.top.data ∧
      (u.enqueueSleep id req core false).view core =
        { u.view core with
          waiting := update (u.view core).waiting id true
          waitingReqs := update (u.view core).waitingReqs id (some req)
          eu := e } := by
  obtain ⟨e, he⟩ : ∃ e, e = ({ u.top.core core with clearEvtMask := u.eventBit } : CoreEventUnit).putToSleep req
    .waitingEvent := ⟨_, rfl⟩
  have hasleep : Asleep u.eventBit u.eventBit req .waitingEvent e := by
    rw [he]
    exact ⟨{ h with }, rfl, rfl, rfl, rfl, h.wakeupEvent⟩
  obtain ⟨honly, hview⟩ := queue_view (u := u) (v := { u with top := u.top.setCore core e }) hcore rfl rfl
  refine ⟨e, hasleep, ?_⟩
  have htop : (u.clearsEvent core).setCore core (((u.clearsEvent core).core core).putToSleep req .waitingEvent) =
      u.top.setCore core e := by
    rw [he, clearsEvent]
    simp [EventUnit.setCore]
  rw [enqueueSleep]
  rw [if_neg Bool.false_ne_true, htop]
  refine ⟨only_setCore.trans honly, rfl, hview.trans ?_⟩
  rw [view_setCore]

/-- A push for a core that sleeps at its entry: the core is woken. -/
theorem wakeWaiting_team (hcore : core < u.top.nbCore) (hnb : u.top.nbCore ≤ 32) (hevent : u.dispatchEvent < 32)
    (h : Asleep u.eventBit u.eventBit req .waitingEvent (u.top.core core))
    (hreq : (u.dispatches id).waitingReqs core = some req) (hteam : (u.dispatches id).configMask.getLsbD core = true) :
    ∃ e, Waking u.eventBit req false (u.top.now + 1) e ∧ Only u (u.wakeWaiting id core) core ∧
      (u.wakeWaiting id core).top.data = update u.top.data req (u.dispatches id).value ∧
      (u.wakeWaiting id core).view core =
        { u.view core with
          tail := u.next (u.tail core)
          status := update (u.view core).status id false
          waiting := update (u.view core).waiting id false
          eu := e } := by
  have hbit : u.eventBit &&& u.eventBit ≠ 0#32 := by rw [BitVec.and_self]; exact bit_ne_zero hevent
  obtain ⟨e, he, htrigger⟩ := EventUnit.triggerEvent_asleep 0
    (s := u.top.writeData req (u.dispatches id).value) hcore hnb h hbit
  obtain ⟨honly, hview⟩ := leave_view (u := u) (hcore.trans_le hnb)
  refine ⟨e, he, ?_⟩
  have hwake : u.wakeWaiting id core =
      { u.leave id core with top := (u.top.writeData req (u.dispatches id).value).setCore core e } := by
    rw [wakeWaiting]
    rw [hreq]
    dsimp only
    rw [if_pos hteam, htrigger]
  have honly' : Only (u.leave id core) (u.wakeWaiting id core) core := by
    rw [hwake]
    exact (only_setCore (u := u.leave id core) (e := e)).trans ⟨rfl, fun _ _ => rfl⟩
  refine ⟨honly.trans honly', by rw [hwake]; rfl, ?_⟩
  have hview' : (u.wakeWaiting id core).view core = { (u.leave id core).view core with eu := e } := by
    rw [hwake]
    exact view_setCore (u := u.leave id core)
  rw [hview', hview]

theorem wakeWaiting_other (hcore : core < 32) (h : Asleep u.eventBit u.eventBit req .waitingEvent (u.top.core core))
    (hreq : (u.dispatches id).waitingReqs core = some req) (hteam : (u.dispatches id).configMask.getLsbD core = false) :
    ∃ e, Asleep u.eventBit u.eventBit req .waitingEvent e ∧ Only u (u.wakeWaiting id core) core ∧
      (u.wakeWaiting id core).top.data = u.top.data ∧
      (u.wakeWaiting id core).view core =
        { u.view core with
          tail := u.next (u.tail core)
          status := update (u.view core).status id false
          waiting := update (update (u.view core).waiting id false) (u.next (u.tail core)) true
          waitingReqs := update (u.view core).waitingReqs (u.next (u.tail core)) (some req)
          eu := e } := by
  obtain ⟨honly, hview⟩ := leave_view (u := u) hcore
  obtain ⟨e, he, honly', hdata, hview'⟩ := enqueueSleep_asleep (u := u.leave id core)
    h hcore
  refine ⟨e, he, ?_⟩
  have hwake : u.wakeWaiting id core = (u.leave id core).enqueueSleep (u.next (u.tail core)) req core false := by
    rw [wakeWaiting]
    rw [hreq]
    dsimp only
    rw [hteam, if_neg Bool.false_ne_true]
  rw [hwake]
  refine ⟨honly.trans honly', hdata, ?_⟩
  rw [hview', hview]

/-! ## Pops -/

section

variable (hu' : u.bypass core u.size = u') (honly : Only u u' core) (htop : u'.top = u.top)
  (h : Running u.eventBit (u.top.core core))
include hu' honly htop h

theorem pop_takes (hcore : core < u.top.nbCore) (hnb : u.top.nbCore ≤ 32)
    (hevent : u.dispatchEvent < 32) (hstatus : (u'.dispatches (u'.tail core)).statusMask.getLsbD core = true)
    (hteam : (u'.dispatches (u'.tail core)).configMask.getLsbD core = true) :
    ∃ e, Waking u.eventBit req false (u.top.now + 1) e ∧ Only u (u.pop req core) core ∧
      (u.pop req core).top.data = update u.top.data req (u'.dispatches (u'.tail core)).value ∧
      (u.pop req core).view core =
        { u'.view core with
          tail := u'.next (u'.tail core)
          status := update (u'.view core).status (u'.tail core) false
          eu := e } := by
  have hbit : u.eventBit &&& u.eventBit ≠ 0#32 := by rw [BitVec.and_self]; exact bit_ne_zero hevent
  have hevent' : u'.dispatchEvent = u.dispatchEvent := congrArg Shared.dispatchEvent honly.shared
  obtain ⟨honly', hview⟩ := skip_view (u := u') (hcore.trans_le hnb)
  obtain ⟨e, he, htrigger⟩ := EventUnit.sleep_trigger 0
    (s := u.top.writeData req (u'.dispatches (u'.tail core)).value) h hcore hnb hbit
  refine ⟨e, he, ?_⟩
  obtain ⟨w, hw⟩ : ∃ w, w = (u'.clearStatus (u'.tail core) core).advance core := ⟨_, rfl⟩
  have hpop : u.pop req core =
      { w with top := (u.top.writeData req (u'.dispatches (u'.tail core)).value).setCore core e } := by
    rw [pop, hu']
    dsimp only [clearsEvent]
    rw [if_pos hstatus, if_pos hteam, htop, hevent', hw]
    simp only [EventUnit.setCore, EventUnit.writeData, update_self, update_idem] at htrigger ⊢
    rw [htrigger]
  have hwtop : w.top = u.top := by rw [hw]; exact htop
  have honly'' : Only w (u.pop req core) core := by
    rw [hpop, ← hwtop]
    exact (only_setCore (u := w) (e := e)).trans ⟨rfl, fun _ _ => rfl⟩
  rw [← hw] at honly' hview
  refine ⟨(honly.trans honly').trans honly'', by rw [hpop]; rfl, ?_⟩
  have hview' : (u.pop req core).view core = { w.view core with eu := e } := by
    rw [hpop, ← hwtop]
    exact view_setCore (u := w)
  rw [hview', hview]

theorem pop_sleeps (hcore : core < 32) (hstatus : (u'.dispatches (u'.tail core)).statusMask.getLsbD core = false) :
    ∃ e, Asleep u.eventBit u.eventBit req .waitingEvent e ∧ Only u (u.pop req core) core ∧
      (u.pop req core).top.data = u.top.data ∧
      (u.pop req core).view core =
        { u'.view core with
          waiting := update (u'.view core).waiting (u'.tail core) true
          waitingReqs := update (u'.view core).waitingReqs (u'.tail core) (some req)
          eu := e } := by
  have hbit := honly.eventBit_eq
  obtain ⟨e, he, honly', hdata, hview⟩ := enqueueSleep_running (u := u')
    (by rw [hbit, htop]; exact h) hcore
  have hpop : u.pop req core = u'.enqueueSleep (u'.tail core) req core true := by
    rw [pop, hu']
    rw [hstatus, if_neg Bool.false_ne_true]
  rw [hpop]
  exact ⟨e, hbit ▸ he, honly.trans honly', hdata.trans (by rw [htop]), hview⟩

end

/-! ## Pushes -/

/-- What a push does for a core that sleeps at its entry. -/
inductive Pushed (u : DispatchUnit) (id core req : Nat) (v : CoreView) : Prop
  | team (e : CoreEventUnit) (hteam : (u.dispatches id).configMask.getLsbD core = true)
    (he : Waking u.eventBit req false (u.top.now + 1) e)
    (hv : v = { u.view core with
      tail := u.next (u.tail core)
      status := update (u.view core).status id false
      waiting := update (u.view core).waiting id false
      eu := e })
  | other (e : CoreEventUnit) (hteam : (u.dispatches id).configMask.getLsbD core = false)
    (he : Asleep u.eventBit u.eventBit req .waitingEvent e)
    (hv : v = { u.view core with
      tail := u.next (u.tail core)
      status := update (u.view core).status id false
      waiting := update (update (u.view core).waiting id false) (u.next (u.tail core)) true
      waitingReqs := update (u.view core).waitingReqs (u.next (u.tail core)) (some req)
      eu := e })

/-- A push has gone through some of the cores that sleep at its entry. -/
structure PushedTo (u : DispatchUnit) (id : Nat) (reqs : Nat → Nat) (done : List Nat) (u' : DispatchUnit) : Prop where
  shared : u'.shared = u.shared
  others : ∀ core ∉ done, u'.view core = u.view core
  pushed : ∀ core ∈ done, Pushed u id core (reqs core) (u'.view core)
  data : ∀ core ∈ done, (u.dispatches id).configMask.getLsbD core = true →
    u'.top.data (reqs core) = (u.dispatches id).value
  dataOther : ∀ r, (∀ core ∈ done, reqs core ≠ r) → u'.top.data r = u.top.data r

variable {reqs : Nat → Nat}

theorem pushedTo_nil : PushedTo u id reqs [] u :=
  ⟨rfl, fun _ _ => rfl, fun _ h => absurd h not_mem_nil, fun _ h => absurd h not_mem_nil, fun _ _ => rfl⟩

/-- A push goes on to the next core that sleeps at its entry. -/
theorem PushedTo.step {done : List Nat} (h : PushedTo u id reqs done u') (hnot : core ∉ done)
    (hcore : core < u.top.nbCore) (hnb : u.top.nbCore ≤ 32) (hevent : u.dispatchEvent < 32)
    (hasleep : Asleep u.eventBit u.eventBit (reqs core) .waitingEvent (u.top.core core))
    (hreq : (u.dispatches id).waitingReqs core = some (reqs core)) (hinj : ∀ c ∈ done, reqs c ≠ reqs core) :
    PushedTo u id reqs (done ++ [core]) (u'.wakeWaiting id core) := by
  have hview := h.others core hnot
  -- what the operation reads is as it was before the push
  have hnb' : u'.top.nbCore = u.top.nbCore := congrArg Shared.nbCore h.shared
  have hevent' : u'.dispatchEvent = u.dispatchEvent := congrArg Shared.dispatchEvent h.shared
  have hnow : u'.top.now = u.top.now := congrArg Shared.now h.shared
  have hteamEq : (u'.dispatches id).configMask = (u.dispatches id).configMask :=
    congrFun (congrArg Shared.team h.shared) id
  have hvalueEq : (u'.dispatches id).value = (u.dispatches id).value := congrFun (congrArg Shared.value h.shared) id
  have hbit : u'.eventBit = u.eventBit := by rw [eventBit, hevent']
  have heu : u'.top.core core = u.top.core core := congrArg CoreView.eu hview
  have hreq' : (u'.dispatches id).waitingReqs core = some (reqs core) :=
    (congrFun (congrArg CoreView.waitingReqs hview) id).trans hreq
  have hnext : u'.next (u'.tail core) = u.next (u.tail core) := by
    have hsize : u'.size = u.size := congrArg Shared.size h.shared
    have htail : u'.tail core = u.tail core := congrArg CoreView.tail hview
    rw [next, next, hsize, htail]
  have hasleep' : Asleep u'.eventBit u'.eventBit (reqs core) .waitingEvent (u'.top.core core) := by
    rw [hbit, heu]
    exact hasleep
  have hcore' : core < u'.top.nbCore := hnb' ▸ hcore
  -- what it does to the others
  have hothers : ∀ {u''}, Only u' u'' core → ∀ c ∉ done ++ [core], u''.view c = u.view c := fun honly c hc => by
    rw [mem_append, mem_singleton, not_or] at hc
    rw [honly.view c hc.2, h.others c hc.1]
  have hdone : ∀ {u''}, Only u' u'' core → Pushed u id core (reqs core) (u''.view core) → ∀ c ∈ done ++ [core],
      Pushed u id c (reqs c) (u''.view c) := fun honly hself c hc => by
    by_cases hc' : c = core
    · exact hc' ▸ hself
    · rw [mem_append, mem_singleton] at hc
      rw [honly.view c hc']
      exact h.pushed c (hc.resolve_right hc')
  cases hteam : (u.dispatches id).configMask.getLsbD core with
  | true =>
    obtain ⟨e, he, honly, hdata, hv⟩ := wakeWaiting_team hcore' (hnb' ▸ hnb) (hevent' ▸ hevent) hasleep' hreq'
      (by rw [hteamEq]; exact hteam)
    rw [hbit, hnow] at he
    rw [hnext, hview] at hv
    rw [hvalueEq] at hdata
    refine ⟨honly.shared.trans h.shared, hothers honly, hdone honly (.team e hteam he hv), fun c hc hteam' => ?_,
      fun r hr => ?_⟩
    · rw [hdata]
      rw [mem_append, mem_singleton] at hc
      rcases hc with hc | rfl
      · rw [update_of_ne (hinj c hc)]
        exact h.data c hc hteam'
      · rw [update_self]
    · rw [hdata, update_of_ne (hr core (by simp)).symm]
      exact h.dataOther r fun c hc => hr c (mem_append_left _ hc)
  | false =>
    obtain ⟨e, he, honly, hdata, hv⟩ := wakeWaiting_other (hcore.trans_le hnb) hasleep' hreq'
      (by rw [hteamEq]; exact hteam)
    rw [hbit] at he
    rw [hnext, hview] at hv
    refine ⟨honly.shared.trans h.shared, hothers honly, hdone honly (.other e hteam he hv), fun c hc hteam' => ?_,
      fun r hr => ?_⟩
    · rw [hdata]
      rw [mem_append, mem_singleton] at hc
      rcases hc with hc | rfl
      · exact h.data c hc hteam'
      · rw [hteam] at hteam'
        cases hteam'
    · rw [hdata]
      exact h.dataOther r fun c hc => hr c (mem_append_left _ hc)

theorem pushedTo_foldl {todo : List Nat} (hnb : u.top.nbCore ≤ 32) (hevent : u.dispatchEvent < 32)
    (htodo : ∀ core ∈ todo, core < u.top.nbCore ∧
      Asleep u.eventBit u.eventBit (reqs core) .waitingEvent (u.top.core core) ∧
      (u.dispatches id).waitingReqs core = some (reqs core)) :
    ∀ {done : List Nat} {u' : DispatchUnit}, PushedTo u id reqs done u' → (done ++ todo).Nodup →
      (∀ c ∈ done ++ todo, ∀ c' ∈ done ++ todo, reqs c = reqs c' → c = c') →
      PushedTo u id reqs (done ++ todo) (todo.foldl (fun u i => u.wakeWaiting id i) u') := by
  induction todo with
  | nil =>
    intro done u' h _ _
    rw [append_nil]
    exact h
  | cons core todo ih =>
    intro done u' h hnd hinj
    obtain ⟨hcore, hasleep, hreq⟩ := htodo core mem_cons_self
    have hnot : core ∉ done := fun hc => (nodup_append.1 hnd).2.2 core hc core mem_cons_self rfl
    have hstep := h.step hnot hcore hnb hevent hasleep hreq fun c hc heq =>
      hnot (hinj c (mem_append_left _ hc) core (by simp) heq ▸ hc)
    rw [foldl_cons, ← singleton_append, ← append_assoc]
    rw [← singleton_append, ← append_assoc] at hnd hinj
    exact ih (fun c hc => htodo c (mem_cons_of_mem _ hc)) hstep hnd hinj

/-- The entry of a push, before the cores that sleep at it are gone through. -/
def stored (u : DispatchUnit) (value : BitVec 32) : DispatchUnit :=
  { u with fifoHead := u.next u.fifoHead }.setDispatch u.fifoHead
    { u.dispatches u.fifoHead with configMask := u.config, value := value, statusMask := BitVec.allOnes 32 }

theorem stored_entry {value : BitVec 32} : (u.stored value).dispatches u.fifoHead =
    { u.dispatches u.fifoHead with configMask := u.config, value := value, statusMask := BitVec.allOnes 32 } :=
  update_self _ _ _

theorem stored_view (value : BitVec 32) (hcore : core < 32) : (u.stored value).view core =
    { u.view core with status := update (u.view core).status u.fifoHead true } := by
  have hw : update (u.view core).waiting u.fifoHead ((u.dispatches u.fifoHead).waitingMask.getLsbD core) =
      (u.view core).waiting := update_eq_self _ _
  have hr : update (u.view core).waitingReqs u.fifoHead ((u.dispatches u.fifoHead).waitingReqs core) =
      (u.view core).waitingReqs := update_eq_self _ _
  have hs : (BitVec.allOnes 32).getLsbD core = true := by rw [BitVec.getLsbD_allOnes, decide_eq_true hcore]
  rw [stored, view_setDispatch]
  rw [hs]
  exact CoreView.ext rfl rfl hw hr rfl

/-- The cores that sleep at the entry of a push. -/
def waitingCores (u : DispatchUnit) : List Nat :=
  (List.range 32).filter fun i => (u.dispatches u.fifoHead).waitingMask.getLsbD i

/-- **A push** gives its value to the cores of the team that sleep at its entry, and sends the others on. -/
theorem push_spec (value : BitVec 32) (hnb : u.top.nbCore ≤ 32) (hevent : u.dispatchEvent < 32)
    (hwaiting : ∀ core, (u.dispatches u.fifoHead).waitingMask.getLsbD core = true → core < u.top.nbCore ∧
      Asleep u.eventBit u.eventBit (reqs core) .waitingEvent (u.top.core core) ∧
      (u.dispatches u.fifoHead).waitingReqs core = some (reqs core))
    (hinj : ∀ c c', (u.dispatches u.fifoHead).waitingMask.getLsbD c = true →
      (u.dispatches u.fifoHead).waitingMask.getLsbD c' = true → reqs c = reqs c' → c = c') :
    PushedTo (u.stored value) u.fifoHead reqs u.waitingCores (u.push value) := by
  have hmem : ∀ c ∈ u.waitingCores, (u.dispatches u.fifoHead).waitingMask.getLsbD c = true := fun c hc =>
    (mem_filter.1 hc).2
  have hpush : u.push value = u.waitingCores.foldl (fun u' i => u'.wakeWaiting u.fifoHead i) (u.stored value) := by
    rw [push, waitingCores]
    rw [BitVec.and_allOnes]
    rfl
  rw [hpush]
  have hfold := pushedTo_foldl (u := u.stored value) hnb hevent
    (fun c hc => ⟨(hwaiting c (hmem c hc)).1, (hwaiting c (hmem c hc)).2.1, by
      rw [stored_entry]; exact (hwaiting c (hmem c hc)).2.2⟩)
    pushedTo_nil (nodup_range.filter _) fun c hc c' hc' => hinj c c' (hmem c hc) (hmem c' hc')
  rw [nil_append] at hfold
  exact hfold

end DispatchUnit

end GvsocPulp.EventUnitV3
