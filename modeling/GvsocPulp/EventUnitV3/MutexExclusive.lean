import GvsocPulp.EventUnitV3.MutexInv

/-!
# The event unit: mutual exclusion

- `Exclusive`: what holds in every state of a run;
- `unlock_elects`: an unlock elects the lowest core that waits;
- `served`: how many unlocks a core waits for at most, its election taken over or not;
- `mutex_exclusive`: all of it, over whole runs.
-/

namespace GvsocPulp.EventUnitV3

open Lib CoreEventUnit Function List Option MutexUnit MutexEvent MutexSystem

variable {value : BitVec 32} {u : MutexUnit} {id' : Nat} {top : EventUnit} {event : MutexEvent}
  {events : List MutexEvent}

namespace MutexSystem

/-- A read waits in the queue of a locked mutex: its core sleeps. -/
structure Queued (s : MutexSystem) (core id req : Nat) : Prop where
  waits : s.Waits core id req
  locked : (s.unit.mutexes id).locked = true
  queued : (s.unit.mutexes id).waitingMask.getLsbD core = true
  asleep : (s.unit.top.core core).isActive = false ∧ (s.unit.top.core core).pendingReq = some req ∧
    (s.unit.top.core core).wakeupEvent = none

/-- A mutex that nobody holds is about to be given to a core: its read is answered in the cycle after the election. -/
structure Elected (s : MutexSystem) (core id req : Nat) : Prop where
  waits : s.Waits core id req
  locked : (s.unit.mutexes id).locked = true
  unqueued : (s.unit.mutexes id).waitingMask.getLsbD core = false
  elected : (s.unit.mutexes id).elected = core
  unheld : s.holders id = []
  cycle_le : s.unit.top.now ≤ (s.unit.mutexes id).electCycle + 1
  wakes : (s.unit.top.core core).isActive = false ∧ (s.unit.top.core core).pendingReq = some req ∧
    (s.unit.top.core core).wakeupEvent = some ((s.unit.mutexes id).electCycle + 1)

/-- **Mutual exclusion.** -/
structure Exclusive (s : MutexSystem) : Prop where
  /-- At most one core has been answered for a mutex without having unlocked it. -/
  oneHolder : ∀ id, (s.holders id).length ≤ 1
  /-- No read is answered twice, or with another value than that of the last unlock. -/
  answeredOnce : s.answered.Nodup
  rightValue : ∀ answer ∈ s.answers, answer.value = answer.unlocked
  /-- A read that has not been answered is still in the queue, or on its way. -/
  pending : ∀ core id req, s.Waits core id req → s.Queued core id req ∨ s.Elected core id req
  /-- A locked mutex has a holder, or is about to be given. -/
  owned : ∀ id, (s.unit.mutexes id).locked = true →
    (∃ holder, s.holders id = [holder]) ∨ ∃ core req, s.Elected core id req
  /-- A core that has been elected in this cycle is below all that wait. -/
  lowest : ∀ core id req, s.Elected core id req → (s.unit.mutexes id).electCycle = s.unit.top.now →
    ∀ other req', s.Queued other id req' → core < other

variable {s s' : MutexSystem} {id core req : Nat}

section

variable (hi : s.Inv) (hw : s.Waits core id req)
include hi hw

theorem Inv.locked : (s.unit.mutexes id).locked = true := by
  cases hi.owned id with
  | free _ _ hno => exact absurd hw (hno core req)
  | held _ hlocked | given _ _ hlocked => exact hlocked

theorem Inv.queued_of_parked (hp : s.Parked core id req) : s.Queued core id req :=
  ⟨hw, hi.locked hw, hp.queued, hp.asleep.isActive, hp.asleep.pendingReq, hp.asleep.wakeupEvent⟩

theorem Inv.elected_of_given (hg : s.Given core id req) : s.Elected core id req := by
  refine ⟨hw, hi.locked hw, hg.unqueued, hg.elected, ?_, hg.now_le, hg.waking.isActive, hg.waking.pendingReq,
    hg.waking.wakeupEvent⟩
  cases hi.owned id with
  | free _ hholders | given _ _ _ hholders => exact hholders
  | held _ _ _ _ hpark =>
    have hqueued := (hpark core req hw).queued
    rw [hg.unqueued] at hqueued
    cases hqueued

end

theorem Inv.exclusive (hi : s.Inv) : s.Exclusive := by
  refine ⟨fun id => ?_, hi.answeredOnce, hi.rightValue,
    fun core id req hw => (hi.waits core id req hw).imp (hi.queued_of_parked hw) (hi.elected_of_given hw),
    fun id hlocked => ?_, fun core id req he hnow other req' hq => ?_⟩
  · cases hi.owned id with
    | free _ hholders | held _ _ hholders | given _ _ _ hholders => rw [hholders]; simp
  · cases hi.owned id with
    | free hlocked' => rw [hlocked] at hlocked'; cases hlocked'
    | held holder _ hholders => exact Or.inl ⟨holder, hholders⟩
    | given core req _ _ hw hg => exact Or.inr ⟨core, req, hi.elected_of_given hw hg⟩
  · rcases hi.waits core id req he.waits with hp | hg
    · have hunqueued := he.unqueued
      rw [hp.queued] at hunqueued
      cases hunqueued
    · exact hg.lowest hnow other hq.queued

/-! ## An unlock serves the lowest core -/

theorem unlock_elects {holder : Nat} (hi : s.Inv) (h : mutexStep s (.unlock holder id value) = some s')
    (hw : s.Waits core id req) :
    ∃ next req', s.Waits next id req' ∧ s'.Elected next id req' ∧ ∀ other req'', s.Waits other id req'' →
      next ≤ other := by
  have hi' := mutexStep_inv hi h
  obtain ⟨⟨hruns, -, hholder⟩, heq⟩ := ite_none_right_eq_some.1 h
  cases heq
  obtain ⟨hcore, hno⟩ := runs_iff.1 hruns
  have hdemux : s.demux holder = s.unit := by rw [demux, EventUnit.demuxReq_running (hi.runs holder hcore hno)]
  have hparked : ∀ other req'', s.Waits other id req'' → s.Parked other id req'' := by
    cases hi.owned id with
    | free _ hholders | given _ _ _ hholders => rw [hholders] at hholder; cases hholder
    | held _ _ _ _ hpark => exact hpark
  have hmask : (s.unit.mutexes id).waitingMask ≠ 0#32 := fun h0 => by
    have hqueued := (hparked core req hw).queued
    rw [h0] at hqueued
    simp at hqueued
  obtain ⟨next, hnext⟩ : ∃ i, (s.unit.mutexes id).waitingMask.ctz.toNat = i := ⟨_, rfl⟩
  obtain ⟨req', hw'⟩ := hi.queued id next (hnext ▸ BitVec.getLsbD_true_ctz_of_ne_zero hmask)
  refine ⟨next, req', hw', ?_, fun other req'' hw'' => hnext ▸ ctz_le (hparked other req'' hw'').queued⟩
  have hw'' : (s.unlock holder id value).Waits next id req' := hw'
  refine hi'.elected_of_given hw'' ((hi'.waits next id req' hw'').resolve_left fun hp => ?_)
  have hqueued := hp.queued
  have hmask' : ((s.unlock holder id value).unit.mutexes id).waitingMask =
      (s.unit.mutexes id).waitingMask &&& ~~~(1#32 <<< next) := by
    rw [unlock, hdemux]
    simp [writeReq, if_pos hmask, setMutex, hnext]
  rw [hmask', getLsbD_andNot_bit ((hi.waits_lt next id req' hw').trans_le hi.nbCore_le)] at hqueued
  simp at hqueued

/-! ## Each core is served -/

def ahead (s : MutexSystem) (core id : Nat) : Nat :=
  ((Finset.range core).filter fun j => (s.unit.mutexes id).waitingMask.getLsbD j = true).card

/-- How many unlocks of the mutex the core can still see before it is answered. -/
def unlocksLeft (s : MutexSystem) (core id : Nat) : Nat :=
  if (s.unit.mutexes id).waitingMask.getLsbD core then s.ahead core id + 1 else 0

theorem unlocksLeft_le (core id : Nat) : s.unlocksLeft core id ≤ s.ahead core id + 1 := by
  rw [unlocksLeft]
  split
  · exact le_rfl
  · exact Nat.zero_le _

theorem unlocksLeft_congr (h : ∀ j ≤ core, (s'.unit.mutexes id).waitingMask.getLsbD j =
    (s.unit.mutexes id).waitingMask.getLsbD j) : s'.unlocksLeft core id = s.unlocksLeft core id := by
  have hahead : s'.ahead core id = s.ahead core id := by
    rw [ahead, ahead]
    congr 1
    exact Finset.filter_congr fun j hj => by rw [h j (Finset.mem_range.1 hj).le]
  rw [unlocksLeft, unlocksLeft, hahead, h core le_rfl]

theorem readReq_mask {j reader : Nat} (hj : id' = id → j < reader) :
    ((u.readReq id' req reader).mutexes id).waitingMask.getLsbD j = (u.mutexes id).waitingMask.getLsbD j := by
  have hgive : ∀ v : MutexUnit, ((v.give id' req reader).mutexes id).waitingMask = (v.mutexes id).waitingMask := by
    intro v
    rw [give]
    dsimp only [setMutex]
    by_cases hid : id = id'
    · subst hid
      rw [update_self]
    · rw [update_of_ne hid]
  have hqueue : ∀ (m : Mutex) (c : Nat), (id' = id → j ≠ c) →
    m.waitingMask = (u.mutexes id').waitingMask ||| 1#32 <<< c →
      (update u.mutexes id' m id).waitingMask.getLsbD j = (u.mutexes id).waitingMask.getLsbD j := by
    intro m c hne hm
    by_cases hid : id = id'
    · subst hid
      rw [update_self, hm, getLsbD_or_bit_of_ne (hne rfl)]
    · rw [update_of_ne hid]
  rw [readReq]
  split
  · rw [hgive]
  · split
    case h_1 v htake =>
      rw [hgive]
      rw [takeOver] at htake
      split at htake
      case isTrue hguard =>
        obtain ⟨e, -, rfl⟩ := map_eq_some_iff.1 htake
        refine hqueue _ _ (fun hid => ?_) rfl
        have hlt := hj hid
        omega
      case isFalse => cases htake
    case h_2 =>
      rw [enqueueSleep]
      exact hqueue _ reader (fun hid => (hj hid).ne) rfl

theorem writeReq_mask :
    ((u.writeReq id' value).mutexes id).waitingMask =
      if id = id' ∧ (u.mutexes id).waitingMask ≠ 0#32 then
        (u.mutexes id).waitingMask &&& ~~~(1#32 <<< (u.mutexes id).waitingMask.ctz.toNat)
      else (u.mutexes id).waitingMask := by
  rw [writeReq]
  dsimp only [setMutex]
  by_cases hid : id = id'
  · subst hid
    by_cases hmask : (u.mutexes id).waitingMask = 0#32
    · rw [if_neg (not_not_intro hmask), if_neg fun h => h.2 hmask]
      simp
    · rw [if_pos hmask, if_pos ⟨rfl, hmask⟩]
      simp
  · have hguard : ¬(id = id' ∧ (u.mutexes id).waitingMask ≠ 0#32) := fun h => hid h.1
    rw [if_neg hguard]
    split <;> simp only [update_of_ne hid]

theorem foldl_observe (answers : List (Nat × BitVec 32)) : ∀ s : MutexSystem,
    (answers.foldl observe s).unit = s.unit ∧ (answers.foldl observe s).reads = s.reads ∧
      s.answered ⊆ (answers.foldl observe s).answered := by
  induction answers with
  | nil => exact fun s => ⟨rfl, rfl, fun _ h => h⟩
  | cons answer answers ih =>
    intro s
    obtain ⟨hunit, hreads, hans⟩ := ih (s.observe answer)
    have hone : (s.observe answer).unit = s.unit ∧ (s.observe answer).reads = s.reads ∧
        s.answered ⊆ (s.observe answer).answered := by
      rw [observe]
      split
      · exact ⟨rfl, rfl, map_subset _ (subset_append_left _ _)⟩
      · exact ⟨rfl, rfl, fun _ h => h⟩
    exact ⟨hunit.trans hone.1, hreads.trans hone.2.1, fun _ h => hans (hone.2.2 h)⟩

theorem withTop_unit : (s.withTop top).unit = { s.unit with top := top } := (foldl_observe _ _).1

theorem withTop_history :
    s.reads <+: (s.withTop top).reads ∧ s.answered ⊆ (s.withTop top).answered :=
  ⟨by rw [withTop, (foldl_observe _ _).2.1], fun _ h =>
    (foldl_observe _ { s with unit := { s.unit with top := top } }).2.2 h⟩

/-- A step that does not overtake the waiting core does not add to the unlocks it waits for. -/
theorem unlocksLeft_step (hi : s.Inv) (hw : s.Waits core id req)
    (hnot : event.overtakes core id = false) (h : mutexStep s event = some s') (hw' : s'.Waits core id req) :
    (event.unlocks id).toNat + s'.unlocksLeft core id ≤ s.unlocksLeft core id := by
  cases event with
  | lockRead reader id' =>
    obtain ⟨hguard, heq⟩ := ite_none_right_eq_some.1 h
    cases heq
    obtain ⟨hcore, hno⟩ := runs_iff.1 hguard.1
    have hdemux : s.demux reader = s.unit := by rw [demux, EventUnit.demuxReq_running (hi.runs reader hcore hno)]
    have hunlocks : (MutexEvent.lockRead reader id').unlocks id = false := rfl
    rw [hunlocks, Bool.toNat_false, zero_add, unlocksLeft_congr (s := s)]
    intro j hj
    rw [lockRead, hdemux]
    refine readReq_mask fun hid => ?_
    have hle : core ≤ reader := by simpa [overtakes, hid] using hnot
    have hne : core ≠ reader := fun heq => hno id req (heq ▸ hw)
    omega
  | unlock holder id' value =>
    obtain ⟨⟨hruns, -, hholder⟩, heq⟩ := ite_none_right_eq_some.1 h
    cases heq
    obtain ⟨hcore, hno⟩ := runs_iff.1 hruns
    have hdemux : s.demux holder = s.unit := by rw [demux, EventUnit.demuxReq_running (hi.runs holder hcore hno)]
    by_cases hid : id' = id
    · subst hid
      have hp : s.Parked core id' req := by
        cases hi.owned id' with
        | free _ hholders | given _ _ _ hholders => rw [hholders] at hholder; cases hholder
        | held _ _ _ _ hpark => exact hpark core req hw
      have hmask : (s.unit.mutexes id').waitingMask ≠ 0#32 := fun h0 => by
        have hqueued := hp.queued
        rw [h0] at hqueued
        simp at hqueued
      obtain ⟨i, hnext⟩ : ∃ i, (s.unit.mutexes id').waitingMask.ctz.toNat = i := ⟨_, rfl⟩
      have hbit : (s.unit.mutexes id').waitingMask.getLsbD i = true := hnext ▸ BitVec.getLsbD_true_ctz_of_ne_zero hmask
      have hle : i ≤ core := hnext ▸ ctz_le hp.queued
      have hi32 : i < 32 := hle.trans_lt ((hi.waits_lt core id' req hw).trans_le hi.nbCore_le)
      have hmask' : ((s.unlock holder id' value).unit.mutexes id').waitingMask =
          (s.unit.mutexes id').waitingMask &&& ~~~(1#32 <<< i) := by
        rw [unlock, hdemux, writeReq_mask, if_pos ⟨rfl, hmask⟩, hnext]
      have hunlocks : (MutexEvent.unlock holder id' value).unlocks id' = true := by simp [MutexEvent.unlocks]
      rw [hunlocks, Bool.toNat_true, unlocksLeft, unlocksLeft, if_pos hp.queued, hmask',
        getLsbD_andNot_bit hi32, hp.queued]
      rcases hle.lt_or_eq with hlt | rfl
      · -- another core is served: one less is ahead
        have hne : i ≠ core := hlt.ne
        have herase : ((Finset.range core).filter fun j =>
            ((s.unlock holder id' value).unit.mutexes id').waitingMask.getLsbD j = true) =
            ((Finset.range core).filter fun j => (s.unit.mutexes id').waitingMask.getLsbD j = true).erase i := by
          ext j
          rw [hmask', Finset.mem_erase, Finset.mem_filter, Finset.mem_filter, getLsbD_andNot_bit hi32]
          simp only [Bool.and_eq_true, decide_eq_true_eq]
          constructor
          · rintro ⟨hj, hb, hji⟩
            exact ⟨hji.symm, hj, hb⟩
          · rintro ⟨hji, hj, hb⟩
            exact ⟨hj, hb, hji.symm⟩
        have hmem : i ∈ (Finset.range core).filter fun j => (s.unit.mutexes id').waitingMask.getLsbD j = true :=
          Finset.mem_filter.2 ⟨Finset.mem_range.2 hlt, hbit⟩
        have hahead : (s.unlock holder id' value).ahead core id' + 1 = s.ahead core id' := by
          rw [ahead, herase, ahead, Finset.card_erase_add_one hmem]
        simp only [hne, ne_eq, not_false_eq_true, decide_true, Bool.and_self, if_true]
        omega
      · simp
    · have hunlocks : (MutexEvent.unlock holder id' value).unlocks id = false := by simp [MutexEvent.unlocks, hid]
      rw [hunlocks, Bool.toNat_false, zero_add, unlocksLeft_congr (s := s)]
      intro j _
      have hguard : ¬(id = id' ∧ (s.unit.mutexes id).waitingMask ≠ 0#32) := fun h => hid h.1.symm
      rw [unlock, hdemux, writeReq_mask, if_neg hguard]
  | wakeup core' =>
    obtain ⟨-, hmap⟩ := ite_none_right_eq_some.1 h
    obtain ⟨top, -, rfl⟩ := map_eq_some_iff.1 hmap
    have hunlocks : (wakeup core').unlocks id = false := rfl
    rw [hunlocks, Bool.toNat_false, zero_add, unlocksLeft_congr (s := s)]
    intro j _
    rw [withTop_unit]
  | tick =>
    obtain ⟨top, -, rfl⟩ := map_eq_some_iff.1 h
    have hunlocks : tick.unlocks id = false := rfl
    rw [hunlocks, Bool.toNat_false, zero_add, unlocksLeft_congr (s := s)]
    intro j _
    rw [withTop_unit]

theorem step_history (h : mutexStep s event = some s') :
    s.reads <+: s'.reads ∧ s.answered ⊆ s'.answered := by
  cases event with
  | lockRead reader id' =>
    obtain ⟨-, heq⟩ := ite_none_right_eq_some.1 h
    cases heq
    exact ⟨prefix_append _ _, fun _ h => h⟩
  | unlock holder id' value =>
    obtain ⟨-, heq⟩ := ite_none_right_eq_some.1 h
    cases heq
    exact ⟨prefix_rfl, fun _ h => h⟩
  | wakeup core' =>
    obtain ⟨-, hmap⟩ := ite_none_right_eq_some.1 h
    obtain ⟨top, -, rfl⟩ := map_eq_some_iff.1 hmap
    exact withTop_history
  | tick =>
    obtain ⟨top, -, rfl⟩ := map_eq_some_iff.1 h
    exact withTop_history

theorem run_history : ∀ {events : List MutexEvent} {s s' : MutexSystem}, run mutexStep s events = some s' →
    s.reads <+: s'.reads ∧ s.answered ⊆ s'.answered
  | [], _, _, h => by cases h; exact ⟨prefix_rfl, fun _ h => h⟩
  | event :: events, s, s', h => by
    obtain ⟨s₁, h₁, h⟩ := run_cons.1 h
    exact ⟨(step_history h₁).1.trans (run_history h).1, fun _ h' => (run_history h).2 ((step_history h₁).2 h')⟩

theorem reads_of_run (h : run mutexStep s events = some s') (hw : s.Waits core id req) :
    s'.reads[req]? = some (core, id) := by
  obtain ⟨later, hlater⟩ := (run_history h).1
  rw [← hlater, getElem?_append_left (List.getElem?_eq_some_iff.1 hw.1).1]
  exact hw.1

theorem unlocks_le : ∀ {events : List MutexEvent} {s s' : MutexSystem}, s.Inv → s.Waits core id req →
    run mutexStep s events = some s' → (∀ event ∈ events, event.overtakes core id = false) → s'.Waits core id req →
    events.countP (·.unlocks id) + s'.unlocksLeft core id ≤ s.unlocksLeft core id
  | [], s, s', _, _, h, _, _ => by cases h; simp
  | event :: events, s, s', hi, hw, h, hnot, hw' => by
    obtain ⟨s₁, h₁, h⟩ := run_cons.1 h
    have hrun₁ : run mutexStep s [event] = some s₁ := run_cons.2 ⟨s₁, h₁, rfl⟩
    have hw₁ : s₁.Waits core id req := ⟨reads_of_run hrun₁ hw, fun hans => hw'.2 ((run_history h).2 hans)⟩
    have hstep := unlocksLeft_step hi hw (hnot event mem_cons_self) h₁ hw₁
    have hrest := unlocks_le (mutexStep_inv hi h₁) hw₁ h (fun e he => hnot e (mem_cons_of_mem _ he)) hw'
    rw [countP_cons]
    cases hunlocks : event.unlocks id with
    | false => rw [hunlocks, Bool.toNat_false] at hstep; simp only [Bool.false_eq_true, if_false]; omega
    | true => rw [hunlocks, Bool.toNat_true] at hstep; simp only [if_true]; omega

/-- A core that waits is answered after as many unlocks as there are cores ahead of it, and two more. -/
theorem served (hi : s.Inv) (hw : s.Waits core id req) (h : run mutexStep s events = some s')
    (hnot : ∀ event ∈ events, event.overtakes core id = false)
    (hunlocks : s.ahead core id + 2 ≤ events.countP (·.unlocks id)) : req ∈ s'.answered := by
  by_contra hans
  have hle := unlocks_le hi hw h hnot ⟨reads_of_run h hw, hans⟩
  have hleft := s.unlocksLeft_le core id
  omega

end MutexSystem

/-- **The mutexes exclude each other's holders and serve their cores.** In every state of every run the mutexes exclude;
an unlock with cores in the queue elects the lowest; and a core that waits, its election taken over or not, is answered
after as many unlocks as there are cores ahead of it and two more, if no lower core asks meanwhile. -/
theorem mutex_exclusive {nbCore nbMutexes mutexEvent : Nat} {value : Nat → BitVec 32} {events : List MutexEvent}
    {s : MutexSystem} (hnb : nbCore ≤ 32) (hevent : mutexEvent < 32)
    (h : run mutexStep (mutexInit nbCore nbMutexes mutexEvent value) events = some s) :
    s.Exclusive ∧
      (∀ core id req holder value s', s.Waits core id req → mutexStep s (.unlock holder id value) = some s' →
        ∃ next req', s.Waits next id req' ∧ s'.Elected next id req' ∧
          ∀ other req'', s.Waits other id req'' → next ≤ other) ∧
      ∀ core id req events' s', s.Waits core id req → run mutexStep s events' = some s' →
        (∀ event ∈ events', event.overtakes core id = false) →
        s.ahead core id + 2 ≤ events'.countP (·.unlocks id) → req ∈ s'.answered := by
  have hi : s.Inv := run_invariant (fun _ _ _ hi hs => mutexStep_inv hi hs)
    (mutexInit_inv hnb hevent) h
  exact ⟨hi.exclusive, fun _ _ _ _ _ _ hw hs => unlock_elects hi hs hw,
    fun _ _ _ _ _ hw hr hnot hunlocks => served hi hw hr hnot hunlocks⟩

/-- Two cores that ask in one cycle: the lower one is answered first, the other one after its unlock. -/
def twoReaders : List MutexEvent :=
  [.lockRead 2 0, .lockRead 1 0, .tick, .wakeup 1, .unlock 1 0 9#32, .tick, .wakeup 2]

theorem mutex_exclusive_twoReaders : ∃ s, run mutexStep (mutexInit 3 1 4 fun _ => 7#32) twoReaders = some s ∧
    s.holders 0 = [2] ∧ s.answers = [⟨1, 7#32, 7#32⟩, ⟨0, 9#32, 9#32⟩] ∧ s.Exclusive := by
  have hrun : ((run mutexStep (mutexInit 3 1 4 fun _ => 7#32) twoReaders).map fun s => (s.holders 0, s.answers)) =
      some ([2], [⟨1, 7#32, 7#32⟩, ⟨0, 9#32, 9#32⟩]) := by decide +kernel
  obtain ⟨s, hs, heq⟩ := map_eq_some_iff.1 hrun
  exact ⟨s, hs, congrArg Prod.fst heq, congrArg Prod.snd heq, (mutex_exclusive (by decide) (by decide) hs).1⟩

end GvsocPulp.EventUnitV3
