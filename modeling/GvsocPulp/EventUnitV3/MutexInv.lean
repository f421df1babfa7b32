import GvsocPulp.EventUnitV3.Mutex

/-!
# The event unit: the invariant of the mutexes

A mutex is free, held by one core, or given to one core which is about to be answered (`Owned`); all other cores that
have asked for it are parked in its queue (`Base`).

- `Moves`: a core is parked, or given a mutex, and all others are left alone;
- `inv_lockRead`, `inv_unlock`, `inv_wakeup`, `inv_tick`: each step keeps the invariant (`mutexStep_inv`).
-/

namespace GvsocPulp.EventUnitV3

open Lib CoreEventUnit Function List Option Mutex EventUnit MutexUnit

variable {core' id' req' : Nat} {top : EventUnit}

/-! ## The invariant -/

def Mutex.givenTo (mutex : Mutex) (core : Nat) (mask : BitVec 32) (now : Int) : Mutex :=
  { mutex with locked := true, waitingMask := mask, elected := core, electCycle := now }

def Mutex.queue (mutex : Mutex) (core req : Nat) : Mutex :=
  { mutex with
    waitingReqs := update mutex.waitingReqs core (some req)
    waitingMask := mutex.waitingMask ||| 1#32 <<< core }

structure Mutex.Parked (mutex : Mutex) (bit : BitVec 32) (e : CoreEventUnit) (core req : Nat) : Prop where
  queued : mutex.waitingMask.getLsbD core = true
  waitingReq : mutex.waitingReqs core = some req
  asleep : Asleep bit bit req .waitingEvent e

/-- A mutex has been given to a core, which is answered in the cycle after. -/
structure Mutex.Given (mutex : Mutex) (bit : BitVec 32) (e : CoreEventUnit) (now : Int) (value : BitVec 32)
    (core req : Nat) : Prop where
  unqueued : mutex.waitingMask.getLsbD core = false
  elected : mutex.elected = core
  waking : Waking bit req false (mutex.electCycle + 1) e
  value_eq : value = mutex.value
  cycle_le : mutex.electCycle ≤ now
  now_le : now ≤ mutex.electCycle + 1
  lowest : mutex.electCycle = now → ∀ other, mutex.waitingMask.getLsbD other = true → core < other

namespace Mutex

variable {mutex : Mutex} {bit : BitVec 32} {e : CoreEventUnit} {core req : Nat}

theorem queue_other (hcore : core < 32) {j : Nat} (hj : j ≠ core) :
    (mutex.queue core req).waitingMask.getLsbD j = mutex.waitingMask.getLsbD j := by
  rw [queue, getLsbD_or_bit hcore]
  simp [hj.symm]

theorem parked_queue (mutex : Mutex) (hcore : core < 32) (he : Asleep bit bit req .waitingEvent e) :
    (mutex.queue core req).Parked bit e core req := by
  refine ⟨?_, update_self _ _ _, he⟩
  rw [queue, getLsbD_or_bit hcore]
  simp

end Mutex

namespace MutexSystem

variable {s : MutexSystem} {id core req : Nat}

def Parked (s : MutexSystem) (core id req : Nat) : Prop :=
  (s.unit.mutexes id).Parked s.unit.eventBit (s.unit.top.core core) core req

def Given (s : MutexSystem) (core id req : Nat) : Prop :=
  (s.unit.mutexes id).Given s.unit.eventBit (s.unit.top.core core) s.unit.top.now (s.unit.top.data req) core req

/-- Who has a mutex. -/
inductive Owned (s : MutexSystem) (id : Nat) : Prop
  | free (hlocked : (s.unit.mutexes id).locked = false) (hholders : s.holders id = [])
    (hwaits : ∀ core req, ¬s.Waits core id req)
  | held (holder : Nat) (hlocked : (s.unit.mutexes id).locked = true) (hholders : s.holders id = [holder])
    (hcycle : (s.unit.mutexes id).electCycle < s.unit.top.now)
      (hparked : ∀ core req, s.Waits core id req → s.Parked core id req)
  | given (core req : Nat) (hlocked : (s.unit.mutexes id).locked = true) (hholders : s.holders id = [])
    (hwaits : s.Waits core id req) (hgiven : s.Given core id req)

structure Base (s : MutexSystem) : Prop where
  nbCore_le : s.unit.top.nbCore ≤ 32
  mutexEvent_lt : s.unit.mutexEvent < 32
  now_nonneg : 0 ≤ s.unit.top.now
  runs : ∀ core < s.unit.top.nbCore, (∀ id req, ¬s.Waits core id req) → Running s.unit.eventBit (s.unit.top.core core)
  waits_lt : ∀ core id req, s.Waits core id req → core < s.unit.top.nbCore
  waits : ∀ core id req, s.Waits core id req → s.Parked core id req ∨ s.Given core id req
  once : ∀ core id req id' req', s.Waits core id req → s.Waits core id' req' → id = id' ∧ req = req'
  queued : ∀ id core, (s.unit.mutexes id).waitingMask.getLsbD core = true → ∃ req, s.Waits core id req
  value_eq : ∀ id, (s.unit.mutexes id).value = s.unlocked id
  answeredOnce : s.answered.Nodup
  asked : ∀ req ∈ s.answered, req < s.reads.length
  rightValue : ∀ answer ∈ s.answers, answer.value = answer.unlocked

/-- The invariant of the steps. -/
structure Inv (s : MutexSystem) : Prop extends Base s where
  owned : ∀ id, s.Owned id

/-- Nobody has the mutex, and all cores that wait for it are queued. -/
structure Ungiven (s : MutexSystem) (id : Nat) : Prop where
  holders : s.holders id = []
  parked : ∀ core req, s.Waits core id req → s.Parked core id req

theorem runs_iff : s.Runs core ↔ core < s.unit.top.nbCore ∧ ∀ id req, ¬s.Waits core id req := by
  refine and_congr_right fun _ => forall_answered_iff.trans ?_
  exact ⟨fun h id req hw => h (core, id) req hw rfl, fun h y req hw heq => h y.2 req (heq ▸ hw)⟩

theorem Waits.inj (h : s.Waits core id req) (h' : s.Waits core' id' req) : core = core' ∧ id = id' :=
  Prod.mk.injEq _ _ _ _ ▸ Pending.inj h h'

/-! ## A core is parked, or is given the mutex -/

/-- From `s` to `t` a core that waits for nothing else is parked for a mutex, or is given it. -/
structure Moves (s t : MutexSystem) (core id req : Nat) (e : CoreEventUnit) (mutex : Mutex)
    (value : BitVec 32) : Prop where
  base : s.Base
  others : ∀ id' ≠ id, s.Owned id'
  core_lt : core < s.unit.top.nbCore
  one : ∀ id' req', s.Waits core id' req' → id' = id ∧ req' = req
  unit : t.unit = s.unit.changed (update s.unit.top.core core e) (update s.unit.top.data req value) id mutex
  answers : t.answers = s.answers
  holders : t.holders = s.holders
  unlocked : t.unlocked = s.unlocked
  reads : s.reads.length ≤ t.reads.length
  waits : ∀ core' id' req', t.Waits core' id' req' ↔ s.Waits core' id' req' ∨ core' = core ∧ id' = id ∧ req' = req
  mask : ∀ j ≠ core, mutex.waitingMask.getLsbD j = (s.unit.mutexes id).waitingMask.getLsbD j
  waitingReqs : ∀ j ≠ core, mutex.waitingReqs j = (s.unit.mutexes id).waitingReqs j
  value_eq : mutex.value = (s.unit.mutexes id).value
  self : mutex.Parked s.unit.eventBit e core req ∨ mutex.Given s.unit.eventBit e s.unit.top.now value core req
  givens : ∀ core' req', core' ≠ core → s.Waits core' id req' → s.Given core' id req' →
    mutex.Given s.unit.eventBit (s.unit.top.core core') s.unit.top.now (s.unit.top.data req') core' req'

namespace Moves

variable {t : MutexSystem} {e : CoreEventUnit} {mutex : Mutex} {value : BitVec 32}

variable (h : Moves s t core id req e mutex value)
include h

theorem waits_self : t.Waits core id req :=
  (h.waits core id req).2 (Or.inr ⟨rfl, rfl, rfl⟩)

theorem waits_old (hw : t.Waits core' id' req') (hne : core' ≠ core) : s.Waits core' id' req' :=
  ((h.waits core' id' req').1 hw).resolve_right fun heq => hne heq.1

theorem waits_other (hw : t.Waits core' id' req') (hne : id' ≠ id) : s.Waits core' id' req' :=
  ((h.waits core' id' req').1 hw).resolve_right fun heq => hne heq.2.1

theorem one_self (hw : t.Waits core id' req') :
    id' = id ∧ req' = req :=
  ((h.waits core id' req').1 hw).elim (h.one id' req') fun heq => heq.2

theorem parked_other (hne : core' ≠ core) (hp : s.Parked core' id' req') : t.Parked core' id' req' := by
  rw [Parked, h.unit]
  show (update s.unit.mutexes id mutex id').Parked _ (update s.unit.top.core core e core') core' req'
  rw [update_of_ne hne]
  by_cases hid : id' = id
  · subst hid
    rw [update_self]
    exact ⟨(h.mask core' hne).trans hp.queued, (h.waitingReqs core' hne).trans hp.waitingReq, hp.asleep⟩
  · rw [update_of_ne hid]
    exact hp

theorem given_other (hne : core' ≠ core) (hw : s.Waits core' id' req') (hg : s.Given core' id' req') :
    t.Given core' id' req' := by
  have hreq : req' ≠ req := fun heq => by
    subst heq
    exact hne (((h.waits core' id' _).2 (Or.inl hw)).inj h.waits_self).1
  rw [Given, h.unit]
  show (update s.unit.mutexes id mutex id').Given _ (update s.unit.top.core core e core') _
    (update s.unit.top.data req value req') core' req'
  rw [update_of_ne hne, update_of_ne hreq]
  by_cases hid : id' = id
  · subst hid
    rw [update_self]
    exact h.givens core' req' hne hw hg
  · rw [update_of_ne hid]
    exact hg

theorem self_parked (hp : mutex.Parked s.unit.eventBit e core req) :
    t.Parked core id req := by
  rw [Parked, h.unit]
  show (update s.unit.mutexes id mutex id).Parked _ (update s.unit.top.core core e core) core req
  rw [update_self, update_self]
  exact hp

theorem self_given (hg : mutex.Given s.unit.eventBit e s.unit.top.now value core req) : t.Given core id req := by
  rw [Given, h.unit]
  show (update s.unit.mutexes id mutex id).Given _ (update s.unit.top.core core e core) _
    (update s.unit.top.data req value req) core req
  rw [update_self, update_self, update_self]
  exact hg

theorem mutexes_self : t.unit.mutexes id = mutex := by
  rw [h.unit]
  exact update_self id mutex s.unit.mutexes

theorem mutexes_other (hne : id' ≠ id) :
    t.unit.mutexes id' = s.unit.mutexes id' := by
  rw [h.unit]
  exact update_of_ne hne _ _

theorem now_eq : t.unit.top.now = s.unit.top.now := by
  rw [h.unit]
  rfl

theorem base_keeps : t.Base := by
  have hb := h.base
  have hnb : t.unit.top.nbCore = s.unit.top.nbCore := by rw [h.unit]; rfl
  have hevent : t.unit.mutexEvent = s.unit.mutexEvent := by rw [h.unit]; rfl
  have hanswered : t.answered = s.answered := by rw [answered, h.answers]; rfl
  refine ⟨hnb ▸ hb.nbCore_le, hevent ▸ hb.mutexEvent_lt, h.now_eq ▸ hb.now_nonneg, fun c hc hno => ?runs,
    fun c id' req' hw => ?waits_lt, fun c id' req' hw => ?waits, fun c id₁ req₁ id₂ req₂ h₁ h₂ => ?once,
    fun id' c hbit => ?queued, fun id' => ?value, hanswered ▸ hb.answeredOnce,
    fun r hr => (hb.asked r (hanswered ▸ hr)).trans_le h.reads, h.answers ▸ hb.rightValue⟩
  case runs =>
    have hne : c ≠ core := fun heq => hno id req (heq ▸ h.waits_self)
    rw [h.unit]
    show Running _ (update s.unit.top.core core e c)
    rw [update_of_ne hne]
    exact hb.runs c (hnb ▸ hc) fun id' req' hw => hno id' req' ((h.waits c id' req').2 (Or.inl hw))
  case waits_lt =>
    rw [hnb]
    by_cases hne : c = core
    · exact hne ▸ h.core_lt
    · exact hb.waits_lt c id' req' (h.waits_old hw hne)
  case waits =>
    by_cases hne : c = core
    · subst hne
      obtain ⟨rfl, rfl⟩ := h.one_self hw
      exact h.self.imp h.self_parked h.self_given
    · have hws := h.waits_old hw hne
      exact (hb.waits c id' req' hws).imp (h.parked_other hne) (h.given_other hne hws)
  case once =>
    by_cases hne : c = core
    · subst hne
      obtain ⟨rfl, rfl⟩ := h.one_self h₁
      obtain ⟨rfl, rfl⟩ := h.one_self h₂
      exact ⟨rfl, rfl⟩
    · exact hb.once c id₁ req₁ id₂ req₂ (h.waits_old h₁ hne) (h.waits_old h₂ hne)
  case queued =>
    by_cases hid : id' = id
    · subst hid
      rw [h.mutexes_self] at hbit
      by_cases hne : c = core
      · exact ⟨req, hne ▸ h.waits_self⟩
      · rw [h.mask c hne] at hbit
        obtain ⟨r, hw⟩ := hb.queued id' c hbit
        exact ⟨r, (h.waits c id' r).2 (Or.inl hw)⟩
    · rw [h.mutexes_other hid] at hbit
      obtain ⟨r, hw⟩ := hb.queued id' c hbit
      exact ⟨r, (h.waits c id' r).2 (Or.inl hw)⟩
  case value =>
    rw [h.unlocked]
    by_cases hid : id' = id
    · subst hid
      rw [h.mutexes_self, h.value_eq]
      exact hb.value_eq id'
    · rw [h.mutexes_other hid]
      exact hb.value_eq id'

theorem owned_other (hid : id' ≠ id) : t.Owned id' := by
  have hmutex := h.mutexes_other hid
  cases h.others id' hid with
  | free hlocked hholders hno =>
    exact .free (hmutex ▸ hlocked) (h.holders ▸ hholders) fun c r hw => hno c r (h.waits_other hw hid)
  | held holder hlocked hholders hcycle hpark =>
    refine .held holder (hmutex ▸ hlocked) (h.holders ▸ hholders) (by rw [hmutex, h.now_eq]; exact hcycle)
      fun c r hw => ?_
    exact h.parked_other (fun heq => hid (h.one_self (heq ▸ hw)).1) (hpark c r (h.waits_other hw hid))
  | given c r hlocked hholders hw hg =>
    have hne : c ≠ core := fun heq => hid (h.one id' r (heq ▸ hw)).1
    exact .given c r (hmutex ▸ hlocked) (h.holders ▸ hholders) ((h.waits c id' r).2 (Or.inl hw))
      (h.given_other hne hw hg)

theorem inv (howned : t.Owned id) : t.Inv :=
  ⟨h.base_keeps, fun id' => if hid : id' = id then hid ▸ howned else h.owned_other hid⟩

end Moves

theorem inv_given {t : MutexSystem} {e : CoreEventUnit} (mask : BitVec 32) (hb : s.Base)
    (hothers : ∀ id' ≠ id, s.Owned id') (hungiven : s.Ungiven id) (hcore : core < s.unit.top.nbCore)
    (hone : ∀ id' req', s.Waits core id' req' → id' = id ∧ req' = req)
    (hlowest : ∀ other, (s.unit.mutexes id).waitingMask.getLsbD other = true → other ≠ core → core < other)
    (hmask : ∀ j, mask.getLsbD j = ((s.unit.mutexes id).waitingMask.getLsbD j && decide (core ≠ j)))
    (he : Waking s.unit.eventBit req false (s.unit.top.now + 1) e)
    (hunit : t.unit = s.unit.changed (update s.unit.top.core core e)
      (update s.unit.top.data req (s.unit.mutexes id).value) id
      ((s.unit.mutexes id).givenTo core mask s.unit.top.now))
    (hans : t.answers = s.answers) (hholders : t.holders = s.holders) (hunlocked : t.unlocked = s.unlocked)
    (hreads : s.reads.length ≤ t.reads.length)
    (hwaits : ∀ core' id' req', t.Waits core' id' req' ↔ s.Waits core' id' req' ∨ core' = core ∧ id' = id ∧
      req' = req) :
    t.Inv := by
  have hgiven : ((s.unit.mutexes id).givenTo core mask s.unit.top.now).Given s.unit.eventBit e s.unit.top.now
      (s.unit.mutexes id).value core req := by
    refine ⟨?_, rfl, he, rfl, Int.le_refl _, Int.le_add_one (Int.le_refl _), fun _ other hother => ?_⟩
    · show mask.getLsbD core = false
      rw [hmask]
      simp
    · replace hother : mask.getLsbD other = true := hother
      rw [hmask, Bool.and_eq_true, decide_eq_true_eq] at hother
      exact hlowest other hother.1 hother.2.symm
  have hmoves : Moves s t core id req e ((s.unit.mutexes id).givenTo core mask s.unit.top.now)
    (s.unit.mutexes id).value := by
    refine ⟨hb, hothers, hcore, hone, hunit, hans, hholders, hunlocked, hreads, hwaits, fun j hj => ?_,
      fun _ _ => rfl, rfl, Or.inr hgiven, fun core' req' _ hw hg => ?_⟩
    · show mask.getLsbD j = _
      rw [hmask]
      simp [hj.symm]
    · have hqueued := (hungiven.parked core' req' hw).queued
      rw [hg.unqueued] at hqueued
      cases hqueued
  refine hmoves.inv (.given core req ?_ (by rw [hholders]; exact hungiven.holders) hmoves.waits_self
    (hmoves.self_given hgiven))
  rw [hmoves.mutexes_self]
  rfl

/-! ## Lock reads -/

theorem waits_lockRead (hb : s.Base) {u : MutexUnit} :
    MutexSystem.Waits { s with unit := u, reads := s.reads ++ [(core, id)] } core' id' req' ↔
      s.Waits core' id' req' ∨ core' = core ∧ id' = id ∧ req' = s.reads.length := by
  show Pending (s.reads ++ [(core, id)]) s.answered (core', id') req' ↔ _
  rw [pending_concat hb.asked, Prod.mk.injEq, and_assoc]
  rfl

theorem Base.unqueued (hb : s.Base) (hruns : ∀ id req, ¬s.Waits core id req) (id : Nat) :
    (s.unit.mutexes id).waitingMask.getLsbD core = false := by
  rw [Bool.eq_false_iff]
  intro h
  obtain ⟨req, hw⟩ := hb.queued id core h
  exact hruns id req hw

theorem inv_give (hb : s.Base) (hothers : ∀ id' ≠ id, s.Owned id') (hungiven : s.Ungiven id) (hruns : s.Runs core)
    (hlowest : ∀ other, (s.unit.mutexes id).waitingMask.getLsbD other = true → core < other) :
    Inv { s with unit := s.unit.give id s.reads.length core, reads := s.reads ++ [(core, id)] } := by
  obtain ⟨hcore, hno⟩ := runs_iff.1 hruns
  obtain ⟨e, he, hgive⟩ := s.unit.give_running (hb.runs core hcore hno) hcore
    hb.nbCore_le hb.mutexEvent_lt
  refine inv_given (s.unit.mutexes id).waitingMask hb hothers hungiven hcore
    (fun id' req' hw => absurd hw (hno id' req')) (fun other hother _ => hlowest other hother)
      (fun j => ?_) he hgive rfl rfl
    rfl ?_ fun core' id' req' => waits_lockRead hb
  · by_cases hj : core = j
    · subst hj
      rw [hb.unqueued hno]
      rfl
    · simp [hj]
  · rw [length_append]
    exact Nat.le_add_right _ _

theorem inv_enqueueSleep (hi : s.Inv) (hruns : s.Runs core) (hlocked : (s.unit.mutexes id).locked = true)
    (hlow : ∀ core' req', s.Waits core' id req' → s.Given core' id req' →
      (s.unit.mutexes id).electCycle = s.unit.top.now → core' < core) :
    Inv { s with unit := s.unit.enqueueSleep id s.reads.length core, reads := s.reads ++ [(core, id)] } := by
  obtain ⟨hcore, hno⟩ := runs_iff.1 hruns
  have hcore32 : core < 32 := hcore.trans_le hi.nbCore_le
  obtain ⟨e, he, hsleep⟩ := s.unit.enqueueSleep_running (hi.runs core hcore hno)
  have hself := parked_queue (s.unit.mutexes id) hcore32 he
  have hmask : ∀ j ≠ core, ((s.unit.mutexes id).queue core s.reads.length).waitingMask.getLsbD j =
      (s.unit.mutexes id).waitingMask.getLsbD j := fun j hj => queue_other hcore32 hj
  have hmoves : Moves s { s with unit := s.unit.enqueueSleep id s.reads.length core, reads := s.reads ++ [(core, id)] }
      core id s.reads.length e ((s.unit.mutexes id).queue core s.reads.length) (s.unit.top.data s.reads.length) :=
    { base := hi.toBase
      others := fun id' _ => hi.owned id'
      core_lt := hcore
      one := fun id' req' hw => absurd hw (hno id' req')
      unit := by rw [update_eq_self]; exact hsleep
      answers := rfl
      holders := rfl
      unlocked := rfl
      reads := by simp
      waits := fun core' id' req' => waits_lockRead hi.toBase
      mask := hmask
      waitingReqs := fun j hj => update_of_ne hj _ _
      value_eq := rfl
      self := Or.inl hself
      givens := fun core' req' hne hw hg => by
        refine { hg with unqueued := (hmask core' hne).trans hg.unqueued, lowest := fun hnow other hother => ?_ }
        by_cases hother' : other = core
        · exact hother' ▸ hlow core' req' hw hg hnow
        · exact hg.lowest hnow other ((hmask other hother').symm.trans hother) }
  have hold : ∀ core' req', MutexSystem.Waits { s with
      unit := s.unit.enqueueSleep id s.reads.length core, reads := s.reads ++ [(core, id)] } core' id req' →
      core' ≠ core → s.Waits core' id req' := fun core' req' hw hne => hmoves.waits_old hw hne
  refine hmoves.inv ?_
  cases hi.owned id with
  | free hlocked' _ _ => rw [hlocked'] at hlocked; cases hlocked
  | held holder _ hholders hcycle hpark =>
    refine .held holder (by rw [hmoves.mutexes_self]; exact hlocked) hholders
      (by rw [hmoves.mutexes_self, hmoves.now_eq]; exact hcycle) fun core' req' hw => ?_
    by_cases hne : core' = core
    · subst hne
      obtain ⟨-, rfl⟩ := hmoves.one_self hw
      exact hmoves.self_parked hself
    · exact hmoves.parked_other hne (hpark core' req' (hold core' req' hw hne))
  | given core' req' _ hholders hw hg =>
    have hne : core' ≠ core := fun heq => hno id req' (heq ▸ hw)
    exact .given core' req' (by rw [hmoves.mutexes_self]; exact hlocked) hholders
      ((hmoves.waits core' id req').2 (Or.inl hw))
      (hmoves.given_other hne hw hg)

theorem takeOver_given {prev preq : Nat} (hi : s.Inv) (hw : s.Waits prev id preq) (hg : s.Given prev id preq)
    (hholders : s.holders id = [])
    (hnow : (s.unit.mutexes id).electCycle = s.unit.top.now) (hlt : core < prev) :
    ∃ u, s.unit.takeOver id core = some u ∧ Base { s with unit := u } ∧
      (∀ id' ≠ id, Owned { s with unit := u } id') ∧ Ungiven { s with unit := u } id ∧
      u.top.nbCore = s.unit.top.nbCore ∧
      ∀ other, (u.mutexes id).waitingMask.getLsbD other = true → prev ≤ other := by
  have hprev := hi.waits_lt prev id preq hw
  have hprev32 : prev < 32 := hprev.trans_le hi.nbCore_le
  obtain ⟨e, he, htake⟩ := s.unit.takeOver_waking hg.waking hg.elected hnow hlt
  have hself := parked_queue (s.unit.mutexes id) hprev32 he
  have honly : ∀ core' req', core' ≠ prev → s.Waits core' id req' →
    ¬s.Given core' id req' := fun core' req' hne _ hg' =>
    hne (Int.ofNat.inj (hg'.elected.symm.trans hg.elected))
  obtain ⟨u, hu⟩ : ∃ u, u = s.unit.changed (update s.unit.top.core prev e) s.unit.top.data id
      ((s.unit.mutexes id).queue prev preq) := ⟨_, rfl⟩
  replace htake : s.unit.takeOver id core = some u := by rw [htake, hu]; rfl
  have hmoves : Moves s { s with unit := u } prev id preq e ((s.unit.mutexes id).queue prev preq)
    (s.unit.top.data preq) :=
    { base := hi.toBase
      others := fun id' _ => hi.owned id'
      core_lt := hprev
      one := fun id' req' hw' => hi.once prev id' req' id preq hw' hw
      unit := by rw [update_eq_self]; exact hu
      answers := rfl
      holders := rfl
      unlocked := rfl
      reads := le_rfl
      waits := fun core' id' req' => ⟨Or.inl, fun h => h.elim (fun h => h) fun ⟨hc, hid, hreq⟩ => by
        rw [hc, hid, hreq]
        exact hw⟩
      mask := fun j hj => queue_other hprev32 hj
      waitingReqs := fun j hj => update_of_ne hj _ _
      value_eq := rfl
      self := Or.inl hself
      givens := fun core' req' hne hw' hg' => absurd hg' (honly core' req' hne hw') }
  refine ⟨u, htake, hmoves.base_keeps, fun id' hid => hmoves.owned_other hid, ⟨hholders, fun core' req' hw' => ?_⟩,
    by rw [hu]; rfl, fun other hother => ?_⟩
  · by_cases hne : core' = prev
    · subst hne
      obtain ⟨-, rfl⟩ := hmoves.one_self hw'
      exact hmoves.self_parked hself
    · have hold := hmoves.waits_old hw' hne
      exact hmoves.parked_other hne ((hi.waits core' id req' hold).resolve_right (honly core' req' hne hold))
  · have hmutex : u.mutexes id = (s.unit.mutexes id).queue prev preq := hmoves.mutexes_self
    rw [hmutex] at hother
    by_cases hne : other = prev
    · exact hne.symm.le
    · rw [queue_other hprev32 hne] at hother
      exact (hg.lowest hnow other hother).le

theorem inv_lockRead (hi : s.Inv) (hruns : s.Runs core) : (s.lockRead core id).Inv := by
  obtain ⟨hcore, hno⟩ := runs_iff.1 hruns
  have hdemux : s.demux core = s.unit := by rw [demux, demuxReq_running (hi.runs core hcore hno)]
  rw [lockRead, hdemux, readReq]
  by_cases hlocked : (s.unit.mutexes id).locked = false
  · rw [if_pos hlocked]
    have hungiven : s.Ungiven id := by
      cases hi.owned id with
      | free _ hholders hwaits => exact ⟨hholders, fun core req hw => absurd hw (hwaits core req)⟩
      | held _ hlocked' | given _ _ hlocked' => rw [hlocked] at hlocked'; cases hlocked'
    refine inv_give hi.toBase (fun id' _ => hi.owned id') hungiven hruns fun other hother => ?_
    obtain ⟨req, hw⟩ := hi.queued id other hother
    cases hi.owned id with
    | free _ _ hwaits => exact absurd hw (hwaits other req)
    | held _ hlocked' | given _ _ hlocked' => rw [hlocked] at hlocked'; cases hlocked'
  · rw [if_neg hlocked]
    rw [Bool.not_eq_false] at hlocked
    -- taken over from the core that the mutex was given to in this cycle, if that is a higher one
    by_cases htaken : ∃ prev preq, s.Waits prev id preq ∧ s.Given prev id preq ∧
        (s.unit.mutexes id).electCycle = s.unit.top.now ∧ core < prev
    · obtain ⟨prev, preq, hw, hg, hnow, hlt⟩ := htaken
      have hholders : s.holders id = [] := by
        cases hi.owned id with
        | free _ hholders _ => exact hholders
        | held _ _ _ hcycle => rw [hnow] at hcycle; exact absurd hcycle (Int.lt_irrefl _)
        | given _ _ _ hholders => exact hholders
      obtain ⟨u, htake, hbase, hothers, hungiven, hnb, hlowest⟩ := takeOver_given hi hw hg hholders hnow hlt
      rw [htake]
      exact inv_give (s := { s with unit := u }) hbase hothers hungiven (runs_iff.2 ⟨hnb ▸ hcore, hno⟩)
        fun other hother => hlt.trans_le (hlowest other hother)
    · have htake : s.unit.takeOver id core = none := by
        rw [takeOver]
        refine if_neg fun hguard => ?_
        cases hi.owned id with
        | free hlocked' => rw [hlocked] at hlocked'; cases hlocked'
        | held _ _ _ hcycle => rw [hguard.1] at hcycle; exact absurd hcycle (Int.lt_irrefl _)
        | given prev preq _ _ hw hg =>
          refine htaken ⟨prev, preq, hw, hg, hguard.1, ?_⟩
          have hlt := hguard.2
          rw [hg.elected] at hlt
          exact Int.ofNat_lt.1 hlt
      rw [htake]
      refine inv_enqueueSleep hi hruns hlocked fun core' req' hw hg hnow => ?_
      rcases lt_trichotomy core' core with hlt | heq | hgt
      · exact hlt
      · exact absurd hw (heq ▸ hno id req')
      · exact absurd ⟨core', req', hw, hg, hnow, hgt⟩ htaken

/-! ## Unlocks -/

/-- The mutex is unlocked, before it is given to another core. -/
def unlocking (s : MutexSystem) (id : Nat) (value : BitVec 32) (locked : Bool) : MutexSystem :=
  { s with
    unit := s.unit.changed s.unit.top.core s.unit.top.data id
      { s.unit.mutexes id with value := value, locked := locked }
    holders := update s.holders id []
    unlocked := update s.unlocked id value }

theorem unlocking_keeps {value : BitVec 32} {locked : Bool} (hi : s.Inv)
    (hpark : ∀ core req, s.Waits core id req → s.Parked core id req) :
    Base (s.unlocking id value locked) ∧ (∀ id' ≠ id, Owned (s.unlocking id value locked) id') ∧
      Ungiven (s.unlocking id value locked) id := by
  have hself : (s.unlocking id value locked).unit.mutexes id =
      { s.unit.mutexes id with value := value, locked := locked } := update_self _ _ _
  have hother : ∀ id' ≠ id, (s.unlocking id value locked).unit.mutexes id' = s.unit.mutexes id' := fun id' hid =>
    update_of_ne hid _ _
  have hparked : ∀ core' id' req', s.Parked core' id' req' → (s.unlocking id value locked).Parked core' id' req' := by
    intro core' id' req' hp
    rw [Parked]
    by_cases hid : id' = id
    · subst hid
      rw [hself]
      exact { hp with }
    · rw [hother id' hid]
      exact hp
  have hgiven : ∀ core' id' req', id' ≠ id → s.Given core' id' req' →
      (s.unlocking id value locked).Given core' id' req' := by
    intro core' id' req' hid hg
    rw [Given, hother id' hid]
    exact hg
  have hidentity : ∀ core' req', s.Waits core' id req' → ¬s.Given core' id req' := fun core' req' hw hg => by
    have hqueued := (hpark core' req' hw).queued
    rw [hg.unqueued] at hqueued
    cases hqueued
  refine ⟨{ hi with waits := fun c id' req' hw => ?waits, queued := fun id' c hbit => ?queued, value_eq := fun id' =>
    ?value }, fun id' hid => ?owned, update_self _ _ _, fun c req' hw => hparked c id req' (hpark c req' hw)⟩
  case waits =>
    rcases hi.waits c id' req' hw with hp | hg
    · exact Or.inl (hparked c id' req' hp)
    · exact Or.inr (hgiven c id' req' (fun heq => hidentity c req' (heq ▸ hw) (heq ▸ hg)) hg)
  case queued =>
    by_cases hid : id' = id
    · subst hid
      rw [hself] at hbit
      exact hi.queued id' c hbit
    · rw [hother id' hid] at hbit
      exact hi.queued id' c hbit
  case value =>
    by_cases hid : id' = id
    · subst hid
      rw [hself]
      show value = update s.unlocked id' value id'
      rw [update_self]
    · rw [hother id' hid]
      exact (hi.value_eq id').trans (update_of_ne hid _ _).symm
  case owned =>
    have hholders : (s.unlocking id value locked).holders id' = s.holders id' := update_of_ne hid _ _
    cases hi.owned id' with
    | free hlocked hh hwaits => exact .free (by rw [hother id' hid]; exact hlocked) (hholders.trans hh) hwaits
    | held holder hlocked hh hcycle hp =>
      exact .held holder (by rw [hother id' hid]; exact hlocked) (hholders.trans hh)
        (by rw [hother id' hid]; exact hcycle)
        fun c r hw => hparked c id' r (hp c r hw)
    | given c r hlocked hh hw hg =>
      exact .given c r (by rw [hother id' hid]; exact hlocked) (hholders.trans hh) hw (hgiven c id' r hid hg)

theorem inv_unlock {value : BitVec 32} (hi : s.Inv) (hruns : s.Runs core) (hholder : core ∈ s.holders id) :
    (s.unlock core id value).Inv := by
  obtain ⟨hcore, hno⟩ := runs_iff.1 hruns
  have hdemux : s.demux core = s.unit := by rw [demux, demuxReq_running (hi.runs core hcore hno)]
  rw [unlock, hdemux]
  cases hi.owned id with
  | free _ hholders => rw [hholders] at hholder; cases hholder
  | given _ _ _ hholders => rw [hholders] at hholder; cases hholder
  | held holder hlocked hholders hcycle hpark =>
    have herase : (s.holders id).erase core = [] := by
      rw [hholders, mem_singleton] at hholder
      rw [hholders, hholder, erase_cons_head]
    rw [herase]
    by_cases hmask : (s.unit.mutexes id).waitingMask = 0#32
    · -- nobody waits: the mutex is free
      obtain ⟨hbase, hothers, hungiven⟩ := unlocking_keeps hi hpark
      rw [writeReq_free hmask]
      refine ⟨hbase, fun id' => ?_⟩
      by_cases hid : id' = id
      · subst hid
        refine .free ?_ hungiven.holders fun c r hw => ?_
        · show (update s.unit.mutexes id' _ id').locked = false
          rw [update_self]
        · have hqueued := (hpark c r hw).queued
          rw [hmask] at hqueued
          simp at hqueued
      · exact hothers id' hid
    · -- the lowest core that waits has it next
      obtain ⟨i, hlowest⟩ : ∃ i, (s.unit.mutexes id).waitingMask.ctz.toNat = i := ⟨_, rfl⟩
      have hbit : (s.unit.mutexes id).waitingMask.getLsbD i = true := hlowest ▸ BitVec.getLsbD_true_ctz_of_ne_zero hmask
      obtain ⟨req, hw⟩ := hi.queued id i hbit
      have hp := hpark i req hw
      have hi_lt := hi.waits_lt i id req hw
      have hi32 : i < 32 := hi_lt.trans_le hi.nbCore_le
      obtain ⟨e, he, hwrite⟩ := s.unit.writeReq_waiting hmask hlowest hp.waitingReq hp.asleep hi_lt
        hi.nbCore_le hi.mutexEvent_lt
      obtain ⟨hbase, hothers, hungiven⟩ := unlocking_keeps hi hpark
      have hself : (s.unlocking id value true).unit.mutexes id =
        { s.unit.mutexes id with value := value, locked := true } :=
        update_self _ _ _
      refine inv_given (s := s.unlocking id value true) (e := e) ((s.unit.mutexes id).waitingMask &&& ~~~(1#32 <<< i))
        hbase hothers hungiven hi_lt
        (fun id' req' hw' => hi.once i id' req' id req hw' hw) (fun other hother hne => ?_)
          (fun j => ?_) he ?_ rfl rfl rfl
        le_rfl fun c id' r => ⟨Or.inl, fun h => h.elim (fun h => h) fun ⟨hc, hid, hr⟩ => ?_⟩
      · rw [hself] at hother
        have hle := ctz_le hother
        rw [hlowest] at hle
        exact hle.lt_of_ne hne.symm
      · rw [hself, getLsbD_andNot_bit hi32]
      · rw [hself, hwrite]
        simp [unlocking, changed, givenTo, hlocked]
      · rw [hc, hid, hr]
        exact hw

/-! ## Answers and cycles -/

section

variable (hi : s.Inv) (hcore : core < s.unit.top.nbCore) (h : s.unit.top.wakeupHandler core = some top)
include hi hcore h

theorem wakeup_given : ∃ id req, s.Waits core id req ∧ s.Given core id req := by
  have hevent : (s.unit.top.core core).wakeupEvent ≠ none := fun hnone => by
    rw [wakeupHandler, hnone, if_neg (by simp)] at h
    cases h
  by_cases hw : ∃ id req, s.Waits core id req
  · obtain ⟨id, req, hw⟩ := hw
    refine ⟨id, req, hw, (hi.waits core id req hw).resolve_left fun hp => hevent hp.asleep.wakeupEvent⟩
  · exact absurd (hi.runs core hcore fun id req h => hw ⟨id, req, h⟩).wakeupEvent hevent

theorem inv_wakeup : (s.withTop top).Inv := by
  obtain ⟨id, req, hw, hg⟩ := wakeup_given hi hcore h
  obtain ⟨hcycle, hnow, hnb, hdata, hans, e, he, hcores⟩ := wakeupHandler_waking hg.waking h
  have hread : s.reads[req]? = some (core, id) := hw.1
  have ht : s.withTop top = { s with
      unit := { s.unit with top := top }
      answers := s.answers ++ [⟨req, s.unit.top.data req, s.unlocked id⟩]
      holders := update s.holders id (s.holders id ++ [core]) } := by
    rw [withTop, hans, drop_left, foldl_cons, foldl_nil, observe]
    rw [hread]
  rw [ht]
  obtain ⟨t, htdef⟩ : ∃ t : MutexSystem, t = { s with
      unit := { s.unit with top := top }
      answers := s.answers ++ [⟨req, s.unit.top.data req, s.unlocked id⟩]
      holders := update s.holders id (s.holders id ++ [core]) } := ⟨_, rfl⟩
  rw [← htdef]
  have hwaits : ∀ c i r, t.Waits c i r ↔ s.Waits c i r ∧ r ≠ req := by
    intro c i r
    rw [htdef]
    show Pending s.reads ((s.answers ++ [_]).map _) (c, i) r ↔ _
    rw [map_append]
    exact pending_answered
  have hne : ∀ {c i r}, t.Waits c i r → c ≠ core := fun {c i r} hw' heq => by
    have hws := (hwaits c i r).1 hw'
    exact hws.2 (hi.once core i r id req (heq ▸ hws.1) hw).2
  have hcoreOf : ∀ c, c ≠ core → t.unit.top.core c = s.unit.top.core c := fun c hc => by
    rw [htdef]
    rw [hcores, update_of_ne hc]
  have hparked : ∀ c i r, c ≠ core → s.Parked c i r → t.Parked c i r := fun c i r hc hp => by
    rw [Parked, hcoreOf c hc, htdef]
    exact hp
  have hgiven : ∀ c i r, c ≠ core → s.Given c i r → t.Given c i r := fun c i r hc hg' => by
    rw [Given, hcoreOf c hc, htdef]
    rw [hnow, hdata]
    exact hg'
  refine ⟨⟨?nbCore, ?event, ?now, fun c hc hno => ?runs, fun c i r hw' => ?waits_lt, fun c i r hw' => ?waits,
    fun c i r i' r' h₁ h₂ => hi.once c i r i' r' ((hwaits c i r).1 h₁).1 ((hwaits c i' r').1 h₂).1,
      fun i c hbit => ?queued,
    fun i => ?value, ?once, fun r hr => ?asked, fun answer hanswer => ?right⟩, fun i => ?owned⟩
  case nbCore => rw [htdef]; exact hnb ▸ hi.nbCore_le
  case event => rw [htdef]; exact hi.mutexEvent_lt
  case now => rw [htdef]; exact hnow ▸ hi.now_nonneg
  case runs =>
    by_cases hc' : c = core
    · subst hc'
      rw [htdef]
      rw [hcores, update_self]
      exact he
    · rw [hcoreOf c hc', htdef]
      refine hi.runs c (by rw [htdef] at hc; exact hnb ▸ hc) fun i r hws => hno i r
        ((hwaits c i r).2 ⟨hws, fun heq => ?_⟩)
      exact hc' (hws.inj (heq ▸ hw)).1
  case waits_lt =>
    rw [htdef]
    rw [hnb]
    exact hi.waits_lt c i r ((hwaits c i r).1 hw').1
  case waits =>
    exact (hi.waits c i r ((hwaits c i r).1 hw').1).imp (hparked c i r (hne hw')) (hgiven c i r (hne hw'))
  case queued =>
    rw [htdef] at hbit
    obtain ⟨r, hws⟩ := hi.queued i c hbit
    refine ⟨r, (hwaits c i r).2 ⟨hws, fun heq => ?_⟩⟩
    subst heq
    obtain ⟨rfl, rfl⟩ := hws.inj hw
    rw [hg.unqueued] at hbit
    cases hbit
  case value => rw [htdef]; exact hi.value_eq i
  case once =>
    rw [htdef, answered, map_append, map_singleton]
    exact nodup_append.2 ⟨hi.answeredOnce, nodup_singleton _, fun a ha b hb heq => by
      have hreq : a = req := heq.trans (mem_singleton.1 hb)
      exact hw.2 (hreq ▸ ha)⟩
  case asked =>
    rw [htdef, answered, map_append, map_singleton, mem_append, mem_singleton] at hr
    rw [htdef]
    rcases hr with hr | rfl
    · exact hi.asked r hr
    · exact hw.lt
  case right =>
    rw [htdef, mem_append, mem_singleton] at hanswer
    rcases hanswer with hanswer | rfl
    · exact hi.rightValue answer hanswer
    · exact hg.value_eq.trans (hi.value_eq id)
  case owned =>
    have hnow' : t.unit.top.now = s.unit.top.now := by rw [htdef]; exact hnow
    have hmutex : t.unit.mutexes = s.unit.mutexes := by rw [htdef]
    by_cases hid : i = id
    · subst hid
      cases hi.owned i with
      | free _ _ hno => exact absurd hw (hno core req)
      | held _ _ _ _ hpark =>
        have hqueued := (hpark core req hw).queued
        rw [hg.unqueued] at hqueued
        cases hqueued
      | given _ _ hlocked hholders =>
        refine .held core (by rw [hmutex]; exact hlocked) ?_ (by rw [hmutex, hnow']; omega) fun c r hw' => ?_
        · rw [htdef]
          show update s.holders i _ i = _
          rw [update_self, hholders, nil_append]
        · have hws := ((hwaits c i r).1 hw').1
          refine hparked c i r (hne hw') ((hi.waits c i r hws).resolve_right fun hg' => hne hw' ?_)
          exact Int.ofNat.inj (hg'.elected.symm.trans hg.elected)
    · have hholders' : t.holders i = s.holders i := by rw [htdef]; exact update_of_ne hid _ _
      cases hi.owned i with
      | free hlocked hh hno =>
        exact .free (by rw [hmutex]; exact hlocked) (hholders'.trans hh) fun c r hw' => hno c r ((hwaits c i r).1 hw').1
      | held holder hlocked hh hc hp =>
        exact .held holder (by rw [hmutex]; exact hlocked) (hholders'.trans hh) (by rw [hmutex, hnow']; exact hc)
          fun c r hw' => hparked c i r (hne hw') (hp c r ((hwaits c i r).1 hw').1)
      | given c r hlocked hh hw' hg' =>
        have hreq : r ≠ req := fun heq => hid (hw'.inj (heq ▸ hw)).2
        have hwt := (hwaits c i r).2 ⟨hw', hreq⟩
        exact .given c r (by rw [hmutex]; exact hlocked) (hholders'.trans hh) hwt (hgiven c i r (hne hwt) hg')

end

theorem inv_tick (hi : s.Inv) (h : s.unit.top.tick = some top) : (s.withTop top).Inv := by
  rw [tick] at h
  split at h
  case isFalse => cases h
  case isTrue hdue =>
    cases h
    have ht : s.withTop { s.unit.top with now := s.unit.top.now + 1 } =
        { s with unit := { s.unit with top := { s.unit.top with now := s.unit.top.now + 1 } } } := by
      rw [withTop]
      rw [drop_length, foldl_nil]
    rw [ht]
    have hgiven : ∀ c i r, s.Waits c i r → s.Given c i r → Given
        { s with unit := { s.unit with top := { s.unit.top with now := s.unit.top.now + 1 } } } c i r := by
      intro c i r hw hg
      have hlt := hdue c (hi.waits_lt c i r hw) _ hg.waking.wakeupEvent
      have hle := hg.cycle_le
      refine { hg with cycle_le := ?_, now_le := ?_, lowest := fun hnow => ?_ }
      · show (s.unit.mutexes i).electCycle ≤ s.unit.top.now + 1
        omega
      · show s.unit.top.now + 1 ≤ (s.unit.mutexes i).electCycle + 1
        omega
      · replace hnow : (s.unit.mutexes i).electCycle = s.unit.top.now + 1 := hnow
        omega
    refine ⟨{ hi with now_nonneg := Int.le_add_one hi.now_nonneg, waits := fun c i r hw =>
      (hi.waits c i r hw).imp (fun hp => hp) (hgiven c i r hw) }, fun i => ?_⟩
    cases hi.owned i with
    | free hlocked hh hno => exact .free hlocked hh hno
    | held holder hlocked hh hc hp => exact .held holder hlocked hh (Int.lt_add_one_of_le (Int.le_of_lt hc)) hp
    | given c r hlocked hh hw hg => exact .given c r hlocked hh hw (hgiven c i r hw hg)

theorem mutexStep_inv {event : MutexEvent} {s' : MutexSystem} (hi : s.Inv)
    (h : mutexStep s event = some s') : s'.Inv := by
  cases event with
  | lockRead core id =>
    obtain ⟨hguard, heq⟩ := ite_none_right_eq_some.1 h
    cases heq
    exact inv_lockRead hi hguard.1
  | unlock core id value =>
    obtain ⟨hguard, heq⟩ := ite_none_right_eq_some.1 h
    cases heq
    exact inv_unlock hi hguard.1 hguard.2.2
  | wakeup core =>
    obtain ⟨hcore, hmap⟩ := ite_none_right_eq_some.1 h
    obtain ⟨top, htop, rfl⟩ := map_eq_some_iff.1 hmap
    exact inv_wakeup hi hcore htop
  | tick =>
    obtain ⟨top, htop, rfl⟩ := map_eq_some_iff.1 h
    exact inv_tick hi htop

theorem mutexInit_inv {nbCore nbMutexes mutexEvent : Nat} {value : Nat → BitVec 32} (hnb : nbCore ≤ 32)
    (hevent : mutexEvent < 32) : (mutexInit nbCore nbMutexes mutexEvent value).Inv := by
  have hno : ∀ core id req, ¬(mutexInit nbCore nbMutexes mutexEvent value).Waits core id req := fun _ _ _ h => by
    cases h.1
  refine ⟨⟨hnb, hevent, Int.le_refl _, fun _ _ _ => ⟨⟨rfl, rfl, rfl, rfl, rfl⟩, rfl, rfl, rfl, rfl⟩,
    fun c i r h => absurd h (hno c i r), fun c i r h => absurd h (hno c i r), fun c i r _ _ h => absurd h (hno c i r),
    fun id core h => ?_, fun _ => rfl, nodup_nil, fun _ h => absurd h not_mem_nil,
    fun _ h => absurd h not_mem_nil⟩, fun id => .free rfl rfl fun c r => hno c id r⟩
  replace h : (0#32).getLsbD core = true := h
  simp at h

end MutexSystem

end GvsocPulp.EventUnitV3
