import GvsocPulp.EventUnitV3.Barrier

/-!
# The event unit: barriers are exact

The cores of a barrier arrive in rounds: in the round that is going on, those which have arrived have their bit in the
status and sleep (`Inv`).

- `inv_early`, `inv_last`: an arrival, of the last core of the mask or of another one;
- `barrier_exact`: over whole runs, each arrival is answered once, in its round, and no round is skipped or merged.
-/

namespace GvsocPulp.EventUnitV3

open Lib CoreEventUnit Function List Option BarrierUnit EventUnit

variable {core' id' req' : Nat} {rounds' : Nat → Nat} {top : EventUnit}

namespace BarrierSystem

variable {s : BarrierSystem} {mask : Nat → BitVec 32} {rounds : Nat → Nat} {core id req : Nat}

/-! ## The invariant -/

/-- The core has arrived in the round that is going on, and sleeps. -/
structure Arrived (s : BarrierSystem) (core id req : Nat) : Prop where
  status : (s.unit.barriers id).status.getLsbD core = true
  asleep : Asleep s.unit.eventBit s.unit.eventBit req .waitingBarrier (s.unit.top.core core)

/-- The round of the core is complete, and its answer is on its way. -/
structure Released (s : BarrierSystem) (mask : Nat → BitVec 32) (rounds : Nat → Nat) (core id req : Nat) : Prop where
  mask : (mask id).getLsbD core = true
  round_lt : s.round core id req < rounds id
  waking : ∃ active cycle, Waking s.unit.eventBit req active cycle (s.unit.top.core core) ∧ s.unit.top.now ≤ cycle ∧
    cycle ≤ s.unit.top.now + 2

/-- The invariant of the steps; `rounds` is how many rounds of each barrier are complete. -/
structure Inv (s : BarrierSystem) (mask : Nat → BitVec 32) (rounds : Nat → Nat) : Prop where
  nbCore_le : s.unit.top.nbCore ≤ 32
  event_lt : s.unit.barrierEvent < 32
  mask_ne : ∀ id < s.unit.nbBarriers, mask id ≠ 0#32
  coreMask : ∀ id, (s.unit.barriers id).coreMask = mask id
  targetMask : ∀ id, (s.unit.barriers id).targetMask = mask id
  incomplete : ∀ id < s.unit.nbBarriers, (s.unit.barriers id).status ≠ mask id
  runs : ∀ core < s.unit.top.nbCore, (∀ id req, ¬s.Waits core id req) → Running s.unit.eventBit (s.unit.top.core core)
  waits_lt : ∀ core id req, s.Waits core id req → core < s.unit.top.nbCore ∧ id < s.unit.nbBarriers
  waits : ∀ core id req, s.Waits core id req → s.Arrived core id req ∨ s.Released mask rounds core id req
  once : ∀ core id req id' req', s.Waits core id req → s.Waits core id' req' → id = id' ∧ req = req'
  bits : ∀ id core, (s.unit.barriers id).status.getLsbD core = true → ∃ req, s.Waits core id req ∧ s.Arrived core id req
  counts : ∀ id core, (mask id).getLsbD core = true →
    s.count core id = rounds id + ((s.unit.barriers id).status.getLsbD core).toNat
  last : ∀ core id req, s.Waits core id req → s.round core id req + 1 = s.count core id
  answeredOnce : s.answered.Nodup
  asked : ∀ req ∈ s.answered, req < s.arrivals.length
  notBefore : ∀ req ∈ s.answered, ∀ core id, s.arrivals[req]? = some (core, id) →
    (mask id).getLsbD core = true ∧ s.round core id req < rounds id

theorem runs_iff : s.Runs core ↔ core < s.unit.top.nbCore ∧ ∀ id req, ¬s.Waits core id req := by
  refine and_congr_right fun _ => forall_answered_iff.trans ?_
  exact ⟨fun h id req hw => h (core, id) req hw rfl, fun h y req hw heq => h y.2 req (heq ▸ hw)⟩

/-! ## Arrivals -/

/-- A step that adds an arrival, and answers nothing. -/
structure Arrives (s t : BarrierSystem) (core id : Nat) : Prop where
  arrivals : t.arrivals = s.arrivals ++ [(core, id)]
  answers : t.unit.top.answers = s.unit.top.answers
  now : t.unit.top.now = s.unit.top.now
  nbCore : t.unit.top.nbCore = s.unit.top.nbCore
  nbBarriers : t.unit.nbBarriers = s.unit.nbBarriers
  barrierEvent : t.unit.barrierEvent = s.unit.barrierEvent

namespace Arrives

variable {t : BarrierSystem}

variable (h : Arrives s t core id)
include h

theorem answered_eq : t.answered = s.answered := by rw [answered, h.answers]; rfl

theorem eventBit_eq : t.unit.eventBit = s.unit.eventBit := by
  rw [eventBit, h.barrierEvent]

theorem waits_iff (hasked : ∀ req ∈ s.answered, req < s.arrivals.length) :
    t.Waits core' id' req' ↔ s.Waits core' id' req' ∨ core' = core ∧ id' = id ∧ req' = s.arrivals.length := by
  rw [Waits, h.arrivals, h.answered_eq, pending_concat hasked, Prod.mk.injEq, and_assoc]
  rfl

theorem count_eq :
    t.count core' id' = s.count core' id' + if core' = core ∧ id' = id then 1 else 0 := by
  rw [count, count, h.arrivals, count_append, count_singleton]
  by_cases heq : core' = core ∧ id' = id
  · obtain ⟨rfl, rfl⟩ := heq
    simp
  · rw [if_neg heq]
    have hne : ((core, id) == (core', id')) = false := by
      rw [beq_eq_false_iff_ne, ne_eq, Prod.mk.injEq]
      exact fun h => heq ⟨h.1.symm, h.2.symm⟩
    rw [hne]
    rfl

theorem round_old (hlt : req' < s.arrivals.length) :
    t.round core' id' req' = s.round core' id' req' := by
  rw [round, round, h.arrivals, take_append_of_le_length hlt.le]

theorem round_new : t.round core id s.arrivals.length = s.count core id := by
  rw [round, h.arrivals, take_left, count]

theorem last_keeps (hi : s.Inv mask rounds) (hno : ∀ id req, ¬s.Waits core id req)
    (hw : t.Waits core' id' req') : t.round core' id' req' + 1 = t.count core' id' := by
  rcases (h.waits_iff hi.asked).1 hw with hws | ⟨rfl, rfl, rfl⟩
  · have hne : ¬(core' = core ∧ id' = id) := fun heq => hno id' req' (heq.1 ▸ hws)
    rw [h.round_old hws.lt, h.count_eq, if_neg hne]
    exact hi.last core' id' req' hws
  · rw [h.round_new, h.count_eq, if_pos ⟨rfl, rfl⟩]

theorem once_keeps (hi : s.Inv mask rounds) (hno : ∀ id req, ¬s.Waits core id req)
    {id₁ req₁ id₂ req₂ : Nat} (h₁ : t.Waits core' id₁ req₁) (h₂ : t.Waits core' id₂ req₂) :
      id₁ = id₂ ∧ req₁ = req₂ := by
  rcases (h.waits_iff hi.asked).1 h₁ with h₁ | ⟨rfl, rfl, rfl⟩
  · rcases (h.waits_iff hi.asked).1 h₂ with h₂ | ⟨rfl, rfl, rfl⟩
    · exact hi.once core' id₁ req₁ id₂ req₂ h₁ h₂
    · exact absurd h₁ (hno id₁ req₁)
  · rcases (h.waits_iff hi.asked).1 h₂ with h₂ | ⟨-, rfl, rfl⟩
    · exact absurd h₂ (hno id₂ req₂)
    · exact ⟨rfl, rfl⟩

theorem notBefore_keeps (hi : s.Inv mask rounds)
    (hrounds : ∀ id, rounds id ≤ rounds' id) (hreq : req' ∈ t.answered)
    (hread : t.arrivals[req']? = some (core', id')) :
    (mask id').getLsbD core' = true ∧ t.round core' id' req' < rounds' id' := by
  rw [h.answered_eq] at hreq
  have hlt := hi.asked req' hreq
  rw [h.arrivals, getElem?_append_left hlt] at hread
  obtain ⟨hmask, hround⟩ := hi.notBefore req' hreq core' id' hread
  rw [h.round_old hlt]
  exact ⟨hmask, hround.trans_le (hrounds id')⟩

end Arrives

theorem arrive_running (hrun : Running s.unit.eventBit (s.unit.top.core core)) (hid : id < s.unit.nbBarriers) :
    s.arrive core id = ⟨s.unit.triggerWaitClear id s.arrivals.length core, s.arrivals ++ [(core, id)]⟩ := by
  rw [arrive, demuxReq_running hrun, req]
  rw [if_neg (not_le.2 hid)]

theorem Inv.bit_runs (hi : s.Inv mask rounds) (hno : ∀ id req, ¬s.Waits core id req) (id : Nat) :
    (s.unit.barriers id).status.getLsbD core = false := by
  rw [Bool.eq_false_iff]
  intro hbit
  obtain ⟨req, hw, -⟩ := hi.bits id core hbit
  exact hno id req hw

theorem Inv.bit_waits (hi : s.Inv mask rounds) (hw : s.Waits core id req)
    (hbit : (s.unit.barriers id').status.getLsbD core = true) : id' = id ∧ s.Arrived core id req := by
  obtain ⟨req', hw', ha⟩ := hi.bits id' core hbit
  obtain ⟨rfl, rfl⟩ := hi.once core id' req' id req hw' hw
  exact ⟨rfl, ha⟩

theorem Arrived.not_released (ha : s.Arrived core id req) : ¬s.Released mask rounds core id req := fun hr => by
  obtain ⟨active, cycle, hw, -, -⟩ := hr.waking
  have hnone := ha.asleep.wakeupEvent
  rw [hw.wakeupEvent] at hnone
  cases hnone

/-- An arrival keeps the invariant, given how the status, the rounds and the cores that wait come out. -/
theorem Arrives.inv {t : BarrierSystem} {status : BitVec 32} (harr : Arrives s t core id)
    (hi : s.Inv mask rounds) (hno : ∀ id req, ¬s.Waits core id req) (hcore : core < s.unit.top.nbCore)
      (hid : id < s.unit.nbBarriers)
    (hle : ∀ id', rounds id' ≤ rounds' id') (hself : t.unit.barriers id = { s.unit.barriers id with status := status })
    (hother : ∀ id' ≠ id, t.unit.barriers id' = s.unit.barriers id') (hne : status ≠ mask id)
    (hruns : ∀ c ≠ core, (∀ id req, ¬s.Waits c id req) → t.unit.top.core c = s.unit.top.core c)
    (hnew : t.Arrived core id s.arrivals.length ∨ t.Released mask rounds' core id s.arrivals.length)
    (hold : ∀ c id' r, c ≠ core → s.Waits c id' r → t.Arrived c id' r ∨ t.Released mask rounds' c id' r)
    (hbits : ∀ id' c, (t.unit.barriers id').status.getLsbD c = true → ∃ r, t.Waits c id' r ∧ t.Arrived c id' r)
    (hcounts : ∀ id' c, (mask id').getLsbD c = true →
      t.count c id' = rounds' id' + ((t.unit.barriers id').status.getLsbD c).toNat) : t.Inv mask rounds' := by
  refine ⟨harr.nbCore ▸ hi.nbCore_le, harr.barrierEvent ▸ hi.event_lt, harr.nbBarriers ▸ hi.mask_ne,
    fun id' => ?coreMask, fun id' => ?targetMask,
    fun id' hlt => ?incomplete, fun c hc hnoT => ?runs, fun c id' r hw => ?waits_lt, fun c id' r hw => ?waits,
    fun c _ _ _ _ => harr.once_keeps hi hno, hbits, hcounts, fun c id' r => harr.last_keeps hi hno,
    harr.answered_eq ▸ hi.answeredOnce, fun r hr => ?asked,
      fun r hr c id' hread => harr.notBefore_keeps hi hle hr hread⟩
  case coreMask =>
    by_cases heq : id' = id
    · subst heq
      rw [hself]
      exact hi.coreMask id'
    · rw [hother id' heq, hi.coreMask]
  case targetMask =>
    by_cases heq : id' = id
    · subst heq
      rw [hself]
      exact hi.targetMask id'
    · rw [hother id' heq, hi.targetMask]
  case incomplete =>
    by_cases heq : id' = id
    · subst heq
      rw [hself]
      exact hne
    · rw [hother id' heq]
      exact hi.incomplete id' (harr.nbBarriers ▸ hlt)
  case runs =>
    have hnoS : ∀ i r, ¬s.Waits c i r := fun i r hw => hnoT i r ((harr.waits_iff hi.asked).2 (Or.inl hw))
    have hc' : c ≠ core := fun heq => hnoT id _ ((harr.waits_iff hi.asked).2 (Or.inr ⟨heq, rfl, rfl⟩))
    rw [harr.eventBit_eq, hruns c hc' hnoS]
    exact hi.runs c (harr.nbCore ▸ hc) hnoS
  case waits_lt =>
    rw [harr.nbCore, harr.nbBarriers]
    rcases (harr.waits_iff hi.asked).1 hw with hw | ⟨rfl, rfl, -⟩
    · exact hi.waits_lt c id' r hw
    · exact ⟨hcore, hid⟩
  case waits =>
    rcases (harr.waits_iff hi.asked).1 hw with hws | ⟨rfl, rfl, rfl⟩
    · exact hold c id' r (fun heq => hno id' r (heq ▸ hws)) hws
    · exact hnew
  case asked =>
    rw [harr.arrivals, length_append]
    exact Nat.lt_add_right _ (hi.asked r (harr.answered_eq ▸ hr))

section

variable (hi : s.Inv mask rounds)
include hi

theorem inv_early (hruns : s.Runs core) (hid : id < s.unit.nbBarriers)
    (hmask : s.unit.arrivedStatus id core ≠ mask id) : (s.arrive core id).Inv mask rounds := by
  obtain ⟨hcore, hno⟩ := runs_iff.1 hruns
  have hcore32 : core < 32 := hcore.trans_le hi.nbCore_le
  have hrun := hi.runs core hcore hno
  obtain ⟨e, he, hunit⟩ := s.unit.arrive_early hrun
    (by rw [hi.coreMask]; exact hmask)
  rw [arrive_running hrun hid, hunit]
  obtain ⟨t, ht⟩ : ∃ t : BarrierSystem, t = ⟨{ s.unit with
      top := s.unit.top.setCore core e
      barriers := update s.unit.barriers id { s.unit.barriers id with status := s.unit.arrivedStatus id core } },
    s.arrivals ++ [(core, id)]⟩ := ⟨_, rfl⟩
  rw [← ht]
  have harr : Arrives s t core id := by rw [ht]; exact ⟨rfl, rfl, rfl, rfl, rfl, rfl⟩
  have hself : t.unit.barriers id = { s.unit.barriers id with status := s.unit.arrivedStatus id core } := by
    rw [ht]; exact update_self _ _ _
  have hother : ∀ id' ≠ id, t.unit.barriers id' = s.unit.barriers id' := fun id' hne => by
    rw [ht]; exact update_of_ne hne _ _
  have hcoreSelf : t.unit.top.core core = e := by rw [ht]; exact update_self _ _ _
  have hcoreOther : ∀ c ≠ core, t.unit.top.core c = s.unit.top.core c := fun c hne => by
    rw [ht]; exact update_of_ne hne _ _
  -- the status of the barrier has one bit more
  have hstatus : ∀ id' c, (t.unit.barriers id').status.getLsbD c =
      ((s.unit.barriers id').status.getLsbD c || decide (id' = id ∧ c = core)) := by
    intro id' c
    by_cases hne : id' = id
    · subst hne
      rw [hself, arrivedStatus, getLsbD_or_bit hcore32]
      simp [eq_comm]
    · rw [hother id' hne]
      simp [hne]
  have harrived : ∀ c id' r, c ≠ core → s.Arrived c id' r → t.Arrived c id' r := fun c id' r hne ha =>
    ⟨by rw [hstatus, ha.status, Bool.true_or], by rw [harr.eventBit_eq, hcoreOther c hne]; exact ha.asleep⟩
  have hnew : t.Arrived core id s.arrivals.length :=
    ⟨by rw [hstatus]; simp, by rw [harr.eventBit_eq, hcoreSelf]; exact he⟩
  refine harr.inv hi hno hcore hid (fun _ => le_rfl) hself hother hmask (fun c hne _ => hcoreOther c hne) (.inl hnew)
    (fun c id' r hne hw => ?waits) (fun id' c hbit => ?bits) (fun id' c hc => ?counts)
  case waits =>
    refine (hi.waits c id' r hw).imp (harrived c id' r hne) fun hr => ⟨hr.mask, ?_, ?_⟩
    · rw [harr.round_old hw.lt]
      exact hr.round_lt
    · rw [harr.eventBit_eq, hcoreOther c hne, harr.now]
      exact hr.waking
  case bits =>
    by_cases hc : c = core
    · subst hc
      rw [hstatus, hi.bit_runs hno, Bool.false_or, decide_eq_true_eq] at hbit
      exact ⟨_, (harr.waits_iff hi.asked).2 (Or.inr ⟨rfl, hbit.1, rfl⟩), hbit.1 ▸ hnew⟩
    · rw [hstatus, decide_eq_false fun h => hc h.2, Bool.or_false] at hbit
      obtain ⟨r, hw, ha⟩ := hi.bits id' c hbit
      exact ⟨r, (harr.waits_iff hi.asked).2 (Or.inl hw), harrived c id' r hc ha⟩
  case counts =>
    rw [harr.count_eq, hi.counts id' c hc, hstatus]
    by_cases heq : c = core ∧ id' = id
    · obtain ⟨rfl, rfl⟩ := heq
      rw [hi.bit_runs hno]
      simp
    · have hne : ¬(id' = id ∧ c = core) := fun h => heq ⟨h.2, h.1⟩
      rw [if_neg heq, decide_eq_false hne, Bool.or_false, add_zero]

theorem inv_last (hruns : s.Runs core) (hid : id < s.unit.nbBarriers) (hmask : s.unit.arrivedStatus id core = mask id) :
    (s.arrive core id).Inv mask (update rounds id (rounds id + 1)) := by
  obtain ⟨hcore, hno⟩ := runs_iff.1 hruns
  have hcore32 : core < 32 := hcore.trans_le hi.nbCore_le
  have hrun := hi.runs core hcore hno
  have hrel := s.unit.arrive_last id s.arrivals.length hrun hcore hi.nbCore_le hi.event_lt
    (by rw [hi.targetMask, hi.coreMask]) (by rw [hi.coreMask]; exact hmask)
  rw [arrive_running hrun hid]
  obtain ⟨u, hu⟩ : ∃ u, u = s.unit.triggerWaitClear id s.arrivals.length core := ⟨_, rfl⟩
  rw [← hu] at hrel ⊢
  obtain ⟨t, ht⟩ : ∃ t : BarrierSystem, t = ⟨u, s.arrivals ++ [(core, id)]⟩ := ⟨_, rfl⟩
  rw [← ht]
  have hunit : t.unit = u := by rw [ht]
  rw [← hunit] at hrel
  have harr : Arrives s t core id := { hrel with arrivals := by rw [ht] }
  have hself : t.unit.barriers id = { s.unit.barriers id with status := 0#32 } := by
    rw [hrel.barriers]; exact update_self _ _ _
  have hother : ∀ id' ≠ id, t.unit.barriers id' = s.unit.barriers id' := fun id' hne => by
    rw [hrel.barriers]; exact update_of_ne hne _ _
  have hle : ∀ id', rounds id' ≤ update rounds id (rounds id + 1) id' := fun id' => by
    by_cases heq : id' = id
    · subst heq
      rw [update_self]
      exact Nat.le_succ _
    · exact (update_of_ne heq _ _).symm.le
  -- the cores of the mask are those that have arrived, and the last one
  have hbits : ∀ c, c ≠ core → (mask id).getLsbD c = (s.unit.barriers id).status.getLsbD c := fun c hc => by
    rw [← hmask, arrivedStatus, getLsbD_or_bit_of_ne hc]
  have hcoreMask : (mask id).getLsbD core = true := by
    rw [← hmask, arrivedStatus, getLsbD_or_bit hcore32]
    simp
  have hkept : ∀ c, c ≠ core → (s.unit.barriers id).status.getLsbD c = false → t.unit.top.core c = s.unit.top.core c :=
    fun c hc hbit => hrel.others c hc (by rw [hi.coreMask, hbits c hc]; exact hbit)
  have harrived : ∀ c id' r, c ≠ core → id' ≠ id → s.Waits c id' r → s.Arrived c id' r → t.Arrived c id' r := by
    intro c id' r hc hid' hw ha
    have hbit : (s.unit.barriers id).status.getLsbD c = false := Bool.eq_false_iff.2 fun hbit =>
      hid' (hi.bit_waits hw hbit).1.symm
    exact ⟨by rw [hother id' hid']; exact ha.status, by rw [harr.eventBit_eq, hkept c hc hbit]; exact ha.asleep⟩
  have hreleased : ∀ c id' r, c ≠ core → s.Waits c id' r → s.Released mask rounds c id' r →
      t.Released mask (update rounds id (rounds id + 1)) c id' r := by
    intro c id' r hc hw hr
    have hbit : (s.unit.barriers id).status.getLsbD c = false := Bool.eq_false_iff.2 fun hbit =>
      (hi.bit_waits hw hbit).2.not_released hr
    refine ⟨hr.mask, ?_, ?_⟩
    · rw [harr.round_old hw.lt]
      exact hr.round_lt.trans_le (hle id')
    · rw [harr.eventBit_eq, hkept c hc hbit, harr.now]
      exact hr.waking
  -- those that had arrived are released
  have hsleepers : ∀ c r, c ≠ core → s.Waits c id r → s.Arrived c id r →
      t.Released mask (update rounds id (rounds id + 1)) c id r := by
    intro c r hc hw ha
    have hmaskC : (mask id).getLsbD c = true := by rw [hbits c hc]; exact ha.status
    refine ⟨hmaskC, ?_, false, s.unit.top.now + 2, ?_, by rw [harr.now]; omega, Int.le_of_eq (by rw [harr.now])⟩
    · have hlast := hi.last c id r hw
      have hcount := hi.counts id c hmaskC
      rw [ha.status, Bool.toNat_true] at hcount
      rw [harr.round_old hw.lt, update_self]
      omega
    · rw [harr.eventBit_eq]
      exact hrel.sleepers c r (hi.waits_lt c id r hw).1 hc (by rw [hi.coreMask]; exact hmaskC) ha.asleep
  have hnew : t.Released mask (update rounds id (rounds id + 1)) core id s.arrivals.length := by
    refine ⟨hcoreMask, ?_, true, s.unit.top.now + 2, ?_, by rw [harr.now]; omega, Int.le_of_eq (by rw [harr.now])⟩
    · have hcount := hi.counts id core hcoreMask
      rw [hi.bit_runs hno, Bool.toNat_false] at hcount
      rw [harr.round_new, update_self]
      omega
    · rw [harr.eventBit_eq]
      exact hrel.last
  refine harr.inv hi hno hcore hid hle hself hother (hi.mask_ne id hid).symm
    (fun c hc hnoS => hkept c hc (hi.bit_runs hnoS id)) (.inr hnew) (fun c id' r hc hw => ?waits)
      (fun id' c hbit => ?bits)
    (fun id' c hc => ?counts)
  case waits =>
    rcases hi.waits c id' r hw with ha | hr
    · by_cases heq : id' = id
      · subst heq
        exact .inr (hsleepers c r hc hw ha)
      · exact .inl (harrived c id' r hc heq hw ha)
    · exact .inr (hreleased c id' r hc hw hr)
  case bits =>
    by_cases heq : id' = id
    · subst heq
      rw [hself] at hbit
      simp at hbit
    · rw [hother id' heq] at hbit
      obtain ⟨r, hw, ha⟩ := hi.bits id' c hbit
      have hc : c ≠ core := fun h => hno id' r (h ▸ hw)
      exact ⟨r, (harr.waits_iff hi.asked).2 (Or.inl hw), harrived c id' r hc heq hw ha⟩
  case counts =>
    rw [harr.count_eq, hi.counts id' c hc]
    by_cases heq : id' = id
    · subst heq
      rw [hself, update_self]
      by_cases hcc : c = core
      · subst hcc
        rw [hi.bit_runs hno]
        simp
      · rw [← hbits c hcc, hc]
        simp [hcc]
    · rw [hother id' heq, update_of_ne heq, if_neg fun h => heq h.2, add_zero]

/-! ## Answers and cycles -/

theorem inv_wakeup (hcore : core < s.unit.top.nbCore)
    (h : s.unit.top.wakeupHandler core = some top) : (s.withTop top).Inv mask rounds := by
  have hevent : (s.unit.top.core core).wakeupEvent ≠ none := fun hnone => by
    rw [wakeupHandler, hnone, if_neg (by simp)] at h
    cases h
  obtain ⟨id, req, hw⟩ : ∃ id req, s.Waits core id req := by
    by_contra hno
    exact hevent (hi.runs core hcore fun id req hw => hno ⟨id, req, hw⟩).wakeupEvent
  have hr := (hi.waits core id req hw).resolve_left fun ha => hevent ha.asleep.wakeupEvent
  obtain ⟨active, cycle, hwaking, -, -⟩ := hr.waking
  obtain ⟨-, hnow, hnb, -, hans, e, he, hcores⟩ := wakeupHandler_waking hwaking h
  obtain ⟨t, ht⟩ : ∃ t, t = s.withTop top := ⟨_, rfl⟩
  rw [← ht]
  have hanswered : t.answered = s.answered ++ [req] := by
    rw [ht, answered]
    show top.answers.map _ = _
    rw [hans, map_append]
    rfl
  have hbar : t.unit.barriers = s.unit.barriers := by rw [ht]; rfl
  have harrivals : t.arrivals = s.arrivals := by rw [ht]; rfl
  have hwaits : ∀ c i r, t.Waits c i r ↔ s.Waits c i r ∧ r ≠ req := fun c i r => by
    rw [Waits, hanswered, harrivals]
    exact pending_answered
  have hne : ∀ {c i r}, t.Waits c i r → c ≠ core := fun {c i r} hw' heq => by
    have hws := (hwaits c i r).1 hw'
    exact hws.2 (hi.once core i r id req (heq ▸ hws.1) hw).2
  have hcoreOf : ∀ c, c ≠ core → t.unit.top.core c = s.unit.top.core c := fun c hc => by
    rw [ht]
    show top.core c = _
    rw [hcores, update_of_ne hc]
  have hround : ∀ c i r, t.round c i r = s.round c i r := fun c i r => by rw [round, harrivals]; rfl
  have hcount : ∀ c i, t.count c i = s.count c i := fun c i => by rw [count, harrivals]; rfl
  have hbit : t.unit.eventBit = s.unit.eventBit := by rw [ht]; rfl
  have hnow' : t.unit.top.now = s.unit.top.now := by rw [ht]; exact hnow
  have hnb' : t.unit.top.nbCore = s.unit.top.nbCore := by rw [ht]; exact hnb
  have harrived : ∀ c i r, c ≠ core → s.Arrived c i r → t.Arrived c i r := fun c i r hc ha =>
    ⟨by rw [hbar]; exact ha.status, by rw [hbit, hcoreOf c hc]; exact ha.asleep⟩
  refine ⟨hnb' ▸ hi.nbCore_le, by rw [ht]; exact hi.event_lt, by rw [ht]; exact hi.mask_ne, by
    rw [hbar]; exact hi.coreMask, by rw [hbar]; exact hi.targetMask,
    by rw [hbar, ht]; exact hi.incomplete, fun c hc hno => ?runs, fun c i r hw' => ?waits_lt, fun c i r hw' => ?waits,
    fun c i r i' r' h₁ h₂ => hi.once c i r i' r' ((hwaits c i r).1 h₁).1 ((hwaits c i' r').1 h₂).1, fun i c hb => ?bits,
    fun i c hc => by rw [hcount, hbar]; exact hi.counts i c hc,
    fun c i r hw' => by
      rw [hround, hcount]; exact hi.last c i r ((hwaits c i r).1 hw').1, ?answeredOnce, fun r hr' => ?asked,
    fun r hr' c i hread => ?notBefore⟩
  case runs =>
    rw [hbit]
    by_cases hc' : c = core
    · subst hc'
      rw [ht]
      show Running _ (top.core c)
      rw [hcores, update_self]
      exact he
    · rw [hcoreOf c hc']
      refine hi.runs c (hnb' ▸ hc) fun i r hws => hno i r ((hwaits c i r).2 ⟨hws, fun heq => ?_⟩)
      exact hc' (Prod.ext_iff.1 (Pending.inj hws (heq ▸ hw))).1
  case waits_lt =>
    rw [hnb', ht]
    exact hi.waits_lt c i r ((hwaits c i r).1 hw').1
  case waits =>
    refine (hi.waits c i r ((hwaits c i r).1 hw').1).imp (harrived c i r (hne hw')) fun hr' => ⟨hr'.mask, ?_, ?_⟩
    · rw [hround]
      exact hr'.round_lt
    · rw [hbit, hcoreOf c (hne hw'), hnow']
      exact hr'.waking
  case bits =>
    rw [hbar] at hb
    obtain ⟨r, hws, ha⟩ := hi.bits i c hb
    have hc : c ≠ core := fun heq => by
      subst heq
      exact (hi.bit_waits hw hb).2.not_released hr
    refine ⟨r, (hwaits c i r).2 ⟨hws, fun heq => ?_⟩, harrived c i r hc ha⟩
    exact hc (Prod.ext_iff.1 (Pending.inj hws (heq ▸ hw))).1
  case answeredOnce =>
    rw [hanswered]
    exact nodup_append.2 ⟨hi.answeredOnce, nodup_singleton _, fun a ha b hb heq => by
      have hreq : a = req := heq.trans (mem_singleton.1 hb)
      exact hw.2 (hreq ▸ ha)⟩
  case asked =>
    rw [hanswered, mem_append, mem_singleton] at hr'
    rw [harrivals]
    rcases hr' with hr' | rfl
    · exact hi.asked r hr'
    · exact hw.lt
  case notBefore =>
    rw [hanswered, mem_append, mem_singleton] at hr'
    rw [harrivals] at hread
    rw [hround]
    rcases hr' with hr' | rfl
    · exact hi.notBefore r hr' c i hread
    · cases Option.some.inj (hread.symm.trans hw.1)
      exact ⟨hr.mask, hr.round_lt⟩

theorem inv_tick (h : s.unit.top.tick = some top) :
    (s.withTop top).Inv mask rounds := by
  rw [tick] at h
  split at h
  case isFalse => cases h
  case isTrue hdue =>
    cases h
    refine { hi with waits := fun c i r hw => ?_, bits := fun i c hb => ?bits }
    case bits =>
      obtain ⟨r, hw, ha⟩ := hi.bits i c hb
      exact ⟨r, hw, ha.status, ha.asleep⟩
    refine (hi.waits c i r hw).imp (fun ha => ⟨ha.status, ha.asleep⟩) fun hr => ⟨hr.mask, hr.round_lt, ?_⟩
    obtain ⟨active, cycle, hwaking, -, hle⟩ := hr.waking
    refine ⟨active, cycle, hwaking, hdue c (hi.waits_lt c i r hw).1 cycle hwaking.wakeupEvent, ?_⟩
    show cycle ≤ s.unit.top.now + 1 + 2
    omega

theorem barrierStep_inv {event : BarrierEvent} {s' : BarrierSystem} (h : barrierStep s event = some s') :
    ∃ rounds', s'.Inv mask rounds' := by
  cases event with
  | arrive core id =>
    obtain ⟨⟨hruns, hid⟩, heq⟩ := ite_none_right_eq_some.1 h
    cases heq
    by_cases hlast : s.unit.arrivedStatus id core = mask id
    · exact ⟨_, inv_last hi hruns hid hlast⟩
    · exact ⟨_, inv_early hi hruns hid hlast⟩
  | wakeup core =>
    obtain ⟨hcore, hmap⟩ := ite_none_right_eq_some.1 h
    obtain ⟨top, htop, rfl⟩ := map_eq_some_iff.1 hmap
    exact ⟨_, inv_wakeup hi hcore htop⟩
  | tick =>
    obtain ⟨top, htop, rfl⟩ := map_eq_some_iff.1 h
    exact ⟨_, inv_tick hi htop⟩

end

theorem barrierInit_inv {nbCore nbBarriers barrierEvent : Nat} (hnb : nbCore ≤ 32) (hevent : barrierEvent < 32)
    (hmask : ∀ id < nbBarriers, mask id ≠ 0#32) : (barrierInit nbCore nbBarriers barrierEvent mask).Inv mask
      fun _ => 0 := by
  have hno : ∀ core id req, ¬(barrierInit nbCore nbBarriers barrierEvent mask).Waits core id req := fun _ _ _ h => by
    cases h.1
  refine ⟨hnb, hevent, hmask, fun _ => rfl, fun _ => rfl, fun id hid => (hmask id hid).symm,
    fun _ _ _ => ⟨⟨rfl, rfl, rfl, rfl, rfl⟩, rfl, rfl, rfl, rfl⟩, fun c i r h => absurd h (hno c i r),
    fun c i r h => absurd h (hno c i r), fun c i r _ _ h => absurd h (hno c i r), fun id core h => ?_,
      fun id core _ => ?_,
    fun c i r h => absurd h (hno c i r), nodup_nil, fun _ h => absurd h not_mem_nil,
    fun _ h => absurd h not_mem_nil⟩
  · replace h : (0#32).getLsbD core = true := h
    simp at h
  · show 0 = 0 + ((0#32).getLsbD core).toNat
    simp

/-! ## Exact rounds -/

/-- **Barriers are exact**: what holds in every state of a run. -/
structure Exact (s : BarrierSystem) (mask : Nat → BitVec 32) : Prop where
  /-- No arrival is answered twice. -/
  answeredOnce : s.answered.Nodup
  asked : ∀ req ∈ s.answered, req < s.arrivals.length
  /-- An arrival is answered after all cores of the mask have arrived in its round. -/
  notBefore : ∀ req ∈ s.answered, ∀ core id, s.arrivals[req]? = some (core, id) → ∀ other,
    (mask id).getLsbD other = true → s.round core id req < s.count other id
  /-- The cores of a barrier are in the same round, or have done one round more. -/
  rounds : ∀ id one other, (mask id).getLsbD one = true → (mask id).getLsbD other = true →
    s.count one id ≤ s.count other id + 1
  /-- An arrival that has not been answered waits for a core that has not arrived in its round, unless its answer is on
  its way; for barriers at which only cores of the mask arrive. -/
  pending : ∀ core id req, s.Waits core id req → (∀ other, (other, id) ∈ s.arrivals → (mask id).getLsbD other = true) →
    (s.unit.top.core core).pendingReq = some req ∧
      ((∃ other, (mask id).getLsbD other = true ∧ s.count other id ≤ s.round core id req) ∨
        ∃ cycle, (s.unit.top.core core).wakeupEvent = some cycle ∧ s.unit.top.now ≤ cycle ∧ cycle ≤ s.unit.top.now + 2)

theorem Inv.exists_missing (hi : s.Inv mask rounds) (hid : id < s.unit.nbBarriers)
    (honly : ∀ other, (other, id) ∈ s.arrivals → (mask id).getLsbD other = true) :
    ∃ other, (mask id).getLsbD other = true ∧ (s.unit.barriers id).status.getLsbD other = false := by
  by_contra hall
  refine hi.incomplete id hid (BitVec.eq_of_getLsbD_eq fun j _ => ?_)
  cases hstatus : (s.unit.barriers id).status.getLsbD j with
  | true =>
    obtain ⟨req, hw, -⟩ := hi.bits id j hstatus
    exact (honly j (mem_of_getElem? hw.1)).symm
  | false =>
    refine (Bool.eq_false_iff.2 fun hmask => hall ⟨j, hmask, hstatus⟩).symm

theorem Inv.exact (hi : s.Inv mask rounds) : s.Exact mask := by
  refine ⟨hi.answeredOnce, hi.asked, fun req hreq core id hread other hother => ?_, fun id one other hone hother => ?_,
    fun core id req hw honly => ?_⟩
  · have hcount := hi.counts id other hother
    have hround := (hi.notBefore req hreq core id hread).2
    omega
  · have h₁ := hi.counts id one hone
    have h₂ := hi.counts id other hother
    have hle := Bool.toNat_le ((s.unit.barriers id).status.getLsbD one)
    omega
  · rcases hi.waits core id req hw with ha | hr
    · refine ⟨ha.asleep.pendingReq, Or.inl ?_⟩
      obtain ⟨other, hother, hmissing⟩ := hi.exists_missing (hi.waits_lt core id req hw).2 honly
      have hlast := hi.last core id req hw
      have hself := hi.counts id core (honly core (mem_of_getElem? hw.1))
      have hcount := hi.counts id other hother
      rw [ha.status, Bool.toNat_true] at hself
      rw [hmissing, Bool.toNat_false] at hcount
      exact ⟨other, hother, by omega⟩
    · obtain ⟨active, cycle, hwaking, hle, hle'⟩ := hr.waking
      exact ⟨hwaking.pendingReq, Or.inr ⟨cycle, hwaking.wakeupEvent, hle, hle'⟩⟩

end BarrierSystem

/-- **The barriers are exact over repeated rounds.** -/
theorem barrier_exact {nbCore nbBarriers barrierEvent : Nat} {mask : Nat → BitVec 32} {events : List BarrierEvent}
    {s : BarrierSystem} (hnb : nbCore ≤ 32) (hevent : barrierEvent < 32) (hmask : ∀ id < nbBarriers, mask id ≠ 0#32)
    (h : run barrierStep (barrierInit nbCore nbBarriers barrierEvent mask) events = some s) : s.Exact mask := by
  obtain ⟨rounds, hi⟩ : ∃ rounds, s.Inv mask rounds :=
    run_invariant (I := fun s => ∃ rounds, s.Inv mask rounds)
      (fun _ _ _ ⟨_, hi⟩ hs => BarrierSystem.barrierStep_inv hi hs)
        ⟨_, BarrierSystem.barrierInit_inv hnb hevent hmask⟩ h
  exact hi.exact

/-- Two barriers that share a core, and two rounds of the first one. -/
def twoRounds : List BarrierEvent :=
  [.arrive 0 0, .arrive 2 1, .arrive 1 0, .tick, .tick, .wakeup 0, .arrive 0 0, .wakeup 1, .arrive 1 1, .tick, .tick,
    .wakeup 2, .wakeup 1]

theorem barrier_exact_twoRounds : ∃ s,
    run barrierStep (barrierInit 3 2 16 fun id => if id = 0 then 0b011#32 else 0b110#32) twoRounds = some s ∧
      s.answered = [0, 2, 1, 4] ∧ s.Exact fun id => if id = 0 then 0b011#32 else 0b110#32 := by
  have hrun : (run barrierStep (barrierInit 3 2 16 fun id => if id = 0 then 0b011#32 else 0b110#32) twoRounds).map
      (·.answered) = some [0, 2, 1, 4] := by decide +kernel
  obtain ⟨s, hs, heq⟩ := map_eq_some_iff.1 hrun
  refine ⟨s, hs, heq, barrier_exact (by decide) (by decide) (fun id _ => ?_) hs⟩
  split <;> decide

end GvsocPulp.EventUnitV3
