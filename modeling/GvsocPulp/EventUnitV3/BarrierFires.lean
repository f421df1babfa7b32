import GvsocPulp.EventUnitV3.Barrier

/-!
# The event unit: when a barrier fires

What the accesses to one barrier send, from the reset state on, while the rest of the unit does anything. The arrivals
are counted by the accesses; the event is due when the mask is not empty and all of it has arrived.

- `access_eq`: an access updates the registers, then checks the barrier, then puts its core to sleep, where the demux
  does not answer it itself;
- `fires_on_arrivals_iff`: the event is sent when it is due, and to the cores of the target mask, exactly where the test
  for equality stands for this.
-/

namespace GvsocPulp.EventUnitV3

open Lib CoreEventUnit BitVec BarrierUnit EventUnit

/-! ## Accesses -/

/-- An access to a barrier, by the demux of the core or, without a core, on the port of the unit. -/
structure BarrierAccess where
  req : Nat := 0
  reg : BarrierReg
  isWrite : Bool := true
  data : BitVec 32 := 0#32
  core : Nat := 0
  demux : Bool := true
  deriving DecidableEq, Repr

namespace BarrierAccess

def waits (a : BarrierAccess) : Bool := a.reg == .triggerWait || a.reg == .triggerWaitClear

/-- The access is valid only through the demux. -/
def isInvalid (a : BarrierAccess) : Bool := !a.demux && (a.reg == .triggerSelf || a.waits)

end BarrierAccess

/-- The cores that `trigger_event` sends to. -/
def EventUnit.targets (s : EventUnit) (coreMask : BitVec 32) : List Nat :=
  (List.range s.nbCore).filter fun i => decide (coreMask = 0#32 ∨ coreMask.getLsbD i)

namespace BarrierUnit

/-- What an access does before it checks the barrier; `none` where it does not check it. -/
def beforeCheck (u : BarrierUnit) (id : Nat) (a : BarrierAccess) : Option BarrierUnit :=
  let barrier := u.barriers id
  if u.nbBarriers ≤ id then none
  else match a.reg, a.isWrite with
    | .triggerMask, true => some (u.setBarrier id { barrier with coreMask := a.data })
    | .targetMask, true => some (u.setBarrier id { barrier with targetMask := a.data })
    | .status, true => some (u.setBarrier id { barrier with status := a.data })
    | .trigger, true => some (u.arrive id a.data)
    | .triggerSelf, _ => some (u.arrive id (1#32 <<< a.core))
    | .triggerWait, _ => some (u.arriveSelf id a.core)
    | .triggerWaitClear, _ => some ((u.arriveSelf id a.core).clearsAll a.core)
    | _, _ => none

def afterCheck (u : BarrierUnit) (a : BarrierAccess) : BarrierUnit :=
  match a.reg with
  | .triggerWait | .triggerWaitClear => u.sleep a.req a.core
  | _ => u

/-- The cores that the check sends the barrier event to, if it triggers it. -/
def checkSends (u : BarrierUnit) (id : Nat) : Option (List Nat) :=
  if (u.barriers id).status = (u.barriers id).coreMask then some (u.top.targets (u.barriers id).targetMask) else none

/-- The access does not reach the barrier: it is invalid, or the demux answers it. -/
def misses (u : BarrierUnit) (a : BarrierAccess) : Bool := a.isInvalid || a.demux && u.top.skips a.core

def demuxed (u : BarrierUnit) (a : BarrierAccess) : BarrierUnit :=
  if a.demux then { u with top := u.top.demuxReq a.core } else u

def access (u : BarrierUnit) (id : Nat) (a : BarrierAccess) : BarrierUnit :=
  if u.misses a then u.demuxed a else ((u.demuxed a).req a.req id a.reg a.isWrite a.data a.core).1

/-- The unit as the access leaves it to the check; `none` where there is no check. -/
def tested (u : BarrierUnit) (id : Nat) (a : BarrierAccess) : Option BarrierUnit :=
  if u.misses a then none else (u.demuxed a).beforeCheck id a

/-- The cores that an access sends the barrier event to, if it triggers it. -/
def sends (u : BarrierUnit) (id : Nat) (a : BarrierAccess) : Option (List Nat) :=
  (u.tested id a).bind fun v => v.checkSends id

variable {u v : BarrierUnit} {id : Nat} {a : BarrierAccess}

theorem fst_req (u : BarrierUnit) (id : Nat) (a : BarrierAccess) :
    (u.req a.req id a.reg a.isWrite a.data a.core).1 =
      match u.beforeCheck id a with
      | none => u
      | some v => (v.checkBarrier id).afterCheck a := by
  obtain ⟨r, reg, isWrite, data, core, _⟩ := a
  unfold req beforeCheck
  dsimp only
  split
  · rfl
  · cases reg <;> cases isWrite <;> rfl

theorem barriers_afterCheck (u : BarrierUnit) (a : BarrierAccess) : (u.afterCheck a).barriers = u.barriers := by
  obtain ⟨_, reg, _, _, _, _⟩ := a
  cases reg <;> rfl

theorem barriers_checkBarrier (u : BarrierUnit) (id : Nat) :
    (u.checkBarrier id).barriers id =
      if (u.barriers id).status = (u.barriers id).coreMask then { u.barriers id with status := 0#32 }
        else u.barriers id := by
  rw [checkBarrier]
  dsimp only
  split
  · exact Function.update_self id _ _
  · rfl

def SameSize (u v : BarrierUnit) : Prop := v.nbBarriers = u.nbBarriers ∧ v.top.nbCore = u.top.nbCore

theorem sameSize_beforeCheck (h : u.beforeCheck id a = some v) : u.SameSize v := by
  obtain ⟨r, reg, isWrite, data, core, _⟩ := a
  have hself : u.SameSize (u.arriveSelf id core) := by
    unfold arriveSelf
    split <;> exact ⟨rfl, rfl⟩
  unfold beforeCheck at h
  dsimp only at h
  split at h
  · cases h
  · cases reg <;> cases isWrite <;> simp only [reduceCtorEq, Option.some.injEq] at h <;> subst h <;>
      first | exact ⟨rfl, rfl⟩ | exact hself

theorem sameSize_checkBarrier (u : BarrierUnit) (id : Nat) : u.SameSize (u.checkBarrier id) := by
  unfold checkBarrier
  dsimp only
  split
  · exact ⟨rfl, (triggerEvent_spec _ _ _).nbCore⟩
  · exact ⟨rfl, rfl⟩

theorem sameSize_afterCheck (u : BarrierUnit) (a : BarrierAccess) : u.SameSize (u.afterCheck a) := by
  obtain ⟨r, reg, isWrite, data, core, _⟩ := a
  have hsleep : u.SameSize (u.sleep r core) := by
    refine ⟨rfl, ?_⟩
    simp only [sleep, waitEvent]
    split <;> rfl
  cases reg <;> first | exact ⟨rfl, rfl⟩ | exact hsleep

theorem demuxed_same (u : BarrierUnit) (a : BarrierAccess) : (u.demuxed a).barriers = u.barriers ∧
    u.SameSize (u.demuxed a) := by
  rw [demuxed]
  split <;> exact ⟨rfl, rfl, rfl⟩

theorem tested_eq_some (h : u.tested id a = some v) : u.misses a = false ∧ (u.demuxed a).beforeCheck id a = some v := by
  rw [tested] at h
  split at h
  case isTrue => cases h
  case isFalse hm => exact ⟨Bool.eq_false_iff.2 hm, h⟩

theorem access_eq (u : BarrierUnit) (id : Nat) (a : BarrierAccess) :
    u.access id a =
      match u.tested id a with
      | none => u.demuxed a
      | some v => (v.checkBarrier id).afterCheck a := by
  rw [access, tested]
  split
  · rfl
  · exact fst_req _ id a

theorem sameSize_tested (h : u.tested id a = some v) : u.SameSize v := by
  obtain ⟨hb, hc⟩ := sameSize_beforeCheck (tested_eq_some h).2
  obtain ⟨-, hb', hc'⟩ := demuxed_same u a
  exact ⟨hb.trans hb', hc.trans hc'⟩

/-- The demux changes the state of a core only where it answers the access. -/
theorem state_demuxed (h : u.misses a = false) : ((u.demuxed a).top.core a.core).state = (u.top.core a.core).state := by
  rw [demuxed]
  split
  case isFalse => rfl
  case isTrue hd =>
    rw [misses, hd, Bool.true_and, Bool.or_eq_false_iff] at h
    simp [demuxReq, setCore, h.2]

end BarrierUnit

/-! ## Runs -/

deriving instance DecidableEq for Barrier

/-- The unit, with the cores that have arrived at the barrier since its last release, as the accesses tell, and the last
wait of each core for it. -/
structure BarrierRun where
  unit : BarrierUnit
  arrived : Nat → Bool := fun _ => false
  waits : Nat → Option Nat := fun _ => none

/-- An access to the barrier, or whatever happens to the rest of the unit. -/
inductive BarrierRunEvent
  | access (a : BarrierAccess)
  | elsewhere (unit : BarrierUnit)

/-- The arrivals after an access: a trigger adds cores, a write of the status says which have arrived. -/
def BarrierAccess.arrivals (a : BarrierAccess) (arrived : Nat → Bool) : Nat → Bool :=
  match a.reg, a.isWrite with
  | .status, true => fun core => a.data.getLsbD core
  | .trigger, true => fun core => arrived core || a.data.getLsbD core
  | .triggerSelf, _ => fun core => arrived core || decide (a.core = core)
  | .triggerWait, _ => fun core => arrived core || decide (a.core = core)
  | .triggerWaitClear, _ => fun core => arrived core || decide (a.core = core)
  | _, _ => arrived

namespace BarrierRun

def after (s : BarrierRun) (id : Nat) (a : BarrierAccess) : BarrierUnit := s.unit.access id a

/-- The core starts its last wait for the barrier again, which an interrupt has ended and which has been answered. -/
def replays (s : BarrierRun) (a : BarrierAccess) : Bool :=
  a.demux && s.unit.top.skips a.core && a.waits && (s.waits a.core).isSome &&
    (s.unit.top.core a.core).pendingReq == s.waits a.core

/-- The arrivals after the access: no new ones where it is invalid, or was made before. -/
def arrivals (s : BarrierRun) (a : BarrierAccess) : Nat → Bool :=
  if a.isInvalid || s.replays a then s.arrived else a.arrivals s.arrived

/-- After the access, the mask is not empty and all of it has arrived. -/
def Due (s : BarrierRun) (id : Nat) (a : BarrierAccess) : Prop :=
  ((s.after id a).barriers id).coreMask ≠ 0#32 ∧
    ∀ core < 32, ((s.after id a).barriers id).coreMask.getLsbD core = true → s.arrivals a core = true

instance (s : BarrierRun) (id : Nat) (a : BarrierAccess) : Decidable (s.Due id a) := by
  unfold Due
  infer_instance

/-- The access; the arrivals start again with a release. -/
def access (s : BarrierRun) (id : Nat) (a : BarrierAccess) : BarrierRun where
  unit := s.after id a
  arrived := if s.Due id a then fun _ => false else s.arrivals a
  waits := if (s.unit.tested id a).isSome && a.waits then Function.update s.waits a.core (some a.req) else s.waits

def team (s : BarrierRun) (id : Nat) (a : BarrierAccess) : List Nat :=
  (List.range s.unit.top.nbCore).filter fun i => ((s.after id a).barriers id).targetMask.getLsbD i

end BarrierRun

/-- **A step**: an access of a core, or a step of the rest of the unit. -/
def barrierRunStep (id : Nat) (s : BarrierRun) : BarrierRunEvent → Option BarrierRun
  | .access a => if a.core < s.unit.top.nbCore then some (s.access id a) else none
  | .elsewhere unit =>
    if unit.barriers id = s.unit.barriers id ∧ unit.nbBarriers = s.unit.nbBarriers ∧
      unit.top.nbCore = s.unit.top.nbCore then
      some { s with unit := unit }
    else none

def barrierReset (top : EventUnit) (nbBarriers barrierEvent : Nat) : BarrierRun where
  unit := { top := top, nbBarriers := nbBarriers, barrierEvent := barrierEvent, barriers := fun _ => {} }

/-- The access triggers the event iff it is due, for the cores of the target mask; the status register shows the
arrivals since the last release. -/
structure FiresOnArrivals (id : Nat) (s : BarrierRun) (a : BarrierAccess) : Prop where
  sends : s.unit.sends id a = if s.Due id a then some (s.team id a) else none
  status : ∀ core < 32, ((s.after id a).barriers id).status.getLsbD core = (s.access id a).arrived core

/-- Where equality of status and mask, and the empty target mask, stand for the release: the registers that are tested,
and a core that is taken to have arrived before. -/
structure TestStands (state : CoreState) (b : Barrier) (a : BarrierAccess) : Prop where
  idle : b.coreMask = 0#32 → b.status ≠ 0#32
  noOther : b.coreMask ≠ 0#32 → b.coreMask &&& b.status = b.coreMask → b.status = b.coreMask
  target : b.status = b.coreMask → b.targetMask ≠ 0#32
  resumed : (a.reg = .triggerWait ∨ a.reg = .triggerWaitClear) → state = .waitingBarrier →
    b.status.getLsbD a.core = true

/-- The same, of an access of a run: of the registers as the access leaves them to the test. Where nothing is tested,
the access adds no arrival. -/
def Stands (id : Nat) (s : BarrierRun) : BarrierRunEvent → Prop
  | .access a =>
    match s.unit.tested id a with
    | none => ∀ core < 32, s.arrivals a core = (s.unit.barriers id).status.getLsbD core
    | some v => TestStands (s.unit.top.core a.core).state (v.barriers id) a
  | .elsewhere _ => True

def Fires (id : Nat) (s : BarrierRun) : BarrierRunEvent → Prop
  | .access a => FiresOnArrivals id s a
  | .elsewhere _ => True

/-! ## An access -/

section Access

variable {u v : BarrierUnit} {id : Nat} {a : BarrierAccess} {arrived : Nat → Bool}

def Resumes (u : BarrierUnit) (a : BarrierAccess) : Prop :=
  (a.reg = .triggerWait ∨ a.reg = .triggerWaitClear) ∧ (u.top.core a.core).state = .waitingBarrier

theorem barriers_arrive (mask : BitVec 32) :
    (u.arrive id mask).barriers id = { u.barriers id with status := (u.barriers id).status ||| mask } :=
  Function.update_self id _ _

theorem status_arriveSelf {core : Nat} (hcore : core < 32)
    (hrec : ∀ c < 32, (u.barriers id).status.getLsbD c = arrived c)
    (hstate : (u.top.core core).state ≠ .waitingBarrier) :
    ∀ c < 32, ((u.arriveSelf id core).barriers id).status.getLsbD c = (arrived c || decide (core = c)) := by
  intro c hc
  rw [arriveSelf, if_neg hstate, barriers_arrive, getLsbD_or_bit hcore, hrec c hc]

theorem status_beforeCheck (hcore : a.core < 32) (hrec : ∀ c < 32, (u.barriers id).status.getLsbD c = arrived c)
    (h : u.beforeCheck id a = some v) :
    (¬ Resumes u a ∧ ∀ c < 32, (v.barriers id).status.getLsbD c = a.arrivals arrived c) ∨
      (Resumes u a ∧ v.barriers id = u.barriers id ∧ a.arrivals arrived = fun c => arrived c ||
        decide (a.core = c)) := by
  obtain ⟨r, reg, isWrite, data, core, _⟩ := a
  unfold beforeCheck at h
  dsimp only at h
  split at h
  · cases h
  have hset : ∀ b : Barrier, (u.setBarrier id b).barriers id = b := fun _ => Function.update_self id _ _
  have hself : (u.top.core core).state = .waitingBarrier → u.arriveSelf id core = u := fun hstate => if_pos hstate
  cases reg <;> cases isWrite <;> simp only [reduceCtorEq, Option.some.injEq] at h <;> subst h
  case triggerMask.true => exact .inl ⟨fun hr => by simp [Resumes] at hr, fun c hc => by rw [hset]; exact hrec c hc⟩
  case targetMask.true => exact .inl ⟨fun hr => by simp [Resumes] at hr, fun c hc => by rw [hset]; exact hrec c hc⟩
  case status.true => exact .inl ⟨fun hr => by simp [Resumes] at hr, fun c hc => by rw [hset]; rfl⟩
  case trigger.true =>
    refine .inl ⟨fun hr => by simp [Resumes] at hr, fun c hc => ?_⟩
    rw [barriers_arrive, getLsbD_or, hrec c hc]
    rfl
  case triggerSelf.false | triggerSelf.true =>
    refine .inl ⟨fun hr => by simp [Resumes] at hr, fun c hc => ?_⟩
    rw [barriers_arrive, getLsbD_or_bit hcore, hrec c hc]
    rfl
  case triggerWait.false | triggerWait.true =>
    by_cases hstate : (u.top.core core).state = .waitingBarrier
    · exact .inr ⟨⟨.inl rfl, hstate⟩, by rw [hself hstate], rfl⟩
    · exact .inl ⟨fun hr => hstate hr.2, status_arriveSelf hcore hrec hstate⟩
  case triggerWaitClear.false | triggerWaitClear.true =>
    by_cases hstate : (u.top.core core).state = .waitingBarrier
    · exact .inr ⟨⟨.inr rfl, hstate⟩, by rw [hself hstate]; rfl, rfl⟩
    · exact .inl ⟨fun hr => hstate hr.2, status_arriveSelf hcore hrec hstate⟩

theorem targets_eq {top : EventUnit} {mask : BitVec 32} (h : mask ≠ 0#32) :
    top.targets mask = (List.range top.nbCore).filter fun i => mask.getLsbD i := by
  simp [targets, h]

theorem targets_zero (top : EventUnit) : top.targets 0#32 = List.range top.nbCore := by simp [targets]

theorem forall_mem_iff {mask status : BitVec 32} :
    (∀ core < 32, mask.getLsbD core = true → status.getLsbD core = true) ↔ mask &&& status = mask := by
  constructor
  · intro h
    refine eq_of_getLsbD_eq fun i hi => ?_
    rw [getLsbD_and]
    cases hm : mask.getLsbD i with
    | false => rfl
    | true => rw [h i hi hm]; rfl
  · intro h core _ hm
    rw [← h, getLsbD_and, Bool.and_eq_true] at hm
    exact hm.2

end Access

namespace BarrierRun

variable {s s' : BarrierRun} {id : Nat} {a : BarrierAccess} {v : BarrierUnit}

/-- Between two accesses the status shows the arrivals, and the event is not due. -/
structure Inv (id : Nat) (s : BarrierRun) : Prop where
  barrier : id < s.unit.nbBarriers
  cores : s.unit.top.nbCore ≤ 32
  status : ∀ core < 32, (s.unit.barriers id).status.getLsbD core = s.arrived core
  notDue : (s.unit.barriers id).coreMask ≠ 0#32 →
    ∃ core < 32, (s.unit.barriers id).coreMask.getLsbD core = true ∧ s.arrived core = false

theorem after_untested (h : s.unit.tested id a = none) : s.after id a = s.unit.demuxed a := by
  rw [after, access_eq, h]

theorem arrivals_tested (h : s.unit.tested id a = some v) : s.arrivals a = a.arrivals s.arrived := by
  have hmisses := (tested_eq_some h).1
  rw [misses, Bool.or_eq_false_iff] at hmisses
  rw [arrivals, replays, hmisses.1, hmisses.2]
  rfl

theorem barriers_after (h : s.unit.tested id a = some v) :
    (s.after id a).barriers id =
      if (v.barriers id).status = (v.barriers id).coreMask then { v.barriers id with status := 0#32 }
        else v.barriers id := by
  rw [after, access_eq, h]
  dsimp only
  rw [barriers_afterCheck, barriers_checkBarrier]

theorem masks_after (h : s.unit.tested id a = some v) :
    ((s.after id a).barriers id).coreMask = (v.barriers id).coreMask ∧
      ((s.after id a).barriers id).targetMask = (v.barriers id).targetMask := by
  rw [barriers_after h]
  split <;> exact ⟨rfl, rfl⟩

theorem sameSize_after (s : BarrierRun) (id : Nat) (a : BarrierAccess) : s.unit.SameSize (s.after id a) := by
  cases h : s.unit.tested id a with
  | none =>
    rw [after_untested h]
    exact (demuxed_same s.unit a).2
  | some v =>
    obtain ⟨hb', hc'⟩ := v.sameSize_checkBarrier id
    obtain ⟨hb'', hc''⟩ := (v.checkBarrier id).sameSize_afterCheck a
    obtain ⟨hb, hc⟩ := sameSize_tested h
    rw [after, access_eq, h]
    exact ⟨hb''.trans (hb'.trans hb), hc''.trans (hc'.trans hc)⟩

/-- The event is due iff the whole mask, which is not empty, is in the status. -/
theorem due_iff (h : s.unit.tested id a = some v) (hst : ∀ c < 32, (v.barriers id).status.getLsbD c = s.arrivals a c) :
    s.Due id a ↔ (v.barriers id).coreMask ≠ 0#32 ∧
      (v.barriers id).coreMask &&& (v.barriers id).status = (v.barriers id).coreMask := by
  rw [Due, (masks_after h).1, ← forall_mem_iff]
  refine and_congr_right fun _ => forall_congr' fun c => forall_congr' fun hc => ?_
  rw [hst c hc]

/-- An access that is not tested sends nothing, which is right where it adds no arrival. -/
theorem Inv.fires_untested (hinv : s.Inv id) (h : s.unit.tested id a = none) :
    FiresOnArrivals id s a ↔ ∀ core < 32, s.arrivals a core = (s.unit.barriers id).status.getLsbD core := by
  have hafter : (s.after id a).barriers = s.unit.barriers := by rw [after_untested h, (demuxed_same s.unit a).1]
  have hsends : s.unit.sends id a = none := by rw [sends, h]; rfl
  constructor
  · intro hf core hcore
    have hstatus := hf.status core hcore
    have hnot : ¬ s.Due id a := fun hd => by
      have hs := hf.sends
      rw [hsends, if_pos hd] at hs
      cases hs
    rw [hafter, access] at hstatus
    dsimp only at hstatus
    rw [hstatus, if_neg hnot]
  · intro hadds
    have hnot : ¬ s.Due id a := by
      rintro ⟨hne, hall⟩
      rw [hafter] at hne hall
      obtain ⟨core, hcore, hmask, harr⟩ := hinv.notDue hne
      have harrived := hall core hcore hmask
      rw [hadds core hcore, hinv.status core hcore, harr] at harrived
      cases harrived
    refine ⟨by rw [hsends, if_neg hnot], fun core hcore => ?_⟩
    rw [hafter, access]
    dsimp only
    rw [if_neg hnot, hadds core hcore]

/-- The test of the code fires on the arrivals iff the registers rule its three slips out. -/
theorem fires_iff (hcore : a.core < s.unit.top.nbCore) (h : s.unit.tested id a = some v)
    (hst : ∀ c < 32, (v.barriers id).status.getLsbD c = s.arrivals a c) :
    FiresOnArrivals id s a ↔
      ((v.barriers id).coreMask = 0#32 → (v.barriers id).status ≠ 0#32) ∧
      ((v.barriers id).coreMask ≠ 0#32 → (v.barriers id).coreMask &&& (v.barriers id).status =
        (v.barriers id).coreMask → (v.barriers id).status = (v.barriers id).coreMask) ∧
      ((v.barriers id).status = (v.barriers id).coreMask → (v.barriers id).targetMask ≠ 0#32) := by
  have hdue := due_iff h hst
  have hafter := barriers_after h
  have hmasks := masks_after h
  have hnb : v.top.nbCore = s.unit.top.nbCore := (sameSize_tested h).2
  have hsends : s.unit.sends id a = if (v.barriers id).status = (v.barriers id).coreMask then
      some (v.top.targets (v.barriers id).targetMask) else none := by
    rw [sends, h]
    rfl
  have hteam : s.team id a = (List.range s.unit.top.nbCore).filter fun i => (v.barriers id).targetMask.getLsbD i := by
    rw [team, hmasks.2]
  generalize v.barriers id = b at hst hdue hafter hmasks hsends hteam ⊢
  constructor
  · intro hf
    have hf := hf.sends
    rw [hsends] at hf
    refine ⟨fun hzero hstatus => ?_, fun hne hall => ?_, fun heq hzero => ?_⟩
    · -- nobody has arrived at a barrier that is not configured
      rw [if_pos (hstatus.trans hzero.symm), if_neg fun hd => (hdue.1 hd).1 hzero] at hf
      cases hf
    · by_contra hneq
      rw [if_neg hneq, if_pos (hdue.2 ⟨hne, hall⟩)] at hf
      cases hf
    · -- the empty target mask is taken for all cores
      rw [if_pos heq, hteam, hzero, targets_zero, hnb] at hf
      split at hf
      · have hmem : a.core ∈ List.range s.unit.top.nbCore := List.mem_range.2 hcore
        rw [Option.some.inj hf] at hmem
        simp at hmem
      · cases hf
  · rintro ⟨hidle, hother, htarget⟩
    by_cases hd : s.Due id a
    · obtain ⟨hne, hall⟩ := hdue.1 hd
      have heq := hother hne hall
      refine ⟨?_, fun core hlt => ?_⟩
      · rw [hsends, if_pos heq, if_pos hd, hteam, targets_eq (htarget heq), hnb]
      · rw [hafter, if_pos heq, access]
        dsimp only
        rw [if_pos hd]
        exact getLsbD_zero
    · have hneq : b.status ≠ b.coreMask := fun heq => by
        by_cases hzero : b.coreMask = 0#32
        · exact hidle hzero (heq.trans hzero)
        · exact hd (hdue.2 ⟨hzero, by rw [heq, BitVec.and_self]⟩)
      refine ⟨?_, fun core hlt => ?_⟩
      · rw [hsends, if_neg hneq, if_neg hd]
      · rw [hafter, if_neg hneq, access]
        dsimp only
        rw [if_neg hd]
        exact hst core hlt

section

variable (hinv : s.Inv id) (hcore : a.core < s.unit.top.nbCore)
include hinv hcore

theorem Inv.status_tested (h : s.unit.tested id a = some v) :
    (¬ Resumes s.unit a ∧ ∀ c < 32, (v.barriers id).status.getLsbD c = s.arrivals a c) ∨
      (Resumes s.unit a ∧ v.barriers id = s.unit.barriers id ∧
        s.arrivals a = fun c => s.arrived c || decide (a.core = c)) := by
  obtain ⟨hmisses, hcheck⟩ := tested_eq_some h
  have hsame := (demuxed_same s.unit a).1
  have hrec : ∀ c < 32, ((s.unit.demuxed a).barriers id).status.getLsbD c = s.arrived c := by
    rw [hsame]
    exact hinv.status
  have hst := status_beforeCheck (hcore.trans_le hinv.cores) hrec hcheck
  rwa [Resumes, state_demuxed hmisses, hsame, ← arrivals_tested h] at hst

/-- Where the event is sent when it is due, the core has not been taken to have arrived before without having done so.
-/
theorem Inv.status_of_fires (h : s.unit.tested id a = some v)
    (hf : FiresOnArrivals id s a) : ∀ c < 32, (v.barriers id).status.getLsbD c = s.arrivals a c := by
  rcases hinv.status_tested hcore h with ⟨-, hst⟩ | ⟨-, hsame, -⟩
  · exact hst
  -- the access has tested the registers as they were, which does not fire
  have hneq : (v.barriers id).status ≠ (v.barriers id).coreMask := by
    intro heq
    have hsends := hf.sends
    have hsent : s.unit.sends id a = some (v.top.targets (v.barriers id).targetMask) := by
      rw [sends, h]
      exact if_pos heq
    rw [hsent] at hsends
    split at hsends
    case isTrue hd =>
      rw [hsame] at heq
      obtain ⟨c, hc, hmask, hnone⟩ := hinv.notDue (by rw [← hsame, ← (masks_after h).1]; exact hd.1)
      rw [← heq, hinv.status c hc, hnone] at hmask
      cases hmask
    case isFalse => cases hsends
  have hnotDue : ¬ s.Due id a := by
    intro hd
    have hsends := hf.sends
    rw [sends, h, if_pos hd] at hsends
    rw [Option.bind_some, checkSends, if_neg hneq] at hsends
    cases hsends
  intro c hc
  have hrec := hf.status c hc
  rw [barriers_after h, if_neg hneq, access] at hrec
  dsimp only at hrec
  rw [if_neg hnotDue] at hrec
  exact hrec

theorem Inv.status_of_resumed (h : s.unit.tested id a = some v)
    (hres : (a.reg = .triggerWait ∨ a.reg = .triggerWaitClear) → (s.unit.top.core a.core).state = .waitingBarrier →
      (v.barriers id).status.getLsbD a.core = true) :
    ∀ c < 32, (v.barriers id).status.getLsbD c = s.arrivals a c := by
  have hlt : a.core < 32 := hcore.trans_le hinv.cores
  rcases hinv.status_tested hcore h with ⟨-, hst⟩ | ⟨hwait, hsame, harr⟩
  · exact hst
  intro c hc
  rw [harr, hsame, hinv.status c hc]
  have hbit := hres hwait.1 hwait.2
  rw [hsame, hinv.status _ hlt] at hbit
  by_cases heq : a.core = c
  · subst heq
    simp [hbit]
  · simp [heq]

/-- **An access fires as it should exactly where the test stands for it.** -/
theorem Inv.fires_iff_stands :
    FiresOnArrivals id s a ↔ Stands id s (.access a) := by
  rw [Stands]
  cases h : s.unit.tested id a with
  | none => exact hinv.fires_untested h
  | some v =>
    constructor
    · intro hf
      have hst := hinv.status_of_fires hcore h hf
      obtain ⟨hidle, hother, htarget⟩ := (fires_iff hcore h hst).1 hf
      refine ⟨hidle, hother, htarget, fun hwait _ => ?_⟩
      have hlt : a.core < 32 := hcore.trans_le hinv.cores
      rw [hst a.core hlt, arrivals_tested h]
      obtain ⟨r, reg, isWrite, data, core, _⟩ := a
      rcases hwait with rfl | rfl <;> simp [BarrierAccess.arrivals]
    · rintro ⟨hidle, hother, htarget, hres⟩
      exact (fires_iff hcore h (hinv.status_of_resumed hcore h hres)).2 ⟨hidle, hother, htarget⟩

end

theorem Inv.access (hinv : s.Inv id) (hf : FiresOnArrivals id s a) : (s.access id a).Inv id := by
  obtain ⟨hb, hc⟩ := sameSize_after s id a
  refine ⟨Nat.lt_of_lt_of_eq hinv.barrier hb.symm, hc.le.trans hinv.cores, hf.status, fun hne => ?_⟩
  rw [BarrierRun.access]
  dsimp only
  by_cases hd : s.Due id a
  · obtain ⟨core, hmask⟩ := exists_getLsbD hne
    exact ⟨core, lt_of_getLsbD hmask, hmask, by rw [if_pos hd]⟩
  · rw [if_neg hd]
    by_contra hnone
    refine hd ⟨hne, fun core hlt hmask => ?_⟩
    by_contra harr
    exact hnone ⟨core, hlt, hmask, (Bool.not_eq_true _).mp harr⟩

end BarrierRun

/-! ## The runs from reset -/

theorem barrierRunStep_elsewhere {s s' : BarrierRun} {id : Nat} {unit : BarrierUnit} (hinv : s.Inv id)
    (h : barrierRunStep id s (.elsewhere unit) = some s') : s'.Inv id := by
  rw [barrierRunStep] at h
  split at h
  case isFalse => cases h
  case isTrue hframe =>
    obtain ⟨hbarrier, hnb, hcores⟩ := hframe
    cases h
    refine ⟨?_, ?_, ?_, ?_⟩
    · rw [hnb]
      exact hinv.barrier
    · rw [hcores]
      exact hinv.cores
    · rw [hbarrier]
      exact hinv.status
    · rw [hbarrier]
      exact hinv.notDue

theorem barrierReset_inv {top : EventUnit} {nbBarriers barrierEvent id : Nat} (hid : id < nbBarriers)
    (hcores : top.nbCore ≤ 32) :
    (barrierReset top nbBarriers barrierEvent).Inv id :=
  ⟨hid, hcores, fun _ _ => getLsbD_zero, fun h => absurd rfl h⟩

/-- **A barrier fires on arrivals**, in a run from reset, iff the test stands for them at every access. -/
theorem fires_on_arrivals_iff {top : EventUnit} {nbBarriers barrierEvent id : Nat} (hid : id < nbBarriers)
    (hcores : top.nbCore ≤ 32) (es : List BarrierRunEvent) :
    AllSteps (barrierRunStep id) (Fires id) (barrierReset top nbBarriers barrierEvent) es ↔
      AllSteps (barrierRunStep id) (Stands id) (barrierReset top nbBarriers barrierEvent) es := by
  refine allSteps_iff (I := BarrierRun.Inv id) (fun s e s' hinv hs => ?_) (fun s e s' hinv hP hs => ?_)
    (barrierReset_inv hid hcores)
  · cases e with
    | access a =>
      rw [barrierRunStep] at hs
      split at hs
      case isTrue hcore => exact hinv.fires_iff_stands hcore
      case isFalse => cases hs
    | elsewhere unit => exact Iff.rfl
  · cases e with
    | access a =>
      rw [barrierRunStep] at hs
      split at hs
      case isTrue hcore =>
        cases hs
        exact hinv.access ((hinv.fires_iff_stands hcore).2 hP)
      case isFalse => cases hs
    | elsewhere unit => exact barrierRunStep_elsewhere hinv hs

theorem fires_on_arrivals_two : AllSteps (barrierRunStep 0) (Fires 0)
    (barrierReset { nbCore := 2, core := fun _ => {} } 1 16)
      [.access { reg := .triggerMask, data := 3#32 }, .access { reg := .targetMask, data := 3#32 },
        .access { reg := .triggerSelf, core := 0 }, .access { reg := .triggerSelf, core := 1 }] ↔
    AllSteps (barrierRunStep 0) (Stands 0) (barrierReset { nbCore := 2, core := fun _ => {} } 1 16)
      [.access { reg := .triggerMask, data := 3#32 }, .access { reg := .targetMask, data := 3#32 },
        .access { reg := .triggerSelf, core := 0 }, .access { reg := .triggerSelf, core := 1 }] :=
  fires_on_arrivals_iff (by decide) (by decide) _

/-- A write of the target mask of an idle barrier, after reset, triggers the event. -/
theorem idle_write_fires : ¬ AllSteps (barrierRunStep 0) (Fires 0)
    (barrierReset { nbCore := 2, core := fun _ => {} } 1 16) [.access { reg := .targetMask, data := 3#32 }] := by
  intro h
  have hsends := (h _ rfl).1.sends
  revert hsends
  decide +kernel

end GvsocPulp.EventUnitV3
