import GvsocPulp.Lib.Masks
import GvsocPulp.Lib.Run
import GvsocPulp.Cv32e40p.Irq

/-!
# Debug entry, single step and interrupts

What the interrupt slot does in every run (`debug_entry`): when debug mode is entered and with which cause, what
executes in a single-step window, and when interrupts are taken.
-/

namespace GvsocPulp.Cv32e40p

open Lib List

variable {cfg : HartConfig} {s t : Hart} {e : HartEvent} {insn : Option IdInsn}

/-! ## What is promised of a step -/

/-- The first of step, trigger and ebreak that applies, or else the halt request. -/
def Hart.firstCause (s : Hart) (insn : Option IdInsn) : Word :=
  if s.stepCompleted then 4 else if s.triggerAt then 2 else if s.ebreakEntersDebug insn then 1 else 3

/-- The instruction that a step decides about, where it is decoded. -/
def Hart.insnOf (s : Hart) : HartEvent → Option IdInsn
  | .dispatch insn => some insn
  | .execute .. => s.dispatched
  | _ => none

/-- Debug mode is entered before the next instruction, from outside debug mode. -/
structure Enters (cfg : HartConfig) (insn : Option IdInsn) (s t : Hart) (cause : Word) : Prop where
  outside : s.debugMode = false
  debugMode : t.debugMode = true
  depc : t.depc = s.currentInsn
  handler : t.currentInsn = cfg.debugHandler
  dcsr : t.dcsr = s.dcsr &&& ~~~((7 : Word) <<< 6) ||| (cause &&& 7) <<< 6
  /-- A halt request that was raised in the window takes the place of a step that has completed. -/
  first : ¬(s.stepCompleted = true ∧ s.reqDebug = true) → cause = s.firstCause insn
  halted : cause = 3 → s.debugRequestPending = true
  closed : t.stepState = false
  /-- After a step one instruction has left the PC where it was not. -/
  stepped : cause = 4 → s.stepped = 1

/-- The interrupt lines, the first ones first. -/
def irqOrder : List Nat := [31, 30, 29, 28, 27, 26, 25, 24, 23, 22, 21, 20, 19, 18, 17, 16, 11, 3, 7]

/-- An interrupt is taken before the next instruction, outside debug mode and outside a window without `stepie`. -/
structure Takes (s t : Hart) (irq : Nat) : Prop where
  outside : s.debugMode = false ∧ t.debugMode = false
  stepie : s.stepState = true → s.stepie = true
  enabled : s.pending ≠ 0 ∧ s.mstatusMie = true
  pick : irqOrder.find? (s.pending.getLsbD ·) = some irq
  mepc : t.mepc = s.currentInsn
  handler : t.currentInsn = s.irqEntry irq
  mcause : t.mcause = 0x80000000 ||| BitVec.ofNat 32 irq
  mstatus : t.mstatusMie = false ∧ t.mstatusMpie = s.mstatusMie

structure Decides (cfg : HartConfig) (s : Hart) (e : HartEvent) (t : Hart) : Prop where
  entries : t.entries = s.entries ∧ (t.debugMode = true → s.debugMode = true) ∨
    ∃ cause, t.entries = s.entries ++ [(s.currentInsn, cause)] ∧ Enters cfg (s.insnOf e) s t cause
  irqAck : t.irqAck = s.irqAck ∨ ∃ irq, t.irqAck = s.irqAck ++ [irq] ∧ Takes s t irq
  /-- In a window an instruction executes at the PC that is stepped, and none has left it. -/
  window : s.stepState = true → ∀ nextPc csrs, e = .execute nextPc csrs → s.currentInsn = s.stepPc ∧ s.stepped = 0
  /-- When it has been left, debug mode is entered before another instruction. -/
  completed : s.stepCompleted = true → (e = .check → t.debugMode = true ∨ t.decideAtDispatch = true) ∧
    ∀ insn, e = .dispatch insn → t.debugMode = true
  /-- A `dret` with `dcsr.step` opens a window at its return address. -/
  opens : s.stepState = false → t.stepState = true → s.debugMode = true ∧ s.dcsrStep = true ∧ t.currentInsn = s.depc ∧
    t.stepPc = s.depc ∧ t.looped = 0 ∧ t.stepped = 0

/-! ## The invariant -/

structure HartInv (s : Hart) : Prop where
  cause : s.reqDebugCause = 3
  outside : s.stepState = true → s.debugMode = false
  window : s.stepState = true → s.currentInsn = s.stepPc ∧ s.stepped = 0 ∨ s.currentInsn ≠ s.stepPc ∧ s.stepped = 1
  checked : s.checked = true → s.debugMode = false → s.decideAtDispatch = true ∨ s.stepCompleted = false ∧
    s.triggerAt = false
  dispatched : s.dispatched.isSome → s.checked = true ∧
    (s.debugMode = false → s.stepCompleted = false ∧ s.triggerAt = false)

/-! ## What the decision does -/

/-- `dispatch_check`: nothing, a debug entry or an interrupt. -/
inductive Decision (cfg : HartConfig) (insn : Option IdInsn) (s : Hart) : Hart → Bool → Prop
  | nothing (hcompleted : s.debugMode = false → s.stepCompleted = false ∧ s.triggerAt = false)
      (hpending : s.debugMode = false → s.debugRequestPending = false) : Decision cfg insn s s false
  | enter (cause : Word) (hmode : s.debugMode = false) (hfirst : ¬(s.stepCompleted = true ∧ s.reqDebug = true) →
      cause = s.firstCause insn)
      (hhalted : cause = 3 → s.debugRequestPending = true) (hstep : cause = 4 → s.stepCompleted = true) :
      Decision cfg insn s { s.debugStateEnter cause s.currentInsn with currentInsn := cfg.debugHandler } true
  | take (hmode : s.debugMode = false) (hstepie : s.stepState = true → s.stepie = true)
      (hcompleted : s.stepCompleted = false)
      (henabled : s.pending ≠ 0 ∧ s.mstatusMie = true) : Decision cfg insn s (s.irqTake s.pending) true

theorem irqCheck_cases (hcompleted : s.debugMode = false → s.stepCompleted = false ∧ s.triggerAt = false)
    (hpending : s.debugMode = false → s.debugRequestPending = false) :
      Decision cfg insn s s.irqCheck.1 s.irqCheck.2 := by
  rw [Hart.irqCheck]
  by_cases hmode : s.debugMode = true
  · rw [if_pos hmode]
    exact .nothing hcompleted hpending
  have hmode' : s.debugMode = false := Bool.eq_false_iff.2 hmode
  rw [if_neg hmode]
  by_cases hstepie : (s.stepState && !s.stepie) = true
  · rw [if_pos hstepie]
    exact .nothing hcompleted hpending
  rw [if_neg hstepie]
  by_cases henabled : s.pending = 0 ∨ s.mstatusMie = false
  · rw [if_pos henabled]
    exact .nothing hcompleted hpending
  rw [if_neg henabled]
  rw [not_or] at henabled
  refine .take hmode' (fun hstep => ?_) (hcompleted hmode').1 ⟨henabled.1, by simpa using henabled.2⟩
  simpa [hstep] using hstepie

open Hart (dispatchCheck armDebug stepCompleted)

theorem served {u : Hart} {b : Bool} {k : Word} (hu : s.armDebug = u)
    (hsame : u = { s with reqDebug := b, reqDebugCause := k }) (hreq : b = true) (hmode : s.debugMode = false)
    (hserve : ∀ c, c = (if k == 3 && s.ebreakEntersDebug insn then 1 else k) →
      Decision cfg insn s { s.debugStateEnter c s.currentInsn with currentInsn := cfg.debugHandler } true) :
    Decision cfg insn s (s.dispatchCheck cfg insn).1 (s.dispatchCheck cfg insn).2 := by
  subst hsame hreq
  have hebreak' : ({ s with reqDebug := true, reqDebugCause := k } : Hart).ebreakEntersDebug insn =
    s.ebreakEntersDebug insn := by
    cases insn <;> rfl
  have hserved : (true && !s.debugMode) = true := by rw [hmode]; rfl
  rw [dispatchCheck, hu, hebreak', if_pos hserved]
  by_cases hebreak : (k == 3 && s.ebreakEntersDebug insn) = true
  · rw [if_pos hebreak] at hserve
    rw [if_pos hebreak]
    exact hserve 1 rfl
  · rw [if_neg hebreak] at hserve
    rw [if_neg hebreak]
    exact hserve k rfl

theorem dispatchCheck_cases (hcause : s.reqDebugCause = 3) :
    Decision cfg insn s (s.dispatchCheck cfg insn).1 (s.dispatchCheck cfg insn).2 := by
  cases hmode : s.debugMode with
  | true =>
    have harm : s.armDebug = s := by simp [armDebug, Hart.triggerMatch, hmode]
    rw [dispatchCheck, harm, hmode]
    simp only [Bool.not_true, Bool.and_false, Bool.false_eq_true, if_false]
    exact irqCheck_cases (fun h => nomatch hmode.symm.trans h) fun h => nomatch hmode.symm.trans h
  | false =>
    cases htrigger : s.triggerMatch with
    | true =>
      have hat : s.triggerAt = true ∧ s.stepCompleted = false := by
        simpa [Hart.triggerMatch, hmode, hcause] using htrigger
      refine served (b := true) (k := 2) (by rw [armDebug, if_pos htrigger]) rfl rfl hmode fun c hc => ?_
      subst hc
      refine .enter 2 hmode (fun _ => ?_) nofun nofun
      rw [Hart.firstCause, if_neg (by rw [hat.2]; decide), if_pos hat.1]
    | false =>
      have hat : s.stepCompleted = false → s.triggerAt = false := fun hno => by
        simpa [Hart.triggerMatch, hmode, hcause, hno] using htrigger
      have hnot : ¬s.triggerMatch = true := by rw [htrigger]; decide
      -- a halt request, with the cause of an ebreak
      have hhalt : ∀ c, s.debugRequestPending = true → (s.stepCompleted = true → s.reqDebug = true) →
          c = (if (3 : Word) == 3 && s.ebreakEntersDebug insn then 1 else 3) →
          Decision cfg insn s { s.debugStateEnter c s.currentInsn with currentInsn := cfg.debugHandler } true :=
        fun c hpending hreq hc => by
          refine .enter c hmode (fun hfirst => ?_) (fun _ => hpending) fun h4 => ?_
          · have hno : s.stepCompleted = false := Bool.eq_false_iff.2 fun hcompleted => hfirst
              ⟨hcompleted, hreq hcompleted⟩
            rw [Hart.firstCause, hno, hat hno, hc]
            rfl
          · rw [h4] at hc
            split_ifs at hc
            · exact absurd hc (by decide)
            · exact absurd hc (by decide)
      cases hreq : s.reqDebug with
      | true =>
        have harm : s.armDebug = s := by simp [armDebug, htrigger, hreq]
        refine served (b := true) (k := 3) harm (by rw [← hreq, ← hcause]) rfl hmode fun c hc => ?_
        exact hhalt c (by rw [Hart.debugRequestPending, hreq]; rfl) (fun _ => hreq) hc
      | false =>
        cases hcompleted : s.stepCompleted with
        | true =>
          have harm : s.armDebug = { s with reqDebug := true, reqDebugCause := 4 } := by
            simp [armDebug, htrigger, hcompleted, hmode, hreq]
          refine served harm rfl rfl hmode fun c hc => ?_
          subst hc
          refine .enter 4 hmode (fun _ => ?_) nofun fun _ => hcompleted
          rw [Hart.firstCause, if_pos hcompleted]
        | false =>
          cases hlevel : s.haltreqLevel with
          | true =>
            have harm : s.armDebug = { s with reqDebug := true } := by
              simp [armDebug, htrigger, hcompleted, hmode, hreq, hlevel]
            refine served (b := true) (k := 3) harm (by rw [← hcause]) rfl hmode fun c hc => ?_
            refine hhalt c (by rw [Hart.debugRequestPending, hlevel, Bool.or_true])
              (fun h => nomatch hcompleted.symm.trans h) hc
          | false =>
            have harm : s.armDebug = s := by
              simp [armDebug, htrigger, hcompleted, hreq, hlevel]
            rw [dispatchCheck, harm, hreq]
            exact irqCheck_cases (fun _ => ⟨hcompleted, hat hcompleted⟩) fun _ => by
              rw [Hart.debugRequestPending, hreq, hlevel]
              rfl

/-! ## One step -/

theorem find_irqPick (h : s.pending ≠ 0) : irqOrder.find? (s.pending.getLsbD ·) = some (irqPick s.pending) := by
  obtain ⟨i, hi⟩ := Lib.exists_getLsbD h
  have hmask : irqMask.getLsbD i = true := by
    rw [Csrs.pending, BitVec.getLsbD_and, Bool.and_eq_true] at hi
    exact hi.2
  have hwired : i ∈ irqOrder := by
    have hall : ∀ j < 32, irqMask.getLsbD j = true → j ∈ irqOrder := by decide
    exact hall i (BitVec.lt_of_getLsbD hmask) hmask
  have hsplit : irqOrder = [31, 30, 29, 28, 27, 26, 25, 24, 23, 22, 21, 20, 19, 18, 17, 16] ++ [11, 3, 7] := rfl
  rw [hsplit, find?_append, irqPick]
  cases hfast : [31, 30, 29, 28, 27, 26, 25, 24, 23, 22, 21, 20, 19, 18, 17, 16].find? (s.pending.getLsbD ·) with
  | some id => rfl
  | none =>
    rw [hsplit, mem_append] at hwired
    have hslow : i ∈ [11, 3, 7] := hwired.resolve_left fun hmem => by
      have hoff := find?_eq_none.1 hfast i hmem
      exact hoff hi
    simp only [find?_cons, find?_nil]
    simp only [mem_cons, not_mem_nil, or_false] at hslow
    rcases hslow with rfl | rfl | rfl
    · rw [hi]
      rfl
    · rw [hi]
      cases s.pending.getLsbD 11 <;> rfl
    · rw [hi]
      cases s.pending.getLsbD 11 <;> cases s.pending.getLsbD 3 <;> rfl

theorem stepPc_of_not_completed (hstep : s.stepState = true) (hcompleted : s.stepCompleted = false) :
    s.currentInsn = s.stepPc := by
  simpa [stepCompleted, hstep] using hcompleted

namespace Decision

variable {u : Hart} {moved w d c : Bool} {x : Option IdInsn}

theorem logs (hinv : HartInv s) (h : Decision cfg insn { s with debugWakeup := w, decideAtDispatch := d } u moved) :
    (u.entries = s.entries ∧ (u.debugMode = true → s.debugMode = true) ∨
      ∃ cause, u.entries = s.entries ++ [(s.currentInsn, cause)] ∧
        Enters cfg insn s { u with checked := c, dispatched := x } cause) ∧
    (u.irqAck = s.irqAck ∨ ∃ irq, u.irqAck = s.irqAck ++ [irq] ∧
      Takes s { u with checked := c, dispatched := x } irq) := by
  cases h with
  | nothing => exact ⟨.inl ⟨rfl, id⟩, .inl rfl⟩
  | enter cause hmode hfirst hhalted hstep =>
    have hcause : ¬(s.stepCompleted = true ∧ s.reqDebug = true) → cause = s.firstCause insn := fun hno => by
      rw [hfirst hno]
      cases insn <;> rfl
    refine ⟨.inr ⟨cause, rfl, hmode, rfl, rfl, rfl, rfl, hcause, hhalted, rfl, fun h4 => ?_⟩, .inl rfl⟩
    have hcompleted : s.stepCompleted = true := hstep h4
    simp only [stepCompleted, Bool.and_eq_true, bne_iff_ne] at hcompleted
    exact ((hinv.window hcompleted.1).resolve_left fun hw => hcompleted.2 hw.1).2
  | take hmode hstepie hcompleted henabled =>
    exact ⟨.inl ⟨rfl, id⟩, .inr ⟨_, rfl, ⟨hmode, hmode⟩, hstepie, henabled, find_irqPick henabled.1, rfl, rfl,
      rfl, rfl, rfl⟩⟩

section

variable (h : Decision cfg insn { s with debugWakeup := w, decideAtDispatch := d } u moved)
include h

theorem dispatched :
    u.dispatched = s.dispatched ∧ u.checked = s.checked := by
  cases h <;> exact ⟨rfl, rfl⟩

theorem stepState (hu : u.stepState = true) :
    s.stepState = true := by
  cases h with
  | nothing => exact hu
  | enter => cases hu
  | take => exact hu

end

variable (hinv : HartInv s) (h : Decision cfg insn { s with debugWakeup := w, decideAtDispatch := d } u moved)
include hinv h

theorem completed (hs : s.stepCompleted = true) : u.debugMode = true ∧ moved = true := by
  have hstep : s.stepState = true := by
    simp only [stepCompleted, Bool.and_eq_true] at hs
    exact hs.1
  cases h with
  | nothing hcompleted =>
    have hno : s.stepCompleted = false := (hcompleted (hinv.outside hstep)).1
    rw [hs] at hno
    cases hno
  | enter => exact ⟨rfl, rfl⟩
  | take _ _ hcompleted =>
    have hno : s.stepCompleted = false := hcompleted
    rw [hs] at hno
    cases hno

/-- The invariant after a decision; where the PC has not moved, the instruction may execute. -/
theorem inv (hc : c = true → moved = false) (hx : x.isSome → c = true) :
    HartInv { u with checked := c, dispatched := x } := by
  cases h with
  | nothing hcompleted hpending =>
    exact ⟨hinv.cause, hinv.outside, hinv.window, fun _ hmode => .inr (hcompleted hmode), fun hd => ⟨hx hd, hcompleted⟩⟩
  | enter => exact ⟨rfl, nofun, nofun, fun _ => nofun, fun hd => ⟨hx hd, nofun⟩⟩
  | take hmode _ hcompleted _ =>
    have hno : ¬c = true := fun h => nomatch hc h
    refine ⟨hinv.cause, fun _ => hmode, fun hstep => .inl ?_, fun h => absurd h hno, fun hd => absurd (hx hd) hno⟩
    have hpc : s.currentInsn = s.stepPc := stepPc_of_not_completed hstep hcompleted
    have hstep' : s.stepState = true := hstep
    refine ⟨?_, ((hinv.window hstep').resolve_right fun hw => hw.1 hpc).2⟩
    simp [Hart.irqTake, hstep']

end Decision

namespace HartInv

section

variable (h : HartInv s)
include h

theorem check (hdispatched : s.dispatched = none) :
    HartInv { (s.check cfg).1 with checked := !(s.check cfg).2 } ∧
      Decides cfg s .check { (s.check cfg).1 with checked := !(s.check cfg).2 } := by
  rw [Hart.check]
  split_ifs with hpending
  · refine ⟨⟨h.cause, h.outside, h.window, fun _ _ => .inl rfl, fun hd => ?_⟩, .inl ⟨rfl, id⟩, .inl rfl, nofun,
      fun _ => ⟨fun _ => .inr rfl, nofun⟩, fun hs ht => ?_⟩
    · rw [hdispatched] at hd
      cases hd
    · rw [hs] at ht
      cases ht
  · have hdecision : Decision cfg none { s with debugWakeup := false, decideAtDispatch := s.decideAtDispatch }
        (dispatchCheck cfg { s with debugWakeup := false } none).1
        (dispatchCheck cfg { s with debugWakeup := false } none).2 := dispatchCheck_cases h.cause
    generalize hu : (dispatchCheck cfg { s with debugWakeup := false } none).1 = u at hdecision ⊢
    generalize hm : (dispatchCheck cfg { s with debugWakeup := false } none).2 = moved at hdecision ⊢
    have hnone : u.dispatched = none := hdecision.dispatched.1.trans hdispatched
    obtain ⟨hentries, hack⟩ := hdecision.logs h (c := !moved) (x := u.dispatched)
    refine ⟨hdecision.inv h (fun hc => by simpa using hc) fun hd => ?_, hentries, hack, nofun,
      fun hs => ⟨fun _ => ?_, nofun⟩, fun hs ht => ?_⟩
    · rw [hnone] at hd
      cases hd
    · exact .inl (hdecision.completed h hs).1
    · rw [hdecision.stepState ht] at hs
      cases hs

theorem dispatch {insn : IdInsn} (hready : s.checked = true ∧ s.dispatched = none)
    (hstep : s.step cfg (.dispatch insn) = some t) : HartInv t ∧ Decides cfg s (.dispatch insn) t := by
  rw [Hart.step, if_pos hready] at hstep
  cases hdecide : s.decideAtDispatch with
  | false =>
    have hquiet : s.dispatchDecide cfg insn = (s, false) := by simp [Hart.dispatchDecide, hdecide]
    simp only [hquiet, Bool.false_eq_true, if_false, Option.some.injEq] at hstep
    subst hstep
    have hclear : s.debugMode = false → s.stepCompleted = false ∧ s.triggerAt = false := fun hmode =>
      (h.checked hready.1 hmode).resolve_left (by rw [hdecide]; decide)
    refine ⟨{ h with dispatched := fun _ => ⟨hready.1, hclear⟩ }, .inl ⟨rfl, id⟩, .inl rfl, nofun, fun hs => ?_,
      fun hs ht => ?_⟩
    · have hwindow : s.stepState = true := by
        simp only [stepCompleted, Bool.and_eq_true] at hs
        exact hs.1
      rw [(hclear (h.outside hwindow)).1] at hs
      cases hs
    · rw [hs] at ht
      cases ht
  | true =>
    have hcheck : s.dispatchDecide cfg insn = dispatchCheck cfg { s with decideAtDispatch := false } (some insn) := by
      rw [Hart.dispatchDecide, if_pos hdecide]
    have hdecision : Decision cfg (some insn) { s with debugWakeup := s.debugWakeup, decideAtDispatch := false }
        (dispatchCheck cfg { s with decideAtDispatch := false } (some insn)).1
        (dispatchCheck cfg { s with decideAtDispatch := false } (some insn)).2 := dispatchCheck_cases h.cause
    rw [hcheck] at hstep
    generalize hu : (dispatchCheck cfg { s with decideAtDispatch := false } (some insn)).1 = u at hdecision hstep
    generalize hm : (dispatchCheck cfg { s with decideAtDispatch := false } (some insn)).2 = moved at hdecision hstep
    obtain ⟨hdispatched, hchecked⟩ := hdecision.dispatched
    cases moved with
    | true =>
      rw [if_pos rfl] at hstep
      cases hstep
      obtain ⟨hentries, hack⟩ := hdecision.logs h (c := false) (x := u.dispatched)
      refine ⟨hdecision.inv h nofun fun hd => ?_, hentries, hack, nofun, fun hs => ⟨nofun, fun _ _ => ?_⟩,
        fun hs ht => ?_⟩
      · rw [hdispatched, hready.2] at hd
        cases hd
      · exact (hdecision.completed h hs).1
      · rw [hdecision.stepState ht] at hs
        cases hs
    | false =>
      rw [if_neg (by decide)] at hstep
      cases hstep
      obtain ⟨hentries, hack⟩ := hdecision.logs h (c := u.checked) (x := some insn)
      refine ⟨hdecision.inv h (fun _ => rfl) fun _ => hchecked.trans hready.1, hentries, hack, nofun,
        fun hs => ⟨nofun, fun _ _ => ?_⟩, fun hs ht => ?_⟩
      · exact (hdecision.completed h hs).1
      · rw [hdecision.stepState ht] at hs
        cases hs

theorem quiet (hevent : ∀ nextPc csrs, e ≠ .execute nextPc csrs) (hdecides : e ≠ .check ∧ ∀ insn, e ≠ .dispatch insn)
    (hdispatched : t.dispatched.isSome → s.dispatched.isSome)
    (ht : t = { s with
      toCsrs := t.toCsrs
      reqDebug := t.reqDebug
      haltreqLevel := t.haltreqLevel
      debugWakeup := t.debugWakeup
      wfi := t.wfi
      dispatched := t.dispatched })
    (hcsrs : t.tdata1 = s.tdata1 ∧ t.tdata2 = s.tdata2) : HartInv t ∧ Decides cfg s e t := by
  obtain ⟨htdata1, htdata2⟩ := hcsrs
  have hstate : t.stepState = s.stepState := by rw [ht]
  have hpc : t.currentInsn = s.currentInsn := by rw [ht]
  have hstepPc : t.stepPc = s.stepPc := by rw [ht]
  have hmode : t.debugMode = s.debugMode := by rw [ht]
  have hchecked : t.checked = s.checked := by rw [ht]
  have hdecide : t.decideAtDispatch = s.decideAtDispatch := by rw [ht]
  have hcompleted : t.stepCompleted = s.stepCompleted := by rw [stepCompleted, stepCompleted, hstate, hpc, hstepPc]
  have htrigger : t.triggerAt = s.triggerAt := by rw [Hart.triggerAt, Hart.triggerAt, hpc, htdata1, htdata2]
  have hlog : t.toHartLog = s.toHartLog := by rw [ht]
  refine ⟨⟨?_, ?_, ?_, ?_, ?_⟩, .inl ⟨by rw [hlog], fun h => hmode ▸ h⟩, .inl (by rw [hlog]),
    fun _ nextPc csrs he => absurd he (hevent nextPc csrs),
    fun _ => ⟨fun he => absurd he hdecides.1, fun insn he => absurd he (hdecides.2 insn)⟩, fun hs hs' => ?_⟩
  · have hcause : t.reqDebugCause = s.reqDebugCause := by rw [ht]
    exact hcause.trans h.cause
  · rw [hstate, hmode]
    exact h.outside
  · rw [hstate, hpc, hstepPc, hlog]
    exact h.window
  · rw [hchecked, hmode, hdecide, hcompleted, htrigger]
    exact h.checked
  · intro hd
    rw [hchecked, hmode, hcompleted, htrigger]
    exact h.dispatched (hdispatched hd)
  · rw [hstate, hs] at hs'
    cases hs'

theorem goTo (hclear : s.debugMode = false → s.stepCompleted = false) (nextPc : Word) :
    (s.goTo nextPc).stepState = true → (s.goTo nextPc).currentInsn = (s.goTo nextPc).stepPc ∧
      (s.goTo nextPc).stepped = 0 ∨ (s.goTo nextPc).currentInsn ≠ (s.goTo nextPc).stepPc ∧
      (s.goTo nextPc).stepped = 1 := by
  intro hstep
  have hstate : s.stepState = true := hstep
  have hpc := stepPc_of_not_completed hstate (hclear (h.outside hstate))
  have hzero := ((h.window hstate).resolve_right fun hw => hw.1 hpc).2
  by_cases hnext : nextPc = s.stepPc
  · left
    simp [Hart.goTo, hnext, hzero]
  · right
    simp [Hart.goTo, hnext, hzero, hstate]

theorem execute {insn : IdInsn} (hinsn : s.dispatched = some insn) (nextPc : Word) (csrs : Csrs) :
    HartInv { s.execute cfg insn nextPc csrs with checked := false, dispatched := none } ∧
      Decides cfg s (.execute nextPc csrs) { s.execute cfg insn nextPc
        csrs with checked := false, dispatched := none } := by
  obtain ⟨-, hclear⟩ := h.dispatched (by rw [hinsn]; rfl)
  have hwindow : s.stepState = true → ∀ nextPc' csrs', HartEvent.execute nextPc csrs = .execute nextPc' csrs' →
      s.currentInsn = s.stepPc ∧ s.stepped = 0 := fun hstep _ _ _ => by
    have hpc := stepPc_of_not_completed hstep (hclear (h.outside hstep)).1
    exact ⟨hpc, ((h.window hstep).resolve_right fun hw => hw.1 hpc).2⟩
  rw [Hart.execute]
  split_ifs with hdebug henters hdret hwfi
  · refine ⟨⟨h.cause, h.outside, fun hstep => ?_, nofun, nofun⟩, .inl ⟨rfl, id⟩, .inl rfl, hwindow,
      fun _ => ⟨nofun, nofun⟩, fun hs ht => ?_⟩
    · have hmode := h.outside hstep
      rw [hdebug.2] at hmode
      cases hmode
    · exact nomatch hs.symm.trans ht
  · have hmode : s.debugMode = false := Bool.eq_false_iff.2 fun hmode => hdebug ⟨henters.1, hmode⟩
    obtain ⟨hcompleted, htrigger⟩ := hclear hmode
    refine ⟨⟨rfl, nofun, nofun, nofun, nofun⟩, .inr ⟨1, rfl, hmode, rfl, rfl, rfl, rfl, fun _ => ?_, nofun, rfl, nofun⟩,
      .inl rfl, hwindow, fun _ => ⟨nofun, nofun⟩, nofun⟩
    rw [Hart.insnOf, hinsn, Hart.firstCause, hcompleted, htrigger, Hart.ebreakEntersDebug, henters.1, henters.2]
    rfl
  · have hclosed : s.stepState = false := Bool.eq_false_iff.2 fun hstep => by
      have hmode := h.outside hstep
      rw [hdret.2] at hmode
      cases hmode
    rw [Hart.dretStepCheck]
    split_ifs with hstep
    · exact ⟨⟨h.cause, fun _ => rfl, fun _ => .inl ⟨rfl, rfl⟩, nofun, nofun⟩, .inl ⟨rfl, nofun⟩, .inl rfl, hwindow,
        fun _ => ⟨nofun, nofun⟩, fun _ _ => ⟨hdret.2, hstep, rfl, rfl, rfl, rfl⟩⟩
    · exact ⟨⟨h.cause, fun _ => rfl, fun hs => (nomatch hclosed.symm.trans hs), nofun, nofun⟩, .inl ⟨rfl, nofun⟩,
        .inl rfl, hwindow, fun _ => ⟨nofun, nofun⟩, fun hs ht => nomatch hs.symm.trans ht⟩
  · exact ⟨⟨h.cause, h.outside, h.goTo (fun hmode => (hclear hmode).1) nextPc, nofun, nofun⟩, .inl ⟨rfl, id⟩,
      .inl rfl, hwindow, fun _ => ⟨nofun, nofun⟩, fun hs ht => nomatch hs.symm.trans ht⟩
  · exact ⟨⟨h.cause, h.outside, h.goTo (fun hmode => (hclear hmode).1) nextPc, nofun, nofun⟩, .inl ⟨rfl, id⟩,
      .inl rfl, hwindow, fun _ => ⟨nofun, nofun⟩, fun hs ht => nomatch hs.symm.trans ht⟩

theorem step (hstep : s.step cfg e = some t) : HartInv t ∧ Decides cfg s e t := by
  cases e with
  | haltreq value =>
    cases hstep
    rw [Hart.haltreqSync]
    split_ifs
    · exact h.quiet nofun ⟨nofun, nofun⟩ id rfl ⟨rfl, rfl⟩
    · exact h.quiet nofun ⟨nofun, nofun⟩ id rfl ⟨rfl, rfl⟩
    · exact h.quiet nofun ⟨nofun, nofun⟩ id rfl ⟨rfl, rfl⟩
  | irqs mip =>
    cases hstep
    exact h.quiet nofun ⟨nofun, nofun⟩ id rfl ⟨rfl, rfl⟩
  | wake =>
    rw [Hart.step] at hstep
    split_ifs at hstep
    cases hstep
    exact h.quiet nofun ⟨nofun, nofun⟩ id rfl ⟨rfl, rfl⟩
  | check =>
    rw [Hart.step] at hstep
    split_ifs at hstep with hno
    cases hstep
    exact h.check (by simpa using (not_or.1 hno).2)
  | dispatch insn =>
    have hready : s.checked = true ∧ s.dispatched = none := by
      by_contra hno
      rw [Hart.step, if_neg hno] at hstep
      cases hstep
    exact h.dispatch hready hstep
  | stall =>
    rw [Hart.step] at hstep
    split_ifs at hstep
    cases hstep
    exact h.quiet nofun ⟨nofun, nofun⟩ nofun rfl ⟨rfl, rfl⟩
  | execute nextPc csrs =>
    rw [Hart.step] at hstep
    split at hstep
    · rename_i insn hinsn
      cases hstep
      exact h.execute hinsn nextPc csrs
    · cases hstep

end

theorem reset (csrs : Csrs) (pc : Word) (haltreqLevel : Bool) : HartInv (Hart.reset csrs pc haltreqLevel) :=
  ⟨rfl, nofun, nofun, nofun, nofun⟩

end HartInv

/-- Every step of every run does what is promised. -/
theorem debug_entry (cfg : HartConfig) (csrs : Csrs) (pc : Word) (haltreqLevel : Bool) (es : List HartEvent) :
    AllSteps (Hart.step cfg) (fun s e => ∀ t, s.step cfg e = some t → Decides cfg s e t)
      (Hart.reset csrs pc haltreqLevel) es := by
  refine allSteps_of_allSteps (I := HartInv) (P := fun _ _ => True) (fun s e t h _ hstep => (h.step hstep).1)
    (fun s e h _ t hstep => (h.step hstep).2) (HartInv.reset csrs pc haltreqLevel)
      (allSteps_of_forall fun _ _ => trivial)

/-- Exactly one instruction executes in a single-step window. -/
def OneStep (s : Hart) : Prop := s.stepState = true → s.looped + s.stepped ≤ 1

/-- A halt request, a `dret` with `dcsr.step`, and a jump to itself. -/
def stepSelfJump : List HartEvent :=
  [.haltreq true, .haltreq false, .check, .dispatch ⟨0x6F, 4⟩, .check, .dispatch ⟨0x7B041073, 4⟩,
    .execute 0x1004 { dcsr := 4, depc := 0x80 }, .check, .dispatch ⟨0x7B200073, 4⟩, .execute 0 {}, .check,
      .dispatch ⟨0x6F, 4⟩,
    .execute 0x80 {}, .check, .dispatch ⟨0x6F, 4⟩, .execute 0x80 {}]

/-- The jump executes again and again. -/
theorem self_jump_not_one_step :
    ¬∀ cfg csrs pc haltreqLevel es, AllStates (Hart.step cfg) OneStep (Hart.reset csrs pc haltreqLevel) es := by
  intro hall
  obtain ⟨t, hrun, hstep, hlooped⟩ : ∃ t, run (Hart.step ⟨0x1000, false⟩) (Hart.reset {} 0x80 false) stepSelfJump =
    some t ∧
      t.stepState = true ∧ t.looped = 2 := ⟨_, rfl, rfl, rfl⟩
  have hone := (hall ⟨0x1000, false⟩ {} 0x80 false stepSelfJump).final hrun hstep
  omega

end GvsocPulp.Cv32e40p
