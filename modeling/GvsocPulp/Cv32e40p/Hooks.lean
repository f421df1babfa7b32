import GvsocPulp.Cv32e40p.Cosim

/-!
# What the hooks do

The reports of an instruction add up to its effects (`foldl_hook`), and what the retire makes of the state
(`retire_eq`).
-/

namespace GvsocPulp.Cv32e40p

open List Effects

variable {s t : Cosim}

/-- An error that a report can raise. -/
def Fault.ofHook : Fault → Prop
  | .tooManyGprWrites | .tooManyFprWrites | .tooManyCsrWrites | .tooManyMemOps => True
  | _ => False

/-- The error of a state after another one: the first error stays. -/
structure Errs (P : Fault → Prop) (before after : Option Fault) : Prop where
  keep : before.isSome → after = before
  new : ∀ fault, after = some fault → before = some fault ∨ P fault

namespace Errs

variable {P Q : Fault → Prop} {e e' e'' : Option Fault} {f : Fault}

theorem refl (e : Option Fault) : Errs P e e := ⟨fun _ => rfl, fun _ => .inl⟩

theorem orElse (e : Option Fault) {o : Option Fault} (h : ∀ fault, o = some fault → P fault) : Errs P e (e <|> o) := by
  cases e with
  | none => exact ⟨nofun, fun fault he => .inr (h fault he)⟩
  | some f => exact ⟨fun _ => rfl, fun _ => .inl⟩

variable (h : Errs P e e')
include h

theorem trans (h' : Errs P e' e'') : Errs P e e'' where
  keep he := by
    rw [h'.keep (by rw [h.keep he]; exact he), h.keep he]
  new f he := (h'.new f he).elim (h.new f) .inr

theorem mono (hPQ : ∀ f, P f → Q f) : Errs Q e e' := ⟨h.keep, fun f he => (h.new f he).imp_right (hPQ f)⟩

theorem ne (hne : e ≠ some f) (hP : ¬P f) : e' ≠ some f := fun he => (h.new f he).elim hne hP

theorem none_of (he : e' = none) : e = none := by
  cases e with
  | none => rfl
  | some f => rw [h.keep rfl] at he; cases he

end Errs

theorem of_orElse_eq_some {α : Type} {a b : Option α} {x : α} (h : (a <|> b) = some x) : a = some x ∨ b = some x := by
  cases a with
  | none => exact .inr h
  | some y => exact .inl h

namespace Effects

variable (e : Effects) (n : Nat)

theorem addCsr_fault (address : Nat) (value : Word) (origin : CsrOrigin) (fault : Fault)
    (h : (e.addCsr address value origin).2 = some fault) : fault.ofHook := by
  rw [addCsr] at h
  split at h
  · cases h
  · cases h
    exact trivial

theorem hook_fault (hook : Hook) (fault : Fault) (h : (e.hook n hook).2 = some fault) : fault.ofHook := by
  cases hook with
  | gpr index value =>
    simp only [hook] at h
    split_ifs at h
    split at h
    · cases h
    · cases h
      exact trivial
  | fpr index value =>
    simp only [hook] at h
    split_ifs at h
    split at h
    · cases h
    · cases h
      exact trivial
  | csr address value origin => exact addCsr_fault e address value origin fault h
  | trap cause target debugModeTrap mstatus mepc mcause =>
    simp only [hook] at h
    split_ifs at h
    rcases of_orElse_eq_some h with h | h
    · exact addCsr_fault _ _ _ _ _ h
    · rcases of_orElse_eq_some h with h | h
      · exact addCsr_fault _ _ _ _ _ h
      · exact addCsr_fault _ _ _ _ _ h
  | mem isStore address size data =>
    simp only [hook] at h
    split_ifs at h
    · cases h
      exact trivial
  | response load data => cases h

end Effects

namespace Cosim

theorem hook_eq (hopened : s.opened = true) (h : Hook) : s.hook h = { s with
    current := { s.current with toEffects := (s.current.toEffects.hook (s.lastSequence + 1) h).1 }
    error := s.error <|> (s.current.toEffects.hook (s.lastSequence + 1) h).2
    attempt := s.attempt ++ [h] } := by
  rw [hook, if_pos hopened]

theorem hook_closed (hopened : s.opened = false) (h : Hook) : s.hook h = s := by
  rw [hook, if_neg (by rw [hopened]; decide)]

theorem setReg_eq (s : Cosim) (reg : Nat) (value : Word) : ∃ regs current error attempt,
    s.setReg reg value = { s with regs := regs, current := current, error := error, attempt := attempt } := by
  have hhook : ∀ (u : Cosim) (h : Hook), ∃ current error attempt,
      u.hook h = { u with current := current, error := error, attempt := attempt } := fun u h => by
    rw [hook]
    split_ifs
    · exact ⟨_, _, _, rfl⟩
    · exact ⟨u.current, u.error, u.attempt, rfl⟩
  rw [setReg]
  split_ifs
  · exact ⟨s.regs, s.current, s.error, s.attempt, rfl⟩
  · obtain ⟨current, error, attempt, hu⟩ := hhook { s with regs := fun r => if r = reg then value else s.regs r }
      (.fpr (reg % 32) value)
    exact ⟨_, current, error, attempt, hu⟩
  · obtain ⟨current, error, attempt, hu⟩ := hhook { s with regs := fun r => if r = reg then value else s.regs r }
      (.gpr reg value)
    exact ⟨_, current, error, attempt, hu⟩

theorem foldl_hook (hs : List Hook) : ∀ {s : Cosim}, s.opened = true → ∃ error, Errs Fault.ofHook s.error error ∧
    hs.foldl hook s = { s with
      current := { s.current with
        toEffects := hs.foldl (fun e h => (e.hook (s.lastSequence + 1) h).1) s.current.toEffects }
      error := error
      attempt := s.attempt ++ hs } := by
  induction hs with
  | nil => exact fun {s} _ => ⟨s.error, .refl _, by rw [append_nil]; rfl⟩
  | cons h hs ih =>
    intro s hopened
    obtain ⟨error, herror, hfold⟩ := ih (s := s.hook h) (by rw [hook_eq hopened]; exact hopened)
    have hfirst : Errs Fault.ofHook s.error (s.hook h).error := by
      rw [hook_eq hopened]
      exact .orElse s.error fun fault => hook_fault _ _ h fault
    refine ⟨error, hfirst.trans herror, ?_⟩
    rw [foldl_cons, hfold, hook_eq hopened, append_assoc]
    rfl

def RetireFault (s : Cosim) (fault : Fault) : Prop :=
  fault.ofHook ∨ fault = .executedBeforeData (s.lastSequence + 1) s.external.sequence

theorem checkExternal_eq (s : Cosim) : s.checkExternal = { s with error := s.checkExternal.error } := by
  rw [checkExternal]
  split_ifs <;> rfl

theorem checkExternal_errs (s : Cosim) : Errs s.RetireFault s.error s.checkExternal.error := by
  rw [checkExternal]
  split_ifs
  · exact .orElse _ fun fault hf => .inr (Option.some.inj hf).symm
  · exact .refl _

theorem checkExternal_late (h : s.externalPending = true ∧ s.external.sequence < s.lastSequence + 1) :
    s.checkExternal.error ≠ none := by
  rw [checkExternal, if_pos h, fail]
  cases s.error <;> nofun

theorem fpState_csr (s : Cosim) (r : Retire) : ∀ h ∈ s.fpState r, ∃ address value origin,
    h = .csr address value origin := by
  intro h hh
  rw [fpState] at hh
  split_ifs at hh
  · exact nomatch hh
  all_goals
    simp only [append_nil, mem_append, Option.mem_toList, Option.map_eq_some_iff] at hh
  · obtain ⟨value, -, rfl⟩ := hh
    exact ⟨_, value, _, rfl⟩
  · rcases hh with ⟨value, -, rfl⟩ | ⟨value, -, rfl⟩
    · exact ⟨_, value, _, rfl⟩
    · exact ⟨_, value, _, rfl⟩

theorem retire_eq (hopened : s.opened = true) (r : Retire) : ∃ (error : Option Fault) (hooks : List Hook),
    (∀ h ∈ hooks, ∃ address value origin, h = .csr address value origin) ∧ Errs s.RetireFault s.error error ∧
    (s.externalPending = true ∧ s.external.sequence < s.lastSequence + 1 → error ≠ none) ∧
    s.retire r = close { s with
      current := { s.current with
        toEffects := hooks.foldl (fun e h => (e.hook (s.lastSequence + 1) h).1) s.current.toEffects }
      error := error
      attempt := s.attempt ++ hooks } r := by
  have hopened' : s.checkExternal.opened = true := by
    rw [checkExternal_eq]
    exact hopened
  obtain ⟨error, herror, hfold⟩ := foldl_hook (s.fpState r) hopened'
  refine ⟨error, s.fpState r, fpState_csr s r, (checkExternal_errs s).trans (herror.mono fun _ => .inl),
    fun hlate hnone => ?_, ?_⟩
  · exact checkExternal_late hlate (herror.none_of hnone)
  · rw [retire, if_pos hopened, hfold, checkExternal_eq]

theorem externalLoadResponse_eq {n : Nat} {data : Word} (h : s.externalLoadResponse n data = some t) : ∃ c rest,
    s.error = none ∧ s.events = .commit c :: rest ∧ s.externalPending = true ∧ c.sequence = n ∧
      s.external.sequence = n ∧
    t = { s.setReg s.external.reg (s.external.extend data) with
      attempt := s.attempt
      events := .commit { c with toEffects := c.toEffects.respond s.external.toLoad data } :: rest
      externalPending := false
      attempts := s.attempts.modify (n - 1) (· ++ [.response s.external.toLoad data])
      responded := s.responded ++ [n] } := by
  rw [externalLoadResponse] at h
  split at h
  · rename_i c rest hstatus hevents
    split_ifs at h with hn
    rw [status, hevents] at hstatus
    by_cases herror : s.error.isSome
    · rw [if_pos herror] at hstatus
      cases hstatus
    rw [if_neg herror] at hstatus
    simp only at hstatus
    split_ifs at hstatus with hpending
    obtain ⟨regs, current, error, attempt, hset⟩ := setReg_eq s s.external.reg (s.external.extend data)
    refine ⟨c, rest, by simpa using herror, hevents, hpending.1, hpending.2.trans hn.symm, hn.symm, ?_⟩
    simp only [Option.some.injEq] at h
    rw [← h, hset]
  · cases h

end Cosim

end GvsocPulp.Cv32e40p
