import Mathlib

/-!
# Runs of a partial step function

A system whose events may be refused (`none`): runs over lists of events, and the rules that lift a property of one
step to all states of a run.

- `run`: the state after a list of events;
- `run_invariant`, `run_inv`: what each step of a run preserves holds at its end;
- `allStates_iff`: where a step keeps a property exactly under a condition, the property holds in all states of a run
  iff all its steps meet the condition.
-/

namespace GvsocPulp.Lib

section Run

variable {σ ε : Type*} (step : σ → ε → Option σ)

/-- The state after the events, if none of them is refused. -/
def run (s : σ) : List ε → Option σ
  | [] => some s
  | e :: es => (step s e).bind fun s' => run s' es

/-- Every step of the run meets the condition. -/
def AllSteps (P : σ → ε → Prop) : σ → List ε → Prop
  | _, [] => True
  | s, e :: es => ∀ s', step s e = some s' → P s e ∧ AllSteps P s' es

instance decidableAllSteps {P : σ → ε → Prop} [∀ s e, Decidable (P s e)] : ∀ (s : σ) (es : List ε),
    Decidable (AllSteps step P s es)
  | _, [] => isTrue trivial
  | s, e :: es =>
    match hs : step s e with
    | none => isTrue fun s' hs' => by rw [hs] at hs'; cases hs'
    | some s₁ =>
      have := decidableAllSteps (P := P) s₁ es
      decidable_of_iff (P s e ∧ AllSteps step P s₁ es)
        ⟨fun h s' hs' => by rw [hs] at hs'; cases hs'; exact h, fun h => h s₁ hs⟩

/-- Every state of the run has the property. -/
def AllStates (I : σ → Prop) : σ → List ε → Prop
  | s, [] => I s
  | s, e :: es => I s ∧ ∀ s', step s e = some s' → AllStates I s' es

variable {step}

@[simp] theorem run_nil (s : σ) : run step s [] = some s := rfl

theorem run_cons {s s' : σ} {e : ε} {es : List ε} :
    run step s (e :: es) = some s' ↔ ∃ s₁, step s e = some s₁ ∧ run step s₁ es = some s' := by
  rw [run, Option.bind_eq_some_iff]

theorem run_append {s s' : σ} {es es' : List ε} :
    run step s (es ++ es') = some s' ↔ ∃ s₁, run step s es = some s₁ ∧ run step s₁ es' = some s' := by
  induction es generalizing s with
  | nil => simp
  | cons e es ih =>
    rw [List.cons_append, run_cons]
    constructor
    · rintro ⟨s₁, h, h'⟩
      obtain ⟨s₂, h₁, h₂⟩ := ih.1 h'
      exact ⟨s₂, run_cons.2 ⟨s₁, h, h₁⟩, h₂⟩
    · rintro ⟨s₂, h, h₂⟩
      obtain ⟨s₁, h, h₁⟩ := run_cons.1 h
      exact ⟨s₁, h, ih.2 ⟨s₂, h₁, h₂⟩⟩

theorem run_invariant {I : σ → Prop} (hstep : ∀ s e s', I s → step s e = some s' → I s') :
    ∀ {es : List ε} {s s' : σ}, I s → run step s es = some s' → I s'
  | [], s, s', hI, h => by cases h; exact hI
  | e :: es, s, s', hI, h => by
    obtain ⟨s₁, h₁, h⟩ := run_cons.1 h
    exact run_invariant hstep (hstep s e s₁ hI h₁) h

/-- A condition on the events alone. -/
theorem allSteps_of_forall {P : ε → Prop} : ∀ {es : List ε} {s : σ}, (∀ e ∈ es, P e) →
    AllSteps step (fun _ e => P e) s es
  | [], _, _ => trivial
  | e :: _, _, h => fun _ _ => ⟨h e List.mem_cons_self, allSteps_of_forall fun e he => h e (List.mem_cons_of_mem _ he)⟩

theorem run_inv {I : σ → Prop} {P : σ → ε → Prop} (hstep : ∀ s e s', I s → P s e → step s e = some s' → I s') :
    ∀ {es : List ε} {s s' : σ}, I s → AllSteps step P s es → run step s es = some s' → I s'
  | [], s, s', hI, _, h => by cases h; exact hI
  | e :: es, s, s', hI, hP, h => by
    obtain ⟨s₁, h₁, h⟩ := run_cons.1 h
    obtain ⟨hPs, hP⟩ := hP s₁ h₁
    exact run_inv hstep (hstep s e s₁ hI hPs h₁) hP h

/-- A run whose steps meet the condition has in all its states what each of its steps preserves under the condition. -/
theorem allStates_of_allSteps {I F : σ → Prop} {P : σ → ε → Prop} (hF : ∀ s, I s → F s)
    (hstep : ∀ s e s', I s → P s e → step s e = some s' → I s') :
    ∀ {es : List ε} {s : σ}, I s → AllSteps step P s es → AllStates step F s es
  | [], s, hs, _ => hF s hs
  | _ :: _, s, hs, h => ⟨hF s hs, fun s' hs' =>
      allStates_of_allSteps hF hstep (hstep s _ s' hs (h s' hs').1 hs') (h s' hs').2⟩

/-- Its steps have what follows from the invariant and the condition. -/
theorem allSteps_of_allSteps {I : σ → Prop} {P Q : σ → ε → Prop}
    (hstep : ∀ s e s', I s → P s e → step s e = some s' → I s')
    (hQ : ∀ s e, I s → P s e → Q s e) : ∀ {es : List ε} {s : σ}, I s → AllSteps step P s es → AllSteps step Q s es
  | [], _, _, _ => trivial
  | _ :: _, s, hs, h => fun s' hs' =>
      ⟨hQ s _ hs (h s' hs').1, allSteps_of_allSteps hstep hQ (hstep s _ s' hs (h s' hs').1 hs') (h s' hs').2⟩

theorem allStates_iff {I F : σ → Prop} {P : σ → ε → Prop} (hF : ∀ s, I s → F s)
    (hstep : ∀ s e s', I s → step s e = some s' → (F s' ↔ P s e))
    (hI : ∀ s e s', I s → step s e = some s' → F s' → I s') :
    ∀ {es : List ε} {s : σ}, I s → (AllStates step F s es ↔ AllSteps step P s es)
  | [], s, hs => by simp [AllStates, AllSteps, hF s hs]
  | e :: es, s, hs => by
    constructor
    · intro h s' hs'
      have hall := h.2 s' hs'
      have hFs' : F s' := by cases es with
        | nil => exact hall
        | cons => exact hall.1
      exact ⟨(hstep s e s' hs hs').1 hFs', (allStates_iff hF hstep hI (hI s e s' hs hs' hFs')).1 hall⟩
    · intro h
      refine ⟨hF s hs, fun s' hs' => ?_⟩
      obtain ⟨hP, hall⟩ := h s' hs'
      have hFs' := (hstep s e s' hs hs').2 hP
      exact (allStates_iff hF hstep hI (hI s e s' hs hs' hFs')).2 hall

/-- Where a step has `Q` exactly under the condition `P`, all steps of a run have `Q` iff all meet `P`. -/
theorem allSteps_iff {I : σ → Prop} {P Q : σ → ε → Prop} (hQ : ∀ s e s', I s → step s e = some s' → (Q s e ↔ P s e))
    (hstep : ∀ s e s', I s → P s e → step s e = some s' → I s') :
    ∀ {es : List ε} {s : σ}, I s → (AllSteps step Q s es ↔ AllSteps step P s es)
  | [], _, _ => Iff.rfl
  | e :: es, s, hs => by
    refine forall_congr' fun s' => forall_congr' fun hs' => ?_
    rw [hQ s e s' hs hs']
    exact and_congr_right fun hP => allSteps_iff hQ hstep (hstep s e s' hs hP hs')

theorem AllStates.final {I : σ → Prop} : ∀ {es : List ε} {s s' : σ}, AllStates step I s es →
    run step s es = some s' → I s'
  | [], _, _, h, hr => by cases hr; exact h
  | e :: es, s, s', h, hr => by
    obtain ⟨s₁, h₁, hr⟩ := run_cons.1 hr
    exact (h.2 s₁ h₁).final hr

theorem AllStates.mono {I J : σ → Prop} (hIJ : ∀ s, I s → J s) : ∀ {es : List ε} {s : σ}, AllStates step I s es →
    AllStates step J s es
  | [], s, h => hIJ s h
  | _ :: _, s, h => ⟨hIJ s h.1, fun s' hs' => (h.2 s' hs').mono hIJ⟩

end Run

end GvsocPulp.Lib
