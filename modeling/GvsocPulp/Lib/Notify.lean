import Mathlib

/-!
# Debts and notifications

Who asks and is refused is owed a notification. `owed` reads the debt off what has been put out; a flag that every
refusal sets and that is only cleared with a notification has it (`flag_of_owed`).
-/

namespace GvsocPulp.Lib

open List

variable {ο : Type*} (asks tells : ο → Bool)

/-- Whether a notification is owed after the outputs, if it was before them. -/
def owed (before : Bool) (os : List ο) : Bool := os.foldl (fun b o => asks o || (b && !tells o)) before

variable {asks tells}

@[simp] theorem owed_cons (before : Bool) (o : ο) (os : List ο) :
    owed asks tells before (o :: os) = owed asks tells (asks o || (before && !tells o)) os := rfl

theorem owed_append (before : Bool) (os os' : List ο) :
    owed asks tells before (os ++ os') = owed asks tells (owed asks tells before os) os' := foldl_append

/-- What is owed after outputs that refuse nothing was owed before, and none of them is a notification. -/
theorem owed_of_no_asks {before : Bool} {os : List ο} (hasks : ∀ o ∈ os, asks o = false)
    (h : owed asks tells before os = true) : before = true ∧ ∀ o ∈ os, tells o = false := by
  induction os generalizing before with
  | nil => exact ⟨h, fun o ho => by cases ho⟩
  | cons o os ih =>
    rw [owed_cons, hasks o mem_cons_self] at h
    obtain ⟨hbefore, hos⟩ := ih (fun o ho => hasks o (mem_cons_of_mem _ ho)) h
    rw [Bool.false_or, Bool.and_eq_true] at hbefore
    obtain ⟨hbefore, ho⟩ := hbefore
    refine ⟨hbefore, fun o' ho' => ?_⟩
    rcases mem_cons.1 ho' with rfl | ho'
    · simpa using ho
    · exact hos o' ho'

/-- A flag has the debt, if outputs that refuse leave it set, and others only clear it with a notification. -/
theorem flag_of_owed {before : Bool} {flag flag' : Prop} {os : List ο} (hflag : before = true → flag)
    (hset : (∃ o ∈ os, asks o = true) → flag') (hkeep : flag → flag' ∨ ∃ o ∈ os, tells o = true)
    (h : owed asks tells before os = true) : flag' := by
  by_cases hasks : ∃ o ∈ os, asks o = true
  · exact hset hasks
  · have hnone : ∀ o ∈ os, asks o = false := fun o ho =>
      Bool.eq_false_iff.2 fun ha => hasks ⟨o, ho, ha⟩
    obtain ⟨hbefore, htells⟩ := owed_of_no_asks hnone h
    rcases hkeep (hflag hbefore) with hf | ⟨o, ho, ht⟩
    · exact hf
    · rw [htells o ho] at ht
      cases ht

end GvsocPulp.Lib
