import GvsocPulp.Hci.Fairness

/-!
# The starvation turn of the HCI

The elections that leave the low side out are counted, and when there have been enough of them the high side is masked
in one election.

- `stall_step`: who counts;
- `turn_within`: how many elections pass before such a turn;
- `LowServed`: what the turn serves;
- `bounded_waiting`: the waiting of both sides, in all runs.
-/

namespace GvsocPulp.Hci

open Lib List Option Crossbar

variable {cfg : Config}

/-! ## Counting -/

namespace Crossbar

def lowPending (cfg : Config) (hci : Crossbar) : Bool :=
  if hci.widePrio then hci.narrowPending cfg else hci.widePending cfg

def highPending (cfg : Config) (hci : Crossbar) : Bool :=
  if hci.widePrio then hci.widePending cfg else hci.narrowPending cfg

/-- An election that starts now masks the high side. -/
def lowTurn (cfg : Config) (hci : Crossbar) : Bool := (hci.startElection cfg).2.lowTurn

theorem lowTurn_eq (hci : Crossbar) : hci.lowTurn cfg =
    (decide (0 < hci.wideMaxStall) && hci.lowPending cfg && decide (hci.wideMaxStall ≤ hci.lowStallCtr)) := rfl

end Crossbar

/-- The configuration of a crossbar, and its count. -/
def Crossbar.stallOf (hci : Crossbar) : Int × Bool × Nat := (hci.wideMaxStall, hci.widePrio, hci.lowStallCtr)

def Election.flags (e : Election) : Bool × Bool × Bool := (e.wideRequested, e.narrowRequested, e.lowTurn)

/-- What the counting reads: the configuration, the count, and what the election that runs has found. -/
def stall (s : System) : (Int × Bool × Nat) × Option (Bool × Bool × Bool) :=
    (s.hci.stallOf, s.election.map Election.flags)

section Step

variable {s s' : System} {event : Event}

theorem inputReq_stall (hci : Crossbar) (req : Req) (id : Nat) :
    (hci.inputReq cfg req id).2.1.stallOf = hci.stallOf := by
  rw [inputReq]
  split <;> rfl

theorem wideInputReq_stall {hci : Crossbar} {req : Req} {id : Nat} {answer : Answer}
    (h : hci.wideInputReq cfg req id = some answer) : answer.2.1.stallOf = hci.stallOf := by
  unfold wideInputReq at h
  dsimp only at h
  split at h
  · cases h
    rfl
  · obtain ⟨mask, -, rfl⟩ := map_eq_some_iff.1 h
    split <;> rfl

theorem visit_stall (hci : Crossbar) (e : Election) (v : Visit) :
    (hci.visit cfg e v).1.stallOf = hci.stallOf ∧ (hci.visit cfg e v).2.flags = e.flags := by
  cases v with
  | bank b =>
    rw [visit, serveBank_eq]
    split <;> exact ⟨rfl, rfl⟩
  | wide i =>
    rw [visit, serveWide_eq]
    split <;> exact ⟨rfl, rfl⟩

/-- **Only the elections count**, and a control write starts again. -/
theorem stall_step (hs : step cfg s event = some s') (hfsm : event ≠ .fsm) (hend : event ≠ .endElection)
    (hctrl : ∀ value, event ≠ .ctrl value) : stall s' = stall s := by
  cases event with
  | input id req =>
    obtain ⟨-, rfl⟩ := ite_some_none_eq_some.1 hs
    exact congrArg₂ Prod.mk (inputReq_stall s.hci req id) rfl
  | wideInput id req =>
    obtain ⟨-, hs⟩ := ite_none_right_eq_some.1 hs
    obtain ⟨answer, hanswer, rfl⟩ := map_eq_some_iff.1 hs
    exact congrArg₂ Prod.mk (wideInputReq_stall hanswer) rfl
  | ctrl value => exact absurd rfl (hctrl value)
  | nextCycle =>
    obtain ⟨-, rfl⟩ := ite_some_none_eq_some.1 hs
    rfl
  | fsm => exact absurd rfl hfsm
  | visit =>
    obtain ⟨e, v, todo, he, -, -, rfl⟩ := visit_inv hs
    rw [stall, visit_hci, visit_election, stall, he]
    obtain ⟨hstall, hflags⟩ := visit_stall s.hci { e with todo := todo } v
    exact congrArg₂ Prod.mk hstall (congrArg some hflags)
  | reissue =>
    obtain ⟨port, -, -, req, answer, -, -, -, hanswer, rfl⟩ := reissue_inv hs
    cases port with
    | narrow id =>
      cases hanswer
      exact congrArg₂ Prod.mk (inputReq_stall s.hci req id) rfl
    | wide id => exact congrArg₂ Prod.mk (wideInputReq_stall hanswer) rfl
  | retryReturn =>
    obtain ⟨e, port, he, -, -, rfl⟩ := retryReturn_inv hs
    rw [stall, stall, he]
    cases port <;> rfl
  | endElection => exact absurd rfl hend
  | tick =>
    obtain ⟨-, rfl⟩ := ite_some_none_eq_some.1 hs
    rfl

theorem fsm_inv (hs : step cfg s .fsm = some s') : s.election = none ∧ s'.hci = (s.hci.startElection cfg).1 ∧
    s'.election = some (s.hci.startElection cfg).2 := by
  obtain ⟨hguard, rfl⟩ := ite_some_none_eq_some.1 hs
  exact ⟨isNone_iff_eq_none.1 hguard.1, rfl, rfl⟩

theorem endElection_stall (cfg : Config) (hci : Crossbar) (e : Election) : (hci.endElection cfg e).stallOf =
    (hci.wideMaxStall, hci.widePrio, if e.lowTurn then 0
      else if hci.lowPending cfg && (if hci.widePrio then e.wideRequested else e.narrowRequested) then
        hci.lowStallCtr + 1
      else 0) := by
  simp only [endElection]
  split <;> rfl

end Step

/-! ## How many elections pass -/

/-- Both sides compete: the high side requests whenever an election starts, the low side also when it ends; and the
configuration is not written. -/
def Contended (cfg : Config) (s : System) : Event → Prop
  | .fsm => s.hci.lowPending cfg = true ∧ s.hci.highPending cfg = true
  | .endElection => s.hci.lowPending cfg = true
  | .ctrl _ => False
  | _ => True

instance (cfg : Config) (s : System) : ∀ event : Event, Decidable (Contended cfg s event)
  | .fsm => by unfold Contended; infer_instance
  | .endElection => by unfold Contended; infer_instance
  | .ctrl _ => isFalse id
  | .input .. | .wideInput .. | .nextCycle | .visit | .reissue | .retryReturn | .tick => isTrue trivial

/-- An election starts that does not mask the high side. -/
def NoTurn (cfg : Config) (s : System) : Event → Prop
  | .fsm => s.hci.lowTurn cfg = false
  | _ => True

instance (cfg : Config) (s : System) : ∀ event : Event, Decidable (NoTurn cfg s event)
  | .fsm => by unfold NoTurn; infer_instance
  | .endElection | .ctrl _ | .input .. | .wideInput .. | .nextCycle | .visit | .reissue | .retryReturn | .tick =>
    isTrue trivial

/-- `n` elections without a turn have been counted, the one that runs included. -/
def Counted (K : Int) (n : Nat) : (Int × Bool × Nat) × Option (Bool × Bool × Bool) → Prop
  | ((maxStall, _, ctr), none) => maxStall = K ∧ n ≤ K ∧ n ≤ ctr
  | ((maxStall, widePrio, ctr), some (wide, narrow, turn)) =>
    maxStall = K ∧ n ≤ K ∧ (n = 0 ∨ n ≤ ctr + 1 ∧ turn = false ∧ (if widePrio then wide else narrow) = true)

section Counting

variable {s s' : System} {event : Event} {K : Int} {n : Nat}

theorem counted_fsm (hK : 0 < K) (h : Counted K n (stall s)) (hs : step cfg s .fsm = some s')
    (hcont : Contended cfg s .fsm) (hturn : NoTurn cfg s .fsm) : Counted K (n + 1) (stall s') := by
  obtain ⟨hnone, hhci, helection⟩ := fsm_inv hs
  rw [stall, hnone] at h
  obtain ⟨hmax, -, hctr⟩ := h
  obtain ⟨hlow, hhigh⟩ := hcont
  rw [NoTurn, lowTurn_eq, hlow, hmax, decide_eq_true hK, Bool.and_self, Bool.true_and, decide_eq_false_iff_not] at hturn
  rw [stall, hhci, helection]
  refine ⟨hmax, ?_, .inr ⟨Nat.succ_le_succ hctr, ?_, hhigh⟩⟩
  · push_cast
    omega
  · show s.hci.lowTurn cfg = false
    rw [lowTurn_eq, hmax, decide_eq_false hturn, Bool.and_false]

theorem counted_endElection (h : Counted K n (stall s)) (hs : step cfg s .endElection = some s')
    (hcont : Contended cfg s .endElection) : Counted K n (stall s') := by
  obtain ⟨e, he, -, -, rfl⟩ := endElection_inv hs
  rw [stall, he] at h
  obtain ⟨hmax, hle, hn⟩ := h
  rw [stall, endElection_stall]
  refine ⟨hmax, hle, ?_⟩
  rcases hn with rfl | ⟨hctr, hturn, hhigh⟩
  · exact Nat.zero_le _
  · have hlow : s.hci.lowPending cfg = true := hcont
    rw [hturn, hlow, hhigh]
    exact hctr

/-- **Between two turns** at most as many elections pass as the low side may be stalled. -/
theorem turn_within (hK : 0 < K) : ∀ {es : List Event} {s s' : System} {n : Nat}, Counted K n (stall s) →
    run (step cfg) s es = some s' → AllSteps (step cfg) (Contended cfg) s es → AllSteps (step cfg) (NoTurn cfg) s es →
      n + (es.count .fsm : Int) ≤ K
  | [], s, s', n, h, _, _, _ => by
    have hle : (n : Int) ≤ K := by
      rcases hst : stall s with ⟨⟨m, w, k⟩, o⟩
      rw [hst] at h
      rcases o with _ | ⟨wide, narrow, turn⟩ <;> exact h.2.1
    simpa using hle
  | event :: es, s, s', n, h, hrun, hcont, hturn => by
    obtain ⟨s₁, hs, hrest⟩ := run_cons.1 hrun
    obtain ⟨hcont₁, hconts⟩ := hcont s₁ hs
    obtain ⟨hturn₁, hturns⟩ := hturn s₁ hs
    by_cases hfsm : event = .fsm
    · subst hfsm
      have hle := turn_within hK (counted_fsm hK h hs hcont₁ hturn₁) hrest hconts hturns
      rw [count_cons_self]
      push_cast at hle ⊢
      omega
    · rw [count_cons_of_ne hfsm]
      refine turn_within hK ?_ hrest hconts hturns
      by_cases hend : event = .endElection
      · subst hend
        exact counted_endElection h hs hcont₁
      · rw [stall_step hs hfsm hend fun value hctrl => by rw [hctrl] at hcont₁; exact hcont₁]
        exact h

end Counting

/-! ## Two turns -/

section Turns

variable {s s' : System} {event : Event}

/-- The turn runs, or it has ended and nothing has been counted since. -/
def AfterTurn (s : System) : Prop :=
  (∃ e, s.election = some e ∧ e.lowTurn = true) ∨ s.election = none ∧ s.hci.lowStallCtr = 0

theorem afterTurn_fsm (hs : step cfg s .fsm = some s') (h : s.hci.lowTurn cfg = true) : AfterTurn s' :=
  .inl ⟨_, (fsm_inv hs).2.2, h⟩

theorem afterTurn_step (hs : step cfg s event = some s') (hfsm : event ≠ .fsm) (h : AfterTurn s) : AfterTurn s' := by
  by_cases hend : event = .endElection
  · subst hend
    obtain ⟨e, he, -, -, rfl⟩ := endElection_inv hs
    rcases h with ⟨e', he', hturn⟩ | ⟨hnone, -⟩
    · rw [he] at he'
      cases he'
      refine .inr ⟨rfl, ?_⟩
      have hstall := endElection_stall cfg s.hci e
      rw [hturn] at hstall
      exact congrArg (fun p => p.2.2) hstall
    · rw [he] at hnone
      cases hnone
  · by_cases hctrl : ∃ value, event = .ctrl value
    · obtain ⟨value, rfl⟩ := hctrl
      cases hs
      exact h.imp_right fun h => ⟨h.1, rfl⟩
    · have hstall := stall_step hs hfsm hend fun value heq => hctrl ⟨value, heq⟩
      rw [stall, stall, Prod.mk.injEq] at hstall
      obtain ⟨hcount, hflags⟩ := hstall
      have hctr : s'.hci.lowStallCtr = s.hci.lowStallCtr := congrArg (fun p => p.2.2) hcount
      rcases h with ⟨e, he, hturn⟩ | ⟨hnone, hzero⟩
      · rw [he] at hflags
        obtain ⟨e', he', heq⟩ := map_eq_some_iff.1 hflags
        exact .inl ⟨e', he', (congrArg (fun p => p.2.2) heq).trans hturn⟩
      · rw [hnone, map_none, map_eq_none_iff] at hflags
        exact .inr ⟨hflags, hctr.trans hzero⟩

/-- **The high side is not masked twice in a row.** -/
theorem no_second_turn : ∀ {es : List Event} {s s' : System}, AfterTurn s → run (step cfg) s es = some s' → .fsm ∉ es →
    s'.election = none → s'.hci.lowTurn cfg = false
  | [], s, s', h, hrun, _, hnone => by
    cases hrun
    rcases h with ⟨e, he, -⟩ | ⟨-, hzero⟩
    · rw [he] at hnone
      cases hnone
    · rw [lowTurn_eq, hzero]
      cases hlow : s.hci.lowPending cfg <;> simp
  | event :: es, s, s', h, hrun, hnot, hnone => by
    obtain ⟨s₁, hs, hrun⟩ := run_cons.1 hrun
    rw [mem_cons, not_or] at hnot
    exact no_second_turn (afterTurn_step hs (Ne.symm hnot.1) h) hrun hnot.2 hnone

end Turns

/-! ## What a turn serves -/

section Served

variable {s s' : System} {event : Event} {b id : Nat}

section

variable (hs : step cfg s event = some s')
include hs

theorem grants_cons {es : List Event} :
    grants cfg s (event :: es) = (grantAt cfg s event).toList ++ grants cfg s' es := by rw [grants, hs]

/-- Inside an election: what is left to visit shrinks, one visit at a time. -/
theorem election_step {e : Election} (he : s.election = some e) (hend : event ≠ .endElection) :
    ∃ e', s'.election = some e' ∧
      ((event ≠ .visit ∧ e'.todo = e.todo ∧ e'.taken = e.taken) ∨
        ∃ v todo, event = .visit ∧ e.retrying = none ∧ e.todo = v :: todo ∧ s' = s.visit cfg { e with todo := todo } v ∧
          e'.todo = todo) := by
  have hsame : ∀ s' : System, s'.election = s.election → event ≠ .visit → ∃ e', s'.election = some e' ∧
      ((event ≠ .visit ∧ e'.todo = e.todo ∧ e'.taken = e.taken) ∨
        ∃ v todo, event = .visit ∧ e.retrying = none ∧ e.todo = v :: todo ∧ s' = s.visit cfg { e with todo := todo } v ∧
          e'.todo = todo) := fun s' h hne => ⟨e, h.trans he, .inl ⟨hne, rfl, rfl⟩⟩
  cases event with
  | input id req =>
    rw [step, he] at hs
    simp at hs
  | wideInput id req =>
    obtain ⟨-, hs⟩ := ite_none_right_eq_some.1 hs
    obtain ⟨answer, -, rfl⟩ := map_eq_some_iff.1 hs
    exact hsame _ rfl (by simp)
  | ctrl value =>
    cases hs
    exact hsame _ rfl (by simp)
  | nextCycle =>
    rw [step, he] at hs
    simp at hs
  | fsm =>
    rw [step, he] at hs
    simp at hs
  | visit =>
    obtain ⟨e', v, todo, he', hretrying, htodo, rfl⟩ := visit_inv hs
    rw [he] at he'
    cases he'
    refine ⟨_, visit_election s _ v, .inr ⟨v, todo, rfl, hretrying, htodo, rfl, ?_⟩⟩
    cases v with
    | bank b =>
      rw [visit, serveBank_eq]
      split <;> rfl
    | wide i =>
      rw [visit, serveWide_eq]
      split <;> rfl
  | reissue =>
    obtain ⟨-, -, -, -, -, -, -, -, -, rfl⟩ := reissue_inv hs
    exact hsame _ rfl (by simp)
  | retryReturn =>
    obtain ⟨e', port, he', -, -, rfl⟩ := retryReturn_inv hs
    cases he.symm.trans he'
    exact ⟨_, rfl, .inl ⟨by simp, rfl, rfl⟩⟩
  | endElection => exact absurd rfl hend
  | tick =>
    rw [step, he] at hs
    simp at hs

theorem grantAt_todo {g : Visit × Port} (hg : grantAt cfg s event = some g) :
    ∃ e, s.election = some e ∧ g.1 ∈ e.todo ∧
      ((∃ b id, g = (.bank b, .narrow id)) ∨ ∃ i, g = (.wide i, .wide i)) := by
  cases event with
  | visit =>
    obtain ⟨e, v, todo, he, hretrying, htodo, rfl⟩ := visit_inv hs
    rw [(grantAt_visit he hretrying htodo).2] at hg
    obtain ⟨port, hport, rfl⟩ := map_eq_some_iff.1 hg
    refine ⟨e, he, by rw [htodo]; exact mem_cons_self, ?_⟩
    cases v with
    | bank b =>
      rw [visit, serveBank_eq] at hport
      split at hport
      · cases hport
        exact .inl ⟨b, _, rfl⟩
      · rw [hretrying] at hport
        cases hport
    | wide i =>
      rw [visit, serveWide_eq] at hport
      split at hport
      · cases hport
        exact .inr ⟨i, rfl⟩
      · rw [hretrying] at hport
        cases hport
  | input id req => cases hg
  | wideInput id req => cases hg
  | ctrl value => cases hg
  | nextCycle => cases hg
  | fsm => cases hg
  | reissue => cases hg
  | retryReturn => cases hg
  | endElection => cases hg
  | tick => cases hg

theorem election_none (hfsm : event ≠ .fsm) (hnone : s.election = none) :
    s'.election = none := by
  by_cases hend : event = .endElection
  · subst hend
    obtain ⟨-, -, -, -, rfl⟩ := endElection_inv hs
    rfl
  · by_cases hctrl : ∃ value, event = .ctrl value
    · obtain ⟨value, rfl⟩ := hctrl
      cases hs
      exact hnone
    · have hstall := stall_step hs hfsm hend fun value heq => hctrl ⟨value, heq⟩
      have hflags : s'.election.map Election.flags = s.election.map Election.flags := congrArg Prod.snd hstall
      rw [hnone, map_none, map_eq_none_iff] at hflags
      exact hflags

end

theorem grants_todo : ∀ {es : List Event} {s s' : System}, run (step cfg) s es = some s' → .fsm ∉ es →
    ∀ g ∈ grants cfg s es, ∃ e, s.election = some e ∧ g.1 ∈ e.todo ∧
      ((∃ b id, g = (.bank b, .narrow id)) ∨ ∃ i, g = (.wide i, .wide i))
  | [], _, _, _, _, g, hg => absurd hg not_mem_nil
  | event :: es, s, s', hrun, hnot, g, hg => by
    obtain ⟨s₁, hs, hrest⟩ := run_cons.1 hrun
    rw [mem_cons, not_or] at hnot
    rw [grants_cons hs, mem_append, mem_toList] at hg
    rcases hg with hg | hg
    · exact grantAt_todo hs hg
    · obtain ⟨e₁, he₁, hmem, hkind⟩ := grants_todo hrest hnot.2 g hg
      cases he : s.election with
      | none =>
        rw [election_none hs (Ne.symm hnot.1) he] at he₁
        cases he₁
      | some e =>
        by_cases hend : event = .endElection
        · subst hend
          obtain ⟨e', -, -, -, hs'⟩ := endElection_inv hs
          rw [hs'] at he₁
          cases he₁
        · obtain ⟨e', he', hcase⟩ := election_step hs he hend
          rw [he'] at he₁
          cases he₁
          refine ⟨e, rfl, ?_, hkind⟩
          rcases hcase with ⟨-, htodo, -⟩ | ⟨v, todo, -, -, htodo, -, htodo'⟩
          · rwa [← htodo]
          · rw [htodo' ] at hmem
            rw [htodo]
            exact mem_cons_of_mem _ hmem

theorem bank_served (hb64 : b < 64) : ∀ {es : List Event} {s s' : System} {e : Election}, s.election = some e →
    .bank b ∈ e.todo → (∀ v ∈ e.todo, ∃ b', v = .bank b') → e.taken &&& 1#64 <<< b = 0#64 →
    (s.hci.banks b).pendingMask ≠ 0#64 →
      run (step cfg) s es = some s' → s'.election = none → ∃ id, (.bank b, .narrow id) ∈ grants cfg s es
  | [], s, s', e, he, _, _, _, _, hrun, hnone => by
    cases hrun
    rw [he] at hnone
    cases hnone
  | event :: es, s, s', e, he, hmem, hall, htaken, hmask, hrun, hnone => by
    obtain ⟨s₁, hs, hrest⟩ := run_cons.1 hrun
    rw [grants_cons hs]
    by_cases hend : event = .endElection
    · subst hend
      obtain ⟨e', he', -, htodo, -⟩ := endElection_inv hs
      rw [he] at he'
      cases he'
      rw [htodo] at hmem
      cases hmem
    rcases bank_step hs b with ⟨hgrant, -⟩ | ⟨hnogrant, hsame⟩
    · rw [hgrant]
      exact ⟨_, mem_cons_self⟩
    -- the bank is still to be visited
    have hmask₁ : (s₁.hci.banks b).pendingMask ≠ 0#64 := fun h0 => by
      obtain ⟨j, hj⟩ := exists_getLsbD hmask
      have hj₁ := hsame.pending j hj
      rw [h0] at hj₁
      simp at hj₁
    obtain ⟨e₁, he₁, hcase⟩ := election_step hs he hend
    have hrecurse : .bank b ∈ e₁.todo → (∀ v ∈ e₁.todo, ∃ b', v = Visit.bank b') → e₁.taken &&& 1#64 <<< b = 0#64 →
        ∃ id, (.bank b, .narrow id) ∈ (grantAt cfg s event).toList ++ grants cfg s₁ es := fun hmem₁ hall₁ htaken₁ => by
      obtain ⟨id, hid⟩ := bank_served hb64 he₁ hmem₁ hall₁ htaken₁ hmask₁ hrest hnone
      exact ⟨id, mem_append_right _ hid⟩
    rcases hcase with ⟨-, htodo, htaken₁⟩ | ⟨v, todo, rfl, hretrying, htodo, rfl, htodo₁⟩
    · rw [htodo, htaken₁] at hrecurse
      exact hrecurse hmem hall htaken
    · rw [htodo] at hmem hall
      rw [visit_election] at he₁
      obtain ⟨b', rfl⟩ := hall v mem_cons_self
      by_cases hb : b' = b
      · -- its visit grants it
        subst hb
        have hpending : s.hci.pendingAt b' { e with todo := todo } = true := by
          rw [pendingAt, decide_eq_true hmask, decide_eq_true htaken]
          rfl
        rw [(grantAt_visit he hretrying htodo).2, visit, serveBank_eq, if_pos hpending]
        exact ⟨_, mem_cons_self⟩
      · refine hrecurse ?_ ?_ ?_
        · rw [htodo₁]
          exact (mem_cons.1 hmem).resolve_left fun h => hb (Visit.bank.inj h).symm
        · rw [htodo₁]
          exact fun v hv => hall v (mem_cons_of_mem _ hv)
        · cases he₁
          rw [visit, serveBank_eq]
          split
          · by_contra hne
            rw [← ne_eq, Records.and_bit_ne_zero hb64, getLsbD_or_bit_of_ne (Ne.symm hb)] at hne
            exact (Records.and_bit_ne_zero hb64).2 hne htaken
          · exact htaken

/-- **A turn of the wide side grants a port that has a request**: the first one. -/
theorem wide_served : ∀ {es : List Event} {s s' : System} {e : Election}, Inv cfg s → s.election = some e →
    e.retrying = none → e.taken = 0#64 → (∀ v ∈ e.todo, ∃ i, v = .wide i) →
      (∃ i, .wide i ∈ e.todo ∧ (s.hci.wides i).pending = true) → run (step cfg) s es = some s' → s'.election = none →
        ∃ i, (s.hci.wides i).pending = true ∧ (.wide i, .wide i) ∈ grants cfg s es
  | [], s, s', e, _, he, _, _, _, _, hrun, hnone => by
    cases hrun
    rw [he] at hnone
    cases hnone
  | event :: es, s, s', e, hinv, he, hretrying, htaken, hall, hex, hrun, hnone => by
    obtain ⟨s₁, hs, hrest⟩ := run_cons.1 hrun
    rw [grants_cons hs]
    have hinv₁ := inv_step s event s₁ hinv hs
    have hrecurse : ∀ {e₁ : Election}, s₁.election = some e₁ → e₁.retrying = none → e₁.taken = 0#64 →
        (∀ v ∈ e₁.todo, ∃ i, v = Visit.wide i) → (∃ i, .wide i ∈ e₁.todo ∧ (s.hci.wides i).pending = true) →
        s₁.hci.wides = s.hci.wides →
          ∃ i, (s.hci.wides i).pending = true ∧ (.wide i, .wide i) ∈ (grantAt cfg s event).toList ++ grants cfg s₁ es :=
      fun he₁ hretrying₁ htaken₁ hall₁ hex₁ hwides => by
        obtain ⟨i, hi, hgrant⟩ := wide_served hinv₁ he₁ hretrying₁ htaken₁ hall₁
          (by rw [hwides]; exact hex₁) hrest hnone
        exact ⟨i, by rw [← hwides]; exact hi, mem_append_right _ hgrant⟩
    cases event with
    | ctrl value =>
      cases hs
      exact hrecurse he hretrying htaken hall hex rfl
    | visit =>
      obtain ⟨e', v, todo, he', -, htodo, rfl⟩ := visit_inv hs
      rw [he] at he'
      cases he'
      rw [htodo] at hall hex
      obtain ⟨i, rfl⟩ := hall v mem_cons_self
      by_cases hpending : (s.hci.wides i).pending = true
      · have hat : s.hci.wideAt i { e with todo := todo } = true := by
          rw [wideAt, hpending, htaken, BitVec.and_zero]
          rfl
        rw [(grantAt_visit he hretrying htodo).2, visit, serveWide_eq, if_pos hat]
        exact ⟨i, hpending, mem_cons_self⟩
      · -- the next one
        have hat : s.hci.wideAt i { e with todo := todo } = false := by
          rw [wideAt, (Bool.not_eq_true _).mp hpending, Bool.false_and]
        have hvisit : s.hci.visit cfg { e with todo := todo } (.wide i) = (s.hci, { e with todo := todo }) := by
          rw [visit, serveWide_eq, hat]
          rfl
        refine hrecurse ((visit_election s _ _).trans (congrArg some (congrArg Prod.snd hvisit))) hretrying htaken
          (fun v hv => hall v (mem_cons_of_mem _ hv)) ?_ (by rw [visit_hci, hvisit])
        obtain ⟨k, hk, hkpending⟩ := hex
        refine ⟨k, (mem_cons.1 hk).resolve_left fun h => ?_, hkpending⟩
        rw [Visit.wide.inj h] at hkpending
        exact hpending hkpending
    | endElection =>
      obtain ⟨e', he', -, htodo, -⟩ := endElection_inv hs
      rw [he] at he'
      cases he'
      obtain ⟨i, hi, -⟩ := hex
      rw [htodo] at hi
      cases hi
    | input id req =>
      rw [step, he] at hs
      simp at hs
    | wideInput id req =>
      rw [step, he] at hs
      simp [hretrying] at hs
    | nextCycle =>
      rw [step, he] at hs
      simp at hs
    | fsm =>
      rw [step, he] at hs
      simp at hs
    | reissue =>
      have hopened := hinv.records.opened_of_retrying he hretrying
      obtain ⟨port, hport, -⟩ := bind_eq_some_iff.1 hs
      rw [hopened] at hport
      cases hport
    | retryReturn => simp [step, he, hretrying] at hs
    | tick =>
      rw [step, he] at hs
      simp at hs

def Port.Low (widePrio : Bool) : Port → Prop
  | .narrow _ => widePrio = true
  | .wide _ => widePrio = false

/-- What an election serves in which the high side is masked: nothing of it, one pending wide request where the low side
is the wide one, and one narrow request for each bank that has one where it is the narrow one. -/
structure LowServed (cfg : Config) (s : System) (es : List Event) : Prop where
  lowOnly : ∀ g ∈ grants cfg s es, g.2.Low s.hci.widePrio
  wide : s.hci.widePrio = false → ∃ i, (s.hci.wides i).pending = true ∧ (.wide i, .wide i) ∈ grants cfg s es
  narrow : s.hci.widePrio = true → ∀ b < cfg.nbSlaves, (s.hci.banks b).pendingMask ≠ 0#64 →
    ∃ id, (.bank b, .narrow id) ∈ grants cfg s es

theorem turn_todo (h : s.hci.lowTurn cfg = true) : (s.hci.startElection cfg).2.todo =
    if s.hci.widePrio then narrowVisits cfg else wideVisits cfg := by
  have hturn : (decide (0 < s.hci.wideMaxStall) &&
      (if s.hci.widePrio then s.hci.narrowPending cfg else s.hci.widePending cfg) &&
        decide (s.hci.wideMaxStall ≤ s.hci.lowStallCtr)) = true := h
  simp only [startElection, hturn]
  cases s.hci.widePrio <;> simp

theorem turn_serves {es : List Event} {s₁ : System} (hinv : Inv cfg s) (hs : step cfg s .fsm = some s₁)
    (hturn : s.hci.lowTurn cfg = true) (hrun : run (step cfg) s₁ es = some s') (hnot : .fsm ∉ es)
    (hnone : s'.election = none) : LowServed cfg s (.fsm :: es) := by
  obtain ⟨-, hhci, helection⟩ := fsm_inv hs
  have hgrants : grants cfg s (.fsm :: es) = grants cfg s₁ es := grants_cons hs
  have htodo := turn_todo hturn
  have hlow : s.hci.lowPending cfg = true := by
    rw [lowTurn_eq, Bool.and_eq_true, Bool.and_eq_true] at hturn
    exact hturn.1.2
  refine ⟨fun g hg => ?_, fun hprio => ?_, fun hprio b hb hmask => ?_⟩
  · rw [hgrants] at hg
    obtain ⟨e, he, hmem, hkind⟩ := grants_todo hrun hnot g hg
    rw [helection, Option.some.injEq] at he
    rw [← he, htodo] at hmem
    rcases hkind with ⟨b, id, rfl⟩ | ⟨i, rfl⟩
    · cases hp : s.hci.widePrio with
      | true => exact rfl
      | false => simp [hp, wideVisits] at hmem
    · cases hp : s.hci.widePrio with
      | true => simp [hp, narrowVisits] at hmem
      | false => exact rfl
  · rw [hprio] at htodo
    rw [lowPending, hprio] at hlow
    obtain ⟨i, hi, hpending⟩ := List.any_eq_true.1 hlow
    have hvisit : Visit.wide i ∈ (s.hci.startElection cfg).2.todo := by
      rw [htodo]
      exact List.mem_map_of_mem hi
    obtain ⟨k, hk, hgrant⟩ := wide_served (inv_step s .fsm s₁ hinv hs) helection rfl rfl (fun v hv => by
        rw [htodo] at hv
        obtain ⟨j, -, rfl⟩ := List.mem_map.1 hv
        exact ⟨j, rfl⟩) ⟨i, hvisit, by rw [hhci]; exact hpending⟩ hrun hnone
    rw [hhci] at hk
    exact ⟨k, hk, hgrants ▸ hgrant⟩
  · rw [hprio] at htodo
    have hvisit : Visit.bank b ∈ (s.hci.startElection cfg).2.todo := by
      rw [htodo]
      exact List.mem_map_of_mem (mem_range.2 hb)
    rw [hgrants]
    refine bank_served (hb.trans_le nbSlaves_le) helection hvisit (fun v hv => ?_) (BitVec.zero_and) ?_ hrun hnone
    · rw [htodo] at hv
      obtain ⟨j, -, rfl⟩ := List.mem_map.1 hv
      exact ⟨j, rfl⟩
    · rw [hhci]
      exact hmask

end Served

/-- **Bounded waiting**, in every run of requests, control writes and elections. A narrow request that is recorded is
among the next `2 * nbMasters` grants of its bank; while both sides compete and the configuration is not written, at
most `wideMaxStall` elections pass without a turn of the low side; in a turn only the low side is served, and it is; the
election after a turn is none. -/
theorem bounded_waiting (cfg : Config) (es : List Event) (s : System) (h : run (step cfg) (initial cfg) es = some s) :
    (∀ b id, (s.hci.banks b).pendingMask.getLsbD id = true → ∀ es' s', run (step cfg) s es' = some s' →
      2 * cfg.nbMasters ≤ (bankGrants cfg b s es').length → id ∈ (bankGrants cfg b s es').take (2 * cfg.nbMasters)) ∧
    (∀ es' s', run (step cfg) s es' = some s' → 0 < s.hci.wideMaxStall → AllSteps (step cfg) (Contended cfg) s es' →
      AllSteps (step cfg) (NoTurn cfg) s es' → (es'.count .fsm : Int) ≤ s.hci.wideMaxStall) ∧
    (∀ es' s', run (step cfg) s (.fsm :: es') = some s' → .fsm ∉ es' → s.hci.lowTurn cfg = true → s'.election = none →
      LowServed cfg s (.fsm :: es') ∧ s'.hci.lowTurn cfg = false) := by
  have hinv := inv_run h
  refine ⟨fun b id hid es' s' hrun hlen => ?_, fun es' s' hrun hK hcont hturn => ?_,
    fun es' s' hrun hnot hturn hnone => ?_⟩
  · exact granted_within hinv hid hrun (waitRank_lt (hinv.records.ok b) (hinv.pending_lt hid)) hlen
  · have hcounted : Counted s.hci.wideMaxStall 0 (stall s) := by
      rw [stall]
      cases s.election with
      | none => exact ⟨rfl, by push_cast; omega, Nat.zero_le _⟩
      | some e => exact ⟨rfl, by push_cast; omega, .inl rfl⟩
    have hle := turn_within hK hcounted hrun hcont hturn
    simpa using hle
  · obtain ⟨s₁, hs, hrest⟩ := run_cons.1 hrun
    exact ⟨turn_serves hinv hs hturn hrest hnot hnone, no_second_turn (afterTurn_fsm hs hturn) hrest hnot hnone⟩

/-- Two masters that ask one bank, and a wide one. -/
def threeRequests : List Event := [.input 0 ⟨0, 4, 0, false⟩, .input 1 ⟨8, 4, 0, true⟩, .wideInput 0 ⟨0, 8, 16, false⟩]

theorem bounded_waiting_threeRequests :
    ∃ s, run (step twoBanks) (initial twoBanks) threeRequests = some s ∧ (s.hci.banks 0).pendingMask = 3#64 ∧
      ∀ es' s', run (step twoBanks) s es' = some s' → 4 ≤ (bankGrants twoBanks 0 s es').length →
        1 ∈ (bankGrants twoBanks 0 s es').take 4 := by
  have h : (run (step twoBanks) (initial twoBanks) threeRequests).map (fun s => (s.hci.banks 0).pendingMask) =
      some 3#64 := by decide +kernel
  obtain ⟨s, hs, hmask⟩ := map_eq_some_iff.1 h
  exact ⟨s, hs, hmask, (bounded_waiting twoBanks threeRequests s hs).1 0 1 (by rw [hmask]; decide)⟩

end GvsocPulp.Hci
