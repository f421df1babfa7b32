import GvsocPulp.Hci.Arbitration

/-!
# Fairness among the narrow masters of the HCI

How many other requests the bank of a narrow request may serve before it.

- `pickNarrow_rank`: each grant of the bank brings a narrow request nearer to its own;
- `bank_step`: what a step does to a bank;
- `granted_within`: so in all runs.
-/

namespace GvsocPulp.Hci

open Lib Function List Option Crossbar

variable {cfg : Config}

variable {j : Nat} {bank' : BankState} {e : Election} {v : Visit}

/-! ## One bank -/

/-- How many grants of the bank may come before that of the master: in two groups, each of the grants of its group may
come after one of the other group. -/
def waitRank (cfg : Config) (bank : BankState) (id : Nat) : Nat :=
  if cfg.nbGroup0Masters = 0 then turnsTo cfg.nbMasters bank.rrNext id
  else
    let group := !cfg.group0Mask.getLsbD id
    2 * turnsTo cfg.nbMasters (bank.rrNextGroup group) id + if bank.group1Prio = group then 0 else 1

variable {bank : BankState}

theorem waitRank_lt {id : Nat} (hok : bank.Ok cfg) (hid : id < cfg.nbMasters) :
    waitRank cfg bank id < 2 * cfg.nbMasters := by
  rw [waitRank]
  split
  case isTrue =>
    have hlt := turnsTo_lt hok.1 hid
    omega
  case isFalse =>
    have hlt := turnsTo_lt (hok.2 (!cfg.group0Mask.getLsbD id)) hid
    dsimp only
    split <;> omega

def groupMask (cfg : Config) (bank : BankState) (group : Bool) : BitVec 64 :=
  if group then bank.pendingMask &&& ~~~cfg.group0Mask else bank.pendingMask &&& cfg.group0Mask

def pickGroup (cfg : Config) (bank : BankState) : Bool :=
  decide (groupMask cfg bank true ≠ 0#64) && (decide (groupMask cfg bank false = 0#64) || bank.group1Prio)

theorem pickNarrow_group (h : cfg.nbGroup0Masters ≠ 0) :
    let group := pickGroup cfg bank
    let winner := pickWinner (groupMask cfg bank group) (bank.rrNextGroup group) cfg.nbMasters
    pickNarrow cfg bank = (winner, { bank with
      rrNextGroup := update bank.rrNextGroup group ((winner + 1) % cfg.nbMasters)
      group1Prio := !bank.group1Prio
      pendingMask := bank.pendingMask &&& ~~~(1#64 <<< winner) }) := by
  rw [pickNarrow, if_neg h]
  rfl

theorem groupMask_pending {group : Bool} (h : (groupMask cfg bank group).getLsbD j = true) :
    bank.pendingMask.getLsbD j = true := by
  cases group <;> simp only [groupMask, if_true, Bool.false_eq_true, if_false, BitVec.getLsbD_and,
    Bool.and_eq_true] at h <;>
    exact h.1

theorem groupMask_own (cfg : Config) {id : Nat} (h : bank.pendingMask.getLsbD id = true) :
    (groupMask cfg bank (!cfg.group0Mask.getLsbD id)).getLsbD id = true := by
  cases hgroup : cfg.group0Mask.getLsbD id with
  | true => simp [groupMask, h, hgroup]
  | false =>
    show (bank.pendingMask &&& ~~~cfg.group0Mask).getLsbD id = true
    rw [getLsbD_andNot (BitVec.lt_of_getLsbD h), h, hgroup]
    rfl

/-- What is served instead of a pending position comes before it. -/
theorem pickWinner_turns {mask : BitVec 64} {rrNext id : Nat} (hrr : rrNext < cfg.nbMasters)
    (hid : mask.getLsbD id = true) (hlt : ∀ j, mask.getLsbD j = true → j < cfg.nbMasters)
    (hne : pickWinner mask rrNext cfg.nbMasters ≠ id) :
    turnsTo cfg.nbMasters ((pickWinner mask rrNext cfg.nbMasters + 1) % cfg.nbMasters) id <
      turnsTo cfg.nbMasters rrNext id := by
  have hmask : mask ≠ 0#64 := fun h0 => by
    rw [h0] at hid
    simp at hid
  obtain ⟨hwin, hfirst⟩ := pickWinner_first cfg.masters_le hrr hmask hlt
  have hle := hfirst id hid
  have hneq : turnsTo cfg.nbMasters rrNext (pickWinner mask rrNext cfg.nbMasters) ≠ turnsTo cfg.nbMasters rrNext id :=
    fun heq => hne (eq_of_turnsTo hrr (hlt _ hwin) (hlt _ hid) heq)
  exact turnsTo_next hrr (hlt _ hid) (hlt _ hwin) (by omega)

theorem pickNarrow_rank {id : Nat} (hok : bank.Ok cfg) (hid : bank.pendingMask.getLsbD id = true)
    (hlt : ∀ j, bank.pendingMask.getLsbD j = true → j < cfg.nbMasters) (hne : (pickNarrow cfg bank).1 ≠ id) :
    waitRank cfg (pickNarrow cfg bank).2 id < waitRank cfg bank id := by
  by_cases hflat : cfg.nbGroup0Masters = 0
  · rw [waitRank, waitRank, if_pos hflat, if_pos hflat]
    rw [pickNarrow, if_pos hflat] at hne ⊢
    exact pickWinner_turns hok.1 hid hlt hne
  · rw [waitRank, waitRank, if_neg hflat, if_neg hflat]
    rw [pickNarrow_group hflat] at hne ⊢
    dsimp only at hne ⊢
    by_cases hgroup : pickGroup cfg bank = !cfg.group0Mask.getLsbD id
    · -- the group of the master is served, and its pointer comes nearer
      rw [hgroup] at hne ⊢
      rw [update_self]
      have hturns := pickWinner_turns (hok.2 _) (groupMask_own cfg hid) (fun j hj => hlt j (groupMask_pending hj)) hne
      split <;> split <;> omega
    · -- the other group is served, which had the priority
      rw [update_of_ne (Ne.symm hgroup)]
      have hprio : bank.group1Prio = !(!cfg.group0Mask.getLsbD id) := by
        have hown := groupMask_own cfg hid
        rw [pickGroup] at hgroup
        cases hbit : cfg.group0Mask.getLsbD id with
        | true =>
          rw [hbit] at hgroup hown
          have hne0 : groupMask cfg bank false ≠ 0#64 := fun h0 => by
            rw [Bool.not_true, h0] at hown
            simp at hown
          simp only [hne0, decide_false, Bool.false_or, Bool.not_true, Bool.and_eq_false_iff, not_or] at hgroup
          simpa using hgroup.2
        | false =>
          rw [hbit] at hgroup hown
          have hne1 : groupMask cfg bank true ≠ 0#64 := fun h0 => by
            rw [Bool.not_false, h0] at hown
            simp at hown
          cases hp : bank.group1Prio with
          | false => rfl
          | true =>
            rw [hp] at hgroup
            simp [hne1] at hgroup
      rw [hprio]
      simp

/-! ## Grants -/

/-- What a visit of an election grants: the visit, and the port that is retried. -/
def grantAt (cfg : Config) (s : System) : Event → Option (Visit × Port)
  | .visit => do
    let e ← s.election
    let v ← e.todo.head?
    let s' ← step cfg s .visit
    let e' ← s'.election
    let port ← e'.retrying
    return (v, port)
  | _ => none

def grants (cfg : Config) : System → List Event → List (Visit × Port)
  | _, [] => []
  | s, event :: es =>
    match step cfg s event with
    | some s' => (grantAt cfg s event).toList ++ grants cfg s' es
    | none => []

def winnerAt (b : Nat) : Visit × Port → Option Nat
  | (.bank b', .narrow id) => if b' = b then some id else none
  | _ => none

/-- The narrow masters that a bank is granted to in a run. -/
def bankGrants (cfg : Config) (b : Nat) (s : System) (es : List Event) : List Nat :=
    (grants cfg s es).filterMap (winnerAt b)

/-- A bank has a request, and has not been given away in the election. -/
def Crossbar.pendingAt (hci : Crossbar) (b : Nat) (e : Election) : Bool :=
  decide ((hci.banks b).pendingMask ≠ 0#64) && decide (e.taken &&& 1#64 <<< b = 0#64)

/-- A wide port has a request, and its banks have not been given away. -/
def Crossbar.wideAt (hci : Crossbar) (id : Nat) (e : Election) : Bool :=
  (hci.wides id).pending && decide ((hci.wides id).bankMask &&& e.taken = 0#64)

section Step

variable {s s' : System} {event : Event} {b id : Nat}

/-- The round robin of a bank is where it was, and no request is gone. -/
structure SameTurn (bank bank' : BankState) : Prop where
  rrNext : bank'.rrNext = bank.rrNext
  rrNextGroup : bank'.rrNextGroup = bank.rrNextGroup
  group1Prio : bank'.group1Prio = bank.group1Prio
  pending : ∀ j, bank.pendingMask.getLsbD j = true → bank'.pendingMask.getLsbD j = true

theorem SameTurn.refl (bank : BankState) : SameTurn bank bank := ⟨rfl, rfl, rfl, fun _ h => h⟩

theorem SameTurn.of_eq (h : bank' = bank) : SameTurn bank bank' := h ▸ SameTurn.refl bank

theorem SameTurn.rank (h : SameTurn bank bank') : waitRank cfg bank' id = waitRank cfg bank id := by
  rw [waitRank, waitRank, h.rrNext, h.rrNextGroup, h.group1Prio]

theorem inputReq_banks (hci : Crossbar) (req : Req) (id b : Nat) :
    SameTurn (hci.banks b) ((hci.inputReq cfg req id).2.1.banks b) := by
  rw [inputReq]
  split
  case isTrue => exact .refl _
  case isFalse =>
    show SameTurn _ (update hci.banks (decodeBank cfg req.addr) _ b)
    rw [update_apply]
    split
    case isTrue heq =>
      subst heq
      exact ⟨rfl, rfl, rfl, fun j hj => by rw [BitVec.getLsbD_or, hj, Bool.true_or]⟩
    case isFalse => exact .refl _

theorem wideInputReq_banks {hci : Crossbar} {req : Req} {id : Nat} {answer : Answer}
    (h : hci.wideInputReq cfg req id = some answer) : answer.2.1.banks = hci.banks := by
  unfold wideInputReq at h
  dsimp only at h
  split at h
  · cases h
    rfl
  · obtain ⟨mask, -, rfl⟩ := map_eq_some_iff.1 h
    split <;> rfl

theorem grantAt_visit {todo : List Visit} (he : s.election = some e) (hretrying : e.retrying = none)
    (htodo : e.todo = v :: todo) :
    step cfg s .visit = some (s.visit cfg { e with todo := todo } v) ∧
      grantAt cfg s .visit = ((s.hci.visit cfg { e with todo := todo } v).2.retrying).map fun port => (v, port) := by
  have hstep : step cfg s .visit = some (s.visit cfg { e with todo := todo } v) := by
    simp only [step, he, hretrying, htodo]
  refine ⟨hstep, ?_⟩
  simp only [grantAt, he, htodo, head?_cons, bind_eq_bind, bind_some, hstep, System.visit]
  cases hr : (s.hci.visit cfg { e with todo := todo } v).2.retrying with
  | none => simp [hr]
  | some port => simp [hr]

theorem serveBank_eq (hci : Crossbar) (e : Election) (b : Nat) :
    hci.serveBank cfg e b =
      if hci.pendingAt b e then
        (hci.setBank b (pickNarrow cfg (hci.banks b)).2, { e with
          taken := e.taken ||| 1#64 <<< b
          retrying := some (.narrow (pickNarrow cfg (hci.banks b)).1) })
      else (hci, e) := by
  rw [serveBank, pendingAt]
  by_cases hmask : (hci.banks b).pendingMask = 0#64
  · simp [hmask]
  · by_cases htaken : e.taken &&& 1#64 <<< b = 0#64
    · simp [hmask, htaken]
    · simp [hmask, htaken]

theorem serveWide_eq (hci : Crossbar) (e : Election) (id : Nat) :
    hci.serveWide e id =
      if hci.wideAt id e then
        (hci.setWide id { hci.wides id with pending := false, elected := true },
          { e with taken := e.taken ||| (hci.wides id).bankMask, retrying := some (.wide id) })
      else (hci, e) := by
  rw [serveWide, wideAt]
  cases (hci.wides id).pending with
  | false => simp
  | true =>
    by_cases htaken : (hci.wides id).bankMask &&& e.taken = 0#64
    · simp [htaken]
    · simp [htaken]

theorem visit_banks (hne : v ≠ .bank b) : (s.hci.visit cfg e v).1.banks b = s.hci.banks b := by
  cases v with
  | bank b' =>
    have hb : b ≠ b' := fun h => hne (h ▸ rfl)
    rw [visit, serveBank_eq]
    split
    · exact update_of_ne hb _ _
    · rfl
  | wide i =>
    rw [visit, serveWide_eq]
    split <;> rfl

theorem visit_hci (s : System) (e : Election) (v : Visit) : (s.visit cfg e v).hci = (s.hci.visit cfg e v).1 := by
  simp only [System.visit]
  split <;> rfl

theorem visit_election (s : System) (e : Election) (v : Visit) :
    (s.visit cfg e v).election = some (s.hci.visit cfg e v).2 := by
  simp only [System.visit]
  split <;> rfl

/-- **What a step does to a bank**: its grant, or nothing but new requests. -/
theorem bank_step (hs : step cfg s event = some s') (b : Nat) :
    (grantAt cfg s event = some (.bank b, .narrow (pickNarrow cfg (s.hci.banks b)).1) ∧
        s'.hci.banks b = (pickNarrow cfg (s.hci.banks b)).2) ∨
      ((grantAt cfg s event).bind (winnerAt b) = none ∧ SameTurn (s.hci.banks b) (s'.hci.banks b)) := by
  cases event with
  | input id req =>
    obtain ⟨-, rfl⟩ := ite_some_none_eq_some.1 hs
    exact .inr ⟨rfl, inputReq_banks s.hci req id b⟩
  | wideInput id req =>
    obtain ⟨-, hs⟩ := ite_none_right_eq_some.1 hs
    obtain ⟨answer, hanswer, rfl⟩ := map_eq_some_iff.1 hs
    exact .inr ⟨rfl, .of_eq (congrFun (wideInputReq_banks hanswer) b)⟩
  | ctrl value =>
    cases hs
    exact .inr ⟨rfl, .refl _⟩
  | nextCycle =>
    obtain ⟨-, rfl⟩ := ite_some_none_eq_some.1 hs
    exact .inr ⟨rfl, .refl _⟩
  | fsm =>
    obtain ⟨-, rfl⟩ := ite_some_none_eq_some.1 hs
    exact .inr ⟨rfl, .refl _⟩
  | visit =>
    obtain ⟨e, v, todo, he, hretrying, htodo, rfl⟩ := visit_inv hs
    rw [(grantAt_visit he hretrying htodo).2, visit_hci]
    by_cases hv : v = .bank b
    · subst hv
      rw [visit, serveBank_eq]
      split
      case isTrue => exact .inl ⟨rfl, update_self b _ _⟩
      case isFalse =>
        rw [hretrying]
        exact .inr ⟨rfl, .refl _⟩
    · refine .inr ⟨?_, .of_eq (visit_banks hv)⟩
      cases (s.hci.visit cfg { e with todo := todo } v).2.retrying with
      | none => rfl
      | some port =>
        cases v with
        | bank b' =>
          have hne : b' ≠ b := fun h => hv (h ▸ rfl)
          cases port <;> simp [winnerAt, hne]
        | wide i => rfl
  | reissue =>
    refine .inr ⟨rfl, ?_⟩
    obtain ⟨port, -, -, req, answer, -, -, -, hanswer, rfl⟩ := reissue_inv hs
    cases port with
    | narrow id =>
      cases hanswer
      exact inputReq_banks s.hci req id b
    | wide id => exact .of_eq (congrFun (wideInputReq_banks hanswer) b)
  | retryReturn =>
    refine .inr ⟨rfl, ?_⟩
    obtain ⟨-, port, -, -, -, rfl⟩ := retryReturn_inv hs
    cases port <;> exact .refl _
  | endElection =>
    refine .inr ⟨rfl, ?_⟩
    obtain ⟨-, -, -, -, rfl⟩ := endElection_inv hs
    refine .of_eq ?_
    simp only [endElection]
    split <;> rfl
  | tick =>
    obtain ⟨-, rfl⟩ := ite_some_none_eq_some.1 hs
    exact .inr ⟨rfl, .refl _⟩

end Step

/-! ## A narrow request -/

section Narrow

variable {s : System} {b id : Nat}

theorem bankGrants_cons {s' : System} {event : Event} {es : List Event} (hs : step cfg s event = some s') :
    bankGrants cfg b s (event :: es) = ((grantAt cfg s event).bind (winnerAt b)).toList ++ bankGrants cfg b s' es := by
  rw [bankGrants, grants, hs, bankGrants, filterMap_append]
  congr 1
  cases grantAt cfg s event with
  | none => rfl
  | some g => cases h : winnerAt b g <;> simp [h]

theorem Inv.pending_lt (h : Inv cfg s) {b : Nat} (hj : (s.hci.banks b).pendingMask.getLsbD j = true) :
    j < cfg.nbMasters := by
  obtain ⟨-, req, hheld, -⟩ := (h.records.narrow b j).1 hj
  exact h.records.valid (.narrow j) (by rw [hheld]; exact some_ne_none req)

/-- **A pending narrow request is among the next grants of its bank**, as many as its rank lets be. -/
theorem granted_within : ∀ {es : List Event} {s s' : System} {m : Nat}, Inv cfg s →
    (s.hci.banks b).pendingMask.getLsbD id = true → run (step cfg) s es = some s' →
      waitRank cfg (s.hci.banks b) id < m → m ≤ (bankGrants cfg b s es).length → id ∈ (bankGrants cfg b s es).take m
  | [], s, s', m, _, _, _, hrank, hlen => by
    have hzero : (bankGrants cfg b s []).length = 0 := rfl
    omega
  | event :: es, s, s', m, hinv, hid, hrun, hrank, hlen => by
    obtain ⟨s₁, hs, hrun⟩ := run_cons.1 hrun
    rw [bankGrants_cons hs] at hlen ⊢
    have hinv₁ := inv_step s event s₁ hinv hs
    rcases bank_step hs b with ⟨hgrant, hbank⟩ | ⟨hnone, hsame⟩
    · have hwin : (grantAt cfg s event).bind (winnerAt b) = some (pickNarrow cfg (s.hci.banks b)).1 := by
        rw [hgrant]
        simp [winnerAt]
      rw [hwin] at hlen ⊢
      obtain ⟨k, rfl⟩ : ∃ k, m = k + 1 := ⟨m - 1, by omega⟩
      simp only [toList_some, singleton_append, length_cons, take_succ_cons] at hlen ⊢
      by_cases hne : (pickNarrow cfg (s.hci.banks b)).1 = id
      · rw [hne]
        exact mem_cons_self
      · -- another master is served
        have hmask : (s.hci.banks b).pendingMask ≠ 0#64 := fun h0 => by
          rw [h0] at hid
          simp at hid
        obtain ⟨hmem, hleft, -⟩ := pickNarrow_mem (hinv.records.ok b) hmask fun j => hinv.pending_lt
        have hless := pickNarrow_rank (hinv.records.ok b) hid (fun j => hinv.pending_lt) hne
        refine mem_cons_of_mem _ (granted_within hinv₁ ?_ hrun ?_ (by omega))
        · rw [hbank, hleft, getLsbD_andNot_bit (BitVec.lt_of_getLsbD hmem), hid]
          simp [hne]
        · rw [hbank]
          omega
    · rw [hnone] at hlen ⊢
      exact granted_within hinv₁ (hsame.pending id hid) hrun (by rw [hsame.rank]; exact hrank) hlen

end Narrow

end GvsocPulp.Hci
