import GvsocPulp.SpatzTcdmInterco.OneAccess

/-!
# Bounded waiting

In both modes an election of a bank that does not serve a request brings the pointer nearer to it.

- `rrTreePick_self`: the tree follows the pointer to a port with a request; `pick_turns`: one election;
- `bank_step`: what an event does to a bank; `waits_bounded`: whole runs.
-/

namespace GvsocPulp.SpatzTcdmInterco

open Lib Function List Option
open TcdmInterco (Mask Req BankState Election Event wideClaimMask)

variable {cfg : Config}

/-! ## One election -/

theorem rrTreeLoop_self {nb rrQ : Nat} {req : Mask nb} (h : req.test rrQ = true) : ∀ {bits lo : Nat}, 2 ^ bits ∣ lo →
    lo ≤ rrQ → rrQ < lo + 2 ^ bits → rrTreeLoop req rrQ bits lo = rrQ
  | 0, lo, _, hlo, hhi => by
    rw [rrTreeLoop]
    omega
  | bit + 1, _, ⟨c, rfl⟩, hlo, hhi => by
    have hhalf : 1 <<< bit = 2 ^ bit := by rw [Nat.shiftLeft_eq, one_mul]
    have hpos : 0 < 2 ^ bit := Nat.two_pow_pos bit
    rw [pow_succ] at hlo hhi ⊢
    rw [rrTreeLoop]
    simp only [hhalf]
    have hdvd : 2 ^ bit ∣ 2 ^ bit * 2 * c := ⟨2 * c, mul_assoc ..⟩
    rcases lt_or_ge rrQ (2 ^ bit * 2 * c + 2 ^ bit) with hlt | hge
    · -- the pointer is in the left half
      have hbit : rrQ.testBit bit = false := by
        have hdiv : rrQ / 2 ^ bit = 2 * c := Nat.div_eq_of_lt_le (by rwa [mul_comm, ← mul_assoc])
          (by rw [Nat.succ_mul, mul_comm, ← mul_assoc]; exact hlt)
        rw [Nat.testBit_eq_decide_div_mod_eq, hdiv, Nat.mul_mod_right]
        rfl
      rw [anyIn_iff.2 ⟨rrQ, hlo, hlt, h⟩, hbit, Bool.and_false]
      exact rrTreeLoop_self h hdvd hlo hlt
    · have hbit : rrQ.testBit bit = true := by
        have hdiv : rrQ / 2 ^ bit = 2 * c + 1 := Nat.div_eq_of_lt_le (by rwa [Nat.succ_mul, mul_comm, ← mul_assoc])
          (by rw [Nat.succ_mul, Nat.succ_mul, mul_comm, ← mul_assoc]; omega)
        rw [Nat.testBit_eq_decide_div_mod_eq, hdiv, Nat.mul_add_mod]
        rfl
      rw [show anyIn req (2 ^ bit * 2 * c + 2 ^ bit) (2 ^ bit * 2 * c + 2 * 2 ^ bit) = true from
        anyIn_iff.2 ⟨rrQ, hge, by omega, h⟩, hbit, Bool.and_self, Bool.or_true, if_pos rfl]
      exact rrTreeLoop_self h (Nat.dvd_add hdvd (Nat.dvd_refl _)) hge (by omega)

/-- **The port of the pointer is picked** if it has a request. -/
theorem rrTreePick_self {nb rrQ : Nat} {req : Mask nb} (h : req.test rrQ = true) : rrTreePick req rrQ = rrQ := by
  have hnb : nb ≤ 2 ^ log2Loop nb nb 0 := le_two_pow_log2Loop (by rw [zero_add]; exact Nat.lt_two_pow_self.le)
  have hlt := Mask.test_lt h
  exact rrTreeLoop_self h ⟨0, rfl⟩ (Nat.zero_le _) (by omega)

theorem pick_turns {bank : BankState cfg.toConfig} {winner : Fin cfg.nbMasters} {next id : Nat}
    (hnext : bank.rrNext < cfg.nbMasters)
    (hid : bank.pendingMask.test id = true) (hpick : pick bank = some (winner, next)) (hne : winner.1 ≠ id) :
    turnsTo cfg.nbMasters next id < turnsTo cfg.nbMasters bank.rrNext id := by
  have hlt := Mask.test_lt hid
  rw [pick] at hpick
  split at hpick
  case isFalse =>
    obtain ⟨w, hw, heq⟩ := map_eq_some_iff.1 hpick
    cases heq
    obtain ⟨-, hfirst⟩ := Mask.firstFrom_mem hnext hw
    have hneq : turnsTo cfg.nbMasters bank.rrNext winner.1 ≠ turnsTo cfg.nbMasters bank.rrNext id :=
      fun heq => hne (eq_of_turnsTo hnext winner.2 hlt heq)
    exact turnsTo_next hnext hlt winner.2 ((hfirst id hid).lt_of_ne hneq)
  case isTrue =>
    have hany := Mask.any_iff.2 ⟨id, hid⟩
    obtain ⟨first, hzero⟩ := ne_none_iff_exists'.1 (Mask.firstFrom_ne_none cfg.masters_pos hany)
    obtain ⟨after, hafter⟩ := ne_none_iff_exists'.1
      (Mask.firstFrom_ne_none (Nat.mod_lt (bank.rrNext + 1) cfg.masters_pos) hany)
    have hle := (Mask.firstFrom_mem cfg.masters_pos hzero).2 id hid
    have hle' := (Mask.firstFrom_mem (Nat.mod_lt _ cfg.masters_pos) hafter).2 id hid
    have hself : bank.rrNext ≠ id := by
      rintro rfl
      simp only [rrTreePick_self hid, dif_pos hlt] at hpick
      obtain ⟨_, -, heq⟩ := map_eq_some_iff.1 hpick
      cases heq
      exact hne rfl
    simp only [hafter, hzero, dif_pos (Mask.test_lt (rrTreePick_test bank.rrNext hany))] at hpick
    have hfirst := first.2
    have hafter := after.2
    have hlow : first.1 ≤ id := hle
    rw [mod_of_lt_two (by omega)] at hle'
    unfold turnsTo at hle' ⊢
    split at hpick
    all_goals
      cases hpick
      split at hle' <;> split at hle' <;> split at hle' <;> split <;> split <;> omega

/-! ## Whole runs -/

/-- An event; a master may issue a new request inside of the `retry()` of another one in all of an election. -/
def anyStep (s : System cfg) : Event cfg.toConfig → Option (System cfg)
  | .input id req =>
    if s.mastersRun ∧ s.book.held (.narrow id) = none then some (s.issue (.narrow id) req (s.ico.inputReq req id))
      else none
  | event => step s event

/-- The narrow master that is elected for a bank by the event, which leads to the state. -/
def electedBy (b : Nat) (s : System cfg) : Event cfg.toConfig → Option Nat
  | .visit => s.election.bind fun e =>
    match e.pc with
    | .bankRetry b' winner => if b' = b then some winner.1 else none
    | _ => none
  | _ => none

/-- The narrow masters that are elected for a bank in a run. -/
def elections (b : Nat) : System cfg → List (Event cfg.toConfig) → List Nat
  | _, [] => []
  | s, event :: es =>
    match anyStep s event with
    | some s' => (electedBy b s' event).toList ++ elections b s' es
    | none => []

variable {s s' : System cfg} {event : Event cfg.toConfig} {b id : Nat}

/-- The pointer of a bank is where it was, and no request is gone. -/
def SameTurn (bank bank' : BankState cfg.toConfig) : Prop :=
  bank'.rrNext = bank.rrNext ∧ ∀ j, bank.pendingMask.test j = true → bank'.pendingMask.test j = true

theorem SameTurn.of_eq {bank bank' : BankState cfg.toConfig} (h : bank' = bank) : SameTurn bank bank' := by
  subst h
  exact ⟨rfl, fun _ hj => hj⟩

theorem inputReq_bank (ico : Interco cfg) (req : Req) (id : Fin cfg.nbMasters) (b : Nat) :
    SameTurn (ico.banks b) ((ico.inputReq req id).2.1.banks b) := by
  rw [Interco.inputReq, Interco.lift, TcdmInterco.Interco.inputReq]
  split
  case isTrue => exact .of_eq rfl
  case isFalse =>
    show SameTurn _ (update ico.banks (TcdmInterco.decodeBank cfg.toConfig req.addr) _ b)
    rw [update_apply]
    split
    case isTrue heq =>
      subst heq
      exact ⟨rfl, fun j hj => by rw [Mask.test_set, hj, Bool.true_or]⟩
    case isFalse => exact .of_eq rfl

theorem wideInputReq_banks (ico : Interco cfg) (req : Req) (id : Fin cfg.nbWideMasters) :
    (ico.wideInputReq req id).2.1.banks = ico.banks := by
  have hclaim : (ico.claimNow req).banks = ico.banks :=
    (TcdmInterco.Records.banksBusyNow_fields
      { ico.toInterco with wideClaim := wideClaimMask cfg.toConfig req.addr req.size }).1
  rw [Interco.wideInputReq]
  split
  · rfl
  · split
    · dsimp only
      split
      · exact hclaim
      · exact hclaim
    · rfl

theorem visitWide_spec (ico : Interco cfg) (e : Election cfg.toConfig) (i : Fin cfg.nbWideMasters) :
    (ico.visitWide e i).1.banks = ico.banks ∧
      ((ico.visitWide e i).2.pc = .wide (i + 1) ∨ (ico.visitWide e i).2.pc = .wideRetry i) := by
  rw [Interco.visitWide]
  dsimp only
  split
  · exact ⟨rfl, .inl rfl⟩
  · split
    · exact ⟨rfl, .inl rfl⟩
    · exact ⟨rfl, .inr rfl⟩

theorem visitBank_spec (ico : Interco cfg) (e : Election cfg.toConfig) (b : Fin cfg.nbSlaves) :
    (ico.visitBank e b).1.banks = ico.banks ∧ (ico.visitBank e b).2.pc = .bank (b + 1) ∨
      (ico.banks b).pendingMask.any = true ∧ ∃ winner next, pick (ico.banks b) = some (winner, next) ∧
        (ico.visitBank e b).1.banks = update ico.banks b
          { pendingMask := (ico.banks b).pendingMask.reset winner, rrNext := next } ∧
        (ico.visitBank e b).2.pc = .bankRetry b winner := by
  rw [Interco.visitBank]
  split
  · exact .inl ⟨rfl, rfl⟩
  case isFalse hany =>
    split
    · exact .inl ⟨rfl, rfl⟩
    · split
      case h_1 winner next hpick => exact .inr ⟨by simpa using hany, winner, next, hpick, rfl, rfl⟩
      case h_2 => exact .inl ⟨rfl, rfl⟩

/-- **What an event does to a bank**: one election, or nothing but new requests. -/
theorem bank_step (hs : anyStep s event = some s') (b : Nat) :
    (s.ico.banks b).pendingMask.any = true ∧ (∃ winner next, pick (s.ico.banks b) = some (winner, next) ∧
        electedBy b s' event = some winner.1 ∧ s'.ico.banks b =
          { pendingMask := (s.ico.banks b).pendingMask.reset winner, rrNext := next }) ∨
      electedBy b s' event = none ∧ SameTurn (s.ico.banks b) (s'.ico.banks b) := by
  cases event with
  | input id req =>
    obtain ⟨-, rfl⟩ := Option.ite_some_none_eq_some.1 hs
    exact .inr ⟨rfl, inputReq_bank s.ico req id b⟩
  | wideInput id req =>
    obtain ⟨-, rfl⟩ := Option.ite_some_none_eq_some.1 hs
    exact .inr ⟨rfl, .of_eq (congrFun (wideInputReq_banks s.ico req id) b)⟩
  | fsm =>
    obtain ⟨-, rfl⟩ := Option.ite_some_none_eq_some.1 hs
    refine .inr ⟨rfl, .of_eq ?_⟩
    exact congrFun (TcdmInterco.Records.startElection_fields s.ico.toInterco).1 b
  | visit =>
    obtain ⟨e, -, hs⟩ := Option.bind_eq_some_iff.1 hs
    rw [System.visit] at hs
    split at hs
    case h_1 i _ =>
      split at hs
      case isTrue hi =>
        have hwide := visitWide_spec s.ico e ⟨i, hi⟩
        generalize s.ico.visitWide e ⟨i, hi⟩ = v at hs hwide
        obtain rfl := Option.some.inj hs
        refine .inr ⟨?_, .of_eq (congrFun hwide.1 b)⟩
        rcases hwide.2 with hpc | hpc <;> simp [electedBy, hpc]
      case isFalse =>
        cases hs
        exact .inr ⟨rfl, .of_eq rfl⟩
    case h_2 b' _ =>
      split at hs
      case isFalse =>
        cases hs
        refine .inr ⟨rfl, .of_eq ?_⟩
        simp only [TcdmInterco.Interco.endElection]
        split <;> rfl
      case isTrue hb =>
        rcases visitBank_spec s.ico e ⟨b', hb⟩ with ⟨hbanks, hpc⟩ | ⟨hany, winner, next, hpick, hbanks, hpc⟩
        · generalize s.ico.visitBank e ⟨b', hb⟩ = v at hs hbanks hpc
          obtain rfl := Option.some.inj hs
          exact .inr ⟨by simp [electedBy, hpc], .of_eq (congrFun hbanks b)⟩
        · generalize s.ico.visitBank e ⟨b', hb⟩ = v at hs hbanks hpc
          obtain rfl := Option.some.inj hs
          by_cases heq : b' = b
          · subst heq
            refine .inl ⟨hany, winner, next, hpick, by simp [electedBy, hpc], ?_⟩
            rw [hbanks, update_self]
          · refine .inr ⟨by simp [electedBy, hpc, if_neg heq], .of_eq ?_⟩
            rw [hbanks, update_of_ne (Ne.symm heq)]
    case h_3 => cases hs
  | reissue =>
    obtain ⟨port, -, hs⟩ := Option.bind_eq_some_iff.1 hs
    simp only [System.reissue, Option.bind_eq_bind, Option.bind_eq_some_iff] at hs
    obtain ⟨n, -, ⟨_, req⟩, -, hs⟩ := hs
    cases hs
    cases port with
    | narrow id => exact .inr ⟨rfl, inputReq_bank s.ico req id b⟩
    | wide id => exact .inr ⟨rfl, .of_eq (congrFun (wideInputReq_banks s.ico req id) b)⟩
  | retryReturn =>
    simp only [anyStep, step] at hs
    split at hs
    case h_2 => cases hs
    case h_1 e he hopened =>
      cases hs
      refine .inr ⟨rfl, .of_eq ?_⟩
      simp only [TcdmInterco.Interco.retryReturn]
      split <;> rfl
  | tick =>
    obtain ⟨-, rfl⟩ := Option.ite_some_none_eq_some.1 hs
    exact .inr ⟨rfl, .of_eq rfl⟩

theorem rrNext_lt (hnext : ∀ b, (s.ico.banks b).rrNext < cfg.nbMasters) (hs : anyStep s event = some s') (b : Nat) :
    (s'.ico.banks b).rrNext < cfg.nbMasters := by
  rcases bank_step hs b with ⟨hany, winner, next, hpick, -, hbank⟩ | ⟨-, hsame, -⟩
  · obtain ⟨winner', next', hpick', -, hlt⟩ := pick_spec hany (hnext b)
    cases hpick.symm.trans hpick'
    rw [hbank]
    exact hlt
  · exact hsame ▸ hnext b

/-- A pending request is among the next elections, as many as it has turns to wait. -/
theorem elected_within : ∀ {es : List (Event cfg.toConfig)} {s s' : System cfg} {m : Nat},
    (∀ b, (s.ico.banks b).rrNext < cfg.nbMasters) → (s.ico.banks b).pendingMask.test id = true →
      run anyStep s es = some s' →
    turnsTo cfg.nbMasters (s.ico.banks b).rrNext id < m → m ≤ (elections b s es).length → id ∈ (elections b s es).take m
  | [], _, _, _, _, _, _, hturns, hlen => by
    rw [elections, length_nil] at hlen
    omega
  | event :: es, s, s', m, hnext, hid, hrun, hturns, hlen => by
    obtain ⟨s₁, hs, hrun⟩ := run_cons.1 hrun
    have hnext₁ := rrNext_lt hnext hs
    simp only [elections, hs] at hlen ⊢
    rcases bank_step hs b with ⟨-, winner, next, hpick, helected, hbank⟩ | ⟨hnone, hsame, hkept⟩
    · obtain ⟨k, rfl⟩ : ∃ k, m = k + 1 := ⟨m - 1, by omega⟩
      rw [helected] at hlen ⊢
      simp only [toList_some, singleton_append, length_cons, take_succ_cons] at hlen ⊢
      by_cases hne : winner.1 = id
      · exact hne ▸ mem_cons_self
      · have hless := pick_turns (hnext b) hid hpick hne
        refine mem_cons_of_mem _ (elected_within hnext₁ ?_ hrun ?_ (by omega))
        · rw [hbank, Mask.test_reset, hid, Bool.true_and]
          exact decide_eq_true hne
        · rw [hbank]
          exact hless.trans_le (by omega)
    · rw [hnone] at hlen ⊢
      exact elected_within hnext₁ (hkept id hid) hrun (hsame ▸ hturns) hlen

/-- **Bounded waiting**, in both modes; and the tree picks a master with a request, that of the pointer if it has one.
-/
theorem waits_bounded (cfg : Config) :
    (∀ es₀ es s s' b id, run anyStep ({} : System cfg) es₀ = some s → (s.ico.banks b).pendingMask.test id = true →
      run anyStep s es = some s' → 2 * cfg.nbMasters ≤ (elections b s es).length →
        id ∈ (elections b s es).take (2 * cfg.nbMasters)) ∧
    ∀ (nb : Nat) (req : Mask nb) (rrQ : Nat), req.any = true → req.test (rrTreePick req rrQ) = true ∧
      rrTreePick req rrQ < nb ∧ (req.test rrQ = true → rrTreePick req rrQ = rrQ) := by
  refine ⟨fun es₀ es s s' b id hrun₀ hid hrun hlen => ?_, fun nb req rrQ hany => ?_⟩
  · have hnext := run_invariant (I := fun s : System cfg => ∀ b, (s.ico.banks b).rrNext < cfg.nbMasters)
      (fun _ _ _ h hs => rrNext_lt h hs) (fun _ => cfg.masters_pos) hrun₀
    have hlt := turnsTo_lt (hnext b) (Mask.test_lt hid)
    exact elected_within hnext hid hrun (by omega) hlen
  · have htest := rrTreePick_test rrQ hany
    exact ⟨htest, Mask.test_lt htest, rrTreePick_self⟩

/-- Both masters wait for bank 0, and again after each of their accesses. -/
def twoWaiting : List (Event fourBanks.toConfig) :=
  [.input ⟨0, by decide⟩ ⟨0, 4, none, none, false⟩, .input ⟨1, Nat.one_lt_two⟩ ⟨0, 4, none, none, false⟩]

def fourElections : List (Event fourBanks.toConfig) :=
  ((twoWaiting ++ twoWaiting).map fun again => [.fsm, .visit, .visit, .visit, .visit, .reissue, .retryReturn, .visit,
    .visit, .visit, .visit, .tick, again]).flatten

theorem waits_bounded_twoMasters :
    ∃ s s', run anyStep ({} : System fourBanks) twoWaiting = some s ∧ run anyStep s fourElections = some s' ∧
      elections 0 s fourElections = [0, 1, 0, 1] ∧ 1 ∈ (elections 0 s fourElections).take 4 := by
  have h : ((run anyStep ({} : System fourBanks) twoWaiting).bind fun s =>
    some ((s.ico.banks 0).pendingMask.test 1, (run anyStep s fourElections).isSome, elections 0 s fourElections)) =
      some (true, true, [0, 1, 0, 1]) := by decide +kernel
  obtain ⟨s, hs, heq⟩ := bind_eq_some_iff.1 h
  simp only [Option.some.injEq, Prod.mk.injEq] at heq
  obtain ⟨hid, hrun, helections⟩ := heq
  obtain ⟨s', hs'⟩ := isSome_iff_exists.1 hrun
  exact ⟨s, s', hs, hs', helections, (waits_bounded fourBanks).1 twoWaiting fourElections s s' 0 1 hs hid hs'
    (by rw [helections]; decide)⟩

end GvsocPulp.SpatzTcdmInterco
