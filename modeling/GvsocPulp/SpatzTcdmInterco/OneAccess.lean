import GvsocPulp.SpatzTcdmInterco.Interco
import GvsocPulp.TcdmInterco.OneAccess

/-!
# One access per bank, and one wide access, per cycle

What the fork shares with the MAGIA interconnect is proved there: `base` forgets `wide_used_cycle`, and the invariants
of the bookkeeping and of the banks are those of `base`. A wide access from inside the `retry()` of another port is
denied, so `banks_taken` keeps up with `banks_busy` (`Inv.taken`), and the election needs no condition.

- `rrTreePick_test`, `pick_spec`: the winner has a request, in both modes;
- `step_ok`: one event; `spatz_exact`: whole runs.
-/

namespace GvsocPulp.SpatzTcdmInterco

open Lib List Option
open TcdmInterco (Mask Req Access BankState WideState Port Pc Election Event forwardWide wideClaimMask
  chunks fullAccess)

variable {cfg : Config} {s s' : System cfg} {req : Req}

variable {port : Port cfg.toConfig} {i : Fin cfg.nbWideMasters}

/-! ## The winner of a bank -/

section RrTree

variable {nb : Nat} {req : Mask nb} {lo hi rrQ : Nat}

theorem anyIn_iff : anyIn req lo hi = true ↔ ∃ i, lo ≤ i ∧ i < hi ∧ req.test i = true := by
  rw [anyIn, List.any_eq_true]
  constructor
  · rintro ⟨i, -, h⟩
    simp only [Bool.and_eq_true, decide_eq_true_eq] at h
    exact ⟨i, h.1.1, h.1.2, h.2⟩
  · rintro ⟨i, hlo, hhi, htest⟩
    refine ⟨i, mem_range.2 (Mask.test_lt htest), ?_⟩
    simp only [Bool.and_eq_true, decide_eq_true_eq]
    exact ⟨⟨hlo, hhi⟩, htest⟩

theorem rrTreeLoop_test : ∀ {bits lo : Nat}, anyIn req lo (lo + 2 ^ bits) = true →
    req.test (rrTreeLoop req rrQ bits lo) = true
  | 0, lo, h => by
    obtain ⟨i, hlo, hhi, htest⟩ := anyIn_iff.1 h
    obtain rfl : i = lo := by omega
    exact htest
  | bit + 1, lo, h => by
    have hhalf : 1 <<< bit = 2 ^ bit := by rw [Nat.shiftLeft_eq, one_mul]
    rw [rrTreeLoop]
    simp only [hhalf]
    split
    case isFalse hturn =>
      refine rrTreeLoop_test ?_
      simp only [Bool.or_eq_true, Bool.not_eq_true', not_or, Bool.not_eq_false] at hturn
      exact hturn.1
    case isTrue hturn =>
      refine rrTreeLoop_test ?_
      rw [show lo + 2 ^ bit + 2 ^ bit = lo + 2 * 2 ^ bit by omega]
      rcases (Bool.or_eq_true_iff.1 hturn) with hleft | hright
      · obtain ⟨i, hlo, hhi, htest⟩ := anyIn_iff.1 h
        refine anyIn_iff.2 ⟨i, not_lt.1 fun hlt => ?_, by rw [pow_succ] at hhi; omega, htest⟩
        rw [anyIn_iff.2 ⟨i, hlo, hlt, htest⟩] at hleft
        cases hleft
      · exact (Bool.and_eq_true_iff.1 hright).1

theorem rrTreePick_test (rrQ : Nat) (h : req.any = true) : req.test (rrTreePick req rrQ) = true := by
  obtain ⟨i, hi⟩ := Mask.any_iff.1 h
  have hnb : nb ≤ 2 ^ log2Loop nb nb 0 := le_two_pow_log2Loop (by rw [zero_add]; exact Nat.lt_two_pow_self.le)
  refine rrTreeLoop_test (anyIn_iff.2 ⟨i, Nat.zero_le _, ?_, hi⟩)
  have hlt := Mask.test_lt hi
  omega

end RrTree

theorem pick_spec {bank : BankState cfg.toConfig} (hany : bank.pendingMask.any = true)
    (hnext : bank.rrNext < cfg.nbMasters) :
    ∃ winner next, pick bank = some (winner, next) ∧ bank.pendingMask.test winner.1 = true ∧ next < cfg.nbMasters := by
  have hfirst : ∀ start, start < cfg.nbMasters → ∃ next, bank.pendingMask.firstFrom start =
    some next := fun start hstart =>
    ne_none_iff_exists'.1 (Mask.firstFrom_ne_none hstart hany)
  rw [pick]
  split
  case isFalse =>
    obtain ⟨winner, hwinner⟩ := hfirst _ hnext
    rw [hwinner]
    exact ⟨winner, _, rfl, (Mask.firstFrom_mem hnext hwinner).1, Nat.mod_lt _ cfg.masters_pos⟩
  case isTrue =>
    have htest := rrTreePick_test bank.rrNext hany
    obtain ⟨first, hzero⟩ := hfirst 0 cfg.masters_pos
    obtain ⟨next, hafter⟩ := hfirst _ (Nat.mod_lt (bank.rrNext + 1) cfg.masters_pos)
    simp only [hafter, hzero, dif_pos (Mask.test_lt htest)]
    split
    · exact ⟨_, _, rfl, htest, first.2⟩
    · exact ⟨_, _, rfl, htest, next.2⟩

/-! ## The invariant -/

/-- The state of a MAGIA interconnect and its masters. -/
def System.base (s : System cfg) : TcdmInterco.System cfg.toConfig := ⟨s.ico.toInterco, s.election, s.book⟩

def Served : Pc cfg.toConfig → Nat → Prop
  | .bank b, j => j < b
  | .bankRetry b _, j => j ≤ b
  | _, _ => False

def isWide : Port cfg.toConfig → Bool
  | .wide _ => true
  | .narrow _ => false

/-- `busy` and `used` are what an election goes by: a busy bank is taken or behind, and the wide port is used while it
is retried. -/
structure Inv (s : System cfg) : Prop where
  base : TcdmInterco.Inv s.base
  own : TcdmInterco.Own s.base
  busy : ∀ e ∈ s.election, ∀ b, s.ico.banksBusy.test b = true → s.ico.banksTaken.test b = true ∨ Served e.pc b
  used : ∀ e ∈ s.election, ∀ i, e.pc = .wideRetry i → s.ico.wideUsedCycle = s.ico.cycle
  oneWide : (s.book.rounds isWide).Nodup
  usedNow : s.book.round ∈ s.book.rounds isWide → s.ico.wideUsedCycle = s.ico.cycle
  openWide : ∀ i, s.book.opened = some (.wide i) → s.book.round ∉ s.book.rounds isWide
  elected : ∀ p ∈ s.book.performed, (p.1, some p.2) ∈ s.book.retries ∨ ∃ i req,
    s.book.issued[p.2]? = some (.wide i, req)

namespace Inv

/-- An event that performs nothing, retries nobody and goes on with the election. -/
theorem frame (h : Inv s) (hbase : TcdmInterco.Inv s'.base) (hown : TcdmInterco.Own s'.base)
    (helection : ∀ e' ∈ s'.election, ∃ e ∈ s.election, (∀ b, Served e.pc b → Served e'.pc b) ∧
      ∀ i, e'.pc = .wideRetry i → e.pc = .wideRetry i)
    (hbusy : s'.election ≠ none → s'.ico.banksBusy = s.ico.banksBusy) (htaken : s'.ico.banksTaken = s.ico.banksTaken)
    (hused : s'.ico.wideUsedCycle = s.ico.wideUsedCycle) (hcycle : s'.ico.cycle = s.ico.cycle)
    (hrounds : s'.book.rounds isWide = s.book.rounds isWide) (hround : s'.book.round = s.book.round)
    (hopened : s'.book.opened = s.book.opened) (hperformed : s'.book.performed = s.book.performed)
    (hretries : s'.book.retries = s.book.retries)
    (hissued : ∀ (n : Nat) x, s.book.issued[n]? = some x → s'.book.issued[n]? = some x) : Inv s' where
  base := hbase
  own := hown
  busy e' he' b hb := by
    obtain ⟨e, he, hserved, -⟩ := helection e' he'
    rw [hbusy (by rw [he']; nofun)] at hb
    rw [htaken]
    exact (h.busy e he b hb).imp_right (hserved b)
  used e' he' i hpc := by
    obtain ⟨e, he, -, hretry⟩ := helection e' he'
    rw [hused, hcycle]
    exact h.used e he i (hretry i hpc)
  oneWide := hrounds ▸ h.oneWide
  usedNow hmem := by
    rw [hused, hcycle]
    rw [hrounds, hround] at hmem
    exact h.usedNow hmem
  openWide i hi := by
    rw [hrounds, hround]
    exact h.openWide i (hopened ▸ hi)
  elected p hp := by
    rw [hretries]
    rw [hperformed] at hp
    exact (h.elected p hp).imp_right fun ⟨i, req, hreq⟩ => ⟨i, req, hissued _ _ hreq⟩

theorem deny (h : Inv s) {ico : Interco cfg}
    (hbase : TcdmInterco.Inv (s.issue port req (.denied, ico, [])).base)
      (hown : TcdmInterco.Own (s.issue port req (.denied, ico, [])).base)
    (hbusy : s.election ≠ none → ico.banksBusy = s.ico.banksBusy) (htaken : ico.banksTaken = s.ico.banksTaken)
    (hused : ico.wideUsedCycle = s.ico.wideUsedCycle) (hcycle : ico.cycle = s.ico.cycle) :
    Inv (s.issue port req (.denied, ico, [])) := by
  refine h.frame hbase hown (fun e he => ⟨e, he, fun _ hs => hs, fun _ hpc => hpc⟩) hbusy htaken hused hcycle
    h.base.book.rounds_deny rfl rfl rfl rfl fun n x hx => ?_
  exact (getElem?_append_left (List.getElem?_eq_some_iff.1 hx).1).trans hx

end Inv

/-! ## Requests -/

theorem input_ok (h : Inv s) {id : Fin cfg.nbMasters} (hnone : s.book.held (.narrow id) = none)
    (hin : s.ico.inElection = false) (req : Req) : Inv (s.issue (.narrow id) req (s.ico.inputReq req id)) := by
  obtain ⟨hbase, hown⟩ := TcdmInterco.input_ok (s := s.base) h.base hnone hin req
  have hown := hown h.own
  have hdenied : s.ico.inputReq req id = (.denied, { s.ico with toInterco := (s.ico.toInterco.inputReq req id).2.1 },
    []) := by
    rw [Interco.inputReq, TcdmInterco.Interco.inputReq, hin]
    rfl
  have hsame : s.base.issue (.narrow id) req (s.base.ico.inputReq req id) =
      (s.issue (.narrow id) req (s.ico.inputReq req id)).base := rfl
  rw [hsame, hdenied] at hbase hown
  rw [hdenied]
  refine h.deny hbase hown (fun _ => ?_) ?_ rfl ?_ <;> rw [TcdmInterco.Interco.inputReq, hin] <;> rfl

variable {e : Election cfg.toConfig}

section

variable (h : Inv s)
include h

/-- While an election is open to the masters, the wide port is used or `in_election` is set. -/
theorem Inv.closed (hruns : s.mastersRun = true) (he : s.election = some e) :
    s.ico.wideUsedCycle = s.ico.cycle ∨ s.ico.inElection = true := by
  rw [System.mastersRun, he, all_some] at hruns
  cases hpc : e.pc with
  | wideRetry i => exact .inl (h.used e he i hpc)
  | bankRetry b winner =>
    right
    have hin := h.base.records.inElection
    change s.ico.inElection = s.election.any _ at hin
    rw [hin, he, any_some, hpc]
    rfl
  | wide i =>
    rw [hpc] at hruns
    cases hruns
  | bank b =>
    rw [hpc] at hruns
    cases hruns

/-- **A wide request that is not one more of the port being retried.** -/
theorem wideInput_ok {id : Fin cfg.nbWideMasters} (hnone : s.book.held (.wide id) = none) (hruns : s.mastersRun = true)
    (hother : s.ico.wideRetrying ≠ some id) (hfits : (chunks cfg.toConfig req.addr req.size).length ≤ cfg.nbSlaves) :
    Inv (s.issue (.wide id) req (s.ico.wideInputReq req id)) := by
  obtain ⟨-, -, -, -, -, hcycle, hbusyCycle, -⟩ := TcdmInterco.claimNow_fields s.ico.toInterco req
  -- in an election the mask is the one of this cycle
  have hbusy : s.election ≠ none → (s.ico.toInterco.claimNow req).banksBusy = s.ico.banksBusy := by
    intro hne
    have hnow : s.ico.banksBusyCycle = s.ico.cycle := h.base.records.busyNow hne
    rw [TcdmInterco.Interco.claimNow, TcdmInterco.Interco.banksBusyNow, if_neg (not_not.2 hnow)]
  have htaken : (s.ico.toInterco.claimNow req).banksTaken = s.ico.banksTaken := by
    rw [TcdmInterco.Interco.claimNow, TcdmInterco.Interco.banksBusyNow]
    split <;> rfl
  rw [Interco.wideInputReq, if_neg hother]
  split
  case isFalse =>
    refine h.deny ⟨h.base.book.deny hnone, h.base.records.denyWide h.base.book hnone⟩ ?_ (fun _ => rfl) rfl rfl rfl
    exact h.own.deny h.base hnone (fun _ hb => hb) fun _ _ => hfits
  case isTrue hin =>
    simp only
    split
    case isFalse =>
      obtain ⟨hbase, hown⟩ := TcdmInterco.deny_now (s := s.base) h.base hnone req
      exact h.deny hbase (hown h.own hfits) hbusy htaken rfl hcycle
    case isTrue hfree =>
      simp only [Bool.and_eq_true, Bool.not_eq_true', decide_eq_true_eq] at hfree
      obtain ⟨hfree, hunused⟩ := hfree
      have hunused : s.ico.wideUsedCycle ≠ s.ico.cycle := fun heq => hunused (heq.trans (congrArg Nat.cast hcycle.symm))
      have helection : s.election = none := by
        by_contra hne
        obtain ⟨e, he⟩ := ne_none_iff_exists'.1 hne
        rcases h.closed hruns he with hused | hset
        · exact hunused hused
        · rw [hset] at hin
          cases hin
      obtain ⟨hbase, hown⟩ := TcdmInterco.serve_now (s := s.base) h.base hnone hfree rfl
      have hround : s.book.round ∉ s.book.rounds isWide := fun hmem => hunused (h.usedNow hmem)
      have hrounds := h.base.book.rounds_direct (P := isWide) (.wide id) req (forwardWide cfg.toConfig req)
      refine ⟨hbase, hown h.own hfits, fun e he => ?_, fun e he => ?_, ?_, fun _ => rfl, fun i hi => ?_, fun p hp => ?_⟩
      · cases helection.symm.trans he
      · cases helection.symm.trans he
      · exact hrounds ▸ (concat_eq_append ▸ h.oneWide.concat hround)
      · have hopened := h.base.records.opened_of_none helection
        cases hopened.symm.trans hi
      · rcases mem_append.1 hp with hp | hp
        · refine (h.elected p hp).imp_right (Exists.imp fun _ => Exists.imp fun _ hreq => ?_)
          exact (getElem?_append_left (List.getElem?_eq_some_iff.1 hreq).1).trans hreq
        · obtain rfl := mem_singleton.1 hp
          exact .inr ⟨id, req, getElem?_concat_length ..⟩

/-! ## Elections -/

theorem Inv.used_of_opened (hopened : s.book.opened = some (.wide i)) :
    s.ico.wideUsedCycle = s.ico.cycle := by
  obtain ⟨e, he, hpc⟩ := h.base.records.opened _ hopened
  refine h.used e he i ?_
  cases hpc' : e.pc <;> rw [hpc'] at hpc <;> cases hpc
  rfl

theorem reissue_ok (hopened : s.book.opened = some port) (hs : s.reissue port = some s') :
    Inv s' := by
  simp only [System.reissue, bind_eq_bind, bind_eq_some_iff, Option.pure_def, Option.some.injEq] at hs
  obtain ⟨n, hn, ⟨port', req⟩, hreq, rfl⟩ := hs
  obtain ⟨req', hreq'⟩ := h.base.book.held port n hn
  cases hreq.symm.trans hreq'
  have hanswer : s.request port req = (.done, s.ico, fullAccess cfg.toConfig port req) := by
    have hbase := (h.base.records.request (n := n) hopened req).1
    cases port with
    | narrow i =>
      have heq : s.request (.narrow i) req = s.ico.lift (s.base.request (.narrow i) req) := rfl
      rw [heq, hbase]
      rfl
    | wide i =>
      obtain ⟨e, he, hpc⟩ := h.base.records.opened _ hopened
      have hretrying : s.ico.wideRetrying = some i := by
        have hw := h.base.records.wideRetrying
        change s.ico.wideRetrying = s.election.bind _ at hw
        rw [hw, show s.election = some e from he, bind_some, hpc]
        rfl
      rw [System.request, Interco.wideInputReq, if_pos hretrying]
      rfl
  rw [hanswer]
  have hserve : s.base.reissue port =
      some ({ s with book := s.book.close }.answered port n (.done, s.ico, fullAccess cfg.toConfig port req)).base := by
    simp only [TcdmInterco.System.reissue, bind_eq_bind]
    rw [show s.base.book.held port = some n from hn, bind_some,
      show s.base.book.issued[n]? = some (port, req) from hreq, bind_some,
      (h.base.records.request (n := n) hopened req).1]
    rfl
  obtain ⟨hbase, hown⟩ := TcdmInterco.reissue_ok h.base hopened hserve
  have hrounds : ({ s with book := s.book.close }.answered port n
    (.done, s.ico, fullAccess cfg.toConfig port req)).book.rounds isWide =
      s.book.rounds isWide ++ if isWide port then [s.book.round] else [] := Book.rounds_serve hreq _
  refine ⟨hbase, hown h.own, h.busy, h.used, ?_, fun hmem => ?_, fun _ hi => (by cases hi), fun p hp => ?_⟩
  · rw [hrounds]
    cases port with
    | narrow i =>
      rw [show isWide (Port.narrow i : Port cfg.toConfig) = false from rfl, if_neg Bool.false_ne_true, append_nil]
      exact h.oneWide
    | wide i => exact concat_eq_append ▸ h.oneWide.concat (h.openWide i hopened)
  · rw [hrounds] at hmem
    cases port with
    | narrow i =>
      rw [show isWide (Port.narrow i : Port cfg.toConfig) = false from rfl, if_neg Bool.false_ne_true,
        append_nil] at hmem
      exact h.usedNow hmem
    | wide i => exact h.used_of_opened hopened
  · rcases mem_append.1 hp with hp | hp
    · exact h.elected p hp
    · obtain rfl := mem_singleton.1 hp
      left
      have hretried := (h.base.book.awaited port hopened).2
      rwa [show s.base.book.held port = some n from hn] at hretried

section

variable (he : s.election = some e)
include he

theorem retryReturn_ok (hopened : s.book.opened = none) :
    Inv { s with ico := { s.ico with toInterco := (s.ico.toInterco.retryReturn e).1 }
                 election := some (s.ico.toInterco.retryReturn e).2 } := by
  obtain ⟨hbase, hown⟩ := TcdmInterco.retryReturn_ok (s := s.base) h.base he hopened
  have hsame : (s.ico.toInterco.retryReturn e).1.banksBusy = s.ico.banksBusy ∧
      (s.ico.toInterco.retryReturn e).1.banksTaken = s.ico.banksTaken ∧
      (s.ico.toInterco.retryReturn e).1.cycle = s.ico.cycle := by
    rw [TcdmInterco.Interco.retryReturn]
    split <;> exact ⟨rfl, rfl, rfl⟩
  refine h.frame hbase (hown h.own) (fun e' he' => ⟨e, he, ?_⟩) (fun _ => hsame.1) hsame.2.1 rfl hsame.2.2 rfl
    rfl rfl rfl rfl
    fun _ _ hx => hx
  cases he'
  rw [TcdmInterco.Interco.retryReturn]
  split
  case h_1 i hpc =>
    rw [hpc]
    exact ⟨fun _ hs => hs.elim, by simp⟩
  case h_2 b winner hpc =>
    rw [hpc]
    exact ⟨fun _ hs => Nat.lt_succ_of_le hs, by simp⟩
  case h_3 => exact ⟨fun _ hs => hs, fun _ hpc => hpc⟩

theorem visitWide_ok (hpc : e.pc = .wide i) (hs : s.visit e = some s') : Inv s' := by
  -- the loop goes on past this port
  have hpass : ∀ (any : Bool) claim, (e.anyRemaining = true → any = true) →
    ((s.ico.wides i).pending = true → any = true) →
      Inv { s with
        ico := { s.ico with wideClaim := claim }
        election := some { pc := .wide (i + 1), anyRemaining := any } } := by
    intro any claim hold hany
    obtain ⟨hbase, hown⟩ := TcdmInterco.pass_wide (s := s.base) h.base he hpc any hold (fun _ => hany) claim
    refine h.frame hbase (hown h.own) (fun e' he' => ⟨e, he, ?_⟩) (fun _ => rfl) rfl rfl rfl rfl rfl rfl rfl rfl
      fun _ _ hx => hx
    cases he'
    rw [hpc]
    exact ⟨fun _ hs => hs.elim, nofun⟩
  rw [System.visit, hpc] at hs
  simp only [i.2, dif_pos, Interco.visitWide] at hs
  by_cases hpending : (s.ico.wides i).pending = true
  case neg =>
    rw [if_pos (by simpa using hpending)] at hs
    simp only [reduceCtorEq, if_false, Option.some.injEq] at hs
    subst hs
    exact hpass e.anyRemaining s.ico.wideClaim (fun h => h) fun hp => absurd hp hpending
  case pos =>
    rw [if_neg (by simp [hpending])] at hs
    by_cases htaken : ((wideClaimMask cfg.toConfig (s.ico.wides i).pendingAddr (s.ico.wides i).pendingSize).intersects
        s.ico.banksTaken || decide (s.ico.wideUsedCycle = s.ico.cycle)) = true
    case pos =>
      rw [if_pos htaken] at hs
      simp only [reduceCtorEq, if_false, Option.some.injEq] at hs
      subst hs
      exact hpass true _ (fun _ => rfl) fun _ => rfl
    case neg =>
      rw [if_neg htaken] at hs
      simp only [if_true, Option.some.injEq] at hs
      subst hs
      simp only [Bool.or_eq_true, decide_eq_true_eq, not_or, Bool.not_eq_true] at htaken
      obtain ⟨hfree, hunused⟩ := htaken
      obtain ⟨hbase, hown⟩ := TcdmInterco.retry_wide (s := s.base) h.base he hpc hpending rfl
      have hbusy : (wideClaimMask cfg.toConfig (s.ico.wides i).pendingAddr (s.ico.wides i).pendingSize).intersects
          s.ico.banksBusy = false := by
        rw [Bool.eq_false_iff]
        intro hmeets
        obtain ⟨b, hclaim, hb⟩ := Mask.intersects_iff.1 hmeets
        rcases h.busy e he b hb with htaken | hserved
        · rw [Mask.intersects_iff.2 ⟨b, hclaim, htaken⟩] at hfree
          cases hfree
        · rw [hpc] at hserved
          exact hserved
      refine ⟨hbase, hown h.own hbusy, fun e' he' b hb => ?_, fun e' he' _ _ => rfl, h.oneWide, fun _ => rfl,
        fun _ _ hmem => ?_, fun p hp => ?_⟩
      · left
        change (s.ico.banksTaken.merge _).test b = true
        change (s.ico.banksBusy.merge _).test b = true at hb
        rw [Mask.test_merge, Bool.or_eq_true] at hb ⊢
        refine hb.imp_left fun hb => (h.busy e he b hb).resolve_right fun hserved => ?_
        rw [hpc] at hserved
        exact hserved
      · exact hunused (h.usedNow hmem)
      · exact (h.elected p hp).imp_left (mem_append_left _)

theorem visitBank_ok {b : Fin cfg.nbSlaves} (hpc : e.pc = .bank b) (hs : s.visit e = some s') : Inv s' := by
  have hpass : ∀ any : Bool, (e.anyRemaining = true → any = true) →
    ((s.ico.banks b).pendingMask.any = true → any = true) →
      Inv { s with election := some { pc := .bank (b + 1), anyRemaining := any } } := by
    intro any hold hany
    obtain ⟨hbase, hown⟩ := TcdmInterco.pass_bank (s := s.base) h.base he hpc any hold hany
    refine h.frame hbase (hown h.own) (fun e' he' => ⟨e, he, ?_⟩) (fun _ => rfl) rfl rfl rfl rfl rfl rfl rfl rfl
      fun _ _ hx => hx
    cases he'
    rw [hpc]
    exact ⟨fun _ hs => Nat.lt_succ_of_lt hs, nofun⟩
  rw [System.visit, hpc] at hs
  simp only [b.2, dif_pos, Interco.visitBank] at hs
  by_cases hany : (s.ico.banks b).pendingMask.any = true
  case neg =>
    rw [if_pos (by simpa using hany)] at hs
    simp only [Option.some.injEq] at hs
    subst hs
    exact hpass e.anyRemaining (fun h => h) fun h => absurd h hany
  case pos =>
    rw [if_neg (by simp [hany])] at hs
    by_cases htaken : s.ico.banksTaken.test b = true
    case pos =>
      rw [if_pos htaken] at hs
      simp only [Option.some.injEq] at hs
      subst hs
      exact hpass true (fun _ => rfl) fun _ => rfl
    case neg =>
      rw [if_neg htaken] at hs
      obtain ⟨winner, next, hpick, hwinner, hnext⟩ := pick_spec hany (h.base.records.rrNext b)
      simp only [hpick, Option.some.injEq] at hs
      subst hs
      obtain ⟨hbase, hown⟩ := TcdmInterco.retry_bank (s := s.base) h.base he hpc hwinner hnext rfl
      have hbusy : s.ico.banksBusy.test b = false := by
        rw [Bool.eq_false_iff]
        intro hb
        rcases h.busy e he b hb with hb | hserved
        · exact htaken hb
        · rw [hpc] at hserved
          exact lt_irrefl _ hserved
      refine ⟨hbase, hown h.own hbusy, fun e' he' b' hb' => ?_, fun e' he' i hpc' => ?_, h.oneWide, h.usedNow, nofun,
        fun p hp => ?_⟩
      · cases he'
        change (s.ico.banksBusy.set b).test b' = true at hb'
        rw [Mask.test_set, Bool.or_eq_true, decide_eq_true_eq] at hb'
        rcases hb' with hb' | hb'
        · refine (h.busy e he b' hb').imp_right fun hserved => ?_
          rw [hpc] at hserved
          exact hserved.le
        · exact .inr hb'.symm.le
      · cases he'
        cases hpc'
      · exact (h.elected p hp).imp_left (mem_append_left _)

theorem visit_ok (hs : s.visit e = some s') : Inv s' := by
  cases hpc : e.pc with
  | wide i =>
    by_cases hi : i < cfg.nbWideMasters
    · exact visitWide_ok h he (i := ⟨i, hi⟩) hpc hs
    · -- on to the banks
      rw [System.visit, hpc] at hs
      simp only [hi, dif_neg, not_false_eq_true, Option.some.injEq] at hs
      subst hs
      have hbase : s.base.visit e =
          some { s.base with ico := { s.base.ico with inElection := true }, election := some {
            e with pc := .bank 0 } } := by
        rw [TcdmInterco.System.visit, hpc]
        simp [hi]
      obtain ⟨hbase, hown⟩ := TcdmInterco.visit_ok h.base he hbase
      have hsep : TcdmInterco.Separate s.base .visit = true := by
        simp [TcdmInterco.Separate, show s.base.election = some e from he, hpc, hi]
      refine h.frame hbase (hown h.own hsep) (fun e' he' => ⟨e, he, ?_⟩) (fun _ => rfl) rfl rfl rfl rfl rfl rfl rfl rfl
        fun _ _ hx => hx
      cases he'
      rw [hpc]
      exact ⟨fun _ hs => hs.elim, by simp⟩
  | bank b =>
    by_cases hb : b < cfg.nbSlaves
    · exact visitBank_ok h he (b := ⟨b, hb⟩) hpc hs
    · rw [System.visit, hpc] at hs
      simp only [hb, dif_neg, not_false_eq_true, Option.some.injEq] at hs
      subst hs
      have hbase : s.base.visit e = some { s.base with ico := s.base.ico.endElection e, election := none } := by
        rw [TcdmInterco.System.visit, hpc]
        simp [hb]
      obtain ⟨hbase, hown⟩ := TcdmInterco.visit_ok h.base he hbase
      have hsep : TcdmInterco.Separate s.base .visit = true := by
        have hbusy : s.base.ico.banksBusy.test b = false := Bool.eq_false_iff.2 fun htest => hb (Mask.test_lt htest)
        simp [TcdmInterco.Separate, show s.base.election = some e from he, hpc, hbusy]
      have hsame : (s.ico.toInterco.endElection e).banksTaken = s.ico.banksTaken ∧
          (s.ico.toInterco.endElection e).cycle = s.ico.cycle := by
        rw [TcdmInterco.Interco.endElection]
        split <;> exact ⟨rfl, rfl⟩
      exact h.frame hbase (hown h.own hsep) (by rintro _ ⟨⟩) (fun hne => absurd rfl hne) hsame.1 rfl hsame.2 rfl
        rfl rfl rfl rfl
        fun _ _ hx => hx
  | wideRetry i =>
    rw [System.visit, hpc] at hs
    cases hs
  | bankRetry b winner =>
    rw [System.visit, hpc] at hs
    cases hs

end

theorem start_ok (hnone : s.election = none) :
    Inv { s with ico := { s.ico with toInterco := s.ico.toInterco.startElection }, election := some {
      pc := .wide 0 } } := by
  obtain ⟨hbase, hown⟩ := TcdmInterco.start_ok (s := s.base) h.base hnone
  have hcycle : s.ico.toInterco.startElection.cycle = s.ico.cycle :=
    (TcdmInterco.Records.startElection_fields s.ico.toInterco).2.2.2.2.2.1
  refine ⟨hbase, hown h.own, fun e he b hb => .inl hb, fun e he i hpc => ?_, h.oneWide, fun hmem => ?_,
    h.openWide, h.elected⟩
  · cases he
    cases hpc
  · exact (h.usedNow hmem).trans (congrArg Nat.cast hcycle.symm)

theorem tick_ok (hnone : s.election = none) (hfsm : s.ico.fsmEvent ≠ some s.ico.cycle) :
    Inv { s with ico := { s.ico with cycle := s.ico.cycle + 1 }, book := s.book.nextRound } := by
  obtain ⟨hbase, hown⟩ := TcdmInterco.tick_ok (s := s.base) h.base hnone hfsm
  have hopened := h.base.records.opened_of_none hnone
  refine ⟨hbase, hown h.own, fun e he => ?_, fun e he => ?_, h.oneWide, fun hmem => ?_, fun i hi => ?_, h.elected⟩
  · cases hnone.symm.trans he
  · cases hnone.symm.trans he
  · exact absurd (h.base.book.le_of_mem_rounds hmem) (Nat.not_succ_le_self _)
  · exact nomatch hopened.symm.trans hi

end

/-! ## Runs -/

/-- A wide port issues nothing more from inside its own `retry()`, and no wide access has more chunks than there are
banks. -/
def Separate (s : System cfg) : Event cfg.toConfig → Bool
  | .wideInput id req => s.ico.wideRetrying ≠ some id && (chunks cfg.toConfig req.addr req.size).length ≤ cfg.nbSlaves
  | _ => true

theorem step_ok (s : System cfg) (event : Event cfg.toConfig) (s' : System cfg) (h : Inv s)
    (hsep : Separate s event = true) (hs : step s event = some s') : Inv s' := by
  cases event with
  | input id req =>
    obtain ⟨hguard, rfl⟩ := ite_some_none_eq_some.1 hs
    exact input_ok h hguard.2.1 (by simpa using hguard.2.2) req
  | wideInput id req =>
    obtain ⟨hguard, rfl⟩ := ite_some_none_eq_some.1 hs
    rw [Separate, Bool.and_eq_true, decide_eq_true_eq, decide_eq_true_eq] at hsep
    exact wideInput_ok h hguard.2 hguard.1 hsep.1 hsep.2
  | fsm =>
    obtain ⟨hguard, rfl⟩ := ite_some_none_eq_some.1 hs
    exact start_ok h (isNone_iff_eq_none.1 hguard.1)
  | visit =>
    obtain ⟨e, he, hs⟩ := bind_eq_some_iff.1 hs
    exact visit_ok h he hs
  | reissue =>
    obtain ⟨port, hopened, hs⟩ := bind_eq_some_iff.1 hs
    exact reissue_ok h hopened hs
  | retryReturn =>
    simp only [step] at hs
    split at hs
    case h_2 => cases hs
    case h_1 e he hopened =>
      cases hs
      exact retryReturn_ok h he hopened
  | tick =>
    obtain ⟨hguard, rfl⟩ := ite_some_none_eq_some.1 hs
    exact tick_ok h (isNone_iff_eq_none.1 hguard.1) hguard.2

theorem inv_initial : Inv ({} : System cfg) where
  base := TcdmInterco.inv_initial
  own := TcdmInterco.own_initial
  busy := nofun
  used := nofun
  oneWide := nodup_nil
  usedNow := nofun
  openWide := nofun
  elected := nofun

/-- One access per bank and one wide access per cycle; a request that is performed is performed whole, in one cycle; a
denied one is recorded with an election scheduled until it is retried, once, and performed in the cycle of its retry;
nothing else is performed but wide requests on their arrival. -/
structure OneAccess (s : System cfg) : Prop where
  banks : TcdmInterco.OneAccess s.base
  oneWide : (s.book.rounds isWide).Nodup
  retriedOnce : (s.book.retries.map (·.2)).Nodup
  elected : ∀ p ∈ s.book.performed, (p.1, some p.2) ∈ s.book.retries ∨ ∃ i req,
    s.book.issued[p.2]? = some (.wide i, req)

/-- **One access per bank and one wide access per cycle**, in every run in which no wide port issues more from inside
its own `retry()`. -/
theorem spatz_exact (cfg : Config) (es : List (Event cfg.toConfig)) (s : System cfg)
    (hsep : AllSteps step (fun s event => Separate s event = true) {} es) (h : run step {} es = some s) :
      OneAccess s := by
  have hinv : Inv s := run_inv step_ok inv_initial hsep h
  exact ⟨hinv.base.oneAccess hinv.own, hinv.oneWide, hinv.base.book.retriedOnce, hinv.elected⟩

/-- Two narrow masters and two wide ones over four banks, with the tree. -/
def fourBanks : Config where
  nbMasters := 2
  slaveBits := 2
  interleavingWidth := 2
  nbWideMasters := 2
  masters_pos := Nat.two_pos
  shift_lt := TcdmInterco.fourBanks.shift_lt
  rrTree := true

/-- Two wide requests, for different banks; the second one waits for the port. The narrow one waits for its bank. -/
def twoWides : List (Event fourBanks.toConfig) :=
  [.wideInput ⟨0, by decide⟩ ⟨0, 8, none, none, false⟩, .wideInput ⟨1, by decide⟩ ⟨8, 8, none, none, false⟩,
    .input ⟨1, by decide⟩ ⟨0, 4, none, none, false⟩, .fsm, .visit, .visit, .visit, .visit, .visit, .visit, .visit,
      .visit, .tick,
    .fsm, .visit, .visit, .reissue, .wideInput ⟨0, by decide⟩ ⟨0, 8, none, none, false⟩, .retryReturn, .visit,
      .visit, .reissue]

theorem spatz_exact_twoWides :
    ∃ s, run step {} twoWides = some s ∧ s.book.performed = [(0, 0), (1, 1), (1, 2)] ∧ OneAccess s := by
  have h : (run step {} twoWides).map (·.book.performed) = some [(0, 0), (1, 1), (1, 2)] := by decide +kernel
  obtain ⟨s, hs, hp⟩ := map_eq_some_iff.1 h
  exact ⟨s, hs, hp, spatz_exact fourBanks twoWides s (by decide +kernel) hs⟩

/-- The port that is retried issues one more request. -/
def cascaded : List (Event fourBanks.toConfig) :=
  [.wideInput ⟨0, by decide⟩ ⟨0, 8, none, none, false⟩, .wideInput ⟨1, by decide⟩ ⟨8, 8, none, none, false⟩,
    .fsm, .visit, .visit, .visit, .visit, .visit, .visit, .visit, .visit, .tick,
    .fsm, .visit, .visit, .reissue, .wideInput ⟨1, by decide⟩ ⟨8, 8, none, none, false⟩]

/-- **Two wide accesses in one cycle**, to the same banks. -/
theorem wide_twice : ∃ s, run step ({} : System fourBanks) cascaded = some s ∧ ¬OneAccess s := by
  have h : (run step {} cascaded).map (fun s => s.book.rounds isWide) = some [0, 1, 1] := by decide +kernel
  obtain ⟨s, hs, hrounds⟩ := map_eq_some_iff.1 h
  refine ⟨s, hs, fun hone => ?_⟩
  have hnodup := hone.oneWide
  rw [hrounds] at hnodup
  revert hnodup
  decide

end GvsocPulp.SpatzTcdmInterco
