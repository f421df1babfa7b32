import GvsocPulp.TcdmInterco.Records

/-!
# One access per bank and cycle

The banks used in a cycle are in `banks_busy`; an election decides with `banks_taken`, which it copies at its start. A
wide request that is served on arrival from inside a `retry()` is in the first mask only, and a second request of the
port that is retried is in none.

- `inv_step`: bookkeeping and records, for every event;
- `own_step`: the banks stay exclusive where the event is `Separate`;
- `interco_exact`: whole runs; `bank_twice`: a bank that is accessed twice in a cycle.
-/

namespace GvsocPulp.TcdmInterco

open Lib Function List Option Mask Interco TcdmInterco.System

variable {cfg : Config} {s s' : System cfg} {port : Port cfg} {req : Req} {n : Nat} {ico : Interco cfg}
  {e : Election cfg}

variable {b : Nat} {i id : Fin cfg.nbWideMasters}

/-- The requests and their records go together in every state. -/
structure Inv (s : System cfg) : Prop where
  book : s.book.Ok (fullAccess cfg)
  records : Records s

/-- A bank that `banks_busy` has for this cycle. -/
def System.Busy (s : System cfg) (b : Nat) : Prop := s.ico.banksBusyCycle = s.ico.cycle ∧ s.ico.banksBusy.test b = true

/-- The banks that are accessed in this cycle are busy, and each is accessed once. -/
structure Own (s : System cfg) : Prop where
  exclusive : s.book.Exclusive (fullAccess cfg) (·.bank) s.Busy
  fits : ∀ i req, s.book.heldReq (.wide i) = some req → (chunks cfg req.addr req.size).length ≤ cfg.nbSlaves

/-- The event keeps the banks apart: a wide port issues nothing more from inside its own `retry()`, no wide access has
more chunks than there are banks, and the election picks no bank that is busy without being taken. -/
def Separate (s : System cfg) : Event cfg → Bool
  | .wideInput id req => s.ico.wideRetrying ≠ some id && (chunks cfg req.addr req.size).length ≤ cfg.nbSlaves
  | .visit => s.election.all fun e =>
    match e.pc with
    | .wide i =>
      if hi : i < cfg.nbWideMasters then
        let w := s.ico.wides ⟨i, hi⟩
        let claim := wideClaimMask cfg w.pendingAddr w.pendingSize
        !w.pending || claim.intersects s.ico.banksTaken || !claim.intersects s.ico.banksBusy
      else true
    | .bank b => !(s.ico.banks b).pendingMask.any || s.ico.banksTaken.test b || !s.ico.banksBusy.test b
    | _ => true
  | _ => true

theorem inv_initial : Inv ({} : System cfg) where
  book :=
    { held := nofun, left := nofun, nodup := nodup_nil, bounds := nofun, awaited := nofun, retried := nofun
      retriedOnce := nodup_nil, accesses := rfl }
  records :=
    { rrNext := fun _ => cfg.masters_pos
      narrow := fun b i => iff_of_false (by simp) fun ⟨_, _, h, _⟩ => nomatch h
      wide := fun i => iff_of_false nofun fun h => h.2 rfl
      intent := nofun
      opened := nofun
      wideRetrying := rfl
      inElection := rfl
      round := rfl
      busyCycle := by change (-1 : Int) ≤ 0; decide
      busyNow := fun h => absurd rfl h
      wideNoted := nofun
      bankNoted := fun b h => by
        obtain ⟨j, hj⟩ := any_iff.1 h
        simp at hj
      fsmEvent := nofun }

theorem own_initial : Own ({} : System cfg) where
  exclusive := { once := fun _ => nodup_nil, accessed := nofun, reserved := nofun }
  fits := nofun

/-! ## Requests -/

theorem Own.deny (h : Own s) (hinv : Inv s) (hnone : s.book.held port = none) {ico : Interco cfg}
    (hbusy : ∀ b, s.Busy b → ({ s with ico := ico } : System cfg).Busy b)
    (hfits : ∀ i, port = .wide i → (chunks cfg req.addr req.size).length ≤ cfg.nbSlaves) :
    Own (s.issue port req (.denied, ico, [])) where
  exclusive := (h.exclusive.deny hinv.book hnone).mono hbusy
  fits i req' hreq' := by
    rw [show (s.issue port req (.denied, ico, [])).book.heldReq = _ from hinv.book.heldReq_deny, update_apply] at hreq'
    split at hreq'
    case isTrue heq =>
      cases hreq'
      exact hfits i heq.symm
    case isFalse => exact h.fits i req' hreq'

def Interco.claimNow (ico : Interco cfg) (req : Req) : Interco cfg :=
  { ico with wideClaim := wideClaimMask cfg req.addr req.size }.banksBusyNow

theorem claimNow_fields (ico : Interco cfg) (req : Req) : (ico.claimNow req).banks = ico.banks ∧
    (ico.claimNow req).wides = ico.wides ∧ (ico.claimNow req).wideRetrying = ico.wideRetrying ∧
    (ico.claimNow req).inElection = ico.inElection ∧ (ico.claimNow req).fsmEvent = ico.fsmEvent ∧
    (ico.claimNow req).cycle = ico.cycle ∧ (ico.claimNow req).banksBusyCycle = ico.cycle ∧
    (ico.claimNow req).wideClaim = wideClaimMask cfg req.addr req.size :=
  Records.banksBusyNow_fields { ico with wideClaim := wideClaimMask cfg req.addr req.size }

theorem busy_claimNow : ({ s with ico := s.ico.claimNow req } : System cfg).Busy b ↔ s.Busy b := by
  rw [System.Busy, System.Busy, claimNow, banksBusyNow]
  split
  case isTrue hne => exact iff_of_false (fun hb => by simp at hb) fun hb => hne hb.1
  case isFalse => rfl

section

variable (h : Inv s)
include h

section

variable (hnone : s.book.held (.wide id) = none)
include hnone

theorem serve_now (hfree : (s.ico.claimNow req).wideClaim.intersects (s.ico.claimNow req).banksBusy = false)
    (hico : ico = { s.ico.claimNow req with banksBusy := (s.ico.claimNow req).banksBusy.merge (s.ico.claimNow
      req).wideClaim }) :
    Inv (s.issue (.wide id) req (.done, ico, forwardWide cfg req)) ∧
      (Own s → (chunks cfg req.addr req.size).length ≤ cfg.nbSlaves →
        Own (s.issue (.wide id) req (.done, ico, forwardWide cfg req))) := by
  obtain ⟨hbanks, hwides, hretrying, hin, hfsm, hcycle, hbusy, hclaim⟩ :=
    claimNow_fields s.ico req
  have hnow : ∀ b, ({ s with ico := s.ico.claimNow req } : System cfg).Busy b ↔ s.Busy b := fun b => busy_claimNow
  subst hico
  generalize s.ico.claimNow req = ico at *
  refine ⟨⟨h.book.direct hnone, h.records.direct h.book hnone hbanks hwides hretrying hin hfsm hcycle (.inr hbusy)⟩,
    fun how hfits => ⟨?_, fun i req' hreq' => ?_⟩⟩
  · refine how.exclusive.direct h.book hnone ((forwardWide_nodup req).2 hfits) (fun b hb hused => ?_) fun b hb => ?_
    · have hmeets : ico.wideClaim.intersects ico.banksBusy = true :=
        intersects_iff.2 ⟨b, by rw [hclaim]; exact test_wideClaimMask.2 hb, ((hnow b).2 hused).2⟩
      rw [hmeets] at hfree
      cases hfree
    · refine ⟨hbusy.trans (congrArg Nat.cast hcycle.symm), ?_⟩
      change (ico.banksBusy.merge ico.wideClaim).test b = true
      rw [test_merge, Bool.or_eq_true]
      exact hb.imp (fun hused => ((hnow b).2 hused).2) fun hb => by rw [hclaim]; exact test_wideClaimMask.2 hb
  · rw [show (s.issue (.wide id) req (.done, _, forwardWide cfg req)).book.heldReq = _ from h.book.heldReq_direct,
      update_apply] at hreq'
    split at hreq'
    case isTrue => cases hreq'
    case isFalse => exact how.fits i req' hreq'

theorem deny_now (req : Req) :
    Inv (s.issue (.wide id) req ((s.ico.claimNow req).denyWide req id)) ∧
      (Own s → (chunks cfg req.addr req.size).length ≤ cfg.nbSlaves →
        Own (s.issue (.wide id) req ((s.ico.claimNow req).denyWide req id))) := by
  obtain ⟨hbanks, hwides, hretrying, hin, hfsm, hcycle, hbusy, -⟩ :=
    claimNow_fields s.ico req
  have hframe : Records { s with ico := s.ico.claimNow req } :=
    h.records.frame rfl rfl rfl rfl hbanks hwides hretrying hin hfsm hcycle (.inr hbusy)
  exact ⟨⟨h.book.deny hnone, hframe.denyWide h.book hnone⟩, fun how hfits =>
    how.deny h hnone (fun b hb => busy_claimNow.2 hb) fun _ _ => hfits⟩

theorem wideInput_cases :
    Inv (s.issue (.wide id) req (s.ico.wideInputReq req id)) ∧
      (Own s → Separate s (.wideInput id req) = true → Own (s.issue (.wide id) req (s.ico.wideInputReq req id))) := by
  rw [wideInputReq]
  split
  case isTrue heq =>
    refine ⟨⟨h.book.direct hnone, h.records.direct h.book hnone rfl rfl rfl rfl rfl rfl (.inl rfl)⟩, fun _ hsep => ?_⟩
    rw [Separate, heq] at hsep
    simp at hsep
  case isFalse =>
    have hfits : Separate s (.wideInput id req) = true → (chunks cfg req.addr req.size).length ≤ cfg.nbSlaves := by
      intro hsep
      rw [Separate, Bool.and_eq_true, decide_eq_true_eq, decide_eq_true_eq] at hsep
      exact hsep.2
    split
    case isFalse =>
      exact ⟨⟨h.book.deny hnone, h.records.denyWide h.book hnone⟩, fun how hsep =>
        how.deny h hnone (fun _ hb => hb) fun _ _ => hfits hsep⟩
    case isTrue =>
      simp only
      split
      case isTrue hfree =>
        obtain ⟨hinv, how⟩ := serve_now h hnone (by simpa [claimNow] using hfree) rfl
        exact ⟨hinv, fun ho hsep => how ho (hfits hsep)⟩
      case isFalse =>
        obtain ⟨hinv, how⟩ := deny_now h hnone req
        exact ⟨hinv, fun ho hsep => how ho (hfits hsep)⟩

end

theorem input_ok {id : Fin cfg.nbMasters} (hnone : s.book.held (.narrow id) = none) (hin : s.ico.inElection = false)
    (req : Req) :
    Inv (s.issue (.narrow id) req (s.ico.inputReq req id)) ∧
      (Own s → Own (s.issue (.narrow id) req (s.ico.inputReq req id))) := by
  rw [inputReq, hin, if_neg (by decide)]
  exact ⟨⟨h.book.deny hnone, h.records.denyNarrow h.book hnone rfl⟩,
    fun how => how.deny h hnone (fun _ hb => hb) (by simp)⟩

/-! ## Elections -/

theorem start_ok (hnone : s.election = none) :
    Inv { s with ico := s.ico.startElection, election := some { pc := .wide 0 } } ∧
      (Own s → Own { s with ico := s.ico.startElection, election := some { pc := .wide 0 } }) := by
  refine ⟨⟨h.book, h.records.start hnone⟩, fun how => ⟨how.exclusive.mono fun b hb => ?_, how.fits⟩⟩
  have hsame : { s.ico with fsmEvent := none }.banksBusyNow = { s.ico with fsmEvent := none } := by
    rw [banksBusyNow, if_neg (not_not.2 hb.1)]
  rw [System.Busy, startElection, hsame]
  exact hb

theorem tick_ok (hnone : s.election = none) (hfsm : s.ico.fsmEvent ≠ some s.ico.cycle) :
    Inv { s with ico := { s.ico with cycle := s.ico.cycle + 1 }, book := s.book.nextRound } ∧
      (Own s → Own { s with ico := { s.ico with cycle := s.ico.cycle + 1 }, book := s.book.nextRound }) := by
  have hopened := h.records.opened_of_none hnone
  exact ⟨⟨h.book.nextRound hopened, h.records.tick hnone hfsm⟩, fun how =>
    ⟨how.exclusive.nextRound h.book hopened, how.fits⟩⟩

theorem reissue_ok (hopened : s.book.opened = some port) (hs : s.reissue port = some s') :
    Inv s' ∧ (Own s → Own s') := by
  simp only [System.reissue, bind_eq_bind, bind_eq_some_iff, Option.pure_def, Option.some.injEq] at hs
  obtain ⟨n, hn, ⟨port', req⟩, hreq, rfl⟩ := hs
  obtain ⟨req', hreq'⟩ := h.book.held port n hn
  cases hreq.symm.trans hreq'
  obtain ⟨hanswer, hrecords⟩ := h.records.request (n := n) hopened req
  rw [hanswer]
  refine ⟨⟨h.book.serve hopened hn hreq, hrecords⟩,
    fun how => ⟨how.exclusive.serve hopened hn hreq, fun i req' hreq' => ?_⟩⟩
  have hheld : ({ s with book := s.book.close }.answered port n (.done, s.ico, fullAccess cfg port req)).book.heldReq =
    update s.book.heldReq port none := Book.heldReq_done
  rw [hheld, update_apply] at hreq'
  split at hreq'
  case isTrue => cases hreq'
  case isFalse => exact how.fits i req' hreq'

variable (he : s.election = some e)
include he

theorem retryReturn_ok (hopened : s.book.opened = none) :
    Inv { s with ico := (s.ico.retryReturn e).1, election := some (s.ico.retryReturn e).2 } ∧
      (Own s → Own { s with ico := (s.ico.retryReturn e).1, election := some (s.ico.retryReturn e).2 }) := by
  have hbusy : ∀ b, s.Busy b → ({ s with ico := (s.ico.retryReturn e).1 } : System cfg).Busy b := by
    intro b hb
    rw [System.Busy, retryReturn]
    split <;> exact hb
  refine ⟨⟨h.book, ?_⟩, fun how => ⟨how.exclusive.mono hbusy, how.fits⟩⟩
  have hretrying := h.records.wideRetrying
  have hin := h.records.inElection
  rw [he] at hretrying hin
  rw [retryReturn]
  split
  case h_1 i hpc =>
    rw [any_some, hpc] at hin
    refine h.records.goOn he hopened rfl rfl rfl hin rfl rfl rfl rfl (fun hany => hany) (fun j hp hpast => ?_)
      fun _ _ hpast => hpast.elim
    left
    rw [hpc]
    exact Nat.le_of_lt_succ hpast
  case h_2 b winner hpc =>
    rw [any_some, hpc] at hin
    rw [bind_some, hpc] at hretrying
    refine h.records.goOn he hopened rfl rfl hretrying hin rfl rfl rfl rfl (fun hany => ?_) (fun j hp hpast => ?_)
      fun b' hany hpast => ?_
    · exact Bool.or_eq_true_iff.2 (.inl hany)
    · left
      rw [hpc]
      trivial
    · rcases Nat.lt_succ_iff_lt_or_eq.1 hpast with hlt | rfl
      · left
        rw [hpc]
        exact hlt
      · exact .inr (Bool.or_eq_true_iff.2 (.inr hany))
  case h_3 hwide hbank =>
    -- no `retry()` runs
    have hnone : e.pc.retrying = none := by
      cases hpc : e.pc with
      | wideRetry i => exact absurd hpc (hwide i)
      | bankRetry b winner => exact absurd hpc (hbank b winner)
      | _ => rfl
    rw [bind_some, hnone] at hretrying
    exact h.records.goOn he hopened rfl rfl hretrying hin rfl rfl rfl hnone (fun hany => hany) (fun _ _ => .inl)
      fun _ _ => .inl

/-- The loop over the wide inputs leaves a port, which is noted if it is pending. -/
theorem pass_wide {i : Nat} (hpc : e.pc = .wide i) (any : Bool) (hold : e.anyRemaining = true → any = true)
    (hany : ∀ hi : i < cfg.nbWideMasters, (s.ico.wides ⟨i, hi⟩).pending = true → any = true)
      (claim : Mask cfg.nbSlaves) :
    Inv { s with
        ico := { s.ico with wideClaim := claim }
        election := some { pc := .wide (i + 1), anyRemaining := any } } ∧
      (Own s → Own { s with
        ico := { s.ico with wideClaim := claim }
        election := some { pc := .wide (i + 1), anyRemaining := any } }) := by
  obtain ⟨hopened, hretrying, hin⟩ := h.records.not_retrying he (by rw [hpc]; rfl)
  rw [hpc] at hin
  refine ⟨⟨h.book, h.records.goOn he hopened rfl rfl hretrying hin rfl rfl rfl rfl hold
    (fun j hp hpast => ?_) fun _ _ hpast => hpast.elim⟩, fun how => ⟨how.exclusive, how.fits⟩⟩
  rw [hpc]
  rcases Nat.lt_succ_iff_lt_or_eq.1 hpast with hlt | rfl
  · exact .inl hlt
  · exact .inr (hany j.2 hp)

theorem retry_wide (hpc : e.pc = .wide i) (hpending : (s.ico.wides i).pending = true) (hico : ico = { s.ico with
      wideClaim := wideClaimMask cfg (s.ico.wides i).pendingAddr (s.ico.wides i).pendingSize
      banksTaken := s.ico.banksTaken.merge (wideClaimMask cfg (s.ico.wides i).pendingAddr (s.ico.wides i).pendingSize)
      banksBusy := s.ico.banksBusy.merge (wideClaimMask cfg (s.ico.wides i).pendingAddr (s.ico.wides i).pendingSize)
      wideRetrying := some i
      wides := update s.ico.wides i { s.ico.wides i with pending := false } }) :
    Inv { ico := ico, election := some { e with pc := .wideRetry i }, book := s.book.retry (.wide i) } ∧
      (Own s → (wideClaimMask cfg (s.ico.wides i).pendingAddr (s.ico.wides i).pendingSize).intersects s.ico.banksBusy =
        false →
        Own { ico := ico, election := some { e with pc := .wideRetry i }, book := s.book.retry (.wide i) }) := by
  subst hico
  have hopened := (h.records.not_retrying he (by rw [hpc]; rfl)).1
  obtain ⟨-, hne⟩ := (h.records.wide i).1 hpending
  obtain ⟨req, hheldReq⟩ := ne_none_iff_exists'.1 hne
  obtain ⟨n, hheld, hreq⟩ := h.book.of_heldReq hheldReq
  refine ⟨⟨h.book.retry hopened hheld, h.records.pickWide he hpc hpending rfl rfl rfl rfl rfl rfl rfl⟩,
    fun how hfree => ⟨?_, how.fits⟩⟩
  obtain ⟨haddr, hsize⟩ := h.records.intent i req hheldReq
  rw [haddr, hsize] at hfree
  refine how.exclusive.retry hheld hreq ((forwardWide_nodup req).2 (how.fits i req hheldReq)) (fun b hb hused => ?_)
    fun b hb => ?_
  · rw [intersects_iff.2 ⟨b, test_wideClaimMask.2 hb, hused.2⟩] at hfree
    cases hfree
  · refine ⟨h.records.busyNow (by rw [he]; nofun), ?_⟩
    change (s.ico.banksBusy.merge (wideClaimMask cfg (s.ico.wides i).pendingAddr (s.ico.wides i).pendingSize)).test b =
      true
    rw [haddr, hsize, test_merge, Bool.or_eq_true]
    exact hb.imp (fun hused => hused.2) test_wideClaimMask.2

theorem visitWide_ok (hpc : e.pc = .wide i) {s' : System cfg}
    (hs : s.visit e = some s') : Inv s' ∧ (Own s → Separate s .visit = true → Own s') := by
  rw [visit, hpc] at hs
  simp only [i.2, dif_pos, visitWide] at hs
  by_cases hpending : (s.ico.wides i).pending = true
  case neg =>
    rw [if_pos (by simpa using hpending)] at hs
    simp only [reduceCtorEq, if_false, some.injEq] at hs
    subst hs
    obtain ⟨hinv, how⟩ :=
      pass_wide h he hpc e.anyRemaining (fun h => h) (fun _ hp => absurd hp hpending) s.ico.wideClaim
    exact ⟨hinv, fun h _ => how h⟩
  case pos =>
    rw [if_neg (by simp [hpending])] at hs
    by_cases htaken : (wideClaimMask cfg (s.ico.wides i).pendingAddr (s.ico.wides i).pendingSize).intersects
        s.ico.banksTaken = true
    case pos =>
      rw [if_pos htaken] at hs
      simp only [reduceCtorEq, if_false, some.injEq] at hs
      subst hs
      obtain ⟨hinv, how⟩ := pass_wide h he hpc true (fun _ => rfl) (fun _ _ => rfl)
        (wideClaimMask cfg (s.ico.wides i).pendingAddr (s.ico.wides i).pendingSize)
      exact ⟨hinv, fun h _ => how h⟩
    case neg =>
      rw [if_neg htaken] at hs
      simp only [if_true, some.injEq] at hs
      subst hs
      obtain ⟨hinv, how⟩ := retry_wide h he hpc hpending rfl
      refine ⟨hinv, fun ho hsep => how ho ?_⟩
      simp only [Separate, he, all_some, hpc, i.2, dif_pos, hpending, Bool.not_true, Bool.false_or] at hsep
      simpa [htaken] using hsep

theorem pass_bank (hpc : e.pc = .bank b) (any : Bool)
    (hold : e.anyRemaining = true → any = true) (hany : (s.ico.banks b).pendingMask.any = true → any = true) :
    Inv { s with election := some { pc := .bank (b + 1), anyRemaining := any } } ∧
      (Own s → Own { s with election := some { pc := .bank (b + 1), anyRemaining := any } }) := by
  obtain ⟨hopened, hretrying, hin⟩ := h.records.not_retrying he (by rw [hpc]; rfl)
  rw [hpc] at hin
  refine ⟨⟨h.book, h.records.goOn he hopened rfl rfl hretrying hin rfl rfl rfl rfl hold (fun j hp hpast => ?_)
    fun b' hany' hpast => ?_⟩, fun how => ⟨how.exclusive, how.fits⟩⟩
  · left
    rw [hpc]
    trivial
  · rcases Nat.lt_succ_iff_lt_or_eq.1 hpast with hlt | rfl
    · left
      rw [hpc]
      exact hlt
    · exact .inr (hany hany')

theorem retry_bank {b : Fin cfg.nbSlaves} (hpc : e.pc = .bank b) {winner : Fin cfg.nbMasters}
    {rrNext : Nat} (hwinner : (s.ico.banks b).pendingMask.test winner = true) (hnext : rrNext < cfg.nbMasters)
    (hico : ico = { s.ico with
      banks := update s.ico.banks b { pendingMask := (s.ico.banks b).pendingMask.reset winner, rrNext := rrNext }
      banksBusy := s.ico.banksBusy.set b }) :
    Inv { ico := ico, election := some { e with pc := .bankRetry b winner }, book := s.book.retry (.narrow winner) } ∧
      (Own s → s.ico.banksBusy.test b = false →
        Own { ico := ico, election := some { e with pc := .bankRetry b winner }, book :=
          s.book.retry (.narrow winner) }) := by
  have hopened := (h.records.not_retrying he (by rw [hpc]; rfl)).1
  obtain ⟨hrecords, req, hheldReq, hbank⟩ := h.records.pickBank ico he hpc hwinner hnext (hico ▸ rfl)
    (hico ▸ rfl) (hico ▸ rfl)
    (hico ▸ rfl) (hico ▸ rfl) (hico ▸ rfl) (hico ▸ rfl)
  subst hico
  obtain ⟨n, hheld, hreq⟩ := h.book.of_heldReq hheldReq
  refine ⟨⟨h.book.retry hopened hheld, hrecords⟩, fun how hfree => ⟨?_, how.fits⟩⟩
  have hone : ∀ b' : Nat, b' ∈ (fullAccess cfg (.narrow winner) req).map (·.bank) → b' = b.1 :=
    fun b' hb' => (mem_singleton.1 hb').trans hbank
  refine how.exclusive.retry hheld hreq (nodup_singleton _) (fun b' hb' hused => ?_) fun b' hb' => ?_
  · rw [hone b' hb', System.Busy, hfree] at hused
    cases hused.2
  · refine ⟨h.records.busyNow (by rw [he]; simp), ?_⟩
    change (s.ico.banksBusy.set b).test b' = true
    rw [test_set, Bool.or_eq_true, decide_eq_true_eq]
    exact hb'.imp (fun hused => hused.2) fun hb' => (hone b' hb').symm

theorem visitBank_ok {b : Fin cfg.nbSlaves} (hpc : e.pc = .bank b) {s' : System cfg}
    (hs : s.visit e = some s') : Inv s' ∧ (Own s → Separate s .visit = true → Own s') := by
  rw [visit, hpc] at hs
  simp only [b.2, dif_pos, visitBank] at hs
  by_cases hany : (s.ico.banks b).pendingMask.any = true
  case neg =>
    rw [if_pos (by simpa using hany)] at hs
    simp only [some.injEq] at hs
    subst hs
    obtain ⟨hinv, how⟩ := pass_bank h he hpc e.anyRemaining (fun h => h) fun h => absurd h hany
    exact ⟨hinv, fun h _ => how h⟩
  case pos =>
    rw [if_neg (by simp [hany])] at hs
    by_cases htaken : s.ico.banksTaken.test b = true
    case pos =>
      rw [if_pos htaken] at hs
      simp only [some.injEq] at hs
      subst hs
      obtain ⟨hinv, how⟩ := pass_bank h he hpc true (fun _ => rfl) fun _ => rfl
      exact ⟨hinv, fun h _ => how h⟩
    case neg =>
      rw [if_neg htaken] at hs
      obtain ⟨winner, hwinner⟩ := ne_none_iff_exists'.1 (firstFrom_ne_none (h.records.rrNext b) hany)
      simp only [hwinner, some.injEq] at hs
      subst hs
      obtain ⟨hinv, how⟩ := retry_bank h he hpc (firstFrom_mem (h.records.rrNext b) hwinner).1 (Nat.mod_lt (winner + 1)
        cfg.masters_pos) rfl
      refine ⟨hinv, fun ho hsep => how ho ?_⟩
      simpa [Separate, he, hpc, hany, htaken] using hsep

theorem visit_ok (hs : s.visit e = some s') :
    Inv s' ∧ (Own s → Separate s .visit = true → Own s') := by
  cases hpc : e.pc with
  | wide i =>
    by_cases hi : i < cfg.nbWideMasters
    · exact visitWide_ok h he (i := ⟨i, hi⟩) hpc hs
    · -- on to the banks
      rw [visit, hpc] at hs
      simp only [hi, dif_neg, not_false_eq_true, some.injEq] at hs
      subst hs
      obtain ⟨hopened, hretrying, -⟩ := h.records.not_retrying he (by rw [hpc]; rfl)
      refine ⟨⟨h.book, h.records.goOn he hopened rfl rfl hretrying rfl rfl rfl rfl rfl (fun hany => hany)
        (fun j _ _ => .inl ?_) fun b _ hpast => absurd hpast (Nat.not_lt_zero _)⟩,
          fun how _ => ⟨how.exclusive, how.fits⟩⟩
      rw [hpc]
      exact j.2.trans_le (not_lt.1 hi)
  | bank b =>
    by_cases hb : b < cfg.nbSlaves
    · exact visitBank_ok h he (b := ⟨b, hb⟩) hpc hs
    · rw [visit, hpc] at hs
      simp only [hb, dif_neg, not_false_eq_true, some.injEq] at hs
      subst hs
      refine ⟨⟨h.book, h.records.endElection he hpc (not_lt.1 hb)⟩, fun how _ =>
        ⟨how.exclusive.mono fun b' hb' => ?_, how.fits⟩⟩
      rw [System.Busy, endElection]
      split <;> exact hb'
  | wideRetry i =>
    rw [visit, hpc] at hs
    cases hs
  | bankRetry b winner =>
    rw [visit, hpc] at hs
    cases hs

end

/-! ## Runs -/

theorem step_ok (s : System cfg) (event : Event cfg) (s' : System cfg) (h : Inv s) (hs : step s event = some s') :
    Inv s' ∧ (Own s → Separate s event = true → Own s') := by
  cases event with
  | input id req =>
    obtain ⟨hguard, rfl⟩ := ite_some_none_eq_some.1 hs
    obtain ⟨hinv, how⟩ := input_ok h hguard.1 (by simpa using hguard.2) req
    exact ⟨hinv, fun h _ => how h⟩
  | wideInput id req =>
    obtain ⟨hnone, rfl⟩ := ite_some_none_eq_some.1 hs
    exact wideInput_cases h hnone
  | fsm =>
    obtain ⟨hguard, rfl⟩ := ite_some_none_eq_some.1 hs
    obtain ⟨hinv, how⟩ := start_ok h (isNone_iff_eq_none.1 hguard.1)
    exact ⟨hinv, fun h _ => how h⟩
  | visit =>
    obtain ⟨e, he, hs⟩ := bind_eq_some_iff.1 hs
    exact visit_ok h he hs
  | reissue =>
    obtain ⟨port, hopened, hs⟩ := bind_eq_some_iff.1 hs
    obtain ⟨hinv, how⟩ := reissue_ok h hopened hs
    exact ⟨hinv, fun h _ => how h⟩
  | retryReturn =>
    simp only [step] at hs
    split at hs
    case h_2 => cases hs
    case h_1 e he hopened =>
      cases hs
      obtain ⟨hinv, how⟩ := retryReturn_ok h he hopened
      exact ⟨hinv, fun h _ => how h⟩
  | tick =>
    obtain ⟨hguard, rfl⟩ := ite_some_none_eq_some.1 hs
    obtain ⟨hinv, how⟩ := tick_ok h (isNone_iff_eq_none.1 hguard.1) hguard.2
    exact ⟨hinv, fun h _ => how h⟩

/-- A denied request is recorded: at its bank, or with its address and size. -/
def Recorded (s : System cfg) (port : Port cfg) (req : Req) : Prop :=
  match port with
  | .narrow i => (s.ico.banks (decodeBank cfg req.addr)).pendingMask.test i = true
  | .wide i => (s.ico.wides i).pending = true ∧ (s.ico.wides i).pendingAddr = req.addr ∧
      (s.ico.wides i).pendingSize = req.size

theorem Inv.recorded (h : Inv s) (hheld : s.book.held port = some n) (hreq : s.book.issued[n]? = some (port, req))
    (hopened : s.book.opened ≠ some port) : Recorded s port req := by
  have hheldReq := Book.heldReq_eq_some hheld hreq
  cases port with
  | narrow i => exact (h.records.narrow _ i).2 ⟨hopened, req, hheldReq, rfl⟩
  | wide i => exact ⟨(h.records.wide i).2 ⟨hopened, hheldReq ▸ nofun⟩, h.records.intent i req hheldReq⟩

theorem Inv.scheduled (h : Inv s) (hrecorded : Recorded s port req) :
    s.election ≠ none ∨ s.ico.fsmEvent = some s.ico.cycle ∨ s.ico.fsmEvent = some (s.ico.cycle + 1) := by
  by_cases hnone : s.election = none
  case neg => exact .inl hnone
  case pos =>
    have hnoted : s.Noted := by
      cases port with
      | narrow i =>
        exact h.records.bankNoted _ (any_iff.2 ⟨_, hrecorded⟩) fun e he => by rw [hnone] at he; cases he
      | wide i => exact h.records.wideNoted i hrecorded.1 fun e he => by rw [hnone] at he; cases he
    rcases hnoted with hne | ⟨e, he, -⟩
    · obtain ⟨due, hdue⟩ := ne_none_iff_exists'.1 hne
      rw [hdue]
      exact .inr ((h.records.fsmEvent due hdue).imp (congrArg some) (congrArg some))
    · rw [hnone] at he
      cases he

/-- One access per bank and cycle; a request that is performed is performed whole, in one cycle; a denied one is
recorded with an election scheduled until it is retried, and a retried one is performed in the cycle of its retry. -/
structure OneAccess (s : System cfg) : Prop where
  once : ∀ cycle, ((s.book.accesses.filter (·.round = cycle)).map (·.access.bank)).Nodup
  whole : s.book.accesses = s.book.performed.flatMap fun p => Book.served (fullAccess cfg) s.book.issued p.1 p.2
  recorded : ∀ n port req, s.book.issued[n]? = some (port, req) → n ∉ s.book.performed.map (·.2) →
    s.book.opened = some port ∨ Recorded s port req ∧
      (s.election ≠ none ∨ s.ico.fsmEvent = some s.ico.cycle ∨ s.ico.fsmEvent = some (s.ico.cycle + 1))
  retried : ∀ p ∈ s.book.retries, ∃ n, p.2 = some n ∧ ((p.1, n) ∈ s.book.performed ∨
    ∃ port, s.book.opened = some port ∧ s.book.held port = some n ∧ p.1 = s.book.round)

theorem Inv.oneAccess (h : Inv s) (how : Own s) : OneAccess s where
  once := how.exclusive.once
  whole := h.book.accesses
  recorded n port req hreq hnot := by
    have hheld := (h.book.left n port req hreq).2 hnot
    by_cases hopened : s.book.opened = some port
    · exact .inl hopened
    · have hrecorded := h.recorded hheld hreq hopened
      exact .inr ⟨hrecorded, h.scheduled hrecorded⟩
  retried := h.book.retried

/-- **One access per bank and cycle**, in every run whose events keep the banks apart. -/
theorem interco_exact (cfg : Config) (es : List (Event cfg)) (s : System cfg)
    (hsep : AllSteps step (fun s event => Separate s event = true) {} es) (h : run step {} es = some s) :
      OneAccess s := by
  have hboth : Inv s ∧ Own s := run_inv (I := fun s => Inv s ∧ Own s)
    (fun s event s' hI hP hs => ⟨(step_ok s event s' hI.1 hs).1, (step_ok s event s' hI.1 hs).2 hI.2 hP⟩)
    ⟨inv_initial, own_initial⟩ hsep h
  exact hboth.1.oneAccess hboth.2

/-- One narrow master and two wide ones over four banks. -/
def fourBanks : Config where
  nbMasters := 1
  slaveBits := 2
  interleavingWidth := 2
  nbWideMasters := 2
  masters_pos := Nat.one_pos
  shift_lt := by decide

/-- Two wide requests for the same banks, in two cycles. -/
def twoWides : List (Event fourBanks) :=
  [.wideInput ⟨0, by decide⟩ ⟨0, 8, none, none, false⟩, .wideInput ⟨1, by decide⟩ ⟨0, 8, none, none, false⟩, .fsm,
    .visit, .visit, .visit, .visit, .visit, .visit, .visit, .visit, .tick, .fsm, .visit, .visit, .reissue, .retryReturn]

theorem interco_exact_twoWides :
    ∃ s, run step {} twoWides = some s ∧ s.book.performed = [(0, 0), (1, 1)] ∧ OneAccess s := by
  have h : (run step {} twoWides).map (·.book.performed) = some [(0, 0), (1, 1)] := by decide +kernel
  obtain ⟨s, hs, hp⟩ := map_eq_some_iff.1 h
  exact ⟨s, hs, hp, interco_exact fourBanks twoWides s (by decide +kernel) hs⟩

/-- The same with a narrow request for bank 2, and with another wide request for the banks 2 and 3 when the second one
is done. -/
def chained : List (Event fourBanks) :=
  [.wideInput ⟨0, by decide⟩ ⟨0, 8, none, none, false⟩, .wideInput ⟨1, by decide⟩ ⟨0, 8, none, none, false⟩, .fsm,
    .visit, .visit, .visit, .visit,
    .visit, .visit, .visit, .visit, .tick, .input ⟨0, by decide⟩ ⟨8, 4, none, none, false⟩, .fsm, .visit,
      .visit, .reissue,
    .wideInput ⟨0, by decide⟩ ⟨8, 8, none, none, false⟩, .retryReturn, .visit, .visit, .visit, .visit, .reissue]

/-- **A bank is accessed twice in one cycle**: the wide request that is served from inside the `retry()` is not in the
mask the election goes by. -/
theorem bank_twice : ∃ s, run step ({} : System fourBanks) chained = some s ∧ ¬OneAccess s := by
  have h : (run step {} chained).map (fun s => (s.book.accesses.filter (·.round = 1)).map (·.access.bank)) =
      some [0, 1, 2, 3, 2] := by decide +kernel
  obtain ⟨s, hs, hbanks⟩ := map_eq_some_iff.1 h
  refine ⟨s, hs, fun hone => ?_⟩
  have hnodup := hone.once 1
  rw [hbanks] at hnodup
  revert hnodup
  decide

end GvsocPulp.TcdmInterco
