import GvsocPulp.TcdmInterco.Interco

/-!
# What the MAGIA TCDM interconnect records

The interconnect records just the denied requests that have not been retried, and an election is scheduled for them
(`Records`), whatever the masters do.

- `test_wideClaimMask`, `forwardWide_nodup`: the banks of a wide request;
- `Records`, with one lemma for each way in which an event changes it.
-/

namespace GvsocPulp.TcdmInterco

open Lib Function List

variable {cfg : Config} {s s' : System cfg} {port : Port cfg} {req : Req} {n : Nat} {ico : Interco cfg}
  {e : Election cfg}

variable {b : Nat} {id : Fin cfg.nbWideMasters}

/-! ## The banks of a wide request -/

theorem granule_pos : 0 < cfg.granule := by
  rw [Config.granule, Nat.shiftLeft_eq, one_mul]
  exact Nat.two_pow_pos _

theorem forwardWideLoop_banks {isWrite : Bool} : ∀ {data strb : Option Nat} {cs : List (Nat × Nat)},
    (forwardWideLoop cfg isWrite data strb cs).map (·.bank) = cs.map fun c => decodeBank cfg c.1
  | _, _, [] => rfl
  | data, strb, (addr, chunk) :: cs => by rw [forwardWideLoop, map_cons, forwardWideLoop_banks, map_cons]

theorem forwardWide_banks (req : Req) :
    (forwardWide cfg req).map (·.bank) = (chunks cfg req.addr req.size).map fun c => decodeBank cfg c.1 :=
  forwardWideLoop_banks

theorem forwardWide_nodup (req : Req) :
    ((forwardWide cfg req).map (·.bank)).Nodup ↔ (chunks cfg req.addr req.size).length ≤ cfg.nbSlaves := by
  have hdvd : cfg.granule * cfg.nbSlaves ∣ 2 ^ 64 := by
    rw [Config.granule, Config.nbSlaves, Nat.shiftLeft_eq, Nat.shiftLeft_eq, one_mul, one_mul, ← pow_add]
    have hshift := cfg.shift_lt
    exact Nat.pow_dvd_pow 2 (by omega)
  rw [forwardWide_banks]
  simp only [decodeBank_eq]
  exact pieces_nodup hdvd granule_pos nbSlaves_pos _ _

theorem test_foldl_set : ∀ {cs : List (Nat × Nat)} {claim : Mask cfg.nbSlaves},
    (cs.foldl (fun claim c => claim.set ⟨decodeBank cfg c.1, decodeBank_lt c.1⟩) claim).test b = true ↔
      claim.test b = true ∨ b ∈ cs.map fun c => decodeBank cfg c.1
  | [], claim => by simp
  | c :: cs, claim => by
    rw [foldl_cons, test_foldl_set, Mask.test_set, map_cons, mem_cons]
    simp only [Bool.or_eq_true, decide_eq_true_eq, eq_comm (a := b)]
    rw [or_assoc]

theorem test_wideClaimMask {req : Req} :
    (wideClaimMask cfg req.addr req.size).test b = true ↔ b ∈ (forwardWide cfg req).map (·.bank) := by
  rw [wideClaimMask, test_foldl_set, forwardWide_banks, Mask.test_clear]
  simp

/-! ## Records -/

namespace Pc

def retrying : Pc cfg → Option (Port cfg)
  | .wideRetry i => some (.wide i)
  | .bankRetry _ winner => some (.narrow winner)
  | _ => none

/-- `in_election` is set there. -/
def inElection : Pc cfg → Bool
  | .bank _ | .bankRetry _ _ => true
  | _ => false

/-- The loop has gone past this wide input. -/
def PastWide : Pc cfg → Nat → Prop
  | .wide i, j => j < i
  | .wideRetry i, j => j ≤ i
  | _, _ => True

/-- The loop has gone past this bank. -/
def PastBank : Pc cfg → Nat → Prop
  | .bank b, j => j < b
  | .bankRetry b _, j => j < b
  | _, _ => False

end Pc

/-- An election will come after this one, or after this cycle. -/
def System.Noted (s : System cfg) : Prop :=
  s.ico.fsmEvent ≠ none ∨ ∃ e, s.election = some e ∧ e.anyRemaining = true

theorem System.Noted.goOn (h : s.Noted) (he : s.election = some e) {e' : Election cfg}
    (hfsm : s'.ico.fsmEvent = s.ico.fsmEvent)
    (he' : s'.election = some e') (hany : e.anyRemaining = true → e'.anyRemaining = true) : s'.Noted := by
  rcases h with hne | ⟨e'', he'', hremaining⟩
  · exact .inl (hfsm ▸ hne)
  · cases he.symm.trans he''
    exact .inr ⟨e', he', hany hremaining⟩

/-- What the interconnect records is what the masters hold. -/
structure Records (s : System cfg) : Prop where
  rrNext : ∀ b, (s.ico.banks b).rrNext < cfg.nbMasters
  narrow : ∀ b i, (s.ico.banks b).pendingMask.test i.1 = true ↔
    s.book.opened ≠ some (.narrow i) ∧ ∃ req, s.book.heldReq (.narrow i) = some req ∧ decodeBank cfg req.addr = b
  wide : ∀ i, (s.ico.wides i).pending = true ↔ s.book.opened ≠ some (.wide i) ∧ s.book.heldReq (.wide i) ≠ none
  intent : ∀ i req, s.book.heldReq (.wide i) = some req →
    (s.ico.wides i).pendingAddr = req.addr ∧ (s.ico.wides i).pendingSize = req.size
  opened : ∀ port, s.book.opened = some port → ∃ e, s.election = some e ∧ e.pc.retrying = some port
  wideRetrying : s.ico.wideRetrying = s.election.bind fun e => e.pc.retrying.bind fun
    | .wide i => some i
    | .narrow _ => none
  inElection : s.ico.inElection = s.election.any (·.pc.inElection)
  round : s.book.round = s.ico.cycle
  busyCycle : s.ico.banksBusyCycle ≤ s.ico.cycle
  busyNow : s.election ≠ none → s.ico.banksBusyCycle = s.ico.cycle
  wideNoted : ∀ i, (s.ico.wides i).pending = true → (∀ e, s.election = some e → e.pc.PastWide i) → s.Noted
  bankNoted : ∀ b, (s.ico.banks b).pendingMask.any = true → (∀ e, s.election = some e → e.pc.PastBank b) → s.Noted
  fsmEvent : ∀ due, s.ico.fsmEvent = some due → due = s.ico.cycle ∨ due = s.ico.cycle + 1

namespace Records

section

variable (h : Records s)
include h

theorem opened_of_none (hnone : s.election = none) : s.book.opened = none := by
  cases hopened : s.book.opened with
  | none => rfl
  | some port =>
    obtain ⟨e, he, -⟩ := h.opened port hopened
    rw [hnone] at he
    cases he

theorem not_retrying (he : s.election = some e) (hretrying : e.pc.retrying = none) :
    s.book.opened = none ∧ s.ico.wideRetrying = none ∧ s.ico.inElection = e.pc.inElection := by
  refine ⟨?_, by rw [h.wideRetrying, he, Option.bind_some, hretrying]; rfl, by rw [h.inElection, he]; rfl⟩
  cases hopened : s.book.opened with
  | none => rfl
  | some port =>
    obtain ⟨e', he', hport⟩ := h.opened port hopened
    rw [he] at he'
    cases he'
    rw [hretrying] at hport
    cases hport

theorem enqueue_le {delay : Nat} (hdelay : delay ≤ 1) : ∀ due,
    enqueue s.ico.cycle delay s.ico.fsmEvent = some due → due = s.ico.cycle ∨ due = s.ico.cycle + 1 := by
  intro due hdue
  rcases enqueue_eq_some hdue with heq | heq
  · omega
  · exact h.fsmEvent due heq

theorem frame (hheld : s'.book.heldReq = s.book.heldReq) (hopened : s'.book.opened = s.book.opened)
    (hround : s'.book.round = s.book.round) (helection : s'.election = s.election)
    (hbanks : s'.ico.banks = s.ico.banks) (hwides : s'.ico.wides = s.ico.wides)
    (hretrying : s'.ico.wideRetrying = s.ico.wideRetrying) (hin : s'.ico.inElection = s.ico.inElection)
    (hfsm : s'.ico.fsmEvent = s.ico.fsmEvent) (hcycle : s'.ico.cycle = s.ico.cycle)
    (hbusy : s'.ico.banksBusyCycle = s.ico.banksBusyCycle ∨ s'.ico.banksBusyCycle = s.ico.cycle) : Records s' where
  rrNext := hbanks ▸ h.rrNext
  narrow b i := by rw [hbanks, hheld, hopened, h.narrow]
  wide i := by rw [hwides, hheld, hopened, h.wide]
  intent i req := by
    rw [hwides, hheld]
    exact h.intent i req
  opened port := by
    rw [hopened, helection]
    exact h.opened port
  wideRetrying := by rw [hretrying, helection, h.wideRetrying]
  inElection := by rw [hin, helection, h.inElection]
  round := by rw [hround, hcycle, h.round]
  busyCycle := by
    rw [hcycle]
    rcases hbusy with heq | heq
    · exact heq ▸ h.busyCycle
    · exact heq ▸ le_rfl
  busyNow hne := by
    rw [hcycle]
    rcases hbusy with heq | heq
    · exact heq ▸ h.busyNow (helection ▸ hne)
    · exact heq
  wideNoted i := by
    rw [hwides, helection, System.Noted, hfsm, helection]
    exact h.wideNoted i
  bankNoted b := by
    rw [hbanks, helection, System.Noted, hfsm, helection]
    exact h.bankNoted b
  fsmEvent := by
    rw [hfsm, hcycle]
    exact h.fsmEvent

section

variable (hb : s.book.Ok (fullAccess cfg))
include hb

theorem denyNarrow {id : Fin cfg.nbMasters} (hnone : s.book.held (.narrow id) = none)
    (hico : ico = (s.ico.setBank (decodeBank cfg req.addr) { s.ico.banks (decodeBank cfg req.addr) with
      pendingMask := (s.ico.banks (decodeBank cfg req.addr)).pendingMask.set id }).enqueueFsm 0) :
    Records (s.issue (.narrow id) req (.denied, ico, [])) := by
  subst hico
  have hheld : ∀ ico, (s.issue (.narrow id) req (.denied, ico, [])).book.heldReq =
    update s.book.heldReq (.narrow id) (some req) :=
    fun _ => hb.heldReq_deny
  have hnot : s.book.opened ≠ some (.narrow id) := fun hopen => (hb.awaited _ hopen).1 hnone
  have hmaster : s.book.heldReq (.narrow id) = none := hb.heldReq_eq_none.2 hnone
  refine { h with
    rrNext := fun b => ?_, narrow := fun b i => ?_, wide := fun i => ?_, intent :=
      fun i req' hreq' => h.intent i req' ?_
    wideNoted := fun _ _ _ => .inl enqueue_ne_none, bankNoted := fun _ _ _ => .inl enqueue_ne_none
    fsmEvent := h.enqueue_le (Nat.zero_le _) }
  · change (update s.ico.banks _ _ b).rrNext < _
    rw [update_apply]
    split
    · exact h.rrNext _
    · exact h.rrNext b
  · change (update s.ico.banks _ _ b).pendingMask.test i.1 = true ↔ s.book.opened ≠ _ ∧ _
    rw [hheld, update_apply]
    have hnarrow := h.narrow b i
    split
    case isTrue heq =>
      subst heq
      rw [Mask.test_set, Bool.or_eq_true, hnarrow, decide_eq_true_eq, update_apply]
      split
      case isTrue heq =>
        cases heq
        simp [hnot]
      case isFalse hne =>
        have hne : id.1 ≠ i.1 := fun heq => hne (by rw [Fin.ext heq])
        simp [hne]
    case isFalse hb =>
      rw [hnarrow, update_apply]
      split
      case isTrue heq =>
        cases heq
        simp [hmaster, Ne.symm hb]
      case isFalse => rfl
  · rw [hheld, update_of_ne (show Port.wide i ≠ .narrow id from nofun)]
    exact h.wide i
  · rwa [hheld, update_of_ne (show Port.wide i ≠ .narrow id from nofun)] at hreq'

theorem denyWide (hnone : s.book.held (.wide id) = none) :
    Records (s.issue (.wide id) req (s.ico.denyWide req id)) := by
  rw [Interco.denyWide]
  have hheld : ∀ ico, (s.issue (.wide id) req (.denied, ico, [])).book.heldReq =
    update s.book.heldReq (.wide id) (some req) :=
    fun _ => hb.heldReq_deny
  have hnot : s.book.opened ≠ some (.wide id) := fun hopen => (hb.awaited _ hopen).1 hnone
  refine { h with
    narrow := fun b i => ?_, wide := fun i => ?_, intent := fun i req' hreq' => ?_
    wideNoted := fun _ _ _ => .inl enqueue_ne_none, bankNoted := fun _ _ _ => .inl enqueue_ne_none
    fsmEvent := h.enqueue_le (Nat.zero_le _) }
  · rw [hheld, update_of_ne (show Port.narrow i ≠ .wide id from nofun)]
    exact h.narrow b i
  · change (update s.ico.wides id _ i).pending = true ↔ s.book.opened ≠ _ ∧ _
    rw [hheld, update_apply, update_apply]
    by_cases heq : i = id
    · subst heq
      simp [hnot]
    · rw [if_neg heq, if_neg fun h => heq (Port.wide.inj h), h.wide]
  · change (update s.ico.wides id _ i).pendingAddr = _ ∧ (update s.ico.wides id _ i).pendingSize = _
    rw [update_apply]
    rw [hheld, update_apply] at hreq'
    by_cases heq : i = id
    · subst heq
      rw [if_pos rfl] at hreq'
      cases hreq'
      rw [if_pos rfl]
      exact ⟨rfl, rfl⟩
    · rw [if_neg fun h => heq (Port.wide.inj h)] at hreq'
      rw [if_neg heq]
      exact h.intent i req' hreq'

theorem direct (hnone : s.book.held (.wide id) = none) (hbanks : ico.banks = s.ico.banks)
    (hwides : ico.wides = s.ico.wides) (hretrying : ico.wideRetrying = s.ico.wideRetrying)
    (hin : ico.inElection = s.ico.inElection)
    (hfsm : ico.fsmEvent = s.ico.fsmEvent) (hcycle : ico.cycle = s.ico.cycle)
    (hbusy : ico.banksBusyCycle = s.ico.banksBusyCycle ∨ ico.banksBusyCycle = s.ico.cycle) :
    Records (s.issue (.wide id) req (.done, ico, forwardWide cfg req)) := by
  refine h.frame ?_ rfl rfl rfl hbanks hwides hretrying hin hfsm hcycle hbusy
  refine hb.heldReq_direct.trans (update_eq_self_iff.2 ?_)
  exact (hb.heldReq_eq_none.2 hnone).symm

end

/-! ## Elections -/

theorem request (hopened : s.book.opened = some port) (req : Req) :
    s.request port req = (.done, s.ico, fullAccess cfg port req) ∧
      Records ({ s with book := s.book.close }.answered port n (.done, s.ico, fullAccess cfg port req)) := by
  obtain ⟨e, he, hpc⟩ := h.opened port hopened
  constructor
  · cases port with
    | narrow i =>
      have hin : s.ico.inElection = true := by
        rw [h.inElection, he]
        cases hpc' : e.pc <;> rw [hpc'] at hpc <;> simp_all [Pc.retrying, Pc.inElection]
      rw [System.request, Interco.inputReq, if_pos hin]
      rfl
    | wide i =>
      rw [System.request, Interco.wideInputReq, if_pos (by rw [h.wideRetrying, he, Option.bind_some, hpc]; rfl)]
      rfl
  · have hheld : ({ s with book := s.book.close }.answered port n (.done, s.ico, fullAccess cfg port req)).book.heldReq
      =
        update s.book.heldReq port none := Book.heldReq_done
    refine { h with
      narrow := fun b i => ?_, wide := fun i => ?_, intent := fun i req' hreq' => h.intent i req' ?_, opened := nofun }
    · rw [hheld, update_apply]
      refine (h.narrow b i).trans ?_
      rw [hopened]
      split
      case isTrue heq => exact iff_of_false (fun h => h.1 (by rw [heq])) (by simp)
      case isFalse hne => exact and_congr_left fun _ => iff_of_true (fun heq => hne (Option.some.inj heq).symm) nofun
    · rw [hheld, update_apply]
      refine (h.wide i).trans ?_
      rw [hopened]
      split
      case isTrue heq => exact iff_of_false (fun h => h.1 (by rw [heq])) fun h => h.2 rfl
      case isFalse hne => exact and_congr_left fun _ => iff_of_true (fun heq => hne (Option.some.inj heq).symm) nofun
    · rw [hheld, update_apply] at hreq'
      split at hreq'
      case isTrue => cases hreq'
      case isFalse => exact hreq'

end

theorem banksBusyNow_fields (ico : Interco cfg) : ico.banksBusyNow.banks = ico.banks ∧
    ico.banksBusyNow.wides = ico.wides ∧ ico.banksBusyNow.wideRetrying = ico.wideRetrying ∧
    ico.banksBusyNow.inElection = ico.inElection ∧ ico.banksBusyNow.fsmEvent = ico.fsmEvent ∧
    ico.banksBusyNow.cycle = ico.cycle ∧ ico.banksBusyNow.banksBusyCycle = ico.cycle ∧ ico.banksBusyNow.wideClaim =
    ico.wideClaim := by
  rw [Interco.banksBusyNow]
  split
  case isTrue => exact ⟨rfl, rfl, rfl, rfl, rfl, rfl, rfl, rfl⟩
  case isFalse h => exact ⟨rfl, rfl, rfl, rfl, rfl, rfl, not_not.1 h, rfl⟩

theorem startElection_fields (ico : Interco cfg) : ico.startElection.banks = ico.banks ∧
    ico.startElection.wides = ico.wides ∧ ico.startElection.wideRetrying = ico.wideRetrying ∧
    ico.startElection.inElection = ico.inElection ∧ ico.startElection.fsmEvent = none ∧
    ico.startElection.cycle = ico.cycle ∧ ico.startElection.banksBusyCycle = ico.cycle := by
  obtain ⟨hbanks, hwides, hretrying, hin, hfsm, hcycle, hbusy, -⟩ := banksBusyNow_fields { ico with fsmEvent := none }
  exact ⟨hbanks, hwides, hretrying, hin, hfsm, hcycle, hbusy⟩

variable (h : Records s)
include h

theorem start (hnone : s.election = none) :
    Records { s with ico := s.ico.startElection, election := some { pc := .wide 0 } } := by
  have hopened := h.opened_of_none hnone
  obtain ⟨hbanks, hwides, hretrying, hin, hfsm, hcycle, hbusy⟩ := startElection_fields s.ico
  cases hico : s.ico.startElection
  rw [hico] at hbanks hwides hretrying hin hfsm hcycle hbusy
  subst hbanks hwides hretrying hin hfsm hcycle hbusy
  exact { h with
    opened := fun port hport => nomatch hopened.symm.trans hport
    wideRetrying := h.wideRetrying.trans (by rw [hnone]; rfl)
    inElection := h.inElection.trans (by rw [hnone]; rfl)
    busyCycle := le_rfl
    busyNow := fun _ => rfl
    wideNoted := fun _ _ hpast => absurd (hpast _ rfl) (Nat.not_lt_zero _)
    bankNoted := fun _ _ hpast => (hpast _ rfl).elim
    fsmEvent := nofun }

theorem tick (hnone : s.election = none) (hfsm : s.ico.fsmEvent ≠ some s.ico.cycle) :
    Records { s with ico := { s.ico with cycle := s.ico.cycle + 1 }, book := s.book.nextRound } where
  rrNext := h.rrNext
  narrow := h.narrow
  wide := h.wide
  intent := h.intent
  opened := h.opened
  wideRetrying := h.wideRetrying
  inElection := h.inElection
  round := congrArg (· + 1) h.round
  busyCycle := by
    have hle := h.busyCycle
    push_cast
    omega
  busyNow hne := absurd hnone hne
  wideNoted := h.wideNoted
  bankNoted := h.bankNoted
  fsmEvent due hdue := by
    rcases h.fsmEvent due hdue with rfl | rfl
    · exact absurd hdue hfsm
    · exact .inl rfl

/-- The election goes on with nobody retried, and has noted what it leaves behind. -/
theorem goOn (he : s.election = some e) (hopened : s.book.opened = none) {e' : Election cfg}
    (hbanks : ico.banks = s.ico.banks) (hwides : ico.wides = s.ico.wides)
    (hretrying : ico.wideRetrying = none) (hin : ico.inElection = e'.pc.inElection)
    (hfsm : ico.fsmEvent = s.ico.fsmEvent) (hcycle : ico.cycle = s.ico.cycle)
    (hbusy : ico.banksBusyCycle = s.ico.banksBusyCycle) (hnext : e'.pc.retrying = none)
    (hremaining : e.anyRemaining = true → e'.anyRemaining = true)
    (hwide : ∀ i : Fin cfg.nbWideMasters, (s.ico.wides i).pending = true → e'.pc.PastWide i → e.pc.PastWide i ∨
      e'.anyRemaining = true)
    (hbank : ∀ b, (s.ico.banks b).pendingMask.any = true → e'.pc.PastBank b → e.pc.PastBank b ∨
      e'.anyRemaining = true) :
    Records { s with ico := ico, election := some e' } := by
  cases ico
  subst hbanks hwides hretrying hin hfsm hcycle hbusy
  refine { h with
    opened := fun port hport => ?_, wideRetrying := ?_, inElection := rfl, busyNow :=
      fun _ => h.busyNow (by rw [he]; nofun)
    wideNoted := fun i hpending hpast => ?_, bankNoted := fun b hany hpast => ?_ }
  · cases hopened.symm.trans hport
  · change none = e'.pc.retrying.bind _
    rw [hnext]
    rfl
  · rcases hwide i hpending (hpast e' rfl) with hold | hany
    · exact (h.wideNoted i hpending fun e'' he'' => by cases he.symm.trans he''; exact hold).goOn he rfl rfl hremaining
    · exact .inr ⟨e', rfl, hany⟩
  · rcases hbank b hany (hpast e' rfl) with hold | hany
    · exact (h.bankNoted b hany fun e'' he'' => by cases he.symm.trans he''; exact hold).goOn he rfl rfl hremaining
    · exact .inr ⟨e', rfl, hany⟩

theorem pickWide {i : Fin cfg.nbWideMasters} (he : s.election = some e) (hpc : e.pc = .wide i)
    (hpending : (s.ico.wides i).pending = true) (hbanks : ico.banks = s.ico.banks)
    (hwides : ico.wides = update s.ico.wides i { s.ico.wides i with pending := false })
    (hretrying : ico.wideRetrying = some i) (hin : ico.inElection = s.ico.inElection)
    (hfsm : ico.fsmEvent = s.ico.fsmEvent) (hcycle : ico.cycle = s.ico.cycle)
    (hbusy : ico.banksBusyCycle = s.ico.banksBusyCycle) :
    Records { ico := ico, election := some { e with pc := .wideRetry i }, book := s.book.retry (.wide i) } := by
  obtain ⟨hopened, hnone, hin'⟩ := h.not_retrying he (by rw [hpc]; rfl)
  cases ico
  subst hbanks hwides hretrying hin hfsm hcycle hbusy
  refine { h with
    narrow := fun b j => ?_, wide := fun j => ?_, intent := fun j req' hreq' => ?_, opened := fun port hport => ?_
    wideRetrying := rfl, inElection := ?_, busyNow := fun _ => h.busyNow (by rw [he]; nofun)
    wideNoted := fun j hp hpast => ?_, bankNoted := fun b hany hpast => (hpast _ rfl).elim }
  · change (s.ico.banks b).pendingMask.test j.1 = true ↔ some (Port.wide i) ≠ some (.narrow j) ∧ _
    rw [h.narrow, hopened]
    exact and_congr_left fun _ => iff_of_true nofun nofun
  · change (update s.ico.wides i _ j).pending = true ↔ some (Port.wide i) ≠ some (.wide j) ∧ _
    rw [update_apply]
    split
    case isTrue heq =>
      subst heq
      exact iff_of_false nofun fun h => h.1 rfl
    case isFalse hne =>
      rw [h.wide, hopened]
      exact and_congr_left fun _ => iff_of_true nofun fun heq => hne (Port.wide.inj (Option.some.inj heq)).symm
  · change (update s.ico.wides i _ j).pendingAddr = _ ∧ (update s.ico.wides i _ j).pendingSize = _
    rw [update_apply]
    split
    case isTrue heq =>
      subst heq
      exact h.intent j req' hreq'
    case isFalse => exact h.intent j req' hreq'
  · cases hport
    exact ⟨_, rfl, rfl⟩
  · change s.ico.inElection = false
    rw [hin', hpc]
    rfl
  · change (update s.ico.wides i _ j).pending = true at hp
    rw [update_apply] at hp
    split at hp
    case isTrue => cases hp
    case isFalse hne =>
      refine (h.wideNoted j hp fun e'' he'' => ?_).goOn he rfl rfl id
      cases he.symm.trans he''
      rw [hpc]
      exact (hpast _ rfl).lt_of_ne fun heq => hne (Fin.ext heq)

/-- **The winner of a bank is retried**: it holds a request for that bank. -/
theorem pickBank {rrNext : Nat} {winner : Fin cfg.nbMasters} (ico : Interco cfg) (he : s.election = some e)
    (hpc : e.pc = .bank b) (hwinner : (s.ico.banks b).pendingMask.test winner.1 = true) (hnext : rrNext < cfg.nbMasters)
    (hbanks : ico.banks = update s.ico.banks b {
      pendingMask := (s.ico.banks b).pendingMask.reset winner, rrNext := rrNext })
    (hwides : ico.wides = s.ico.wides) (hretrying : ico.wideRetrying = s.ico.wideRetrying)
    (hin : ico.inElection = s.ico.inElection) (hfsm : ico.fsmEvent = s.ico.fsmEvent) (hcycle : ico.cycle = s.ico.cycle)
    (hbusy : ico.banksBusyCycle = s.ico.banksBusyCycle) :
    Records { ico := ico, election := some { e with pc := .bankRetry b winner }, book := s.book.retry (.narrow winner) }
      ∧
    ∃ req, s.book.heldReq (.narrow winner) = some req ∧ decodeBank cfg req.addr = b := by
  obtain ⟨hopened, hnone, hin'⟩ := h.not_retrying he (by rw [hpc]; rfl)
  obtain ⟨-, req, hheld, hbank⟩ := (h.narrow b winner).1 hwinner
  cases ico
  subst hbanks hwides hretrying hin hfsm hcycle hbusy
  refine ⟨{ h with
    rrNext := fun b' => ?_, narrow := fun b' j => ?_, wide := fun j => ?_, opened := fun port hport => ?_,
      wideRetrying := hnone
    inElection := ?_, busyNow := fun _ => h.busyNow (by rw [he]; nofun), wideNoted := fun j hp hpast => ?_
    bankNoted := fun b' hany hpast => ?_ }, req, hheld, hbank⟩
  · change (update s.ico.banks b _ b').rrNext < _
    rw [update_apply]
    split
    · exact hnext
    · exact h.rrNext b'
  · change (update s.ico.banks b _ b').pendingMask.test j.1 = true ↔ some (Port.narrow winner) ≠ some (.narrow j) ∧ _
    have hnarrow := h.narrow b' j
    rw [hopened] at hnarrow
    rw [update_apply]
    split
    case isTrue heq =>
      subst heq
      rw [Mask.test_reset, Bool.and_eq_true, hnarrow, decide_eq_true_eq]
      exact ⟨fun h => ⟨fun heq => h.2 (congrArg Fin.val (Port.narrow.inj (Option.some.inj heq))), h.1.2⟩,
        fun h => ⟨⟨nofun, h.2⟩, fun heq => h.1 (by rw [Fin.ext heq])⟩⟩
    case isFalse hne =>
      rw [hnarrow]
      refine and_congr_left fun hex => iff_of_true nofun fun heq => hne ?_
      obtain ⟨req', hheld', rfl⟩ := hex
      rw [← Port.narrow.inj (Option.some.inj heq)] at hheld'
      have hsame : req = req' := Option.some.inj (hheld.symm.trans hheld')
      rw [← hsame, hbank]
  · change (s.ico.wides j).pending = true ↔ some (Port.narrow winner) ≠ some (.wide j) ∧ _
    rw [h.wide, hopened]
    exact and_congr_left fun _ => iff_of_true nofun nofun
  · cases hport
    exact ⟨_, rfl, rfl⟩
  · change s.ico.inElection = true
    rw [hin', hpc]
    rfl
  · exact (h.wideNoted j hp fun e'' he'' => by cases he.symm.trans he''; rw [hpc]; trivial).goOn he rfl rfl id
  · have hlt : b' < b := hpast _ rfl
    change (update s.ico.banks b _ b').pendingMask.any = true at hany
    rw [update_of_ne hlt.ne] at hany
    exact (h.bankNoted b' hany fun e'' he'' => by cases he.symm.trans he''; rw [hpc]; exact hlt).goOn he rfl rfl id

theorem endElection (he : s.election = some e) (hpc : e.pc = .bank b) (hb : cfg.nbSlaves ≤ b) :
    Records { s with ico := s.ico.endElection e, election := none } := by
  obtain ⟨hopened, hnone, hin'⟩ := h.not_retrying he (by rw [hpc]; rfl)
  have hnoted : s.Noted → e.anyRemaining ≠ true → s.ico.fsmEvent ≠ none := by
    rintro (hne | ⟨e'', he'', hany⟩) hnot
    · exact hne
    · cases he.symm.trans he''
      exact absurd hany hnot
  have hwide : ∀ i, (s.ico.wides i).pending = true → s.Noted := fun i hp =>
    h.wideNoted i hp fun e'' he'' => by cases he.symm.trans he''; rw [hpc]; trivial
  have hbank : ∀ b', (s.ico.banks b').pendingMask.any = true → s.Noted := fun b' hany => by
    refine h.bankNoted b' hany fun e'' he'' => ?_
    cases he.symm.trans he''
    rw [hpc]
    -- what is recorded is recorded at a bank that exists
    obtain ⟨j, hj⟩ := Mask.any_iff.1 hany
    obtain ⟨-, req, -, rfl⟩ := (h.narrow b' ⟨j, Mask.test_lt hj⟩).1 hj
    exact (decodeBank_lt _).trans_le hb
  rw [Interco.endElection]
  split
  case isTrue =>
    exact { h with
      opened := fun port hport => (nomatch hopened.symm.trans hport), wideRetrying := hnone, inElection := rfl
      busyNow := fun hne => absurd rfl hne, wideNoted := fun _ _ _ => .inl enqueue_ne_none
      bankNoted := fun _ _ _ => .inl enqueue_ne_none, fsmEvent := h.enqueue_le le_rfl }
  case isFalse hnot =>
    exact { h with
      opened := fun port hport => (nomatch hopened.symm.trans hport), wideRetrying := hnone, inElection := rfl
      busyNow := fun hne => absurd rfl hne, wideNoted := fun i hp _ => .inl (hnoted (hwide i hp) hnot)
      bankNoted := fun b' hany _ => .inl (hnoted (hbank b' hany) hnot) }

end Records

end GvsocPulp.TcdmInterco
