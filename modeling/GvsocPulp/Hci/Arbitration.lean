import GvsocPulp.Hci.Picks

/-!
# Arbitration safety of the HCI

The crossbar records just the denied requests that have not been retried (`Records`), so what an election picks is what
the masters hold, and the election of the pending requests is scheduled.

- `inv_step`: one event;
- `arbitration_safe`: all runs.
-/

namespace GvsocPulp.Hci

open Lib Function List Option Bool Crossbar Port

variable {cfg : Config} {s s' : System} {port : Port} {req : Req} {id n : Nat} {hci : Crossbar} {e : Election}

variable {answer : Answer} {b : Nat} {v : Visit}

def Port.Valid (cfg : Config) : Port → Prop
  | .narrow id => id < cfg.nbMasters
  | .wide id => id < cfg.nbWideMasters

namespace System

/-- Some request is recorded. -/
def Pending (cfg : Config) (s : System) : Prop := s.hci.narrowPending cfg = true ∨ s.hci.widePending cfg = true

def Scheduled (s : System) : Prop :=
  s.hci.fsmEvent = some s.hci.cycle ∨ s.hci.nextCycleEvent = some s.hci.cycle ∨
    s.hci.nextCycleEvent = some (s.hci.cycle + 1)

/-- A bank that has been given away in the election that runs. -/
def Taken (s : System) (b : Nat) : Prop := ∀ e, s.election = some e → e.taken.getLsbD b = true

end System

/-- What the crossbar records is what the masters hold. -/
structure Records (cfg : Config) (s : System) : Prop where
  valid : ∀ port, s.book.heldReq port ≠ none → port.Valid cfg
  ok : ∀ b, (s.hci.banks b).Ok cfg
  narrow : ∀ b i, (s.hci.banks b).pendingMask.getLsbD i = true ↔
    s.book.opened ≠ some (.narrow i) ∧ ∃ req, s.book.heldReq (.narrow i) = some req ∧ decodeBank cfg req.addr = b
  wide : ∀ i, (s.hci.wides i).pending = true ↔ s.book.opened ≠ some (.wide i) ∧ s.book.heldReq (.wide i) ≠ none
  mask : ∀ i req, s.book.heldReq (.wide i) = some req →
    computeBankMask cfg req.addr req.size = some (s.hci.wides i).bankMask
  elected : ∀ i, (s.hci.wides i).elected = true ↔ s.book.opened = some (.wide i)
  inElection : s.hci.inElection = s.election.isSome
  opened : ∀ port, s.book.opened = some port → ∃ e, s.election = some e ∧ e.retrying = some port
  scheduled : s.election = none → s.Pending cfg → s.Scheduled
  fsmEvent : ∀ due, s.hci.fsmEvent = some due → due = s.hci.cycle
  nextCycleEvent : ∀ due, s.hci.nextCycleEvent = some due → due = s.hci.cycle ∨ due = s.hci.cycle + 1

namespace Records

section

variable (h : Records cfg s)
include h

theorem frame (hheld : s'.book.heldReq = s.book.heldReq) (hopened : s'.book.opened = s.book.opened)
    (hbanks : s'.hci.banks = s.hci.banks) (hwides : s'.hci.wides = s.hci.wides)
    (helection : s'.hci.inElection = s'.election.isSome)
    (hretrying : ∀ port, s'.book.opened = some port → ∃ e, s'.election = some e ∧ e.retrying = some port)
    (hscheduled : s'.election = none → s'.Pending cfg → s'.Scheduled)
    (hfsm : ∀ due, s'.hci.fsmEvent = some due → due = s'.hci.cycle)
    (hnext : ∀ due, s'.hci.nextCycleEvent = some due → due = s'.hci.cycle ∨ due = s'.hci.cycle + 1) :
      Records cfg s' where
  valid := hheld ▸ h.valid
  ok := hbanks ▸ h.ok
  narrow b i := by rw [hbanks, hheld, hopened, h.narrow]
  wide i := by rw [hwides, hheld, hopened, h.wide]
  mask i req := by
    rw [hwides, hheld]
    exact h.mask i req
  elected i := by rw [hwides, hopened, h.elected]
  inElection := helection
  opened := hretrying
  scheduled := hscheduled
  fsmEvent := hfsm
  nextCycleEvent := hnext

theorem nextCycle_enqueue : ∀ due,
    enqueue s.hci.cycle 1 s.hci.nextCycleEvent = some due → due = s.hci.cycle ∨ due = s.hci.cycle + 1 := by
  intro due hdue
  rcases enqueue_eq_some hdue with heq | heq
  · exact .inr heq
  · exact h.nextCycleEvent due heq

theorem fsm_enqueue : enqueue s.hci.cycle 0 s.hci.fsmEvent = some s.hci.cycle :=
  enqueue_zero fun due hdue => (h.fsmEvent due hdue).symm.le

theorem opened_of_none (hnone : s.election = none) : s.book.opened = none := by
  cases hopened : s.book.opened with
  | none => rfl
  | some port =>
    obtain ⟨e, he, -⟩ := h.opened port hopened
    rw [hnone] at he
    cases he

theorem opened_of_retrying (he : s.election = some e) (hretrying : e.retrying = none) :
    s.book.opened = none := by
  cases hopened : s.book.opened with
  | none => rfl
  | some port =>
    obtain ⟨e', he', hport⟩ := h.opened port hopened
    rw [he] at he'
    cases he'
    rw [hretrying] at hport
    cases hport

/-! ## Requests -/

theorem valid_deny (port : Port) {port' : Port} (hvalid : port.Valid cfg)
    (hport : update s.book.heldReq port (some req) port' ≠ none) : port'.Valid cfg := by
  rw [update_apply] at hport
  split at hport
  case isTrue heq => exact heq ▸ hvalid
  case isFalse => exact h.valid port' hport

theorem input (hb : s.book.Ok (fullAccess cfg)) (hid : id < cfg.nbMasters) (hnone : s.book.held (.narrow id) = none)
    (helection : s.election = none) (req : Req) :
    ∃ hci, s.hci.inputReq cfg req id = (.denied, hci, []) ∧
      Records cfg (s.issue (.narrow id) req (.denied, hci, [])) := by
  have hin : s.hci.inElection = false := by rw [h.inElection, helection]; rfl
  have hopened : s.book.opened = none := h.opened_of_none helection
  rw [inputReq, hin, if_neg (by decide)]
  have hheld : ∀ hci, (s.issue (.narrow id) req (.denied, hci, [])).book.heldReq =
    update s.book.heldReq (.narrow id) (some req) :=
    fun _ => hb.heldReq_deny
  have hid64 : id < 64 := hid.trans_le cfg.masters_le
  have hmaster : s.book.heldReq (.narrow id) = none := hb.heldReq_eq_none.2 hnone
  refine ⟨_, rfl, { h with
    valid := fun port hport => h.valid_deny (.narrow id) hid (hheld _ ▸ hport), ok := fun b => ?_, narrow :=
      fun b i => ?_, wide := fun i => ?_
    mask := fun i req' hreq' => h.mask i req' ?_, scheduled := fun _ _ => .inl h.fsm_enqueue
    fsmEvent := fun due hdue => (some.inj (h.fsm_enqueue.symm.trans hdue)).symm }⟩
  · change (update s.hci.banks _ _ b).Ok cfg
    rw [update_apply]
    split
    · exact h.ok _
    · exact h.ok b
  · change (update s.hci.banks _ _ b).pendingMask.getLsbD i = true ↔ s.book.opened ≠ _ ∧ _
    rw [hheld, hopened]
    have hnarrow := h.narrow b i
    rw [hopened] at hnarrow
    rw [update_apply]
    split
    case isTrue heq =>
      subst heq
      rw [getLsbD_or_bit hid64, or_eq_true, hnarrow, decide_eq_true_eq, update_apply]
      split
      case isTrue heq =>
        cases heq
        simp
      case isFalse hne =>
        have hne : id ≠ i := fun heq => hne (heq ▸ rfl)
        simp [hne]
    case isFalse hb =>
      rw [hnarrow, update_apply]
      split
      case isTrue heq =>
        cases heq
        simp [hmaster, Ne.symm hb]
      case isFalse => rfl
  · rw [hheld, update_of_ne (show Port.wide i ≠ .narrow id from nofun)]
    exact h.wide i
  · rwa [hheld, update_of_ne (show Port.wide i ≠ .narrow id from nofun)] at hreq'

/-- **A new wide request is denied and recorded**, also inside an election. -/
theorem wideInput (hb : s.book.Ok (fullAccess cfg)) (hid : id < cfg.nbWideMasters)
    (hnone : s.book.held (.wide id) = none) (hanswer : s.hci.wideInputReq cfg req id = some answer) :
    ∃ hci, answer = (.denied, hci, []) ∧ Records cfg (s.issue (.wide id) req (.denied, hci, [])) := by
  have hnot : s.book.opened ≠ some (.wide id) := fun hopen => (hb.awaited _ hopen).1 hnone
  rw [wideInputReq, if_neg fun h' => hnot ((h.elected id).1 h'), map_eq_some_iff] at hanswer
  obtain ⟨bankMask, hmask, rfl⟩ := hanswer
  have hheld : ∀ hci, (s.issue (.wide id) req (.denied, hci, [])).book.heldReq =
    update s.book.heldReq (.wide id) (some req) :=
    fun _ => hb.heldReq_deny
  have hrecords : ∀ fsm next, (s.election = none → fsm = some s.hci.cycle) →
    (∀ due, fsm = some due → due = s.hci.cycle) →
      (∀ due, next = some due → due = s.hci.cycle ∨ due = s.hci.cycle + 1) →
      Records cfg (s.issue (.wide id) req (.denied, { s.hci.setWide id
        { s.hci.wides id with bankMask := bankMask, pending := true } with fsmEvent := fsm, nextCycleEvent := next },
          [])) := by
    intro fsm next hdue hfsm hnext
    refine { h with
      valid := fun port hport => h.valid_deny (.wide id) hid (hheld _ ▸ hport), narrow :=
        fun b i => ?_, wide := fun i => ?_
      mask := fun i req' hreq' => ?_, elected := fun i => ?_, scheduled := fun hnone _ => .inl (hdue hnone),
        fsmEvent := hfsm
      nextCycleEvent := hnext }
    · rw [hheld, update_of_ne (show Port.narrow i ≠ .wide id from nofun)]
      exact h.narrow b i
    · change (update s.hci.wides id _ i).pending = true ↔ s.book.opened ≠ _ ∧ _
      rw [hheld, update_apply, update_apply]
      by_cases heq : i = id
      · subst heq
        simp [hnot]
      · rw [if_neg heq, if_neg fun h => heq (wide.inj h), h.wide]
    · change _ = some (update s.hci.wides id _ i).bankMask
      rw [update_apply]
      rw [hheld, update_apply] at hreq'
      by_cases heq : i = id
      · subst heq
        rw [if_pos rfl] at hreq'
        cases hreq'
        rw [if_pos rfl]
        exact hmask
      · rw [if_neg fun h => heq (wide.inj h)] at hreq'
        rw [if_neg heq]
        exact h.mask i req' hreq'
    · change (update s.hci.wides id _ i).elected = true ↔ _
      rw [update_apply]
      split
      case isTrue heq => exact heq ▸ h.elected i
      case isFalse => exact h.elected i
  refine ⟨_, rfl, ?_⟩
  split
  case isTrue hin =>
    rw [h.inElection] at hin
    exact hrecords s.hci.fsmEvent _ (fun hnone => by rw [hnone] at hin; cases hin) h.fsmEvent h.nextCycle_enqueue
  case isFalse =>
    exact hrecords _ s.hci.nextCycleEvent (fun _ => h.fsm_enqueue)
      (fun due hdue => (some.inj (h.fsm_enqueue.symm.trans hdue)).symm) h.nextCycleEvent

end

/-! ## Elections -/

theorem and_bit_ne_zero {mask : BitVec 64} (hb : b < 64) :
    mask &&& 1#64 <<< b ≠ 0#64 ↔ mask.getLsbD b = true := by
  constructor
  · intro hne
    obtain ⟨j, hj⟩ := exists_getLsbD hne
    rw [BitVec.getLsbD_and, getLsbD_bit hb, and_eq_true, decide_eq_true_eq] at hj
    exact hj.2 ▸ hj.1
  · intro hbit hzero
    have hj := eq_zero_iff_getLsbD.1 hzero b
    rw [BitVec.getLsbD_and, getLsbD_bit hb, hbit] at hj
    simp at hj

section

variable (h : Records cfg s) (he : s.election = some e) (hopened : s.book.opened = none)
include h he hopened

/-- **The winner of a bank is retried**: it holds a request for that bank. -/
theorem pickBank (hmask : (s.hci.banks b).pendingMask ≠ 0#64) (e' : Election)
    (hretrying : e'.retrying = some (.narrow (pickNarrow cfg (s.hci.banks b)).1)) :
    Records cfg {
      hci := s.hci.setBank b (pickNarrow cfg (s.hci.banks b)).2, election := some e'
      book := s.book.retry (.narrow (pickNarrow cfg (s.hci.banks b)).1) } ∧
    ∃ req, s.book.heldReq (.narrow (pickNarrow cfg (s.hci.banks b)).1) = some req ∧ decodeBank cfg req.addr = b := by
  have hrecorded : ∀ i, (s.hci.banks b).pendingMask.getLsbD i = true → i < cfg.nbMasters := by
    intro i hi
    obtain ⟨-, req, hreq, -⟩ := (h.narrow b i).1 hi
    exact h.valid (.narrow i) (hreq ▸ nofun)
  obtain ⟨hwinner, hclear, hok⟩ := pickNarrow_mem (h.ok b) hmask hrecorded
  generalize (pickNarrow cfg (s.hci.banks b)).1 = winner at *
  generalize (pickNarrow cfg (s.hci.banks b)).2 = bank at *
  have hlt64 : winner < 64 := (hrecorded _ hwinner).trans_le cfg.masters_le
  obtain ⟨-, req, hheld, hbank⟩ := (h.narrow b winner).1 hwinner
  refine ⟨⟨h.valid, fun b' => ?_, fun b' i => ?_, fun i => ?_, h.mask, fun i => ?_, ?_, fun port hport => ?_, nofun,
    h.fsmEvent, h.nextCycleEvent⟩, req, hheld, hbank⟩
  · change (update s.hci.banks b bank b').Ok cfg
    rw [update_apply]
    split
    · exact hok
    · exact h.ok b'
  · change (update s.hci.banks b bank b').pendingMask.getLsbD i = true ↔
      some (Port.narrow winner) ≠ some (.narrow i) ∧ _
    have hnarrow := h.narrow b' i
    rw [hopened] at hnarrow
    rw [update_apply]
    split
    case isTrue heq =>
      subst heq
      rw [hclear, getLsbD_andNot_bit hlt64, and_eq_true, hnarrow, decide_eq_true_eq]
      exact ⟨fun h => ⟨fun heq => h.2 (narrow.inj (some.inj heq)), h.1.2⟩,
        fun h => ⟨⟨nofun, h.2⟩, fun heq => h.1 (by rw [heq])⟩⟩
    case isFalse hne =>
      rw [hnarrow]
      refine and_congr_left fun hex => iff_of_true nofun fun heq => hne ?_
      obtain ⟨req', hheld', rfl⟩ := hex
      rw [← narrow.inj (some.inj heq)] at hheld'
      have hsame : req = req' := some.inj (hheld.symm.trans hheld')
      rw [← hsame, hbank]
  · change (s.hci.wides i).pending = true ↔ some (Port.narrow winner) ≠ some (.wide i) ∧ _
    rw [h.wide, hopened]
    exact and_congr_left fun _ => iff_of_true nofun nofun
  · change (s.hci.wides i).elected = true ↔ some (Port.narrow winner) = some (.wide i)
    rw [h.elected, hopened]
    exact iff_of_false nofun nofun
  · change s.hci.inElection = true
    rw [h.inElection, he]
    rfl
  · cases hport
    exact ⟨e', rfl, hretrying⟩

/-- **A pending wide port is retried**: it holds a request for the banks of its mask. -/
theorem pickWide (hpending : (s.hci.wides id).pending = true) (e' : Election)
    (hretrying : e'.retrying = some (.wide id)) :
    Records cfg {
      hci := s.hci.setWide id { s.hci.wides id with pending := false, elected := true }, election := some e'
      book := s.book.retry (.wide id) } ∧
    ∃ req, s.book.heldReq (.wide id) = some req ∧
      computeBankMask cfg req.addr req.size = some (s.hci.wides id).bankMask := by
  obtain ⟨-, hne⟩ := (h.wide id).1 hpending
  obtain ⟨req, hheld⟩ := ne_none_iff_exists'.1 hne
  refine ⟨⟨h.valid, h.ok, fun b i => ?_, fun i => ?_, fun i req' hreq' => ?_, fun i => ?_, ?_, fun port hport => ?_,
    nofun, h.fsmEvent, h.nextCycleEvent⟩, req, hheld, h.mask id req hheld⟩
  · change (s.hci.banks b).pendingMask.getLsbD i = true ↔ some (Port.wide id) ≠ some (.narrow i) ∧ _
    rw [h.narrow, hopened]
    exact and_congr_left fun _ => iff_of_true nofun nofun
  · change (update s.hci.wides id _ i).pending = true ↔ some (Port.wide id) ≠ some (.wide i) ∧ _
    rw [update_apply]
    split
    case isTrue heq =>
      subst heq
      exact iff_of_false nofun fun h => h.1 rfl
    case isFalse hne' =>
      rw [h.wide, hopened]
      exact and_congr_left fun _ => iff_of_true nofun fun heq => hne' (wide.inj (some.inj heq)).symm
  · change _ = some (update s.hci.wides id _ i).bankMask
    rw [h.mask i req' hreq', update_apply]
    split
    case isTrue heq => rw [heq]
    case isFalse => rfl
  · change (update s.hci.wides id _ i).elected = true ↔ some (Port.wide id) = some (.wide i)
    rw [update_apply]
    split
    case isTrue heq =>
      subst heq
      exact iff_of_true rfl rfl
    case isFalse hne' =>
      rw [h.elected, hopened]
      exact iff_of_false nofun fun heq => hne' (wide.inj (some.inj heq)).symm
  · change s.hci.inElection = true
    rw [h.inElection, he]
    rfl
  · cases hport
    exact ⟨e', rfl, hretrying⟩

end

/-- **The request of the retried port is performed**, and only that closes its window. -/
theorem request (h : Records cfg s) (hopened : s.book.opened = some port)
    (hanswer : s.request cfg port req = some answer) :
    ∃ hci, answer = (.done, hci, fullAccess cfg port req) ∧
      Records cfg ({ s with book := s.book.close }.answered port n (.done, hci, fullAccess cfg port req)) := by
  obtain ⟨e, he, -⟩ := h.opened port hopened
  have hin : s.hci.inElection = true := by rw [h.inElection, he]; rfl
  obtain ⟨hci, rfl, hbanks, hwides, hrest⟩ : ∃ hci, answer = (.done, hci, fullAccess cfg port req) ∧
    hci.banks = s.hci.banks ∧
      (∀ i, hci.wides i = if port = .wide i then { s.hci.wides i with elected := false } else s.hci.wides i) ∧
      hci.inElection = true ∧ hci.fsmEvent = s.hci.fsmEvent ∧ hci.nextCycleEvent = s.hci.nextCycleEvent ∧
      hci.cycle = s.hci.cycle := by
    cases port with
    | narrow i =>
      rw [System.request, inputReq, hin, if_pos rfl] at hanswer
      cases hanswer
      exact ⟨s.hci, rfl, rfl, fun _ => rfl, hin, rfl, rfl, rfl⟩
    | wide i =>
      rw [System.request, wideInputReq, if_pos ((h.elected i).2 hopened)] at hanswer
      cases hanswer
      refine ⟨_, rfl, rfl, fun i' => ?_, hin, rfl, rfl, rfl⟩
      change update s.hci.wides i _ i' = _
      rw [update_apply]
      by_cases heq : i' = i
      · rw [if_pos heq, if_pos (by rw [heq]), heq]
      · rw [if_neg heq, if_neg fun h => heq (wide.inj h).symm]
  obtain ⟨hinElection, hfsm, hnext, hcycle⟩ := hrest
  cases hci
  subst hbanks hinElection hfsm hnext hcycle
  have hheld : ∀ hci, ({ s with book := s.book.close }.answered port n
    (.done, hci, fullAccess cfg port req)).book.heldReq =
      update s.book.heldReq port none := fun _ => Book.heldReq_done
  refine ⟨_, rfl, { h with
    valid := fun port' hport' => ?_, narrow := fun b i => ?_, wide := fun i => ?_, mask := fun i req' hreq' => ?_
    elected := fun i => ?_, inElection := hin ▸ h.inElection, opened := nofun
    scheduled := fun hnone => (nomatch he.symm.trans hnone) }⟩
  · rw [hheld, update_apply] at hport'
    split at hport'
    · exact absurd rfl hport'
    · exact h.valid port' hport'
  · rw [hheld, update_apply]
    refine (h.narrow b i).trans ?_
    rw [hopened]
    split
    case isTrue heq => exact iff_of_false (fun h => h.1 (by rw [heq])) (by simp)
    case isFalse hne => exact and_congr_left fun _ => iff_of_true (fun heq => hne (some.inj heq).symm) nofun
  · refine (iff_of_eq (congrArg (·.pending = true) (hwides i))).trans ?_
    rw [hheld, update_apply]
    by_cases heq : port = .wide i
    · rw [if_pos heq, if_pos heq.symm]
      refine iff_of_false (fun hpending => ?_) fun h => h.2 rfl
      exact ((h.wide i).1 hpending).1 (hopened.trans (by rw [heq]))
    · rw [if_neg heq, if_neg (Ne.symm heq), h.wide, hopened]
      exact and_congr_left fun _ => iff_of_true (fun h => heq (some.inj h)) nofun
  · rw [hheld, update_apply] at hreq'
    split at hreq'
    case isTrue => cases hreq'
    case isFalse hne =>
      refine (h.mask i req' hreq').trans (congrArg (fun w : WideState => some w.bankMask) ?_)
      exact ((hwides i).trans (if_neg (Ne.symm hne))).symm
  · refine (iff_of_eq (congrArg (·.elected = true) (hwides i))).trans ?_
    split
    case isTrue => exact iff_of_false nofun nofun
    case isFalse hne =>
      rw [h.elected, hopened]
      exact iff_of_false (fun heq => hne (some.inj heq)) nofun

end Records

/-! ## Runs -/

/-- The requests, their records and the accesses go together in every state. -/
structure Inv (cfg : Config) (s : System) : Prop where
  book : s.book.Ok (fullAccess cfg)
  exclusive : s.book.Exclusive (fullAccess cfg) (·.bank) s.Taken
  records : Records cfg s
  elected : ∀ p ∈ s.book.performed, (p.1, some p.2) ∈ s.book.retries
  /-- The loops of an election go through banks that exist. -/
  todo : ∀ e, s.election = some e → ∀ b, Visit.bank b ∈ e.todo → b < cfg.nbSlaves

theorem inv_initial : Inv cfg (initial cfg) where
  book :=
    { held := nofun, left := nofun, nodup := nodup_nil, bounds := nofun, awaited := nofun, retried := nofun
      retriedOnce := nodup_nil, accesses := rfl }
  exclusive := { once := fun _ => nodup_nil, accessed := nofun, reserved := nofun }
  records :=
    { valid := fun _ h => absurd rfl h
      ok := fun _ => ⟨cfg.masters_pos, fun _ => cfg.masters_pos⟩
      narrow := fun b i => iff_of_false (by simp [initial]) fun ⟨_, _, h, _⟩ => nomatch h
      wide := fun i => iff_of_false nofun fun h => h.2 rfl
      mask := nofun
      elected := fun i => iff_of_false nofun nofun
      inElection := rfl
      opened := nofun
      scheduled := fun _ hpending => by
        rcases hpending with h | h
        · simp [initial, narrowPending] at h
        · simp [initial, widePending] at h
      fsmEvent := nofun
      nextCycleEvent := nofun }
  elected := nofun
  todo := nofun

theorem mem_passes {wides banks : List Visit} {wideFirst lowTurn : Bool}
    (h : v ∈ if wideFirst then wides ++ if lowTurn then [] else banks else banks ++ if lowTurn then [] else wides) :
    v ∈ banks ∨ v ∈ wides := by
  cases wideFirst <;> cases lowTurn <;> simp at h <;> tauto

namespace Inv

variable (h : Inv cfg s)
include h

theorem issue (hnone : s.book.held port = none)
    (hrecords : Records cfg (s.issue port req (.denied, hci, []))) : Inv cfg (s.issue port req (.denied, hci, [])) :=
  ⟨h.book.deny hnone, h.exclusive.deny h.book hnone, hrecords, h.elected, h.todo⟩

theorem nextCycle : Inv cfg { s with hci := s.hci.nextCycleHandler } :=
  ⟨h.book, h.exclusive, h.records.frame rfl rfl rfl rfl h.records.inElection h.records.opened
    (fun _ _ => .inl h.records.fsm_enqueue)
    (fun _ hdue => (some.inj (h.records.fsm_enqueue.symm.trans hdue)).symm) nofun, h.elected, h.todo⟩

theorem ctrl (value : BitVec 32) : Inv cfg { s with hci := s.hci.ctrlSync value } :=
  ⟨h.book, h.exclusive, h.records.frame rfl rfl rfl rfl h.records.inElection h.records.opened h.records.scheduled
    h.records.fsmEvent h.records.nextCycleEvent, h.elected, h.todo⟩

theorem tick (hnone : s.election = none) (hfsm : s.hci.fsmEvent ≠ some s.hci.cycle)
    (hnext : s.hci.nextCycleEvent ≠ some s.hci.cycle) :
    Inv cfg { s with hci := { s.hci with cycle := s.hci.cycle + 1 } } := by
  refine ⟨h.book, h.exclusive, h.records.frame rfl rfl rfl rfl h.records.inElection h.records.opened
    (fun _ hpending => ?_)
    (fun due hdue => ?_) (fun due hdue => ?_), h.elected, h.todo⟩
  · rcases h.records.scheduled hnone hpending with hs | hs | hs
    · exact absurd hs hfsm
    · exact absurd hs hnext
    · exact .inr (.inl hs)
  · exact absurd (hdue.trans (congrArg some (h.records.fsmEvent due hdue))) hfsm
  · rcases h.records.nextCycleEvent due hdue with rfl | rfl
    · exact absurd hdue hnext
    · exact .inl rfl

theorem start (hnone : s.election = none) :
    Inv cfg {
      hci := (s.hci.startElection cfg).1, election := some (s.hci.startElection cfg).2, book := s.book.nextRound } := by
  have hopened := h.records.opened_of_none hnone
  refine ⟨h.book.nextRound hopened, h.exclusive.nextRound h.book hopened, h.records.frame rfl rfl rfl rfl rfl
    (fun port hport => ?_) nofun nofun h.records.nextCycleEvent, h.elected, fun e he b hb => ?_⟩
  · rw [show s.book.nextRound.opened = s.book.opened from rfl, hopened] at hport
    cases hport
  · cases he
    rcases mem_passes hb with hmem | hmem
    · obtain ⟨b', hb', heq⟩ := List.mem_map.1 hmem
      cases heq
      exact mem_range.1 hb'
    · obtain ⟨i, -, heq⟩ := List.mem_map.1 hmem
      cases heq

theorem endElection (he : s.election = some e) (hretrying : e.retrying = none) :
    Inv cfg { s with hci := s.hci.endElection cfg e, election := none } := by
  have hopened := h.records.opened_of_retrying he hretrying
  have hbanks : (s.hci.endElection cfg e).banks = s.hci.banks := by
    rw [Crossbar.endElection]; split <;> rfl
  have hwides : (s.hci.endElection cfg e).wides = s.hci.wides := by
    rw [Crossbar.endElection]; split <;> rfl
  have hcycle : (s.hci.endElection cfg e).cycle = s.hci.cycle := by
    rw [Crossbar.endElection]; split <;> rfl
  refine ⟨h.book, ⟨h.exclusive.once, fun a _ _ => nofun, fun port n req hport => ?_⟩,
    h.records.frame rfl rfl hbanks hwides ?_
    (fun port hport => ?_) (fun _ hpending => ?_) ?_ ?_, h.elected, nofun⟩
  · rw [hopened] at hport
    cases hport
  · change (s.hci.endElection cfg e).inElection = false
    rw [Crossbar.endElection]; split <;> rfl
  · rw [hopened] at hport
    cases hport
  · have hsame : (s.hci.narrowPending cfg || s.hci.widePending cfg) = true := by
      rw [or_eq_true]
      rw [System.Pending, narrowPending, widePending, hbanks, hwides] at hpending
      exact hpending
    right
    change (s.hci.endElection cfg e).nextCycleEvent = some _ ∨ (s.hci.endElection cfg e).nextCycleEvent = some _
    rw [hcycle, Crossbar.endElection, if_pos hsame]
    have hne : enqueue s.hci.cycle 1 s.hci.nextCycleEvent ≠ none := enqueue_ne_none
    obtain ⟨due, hdue⟩ := ne_none_iff_exists'.1 hne
    change enqueue s.hci.cycle 1 s.hci.nextCycleEvent = _ ∨ enqueue s.hci.cycle 1 s.hci.nextCycleEvent = _
    rw [hdue]
    rcases h.records.nextCycle_enqueue due hdue with rfl | rfl
    · exact .inl rfl
    · exact .inr rfl
  · rw [hcycle, Crossbar.endElection]; split <;> exact h.records.fsmEvent
  · rw [hcycle, Crossbar.endElection]
    split
    · exact h.records.nextCycle_enqueue
    · exact h.records.nextCycleEvent

theorem retryReturn (he : s.election = some e) (hopened : s.book.opened = none) :
    Inv cfg { s with hci := s.hci.retryReturn port, election := some { e with retrying := none } } := by
  have hwides : (s.hci.retryReturn port).wides = s.hci.wides := by
    cases port with
    | narrow i => rfl
    | wide i =>
      -- the window has been closed by the request
      change update s.hci.wides i _ = _
      refine update_eq_self_iff.2 ?_
      have helected : (s.hci.wides i).elected = false := eq_false_iff.2 fun h' => by
        have hopen := (h.records.elected i).1 h'
        rw [hopened] at hopen
        cases hopen
      rw [← helected]
  have hother : (s.hci.retryReturn port).banks = s.hci.banks ∧ (s.hci.retryReturn port).inElection = s.hci.inElection ∧
      (s.hci.retryReturn port).fsmEvent = s.hci.fsmEvent ∧
      (s.hci.retryReturn port).nextCycleEvent = s.hci.nextCycleEvent ∧
      (s.hci.retryReturn port).cycle = s.hci.cycle := by
    cases port <;> exact ⟨rfl, rfl, rfl, rfl, rfl⟩
  obtain ⟨hbanks, hin, hfsm, hnext, hcycle⟩ := hother
  refine ⟨h.book, h.exclusive.mono fun b hb e' he' => ?_,
    h.records.frame rfl rfl hbanks hwides ?_ (fun port hport => ?_) nofun
    ?_ ?_, h.elected, fun e' he' => ?_⟩
  · cases he'
    exact hb e he
  · rw [hin, h.records.inElection, he]
    rfl
  · rw [hopened] at hport
    cases hport
  · rw [hfsm, hcycle]
    exact h.records.fsmEvent
  · rw [hnext, hcycle]
    exact h.records.nextCycleEvent
  · cases he'
    exact h.todo e he

theorem reissue (hs : step cfg s .reissue = some s') : Inv cfg s' := by
  obtain ⟨port, n, p, req, answer, hopened, hn, hreq, hanswer, rfl⟩ := reissue_inv hs
  obtain ⟨req', hreq'⟩ := h.book.held port n hn
  cases hreq.symm.trans hreq'
  obtain ⟨hci, rfl, hrecords⟩ := h.records.request (n := n) hopened hanswer
  refine ⟨h.book.serve hopened hn hreq, h.exclusive.serve hopened hn hreq, hrecords, fun p hp => ?_, h.todo⟩
  rcases mem_append.1 hp with hp | hp
  · exact h.elected p hp
  · cases mem_singleton.1 hp
    exact hn ▸ (h.book.awaited port hopened).2

theorem pick (he : s.election = some e) (hopened : s.book.opened = none) {e' : Election}
    (hheld : s.book.heldReq port = some req) (hnodup : ((fullAccess cfg port req).map (·.bank)).Nodup)
    (hfree : ∀ b ∈ (fullAccess cfg port req).map (·.bank), e.taken.getLsbD b = false)
    (htaken : ∀ b, e.taken.getLsbD b = true ∨ b ∈ (fullAccess cfg port req).map (·.bank) → e'.taken.getLsbD b = true)
    (hrecords : Records cfg { hci := hci, election := some e', book := s.book.retry port })
    (htodo : ∀ b, Visit.bank b ∈ e'.todo → b < cfg.nbSlaves) :
    Inv cfg { hci := hci, election := some e', book := s.book.retry port } := by
  obtain ⟨n, hn, hreq⟩ := h.book.of_heldReq hheld
  refine ⟨h.book.retry hopened hn, h.exclusive.retry hn hreq hnodup (fun b hb hused => ?_) fun b hb e'' he'' => ?_,
    hrecords, fun p hp => mem_append_left _ (h.elected p hp), fun e'' he'' => by cases he''; exact htodo⟩
  · have hbit := hused e he
    rw [hfree b hb] at hbit
    cases hbit
  · cases he''
    exact htaken b (hb.imp_left fun hused => hused e he)

theorem visit (he : s.election = some e) (hretrying : e.retrying = none) {todo : List Visit}
    (htodo : e.todo = v :: todo) : Inv cfg (s.visit cfg { e with todo := todo } v) := by
  have hopened := h.records.opened_of_retrying he hretrying
  have hrest : ∀ b, Visit.bank b ∈ todo → b < cfg.nbSlaves := fun b hb =>
    h.todo e he b (htodo ▸ mem_cons_of_mem _ hb)
  -- nobody is retried
  have hskip : Inv cfg { s with election := some { e with todo := todo } } := by
    refine ⟨h.book, h.exclusive.mono fun b hb e' he' => by cases he'; exact hb e he, h.records.frame rfl rfl rfl rfl ?_
      (fun port hport => ?_) nofun h.records.fsmEvent h.records.nextCycleEvent, h.elected,
      fun e' he' => by cases he'; exact hrest⟩
    · exact h.records.inElection.trans (by rw [he]; rfl)
    · rw [hopened] at hport
      cases hport
  cases v with
  | bank b =>
    have hb64 : b < 64 := (h.todo e he b (htodo ▸ mem_cons_self)).trans_le nbSlaves_le
    by_cases hmask : (s.hci.banks b).pendingMask = 0#64
    · simp only [System.visit, Crossbar.visit, Crossbar.serveBank, if_pos hmask, hretrying]
      simpa only [hretrying] using hskip
    · by_cases hfree : e.taken &&& 1#64 <<< b ≠ 0#64
      · simp only [System.visit, Crossbar.visit, Crossbar.serveBank, if_neg hmask, if_pos hfree, hretrying]
        simpa only [hretrying] using hskip
      · simp only [System.visit, Crossbar.visit, Crossbar.serveBank, if_neg hmask, if_neg hfree]
        have hfree : e.taken.getLsbD b = false :=
          eq_false_iff.2 fun hbit => hfree ((Records.and_bit_ne_zero hb64).2 hbit)
        obtain ⟨hrecords, req, hheld, hbank⟩ := h.records.pickBank he hopened hmask { e with
          taken := e.taken ||| 1#64 <<< b, todo := todo
          retrying := some (.narrow (pickNarrow cfg (s.hci.banks b)).1) } rfl
        have hone : ∀ b', b' ∈ (fullAccess cfg (.narrow (pickNarrow cfg (s.hci.banks b)).1) req).map (·.bank) →
          b' = b :=
          fun b' hb' => (mem_singleton.1 hb').trans hbank
        refine h.pick he hopened hheld (nodup_singleton _) (fun b' hb' => hone b' hb' ▸ hfree)
          (fun b' hb' => ?_) hrecords
          hrest
        rw [getLsbD_or_bit hb64, or_eq_true, decide_eq_true_eq]
        exact hb'.imp_right fun hb' => (hone b' hb').symm
  | wide i =>
    by_cases hpending : (!(s.hci.wides i).pending) = true
    · simp only [System.visit, Crossbar.visit, Crossbar.serveWide, if_pos hpending, hretrying]
      simpa only [hretrying] using hskip
    · by_cases hfree : (s.hci.wides i).bankMask &&& e.taken ≠ 0#64
      · simp only [System.visit, Crossbar.visit, Crossbar.serveWide, if_neg hpending, if_pos hfree, hretrying]
        simpa only [hretrying] using hskip
      · simp only [System.visit, Crossbar.visit, Crossbar.serveWide, if_neg hpending, if_neg hfree]
        obtain ⟨hrecords, req, hheld, hmask⟩ := h.records.pickWide he hopened (by simpa using hpending) { e with
          taken := e.taken ||| (s.hci.wides i).bankMask, todo := todo, retrying := some (.wide i) } rfl
        refine h.pick he hopened hheld (wideForward_nodup hmask) (fun b hb => ?_) (fun b hb => ?_) hrecords hrest
        · have hzero := eq_zero_iff_getLsbD.1 (not_not.1 hfree) b
          rwa [BitVec.getLsbD_and, (getLsbD_bankMask hmask).2 hb, Bool.true_and] at hzero
        · rw [BitVec.getLsbD_or, or_eq_true]
          exact hb.imp_right (getLsbD_bankMask hmask).2

end Inv

theorem inv_step (s : System) (event : Event) (s' : System) (h : Inv cfg s) (hs : step cfg s event = some s') :
    Inv cfg s' := by
  cases event with
  | input id req =>
    obtain ⟨⟨hid, hnone, helection⟩, rfl⟩ := ite_some_none_eq_some.1 hs
    obtain ⟨hci, hanswer, hrecords⟩ := h.records.input h.book hid hnone (isNone_iff_eq_none.1 helection) req
    rw [hanswer]
    exact h.issue hnone hrecords
  | wideInput id req =>
    obtain ⟨⟨hid, hnone, -⟩, hs⟩ := ite_none_right_eq_some.1 hs
    obtain ⟨answer, hanswer, rfl⟩ := map_eq_some_iff.1 hs
    obtain ⟨hci, rfl, hrecords⟩ := h.records.wideInput h.book hid hnone hanswer
    exact h.issue hnone hrecords
  | ctrl value =>
    cases hs
    exact h.ctrl value
  | nextCycle =>
    obtain ⟨-, rfl⟩ := ite_some_none_eq_some.1 hs
    exact h.nextCycle
  | fsm =>
    obtain ⟨hguard, rfl⟩ := ite_some_none_eq_some.1 hs
    exact h.start (isNone_iff_eq_none.1 hguard.1)
  | visit =>
    obtain ⟨e, v, todo, he, hretrying, htodo, rfl⟩ := visit_inv hs
    exact h.visit he hretrying htodo
  | reissue => exact h.reissue hs
  | retryReturn =>
    obtain ⟨e, port, he, -, hopened, rfl⟩ := retryReturn_inv hs
    exact h.retryReturn he hopened
  | endElection =>
    obtain ⟨e, he, hretrying, -, rfl⟩ := endElection_inv hs
    exact h.endElection he hretrying
  | tick =>
    obtain ⟨hguard, rfl⟩ := ite_some_none_eq_some.1 hs
    exact h.tick (isNone_iff_eq_none.1 hguard.1) hguard.2.1 hguard.2.2

theorem inv_run {es : List Event} (h : run (step cfg) (initial cfg) es = some s) : Inv cfg s :=
  run_invariant inv_step inv_initial h

/-- A denied request is recorded: at its bank, or with the banks it needs. -/
def Recorded (cfg : Config) (s : System) (port : Port) (req : Req) : Prop :=
  match port with
  | .narrow i => (s.hci.banks (decodeBank cfg req.addr)).pendingMask.getLsbD i = true
  | .wide i => (s.hci.wides i).pending = true ∧
      ∀ b, (s.hci.wides i).bankMask.getLsbD b = true ↔ b ∈ (wideForward cfg req).map (·.bank)

theorem Inv.recorded (h : Inv cfg s) (hheld : s.book.held port = some n) (hreq : s.book.issued[n]? = some (port, req))
    (hopened : s.book.opened ≠ some port) : Recorded cfg s port req := by
  have hheldReq := Book.heldReq_eq_some hheld hreq
  cases port with
  | narrow i => exact (h.records.narrow _ i).2 ⟨hopened, req, hheldReq, rfl⟩
  | wide i => exact ⟨(h.records.wide i).2 ⟨hopened, hheldReq ▸ nofun⟩,
      fun b => getLsbD_bankMask (h.records.mask i req hheldReq)⟩

/-- **Arbitration safety**, for every run of requests, control writes and elections. In each election a bank serves at
most one access; what the banks have performed are the accesses of the performed requests, each whole and in one
election; what is retried is held, is retried once and is performed in that election, and nothing else is performed; a
request that has not been performed is held, and recorded for its banks until its retry; while one is recorded, an
election runs or is scheduled. -/
theorem arbitration_safe (cfg : Config) (es : List Event) (s : System) (h : run (step cfg) (initial cfg) es = some s) :
    (∀ election, ((s.book.accesses.filter (·.round = election)).map (·.access.bank)).Nodup) ∧
    s.book.accesses = s.book.performed.flatMap (fun p => Book.served (fullAccess cfg) s.book.issued p.1 p.2) ∧
    (∀ p ∈ s.book.retries, ∃ n, p.2 = some n ∧ ((p.1, n) ∈ s.book.performed ∨
      ∃ port, s.book.opened = some port ∧ s.book.held port = some n ∧ p.1 = s.book.round)) ∧
    (s.book.retries.map (·.2)).Nodup ∧
    (∀ p ∈ s.book.performed, (p.1, some p.2) ∈ s.book.retries) ∧
    (s.book.performed.map (·.2)).Nodup ∧
    (∀ n port req, s.book.issued[n]? = some (port, req) → n ∉ s.book.performed.map (·.2) →
      s.book.held port = some n ∧ (s.book.opened = some port ∨ Recorded cfg s port req)) ∧
    (s.Pending cfg → s.election ≠ none ∨ s.Scheduled) := by
  have hinv := inv_run h
  refine ⟨hinv.exclusive.once, hinv.book.accesses, hinv.book.retried, hinv.book.retriedOnce, hinv.elected,
    hinv.book.nodup, fun n port req hreq hnot => ?_, fun hpending => ?_⟩
  · have hheld := (hinv.book.left n port req hreq).2 hnot
    refine ⟨hheld, ?_⟩
    by_cases hopened : s.book.opened = some port
    · exact .inl hopened
    · exact .inr (hinv.recorded hheld hreq hopened)
  · by_cases hnone : s.election = none
    · exact .inr (hinv.records.scheduled hnone hpending)
    · exact .inl hnone

/-- Two masters and two wide ones over two banks, with one stalled cycle for the low side. -/
def twoBanks : Config where
  nbMasters := 2
  nbGroup0Masters := 1
  slaveBits := 1
  interleavingWidth := 2
  nbWideMasters := 2
  wideMaxStall := 1
  widePrio := false
  masters_pos := by decide
  masters_le := by decide
  group0_le := by decide
  slaves_le := by decide
  shift_lt := by decide

/-- The wide request loses the first election, wins the second by its turn, and its master chains another one. -/
def starvationTurn : List Event :=
  [.input 0 ⟨0, 4, 0, false⟩, .input 1 ⟨8, 4, 0, true⟩, .wideInput 0 ⟨0, 8, 16, false⟩,
    .fsm, .visit, .reissue, .retryReturn, .visit, .visit, .visit, .endElection, .tick,
    .nextCycle, .fsm, .visit, .reissue, .wideInput 0 ⟨8, 8, 24, false⟩, .retryReturn, .visit, .endElection]

theorem arbitration_safe_starvationTurn :
    ∃ s, run (step twoBanks) (initial twoBanks) starvationTurn = some s ∧ s.book.performed = [(1, 0), (2, 2)] ∧
      (∀ n, ((s.book.accesses.filter (·.round = n)).map (·.access.bank)).Nodup) ∧
      (s.Pending twoBanks → s.Scheduled) := by
  have h : (run (step twoBanks) (initial twoBanks) starvationTurn).map
    (fun s => (s.book.performed, s.election.isNone)) =
      some ([(1, 0), (2, 2)], true) := by decide +kernel
  obtain ⟨s, hs, hp⟩ := map_eq_some_iff.1 h
  obtain ⟨hperformed, hnone⟩ := Prod.mk.inj hp
  have hsafe := arbitration_safe twoBanks starvationTurn s hs
  refine ⟨s, hs, hperformed, hsafe.1, fun hpending => ?_⟩
  exact (hsafe.2.2.2.2.2.2.2 hpending).resolve_left fun h => h (isNone_iff_eq_none.1 hnone)

end GvsocPulp.Hci
