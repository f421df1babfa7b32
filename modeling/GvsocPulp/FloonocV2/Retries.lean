import GvsocPulp.FloonocV2.NetworkInterface
import GvsocPulp.Lib.Notify
import GvsocPulp.Lib.Run

/-!
# No lost wake-up

Who an interface denies is retried. A flag is set for each denial (`owes_retry_*`, `owes_id_retry`, `owes_room`,
`owes_resp_retry`), and `WakeUp` says what the flags stand for in every state of a run: who is owed a retry has a flag,
and each flag is still blocked or `fsm_handler` will look at it. A flag is only cleared with its retry (`Notifies`).

- `Keeps`: what every function of the interface keeps, with the flags it clears and the retries it calls;
- `noLostWakeUp`: the flags over the runs of an interface.
-/

namespace GvsocPulp.FloonocV2

open Lib NetworkInterfaceV2 Function List Option Bool

/-! ## Debts -/

/-- A request of a direction is denied on a port. -/
def denies (wide write : Bool) : Output → Bool
  | .reqStatus wide' req false => wide' == wide && req.opcode.isWrite == write
  | _ => false

/-- A retry reaches the requests of a direction on a port. -/
def retries (wide write : Bool) : Output → Bool
  | .retry wide' channel => wide' == wide && channel.covers write
  | _ => false

/-- A response of a target is denied, one to a request of a direction. -/
def deniesRsp (wide write : Bool) : Output → Bool
  | .respAck wide' flit false => wide' == wide && flit.opcode.isWrite == write
  | _ => false

def retriesRsp (wide : Bool) : Output → Bool
  | .respRetry wide' => wide' == wide
  | _ => false

/-- The output tells a caller that it has been denied. -/
def Output.isDenial : Output → Bool
  | .reqStatus _ _ granted => !granted
  | .respAck _ _ accepted => !accepted
  | _ => false

/-- `fsm_handler` has a phase before it, in this run or in the next one. -/
def NetworkInterfaceV2.Scheduled (s : NetworkInterfaceV2) (phase : FsmPhase) : Prop :=
  s.fsmEvent = true ∨ phase ∈ s.fsmTodo

def rspInputs (wide : Bool) : List (Nw × Nat) := [rspInput wide false, rspInput wide true]

structure FlagInv (cfg : NiConfig) (s : NetworkInterfaceV2) : Prop where
  input : ∀ wide, s.owesRetryInput wide = true → cfg.niOutstandingReqs ≤ s.nbPendingBursts wide ∨
    s.Scheduled (.inputRetry wide)
  id : ∀ wide write, s.owesIdRetry wide write = true → 0 < s.idTxns wide write ∨ s.Scheduled (.idRetry wide write)
  room : ∀ nw input, (s.queue nw).owesRoom input = true → inputDepth ≤ ((s.queue nw).inputs input).length
  resp : ∀ wide, s.owesRespRetry wide = true → ∃ p ∈ rspInputs wide, (s.queue p.1).owesRoom p.2 = true
  idTxns_nonneg : ∀ wide write, 0 ≤ s.idTxns wide write

/-- A flag of `s` that `s'` does not have any more has been cleared with its retry. -/
structure Notifies (s s' : NetworkInterfaceV2) : Prop where
  input : ∀ wide, s.owesRetryInput wide = true → s'.owesRetryInput wide = true ∨ .retry wide .any ∈ s'.outputs
  id : ∀ wide write, s.owesIdRetry wide write = true → s'.owesIdRetry wide write = true ∨
    .retry wide (if write then .write else .read) ∈ s'.outputs
  room : ∀ wide write, (s.queue (carrier wide write).1).owesRoom (carrier wide write).2 = true →
    (s'.queue (carrier wide write).1).owesRoom (carrier wide write).2 = true ∨
      .retry wide (if write then .write else .read) ∈ s'.outputs
  resp : ∀ wide, s.owesRespRetry wide = true → s'.owesRespRetry wide = true ∨ .respRetry wide ∈ s'.outputs
  rspRoom : ∀ wide write, (s.queue (rspInput wide write).1).owesRoom (rspInput wide write).2 = true →
    (s'.queue (rspInput wide write).1).owesRoom (rspInput wide write).2 = true ∨
      ∀ wide', s.owesRespRetry wide' = true → .respRetry wide' ∈ s'.outputs

/-- What a function of the interface does to the flags, apart from denials: it keeps the invariant, clears no flag
without its retry and denies nobody. -/
structure Keeps (cfg : NiConfig) (s s' : NetworkInterfaceV2) : Prop where
  inv : FlagInv cfg s → FlagInv cfg s'
  notifies : Notifies s s'
  outputs : ∃ os, s'.outputs = s.outputs ++ os ∧ ∀ o ∈ os, o.isDenial = false

variable {cfg : NiConfig} {env : Env} {s s' s'' : NetworkInterfaceV2}

theorem Keeps.refl (s : NetworkInterfaceV2) : Keeps cfg s s where
  inv := id
  notifies := ⟨fun _ h => .inl h, fun _ _ h => .inl h, fun _ _ h => .inl h, fun _ h => .inl h, fun _ _ h => .inl h⟩
  outputs := ⟨[], by simp⟩

variable {o : Output}

theorem Keeps.mem_outputs (h : Keeps cfg s s') (ho : o ∈ s.outputs) : o ∈ s'.outputs := by
  obtain ⟨os, hos, -⟩ := h.outputs
  rw [hos]
  exact mem_append_left _ ho

theorem Keeps.trans (h : Keeps cfg s s') (h' : Keeps cfg s' s'') : Keeps cfg s s'' where
  inv hs := h'.inv (h.inv hs)
  notifies := by
    refine ⟨fun wide hf => ?_, fun wide write hf => ?_, fun wide write hf => ?_, fun wide hf => ?_,
      fun wide write hf => ?_⟩
    · rcases h.notifies.input wide hf with hf | ho
      · exact h'.notifies.input wide hf
      · exact .inr (h'.mem_outputs ho)
    · rcases h.notifies.id wide write hf with hf | ho
      · exact h'.notifies.id wide write hf
      · exact .inr (h'.mem_outputs ho)
    · rcases h.notifies.room wide write hf with hf | ho
      · exact h'.notifies.room wide write hf
      · exact .inr (h'.mem_outputs ho)
    · rcases h.notifies.resp wide hf with hf | ho
      · exact h'.notifies.resp wide hf
      · exact .inr (h'.mem_outputs ho)
    · rcases h.notifies.rspRoom wide write hf with hf | ho
      · rcases h'.notifies.rspRoom wide write hf with hf | ho
        · exact .inl hf
        · refine .inr fun wide' hf' => ?_
          rcases h.notifies.resp wide' hf' with hf' | ho'
          · exact ho wide' hf'
          · exact h'.mem_outputs ho'
      · exact .inr fun wide' hf' => h'.mem_outputs (ho wide' hf')
  outputs := by
    obtain ⟨os, hos, hno⟩ := h.outputs
    obtain ⟨os', hos', hno'⟩ := h'.outputs
    refine ⟨os ++ os', by rw [hos', hos, append_assoc], fun o ho => ?_⟩
    rcases mem_append.1 ho with ho | ho
    · exact hno o ho
    · exact hno' o ho

/-- The flags, and what they wait for. -/
structure SameFlags (s s' : NetworkInterfaceV2) : Prop where
  queue : s'.queue = s.queue
  owesRetryInput : s'.owesRetryInput = s.owesRetryInput
  owesIdRetry : s'.owesIdRetry = s.owesIdRetry
  owesRespRetry : s'.owesRespRetry = s.owesRespRetry
  nbPendingBursts : s'.nbPendingBursts = s.nbPendingBursts
  idTxns : s'.idTxns = s.idTxns
  fsmTodo : s'.fsmTodo = s.fsmTodo
  fsmEvent : s.fsmEvent = true → s'.fsmEvent = true

theorem Keeps.of_same (h : SameFlags s s') (hos : ∃ os, s'.outputs = s.outputs ++ os ∧ ∀ o ∈ os, o.isDenial = false) :
    Keeps cfg s s' where
  inv hs := by
    refine ⟨fun wide hf => ?_, fun wide write hf => ?_, ?_, ?_, ?_⟩
    · rw [h.owesRetryInput] at hf
      rw [h.nbPendingBursts]
      refine (hs.input wide hf).imp_right (Or.imp h.fsmEvent fun hp => ?_)
      rwa [h.fsmTodo]
    · rw [h.owesIdRetry] at hf
      rw [h.idTxns]
      refine (hs.id wide write hf).imp_right (Or.imp h.fsmEvent fun hp => ?_)
      rwa [h.fsmTodo]
    · rw [h.queue]
      exact hs.room
    · rw [h.queue, h.owesRespRetry]
      exact hs.resp
    · rw [h.idTxns]
      exact hs.idTxns_nonneg
  notifies := by
    refine ⟨fun wide hf => .inl ?_, fun wide write hf => .inl ?_, fun wide write hf => .inl ?_, fun wide hf => .inl ?_,
      fun wide write hf => .inl ?_⟩
    · rwa [h.owesRetryInput]
    · rwa [h.owesIdRetry]
    · rwa [h.queue]
    · rwa [h.owesRespRetry]
    · rwa [h.queue]
  outputs := hos

theorem Keeps.of_quiet (h : SameFlags s s') (hos : s'.outputs = s.outputs) : Keeps cfg s s' :=
  .of_same h ⟨[], by rw [hos, append_nil], fun o ho => by cases ho⟩

theorem keeps_enqueueFsm : Keeps cfg s s.enqueueFsm := .of_quiet ⟨rfl, rfl, rfl, rfl, rfl, rfl, rfl, fun _ => rfl⟩ rfl

theorem keeps_output (ho : o.isDenial = false) : Keeps cfg s (s.output o) :=
  .of_same ⟨rfl, rfl, rfl, rfl, rfl, rfl, rfl, id⟩ ⟨[o], rfl, by simpa using ho⟩

/-! ## The queues -/

theorem setQueue_queue (nw nw' : Nw) (q : NetworkQueueV2) :
    (s.setQueue nw q).queue nw' = if nw' = nw then q else s.queue nw' := update_apply _ _ _ _

variable {nw : Nw} {q : NetworkQueueV2}

/-- A queue that drops no flag, and whose flags still stand for full inputs. -/
theorem Keeps.of_queue (hroom : ∀ input, (s.queue nw).owesRoom input = true → q.owesRoom input = true)
    (hlen : ∀ input, q.owesRoom input = true →
      ((s.queue nw).owesRoom input = true → inputDepth ≤ ((s.queue nw).inputs input).length) →
      inputDepth ≤ (q.inputs input).length) : Keeps cfg s (s.setQueue nw q) := by
  have hkeep : ∀ nw' input, (s.queue nw').owesRoom input = true →
    ((s.setQueue nw q).queue nw').owesRoom input = true := by
    intro nw' input hf
    rw [setQueue_queue]
    split
    case isTrue heq => subst heq; exact hroom input hf
    case isFalse => exact hf
  refine ⟨fun hs => { hs with room := ?_, resp := ?_ }, ⟨fun _ h => .inl h, fun _ _ h => .inl h,
    fun _ _ h => .inl (hkeep _ _ h), fun _ h => .inl h, fun _ _ h => .inl (hkeep _ _ h)⟩, [], by simp [setQueue]⟩
  · intro nw' input hf
    rw [setQueue_queue] at hf ⊢
    split at hf
    case isTrue heq => subst heq; rw [if_pos rfl]; exact hlen input hf (hs.room _ input)
    case isFalse hne => rw [if_neg hne]; exact hs.room nw' input hf
  · intro wide hf
    obtain ⟨p, hp, hroom⟩ := hs.resp wide hf
    exact ⟨p, hp, hkeep _ _ hroom⟩

variable {input : Nat}

theorem keeps_push {flits : List Flit} :
    Keeps cfg s (s.setQueue nw ((s.queue nw).push input flits)) := by
  refine .of_queue (fun _ h => h) fun input' hf hlen => (hlen hf).trans ?_
  show _ ≤ (update (s.queue nw).inputs input _ input').length
  rw [update_apply]
  split
  case isTrue heq => subst heq; simp
  case isFalse => exact le_rfl

theorem keeps_reserve : Keeps cfg s (s.setQueue nw ((s.queue nw).reserve input).2) := by
  rw [NetworkQueueV2.reserve]
  split
  case isTrue => exact .of_queue (fun _ h => h) fun _ hf hlen => hlen hf
  case isFalse hfull =>
    refine .of_queue (fun input' hf => ?_) fun input' hf hlen => ?_
    · show update (s.queue nw).owesRoom input true input' = true
      rw [update_apply]
      split
      · rfl
      · exact hf
    · replace hf : update (s.queue nw).owesRoom input true input' = true := hf
      rw [update_apply] at hf
      split at hf
      case isTrue heq => subst heq; exact not_lt.1 hfull
      case isFalse => exact hlen hf

theorem keeps_unstall : Keeps cfg s (s.unstall env nw) := by
  have hq : Keeps cfg s (s.setQueue nw { s.queue nw with stalled := false, unstallCycle := env.now }) :=
    .of_queue (fun _ h => h) fun _ hf hlen => hlen hf
  exact hq.trans keeps_enqueueFsm

@[simp] theorem inputRoom_carrier (wide write : Bool) :
    s.inputRoom (carrier wide write).1 (carrier wide write).2 =
      s.output (.retry wide (if write then .write else .read)) := by
  cases wide <;> cases write <;> simp [inputRoom, carrier] <;> rfl

theorem respRetry_both (hs : s' = (s.respRetry false).respRetry true) :
    s'.owesRespRetry = (fun _ => false) ∧ s'.queue = s.queue ∧ s'.owesRetryInput = s.owesRetryInput ∧
      s'.owesIdRetry = s.owesIdRetry ∧ s'.nbPendingBursts = s.nbPendingBursts ∧ s'.idTxns = s.idTxns ∧
      s'.fsmEvent = s.fsmEvent ∧ s'.fsmTodo = s.fsmTodo ∧
      (∃ os, s'.outputs = s.outputs ++ os ∧ ∀ o ∈ os, o.isDenial = false) ∧
      ∀ wide, s.owesRespRetry wide = true → Output.respRetry wide ∈ s'.outputs := by
  subst hs
  cases hf : s.owesRespRetry false <;> cases ht : s.owesRespRetry true <;>
    simp [respRetry, output, hf, ht, Output.isDenial, funext_iff]

theorem keeps_inputRoom (hroom : q.owesRoom = update (s.queue nw).owesRoom input false)
    (hlen : ∀ input', input' ≠ input → q.inputs input' = (s.queue nw).inputs input') :
    Keeps cfg s ((s.setQueue nw q).inputRoom nw input) := by
  have hset : ∀ nw' input', ¬(nw' = nw ∧ input' = input) →
      ((s.setQueue nw q).queue nw').owesRoom input' = (s.queue nw').owesRoom input' ∧
        ((s.setQueue nw q).queue nw').inputs input' = (s.queue nw').inputs input' := by
    intro nw' input' hne
    rw [setQueue_queue]
    split
    case isTrue heq =>
      subst heq
      have hin : input' ≠ input := fun h => hne ⟨rfl, h⟩
      rw [hroom, update_of_ne hin, hlen input' hin]
      exact ⟨rfl, rfl⟩
    case isFalse => exact ⟨rfl, rfl⟩
  have hclear : ((s.setQueue nw q).queue nw).owesRoom input = false := by
    rw [setQueue_queue, if_pos rfl, hroom, update_self]
  -- the flags that are left stand for the inputs they stood for
  have hfull : FlagInv cfg s → ∀ nw' input', ((s.setQueue nw q).queue nw').owesRoom input' = true →
      inputDepth ≤ (((s.setQueue nw q).queue nw').inputs input').length := by
    intro hs nw' input' hf
    by_cases heq : nw' = nw ∧ input' = input
    · obtain ⟨rfl, rfl⟩ := heq
      rw [hclear] at hf
      cases hf
    · obtain ⟨hr, hi⟩ := hset nw' input' heq
      rw [hr] at hf
      rw [hi]
      exact hs.room nw' input' hf
  by_cases hreq : nw = .req ∨ (nw = .wide ∧ input = inWideW)
  · have hrsp : ∀ wide write, ¬((rspInput wide write).1 = nw ∧ (rspInput wide write).2 = input) := by
      intro wide write
      rcases hreq with rfl | ⟨rfl, rfl⟩ <;> cases wide <;> cases write <;> simp [rspInput]
    rw [inputRoom, if_pos hreq]
    refine ⟨fun hs => { hs with room := hfull hs, resp := fun wide hf => ?_ },
      ⟨fun _ h => .inl h, fun _ _ h => .inl h, fun wide write hf => ?_, fun _ h => .inl h,
        fun wide write hf => .inl ?_⟩,
      [_], rfl, by simp [Output.isDenial]⟩
    · obtain ⟨p, hp, hf⟩ := hs.resp wide hf
      refine ⟨p, hp, ?_⟩
      have hp' : p = rspInput wide false ∨ p = rspInput wide true := by simpa [rspInputs] using hp
      have hne : ¬(p.1 = nw ∧ p.2 = input) := by
        rcases hp' with rfl | rfl
        · exact hrsp wide false
        · exact hrsp wide true
      exact (hset p.1 p.2 hne).1.trans hf
    · by_cases heq : (carrier wide write).1 = nw ∧ (carrier wide write).2 = input
      · obtain ⟨rfl, rfl⟩ := heq
        have hout := @inputRoom_carrier (s.setQueue (carrier wide write).1 q) wide write
        rw [inputRoom, if_pos hreq] at hout
        rw [hout]
        exact .inr (by simp [output])
      · exact .inl ((hset _ _ heq).1.trans hf)
    · exact (hset _ _ (hrsp wide write)).1.trans hf
  · have hcar : ∀ wide write, ¬((carrier wide write).1 = nw ∧ (carrier wide write).2 = input) := by
      rintro wide write ⟨rfl, rfl⟩
      apply hreq
      cases wide <;> cases write <;> simp [carrier]
    rw [inputRoom, if_neg hreq]
    generalize hs' : ((s.setQueue nw q).respRetry false).respRetry true = s'
    obtain ⟨hresp, hqueue, hin, hid, hnb, hids, hev, htodo, hos, hretry⟩ := respRetry_both hs'.symm
    refine ⟨fun hs => ⟨fun wide hf => ?_, fun wide write hf => ?_, ?_, fun wide hf => ?_, ?_⟩,
      ⟨fun wide hf => .inl ?_, fun wide write hf => .inl ?_, fun wide write hf => .inl ?_,
        fun wide hf => .inr (hretry wide hf), fun _ _ _ => .inr hretry⟩, hos⟩
    · rw [hin] at hf
      rw [hnb, Scheduled, hev, htodo]
      exact hs.input wide hf
    · rw [hid] at hf
      rw [hids, Scheduled, hev, htodo]
      exact hs.id wide write hf
    · rw [hqueue]
      exact hfull hs
    · rw [hresp] at hf
      cases hf
    · rw [hids]
      exact hs.idTxns_nonneg
    · rwa [hin]
    · rwa [hid]
    · rw [hqueue, (hset _ _ (hcar wide write)).1]
      exact hf

theorem setQueue_setQueue {q' : NetworkQueueV2} : (s.setQueue nw q).setQueue nw q' = s.setQueue nw q' := by
  simp [setQueue]

variable {flit : Flit}

theorem keeps_countInjected : Keeps cfg s (s.countInjected flit) := by
  rw [countInjected]
  split
  · exact .refl s
  · exact .of_quiet ⟨rfl, rfl, rfl, rfl, rfl, rfl, rfl, fun h => by simp [h]⟩ rfl

theorem setQueue_countInjected :
    (s.setQueue nw q).countInjected flit = (s.countInjected flit).setQueue nw q := by
  rw [countInjected, countInjected]
  split <;> rfl

/-- A flit goes on the link: the flags of its queue change only where the producer of its input is told. -/
theorem keeps_notifyRoom (hroom : q.owesRoom = (s.queue nw).owesRoom)
    (hlen : ∀ input', input' ≠ input → q.inputs input' = (s.queue nw).inputs input') :
    Keeps cfg s ((s.setQueue nw q).notifyRoom nw input) := by
  have hq : (s.setQueue nw q).queue nw = q := by rw [setQueue_queue, if_pos rfl]
  rw [notifyRoom, hq]
  split
  case isTrue =>
    rw [setQueue_setQueue]
    exact keeps_inputRoom (by rw [hroom]) hlen
  case isFalse hno =>
    refine .of_queue (fun input' hf => by rwa [hroom]) fun input' hf hold => ?_
    by_cases heq : input' = input
    · subst heq
      exact not_lt.1 fun hlt => hno ⟨hf, hlt⟩
    · rw [hlen input' heq]
      rw [hroom] at hf
      exact hold hf

theorem keeps_sendRouterReq : Keeps cfg s (s.sendRouterReq env nw input) := by
  rw [sendRouterReq]
  split
  case h_1 => exact .refl s
  case h_2 flit rest hinputs =>
    dsimp only
    rw [setQueue_countInjected]
    generalize hq : sentQueue env (s.queue nw) nw input flit rest = q
    have hroom : q.owesRoom = (s.queue nw).owesRoom := by rw [← hq]; rfl
    have hlen : ∀ input', input' ≠ input → q.inputs input' = (s.queue nw).inputs input' := by
      intro input' hne
      rw [← hq]
      exact update_of_ne hne _ _
    have hcount : (s.countInjected flit).queue = s.queue := by rw [countInjected]; split <;> rfl
    have hkeep : Keeps cfg s ((s.countInjected flit).output (.link nw flit)) :=
      keeps_countInjected.trans (keeps_output rfl)
    split
    case isTrue => exact (hkeep.trans keeps_enqueueFsm).trans (keeps_notifyRoom (by rw [hroom, ← hcount]; rfl)
      (by rwa [← hcount] at hlen))
    case isFalse => exact hkeep.trans (keeps_notifyRoom (by rw [hroom, ← hcount]; rfl) (by rwa [← hcount] at hlen))

theorem keeps_check : Keeps cfg s (s.check env nw) := by
  rw [check]
  split
  case h_1 => exact .refl s
  case h_2 =>
    split
    · exact .refl s
    · split
      · exact keeps_enqueueFsm
      · exact keeps_sendRouterReq

/-! ## Requests for the targets -/

theorem keeps_queueRsp : Keeps cfg s (s.queueRsp env nw input flit) :=
  (keeps_push.trans keeps_enqueueFsm).trans keeps_check

theorem keeps_endTarget : Keeps cfg s (s.endTarget flit) := by
  rw [endTarget]
  split
  · exact .of_quiet ⟨rfl, rfl, rfl, rfl, rfl, rfl, rfl, fun _ => rfl⟩ rfl
  · exact .refl s

theorem keeps_handleResponse : Keeps cfg s (s.handleResponse env flit) := by
  rw [handleResponse]
  dsimp only
  have hmem : ∀ mem, Keeps cfg s { s with mem := mem } := fun mem =>
    .of_quiet ⟨rfl, rfl, rfl, rfl, rfl, rfl, rfl, id⟩ rfl
  split
  · exact (hmem _).trans keeps_endTarget
  · exact ((hmem _).trans keeps_queueRsp).trans keeps_endTarget

variable {wide : Bool}

theorem keeps_hold {held : Option HeldReq} : Keeps cfg s (s.hold wide nw held) :=
  .of_quiet ⟨rfl, rfl, rfl, rfl, rfl, rfl, rfl, id⟩ rfl

theorem keeps_beginTarget : Keeps cfg s (s.beginTarget flit) := by
  rw [beginTarget]
  split
  · exact .of_quiet ⟨rfl, rfl, rfl, rfl, rfl, rfl, rfl, id⟩ rfl
  · exact .refl s

theorem keeps_sendToTarget : Keeps cfg s (s.sendToTarget env wide nw flit).2 := by
  have hout : Keeps cfg s (s.output (.target wide nw flit (env.target wide nw))) := keeps_output rfl
  rw [sendToTarget]
  split
  · exact hout
  · exact hout
  · split
    · exact hout.trans (.of_quiet ⟨rfl, rfl, rfl, rfl, rfl, rfl, rfl, fun _ => rfl⟩ rfl)
    · exact hout.trans keeps_handleResponse

theorem keeps_forwardToTarget : Keeps cfg s (s.forwardToTarget cfg env flit nw).2 := by
  have hassert : Keeps cfg s (if (s.held flit.wide nw).isSome then s.output (.stalledLink nw flit) else s) := by
    split
    · exact keeps_output rfl
    · exact .refl s
  rw [forwardToTarget]
  generalize (if (s.held flit.wide nw).isSome then s.output (.stalledLink nw flit) else s) = t at hassert ⊢
  split
  · exact hassert.trans keeps_hold
  · have hsend : Keeps cfg s ((t.beginTarget flit).sendToTarget env flit.wide nw (makeTargetReq flit)).2 :=
      (hassert.trans keeps_beginTarget).trans keeps_sendToTarget
    dsimp only
    split
    · exact hsend.trans keeps_hold
    · exact hsend

theorem keeps_forwardHeldFlit : Keeps cfg s (s.forwardHeldFlit cfg env wide nw) := by
  rw [forwardHeldFlit]
  split
  case h_1 flit _ =>
    have hfwd : Keeps cfg s ((s.hold wide nw none).forwardToTarget cfg env flit nw).2 :=
      keeps_hold.trans keeps_forwardToTarget
    dsimp only
    split
    · exact hfwd
    · exact hfwd.trans (keeps_output rfl)
  case h_2 => exact .refl s

theorem keeps_forwardHeld : Keeps cfg s (s.forwardHeld cfg env) := by
  rw [forwardHeld]
  generalize heldSlots = slots
  induction slots generalizing s with
  | nil => exact .refl s
  | cons slot slots ih => exact keeps_forwardHeldFlit.trans ih

theorem keeps_retryFlit : Keeps cfg s (retryFlit env wide s nw) := by
  rw [retryFlit]
  split
  case h_1 flit _ =>
    dsimp only
    split
    · exact keeps_sendToTarget
    · exact (keeps_sendToTarget.trans keeps_hold).trans (keeps_output rfl)
  case h_2 => exact .refl s

theorem keeps_retryTarget : Keeps cfg s (s.retryTarget env wide) := by
  rw [retryTarget]
  exact ((keeps_retryFlit.trans keeps_retryFlit).trans keeps_retryFlit).trans keeps_enqueueFsm

/-! ## Requests and responses of the initiators -/

/-- What the accounting of a response changes: the counters and the outputs, nobody being denied. The handler is woken
afterwards, so that no flag has to be blocked any more. -/
theorem keeps_answered {t : NetworkInterfaceV2} (hqueue : t.queue = s.queue) (hin : t.owesRetryInput = s.owesRetryInput)
    (hid : t.owesIdRetry = s.owesIdRetry) (hresp : t.owesRespRetry = s.owesRespRetry)
    (hids : (∀ wide write, 0 ≤ s.idTxns wide write) → ∀ wide write, 0 ≤ t.idTxns wide write)
    (hos : ∃ os, t.outputs = s.outputs ++ os ∧ ∀ o ∈ os, o.isDenial = false) : Keeps cfg s t.enqueueFsm where
  inv hs := by
    refine ⟨fun _ _ => .inr (.inl rfl), fun _ _ _ => .inr (.inl rfl), ?_, ?_, hids hs.idTxns_nonneg⟩
    · show ∀ nw input, (t.queue nw).owesRoom input = true → _ ≤ ((t.queue nw).inputs input).length
      rw [hqueue]
      exact hs.room
    · show ∀ wide, t.owesRespRetry wide = true → ∃ p ∈ rspInputs wide, (t.queue p.1).owesRoom p.2 = true
      rw [hqueue, hresp]
      exact hs.resp
  notifies := by
    refine ⟨fun wide hf => .inl ?_, fun wide write hf => .inl ?_, fun wide write hf => .inl ?_, fun wide hf => .inl ?_,
      fun wide write hf => .inl ?_⟩
    · show t.owesRetryInput wide = true
      rwa [hin]
    · show t.owesIdRetry wide write = true
      rwa [hid]
    · show (t.queue _).owesRoom _ = true
      rwa [hqueue]
    · show t.owesRespRetry wide = true
      rwa [hresp]
    · show (t.queue _).owesRoom _ = true
      rwa [hqueue]
  outputs := hos

theorem set₂_apply {α β γ : Type*} [DecidableEq α] [DecidableEq β] (f : α → β → γ) (a a' : α) (b b' : β) (v : γ) :
    set₂ f a b v a' b' = if a' = a ∧ b' = b then v else f a' b' := rfl

variable {write : Bool}

theorem idTxns_countAnswered_nonneg (h : ∀ wide write, 0 ≤ s.idTxns wide write) (wide' write' : Bool) :
    0 ≤ (s.countAnswered wide write).idTxns wide' write' := by
  rw [countAnswered, idTxnDone]
  split
  case isTrue hpos =>
    show 0 ≤ set₂ _ _ _ _ _ _
    rw [set₂_apply]
    split
    · exact Int.sub_nonneg_of_le hpos
    · exact h wide' write'
  case isFalse => exact h wide' write'

theorem countAnswered_eq :
    ∃ nb ids, s.countAnswered wide write = { s with nbPendingBursts := nb, idTxns := ids } := by
  rw [countAnswered, idTxnDone]
  split
  · exact ⟨_, _, rfl⟩
  · exact ⟨_, _, rfl⟩

theorem keeps_countAnswered (ho : o.isDenial = false) {mem : Nat → IoReq} {wrBursts : Bool → Int → Option WrTrack} :
    Keeps cfg s (({ s with mem := mem, wrBursts := wrBursts }.countAnswered wide write).output o).enqueueFsm := by
  obtain ⟨nb, ids, heq⟩ := @countAnswered_eq { s with mem := mem, wrBursts := wrBursts } wide write
  refine keeps_answered ?_ ?_ ?_ ?_ (fun h => ?_) ⟨[o], ?_, by simpa using ho⟩
  · rw [heq]; rfl
  · rw [heq]; rfl
  · rw [heq]; rfl
  · rw [heq]; rfl
  · exact idTxns_countAnswered_nonneg h
  · rw [heq]; rfl

theorem keeps_linkB {burstId : Int} {size : Nat} {t : WrTrack} :
    Keeps cfg s (s.linkB wide burstId size flit t).enqueueFsm := by
  rw [linkB]
  split
  · exact @keeps_countAnswered _ _ _ _ _ rfl s.mem _
  · exact .of_quiet ⟨rfl, rfl, rfl, rfl, rfl, rfl, rfl, fun _ => rfl⟩ rfl

theorem keeps_linkRsp (h : s.linkRsp flit = some s') : Keeps cfg s s' := by
  rw [linkRsp] at h
  dsimp only at h
  split at h
  case h_1 =>
    generalize (if flit.ownsBeat = true then flit.burstId else (s.mem flit.burst).burstId) = burstId at h
    split at h
    · cases h
      exact @keeps_countAnswered _ s _ _ _ rfl s.mem s.wrBursts
    · rw [map_eq_some_iff] at h
      obtain ⟨t, -, rfl⟩ := h
      exact keeps_linkB
  case h_2 =>
    cases h
    exact @keeps_countAnswered _ s _ _ _ rfl s.mem s.wrBursts
  case h_3 =>
    cases h
    split
    · exact @keeps_countAnswered _ s _ _ _ rfl _ s.wrBursts
    · exact .of_same ⟨rfl, rfl, rfl, rfl, rfl, rfl, rfl, fun _ => rfl⟩ ⟨[_], rfl, by simp [Output.isDenial]⟩

theorem keeps_linkReq (h : s.linkReq cfg env nw flit = some s') : Keeps cfg s s' := by
  rw [linkReq] at h
  split at h
  · rw [map_eq_some_iff] at h
    obtain ⟨s₁, h₁, rfl⟩ := h
    exact (keeps_linkRsp h₁).trans (keeps_output rfl)
  · split at h
    · cases h
      exact keeps_output rfl
    · cases h
      exact keeps_forwardToTarget.trans (keeps_output rfl)

variable {req : IoReq}

theorem keeps_enqueueRouterReq {isAddress : Bool} :
    Keeps cfg s (s.enqueueRouterReq cfg nw req isAddress wide input) := by
  rw [enqueueRouterReq]
  generalize requestFlits cfg req isAddress wide (cfg.width nw) req.size req.addr req.size req.data none = r
  obtain ⟨flits, complete⟩ := r
  dsimp only
  have hack : Keeps cfg s (s.ackSilent wide req flits) := .of_quiet ⟨rfl, rfl, rfl, rfl, rfl, rfl, rfl, id⟩ rfl
  have hpush : Keeps cfg (s.ackSilent wide req flits)
      ((s.ackSilent wide req flits).setQueue nw ((s.queue nw).push input flits)) := keeps_push
  split
  · exact (hack.trans hpush).trans (.of_quiet ⟨rfl, rfl, rfl, rfl, rfl, rfl, rfl, fun _ => rfl⟩ rfl)
  · exact (hack.trans hpush).trans (.of_quiet ⟨rfl, rfl, rfl, rfl, rfl, rfl, rfl, id⟩ rfl)

theorem keeps_queueReq :
    Keeps cfg s (s.queueReq cfg env nw req wide input) := by
  have hif : ∀ (c : Bool) (t : NetworkInterfaceV2) (isAddress : Bool),
      Keeps cfg t (if c then t.enqueueRouterReq cfg nw req isAddress wide input else t) := by
    intro c t isAddress
    split
    · exact keeps_enqueueRouterReq
    · exact .refl t
  rw [queueReq]
  exact ((hif _ s true).trans (hif _ _ false)).trans keeps_check

theorem keeps_countGranted : Keeps cfg s (s.countGranted cfg wide req) := by
  have hnb : ∀ wide', s.nbPendingBursts wide' ≤
      update s.nbPendingBursts wide (s.nbPendingBursts wide + 1) wide' := by
    intro wide'
    rw [update_apply]
    split
    case isTrue heq => subst heq; omega
    case isFalse => exact Int.le_refl _
  have hids : ∀ wide' write', s.idTxns wide' write' ≤
      set₂ s.idTxns wide req.opcode.isWrite (s.idTxns wide req.opcode.isWrite + 1) wide' write' := by
    intro wide' write'
    rw [set₂_apply]
    split
    case isTrue heq => obtain ⟨rfl, rfl⟩ := heq; omega
    case isFalse => exact Int.le_refl _
  have hno : ∃ os, s.outputs = s.outputs ++ os ∧ ∀ o ∈ os, o.isDenial = false := ⟨[], by simp⟩
  have hflags : Notifies s s := (@Keeps.refl cfg s).notifies
  rw [countGranted]
  split
  · exact .refl s
  · split
    · exact ⟨fun hs => { hs with
        input := fun wide' hf => (hs.input wide' hf).imp_left fun h => Int.le_trans h (hnb wide') },
        { hflags with }, hno⟩
    · exact ⟨fun hs => ⟨fun wide' hf => (hs.input wide' hf).imp_left fun h => Int.le_trans h (hnb wide'),
        fun wide' write' hf => (hs.id wide' write' hf).imp_left fun h => Int.lt_of_lt_of_le h (hids wide' write'),
        hs.room, hs.resp, fun wide' write' => Int.le_trans (hs.idTxns_nonneg wide' write') (hids wide' write')⟩,
        { hflags with }, hno⟩

theorem keeps_trackWrite (h : s.trackWrite wide req = some s') : Keeps cfg s s' := by
  rw [trackWrite] at h
  split at h
  · cases h
    exact .refl s
  · split at h
    · cases h
    · split at h
      · split at h
        · cases h
          exact .of_quiet ⟨rfl, rfl, rfl, rfl, rfl, rfl, rfl, id⟩ rfl
        · cases h
      · split at h
        · cases h
        · cases h
          exact .of_quiet ⟨rfl, rfl, rfl, rfl, rfl, rfl, rfl, id⟩ rfl

/-! ## Denials -/

/-- A flag covers the requests of a direction on a port. -/
def NetworkInterfaceV2.OwesRequest (s : NetworkInterfaceV2) (wide write : Bool) : Prop :=
  s.owesRetryInput wide = true ∨ s.owesIdRetry wide write = true ∨
    (s.queue (carrier wide write).1).owesRoom (carrier wide write).2 = true

/-- The flags cover the responses of a target to the requests of a direction. -/
def NetworkInterfaceV2.OwesResponse (s : NetworkInterfaceV2) (wide write : Bool) : Prop :=
  s.owesRespRetry wide = true ∧ (s.queue (rspInput wide write).1).owesRoom (rspInput wide write).2 = true

/-- What an event does to the flags: who it denies has one. -/
structure EventSpec (cfg : NiConfig) (s s' : NetworkInterfaceV2) : Prop where
  inv : FlagInv cfg s → FlagInv cfg s'
  notifies : Notifies s s'
  request : ∀ wide write, (∃ o ∈ s'.outputs, denies wide write o = true) → s'.OwesRequest wide write
  response : ∀ wide write, (∃ o ∈ s'.outputs, deniesRsp wide write o = true) → s'.OwesResponse wide write

theorem isDenial_of_denies (h : denies wide write o = true) : o.isDenial = true := by
  unfold denies at h
  split at h
  · rfl
  · cases h

theorem isDenial_of_deniesRsp (h : deniesRsp wide write o = true) :
    o.isDenial = true := by
  unfold deniesRsp at h
  split at h
  · rfl
  · cases h

theorem Keeps.event (h : Keeps cfg s s') (hs : s.outputs = []) : EventSpec cfg s s' := by
  obtain ⟨os, hos, hno⟩ := h.outputs
  rw [hs, nil_append] at hos
  refine ⟨h.inv, h.notifies, ?_, ?_⟩
  · rintro wide write ⟨o, ho, hd⟩
    rw [hos] at ho
    have := (isDenial_of_denies hd).symm.trans (hno o ho)
    cases this
  · rintro wide write ⟨o, ho, hd⟩
    rw [hos] at ho
    have := (isDenial_of_deniesRsp hd).symm.trans (hno o ho)
    cases this

section

variable (hs : s.outputs = []) (h : Keeps cfg s s') (hos : s'.outputs = s.outputs)
include hs h hos

/-- A request or a response is denied: what covers it is set, and the other flags are as they were. -/
theorem EventSpec.of_denied (hreq : ∀ wide write, denies wide write o = true → s'.OwesRequest wide write)
    (hrsp : ∀ wide write, deniesRsp wide write o = true → s'.OwesResponse wide write) :
    EventSpec cfg s (s'.output o) := by
  have hout : (s'.output o).outputs = [o] := by
    rw [output, hos, hs]
    rfl
  have hnone : ∀ o, o ∉ s'.outputs := by rw [hos, hs]; exact fun o ho => by cases ho
  refine ⟨fun hi => ?_, ⟨fun wide hf => (h.notifies.input wide hf).imp_right fun ho => absurd ho (hnone _),
      fun wide write hf => (h.notifies.id wide write hf).imp_right fun ho => absurd ho (hnone _),
      fun wide write hf => (h.notifies.room wide write hf).imp_right fun ho => absurd ho (hnone _),
      fun wide hf => (h.notifies.resp wide hf).imp_right fun ho => absurd ho (hnone _),
      fun wide write hf => (h.notifies.rspRoom wide write hf).imp_right fun ho wide' hf' => absurd
        (ho wide' hf') (hnone _)⟩,
    ?_, ?_⟩
  · have hinv := h.inv hi
    exact { hinv with }
  · rintro wide write ⟨o', ho, hd⟩
    rw [hout, mem_singleton] at ho
    subst ho
    exact hreq wide write hd
  · rintro wide write ⟨o', ho, hd⟩
    rw [hout, mem_singleton] at ho
    subst ho
    exact hrsp wide write hd

theorem EventSpec.of_deniedReq (howes : s'.OwesRequest wide req.opcode.isWrite) :
    EventSpec cfg s (s'.output (.reqStatus wide req false)) := by
  refine .of_denied hs h hos (fun wide' write' hd => ?_) fun wide' write' hd => by cases hd
  rw [denies, and_eq_true, beq_iff_eq, beq_iff_eq] at hd
  obtain ⟨rfl, rfl⟩ := hd
  exact howes

theorem EventSpec.of_deniedRsp (howes : s'.OwesResponse wide flit.opcode.isWrite) :
    EventSpec cfg s (s'.output (.respAck wide flit false)) := by
  refine .of_denied hs h hos (fun wide' write' hd => by cases hd) fun wide' write' hd => ?_
  rw [deniesRsp, and_eq_true, beq_iff_eq, beq_iff_eq] at hd
  obtain ⟨rfl, rfl⟩ := hd
  exact howes

end

theorem keeps_owesRetryInput (hfull : cfg.niOutstandingReqs ≤ s.nbPendingBursts wide) :
    Keeps cfg s { s with owesRetryInput := update s.owesRetryInput wide true } := by
  refine ⟨fun hs => { hs with input := fun wide' hf => ?_ },
    ⟨fun wide' hf => .inl ?_, fun _ _ h => .inl h, fun _ _ h => .inl h, fun _ h => .inl h, fun _ _ h => .inl h⟩, [], by
      simp⟩
  · replace hf : update s.owesRetryInput wide true wide' = true := hf
    rw [update_apply] at hf
    split at hf
    case isTrue heq => subst heq; exact .inl hfull
    case isFalse => exact hs.input wide' hf
  · show update s.owesRetryInput wide true wide' = true
    rw [update_apply, hf, ite_self]

theorem keeps_owesIdRetry (hpos : 0 < s.idTxns wide write) :
    Keeps cfg s { s with owesIdRetry := set₂ s.owesIdRetry wide write true } := by
  refine ⟨fun hs => { hs with id := fun wide' write' hf => ?_ },
    ⟨fun _ h => .inl h, fun wide' write' hf => .inl ?_, fun _ _ h => .inl h, fun _ h => .inl h, fun _ _ h => .inl h⟩,
      [], by simp⟩
  · replace hf : set₂ s.owesIdRetry wide write true wide' write' = true := hf
    rw [set₂_apply] at hf
    split at hf
    case isTrue heq => obtain ⟨rfl, rfl⟩ := heq; exact .inl hpos
    case isFalse => exact hs.id wide' write' hf
  · show set₂ s.owesIdRetry wide write true wide' write' = true
    rw [set₂_apply, hf, ite_self]

theorem reserve_false (h : (q.reserve input).1 = false) :
    (q.reserve input).2.owesRoom input = true := by
  rw [NetworkQueueV2.reserve] at h ⊢
  split at h
  · cases h
  case isFalse hfull =>
    rw [if_neg hfull]
    exact update_self _ _ _

theorem handleReq_event (hs : s.outputs = []) (h : s.handleReq cfg env wide req = some s') : EventSpec cfg s s' := by
  have hmem : Keeps cfg s (s.storeReq req) := .of_quiet ⟨rfl, rfl, rfl, rfl, rfl, rfl, rfl, id⟩ rfl
  have hto : (s.storeReq req).outputs = s.outputs := rfl
  rw [handleReq] at h
  dsimp only at h
  generalize s.storeReq req = t at h hmem hto
  split at h
  case isTrue hlimit =>
    -- the outstanding limit
    cases h
    rw [and_eq_true, decide_eq_true_eq] at hlimit
    refine .of_deniedReq hs (hmem.trans (keeps_owesRetryInput hlimit.2)) hto (.inl ?_)
    exact update_self _ _ _
  case isFalse =>
    split at h
    case isTrue hid =>
      -- the ID is in flight to another destination
      cases h
      rw [and_eq_true, otherDest] at hid
      have hpos : 0 < t.idTxns wide req.opcode.isWrite := by
        have hid := hid.2
        split at hid
        · cases hid
        · rw [and_eq_true, decide_eq_true_eq] at hid
          exact hid.1
      refine .of_deniedReq hs (hmem.trans (keeps_owesIdRetry hpos)) hto (.inr (.inl ?_))
      show set₂ _ _ _ _ _ _ = true
      rw [set₂_apply, if_pos ⟨rfl, rfl⟩]
    case isFalse =>
      have hres : Keeps cfg s (t.setQueue (carrier wide req.opcode.isWrite).1
          ((t.queue (carrier wide req.opcode.isWrite).1).reserve (carrier wide req.opcode.isWrite).2).2) :=
        hmem.trans keeps_reserve
      split at h
      case isTrue hfull =>
        -- the arbiter input is full
        cases h
        rw [not_eq_true'] at hfull
        refine .of_deniedReq hs hres hto (.inr (.inr ?_))
        rw [setQueue_queue, if_pos rfl]
        exact reserve_false hfull
      case isFalse =>
        rw [map_eq_some_iff] at h
        obtain ⟨s₁, h₁, rfl⟩ := h
        have hgranted : Keeps cfg s s₁ := (hres.trans keeps_countGranted).trans (keeps_trackWrite h₁)
        have hpending : Keeps cfg s₁ { s₁ with pendingBurst := set₂ s₁.pendingBurst wide req.opcode.isWrite true } :=
          .of_quiet ⟨rfl, rfl, rfl, rfl, rfl, rfl, rfl, id⟩ rfl
        exact ((((hgranted.trans hpending).trans keeps_queueReq).trans keeps_enqueueFsm).trans (keeps_output rfl)).event
          hs

theorem keeps_owesRespRetry (hroom : (s.queue (rspInput wide write).1).owesRoom (rspInput wide write).2 = true) :
    Keeps cfg s { s with owesRespRetry := update s.owesRespRetry wide true } := by
  have hmem : rspInput wide write ∈ rspInputs wide := by cases write <;> simp [rspInputs]
  refine ⟨fun hs => { hs with resp := fun wide' hf => ?_ },
    ⟨fun _ h => .inl h, fun _ _ h => .inl h, fun _ _ h => .inl h, fun wide' hf => .inl ?_, fun _ _ h => .inl h⟩, [], by
      simp⟩
  · replace hf : update s.owesRespRetry wide true wide' = true := hf
    rw [update_apply] at hf
    split at hf
    case isTrue heq => subst heq; exact ⟨_, hmem, hroom⟩
    case isFalse => exact hs.resp wide' hf
  · show update s.owesRespRetry wide true wide' = true
    rw [update_apply, hf, ite_self]

theorem acceptResponse_spec {accepted : Bool} (h : s.acceptResponse cfg wide flit = (accepted, s')) :
    Keeps cfg s s' ∧ s'.outputs = s.outputs ∧
      (accepted = false → s'.OwesResponse wide flit.opcode.isWrite) := by
  rw [acceptResponse] at h
  split at h
  · cases h
    exact ⟨.refl s, rfl, fun h => by cases h⟩
  · split at h
    · cases h
      exact ⟨.refl s, rfl, fun h => by cases h⟩
    · dsimp only at h
      have hres : Keeps cfg s (s.setQueue (rspInput wide flit.opcode.isWrite).1
          ((s.queue (rspInput wide flit.opcode.isWrite).1).reserve (rspInput wide flit.opcode.isWrite).2).2) :=
            keeps_reserve
      split at h
      case isTrue =>
        cases h
        exact ⟨hres, rfl, fun h => by cases h⟩
      case isFalse hroom =>
        cases h
        have howes : ((s.setQueue (rspInput wide flit.opcode.isWrite).1
          ((s.queue (rspInput wide flit.opcode.isWrite).1).reserve
            (rspInput wide flit.opcode.isWrite).2).2).queue (rspInput wide flit.opcode.isWrite).1).owesRoom
              (rspInput wide flit.opcode.isWrite).2 = true := by
          rw [setQueue_queue, if_pos rfl]
          exact reserve_false (eq_false_iff.2 hroom)
        exact ⟨hres.trans (keeps_owesRespRetry howes), rfl, fun _ => ⟨update_self _ _ _, howes⟩⟩

/-- **A response** of a target, accepted or denied. -/
theorem response_event (hs : s.outputs = []) :
    EventSpec cfg s (s.response cfg env wide flit) := by
  rw [response]
  cases h : s.acceptResponse cfg wide flit with
  | mk accepted t =>
    obtain ⟨hkeep, hos, howes⟩ := acceptResponse_spec h
    cases accepted with
    | true => exact ((hkeep.trans keeps_handleResponse).trans (keeps_output rfl)).event hs
    | false => exact .of_deniedRsp hs hkeep hos (howes rfl)

/-! ## The handler -/

variable {todo : List FsmPhase}

variable {phase : FsmPhase} {e : Env × NiEvent}

theorem Scheduled.tail {phase' : FsmPhase} (hne : phase' ≠ phase)
    (h : { s with fsmTodo := phase :: todo }.Scheduled phase') : { s with fsmTodo := todo }.Scheduled phase' :=
  h.imp_right fun hp => (mem_cons.1 hp).resolve_left hne

theorem keeps_fsmPhase (hid : ∀ wide write, phase ≠ .idRetry wide write)
    (hin : ∀ wide, phase ≠ .inputRetry wide) : Keeps cfg s (s.fsmPhase cfg env phase) := by
  cases phase with
  | check nw => exact keeps_check
  | response =>
    rw [fsmPhase]
    split
    · exact .refl s
    case h_2 flit rest _ =>
      have hpop : Keeps cfg s { s with responseQueue := rest } := .of_quiet ⟨rfl, rfl, rfl, rfl, rfl, rfl, rfl, id⟩ rfl
      split
      · exact hpop.trans keeps_handleResponse
      · exact .refl s
  | forwardHeld =>
    rw [fsmPhase]
    split
    · have hclear : Keeps cfg s { s with forwardHeldPending := false } :=
        .of_quiet ⟨rfl, rfl, rfl, rfl, rfl, rfl, rfl, id⟩ rfl
      exact hclear.trans keeps_forwardHeld
    · exact .refl s
  | pendingBurst wide write =>
    rw [fsmPhase]
    split
    · exact .of_quiet ⟨rfl, rfl, rfl, rfl, rfl, rfl, rfl, fun _ => rfl⟩ rfl
    · exact .refl s
  | idRetry wide write => exact absurd rfl (hid wide write)
  | inputRetry wide => exact absurd rfl (hin wide)
  | triggerNext =>
    rw [fsmPhase]
    split
    · exact keeps_enqueueFsm
    · exact .refl s

theorem EventSpec.of_parts (os : List Output) (hinv : FlagInv cfg s → FlagInv cfg s') (hnotifies : Notifies s s')
    (hos : s'.outputs = os) (hno : ∀ o ∈ os, o.isDenial = false) : EventSpec cfg s s' := by
  subst hos
  refine ⟨hinv, hnotifies, ?_, ?_⟩
  · rintro wide write ⟨o, ho, hd⟩
    cases (isDenial_of_denies hd).symm.trans (hno o ho)
  · rintro wide write ⟨o, ho, hd⟩
    cases (isDenial_of_deniesRsp hd).symm.trans (hno o ho)

section

variable (hs : s.outputs = [])
include hs

/-- The phase of an ID: with nothing in flight any more, it takes a burst to any destination. -/
theorem idRetry_event :
    EventSpec cfg { s with fsmTodo := .idRetry wide write :: todo }
      ({ s with fsmTodo := todo }.fsmPhase cfg env (.idRetry wide write)) := by
  rw [fsmPhase]
  split
  case isTrue hclear =>
    refine .of_parts [.retry wide (if write then .write else .read)] (fun hi => ?_) ?_ (by simp [output, hs])
      (by simp [Output.isDenial])
    · refine { hi with
        input := fun wide' hf => (hi.input wide' hf).imp_right (Scheduled.tail fun heq => by cases heq)
        id := fun wide' write' hf => ?_ }
      replace hf : set₂ s.owesIdRetry wide write false wide' write' = true := hf
      rw [set₂_apply] at hf
      split at hf
      case isTrue => cases hf
      case isFalse hne =>
        refine (hi.id wide' write' hf).imp_right (Scheduled.tail fun heq => hne ?_)
        cases heq
        exact ⟨rfl, rfl⟩
    · refine ⟨fun _ h => .inl h, fun wide' write' hf => ?_, fun _ _ h => .inl h, fun _ h => .inl h, fun _ _ h => .inl h⟩
      by_cases heq : wide' = wide ∧ write' = write
      · obtain ⟨rfl, rfl⟩ := heq
        exact .inr (by simp [output])
      · refine .inl ?_
        show set₂ s.owesIdRetry wide write false wide' write' = true
        rwa [set₂_apply, if_neg heq]
  case isFalse hno =>
    refine .of_parts [] (fun hi => ?_) ⟨fun _ h => .inl h, fun _ _ h => .inl h, fun _ _ h => .inl h,
      fun _ h => .inl h, fun _ _ h => .inl h⟩ hs (fun o ho => by cases ho)
    refine { hi with
      input := fun wide' hf => (hi.input wide' hf).imp_right (Scheduled.tail fun heq => by cases heq)
      id := fun wide' write' hf => ?_ }
    by_cases heq : wide' = wide ∧ write' = write
    · obtain ⟨rfl, rfl⟩ := heq
      have hne : s.idTxns wide' write' ≠ 0 := fun hz => hno ⟨hf, hz⟩
      have hge := hi.idTxns_nonneg wide' write'
      replace hge : 0 ≤ s.idTxns wide' write' := hge
      exact .inl (show 0 < s.idTxns wide' write' by omega)
    · refine (hi.id wide' write' hf).imp_right (Scheduled.tail fun h => heq ?_)
      cases h
      exact ⟨rfl, rfl⟩

theorem inputRetry_event :
    EventSpec cfg { s with fsmTodo := .inputRetry wide :: todo }
      ({ s with fsmTodo := todo }.fsmPhase cfg env (.inputRetry wide)) := by
  rw [fsmPhase]
  split
  case isTrue hclear =>
    refine .of_parts [.retry wide .any] (fun hi => ?_) ?_ (by simp [output, hs]) (by simp [Output.isDenial])
    · refine { hi with input := fun wide' hf => ?_, id := fun wide' write' hf =>
        (hi.id wide' write' hf).imp_right (Scheduled.tail fun heq => by cases heq) }
      replace hf : update s.owesRetryInput wide false wide' = true := hf
      rw [update_apply] at hf
      split at hf
      case isTrue => cases hf
      case isFalse hne =>
        refine (hi.input wide' hf).imp_right (Scheduled.tail fun heq => hne ?_)
        cases heq
        rfl
    · refine ⟨fun wide' hf => ?_, fun _ _ h => .inl h, fun _ _ h => .inl h, fun _ h => .inl h, fun _ _ h => .inl h⟩
      by_cases heq : wide' = wide
      · subst heq
        exact .inr (by simp [output])
      · refine .inl ?_
        show update s.owesRetryInput wide false wide' = true
        rwa [update_of_ne heq]
  case isFalse hno =>
    refine .of_parts [] (fun hi => ?_) ⟨fun _ h => .inl h, fun _ _ h => .inl h, fun _ _ h => .inl h,
      fun _ h => .inl h, fun _ _ h => .inl h⟩ hs (fun o ho => by cases ho)
    refine { hi with input := fun wide' hf => ?_, id := fun wide' write' hf =>
      (hi.id wide' write' hf).imp_right (Scheduled.tail fun heq => by cases heq) }
    by_cases heq : wide' = wide
    · subst heq
      exact .inl (Int.not_lt.1 fun hlt => hno ⟨hf, hlt⟩)
    · refine (hi.input wide' hf).imp_right (Scheduled.tail fun h => heq ?_)
      cases h
      rfl

theorem phase_event :
    EventSpec cfg { s with fsmTodo := phase :: todo } ({ s with fsmTodo := todo }.fsmPhase cfg env phase) := by
  by_cases hid : ∃ wide write, phase = .idRetry wide write
  · obtain ⟨wide, write, rfl⟩ := hid
    exact idRetry_event hs
  · by_cases hin : ∃ wide, phase = .inputRetry wide
    · obtain ⟨wide, rfl⟩ := hin
      exact inputRetry_event hs
    · have hspec : EventSpec cfg { s with fsmTodo := todo } ({ s with fsmTodo := todo }.fsmPhase cfg env phase) :=
        (keeps_fsmPhase (fun wide write heq => hid ⟨wide, write, heq⟩) fun wide heq => hin ⟨wide, heq⟩).event hs
      refine ⟨fun hi => hspec.inv ?_, { hspec.notifies with }, hspec.request, hspec.response⟩
      exact { hi with
        input := fun wide hf => (hi.input wide hf).imp_right (Scheduled.tail fun heq => hin ⟨wide, heq.symm⟩)
        id := fun wide write hf =>
          (hi.id wide write hf).imp_right (Scheduled.tail fun heq => hid ⟨wide, write, heq.symm⟩) }

theorem fsm_event :
    EventSpec cfg s { s with fsmEvent := false, fsmTodo := fsmPhases } := by
  refine .of_parts [] (fun hi => ?_) ⟨fun _ h => .inl h, fun _ _ h => .inl h, fun _ _ h => .inl h,
    fun _ h => .inl h, fun _ _ h => .inl h⟩ hs (fun o ho => by cases ho)
  refine { hi with input := fun wide _ => .inr (.inr ?_), id := fun wide write _ => .inr (.inr ?_) }
  · cases wide <;> simp [fsmPhases]
  · cases wide <;> cases write <;> simp [fsmPhases]

end

/-- **A step** of the interface: it keeps what the flags stand for, clears none without its retry, and sets one for
whom it denies. -/
theorem niStep_event (h : niStep cfg s e = some s') : EventSpec cfg { s with outputs := [] } s' := by
  obtain ⟨env, e⟩ := e
  cases e with
  | req wide req => exact handleReq_event rfl h
  | linkReq nw flit => exact (keeps_linkReq h).event rfl
  | linkUnstall nw => cases h; exact keeps_unstall.event rfl
  | response wide flit => cases h; exact response_event rfl
  | retryTarget wide => cases h; exact keeps_retryTarget.event rfl
  | fsm =>
    rw [niStep, event] at h
    split at h
    · cases h
      exact fsm_event rfl
    · cases h
  | phase =>
    rw [niStep, event] at h
    split at h
    · cases h
    case h_2 phase todo htodo =>
      cases h
      have hspec := @phase_event cfg env { s with outputs := [] } todo phase rfl
      replace htodo : s.fsmTodo = phase :: todo := htodo
      rw [← htodo] at hspec
      exact hspec

/-! ## Runs -/

/-- An interface in a run, with all it has called and returned so far. -/
structure NiTrace where
  ni : NetworkInterfaceV2 := {}
  past : List Output := []

def niTraceStep (cfg : NiConfig) (t : NiTrace) (e : Env × NiEvent) : Option NiTrace :=
  (niStep cfg t.ni e).map fun s => ⟨s, t.past ++ s.outputs⟩

/-- Whoever has been denied and not retried since has a flag, and every flag is blocked or looked at again. -/
structure WakeUp (cfg : NiConfig) (t : NiTrace) : Prop where
  /-- The initiators: the outstanding limit, an ID in flight to another destination, or an input that is full. -/
  request : ∀ wide write, owed (denies wide write) (retries wide write) false t.past = true →
    t.ni.OwesRequest wide write
  /-- The targets: the input that the response needs. -/
  response : ∀ wide write, owed (deniesRsp wide write) (retriesRsp wide) false t.past = true →
    t.ni.OwesResponse wide write
  flags : FlagInv cfg t.ni

theorem FlagInv.congr_outputs {os : List Output} (h : FlagInv cfg s) : FlagInv cfg { s with outputs := os } :=
  { h with }

theorem retries_of_owes (h : s.OwesRequest wide write) (hn : Notifies s s') :
    s'.OwesRequest wide write ∨ ∃ o ∈ s'.outputs, retries wide write o = true := by
  have hchannel : retries wide write (.retry wide (if write then .write else .read)) = true := by
    cases write <;> simp [retries, RetryChannel.covers]
  rcases h with h | h | h
  · rcases hn.input wide h with h | ho
    · exact .inl (.inl h)
    · exact .inr ⟨_, ho, by simp [retries, RetryChannel.covers]⟩
  · rcases hn.id wide write h with h | ho
    · exact .inl (.inr (.inl h))
    · exact .inr ⟨_, ho, hchannel⟩
  · rcases hn.room wide write h with h | ho
    · exact .inl (.inr (.inr h))
    · exact .inr ⟨_, ho, hchannel⟩

theorem retriesRsp_of_owes (h : s.OwesResponse wide write) (hn : Notifies s s') :
    s'.OwesResponse wide write ∨ ∃ o ∈ s'.outputs, retriesRsp wide o = true := by
  obtain ⟨hflag, hroom⟩ := h
  have hretry : retriesRsp wide (.respRetry wide) = true := by simp [retriesRsp]
  rcases hn.rspRoom wide write hroom with hroom | ho
  · rcases hn.resp wide hflag with hflag | ho
    · exact .inl ⟨hflag, hroom⟩
    · exact .inr ⟨_, ho, hretry⟩
  · exact .inr ⟨_, ho wide hflag, hretry⟩

theorem niTraceStep_wakeUp {t t' : NiTrace} (h : WakeUp cfg t) (ht : niTraceStep cfg t e = some t') :
    WakeUp cfg t' := by
  rw [niTraceStep, map_eq_some_iff] at ht
  obtain ⟨s', hs', rfl⟩ := ht
  have hspec := niStep_event hs'
  refine ⟨fun wide write ho => ?_, fun wide write ho => ?_, hspec.inv h.flags.congr_outputs⟩
  · rw [owed_append] at ho
    exact flag_of_owed (h.request wide write) (hspec.request wide write)
      (fun hf => retries_of_owes hf { hspec.notifies with }) ho
  · rw [owed_append] at ho
    exact flag_of_owed (h.response wide write) (hspec.response wide write)
      (fun hf => retriesRsp_of_owes hf { hspec.notifies with }) ho

theorem flagInv_init : FlagInv cfg {} where
  input _ h := by cases h
  id _ _ h := by cases h
  room _ _ h := by cases h
  resp _ h := by cases h
  idTxns_nonneg _ _ := Int.le_refl _

/-- **No lost wake-up**: in every state of every run of an interface, whoever has been denied and not retried since has
a flag, and every flag is still blocked or looked at again by `fsm_handler`; and no step clears a flag without its
retry. -/
theorem noLostWakeUp (cfg : NiConfig) (es : List (Env × NiEvent)) :
    AllStates (niTraceStep cfg) (WakeUp cfg) {} es ∧
      AllSteps (niTraceStep cfg) (fun t e => ∀ s', niStep cfg t.ni e = some s' → Notifies t.ni s') {} es := by
  have hall : ∀ (es : List (Env × NiEvent)) (t : NiTrace), WakeUp cfg t →
    AllStates (niTraceStep cfg) (WakeUp cfg) t es ∧
      AllSteps (niTraceStep cfg) (fun t e => ∀ s', niStep cfg t.ni e = some s' → Notifies t.ni s') t es := by
    intro es
    induction es with
    | nil => exact fun t ht => ⟨ht, trivial⟩
    | cons e es ih =>
      refine fun t ht => ⟨⟨ht, fun t' ht' => (ih t' (niTraceStep_wakeUp ht ht')).1⟩, fun t' ht' => ⟨fun s' hs' => ?_,
        (ih t' (niTraceStep_wakeUp ht ht')).2⟩⟩
      have hn := (niStep_event hs').notifies
      exact { hn with }
  refine hall es {} ⟨?_, ?_, flagInv_init⟩
  · intro wide write h
    cases h
  · intro wide write h
    cases h

end GvsocPulp.FloonocV2
