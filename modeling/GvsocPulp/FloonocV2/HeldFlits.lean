import GvsocPulp.FloonocV2.NetworkInterface
import GvsocPulp.Lib.StopGo

/-!
# The flits that an interface holds

A network interface holds a flit that its target has denied, until the target retries it, or one that came while the
target had as many transactions in flight as it may have, until one of them ends.

- `Aside`: the functions that serve the initiators send flits and leave the side of the targets alone;
- `Waiting`: what each held flit waits for, in the middle of an event, kept by every event (`Waiting.event`).
-/

namespace GvsocPulp.FloonocV2

open Lib Function List Option Output

variable {cfg : NiConfig} {env : Env} {s s' s'' : NetworkInterfaceV2} {nw nw' : Nw} {flit : Flit} {input : Nat}
  {wide : Bool}

def Output.sentOn (nw : Nw) : Output → Option Flit
  | .link nw' flit => if nw' = nw then some flit else none
  | _ => none

/-- An output for the initiators or the network: no call of a target or of a sender, and no answer of a target. -/
def Output.IsAside : Output → Prop
  | .target .. | .unstall _ | .stalledLink .. | .respAck _ _ true => False
  | _ => True

/-- What a flit adds to the transactions that its target has yet to answer, by `wide` and by `is_write`. -/
def Flit.txns (flit : Flit) (wide write : Bool) : Int :=
  if flit.isLast = true ∧ flit.expectsResponse = true ∧ flit.wide = wide ∧ flit.opcode.isWrite = write then 1 else 0

/-- What an output adds to the answers that the targets owe: a call that a target has granted opens a transaction, its
answer ends it. -/
def Output.owed : Output → Bool → Bool → Int
  | .target _ _ flit .granted => flit.txns
  | .respAck _ flit true => -flit.txns
  | _ => 0

namespace NetworkInterfaceV2

/-! ## Sending -/

/-- What a function of the interface does to the queue of a link. -/
def SendsOn (env : Env) (nw : Nw) (s s' : NetworkInterfaceV2) : Prop :=
  ∃ os, s'.outputs = s.outputs ++ os ∧
    Sends (env.linkFull nw) (s.queue nw).stalled (os.filterMap (·.sentOn nw)) (s'.queue nw).stalled

theorem SendsOn.trans (h : SendsOn env nw s s') (h' : SendsOn env nw s' s'') : SendsOn env nw s s'' := by
  obtain ⟨os, hos, hsend⟩ := h
  obtain ⟨os', hos', hsend'⟩ := h'
  refine ⟨os ++ os', by rw [hos', hos, append_assoc], ?_⟩
  rw [filterMap_append]
  exact hsend.append hsend'

theorem SendsOn.of_quiet (hq : (s'.queue nw).stalled = (s.queue nw).stalled) (hos : s'.outputs = s.outputs) :
    SendsOn env nw s s' := ⟨[], by rw [hos, append_nil], by rw [hq]; exact .nil _⟩

theorem sendsOn_output {o : Output} (ho : o.sentOn nw = none) : SendsOn env nw s (s.output o) := by
  refine ⟨[o], rfl, ?_⟩
  rw [filterMap_cons_none ho]
  exact .nil _

/-! ## The initiators -/

/-- What a function for the initiators does: it sends flits, and the targets and what waits for them stay as they are.
-/
structure Aside (env : Env) (s s' : NetworkInterfaceV2) : Prop where
  outputs : ∃ os, s'.outputs = s.outputs ++ os ∧ ∀ o ∈ os, o.IsAside
  targets : (s'.held, s'.targetTxns, s'.responseQueue, s'.forwardHeldPending, s'.fsmTodo) =
    (s.held, s.targetTxns, s.responseQueue, s.forwardHeldPending, s.fsmTodo)
  fsmEvent : s.fsmEvent = true → s'.fsmEvent = true
  sends : ∀ nw, SendsOn env nw s s'

theorem Aside.trans (h : Aside env s s') (h' : Aside env s' s'') : Aside env s s'' := by
  obtain ⟨os, hos, hno⟩ := h.outputs
  obtain ⟨os', hos', hno'⟩ := h'.outputs
  refine ⟨⟨os ++ os', by rw [hos', hos, append_assoc], fun o ho => ?_⟩, h'.targets.trans h.targets,
    fun hf => h'.fsmEvent (h.fsmEvent hf), fun nw => (h.sends nw).trans (h'.sends nw)⟩
  rcases mem_append.1 ho with ho | ho
  · exact hno o ho
  · exact hno' o ho

theorem Aside.of_quiet (hq : s'.queue = s.queue)
    (ht : (s'.held, s'.targetTxns, s'.responseQueue, s'.forwardHeldPending, s'.fsmTodo) =
      (s.held, s.targetTxns, s.responseQueue, s.forwardHeldPending, s.fsmTodo)) (hos : s'.outputs = s.outputs)
    (hfsm : s.fsmEvent = true → s'.fsmEvent = true) : Aside env s s' :=
  ⟨⟨[], by rw [hos, append_nil], forall_mem_nil _⟩, ht, hfsm, fun _ => .of_quiet (by rw [hq]) hos⟩

theorem Aside.refl (env : Env) (s : NetworkInterfaceV2) : Aside env s s := .of_quiet rfl rfl rfl id

theorem aside_output {o : Output} (ho : o.IsAside) (hsent : ∀ nw, o.sentOn nw = none) : Aside env s (s.output o) :=
  ⟨⟨[o], rfl, by simpa using ho⟩, rfl, id, fun nw => sendsOn_output (hsent nw)⟩

theorem aside_enqueueFsm : Aside env s s.enqueueFsm := .of_quiet rfl rfl rfl fun _ => rfl

theorem aside_setQueue {q : NetworkQueueV2} (hst : q.stalled = (s.queue nw').stalled) :
    Aside env s (s.setQueue nw' q) := by
  refine ⟨⟨[], by rw [append_nil]; rfl, forall_mem_nil _⟩, rfl, id, fun nw => .of_quiet ?_ rfl⟩
  show (update s.queue nw' q nw).stalled = _
  rw [update_apply]
  split
  case isTrue heq => rw [heq, hst]
  case isFalse => rfl

theorem aside_reserve : Aside env s (s.setQueue nw' ((s.queue nw').reserve input).2) := by
  refine aside_setQueue ?_
  rw [NetworkQueueV2.reserve]
  split <;> rfl

theorem aside_respRetry : Aside env s (s.respRetry wide) := by
  rw [respRetry]
  split
  · refine .trans ?_ (aside_output trivial fun _ => rfl)
    exact .of_quiet rfl rfl rfl id
  · exact .refl env s

theorem aside_inputRoom : Aside env s (s.inputRoom nw' input) := by
  rw [inputRoom]
  split
  · exact aside_output trivial fun _ => rfl
  · exact aside_respRetry.trans aside_respRetry

theorem aside_notifyRoom : Aside env s (s.notifyRoom nw' input) := by
  rw [notifyRoom]
  split
  · have hclear : Aside env s (s.setQueue nw'
        { s.queue nw' with owesRoom := update (s.queue nw').owesRoom input false }) := aside_setQueue rfl
    exact hclear.trans aside_inputRoom
  · exact .refl env s

theorem aside_countInjected : Aside env s (s.countInjected flit) := by
  rw [countInjected]
  split
  · exact .refl env s
  · exact .of_quiet rfl rfl rfl fun hf => by simp [hf]

theorem aside_sendRouterReq (hst : (s.queue nw').stalled = false) : Aside env s (s.sendRouterReq env nw' input) := by
  rw [sendRouterReq]
  split
  case h_1 => exact .refl env s
  case h_2 flit rest _ =>
    let t := s.setQueue nw' (sentQueue env (s.queue nw') nw' input flit rest)
    have hcount : Aside env t (t.countInjected flit) := aside_countInjected
    have hqueue : (t.countInjected flit).queue = t.queue ∧ (t.countInjected flit).outputs = s.outputs := by
      rw [countInjected]
      split <;> exact ⟨rfl, rfl⟩
    have hsend : Aside env s ((t.countInjected flit).output (.link nw' flit)) := by
      refine { hcount with outputs := ⟨[.link nw' flit], by rw [output, hqueue.2], by simp [IsAside]⟩, sends :=
        fun nw => ⟨[.link nw' flit], by rw [output, hqueue.2], ?_⟩ }
      show Sends _ _ _ ((t.countInjected flit).queue nw).stalled
      rw [hqueue.1]
      show Sends _ _ _ ((update s.queue nw' _ nw).stalled)
      by_cases heq : nw' = nw
      · subst heq
        have hsent : [link nw' flit].filterMap (·.sentOn nw') = [flit] := by simp [sentOn]
        rw [update_self, hst, hsent]
        exact .cons (.nil _)
      · have hsent : [link nw' flit].filterMap (·.sentOn nw) = [] := by simp [sentOn, heq]
        rw [update_of_ne (Ne.symm heq), hsent]
        exact .nil _
    dsimp only
    split
    · exact (hsend.trans aside_enqueueFsm).trans aside_notifyRoom
    · exact hsend.trans aside_notifyRoom

theorem aside_check : Aside env s (s.check env nw') := by
  rw [check]
  split
  case h_1 => exact .refl env s
  case h_2 =>
    split
    case isTrue => exact .refl env s
    case isFalse hst =>
      split
      · exact aside_enqueueFsm
      · exact aside_sendRouterReq (Bool.eq_false_iff.2 hst)

theorem aside_countAnswered {write : Bool} : Aside env s (s.countAnswered wide write) := by
  rw [countAnswered, idTxnDone]
  split <;> exact .of_quiet rfl rfl rfl id

/-- The end of a response: the initiator gets it, and the handler runs. -/
theorem aside_resp {r : Resp} : Aside env s (s.output (.resp wide r)) := aside_output trivial fun _ => rfl

theorem aside_linkB {burstId : Int} {size : Nat} {t : WrTrack} : Aside env s (s.linkB wide burstId size flit t) := by
  rw [linkB]
  dsimp only
  split
  · refine .trans (.trans ?_ aside_countAnswered) aside_resp
    exact .of_quiet rfl rfl rfl id
  · exact .of_quiet rfl rfl rfl id

theorem aside_linkRsp (h : s.linkRsp flit = some s') : Aside env s s' := by
  rw [linkRsp] at h
  dsimp only at h
  split at h
  case h_1 =>
    generalize (if flit.ownsBeat = true then flit.burstId else (s.mem flit.burst).burstId) = burstId at h
    split at h
    · cases h
      exact (aside_countAnswered.trans aside_resp).trans aside_enqueueFsm
    · rw [map_eq_some_iff] at h
      obtain ⟨t, -, rfl⟩ := h
      exact aside_linkB.trans aside_enqueueFsm
  case h_2 =>
    cases h
    exact (aside_countAnswered.trans aside_resp).trans aside_enqueueFsm
  case h_3 =>
    cases h
    have hmem : ∀ mem, Aside env s { s with mem := mem } := fun mem => .of_quiet rfl rfl rfl id
    split
    · exact (((hmem _).trans aside_countAnswered).trans aside_resp).trans aside_enqueueFsm
    · exact ((hmem _).trans aside_resp).trans aside_enqueueFsm

variable {req : IoReq}

theorem aside_enqueueRouterReq {isAddress : Bool} :
    Aside env s (s.enqueueRouterReq cfg nw' req isAddress wide input) := by
  rw [enqueueRouterReq]
  generalize requestFlits cfg req isAddress wide (cfg.width nw') req.size req.addr req.size req.data none = r
  obtain ⟨flits, complete⟩ := r
  have hack : Aside env s (s.ackSilent wide req flits) := .of_quiet rfl rfl rfl id
  have hpush : Aside env s ((s.ackSilent wide req flits).setQueue nw' ((s.queue nw').push input flits)) :=
    hack.trans (aside_setQueue rfl)
  dsimp only
  split
  · exact hpush.trans (.of_quiet rfl rfl rfl fun _ => rfl)
  · exact hpush.trans (.of_quiet rfl rfl rfl id)

theorem aside_queueReq : Aside env s (s.queueReq cfg env nw' req wide input) := by
  have hif : ∀ (c : Bool) (t : NetworkInterfaceV2) (isAddress : Bool),
      Aside env t (if c then t.enqueueRouterReq cfg nw' req isAddress wide input else t) := by
    intro c t isAddress
    split
    · exact aside_enqueueRouterReq
    · exact .refl env t
  rw [queueReq]
  exact ((hif _ s true).trans (hif _ _ false)).trans aside_check

theorem aside_countGranted : Aside env s (s.countGranted cfg wide req) := by
  rw [countGranted]
  dsimp only
  split
  · exact .refl env s
  · split <;> exact .of_quiet rfl rfl rfl id

theorem aside_trackWrite (h : s.trackWrite wide req = some s') : Aside env s s' := by
  rw [trackWrite] at h
  dsimp only at h
  split at h
  · cases h
    exact .refl env _
  · split at h
    · cases h
    · split at h <;> split at h <;> cases h
      all_goals exact .of_quiet rfl rfl rfl id

theorem aside_handleReq (h : s.handleReq cfg env wide req = some s') : Aside env s s' := by
  have hmem : Aside env s (s.storeReq req) := .of_quiet rfl rfl rfl id
  have hstatus : ∀ {t : NetworkInterfaceV2} (granted : Bool), Aside env t (t.output (.reqStatus wide req granted)) :=
    fun _ => aside_output trivial fun _ => rfl
  rw [handleReq] at h
  dsimp only at h
  generalize s.storeReq req = t at h hmem
  split at h
  · cases h
    refine .trans (.trans hmem ?_) (hstatus _)
    exact .of_quiet rfl rfl rfl id
  · split at h
    · cases h
      refine .trans (.trans hmem ?_) (hstatus _)
      exact .of_quiet rfl rfl rfl id
    · split at h
      · cases h
        exact (hmem.trans aside_reserve).trans (hstatus _)
      · rw [map_eq_some_iff] at h
        obtain ⟨s₁, h₁, rfl⟩ := h
        have hgranted : Aside env s s₁ := ((hmem.trans aside_reserve).trans aside_countGranted).trans
          (aside_trackWrite h₁)
        refine .trans (.trans (.trans (hgranted.trans ?_) aside_queueReq) aside_enqueueFsm) (hstatus _)
        exact .of_quiet rfl rfl rfl id

theorem aside_acceptResponse : Aside env s (s.acceptResponse cfg wide flit).2 := by
  rw [acceptResponse]
  split
  · exact .refl env s
  · split
    · exact .refl env s
    · dsimp only
      split
      · exact aside_reserve
      · exact aside_reserve.trans (.of_quiet rfl rfl rfl id)

/-- The phases of the handler that do not serve the targets. -/
theorem aside_fsmPhase {phase : FsmPhase} (h : phase ≠ .response) (h' : phase ≠ .forwardHeld) :
    Aside env s (s.fsmPhase cfg env phase) := by
  have hretry : ∀ {t : NetworkInterfaceV2} (wide : Bool) (channel : RetryChannel),
    Aside env t (t.output (.retry wide channel)) :=
    fun _ _ => aside_output trivial fun _ => rfl
  cases phase with
  | check nw' => exact aside_check
  | response => exact absurd rfl h
  | forwardHeld => exact absurd rfl h'
  | pendingBurst wide write =>
    rw [fsmPhase]
    split
    · exact .of_quiet rfl rfl rfl fun _ => rfl
    · exact .refl env s
  | idRetry wide write =>
    rw [fsmPhase]
    split
    · refine .trans ?_ (hretry _ _)
      exact .of_quiet rfl rfl rfl id
    · exact .refl env s
  | inputRetry wide =>
    rw [fsmPhase]
    split
    · refine .trans ?_ (hretry _ _)
      exact .of_quiet rfl rfl rfl id
    · exact .refl env s
  | triggerNext =>
    rw [fsmPhase]
    split
    · exact aside_enqueueFsm
    · exact .refl env s

/-! ## The targets -/

theorem aside_queueRsp : Aside env s (s.queueRsp env nw' input flit) := by
  have hpush : Aside env s (s.setQueue nw' ((s.queue nw').push input [flit])) := aside_setQueue rfl
  exact (hpush.trans aside_enqueueFsm).trans aside_check

/-- A response goes into a queue; then the transaction leaves the limit of its target. -/
theorem handleResponse_eq : ∃ t, Aside env s t ∧ s.handleResponse env flit = t.endTarget flit := by
  have hmem : ∀ mem, Aside env s { s with mem := mem } := fun mem => .of_quiet rfl rfl rfl id
  rw [handleResponse]
  dsimp only
  split
  · exact ⟨_, hmem _, rfl⟩
  · exact ⟨_, (hmem _).trans aside_queueRsp, rfl⟩

theorem sendsOn_handleResponse : SendsOn env nw s (s.handleResponse env flit) := by
  obtain ⟨t, ht, heq⟩ := @handleResponse_eq env s flit
  rw [heq, endTarget]
  split
  · exact (ht.sends nw).trans (.of_quiet rfl rfl)
  · exact ht.sends nw

theorem sendsOn_sendToTarget : SendsOn env nw s (s.sendToTarget env wide nw' flit).2 := by
  have hcall : SendsOn env nw s (s.output (.target wide nw' flit (env.target wide nw'))) := sendsOn_output rfl
  rw [sendToTarget]
  dsimp only
  split
  case h_1 => exact hcall
  case h_2 => exact hcall
  case h_3 =>
    split
    · exact hcall.trans (.of_quiet rfl rfl)
    · exact hcall.trans sendsOn_handleResponse

theorem sendsOn_hold {held : Option HeldReq} : SendsOn env nw s (s.hold wide nw' held) := .of_quiet rfl rfl

theorem sendsOn_forwardToTarget : SendsOn env nw s (s.forwardToTarget cfg env flit nw').2 := by
  have hassert : SendsOn env nw s (if (s.held flit.wide nw').isSome then s.output (.stalledLink nw' flit) else s) := by
    split
    · exact sendsOn_output rfl
    · exact .of_quiet rfl rfl
  rw [forwardToTarget]
  generalize (if (s.held flit.wide nw').isSome then s.output (.stalledLink nw' flit) else s) = t at hassert ⊢
  dsimp only
  split
  · exact hassert.trans sendsOn_hold
  · have hbegin : SendsOn env nw t (t.beginTarget flit) := by
      rw [beginTarget]
      split <;> exact .of_quiet rfl rfl
    have hsend := (hassert.trans hbegin).trans (@sendsOn_sendToTarget env _ nw nw' (makeTargetReq flit) flit.wide)
    dsimp only
    split
    · exact hsend.trans sendsOn_hold
    · exact hsend

theorem sendsOn_forwardHeldFlit : SendsOn env nw s (s.forwardHeldFlit cfg env wide nw') := by
  rw [forwardHeldFlit]
  split
  · dsimp only
    split
    · exact sendsOn_hold.trans sendsOn_forwardToTarget
    · exact (sendsOn_hold.trans sendsOn_forwardToTarget).trans (sendsOn_output rfl)
  · exact .of_quiet rfl rfl

theorem sendsOn_retryFlit : SendsOn env nw s (retryFlit env wide s nw') := by
  rw [retryFlit]
  split
  · dsimp only
    split
    · exact sendsOn_sendToTarget
    · exact (sendsOn_sendToTarget.trans sendsOn_hold).trans (sendsOn_output rfl)
  · exact .of_quiet rfl rfl

theorem SendsOn.foldl {ι : Type*} {f : NetworkInterfaceV2 → ι → NetworkInterfaceV2}
    (hf : ∀ s i, SendsOn env nw s (f s i)) (is : List ι) : SendsOn env nw s (is.foldl f s) := by
  induction is generalizing s with
  | nil => exact .of_quiet rfl rfl
  | cons i is ih => exact (hf s i).trans ih

/-- An interface sends at most while its queue is not stalled, in any event but the call that ends the stall. -/
theorem event_sendsOn {e : NiEvent} (he : e ≠ .linkUnstall nw) (h : s.event cfg env e = some s') :
    SendsOn env nw s s' := by
  cases e with
  | req wide req => exact (aside_handleReq h).sends nw
  | linkReq nw' flit =>
    rw [event, linkReq] at h
    split at h
    · rw [map_eq_some_iff] at h
      obtain ⟨t, ht, rfl⟩ := h
      exact ((aside_linkRsp ht).sends nw).trans (sendsOn_output rfl)
    · split at h
      · cases h
        exact sendsOn_output rfl
      · cases h
        exact sendsOn_forwardToTarget.trans (sendsOn_output rfl)
  | linkUnstall nw' =>
    cases h
    have hne : nw ≠ nw' := fun heq => he (by rw [heq])
    exact .of_quiet (by show (update s.queue nw' _ nw).stalled = _; rw [update_of_ne hne]) rfl
  | response wide flit =>
    cases h
    rw [response]
    have haccept := (@aside_acceptResponse cfg env s flit wide).sends nw
    dsimp only
    split
    · exact (haccept.trans sendsOn_handleResponse).trans (sendsOn_output rfl)
    · exact haccept.trans (sendsOn_output rfl)
  | retryTarget wide =>
    cases h
    exact (SendsOn.foldl (fun s nw' => sendsOn_retryFlit) _).trans (aside_enqueueFsm.sends nw)
  | fsm =>
    rw [event] at h
    split at h <;> cases h
    exact .of_quiet rfl rfl
  | phase =>
    rw [event] at h
    split at h
    · cases h
    case h_2 phase todo _ =>
      cases h
      have hpop : SendsOn env nw s { s with fsmTodo := todo } := .of_quiet rfl rfl
      refine hpop.trans ?_
      by_cases hresponse : phase = .response
      · subst hresponse
        rw [fsmPhase]
        split
        · exact .of_quiet rfl rfl
        · split
          · exact .trans (.of_quiet rfl rfl) sendsOn_handleResponse
          · exact .of_quiet rfl rfl
      · by_cases hforward : phase = .forwardHeld
        · subst hforward
          rw [fsmPhase]
          split
          · exact .trans (.of_quiet rfl rfl) (SendsOn.foldl (fun s slot => sendsOn_forwardHeldFlit) _)
          · exact .of_quiet rfl rfl
        · exact (aside_fsmPhase hresponse hforward).sends nw

/-! ## Waiting -/

/-- The transaction of a flit that is held because its target has denied it. -/
def deniedTxns : Option HeldReq → Bool → Bool → Int
  | some ⟨flit, true⟩ => flit.txns
  | _ => 0

/-- The transactions that a target counts and does not know of, or has already answered. -/
def inTransit (s : NetworkInterfaceV2) : Bool → Bool → Int :=
  (s.responseQueue.map (·.txns)).sum + (heldSlots.map fun slot => deniedTxns (s.held slot.1 slot.2)).sum

/-- What the targets of an interface owe it, and whether its links obey it. -/
structure Debts where
  /-- The target has denied a flit of the link, and has not retried it since. -/
  retry : Bool → Nw → Prop := fun _ _ => False
  /-- No flit came on a link of which one was held. -/
  obeyed : Prop := True
  /-- The transactions that the target has granted and has not answered, by `is_write`. -/
  answers : Bool → Bool → Int := 0

/-- A retry of a target pays what it owes. -/
def Debts.after (d : Debts) : NiEvent → Debts
  | .retryTarget wide => { d with retry := fun wide' nw => d.retry wide' nw ∧ wide' ≠ wide }
  | _ => d

/-- The debts after an event with the outputs `os`. -/
def Debts.log (d : Debts) (e : NiEvent) (os : List Output) : Debts where
  retry wide nw := (d.after e).retry wide nw ∨ ∃ flit, .target wide nw flit .denied ∈ os
  obeyed := d.obeyed ∧ ∀ nw flit, .stalledLink nw flit ∉ os
  answers := d.answers + (os.map (·.owed)).sum

/-- **No held flit is stuck.** One that its target has denied waits for a retry, which offers it again, so that it is
either gone after the retry or denied anew; one over the limit is offered again when a transaction has ended. -/
structure NeverStuck (cfg : NiConfig) (d : Debts) (s : NetworkInterfaceV2) : Prop where
  denied : ∀ {wide nw flit}, s.held wide nw = some ⟨flit, true⟩ → d.retry wide nw
  limited : ∀ {wide nw flit}, s.held wide nw = some ⟨flit, false⟩ →
    cfg.niOutstandingReqs ≤ s.targetTxns wide flit.opcode.isWrite ∨
      s.forwardHeldPending = true ∧ (s.fsmEvent = true ∨ .forwardHeld ∈ s.fsmTodo)
  /-- When the handler is idle and the targets owe nothing, no flit is held. -/
  quiet : 0 < cfg.niOutstandingReqs → d.obeyed → s.fsmEvent = false → s.fsmTodo = [] → (∀ wide nw, ¬d.retry wide nw) →
    d.answers = 0 → ∀ wide nw, s.held wide nw = none

def Debts.add (d : Debts) (n : Bool → Bool → Int) : Debts := { d with answers := d.answers + n }

/-- What each held flit waits for, in the middle of an event: a denied one for a retry, unless it was denied in this
event, and one over the limit for a transaction to end or for the rest of `forward_held`, which has yet to visit
`slots`. -/
structure Waiting (cfg : NiConfig) (d : Debts) (slots : List (Bool × Nw)) (s : NetworkInterfaceV2) : Prop where
  denied : ∀ {wide nw flit}, s.held wide nw = some ⟨flit, true⟩ →
    d.retry wide nw ∨ ∃ flit, .target wide nw flit .denied ∈ s.outputs
  limited : ∀ {wide nw flit}, s.held wide nw = some ⟨flit, false⟩ →
    cfg.niOutstandingReqs ≤ s.targetTxns wide flit.opcode.isWrite ∨ s.forwardHeldPending = true ∨ (wide, nw) ∈ slots
  pending : s.forwardHeldPending = true → s.fsmEvent = true ∨ .forwardHeld ∈ s.fsmTodo
  queued : s.responseQueue ≠ [] → s.fsmEvent = true ∨ .triggerNext ∈ s.fsmTodo
  txns : d.obeyed → (∀ nw flit, .stalledLink nw flit ∉ s.outputs) →
    s.targetTxns = d.answers + (s.outputs.map (·.owed)).sum + s.inTransit

variable {d : Debts} {slots : List (Bool × Nw)}

@[simp] theorem Debts.add_zero (d : Debts) : d.add 0 = d := by simp [Debts.add]

@[simp] theorem Debts.add_add (d : Debts) (n n' : Bool → Bool → Int) : (d.add n).add n' = d.add (n + n') := by
  simp [Debts.add, add_assoc]

theorem mem_heldSlots (wide : Bool) (nw : Nw) : (wide, nw) ∈ heldSlots := by
  cases wide <;> cases nw <;> decide

theorem hold_held (wide wide' : Bool) (nw nw' : Nw) (held : Option HeldReq) :
    (s.hold wide nw held).held wide' nw' = if wide' = wide ∧ nw' = nw then held else s.held wide' nw' := rfl

theorem inTransit_hold {held : Option HeldReq} :
    (s.hold wide nw held).inTransit = s.inTransit + deniedTxns held - deniedTxns (s.held wide nw) := by
  have hqueue : (s.hold wide nw held).responseQueue = s.responseQueue := rfl
  rw [inTransit, inTransit, hqueue]
  simp only [heldSlots, map_cons, map_nil, sum_cons, sum_nil, hold_held]
  cases wide <;> cases nw <;> simp only [reduceCtorEq, and_true, and_false, if_true, if_false] <;> abel

theorem endTarget_targetTxns : (s.endTarget flit).targetTxns = s.targetTxns - flit.txns := by
  funext wide write
  rw [endTarget]
  split
  case isTrue h =>
    rw [Bool.and_eq_true] at h
    show set₂ s.targetTxns flit.wide flit.opcode.isWrite _ wide write = s.targetTxns wide write - flit.txns wide write
    rw [set₂, Flit.txns]
    split
    case isTrue heq => rw [heq.1, heq.2, if_pos ⟨h.1, h.2, rfl, rfl⟩]
    case isFalse hne => rw [if_neg fun hall => hne ⟨hall.2.2.1.symm, hall.2.2.2.symm⟩, sub_zero]
  case isFalse h =>
    have hno : flit.txns wide write = 0 := if_neg fun hall => h (by rw [hall.1, hall.2.1]; rfl)
    show _ = s.targetTxns wide write - flit.txns wide write
    rw [hno, sub_zero]

theorem beginTarget_targetTxns : (s.beginTarget flit).targetTxns = s.targetTxns + (makeTargetReq flit).txns := by
  funext wide write
  rw [beginTarget]
  split
  case isTrue h =>
    show set₂ s.targetTxns flit.wide flit.opcode.isWrite _ wide write =
      s.targetTxns wide write + (makeTargetReq flit).txns wide write
    rw [set₂, Flit.txns]
    split
    case isTrue heq => rw [heq.1, heq.2, if_pos ⟨rfl, h, rfl, rfl⟩]
    case isFalse hne => rw [if_neg fun hall => hne ⟨hall.2.2.1.symm, hall.2.2.2.symm⟩, add_zero]
  case isFalse h =>
    have hno : (makeTargetReq flit).txns wide write = 0 := if_neg fun hall => h hall.2.1
    show _ = s.targetTxns wide write + (makeTargetReq flit).txns wide write
    rw [hno, add_zero]

theorem Flit.txns_nonneg (wide write : Bool) : 0 ≤ flit.txns wide write := by
  rw [Flit.txns]
  split <;> decide

/-- The functions for the initiators change nothing in what the held flits wait for. -/
theorem Waiting.aside (hs : Waiting cfg d slots s) (h : Aside env s s') : Waiting cfg d slots s' := by
  obtain ⟨os, hos, hno⟩ := h.outputs
  obtain ⟨hheld, htxns, hqueue, hpending, htodo⟩ : s'.held = s.held ∧ s'.targetTxns = s.targetTxns ∧
      s'.responseQueue = s.responseQueue ∧ s'.forwardHeldPending = s.forwardHeldPending ∧ s'.fsmTodo = s.fsmTodo := by
    simpa using h.targets
  constructor
  · intro wide nw flit hf
    rw [hheld] at hf
    rw [hos]
    exact (hs.denied hf).imp_right fun ⟨flit, hmem⟩ => ⟨flit, mem_append_left _ hmem⟩
  · rw [hheld, htxns, hpending]
    exact hs.limited
  · rw [hpending, htodo]
    exact fun hp => (hs.pending hp).imp_left h.fsmEvent
  · rw [hqueue, htodo]
    exact fun hp => (hs.queued hp).imp_left h.fsmEvent
  · intro hobeyed hstalled
    have howed : (os.map (·.owed)).sum = 0 := by
      refine sum_eq_zero fun n hn => ?_
      obtain ⟨o, ho, rfl⟩ := mem_map.1 hn
      have hside := hno o ho
      cases o <;> first | rfl | exact hside.elim | skip
      next accepted => cases accepted <;> first | rfl | exact hside.elim
    rw [htxns, hs.txns hobeyed fun nw flit hmem => hstalled nw flit (hos ▸ mem_append_left _ hmem), hos, map_append,
      sum_append, howed, inTransit, inTransit, hqueue, hheld, add_zero]

/-- An output, which may open or end a transaction. -/
theorem Waiting.output (o : Output) (hs : Waiting cfg d slots s) :
    Waiting cfg (d.add (-o.owed)) slots (s.output o) where
  denied hf := (hs.denied hf).imp_right fun ⟨flit, hmem⟩ => ⟨flit, mem_append_left _ hmem⟩
  limited := hs.limited
  pending := hs.pending
  queued := hs.queued
  txns hobeyed hstalled := by
    have htxns := hs.txns hobeyed fun nw flit hmem => hstalled nw flit (mem_append_left _ hmem)
    show s.targetTxns = d.answers + -o.owed + ((s.outputs ++ [o]).map (·.owed)).sum + s.inTransit
    rw [htxns, map_append, sum_append, map_singleton, sum_singleton]
    abel

/-- An output that is no part of a transaction. -/
theorem Waiting.output_other {o : Output} (hs : Waiting cfg d slots s) (ho : o.owed = 0) :
    Waiting cfg d slots (s.output o) := by
  have h := hs.output o
  rwa [ho, neg_zero, Debts.add_zero] at h

/-- A transaction ends, and the handler looks at the flits that wait for one. -/
theorem Waiting.endTarget (hs : Waiting cfg d slots s) : Waiting cfg (d.add (-flit.txns)) slots (s.endTarget flit) := by
  have htxns := @endTarget_targetTxns s flit
  have hsame : (s.endTarget flit).held = s.held ∧ (s.endTarget flit).responseQueue = s.responseQueue ∧
      (s.endTarget flit).outputs = s.outputs := by
    rw [NetworkInterfaceV2.endTarget]
    split <;> exact ⟨rfl, rfl, rfl⟩
  obtain ⟨hheld, hqueue, hos⟩ := hsame
  have htotal : d.obeyed → (∀ nw flit, .stalledLink nw flit ∉ s.outputs) → (s.endTarget flit).targetTxns =
      d.answers + -flit.txns + ((s.endTarget flit).outputs.map (·.owed)).sum + (s.endTarget flit).inTransit := by
    intro hobeyed hstalled
    rw [htxns, hs.txns hobeyed hstalled, inTransit, inTransit, hheld, hqueue, hos]
    abel
  rw [NetworkInterfaceV2.endTarget] at htotal ⊢
  split at htotal
  case isTrue h =>
    rw [if_pos h]
    exact ⟨hs.denied, fun _ => .inr (.inl rfl), fun _ => .inl rfl, fun _ => .inl rfl, htotal⟩
  case isFalse h =>
    rw [if_neg h]
    exact { hs with txns := htotal }

theorem Waiting.handleResponse (flit : Flit) (hs : Waiting cfg d slots s) :
    Waiting cfg (d.add (-flit.txns)) slots (s.handleResponse env flit) := by
  obtain ⟨t, ht, heq⟩ := @handleResponse_eq env s flit
  rw [heq]
  exact (hs.aside ht).endTarget

/-- An answer waits in the queue of the responses. -/
theorem Waiting.push (flit : Flit) (hs : Waiting cfg d slots s) : Waiting cfg (d.add (-flit.txns)) slots
    { s with responseQueue := s.responseQueue ++ [flit] }.enqueueFsm where
  denied := hs.denied
  limited := hs.limited
  pending _ := .inl rfl
  queued _ := .inl rfl
  txns hobeyed hstalled := by
    refine (hs.txns hobeyed hstalled).trans ?_
    show _ = d.answers + -flit.txns + (s.outputs.map (·.owed)).sum +
      (((s.responseQueue ++ [flit]).map (·.txns)).sum +
        (heldSlots.map fun slot => deniedTxns (s.held slot.1 slot.2)).sum)
    rw [map_append, sum_append, map_singleton, sum_singleton, inTransit]
    abel

/-- The call of a target: it denies the flit, or the transaction of the flit goes on. -/
theorem Waiting.sendToTarget (hs : Waiting cfg d slots s) :
    ((s.sendToTarget env wide nw flit).1 = true → Waiting cfg d slots (s.sendToTarget env wide nw flit).2 ∧
      .target wide nw flit .denied ∈ (s.sendToTarget env wide nw flit).2.outputs) ∧
    ((s.sendToTarget env wide nw flit).1 = false →
      Waiting cfg (d.add (-flit.txns)) slots (s.sendToTarget env wide nw flit).2) := by
  rw [NetworkInterfaceV2.sendToTarget]
  dsimp only
  split
  case h_1 h =>
    rw [h]
    exact ⟨fun _ => ⟨hs.output_other rfl, by simp [NetworkInterfaceV2.output]⟩, nofun⟩
  case h_2 h =>
    rw [h]
    exact ⟨nofun, fun _ => hs.output (.target wide nw flit .granted)⟩
  case h_3 status delayed h =>
    rw [h]
    have hcall := @Waiting.output_other cfg s d slots (.target wide nw flit (.done status delayed)) hs rfl
    split
    · exact ⟨nofun, fun _ => hcall.push { flit with respStatus := status }⟩
    · exact ⟨nofun, fun _ => hcall.handleResponse { flit with respStatus := status }⟩

theorem handleResponse_held : (s.handleResponse env flit).held = s.held := by
  obtain ⟨t, ht, heq⟩ := @handleResponse_eq env s flit
  have hheld : t.held = s.held := congrArg Prod.fst ht.targets
  rw [heq, endTarget]
  split <;> exact hheld

theorem sendToTarget_held : (s.sendToTarget env wide nw' flit).2.held = s.held := by
  rw [sendToTarget]
  dsimp only
  split
  case h_1 => rfl
  case h_2 => rfl
  case h_3 =>
    split
    · rfl
    · exact handleResponse_held

theorem outputs_sendToTarget : ∀ o ∈ s.outputs, o ∈ (s.sendToTarget env wide nw' flit).2.outputs := by
  obtain ⟨os, hos, -⟩ := @sendsOn_sendToTarget env s .req nw' flit wide
  intro o ho
  rw [hos]
  exact mem_append_left _ ho

/-- A slot takes a flit that its target has denied, or one over the limit. -/
theorem Waiting.hold {h : HeldReq} (hs : Waiting cfg d slots s)
    (hfree : s.held wide nw = none ∨ ∃ nw flit, .stalledLink nw flit ∈ s.outputs)
    (hdenied : h.toSend = true → .target wide nw h.flit .denied ∈ s.outputs)
    (hlimited : h.toSend = false → cfg.niOutstandingReqs ≤ s.targetTxns wide h.flit.opcode.isWrite) :
    Waiting cfg (d.add (-deniedTxns (some h))) slots (s.hold wide nw (some h)) where
  denied {wide' nw' flit} hf := by
    rw [hold_held] at hf
    split at hf
    case isTrue heq =>
      cases hf
      rw [heq.1, heq.2]
      exact .inr ⟨flit, hdenied rfl⟩
    case isFalse => exact hs.denied hf
  limited {wide' nw' flit} hf := by
    rw [hold_held] at hf
    split at hf
    case isTrue heq =>
      cases hf
      rw [heq.1]
      exact .inl (hlimited rfl)
    case isFalse => exact hs.limited hf
  pending := hs.pending
  queued := hs.queued
  txns hobeyed hstalled := by
    rcases hfree with hnone | ⟨nw, flit, hmem⟩
    · refine (hs.txns hobeyed hstalled).trans ?_
      rw [inTransit_hold, hnone]
      show _ = d.answers + -deniedTxns (some h) + (s.outputs.map (·.owed)).sum + _
      rw [show deniedTxns none = 0 from rfl]
      abel
    · exact absurd hmem (hstalled nw flit)

theorem Waiting.beginTarget (hs : Waiting cfg d slots s) :
    Waiting cfg (d.add (makeTargetReq flit).txns) slots (s.beginTarget flit) := by
  have htxns := @beginTarget_targetTxns s flit
  obtain ⟨txns, ht⟩ : ∃ txns, s.beginTarget flit = { s with targetTxns := txns } := by
    rw [NetworkInterfaceV2.beginTarget]
    split <;> exact ⟨_, rfl⟩
  rw [ht] at htxns ⊢
  replace htxns : txns = s.targetTxns + (makeTargetReq flit).txns := htxns
  have hle : ∀ wide write, s.targetTxns wide write ≤ txns wide write := by
    intro wide write
    rw [htxns]
    exact le_add_of_nonneg_right (Flit.txns_nonneg wide write)
  refine { hs with
    limited := fun hf => (hs.limited hf).imp_left fun h => h.trans (hle _ _)
    txns := fun hobeyed hstalled => ?_ }
  show txns = d.answers + (makeTargetReq flit).txns + (s.outputs.map (·.owed)).sum + s.inTransit
  rw [htxns, hs.txns hobeyed hstalled]
  abel

/-- A flit is handed to its target, or held for what it waits for. -/
theorem Waiting.forwardToTarget (hs : Waiting cfg d slots s) :
    Waiting cfg d slots (s.forwardToTarget cfg env flit nw).2 := by
  have hassert : Waiting cfg d slots (if (s.held flit.wide nw).isSome then s.output (.stalledLink nw flit) else s) ∧
      ((if (s.held flit.wide nw).isSome then s.output (.stalledLink nw flit) else s).held flit.wide nw = none ∨
        ∃ nw' flit', .stalledLink nw' flit' ∈
          (if (s.held flit.wide nw).isSome then s.output (.stalledLink nw flit) else s).outputs) := by
    split
    case isTrue => exact ⟨hs.output_other rfl, .inr ⟨nw, flit, by simp [NetworkInterfaceV2.output]⟩⟩
    case isFalse h => exact ⟨hs, .inl (by simpa using h)⟩
  rw [NetworkInterfaceV2.forwardToTarget]
  generalize (if (s.held flit.wide nw).isSome then s.output (.stalledLink nw flit) else s) = t at hassert ⊢
  obtain ⟨ht, hfree⟩ := hassert
  dsimp only
  split
  case isTrue hlimit =>
    rw [Bool.and_eq_true, decide_eq_true_eq] at hlimit
    have hhold := ht.hold (h := ⟨flit, false⟩) hfree (fun h => by cases h) fun _ => hlimit.2
    rwa [show deniedTxns (some ⟨flit, false⟩) = 0 from rfl, neg_zero, Debts.add_zero] at hhold
  case isFalse =>
    have hbegin : Waiting cfg (d.add (makeTargetReq flit).txns) slots (t.beginTarget flit) := ht.beginTarget
    have hnone : (t.beginTarget flit).held = t.held ∧ (t.beginTarget flit).outputs = t.outputs := by
      rw [NetworkInterfaceV2.beginTarget]
      split <;> exact ⟨rfl, rfl⟩
    obtain ⟨hdenied, hgone⟩ := @Waiting.sendToTarget cfg env _ nw (makeTargetReq flit) flit.wide _ slots hbegin
    have hheld := @sendToTarget_held env (t.beginTarget flit) nw (makeTargetReq flit) flit.wide
    have hmem := @outputs_sendToTarget env (t.beginTarget flit) nw (makeTargetReq flit) flit.wide
    generalize (t.beginTarget flit).sendToTarget env flit.wide nw (makeTargetReq flit) = r at hdenied hgone hheld hmem ⊢
    obtain ⟨denied, t'⟩ := r
    dsimp only at hdenied hgone hheld hmem ⊢
    rw [Debts.add_add, add_neg_cancel, Debts.add_zero] at hgone
    split
    case isTrue hd =>
      obtain ⟨ht', hcall⟩ := hdenied hd
      have hhold := @Waiting.hold cfg t' nw flit.wide _ slots ⟨makeTargetReq flit, true⟩ ht'
        (hfree.imp (fun h => by rw [hheld, hnone.1, h]) fun ⟨nw', flit', h⟩ => ⟨nw', flit', hmem _ (by rwa [hnone.2])⟩)
        (fun _ => hcall) nofun
      rwa [Debts.add_add, show deniedTxns (some ⟨makeTargetReq flit, true⟩) = (makeTargetReq flit).txns from rfl,
        add_neg_cancel, Debts.add_zero] at hhold
    case isFalse hd => exact hgone (Bool.eq_false_iff.2 hd)

/-- A slot is empty: what it held is not waited for any more. -/
theorem Waiting.release {d' : Debts} {slots' : List (Bool × Nw)} (hs : Waiting cfg d slots s)
    (hretry : ∀ wide' nw', ¬(wide' = wide ∧ nw' = nw) → d.retry wide' nw' → d'.retry wide' nw')
    (hslots : ∀ slot, slot ≠ (wide, nw) → slot ∈ slots → slot ∈ slots') (hobeyed : d'.obeyed = d.obeyed)
    (hanswers : d'.answers = d.answers + deniedTxns (s.held wide nw)) :
    Waiting cfg d' slots' (s.hold wide nw none) where
  denied {wide' nw' flit} hf := by
    rw [hold_held] at hf
    split at hf
    case isTrue => cases hf
    case isFalse hne => exact (hs.denied hf).imp_left (hretry _ _ hne)
  limited {wide' nw' flit} hf := by
    rw [hold_held] at hf
    split at hf
    case isTrue => cases hf
    case isFalse hne =>
      exact (hs.limited hf).imp_right (.imp_right (hslots _ fun heq => hne
        ⟨congrArg Prod.fst heq, congrArg Prod.snd heq⟩))
  pending := hs.pending
  queued := hs.queued
  txns hc hstalled := by
    rw [hobeyed] at hc
    refine (hs.txns hc hstalled).trans ?_
    rw [inTransit_hold, hanswers]
    show _ = _ + (s.outputs.map (·.owed)).sum + (_ + 0 - _)
    abel

theorem Waiting.forwardHeldFlit (hs : Waiting cfg d ((wide, nw) :: slots) s) :
    Waiting cfg d slots (s.forwardHeldFlit cfg env wide nw) := by
  have hslots : ∀ slot, slot ≠ (wide, nw) → slot ∈ (wide, nw) :: slots → slot ∈ slots :=
    fun slot hne hmem => (mem_cons.1 hmem).resolve_left hne
  rw [NetworkInterfaceV2.forwardHeldFlit]
  split
  case h_1 flit hheld =>
    have hrelease : Waiting cfg d slots (s.hold wide nw none) :=
      hs.release (fun _ _ _ h => h) hslots rfl (by rw [hheld]; exact (add_zero _).symm)
    have hforward := @Waiting.forwardToTarget cfg env _ nw flit d slots hrelease
    dsimp only
    split
    · exact hforward
    · exact hforward.output_other rfl
  case h_2 hno =>
    refine { hs with limited := fun {wide' nw' flit} hf => (hs.limited hf).imp_right (.imp_right (hslots _ ?_)) }
    rintro ⟨⟩
    exact hno flit hf

theorem Waiting.forwardHeld : ∀ {slots : List (Bool × Nw)} {s : NetworkInterfaceV2}, Waiting cfg d slots s →
    Waiting cfg d [] (slots.foldl (fun s slot => s.forwardHeldFlit cfg env slot.1 slot.2) s)
  | [], _, hs => hs
  | _ :: _, _, hs => hs.forwardHeldFlit.forwardHeld

/-- The debts, less the retries that a target has made on the links not in `nws`. -/
def Debts.retried (d : Debts) (wide : Bool) (nws : List Nw) : Debts :=
  { d with retry := fun wide' nw => d.retry wide' nw ∧ (wide' = wide → nw ∈ nws) }

theorem Waiting.retryFlit {nws : List Nw} (hs : Waiting cfg (d.retried wide (nw :: nws)) slots s) :
    Waiting cfg (d.retried wide nws) slots (retryFlit env wide s nw) := by
  have hretry : ∀ wide' nw', ¬(wide' = wide ∧ nw' = nw) → (d.retried wide (nw :: nws)).retry wide' nw' →
      (d.retried wide nws).retry wide' nw' :=
    fun wide' nw' hne h => ⟨h.1, fun heq => (mem_cons.1 (h.2 heq)).resolve_left fun hn => hne ⟨heq, hn⟩⟩
  rw [NetworkInterfaceV2.retryFlit]
  split
  case h_1 flit hheld =>
    obtain ⟨hdenied, hgone⟩ := @Waiting.sendToTarget cfg env s nw flit wide _ slots hs
    have hsame := @sendToTarget_held env s nw flit wide
    generalize s.sendToTarget env wide nw flit = r at hdenied hgone hsame ⊢
    obtain ⟨denied, t⟩ := r
    dsimp only at hdenied hgone hsame ⊢
    split
    case isTrue hd =>
      -- it has been denied again, in this event
      obtain ⟨ht, hcall⟩ := hdenied hd
      refine { ht with denied := fun {wide' nw' f} hf => ?_ }
      by_cases heq : wide' = wide ∧ nw' = nw
      · rw [heq.1, heq.2]
        exact .inr ⟨flit, hcall⟩
      · exact (ht.denied hf).imp_left (hretry _ _ heq)
    case isFalse hd =>
      refine .output_other (.release (hgone (Bool.eq_false_iff.2 hd)) hretry (fun _ _ h => h) rfl ?_) rfl
      rw [hsame, hheld]
      show d.answers = d.answers + -flit.txns + flit.txns
      abel
  case h_2 hno =>
    refine { hs with denied := fun {wide' nw' f} hf => (hs.denied hf).imp_left (hretry _ _ ?_) }
    rintro ⟨rfl, rfl⟩
    exact hno f hf

theorem Waiting.retryTarget (hs : Waiting cfg d slots s) :
    Waiting cfg (d.retried wide []) slots (s.retryTarget env wide) := by
  have hfold : ∀ (nws : List Nw) (s : NetworkInterfaceV2), Waiting cfg (d.retried wide nws) slots s →
      Waiting cfg (d.retried wide []) slots (nws.foldl (NetworkInterfaceV2.retryFlit env wide) s) := by
    intro nws
    induction nws with
    | nil => exact fun s hs => hs
    | cons nw nws ih => exact fun s hs => ih _ hs.retryFlit
  have hall : ∀ nw, nw ∈ [Nw.req, .rsp, .wide] := fun nw => by cases nw <;> decide
  have hstart : Waiting cfg (d.retried wide [.req, .rsp, .wide]) slots s :=
    { hs with denied := fun hf => (hs.denied hf).imp_left fun h => ⟨h, fun _ => hall _⟩ }
  exact (hfold _ s hstart).aside (@aside_enqueueFsm env _)

/-! ### Events -/

/-- The handler goes to its next phase; one that something waits for is not passed over. -/
theorem Waiting.pop {phase : FsmPhase} {todo : List FsmPhase} (hs : Waiting cfg d slots s)
    (htodo : s.fsmTodo = phase :: todo) (hpending : s.forwardHeldPending = true → phase ≠ .forwardHeld)
    (hqueued : s.responseQueue ≠ [] → s.fsmEvent = true ∨ phase ≠ .triggerNext) :
    Waiting cfg d slots { s with fsmTodo := todo } where
  denied := hs.denied
  limited := hs.limited
  pending hp := by
    refine (hs.pending hp).imp_right fun hmem => ?_
    rw [htodo] at hmem
    exact (mem_cons.1 hmem).resolve_left (hpending hp).symm
  queued hq := by
    rcases hqueued hq with hf | hne
    · exact .inl hf
    · refine (hs.queued hq).imp_right fun hmem => ?_
      rw [htodo] at hmem
      exact (mem_cons.1 hmem).resolve_left hne.symm
  txns := hs.txns

theorem Waiting.fsmPhase {phase : FsmPhase} {todo : List FsmPhase} (hs : Waiting cfg d [] s)
    (htodo : s.fsmTodo = phase :: todo) : Waiting cfg d [] ({ s with fsmTodo := todo }.fsmPhase cfg env phase) := by
  by_cases hresponse : phase = .response
  · subst hresponse
    have hpop := hs.pop htodo (fun _ => nofun) fun _ => .inr nofun
    rw [NetworkInterfaceV2.fsmPhase]
    split
    · exact hpop
    case h_2 flit rest hqueue =>
      split
      · have hrest : Waiting cfg (d.add flit.txns) [] { s with fsmTodo := todo, responseQueue := rest } := by
          refine { hpop with queued := fun _ => hpop.queued (by rw [hqueue]; exact cons_ne_nil _ _), txns :=
            fun hobeyed hstalled => (hpop.txns hobeyed hstalled).trans ?_ }
          rw [inTransit, inTransit, hqueue, map_cons, sum_cons]
          show _ = d.answers + flit.txns + _ + _
          abel
        have hdone := @Waiting.handleResponse cfg env _ _ _ flit hrest
        rwa [Debts.add_add, add_neg_cancel, Debts.add_zero] at hdone
      · exact hpop
  · by_cases hforward : phase = .forwardHeld
    · subst hforward
      rw [NetworkInterfaceV2.fsmPhase]
      split
      case isTrue =>
        -- every flit over the limit is visited
        have hstart : Waiting cfg d heldSlots { s with forwardHeldPending := false } :=
          ⟨hs.denied, fun _ => .inr (.inr (mem_heldSlots _ _)), nofun, hs.queued, hs.txns⟩
        exact (hstart.pop htodo nofun fun _ => .inr nofun).forwardHeld
      case isFalse hp => exact hs.pop htodo (fun h => absurd h hp) fun _ => .inr nofun
    · by_cases htrigger : phase = .triggerNext
      · subst htrigger
        rw [NetworkInterfaceV2.fsmPhase]
        split
        case isTrue =>
          have hstart : Waiting cfg d [] s.enqueueFsm := hs.aside (@aside_enqueueFsm env s)
          exact hstart.pop htodo (fun _ => nofun) fun _ => .inl rfl
        case isFalse hq => exact hs.pop htodo (fun _ => nofun) fun h => absurd h hq
      · exact (hs.pop htodo (fun _ => hforward) fun _ => .inr htrigger).aside (aside_fsmPhase hresponse hforward)

/-- **An event** leaves no held flit behind without what it waits for. -/
theorem Waiting.event {e : NiEvent} (hs : Waiting cfg d [] s) (h : s.event cfg env e = some s') :
    Waiting cfg (d.after e) [] s' := by
  cases e with
  | req wide req => exact hs.aside (aside_handleReq h)
  | linkReq nw flit =>
    rw [NetworkInterfaceV2.event, linkReq] at h
    split at h
    · rw [map_eq_some_iff] at h
      obtain ⟨t, ht, rfl⟩ := h
      exact (hs.aside (@aside_linkRsp env _ _ _ ht)).output_other rfl
    · split at h
      · cases h
        exact hs.output_other rfl
      · cases h
        exact hs.forwardToTarget.output_other rfl
  | linkUnstall nw =>
    cases h
    exact ⟨hs.denied, hs.limited, fun _ => .inl rfl, fun _ => .inl rfl, hs.txns⟩
  | response wide flit =>
    cases h
    rw [NetworkInterfaceV2.response]
    have haccept : Waiting cfg d [] (s.acceptResponse cfg wide flit).2 :=
      hs.aside (@aside_acceptResponse cfg env s flit wide)
    dsimp only
    split
    · have hdone := (@Waiting.handleResponse cfg env _ _ _ flit haccept).output (.respAck wide flit true)
      rwa [Debts.add_add, show Output.owed (.respAck wide flit true) = -flit.txns from rfl, neg_neg, neg_add_cancel,
        Debts.add_zero] at hdone
    · exact haccept.output_other rfl
  | retryTarget wide =>
    cases h
    have hretried : Waiting cfg (d.retried wide []) [] (s.retryTarget env wide) := hs.retryTarget
    exact { hretried with denied := fun hf => (hretried.denied hf).imp_left fun h =>
      ⟨h.1, fun heq => (by cases h.2 heq)⟩ }
  | fsm =>
    rw [NetworkInterfaceV2.event] at h
    split at h <;> cases h
    have hphases : .forwardHeld ∈ fsmPhases ∧ .triggerNext ∈ fsmPhases := by decide
    exact ⟨hs.denied, hs.limited, fun _ => .inr hphases.1, fun _ => .inr hphases.2, hs.txns⟩
  | phase =>
    rw [NetworkInterfaceV2.event] at h
    split at h <;> cases h
    next phase todo htodo => exact hs.fsmPhase htodo

theorem Waiting.log {e : NiEvent} (hs : Waiting cfg d [] { s with outputs := [] })
    (h : niStep cfg s (env, e) = some s') :
    Waiting cfg (d.log e s'.outputs) [] { s' with outputs := [] } := by
  have hevent := hs.event h
  refine { hevent with denied := fun hf => .inl (hevent.denied hf), txns := fun hobeyed _ => ?_ }
  have hbase : (d.after e).obeyed = d.obeyed ∧ (d.after e).answers = d.answers := by cases e <;> exact ⟨rfl, rfl⟩
  refine (hevent.txns (hbase.1 ▸ hobeyed.1) hobeyed.2).trans ?_
  rw [hbase.2]
  show _ = d.answers + (s'.outputs.map (·.owed)).sum + 0 + s'.inTransit
  rw [add_zero]

theorem Waiting.neverStuck (hs : Waiting cfg d [] { s with outputs := [] }) : NeverStuck cfg d s := by
  have hdenied : ∀ {wide nw flit}, s.held wide nw = some ⟨flit, true⟩ → d.retry wide nw :=
    fun hf => (hs.denied hf).resolve_right fun ⟨_, hmem⟩ => not_mem_nil hmem
  have hlimited : ∀ {wide nw flit}, s.held wide nw = some ⟨flit, false⟩ →
      cfg.niOutstandingReqs ≤ s.targetTxns wide flit.opcode.isWrite ∨ s.forwardHeldPending = true :=
    fun hf => (hs.limited hf).imp_right (Or.resolve_right · not_mem_nil)
  refine ⟨hdenied, fun hf => (hlimited hf).imp_right fun hp => ⟨hp, hs.pending hp⟩, ?_⟩
  intro hpos hobeyed hfsm htodo hretry hanswers wide nw
  have hidle : ∀ {p : FsmPhase}, ¬(s.fsmEvent = true ∨ p ∈ s.fsmTodo) := by simp [hfsm, htodo]
  have hqueue : s.responseQueue = [] := by_contra fun hne => hidle (hs.queued hne)
  have hslot : ∀ slot : Bool × Nw, deniedTxns (s.held slot.1 slot.2) = 0 := by
    intro slot
    cases hheld : s.held slot.1 slot.2 with
    | none => rfl
    | some h =>
      obtain ⟨flit, _ | _⟩ := h
      · rfl
      · exact absurd (hdenied hheld) (hretry _ _)
  have htxns : s.targetTxns = 0 := by
    refine (hs.txns hobeyed fun _ _ => not_mem_nil).trans ?_
    show d.answers + 0 + s.inTransit = 0
    rw [hanswers, inTransit, hqueue, funext hslot]
    simp [heldSlots]
  cases hheld : s.held wide nw with
  | none => rfl
  | some h =>
    obtain ⟨flit, _ | _⟩ := h
    · rcases hlimited hheld with hle | hp
      · rw [htxns] at hle
        exact absurd hle (not_le.2 hpos)
      · exact absurd (hs.pending hp) hidle
    · exact absurd (hdenied hheld) (hretry wide nw)

end NetworkInterfaceV2

end GvsocPulp.FloonocV2
