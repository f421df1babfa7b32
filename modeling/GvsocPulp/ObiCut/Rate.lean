import GvsocPulp.ObiCut.Lossless

/-!
# The rate of the cut

A channel should forward one request and one response per cycle. A retry sends the held head at once, though, and the
handler may be due in the same cycle. `step_sends` and `step_returns` say when an event forwards something, from the
state before it.
-/

namespace GvsocPulp.ObiCut

open Function List Cut

variable {ch' : Channel} {s' : Cut} {e : Event}

namespace Cut

variable (s : Cut)

def SendReady (ch : Channel) : Prop := ∃ access ∈ (s.reqQueue ch).head?, access.ready ≤ s.cycle

/-- The head of the response queue can go up. -/
def ReturnReady (ch : Channel) : Prop := ∃ response ∈ (s.respQueue ch).head?, response.ready ≤ s.cycle

/-- The event sends the head of a channel and the slave accepts it: the handler does if the head is not held, a retry if
it is. -/
def Sends (ch : Channel) : Event → Prop
  | .fsm env => s.downDenied ch = false ∧ s.SendReady ch ∧ env.slave ch ≠ .denied
  | .outRetry channel env => (channel.covers ch ∧ s.downDenied ch) ∧ s.SendReady ch ∧ env.slave ch ≠ .denied
  | _ => False

/-- The event sends the response at the head of a channel and the master accepts it. -/
def Returns (ch : Channel) : Event → Prop
  | .fsm env => s.upDenied ch = false ∧ s.ReturnReady ch ∧ env.masterDenies ch = false
  | .inRespRetry channel env => (channel.covers ch ∧ s.upDenied ch) ∧ s.ReturnReady ch ∧ env.masterDenies ch = false
  | _ => False

/-- A request has gone down in this cycle. -/
def SentNow (ch : Channel) : Prop := ∃ p ∈ s.sent ch, p.2 = s.cycle

/-- A response has gone up in this cycle. -/
def ReturnedNow (ch : Channel) : Prop := ∃ p ∈ s.returned ch, p.2 = s.cycle

/-- The event does not forward on a channel that has forwarded in this cycle. -/
def FirstOfCycle (e : Event) : Prop :=
  ∀ ch, ¬ (s.SentNow ch ∧ s.Sends ch e) ∧ ¬ (s.ReturnedNow ch ∧ s.Returns ch e)

/-- One request and one response per channel and cycle. -/
def Rate : Prop := ∀ ch, (s.sent ch).Pairwise (·.2 < ·.2) ∧ (s.returned ch).Pairwise (·.2 < ·.2)

variable {s t u : Cut} {ch : Channel} (cfg : Config) (env : Env)

/-! ## Logs -/

/-- One entry is logged if the condition holds, none otherwise. -/
structure LogsIf {α : Type} (P : Prop) (cycle : Nat) (log log' : List (α × Nat)) : Prop where
  of_pos : P → ∃ a, log' = log ++ [(a, cycle)]
  of_neg : ¬ P → log' = log

section LogsIf

variable {α : Type} {P Q : Prop} {cycle : Nat} {log log' : List (α × Nat)}

theorem LogsIf.yes (hP : P) (a : α) (h : log' = log ++ [(a, cycle)]) : LogsIf P cycle log log' :=
  ⟨fun _ => ⟨a, h⟩, fun hn => absurd hP hn⟩

theorem LogsIf.no (hP : ¬ P) (h : log' = log) : LogsIf P cycle log log' := ⟨fun hp => absurd hp hP, fun _ => h⟩

theorem LogsIf.congr (h : LogsIf P cycle log log') (hPQ : P ↔ Q) : LogsIf Q cycle log log' :=
  ⟨fun hq => h.of_pos (hPQ.2 hq), fun hq => h.of_neg fun hp => hq (hPQ.1 hp)⟩

/-- The cycles stay increasing unless an entry is logged in a cycle that has one. -/
theorem LogsIf.pairwise_iff (h : LogsIf P cycle log log') (hlog : log.Pairwise (·.2 < ·.2))
    (hle : ∀ p ∈ log, p.2 ≤ cycle) :
    log'.Pairwise (·.2 < ·.2) ↔ ¬ ((∃ p ∈ log, p.2 = cycle) ∧ P) := by
  by_cases hP : P
  · obtain ⟨a, rfl⟩ := h.of_pos hP
    rw [pairwise_append]
    constructor
    · rintro ⟨_, _, hlt⟩ ⟨⟨p, hp, heq⟩, _⟩
      exact (hlt p hp _ mem_cons_self).ne heq
    · intro hnot
      refine ⟨hlog, pairwise_singleton .., fun p hp q hq => ?_⟩
      obtain rfl := mem_singleton.1 hq
      exact (hle p hp).lt_of_ne fun heq => hnot ⟨⟨p, hp, heq⟩, hP⟩
  · rw [h.of_neg hP]
    exact ⟨fun _ hand => hP hand.2, fun _ => hlog⟩

end LogsIf

/-! ## The request side of a channel -/

/-- The requests of a channel stay as they are, apart from new ones, which are not ready in this cycle. -/
structure StillDown (ch : Channel) (s t : Cut) : Prop where
  cycle : t.cycle = s.cycle
  denied : t.downDenied ch = s.downDenied ch
  sent : t.sent ch = s.sent ch
  queue : ∃ news, t.reqQueue ch = s.reqQueue ch ++ news ∧ ∀ access ∈ news, s.cycle < access.ready

theorem StillDown.of_queue (hcycle : t.cycle = s.cycle) (hdenied : t.downDenied ch = s.downDenied ch)
    (hsent : t.sent ch = s.sent ch) (hqueue : t.reqQueue ch = s.reqQueue ch) : StillDown ch s t :=
  ⟨hcycle, hdenied, hsent, [], by rw [hqueue, append_nil], fun _ h => nomatch h⟩

theorem StillDown.refl (ch : Channel) (s : Cut) : StillDown ch s s := .of_queue rfl rfl rfl rfl

theorem StillDown.trans (h : StillDown ch s t) (h' : StillDown ch t u) : StillDown ch s u := by
  obtain ⟨news, hq, hnews⟩ := h.queue
  obtain ⟨news', hq', hnews'⟩ := h'.queue
  refine ⟨h'.cycle.trans h.cycle, h'.denied.trans h.denied, h'.sent.trans h.sent, news ++ news', ?_,
    fun access ha => ?_⟩
  · rw [hq', hq, append_assoc]
  · rcases mem_append.1 ha with ha | ha
    · exact hnews access ha
    · rw [← h.cycle]
      exact hnews' access ha

theorem StillDown.sendReady (h : StillDown ch s t) : t.SendReady ch ↔ s.SendReady ch := by
  obtain ⟨news, hq, hnews⟩ := h.queue
  unfold SendReady
  rw [hq, h.cycle]
  cases hs : s.reqQueue ch with
  | cons access rest => rfl
  | nil =>
    refine ⟨fun ⟨access, ha, hle⟩ => ?_, fun ⟨access, ha, _⟩ => nomatch ha⟩
    have hmem : access ∈ news := mem_of_mem_head? ha
    exact absurd hle (not_le.2 (hnews access hmem))

theorem StillDown.schedule (h : StillDown ch s t) : StillDown ch s t.schedule := by
  obtain ⟨event, heq⟩ := t.schedule_eq
  rw [heq]
  exact { h with }

theorem stillDown_inReq (ch : Channel) (s : Cut) (req : IoReq) : StillDown ch s (s.inReq cfg req).2 := by
  simp only [inReq]
  split_ifs
  · exact .of_queue rfl rfl rfl rfl
  · exact .refl ch s
  · refine StillDown.schedule ?_
    rcases eq_or_ne ch (channelOf req.opcode) with rfl | hc
    · refine ⟨rfl, rfl, rfl, _, update_self .., fun access ha => ?_⟩
      obtain rfl := mem_singleton.1 ha
      exact Nat.lt_succ_self _
    · exact .of_queue rfl rfl rfl (update_of_ne hc ..)

theorem stillDown_inReqs (ch : Channel) (s : Cut) (reqs : List IoReq) : StillDown ch s (s.inReqs cfg reqs) := by
  induction reqs generalizing s with
  | nil => exact .refl ch s
  | cons req reqs ih => exact (stillDown_inReq cfg ch s req).trans (ih _)

theorem stillDown_respond (ch : Channel) (s : Cut) (access : Access) (answer : Answer) (latency : Nat) :
    StillDown ch s (s.respond cfg access answer latency) :=
  StillDown.schedule (.of_queue rfl rfl rfl rfl)

theorem stillDown_sendUp (ch : Channel) (s : Cut) (ch' : Channel) : StillDown ch s (s.sendUp cfg env ch') := by
  unfold sendUp
  split
  · exact .refl ch s
  · split_ifs
    · exact .refl ch s
    · have h := stillDown_inReqs cfg ch s (env.inResp ch')
      exact { h with }
    · have h := stillDown_inReqs cfg ch s (env.inResp ch')
      exact { h with }

theorem stillDown_accepted (hne : ch ≠ ch') (s : Cut) (access : Access) (rest : List Access) :
    StillDown ch s (s.accepted cfg env ch' access rest) := by
  simp only [accepted]
  split_ifs
  · refine StillDown.trans ?_ (stillDown_inReqs cfg ch _ _)
    exact .of_queue rfl rfl (update_of_ne hne ..) (update_of_ne hne ..)
  · exact .of_queue rfl rfl (update_of_ne hne ..) (update_of_ne hne ..)

theorem stillDown_sendDown (hne : ch ≠ ch') (s : Cut) : StillDown ch s (s.sendDown cfg env ch') := by
  unfold sendDown
  split
  · exact .refl ch s
  · rename_i access rest hq
    split_ifs
    · exact .refl ch s
    · split
      · exact .of_queue rfl (update_of_ne hne ..) rfl rfl
      · exact (stillDown_accepted cfg env hne s access rest).trans (stillDown_respond cfg ch _ _ _ _)
      · have h := stillDown_accepted cfg env hne s access rest
        exact { h with }

theorem sendDown_logs (ch : Channel) (s : Cut) :
    LogsIf (s.downDenied ch = false ∧ s.SendReady ch ∧ env.slave ch ≠ .denied) s.cycle (s.sent ch)
      ((s.sendDown cfg env ch).sent ch) := by
  unfold sendDown
  split
  · rename_i hq
    refine .no (fun h => ?_) rfl
    obtain ⟨access, ha, _⟩ := h.2.1
    rw [hq] at ha
    cases ha
  · rename_i access rest hq
    split_ifs with hwait
    · refine .no (fun h => ?_) rfl
      obtain ⟨head, ha, hle⟩ := h.2.1
      rw [hq] at ha
      cases ha
      rcases hwait with hden | hlt
      · exact Bool.false_ne_true (h.1.symm.trans hden)
      · exact not_le.2 hlt hle
    · have hsent : (s.accepted cfg env ch access rest).sent ch = s.sent ch ++ [(access, s.cycle)] := by
        simp only [accepted]
        split_ifs
        · exact (stillDown_inReqs cfg ch _ _).sent.trans (update_self ..)
        · exact update_self ..
      have hopen : s.downDenied ch = false := Bool.eq_false_iff.2 fun h => hwait (.inl h)
      have hready : s.SendReady ch := ⟨access, by rw [hq]; rfl, not_lt.1 fun h => hwait (.inr h)⟩
      split
      · rename_i hslave
        exact .no (fun h => h.2.2 hslave) rfl
      · rename_i answer latency hslave
        refine .yes ⟨hopen, hready, by rw [hslave]; simp⟩ access ?_
        exact (stillDown_respond cfg ch _ _ _ _).sent.trans hsent
      · rename_i hslave
        exact .yes ⟨hopen, hready, by rw [hslave]; simp⟩ access hsent

theorem stillDown_retryDown (hne : ch ≠ ch') (channel : RetryChannel) (s : Cut) :
    StillDown ch s (s.retryDown cfg channel env ch') := by
  unfold retryDown
  split_ifs
  · refine StillDown.trans ?_ (stillDown_sendDown cfg env hne _)
    exact .of_queue rfl (update_of_ne hne ..) rfl rfl
  · exact .refl ch s

theorem retryDown_logs (ch : Channel) (channel : RetryChannel) (s : Cut) :
    LogsIf (s.Sends ch (.outRetry channel env)) s.cycle (s.sent ch) ((s.retryDown cfg channel env ch).sent ch) := by
  unfold retryDown
  split_ifs with hheld
  · have hlogs := sendDown_logs cfg env ch
      { s with downDenied := update s.downDenied ch false }
    exact hlogs.congr ⟨fun h => ⟨hheld, h.2.1, h.2.2⟩, fun h => ⟨update_self .., h.2.1, h.2.2⟩⟩
  · exact .no (fun h => hheld h.1) rfl

theorem stillDown_retryUp (ch : Channel) (channel : RetryChannel) (s : Cut) (ch' : Channel) :
    StillDown ch s (s.retryUp cfg channel env ch') := by
  unfold retryUp
  split_ifs
  · refine StillDown.trans ?_ (stillDown_sendUp cfg env ch _ ch')
    exact .of_queue rfl rfl rfl rfl
  · exact .refl ch s

theorem StillDown.logs {slave : SlaveReply} (hst : StillDown ch s t)
    (h : LogsIf (t.downDenied ch = false ∧ t.SendReady ch ∧ slave ≠ .denied) t.cycle (t.sent ch) (u.sent ch))
    (hu : StillDown ch u s') :
    LogsIf (s.downDenied ch = false ∧ s.SendReady ch ∧ slave ≠ .denied) s.cycle (s.sent ch) (s'.sent ch) := by
  rw [hu.sent]
  rw [hst.sendReady, hst.denied, hst.cycle, hst.sent] at h
  exact h

theorem step_sends (hs : s.step cfg e = some t) : LogsIf (s.Sends ch e) s.cycle (s.sent ch) (t.sent ch) := by
  cases e with
  | inReq req =>
    cases hs
    exact .no id (stillDown_inReq cfg ch s req).sent
  | outResp _ answer =>
    simp only [step, outResp] at hs
    split at hs
    · cases hs
    · cases hs
      exact .no id (stillDown_respond cfg ch _ _ _ _).sent
  | outRetry channel env =>
    cases hs
    have hne : Channel.read ≠ .write := by simp
    cases ch with
    | read =>
      have hwrite := stillDown_retryDown cfg env hne channel
        (s.retryDown cfg channel env .read)
      have hlogs := retryDown_logs cfg env .read channel s
      rw [← hwrite.schedule.sent] at hlogs
      exact hlogs
    | write =>
      have hread := stillDown_retryDown cfg env hne.symm channel s
      have hlogs := retryDown_logs cfg env .write channel (s.retryDown cfg channel env .read)
      rw [Sends, hread.denied, hread.sendReady, hread.cycle, hread.sent] at hlogs
      have hend : (s.outRetry cfg channel env).sent .write = _ := (StillDown.refl .write _).schedule.sent
      rw [hend]
      exact hlogs
  | inRespRetry channel env =>
    cases hs
    exact .no id ((stillDown_retryUp cfg env ch channel s .read).trans
      (stillDown_retryUp cfg env ch channel _ .write)).schedule.sent
  | fsm env =>
    simp only [step] at hs
    split_ifs at hs
    cases hs
    have hstart : StillDown ch s { s with fsmEvent := none } := .of_queue rfl rfl rfl rfl
    have hne : Channel.read ≠ .write := by simp
    cases ch with
    | read =>
      refine StillDown.logs (hstart.trans (stillDown_sendUp cfg env .read _ .read)) (sendDown_logs cfg env .read _) ?_
      exact ((stillDown_sendUp cfg env .read _ .write).trans (stillDown_sendDown cfg env hne _)).schedule
    | write =>
      refine StillDown.logs ?_ (sendDown_logs cfg env .write _) (StillDown.refl .write _).schedule
      exact ((hstart.trans (stillDown_sendUp cfg env .write _ .read)).trans
        (stillDown_sendDown cfg env hne.symm _)).trans
        (stillDown_sendUp cfg env .write _ .write)
  | tick =>
    simp only [step] at hs
    split_ifs at hs
    cases hs
    exact .no id rfl

/-! ## The response side of a channel -/

/-- The responses of a channel stay as they are, apart from new ones, which are not ready in this cycle. -/
structure StillUp (ch : Channel) (s t : Cut) : Prop where
  cycle : t.cycle = s.cycle
  denied : t.upDenied ch = s.upDenied ch
  returned : t.returned ch = s.returned ch
  queue : ∃ news, t.respQueue ch = s.respQueue ch ++ news ∧ ∀ response ∈ news, s.cycle < response.ready

theorem StillUp.of_queue (hcycle : t.cycle = s.cycle) (hdenied : t.upDenied ch = s.upDenied ch)
    (hreturned : t.returned ch = s.returned ch) (hqueue : t.respQueue ch = s.respQueue ch) : StillUp ch s t :=
  ⟨hcycle, hdenied, hreturned, [], by rw [hqueue, append_nil], fun _ h => nomatch h⟩

theorem KeepsResponses.stillUp (h : KeepsResponses s t) : StillUp ch s t :=
  .of_queue h.cycle (congrFun h.upDenied ch) (congrFun h.returned ch) (congrFun h.respQueue ch)

theorem StillUp.refl (ch : Channel) (s : Cut) : StillUp ch s s := .of_queue rfl rfl rfl rfl

theorem StillUp.trans (h : StillUp ch s t) (h' : StillUp ch t u) : StillUp ch s u := by
  obtain ⟨news, hq, hnews⟩ := h.queue
  obtain ⟨news', hq', hnews'⟩ := h'.queue
  refine ⟨h'.cycle.trans h.cycle, h'.denied.trans h.denied, h'.returned.trans h.returned, news ++ news', ?_,
    fun response hr => ?_⟩
  · rw [hq', hq, append_assoc]
  · rcases mem_append.1 hr with hr | hr
    · exact hnews response hr
    · rw [← h.cycle]
      exact hnews' response hr

theorem StillUp.returnReady (h : StillUp ch s t) : t.ReturnReady ch ↔ s.ReturnReady ch := by
  obtain ⟨news, hq, hnews⟩ := h.queue
  unfold ReturnReady
  rw [hq, h.cycle]
  cases hs : s.respQueue ch with
  | cons response rest => rfl
  | nil =>
    refine ⟨fun ⟨response, hr, hle⟩ => ?_, fun ⟨response, hr, _⟩ => nomatch hr⟩
    have hmem : response ∈ news := mem_of_mem_head? hr
    exact absurd hle (not_le.2 (hnews response hmem))

theorem StillUp.schedule (h : StillUp ch s t) : StillUp ch s t.schedule := by
  obtain ⟨event, heq⟩ := t.schedule_eq
  rw [heq]
  exact { h with }

theorem stillUp_respond (ch : Channel) (s : Cut) (access : Access) (answer : Answer) (latency : Nat) :
    StillUp ch s (s.respond cfg access answer latency) := by
  refine StillUp.schedule ?_
  rcases eq_or_ne ch (channelOf access.up.opcode) with rfl | hc
  · refine ⟨rfl, rfl, rfl, _, update_self .., fun response hr => ?_⟩
    obtain rfl := mem_singleton.1 hr
    simp only
    omega
  · exact .of_queue rfl rfl rfl (update_of_ne hc ..)

theorem stillUp_accepted (ch : Channel) (s : Cut) (ch' : Channel) (access : Access) (rest : List Access) :
    StillUp ch s (s.accepted cfg env ch' access rest) := by
  simp only [accepted]
  split_ifs
  · refine StillUp.trans ?_ (keeps_inReqs cfg _ _).stillUp
    exact .of_queue rfl rfl rfl rfl
  · exact .of_queue rfl rfl rfl rfl

theorem stillUp_sendDown (ch : Channel) (s : Cut) (ch' : Channel) : StillUp ch s (s.sendDown cfg env ch') := by
  unfold sendDown
  split
  · exact .refl ch s
  · rename_i access rest hq
    split_ifs
    · exact .refl ch s
    · split
      · exact .of_queue rfl rfl rfl rfl
      · exact (stillUp_accepted cfg env ch s ch' access rest).trans (stillUp_respond cfg ch _ _ _ _)
      · have h := stillUp_accepted cfg env ch s ch' access rest
        exact { h with }

theorem stillUp_sendUp (hne : ch ≠ ch') (s : Cut) : StillUp ch s (s.sendUp cfg env ch') := by
  unfold sendUp
  split
  · exact .refl ch s
  · have h : StillUp ch s (s.inReqs cfg (env.inResp ch')) := (keeps_inReqs cfg s (env.inResp ch')).stillUp
    split_ifs
    · exact .refl ch s
    · exact h.trans (.of_queue rfl (update_of_ne hne ..) rfl rfl)
    · exact h.trans (.of_queue rfl rfl (update_of_ne hne ..) (update_of_ne hne ..))

theorem sendUp_logs (ch : Channel) (s : Cut) :
    LogsIf (s.upDenied ch = false ∧ s.ReturnReady ch ∧ env.masterDenies ch = false) s.cycle (s.returned ch)
      ((s.sendUp cfg env ch).returned ch) := by
  unfold sendUp
  split
  · rename_i hq
    refine .no (fun h => ?_) rfl
    obtain ⟨response, hr, _⟩ := h.2.1
    rw [hq] at hr
    cases hr
  · rename_i response rest hq
    have hkeeps := keeps_inReqs cfg s (env.inResp ch)
    split_ifs with hwait hden
    · refine .no (fun h => ?_) rfl
      obtain ⟨head, hr, hle⟩ := h.2.1
      rw [hq] at hr
      cases hr
      rcases hwait with hden | hlt
      · exact Bool.false_ne_true (h.1.symm.trans hden)
      · exact not_le.2 hlt hle
    · exact .no (fun h => Bool.false_ne_true (h.2.2.symm.trans hden)) (congrFun hkeeps.returned ch)
    · have hopen : s.upDenied ch = false := Bool.eq_false_iff.2 fun h => hwait (.inl h)
      have hready : s.ReturnReady ch := ⟨response, by rw [hq]; rfl, not_lt.1 fun h => hwait (.inr h)⟩
      refine .yes ⟨hopen, hready, Bool.eq_false_iff.2 hden⟩ response ?_
      simp [hkeeps.returned, hkeeps.cycle]

theorem stillUp_retryUp (hne : ch ≠ ch') (channel : RetryChannel) (s : Cut) :
    StillUp ch s (s.retryUp cfg channel env ch') := by
  unfold retryUp
  split_ifs
  · refine StillUp.trans ?_ (stillUp_sendUp cfg env hne _)
    exact .of_queue rfl (update_of_ne hne ..) rfl rfl
  · exact .refl ch s

theorem retryUp_logs (ch : Channel) (channel : RetryChannel) (s : Cut) :
    LogsIf (s.Returns ch (.inRespRetry channel env)) s.cycle (s.returned ch)
      ((s.retryUp cfg channel env ch).returned ch) := by
  unfold retryUp
  split_ifs with hheld
  · have hlogs := sendUp_logs cfg env ch { s with upDenied := update s.upDenied ch false }
    exact hlogs.congr ⟨fun h => ⟨hheld, h.2.1, h.2.2⟩, fun h => ⟨update_self .., h.2.1, h.2.2⟩⟩
  · exact .no (fun h => hheld h.1) rfl

theorem stillUp_retryDown (ch : Channel) (channel : RetryChannel) (s : Cut) (ch' : Channel) :
    StillUp ch s (s.retryDown cfg channel env ch') := by
  unfold retryDown
  split_ifs
  · refine StillUp.trans ?_ (stillUp_sendDown cfg env ch _ ch')
    exact .of_queue rfl rfl rfl rfl
  · exact .refl ch s

theorem StillUp.logs {denies : Bool} (hst : StillUp ch s t)
    (h : LogsIf (t.upDenied ch = false ∧ t.ReturnReady ch ∧ denies = false) t.cycle (t.returned ch) (u.returned ch))
    (hu : StillUp ch u s') :
    LogsIf (s.upDenied ch = false ∧ s.ReturnReady ch ∧ denies = false) s.cycle (s.returned ch) (s'.returned ch) := by
  rw [hu.returned]
  rw [hst.returnReady, hst.denied, hst.cycle, hst.returned] at h
  exact h

theorem step_returns (hs : s.step cfg e = some t) :
    LogsIf (s.Returns ch e) s.cycle (s.returned ch) (t.returned ch) := by
  cases e with
  | inReq req =>
    cases hs
    exact .no id (congrFun (keeps_inReq cfg s req).returned ch)
  | outResp _ answer =>
    simp only [step, outResp] at hs
    split at hs
    · cases hs
    · cases hs
      exact .no id (stillUp_respond cfg ch _ _ _ _).returned
  | outRetry channel env =>
    cases hs
    exact .no id ((stillUp_retryDown cfg env ch channel s .read).trans
      (stillUp_retryDown cfg env ch channel _ .write)).schedule.returned
  | inRespRetry channel env =>
    cases hs
    have hne : Channel.read ≠ .write := by simp
    cases ch with
    | read =>
      have hwrite := stillUp_retryUp cfg env hne channel
        (s.retryUp cfg channel env .read)
      have hlogs := retryUp_logs cfg env .read channel s
      rw [← hwrite.schedule.returned] at hlogs
      exact hlogs
    | write =>
      have hread := stillUp_retryUp cfg env hne.symm channel s
      have hlogs := retryUp_logs cfg env .write channel (s.retryUp cfg channel env .read)
      rw [Returns, hread.denied, hread.returnReady, hread.cycle, hread.returned] at hlogs
      have hend : (s.inRespRetry cfg channel env).returned .write = _ := (StillUp.refl .write _).schedule.returned
      rw [hend]
      exact hlogs
  | fsm env =>
    simp only [step] at hs
    split_ifs at hs
    cases hs
    have hstart : StillUp ch s { s with fsmEvent := none } := .of_queue rfl rfl rfl rfl
    have hne : Channel.read ≠ .write := by simp
    cases ch with
    | read =>
      refine StillUp.logs hstart (sendUp_logs cfg env .read _) ?_
      exact (((stillUp_sendDown cfg env .read _ .read).trans (stillUp_sendUp cfg env hne _)).trans
        (stillUp_sendDown cfg env .read _ .write)).schedule
    | write =>
      refine StillUp.logs ?_ (sendUp_logs cfg env .write _) (stillUp_sendDown cfg env .write _ .write).schedule
      exact (hstart.trans (stillUp_sendUp cfg env hne.symm _)).trans (stillUp_sendDown cfg env .write _ .read)
  | tick =>
    simp only [step] at hs
    split_ifs at hs
    cases hs
    exact .no id rfl

end Cut

end GvsocPulp.ObiCut
