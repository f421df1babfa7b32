import GvsocPulp.UdmaV3.Channels

/-!
# What the core does to its channels

Each operation of the core is one of the operations on the view of one channel, and leaves the views of the others. That
the words that are delivered are the oldest ones of their channels is not so in general: `push_ordered` goes by the
cycles in which they become ready. `DueInOrder` says that it is so.
-/

namespace GvsocPulp.UdmaV3

open Lib List

variable {s' : Udma} {latency : Nat} {data : Word}

/-! ## The order of the answered reads -/

section

variable {r : Read} {l : List Read} {ch : Nat}

theorem pushOrdered_perm (r : Read) (l : List Read) : (pushOrdered r l).Perm (r :: l) := by
  induction l with
  | nil => rfl
  | cons w rest ih =>
    rw [pushOrdered]
    split
    case isTrue => exact (ih.cons w).trans (.swap r w rest)
    case isFalse => rfl

theorem pushOrdered_other (h : r.channel ≠ ch) :
    (pushOrdered r l).filter (·.channel = ch) = l.filter (·.channel = ch) := by
  induction l with
  | nil => simp [pushOrdered, h]
  | cons w rest ih =>
    rw [pushOrdered]
    split
    case isTrue => rw [filter_cons, filter_cons, ih]
    case isFalse => rw [filter_cons_of_neg (by simpa using h)]

theorem pushOrdered_due {now : Nat} (h : now < r.readyCycle) :
    (pushOrdered r l).takeWhile (·.readyCycle ≤ now) = l.takeWhile (·.readyCycle ≤ now) := by
  have hr : ¬r.readyCycle ≤ now := by omega
  induction l with
  | nil => simp [pushOrdered, hr]
  | cons w rest ih =>
    rw [pushOrdered]
    split
    case isTrue => rw [takeWhile_cons, takeWhile_cons, ih]
    case isFalse hgt =>
      have hw : ¬w.readyCycle ≤ now := by omega
      simp [hr, hw]

end

namespace Udma

variable {cfg : Config} {s : Udma} {ch : Nat} {r : Read}

def view (s : Udma) (ch : Nat) : View where
  channel := s.channels ch
  waiting := s.l2ReadWaiting.filter (·.channel = ch)
  unanswered := (s.l2ReadInFlight ++ s.l2ReadDenied.toList).filter (·.channel = ch)
  answered := s.answered.filter (·.channel = ch)
  queued := s.readyTxChannels.count ch
  events := s.events.count ch
  writes := s.issuedWrites.filter (·.channel = ch)

/-- The words of the channel `ch` that `event_handler` delivers in this cycle. -/
def dueWords (s : Udma) (ch : Nat) : List (Word × Int) :=
  ((s.l2ReadWaiting.takeWhile (·.readyCycle ≤ s.cycle)).filter (·.channel = ch)).map Read.key

/-- The words that are due are the oldest ones of their channel, in the order in which they were asked for. -/
def DueInOrder (s : Udma) : Prop :=
  ∀ r ∈ s.l2ReadWaiting, s.dueWords r.channel <+: (s.channels r.channel).sent.drop (s.channels r.channel).delivered

instance (s : Udma) : Decidable s.DueInOrder :=
  inferInstanceAs (Decidable (∀ r ∈ s.l2ReadWaiting, _))

/-! ## What concerns no stream -/

theorem checkState_eq (s : Udma) : ∃ event, s.checkState = { s with event := event } := by
  rw [checkState]
  split <;> exact ⟨_, rfl⟩

@[simp] theorem view_checkState (s : Udma) (ch : Nat) : s.checkState.view ch = s.view ch := by
  obtain ⟨event, heq⟩ := s.checkState_eq
  rw [heq]
  rfl

theorem view_setChannel (c : Channel) (ch ch' : Nat) :
    (s.setChannel ch c).view ch' = if ch' = ch then { s.view ch with channel := c } else s.view ch' := by
  by_cases h : ch' = ch
  · subst h
    simp [view, setChannel]
  · simp [view, setChannel, h]

def ViewsOk (cfg : Config) (s : Udma) : Prop := ∀ ch, ChannelOk (cfg.isTx ch) (s.view ch)

theorem ViewsOk.change (h : ViewsOk cfg s) (ch : Nat) (hother : ∀ ch', ch' ≠ ch → s'.view ch' = s.view ch')
    (hself : ChannelOk (cfg.isTx ch) (s'.view ch)) : ViewsOk cfg s' := by
  intro ch'
  by_cases hch : ch' = ch
  · exact hch ▸ hself
  · rw [hother ch' hch]
    exact h ch'

theorem ViewsOk.setChannel {c : Channel} (h : ViewsOk cfg s)
    (hself : ChannelOk (cfg.isTx ch) { s.view ch with channel := c }) : ViewsOk cfg (s.setChannel ch c) := by
  refine h.change ch (fun ch' hch => ?_) ?_
  · rw [view_setChannel, if_neg hch]
  · rw [view_setChannel, if_pos rfl]
    exact hself

theorem ViewsOk.checkState (h : ViewsOk cfg s) : ViewsOk cfg s.checkState := fun ch => by
  rw [view_checkState]
  exact h ch

theorem ViewsOk.exists_current (h : ViewsOk cfg s) (ch : Nat)
    (hbusy : (s.view ch).waiting ≠ [] ∨ (s.view ch).unanswered ≠ [] ∨ (s.view ch).queued ≠ 0) :
    cfg.isTx ch = true ∧ ∃ t, (s.channels ch).current = some t := by
  cases htx : cfg.isTx ch with
  | true => exact ⟨rfl, ((h ch).sent htx).exists_current hbusy⟩
  | false =>
    obtain ⟨hwaiting, hunanswered, hqueued⟩ := ((h ch).stored htx).noReads
    simp [hwaiting, hunanswered, hqueued] at hbusy

/-! ## Transfers -/

theorem handleTransferEnd_view (ch' : Nat) :
    (s.handleTransferEnd ch).view ch' = if ch' = ch then (s.view ch).endTransfer s.cycle else s.view ch' := by
  by_cases h : ch' = ch
  · subst h
    simp [view, handleTransferEnd, Udma.setChannel, View.endTransfer]
  · simp [view, handleTransferEnd, Udma.setChannel, h, count_append, Ne.symm h]

theorem ViewsOk.channelHandler (h : ViewsOk cfg s) (ch : Nat) : ViewsOk cfg (s.channelHandler cfg ch) := by
  rw [Udma.channelHandler]
  split
  case h_1 t rest hpend hcur =>
    refine ViewsOk.checkState (h.change ch (fun ch' hch => ?_) ?_)
    · split <;> simp [view, Udma.setChannel, hch, count_append, hch.symm]
    · have hstart := (h ch).start hcur hpend
      split
      case isTrue htx =>
        rw [htx] at hstart ⊢
        simpa [view, Udma.setChannel, View.start] using hstart
      case isFalse hrx =>
        rw [eq_false_of_ne_true hrx] at hstart ⊢
        simpa [view, Udma.setChannel, View.start] using hstart
  case h_2 hno =>
    refine h.setChannel ((h ch).idle fun hcur => ?_)
    by_contra hpend
    obtain ⟨t, rest, hpend⟩ := exists_cons_of_ne_nil hpend
    exact hno t rest hpend hcur

/-! ## Reads -/

theorem l2ReadEnd_view_other (h : r.channel ≠ ch) :
    (s.l2ReadEnd r latency data).view ch = s.view ch := by
  simp [view, l2ReadEnd, pushOrdered_other, h]

theorem ViewsOk.l2ReadEnd {unanswered : List Read} (h : ViewsOk cfg s')
    (hother : ∀ ch, r.channel ≠ ch → s.view ch = s'.view ch)
    (hself : s'.view r.channel = { s.view r.channel with unanswered := unanswered })
    (hun : unanswered.Perm (r :: (s.view r.channel).unanswered)) (htx : cfg.isTx r.channel = true) :
    ViewsOk cfg (s.l2ReadEnd r latency data) := by
  refine h.change r.channel (fun ch hch => ?_) ?_
  · rw [l2ReadEnd_view_other hch.symm, hother ch hch.symm]
  · let answered : Read := { r with readyCycle := s.cycle + latency, data := data }
    have hwaiting : ((s.l2ReadEnd r latency data).view r.channel).waiting.Perm
      (answered :: (s.view r.channel).waiting) := by
      have hfilter := (pushOrdered_perm answered s.l2ReadWaiting).filter (·.channel = r.channel)
      rwa [filter_cons_of_pos (by simp [answered])] at hfilter
    have hanswered : ((s.l2ReadEnd r latency data).view r.channel).answered.Perm
      (answered :: (s.view r.channel).answered) := by
      have hone : [answered].filter (·.channel = r.channel) = [answered] := by simp [answered]
      simp only [view, Udma.l2ReadEnd, filter_append]
      rw [hone]
      exact perm_append_singleton answered _
    have hbefore := h r.channel
    rw [hself, htx] at hbefore
    rw [htx]
    exact hbefore.answer r answered rfl hwaiting hun hanswered

theorem ViewsOk.readReq (h : ViewsOk cfg s') (hdenied : s.l2ReadDenied = none)
    (hother : ∀ ch, r.channel ≠ ch → s.view ch = s'.view ch)
    (hself : s'.view r.channel = { s.view r.channel with unanswered := (s.view r.channel).unanswered ++ [r] })
    (htx : cfg.isTx r.channel = true) (a : Answer) : ViewsOk cfg (s.readReq r a) := by
  have hposted : ∀ u : Udma, (∀ ch, r.channel ≠ ch → u.view ch = s.view ch) →
      u.view r.channel = { s.view r.channel with unanswered := (s.view r.channel).unanswered ++ [r] } →
        ViewsOk cfg u := by
    intro u huother huself
    refine h.change r.channel (fun ch hch => ?_) ?_
    · rw [huother ch hch.symm, hother ch hch.symm]
    · rw [huself, ← hself]
      exact h r.channel
  cases a with
  | done latency data => exact h.l2ReadEnd hother hself (perm_append_singleton r _) htx
  | granted =>
    refine hposted _ (fun ch hch => ?_) ?_
    · simp [view, Udma.readReq, hch]
    · simp [view, Udma.readReq, hdenied]
  | denied =>
    refine hposted _ (fun ch hch => ?_) ?_
    · simp [view, Udma.readReq, hdenied, hch]
    · simp [view, Udma.readReq, hdenied]

section

variable (h : ViewsOk cfg s)
include h

theorem ViewsOk.sendL2Read (a : Answer) : ViewsOk cfg (s.sendL2Read a) := by
  rw [Udma.sendL2Read]
  split
  case h_2 => exact h
  case h_1 ch chs id ids hdenied hchs hids =>
    have hqueued : (s.view ch).queued ≠ 0 := by simp [view, hchs]
    obtain ⟨htx, t, hcur⟩ := h.exists_current ch (.inr (.inr hqueued))
    simp only [hcur]
    let r := wordReq id ch t
    let posted : Udma :=
      { s.setChannel ch { s.channels ch with current := some t.prepareReq, sent := (s.channels ch).sent ++
        [r.key] } with
        readyTxChannels := if t.isLast then chs else chs ++ [ch]
        l2ReadDenied := some r }
    have hsend := (htx ▸ h ch).send (r := r) hcur hqueued fun m hat hm => hat.wordReq hm id ch
    have hposted : ViewsOk cfg posted := by
      refine h.change ch (fun ch' hch => ?_) ?_
      · have hne : r.channel ≠ ch' := hch.symm
        simp only [posted, view, Udma.setChannel, hdenied, hchs, Function.update_of_ne hch]
        split <;> simp [hne, hch.symm, count_append]
      · rw [htx]
        have heq : posted.view ch = (s.view ch).send t r := by
          simp only [posted, view, View.send, Udma.setChannel, hdenied, hchs, Function.update_self]
          split <;> simp [r, wordReq, count_append, *]
        rw [heq]
        exact hsend
    refine ViewsOk.readReq hposted ?_ ?_ ?_ ?_ a
    · exact hdenied
    · intro ch' hch
      have hch : r.channel ≠ ch' := hch
      simp [posted, r, view, Udma.setChannel, hdenied, hch]
    · have hch : r.channel = ch := rfl
      simp [posted, r, view, Udma.setChannel, hdenied, wordReq]
    · exact htx

theorem ViewsOk.l2RoRetry (a : Answer) : ViewsOk cfg (s.l2RoRetry a) := by
  rw [Udma.l2RoRetry]
  split
  case h_1 => exact h
  case h_2 r hdenied =>
    obtain ⟨htx, -⟩ := h.exists_current r.channel (.inr (.inl (by simp [view, hdenied])))
    refine ViewsOk.checkState (h.readReq rfl (fun ch hch => ?_) ?_ htx a)
    · simp [view, hdenied, hch]
    · simp [view, hdenied]

theorem ViewsOk.l2RoResp (hr : r ∈ s.l2ReadInFlight) (latency : Nat) (data : Word) :
    ViewsOk cfg (s.l2RoResp r latency data) := by
  have hmem : r ∈ (s.view r.channel).unanswered := by simp [view, hr]
  obtain ⟨htx, -⟩ := h.exists_current r.channel (.inr (.inl (ne_nil_of_mem hmem)))
  have hperm := (perm_cons_erase hr).append_right s.l2ReadDenied.toList
  refine ViewsOk.checkState (h.l2ReadEnd (fun ch hch => ?_) rfl ?_ htx)
  · have herase : (s.l2ReadInFlight.erase r).filter (·.channel = ch) = s.l2ReadInFlight.filter (·.channel = ch) := by
      rw [← erase_filter, erase_of_not_mem]
      simp [hch]
    simp [view, herase]
  · have hfilter := hperm.filter (·.channel = r.channel)
    rwa [cons_append, filter_cons_of_pos (by simp)] at hfilter

theorem ViewsOk.pushReadyReq {rest : List Read} (hw : s.l2ReadWaiting = r :: rest)
    (hnext : (s.channels r.channel).sent[(s.channels r.channel).delivered]? = some r.key) :
    ViewsOk cfg (pushReadyReq r { s with l2ReadWaiting := rest }) := by
  have hwaiting : (s.view r.channel).waiting = r :: rest.filter (·.channel = r.channel) := by simp [view, hw]
  obtain ⟨htx, t, hcur⟩ := h.exists_current r.channel (.inl (by simp [hwaiting]))
  have hdeliver := (htx ▸ h r.channel).deliver hcur hwaiting hnext
  simp only [Udma.pushReadyReq, hcur]
  refine h.change r.channel (fun ch hch => ?_) ?_
  · simp [view, Udma.setChannel, hw, hch, hch.symm]
  · rw [htx]
    simpa [view, Udma.setChannel, View.deliver] using hdeliver

/-! ## The peripherals -/

theorem ViewsOk.handleReadyReqs (htx : cfg.isTx ch = true) : ViewsOk cfg (s.handleReadyReqs ch) := by
  rw [Udma.handleReadyReqs]
  split
  case h_1 => exact h
  case h_2 r rest hready =>
    have htake := (htx ▸ h ch).take hready
    refine h.setChannel ?_
    rw [htx]
    exact htake

theorem ViewsOk.handleReadyReqEnd (htx : cfg.isTx ch = true) :
    ViewsOk cfg (s.handleReadyReqEnd ch r) := by
  let freed := s.setChannel ch { s.channels ch with pendingReq := none }
  have hreceived : (freed.channels ch).received = (s.channels ch).received := by
    simp [freed, Udma.setChannel, Channel.received]
  have hviews : ViewsOk cfg (if (freed.channels ch).received then freed.handleTransferEnd ch else freed) := by
    rw [hreceived]
    split
    case isTrue hyes =>
      have hend := (htx ▸ h ch).freeEnd s.cycle hyes
      refine h.change ch (fun ch' hch => ?_) ?_
      · rw [handleTransferEnd_view, if_neg hch, view_setChannel, if_neg hch]
      · rw [handleTransferEnd_view, if_pos rfl, view_setChannel, if_pos rfl, htx]
        exact hend
    case isFalse hno =>
      have hfree := (htx ▸ h ch).free (eq_false_of_ne_true hno)
      exact h.setChannel (htx.symm ▸ hfree)
  exact ViewsOk.checkState hviews

end

theorem pushL2WriteReq_view (w : Write) (ch : Nat) :
    (s.pushL2WriteReq w).view ch =
      { s.view ch with writes := (s.view ch).writes ++ if w.channel = ch then [w] else [] } := by
  rw [pushL2WriteReq, view_checkState]
  by_cases h : w.channel = ch <;> simp [view, filter_append, h]

theorem writeWord_view {t : Transfer} (ch' : Nat) :
    (s.writeWord ch t).view ch' =
      if ch' = ch then
        if t.isLast then ((s.view ch).write t (pendingWrite ch t (s.channels ch))).endTransfer s.cycle
        else (s.view ch).write t (pendingWrite ch t (s.channels ch))
      else s.view ch' := by
  have hcycle : ∀ (w : Write) (u : Udma), (u.pushL2WriteReq w).cycle = u.cycle := by
    intro w u
    obtain ⟨event, heq⟩ := checkState_eq
      { u with l2WriteReqs := u.l2WriteReqs ++ [w], issuedWrites := u.issuedWrites ++ [w] }
    rw [pushL2WriteReq, heq]
  rw [writeWord]
  by_cases hch : ch' = ch
  · subst hch
    rw [if_pos rfl]
    split
    case isTrue =>
      rw [handleTransferEnd_view, if_pos rfl, hcycle, pushL2WriteReq_view, if_pos rfl, view_setChannel, if_pos rfl]
      rfl
    case isFalse =>
      rw [pushL2WriteReq_view, if_pos rfl, view_setChannel, if_pos rfl]
      rfl
  · rw [if_neg hch]
    split
    case isTrue =>
      rw [handleTransferEnd_view, if_neg hch, pushL2WriteReq_view, if_neg (Ne.symm hch), view_setChannel, if_neg hch,
        append_nil]
    case isFalse =>
      rw [pushL2WriteReq_view, if_neg (Ne.symm hch), view_setChannel, if_neg hch, append_nil]

theorem ViewsOk.pushData (h : ViewsOk cfg s) (hrx : cfg.isTx ch = false) (byte : Byte) :
    ViewsOk cfg (s.pushData ch [byte]) := by
  obtain ⟨hs, hsched, hsent, hr⟩ := hrx ▸ h ch
  obtain ⟨hword, hreads, hidle, hbusy⟩ := hr rfl
  rw [Udma.pushData]
  split
  case h_1 => exact h
  case h_2 t hcur =>
    obtain ⟨m, hm⟩ := hbusy t hcur
    have hindex : (s.channels ch).pendingByteIndex < 4 := hm.index
    rw [if_neg (by rw [length_singleton]; omega)]
    let pushed : Udma := s.setChannel ch
      { s.channels ch with
        pendingWord := (s.channels ch).fillWord [byte]
        pendingByteIndex := (s.channels ch).pendingByteIndex + [byte].length
        pushed := (s.channels ch).pushed ++ [byte] }
    have hview : ∀ ch', pushed.view ch' = if ch' = ch then (s.view ch).push [byte] else s.view ch' :=
      fun ch' => view_setChannel _ _ ch'
    have hchannel : pushed.channels ch = ((s.view ch).push [byte]).channel := by
      simp [pushed, Udma.setChannel, View.push, view]
    have hfilled := hm.push hword byte
    show ViewsOk cfg (if _ then pushed.writeWord ch t else pushed)
    split
    case isTrue hfull =>
      refine h.change ch (fun ch' hch => ?_) ?_
      · rw [writeWord_view, if_neg hch, hview, if_neg hch]
      · rw [writeWord_view, if_pos rfl, hview, if_pos rfl, hchannel, hrx]
        have hslots : SlotsOk ((s.view ch).push [byte]) := { hs with }
        split
        case isTrue hyes => exact .writeEnd _ hslots hcur hreads hfilled ch hfull hyes
        case isFalse hno => exact .write hslots hcur hreads hfilled ch hfull (eq_false_of_ne_true hno)
    case isFalse hno =>
      refine h.change ch (fun ch' hch => ?_) ?_
      · rw [hview, if_neg hch]
      · rw [hview, if_pos rfl, hrx]
        exact ChannelOk.push ⟨hs, hsched, by simp, hr⟩ hcur byte hno

/-! ## Writes -/

theorem writeReq_view (w : Write) (a : Answer) (ch : Nat) : (s.writeReq w a).view ch = s.view ch := by cases a <;> rfl

theorem ViewsOk.l2WoRetry (h : ViewsOk cfg s) (a : Answer) : ViewsOk cfg (s.l2WoRetry a) := by
  rw [Udma.l2WoRetry]
  split
  case h_1 => exact h
  case h_2 w _ =>
    refine ViewsOk.checkState fun ch => ?_
    rw [writeReq_view]
    exact h ch

theorem ViewsOk.l2WoResp (h : ViewsOk cfg s) (w : Write) : ViewsOk cfg (s.l2WoResp w) := ViewsOk.checkState h

end Udma

end GvsocPulp.UdmaV3
