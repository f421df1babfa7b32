import GvsocPulp.UdmaV3.Ports

/-!
# The streams of the uDMA (v3)

`Exact`: every transfer moves its words in order, each once, ends once, and is not left over. A read is put among the
waiting ones by the cycle in which it becomes ready, so an answer with a short latency overtakes those of earlier words:
the streams are exact in every run in which the words that become due are the oldest of their channels and the sizes are
positive as `int32_t` (`udma_streams`).
-/

namespace GvsocPulp.UdmaV3

open Lib Function List Option Channel

def Channel.running (c : Channel) : List (Word × Word) := (c.current.toList ++ c.pending).map Transfer.job

namespace Udma

variable {cfg : Config} {s : Udma} {ch : Nat} {r : Read}

/-! ## The delivery of the words that are due -/

/-- The words of the channel that were asked for and have not reached it. -/
def next (s : Udma) (ch : Nat) : List (Word × Int) := (s.channels ch).sent.drop (s.channels ch).delivered

theorem DueInOrder.prefix_next (h : s.DueInOrder) (ch : Nat) : s.dueWords ch <+: s.next ch := by
  cases hdue : s.dueWords ch with
  | nil => exact nil_prefix
  | cons word rest =>
    have hmem : word ∈ s.dueWords ch := by simp [hdue]
    obtain ⟨r, hr, _⟩ := mem_map.1 hmem
    obtain ⟨hwaiting, hch⟩ := mem_filter.1 hr
    obtain rfl : r.channel = ch := of_decide_eq_true hch
    rw [← hdue]
    exact h r (takeWhile_subset _ hwaiting)

theorem sendL2Write_eq (s : Udma) (a : Answer) : ∃ reqs denied inFlight accepted, s.sendL2Write a =
    { s with l2WriteReqs := reqs, l2WriteDenied := denied, l2WriteInFlight := inFlight, acceptedWrites :=
      accepted } := by
  rw [sendL2Write]
  split
  case h_1 => cases a <;> exact ⟨_, _, _, _, rfl⟩
  case h_2 => exact ⟨_, _, _, _, rfl⟩

theorem dueWords_sendL2Read (a : Answer) : (s.sendL2Read a).dueWords ch = s.dueWords ch := by
  rw [sendL2Read]
  split
  case h_2 => rfl
  case h_1 =>
    split
    case h_1 => rfl
    case h_2 t _ =>
      cases a with
      | done latency data =>
        rw [dueWords, dueWords, ← pushOrdered_due (r :=
          { wordReq _ _ t with readyCycle := s.cycle + (latency + 1), data := data })
          (show s.cycle < s.cycle + (latency + 1) by omega)]
        rfl
      | _ => rfl

theorem next_sendL2Read (a : Answer) : s.next ch <+: (s.sendL2Read a).next ch := by
  rw [sendL2Read]
  split
  case h_2 => exact prefix_rfl
  case h_1 ch' _ id _ _ _ _ =>
    split
    case h_1 => exact prefix_rfl
    case h_2 t _ =>
      have hsent : s.next ch <+: (s.setChannel ch' { s.channels ch' with
          current := some t.prepareReq
          sent := (s.channels ch').sent ++ [(wordReq id ch' t).key] }).next ch := by
        by_cases hch : ch = ch'
        · subst hch
          simp only [next, setChannel, update_self, delivered, drop_append]
          exact prefix_append _ _
        · simp only [next, setChannel, update_of_ne hch]
          exact prefix_rfl
      cases a <;> exact hsent

/-- What the core keeps. -/
structure Ok (cfg : Config) (s : Udma) : Prop where
  views : ViewsOk cfg s
  ports : PortsOk cfg [] s

theorem Ok.current_of_ready (h : Ok cfg s) : ∀ ch ∈ s.readyTxChannels, (s.channels ch).current ≠ none := by
  intro ch hch
  have hqueued : (s.view ch).queued ≠ 0 := (count_pos_iff.2 hch).ne'
  obtain ⟨-, t, ht⟩ := h.views.exists_current ch (.inr (.inr hqueued))
  simp [ht]

theorem dueWords_cons {rest : List Read} (hw : s.l2ReadWaiting = r :: rest) (hdue : r.readyCycle ≤ s.cycle) :
    s.dueWords ch = (if r.channel = ch then [r.key] else []) ++ dueWords { s with l2ReadWaiting := rest } ch := by
  rw [dueWords, hw, takeWhile_cons_of_pos (by simpa using hdue), filter_cons]
  by_cases hch : r.channel = ch <;> simp [hch, dueWords]

theorem Ok.pushReadyReq {rest : List Read} (h : Ok cfg s) (hw : s.l2ReadWaiting = r :: rest)
    (hdue : r.readyCycle ≤ s.cycle) (horder : ∀ ch, s.dueWords ch <+: s.next ch) :
    Ok cfg (pushReadyReq r { s with l2ReadWaiting := rest }) ∧
      ∀ ch, (pushReadyReq r { s with l2ReadWaiting := rest }).dueWords ch <+:
        (pushReadyReq r { s with l2ReadWaiting := rest }).next ch := by
  have hself := horder r.channel
  rw [dueWords_cons hw hdue, if_pos rfl] at hself
  obtain ⟨later, hlater⟩ := hself
  have hnext : (s.channels r.channel).sent[(s.channels r.channel).delivered]? = some r.key := by
    have hhead := congrArg head? hlater
    simpa [next] using hhead.symm
  obtain ⟨-, t, ht⟩ := h.views.exists_current r.channel (.inl (by simp [view, hw]))
  refine ⟨⟨h.views.pushReadyReq hw hnext, h.ports.pushReadyReq hw (by simp [ht])⟩, fun ch => ?_⟩
  simp only [Udma.pushReadyReq, ht]
  by_cases hch : ch = r.channel
  · subst hch
    refine ⟨later, ?_⟩
    have htail := congrArg tail hlater
    rw [next, tail_drop] at htail
    simp only [next, setChannel, update_self, Channel.delivered, Channel.pushReadyReq, length_append,
      length_singleton, ← add_assoc] at htail ⊢
    exact htail
  · have hother := horder ch
    rw [dueWords_cons hw hdue, if_neg (Ne.symm hch)] at hother
    simp only [next, setChannel, update_of_ne hch] at hother ⊢
    exact hother

theorem Ok.deliverLoop : ∀ {l : List Read} {s : Udma}, Ok cfg s → s.l2ReadWaiting = l →
    (∀ ch, s.dueWords ch <+: s.next ch) → Ok cfg (deliverLoop l s)
  | [], s, h, hw, _ => by
    rw [Udma.deliverLoop, ← hw]
    exact h
  | r :: rest, s, h, hw, horder => by
    rw [Udma.deliverLoop]
    split
    case isTrue hdue =>
      obtain ⟨hok, horder⟩ := h.pushReadyReq hw hdue horder
      refine Ok.deliverLoop hok ?_ horder
      rw [Udma.pushReadyReq]
      split <;> rfl
    case isFalse =>
      rw [← hw]
      exact h

theorem Ok.checkState (h : Ok cfg s) : Ok cfg s.checkState := ⟨h.views.checkState, h.ports.checkState⟩

theorem Ok.eventHandler (h : Ok cfg s) (horder : s.DueInOrder) (write read : Answer) :
    Ok cfg (s.eventHandler write read) := by
  have hcleared : Ok cfg { s with event := none } :=
    ⟨h.views, h.ports.places, h.ports.reads, h.ports.ready, h.ports.writes, h.ports.nullDeref⟩
  have hwritten : Ok cfg (Udma.sendL2Write write { s with event := none }) := by
    refine ⟨?_, hcleared.ports.sendL2Write write⟩
    obtain ⟨_, _, _, _, heq⟩ := sendL2Write_eq { s with event := none } write
    rw [heq]
    exact h.views
  have hread := Ok.mk (hwritten.views.sendL2Read read) (hwritten.ports.sendL2Read read hwritten.current_of_ready)
  refine (hread.deliverLoop rfl fun ch => ?_).checkState
  rw [dueWords_sendL2Read]
  refine IsPrefix.trans ?_ (next_sendL2Read read)
  obtain ⟨_, _, _, _, heq⟩ := sendL2Write_eq { s with event := none } write
  rw [heq]
  exact horder.prefix_next ch

/-! ## The events of the core -/

/-- Something to send or to deliver has the event of the core enqueued. -/
structure Scheduled (s : Udma) : Prop where
  send : s.canSend = true → s.event ≠ none
  deliver : s.l2ReadWaiting ≠ [] → s.event ≠ none

theorem scheduled_checkState (s : Udma) : Scheduled s.checkState := by
  rw [checkState]
  split
  case h_1 hw =>
    refine ⟨fun hsend => ?_, fun hne => absurd hw hne⟩
    have hsend : s.canSend = true := hsend
    simp [hsend]
  case h_2 => exact ⟨fun _ => enqueue_ne_none, fun _ => enqueue_ne_none⟩

section

variable (h : Scheduled s)
include h

theorem Scheduled.congr {s' : Udma} (hsend : s'.canSend = s.canSend)
    (hwaiting : s'.l2ReadWaiting = s.l2ReadWaiting) (hevent : s'.event = s.event) : Scheduled s' :=
  ⟨fun hs => hevent ▸ h.send (hsend ▸ hs), fun hw => hevent ▸ h.deliver (hwaiting ▸ hw)⟩

theorem Scheduled.handleTransferEnd (ch : Nat) : Scheduled (s.handleTransferEnd ch) :=
  h.congr rfl rfl rfl

theorem Scheduled.channelHandler (ch : Nat) : Scheduled (s.channelHandler cfg ch) := by
  rw [Udma.channelHandler]
  split
  case h_1 => exact scheduled_checkState _
  case h_2 => exact h.congr rfl rfl rfl

theorem Scheduled.l2RoRetry (a : Answer) : Scheduled (s.l2RoRetry a) := by
  rw [Udma.l2RoRetry]
  split
  case h_1 => exact h
  case h_2 => exact scheduled_checkState _

theorem Scheduled.l2WoRetry (a : Answer) : Scheduled (s.l2WoRetry a) := by
  rw [Udma.l2WoRetry]
  split
  case h_1 => exact h
  case h_2 => exact scheduled_checkState _

theorem Scheduled.handleReadyReqs (ch : Nat) : Scheduled (s.handleReadyReqs ch) := by
  rw [Udma.handleReadyReqs]
  split
  case h_1 => exact h
  case h_2 => exact h.congr rfl rfl rfl

theorem Scheduled.pushData (ch : Nat) (data : List Byte) : Scheduled (s.pushData ch data) := by
  rw [Udma.pushData]
  split
  case h_1 => exact h
  case h_2 t _ =>
    split
    case isTrue => exact h.congr rfl rfl rfl
    case isFalse =>
      dsimp only
      split
      case isFalse => exact h.congr rfl rfl rfl
      case isTrue =>
        rw [writeWord]
        split
        case isTrue => exact (scheduled_checkState _).handleTransferEnd ch
        case isFalse => exact scheduled_checkState _

end

/-- The size of a transfer that is enqueued is positive, and the words that are due are the oldest ones of their
channels. -/
def Orderly (s : Udma) : Event → Prop
  | .cfgReq ch data =>
    (!cfgClear data && cfgEn data) = true → (s.channels ch).free ≠ 0 → 0 < (s.channels ch).size.toInt
  | .buildReqsAndEnqueue ch _ size => (s.channels ch).free ≠ 0 → 0 < size.toInt
  | .eventHandler _ _ => s.DueInOrder
  | _ => True

instance (s : Udma) : ∀ e, Decidable (s.Orderly e)
  | .cfgReq ch data => inferInstanceAs
    (Decidable ((!cfgClear data && cfgEn data) = true → (s.channels ch).free ≠ 0 → 0 < (s.channels ch).size.toInt))
  | .buildReqsAndEnqueue ch _ size => inferInstanceAs (Decidable ((s.channels ch).free ≠ 0 → 0 < size.toInt))
  | .eventHandler _ _ => inferInstanceAs (Decidable s.DueInOrder)
  | .saddrReq _ _ | .sizeReq _ _ | .channelHandler _ | .l2RoRetry _ | .l2RoResp _ _ _ | .l2WoRetry _ | .l2WoResp _
  | .handleReadyReqs _ | .handleReadyReqEnd _ | .pushData _ _ | .tick => isTrue trivial

structure Inv (cfg : Config) (s : Udma) : Prop extends Ok cfg s where
  scheduled : Scheduled s

theorem Inv.setChannel {c : Channel} (h : Inv cfg s) (hself : ChannelOk (cfg.isTx ch) { s.view ch with channel := c })
    (hheld : c.held = (s.channels ch).held) : Inv cfg (s.setChannel ch c) :=
  ⟨⟨h.views.setChannel hself, h.ports.setChannel hheld⟩, h.scheduled.congr rfl rfl rfl⟩

theorem Inv.init (cfg : Config) : Inv cfg (init cfg) := by
  refine ⟨⟨fun ch => ⟨⟨rfl, nofun, rfl, rfl⟩, fun _ hno => absurd rfl hno, fun _ => ?_, fun _ => ?_⟩, ?_⟩, ?_⟩
  · exact ⟨rfl, .refl _, .refl _, fun _ => ⟨rfl, rfl, rfl, rfl⟩, nofun⟩
  · exact ⟨rfl, ⟨rfl, rfl, rfl⟩, fun _ => ⟨rfl, rfl, rfl, rfl⟩, nofun⟩
  · refine ⟨fun id => ?_, nofun, nofun, rfl, rfl⟩
    have hheld : ((List.range cfg.nbChannels).flatMap fun ch => ((Udma.init cfg).channels ch).held) = [] :=
      flatMap_eq_nil_iff.2 fun _ _ => rfl
    rw [Udma.places, hheld]
    simp [Udma.reads, Udma.init, nodup_range.count]
  · exact ⟨by simp [canSend, Udma.init], fun hne => absurd rfl hne⟩

theorem Inv.step {e : Event} {s' : Udma} (h : Inv cfg s) (hok : s.Orderly e) (hs : s.step cfg e = some s') :
    Inv cfg s' := by
  cases e with
  | saddrReq ch data =>
    obtain ⟨-, ⟨⟩⟩ := ite_none_right_eq_some.1 hs
    exact h.setChannel ((h.views ch).setRegs data (s.channels ch).size) rfl
  | sizeReq ch data =>
    obtain ⟨-, ⟨⟩⟩ := ite_none_right_eq_some.1 hs
    exact h.setChannel ((h.views ch).setRegs (s.channels ch).saddr data) rfl
  | cfgReq ch data =>
    obtain ⟨-, ⟨⟩⟩ := ite_none_right_eq_some.1 hs
    split
    case isTrue hen => exact h.setChannel ((h.views ch).enqueue s.cycle (hok hen)) (held_enqueueTransfer _ _)
    case isFalse => exact h
  | buildReqsAndEnqueue ch addr size =>
    obtain ⟨-, ⟨⟩⟩ := ite_none_right_eq_some.1 hs
    exact h.setChannel (((h.views ch).setRegs addr size).enqueue s.cycle hok) (held_enqueueTransfer _ _)
  | channelHandler ch =>
    obtain ⟨⟨hch, -⟩, ⟨⟩⟩ := ite_none_right_eq_some.1 hs
    exact ⟨⟨h.views.channelHandler ch, h.ports.channelHandler hch⟩, h.scheduled.channelHandler ch⟩
  | eventHandler write read =>
    obtain ⟨-, ⟨⟩⟩ := ite_none_right_eq_some.1 hs
    exact ⟨h.toOk.eventHandler hok write read, scheduled_checkState _⟩
  | l2RoRetry a =>
    cases hs
    exact ⟨⟨h.views.l2RoRetry a, h.ports.l2RoRetry a⟩, h.scheduled.l2RoRetry a⟩
  | l2RoResp r latency data =>
    obtain ⟨hr, ⟨⟩⟩ := ite_none_right_eq_some.1 hs
    exact ⟨⟨h.views.l2RoResp hr latency data, h.ports.l2RoResp hr latency data⟩, scheduled_checkState _⟩
  | l2WoRetry a =>
    cases hs
    exact ⟨⟨h.views.l2WoRetry a, h.ports.l2WoRetry a⟩, h.scheduled.l2WoRetry a⟩
  | l2WoResp w =>
    obtain ⟨-, ⟨⟩⟩ := ite_none_right_eq_some.1 hs
    exact ⟨⟨h.views.l2WoResp w, h.ports.l2WoResp w⟩, scheduled_checkState _⟩
  | handleReadyReqs ch =>
    obtain ⟨⟨hch, htx, hreq⟩, ⟨⟩⟩ := ite_none_right_eq_some.1 hs
    exact ⟨⟨h.views.handleReadyReqs htx, h.ports.handleReadyReqs hch hreq⟩, h.scheduled.handleReadyReqs ch⟩
  | handleReadyReqEnd ch =>
    rw [Udma.step] at hs
    split at hs
    case h_2 => cases hs
    case h_1 r hreq =>
      obtain ⟨⟨hch, htx⟩, ⟨⟩⟩ := ite_none_right_eq_some.1 hs
      exact ⟨⟨h.views.handleReadyReqEnd htx, h.ports.handleReadyReqEnd hch hreq⟩, scheduled_checkState _⟩
  | pushData ch byte =>
    obtain ⟨⟨-, hrx⟩, ⟨⟩⟩ := ite_none_right_eq_some.1 hs
    have hrx : cfg.isTx ch = false := by simpa using hrx
    exact ⟨⟨h.views.pushData hrx byte, h.ports.pushData ch [byte]⟩, h.scheduled.pushData ch [byte]⟩
  | tick =>
    obtain ⟨-, ⟨⟩⟩ := ite_none_left_eq_some.1 hs
    exact ⟨⟨h.views, h.ports.places, h.ports.reads, h.ports.ready, h.ports.writes, h.ports.nullDeref⟩,
      h.scheduled.send, h.scheduled.deliver⟩

/-! ## Exact streams -/

/-- The L2 has answered everything, the peripherals have sent everything, and no event is enqueued. -/
structure Settled (s : Udma) : Prop where
  event : s.event = none
  reads : s.l2ReadDenied = none ∧ s.l2ReadInFlight = []
  writes : s.l2WriteDenied = none ∧ s.l2WriteInFlight = []
  channels : ∀ ch, (s.channels ch).event = none ∧ (s.channels ch).ready = [] ∧ (s.channels ch).pendingReq = none

/-- Every transfer is ended, current or pending; it holds a descriptor until it is ended, and raises its event then. -/
structure TransfersOnce (c : Channel) (events : Nat) : Prop where
  programmed : c.programmed = c.ended ++ c.running
  descriptors : c.free + c.running.length = 2
  events : events = c.ended.length

/-- The bytes pushed to an RX channel are written at the addresses of its transfers, up to those of the pending word. -/
def StoredOnce (c : Channel) (writes : List Write) : Prop :=
  ∃ n, n ≤ (c.programmed.flatMap addrs).length ∧ c.pushed.length = n + c.pendingByteIndex ∧ c.pendingByteIndex < 4 ∧
    (c.current = none → c.pendingByteIndex = 0) ∧
    writes.flatMap Write.addrs = (c.programmed.flatMap addrs).take n ∧ writes.flatMap Write.bytes = c.pushed.take n

structure Exact (cfg : Config) (s : Udma) : Prop where
  transfers : ∀ ch, TransfersOnce (s.channels ch) (s.events.count ch)
  /-- The peripheral is handed the words of the transfers, in order, as the L2 answered them. -/
  handed : ∀ ch, cfg.isTx ch = true →
    (s.channels ch).handed.map Read.key <+: (s.channels ch).programmed.flatMap words ∧
    (s.answered.filter (·.channel = ch)).Perm
      ((s.channels ch).handed ++ (s.channels ch).ready ++ s.l2ReadWaiting.filter (·.channel = ch))
  stored : ∀ ch, cfg.isTx ch = false → StoredOnce (s.channels ch) (s.issuedWrites.filter (·.channel = ch))
  written : s.acceptedWrites ++ s.l2WriteDenied.toList ++ s.l2WriteReqs = s.issuedWrites
  /-- Each read request is in one place. -/
  places : ∀ id, (s.places cfg).count id = if id < cfg.l2ReadFifoSize then 1 else 0
  nullDeref : s.nullDeref = false
  /-- Nothing is stuck. -/
  complete : s.Settled → s.acceptedWrites = s.issuedWrites ∧ ∀ ch,
    ((s.channels ch).current = none → (s.channels ch).pending = []) ∧
    (cfg.isTx ch = true → (s.channels ch).running = [] ∧
      (s.channels ch).handed.map Read.key = (s.channels ch).programmed.flatMap words)

section

variable (h : Inv cfg s)
include h

theorem Inv.transfersOnce (ch : Nat) : TransfersOnce (s.channels ch) (s.events.count ch) := by
  obtain ⟨hprogrammed, _, hslots, hevents⟩ := (h.views ch).slots
  have hslots : (s.channels ch).free + (s.channels ch).pending.length + (s.channels ch).current.toList.length = 2 :=
    hslots
  refine ⟨?_, ?_, hevents⟩
  · rw [running, map_append, ← append_assoc]
    exact hprogrammed
  · simp only [running, length_map, length_append]
    omega

theorem Inv.sent (htx : cfg.isTx ch = true) :
    (s.channels ch).sent <+: (s.channels ch).programmed.flatMap words := by
  rw [(h.transfersOnce ch).programmed, flatMap_append]
  have hok := (h.views ch).sent htx
  cases hcur : (s.channels ch).current with
  | none => exact (hok.idle hcur).1 ▸ prefix_append _ _
  | some t =>
    obtain ⟨m, hm⟩ := hok.busy t hcur
    have hsent : (s.channels ch).sent = (s.channels ch).ended.flatMap words ++ (words t.job).take m := hm.sent
    rw [hsent, prefix_append_right_inj]
    simp only [running, hcur, toList_some, singleton_append, map_cons, flatMap_cons]
    exact ( take_prefix _ _).trans (prefix_append _ _)

theorem Inv.storedOnce (hrx : cfg.isTx ch = false) :
    StoredOnce (s.channels ch) (s.issuedWrites.filter (·.channel = ch)) := by
  obtain ⟨hword, _, hidle, hbusy⟩ := (h.views ch).stored hrx
  have hprogrammed := (h.transfersOnce ch).programmed
  have hword : (s.channels ch).pendingWord.length = 4 := hword
  rw [StoredOnce, hprogrammed, flatMap_append]
  cases hcur : (s.channels ch).current with
  | none =>
    obtain ⟨hindex, haddrs, hbytes, hpushed⟩ := hidle hcur
    have hindex : (s.channels ch).pendingByteIndex = 0 := hindex
    have hpushed : (s.channels ch).pushed.length = ((s.channels ch).ended.flatMap addrs).length := hpushed
    refine ⟨((s.channels ch).ended.flatMap addrs).length, ?_, ?_, ?_, fun _ => hindex, ?_, ?_⟩
    · rw [length_append]
      omega
    · omega
    · omega
    · rw [take_left]
      exact haddrs
    · rw [← hpushed, take_length]
      exact hbytes
  | some t =>
    obtain ⟨m, hat, hlt4, hlt, haddrs, hbytes, hpushed⟩ := hbusy t hcur
    have hlt : 4 * m + (s.channels ch).pendingByteIndex < t.size.toNat := hlt
    have hpushed : (s.channels ch).pushed.length =
      ((s.channels ch).ended.flatMap addrs).length + 4 * m + (s.channels ch).pendingByteIndex := hpushed
    have hbytes : (s.issuedWrites.filter (·.channel = ch)).flatMap Write.bytes ++
      (s.channels ch).pendingWord.take (s.channels ch).pendingByteIndex = (s.channels ch).pushed := hbytes
    have hrunning : (s.channels ch).running = t.job :: (s.channels ch).pending.map Transfer.job := by
      simp [running, hcur]
    have hle : 4 * m ≤ (addrs t.job).length := by
      rw [length_addrs, Transfer.job_snd]
      omega
    refine ⟨((s.channels ch).ended.flatMap addrs).length + 4 * m, ?_, hpushed, hlt4, nofun, ?_, ?_⟩
    · rw [length_append, hrunning, flatMap_cons, length_append]
      omega
    · rw [take_length_add_append, hrunning, flatMap_cons, take_append_of_le_length hle]
      exact haddrs
    · have hlength : ((s.issuedWrites.filter (·.channel = ch)).flatMap Write.bytes).length =
          ((s.channels ch).ended.flatMap addrs).length + 4 * m := by
        have hall := congrArg length hbytes
        have hlt4 : (s.channels ch).pendingByteIndex < 4 := hlt4
        rw [length_append, length_take, hword, hpushed] at hall
        omega
      rw [← hbytes, ← hlength, take_left]

variable (hpos : 0 < cfg.l2ReadFifoSize)
include hpos

theorem Inv.no_reads (hset : s.Settled) :
    s.l2ReadWaiting = [] ∧ s.readyTxChannels = [] := by
  have hwaiting : s.l2ReadWaiting = [] := by
    by_contra hne
    exact h.scheduled.deliver hne hset.event
  refine ⟨hwaiting, ?_⟩
  by_contra hready
  -- a request is free, so that the event would be enqueued
  have hheld : ((range cfg.nbChannels).flatMap fun ch => (s.channels ch).held) = [] :=
    flatMap_eq_nil_iff.2 fun ch _ => by
      rw [held, (hset.channels ch).2.1, (hset.channels ch).2.2]
      rfl
  have hplaces := h.ports.places 0
  rw [Udma.places, Udma.reads, hset.reads.1, hset.reads.2, hwaiting, hheld] at hplaces
  simp only [toList_none, map_nil, append_nil, count_nil, add_zero, if_pos hpos] at hplaces
  have hfree : s.l2ReadReqs ≠ [] := by
    intro hnil
    rw [hnil] at hplaces
    cases hplaces
  refine h.scheduled.send ?_ hset.event
  simp [canSend, hset.reads.1, hready, hfree]

theorem Inv.complete (hset : s.Settled) :
    s.acceptedWrites = s.issuedWrites ∧ ∀ ch,
    ((s.channels ch).current = none → (s.channels ch).pending = []) ∧
    (cfg.isTx ch = true → (s.channels ch).running = [] ∧
      (s.channels ch).handed.map Read.key = (s.channels ch).programmed.flatMap words) := by
  obtain ⟨hwaiting, hready⟩ := h.no_reads hpos hset
  refine ⟨?_, fun ch => ?_⟩
  · have hreqs : s.l2WriteReqs = [] := by
      by_contra hne
      exact h.scheduled.send (by simp [canSend, hset.writes.1, hne]) hset.event
    simpa [hset.writes.1, hreqs] using h.ports.writes
  · have hpending : (s.channels ch).current = none → (s.channels ch).pending = [] := by
      intro hcur
      by_contra hne
      exact (h.views ch).scheduled hcur hne (hset.channels ch).1
    refine ⟨hpending, fun htx => ?_⟩
    obtain ⟨_, hready', hreq⟩ := hset.channels ch
    have hok := (h.views ch).sent htx
    have hall : (s.channels ch).delivered = (s.channels ch).sent.length := by
      have hlength := hok.length_outstanding
      simpa [view, hwaiting, hset.reads.1, hset.reads.2] using hlength
    cases hcur : (s.channels ch).current with
    | some t =>
      -- all its words have been sent and delivered, so that one of them would still be with the channel
      obtain ⟨m, hm⟩ := hok.busy t hcur
      have hqueued := hm.queued
      have hlast : ¬m < nbWords t.size := by
        intro hlt
        rw [if_pos hlt] at hqueued
        simp [view, hready] at hqueued
      have hsent : (s.channels ch).sent = (s.channels ch).ended.flatMap words ++ (words t.job).take m := hm.sent
      have hreceived : t.receivedSize + 4 * ((s.channels ch).ended.flatMap words).length =
        4 * (s.channels ch).delivered := hm.received
      have hle := hm.le
      rw [hall, hsent, length_append, length_take, length_words, Transfer.job_snd] at hreceived
      have hwords : nbWords t.size = (t.size.toNat + 3) / 4 := rfl
      rcases hm.held (by omega) with hno | hno
      · exact absurd hready' hno
      · exact absurd hreq hno
    | none =>
      have hrunning : (s.channels ch).running = [] := by simp [running, hcur, hpending hcur]
      refine ⟨hrunning, ?_⟩
      have hdelivered : ((s.channels ch).handed ++ (s.channels ch).ready).map Read.key =
        (s.channels ch).sent.take (s.channels ch).delivered := hok.delivered
      rw [hready', append_nil, hall, take_length] at hdelivered
      rw [hdelivered, (h.transfersOnce ch).programmed, hrunning, append_nil]
      exact (hok.idle hcur).1

theorem Inv.exact : Exact cfg s := by
  refine ⟨h.transfersOnce, fun ch htx => ⟨?_, ((h.views ch).sent htx).answered⟩, fun ch => h.storedOnce, h.ports.writes,
    fun id => ?_, h.ports.nullDeref, h.complete hpos⟩
  · have hdelivered := ((h.views ch).sent htx).delivered
    rw [map_append] at hdelivered
    have hprefix : (s.channels ch).handed.map Read.key <+: (s.channels ch).sent :=
      (hdelivered ▸ prefix_append _ _ : _ <+: (s.channels ch).sent.take _).trans ( take_prefix _ _)
    exact hprefix.trans (h.sent htx)
  · simpa using h.ports.places id

end

/-- The streams are exact in every run in which the sizes of the transfers are positive and no word becomes due before
an older one of its channel. -/
theorem udma_streams (cfg : Config) (hpos : 0 < cfg.l2ReadFifoSize) {es : List Event}
    (h : AllSteps (step cfg) Orderly (init cfg) es) : AllStates (step cfg) (Exact cfg) (init cfg) es :=
  allStates_of_allSteps (I := Inv cfg) (fun _ hs => hs.exact hpos) (fun _ _ _ hs hok hstep => hs.step hok hstep)
    (.init cfg) h

def twoChannels : Config := { nbChannels := 2, isTx := (· = 1), l2ReadFifoSize := 2 }

/-- Two words are read for the TX channel, while the RX channel receives one byte. -/
def wordsAndByte : List Event :=
  [.saddrReq 1 0x1000, .sizeReq 1 6, .cfgReq 1 0x10, .buildReqsAndEnqueue 0 0x2000 1, .tick, .channelHandler 1,
    .channelHandler 0, .pushData 0 0xA5, .tick, .eventHandler .granted (.done 1 0x11111111), .tick,
    .eventHandler .granted .denied, .l2RoRetry .granted, .tick, .eventHandler .granted .granted, .handleReadyReqs 1]

theorem udma_streams_wordsAndByte : AllStates (step twoChannels) (Exact twoChannels) (init twoChannels) wordsAndByte :=
  udma_streams twoChannels (by decide) (by decide +kernel)

/-- The L2 answers the second word of a transfer with a shorter latency than the first one. -/
def shorterLatency : List Event :=
  [.saddrReq 1 0x1000, .sizeReq 1 8, .cfgReq 1 0x10, .tick, .channelHandler 1, .tick,
    .eventHandler .granted (.done 10 0x11111111), .tick, .eventHandler .granted (.done 0 0x22222222), .tick,
    .eventHandler .granted .granted, .handleReadyReqs 1]

/-- The second word is handed to the peripheral first. -/
theorem second_word_first :
    ¬∀ es, AllStates (step twoChannels) (Exact twoChannels) (init twoChannels) es := by
  intro hall
  obtain ⟨s, hrun, hhanded, hprogrammed⟩ : ∃ s, run (step twoChannels) (init twoChannels) shorterLatency = some s ∧
      (s.channels 1).handed.map Read.key = [(0x1004, 4)] ∧ (s.channels 1).programmed = [(0x1000, 8)] :=
    ⟨_, rfl, by decide +kernel, by decide +kernel⟩
  have hprefix := (((hall shorterLatency).final hrun).handed 1 rfl).1
  rw [hhanded, hprogrammed] at hprefix
  exact absurd hprefix (by decide +kernel)

end Udma

end GvsocPulp.UdmaV3
