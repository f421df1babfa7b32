import GvsocPulp.Lib.Lists
import GvsocPulp.UdmaV3.Views

/-!
# The two L2 ports

Every read request of the FIFO is in one place (`places`): free, denied, in flight, waiting for its cycle, or with its
channel. The writes go to the L2 in the order in which they are issued.
-/

namespace GvsocPulp.UdmaV3

open Lib List Option Udma

/-- The requests of the words that have reached the channel and are not yet sent. -/
def Channel.held (c : Channel) : List Nat := (c.ready ++ c.pendingReq.toList).map Read.id

namespace Udma

def reads (s : Udma) : List Read := s.l2ReadDenied.toList ++ s.l2ReadInFlight ++ s.l2ReadWaiting

def places (cfg : Config) (s : Udma) : List Nat :=
  s.l2ReadReqs ++ s.reads.map Read.id ++ (List.range cfg.nbChannels).flatMap fun ch => (s.channels ch).held

/-- What the ports keep; `ids` are the requests that the core is moving from one place to another. -/
structure PortsOk (cfg : Config) (ids : List Nat) (s : Udma) : Prop where
  places : ∀ id, (s.places cfg).count id + ids.count id = if id < cfg.l2ReadFifoSize then 1 else 0
  reads : ∀ r ∈ s.reads, r.channel < cfg.nbChannels
  ready : ∀ ch ∈ s.readyTxChannels, ch < cfg.nbChannels
  writes : s.acceptedWrites ++ s.l2WriteDenied.toList ++ s.l2WriteReqs = s.issuedWrites
  nullDeref : s.nullDeref = false

variable {cfg : Config} {ids : List Nat} {s : Udma} {ch : Nat} {r : Read}

theorem PortsOk.checkState (h : PortsOk cfg ids s) : PortsOk cfg ids s.checkState := by
  obtain ⟨event, heq⟩ := s.checkState_eq
  rw [heq]
  exact { h with }

/-! ## Channels -/

theorem places_setChannel (hch : ch < cfg.nbChannels) (c : Channel) (id : Nat) :
    ((s.setChannel ch c).places cfg).count id + (s.channels ch).held.count id =
      (s.places cfg).count id + c.held.count id := by
  have hchange := count_flatMap_change (nodup_range (n := cfg.nbChannels)) (mem_range.2 hch)
    (f := fun ch' => (Function.update s.channels ch c ch').held) (g := fun ch' => (s.channels ch').held)
    (fun ch' hne => by rw [Function.update_of_ne hne]) id
  simp only [Function.update_self] at hchange
  simp only [places, setChannel, count_append, reads]
  omega

theorem PortsOk.moveChannel {ids' : List Nat} {c : Channel} (h : PortsOk cfg ids s) (hch : ch < cfg.nbChannels)
    (hheld : (c.held ++ ids').Perm ((s.channels ch).held ++ ids)) : PortsOk cfg ids' (s.setChannel ch c) := by
  refine { h with places := fun id => ?_ }
  have hset := places_setChannel (s := s) hch c id
  have hcount := hheld.count_eq id
  rw [count_append, count_append] at hcount
  rw [← h.places id]
  omega

theorem PortsOk.setChannel {c : Channel} (h : PortsOk cfg ids s) (hheld : c.held = (s.channels ch).held) :
    PortsOk cfg ids (s.setChannel ch c) := by
  by_cases hch : ch < cfg.nbChannels
  · exact h.moveChannel hch (by rw [hheld])
  refine { h with places := fun id => ?_ }
  have hsame : ∀ ch' ∈ List.range cfg.nbChannels, ((s.setChannel ch c).channels ch').held = (s.channels ch').held := by
    intro ch' hch'
    have hne : ch' ≠ ch := by
      rintro rfl
      exact hch (mem_range.1 hch')
    simp [Udma.setChannel, hne]
  rw [← h.places id, Udma.places, Udma.places, flatMap_congr hsame]
  rfl

theorem held_checkState (now : Nat) (c : Channel) : (c.checkState now).held = c.held := by
  obtain ⟨event, heq, -⟩ := c.checkState_eq now
  rw [heq]
  rfl

theorem held_enqueueTransfer (now : Nat) (c : Channel) : (c.enqueueTransfer now).held = c.held := by
  rw [Channel.enqueueTransfer]
  split
  case isTrue => rfl
  case isFalse =>
    rw [held_checkState]
    rfl

theorem PortsOk.handleTransferEnd (h : PortsOk cfg ids s) (ch : Nat) : PortsOk cfg ids (s.handleTransferEnd ch) := by
  have hset : PortsOk cfg ids (s.setChannel ch ((s.channels ch).handleTransferEnd s.cycle)) := by
    refine h.setChannel ?_
    rw [Channel.handleTransferEnd, held_checkState]
    rfl
  exact { hset with }

theorem PortsOk.channelHandler (h : PortsOk cfg ids s) (hch : ch < cfg.nbChannels) :
    PortsOk cfg ids (s.channelHandler cfg ch) := by
  rw [Udma.channelHandler]
  split
  case h_2 => exact h.setChannel rfl
  case h_1 t rest _ _ =>
    have hset : PortsOk cfg ids
        (s.setChannel ch { s.channels ch with event := none, current := some t, pending := rest }) := h.setChannel rfl
    refine PortsOk.checkState ?_
    split
    case isFalse => exact hset
    case isTrue =>
      refine { hset with ready := fun ch' hch' => ?_ }
      rcases mem_append.1 hch' with hch' | hch'
      · exact hset.ready ch' hch'
      · rw [mem_singleton.1 hch']
        exact hch

/-! ## Reads -/

theorem PortsOk.l2ReadEnd (h : PortsOk cfg [r.id] s) (hch : r.channel < cfg.nbChannels) (latency : Nat) (data : Word) :
    PortsOk cfg [] (s.l2ReadEnd r latency data) := by
  let answered : Read := { r with readyCycle := s.cycle + latency, data := data }
  have hperm := pushOrdered_perm answered s.l2ReadWaiting
  refine ⟨fun id => ?_, fun r' hr' => ?_, h.ready, h.writes, h.nullDeref⟩
  · have hplaces := h.places id
    have hcount := (hperm.map Read.id).count_eq id
    rw [map_cons, count_cons] at hcount
    rw [count_singleton] at hplaces
    simp only [Udma.places, Udma.reads, Udma.l2ReadEnd, map_append, count_append, count_nil] at hplaces ⊢
    rw [hcount]
    simp only [answered]
    omega
  · have hr' : r' ∈ s.l2ReadDenied.toList ++ s.l2ReadInFlight ++ pushOrdered answered s.l2ReadWaiting := hr'
    rcases mem_append.1 hr' with hr' | hr'
    · exact h.reads r' (mem_append_left _ hr')
    · rcases mem_cons.1 (hperm.mem_iff.1 hr') with rfl | hr'
      · exact hch
      · exact h.reads r' (mem_append_right _ hr')

theorem PortsOk.readReq (h : PortsOk cfg [r.id] s) (hch : r.channel < cfg.nbChannels) (hdenied : s.l2ReadDenied = none)
    (a : Answer) : PortsOk cfg [] (s.readReq r a) := by
  have hplaces := h.places
  have hreads := h.reads
  simp only [Udma.places, Udma.reads, hdenied, toList_none, nil_append] at hplaces hreads
  cases a with
  | done latency data => exact h.l2ReadEnd hch _ data
  | granted =>
    refine ⟨fun id => ?_, fun r' hr' => ?_, h.ready, h.writes, h.nullDeref⟩
    · rw [← hplaces id]
      simp only [Udma.places, Udma.reads, Udma.readReq, hdenied, toList_none, nil_append, map_append,
        count_append, map_cons, map_nil, count_nil]
      omega
    · simp only [Udma.reads, Udma.readReq, hdenied, toList_none, nil_append, mem_append,
        mem_singleton] at hr' hreads
      rcases hr' with (hr' | rfl) | hr'
      · exact hreads r' (.inl hr')
      · exact hch
      · exact hreads r' (.inr hr')
  | denied =>
    refine ⟨fun id => ?_, fun r' hr' => ?_, h.ready, h.writes, h.nullDeref⟩
    · rw [← hplaces id]
      simp only [Udma.places, Udma.reads, Udma.readReq, toList_some, map_append, count_append,
        map_cons, map_nil, count_nil]
      omega
    · simp only [Udma.reads, Udma.readReq, toList_some, mem_append, mem_singleton] at hr' hreads
      rcases hr' with (rfl | hr') | hr'
      · exact hch
      · exact hreads r' (.inl hr')
      · exact hreads r' (.inr hr')

section

variable (h : PortsOk cfg [] s)
include h

theorem PortsOk.sendL2Read (a : Answer)
    (hcur : ∀ ch ∈ s.readyTxChannels, (s.channels ch).current ≠ none) : PortsOk cfg [] (s.sendL2Read a) := by
  rw [Udma.sendL2Read]
  split
  case h_2 => exact h
  case h_1 ch chs id ids hdenied hchs hids =>
    have hmem : ch ∈ s.readyTxChannels := by simp [hchs]
    have hch := h.ready ch hmem
    obtain ⟨t, ht⟩ := ne_none_iff_exists'.1 (hcur ch hmem)
    simp only [ht]
    have hset : PortsOk cfg [] (s.setChannel ch { s.channels ch with
        current := some t.prepareReq
        sent := (s.channels ch).sent ++ [(wordReq id ch t).key] }) := h.setChannel rfl
    refine PortsOk.readReq ?_ ?_ ?_ a
    · refine ⟨fun id' => ?_, hset.reads, fun ch' hch' => ?_, h.writes, h.nullDeref⟩
      · rw [← hset.places id']
        simp only [Udma.places, Udma.setChannel, hids, Udma.reads, count_append, count_cons, count_nil,
          wordReq]
        omega
      · refine h.ready ch' ?_
        rw [hchs]
        have hch' : ch' ∈ if t.isLast then chs else chs ++ [ch] := hch'
        split at hch'
        · exact mem_cons_of_mem _ hch'
        · rcases mem_append.1 hch' with hch' | hch'
          · exact mem_cons_of_mem _ hch'
          · rw [mem_singleton.1 hch']
            exact mem_cons_self
    · exact hch
    · exact hdenied

theorem PortsOk.l2RoRetry (a : Answer) : PortsOk cfg [] (s.l2RoRetry a) := by
  rw [Udma.l2RoRetry]
  split
  case h_1 => exact h
  case h_2 r hdenied =>
    have hch := h.reads r (by simp [Udma.reads, hdenied])
    have hsent : PortsOk cfg [r.id] { s with l2ReadDenied := none } := by
      refine ⟨fun id => ?_, fun r' hr' => ?_, h.ready, h.writes, h.nullDeref⟩
      · rw [← h.places id]
        simp only [Udma.places, Udma.reads, hdenied, toList_some, toList_none, nil_append,
          map_append, count_append, map_cons, map_nil, count_nil]
        omega
      · refine h.reads r' ?_
        simp only [Udma.reads, toList_none, nil_append, mem_append] at hr' ⊢
        exact hr'.imp_left .inr
    exact (hsent.readReq hch rfl a).checkState

theorem PortsOk.l2RoResp (hr : r ∈ s.l2ReadInFlight) (latency : Nat) (data : Word) :
    PortsOk cfg [] (s.l2RoResp r latency data) := by
  have hch := h.reads r (by simp [Udma.reads, hr])
  have hanswered : PortsOk cfg [r.id] { s with l2ReadInFlight := s.l2ReadInFlight.erase r } := by
    refine ⟨fun id => ?_, fun r' hr' => ?_, h.ready, h.writes, h.nullDeref⟩
    · rw [← h.places id]
      have hcount := ((perm_cons_erase hr).map Read.id).count_eq id
      rw [map_cons, count_cons] at hcount
      rw [count_singleton]
      simp only [Udma.places, Udma.reads, map_append, count_append, count_nil]
      omega
    · refine h.reads r' ?_
      simp only [Udma.reads, mem_append] at hr' ⊢
      exact hr'.imp_left (Or.imp_right mem_of_mem_erase)
  exact (hanswered.l2ReadEnd hch _ data).checkState

theorem PortsOk.pushReadyReq {rest : List Read} (hw : s.l2ReadWaiting = r :: rest)
    (hcur : (s.channels r.channel).current ≠ none) :
      PortsOk cfg [] (pushReadyReq r { s with l2ReadWaiting := rest }) := by
  obtain ⟨t, ht⟩ := ne_none_iff_exists'.1 hcur
  have hpopped : PortsOk cfg [r.id] { s with l2ReadWaiting := rest } := by
    refine ⟨fun id => ?_, fun r' hr' => ?_, h.ready, h.writes, h.nullDeref⟩
    · rw [← h.places id]
      simp only [Udma.places, Udma.reads, hw, map_append, map_cons, count_append, count_cons,
        count_nil]
      omega
    · refine h.reads r' ?_
      simp only [Udma.reads, hw, mem_append, mem_cons] at hr' ⊢
      exact hr'.imp_right .inr
  simp only [Udma.pushReadyReq, ht]
  refine hpopped.moveChannel (h.reads r (by simp [Udma.reads, hw])) ?_
  simp only [Channel.held, Channel.pushReadyReq, map_append, map_cons, map_nil, append_nil,
    append_assoc]
  exact (perm_append_left_iff _).2 perm_append_comm

end

theorem PortsOk.freeReadReq {id : Nat} (h : PortsOk cfg [id] s) : PortsOk cfg [] (s.freeReadReq id) := by
  refine PortsOk.checkState { h with places := fun id' => ?_ }
  rw [← h.places id']
  simp only [Udma.places, Udma.reads, count_append, count_nil]
  omega

theorem PortsOk.handleReadyReqs (h : PortsOk cfg [] s) (hch : ch < cfg.nbChannels)
    (hreq : (s.channels ch).pendingReq = none) : PortsOk cfg [] (s.handleReadyReqs ch) := by
  rw [Udma.handleReadyReqs]
  split
  case h_1 => exact h
  case h_2 r rest hready =>
    refine h.moveChannel hch ?_
    simp only [Channel.held, hready, hreq, toList_some, toList_none, append_nil]
    exact (perm_append_singleton r rest).map Read.id

theorem PortsOk.handleReadyReqEnd (h : PortsOk cfg [] s) (hch : ch < cfg.nbChannels)
    (hreq : (s.channels ch).pendingReq = some r) : PortsOk cfg [] (s.handleReadyReqEnd ch r) := by
  have hset : PortsOk cfg [r.id] (s.setChannel ch { s.channels ch with pendingReq := none }) := by
    refine h.moveChannel hch ?_
    simp [Channel.held, hreq]
  refine PortsOk.freeReadReq ?_
  split
  case isTrue => exact hset.handleTransferEnd ch
  case isFalse => exact hset

/-! ## Writes -/

theorem PortsOk.writeReq {w : Write} {rest : List Write} {s' : Udma} (h : PortsOk cfg ids s')
    (hs : s = { s' with l2WriteDenied := none, l2WriteReqs := rest })
    (hw : s'.l2WriteDenied.toList ++ s'.l2WriteReqs = w :: rest) (a : Answer) : PortsOk cfg ids (s.writeReq w a) := by
  have hwrites := h.writes
  rw [append_assoc, hw] at hwrites
  subst hs
  cases a with
  | denied => exact { h with writes := by simpa [writeReq] using hwrites }
  | _ => exact { h with writes := by simpa [writeReq] using hwrites }

variable (h : PortsOk cfg ids s)
include h

theorem PortsOk.sendL2Write (a : Answer) : PortsOk cfg ids (s.sendL2Write a) := by
  rw [Udma.sendL2Write]
  split
  case h_1 w rest hdenied hreqs => exact h.writeReq (by rw [← hdenied]) (by rw [hdenied, hreqs]; rfl) a
  case h_2 => exact h

theorem PortsOk.l2WoRetry (a : Answer) : PortsOk cfg ids (s.l2WoRetry a) := by
  rw [Udma.l2WoRetry]
  split
  case h_1 => exact h
  case h_2 w hdenied => exact (h.writeReq rfl (by rw [hdenied]; rfl) a).checkState

theorem PortsOk.l2WoResp (w : Write) : PortsOk cfg ids (s.l2WoResp w) :=
  PortsOk.checkState { h with }

theorem PortsOk.pushL2WriteReq (w : Write) : PortsOk cfg ids (s.pushL2WriteReq w) :=
  PortsOk.checkState { h with writes := by rw [← h.writes, append_assoc _ _ [w]] }

theorem PortsOk.pushData (ch : Nat) (data : List Byte) : PortsOk cfg ids (s.pushData ch data) := by
  rw [Udma.pushData]
  split
  case h_1 => exact h
  case h_2 t _ =>
    split
    case isTrue => exact h.setChannel rfl
    case isFalse =>
      let pushed : Udma := s.setChannel ch
        { s.channels ch with
          pendingWord := (s.channels ch).fillWord data
          pendingByteIndex := (s.channels ch).pendingByteIndex + data.length
          pushed := (s.channels ch).pushed ++ data }
      have hpushed : PortsOk cfg ids pushed := h.setChannel rfl
      show PortsOk cfg ids (if _ then pushed.writeWord ch t else pushed)
      split
      case isFalse => exact hpushed
      case isTrue =>
        have hset : PortsOk cfg ids (pushed.setChannel ch
            { pushed.channels ch with current := some t.prepareReq, pendingByteIndex := 0 }) := hpushed.setChannel rfl
        rw [writeWord]
        split
        case isTrue => exact (hset.pushL2WriteReq _).handleTransferEnd ch
        case isFalse => exact hset.pushL2WriteReq _

end Udma

end GvsocPulp.UdmaV3
