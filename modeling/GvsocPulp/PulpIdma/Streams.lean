import GvsocPulp.PulpIdma.Launches

/-!
# The identifiers of the streams

`Exact`: the launches of all ports and streams are executed once and in order, NEXT_ID answers 0 iff it rejects the
launch, STATUS says whether a launch is in progress, and DONE_ID has come to an identifier only if its launch and the
earlier ones of its stream are done. The completions of a stream are counted, so all states of a run are exact iff each
stream completes in order (`InOrder`), its identifiers do not come back to 0 and its launches in progress fit into an
`int`.
-/

namespace GvsocPulp.PulpIdma

open Lib Function List BitVec

namespace IDma

variable (cfg : Config) (s : IDma)

structure Exact : Prop where
  /-- The transfers of the middle-end are those of the launches, in order over all ports and streams. -/
  handed : s.me.entered ++ s.pendingQueue = moving s.launches
  room : s.Room cfg
  counted : ∀ stream, s.Counted stream
  once : ∀ stream, (s.completed stream).Nodup
  completed : ∀ stream n, n ∈ s.completed stream ↔ n ∈ s.ofStream stream ∧ s.Done n
  reads : ∀ r ∈ s.reads, (r.answer = 0 ↔ cfg.globalQueueDepth ≤ r.waiting) ∧ (r.answer ≠ 0 → r.answer ∉ r.inProgress)
  status : ∀ stream, s.readStatus stream ≠ 0 ↔ ∃ n ∈ s.ofStream stream, ¬ s.Done n
  /-- DONE_ID has come to the identifiers of as many launches of the stream as have completed. -/
  honest : ∀ stream, ∀ n ∈ (s.ofStream stream).take (s.completed stream).length, s.Done n

/-- A launch that is accepted gets an identifier other than 0; it moves no data only if its stream has none in progress,
and else the stream has less than `2 ^ 31` with it. The next launch of a stream to complete is the oldest one. -/
def InOrder : Event → Prop
  | .access port offset size value => ∀ stream, decode cfg offset size value = .launch stream →
      s.pendingQueue.length < cfg.globalQueueDepth →
      (s.streams stream).nextId ≠ 0 ∧
        if ((s.ports port).transfer stream).isEmpty then s.idsInProgress stream = []
        else (s.idsInProgress stream).length + 1 < 2 ^ 31
  | .fsm _ => True
  | .ack n => s.me.finishes n = true → ∀ l, s.launches[n]? = some l →
      (s.ofStream l.transfer.stream)[(s.completed l.transfer.stream).length]? = some n

def ReadsOk : Prop :=
  ∀ r ∈ s.reads, (r.answer = 0 ↔ cfg.globalQueueDepth ≤ r.waiting) ∧ (r.answer ≠ 0 → r.answer ∉ r.inProgress)

def StatusOk (stream : Nat) : Prop := s.readStatus stream ≠ 0 ↔ ∃ n ∈ s.ofStream stream, n ∉ s.completed stream

def Ordered (stream : Nat) : Prop := ∀ n ∈ (s.ofStream stream).take (s.completed stream).length, n ∈ s.completed stream

def nbInProgress (stream : Nat) : Nat := (s.ofStream stream).length - (s.completed stream).length

variable {cfg s} {s' : IDma} {e : Event} {gone : List (Nat × IdmaTransfer)} {n stream : Nat} {t : IdmaTransfer}

theorem pos_toInt_ofNat {c : Nat} (hc : c ≤ 2 ^ 31) : (0 < (BitVec.ofNat 32 c).toInt ↔ 0 < c) ↔ c < 2 ^ 31 := by
  have htoNat : (BitVec.ofNat 32 c).toNat = c := by
    rw [toNat_ofNat]
    omega
  rw [toInt_eq_toNat_cond, htoNat]
  split <;> omega

namespace Inv

variable (h : Inv cfg s gone)
include h

theorem completed_le (stream : Nat) : (s.completed stream).length ≤ (s.ofStream stream).length :=
  (subperm_of_subset (h.once stream) fun n hn => ((h.completed stream n).1 hn).1).length_le

/-- Where the counters follow the launches, a state is exact iff each stream completes in order. -/
theorem exact_iff (hroom : s.Room cfg) :
    s.Exact cfg ↔ s.ReadsOk cfg ∧ (∀ stream, s.StatusOk stream) ∧ ∀ stream, s.Ordered stream := by
  have hnot : ∀ stream, (∃ n ∈ s.ofStream stream, n ∉ s.completed stream) ↔ ∃ n ∈ s.ofStream stream, ¬ s.Done n := by
    refine fun stream => exists_congr fun n => and_congr_right fun hn => not_congr ?_
    rw [h.completed_iff]
    exact and_iff_right hn
  constructor
  · intro hexact
    refine ⟨hexact.reads, fun stream => ?_, fun stream n hn => ?_⟩
    · exact (hexact.status stream).trans (hnot stream).symm
    · exact (h.completed_iff stream n).2 ⟨mem_of_mem_take hn, hexact.honest stream n hn⟩
  · rintro ⟨hreads, hstatus, hordered⟩
    exact ⟨h.handed, hroom, h.counted, h.once, h.completed_iff, hreads,
      fun stream => (hstatus stream).trans (hnot stream),
      fun stream n hn => ((h.completed_iff stream n).1 (hordered stream n hn)).2⟩

/-! ## STATUS -/

theorem pending_eq (stream : Nat) : (s.streams stream).pending = BitVec.ofNat 32 (s.nbInProgress stream) := by
  have hle := h.completed_le stream
  rw [(h.counted stream).pending, nbInProgress]
  bv_omega

theorem nbInProgress_pos (stream : Nat) :
    (∃ n ∈ s.ofStream stream, n ∉ s.completed stream) ↔ 0 < s.nbInProgress stream := by
  rw [nbInProgress, Nat.sub_pos_iff_lt]
  constructor
  · rintro ⟨n, hn, hnew⟩
    by_contra hge
    have hperm : (s.completed stream).Perm (s.ofStream stream) :=
      (subperm_of_subset (h.once stream) fun n hn => ((h.completed stream n).1 hn).1).perm_of_length_le (not_lt.1 hge)
    exact hnew (hperm.mem_iff.2 hn)
  · intro hlt
    by_contra hall
    have hsub : s.ofStream stream ⊆ s.completed stream := fun n hn => by
      by_contra hnew
      exact hall ⟨n, hn, hnew⟩
    exact absurd (subperm_of_subset ofStream_nodup hsub).length_le (not_le.2 hlt)

/-- With at most `2^31` launches in progress, the status of the stream is right iff there are fewer. -/
theorem statusOk_iff {stream : Nat} (hle : s.nbInProgress stream ≤ 2 ^ 31) :
    s.StatusOk stream ↔ s.nbInProgress stream < 2 ^ 31 := by
  rw [StatusOk, h.nbInProgress_pos, readStatus, h.pending_eq, ← pos_toInt_ofNat hle]
  split
  case isTrue hpos => simp [hpos]
  case isFalse hneg => simp [hneg]

theorem length_idsInProgress (stream : Nat) : (s.idsInProgress stream).length = s.nbInProgress stream := by
  have hperm : ((s.ofStream stream).filter fun n => n ∈ s.completed stream).Perm (s.completed stream) := by
    rw [perm_ext_iff_of_nodup (ofStream_nodup.filter _) (h.once stream)]
    intro n
    rw [mem_filter, decide_eq_true_eq]
    exact and_iff_right_of_imp fun hn => ((h.completed stream n).1 hn).1
  have hsplit := length_eq_length_filter_add (l := s.ofStream stream) fun n => decide (n ∈ s.completed stream)
  have hnot : (s.idsInProgress stream).length = ((s.ofStream stream).filter fun n => !decide
    (n ∈ s.completed stream)).length := by
    rw [idsInProgress, ofStream, length_map, List.filter_map, length_map]
    congr 1
    refine filter_congr fun p _ => ?_
    simp
  rw [hperm.length_eq] at hsplit
  rw [hnot, nbInProgress, hsplit, Nat.add_sub_cancel_left]

/-! ## NEXT_ID -/

theorem nextId_not_mem (hordered : s.Ordered stream) (hlt : s.nbInProgress stream < 2 ^ 31) :
    (s.streams stream).nextId ∉ s.idsInProgress stream := by
  intro hmem
  obtain ⟨p, hp, hid⟩ := List.mem_map.1 hmem
  obtain ⟨hp, hnew⟩ := mem_filter.1 hp
  obtain ⟨k, hk⟩ := mem_iff_getElem?.1 hp
  have hklt : k < (s.ofStream stream).length := by
    rw [ofStream, length_map]
    exact (List.getElem?_eq_some_iff.1 hk).1
  have hof : (s.ofStream stream)[k]? = some p.1 := by rw [ofStream, getElem?_map, hk]; rfl
  have hge : (s.completed stream).length ≤ k := by
    by_contra hkdone
    refine (of_decide_eq_true hnew) (hordered p.1 ?_)
    exact mem_of_getElem? (by rw [getElem?_take_of_lt (not_le.1 hkdone), hof])
  rw [(h.counted stream).ids k p hk, (h.counted stream).nextId] at hid
  have hmod := congrArg BitVec.toNat hid
  rw [toNat_ofNat, toNat_ofNat] at hmod
  rw [nbInProgress] at hlt
  omega

theorem withReads (reads : List NextIdRead) : Inv cfg { s with reads := reads } gone :=
  { h with counted := fun stream => { h.counted stream with } }

theorem withPorts (ports : Nat → Port) : Inv cfg { s with ports := ports } gone :=
  { h with counted := fun stream => { h.counted stream with } }

end Inv

variable (cfg s) in
/-- What is left of a launch that has been accepted: the state without the record of the read. -/
def accepted (port stream : Nat) : IDma :=
  let t := (s.ports port).transfer stream
  if t.isEmpty then (s.allocate t).ackTransfer s.launches.length t
  else checkPendingQueue cfg { s.allocate t with pendingQueue := s.pendingQueue ++ [(s.launches.length, t)] }

variable (cfg s) in
theorem readNextId_eq (port stream : Nat) : s.readNextId cfg port stream =
    if cfg.globalQueueDepth ≤ s.pendingQueue.length then
      { s with reads := s.reads ++ [⟨s.pendingQueue.length, s.idsInProgress stream, 0⟩] }
    else
      { s.accepted cfg port stream with
        reads := s.reads ++ [⟨s.pendingQueue.length, s.idsInProgress stream, (s.streams stream).nextId⟩] } := by
  rw [readNextId, enqueueCopy, accepted]
  by_cases hfull : cfg.globalQueueDepth ≤ s.pendingQueue.length
  · rw [if_pos hfull, if_pos hfull]
  · rw [if_neg hfull, if_neg hfull]
    by_cases hempty : ((s.ports port).transfer stream).isEmpty
    · simp only [if_pos hempty]
    · simp only [if_neg hempty]
      rfl

theorem Inv.accepted (h : Inv cfg s gone) (port stream : Nat) : Inv cfg (s.accepted cfg port stream) gone := by
  rw [IDma.accepted]
  split
  case isTrue hempty => exact h.complete_empty hempty
  case isFalse hempty => exact (h.push (Bool.not_eq_true _ ▸ hempty)).checkPendingQueue

theorem Inv.room_accepted (h : Inv cfg s gone) (hroom : s.Room cfg) (port stream : Nat) :
    (s.accepted cfg port stream).Room cfg := by
  rw [IDma.accepted]
  split
  case isTrue => exact hroom
  case isFalse hempty => exact (h.push (Bool.not_eq_true _ ▸ hempty)).room_checkPendingQueue

theorem ofStream_accepted (port stream other : Nat) : (s.accepted cfg port stream).ofStream other =
    s.ofStream other ++ if stream = other then [s.launches.length] else [] := by
  have hof := s.ofStream_allocate (t := (s.ports port).transfer stream) other
  rw [accepted]
  split <;> exact hof

theorem completed_accepted (port stream other : Nat) : (s.accepted cfg port stream).completed other =
    s.completed other ++
      if stream = other ∧ ((s.ports port).transfer stream).isEmpty then [s.launches.length] else [] := by
  have hstream : ((s.ports port).transfer stream).stream = stream := rfl
  rw [accepted]
  split
  case isTrue hempty =>
    show update s.completed _ (s.completed _ ++ [_]) other = _
    rw [hstream, update_apply]
    by_cases hother : other = stream
    · rw [if_pos hother, if_pos ⟨hother.symm, hempty⟩, hother]
    · rw [if_neg hother, if_neg fun h => hother h.1.symm, append_nil]
  case isFalse hempty =>
    rw [if_neg fun h => hempty h.2, append_nil]
    rfl

/-- A launch keeps the order of a stream unless it completes at once before others. -/
theorem Inv.ordered_accepted (h : Inv cfg s gone) (hordered : ∀ stream, s.Ordered stream) (port stream : Nat) :
    (∀ other, (s.accepted cfg port stream).Ordered other) ↔
      (((s.ports port).transfer stream).isEmpty = true → s.nbInProgress stream = 0) := by
  -- the new launch is behind the ones that are completed
  have htake : ∀ other, (s.ofStream other ++ if stream = other then [s.launches.length] else []).take
    (s.completed other).length =
      (s.ofStream other).take (s.completed other).length := fun other => take_append_of_le_length (h.completed_le other)
  have hsame : ∀ other, ¬ (stream = other ∧ ((s.ports port).transfer stream).isEmpty = true) →
      (s.accepted cfg port stream).Ordered other := by
    intro other hnot
    rw [Ordered, ofStream_accepted, completed_accepted, if_neg hnot, append_nil, htake]
    exact hordered other
  by_cases hempty : ((s.ports port).transfer stream).isEmpty = true
  · have hstream : (s.accepted cfg port stream).Ordered stream ↔ s.nbInProgress stream = 0 := by
      have hle := h.completed_le stream
      have hof : (s.accepted cfg port stream).ofStream stream = s.ofStream stream ++ [s.launches.length] := by
        rw [ofStream_accepted, if_pos rfl]
      rw [Ordered, completed_accepted, if_pos ⟨rfl, hempty⟩, hof]
      rw [next_of_covers (hof ▸ ofStream_nodup) ?_ (mem_append_right _ (mem_singleton_self _)) h.length_not_mem]
      · rw [nbInProgress, Nat.sub_eq_zero_iff_le]
        constructor
        · intro heq
          by_contra hlt
          rw [getElem?_append_left (not_le.1 hlt)] at heq
          exact length_not_mem_ofStream (mem_of_getElem? heq)
        · intro hge
          rw [hle.antisymm hge, getElem?_concat_length]
      · have htake' := htake stream
        rw [if_pos rfl] at htake'
        rw [htake']
        exact hordered stream
    refine ⟨fun hall _ => hstream.1 (hall stream), fun hzero other => ?_⟩
    by_cases hother : stream = other
    · exact hother ▸ hstream.2 (hzero hempty)
    · exact hsame other fun hyes => hother hyes.1
  · exact iff_of_true (fun other => hsame other fun hyes => hempty hyes.2) fun hyes => absurd hyes hempty

theorem nbInProgress_accepted (port stream other : Nat) : (s.accepted cfg port stream).nbInProgress other =
    ((s.ofStream other).length + if stream = other then 1 else 0) -
      ((s.completed other).length + if stream = other ∧ ((s.ports port).transfer stream).isEmpty = true then 1
        else 0) := by
  rw [nbInProgress, ofStream_accepted, completed_accepted, length_append, length_append]
  congr 2 <;> split <;> rfl

/-- STATUS is right after a launch iff the launches in progress fit into an `int`. -/
theorem Inv.status_accepted (h : Inv cfg s gone) (hsmall : ∀ other, s.nbInProgress other < 2 ^ 31) (port stream : Nat) :
    (∀ other, (s.accepted cfg port stream).StatusOk other) ↔
      (((s.ports port).transfer stream).isEmpty = false → s.nbInProgress stream + 1 < 2 ^ 31) := by
  have h' := h.accepted port stream
  have hcount : ∀ other, (s.accepted cfg port stream).nbInProgress other =
      s.nbInProgress other + if stream = other ∧ ((s.ports port).transfer stream).isEmpty = false then 1 else 0 := by
    intro other
    have hle := h.completed_le other
    rw [nbInProgress_accepted, nbInProgress]
    by_cases hother : stream = other
    · cases hempty : ((s.ports port).transfer stream).isEmpty with
      | true => simp only [hother, if_true, true_and, Bool.true_eq_false, if_false]; omega
      | false => simp only [hother, if_true, true_and, Bool.false_eq_true, if_false]; omega
    · simp only [hother, if_false, false_and]
      omega
  have hok : ∀ other, (s.accepted cfg port stream).StatusOk other ↔
    (s.accepted cfg port stream).nbInProgress other < 2 ^ 31 := by
    intro other
    refine h'.statusOk_iff ?_
    have := hsmall other
    rw [hcount]
    split <;> omega
  simp only [hok, hcount]
  constructor
  · intro hall hempty
    have := hall stream
    rwa [if_pos ⟨rfl, hempty⟩] at this
  · intro hone other
    have := hsmall other
    split
    case isTrue hyes => exact hyes.1 ▸ hone hyes.2
    case isFalse => omega

/-! ## The other events -/

variable (cfg s) in
theorem fsmHandler_frame (accepts : Bool) : ∃ me queue,
    s.fsmHandler cfg accepts = { s with me := me, pendingQueue := queue } := by
  rw [fsmHandler]
  split
  · split
    · exact ⟨_, _, rfl⟩
    · exact ⟨_, _, rfl⟩
  · exact ⟨_, _, rfl⟩

/-- A stream completes in order iff the line that completes a launch is of the oldest one. -/
theorem Inv.ordered_ackBurst (h : Inv cfg s gone) (hordered : ∀ stream, s.Ordered stream) (hn : n ∈ s.me.flight) :
    (∀ stream, (s.ackBurst n).Ordered stream) ↔ s.InOrder cfg (.ack n) := by
  obtain ⟨l, hl, -, hnew⟩ := h.of_flight hn
  obtain ⟨l', hl', heq⟩ := h.ackBurst_eq hn
  rw [hl] at hl'
  cases hl'
  rw [heq, InOrder]
  split
  case isFalse hnot => exact iff_of_true hordered fun hyes => absurd hyes hnot
  case isTrue hyes =>
    have hmem : n ∈ s.ofStream l.transfer.stream := mem_ofStream.2 ⟨l.transfer, by rw [transferOf, hl]; rfl, rfl⟩
    have hstream : ({ s with me := s.me.back n }.ackTransfer n l.transfer : IDma).Ordered l.transfer.stream ↔
        (s.ofStream l.transfer.stream)[(s.completed l.transfer.stream).length]? = some n := by
      rw [← next_of_covers ofStream_nodup (hordered l.transfer.stream) hmem hnew, Ordered]
      show (∀ m ∈ (s.ofStream _).take (update s.completed l.transfer.stream (s.completed l.transfer.stream ++ [n])
        l.transfer.stream).length, m ∈ update s.completed l.transfer.stream (s.completed l.transfer.stream ++ [n])
        l.transfer.stream) ↔ _
      rw [update_self]
    constructor
    · intro hall _ l' hl'
      rw [hl] at hl'
      cases hl'
      exact hstream.1 (hall _)
    · intro hnext stream
      by_cases hother : stream = l.transfer.stream
      · rw [hother]
        exact hstream.2 (hnext hyes l hl)
      · show ∀ m ∈ (s.ofStream stream).take (update s.completed l.transfer.stream _ stream).length,
          m ∈ update s.completed l.transfer.stream _ stream
        rw [update_of_ne hother]
        exact hordered stream

theorem Inv.nbInProgress_ackBurst (h : Inv cfg s gone) (hn : n ∈ s.me.flight) (stream : Nat) :
    (s.ackBurst n).nbInProgress stream ≤ s.nbInProgress stream := by
  obtain ⟨l, hl, heq⟩ := h.ackBurst_eq hn
  rw [heq]
  split
  · refine Nat.sub_le_sub_left ?_ _
    show (s.completed stream).length ≤ (update s.completed l.transfer.stream _ stream).length
    rw [update_apply]
    split
    case isTrue hstream =>
      rw [hstream, length_append]
      exact Nat.le_add_right _ _
    case isFalse => exact le_rfl
  · exact le_rfl

/-! ## Runs -/

variable (cfg) in
/-- What an exact run keeps. -/
structure Good (s : IDma) : Prop where
  inv : ∃ gone, Inv cfg s gone
  exact : s.Exact cfg
  small : ∀ stream, s.nbInProgress stream < 2 ^ 31

theorem Good.initial : Good cfg {} where
  inv := ⟨[], .initial⟩
  exact := by
    refine (Inv.initial.exact_iff fun hne => absurd rfl hne).2 ⟨nofun, fun stream => ?_, nofun⟩
    have hzero : ({} : IDma).readStatus stream = 0 := by
      show (if 0 < (0 : BitVec 32).toInt then (1 : BitVec 32) else 0) = 0
      decide
    exact iff_of_false (fun hne => hne hzero) (fun ⟨n, hn, _⟩ => nomatch hn)
  small _ := by
    show 0 - 0 < 2 ^ 31
    decide

theorem forall_mem_concat_iff {α : Type} {P : α → Prop} {l : List α} {a : α} (hl : ∀ x ∈ l, P x) :
    (∀ x ∈ l ++ [a], P x) ↔ P a := by
  constructor
  · exact fun h => h a (mem_append_right _ (mem_singleton_self a))
  · intro ha x hx
    rcases mem_append.1 hx with hx | hx
    · exact hl x hx
    · exact mem_singleton.1 hx ▸ ha

theorem Good.readNextId (h : Good cfg s) (port stream : Nat) :
    ((s.readNextId cfg port stream).Exact cfg ↔
      (s.pendingQueue.length < cfg.globalQueueDepth → (s.streams stream).nextId ≠ 0 ∧
        if ((s.ports port).transfer stream).isEmpty then s.idsInProgress stream = []
        else (s.idsInProgress stream).length + 1 < 2 ^ 31)) ∧
      ((s.readNextId cfg port stream).Exact cfg → Good cfg (s.readNextId cfg port stream)) := by
  obtain ⟨gone, hinv⟩ := h.inv
  obtain ⟨hreads, hstatus, hordered⟩ := (hinv.exact_iff h.exact.room).1 h.exact
  rw [readNextId_eq]
  split
  case isTrue hfull =>
    have hexact : ({ s with reads := s.reads ++ [⟨s.pendingQueue.length, s.idsInProgress stream, 0⟩] } : IDma).Exact
      cfg := by
      have hinv' := hinv.withReads (s.reads ++ [⟨s.pendingQueue.length, s.idsInProgress stream, 0⟩])
      refine (hinv'.exact_iff h.exact.room).2 ⟨?_, hstatus, hordered⟩
      exact (forall_mem_concat_iff hreads).2 ⟨iff_of_true rfl hfull, fun hne => absurd rfl hne⟩
    exact ⟨iff_of_true hexact fun hroom => absurd hfull (not_le.2 hroom),
      fun _ => ⟨⟨gone, hinv.withReads _⟩, hexact, h.small⟩⟩
  case isFalse hfree =>
    have hfree := not_le.1 hfree
    have hinv' := (hinv.accepted port stream).withReads
      (s.reads ++ [⟨s.pendingQueue.length, s.idsInProgress stream, (s.streams stream).nextId⟩])
    have hreads' : (∀ r ∈ s.reads ++ [⟨s.pendingQueue.length, s.idsInProgress stream, (s.streams stream).nextId⟩],
        (r.answer = 0 ↔ cfg.globalQueueDepth ≤ r.waiting) ∧ (r.answer ≠ 0 → r.answer ∉ r.inProgress)) ↔
        (s.streams stream).nextId ≠ 0 := by
      rw [forall_mem_concat_iff hreads]
      refine ⟨fun hread hzero => not_le.2 hfree (hread.1.1 hzero),
        fun hne => ⟨iff_of_false hne (not_le.2 hfree), fun _ => ?_⟩⟩
      exact hinv.nextId_not_mem (hordered stream) (h.small stream)
    have hexact := hinv'.exact_iff (hinv.room_accepted h.exact.room port stream)
    have hiff : _ ↔ _ := hexact.trans (and_congr hreads' (and_congr (hinv.status_accepted h.small port stream)
      (hinv.ordered_accepted hordered port stream)))
    have hlen := hinv.length_idsInProgress stream
    constructor
    · rw [hiff]
      simp only [hfree, forall_const, ← hlen]
      refine and_congr_right fun _ => ?_
      cases ((s.ports port).transfer stream).isEmpty <;> simp
    · intro hyes
      refine ⟨⟨gone, hinv'⟩, hyes, fun other => ?_⟩
      have hsmall := (hiff.1 hyes).2.1
      have hother := h.small other
      show (s.accepted cfg port stream).nbInProgress other < 2 ^ 31
      rw [nbInProgress] at hother
      rw [nbInProgress_accepted]
      by_cases heq : stream = other
      · subst heq
        cases hempty : ((s.ports port).transfer stream).isEmpty with
        | true => simp only [if_true, true_and]; omega
        | false =>
          have := hsmall hempty
          rw [nbInProgress] at this
          have hle := hinv.completed_le stream
          simp only [if_true, true_and, Bool.false_eq_true, if_false]
          omega
      · simp only [heq, if_false, false_and]
        exact hother

/-- What an event does to a good state: it stays exact iff the event is in order, and is good again then. -/
theorem Good.step (h : Good cfg s) (hs : s.step cfg e = some s') :
    (s'.Exact cfg ↔ s.InOrder cfg e) ∧ (s'.Exact cfg → Good cfg s') := by
  obtain ⟨gone, hinv⟩ := h.inv
  obtain ⟨hreads, hstatus, hordered⟩ := (hinv.exact_iff h.exact.room).1 h.exact
  cases e with
  | access port offset size value =>
    simp only [IDma.step] at hs
    rw [InOrder]
    split at hs
    case h_1 stream hlaunch =>
      cases hs
      refine ⟨(h.readNextId port stream).1.trans ⟨fun hroom other hother => ?_, fun hall => hall stream hlaunch⟩,
        (h.readNextId port stream).2⟩
      rw [hlaunch] at hother
      cases hother
      exact hroom
    case h_2 f hset =>
      cases hs
      have hinv' := hinv.withPorts (update s.ports port (f (s.ports port)))
      have hexact := (hinv'.exact_iff h.exact.room).2 ⟨hreads, hstatus, hordered⟩
      refine ⟨iff_of_true hexact fun stream hlaunch => ?_, fun _ => ⟨⟨gone, hinv'⟩, hexact, h.small⟩⟩
      rw [hset] at hlaunch
      cases hlaunch
    case h_3 hlaunch hset =>
      cases hs
      exact ⟨iff_of_true h.exact fun stream hyes => absurd hyes (hlaunch stream), fun _ => h⟩
  | fsm accepts =>
    cases hs
    obtain ⟨away, hinv'⟩ := hinv.fsmHandler accepts
    have hroom := hinv.room_fsmHandler h.exact.room accepts
    obtain ⟨me, queue, heq⟩ := fsmHandler_frame cfg s accepts
    rw [heq] at hinv' hroom ⊢
    have hexact := (hinv'.exact_iff hroom).2 ⟨hreads, hstatus, hordered⟩
    exact ⟨iff_of_true hexact trivial, fun _ => ⟨⟨_, hinv'⟩, hexact, h.small⟩⟩
  | ack n =>
    simp only [IDma.step] at hs
    split at hs
    case isFalse => cases hs
    case isTrue hn =>
      cases hs
      have hinv' := hinv.ackBurst hn
      have hsmall : ∀ stream, (s.ackBurst n).nbInProgress stream < 2 ^ 31 := fun stream =>
        (hinv.nbInProgress_ackBurst hn stream).trans_lt (h.small stream)
      have hframe : (s.ackBurst n).reads = s.reads ∧ (s.ackBurst n).Room cfg := by
        obtain ⟨l, -, heq⟩ := hinv.ackBurst_eq hn
        rw [heq]
        split <;> exact ⟨rfl, h.exact.room⟩
      have hexact : (s.ackBurst n).Exact cfg ↔ s.InOrder cfg (.ack n) := by
        rw [hinv'.exact_iff hframe.2, ← hinv.ordered_ackBurst hordered hn, ReadsOk, hframe.1]
        refine (and_iff_right hreads).trans (and_iff_right fun stream => ?_)
        exact (hinv'.statusOk_iff (hsmall stream).le).2 (hsmall stream)
      exact ⟨hexact, fun hyes => ⟨⟨gone, hinv'⟩, hyes, hsmall⟩⟩

/-- **Every launch of the streams is executed once and its identifier is honest in all states of a run iff each stream
completes in order, its identifiers do not come back to 0 and its launches in progress fit into an `int`.** -/
theorem streams_exact_iff (cfg : Config) (es : List Event) :
    AllStates (step cfg) (Exact cfg) {} es ↔ AllSteps (step cfg) (InOrder cfg) {} es :=
  allStates_iff (I := Good cfg) (fun _ h => h.exact) (fun _ _ _ h hs => (h.step hs).1)
    (fun _ _ _ h hs => (h.step hs).2) .initial

/-- A transfer of 4 bytes on stream 0, and one without bytes right behind it. -/
def emptyBehind : List Event :=
  [.access 0 0x0d8 4 0x1000, .access 0 0x0d0 4 0x2000, .access 0 0x0e0 4 4, .access 0 0xc 4 0,
    .access 0 0x0e0 4 0, .access 0 0xc 4 0]

/-- The empty transfer is completed at once, and DONE_ID is the identifier of the first one. -/
theorem not_exact_emptyBehind : ¬ AllStates (step ⟨2, 2, 4, 4⟩) (Exact ⟨2, 2, 4, 4⟩) {} emptyBehind := by
  intro h
  have hexact := h.final rfl
  have hdone := hexact.honest 0 0 (by decide)
  have hmem := (hexact.completed 0 0).2 ⟨by decide, hdone⟩
  exact absurd hmem (by decide)

end IDma

end GvsocPulp.PulpIdma
