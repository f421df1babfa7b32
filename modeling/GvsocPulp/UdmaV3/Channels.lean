import GvsocPulp.UdmaV3.Transfers

/-!
# One channel

What the two ports of the core hold of one channel (`View`), and what can happen to it: the operations below on a view
are those of the core as one channel sees them. They keep

- `SlotsOk`: every programmed transfer is ended, current or pending, and has raised its event if it is ended;
- `TxOk`: the words a TX channel asks for are those of its transfers, and they are delivered in this order;
- `RxOk`: the writes of an RX channel store the pushed bytes at the addresses of its transfers.
-/

namespace GvsocPulp.UdmaV3

open Lib List Option Transfer

variable {c : Channel} {rest : List Read} {data : List Byte}

structure View where
  channel : Channel
  waiting : List Read
  /-- Those in flight, and the denied one. -/
  unanswered : List Read
  answered : List Read
  /-- How often the channel is in `ready_tx_channels`. -/
  queued : Nat
  events : Nat
  writes : List Write

namespace View

def enqueue (now : Nat) (v : View) : View := { v with channel := v.channel.enqueueTransfer now }

def setRegs (saddr size : Word) (v : View) : View :=
    { v with channel := { v.channel with saddr := saddr, size := size } }

def start (tx : Bool) (t : Transfer) (rest : List Transfer) (v : View) : View :=
  { v with
    channel := { v.channel with event := none, current := some t, pending := rest }
    queued := v.queued + if tx then 1 else 0 }

def idle (v : View) : View := { v with channel := { v.channel with event := none } }

def send (t : Transfer) (r : Read) (v : View) : View :=
  { v with
    channel := { v.channel with current := some t.prepareReq, sent := v.channel.sent ++ [r.key] }
    unanswered := v.unanswered ++ [r]
    queued := v.queued - 1 + if t.isLast then 0 else 1 }

def deliver (t : Transfer) (r : Read) (rest : List Read) (v : View) : View :=
  { v with channel := v.channel.pushReadyReq t r, waiting := rest }

def take (r : Read) (rest : List Read) (v : View) : View :=
  { v with channel := { v.channel with ready := rest, pendingReq := some r, handed := v.channel.handed ++ [r] } }

def endTransfer (now : Nat) (v : View) : View :=
  { v with channel := v.channel.handleTransferEnd now, events := v.events + 1 }

def free (v : View) : View := { v with channel := { v.channel with pendingReq := none } }

def push (data : List Byte) (v : View) : View :=
  { v with
    channel := { v.channel with
      pendingWord := v.channel.fillWord data
      pendingByteIndex := v.channel.pendingByteIndex + data.length
      pushed := v.channel.pushed ++ data } }

def write (t : Transfer) (w : Write) (v : View) : View :=
  { v with
    channel := { v.channel with current := some t.prepareReq, pendingByteIndex := 0 }
    writes := v.writes ++ [w] }

end View

/-- How many words have reached the channel. -/
def Channel.delivered (c : Channel) : Nat := (c.handed ++ c.ready).length

structure SlotsOk (v : View) : Prop where
  programmed : v.channel.programmed =
    v.channel.ended ++ v.channel.current.toList.map job ++ v.channel.pending.map job
  fresh : ∀ t ∈ v.channel.pending, t.At 0 ∧ t.receivedSize = 0
  slots : v.channel.free + v.channel.pending.length + v.channel.current.toList.length = 2
  events : v.events = v.channel.ended.length

/-- `m` words of the current transfer of a TX channel have been sent to the L2. -/
structure Sent (v : View) (t : Transfer) (m : Nat) : Prop where
  prepared : t.At m
  le : m ≤ nbWords t.size
  sent : v.channel.sent = v.channel.ended.flatMap words ++ (words t.job).take m
  queued : v.queued = if m < nbWords t.size then 1 else 0
  received : t.receivedSize + 4 * (v.channel.ended.flatMap words).length = 4 * v.channel.delivered
  held : t.size.toNat ≤ t.receivedSize → v.channel.ready ≠ [] ∨ v.channel.pendingReq ≠ none

structure TxOk (v : View) : Prop where
  delivered : (v.channel.handed ++ v.channel.ready).map Read.key = v.channel.sent.take v.channel.delivered
  outstanding : ((v.waiting ++ v.unanswered).map Read.key).Perm (v.channel.sent.drop v.channel.delivered)
  answered : v.answered.Perm (v.channel.handed ++ v.channel.ready ++ v.waiting)
  idle : v.channel.current = none → v.channel.sent = v.channel.ended.flatMap words ∧ v.waiting = [] ∧
    v.unanswered = [] ∧ v.queued = 0
  busy : ∀ t, v.channel.current = some t → ∃ m, Sent v t m

/-- `m` words of the current transfer of an RX channel have been written. -/
structure Stored (v : View) (t : Transfer) (m : Nat) : Prop where
  prepared : t.At m
  index : v.channel.pendingByteIndex < 4
  lt : 4 * m + v.channel.pendingByteIndex < t.size.toNat
  addrs : v.writes.flatMap Write.addrs = v.channel.ended.flatMap addrs ++ (addrs t.job).take (4 * m)
  bytes : v.writes.flatMap Write.bytes ++ v.channel.pendingWord.take v.channel.pendingByteIndex = v.channel.pushed
  pushed : v.channel.pushed.length = (v.channel.ended.flatMap UdmaV3.addrs).length + 4 * m + v.channel.pendingByteIndex

structure AllStored (v : View) : Prop where
  index : v.channel.pendingByteIndex = 0
  addrs : v.writes.flatMap Write.addrs = v.channel.ended.flatMap addrs
  bytes : v.writes.flatMap Write.bytes = v.channel.pushed
  pushed : v.channel.pushed.length = (v.channel.ended.flatMap UdmaV3.addrs).length

structure RxOk (v : View) : Prop where
  word : v.channel.pendingWord.length = 4
  noReads : v.waiting = [] ∧ v.unanswered = [] ∧ v.queued = 0
  idle : v.channel.current = none → AllStored v
  busy : ∀ t, v.channel.current = some t → ∃ m, Stored v t m

structure ChannelOk (tx : Bool) (v : View) : Prop where
  slots : SlotsOk v
  scheduled : v.channel.current = none → v.channel.pending ≠ [] → v.channel.event ≠ none
  sent : tx = true → TxOk v
  stored : tx = false → RxOk v

variable {v : View} {tx : Bool} {t : Transfer} {r : Read} {now m : Nat}

/-! ## What does not concern a stream -/

theorem TxOk.congr (h : TxOk v) (hended : c.ended = v.channel.ended) (hcur : c.current = v.channel.current)
    (hhanded : c.handed = v.channel.handed) (hready : c.ready = v.channel.ready)
    (hreq : c.pendingReq = v.channel.pendingReq) (hsent : c.sent = v.channel.sent) : TxOk { v with channel := c } := by
  obtain ⟨hdelivered, houtstanding, hanswered, hidle, hbusy⟩ := h
  have hcount : c.delivered = v.channel.delivered := by rw [Channel.delivered, Channel.delivered, hhanded, hready]
  refine ⟨?_, ?_, ?_, ?_, fun t ht => ?_⟩
  · rw [hhanded, hready, hsent, hcount, hdelivered]
  · rw [hsent, hcount]
    exact houtstanding
  · rw [hhanded, hready]
    exact hanswered
  · rw [hcur, hended, hsent]
    exact hidle
  · obtain ⟨m, hm⟩ := hbusy t (hcur ▸ ht)
    refine ⟨m, hm.prepared, hm.le, ?_, hm.queued, ?_, ?_⟩
    · rw [hended, hsent]
      exact hm.sent
    · rw [hended, hcount]
      exact hm.received
    · rw [hready, hreq]
      exact hm.held

theorem TxOk.length_outstanding (h : TxOk v) :
    v.channel.delivered + (v.waiting.length + v.unanswered.length) = v.channel.sent.length := by
  have hdelivered := congrArg List.length h.delivered
  have houtstanding := h.outstanding.length_eq
  rw [length_map, length_take] at hdelivered
  rw [length_map, length_append, length_drop] at houtstanding
  have hcount : v.channel.delivered = (v.channel.handed ++ v.channel.ready).length := rfl
  omega

theorem RxOk.congr (h : RxOk v) (hended : c.ended = v.channel.ended) (hcur : c.current = v.channel.current)
    (hindex : c.pendingByteIndex = v.channel.pendingByteIndex) (hword : c.pendingWord = v.channel.pendingWord)
    (hpushed : c.pushed = v.channel.pushed) : RxOk { v with channel := c } := by
  obtain ⟨hlength, hreads, hidle, hbusy⟩ := h
  refine ⟨hword ▸ hlength, hreads, fun hc => ?_, fun t ht => ?_⟩
  · obtain ⟨h₁, h₂, h₃, h₄⟩ := hidle (hcur ▸ hc)
    exact ⟨hindex ▸ h₁, hended ▸ h₂, hpushed ▸ h₃, hpushed ▸ hended ▸ h₄⟩
  · obtain ⟨m, h₁, h₂, h₃, h₄, h₅, h₆⟩ := hbusy t (hcur ▸ ht)
    refine ⟨m, h₁, hindex ▸ h₂, hindex ▸ h₃, hended ▸ h₄, ?_, ?_⟩
    · rw [hword, hindex, hpushed]
      exact h₅
    · rw [hended, hindex, hpushed]
      exact h₆

theorem Channel.checkState_eq (now : Nat) (c : Channel) : ∃ event, c.checkState now = { c with event := event } ∧
    (c.current = none → c.pending ≠ [] → event ≠ none) := by
  rw [Channel.checkState]
  split
  case isTrue => exact ⟨_, rfl, fun _ _ => enqueue_ne_none⟩
  case isFalse hno => exact ⟨c.event, rfl, fun hcur hpend => absurd ⟨hpend, hcur⟩ hno⟩

theorem ChannelOk.checkState (now : Nat) (hs : SlotsOk v) (ht : tx = true → TxOk v) (hr : tx = false → RxOk v) :
    ChannelOk tx { v with channel := v.channel.checkState now } := by
  obtain ⟨event, heq, hev⟩ := v.channel.checkState_eq now
  rw [heq]
  exact ⟨{ hs with }, hev, fun htx => (ht htx).congr rfl rfl rfl rfl rfl rfl,
    fun hrx => (hr hrx).congr rfl rfl rfl rfl rfl⟩

theorem ChannelOk.setRegs (saddr size : Word) (h : ChannelOk tx v) : ChannelOk tx (v.setRegs saddr size) :=
  ⟨{ h.slots with }, h.scheduled,
    fun htx => (h.sent htx).congr rfl rfl rfl rfl rfl rfl, fun hrx => (h.stored hrx).congr rfl rfl rfl rfl rfl⟩

/-! ## Transfers -/

theorem ChannelOk.enqueue (now : Nat) (h : ChannelOk tx v) (hsize : v.channel.free ≠ 0 → 0 < v.channel.size.toInt) :
    ChannelOk tx (v.enqueue now) := by
  rw [View.enqueue, Channel.enqueueTransfer]
  by_cases hfree : v.channel.free = 0
  · rw [if_pos hfree]
    exact h
  rw [if_neg hfree]
  have hs := h.slots
  refine ChannelOk.checkState (v := { v with channel := _ }) now ⟨?_, ?_, ?_, hs.events⟩
    (fun htx => (h.sent htx).congr rfl rfl rfl rfl rfl rfl) (fun hrx => (h.stored hrx).congr rfl rfl rfl rfl rfl)
  · simp [hs.programmed, job]
  · intro t ht
    rcases mem_append.1 ht with ht | ht
    · exact hs.fresh t ht
    · rw [mem_singleton.1 ht]
      exact ⟨.start rfl rfl (hsize hfree), rfl⟩
  · have hslots := hs.slots
    simp only [length_append, length_singleton]
    omega

theorem ChannelOk.start {rest : List Transfer} (h : ChannelOk tx v) (hcur : v.channel.current = none)
    (hpend : v.channel.pending = t :: rest) : ChannelOk tx (v.start tx t rest) := by
  obtain ⟨hs, _, ht, hr⟩ := h
  obtain ⟨hat, hzero⟩ := hs.fresh t (hpend ▸ mem_cons_self)
  obtain ⟨hpos, _⟩ := toNat_pos_lt hat.pos
  refine ⟨⟨?_, fun t' ht' => hs.fresh t' (hpend ▸ mem_cons_of_mem _ ht'), ?_, hs.events⟩, nofun, fun htx => ?_,
    fun hrx => ?_⟩
  · have hprog := hs.programmed
    rw [hcur, hpend] at hprog
    simpa [View.start] using hprog
  · have hslots := hs.slots
    rw [hcur, hpend] at hslots
    simp only [View.start, toList_some, toList_none, length_cons, length_nil] at hslots ⊢
    omega
  · obtain ⟨hdelivered, houtstanding, hanswered, hidle, _⟩ := ht htx
    obtain ⟨hsent, hwaiting, hunanswered, hqueued⟩ := hidle hcur
    refine ⟨hdelivered, houtstanding, hanswered, nofun, fun t' ht' => ?_⟩
    cases ht'
    refine ⟨0, hat, Nat.zero_le _, ?_, ?_, ?_, fun hle => ?_⟩
    · simp [View.start, hsent]
    · have hlt : 0 < nbWords t.size := lt_nbWords_iff.2 (by omega)
      simp [View.start, hqueued, htx, hlt]
    · have hlength := (ht htx).length_outstanding
      rw [hwaiting, hunanswered, hsent] at hlength
      show t.receivedSize + 4 * (v.channel.ended.flatMap words).length = 4 * v.channel.delivered
      rw [hzero, ← hlength]
      simp
    · rw [hzero] at hle
      omega
  · obtain ⟨hword, hreads, hidle, _⟩ := hr hrx
    obtain ⟨hindex, haddrs, hbytes, hlength⟩ := hidle hcur
    refine ⟨hword, by simpa [View.start, hrx] using hreads, nofun, fun t' ht' => ?_⟩
    cases ht'
    refine ⟨0, hat, ?_, ?_, ?_, ?_, ?_⟩ <;> simp only [View.start]
    · omega
    · omega
    · simpa using haddrs
    · simpa [hindex] using hbytes
    · omega

theorem ChannelOk.idle (h : ChannelOk tx v) (hno : v.channel.current = none → v.channel.pending = []) :
    ChannelOk tx v.idle :=
  ⟨{ h.slots with }, fun hcur hpend => absurd (hno hcur) hpend,
    fun htx => (h.sent htx).congr rfl rfl rfl rfl rfl rfl, fun hrx => (h.stored hrx).congr rfl rfl rfl rfl rfl⟩

theorem ChannelOk.endTransfer (now : Nat) (hs : SlotsOk v) (hcur : v.channel.current = some t)
    (ht : tx = true → TxOk { v with channel := { v.channel with current := none, ended := v.channel.ended ++
      [t.job] } })
    (hr : tx = false → RxOk { v with channel := { v.channel with current := none, ended := v.channel.ended ++
      [t.job] } }) :
    ChannelOk tx (v.endTransfer now) := by
  rw [View.endTransfer, Channel.handleTransferEnd, hcur]
  refine ChannelOk.checkState (v := { v with channel := _, events := _ }) now ⟨?_, hs.fresh, ?_, ?_⟩
    (fun htx => ?_) (fun hrx => ?_)
  · have hprog := hs.programmed
    rw [hcur] at hprog
    simpa using hprog
  · have hslots := hs.slots
    rw [hcur] at hslots
    simp only [toList_some, toList_none, length_cons, length_nil] at hslots ⊢
    omega
  · simp [hs.events]
  · obtain ⟨h₁, h₂, h₃, h₄, h₅⟩ := ht htx
    exact ⟨h₁, h₂, h₃, h₄, nofun⟩
  · obtain ⟨h₁, h₂, h₃, h₄⟩ := hr hrx
    refine ⟨h₁, h₂, fun hc => ?_, nofun⟩
    obtain ⟨h₅, h₆, h₇, h₈⟩ := h₃ rfl
    exact ⟨h₅, h₆, h₇, h₈⟩

/-! ## The words of a TX channel -/

/-- The channel has a current transfer while a read of it is on its way, or while it is in `ready_tx_channels`. -/
theorem TxOk.exists_current (h : TxOk v) (hbusy : v.waiting ≠ [] ∨ v.unanswered ≠ [] ∨ v.queued ≠ 0) :
    ∃ t, v.channel.current = some t := by
  cases hcur : v.channel.current with
  | some t => exact ⟨t, rfl⟩
  | none =>
    obtain ⟨_, hwaiting, hunanswered, hqueued⟩ := h.idle hcur
    simp [hwaiting, hunanswered, hqueued] at hbusy

section

variable (h : ChannelOk true v)
include h

theorem ChannelOk.send (hcur : v.channel.current = some t) (hqueued : v.queued ≠ 0)
    (hkey : ∀ m, t.At m → m < nbWords t.size → r.key = word t.job m) : ChannelOk true (v.send t r) := by
  obtain ⟨hs, _, ht, _⟩ := h
  have hlength := (ht rfl).length_outstanding
  obtain ⟨hdelivered, houtstanding, hanswered, _, hbusy⟩ := ht rfl
  obtain ⟨m, hm⟩ := hbusy t hcur
  have hlt : m < nbWords t.size := by
    by_contra hge
    exact hqueued (hm.queued.trans (if_neg hge))
  have hone : v.queued = 1 := hm.queued.trans (if_pos hlt)
  have hlt4 := lt_nbWords_iff.1 hlt
  have hle : v.channel.delivered ≤ v.channel.sent.length := by omega
  refine ⟨⟨?_, hs.fresh, ?_, hs.events⟩, nofun, fun _ => ⟨?_, ?_, hanswered, nofun, fun t' ht' => ?_⟩, nofun⟩
  · have hprog := hs.programmed
    rw [hcur] at hprog
    simpa [View.send] using hprog
  · have hslots := hs.slots
    rw [hcur] at hslots
    exact hslots
  · show _ = (v.channel.sent ++ [r.key]).take v.channel.delivered
    rw [take_append_of_le_length hle]
    exact hdelivered
  · show ((v.waiting ++ (v.unanswered ++ [r])).map Read.key).Perm ((v.channel.sent ++ [r.key]).drop v.channel.delivered)
    rw [drop_append_of_le_length hle, ← append_assoc, map_append]
    exact houtstanding.append_right _
  · cases ht'
    refine ⟨m + 1, hm.prepared.prepareReq hlt4, hlt, ?_, ?_, hm.received, hm.held⟩
    · show v.channel.sent ++ [r.key] = _ ++ (words t.job).take (m + 1)
      rw [hm.sent, take_words_succ hlt, hkey m hm.prepared hlt, append_assoc]
      rfl
    · have hlast := hm.prepared.isLast hlt4
      simp only [View.send, hone, tsub_self, zero_add, hlast, decide_eq_true_eq, size_prepareReq,
        lt_nbWords_iff]
      split <;> split <;> omega

theorem ChannelOk.answer {waiting unanswered answered : List Read} (r r' : Read)
    (hkey : r'.key = r.key) (hw : waiting.Perm (r' :: v.waiting)) (hun : v.unanswered.Perm (r :: unanswered))
    (ha : answered.Perm (r' :: v.answered)) :
    ChannelOk true { v with waiting := waiting, unanswered := unanswered, answered := answered } := by
  obtain ⟨hs, hsched, ht, _⟩ := h
  obtain ⟨hdelivered, houtstanding, hanswered, hidle, hbusy⟩ := ht rfl
  refine ⟨{ hs with }, hsched, fun _ => ⟨hdelivered, ?_, ?_, fun hcur => ?_,
    fun t hcur => ?_⟩, nofun⟩
  · have hmove : ((waiting ++ unanswered).map Read.key).Perm ((v.waiting ++ v.unanswered).map Read.key) := by
      have hleft : (waiting ++ unanswered).Perm (r' :: (v.waiting ++ unanswered)) := hw.append_right unanswered
      have hright : (v.waiting ++ v.unanswered).Perm (r :: (v.waiting ++ unanswered)) :=
        (hun.append_left v.waiting).trans perm_middle
      refine (hleft.map Read.key).trans (.trans ?_ (hright.map Read.key).symm)
      rw [map_cons, map_cons, hkey]
    exact hmove.trans houtstanding
  · have hright : (r' :: v.answered).Perm (r' :: (v.channel.handed ++ v.channel.ready ++ v.waiting)) :=
      hanswered.cons r'
    exact ha.trans (hright.trans (perm_middle.symm.trans (hw.symm.append_left _)))
  · rw [(hidle hcur).2.2.1] at hun
    exact absurd hun.symm (by simp)
  · obtain ⟨m, hm⟩ := hbusy t hcur
    exact ⟨m, hm.prepared, hm.le, hm.sent, hm.queued, hm.received, hm.held⟩

theorem ChannelOk.deliver (hcur : v.channel.current = some t)
    (hw : v.waiting = r :: rest) (hnext : v.channel.sent[v.channel.delivered]? = some r.key) :
    ChannelOk true (v.deliver t r rest) := by
  obtain ⟨hs, _, ht, _⟩ := h
  obtain ⟨hdelivered, houtstanding, hanswered, _, hbusy⟩ := ht rfl
  obtain ⟨m, hm⟩ := hbusy t hcur
  have hcount : (v.channel.pushReadyReq t r).delivered = v.channel.delivered + 1 := by
    simp only [Channel.delivered, Channel.pushReadyReq, length_append, length_singleton]
    omega
  refine ⟨⟨?_, hs.fresh, ?_, hs.events⟩, nofun, fun _ => ⟨?_, ?_, ?_, nofun, fun t' ht' => ?_⟩, nofun⟩
  · have hprog := hs.programmed
    rw [hcur] at hprog
    simpa [View.deliver, Channel.pushReadyReq, job] using hprog
  · have hslots := hs.slots
    rw [hcur] at hslots
    exact hslots
  · show (v.channel.handed ++ (v.channel.ready ++ [r])).map Read.key =
      v.channel.sent.take (v.channel.pushReadyReq t r).delivered
    rw [hcount, take_add_one, hnext, ← hdelivered, ← append_assoc, map_append]
    rfl
  · show ((rest ++ v.unanswered).map Read.key).Perm (v.channel.sent.drop (v.channel.pushReadyReq t r).delivered)
    rw [drop_eq_getElem?_toList_append, hnext, hw] at houtstanding
    rw [hcount]
    exact houtstanding.cons_inv
  · show v.answered.Perm (v.channel.handed ++ (v.channel.ready ++ [r]) ++ rest)
    rw [hw] at hanswered
    simpa using hanswered
  · cases ht'
    refine ⟨m, hm.prepared.congr rfl rfl rfl, hm.le, hm.sent, hm.queued, ?_, fun _ => .inl ?_⟩
    · have hreceived := hm.received
      show t.receivedSize + 4 + 4 * (v.channel.ended.flatMap words).length = 4 * (v.channel.pushReadyReq t r).delivered
      rw [hcount]
      omega
    · simp [View.deliver, Channel.pushReadyReq]

theorem ChannelOk.take (hready : v.channel.ready = r :: rest) :
    ChannelOk true (v.take r rest) := by
  obtain ⟨hs, hsched, ht, _⟩ := h
  obtain ⟨hdelivered, houtstanding, hanswered, hidle, hbusy⟩ := ht rfl
  have hsame : (v.take r rest).channel.handed ++ (v.take r rest).channel.ready = v.channel.handed ++
    v.channel.ready := by
    simp [View.take, hready]
  have hcount : (v.take r rest).channel.delivered = v.channel.delivered := congrArg List.length hsame
  refine ⟨{ hs with }, hsched, fun _ => ⟨?_, ?_, ?_, hidle, fun t hcur => ?_⟩, nofun⟩
  · rw [hsame, hcount]
    exact hdelivered
  · rw [hcount]
    exact houtstanding
  · rw [hsame]
    exact hanswered
  · obtain ⟨m, hm⟩ := hbusy t hcur
    refine ⟨m, hm.prepared, hm.le, hm.sent, hm.queued, ?_, fun _ => .inr (by simp [View.take])⟩
    rw [hcount]
    exact hm.received

end

theorem TxOk.all_words (h : TxOk v) (hcur : v.channel.current = some t) (hrec : t.size.toNat ≤ t.receivedSize) :
    v.channel.sent = v.channel.ended.flatMap words ++ words t.job ∧ v.waiting = [] ∧ v.unanswered = [] ∧
      v.queued = 0 := by
  obtain ⟨m, hm⟩ := h.busy t hcur
  have hlength := h.length_outstanding
  have hreceived := hm.received
  have hle := hm.le
  rw [hm.sent] at hlength
  simp only [length_append, length_take, length_words, job_snd] at hlength
  have hwords : nbWords t.size = (t.size.toNat + 3) / 4 := rfl
  have hall : m = nbWords t.size ∧ v.waiting.length = 0 ∧ v.unanswered.length = 0 := by omega
  refine ⟨?_, length_eq_zero_iff.1 hall.2.1, length_eq_zero_iff.1 hall.2.2, hm.queued.trans (if_neg ?_)⟩
  · rw [hm.sent, hall.1, show nbWords t.size = nbWords t.job.2 from rfl, take_words_all]
  · omega

/-- The peripheral has sent a word: the current transfer goes on, or ends if it has received all its bytes. -/
theorem ChannelOk.free (h : ChannelOk true v) (hno : v.channel.received = false) : ChannelOk true v.free := by
  obtain ⟨hs, hsched, ht, _⟩ := h
  obtain ⟨hdelivered, houtstanding, hanswered, hidle, hbusy⟩ := ht rfl
  refine ⟨{ hs with }, hsched,
    fun _ => ⟨hdelivered, houtstanding, hanswered, hidle, fun t hcur => ?_⟩, nofun⟩
  obtain ⟨m, hm⟩ := hbusy t hcur
  refine ⟨m, hm.prepared, hm.le, hm.sent, hm.queued, hm.received, fun hle => ?_⟩
  have hcur : v.channel.current = some t := hcur
  simp only [Channel.received, hcur, any_some, decide_eq_false_iff_not] at hno
  exact absurd hle hno

theorem ChannelOk.freeEnd (now : Nat) (h : ChannelOk true v) (hyes : v.channel.received = true) :
    ChannelOk true (v.free.endTransfer now) := by
  obtain ⟨hs, _, ht, _⟩ := h
  obtain ⟨t, hcur, hrec⟩ := (Option.any_eq_true _ _).1 hyes
  refine .endTransfer (t := t) now { hs with } hcur (fun _ => ?_) nofun
  obtain ⟨hsent, hwaiting, hunanswered, hqueued⟩ := (ht rfl).all_words hcur (of_decide_eq_true hrec)
  refine ⟨(ht rfl).delivered, (ht rfl).outstanding, (ht rfl).answered,
    fun _ => ⟨?_, hwaiting, hunanswered, hqueued⟩, nofun⟩
  simpa [View.free] using hsent

/-! ## The bytes of an RX channel -/

section

variable (hword : c.pendingWord.length = 4) (hle : data.length + c.pendingByteIndex ≤ 4)
include hword hle

theorem Channel.length_fillWord : (c.fillWord data).length = 4 := by
  simp only [Channel.fillWord, length_append, length_take, length_drop, hword]
  omega

theorem Channel.take_fillWord :
    (c.fillWord data).take (c.pendingByteIndex + data.length) = c.pendingWord.take c.pendingByteIndex ++ data := by
  have hlength : (c.pendingWord.take c.pendingByteIndex ++ data).length = c.pendingByteIndex + data.length := by
    rw [length_append, length_take, hword]
    omega
  rw [Channel.fillWord, ← hlength, take_left]

end

/-- `m` words are written, and the next one is in the pending word, which may be full. -/
structure Filled (v : View) (t : Transfer) (m : Nat) : Prop where
  word : v.channel.pendingWord.length = 4
  prepared : t.At m
  le : v.channel.pendingByteIndex ≤ 4 ∧ 4 * m + v.channel.pendingByteIndex ≤ t.size.toNat ∧ 4 * m < t.size.toNat
  addrs : v.writes.flatMap Write.addrs = v.channel.ended.flatMap addrs ++ (addrs t.job).take (4 * m)
  bytes : v.writes.flatMap Write.bytes ++ v.channel.pendingWord.take v.channel.pendingByteIndex = v.channel.pushed
  pushed : v.channel.pushed.length = (v.channel.ended.flatMap UdmaV3.addrs).length + 4 * m + v.channel.pendingByteIndex

theorem Stored.push (h : Stored v t m) (hword : v.channel.pendingWord.length = 4) (byte : Byte) :
    Filled (v.push [byte]) t m := by
  obtain ⟨hat, hindex, hlt, haddrs, hbytes, hpushed⟩ := h
  refine ⟨Channel.length_fillWord hword (by simp; omega), hat, ?_, haddrs, ?_, ?_⟩
  · simp only [View.push, length_singleton]
    omega
  · show _ ++ (v.channel.fillWord [byte]).take (v.channel.pendingByteIndex + [byte].length) = v.channel.pushed ++ [byte]
    rw [Channel.take_fillWord hword (by simp; omega), ← hbytes, append_assoc]
    rfl
  · simp only [View.push, length_append, length_singleton, hpushed]
    omega

theorem ChannelOk.push (h : ChannelOk false v) (hcur : v.channel.current = some t) (byte : Byte)
    (hno : ¬(4 ≤ v.channel.pendingByteIndex + 1 ∨ t.remainingSize.toInt ≤ (v.channel.pendingByteIndex + 1 : Nat))) :
    ChannelOk false (v.push [byte]) := by
  obtain ⟨hs, hsched, _, hr⟩ := h
  obtain ⟨hword, hreads, _, hbusy⟩ := hr rfl
  obtain ⟨m, hm⟩ := hbusy t hcur
  obtain ⟨hword', hat, hle, haddrs, hbytes, hpushed⟩ := hm.push hword byte
  have hrem := hat.remaining
  refine ⟨{ hs with }, hsched, by simp, fun _ => ⟨hword', hreads, fun hc => ?_, ?_⟩⟩
  · have hc : v.channel.current = none := hc
    rw [hcur] at hc
    cases hc
  · intro t' ht'
    have ht' : v.channel.current = some t' := ht'
    rw [hcur] at ht'
    cases ht'
    refine ⟨m, hat, ?_, ?_, haddrs, hbytes, hpushed⟩ <;> simp only [View.push, length_singleton] <;> omega

theorem Filled.actualSize (h : Filled v t m)
    (hfull : 4 ≤ v.channel.pendingByteIndex ∨ t.remainingSize.toInt ≤ v.channel.pendingByteIndex) :
    t.actualSize.toNat = v.channel.pendingByteIndex := by
  have hrem := h.prepared.remaining
  have hle := h.le
  rw [h.prepared.actualSize]
  split <;> omega

def pendingWrite (ch : Nat) (t : Transfer) (c : Channel) : Write :=
  { channel := ch, addr := t.currentAddr, data := c.pendingWord, actualSize := t.actualSize }

theorem Filled.write (h : Filled v t m) (ch : Nat)
    (hfull : 4 ≤ v.channel.pendingByteIndex ∨ t.remainingSize.toInt ≤ v.channel.pendingByteIndex) :
    ((v.write t (pendingWrite ch t v.channel)).writes.flatMap Write.addrs =
      v.channel.ended.flatMap UdmaV3.addrs ++ (UdmaV3.addrs t.job).take (4 * m + v.channel.pendingByteIndex)) ∧
    (v.write t (pendingWrite ch t v.channel)).writes.flatMap Write.bytes = v.channel.pushed := by
  have hsize := h.actualSize hfull
  constructor
  · have haddrs := h.prepared.writeAddrs h.le.2.2 ch v.channel.pendingWord
    simp only [View.write, flatMap_append, flatMap_singleton, h.addrs, append_assoc]
    rw [pendingWrite, haddrs, hsize]
  · simp only [View.write, flatMap_append, flatMap_singleton, ← h.bytes]
    rw [pendingWrite, Write.bytes, hsize]

theorem ChannelOk.write (hs : SlotsOk v) (hcur : v.channel.current = some t)
    (hreads : v.waiting = [] ∧ v.unanswered = [] ∧ v.queued = 0) (hm : Filled v t m) (ch : Nat)
    (hfull : 4 ≤ v.channel.pendingByteIndex ∨ t.remainingSize.toInt ≤ v.channel.pendingByteIndex)
    (hno : t.isLast = false) : ChannelOk false (v.write t (pendingWrite ch t v.channel)) := by
  obtain ⟨haddrs, hbytes⟩ := hm.write ch hfull
  have hlast := hm.prepared.isLast hm.le.2.2
  rw [hno] at hlast
  have hrem := hm.prepared.remaining
  have hlt : 4 * (m + 1) < t.size.toNat := not_le.1 (of_decide_eq_false hlast.symm)
  have hindex : v.channel.pendingByteIndex = 4 := by
    have hle := hm.le
    omega
  refine ⟨⟨?_, hs.fresh, ?_, hs.events⟩, fun h => (by cases h), by
    simp, fun _ => ⟨hm.word, hreads, fun h => (by cases h), fun t' ht' => ?_⟩⟩
  · have hprog := hs.programmed
    rw [hcur] at hprog
    simpa [View.write] using hprog
  · have hslots := hs.slots
    rw [hcur] at hslots
    exact hslots
  · cases ht'
    refine ⟨m + 1, hm.prepared.prepareReq hm.le.2.2, ?_, ?_, ?_, ?_, ?_⟩
    · simp [View.write]
    · simpa [View.write] using hlt
    · rw [haddrs, hindex]
      rfl
    · show _ ++ v.channel.pendingWord.take 0 = v.channel.pushed
      rw [hbytes, take_zero, append_nil]
    · have hpushed := hm.pushed
      simp only [View.write]
      omega

theorem ChannelOk.writeEnd (now : Nat) (hs : SlotsOk v) (hcur : v.channel.current = some t)
    (hreads : v.waiting = [] ∧ v.unanswered = [] ∧ v.queued = 0) (hm : Filled v t m) (ch : Nat)
    (hfull : 4 ≤ v.channel.pendingByteIndex ∨ t.remainingSize.toInt ≤ v.channel.pendingByteIndex)
    (hyes : t.isLast = true) : ChannelOk false ((v.write t (pendingWrite ch t v.channel)).endTransfer now) := by
  obtain ⟨haddrs, hbytes⟩ := hm.write ch hfull
  have hlast := hm.prepared.isLast hm.le.2.2
  rw [hyes] at hlast
  have hrem := hm.prepared.remaining
  have hle : t.size.toNat ≤ 4 * (m + 1) := of_decide_eq_true hlast.symm
  have hindex : 4 * m + v.channel.pendingByteIndex = t.size.toNat := by
    have hle := hm.le
    omega
  have hslots : SlotsOk (v.write t (pendingWrite ch t v.channel)) := by
    refine ⟨?_, hs.fresh, ?_, hs.events⟩
    · have hprog := hs.programmed
      rw [hcur] at hprog
      simpa [View.write] using hprog
    · have hslots := hs.slots
      rw [hcur] at hslots
      exact hslots
  refine .endTransfer (t := t.prepareReq) now hslots rfl
    (by simp) fun _ => ⟨hm.word, hreads, fun _ => ⟨rfl, ?_, hbytes, ?_⟩, by simp⟩
  · rw [haddrs, hindex, flatMap_append, flatMap_singleton, job_prepareReq]
    congr 1
    exact take_addrs_all t.job
  · have hpushed := hm.pushed
    simp only [View.write, flatMap_append, flatMap_singleton, length_append, length_addrs,
      job_prepareReq, job_snd]
    omega

end GvsocPulp.UdmaV3
