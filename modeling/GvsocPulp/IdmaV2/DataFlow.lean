import GvsocPulp.IdmaV2.Backend

/-!
# What the back-end reads and writes

The bytes of the lines, in order (`Dma.plan`), are first those that have been read, then those that the open bursts have
not received, then those of the line that is not cut yet. What has been read has been written, or waits in the buffers
of the write bursts in the order of the plan (`Dma.Flow`). Each operation moves bytes from the front of one part to the
end of the part before.
-/

namespace GvsocPulp.IdmaV2

open Function List IDmaBeAxi

structure PlanByte where
  line : Nat
  src : BitVec 64
  dst : BitVec 64
  deriving DecidableEq, Repr

def bytesFrom (line : Nat) : BitVec 64 → BitVec 64 → Nat → List PlanByte
  | _, _, 0 => []
  | src, dst, n + 1 => { line := line, src := src, dst := dst } :: bytesFrom line (src + 1) (dst + 1) n

def copies (plan : List PlanByte) (bytes : List UInt8) : List Access :=
  List.zipWith (fun p b => { line := p.line, addr := p.dst, byte := b }) plan bytes

/-! ## Bytes at increasing addresses -/

section Bytes

variable (line : Nat) (src dst : BitVec 64)

theorem ofNat_succ_add (x : BitVec 64) (n : Nat) : x + BitVec.ofNat 64 (n + 1) = x + 1 + BitVec.ofNat 64 n := by
  rw [Nat.add_comm, BitVec.ofNat_add, ← BitVec.add_assoc]
  rfl

theorem bytesFrom_add (m n : Nat) : ∀ src dst, bytesFrom line src dst (m + n) =
    bytesFrom line src dst m ++ bytesFrom line (src + BitVec.ofNat 64 m) (dst + BitVec.ofNat 64 m) n := by
  induction m with
  | zero =>
    intro src dst
    rw [zero_add, bytesFrom, nil_append, BitVec.add_zero, BitVec.add_zero]
  | succ m ih =>
    intro src dst
    rw [Nat.succ_add, bytesFrom, ih, bytesFrom, cons_append, ofNat_succ_add, ofNat_succ_add]

theorem line_of_mem_bytesFrom {p : PlanByte} (n : Nat) : ∀ src dst, p ∈ bytesFrom line src dst n → p.line = line := by
  induction n with
  | zero => exact fun _ _ h => nomatch h
  | succ n ih =>
    intro src dst h
    rcases mem_cons.1 h with rfl | h
    · rfl
    · exact ih _ _ h

theorem length_accesses (bytes : List UInt8) : ∀ addr, (accesses line addr bytes).length = bytes.length := by
  induction bytes with
  | nil => exact fun _ => rfl
  | cons b bytes ih =>
    intro addr
    rw [accesses, length_cons, ih, length_cons]

theorem accesses_append (xs ys : List UInt8) : ∀ addr,
    accesses line addr (xs ++ ys) = accesses line addr xs ++ accesses line (addr + BitVec.ofNat 64 xs.length) ys := by
  induction xs with
  | nil =>
    intro addr
    rw [nil_append, accesses, nil_append, length_nil, BitVec.add_zero]
  | cons x xs ih =>
    intro addr
    rw [cons_append, accesses, ih, accesses, cons_append, length_cons, ofNat_succ_add]

theorem map_accesses (bytes : List UInt8) : ∀ src dst, (accesses line src bytes).map (fun a => (a.line, a.addr)) =
    (bytesFrom line src dst bytes.length).map fun p => (p.line, p.src) := by
  induction bytes with
  | nil => exact fun _ _ => rfl
  | cons b bytes ih =>
    intro src dst
    rw [accesses, map_cons, ih _ (dst + 1)]
    rfl

theorem map_byte_accesses (bytes : List UInt8) : ∀ addr, (accesses line addr bytes).map (·.byte) = bytes := by
  induction bytes with
  | nil => exact fun _ => rfl
  | cons b bytes ih =>
    intro addr
    rw [accesses, map_cons, ih]

theorem copies_bytesFrom (bytes : List UInt8) : ∀ src dst, copies (bytesFrom line src dst bytes.length) bytes =
    accesses line dst bytes := by
  induction bytes with
  | nil => exact fun _ _ => rfl
  | cons b bytes ih =>
    intro src dst
    rw [length_cons, bytesFrom, copies, zipWith_cons_cons, ← copies, ih, accesses]

end Bytes

theorem copies_append {plan plan' : List PlanByte} {bytes bytes' : List UInt8} (h : plan.length = bytes.length) :
    copies (plan ++ plan') (bytes ++ bytes') = copies plan bytes ++ copies plan' bytes' := zipWith_append h

/-- The part of a list of accesses that waits in the buffer of a write burst. -/
def IDmaBeAxi.unissued (be : IDmaBeAxi) (slot : Nat) : List Access :=
  accesses (be.burstInfo slot).transfer ((be.burstInfo slot).base + BitVec.ofNat 64 (be.burstInfo slot).bytesIssued)
    ((be.burstInfo slot).data.drop (be.burstInfo slot).bytesIssued)

namespace Dma

variable (s : Dma)

def plan : List PlanByte :=
  s.lines.zipIdx.flatMap fun p => bytesFrom p.2 p.1.2.src p.1.2.dst p.1.2.size.toNat

/-- What a pair of a read and a write burst has not received. -/
def unreceived (p : Nat × Nat) : List PlanByte :=
  let info := s.beRead.burstInfo p.1
  bytesFrom info.transfer (info.base + BitVec.ofNat 64 info.bytesResponded)
    ((s.beWrite.burstInfo p.2).base + BitVec.ofNat 64 info.bytesResponded) (info.totalSize - info.bytesResponded)

/-- What is left of the line that is cut into bursts. -/
def rest : List PlanByte :=
  bytesFrom s.currentTransfer s.currentTransferSrc s.currentTransferDst s.currentTransferSize

/-- A pair of bursts that is open: it is of one line and one size, and has not received all its bytes. -/
structure Pair (p : Nat × Nat) : Prop where
  transfer : (s.beRead.burstInfo p.1).transfer = (s.beWrite.burstInfo p.2).transfer
  totalSize : (s.beRead.burstInfo p.1).totalSize = (s.beWrite.burstInfo p.2).totalSize
  received : (s.beRead.burstInfo p.1).bytesResponded = (s.beWrite.burstInfo p.2).data.length
  lt : (s.beRead.burstInfo p.1).bytesResponded < (s.beRead.burstInfo p.1).totalSize

/-- `opn` are the open pairs of bursts, in order, and `dn` the bytes that have been read. -/
structure Flow (opn : List (Nat × Nat)) (dn : List PlanByte) : Prop where
  plan : s.plan = dn ++ (opn.flatMap s.unreceived ++ s.rest)
  read : s.readLog.map (fun a => (a.line, a.addr)) = dn.map fun p => (p.line, p.src)
  written : s.writeLog ++ s.beWrite.pendingBursts.flatMap s.beWrite.unissued = copies dn (s.readLog.map (·.byte))
  reads : s.readBus ++ s.beRead.pendingBursts = opn.map (·.1)
  fills : s.beWrite.writeFillQueue = opn.map (·.2)
  pair : ∀ p ∈ opn, s.Pair p
  /-- Only the first of the open pairs has received anything. -/
  empty : ∀ p ∈ opn.tail, (s.beWrite.burstInfo p.2).data = []
  full : ∃ front, s.beWrite.pendingBursts = front ++ s.beWrite.writeFillQueue ∧
    ∀ w ∈ front, (s.beWrite.burstInfo w).data.length = (s.beWrite.burstInfo w).totalSize
  issued : ∀ w ∈ s.beWrite.pendingBursts, (s.beWrite.burstInfo w).bytesIssued < (s.beWrite.burstInfo w).totalSize ∧
    (s.beWrite.burstInfo w).bytesIssued ≤ (s.beWrite.burstInfo w).data.length ∧
    (s.beWrite.burstInfo w).data.length ≤ (s.beWrite.burstInfo w).totalSize
  readsNodup : (opn.map (·.1)).Nodup
  pendingNodup : s.beWrite.pendingBursts.Nodup
  noPush : s.beRead.readPushQueue = []
  noFatal : s.fatal = false

/-- The fields of a slot that its acknowledgements leave alone. -/
def SameRead (i j : BurstInfo) : Prop :=
  i.transfer = j.transfer ∧ i.base = j.base ∧ i.totalSize = j.totalSize ∧ i.bytesResponded = j.bytesResponded

variable {s} {s' : Dma} {opn : List (Nat × Nat)} {dn : List PlanByte}

namespace Flow

variable (h : s.Flow opn dn)
include h

theorem congr (hlines : s'.lines = s.lines) (hrest : s'.rest = s.rest) (hread : s'.readLog = s.readLog)
    (hwrite : s'.writeLog = s.writeLog) (hfatal : s'.fatal = s.fatal)
    (hreads : s'.readBus ++ s'.beRead.pendingBursts = s.readBus ++ s.beRead.pendingBursts)
    (hpush : s'.beRead.readPushQueue = s.beRead.readPushQueue)
    (hpending : s'.beWrite.pendingBursts = s.beWrite.pendingBursts)
      (hfill : s'.beWrite.writeFillQueue = s.beWrite.writeFillQueue)
    (hR : ∀ p ∈ opn, SameRead (s'.beRead.burstInfo p.1) (s.beRead.burstInfo p.1))
    (hW : ∀ w ∈ s.beWrite.pendingBursts, s'.beWrite.burstInfo w = s.beWrite.burstInfo w) : s'.Flow opn dn := by
  obtain ⟨front, hfront, hfull⟩ := h.full
  have hmem : ∀ p ∈ opn, p.2 ∈ s.beWrite.pendingBursts := fun p hp => by
    rw [hfront, h.fills]
    exact mem_append_right _ (mem_map_of_mem hp)
  have hunreceived : ∀ p ∈ opn, s'.unreceived p = s.unreceived p := fun p hp => by
    obtain ⟨htransfer, hbase, htotal, hresponded⟩ := hR p hp
    rw [unreceived, unreceived, hW _ (hmem p hp), htransfer, hbase, htotal, hresponded]
  refine {
    plan := ?_, read := by
      rw [hread]; exact h.read, written := ?_, reads := hreads.trans h.reads, fills := hfill.trans h.fills
    pair := fun p hp => ?_
    empty := fun p hp => by rw [hW _ (hmem p (mem_of_mem_tail hp))]; exact h.empty p hp
    full := ⟨front, by rw [hpending, hfill]; exact hfront, fun w hw => ?_⟩
    issued := fun w hw => ?_
    readsNodup := h.readsNodup, pendingNodup := hpending ▸ h.pendingNodup, noPush := hpush.trans h.noPush
    noFatal := hfatal.trans h.noFatal }
  · have hplan : s'.plan = s.plan := by rw [Dma.plan, Dma.plan, hlines]
    rw [hplan, h.plan, hrest, flatMap_congr hunreceived]
  · rw [hwrite, hread, hpending, ← h.written]
    congr 1
    refine flatMap_congr fun w hw => ?_
    rw [unissued, unissued, hW w hw]
  · obtain ⟨htransfer, -, htotal, hresponded⟩ := hR p hp
    obtain ⟨h₁, h₂, h₃, h₄⟩ := h.pair p hp
    refine ⟨?_, ?_, ?_, ?_⟩
    · rw [htransfer, hW _ (hmem p hp), h₁]
    · rw [htotal, hW _ (hmem p hp), h₂]
    · rw [hresponded, hW _ (hmem p hp), h₃]
    · rwa [hresponded, htotal]
  · rw [hW w (hfront ▸ mem_append_left _ hw)]
    exact hfull w hw
  · rw [hpending] at hw
    rw [hW w hw]
    exact h.issued w hw

theorem mem_pending {p : Nat × Nat} (hp : p ∈ opn) : p.2 ∈ s.beWrite.pendingBursts := by
  obtain ⟨front, hfront, -⟩ := h.full
  rw [hfront, h.fills]
  exact mem_append_right _ (mem_map_of_mem hp)

theorem length_done : dn.length = (s.readLog.map (·.byte)).length := by
  have hlen := congrArg List.length h.read
  simp only [length_map] at hlen ⊢
  exact hlen.symm

theorem enqueueTransfer (hidle : s.currentTransferSize = 0) (n : Nat) (burst : Burst) :
    (s.enqueueTransfer n burst).Flow opn dn := by
  have hrest : s.rest = [] := by rw [Dma.rest, hidle]; rfl
  refine { h with
    plan := ?_
    pair := fun p hp => { h.pair p hp with } }
  show ((s.lines ++ [(n, burst)]).zipIdx).flatMap _ = dn ++ (opn.flatMap s.unreceived ++ _)
  rw [zipIdx_append, flatMap_append, ← append_assoc, ← Dma.plan, h.plan, hrest, append_nil]
  congr 1
  rw [zero_add]
  exact append_nil _

theorem cut {r w k : Nat} {freeR freeW : List Nat} (hr : s.beRead.freeBursts = r :: freeR)
    (hw : s.beWrite.freeBursts = w :: freeW) (hpos : 0 < k) (hk : k ≤ s.currentTransferSize) (hrn : r ∉ opn.map (·.1))
    (hwn : w ∉ s.beWrite.pendingBursts) :
    Flow { s with
      beRead := s.beRead.enqueueBurst s.currentTransferSrc k false s.currentTransfer
      beWrite := s.beWrite.enqueueBurst s.currentTransferDst k true s.currentTransfer
      currentTransferSize := s.currentTransferSize - k
      currentTransferSrc := s.currentTransferSrc + BitVec.ofNat 64 k
      currentTransferDst := s.currentTransferDst + BitVec.ofNat 64 k } (opn ++ [(r, w)]) dn := by
  rw [enqueueBurst, hr, enqueueBurst, hw]
  have hneR : ∀ p ∈ opn, p.1 ≠ r := fun p hp heq => hrn (heq ▸ mem_map_of_mem hp)
  have hneW : ∀ v ∈ s.beWrite.pendingBursts, v ≠ w := fun v hv heq => hwn (heq ▸ hv)
  have hneW' : ∀ p ∈ opn, p.2 ≠ w := fun p hp => hneW _ (h.mem_pending hp)
  obtain ⟨front, hfront, hfull⟩ := h.full
  refine ⟨?_, h.read, ?_, ?_, ?_, fun p hp => ?_, fun p hp => ?_, ⟨front, ?_, fun v hv => ?_⟩, fun v hv => ?_, ?_, ?_,
    h.noPush, h.noFatal⟩
  · have hrest : s.rest = bytesFrom s.currentTransfer s.currentTransferSrc s.currentTransferDst k ++
        bytesFrom s.currentTransfer (s.currentTransferSrc + BitVec.ofNat 64 k)
          (s.currentTransferDst + BitVec.ofNat 64 k)
          (s.currentTransferSize - k) := by
      rw [← bytesFrom_add, Nat.add_sub_cancel' hk, Dma.rest]
    show s.plan = _
    rw [h.plan, hrest, flatMap_append, append_assoc]
    congr 2
    · refine flatMap_congr fun p hp => ?_
      simp only [unreceived, IDmaBeAxi.set, update_of_ne (hneR p hp), update_of_ne (hneW' p hp)]
    · congr 1
      simp [unreceived, IDmaBeAxi.set]
  · rw [flatMap_append, ← h.written]
    congr 1
    have hnew : [w].flatMap (unissued { s.beWrite.set w
        { transfer := s.currentTransfer, base := s.currentTransferDst, totalSize := k } with
        freeBursts := freeW, pendingBursts := s.beWrite.pendingBursts ++ [w],
        writeFillQueue := if true then s.beWrite.writeFillQueue ++ [w] else s.beWrite.writeFillQueue }) = [] := by
      simp only [flatMap_cons, flatMap_nil, append_nil, IDmaBeAxi.unissued, IDmaBeAxi.set, update_self,
        drop_nil]
      rfl
    rw [hnew, append_nil]
    refine flatMap_congr fun v hv => ?_
    simp only [IDmaBeAxi.unissued, IDmaBeAxi.set, update_of_ne (hneW v hv)]
  · rw [← append_assoc, h.reads, map_append]
    rfl
  · rw [h.fills, map_append]
    rfl
  · rcases mem_append.1 hp with hp | hp
    · obtain ⟨h₁, h₂, h₃, h₄⟩ := h.pair p hp
      constructor <;> simp only [IDmaBeAxi.set, update_of_ne (hneR p hp), update_of_ne (hneW' p hp)]
      · exact h₁
      · exact h₂
      · exact h₃
      · exact h₄
    · obtain rfl := mem_singleton.1 hp
      constructor <;> simp only [IDmaBeAxi.set, update_self]
      · rfl
      · exact hpos
  · have hp' : p ∈ opn.tail ∨ p = (r, w) := by
      cases opn with
      | nil => cases hp
      | cons q opn => simpa using hp
    rcases hp' with hp' | rfl
    · simp only [IDmaBeAxi.set, update_of_ne (hneW' p (mem_of_mem_tail hp'))]
      exact h.empty p hp'
    · simp [IDmaBeAxi.set]
  · show s.beWrite.pendingBursts ++ [w] = front ++ (s.beWrite.writeFillQueue ++ [w])
    rw [hfront, append_assoc]
  · simp only [IDmaBeAxi.set, update_of_ne (hneW v (hfront ▸ mem_append_left _ hv))]
    exact hfull v hv
  · rcases mem_append.1 hv with hv | hv
    · simp only [IDmaBeAxi.set, update_of_ne (hneW v hv)]
      exact h.issued v hv
    · obtain rfl := mem_singleton.1 hv
      simp only [IDmaBeAxi.set, update_self]
      exact ⟨hpos, le_rfl, Nat.zero_le _⟩
  · rw [map_append, map_singleton, ← concat_eq_append]
    exact h.readsNodup.concat hrn
  · show (s.beWrite.pendingBursts ++ [w]).Nodup
    rw [← concat_eq_append]
    exact h.pendingNodup.concat hwn

theorem issueRead (granted : Bool) : (s.issueRead granted).Flow opn dn := by
  unfold Dma.issueRead
  split
  · exact h
  case h_2 slot pending hpending =>
    split
    · exact h
    · split
      · refine h.congr rfl rfl rfl rfl rfl ?_ rfl rfl rfl (fun p _ => ?_) (fun _ _ => rfl)
        · rw [hpending, append_assoc]
          rfl
        · show SameRead (update s.beRead.burstInfo slot _ p.1) _
          rw [update_apply]
          split
          case isTrue heq =>
            rw [heq]
            exact ⟨rfl, rfl, rfl, rfl⟩
          case isFalse => exact ⟨rfl, rfl, rfl, rfl⟩
      · exact h.congr rfl rfl rfl rfl rfl rfl rfl rfl rfl (fun _ _ => ⟨rfl, rfl, rfl, rfl⟩) (fun _ _ => rfl)

theorem pushRead : s.pushRead = s := by rw [Dma.pushRead, h.noPush]

end Flow

theorem fill_eq {burstInfo : Nat → BurstInfo} {w : Nat} {queue : List Nat} {data : List UInt8} (hdata : data ≠ [])
    (hfits : (burstInfo w).data.length + data.length ≤ (burstInfo w).totalSize) :
    fill burstInfo (w :: queue) data =
      (update burstInfo w { burstInfo w with
          data := (burstInfo w).data ++ data, writePendingAcks := (burstInfo w).writePendingAcks ++ [data.length] },
        if (burstInfo w).data.length + data.length = (burstInfo w).totalSize then queue else w :: queue, false) := by
  obtain ⟨d, ds, rfl⟩ := exists_cons_of_ne_nil hdata
  have htake : min ((burstInfo w).totalSize - (burstInfo w).data.length) (d :: ds).length = (d :: ds).length := by omega
  rw [IDmaBeAxi.fill]
  simp only [htake, take_length, drop_length, length_append]
  · split
    · cases queue <;> rfl
    · rfl
  · exact fun h => nomatch h

/-- The state when the read burst `r` has received a beat and the write burst `w` has taken it. -/
def forward (s : Dma) (r w : Nat) (bus : List Nat) (data : List UInt8) : Dma :=
  let read := s.beRead.burstInfo r
  let write := s.beWrite.burstInfo w
  let isLast := read.bytesResponded + data.length = read.totalSize
  { s with
    beRead := { s.beRead with
      burstInfo := update s.beRead.burstInfo r
        { read with bytesResponded := read.bytesResponded + data.length, data := read.data ++ data }
      readAckQueue := s.beRead.readAckQueue ++ [(r, data.length)] }
    beWrite := { s.beWrite with
      burstInfo := update s.beWrite.burstInfo w
        { write with data := write.data ++ data, writePendingAcks := write.writePendingAcks ++ [data.length] }
      writeFillQueue := if isLast then s.beWrite.writeFillQueue.tail else s.beWrite.writeFillQueue }
    readBus := if isLast then bus else s.readBus
    readLog := s.readLog ++ accesses read.transfer (read.base + BitVec.ofNat 64 read.bytesResponded) data }

namespace Flow

variable {r w : Nat} {rest : List (Nat × Nat)} {data : List UInt8} {bus : List Nat}

variable (h : s.Flow ((r, w) :: rest) dn) (hdata : data ≠ [])
  (hfits : (s.beRead.burstInfo r).bytesResponded + data.length ≤ (s.beRead.burstInfo r).totalSize)
include h hdata hfits

/-- The first of the open pairs receives a beat, and hands it to its write burst. -/
theorem readResp_eq (bus : List Nat) :
    s.readResp r bus data = s.forward r w bus data := by
  obtain ⟨-, htotal, hreceived, -⟩ := h.pair _ mem_cons_self
  have hfills : s.beWrite.writeFillQueue = w :: rest.map (·.2) := h.fills
  have hready : s.beWrite.canAcceptData = true := by rw [canAcceptData, hfills]; rfl
  rw [hreceived, htotal] at hfits
  rw [Dma.readResp, Dma.forward]
  simp [hready, Dma.writeData, hfills, fill_eq hdata hfits, IDmaBeAxi.set, hreceived, htotal]

theorem forward  (hbus : s.readBus = r :: bus) : ∃ dn', (s.forward r w bus data).Flow
      (if (s.beRead.burstInfo r).bytesResponded + data.length = (s.beRead.burstInfo r).totalSize then rest
        else (r, w) :: rest)
      dn' := by
  obtain ⟨htransfer, htotal, hreceived, hlt⟩ := h.pair _ mem_cons_self
  have hneR : ∀ p ∈ rest, p.1 ≠ r := fun p hp heq =>
    (nodup_cons.1 h.readsNodup).1 (mem_map.2 ⟨p, hp, heq⟩)
  obtain ⟨front, hfront, hfull⟩ := h.full
  have hfills : s.beWrite.writeFillQueue = w :: rest.map (·.2) := h.fills
  rw [hfills] at hfront
  have hnodup := h.pendingNodup
  rw [hfront] at hnodup
  have hdisjoint := nodup_append.1 hnodup
  have hneFront : ∀ v ∈ front, v ≠ w := fun v hv heq => hdisjoint.2.2 v hv w mem_cons_self heq
  have hneW : ∀ p ∈ rest, p.2 ≠ w := fun p hp heq =>
    (nodup_cons.1 hdisjoint.2.1).1 (mem_map.2 ⟨p, hp, heq⟩)
  have hpos : 0 < data.length := length_pos_iff.2 hdata
  have hissued := h.issued w (h.mem_pending mem_cons_self)
  -- the bytes of the beat, at the front of what the pair has not received
  let moved := bytesFrom (s.beRead.burstInfo r).transfer
    ((s.beRead.burstInfo r).base + BitVec.ofNat 64 (s.beRead.burstInfo r).bytesResponded)
    ((s.beWrite.burstInfo w).base + BitVec.ofNat 64 (s.beRead.burstInfo r).bytesResponded) data.length
  let left := bytesFrom (s.beRead.burstInfo r).transfer
    ((s.beRead.burstInfo r).base + BitVec.ofNat 64 ((s.beRead.burstInfo r).bytesResponded + data.length))
    ((s.beWrite.burstInfo w).base + BitVec.ofNat 64 ((s.beRead.burstInfo r).bytesResponded + data.length))
    ((s.beRead.burstInfo r).totalSize - ((s.beRead.burstInfo r).bytesResponded + data.length))
  have hsplit : s.unreceived (r, w) = moved ++ left := by
    have hsize : (s.beRead.burstInfo r).totalSize - (s.beRead.burstInfo r).bytesResponded =
        data.length + ((s.beRead.burstInfo r).totalSize - ((s.beRead.burstInfo r).bytesResponded + data.length)) := by
          omega
    rw [unreceived]
    dsimp only [moved, left]
    rw [hsize, bytesFrom_add, BitVec.ofNat_add, ← BitVec.add_assoc, ← BitVec.add_assoc]
  have hleft : (s.forward r w bus data).unreceived (r, w) = left := by
    simp only [Dma.unreceived, Dma.forward, update_self]
    rfl
  have hunreceived : ∀ p ∈ rest, (s.forward r w bus data).unreceived p = s.unreceived p := fun p hp => by
    simp only [Dma.unreceived, Dma.forward, update_of_ne (hneR p hp), update_of_ne (hneW p hp)]
  have hempty : ∀ v ∈ rest.map (·.2), (s.beWrite.burstInfo v).data = [] := fun v hv => by
    obtain ⟨p, hp, rfl⟩ := mem_map.1 hv
    exact h.empty p hp
  -- the beat waits behind what the write burst has not issued
  let beat := accesses (s.beWrite.burstInfo w).transfer
    ((s.beWrite.burstInfo w).base + BitVec.ofNat 64 (s.beWrite.burstInfo w).data.length) data
  have hbeat : (s.forward r w bus data).beWrite.unissued w = s.beWrite.unissued w ++ beat := by
    simp only [IDmaBeAxi.unissued, Dma.forward, update_self]
    rw [drop_append_of_le_length hissued.2.1, accesses_append, length_drop, BitVec.add_assoc, ← BitVec.ofNat_add,
      Nat.add_sub_cancel' hissued.2.1]
  have hothers : ∀ v, v ≠ w → (s.forward r w bus data).beWrite.unissued v = s.beWrite.unissued v := fun v hv => by
    simp only [unissued, Dma.forward, update_of_ne hv]
  have hnothing : ∀ v ∈ rest.map (·.2), s.beWrite.unissued v = [] := fun v hv => by
    rw [unissued, hempty v hv, drop_nil]
    rfl
  have hmoved : copies moved data = beat := by
    rw [copies_bytesFrom, htransfer, hreceived]
  refine ⟨dn ++ moved, ?_, ?_, ?_, ?_, ?_, fun p hp => ?_, fun p hp => ?_, ?_, fun v hv => ?_, ?_, ?_,
    h.noPush, h.noFatal⟩
  · show s.plan = dn ++ moved ++ (_ ++ s.rest)
    rw [h.plan, flatMap_cons, hsplit, append_assoc, append_assoc, append_assoc, ← flatMap_congr hunreceived]
    congr 2
    split
    case isTrue hlast =>
      have hnil : left = [] := by
        dsimp only [left]
        rw [hlast, tsub_self]
        rfl
      rw [hnil, nil_append]
    case isFalse => rw [flatMap_cons, hleft, append_assoc]
  · show (s.readLog ++ _).map _ = _
    rw [map_append, map_append, h.read, map_accesses]
  · show s.writeLog ++ s.beWrite.pendingBursts.flatMap _ = copies (dn ++ moved) ((s.readLog ++ _).map _)
    have hbefore := h.written
    rw [hfront, flatMap_append, flatMap_cons, flatMap_eq_nil_iff.2 hnothing, append_nil] at hbefore
    have hfrontSame : front.flatMap (s.forward r w bus data).beWrite.unissued = front.flatMap s.beWrite.unissued :=
      flatMap_congr fun v hv => hothers v (hneFront v hv)
    have hrestSame : (rest.map (·.2)).flatMap (s.forward r w bus data).beWrite.unissued = [] := by
      refine flatMap_eq_nil_iff.2 fun v hv => ?_
      obtain ⟨p, hp, rfl⟩ := mem_map.1 hv
      rw [hothers _ (hneW p hp)]
      exact hnothing _ hv
    rw [hfront, flatMap_append, flatMap_cons, hfrontSame, hrestSame, hbeat, append_nil, map_append,
      map_byte_accesses, copies_append h.length_done, ← hbefore, hmoved]
    simp
  · have hreads := h.reads
    rw [hbus, cons_append] at hreads
    show (if _ then bus else s.readBus) ++ s.beRead.pendingBursts = _
    split
    · exact (List.cons.inj hreads).2
    · rw [hbus]
      exact hreads
  · show (if _ then s.beWrite.writeFillQueue.tail else s.beWrite.writeFillQueue) = _
    split
    · rw [hfills]
      rfl
    · exact h.fills
  · by_cases hp' : p = (r, w)
    · subst hp'
      have hnot : ¬ (s.beRead.burstInfo r).bytesResponded + data.length = (s.beRead.burstInfo r).totalSize :=
        fun hlast => by
        rw [if_pos hlast] at hp
        exact hneR _ hp rfl
      constructor <;> simp only [Dma.forward, update_self]
      · exact htransfer
      · exact htotal
      · rw [length_append, hreceived]
      · omega
    · have hp : p ∈ rest := by
        split at hp
        · exact hp
        · exact (mem_cons.1 hp).resolve_left hp'
      obtain ⟨h₁, h₂, h₃, h₄⟩ := h.pair p (mem_cons_of_mem _ hp)
      constructor <;> simp only [Dma.forward, update_of_ne (hneR p hp), update_of_ne (hneW p hp)]
      · exact h₁
      · exact h₂
      · exact h₃
      · exact h₄
  · have hp : p ∈ rest := by
      split at hp
      · exact mem_of_mem_tail hp
      · exact hp
    simp only [Dma.forward, update_of_ne (hneW p hp)]
    exact h.empty p hp
  · have hqueue : (s.forward r w bus data).beWrite.writeFillQueue =
        if (s.beRead.burstInfo r).bytesResponded + data.length = (s.beRead.burstInfo r).totalSize then
          s.beWrite.writeFillQueue.tail
        else s.beWrite.writeFillQueue := rfl
    have hpending : (s.forward r w bus data).beWrite.pendingBursts = s.beWrite.pendingBursts := rfl
    rw [hqueue, hpending]
    have hfrontFull : ∀ v ∈ front, ((s.forward r w bus data).beWrite.burstInfo v).data.length =
        ((s.forward r w bus data).beWrite.burstInfo v).totalSize := fun v hv => by
      simp only [Dma.forward, update_of_ne (hneFront v hv)]
      exact hfull v hv
    split
    case isTrue hlast =>
      refine ⟨front ++ [w], by rw [hfront, hfills, append_assoc]; rfl, fun v hv => ?_⟩
      rcases mem_append.1 hv with hv | hv
      · exact hfrontFull v hv
      · obtain rfl := mem_singleton.1 hv
        simp only [Dma.forward, update_self, length_append]
        rw [← hreceived, ← htotal]
        exact hlast
    case isFalse => exact ⟨front, by rw [hfront, hfills], hfrontFull⟩
  · by_cases hv' : v = w
    · subst hv'
      simp only [Dma.forward, update_self, length_append]
      rw [hreceived, htotal] at hfits
      exact ⟨hissued.1, Nat.le_add_right_of_le hissued.2.1, hfits⟩
    · simp only [Dma.forward, update_of_ne hv']
      exact h.issued v hv
  · have hnodup := h.readsNodup
    split
    · exact (nodup_cons.1 hnodup).2
    · exact hnodup
  · exact h.pendingNodup

end Flow

/-! ## The writing instance -/

theorem beatSize_pos {cfg : BeConfig} {info : BurstInfo} (hissued : info.bytesIssued < info.totalSize)
    (hdata : info.bytesIssued < info.data.length) : 0 < beatSize cfg info := by
  have hwidth := cfg.axiWidth_pos
  rw [beatSize]
  omega

theorem beatSize_le (cfg : BeConfig) (info : BurstInfo) : beatSize cfg info ≤ info.data.length - info.bytesIssued :=
  min_le_right _ _

section SendBeat

variable (cfg : BeConfig) (w : Nat) (pending : List Nat)

theorem sendBeat_burstInfo : (s.sendBeat cfg w pending).beWrite.burstInfo =
    update s.beWrite.burstInfo w { s.beWrite.burstInfo w with
      bytesIssued := (s.beWrite.burstInfo w).bytesIssued + beatSize cfg (s.beWrite.burstInfo w) } := by
  rw [Dma.sendBeat]
  split <;> rfl

theorem sendBeat_pendingBursts : (s.sendBeat cfg w pending).beWrite.pendingBursts =
    if (s.beWrite.burstInfo w).bytesIssued + beatSize cfg (s.beWrite.burstInfo w) =
      (s.beWrite.burstInfo w).totalSize then pending
    else s.beWrite.pendingBursts := by
  rw [Dma.sendBeat]
  split <;> rfl

theorem sendBeat_freeBursts : (s.sendBeat cfg w pending).beWrite.freeBursts = s.beWrite.freeBursts := by
  rw [Dma.sendBeat]
  split <;> rfl

theorem sendBeat_same (v : Nat) :
    ((s.sendBeat cfg w pending).beWrite.burstInfo v).transfer = (s.beWrite.burstInfo v).transfer ∧
    ((s.sendBeat cfg w pending).beWrite.burstInfo v).totalSize = (s.beWrite.burstInfo v).totalSize ∧
    ((s.sendBeat cfg w pending).beWrite.burstInfo v).data = (s.beWrite.burstInfo v).data ∧
    ((s.sendBeat cfg w pending).beWrite.burstInfo v).base = (s.beWrite.burstInfo v).base ∧
    ((s.sendBeat cfg w pending).beWrite.burstInfo v).writePendingAcks = (s.beWrite.burstInfo v).writePendingAcks := by
  rw [sendBeat_burstInfo, update_apply]
  split
  case isTrue heq =>
    rw [heq]
    exact ⟨rfl, rfl, rfl, rfl, rfl⟩
  case isFalse => exact ⟨rfl, rfl, rfl, rfl, rfl⟩

end SendBeat

namespace Flow

variable {cfg : BeConfig} {w : Nat} {pending : List Nat}

theorem sendBeat (h : s.Flow opn dn) (hpending : s.beWrite.pendingBursts = w :: pending) :
    (s.sendBeat cfg w pending).Flow opn dn := by
  have hissued := h.issued w (hpending ▸ mem_cons_self)
  have hle := beatSize_le cfg (s.beWrite.burstInfo w)
  have hnodup := h.pendingNodup
  rw [hpending] at hnodup
  obtain ⟨hw, hnodup⟩ := nodup_cons.1 hnodup
  have hne : ∀ v ∈ pending, v ≠ w := fun v hv heq => hw (heq ▸ hv)
  let beat := accesses (s.beWrite.burstInfo w).transfer
    ((s.beWrite.burstInfo w).base + BitVec.ofNat 64 (s.beWrite.burstInfo w).bytesIssued)
    (((s.beWrite.burstInfo w).data.drop (s.beWrite.burstInfo w).bytesIssued).take
      (beatSize cfg (s.beWrite.burstInfo w)))
  have hself : (s.sendBeat cfg w pending).beWrite.burstInfo w = { s.beWrite.burstInfo w with
      bytesIssued := (s.beWrite.burstInfo w).bytesIssued + beatSize cfg (s.beWrite.burstInfo w) } := by
    rw [sendBeat_burstInfo, update_self]
  have hothers : ∀ v, v ≠ w → (s.sendBeat cfg w pending).beWrite.burstInfo v = s.beWrite.burstInfo v := fun v hv => by
    rw [sendBeat_burstInfo, update_of_ne hv]
  have hsame := sendBeat_same (s := s) cfg w pending
  have hqueue := sendBeat_pendingBursts (s := s) cfg w pending
  have hfillQueue : (s.sendBeat cfg w pending).beWrite.writeFillQueue = s.beWrite.writeFillQueue := by
    rw [Dma.sendBeat]
    split <;> rfl
  have hmem : ∀ v ∈ (s.sendBeat cfg w pending).beWrite.pendingBursts, v ∈ s.beWrite.pendingBursts := fun v hv => by
    rw [hqueue] at hv
    split at hv
    · rw [hpending]
      exact mem_cons_of_mem _ hv
    · exact hv
  -- the burst issues what it has at the front
  have hunissued : s.beWrite.unissued w = beat ++ (s.sendBeat cfg w pending).beWrite.unissued w := by
    rw [unissued, unissued, hself]
    conv_lhs => rw [← take_append_drop (beatSize cfg (s.beWrite.burstInfo w))
      ((s.beWrite.burstInfo w).data.drop (s.beWrite.burstInfo w).bytesIssued)]
    rw [accesses_append, drop_drop, length_take, length_drop, min_eq_left hle, BitVec.add_assoc,
      ← BitVec.ofNat_add]
  refine ⟨?_, h.read, ?_, h.reads, ?_, fun p hp => ?_, fun p hp => ?_, ?_, fun v hv => ?_, h.readsNodup, ?_,
    h.noPush, h.noFatal⟩
  · show s.plan = dn ++ (opn.flatMap (s.sendBeat cfg w pending).unreceived ++ s.rest)
    rw [h.plan]
    congr 2
    refine flatMap_congr fun p _ => ?_
    rw [unreceived, unreceived, (hsame p.2).2.2.2.1]
    rfl
  · show s.writeLog ++ beat ++ _ = copies dn _
    refine Eq.trans ?_ h.written
    rw [hpending, flatMap_cons, hunissued, append_assoc, append_assoc, hqueue]
    have hrest : pending.flatMap (s.sendBeat cfg w pending).beWrite.unissued = pending.flatMap s.beWrite.unissued :=
      flatMap_congr fun v hv => by rw [unissued, unissued, hothers v (hne v hv)]
    congr 2
    split
    case isTrue hlast =>
      have hnil : (s.sendBeat cfg w pending).beWrite.unissued w = [] := by
        rw [unissued, hself, drop_of_length_le (by dsimp only; omega)]
        rfl
      rw [hnil, nil_append, hrest]
    case isFalse => rw [hpending, flatMap_cons, hrest]
  · rw [hfillQueue]
    exact h.fills
  · obtain ⟨h₁, h₂, h₃, h₄⟩ := h.pair p hp
    obtain ⟨htransfer, htotal, hdata, -⟩ := hsame p.2
    exact ⟨by rw [htransfer]; exact h₁, by rw [htotal]; exact h₂, by rw [hdata]; exact h₃, h₄⟩
  · rw [(hsame p.2).2.2.1]
    exact h.empty p hp
  · obtain ⟨front, hfront, hfull⟩ := h.full
    have hfull' : ∀ v ∈ front, ((s.sendBeat cfg w pending).beWrite.burstInfo v).data.length =
        ((s.sendBeat cfg w pending).beWrite.burstInfo v).totalSize := fun v hv => by
      rw [(hsame v).2.2.1, (hsame v).2.1]
      exact hfull v hv
    rw [hqueue, hfillQueue]
    split
    case isFalse => exact ⟨front, hfront, hfull'⟩
    case isTrue hlast =>
      cases front with
      | nil =>
        -- a burst that is being filled cannot issue its last beat
        rw [hpending, nil_append, h.fills] at hfront
        obtain ⟨p, hp, hpw⟩ : ∃ p ∈ opn, p.2 = w := by
          have hwmem : w ∈ opn.map (·.2) := hfront ▸ mem_cons_self
          obtain ⟨p, hp, hpw⟩ := mem_map.1 hwmem
          exact ⟨p, hp, hpw⟩
        obtain ⟨-, h₂, h₃, h₄⟩ := h.pair p hp
        rw [h₂, h₃, hpw] at h₄
        omega
      | cons v front =>
        rw [hpending, cons_append] at hfront
        obtain ⟨-, hfront⟩ := List.cons.inj hfront
        exact ⟨front, hfront, fun v hv => hfull' v (mem_cons_of_mem _ hv)⟩
  · obtain ⟨h₁, h₂, h₃⟩ := h.issued v (hmem v hv)
    by_cases hvw : v = w
    · subst hvw
      have hnot : ¬ (s.beWrite.burstInfo v).bytesIssued + beatSize cfg (s.beWrite.burstInfo v) =
          (s.beWrite.burstInfo v).totalSize := fun hlast => by
        rw [hqueue, if_pos hlast] at hv
        exact hw hv
      rw [hself]
      dsimp only
      refine ⟨?_, ?_, h₃⟩
      · omega
      · omega
    · rw [hothers v hvw]
      exact ⟨h₁, h₂, h₃⟩
  · rw [hqueue]
    split
    · exact hnodup
    · exact h.pendingNodup

end Flow

end Dma

end GvsocPulp.IdmaV2
