import GvsocPulp.IdmaV2.Completion

/-!
# The steps of the back-end

One lemma for each event: the invariant is kept.
-/

namespace GvsocPulp.IdmaV2

open Lib Function List IDmaBeAxi Dma Feeder

/-- A burst takes at least one byte of what is left, and no more than that. -/
theorem IDmaBeAxi.getBurstSize_spec (cfg : BeConfig) (base : BitVec 64) {size : Nat} (hsize : 0 < size) :
    0 < getBurstSize cfg base size ∧ getBurstSize cfg base size ≤ size := by
  have hwidth := cfg.axiWidth_pos
  unfold getBurstSize
  dsimp only
  generalize hk : (if 0 < cfg.burstSize then min (min (min size axiPageSize) (256 * cfg.axiWidth)) cfg.burstSize.toNat
    else min (min size axiPageSize) (256 * cfg.axiWidth)) = k
  have hbound : 0 < k ∧ k ≤ size := by
    rw [← hk, axiPageSize]
    split <;> omega
  split
  case isTrue hlt =>
    have hpage : 0 < (((base + 4095#64) &&& ~~~4095#64) - base).toNat := by bv_omega
    omega
  case isFalse => exact hbound

namespace Dma

variable {cfg : BeConfig} {s s' : Dma} {opn : List (Nat × Nat)} {dn : List PlanByte} {live : List Nat}
  {gone : List (Nat × IdmaTransfer)} {n : Nat} {burst : Burst}

namespace Inv

/-- Nothing is in flight after reset. -/
theorem initial (cfg : BeConfig) : Inv cfg (init cfg) [] [] [] [] where
  flow := ⟨rfl, rfl, rfl, rfl, rfl, nofun, nofun, ⟨[], rfl, nofun⟩, nofun, nodup_nil, nodup_nil, rfl, rfl⟩
  reads := ⟨by rw [append_nil]; exact Perm.refl _, nofun, nofun, nofun, nofun, nofun⟩
  writes := ⟨by rw [init, append_nil, append_nil], nofun, nofun⟩
  acks := ⟨nofun, nofun, rfl, fun i => by
    show 0 = 0 + ((if i = 0 then 0 else 0) + if i = 0 then 0 else 0)
    simp⟩
  lines := ⟨.initial, nofun, nofun, nofun, nofun, fun _ => rfl, fun _ => rfl⟩

section

variable (h : Inv cfg s opn dn live gone)
include h

/-- What the invariant does not read of the two ports may change. -/
theorem congr (hread : s'.beRead.burstInfo = s.beRead.burstInfo ∧
      s'.beRead.freeBursts = s.beRead.freeBursts ∧ s'.beRead.pendingBursts = s.beRead.pendingBursts ∧
      s'.beRead.readPushQueue = s.beRead.readPushQueue ∧ s'.beRead.readAckQueue = s.beRead.readAckQueue)
    (hwrite : s'.beWrite.burstInfo = s.beWrite.burstInfo ∧ s'.beWrite.freeBursts = s.beWrite.freeBursts ∧
      s'.beWrite.pendingBursts = s.beWrite.pendingBursts ∧ s'.beWrite.writeFillQueue = s.beWrite.writeFillQueue)
    (hrest : s' = { s with beRead := s'.beRead, beWrite := s'.beWrite }) : Inv cfg s' opn dn live gone := by
  obtain ⟨hR, hfreeR, hpendingR, hpush, hackQ⟩ := hread
  obtain ⟨hW, hfreeW, hpendingW, hfill⟩ := hwrite
  generalize s'.beRead = beRead at *
  generalize s'.beWrite = beWrite at *
  subst hrest
  have hlive : liveWrites { s with beRead := beRead, beWrite := beWrite } = s.liveWrites := by
    rw [liveWrites, liveWrites]
    exact congrArg (· ++ s.writeBus) hpendingW
  refine {
    flow := h.flow.congr rfl rfl rfl rfl rfl (congrArg (s.readBus ++ ·) hpendingR) hpush hpendingW hfill
      (fun p _ => by rw [hR]; exact ⟨rfl, rfl, rfl, rfl⟩) fun w _ => congrFun hW w
    reads := h.reads.congr hfreeR hackQ fun r => by rw [hR]; exact ⟨rfl, rfl, rfl⟩
    writes := h.writes.congr hfreeW hpendingW rfl fun w _ => congrFun hW w
    acks := h.acks.congr (hlive ▸ Perm.refl _) (fun w _ => by rw [hW]; exact ⟨rfl, rfl, rfl, rfl⟩)
      (congrArg length hackQ) rfl rfl rfl
    lines := h.lines.congr rfl rfl rfl h.lines.current fun w hw => ?_ }
  rw [hlive] at hw
  rw [hW]
  exact h.lines.transfers w hw

/-- The mid-end may change as long as its lines are accounted for. -/
theorem withMe {me : IDmaMe2D} (hlines : Lines { s with me := me } gone) :
    Inv cfg { s with me := me } opn dn live gone where
  flow := h.flow.congr rfl rfl rfl rfl rfl rfl rfl rfl rfl (fun _ _ => ⟨rfl, rfl, rfl, rfl⟩) fun _ _ => rfl
  reads := h.reads.congr rfl rfl fun _ => ⟨rfl, rfl, rfl⟩
  writes := h.writes.congr rfl rfl rfl fun _ _ => rfl
  acks := h.acks.congr (Perm.refl _) (fun _ _ => ⟨rfl, rfl, rfl, rfl⟩) rfl rfl rfl rfl
  lines := hlines

/-- A transfer enters the mid-end. -/
theorem enqueue {t : IdmaTransfer} (ht : t.isEmpty = false) :
    Inv cfg { s with me := s.me.enqueue s.me.entered.length t } opn dn live gone := by
  refine h.withMe { h.lines with ok := h.lines.ok.enqueue fun hmem => ?_, entered := fun p hp => ?_ }
  · obtain ⟨p, hp, heq⟩ := mem_map.1 hmem
    have hlt := (h.lines.entered p hp).1
    omega
  · show p.1 < (s.me.entered ++ [_]).length ∧ _
    rw [length_append, length_singleton]
    rcases mem_append.1 hp with hp | hp
    · exact ⟨Nat.lt_succ_of_lt (h.lines.entered p hp).1, (h.lines.entered p hp).2⟩
    · rw [mem_singleton.1 hp]
      exact ⟨Nat.lt_succ_self _, ht⟩

/-- The mid-end starts on the next transfer. -/
theorem load : Inv cfg { s with me := s.me.load me2d } opn dn live gone := by
  refine h.withMe { h.lines with ok := h.lines.ok.load, entered := ?_, given := fun n => ?_, flight := fun n => ?_ }
  · simp only [load_entered]
    exact h.lines.entered
  · simp only [load_given]
    exact h.lines.given n
  · simp only [load_flight]
    exact h.lines.flight n

end

/-- A new line does not change the transfer that an earlier one belongs to. -/
theorem parentOf_concat {i : Nat} (hi : i < s.lines.length) :
    (s.enqueueTransfer n burst).parentOf i = s.parentOf i := by
  rw [parentOf, parentOf]
  show ((s.lines ++ [_])[i]?).map _ = _
  rw [getElem?_append_left hi]

section

variable (h : Inv cfg s opn dn live gone)
include h

/-- The mid-end hands a line to the idle back-end. -/
theorem feed (hoffer : s.me.offer me2d = some (n, burst)) (hidle : s.currentTransferSize = 0) :
    ∃ gone', Inv cfg ({ s with me := s.me.feed me2d }.enqueueTransfer n burst) opn dn live gone' := by
  obtain ⟨away, hok, -⟩ := h.lines.ok.feed
  have hsize : burst.size ≠ 0 := by
    obtain ⟨t, rest, c, hqueue, -, rfl⟩ := offer_eq_some hoffer
    have hmem : (n, t) ∈ s.me.entered := by
      rw [h.lines.ok.entered, hqueue]
      exact mem_append_right _ mem_cons_self
    have ht := (h.lines.entered _ hmem).2
    rw [IdmaTransfer.isEmpty, Bool.or_eq_false_iff] at ht
    show t.size ≠ 0
    simpa using ht.1
  have hsizeNat : burst.size.toNat ≠ 0 := fun h => hsize (BitVec.eq_of_toNat_eq h)
  have hflow : Flow { s with me := s.me.feed me2d } opn dn :=
    h.flow.congr rfl rfl rfl rfl rfl rfl rfl rfl rfl (fun _ _ => ⟨rfl, rfl, rfl, rfl⟩) fun _ _ => rfl
  refine ⟨gone ++ away, {
    flow := hflow.enqueueTransfer hidle n burst
    reads := h.reads.congr rfl rfl fun _ => ⟨rfl, rfl, rfl⟩
    writes := h.writes.congr rfl rfl rfl fun _ _ => rfl
    acks := ⟨h.acks.chunks, by simp, h.acks.count, fun i => ?_⟩
    lines := ⟨hok, ?_, fun _ => ?_, fun w hw => ?_, fun p hp => ?_, fun m => ?_, fun m => ?_⟩ }⟩
  · have hi := h.acks.ackSize i
    rw [hidle] at hi
    simp only [ite_self, sum_nil, add_zero] at hi
    show update s.ackSize s.lines.length burst.size.toNat i = s.unacked i +
      ((if i = 0 then 0 else 0) + if i = s.lines.length then burst.size.toNat else 0)
    rw [ite_self, zero_add]
    by_cases heq : i = s.lines.length
    · have hnone : s.unacked s.lines.length = 0 := by
        rw [unacked]
        refine sum_eq_zero fun x hx => ?_
        obtain ⟨w, hw, rfl⟩ := mem_map.1 hx
        rw [if_neg (h.lines.transfers w hw).ne]
      rw [heq, update_self, if_pos rfl, hnone, zero_add]
    · rw [update_of_ne heq, if_neg heq, add_zero, hi]
  · show ∀ p ∈ (s.me.feed me2d).entered, p.1 < (s.me.feed me2d).entered.length ∧ _
    rw [feed_entered]
    exact h.lines.entered
  · show s.lines.length < (s.lines ++ [_]).length
    rw [length_append]
    exact Nat.lt_succ_self _
  · show _ < (s.lines ++ [_]).length
    rw [length_append]
    exact Nat.lt_succ_of_lt (h.lines.transfers w hw)
  · rcases mem_append.1 hp with hp | hp
    · exact h.lines.sizes p hp
    · rw [mem_singleton.1 hp]
      exact hsize
  · show (s.me.feed me2d).given m = ((s.lines ++ [(n, burst)]).filter _).map _
    rw [feed_given hoffer, filter_append, map_append, ← h.lines.given m, update_apply]
    by_cases heq : m = n
    · simp [heq]
    · simp [heq, Ne.symm heq]
  · show (s.me.feed me2d).flight.count m = ((List.range (s.lines ++ [_]).length).map _).sum
    rw [feed_flight hoffer, count_append, h.lines.flight m, length_append, length_singleton, List.range_succ,
      map_append, List.sum_append, nbOut]
    congr 1
    · congr 1
      refine map_congr_left fun i hi => ?_
      have hi := mem_range.1 hi
      have hack : (s.enqueueTransfer n burst).ackSize i = s.ackSize i := update_of_ne hi.ne _ _
      rw [← hack, ← show (s.enqueueTransfer n burst).parentOf i = s.parentOf i from parentOf_concat hi]
      rfl
    · have hparent : (s.enqueueTransfer n burst).parentOf s.lines.length = some n := by
        rw [parentOf]
        show ((s.lines ++ [_])[s.lines.length]?).map _ = _
        rw [getElem?_concat_length]
        rfl
      have hack : (s.enqueueTransfer n burst).ackSize s.lines.length = burst.size.toNat := update_self ..
      show [n].count m = (if (s.enqueueTransfer n burst).parentOf s.lines.length = some m ∧
        (s.enqueueTransfer n burst).ackSize s.lines.length ≠ 0 then 1 else 0) + 0
      rw [hparent, hack, count_singleton]
      by_cases heq : n = m
      · simp [heq, hsizeNat]
      · simp [heq]

/-- The handler of the mid-end: it loads the next transfer, and hands a line to an idle back-end. -/
theorem meFsm : ∃ gone', Inv cfg s.meFsm opn dn live gone' := by
  rw [Dma.meFsm]
  split
  case h_1 n burst hoffer =>
    split
    case isTrue hidle => exact h.load.feed hoffer hidle
    case isFalse => exact ⟨gone, h.load⟩
  case h_2 => exact ⟨gone, h.load⟩

/-- The back-end splits the next burst off the line, with a slot for the read and one for the write. -/
theorem beFsm : ∃ opn' live', Inv cfg (s.beFsm cfg) opn' dn live' gone := by
  rw [Dma.beFsm]
  split
  case isFalse => exact ⟨opn, live, h⟩
  case isTrue hyes =>
    obtain ⟨hsize, hread, hwrite⟩ := hyes
    obtain ⟨r, freeR, hr⟩ : ∃ r free, s.beRead.freeBursts = r :: free := by
      rw [canAcceptBurst] at hread
      exact exists_cons_of_ne_nil fun hnil => by rw [hnil] at hread; cases hread
    obtain ⟨w, freeW, hw⟩ : ∃ w free, s.beWrite.freeBursts = w :: free := by
      rw [canAcceptBurst] at hwrite
      exact exists_cons_of_ne_nil fun hnil => by rw [hnil] at hwrite; cases hwrite
    obtain ⟨hpos₁, hle₁⟩ := getBurstSize_spec cfg s.currentTransferSrc hsize
    obtain ⟨hpos, hle₂⟩ := getBurstSize_spec cfg s.currentTransferDst hpos₁
    have hle := hle₂.trans hle₁
    dsimp only
    revert hpos hle
    generalize getBurstSize cfg s.currentTransferDst
      (getBurstSize cfg s.currentTransferSrc s.currentTransferSize) = k
    intro hpos hle
    have hrn : r ∉ opn.map (·.1) := fun hmem => by
      obtain ⟨p, hp, heq⟩ := mem_map.1 hmem
      exact h.reads.not_live (hr ▸ mem_cons_self) (heq ▸ h.reads.mem p hp)
    have hwn : w ∉ s.liveWrites := h.writes.not_live (hw ▸ mem_cons_self)
    have hne : ∀ v ∈ s.liveWrites, v ≠ w := fun v hv heq => hwn (heq ▸ hv)
    have hflow := h.flow.cut hr hw hpos hle hrn fun hmem => hwn (mem_append_left _ hmem)
    have hreads := h.reads.enqueueBurst hr hpos (show beRead { s with
      beRead := s.beRead.enqueueBurst s.currentTransferSrc k false s.currentTransfer
      beWrite := s.beWrite.enqueueBurst s.currentTransferDst k true s.currentTransfer
      currentTransferSize := s.currentTransferSize - k
      currentTransferSrc := s.currentTransferSrc + BitVec.ofNat 64 k
      currentTransferDst := s.currentTransferDst + BitVec.ofNat 64 k } = _ from rfl) (w := w)
    have hqueue : (s.beRead.enqueueBurst s.currentTransferSrc k false s.currentTransfer).readAckQueue =
      s.beRead.readAckQueue := by
      rw [enqueueBurst, hr]
      rfl
    have hbe : s.beWrite.enqueueBurst s.currentTransferDst k true s.currentTransfer =
        { s.beWrite.set w { transfer := s.currentTransfer, base := s.currentTransferDst, totalSize := k } with
          freeBursts := freeW
          pendingBursts := s.beWrite.pendingBursts ++ [w]
          writeFillQueue := s.beWrite.writeFillQueue ++ [w] } := by
      rw [enqueueBurst, hw]
      rfl
    have hlive : (s.beWrite.pendingBursts ++ [w] ++ s.writeBus).Perm (w :: s.liveWrites) := by
      rw [append_assoc]
      exact perm_middle
    have hsum : ∀ (info : BurstInfo) (f : BurstInfo → Nat),
        ((s.beWrite.pendingBursts ++ [w] ++ s.writeBus).map fun v => f (update s.beWrite.burstInfo w info v)).sum =
          f info + (s.liveWrites.map fun v => f (s.beWrite.burstInfo v)).sum := by
      intro info f
      rw [(hlive.map _).sum_eq, map_cons, sum_cons, update_self]
      congr 2
      exact map_congr_left fun v hv => by rw [update_of_ne (hne v hv)]
    refine ⟨opn ++ [(r, w)], r :: live, hflow, hreads, ?_, ?_, ?_⟩
    · rw [hbe]
      refine ⟨?_, fun v hv => ?_, fun v hv => ?_⟩
      · have hperm := h.writes.perm
        rw [hw] at hperm
        exact ((hlive.append_left freeW).trans perm_middle).trans hperm
      · simp only [IDmaBeAxi.set, update_of_ne (hne v (mem_append_right _ hv))]
        exact h.writes.full v hv
      · simp only [IDmaBeAxi.set, update_of_ne (hne v (mem_append_right _ hv))]
        exact h.writes.pos v hv
    · rw [hbe]
      refine ⟨fun v hv => ?_, by simp, ?_, fun i => ?_⟩
      · rcases mem_cons.1 (hlive.mem_iff.1 hv) with rfl | hv
        · simp only [IDmaBeAxi.set, update_self]
          exact ⟨rfl, by simp⟩
        · simp only [IDmaBeAxi.set, update_of_ne (hne v hv)]
          exact h.acks.chunks v hv
      · refine (congrArg (· + 0) (hsum _ fun info => info.writePendingAcks.length)).trans ?_
        have hcount := h.acks.count
        rw [hqueue, ← hcount, length_nil, zero_add]
      · have hi := h.acks.ackSize i
        rw [unacked] at hi ⊢
        rw [hi]
        refine Eq.trans ?_ (congrArg (· + _) (hsum _ fun info => if info.transfer = i then info.totalSize else 0).symm)
        simp only [sum_nil, ite_self, zero_add]
        by_cases heq : s.currentTransfer = i
        · rw [if_pos heq, if_pos heq.symm, if_pos heq.symm]
          omega
        · rw [if_neg heq, if_neg (Ne.symm heq), if_neg (Ne.symm heq)]
          omega
    · rw [hbe]
      refine h.lines.congr rfl rfl rfl (fun _ => h.lines.current hsize) fun v hv => ?_
      rcases mem_cons.1 (hlive.mem_iff.1 hv) with rfl | hv
      · simp only [IDmaBeAxi.set, update_self]
        exact h.lines.current hsize
      · simp only [IDmaBeAxi.set, update_of_ne (hne v hv)]
        exact h.lines.transfers v hv

end

/-- To issue a read burst touches the read port only. -/
theorem issueRead_frame (s : Dma) (granted : Bool) :
    s.issueRead granted = { s with beRead := (s.issueRead granted).beRead, readBus := (s.issueRead granted).readBus } ∧
      (s.issueRead granted).beRead.readAckQueue = s.beRead.readAckQueue := by
  rw [issueRead]
  split
  · exact ⟨rfl, rfl⟩
  · split
    · exact ⟨rfl, rfl⟩
    · split <;> exact ⟨rfl, rfl⟩

variable (h : Inv cfg s opn dn live gone)
include h

/-- The handler of the read port: a burst is issued, and its data pushed. -/
theorem readFsm (granted : Bool) :
    Inv cfg (s.issueRead granted).pushRead opn dn live gone := by
  have hflow := h.flow.issueRead granted
  have hreads := h.reads.issueRead granted
  obtain ⟨heq, hqueue⟩ := issueRead_frame s granted
  rw [hflow.pushRead]
  revert hflow hreads hqueue
  rw [heq]
  generalize (s.issueRead granted).beRead = beRead
  generalize (s.issueRead granted).readBus = readBus
  intro hflow hreads hqueue
  exact {
    flow := hflow
    reads := hreads
    writes := h.writes.congr rfl rfl rfl fun _ _ => rfl
    acks := h.acks.congr (Perm.refl _) (fun _ _ => ⟨rfl, rfl, rfl, rfl⟩) (congrArg length hqueue) rfl rfl rfl
    lines := h.lines.congr rfl rfl rfl h.lines.current h.lines.transfers }

/-- A beat of a read burst comes back. -/
theorem readBeat {slot : Nat} {bus : List Nat} {data : List UInt8} (hbus : s.readBus = slot :: bus)
    (hdata : data ≠ []) (hfits : (s.beRead.burstInfo slot).bytesResponded + data.length ≤
      (s.beRead.burstInfo slot).totalSize) :
    ∃ opn' dn', Inv cfg (s.readResp slot bus data) opn' dn' live gone := by
  have hopn := h.flow.reads
  rw [hbus, cons_append] at hopn
  cases opn with
  | nil => cases hopn
  | cons p rest =>
    obtain ⟨r, w⟩ := p
    obtain rfl : slot = r := (List.cons.inj hopn).1
    obtain ⟨dn', hflow⟩ := h.flow.forward hdata hfits hbus
    have hw : w ∈ s.beWrite.pendingBursts := h.flow.mem_pending mem_cons_self
    have hlive : w ∈ s.liveWrites := mem_append_left _ hw
    have hnodup : s.liveWrites.Nodup := (nodup_append.1 h.writes.nodup).2.1
    have hne : ∀ v ∈ s.writeBus, v ≠ w := fun v hv heq => (nodup_append.1 hnodup).2.2 w hw v hv heq.symm
    have hsame : ∀ v, ((s.forward slot w bus data).beWrite.burstInfo v).transfer = (s.beWrite.burstInfo v).transfer ∧
        ((s.forward slot w bus data).beWrite.burstInfo v).totalSize = (s.beWrite.burstInfo v).totalSize := fun v => by
      simp only [forward, update_apply]
      split
      case isTrue heq =>
        rw [heq]
        exact ⟨rfl, rfl⟩
      case isFalse => exact ⟨rfl, rfl⟩
    rw [h.flow.readResp_eq hdata hfits]
    refine ⟨_, dn', hflow, h.reads.forward hdata, h.writes.congr rfl rfl rfl fun v hv => ?_,
      ⟨fun v hv => ?_, by simp, ?_, fun i => ?_⟩, h.lines.congr rfl rfl rfl h.lines.current fun v hv => ?_⟩
    · simp only [forward, update_of_ne (hne v hv)]
    · by_cases heq : v = w
      · subst heq
        obtain ⟨hsum, hpos⟩ := h.acks.chunks v hlive
        simp only [forward, update_self]
        refine ⟨by rw [List.sum_append, hsum, length_append, sum_singleton], fun c hc => ?_⟩
        rcases mem_append.1 hc with hc | hc
        · exact hpos c hc
        · rw [mem_singleton.1 hc]
          exact length_pos_iff.2 hdata
      · simp only [forward, update_of_ne heq]
        exact h.acks.chunks v hv
    · have hchange := sum_map_change hnodup hlive
        (f := fun v => ((s.forward slot w bus data).beWrite.burstInfo v).writePendingAcks.length)
        (g := fun v => (s.beWrite.burstInfo v).writePendingAcks.length)
        fun v hv => by simp only [forward, update_of_ne hv]
      have hself : ((s.forward slot w bus data).beWrite.burstInfo w).writePendingAcks.length =
          (s.beWrite.burstInfo w).writePendingAcks.length + 1 := by
        simp [forward]
      have hcount := h.acks.count
      show (s.liveWrites.map fun v => ((s.forward slot w bus data).beWrite.burstInfo v).writePendingAcks.length).sum +
        0 = (s.beRead.readAckQueue ++ [_]).length
      rw [length_nil] at hcount
      rw [length_append, length_singleton]
      omega
    · refine (h.acks.ackSize i).trans ?_
      congr 1
      rw [unacked, unacked]
      congr 1
      exact map_congr_left fun v _ => by rw [(hsame v).1, (hsame v).2]
    · rw [(hsame v).1]
      exact h.lines.transfers v hv

/-- The bus takes a beat of a write burst; with the last one, the burst waits for its acknowledgement. -/
theorem sendBeat {w : Nat} {pending : List Nat} (hpending : s.beWrite.pendingBursts = w :: pending) :
    Inv cfg { s.sendBeat cfg w pending with
      writeBus := if (s.beWrite.burstInfo w).bytesIssued + beatSize cfg (s.beWrite.burstInfo w) =
        (s.beWrite.burstInfo w).totalSize then
        s.writeBus ++ [w] else s.writeBus } opn dn live gone := by
  have hflow : (s.sendBeat cfg w pending).Flow opn dn := h.flow.sendBeat hpending
  have hqueue := sendBeat_pendingBursts (s := s) cfg w pending
  have hfree := sendBeat_freeBursts (s := s) cfg w pending
  have hsame := sendBeat_same (s := s) cfg w pending
  obtain ⟨hlt, hle, hmax⟩ := h.flow.issued w (hpending ▸ mem_cons_self)
  have hbeat := beatSize_le cfg (s.beWrite.burstInfo w)
  have hlive : ((s.sendBeat cfg w pending).beWrite.pendingBursts ++
      if (s.beWrite.burstInfo w).bytesIssued + beatSize cfg (s.beWrite.burstInfo w) =
        (s.beWrite.burstInfo w).totalSize then
        s.writeBus ++ [w] else s.writeBus).Perm s.liveWrites := by
    rw [hqueue, liveWrites]
    split
    · rw [hpending, ← append_assoc]
      exact perm_append_singleton w _
    · exact Perm.refl _
  exact {
    flow := hflow.congr rfl rfl rfl rfl rfl rfl rfl rfl rfl (fun _ _ => ⟨rfl, rfl, rfl, rfl⟩) fun _ _ => rfl
    reads := h.reads.congr rfl rfl fun _ => ⟨rfl, rfl, rfl⟩
    writes := by
      refine ⟨?_, fun v hv => ?_, fun v hv => ?_⟩
      · rw [hfree]
        exact (hlive.append_left _).trans h.writes.perm
      · rw [(hsame v).2.1, (hsame v).2.2.1]
        split at hv
        case isTrue hlast =>
          rcases mem_append.1 hv with hv | hv
          · exact h.writes.full v hv
          · rw [mem_singleton.1 hv]
            omega
        case isFalse => exact h.writes.full v hv
      · rw [(hsame v).2.1]
        split at hv
        · rcases mem_append.1 hv with hv | hv
          · exact h.writes.pos v hv
          · rw [mem_singleton.1 hv]
            omega
        · exact h.writes.pos v hv
    acks := h.acks.congr hlive (fun v _ => ⟨(hsame v).2.2.2.2, (hsame v).2.2.1, (hsame v).1, (hsame v).2.1⟩)
      rfl rfl rfl rfl
    lines := h.lines.congr rfl rfl rfl h.lines.current fun v hv => by
      rw [(hsame v).1]
      exact h.lines.transfers v (hlive.mem_iff.1 hv) }

/-- The handler of the write port, whatever the bus answers. -/
theorem writeFsm {answer : Answer} (hs : s.issueWrite cfg answer = some s') :
    ∃ live', Inv cfg s' opn dn live' gone := by
  rw [issueWrite] at hs
  split at hs
  case h_1 =>
    cases hs
    exact ⟨live, h⟩
  case h_2 w pending hpending =>
    dsimp only at hs
    have hsent := h.sendBeat hpending
    split at hs
    · cases hs
      exact ⟨live, h⟩
    · cases answer with
      | denied =>
        cases hs
        exact ⟨live, h.congr ⟨rfl, rfl, rfl, rfl, rfl⟩ ⟨rfl, rfl, rfl, rfl⟩ rfl⟩
      | granted =>
        cases hs
        refine ⟨live, ?_⟩
        split
        case isTrue hlast =>
          rw [if_pos hlast] at hsent
          exact hsent
        case isFalse hmore =>
          rw [if_neg hmore] at hsent
          exact hsent
      | done =>
        -- the burst is on the bus for no time
        dsimp only at hs
        split at hs
        case isFalse => cases hs
        case isTrue hlast =>
          cases hs
          rw [if_pos hlast] at hsent
          have hnodup := h.writes.nodup
          rw [hpending] at hnodup
          have hnot : w ∉ s.writeBus := fun hmem =>
            (nodup_append.1 (nodup_append.1 hnodup).2.1).2.2 w mem_cons_self w hmem rfl
          have hback : (s.writeBus ++ [w]).erase w = s.writeBus := by
            rw [erase_append_right _ hnot, erase_cons_head, append_nil]
          obtain ⟨live', h'⟩ := hsent.completeWriteBurst (w := w) (mem_append_right _ (mem_singleton_self w))
          simp only [hback] at h'
          exact ⟨live', h'⟩

end Inv

/-- Every event keeps the invariant, with the bursts that are open after it. -/
theorem Ok.step (h : Ok cfg s) {e : BeEvent} (hs : step cfg s e = some s') : Ok cfg s' := by
  obtain ⟨opn, dn, live, gone, h⟩ := h
  cases e with
  | enqueueTransfer t =>
    rw [Dma.step] at hs
    split at hs
    · cases hs
    case isFalse ht =>
      cases hs
      exact ⟨opn, dn, live, gone, h.enqueue (Bool.eq_false_iff.2 ht)⟩
  | meFsm =>
    cases hs
    obtain ⟨gone', h'⟩ := h.meFsm
    exact ⟨opn, dn, live, gone', h'⟩
  | beFsm =>
    cases hs
    obtain ⟨opn', live', h'⟩ := h.beFsm
    exact ⟨opn', dn, live', gone, h'⟩
  | readFsm granted =>
    cases hs
    exact ⟨opn, dn, live, gone, h.readFsm granted⟩
  | writeFsm answer =>
    obtain ⟨live', h'⟩ := h.writeFsm hs
    exact ⟨opn, dn, live', gone, h'⟩
  | readBeat data =>
    rw [Dma.step] at hs
    split at hs
    · cases hs
    case h_2 slot bus hbus =>
      dsimp only at hs
      split at hs
      case isFalse => cases hs
      case isTrue hfits =>
        cases hs
        obtain ⟨opn', dn', h'⟩ := h.readBeat hbus hfits.1 hfits.2
        exact ⟨opn', dn', live, gone, h'⟩
  | writeAck slot =>
    obtain ⟨hw, rfl⟩ := Option.ite_some_none_eq_some.1 hs
    obtain ⟨live', h'⟩ := h.completeWriteBurst hw
    exact ⟨opn, dn, live', gone, h'⟩
  | readRetry =>
    cases hs
    exact ⟨opn, dn, live, gone, h.congr ⟨rfl, rfl, rfl, rfl, rfl⟩ ⟨rfl, rfl, rfl, rfl⟩ rfl⟩
  | writeRetry =>
    cases hs
    exact ⟨opn, dn, live, gone, h.congr ⟨rfl, rfl, rfl, rfl, rfl⟩ ⟨rfl, rfl, rfl, rfl⟩ rfl⟩

end Dma

end GvsocPulp.IdmaV2
