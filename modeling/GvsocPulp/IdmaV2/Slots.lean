import GvsocPulp.IdmaV2.DataFlow

/-!
# The slots of the back-end

A read slot is in use until all its chunks are acknowledged; the acknowledgements are charged in the order of the chunks
(`Dma.ReadSlots`), whichever write burst they come from. A write slot is in use until the bus acknowledges its burst
(`Dma.WriteSlots`).
-/

namespace GvsocPulp.IdmaV2

open Function List

variable {r : Nat} {s' : Dma} {w : Nat}

def queued (queue : List (Nat × Nat)) (slot : Nat) : Nat := ((queue.filter fun q => q.1 = slot).map (·.2)).sum

section Queued

variable (queue : List (Nat × Nat)) (slot other chunk : Nat)

theorem queued_cons : queued ((other, chunk) :: queue) slot = (if other = slot then chunk else 0) +
    queued queue slot := by
  rw [queued, queued]
  by_cases h : other = slot
  · simp [h]
  · simp [h]

theorem queued_concat : queued (queue ++ [(other, chunk)]) slot = queued queue slot +
    if other = slot then chunk else 0 := by
  rw [queued, queued, filter_append, map_append, List.sum_append]
  by_cases h : other = slot
  · simp [h]
  · simp [h]

variable {queue slot}

theorem queued_eq_zero (h : ∀ q ∈ queue, q.1 ≠ slot) : queued queue slot = 0 := by
  rw [queued, filter_eq_nil_iff.2 fun q hq => by simpa using h q hq]
  rfl

theorem not_mem_of_queued (hpos : ∀ q ∈ queue, 0 < q.2) (h : queued queue slot = 0) : ∀ q ∈ queue, q.1 ≠ slot := by
  intro q hq heq
  have hmem : q.2 ∈ (queue.filter fun q => q.1 = slot).map (·.2) :=
    List.mem_map_of_mem (mem_filter.2 ⟨hq, by simpa using heq⟩)
  have hle := single_le_sum (fun x _ => Nat.zero_le x) _ hmem
  have := hpos q hq
  rw [queued] at h
  omega

end Queued

namespace Dma

variable (cfg : BeConfig) (s : Dma)

structure ReadSlots (opn : List (Nat × Nat)) (live : List Nat) : Prop where
  perm : (s.beRead.freeBursts ++ live).Perm (List.range cfg.burstQueueSize)
  mem : ∀ p ∈ opn, p.1 ∈ live
  queue : ∀ q ∈ s.beRead.readAckQueue, q.1 ∈ live ∧ 0 < q.2
  acked : ∀ r ∈ live, (s.beRead.burstInfo r).bytesAcked + queued s.beRead.readAckQueue r =
    (s.beRead.burstInfo r).bytesResponded
  lt : ∀ r ∈ live, (s.beRead.burstInfo r).bytesAcked < (s.beRead.burstInfo r).totalSize
  received : ∀ r ∈ live, r ∉ opn.map (·.1) → (s.beRead.burstInfo r).bytesResponded = (s.beRead.burstInfo r).totalSize

structure WriteSlots : Prop where
  perm : (s.beWrite.freeBursts ++ (s.beWrite.pendingBursts ++ s.writeBus)).Perm (List.range cfg.burstQueueSize)
  full : ∀ w ∈ s.writeBus, (s.beWrite.burstInfo w).data.length = (s.beWrite.burstInfo w).totalSize
  pos : ∀ w ∈ s.writeBus, 0 < (s.beWrite.burstInfo w).totalSize

variable {cfg s} {opn : List (Nat × Nat)} {dn : List PlanByte} {live : List Nat}

namespace ReadSlots

section

variable (h : ReadSlots cfg s opn live)
include h

theorem nodup : (s.beRead.freeBursts ++ live).Nodup := h.perm.nodup_iff.2 nodup_range

theorem not_live (hr : r ∈ s.beRead.freeBursts) : r ∉ live := fun hlive =>
  (nodup_append.1 h.nodup).2.2 r hr r hlive rfl

/-- Whatever leaves the free slots, the queue of chunks and the counters of the slots alone. -/
theorem congr (hfree : s'.beRead.freeBursts = s.beRead.freeBursts)
    (hqueue : s'.beRead.readAckQueue = s.beRead.readAckQueue)
    (hinfo : ∀ r, (s'.beRead.burstInfo r).bytesAcked = (s.beRead.burstInfo r).bytesAcked ∧
      (s'.beRead.burstInfo r).bytesResponded = (s.beRead.burstInfo r).bytesResponded ∧
      (s'.beRead.burstInfo r).totalSize = (s.beRead.burstInfo r).totalSize) : ReadSlots cfg s' opn live where
  perm := hfree ▸ h.perm
  mem := h.mem
  queue := hqueue ▸ h.queue
  acked r hr := by
    rw [hqueue, (hinfo r).1, (hinfo r).2.1]
    exact h.acked r hr
  lt r hr := by
    rw [(hinfo r).1, (hinfo r).2.2]
    exact h.lt r hr
  received r hr hnot := by
    rw [(hinfo r).2.1, (hinfo r).2.2]
    exact h.received r hr hnot

theorem issueRead (granted : Bool) : ReadSlots cfg (s.issueRead granted) opn live := by
  unfold Dma.issueRead
  split
  · exact h
  case h_2 slot pending hpending =>
    split
    · exact h
    · split
      · refine h.congr rfl rfl fun r => ?_
        show (update s.beRead.burstInfo slot _ r).bytesAcked = _ ∧
          (update s.beRead.burstInfo slot _ r).bytesResponded = _ ∧ (update s.beRead.burstInfo slot _ r).totalSize = _
        rw [update_apply]
        split
        case isTrue heq =>
          rw [heq]
          exact ⟨rfl, rfl, rfl⟩
        case isFalse => exact ⟨rfl, rfl, rfl⟩
      · exact h.congr rfl rfl fun r => ⟨rfl, rfl, rfl⟩

theorem enqueueBurst {k : Nat} {free : List Nat} (hr : s.beRead.freeBursts = r :: free) (hk : 0 < k)
    {base : BitVec 64} {isWrite : Bool} {transfer : Nat}
    (hs' : s'.beRead = s.beRead.enqueueBurst base k isWrite transfer) :
      ReadSlots cfg s' (opn ++ [(r, w)]) (r :: live) := by
  have hfree : r ∉ live := h.not_live (hr ▸ mem_cons_self)
  have hne : ∀ v ∈ live, v ≠ r := fun v hv heq => hfree (heq ▸ hv)
  rw [IDmaBeAxi.enqueueBurst, hr] at hs'
  have hinfo : s'.beRead.burstInfo = update s.beRead.burstInfo r
    { transfer := transfer, base := base, totalSize := k } := by
    rw [hs']
    rfl
  have hqueue : s'.beRead.readAckQueue = s.beRead.readAckQueue := by
    rw [hs']
    rfl
  refine ⟨?_, fun p hp => ?_, fun q hq => ?_, fun v hv => ?_, fun v hv => ?_, fun v hv hnot => ?_⟩
  · have hperm := h.perm
    rw [hr] at hperm
    rw [hs']
    exact perm_middle.trans hperm
  · rcases mem_append.1 hp with hp | hp
    · exact mem_cons_of_mem _ (h.mem p hp)
    · rw [mem_singleton.1 hp]
      exact mem_cons_self
  · rw [hqueue] at hq
    exact ⟨mem_cons_of_mem _ (h.queue q hq).1, (h.queue q hq).2⟩
  · rw [hinfo, hqueue]
    rcases mem_cons.1 hv with rfl | hv
    · rw [update_self, queued_eq_zero fun q hq => hne q.1 (h.queue q hq).1]
    · rw [update_of_ne (hne v hv)]
      exact h.acked v hv
  · rw [hinfo]
    rcases mem_cons.1 hv with rfl | hv
    · rw [update_self]
      exact hk
    · rw [update_of_ne (hne v hv)]
      exact h.lt v hv
  · rw [map_append, mem_append, not_or] at hnot
    rcases mem_cons.1 hv with rfl | hv
    · exact absurd (mem_singleton_self _) hnot.2
    · rw [hinfo, update_of_ne (hne v hv)]
      exact h.received v hv hnot.1

end

theorem forward {rest : List (Nat × Nat)} {data : List UInt8} {bus : List Nat}
    (h : ReadSlots cfg s ((r, w) :: rest) live) (hdata : data ≠ []) : ReadSlots cfg (s.forward r w bus data)
      (if (s.beRead.burstInfo r).bytesResponded + data.length = (s.beRead.burstInfo r).totalSize then rest
        else (r, w) :: rest) live := by
  have hr : r ∈ live := h.mem _ mem_cons_self
  have hothers : ∀ v, v ≠ r → (s.forward r w bus data).beRead.burstInfo v = s.beRead.burstInfo v := fun v hv => by
    simp only [Dma.forward, update_of_ne hv]
  have hqueue : (s.forward r w bus data).beRead.readAckQueue = s.beRead.readAckQueue ++ [(r, data.length)] := rfl
  refine ⟨h.perm, fun p hp => ?_, fun q hq => ?_, fun v hv => ?_, fun v hv => ?_, fun v hv hnot => ?_⟩
  · refine h.mem p ?_
    split at hp
    · exact mem_cons_of_mem _ hp
    · exact hp
  · rcases mem_append.1 hq with hq | hq
    · exact h.queue q hq
    · rw [mem_singleton.1 hq]
      exact ⟨hr, length_pos_iff.2 hdata⟩
  · rw [hqueue, queued_concat]
    have hacked := h.acked v hv
    by_cases heq : v = r
    · subst heq
      simp only [Dma.forward, update_self, if_true]
      omega
    · rw [hothers v heq, if_neg (Ne.symm heq)]
      exact hacked
  · have hlt := h.lt v hv
    by_cases heq : v = r
    · subst heq
      simp only [Dma.forward, update_self]
      exact hlt
    · rw [hothers v heq]
      exact hlt
  · by_cases heq : v = r
    · subst heq
      simp only [Dma.forward, update_self]
      split at hnot
      case isTrue hlast => exact hlast
      case isFalse => exact absurd mem_cons_self hnot
    · rw [hothers v heq]
      refine h.received v hv fun hmem => hnot ?_
      rw [map_cons, mem_cons] at hmem
      have hmem := hmem.resolve_left heq
      split
      · exact hmem
      · exact mem_cons_of_mem _ hmem

theorem writeDataAck (h : ReadSlots cfg s opn live) (hpair : ∀ p ∈ opn, s.Pair p)
    (hs' : s'.beRead = s.beRead.writeDataAck) : ∃ live', ReadSlots cfg s' opn live' := by
  unfold IDmaBeAxi.writeDataAck at hs'
  split at hs'
  case h_1 hqueue =>
    exact ⟨live, h.congr (by rw [hs']) (by rw [hs']) fun r => by rw [hs']; exact ⟨rfl, rfl, rfl⟩⟩
  case h_2 slot chunk queue hqueue =>
    have hslot := h.queue (slot, chunk) (hqueue ▸ mem_cons_self)
    have hrest : ∀ q ∈ queue, q.1 ∈ live ∧ 0 < q.2 := fun q hq => h.queue q (hqueue ▸ mem_cons_of_mem _ hq)
    have hinfo : s'.beRead.burstInfo = update s.beRead.burstInfo slot
        { s.beRead.burstInfo slot with bytesAcked := (s.beRead.burstInfo slot).bytesAcked + chunk } := by
      rw [hs']
      dsimp only
      split <;> rfl
    have hqueue' : s'.beRead.readAckQueue = queue := by
      rw [hs']
      dsimp only
      split <;> rfl
    have hfree : s'.beRead.freeBursts =
        if (s.beRead.burstInfo slot).bytesAcked + chunk = (s.beRead.burstInfo slot).totalSize then
          s.beRead.freeBursts ++ [slot]
        else s.beRead.freeBursts := by
      rw [hs']
      dsimp only
      split <;> rfl
    have hacked : ∀ r ∈ live, (s'.beRead.burstInfo r).bytesAcked + queued s'.beRead.readAckQueue r =
        (s'.beRead.burstInfo r).bytesResponded := fun r hr => by
      have hold := h.acked r hr
      rw [hqueue, queued_cons] at hold
      rw [hqueue', hinfo]
      by_cases heq : r = slot
      · subst heq
        rw [update_self]
        rw [if_pos rfl] at hold
        dsimp only
        omega
      · rw [update_of_ne heq]
        rw [if_neg (Ne.symm heq)] at hold
        omega
    have hsame : ∀ r, (s'.beRead.burstInfo r).bytesResponded = (s.beRead.burstInfo r).bytesResponded ∧
        (s'.beRead.burstInfo r).totalSize = (s.beRead.burstInfo r).totalSize := fun r => by
      rw [hinfo, update_apply]
      split
      case isTrue heq =>
        rw [heq]
        exact ⟨rfl, rfl⟩
      case isFalse => exact ⟨rfl, rfl⟩
    have hreceived : ∀ r ∈ live, r ∉ opn.map (·.1) → (s'.beRead.burstInfo r).bytesResponded =
      (s'.beRead.burstInfo r).totalSize := by
      intro r hr hnot
      rw [(hsame r).1, (hsame r).2]
      exact h.received r hr hnot
    have hbound : ∀ r ∈ live, (s.beRead.burstInfo r).bytesResponded ≤ (s.beRead.burstInfo r).totalSize := fun r hr => by
      by_cases hopn : r ∈ opn.map (·.1)
      · obtain ⟨p, hp, rfl⟩ := List.mem_map.1 hopn
        exact (hpair p hp).lt.le
      · exact (h.received r hr hopn).le
    have hself : (s'.beRead.burstInfo slot).bytesAcked = (s.beRead.burstInfo slot).bytesAcked + chunk := by
      rw [hinfo, update_self]
    have hlt : ∀ r ∈ live, r ≠ slot → (s'.beRead.burstInfo r).bytesAcked < (s'.beRead.burstInfo r).totalSize :=
      fun r hr hne => by
      rw [hinfo, update_of_ne hne]
      exact h.lt r hr
    have hself' := hacked slot hslot.1
    rw [hself, (hsame slot).1] at hself'
    have hle := hbound slot hslot.1
    by_cases hlast : (s.beRead.burstInfo slot).bytesAcked + chunk = (s.beRead.burstInfo slot).totalSize
    · -- all of the slot is acknowledged, hence received, and nothing of it is in the queue
      have hnone : queued queue slot = 0 := by
        rw [hqueue'] at hself'
        omega
      have hnotQueue := not_mem_of_queued (fun q hq => (hrest q hq).2) hnone
      have hnotOpn : ∀ p ∈ opn, p.1 ≠ slot := fun p hp heq => by
        have hp' := (hpair p hp).lt
        rw [heq] at hp'
        omega
      refine ⟨live.erase slot, ?_, fun p hp => ?_, fun q hq => ?_, fun r hr => hacked r (mem_of_mem_erase hr),
        fun r hr => ?_, fun r hr => hreceived r (mem_of_mem_erase hr)⟩
      · rw [hfree, if_pos hlast, append_assoc]
        exact ((perm_cons_erase hslot.1).append_left _).symm.trans h.perm
      · exact (mem_erase_of_ne (hnotOpn p hp)).2 (h.mem p hp)
      · rw [hqueue'] at hq
        exact ⟨(mem_erase_of_ne (hnotQueue q hq)).2 (hrest q hq).1, (hrest q hq).2⟩
      · have hnodup := (nodup_append.1 h.nodup).2.1
        exact hlt r (mem_of_mem_erase hr) fun heq => (hnodup.not_mem_erase (heq ▸ hr))
    · refine ⟨live, ?_, h.mem, fun q hq => hrest q (hqueue' ▸ hq), hacked, fun r hr => ?_, hreceived⟩
      · rw [hfree, if_neg hlast]
        exact h.perm
      · by_cases heq : r = slot
        · rw [heq, hself, (hsame slot).2]
          omega
        · exact hlt r hr heq

end ReadSlots

namespace WriteSlots

theorem nodup (h : WriteSlots cfg s) : (s.beWrite.freeBursts ++ (s.beWrite.pendingBursts ++ s.writeBus)).Nodup :=
  h.perm.nodup_iff.2 nodup_range

theorem not_live (h : WriteSlots cfg s) (hw : w ∈ s.beWrite.freeBursts) : w ∉ s.beWrite.pendingBursts ++ s.writeBus :=
  fun hlive => (nodup_append.1 h.nodup).2.2 w hw w hlive rfl

theorem congr (h : WriteSlots cfg s) (hfree : s'.beWrite.freeBursts = s.beWrite.freeBursts)
    (hpending : s'.beWrite.pendingBursts = s.beWrite.pendingBursts) (hbus : s'.writeBus = s.writeBus)
    (hinfo : ∀ w ∈ s.writeBus, s'.beWrite.burstInfo w = s.beWrite.burstInfo w) : WriteSlots cfg s' where
  perm := by
    rw [hfree, hpending, hbus]
    exact h.perm
  full w hw := by
    rw [hbus] at hw
    rw [hinfo w hw]
    exact h.full w hw
  pos w hw := by
    rw [hbus] at hw
    rw [hinfo w hw]
    exact h.pos w hw

end WriteSlots

end Dma

end GvsocPulp.IdmaV2
