import GvsocPulp.IdmaV2.Acks

/-!
# The invariant of the back-end

`Dma.Inv` puts together the data flow, the slots and the acknowledgements; it holds after every event (`Inv.step`). An
acknowledged write burst gives its chunks back one by one (`Mid.ackAll`): its slot belongs to no list meanwhile.
-/

namespace GvsocPulp.IdmaV2

open Lib Function List

namespace Dma

/-- What holds while the chunks `owed` of a write burst are acknowledged. -/
structure Mid (cfg : BeConfig) (s : Dma) (opn : List (Nat × Nat)) (dn : List PlanByte) (live : List Nat)
    (gone : List (Nat × IdmaTransfer)) (owed : List Nat) (line : Nat) : Prop where
  flow : s.Flow opn dn
  reads : ReadSlots cfg s opn live
  acks : s.Acks owed line
  lines : s.Lines gone

structure Inv (cfg : BeConfig) (s : Dma) (opn : List (Nat × Nat)) (dn : List PlanByte) (live : List Nat)
    (gone : List (Nat × IdmaTransfer)) : Prop where
  flow : s.Flow opn dn
  reads : ReadSlots cfg s opn live
  writes : WriteSlots cfg s
  acks : s.Acks [] 0
  lines : s.Lines gone

/-- The invariant, with its parts hidden. -/
def Ok (cfg : BeConfig) (s : Dma) : Prop := ∃ opn dn live gone, Inv cfg s opn dn live gone

variable {cfg : BeConfig} {s : Dma} {opn : List (Nat × Nat)} {dn : List PlanByte} {live : List Nat}
  {gone : List (Nat × IdmaTransfer)} {owed : List Nat} {line c w : Nat}

/-! ## The acknowledgement of a write burst -/

theorem writeDataAck_frame (be : IDmaBeAxi) : be.writeDataAck.pendingBursts = be.pendingBursts ∧
    be.writeDataAck.readPushQueue = be.readPushQueue ∧ ∀ r,
      SameRead (be.writeDataAck.burstInfo r) (be.burstInfo r) := by
  rw [IDmaBeAxi.writeDataAck]
  split
  case h_1 => exact ⟨rfl, rfl, fun r => ⟨rfl, rfl, rfl, rfl⟩⟩
  case h_2 slot chunk queue _ =>
    have hsame : ∀ r, SameRead (update be.burstInfo slot
        { be.burstInfo slot with bytesAcked := (be.burstInfo slot).bytesAcked + chunk } r)
          (be.burstInfo r) := fun r => by
      rw [update_apply]
      split
      case isTrue heq =>
        rw [heq]
        exact ⟨rfl, rfl, rfl, rfl⟩
      case isFalse => exact ⟨rfl, rfl, rfl, rfl⟩
    dsimp only
    split <;> exact ⟨rfl, rfl, hsame⟩

namespace Mid

theorem ackData (h : Mid cfg s opn dn live gone (c :: owed) line) (hline : line < s.lines.length) :
    ∃ live', Mid cfg (s.ackData line c) opn dn live' gone owed line := by
  obtain ⟨n, burst, hburst⟩ := exists_parentOf hline
  have hack := h.acks.ackSize line
  rw [if_pos rfl, sum_cons] at hack
  have hpos := h.acks.pos c mem_cons_self
  obtain ⟨hpending, hpush, hsame⟩ := writeDataAck_frame s.beRead
  rw [ackData_eq hburst]
  have hflow : Flow { s with
      beRead := s.beRead.writeDataAck
      ackSize := update s.ackSize line (s.ackSize line - c)
      me := if s.ackSize line - c = 0 then s.me.back n else s.me } opn dn :=
    h.flow.congr rfl rfl rfl rfl rfl (congrArg (s.readBus ++ ·) hpending) hpush rfl rfl (fun p _ => hsame p.1)
      fun _ _ => rfl
  obtain ⟨live', hreads⟩ := h.reads.writeDataAck h.flow.pair (show Dma.beRead { s with
      beRead := s.beRead.writeDataAck
      ackSize := update s.ackSize line (s.ackSize line - c)
      me := if s.ackSize line - c = 0 then s.me.back n else s.me } = _ from rfl)
  exact ⟨live', hflow, hreads, h.acks.ack _, h.lines.ack hburst (by omega) _⟩

theorem ackAll : ∀ {owed : List Nat} {s : Dma} {live : List Nat}, Mid cfg s opn dn live gone owed line →
    line < s.lines.length → ∃ live', Mid cfg (owed.foldl (fun s size => s.ackData line size) s) opn dn live'
    gone [] line ∧
      (owed.foldl (fun s size => s.ackData line size) s).beWrite = s.beWrite ∧
      (owed.foldl (fun s size => s.ackData line size) s).writeBus = s.writeBus
  | [], s, live, h, _ => ⟨live, h, rfl, rfl⟩
  | c :: owed, s, live, h, hline => by
    obtain ⟨live₁, h₁⟩ := h.ackData hline
    obtain ⟨n, burst, hburst⟩ := exists_parentOf hline
    have heq := ackData_eq hburst c
    have hline₁ : line < (s.ackData line c).lines.length := by
      rw [heq]
      exact hline
    obtain ⟨live', h', hwrite, hbus⟩ := h₁.ackAll hline₁
    rw [foldl_cons]
    refine ⟨live', h', hwrite.trans ?_, hbus.trans ?_⟩
    · rw [heq]
    · rw [heq]

end Mid

theorem liveWrites_perm (hw : w ∈ s.writeBus) :
    s.liveWrites.Perm (w :: Dma.liveWrites { s with writeBus := s.writeBus.erase w }) := by
  rw [liveWrites, liveWrites]
  exact ((perm_cons_erase hw).append_left _).trans perm_middle

theorem Acks.leave (h : s.Acks [] 0) (hw : w ∈ s.writeBus)
    (hfull : (s.beWrite.burstInfo w).data.length = (s.beWrite.burstInfo w).totalSize) :
    Acks { s with writeBus := s.writeBus.erase w } (s.beWrite.burstInfo w).writePendingAcks
      (s.beWrite.burstInfo w).transfer := by
  have hperm := liveWrites_perm hw
  have hmem : w ∈ s.liveWrites := mem_append_right _ hw
  refine ⟨fun v hv => h.chunks v (hperm.mem_iff.2 (mem_cons_of_mem _ hv)), (h.chunks w hmem).2, ?_, fun i => ?_⟩
  · have hcount := h.count
    rw [(hperm.map _).sum_eq, map_cons, sum_cons, length_nil] at hcount
    show (List.map (fun w => (s.beWrite.burstInfo w).writePendingAcks.length) _).sum + _ = s.beRead.readAckQueue.length
    omega
  · have hi := h.ackSize i
    have hsum := (h.chunks w hmem).1
    rw [unacked, (hperm.map _).sum_eq, map_cons, sum_cons, sum_nil] at hi
    show s.ackSize i = (List.map (fun w => if (s.beWrite.burstInfo w).transfer = i then
      (s.beWrite.burstInfo w).totalSize else 0) _).sum +
      ((if i = (s.beWrite.burstInfo w).transfer then (s.beWrite.burstInfo w).writePendingAcks.sum else 0) +
        if i = s.currentTransfer then s.currentTransferSize else 0)
    by_cases heq : (s.beWrite.burstInfo w).transfer = i
    · rw [if_pos heq] at hi
      rw [if_pos heq.symm, hsum, hfull]
      simp only [ite_self] at hi
      omega
    · rw [if_neg heq] at hi
      rw [if_neg (Ne.symm heq)]
      simp only [ite_self] at hi
      omega

theorem Inv.completeWriteBurst (h : Inv cfg s opn dn live gone) (hw : w ∈ s.writeBus) :
    ∃ live', Inv cfg ({ s with writeBus := s.writeBus.erase w }.completeWriteBurst w) opn dn live' gone := by
  have hnodup := h.writes.nodup
  have hlive : s.liveWrites.Nodup := (nodup_append.1 hnodup).2.1
  have hperm := liveWrites_perm hw
  have hnot : w ∉ Dma.liveWrites { s with writeBus := s.writeBus.erase w } :=
    (nodup_cons.1 (hperm.nodup_iff.1 hlive)).1
  have hmid : Mid cfg { s with writeBus := s.writeBus.erase w } opn dn live gone
    (s.beWrite.burstInfo w).writePendingAcks
      (s.beWrite.burstInfo w).transfer := {
    flow := h.flow.congr rfl rfl rfl rfl rfl rfl rfl rfl rfl (fun _ _ => ⟨rfl, rfl, rfl, rfl⟩) fun _ _ => rfl
    reads := h.reads.congr rfl rfl fun _ => ⟨rfl, rfl, rfl⟩
    acks := h.acks.leave hw (h.writes.full w hw)
    lines := h.lines.congr rfl rfl rfl h.lines.current fun v hv => h.lines.transfers v
      (hperm.mem_iff.2 (mem_cons_of_mem _ hv)) }
  obtain ⟨live', hall, hwrite, hbus⟩ := hmid.ackAll (h.lines.transfers w (mem_append_right _ hw))
  refine ⟨live', ?_⟩
  rw [Dma.completeWriteBurst]
  revert hall hwrite hbus
  generalize (s.beWrite.burstInfo w).writePendingAcks.foldl
    (fun s' size => s'.ackData (s.beWrite.burstInfo w).transfer size) { s with writeBus := s.writeBus.erase w } = s₁
  intro hall hwrite hbus
  have hliveEq : s₁.liveWrites = Dma.liveWrites { s with writeBus := s.writeBus.erase w } := by
    rw [Dma.liveWrites, Dma.liveWrites, hwrite, hbus]
  have hne : ∀ v ∈ s₁.liveWrites, v ≠ w := fun v hv heq => by
    rw [heq, hliveEq] at hv
    exact hnot hv
  have hnePending : ∀ v ∈ s₁.beWrite.pendingBursts, v ≠ w := fun v hv => hne v (mem_append_left _ hv)
  have hneBus : ∀ v ∈ s₁.writeBus, v ≠ w := fun v hv => hne v (mem_append_right _ hv)
  refine {
    flow := hall.flow.congr rfl rfl rfl rfl rfl rfl rfl rfl rfl (fun _ _ => ⟨rfl, rfl, rfl, rfl⟩) fun v hv => ?_
    reads := hall.reads.congr rfl rfl fun _ => ⟨rfl, rfl, rfl⟩
    writes := ⟨?_, fun v hv => ?_, fun v hv => ?_⟩
    acks := ?_
    lines := hall.lines.congr rfl rfl rfl hall.lines.current fun v hv => ?_ }
  · exact update_of_ne (hnePending v hv) _ _
  · rw [hwrite, hbus, append_assoc]
    refine (Perm.append_left _ ?_).trans h.writes.perm
    exact hperm.symm
  · show (update s₁.beWrite.burstInfo w _ v).data.length = (update s₁.beWrite.burstInfo w _ v).totalSize
    rw [update_of_ne (hneBus v hv), hwrite]
    rw [hbus] at hv
    exact h.writes.full v (mem_of_mem_erase hv)
  · show 0 < (update s₁.beWrite.burstInfo w _ v).totalSize
    rw [update_of_ne (hneBus v hv), hwrite]
    rw [hbus] at hv
    exact h.writes.pos v (mem_of_mem_erase hv)
  · have hacks : s₁.Acks [] 0 := ⟨hall.acks.chunks, hall.acks.pos, hall.acks.count, fun i => by
      have hi := hall.acks.ackSize i
      rw [sum_nil, ite_self] at hi
      rw [sum_nil, ite_self]
      exact hi⟩
    refine hacks.congr (List.Perm.refl _) (fun v hv => ?_) rfl rfl rfl rfl
    simp [IDmaBeAxi.set, update_of_ne (hne v hv)]
  · show (update s₁.beWrite.burstInfo w _ v).transfer < _
    rw [update_of_ne (hne v hv)]
    exact hall.lines.transfers v hv

end Dma

end GvsocPulp.IdmaV2
