import GvsocPulp.IdmaV2.Slots
import GvsocPulp.Lib.Lists

/-!
# The acknowledgements of the back-end

What is left to acknowledge of a line is what its write bursts have not had acknowledged and what is not cut yet
(`Dma.Acks`). A line is out for the middle-end as long as something is left (`Dma.Lines`). A write burst is acknowledged
chunk by chunk: `owed` are its chunks that are still to be acknowledged.
-/

namespace GvsocPulp.IdmaV2

open Lib Function List

namespace Dma

variable (s : Dma)

def liveWrites : List Nat := s.beWrite.pendingBursts ++ s.writeBus

def parentOf (line : Nat) : Option Nat := s.lines[line]?.map (·.1)

def unacked (line : Nat) : Nat :=
  (s.liveWrites.map fun w => if (s.beWrite.burstInfo w).transfer = line then (s.beWrite.burstInfo w).totalSize
    else 0).sum

structure Acks (owed : List Nat) (line : Nat) : Prop where
  chunks : ∀ w ∈ s.liveWrites, (s.beWrite.burstInfo w).writePendingAcks.sum = (s.beWrite.burstInfo w).data.length ∧
    ∀ c ∈ (s.beWrite.burstInfo w).writePendingAcks, 0 < c
  pos : ∀ c ∈ owed, 0 < c
  count : (s.liveWrites.map fun w => (s.beWrite.burstInfo w).writePendingAcks.length).sum + owed.length =
    s.beRead.readAckQueue.length
  ackSize : ∀ i, s.ackSize i = s.unacked i +
    ((if i = line then owed.sum else 0) + if i = s.currentTransfer then s.currentTransferSize else 0)

/-- The lines of a transfer that are not acknowledged completely. -/
def nbOut (n : Nat) : Nat :=
  ((List.range s.lines.length).map fun i => if s.parentOf i = some n ∧ s.ackSize i ≠ 0 then 1 else 0).sum

structure Lines (gone : List (Nat × IdmaTransfer)) : Prop where
  ok : Feeder.Ok me2d s.me gone
  entered : ∀ p ∈ s.me.entered, p.1 < s.me.entered.length ∧ p.2.isEmpty = false
  current : 0 < s.currentTransferSize → s.currentTransfer < s.lines.length
  transfers : ∀ w ∈ s.liveWrites, (s.beWrite.burstInfo w).transfer < s.lines.length
  sizes : ∀ p ∈ s.lines, p.2.size ≠ 0
  given : ∀ n, s.me.given n = (s.lines.filter fun p => p.1 = n).map (·.2)
  flight : ∀ n, s.me.flight.count n = s.nbOut n

variable {s} {cfg : BeConfig} {opn : List (Nat × Nat)} {dn : List PlanByte} {live : List Nat}
  {gone : List (Nat × IdmaTransfer)} {owed : List Nat} {line : Nat}

theorem Acks.congr {s' : Dma} (h : s.Acks owed line) (hlive : s'.liveWrites.Perm s.liveWrites)
    (hinfo : ∀ w ∈ s.liveWrites, (s'.beWrite.burstInfo w).writePendingAcks = (s.beWrite.burstInfo w).writePendingAcks ∧
      (s'.beWrite.burstInfo w).data = (s.beWrite.burstInfo w).data ∧
      (s'.beWrite.burstInfo w).transfer = (s.beWrite.burstInfo w).transfer ∧
      (s'.beWrite.burstInfo w).totalSize = (s.beWrite.burstInfo w).totalSize)
    (hqueue : s'.beRead.readAckQueue.length = s.beRead.readAckQueue.length) (hack : s'.ackSize = s.ackSize)
    (hcurrent : s'.currentTransfer = s.currentTransfer) (hsize : s'.currentTransferSize = s.currentTransferSize) :
    s'.Acks owed line where
  chunks w hw := by
    have hw := hlive.mem_iff.1 hw
    rw [(hinfo w hw).1, (hinfo w hw).2.1]
    exact h.chunks w hw
  pos := h.pos
  count := by
    rw [(hlive.map _).sum_eq, hqueue, ← h.count]
    congr 2
    exact map_congr_left fun w hw => by rw [(hinfo w hw).1]
  ackSize i := by
    have hunacked : s'.unacked i = s.unacked i := by
      rw [unacked, unacked, (hlive.map _).sum_eq]
      congr 1
      exact map_congr_left fun w hw => by rw [(hinfo w hw).2.2.1, (hinfo w hw).2.2.2]
    rw [hack, hunacked, hcurrent, hsize]
    exact h.ackSize i

theorem Lines.congr {s' : Dma} (h : s.Lines gone) (hme : s'.me = s.me) (hlines : s'.lines = s.lines)
    (hack : s'.ackSize = s.ackSize) (hcurrent : 0 < s'.currentTransferSize → s'.currentTransfer < s'.lines.length)
    (htransfers : ∀ w ∈ s'.liveWrites, (s'.beWrite.burstInfo w).transfer < s'.lines.length) : s'.Lines gone where
  ok := hme ▸ h.ok
  entered := hme ▸ h.entered
  current := hcurrent
  transfers := htransfers
  sizes := hlines ▸ h.sizes
  given := by
    rw [hme, hlines]
    exact h.given
  flight n := by
    have hparent : s'.parentOf = s.parentOf := by
      funext i
      rw [parentOf, parentOf, hlines]
    have hnb : s'.nbOut n = s.nbOut n := by rw [nbOut, nbOut, hlines, hparent, hack]
    rw [hme, hnb]
    exact h.flight n

theorem exists_parentOf (h : line < s.lines.length) : ∃ n burst, s.lines[line]? = some (n, burst) :=
  ⟨_, _, getElem?_eq_getElem h⟩

theorem ackData_eq {n : Nat} {burst : Burst} (hline : s.lines[line]? = some (n, burst)) (c : Nat) :
    s.ackData line c = { s with
      beRead := s.beRead.writeDataAck
      ackSize := update s.ackSize line (s.ackSize line - c)
      me := if s.ackSize line - c = 0 then s.me.back n else s.me } := by
  rw [ackData]
  simp only [update_self]
  split
  · rw [ackTransfer]
    simp only [hline]
  · rfl

theorem Lines.ack (h : s.Lines gone) {n : Nat} {burst : Burst} (hline : s.lines[line]? = some (n, burst)) {c : Nat}
    (hpos : 0 < s.ackSize line) (beRead : IDmaBeAxi) : Lines { s with
      beRead := beRead
      ackSize := update s.ackSize line (s.ackSize line - c)
      me := if s.ackSize line - c = 0 then s.me.back n else s.me } gone := by
  have hlt : line < s.lines.length := (List.getElem?_eq_some_iff.1 hline).1
  have hparent : s.parentOf line = some n := by rw [parentOf, hline]; rfl
  -- the line is counted as long as something of it is left
  have hchange : ∀ m, Dma.nbOut { s with ackSize := update s.ackSize line (s.ackSize line - c) } m +
      (if n = m then 1 else 0) = s.nbOut m + if n = m ∧ s.ackSize line - c ≠ 0 then 1 else 0 := by
    intro m
    have hmem : line ∈ List.range s.lines.length := mem_range.2 hlt
    have hsum := sum_map_change (nodup_range) hmem
      (f := fun i => if s.parentOf i = some m ∧ (update s.ackSize line (s.ackSize line - c)) i ≠ 0 then 1 else 0)
      (g := fun i => if s.parentOf i = some m ∧ s.ackSize i ≠ 0 then 1 else 0)
      (fun i hi => by simp only [update_of_ne hi])
    simp only [hparent, update_self, Option.some.injEq, Nat.pos_iff_ne_zero.1 hpos, ne_eq, not_false_eq_true, and_true]
      at hsum
    exact hsum
  have hflight : n ∈ s.me.flight := by
    have hcount := h.flight n
    refine count_pos_iff.1 ?_
    rw [hcount]
    have hn := hchange n
    rw [if_pos rfl] at hn
    by_contra hzero
    have hmem : line ∈ List.range s.lines.length := mem_range.2 hlt
    have hone : (1 : Nat) ∈ (List.range s.lines.length).map fun i =>
      if s.parentOf i = some n ∧ s.ackSize i ≠ 0 then 1 else 0 :=
      List.mem_map.2 ⟨line, hmem, by rw [hparent, if_pos ⟨rfl, Nat.pos_iff_ne_zero.1 hpos⟩]⟩
    have hle := single_le_sum (fun x _ => Nat.zero_le x) _ hone
    rw [nbOut] at hzero
    omega
  by_cases hlast : s.ackSize line - c = 0
  · simp only [hlast, if_true]
    refine { h with ok := h.ok.back hflight, flight := fun m => ?_ }
    have hm := hchange m
    rw [hlast] at hm
    simp only [ne_eq, not_true_eq_false, and_false, if_false, Nat.add_zero] at hm
    show (s.me.flight.erase n).count m = Dma.nbOut { s with ackSize := update s.ackSize line 0 } m
    rw [count_erase, h.flight m, ← hm]
    by_cases hnm : n = m
    · simp [hnm]
    · simp [hnm]
  · simp only [hlast, if_false]
    refine { h with flight := fun m => ?_ }
    have hm := hchange m
    simp only [ne_eq, hlast, not_false_eq_true, and_true] at hm
    rw [h.flight m]
    exact (Nat.add_right_cancel hm).symm

theorem Acks.ack (h : s.Acks (c :: owed) line) (me : IDmaMe2D) : Acks { s with
      beRead := s.beRead.writeDataAck
      ackSize := update s.ackSize line (s.ackSize line - c)
      me := me } owed line where
  chunks := h.chunks
  pos d hd := h.pos d (mem_cons_of_mem _ hd)
  count := by
    have hcount := h.count
    rw [length_cons] at hcount
    have hqueue : s.beRead.writeDataAck.readAckQueue.length + 1 = s.beRead.readAckQueue.length := by
      rw [IDmaBeAxi.writeDataAck]
      cases hq : s.beRead.readAckQueue with
      | nil => rw [hq] at hcount; cases hcount
      | cons q queue =>
        dsimp only
        split <;> rfl
    show (s.liveWrites.map fun w => (s.beWrite.burstInfo w).writePendingAcks.length).sum + owed.length =
      s.beRead.writeDataAck.readAckQueue.length
    omega
  ackSize i := by
    have hi := h.ackSize i
    show update s.ackSize line (s.ackSize line - c) i = s.unacked i +
      ((if i = line then owed.sum else 0) + if i = s.currentTransfer then s.currentTransferSize else 0)
    by_cases heq : i = line
    · subst heq
      rw [if_pos rfl, sum_cons] at hi
      rw [update_self, if_pos rfl]
      omega
    · rw [if_neg heq] at hi
      rw [update_of_ne heq, if_neg heq]
      exact hi

end Dma

end GvsocPulp.IdmaV2
