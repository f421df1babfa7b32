import GvsocPulp.IdmaV2.Steps

/-!
# The back-end comes to an end

Each event that brings the copy on, and changes the state, makes the measure `(linesLeft, work)` smaller: the lines the
middle-end still has, then what is left to cut, to read, to write and to acknowledge.
-/

namespace GvsocPulp.IdmaV2

open Lib List Nat IDmaBeAxi

/-- New transfers come from the front-end and denials from the buses; everything else brings the copy on. -/
def BeEvent.isProgress : BeEvent → Bool
  | .enqueueTransfer _ | .readFsm false | .writeFsm .denied => false
  | _ => true

/-! ## The middle-end -/

/-- The lines that have not been given out, twice, and one more as long as no transfer is loaded. -/
def linesLeft (me : IDmaMe2D) : Nat :=
  match me.queue, me.current with
  | _ :: rest, some c => 2 * (c.reps.toNat + (rest.map (·.2.nbLines)).sum)
  | queue, _ => 2 * (queue.map (·.2.nbLines)).sum + 1

theorem reps_pos {t : IdmaTransfer} (ht : t.isEmpty = false) {ps : List Burst} {c : Cursor}
    (h : Reaches me2d t (me2d.start t) ps c) :
    0 < c.reps.toNat := by
  cases h with
  | refl => exact start_reps t ▸ Nat.pos_of_ne_zero (nbLines_ne_zero ht)
  | @tail c₁ c₂ ps h hn =>
    change (if c₁.reps - 1 = 0 then none else some _) = some c at hn
    split at hn
    · cases hn
    case isFalse hne =>
      cases hn
      exact Nat.pos_of_ne_zero fun hzero => hne (BitVec.eq_of_toNat_eq hzero)

theorem linesLeft_load (me : IDmaMe2D) : me.load me2d = me ∨ linesLeft (me.load me2d) < linesLeft me := by
  unfold Feeder.load
  split
  case h_1 n t rest hqueue hcurrent =>
    refine .inr ?_
    rw [linesLeft, linesLeft, hqueue, hcurrent]
    dsimp only
    rw [start_reps, map_cons, sum_cons]
    exact lt_succ_self _
  case h_2 => exact .inl rfl

theorem linesLeft_feed {me : IDmaMe2D} {gone : List (Nat × IdmaTransfer)} (h : Feeder.Ok me2d me gone)
    (hentered : ∀ p ∈ me.entered, p.2.isEmpty = false) {n : Nat} {burst : Burst}
      (hoffer : me.offer me2d = some (n, burst)) :
    linesLeft (me.feed me2d) < linesLeft me := by
  obtain ⟨t, rest, c, hqueue, hcurrent, rfl⟩ := Feeder.offer_eq_some hoffer
  obtain ⟨n', t', rest', hqueue', -, hreaches⟩ := h.current c hcurrent
  rw [hqueue] at hqueue'
  cases hqueue'
  have ht : t.isEmpty = false := hentered (n, t) (by
    rw [h.entered, hqueue]
    exact mem_append_right _ mem_cons_self)
  have hpos := reps_pos ht hreaches
  rw [linesLeft, linesLeft, Feeder.feed, hqueue, hcurrent]
  dsimp only
  cases hnext : me2d.next t c with
  | none =>
    cases rest with
    | nil =>
      simp only [map_nil, sum_nil]
      omega
    | cons =>
      dsimp only
      omega
  | some c₂ =>
    change (if c.reps - 1 = 0 then none else some _) = some c₂ at hnext
    split at hnext
    · cases hnext
    · cases hnext
      dsimp only
      have hpred : (c.reps - 1).toNat = c.reps.toNat - 1 := by bv_omega
      omega

namespace Dma

variable {cfg : BeConfig} {s s' : Dma} {opn : List (Nat × Nat)} {dn : List PlanByte} {live : List Nat}
  {gone : List (Nat × IdmaTransfer)}

/-! ## The instances -/

/-- What is left of the lines that the back-end has got. -/
def work (s : Dma) : Nat :=
  2 * s.currentTransferSize + s.beRead.pendingBursts.length + (s.plan.length - s.readLog.length) +
    2 * (s.plan.length - s.writeLog.length) + s.writeBus.length + s.beRead.deniedBlocked.toNat +
      s.beWrite.deniedBlocked.toNat

theorem work_writeBus (s : Dma) (bus : List Nat) : work { s with writeBus := bus } + s.writeBus.length =
    s.work + bus.length := by
  rw [work, work]
  show 2 * s.currentTransferSize + s.beRead.pendingBursts.length + (s.plan.length - s.readLog.length) +
    2 * (s.plan.length - s.writeLog.length) + bus.length + s.beRead.deniedBlocked.toNat +
      s.beWrite.deniedBlocked.toNat +
      s.writeBus.length = _
  omega

def Moves (cfg : BeConfig) (s s' : Dma) : Prop := ∃ e : BeEvent, e.isProgress = true ∧ step cfg s e = some s' ∧ s' ≠ s

/-- The measure gets smaller. -/
def Below (s' s : Dma) : Prop := Prod.Lex (· < ·) (· < ·) (linesLeft s'.me, s'.work) (linesLeft s.me, s.work)

/-- What an acknowledged write burst changes: the read slots, the counters and the pieces that are out. -/
theorem completeWriteBurst_frame (s : Dma) (w : Nat) : (s.completeWriteBurst w).writeBus = s.writeBus ∧
    (s.completeWriteBurst w).work = s.work ∧ linesLeft (s.completeWriteBurst w).me = linesLeft s.me := by
  have hack : ∀ (s : Dma) (line c : Nat), (s.ackData line c).writeBus = s.writeBus ∧ (s.ackData line c).work = s.work ∧
      linesLeft (s.ackData line c).me = linesLeft s.me := fun s line c => by
    obtain ⟨hpending, -, -⟩ := writeDataAck_frame s.beRead
    have hdenied : s.beRead.writeDataAck.deniedBlocked = s.beRead.deniedBlocked := by
      rw [writeDataAck]
      split
      · rfl
      · dsimp only
        split <;> rfl
    have hwork : ∀ (ackSize : Nat → Nat) (me : IDmaMe2D),
        work { s with beRead := s.beRead.writeDataAck, ackSize := ackSize, me := me } = s.work := fun ackSize me => by
      rw [work, work]
      rw [hpending, hdenied]
      rfl
    rw [ackData]
    split
    · rw [ackTransfer]
      split
      · exact ⟨rfl, hwork _ _, rfl⟩
      · exact ⟨rfl, hwork _ _, rfl⟩
    · exact ⟨rfl, hwork _ _, rfl⟩
  have hall : ∀ (owed : List Nat) (line : Nat) (s : Dma),
      (owed.foldl (fun s size => s.ackData line size) s).writeBus = s.writeBus ∧
      (owed.foldl (fun s size => s.ackData line size) s).work = s.work ∧
      linesLeft (owed.foldl (fun s size => s.ackData line size) s).me = linesLeft s.me := by
    intro owed line
    induction owed with
    | nil => exact fun _ => ⟨rfl, rfl, rfl⟩
    | cons c owed ih =>
      intro s
      obtain ⟨h₁, h₂, h₃⟩ := ih (s.ackData line c)
      obtain ⟨h₁', h₂', h₃'⟩ := hack s line c
      exact ⟨h₁.trans h₁', h₂.trans h₂', h₃.trans h₃'⟩
  exact hall _ _ s

theorem beFsm_below (cfg : BeConfig) (s : Dma) : s.beFsm cfg = s ∨ Below (s.beFsm cfg) s := by
  rw [Dma.beFsm]
  split
  case isFalse => exact .inl rfl
  case isTrue hyes =>
    obtain ⟨hsize, hread, -⟩ := hyes
    obtain ⟨r, free, hr⟩ : ∃ r free, s.beRead.freeBursts = r :: free := by
      rw [canAcceptBurst] at hread
      exact exists_cons_of_ne_nil fun hnil => by rw [hnil] at hread; cases hread
    obtain ⟨hpos₁, hle₁⟩ := getBurstSize_spec cfg s.currentTransferSrc hsize
    obtain ⟨hpos, hle₂⟩ := getBurstSize_spec cfg s.currentTransferDst hpos₁
    have hle := hle₂.trans hle₁
    have hdenied : ∀ (be : IDmaBeAxi) (base : BitVec 64) (size : Nat) (isWrite : Bool) (line : Nat),
        (be.enqueueBurst base size isWrite line).deniedBlocked = be.deniedBlocked := by
      intro be base size isWrite line
      rw [enqueueBurst]
      split <;> rfl
    refine .inr (.right _ ?_)
    rw [work, work]
    dsimp only
    rw [hdenied, hdenied, enqueueBurst, hr]
    rw [length_append, length_singleton]
    revert hpos hle
    generalize getBurstSize cfg s.currentTransferDst
      (getBurstSize cfg s.currentTransferSrc s.currentTransferSize) = k
    intro hpos hle
    show 2 * (s.currentTransferSize - k) + (s.beRead.pendingBursts.length + 1) + (s.plan.length - s.readLog.length) +
      2 * (s.plan.length - s.writeLog.length) + s.writeBus.length + s.beRead.deniedBlocked.toNat +
        s.beWrite.deniedBlocked.toNat < _
    omega

namespace Inv

section

variable (h : Inv cfg s opn dn live gone)
include h

theorem length_readLog_le : s.readLog.length ≤ s.plan.length := by
  have hlen := h.flow.length_done
  have hplan := congrArg length h.flow.plan
  rw [length_map] at hlen
  rw [length_append] at hplan
  omega

theorem length_writeLog_le : s.writeLog.length ≤ s.plan.length := by
  have hlen := congrArg length h.flow.written
  have hplan := congrArg length h.flow.plan
  rw [length_append, copies, length_zipWith] at hlen
  rw [length_append] at hplan
  omega

theorem meFsm_below : s.meFsm = s ∨ Below s.meFsm s := by
  have hload := linesLeft_load s.me
  rw [Dma.meFsm]
  have hquiet : { s with me := s.me.load me2d } = s ∨ Below { s with me := s.me.load me2d } s := by
    rcases hload with heq | hlt
    · exact .inl (by rw [heq])
    · exact .inr (.left _ _ hlt)
  split
  case h_1 n burst hoffer =>
    split
    case isTrue =>
      have hfeed := linesLeft_feed h.load.lines.ok (fun p hp => (h.load.lines.entered p hp).2) hoffer
      refine .inr (.left _ _ (hfeed.trans_le ?_))
      rcases hload with heq | hlt
      · rw [heq]
      · exact hlt.le
    case isFalse => exact hquiet
  case h_2 => exact hquiet

theorem readFsm_below :
    (s.issueRead true).pushRead = s ∨ Below (s.issueRead true).pushRead s := by
  rw [(h.flow.issueRead true).pushRead, Dma.issueRead]
  split
  case h_1 => exact .inl rfl
  case h_2 slot pending hpending =>
    split
    case isTrue => exact .inl rfl
    case isFalse =>
      refine .inr (.right _ ?_)
      rw [work, work, hpending]
      exact Nat.add_lt_add_right (Nat.add_lt_add_right (Nat.add_lt_add_right (Nat.add_lt_add_right (Nat.add_lt_add_right
        (Nat.add_lt_add_left (lt_succ_self _) _) _) _) _) _) _

theorem readBeat_below {slot : Nat} {bus : List Nat} {data : List UInt8} (hbus : s.readBus = slot :: bus)
    (hdata : data ≠ []) (hfits : (s.beRead.burstInfo slot).bytesResponded + data.length ≤
      (s.beRead.burstInfo slot).totalSize) :
    Below (s.readResp slot bus data) s := by
  obtain ⟨_, _, h'⟩ := h.readBeat hbus hdata hfits
  have hle := h'.length_readLog_le
  have hopn := h.flow.reads
  rw [hbus, cons_append] at hopn
  cases opn with
  | nil => cases hopn
  | cons p rest =>
    obtain ⟨r, w⟩ := p
    obtain rfl : slot = r := (List.cons.inj hopn).1
    have hpos : 0 < data.length := length_pos_iff.2 hdata
    rw [h.flow.readResp_eq hdata hfits] at hle ⊢
    refine .right _ ?_
    have hlog : (s.forward slot w bus data).readLog.length = s.readLog.length + data.length := by
      rw [Dma.forward]
      rw [length_append, length_accesses]
    change _ ≤ s.plan.length at hle
    rw [work, work, hlog]
    rw [hlog] at hle
    show 2 * s.currentTransferSize + s.beRead.pendingBursts.length +
      (s.plan.length - (s.readLog.length + data.length)) +
      2 * (s.plan.length - s.writeLog.length) + s.writeBus.length + s.beRead.deniedBlocked.toNat +
        s.beWrite.deniedBlocked.toNat < _
    omega

end

theorem writeAck_below {slot : Nat} (hslot : slot ∈ s.writeBus) :
    Below ({ s with writeBus := s.writeBus.erase slot }.completeWriteBurst slot) s := by
  obtain ⟨-, hwork, hme⟩ := completeWriteBurst_frame { s with writeBus := s.writeBus.erase slot } slot
  rw [Below, hwork, hme]
  refine .right _ ?_
  have hbus := work_writeBus s (s.writeBus.erase slot)
  have hlen := length_erase_of_mem hslot
  have hpos := length_pos_of_mem hslot
  omega

variable (h : Inv cfg s opn dn live gone)
include h

/-- A beat of a write burst makes the work smaller, also if the burst waits for its acknowledgement then. -/
theorem sendBeat_work {w : Nat} {pending : List Nat} (hpending : s.beWrite.pendingBursts = w :: pending)
    (hready : (s.beWrite.burstInfo w).bytesIssued < (s.beWrite.burstInfo w).data.length) :
    (s.sendBeat cfg w pending).work + 1 < s.work := by
  obtain ⟨hlt, -, -⟩ := h.flow.issued w (hpending ▸ mem_cons_self)
  have hpos : 0 < beatSize cfg (s.beWrite.burstInfo w) := beatSize_pos hlt hready
  have hbeat := beatSize_le cfg (s.beWrite.burstInfo w)
  have hle := (h.sendBeat hpending).length_writeLog_le
  have hdenied : (s.sendBeat cfg w pending).beWrite.deniedBlocked = s.beWrite.deniedBlocked := by
    rw [Dma.sendBeat]
    split <;> rfl
  have hlog : (s.sendBeat cfg w pending).writeLog.length = s.writeLog.length +
    beatSize cfg (s.beWrite.burstInfo w) := by
    rw [Dma.sendBeat]
    rw [length_append, length_accesses, length_take, length_drop, min_eq_left hbeat]
  change (s.sendBeat cfg w pending).writeLog.length ≤ s.plan.length at hle
  rw [hlog] at hle
  rw [work, work, hlog, hdenied]
  show 2 * s.currentTransferSize + s.beRead.pendingBursts.length + (s.plan.length - s.readLog.length) +
    2 * (s.plan.length - (s.writeLog.length + beatSize cfg (s.beWrite.burstInfo w))) + s.writeBus.length +
      s.beRead.deniedBlocked.toNat + s.beWrite.deniedBlocked.toNat + 1 < _
  omega

theorem writeFsm_below {answer : Answer} (hanswer : answer ≠ .denied)
    (hs : s.issueWrite cfg answer = some s') : s' = s ∨ Below s' s := by
  rw [Dma.issueWrite] at hs
  split at hs
  case h_1 =>
    cases hs
    exact .inl rfl
  case h_2 w pending hpending =>
    dsimp only at hs
    split at hs
    case isTrue =>
      cases hs
      exact .inl rfl
    case isFalse hnot =>
      rw [not_or] at hnot
      have hwork := h.sendBeat_work hpending (not_le.1 hnot.2)
      refine .inr ?_
      cases answer with
      | denied => exact absurd rfl hanswer
      | granted =>
        cases hs
        split
        case isTrue =>
          have hbus := work_writeBus (s.sendBeat cfg w pending) (s.writeBus ++ [w])
          rw [length_append, length_singleton] at hbus
          change _ + s.writeBus.length = _ at hbus
          refine .right _ ((le_of_eq ?_).trans_lt hwork)
          exact Nat.add_right_cancel (hbus.trans (by rw [add_comm s.writeBus.length 1, ← add_assoc]))
        case isFalse => exact .right _ (lt_of_succ_lt hwork)
      | done =>
        dsimp only at hs
        split at hs
        case isFalse => cases hs
        case isTrue =>
          cases hs
          obtain ⟨-, hsame, hme⟩ := completeWriteBurst_frame (s.sendBeat cfg w pending) w
          rw [Below, hsame, hme]
          exact .right _ (lt_of_succ_lt hwork)

theorem below (hmoves : Moves cfg s s') : Below s' s := by
  obtain ⟨e, hprogress, hs, hne⟩ := hmoves
  cases e with
  | enqueueTransfer t => cases hprogress
  | meFsm =>
    cases hs
    exact h.meFsm_below.resolve_left hne
  | beFsm =>
    cases hs
    exact (beFsm_below cfg s).resolve_left hne
  | readFsm granted =>
    cases granted with
    | false => cases hprogress
    | true =>
      cases hs
      exact h.readFsm_below.resolve_left hne
  | writeFsm answer =>
    refine (h.writeFsm_below ?_ hs).resolve_left hne
    rintro rfl
    cases hprogress
  | readBeat data =>
    rw [Dma.step] at hs
    split at hs
    · cases hs
    case h_2 slot bus hbus =>
      dsimp only at hs
      split at hs
      case isFalse => cases hs
      case isTrue hfits =>
        cases hs
        exact h.readBeat_below hbus hfits.1 hfits.2
  | writeAck slot =>
    obtain ⟨hslot, rfl⟩ := Option.ite_some_none_eq_some.1 hs
    exact writeAck_below hslot
  | readRetry =>
    cases hs
    cases hdenied : s.beRead.deniedBlocked with
    | false =>
      refine absurd ?_ hne
      have heq : { s.beRead with deniedBlocked := false } = s.beRead := by rw [← hdenied]
      rw [heq]
    | true =>
      refine .right _ ?_
      rw [work, work, hdenied]
      exact Nat.add_lt_add_right (lt_succ_self _) _
  | writeRetry =>
    cases hs
    cases hdenied : s.beWrite.deniedBlocked with
    | false =>
      refine absurd ?_ hne
      have heq : { s.beWrite with deniedBlocked := false } = s.beWrite := by rw [← hdenied]
      rw [heq]
    | true =>
      refine .right _ ?_
      rw [work, work, hdenied]
      exact lt_succ_self _

end Inv

theorem Ok.acc (h : Ok cfg s) : Acc (fun s' s => Moves cfg s s') s := by
  have hwf : WellFounded (Prod.Lex (· < ·) (· < ·) : Nat × Nat → Nat × Nat → Prop) :=
    WellFounded.prod_lex lt_wfRel.wf lt_wfRel.wf
  induction hm : (linesLeft s.me, s.work) using hwf.induction generalizing s with
  | h m ih =>
    refine ⟨_, fun s' hmoves => ?_⟩
    obtain ⟨e, hprogress, hs, hne⟩ := hmoves
    obtain ⟨_, _, _, _, hinv⟩ := h
    exact ih _ (hm ▸ hinv.below ⟨e, hprogress, hs, hne⟩) (Ok.step ⟨_, _, _, _, hinv⟩ hs) rfl

end Dma

end GvsocPulp.IdmaV2
