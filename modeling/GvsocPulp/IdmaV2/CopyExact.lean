import GvsocPulp.IdmaV2.Termination

/-!
# The back-end copies exactly

`Dma.Exact` is what the invariant gives for the logs, the slots and the acknowledged transfers of every state.
-/

namespace GvsocPulp.IdmaV2

open Lib List

namespace Dma

variable (cfg : BeConfig) (s : Dma)

/-- All bytes of a line are written and all its write bursts are acknowledged. -/
def LineDone (line : Nat) : Prop :=
  (∀ p ∈ s.plan.drop s.writeLog.length, p.line ≠ line) ∧ ∀ w ∈ s.liveWrites, (s.beWrite.burstInfo w).transfer ≠ line

/-- The back-end has got all the lines of a transfer, and is done with them. -/
def Done (n : Nat) : Prop :=
  ∃ t, (n, t) ∈ s.me.entered ∧ (s.lines.filter fun p => p.1 = n).map (·.2) = t.lines ∧ ∀ i,
    s.parentOf i = some n → s.LineDone i

/-- The slots of the reads that are not acknowledged completely. -/
def readServes (r : Nat) : Prop :=
  r ∈ s.readBus ++ s.beRead.pendingBursts ∨ r ∈ s.beRead.readPushQueue.map (·.1) ∨ r ∈ s.beRead.readAckQueue.map (·.1)

/-- Nothing moves any more. -/
def Idle : Prop := ∀ e, e.isProgress = true → ∀ s', step cfg s e = some s' → s' = s

structure Exact : Prop where
  /-- What has been read are the first bytes of the lines, at their sources. -/
  reads : s.readLog.map (fun a => (a.line, a.addr)) <+: s.plan.map fun p => (p.line, p.src)
  /-- What has been written are the first bytes of the lines, at their destinations, as they were read. -/
  writes : s.writeLog <+: copies s.plan (s.readLog.map (·.byte))
  noFatal : s.fatal = false
  /-- No chunk waits, so none is overtaken. -/
  noPush : s.beRead.readPushQueue = []
  readFree : s.beRead.freeBursts.Nodup ∧ (s.readBus ++ s.beRead.pendingBursts).Nodup ∧
    ∀ r, r ∈ s.beRead.freeBursts ↔ r < cfg.burstQueueSize ∧ ¬ s.readServes r
  writeFree : (s.beWrite.freeBursts ++ s.liveWrites).Perm (List.range cfg.burstQueueSize)
  /-- A transfer is acknowledged once, when the back-end is done with its lines. -/
  acked : s.me.acked.Nodup ∧ ∀ n, n ∈ s.me.acked ↔ s.Done n
  /-- The copy does not go on for ever, and does not stop before everything is copied and acknowledged. -/
  stops : Acc (fun s' s => Moves cfg s s') s
  finishes : 0 < cfg.burstQueueSize → s.Idle cfg →
    s.writeLog = copies s.plan (s.readLog.map (·.byte)) ∧ s.readLog.length = s.plan.length ∧ ∀ p ∈ s.me.entered,
      p.1 ∈ s.me.acked

variable {cfg s} {s' : Dma} {opn : List (Nat × Nat)} {dn : List PlanByte} {live : List Nat}
  {gone : List (Nat × IdmaTransfer)}

/-! ## What has been read and written -/

theorem copies_prefix (dn rest : List PlanByte) {bytes : List UInt8} (h : dn.length = bytes.length) :
    copies (dn ++ rest) bytes = copies dn bytes := by
  have happend : copies (dn ++ rest) (bytes ++ []) = _ := copies_append h
  rwa [append_nil, copies, copies, copies, zipWith_nil_right, append_nil, ← copies, ← copies] at happend

theorem map_line_copies : ∀ {plan : List PlanByte} {bytes : List UInt8}, plan.length = bytes.length →
    (copies plan bytes).map (·.line) = plan.map (·.line)
  | [], [], _ => rfl
  | p :: plan, b :: bytes, h => by
    rw [copies, zipWith_cons_cons, map_cons, ← copies, map_line_copies (Nat.succ.inj h), map_cons]

theorem line_of_mem_accesses {line : Nat} {a : Access} (bytes : List UInt8) : ∀ addr, a ∈ accesses line addr bytes →
    a.line = line := by
  induction bytes with
  | nil => exact fun _ h => nomatch h
  | cons b bytes ih =>
    intro addr h
    rcases mem_cons.1 h with rfl | h
    · rfl
    · exact ih _ h

namespace Flow

variable (h : s.Flow opn dn)
include h

theorem reads_prefix : s.readLog.map (fun a => (a.line, a.addr)) <+: s.plan.map fun p => (p.line, p.src) := by
  rw [h.read, h.plan, map_append]
  exact prefix_append _ _

theorem copies_plan : copies s.plan (s.readLog.map (·.byte)) = copies dn (s.readLog.map (·.byte)) := by
  rw [h.plan, copies_prefix _ _ h.length_done]

theorem writes_prefix : s.writeLog <+: copies s.plan (s.readLog.map (·.byte)) := by
  rw [h.copies_plan, ← h.written]
  exact prefix_append _ _

/-- The bytes that are not written wait in a write burst, are not received, or are not cut. -/
theorem drop_plan : s.plan.drop s.writeLog.length =
    dn.drop s.writeLog.length ++ (opn.flatMap s.unreceived ++ s.rest) ∧
      (dn.drop s.writeLog.length).map (·.line) = (s.beWrite.pendingBursts.flatMap s.beWrite.unissued).map (·.line) := by
  have hlines := map_line_copies h.length_done
  rw [← h.written, map_append] at hlines
  have hle : s.writeLog.length ≤ dn.length := by
    have hlen := congrArg List.length hlines
    rw [length_append, length_map, length_map, length_map] at hlen
    omega
  refine ⟨by rw [h.plan, drop_append_of_le_length hle], ?_⟩
  rw [map_drop, ← hlines, drop_append_of_le_length (by rw [length_map]), drop_of_length_le (by rw [length_map]),
    nil_append]

end Flow

/-! ## The acknowledged transfers -/

namespace Inv

section

variable (h : Inv cfg s opn dn live gone)
include h

theorem totalSize_pos {w : Nat} (hw : w ∈ s.liveWrites) : 0 < (s.beWrite.burstInfo w).totalSize := by
  rcases mem_append.1 hw with hw | hw
  · have hlt := (h.flow.issued w hw).1
    omega
  · exact h.writes.pos w hw

theorem ackSize_eq (i : Nat) :
    s.ackSize i = s.unacked i + if i = s.currentTransfer then s.currentTransferSize else 0 := by
  have hi := h.acks.ackSize i
  rwa [sum_nil, ite_self, zero_add] at hi

/-- Nothing is left to acknowledge of the lines that are done, and of no other ones. -/
theorem lineDone_iff (i : Nat) : s.LineDone i ↔ s.ackSize i = 0 := by
  obtain ⟨hdrop, hlines⟩ := h.flow.drop_plan
  rw [LineDone, hdrop, h.ackSize_eq i, Nat.add_eq_zero_iff]
  constructor
  · rintro ⟨hplan, hwrites⟩
    refine ⟨?_, ?_⟩
    · refine sum_eq_zero fun x hx => ?_
      obtain ⟨w, hw, rfl⟩ := mem_map.1 hx
      rw [if_neg (hwrites w hw)]
    · split
      case isFalse => rfl
      case isTrue heq =>
        by_contra hne
        obtain ⟨k, hk⟩ := Nat.exists_eq_succ_of_ne_zero hne
        have hmem : { line := s.currentTransfer, src := s.currentTransferSrc, dst := s.currentTransferDst : PlanByte } ∈
          s.rest := by
          rw [rest, hk]
          exact mem_cons_self
        exact hplan _ (mem_append_right _ (mem_append_right _ hmem)) heq.symm
  · rintro ⟨hunacked, hrest⟩
    have hwrites : ∀ w ∈ s.liveWrites, (s.beWrite.burstInfo w).transfer ≠ i := fun w hw heq => by
      have hle := single_le_sum (fun x _ => Nat.zero_le x) _ (mem_map_of_mem
        (f := fun w => if (s.beWrite.burstInfo w).transfer = i then (s.beWrite.burstInfo w).totalSize else 0) hw)
      have hpos := h.totalSize_pos hw
      rw [if_pos heq] at hle
      rw [unacked] at hunacked
      omega
    refine ⟨fun p hp heq => ?_, hwrites⟩
    rcases mem_append.1 hp with hp | hp
    · have hmem := mem_map_of_mem (f := (·.line)) hp
      rw [hlines] at hmem
      obtain ⟨a, ha, hline⟩ := mem_map.1 hmem
      obtain ⟨w, hw, ha⟩ := mem_flatMap.1 ha
      have haline := line_of_mem_accesses _ _ ha
      exact hwrites w (mem_append_left _ hw) (haline.symm.trans (hline.trans heq))
    · rcases mem_append.1 hp with hp | hp
      · obtain ⟨q, hq, hp⟩ := mem_flatMap.1 hp
        have hline := line_of_mem_bytesFrom _ _ _ _ hp
        exact hwrites q.2 (mem_append_left _ (h.flow.mem_pending hq))
          ((h.flow.pair q hq).transfer.symm.trans (hline.symm.trans heq))
      · have hline := line_of_mem_bytesFrom _ _ _ _ hp
        rw [if_pos (heq.symm.trans hline)] at hrest
        rw [rest, hrest] at hp
        cases hp

theorem not_mem_flight_iff (n : Nat) :
    n ∉ s.me.flight ↔ ∀ i, s.parentOf i = some n → s.ackSize i = 0 := by
  rw [← List.count_eq_zero, h.lines.flight n, nbOut]
  constructor
  · intro hzero i hi
    by_contra hne
    have hlt : i < s.lines.length := by
      rw [parentOf] at hi
      obtain ⟨p, hp, -⟩ := Option.map_eq_some_iff.1 hi
      exact (List.getElem?_eq_some_iff.1 hp).1
    have hle := single_le_sum (fun x _ => Nat.zero_le x) _ (mem_map_of_mem
      (f := fun i => if s.parentOf i = some n ∧ s.ackSize i ≠ 0 then 1 else 0) (mem_range.2 hlt))
    rw [if_pos ⟨hi, hne⟩] at hle
    omega
  · intro hall
    refine sum_eq_zero fun x hx => ?_
    obtain ⟨i, -, rfl⟩ := mem_map.1 hx
    rw [if_neg fun hi => hi.2 (hall i hi.1)]

/-- A transfer is acknowledged iff it is done. -/
theorem acked_iff (n : Nat) : n ∈ s.me.acked ↔ s.Done n := by
  rw [h.lines.ok.acked_iff, Feeder.Complete, Done]
  refine exists_congr fun t => and_congr_right fun ht => and_congr ?_ ?_
  · have hcuts := cutsInto_lines (h.lines.entered _ ht).2
    rw [h.lines.given n]
    exact ⟨fun hgiven => hgiven.unique hcuts, fun heq => heq ▸ hcuts⟩
  · rw [h.not_mem_flight_iff]
    exact forall₂_congr fun i _ => (h.lineDone_iff i).symm

/-! ## The slots -/

theorem readServes_iff (r : Nat) : s.readServes r ↔ r ∈ live := by
  rw [readServes, h.flow.reads, h.flow.noPush]
  constructor
  · rintro (hr | hr | hr)
    · obtain ⟨p, hp, rfl⟩ := mem_map.1 hr
      exact h.reads.mem p hp
    · cases hr
    · obtain ⟨q, hq, rfl⟩ := mem_map.1 hr
      exact (h.reads.queue q hq).1
  · intro hr
    by_cases hopn : r ∈ opn.map (·.1)
    · exact .inl hopn
    · refine .inr (.inr ?_)
      by_contra hnot
      have hzero : queued s.beRead.readAckQueue r = 0 :=
        queued_eq_zero fun q hq heq => hnot (mem_map.2 ⟨q, hq, heq⟩)
      have hacked := h.reads.acked r hr
      have hlt := h.reads.lt r hr
      rw [hzero, h.reads.received r hr hopn] at hacked
      omega

theorem readFree : s.beRead.freeBursts.Nodup ∧ (s.readBus ++ s.beRead.pendingBursts).Nodup ∧
    ∀ r, r ∈ s.beRead.freeBursts ↔ r < cfg.burstQueueSize ∧ ¬ s.readServes r := by
  have hnodup := h.reads.nodup
  refine ⟨(nodup_append.1 hnodup).1, h.flow.reads ▸ h.flow.readsNodup, fun r => ?_⟩
  rw [h.readServes_iff r, ← mem_range, ← h.reads.perm.mem_iff, mem_append]
  exact ⟨fun hr => ⟨.inl hr, h.reads.not_live hr⟩, fun ⟨hr, hnot⟩ => hr.resolve_right hnot⟩

/-! ## Nothing is left behind -/

theorem idle_reads (hidle : s.Idle cfg) : opn = [] := by
  have hpending : s.beRead.pendingBursts = [] := by
    by_contra hne
    obtain ⟨r, pending, hpending⟩ := exists_cons_of_ne_nil hne
    by_cases hdenied : s.beRead.deniedBlocked
    · have heq := congrArg (·.beRead.deniedBlocked) (hidle .readRetry rfl _ rfl)
      rw [hdenied] at heq
      cases heq
    · have heq := congrArg (·.beRead.pendingBursts) (hidle (.readFsm true) rfl _ rfl)
      rw [(h.flow.issueRead true).pushRead, Dma.issueRead, hpending] at heq
      simp [hdenied] at heq
  have hopn := h.flow.reads
  rw [hpending, append_nil] at hopn
  cases opn with
  | nil => rfl
  | cons p rest =>
    obtain ⟨r, w⟩ := p
    have hlt := (h.flow.pair _ mem_cons_self).lt
    have hfits : (s.beRead.burstInfo r).bytesResponded + [(0 : UInt8)].length ≤ (s.beRead.burstInfo r).totalSize := hlt
    have hstep : step cfg s (.readBeat [0]) = some (s.readResp r (rest.map (·.1)) [0]) := by
      rw [Dma.step, hopn]
      exact if_pos ⟨cons_ne_nil _ _, hfits⟩
    have heq := congrArg (·.readLog.length) (hidle (.readBeat [0]) rfl _ hstep)
    rw [h.flow.readResp_eq (cons_ne_nil _ _) hfits] at heq
    simp [Dma.forward, accesses] at heq

end

theorem idle_writes (h : Inv cfg s [] dn live gone) (hidle : s.Idle cfg) : s.liveWrites = [] := by
  have hpending : s.beWrite.pendingBursts = [] := by
    by_contra hne
    obtain ⟨w, pending, hpending⟩ := exists_cons_of_ne_nil hne
    have hmem : w ∈ s.beWrite.pendingBursts := hpending ▸ mem_cons_self
    obtain ⟨front, hfront, hfull⟩ := h.flow.full
    rw [h.flow.fills, map_nil, append_nil] at hfront
    obtain ⟨hissued, -, -⟩ := h.flow.issued w hmem
    have hdata := hfull w (hfront ▸ hmem)
    by_cases hdenied : s.beWrite.deniedBlocked
    · have heq := congrArg (·.beWrite.deniedBlocked) (hidle .writeRetry rfl _ rfl)
      rw [hdenied] at heq
      cases heq
    · have hpos : 0 < beatSize cfg (s.beWrite.burstInfo w) := beatSize_pos hissued (hdata.symm ▸ hissued)
      have hle := beatSize_le cfg (s.beWrite.burstInfo w)
      have hready : ¬ (s.beWrite.deniedBlocked = true ∨ (s.beWrite.burstInfo w).data.length ≤
        (s.beWrite.burstInfo w).bytesIssued) := by
        rw [not_or]
        exact ⟨hdenied, by omega⟩
      have hstep : ∃ s', step cfg s (.writeFsm .granted) = some s' ∧
        s'.writeLog = (s.sendBeat cfg w pending).writeLog := by
        rw [Dma.step, issueWrite, hpending]
        dsimp only
        rw [if_neg hready]
        refine ⟨_, rfl, ?_⟩
        split <;> rfl
      obtain ⟨s', hs', hlog⟩ := hstep
      rw [hidle (.writeFsm .granted) rfl s' hs'] at hlog
      have hlen := congrArg List.length hlog
      rw [Dma.sendBeat] at hlen
      simp only [length_append, length_accesses, length_take, length_drop] at hlen
      omega
  have hbus : s.writeBus = [] := by
    by_contra hne
    obtain ⟨w, bus, hbus⟩ := exists_cons_of_ne_nil hne
    have hmem : w ∈ s.writeBus := hbus ▸ mem_cons_self
    have hstep : step cfg s (.writeAck w) = some ({ s with writeBus := s.writeBus.erase w }.completeWriteBurst w) :=
      if_pos hmem
    have heq := congrArg (·.writeBus.length) (hidle (.writeAck w) rfl _ hstep)
    rw [(completeWriteBurst_frame _ w).1, length_erase_of_mem hmem, hbus, length_cons] at heq
    omega
  rw [liveWrites, hpending, hbus]
  rfl

/-- A free slot is there for each of the instances, and the middle-end has nothing left. -/
theorem idle_transfers (h : Inv cfg s [] dn live gone) (hidle : s.Idle cfg) (hslots : 0 < cfg.burstQueueSize) :
    s.currentTransferSize = 0 ∧ s.me.queue = [] := by
  have hwrites := h.idle_writes hidle
  have hqueue : s.beRead.readAckQueue = [] := by
    have hcount := h.acks.count
    rw [hwrites] at hcount
    exact length_eq_zero_iff.1 hcount.symm
  have hlive : live = [] := eq_nil_iff_forall_not_mem.2 fun r hr => by
    have hserves := (h.readServes_iff r).2 hr
    rw [readServes, h.flow.reads, h.flow.noPush, hqueue] at hserves
    simp at hserves
  have hnonempty : ∀ {free : List Nat}, free.Perm (List.range cfg.burstQueueSize) → (!free.isEmpty) = true := by
    intro free hperm
    have hlen := hperm.length_eq
    rw [length_range] at hlen
    cases free with
    | nil => exact absurd hlen hslots.ne
    | cons => rfl
  have hread : s.beRead.canAcceptBurst = true := hnonempty (by
    have hperm := h.reads.perm
    rwa [hlive, append_nil] at hperm)
  have hwrite : s.beWrite.canAcceptBurst = true := hnonempty (by
    have hperm := h.writes.perm
    rw [← liveWrites, hwrites, append_nil] at hperm
    exact hperm)
  have hsize : s.currentTransferSize = 0 := by
    by_contra hne
    have hpos := Nat.pos_of_ne_zero hne
    have heq := congrArg (·.currentTransferSize) (hidle .beFsm rfl _ rfl)
    obtain ⟨hpos₁, -⟩ := IDmaBeAxi.getBurstSize_spec cfg s.currentTransferSrc hpos
    obtain ⟨hpos₂, -⟩ := IDmaBeAxi.getBurstSize_spec cfg s.currentTransferDst hpos₁
    rw [Dma.beFsm, if_pos ⟨hpos, hread, hwrite⟩] at heq
    dsimp only at heq
    omega
  refine ⟨hsize, ?_⟩
  by_contra hne
  obtain ⟨⟨n, t⟩, rest, hq⟩ := exists_cons_of_ne_nil hne
  have heq := hidle .meFsm rfl _ rfl
  obtain ⟨c, hc⟩ : ∃ c, (s.me.load me2d).queue = (n, t) :: rest ∧ (s.me.load me2d).current = some c := by
    cases hcurrent : s.me.current with
    | none =>
      refine ⟨me2d.start t, ?_⟩
      rw [Feeder.load, hq, hcurrent]
      exact ⟨rfl, rfl⟩
    | some c =>
      refine ⟨c, ?_⟩
      rw [Feeder.load, hq, hcurrent]
      exact ⟨hq, hcurrent⟩
  have hoffer : (s.me.load me2d).offer me2d = some (n, me2d.piece t c) := by
    rw [Feeder.offer, hc.1, hc.2]
  have hlines := congrArg (·.lines.length) heq
  rw [Dma.meFsm] at hlines
  simp [hoffer, hsize, Dma.enqueueTransfer] at hlines

theorem finishes (h : Inv cfg s opn dn live gone) (hslots : 0 < cfg.burstQueueSize) (hidle : s.Idle cfg) :
    s.writeLog = copies s.plan (s.readLog.map (·.byte)) ∧ s.readLog.length = s.plan.length ∧
      ∀ p ∈ s.me.entered, p.1 ∈ s.me.acked := by
  obtain rfl := h.idle_reads hidle
  have hwrites := h.idle_writes hidle
  obtain ⟨hsize, hqueue⟩ := h.idle_transfers hidle hslots
  have hpending : s.beWrite.pendingBursts = [] := (append_eq_nil_iff.1 hwrites).1
  have hrest : s.rest = [] := by
    rw [rest, hsize]
    rfl
  refine ⟨?_, ?_, fun p hp => ?_⟩
  · have hwritten := h.flow.written
    rwa [hpending, flatMap_nil, append_nil, ← h.flow.copies_plan] at hwritten
  · have hlen := h.flow.length_done
    rw [length_map] at hlen
    rw [h.flow.plan, hrest, flatMap_nil, append_nil, append_nil, hlen]
  · rw [h.lines.ok.acked p.1, h.not_mem_flight_iff]
    refine ⟨?_, fun i _ => ?_⟩
    · have hentered := h.lines.ok.entered
      rw [hqueue, append_nil] at hentered
      exact mem_map_of_mem (hentered ▸ hp)
    · rw [h.ackSize_eq i, hsize, ite_self, unacked, hwrites]
      rfl

theorem exact (h : Inv cfg s opn dn live gone) : Exact cfg s where
  reads := h.flow.reads_prefix
  writes := h.flow.writes_prefix
  noFatal := h.flow.noFatal
  noPush := h.flow.noPush
  readFree := h.readFree
  writeFree := h.writes.perm
  acked := ⟨h.lines.ok.once, h.acked_iff⟩
  stops := Ok.acc ⟨_, _, _, _, h⟩
  finishes := h.finishes

end Inv

/-- **The back-end copies each byte of each line once, its slots are free when they serve no burst, and each transfer is
acknowledged once, when it is copied.** -/
theorem copies_exact (cfg : BeConfig) (es : List BeEvent) : AllStates (step cfg) (Exact cfg) (init cfg) es := by
  refine allStates_of_allSteps (P := fun _ _ => True) ?_ (fun _ _ _ h _ hs => Ok.step h hs)
    ⟨_, _, _, _, Inv.initial cfg⟩
    (allSteps_of_forall fun _ _ => trivial)
  rintro s ⟨_, _, _, _, h⟩
  exact h.exact

end Dma

end GvsocPulp.IdmaV2
