import GvsocPulp.IdmaV3.Copy

/-!
# The buffer never wedges a copy

The read side may run ahead of the write side, into the bytes of later bursts and requests, until a lane is full. It is
never held back while the write side still waits for one of its bytes: then all the buffer holds is a part of one write
beat, whose bytes are on different lanes.

- `waits_iff`: the write side waits for a byte of its next beat iff this byte has not been read;
- `lane_le_one`: while it waits, no lane holds more than one byte;
- `never_wedged`: what follows for every state of every run; `readBeat_of_waits`: so the next read beat is accepted;
- `wedged_wide`: on a bus of more than 64 KiB the truncated fields of a split lose bytes and the copy wedges.
-/

namespace GvsocPulp.IdmaV3

open Lib LaneBuffer List

section Waiting

variable (cfg : Config) (s : Backend)

/-- The next read beat, of the burst that heads `r_fifo`, needs a lane that has no room. -/
def ReadLacksRoom : Prop := ∃ slot ∈ s.rFifo.entries.head?, ∃ j ∈ (beatBytes cfg slot.split s.rBeatIdx).indices,
  cfg.bufferDepth ≤ (s.buffer.lane (readLane cfg.width slot.split.shift j)).count

/-- The next write beat, of the burst that heads `w_fifo`, needs a lane that has no byte. -/
def WriteLacksByte : Prop := ∃ slot ∈ s.wFifo.entries.head?, ∃ j ∈ (beatBytes cfg slot.split s.wBeatIdx).indices,
  (s.buffer.lane (writeLane cfg.width slot.split.shift j)).count = 0

/-- The read side has not delivered the last byte of the next write beat yet. -/
def WriteAhead : Prop := ∃ slot ∈ s.wFifo.entries.head?,
  s.log.delivered.length < s.log.emitted.length + (beatBytes cfg slot.split s.wBeatIdx).count

instance : Decidable (ReadLacksRoom cfg s) := by unfold ReadLacksRoom; infer_instance

instance : Decidable (WriteLacksByte cfg s) := by unfold WriteLacksByte; infer_instance

instance : Decidable (WriteAhead cfg s) := by unfold WriteAhead; infer_instance

end Waiting

/-! ## The buffer while the write side waits -/

section Inv

variable {cfg : Config} {s : Backend} {sent inside : List (ReqByte × UInt8)} {split : Split} {rest : List Split}

variable (h : CopyInv cfg s sent inside) (hw : cfg.width ≤ 65536)
include h hw

/-- The write side waits for a byte of its next beat iff the buffer holds too few bytes for it. -/
theorem CopyInv.lacks_iff (he : s.wFifo.entries.map (·.split) = split :: rest) :
    (∃ j ∈ (beatBytes cfg split s.wBeatIdx).indices, (s.buffer.lane (writeLane cfg.width split.shift j)).count = 0) ↔
      inside.length < (beatBytes cfg split s.wBeatIdx).count := by
  have hwrites := h.writes
  rw [he] at hwrites
  have hok := hwrites.splits_ok split mem_cons_self
  have hlt := hwrites.idx_lt split rest rfl
  have hbeat : (Dir.beat cfg .write split s.wBeatIdx).length = (beatBytes cfg split s.wBeatIdx).count := by
    rw [Dir.beat, length_map, BeatBytes.indices, length_range']
  have hwindow : (inside.map (·.1)).length = inside.length := length_map _
  rw [← hbeat, ← hwindow]
  rcases h.beat_or_window he with ⟨more, hmore⟩ | ⟨t, ts, hextra⟩
  · rw [hmore, length_append]
    refine iff_of_false ?_ (by omega)
    -- each byte of the beat is on its lane
    rintro ⟨j, hj, hzero⟩
    have hmem : (split.req, Dir.pos .write split + (s.wBeatIdx * cfg.width + j - split.offset)) ∈ inside.map (·.1) := by
      rw [hmore]
      exact mem_append_left _ (List.mem_map_of_mem hj)
    obtain ⟨b, hb, hbtag⟩ := mem_map.1 hmem
    have honlane : b.2 ∈ onLane (writeLane cfg.width split.shift j) (inside.map (laneOf cfg)) := by
      rw [mem_onLane, writeLane_of_beat hw hok hlt hj, mem_map]
      exact ⟨b, hb, by rw [laneOf, hbtag]⟩
    rw [h.holds.count_eq (writeLane_lt cfg.width_pos _ j), length_eq_zero_iff] at hzero
    rw [hzero] at honlane
    exact not_mem_nil honlane
  · have hmem : t ∈ Dir.beat cfg .write split s.wBeatIdx := hextra ▸ mem_append_right _ mem_cons_self
    have hlen : (inside.map (·.1)).length < (Dir.beat cfg .write split s.wBeatIdx).length := by
      rw [hextra, length_append, length_cons]
      omega
    refine iff_of_true ?_ hlen
    -- the first byte missing leaves its lane empty
    obtain ⟨j, hj, rfl⟩ := mem_map.1 hmem
    refine ⟨j, hj, ?_⟩
    rw [h.holds.count_eq (writeLane_lt cfg.width_pos _ j), writeLane_of_beat hw hok hlt hj,
      onLane_missing hw hok hlt hextra, length_nil]

/-- What the buffer holds then is a part of one beat: no lane has two bytes. -/
theorem CopyInv.lane_le_one (he : s.wFifo.entries.map (·.split) = split :: rest)
    (hfew : inside.length < (beatBytes cfg split s.wBeatIdx).count) {i : Nat} (hi : i < cfg.width) :
    (s.buffer.lane i).count ≤ 1 := by
  have hwrites := h.writes
  rw [he] at hwrites
  have hok := hwrites.splits_ok split mem_cons_self
  have hlt := hwrites.idx_lt split rest rfl
  have hnd : ((inside.map (laneOf cfg)).map (·.1)).Nodup := by
    rcases h.beat_or_window he with ⟨more, hmore⟩ | ⟨t, ts, hextra⟩
    · have hlen := congrArg List.length hmore
      rw [length_append, length_map, Dir.beat, length_map, BeatBytes.indices, length_range'] at hlen
      omega
    · have hbeat := beatLanes_nodup hw hok hlt
      rw [hextra, map_append, nodup_append, List.map_map] at hbeat
      rw [List.map_map]
      exact hbeat.1
  rw [h.holds.count_eq hi]
  exact length_onLane_le_one hnd

theorem CopyInv.waits_iff :
    WriteLacksByte cfg s ↔ WriteAhead cfg s := by
  unfold WriteLacksByte WriteAhead
  apply exists_congr
  intro slot
  apply and_congr_right
  intro hslot
  obtain ⟨tail, he⟩ := head?_eq_some_iff.1 hslot
  rw [h.lacks_iff hw (by rw [he, map_cons]), h.delivered, h.emitted, length_map, length_map,
    length_append, Nat.add_lt_add_iff_left]

theorem CopyInv.room (hd : 2 ≤ cfg.bufferDepth)
    (hwait : WriteLacksByte cfg s) {i : Nat} (hi : i < cfg.width) : (s.buffer.lane i).count < cfg.bufferDepth := by
  obtain ⟨slot, hslot, hlacks⟩ := hwait
  obtain ⟨tail, he⟩ := head?_eq_some_iff.1 hslot
  have he' : s.wFifo.entries.map (·.split) = slot.split :: tail.map (·.split) := by rw [he, map_cons]
  have hone := h.lane_le_one hw he' ((h.lacks_iff hw he').1 hlacks) hi
  omega

end Inv

/-! ## Runs -/

section Runs

variable {cfg : Config} {es : List Event} {s : Backend}

/-- **The buffer never wedges a copy**, on buses of up to 64 KiB: in no state of any run does the next read beat lack
room while the next write beat lacks a byte; and a byte it lacks is one that has not been read yet. -/
theorem never_wedged (cfg : Config) (hw : cfg.width ≤ 65536) (hd : 2 ≤ cfg.bufferDepth) (es : List Event)
    (s : Backend) (hrun : run (step cfg) (.init cfg) es = some s) :
    ¬ (ReadLacksRoom cfg s ∧ WriteLacksByte cfg s) ∧ (WriteLacksByte cfg s ↔ WriteAhead cfg s) := by
  obtain ⟨sent, inside, h⟩ := run_invariant (step_copy hw) ⟨[], [], init_copy cfg⟩ hrun
  refine ⟨?_, h.waits_iff hw⟩
  rintro ⟨⟨slot, -, j, -, hfull⟩, hwait⟩
  have hroom := h.room hw hd hwait (readLane_lt cfg.width_pos slot.split.shift j)
  omega

/-- Five bytes from address 3 to address 4, of which the first read beat brings one. -/
def waitingCopy : List Event :=
  [.legalizer (some { src := 3, dst := 4, length := 5, dstProt := .obi, length_lt := (by decide : 5 < 2 ^ 64) }) true 0,
    .cycle, .legalizer none true 0, .cycle, .readBeat .axi 0 (fun j => UInt8.ofNat (10 + j))]

theorem never_wedged_narrowDma : ∃ s, run (step narrowDma) (.init narrowDma) waitingCopy = some s ∧
    s.log.delivered.map (·.1) = [3] ∧ WriteAhead narrowDma s ∧ ¬ ReadLacksRoom narrowDma s := by
  obtain ⟨s, hrun, hs⟩ := (Option.any_eq_true (fun s : Backend => decide (s.log.delivered.map (·.1) = [3] ∧
    WriteLacksByte narrowDma s)) _).1
    (show (run (step narrowDma) (.init narrowDma) waitingCopy).any _ = true by decide +kernel)
  obtain ⟨hdelivered, hwait⟩ := of_decide_eq_true hs
  obtain ⟨hnot, hiff⟩ := never_wedged narrowDma (by decide) (by decide) _ s hrun
  exact ⟨s, hrun, hdelivered, hiff.1 hwait, fun hfull => hnot ⟨hfull, hwait⟩⟩

end Runs

/-! ## Wide buses -/

/-- A back-end that reads from OBI and writes to AXI on a bus of 128 KiB. -/
def wideObiDma : Config where
  width := 131072
  numAxInFlight := 4
  bufferDepth := 2
  metaFifoDepth := 0
  rawCoupling := false
  readBurstLen := 5
  writeBurstLen := 5
  obiAwFifoDepth := 2
  axiRead := false
  obiRead := true
  axiWrite := true
  obiWrite := false
  width_pow := wideDma.width_pow
  coupling_axi := nofun

def oneByte : Request :=
  { src := 0, dst := 0, length := 1, srcProt := .obi, src_lt := Nat.succ_pos _, dst_lt := Nat.succ_pos _,
    length_lt := (by decide : 1 < 2 ^ 64) }

/-- Three bytes from address 65535, then single bytes. -/
def wedgingCopies : List Event :=
  [.legalizer (some { src := 65535, dst := 0, length := 3, srcProt := .obi, dst_lt := oneByte.dst_lt }) true 0, .cycle,
    .legalizer (some oneByte) true 0, .cycle, .legalizer (some oneByte) true 0, .readBeat .obi 0 (fun _ => 1), .cycle,
    .legalizer (some oneByte) true 0, .readBeat .obi 0 (fun _ => 2), .cycle,
    .legalizer none true 0, .readBeat .obi 0 (fun _ => 3)]

/-- The first byte ends a half of the bus word, so the truncated offset and tailer leave its beat without bytes. The
write side waits for the two bytes behind it, and the bytes of later requests fill the lane of the first one. -/
theorem wedged_wide : ∃ s, run (step wideObiDma) (.init wideObiDma) wedgingCopies = some s ∧
    ReadLacksRoom wideObiDma s ∧ WriteLacksByte wideObiDma s ∧ WriteAhead wideObiDma s ∧
    s.log.delivered.map (·.1) = [0, 0] := by
  obtain ⟨s, hrun, hs⟩ := (Option.any_eq_true (fun s : Backend => decide (ReadLacksRoom wideObiDma s ∧
    WriteLacksByte wideObiDma s ∧ WriteAhead wideObiDma s ∧ s.log.delivered.map (·.1) = [0, 0])) _).1
    (show (run (step wideObiDma) (.init wideObiDma) wedgingCopies).any _ = true by decide +kernel)
  exact ⟨s, hrun, of_decide_eq_true hs⟩

end GvsocPulp.IdmaV3
