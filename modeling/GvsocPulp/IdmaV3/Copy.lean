import GvsocPulp.IdmaV3.Beats
import GvsocPulp.IdmaV3.Coupler
import GvsocPulp.Lib.Lists

/-!
# The copy

The bytes the write managers send are the bytes of the requests, one request after the other, with the values the read
managers delivered.

- `Flow`: one side has moved the first bytes of the requests taken, and has the others queued or still to cut;
- `CopyInv`: both sides, and the bytes between them in the buffer; `step_copy`: every call keeps it;
- `copy_correct`: what follows for every state of every run;
- `copy_wide`: on a bus of more than 64 KiB the offset of a split is truncated and the byte goes elsewhere.
-/

namespace GvsocPulp.IdmaV3

open Lib LaneBuffer List Nat Dir TimedFifo

variable {req : Request}

variable {rest : List Split}

/-! ## One side -/

structure Flow (cfg : Config) (d : Dir) (splits : List Split) (idx : Nat) (current : Option Request) (side : Side)
    (moved : List ReqByte) (taken : List Request) : Prop where
  side_ok : ∀ req, current = some req → SideOk cfg d req side
  valid_eq : side.valid = decide (side.length ≠ 0)
  splits_ok : ∀ split ∈ splits, SplitOk cfg d split
  idx_zero : splits = [] → idx = 0
  idx_lt : ∀ split rest, splits = split :: rest → idx < split.numBeats
  bytes_eq : moved ++ (d.queued cfg idx splits ++ uncut current side) = stream taken

namespace Flow

variable {cfg : Config} {d : Dir} {splits : List Split} {idx : Nat} {current : Option Request} {side : Side}
  {moved : List ReqByte} {taken : List Request}

theorem init (cfg : Config) (d : Dir) : Flow cfg d [] 0 none {} [] [] :=
  ⟨fun _ => nofun, rfl, fun _ => nofun, fun _ => rfl, fun _ _ => nofun, rfl⟩

section

variable (h : Flow cfg d splits idx current side moved taken)
include h

theorem cut (hw : cfg.width ≤ 65536) (hreq : current = some req) {bytes : Nat} (hpos : 0 < bytes)
    (hle : bytes ≤ side.length) (hsmall : bytes ≤ 4096 ∨ side.addr % cfg.width + bytes ≤ cfg.width) :
    Flow cfg d (splits ++ [makeSplit cfg req side bytes]) idx current (side.advance bytes) moved taken := by
  have hside := h.side_ok req hreq
  have hok := makeSplit_ok hw hside hpos hsmall
  refine ⟨fun req' hreq' => ?_, rfl, fun split hsplit => ?_, fun hnil => ?_, fun split rest hcons => ?_, ?_⟩
  · cases hreq.symm.trans hreq'
    exact hside.advance hle
  · rcases mem_append.1 hsplit with hsplit | hsplit
    · exact h.splits_ok split hsplit
    · rw [mem_singleton.1 hsplit]; exact hok
  · exact absurd hnil (by simp)
  · cases hs : splits with
    | nil =>
      rw [hs, nil_append, cons.injEq] at hcons
      rw [h.idx_zero hs, ← hcons.1, hok.numBeats]
      exact succ_pos _
    | cons head tail =>
      rw [hs, cons_append, cons.injEq] at hcons
      rw [← hcons.1]
      exact h.idx_lt head tail hs
  · rw [queued_append h.idx_zero, ← h.bytes_eq, hreq, uncut_advance hside hle]
    simp

variable (hv : side.valid = false)
include hv

theorem length_zero :
    side.length = 0 := by
  have hvalid := h.valid_eq
  rw [hv] at hvalid
  simpa using hvalid

theorem uncut_nil :
    uncut current side = [] := by
  cases current with
  | none => rfl
  | some req => simp [uncut, h.length_zero hv, Request.bytesFrom_zero]

theorem finish :
    Flow cfg d splits idx none side moved taken := by
  refine { h with side_ok := nofun, bytes_eq := ?_ }
  rw [← h.bytes_eq, h.uncut_nil hv]
  rfl

theorem take {side' : Side} (hvalid : side'.valid = true) (haddr : side'.addr = d.base req)
    (hlength : side'.length = req.length) (hshift : side'.shift = d.shift cfg req) (hpos : 0 < req.length) :
    Flow cfg d splits idx (some req) side' moved (taken ++ [req]) := by
  refine ⟨fun req' hreq' => ?_, ?_, h.splits_ok, h.idx_zero, h.idx_lt, ?_⟩
  · cases hreq'
    refine ⟨?_, hlength.le, hshift⟩
    rw [haddr, hlength, tsub_self, add_zero, mod_eq_of_lt (d.base_lt req)]
  · rw [hvalid, hlength]
    simpa using hpos.ne'
  · have hbytes := h.bytes_eq
    rw [h.uncut_nil hv, append_nil] at hbytes
    rw [stream_append_singleton, ← hbytes, ← append_assoc]
    simp [uncut, hlength]

end

variable {split : Split}

variable (h : Flow cfg d (split :: rest) idx current side moved taken)
include h

theorem beat :
    Flow cfg d (if idx + 1 = split.numBeats then rest else split :: rest)
      (if idx + 1 = split.numBeats then 0 else idx + 1) current side (moved ++ d.beat cfg split idx) taken := by
  have hok := h.splits_ok split mem_cons_self
  have hlt := h.idx_lt split rest rfl
  have hbytes := h.bytes_eq
  rw [queued_beat hok hlt] at hbytes
  by_cases hlast : idx + 1 = split.numBeats
  · simp only [if_pos hlast] at hbytes ⊢
    refine ⟨h.side_ok, h.valid_eq, fun split' hsplit' => h.splits_ok split' (mem_cons_of_mem _ hsplit'), fun _ => rfl,
      fun split' rest' hcons => ?_, by simpa [append_assoc] using hbytes⟩
    have hok' := h.splits_ok split' (mem_cons_of_mem _ (hcons ▸ mem_cons_self))
    rw [hok'.numBeats]
    exact succ_pos _
  · simp only [if_neg hlast] at hbytes ⊢
    refine ⟨h.side_ok, h.valid_eq, h.splits_ok, nofun, fun split' rest' hcons => ?_, by
      simpa [append_assoc] using hbytes⟩
    cases hcons
    omega

theorem beat_prefix :
    ∃ later, moved ++ (d.beat cfg split idx ++ later) = stream taken := by
  have hbytes := h.bytes_eq
  rw [queued_beat (h.splits_ok split mem_cons_self) (h.idx_lt split rest rfl), append_assoc] at hbytes
  exact ⟨_, hbytes⟩

end Flow

/-! ## Both sides -/

/-- The entry of a byte in the log of a side. -/
def Dir.logged (d : Dir) (b : ReqByte × UInt8) : Nat × UInt8 := (d.addr b.1, b.2)

def laneOf (cfg : Config) (b : ReqByte × UInt8) : Nat × UInt8 := (b.1.2 % cfg.width, b.2)

def held (s : Backend) : List (Nat × UInt8) := s.axi.heldBeat.elim [] Beat.writes

/-- The bytes `sent` have gone through the buffer and the bytes `inside` are in it. -/
structure CopyInv (cfg : Config) (s : Backend) (sent inside : List (ReqByte × UInt8)) : Prop where
  reads : Flow cfg .read (s.rFifo.entries.map (·.split)) s.rBeatIdx s.legalizer.req s.legalizer.r
    ((sent ++ inside).map (·.1)) s.log.taken
  writes : Flow cfg .write (s.wFifo.entries.map (·.split)) s.wBeatIdx s.legalizer.req s.legalizer.w
    (sent.map (·.1)) s.log.taken
  delivered : s.log.delivered = (sent ++ inside).map read.logged
  emitted : s.log.emitted = sent.map write.logged
  holds : Holds cfg.width cfg.bufferDepth s.buffer (inside.map (laneOf cfg))
  coupled : s.legalizer.coupled = true → s.legalizer.rm = some .axi ∧ s.legalizer.wm = some .axi
  words : ∀ slot ∈ s.wFifo.entries, slot.manager = .obi → slot.split.numBeats = 1
  accepted : (s.log.accepted ++ held s).Perm s.log.emitted

section Steps

variable {cfg : Config} {s s' : Backend} {sent inside : List (ReqByte × UInt8)}

theorem init_copy (cfg : Config) : CopyInv cfg (.init cfg) [] [] :=
  ⟨Flow.init cfg .read, Flow.init cfg .write, rfl, rfl, init_holds, nofun, fun _ => nofun, .nil⟩

/-! ## The legalizer -/

theorem sideBytes_small {side : Side} {manager : Manager} (hv : side.valid = true) (burstLen : Nat) :
    sideBytes cfg side manager (cfg.pageSize burstLen) ≤ 4096 ∨
      manager = .obi ∧ side.addr % cfg.width + sideBytes cfg side manager (cfg.pageSize burstLen) ≤ cfg.width := by
  cases manager with
  | axi =>
    left
    have hpage : sidePage cfg burstLen side.reduceLen side.maxLlen ≤ 2 ^ 12 := by
      apply Nat.pow_le_pow_right (by decide)
      split <;> omega
    rw [sideBytes_axi hv]
    omega
  | obi =>
    right
    have hlt := mod_lt side.addr cfg.width_pos
    rw [sideBytes_obi hv]
    exact ⟨rfl, by omega⟩

theorem makeSplit_word (hw : cfg.width ≤ 65536) {side : Side} {bytes : Nat} (hpos : 0 < bytes)
    (h : side.addr % cfg.width + bytes ≤ cfg.width) : (makeSplit cfg req side bytes).numBeats = 1 := by
  have hu16 : u16 (side.addr % cfg.width) = side.addr % cfg.width := mod_eq_of_lt (by omega)
  show u16 (((bytes + u16 (side.addr % cfg.width) - 1) >>> cfg.log2Width) + 1) = 1
  rw [hu16, shiftRight_eq_div_pow, ← cfg.log2Width_spec, div_eq_of_lt (by omega)]
  rfl

section

variable (h : CopyInv cfg s sent inside)
include h

section

variable (hw : cfg.width ≤ 65536) (hreq : s.legalizer.req = some req)
include hw hreq

theorem emitRead_copy {rm : Manager} {bytes token : Nat} (hpos : 0 < bytes) (hle : bytes ≤ s.legalizer.r.length)
    (hsmall : bytes ≤ 4096 ∨ s.legalizer.r.addr % cfg.width + bytes ≤ cfg.width) :
    CopyInv cfg (emitRead cfg req rm bytes token s) sent inside := by
  have hcut := h.reads.cut hw hreq hpos hle hsmall
  refine { h with reads := ?_ }
  simpa [emitRead] using hcut

theorem emitWrite_copy {wm : Manager} {bytes : Nat} (hpos : 0 < bytes) (hle : bytes ≤ s.legalizer.w.length)
    (hsmall : bytes ≤ 4096 ∧ wm = .axi ∨ s.legalizer.w.addr % cfg.width + bytes ≤ cfg.width)
    (he : emitWrite cfg req wm bytes s = some s') : CopyInv cfg s' sent inside := by
  obtain ⟨wlast, axi, obi, hheld, rfl⟩ := emitWrite_cases he
  have hcut := h.writes.cut hw hreq hpos hle (hsmall.imp_left (·.1))
  refine { h with writes := ?_, words := fun slot hslot hobi => ?_, accepted := ?_ }
  · simpa using hcut
  · rw [entries_push, mem_append, mem_singleton] at hslot
    rcases hslot with hslot | rfl
    · exact h.words slot hslot hobi
    · rcases hsmall with ⟨-, haxi⟩ | hword
      · exact absurd (haxi.symm.trans hobi) (by decide)
      · exact makeSplit_word hw hpos hword
  · have haccepted := h.accepted
    unfold held at haccepted ⊢
    rw [hheld]
    exact haccepted

theorem cut_copy {rm wm : Manager} {arReady : Bool} {token : Nat} (hrm : s.legalizer.rm = some rm)
    (hwm : s.legalizer.wm = some wm) (hcut : cut cfg rm wm req arReady token s = some s') :
    CopyInv cfg s' sent inside := by
  have hlen : ∀ {d : Dir} {splits : List Split} {idx : Nat} {side : Side} {moved : List ReqByte},
      Flow cfg d splits idx s.legalizer.req side moved s.log.taken → side.valid = true → 0 < side.length := by
    intro d splits idx side moved hflow hv
    have hvalid := hflow.valid_eq
    rw [hv] at hvalid
    exact Nat.pos_of_ne_zero (of_decide_eq_true hvalid.symm)
  rcases cut_cases hcut with rfl | ⟨bytes, hc, hrv, hwv, hbytes, he⟩ | ⟨-, s₁, hr, he⟩
  · exact h
  · obtain ⟨hraxi, hwaxi⟩ := h.coupled hc
    cases hrm.symm.trans hraxi
    cases hwm.symm.trans hwaxi
    have hrpos := @sideBytes_pos cfg _ .axi hrv (hlen h.reads hrv) cfg.readBurstLen
    have hwpos := @sideBytes_pos cfg _ .axi hwv (hlen h.writes hwv) cfg.writeBurstLen
    have hrle := @sideBytes_le cfg s.legalizer.r .axi (cfg.pageSize cfg.readBurstLen)
    have hwle := @sideBytes_le cfg s.legalizer.w .axi (cfg.pageSize cfg.writeBurstLen)
    have hsmall : sideBytes cfg s.legalizer.r .axi (cfg.pageSize cfg.readBurstLen) ≤ 4096 :=
      (sideBytes_small hrv _).resolve_right (fun hobi => absurd hobi.1 (by decide))
    have h₁ : CopyInv cfg (emitRead cfg req .axi bytes token s) sent inside :=
      emitRead_copy h hw hreq (by omega) (by omega) (.inl (by omega))
    refine emitWrite_copy h₁ hw hreq (by omega) ?_ (.inl ⟨by omega, rfl⟩) he
    show bytes ≤ s.legalizer.w.length
    omega
  · have h₁ : CopyInv cfg s₁ sent inside ∧ s₁.legalizer.req = some req ∧ s₁.legalizer.w = s.legalizer.w := by
      rcases hr with rfl | ⟨hv, rfl⟩
      · exact ⟨h, hreq, rfl⟩
      · exact ⟨emitRead_copy h hw hreq (sideBytes_pos hv (hlen h.reads hv) _) sideBytes_le
          ((sideBytes_small hv _).imp_right (·.2)), hreq, rfl⟩
    obtain ⟨h₁, hreq₁, hside⟩ := h₁
    rcases he with rfl | ⟨hv, he⟩
    · exact h₁
    · rw [← hside] at hv he
      have hpos := hlen (hside ▸ h.writes) hv
      refine emitWrite_copy h₁ hw hreq₁ (sideBytes_pos hv hpos _) sideBytes_le ?_ he
      cases wm with
      | axi => exact .inl ⟨(sideBytes_small hv _).resolve_right (fun hobi => absurd hobi.1 (by decide)), rfl⟩
      | obi =>
        right
        have hlt := mod_lt s₁.legalizer.w.addr cfg.width_pos
        rw [sideBytes_obi hv]
        omega

end

theorem CopyInv.answer (lastTakeCycle : Int) (completed : List Request) :
    CopyInv cfg { s with
      legalizer := { s.legalizer with lastTakeCycle := lastTakeCycle }
      log := { s.log with completed := completed } } sent inside :=
  { h with }

theorem CopyInv.finish (hr : s.legalizer.r.valid = false) (hw : s.legalizer.w.valid = false) :
    CopyInv cfg { s with legalizer := { s.legalizer with req := none } } sent inside :=
  { h with reads := h.reads.finish hr, writes := h.writes.finish hw }

variable (hw : cfg.width ≤ 65536)
include hw

theorem takeRequest_copy {next : Option Request} (hr : s.legalizer.r.valid = false) (hwv : s.legalizer.w.valid = false)
    (ht : takeRequest cfg next s = some s') : CopyInv cfg s' sent inside := by
  have hu16 : ∀ x, u16 (x % cfg.width) = x % cfg.width := fun x => by
    have hlt := mod_lt x cfg.width_pos
    exact mod_eq_of_lt (by omega)
  rcases takeRequest_cases ht with ⟨lastTakeCycle, completed, rfl⟩ | ⟨req, rm, wm, lastTakeCycle, hl, hrm, hwm, rfl⟩
  · exact h.answer lastTakeCycle completed
  · refine { h with reads := ?_, writes := ?_, coupled := fun hc => ?_ }
    · apply h.reads.take hr rfl rfl rfl _ hl
      exact hu16 req.src
    · apply h.writes.take hwv rfl rfl rfl _ hl
      exact hu16 (cfg.width - req.dst % cfg.width)
    · cases rm with
      | axi =>
        cases wm with
        | axi => exact ⟨rfl, rfl⟩
        | obi => simp [Manager.notBursting] at hc
      | obi => simp [Manager.notBursting] at hc

theorem legalizerStep_copy {next : Option Request}
    {arReady : Bool} {token : Nat} (hs : legalizerStep cfg next arReady token s = some s') :
    CopyInv cfg s' sent inside := by
  rcases legalizerStep_cases hs with ⟨hr, hwv, ht⟩ | ⟨req, rm, wm, s₁, -, hreq, hrm, hwm, hcut, hs'⟩
  · exact takeRequest_copy h hw hr hwv ht
  · obtain ⟨lastTakeCycle, completed, hz⟩ := rejectZero_cases next s
    rw [hz] at hcut
    have h₁ := cut_copy (h.answer lastTakeCycle completed) hw hreq hrm hwm hcut
    rcases hs' with rfl | ⟨hr, hwv, ht⟩
    · exact h₁
    · exact takeRequest_copy (h₁.finish hr hwv) hw hr hwv ht

/-! ## Read beats -/

theorem readBeat_copy {manager : Manager} {token : Nat} {bus : Nat → UInt8}
    (hs : readBeat cfg manager token bus s = some s') :
    ∃ more, CopyInv cfg s' sent (inside ++ more) := by
  obtain ⟨slot, rest, he, hcan, rfl⟩ := readBeat_cases hs
  have hreads := h.reads
  rw [he, map_cons] at hreads
  have hok := hreads.splits_ok slot.split mem_cons_self
  have hlt := hreads.idx_lt slot.split _ rfl
  set bytes := beatBytes cfg slot.split s.rBeatIdx with hbytes
  let more : List (ReqByte × UInt8) := bytes.indices.map fun j =>
    ((slot.split.req, pos .read slot.split + (s.rBeatIdx * cfg.width + j - slot.split.offset)), bus j)
  have htags : more.map (·.1) = beat cfg .read slot.split s.rBeatIdx := by
    rw [map_map]; rfl
  have hflow := hreads.beat
  have hpush := push_holds bus slot.split.shift s.now cfg.width_pos h.holds (hok.beat_fits hlt) hcan
  have hlanes : readBytes cfg.width bus slot.split.shift bytes.indices = more.map (laneOf cfg) := by
    rw [map_map]
    apply map_congr_left
    intro j hj
    exact Prod.ext (readLane_of_beat hw hok hlt hj) rfl
  have hlog : bytes.indices.map (fun j => (busAddr cfg slot.split s.rBeatIdx j, bus j)) = more.map read.logged := by
    rw [map_map]
    apply map_congr_left
    intro j hj
    exact Prod.ext (busAddr_of_beat hok hlt hj) rfl
  refine ⟨more, ?_, h.writes, ?_, h.emitted, ?_, h.coupled, h.words, ?_⟩
  · rw [← append_assoc, map_append, htags]
    unfold readBeatAccept
    by_cases hlast : s.rBeatIdx + 1 = slot.split.numBeats
    · simpa [hlast, entries_pop, he] using hflow
    · simpa [hlast, he] using hflow
  · show s.log.delivered ++ bytes.indices.map _ = _
    rw [hlog, h.delivered, ← map_append, append_assoc]
  · rw [map_append, ← hlanes]
    exact hpush
  · have haccepted := h.accepted
    unfold held at haccepted ⊢
    have hheld : (readBeatAccept cfg slot bus s).axi.heldBeat = s.axi.heldBeat := by
      unfold readBeatAccept AxiWrite.onReadFirstBeat
      dsimp only
      split
      · split
        · split
          · rfl
          · rfl
        · rfl
      · rfl
    rw [hheld]
    exact haccepted

end

/-! ## Write beats -/

theorem beatLanes_nodup (hw : cfg.width ≤ 65536) (hok : SplitOk cfg .write split) {k : Nat}
    (hk : k < split.numBeats) : ((beat cfg .write split k).map (·.2 % cfg.width)).Nodup := by
  have hlanes : (beat cfg .write split k).map (·.2 % cfg.width)
      = (beatBytes cfg split k).indices.map (writeLane cfg.width split.shift) := by
    rw [beat, map_map]
    apply map_congr_left
    intro j hj
    rw [Function.comp_apply, writeLane_of_beat hw hok hk hj]
  rw [hlanes]
  exact writeLanes_nodup split.shift _ (hok.beat_fits hk)

/-- The buffer holds all bytes of the next write beat, or is a part of this beat that lacks its last bytes. -/
theorem CopyInv.beat_or_window (h : CopyInv cfg s sent inside) (he : s.wFifo.entries.map (·.split) = split :: rest) :
    (∃ more, inside.map (·.1) = beat cfg .write split s.wBeatIdx ++ more) ∨
      ∃ t ts, beat cfg .write split s.wBeatIdx = inside.map (·.1) ++ t :: ts := by
  have hwrites := h.writes
  rw [he] at hwrites
  obtain ⟨later, hlater⟩ := hwrites.beat_prefix
  have hreads := h.reads.bytes_eq
  rw [map_append, append_assoc, ← hlater] at hreads
  have heq := append_cancel_left hreads
  have hbeat : beat cfg .write split s.wBeatIdx <+: beat cfg .write split s.wBeatIdx ++ later :=
    prefix_append _ _
  rw [← heq] at hbeat
  rcases prefix_or_prefix_of_prefix hbeat (prefix_append _ _) with ⟨more, hmore⟩ | ⟨extra, hextra⟩
  · exact .inl ⟨more, hmore.symm⟩
  · cases extra with
    | nil => exact .inl ⟨[], by rw [append_nil, ← hextra, append_nil]⟩
    | cons t ts => exact .inr ⟨t, ts, hextra.symm⟩

theorem onLane_missing (hw : cfg.width ≤ 65536) (hok : SplitOk cfg .write split) {k : Nat}
    (hk : k < split.numBeats) {t : ReqByte} {ts : List ReqByte}
    (hextra : beat cfg .write split k = inside.map (·.1) ++ t :: ts) :
    onLane (t.2 % cfg.width) (inside.map (laneOf cfg)) = [] := by
  by_contra hne
  have hlane := mem_fst_of_onLane_ne_nil hne
  rw [map_map, mem_map] at hlane
  obtain ⟨b, hb, hblane⟩ := hlane
  have hnd := beatLanes_nodup hw hok hk
  rw [hextra, map_append, nodup_append] at hnd
  apply hnd.2.2 (b.1.2 % cfg.width) _ _ mem_cons_self hblane
  exact mem_map_of_mem (mem_map_of_mem hb)

theorem CopyInv.beat_inside (h : CopyInv cfg s sent inside) (hw : cfg.width ≤ 65536)
    (he : s.wFifo.entries.map (·.split) = split :: rest) {now : Int}
    (hcan : canPop cfg.width (beatBytes cfg split s.wBeatIdx) split.shift now s.buffer = true) :
    ∃ more, inside.map (·.1) = beat cfg .write split s.wBeatIdx ++ more := by
  have hwrites := h.writes
  rw [he] at hwrites
  have hok := hwrites.splits_ok split mem_cons_self
  have hlt := hwrites.idx_lt split rest rfl
  apply (h.beat_or_window he).resolve_right
  rintro ⟨t, ts, hextra⟩
  have hmem : t ∈ beat cfg .write split s.wBeatIdx := hextra ▸ mem_append_right _ mem_cons_self
  obtain ⟨j, hj, rfl⟩ := mem_map.1 hmem
  have hlane := h.holds.available split.shift cfg.width_pos hcan j hj
  rw [writeLane_of_beat hw hok hlt hj] at hlane
  exact hlane (onLane_missing hw hok hlt hextra)

/-- A data beat takes the oldest bytes of the buffer, which are the next ones of the write side. -/
theorem writeBeat_copy (bus : Nat → UInt8) (h : CopyInv cfg s sent inside) (hw : cfg.width ≤ 65536)
    {manager : Manager} {bytes : BeatBytes} (hready : writeBeatReady cfg manager s = some (split, bytes)) :
    ∃ now later, inside = now ++ later ∧
      Flow cfg .write ((writeBeatTake cfg split bytes bus s).1.wFifo.entries.map (·.split))
        (writeBeatTake cfg split bytes bus s).1.wBeatIdx s.legalizer.req s.legalizer.w ((sent ++ now).map (·.1))
        s.log.taken ∧
      Holds cfg.width cfg.bufferDepth (writeBeatTake cfg split bytes bus s).1.buffer (later.map (laneOf cfg)) ∧
      bytes.indices.map (fun j => (busAddr cfg split s.wBeatIdx j, (writeBeatTake cfg split bytes bus s).2 j))
        = now.map write.logged := by
  obtain ⟨rest, he, rfl, hcan⟩ := writeBeatReady_cases hready
  have he' : s.wFifo.entries.map (·.split) = split :: rest.map (·.split) := by rw [he, map_cons]
  obtain ⟨more, hmore⟩ := h.beat_inside hw he' hcan
  have hwrites := h.writes
  rw [he'] at hwrites
  have hok := hwrites.splits_ok split mem_cons_self
  have hlt := hwrites.idx_lt split _ rfl
  set bytes := beatBytes cfg split s.wBeatIdx with hbytes
  set n := (beat cfg .write split s.wBeatIdx).length with hn
  have htags : (inside.take n).map (·.1) = beat cfg .write split s.wBeatIdx := by
    rw [map_take, hmore, hn, take_left]
  obtain ⟨val, hval⟩ := exists_eq_map_range' (fun j =>
    (split.req, pos .write split + (s.wBeatIdx * cfg.width + j - split.offset))) htags
  have hwin : inside.map (laneOf cfg)
      = writeBytes cfg.width val split.shift bytes.indices ++ (inside.drop n).map (laneOf cfg) := by
    have hlanes : (inside.take n).map (laneOf cfg) = writeBytes cfg.width val split.shift bytes.indices := by
      rw [hval, map_map]
      apply map_congr_left
      intro j hj
      exact Prod.ext (writeLane_of_beat hw hok hlt hj).symm rfl
    rw [← hlanes, ← map_append, take_append_drop]
  have hholds := h.holds
  rw [hwin] at hholds
  obtain ⟨hrest, hbus⟩ := pop_holds split.shift cfg.width_pos (hok.beat_fits hlt) bus hholds
  refine ⟨inside.take n, inside.drop n, (take_append_drop n inside).symm, ?_, hrest, ?_⟩
  · have hflow := hwrites.beat
    rw [map_append, htags]
    unfold writeBeatTake
    by_cases hlast : s.wBeatIdx + 1 = split.numBeats
    · simpa [hlast, entries_pop, he] using hflow
    · simpa [hlast, he] using hflow
  · rw [hval, map_map]
    apply map_congr_left
    intro j hj
    exact Prod.ext (busAddr_of_beat hok hlt hj) (hbus j hj)

theorem busAddr_add (split : Split) (k j i : Nat) :
    busAddr cfg split k (j + i) = (busAddr cfg split k j + i) % addrSpace := by
  unfold busAddr
  rw [mod_add_mod, add_assoc _ j i]

theorem writes_eq (bytes : BeatBytes) (split : Split) (k : Nat) (bus : Nat → UInt8) :
    ((range bytes.count).map fun i =>
      ((busAddr cfg split k bytes.first + i) % addrSpace, bus (bytes.first + i)))
      = bytes.indices.map fun j => (busAddr cfg split k j, bus j) := by
  rw [BeatBytes.indices, range'_eq_map_range, map_map]
  apply map_congr_left
  intro i _
  rw [Function.comp_apply, busAddr_add]

theorem words_writeBeatTake {bytes : BeatBytes} {bus : Nat → UInt8}
    (h : ∀ slot ∈ s.wFifo.entries, slot.manager = .obi → slot.split.numBeats = 1) :
    ∀ slot ∈ (writeBeatTake cfg split bytes bus s).1.wFifo.entries, slot.manager = .obi → slot.split.numBeats = 1 := by
  intro slot hslot
  apply h slot
  unfold writeBeatTake at hslot
  dsimp only at hslot
  split at hslot
  · rw [entries_pop] at hslot
    exact mem_of_mem_tail hslot
  · exact hslot

theorem axiTick_copy (h : CopyInv cfg s sent inside) (hw : cfg.width ≤ 65536) {status : ReqStatus}
    (hs : axiTick cfg status s = some s') : ∃ sent' inside', CopyInv cfg s' sent' inside' := by
  obtain ⟨split, bytes, slot, ctxs, dataQueue, isLast, hheld, hready, hsend⟩ := axiTick_cases hs
  obtain ⟨now, later, rfl, hflow, hholds, hlog⟩ := writeBeat_copy (fun _ => 0) h hw hready
  rw [← writes_eq] at hlog
  have hreads := h.reads
  have hdelivered := h.delivered
  rw [← append_assoc] at hreads hdelivered
  have hwords := @words_writeBeatTake cfg s split bytes (fun _ => 0) h.words
  have hemitted : s.log.emitted ++ now.map write.logged = (sent ++ now).map write.logged := by
    rw [h.emitted, map_append]
  have haccepted : (s.log.accepted ++ now.map write.logged).Perm
      (s.log.emitted ++ now.map write.logged) := by
    have hperm := h.accepted
    rw [held, hheld, Option.elim, append_nil] at hperm
    exact hperm.append_right _
  rw [← hlog] at hemitted haccepted
  rcases sendBeat_cases hsend with rfl | ⟨wlast, completed, ctxs', freeCtxs, rfl⟩
  · exact ⟨sent ++ now, later, hreads, hflow, hdelivered, hemitted, hholds, h.coupled, hwords, haccepted⟩
  · refine ⟨sent ++ now, later, hreads, hflow, hdelivered, hemitted, hholds, h.coupled, hwords, ?_⟩
    unfold held
    rw [hheld, Option.elim, append_nil]
    exact haccepted

theorem obiIssueWord_copy (h : CopyInv cfg s sent inside) (hw : cfg.width ≤ 65536)
    (hs : obiIssueWord cfg s = some s') : ∃ sent' inside', CopyInv cfg s' sent' inside' := by
  obtain ⟨split, bytes, obi, hready, rfl⟩ := obiIssueWord_cases hs
  obtain ⟨now, later, rfl, hflow, hholds, hlog⟩ := writeBeat_copy (fun _ => 0) h hw hready
  have hreads := h.reads
  have hdelivered := h.delivered
  rw [← append_assoc] at hreads hdelivered
  have hwords := @words_writeBeatTake cfg s split bytes (fun _ => 0) h.words
  -- a word is the only beat of its split
  obtain ⟨rest, he, -, -⟩ := writeBeatReady_cases hready
  have hidx : s.wBeatIdx = 0 := by
    have hone := h.words ⟨split, .obi⟩ (he ▸ mem_cons_self) rfl
    have hlt := h.writes.idx_lt split (rest.map (·.split)) (by rw [he, map_cons])
    have hone : split.numBeats = 1 := hone
    omega
  have haddr : busAddr cfg split s.wBeatIdx bytes.first = (alignDown cfg split.addr + bytes.first) % addrSpace := by
    rw [hidx, busAddr, zero_mul, add_zero]
  rw [← writes_eq] at hlog
  simp only [haddr, mod_add_mod] at hlog
  have hemitted : s.log.emitted ++ now.map write.logged = (sent ++ now).map write.logged := by
    rw [h.emitted, map_append]
  have haccepted : (s.log.accepted ++ now.map write.logged ++ held s).Perm
      (s.log.emitted ++ now.map write.logged) := by
    have hperm := h.accepted.append_right (now.map write.logged)
    rw [append_assoc] at hperm ⊢
    exact (perm_append_comm.append_left _).trans hperm
  rw [← hlog] at hemitted haccepted
  exact ⟨sent ++ now, later, hreads, hflow, hdelivered, hemitted, hholds, h.coupled, hwords, haccepted⟩

theorem axiRetry_copy (h : CopyInv cfg s sent inside) {status : ReqStatus} (hs : axiRetry status s = some s') :
    CopyInv cfg s' sent inside := by
  obtain ⟨beat, hheld, hsend⟩ := axiRetry_cases hs
  have haccepted := h.accepted
  rw [held, hheld, Option.elim] at haccepted
  rcases sendBeat_cases hsend with rfl | ⟨wlast, completed, ctxs, freeCtxs, rfl⟩
  · exact { h with accepted := haccepted }
  · refine { h with accepted := ?_ }
    show Perm ((s.log.accepted ++ beat.writes) ++ []) s.log.emitted
    rw [append_nil]
    exact haccepted

theorem step_copy (hw : cfg.width ≤ 65536) (s : Backend) (e : Event) (s' : Backend)
    (h : ∃ sent inside, CopyInv cfg s sent inside) (hs : step cfg s e = some s') :
    ∃ sent inside, CopyInv cfg s' sent inside := by
  obtain ⟨sent, inside, h⟩ := h
  cases e with
  | legalizer next arReady token => exact ⟨sent, inside, legalizerStep_copy h hw hs⟩
  | readBeat manager token bus =>
    obtain ⟨more, h'⟩ := readBeat_copy h hw hs
    exact ⟨sent, inside ++ more, h'⟩
  | axiTick status => exact axiTick_copy h hw hs
  | axiRetry status => exact ⟨sent, inside, axiRetry_copy h hs⟩
  | axiAck slot =>
    obtain ⟨wlast, completed, ctxs, freeCtxs, rfl⟩ := axiAck_cases hs
    exact ⟨sent, inside, { h with }⟩
  | obiIssueWord => exact obiIssueWord_copy h hw hs
  | obiWordDone =>
    obtain ⟨wlast, completed, nbInUse, rfl⟩ := obiWordDone_cases hs
    exact ⟨sent, inside, { h with }⟩
  | cycle =>
    cases hs
    exact ⟨sent, inside, { h with }⟩

end Steps

/-! ## Correctness -/

structure CopyCorrect (cfg : Config) (s : Backend) : Prop where
  /-- The bytes delivered are the source bytes of the requests, in order. -/
  delivered : s.log.delivered.map (·.1) <+: (stream s.log.taken).map read.addr
  /-- The bytes sent are the destination bytes of the requests, in order: each once, and none outside. -/
  emitted : s.log.emitted.map (·.1) <+: (stream s.log.taken).map write.addr
  /-- Each byte is sent with the value delivered for it. -/
  values : s.log.emitted.map (·.2) <+: s.log.delivered.map (·.2)
  /-- When no write burst is left, all bytes have been sent. -/
  complete : s.legalizer.w.valid = false → s.wFifo.entries = [] →
    s.log.emitted.map (·.1) = (stream s.log.taken).map write.addr
  /-- The write buses take each byte sent once, but for the beat that is held. -/
  accepted : (s.log.accepted ++ held s).Perm s.log.emitted
  /-- A lane holds the bytes of its positions that are delivered and not yet sent, request after request. -/
  lanes : ∀ i < cfg.width, s.buffer.laneBytes cfg.bufferDepth i =
    onLane i ((((stream s.log.taken).zip (s.log.delivered.map (·.2))).drop s.log.emitted.length).map (laneOf cfg))

theorem CopyInv.correct {cfg : Config} {s : Backend} {sent inside : List (ReqByte × UInt8)}
    (h : CopyInv cfg s sent inside) : CopyCorrect cfg s := by
  have hreads := h.reads.bytes_eq
  have hwrites := h.writes.bytes_eq
  have haddr : ∀ (d : Dir) (l : List (ReqByte × UInt8)), (l.map d.logged).map (·.1) = (l.map (·.1)).map d.addr := by
    intro d l
    rw [map_map, map_map]
    rfl
  have hval : ∀ (d : Dir) (l : List (ReqByte × UInt8)), (l.map d.logged).map (·.2) = l.map (·.2) := by
    intro d l
    rw [map_map]
    rfl
  refine ⟨?_, ?_, ?_, fun hv hnil => ?_, h.accepted, fun i hi => ?_⟩
  · rw [h.delivered, haddr, ← hreads]
    exact (prefix_append _ _).map _
  · rw [h.emitted, haddr, ← hwrites]
    exact (prefix_append _ _).map _
  · rw [h.emitted, h.delivered, hval, hval, map_append]
    exact prefix_append _ _
  · rw [h.emitted, haddr, ← hwrites, h.writes.uncut_nil hv, hnil]
    simp [queued]
  · have hzip : (stream s.log.taken).zip (s.log.delivered.map (·.2)) = sent ++ inside := by
      rw [← hreads, h.delivered, hval, ← append_nil ((sent ++ inside).map (·.2)),
        zip_append (by simp), zip_nil_right, append_nil, ← unzip_fst, ← unzip_snd,
        zip_unzip]
    rw [hzip, h.emitted, length_map, drop_left]
    exact h.holds.lane_eq i hi

/-- **The copy is right** in every state of every run, on buses of up to 64 KiB. -/
theorem copy_correct (cfg : Config) (hw : cfg.width ≤ 65536) (es : List Event) (s : Backend)
    (hrun : run (step cfg) (.init cfg) es = some s) : CopyCorrect cfg s := by
  obtain ⟨sent, inside, h⟩ := run_invariant (step_copy hw) ⟨[], [], init_copy cfg⟩ hrun
  exact h.correct

/-- A back-end that reads from AXI and writes to OBI on a bus of four bytes. -/
def narrowDma : Config where
  width := 4
  numAxInFlight := 2
  bufferDepth := 3
  metaFifoDepth := 0
  rawCoupling := false
  readBurstLen := 5
  writeBurstLen := 5
  obiAwFifoDepth := 2
  axiRead := true
  obiRead := false
  axiWrite := false
  obiWrite := true
  width_pow := ⟨2, rfl⟩
  coupling_axi := nofun

/-- Five bytes from address 1 to address 6: two read beats, two words written. -/
def shiftedCopy : List Event :=
  [.legalizer (some { src := 1, dst := 6, length := 5, dstProt := .obi }) true 0, .cycle, .legalizer none true 0,
    .cycle, .legalizer none true 1, .readBeat .axi 0 (fun j => UInt8.ofNat (10 + j)), .cycle,
    .readBeat .axi 0 (fun j => UInt8.ofNat (20 + j)), .cycle, .obiIssueWord, .cycle, .obiIssueWord]

theorem copy_correct_narrowDma : ∃ s, run (step narrowDma) (.init narrowDma) shiftedCopy = some s ∧
    s.log.emitted.map (·.1) = [6, 7, 8, 9, 10] := by
  obtain ⟨s, hrun, hs⟩ := (Option.any_eq_true (fun s : Backend => decide
    (s.legalizer.w.valid = false ∧ s.wFifo.entries = [] ∧ (stream s.log.taken).map write.addr = [6, 7, 8, 9, 10])) _).1
    (show (run (step narrowDma) (.init narrowDma) shiftedCopy).any _ = true by decide +kernel)
  obtain ⟨hv, hnil, hstream⟩ := of_decide_eq_true hs
  exact ⟨s, hrun, ((copy_correct narrowDma (by decide) _ s hrun).complete hv hnil).trans hstream⟩

/-- The default Snitch DMA on a bus of 128 KiB. -/
def wideDma : Config := { snitchDma with
  width := 131072
  width_pow := ⟨17, rfl⟩ }

/-- A copy of one byte at address 65536 of source and destination. -/
def wideCopy : List Event :=
  [.legalizer (some { src := 65536, dst := 65536, length := 1 }) true 0, .cycle, .legalizer none true 0, .cycle,
    .readBeat .axi 0 (fun _ => 1), .cycle, .axiTick .granted]

/-- The offset 65536 of the byte in its bus word does not fit the `uint16_t` field: the byte is written to address 0. -/
theorem copy_wide : ∃ s, run (step wideDma) (.init wideDma) wideCopy = some s ∧ ¬ CopyCorrect wideDma s := by
  obtain ⟨s, hrun, hs⟩ := (Option.any_eq_true (fun s : Backend => decide (s.log.emitted.map (·.1) = [0] ∧
    (stream s.log.taken).map write.addr = [65536])) _).1
    (show (run (step wideDma) (.init wideDma) wideCopy).any _ = true by decide +kernel)
  obtain ⟨hemitted, hstream⟩ := of_decide_eq_true hs
  refine ⟨s, hrun, fun hcorrect => ?_⟩
  have hprefix := hcorrect.emitted
  rw [hemitted, hstream] at hprefix
  exact absurd hprefix (by decide)

end GvsocPulp.IdmaV3
