import GvsocPulp.IdmaV3.Splits
import GvsocPulp.IdmaV3.Copy

/-!
# Runs of the legalizer

The back-end with the splits that its legalizer emits for each request it takes (`Observed`).

- `cut_spec`: what one evaluation cuts off the two sides;
- `Current`, `Done`: how far the current request is cut, and that the ones before it are cut completely;
- `splits_exact`: in every state of a run on buses of up to 64 KiB, the splits of each side are legal and cover the
  bytes of each request in order, in equal lengths where the sides are coupled, and an evaluation that finds room emits
  a split.
-/

namespace GvsocPulp.IdmaV3

open Lib List Nat IdmaV3

variable {rm wm : Manager} {lastTakeCycle : Int} {e : Event}

def Legalizer.side (lg : Legalizer) : Dir → Side
  | .read => lg.r
  | .write => lg.w

variable {cfg : Config} {d : Dir} {req : Request} {side : Side}

/-! ## One evaluation -/

/-- The sides of a request go together. -/
def coupled (cfg : Config) (req : Request) : Bool :=
  !req.decoupleRw && ((cfg.readManager req.srcProt).all fun m => !m.notBursting) &&
    (cfg.writeManager req.dstProt).all fun m => !m.notBursting

variable {arReady : Bool} {token : Nat} {s : Backend}

/-- One evaluation cuts `rb` bytes off the read side and `wb` bytes off the write side, if any. -/
theorem cut_spec {s' : Backend} (h : cut cfg rm wm req arReady token s = some s') : ∃ rb wb : Option Nat,
    s'.rFifo.entries = s.rFifo.entries ++ rb.toList.map (fun b => ⟨makeSplit cfg req s.legalizer.r b, rm, token⟩) ∧
    s'.wFifo.entries = s.wFifo.entries ++ wb.toList.map (fun b => ⟨makeSplit cfg req s.legalizer.w b, wm⟩) ∧
    s'.legalizer = { s.legalizer with
      r := rb.elim s.legalizer.r s.legalizer.r.advance, w := wb.elim s.legalizer.w s.legalizer.w.advance } ∧
    s'.log.taken = s.log.taken ∧
    (s.legalizer.coupled = true → rb = none ∧ wb = none ∨ ∃ b, rb = some b ∧ wb = some b ∧
      s.legalizer.r.valid = true ∧ s.legalizer.w.valid = true ∧
      b = min (sideBytes cfg s.legalizer.r rm (cfg.pageSize cfg.readBurstLen))
        (sideBytes cfg s.legalizer.w wm (cfg.pageSize cfg.writeBurstLen))) ∧
    (s.legalizer.coupled = false →
      (∀ b, rb = some b → s.legalizer.r.valid = true ∧
        b = sideBytes cfg s.legalizer.r rm (cfg.pageSize cfg.readBurstLen)) ∧
      ∀ b, wb = some b → s.legalizer.w.valid = true ∧
        b = sideBytes cfg s.legalizer.w wm (cfg.pageSize cfg.writeBurstLen)) := by
  rcases cut_cases h with rfl | ⟨bytes, hc, hrv, hwv, hbytes, he⟩ | ⟨hc, s₁, hr, he⟩
  · exact ⟨none, none, by simp, by simp, rfl, rfl, fun _ => .inl ⟨rfl, rfl⟩, fun _ => ⟨nofun, nofun⟩⟩
  · obtain ⟨wlast, axi, obi, -, rfl⟩ := emitWrite_cases he
    refine ⟨some bytes, some bytes, ?_, ?_, rfl, rfl, fun _ => .inr ⟨bytes, rfl, rfl, hrv, hwv, hbytes⟩, ?_⟩
    · simp [emitRead]
    · simp [emitRead]
    · intro hnot
      rw [hc] at hnot
      cases hnot
  · rcases hr with rfl | ⟨hrv, rfl⟩ <;> rcases he with rfl | ⟨hwv, he⟩
    · exact ⟨none, none, by simp, by simp, rfl, rfl, fun _ => .inl ⟨rfl, rfl⟩, fun _ => ⟨nofun, nofun⟩⟩
    · obtain ⟨wlast, axi, obi, -, rfl⟩ := emitWrite_cases he
      refine ⟨none, some _, by simp, by simp, rfl, rfl, fun hnot => ?_, fun _ => ⟨nofun, fun b hb => ?_⟩⟩
      · rw [hc] at hnot
        cases hnot
      · cases hb
        exact ⟨hwv, rfl⟩
    · refine ⟨some _, none, by simp [emitRead], by simp [emitRead], rfl, rfl, fun hnot => ?_,
        fun _ => ⟨fun b hb => ?_, nofun⟩⟩
      · rw [hc] at hnot
        cases hnot
      · cases hb
        exact ⟨hrv, rfl⟩
    · obtain ⟨wlast, axi, obi, -, rfl⟩ := emitWrite_cases he
      refine ⟨some _, some _, by simp [emitRead], by simp [emitRead], rfl, rfl, fun hnot => ?_,
        fun _ => ⟨fun b hb => ?_, fun b hb => ?_⟩⟩
      · rw [hc] at hnot
        cases hnot
      · cases hb
        exact ⟨hrv, rfl⟩
      · cases hb
        exact ⟨hwv, rfl⟩

/-! ## How far a request is cut -/

/-- The splits cover the first `q` bytes of the transfer. -/
structure CutTo (cfg : Config) (d : Dir) (req : Request) (splits : List Split) (q : Nat) : Prop where
  tiles : Tiles d req 0 splits q
  legal : ∀ split ∈ splits, LegalSplit cfg d split

structure SideStands (cfg : Config) (d : Dir) (req : Request) (side : Side) (splits : List Split) : Prop where
  ok : SideOk cfg d req side
  valid : side.valid = decide (side.length ≠ 0)
  reduceLen : side.reduceLen = d.reduceLen req
  maxLlen : side.maxLlen = d.maxLlen req
  cutTo : CutTo cfg d req splits (req.length - side.length)

theorem SideStands.length_pos {splits : List Split} (h : SideStands cfg d req side splits) (hv : side.valid = true) :
    0 < side.length := by
  have hvalid := h.valid
  rw [hv] at hvalid
  exact Nat.pos_of_ne_zero (of_decide_eq_true hvalid.symm)

theorem SideStands.length_zero {splits : List Split} (h : SideStands cfg d req side splits) (hv : side.valid = false) :
    side.length = 0 := by
  have hvalid := h.valid
  rw [hv] at hvalid
  simpa using hvalid

theorem SideStands.cut {splits : List Split} (h : SideStands cfg d req side splits) (hw : cfg.width ≤ 65536)
    (hv : side.valid = true) {m : Manager} (hm : d.manager cfg req = some m) {bytes : Nat} (hpos : 0 < bytes)
    (hle : bytes ≤ sideBytes cfg side m (cfg.pageSize (d.burstLen cfg))) :
    SideStands cfg d req (side.advance bytes) (splits ++ [makeSplit cfg req side bytes]) := by
  have hlen : bytes ≤ side.length := hle.trans sideBytes_le
  have hreq := h.ok.le
  have hlegal := makeSplit_legal hw h.ok hv h.reduceLen h.maxLlen hm hpos hle
  refine ⟨h.ok.advance hlen, rfl, h.reduceLen, h.maxLlen, ?_, ?_⟩
  · have htiles : Tiles d req 0 (splits ++ [makeSplit cfg req side bytes]) (req.length - side.length + bytes) :=
      h.cutTo.tiles.append rfl h.ok.addr hpos (by
        show decide (side.length = bytes) = decide (req.length - side.length + bytes = req.length)
        rw [decide_eq_decide]
        omega)
    have hq : req.length - (side.advance bytes).length = req.length - side.length + bytes := by
      show req.length - (side.length - bytes) = _
      omega
    rw [hq]
    exact htiles
  · intro split hsplit
    rcases mem_append.1 hsplit with hsplit | hsplit
    · exact h.cutTo.legal split hsplit
    · rw [mem_singleton.1 hsplit]
      exact hlegal

structure Done (cfg : Config) (req : Request) (splits : Dir → List Split) : Prop where
  cutTo : ∀ d, CutTo cfg d req (splits d) req.length
  paired : coupled cfg req = true → (splits .read).map (·.numBytes) = (splits .write).map (·.numBytes)

structure Current (cfg : Config) (lg : Legalizer) (req : Request) (splits : Dir → List Split) : Prop where
  sides : ∀ d, SideStands cfg d req (lg.side d) (splits d)
  managers : ∃ rm wm, cfg.readManager req.srcProt = some rm ∧ cfg.writeManager req.dstProt = some wm ∧
    lg.rm = some rm ∧ lg.wm = some wm
  coupled : lg.coupled = coupled cfg req
  paired : IdmaV3.coupled cfg req = true → lg.r.length = lg.w.length ∧
    (splits .read).map (·.numBytes) = (splits .write).map (·.numBytes)
  req : lg.r.valid = true ∨ lg.w.valid = true → lg.req = some req

namespace Current

variable {lg : Legalizer} {splits : Dir → List Split}

theorem done (h : Current cfg lg req splits) (hr : lg.r.valid = false) (hw : lg.w.valid = false) :
    Done cfg req splits := by
  refine ⟨fun d => ?_, fun hc => (h.paired hc).2⟩
  have hcut := (h.sides d).cutTo
  have hzero : (lg.side d).length = 0 := by
    cases d with
    | read => exact (h.sides .read).length_zero hr
    | write => exact (h.sides .write).length_zero hw
  rwa [hzero, Nat.sub_zero] at hcut

theorem cut (h : Current cfg lg req splits) (hw : cfg.width ≤ 65536) (hrm : lg.rm = some rm)
    (hwm : lg.wm = some wm) {rb wb : Option Nat}
    (hcoupled : lg.coupled = true → rb = none ∧ wb = none ∨ ∃ b, rb = some b ∧ wb = some b ∧ lg.r.valid = true ∧
      lg.w.valid = true ∧ b = min (sideBytes cfg lg.r rm (cfg.pageSize cfg.readBurstLen))
        (sideBytes cfg lg.w wm (cfg.pageSize cfg.writeBurstLen)))
    (hfree : lg.coupled = false →
      (∀ b, rb = some b → lg.r.valid = true ∧ b = sideBytes cfg lg.r rm (cfg.pageSize cfg.readBurstLen)) ∧
      ∀ b, wb = some b → lg.w.valid = true ∧ b = sideBytes cfg lg.w wm (cfg.pageSize cfg.writeBurstLen)) :
    Current cfg { lg with r := rb.elim lg.r lg.r.advance, w := wb.elim lg.w lg.w.advance } req
      (fun
        | .read => splits .read ++ rb.toList.map (makeSplit cfg req lg.r)
        | .write => splits .write ++ wb.toList.map (makeSplit cfg req lg.w)) := by
  obtain ⟨rm', wm', hrm', hwm', hlrm, hlwm⟩ := h.managers
  cases hrm.symm.trans hlrm
  cases hwm.symm.trans hlwm
  have hrpos : lg.r.valid = true → 0 < sideBytes cfg lg.r rm (cfg.pageSize cfg.readBurstLen) :=
    fun hv => sideBytes_pos hv ((h.sides .read).length_pos hv) _
  have hwpos : lg.w.valid = true → 0 < sideBytes cfg lg.w wm (cfg.pageSize cfg.writeBurstLen) :=
    fun hv => sideBytes_pos hv ((h.sides .write).length_pos hv) _
  -- what is cut off a side, coupled or not
  have hr : ∀ b, rb = some b → lg.r.valid = true ∧ 0 < b ∧
    b ≤ sideBytes cfg lg.r rm (cfg.pageSize cfg.readBurstLen) := by
    intro b hb
    cases hc : lg.coupled with
    | true =>
      rcases hcoupled hc with ⟨hnone, -⟩ | ⟨b', hb', -, hrv, hwv, hmin⟩
      · rw [hnone] at hb
        cases hb
      · cases hb.symm.trans hb'
        have := hrpos hrv
        have := hwpos hwv
        exact ⟨hrv, by omega, by omega⟩
    | false =>
      obtain ⟨hrv, heq⟩ := (hfree hc).1 b hb
      have := hrpos hrv
      exact ⟨hrv, by omega, by omega⟩
  have hw' : ∀ b, wb = some b → lg.w.valid = true ∧ 0 < b ∧
    b ≤ sideBytes cfg lg.w wm (cfg.pageSize cfg.writeBurstLen) := by
    intro b hb
    cases hc : lg.coupled with
    | true =>
      rcases hcoupled hc with ⟨-, hnone⟩ | ⟨b', -, hb', hrv, hwv, hmin⟩
      · rw [hnone] at hb
        cases hb
      · cases hb.symm.trans hb'
        have := hrpos hrv
        have := hwpos hwv
        exact ⟨hwv, by omega, by omega⟩
    | false =>
      obtain ⟨hwv, heq⟩ := (hfree hc).2 b hb
      have := hwpos hwv
      exact ⟨hwv, by omega, by omega⟩
  refine ⟨fun d => ?_, ⟨rm, wm, hrm', hwm', hlrm, hlwm⟩, h.coupled, fun hc => ?_, fun hv => h.req ?_⟩
  · cases d with
    | read =>
      cases rb with
      | none => simpa [Legalizer.side] using h.sides .read
      | some b =>
        obtain ⟨hrv, hpos, hle⟩ := hr b rfl
        exact (h.sides .read).cut hw hrv hrm' hpos hle
    | write =>
      cases wb with
      | none => simpa [Legalizer.side] using h.sides .write
      | some b =>
        obtain ⟨hwv, hpos, hle⟩ := hw' b rfl
        exact (h.sides .write).cut hw hwv hwm' hpos hle
  · obtain ⟨hlen, hmap⟩ := h.paired hc
    rcases hcoupled (h.coupled.trans hc) with ⟨rfl, rfl⟩ | ⟨b, rfl, rfl, -⟩
    · simpa using ⟨hlen, hmap⟩
    · refine ⟨?_, ?_⟩
      · show lg.r.length - b = lg.w.length - b
        rw [hlen]
      · simp only [Option.toList_some, map_append, hmap, map_cons, map_nil]
        rfl
  · -- a side that still has bytes had some before
    rcases hv with hv | hv
    · cases rb with
      | none => exact .inl hv
      | some b => exact .inl (hr b rfl).1
    · cases wb with
      | none => exact .inr hv
      | some b => exact .inr (hw' b rfl).1

theorem take (hw : cfg.width ≤ 65536) (hpos : 0 < req.length)
    (hrm : cfg.readManager req.srcProt = some rm) (hwm : cfg.writeManager req.dstProt = some wm) :
    Current cfg
      { r := ⟨true, req.src, req.length, u16 (req.src % cfg.width), req.srcReduceLen, req.srcMaxLlen⟩
        w := ⟨true, req.dst, req.length, u16 ((cfg.width - req.dst % cfg.width) % cfg.width), req.dstReduceLen,
          req.dstMaxLlen⟩
        req := some req
        rm := some rm
        wm := some wm
        coupled := !req.decoupleRw && !rm.notBursting && !wm.notBursting
        lastTakeCycle := lastTakeCycle } req fun _ => [] := by
  have hu16 : ∀ x, u16 (x % cfg.width) = x % cfg.width := by
    intro x
    have hlt := mod_lt x cfg.width_pos
    exact mod_eq_of_lt (by omega)
  have hvalid : true = decide (req.length ≠ 0) := by simpa using hpos.ne'
  refine ⟨fun d => ?_, ⟨rm, wm, hrm, hwm, rfl, rfl⟩, ?_, fun _ => ⟨rfl, rfl⟩, fun _ => rfl⟩
  · cases d with
    | read =>
      refine ⟨⟨?_, le_rfl, hu16 _⟩, hvalid, rfl, rfl, ?_⟩
      · show req.src = (req.src + (req.length - req.length)) % addrSpace
        rw [tsub_self, add_zero, mod_eq_of_lt req.src_lt]
      · show CutTo cfg .read req [] (req.length - req.length)
        rw [tsub_self]
        exact ⟨.nil 0, fun _ => nofun⟩
    | write =>
      refine ⟨⟨?_, le_rfl, hu16 _⟩, hvalid, rfl, rfl, ?_⟩
      · show req.dst = (req.dst + (req.length - req.length)) % addrSpace
        rw [tsub_self, add_zero, mod_eq_of_lt req.dst_lt]
      · show CutTo cfg .write req [] (req.length - req.length)
        rw [tsub_self]
        exact ⟨.nil 0, fun _ => nofun⟩
  · simp [IdmaV3.coupled, hrm, hwm]

end Current

/-! ## The splits of a run -/

/-- The back-end, with the splits of the two sides; a split is tagged with the place of its request among those taken.
-/
structure Observed where
  s : Backend
  emitted : Dir → List (Nat × Split) := fun _ => []

/-- What an evaluation pushed to the FIFO of a side. -/
def newSplits (s s' : Backend) : Dir → List Split
  | .read => (s'.rFifo.entries.drop s.rFifo.entries.length).map (·.split)
  | .write => (s'.wFifo.entries.drop s.wFifo.entries.length).map (·.split)

namespace Observed

def step (cfg : Config) (o : Observed) (e : Event) : Option Observed :=
  (IdmaV3.step cfg o.s e).map fun s' =>
    match e with
    | .legalizer .. => ⟨s', fun d => o.emitted d ++ (newSplits o.s s' d).map fun split =>
        (o.s.log.taken.length - 1, split)⟩
    | _ => ⟨s', o.emitted⟩

def splits (o : Observed) (i : Nat) (d : Dir) : List Split := onLane i (o.emitted d)

def Complete (o : Observed) (i : Nat) (d : Dir) : Prop := i + 1 < o.s.log.taken.length ∨
    (o.s.legalizer.side d).valid = false

/-- The FIFOs and the address channels take what the legalizer may emit. -/
def Room (cfg : Config) (s : Backend) (arReady : Bool) : Prop :=
  (s.legalizer.r.valid = true → s.rFifo.canPush cfg.numAxInFlight s.now = true ∧ arReady = true) ∧
  (s.legalizer.w.valid = true → s.wFifo.canPush cfg.numAxInFlight s.now = true ∧
    s.wlast.canPush cfg.wlastDepth s.now = true ∧ ∀ wm, s.legalizer.wm = some wm → awReady cfg s wm = true)

structure Exact (cfg : Config) (o : Observed) : Prop where
  cut : ∀ (i : Nat) (req : Request), o.s.log.taken[i]? = some req → ∀ d, ∃ q ≤ req.length,
    CutTo cfg d req (o.splits i d) q ∧ (o.Complete i d → q = req.length)
  last : ∀ (i : Nat) (req : Request), o.s.log.taken[i]? = some req → ∀ (k : Nat) (split : Split),
    (o.splits i .write)[k]? = some split →
    (split.last = true ↔ k + 1 = (o.splits i .write).length ∧ o.Complete i .write)
  paired : ∀ (i : Nat) (req : Request), o.s.log.taken[i]? = some req → coupled cfg req = true →
    (o.splits i .read).map (·.numBytes) = (o.splits i .write).map (·.numBytes)
  bounded : ∀ (i : Nat) (req : Request), o.s.log.taken[i]? = some req → ∀ d, (o.splits i d).length ≤ req.length
  /-- An evaluation that finds room emits a split. -/
  emits : ∀ (next : Option Request) (arReady : Bool) (token : Nat) (s' : Backend),
    o.s.legalizer.r.valid = true ∨ o.s.legalizer.w.valid = true → Room cfg o.s arReady →
    legalizerStep cfg next arReady token o.s = some s' → ∃ d, newSplits o.s s' d ≠ []

/-- The requests before the last one are done, and the last one is that of the legalizer. -/
structure Inv (cfg : Config) (o : Observed) : Prop where
  tags : ∀ d, ∀ x ∈ o.emitted d, x.1 < o.s.log.taken.length
  earlier : ∀ (i : Nat) (req : Request), o.s.log.taken[i]? = some req → i + 1 < o.s.log.taken.length →
    Done cfg req (o.splits i)
  current : ∀ (i : Nat) (req : Request), o.s.log.taken[i]? = some req → i + 1 = o.s.log.taken.length →
    Current cfg o.s.legalizer req (o.splits i)
  idle : o.s.log.taken = [] → o.s.legalizer.r.valid = false ∧ o.s.legalizer.w.valid = false

variable {o o' : Observed} {s' : Backend}

theorem inv_init : Inv cfg ⟨.init cfg, fun _ => []⟩ where
  tags := fun d x hx => absurd hx not_mem_nil
  earlier := fun i req hreq => by cases hreq
  current := fun i req hreq => by cases hreq
  idle := fun _ => ⟨rfl, rfl⟩

theorem Inv.frame (h : o.Inv cfg) (hlg : s'.legalizer = o.s.legalizer) (htaken : s'.log.taken = o.s.log.taken) :
    Inv cfg ⟨s', o.emitted⟩ := by
  refine ⟨?_, ?_, ?_, ?_⟩
  · rw [htaken]
    exact h.tags
  · rw [htaken]
    exact h.earlier
  · rw [htaken, hlg]
    exact h.current
  · rw [htaken, hlg]
    exact h.idle

theorem step_frame (hs : IdmaV3.step cfg s e = some s')
    (he : ∀ next arReady token, e ≠ .legalizer next arReady token) :
    s'.legalizer = s.legalizer ∧ s'.log.taken = s.log.taken := by
  cases e with
  | legalizer next arReady token => exact absurd rfl (he next arReady token)
  | readBeat manager token bus =>
    obtain ⟨slot, rest, -, -, rfl⟩ := readBeat_cases hs
    exact ⟨rfl, rfl⟩
  | axiTick status =>
    obtain ⟨split, bytes, slot, ctxs, dataQueue, isLast, -, -, hsend⟩ := axiTick_cases hs
    rcases sendBeat_cases hsend with rfl | ⟨wlast, completed, ctxs, freeCtxs, rfl⟩ <;> exact ⟨rfl, rfl⟩
  | axiRetry status =>
    obtain ⟨beat, -, hsend⟩ := axiRetry_cases hs
    rcases sendBeat_cases hsend with rfl | ⟨wlast, completed, ctxs, freeCtxs, rfl⟩ <;> exact ⟨rfl, rfl⟩
  | axiAck slot =>
    obtain ⟨wlast, completed, ctxs, freeCtxs, rfl⟩ := axiAck_cases hs
    exact ⟨rfl, rfl⟩
  | obiIssueWord =>
    obtain ⟨split, bytes, obi, -, rfl⟩ := obiIssueWord_cases hs
    exact ⟨rfl, rfl⟩
  | obiWordDone =>
    obtain ⟨wlast, completed, nbInUse, rfl⟩ := obiWordDone_cases hs
    exact ⟨rfl, rfl⟩
  | cycle =>
    cases hs
    exact ⟨rfl, rfl⟩

/-! ### The legalizer -/

theorem cut_room (h : cut cfg rm wm req arReady token s = some s') (hroom : Room cfg s arReady)
    (hwm : s.legalizer.wm = some wm) (hv : s.legalizer.r.valid = true ∨ s.legalizer.w.valid = true)
    (hpaired : s.legalizer.coupled = true → s.legalizer.r.valid = s.legalizer.w.valid) :
    s.rFifo.entries.length < s'.rFifo.entries.length ∨ s.wFifo.entries.length < s'.wFifo.entries.length := by
  obtain ⟨hr, hw⟩ := hroom
  have hrReady : (s.legalizer.r.valid && s.rFifo.canPush cfg.numAxInFlight s.now && arReady) = s.legalizer.r.valid := by
    cases hrv : s.legalizer.r.valid with
    | false => rfl
    | true =>
      obtain ⟨hpush, har⟩ := hr hrv
      rw [hpush, har]
      rfl
  have hwReady : (s.legalizer.w.valid && s.wFifo.canPush cfg.numAxInFlight s.now &&
    s.wlast.canPush cfg.wlastDepth s.now &&
      awReady cfg s wm) = s.legalizer.w.valid := by
    cases hwv : s.legalizer.w.valid with
    | false => rfl
    | true =>
      obtain ⟨hpush, hlast, haw⟩ := hw hwv
      rw [hpush, hlast, haw wm hwm]
      rfl
  unfold cut plan at h
  simp only [hrReady, hwReady] at h
  cases hc : s.legalizer.coupled with
  | true =>
    have heq := hpaired hc
    have hrv : s.legalizer.r.valid = true := hv.elim id fun hwv => heq.trans hwv
    have hwv : s.legalizer.w.valid = true := heq.symm.trans hrv
    simp only [hc, hrv, hwv, Bool.and_self, if_true] at h
    obtain ⟨wlast, axi, obi, -, rfl⟩ := emitWrite_cases h
    left
    simp [emitRead]
  | false =>
    simp only [hc, Bool.false_eq_true, if_false] at h
    cases hwv : s.legalizer.w.valid with
    | true =>
      rw [if_pos hwv] at h
      obtain ⟨wlast, axi, obi, -, rfl⟩ := emitWrite_cases h
      right
      cases s.legalizer.r.valid <;> simp [emitRead]
    | false =>
      have hrv : s.legalizer.r.valid = true := hv.resolve_right (by rw [hwv]; decide)
      rw [hwv, if_pos hrv] at h
      cases h
      left
      simp [emitRead]

variable {next : Option Request}

theorem Inv.takeRequest (h : o.Inv cfg) (hw : cfg.width ≤ 65536) (hr : o.s.legalizer.r.valid = false)
    (hwv : o.s.legalizer.w.valid = false) (ht : takeRequest cfg next o.s = some s') :
    Inv cfg ⟨s', o.emitted⟩ ∧ s'.rFifo = o.s.rFifo ∧ s'.wFifo = o.s.wFifo := by
  rcases takeRequest_cases ht with ⟨lastTakeCycle, completed, rfl⟩ | ⟨req, rm, wm, lastTakeCycle, hl, hrm, hwm, rfl⟩
  · refine ⟨{ h with current := fun i req hreq hi => ?_ }, rfl, rfl⟩
    have hcur := h.current i req hreq hi
    exact { hcur with sides := fun d => by cases d <;> [exact hcur.sides .read; exact hcur.sides .write] }
  · have hlen : (o.s.log.taken ++ [req]).length = o.s.log.taken.length + 1 := by simp
    refine ⟨⟨fun d x hx => ?_, fun i r hreq hi => ?_, fun i r hreq hi => ?_, fun hnil => ?_⟩, rfl, rfl⟩
    · have hlt := h.tags d x hx
      show x.1 < (o.s.log.taken ++ [req]).length
      omega
    · -- the last request before is done, too
      change (o.s.log.taken ++ [req])[i]? = some r at hreq
      change i + 1 < (o.s.log.taken ++ [req]).length at hi
      rw [getElem?_append_left (by omega)] at hreq
      rcases lt_or_ge (i + 1) o.s.log.taken.length with hlt | hge
      · exact h.earlier i r hreq hlt
      · exact (h.current i r hreq (by omega)).done hr hwv
    · change (o.s.log.taken ++ [req])[i]? = some r at hreq
      change i + 1 = (o.s.log.taken ++ [req]).length at hi
      have hi : i = o.s.log.taken.length := by omega
      subst hi
      rw [getElem?_concat_length] at hreq
      cases hreq
      have hnil : o.splits o.s.log.taken.length = fun _ => [] := by
        funext d
        by_contra hne
        obtain ⟨x, hx, hlane⟩ := mem_map.1 (mem_fst_of_onLane_ne_nil hne)
        have hlt := h.tags d x hx
        omega
      change Current cfg _ req (o.splits o.s.log.taken.length)
      rw [hnil]
      exact Current.take hw hl hrm hwm
    · exact absurd hnil (by simp)

theorem newSplits_self (hr : s'.rFifo = s.rFifo) (hw : s'.wFifo = s.wFifo) : newSplits s s' d = [] := by
  cases d with
  | read => simp [newSplits, hr]
  | write => simp [newSplits, hw]

theorem splits_append (o : Observed) (s' : Backend) (new : Dir → List Split) (k i : Nat) :
    splits ⟨s', fun d => o.emitted d ++ (new d).map (Prod.mk k)⟩ i =
      if i = k then fun d => o.splits i d ++ new d else o.splits i := by
  funext d
  show onLane i (o.emitted d ++ (new d).map (Prod.mk k)) = _
  rw [onLane_append, onLane_tagged]
  by_cases h : k = i
  · subst h
    rw [if_pos rfl, if_pos rfl]
    rfl
  · rw [if_neg h, if_neg (Ne.symm h), append_nil]
    rfl

theorem Inv.cut (h : o.Inv cfg) (hw : cfg.width ≤ 65536) {completed : List Request}
    (hv : o.s.legalizer.r.valid = true ∨ o.s.legalizer.w.valid = true) (hreq : o.s.legalizer.req = some req)
    (hrm : o.s.legalizer.rm = some rm) (hwm : o.s.legalizer.wm = some wm)
    (hcut : cut cfg rm wm req arReady token { o.s with
      legalizer := { o.s.legalizer with lastTakeCycle := lastTakeCycle }
      log := { o.s.log with completed := completed } } = some s') :
    Inv cfg ⟨s', fun d => o.emitted d ++ (newSplits o.s s' d).map (Prod.mk (o.s.log.taken.length - 1))⟩ := by
  obtain ⟨rb, wb, hrFifo, hwFifo, hlg, htaken, hcoupled, hfree⟩ := cut_spec hcut
  have hpos : 0 < o.s.log.taken.length := by
    rw [length_pos_iff]
    intro hnil
    obtain ⟨hr, hwv⟩ := h.idle hnil
    rw [hr, hwv] at hv
    simp at hv
  obtain ⟨last, hlast⟩ : ∃ last, o.s.log.taken[o.s.log.taken.length - 1]? = some last :=
    ⟨_, getElem?_eq_getElem (by omega)⟩
  have hcur := h.current _ last hlast (by omega)
  cases (hcur.req hv).symm.trans hreq
  have hcur' := hcur.cut hw hrm hwm hcoupled hfree
  have hnew : newSplits o.s s' = fun
      | .read => rb.toList.map (makeSplit cfg req o.s.legalizer.r)
      | .write => wb.toList.map (makeSplit cfg req o.s.legalizer.w) := by
    funext d
    cases d with
    | read =>
      show (s'.rFifo.entries.drop o.s.rFifo.entries.length).map (·.split) = _
      rw [hrFifo, drop_left, map_map]
      rfl
    | write =>
      show (s'.wFifo.entries.drop o.s.wFifo.entries.length).map (·.split) = _
      rw [hwFifo, drop_left, map_map]
      rfl
  refine ⟨fun d x hx => ?_, fun i r hr hi => ?_, fun i r hr hi => ?_, fun hnil => ?_⟩
  · rw [htaken]
    rcases mem_append.1 hx with hx | hx
    · exact h.tags d x hx
    · obtain ⟨split, -, rfl⟩ := mem_map.1 hx
      show o.s.log.taken.length - 1 < o.s.log.taken.length
      omega
  · change s'.log.taken[i]? = some r at hr
    change i + 1 < s'.log.taken.length at hi
    rw [htaken] at hr hi
    change i + 1 < o.s.log.taken.length at hi
    rw [splits_append, if_neg (by omega)]
    exact h.earlier i r hr hi
  · change s'.log.taken[i]? = some r at hr
    change i + 1 = s'.log.taken.length at hi
    rw [htaken] at hr hi
    change o.s.log.taken[i]? = some r at hr
    change i + 1 = o.s.log.taken.length at hi
    have hi' : i = o.s.log.taken.length - 1 := by omega
    subst hi'
    cases hlast.symm.trans hr
    rw [splits_append, if_pos rfl, hnew]
    rw [hlg]
    refine { hcur' with sides := fun d => ?_ }
    cases d with
    | read => exact hcur'.sides .read
    | write => exact hcur'.sides .write
  · change s'.log.taken = [] at hnil
    rw [htaken] at hnil
    change o.s.log.taken = [] at hnil
    rw [hnil] at hpos
    exact absurd hpos (lt_irrefl 0)

theorem Inv.finish (h : o.Inv cfg) (hr : o.s.legalizer.r.valid = false) (hw : o.s.legalizer.w.valid = false) :
    Inv cfg ⟨{ o.s with legalizer := { o.s.legalizer with req := none } }, o.emitted⟩ := by
  refine { h with current := fun i req hreq hi => ?_ }
  have hcur := h.current i req hreq hi
  refine { hcur with sides := fun d => ?_, req := fun hv => ?_ }
  · cases d with
    | read => exact hcur.sides .read
    | write => exact hcur.sides .write
  · change o.s.legalizer.r.valid = true ∨ o.s.legalizer.w.valid = true at hv
    rw [hr, hw] at hv
    simp at hv

theorem Inv.legalizerStep (h : o.Inv cfg) (hw : cfg.width ≤ 65536)
    (hs : legalizerStep cfg next arReady token o.s = some s') :
    Inv cfg ⟨s', fun d => o.emitted d ++ (newSplits o.s s' d).map (Prod.mk (o.s.log.taken.length - 1))⟩ := by
  rcases legalizerStep_cases hs with ⟨hr, hwv, ht⟩ | ⟨req, rm, wm, s₁, hv, hreq, hrm, hwm, hcut, hs'⟩
  · obtain ⟨hinv, hrFifo, hwFifo⟩ := h.takeRequest hw hr hwv ht
    have hemitted : (fun d => o.emitted d ++ (newSplits o.s s' d).map (Prod.mk (o.s.log.taken.length - 1))) =
      o.emitted := by
      funext d
      rw [newSplits_self hrFifo hwFifo, map_nil, append_nil]
    rw [hemitted]
    exact hinv
  · obtain ⟨lastTakeCycle, completed, hz⟩ := rejectZero_cases next o.s
    rw [hz] at hcut
    have h₁ := h.cut hw hv hreq hrm hwm hcut
    rcases hs' with rfl | ⟨hr, hwv, ht⟩
    · exact h₁
    · obtain ⟨hinv, hrFifo, hwFifo⟩ := (h₁.finish hr hwv).takeRequest hw hr hwv ht
      have hnew : newSplits o.s s' = newSplits o.s s₁ := by
        funext d
        cases d with
        | read => simp only [newSplits, hrFifo]
        | write => simp only [newSplits, hwFifo]
      rw [hnew]
      exact hinv

theorem Inv.step (h : o.Inv cfg) (hw : cfg.width ≤ 65536) (hs : step cfg o e = some o') : o'.Inv cfg := by
  obtain ⟨s', hs', rfl⟩ := Option.map_eq_some_iff.1 hs
  cases e with
  | legalizer next arReady token => exact h.legalizerStep hw hs'
  | _ =>
    obtain ⟨hlg, htaken⟩ := step_frame hs' (by simp)
    exact h.frame hlg htaken

/-! ### What it means -/

/-- Every request that was taken is cut up to some byte on each side, completely where it is complete. -/
theorem Inv.cutTo (h : o.Inv cfg) {i : Nat} (hreq : o.s.log.taken[i]? = some req) (d : Dir) :
    ∃ q ≤ req.length, CutTo cfg d req (o.splits i d) q ∧ (o.Complete i d ↔ q = req.length) := by
  have hlt : i < o.s.log.taken.length := (List.getElem?_eq_some_iff.1 hreq).1
  rcases lt_or_ge (i + 1) o.s.log.taken.length with hearlier | hlast
  · exact ⟨req.length, le_rfl, (h.earlier i req hreq hearlier).cutTo d, iff_of_true (.inl hearlier) rfl⟩
  · have hside := (h.current i req hreq (by omega)).sides d
    have hle := hside.ok.le
    refine ⟨_, sub_le .., hside.cutTo, ?_⟩
    unfold Complete
    rw [hside.valid]
    simp only [ne_eq, decide_not, Bool.not_eq_false', decide_eq_true_eq]
    have hpos : 0 < req.length ∨ req.length = 0 := by omega
    omega

theorem takeRequest_fifos (ht : takeRequest cfg next s = some s') :
    s'.rFifo = s.rFifo ∧ s'.wFifo = s.wFifo := by
  rcases takeRequest_cases ht with ⟨lastTakeCycle, completed, rfl⟩ | ⟨req, rm, wm, lastTakeCycle, -, -, -, rfl⟩ <;>
    exact ⟨rfl, rfl⟩

theorem Inv.emits (h : o.Inv cfg) (hv : o.s.legalizer.r.valid = true ∨ o.s.legalizer.w.valid = true)
    (hroom : Room cfg o.s arReady) (hs : IdmaV3.legalizerStep cfg next arReady token o.s = some s') :
      ∃ d, newSplits o.s s' d ≠ [] := by
  rcases legalizerStep_cases hs with ⟨hr, hw, -⟩ | ⟨req, rm, wm, s₁, -, hreq, hrm, hwm, hcut, hs'⟩
  · rw [hr, hw] at hv
    simp at hv
  · obtain ⟨lastTakeCycle, completed, hz⟩ := rejectZero_cases next o.s
    rw [hz] at hcut
    have hpaired : o.s.legalizer.coupled = true → o.s.legalizer.r.valid = o.s.legalizer.w.valid := by
      intro hc
      have hne : o.s.log.taken ≠ [] := by
        intro hnil
        obtain ⟨hr, hw⟩ := h.idle hnil
        rw [hr, hw] at hv
        simp at hv
      have hpos := length_pos_iff.2 hne
      have hcur := h.current (o.s.log.taken.length - 1) _ (getElem?_eq_getElem (by omega)) (by omega)
      have hlen := (hcur.paired (hcur.coupled.symm.trans hc)).1
      have hr := (hcur.sides .read).valid
      have hw := (hcur.sides .write).valid
      exact hr.trans ((congrArg (fun n => decide (n ≠ 0)) hlen).trans hw.symm)
    have hlonger := cut_room hcut hroom hwm hv hpaired
    have hfifos : s'.rFifo = s₁.rFifo ∧ s'.wFifo = s₁.wFifo := by
      rcases hs' with rfl | ⟨-, -, ht⟩
      · exact ⟨rfl, rfl⟩
      · obtain ⟨hrFifo, hwFifo⟩ := takeRequest_fifos ht
        exact ⟨hrFifo, hwFifo⟩
    rcases hlonger with hlt | hlt
    · refine ⟨.read, fun hnil => ?_⟩
      have hlen := congrArg length hnil
      change o.s.rFifo.entries.length < s₁.rFifo.entries.length at hlt
      simp only [newSplits, hfifos.1, length_map, length_drop, length_nil] at hlen
      omega
    · refine ⟨.write, fun hnil => ?_⟩
      have hlen := congrArg length hnil
      change o.s.wFifo.entries.length < s₁.wFifo.entries.length at hlt
      simp only [newSplits, hfifos.2, length_map, length_drop, length_nil] at hlen
      omega

theorem Inv.exact (h : o.Inv cfg) : o.Exact cfg where
  cut := fun i req hreq d => by
    obtain ⟨q, hq, hcut, hcomplete⟩ := h.cutTo hreq d
    exact ⟨q, hq, hcut, hcomplete.1⟩
  last := fun i req hreq k split hk => by
    obtain ⟨q, hq, hcut, hcomplete⟩ := h.cutTo hreq .write
    rw [hcomplete]
    exact hcut.tiles.last_iff hq hk
  paired := fun i req hreq hc => by
    have hlt : i < o.s.log.taken.length := (List.getElem?_eq_some_iff.1 hreq).1
    rcases lt_or_ge (i + 1) o.s.log.taken.length with hearlier | hlast
    · exact (h.earlier i req hreq hearlier).paired hc
    · exact ((h.current i req hreq (by omega)).paired hc).2
  bounded := fun i req hreq d => by
    obtain ⟨q, hq, hcut, -⟩ := h.cutTo hreq d
    have hle := hcut.tiles.length_le
    omega
  emits := fun _ _ _ _ hv hroom hs => h.emits hv hroom hs

end Observed

open Observed in
/-- **The splits are right** in every state of every run, on buses of up to 64 KiB. -/
theorem splits_exact (cfg : Config) (hw : cfg.width ≤ 65536) (es : List Event) :
    AllStates (Observed.step cfg) (Exact cfg) ⟨.init cfg, fun _ => []⟩ es := by
  refine allStates_of_allSteps (I := Observed.Inv cfg) (P := fun _ _ => True) (fun o h => h.exact) ?_ inv_init
    (allSteps_of_forall fun _ _ => trivial)
  intro o e o' h _ hs
  exact h.step hw hs

/-! ## Runs of some DMAs -/

def firstSplits (cfg : Config) (es : List Event) (d : Dir) : Option (List Split) :=
  (run (Observed.step cfg) ⟨.init cfg, fun _ => []⟩ es).map fun o => o.splits 0 d

theorem splits_exact_narrowDma : ∃ o, run (Observed.step narrowDma) ⟨.init narrowDma, fun _ => []⟩ shiftedCopy =
    some o ∧ (o.splits 0 .write).map (fun split => (split.addr, split.numBytes, split.last)) =
    [(6, 2, false), (8, 3, true)] ∧ o.Exact narrowDma := by
  obtain ⟨o, hrun, ho⟩ := (Option.any_eq_true (fun o : Observed => decide ((o.splits 0 .write).map
    (fun split => (split.addr, split.numBytes, split.last)) = [(6, 2, false), (8, 3, true)])) _).1
    (show (run (Observed.step narrowDma) ⟨.init narrowDma, fun _ => []⟩ shiftedCopy).any _ = true by decide +kernel)
  exact ⟨o, hrun, of_decide_eq_true ho, (splits_exact narrowDma (by decide) shiftedCopy).final hrun⟩

/-- A back-end that writes words of 8 KiB. -/
def wordDma : Config := { narrowDma with
  width := 8192
  width_pow := ⟨13, rfl⟩ }

/-- A copy of one word with a reduced burst length on its write side. -/
def reducedCopy : List Event :=
  [.legalizer (some {
    src := 0, dst := 0, length := 8192, dstProt := .obi, dstReduceLen := true,
    src_lt := (by decide : 0 < 2 ^ 64), dst_lt := (by decide : 0 < 2 ^ 64) }) true 0, .cycle,
    .legalizer none true 0]

/-- The offset of a byte in its bus word does not fit the `uint16_t` field on a bus of 128 KiB, and a manager that does
not burst ignores the reduced burst length: it writes a word of 8 KiB over a boundary of 4 KiB. -/
theorem splits_wide : (¬ AllStates (Observed.step wideDma) (Observed.Exact wideDma)
    ⟨.init wideDma, fun _ => []⟩ wideCopy) ∧ ∃ split, firstSplits wordDma reducedCopy .write = some [split] ∧
    split.req.dstReduceLen = true ∧
      ¬ WithinPage (reducedPage wordDma split.req.dstMaxLlen) split.addr split.numBytes := by
  refine ⟨fun h => ?_, ?_⟩
  · obtain ⟨o, hrun, ho⟩ := (Option.any_eq_true (fun o : Observed => decide (o.s.log.taken ≠ [] ∧
      (o.splits 0 .read).map (fun split => (split.addr, split.offset)) = [(65536, 0)])) _).1
      (show (run (Observed.step wideDma) ⟨.init wideDma, fun _ => []⟩ wideCopy).any _ = true by decide +kernel)
    obtain ⟨hne, hmap⟩ := of_decide_eq_true ho
    obtain ⟨req, rest, htaken⟩ := exists_cons_of_ne_nil hne
    obtain ⟨q, -, hcut, -⟩ := (h.final hrun).cut 0 req (by rw [htaken]; rfl) .read
    obtain ⟨split, hsplit, hfields⟩ := map_eq_singleton_iff.1 hmap
    have hoffset := (hcut.legal split (by rw [hsplit]; exact mem_singleton.2 rfl)).offset
    simp only [Prod.mk.injEq] at hfields
    rw [hfields.1, hfields.2] at hoffset
    exact absurd hoffset (by decide)
  · obtain ⟨splits, hrun, hs⟩ := (Option.any_eq_true (fun splits : List Split => decide (splits.map (fun split =>
      (split.addr, split.numBytes, split.req.dstReduceLen, split.req.dstMaxLlen)) = [(0, 8192, true, 0)])) _).1
      (show (firstSplits wordDma reducedCopy .write).any _ = true by decide +kernel)
    obtain ⟨split, rfl, hfields⟩ := map_eq_singleton_iff.1 (of_decide_eq_true hs)
    simp only [Prod.mk.injEq] at hfields
    refine ⟨split, hrun, hfields.2.2.1, ?_⟩
    rw [hfields.1, hfields.2.1, hfields.2.2.2]
    unfold WithinPage
    decide

end GvsocPulp.IdmaV3
