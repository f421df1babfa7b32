import GvsocPulp.IdmaV3.Coupler
import GvsocPulp.IdmaV3.Transfers

/-!
# The back-end of a stream

A stream of `Transfers` follows the back-end of `Backend`: each call of the back-end is an evaluation of the stream's
legalizer, the acknowledgement of a write burst, or nothing (`backend_follows`). So what holds of a stream whatever its
turns are holds with the page boundaries, FIFOs and managers of the back-end.
-/

namespace GvsocPulp.IdmaV3

open Option TimedFifo IdmaV3.Stream MidEnd

/-- The protocols there are managers for have these numbers. -/
def protocol : Nat → Protocol
  | 0 => .axi
  | 1 => .obi
  | _ => .init

def Line.request (line : Line) : Request where
  src := line.src.toNat
  dst := line.dst.toNat
  length := line.length.toNat
  srcProt := protocol line.srcProt
  dstProt := protocol line.dstProt
  decoupleRw := line.decoupleRw
  decoupleAw := line.decoupleAw
  src_lt := line.src.isLt
  dst_lt := line.dst.isLt
  length_lt := line.length.isLt

def lastSlot (slot : Line × Bool) : LastSlot := ⟨slot.1.request, slot.2⟩

def TimedFifo.map {α β : Type} (f : α → β) (fifo : TimedFifo α) : TimedFifo β where
  queue := fifo.queue.map fun e => (f e.1, e.2)
  lastPopCycle := fifo.lastPopCycle
  poppedInCycle := fifo.poppedInCycle

/-- The legalizer and `wlast` of a stream are those of a back-end. -/
structure Follows (s : Stream) (be : Backend) : Prop where
  lastTakeCycle : be.legalizer.lastTakeCycle = s.lastTakeCycle
  req : be.legalizer.req = s.req.map Line.request
  managers : be.legalizer.req.isSome → be.legalizer.rm.isSome ∧ be.legalizer.wm.isSome
  rLength : be.legalizer.r.length = s.rLeft
  rValid : be.legalizer.r.valid = decide (s.rLeft ≠ 0)
  wLength : be.legalizer.w.length = s.wLeft
  wValid : be.legalizer.w.valid = decide (s.wLeft ≠ 0)
  wlast : be.wlast = s.wlast.map lastSlot

variable {bcfg : Config} {cfg : StreamConfig} {s s' : Stream} {be be' : Backend}

/-- The managers of the back-end are those of the stream, and so is the depth of `wlast`. -/
structure SameConfig (bcfg : Config) (cfg : StreamConfig) : Prop where
  wlastDepth : cfg.wlastDepth = bcfg.wlastDepth
  supported : ∀ src dst, cfg.supported src dst =
    ((bcfg.readManager (protocol src)).isSome && (bcfg.writeManager (protocol dst)).isSome)

theorem follows_init (bcfg : Config) : Follows {} (.init bcfg) :=
  ⟨rfl, rfl, by simp [Backend.init], rfl, rfl, rfl, rfl, rfl⟩

theorem Follows.congr (h : Follows s be) (hl : be'.legalizer = be.legalizer) (hw : be'.wlast = be.wlast) :
    Follows s be' := by
  refine ⟨?_, ?_, ?_, ?_, ?_, ?_, ?_, ?_⟩ <;> first | rw [hl] | rw [hw]
  · exact h.lastTakeCycle
  · exact h.req
  · exact h.managers
  · exact h.rLength
  · exact h.rValid
  · exact h.wLength
  · exact h.wValid
  · exact h.wlast

/-! ## Acknowledgements -/

theorem entries_map {α β : Type} (f : α → β) (fifo : TimedFifo α) : (fifo.map f).entries = fifo.entries.map f := by
  simp [map, entries]

theorem map_pop {α β : Type} (f : α → β) (now : Int) (fifo : TimedFifo α) :
    (fifo.map f).pop now = (fifo.pop now).map f := by
  rw [pop, map, map, pop]
  rw [List.map_tail]

theorem map_push {α β : Type} (f : α → β) (now : Int) (entry : α) (fifo : TimedFifo α) :
    (fifo.map f).push (f entry) now = (fifo.push entry now).map f := by
  simp [map, push]

theorem canPush_map {α β : Type} (f : α → β) (depth : Nat) (now : Int) (fifo : TimedFifo α) :
    (fifo.map f).canPush depth now = fifo.canPush depth now := by
  rw [canPush, canPush, map]
  rw [List.length_map]

/-- The stream acknowledges the burst that the back-end does, whatever else the back-end has changed before. -/
theorem Follows.writeBurstDone {be₁ : Backend} (h : Follows s be) (hbe : writeBurstDone be₁ = some be')
    (hl : be₁.legalizer = be.legalizer) (hw : be₁.wlast = be.wlast) (hn : be₁.now = be.now) :
    ∃ s', s.writeBurstDone be.now = some s' ∧ Follows s' be' := by
  have h₁ := h.congr hl hw
  unfold IdmaV3.writeBurstDone at hbe
  rw [h₁.wlast, entries_map, hn] at hbe
  rw [Stream.writeBurstDone]
  cases hentries : s.wlast.entries with
  | nil =>
    rw [hentries] at hbe
    cases hbe
  | cons slot rest =>
    rw [hentries] at hbe
    cases hbe
    obtain ⟨line, last⟩ := slot
    refine ⟨_, rfl, ?_⟩
    have hpop : (s.wlast.map lastSlot).pop be.now = (s.wlast.pop be.now).map lastSlot := map_pop _ _ _
    cases last with
    | false => exact { h₁ with wlast := hpop }
    | true =>
      rw [if_pos rfl, complete1d]
      split <;> exact { h₁ with wlast := hpop }

theorem Follows.sendBeat {beat : Beat} {status : ReqStatus} {be₁ : Backend} (h : Follows s be)
    (hbe : sendBeat beat status be₁ = some be') (hl : be₁.legalizer = be.legalizer) (hw : be₁.wlast = be.wlast)
    (hn : be₁.now = be.now) : ∃ s', (s' = s ∨ s.writeBurstDone be.now = some s') ∧ Follows s' be' := by
  unfold IdmaV3.sendBeat at hbe
  split at hbe
  case h_1 =>
    cases hbe
    exact ⟨s, .inl rfl, h.congr hl hw⟩
  case h_2 =>
    cases hbe
    exact ⟨s, .inl rfl, h.congr hl hw⟩
  case h_3 resp =>
    split at hbe
    case isTrue => cases hbe
    case isFalse =>
      split at hbe
      case isTrue =>
        obtain ⟨s', hs', hfollows⟩ := h.writeBurstDone hbe hl hw hn
        exact ⟨s', .inr hs', hfollows⟩
      case isFalse =>
        cases hbe
        exact ⟨s, .inl rfl, h.congr hl hw⟩

/-! ## The legalizer -/

/-- What the mid-end of a stream shows. -/
def Stream.shown (cfg : StreamConfig) (now : Int) (s : Stream) : Option Request :=
  (s.me.peek1d cfg now).pending.map Line.request

theorem length_request (line : Line) : line.request.length = 0 ↔ line.length = 0 := by
  constructor
  · exact fun h => BitVec.eq_of_toNat_eq h
  · intro h
    show line.length.toNat = 0
    rw [h]
    rfl

theorem Follows.takeRequest {next : Option Request} (h : Follows s be) (hcfg : SameConfig bcfg cfg)
    (hbe : takeRequest bcfg next be = some be') (hnext : s.lastTakeCycle = be.now ∨ next = s.shown cfg be.now) :
    ∃ hold s', s.takeRequest cfg be.now hold = some s' ∧ Follows s' be' := by
  unfold IdmaV3.takeRequest at hbe
  dsimp only at hbe
  rw [h.lastTakeCycle] at hbe
  split at hbe
  case isTrue hcycle =>
    cases hbe
    exact ⟨false, s, by rw [Stream.takeRequest, if_pos hcycle], h⟩
  case isFalse hcycle =>
    split at hbe
    case isTrue =>
      cases hbe
      exact ⟨true, s, by rw [Stream.takeRequest, if_neg hcycle, if_pos rfl], h⟩
    case isFalse =>
      refine ⟨false, ?_⟩
      rw [Stream.takeRequest, if_neg hcycle, if_neg Bool.false_ne_true]
      dsimp only
      rw [hnext.resolve_left hcycle, shown] at hbe
      cases hline : (s.me.peek1d cfg be.now).pending with
      | none =>
        rw [hline] at hbe
        cases hbe
        exact ⟨_, rfl, { h with }⟩
      | some line =>
        rw [hline, map_some] at hbe
        dsimp only at hbe ⊢
        by_cases hzero : line.length = 0
        · rw [if_pos ((length_request line).2 hzero)] at hbe
          cases hbe
          rw [if_pos hzero]
          refine ⟨_, rfl, ?_⟩
          rw [reject, complete1d, Bool.or_true, if_pos rfl]
          exact { h with lastTakeCycle := rfl }
        · rw [if_neg (hzero ∘ (length_request line).1)] at hbe
          rw [if_neg hzero, hcfg.supported]
          have hleft : line.length.toNat ≠ 0 := hzero ∘ (length_request line).1
          split at hbe
          case h_1 rm wm hrm hwm =>
            have hrm : bcfg.readManager (protocol line.srcProt) = some rm := hrm
            have hwm : bcfg.writeManager (protocol line.dstProt) = some wm := hwm
            cases hbe
            rw [hrm, hwm, isSome_some, isSome_some, Bool.and_self, if_pos rfl]
            refine ⟨_, rfl, rfl, rfl, fun _ => ⟨rfl, rfl⟩, rfl, ?_, rfl, ?_, h.wlast⟩
            · exact (decide_eq_true hleft).symm
            · exact (decide_eq_true hleft).symm
          case h_2 => cases hbe

theorem Follows.bypass (h : Follows s be) (cfg : StreamConfig) :
    Follows (s.bypass cfg be.now) (rejectZero (s.shown cfg be.now) be) := by
  unfold IdmaV3.rejectZero
  rw [Stream.bypass, Stream.shown]
  cases hline : (s.me.peek1d cfg be.now).pending with
  | none => exact { h with }
  | some line =>
    rw [map_some, h.lastTakeCycle]
    dsimp only
    by_cases hzero : line.length = 0 ∧ s.lastTakeCycle ≠ be.now
    · rw [if_pos hzero, if_pos ⟨(length_request line).2 hzero.1, hzero.2⟩, reject, complete1d,
        Bool.or_true, if_pos rfl]
      exact { h with lastTakeCycle := rfl }
    · rw [if_neg hzero, if_neg fun h => hzero ⟨(length_request line).1 h.1, h.2⟩]
      exact { h with }

theorem peek1d_peek1d (now : Int) (me : MidEnd) : (me.peek1d cfg now).peek1d cfg now = me.peek1d cfg now := by
  cases hpending : me.pending with
  | some line =>
    have hsame : me.peek1d cfg now = me := by rw [peek1d, hpending]
    rw [hsame, hsame]
  | none =>
    cases hcurrent : me.current <|> (me.queue.visibleHead now).map (load cfg) with
    | none =>
      have hsame : me.peek1d cfg now = me := by
        rw [peek1d, hpending]
        rw [hcurrent]
      rw [hsame, hsame]
    | some c =>
      have hpeek : me.peek1d cfg now =
          { me with current := some (build1d c).2, pending := some (build1d c).1 } := by
        rw [peek1d, hpending]
        rw [hcurrent]
      rw [hpeek]
      rfl

theorem shown_bypass (s : Stream) (now : Int) : (s.bypass cfg now).lastTakeCycle = now ∨
    (s.bypass cfg now).shown cfg now = s.shown cfg now := by
  have hpeek : (({ s with me := s.me.peek1d cfg now } : Stream).shown cfg now) = s.shown cfg now := by
    rw [shown, shown, peek1d_peek1d]
  rw [bypass]
  split
  · exact .inr hpeek
  · split
    · rw [reject, complete1d, Bool.or_true, if_pos rfl]
      exact .inl rfl
    · exact .inr hpeek

variable {token : Nat}

theorem Follows.emitRead {req : Request} {rm : Manager} {bytes : Nat} (h : Follows s be) :
    Follows { s with rLeft := s.rLeft - bytes } (emitRead bcfg req rm bytes token be) := by
  refine { h with rLength := ?_, rValid := ?_ }
  · show be.legalizer.r.length - bytes = s.rLeft - bytes
    rw [h.rLength]
  · show decide (be.legalizer.r.length - bytes ≠ 0) = decide (s.rLeft - bytes ≠ 0)
    rw [h.rLength]

variable {line : Line}

theorem Follows.emitWrite {wm : Manager} {bytes : Nat} (h : Follows s be)
    (hbe : emitWrite bcfg line.request wm bytes be = some be') :
    Follows { s with
      wlast := s.wlast.push (line, decide (s.wLeft = bytes)) be.now
      wLeft := s.wLeft - bytes } be' := by
  have hbe' : be'.legalizer = { be.legalizer with w := be.legalizer.w.advance bytes } ∧
      be'.wlast = be.wlast.push ⟨line.request, decide (be.legalizer.w.length = bytes)⟩ be.now := by
    unfold IdmaV3.emitWrite issueAw at hbe
    cases wm with
    | obi => cases hbe; exact ⟨rfl, rfl⟩
    | axi =>
      obtain ⟨a, -, rfl⟩ := map_eq_some_iff.1 hbe
      exact ⟨rfl, rfl⟩
  have hwlast : be'.wlast = (s.wlast.push (line, decide (s.wLeft = bytes)) be.now).map lastSlot := by
    rw [hbe'.2, h.wlast, h.wLength]
    exact map_push lastSlot be.now (line, decide (s.wLeft = bytes)) s.wlast
  have hw : be'.legalizer.w = be.legalizer.w.advance bytes := by rw [hbe'.1]
  refine ⟨?_, ?_, ?_, ?_, ?_, ?_, ?_, hwlast⟩
  · rw [hbe'.1]
    exact h.lastTakeCycle
  · rw [hbe'.1]
    exact h.req
  · rw [hbe'.1]
    exact h.managers
  · rw [hbe'.1]
    exact h.rLength
  · rw [hbe'.1]
    exact h.rValid
  · rw [hw]
    show be.legalizer.w.length - bytes = s.wLeft - bytes
    rw [h.wLength]
  · rw [hw]
    show decide (be.legalizer.w.length - bytes ≠ 0) = decide (s.wLeft - bytes ≠ 0)
    rw [h.wLength]

theorem plan_spec {lg : Legalizer} {rm wm : Manager} {rReady wReady : Bool}
    (hr : rReady = true → lg.r.valid = true ∧ lg.r.length ≠ 0)
      (hw : wReady = true → lg.w.valid = true ∧ lg.w.length ≠ 0) :
    let p := plan bcfg lg rm wm rReady wReady
    (p.rGo = true → rReady = true ∧ 0 < p.rBytes ∧ p.rBytes ≤ lg.r.length) ∧
      (p.wGo = true → wReady = true ∧ 0 < p.wBytes ∧ p.wBytes ≤ lg.w.length) := by
  have hrpos : rReady = true → 0 < sideBytes bcfg lg.r rm (bcfg.pageSize bcfg.readBurstLen) := fun h =>
    sideBytes_pos (hr h).1 (Nat.pos_of_ne_zero (hr h).2) _
  have hwpos : wReady = true → 0 < sideBytes bcfg lg.w wm (bcfg.pageSize bcfg.writeBurstLen) := fun h =>
    sideBytes_pos (hw h).1 (Nat.pos_of_ne_zero (hw h).2) _
  have hrle : sideBytes bcfg lg.r rm (bcfg.pageSize bcfg.readBurstLen) ≤ lg.r.length := sideBytes_le
  have hwle : sideBytes bcfg lg.w wm (bcfg.pageSize bcfg.writeBurstLen) ≤ lg.w.length := sideBytes_le
  rw [plan]
  split
  case isTrue =>
    -- coupled: both go, with the shorter burst
    have hboth : (rReady && wReady) = true → rReady = true ∧ wReady = true := fun h => by simpa using h
    refine ⟨fun h => ?_, fun h => ?_⟩
    · obtain ⟨h₁, h₂⟩ := hboth h
      exact ⟨h₁, Nat.lt_min.2 ⟨hrpos h₁, hwpos h₂⟩, (Nat.min_le_left _ _).trans hrle⟩
    · obtain ⟨h₁, h₂⟩ := hboth h
      exact ⟨h₂, Nat.lt_min.2 ⟨hrpos h₁, hwpos h₂⟩, (Nat.min_le_right _ _).trans hwle⟩
  case isFalse => exact ⟨fun h => ⟨h, hrpos h, hrle⟩, fun h => ⟨h, hwpos h, hwle⟩⟩

variable {arReady : Bool}

theorem Follows.cut {rm wm : Manager} (h : Follows s be) (hcfg : SameConfig bcfg cfg)
    (hbe : cut bcfg rm wm line.request arReady token be = some be') :
    ∃ (rGo wGo : Bool) (rBytes wBytes : Nat) (s' : Stream),
      (∀ hold, s.cut cfg be.now ⟨hold, rGo, wGo, rBytes, wBytes⟩ line = some s') ∧ Follows s' be' := by
  unfold IdmaV3.cut at hbe
  dsimp only at hbe
  generalize hrr : (be.legalizer.r.valid && be.rFifo.canPush bcfg.numAxInFlight be.now && arReady) = rReady at hbe
  generalize hwr : (be.legalizer.w.valid && be.wFifo.canPush bcfg.numAxInFlight be.now &&
    be.wlast.canPush bcfg.wlastDepth be.now && awReady bcfg be wm) = wReady at hbe
  have hrReady : rReady = true → be.legalizer.r.valid = true ∧ be.legalizer.r.length ≠ 0 := by
    intro hgo
    rw [← hrr, Bool.and_eq_true, Bool.and_eq_true] at hgo
    refine ⟨hgo.1.1, ?_⟩
    rw [h.rLength]
    exact of_decide_eq_true (h.rValid ▸ hgo.1.1)
  have hwReady : wReady = true → (be.legalizer.w.valid = true ∧ be.legalizer.w.length ≠ 0) ∧
      s.wlast.canPush cfg.wlastDepth be.now = true := by
    intro hgo
    rw [← hwr, Bool.and_eq_true, Bool.and_eq_true, Bool.and_eq_true] at hgo
    refine ⟨⟨hgo.1.1.1, ?_⟩, ?_⟩
    · rw [h.wLength]
      exact of_decide_eq_true (h.wValid ▸ hgo.1.1.1)
    · rw [hcfg.wlastDepth, ← canPush_map lastSlot, ← h.wlast]
      exact hgo.1.2
  obtain ⟨hr, hw⟩ := @plan_spec bcfg be.legalizer rm wm rReady wReady hrReady fun hgo => (hwReady hgo).1
  generalize plan bcfg be.legalizer rm wm rReady wReady = p at hbe hr hw
  rw [h.rLength] at hr
  rw [h.wLength] at hw
  have hguard : (p.rGo = true → 0 < p.rBytes ∧ p.rBytes ≤ s.rLeft) ∧
      (p.wGo = true → 0 < p.wBytes ∧ p.wBytes ≤ s.wLeft ∧ s.wlast.canPush cfg.wlastDepth be.now = true) :=
    ⟨fun hgo => (hr hgo).2, fun hgo => ⟨(hw hgo).2.1, (hw hgo).2.2, (hwReady (hw hgo).1).2⟩⟩
  refine ⟨p.rGo, p.wGo, p.rBytes, p.wBytes,
    let s := if p.rGo then { s with rLeft := s.rLeft - p.rBytes } else s
    if p.wGo then
      { s with wlast := s.wlast.push (line, decide (s.wLeft = p.wBytes)) be.now, wLeft := s.wLeft - p.wBytes }
    else s, fun hold => by rw [Stream.cut, if_pos hguard], ?_⟩
  cases hrgo : p.rGo with
  | false =>
    rw [hrgo] at hbe
    cases hwgo : p.wGo with
    | false =>
      rw [hwgo] at hbe
      cases hbe
      exact h
    | true =>
      rw [hwgo] at hbe
      exact h.emitWrite hbe
  | true =>
    rw [hrgo] at hbe
    have hread : Follows { s with rLeft := s.rLeft - p.rBytes }
        (IdmaV3.emitRead bcfg line.request rm p.rBytes token be) := h.emitRead
    cases hwgo : p.wGo with
    | false =>
      rw [hwgo] at hbe
      cases hbe
      exact hread
    | true =>
      rw [hwgo] at hbe
      exact hread.emitWrite hbe

theorem cut_me {now : Int} {turn : Turn} (h : s.cut cfg now turn line = some s') :
    s'.me = s.me ∧ s'.lastTakeCycle = s.lastTakeCycle := by
  rw [Stream.cut] at h
  split at h
  · cases h
    split <;> split <;> exact ⟨rfl, rfl⟩
  · cases h

theorem now_rejectZero (next : Option Request) (be : Backend) : (rejectZero next be).now = be.now := by
  unfold rejectZero
  split
  · rfl
  · split <;> rfl

theorem now_cut {rm wm : Manager} {req : Request} (h : cut bcfg rm wm req arReady token be = some be') :
    be'.now = be.now := by
  have hwrite : ∀ {be₁ : Backend} {bytes : Nat}, emitWrite bcfg req wm bytes be₁ = some be' → be'.now = be₁.now := by
    intro be₁ bytes hbe
    unfold emitWrite issueAw at hbe
    cases wm with
    | obi => cases hbe; rfl
    | axi =>
      obtain ⟨a, -, rfl⟩ := map_eq_some_iff.1 hbe
      rfl
  unfold cut at h
  dsimp only at h
  split at h
  · split at h
    · exact (hwrite h).trans rfl
    · exact hwrite h
  · cases h
    split <;> rfl

theorem Follows.idle (h : Follows s be) :
    (!be.legalizer.r.valid && !be.legalizer.w.valid) = decide (s.rLeft = 0 ∧ s.wLeft = 0) := by
  rw [h.rValid, h.wValid]
  by_cases hr : s.rLeft = 0 <;> by_cases hw : s.wLeft = 0 <;> simp [hr, hw]

theorem Follows.legalizer (h : Follows s be) (hcfg : SameConfig bcfg cfg)
    (hbe : legalizerStep bcfg (s.shown cfg be.now) arReady token be = some be') :
    ∃ turn s', s.legalizer cfg be.now turn = some s' ∧ Follows s' be' := by
  unfold legalizerStep at hbe
  rw [h.idle] at hbe
  by_cases hzero : s.rLeft = 0 ∧ s.wLeft = 0
  · rw [if_pos (decide_eq_true hzero)] at hbe
    obtain ⟨hold, s', hs', hfollows⟩ := h.takeRequest hcfg hbe (.inr rfl)
    exact ⟨⟨hold, false, false, 0, 0⟩, s', by rw [Stream.legalizer, if_pos hzero]; exact hs', hfollows⟩
  · rw [if_neg (by simpa using hzero)] at hbe
    have hreq := h.req
    cases hline : s.req with
    | none =>
      rw [hline] at hreq
      rw [hreq] at hbe
      cases hbe
    | some line =>
      rw [hline] at hreq
      have hmanagers := h.managers (by rw [hreq]; rfl)
      obtain ⟨rm, hrm⟩ := isSome_iff_exists.1 hmanagers.1
      obtain ⟨wm, hwm⟩ := isSome_iff_exists.1 hmanagers.2
      rw [hreq, hrm, hwm, map_some] at hbe
      obtain ⟨be₁, hcut, hbe⟩ := bind_eq_some_iff.1 hbe
      obtain ⟨rGo, wGo, rBytes, wBytes, s₁, hs₁, hfollows⟩ := (h.bypass cfg).cut hcfg hcut
      have hnow : be₁.now = be.now := (now_cut hcut).trans (now_rejectZero _ _)
      rw [now_rejectZero] at hs₁
      obtain ⟨hme, htake⟩ := cut_me (hs₁ false)
      have hstep : ∀ hold, s.legalizer cfg be.now ⟨hold, rGo, wGo, rBytes, wBytes⟩ =
          if s₁.rLeft = 0 ∧ s₁.wLeft = 0 then { s₁ with req := none }.takeRequest cfg be.now hold else some s₁ := by
        intro hold
        rw [Stream.legalizer, if_neg hzero, hline]
        dsimp only
        rw [hs₁ hold]
        rfl
      rw [hfollows.idle] at hbe
      by_cases hdone : s₁.rLeft = 0 ∧ s₁.wLeft = 0
      · -- the next request is taken in the same evaluation, unless the bypass took one
        rw [if_pos (decide_eq_true hdone)] at hbe
        have hnone : Follows { s₁ with req := none } { be₁ with legalizer := { be₁.legalizer with req := none } } :=
          { hfollows with req := rfl, managers := by simp }
        obtain ⟨hold, s', hs', hf⟩ := hnone.takeRequest hcfg hbe (by
          rw [hnow, htake, shown, hme]
          exact (shown_bypass s be.now).imp_right Eq.symm)
        refine ⟨⟨hold, rGo, wGo, rBytes, wBytes⟩, s', ?_, hf⟩
        rw [hstep hold, if_pos hdone, ← hnow]
        exact hs'
      · rw [if_neg (by simpa using hdone)] at hbe
        cases hbe
        exact ⟨⟨false, rGo, wGo, rBytes, wBytes⟩, s₁, by rw [hstep, if_neg hdone], hfollows⟩

/-- **The stream follows the back-end**: each call is an evaluation of the legalizer, the acknowledgement of a write
burst, or nothing for the stream. -/
theorem backend_follows {event : Event} (h : Follows s be) (hcfg : SameConfig bcfg cfg)
    (hshown : ∀ next arReady token, event = .legalizer next arReady token → next = s.shown cfg be.now)
    (hbe : step bcfg be event = some be') :
    ∃ s', Follows s' be' ∧ (s' = s ∨ s.writeBurstDone be.now = some s' ∨
      ∃ turn, s.legalizer cfg be.now turn = some s') := by
  cases event with
  | legalizer next arReady token =>
    rw [hshown next arReady token rfl] at hbe
    obtain ⟨turn, s', hs', hf⟩ := h.legalizer hcfg hbe
    exact ⟨s', hf, .inr (.inr ⟨turn, hs'⟩)⟩
  | readBeat manager token bus =>
    obtain ⟨slot, rest, -, -, rfl⟩ := readBeat_cases hbe
    exact ⟨s, h.congr rfl rfl, .inl rfl⟩
  | axiTick status =>
    obtain ⟨split, bytes, slot, ctxs, dataQueue, isLast, -, -, hsend⟩ := axiTick_cases hbe
    obtain ⟨s', hs', hf⟩ := h.sendBeat hsend rfl rfl rfl
    exact ⟨s', hf, hs'.imp_right .inl⟩
  | axiRetry status =>
    obtain ⟨beat, -, hsend⟩ := axiRetry_cases hbe
    obtain ⟨s', hs', hf⟩ := h.sendBeat hsend rfl rfl rfl
    exact ⟨s', hf, hs'.imp_right .inl⟩
  | axiAck slot =>
    have hbe : axiAck slot be = some be' := hbe
    unfold axiAck at hbe
    dsimp only at hbe
    split at hbe
    case isTrue =>
      unfold axiComplete at hbe
      obtain ⟨s', hs', hf⟩ := h.writeBurstDone hbe rfl rfl rfl
      exact ⟨s', hf, .inr (.inl hs')⟩
    case isFalse => cases hbe
  | obiIssueWord =>
    obtain ⟨split, bytes, obi, -, rfl⟩ := obiIssueWord_cases hbe
    exact ⟨s, h.congr rfl rfl, .inl rfl⟩
  | obiWordDone =>
    have hbe : obiWordDone be = some be' := hbe
    unfold obiWordDone at hbe
    split at hbe
    case isTrue => cases hbe
    case isFalse =>
      obtain ⟨s', hs', hf⟩ := h.writeBurstDone hbe rfl rfl rfl
      exact ⟨s', hf, .inr (.inl hs')⟩
  | cycle =>
    cases hbe
    exact ⟨s, h.congr rfl rfl, .inl rfl⟩

def word : Line where
  src := 0
  dst := 64
  length := 4
  srcProt := 0
  dstProt := 0
  decoupleRw := false
  decoupleAw := false
  superLast := true
  parent := { seq := 0, src := 0, dst := 64, length := 4, id := 2 }

def snitchStream : StreamConfig where
  fifoDepth := 3
  nbDims := 2
  wlastDepth := snitchDma.wlastDepth
  supported src dst := (snitchDma.readManager (protocol src)).isSome && (snitchDma.writeManager (protocol dst)).isSome

theorem backend_follows_word : ∃ be s, step snitchDma (.init snitchDma) (.legalizer (some word.request) true 0) =
    some be ∧ Follows s be := by
  obtain ⟨be, hbe⟩ := isSome_iff_exists.1
    (show (step snitchDma (.init snitchDma) (.legalizer (some word.request) true 0)).isSome = true by decide +kernel)
  have hsame : SameConfig snitchDma snitchStream := ⟨rfl, fun _ _ => rfl⟩
  have hinit : Follows { me := { pending := some word } } (.init snitchDma) := { follows_init snitchDma with }
  obtain ⟨s, hf, -⟩ := backend_follows hinit hsame (by rintro _ _ _ ⟨⟩; rfl) hbe
  exact ⟨be, s, hbe, hf⟩

end GvsocPulp.IdmaV3
