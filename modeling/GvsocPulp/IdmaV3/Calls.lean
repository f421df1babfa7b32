import GvsocPulp.IdmaV3.Backend

/-!
# What the calls of the back-end change

One lemma for each call: the cases in which it is taken, and the state after it.

- `legalizerStep_cases`, `cut_cases`, `takeRequest_cases`: the legalizer;
- `readBeat_cases`: a read beat enters the buffer;
- `axiTick_cases`, `obiIssueWord_cases`: a data beat leaves it;
- `sendBeat_cases`, `axiRetry_cases`, `axiAck_cases`, `obiWordDone_cases`: the answers of the write buses.
-/

namespace GvsocPulp.IdmaV3

variable {cfg : Config} {s s' : Backend}

variable {slot : Nat} {status : ReqStatus} {manager : Manager} {token : Nat} {next : Option Request} {req : Request}
  {wm : Manager} {arReady : Bool}

/-! ## Responses -/

theorem writeBurstDone_cases (h : writeBurstDone s = some s') :
    ∃ wlast completed, s' = { s with wlast := wlast, log := { s.log with completed := completed } } := by
  unfold writeBurstDone at h
  match hw : s.wlast.entries with
  | [] => rw [hw] at h; cases h
  | slot :: _ =>
    rw [hw] at h
    cases h
    cases slot.last with
    | true => exact ⟨_, _, rfl⟩
    | false => exact ⟨_, s.log.completed, rfl⟩

theorem axiComplete_cases (h : axiComplete slot s = some s') :
    ∃ wlast completed ctxs freeCtxs, s' = { s with
      wlast := wlast
      axi := { s.axi with ctxs := ctxs, freeCtxs := freeCtxs }
      log := { s.log with completed := completed } } := by
  obtain ⟨wlast, completed, rfl⟩ := writeBurstDone_cases h
  exact ⟨wlast, completed, _, _, rfl⟩

theorem sendBeat_cases {beat : Beat} (h : sendBeat beat status s = some s') :
    s' = { s with axi := { s.axi with heldBeat := some beat } } ∨
      ∃ wlast completed ctxs freeCtxs, s' = { s with
        wlast := wlast
        axi := { s.axi with ctxs := ctxs, freeCtxs := freeCtxs }
        log := { s.log with accepted := s.log.accepted ++ beat.writes, completed := completed } } := by
  cases status with
  | denied => left; cases h; rfl
  | granted => right; cases h; exact ⟨s.wlast, s.log.completed, s.axi.ctxs, s.axi.freeCtxs, rfl⟩
  | done resp =>
    right
    unfold sendBeat at h
    dsimp only at h
    by_cases hbad : (!beat.isLast && decide (resp ≠ .invalid)) = true
    · rw [if_pos hbad] at h; cases h
    · rw [if_neg hbad] at h
      by_cases hlast : beat.isLast = true
      · rw [if_pos hlast] at h
        obtain ⟨wlast, completed, ctxs, freeCtxs, rfl⟩ := axiComplete_cases h
        exact ⟨wlast, completed, ctxs, freeCtxs, rfl⟩
      · rw [if_neg hlast] at h
        cases h
        exact ⟨s.wlast, s.log.completed, _, s.axi.freeCtxs, rfl⟩

theorem axiRetry_cases (h : axiRetry status s = some s') :
    ∃ beat, s.axi.heldBeat = some beat ∧
      sendBeat beat status { s with axi := { s.axi with heldBeat := none } } = some s' := by
  unfold axiRetry at h
  match hb : s.axi.heldBeat with
  | none => rw [hb] at h; cases h
  | some beat => rw [hb] at h; exact ⟨beat, rfl, h⟩

theorem axiAck_cases (h : axiAck slot s = some s') :
    ∃ wlast completed ctxs freeCtxs, s' = { s with
      wlast := wlast
      axi := { s.axi with ctxs := ctxs, freeCtxs := freeCtxs }
      log := { s.log with completed := completed } } := by
  unfold axiAck at h
  dsimp only at h
  split at h
  · exact axiComplete_cases h
  · cases h

theorem obiWordDone_cases (h : obiWordDone s = some s') :
    ∃ wlast completed nbInUse, s' = { s with
      wlast := wlast
      obi := { s.obi with nbInUse := nbInUse }
      log := { s.log with completed := completed } } := by
  unfold obiWordDone at h
  split at h
  · cases h
  · obtain ⟨wlast, completed, rfl⟩ := writeBurstDone_cases h
    exact ⟨wlast, completed, _, rfl⟩

/-! ## Beats -/

/-- A read beat enters: it belongs to the burst that heads the read FIFO, and its lanes have room. -/
theorem readBeat_cases {bus : Nat → UInt8}
    (h : readBeat cfg manager token bus s = some s') :
    ∃ slot rest, s.rFifo.entries = slot :: rest ∧
      s.buffer.canPush cfg.width cfg.bufferDepth (beatBytes cfg slot.split s.rBeatIdx) slot.split.shift s.now = true ∧
      s' = readBeatAccept cfg slot bus s := by
  unfold readBeat at h
  match hv : s.rFifo.visibleHead s.now with
  | none => rw [hv] at h; cases h
  | some slot =>
    obtain ⟨rest, hrest⟩ := TimedFifo.entries_of_visibleHead hv
    simp only [hv] at h
    split at h
    · rename_i hcan
      cases h
      exact ⟨slot, rest, hrest, hcan.2.2, rfl⟩
    · cases h

theorem writeBeatReady_cases {split : Split} {bytes : BeatBytes}
    (h : writeBeatReady cfg manager s = some (split, bytes)) :
    ∃ rest, s.wFifo.entries = ⟨split, manager⟩ :: rest ∧ bytes = beatBytes cfg split s.wBeatIdx ∧
      s.buffer.canPop cfg.width bytes split.shift s.now = true := by
  unfold writeBeatReady at h
  match hv : s.wFifo.visibleHead s.now with
  | none => rw [hv] at h; cases h
  | some slot =>
    obtain ⟨rest, hrest⟩ := TimedFifo.entries_of_visibleHead hv
    simp only [hv] at h
    split at h
    · rename_i hcan
      cases h
      obtain ⟨rfl, hpop⟩ := hcan
      exact ⟨rest, hrest, rfl, hpop⟩
    · cases h

/-- A data beat of the AXI manager: the head burst, whose AW is issued, takes its bytes from the buffer. -/
theorem axiTick_cases (h : axiTick cfg status s = some s') :
    ∃ split bytes slot ctxs dataQueue isLast, s.axi.heldBeat = none ∧
      writeBeatReady cfg .axi s = some (split, bytes) ∧
      let taken := writeBeatTake cfg split bytes (fun _ => 0) s
      let beat : Beat :=
        ⟨busAddr cfg split s.wBeatIdx bytes.first, bytes.count, fun i => taken.2 (bytes.first + i), isLast, slot⟩
      sendBeat beat status { taken.1 with
        axi := { s.axi with ctxs := ctxs, dataQueue := dataQueue }
        log := { s.log with emitted := s.log.emitted ++ beat.writes } } = some s' := by
  unfold axiTick at h
  match hb : s.axi.heldBeat, hq : s.axi.dataQueue with
  | some _, _ => rw [hb] at h; cases h
  | none, [] => rw [hb, hq] at h; cases h
  | none, slot :: rest =>
    simp only [hb, hq] at h
    split at h
    · match hr : writeBeatReady cfg .axi s with
      | none => rw [hr] at h; cases h
      | some (split, bytes) =>
        rw [hr] at h
        exact ⟨split, bytes, slot, _, _, _, rfl, rfl, h⟩
    · cases h

theorem obiIssueWord_cases (h : obiIssueWord cfg s = some s') :
    ∃ split bytes obi, writeBeatReady cfg .obi s = some (split, bytes) ∧
      let taken := writeBeatTake cfg split bytes (fun _ => 0) s
      let writes := (List.range bytes.count).map fun i =>
        ((alignDown cfg split.addr + bytes.first + i) % addrSpace, taken.2 (bytes.first + i))
      s' = { taken.1 with
        obi := obi
        log := { s.log with emitted := s.log.emitted ++ writes, accepted := s.log.accepted ++ writes } } := by
  unfold obiIssueWord at h
  split at h
  · cases h
  · match hr : writeBeatReady cfg .obi s with
    | none => rw [hr] at h; cases h
    | some (split, bytes) =>
      rw [hr] at h
      cases h
      exact ⟨split, bytes, _, rfl, rfl⟩

/-! ## The legalizer -/

/-- A request the legalizer takes fills both sides; anything else only answers a zero-length request. -/
theorem takeRequest_cases (h : takeRequest cfg next s = some s') :
    (∃ lastTakeCycle completed, s' = { s with
      legalizer := { s.legalizer with lastTakeCycle := lastTakeCycle }
      log := { s.log with completed := completed } }) ∨
    ∃ req rm wm lastTakeCycle, 0 < req.length ∧ cfg.readManager req.srcProt = some rm ∧
      cfg.writeManager req.dstProt = some wm ∧
      s' = { s with
        legalizer :=
          { r := ⟨true, req.src, req.length, u16 (req.src % cfg.width), req.srcReduceLen, req.srcMaxLlen⟩
            w := ⟨true, req.dst, req.length, u16 ((cfg.width - req.dst % cfg.width) % cfg.width), req.dstReduceLen,
              req.dstMaxLlen⟩
            req := some req
            rm := some rm
            wm := some wm
            coupled := !req.decoupleRw && !rm.notBursting && !wm.notBursting
            lastTakeCycle := lastTakeCycle }
        log := { s.log with taken := s.log.taken ++ [req] } } := by
  unfold takeRequest at h
  dsimp only at h
  split at h
  · left; cases h; exact ⟨s.legalizer.lastTakeCycle, s.log.completed, rfl⟩
  · split at h
    · left; cases h; exact ⟨s.legalizer.lastTakeCycle, s.log.completed, rfl⟩
    · match next with
      | none => left; cases h; exact ⟨s.legalizer.lastTakeCycle, s.log.completed, rfl⟩
      | some req =>
        dsimp only at h
        split at h
        · left; cases h; exact ⟨_, _, rfl⟩
        · rename_i hzero
          match hr : cfg.readManager req.srcProt, hw : cfg.writeManager req.dstProt with
          | some rm, some wm =>
            right
            rw [hr, hw] at h
            cases h
            exact ⟨req, rm, wm, _, Nat.pos_of_ne_zero hzero, hr, hw, rfl⟩
          | none, _ => rw [hr] at h; cases h
          | some _, none => rw [hr, hw] at h; cases h

theorem rejectZero_cases (next : Option Request) (s : Backend) :
    ∃ lastTakeCycle completed, rejectZero next s = { s with
      legalizer := { s.legalizer with lastTakeCycle := lastTakeCycle }
      log := { s.log with completed := completed } } := by
  unfold rejectZero
  match next with
  | none => exact ⟨s.legalizer.lastTakeCycle, s.log.completed, rfl⟩
  | some req =>
    dsimp only
    split
    · exact ⟨_, _, rfl⟩
    · exact ⟨s.legalizer.lastTakeCycle, s.log.completed, rfl⟩

theorem emitWrite_cases {bytes : Nat} (h : emitWrite cfg req wm bytes s = some s') :
    ∃ wlast axi obi, axi.heldBeat = s.axi.heldBeat ∧ s' = { s with
      wFifo := s.wFifo.push ⟨makeSplit cfg req s.legalizer.w bytes, wm⟩ s.now
      wlast := wlast
      legalizer := { s.legalizer with w := s.legalizer.w.advance bytes }
      axi := axi
      obi := obi } := by
  unfold emitWrite issueAw at h
  cases wm with
  | obi => cases h; exact ⟨_, _, _, rfl, rfl⟩
  | axi =>
    obtain ⟨a, ha, rfl⟩ := Option.map_eq_some_iff.1 h
    refine ⟨_, a, _, ?_, rfl⟩
    unfold AxiWrite.issueAw at ha
    split at ha
    · cases ha
    · cases ha
      split
      · split
        · rfl
        · rfl
      · rfl

/-- One evaluation cuts at most one burst off each side: coupled sides the same number of bytes together, other sides
up to their own boundary. -/
theorem cut_cases {rm : Manager}
    (h : cut cfg rm wm req arReady token s = some s') :
    s' = s ∨
    (∃ bytes, s.legalizer.coupled = true ∧ s.legalizer.r.valid = true ∧ s.legalizer.w.valid = true ∧
      bytes = min (sideBytes cfg s.legalizer.r rm (cfg.pageSize cfg.readBurstLen))
        (sideBytes cfg s.legalizer.w wm (cfg.pageSize cfg.writeBurstLen)) ∧
      emitWrite cfg req wm bytes (emitRead cfg req rm bytes token s) = some s') ∨
    (s.legalizer.coupled = false ∧ ∃ s₁,
      (s₁ = s ∨ s.legalizer.r.valid = true ∧
        s₁ = emitRead cfg req rm (sideBytes cfg s.legalizer.r rm (cfg.pageSize cfg.readBurstLen)) token s) ∧
      (s' = s₁ ∨ s.legalizer.w.valid = true ∧
        emitWrite cfg req wm (sideBytes cfg s.legalizer.w wm (cfg.pageSize cfg.writeBurstLen)) s₁ = some s')) := by
  unfold cut plan at h
  dsimp only at h
  generalize hrr : (s.legalizer.r.valid && s.rFifo.canPush cfg.numAxInFlight s.now && arReady) = rReady at h
  generalize hwr : (s.legalizer.w.valid && s.wFifo.canPush cfg.numAxInFlight s.now &&
    s.wlast.canPush cfg.wlastDepth s.now && awReady cfg s wm) = wReady at h
  have hr : rReady = true → s.legalizer.r.valid = true := by
    intro hgo
    rw [← hrr, Bool.and_eq_true, Bool.and_eq_true] at hgo
    exact hgo.1.1
  have hw : wReady = true → s.legalizer.w.valid = true := by
    intro hgo
    rw [← hwr, Bool.and_eq_true, Bool.and_eq_true, Bool.and_eq_true] at hgo
    exact hgo.1.1.1
  cases hc : s.legalizer.coupled with
  | true =>
    simp only [hc, if_true] at h
    cases hgo : rReady && wReady with
    | true =>
      obtain ⟨hrgo, hwgo⟩ := (Bool.and_eq_true _ _).mp hgo
      simp only [hgo, if_true] at h
      exact .inr (.inl ⟨_, rfl, hr hrgo, hw hwgo, rfl, h⟩)
    | false =>
      simp only [hgo, Bool.false_eq_true, if_false, Option.some.injEq] at h
      exact .inl h.symm
  | false =>
    simp only [hc, Bool.false_eq_true, if_false] at h
    refine .inr (.inr ⟨rfl, if rReady then
      emitRead cfg req rm (sideBytes cfg s.legalizer.r rm (cfg.pageSize cfg.readBurstLen)) token s else s, ?_, ?_⟩)
    · cases hrgo : rReady with
      | true => exact .inr ⟨hr hrgo, by rw [if_pos rfl]⟩
      | false => exact .inl rfl
    · cases hwgo : wReady with
      | true =>
        rw [hwgo, if_pos rfl] at h
        exact .inr ⟨hw hwgo, h⟩
      | false =>
        rw [hwgo] at h
        cases h
        exact .inl rfl

/-- An evaluation takes a request when both sides are done, or cuts the current one and then takes the next one if
that was its last burst. -/
theorem legalizerStep_cases
    (h : legalizerStep cfg next arReady token s = some s') :
    (s.legalizer.r.valid = false ∧ s.legalizer.w.valid = false ∧ takeRequest cfg next s = some s') ∨
    ∃ req rm wm s₁, (s.legalizer.r.valid = true ∨ s.legalizer.w.valid = true) ∧ s.legalizer.req = some req ∧
      s.legalizer.rm = some rm ∧ s.legalizer.wm = some wm ∧
        cut cfg rm wm req arReady token (rejectZero next s) = some s₁ ∧
      (s' = s₁ ∨ s₁.legalizer.r.valid = false ∧ s₁.legalizer.w.valid = false ∧
        takeRequest cfg next { s₁ with legalizer := { s₁.legalizer with req := none } } = some s') := by
  unfold legalizerStep at h
  split at h
  · rename_i hidle
    simp only [Bool.and_eq_true, Bool.not_eq_true'] at hidle
    exact .inl ⟨hidle.1, hidle.2, h⟩
  · rename_i hbusy
    have hvalid : s.legalizer.r.valid = true ∨ s.legalizer.w.valid = true := by
      rwa [Bool.and_eq_true, Bool.not_eq_true', Bool.not_eq_true', ← Bool.not_eq_true, ← Bool.not_eq_true, not_and_or,
        not_not, not_not] at hbusy
    right
    match hreq : s.legalizer.req, hrm : s.legalizer.rm, hwm : s.legalizer.wm with
    | some req, some rm, some wm =>
      simp only [hreq, hrm, hwm] at h
      obtain ⟨s₁, hcut, h⟩ := Option.bind_eq_some_iff.1 h
      refine ⟨req, rm, wm, s₁, hvalid, rfl, rfl, rfl, hcut, ?_⟩
      split at h
      · rename_i hidle
        simp only [Bool.and_eq_true, Bool.not_eq_true'] at hidle
        exact .inr ⟨hidle.1, hidle.2, h⟩
      · cases h; exact .inl rfl
    | none, _, _ => rw [hreq] at h; cases h
    | some _, none, _ => rw [hreq, hrm] at h; cases h
    | some _, some _, none => rw [hreq, hrm, hwm] at h; cases h

end GvsocPulp.IdmaV3
