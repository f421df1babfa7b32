import GvsocPulp.IdmaV3.Calls
import GvsocPulp.IdmaV3.Pages

/-!
# The read/write channel coupler

With `raw_coupling` a write burst waits for the first beat of a read burst, unless its request has `decouple_aw`. The
bursts of the two sides are cut together only when the request does not have `decouple_rw`: the bursts of the other
requests have to be counted on both sides.

- `CouplerInv`: credits and waiting addresses against the bursts cut so far; `step_coupler`: every call keeps it;
- `coupler_iff`: no address waits exactly if the write bursts are covered by the read bursts;
- `coupler_starved`: a copy whose second write burst waits for good.
-/

namespace GvsocPulp.IdmaV3

open Lib List

variable {a : AxiWrite} {bytes : Nat} {next : Option Request} {arReady : Bool} {bus : Nat → UInt8}

/-! ## Bursts of a request -/

section Bursts

variable (cfg : Config)

def readPage (req : Request) : Nat := sidePage cfg cfg.readBurstLen req.srcReduceLen req.srcMaxLlen

def writePage (req : Request) : Nat := sidePage cfg cfg.writeBurstLen req.dstReduceLen req.dstMaxLlen

/-- The two sides are cut on their own, and the write bursts wait for credits. -/
def Request.cutApart (req : Request) : Bool := req.decoupleRw && !req.decoupleAw

def readBursts (reqs : List Request) : Nat :=
  (reqs.map fun req => if req.cutApart then burstCount (readPage cfg req) req.src req.length else 0).sum

def writeBursts (reqs : List Request) : Nat :=
  (reqs.map fun req => if req.cutApart then burstCount (writePage cfg req) req.dst req.length else 0).sum

def readLeft (current : Option Request) (r : Side) : Nat :=
  current.elim 0 fun req => if req.cutApart then burstCount (readPage cfg req) r.addr r.length else 0

def writeLeft (current : Option Request) (w : Side) : Nat :=
  current.elim 0 fun req => if req.cutApart then burstCount (writePage cfg req) w.addr w.length else 0

end Bursts

/-- The read bursts in the FIFO whose first beat is still to come. -/
def unstarted (s : Backend) : List ReadSlot := s.rFifo.entries.drop (if s.rBeatIdx = 0 then 0 else 1)

/-- All read bursts of the requests taken so far have delivered their first beat. -/
def ReadsStarted (s : Backend) : Prop := s.legalizer.r.valid = false ∧ unstarted s = []

/-- All write bursts of the requests taken so far have been issued. -/
def WritesIssued (s : Backend) : Prop := s.legalizer.w.valid = false

instance (s : Backend) : Decidable (ReadsStarted s) :=
  inferInstanceAs (Decidable (s.legalizer.r.valid = false ∧ unstarted s = []))

instance (s : Backend) : Decidable (WritesIssued s) := inferInstanceAs (Decidable (s.legalizer.w.valid = false))

/-- The number of bursts whose request does not have `decouple_aw`. -/
def credited (slots : List ReadSlot) : Nat := slots.countP fun slot => !slot.split.decoupleAw

/-- What the legalizer registers say about the current request. -/
structure Job (cfg : Config) (lg : Legalizer) (req : Request) : Prop where
  rm : lg.rm = some .axi
  wm : lg.wm = some .axi
  dst : cfg.writeManager req.dstProt = some .axi
  coupled : lg.coupled = !req.decoupleRw
  r_reduce : lg.r.reduceLen = req.srcReduceLen ∧ lg.r.maxLlen = req.srcMaxLlen
  w_reduce : lg.w.reduceLen = req.dstReduceLen ∧ lg.w.maxLlen = req.dstMaxLlen
  lockstep : lg.coupled = true → lg.r.length = lg.w.length

structure CouplerInv (cfg : Config) (s : Backend) : Prop where
  r_valid : s.legalizer.r.valid = decide (s.legalizer.r.length ≠ 0)
  w_valid : s.legalizer.w.valid = decide (s.legalizer.w.length ≠ 0)
  job : ∀ req, s.legalizer.req = some req → Job cfg s.legalizer req
  slots : ∀ slot ∈ s.rFifo.entries, cfg.writeManager slot.split.req.dstProt = some .axi
  started : s.rBeatIdx ≠ 0 → s.rFifo.entries ≠ []
  apart : s.axi.awCredits = 0 ∨ s.axi.awWaiting = []
  balance : s.axi.awCredits + writeBursts cfg s.log.taken + readLeft cfg s.legalizer.req s.legalizer.r
      + credited (unstarted s)
    = s.axi.awWaiting.length + readBursts cfg s.log.taken + writeLeft cfg s.legalizer.req s.legalizer.w

section Steps

variable {cfg : Config} {s s' : Backend}

/-! ## The AXI manager -/

theorem issueAw_balance {split : Split} {a' : AxiWrite} (hraw : cfg.rawCoupling = true)
    (h : a.issueAw cfg split = some a') (hapart : a.awCredits = 0 ∨ a.awWaiting = []) :
    (a'.awCredits = 0 ∨ a'.awWaiting = []) ∧
      a'.awCredits + a.awWaiting.length + (if split.decoupleAw then 0 else 1) = a.awCredits + a'.awWaiting.length := by
  unfold AxiWrite.issueAw at h
  match hf : a.freeCtxs with
  | [] => rw [hf] at h; cases h
  | slot :: free =>
    simp only [hf, hraw, Bool.true_and, Option.some.injEq] at h
    subst h
    cases hd : split.decoupleAw with
    | true => simpa [hd] using hapart
    | false =>
      by_cases hc : a.awCredits > 0
      · rw [if_pos hc]
        have hnil : a.awWaiting = [] := hapart.resolve_left (by omega)
        refine ⟨.inr hnil, ?_⟩
        show a.awCredits - 1 + a.awWaiting.length + 1 = a.awCredits + a.awWaiting.length
        omega
      · rw [if_neg hc]
        have hzero : a.awCredits = 0 := by omega
        refine ⟨.inl hzero, ?_⟩
        show a.awCredits + a.awWaiting.length + 1 = a.awCredits + (a.awWaiting ++ [slot]).length
        rw [length_append, length_singleton]
        omega

theorem onReadFirstBeat_balance (hraw : cfg.rawCoupling = true) (hapart : a.awCredits = 0 ∨ a.awWaiting = []) :
    ((a.onReadFirstBeat cfg).awCredits = 0 ∨ (a.onReadFirstBeat cfg).awWaiting = []) ∧
      (a.onReadFirstBeat cfg).awCredits + a.awWaiting.length
        = a.awCredits + (a.onReadFirstBeat cfg).awWaiting.length + 1 := by
  unfold AxiWrite.onReadFirstBeat
  rw [if_pos hraw]
  match hw : a.awWaiting with
  | [] =>
    refine ⟨.inr rfl, ?_⟩
    show a.awCredits + 1 + 0 = a.awCredits + 0 + 1
    omega
  | slot :: rest =>
    have hzero : a.awCredits = 0 := hapart.resolve_right (by rw [hw]; simp)
    refine ⟨.inl hzero, ?_⟩
    show a.awCredits + (rest.length + 1) = a.awCredits + rest.length + 1
    omega

variable {req : Request}

theorem emitWrite_axi (h : emitWrite cfg req .axi bytes s = some s') :
    ∃ a wFifo wlast, s.axi.issueAw cfg (makeSplit cfg req s.legalizer.w bytes) = some a ∧ s' = { s with
      wFifo := wFifo
      wlast := wlast
      legalizer := { s.legalizer with w := s.legalizer.w.advance bytes }
      axi := a } := by
  unfold emitWrite issueAw at h
  obtain ⟨a, ha, rfl⟩ := Option.map_eq_some_iff.1 h
  exact ⟨a, _, _, ha, rfl⟩

/-! ## The legalizer -/

theorem Side.advance_valid (side : Side) (bytes : Nat) :
    (side.advance bytes).valid = decide ((side.advance bytes).length ≠ 0) := rfl

theorem burstCount_advance {side : Side} {burstLen : Nat} (hv : side.valid = true) (hl : side.length ≠ 0) :
    burstCount (sidePage cfg burstLen side.reduceLen side.maxLlen) side.addr side.length =
      burstCount (sidePage cfg burstLen side.reduceLen side.maxLlen)
        (side.advance (sideBytes cfg side .axi (cfg.pageSize burstLen))).addr
        (side.advance (sideBytes cfg side .axi (cfg.pageSize burstLen))).length + 1 :=
  burstCount_step (sidePage_pos _ _ _) (sidePage_dvd _ _ _) (Nat.pos_of_ne_zero hl) (sideBytes_axi hv burstLen)

theorem credited_append (xs ys : List ReadSlot) : credited (xs ++ ys) = credited xs + credited ys :=
  countP_append

theorem credited_singleton (slot : ReadSlot) : credited [slot] = if slot.split.decoupleAw then 0 else 1 := by
  cases h : slot.split.decoupleAw <;> simp [credited, h]

variable {token : Nat} {rm : Manager}

theorem unstarted_emitRead (hs : s.rBeatIdx ≠ 0 → s.rFifo.entries ≠ []) : unstarted (emitRead cfg req rm bytes token s)
      = unstarted s ++ [⟨makeSplit cfg req s.legalizer.r bytes, rm, token⟩] := by
  unfold unstarted emitRead
  rw [TimedFifo.entries_push]
  by_cases hb : s.rBeatIdx = 0
  · simp [hb]
  · have hpos := length_pos_iff.2 (hs hb)
    simp only [hb, if_false]
    exact drop_append_of_le_length hpos

section

variable (h : CouplerInv cfg s) (hreq : s.legalizer.req = some req)
include h hreq

theorem CouplerInv.readLeft_advance (hv : s.legalizer.r.valid = true) :
    readLeft cfg s.legalizer.req s.legalizer.r = readLeft cfg s.legalizer.req
        (s.legalizer.r.advance (sideBytes cfg s.legalizer.r .axi (cfg.pageSize cfg.readBurstLen)))
      + if req.cutApart then 1 else 0 := by
  have hl : s.legalizer.r.length ≠ 0 := by simpa [hv] using h.r_valid
  have hjob := h.job req hreq
  have hcount := @burstCount_advance cfg _ cfg.readBurstLen hv hl
  rw [hjob.r_reduce.1, hjob.r_reduce.2, ← readPage] at hcount
  rw [hreq]
  cases hcut : req.cutApart with
  | true => simpa [readLeft, hcut] using hcount
  | false => simp [readLeft, hcut]

theorem slots_emitRead : ∀ slot ∈ (emitRead cfg req rm bytes token s).rFifo.entries,
      cfg.writeManager slot.split.req.dstProt = some .axi := by
  intro slot hslot
  simp only [emitRead, TimedFifo.entries_push, mem_append, mem_singleton] at hslot
  rcases hslot with hslot | rfl
  · exact h.slots slot hslot
  · exact (h.job req hreq).dst

theorem emitRead_coupler (hv : s.legalizer.r.valid = true) (hc : s.legalizer.coupled = false) :
    CouplerInv cfg
      (emitRead cfg req .axi (sideBytes cfg s.legalizer.r .axi (cfg.pageSize cfg.readBurstLen)) token s) := by
  have hjob := h.job req hreq
  have hleft := h.readLeft_advance hreq hv
  have hbalance := h.balance
  refine ⟨Side.advance_valid _ _, h.w_valid, fun req' hreq' => ?_, slots_emitRead h hreq, fun _ => ?_, h.apart, ?_⟩
  · cases hreq.symm.trans hreq'
    exact { hjob with lockstep := fun hc' => by rw [show s.legalizer.coupled = true from hc'] at hc; cases hc }
  · simp [emitRead]
  · rw [unstarted_emitRead h.started, credited_append, credited_singleton]
    have hrw : req.decoupleRw = true := by simpa [hc] using hjob.coupled
    have hapart : req.cutApart = !req.decoupleAw := by simp [Request.cutApart, hrw]
    have hdaw : (makeSplit cfg req s.legalizer.r
      (sideBytes cfg s.legalizer.r .axi (cfg.pageSize cfg.readBurstLen))).decoupleAw = req.decoupleAw := rfl
    rw [hdaw]
    rw [hapart] at hleft
    show s.axi.awCredits + writeBursts cfg s.log.taken + readLeft cfg s.legalizer.req (s.legalizer.r.advance _) + _
      = s.axi.awWaiting.length + readBursts cfg s.log.taken + writeLeft cfg s.legalizer.req s.legalizer.w
    cases hd : req.decoupleAw <;> simp [hd] at hleft ⊢ <;> omega

theorem CouplerInv.writeLeft_advance (hv : s.legalizer.w.valid = true) :
    writeLeft cfg s.legalizer.req s.legalizer.w = writeLeft cfg s.legalizer.req
        (s.legalizer.w.advance (sideBytes cfg s.legalizer.w .axi (cfg.pageSize cfg.writeBurstLen)))
      + if req.cutApart then 1 else 0 := by
  have hl : s.legalizer.w.length ≠ 0 := by simpa [hv] using h.w_valid
  have hjob := h.job req hreq
  have hcount := @burstCount_advance cfg _ cfg.writeBurstLen hv hl
  rw [hjob.w_reduce.1, hjob.w_reduce.2, ← writePage] at hcount
  rw [hreq]
  cases hcut : req.cutApart with
  | true => simpa [writeLeft, hcut] using hcount
  | false => simp [writeLeft, hcut]

end

section

variable (hraw : cfg.rawCoupling = true) (h : CouplerInv cfg s) (hreq : s.legalizer.req = some req)
include hraw h hreq

theorem emitWrite_coupler (hv : s.legalizer.w.valid = true) (hc : s.legalizer.coupled = false)
    (hw : emitWrite cfg req .axi (sideBytes cfg s.legalizer.w .axi (cfg.pageSize cfg.writeBurstLen)) s = some s') :
    CouplerInv cfg s' := by
  have hjob := h.job req hreq
  have hleft := h.writeLeft_advance hreq hv
  have hbalance := h.balance
  obtain ⟨a, wFifo, wlast, ha, rfl⟩ := emitWrite_axi hw
  obtain ⟨hapart', haw⟩ := issueAw_balance hraw ha h.apart
  refine ⟨h.r_valid, Side.advance_valid _ _, fun req' hreq' => ?_, h.slots, h.started, hapart', ?_⟩
  · cases hreq.symm.trans hreq'
    exact { hjob with lockstep := fun hc' => by rw [show s.legalizer.coupled = true from hc'] at hc; cases hc }
  · have hrw : req.decoupleRw = true := by simpa [hc] using hjob.coupled
    have hapart : req.cutApart = !req.decoupleAw := by simp [Request.cutApart, hrw]
    have hdaw : (makeSplit cfg req s.legalizer.w
      (sideBytes cfg s.legalizer.w .axi (cfg.pageSize cfg.writeBurstLen))).decoupleAw = req.decoupleAw := rfl
    rw [hdaw] at haw
    rw [hapart] at hleft
    show a.awCredits + writeBursts cfg s.log.taken + readLeft cfg s.legalizer.req s.legalizer.r + credited (unstarted s)
      = a.awWaiting.length + readBursts cfg s.log.taken + writeLeft cfg s.legalizer.req (s.legalizer.w.advance _)
    cases hd : req.decoupleAw <;> simp [hd] at hleft haw <;> omega

theorem emitBoth_coupler (hc : s.legalizer.coupled = true)
    (hw : emitWrite cfg req .axi bytes (emitRead cfg req .axi bytes token s) = some s') : CouplerInv cfg s' := by
  have hjob := h.job req hreq
  have hbalance := h.balance
  obtain ⟨a, wFifo, wlast, ha, rfl⟩ := emitWrite_axi hw
  obtain ⟨hapart', haw⟩ := issueAw_balance hraw ha h.apart
  refine ⟨Side.advance_valid _ _, Side.advance_valid _ _, fun req' hreq' => ?_, slots_emitRead h hreq, fun _ => ?_,
    hapart', ?_⟩
  · cases hreq.symm.trans hreq'
    refine { hjob with lockstep := fun _ => ?_ }
    show s.legalizer.r.length - bytes = s.legalizer.w.length - bytes
    rw [hjob.lockstep hc]
  · simp [emitRead]
  · have hrw : req.decoupleRw = false := by simpa [hc] using hjob.coupled
    have hnot : req.cutApart = false := by simp [Request.cutApart, hrw]
    have hr : ∀ r, readLeft cfg s.legalizer.req r = 0 := fun r => by simp [readLeft, hreq, hnot]
    have hw : ∀ w, writeLeft cfg s.legalizer.req w = 0 := fun w => by simp [writeLeft, hreq, hnot]
    have hunstarted : unstarted (emitRead cfg req .axi bytes token s)
        = unstarted s ++ [⟨makeSplit cfg req s.legalizer.r bytes, .axi, token⟩] := unstarted_emitRead h.started
    show a.awCredits + writeBursts cfg s.log.taken + readLeft cfg s.legalizer.req _
        + credited (unstarted (emitRead cfg req .axi bytes token s))
      = a.awWaiting.length + readBursts cfg s.log.taken + writeLeft cfg s.legalizer.req _
    rw [hunstarted, credited_append, credited_singleton, hr, hw]
    rw [hr, hw] at hbalance
    have hdaw : ∀ side, (makeSplit cfg req side bytes).decoupleAw = req.decoupleAw := fun _ => rfl
    rw [hdaw] at haw ⊢
    have haw : a.awCredits + s.axi.awWaiting.length + (if req.decoupleAw = true then 0 else 1)
      = s.axi.awCredits + a.awWaiting.length := haw
    omega

end

theorem CouplerInv.answer (h : CouplerInv cfg s) (lastTakeCycle : Int) (completed : List Request) :
    CouplerInv cfg { s with
      legalizer := { s.legalizer with lastTakeCycle := lastTakeCycle }
      log := { s.log with completed := completed } } := by
  refine { h with job := fun req hreq => ?_ }
  have hjob := h.job req hreq
  exact { hjob with }

theorem CouplerInv.length_zero (h : CouplerInv cfg s) (hr : s.legalizer.r.valid = false)
    (hw : s.legalizer.w.valid = false) : s.legalizer.r.length = 0 ∧ s.legalizer.w.length = 0 := by
  have hr' := h.r_valid
  have hw' := h.w_valid
  rw [hr] at hr'
  rw [hw] at hw'
  simpa using And.intro hr' hw'

theorem left_zero {current : Option Request} {r w : Side} (hr : r.length = 0) (hw : w.length = 0) :
    readLeft cfg current r = 0 ∧ writeLeft cfg current w = 0 := by
  cases current with
  | none => exact ⟨rfl, rfl⟩
  | some req => simp [readLeft, writeLeft, hr, hw]

theorem CouplerInv.finish (h : CouplerInv cfg s) (hr : s.legalizer.r.valid = false) (hw : s.legalizer.w.valid = false) :
    CouplerInv cfg { s with legalizer := { s.legalizer with req := none } } := by
  obtain ⟨hr₀, hw₀⟩ := h.length_zero hr hw
  obtain ⟨hrl, hwl⟩ := @left_zero cfg s.legalizer.req _ _ hr₀ hw₀
  have hbalance := h.balance
  rw [hrl, hwl] at hbalance
  exact { h with job := nofun, balance := hbalance }

theorem manager_axi (hraw : cfg.rawCoupling = true) {p : Protocol}
    (h : cfg.readManager p = some rm ∨ cfg.writeManager p = some rm) : rm = .axi := by
  obtain ⟨hr, hw⟩ := cfg.coupling_axi hraw
  unfold Config.readManager Config.writeManager at h
  cases p <;> simp [hr, hw] at h
  all_goals grind

section

variable (hraw : cfg.rawCoupling = true) (h : CouplerInv cfg s)
include hraw h

theorem takeRequest_coupler (hr : s.legalizer.r.valid = false) (hw : s.legalizer.w.valid = false)
    (ht : takeRequest cfg next s = some s') : CouplerInv cfg s' := by
  rcases takeRequest_cases ht with ⟨lastTakeCycle, completed, rfl⟩ | ⟨req, rm, wm, lastTakeCycle, hl, hrm, hwm, rfl⟩
  · exact h.answer lastTakeCycle completed
  · cases manager_axi hraw (.inl hrm)
    cases manager_axi hraw (.inr hwm)
    obtain ⟨hr₀, hw₀⟩ := h.length_zero hr hw
    obtain ⟨hrl, hwl⟩ := @left_zero cfg s.legalizer.req _ _ hr₀ hw₀
    have hbalance := h.balance
    rw [hrl, hwl] at hbalance
    have hvalid : true = decide (req.length ≠ 0) := by simpa using hl.ne'
    refine ⟨hvalid, hvalid, fun req' hreq' => ?_, h.slots, h.started, h.apart, ?_⟩
    · cases hreq'
      exact ⟨rfl, rfl, hwm, by simp [Manager.notBursting], ⟨rfl, rfl⟩, ⟨rfl, rfl⟩, fun _ => rfl⟩
    · show s.axi.awCredits + writeBursts cfg (s.log.taken ++ [req]) + readLeft cfg (some req) _
          + credited (unstarted s)
        = s.axi.awWaiting.length + readBursts cfg (s.log.taken ++ [req]) + writeLeft cfg (some req) _
      simp only [readBursts, writeBursts, map_append, List.sum_append, map_cons, map_nil,
        sum_cons, sum_nil, readLeft, writeLeft, Option.elim] at hbalance ⊢
      omega

theorem cut_coupler (hreq : s.legalizer.req = some req)
    (hcut : cut cfg .axi .axi req arReady token s = some s') : CouplerInv cfg s' := by
  rcases cut_cases hcut with rfl | ⟨bytes, hc, -, -, -, hw⟩ | ⟨hc, s₁, hr, hw⟩
  · exact h
  · exact emitBoth_coupler hraw h hreq hc hw
  · have h₁ : CouplerInv cfg s₁ ∧ s₁.legalizer.req = some req ∧ s₁.legalizer.coupled = false ∧
        s₁.legalizer.w = s.legalizer.w := by
      rcases hr with rfl | ⟨hv, rfl⟩
      · exact ⟨h, hreq, hc, rfl⟩
      · exact ⟨emitRead_coupler h hreq hv hc, hreq, hc, rfl⟩
    obtain ⟨h₁, hreq₁, hc₁, hw₁⟩ := h₁
    rcases hw with rfl | ⟨hv, hw⟩
    · exact h₁
    · rw [← hw₁] at hv hw
      exact emitWrite_coupler hraw h₁ hreq₁ hv hc₁ hw

theorem legalizerStep_coupler (hs : legalizerStep cfg next arReady token s = some s') : CouplerInv cfg s' := by
  rcases legalizerStep_cases hs with ⟨hr, hw, ht⟩ | ⟨req, rm, wm, s₁, -, hreq, hrm, hwm, hcut, hs'⟩
  · exact takeRequest_coupler hraw h hr hw ht
  · have hjob := h.job req hreq
    cases hrm.symm.trans hjob.rm
    cases hwm.symm.trans hjob.wm
    obtain ⟨lastTakeCycle, completed, hz⟩ := rejectZero_cases next s
    rw [hz] at hcut
    have h₁ := cut_coupler hraw (h.answer lastTakeCycle completed) hreq hcut
    rcases hs' with rfl | ⟨hr, hw, ht⟩
    · exact h₁
    · exact takeRequest_coupler hraw (h₁.finish hr hw) hr hw ht

end

/-! ## Beats -/

/-- After a read beat only the bursts behind the head have not delivered their first beat. -/
theorem unstarted_readBeatAccept {slot : ReadSlot} {rest : List ReadSlot}
    (he : s.rFifo.entries = slot :: rest) : unstarted (readBeatAccept cfg slot bus s) = rest := by
  unfold unstarted readBeatAccept
  by_cases hdone : s.rBeatIdx + 1 = slot.split.numBeats
  · simp [hdone, he]
  · simp [hdone, he]

theorem readBeat_coupler (hraw : cfg.rawCoupling = true) (h : CouplerInv cfg s) {manager : Manager}
    (hs : readBeat cfg manager token bus s = some s') : CouplerInv cfg s' := by
  obtain ⟨slot, rest, he, -, rfl⟩ := readBeat_cases hs
  have hdst := h.slots slot (he ▸ mem_cons_self)
  have hbalance := h.balance
  have hun : unstarted (readBeatAccept cfg slot bus s) = rest := unstarted_readBeatAccept he
  have hslots : ∀ slot' ∈ (readBeatAccept cfg slot bus s).rFifo.entries,
      cfg.writeManager slot'.split.req.dstProt = some .axi := by
    intro slot' hslot'
    apply h.slots slot'
    unfold readBeatAccept at hslot'
    dsimp only at hslot'
    split at hslot'
    · rw [TimedFifo.entries_pop] at hslot'
      exact mem_of_mem_tail hslot'
    · exact hslot'
  have hstarted : (readBeatAccept cfg slot bus s).rBeatIdx ≠ 0 →
    (readBeatAccept cfg slot bus s).rFifo.entries ≠ [] := by
    unfold readBeatAccept
    dsimp only
    split
    · intro hne; exact absurd rfl hne
    · intro _; rw [he]; exact cons_ne_nil _ _
  have haxi : (readBeatAccept cfg slot bus s).axi =
      if s.rBeatIdx = 0 ∧ slot.split.decoupleAw = false then s.axi.onReadFirstBeat cfg else s.axi := by
    simp [readBeatAccept, hdst]
  have hold : credited (unstarted s) =
      credited rest + if s.rBeatIdx = 0 ∧ slot.split.decoupleAw = false then 1 else 0 := by
    unfold unstarted
    rw [he]
    by_cases hb : s.rBeatIdx = 0
    · cases hd : slot.split.decoupleAw <;> simp [hb, hd, credited]
    · simp [hb]
  have key : (((readBeatAccept cfg slot bus s).axi.awCredits = 0 ∨ (readBeatAccept cfg slot bus s).axi.awWaiting = []) ∧
      (readBeatAccept cfg slot bus s).axi.awCredits + s.axi.awWaiting.length = s.axi.awCredits
        + (readBeatAccept cfg slot bus s).axi.awWaiting.length
        + if s.rBeatIdx = 0 ∧ slot.split.decoupleAw = false then 1 else 0) := by
    rw [haxi]
    by_cases hcredit : s.rBeatIdx = 0 ∧ slot.split.decoupleAw = false
    · rw [if_pos hcredit, if_pos hcredit]
      exact onReadFirstBeat_balance hraw h.apart
    · rw [if_neg hcredit, if_neg hcredit]
      exact ⟨h.apart, rfl⟩
  refine ⟨h.r_valid, h.w_valid, h.job, hslots, hstarted, key.1, ?_⟩
  rw [hun]
  show _ + writeBursts cfg s.log.taken + readLeft cfg s.legalizer.req s.legalizer.r + credited rest
    = _ + readBursts cfg s.log.taken + writeLeft cfg s.legalizer.req s.legalizer.w
  have hcount := key.2
  omega

theorem sendBeat_coupler (h : CouplerInv cfg s) {beat : Beat} {status : ReqStatus}
    (hs : sendBeat beat status s = some s') : CouplerInv cfg s' := by
  rcases sendBeat_cases hs with rfl | ⟨wlast, completed, ctxs, freeCtxs, rfl⟩
  · exact { h with }
  · exact { h with }

/-! ## Runs -/

theorem init_coupler (cfg : Config) : CouplerInv cfg (.init cfg) :=
  ⟨rfl, rfl, fun _ => nofun, fun _ => nofun, fun h => absurd rfl h, .inl rfl, rfl⟩

theorem step_coupler (hraw : cfg.rawCoupling = true) (s : Backend) (e : Event) (s' : Backend) (h : CouplerInv cfg s)
    (hs : step cfg s e = some s') : CouplerInv cfg s' := by
  cases e with
  | legalizer next arReady token => exact legalizerStep_coupler hraw h hs
  | readBeat manager token bus => exact readBeat_coupler hraw h hs
  | axiTick status =>
    obtain ⟨split, bytes, slot, ctxs, dataQueue, isLast, -, -, hsend⟩ := axiTick_cases hs
    apply sendBeat_coupler _ hsend
    exact { h with }
  | axiRetry status =>
    obtain ⟨beat, -, hsend⟩ := axiRetry_cases hs
    apply sendBeat_coupler _ hsend
    exact { h with }
  | axiAck slot =>
    obtain ⟨wlast, completed, ctxs, freeCtxs, rfl⟩ := axiAck_cases hs
    exact { h with }
  | obiIssueWord =>
    obtain ⟨split, bytes, obi, -, rfl⟩ := obiIssueWord_cases hs
    exact { h with }
  | obiWordDone =>
    obtain ⟨wlast, completed, nbInUse, rfl⟩ := obiWordDone_cases hs
    exact { h with }
  | cycle =>
    cases hs
    exact { h with }

/-- Once all read bursts have delivered their first beat, the addresses left waiting are those of the write bursts that
the read bursts do not cover. -/
theorem CouplerInv.waiting_iff (h : CouplerInv cfg s) (hr : ReadsStarted s) :
    s.axi.awWaiting = [] ↔
      writeBursts cfg s.log.taken ≤ readBursts cfg s.log.taken + writeLeft cfg s.legalizer.req s.legalizer.w := by
  have hbalance := h.balance
  have hr₀ : s.legalizer.r.length = 0 := by
    have hv := h.r_valid
    rw [hr.1] at hv
    simpa using hv
  have hleft : readLeft cfg s.legalizer.req s.legalizer.r = 0 := (left_zero (w := {}) hr₀ rfl).1
  have hun : credited (unstarted s) = 0 := by rw [hr.2]; rfl
  rw [← length_eq_zero_iff]
  rcases h.apart with hc | hw
  · omega
  · rw [hw] at hbalance ⊢
    rw [length_nil] at hbalance ⊢
    omega

end Steps

/-- **No write address starves exactly if the read bursts cover the write bursts.** In every state of every run in which
all read bursts of the requests taken so far have delivered their first beat, no address waits if, over the requests
with `decouple_rw` and without `decouple_aw`, the write bursts are at most the read bursts; and when all write bursts
have been issued, only then. -/
theorem coupler_iff (cfg : Config) (hraw : cfg.rawCoupling = true) (es : List Event) (s : Backend)
    (hrun : run (step cfg) (.init cfg) es = some s) (hreads : ReadsStarted s) :
    (writeBursts cfg s.log.taken ≤ readBursts cfg s.log.taken → s.axi.awWaiting = []) ∧
      (WritesIssued s → (s.axi.awWaiting = [] ↔ writeBursts cfg s.log.taken ≤ readBursts cfg s.log.taken)) := by
  have h := run_invariant (step_coupler hraw) (init_coupler cfg) hrun
  rw [h.waiting_iff hreads]
  refine ⟨fun hle => Nat.le_add_right_of_le hle, fun hw => ?_⟩
  have hv := h.w_valid
  rw [show s.legalizer.w.valid = false from hw] at hv
  have hw₀ : s.legalizer.w.length = 0 := by simpa using hv
  rw [(left_zero (r := {}) rfl hw₀).2, add_zero]

/-! ## The DMA of the Snitch cluster -/

/-- The back-end of the Snitch DMA with its default parameters. -/
def snitchDma : Config where
  width := 64
  numAxInFlight := 3
  bufferDepth := 3
  metaFifoDepth := 6
  rawCoupling := true
  readBurstLen := 6
  writeBurstLen := 6
  obiAwFifoDepth := 2
  axiRead := true
  obiRead := false
  axiWrite := true
  obiWrite := false
  width_pow := ⟨6, rfl⟩
  coupling_axi := fun _ => ⟨rfl, rfl⟩

/-- A copy launched by `dmcpy` with `decouple_rw`, evaluated until both sides are cut, and its first read beat. -/
def decoupledCopy (dst : Nat) (h : dst < addrSpace) : List Event :=
  [.legalizer (some { src := 0, dst := dst, length := 64, decoupleRw := true, dst_lt := h }) true 0, .cycle,
    .legalizer none true 0, .cycle, .legalizer none true 0, .readBeat .axi 0 fun j => UInt8.ofNat j]

/-- A copy between two page-aligned buffers has as many write as read bursts, and no address is left waiting. -/
theorem coupler_iff_snitchDma : ∃ s, run (step snitchDma) (.init snitchDma) (decoupledCopy 0 (by decide)) = some s ∧
    s.axi.awWaiting = [] := by
  obtain ⟨s, hrun, hs⟩ := (Option.any_eq_true (fun s => decide (ReadsStarted s ∧
    writeBursts snitchDma s.log.taken ≤ readBursts snitchDma s.log.taken)) _).1
    (show (run (step snitchDma) (.init snitchDma) (decoupledCopy 0 (by decide))).any _ = true by decide +kernel)
  obtain ⟨hreads, hle⟩ := of_decide_eq_true hs
  exact ⟨s, hrun, (coupler_iff snitchDma rfl _ s hrun hreads).1 hle⟩

/-- The copy to `0xfe0` crosses a page on the write side only: its second write burst gets no credit. -/
theorem coupler_starved : ∃ es s, run (step snitchDma) (.init snitchDma) es = some s ∧ ReadsStarted s ∧
    s.axi.awWaiting ≠ [] := by
  obtain ⟨s, hrun, hs⟩ := (Option.any_eq_true (fun s => decide (ReadsStarted s ∧ s.axi.awWaiting ≠ [])) _).1
    (show (run (step snitchDma) (.init snitchDma) (decoupledCopy 0xfe0 (by decide))).any _ = true by decide +kernel)
  exact ⟨_, s, hrun, of_decide_eq_true hs⟩

end GvsocPulp.IdmaV3
