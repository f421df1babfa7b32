import GvsocPulp.IdmaV3.Transfers
import GvsocPulp.Lib.Groups

/-!
# Transfer identifiers

`DONE_ID` counts the completions of the ND transfers of a stream. The lines of a transfer are handed over, cut and
acknowledged one after the other, so transfers that copy something complete once each and in the order of their
identifiers; a zero-length line is answered when it is rejected, whatever its position.

- `StreamInv`: what holds in every reachable state of a stream, with one lemma for each thing that happens to it;
- `transferIds`: what follows for `DONE_ID`, under both front-ends.
-/

namespace GvsocPulp.IdmaV3

open Lib Function List Option IdmaV3.Stream MidEnd TimedFifo

variable {me : MidEnd} {line : Line} {turn : Turn} {done : List NdReq} {t : NdReq} {gone : List NdReq} {event : Event}

/-- The transfer has one line only. -/
def NdReq.Alone (cfg : StreamConfig) (req : NdReq) : Prop :=
  MidEnd.dimReps cfg 0 req req.dim2 = 1 ∧ MidEnd.dimReps cfg 1 req req.dim3 = 1

instance (cfg : StreamConfig) (req : NdReq) : Decidable (req.Alone cfg) := instDecidableAnd

namespace Stream

/-- The line whose write side is being cut. -/
def cutting (s : Stream) : Option Line := if s.wLeft = 0 then none else s.req

/-- The lines handed over whose write bursts are not all acknowledged. -/
def flight (s : Stream) : List Line := (s.wlast.entries.filter (·.2)).map (·.1) ++ s.cutting.toList

/-- The transfer with bytes to copy that the mid-end splits. -/
def splitting (s : Stream) : Option NdReq := (s.me.current.map (·.req)).filter fun req => req.length ≠ 0

/-- A transfer is complete: all its lines are handed over, and all their write bursts are cut and acknowledged. -/
def Complete (s : Stream) (waiting : List NdReq) (t : NdReq) : Prop :=
  t ∉ waiting ∧ t ∉ s.me.queue.entries ∧ (∀ line ∈ s.cutting, line.parent ≠ t) ∧
    ∀ slot ∈ s.wlast.entries, slot.1.parent ≠ t

instance (s : Stream) (waiting : List NdReq) (t : NdReq) : Decidable (s.Complete waiting t) :=
  inferInstanceAs (Decidable (t ∉ waiting ∧ t ∉ s.me.queue.entries ∧ (∀ line ∈ s.cutting, line.parent ≠ t) ∧
    ∀ slot ∈ s.wlast.entries, slot.1.parent ≠ t))

end Stream

/-! ## The invariant -/

/-- The mid-end: the transfer it splits heads the queue, and the line that waits is one of it. -/
structure MidEndOk (cfg : StreamConfig) (me : MidEnd) : Prop where
  head : ∀ c, me.current = some c → ∃ rest, me.queue.entries = c.req :: rest
  line : ∀ line, me.pending = some line → ∃ c, me.current = some c ∧ line.parent = c.req ∧ line.length = c.req.length ∧
    (c.req.Alone cfg → line.superLast = true)
  more : me.pending = none → ∀ c, me.current = some c → ¬c.req.Alone cfg

/-- What holds in every reachable state of a stream; `gone` are the transfers whose lines are all handed over. -/
structure StreamInv (cfg : StreamConfig) (waiting : List NdReq) (s : Stream) : Prop where
  me : MidEndOk cfg s.me
  slots : Grouped Prod.fst Prod.snd s.wlast.entries s.cutting
  lines : Grouped Line.parent Line.superLast s.flight s.splitting
  nonzero : ∀ line ∈ s.flight, line.parent.length ≠ 0
  gone : ∃ gone, s.launched = gone ++ s.me.queue.entries ++ waiting ∧
    (∃ done, gone.filter (·.length ≠ 0) = done ++ (s.flight.filter (·.superLast)).map (·.parent) ∧
      done.length + s.rejected.length = s.counted + s.pendingDone) ∧
    ((∀ r ∈ s.rejected, r.alone = true ∧ r.idle = true) → ∃ done,
      gone = done ++ (s.flight.filter (·.superLast)).map (·.parent) ∧ done.length = s.counted + s.pendingDone)
  zero : ∀ r ∈ s.rejected, r.line.length = 0
  ids : ∀ (i : Nat) (t : NdReq), s.launched[i]? = some t → t.seq = i ∧ t.id = nextIdAfter^[i + 1] 1
  nextId : s.nextId = nextIdAfter^[s.launched.length + 1] 1
  doneId : s.doneId = nextIdAfter^[s.counted] 1

variable {cfg : StreamConfig} {waiting : List NdReq} {s s' : Stream} {now : Int} {req : NdReq}

/-! ## Launches and completions -/

theorem StreamInv.handOut (h : StreamInv cfg [] s) (hseq : req.seq = s.launched.length) (hid : req.id = s.nextId) :
    StreamInv cfg [req] (s.handOut req) := by
  obtain ⟨gone, hgone, hdone⟩ := h.gone
  refine { h with gone := ⟨gone, ?_, hdone⟩, ids := ?_, nextId := ?_ }
  · show s.launched ++ [req] = _
    rw [hgone, append_nil]
    rfl
  · intro i t ht
    rw [Stream.handOut] at ht
    rw [getElem?_append] at ht
    split at ht
    case isTrue => exact h.ids i t ht
    case isFalse hlt =>
      rw [getElem?_singleton] at ht
      split at ht
      case isTrue hi =>
        cases ht
        have hi : i = s.launched.length := by omega
        exact ⟨by rw [hseq, hi], by rw [hid, h.nextId, hi]⟩
      case isFalse => cases ht
  · show nextIdAfter s.nextId = _
    rw [h.nextId, Stream.handOut, length_append, length_singleton, ← iterate_succ_apply' nextIdAfter]

theorem StreamInv.push {delay : Nat} (h : StreamInv cfg [req] s) :
    StreamInv cfg [] { s with me := s.me.pushNd req delay now } := by
  obtain ⟨gone, hgone, hdone⟩ := h.gone
  have hentries : (s.me.pushNd req delay now).queue.entries = s.me.queue.entries ++ [req] := by
    rw [pushNd, entries_push]
  refine { h with me := ⟨fun c hc => ?_, h.me.line, h.me.more⟩, gone := ⟨gone, ?_, hdone⟩ }
  · obtain ⟨rest, hrest⟩ := h.me.head c hc
    exact ⟨rest ++ [req], by rw [hentries, hrest]; rfl⟩
  · rw [hentries, hgone]
    simp

theorem StreamInv.doneHandler (h : StreamInv cfg waiting s) : StreamInv cfg waiting s.doneHandler := by
  refine { h with doneId := ?_ }
  show nextIdAfter^[s.pendingDone] s.doneId = _
  rw [h.doneId, ← iterate_add_apply, Nat.add_comm]
  rfl

theorem StreamInv.writeBurstDone (h : StreamInv cfg waiting s) (hs : s.writeBurstDone now = some s') :
    StreamInv cfg waiting s' := by
  rw [Stream.writeBurstDone] at hs
  split at hs
  case h_1 => cases hs
  case h_2 line last rest hslots =>
    cases hs
    obtain ⟨gone, hgone, hdone, hall⟩ := h.gone
    have hpop : (s.wlast.pop now).entries = rest := by rw [entries_pop, hslots]; rfl
    have hflight : s.flight = (if last then [line] else []) ++
        ((rest.filter (·.2)).map (·.1) ++ s.cutting.toList) := by
      rw [flight, hslots, filter_cons]
      cases last <;> rfl
    have hgrouped := h.slots
    rw [hslots] at hgrouped
    cases last with
    | false =>
      have hsame : ({ s with wlast := s.wlast.pop now } : Stream).flight = s.flight := by
        rw [hflight, flight, hpop]
        rfl
      refine { h with slots := ?_, lines := ?_, nonzero := ?_, gone := ⟨gone, hgone, ?_, ?_⟩ }
      · show Grouped _ _ (s.wlast.pop now).entries s.cutting
        rw [hpop]
        exact hgrouped.tail
      · exact hsame ▸ h.lines
      · exact hsame ▸ h.nonzero
      · exact hsame ▸ hdone
      · exact hsame ▸ hall
    | true =>
      have hrest : ({ s with wlast := s.wlast.pop now } : Stream).flight =
          (rest.filter (·.2)).map (·.1) ++ s.cutting.toList := by
        rw [flight, hpop]
        rfl
      rw [if_pos rfl, singleton_append, ← hrest] at hflight
      have hlines := h.lines
      have hnonzero := h.nonzero
      rw [hflight] at hlines hnonzero hdone hall
      have hslots' : Grouped Prod.fst Prod.snd (s.wlast.pop now).entries s.cutting := by
        rw [hpop]
        exact hgrouped.tail
      rw [if_pos rfl, complete1d, Bool.or_false]
      cases hsuper : line.superLast with
      | false =>
        rw [filter_cons_of_neg (by simp [hsuper])] at hdone hall
        exact { h with
          slots := hslots'
          lines := hlines.tail
          nonzero := fun l hl => hnonzero l (mem_cons_of_mem _ hl)
          gone := ⟨gone, hgone, hdone, hall⟩ }
      | true =>
        rw [filter_cons_of_pos hsuper, map_cons] at hdone hall
        obtain ⟨done, hdone, hcount⟩ := hdone
        refine { h with
          slots := hslots'
          lines := hlines.tail
          nonzero := fun l hl => hnonzero l (mem_cons_of_mem _ hl)
          gone := ⟨gone, hgone, ⟨done ++ [line.parent], by rw [hdone, append_assoc]; rfl, ?_⟩, fun hr => ?_⟩ }
        · rw [length_append, length_singleton]
          show done.length + 1 + s.rejected.length = s.counted + (s.pendingDone + 1)
          omega
        · obtain ⟨done, hdone, hcount⟩ := hall hr
          refine ⟨done ++ [line.parent], by rw [hdone, append_assoc]; rfl, ?_⟩
          rw [length_append, length_singleton]
          show _ = s.counted + (s.pendingDone + 1)
          omega

/-! ## The mid-end -/

theorem build1d_spec (c : Cursor) : (build1d c).1.parent = c.req ∧ (build1d c).1.length = c.req.length ∧
    (build1d c).2.req = c.req := by
  rw [build1d]
  split <;> exact ⟨rfl, rfl, rfl⟩

theorem build1d_alone (h : req.Alone cfg) : (build1d (load cfg req)).1.superLast = true := by
  rw [build1d, load, h.1, h.2]
  rfl

theorem peek1d_spec (now : Int) (h : MidEndOk cfg me) : MidEndOk cfg (me.peek1d cfg now) ∧
    (me.peek1d cfg now).queue = me.queue ∧
    (∀ c, me.current = some c → (me.peek1d cfg now).current.map (·.req) = some c.req) := by
  rw [peek1d]
  split
  case h_1 line hline =>
    exact ⟨h, rfl, fun c hc => by rw [hc]; rfl⟩
  case h_2 hnone =>
    dsimp only
    split
    case h_1 hcur => exact ⟨h, rfl, fun c hc => by rw [hc] at hcur; cases hcur⟩
    case h_2 c hcur =>
      have hspec := build1d_spec c
      cases hold : me.current with
      | some c₀ =>
        rw [hold] at hcur
        cases hcur
        refine ⟨⟨fun c' hc' => ?_, fun line hline => ?_, by simp⟩, rfl, fun c' hc' => ?_⟩
        · cases hc'
          rw [hspec.2.2]
          exact h.head c hold
        · cases hline
          refine ⟨_, rfl, ?_, ?_, fun halone => ?_⟩
          · rw [hspec.1, hspec.2.2]
          · rw [hspec.2.1, hspec.2.2]
          · rw [hspec.2.2] at halone
            exact absurd halone (h.more hnone c hold)
        · cases hc'
          exact congrArg some hspec.2.2
      | none =>
        rw [hold] at hcur
        have hload : (me.queue.visibleHead now).map (load cfg) = some c := by simpa using hcur
        obtain ⟨req, hreq, rfl⟩ := map_eq_some_iff.1 hload
        obtain ⟨rest, hrest⟩ := entries_of_visibleHead hreq
        refine ⟨⟨fun c' hc' => ?_, fun line hline => ?_, by simp⟩, rfl, by simp⟩
        · cases hc'
          exact ⟨rest, by rw [hspec.2.2]; exact hrest⟩
        · cases hline
          refine ⟨_, rfl, ?_, ?_, fun halone => ?_⟩
          · rw [hspec.1, hspec.2.2]
          · rw [hspec.2.1, hspec.2.2]
          · rw [hspec.2.2] at halone
            exact build1d_alone halone
theorem take1d_spec (now : Int) (h : MidEndOk cfg me) (hline : me.pending = some line) :
    MidEndOk cfg (me.take1d now) ∧ ∃ rest, me.queue.entries = line.parent :: rest ∧
      me.current.map (·.req) = some line.parent ∧ line.length = line.parent.length ∧
      (line.parent.Alone cfg → line.superLast = true) ∧
      (line.superLast = true → (me.take1d now).queue.entries = rest ∧ (me.take1d now).current = none) ∧
      (line.superLast = false → (me.take1d now).queue = me.queue ∧ (me.take1d now).current = me.current) := by
  obtain ⟨c, hc, hparent, hlength, halone⟩ := h.line line hline
  obtain ⟨rest, hrest⟩ := h.head c hc
  rw [← hparent] at hrest hlength halone
  rw [take1d, hline, any_some]
  cases hsuper : line.superLast with
  | true =>
    refine ⟨⟨by simp, by simp, by simp⟩, rest, hrest, by rw [hc, hparent]; rfl, hlength, fun _ => rfl, fun _ => ?_,
      by simp⟩
    exact ⟨by rw [if_pos rfl, entries_pop, hrest]; rfl, rfl⟩
  | false =>
    refine ⟨⟨h.head, by simp, fun _ c' hc' halone' => ?_⟩, rest, hrest, by rw [hc, hparent]; rfl, hlength,
      fun ha => ?_, by simp, fun _ => ⟨rfl, rfl⟩⟩
    · have hc' : me.current = some c' := hc'
      rw [hc] at hc'
      cases hc'
      have hlast := halone (hparent ▸ halone')
      rw [hsuper] at hlast
      cases hlast
    · have hlast := halone ha
      rw [hsuper] at hlast
      cases hlast

/-! ## The legalizer -/

theorem StreamInv.peek (now : Int) (h : StreamInv cfg waiting s) :
    StreamInv cfg waiting { s with me := s.me.peek1d cfg now } := by
  obtain ⟨hme, hqueue, hcurrent⟩ := peek1d_spec now h.me
  refine { h with me := hme, lines := ?_, gone := ?_ }
  · cases hc : s.me.current with
    | none =>
      refine h.lines.close fun line _ hline => ?_
      rw [splitting, hc] at hline
      cases hline
    | some c =>
      have hlines := h.lines
      rw [splitting, hc] at hlines
      rw [splitting, hcurrent c hc]
      exact hlines
  · rw [hqueue]
    exact h.gone

/-- The legalizer starts on a line. -/
def Stream.taken (s : Stream) (now : Int) (line : Line) : Stream :=
  { s with
    me := s.me.take1d now, lastTakeCycle := now, req := some line, rLeft := line.length.toNat, wLeft :=
      line.length.toNat }

/-- A burst of the line has been cut off. -/
def Stream.pushed (s : Stream) (now : Int) (line : Line) (bytes : Nat) : Stream :=
  { s with wlast := s.wlast.push (line, decide (s.wLeft = bytes)) now, wLeft := s.wLeft - bytes }

section

variable (h : StreamInv cfg waiting s)
include h

theorem StreamInv.reject (hline : s.me.pending = some line) (hzero : line.length = 0) :
    StreamInv cfg waiting ({ s with me := s.me.take1d now }.reject cfg now line) := by
  obtain ⟨hme, rest, hentries, hcurrent, hlength, halone, hlast, hmore⟩ := take1d_spec now h.me hline
  rw [hzero] at hlength
  obtain ⟨gone, hgone, ⟨done, hdone, hcount⟩, hall⟩ := h.gone
  have hnone : s.splitting = none := by
    rw [splitting, hcurrent]
    simp [← hlength]
  rw [Stream.reject, Stream.complete1d, Bool.or_true, if_pos rfl]
  have hlines := h.lines
  rw [hnone] at hlines
  refine { h with me := hme, lines := ?_, gone := ?_, zero := fun r hr => ?_ }
  · exact hlines.close (by simp)
  · show ∃ gone', s.launched = gone' ++ (s.me.take1d now).queue.entries ++ waiting ∧ _
    cases hsuper : line.superLast with
    | true =>
      rw [(hlast hsuper).1]
      refine ⟨gone ++ [line.parent], ?_, ⟨done, ?_, ?_⟩, fun hr => ?_⟩
      · rw [hgone, hentries]
        simp
      · rw [filter_append, filter_cons_of_neg (by simp [← hlength]), filter_nil, append_nil]
        exact hdone
      · show done.length + (s.rejected ++ [_]).length = s.counted + (s.pendingDone + 1)
        rw [length_append, length_singleton]
        omega
      · -- nothing is in flight
        obtain ⟨hidle, hslots⟩ : s.wLeft = 0 ∧ s.wlast.queue.isEmpty = true := by
          have hidle := (hr _ (mem_append_right _ (mem_singleton_self _))).2
          simpa using hidle
        have hflight : s.flight = [] := by
          rw [flight, cutting, if_pos hidle, entries, List.isEmpty_iff.1 hslots]
          rfl
        obtain ⟨done, hdone, hcount⟩ := hall fun r hmem => hr r (mem_append_left _ hmem)
        rw [hflight, filter_nil, map_nil, append_nil] at hdone
        refine ⟨done ++ [line.parent], ?_, ?_⟩
        · show _ = _ ++ (s.flight.filter _).map _
          rw [hflight, hdone]
          simp
        · rw [length_append, length_singleton, hcount]
          rfl
    | false =>
      rw [(hmore hsuper).1]
      refine ⟨gone, hgone, ⟨done, hdone, ?_⟩, fun hr => ?_⟩
      · show done.length + (s.rejected ++ [_]).length = s.counted + (s.pendingDone + 1)
        rw [length_append, length_singleton]
        omega
      · have hone := (hr _ (mem_append_right _ (mem_singleton_self _))).1
        have hone := halone (of_decide_eq_true hone)
        rw [hsuper] at hone
        cases hone
  · rcases mem_append.1 hr with hr | hr
    · exact h.zero r hr
    · rw [mem_singleton.1 hr]
      exact hzero

theorem StreamInv.take (hline : s.me.pending = some line) (hpos : line.length ≠ 0) (hidle : s.wLeft = 0) :
    StreamInv cfg waiting (s.taken now line) := by
  obtain ⟨hme, rest, hentries, hcurrent, hlength, -, hlast, hmore⟩ := take1d_spec now h.me hline
  rw [hlength] at hpos
  obtain ⟨gone, hgone, ⟨done, hdone, hcount⟩, hall⟩ := h.gone
  have hleft : line.length.toNat ≠ 0 := fun hzero => hpos (by rw [← hlength]; exact BitVec.eq_of_toNat_eq hzero)
  have hsplit : s.splitting = some line.parent := by
    rw [splitting, hcurrent]
    simpa using hpos
  have hcutting : s.cutting = none := by rw [cutting, if_pos hidle]
  have hslots := h.slots
  have hlines := h.lines
  rw [hcutting] at hslots
  rw [hsplit] at hlines
  have hcutting' : (s.taken now line).cutting = some line := if_neg hleft
  have hflight : (s.taken now line).flight = s.flight ++ [line] := by
    rw [flight, hcutting', flight, hcutting, taken]
    simp
  have hsplit' : line.superLast = false → (s.taken now line).splitting = some line.parent := by
    intro hsuper
    rw [splitting, taken]
    rw [(hmore hsuper).2]
    exact hsplit
  refine { h with me := hme, slots := ?_, lines := ?_, nonzero := ?_, gone := ?_ }
  · rw [hcutting']
    exact hslots.close (by simp)
  · rw [hflight]
    exact hlines.snoc (fun k hk => (Option.some.inj hk).symm) hsplit'
  · rw [hflight]
    intro l hl
    rcases mem_append.1 hl with hl | hl
    · exact h.nonzero l hl
    · rw [mem_singleton.1 hl]
      exact hpos
  · rw [hflight, filter_append, filter_singleton, map_append]
    dsimp only [taken]
    cases hsuper : line.superLast with
    | true =>
      rw [(hlast hsuper).1]
      refine ⟨gone ++ [line.parent], ?_, ⟨done, ?_, hcount⟩, fun hr => ?_⟩
      · rw [hgone, hentries]
        simp
      · rw [filter_append, filter_cons_of_pos (by simpa using hpos), hdone, append_assoc]
        rfl
      · obtain ⟨done, hdone, hcount⟩ := hall hr
        exact ⟨done, by rw [hdone, append_assoc]; rfl, hcount⟩
    | false =>
      rw [(hmore hsuper).1, cond_false, map_nil, append_nil]
      exact ⟨gone, hgone, ⟨done, hdone, hcount⟩, hall⟩

theorem StreamInv.setReq {req : Option Line} {rLeft : Nat}
    (hcutting : cutting { s with req := req, rLeft := rLeft } = s.cutting) :
    StreamInv cfg waiting { s with req := req, rLeft := rLeft } := by
  have hflight : flight { s with req := req, rLeft := rLeft } = s.flight := by
    rw [flight, hcutting]
    rfl
  refine { h with slots := ?_, lines := ?_, nonzero := ?_, gone := ?_ }
  · rw [hcutting]
    exact h.slots
  · rw [hflight]
    exact h.lines
  · rw [hflight]
    exact h.nonzero
  · rw [hflight]
    exact h.gone

theorem StreamInv.push_slot {bytes : Nat} (hreq : s.req = some line) (hpos : 0 < bytes) (hle : bytes ≤ s.wLeft) :
    StreamInv cfg waiting (s.pushed now line bytes) := by
  have hcutting : s.cutting = some line := by
    rw [cutting, if_neg (by omega), hreq]
  have hslots := h.slots
  rw [hcutting] at hslots
  have hentries : (s.pushed now line bytes).wlast.entries = s.wlast.entries ++ [(line, decide (s.wLeft = bytes))] :=
    entries_push ..
  have hcutting' : (s.pushed now line bytes).cutting = if s.wLeft = bytes then none else some line := by
    rw [cutting, pushed, ← hreq]
    by_cases heq : s.wLeft = bytes
    · rw [if_pos (by simp [heq]), if_pos heq]
    · rw [if_neg (show ¬s.wLeft - bytes = 0 by omega), if_neg heq]
  have hflight : (s.pushed now line bytes).flight = s.flight := by
    rw [flight, flight, hentries, hcutting', hcutting, filter_append, filter_singleton]
    by_cases heq : s.wLeft = bytes
    · simp [heq]
    · simp [heq]
  refine { h with slots := ?_, lines := ?_, nonzero := ?_, gone := ?_ }
  · rw [hentries, hcutting']
    refine hslots.snoc (fun k hk => (Option.some.inj hk).symm) fun hlast => ?_
    exact if_neg (of_decide_eq_false hlast)
  · rw [hflight]
    exact h.lines
  · rw [hflight]
    exact h.nonzero
  · rw [hflight]
    exact h.gone

theorem StreamInv.cut (hreq : s.req = some line)
    (hs : s.cut cfg now turn line = some s') : StreamInv cfg waiting s' := by
  rw [Stream.cut] at hs
  split at hs
  case isFalse => cases hs
  case isTrue hcan =>
    cases hs
    have hread : StreamInv cfg waiting (if turn.rGo then { s with rLeft := s.rLeft - turn.rBytes } else s) := by
      split
      · exact h.setReq rfl
      · exact h
    cases hw : turn.wGo with
    | false => exact hread
    | true =>
      obtain ⟨hpos, hle, -⟩ := hcan.2 hw
      rw [if_pos rfl]
      refine hread.push_slot ?_ hpos ?_
      · split <;> exact hreq
      · split <;> exact hle

theorem StreamInv.takeRequest {hold : Bool} (hidle : s.wLeft = 0)
    (hs : s.takeRequest cfg now hold = some s') : StreamInv cfg waiting s' := by
  rw [Stream.takeRequest] at hs
  split at hs
  case isTrue =>
    cases hs
    exact h
  case isFalse =>
    split at hs
    case isTrue =>
      cases hs
      exact h
    case isFalse =>
      have hpeek := h.peek now
      dsimp only at hs
      split at hs
      case h_1 =>
        cases hs
        exact hpeek
      case h_2 line hline =>
        split at hs
        case isTrue hzero =>
          cases hs
          exact hpeek.reject hline hzero
        case isFalse hpos =>
          split at hs
          case isTrue =>
            cases hs
            exact hpeek.take hline hpos hidle
          case isFalse => cases hs

end

theorem StreamInv.bypass (now : Int) (h : StreamInv cfg waiting s) : StreamInv cfg waiting (s.bypass cfg now) ∧
    (s.bypass cfg now).req = s.req := by
  have hpeek := h.peek now
  rw [Stream.bypass]
  split
  case h_1 => exact ⟨hpeek, rfl⟩
  case h_2 line hline =>
    split
    case isTrue hzero =>
      refine ⟨hpeek.reject hline hzero.1, ?_⟩
      rw [Stream.reject, Stream.complete1d, Bool.or_true, if_pos rfl]
      rfl
    case isFalse => exact ⟨hpeek, rfl⟩

theorem StreamInv.legalizer (h : StreamInv cfg waiting s) (hs : s.legalizer cfg now turn = some s') :
    StreamInv cfg waiting s' := by
  rw [Stream.legalizer] at hs
  split at hs
  case isTrue hidle => exact h.takeRequest hidle.2 hs
  case isFalse =>
    split at hs
    case h_1 => cases hs
    case h_2 line hreq =>
      obtain ⟨s₁, hcut, hs⟩ := bind_eq_some_iff.1 hs
      obtain ⟨hbypass, hsame⟩ := h.bypass now
      have h₁ := hbypass.cut (hsame.trans hreq) hcut
      split at hs
      case isTrue hidle =>
        refine StreamInv.takeRequest (s := { s₁ with req := none }) (h₁.setReq ?_)
          hidle.2 hs
        rw [cutting, cutting, if_pos hidle.2, if_pos hidle.2]
      case isFalse =>
        cases hs
        exact h₁

/-! ## What `DONE_ID` says -/

/-- The first `n` transfers of a list are complete, and no other one. -/
def Stream.Tracks (s : Stream) (waiting ts : List NdReq) (n : Nat) : Prop :=
  n ≤ ts.length ∧ ∀ (i : Nat) (t : NdReq), ts[i]? = some t → (s.Complete waiting t ↔ i < n)

/-- **What the identifiers of a stream say.** `DONE_ID` and the identifiers handed out are counted alike, 0 and 1 are
skipped. The transfers that copy something complete in the order of their identifiers, and each is counted once when it
does; each zero-length line is counted when it is rejected. As long as every such line is the only one of its transfer
and comes when nothing is in flight, `DONE_ID` tracks all transfers. -/
structure IdSpec (waiting : List NdReq) (s : Stream) : Prop where
  ids : ∀ (i : Nat) (t : NdReq), s.launched[i]? = some t → t.id = nextIdAfter^[i + 1] 1
  nextId : s.nextId = nextIdAfter^[s.launched.length + 1] 1
  doneId : s.doneId = nextIdAfter^[s.counted] 1
  zero : ∀ r ∈ s.rejected, r.line.length = 0
  copies : ∃ n, s.counted + s.pendingDone = n + s.rejected.length ∧
    s.Tracks waiting (s.launched.filter (·.length ≠ 0)) n
  tracks : (∀ r ∈ s.rejected, r.alone = true ∧ r.idle = true) →
    s.Tracks waiting s.launched (s.counted + s.pendingDone)

theorem Stream.tracks_append {rest : List NdReq} (hdone : ∀ t ∈ done, s.Complete waiting t)
    (hrest : ∀ t ∈ rest, ¬s.Complete waiting t) : s.Tracks waiting (done ++ rest) done.length := by
  refine ⟨by simp, fun i t ht => ?_⟩
  rw [getElem?_append] at ht
  split at ht
  case isTrue hlt => exact ⟨fun _ => hlt, fun _ => hdone t (mem_of_getElem? ht)⟩
  case isFalse hge => exact ⟨fun hc => absurd hc (hrest t (mem_of_getElem? ht)), fun hlt => absurd hlt hge⟩

section

variable (h : StreamInv cfg waiting s)
include h

/-- A transfer is complete when it is neither waiting, nor queued, nor in flight. -/
theorem StreamInv.complete_iff :
    s.Complete waiting t ↔ t ∉ waiting ∧ t ∉ s.me.queue.entries ∧ ∀ line ∈ s.flight, line.parent ≠ t := by
  refine and_congr_right' (and_congr_right' ⟨fun ⟨hcut, hslots⟩ line hline => ?_, fun hflight => ⟨?_, ?_⟩⟩)
  · rcases mem_append.1 hline with hline | hline
    · obtain ⟨slot, hslot, rfl⟩ := List.mem_map.1 hline
      exact hslots slot (mem_filter.1 hslot).1
    · exact hcut line (mem_toList.1 hline)
  · exact fun line hline => hflight line (mem_append_right _ (mem_toList.2 hline))
  · intro slot hslot
    rcases h.slots.mem hslot with hmem | hcut
    · exact hflight _ (mem_append_left _ hmem)
    · exact hflight _ (mem_append_right _ (mem_toList.2 hcut))

theorem StreamInv.nodup : s.launched.Nodup := by
  rw [nodup_iff_getElem?_ne_getElem?]
  intro i j hij hj heq
  rw [getElem?_eq_getElem hj] at heq
  have h₁ := (h.ids i _ heq).1
  have h₂ := (h.ids j _ (getElem?_eq_getElem hj)).1
  omega

/-- A transfer whose lines are all handed over is complete when its last line is not in flight. -/
theorem StreamInv.complete_of_gone
    (hgone : s.launched = gone ++ s.me.queue.entries ++ waiting) (ht : t ∈ gone)
    (hlast : t ∉ (s.flight.filter (·.superLast)).map (·.parent)) : s.Complete waiting t := by
  have hnodup := h.nodup
  rw [hgone, append_assoc, nodup_append] at hnodup
  have hnot : ∀ t' ∈ s.me.queue.entries ++ waiting, t ≠ t' := hnodup.2.2 t ht
  refine h.complete_iff.2 ⟨fun hw => ?_, fun hq => ?_, fun line hline heq => ?_⟩
  · exact hnot t (mem_append_right _ hw) rfl
  · exact hnot t (mem_append_left _ hq) rfl
  · rcases h.lines.mem hline with hmem | hsplit
    · exact hlast (heq ▸ hmem)
    · -- the mid-end still splits it
      obtain ⟨hcurrent, -⟩ := filter_eq_some_iff.1 hsplit
      obtain ⟨c, hc, hreq⟩ := map_eq_some_iff.1 hcurrent
      obtain ⟨rest, hrest⟩ := h.me.head c hc
      refine hnot t (mem_append_left _ ?_) rfl
      rw [hrest, hreq, heq]
      exact mem_cons_self

theorem StreamInv.tracks_of {queue held : List NdReq}
    (hgone : s.launched = gone ++ s.me.queue.entries ++ waiting) (hsub : ∀ t ∈ done, t ∈ gone)
    (hnodup : (done ++ (s.flight.filter (·.superLast)).map (·.parent)).Nodup)
    (hqueue : ∀ t ∈ queue, t ∈ s.me.queue.entries) (hheld : ∀ t ∈ held, t ∈ waiting) :
    s.Tracks waiting (done ++ (s.flight.filter (·.superLast)).map (·.parent) ++ queue ++ held) done.length := by
  rw [append_assoc, append_assoc]
  refine tracks_append (fun t ht => ?_) fun t ht hcomplete => ?_
  · refine h.complete_of_gone hgone (hsub t ht) fun hlast => ?_
    exact (nodup_append.1 hnodup).2.2 t ht t hlast rfl
  · obtain ⟨hw, hq, hflight⟩ := h.complete_iff.1 hcomplete
    rcases mem_append.1 ht with ht | ht
    · obtain ⟨line, hline, heq⟩ := List.mem_map.1 ht
      exact hflight line (mem_filter.1 hline).1 heq
    · rcases mem_append.1 ht with ht | ht
      · exact hq (hqueue t ht)
      · exact hw (hheld t ht)

theorem StreamInv.spec : IdSpec waiting s := by
  obtain ⟨gone, hgone, ⟨done, hdone, hcount⟩, hall⟩ := h.gone
  have hnodup := h.nodup
  refine ⟨fun i t ht => (h.ids i t ht).2, h.nextId, h.doneId, h.zero, ⟨done.length, hcount.symm, ?_⟩, fun hr => ?_⟩
  · rw [hgone, filter_append, filter_append, hdone]
    refine h.tracks_of hgone (fun t ht => ?_) ?_ (fun t ht => mem_of_mem_filter ht)
      fun t ht => mem_of_mem_filter ht
    · exact mem_of_mem_filter (hdone ▸ mem_append_left _ ht)
    · rw [← hdone]
      rw [hgone, append_assoc] at hnodup
      exact (nodup_append.1 hnodup).1.filter _
  · obtain ⟨done, hdone, hcount⟩ := hall hr
    rw [hgone, append_assoc] at hnodup
    rw [← hcount, hgone, hdone]
    refine h.tracks_of hgone (fun t ht => hdone ▸ mem_append_left _ ht) ?_ (fun t ht => ht) fun t ht => ht
    rw [← hdone]
    exact (nodup_append.1 hnodup).1

end

/-! ## The front-ends -/

theorem streamInv_init : StreamInv cfg [] {} where
  me := ⟨by simp, by simp, by simp⟩
  slots := Grouped.nil
  lines := Grouped.nil
  nonzero := by simp [flight, cutting, entries]
  gone := ⟨[], rfl, ⟨[], rfl, rfl⟩, fun _ => ⟨[], rfl, rfl⟩⟩
  zero := by simp
  ids := by simp
  nextId := rfl
  doneId := rfl

namespace FeReg

variable {fe fe' : FeReg} {nbPorts : Nat}

theorem update_inv (h : ∀ i, StreamInv cfg [] (fe.streams i)) {i : Nat} (hs : StreamInv cfg [] s) (j : Nat) :
    StreamInv cfg [] (update fe.streams i s j) := by
  by_cases hj : j = i
  · rw [hj, update_self]
    exact hs
  · rw [update_of_ne hj]
    exact h j

theorem launch_inv (h : ∀ i, StreamInv cfg [] (fe.streams i)) (port stream delay : Nat) (i : Nat) :
    StreamInv cfg [] ((fe.launch cfg port stream delay).streams i) := by
  rw [launch]
  split
  case isTrue =>
    have hout : StreamInv cfg [ndReq (fe.ports port).regs (fe.streams stream)]
        ((fe.streams stream).handOut (ndReq (fe.ports port).regs (fe.streams stream))) :=
      (h stream).handOut rfl rfl
    exact update_inv h hout.push i
  case isFalse => exact h i

theorem streamReady_inv (stream delay n : Nat) (h : ∀ i, StreamInv cfg [] (fe.streams i)) (i : Nat) :
    StreamInv cfg [] ((fe.streamReady cfg nbPorts stream delay n).streams i) := by
  induction n generalizing fe with
  | zero => exact h i
  | succ n ih =>
    rw [streamReady]
    split
    case isTrue =>
      dsimp only
      split
      · apply ih
        apply launch_inv
        exact h
      · exact ih h
    case isFalse => exact h i

theorem step_inv (h : ∀ i, StreamInv cfg [] (fe.streams i))
    (hs : fe.step cfg nbPorts event = some fe') (i : Nat) : StreamInv cfg [] (fe'.streams i) := by
  cases event with
  | cycle => cases hs; exact h i
  | write port regs => cases hs; exact h i
  | launch port stream delay => cases hs; exact launch_inv h port stream delay i
  | streamReady stream delay => cases hs; exact streamReady_inv stream delay nbPorts h i
  | legalizer stream turn =>
    obtain ⟨s, hs', rfl⟩ := map_eq_some_iff.1 hs
    exact update_inv h ((h stream).legalizer hs') i
  | writeBurstDone stream =>
    obtain ⟨s, hs', rfl⟩ := map_eq_some_iff.1 hs
    exact update_inv h ((h stream).writeBurstDone hs') i
  | doneHandler => cases hs; exact (h i).doneHandler

end FeReg

namespace FeXdma

variable {fe fe' : FeXdma} {pushDelay : Nat}

theorem step_inv (h : StreamInv cfg fe.stalled.toList fe.stream)
    (hs : fe.step cfg pushDelay event = some fe') : StreamInv cfg fe'.stalled.toList fe'.stream := by
  cases event with
  | cycle => cases hs; exact h
  | setRegs regs => cases hs; exact h
  | dmcpy config size =>
    rw [step, enqueueCopy] at hs
    split at hs
    case isTrue => cases hs
    case isFalse hfree =>
      have hnone : fe.stalled = none := by simpa using hfree
      rw [hnone] at h
      have hout : StreamInv cfg [ndReq fe.regs config size fe.stream]
          (fe.stream.handOut (ndReq fe.regs config size fe.stream)) := h.handOut rfl rfl
      dsimp only at hs
      split at hs
      case isTrue =>
        cases hs
        rw [hnone]
        exact hout.push
      case isFalse =>
        cases hs
        exact hout
  | meReady =>
    cases hs
    rw [meReady]
    split
    case h_1 hnone => exact h
    case h_2 req hreq =>
      split
      case isTrue =>
        rw [hreq] at h
        exact h.push
      case isFalse => exact h
  | legalizer turn =>
    obtain ⟨s, hs', rfl⟩ := map_eq_some_iff.1 hs
    exact h.legalizer hs'
  | writeBurstDone =>
    obtain ⟨s, hs', rfl⟩ := map_eq_some_iff.1 hs
    exact h.writeBurstDone hs'
  | doneHandler => cases hs; exact h.doneHandler

end FeXdma

/-- **Transfer identifiers**, for every stream of either front-end. -/
theorem transferIds (cfg : StreamConfig) :
    (∀ (nbPorts : Nat) (events : List FeReg.Event) (fe : FeReg),
      run (FeReg.step cfg nbPorts) {} events = some fe → ∀ i, IdSpec [] (fe.streams i)) ∧
    ∀ (pushDelay : Nat) (events : List FeXdma.Event) (fe : FeXdma),
      run (FeXdma.step cfg pushDelay) {} events = some fe → IdSpec fe.stalled.toList fe.stream := by
  constructor
  · intro nbPorts events fe hrun i
    have hinv : ∀ i, StreamInv cfg [] (fe.streams i) :=
      run_invariant (I := fun fe : FeReg => ∀ i, StreamInv cfg [] (fe.streams i))
        (fun _ _ _ h hs => FeReg.step_inv h hs) (fun _ => streamInv_init) hrun
    exact (hinv i).spec
  · intro pushDelay events fe hrun
    exact (run_invariant (I := fun fe : FeXdma => StreamInv cfg fe.stalled.toList fe.stream)
      (fun _ _ _ h hs => FeXdma.step_inv h hs) streamInv_init hrun).spec

/-- A stream of the register front-end with three dimensions. -/
def smallStream : StreamConfig := ⟨2, 3, 4, fun _ _ => true⟩

/-- A 2D transfer of two lines of four bytes: the lines are taken, cut into one burst each, and acknowledged. -/
def twoLines : List FeReg.Event :=
  [.write 0 { conf := 0x400, length := 4, reps2 := 2 }, .launch 0 0 0, .cycle, .legalizer 0 {}, .cycle,
    .legalizer 0 ⟨false, true, true, 4, 4⟩, .cycle, .legalizer 0 ⟨false, true, true, 4, 4⟩, .writeBurstDone 0,
    .writeBurstDone 0, .doneHandler]

/-- The transfer is counted once, when its last burst is acknowledged. -/
theorem transferIds_twoLines : ∃ fe, run (FeReg.step smallStream 1) {} twoLines = some fe ∧
    (fe.streams 0).counted = 1 ∧ ∀ i, IdSpec [] (fe.streams i) := by
  have hrun : ((run (FeReg.step smallStream 1) {} twoLines).map fun fe => (fe.streams 0).counted) = some 1 := by
    decide +kernel
  obtain ⟨fe, hfe, hcounted⟩ := map_eq_some_iff.1 hrun
  exact ⟨fe, hfe, hcounted, (transferIds smallStream).1 1 twoLines fe hfe⟩

/-- A transfer of four bytes, with one of no bytes behind it. -/
def zeroBehind : List FeReg.Event :=
  [.write 0 { length := 4 }, .launch 0 0 0, .write 0 { length := 0 }, .launch 0 0 0, .cycle, .legalizer 0 {}, .cycle,
    .legalizer 0 {}, .doneHandler]

def zeroLines : List FeReg.Event :=
  [.write 0 { conf := 0x400, length := 0, reps2 := 2 }, .launch 0 0 0, .cycle, .legalizer 0 {}, .cycle, .legalizer 0 {},
    .doneHandler]

/-- `DONE_ID` reaches the identifier of a transfer that is not complete, and overtakes the last one handed out. -/
theorem zeroLength_counts :
    (∃ fe, run (FeReg.step smallStream 1) {} zeroBehind = some fe ∧
      ∃ t, (fe.streams 0).launched[0]? = some t ∧ (fe.streams 0).doneId = t.id ∧ ¬(fe.streams 0).Complete [] t) ∧
    ∃ fe, run (FeReg.step smallStream 1) {} zeroLines = some fe ∧
      (fe.streams 0).launched.length = 1 ∧ (fe.streams 0).counted = 2 ∧
      (fe.streams 0).doneId = (fe.streams 0).nextId := by
  constructor
  · have hrun : ((run (FeReg.step smallStream 1) {} zeroBehind).map fun fe =>
        (fe.streams 0).launched[0]?.map fun t =>
          (decide ((fe.streams 0).doneId = t.id), decide ((fe.streams 0).Complete [] t))) =
        some (some (true, false)) := by decide +kernel
    obtain ⟨fe, hfe, hlog⟩ := map_eq_some_iff.1 hrun
    obtain ⟨t, ht, hlog⟩ := map_eq_some_iff.1 hlog
    have hlog := Prod.mk.inj hlog
    exact ⟨fe, hfe, t, ht, of_decide_eq_true hlog.1, of_decide_eq_false hlog.2⟩
  · have hrun : ((run (FeReg.step smallStream 1) {} zeroLines).map fun fe => ((fe.streams 0).launched.length,
        (fe.streams 0).counted, decide ((fe.streams 0).doneId = (fe.streams 0).nextId))) = some (1, 2, true) := by
      decide +kernel
    obtain ⟨fe, hfe, hlog⟩ := map_eq_some_iff.1 hrun
    obtain ⟨hlength, hlog⟩ := Prod.mk.inj hlog
    obtain ⟨hcounted, hids⟩ := Prod.mk.inj hlog
    exact ⟨fe, hfe, hlength, hcounted, of_decide_eq_true hids⟩

end GvsocPulp.IdmaV3
