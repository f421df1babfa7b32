import GvsocPulp.Lib.Run
import GvsocPulp.Cv32e40p.Hooks

/-!
# The events are the program order

What the interface promises of the events that `poll` returns (`Exact`), and when it keeps it: as long as no WFI puts
the core to sleep while records of older instructions are held, and no response of a load writes its register into a
later record.
-/

namespace GvsocPulp.Cv32e40p

open Lib List Bool Effects CosimEvent Cosim

variable {s t : Cosim} {e : Event} {n m k : Nat} {es es' : List CosimEvent}

/-! ## Program order -/

/-- The events after record `n`, up to record `m`: the records are numbered without a gap, and a boundary comes right
after the record it names. -/
def Ordered : Nat → List CosimEvent → Nat → Prop
  | n, [], m => n = m
  | n, .commit c :: es, m => c.sequence = n + 1 ∧ Ordered (n + 1) es m
  | n, .boundary b :: es, m => b.afterSequence = n ∧ Ordered n es m

namespace Ordered

theorem append : ∀ {es : List CosimEvent} {n : Nat}, Ordered n (es ++ es') m ↔ ∃ k, Ordered n es k ∧ Ordered k es' m
  | [], n => ⟨fun h => ⟨n, rfl, h⟩, fun ⟨k, hk, h⟩ => by rw [show n = k from hk]; exact h⟩
  | .commit c :: es, n => by
    constructor
    · rintro ⟨hc, h⟩
      obtain ⟨k, hk, h'⟩ := append.1 h
      exact ⟨k, ⟨hc, hk⟩, h'⟩
    · rintro ⟨k, ⟨hc, hk⟩, h'⟩
      exact ⟨hc, append.2 ⟨k, hk, h'⟩⟩
  | .boundary b :: es, n => by
    constructor
    · rintro ⟨hb, h⟩
      obtain ⟨k, hk, h'⟩ := append.1 h
      exact ⟨k, ⟨hb, hk⟩, h'⟩
    · rintro ⟨k, ⟨hb, hk⟩, h'⟩
      exact ⟨hb, append.2 ⟨k, hk, h'⟩⟩

theorem le : ∀ {es : List CosimEvent} {n : Nat}, Ordered n es m → n ≤ m
  | [], _, h => Nat.le_of_eq h
  | .commit _ :: _, _, h => Nat.le_of_lt (le h.2)
  | .boundary _ :: _, _, h => le h.2

theorem unique : ∀ {es : List CosimEvent} {n : Nat}, Ordered n es m → Ordered n es k → m = k
  | [], _, h, h' => h.symm.trans h'
  | .commit _ :: _, _, h, h' => unique h.2 h'.2
  | .boundary _ :: _, _, h, h' => unique h.2 h'.2

theorem mem_bounds {c : Commit} : ∀ {es : List CosimEvent} {n : Nat}, Ordered n es m → .commit c ∈ es →
    n < c.sequence ∧ c.sequence ≤ m
  | .commit c' :: es, n, h, hmem => by
    rcases mem_cons.1 hmem with he | hmem
    · cases he
      have hle := le h.2
      exact ⟨h.1 ▸ Nat.lt_succ_self n, h.1 ▸ hle⟩
    · obtain ⟨hlt, hle⟩ := mem_bounds h.2 hmem
      exact ⟨Nat.lt_of_succ_lt hlt, hle⟩
  | .boundary b :: es, n, h, hmem => mem_bounds h.2 ((mem_cons.1 hmem).resolve_left nofun)

end Ordered

namespace CosimEvent

def boundary? : CosimEvent → Option Boundary
  | .commit _ => none
  | .boundary b => some b

def sequence? : CosimEvent → Option Nat
  | .commit c => some c.sequence
  | .boundary _ => none

end CosimEvent

/-- All events, in the order in which they leave: returned by `poll`, to be returned, and held. -/
def Cosim.stream (s : Cosim) : List CosimEvent := s.polled ++ s.events ++ s.held

/-- A WFI goes to sleep while records of older instructions are held. -/
def Cosim.overtakes (s : Cosim) : Event → Bool
  | .retire r => s.opened && r.wfi && !s.held.isEmpty
  | .retry (some r) => s.opened && r.wfi && !s.held.isEmpty
  | _ => false

/-- The register write is in the record, or there was no room for one more. -/
def Effects.wrote (e : Effects) (reg : Nat) (value : Word) : Bool :=
  if 32 ≤ reg then (put (·.index = reg % 32) 2 ⟨reg % 32, value⟩ e.fpr).elim e.overflow (· = e.fpr)
  else (put (·.index = reg) 4 ⟨reg, value⟩ e.gpr).elim e.overflow (· = e.gpr)

/-- The response of a load comes while the record of a later instruction is open, which has no such register write. -/
def Cosim.mixes (s : Cosim) : Event → Bool
  | .externalLoadResponse _ data =>
    s.opened && s.external.reg ≠ 0 && !s.current.wrote s.external.reg (s.external.extend data)
  | _ => false

theorem setReg_current_iff {reg : Nat} {value : Word} (hopened : s.opened = true) (hreg : reg ≠ 0) :
    (s.setReg reg value).current.toEffects = s.current.toEffects ↔ s.current.wrote reg value = true := by
  have hmod : ¬32 ≤ reg % 32 := not_le.2 (Nat.mod_lt reg (by decide))
  rw [setReg, if_neg hreg, wrote]
  by_cases hfpr : 32 ≤ reg
  all_goals
    simp only [Cosim.hook, hopened, hreg, hfpr, hmod, Effects.hook, or_self_iff, if_true, if_false]
    obtain ⟨trap, overflow, gpr, fpr, csr, mem⟩ := s.current.toEffects
    cases put _ _ _ _ <;> simp [eq_comm]

theorem mixes_iff {data : Word} : s.mixes (.externalLoadResponse n data) = true ↔ s.opened = true ∧
    (s.setReg s.external.reg (s.external.extend data)).current.toEffects ≠ s.current.toEffects := by
  rw [mixes, Bool.and_assoc, and_eq_true]
  refine and_congr_right fun hopened => ?_
  by_cases hreg : s.external.reg = 0
  · simp [hreg, setReg]
  · simp [hreg, setReg_current_iff hopened hreg]

/-- What the interface promises in every state of a run. -/
structure Exact (s : Cosim) : Prop where
  /-- The events come in program order: what `poll` has returned and what it will return. -/
  ordered : Ordered 0 s.stream s.lastSequence
  boundaries : s.stream.filterMap boundary? = s.boundaries
  /-- A record has the effects of the last attempt of its instruction, and no others. -/
  effects : ∀ c, .commit c ∈ s.stream → ∃ hooks, s.attempts[c.sequence - 1]? = some hooks ∧
    c.toEffects = ofHooks c.sequence hooks
  /-- The record in flight has the effects of the attempt in flight. -/
  current : s.opened = true → s.current.toEffects = ofHooks (s.lastSequence + 1) s.attempt
  /-- A drain finds the record of its instruction, or adds the wake-up of a WFI. -/
  drains : ∀ x rest, s.fifo = x :: rest → if x.wfi then 0 < s.wfiDrains else
    s.wfiDrains = 0 ∧ ∃ c rest, s.held = .commit c :: rest ∧ c.sequence = x.sequence
  noMissing : s.error ≠ some .drainWithoutRecord

/-! ## What goes from one state to the next -/

/-- The commit FIFO: the WFIs come first, and the others have their records held. -/
def FifoHeld (fifo : List Entry) (wfiDrains : Nat) (held : List CosimEvent) : Prop :=
  ∃ wfis others, fifo = wfis ++ others ∧ (∀ x ∈ wfis, x.wfi = true) ∧ (∀ x ∈ others, x.wfi = false) ∧
    wfiDrains = wfis.length ∧ held.filterMap sequence? = others.map (·.sequence)

structure Inv (s : Cosim) : Prop where
  ordered : Ordered 0 s.stream s.lastSequence
  boundaries : s.stream.filterMap boundary? = s.boundaries
  effects : ∀ c, .commit c ∈ s.stream → ∃ hooks, s.attempts[c.sequence - 1]? = some hooks ∧
    c.toEffects = ofHooks c.sequence hooks
  attempts : s.attempts.length = s.lastSequence
  current : s.opened = true → s.current.toEffects = ofHooks (s.lastSequence + 1) s.attempt
  fifo : FifoHeld s.fifo s.wfiDrains s.held
  front : s.held = [] ∨ ∃ c rest, s.held = .commit c :: rest
  noMissing : s.error ≠ some .drainWithoutRecord

namespace Inv

theorem exact (h : Inv s) : Exact s where
  ordered := h.ordered
  boundaries := h.boundaries
  effects := h.effects
  current := h.current
  drains x rest hfifo := by
    obtain ⟨wfis, others, hsplit, hwfis, hothers, hdrains, hheld⟩ := h.fifo
    cases wfis with
    | cons w ws =>
      rw [hfifo, cons_append, cons.injEq] at hsplit
      rw [hsplit.1, hwfis w mem_cons_self, if_pos rfl, hdrains]
      exact Nat.succ_pos _
    | nil =>
      have hsplit : x :: rest = others := hfifo.symm.trans hsplit
      rw [hothers x (hsplit ▸ mem_cons_self)]
      refine ⟨hdrains, ?_⟩
      rcases h.front with hnil | ⟨c, rest', hcons⟩
      · rw [hnil, ← hsplit] at hheld
        cases hheld
      · refine ⟨c, rest', hcons, ?_⟩
        rw [hcons, ← hsplit] at hheld
        exact (cons.inj hheld).1
  noMissing := h.noMissing

/-- A step that leaves the events and the sealed records where they are in the stream. -/
theorem move (h : Inv s) (hstream : t.stream = s.stream)
    (hlog : t.lastSequence = s.lastSequence ∧ t.boundaries = s.boundaries ∧ t.attempts = s.attempts)
    (hcurrent : t.opened = true → t.current.toEffects = ofHooks (t.lastSequence + 1) t.attempt)
    (hfifo : FifoHeld t.fifo t.wfiDrains t.held)
    (hfront : t.held = [] ∨ ∃ c rest, t.held = .commit c :: rest)
    (herror : t.error ≠ some .drainWithoutRecord) : Inv t := by
  obtain ⟨hlast, hboundaries, hattempts⟩ := hlog
  refine ⟨?_, ?_, ?_, ?_, hcurrent, hfifo, hfront, herror⟩
  · rw [hstream, hlast]
    exact h.ordered
  · rw [hstream, hboundaries]
    exact h.boundaries
  · rw [hstream, hattempts]
    exact h.effects
  · rw [hattempts, hlast]
    exact h.attempts

theorem keep (h : Inv s) (hevents : t.polled = s.polled ∧ t.events = s.events ∧ t.held = s.held)
    (hlog : t.lastSequence = s.lastSequence ∧ t.boundaries = s.boundaries ∧ t.attempts = s.attempts)
    (hfifo : t.fifo = s.fifo ∧ t.wfiDrains = s.wfiDrains)
    (hcurrent : t.opened = true → t.current.toEffects = ofHooks (t.lastSequence + 1) t.attempt)
    (herror : t.error ≠ some .drainWithoutRecord) : Inv t := by
  obtain ⟨hpolled, hevents, hheld⟩ := hevents
  refine h.move ?_ hlog hcurrent ?_ ?_ herror
  · rw [Cosim.stream, Cosim.stream, hpolled, hevents, hheld]
  · rw [hfifo.1, hfifo.2, hheld]
    exact h.fifo
  · rw [hheld]
    exact h.front

theorem ofHooks_concat (n : Nat) (hooks : List Hook) (hook : Hook) :
    ofHooks n (hooks ++ [hook]) = ((ofHooks n hooks).hook n hook).1 := by
  rw [ofHooks, foldl_append]
  rfl

section

variable (h : Inv s)
include h

theorem hook (hk : Hook) : Inv (s.hook hk) := by
  cases hopened : s.opened with
  | false =>
    rw [hook_closed hopened]
    exact h
  | true =>
    rw [hook_eq hopened]
    refine h.keep ⟨rfl, rfl, rfl⟩ ⟨rfl, rfl, rfl⟩ ⟨rfl, rfl⟩ (fun _ => ?_) ?_
    · rw [ofHooks_concat, ← h.current hopened]
    · exact (Errs.orElse s.error fun fault => hook_fault _ _ hk fault).ne h.noMissing id

theorem setReg (reg : Nat) (value : Word) : Inv (s.setReg reg value) := by
  have hregs : Inv { s with regs := fun r => if r = reg then value else s.regs r } :=
    h.keep ⟨rfl, rfl, rfl⟩ ⟨rfl, rfl, rfl⟩ ⟨rfl, rfl⟩ h.current h.noMissing
  rw [Cosim.setReg]
  split_ifs
  · exact h
  · exact hregs.hook _
  · exact hregs.hook _

theorem fail (fault : Fault) (hfault : fault ≠ .drainWithoutRecord) : Inv (s.fail fault) := by
  refine h.keep ⟨rfl, rfl, rfl⟩ ⟨rfl, rfl, rfl⟩ ⟨rfl, rfl⟩ h.current ?_
  exact (Errs.orElse (P := (· = fault)) s.error fun _ he => (Option.some.inj he).symm).ne h.noMissing hfault.symm

theorem openRecord (insn : Insn) (moved decided : Bool) : Inv (s.openRecord insn moved decided) := by
  rw [Cosim.openRecord]
  split_ifs
  · exact h
  · exact h.keep ⟨rfl, rfl, rfl⟩ ⟨rfl, rfl, rfl⟩ ⟨rfl, rfl⟩ (fun _ => rfl) h.noMissing
  · exact h.fail _ nofun

theorem dispatch (insn : Insn) (fault moved decided : Bool) : Inv (s.dispatch insn fault moved decided) := by
  rw [Cosim.dispatch]
  split_ifs
  · exact h
  · exact h
  · exact (h.fail .decision nofun).openRecord insn moved decided
  · exact h.openRecord insn moved decided

theorem load (l : Load) : Inv (s.load l) := by
  have hloading : Inv { s with loading := some l } :=
    h.keep ⟨rfl, rfl, rfl⟩ ⟨rfl, rfl, rfl⟩ ⟨rfl, rfl⟩ h.current h.noMissing
  by_cases hopened : s.opened = true
  · rw [Cosim.load, if_pos hopened]
    simp only
    split
    · exact hloading
    · exact hloading.fail _ nofun
    · exact hloading.keep ⟨rfl, rfl, rfl⟩ ⟨rfl, rfl, rfl⟩ ⟨rfl, rfl⟩ h.current h.noMissing
  · rw [Cosim.load, if_neg hopened]
    exact h

theorem add {e : CosimEvent} {a : List (List Hook)} (hstream : t.stream = s.stream ++ [e])
    (hlast : Ordered s.lastSequence [e] t.lastSequence)
      (hboundaries : t.boundaries = s.boundaries ++ e.boundary?.toList)
    (hattempts : t.attempts = s.attempts ++ a) (hlength : t.attempts.length = t.lastSequence)
    (hnew : ∀ c, e = .commit c → ∃ hooks, t.attempts[c.sequence - 1]? = some hooks ∧
      c.toEffects = ofHooks c.sequence hooks)
    (hcurrent : t.opened = true → t.current.toEffects = ofHooks (t.lastSequence + 1) t.attempt)
    (hfifo : FifoHeld t.fifo t.wfiDrains t.held) (hfront : t.held = [] ∨ ∃ c rest, t.held = .commit c :: rest)
    (herror : t.error ≠ some .drainWithoutRecord) : Inv t where
  ordered := by
    rw [hstream]
    exact Ordered.append.2 ⟨s.lastSequence, h.ordered, hlast⟩
  boundaries := by
    rw [hstream, filterMap_append, h.boundaries, hboundaries]
    cases e <;> rfl
  effects c hc := by
    rw [hstream] at hc
    rcases mem_append.1 hc with hc | hc
    · obtain ⟨hooks, hhooks, heffects⟩ := h.effects c hc
      refine ⟨hooks, ?_, heffects⟩
      rw [hattempts, getElem?_append_left (List.getElem?_eq_some_iff.1 hhooks).1]
      exact hhooks
    · exact hnew c (mem_singleton.1 hc).symm
  attempts := hlength
  current := hcurrent
  fifo := hfifo
  front := hfront
  noMissing := herror

theorem close (hopened : s.opened = true) {r : Retire} (hr : r.wfi = true → s.held = []) : Inv (s.close r) := by
  obtain ⟨wfis, others, hsplit, hwfis, hothers, hdrains, hheld⟩ := h.fifo
  have hrecord : ∀ c, commit (s.record r) = .commit c →
      ∃ hooks, (s.attempts ++ [s.attempt])[c.sequence - 1]? = some hooks ∧ c.toEffects = ofHooks c.sequence hooks :=
    fun c he => by
      cases he
      refine ⟨s.attempt, ?_, h.current hopened⟩
      rw [record, Nat.add_sub_cancel, ← h.attempts]
      exact getElem?_concat_length
  have hlength : (s.attempts ++ [s.attempt]).length = s.lastSequence + 1 := by
    rw [length_append, h.attempts]
    rfl
  have hordered : Ordered s.lastSequence [.commit (s.record r)] (s.lastSequence + 1) := ⟨rfl, rfl⟩
  -- with nothing held the events end with those that are to be returned
  have hnone : s.held = [] → others = [] := fun hnil => by
    rw [hnil] at hheld
    exact map_eq_nil_iff.1 hheld.symm
  rw [Cosim.close]
  simp only
  by_cases hwfi : r.wfi = true
  · rw [if_pos hwfi]
    refine h.add (e := .commit (s.record r)) (a := [s.attempt]) ?_ hordered
      (append_nil _).symm rfl hlength hrecord nofun
      ⟨wfis ++ [⟨s.lastSequence + 1, r.wfi, r.wfi⟩], [], ?_, ?_, nofun, ?_, ?_⟩ h.front h.noMissing
    · simp [stream, publish, hr hwfi]
    · simp [publish, fifoAfter, hwfi, hsplit, hnone (hr hwfi)]
    · intro x hx
      rcases mem_append.1 hx with hx | hx
      · exact hwfis x hx
      · rw [mem_singleton.1 hx]
        exact hwfi
    · simp [publish, hdrains]
    · simp [publish, hr hwfi]
  · rw [if_neg hwfi]
    split_ifs with hfifo
    · refine h.add (e := .commit (s.record r)) (a := [s.attempt]) ?_ hordered (append_nil _).symm rfl hlength hrecord
        nofun ⟨wfis, others ++ [⟨s.lastSequence + 1, r.wfi, r.wfi⟩], ?_, hwfis, ?_, hdrains, ?_⟩ ?_ h.noMissing
      · simp [stream]
      · have hheld' : r.wfi = true ∨ r.hold = true ∨ s.fifo ≠ [] := by
          by_contra hnot
          rw [fifoAfter, if_neg hnot] at hfifo
          exact hnot (.inr (.inr hfifo))
        change s.fifoAfter r = _
        rw [fifoAfter, if_pos hheld', hsplit, append_assoc]
      · intro x hx
        rcases mem_append.1 hx with hx | hx
        · exact hothers x hx
        · rw [mem_singleton.1 hx]
          exact eq_false_iff.2 hwfi
      · rw [filterMap_append, hheld, map_append]
        rfl
      · right
        rcases h.front with hnil | ⟨c, rest, hcons⟩
        · exact ⟨s.record r, [], by rw [hnil]; rfl⟩
        · exact ⟨c, rest ++ [.commit (s.record r)], by rw [hcons]; rfl⟩
    · -- the commit FIFO is empty, so that nothing is held
      have hempty : s.fifo = [] := by
        have hafter := not_not.1 hfifo
        rw [fifoAfter] at hafter
        split_ifs at hafter with hheld'
        · exact absurd hafter (concat_ne_nil _ _)
        · exact hafter
      have hnil : s.held = [] := by
        rcases h.front with hnil | ⟨c, rest, hcons⟩
        · exact hnil
        · rw [hempty] at hsplit
          rw [hcons, (append_eq_nil_iff.1 hsplit.symm).2] at hheld
          cases hheld
      refine h.add (e := .commit (s.record r)) (a := [s.attempt]) ?_ hordered (append_nil _).symm rfl hlength hrecord
        nofun ?_ h.front h.noMissing
      · simp [stream, publish, hnil]
      · have hafter := not_not.1 hfifo
        refine ⟨wfis, others, ?_, hwfis, hothers, hdrains, hheld⟩
        change s.fifoAfter r = wfis ++ others
        rw [hafter, ← hsplit, hempty]

theorem retire {r : Retire} (hr : s.opened = true → r.wfi = true → s.held = []) : Inv (s.retire r) := by
  by_cases hopened : s.opened = true
  · obtain ⟨error, hooks, -, herror, -, hretire⟩ := Cosim.retire_eq hopened r
    rw [hretire]
    refine close ?_ ?_ ?_
    · refine h.keep ⟨rfl, rfl, rfl⟩ ⟨rfl, rfl, rfl⟩ ⟨rfl, rfl⟩ (fun _ => ?_) ?_
      · simp only
        rw [h.current hopened, ofHooks, ofHooks, foldl_append]
      · exact herror.ne h.noMissing fun hfault => hfault.elim id nofun
    · exact hopened
    · exact hr hopened
  · rw [Cosim.retire, if_neg hopened]
    exact h

theorem retry {exception : Option Retire}
    (hr : ∀ r, exception = some r → s.opened = true → r.wfi = true → s.held = []) : Inv (s.retry exception) := by
  by_cases hopened : s.opened = true
  · rw [Cosim.retry, if_pos hopened]
    cases exception with
    | none => exact h.keep ⟨rfl, rfl, rfl⟩ ⟨rfl, rfl, rfl⟩ ⟨rfl, rfl⟩ (fun _ => rfl) h.noMissing
    | some r =>
      have hdropped : Inv { s with externalPending := false } :=
        h.keep ⟨rfl, rfl, rfl⟩ ⟨rfl, rfl, rfl⟩ ⟨rfl, rfl⟩ h.current h.noMissing
      exact hdropped.retire (hr r rfl)
  · rw [Cosim.retry, if_neg hopened]
    exact h

theorem boundary (kind : BoundaryKind) (cause irqId pc nextPc : Word) (csr : List CsrWrite) :
    Inv (s.boundary kind cause irqId pc nextPc csr) := by
  rw [Cosim.boundary, Cosim.push]
  simp only
  split_ifs with hnil
  · refine h.add (a := []) (e := .boundary ⟨kind, s.decidedId, s.lastSequence, cause, irqId, pc, nextPc, csr⟩) ?_
      ⟨rfl, rfl⟩
      rfl (append_nil _).symm h.attempts nofun h.current h.fifo h.front h.noMissing
    simp [stream, hnil]
  · refine h.add (a := []) (e := .boundary ⟨kind, s.decidedId, s.lastSequence, cause, irqId, pc, nextPc, csr⟩) ?_
      ⟨rfl, rfl⟩
      rfl (append_nil _).symm h.attempts nofun h.current ?_ ?_ h.noMissing
    · simp [stream]
    · obtain ⟨wfis, others, hsplit, hwfis, hothers, hdrains, hheld⟩ := h.fifo
      refine ⟨wfis, others, hsplit, hwfis, hothers, hdrains, ?_⟩
      simp only
      rw [filterMap_append, hheld]
      exact append_nil _
    · obtain ⟨c, rest, hcons⟩ := h.front.resolve_left hnil
      exact .inr ⟨c, rest ++ _, by simp only; rw [hcons]; rfl⟩

end

theorem filterMap_sequence_boundaries {es : List CosimEvent} (h : ∀ e ∈ es, e.isBoundary = true) :
    es.filterMap sequence? = [] :=
  filterMap_eq_nil_iff.2 fun e he => by
    cases e with
    | commit c => exact nomatch h _ he
    | boundary b => rfl

theorem drain (h : Inv s) {x : Entry} {rest : List Entry} (hfifo : s.fifo = x :: rest) (pc : Word) :
    Inv ({ s with fifo := rest }.drain pc) := by
  obtain ⟨wfis, others, hsplit, hwfis, hothers, hdrains, hheld⟩ := h.fifo
  rw [Cosim.drain]
  cases wfis with
  | cons w ws =>
    rw [hfifo, cons_append, cons.injEq] at hsplit
    rw [if_pos (by rw [hdrains]; exact Nat.succ_pos _)]
    refine (h.move (t := { s with fifo := rest, wfiDrains := s.wfiDrains - 1 }) rfl ⟨rfl, rfl, rfl⟩ h.current ?_
      h.front h.noMissing).boundary _ _ _ _ _ _
    exact ⟨ws, others, hsplit.2, fun y hy => hwfis y (mem_cons_of_mem _ hy), hothers, by rw [hdrains]; rfl, hheld⟩
  | nil =>
    have hcons : x :: rest = others := hfifo.symm.trans hsplit
    rw [if_neg (by rw [hdrains]; exact lt_irrefl _)]
    obtain ⟨c, tail, hc⟩ := h.front.resolve_left fun hnil => by
      rw [hnil, ← hcons] at hheld
      cases hheld
    simp only [hc]
    have hsame : tail.takeWhile isBoundary ++ tail.dropWhile isBoundary = tail :=
      takeWhile_append_dropWhile
    have htail : tail.filterMap sequence? = rest.map (·.sequence) := by
      rw [hc, ← hcons] at hheld
      exact (cons.inj hheld).2
    refine h.move ?_ ⟨rfl, rfl, rfl⟩ h.current
      ⟨[], rest, rfl, nofun, fun y hy => hothers y (hcons ▸ mem_cons_of_mem _ hy), hdrains, ?_⟩ ?_ h.noMissing
    · rw [stream, stream, hc]
      simp [hsame]
    · rw [← hsame, filterMap_append, filterMap_sequence_boundaries fun e he => ?_, nil_append] at htail
      · exact htail
      · exact mem_takeWhile_imp he
    · simp only
      cases hdrop : tail.dropWhile isBoundary with
      | nil => exact .inl rfl
      | cons e es =>
        have hfirst := head?_dropWhile_not isBoundary tail
        rw [hdrop] at hfirst
        cases e with
        | commit c => exact .inr ⟨c, es, rfl⟩
        | boundary b => exact nomatch hfirst

theorem poll (h : Inv s) (hpoll : s.poll = some t) : Inv t := by
  rw [Cosim.poll] at hpoll
  split at hpoll
  · rename_i e rest _ hevents
    cases hpoll
    refine h.move ?_ ⟨rfl, rfl, rfl⟩ h.current h.fifo h.front h.noMissing
    simp [stream, hevents]
  · cases hpoll

theorem externalLoadResponse (h : Inv s) {n : Nat} {data : Word}
    (hmixes : s.mixes (.externalLoadResponse n data) = false) (hstep : s.externalLoadResponse n data = some t) :
    Inv t := by
  obtain ⟨c, rest, -, hevents, -, hseq, -, rfl⟩ := Cosim.externalLoadResponse_eq hstep
  have hset := h.setReg s.external.reg (s.external.extend data)
  obtain ⟨regs, current, error, attempt, hu⟩ := setReg_eq s s.external.reg (s.external.extend data)
  have hsame : s.opened = true → current.toEffects = s.current.toEffects := fun hopened => by
    by_contra hne
    exact eq_false_iff.1 hmixes (mixes_iff.2 ⟨hopened, by rwa [hu]⟩)
  rw [hu] at hset ⊢
  have hsplit : s.stream = s.polled ++ .commit c :: (rest ++ s.held) := by simp [stream, hevents]
  obtain ⟨k, hbefore, hc, hafter⟩ := Ordered.append.1 (hsplit ▸ h.ordered)
  have hn : n = k + 1 := hseq.symm.trans hc
  refine ⟨?_, ?_, fun c' hc' => ?_, ?_, fun hopened => (hsame hopened).trans (h.current hopened), hset.fifo, hset.front,
    hset.noMissing⟩
  · simp only [stream, append_assoc, cons_append]
    exact Ordered.append.2 ⟨k, hbefore, hc, hafter⟩
  · have hboundaries := h.boundaries
    rw [hsplit] at hboundaries
    simp only [stream, append_assoc, cons_append]
    rw [filterMap_append] at hboundaries ⊢
    exact hboundaries
  · simp only [stream, append_assoc, cons_append] at hc'
    have hother : .commit c' ∈ s.stream → c'.sequence ≠ n → c'.sequence ≠ 0 →
        ∃ hooks, (s.attempts.modify (n - 1) (· ++ [.response s.external.toLoad data]))[c'.sequence - 1]? = some hooks ∧
          c'.toEffects = ofHooks c'.sequence hooks := fun hmem hne hpos => by
      obtain ⟨hooks, hhooks, heffects⟩ := h.effects c' hmem
      refine ⟨hooks, ?_, heffects⟩
      rw [getElem?_modify_ne _ _ (by omega)]
      exact hhooks
    rcases mem_append.1 hc' with hmem | hmem
    · obtain ⟨hlt, hle⟩ := hbefore.mem_bounds hmem
      exact hother (hsplit ▸ mem_append_left _ hmem) (by omega) (by omega)
    · rcases mem_cons.1 hmem with he | hmem
      · cases he
        obtain ⟨hooks, hhooks, heffects⟩ := h.effects c (hsplit ▸ mem_append_right _ mem_cons_self)
        refine ⟨hooks ++ [.response s.external.toLoad data], ?_, ?_⟩
        · simp only
          rw [hseq] at hhooks ⊢
          rw [getElem?_modify_eq, hhooks]
          rfl
        · rw [ofHooks_concat, ← heffects]
          rfl
      · obtain ⟨hlt, hle⟩ := hafter.mem_bounds hmem
        exact hother (hsplit ▸ mem_append_right _ (mem_cons_of_mem _ hmem)) (by omega) (by omega)
  · rw [length_modify]
    exact h.attempts

/-- Every event that neither overtakes nor mixes records keeps the records in program order. -/
theorem step (h : Inv s) (hovertakes : s.overtakes e = false) (hmixes : s.mixes e = false) (hstep : s.step e = some t) :
    Inv t := by
  have hnil : ∀ {r : Retire}, (s.opened && r.wfi && !s.held.isEmpty) = false → s.opened = true → r.wfi = true →
    s.held = [] :=
    fun hno hopened hwfi => by simpa [hopened, hwfi] using hno
  cases e with
  | arm sequence =>
    rw [Cosim.step] at hstep
    split_ifs at hstep
    cases hstep
    exact h.keep ⟨rfl, rfl, rfl⟩ ⟨rfl, rfl, rfl⟩ ⟨rfl, rfl⟩ h.current h.noMissing
  | decide opportunityId =>
    cases hstep
    exact h.keep ⟨rfl, rfl, rfl⟩ ⟨rfl, rfl, rfl⟩ ⟨rfl, rfl⟩ h.current h.noMissing
  | dispatch insn fault moved decided =>
    rw [Cosim.step] at hstep
    split_ifs at hstep
    cases hstep
    exact h.dispatch insn fault moved decided
  | setReg reg value =>
    cases hstep
    exact h.setReg reg value
  | csr address value origin =>
    cases hstep
    exact h.hook _
  | trap cause target debugModeTrap mstatus mepc mcause =>
    cases hstep
    exact h.hook _
  | store address size data =>
    cases hstep
    exact h.hook _
  | load l =>
    rw [Cosim.step] at hstep
    split_ifs at hstep
    cases hstep
    exact (h.hook _).load l
  | retry exception =>
    rw [Cosim.step] at hstep
    split_ifs at hstep
    cases hstep
    refine h.retry fun r hr => ?_
    subst hr
    exact hnil hovertakes
  | retire r =>
    cases hstep
    exact h.retire (hnil hovertakes)
  | boundary kind cause irqId pc nextPc csr =>
    cases hstep
    exact h.boundary kind cause irqId pc nextPc csr
  | wake =>
    rw [Cosim.step] at hstep
    split_ifs at hstep
    cases hstep
    refine h.move rfl ⟨rfl, rfl, rfl⟩ h.current ?_ h.front h.noMissing
    obtain ⟨wfis, others, hsplit, hwfis, hothers, hdrains, hheld⟩ := h.fifo
    refine ⟨wfis.map _, others.map _, by simp only; rw [hsplit, map_append], fun x hx => ?_, fun x hx => ?_, ?_, ?_⟩
    · obtain ⟨y, hy, rfl⟩ := List.mem_map.1 hx
      exact hwfis y hy
    · obtain ⟨y, hy, rfl⟩ := List.mem_map.1 hx
      exact hothers y hy
    · rw [length_map]
      exact hdrains
    · rw [List.map_map]
      exact hheld
  | drain pc =>
    rw [Cosim.step] at hstep
    split at hstep
    · rename_i x rest hfifo
      split_ifs at hstep
      cases hstep
      exact h.drain hfifo pc
    · cases hstep
  | poll => exact h.poll hstep
  | externalLoadResponse n data => exact h.externalLoadResponse hmixes hstep

theorem init (regions : List Region) : Inv { regions := regions } :=
  ⟨rfl, rfl, nofun, rfl, nofun, ⟨[], [], rfl, nofun, nofun, rfl, rfl⟩, .inl rfl, nofun⟩

end Inv

end GvsocPulp.Cv32e40p
