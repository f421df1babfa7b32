import GvsocPulp.SnitchIcache.Arbiter

/-!
# No port of the L1 starves

The fetches of other ports that may still be taken before the one at the head of a port: as many as there are ports,
once it can go, and one more for a cycle that it spends before that in the tag lookup.

- `mayWait`: this number, from the pointer, the lock and the cycle;
- `mayWait_step`, `othersTaken_le`: each fetch of another port that is taken lowers it;
- `bounded_turns`: the waiting time, with what the arbiter grants meanwhile.
-/

namespace GvsocPulp.SnitchIcache.L1

open Lib List Option Nat L1

/-! ## What is taken -/

/-- The event has taken the fetch at the head of a port. -/
def Taken (s t : L1) (q : Nat) : Prop := (t.portReqs q).length < (s.portReqs q).length

instance (s t : L1) (q : Nat) : Decidable (Taken s t q) := inferInstanceAs (Decidable (_ < _))

/-- An event that does not take the fetch at the head of a port. -/
def Waits (cfg : Config) (p : Nat) (s : L1) (e : L1Event) : Prop := ∀ t, s.step cfg e = some t → ¬Taken s t p

instance (cfg : Config) (p : Nat) (s : L1) (e : L1Event) : Decidable (Waits cfg p s e) :=
  match hs : s.step cfg e with
  | none => isTrue fun t ht => by cases hs.symm.trans ht
  | some u => decidable_of_iff (¬Taken s u p) ⟨fun h t ht => by cases hs.symm.trans ht; exact h, fun h => h u hs⟩

def otherTaken (cfg : Config) (p : Nat) (s t : L1) : Bool :=
  (List.range cfg.nrFetchPorts).any fun q => q ≠ p ∧ Taken s t q

/-- How many fetches of other ports are taken in a run. -/
def othersTaken (cfg : Config) (p : Nat) : L1 → List L1Event → Nat
  | _, [] => 0
  | s, e :: es =>
    match s.step cfg e with
    | some t => (if otherTaken cfg p s t then 1 else 0) + othersTaken cfg p t es
    | none => 0

/-! ## Waiting -/

/-- How many fetches of other ports may be taken before the one at the head of a port that can go. -/
def turns (cfg : Config) (p : Nat) (s : L1) : Nat :=
  match s.lockedPort with
  | none => turnsTo cfg.nrFetchPorts s.rrQ p
  | some q => if q = p then 0 else if s.rrQ = p then cfg.nrFetchPorts else turnsTo cfg.nrFetchPorts s.rrQ p

/-- How many times the handler may run before the fetch at the head of a port can go. -/
def runsBefore (p : Nat) (s : L1) : Nat :=
  match s.portReqs p with
  | x :: _ => if s.lookupEvent = some s.cycle then x.cycle - s.cycle else x.cycle - (s.cycle + 1)
  | [] => 0

/-- How many fetches of other ports may be taken before the one at the head of a port. -/
def mayWait (cfg : Config) (p : Nat) (s : L1) : Nat :=
  if runsBefore p s = 0 then turns cfg p s else runsBefore p s + cfg.nrFetchPorts - 1

section Step

variable {cfg : Config} {s t : L1} {p q : Nat} {e : L1Event}

theorem turns_le (hp : p < cfg.nrFetchPorts) (h : Arb cfg s) : turns cfg p s ≤ cfg.nrFetchPorts := by
  have hlt := turnsTo_lt (h.pointer (zero_lt_of_lt hp)) hp
  unfold turns
  cases s.lockedPort with
  | none => exact hlt.le
  | some q =>
    dsimp only
    split
    · exact zero_le _
    · split
      · exact le_rfl
      · exact hlt.le

theorem runsBefore_ready (h : s.ready p = true) : runsBefore p s = 0 := by
  rw [ready] at h
  unfold runsBefore
  cases hq : s.portReqs p with
  | nil => rfl
  | cons x rest =>
    rw [hq, decide_eq_true_eq] at h
    dsimp only
    split <;> omega

theorem mayWait_le (hp : p < cfg.nrFetchPorts) (ht : Arb cfg t) (hruns : runsBefore p t ≤ runsBefore p s)
    (hturns : runsBefore p s = 0 → turns cfg p t ≤ turns cfg p s) : mayWait cfg p t ≤ mayWait cfg p s := by
  have hle := turns_le hp ht
  unfold mayWait
  split
  · split
    case isTrue h => exact hturns h
    case isFalse h => omega
  · split <;> omega

theorem turns_congr (hrr : t.rrQ = s.rrQ) (hlocked : t.lockedPort = s.lockedPort) : turns cfg p t = turns cfg p s := by
  unfold turns
  rw [hrr, hlocked]

/-- Nothing is taken: neither the pointer nor the lock moves, and the fetch at the head comes nearer to its cycle. -/
theorem mayWait_passive (hp : p < cfg.nrFetchPorts) (h : Arb cfg s) (hqueue : s.portReqs p ≠ [])
    (hpassive : Passive cfg s t) :
    mayWait cfg p t ≤ mayWait cfg p s := by
  refine mayWait_le hp (h.passive hpassive) ?_ fun _ => (turns_congr hpassive.rrQ hpassive.lockedPort).le
  obtain ⟨l, hl, -⟩ := hpassive.portReqs p
  obtain ⟨x, rest, hx⟩ := exists_cons_of_ne_nil hqueue
  unfold runsBefore
  rw [hl, hx, cons_append]
  dsimp only
  rcases hpassive.clock with ⟨hcycle, hdue⟩ | ⟨hcycle, hdue⟩
  · rw [hcycle] at hdue ⊢
    by_cases ht : t.lookupEvent = some s.cycle
    · rw [if_pos ht, if_pos (hdue ht)]
    · rw [if_neg ht]
      split <;> omega
  · rw [if_neg hdue, hcycle]
    split <;> omega

theorem runsBefore_handled (hhandled : Handled cfg s t) (hqueue : t.portReqs p = s.portReqs p) :
    runsBefore p t = runsBefore p s - 1 := by
  unfold runsBefore
  rw [hqueue]
  cases s.portReqs p with
  | nil => rfl
  | cons x rest =>
    dsimp only
    rw [if_pos hhandled.due, if_neg hhandled.event, hhandled.cycle]
    omega

/-- The fetch cannot go as long as there are runs of the handler before. -/
theorem ready_of_runsBefore (hhandled : Handled cfg s t) (hqueue : s.portReqs p ≠ []) (hruns : runsBefore p s = 0) :
    s.ready p = true := by
  obtain ⟨x, rest, hx⟩ := exists_cons_of_ne_nil hqueue
  unfold runsBefore at hruns
  rw [hx] at hruns
  dsimp only at hruns
  rw [if_pos hhandled.due] at hruns
  rw [ready, hx, decide_eq_true_eq]
  exact Nat.sub_eq_zero_iff_le.1 hruns

section

variable (h : Arb cfg s) (hready : s.ready p = true) (hq : granted cfg s = some q)
include h hready hq

/-- Where another port is granted although the fetch can go, that port is locked, or the pointer is elsewhere. -/
theorem granted_other (hne : q ≠ p) :
    s.lockedPort = some q ∨ s.lockedPort = none ∧ s.rrQ ≠ p := by
  have hp := h.ports p fun hnil => by rw [ready, hnil] at hready; cases hready
  rw [granted, ite_none_right_eq_some, Option.some.injEq] at hq
  cases hlocked : s.lockedPort with
  | some q' =>
    rw [hlocked, getD_some] at hq
    exact .inl (congrArg some hq.2)
  | none =>
    rw [hlocked, getD_none] at hq
    refine .inr ⟨rfl, fun hrr => hne ?_⟩
    rw [← hq.2, rrTreeWinner_pointer (hrr ▸ hp) (hrr ▸ hready), hrr]

theorem turns_kept (hrr : t.rrQ = s.rrQ) (hlocked : t.lockedPort = some q) : turns cfg p t ≤ turns cfg p s := by
  by_cases hne : q = p
  · unfold turns
    rw [hlocked]
    dsimp only
    rw [if_pos hne]
    exact zero_le _
  · rcases granted_other h hready hq hne with hold | ⟨hold, hpointer⟩
    · exact (turns_congr hrr (hlocked.trans hold.symm)).le
    · unfold turns
      rw [hlocked, hold]
      dsimp only
      rw [if_neg hne, hrr, if_neg hpointer]

theorem turns_taken (hne : q ≠ p)
    (hrr : t.rrQ = s.nextRrQ cfg s.ready q) (hlocked : t.lockedPort = none) : turns cfg p t < turns cfg p s := by
  have hp := h.ports p fun hnil => by rw [ready, hnil] at hready; cases hready
  have hpointer := h.pointer (zero_lt_of_lt hp)
  have ht : turns cfg p t = turnsTo cfg.nrFetchPorts (s.nextRrQ cfg s.ready q) p := by
    unfold turns
    rw [hlocked, hrr]
  rw [ht]
  by_cases hat : s.rrQ = p
  · have hold := (granted_other h hready hq hne).resolve_right fun hother => hother.2 hat
    unfold turns
    rw [hold]
    dsimp only
    rw [if_neg hne, if_pos hat]
    exact turnsTo_lt (nextRrQ_lt hp hready hpointer) hp
  · have hs : turns cfg p s = turnsTo cfg.nrFetchPorts s.rrQ p := by
      unfold turns
      rcases granted_other h hready hq hne with hold | ⟨hold, -⟩
      · rw [hold]
        dsimp only
        rw [if_neg hne, if_neg hat]
      · rw [hold]
    rw [hs]
    exact turnsTo_nextRrQ hp hready hpointer hat

end

theorem otherTaken_eq_false (hle : ∀ q, (s.portReqs q).length ≤ (t.portReqs q).length) :
    otherTaken cfg p s t = false := by
  refine List.any_eq_false.2 fun q _ => ?_
  rw [decide_eq_true_eq]
  exact fun htaken => absurd htaken.2 (not_lt.2 (hle q))

theorem Passive.length_le (h : Passive cfg s t) (q : Nat) : (s.portReqs q).length ≤ (t.portReqs q).length := by
  obtain ⟨l, hl, -⟩ := h.portReqs q
  rw [hl, length_append]
  exact Nat.le_add_right _ _

theorem taken_of_update (hqueue : s.portReqs q ≠ [])
    (hports : t.portReqs = Function.update s.portReqs q (s.portReqs q).tail) :
    Taken s t q := by
  have hpos := length_pos_of_ne_nil hqueue
  rw [Taken, hports, Function.update_self, length_tail]
  omega

theorem mayWait_step (h : Arb cfg s) (hqueue : s.portReqs p ≠ []) (hstep : s.step cfg e = some t)
    (hwaits : ¬Taken s t p) :
    t.portReqs p ≠ [] ∧ (if otherTaken cfg p s t then 1 else 0) + mayWait cfg p t ≤ mayWait cfg p s := by
  have hp := h.ports p hqueue
  rcases step_arbiter h hstep with hpassive | ⟨-, hhandled⟩
  · refine ⟨fun hnil => hqueue ?_, ?_⟩
    · have hle := hpassive.length_le p
      rw [hnil] at hle
      exact eq_nil_of_length_eq_zero (le_zero.1 hle)
    · rw [otherTaken_eq_false hpassive.length_le, if_neg Bool.false_ne_true, zero_add]
      exact mayWait_passive hp h hqueue hpassive
  · have harb := h.handled hhandled
    cases hhandled.outcome with
    | idle hq hrr hlocked hports =>
      refine ⟨hports ▸ hqueue, ?_⟩
      rw [otherTaken_eq_false fun q => by rw [hports], if_neg Bool.false_ne_true, zero_add]
      refine mayWait_le hp harb ?_ fun _ => (turns_congr hrr hlocked).le
      rw [runsBefore_handled hhandled (congrFun hports p)]
      exact sub_le _ _
    | kept q hq hrr hlocked hports =>
      refine ⟨hports ▸ hqueue, ?_⟩
      rw [otherTaken_eq_false fun q => by rw [hports], if_neg Bool.false_ne_true, zero_add]
      refine mayWait_le hp harb ?_ fun hruns => turns_kept h (ready_of_runsBefore hhandled hqueue hruns) hq hrr hlocked
      rw [runsBefore_handled hhandled (congrFun hports p)]
      exact sub_le _ _
    | taken q hq hrr hlocked hports =>
      have hne : q ≠ p := by
        rintro rfl
        exact hwaits (taken_of_update hqueue hports)
      have hqueue' : t.portReqs p = s.portReqs p := by
        rw [hports, Function.update_of_ne hne.symm]
      refine ⟨hqueue' ▸ hqueue, ?_⟩
      have hone : (if otherTaken cfg p s t then 1 else 0) ≤ 1 := by
        split <;> omega
      have hlt : mayWait cfg p t < mayWait cfg p s := by
        have hruns := runsBefore_handled hhandled hqueue'
        have hle := turns_le hp harb
        by_cases h0 : runsBefore p s = 0
        · have hturns := turns_taken h (ready_of_runsBefore hhandled hqueue h0) hq hne hrr hlocked
          unfold mayWait
          rw [hruns, h0, if_pos rfl, if_pos rfl]
          exact hturns
        · have hnone : turns cfg p t < cfg.nrFetchPorts := by
            unfold turns
            rw [hlocked]
            exact turnsTo_lt (harb.pointer (zero_lt_of_lt hp)) hp
          unfold mayWait
          rw [if_neg h0]
          split <;> omega
      omega

end Step

/-! ## Runs -/

section Runs

variable {cfg : Config} {p q : Nat}

theorem othersTaken_le : ∀ {es : List L1Event} {s : L1}, Arb cfg s → s.portReqs p ≠ [] →
    AllSteps (step cfg) (Waits cfg p) s es → othersTaken cfg p s es ≤ mayWait cfg p s
  | [], _, _, _, _ => zero_le _
  | e :: es, s, h, hqueue, hwaits => by
    rw [othersTaken]
    cases hstep : s.step cfg e with
    | none => exact zero_le _
    | some t =>
      obtain ⟨hwait, hrest⟩ := hwaits t hstep
      obtain ⟨hqueue', hle⟩ := mayWait_step h hqueue hstep (hwait t hstep)
      have hih := othersTaken_le (h.step hstep) hqueue' hrest
      dsimp only
      omega

theorem mayWait_bound {s : L1} (h : Arb cfg s) (hqueue : s.portReqs p ≠ []) :
    mayWait cfg p s ≤ cfg.nrFetchPorts + (lookupDelay cfg - 1) := by
  have hp := h.ports p hqueue
  have hle := turns_le hp h
  have hruns : runsBefore p s ≤ lookupDelay cfg := by
    obtain ⟨x, rest, hx⟩ := exists_cons_of_ne_nil hqueue
    have hcycle := (h.known p x (by rw [hx]; exact mem_cons_self)).2
    unfold runsBefore
    rw [hx]
    dsimp only
    split <;> omega
  unfold mayWait
  split <;> omega

theorem granted_locked {s : L1} (h : Arb cfg s) (hlocked : s.lockedPort = some q) : granted cfg s = some q := by
  obtain ⟨hq, hready⟩ := h.locked q hlocked
  rw [granted, if_pos (anyIn_iff.2 ⟨q, zero_le q, hq, hq, hready⟩), hlocked, getD_some]

theorem granted_nonempty {s : L1} (h : Arb cfg s) (hq : granted cfg s = some q) : s.portReqs q ≠ [] := by
  intro hnil
  have hready := (h.granted hq).2
  rw [ready, hnil] at hready
  cases hready

theorem locked_step {s t : L1} {e : L1Event} (h : Arb cfg s) (hlocked : s.lockedPort = some q)
    (hstep : s.step cfg e = some t) (hwaits : ¬Taken s t q) : t.lockedPort = some q ∧ otherTaken cfg q s t = false := by
  have hgranted := granted_locked h hlocked
  rcases step_arbiter h hstep with hpassive | ⟨-, hhandled⟩
  · exact ⟨hpassive.lockedPort.trans hlocked, otherTaken_eq_false hpassive.length_le⟩
  · cases hhandled.outcome with
    | idle hq hrr hkept hports => cases hgranted.symm.trans hq
    | kept q' hq hrr hkept hports =>
      cases hgranted.symm.trans hq
      exact ⟨hkept, otherTaken_eq_false fun q => by rw [hports]⟩
    | taken q' hq hrr hkept hports =>
      cases hgranted.symm.trans hq
      exact absurd (taken_of_update (granted_nonempty h hq) hports) hwaits

theorem locked_run : ∀ {es : List L1Event} {s t : L1}, Arb cfg s → s.lockedPort = some q →
    run (step cfg) s es = some t → AllSteps (step cfg) (Waits cfg q) s es → t.lockedPort = some q ∧
    othersTaken cfg q s es = 0
  | [], _, _, _, hlocked, hrun, _ => by
    cases hrun
    exact ⟨hlocked, rfl⟩
  | e :: es, s, t, h, hlocked, hrun, hwaits => by
    obtain ⟨s₁, hs₁, hrun⟩ := run_cons.1 hrun
    obtain ⟨hwait, hrest⟩ := hwaits s₁ hs₁
    obtain ⟨hlocked₁, hother⟩ := locked_step h hlocked hs₁ (hwait s₁ hs₁)
    obtain ⟨hfinal, hzero⟩ := locked_run (h.step hs₁) hlocked₁ hrun hrest
    refine ⟨hfinal, ?_⟩
    rw [othersTaken, hs₁]
    dsimp only
    rw [hother, hzero, if_neg Bool.false_ne_true]

/-- A port whose fetch the handler looks up, or finds blocked, is locked if the fetch is not taken. -/
theorem locked_of_granted {s t : L1} {status : RefillStatus} (h : Arb cfg s) (hq : granted cfg s = some q)
    (hstep : s.step cfg (.lookup status) = some t) (hwaits : ¬Taken s t q) : t.lockedPort = some q := by
  obtain ⟨hdue, rfl⟩ := ite_some_none_eq_some.1 hstep
  rw [due, decide_eq_true_eq] at hdue
  cases (lookupHandler_handled h hdue.2 status).outcome with
  | idle hq' hrr hkept hports => cases hq.symm.trans hq'
  | kept q' hq' hrr hkept hports =>
    cases hq.symm.trans hq'
    exact hkept
  | taken q' hq' hrr hkept hports =>
    cases hq.symm.trans hq'
    exact absurd (taken_of_update (granted_nonempty h hq) hports) hwaits

end Runs

/-- **No port starves.** Whatever the fetches, the stalls and the blocked cycles: the winner of the tree requests; the
port that is granted stays granted, and no fetch of another port is taken, until its own is; and before the fetch at the
head of a port is taken, for which the handler remains scheduled, at most `nrFetchPorts` fetches of other ports are
taken from where it can go on, and at most one more from where it is at the head on, with `serialLookup`. -/
theorem bounded_turns (cfg : Config) (mem : BitVec 32 → Byte) (es : List L1Event) (s : L1)
    (hrun : run (L1.step cfg) { mem := mem } es = some s) :
    (∀ n rrQ req, (∃ i < n, req i = true) → rrTreeWinner n rrQ req < n ∧ req (rrTreeWinner n rrQ req) = true) ∧
    (∀ q status t, granted cfg s = some q → s.step cfg (.lookup status) = some t → ¬Taken s t q →
      ∀ es' t', run (L1.step cfg) t es' = some t' → AllSteps (L1.step cfg) (Waits cfg q) t es' →
        granted cfg t' = some q ∧ othersTaken cfg q t es' = 0) ∧
    (∀ p, s.portReqs p ≠ [] → s.lookupEvent ≠ none ∧ ∀ es', AllSteps (L1.step cfg) (Waits cfg p) s es' →
      (s.ready p = true → othersTaken cfg p s es' ≤ cfg.nrFetchPorts) ∧
      othersTaken cfg p s es' ≤ cfg.nrFetchPorts + if cfg.serialLookup then 1 else 0) := by
  have harb := (Arb.initial cfg mem).run hrun
  refine ⟨fun n rrQ req h => rrTreeWinner_requests rrQ h, fun q status t hq ht hwaits es' t' hrun' hall => ?_,
    fun p hqueue => ⟨harb.scheduled p hqueue, fun es' hall => ?_⟩⟩
  · have harb' := harb.step ht
    obtain ⟨hlocked, hzero⟩ := locked_run harb' (locked_of_granted harb hq ht hwaits) hrun' hall
    exact ⟨granted_locked (harb'.run hrun') hlocked, hzero⟩
  · have hle := othersTaken_le harb hqueue hall
    refine ⟨fun hready => ?_, ?_⟩
    · have hturns := turns_le (harb.ports p hqueue) harb
      rw [mayWait, if_pos (runsBefore_ready hready)] at hle
      exact hle.trans hturns
    · have hbound := mayWait_bound harb hqueue
      unfold lookupDelay at hbound
      split at hbound <;> rename_i hserial
      · rw [if_pos hserial]
        omega
      · rw [if_neg hserial]
        omega

def twoPorts : Config where
  lineSizeBits := 4
  lineCount := 1
  wayCount := 1
  nrFetchPorts := 2
  numAxiOutstanding := 1
  serialLookup := true
  cacheableBase := 0
  cacheableSize := 0
  lineSizeBits_pos := by decide
  lineCount_pos := Nat.one_pos
  wayCount_pos := Nat.one_pos

/-- Three fetches of port 1, and two cycles later one of port 0. -/
def fourFetches : List L1Event :=
  [.fetch 1 0 4 .granted, .fetch 1 0 4 .granted, .fetch 1 0 4 .granted, .tick, .lookup .granted, .tick,
    .fetch 0 0 4 .granted]

theorem bounded_turns_fourFetches : ∃ s, run (L1.step twoPorts) {} fourFetches = some s ∧ s.portReqs 0 ≠ [] ∧
    ∀ es', AllSteps (L1.step twoPorts) (Waits twoPorts 0) s es' → othersTaken twoPorts 0 s es' ≤ 3 := by
  have h : ∃ s ∈ run (step twoPorts) {} fourFetches, s.portReqs 0 ≠ [] := by decide +kernel
  obtain ⟨s, hs, hqueue⟩ := h
  refine ⟨s, hs, hqueue, fun es' hall => ?_⟩
  exact (((bounded_turns twoPorts (fun _ => 0) fourFetches s hs).2.2 0 hqueue).2 es' hall).2

def threeLookups : List L1Event := [.lookup .granted, .tick, .lookup .granted, .tick, .lookup .granted]

theorem three_taken_before : ∃ s, run (L1.step twoPorts) {} fourFetches = some s ∧ s.portReqs 0 ≠ [] ∧
    AllSteps (L1.step twoPorts) (Waits twoPorts 0) s threeLookups ∧
      twoPorts.nrFetchPorts < othersTaken twoPorts 0 s threeLookups := by
  have h : ∃ s ∈ run (step twoPorts) {} fourFetches, s.portReqs 0 ≠ [] ∧
      AllSteps (step twoPorts) (Waits twoPorts 0) s threeLookups ∧
      twoPorts.nrFetchPorts < othersTaken twoPorts 0 s threeLookups := by
    decide +kernel
  exact h

end GvsocPulp.SnitchIcache.L1
