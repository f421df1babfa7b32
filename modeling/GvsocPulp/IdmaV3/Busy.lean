import GvsocPulp.IdmaV3.Transfers

/-!
# The busy status

`IdmaFeXdma` and `IdmaFeReg` number their transfers with 32-bit identifiers that skip 0 and 1. Both compare the
identifier of the next transfer with that of the last completion, one by a difference (`get_status(2)`) and both where
they release their busy trace (`done_handler`).

- `toNat_idAt`: the identifiers are periodic with `idPeriod = 2^32 - 2`;
- `ids_meet`: the next identifier follows that of the last completion exactly where the launches and the completions
  differ by a multiple of `idPeriod`, but never after a completion that was given the largest identifier;
- `busy_exact_iff`: when the status and the traces are right in every state of a run.

A transfer is over when `done_handler` has counted its last line (the counters are registered). What the mid-end accepts
and completes, and when, is left to the events: it also completes each line of length 0.
-/

namespace GvsocPulp.IdmaV3

open Lib Function BitVec

/-! ## The identifiers -/

/-- The number of identifiers. -/
def idPeriod : Nat := 4294967294

/-- The identifier of a transfer by its place, from 1 on; `idAt 0` is what `completed_id` starts from. -/
def idAt (k : Nat) : BitVec 32 := nextIdAfter^[k] 1

theorem idAt_succ (k : Nat) : idAt (k + 1) = nextIdAfter (idAt k) := iterate_succ_apply' ..

theorem iterate_idAt (n k : Nat) : nextIdAfter^[n] (idAt k) = idAt (k + n) := by
  unfold idAt
  rw [← iterate_add_apply, add_comm]

theorem toNat_nextIdAfter {id : BitVec 32} (h : 0 < id.toNat) :
    (nextIdAfter id).toNat = if id.toNat = 4294967295 then 2 else id.toNat + 1 := by
  have hlt := id.isLt
  unfold nextIdAfter
  split
  · next hid =>
    simp only [lt_def, toNat_add, ofNat_eq_ofNat, toNat_ofNat] at hid
    split
    · rfl
    · omega
  · next hid =>
    simp only [lt_def, toNat_add, ofNat_eq_ofNat, toNat_ofNat] at hid
    rw [if_neg (by omega)]
    simp only [toNat_add, ofNat_eq_ofNat, toNat_ofNat]
    omega

theorem toNat_idAt (k : Nat) : (idAt (k + 1)).toNat = 2 + k % idPeriod := by
  unfold idPeriod
  induction k with
  | zero => simp [idAt, nextIdAfter]
  | succ k ih =>
    rw [idAt_succ, toNat_nextIdAfter (by omega), ih]
    split <;> omega

/-- The numbers of launches and of counted completions whose identifiers meet. -/
def Meet (launched counted : Nat) : Prop :=
  counted % idPeriod = launched % idPeriod ∧ ¬ (0 < counted ∧ idPeriod ∣ counted)

theorem ids_meet {launched counted : Nat} : idAt counted + 1 = idAt (launched + 1) ↔ Meet launched counted := by
  rw [← toNat_inj, toNat_idAt, toNat_add, Meet]
  simp only [idPeriod, ofNat_eq_ofNat, toNat_ofNat]
  cases counted with
  | zero =>
    simp only [idAt, iterate_zero_apply, ofNat_eq_ofNat, toNat_ofNat]
    omega
  | succ k =>
    rw [toNat_idAt, idPeriod]
    omega

/-! ## A stream -/

/-- What a front-end keeps for one stream, with the numbers of transfers launched, of completions counted, of transfers
whose last line is completed, and of those that `done_handler` has seen among these. -/
structure StreamIds where
  nextId : BitVec 32 := 2
  doneId : BitVec 32 := 1
  pendingDone : Nat := 0
  traceBusy : Bool := false
  launched : Nat := 0
  counted : Nat := 0
  ended : Nat := 0
  done : Nat := 0

namespace StreamIds

/-- A launch: the identifier is allocated and the trace set. -/
def launch (s : StreamIds) : StreamIds :=
  { s with nextId := nextIdAfter s.nextId, traceBusy := true, launched := s.launched + 1 }

/-- `complete_nd`, for the last line of a transfer or for an earlier one of length 0 (`force_last`). -/
def completeNd (superLast : Bool) (s : StreamIds) : StreamIds :=
  { s with pendingDone := s.pendingDone + 1, ended := s.ended + superLast.toNat }

def doneHandler (s : StreamIds) : StreamIds :=
  let doneId := nextIdAfter^[s.pendingDone] s.doneId
  { s with
    doneId := doneId
    counted := s.counted + s.pendingDone
    pendingDone := 0
    done := s.ended
    traceBusy := if doneId + 1 = s.nextId then false else s.traceBusy }

/-- Some launched transfer is not completed. -/
def Outstanding (s : StreamIds) : Prop := s.done < s.launched

/-- The trace is released exactly when no transfer is outstanding. -/
def TraceExact (s : StreamIds) : Prop := s.traceBusy ↔ s.Outstanding

/-- The test is right for these numbers: the identifiers meet where all transfers are over, and nowhere else. -/
def Apart (launched counted done : Nat) : Prop := done = launched ↔ Meet launched counted

/-- The identifiers are those of the numbers; nothing is left to count once all transfers are over. -/
structure Counts (s : StreamIds) : Prop where
  nextId : s.nextId = idAt (s.launched + 1)
  doneId : s.doneId = idAt s.counted
  done_le : s.done ≤ s.ended
  ended_le : s.ended ≤ s.launched
  idle : s.done = s.launched → s.pendingDone = 0

variable {s : StreamIds} {superLast : Bool}

theorem counts_init : Counts {} := ⟨rfl, rfl, le_refl 0, le_refl 0, fun _ => rfl⟩

variable (h : s.Counts)
include h

theorem Counts.launch : s.launch.Counts := by
  obtain ⟨hnext, hdone, hle, hle', -⟩ := h
  refine ⟨?_, hdone, hle, Nat.le_succ_of_le hle', ?_⟩
  · simp only [StreamIds.launch]
    rw [hnext, ← idAt_succ]
  · simp only [StreamIds.launch]
    omega

theorem Counts.completeNd (hlt : s.ended < s.launched) : (s.completeNd superLast).Counts := by
  obtain ⟨hnext, hdone, hle, -, -⟩ := h
  have hlast := superLast.toNat_le
  refine ⟨hnext, hdone, ?_, ?_, ?_⟩ <;> simp only [StreamIds.completeNd] <;> omega

theorem Counts.doneHandler : s.doneHandler.Counts := by
  refine ⟨h.nextId, ?_, le_rfl, h.ended_le, fun _ => rfl⟩
  simp only [StreamIds.doneHandler]
  rw [h.doneId, iterate_idAt]

theorem Counts.meet_iff : s.doneId + 1 = s.nextId ↔ Meet s.launched s.counted := by
  rw [h.nextId, h.doneId]
  exact ids_meet

theorem Counts.outstanding_iff : s.Outstanding ↔ s.done ≠ s.launched :=
  (h.done_le.trans h.ended_le).lt_iff_ne

theorem Counts.apart_iff :
    (s.doneId + 1 ≠ s.nextId ↔ s.Outstanding) ↔ Apart s.launched s.counted s.done := by
  rw [Ne, h.meet_iff, h.outstanding_iff, Apart]
  exact not_iff_not.trans Iff.comm

theorem launch_traceExact : s.launch.TraceExact := by
  have hle := h.done_le.trans h.ended_le
  exact iff_of_true rfl (Nat.lt_succ_of_le hle)

/-- `done_handler` leaves the trace right exactly where the test is right for the new numbers. -/
theorem doneHandler_traceExact_iff (htrace : s.TraceExact)
    (hsettled : s.done = s.launched → Meet s.launched s.counted) :
    s.doneHandler.TraceExact ↔ Apart s.launched (s.counted + s.pendingDone) s.ended := by
  have happart : _ ↔ Apart s.launched (s.counted + s.pendingDone) s.ended := h.doneHandler.apart_iff
  have hbusy : s.doneHandler.traceBusy = if s.doneHandler.doneId + 1 = s.doneHandler.nextId then false
    else s.traceBusy := rfl
  rw [← happart]
  unfold TraceExact at htrace ⊢
  rw [hbusy]
  split
  · next hmeet => simp only [hmeet, Bool.false_eq_true, false_iff, ne_eq, not_true_eq_false]
  · next hmeet =>
    by_cases hout : s.Outstanding
    · simp only [htrace.2 hout, true_iff, ne_eq, hmeet, not_false_eq_true]
    · -- nothing was left to count, and the test was right before
      have hdone : s.done = s.launched := not_not.1 fun hne => hout (h.outstanding_iff.2 hne)
      have hmeets := hsettled hdone
      rw [← add_zero s.counted, ← h.idle hdone] at hmeets
      exact absurd (h.doneHandler.meet_iff.2 hmeets) hmeet

end StreamIds

/-! ## The front-end of the Snitch -/

namespace Busy

open StreamIds

/-- `IdmaFeXdma`: the identifiers, and whether a transfer waits for a slot of the request FIFO. -/
structure Xdma where
  ids : StreamIds := {}
  stalled : Bool := false

namespace Xdma

def getStatus (canAccept : Bool) (status : BitVec 32) (s : Xdma) : BitVec 32 :=
  match status.toNat with
  | 0 => s.ids.doneId
  | 1 => s.ids.nextId + 1
  | 2 => if s.ids.nextId - s.ids.doneId ≠ 1 then 1 else 0
  | 3 => if canAccept then 0 else 1
  | _ => 0

/-- What happens to the block; `canAccept` is the answer of `can_accept_nd()`. -/
inductive Event
  | dmcpy (canAccept : Bool)
  | meReady (canAccept : Bool)
  | completeNd (superLast : Bool)
  | doneHandler

/-- The core offloads nothing while it holds a `dmcpy`, and only lines of what was pushed complete. -/
def step (s : Xdma) : Event → Option Xdma
  | .dmcpy canAccept => if s.stalled then none else some { ids := s.ids.launch, stalled := !canAccept }
  | .meReady canAccept => some { s with stalled := s.stalled && !canAccept }
  | .completeNd superLast =>
    if s.ids.ended + s.stalled.toNat < s.ids.launched then some { s with ids := s.ids.completeNd superLast } else none
  | .doneHandler => some { s with ids := s.ids.doneHandler }

/-- The status and the trace tell whether a transfer is outstanding. -/
def Exact (s : Xdma) : Prop :=
  (∀ canAccept, s.getStatus canAccept 2 ≠ 0 ↔ s.ids.Outstanding) ∧ s.ids.TraceExact

/-- The step leaves numbers that the identifiers tell apart. -/
def KeepsApart (s : Xdma) : Event → Prop
  | .dmcpy _ => Apart (s.ids.launched + 1) s.ids.counted s.ids.done
  | .doneHandler => Apart s.ids.launched (s.ids.counted + s.ids.pendingDone) s.ids.ended
  | _ => True

variable {s s' : Xdma} {e : Event}

theorem getStatus_ne_zero (canAccept : Bool) : s.getStatus canAccept 2 ≠ 0 ↔ s.ids.doneId + 1 ≠ s.ids.nextId := by
  have hsub : s.ids.nextId - s.ids.doneId ≠ 1 ↔ s.ids.doneId + 1 ≠ s.ids.nextId := by
    rw [Ne, Ne, BitVec.sub_eq_iff_eq_add, BitVec.add_comm, eq_comm]
  rw [← hsub]
  show (if s.ids.nextId - s.ids.doneId ≠ 1 then (1 : BitVec 32) else 0) ≠ 0 ↔ _
  split <;> simp_all

theorem exact_iff (h : s.ids.Counts) : s.Exact ↔ Apart s.ids.launched s.ids.counted s.ids.done ∧ s.ids.TraceExact := by
  unfold Exact
  rw [← h.apart_iff]
  simp only [getStatus_ne_zero, forall_const]

theorem step_counts (h : s.ids.Counts) (hs : step s e = some s') : s'.ids.Counts := by
  cases e with
  | dmcpy canAccept =>
    simp only [step] at hs
    split at hs <;> cases hs
    exact h.launch
  | meReady canAccept =>
    cases hs
    exact h
  | completeNd superLast =>
    simp only [step] at hs
    split at hs
    · next hlt =>
      cases hs
      exact h.completeNd (Nat.lt_of_add_right_lt hlt)
    · cases hs
  | doneHandler =>
    cases hs
    exact h.doneHandler

theorem step_exact_iff (h : s.ids.Counts ∧ s.Exact) (hs : step s e = some s') : s'.Exact ↔ KeepsApart s e := by
  obtain ⟨h, hexact⟩ := h
  rw [exact_iff (step_counts h hs)]
  obtain ⟨hapart, htrace⟩ := (exact_iff h).1 hexact
  cases e with
  | dmcpy canAccept =>
    simp only [step] at hs
    split at hs <;> cases hs
    have hlaunch := launch_traceExact h
    exact and_iff_left hlaunch
  | meReady canAccept =>
    cases hs
    exact iff_true_intro ⟨hapart, htrace⟩
  | completeNd superLast =>
    simp only [step] at hs
    split at hs
    · cases hs
      exact iff_true_intro ⟨hapart, htrace⟩
    · cases hs
  | doneHandler =>
    cases hs
    rw [doneHandler_traceExact_iff h htrace hapart.1]
    exact and_self_iff

theorem init_exact : ({} : Xdma).ids.Counts ∧ ({} : Xdma).Exact := by
  refine ⟨counts_init, (exact_iff counts_init).2 ⟨?_, ?_⟩⟩
  · simp [Apart, Meet]
  · simp [TraceExact, Outstanding]

end Xdma

/-! ## The register front-end -/

/-- `IdmaFeReg`: the identifiers of its streams. -/
structure Reg where
  streams : Nat → StreamIds := fun _ => {}

namespace Reg

/-- What happens to the block; a launch is denied while the mid-end of its stream does not accept. -/
inductive Event
  | launch (stream : Nat) (canAccept : Bool)
  | completeNd (stream : Nat) (superLast : Bool)
  | doneHandler

def step (s : Reg) : Event → Option Reg
  | .launch i canAccept => some (if canAccept then ⟨update s.streams i (s.streams i).launch⟩ else s)
  | .completeNd i superLast =>
    if (s.streams i).ended < (s.streams i).launched then some ⟨update s.streams i ((s.streams i).completeNd superLast)⟩
    else none
  | .doneHandler => some ⟨fun i => (s.streams i).doneHandler⟩

def Exact (s : Reg) : Prop := ∀ i, (s.streams i).TraceExact

/-- `done_handler` leaves numbers that the identifiers tell apart. -/
def KeepsApart (s : Reg) : Event → Prop
  | .doneHandler => ∀ i, Apart (s.streams i).launched ((s.streams i).counted + (s.streams i).pendingDone)
      (s.streams i).ended
  | _ => True

/-- A stream of which the identifiers and the trace are right. -/
structure Settled (s : StreamIds) : Prop where
  counts : s.Counts
  trace : s.TraceExact
  settled : s.done = s.launched → Meet s.launched s.counted

variable {s s' : Reg} {e : Event}

theorem settled_launch {s : StreamIds} (h : Settled s) : Settled s.launch := by
  refine ⟨h.counts.launch, launch_traceExact h.counts, ?_⟩
  intro heq
  have hle := h.counts.done_le.trans h.counts.ended_le
  simp only [StreamIds.launch] at heq
  omega

theorem settled_completeNd {s : StreamIds} {superLast : Bool} (h : Settled s) (hlt : s.ended < s.launched) :
    Settled (s.completeNd superLast) :=
  ⟨h.counts.completeNd hlt, h.trace, h.settled⟩

theorem settled_doneHandler {s : StreamIds} (h : Settled s) (hdone : s.doneHandler.TraceExact) :
    Settled s.doneHandler := by
  have hapart := (doneHandler_traceExact_iff h.counts h.trace h.settled).1 hdone
  exact ⟨h.counts.doneHandler, hdone, hapart.1⟩

theorem settled_update (h : ∀ i, Settled (s.streams i)) {i : Nat} {t : StreamIds} (ht : Settled t) (j : Nat) :
    Settled (update s.streams i t j) := by
  by_cases hj : j = i
  · subst hj
    simpa using ht
  · simpa [hj] using h j

theorem step_exact_iff (h : ∀ i, Settled (s.streams i)) (hs : step s e = some s') : s'.Exact ↔ KeepsApart s e := by
  cases e with
  | launch i canAccept =>
    cases hs
    refine iff_true_intro fun j => ?_
    split
    · exact (settled_update h (settled_launch (h i)) j).trace
    · exact (h j).trace
  | completeNd i superLast =>
    simp only [step] at hs
    split at hs
    · next hlt =>
      cases hs
      exact iff_true_intro fun j => (settled_update h (settled_completeNd (h i) hlt) j).trace
    · cases hs
  | doneHandler =>
    cases hs
    exact forall_congr' fun i => doneHandler_traceExact_iff (h i).counts (h i).trace (h i).settled

theorem step_settled (h : ∀ i, Settled (s.streams i)) (hs : step s e = some s') (hexact : s'.Exact) :
    ∀ i, Settled (s'.streams i) := by
  intro j
  cases e with
  | launch i canAccept =>
    cases hs
    split
    · exact settled_update h (settled_launch (h i)) j
    · exact h j
  | completeNd i superLast =>
    simp only [step] at hs
    split at hs
    · next hlt =>
      cases hs
      exact settled_update h (settled_completeNd (h i) hlt) j
    · cases hs
  | doneHandler =>
    cases hs
    exact settled_doneHandler (h j) (hexact j)

theorem settled_init (i : Nat) : Settled (({} : Reg).streams i) := by
  refine ⟨counts_init, ?_, ?_⟩
  · simp [TraceExact, Outstanding]
  · simp [Meet]

end Reg

/-! ## Runs -/

/-- The status and the traces are right in all states of a run exactly where its launches (for the status) and its
counted completions leave numbers of transfers that the identifiers tell apart. -/
theorem busy_exact_iff (es : List Xdma.Event) (fs : List Reg.Event) :
    (AllStates Xdma.step Xdma.Exact {} es ↔ AllSteps Xdma.step Xdma.KeepsApart {} es) ∧
    (AllStates Reg.step Reg.Exact {} fs ↔ AllSteps Reg.step Reg.KeepsApart {} fs) := by
  constructor
  · apply allStates_iff (I := fun s : Xdma => s.ids.Counts ∧ s.Exact)
    · intro s h
      exact h.2
    · intro s e s' h hs
      exact Xdma.step_exact_iff h hs
    · intro s e s' h hs hexact
      exact ⟨Xdma.step_counts h.1 hs, hexact⟩
    · exact Xdma.init_exact
  · apply allStates_iff (I := fun s : Reg => ∀ i, Reg.Settled (s.streams i))
    · intro s h i
      exact (h i).trace
    · intro s e s' h hs
      exact Reg.step_exact_iff h hs
    · intro s e s' h hs hexact
      exact Reg.step_settled h hs hexact
    · exact Reg.settled_init

/-- Transfers that are launched, completed and counted one after the other. -/
def rounds : Nat → List Xdma.Event
  | 0 => []
  | n + 1 => [.dmcpy true, .completeNd true, .doneHandler] ++ rounds n

theorem run_rounds (n : Nat) : ∀ s : Xdma, s.ids.Counts → s.stalled = false → s.ids.done = s.ids.launched →
    s.ids.counted = s.ids.launched →
    ∃ s', run Xdma.step s (rounds n) = some s' ∧ s'.ids.Counts ∧ s'.ids.done = s'.ids.launched ∧
      s'.ids.counted = s'.ids.launched ∧ s'.ids.launched = s.ids.launched + n := by
  induction n with
  | zero =>
    intro s h _ hdone heq
    exact ⟨s, rfl, h, hdone, heq, rfl⟩
  | succ n ih =>
    intro s h hstalled hdone heq
    have hpending := h.idle hdone
    have hended : s.ids.ended = s.ids.launched := h.ended_le.antisymm (hdone ▸ h.done_le)
    have hlt : s.ids.launch.ended < s.ids.launch.launched := hended ▸ Nat.lt_succ_self _
    let s₁ : Xdma := ⟨(s.ids.launch.completeNd true).doneHandler, false⟩
    have hround : run Xdma.step s [.dmcpy true, .completeNd true, .doneHandler] = some s₁ := by
      simp [run, Xdma.step, hstalled, StreamIds.launch, hended, s₁]
    have hcounted : s₁.ids.counted = s₁.ids.launched := by
      simp [s₁, StreamIds.doneHandler, completeNd, StreamIds.launch, heq, hpending]
    have hdone₁ : s₁.ids.done = s₁.ids.launched := by
      simp [s₁, StreamIds.doneHandler, completeNd, StreamIds.launch, hended]
    obtain ⟨s', hrun, h', hdone', heq', hn⟩ := ih s₁ (h.launch.completeNd hlt).doneHandler rfl hdone₁ hcounted
    refine ⟨s', run_append.2 ⟨s₁, hround, hrun⟩, h', hdone', heq', ?_⟩
    rw [hn]
    simp only [s₁, StreamIds.doneHandler, completeNd, StreamIds.launch]
    omega

/-- After as many transfers as there are identifiers, the front-end stays busy with nothing outstanding. -/
theorem busy_after_all_ids : ¬ AllStates Xdma.step Xdma.Exact {} (rounds idPeriod) := by
  intro h
  obtain ⟨s, hrun, hcounts, hdone, heq, hn⟩ := run_rounds idPeriod {} counts_init rfl rfl rfl
  obtain ⟨hapart, -⟩ := (Xdma.exact_iff hcounts).1 (h.final hrun)
  have hlaunched : s.ids.launched = idPeriod := hn.trans (zero_add _)
  refine (hapart.1 hdone).2 ?_
  rw [heq, hlaunched]
  exact ⟨by decide, dvd_rfl⟩

end Busy

end GvsocPulp.IdmaV3
