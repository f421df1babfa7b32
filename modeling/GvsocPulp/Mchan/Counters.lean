import GvsocPulp.Lib.Run

/-!
# The transfer counters of the MCHAN

`free_counter_mask` and the reads of the CMD register that wait for a free counter: `alloc_counter`, `do_alloc_counter`
and `free_counters`, which a STATUS write calls.

- `allocOk_step_iff`: what an event keeps, and exactly when;
- `counters_iff`: over whole runs, the allocation is right exactly while each STATUS write that finds reads parked frees
  one counter; `counters_wasted`: a read that stays parked with a counter free.
-/

namespace GvsocPulp.Mchan

open Lib Function List

variable {i : Nat} {read : CmdRead} {wasParked : Bool}

abbrev nbCounters : Nat := 16

/-- A read of the CMD register: the request, and the channel it comes by. -/
structure CmdRead where
  req : Nat
  channel : Nat
  deriving DecidableEq, Repr

/-- What a read has been answered, whether nobody owned that counter, and whether the read was parked before. -/
structure Answer where
  read : CmdRead
  value : Int
  wasFree : Bool
  wasParked : Bool
  deriving DecidableEq, Repr

/-- The counters of the MCHAN, with what has been asked and answered. -/
structure Counters where
  freeCounterMask : BitVec 32 := 0xFFFF#32
  allocPendingReqs : List CmdRead := []
  /-- `current_counter` of each channel. -/
  currentCounter : Nat → Int := fun _ => 0
  reads : List CmdRead := []
  parked : List CmdRead := []
  answers : List Answer := []
  /-- The read that was answered with a counter which has not been freed since. -/
  owner : Nat → Option CmdRead := fun _ => none

namespace Counters

def countersOf (mask : BitVec 32) : List Nat := (List.range nbCounters).filter (mask.getLsbD ·)

variable (s : Counters)

/-- `do_alloc_counter`: the lowest free counter, -1 for none. -/
def doAllocCounter (channel : Nat) : Int × Counters :=
  match (List.range nbCounters).find? (s.freeCounterMask.getLsbD ·) with
  | some i =>
    (i, { s with
      freeCounterMask := s.freeCounterMask &&& ~~~(1#32 <<< i)
      currentCounter := update s.currentCounter channel i })
  | none => (-1, s)

def answer (read : CmdRead) (value : Int) (wasParked : Bool) : Counters :=
  { s with
    answers := s.answers ++ [⟨read, value, (s.owner value.toNat).isNone, wasParked⟩]
    owner := if 0 ≤ value then update s.owner value.toNat (some read) else s.owner }

/-- The request is answered with what `do_alloc_counter` gives. -/
def serve (read : CmdRead) (wasParked : Bool) : Counters :=
  (s.doAllocCounter read.channel).2.answer read (s.doAllocCounter read.channel).1 wasParked

def handleQueueRead (read : CmdRead) : Counters :=
  if s.freeCounterMask ≠ 0 then { s with reads := s.reads ++ [read] }.serve read false
  else
    { s with
      reads := s.reads ++ [read]
      allocPendingReqs := s.allocPendingReqs ++ [read]
      parked := s.parked ++ [read] }

def freed (counterMask : BitVec 32) : Counters :=
  { s with
    freeCounterMask := s.freeCounterMask ||| (counterMask &&& 0xFFFF#32)
    owner := fun i => if i < nbCounters ∧ counterMask.getLsbD i then none else s.owner i }

/-- `free_counters`: one of the cores that wait is answered. -/
def freeCounters (counterMask : BitVec 32) : Counters :=
  match s.allocPendingReqs with
  | [] => s.freed counterMask
  | read :: rest => { s.freed counterMask with allocPendingReqs := rest }.serve read true

end Counters

/-- What the cores do. -/
inductive CounterEvent
  | cmdRead (read : CmdRead)
  | statusWrite (mask : BitVec 32)
  deriving DecidableEq, Repr

/-- **A step** of the counters. -/
def countersStep (s : Counters) : CounterEvent → Option Counters
  | .cmdRead read => some (s.handleQueueRead read)
  | .statusWrite mask => some (s.freeCounters mask)

/-! ## Right allocation -/

/-- The allocation is right: each read is answered once, with a counter that was free and belongs to it until it is
freed; the parked ones in their order, and none waits with a counter free. -/
structure AllocOk (s : Counters) : Prop where
  answered : ∀ a ∈ s.answers, 0 ≤ a.value ∧ a.value < nbCounters ∧ a.wasFree = true
  once : (s.answers.map (·.read) ++ s.allocPendingReqs).Perm s.reads
  fifo : (s.answers.filter (·.wasParked)).map (·.read) ++ s.allocPendingReqs = s.parked
  owned : ∀ i < nbCounters, s.freeCounterMask.getLsbD i = true ↔ s.owner i = none
  noWait : s.allocPendingReqs ≠ [] → s.freeCounterMask = 0

/-- A STATUS write that finds reads parked frees a counter, and only one if several reads are. -/
def FreesOne (s : Counters) (e : CounterEvent) : Prop :=
  ∀ mask, e = .statusWrite mask → s.allocPendingReqs ≠ [] →
    Counters.countersOf mask ≠ [] ∧ (s.allocPendingReqs.length = 1 ∨ (Counters.countersOf mask).length = 1)

/-- What holds of all states besides: the mask has no other bits. -/
def AllocInv (s : Counters) : Prop := AllocOk s ∧ ∀ i, s.freeCounterMask.getLsbD i = true → i < nbCounters

namespace Counters

variable {s : Counters} {mask : BitVec 32}

theorem mem_countersOf : i ∈ countersOf mask ↔ i < nbCounters ∧ mask.getLsbD i = true := by
  rw [countersOf, mem_filter, mem_range]

theorem getLsbD_clear {j : Nat} (hi : i < nbCounters) :
    (mask &&& ~~~(1#32 <<< i)).getLsbD j = (mask.getLsbD j && decide (j ≠ i)) := by
  by_cases hj : j < 32
  · have hlsb : (1#32 <<< i).getLsbD j = decide (j = i) := by
      rw [BitVec.getLsbD_shiftLeft, BitVec.getLsbD_one]
      by_cases hji : j = i
      · subst hji
        simp [hj]
      · simp only [hji, hj, decide_true, decide_false, Bool.true_and]
        by_cases hlt : j < i
        · simp [hlt]
        · simp
          omega
    rw [BitVec.getLsbD_and, BitVec.getLsbD_not, hlsb]
    simp [hj]
  · rw [BitVec.getLsbD_of_ge _ _ (by omega), BitVec.getLsbD_of_ge _ _ (by omega), Bool.false_and]

theorem countersOf_clear (hi : i < nbCounters) :
    countersOf (mask &&& ~~~(1#32 <<< i)) = (countersOf mask).erase i := by
  have hnd : (countersOf mask).Nodup := nodup_range.filter _
  rw [hnd.erase_eq_filter, countersOf, countersOf, List.filter_filter]
  congr 1
  funext j
  rw [getLsbD_clear hi, Bool.and_comm]
  by_cases hj : j = i <;> simp [hj]

theorem countersOf_eq_nil (hlow : ∀ i, mask.getLsbD i = true → i < nbCounters) : countersOf mask = [] ↔ mask = 0 := by
  rw [eq_nil_iff_forall_not_mem]
  constructor
  · intro h
    refine BitVec.eq_of_getLsbD_eq fun i _ => ?_
    rw [BitVec.ofNat_eq_ofNat, BitVec.getLsbD_zero]
    by_contra hc
    rw [Bool.not_eq_false] at hc
    exact h i (mem_countersOf.2 ⟨hlow i hc, hc⟩)
  · rintro rfl i hi
    have := (mem_countersOf.1 hi).2
    simp at this

theorem doAllocCounter_spec (channel : Nat) :
    (countersOf s.freeCounterMask = [] ∧ s.doAllocCounter channel = (-1, s)) ∨
      ∃ i < nbCounters, s.freeCounterMask.getLsbD i = true ∧ ∃ current, s.doAllocCounter channel =
        ((i : Int), { s with freeCounterMask := s.freeCounterMask &&& ~~~(1#32 <<< i), currentCounter :=
          current }) := by
  rw [doAllocCounter]
  split
  case h_1 i h =>
    have hmem := mem_of_find?_eq_some h
    exact .inr ⟨i, mem_range.1 hmem, by simpa using find?_some h, _, rfl⟩
  case h_2 h =>
    refine .inl ⟨?_, rfl⟩
    rw [countersOf, filter_eq_nil_iff]
    exact find?_eq_none.1 h

/-! ### Answers -/

/-- Everything but `noWait`, while `read` is being answered; for `none`, between two events. -/
structure Answering (s : Counters) (read : Option (CmdRead × Bool)) : Prop where
  answered : ∀ a ∈ s.answers, 0 ≤ a.value ∧ a.value < nbCounters ∧ a.wasFree = true
  once : (s.answers.map (·.read) ++ (read.toList.map (·.1) ++ s.allocPendingReqs)).Perm s.reads
  fifo : (s.answers.filter (·.wasParked)).map (·.read) ++
    ((read.toList.filter (·.2)).map (·.1) ++ s.allocPendingReqs) = s.parked
  owned : ∀ i < nbCounters, s.freeCounterMask.getLsbD i = true ↔ s.owner i = none
  low : ∀ i, s.freeCounterMask.getLsbD i = true → i < nbCounters

theorem allocInv_iff : AllocInv s ↔ s.Answering none ∧ (s.allocPendingReqs ≠ [] → s.freeCounterMask = 0) :=
  ⟨fun ⟨h, hlow⟩ => ⟨{ h with low := hlow }, h.noWait⟩,
    fun ⟨h, hno⟩ => ⟨{ h with noWait := hno }, h.low⟩⟩

theorem Answering.serve (hs : s.Answering (some (read, wasParked)))
    (hne : countersOf s.freeCounterMask ≠ []) :
    (s.serve read wasParked).Answering none ∧ (s.serve read wasParked).allocPendingReqs = s.allocPendingReqs ∧
      (countersOf (s.serve read wasParked).freeCounterMask).length + 1 = (countersOf s.freeCounterMask).length := by
  rcases s.doAllocCounter_spec read.channel with ⟨hnil, -⟩ | ⟨i, hi, hfree, current, hspec⟩
  · exact absurd hnil hne
  · rw [Counters.serve, hspec]
    have howner : s.owner i = none := (hs.owned i hi).1 hfree
    refine ⟨⟨?_, ?_, ?_, ?_, ?_⟩, rfl, ?_⟩
    · intro a ha
      rcases mem_append.1 ha with ha | ha
      · exact hs.answered a ha
      · rw [mem_singleton.1 ha]
        refine ⟨Int.natCast_nonneg i, Int.ofNat_lt.2 hi, ?_⟩
        rw [Int.toNat_natCast, howner]
        rfl
    · show ((s.answers ++ [_]).map Answer.read ++ ([] ++ s.allocPendingReqs)).Perm s.reads
      have honce := hs.once
      rw [map_append, append_assoc]
      exact honce
    · show ((s.answers ++ [_]).filter Answer.wasParked).map Answer.read ++ ([] ++ s.allocPendingReqs) = s.parked
      rw [← hs.fifo, filter_append, map_append, append_assoc]
      cases wasParked <;> rfl
    · intro j hj
      show (s.freeCounterMask &&& ~~~(1#32 <<< i)).getLsbD j = true ↔
        (if (0 : Int) ≤ i then update s.owner (i : Int).toNat (some read) else s.owner) j = none
      rw [getLsbD_clear hi, if_pos (Int.natCast_nonneg i), Int.toNat_natCast, Bool.and_eq_true, decide_eq_true_eq]
      by_cases hji : j = i
      · subst hji
        rw [update_self]
        simp
      · rw [update_of_ne hji, hs.owned j hj]
        exact and_iff_left hji
    · intro j hj
      replace hj : (s.freeCounterMask &&& ~~~(1#32 <<< i)).getLsbD j = true := hj
      rw [getLsbD_clear hi, Bool.and_eq_true] at hj
      exact hs.low j hj.1
    · show (countersOf (s.freeCounterMask &&& ~~~(1#32 <<< i))).length + 1 = _
      have hmem : i ∈ countersOf s.freeCounterMask := mem_countersOf.2 ⟨hi, hfree⟩
      rw [countersOf_clear hi, length_erase_of_mem hmem]
      have := length_pos_of_mem hmem
      omega

theorem serve_none (hnil : countersOf s.freeCounterMask = []) :
    ¬AllocOk (s.serve read wasParked) := by
  rcases s.doAllocCounter_spec read.channel with ⟨-, h⟩ | ⟨i, hi, hfree, -, -⟩
  · rw [serve, h]
    intro hok
    have hlast := hok.answered ⟨read, -1, (s.owner (-1 : Int).toNat).isNone, wasParked⟩
      (mem_append_right _ (mem_singleton_self _))
    exact absurd (show (0 : Int) ≤ -1 from hlast.1) (by decide)
  · have hmem : i ∈ countersOf s.freeCounterMask := mem_countersOf.2 ⟨hi, hfree⟩
    rw [hnil] at hmem
    cases hmem

/-! ### Events -/

theorem handleQueueRead_inv (read : CmdRead) (hs : AllocInv s) : AllocInv (s.handleQueueRead read) := by
  obtain ⟨hs, hno⟩ := allocInv_iff.1 hs
  rw [handleQueueRead]
  split
  case isTrue hfree =>
    have hnil : s.allocPendingReqs = [] := by
      by_contra hc
      exact hfree (hno hc)
    have hne : countersOf s.freeCounterMask ≠ [] := fun h => hfree ((countersOf_eq_nil hs.low).1 h)
    have hread : Answering { s with reads := s.reads ++ [read] } (some (read, false)) := by
      refine { hs with once := ?_ }
      have honce := hs.once
      rw [hnil] at honce ⊢
      rw [Option.toList_none, map_nil, append_nil, append_nil] at honce
      rw [append_nil]
      exact honce.append_right [read]
    obtain ⟨h, hpend, -⟩ := hread.serve hne
    refine allocInv_iff.2 ⟨h, fun hc => ?_⟩
    rw [hpend] at hc
    exact absurd hnil hc
  case isFalse hzero =>
    rw [not_not] at hzero
    refine allocInv_iff.2 ⟨⟨hs.answered, ?_, ?_, hs.owned, hs.low⟩, fun _ => hzero⟩
    · show (s.answers.map Answer.read ++ ([] ++ (s.allocPendingReqs ++ [read]))).Perm (s.reads ++ [read])
      have honce := hs.once
      rw [nil_append, ← append_assoc]
      exact honce.append_right [read]
    · show (s.answers.filter Answer.wasParked).map Answer.read ++ ([] ++ (s.allocPendingReqs ++ [read])) =
        s.parked ++ [read]
      rw [nil_append, ← append_assoc, ← hs.fifo]
      rfl

theorem getLsbD_allCounters (i : Nat) : (0xFFFF#32).getLsbD i = decide (i < nbCounters) := by
  by_cases hi : i < 32
  · interval_cases i <;> rfl
  · have hn : nbCounters ≤ 32 := by decide
    rw [BitVec.getLsbD_of_ge _ _ (by omega), eq_comm, decide_eq_false_iff_not]
    omega

theorem getLsbD_freed : (s.freeCounterMask ||| (mask &&& 0xFFFF#32)).getLsbD i =
    (s.freeCounterMask.getLsbD i || (decide (i < nbCounters) && mask.getLsbD i)) := by
  rw [BitVec.getLsbD_or, BitVec.getLsbD_and, getLsbD_allCounters, Bool.and_comm (mask.getLsbD i)]

/-- A STATUS write keeps the allocation right exactly if it frees one counter for the reads that are parked. -/
theorem freeCounters_inv (hs : AllocInv s) :
    (FreesOne s (.statusWrite mask) → AllocInv (s.freeCounters mask)) ∧
      (AllocOk (s.freeCounters mask) → FreesOne s (.statusWrite mask)) := by
  obtain ⟨hs, hno⟩ := allocInv_iff.1 hs
  have howned : ∀ i < nbCounters, (s.freeCounterMask ||| (mask &&& 0xFFFF#32)).getLsbD i = true ↔
      (if i < nbCounters ∧ mask.getLsbD i then none else s.owner i) = none := by
    intro i hi
    rw [getLsbD_freed, Bool.or_eq_true, hs.owned i hi, decide_eq_true hi, Bool.true_and]
    by_cases hm : mask.getLsbD i = true <;> simp [hi, hm]
  have hlow : ∀ i, (s.freeCounterMask ||| (mask &&& 0xFFFF#32)).getLsbD i = true → i < nbCounters := by
    intro i hi
    rw [getLsbD_freed, Bool.or_eq_true, Bool.and_eq_true, decide_eq_true_eq] at hi
    rcases hi with hi | hi
    · exact hs.low i hi
    · exact hi.1
  rw [freeCounters]
  cases hpend : s.allocPendingReqs with
  | nil =>
    have hfree : ∀ e, FreesOne s e := fun e _ _ hne => absurd hpend hne
    refine ⟨fun _ => allocInv_iff.2 ⟨⟨hs.answered, ?_, ?_, howned, hlow⟩, fun h => absurd hpend h⟩, fun _ => hfree _⟩
    · exact hs.once
    · exact hs.fifo
  | cons read rest =>
    -- no counter was free
    have hzero : s.freeCounterMask = 0 := hno (by rw [hpend]; exact cons_ne_nil _ _)
    have hfreed : countersOf (s.freeCounterMask ||| (mask &&& 0xFFFF#32)) = countersOf mask := by
      rw [countersOf, countersOf]
      refine filter_congr fun i hi => ?_
      rw [getLsbD_freed, hzero, decide_eq_true (mem_range.1 hi)]
      simp
    have hcond : FreesOne s (.statusWrite mask) ↔
        countersOf mask ≠ [] ∧ (rest = [] ∨ (countersOf mask).length = 1) := by
      rw [FreesOne]
      constructor
      · intro h
        have := h mask rfl (by rw [hpend]; exact cons_ne_nil _ _)
        rw [hpend, length_cons] at this
        refine ⟨this.1, this.2.imp (fun h => length_eq_zero_iff.1 (Nat.succ_inj.1 h)) id⟩
      · rintro h mask' hmask -
        cases hmask
        rw [hpend, length_cons]
        exact ⟨h.1, h.2.imp (fun h => by rw [h]; rfl) id⟩
    dsimp only
    generalize ht : ({ s.freed mask with allocPendingReqs := rest } : Counters) = t
    have hanswering : t.Answering (some (read, true)) := by
      subst ht
      refine ⟨hs.answered, ?_, ?_, howned, hlow⟩
      · have honce := hs.once
        rw [hpend] at honce
        exact honce
      · have hfifo := hs.fifo
        rw [hpend] at hfifo
        exact hfifo
    have htmask : countersOf t.freeCounterMask = countersOf mask := by
      rw [← ht]
      exact hfreed
    have htrest : t.allocPendingReqs = rest := by rw [← ht]
    rw [hcond]
    by_cases hne : countersOf mask = []
    · exact ⟨fun h => absurd hne h.1, fun h => absurd h (serve_none (by rw [htmask, hne]))⟩
    · obtain ⟨hok, hrest, hlen⟩ := hanswering.serve (by rwa [htmask])
      rw [htrest] at hrest
      rw [htmask] at hlen
      generalize t.serve read true = u at hok hrest hlen
      have hzero' : u.freeCounterMask = 0 ↔ (countersOf mask).length = 1 := by
        rw [← countersOf_eq_nil hok.low, ← length_eq_zero_iff]
        omega
      constructor
      · rintro ⟨-, h⟩
        refine allocInv_iff.2 ⟨hok, fun hpend' => ?_⟩
        rw [hrest] at hpend'
        exact hzero'.2 (h.resolve_left hpend')
      · intro h
        refine ⟨hne, ?_⟩
        by_cases hr : rest = []
        · exact .inl hr
        · exact .inr (hzero'.1 (h.noWait (by rwa [hrest])))

end Counters

theorem allocOk_step_iff {s s' : Counters} {e : CounterEvent} (hs : AllocInv s) (h : countersStep s e = some s') :
    (AllocOk s' ↔ FreesOne s e) ∧ (AllocOk s' → AllocInv s') := by
  cases e with
  | cmdRead read =>
    cases h
    have hinv := Counters.handleQueueRead_inv read hs
    exact ⟨⟨fun _ mask hmask => (by cases hmask), fun _ => hinv.1⟩, fun _ => hinv⟩
  | statusWrite mask =>
    cases h
    obtain ⟨hto, hof⟩ := Counters.freeCounters_inv hs
    exact ⟨⟨hof, fun hP => (hto hP).1⟩, fun hok => hto (hof hok)⟩

/-- **Allocation of the counters.** In every run, the allocation is right in all states exactly if each STATUS write
that finds reads parked frees a counter, and one only if several reads are parked. -/
theorem counters_iff (es : List CounterEvent) :
    AllStates countersStep AllocOk {} es ↔ AllSteps countersStep FreesOne {} es := by
  refine allStates_iff (I := AllocInv) (fun s hs => hs.1) (fun s e s' hs h => (allocOk_step_iff hs h).1)
    (fun s e s' hs h hok => (allocOk_step_iff hs h).2 hok) ?_
  refine Counters.allocInv_iff.2 ⟨⟨fun a ha => (by cases ha), .nil, rfl, fun i hi => ?_, fun i hi => ?_⟩,
    fun h => absurd rfl h⟩
  · exact ⟨fun _ => rfl, fun _ => (Counters.getLsbD_allCounters i).trans (decide_eq_true hi)⟩
  · exact of_decide_eq_true ((Counters.getLsbD_allCounters i).symm.trans hi)

/-- Eighteen reads, the last two of them parked, then a STATUS write that frees two counters. -/
def twoFreed : List CounterEvent := (List.range 18).map (fun i => .cmdRead ⟨i, 0⟩) ++ [.statusWrite 3#32]

/-- A read stays parked with a counter free. -/
theorem counters_wasted : ¬AllStates countersStep AllocOk {} twoFreed := by
  intro h
  have hrun : (run countersStep {} twoFreed).map (fun s => (s.allocPendingReqs, s.freeCounterMask)) =
      some ([⟨17, 0⟩], 2#32) := by decide +kernel
  obtain ⟨s, hs, hpair⟩ := Option.map_eq_some_iff.1 hrun
  have hno := (h.final hs).noWait
  rw [(Prod.mk.inj hpair).1, (Prod.mk.inj hpair).2] at hno
  exact absurd (hno (cons_ne_nil _ _)) (by decide)

end GvsocPulp.Mchan
