import GvsocPulp.Lib.Run
import GvsocPulp.IdmaV3.Buffer

/-!
# The byte-lane buffer is a set of byte FIFOs

`ByteFifos` is what the buffer is for: byte FIFOs, one for each lane, that take a beat a cycle. The buffer runs next to
them (`Pair`), under any calls that its own answers allow.

- `Timed`: the cycle of the last push that a lane keeps, against the cycles of the pushes of its FIFO;
- `Pair.Inv`: the bytes (`Holds`) and the cycles of all lanes, in both ways of keeping count;
- `fast_path_invisible`: the answers for non-empty ranges and the delivered bytes are those of the FIFOs, in every
  state.
-/

namespace GvsocPulp.IdmaV3

open Lib LaneBuffer List

variable {lane : Lane} {fifo : List (UInt8 × Int)} {lane' : Lane} {j : Nat}

/-! ## Byte FIFOs -/

/-- The bytes of the FIFOs with the cycles of their pushes, oldest first, and the cycle of the last beat. -/
structure ByteFifos where
  fifos : Nat → List (UInt8 × Int) := fun _ => []
  lastBeatCycle : Int := -1

namespace ByteFifos

variable (width depth : Nat) (beat : BeatBytes)

/-- No beat was pushed in this cycle, and each byte has room on its lane. -/
def canPush (shift now : Int) (f : ByteFifos) : Bool :=
  f.lastBeatCycle ≠ now && beat.indices.all fun j => (f.fifos (readLane width shift j)).length < depth

def push (bus : Nat → UInt8) (shift now : Int) (f : ByteFifos) : ByteFifos where
  fifos i := f.fifos i ++ (beat.indices.filter fun j => readLane width shift j = i).map fun j => (bus j, now)
  lastBeatCycle := now

/-- The oldest byte, from the cycle after its push. -/
def visibleHead (fifo : List (UInt8 × Int)) (now : Int) : Option UInt8 :=
  match fifo with
  | [] => none
  | (byte, cycle) :: _ => if cycle < now then some byte else none

/-- Each byte has a visible byte on its lane. -/
def canPop (shift now : Int) (f : ByteFifos) : Bool :=
  beat.indices.all fun j => (visibleHead (f.fifos (writeLane width shift j)) now).isSome

def pop (shift : Int) (bus : Nat → UInt8) (f : ByteFifos) : ByteFifos × (Nat → UInt8) :=
  ({ f with fifos := fun i => if i ∈ beat.indices.map (writeLane width shift) then (f.fifos i).tail else f.fifos i },
    fun j => if j ∈ beat.indices then ((f.fifos (writeLane width shift j)).head?.map (·.1)).getD (bus j) else bus j)

/-- The number of bytes held. -/
def fill (f : ByteFifos) : Nat := ∑ i ∈ Finset.range width, (f.fifos i).length

def empty (f : ByteFifos) : Bool := (List.range width).all fun i => (f.fifos i).isEmpty

/-- The bytes with their lanes, lane by lane. -/
def stream (f : ByteFifos) : List (Nat × UInt8) :=
  (List.range width).flatMap fun i => (f.fifos i).map fun e => (i, e.1)

variable {width depth} {f : ByteFifos}

theorem onLane_map_tag (i k : Nat) (es : List (UInt8 × Int)) :
    onLane i (es.map fun e => (k, e.1)) = if k = i then es.map (·.1) else [] := by
  rw [← onLane_tagged, List.map_map]
  rfl

theorem onLane_stream {i : Nat} (hi : i < width) : onLane i (f.stream width) = (f.fifos i).map (·.1) := by
  unfold stream
  induction width with
  | zero => omega
  | succ n ih =>
    rw [List.range_succ, flatMap_append, onLane_append]
    simp only [flatMap_cons, flatMap_nil, append_nil, onLane_map_tag]
    rcases (Nat.le_of_lt_succ hi).lt_or_eq with hlt | rfl
    · rw [ih hlt, if_neg (by omega), append_nil]
    · -- the lanes before the last one have none of its bytes
      have hnil : ∀ n ≤ i, onLane i ((List.range n).flatMap fun k => (f.fifos k).map fun e => (k, e.1)) = [] := by
        intro n hn
        induction n with
        | zero => rfl
        | succ n ihn =>
          rw [List.range_succ, flatMap_append, onLane_append, ihn (by omega)]
          simp only [flatMap_cons, flatMap_nil, append_nil, onLane_map_tag]
          rw [if_neg (by omega), append_nil]
      rw [hnil i le_rfl, if_pos rfl, nil_append]

theorem lt_of_mem_stream {x : Nat × UInt8} (h : x ∈ f.stream width) : x.1 < width := by
  obtain ⟨i, hi, hx⟩ := mem_flatMap.1 h
  obtain ⟨e, -, rfl⟩ := mem_map.1 hx
  exact mem_range.1 hi

end ByteFifos

/-! ## Streams with the same lanes -/

theorem length_eq_sum_onLane {width : Nat} : ∀ {win : List (Nat × UInt8)}, (∀ x ∈ win, x.1 < width) →
    win.length = ∑ i ∈ Finset.range width, (onLane i win).length
  | [], _ => by simp
  | (k, b) :: win, h => by
    have ih := @length_eq_sum_onLane _ win fun x hx => h x (mem_cons_of_mem _ hx)
    have hk : k < width := h (k, b) mem_cons_self
    have hlane : ∀ i, (onLane i ((k, b) :: win)).length = (onLane i win).length + if i = k then 1 else 0 := by
      intro i
      by_cases hi : i = k
      · subst hi
        simp
      · rw [onLane_cons_ne (Ne.symm hi), if_neg hi, Nat.add_zero]
    simp only [hlane, Finset.sum_add_distrib, length_cons]
    rw [Finset.sum_ite_eq' (Finset.range width) k, if_pos (Finset.mem_range.2 hk), ← ih]

theorem LaneBuffer.Holds.congr {width depth : Nat} {b : LaneBuffer} {win win' : List (Nat × UInt8)}
    (h : Holds width depth b win) (hlanes : ∀ i < width, onLane i win' = onLane i win) (hlt : ∀ x ∈ win', x.1 < width) :
    Holds width depth b win' := by
  refine ⟨fun i hi => ?_, h.head_lt, fun i hi => ?_, ?_, hlt⟩
  · rw [h.lane_eq i hi, hlanes i hi]
  · rw [hlanes i hi]
    exact h.le_depth i hi
  · rw [h.bytes_eq, length_eq_sum_onLane h.lt_width, length_eq_sum_onLane hlt]
    apply Finset.sum_congr rfl
    intro i hi
    rw [hlanes i (Finset.mem_range.1 hi)]

/-! ## The cycles of the pushes -/

structure Timed (lane : Lane) (fifo : List (UInt8 × Int)) : Prop where
  sorted : fifo.Pairwise (·.2 < ·.2)
  last : ∀ e, fifo.getLast? = some e → lane.lastPushCycle = e.2

theorem timed_nil (lane : Lane) : Timed lane [] := ⟨Pairwise.nil, fun e h => by cases h⟩

open ByteFifos (onLane_stream visibleHead)

theorem Timed.visible_iff (h : Timed lane fifo) (hcount : lane.count = fifo.length)
    {now : Int} (hle : ∀ e ∈ fifo, e.2 ≤ now) : 0 < visible lane now ↔ (visibleHead fifo now).isSome = true := by
  unfold visible
  rw [hcount]
  match fifo with
  | [] => simp [visibleHead]
  | [(byte, cycle)] =>
    have hlast := h.last (byte, cycle) rfl
    have hcycle := hle (byte, cycle) mem_cons_self
    simp only [visibleHead, hlast, length_singleton] at hcycle ⊢
    by_cases hnow : cycle = now
    · simp [hnow]
    · have hlt : cycle < now := by omega
      simp [hnow, hlt]
  | (byte, cycle) :: e :: rest =>
    -- an older byte than the last one was pushed before this cycle
    have hsorted := (pairwise_cons.1 h.sorted).1 e mem_cons_self
    have hcycle := hle e (mem_cons_of_mem _ mem_cons_self)
    have hlt : cycle < now := by
      change cycle < e.2 at hsorted
      omega
    simp only [visibleHead, if_pos hlt, length_cons, Option.isSome_some, iff_true]
    split <;> omega

theorem Timed.push (h : Timed lane fifo) {byte : UInt8} {now : Int}
    (hlt : ∀ e ∈ fifo, e.2 < now) (hlast : lane'.lastPushCycle = now) : Timed lane' (fifo ++ [(byte, now)]) := by
  constructor
  · rw [pairwise_append]
    refine ⟨h.sorted, pairwise_singleton .., ?_⟩
    intro e he e' he'
    rw [mem_singleton.1 he']
    exact hlt e he
  · intro e he
    rw [getLast?_concat] at he
    cases he
    exact hlast

theorem Timed.tail (h : Timed lane fifo)
    (hlast : fifo.tail ≠ [] → lane'.lastPushCycle = lane.lastPushCycle) : Timed lane' fifo.tail := by
  cases fifo with
  | nil => exact timed_nil lane'
  | cons e rest =>
    refine ⟨(pairwise_cons.1 h.sorted).2, fun e' he' => ?_⟩
    have hne : rest ≠ [] := by
      rintro rfl
      cases he'
    rw [hlast hne]
    refine h.last e' ?_
    rw [getLast?_cons_of_ne_nil hne]
    exact he'

namespace LaneBuffer

variable {width depth : Nat} {b : LaneBuffer} {beat : BeatBytes} {bus : Nat → UInt8} {shift now : Int} {i : Nat}

theorem toLanes_lane (b : LaneBuffer) (i : Nat) : (if b.uniform then b.splitLanes else b).lane i = b.lane i := by
  cases hu : b.uniform <;> simp [lane, splitLanes, hu]

theorem pushBytes_lane : ∀ (js : List Nat) (b : LaneBuffer), b.uniform = false →
    ((js.foldl (pushByte width depth bus shift now) b).lane i).lastPushCycle =
      if i ∈ js.map (readLane width shift) then now else (b.lane i).lastPushCycle := by
  intro js
  induction js with
  | nil => simp
  | cons j js ih =>
    intro b hu
    rw [foldl_cons, ih (pushByte width depth bus shift now b j) hu, map_cons]
    by_cases hi : i = readLane width shift j
    · subst hi
      simp [pushByte, lane, hu]
    · simp [pushByte, lane, hu, hi]

theorem push_lane (hb : beat.first + beat.count ≤ width) (hi : i < width) :
    ((push width depth beat bus shift now b).lane i).lastPushCycle =
      if i ∈ beat.indices.map (readLane width shift) then now else (b.lane i).lastPushCycle := by
  unfold push
  by_cases hfull : (b.uniform && isFull width beat shift) = true
  · rw [if_pos hfull]
    simp only [Bool.and_eq_true, isFull, decide_eq_true_eq] at hfull
    obtain ⟨hu, hcount, rfl⟩ := hfull
    have hmem : i ∈ beat.indices.map (readLane width 0) := by
      refine mem_map.2 ⟨i, mem_range'_1.2 ?_, readLane_zero hi⟩
      omega
    rw [if_pos hmem]
    simp [lane, hu]
  · rw [if_neg hfull]
    have hlanes := toLanes_lane { b with lastBeatCycle := now } i
    have hu := toLanes_uniform { b with lastBeatCycle := now }
    rw [pushBytes_lane beat.indices _ hu, hlanes]
    rfl

theorem pushBytes_lastBeat : ∀ (js : List Nat) (b : LaneBuffer),
    (js.foldl (pushByte width depth bus shift now) b).lastBeatCycle = b.lastBeatCycle := by
  intro js
  induction js with
  | nil => simp
  | cons j js ih =>
    intro b
    rw [foldl_cons, ih]
    rfl

theorem push_lastBeat : (push width depth beat bus shift now b).lastBeatCycle = now := by
  unfold push
  dsimp only
  split
  · rfl
  · rw [pushBytes_lastBeat]
    split <;> rfl

/-- Popping bytes one by one leaves the cycles and the rest of the bus word as they are. -/
theorem popBytes_same : ∀ (js : List Nat) (b : LaneBuffer) (bus : Nat → UInt8), b.uniform = false →
    ((js.foldl (popByte width depth shift) (b, bus)).1.lane i).lastPushCycle = (b.lane i).lastPushCycle ∧
      (js.foldl (popByte width depth shift) (b, bus)).1.lastBeatCycle = b.lastBeatCycle ∧
      ∀ k ∉ js, (js.foldl (popByte width depth shift) (b, bus)).2 k = bus k := by
  intro js
  induction js with
  | nil => simp
  | cons j js ih =>
    intro b bus hu
    obtain ⟨hlane, hbeat, hbus⟩ := ih (popByte width depth shift (b, bus) j).1
      (popByte width depth shift (b, bus) j).2 hu
    rw [foldl_cons]
    refine ⟨hlane.trans ?_, hbeat, ?_⟩
    · by_cases hi : i = writeLane width shift j
      · subst hi
        simp [popByte, lane, hu]
      · simp [popByte, lane, hu, hi]
    · intro k hk
      rw [mem_cons, not_or] at hk
      rw [hbus k hk.2]
      simp [popByte, hk.1]

theorem pop_lane (hbytes : (pop width depth beat shift bus b).1.bytes ≠ 0) :
    ((pop width depth beat shift bus b).1.lane i).lastPushCycle = (b.lane i).lastPushCycle := by
  unfold pop at hbytes ⊢
  by_cases hfull : (b.uniform && isFull width beat shift) = true
  · rw [if_pos hfull]
    rw [Bool.and_eq_true] at hfull
    simp [lane, hfull.1]
  · rw [if_neg hfull] at hbytes ⊢
    obtain ⟨hlane, -, -⟩ := @popBytes_same width depth shift i beat.indices _ bus (toLanes_uniform b)
    rw [toLanes_lane] at hlane
    dsimp only at hbytes ⊢
    generalize beat.indices.foldl (popByte width depth shift) (if b.uniform then b.splitLanes else b, bus) = popped at *
    by_cases h0 : popped.1.bytes = 0
    · rw [if_pos h0] at hbytes
      exact absurd h0 hbytes
    · rw [if_neg h0, hlane]

theorem pop_lastBeat : (pop width depth beat shift bus b).1.lastBeatCycle = b.lastBeatCycle := by
  unfold pop
  by_cases hfull : (b.uniform && isFull width beat shift) = true
  · rw [if_pos hfull]
  · rw [if_neg hfull]
    obtain ⟨-, hbeat, -⟩ := @popBytes_same width depth shift 0 beat.indices _ bus (toLanes_uniform b)
    have hlanes : (if b.uniform then b.splitLanes else b).lastBeatCycle = b.lastBeatCycle := by split <;> rfl
    rw [hlanes] at hbeat
    dsimp only
    generalize beat.indices.foldl (popByte width depth shift) (if b.uniform then b.splitLanes else b, bus) = popped at *
    by_cases h0 : popped.1.bytes = 0
    · rw [if_pos h0]
      exact hbeat
    · rw [if_neg h0]
      exact hbeat

theorem pop_untouched (hb : beat.first + beat.count ≤ width) {k : Nat} (hk : k < width) (hnot : k ∉ beat.indices) :
    (pop width depth beat shift bus b).2 k = bus k := by
  unfold pop
  by_cases hfull : (b.uniform && isFull width beat shift) = true
  · simp only [Bool.and_eq_true, isFull, decide_eq_true_eq] at hfull
    exact absurd (mem_range'_1.2 (by omega)) hnot
  · rw [if_neg hfull]
    obtain ⟨-, -, hbus⟩ := @popBytes_same width depth shift 0 beat.indices _ bus (toLanes_uniform b)
    exact hbus k hnot

/-- `reset`; the rows keep what they hold. -/
def reset (b : LaneBuffer) : LaneBuffer :=
  { b with lanes := fun _ => {}, shared := {}, uniform := true, bytes := 0, lastBeatCycle := -1 }

def empty (b : LaneBuffer) : Bool := b.bytes = 0

def fill (b : LaneBuffer) : Nat := b.bytes

end LaneBuffer

/-! ## The buffer next to the FIFOs -/

/-- The buffer and the FIFOs, after the same calls up to the cycle `now`. -/
structure Pair where
  buffer : LaneBuffer := .init
  fifos : ByteFifos := {}
  now : Int := 0

namespace Pair

inductive Event
  | push (beat : BeatBytes) (bus : Nat → UInt8) (shift now : Int)
  | pop (beat : BeatBytes) (bus : Nat → UInt8) (shift now : Int)
  | reset

variable (width depth : Nat)

/-- A call in a cycle that is not before the last one, for bytes of a bus word; pushes and pops only where the buffer
allows them. -/
def step (s : Pair) : Event → Option Pair
  | .push beat bus shift now =>
    if s.now ≤ now ∧ beat.first + beat.count ≤ width ∧ s.buffer.canPush width depth beat shift now then
      some ⟨s.buffer.push width depth beat bus shift now, s.fifos.push width beat bus shift now, now⟩
    else none
  | .pop beat bus shift now =>
    if s.now ≤ now ∧ beat.first + beat.count ≤ width ∧ s.buffer.canPop width beat shift now then
      some ⟨(s.buffer.pop width depth beat shift bus).1, (s.fifos.pop width beat shift bus).1, now⟩
    else none
  | .reset => some ⟨s.buffer.reset, {}, s.now⟩

/-- The buffer answers and delivers as the FIFOs do; its answers to `can_push` and `can_pop` for the ranges of `R`. -/
structure Agree (R : BeatBytes → Prop) (s : Pair) : Prop where
  canPush : ∀ beat shift now, s.now ≤ now → beat.first + beat.count ≤ width → R beat →
    s.buffer.canPush width depth beat shift now = s.fifos.canPush width depth beat shift now
  canPop : ∀ beat shift now, s.now ≤ now → beat.first + beat.count ≤ width → R beat →
    s.buffer.canPop width beat shift now = s.fifos.canPop width beat shift now
  empty : s.buffer.empty = s.fifos.empty width
  fill : s.buffer.fill = s.fifos.fill width
  delivered : ∀ beat bus shift now, s.now ≤ now → beat.first + beat.count ≤ width →
    s.buffer.canPop width beat shift now = true →
    ∀ j < width, (s.buffer.pop width depth beat shift bus).2 j = (s.fifos.pop width beat shift bus).2 j

structure Inv (s : Pair) : Prop where
  holds : Holds width depth s.buffer (s.fifos.stream width)
  timed : ∀ i < width, Timed (s.buffer.lane i) (s.fifos.fifos i)
  lastBeat : s.buffer.lastBeatCycle = s.fifos.lastBeatCycle
  lastBeat_le : s.fifos.lastBeatCycle ≤ s.now
  pushed : ∀ i < width, ∀ e ∈ s.fifos.fifos i, e.2 ≤ s.fifos.lastBeatCycle

variable {width depth} {s s' : Pair} {beat : BeatBytes} {bus : Nat → UInt8} {shift now : Int} {i : Nat}

theorem stream_nil : ({} : ByteFifos).stream width = [] := by simp [ByteFifos.stream]

theorem inv_init : Inv width depth {} where
  holds := by
    rw [stream_nil]
    exact init_holds
  timed := fun i _ => timed_nil _
  lastBeat := rfl
  lastBeat_le := by decide
  pushed := by simp

namespace Inv

section

variable (h : s.Inv width depth)
include h

theorem count_eq (hi : i < width) : (s.buffer.lane i).count = (s.fifos.fifos i).length := by
  rw [h.holds.count_eq hi, onLane_stream hi, length_map]

theorem visible_iff (hnow : s.now ≤ now) (hi : i < width) :
    0 < visible (s.buffer.lane i) now ↔ (visibleHead (s.fifos.fifos i) now).isSome = true := by
  refine (h.timed i hi).visible_iff (h.count_eq hi) ?_
  intro e he
  have hle := h.pushed i hi e he
  have hbeat := h.lastBeat_le
  omega

/-! ### The answers -/

theorem canPush_eq (hb : beat.first + beat.count ≤ width) (hne : 0 < beat.count) :
    s.buffer.canPush width depth beat shift now = s.fifos.canPush width depth beat shift now := by
  have hcount : ∀ j, (s.buffer.lane (readLane width shift j)).count = (s.fifos.fifos (readLane width shift j)).length :=
    fun j => h.count_eq (readLane_lt (by omega) shift j)
  have hfirst : beat.first ∈ beat.indices := mem_range'_1.2 (by omega)
  unfold canPush ByteFifos.canPush
  rw [h.lastBeat]
  congr 1
  cases hu : s.buffer.uniform with
  | true =>
    -- all lanes have the shared count
    have hshared : ∀ j, (s.fifos.fifos (readLane width shift j)).length = s.buffer.shared.count := by
      intro j
      rw [← hcount]
      simp [lane, hu]
    simp only [if_true, hshared]
    rw [Bool.eq_iff_iff, all_eq_true]
    exact ⟨fun hlt _ _ => hlt, fun hall => hall _ hfirst⟩
  | false =>
    simp only [Bool.false_eq_true, if_false]
    congr 1
    funext j
    rw [← hcount]
    simp [lane, hu]

theorem canPop_eq (hnow : s.now ≤ now) (hb : beat.first + beat.count ≤ width)
    (hne : 0 < beat.count) : s.buffer.canPop width beat shift now = s.fifos.canPop width beat shift now := by
  have hvisible : ∀ j, 0 < visible (s.buffer.lane (writeLane width shift j)) now ↔
      (visibleHead (s.fifos.fifos (writeLane width shift j)) now).isSome = true :=
    fun j => h.visible_iff hnow (writeLane_lt (by omega) shift j)
  have hfirst : beat.first ∈ beat.indices := mem_range'_1.2 (by omega)
  unfold LaneBuffer.canPop ByteFifos.canPop
  rw [Bool.eq_iff_iff, all_eq_true]
  cases hu : s.buffer.uniform with
  | true =>
    have hshared : ∀ j, 0 < visible s.buffer.shared now ↔
        (visibleHead (s.fifos.fifos (writeLane width shift j)) now).isSome = true := by
      intro j
      rw [← hvisible]
      simp [lane, hu]
    simp only [if_true, decide_eq_true_eq]
    exact ⟨fun hlt j _ => (hshared j).1 hlt, fun hall => (hshared _).2 (hall _ hfirst)⟩
  | false =>
    simp only [Bool.false_eq_true, if_false, all_eq_true, decide_eq_true_eq]
    refine forall₂_congr fun j _ => ?_
    rw [← hvisible]
    simp [lane, hu]

theorem fill_eq : s.buffer.fill = s.fifos.fill width := by
  unfold LaneBuffer.fill ByteFifos.fill
  rw [h.holds.bytes_eq, length_eq_sum_onLane h.holds.lt_width]
  apply Finset.sum_congr rfl
  intro i hi
  rw [onLane_stream (Finset.mem_range.1 hi), length_map]

theorem empty_eq : s.buffer.empty = s.fifos.empty width := by
  have hfill : s.buffer.bytes = s.fifos.fill width := h.fill_eq
  unfold LaneBuffer.empty ByteFifos.empty
  rw [hfill, Bool.eq_iff_iff, all_eq_true, decide_eq_true_eq]
  unfold ByteFifos.fill
  rw [Finset.sum_eq_zero_iff]
  simp

end

/-! ### Pushes -/

theorem filter_readLane (hb : beat.first + beat.count ≤ width) (hj : j ∈ beat.indices) :
    (beat.indices.filter fun k => readLane width shift k = readLane width shift j) = [j] := by
  have heq : (beat.indices.filter fun k => readLane width shift k = readLane width shift j) =
      beat.indices.filter fun k => k = j := by
    apply filter_congr
    intro k hk
    rw [decide_eq_decide]
    exact ⟨fun h => readLane_inj shift (indices_lt hb hk) (indices_lt hb hj) h, fun h => by rw [h]⟩
  rw [heq, filter_eq, count_eq_one_of_mem (indices_nodup beat) hj]
  rfl

theorem filter_readLane_nil (hi : i ∉ beat.indices.map (readLane width shift)) :
    (beat.indices.filter fun k => readLane width shift k = i) = [] := by
  rw [filter_eq_nil_iff]
  intro k hk heq
  exact hi (mem_map.2 ⟨k, hk, of_decide_eq_true heq⟩)

theorem push (h : s.Inv width depth) (hnow : s.now ≤ now) (hb : beat.first + beat.count ≤ width) (hw : 0 < width)
    (hcan : s.buffer.canPush width depth beat shift now = true) :
    Inv width depth ⟨s.buffer.push width depth beat bus shift now, s.fifos.push width beat bus shift now, now⟩ := by
  have hlt : s.fifos.lastBeatCycle < now := by
    have hle := h.lastBeat_le
    simp only [canPush, Bool.and_eq_true, decide_eq_true_eq, h.lastBeat] at hcan
    omega
  refine ⟨?_, ?_, push_lastBeat, Int.le_refl now, ?_⟩
  · refine (push_holds bus shift now hw h.holds hb hcan).congr ?_ fun x hx => ByteFifos.lt_of_mem_stream hx
    intro i hi
    rw [onLane_stream hi, onLane_append, onLane_stream hi]
    simp only [ByteFifos.push, map_append, List.map_map, readBytes, onLane, List.filter_map]
    rfl
  · intro i hi
    have hlane := @push_lane width depth s.buffer beat bus shift now i hb hi
    have htimed := h.timed i hi
    by_cases hmem : i ∈ beat.indices.map (readLane width shift)
    · obtain ⟨j, hj, rfl⟩ := mem_map.1 hmem
      rw [if_pos hmem] at hlane
      simp only [ByteFifos.push, filter_readLane hb hj, map_cons, map_nil]
      refine htimed.push ?_ hlane
      intro e he
      have hle := h.pushed _ hi e he
      omega
    · rw [if_neg hmem] at hlane
      simp only [ByteFifos.push, filter_readLane_nil hmem, map_nil, append_nil]
      exact ⟨htimed.sorted, fun e he => hlane.trans (htimed.last e he)⟩
  · intro i hi e he
    rcases mem_append.1 he with he | he
    · exact (h.pushed i hi e he).trans (Int.le_of_lt hlt)
    · obtain ⟨j, -, rfl⟩ := mem_map.1 he
      exact Int.le_refl now

/-! ### Pops -/

def headByte (width : Nat) (f : ByteFifos) (shift : Int) (j : Nat) : UInt8 :=
  ((f.fifos (writeLane width shift j)).head?.map (·.1)).getD 0

theorem holds_heads (h : s.Inv width depth) (bus : Nat → UInt8) (hb : beat.first + beat.count ≤ width) (hw : 0 < width)
    (hcan : s.buffer.canPop width beat shift now = true) :
    Holds width depth s.buffer (writeBytes width (headByte width s.fifos shift) shift beat.indices ++
      (s.fifos.pop width beat shift bus).1.stream width) := by
  refine h.holds.congr ?_ ?_
  · intro i hi
    rw [onLane_append, onLane_stream hi, onLane_stream hi]
    by_cases hmem : i ∈ beat.indices.map (writeLane width shift)
    · obtain ⟨j, hj, rfl⟩ := mem_map.1 hmem
      have hne := h.holds.available shift hw hcan j hj
      rw [onLane_stream hi] at hne
      rw [writeBytes, onLane_map_of_nodup _ (writeLanes_nodup shift beat hb) hj]
      simp only [ByteFifos.pop, if_pos hmem, headByte]
      cases hf : s.fifos.fifos (writeLane width shift j) with
      | nil => simp [hf] at hne
      | cons e rest => simp
    · have hnil : onLane i (writeBytes width (headByte width s.fifos shift) shift beat.indices) = [] := by
        by_contra hne
        apply hmem
        simpa [writeBytes] using mem_fst_of_onLane_ne_nil hne
      rw [hnil, nil_append]
      simp only [ByteFifos.pop, if_neg hmem]
  · intro x hx
    rcases mem_append.1 hx with hx | hx
    · obtain ⟨j, -, rfl⟩ := mem_map.1 hx
      exact writeLane_lt hw shift j
    · exact ByteFifos.lt_of_mem_stream hx

theorem delivered (h : s.Inv width depth) (hb : beat.first + beat.count ≤ width) (hw : 0 < width)
    (hcan : s.buffer.canPop width beat shift now = true) (hj : j < width) :
    (s.buffer.pop width depth beat shift bus).2 j = (s.fifos.pop width beat shift bus).2 j := by
  by_cases hmem : j ∈ beat.indices
  · obtain ⟨-, hval⟩ := pop_holds shift hw hb bus (h.holds_heads bus hb hw hcan)
    have hne := h.holds.available shift hw hcan j hmem
    rw [onLane_stream (writeLane_lt hw shift j)] at hne
    rw [hval j hmem]
    simp only [ByteFifos.pop, if_pos hmem, headByte]
    cases hf : s.fifos.fifos (writeLane width shift j) with
    | nil => simp [hf] at hne
    | cons e rest => rfl
  · rw [pop_untouched hb hj hmem]
    simp only [ByteFifos.pop, if_neg hmem]

theorem pop (h : s.Inv width depth) (hnow : s.now ≤ now) (hb : beat.first + beat.count ≤ width) (hw : 0 < width)
    (hcan : s.buffer.canPop width beat shift now = true) :
    Inv width depth ⟨(s.buffer.pop width depth beat shift bus).1, (s.fifos.pop width beat shift bus).1, now⟩ := by
  obtain ⟨hholds, -⟩ := pop_holds shift hw hb bus (h.holds_heads bus hb hw hcan)
  have hsub : ∀ i, ∀ e ∈ (s.fifos.pop width beat shift bus).1.fifos i, e ∈ s.fifos.fifos i := by
    intro i e he
    simp only [ByteFifos.pop] at he
    split at he
    · exact mem_of_mem_tail he
    · exact he
  refine ⟨hholds, ?_, ?_, h.lastBeat_le.trans hnow, ?_⟩
  · intro i hi
    have htimed := h.timed i hi
    -- a lane that still holds a byte keeps its cycle
    have hlast : (s.fifos.pop width beat shift bus).1.fifos i ≠ [] →
        ((s.buffer.pop width depth beat shift bus).1.lane i).lastPushCycle = (s.buffer.lane i).lastPushCycle := by
      intro hne
      apply pop_lane
      rw [hholds.bytes_eq]
      intro h0
      have hnil := eq_nil_of_length_eq_zero h0
      have hlane := @onLane_stream width (s.fifos.pop width beat shift bus).1 i hi
      rw [hnil, onLane_nil] at hlane
      exact hne (map_eq_nil_iff.1 hlane.symm)
    simp only [ByteFifos.pop] at hlast ⊢
    by_cases hmem : i ∈ beat.indices.map (writeLane width shift)
    · rw [if_pos hmem] at hlast ⊢
      exact htimed.tail hlast
    · rw [if_neg hmem] at hlast ⊢
      refine ⟨htimed.sorted, fun e he => ?_⟩
      have hne : s.fifos.fifos i ≠ [] := by
        intro hnil
        rw [hnil] at he
        cases he
      rw [hlast hne]
      exact htimed.last e he
  · rw [pop_lastBeat]
    exact h.lastBeat
  · intro i hi e he
    exact h.pushed i hi e (hsub i e he)

theorem reset (hnow : -1 ≤ s.now) : Inv width depth ⟨s.buffer.reset, {}, s.now⟩ where
  holds := by
    rw [stream_nil]
    exact ⟨fun _ _ => rfl, fun _ _ hd => hd, fun _ _ => Nat.zero_le _, rfl, fun _ hx => absurd hx not_mem_nil⟩
  timed := fun i _ => timed_nil _
  lastBeat := rfl
  lastBeat_le := hnow
  pushed := by simp

theorem step (h : s.Inv width depth ∧ 0 ≤ s.now) (hw : 0 < width) {e : Event}
    (hs : Pair.step width depth s e = some s') :
    s'.Inv width depth ∧ 0 ≤ s'.now := by
  obtain ⟨h, hnonneg⟩ := h
  cases e with
  | push beat bus shift now =>
    simp only [Pair.step] at hs
    split at hs
    · next hcall =>
      cases hs
      exact ⟨h.push hcall.1 hcall.2.1 hw hcall.2.2, hnonneg.trans hcall.1⟩
    · cases hs
  | pop beat bus shift now =>
    simp only [Pair.step] at hs
    split at hs
    · next hcall =>
      cases hs
      exact ⟨h.pop hcall.1 hcall.2.1 hw hcall.2.2, hnonneg.trans hcall.1⟩
    · cases hs
  | reset =>
    cases hs
    exact ⟨Inv.reset (by omega), hnonneg⟩

theorem agree (h : s.Inv width depth) (hw : 0 < width) : s.Agree width depth (0 < ·.count) where
  canPush := fun _ _ _ _ hb hne => h.canPush_eq hb hne
  canPop := fun _ _ _ hnow hb hne => h.canPop_eq hnow hb hne
  empty := h.empty_eq
  fill := h.fill_eq
  delivered := fun _ _ _ _ _ hb hcan _ hj => h.delivered hb hw hcan hj

end Inv

/-- For every width, depth and sequence of calls, the buffer answers for non-empty ranges, and delivers, as byte FIFOs
do. -/
theorem fast_path_invisible (log2Width depth : Nat) (es : List Event) :
    AllStates (step (2 ^ log2Width) depth) (Agree (2 ^ log2Width) depth (0 < ·.count)) {} es := by
  have hw : 0 < 2 ^ log2Width := Nat.two_pow_pos log2Width
  refine allStates_of_allSteps (I := fun s => Inv (2 ^ log2Width) depth s ∧ 0 ≤ s.now) (P := fun _ _ => True) ?_ ?_
    ⟨inv_init, Int.le_refl 0⟩ (allSteps_of_forall fun _ _ => trivial)
  · intro s h
    exact h.1.agree hw
  · intro s e s' h _ hs
    exact Inv.step h hw hs

/-- An empty range finds no byte in the empty buffer, where the FIFOs have all that it needs. -/
theorem not_agree_emptyRange : ¬ ∀ (log2Width depth : Nat) (es : List Event),
    AllStates (step (2 ^ log2Width) depth) (Agree (2 ^ log2Width) depth fun _ => True) {} es := by
  intro h
  have hpop := (h 0 1 []).canPop ⟨0, 0⟩ 0 0 (Int.le_refl 0) (by decide) trivial
  revert hpop
  decide

end Pair

end GvsocPulp.IdmaV3
