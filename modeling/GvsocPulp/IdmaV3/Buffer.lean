import GvsocPulp.Lib.Lanes

/-!
# `IdmaByteLaneBuffer`

The byte FIFOs between the read and the write manager, with their two ways of keeping count: all lanes together while
only full unshifted beats moved, lane by lane otherwise.

- `Holds`: the buffer holds a stream of bytes tagged with their lanes, in order;
- `push_holds`: pushing a beat appends its bytes to the stream;
- `pop_holds`: popping a beat whose bytes head the stream gives these bytes and removes them.

`x & lane_mask` is `x % width` here, as the width is a power of two.
-/

namespace GvsocPulp.IdmaV3

open Lib Function List Bool

variable {k slot : Nat} {val : Nat → UInt8}

/-! ## The buffer -/

/-- `IdmaBeatBytes`: the bytes `first`, .., `first + count - 1` of a bus word. -/
structure BeatBytes where
  first : Nat
  count : Nat
  deriving DecidableEq, Repr

def BeatBytes.indices (b : BeatBytes) : List Nat := range' b.first b.count

/-- The bookkeeping of one byte FIFO. -/
structure Lane where
  head : Nat := 0
  count : Nat := 0
  lastPushCycle : Int := -1

structure LaneBuffer where
  /-- Byte `i` of a row belongs to lane `i`. -/
  rows : Nat → Nat → UInt8
  lanes : Nat → Lane
  uniform : Bool
  shared : Lane
  bytes : Nat
  lastBeatCycle : Int

/-- The buffer after `reset`. -/
def LaneBuffer.init : LaneBuffer where
  rows := fun _ _ => 0
  lanes := fun _ => {}
  uniform := true
  shared := {}
  bytes := 0
  lastBeatCycle := -1

namespace LaneBuffer

section Model

variable (width depth : Nat)

/-- The lane of bus byte `j` on the read side, `(j - shift) & lane_mask`. -/
def readLane (shift : Int) (j : Nat) : Nat := ((j - shift) % width).toNat

/-- The lane of bus byte `j` on the write side, `(j + shift) & lane_mask`. -/
def writeLane (shift : Int) (j : Nat) : Nat := ((j + shift) % width).toNat

variable (beat : BeatBytes)

/-- `is_full`: the beat moves all lanes in step. -/
def isFull (shift : Int) : Bool := beat.count = width ∧ shift = 0

/-- `split_lanes`: every lane gets the shared bookkeeping. -/
def splitLanes (b : LaneBuffer) : LaneBuffer := { b with lanes := fun _ => b.shared, uniform := false }

/-- The bytes of a lane that can be popped in cycle `now`. -/
def visible (l : Lane) (now : Int) : Nat := l.count - if l.lastPushCycle = now then 1 else 0

def wrapSlot (slot : Nat) : Nat := if slot ≥ depth then slot - depth else slot

def nextSlot (slot : Nat) : Nat := if slot + 1 = depth then 0 else slot + 1

def canPush (shift : Int) (now : Int) (b : LaneBuffer) : Bool :=
  b.lastBeatCycle ≠ now &&
    if b.uniform then b.shared.count < depth
    else beat.indices.all fun j => (b.lanes (readLane width shift j)).count < depth

def pushByte (bus : Nat → UInt8) (shift : Int) (now : Int) (b : LaneBuffer) (j : Nat) : LaneBuffer :=
  let i := readLane width shift j
  let lane := b.lanes i
  let slot := wrapSlot depth (lane.head + lane.count)
  { b with
    rows := update b.rows slot (update (b.rows slot) i (bus j))
    lanes := update b.lanes i { lane with count := lane.count + 1, lastPushCycle := now }
    bytes := b.bytes + 1 }

def push (bus : Nat → UInt8) (shift : Int) (now : Int) (b : LaneBuffer) : LaneBuffer :=
  let b := { b with lastBeatCycle := now }
  if b.uniform && isFull width beat shift then
    let slot := wrapSlot depth (b.shared.head + b.shared.count)
    { b with
      rows := update b.rows slot bus
      shared := { b.shared with count := b.shared.count + 1, lastPushCycle := now }
      bytes := b.bytes + width }
  else
    let b := if b.uniform then b.splitLanes else b
    beat.indices.foldl (pushByte width depth bus shift now) b

def canPop (shift : Int) (now : Int) (b : LaneBuffer) : Bool :=
  if b.uniform then 0 < visible b.shared now
  else beat.indices.all fun j => 0 < visible (b.lanes (writeLane width shift j)) now

/-- The body of the loop of `pop` for bus byte `j`. -/
def popByte (shift : Int) (bb : LaneBuffer × (Nat → UInt8)) (j : Nat) : LaneBuffer × (Nat → UInt8) :=
  let b := bb.1
  let i := writeLane width shift j
  let lane := b.lanes i
  ({ b with
      lanes := update b.lanes i { lane with head := nextSlot depth lane.head, count := lane.count - 1 }
      bytes := b.bytes - 1 },
    update bb.2 j (b.rows lane.head i))

/-- `pop(out, shift, bus, now)`: the buffer and the bus word after it. -/
def pop (shift : Int) (bus : Nat → UInt8) (b : LaneBuffer) : LaneBuffer × (Nat → UInt8) :=
  if b.uniform && isFull width beat shift then
    ({ b with
        shared := { b.shared with head := nextSlot depth b.shared.head, count := b.shared.count - 1 }
        bytes := b.bytes - width },
      b.rows b.shared.head)
  else
    let b := if b.uniform then b.splitLanes else b
    let (b, bus) := beat.indices.foldl (popByte width depth shift) (b, bus)
    (if b.bytes = 0 then { b with shared := {}, uniform := true } else b, bus)

end Model

/-! ## What the buffer holds -/

section Holds

variable {width depth : Nat}

/-- The bookkeeping that counts for lane `i`. -/
def lane (b : LaneBuffer) (i : Nat) : Lane := if b.uniform then b.shared else b.lanes i

/-- The bytes of lane `i`, oldest first. -/
def laneBytes (depth : Nat) (b : LaneBuffer) (i : Nat) : List UInt8 :=
  ringContents depth (b.lane i).head (b.lane i).count fun slot => b.rows slot i

structure Holds (width depth : Nat) (b : LaneBuffer) (win : List (Nat × UInt8)) : Prop where
  lane_eq : ∀ i < width, b.laneBytes depth i = onLane i win
  head_lt : ∀ i < width, 0 < depth → (b.lane i).head < depth
  le_depth : ∀ i < width, (onLane i win).length ≤ depth
  bytes_eq : b.bytes = win.length
  lt_width : ∀ x ∈ win, x.1 < width

theorem init_holds : Holds width depth init [] :=
  ⟨fun _ _ => rfl, fun _ _ h => h, fun _ _ => Nat.zero_le _, rfl, fun _ h => absurd h not_mem_nil⟩

variable {b : LaneBuffer} {win : List (Nat × UInt8)}

theorem Holds.count_eq (h : Holds width depth b win) {i : Nat} (hi : i < width) :
    (b.lane i).count = (onLane i win).length := by
  rw [← h.lane_eq i hi, laneBytes, ringContents_length]

theorem Holds.splitLanes (h : Holds width depth b win) (hu : b.uniform = true) :
    Holds width depth b.splitLanes win := by
  have hlane : ∀ i, b.splitLanes.lane i = b.lane i := fun i => by simp [lane, LaneBuffer.splitLanes, hu]
  refine ⟨fun i hi => ?_, fun i hi => ?_, h.le_depth, h.bytes_eq, h.lt_width⟩
  · rw [← h.lane_eq i hi, laneBytes, hlane]; rfl
  · rw [hlane]; exact h.head_lt i hi

/-- The per-byte paths work on a buffer out of the uniform state that holds the same. -/
theorem Holds.toLanes (h : Holds width depth b win) :
    Holds width depth (if b.uniform then b.splitLanes else b) win := by
  split_ifs with hu
  · exact h.splitLanes hu
  · exact h

theorem toLanes_uniform (b : LaneBuffer) : (if b.uniform then b.splitLanes else b).uniform = false := by
  cases hu : b.uniform with
  | true => rfl
  | false => simpa using hu

theorem readLane_lt (hw : 0 < width) (shift : Int) (j : Nat) : readLane width shift j < width := by
  have h₁ := Int.emod_nonneg ((j : Int) - shift) (b := (width : Int)) (by omega)
  have h₂ := Int.emod_lt_of_pos ((j : Int) - shift) (b := (width : Int)) (by omega)
  unfold readLane
  omega

theorem writeLane_eq (shift : Int) (j : Nat) : writeLane width shift j = readLane width (-shift) j := by
  unfold writeLane readLane
  rw [Int.sub_neg]

theorem writeLane_lt (hw : 0 < width) (shift : Int) (j : Nat) : writeLane width shift j < width := by
  rw [writeLane_eq]
  exact readLane_lt hw (-shift) j

theorem wrapSlot_eq (h : slot < 2 * depth) : wrapSlot depth slot = slot % depth := by
  unfold wrapSlot
  split_ifs with hs
  · rw [Nat.mod_eq_sub_mod hs, Nat.mod_eq_of_lt (by omega)]
  · rw [Nat.mod_eq_of_lt (by omega)]

theorem nextSlot_eq (h : slot < depth) : nextSlot depth slot = (slot + 1) % depth := by
  unfold nextSlot
  split_ifs with hs
  · rw [hs, Nat.mod_self]
  · rw [Nat.mod_eq_of_lt (by omega)]

/-! ## Pushing -/

variable {beat : BeatBytes} {j : Nat}

section Push

variable (bus : Nat → UInt8) (shift : Int) (now : Int)

def readBytes (width : Nat) (bus : Nat → UInt8) (shift : Int) (js : List Nat) : List (Nat × UInt8) :=
  js.map fun j => (readLane width shift j, bus j)

theorem pushByte_holds (hw : 0 < width) (hu : b.uniform = false) (h : Holds width depth b win)
    (hroom : (onLane (readLane width shift j) win).length < depth) :
    Holds width depth (pushByte width depth bus shift now b j) (win ++ [(readLane width shift j, bus j)]) := by
  have hi := readLane_lt hw shift j
  have hcount := h.count_eq hi
  have hhead := h.head_lt _ hi (by omega)
  have hlane : ∀ i, b.lane i = b.lanes i := fun i => by simp [lane, hu]
  simp only [hlane] at hcount hhead
  generalize hk : readLane width shift j = k at *
  have hslot : wrapSlot depth ((b.lanes k).head + (b.lanes k).count) = ((b.lanes k).head + (b.lanes k).count) % depth :=
    wrapSlot_eq (by omega)
  refine ⟨fun i hiw => ?_, fun i hiw hd => ?_, fun i hiw => ?_, ?_, ?_⟩
  · rw [onLane_append, ← h.lane_eq i hiw]
    by_cases hik : i = k
    · subst hik
      simp only [laneBytes, lane, pushByte, hu, hk, hslot, update_self, onLane_cons_self, onLane_nil,
        false_eq_true, if_false]
      rw [← ringContents_push (by omega)]
      congr 1
      funext slot
      by_cases hs : slot = ((b.lanes i).head + (b.lanes i).count) % depth
      · subst hs; simp
      · simp [hs]
    · rw [onLane_singleton_ne (Ne.symm hik), append_nil]
      simp only [laneBytes, lane, pushByte, hu, hk, update_of_ne hik]
      congr 1
      funext slot
      by_cases hs : slot = wrapSlot depth ((b.lanes k).head + (b.lanes k).count)
      · subst hs; simp [hik]
      · simp [hs]
  · have hhi := h.head_lt i hiw hd
    simp only [lane, pushByte, hu, hk] at hhi ⊢
    by_cases hik : i = k
    · subst hik; simpa using hhi
    · simpa [hik] using hhi
  · rw [onLane_append, length_append]
    by_cases hik : i = k
    · subst hik; rw [onLane_cons_self, onLane_nil]; exact hroom
    · rw [onLane_singleton_ne (Ne.symm hik)]; exact h.le_depth i hiw
  · simp [pushByte, h.bytes_eq]
  · intro x hx
    rcases mem_append.1 hx with hx | hx
    · exact h.lt_width x hx
    · rw [mem_singleton.1 hx]; exact hi

theorem pushBytes_holds (hw : 0 < width) : ∀ {js : List Nat} {b : LaneBuffer} {win : List (Nat × UInt8)},
    b.uniform = false → Holds width depth b win → (js.map (readLane width shift)).Nodup →
    (∀ j ∈ js, (onLane (readLane width shift j) win).length < depth) →
    Holds width depth (js.foldl (pushByte width depth bus shift now) b) (win ++ readBytes width bus shift js)
  | [], _, _, _, h, _, _ => by simpa [readBytes] using h
  | j :: js, b, win, hu, h, hnd, hroom => by
    rw [map_cons, nodup_cons] at hnd
    have hstep := pushByte_holds bus shift now hw hu h (hroom j mem_cons_self)
    have hrest : ∀ k ∈ js, (onLane (readLane width shift k) (win ++ [(readLane width shift j, bus j)])).length <
      depth := by
      intro k hk
      have hne : readLane width shift j ≠ readLane width shift k := fun heq =>
        hnd.1 (heq ▸ List.mem_map_of_mem hk)
      rw [onLane_append, onLane_singleton_ne hne, append_nil]
      exact hroom k (mem_cons_of_mem _ hk)
    have ih := pushBytes_holds hw (b := pushByte width depth bus shift now b j) hu hstep hnd.2 hrest
    rw [append_assoc] at ih
    exact ih

theorem Holds.room (h : Holds width depth b win) (hw : 0 < width) (hcan : canPush width depth beat shift now b = true) :
    ∀ j ∈ beat.indices, (onLane (readLane width shift j) win).length < depth := by
  intro j hj
  rw [← h.count_eq (readLane_lt hw shift j)]
  simp only [canPush, and_eq_true] at hcan
  unfold lane
  cases hu : b.uniform with
  | true => simpa [hu] using hcan.2
  | false =>
    have hall := hcan.2
    simp only [hu, false_eq_true, if_false, List.all_eq_true, decide_eq_true_eq] at hall ⊢
    exact hall j hj

theorem readLane_inj (hj : j < width) (hk : k < width) (h : readLane width shift j = readLane width shift k) :
    j = k := by
  have hw : (0 : Int) < width := by omega
  have hj₀ := Int.emod_nonneg ((j : Int) - shift) hw.ne'
  have hk₀ := Int.emod_nonneg ((k : Int) - shift) hw.ne'
  have hmod : ((j : Int) - shift) % width = ((k : Int) - shift) % width := by unfold readLane at h; omega
  have hmod : (j : Int) % width = (k : Int) % width := Int.ModEq.add_right_cancel' (-shift) hmod
  rw [Int.emod_eq_of_lt (by omega) (by omega), Int.emod_eq_of_lt (by omega) (by omega)] at hmod
  omega

theorem indices_lt (hb : beat.first + beat.count ≤ width) (hj : j ∈ beat.indices) :
    j < width := by
  have hj := mem_range'_1.1 hj
  omega

theorem indices_nodup (beat : BeatBytes) : beat.indices.Nodup := nodup_range'

theorem readLanes_nodup (beat : BeatBytes) (hb : beat.first + beat.count ≤ width) :
    (beat.indices.map (readLane width shift)).Nodup := by
  apply Nodup.map_on _ (indices_nodup beat)
  intro j hj k hk h
  exact readLane_inj shift (indices_lt hb hj) (indices_lt hb hk) h

theorem readLane_zero (hj : j < width) : readLane width 0 j = j := by
  unfold readLane
  rw [Int.sub_zero, Int.emod_eq_of_lt (by omega) (by omega), Int.toNat_natCast]

theorem pushRow_holds (hw : 0 < width) (hu : b.uniform = true) (h : Holds width depth b win)
    (hroom : b.shared.count < depth) :
    Holds width depth
      { b with
        rows := update b.rows (wrapSlot depth (b.shared.head + b.shared.count)) bus
        shared := { b.shared with count := b.shared.count + 1, lastPushCycle := now }
        bytes := b.bytes + width
        lastBeatCycle := now }
      (win ++ readBytes width bus 0 (range' 0 width)) := by
  have hlane : ∀ i, b.lane i = b.shared := fun i => by simp [lane, hu]
  have hhead : b.shared.head < depth := by simpa [hlane] using h.head_lt 0 hw (by omega)
  have hslot : wrapSlot depth (b.shared.head + b.shared.count) = (b.shared.head + b.shared.count) % depth :=
    wrapSlot_eq (by omega)
  have hone : ∀ i < width, onLane i (readBytes width bus 0 (range' 0 width)) = [bus i] := by
    intro i hi
    have hnd : ((range' 0 width).map (readLane width 0)).Nodup :=
      readLanes_nodup 0 ⟨0, width⟩ (zero_add width).le
    have h := onLane_map_of_nodup bus hnd (mem_range'_1.2 ⟨Nat.zero_le i, by omega⟩)
    rwa [readLane_zero hi] at h
  refine ⟨fun i hi => ?_, fun i hi hd => ?_, fun i hi => ?_, ?_, ?_⟩
  · rw [onLane_append, ← h.lane_eq i hi, hone i hi]
    simp only [laneBytes, lane, hu, if_true, hslot]
    rw [← ringContents_push hroom]
    congr 1
    funext slot
    by_cases hs : slot = (b.shared.head + b.shared.count) % depth
    · subst hs; simp
    · simp [hs]
  · simpa [lane, hu] using hhead
  · have hcount := h.count_eq hi
    rw [hlane] at hcount
    rw [onLane_append, hone i hi, length_append, ← hcount]
    exact hroom
  · simp [readBytes, h.bytes_eq]
  · intro x hx
    rcases mem_append.1 hx with hx | hx
    · exact h.lt_width x hx
    · obtain ⟨j, -, rfl⟩ := List.mem_map.1 hx
      exact readLane_lt hw 0 j

theorem Holds.lastBeatCycle (h : Holds width depth b win) (now : Int) :
    Holds width depth { b with lastBeatCycle := now } win := { h with }

theorem push_holds (hw : 0 < width) (h : Holds width depth b win) (hb : beat.first + beat.count ≤ width)
    (hcan : canPush width depth beat shift now b = true) :
    Holds width depth (push width depth beat bus shift now b) (win ++ readBytes width bus shift beat.indices) := by
  unfold push
  dsimp only
  by_cases hfull : (b.uniform && isFull width beat shift) = true
  · rw [if_pos hfull]
    simp only [and_eq_true, isFull, decide_eq_true_eq] at hfull
    obtain ⟨hu, hcount, rfl⟩ := hfull
    have hroom : b.shared.count < depth := by
      simp only [canPush, and_eq_true, hu, if_true, decide_eq_true_eq] at hcan
      exact hcan.2
    have hindices : beat.indices = range' 0 width := by
      have hfirst : beat.first = 0 := by omega
      rw [BeatBytes.indices, hfirst, hcount]
    rw [hindices]
    exact pushRow_holds bus now hw hu h hroom
  · rw [if_neg hfull]
    have h' := (h.lastBeatCycle now).toLanes
    apply pushBytes_holds bus shift now hw (toLanes_uniform _) h' (readLanes_nodup shift beat hb)
    exact h.room shift now hw hcan

end Push

/-! ## Popping -/

section Pop

variable (shift : Int)

/-- The bytes of a write beat, of the values `val`, with their lanes. -/
def writeBytes (width : Nat) (val : Nat → UInt8) (shift : Int) (js : List Nat) : List (Nat × UInt8) :=
  js.map fun j => (writeLane width shift j, val j)

theorem popByte_holds {v : UInt8} (hu : b.uniform = false) (bus : Nat → UInt8)
    (h : Holds width depth b ((writeLane width shift j, v) :: win)) :
    Holds width depth (popByte width depth shift (b, bus) j).1 win ∧
      (popByte width depth shift (b, bus) j).2 = update bus j v := by
  have hi : writeLane width shift j < width := h.lt_width _ mem_cons_self
  have hlane : ∀ i, b.lane i = b.lanes i := fun i => by simp [lane, hu]
  have hbytes := h.lane_eq _ hi
  have hcount := h.count_eq hi
  have hle := h.le_depth _ hi
  generalize hk : writeLane width shift j = k at *
  rw [onLane_cons_self] at hbytes hcount
  rw [length_cons, hlane] at hcount
  rw [onLane_cons_self, length_cons] at hle
  have hd : 0 < depth := by omega
  have hhead : (b.lanes k).head < depth := hlane k ▸ h.head_lt k hi hd
  rw [laneBytes, hlane, hcount, ringContents_pop hhead, List.cons.injEq] at hbytes
  obtain ⟨hv, hrest⟩ := hbytes
  refine ⟨⟨fun i hiw => ?_, fun i hiw _ => ?_, fun i hiw => ?_, ?_, fun x hx => h.lt_width x (mem_cons_of_mem _ hx)⟩,
    ?_⟩
  · by_cases hik : i = k
    · subst hik
      simp only [laneBytes, lane, popByte, hu, hk, update_self, false_eq_true, if_false, nextSlot_eq hhead,
        hcount, Nat.add_sub_cancel]
      exact hrest
    · have hold := h.lane_eq i hiw
      rw [onLane_cons_ne (Ne.symm hik)] at hold
      rw [← hold]
      simp only [laneBytes, lane, popByte, hu, hk, update_of_ne hik]
  · have hhi := h.head_lt i hiw hd
    simp only [lane, popByte, hu, hk] at hhi ⊢
    by_cases hik : i = k
    · subst hik
      simpa [nextSlot_eq hhead] using Nat.mod_lt _ hd
    · simpa [hik] using hhi
  · by_cases hik : i = k
    · subst hik; omega
    · have hold := h.le_depth i hiw
      rwa [onLane_cons_ne (Ne.symm hik)] at hold
  · simp [popByte, h.bytes_eq]
  · simp only [popByte, hk, hv]

theorem popBytes_holds (val : Nat → UInt8) : ∀ {js : List Nat} {b : LaneBuffer} (bus : Nat → UInt8),
    b.uniform = false → js.Nodup → Holds width depth b (writeBytes width val shift js ++ win) →
    Holds width depth (js.foldl (popByte width depth shift) (b, bus)).1 win ∧
      ∀ k, (js.foldl (popByte width depth shift) (b, bus)).2 k = if k ∈ js then val k else bus k
  | [], b, bus, _, _, h => ⟨h, fun k => by simp⟩
  | j :: js, b, bus, hu, hnd, h => by
    rw [nodup_cons] at hnd
    obtain ⟨hstep, hbus⟩ := popByte_holds shift hu bus h
    obtain ⟨hrest, hval⟩ := popBytes_holds val (b := (popByte width depth shift (b, bus) j).1)
      (popByte width depth shift (b, bus) j).2 hu hnd.2 hstep
    refine ⟨hrest, fun k => (hval k).trans ?_⟩
    by_cases hk : k ∈ js
    · rw [if_pos hk, if_pos (mem_cons_of_mem _ hk)]
    · rw [if_neg hk, hbus]
      by_cases hkj : k = j
      · subst hkj; simp
      · simp [hk, hkj]

theorem Holds.drain (h : Holds width depth b win) :
    Holds width depth (if b.bytes = 0 then { b with shared := {}, uniform := true } else b) win := by
  by_cases hb : b.bytes = 0
  · have hwin : win = [] := eq_nil_of_length_eq_zero (h.bytes_eq ▸ hb)
    subst hwin
    rw [if_pos hb]
    exact ⟨fun _ _ => rfl, fun _ _ hd => hd, fun _ _ => Nat.zero_le _, hb, fun _ hx => absurd hx not_mem_nil⟩
  · rw [if_neg hb]; exact h

theorem writeLane_inj (hj : j < width) (hk : k < width) (h : writeLane width shift j = writeLane width shift k) :
    j = k := by
  rw [writeLane_eq, writeLane_eq] at h
  exact readLane_inj (-shift) hj hk h

theorem writeLanes_nodup (beat : BeatBytes) (hb : beat.first + beat.count ≤ width) :
    (beat.indices.map (writeLane width shift)).Nodup := by
  apply Nodup.map_on _ (indices_nodup beat)
  intro j hj k hk h
  exact writeLane_inj shift (indices_lt hb hj) (indices_lt hb hk) h

theorem writeLane_zero (hj : j < width) : writeLane width 0 j = j := by
  rw [writeLane_eq, Int.neg_zero]
  exact readLane_zero hj

/-- Every lane holds a byte at the head of the stream, so popping a row pops the head of the stream. -/
theorem popRow_holds (hw : 0 < width) (hu : b.uniform = true)
    (h : Holds width depth b (writeBytes width val 0 (range' 0 width) ++ win)) :
    Holds width depth
        { b with
          shared := { b.shared with head := nextSlot depth b.shared.head, count := b.shared.count - 1 }
          bytes := b.bytes - width } win ∧
      ∀ i < width, b.rows b.shared.head i = val i := by
  have hlane : ∀ i, b.lane i = b.shared := fun i => by simp [lane, hu]
  have hone : ∀ i < width, onLane i (writeBytes width val 0 (range' 0 width) ++ win) = val i :: onLane i win := by
    intro i hi
    have hnd : ((range' 0 width).map (writeLane width 0)).Nodup :=
      writeLanes_nodup 0 ⟨0, width⟩ (zero_add width).le
    have h := onLane_map_of_nodup val hnd (mem_range'_1.2 ⟨Nat.zero_le i, by omega⟩)
    rw [writeLane_zero hi] at h
    rw [onLane_append, writeBytes, h]
    rfl
  have hcount := h.count_eq hw
  rw [hlane, hone 0 hw, length_cons] at hcount
  have hle := h.le_depth 0 hw
  rw [hone 0 hw, length_cons] at hle
  have hhead : b.shared.head < depth := hlane 0 ▸ h.head_lt 0 hw (by omega)
  have hbytes : ∀ i < width, b.rows b.shared.head i = val i ∧
      ringContents depth ((b.shared.head + 1) % depth) (onLane 0 win).length (fun slot => b.rows slot i)
        = onLane i win := by
    intro i hi
    have hi' := h.lane_eq i hi
    rw [hone i hi, laneBytes, hlane, hcount, ringContents_pop hhead, List.cons.injEq] at hi'
    exact hi'
  refine ⟨⟨fun i hi => ?_, fun i hi hd => ?_, fun i hi => ?_, ?_, fun x hx => ?_⟩, fun i hi => (hbytes i hi).1⟩
  · simp only [laneBytes, lane, hu, if_true, nextSlot_eq hhead, hcount, Nat.add_sub_cancel]
    exact (hbytes i hi).2
  · simpa [lane, hu, nextSlot_eq hhead] using Nat.mod_lt _ hd
  · have hi' := h.le_depth i hi
    rw [hone i hi, length_cons] at hi'
    omega
  · simp [h.bytes_eq, writeBytes]
  · exact h.lt_width x (mem_append_right _ hx)

theorem pop_holds (hw : 0 < width) (hb : beat.first + beat.count ≤ width) (bus : Nat → UInt8)
    (h : Holds width depth b (writeBytes width val shift beat.indices ++ win)) :
    Holds width depth (pop width depth beat shift bus b).1 win ∧
      ∀ j ∈ beat.indices, (pop width depth beat shift bus b).2 j = val j := by
  unfold pop
  by_cases hfull : (b.uniform && isFull width beat shift) = true
  · rw [if_pos hfull]
    simp only [and_eq_true, isFull, decide_eq_true_eq] at hfull
    obtain ⟨hu, hcount, rfl⟩ := hfull
    have hindices : beat.indices = range' 0 width := by
      have hfirst : beat.first = 0 := by omega
      rw [BeatBytes.indices, hfirst, hcount]
    rw [hindices] at h
    obtain ⟨hrest, hval⟩ := popRow_holds hw hu h
    exact ⟨hrest, fun j hj => hval j (indices_lt hb hj)⟩
  · rw [if_neg hfull]
    obtain ⟨hrest, hval⟩ := popBytes_holds shift val bus (toLanes_uniform b) (indices_nodup beat) h.toLanes
    exact ⟨hrest.drain, fun j hj => (hval j).trans (if_pos hj)⟩

theorem Holds.available (h : Holds width depth b win) (hw : 0 < width) {now : Int}
    (hcan : canPop width beat shift now b = true) :
    ∀ j ∈ beat.indices, onLane (writeLane width shift j) win ≠ [] := by
  intro j hj hnil
  have hcount := h.count_eq (writeLane_lt hw shift j)
  rw [hnil, length_nil] at hcount
  have hvis : 0 < visible (b.lane (writeLane width shift j)) now := by
    unfold lane
    unfold canPop at hcan
    cases hu : b.uniform with
    | true => simpa [hu] using hcan
    | false =>
      simp only [hu, false_eq_true, if_false, List.all_eq_true, decide_eq_true_eq] at hcan ⊢
      exact hcan j hj
  unfold visible at hvis
  omega

end Pop

end Holds

end LaneBuffer

end GvsocPulp.IdmaV3
