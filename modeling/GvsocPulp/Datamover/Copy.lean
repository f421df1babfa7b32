import GvsocPulp.Datamover.Streamer

/-!
# The copy of the datamover

`Datamover::copy` reads rows of 64 bytes in tiles of 64 rows, and writes them out again.

- `load`, `store`, `fillElemMatrix`, `copy`: the code;
- `copy_exact_iff`: what is written is what was asked for, unless the rows fill whole tiles and the last one is not
  full.
-/

namespace GvsocPulp.Datamover

open List

abbrev Byte := BitVec 8

/-- `DATAMOVER_BANDWIDTH_ELEMS`. -/
def bandwidthElems : Nat := 64

/-- The address of a byte of a row; the row is masked with `CLUSTER_MASK`. -/
def byteAddr (addr : BitVec 32) (j : Nat) : BitVec 32 := (addr &&& 0x0FFFFFFF) + BitVec.ofNat 32 j

/-- `load_from_memory_functional`. -/
def load (mem : BitVec 32 → Byte) (addr : BitVec 32) (size : Nat) : List Byte :=
  (range size).map fun j => mem (byteAddr addr j)

/-- `store_to_memory_functional`, byte by byte. -/
def store (mem : BitVec 32 → Byte) (addr : BitVec 32) (data : List Byte) : BitVec 32 → Byte :=
  data.zipIdx.foldl (fun mem b => Function.update mem (byteAddr addr b.2) b.1) mem

/-- The streamers, the memory, and the writes so far. -/
structure Engine where
  streamerIn : Streamer
  streamerOut : Streamer
  mem : BitVec 32 → Byte
  stores : List (BitVec 32 × List Byte) := []

namespace Engine

/-- The rows that are read; the other ones of `elem_matrix` are not looked at. -/
def fillElemMatrix : Nat → Engine → Option (List (List Byte) × Engine)
  | 0, s => some ([], s)
  | n + 1, s => do
    let (addr, streamer) ← s.streamerIn.iterate
    let (rows, t) ← fillElemMatrix n { s with streamerIn := streamer }
    return (load s.mem addr bandwidthElems :: rows, t)

def writeRow (s : Engine) (row : List Byte) : Option Engine := do
  let (addr, streamer) ← s.streamerOut.iterate
  return { s with streamerOut := streamer, mem := store s.mem addr row, stores := s.stores ++ [(addr, row)] }

/-- The rows of a tile are read, and as many bytes of row `i` written as `size i` says. -/
def copyTile (count : Nat) (size : Nat → Nat) (s : Engine) : Option Engine := do
  let (rows, s) ← s.fillElemMatrix count
  rows.zipIdx.foldlM (fun s row => s.writeRow (row.1.take (size row.2))) s

def copy (totLen totalElements : Nat) (s : Engine) : Option Engine := do
  let leftoverRows := totLen % bandwidthElems
  let leftoverElems := totalElements % bandwidthElems
  let s ← (range (totLen / bandwidthElems)).foldlM (fun s _ => s.copyTile bandwidthElems fun _ => bandwidthElems) s
  if 0 < leftoverRows then
    s.copyTile leftoverRows fun i => if i = leftoverRows - 1 ∧ 0 < leftoverElems then leftoverElems else bandwidthElems
  else some s

end Engine

/-- A copy: both generators have as many positions as there are rows, and the source rows are apart from the destination
rows. -/
structure Job where
  src : AddressGenConfig
  dst : AddressGenConfig
  totalElements : Nat
  elements_pos : 1 ≤ totalElements
  src_totLen : src.totLen = (totalElements + 63) / 64
  dst_totLen : dst.totLen = (totalElements + 63) / 64
  src_lengths : src.Lengths
  dst_lengths : dst.Lengths
  apart : ∀ k < src.totLen, ∀ l < src.totLen, ∀ i < bandwidthElems, ∀ j < bandwidthElems,
    byteAddr (src.address k) i ≠ byteAddr (dst.address l) j

namespace Job

variable (job : Job) (mem : BitVec 32 → Byte)

def start : Engine := ⟨job.src.updateParams, job.dst.updateParams, mem, []⟩

/-- What is to be written of row `k`. -/
def row (k : Nat) : BitVec 32 × List Byte :=
  (job.dst.address k, load mem (job.src.address k) (min bandwidthElems (job.totalElements - bandwidthElems * k)))

/-- The copy ends, having written the bytes of each source row to its destination row, and nothing else. -/
def Exact : Prop := ∃ t, (job.start mem).copy job.src.totLen job.totalElements = some t ∧
  t.stores = (range job.src.totLen).map (job.row mem)

/-! ## Tiles -/

/-- The first `k` rows have been copied, each with all its bytes. -/
structure Copied (k : Nat) (s : Engine) : Prop where
  streamerIn : s.streamerIn = job.src.after k
  streamerOut : s.streamerOut = job.dst.after k
  stores : s.stores = (range k).map fun i => (job.dst.address i, load mem (job.src.address i) bandwidthElems)
  sources : ∀ i < job.src.totLen, ∀ j < bandwidthElems, s.mem (byteAddr (job.src.address i) j) =
    mem (byteAddr (job.src.address i) j)

variable {job mem} {s : Engine}

theorem store_of_ne {mem : BitVec 32 → Byte} {addr a : BitVec 32} {data : List Byte}
    (h : ∀ j < data.length, a ≠ byteAddr addr j) : store mem addr data a = mem a := by
  have hfold : ∀ (bytes : List (Byte × Nat)) (mem : BitVec 32 → Byte), (∀ b ∈ bytes, a ≠ byteAddr addr b.2) →
      bytes.foldl (fun mem b => Function.update mem (byteAddr addr b.2) b.1) mem a = mem a := by
    intro bytes
    induction bytes with
    | nil => exact fun _ _ => rfl
    | cons b bytes ih =>
      intro mem hb
      rw [foldl_cons, ih _ fun b' hb' => hb b' (mem_cons_of_mem b hb'),
        Function.update_of_ne (hb b mem_cons_self)]
  refine hfold _ _ fun b hb => h _ ?_
  obtain ⟨i, hi, rfl⟩ := getElem_of_mem hb
  simpa using hi

theorem fillElemMatrix_eq (n : Nat) : ∀ {k : Nat} {s : Engine}, s.streamerIn = job.src.after k →
    k + n ≤ job.src.totLen →
    (∀ i < job.src.totLen, ∀ j < bandwidthElems, s.mem (byteAddr (job.src.address i) j) =
      mem (byteAddr (job.src.address i) j)) →
    s.fillElemMatrix n = some ((range' k n).map fun i => load mem (job.src.address i) bandwidthElems,
      { s with streamerIn := job.src.after (k + n) }) := by
  induction n with
  | zero =>
    intro k s hin _ _
    rw [add_zero, ← hin]
    rfl
  | succ n ih =>
    intro k s hin hle hmem
    have hload : load s.mem (job.src.address k) bandwidthElems = load mem (job.src.address k) bandwidthElems :=
      map_congr_left fun j hj => hmem k (by omega) j (mem_range.1 hj)
    have hrest := ih (k := k + 1) (s := { s with streamerIn := job.src.after (k + 1) }) rfl (by omega) hmem
    rw [Engine.fillElemMatrix, hin, AddressGenConfig.iterate_after job.src_lengths (by omega)]
    simp only [Option.bind_eq_bind, Option.bind_some, hrest, hload, range'_succ, map_cons]
    rw [add_right_comm, add_assoc]
    rfl

theorem writeRows (size : Nat → Nat) (n : Nat) : ∀ {k i : Nat} {s : Engine}, s.streamerOut = job.dst.after k →
    k + n ≤ job.src.totLen → ∃ t,
    (((range' k n).map fun i => load mem (job.src.address i) bandwidthElems).zipIdx i).foldlM
      (fun s row => s.writeRow (row.1.take (size row.2))) s = some t ∧
    t.streamerIn = s.streamerIn ∧ t.streamerOut = job.dst.after (k + n) ∧
    t.stores = s.stores ++ (range' k n).map (fun r =>
      (job.dst.address r, (load mem (job.src.address r) bandwidthElems).take (size (r - k + i)))) ∧
    ∀ r < job.src.totLen, ∀ j < bandwidthElems, t.mem (byteAddr (job.src.address r) j) =
      s.mem (byteAddr (job.src.address r) j) := by
  induction n with
  | zero => exact fun {k i s} hout _ => ⟨s, rfl, rfl, hout, (append_nil _).symm, fun _ _ _ _ => rfl⟩
  | succ n ih =>
    intro k i s hout hle
    have hlen : k < job.dst.totLen := by
      rw [job.dst_totLen, ← job.src_totLen]
      omega
    obtain ⟨u, hu⟩ : ∃ u, s.writeRow ((load mem (job.src.address k) bandwidthElems).take (size i)) = some u ∧
        u = { s with
          streamerOut := job.dst.after (k + 1)
          mem := store s.mem (job.dst.address k) ((load mem (job.src.address k) bandwidthElems).take (size i))
          stores := s.stores ++ [(job.dst.address k,
            (load mem (job.src.address k) bandwidthElems).take (size i))] } := by
      rw [Engine.writeRow, hout, AddressGenConfig.iterate_after job.dst_lengths hlen]
      exact ⟨_, rfl, rfl⟩
    obtain ⟨hwrite, hu⟩ := hu
    obtain ⟨t, ht, hin, hout', hstores, hmem⟩ := ih (k := k + 1) (i := i + 1) (s := u) (by rw [hu]) (by omega)
    refine ⟨t, ?_, by rw [hin, hu], by rw [hout', add_right_comm, add_assoc], ?_, fun r hr j hj => ?_⟩
    · rw [range'_succ, map_cons, zipIdx_cons, foldlM_cons, hwrite]
      exact ht
    · rw [hstores, hu, range'_succ, map_cons, append_assoc, singleton_append, tsub_self, zero_add]
      refine congrArg (s.stores ++ (_, _) :: ·) (map_congr_left fun r hr => ?_)
      have hge := (mem_range'_1.1 hr).1
      rw [show r - (k + 1) + (i + 1) = r - k + i by omega]
    · rw [hmem r hr j hj, hu]
      refine store_of_ne fun j' hj' => job.apart r hr k (by omega) j hj j' ?_
      rw [length_take, load, length_map, length_range] at hj'
      exact hj'.trans_le (min_le_right _ _)

theorem copyTile_eq (h : Copied job mem k s) {n : Nat} (size : Nat → Nat) (hle : k + n ≤ job.src.totLen) :
    ∃ t, s.copyTile n size = some t ∧ t.streamerIn = job.src.after (k + n) ∧ t.streamerOut = job.dst.after (k + n) ∧
      t.stores = s.stores ++ (range' k n).map (fun r =>
        (job.dst.address r, (load mem (job.src.address r) bandwidthElems).take (size (r - k)))) ∧
      ∀ i < job.src.totLen, ∀ j < bandwidthElems, t.mem (byteAddr (job.src.address i) j) =
        mem (byteAddr (job.src.address i) j) := by
  have hfill := fillElemMatrix_eq n h.streamerIn hle h.sources
  obtain ⟨t, ht, hin, hout, hstores, hmem⟩ := @writeRows job mem size n k 0
    { s with streamerIn := job.src.after (k + n) } h.streamerOut hle
  refine ⟨t, ?_, hin, hout, hstores, fun i hi j hj => (hmem i hi j hj).trans (h.sources i hi j hj)⟩
  rw [Engine.copyTile, hfill]
  exact ht

theorem take_load (addr : BitVec 32) {n size : Nat} : (load mem addr size).take n = load mem addr (min n size) := by
  rw [load, load, ← map_take, take_range]

theorem Copied.tile (h : Copied job mem k s) {n : Nat} (hle : k + n ≤ job.src.totLen) :
    ∃ t, s.copyTile n (fun _ => bandwidthElems) = some t ∧ Copied job mem (k + n) t := by
  obtain ⟨t, ht, hin, hout, hstores, hmem⟩ := copyTile_eq h (fun _ => bandwidthElems) hle
  refine ⟨t, ht, hin, hout, ?_, hmem⟩
  rw [hstores, h.stores, range_add, map_append, range'_eq_map_range, map_map, map_map]
  simp [take_load, Function.comp_def]

theorem Copied.tiles (h : Copied job mem 0 s) : ∀ {q : Nat}, bandwidthElems * q ≤ job.src.totLen →
    ∃ t, (range q).foldlM (fun s _ => Engine.copyTile bandwidthElems (fun _ => bandwidthElems) s) s = some t ∧
      Copied job mem (bandwidthElems * q) t := by
  intro q
  induction q with
  | zero => exact fun _ => ⟨s, rfl, h⟩
  | succ q ih =>
    intro hle
    rw [Nat.mul_succ] at hle
    obtain ⟨t, ht, hcopied⟩ := ih (by omega)
    obtain ⟨u, hu, hcopied'⟩ := hcopied.tile hle
    refine ⟨u, ?_, hcopied'⟩
    rw [range_succ, foldlM_append, ht]
    simp [hu]

theorem copied_start (job : Job) (mem : BitVec 32 → Byte) : Copied job mem 0 (job.start mem) :=
    ⟨rfl, rfl, rfl, fun _ _ _ _ => rfl⟩

/-! ## The copy -/

def LastRow (job : Job) : Prop := job.totalElements % bandwidthElems = 0 ∨ job.src.totLen % bandwidthElems ≠ 0

theorem leftover_size {r : Nat} (hr : r < job.src.totLen)
    (hge : bandwidthElems * (job.src.totLen / bandwidthElems) ≤ r) :
    min (if r - bandwidthElems * (job.src.totLen / bandwidthElems) = job.src.totLen % bandwidthElems - 1 ∧
      0 < job.totalElements % bandwidthElems then job.totalElements % bandwidthElems else bandwidthElems)
        bandwidthElems =
    min bandwidthElems (job.totalElements - bandwidthElems * r) := by
  have hlen := job.src_totLen
  unfold bandwidthElems at *
  split <;> omega

theorem full_size {r : Nat} (hr : r < job.src.totLen)
    (h : r + 1 < job.src.totLen ∨ job.totalElements % bandwidthElems = 0) :
    min bandwidthElems (job.totalElements - bandwidthElems * r) = bandwidthElems := by
  have hlen := job.src_totLen
  unfold bandwidthElems at *
  omega

theorem copy_of_tiles (hnone : job.src.totLen % bandwidthElems = 0) :
    ∃ t, (job.start mem).copy job.src.totLen job.totalElements = some t ∧ t.stores = (range job.src.totLen).map fun r =>
      (job.dst.address r, load mem (job.src.address r) bandwidthElems) := by
  have hsplit : bandwidthElems * (job.src.totLen / bandwidthElems) = job.src.totLen :=
    Nat.mul_div_cancel' (Nat.dvd_of_mod_eq_zero hnone)
  obtain ⟨s, hs, hcopied⟩ := (copied_start job mem).tiles (q := job.src.totLen / bandwidthElems) hsplit.le
  rw [hsplit] at hcopied
  refine ⟨s, ?_, hcopied.stores⟩
  rw [Engine.copy, hnone, hs]
  rfl

theorem not_exact (hnone : job.src.totLen % bandwidthElems = 0) (hpart : job.totalElements % bandwidthElems ≠ 0) :
    ¬ job.Exact mem := by
  rintro ⟨t, ht, hexact⟩
  obtain ⟨s, hs, hstores⟩ := @copy_of_tiles job mem hnone
  rw [hs] at ht
  obtain rfl := Option.some.inj ht
  have hlen := job.src_totLen
  have hone := job.elements_pos
  have hlast : job.src.totLen - 1 < job.src.totLen := by omega
  have hrow := congrArg (·[job.src.totLen - 1]?) (hstores.symm.trans hexact)
  simp only [getElem?_map, getElem?_range hlast, Option.map_some, Option.some.injEq] at hrow
  have hlength := congrArg (fun x => x.2.length) hrow
  simp only [row, load, length_map, length_range] at hlength
  unfold bandwidthElems at *
  omega

/-- **What is copied is what was asked for, exactly when the last row is full or not the last one of a tile.** -/
theorem copy_exact_iff (job : Job) (mem : BitVec 32 → Byte) : job.Exact mem ↔ job.LastRow := by
  refine ⟨fun h => ?_, fun h => ?_⟩
  · by_contra hnot
    rw [LastRow, not_or, not_not] at hnot
    exact not_exact hnot.2 hnot.1 h
  · by_cases hnone : job.src.totLen % bandwidthElems = 0
    · obtain ⟨t, ht, hstores⟩ := @copy_of_tiles job mem hnone
      refine ⟨t, ht, hstores.trans (map_congr_left fun r hr => ?_)⟩
      rw [row, full_size (mem_range.1 hr) (.inr (h.resolve_right (not_not.2 hnone)))]
    · have hsplit := Nat.div_add_mod job.src.totLen bandwidthElems
      obtain ⟨s, hs, hcopied⟩ := (copied_start job mem).tiles (q := job.src.totLen / bandwidthElems) (by omega)
      obtain ⟨t, ht, -, -, hstores, -⟩ := copyTile_eq hcopied (n := job.src.totLen % bandwidthElems)
        (fun i => if i = job.src.totLen % bandwidthElems - 1 ∧ 0 < job.totalElements % bandwidthElems then
          job.totalElements % bandwidthElems else bandwidthElems) (by omega)
      refine ⟨t, ?_, ?_⟩
      · rw [Engine.copy, hs]
        exact (if_pos (Nat.pos_of_ne_zero hnone)).trans ht
      · have hrange : range' 0 _ ++ range' _ (job.src.totLen % bandwidthElems) = range' 0 _ :=
          range'_append_1 (m := bandwidthElems * (job.src.totLen / bandwidthElems))
        rw [zero_add, hsplit] at hrange
        rw [hstores, hcopied.stores, range_eq_range', range_eq_range', ← hrange, map_append]
        congr 1 <;> refine map_congr_left fun r hr => ?_
        · have hlt := (mem_range'_1.1 hr).2
          rw [row, full_size (by omega) (.inl (by omega))]
        · obtain ⟨hge, hlt⟩ := mem_range'_1.1 hr
          rw [row, take_load, leftover_size (by omega) hge]

end Job

/-- 64 rows, the last one with a byte: read from 0 on, written from `0x10000` on. -/
def fullTile : Job where
  src := ⟨0, (0, 64), (0, 0), (0, 0), (0, 0), 0, 64, 0⟩
  dst := ⟨0x10000, (0, 64), (0, 0), (0, 0), (0, 0), 0, 64, 0⟩
  totalElements := 64 * 63 + 1
  elements_pos := by decide
  src_totLen := by decide
  dst_totLen := by decide
  src_lengths := by unfold AddressGenConfig.Lengths; decide
  dst_lengths := by unfold AddressGenConfig.Lengths; decide
  apart k hk l hl i hi j hj h := by
    have hsrc : ∀ k < 64, (AddressGenConfig.address ⟨0, (0, 64), (0, 0), (0, 0), (0, 0), 0, 64, 0⟩ k &&& 0x0FFFFFFF) =
      BitVec.ofNat 32 (64 * k) := by decide
    have hdst : ∀ k < 64, (AddressGenConfig.address ⟨0x10000, (0, 64), (0, 0), (0, 0), (0, 0), 0, 64, 0⟩ k &&&
      0x0FFFFFFF) = BitVec.ofNat 32 (0x10000 + 64 * k) := by decide
    have hsame := congrArg BitVec.toNat h
    rw [byteAddr, byteAddr, hsrc k hk, hdst l hl, ← BitVec.ofNat_add, ← BitVec.ofNat_add, BitVec.toNat_ofNat,
      BitVec.toNat_ofNat]
      at hsame
    unfold bandwidthElems at *
    simp only at hk hl
    omega

theorem last_row_overrun : ¬ fullTile.Exact fun _ => 0 := Job.not_exact rfl (by decide)

end GvsocPulp.Datamover
