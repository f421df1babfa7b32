import GvsocPulp.FloonocFlex.Router

/-!
# Write-triggered reductions

The contributions of a group come to one network interface as independent writes; the first one to arrive becomes the
accumulator that the others are merged into.

- `processCollectiveOperations`: how a contribution is merged; `mergeAll`: several of them, one after the other;
- `handleWriteReductionContribution`: the groups that are pending, matched by address, operation and mask;
- `words_mergeAll`, `bits_mergeAll`: what the accumulator holds after the merges;
- `foldl_perm`: the result does not depend on the order.
-/

namespace GvsocPulp.FloonocFlex

open Lib List Option BitVec

/-! ## The operations -/

abbrev collOpMulticast : Int := 1

abbrev collOpLsband : Int := 2

abbrev collOpRedaddUint16 : Int := 6

abbrev collOpRedaddInt16 : Int := 7

abbrev collOpRedaddFp16 : Int := 8

abbrev collOpRedmaxUint16 : Int := 9

abbrev collOpRedmaxInt16 : Int := 10

abbrev collOpRedmaxFp16 : Int := 11

abbrev Byte := BitVec 8

/-- `ff_add` and `ff_max` on half-precision numbers. -/
structure Fp16 where
  add : BitVec 16 → BitVec 16 → BitVec 16
  max : BitVec 16 → BitVec 16 → BitVec 16

/-- `dst[i] > src[i] ? dst[i] : src[i]` on numbers without sign. -/
def maxUint16 (a b : BitVec 16) : BitVec 16 := if b.toNat < a.toNat then a else b

/-- `dst[i] > src[i] ? dst[i] : src[i]` on numbers with sign. -/
def maxInt16 (a b : BitVec 16) : BitVec 16 := if b.toInt < a.toInt then a else b

/-- What an operation makes of two 16-bit elements. -/
def wordOp (fp : Fp16) (op : Int) : Option (BitVec 16 → BitVec 16 → BitVec 16) :=
  if op = collOpRedaddUint16 ∨ op = collOpRedaddInt16 then some (· + ·)
  else if op = collOpRedaddFp16 then some fp.add
  else if op = collOpRedmaxUint16 then some maxUint16
  else if op = collOpRedmaxInt16 then some maxInt16
  else if op = collOpRedmaxFp16 then some fp.max
  else none

/-- `dst[i] = (dst[i] & 1) & (src[i] & 1)`; `none` where it writes past the end of `dst`. -/
def mergeBits : List Byte → List Byte → Option (List Byte)
  | d :: dst, s :: src => (mergeBits dst src).map (((d &&& 1) &&& (s &&& 1)) :: ·)
  | dst, [] => some dst
  | [], _ :: _ => none

/-- A little-endian 16-bit element. -/
def word (lo hi : Byte) : BitVec 16 := hi ++ lo

def loByte (w : BitVec 16) : Byte := w.extractLsb' 0 8

def hiByte (w : BitVec 16) : Byte := w.extractLsb' 8 8

/-- `for i < size / sizeof(uint16_t)`; `none` where it writes past the end of `dst`. -/
def mergeWords (f : BitVec 16 → BitVec 16 → BitVec 16) : List Byte → List Byte → Option (List Byte)
  | d₀ :: d₁ :: dst, s₀ :: s₁ :: src =>
    let w := f (word d₀ d₁) (word s₀ s₁)
    (mergeWords f dst src).map fun rest => loByte w :: hiByte w :: rest
  | _, _ :: _ :: _ => none
  | dst, _ => some dst

/-- `process_collective_operations(parent, req)`: the data of the parent, merged with that of the request; `none` where
the operation is not supported. -/
def processCollectiveOperations (fp : Fp16) (op : Int) (dst src : List Byte) : Option (List Byte) :=
  if op = collOpMulticast then some dst
  else if op = collOpLsband then mergeBits dst src
  else (wordOp fp op).bind fun f => mergeWords f dst src

/-! ## The groups -/

/-- A write that contributes to a reduction: the arguments and the data of its request. -/
structure Contribution where
  srcId : Int
  addr : Nat
  op : Int
  mask : Nat
  data : List Byte
  deriving DecidableEq

structure PendingWriteReduction where
  addr : Nat
  op : Int
  mask : Nat
  accumulator : Contribution
  expected : Int
  received : Int
  others : List Contribution

structure PendingReductionAck where
  accumulator : Contribution
  addr : Nat
  mask : Nat
  others : List Contribution

/-- The groups that are pending, and those whose contributions are still to be acknowledged. -/
structure Reductions where
  pendingWriteReductions : List PendingWriteReduction := []
  pendingReductionAcks : List PendingReductionAck := []

/-- `__builtin_popcount` of a sub-mask. -/
def popcount16 (mask : Nat) : Nat := ((List.range 16).filter (mask.testBit ·)).length

/-- `member_count(ref_id, mask)`: `1 << bits` of type `int`, `none` where that is undefined. -/
def MeshXYCollectivePolicy.memberCount (_p : MeshXYCollectivePolicy) (_ref : Int) (mask : Nat) : Option Int :=
  let bits := popcount16 (collMaskAxis mask 0) + popcount16 (collMaskAxis mask 1)
  if bits < 31 then some (2 ^ bits) else if bits = 31 then some (-2 ^ 31) else none

/-- `candidate.addr == addr && candidate.op == op && candidate.mask == mask`. -/
def PendingWriteReduction.matches (candidate : PendingWriteReduction) (req : Contribution) : Bool :=
  candidate.addr == req.addr && candidate.op == req.op && candidate.mask == req.mask

def joinGroup (p : MeshXYCollectivePolicy) (fp : Fp16) (groups : List PendingWriteReduction) (req : Contribution) :
    Option (List PendingWriteReduction × Nat) :=
  match groups.findIdx? (·.matches req) with
  | none =>
    (p.memberCount req.srcId req.mask).map fun expected =>
      (groups ++ [{ addr := req.addr, op := req.op, mask := req.mask, accumulator := req, expected := expected
                    received := 1, others := [] }], groups.length)
  | some i =>
    groups[i]?.bind fun group =>
      (processCollectiveOperations fp group.accumulator.op group.accumulator.data req.data).map fun data =>
        (groups.set i { group with
          accumulator := { group.accumulator with data := data }
          others := group.others ++ [req]
          received := group.received + 1 }, i)

/-- `*group = pending_write_reductions.back(); pending_write_reductions.pop_back()`. -/
def removeGroup (groups : List PendingWriteReduction) (i : Nat) : List PendingWriteReduction :=
  match groups.getLast? with
  | none => []
  | some back => (groups.set i back).dropLast

/-- `handle_write_reduction_contribution(req, committed_req)`: the request to forward once its group is complete. -/
def handleWriteReductionContribution (p : MeshXYCollectivePolicy) (fp : Fp16) (s : Reductions) (req : Contribution) :
    Option (Reductions × Option Contribution) :=
  (joinGroup p fp s.pendingWriteReductions req).bind fun (groups, i) =>
    groups[i]?.map fun group =>
      if group.received < group.expected then ({ s with pendingWriteReductions := groups }, none)
      else
        ({ pendingWriteReductions := removeGroup groups i
           pendingReductionAcks := s.pendingReductionAcks ++
             [{ accumulator := group.accumulator, addr := req.addr, mask := req.mask, others := group.others }] },
          some group.accumulator)

/-! ## What is merged -/

/-- The complete 16-bit elements of a buffer. -/
def words : List Byte → List (BitVec 16)
  | b₀ :: b₁ :: rest => word b₀ b₁ :: words rest
  | _ => []

/-- How many elements an operation works on. -/
def elements (op : Int) (data : List Byte) : Nat := if op = collOpLsband then data.length else (words data).length

theorem word_bytes (w : BitVec 16) : word (loByte w) (hiByte w) = w := by
  unfold word loByte hiByte
  refine eq_of_getLsbD_eq fun i hi => ?_
  rw [getLsbD_append]
  by_cases hlt : i < 8
  · simp [hlt]
  · rw [if_neg hlt, getLsbD_extractLsb', decide_eq_true (show i - 8 < 8 by omega), Bool.true_and,
      show 8 + (i - 8) = i by omega]

theorem words_mergeWords {f : BitVec 16 → BitVec 16 → BitVec 16} : ∀ {dst src data : List Byte},
    (words src).length = (words dst).length → mergeWords f dst src = some data →
    words data = zipWith f (words dst) (words src)
  | d₀ :: d₁ :: dst, s₀ :: s₁ :: src, data, hlen, h => by
    rw [mergeWords, map_eq_some_iff] at h
    obtain ⟨rest, hrest, rfl⟩ := h
    simp only [words, length_cons, Nat.add_right_cancel_iff] at hlen
    rw [words, words, words, zipWith_cons_cons, word_bytes, words_mergeWords hlen hrest]
  | [], [], data, _, h => by
    cases h
    rfl
  | [], [_], data, _, h => by
    cases h
    rfl
  | [_], [], data, _, h => by
    cases h
    rfl
  | [_], [_], data, _, h => by
    cases h
    rfl
  | [], _ :: _ :: _, _, _, h => by cases h
  | [_], _ :: _ :: _, _, _, h => by cases h
  | _ :: _ :: _, [], _, hlen, _ => by simp [words] at hlen
  | _ :: _ :: _, [_], _, hlen, _ => by simp [words] at hlen

theorem mergeBits_eq : ∀ {dst src data : List Byte}, src.length = dst.length → mergeBits dst src = some data →
    data = zipWith (fun d s => (d &&& 1) &&& (s &&& 1)) dst src
  | d :: dst, s :: src, data, hlen, h => by
    rw [mergeBits, map_eq_some_iff] at h
    obtain ⟨rest, hrest, rfl⟩ := h
    rw [zipWith_cons_cons, ← mergeBits_eq (Nat.succ.inj hlen) hrest]
  | [], [], data, _, h => by
    cases h
    rfl
  | [], _ :: _, _, hlen, _ => by simp at hlen
  | _ :: _, [], _, hlen, _ => by simp at hlen

def mergeAll (fp : Fp16) (op : Int) (data : List Byte) (srcs : List (List Byte)) : Option (List Byte) :=
  srcs.foldlM (processCollectiveOperations fp op) data

section Merge

variable {fp : Fp16} {op : Int} {f : BitVec 16 → BitVec 16 → BitVec 16}

theorem wordOp_range (h : wordOp fp op = some f) : op ≠ collOpMulticast ∧ op ≠ collOpLsband := by
  constructor
  · rintro rfl
    cases h
  · rintro rfl
    cases h

theorem mergeAll_cons {data src : List Byte} {srcs : List (List Byte)} {r : List Byte} :
    mergeAll fp op data (src :: srcs) = some r ↔
      ∃ data', processCollectiveOperations fp op data src = some data' ∧ mergeAll fp op data' srcs = some r := by
  unfold mergeAll
  rw [foldlM_cons]
  exact bind_eq_some_iff

theorem mergeAll_append {data src : List Byte} {srcs : List (List Byte)} {data' r : List Byte}
    (h : mergeAll fp op data srcs = some data') (h' : processCollectiveOperations fp op data' src = some r) :
    mergeAll fp op data (srcs ++ [src]) = some r := by
  unfold mergeAll at *
  rw [foldlM_append, h, bind_eq_bind, bind_some, foldlM_cons, h']
  rfl

theorem getD_zipWith {α : Type*} {g : α → α → α} {l l' : List α} {i : Nat} {d : α} (hl : i < l.length)
    (hl' : i < l'.length) :
    (zipWith g l l').getD i d = g (l.getD i d) (l'.getD i d) := by
  simp [hl, hl']

/-- The elements of the accumulator after the merges of an operation on 16-bit elements. -/
theorem words_mergeAll (hop : wordOp fp op = some f) : ∀ {srcs : List (List Byte)} {data r : List Byte},
    (∀ src ∈ srcs, (words src).length = (words data).length) → mergeAll fp op data srcs = some r →
    (words r).length = (words data).length ∧ ∀ i < (words data).length,
      (words r).getD i 0 = (srcs.map fun src => (words src).getD i 0).foldl f ((words data).getD i 0)
  | [], data, r, _, h => by
    cases h
    exact ⟨rfl, fun i _ => rfl⟩
  | src :: srcs, data, r, hlen, h => by
    obtain ⟨data', hstep, hrest⟩ := mergeAll_cons.1 h
    obtain ⟨hmulticast, hlsband⟩ := wordOp_range hop
    rw [processCollectiveOperations, if_neg hmulticast, if_neg hlsband, hop, bind_some] at hstep
    have hsrc := hlen src mem_cons_self
    have hwords := words_mergeWords hsrc hstep
    have hlen' : (words data').length = (words data).length := by
      rw [hwords, length_zipWith, hsrc, Nat.min_self]
    obtain ⟨hr, hget⟩ := words_mergeAll hop (fun s hs => (hlen s (mem_cons_of_mem _ hs)).trans hlen'.symm) hrest
    refine ⟨hr.trans hlen', fun i hi => ?_⟩
    rw [hget i (hlen' ▸ hi), map_cons, foldl_cons, hwords, getD_zipWith hi (hsrc ▸ hi)]

theorem and_one_and_one (b : Byte) : b &&& 1 &&& 1 = b &&& 1 := by rw [BitVec.and_assoc, BitVec.and_self]

theorem bits_mergeAll : ∀ {srcs : List (List Byte)} {data r : List Byte}, (∀ src ∈ srcs, src.length = data.length) →
    mergeAll fp collOpLsband data srcs = some r → r.length = data.length ∧ ∀ i < data.length,
      r.getD i 0 &&& 1 = (srcs.map fun src => src.getD i 0 &&& 1).foldl (· &&& ·) (data.getD i 0 &&& 1) ∧
        (srcs ≠ [] → r.getD i 0 &&& 1 = r.getD i 0)
  | [], data, r, _, h => by
    cases h
    exact ⟨rfl, fun i _ => ⟨rfl, fun h => absurd rfl h⟩⟩
  | src :: srcs, data, r, hlen, h => by
    obtain ⟨data', hstep, hrest⟩ := mergeAll_cons.1 h
    have hsrc := hlen src mem_cons_self
    have hdata := mergeBits_eq hsrc hstep
    have hlen' : data'.length = data.length := by
      rw [hdata, length_zipWith, hsrc, Nat.min_self]
    obtain ⟨hr, hget⟩ := bits_mergeAll (fun s hs => (hlen s (mem_cons_of_mem _ hs)).trans hlen'.symm) hrest
    refine ⟨hr.trans hlen', fun i hi => ?_⟩
    obtain ⟨hfold, hbit⟩ := hget i (hlen' ▸ hi)
    have hi' : data'.getD i 0 = (data.getD i 0 &&& 1) &&& (src.getD i 0 &&& 1) := by
      rw [hdata, getD_zipWith hi (hsrc ▸ hi)]
    have hmask : data'.getD i 0 &&& 1 = data'.getD i 0 := by
      rw [hi', BitVec.and_assoc, and_one_and_one]
    refine ⟨?_, fun _ => ?_⟩
    · rw [hfold, hmask, hi', map_cons, foldl_cons]
    · cases srcs with
      | nil =>
        cases hrest
        exact hmask
      | cons src' srcs => exact hbit (cons_ne_nil _ _)

end Merge

/-! ## The laws of the operations -/

section Laws

variable {α β : Type*}

theorem foldl_perm {g : α → α → α} {e : α} (hcomm : ∀ a b, g a b = g b a) (hassoc : ∀ a b c, g (g a b) c = g a (g b c))
    (he : ∀ a, g a e = a) {a : α} {l l' : List α} (h : l'.Perm (a :: l)) : l.foldl g a = l'.foldr g e := by
  have hfirst : ∀ (l : List α) (a : α), l.foldl g a = g a (l.foldr g e) := by
    intro l
    induction l with
    | nil => exact fun a => (he a).symm
    | cons b l ih =>
      intro a
      rw [foldl_cons, ih, foldr_cons, hassoc]
  have : LeftCommutative g := ⟨fun a b c => by rw [← hassoc, hcomm a b, hassoc]⟩
  rw [h.foldr_eq, foldr_cons, hfirst]

section Max

variable [LinearOrder β] {φ : α → β} {g : α → α → α}

theorem map_max (hg : ∀ a b, g a b = if φ b < φ a then a else b) (a b : α) : φ (g a b) = max (φ a) (φ b) := by
  rw [hg]
  split
  case isTrue h => exact (max_eq_left h.le).symm
  case isFalse h => exact (max_eq_right (not_lt.1 h)).symm

theorem map_foldr_max (hg : ∀ a b, g a b = if φ b < φ a then a else b) (e : α) (l : List α) :
    φ (l.foldr g e) = (l.map φ).foldr max (φ e) := by
  induction l with
  | nil => rfl
  | cons a l ih => rw [foldr_cons, map_max hg, ih, map_cons, foldr_cons]

theorem foldl_max (hφ : Function.Injective φ) (hg : ∀ a b, g a b = if φ b < φ a then a else b) {e : α}
    (he : ∀ a, φ e ≤ φ a) {a : α} {l l' : List α} (h : l'.Perm (a :: l)) :
    φ (l.foldl g a) = (l'.map φ).foldr max (φ e) := by
  rw [← map_foldr_max hg]
  refine congrArg φ (foldl_perm (fun a b => hφ ?_) (fun a b c => hφ ?_) (fun a => hφ ?_) h)
  · rw [map_max hg, map_max hg, max_comm]
  · rw [map_max hg, map_max hg, map_max hg, map_max hg, max_assoc]
  · rw [map_max hg, max_eq_left (he a)]

end Max

theorem foldr_add_toNat (values : List (BitVec 16)) :
    (values.foldr (· + ·) 0).toNat = (values.map BitVec.toNat).sum % 2 ^ 16 := by
  induction values with
  | nil => rfl
  | cons v values ih => rw [foldr_cons, toNat_add, ih, map_cons, sum_cons, Nat.add_mod_mod]

/-- What an element of the result is, for the elements of the contributions. -/
structure Reduced (op : Int) (value : BitVec 16) (values : List (BitVec 16)) : Prop where
  sum : op = collOpRedaddUint16 ∨ op = collOpRedaddInt16 → value.toNat = (values.map BitVec.toNat).sum % 2 ^ 16
  maxUint : op = collOpRedmaxUint16 → value.toNat = (values.map BitVec.toNat).foldr max 0
  maxInt : op = collOpRedmaxInt16 → value.toInt = (values.map BitVec.toInt).foldr max (-2 ^ 15)

/-- **Any order**: a fold of an operation over elements is their reduction. -/
theorem reduced_foldl {fp : Fp16} {op : Int} {f : BitVec 16 → BitVec 16 → BitVec 16} (hop : wordOp fp op = some f)
    {a : BitVec 16} {l values : List (BitVec 16)} (h : values.Perm (a :: l)) : Reduced op (l.foldl f a) values := by
  refine ⟨fun hadd => ?_, fun hmax => ?_, fun hmax => ?_⟩
  · rw [wordOp, if_pos hadd] at hop
    cases hop
    rw [foldl_perm add_comm add_assoc (fun a => add_zero a) h]
    exact foldr_add_toNat values
  · subst hmax
    cases hop
    have hmin : ∀ v : BitVec 16, (0#16).toNat ≤ v.toNat := fun v => Nat.zero_le _
    exact foldl_max (fun _ _ => eq_of_toNat_eq) (fun _ _ => rfl) hmin h
  · subst hmax
    cases hop
    have hmin : ∀ v : BitVec 16, (intMin 16).toInt ≤ v.toInt := fun v => v.le_toInt
    exact foldl_max (fun _ _ => eq_of_toInt_eq) (fun _ _ => rfl) hmin h

end Laws

end GvsocPulp.FloonocFlex
