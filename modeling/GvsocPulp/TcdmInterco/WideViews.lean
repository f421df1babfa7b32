import GvsocPulp.Lib.InterleaveBytes
import GvsocPulp.TcdmInterco.Records

/-!
# The MAGIA TCDM interconnect: the views of the banks

The bytes of an access through a narrow input, through a wide input and through the backdoor.

- `decodes`: the decoding of addresses is a bijection with the banks;
- `views_agree`: the three paths take each byte to the same place, with the same data and strobe.
-/

namespace GvsocPulp.TcdmInterco

open Lib List

/-! ## Decoding -/

section Decoding

variable {cfg : Config}

theorem decodeOffset_eq (addr : Nat) : decodeOffset cfg addr = placeOf cfg.granule cfg.nbSlaves addr :=
  place_of_bits cfg.slaveBits cfg.interleavingWidth addr

def Config.bankSize (cfg : Config) : Nat := 2 ^ (64 - cfg.slaveBits)

theorem granule_dvd (cfg : Config) :
    cfg.bankSize * cfg.nbSlaves = 2 ^ 64 ∧ cfg.granule ∣ cfg.bankSize ∧ cfg.granule ∣ 2 ^ 64 :=
  granules_dvd cfg.shift_lt.le

theorem decodes (cfg : Config) : Decodes cfg.nbSlaves cfg.bankSize (decodeBank cfg) (decodeOffset cfg) := by
  have hbank : decodeBank cfg = bankOf cfg.granule cfg.nbSlaves := funext decodeBank_eq
  have hoffset : decodeOffset cfg = placeOf cfg.granule cfg.nbSlaves := funext decodeOffset_eq
  rw [hbank, hoffset]
  exact decodes_place granule_pos (granule_dvd cfg).2.1

end Decoding

/-! ## The paths -/

/-- The walk of `debug_mem_access` over the chunks, up to a bank that fails; whether none does. -/
def debugLoop (cfg : Config) (ok : Access → Bool) (isWrite : Bool) : Option Nat → List (Nat × Nat) → List Access × Bool
  | _, [] => ([], true)
  | data, (addr, chunk) :: rest =>
    let access : Access := ⟨decodeBank cfg addr, decodeOffset cfg addr, chunk, data, none, isWrite⟩
    if ok access then
      let (done, result) := debugLoop cfg ok isWrite (data.map (· + chunk)) rest
      (access :: done, result)
    else ([], false)

def debugMemAccess (cfg : Config) (ok : Access → Bool) (req : Req) : List Access × Bool :=
  debugLoop cfg ok req.isWrite req.data (chunks cfg req.addr req.size)

def bytes (enable : Nat → Bool) (accesses : List Access) : List BankByte :=
  accesses.flatMap fun a => accessBytes enable a.bank a.offset a.size a.data a.strb

def Req.byte (req : Req) (i : Nat) : Req where
  addr := (req.addr + i) % 2 ^ 64
  size := 1
  data := req.data.map (· + i)
  strb := req.strb.map (· + i)
  isWrite := req.isWrite

/-- The views of an access; the bytes of the narrow path are accessed one by one. -/
def views (cfg : Config) (enable : Nat → Bool) (req : Req) : Views where
  narrow := (List.range req.size).flatMap fun i => bytes enable [forward cfg (req.byte i)]
  wide := bytes enable (forwardWide cfg req)
  backdoor := bytes enable (debugMemAccess cfg (fun _ => true) req).1
  claimed := fun b => (wideClaimMask cfg req.addr req.size).test b

section Paths

variable {cfg : Config} {enable : Nat → Bool} {req : Req}

abbrev Req.allBytes (cfg : Config) (enable : Nat → Bool) (req : Req) : List BankByte :=
  rangeBytes 64 cfg.granule cfg.nbSlaves enable req.data req.strb req.addr req.size

theorem narrow_bytes (enable : Nat → Bool) (req : Req) : (views cfg enable req).narrow = req.allBytes cfg enable := by
  show (List.range req.size).flatMap _ = _
  rw [Req.allBytes, rangeBytes, map_eq_flatMap]
  congr 1
  funext i
  simp [bytes, accessBytes, forward, Req.byte, byteAt, decodeBank_eq, decodeOffset_eq]

theorem forwardWideLoop_bytes (enable : Nat → Bool) (isWrite : Bool) (data strb : Option Nat) :
    ∀ (i : Nat) {cs : List (Nat × Nat)}, (∀ p ∈ cs, p.1 % cfg.granule + p.2 ≤ cfg.granule) →
      bytes enable (forwardWideLoop cfg isWrite (data.map (· + i)) (strb.map (· + i)) cs) =
        (bytesFrom i cs).map fun p => byteAt cfg.granule cfg.nbSlaves enable data strb p.1 p.2
  | _, [], _ => rfl
  | i, (addr, n) :: rest, h => by
    have hn : addr % cfg.granule + n ≤ cfg.granule := h _ mem_cons_self
    rw [forwardWideLoop, bytes, flatMap_cons, map_add_add, map_add_add, decodeBank_eq, decodeOffset_eq,
      accessBytes_granule granule_pos enable data strb i hn, bytesFrom, map_append, map_map]
    exact congrArg₂ (· ++ ·) rfl (forwardWideLoop_bytes enable isWrite data strb _ fun p hp => h p
      (mem_cons_of_mem _ hp))

theorem chunks_granule (cfg : Config) (addr size : Nat) : ∀ p ∈ chunks cfg addr size,
    p.1 % cfg.granule + p.2 ≤ cfg.granule :=
  fun _ hp => (pieces_granule granule_pos hp).2

theorem map_add_zero (x : Option Nat) : x.map (· + 0) = x := by cases x <;> rfl

theorem wide_bytes (enable : Nat → Bool) (haddr : req.addr < 2 ^ 64) :
    (views cfg enable req).wide = req.allBytes cfg enable := by
  have h := forwardWideLoop_bytes enable req.isWrite req.data req.strb 0 (chunks_granule cfg req.addr req.size)
  rw [map_add_zero, map_add_zero, chunks, pieces_rangeBytes (granule_dvd cfg).2.2 granule_pos haddr] at h
  exact h

/-- The backdoor takes the chunks of the wide path, without strobe, up to a bank that fails. -/
theorem debugLoop_eq (ok : Access → Bool) (isWrite : Bool) : ∀ {cs : List (Nat × Nat)} {data : Option Nat},
    debugLoop cfg ok isWrite data cs =
      ((forwardWideLoop cfg isWrite data none cs).takeWhile ok, (forwardWideLoop cfg isWrite data none cs).all ok)
  | [], _ => rfl
  | (addr, n) :: rest, data => by
    rw [debugLoop, forwardWideLoop, takeWhile_cons, all_cons]
    split
    case isTrue hok =>
      rw [debugLoop_eq ok isWrite, hok]
      rfl
    case isFalse hok => rw [(Bool.not_eq_true _).mp hok, Bool.false_and]

theorem backdoor_bytes (enable : Nat → Bool) (haddr : req.addr < 2 ^ 64) :
    (views cfg enable req).backdoor = rangeBytes 64 cfg.granule cfg.nbSlaves enable req.data none req.addr
      req.size := by
  have h := forwardWideLoop_bytes enable req.isWrite req.data none 0 (chunks_granule cfg req.addr req.size)
  rw [map_add_zero, chunks, pieces_rangeBytes (granule_dvd cfg).2.2 granule_pos haddr] at h
  show bytes enable (debugLoop cfg _ req.isWrite req.data (chunks cfg req.addr req.size)).1 = _
  rw [debugLoop_eq, ← h]
  congr 1
  exact takeWhile_eq_self_iff.2 fun _ _ => rfl

theorem forwardWideLoop_sizes (isWrite : Bool) : ∀ {cs : List (Nat × Nat)} {data strb : Option Nat},
    (forwardWideLoop cfg isWrite data strb cs).map (·.size) = cs.map Prod.snd
  | [], _, _ => rfl
  | (_, n) :: _, _, _ => congrArg (n :: ·) (forwardWideLoop_sizes isWrite)

theorem claimed_iff (enable : Nat → Bool) (req : Req) (b : Nat) :
    (views cfg enable req).claimed b = true ↔ b ∈ (views cfg enable req).wide.map (·.bank) := by
  show (wideClaimMask cfg req.addr req.size).test b = true ↔ b ∈ (bytes enable (forwardWide cfg req)).map (·.bank)
  rw [test_wideClaimMask, bytes]
  refine (mem_banks_bytes (fun a : Access => a.bank) (fun a => a.size) (fun a => accessBytes_banks _ _ _ _ _ _)
    fun a ha => ?_).symm
  have hsize : a.size ∈ (chunks cfg req.addr req.size).map Prod.snd := by
    rw [← forwardWideLoop_sizes req.isWrite]
    exact List.mem_map_of_mem ha
  obtain ⟨p, hp, hsize⟩ := List.mem_map.1 hsize
  rw [← hsize]
  exact (pieces_granule granule_pos hp).1

/-- **The paths agree** on every access of at most as many granules as there are banks. -/
theorem views_agree (cfg : Config) (enable : Nat → Bool) {req : Req} (haddr : req.addr < 2 ^ 64)
    (hsize : (chunks cfg req.addr req.size).length ≤ cfg.nbSlaves) : (views cfg enable req).Agree := by
  obtain ⟨hbanks, hrow, hdvd⟩ := granule_dvd cfg
  refine Views.agree_of_wide ?_ ?_ (claimed_iff enable req) ?_
  · rw [wide_bytes enable haddr, narrow_bytes]
  · rw [backdoor_bytes enable haddr, narrow_bytes, Req.allBytes, rangeBytes, rangeBytes, map_map, map_map]
    rfl
  · rw [narrow_bytes]
    exact rangeBytes_nodup granule_pos enable req.data req.strb
      (size_le_of_pieces hdvd granule_pos haddr hbanks hrow hsize)

end Paths

end GvsocPulp.TcdmInterco
