import GvsocPulp.Hci.Picks
import GvsocPulp.TcdmInterco.WideViews

/-!
# The HCI crossbar: its views of the banks

The bytes of an access through a narrow input, through a wide input and through the backdoor, here with the byte enables
of the requests: `wide_forward` prepares its sub-request for each chunk, which clears the strobe.

- `decodes`: the decoding of addresses is a bijection with the banks;
- `views_agree_iff`: the three paths agree iff the strobe enables all bytes;
- `wide_views_iff`: both crossbars.
-/

namespace GvsocPulp.Hci

open Lib List

/-! ## Strobes -/

/-- A request; `strb` is where its byte enables are. -/
structure StrobedReq extends Req where
  strb : Option Nat := none
  deriving DecidableEq, Repr

/-- What a bank is asked for, with the byte enables. -/
structure StrobedAccess extends Access where
  strb : Option Nat
  deriving DecidableEq, Repr

/-- The strobes of the chunks of `wide_forward`: the sub-request is prepared for each of them, and its strobe is not
set. -/
def wideStrobes (prepare : Option Nat → Option Nat) : Option Nat → List Access → List StrobedAccess
  | _, [] => []
  | sub, access :: rest => ⟨access, prepare sub⟩ :: wideStrobes prepare (prepare sub) rest

variable (cfg : Config)

def wideForwardStrobed (prepare : Option Nat → Option Nat) (sub : Option Nat) (req : StrobedReq) : List StrobedAccess :=
  wideStrobes prepare sub (wideForward cfg req.toReq)

/-- A narrow request, as its bank gets it. -/
def forwardStrobed (req : StrobedReq) : StrobedAccess := ⟨forward cfg req.toReq, req.strb⟩

/-- The walk of `debug_mem_access` over the chunks, up to a bank that fails; whether none does. -/
def debugLoop (ok : Access → Bool) (isWrite : Bool) : Nat → List (Nat × Nat) → List Access × Bool
  | _, [] => ([], true)
  | data, (addr, chunk) :: rest =>
    let access : Access := ⟨decodeBank cfg addr, decodeOffset cfg addr, chunk, data, isWrite⟩
    if ok access then
      let (done, result) := debugLoop ok isWrite (data + chunk) rest
      (access :: done, result)
    else ([], false)

def debugMemAccess (ok : Access → Bool) (req : Req) : List Access × Bool :=
  debugLoop cfg ok req.isWrite req.data (chunks cfg req.addr req.size)

def bytes (enable : Nat → Bool) (accesses : List StrobedAccess) : List BankByte :=
  accesses.flatMap fun a => accessBytes enable a.bank a.offset a.size (some a.data) a.strb

def StrobedReq.byte (req : StrobedReq) (i : Nat) : StrobedReq where
  addr := (req.addr + i) % 2 ^ 64
  size := 1
  data := req.data + i
  isWrite := req.isWrite
  strb := req.strb.map (· + i)

/-- The views of an access; the bytes of the narrow path are accessed one by one. -/
def views (prepare : Option Nat → Option Nat) (sub : Option Nat) (enable : Nat → Bool) (req : StrobedReq) : Views where
  narrow := (List.range req.size).flatMap fun i => bytes enable [forwardStrobed cfg (req.byte i)]
  wide := bytes enable (wideForwardStrobed cfg prepare sub req)
  backdoor := bytes enable ((debugMemAccess cfg (fun _ => true) req.toReq).1.map (⟨·, none⟩))
  claimed := fun b => (computeBankMask cfg req.addr req.size).any fun mask => mask.getLsbD b

variable {cfg}

/-! ## Decoding -/

theorem decodeOffset_eq (addr : Nat) : decodeOffset cfg addr = placeOf cfg.granule cfg.nbSlaves addr :=
  place_of_bits cfg.slaveBits cfg.interleavingWidth addr

def Config.bankSize (cfg : Config) : Nat := 2 ^ (64 - cfg.slaveBits)

theorem granule_dvd (cfg : Config) :
    cfg.bankSize * cfg.nbSlaves = 2 ^ 64 ∧ cfg.granule ∣ cfg.bankSize ∧ cfg.granule ∣ 2 ^ 64 :=
  granules_dvd cfg.shift_lt.le

theorem decodes (cfg : Config) : Decodes cfg.nbSlaves cfg.bankSize (decodeBank cfg) (decodeOffset cfg) := by
  have hbank : decodeBank cfg = bankOf cfg.granule cfg.nbSlaves := funext decodeBank_eq
  have hoffset : decodeOffset cfg = placeOf cfg.granule cfg.nbSlaves := funext decodeOffset_eq
  rw [hbank, hoffset]
  exact decodes_place granule_pos (granule_dvd cfg).2.1

/-! ## The paths -/

section Paths

variable {enable : Nat → Bool} {prepare : Option Nat → Option Nat} {sub : Option Nat} {req : StrobedReq}

theorem narrow_bytes : (views cfg prepare sub enable req).narrow =
    rangeBytes 64 cfg.granule cfg.nbSlaves enable (some req.data) req.strb req.addr req.size := by
  show (List.range req.size).flatMap _ = _
  rw [rangeBytes, map_eq_flatMap]
  congr 1
  funext i
  simp [bytes, accessBytes, forwardStrobed, forward, StrobedReq.byte, byteAt, decodeBank_eq, decodeOffset_eq]

theorem wideStrobes_eq (hprepare : ∀ strb, prepare strb = none) : ∀ {sub : Option Nat} {as : List Access},
    wideStrobes prepare sub as = as.map (⟨·, none⟩)
  | _, [] => rfl
  | sub, a :: rest => by rw [wideStrobes, hprepare, wideStrobes_eq hprepare, map_cons]

theorem wideForwardLoop_bytes (enable : Nat → Bool) (req : Req) : ∀ (i : Nat) {cs : List (Nat × Nat)},
    (∀ p ∈ cs, p.1 % cfg.granule + p.2 ≤ cfg.granule) →
      bytes enable ((wideForwardLoop cfg req i cs).map (⟨·, none⟩)) =
        (bytesFrom i cs).map fun p => byteAt cfg.granule cfg.nbSlaves enable (some req.data) none p.1 p.2
  | _, [], _ => rfl
  | i, (addr, n) :: rest, h => by
    have hn : addr % cfg.granule + n ≤ cfg.granule := h _ mem_cons_self
    rw [wideForwardLoop, map_cons, bytes, flatMap_cons, decodeBank_eq, decodeOffset_eq, bytesFrom, map_append,
      map_map]
    exact congrArg₂ (· ++ ·) (accessBytes_granule granule_pos enable (some req.data) none i hn)
      (wideForwardLoop_bytes enable req _ fun p hp => h p (mem_cons_of_mem _ hp))

theorem chunks_granule (cfg : Config) (addr size : Nat) : ∀ p ∈ chunks cfg addr size,
    p.1 % cfg.granule + p.2 ≤ cfg.granule :=
  fun _ hp => (pieces_granule granule_pos hp).2

theorem wideForward_bytes (enable : Nat → Bool) {req : Req} (haddr : req.addr < 2 ^ 64) :
    bytes enable ((wideForward cfg req).map (⟨·, none⟩)) =
      rangeBytes 64 cfg.granule cfg.nbSlaves enable (some req.data) none req.addr req.size := by
  rw [wideForward, wideForwardLoop_bytes enable req 0 (chunks_granule cfg req.addr req.size), chunks,
    pieces_rangeBytes (granule_dvd cfg).2.2 granule_pos haddr]

theorem debugLoop_eq (ok : Access → Bool) (req : Req) : ∀ (cs : List (Nat × Nat)) (i : Nat),
    debugLoop cfg ok req.isWrite (req.data + i) cs =
      ((wideForwardLoop cfg req i cs).takeWhile ok, (wideForwardLoop cfg req i cs).all ok)
  | [], _ => rfl
  | (addr, n) :: rest, i => by
    rw [debugLoop, wideForwardLoop, takeWhile_cons, all_cons]
    split
    case isTrue hok =>
      rw [add_assoc, debugLoop_eq ok req rest, hok]
      rfl
    case isFalse hok => rw [(Bool.not_eq_true _).mp hok, Bool.false_and]

theorem debugMemAccess_eq (ok : Access → Bool) (req : Req) :
    debugMemAccess cfg ok req = ((wideForward cfg req).takeWhile ok, (wideForward cfg req).all ok) :=
  debugLoop_eq ok req (chunks cfg req.addr req.size) 0

theorem wideForwardLoop_sizes (req : Req) : ∀ {cs : List (Nat × Nat)} {i : Nat},
    (wideForwardLoop cfg req i cs).map (·.size) = cs.map Prod.snd
  | [], _ => rfl
  | (_, n) :: _, _ => congrArg (n :: ·) (wideForwardLoop_sizes req)

theorem claimed_iff (hprepare : ∀ strb, prepare strb = none)
    (hsize : (chunks cfg req.addr req.size).length ≤ cfg.nbSlaves) (b : Nat) :
    (views cfg prepare sub enable req).claimed b = true ↔ b ∈ (views cfg prepare sub enable req).wide.map (·.bank) := by
  obtain ⟨mask, hmask⟩ : ∃ mask, computeBankMask cfg req.addr req.size = some mask := ⟨_, if_pos hsize⟩
  show (computeBankMask cfg req.addr req.size).any (fun mask => mask.getLsbD b) = true ↔
    b ∈ (bytes enable (wideForwardStrobed cfg prepare sub req)).map (·.bank)
  rw [hmask, Option.any_some, getLsbD_bankMask (show computeBankMask cfg req.toReq.addr req.toReq.size =
    some mask from hmask), bytes, wideForwardStrobed, wideStrobes_eq hprepare]
  refine ((mem_banks_bytes (fun a : StrobedAccess => a.bank) (fun a => a.size) (fun a => accessBytes_banks _ _ _ _ _ _)
    fun a ha => ?_).trans ?_).symm
  · obtain ⟨a', ha', rfl⟩ := List.mem_map.1 ha
    have hsize : a'.size ∈ (chunks cfg req.addr req.size).map Prod.snd := by
      rw [← wideForwardLoop_sizes req.toReq]
      exact List.mem_map_of_mem ha'
    obtain ⟨p, hp, hsize⟩ := List.mem_map.1 hsize
    rw [← hsize]
    exact (pieces_granule granule_pos hp).1
  · rw [map_map]
    rfl

/-- **The paths agree** on an access of at most as many granules as there are banks iff its strobe enables all its
bytes. -/
theorem views_agree_iff (hprepare : ∀ strb, prepare strb = none) (haddr : req.addr < 2 ^ 64)
    (hsize : (chunks cfg req.addr req.size).length ≤ cfg.nbSlaves) :
    (views cfg prepare sub enable req).Agree ↔ ∀ i < req.size, enabledAt enable (req.strb.map (· + i)) = true := by
  obtain ⟨hbanks, hrow, hdvd⟩ := granule_dvd cfg
  have hwide : (views cfg prepare sub enable req).wide =
      rangeBytes 64 cfg.granule cfg.nbSlaves enable (some req.data) none req.addr req.size := by
    show bytes enable (wideStrobes prepare sub (wideForward cfg req.toReq)) = _
    rw [wideStrobes_eq hprepare, wideForward_bytes enable haddr]
  have hnarrow : (views cfg prepare sub enable req).narrow = _ := narrow_bytes
  constructor
  · intro h i hi
    have heq := h.wide
    rw [hwide, hnarrow] at heq
    have hbyte := map_inj_left.1 heq i (mem_range.2 hi)
    exact (congrArg BankByte.enabled hbyte).symm
  · intro hall
    refine Views.agree_of_wide ?_ ?_ (claimed_iff hprepare hsize) ?_
    · rw [hwide, hnarrow]
      refine map_congr_left fun i hi => ?_
      rw [byteAt, byteAt, hall i (mem_range.1 hi)]
      rfl
    · show (bytes enable ((debugMemAccess cfg (fun _ => true) req.toReq).1.map (⟨·, none⟩))).map _ = _
      have htake : (wideForward cfg req.toReq).takeWhile (fun _ => true) = wideForward cfg req.toReq :=
        takeWhile_eq_self_iff.2 fun _ _ => rfl
      rw [debugMemAccess_eq, htake, wideForward_bytes enable haddr, hnarrow, rangeBytes, rangeBytes, map_map, map_map]
      rfl
    · rw [hnarrow]
      exact rangeBytes_nodup granule_pos enable (some req.data) req.strb
        (size_le_of_pieces hdvd granule_pos haddr hbanks hrow hsize)

end Paths

/-- **Both crossbars**: the decoding is a bijection, and the paths agree, iff the strobe of the wide access through the
HCI enables all its bytes. -/
theorem wide_views_iff (cfg : Config) (cfg' : TcdmInterco.Config) {prepare : Option Nat → Option Nat}
    (hprepare : ∀ strb, prepare strb = none) (sub : Option Nat) (enable : Nat → Bool) {req : StrobedReq}
    {req' : TcdmInterco.Req} (haddr : req.addr < 2 ^ 64) (hsize : (chunks cfg req.addr req.size).length ≤ cfg.nbSlaves)
    (haddr' : req'.addr < 2 ^ 64) (hsize' : (TcdmInterco.chunks cfg' req'.addr req'.size).length ≤ cfg'.nbSlaves) :
    ((Decodes cfg.nbSlaves cfg.bankSize (decodeBank cfg) (decodeOffset cfg) ∧
      (views cfg prepare sub enable req).Agree) ∧
      Decodes cfg'.nbSlaves cfg'.bankSize (TcdmInterco.decodeBank cfg') (TcdmInterco.decodeOffset cfg') ∧
        (TcdmInterco.views cfg' enable req').Agree) ↔
      ∀ i < req.size, enabledAt enable (req.strb.map (· + i)) = true := by
  have hagree : (views cfg prepare sub enable req).Agree ↔ _ := views_agree_iff hprepare haddr hsize
  rw [← hagree]
  constructor
  · rintro ⟨⟨-, h⟩, -⟩
    exact h
  · intro h
    exact ⟨⟨decodes cfg, h⟩, TcdmInterco.decodes cfg', TcdmInterco.views_agree cfg' enable haddr' hsize'⟩

def twoWords : Config where
  nbMasters := 1
  nbGroup0Masters := 0
  slaveBits := 1
  interleavingWidth := 2
  nbWideMasters := 1
  wideMaxStall := 0
  widePrio := false
  masters_pos := Nat.one_pos
  masters_le := Nat.le_add_left 1 63
  group0_le := Nat.le_add_left 0 1
  slaves_le := Nat.le_add_left 1 5
  shift_lt := (by decide : 3 < 64)

def twoWordsMagia : TcdmInterco.Config where
  nbMasters := 1
  slaveBits := 1
  interleavingWidth := 2
  nbWideMasters := 1
  masters_pos := Nat.one_pos
  shift_lt := twoWords.shift_lt

theorem wide_views_twoWords :
    ((Decodes twoWords.nbSlaves twoWords.bankSize (decodeBank twoWords) (decodeOffset twoWords) ∧
        (views twoWords (fun _ => none) none (fun _ => true)
          { addr := 2, size := 4, data := 0, isWrite := true }).Agree) ∧
      Decodes twoWordsMagia.nbSlaves twoWordsMagia.bankSize (TcdmInterco.decodeBank twoWordsMagia)
          (TcdmInterco.decodeOffset twoWordsMagia) ∧
        (TcdmInterco.views twoWordsMagia (fun _ => true) { addr := 2, size := 4 }).Agree) ↔
      ∀ i < 4, enabledAt (fun _ => true) ((none : Option Nat).map (· + i)) = true :=
  wide_views_iff twoWords twoWordsMagia (fun _ => rfl) none (fun _ => true) (by decide) (by decide)
    (by decide) (by decide)

/-- A wide write with a byte that is not enabled writes this byte, too. -/
theorem strobe_dropped : ¬ (views twoWords (fun _ => none) none (fun i => decide (i ≠ 1))
    { addr := 2, size := 4, data := 0, isWrite := true, strb := some 0 }).Agree := by
  intro h
  have hwide := h.wide
  revert hwide
  decide +kernel

end GvsocPulp.Hci
