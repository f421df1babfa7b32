import GvsocPulp.Lib.Interleave

/-!
# The bytes of interleaved banks

The place of an address in its bank, and the bytes of a range byte by byte.

- `place_injective`, `place_surjective`: each address has a place of its own, and each place an address;
- `pieces_bytes`: the pieces of a range, byte after byte, are the range;
- `loadBytes_storeBytes`: the bytes of an access, which are at distinct places, are read back.
-/

namespace GvsocPulp.Lib

open Function List Nat

variable {w granule banks : Nat}

variable {addr b size : Nat}

def placeOf (granule banks addr : Nat) : Nat := addr / (granule * banks) * granule + addr % granule

/-! ## Places -/

theorem addr_of_place (hg : 0 < granule) (banks addr : Nat) :
    (placeOf granule banks addr / granule * banks + bankOf granule banks addr) * granule +
      placeOf granule banks addr % granule = addr := by
  have hdiv : placeOf granule banks addr / granule = addr / granule / banks := by
    rw [placeOf, add_comm, add_mul_div_right _ _ hg, div_eq_of_lt (mod_lt _ hg), zero_add,
      Nat.div_div_eq_div_mul]
  have hmod : placeOf granule banks addr % granule = addr % granule := by
    rw [placeOf, add_comm, add_mul_mod_self_right, mod_mod]
  rw [hdiv, hmod, bankOf, mul_comm (addr / granule / banks) banks, div_add_mod, mul_comm, div_add_mod]

/-- **No two addresses share a place.** -/
theorem place_injective (hg : 0 < granule) {a a' : Nat} (hbank : bankOf granule banks a = bankOf granule banks a')
    (hplace : placeOf granule banks a = placeOf granule banks a') : a = a' := by
  rw [← addr_of_place hg banks a, ← addr_of_place hg banks a', hbank, hplace]

/-- **Each place below `size` of each bank is that of an address** of the `size * banks` first ones. -/
theorem place_surjective (hg : 0 < granule) {o : Nat} (hsize : granule ∣ size) (hb : b < banks) (ho : o < size) :
    ∃ addr < size * banks, bankOf granule banks addr = b ∧ placeOf granule banks addr = o := by
  have hlt := mod_lt o hg
  have hquot : ((o / granule * banks + b) * granule + o % granule) / granule = o / granule * banks + b := by
    rw [add_comm, add_mul_div_right _ _ hg, div_eq_of_lt hlt, zero_add]
  refine ⟨(o / granule * banks + b) * granule + o % granule, ?_, ?_, ?_⟩
  · obtain ⟨m, rfl⟩ := hsize
    have hom : o / granule < m := Nat.div_lt_of_lt_mul ho
    have hrow : o / granule * banks + b + 1 ≤ m * banks := by
      have h := Nat.mul_le_mul_right banks (succ_le_of_lt hom)
      rw [succ_mul] at h
      omega
    have h := Nat.mul_le_mul_right granule hrow
    rw [add_mul, one_mul] at h
    have heq : granule * m * banks = m * banks * granule := by rw [mul_assoc, mul_comm]
    omega
  · rw [bankOf, hquot, add_comm, add_mul_mod_self_right, mod_eq_of_lt hb]
  · have hrow : (o / granule * banks + b) / banks = o / granule := by
      rw [add_comm, add_mul_div_right _ _ (zero_lt_of_lt hb), div_eq_of_lt hb, zero_add]
    rw [placeOf, ← Nat.div_div_eq_div_mul, hquot, hrow, add_comm _ (o % granule), add_mul_mod_self_right, mod_mod,
      mul_comm, div_add_mod]

theorem place_add (hg : 0 < granule) (banks : Nat) {j : Nat} (hj : addr % granule + j < granule) :
    bankOf granule banks (addr + j) = bankOf granule banks addr ∧
      placeOf granule banks (addr + j) = placeOf granule banks addr + j := by
  have hquot : (addr + j) / granule = addr / granule := by
    rw [← div_add_mod addr granule, add_assoc, mul_add_div hg, div_eq_of_lt hj, mul_add_div hg,
      div_eq_of_lt (mod_lt _ hg)]
  have hmod : (addr + j) % granule = addr % granule + j := by
    rw [← mod_eq_of_lt hj, mod_add_mod]
  refine ⟨by rw [bankOf, hquot, bankOf], ?_⟩
  rw [placeOf, placeOf, ← Nat.div_div_eq_div_mul, hquot, hmod, Nat.div_div_eq_div_mul, add_assoc]

/-! ## Powers of two -/

theorem one_shiftLeft (n : Nat) : 1 <<< n = 2 ^ n := by rw [shiftLeft_eq, one_mul]

theorem place_of_bits (slaveBits iw addr : Nat) :
    (addr >>> (slaveBits + iw)) <<< iw ||| addr &&& (if iw = 0 then 0 else 1 <<< iw - 1) =
      placeOf (1 <<< iw) (1 <<< slaveBits) addr := by
  have hmask : (if iw = 0 then 0 else 1 <<< iw - 1) = 2 ^ iw - 1 := by
    split
    case isTrue h => simp [h]
    case isFalse => rw [one_shiftLeft]
  rw [hmask, and_two_pow_sub_one_eq_mod, ← shiftLeft_add_eq_or_of_lt (mod_lt _ (Nat.two_pow_pos _)),
    shiftLeft_eq, shiftRight_eq_div_pow, placeOf, one_shiftLeft, one_shiftLeft, ← pow_add,
    add_comm slaveBits]

/-- Granules and banks that are powers of two divide the address space. -/
theorem granules_dvd {slaveBits iw : Nat} (h : slaveBits + iw ≤ w) :
    2 ^ (w - slaveBits) * (1 <<< slaveBits) = 2 ^ w ∧ 1 <<< iw ∣ 2 ^ (w - slaveBits) ∧ 1 <<< iw ∣ 2 ^ w := by
  rw [one_shiftLeft, one_shiftLeft, ← pow_add]
  exact ⟨congrArg (2 ^ ·) (by omega), Nat.pow_dvd_pow 2 (by omega), Nat.pow_dvd_pow 2 (by omega)⟩

/-! ## The bytes of a range -/

/-- The bytes of the pieces, each with its position in the range, from `offset` on. -/
def bytesFrom : Nat → List (Nat × Nat) → List (Nat × Nat)
  | _, [] => []
  | offset, (addr, n) :: rest => (List.range n).map (fun j => (addr + j, offset + j)) ++ bytesFrom (offset + n) rest

theorem pieceLength_pos (hg : 0 < granule) (addr : Nat) (hsize : size ≠ 0) : 0 < pieceLength granule addr size := by
  have hlt := mod_lt addr hg
  rw [pieceLength]
  omega

theorem pieceLength_le (granule addr size : Nat) :
    pieceLength granule addr size ≤ size ∧ pieceLength granule addr size ≤ granule - addr % granule := by
  rw [pieceLength]
  omega

theorem piecesLoop_bytes (hdvd : granule ∣ 2 ^ w) (hg : 0 < granule) :
    ∀ {fuel offset addr size : Nat}, size ≤ fuel → addr < 2 ^ w →
      bytesFrom offset (piecesLoop w granule fuel addr size) =
        (List.range size).map fun i => ((addr + i) % 2 ^ w, offset + i)
  | 0, offset, addr, size, hfuel, _ => by
    obtain rfl : size = 0 := by omega
    rfl
  | fuel + 1, offset, addr, size, hfuel, haddr => by
    rw [piecesLoop]
    split
    case isTrue hzero =>
      subst hzero
      rfl
    case isFalse hsize =>
      obtain ⟨hle, hgr⟩ := pieceLength_le granule addr size
      have hpos := pieceLength_pos hg addr hsize
      -- the end of the granule is at most that of the address space
      have hend : addr + (granule - addr % granule) ≤ 2 ^ w := by
        obtain ⟨m, hm⟩ := hdvd
        have hdiv := div_add_mod addr granule
        have hlt := mod_lt addr hg
        have hq : addr / granule < m := Nat.div_lt_of_lt_mul (by rw [← hm]; exact haddr)
        have hmul := Nat.mul_le_mul_left granule (succ_le_of_lt hq)
        rw [Nat.mul_succ, ← hm] at hmul
        omega
      generalize pieceLength granule addr size = n at hle hgr hpos ⊢
      rw [bytesFrom, piecesLoop_bytes hdvd hg (by omega) (mod_lt _ (Nat.two_pow_pos w))]
      obtain ⟨rest, rfl⟩ := Nat.exists_eq_add_of_le hle
      rw [Nat.add_sub_cancel_left, range_add, map_append, map_map]
      refine congrArg₂ (· ++ ·) (map_congr_left fun j hj => ?_) (map_congr_left fun j _ => ?_)
      · have hj := mem_range.1 hj
        rw [mod_eq_of_lt (by omega)]
      · rw [comp_apply, mod_add_mod, add_assoc, add_assoc]

theorem pieces_bytes (hdvd : granule ∣ 2 ^ w) (hg : 0 < granule) {offset : Nat} (haddr : addr < 2 ^ w) :
    bytesFrom offset (pieces w granule addr size) = (List.range size).map fun i => ((addr + i) % 2 ^ w, offset + i) :=
  piecesLoop_bytes hdvd hg le_rfl haddr

theorem piecesLoop_granule (hg : 0 < granule) : ∀ {fuel addr size : Nat},
    ∀ p ∈ piecesLoop w granule fuel addr size, 0 < p.2 ∧ p.1 % granule + p.2 ≤ granule
  | 0, _, _, p, hp => absurd hp not_mem_nil
  | fuel + 1, addr, size, p, hp => by
    rw [piecesLoop] at hp
    split at hp
    · exact absurd hp not_mem_nil
    case isFalse hsize =>
      rcases mem_cons.1 hp with rfl | hp
      · have hlt := mod_lt addr hg
        have hle := (pieceLength_le granule addr size).2
        refine ⟨pieceLength_pos hg addr hsize, ?_⟩
        dsimp only
        omega
      · exact piecesLoop_granule hg p hp

theorem pieces_granule (hg : 0 < granule) {p : Nat × Nat} (hp : p ∈ pieces w granule addr size) :
    0 < p.2 ∧ p.1 % granule + p.2 ≤ granule := piecesLoop_granule hg p hp

theorem length_bytesFrom_le : ∀ (offset : Nat) {cs : List (Nat × Nat)}, (∀ p ∈ cs, p.2 ≤ granule) →
    (bytesFrom offset cs).length ≤ granule * cs.length
  | _, [], _ => zero_le _
  | offset, (addr, n) :: rest, h => by
    have hn : n ≤ granule := h _ mem_cons_self
    have hrest := length_bytesFrom_le (offset + n) fun p hp => h p (mem_cons_of_mem _ hp)
    rw [bytesFrom, length_append, length_map, length_range, length_cons, Nat.mul_succ]
    omega

/-- A range is no longer than its pieces are together. -/
theorem size_le_pieces (hdvd : granule ∣ 2 ^ w) (hg : 0 < granule) (size : Nat) (haddr : addr < 2 ^ w) :
    size ≤ granule * (pieces w granule addr size).length := by
  have hlen := length_bytesFrom_le 0 fun p (hp : p ∈ pieces w granule addr size) =>
    (Nat.le_add_left _ _).trans (pieces_granule hg hp).2
  rwa [pieces_bytes hdvd hg haddr, length_map, length_range] at hlen

/-! ## The bytes of an access -/

/-- A byte of an access: its place in its bank, where its data is, and whether it is enabled. -/
structure BankByte where
  bank : Nat
  offset : Nat
  data : Option Nat
  enabled : Bool
  deriving DecidableEq, Repr

/-- Whether a byte is enabled; all are where there is no strobe. -/
def enabledAt (enable : Nat → Bool) (strb : Option Nat) : Bool := strb.all enable

def accessBytes (enable : Nat → Bool) (bank offset size : Nat) (data strb : Option Nat) : List BankByte :=
  (List.range size).map fun j => ⟨bank, offset + j, data.map (· + j), enabledAt enable (strb.map (· + j))⟩

/-- The byte at an address, which is at position `i` of its range. -/
def byteAt (granule banks : Nat) (enable : Nat → Bool) (data strb : Option Nat) (addr i : Nat) : BankByte :=
  ⟨bankOf granule banks addr, placeOf granule banks addr, data.map (· + i), enabledAt enable (strb.map (· + i))⟩

theorem map_add_add (x : Option Nat) (i j : Nat) : (x.map (· + i)).map (· + j) = x.map (· + (i + j)) := by
  rw [Option.map_map]
  exact congrArg (fun f => x.map f) (funext fun n => add_assoc n i j)

theorem accessBytes_granule (hg : 0 < granule) (enable : Nat → Bool) (data strb : Option Nat) {n : Nat} (i : Nat)
    (hn : addr % granule + n ≤ granule) :
    accessBytes enable (bankOf granule banks addr) (placeOf granule banks addr) n (data.map (· + i))
      (strb.map (· + i)) = (List.range n).map fun j => byteAt granule banks enable data strb (addr + j) (i + j) := by
  refine map_congr_left fun j hj => ?_
  have hj := mem_range.1 hj
  obtain ⟨hbank, hplace⟩ := place_add hg banks (by omega : addr % granule + j < granule)
  rw [byteAt, hbank, hplace, map_add_add, map_add_add]

/-- The banks of accesses that are not empty. -/
theorem mem_banks_bytes {α : Type*} {f : α → List BankByte} (bank size : α → Nat) {as : List α}
    (hf : ∀ a, (f a).map (·.bank) = List.replicate (size a) (bank a)) (hpos : ∀ a ∈ as, 0 < size a) :
    b ∈ (as.flatMap f).map (·.bank) ↔ b ∈ as.map bank := by
  rw [map_flatMap, mem_flatMap, List.mem_map]
  constructor
  · rintro ⟨a, ha, hb⟩
    rw [hf] at hb
    exact ⟨a, ha, (eq_of_mem_replicate hb).symm⟩
  · rintro ⟨a, ha, rfl⟩
    exact ⟨a, ha, by rw [hf]; exact mem_replicate.2 ⟨Nat.pos_iff_ne_zero.1 (hpos a ha), rfl⟩⟩

theorem accessBytes_banks (enable : Nat → Bool) (bank offset size : Nat) (data strb : Option Nat) :
    (accessBytes enable bank offset size data strb).map (·.bank) = List.replicate size bank := by
  rw [accessBytes, map_map]
  exact eq_replicate_iff.2 ⟨by simp, fun b hb => by
    obtain ⟨_, -, rfl⟩ := List.mem_map.1 hb
    rfl⟩

/-! ## Stores and loads -/

namespace BankByte

def place (b : BankByte) : Nat × Nat := (b.bank, b.offset)

end BankByte

variable {β : Type*}

/-- The enabled bytes are stored, `d` being the byte at a data pointer. -/
def storeBytes (m : Nat × Nat → β) (d : Option Nat → β) (bs : List BankByte) : Nat × Nat → β :=
  bs.foldl (fun m b => if b.enabled then update m b.place (d b.data) else m) m

def loadBytes (m : Nat × Nat → β) (bs : List BankByte) : List β := bs.map fun b => m b.place

theorem storeBytes_of_notMem (d : Option Nat → β) : ∀ (bs : List BankByte) (m : Nat × Nat → β) {a : Nat × Nat},
    a ∉ bs.map BankByte.place → storeBytes m d bs a = m a
  | [], _, _, _ => rfl
  | b :: bs, m, a, h => by
    rw [map_cons, mem_cons, not_or] at h
    rw [storeBytes, foldl_cons]
    refine (storeBytes_of_notMem d bs _ h.2).trans ?_
    split
    · exact update_of_ne h.1 _ _
    · rfl

theorem loadBytes_storeBytes (d : Option Nat → β) : ∀ (bs : List BankByte) (m : Nat × Nat → β),
    (bs.map BankByte.place).Nodup →
      loadBytes (storeBytes m d bs) bs = bs.map fun b => if b.enabled then d b.data else m b.place
  | [], _, _ => rfl
  | b :: bs, m, h => by
    rw [map_cons, nodup_cons] at h
    rw [loadBytes, storeBytes, foldl_cons, map_cons, map_cons]
    refine congrArg₂ List.cons ((storeBytes_of_notMem d bs _ h.1).trans ?_) ?_
    · split
      · exact update_self _ _ _
      · rfl
    · refine (loadBytes_storeBytes d bs _ h.2).trans (map_congr_left fun x hx => ?_)
      have hne : x.place ≠ b.place := fun heq => h.1 (heq ▸ List.mem_map_of_mem hx)
      cases b.enabled <;> simp [update_of_ne hne]

theorem loadBytes_congr (m : Nat × Nat → β) {bs bs' : List BankByte}
    (h : bs.map BankByte.place = bs'.map BankByte.place) :
    loadBytes m bs = loadBytes m bs' := by
  have hmap : ∀ l : List BankByte, loadBytes m l = (l.map BankByte.place).map m := fun l => by rw [map_map]; rfl
  rw [hmap, hmap, h]

/-! ## The views of an access -/

/-- The banks are bijective with the addresses: `banks` of them, with `size` bytes each. -/
structure Decodes (banks size : Nat) (bank offset : Nat → Nat) : Prop where
  injective : ∀ a < size * banks, ∀ a' < size * banks, bank a = bank a' → offset a = offset a' → a = a'
  onto : ∀ b < banks, ∀ o < size, ∃ a < size * banks, bank a = b ∧ offset a = o

theorem decodes_place (hg : 0 < granule) (hsize : granule ∣ size) :
    Decodes banks size (bankOf granule banks) (placeOf granule banks) :=
  ⟨fun _ _ _ _ => place_injective hg, fun _ hb _ ho => place_surjective hg hsize hb ho⟩

/-- The bytes of one access by three paths, and the banks that it claims. -/
structure Views where
  narrow : List BankByte
  wide : List BankByte
  backdoor : List BankByte
  claimed : Nat → Bool

/-- The paths take each byte to the same place, with the same data and strobe (the backdoor has no strobe); what is
written by one of them is read back by each. -/
structure Views.Agree (v : Views) : Prop where
  wide : v.wide = v.narrow
  backdoor : v.backdoor.map (fun b => (b.place, b.data)) = v.narrow.map fun b => (b.place, b.data)
  claimed : ∀ b, v.claimed b = true ↔ b ∈ v.wide.map (·.bank)
  readBack : ∀ bs ∈ [v.narrow, v.wide, v.backdoor], ∀ bs' ∈ [v.narrow, v.wide, v.backdoor],
    ∀ (m : Nat × Nat → Nat) (d : Option Nat → Nat),
      loadBytes (storeBytes m d bs) bs' = bs.map fun b => if b.enabled then d b.data else m b.place

/-- Where the paths have the same bytes, at places of their own, what is written by one is read back by each. -/
theorem Views.agree_of_wide {v : Views} (hwide : v.wide = v.narrow)
    (hback : v.backdoor.map (fun b => (b.place, b.data)) = v.narrow.map fun b => (b.place, b.data))
    (hclaimed : ∀ b, v.claimed b = true ↔ b ∈ v.wide.map (·.bank)) (hnodup : (v.narrow.map BankByte.place).Nodup) :
      v.Agree := by
  have hplaces : v.backdoor.map BankByte.place = v.narrow.map BankByte.place := by
    have h := congrArg (List.map Prod.fst) hback
    rwa [map_map, map_map] at h
  have hall : ∀ bs ∈ [v.narrow, v.wide, v.backdoor], bs.map BankByte.place = v.narrow.map BankByte.place := by
    intro bs hbs
    simp only [mem_cons, not_mem_nil, or_false] at hbs
    rcases hbs with rfl | rfl | rfl
    · rfl
    · rw [hwide]
    · exact hplaces
  refine ⟨hwide, hback, hclaimed, fun bs hbs bs' hbs' m d => ?_⟩
  rw [loadBytes_congr _ ((hall bs' hbs').trans (hall bs hbs).symm),
    loadBytes_storeBytes d bs m (by rw [hall bs hbs]; exact hnodup)]

/-! ## Ranges of bytes -/

def rangeBytes (w granule banks : Nat) (enable : Nat → Bool) (data strb : Option Nat) (addr size : Nat) :
    List BankByte :=
  (List.range size).map fun i => byteAt granule banks enable data strb ((addr + i) % 2 ^ w) i

theorem rangeBytes_nodup (hg : 0 < granule) (enable : Nat → Bool) (data strb : Option Nat)
    (hsize : size ≤ 2 ^ w) : ((rangeBytes w granule banks enable data strb addr size).map BankByte.place).Nodup := by
  rw [rangeBytes, map_map]
  refine (nodup_map_iff_inj_on nodup_range).2 fun i hi j hj heq => ?_
  have hi := mem_range.1 hi
  have hj := mem_range.1 hj
  have haddr := place_injective hg (congrArg Prod.fst heq) (congrArg Prod.snd heq)
  exact (Nat.ModEq.add_left_cancel' addr haddr).eq_of_lt_of_lt (by omega) (by omega)

section Pieces

variable (hdvd : granule ∣ 2 ^ w) (hg : 0 < granule) (haddr : addr < 2 ^ w)
include hdvd hg haddr

theorem pieces_rangeBytes (enable : Nat → Bool) (data strb : Option Nat) :
    (bytesFrom 0 (pieces w granule addr size)).map (fun p => byteAt granule banks enable data strb p.1 p.2) =
      rangeBytes w granule banks enable data strb addr size := by
  rw [pieces_bytes hdvd hg haddr, map_map, rangeBytes]
  refine map_congr_left fun i _ => ?_
  rw [Function.comp_apply, zero_add]

/-- An access of at most one granule for each bank fits into the address space. -/
theorem size_le_of_pieces {bankSize : Nat} (hbanks : bankSize * banks = 2 ^ w) (hrow : granule ∣ bankSize)
    (hlen : (pieces w granule addr size).length ≤ banks) : size ≤ 2 ^ w := by
  have hpos : 0 < bankSize := Nat.pos_of_mul_pos_right (hbanks ▸ Nat.two_pow_pos w)
  calc size ≤ granule * (pieces w granule addr size).length := size_le_pieces hdvd hg size haddr
    _ ≤ granule * banks := Nat.mul_le_mul_left _ hlen
    _ ≤ bankSize * banks := Nat.mul_le_mul_right _ (Nat.le_of_dvd hpos hrow)
    _ = 2 ^ w := hbanks

end Pieces

end GvsocPulp.Lib
