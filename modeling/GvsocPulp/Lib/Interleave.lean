import Mathlib

/-!
# Interleaved banks

A range of bytes that is cut at the multiples of a granule, over `2 ^ w` addresses, and banks that take the granules in
turn.

- `pieces`: the address and the length of each piece of the range;
- `pieces_banks`: the pieces go to successive banks;
- `pieces_nodup`: so no bank gets two iff there are at most as many pieces as banks.
-/

namespace GvsocPulp.Lib

open List Nat

def pieceLength (granule addr size : Nat) : Nat := min (granule - addr % granule) size

/-- The pieces of `size` bytes from `addr`, cut at the multiples of `granule`; the fuel bounds their number. -/
def piecesLoop (w granule : Nat) : Nat → Nat → Nat → List (Nat × Nat)
  | 0, _, _ => []
  | fuel + 1, addr, size =>
    if size = 0 then []
    else
      (addr, pieceLength granule addr size) :: piecesLoop w granule fuel
        ((addr + pieceLength granule addr size) % 2 ^ w) (size - pieceLength granule addr size)

/-- The pieces of `size` bytes from `addr`: each has at least one byte. -/
def pieces (w granule addr size : Nat) : List (Nat × Nat) := piecesLoop w granule size addr size

def bankOf (granule banks addr : Nat) : Nat := addr / granule % banks

variable {w granule banks : Nat}

/-- The bank that follows the end of a granule, also around the end of the address space. -/
theorem bankOf_next (hw : granule * banks ∣ 2 ^ w) (hg : 0 < granule) (addr : Nat) :
    bankOf granule banks ((addr + (granule - addr % granule)) % 2 ^ w) = (bankOf granule banks addr + 1) % banks := by
  obtain ⟨m, hm⟩ := hw
  have hsum : addr + (granule - addr % granule) = granule * (addr / granule + 1) := by
    have hlt := mod_lt addr hg
    have hdiv := div_add_mod addr granule
    rw [mul_add, mul_one]
    omega
  have hquot : (addr + (granule - addr % granule)) % 2 ^ w / granule = (addr / granule + 1) % (banks * m) := by
    rw [hsum, hm, mul_assoc, mul_mod_mul_left, Nat.mul_div_cancel_left _ hg]
  rw [bankOf, hquot, mod_mul_right_mod, bankOf, mod_add_mod]

theorem piecesLoop_banks (hw : granule * banks ∣ 2 ^ w) (hg : 0 < granule) :
    ∀ {fuel addr size : Nat}, (piecesLoop w granule fuel addr size).map (fun p => bankOf granule banks p.1) =
      (range (piecesLoop w granule fuel addr size).length).map fun k => (bankOf granule banks addr + k) % banks
  | 0, _, _ => rfl
  | fuel + 1, addr, size => by
    rw [piecesLoop]
    split
    case isTrue => rfl
    case isFalse hsize =>
      have hbank : bankOf granule banks addr % banks = bankOf granule banks addr := mod_mod _ _
      rcases lt_or_ge (granule - addr % granule) size with hlt | hge
      · rw [pieceLength, min_eq_left hlt.le, map_cons, length_cons, range_succ_eq_map, map_cons,
          map_map, piecesLoop_banks hw hg, bankOf_next hw hg]
        refine congrArg₂ cons hbank.symm (map_congr_left fun k _ => ?_)
        rw [mod_add_mod, add_assoc, add_comm 1 k]
        rfl
      · -- the last piece
        rw [pieceLength, min_eq_right hge, tsub_self]
        have hnil : piecesLoop w granule fuel ((addr + size) % 2 ^ w) 0 = [] := by cases fuel <;> rfl
        simp [hnil, hbank]

theorem pieces_banks (hw : granule * banks ∣ 2 ^ w) (hg : 0 < granule) (addr size : Nat) :
    (pieces w granule addr size).map (fun p => bankOf granule banks p.1) =
      (range (pieces w granule addr size).length).map fun k => (bankOf granule banks addr + k) % banks :=
  piecesLoop_banks hw hg

theorem range_shift_nodup {banks n a : Nat} (hb : 0 < banks) :
    ((range n).map fun k => (a + k) % banks).Nodup ↔ n ≤ banks := by
  constructor
  · intro h
    have hsub : ((range n).map fun k => (a + k) % banks) ⊆ range banks := by
      intro b hmem
      obtain ⟨k, -, rfl⟩ := mem_map.1 hmem
      exact mem_range.2 (mod_lt _ hb)
    have hle := (subperm_of_subset h hsub).length_le
    rwa [length_map, length_range, length_range] at hle
  · intro h
    refine (nodup_map_iff_inj_on nodup_range).2 fun k hk k' hk' heq => ?_
    have hk := mem_range.1 hk
    have hk' := mem_range.1 hk'
    exact (Nat.ModEq.add_left_cancel' a heq).eq_of_lt_of_lt (by omega) (by omega)

theorem pieces_nodup (hw : granule * banks ∣ 2 ^ w) (hg : 0 < granule) (hb : 0 < banks) (addr size : Nat) :
    ((pieces w granule addr size).map fun p => bankOf granule banks p.1).Nodup ↔
      (pieces w granule addr size).length ≤ banks := by
  rw [pieces_banks hw hg, range_shift_nodup hb]

end GvsocPulp.Lib
