import GvsocPulp.Cv32e40p.Cosim

/-!
# Loads and regions

What a load has to do with the regions, without the 32-bit sums of the code, and when the code finds it out
(`reach_outside`, `reach_inside`, `reach_crosses`); and the data that a load gets (`extend_eq`).
-/

namespace GvsocPulp.Cv32e40p

open List BitVec

variable {regions : List Region} {l : Load} {r : Region}

/-! ## Where a load lies -/

namespace Region

/-- The load has bytes in the region, and its data are not in the memory of the model. -/
def Touches (r : Region) (l : Load) : Prop :=
  r.kind ≠ .ram ∧ r.base.toNat < l.address.toNat + l.size.toNat ∧ l.address.toNat < r.base.toNat + r.length.toNat

def Holds (r : Region) (l : Load) : Prop :=
  r.Touches l ∧ r.base.toNat ≤ l.address.toNat ∧ l.address.toNat + l.size.toNat ≤ r.base.toNat + r.length.toNat

def Crosses (r : Region) (l : Load) : Prop := r.Touches l ∧ ¬r.Holds l

/-- A sum of `load` does not fit in 32 bits: the end of the region or of the load. -/
def Wraps (r : Region) (l : Load) : Prop :=
  2 ^ 32 ≤ r.base.toNat + r.length.toNat ∨ 2 ^ 32 ≤ l.address.toNat + l.size.toNat

instance (r : Region) (l : Load) : Decidable (r.Touches l) := inferInstanceAs (Decidable (_ ∧ _))

instance (r : Region) (l : Load) : Decidable (r.Holds l) := inferInstanceAs (Decidable (_ ∧ _))

instance (r : Region) (l : Load) : Decidable (r.Crosses l) := inferInstanceAs (Decidable (_ ∧ _))

instance (r : Region) (l : Load) : Decidable (r.Wraps l) := inferInstanceAs (Decidable (_ ∨ _))

theorem reach_of_not_touches (h : ¬r.Touches l) : r.reach l.address l.size = .outside := by
  have hlen := r.length.isLt
  have hbase := r.base.isLt
  have haddress := l.address.isLt
  have hsize := l.size.isLt
  rw [reach, if_pos]
  by_cases hram : r.kind = .ram
  · exact .inl hram
  · right
    rw [le_def, le_def, toNat_add, toNat_add]
    by_cases hbelow : l.address.toNat + l.size.toNat ≤ r.base.toNat
    · left
      rw [Nat.mod_eq_of_lt (by omega)]
      exact hbelow
    · right
      have habove : r.base.toNat + r.length.toNat ≤ l.address.toNat :=
        not_lt.1 fun hlt => h ⟨hram, not_le.1 hbelow, hlt⟩
      rw [Nat.mod_eq_of_lt (by omega)]
      exact habove

/-- Where no sum wraps the code sees what the load has to do with the region. -/
theorem reach_of_touches (h : r.Touches l) (hwraps : ¬r.Wraps l) :
    r.reach l.address l.size = if r.Holds l then .inside else .crosses := by
  have hend : r.base.toNat + r.length.toNat < 2 ^ 32 := not_le.1 fun hle => hwraps (.inl hle)
  have hlast : l.address.toNat + l.size.toNat < 2 ^ 32 := not_le.1 fun hle => hwraps (.inr hle)
  obtain ⟨hram, hbelow, habove⟩ := h
  simp only [reach, le_def, lt_def, toNat_add, Nat.mod_eq_of_lt hend, Nat.mod_eq_of_lt hlast]
  rw [if_neg]
  · by_cases hholds : r.Holds l
    · rw [if_pos hholds, if_neg]
      rintro (hlt | hlt)
      · exact not_lt.2 hholds.2.1 hlt
      · exact not_lt.2 hholds.2.2 hlt
    · rw [if_neg hholds, if_pos]
      by_cases hlt : l.address.toNat < r.base.toNat
      · exact .inl hlt
      · exact .inr (not_le.1 fun hle => hholds ⟨⟨hram, hbelow, habove⟩, not_lt.1 hlt, hle⟩)
  · rintro (hkind | hle | hle)
    · exact hram hkind
    · exact not_lt.2 hle hbelow
    · exact not_lt.2 hle habove

end Region

namespace Load

/-- The data of the load are in a region that is not in the memory of the model. -/
def External (regions : List Region) (l : Load) : Prop := ∃ r ∈ regions, r.Holds l

def Crosses (regions : List Region) (l : Load) : Prop := ∃ r ∈ regions, r.Crosses l

/-- The code can tell what the load has to do with the regions: no sum wraps at a region that it touches, and no region
holds it that comes before one whose boundary it crosses. -/
def Clear (regions : List Region) (l : Load) : Prop :=
  (∀ r ∈ regions, r.Touches l → ¬r.Wraps l) ∧ regions.Pairwise fun r r' => ¬(r.Holds l ∧ r'.Crosses l)

instance (regions : List Region) (l : Load) : Decidable (l.External regions) :=
    inferInstanceAs (Decidable (∃ r ∈ regions, _))

instance (regions : List Region) (l : Load) : Decidable (l.Clear regions) := inferInstanceAs (Decidable (_ ∧ _))

end Load

theorem Load.Clear.tail {rs : List Region} (h : l.Clear (r :: rs)) : l.Clear rs :=
  ⟨fun r' hr' => h.1 r' (mem_cons_of_mem _ hr'), (pairwise_cons.1 h.2).2⟩

theorem reach_cons {rs : List Region} (h : l.Clear (r :: rs)) : reach (r :: rs) l.address l.size =
    if r.Touches l then if r.Holds l then .inside else .crosses else reach rs l.address l.size := by
  by_cases htouches : r.Touches l
  · have hr := Region.reach_of_touches htouches (h.1 r mem_cons_self htouches)
    rw [reach, hr, if_pos htouches, if_neg]
    split_ifs <;> decide
  · rw [reach, if_pos (Region.reach_of_not_touches htouches), if_neg htouches]

theorem reach_outside (h : l.Clear regions) (hreach : reach regions l.address l.size = .outside) :
    ∀ r ∈ regions, ¬r.Touches l := by
  induction regions with
  | nil => exact nofun
  | cons r rs ih =>
    rw [reach_cons h] at hreach
    split_ifs at hreach with htouches
    intro r' hr'
    rcases mem_cons.1 hr' with rfl | hr'
    · exact htouches
    · exact ih h.tail hreach r' hr'

theorem reach_inside (h : l.Clear regions) (hreach : reach regions l.address l.size = .inside) :
    l.External regions ∧ ¬l.Crosses regions := by
  induction regions with
  | nil => exact nomatch hreach
  | cons r rs ih =>
    rw [reach_cons h] at hreach
    split_ifs at hreach with htouches hholds
    · refine ⟨⟨r, mem_cons_self, hholds⟩, ?_⟩
      rintro ⟨r', hr', hcrosses⟩
      rcases mem_cons.1 hr' with rfl | hr'
      · exact hcrosses.2 hholds
      · exact (pairwise_cons.1 h.2).1 r' hr' ⟨hholds, hcrosses⟩
    · obtain ⟨⟨r', hr', hholds⟩, hno⟩ := ih h.tail hreach
      refine ⟨⟨r', mem_cons_of_mem _ hr', hholds⟩, ?_⟩
      rintro ⟨q, hq, hcrosses⟩
      rcases mem_cons.1 hq with rfl | hq
      · exact htouches hcrosses.1
      · exact hno ⟨q, hq, hcrosses⟩

/-! ## The data of a load -/

namespace Load

variable (l : Load) (data : Word)

def bytes : Word := (data.setWidth (8 * l.size.toNat)).setWidth 32

def value : Word := if l.isSigned then (data.setWidth (8 * l.size.toNat)).signExtend 32 else l.bytes data

theorem getLsbD_sizeMask (size : Word) {i : Nat} (hi : i < 32) :
    (sizeMask size).getLsbD i = decide (i < 8 * size.toNat) := by
  rw [sizeMask]
  split_ifs with hsize
  · have hall : (0xFFFFFFFF : Word) = allOnes 32 := rfl
    rw [hall, getLsbD_allOnes]
    simp only [hi, decide_true]
    exact (decide_eq_true (by omega)).symm
  · have hsmall : ∀ n < 4, ∀ i < 32, (((1 <<< (8 * n) : Nat) : Word) - 1).getLsbD i = decide (i < 8 * n) := by decide
    exact hsmall size.toNat (not_le.1 hsize) i hi

theorem and_sizeMask : data &&& sizeMask l.size = l.bytes data := by
  apply eq_of_getLsbD_eq
  intro i hi
  rw [getLsbD_and, getLsbD_sizeMask _ hi, bytes, getLsbD_setWidth, getLsbD_setWidth]
  simp only [hi, decide_true, Bool.true_and]
  exact Bool.and_comm _ _

theorem extend_eq : l.extend data = l.value data := by
  rw [extend, value]
  simp only [and_sizeMask]
  cases hsigned : l.isSigned with
  | false => rfl
  | true =>
    by_cases hsize : l.size.toNat < 4
    · have hmsb : (data.setWidth (8 * l.size.toNat)).msb = (l.bytes data).getLsbD (8 * l.size.toNat - 1) := by
        rw [msb_eq_getLsbD_last, bytes, getLsbD_setWidth 32, decide_eq_true (by omega), Bool.true_and]
      apply eq_of_getLsbD_eq
      intro i hi
      rw [if_pos rfl, getLsbD_signExtend, hmsb, decide_eq_true hi, Bool.true_and]
      have hbyte : (l.bytes data).getLsbD i = (data.setWidth (8 * l.size.toNat)).getLsbD i := by
        rw [bytes, getLsbD_setWidth 32, decide_eq_true hi, Bool.true_and]
      have hmask := getLsbD_sizeMask l.size hi
      split_ifs with hneg hlow hlow
      · rw [getLsbD_or, getLsbD_not, hmask, hbyte]
        simp [hlow]
      · rw [getLsbD_or, getLsbD_not, hmask, hneg.2.2]
        simp [hlow, hi]
      · exact hbyte
      · rw [hbyte, getLsbD_of_ge _ _ (not_lt.1 hlow)]
        exact (Bool.eq_false_iff.2 fun hlast => hneg ⟨rfl, hsize, hlast⟩).symm
    · rw [if_neg fun h => hsize h.2.1, if_pos rfl, bytes, signExtend_eq_setWidth_of_le _ (by omega)]

end Load

end GvsocPulp.Cv32e40p
