import GvsocPulp.UdmaV3.Core

/-!
# The words of a transfer

What a transfer was programmed to move: the words of a TX transfer (`words`), the byte addresses of an RX transfer
(`addrs`). `Transfer.At m` says that `m` words of it have been prepared; the next one is then the word `m`
(`At.wordReq`, `At.writeAddrs`), and it is the last one if there are `m + 1` of them (`At.isLast`).
-/

namespace GvsocPulp.UdmaV3

open List BitVec

def nbWords (size : Word) : Nat := (size.toNat + 3) / 4

/-- The word `i` of a transfer: four bytes, but for a partial last word. -/
def word (job : Word × Word) (i : Nat) : Word × Int :=
  (job.1 + BitVec.ofNat 32 (4 * i), if 4 * i + 4 ≤ job.2.toNat then 4 else (job.2.toNat % 4 : Nat))

/-- What the peripheral of a TX channel is to be handed of a transfer. -/
def words (job : Word × Word) : List (Word × Int) := (List.range (nbWords job.2)).map (word job)

/-- The addresses an RX transfer is to write, byte after byte. -/
def addrs (job : Word × Word) : List Word := (List.range job.2.toNat).map fun i => job.1 + BitVec.ofNat 32 i

/-- Where a write stores its valid bytes, and what it stores there. -/
def Write.addrs (w : Write) : List Word := (List.range w.actualSize.toNat).map fun i => w.addr + BitVec.ofNat 32 i

def Write.bytes (w : Write) : List Byte := w.data.take w.actualSize.toNat

/-- `m` words of the transfer have been prepared. -/
structure Transfer.At (t : Transfer) (m : Nat) : Prop where
  addr : t.currentAddr = t.addr + BitVec.ofNat 32 (4 * m)
  remaining : t.remainingSize.toInt = (t.size.toNat : Int) - 4 * m
  pos : 0 < t.size.toInt

theorem toNat_pos_lt {size : Word} (h : 0 < size.toInt) : 0 < size.toNat ∧ size.toNat < 2 ^ 31 := by
  rw [toInt_eq_toNat_cond] at h
  split at h <;> omega

@[simp] theorem length_words (job : Word × Word) : (words job).length = nbWords job.2 := by simp [words]

@[simp] theorem length_addrs (job : Word × Word) : (addrs job).length = job.2.toNat := by simp [addrs]

theorem take_words_succ {job : Word × Word} {m : Nat} (h : m < nbWords job.2) :
    (words job).take (m + 1) = (words job).take m ++ [word job m] := by
  rw [take_add_one]
  congr 1
  simp [words, h]

theorem take_words_all (job : Word × Word) : (words job).take (nbWords job.2) = words job := by
  rw [← length_words, take_length]

theorem take_addrs_add {job : Word × Word} {n k : Nat} (h : n + k ≤ job.2.toNat) :
    (addrs job).take (n + k) = (addrs job).take n ++
      (List.range k).map fun i => job.1 + BitVec.ofNat 32 n + BitVec.ofNat 32 i := by
  have hrange : (List.range job.2.toNat).take (n + k) = (List.range job.2.toNat).take n ++
    (List.range k).map (n + ·) := by
    rw [take_range, take_range, Nat.min_eq_left h, Nat.min_eq_left (by omega), range_add]
  rw [addrs, ← map_take, hrange, map_append, map_take, List.map_map]
  congr 1
  apply map_congr_left
  intro i _
  simp [ofNat_add, BitVec.add_assoc]

theorem take_addrs_all (job : Word × Word) : (addrs job).take job.2.toNat = addrs job := by
  rw [← length_addrs, take_length]

namespace Transfer

@[simp] theorem job_prepareReq (t : Transfer) : t.prepareReq.job = t.job := rfl
@[simp] theorem size_prepareReq (t : Transfer) : t.prepareReq.size = t.size := rfl
@[simp] theorem job_snd (t : Transfer) : t.job.2 = t.size := rfl

variable {t : Transfer} {m : Nat}

theorem At.start (haddr : t.currentAddr = t.addr) (hsize : t.remainingSize = t.size) (hpos : 0 < t.size.toInt) :
    t.At 0 := by
  obtain ⟨_, hlt⟩ := toNat_pos_lt hpos
  refine ⟨by simp [haddr], ?_, hpos⟩
  rw [hsize, toInt_eq_toNat_of_lt (by omega)]
  simp

theorem At.congr {t' : Transfer} (h : t.At m) (hjob : t'.job = t.job) (haddr : t'.currentAddr = t.currentAddr)
    (hsize : t'.remainingSize = t.remainingSize) : t'.At m := by
  have h₁ : t'.addr = t.addr := congrArg Prod.fst hjob
  have h₂ : t'.size = t.size := congrArg Prod.snd hjob
  exact ⟨by rw [haddr, h₁, h.addr], by rw [hsize, h₂, h.remaining], by rw [h₂]; exact h.pos⟩

section

variable (h : t.At m) (hm : 4 * m < t.size.toNat)
include h hm

theorem At.remaining_sub :
    (t.remainingSize - 4).toInt = (t.size.toNat : Int) - 4 * (m + 1) := by
  obtain ⟨_, hlt⟩ := toNat_pos_lt h.pos
  have hrem := h.remaining
  rw [toInt_sub, hrem]
  have h4 : (4 : Word).toInt = 4 := rfl
  rw [h4, Int.bmod_eq_of_le] <;> omega

theorem At.prepareReq : t.prepareReq.At (m + 1) := by
  refine ⟨?_, ?_, h.pos⟩
  · have h4 : BitVec.ofNat 32 (4 * (m + 1)) = BitVec.ofNat 32 (4 * m) + 4 := by
      rw [Nat.mul_succ, ofNat_add]
      rfl
    show t.currentAddr + 4 = t.addr + _
    rw [h.addr, h4, BitVec.add_assoc]
  · show (t.remainingSize - 4).toInt = _
    rw [h.remaining_sub hm]
    push_cast
    rfl

theorem At.isLast : t.isLast = decide (t.size.toNat ≤ 4 * (m + 1)) := by
  rw [Transfer.isLast, h.remaining_sub hm]
  apply decide_eq_decide.2
  omega

end

theorem At.actualSize (h : t.At m) : t.actualSize = if 4 * m + 4 ≤ t.size.toNat then 4
    else (t.size.toNat : Int) - 4 * m := by
  rw [Transfer.actualSize, h.remaining]
  split <;> split <;> omega

theorem lt_nbWords_iff {size : Word} : m < nbWords size ↔ 4 * m < size.toNat := by
  rw [nbWords]
  omega

theorem At.wordReq (h : t.At m) (hm : m < nbWords t.size) (id ch : Nat) :
    (Udma.wordReq id ch t).key = word t.job m := by
  have hm := lt_nbWords_iff.1 hm
  show (t.currentAddr, t.actualSize) = _
  rw [h.addr, h.actualSize, word]
  refine Prod.ext rfl ?_
  show _ = ite (4 * m + 4 ≤ t.size.toNat) _ _
  split
  case isTrue => rfl
  case isFalse hlt =>
    show _ = ((t.size.toNat % 4 : Nat) : Int)
    omega

theorem At.writeAddrs (h : t.At m) (hm : 4 * m < t.size.toNat) (ch : Nat) (data : List Byte) :
    (addrs t.job).take (4 * m) ++ Write.addrs ⟨ch, t.currentAddr, data, t.actualSize⟩ =
      (addrs t.job).take (4 * m + t.actualSize.toNat) := by
  have hle : 4 * m + t.actualSize.toNat ≤ t.job.2.toNat := by
    rw [h.actualSize, job_snd]
    split <;> omega
  rw [take_addrs_add hle, Write.addrs, h.addr]
  rfl

end Transfer

end GvsocPulp.UdmaV3
