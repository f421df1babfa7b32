import GvsocPulp.Lib.Feeder

/-!
# The 2D middle-end of the iDMA v2

`IDmaMe2D` (`me/idma_me_2d.cpp`): a queue of transfers that go to the back-end line by line. `IdmaTransfer.lines` is
what the lines of a transfer are, whatever the cursor of the middle-end.
-/

namespace GvsocPulp.IdmaV2

/-- `IdmaTransfer`, as the front-end fills it. -/
structure IdmaTransfer where
  src : BitVec 64 := 0
  dst : BitVec 64 := 0
  size : BitVec 64 := 0
  srcStride : BitVec 64 := 0
  dstStride : BitVec 64 := 0
  reps : BitVec 64 := 0
  config : BitVec 64 := 0
  deriving DecidableEq, Repr

namespace IdmaTransfer

/-- `(config >> 1) & 1` -/
def is2d (t : IdmaTransfer) : Bool := t.config.getLsbD 1

def isEmpty (t : IdmaTransfer) : Bool := t.size == 0 || t.is2d && t.reps == 0

def nbLines (t : IdmaTransfer) : Nat := if t.is2d then t.reps.toNat else 1

end IdmaTransfer

/-- A line, as the back-end gets it. -/
structure Burst where
  src : BitVec 64
  dst : BitVec 64
  size : BitVec 64
  deriving DecidableEq, Repr

/-- `current_src`, `current_dst` and `current_reps` -/
structure Cursor where
  src : BitVec 64
  dst : BitVec 64
  reps : BitVec 64
  deriving DecidableEq, Repr

/-- How `IDmaMe2D::fsm_handler` cuts a transfer. -/
def me2d : Lib.Cutter IdmaTransfer Cursor Burst where
  start t := { src := t.src, dst := t.dst, reps := if t.is2d then t.reps else 1 }
  piece t c := { src := c.src, dst := c.dst, size := t.size }
  next t c :=
    if c.reps - 1 = 0 then none
    else some { src := c.src + t.srcStride, dst := c.dst + t.dstStride, reps := c.reps - 1 }

abbrev IDmaMe2D := Lib.Feeder IdmaTransfer Cursor Burst

def IDmaMe2D.canAcceptTransfer (transferQueueSize : Nat) (me : IDmaMe2D) : Bool := me.queue.length < transferQueueSize

def linesFrom (t : IdmaTransfer) : Nat → BitVec 64 → BitVec 64 → List Burst
  | 0, _, _ => []
  | n + 1, src, dst => { src := src, dst := dst, size := t.size } :: linesFrom t n (src + t.srcStride)
      (dst + t.dstStride)

/-- Each line is a stride after the one before. -/
def IdmaTransfer.lines (t : IdmaTransfer) : List Burst := linesFrom t t.nbLines t.src t.dst

theorem cutsInto_linesFrom (t : IdmaTransfer) (n : Nat) : ∀ {c : Cursor}, c.reps.toNat = n + 1 →
    Lib.CutsInto me2d t c (linesFrom t (n + 1) c.src c.dst) := by
  induction n with
  | zero =>
    intro c hc
    have hreps : c.reps = 1 := BitVec.eq_of_toNat_eq (by rw [hc]; rfl)
    refine .last ?_
    show (if c.reps - 1 = 0 then none else _) = none
    rw [if_pos (by rw [hreps]; rfl)]
  | succ n ih =>
    intro c hc
    have hpred : (c.reps - 1).toNat = n + 1 := by bv_omega
    refine .cons ?_ (ih (c := { src := c.src + t.srcStride, dst := c.dst + t.dstStride, reps := c.reps - 1 }) hpred)
    show (if c.reps - 1 = 0 then none else _) = _
    rw [if_neg fun h => by rw [h] at hpred; exact absurd hpred (by simp)]

theorem start_reps (t : IdmaTransfer) : (me2d.start t).reps.toNat = t.nbLines := by
  show (if t.is2d then t.reps else 1).toNat = if t.is2d then t.reps.toNat else 1
  split <;> rfl

theorem nbLines_ne_zero {t : IdmaTransfer} (ht : t.isEmpty = false) : t.nbLines ≠ 0 := by
  rw [IdmaTransfer.isEmpty, Bool.or_eq_false_iff] at ht
  unfold IdmaTransfer.nbLines
  split
  case isTrue h2d =>
    have hne : t.reps ≠ 0 := by simpa [h2d] using ht.2
    exact fun h => hne (BitVec.eq_of_toNat_eq h)
  case isFalse => exact Nat.one_ne_zero

theorem cutsInto_lines {t : IdmaTransfer} (ht : t.isEmpty = false) : Lib.CutsInto me2d t (me2d.start t) t.lines := by
  obtain ⟨n, hn⟩ := Nat.exists_eq_succ_of_ne_zero (nbLines_ne_zero ht)
  have hcuts := cutsInto_linesFrom t n ((start_reps t).trans hn)
  rwa [← Nat.succ_eq_add_one, ← hn] at hcuts

end GvsocPulp.IdmaV2
