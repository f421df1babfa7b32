import GvsocPulp.IdmaV3.Transfers

/-!
# The lines of an ND transfer

`ndLines` lists the lines of an ND request page by page, from its strides alone; `IdmaMeNd` builds them one at a time,
with cursors that advance by a stride after each line.

- `CursorAt`: the cursors after `n` lines; `build1d_line`: the next line is the `n`-th of the list, and the cursors
  advance to `n + 1`.
-/

namespace GvsocPulp.IdmaV3

open MidEnd List Nat

section Lines

variable (cfg : StreamConfig) (req : NdReq)

def pageLines : Nat := (dimReps cfg 0 req req.dim2).toNat

def pages : Nat := (dimReps cfg 1 req req.dim3).toNat

def nbLines : Nat := pages cfg req * pageLines cfg req

/-- How far line `j` of page `k` is from the first line: a page starts the third stride after the last line of the page
before. -/
def lineOffset (stride2 stride3 : BitVec 64) (k j : Nat) : BitVec 64 :=
  BitVec.ofNat 64 k * (BitVec.ofNat 64 (pageLines cfg req - 1) * stride2 + stride3) + BitVec.ofNat 64 j * stride2

def ndLine (k j : Nat) : Line where
  src := req.src + lineOffset cfg req req.dim2.srcStride req.dim3.srcStride k j
  dst := req.dst + lineOffset cfg req req.dim2.dstStride req.dim3.dstStride k j
  length := req.length
  srcProt := req.srcProt
  dstProt := req.dstProt
  decoupleRw := req.decoupleRw
  decoupleAw := req.decoupleAw
  superLast := k + 1 = pages cfg req ∧ j + 1 = pageLines cfg req
  parent := req

def ndLines : List Line :=
  (List.range (pages cfg req)).flatMap fun k => (List.range (pageLines cfg req)).map fun j => ndLine cfg req k j

variable {cfg req}

theorem dimReps_pos (i : Nat) (dim : Dim) : 0 < (dimReps cfg i req dim).toNat := by
  unfold dimReps
  split
  · next h =>
    have hne : dim.reps.toNat ≠ 0 := by
      intro h0
      exact h.2.2 (BitVec.eq_of_toNat_eq h0)
    omega
  · simp

theorem pageLines_pos : 0 < pageLines cfg req := dimReps_pos 0 req.dim2

theorem pages_pos : 0 < pages cfg req := dimReps_pos 1 req.dim3

theorem ndLines_eq :
    ndLines cfg req = (List.range (nbLines cfg req)).map fun n =>
      ndLine cfg req (n / pageLines cfg req) (n % pageLines cfg req) := by
  have hpos : 0 < pageLines cfg req := pageLines_pos
  unfold ndLines nbLines
  generalize pages cfg req = m
  induction m with
  | zero => simp
  | succ m ih =>
    rw [List.range_succ, flatMap_append, ih, succ_mul, range_add, map_append]
    simp only [flatMap_cons, flatMap_nil, append_nil, List.map_map, append_cancel_left_eq]
    apply map_congr_left
    intro j hj
    have hj : j < pageLines cfg req := mem_range.1 hj
    simp only [Function.comp_apply]
    rw [add_comm, add_mul_div_right _ _ hpos, add_mul_mod_self_right, div_eq_of_lt hj,
      mod_eq_of_lt hj, zero_add]

@[simp] theorem length_ndLines : (ndLines cfg req).length = nbLines cfg req := by
  rw [ndLines_eq, length_map, length_range]

theorem nbLines_pos : 0 < nbLines cfg req := Nat.mul_pos pages_pos pageLines_pos

def lineAt (cfg : StreamConfig) (req : NdReq) (n : Nat) : Line :=
  ndLine cfg req (n / pageLines cfg req) (n % pageLines cfg req)

theorem take_succ_ndLines {n : Nat} (h : n < nbLines cfg req) :
    (ndLines cfg req).take (n + 1) = (ndLines cfg req).take n ++ [lineAt cfg req n] := by
  rw [take_add_one, getElem?_eq_getElem (by rwa [length_ndLines])]
  simp [ndLines_eq, lineAt]

theorem div_mod_succ {n m : Nat} (hm : 0 < m) :
    (n % m + 1 < m → (n + 1) / m = n / m ∧ (n + 1) % m = n % m + 1) ∧
      (¬ n % m + 1 < m → (n + 1) / m = n / m + 1 ∧ (n + 1) % m = 0) := by
  have hdiv := mod_add_div n m
  have hlt := mod_lt n hm
  constructor
  · intro h
    rw [Nat.div_mod_unique hm]
    omega
  · intro h
    rw [Nat.div_mod_unique hm, mul_add]
    omega

theorem superLast_lineAt {n : Nat} (h : n < nbLines cfg req) : (lineAt cfg req n).superLast = true ↔
    n + 1 = nbLines cfg req := by
  have hpos : 0 < pageLines cfg req := pageLines_pos
  have hk : n / pageLines cfg req < pages cfg req := Nat.div_lt_of_lt_mul (by rwa [mul_comm])
  have hdiv := mod_add_div n (pageLines cfg req)
  have hlt := mod_lt n hpos
  simp only [lineAt, ndLine, decide_eq_true_eq]
  unfold nbLines at h ⊢
  constructor
  · rintro ⟨hpage, hline⟩
    rw [← hpage, succ_mul, mul_comm (n / _)]
    omega
  · intro heq
    have hle : n / pageLines cfg req + 1 ≤ pages cfg req := hk
    by_contra hnot
    -- a line before the end of its page, or in a page before the last
    have hbound : pageLines cfg req * (n / pageLines cfg req) + n % pageLines cfg req + 1 <
        pages cfg req * pageLines cfg req := by
      rcases hle.lt_or_eq with hpage | hpage
      · have hmul := Nat.mul_le_mul_right (pageLines cfg req) hpage
        rw [succ_mul, succ_mul, mul_comm (n / _)] at hmul
        omega
      · have hline : n % pageLines cfg req + 1 ≠ pageLines cfg req := fun hline => hnot ⟨hpage, hline⟩
        rw [← hpage, succ_mul, mul_comm (n / _)]
        omega
    omega

end Lines

/-! ## The cursors -/

structure CursorAt (cfg : StreamConfig) (c : Cursor) (n : Nat) : Prop where
  reps2 : c.reps2 = dimReps cfg 0 c.req c.req.dim2
  reps3 : c.reps3 = dimReps cfg 1 c.req c.req.dim3
  idx2 : c.idx2.toNat = n % pageLines cfg c.req
  idx3 : c.idx3.toNat = n / pageLines cfg c.req
  src : c.src = (lineAt cfg c.req n).src
  dst : c.dst = (lineAt cfg c.req n).dst

variable {cfg : StreamConfig} {req : NdReq} {c : Cursor} {n : Nat}

/-- Line by line, the second stride; after the last line of a page, the third. -/
theorem lineOffset_succ (cfg : StreamConfig) (req : NdReq) (n : Nat) (stride2 stride3 : BitVec 64) :
    lineOffset cfg req stride2 stride3 ((n + 1) / pageLines cfg req) ((n + 1) % pageLines cfg req) =
      lineOffset cfg req stride2 stride3 (n / pageLines cfg req) (n % pageLines cfg req) +
        if n % pageLines cfg req + 1 < pageLines cfg req then stride2 else stride3 := by
  have hpos : 0 < pageLines cfg req := pageLines_pos
  have hone : BitVec.ofNat 64 1 = 1 := rfl
  have hzero : BitVec.ofNat 64 0 = 0 := rfl
  obtain ⟨hinside, hwrap⟩ := div_mod_succ (n := n) hpos
  unfold lineOffset
  split
  · next h =>
    obtain ⟨hk, hj⟩ := hinside h
    rw [hk, hj, BitVec.ofNat_add, hone]
    ring
  · next h =>
    obtain ⟨hk, hj⟩ := hwrap h
    have hlast : n % pageLines cfg req = pageLines cfg req - 1 := by
      have hlt := mod_lt n hpos
      omega
    rw [hk, hj, hlast, BitVec.ofNat_add, hone, hzero]
    ring

theorem load_cursorAt : CursorAt cfg (load cfg req) 0 where
  reps2 := rfl
  reps3 := rfl
  idx2 := (zero_mod _).symm
  idx3 := (Nat.zero_div _).symm
  src := by simp [load, lineAt, ndLine, lineOffset]
  dst := by simp [load, lineAt, ndLine, lineOffset]

/-- The next line is the one at the place of the cursors, which advance to the next place. -/
theorem build1d_line (h : CursorAt cfg c n) (hn : n < nbLines cfg c.req) :
    (build1d c).1 = lineAt cfg c.req n ∧ (build1d c).2.req = c.req ∧ CursorAt cfg (build1d c).2 (n + 1) := by
  obtain ⟨hreps2, hreps3, hidx2, hidx3, hsrc, hdst⟩ := h
  have hpos : 0 < pageLines cfg c.req := pageLines_pos
  have hj := mod_lt n hpos
  have hk : n / pageLines cfg c.req < pages cfg c.req := Nat.div_lt_of_lt_mul (by rwa [mul_comm])
  have hlines := (dimReps cfg 0 c.req c.req.dim2).isLt
  have hpages := (dimReps cfg 1 c.req c.req.dim3).isLt
  rw [← hreps2] at hlines
  rw [← hreps3] at hpages
  have hp2 : c.reps2.toNat = pageLines cfg c.req := by rw [hreps2, pageLines]
  have hp3 : c.reps3.toNat = pages cfg c.req := by rw [hreps3, pages]
  have hone : (1 : BitVec 64).toNat = 1 := rfl
  have hidx2' : (c.idx2 + 1).toNat = n % pageLines cfg c.req + 1 := by
    rw [BitVec.toNat_add, hidx2, hone, mod_eq_of_lt (by omega)]
  have hidx3' : (c.idx3 + 1).toNat = n / pageLines cfg c.req + 1 := by
    rw [BitVec.toNat_add, hidx3, hone, mod_eq_of_lt (by omega)]
  obtain ⟨hinside, hwrap⟩ := div_mod_succ (n := n) hpos
  have hsrc' := lineOffset_succ cfg c.req n c.req.dim2.srcStride c.req.dim3.srcStride
  have hdst' := lineOffset_succ cfg c.req n c.req.dim2.dstStride c.req.dim3.dstStride
  unfold build1d
  split
  · next hlt =>
    rw [BitVec.lt_def, hidx2', hp2] at hlt
    rw [if_pos hlt] at hsrc' hdst'
    obtain ⟨hdiv, hmod⟩ := hinside hlt
    refine ⟨?_, rfl, hreps2, hreps3, ?_, ?_, ?_, ?_⟩
    · have hlast : ¬ (n / pageLines cfg c.req + 1 = pages cfg c.req ∧
          n % pageLines cfg c.req + 1 = pageLines cfg c.req) := by omega
      simp [hsrc, hdst, lineAt, ndLine, hlast]
    · rw [hidx2', hmod]
    · rw [hidx3, hdiv]
    · simp only [hsrc, lineAt, ndLine]
      rw [hsrc', BitVec.add_assoc]
    · simp only [hdst, lineAt, ndLine]
      rw [hdst', BitVec.add_assoc]
  · next hlt =>
    rw [BitVec.lt_def, hidx2', hp2] at hlt
    rw [if_neg hlt] at hsrc' hdst'
    obtain ⟨hdiv, hmod⟩ := hwrap hlt
    refine ⟨?_, rfl, hreps2, hreps3, ?_, ?_, ?_, ?_⟩
    · have hlast : c.idx3 + 1 ≥ c.reps3 ↔ n / pageLines cfg c.req + 1 = pages cfg c.req ∧
          n % pageLines cfg c.req + 1 = pageLines cfg c.req := by
        rw [ge_iff_le, BitVec.le_def, hidx3', hp3]
        omega
      simp only [hsrc, hdst, lineAt, ndLine, hlast]
    · rw [hmod]
      rfl
    · rw [hidx3', hdiv]
    · simp only [hsrc, lineAt, ndLine]
      rw [hsrc', BitVec.add_assoc]
    · simp only [hdst, lineAt, ndLine]
      rw [hdst', BitVec.add_assoc]

/-- What `peek_1d` does: nothing, or it builds a line with the cursors of the current request or of the one it loads. -/
theorem peek1d_cases (cfg : StreamConfig) (now : Int) (me : MidEnd) :
    (me.peek1d cfg now = me ∧ (me.pending = none → me.current = none ∧ me.queue.visibleHead now = none)) ∨
      (me.pending = none ∧ ∃ c, (me.current = some c ∨
          me.current = none ∧ ∃ req, me.queue.visibleHead now = some req ∧ c = load cfg req) ∧
        me.peek1d cfg now = { me with current := some (build1d c).2, pending := some (build1d c).1 }) := by
  unfold peek1d
  cases hpending : me.pending with
  | some line => exact .inl ⟨rfl, fun h => by cases h⟩
  | none =>
    cases hcurrent : me.current with
    | some c => exact .inr ⟨rfl, c, .inl rfl, rfl⟩
    | none =>
      cases hhead : me.queue.visibleHead now with
      | none => exact .inl ⟨rfl, fun _ => ⟨rfl, rfl⟩⟩
      | some req => exact .inr ⟨rfl, load cfg req, .inr ⟨rfl, req, rfl, rfl⟩, rfl⟩

end GvsocPulp.IdmaV3
