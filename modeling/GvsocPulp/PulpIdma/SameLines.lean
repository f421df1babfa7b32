import GvsocPulp.IdmaV3.Lines
import GvsocPulp.PulpIdma.Streams

/-!
# The lines of the two middle-ends

`IDmaMe3d` counts down and `IdmaMeNd` counts up, and they cut a descriptor into the same lines. The front-end stores the
data of every access into the register, also of a read, which has nothing in its buffer yet; the one of iDMA v3 tests
`is_write`.

- `Port.lines_eq`: the lines of a descriptor, with their addresses modulo `2 ^ 32`;
- `enumerates_iff`: the transfers of a run are those of the descriptors that were written iff each read of a register
  finds its value in its buffer.
-/

namespace GvsocPulp.PulpIdma

open Lib Function List IdmaV3
open IdmaV3 (NdReq Line StreamConfig lineAt nbLines pageLines pages CursorAt)
open IdmaV3.MidEnd (load build1d dimReps)
open IdmaV3.FeReg (ndReq)

/-! ## The lines of a descriptor -/

/-- Line `n` of a request, as `IdmaMeNd` builds it. -/
def built (cfg : StreamConfig) (req : NdReq) (n : Nat) : Line :=
    (build1d ((fun c => (build1d c).2)^[n] (load cfg req))).1

theorem cursorAt_iterate {cfg : StreamConfig} {req : NdReq} : ∀ {n : Nat}, n < nbLines cfg req →
    CursorAt cfg ((fun c => (build1d c).2)^[n] (load cfg req)) n ∧
      ((fun c => (build1d c).2)^[n] (load cfg req)).req = req
  | 0, _ => ⟨load_cursorAt, rfl⟩
  | n + 1, hn => by
    obtain ⟨h, hreq⟩ := cursorAt_iterate (Nat.lt_of_succ_lt hn)
    obtain ⟨-, hreq', hnext⟩ := build1d_line h (by rw [hreq]; omega)
    rw [iterate_succ_apply']
    exact ⟨hnext, hreq'.trans hreq⟩

/-- A line, as the back-end gets it. -/
def burst (l : Line) : Burst := ⟨l.src, l.dst, l.length⟩

/-- The same registers in the front-end of iDMA v3. -/
def Port.regs (p : Port) : IdmaV3.Regs :=
  { p with }

/-- How far line `j` of page `k` is from the first one. -/
def offset (lines : Nat) (stride2 stride3 : BitVec 32) (k j : Nat) : BitVec 32 :=
  BitVec.ofNat 32 k * (BitVec.ofNat 32 (lines - 1) * stride2 + stride3) + BitVec.ofNat 32 j * stride2

structure IdmaTransfer.Enumerates (t : IdmaTransfer) (p : Port) : Prop where
  /-- What `IdmaMeNd` builds from the same registers. -/
  built : ∀ (cfg : StreamConfig) (st : IdmaV3.Stream), 3 ≤ cfg.nbDims →
    t.lines = (range (t.nbPages.toNat * t.nbLines.toNat)).map fun n => burst (PulpIdma.built cfg (ndReq p.regs st) n)
  offset : t.lines.map (fun b => (b.src.setWidth 32, b.dst.setWidth 32, b.size)) =
    (range (t.nbPages.toNat * t.nbLines.toNat)).map fun n =>
      let (k, j) := (n / t.nbLines.toNat, n % t.nbLines.toNat)
      (p.src + offset t.nbLines.toNat p.srcStride2 p.srcStride3 k j,
        p.dst + offset t.nbLines.toNat p.dstStride2 p.dstStride3 k j, p.length.setWidth 64)

namespace Port

variable {p : Port} {cfg : StreamConfig} {stream : Nat} {st : IdmaV3.Stream} {t : IdmaTransfer} {req : NdReq}

theorem enableNd_toNat : ((p.conf >>> 10) &&& 0x3).toNat = (p.conf >>> 10).toNat % 4 := by
  rw [BitVec.toNat_and]
  exact Nat.and_two_pow_sub_one_eq_mod _ 2

theorem dims_iff : ((p.transfer stream).is2d = true ↔ 0 < (p.conf >>> 10).toNat % 4) ∧
    ((p.transfer stream).is3d = true ↔ 1 < (p.conf >>> 10).toNat % 4) := by
  rw [← enableNd_toNat, transfer, IdmaTransfer.is2d, IdmaTransfer.is3d]
  generalize (p.conf >>> 10) &&& 0x3 = nd
  have hone : (1 ≤ nd) ↔ 0 < nd.toNat := Iff.rfl
  have htwo : (2 ≤ nd) ↔ 1 < nd.toNat := Iff.rfl
  rw [← hone, ← htwo]
  by_cases h1 : 1 ≤ nd <;> by_cases h2 : 2 ≤ nd <;> simp only [h1, h2, if_true, if_false] <;> decide

theorem dimReps_eq {i : Nat} {req : NdReq} {dim : IdmaV3.Dim} {b : Bool} (hb : b = true ↔ i < req.nd)
    (hcfg : i + 1 < cfg.nbDims) (hne : (b && dim.reps == 0) = false) :
    dimReps cfg i req dim = if b then dim.reps else 1 := by
  rw [dimReps]
  by_cases h : b = true
  · rw [h, Bool.true_and, beq_eq_false_iff_ne] at hne
    rw [if_pos h, if_pos ⟨hb.1 h, hcfg, hne⟩]
  · rw [if_neg h, if_neg fun h' => h (hb.2 h'.1)]

structure Same (cfg : StreamConfig) (t : IdmaTransfer) (req : NdReq) : Prop where
  lines : pageLines cfg req = t.nbLines.toNat
  pages : pages cfg req = t.nbPages.toNat
  src : req.src = t.src
  dst : req.dst = t.dst
  size : req.length = t.size
  srcStride : req.dim2.srcStride = t.srcStride
  dstStride : req.dim2.dstStride = t.dstStride
  srcStride3 : req.dim3.srcStride = t.srcStride3
  dstStride3 : req.dim3.dstStride = t.dstStride3

/-- The down-counters of `IDmaMe3d` are what the up-counters of `IdmaMeNd` have left. -/
theorem cutsInto_lineAt (h : Same cfg t req) : ∀ (m n : Nat) {c : Cursor},
    c.src = (lineAt cfg req n).src → c.dst = (lineAt cfg req n).dst →
      c.reps.toNat = pageLines cfg req - n % pageLines cfg req →
    c.reps3.toNat = pages cfg req - n / pageLines cfg req → n + m + 1 = nbLines cfg req →
    CutsInto me3d t c ((range (m + 1)).map fun i => burst (lineAt cfg req (n + i)))
  | m, n, c, hsrc, hdst, hreps, hreps3, hm => by
    have hpos : 0 < pageLines cfg req := pageLines_pos
    have hlast := superLast_lineAt (show n < nbLines cfg req by omega)
    simp only [lineAt, ndLine, decide_eq_true_eq] at hlast
    obtain ⟨hinside, hwrap⟩ := div_mod_succ (n := n) hpos
    have hlt := Nat.mod_lt n hpos
    have hk : n / pageLines cfg req < pages cfg req := Nat.div_lt_of_lt_mul (by
      rw [mul_comm]
      show n < nbLines cfg req
      omega)
    have hsrc' : c.src + (if n % pageLines cfg req + 1 < pageLines cfg req then t.srcStride else t.srcStride3) =
        (lineAt cfg req (n + 1)).src := by
      rw [hsrc, ← h.srcStride, ← h.srcStride3]
      exact (BitVec.add_assoc ..).trans (congrArg _ (lineOffset_succ ..).symm)
    have hdst' : c.dst + (if n % pageLines cfg req + 1 < pageLines cfg req then t.dstStride else t.dstStride3) =
        (lineAt cfg req (n + 1)).dst := by
      rw [hdst, ← h.dstStride, ← h.dstStride3]
      exact (BitVec.add_assoc ..).trans (congrArg _ (lineOffset_succ ..).symm)
    have hpiece : me3d.piece t c = burst (lineAt cfg req n) := by
      show Burst.mk c.src c.dst t.size = _
      rw [hsrc, hdst, ← h.size]
      rfl
    cases m with
    | zero =>
      obtain ⟨hpage, hline⟩ := hlast.2 hm
      have heq : c.reps - 1 = 0 := by bv_omega
      have heq3 : c.reps3 - 1 = 0 := by bv_omega
      rw [range_one, map_singleton, add_zero, ← hpiece]
      refine .last ?_
      simp only [me3d, heq, heq3, if_true]
    | succ m =>
      rw [range_succ_eq_map, map_cons, map_map, add_zero, ← hpiece]
      have hrest := fun {c' : Cursor} => cutsInto_lineAt h m (n + 1) (c := c')
      simp only [add_assoc, add_comm 1] at hrest
      by_cases hline : n % pageLines cfg req + 1 < pageLines cfg req
      · obtain ⟨hdiv, hmod⟩ := hinside hline
        rw [if_pos hline] at hsrc' hdst'
        have hne : ¬ c.reps - 1 = 0 := by bv_omega
        refine .cons (if_neg hne) (hrest hsrc' hdst' ?_ ?_ (by omega))
        · rw [hmod]
          bv_omega
        · rw [hdiv, ← hreps3]
      · obtain ⟨hdiv, hmod⟩ := hwrap hline
        rw [if_neg hline] at hsrc' hdst'
        have heq : c.reps - 1 = 0 := by bv_omega
        have hne : ¬ c.reps3 - 1 = 0 := fun heq3 => by
          have := hlast.1 ⟨by bv_omega, by omega⟩
          omega
        refine .cons ((if_pos heq).trans (if_neg hne)) (hrest hsrc' hdst' ?_ ?_ (by omega))
        · rw [hmod, h.lines]
          rfl
        · rw [hdiv]
          bv_omega

theorem lines_lineAt (h : Same cfg t req) (hne : t.isEmpty = false) :
    t.lines = (range (t.nbPages.toNat * t.nbLines.toNat)).map fun n => burst (lineAt cfg req n) := by
  have hstart : CursorAt cfg (load cfg req) 0 := load_cursorAt
  have hpos : 0 < nbLines cfg req := nbLines_pos
  have hcuts : CutsInto me3d t (me3d.start t) _ := cutsInto_lineAt h (nbLines cfg req - 1) 0
    (h.src.symm.trans hstart.src)
    (h.dst.symm.trans hstart.dst)
    (by rw [Nat.zero_mod, h.lines]; rfl) (by rw [Nat.zero_div, h.pages]; rfl) (by omega)
  rw [(cutsInto_lines hne).unique hcuts, Nat.sub_add_cancel hpos, nbLines, h.lines, h.pages]
  simp only [zero_add]

variable (hcfg : 3 ≤ cfg.nbDims) (hne : (p.transfer stream).isEmpty = false)
include hcfg hne

theorem same_ndReq : Same cfg (p.transfer stream) (ndReq p.regs st) where
  lines := congrArg BitVec.toNat (dimReps_eq dims_iff.1 (by omega)
    (Bool.or_eq_false_iff.1 (Bool.or_eq_false_iff.1 hne).1).2)
  pages := congrArg BitVec.toNat (dimReps_eq dims_iff.2 (by omega) (Bool.or_eq_false_iff.1 hne).2)
  src := rfl
  dst := rfl
  size := rfl
  srcStride := rfl
  dstStride := rfl
  srcStride3 := rfl
  dstStride3 := rfl

omit hcfg

theorem lines_eq : (p.transfer stream).Enumerates p where
  built cfg st hcfg := by
    have hsame : Same cfg _ (ndReq p.regs st) := same_ndReq hcfg hne
    rw [lines_lineAt hsame hne]
    refine map_congr_left fun n hn => congrArg burst ?_
    rw [← hsame.lines, ← hsame.pages, mem_range] at hn
    obtain ⟨hcursor, hreq⟩ := cursorAt_iterate hn
    exact ((build1d_line hcursor (hreq.symm ▸ hn)).1.trans (by rw [hreq])).symm
  offset := by
    obtain ⟨cfg, hcfg⟩ : ∃ cfg : StreamConfig, 3 ≤ cfg.nbDims := ⟨⟨0, 3, 0, fun _ _ => true⟩, by decide⟩
    have hsame : Same cfg _ (ndReq p.regs {}) := same_ndReq hcfg hne
    have hlow : ∀ (x s2 s3 : BitVec 32) (k j : Nat),
        (x.setWidth 64 + lineOffset cfg (ndReq p.regs {}) (s2.setWidth 64) (s3.setWidth 64) k j).setWidth 32 =
          x + offset (p.transfer stream).nbLines.toNat s2 s3 k j := by
      intro x s2 s3 k j
      have hle : 32 ≤ 64 := by decide
      rw [lineOffset, hsame.lines]
      simp only [BitVec.setWidth_add _ _ hle, BitVec.setWidth_mul _ _ hle, BitVec.setWidth_setWidth_of_le _ hle,
        BitVec.setWidth_ofNat_of_le hle, BitVec.setWidth_eq, offset]
    rw [lines_lineAt hsame hne, map_map]
    refine map_congr_left fun n _ => Prod.ext ((hlow ..).trans ?_) (Prod.ext ((hlow ..).trans ?_) rfl) <;>
      (rw [hsame.lines]; rfl)

end Port

/-! ## Runs -/

/-- The block, the values last written to the registers of the ports, and these values at each launch. -/
structure Observed where
  dma : IDma := {}
  written : Nat → Port := fun _ => {}
  asked : Nat → Port := fun _ => {}

namespace Observed

def stored (cfg : Config) (ports : Nat → Port) : Event → Nat → Port
  | .access port offset size value =>
    match decode cfg offset size value with
    | .set f => update ports port (f (ports port))
    | _ => ports
  | _ => ports

/-- The next launch is from the registers of the port that is accessed. -/
def noted (s : Observed) : Event → Nat → Port
  | .access port .. => update s.asked s.dma.launches.length (s.written port)
  | _ => s.asked

/-- An event, with `is_write` of an access. The data of a read is what its buffer has before. -/
def step (cfg : Config) (s : Observed) (e : Bool × Event) : Option Observed :=
  (s.dma.step cfg e.2).map fun dma =>
    { dma := dma
      written := if e.1 then stored cfg s.written e.2 else s.written
      asked := s.noted e.2 }

/-- A read of a register finds the value last written to it in its buffer. -/
def ReadsBack (cfg : Config) (s : Observed) : Bool × Event → Prop
  | (false, .access port offset size value) => ∀ f, decode cfg offset size value = .set f →
      f (s.written port) = s.written port
  | _ => True

/-- The middle-end hands over the lines of the transfers that were asked for, and acknowledges each one once, with its
last line. -/
structure Exact (cfg : Config) (s : Observed) : Prop where
  registers : s.dma.ports = s.written
  asked : ∀ (n : Nat) l, s.dma.launches[n]? = some l → l.transfer = (s.asked n).transfer l.transfer.stream ∧
    (l.transfer.isEmpty = false → l.transfer.Enumerates (s.asked n) ∧ s.dma.me.given n <+: l.transfer.lines)
  /-- The handler has a line of the first transfer, until its last one is handed over. -/
  offers : ∀ n t rest, s.dma.me.queue = (n, t) :: rest → ∃ b, (s.dma.me.load me3d).offer me3d = some (n, b)
  once : ∀ stream, (s.dma.completed stream).Nodup
  completed : ∀ stream n, n ∈ s.dma.completed stream ↔ n ∈ s.dma.ofStream stream ∧ s.dma.Done n
  untouched : ∀ stream, ∀ n ∈ s.dma.completed stream, n ∉ s.dma.me.flight ∧
    n ∉ (s.dma.me.queue ++ s.dma.pendingQueue).map (·.1)

structure Good (cfg : Config) (s : Observed) : Prop where
  inv : ∃ gone, s.dma.Inv cfg gone
  registers : s.dma.ports = s.written
  asked : ∀ (n : Nat) l, s.dma.launches[n]? = some l → l.transfer = (s.asked n).transfer l.transfer.stream

variable {cfg : Config} {s s' : Observed}

theorem Good.exact (h : Good cfg s) : s.Exact cfg := by
  obtain ⟨gone, hinv⟩ := h.inv
  refine ⟨h.registers, fun n l hl => ?_, fun n t rest hq => ?_, hinv.once, hinv.completed_iff, fun stream n hn => ?_⟩
  · have ht := h.asked n l hl
    refine ⟨ht, fun hne => ⟨?_, ?_⟩⟩
    · rw [ht] at hne ⊢
      exact Port.lines_eq hne
    · have hempty : s.dma.transferOf n = some l.transfer := by rw [IDma.transferOf, hl]; rfl
      by_cases hmem : n ∈ s.dma.me.entered.map (·.1)
      · obtain ⟨⟨n, t⟩, hin, rfl⟩ := List.mem_map.1 hmem
        have htransfer := (hinv.entered hin).1
        rw [hempty] at htransfer
        cases htransfer
        exact hinv.ok.given_prefix hin (cutsInto_lines hne)
      · exact (hinv.ok.fresh n hmem).1 ▸ nil_prefix
  · obtain ⟨c, hc⟩ : ∃ c, (s.dma.me.load me3d).current = some c := by
      unfold Feeder.load
      split
      · exact ⟨_, rfl⟩
      case h_2 hnot =>
        cases hcurrent : s.dma.me.current with
        | none => exact absurd hcurrent (hnot n t rest hq)
        | some c => exact ⟨c, rfl⟩
    exact ⟨me3d.piece t c, by rw [Feeder.offer, Feeder.load_queue, hq, hc]⟩
  · have hcases := ((hinv.completed stream n).1 hn).2
    have hnodup := hinv.nodup
    rw [hinv.ok.entered, append_assoc, map_append] at hnodup
    rcases hcases with hacked | ⟨t, ht, hempty⟩
    · obtain ⟨hgone, hflight⟩ := (hinv.ok.acked n).1 hacked
      exact ⟨hflight, fun hmem => (nodup_append.1 hnodup).2.2 n hgone n hmem rfl⟩
    · have hnot : n ∉ (s.dma.me.entered ++ s.dma.pendingQueue).map (·.1) := by
        intro hmem
        obtain ⟨⟨n, u⟩, hin, rfl⟩ := List.mem_map.1 hmem
        rw [hinv.handed] at hin
        obtain ⟨hu, hne⟩ := IDma.mem_moving.1 hin
        rw [ht] at hu
        cases hu
        rw [hempty] at hne
        cases hne
      rw [map_append, mem_append, not_or] at hnot
      refine ⟨fun hmem => hnot.1 (hinv.ok.flight n hmem), fun hmem => ?_⟩
      rw [map_append, mem_append] at hmem
      refine hmem.elim (fun hmem => hnot.1 ?_) hnot.2
      rw [hinv.ok.entered, map_append]
      exact mem_append_right _ hmem

theorem accepted_frame (s : IDma) (port stream : Nat) : (s.accepted cfg port stream).ports = s.ports ∧
    (s.accepted cfg port stream).launches = s.launches ++
      [⟨(s.streams stream).nextId, (s.ports port).transfer stream⟩] := by
  rw [IDma.accepted]
  split <;> exact ⟨rfl, rfl⟩

theorem step_spec {s s' : IDma} {e : Event} {gone : List (Nat × IdmaTransfer)} (h : s.Inv cfg gone)
    (hs : s.step cfg e = some s') :
    (∃ gone, s'.Inv cfg gone) ∧ s'.ports = stored cfg s.ports e ∧
      (s'.launches = s.launches ∨ ∃ port offset size value id stream,
      e = .access port offset size value ∧ s'.launches = s.launches ++ [⟨id, (s.ports port).transfer stream⟩]) := by
  cases e with
  | access port offset size value =>
    simp only [IDma.step] at hs
    rw [stored]
    split at hs
    case h_1 stream hlaunch =>
      cases hs
      rw [IDma.readNextId_eq, hlaunch]
      split
      · exact ⟨⟨gone, h.withReads _⟩, rfl, .inl rfl⟩
      · obtain ⟨hports, hlaunches⟩ := @accepted_frame cfg s port stream
        exact ⟨⟨gone, (h.accepted port stream).withReads _⟩, hports,
          .inr ⟨port, offset, size, value, _, stream, rfl, hlaunches⟩⟩
    case h_2 f hset =>
      cases hs
      rw [hset]
      exact ⟨⟨gone, h.withPorts _⟩, rfl, .inl rfl⟩
    case h_3 hlaunch hset =>
      cases hs
      refine ⟨⟨gone, h⟩, ?_, .inl rfl⟩
      split
      case h_1 f hf => exact absurd hf (hset f)
      case h_2 => rfl
  | fsm accepts =>
    cases hs
    obtain ⟨me, queue, heq⟩ := IDma.fsmHandler_frame cfg s accepts
    obtain ⟨away, hinv⟩ := h.fsmHandler accepts
    exact ⟨⟨_, hinv⟩, by rw [heq]; rfl, .inl (by rw [heq])⟩
  | ack n =>
    obtain ⟨hn, rfl⟩ := Option.ite_some_none_eq_some.1 hs
    obtain ⟨l, -, heq⟩ := h.ackBurst_eq hn
    refine ⟨⟨gone, h.ackBurst hn⟩, ?_⟩
    rw [heq]
    split <;> exact ⟨rfl, .inl rfl⟩

/-- A step keeps the middle-end exact iff a read finds the register in its buffer. -/
theorem Good.step {e : Bool × Event} (h : Good cfg s) (hs : s.step cfg e = some s') :
    (s'.Exact cfg ↔ ReadsBack cfg s e) ∧ (s'.Exact cfg → Good cfg s') := by
  obtain ⟨gone, hinv⟩ := h.inv
  obtain ⟨dma, hdma, rfl⟩ := Option.map_eq_some_iff.1 hs
  obtain ⟨hinv', hports, hlaunches⟩ := step_spec hinv hdma
  have hasked : ∀ (n : Nat) l, dma.launches[n]? = some l → l.transfer = (s.noted e.2 n).transfer l.transfer.stream := by
    intro n l hl
    rcases lt_or_ge n s.dma.launches.length with hn | hn
    · rw [show s.noted e.2 n = s.asked n by cases e.2; exacts [update_of_ne hn.ne .., rfl, rfl]]
      refine h.asked n l ?_
      rcases hlaunches with hsame | ⟨_, _, _, _, _, _, -, hnew⟩
      · exact hsame ▸ hl
      · exact (getElem?_append_left hn).symm.trans (hnew ▸ hl)
    · have hlt : n < dma.launches.length := (List.getElem?_eq_some_iff.1 hl).1
      rcases hlaunches with hsame | ⟨port, _, _, _, id, stream, he, hnew⟩
      · rw [hsame] at hlt
        omega
      · rw [hnew, length_append, length_singleton] at hlt
        obtain rfl : n = s.dma.launches.length := by omega
        rw [hnew, getElem?_concat_length] at hl
        cases hl
        rw [he, noted, update_self, h.registers]
        rfl
  have hiff : dma.ports = (if e.1 then stored cfg s.written e.2 else s.written) ↔ ReadsBack cfg s e := by
    rw [hports, h.registers]
    obtain ⟨isWrite, e⟩ := e
    cases isWrite with
    | true => exact iff_of_true rfl (by cases e <;> trivial)
    | false =>
      cases e with
      | access port offset size value =>
        show stored cfg s.written _ = s.written ↔ ∀ f, _
        rw [stored]
        split
        case h_1 f hf =>
          refine ⟨fun heq f' hf' => ?_, fun hall => by rw [hall f hf, update_eq_self]⟩
          cases hf.symm.trans hf'
          exact (update_self ..).symm.trans (congrFun heq port)
        case h_2 hnot => exact iff_of_true rfl fun f hf => absurd hf (hnot f)
      | fsm accepts => exact iff_of_true rfl trivial
      | ack n => exact iff_of_true rfl trivial
  exact ⟨⟨fun hexact => hiff.1 hexact.registers, fun hread => Good.exact ⟨hinv', hiff.2 hread, hasked⟩⟩,
    fun hexact => ⟨hinv', hexact.registers, hasked⟩⟩

theorem Good.initial : Good cfg {} := ⟨⟨[], .initial⟩, rfl, nofun⟩

/-- **The transfers of a run are those of the descriptors that were written, with the lines of `IdmaMeNd`, iff each read
of a register finds its value in its buffer.** -/
theorem enumerates_iff (cfg : Config) (es : List (Bool × Event)) :
    AllStates (step cfg) (Exact cfg) {} es ↔ AllSteps (step cfg) (ReadsBack cfg) {} es :=
  allStates_iff (I := Good cfg) (fun _ h => h.exact) (fun _ _ _ h hs => (h.step hs).1)
    (fun _ _ _ h hs => (h.step hs).2) .initial

/-- The source is written and read back, and 4 bytes are launched. -/
def sourceRead : List (Bool × Event) :=
  [(true, .access 0 0x0d8 4 0x1000), (false, .access 0 0x0d8 4 0), (true, .access 0 0x0d0 4 0x2000),
    (true, .access 0 0x0e0 4 4), (false, .access 0 0x8 4 0)]

/-- The line comes from address 0. -/
theorem not_exact_sourceRead : ¬ AllStates (step ⟨1, 1, 4, 4⟩) (Exact ⟨1, 1, 4, 4⟩) {} sourceRead := by
  intro h
  exact absurd (congrArg IdmaTransfer.src ((h.final rfl).asked 0 _ rfl).1) (by decide)

end Observed

end GvsocPulp.PulpIdma
