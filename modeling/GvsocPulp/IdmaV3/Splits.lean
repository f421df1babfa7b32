import GvsocPulp.IdmaV3.Beats

/-!
# The splits of the legalizer

What the legalizer cuts each request into.

- `Tiles`: splits that follow each other from one position of a transfer to another;
- `LegalSplit`: a split keeps to the boundaries of its manager and of its transfer, and its fields describe the bus
  words it touches; `makeSplit_legal`: those of `step` do.
-/

namespace GvsocPulp.IdmaV3

open Lib LaneBuffer List Nat

/-! ## Legal splits -/

namespace Dir

variable (cfg : Config)

def manager : Dir → Request → Option Manager
  | .read, req => cfg.readManager req.srcProt
  | .write, req => cfg.writeManager req.dstProt

def burstLen : Dir → Nat
  | .read => cfg.readBurstLen
  | .write => cfg.writeBurstLen

def reduceLen : Dir → Request → Bool
  | .read, req => req.srcReduceLen
  | .write, req => req.dstReduceLen

def maxLlen : Dir → Request → Nat
  | .read, req => req.srcMaxLlen
  | .write, req => req.dstMaxLlen

end Dir

def Manager.page (cfg : Config) (burstLen : Nat) : Manager → Nat
  | .axi => cfg.pageSize burstLen
  | .obi => cfg.width

def reducedPage (cfg : Config) (maxLlen : Nat) : Nat := 2 ^ min (cfg.log2Width + maxLlen) 12

def WithinPage (page addr numBytes : Nat) : Prop := addr % page + numBytes ≤ page

structure LegalSplit (cfg : Config) (d : Dir) (split : Split) : Prop where
  pos : 0 < split.numBytes
  page : ∀ m, d.manager cfg split.req = some m → WithinPage (m.page cfg (d.burstLen cfg)) split.addr split.numBytes
  word : ∀ m, d.manager cfg split.req = some m → m.notBursting = true → WithinPage cfg.width split.addr split.numBytes
  /-- A manager that does not burst has no burst length to reduce; its words are smaller up to 4 KiB. -/
  reduced : ∀ m, d.manager cfg split.req = some m → d.reduceLen split.req = true →
    (m.notBursting = false ∨ cfg.width ≤ 4096) →
    WithinPage (reducedPage cfg (d.maxLlen split.req)) split.addr split.numBytes
  offset : split.offset = split.addr % cfg.width
  tailer : split.tailer = (split.addr + split.numBytes) % cfg.width
  numBeats : split.numBeats = (split.addr % cfg.width + split.numBytes - 1) / cfg.width + 1
  beats_pos : ∀ k < split.numBeats, 0 < (beatBytes cfg split k).count
  beats_sum : ((List.range split.numBeats).map fun k => (beatBytes cfg split k).count).sum = split.numBytes

variable {cfg : Config} {d : Dir} {split : Split} {req : Request} {side : Side}

theorem SplitOk.count_pos (h : SplitOk cfg d split) {k : Nat} (hk : k < split.numBeats) :
    0 < (beatBytes cfg split k).count := by
  obtain ⟨-, -, hfirst, hstop⟩ := h.beatBytes_eq hk
  obtain ⟨hlow, -, -⟩ := h.beat_bounds hk
  have hoff := h.offset_lt
  have hpos := h.pos
  rcases Nat.eq_zero_or_pos k with rfl | hk₀
  · omega
  · have hle : cfg.width ≤ k * cfg.width := Nat.le_mul_of_pos_left _ hk₀
    omega

theorem SplitOk.sum_beats (h : SplitOk cfg d split) (n : Nat) (hn : n ≤ split.numBeats) :
    ((List.range n).map fun k => (beatBytes cfg split k).count).sum = split.numBytes -
      (split.numBytes - (n * cfg.width - split.offset)) := by
  induction n with
  | zero => simp
  | succ n ih =>
    obtain ⟨hge, -, hfirst, hstop⟩ := h.beatBytes_eq (show n < split.numBeats by omega)
    have hsucc : (n + 1) * cfg.width = n * cfg.width + cfg.width := succ_mul ..
    rw [List.range_succ, map_append, List.sum_append, ih (by omega), hsucc]
    simp only [map_cons, map_nil, sum_cons, sum_nil]
    have hoff := h.offset_lt
    omega

theorem SplitOk.sum_all (h : SplitOk cfg d split) :
    ((List.range split.numBeats).map fun k => (beatBytes cfg split k).count).sum = split.numBytes := by
  have hpos : 0 < split.numBeats := h.numBeats ▸ succ_pos _
  obtain ⟨-, -, hlast⟩ := h.beat_bounds (show split.numBeats - 1 < split.numBeats by omega)
  have hle := hlast (by omega)
  rw [Nat.sub_add_cancel hpos] at hle
  rw [h.sum_beats split.numBeats le_rfl]
  omega

/-- Bytes up to a boundary stay within the page, also up to one of a smaller page or of fewer bytes. -/
theorem withinPage_of_le {page addr numBytes : Nat} (hp : 0 < page) (h : numBytes ≤ page - addr % page) :
    WithinPage page addr numBytes := by
  have hlt := mod_lt addr hp
  unfold WithinPage
  omega

theorem sideBytes_page (hv : side.valid = true) (m : Manager) (burstLen : Nat) :
    sideBytes cfg side m (cfg.pageSize burstLen) ≤ m.page cfg burstLen - side.addr % m.page cfg burstLen := by
  unfold sideBytes
  rw [if_pos hv]
  refine (min_le_right ..).trans ?_
  have hmanager : m.bytesToPageBoundary cfg (cfg.pageSize burstLen) side.addr =
      m.page cfg burstLen - side.addr % m.page cfg burstLen := by cases m <;> rfl
  rw [hmanager]
  unfold bytesToBoundary
  split
  · exact le_rfl
  · exact min_le_left ..

theorem sideBytes_reduced (hv : side.valid = true) (m : Manager) (page : Nat) (hreduce : side.reduceLen = true)
    (hburst : m.notBursting = false) :
    sideBytes cfg side m page ≤ reducedPage cfg side.maxLlen - side.addr % reducedPage cfg side.maxLlen := by
  unfold sideBytes
  rw [if_pos hv]
  refine (min_le_right ..).trans ?_
  unfold bytesToBoundary
  rw [hreduce, hburst]
  exact min_le_right ..

theorem page_pos (m : Manager) (burstLen : Nat) : 0 < m.page cfg burstLen := by
  cases m with
  | axi => exact Nat.two_pow_pos _
  | obi => exact cfg.width_pos

theorem width_dvd_reducedPage (hw : cfg.width ≤ 4096) (maxLlen : Nat) : cfg.width ∣ reducedPage cfg maxLlen := by
  have hspec := cfg.log2Width_spec
  have hlog : cfg.log2Width ≤ 12 := by
    rw [hspec] at hw
    exact (Nat.pow_le_pow_iff_right (lt_succ_self 1)).1 hw
  rw [hspec]
  exact Nat.pow_dvd_pow 2 (by omega)

theorem WithinPage.of_dvd {p q addr numBytes : Nat} (hp : p ∣ q) (hq : 0 < q) (h : WithinPage p addr numBytes) :
    WithinPage q addr numBytes := by
  have hle := min_to_boundary (a := addr) hq hp
  have hlt := mod_lt addr hq
  unfold WithinPage at h ⊢
  omega

theorem makeSplit_legal (hw : cfg.width ≤ 65536) (h : SideOk cfg d req side) (hv : side.valid = true)
    (hreduce : side.reduceLen = d.reduceLen req) (hllen : side.maxLlen = d.maxLlen req) {m : Manager}
    (hm : d.manager cfg req = some m) {bytes : Nat} (hpos : 0 < bytes)
    (hle : bytes ≤ sideBytes cfg side m (cfg.pageSize (d.burstLen cfg))) :
    LegalSplit cfg d (makeSplit cfg req side bytes) := by
  have hpage : bytes ≤ m.page cfg (d.burstLen cfg) - side.addr % m.page cfg (d.burstLen cfg) :=
    hle.trans (sideBytes_page hv m _)
  have hwithin := withinPage_of_le (page_pos m (d.burstLen cfg)) hpage
  have hmanager : ∀ m', d.manager cfg (makeSplit cfg req side bytes).req = some m' → m' = m := by
    intro m' hm'
    exact Option.some.inj (hm'.symm.trans hm)
  have hsmall : bytes ≤ 4096 ∨ side.addr % cfg.width + bytes ≤ cfg.width := by
    cases m with
    | axi =>
      left
      have hsize : cfg.pageSize (d.burstLen cfg) ≤ 2 ^ 12 := Nat.pow_le_pow_right (by decide) (min_le_right ..)
      change bytes ≤ cfg.pageSize _ - side.addr % cfg.pageSize _ at hpage
      omega
    | obi => exact .inr hwithin
  have hok := makeSplit_ok hw h hpos hsmall
  have hoffset : (makeSplit cfg req side bytes).offset = side.addr % cfg.width := hok.offset
  refine ⟨hpos, ?_, ?_, ?_, hok.offset, ?_, ?_, fun k hk => hok.count_pos hk, hok.sum_all⟩
  · intro m' hm'
    rw [hmanager m' hm']
    exact hwithin
  · intro m' hm' hburst
    rw [hmanager m' hm'] at hburst
    cases m with
    | axi => cases hburst
    | obi => exact hwithin
  · intro m' hm' hred hsmall
    rw [hmanager m' hm'] at hsmall
    change WithinPage (reducedPage cfg (d.maxLlen req)) side.addr bytes
    rw [← hllen]
    cases hburst : m.notBursting with
    | false =>
      refine withinPage_of_le (Nat.two_pow_pos _) (hle.trans (sideBytes_reduced hv m _ ?_ hburst))
      rw [hreduce]
      exact hred
    | true =>
      cases m with
      | axi => cases hburst
      | obi =>
        have hwidth : cfg.width ≤ 4096 := hsmall.resolve_left (by rw [hburst]; decide)
        exact WithinPage.of_dvd (width_dvd_reducedPage hwidth _) (Nat.two_pow_pos _) hwithin
  · rw [hok.tailer, hoffset, add_mod_mod, add_comm]
    rfl
  · rw [hok.numBeats, hoffset, add_comm (makeSplit cfg req side bytes).numBytes]
    rfl

/-! ## Splits that follow each other -/

/-- The splits cover the positions from `p` to `q` of a transfer, and the one that ends it is flagged. -/
inductive Tiles (d : Dir) (req : Request) : Nat → List Split → Nat → Prop
  | nil (p : Nat) : Tiles d req p [] p
  | cons {p q : Nat} {split : Split} {rest : List Split} (hreq : split.req = req)
      (haddr : split.addr = (d.base req + p) % addrSpace) (hpos : 0 < split.numBytes)
      (hlast : split.last = decide (p + split.numBytes = req.length))
      (hrest : Tiles d req (p + split.numBytes) rest q) : Tiles d req p (split :: rest) q

namespace Tiles

variable {p q : Nat} {splits : List Split}

variable (h : Tiles d req p splits q)
include h

theorem append (hreq : split.req = req) (haddr : split.addr = (d.base req + q) % addrSpace) (hpos : 0 < split.numBytes)
    (hlast : split.last = decide (q + split.numBytes = req.length)) :
    Tiles d req p (splits ++ [split]) (q + split.numBytes) := by
  induction h with
  | nil p => exact .cons hreq haddr hpos hlast (.nil _)
  | cons hreq' haddr' hpos' hlast' _ ih => exact .cons hreq' haddr' hpos' hlast' (ih haddr hlast)

theorem length_le : p + splits.length ≤ q := by
  induction h with
  | nil p => exact le_rfl
  | cons _ _ hpos _ _ ih =>
    rw [length_cons]
    omega

/-- The flagged split is the last one, once the transfer is covered. -/
theorem last_iff (hq : q ≤ req.length) {k : Nat} (hk : splits[k]? = some split) :
    split.last = true ↔ k + 1 = splits.length ∧ q = req.length := by
  induction h generalizing k with
  | nil p => cases hk
  | cons _ _ hpos hlast hrest ih =>
    have hle := hrest.length_le
    cases k with
    | zero =>
      cases hk
      rw [hlast, decide_eq_true_eq, length_cons]
      constructor
      · intro heq
        omega
      · rintro ⟨hone, heq⟩
        cases hrest with
        | nil => exact heq
        | cons => simp at hone
    | succ k =>
      rw [ih hq hk, length_cons]
      omega

end Tiles

end GvsocPulp.IdmaV3
