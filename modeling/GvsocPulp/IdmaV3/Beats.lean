import GvsocPulp.IdmaV3.Calls
import GvsocPulp.IdmaV3.Pages

/-!
# Splits and beats as bytes of a request

Each side of the back-end works through the bytes of its requests in order: what the legalizer still has to cut, the
splits in the FIFO, and the beats of the split at its head.

- `SplitOk`: a split describes a run of bytes of its request; `makeSplit_ok`: so do those of `make_split`;
- `remaining_succ`: a beat takes the next bytes of its split;
- `busAddr_of_beat`, `readLane_of_beat`, `writeLane_of_beat`: each byte of a beat has the address of its byte of the
  request, and the lane of its position in the request.
-/

namespace GvsocPulp.IdmaV3

open LaneBuffer List Nat Request

/-! ## Bytes -/

abbrev ReqByte := Request × Nat

def Request.bytesFrom (req : Request) (pos len : Nat) : List ReqByte := (List.range' pos len).map (Prod.mk req)

theorem Request.bytesFrom_zero (req : Request) (pos : Nat) : req.bytesFrom pos 0 = [] := rfl

theorem Request.bytesFrom_append (req : Request) (pos m n : Nat) :
    req.bytesFrom pos (m + n) = req.bytesFrom pos m ++ req.bytesFrom (pos + m) n := by
  rw [bytesFrom, ← range'_append_1, map_append]
  rfl

def stream (reqs : List Request) : List ReqByte := reqs.flatMap fun req => req.bytesFrom 0 req.length

theorem stream_append_singleton (reqs : List Request) (req : Request) :
    stream (reqs ++ [req]) = stream reqs ++ req.bytesFrom 0 req.length := by
  simp [stream]

/-! ## The two sides -/

/-- The side of the back-end: reads from the source, or writes to the destination. -/
inductive Dir
  | read
  | write

namespace Dir

variable (cfg : Config)

/-- The first address of the transfer on this side. -/
def base : Dir → Request → Nat
  | .read, req => req.src
  | .write, req => req.dst

theorem base_lt (d : Dir) (req : Request) : d.base req < addrSpace := by
  cases d with
  | read => exact req.src_lt
  | write => exact req.dst_lt

/-- The byte rotation of the transfer on this side. -/
def shift : Dir → Request → Nat
  | .read, req => req.src % cfg.width
  | .write, req => (cfg.width - req.dst % cfg.width) % cfg.width

def addr (d : Dir) (b : ReqByte) : Nat := (d.base b.1 + b.2) % addrSpace

/-- The position in its request of the first byte of a split. -/
def pos (d : Dir) (split : Split) : Nat := (split.addr + addrSpace - d.base split.req) % addrSpace

/-- The bytes a split still has to move after `k` beats. -/
def remaining (d : Dir) (split : Split) (k : Nat) : List ReqByte :=
  let skip := k * cfg.width - split.offset
  split.req.bytesFrom (d.pos split + skip) (split.numBytes - skip)

/-- The bytes of the splits of a FIFO, `idx` beats of the first one being done. -/
def queued (d : Dir) (idx : Nat) : List Split → List ReqByte
  | [] => []
  | split :: rest => d.remaining cfg split idx ++ rest.flatMap fun split => d.remaining cfg split 0

def uncut (current : Option Request) (side : Side) : List ReqByte :=
  current.elim [] fun req => req.bytesFrom (req.length - side.length) side.length

def beat (d : Dir) (split : Split) (k : Nat) : List ReqByte :=
  (beatBytes cfg split k).indices.map fun j => (split.req, d.pos split + (k * cfg.width + j - split.offset))

end Dir

structure SplitOk (cfg : Config) (d : Dir) (split : Split) : Prop where
  addr_lt : split.addr < addrSpace
  offset : split.offset = split.addr % cfg.width
  tailer : split.tailer = (split.numBytes + split.offset) % cfg.width
  shift : split.shift = d.shift cfg split.req
  numBeats : split.numBeats = (split.numBytes + split.offset - 1) / cfg.width + 1
  pos : 0 < split.numBytes

/-- A side stands at the bytes of the current request it still has to cut. -/
structure SideOk (cfg : Config) (d : Dir) (req : Request) (side : Side) : Prop where
  addr : side.addr = (d.base req + (req.length - side.length)) % addrSpace
  le : side.length ≤ req.length
  shift : side.shift = d.shift cfg req

section Beats

variable {cfg : Config} {d : Dir} {split : Split}

/-! ## The beats of a split -/

theorem SplitOk.offset_lt (h : SplitOk cfg d split) : split.offset < cfg.width :=
  h.offset ▸ mod_lt _ cfg.width_pos

variable {k : Nat}

section

variable (h : SplitOk cfg d split) (hk : k < split.numBeats)
include h hk

/-- The beats before the last one end inside the split, and the last one ends with it. -/
theorem SplitOk.beat_bounds :
    k * cfg.width < split.numBytes + split.offset ∧
      (k + 1 < split.numBeats → (k + 1) * cfg.width < split.numBytes + split.offset) ∧
      (k + 1 = split.numBeats → split.numBytes + split.offset ≤ (k + 1) * cfg.width) := by
  have hw := cfg.width_pos
  have hpos := h.pos
  have hbound : ∀ m, m < split.numBeats → m * cfg.width < split.numBytes + split.offset := by
    intro m hm
    have hm : m ≤ (split.numBytes + split.offset - 1) / cfg.width := by rw [h.numBeats] at hm; omega
    have hle := (Nat.le_div_iff_mul_le hw).1 hm
    omega
  refine ⟨hbound k hk, hbound (k + 1), fun hlast => ?_⟩
  have hk' : k = (split.numBytes + split.offset - 1) / cfg.width := by rw [h.numBeats] at hlast; omega
  have hlt := lt_mul_of_div_lt (show (split.numBytes + split.offset - 1) / cfg.width < k + 1 by omega) hw
  omega

theorem SplitOk.beat_stop :
    k * cfg.width + (if k + 1 = split.numBeats ∧ split.tailer ≠ 0 then split.tailer else cfg.width)
      = min (k * cfg.width + cfg.width) (split.numBytes + split.offset) := by
  have hw := cfg.width_pos
  obtain ⟨hlow, hmid, hlast⟩ := h.beat_bounds hk
  rw [add_mul, one_mul] at hmid hlast
  by_cases hend : k + 1 = split.numBeats
  · have hle := hlast hend
    have htail := h.tailer
    obtain ⟨r, hr⟩ : ∃ r, split.numBytes + split.offset = k * cfg.width + r := ⟨_, (add_sub_of_le hlow.le).symm⟩
    rw [hr, mul_add_mod_self_right] at htail
    by_cases hfull : r = cfg.width
    · rw [hfull, mod_self] at htail
      rw [if_neg (fun hc => hc.2 htail)]
      omega
    · rw [mod_eq_of_lt (by omega)] at htail
      rw [if_pos ⟨hend, by omega⟩]
      omega
  · have hlt := hmid (by omega)
    rw [if_neg (fun hc => hend hc.1)]
    omega

theorem SplitOk.beatBytes_eq :
    split.offset ≤ k * cfg.width + (beatBytes cfg split k).first ∧
      (beatBytes cfg split k).first + (beatBytes cfg split k).count ≤ cfg.width ∧
      k * cfg.width + (beatBytes cfg split k).first - split.offset = k * cfg.width - split.offset ∧
      k * cfg.width + (beatBytes cfg split k).first + (beatBytes cfg split k).count
        = min (k * cfg.width + cfg.width) (split.numBytes + split.offset) := by
  have hstop := h.beat_stop hk
  obtain ⟨hlow, -, -⟩ := h.beat_bounds hk
  have hoff := h.offset_lt
  have hpos := h.pos
  unfold beatBytes
  dsimp only
  generalize (if k + 1 = split.numBeats ∧ split.tailer ≠ 0 then split.tailer else cfg.width) = stop at *
  rcases Nat.eq_zero_or_pos k with rfl | hk₀
  · rw [if_pos rfl]
    omega
  · have hle : cfg.width ≤ k * cfg.width := Nat.le_mul_of_pos_left _ hk₀
    rw [if_neg (by omega)]
    omega

theorem SplitOk.beat_fits :
    (beatBytes cfg split k).first + (beatBytes cfg split k).count ≤ cfg.width := (h.beatBytes_eq hk).2.1

theorem remaining_succ :
    d.remaining cfg split k = d.beat cfg split k ++ d.remaining cfg split (k + 1) := by
  obtain ⟨hle, -, hfirst, hstop⟩ := h.beatBytes_eq hk
  have hsucc : (k + 1) * cfg.width = k * cfg.width + cfg.width := by rw [add_mul, one_mul]
  have hbeat : d.beat cfg split k =
      split.req.bytesFrom (d.pos split + (k * cfg.width - split.offset)) (beatBytes cfg split k).count := by
    unfold Dir.beat BeatBytes.indices Request.bytesFrom
    rw [range'_eq_map_range, List.map_map, range'_eq_map_range, List.map_map]
    apply map_congr_left
    intro i _
    show (split.req, d.pos split + (k * cfg.width + ((beatBytes cfg split k).first + i) - split.offset))
      = (split.req, d.pos split + (k * cfg.width - split.offset) + i)
    rw [Prod.mk.injEq]
    exact ⟨rfl, by omega⟩
  rw [hbeat]
  unfold Dir.remaining
  dsimp only
  have hcount : split.numBytes - (k * cfg.width - split.offset) =
      (beatBytes cfg split k).count + (split.numBytes - ((k + 1) * cfg.width - split.offset)) := by omega
  rw [hcount, bytesFrom_append]
  rcases Nat.eq_zero_or_pos (split.numBytes - ((k + 1) * cfg.width - split.offset)) with hz | hz
  · rw [hz, bytesFrom_zero, bytesFrom_zero]
  · congr 2
    omega

end

theorem remaining_numBeats (h : SplitOk cfg d split) : d.remaining cfg split split.numBeats = [] := by
  have hpos : 0 < split.numBeats := h.numBeats ▸ succ_pos _
  obtain ⟨-, -, hlast⟩ := h.beat_bounds (show split.numBeats - 1 < split.numBeats by omega)
  have hle := hlast (by omega)
  rw [Nat.sub_add_cancel hpos] at hle
  unfold Dir.remaining
  dsimp only
  rw [show split.numBytes - (split.numBeats * cfg.width - split.offset) = 0 by omega, bytesFrom_zero]

/-! ## Addresses and lanes -/

theorem SplitOk.addr_eq (h : SplitOk cfg d split) : split.addr = (d.base split.req + d.pos split) % addrSpace := by
  have hb := d.base_lt split.req
  have ha := h.addr_lt
  unfold Dir.pos
  unfold addrSpace at *
  omega

theorem width_dvd (hw : cfg.width ≤ 65536) : cfg.width ∣ addrSpace := by
  obtain ⟨k, hk⟩ := cfg.width_pow
  rw [hk] at hw ⊢
  show 2 ^ k ∣ 2 ^ 64
  apply Nat.pow_dvd_pow
  have hk' : k ≤ 16 := (Nat.pow_le_pow_iff_right (by decide)).1 (show 2 ^ k ≤ 2 ^ 16 from hw)
  omega

variable {j : Nat}

theorem busAddr_of_beat (h : SplitOk cfg d split) (hk : k < split.numBeats) (hj : j ∈ (beatBytes cfg split k).indices) :
    busAddr cfg split k j = d.addr (split.req, d.pos split + (k * cfg.width + j - split.offset)) := by
  obtain ⟨hle, -, -, -⟩ := h.beatBytes_eq hk
  have hj := mem_range'_1.1 hj
  have haddr := h.addr_eq
  have hoff := h.offset
  have hmod := mod_le split.addr cfg.width
  unfold busAddr alignDown Dir.addr
  rw [← hoff] at hmod ⊢
  generalize k * cfg.width = kw at *
  unfold addrSpace at *
  dsimp only
  omega

theorem addr_mod_of_beat (hw : cfg.width ≤ 65536) (h : SplitOk cfg d split) (hk : k < split.numBeats)
    (hj : j ∈ (beatBytes cfg split k).indices) :
    (d.base split.req + (d.pos split + (k * cfg.width + j - split.offset))) % cfg.width = j := by
  obtain ⟨hle, hfit, -, -⟩ := h.beatBytes_eq hk
  have hj := mem_range'_1.1 hj
  have hoff : split.offset = (d.base split.req + d.pos split) % cfg.width := by
    rw [h.offset, h.addr_eq, mod_mod_of_dvd _ (width_dvd hw)]
  have hdiv := div_add_mod (d.base split.req + d.pos split) cfg.width
  rw [← hoff] at hdiv
  have hsum : d.base split.req + (d.pos split + (k * cfg.width + j - split.offset))
      = cfg.width * ((d.base split.req + d.pos split) / cfg.width + k) + j := by
    rw [mul_add, mul_comm cfg.width k]
    omega
  rw [hsum, mul_add_mod, mod_eq_of_lt (by omega)]

theorem readLane_of_beat (hw : cfg.width ≤ 65536) (h : SplitOk cfg .read split) (hk : k < split.numBeats)
    (hj : j ∈ (beatBytes cfg split k).indices) :
    readLane cfg.width split.shift j
      = (Dir.pos .read split + (k * cfg.width + j - split.offset)) % cfg.width := by
  have hmod := addr_mod_of_beat hw h hk hj
  generalize Dir.pos .read split + (k * cfg.width + j - split.offset) = n at *
  have hshift : split.shift = split.req.src % cfg.width := h.shift
  have hmod : (split.req.src + n) % cfg.width = j := hmod
  unfold readLane
  rw [hshift, ← hmod, Int.natCast_emod, Int.natCast_emod, ← Int.sub_emod, Int.natCast_add, add_sub_cancel_left,
    ← Int.natCast_emod, Int.toNat_natCast]

/-- On the write side a byte comes from the lane of its position. -/
theorem writeLane_of_beat (hw : cfg.width ≤ 65536) (h : SplitOk cfg .write split) (hk : k < split.numBeats)
    (hj : j ∈ (beatBytes cfg split k).indices) :
    writeLane cfg.width split.shift j
      = (Dir.pos .write split + (k * cfg.width + j - split.offset)) % cfg.width := by
  have hmod := addr_mod_of_beat hw h hk hj
  generalize Dir.pos .write split + (k * cfg.width + j - split.offset) = n at *
  have hshift : split.shift = (cfg.width - split.req.dst % cfg.width) % cfg.width := h.shift
  have hmod : (split.req.dst + n) % cfg.width = j := hmod
  have hlt := mod_lt split.req.dst cfg.width_pos
  have hdiv := div_add_mod split.req.dst cfg.width
  unfold writeLane
  rw [← Int.natCast_add, ← Int.natCast_emod, Int.toNat_natCast, hshift, ← hmod, mod_add_mod, add_mod_mod]
  have hsum : split.req.dst + n + (cfg.width - split.req.dst % cfg.width)
      = n + cfg.width * (split.req.dst / cfg.width + 1) := by
    rw [mul_add, mul_one]
    omega
  rw [hsum, add_mul_mod_self_left]

/-! ## Cutting a side -/

variable {req : Request} {side : Side} {bytes : Nat}

/-- The split of the next bytes of a side, of at most a page or within one bus word. -/
theorem makeSplit_ok (hw : cfg.width ≤ 65536) (h : SideOk cfg d req side) (hpos : 0 < bytes)
    (hsmall : bytes ≤ 4096 ∨ side.addr % cfg.width + bytes ≤ cfg.width) :
    SplitOk cfg d (makeSplit cfg req side bytes) := by
  have hwpos := cfg.width_pos
  have hoff := mod_lt side.addr hwpos
  have hu16 : u16 (side.addr % cfg.width) = side.addr % cfg.width := mod_eq_of_lt (by omega)
  have hshift : (bytes + side.addr % cfg.width - 1) >>> cfg.log2Width
      = (bytes + side.addr % cfg.width - 1) / cfg.width := by
    rw [shiftRight_eq_div_pow, ← cfg.log2Width_spec]
  have hbeats : (bytes + side.addr % cfg.width - 1) / cfg.width < 65535 := by
    rcases hsmall with hsmall | hsmall
    · rcases Nat.eq_or_lt_of_le (succ_le_of_lt hwpos) with hone | htwo
      · rw [← hone, Nat.div_one, mod_one]
        omega
      · apply (Nat.div_lt_iff_lt_mul hwpos).2
        have hle : 65535 * 2 ≤ 65535 * cfg.width := Nat.mul_le_mul_left _ htwo
        omega
    · rw [div_eq_of_lt (by omega)]
      decide
  refine ⟨?_, hu16, ?_, h.shift, ?_, hpos⟩
  · show side.addr < addrSpace
    rw [h.addr]
    exact mod_lt _ (by decide)
  · show u16 ((bytes + u16 (side.addr % cfg.width)) % cfg.width) = (bytes + u16 (side.addr % cfg.width)) % cfg.width
    rw [hu16]
    have hlt := mod_lt (bytes + side.addr % cfg.width) hwpos
    exact mod_eq_of_lt (by omega)
  · show u16 (((bytes + u16 (side.addr % cfg.width) - 1) >>> cfg.log2Width) + 1)
      = (bytes + u16 (side.addr % cfg.width) - 1) / cfg.width + 1
    rw [hu16, hshift]
    exact mod_eq_of_lt (by omega)

theorem SideOk.advance (h : SideOk cfg d req side) (hle : bytes ≤ side.length) :
    SideOk cfg d req (side.advance bytes) := by
  have hlen := h.le
  refine ⟨?_, ?_, h.shift⟩
  · show (side.addr + bytes) % addrSpace = (d.base req + (req.length - (side.length - bytes))) % addrSpace
    rw [h.addr, mod_add_mod]
    congr 1
    omega
  · show side.length - bytes ≤ req.length
    omega

theorem uncut_advance (h : SideOk cfg d req side) (hle : bytes ≤ side.length) :
    Dir.uncut (some req) side
      = d.remaining cfg (makeSplit cfg req side bytes) 0 ++ Dir.uncut (some req) (side.advance bytes) := by
  have hlen := h.le
  have hpos : d.pos (makeSplit cfg req side bytes) = req.length - side.length := by
    have hb := d.base_lt req
    have hl := req.length_lt
    show (side.addr + addrSpace - d.base req) % addrSpace = req.length - side.length
    rw [h.addr]
    unfold addrSpace at *
    omega
  have hrem : d.remaining cfg (makeSplit cfg req side bytes) 0 = req.bytesFrom (req.length - side.length) bytes := by
    unfold Dir.remaining
    dsimp only
    rw [zero_mul, Nat.zero_sub, add_zero, hpos]
    rfl
  rw [hrem]
  show req.bytesFrom (req.length - side.length) side.length = req.bytesFrom (req.length - side.length) bytes
    ++ req.bytesFrom (req.length - (side.length - bytes)) (side.length - bytes)
  rw [show req.length - (side.length - bytes) = req.length - side.length + bytes by omega,
    ← bytesFrom_append, add_sub_of_le hle]

theorem queued_append {idx : Nat} {splits : List Split} (hidx : splits = [] → idx = 0) :
    d.queued cfg idx (splits ++ [split]) = d.queued cfg idx splits ++ d.remaining cfg split 0 := by
  cases splits with
  | nil => simp [Dir.queued, hidx rfl]
  | cons head rest => simp [Dir.queued]

theorem queued_beat {idx : Nat} {rest : List Split} (h : SplitOk cfg d split) (hidx : idx < split.numBeats) :
    d.queued cfg idx (split :: rest) = d.beat cfg split idx ++
      if idx + 1 = split.numBeats then d.queued cfg 0 rest else d.queued cfg (idx + 1) (split :: rest) := by
  rw [Dir.queued, remaining_succ h hidx, append_assoc]
  congr 1
  split
  · rename_i hlast
    rw [hlast, remaining_numBeats h, nil_append]
    cases rest with
    | nil => rfl
    | cons head rest => rfl
  · rfl

end Beats

end GvsocPulp.IdmaV3
