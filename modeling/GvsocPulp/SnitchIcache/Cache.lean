import GvsocPulp.Lib.ClockEvent

/-!
# The Snitch instruction cache

What the L0 and the L1 of `SnitchIcache` have in common: the geometry, the lines, and the traffic on their ports.

- `tagOf`, `lineBase`, `lineOffset`: how an address is cut;
- `Traffic`: the fetches, what the refill port has read, the flushes and the answers;
- `Source`, `Fresh`: the bytes of a line, or of an answer, have been read after the last flush that they must not
  precede.
-/

namespace GvsocPulp.SnitchIcache

open Function List Option Nat

abbrev Byte := BitVec 8

structure Config where
  /-- `LINE_WIDTH` bits are `2 ^ lineSizeBits` bytes. -/
  lineSizeBits : Nat
  /-- The lines of the L0, the sets of the L1. -/
  lineCount : Nat
  wayCount : Nat
  nrFetchPorts : Nat
  numAxiOutstanding : Nat
  serialLookup : Bool
  cacheableBase : Nat
  cacheableSize : Nat
  lineSizeBits_pos : 0 < lineSizeBits
  lineCount_pos : 0 < lineCount
  wayCount_pos : 0 < wayCount

namespace Config

variable (cfg : Config)

def lineBytes : Nat := 2 ^ cfg.lineSizeBits

def tagOf (addr : BitVec 32) : BitVec 32 := addr >>> cfg.lineSizeBits

def lineBase (tag : BitVec 32) : BitVec 32 := tag <<< cfg.lineSizeBits

def lineOffset (addr : BitVec 32) : Nat := addr.toNat % cfg.lineBytes

def cacheable (addr : BitVec 32) : Bool :=
  cfg.cacheableSize = 0 || (cfg.cacheableBase ≤ addr.toNat && addr.toNat - cfg.cacheableBase < cfg.cacheableSize)

end Config

/-- The tag of a line that holds nothing. -/
def noTag : BitVec 32 := BitVec.allOnes 32

theorem Config.tagOf_ne (cfg : Config) (addr : BitVec 32) : cfg.tagOf addr ≠ noTag := by
  intro he
  have hlt := congrArg BitVec.toNat he
  rw [Config.tagOf, BitVec.toNat_ushiftRight, shiftRight_eq_div_pow, noTag, BitVec.toNat_allOnes] at hlt
  have hdiv : addr.toNat / 2 ^ cfg.lineSizeBits ≤ addr.toNat / 2 :=
    div_le_div_left (Nat.le_self_pow cfg.lineSizeBits_pos.ne' 2) (by decide)
  have haddr := addr.isLt
  omega

structure Line where
  tag : BitVec 32 := noTag
  data : List Byte := []
  timestamp : Nat := 0
  deriving DecidableEq, Repr

/-- What the refill port answers to a request. -/
inductive RefillStatus
  | denied
  | granted
  | done (latency : Nat)
  deriving DecidableEq, Repr

/-- A fetch, and how many reads the refill port had done at the last flush of its line. -/
structure Request where
  port : Nat
  addr : BitVec 32
  size : Nat
  since : Nat
  deriving DecidableEq, Repr

structure Read where
  addr : BitVec 32
  bytes : List Byte
  deriving DecidableEq, Repr

structure Answer where
  port : Nat
  req : Nat
  data : List Byte
  deriving DecidableEq, Repr

/-- What passes through the ports of a cache; the fetches are numbered. -/
structure Traffic where
  mem : BitVec 32 → Byte := fun _ => 0
  /-- The memory has changed. -/
  written : Bool := false
  reqs : List Request := []
  reads : List Read := []
  /-- The reads that had been done at the last flush of a line. -/
  flushed : BitVec 32 → Nat := fun _ => 0
  /-- The fetches outside the cache that the refill port has still to answer. -/
  bypassed : List Nat := []
  denied : List Nat := []
  answered : List Answer := []

def slice (data : List Byte) (offset size : Nat) : List Byte := (data.drop offset).take size

namespace Traffic

variable (cfg : Config) (t : Traffic)

def bytesAt (addr : BitVec 32) (size : Nat) : List Byte :=
    (List.range size).map fun k => t.mem (addr + BitVec.ofNat 32 k)

/-- The refill port reads the memory. -/
def read (addr : BitVec 32) (size : Nat) : Traffic := { t with reads := t.reads ++ [⟨addr, t.bytesAt addr size⟩] }

def arrive (port : Nat) (addr : BitVec 32) (size : Nat) : Traffic :=
  { t with reqs := t.reqs ++ [⟨port, addr, size, t.flushed (cfg.tagOf addr)⟩] }

def deny (req : Nat) : Traffic := { t with denied := t.denied ++ [req] }

def answer (port req : Nat) (data : List Byte) : Traffic := { t with answered := t.answered ++ [⟨port, req, data⟩] }

def flush : Traffic := { t with flushed := fun _ => t.reads.length }

def flushLine (tag : BitVec 32) : Traffic := { t with flushed := update t.flushed tag t.reads.length }

def write (addr : BitVec 32) (byte : Byte) : Traffic := { t with mem := update t.mem addr byte, written := true }

/-- A fetch that is forwarded through the refill port. -/
def bypass (port req : Nat) (addr : BitVec 32) (size : Nat) : RefillStatus → Traffic
  | .denied => t.deny req
  | .granted => { t with bypassed := t.bypassed ++ [req] }
  | .done _ => (t.read addr size).answer port req (t.bytesAt addr size)

/-- The answer to such a fetch comes back, on its port. -/
def bypassResp (req : Nat) : Option Traffic :=
  if req ∈ t.bypassed then
    t.reqs[req]?.map fun r =>
      (({ t with bypassed := t.bypassed.erase req }).read r.addr r.size).answer r.port req (t.bytesAt r.addr r.size)
  else none

def Source (tag : BitVec 32) (data : List Byte) : Prop :=
  data.length = cfg.lineBytes ∧ ∃ k, t.flushed tag ≤ k ∧ t.reads[k]? = some ⟨cfg.lineBase tag, data⟩

def Fresh (port req : Nat) (data : List Byte) : Prop :=
  ∃ r, t.reqs[req]? = some r ∧ r.port = port ∧ data.length = r.size ∧ ∃ k, r.since ≤ k ∧
    ∃ source, t.reads[k]? = some source ∧ data = slice source.bytes (r.addr - source.addr).toNat r.size

/-- The fetches that have come since a flush have been answered with what has been read after it. -/
def Barrier : Prop := ∀ a ∈ t.answered, t.Fresh a.port a.req a.data

/-- The fetches stay in a line; what a flush goes by is bounded by what has been read; the answers are fresh. -/
structure Ok : Prop where
  inLine : ∀ r ∈ t.reqs, cfg.lineOffset r.addr + r.size ≤ cfg.lineBytes
  since : ∀ r ∈ t.reqs, r.since ≤ t.flushed (cfg.tagOf r.addr)
  bound : ∀ tag, t.flushed tag ≤ t.reads.length
  barrier : t.Barrier
  recorded : t.written = false → ∀ x ∈ t.reads, ∃ n, x.bytes = t.bytesAt x.addr n

/-- Between two flushes. -/
structure Later (t u : Traffic) : Prop where
  reqs : t.reqs <+: u.reqs
  reads : t.reads <+: u.reads
  flushed : u.flushed = t.flushed

variable {cfg t} {u : Traffic} {port req n : Nat} {tag addr : BitVec 32} {data : List Byte} {r : Request}

theorem getElem?_of_prefix {α : Type} {xs ys : List α} {k : Nat} {a : α} (h : xs <+: ys) (ha : xs[k]? = some a) :
    ys[k]? = some a := by
  obtain ⟨zs, rfl⟩ := h
  rw [getElem?_append_left (List.getElem?_eq_some_iff.1 ha).1]
  exact ha

namespace Later

theorem refl (t : Traffic) : Later t t := ⟨prefix_rfl, prefix_rfl, rfl⟩

theorem read : Later t (t.read addr n) := ⟨prefix_rfl, prefix_append _ _, rfl⟩

theorem answer : Later t (t.answer port req data) := ⟨prefix_rfl, prefix_rfl, rfl⟩

theorem arrive (cfg : Config) : Later t (t.arrive cfg port addr n) := ⟨prefix_append _ _, prefix_rfl, rfl⟩

theorem bypass {status : RefillStatus} : Later t (t.bypass port req addr n status) := by
  cases status
  · exact ⟨prefix_rfl, prefix_rfl, rfl⟩
  · exact ⟨prefix_rfl, prefix_rfl, rfl⟩
  · exact ⟨prefix_rfl, prefix_append _ _, rfl⟩

theorem source (h : Later t u) (hs : t.Source cfg tag data) : u.Source cfg tag data := by
  obtain ⟨hlen, k, hk, hread⟩ := hs
  exact ⟨hlen, k, by rw [h.flushed]; exact hk, getElem?_of_prefix h.reads hread⟩

end Later

theorem bypass_reqs {status : RefillStatus} : (t.bypass port req addr n status).reqs = t.reqs := by cases status <;> rfl

theorem bypassResp_reqs (hu : t.bypassResp req = some u) : u.reqs = t.reqs := by
  rw [bypassResp, ite_none_right_eq_some] at hu
  obtain ⟨r, -, rfl⟩ := map_eq_some_iff.1 hu.2
  rfl

theorem Fresh.mono (hreqs : t.reqs <+: u.reqs) (hreads : t.reads <+: u.reads) (h : t.Fresh port req data) :
    u.Fresh port req data := by
  obtain ⟨r, hr, hport, hlen, k, hk, source, hsource, hdata⟩ := h
  exact ⟨r, getElem?_of_prefix hreqs hr, hport, hlen, k, hk, source, getElem?_of_prefix hreads hsource, hdata⟩

theorem Later.fresh (h : Later t u) (hf : t.Fresh port req data) : u.Fresh port req data := hf.mono h.reqs h.reads

theorem offset_eq (cfg : Config) (addr : BitVec 32) :
    (addr - cfg.lineBase (cfg.tagOf addr)).toNat = cfg.lineOffset addr := by
  have hdiv : addr.toNat / cfg.lineBytes * cfg.lineBytes + addr.toNat % cfg.lineBytes = addr.toNat := by
    rw [mul_comm]
    exact div_add_mod _ _
  have hbase : (cfg.lineBase (cfg.tagOf addr)).toNat = addr.toNat / cfg.lineBytes * cfg.lineBytes := by
    rw [Config.lineBase, Config.tagOf, BitVec.toNat_shiftLeft, BitVec.toNat_ushiftRight, shiftLeft_eq,
      shiftRight_eq_div_pow]
    exact mod_eq_of_lt ((div_mul_le_self _ _).trans_lt addr.isLt)
  rw [BitVec.toNat_sub_of_le (by rw [BitVec.le_def, hbase]; exact div_mul_le_self _ _), hbase, Config.lineOffset]
  omega

theorem Ok.fresh (h : t.Ok cfg) (hr : t.reqs[req]? = some r) (hs : t.Source cfg (cfg.tagOf r.addr) data) :
    t.Fresh r.port req (slice data (cfg.lineOffset r.addr) r.size) := by
  obtain ⟨hlen, k, hk, hread⟩ := hs
  have hfit := h.inLine r (mem_of_getElem? hr)
  refine ⟨r, hr, rfl, ?_, k, (h.since r (mem_of_getElem? hr)).trans hk, _, hread, ?_⟩
  · rw [slice, length_take, length_drop, hlen]
    omega
  · rw [offset_eq]

theorem Ok.source_read (h : t.Ok cfg) (tag : BitVec 32) :
    (t.read (cfg.lineBase tag) cfg.lineBytes).Source cfg tag (t.bytesAt (cfg.lineBase tag) cfg.lineBytes) :=
  ⟨by simp [bytesAt], t.reads.length, h.bound tag, by simp [read]⟩

namespace Ok

variable (h : t.Ok cfg)
include h

theorem read (addr : BitVec 32) (n : Nat) : (t.read addr n).Ok cfg where
  inLine := h.inLine
  since := h.since
  bound tag := (h.bound tag).trans (by simp [Traffic.read])
  barrier a ha := Later.read.fresh (h.barrier a ha)
  recorded hw x hx := by
    rcases mem_append.1 hx with hx | hx
    · exact h.recorded hw x hx
    · obtain rfl := mem_singleton.1 hx
      exact ⟨n, rfl⟩

theorem answer (hf : t.Fresh port req data) : (t.answer port req data).Ok cfg where
  inLine := h.inLine
  since := h.since
  recorded := h.recorded
  bound := h.bound
  barrier a ha := by
    rcases mem_append.1 ha with ha | ha
    · exact Later.answer.fresh (h.barrier a ha)
    · obtain rfl := mem_singleton.1 ha
      exact Later.answer.fresh hf

theorem arrive (port : Nat) (hfit : cfg.lineOffset addr + n ≤ cfg.lineBytes) :
    (t.arrive cfg port addr n).Ok cfg where
  inLine r hr := by
    rcases mem_append.1 hr with hr | hr
    · exact h.inLine r hr
    · obtain rfl := mem_singleton.1 hr
      exact hfit
  recorded := h.recorded
  since r hr := by
    rcases mem_append.1 hr with hr | hr
    · exact h.since r hr
    · obtain rfl := mem_singleton.1 hr
      exact le_rfl
  bound := h.bound
  barrier a ha := (Later.arrive cfg).fresh (h.barrier a ha)

theorem deny (req : Nat) : (t.deny req).Ok cfg :=
  { h with }

theorem write (addr : BitVec 32) (byte : Byte) : (t.write addr byte).Ok cfg :=
  { h with recorded := nofun }

theorem fresh_read (hr : t.reqs[req]? = some r) :
    (t.read r.addr r.size).Fresh r.port req (t.bytesAt r.addr r.size) := by
  refine ⟨r, hr, rfl, by simp [bytesAt], t.reads.length, ((h.since r (mem_of_getElem? hr)).trans (h.bound _)),
    ⟨r.addr, t.bytesAt r.addr r.size⟩, by simp [Traffic.read], ?_⟩
  have hlen : (t.bytesAt r.addr r.size).length ≤ r.size := by simp [bytesAt]
  rw [slice, BitVec.sub_self, BitVec.toNat_ofNat, zero_mod, drop_zero, take_of_length_le hlen]

theorem bypass (hr : t.reqs[req]? = some r) (status : RefillStatus) :
    (t.bypass r.port req r.addr r.size status).Ok cfg := by
  cases status with
  | denied => exact h.deny req
  | granted => exact { h with }
  | done latency => exact (h.read _ _).answer (h.fresh_read hr)

theorem bypassResp (hu : t.bypassResp req = some u) : u.Ok cfg ∧ Later t u := by
  rw [Traffic.bypassResp, ite_none_right_eq_some] at hu
  obtain ⟨-, hu⟩ := hu
  obtain ⟨r, hr, rfl⟩ := map_eq_some_iff.1 hu
  have hok : ({ t with bypassed := t.bypassed.erase req } : Traffic).Ok cfg :=
    { h with }
  exact ⟨(hok.read r.addr r.size).answer (hok.fresh_read hr), prefix_rfl, prefix_append _ _, rfl⟩

theorem flush : t.flush.Ok cfg where
  inLine := h.inLine
  recorded := h.recorded
  since r hr := (h.since r hr).trans (h.bound _)
  bound _ := le_rfl
  barrier a ha := (h.barrier a ha).mono prefix_rfl prefix_rfl

theorem flushed_le (tag tag' : BitVec 32) : t.flushed tag' ≤ (t.flushLine tag).flushed tag' := by
  change _ ≤ update t.flushed tag t.reads.length tag'
  rw [update_apply]
  split
  · exact h.bound tag'
  · exact le_rfl

theorem flushLine (tag : BitVec 32) : (t.flushLine tag).Ok cfg where
  inLine := h.inLine
  recorded := h.recorded
  since r hr := (h.since r hr).trans (h.flushed_le _ _)
  bound tag' := by
    change update t.flushed tag t.reads.length tag' ≤ _
    rw [update_apply]
    split
    · exact le_rfl
    · exact h.bound tag'
  barrier a ha := (h.barrier a ha).mono prefix_rfl prefix_rfl

end Ok

theorem getElem?_bytesAt (t : Traffic) (addr : BitVec 32) (n k : Nat) :
    (t.bytesAt addr n)[k]? = if k < n then some (t.mem (addr + BitVec.ofNat 32 k)) else none := by
  rw [bytesAt, getElem?_map]
  split
  · rw [getElem?_range ‹_›]
    rfl
  · rw [getElem?_eq_none (by rw [length_range]; omega)]
    rfl

theorem Ok.bytesAt_of_source (h : t.Ok cfg) (hw : t.written = false) (hs : t.Source cfg tag data) :
    data = t.bytesAt (cfg.lineBase tag) cfg.lineBytes := by
  obtain ⟨hlen, k, -, hread⟩ := hs
  obtain ⟨n, hn⟩ := h.recorded hw _ (mem_of_getElem? hread)
  have hsize : n = cfg.lineBytes := by
    rw [← hlen, show data = t.bytesAt (cfg.lineBase tag) n from hn]
    simp [bytesAt]
  rw [← hsize]
  exact hn

theorem Ok.bytesAt_of_fresh (h : t.Ok cfg) (hw : t.written = false) (hf : t.Fresh port req data) :
    ∃ r, t.reqs[req]? = some r ∧ r.port = port ∧ data = t.bytesAt r.addr r.size := by
  obtain ⟨r, hr, hport, hlen, k, -, source, hsource, hdata⟩ := hf
  refine ⟨r, hr, hport, ?_⟩
  obtain ⟨n, hn⟩ := h.recorded hw _ (mem_of_getElem? hsource)
  generalize hoff : (r.addr - source.addr).toNat = off at hdata
  have hbase : source.addr + BitVec.ofNat 32 off = r.addr := by
    rw [← hoff, BitVec.ofNat_toNat, BitVec.setWidth_eq, BitVec.add_comm, BitVec.sub_add_cancel]
  refine ext_getElem? fun j => ?_
  have hbytes : data[j]? = if j < r.size then (t.bytesAt source.addr n)[off + j]? else none := by
    rw [hdata, hn, slice, getElem?_take]
    split
    · rw [getElem?_drop]
    · rfl
  rw [hbytes, getElem?_bytesAt, getElem?_bytesAt]
  by_cases hj : j < r.size
  · have hfit : off + j < n := by
      have hlt : j < data.length := hlen ▸ hj
      rw [hdata, hn, slice, length_take, length_drop] at hlt
      simp only [bytesAt, length_map, length_range] at hlt
      omega
    rw [if_pos hj, if_pos hfit, if_pos hj, ← hbase, BitVec.ofNat_add, BitVec.add_assoc]
  · rw [if_neg hj, if_neg hj]

theorem Source.flushLine (h : t.Source cfg tag data) {tag' : BitVec 32} (hne : tag ≠ tag') :
    (t.flushLine tag').Source cfg tag data := by
  obtain ⟨hlen, k, hk, hread⟩ := h
  have hflushed : (t.flushLine tag').flushed tag = t.flushed tag := update_of_ne hne _ _
  exact ⟨hlen, k, hflushed ▸ hk, hread⟩

end Traffic

end GvsocPulp.SnitchIcache
