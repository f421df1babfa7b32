import GvsocPulp.IdmaV3.Buffer
import GvsocPulp.Lib.Log2
import GvsocPulp.Lib.Run

/-!
# `IdmaBackend`: legalizer, FIFOs, buffer and write managers

The back-end of the DMA as a step function over the calls it reacts to: an evaluation of the legalizer, a read beat
offered by a read manager, a data beat of the AXI or of the OBI write manager, and the answers of the buses. What the
buses and the mid-end answer is part of the event; a refused or fatal call is `none`.

Addresses are taken modulo `2 ^ 64` and the `uint16_t` fields of a split modulo `2 ^ 16`; the other machine integers
hold numbers of bytes of at most one page or one bus word. `x & (width - 1)` and `x & (page - 1)` are remainders here,
as widths and pages are powers of two.
-/

namespace GvsocPulp.IdmaV3

open Lib Function

/-! ## Requests and configuration -/

/-- `IdmaProtocol`. -/
inductive Protocol
  | axi
  | obi
  | init
  deriving DecidableEq, Repr

inductive Manager
  | axi
  | obi
  deriving DecidableEq, Repr

abbrev addrSpace : Nat := 18446744073709551616

/-- `Idma1dReq`: what the back-end reads of a 1D request. -/
structure Request where
  src : Nat
  dst : Nat
  length : Nat
  srcProt : Protocol := .axi
  dstProt : Protocol := .axi
  decoupleRw : Bool := false
  decoupleAw : Bool := false
  srcReduceLen : Bool := false
  dstReduceLen : Bool := false
  srcMaxLlen : Nat := 0
  dstMaxLlen : Nat := 0
  src_lt : src < addrSpace := by decide
  dst_lt : dst < addrSpace := by decide
  length_lt : length < addrSpace := by decide
  deriving DecidableEq, Repr

/-- `IdmaBackendParams`, the parameters of the managers and which managers are registered. -/
structure Config where
  width : Nat
  numAxInFlight : Nat
  bufferDepth : Nat
  metaFifoDepth : Nat
  rawCoupling : Bool
  /-- `IdmaAxiConfig::burst_len` of the AXI read and write manager. -/
  readBurstLen : Nat
  writeBurstLen : Nat
  obiAwFifoDepth : Nat
  axiRead : Bool
  obiRead : Bool
  axiWrite : Bool
  obiWrite : Bool
  width_pow : ∃ k, width = 2 ^ k
  /-- The components refuse `raw_coupling` unless both sides are AXI. -/
  coupling_axi : rawCoupling = true → obiRead = false ∧ obiWrite = false

namespace Config

variable (cfg : Config)

/-- `read_manager(protocol)`; `none` for `nullptr`. -/
def readManager : Protocol → Option Manager
  | .axi => if cfg.axiRead then some .axi else none
  | .obi => if cfg.obiRead then some .obi else none
  | .init => none

/-- `write_manager(protocol)`; `none` for `nullptr`. -/
def writeManager : Protocol → Option Manager
  | .axi => if cfg.axiWrite then some .axi else none
  | .obi => if cfg.obiWrite then some .obi else none
  | .init => none

def log2Width : Nat := log2Loop cfg.width cfg.width 0

/-- `page_size` of an AXI manager: `2 ^ (log2_width + burst_len)` bytes, at most 4 KiB. -/
def pageSize (burstLen : Nat) : Nat := 2 ^ min (cfg.log2Width + burstLen) 12

def wlastDepth : Nat := if cfg.metaFifoDepth > 0 then cfg.metaFifoDepth else cfg.bufferDepth + cfg.numAxInFlight

/-- The number of write burst contexts. -/
def nbCtxs : Nat := (if cfg.metaFifoDepth > 0 then cfg.metaFifoDepth else cfg.numAxInFlight + 3) + 1

end Config

def Manager.notBursting : Manager → Bool
  | .axi => false
  | .obi => true

def Manager.bytesToPageBoundary (cfg : Config) (page addr : Nat) : Manager → Nat
  | .axi => page - addr % page
  | .obi => cfg.width - addr % cfg.width

/-! ## FIFOs -/

/-- `IdmaTimedFifo`: the entries with the cycle from which they are visible. -/
structure TimedFifo (α : Type) where
  queue : List (α × Int) := []
  lastPopCycle : Int := -1
  poppedInCycle : Nat := 0

namespace TimedFifo

variable {α : Type}

def canPush (depth : Nat) (now : Int) (f : TimedFifo α) : Bool :=
  f.queue.length + (if f.lastPopCycle = now then f.poppedInCycle else 0) < depth

def push (entry : α) (now : Int) (f : TimedFifo α) : TimedFifo α :=
  { f with queue := f.queue ++ [(entry, now + 1)] }

def visibleHead (now : Int) (f : TimedFifo α) : Option α :=
  match f.queue with
  | [] => none
  | (entry, visibleAt) :: _ => if visibleAt ≤ now then some entry else none

def pop (now : Int) (f : TimedFifo α) : TimedFifo α where
  queue := f.queue.tail
  lastPopCycle := now
  poppedInCycle := (if f.lastPopCycle ≠ now then 0 else f.poppedInCycle) + 1

def entries (f : TimedFifo α) : List α := f.queue.map (·.1)

@[simp] theorem entries_push (entry : α) (now : Int) (f : TimedFifo α) :
    (f.push entry now).entries = f.entries ++ [entry] := by simp [entries, push]

@[simp] theorem entries_pop (now : Int) (f : TimedFifo α) : (f.pop now).entries = f.entries.tail := by
  simp [entries, pop]

theorem entries_of_visibleHead {now : Int} {f : TimedFifo α} {entry : α} (h : f.visibleHead now = some entry) :
    ∃ rest, f.entries = entry :: rest := by
  unfold visibleHead at h
  unfold entries
  match hq : f.queue with
  | [] => simp [hq] at h
  | (e, visibleAt) :: rest =>
    simp only [hq] at h
    by_cases hat : visibleAt ≤ now
    · rw [if_pos hat] at h
      cases h
      exact ⟨rest.map (·.1), rfl⟩
    · rw [if_neg hat] at h; cases h

end TimedFifo

/-! ## Splits -/

/-- `uint16_t`. -/
def u16 (x : Nat) : Nat := x % 65536

/-- `IdmaLegalizer::Side`. -/
structure Side where
  valid : Bool := false
  addr : Nat := 0
  length : Nat := 0
  shift : Nat := 0
  reduceLen : Bool := false
  maxLlen : Nat := 0

/-- `IdmaSplit`: one burst of one side. -/
structure Split where
  addr : Nat
  numBytes : Nat
  offset : Nat
  tailer : Nat
  shift : Nat
  numBeats : Nat
  last : Bool
  decoupleAw : Bool
  req : Request

section Legalizer

variable (cfg : Config)

def makeSplit (req : Request) (side : Side) (numBytes : Nat) : Split :=
  let offset := u16 (side.addr % cfg.width)
  { addr := side.addr
    numBytes := numBytes
    offset := offset
    tailer := u16 ((numBytes + offset) % cfg.width)
    shift := side.shift
    numBeats := u16 (((numBytes + offset - 1) >>> cfg.log2Width) + 1)
    last := side.length = numBytes
    decoupleAw := req.decoupleAw
    req := req }

def bytesToBoundary (side : Side) (managerBytes : Nat) (notBursting : Bool) : Nat :=
  if !side.reduceLen || notBursting then managerBytes
  else
    let page := 2 ^ min (cfg.log2Width + side.maxLlen) 12
    min managerBytes (page - side.addr % page)

/-- How far a side may go: `r_bytes` and `w_bytes` of `step`, before coupling. -/
def sideBytes (side : Side) (manager : Manager) (page : Nat) : Nat :=
  if side.valid then
    min side.length
      (bytesToBoundary cfg side (manager.bytesToPageBoundary cfg page side.addr) manager.notBursting)
  else 0

def beatBytes (split : Split) (beatIdx : Nat) : BeatBytes :=
  let first := if beatIdx = 0 then split.offset else 0
  let stop := if beatIdx + 1 = split.numBeats ∧ split.tailer ≠ 0 then split.tailer else cfg.width
  ⟨first, stop - first⟩

/-- `addr & ~(width - 1)`. -/
def alignDown (addr : Nat) : Nat := addr - addr % cfg.width

def busAddr (split : Split) (beatIdx j : Nat) : Nat :=
  (alignDown cfg split.addr + beatIdx * cfg.width + j) % addrSpace

end Legalizer

/-! ## The state -/

structure Legalizer where
  r : Side := {}
  w : Side := {}
  req : Option Request := none
  rm : Option Manager := none
  wm : Option Manager := none
  coupled : Bool := false
  lastTakeCycle : Int := -1

structure ReadSlot where
  split : Split
  manager : Manager
  token : Nat

structure WriteSlot where
  split : Split
  manager : Manager

structure LastSlot where
  req : Request
  last : Bool

/-- `WriteCtx`: one AXI write burst, from its AW to its response. -/
structure WriteCtx where
  inUse : Bool := false
  awIssued : Bool := false
  beatsSent : Nat := 0
  numBeats : Nat := 0
  error : Bool := false

/-- A data beat on the AXI write bus: `size` bytes from `data` on. -/
structure Beat where
  addr : Nat
  size : Nat
  data : Nat → UInt8
  isLast : Bool
  slot : Nat

def Beat.writes (beat : Beat) : List (Nat × UInt8) :=
  (List.range beat.size).map fun i => ((beat.addr + i) % addrSpace, beat.data i)

structure AxiWrite where
  ctxs : Nat → WriteCtx
  /-- `free_ctxs`, its back first. -/
  freeCtxs : List Nat
  dataQueue : List Nat := []
  awWaiting : List Nat := []
  awCredits : Nat := 0
  heldBeat : Option Beat := none

structure ObiWrite where
  awFifo : TimedFifo Split := {}
  nbInUse : Nat := 0
  lastIssueCycle : Int := -1

/-- What has been observed of a run. -/
structure Log where
  /-- The requests the legalizer took. -/
  taken : List Request := []
  delivered : List (Nat × UInt8) := []
  /-- The bytes of the data beats the write managers sent, with their addresses. -/
  emitted : List (Nat × UInt8) := []
  /-- The bytes of the data beats the write buses took: a denied beat is held and sent again. -/
  accepted : List (Nat × UInt8) := []
  /-- The requests answered by `complete_1d`. -/
  completed : List Request := []

structure Backend where
  now : Int := 0
  legalizer : Legalizer := {}
  rFifo : TimedFifo ReadSlot := {}
  wFifo : TimedFifo WriteSlot := {}
  wlast : TimedFifo LastSlot := {}
  buffer : LaneBuffer := .init
  rBeatIdx : Nat := 0
  wBeatIdx : Nat := 0
  axi : AxiWrite
  obi : ObiWrite := {}
  log : Log := {}

/-- The back-end after reset. -/
def Backend.init (cfg : Config) : Backend where
  axi := { ctxs := fun _ => {}, freeCtxs := (List.range cfg.nbCtxs).reverse }

/-! ## The managers -/

/-- `io_v2` answers: the status of a request and of a response. -/
inductive RespStatus
  | ok
  | invalid
  deriving DecidableEq, Repr

inductive ReqStatus
  | granted
  | denied
  | done (resp : RespStatus)
  deriving DecidableEq, Repr

section Managers

variable (cfg : Config)

/-- `IdmaAxiWrite::aw_ready`, `IdmaObiWrite::aw_ready`. -/
def awReady (s : Backend) : Manager → Bool
  | .axi => !s.axi.freeCtxs.isEmpty && (!cfg.rawCoupling || s.axi.awWaiting.length < cfg.numAxInFlight)
  | .obi => s.obi.awFifo.canPush cfg.obiAwFifoDepth s.now

def awUnissued (s : Backend) : Manager → Nat
  | .axi => 0
  | .obi => s.obi.awFifo.queue.length

def awDepth : Manager → Nat
  | .axi => 0
  | .obi => cfg.obiAwFifoDepth

/-- `IdmaAxiWrite::issue_aw`; `none` without a free context. -/
def AxiWrite.issueAw (split : Split) (a : AxiWrite) : Option AxiWrite :=
  match a.freeCtxs with
  | [] => none
  | slot :: free =>
    let ctx : WriteCtx := { inUse := true, awIssued := true, numBeats := split.numBeats }
    let a := { a with freeCtxs := free, dataQueue := a.dataQueue ++ [slot] }
    some <|
      if cfg.rawCoupling && !split.decoupleAw then
        -- the AW leaves when a read burst delivered its first beat
        if a.awCredits > 0 then { a with ctxs := update a.ctxs slot ctx, awCredits := a.awCredits - 1 }
        else
          { a with
            ctxs := update a.ctxs slot { ctx with awIssued := false }
            awWaiting := a.awWaiting ++ [slot] }
      else { a with ctxs := update a.ctxs slot ctx }

def issueAw (split : Split) (s : Backend) : Manager → Option Backend
  | .axi => (s.axi.issueAw cfg split).map fun a => { s with axi := a }
  | .obi => some { s with obi := { s.obi with awFifo := s.obi.awFifo.push split s.now } }

def AxiWrite.onReadFirstBeat (a : AxiWrite) : AxiWrite :=
  if cfg.rawCoupling then
    match a.awWaiting with
    | slot :: rest =>
      { a with ctxs := update a.ctxs slot { a.ctxs slot with awIssued := true }, awWaiting := rest }
    | [] => { a with awCredits := a.awCredits + 1 }
  else a

end Managers

/-! ## The legalizer -/

section Step

variable (cfg : Config)

/-- `take_request(now)`, when `peek_1d` gives `next`. -/
def takeRequest (next : Option Request) (s : Backend) : Option Backend :=
  let lg := s.legalizer
  if lg.lastTakeCycle = s.now then some s
  else if lg.wm.any fun wm => awUnissued s wm > awDepth cfg wm then some s
  else match next with
    | none => some s
    | some req =>
      if req.length = 0 then
        some { s with
          legalizer := { lg with lastTakeCycle := s.now }
          log := { s.log with completed := s.log.completed ++ [req] } }
      else match cfg.readManager req.srcProt, cfg.writeManager req.dstProt with
        | some rm, some wm =>
          some { s with
            legalizer :=
              { r := { valid := true, addr := req.src, length := req.length, shift := u16 (req.src % cfg.width),
                       reduceLen := req.srcReduceLen, maxLlen := req.srcMaxLlen }
                w := { valid := true, addr := req.dst, length := req.length,
                       shift := u16 ((cfg.width - req.dst % cfg.width) % cfg.width),
                       reduceLen := req.dstReduceLen, maxLlen := req.dstMaxLlen }
                req := some req
                rm := some rm
                wm := some wm
                coupled := !req.decoupleRw && !rm.notBursting && !wm.notBursting
                lastTakeCycle := s.now }
            log := { s.log with taken := s.log.taken ++ [req] } }
        | _, _ => none

/-- A zero-length request behind the current one is answered at once. -/
def rejectZero (next : Option Request) (s : Backend) : Backend :=
  match next with
  | none => s
  | some req =>
    if req.length = 0 ∧ s.legalizer.lastTakeCycle ≠ s.now then
      { s with
        legalizer := { s.legalizer with lastTakeCycle := s.now }
        log := { s.log with completed := s.log.completed ++ [req] } }
    else s

def Side.advance (side : Side) (bytes : Nat) : Side :=
  { side with addr := (side.addr + bytes) % addrSpace, length := side.length - bytes, valid := side.length - bytes ≠ 0 }

/-- The read split of `step`. -/
def emitRead (req : Request) (rm : Manager) (bytes token : Nat) (s : Backend) : Backend :=
  { s with
    rFifo := s.rFifo.push ⟨makeSplit cfg req s.legalizer.r bytes, rm, token⟩ s.now
    legalizer := { s.legalizer with r := s.legalizer.r.advance bytes } }

/-- The write split of `step`. -/
def emitWrite (req : Request) (wm : Manager) (bytes : Nat) (s : Backend) : Option Backend :=
  let split := makeSplit cfg req s.legalizer.w bytes
  let s :=
    { s with
      wFifo := s.wFifo.push ⟨split, wm⟩ s.now
      wlast := s.wlast.push ⟨req, split.last⟩ s.now
      legalizer := { s.legalizer with w := s.legalizer.w.advance bytes } }
  issueAw cfg split s wm

/-- What one evaluation cuts. -/
structure Plan where
  rBytes : Nat
  wBytes : Nat
  rGo : Bool
  wGo : Bool

/-- The bursts of an evaluation: both sides together when coupled, each on its own otherwise. -/
def plan (lg : Legalizer) (rm wm : Manager) (rReady wReady : Bool) : Plan :=
  let rBytes := sideBytes cfg lg.r rm (cfg.pageSize cfg.readBurstLen)
  let wBytes := sideBytes cfg lg.w wm (cfg.pageSize cfg.writeBurstLen)
  if lg.coupled then ⟨min rBytes wBytes, min rBytes wBytes, rReady && wReady, rReady && wReady⟩
  else ⟨rBytes, wBytes, rReady, wReady⟩

/-- The part of `step` that cuts the current request. -/
def cut (rm wm : Manager) (req : Request) (arReady : Bool) (token : Nat) (s : Backend) : Option Backend :=
  let lg := s.legalizer
  let rReady := lg.r.valid && s.rFifo.canPush cfg.numAxInFlight s.now && arReady
  let wReady := lg.w.valid && s.wFifo.canPush cfg.numAxInFlight s.now && s.wlast.canPush cfg.wlastDepth s.now
    && awReady cfg s wm
  let p := plan cfg lg rm wm rReady wReady
  let s := if p.rGo then emitRead cfg req rm p.rBytes token s else s
  if p.wGo then emitWrite cfg req wm p.wBytes s else some s

/-- `IdmaLegalizer::step(now)`: the mid-end shows `next`, the read address channel is ready or not, and `issue_ar`
returns `token`. -/
def legalizerStep (next : Option Request) (arReady : Bool) (token : Nat) (s : Backend) : Option Backend :=
  if !s.legalizer.r.valid && !s.legalizer.w.valid then takeRequest cfg next s
  else match s.legalizer.req, s.legalizer.rm, s.legalizer.wm with
    | some req, some rm, some wm =>
      (cut cfg rm wm req arReady token (rejectZero next s)).bind fun s =>
        if !s.legalizer.r.valid && !s.legalizer.w.valid then
          -- last split: the next request is taken in the same cycle
          takeRequest cfg next { s with legalizer := { s.legalizer with req := none } }
        else some s
    | _, _, _ => none

/-! ## Beats -/

def readBeatAccept (slot : ReadSlot) (bus : Nat → UInt8) (s : Backend) : Backend :=
  let bytes := beatBytes cfg slot.split s.rBeatIdx
  let credit := s.rBeatIdx = 0 ∧ slot.split.decoupleAw = false ∧ cfg.writeManager slot.split.req.dstProt = some .axi
  let done := s.rBeatIdx + 1 = slot.split.numBeats
  { s with
    buffer := s.buffer.push cfg.width cfg.bufferDepth bytes bus slot.split.shift s.now
    axi := if credit then s.axi.onReadFirstBeat cfg else s.axi
    rBeatIdx := if done then 0 else s.rBeatIdx + 1
    rFifo := if done then s.rFifo.pop s.now else s.rFifo
    log := { s.log with
      delivered := s.log.delivered ++ bytes.indices.map fun j => (busAddr cfg slot.split s.rBeatIdx j, bus j) } }

/-- A read manager offers a beat: `read_beat_can_accept`, then `read_beat_accept`. -/
def readBeat (manager : Manager) (token : Nat) (bus : Nat → UInt8) (s : Backend) : Option Backend :=
  match s.rFifo.visibleHead s.now with
  | none => none
  | some slot =>
    if slot.manager = manager ∧ slot.token = token
        ∧ s.buffer.canPush cfg.width cfg.bufferDepth (beatBytes cfg slot.split s.rBeatIdx) slot.split.shift s.now =
          true then
      some (readBeatAccept cfg slot bus s)
    else none

/-- `write_beat_ready(manager, ..)`: the split and the bytes of the next beat. -/
def writeBeatReady (manager : Manager) (s : Backend) : Option (Split × BeatBytes) :=
  match s.wFifo.visibleHead s.now with
  | none => none
  | some slot =>
    let bytes := beatBytes cfg slot.split s.wBeatIdx
    if slot.manager = manager ∧ s.buffer.canPop cfg.width bytes slot.split.shift s.now = true then
      some (slot.split, bytes)
    else none

/-- `write_beat_take(manager, bus, now)` for that beat: the state and the bus word. -/
def writeBeatTake (split : Split) (bytes : BeatBytes) (bus : Nat → UInt8) (s : Backend) :
    Backend × (Nat → UInt8) :=
  let (buffer, bus) := s.buffer.pop cfg.width cfg.bufferDepth bytes split.shift bus
  let done := s.wBeatIdx + 1 = split.numBeats
  ({ s with
      buffer := buffer
      wBeatIdx := if done then 0 else s.wBeatIdx + 1
      wFifo := if done then s.wFifo.pop s.now else s.wFifo }, bus)

/-- `write_burst_done(manager, error)`; `none` without an outstanding burst. -/
def writeBurstDone (s : Backend) : Option Backend :=
  match s.wlast.entries with
  | [] => none
  | slot :: _ =>
    some { s with
      wlast := s.wlast.pop s.now
      log := if slot.last then { s.log with completed := s.log.completed ++ [slot.req] } else s.log }

/-- `IdmaAxiWrite::complete(ctx, status)`. -/
def axiComplete (slot : Nat) (s : Backend) : Option Backend :=
  writeBurstDone { s with
    axi := { s.axi with
      ctxs := update s.axi.ctxs slot { s.axi.ctxs slot with inUse := false }
      freeCtxs := slot :: s.axi.freeCtxs } }

/-- `IdmaAxiWrite::send_beat(beat)`, when the bus answers `status`. -/
def sendBeat (beat : Beat) (status : ReqStatus) (s : Backend) : Option Backend :=
  let sent := { s with log := { s.log with accepted := s.log.accepted ++ beat.writes } }
  match status with
  | .denied => some { s with axi := { s.axi with heldBeat := some beat } }
  | .granted => some sent
  | .done resp =>
    if !beat.isLast && resp ≠ .invalid then none
    else
      let ctx := s.axi.ctxs beat.slot
      let sent := { sent with
        axi := { s.axi with
          ctxs := update s.axi.ctxs beat.slot { ctx with error := ctx.error || resp = .invalid } } }
      if beat.isLast then axiComplete beat.slot sent else some sent

/-- `IdmaAxiWrite::tick(now)`, when the bus answers `status`; `none` when there is no beat to send. -/
def axiTick (status : ReqStatus) (s : Backend) : Option Backend :=
  match s.axi.heldBeat, s.axi.dataQueue with
  | none, slot :: rest =>
    let ctx := s.axi.ctxs slot
    if ctx.awIssued then
      match writeBeatReady cfg .axi s with
      | none => none
      | some (split, bytes) =>
        let beatIdx := s.wBeatIdx
        let isLast := beatIdx + 1 = split.numBeats
        let (s, bus) := writeBeatTake cfg split bytes (fun _ => 0) s
        let beat : Beat :=
          { addr := busAddr cfg split beatIdx bytes.first
            size := bytes.count
            data := fun i => bus (bytes.first + i)
            isLast := isLast
            slot := slot }
        sendBeat beat status { s with
          axi := { s.axi with
            ctxs := update s.axi.ctxs slot { ctx with beatsSent := ctx.beatsSent + 1 }
            dataQueue := if isLast then rest else slot :: rest }
          log := { s.log with emitted := s.log.emitted ++ beat.writes } }
    else none
  | _, _ => none

/-- `IdmaAxiWrite::retry_meth`: the held beat is sent again. -/
def axiRetry (status : ReqStatus) (s : Backend) : Option Backend :=
  match s.axi.heldBeat with
  | none => none
  | some beat => sendBeat beat status { s with axi := { s.axi with heldBeat := none } }

/-- `IdmaAxiWrite::resp_meth`: the bus acknowledges a burst all of whose beats it took. -/
def axiAck (slot : Nat) (s : Backend) : Option Backend :=
  let ctx := s.axi.ctxs slot
  if ctx.inUse ∧ ctx.beatsSent = ctx.numBeats ∧ ∀ beat ∈ s.axi.heldBeat, beat.slot ≠ slot then axiComplete slot s
  else none

def nbWords : Nat := 4

/-- `IdmaObiWrite::obi_issue_word`, when `obi_has_word()`. -/
def obiIssueWord (s : Backend) : Option Backend :=
  if (s.obi.awFifo.visibleHead s.now).isNone ∨ s.obi.nbInUse ≥ nbWords ∨ s.obi.lastIssueCycle = s.now then none
  else match writeBeatReady cfg .obi s with
    | none => none
    | some (split, bytes) =>
      let (s, bus) := writeBeatTake cfg split bytes (fun _ => 0) s
      let wordAddr := alignDown cfg split.addr + bytes.first
      let writes := (List.range bytes.count).map fun i => ((wordAddr + i) % addrSpace, bus (bytes.first + i))
      some { s with
        obi := { awFifo := s.obi.awFifo.pop s.now, nbInUse := s.obi.nbInUse + 1, lastIssueCycle := s.now }
        log := { s.log with emitted := s.log.emitted ++ writes, accepted := s.log.accepted ++ writes } }

def obiWordDone (s : Backend) : Option Backend :=
  if s.obi.nbInUse = 0 then none
  else writeBurstDone { s with obi := { s.obi with nbInUse := s.obi.nbInUse - 1 } }

/-! ## Runs -/

/-- What happens to a back-end. -/
inductive Event
  | legalizer (next : Option Request) (arReady : Bool) (token : Nat)
  | readBeat (manager : Manager) (token : Nat) (bus : Nat → UInt8)
  | axiTick (status : ReqStatus)
  | axiRetry (status : ReqStatus)
  | axiAck (slot : Nat)
  | obiIssueWord
  | obiWordDone
  | cycle

def step (s : Backend) : Event → Option Backend
  | .legalizer next arReady token => legalizerStep cfg next arReady token s
  | .readBeat manager token bus => readBeat cfg manager token bus s
  | .axiTick status => axiTick cfg status s
  | .axiRetry status => axiRetry status s
  | .axiAck slot => axiAck slot s
  | .obiIssueWord => obiIssueWord cfg s
  | .obiWordDone => obiWordDone s
  | .cycle => some { s with now := s.now + 1 }

end Step

end GvsocPulp.IdmaV3
