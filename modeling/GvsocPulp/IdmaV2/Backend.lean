import GvsocPulp.IdmaV2.MiddleEnd
import GvsocPulp.Lib.Run

/-!
# The AXI back-end of the iDMA v2

`IDmaBe` (`be/idma_be.cpp`) cuts the lines of the middle-end into bursts, for a reading and a writing instance of
`IDmaBeAxi` (`be/idma_be_axi.cpp`). The buses are the environment: an event of a handler carries the answer to its
request. Read beats come back in the order of the bursts and have at least one byte; a write burst is acknowledged with
its last beat or later, in any order.

Sizes are natural numbers; addresses are taken modulo `2 ^ 64`. There is one source back-end, so the test of
`IDmaBe::fsm_handler` on the previous one always passes.
-/

namespace GvsocPulp.IdmaV2

open Function

structure BeConfig where
  axiWidth : Nat
  axiWidth_pos : 0 < axiWidth
  burstSize : Int
  burstQueueSize : Nat

abbrev axiPageSize : Nat := 4096

/-- `BurstInfo`. `data` is what has been put into the buffer of the slot; its length is `bytes_buffered` of a write. -/
structure BurstInfo where
  transfer : Nat := 0
  base : BitVec 64 := 0
  totalSize : Nat := 0
  data : List UInt8 := []
  bytesIssued : Nat := 0
  bytesResponded : Nat := 0
  bytesAcked : Nat := 0
  writePendingAcks : List Nat := []
  deriving DecidableEq, Repr

structure IDmaBeAxi where
  burstInfo : Nat → BurstInfo := fun _ => {}
  freeBursts : List Nat := []
  pendingBursts : List Nat := []
  writeFillQueue : List Nat := []
  /-- The slot, and the offset and the size of the chunk in its buffer. -/
  readPushQueue : List (Nat × Nat × Nat) := []
  readAckQueue : List (Nat × Nat) := []
  deniedBlocked : Bool := false

namespace IDmaBeAxi

variable (cfg : BeConfig) (be : IDmaBeAxi)

def getBurstSize (base : BitVec 64) (size : Nat) : Nat :=
  let size := min size axiPageSize
  let size := min size (256 * cfg.axiWidth)
  let size := if 0 < cfg.burstSize then min size cfg.burstSize.toNat else size
  let nextPage := (base + 4095#64) &&& ~~~4095#64
  if base < nextPage then min (nextPage - base).toNat size else size

def set (slot : Nat) (info : BurstInfo) : IDmaBeAxi := { be with burstInfo := update be.burstInfo slot info }

def enqueueBurst (base : BitVec 64) (size : Nat) (isWrite : Bool) (transfer : Nat) : IDmaBeAxi :=
  match be.freeBursts with
  | [] => be
  | slot :: free =>
    { be.set slot { transfer := transfer, base := base, totalSize := size } with
      freeBursts := free
      pendingBursts := be.pendingBursts ++ [slot]
      writeFillQueue := if isWrite then be.writeFillQueue ++ [slot] else be.writeFillQueue }

def canAcceptBurst : Bool := !be.freeBursts.isEmpty

def canAcceptData : Bool := !be.writeFillQueue.isEmpty

/-- The loop of `write_data` over the fill queue. The second component is `true` where the code is fatal. -/
def fill (burstInfo : Nat → BurstInfo) : List Nat → List UInt8 → (Nat → BurstInfo) × List Nat × Bool
  | queue, [] => (burstInfo, queue, false)
  | [], _ :: _ => (burstInfo, [], true)
  | slot :: queue, data =>
    let info := burstInfo slot
    let room := info.totalSize - info.data.length
    let take := min room data.length
    let info := { info with data := info.data ++ data.take take, writePendingAcks := info.writePendingAcks ++ [take] }
    let burstInfo := update burstInfo slot info
    if info.data.length = info.totalSize then fill burstInfo queue (data.drop take)
      else (burstInfo, slot :: queue, false)

def writeDataAck : IDmaBeAxi :=
  match be.readAckQueue with
  | [] => be
  | (slot, chunk) :: queue =>
    let info := { be.burstInfo slot with bytesAcked := (be.burstInfo slot).bytesAcked + chunk }
    let be := { be.set slot info with readAckQueue := queue }
    if info.bytesAcked = info.totalSize then { be with freeBursts := be.freeBursts ++ [slot] } else be

end IDmaBeAxi

/-- A byte on a bus, with the line it belongs to. -/
structure Access where
  line : Nat
  addr : BitVec 64
  byte : UInt8
  deriving DecidableEq, Repr

/-- Bytes at increasing addresses. -/
def accesses (line : Nat) : BitVec 64 → List UInt8 → List Access
  | _, [] => []
  | addr, byte :: bytes => { line := line, addr := addr, byte := byte } :: accesses line (addr + 1) bytes

structure Dma where
  me : IDmaMe2D := {}
  /-- The line that is cut into bursts. -/
  currentTransfer : Nat := 0
  currentTransferSize : Nat := 0
  currentTransferSrc : BitVec 64 := 0
  currentTransferDst : BitVec 64 := 0
  ackSize : Nat → Nat := fun _ => 0
  beRead : IDmaBeAxi
  beWrite : IDmaBeAxi
  /-- The slots of the reads that the bus has accepted and not answered completely, in order. -/
  readBus : List Nat := []
  /-- The slots of the write bursts that the bus has accepted and not acknowledged. -/
  writeBus : List Nat := []
  /-- The lines of the middle-end, with their transfers. -/
  lines : List (Nat × Burst) := []
  readLog : List Access := []
  writeLog : List Access := []
  fatal : Bool := false

inductive Answer
  | denied
  | granted
  /-- The inline acknowledgement of a write burst. -/
  | done
  deriving DecidableEq, Repr

inductive BeEvent
  | enqueueTransfer (t : IdmaTransfer)
  | meFsm
  | beFsm
  | readFsm (granted : Bool)
  | writeFsm (answer : Answer)
  | readBeat (data : List UInt8)
  | writeAck (slot : Nat)
  | readRetry
  | writeRetry
  deriving DecidableEq, Repr

namespace Dma

variable (cfg : BeConfig) (s : Dma)

def init : Dma :=
  { beRead := { freeBursts := List.range cfg.burstQueueSize },
    beWrite := { freeBursts := List.range cfg.burstQueueSize } }

/-! ## The middle-end and `IDmaBe` -/

def enqueueTransfer (n : Nat) (burst : Burst) : Dma :=
  { s with
    currentTransfer := s.lines.length
    currentTransferSize := burst.size.toNat
    currentTransferSrc := burst.src
    currentTransferDst := burst.dst
    ackSize := update s.ackSize s.lines.length burst.size.toNat
    lines := s.lines ++ [(n, burst)] }

/-- `IDmaMe2D::fsm_handler` -/
def meFsm : Dma :=
  let s := { s with me := s.me.load me2d }
  match s.me.offer me2d with
  | some (n, burst) =>
    if s.currentTransferSize = 0 then { s with me := s.me.feed me2d }.enqueueTransfer n burst else s
  | none => s

/-- `IDmaBe::fsm_handler` -/
def beFsm : Dma :=
  if 0 < s.currentTransferSize ∧ s.beRead.canAcceptBurst ∧ s.beWrite.canAcceptBurst then
    let size := IDmaBeAxi.getBurstSize cfg s.currentTransferSrc s.currentTransferSize
    let size := IDmaBeAxi.getBurstSize cfg s.currentTransferDst size
    { s with
      beRead := s.beRead.enqueueBurst s.currentTransferSrc size false s.currentTransfer
      beWrite := s.beWrite.enqueueBurst s.currentTransferDst size true s.currentTransfer
      currentTransferSize := s.currentTransferSize - size
      currentTransferSrc := s.currentTransferSrc + BitVec.ofNat 64 size
      currentTransferDst := s.currentTransferDst + BitVec.ofNat 64 size }
  else s

/-- `IDmaMe2D::ack_transfer` for a line. -/
def ackTransfer (line : Nat) : Dma :=
  match s.lines[line]? with
  | some (n, _) => { s with me := s.me.back n }
  | none => s

def ackData (line : Nat) (size : Nat) : Dma :=
  let s := { s with beRead := s.beRead.writeDataAck, ackSize := update s.ackSize line (s.ackSize line - size) }
  if s.ackSize line = 0 then s.ackTransfer line else s

def completeWriteBurst (slot : Nat) : Dma :=
  let info := s.beWrite.burstInfo slot
  let s := info.writePendingAcks.foldl (fun s size => s.ackData info.transfer size) s
  { s with beWrite := { s.beWrite.set slot { info with writePendingAcks := [] } with
      freeBursts := s.beWrite.freeBursts ++ [slot] } }

/-- `IDmaBeAxi::write_data` of the writing instance. -/
def writeData (data : List UInt8) : Dma :=
  let (burstInfo, queue, fatal) := IDmaBeAxi.fill s.beWrite.burstInfo s.beWrite.writeFillQueue data
  { s with beWrite := { s.beWrite with burstInfo := burstInfo, writeFillQueue := queue }, fatal := s.fatal || fatal }

/-! ## The reading instance -/

/-- `IDmaBeAxi::issue_beat` for a read. -/
def issueRead (granted : Bool) : Dma :=
  match s.beRead.pendingBursts with
  | [] => s
  | slot :: pending =>
    if s.beRead.deniedBlocked then s
    else if granted then
      let info := s.beRead.burstInfo slot
      { s with
        beRead := { s.beRead.set slot { info with bytesIssued := info.totalSize } with pendingBursts := pending }
        readBus := s.readBus ++ [slot] }
    else { s with beRead := { s.beRead with deniedBlocked := true } }

/-- The second half of `IDmaBeAxi::fsm_handler`. -/
def pushRead : Dma :=
  match s.beRead.readPushQueue with
  | [] => s
  | (slot, offset, size) :: queue =>
    if s.beWrite.canAcceptData then
      { s with beRead := { s.beRead with readPushQueue := queue, readAckQueue := s.beRead.readAckQueue ++
        [(slot, size)] } }.writeData
        (((s.beRead.burstInfo slot).data.drop offset).take size)
    else s

/-- `IDmaBeAxi::resp_meth` for a read. -/
def readResp (slot : Nat) (bus : List Nat) (data : List UInt8) : Dma :=
  let info := s.beRead.burstInfo slot
  let info' := { info with bytesResponded := info.bytesResponded + data.length, data := info.data ++ data }
  let beRead := s.beRead.set slot info'
  let s := { s with
    beRead := beRead
    readBus := if info'.bytesResponded = info.totalSize then bus else s.readBus
    readLog := s.readLog ++ accesses info.transfer (info.base + BitVec.ofNat 64 info.bytesResponded) data }
  if s.beWrite.canAcceptData then
    { s with beRead := { beRead with readAckQueue := beRead.readAckQueue ++ [(slot, data.length)] } }.writeData data
  else
    { s with beRead := { beRead with readPushQueue := beRead.readPushQueue ++
      [(slot, info.bytesResponded, data.length)] } }

/-! ## The writing instance -/

def beatSize (info : BurstInfo) : Nat :=
  min (min cfg.axiWidth (info.totalSize - info.bytesIssued)) (info.data.length - info.bytesIssued)

def sendBeat (slot : Nat) (pending : List Nat) : Dma :=
  let info := s.beWrite.burstInfo slot
  let beat := beatSize cfg info
  let beWrite := s.beWrite.set slot { info with bytesIssued := info.bytesIssued + beat }
  { s with
    beWrite := if info.bytesIssued + beat = info.totalSize then { beWrite with pendingBursts := pending } else beWrite
    writeLog := s.writeLog ++
      accesses info.transfer (info.base + BitVec.ofNat 64 info.bytesIssued)
        ((info.data.drop info.bytesIssued).take beat) }

/-- `IDmaBeAxi::issue_beat` for a write. -/
def issueWrite (answer : Answer) : Option Dma :=
  match s.beWrite.pendingBursts with
  | [] => some s
  | slot :: pending =>
    let info := s.beWrite.burstInfo slot
    let isLast := info.bytesIssued + beatSize cfg info = info.totalSize
    if s.beWrite.deniedBlocked ∨ info.data.length ≤ info.bytesIssued then some s
    else
      match answer with
      | .denied => some { s with beWrite := { s.beWrite with deniedBlocked := true } }
      | .granted =>
        let s := s.sendBeat cfg slot pending
        some (if isLast then { s with writeBus := s.writeBus ++ [slot] } else s)
      | .done => if isLast then some ((s.sendBeat cfg slot pending).completeWriteBurst slot) else none

def step (s : Dma) : BeEvent → Option Dma
  | .enqueueTransfer t => if t.isEmpty then none else some { s with me := s.me.enqueue s.me.entered.length t }
  | .meFsm => some s.meFsm
  | .beFsm => some (s.beFsm cfg)
  | .readFsm granted => some (s.issueRead granted).pushRead
  | .writeFsm answer => s.issueWrite cfg answer
  | .readBeat data =>
    match s.readBus with
    | [] => none
    | slot :: bus =>
      let info := s.beRead.burstInfo slot
      if data ≠ [] ∧ info.bytesResponded + data.length ≤ info.totalSize then some (s.readResp slot bus data) else none
  | .writeAck slot =>
    if slot ∈ s.writeBus then some ({ s with writeBus := s.writeBus.erase slot }.completeWriteBurst slot) else none
  | .readRetry => some { s with beRead := { s.beRead with deniedBlocked := false } }
  | .writeRetry => some { s with beWrite := { s.beWrite with deniedBlocked := false } }

end Dma

end GvsocPulp.IdmaV2
