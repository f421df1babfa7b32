import GvsocPulp.Lib.ClockEvent
import GvsocPulp.Lib.Run

/-!
# The core of the uDMA (v3)

Channels with two transfer descriptors each, and the two L2 ports they share. Words of TX channels are read ahead of
their peripheral into a FIFO of `l2_read_fifo_size` requests; words of RX channels are written as soon as they are
complete.

- `Transfer.prepareReq`: the next L2 word of a transfer;
- `pushOrdered`: the answered reads, ordered by the cycle they become ready;
- `sendL2Write`, `sendL2Read`, `deliver`: the parts of `event_handler`;
- `pushData`, `handleReadyReqEnd`: the calls of the peripherals;
- `step`: the events of the core with its registers, its two L2 ports and its peripherals.
-/

namespace GvsocPulp.UdmaV3

open Lib

abbrev Word := BitVec 32
abbrev Byte := BitVec 8

structure Config where
  nbChannels : Nat
  isTx : Nat → Bool
  l2ReadFifoSize : Nat

/-- `Udma_transfer`. -/
structure Transfer where
  addr : Word
  size : Word
  currentAddr : Word
  /-- An `int32_t`. -/
  remainingSize : Word
  receivedSize : Nat := 0
  deriving DecidableEq, Repr

/-- `Udma_l2_req` of a TX channel. -/
structure Read where
  id : Nat
  channel : Nat
  addr : Word
  actualSize : Int
  readyCycle : Nat := 0
  data : Word := 0
  deriving DecidableEq, Repr

/-- `Udma_l2_req` of an RX channel. -/
structure Write where
  channel : Nat
  addr : Word
  data : List Byte
  actualSize : Int
  deriving DecidableEq, Repr

/-- The address and the valid bytes of a word. -/
def Read.key (r : Read) : Word × Int := (r.addr, r.actualSize)

namespace Transfer

/-- `actual_size`, as `prepare_req` sets it. -/
def actualSize (t : Transfer) : Int := if 4 < t.remainingSize.toInt then 4 else t.remainingSize.toInt

def prepareReq (t : Transfer) : Transfer :=
  { t with currentAddr := t.currentAddr + 4, remainingSize := t.remainingSize - 4 }

/-- What `prepare_req` returns: the word was the last one. -/
def isLast (t : Transfer) : Bool := (t.remainingSize - 4).toInt ≤ 0

/-- Where it was programmed to be. -/
def job (t : Transfer) : Word × Word := (t.addr, t.size)

end Transfer

/-- `Udma_channel`; the last five fields are its history. -/
structure Channel where
  saddr : Word := 0
  size : Word := 0
  current : Option Transfer := none
  pending : List Transfer := []
  /-- How many descriptors are in `free_reqs`. -/
  free : Nat := 2
  event : Option Nat := none
  ready : List Read := []
  /-- The word the peripheral is sending. -/
  pendingReq : Option Read := none
  pendingByteIndex : Nat := 0
  pendingWord : List Byte := List.replicate 4 0
  programmed : List (Word × Word) := []
  ended : List (Word × Word) := []
  /-- The words that were asked of the L2, in this order. -/
  sent : List (Word × Int) := []
  handed : List Read := []
  pushed : List Byte := []
  deriving DecidableEq, Repr

namespace Channel

def checkState (now : Nat) (c : Channel) : Channel :=
  if c.pending ≠ [] ∧ c.current = none then { c with event := enqueue now 1 c.event } else c

/-- `enqueue_transfer`: dropped where both descriptors are in use. -/
def enqueueTransfer (now : Nat) (c : Channel) : Channel :=
  if c.free = 0 then c
  else
    checkState now
      { c with
        free := c.free - 1
        pending := c.pending ++ [{ addr := c.saddr, size := c.size, currentAddr := c.saddr, remainingSize := c.size }]
        programmed := c.programmed ++ [(c.saddr, c.size)] }

def handleTransferEnd (now : Nat) (c : Channel) : Channel :=
  checkState now
    { c with
      free := c.free + 1
      current := none
      ended := c.ended ++ c.current.toList.map Transfer.job }

def received (c : Channel) : Bool := c.current.any fun t => t.size.toNat ≤ t.receivedSize

def pushReadyReq (t : Transfer) (r : Read) (c : Channel) : Channel :=
  { c with
    current := some { t with receivedSize := t.receivedSize + 4 }
    ready := c.ready ++ [r] }

/-- `memcpy` of pushed bytes into the pending word. -/
def fillWord (data : List Byte) (c : Channel) : List Byte :=
  c.pendingWord.take c.pendingByteIndex ++ data ++ c.pendingWord.drop (c.pendingByteIndex + data.length)

end Channel

/-- `udma`; the last four fields are its history. -/
structure Udma where
  cycle : Nat := 0
  event : Option Nat := none
  l2ReadReqs : List Nat
  l2ReadDenied : Option Read := none
  /-- The reads that are granted and not answered, in the order in which they were granted. -/
  l2ReadInFlight : List Read := []
  l2ReadWaiting : List Read := []
  readyTxChannels : List Nat := []
  l2WriteReqs : List Write := []
  l2WriteDenied : Option Write := none
  l2WriteInFlight : List Write := []
  channels : Nat → Channel := fun _ => {}
  events : List Nat := []
  /-- A channel without a current transfer was asked for a word of it. -/
  nullDeref : Bool := false
  answered : List Read := []
  issuedWrites : List Write := []
  acceptedWrites : List Write := []

/-- The answer of the L2 to a request: `IO_REQ_DONE`, with the latency and, for a read, the word. -/
inductive Answer
  | done (latency : Nat) (data : Word)
  | granted
  | denied
  deriving DecidableEq, Repr

/-- `push_ordered`: after the requests with the same cycle. -/
def pushOrdered (r : Read) : List Read → List Read
  | [] => [r]
  | w :: rest => if w.readyCycle ≤ r.readyCycle then w :: pushOrdered r rest else r :: w :: rest

namespace Udma

variable (cfg : Config)

def init : Udma := { l2ReadReqs := List.range cfg.l2ReadFifoSize }

variable (ch : Nat)

def setChannel (c : Channel) (s : Udma) : Udma :=
  { s with channels := Function.update s.channels ch c }

def canSend (s : Udma) : Bool :=
  (s.l2ReadDenied.isNone && !s.readyTxChannels.isEmpty && !s.l2ReadReqs.isEmpty) ||
    (s.l2WriteDenied.isNone && !s.l2WriteReqs.isEmpty)

def checkState (s : Udma) : Udma :=
  let event := if s.canSend then enqueue s.cycle 1 s.event else s.event
  match s.l2ReadWaiting with
  | [] => { s with event := event }
  | first :: _ =>
    { s with event := enqueue s.cycle (if s.cycle < first.readyCycle then first.readyCycle - s.cycle else 1) event }

def handleTransferEnd (s : Udma) : Udma :=
  { s.setChannel ch ((s.channels ch).handleTransferEnd s.cycle) with events := s.events ++ [ch] }

def freeReadReq (id : Nat) (s : Udma) : Udma := checkState { s with l2ReadReqs := s.l2ReadReqs ++ [id] }

/-- `handle_ready_reqs` of a peripheral that is not sending a word: it takes the first one. -/
def handleReadyReqs (s : Udma) : Udma :=
  match (s.channels ch).ready with
  | [] => s
  | r :: rest =>
    s.setChannel ch
      { s.channels ch with ready := rest, pendingReq := some r, handed := (s.channels ch).handed ++ [r] }

/-- `handle_ready_req_end`: the peripheral has sent the word. -/
def handleReadyReqEnd (r : Read) (s : Udma) : Udma :=
  let s := s.setChannel ch { s.channels ch with pendingReq := none }
  freeReadReq r.id (if (s.channels ch).received then s.handleTransferEnd ch else s)

def pushReadyReq (r : Read) (s : Udma) : Udma :=
  match (s.channels r.channel).current with
  | none => { s with nullDeref := true }
  | some t => s.setChannel r.channel ((s.channels r.channel).pushReadyReq t r)

def enqueueReady (s : Udma) : Udma :=
  checkState (if cfg.isTx ch then { s with readyTxChannels := s.readyTxChannels ++ [ch] } else s)

/-- `Udma_channel::event_handler`: the next pending transfer becomes the current one. -/
def channelHandler (s : Udma) : Udma :=
  let c := { s.channels ch with event := none }
  match c.pending, c.current with
  | t :: rest, none => enqueueReady cfg ch (s.setChannel ch { c with current := some t, pending := rest })
  | _, _ => s.setChannel ch c

def l2ReadEnd (r : Read) (latency : Nat) (data : Word) (s : Udma) : Udma :=
  let r := { r with readyCycle := s.cycle + latency, data := data }
  { s with l2ReadWaiting := pushOrdered r s.l2ReadWaiting, answered := s.answered ++ [r] }

/-- `l2_ro.req` and what the core does with the status. -/
def readReq (r : Read) (s : Udma) : Answer → Udma
  | .done latency data => s.l2ReadEnd r (latency + 1) data
  | .granted => { s with l2ReadInFlight := s.l2ReadInFlight ++ [r] }
  | .denied => { s with l2ReadDenied := some r }

/-- `l2_wo.req` and what the core does with the status. -/
def writeReq (w : Write) (s : Udma) : Answer → Udma
  | .done _ _ => { s with acceptedWrites := s.acceptedWrites ++ [w] }
  | .granted => { s with acceptedWrites := s.acceptedWrites ++ [w], l2WriteInFlight := s.l2WriteInFlight ++ [w] }
  | .denied => { s with l2WriteDenied := some w }

def sendL2Write (a : Answer) (s : Udma) : Udma :=
  match s.l2WriteDenied, s.l2WriteReqs with
  | none, w :: rest => writeReq w { s with l2WriteReqs := rest } a
  | _, _ => s

def wordReq (id ch : Nat) (t : Transfer) : Read :=
  { id := id, channel := ch, addr := t.currentAddr, actualSize := t.actualSize }

def sendL2Read (a : Answer) (s : Udma) : Udma :=
  match s.l2ReadDenied, s.readyTxChannels, s.l2ReadReqs with
  | none, ch :: chs, id :: ids =>
    match (s.channels ch).current with
    | none => { s with nullDeref := true }
    | some t =>
      let r := wordReq id ch t
      let s := s.setChannel ch
        { s.channels ch with current := some t.prepareReq, sent := (s.channels ch).sent ++ [r.key] }
      readReq r
        { s with
          l2ReadReqs := ids
          readyTxChannels := if t.isLast then chs else chs ++ [ch] } a
  | _, _, _ => s

/-- The loop of `event_handler` over `l2_read_waiting_reqs`. -/
def deliverLoop : List Read → Udma → Udma
  | [], s => { s with l2ReadWaiting := [] }
  | r :: rest, s =>
    if r.readyCycle ≤ s.cycle then deliverLoop rest (pushReadyReq r { s with l2ReadWaiting := rest })
    else { s with l2ReadWaiting := r :: rest }

def deliver (s : Udma) : Udma := deliverLoop s.l2ReadWaiting s

def eventHandler (write read : Answer) (s : Udma) : Udma :=
  checkState (deliver (sendL2Read read (sendL2Write write { s with event := none })))

def l2RoRetry (a : Answer) (s : Udma) : Udma :=
  match s.l2ReadDenied with
  | none => s
  | some r => checkState (readReq r { s with l2ReadDenied := none } a)

def l2RoResp (r : Read) (latency : Nat) (data : Word) (s : Udma) : Udma :=
  checkState (l2ReadEnd r (latency + 1) data { s with l2ReadInFlight := s.l2ReadInFlight.erase r })

def l2WoRetry (a : Answer) (s : Udma) : Udma :=
  match s.l2WriteDenied with
  | none => s
  | some w => checkState (writeReq w { s with l2WriteDenied := none } a)

def l2WoResp (w : Write) (s : Udma) : Udma :=
  checkState { s with l2WriteInFlight := s.l2WriteInFlight.erase w }

def pushL2WriteReq (w : Write) (s : Udma) : Udma :=
  checkState { s with l2WriteReqs := s.l2WriteReqs ++ [w], issuedWrites := s.issuedWrites ++ [w] }

/-- The end of `push_data`: the pending word of the transfer `t` is written. -/
def writeWord (t : Transfer) (s : Udma) : Udma :=
  let c := s.channels ch
  let s := s.setChannel ch { c with current := some t.prepareReq, pendingByteIndex := 0 }
  let s := s.pushL2WriteReq { channel := ch, addr := t.currentAddr, data := c.pendingWord, actualSize := t.actualSize }
  if t.isLast then s.handleTransferEnd ch else s

def pushData (data : List Byte) (s : Udma) : Udma :=
  let c := s.channels ch
  match c.current with
  | none => s
  | some t =>
    if 4 < data.length + c.pendingByteIndex then s.setChannel ch { c with pushed := c.pushed ++ data }
    else
      let index := c.pendingByteIndex + data.length
      let s := s.setChannel ch
        { c with pendingWord := c.fillWord data, pendingByteIndex := index, pushed := c.pushed ++ data }
      if 4 ≤ index ∨ t.remainingSize.toInt ≤ index then writeWord ch t s else s

end Udma

/-! ## Runs -/

/-- The bits of `UDMA_CHANNEL_CFG`. -/
def cfgEn (data : Word) : Bool := data.getLsbD 4
def cfgClear (data : Word) : Bool := data.getLsbD 5

inductive Event
  /-- Writes of the registers of a channel. -/
  | saddrReq (ch : Nat) (data : Word)
  | sizeReq (ch : Nat) (data : Word)
  | cfgReq (ch : Nat) (data : Word)
  /-- `build_reqs_and_enqueue` of a peripheral. -/
  | buildReqsAndEnqueue (ch : Nat) (addr size : Word)
  | channelHandler (ch : Nat)
  | eventHandler (write read : Answer)
  | l2RoRetry (a : Answer)
  | l2RoResp (r : Read) (latency : Nat) (data : Word)
  | l2WoRetry (a : Answer)
  | l2WoResp (w : Write)
  /-- The peripheral of a TX channel takes a word, and has sent it. -/
  | handleReadyReqs (ch : Nat)
  | handleReadyReqEnd (ch : Nat)
  /-- The peripheral of an RX channel has received a byte. -/
  | pushData (ch : Nat) (byte : Byte)
  | tick
  deriving DecidableEq, Repr

namespace Udma

variable (cfg : Config)

/-- An event enqueued for a cycle that has come. -/
def due (now : Nat) (event : Option Nat) : Bool := event.any (· ≤ now)

/-- An event; what the L2, a peripheral or the clock cannot do is refused. -/
def step (s : Udma) : Event → Option Udma
  | .saddrReq ch data => if ch < cfg.nbChannels then some (s.setChannel ch { s.channels ch with saddr := data })
      else none
  | .sizeReq ch data => if ch < cfg.nbChannels then some (s.setChannel ch { s.channels ch with size := data }) else none
  | .cfgReq ch data =>
    if ch < cfg.nbChannels then
      some (if !cfgClear data && cfgEn data then s.setChannel ch ((s.channels ch).enqueueTransfer s.cycle) else s)
    else none
  | .buildReqsAndEnqueue ch addr size =>
    if ch < cfg.nbChannels then
      some (s.setChannel ch ({ s.channels ch with saddr := addr, size := size }.enqueueTransfer s.cycle))
    else none
  | .channelHandler ch =>
    if ch < cfg.nbChannels ∧ due s.cycle (s.channels ch).event then some (s.channelHandler cfg ch) else none
  | .eventHandler write read => if due s.cycle s.event then some (s.eventHandler write read) else none
  | .l2RoRetry a => some (s.l2RoRetry a)
  | .l2RoResp r latency data => if r ∈ s.l2ReadInFlight then some (s.l2RoResp r latency data) else none
  | .l2WoRetry a => some (s.l2WoRetry a)
  | .l2WoResp w => if w ∈ s.l2WriteInFlight then some (s.l2WoResp w) else none
  | .handleReadyReqs ch =>
    if ch < cfg.nbChannels ∧ cfg.isTx ch ∧ (s.channels ch).pendingReq = none then some (s.handleReadyReqs ch) else none
  | .handleReadyReqEnd ch =>
    match (s.channels ch).pendingReq with
    | some r => if ch < cfg.nbChannels ∧ cfg.isTx ch then some (s.handleReadyReqEnd ch r) else none
    | none => none
  | .pushData ch byte => if ch < cfg.nbChannels ∧ !cfg.isTx ch then some (s.pushData ch [byte]) else none
  | .tick =>
    if due s.cycle s.event ∨ ∃ ch < cfg.nbChannels, due s.cycle (s.channels ch).event then none
    else some { s with cycle := s.cycle + 1 }

end Udma

end GvsocPulp.UdmaV3
