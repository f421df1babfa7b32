import GvsocPulp.IdmaV3.Backend

/-!
# Transfers: from a launch to `DONE_ID`

The front-ends `IdmaFeReg` and `IdmaFeXdma`, the mid-end `IdmaMeNd`, and of the back-end what decides when a 1D request
is complete: the legalizer as it takes requests and cuts their bytes, and the `wlast` FIFO. What the address channels,
the page boundaries and the other FIFOs allow in an evaluation of the legalizer is part of the event (`Turn`); that the
back-end of `Backend` follows these turns is `backend_follows`.

`seq` stands for the pointer to a request. The memory management of requests (`nb_1d_alive`) and the GUI signals are
left out.
-/

namespace GvsocPulp.IdmaV3

open Lib Function

/-! ## Requests -/

/-- `src_stride[i]`, `dst_stride[i]` and `reps[i]`. -/
structure Dim where
  srcStride : BitVec 64 := 0
  dstStride : BitVec 64 := 0
  reps : BitVec 64 := 1
  deriving DecidableEq

structure NdReq where
  /-- Its place among the launches of the stream. -/
  seq : Nat
  src : BitVec 64
  dst : BitVec 64
  length : BitVec 64
  dim2 : Dim := {}
  dim3 : Dim := {}
  nd : Nat := 0
  srcProt : Nat := 0
  dstProt : Nat := 0
  decoupleRw : Bool := false
  decoupleAw : Bool := false
  id : BitVec 32
  deriving DecidableEq

/-- `Idma1dReq`, one line of an ND transfer. -/
structure Line where
  src : BitVec 64
  dst : BitVec 64
  length : BitVec 64
  srcProt : Nat
  dstProt : Nat
  decoupleRw : Bool
  decoupleAw : Bool
  superLast : Bool
  parent : NdReq
  deriving DecidableEq

structure StreamConfig where
  fifoDepth : Nat
  nbDims : Nat
  wlastDepth : Nat
  /-- Whether the back-end has managers for a pair of protocols. -/
  supported : Nat → Nat → Bool

/-! ## The mid-end -/

/-- The ND request that is split, with its cursors. -/
structure Cursor where
  req : NdReq
  src : BitVec 64
  dst : BitVec 64
  reps2 : BitVec 64
  reps3 : BitVec 64
  idx2 : BitVec 64 := 0
  idx3 : BitVec 64 := 0

/-- `IdmaMeNd`. -/
structure MidEnd where
  queue : TimedFifo NdReq := {}
  current : Option Cursor := none
  pending : Option Line := none

namespace MidEnd

variable (cfg : StreamConfig)

def canAcceptNd (now : Int) (me : MidEnd) : Bool := me.queue.canPush (max cfg.fifoDepth 1) now

def pushNd (req : NdReq) (extraDelay : Nat) (now : Int) (me : MidEnd) : MidEnd :=
  { me with queue := me.queue.push req (now + extraDelay) }

/-- How often a dimension is iterated: once when it is not enabled, or for a count of 0. -/
def dimReps (i : Nat) (req : NdReq) (dim : Dim) : BitVec 64 :=
  if req.nd > i ∧ cfg.nbDims > i + 1 ∧ dim.reps ≠ 0 then dim.reps else 1

def load (req : NdReq) : Cursor where
  req := req
  src := req.src
  dst := req.dst
  reps2 := dimReps cfg 0 req req.dim2
  reps3 := dimReps cfg 1 req req.dim3

/-- `build_1d()`: the next line and the cursors after it. -/
def build1d (c : Cursor) : Line × Cursor :=
  let line : Line :=
    { src := c.src
      dst := c.dst
      length := c.req.length
      srcProt := c.req.srcProt
      dstProt := c.req.dstProt
      decoupleRw := c.req.decoupleRw
      decoupleAw := c.req.decoupleAw
      superLast := false
      parent := c.req }
  if c.idx2 + 1 < c.reps2 then
    (line,
      { c with idx2 := c.idx2 + 1, src := c.src + c.req.dim2.srcStride, dst := c.dst + c.req.dim2.dstStride })
  else
    ({ line with superLast := c.idx3 + 1 ≥ c.reps3 },
      { c with
        idx2 := 0
        idx3 := c.idx3 + 1
        src := c.src + c.req.dim3.srcStride
        dst := c.dst + c.req.dim3.dstStride })

/-- `peek_1d(now)`: the line that waits, built if there is none. -/
def peek1d (now : Int) (me : MidEnd) : MidEnd :=
  match me.pending with
  | some _ => me
  | none =>
    let current := me.current <|> (me.queue.visibleHead now).map (load cfg)
    match current with
    | none => me
    | some c =>
      let (line, c) := build1d c
      { me with current := some c, pending := some line }

/-- `take_1d(now)`: the line that waits is handed over. -/
def take1d (now : Int) (me : MidEnd) : MidEnd :=
  if me.pending.any (·.superLast) then { queue := me.queue.pop now, current := none, pending := none }
  else { me with pending := none }

end MidEnd

/-! ## A stream -/

/-- One evaluation of the legalizer: whether the write side of the previous requests holds it up, and what each side may
cut. -/
structure Turn where
  hold : Bool := false
  rGo : Bool := false
  wGo : Bool := false
  rBytes : Nat := 0
  wBytes : Nat := 0

structure Rejection where
  line : Line
  alone : Bool
  /-- No write burst of an earlier line was left to cut or to be acknowledged. -/
  idle : Bool

/-- A stream: its identifiers, its mid-end, and of its back-end the legalizer and `wlast`. `rLeft` and `wLeft` are the
bytes that the sides have left to cut; a side is valid while it has some. -/
structure Stream where
  nextId : BitVec 32 := 2
  doneId : BitVec 32 := 1
  pendingDone : Nat := 0
  me : MidEnd := {}
  req : Option Line := none
  rLeft : Nat := 0
  wLeft : Nat := 0
  lastTakeCycle : Int := -1
  wlast : TimedFifo (Line × Bool) := {}
  /-- The transfers that were given an identifier. -/
  launched : List NdReq := []
  rejected : List Rejection := []
  /-- How often `DONE_ID` has been incremented. -/
  counted : Nat := 0

/-- The identifier after another; 0 and 1 are skipped. -/
def nextIdAfter (id : BitVec 32) : BitVec 32 := if id + 1 < 2 then 2 else id + 1

namespace Stream

variable (cfg : StreamConfig) (now : Int)

/-- `complete_nd(req)`, `stream_done(stream, req)`. -/
def completeNd (s : Stream) : Stream := { s with pendingDone := s.pendingDone + 1 }

def complete1d (line : Line) (forceLast : Bool) (s : Stream) : Stream :=
  if line.superLast || forceLast then s.completeNd else s

def reject (line : Line) (s : Stream) : Stream :=
  let rejection : Rejection :=
    { line := line
      alone := MidEnd.dimReps cfg 0 line.parent line.parent.dim2 = 1 ∧
        MidEnd.dimReps cfg 1 line.parent line.parent.dim3 = 1
      idle := s.wLeft = 0 ∧ s.wlast.queue.isEmpty }
  { s with lastTakeCycle := now, rejected := s.rejected ++ [rejection] }.complete1d line true

/-- `take_request(now)`; `none` when there is no manager for the protocols. -/
def takeRequest (hold : Bool) (s : Stream) : Option Stream :=
  if s.lastTakeCycle = now then some s
  else if hold then some s
  else
    let s := { s with me := s.me.peek1d cfg now }
    match s.me.pending with
    | none => some s
    | some line =>
      let s := { s with me := s.me.take1d now }
      if line.length = 0 then some (s.reject cfg now line)
      else if cfg.supported line.srcProt line.dstProt then
        some { s with
          lastTakeCycle := now
          req := some line
          rLeft := line.length.toNat
          wLeft := line.length.toNat }
      else none

/-- A zero-length request queued behind the current one is rejected right away. -/
def bypass (s : Stream) : Stream :=
  let s := { s with me := s.me.peek1d cfg now }
  match s.me.pending with
  | none => s
  | some line =>
    if line.length = 0 ∧ s.lastTakeCycle ≠ now then { s with me := s.me.take1d now }.reject cfg now line else s

/-- The splits of `step`; `none` where a side goes that cannot. -/
def cut (turn : Turn) (line : Line) (s : Stream) : Option Stream :=
  if (turn.rGo → 0 < turn.rBytes ∧ turn.rBytes ≤ s.rLeft) ∧
      (turn.wGo → 0 < turn.wBytes ∧ turn.wBytes ≤ s.wLeft ∧ s.wlast.canPush cfg.wlastDepth now) then
    let s := if turn.rGo then { s with rLeft := s.rLeft - turn.rBytes } else s
    some (if turn.wGo then
      { s with wlast := s.wlast.push (line, decide (s.wLeft = turn.wBytes)) now, wLeft := s.wLeft - turn.wBytes }
    else s)
  else none

/-- `IdmaLegalizer::step(now)`. -/
def legalizer (turn : Turn) (s : Stream) : Option Stream :=
  if s.rLeft = 0 ∧ s.wLeft = 0 then s.takeRequest cfg now turn.hold
  else match s.req with
    | none => none
    | some line =>
      ((s.bypass cfg now).cut cfg now turn line).bind fun s =>
        if s.rLeft = 0 ∧ s.wLeft = 0 then { s with req := none }.takeRequest cfg now turn.hold else some s

/-- `write_burst_done(manager, error)`; `none` without an outstanding burst. -/
def writeBurstDone (s : Stream) : Option Stream :=
  match s.wlast.entries with
  | [] => none
  | (line, last) :: _ =>
    let s := { s with wlast := s.wlast.pop now }
    some (if last then s.complete1d line false else s)

def doneHandler (s : Stream) : Stream :=
  { s with doneId := nextIdAfter^[s.pendingDone] s.doneId, counted := s.counted + s.pendingDone, pendingDone := 0 }

/-- A launch: the transfer is given its identifier. -/
def handOut (req : NdReq) (s : Stream) : Stream :=
  { s with nextId := nextIdAfter s.nextId, launched := s.launched ++ [req] }

end Stream

/-! ## The register front-end -/

/-- The transfer registers of a port. -/
structure Regs where
  conf : BitVec 32 := 0
  dst : BitVec 32 := 0
  src : BitVec 32 := 0
  length : BitVec 32 := 0
  dstStride2 : BitVec 32 := 0
  srcStride2 : BitVec 32 := 0
  reps2 : BitVec 32 := 0
  dstStride3 : BitVec 32 := 0
  srcStride3 : BitVec 32 := 0
  reps3 : BitVec 32 := 0

/-- `RegPort`: the registers, and the stream that a denied launch waits for. -/
structure RegPort where
  regs : Regs := {}
  launchPending : Option Nat := none

/-- `IdmaFeReg` with its streams. -/
structure FeReg where
  now : Int := 0
  ports : Nat → RegPort := fun _ => {}
  rrPort : Nat := 0
  streams : Nat → Stream := fun _ => {}

namespace FeReg

def ndReq (regs : Regs) (s : Stream) : NdReq where
  seq := s.launched.length
  src := regs.src.setWidth 64
  dst := regs.dst.setWidth 64
  length := regs.length.setWidth 64
  dim2 := ⟨regs.srcStride2.setWidth 64, regs.dstStride2.setWidth 64, regs.reps2.setWidth 64⟩
  dim3 := ⟨regs.srcStride3.setWidth 64, regs.dstStride3.setWidth 64, regs.reps3.setWidth 64⟩
  nd := (regs.conf >>> 10).toNat % 4
  srcProt := (regs.conf >>> 12).toNat % 8
  dstProt := (regs.conf >>> 15).toNat % 8
  decoupleRw := regs.conf.getLsbD 0
  decoupleAw := regs.conf.getLsbD 1
  id := s.nextId

variable (cfg : StreamConfig) (nbPorts : Nat)

/-- `launch(port, stream, rdata)`: denied while the FIFO is full. -/
def launch (port stream delay : Nat) (fe : FeReg) : FeReg :=
  let s := fe.streams stream
  if s.me.canAcceptNd cfg fe.now then
    let req := ndReq (fe.ports port).regs s
    let s := s.handOut req
    { fe with streams := update fe.streams stream { s with me := s.me.pushNd req delay fe.now } }
  else
    { fe with ports := update fe.ports port { fe.ports port with launchPending := some stream } }

/-- The first `n` turns of the loop of `stream_ready(stream)`: the held launches are retried. -/
def streamReady (stream delay : Nat) : Nat → FeReg → FeReg
  | 0, fe => fe
  | n + 1, fe =>
    if (fe.streams stream).me.canAcceptNd cfg fe.now then
      let port := fe.rrPort
      let fe := { fe with rrPort := (fe.rrPort + 1) % nbPorts }
      if (fe.ports port).launchPending = some stream then
        let fe := { fe with ports := update fe.ports port { fe.ports port with launchPending := none } }
        streamReady stream delay n (fe.launch cfg port stream delay)
      else streamReady stream delay n fe
    else fe

def doneHandler (fe : FeReg) : FeReg := { fe with streams := fun i => (fe.streams i).doneHandler }

/-- What happens to the block; the delays are the bubble of a launch from idle. -/
inductive Event
  | cycle
  | write (port : Nat) (regs : Regs)
  | launch (port stream delay : Nat)
  | streamReady (stream delay : Nat)
  | legalizer (stream : Nat) (turn : Turn)
  | writeBurstDone (stream : Nat)
  | doneHandler

def onStream (i : Nat) (f : Stream → Option Stream) (fe : FeReg) : Option FeReg :=
  (f (fe.streams i)).map fun s => { fe with streams := update fe.streams i s }

def step (fe : FeReg) : Event → Option FeReg
  | .cycle => some { fe with now := fe.now + 1 }
  | .write port regs => some { fe with ports := update fe.ports port { fe.ports port with regs := regs } }
  | .launch port stream delay => some (fe.launch cfg port stream delay)
  | .streamReady stream delay => some (fe.streamReady cfg nbPorts stream delay nbPorts)
  | .legalizer i turn => fe.onStream i (Stream.legalizer cfg fe.now turn)
  | .writeBurstDone i => fe.onStream i (Stream.writeBurstDone fe.now)
  | .doneHandler => some fe.doneHandler

end FeReg

/-! ## The front-end of the Snitch -/

/-- The registers of `dmsrc`, `dmdst`, `dmstr` and `dmrep`. -/
structure XdmaRegs where
  src : BitVec 64 := 0
  dst : BitVec 64 := 0
  srcStride : BitVec 64 := 0
  dstStride : BitVec 64 := 0
  reps : BitVec 32 := 0

/-- `IdmaFeXdma` with its stream. -/
structure FeXdma where
  now : Int := 0
  regs : XdmaRegs := {}
  /-- The transfer that waits for a slot of the FIFO; the core holds its instruction. -/
  stalled : Option NdReq := none
  stream : Stream := {}

namespace FeXdma

/-- The ND request of a `dmcpy`. -/
def ndReq (regs : XdmaRegs) (config size : BitVec 32) (s : Stream) : NdReq where
  seq := s.launched.length
  src := regs.src
  dst := regs.dst
  length := size.setWidth 64
  dim2 := { regs with reps := regs.reps.setWidth 64 }
  nd := if config.getLsbD 1 then 1 else 0
  decoupleRw := config.getLsbD 0
  id := s.nextId

variable (cfg : StreamConfig) (pushDelay : Nat)

/-- `enqueue_copy(config, size, granted)`; the core offloads nothing while it holds a `dmcpy`. -/
def enqueueCopy (config size : BitVec 32) (fe : FeXdma) : Option FeXdma :=
  if fe.stalled.isSome then none
  else
    let req := ndReq fe.regs config size fe.stream
    let s := fe.stream.handOut req
    some (if s.me.canAcceptNd cfg fe.now then { fe with stream := { s with me := s.me.pushNd req pushDelay fe.now } }
      else { fe with stalled := some req, stream := s })

def meReady (fe : FeXdma) : FeXdma :=
  match fe.stalled with
  | none => fe
  | some req =>
    if fe.stream.me.canAcceptNd cfg fe.now then
      { fe with stalled := none, stream := { fe.stream with me := fe.stream.me.pushNd req pushDelay fe.now } }
    else fe

/-- What happens to the block. -/
inductive Event
  | cycle
  | setRegs (regs : XdmaRegs)
  | dmcpy (config size : BitVec 32)
  | meReady
  | legalizer (turn : Turn)
  | writeBurstDone
  | doneHandler

def step (fe : FeXdma) : Event → Option FeXdma
  | .cycle => some { fe with now := fe.now + 1 }
  | .setRegs regs => some { fe with regs := regs }
  | .dmcpy config size => fe.enqueueCopy cfg pushDelay config size
  | .meReady => some (fe.meReady cfg pushDelay)
  | .legalizer turn => (fe.stream.legalizer cfg fe.now turn).map fun s => { fe with stream := s }
  | .writeBurstDone => (fe.stream.writeBurstDone fe.now).map fun s => { fe with stream := s }
  | .doneHandler => some { fe with stream := fe.stream.doneHandler }

end FeXdma

end GvsocPulp.IdmaV3
