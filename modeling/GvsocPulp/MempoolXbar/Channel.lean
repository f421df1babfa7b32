import GvsocPulp.Lib.ClockEvent
import GvsocPulp.Lib.Lanes
import GvsocPulp.Lib.Run

/-!
# The MemPool crossbar

A channel of `MempoolXbar`: FIFOs of requests at the inputs, an arbiter event that elects for each output the front of
one input, and an FSM event that sends what is elected.

- `handleReq`, `visitInput`, `visitOutput`: the code, one input or output at a time;
- `Channel.step`: the events of a channel, also those that come while it calls a master or an output;
- `step`: the crossbar, with one channel or two.
-/

namespace GvsocPulp.MempoolXbar

open Lib Function

structure Config where
  nbInputPort : Nat
  nbOutputPort : Nat
  /-- Bytes per cycle, 0 for no limit. -/
  bandwidth : Nat
  latency : Nat
  useSelector : Bool
  sharedRwBandwidth : Bool
  /-- 0 for no FIFO. -/
  maxInputPendingSize : Nat

/-- `max_input_pending_size`, once 0 has been replaced by `INT_MAX`. -/
def Config.maxPending (cfg : Config) : Int :=
  if cfg.maxInputPendingSize = 0 then 2 ^ 31 - 1 else cfg.maxInputPendingSize

/-- What the arguments of a request hold. -/
inductive Arg
  | output (o : Nat)
  | port (i : Nat)
  | other (value : Nat)
  deriving DecidableEq, Repr

/-- A request as it arrives: its port, its size and its arguments, the last pushed first. -/
structure Request where
  port : Nat
  size : Nat
  args : List Arg := []
  deriving DecidableEq, Repr

inductive IoReqStatus
  | ok
  | invalid
  | denied
  | pending
  deriving DecidableEq, Repr

structure InputPort where
  pendingReqs : List Nat := []
  deniedReqs : List Nat := []
  pendingSize : BitVec 32 := 0#32
  arbitrationLock : Bool := false
  pendingMapping : Nat := 0
  stalled : Bool := false
  nextBurstCycle : Nat := 0
  deriving DecidableEq, Repr

structure OutputPort where
  stalled : Bool := false
  electedInput : Option Nat := none
  nextBurstCycle : Nat := 0
  stalledPort : Nat := 0
  deriving DecidableEq, Repr

/-- Where the handlers are: the inputs of the arbiter with the number that is looked at, a `grant()` of a master that
runs, the ended requests and the outputs of the FSM, a request that an output is being sent. -/
inductive Pc
  | idle
  | arbiter (i current : Nat)
  | granting (i current req : Nat)
  | ended
  | send (o : Nat)
  | sending (o input req : Nat)
  deriving DecidableEq, Repr

/-- A channel. The requests are numbered as they arrive. -/
structure Channel where
  inputs : Nat → InputPort := fun _ => {}
  entries : Nat → OutputPort := fun _ => {}
  currentInput : Nat := 0
  endedReqs : List Nat := []
  arbiterEvent : Option Nat := none
  fsmEvent : Option Nat := none
  cycle : Nat := 0
  pc : Pc := .idle
  reqs : List Request := []
  args : Nat → List Arg := fun _ => []
  /-- `resp_port` of a request; sending it to an output overwrites it. -/
  respPort : Nat → Option Nat := fun _ => none
  /-- The requests by the input they came from. -/
  arrived : List (Nat × Nat) := []
  /-- The calls of `grant()`, by the port they are made on. -/
  granted : List (Option Nat × Nat) := []
  /-- The calls of the outputs: the input, the output and the request. -/
  sent : List (Nat × Nat × Nat) := []
  /-- What has been taken out of the FIFO of an input. -/
  accepted : List (Nat × Nat) := []
  /-- What the outputs have still to answer. -/
  inFlight : List Nat := []
  /-- The calls of `resp()`, by the port they are made on. -/
  answered : List (Option Nat × Nat) := []

namespace Channel

variable (cfg : Config) (s : Channel)

def setInput (i : Nat) (port : InputPort) : Channel := { s with inputs := update s.inputs i port }

def setEntry (o : Nat) (port : OutputPort) : Channel := { s with entries := update s.entries o port }

def enqueueArbiter (delay : Nat) : Channel := { s with arbiterEvent := enqueue s.cycle delay s.arbiterEvent }

def enqueueFsm (delay : Nat) : Channel := { s with fsmEvent := enqueue s.cycle delay s.fsmEvent }

def size (req : Nat) : Nat := (s.reqs[req]?.map (·.size)).getD 0

/-- A request takes a number, and the port it comes by. -/
def arrive (req : Request) : Channel :=
  { s with
    reqs := s.reqs ++ [req]
    args := update s.args s.reqs.length req.args
    respPort := update s.respPort s.reqs.length (some req.port)
    arrived := s.arrived ++ [(req.port, s.reqs.length)] }

/-- `handle_req`; it returns `IO_REQ_DENIED` in any case. -/
def handleReq (req : Request) : Channel :=
  let id := s.reqs.length
  let s := s.arrive req
  let port := s.inputs req.port
  if port.deniedReqs ≠ [] ∨ cfg.maxPending ≤ port.pendingSize.toInt then
    s.setInput req.port { port with deniedReqs := port.deniedReqs ++ [id] }
  else
    (s.setInput req.port { port with
      pendingReqs := port.pendingReqs ++ [id]
      pendingSize := port.pendingSize + BitVec.ofNat 32 req.size }).enqueueArbiter 0

def handleReqGrant (i : Nat) : Channel :=
  let port := s.inputs i
  { s.setInput i { port with pendingReqs := port.pendingReqs.tail, arbitrationLock := false } with
    accepted := s.accepted ++ port.pendingReqs.head?.toList.map (i, ·) }

/-- The port that `arg_pop` gives. -/
def portOf : List Arg → Option Nat
  | .port i :: _ => some i
  | _ => none

/-- `handle_req_end`, for a request whose `resp_port` is not null. -/
def handleReqEnd (req : Nat) : Channel :=
  { s with
    args := update s.args req (s.args req).tail
    answered := s.answered ++ [(portOf (s.args req), req)] }

/-! ## The arbiter -/

def outputId (args : List Arg) : Option Nat :=
  if cfg.useSelector then
    match args with
    | .output o :: _ => some o
    | _ => none
  else some 0

/-- The mapping of the front of an input, which is taken once; an output that does not exist is fatal. -/
def lockMapping (i req : Nat) : Option Channel :=
  let port := s.inputs i
  if port.arbitrationLock then some s
  else
    match outputId cfg (s.args req) with
    | some o =>
      if o < cfg.nbOutputPort then
        some { s.setInput i { port with arbitrationLock := true, pendingMapping := o } with
          args := update s.args req (if cfg.useSelector then (s.args req).tail else s.args req) }
      else none
    | none => none

def startArbiter : Channel := { s with arbiterEvent := none, pc := .arbiter 0 s.currentInput }

def nextInput (current : Nat) : Nat := if current + 1 = cfg.nbInputPort then 0 else current + 1

/-- The front of an input, once it has its mapping: it is elected if the output is free. -/
def elect (i current req : Nat) : Channel :=
  let o := (s.inputs current).pendingMapping
  let out := s.entries o
  if out.electedInput = none ∧ out.stalled = false then
    { s.setEntry o { out with electedInput := some current } with
      granted := s.granted ++ [(s.respPort req, req)]
      pc := .granting i current req }
  else { s with pc := .arbiter (i + 1) (nextInput cfg current) }

/-- The body of the loop of `arbiter_handler`, up to the `grant()`. -/
def visitInput (i current : Nat) : Option Channel :=
  let port := s.inputs current
  if port.nextBurstCycle ≤ s.cycle ∧ port.stalled = false then
    match port.pendingReqs with
    | req :: _ => (s.lockMapping cfg current req).map fun s => s.elect cfg i current req
    | [] => some { s with pc := .arbiter (i + 1) (nextInput cfg current) }
  else some { s with pc := .arbiter (i + 1) (nextInput cfg current) }

/-- The cycle from which the next request may follow one of this size. -/
def burstEnd (size next : Nat) : Nat :=
  if 0 < cfg.bandwidth then s.cycle + (size + cfg.bandwidth - 1) / cfg.bandwidth else next

def grantReturn (i current req : Nat) : Channel :=
  let port := s.inputs current
  { s.setInput current { port with
      pendingSize := port.pendingSize - BitVec.ofNat 32 (s.size req)
      nextBurstCycle := s.burstEnd cfg (s.size req) port.nextBurstCycle } with
    pc := .arbiter (i + 1) (nextInput cfg current) }

/-- `arbiter_handler` after its loop. -/
def endArbiter : Channel :=
  { s with currentInput := nextInput cfg s.currentInput, pc := .idle }.enqueueFsm (if cfg.latency = 1 then 1 else 0)

/-! ## The FSM -/

def startFsm : Channel := { s with fsmEvent := none, pc := .ended }

/-- The loop that moves denied requests to the FIFO while it has room. -/
def refill (size : Nat → Nat) : List Nat → List Nat → BitVec 32 → List Nat × List Nat × BitVec 32
  | [], pending, pendingSize => ([], pending, pendingSize)
  | req :: denied, pending, pendingSize =>
    if pendingSize.toInt < cfg.maxPending then
      refill size denied (pending ++ [req]) (pendingSize + BitVec.ofNat 32 (size req))
    else (req :: denied, pending, pendingSize)

def refillInput (i : Nat) : Channel :=
  let port := s.inputs i
  let (denied, pending, pendingSize) := refill cfg s.size port.deniedReqs port.pendingReqs port.pendingSize
  s.setInput i { port with deniedReqs := denied, pendingReqs := pending, pendingSize := pendingSize }

/-- The body of the loop over the outputs, up to the call of the output. -/
def visitOutput (o : Nat) : Channel :=
  let out := s.entries o
  if out.stalled = false ∧ out.nextBurstCycle ≤ s.cycle then
    match out.electedInput with
    | some i =>
      let s := s.refillInput cfg i
      match (s.inputs i).pendingReqs with
      | req :: _ =>
        { s.setEntry o { out with
            electedInput := none
            nextBurstCycle := s.burstEnd cfg (s.size req) out.nextBurstCycle } with
          args := update s.args req (((s.respPort req).elim (.other 0) .port) :: s.args req)
          respPort := update s.respPort req none
          sent := s.sent ++ [(i, o, req)]
          pc := .sending o i req }
      -- an elected input has a request
      | [] => { s with pc := .send (o + 1) }
    | none => { s with pc := .send (o + 1) }
  else { s with pc := .send (o + 1) }

def reqReturn (o i req : Nat) (status : IoReqStatus) (latency : Nat) : Channel :=
  let s := { s with pc := .send (o + 1) }
  match status with
  | .denied =>
    (s.setEntry o { s.entries o with stalled := true, stalledPort := i }).setInput i { s.inputs i with stalled := true }
  | .pending =>
    let s := s.handleReqGrant i
    { s with inFlight := s.inFlight ++ [req] }
  | .ok =>
    let s := s.handleReqGrant i
    if latency ≤ 1 then s.handleReqEnd req else { s with endedReqs := s.endedReqs ++ [req] }
  | .invalid => s.handleReqGrant i

/-- `fsm_handler` after its loops. -/
def endFsm : Channel :=
  let resched := (List.range cfg.nbInputPort).any fun i => (s.inputs i).pendingReqs ≠ []
  let s := { s with pc := .idle }
  if resched ∨ s.endedReqs ≠ [] then s.enqueueArbiter (if cfg.latency = 1 then 0 else 1) else s

/-- `grant` of an output that has denied a request, which it then has to answer. -/
def grant (o : Nat) : Channel :=
  let out := s.entries o
  let i := out.stalledPort
  let s := (s.setEntry o { out with stalled := false }).setInput i { s.inputs i with stalled := false }
  { s.handleReqGrant i with inFlight := s.inFlight ++ (s.inputs i).pendingReqs.head?.toList }

def response (req : Nat) : Channel := { s with inFlight := s.inFlight.erase req }.handleReqEnd req

end Channel

inductive Event
  | handleReq (req : Request)
  | arbiter
  | input
  | grantReturn
  | fsm
  | ended
  | endedDone
  | output
  | reqReturn (status : IoReqStatus) (latency : Nat)
  | grant (o : Nat)
  | response (req : Nat)
  deriving DecidableEq, Repr

/-- One event. Requests, grants and responses may come at any time, also from inside the calls of masters and outputs;
an output grants what it has denied and answers what it has accepted, and leaves the arguments of a request as it got
them. -/
def Channel.step (cfg : Config) (s : Channel) : Event → Option Channel
  | .handleReq req => if req.port < cfg.nbInputPort then some (s.handleReq cfg req) else none
  | .arbiter => if s.pc = .idle ∧ s.arbiterEvent = some s.cycle then some s.startArbiter else none
  | .input =>
    match s.pc with
    | .arbiter i current => if i < cfg.nbInputPort then s.visitInput cfg i current else some (s.endArbiter cfg)
    | _ => none
  | .grantReturn =>
    match s.pc with
    | .granting i current req => some (s.grantReturn cfg i current req)
    | _ => none
  | .fsm => if s.pc = .idle ∧ s.fsmEvent = some s.cycle then some s.startFsm else none
  | .ended =>
    match s.pc, s.endedReqs with
    | .ended, req :: rest => some ({ s with endedReqs := rest }.handleReqEnd req)
    | _, _ => none
  | .endedDone => if s.pc = .ended then some { s with pc := .send 0 } else none
  | .output =>
    match s.pc with
    | .send o => some (if o < cfg.nbOutputPort then s.visitOutput cfg o else s.endFsm cfg)
    | _ => none
  | .reqReturn status latency =>
    match s.pc with
    | .sending o i req => some (s.reqReturn o i req status latency)
    | _ => none
  | .grant o => if (s.entries o).stalled then some (s.grant o) else none
  | .response req => if req ∈ s.inFlight then some (s.response req) else none

/-- The next cycle of a channel that has nothing left to do in this one. -/
def Channel.tick (s : Channel) : Option Channel :=
  if s.pc = .idle ∧ s.arbiterEvent ≠ some s.cycle ∧ s.fsmEvent ≠ some s.cycle then some { s with cycle := s.cycle + 1 }
  else none

/-- The crossbar: the channel of the reads (or of all requests), and the channel of the writes. -/
structure Xbar where
  channels : Bool → Channel := fun _ => {}

inductive XbarEvent
  | channel (isWrite : Bool) (event : Event)
  | tick
  deriving DecidableEq, Repr

def channelOf (cfg : Config) (isWrite : Bool) : Bool := if cfg.sharedRwBandwidth then false else isWrite

def step (cfg : Config) (s : Xbar) : XbarEvent → Option Xbar
  | .channel isWrite event =>
    let c := channelOf cfg isWrite
    ((s.channels c).step cfg event).map fun channel => ⟨update s.channels c channel⟩
  | .tick => do
    let reads ← (s.channels false).tick
    let writes ← (s.channels true).tick
    return ⟨fun c => if c then writes else reads⟩

end GvsocPulp.MempoolXbar
