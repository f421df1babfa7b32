import GvsocPulp.FloonocV2.Flit

/-!
# The network interface

`NetworkInterfaceV2` and its injection queues (`NetworkQueueV2`): the entry and exit point of the network. On the
initiator side it cuts the requests of the masters into flits (`enqueueRouterReq`), bounds what is in flight
(`handleReq`) and accounts the responses (`linkRsp`). On the target side it forwards the flits to the target
(`forwardToTarget`) and sends the answers back (`handleResponse`).

The environment answers the calls of the interface (`Env`), and what the interface calls or returns in an event is its
`outputs`. `fsm_handler` runs phase by phase, so that a callback of the environment may call the interface in between.
-/

namespace GvsocPulp.FloonocV2

open Function

/-! ## State -/

/-- The links of a network interface: `NW_REQ`, `NW_RSP` and `NW_WIDE`. -/
inductive Nw
  | req
  | rsp
  | wide
  deriving DecidableEq, Repr, Inhabited

/-- The number of inputs that share a link. -/
def Nw.nbInputs : Nw → Nat
  | .wide => 2
  | _ => 3

abbrev inReqNarrowW : Nat := 0
abbrev inReqNarrowAr : Nat := 1
abbrev inReqWideAr : Nat := 2
abbrev inWideW : Nat := 0
abbrev inWideR : Nat := 1
abbrev inRspNarrowB : Nat := 0
abbrev inRspNarrowR : Nat := 1
abbrev inRspWideB : Nat := 2

/-- `INPUT_DEPTH`: the flits an input holds. -/
abbrev inputDepth : Nat := 2

/-- `FloonocNetworkInterfaceV2Config`, and whether the two targets can be retried. -/
structure NiConfig where
  nodeId : Int
  entries : List EntryV2
  niOutstandingReqs : Int
  narrowWidth : Nat
  wideWidth : Nat
  isRespRetryBound : Bool → Bool := fun _ => true
  narrowWidth_pos : 0 < narrowWidth := by decide
  wideWidth_pos : 0 < wideWidth := by decide

/-- The bytes of a flit on a link. -/
def NiConfig.width (cfg : NiConfig) : Nw → Nat
  | .wide => cfg.wideWidth
  | _ => cfg.narrowWidth

theorem NiConfig.width_pos (cfg : NiConfig) (nw : Nw) : 0 < cfg.width nw := by
  cases nw with
  | wide => exact cfg.wideWidth_pos
  | req => exact cfg.narrowWidth_pos
  | rsp => exact cfg.narrowWidth_pos

structure NetworkQueueV2 where
  inputs : Nat → List Flit := fun _ => []
  owesRoom : Nat → Bool := fun _ => false
  /-- The input that owns the link in the middle of a packet. -/
  lockedInput : Option Nat := none
  rrInput : Nat := 0
  stalled : Bool := false
  lastInjectCycle : Int := -1
  unstallCycle : Int := -1

structure WrTrack where
  issuedBytes : Nat := 0
  ackedBytes : Nat := 0
  seenLast : Bool := false
  error : Bool := false
  initiator : Nat := 0
  base : Nat := 0
  deriving DecidableEq, Repr

/-- `HeldReq`, while it holds a flit: `toSend` is set once the target has denied it. -/
structure HeldReq where
  flit : Flit
  toSend : Bool
  deriving DecidableEq, Repr

inductive RetryChannel
  | any
  | read
  | write
  deriving DecidableEq, Repr

/-- A retry on the channel reaches the requests of a direction. -/
def RetryChannel.covers : RetryChannel → Bool → Bool
  | .any, _ => true
  | .read, isWrite => !isWrite
  | .write, isWrite => isWrite

inductive TargetReply
  | denied
  | granted
  | done (status : RespStatus) (delayed : Bool)
  deriving DecidableEq, Repr

/-- What a master gets from `resp`: a beat of a read, an atomic of its own, or the ack of a write burst. `burst` is the
request it is about, as a number only: the object behind it may be freed. -/
structure Resp where
  burst : Nat
  opcode : Opcode
  addr : Nat
  size : Nat
  payload : List UInt8 := []
  isFirst : Bool := true
  isLast : Bool := true
  burstId : Int := -1
  initiator : Nat := 0
  respStatus : RespStatus := .ok
  deriving DecidableEq, Repr

/-- What an interface calls, and what its functions return to the callers that are not modelled with it. -/
inductive Output
  | retry (wide : Bool) (channel : RetryChannel)
  | respRetry (wide : Bool)
  | resp (wide : Bool) (resp : Resp)
  | link (nw : Nw) (flit : Flit)
  | target (wide : Bool) (nw : Nw) (flit : Flit) (reply : TargetReply)
  | unstall (nw : Nw)
  | reqStatus (wide : Bool) (req : IoReq) (granted : Bool)
  | linkStatus (nw : Nw) (flit : Flit) (stalled : Bool)
  | respAck (wide : Bool) (flit : Flit) (accepted : Bool)
  /-- The assertion of `forward_to_target` fails. -/
  | stalledLink (nw : Nw) (flit : Flit)
  deriving DecidableEq, Repr

/-- The steps of `fsm_handler`. -/
inductive FsmPhase
  | check (nw : Nw)
  | response
  | forwardHeld
  | pendingBurst (wide write : Bool)
  | idRetry (wide write : Bool)
  | inputRetry (wide : Bool)
  | triggerNext
  deriving DecidableEq, Repr

/-- `f` with the value at `a`, `b` replaced. -/
def set₂ {α β γ : Type*} [DecidableEq α] [DecidableEq β] (f : α → β → γ) (a : α) (b : β) (v : γ) : α → β → γ :=
  fun a' b' => if a' = a ∧ b' = b then v else f a' b'

/-- `NetworkInterfaceV2`. The maps are by `wide`, then by `is_write` or link. -/
structure NetworkInterfaceV2 where
  queue : Nw → NetworkQueueV2 := fun _ => {}
  wrBursts : Bool → Int → Option WrTrack := fun _ _ => none
  /-- The pointers to the pending bursts that are not `NULL`. -/
  pendingBurst : Bool → Bool → Bool := fun _ _ => false
  pendingBurstNbReq : Bool → Bool → Int := fun _ _ => 0
  nbPendingBursts : Bool → Int := fun _ => 0
  idTxns : Bool → Bool → Int := fun _ _ => 0
  idDest : Bool → Bool → Int := fun _ _ => -1
  /-- `owes_retry_narrow_input` and `owes_retry_wide_input`. -/
  owesRetryInput : Bool → Bool := fun _ => false
  owesIdRetry : Bool → Bool → Bool := fun _ _ => false
  owesRespRetry : Bool → Bool := fun _ => false
  held : Bool → Nw → Option HeldReq := fun _ _ => none
  targetTxns : Bool → Bool → Int := fun _ _ => 0
  forwardHeldPending : Bool := false
  responseQueue : List Flit := []
  /-- `fsm_event` is enqueued. -/
  fsmEvent : Bool := false
  /-- What is left of the `fsm_handler` that runs. -/
  fsmTodo : List FsmPhase := []
  /-- The requests behind the pointers, which all interfaces share. -/
  mem : Nat → IoReq := fun _ => default
  /-- What the interface has called or returned in this event. -/
  outputs : List Output := []

/-- What the environment answers to the calls of one event: the cycle, whether each link is full after a flit, what a
target says to a flit of each link, and whether the head of the response queue has waited for its latency. -/
structure Env where
  now : Int
  linkFull : Nw → Bool := fun _ => false
  target : Bool → Nw → TargetReply := fun _ _ => .granted
  responseReady : Bool := true

namespace NetworkQueueV2

/-- `reserve`: whether the input can take a flit; if not, its producer is owed a notification. -/
def reserve (q : NetworkQueueV2) (input : Nat) : Bool × NetworkQueueV2 :=
  if (q.inputs input).length < inputDepth then (true, q)
  else (false, { q with owesRoom := update q.owesRoom input true })

/-- The first input with a flit, from `input` on. -/
def nextFrom (q : NetworkQueueV2) (nbInputs : Nat) : (steps input : Nat) → Option Nat
  | 0, _ => none
  | steps + 1, input =>
    if q.inputs input ≠ [] then some input
    else nextFrom q nbInputs steps (if input + 1 = nbInputs then 0 else input + 1)

/-- `next_input`: in the middle of a packet, only its input may inject. -/
def nextInput (q : NetworkQueueV2) (nbInputs : Nat) : Option Nat :=
  match q.lockedInput with
  | some input => if q.inputs input ≠ [] then some input else none
  | none => q.nextFrom nbInputs nbInputs q.rrInput

def push (q : NetworkQueueV2) (input : Nat) (flits : List Flit) : NetworkQueueV2 :=
  { q with inputs := update q.inputs input (q.inputs input ++ flits) }

end NetworkQueueV2

namespace NetworkInterfaceV2

variable (cfg : NiConfig) (env : Env) (s : NetworkInterfaceV2)

def enqueueFsm : NetworkInterfaceV2 := { s with fsmEvent := true }

def output (o : Output) : NetworkInterfaceV2 := { s with outputs := s.outputs ++ [o] }

def setQueue (nw : Nw) (q : NetworkQueueV2) : NetworkInterfaceV2 :=
  { s with queue := update s.queue nw q }

/-! ## Injection -/

variable (wide : Bool)

/-- The target port is retried if it is owed a `resp_retry()`. -/
def respRetry : NetworkInterfaceV2 :=
  if s.owesRespRetry wide then
    { s with owesRespRetry := update s.owesRespRetry wide false }.output (.respRetry wide)
  else s

/-- `input_room`: the producer of the input is told that it has room. -/
def inputRoom (nw : Nw) (input : Nat) : NetworkInterfaceV2 :=
  if nw = .req ∨ (nw = .wide ∧ input = inWideW) then
    let wide := nw == .wide || input == inReqWideAr
    let write := input == inReqNarrowW || nw == .wide
    s.output (.retry wide (if write then .write else .read))
  else (s.respRetry false).respRetry true

def sentQueue (q : NetworkQueueV2) (nw : Nw) (input : Nat) (flit : Flit) (rest : List Flit) : NetworkQueueV2 :=
  { q with
    inputs := update q.inputs input rest
    lastInjectCycle := env.now
    rrInput := if q.lockedInput = none then (if input + 1 = nw.nbInputs then 0 else input + 1) else q.rrInput
    lockedInput := if flit.isLast then none else some input
    stalled := env.linkFull nw }

variable (flit : Flit)

/-- One flit less of a pending burst; the last one wakes `fsm_handler`. -/
def countInjected : NetworkInterfaceV2 :=
  if flit.isRsp then s
  else
    let nb := s.pendingBurstNbReq flit.wide flit.opcode.isWrite - 1
    { s with
      pendingBurstNbReq := set₂ s.pendingBurstNbReq flit.wide flit.opcode.isWrite nb
      fsmEvent := s.fsmEvent || nb == 0 }

/-- The end of `send_router_req`: the producer of the input is notified if it waits for room. -/
def notifyRoom (nw : Nw) (input : Nat) : NetworkInterfaceV2 :=
  if (s.queue nw).owesRoom input = true ∧ ((s.queue nw).inputs input).length < inputDepth then
    (s.setQueue nw { s.queue nw with owesRoom := update (s.queue nw).owesRoom input false }).inputRoom nw input
  else s

def sendRouterReq (nw : Nw) (input : Nat) : NetworkInterfaceV2 :=
  match (s.queue nw).inputs input with
  | [] => s
  | flit :: rest =>
    let s := s.setQueue nw (sentQueue env (s.queue nw) nw input flit rest)
    let s := (s.countInjected flit).output (.link nw flit)
    let s := if ((s.queue nw).nextInput nw.nbInputs).isSome then s.enqueueFsm else s
    s.notifyRoom nw input

/-- `check`: one flit per cycle goes on the link. -/
def check (nw : Nw) : NetworkInterfaceV2 :=
  match (s.queue nw).nextInput nw.nbInputs with
  | none => s
  | some input =>
    if (s.queue nw).stalled then s
    else if (s.queue nw).lastInjectCycle = env.now ∨ (s.queue nw).unstallCycle = env.now then s.enqueueFsm
    else s.sendRouterReq env nw input

/-- `unstall`: the next node has room again. -/
def unstall (nw : Nw) : NetworkInterfaceV2 :=
  (s.setQueue nw { s.queue nw with stalled := false, unstallCycle := env.now }).enqueueFsm

/-! ## Fragmentation -/

def requestFlit (req : IoReq) (isAddress wide : Bool) (entry : EntryV2) (base size left : Nat) (data : Option Nat)
    (prevDest : Option Int) : Flit :=
  let burstEnds := left ≤ size
  let wrPacket := req.opcode = .write ∧ 0 ≤ req.burstId
  let ownsBeat := !isAddress && req.opcode == .write && size == req.size
  { destId := entry.nodeId
    srcId := cfg.nodeId
    isRsp := false
    burst := req.ptr
    ownsBeat := ownsBeat
    silentB := ownsBeat && decide (0 ≤ req.burstId) && !req.isLast
    wide := wide
    isAddress := isAddress
    initiatorAddr := base
    opcode := req.opcode
    addr := (base + addrSpace - entry.removeOffset) % addrSpace
    size := size
    data := if isAddress then none else data
    isFirst := if wrPacket then isAddress else decide (prevDest ≠ some entry.nodeId)
    isLast := if wrPacket then !isAddress && burstEnds && req.isLast else decide (burstEnds ∨ entry.stop ≤ base + size)
    burstId := req.burstId
    initiator := req.initiator }

/-- The loop of `enqueue_router_req`: the flits up to the first address that is in no entry, and whether they are all
of the request. A flit has a byte at least, so that the bytes bound the rounds. -/
def requestFlits (req : IoReq) (isAddress wide : Bool) (width : Nat) :
    (rounds base left : Nat) → Option Nat → Option Int → List Flit × Bool
  | 0, _, _, _, _ => ([], true)
  | rounds + 1, base, left, data, prevDest =>
    if left = 0 then ([], true)
    else match getEntry cfg.entries base with
      | none => ([], false)
      | some entry =>
        let size := min (entry.stop - base) (if isAddress then left else min width left)
        let flit := requestFlit cfg req isAddress wide entry base size left data prevDest
        let rest := requestFlits req isAddress wide width rounds (base + size) (left - size) (data.map (· + size))
          (some entry.nodeId)
        (flit :: rest.1, rest.2)

/-- A silent beat is acked when it is issued. -/
def ackSilent (req : IoReq) (flits : List Flit) : NetworkInterfaceV2 :=
  let acked := ((flits.filter (·.silentB)).map (·.size)).sum
  let track := (s.wrBursts wide req.burstId).map fun t => { t with ackedBytes := t.ackedBytes + acked }
  { s with wrBursts := set₂ s.wrBursts wide req.burstId track }

/-- `enqueue_router_req`: the flits of a request, for an input of the arbiter. Each round of the loop counts one flit,
also the round that finds no entry. -/
def enqueueRouterReq (nw : Nw) (req : IoReq) (isAddress wide : Bool) (input : Nat) :
    NetworkInterfaceV2 :=
  let (flits, complete) := requestFlits cfg req isAddress wide (cfg.width nw) req.size req.addr req.size req.data none
  let write := req.opcode.isWrite
  let rounds := flits.length + if complete then 0 else 1
  let s := (s.ackSilent wide req flits).setQueue nw ((s.queue nw).push input flits)
  let s := { s with pendingBurstNbReq := set₂ s.pendingBurstNbReq wide write (s.pendingBurstNbReq wide write + rounds) }
  if complete then s.enqueueFsm else s

/-- `NetworkQueueV2::handle_req`: the address header with the first beat, then the data of a write. -/
def queueReq (nw : Nw) (req : IoReq) (wide : Bool) (input : Nat) : NetworkInterfaceV2 :=
  let s := if !req.opcode.isWrite || req.isFirst then s.enqueueRouterReq cfg nw req true wide input else s
  let s := if req.opcode.isWrite then s.enqueueRouterReq cfg nw req false wide input else s
  s.check env nw

/-! ## Requests of the initiators -/

/-- The link that carries a request, and its input there. -/
def carrier (wide write : Bool) : Nw × Nat :=
  if write then (if wide then (.wide, inWideW) else (.req, inReqNarrowW))
  else (.req, if wide then inReqWideAr else inReqNarrowAr)

/-- The tracking of a write burst takes a beat; `none` where an assertion on the beats of the master fails. -/
def trackWrite (req : IoReq) : Option NetworkInterfaceV2 :=
  if req.opcode ≠ .write ∨ req.isLone then some s
  else if req.burstId < 0 then none
  else
    let beat (t : WrTrack) : WrTrack :=
      { t with issuedBytes := t.issuedBytes + req.size, seenLast := t.seenLast || req.isLast }
    match s.wrBursts wide req.burstId with
    | none =>
      let t := beat { initiator := req.initiator, base := req.addr }
      if req.isFirst then some { s with wrBursts := set₂ s.wrBursts wide req.burstId (some t) } else none
    | some t =>
      if req.isFirst ∨ t.initiator ≠ req.initiator then none
      else some { s with wrBursts := set₂ s.wrBursts wide req.burstId (some (beat t)) }

/-- The next beat of a write whose first one was granted. -/
def wrContinuation (req : IoReq) : Bool := req.opcode == .write && !req.isFirst

/-- A burst that is granted takes a slot of its port and, where its address is mapped, of its ID. -/
def countGranted (req : IoReq) : NetworkInterfaceV2 :=
  let write := req.opcode.isWrite
  if wrContinuation req then s
  else
    let s := { s with nbPendingBursts := update s.nbPendingBursts wide (s.nbPendingBursts wide + 1) }
    match getEntry cfg.entries req.addr with
    | none => s
    | some entry =>
      { s with
        idTxns := set₂ s.idTxns wide write (s.idTxns wide write + 1)
        idDest := set₂ s.idDest wide write entry.nodeId }

/-- An ID has bursts in flight to another destination than the one of the request. -/
def otherDest (req : IoReq) : Bool :=
  match getEntry cfg.entries req.addr with
  | none => false
  | some entry => 0 < s.idTxns wide req.opcode.isWrite && s.idDest wide req.opcode.isWrite != entry.nodeId

/-- All the bytes of a request have to come back. -/
def storeReq (req : IoReq) : NetworkInterfaceV2 :=
  { s with mem := update s.mem req.ptr { req with remainingSize := req.size } }

def handleReq (req : IoReq) : Option NetworkInterfaceV2 :=
  let write := req.opcode.isWrite
  let s := s.storeReq req
  if !wrContinuation req && cfg.niOutstandingReqs ≤ s.nbPendingBursts wide then
    some ({ s with owesRetryInput := update s.owesRetryInput wide true }.output (.reqStatus wide req false))
  else if !wrContinuation req && s.otherDest cfg wide req then
    some ({ s with owesIdRetry := set₂ s.owesIdRetry wide write true }.output (.reqStatus wide req false))
  else
    let (nw, input) := carrier wide write
    let (room, q) := (s.queue nw).reserve input
    let s := s.setQueue nw q
    if !room then some (s.output (.reqStatus wide req false))
    else ((s.countGranted cfg wide req).trackWrite wide req).map fun s =>
      let s := { s with pendingBurst := set₂ s.pendingBurst wide write true }
      ((s.queueReq cfg env nw req wide input).enqueueFsm).output (.reqStatus wide req true)

/-! ## Responses for the initiators -/

def idTxnDone (wide write : Bool) : NetworkInterfaceV2 :=
  if 0 < s.idTxns wide write then { s with idTxns := set₂ s.idTxns wide write (s.idTxns wide write - 1) } else s

def countAnswered (wide write : Bool) : NetworkInterfaceV2 :=
  { s with nbPendingBursts := update s.nbPendingBursts wide (s.nbPendingBursts wide - 1) }.idTxnDone wide write

def linkB (burstId : Int) (beatSize : Nat) (flit : Flit) (t : WrTrack) :
    NetworkInterfaceV2 :=
  let t := { t with ackedBytes := t.ackedBytes + beatSize, error := t.error || flit.respStatus == .invalid }
  if t.seenLast = true ∧ t.ackedBytes = t.issuedBytes then
    let s := { s with wrBursts := set₂ s.wrBursts wide burstId none }
    (s.countAnswered wide true).output (.resp wide
      { burst := flit.burst, opcode := .write, addr := t.base, size := t.issuedBytes, burstId := burstId
        initiator := t.initiator, respStatus := if t.error then .invalid else .ok })
  else { s with wrBursts := set₂ s.wrBursts wide burstId (some t) }

/-- A response flit of `link_req`; `none` where an assertion fails: a B flit for a burst that is not tracked. -/
def linkRsp : Option NetworkInterfaceV2 :=
  let wide := flit.wide
  let burst := s.mem flit.burst
  match flit.opcode with
  | .write =>
    -- the beat of a flit that owns it has been freed at the target: its fields came back in the flit
    let size := if flit.ownsBeat then flit.size else burst.size
    let burstId := if flit.ownsBeat then flit.burstId else burst.burstId
    let initiator := if flit.ownsBeat then flit.initiator else burst.initiator
    let base := if flit.ownsBeat then flit.initiatorAddr else burst.addr
    if burstId = -1 then
      some ((s.countAnswered wide true).output (.resp wide
        { burst := flit.burst, opcode := .write, addr := base, size := size, initiator := initiator
          respStatus := flit.respStatus })).enqueueFsm
    else (s.wrBursts wide burstId).map fun t => (s.linkB wide burstId size flit t).enqueueFsm
  | .atomic true =>
    some ((s.countAnswered wide true).output (.resp wide
      { burst := flit.burst, opcode := flit.opcode, addr := burst.addr, size := burst.size, isFirst := burst.isFirst
        isLast := burst.isLast, burstId := burst.burstId, initiator := burst.initiator
        respStatus := flit.respStatus })).enqueueFsm
  | _ =>
    let offset := burst.size - burst.remainingSize
    let left := burst.remainingSize - flit.size
    let s := { s with mem := update s.mem flit.burst { burst with remainingSize := left } }
    let s := if left = 0 then s.countAnswered wide false else s
    some (s.output (.resp wide
      { burst := flit.burst, opcode := .read, addr := burst.addr + offset, size := flit.size
        payload := flit.payload.take flit.size, isFirst := offset == 0, isLast := left == 0, burstId := burst.burstId
        initiator := burst.initiator, respStatus := flit.respStatus })).enqueueFsm

/-! ## Requests for the targets -/

/-- The arbiter input that takes a response. -/
def rspInput (wide write : Bool) : Nw × Nat :=
  if write then (.rsp, if wide then inRspWideB else inRspNarrowB)
  else if wide then (.wide, inWideR) else (.rsp, inRspNarrowR)

def responseFlit (isAddress : Bool) : Flit :=
  { flit with
    destId := flit.srcId
    isRsp := true
    isFirst := true
    isLast := true
    isAddress := isAddress
    silentB := false
    payload := if !flit.opcode.isWrite && !isAddress && flit.size > 0 then flit.payload else []
    data := none }

/-- What `handle_response` sends back, and what is left of the requests. The slices of a request that no flit owns share
its `remaining_size`. -/
def responseOf (mem : Nat → IoReq) (flit : Flit) : (Nat → IoReq) × Option Flit :=
  if !flit.opcode.isWrite then (mem, some (responseFlit flit false))
  else if flit.opcode = .write ∧ flit.ownsBeat then
    if !flit.silentB || flit.respStatus == .invalid then
      (mem, some (responseFlit (if flit.silentB then { flit with size := 0 } else flit) true))
    else (mem, none)
  else
    let burst := mem flit.burst
    let left := burst.remainingSize - flit.size
    (update mem flit.burst { burst with remainingSize := left },
      if left = 0 then some (responseFlit flit true) else none)

/-- `NetworkQueueV2::handle_rsp`: a response takes its input. -/
def queueRsp (nw : Nw) (input : Nat) (flit : Flit) : NetworkInterfaceV2 :=
  (s.setQueue nw ((s.queue nw).push input [flit])).enqueueFsm.check env nw

/-- The flit of a transaction that is over leaves the limit of its target. -/
def endTarget : NetworkInterfaceV2 :=
  if flit.isLast && flit.expectsResponse then
    let txns := s.targetTxns flit.wide flit.opcode.isWrite - 1
    { s with
      targetTxns := set₂ s.targetTxns flit.wide flit.opcode.isWrite txns
      forwardHeldPending := true
      fsmEvent := true }
  else s

def handleResponse : NetworkInterfaceV2 :=
  let (mem, rsp) := responseOf s.mem flit
  let s := { s with mem := mem }
  let s := match rsp with
    | none => s
    | some rsp =>
      let (nw, input) := rspInput flit.wide flit.opcode.isWrite
      s.queueRsp env nw input rsp
  s.endTarget flit

/-- The flit as `make_target_req` presents it, a submission of one beat. -/
def makeTargetReq : Flit := { flit with isFirst := true, isLast := true }

/-- `send_to_target`: whether the target denied the flit. -/
def sendToTarget (nw : Nw) (flit : Flit) : Bool × NetworkInterfaceV2 :=
  let s := s.output (.target wide nw flit (env.target wide nw))
  match env.target wide nw with
  | .denied => (true, s)
  | .granted => (false, s)
  | .done status delayed =>
    let flit := { flit with respStatus := status }
    if delayed then (false, { s with responseQueue := s.responseQueue ++ [flit] }.enqueueFsm)
    else (false, s.handleResponse env flit)

def hold (nw : Nw) (held : Option HeldReq) : NetworkInterfaceV2 :=
  { s with held := set₂ s.held wide nw held }

def beginTarget : NetworkInterfaceV2 :=
  if flit.expectsResponse then
    let txns := s.targetTxns flit.wide flit.opcode.isWrite + 1
    { s with targetTxns := set₂ s.targetTxns flit.wide flit.opcode.isWrite txns }
  else s

/-- `forward_to_target`: whether the flit is held. Its assertion is that no flit of the link is held already. -/
def forwardToTarget (nw : Nw) : Bool × NetworkInterfaceV2 :=
  let wide := flit.wide
  let s := if (s.held wide nw).isSome then s.output (.stalledLink nw flit) else s
  if flit.expectsResponse && cfg.niOutstandingReqs ≤ s.targetTxns wide flit.opcode.isWrite then
    (true, s.hold wide nw (some ⟨flit, false⟩))
  else
    let toSend := makeTargetReq flit
    let (denied, s) := (s.beginTarget flit).sendToTarget env wide nw toSend
    (denied, if denied then s.hold wide nw (some ⟨toSend, true⟩) else s)

/-- `forward_held` for one flit: it waited for room in the limit. -/
def forwardHeldFlit (nw : Nw) : NetworkInterfaceV2 :=
  match s.held wide nw with
  | some ⟨flit, false⟩ =>
    let (held, s) := (s.hold wide nw none).forwardToTarget cfg env flit nw
    if held then s else s.output (.unstall nw)
  | _ => s

/-- The flits that may be held, in the order of the loops. -/
def heldSlots : List (Bool × Nw) :=
  [(false, .req), (false, .rsp), (false, .wide), (true, .req), (true, .rsp), (true, .wide)]

def forwardHeld : NetworkInterfaceV2 :=
  heldSlots.foldl (fun s slot => s.forwardHeldFlit cfg env slot.1 slot.2) s

/-- `retry_target` for the flit of one link: the target denied it. -/
def retryFlit (s : NetworkInterfaceV2) (nw : Nw) : NetworkInterfaceV2 :=
  match s.held wide nw with
  | some ⟨flit, true⟩ =>
    let (denied, s) := s.sendToTarget env wide nw flit
    if denied then s else (s.hold wide nw none).output (.unstall nw)
  | _ => s

/-- `retry_target`: the target is ready again. -/
def retryTarget : NetworkInterfaceV2 :=
  ([.req, .rsp, .wide].foldl (retryFlit env wide) s).enqueueFsm

/-- `link_req`. The address header of a write carries no transfer. -/
def linkReq (nw : Nw) (flit : Flit) : Option NetworkInterfaceV2 :=
  if flit.isRsp then (s.linkRsp flit).map (·.output (.linkStatus nw flit false))
  else if flit.opcode.isWrite && flit.isAddress then some (s.output (.linkStatus nw flit false))
  else
    let (held, s) := s.forwardToTarget cfg env flit nw
    some (s.output (.linkStatus nw flit held))

/-- `accept_response`: whether the arbiter input of the response has room. -/
def acceptResponse : Bool × NetworkInterfaceV2 :=
  if !cfg.isRespRetryBound wide then (true, s)
  else if flit.opcode.isWrite && flit.silentB && flit.respStatus == .ok then (true, s)
  else
    let (nw, input) := rspInput wide flit.opcode.isWrite
    let (room, q) := (s.queue nw).reserve input
    let s := s.setQueue nw q
    if room then (true, s)
    else (false, { s with owesRespRetry := update s.owesRespRetry wide true })

/-- `narrow_response` and `wide_response`, for the flit with the fields of the answer (`unwrap_response`). -/
def response : NetworkInterfaceV2 :=
  let (accepted, s) := s.acceptResponse cfg wide flit
  if accepted then (s.handleResponse env flit).output (.respAck wide flit true)
  else s.output (.respAck wide flit false)

/-! ## The handler -/

def fsmPhases : List FsmPhase :=
  [.check .req, .check .rsp, .check .wide, .response, .forwardHeld,
    .pendingBurst true false, .pendingBurst true true, .pendingBurst false false, .pendingBurst false true,
    .idRetry false false, .idRetry false true, .idRetry true false, .idRetry true true,
    .inputRetry true, .inputRetry false, .triggerNext]

def fsmPhase : FsmPhase → NetworkInterfaceV2
  | .check nw => s.check env nw
  | .response =>
    match s.responseQueue with
    | [] => s
    | flit :: rest => if env.responseReady then { s with responseQueue := rest }.handleResponse env flit else s
  | .forwardHeld => if s.forwardHeldPending then { s with forwardHeldPending := false }.forwardHeld cfg env else s
  | .pendingBurst wide write =>
    if s.pendingBurst wide write = true ∧ s.pendingBurstNbReq wide write = 0 then
      { s with pendingBurst := set₂ s.pendingBurst wide write false }.enqueueFsm
    else s
  | .idRetry wide write =>
    if s.owesIdRetry wide write = true ∧ s.idTxns wide write = 0 then
      { s with owesIdRetry := set₂ s.owesIdRetry wide write false }.output
        (.retry wide (if write then .write else .read))
    else s
  | .inputRetry wide =>
    if s.owesRetryInput wide = true ∧ s.nbPendingBursts wide < cfg.niOutstandingReqs then
      { s with owesRetryInput := update s.owesRetryInput wide false }.output (.retry wide .any)
    else s
  | .triggerNext => if s.responseQueue ≠ [] then s.enqueueFsm else s

end NetworkInterfaceV2

/-! ## Events -/

/-- What happens to an interface. `fsm` starts `fsm_handler`, `phase` is one phase of it. -/
inductive NiEvent
  | req (wide : Bool) (req : IoReq)
  | linkReq (nw : Nw) (flit : Flit)
  | linkUnstall (nw : Nw)
  | response (wide : Bool) (flit : Flit)
  | retryTarget (wide : Bool)
  | fsm
  | phase

/-- An event, from a state whose outputs are taken. -/
def NetworkInterfaceV2.event (cfg : NiConfig) (env : Env) (s : NetworkInterfaceV2) :
    NiEvent → Option NetworkInterfaceV2
  | .req wide req => s.handleReq cfg env wide req
  | .linkReq nw flit => s.linkReq cfg env nw flit
  | .linkUnstall nw => some (s.unstall env nw)
  | .response wide flit => some (s.response cfg env wide flit)
  | .retryTarget wide => some (s.retryTarget env wide)
  | .fsm => if s.fsmEvent = true ∧ s.fsmTodo = [] then
      some { s with fsmEvent := false, fsmTodo := NetworkInterfaceV2.fsmPhases } else none
  | .phase => match s.fsmTodo with
    | [] => none
    | phase :: todo => some ({ s with fsmTodo := todo }.fsmPhase cfg env phase)

/-- **A step** of an interface, with what the environment answers in it. -/
def niStep (cfg : NiConfig) (s : NetworkInterfaceV2) (e : Env × NiEvent) : Option NetworkInterfaceV2 :=
  { s with outputs := [] }.event cfg e.1 e.2

end GvsocPulp.FloonocV2
