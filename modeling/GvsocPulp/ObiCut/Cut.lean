import GvsocPulp.Lib.ClockEvent
import GvsocPulp.Lib.Run

/-!
# The OBI cut

`ObiCut` (`obi_cut.cpp`): a spill register on the requests and one on the responses, in front of a register slave. The
master and the slave are the environment: a handler gets with its event what they answer, and the requests the master
makes from inside the calls.
-/

namespace GvsocPulp.ObiCut

open Function

inductive Opcode
  | read
  | write
  | atomic
  deriving DecidableEq, Repr

/-- `CH_READ` and `CH_WRITE`. -/
inductive Channel
  | read
  | write
  deriving DecidableEq, Repr

def channelOf : Opcode → Channel
  | .write => .write
  | _ => .read

inductive RetryChannel
  | any
  | only (ch : Channel)
  deriving DecidableEq, Repr

def RetryChannel.covers : RetryChannel → Channel → Bool
  | .any, _ => true
  | .only ch', ch => ch' == ch

inductive RespStatus
  | ok
  | invalid
  deriving DecidableEq, Repr

structure IoReq where
  opcode : Opcode
  addr : Nat
  size : Nat
  isFirst : Bool := true
  isLast : Bool := true
  burstId : Int := -1
  initiator : Nat := 0
  data : List UInt8 := []
  deriving DecidableEq, Repr

inductive IoReqStatus
  | denied
  | done (status : RespStatus)
  | granted
  deriving DecidableEq, Repr

/-- What the slave writes into a request: its status and, for a read or an atomic, the data. -/
structure Answer where
  status : RespStatus
  data : List UInt8 := []
  deriving DecidableEq, Repr

/-- `Access` in the request queue or among the pending ones. `id` is the object that goes down, `taken` the cycle of
`in_req`. -/
structure Access where
  id : Nat
  up : IoReq
  down : IoReq
  taken : Nat
  ready : Nat
  deriving DecidableEq, Repr

/-- What goes back to the master. -/
structure Resp where
  opcode : Opcode
  addr : Nat
  size : Nat
  status : RespStatus
  data : List UInt8
  deriving DecidableEq, Repr

/-- `Access` in the response queue. `answered` is the cycle in which the slave has answered. -/
structure Response where
  access : Access
  answer : Answer
  resp : Resp
  answered : Nat
  ready : Nat
  deriving DecidableEq, Repr

structure Config where
  width : Nat
  respLatency : Nat

/-- `OBI_CUT_DEPTH` -/
abbrev depth : Nat := 2

inductive SlaveReply
  | denied
  | granted
  | done (answer : Answer) (latency : Nat)
  deriving DecidableEq, Repr

/-- What the environment does in one call of a handler: the answer of the slave to a request, whether the master denies
a response, and the requests that the master makes inside `retry` and inside `resp`. -/
structure Env where
  slave : Channel → SlaveReply := fun _ => .granted
  masterDenies : Channel → Bool := fun _ => false
  inRetry : Channel → List IoReq := fun _ => []
  inResp : Channel → List IoReq := fun _ => []

/-- What the master is told on a channel: that its request is denied, and `retry`. -/
inductive Told
  | denied
  | retry
  deriving DecidableEq, Repr

structure Cut where
  cycle : Nat := 0
  reqQueue : Channel → List Access := fun _ => []
  respQueue : Channel → List Response := fun _ => []
  pending : List Access := []
  downDenied : Channel → Bool := fun _ => false
  upDenied : Channel → Bool := fun _ => false
  inDenied : Channel → Bool := fun _ => false
  fsmEvent : Option Nat := none
  /-- The objects that have gone through the cut. -/
  nextId : Nat := 0
  /-- The granted requests. -/
  taken : Channel → List Access := fun _ => []
  /-- The requests the slave has accepted, with the cycle. -/
  sent : Channel → List (Access × Nat) := fun _ => []
  /-- The answers of the slave. -/
  answered : Channel → List Response := fun _ => []
  /-- The responses the master has accepted, with the cycle. -/
  returned : Channel → List (Response × Nat) := fun _ => []
  told : Channel → List Told := fun _ => []

/-- The request that goes down for one of the master: a read gets a beat of its own. -/
def downOf (req : IoReq) : IoReq :=
  match req.opcode with
  | .read => { req with isFirst := true, isLast := true, data := [] }
  | _ => req

/-- The response to an access: a write gets a separate ack. -/
def respOf (access : Access) (answer : Answer) : Resp :=
  match access.up.opcode with
  | .write =>
    { opcode := .write, addr := access.down.addr, size := access.down.size, status := answer.status, data := [] }
  | opcode =>
    { opcode := opcode, addr := access.down.addr, size := access.down.size, status := answer.status
      data := answer.data }

namespace Cut

variable (cfg : Config) (s : Cut)

/-- The cycles for which the queues need the handler: the heads that are not denied. -/
def needs : List Nat :=
  [Channel.read, .write].flatMap fun ch =>
    (if s.downDenied ch then [] else ((s.reqQueue ch).head?.map (·.ready)).toList) ++
      if s.upDenied ch then [] else ((s.respQueue ch).head?.map (·.ready)).toList

def schedule : Cut :=
  match s.needs with
  | [] => s
  | need :: needs =>
    let next := needs.foldl min need
    let delay := if s.cycle < next then next - s.cycle else 1
    { s with fsmEvent := Lib.enqueue s.cycle delay s.fsmEvent }

def inReq (req : IoReq) : IoReqStatus × Cut :=
  let ch := channelOf req.opcode
  if depth ≤ (s.reqQueue ch).length then
    (.denied, { s with inDenied := update s.inDenied ch true
                       told := update s.told ch (s.told ch ++ [.denied]) })
  else if ¬ req.isFirst ∨ ¬ req.isLast ∨ cfg.width < req.size then (.done .invalid, s)
  else
    let access := { id := s.nextId, up := req, down := downOf req, taken := s.cycle, ready := s.cycle + 1 }
    (.granted, schedule { s with
      reqQueue := update s.reqQueue ch (s.reqQueue ch ++ [access])
      nextId := s.nextId + 1
      taken := update s.taken ch (s.taken ch ++ [access]) })

/-- The requests the master makes inside a call. -/
def inReqs (reqs : List IoReq) : Cut := reqs.foldl (fun s req => (s.inReq cfg req).2) s

def respond (access : Access) (answer : Answer) (latency : Nat) : Cut :=
  let ch := channelOf access.up.opcode
  let response := { access := access, answer := answer, resp := respOf access answer, answered := s.cycle,
                    ready := s.cycle + 1 + cfg.respLatency + latency }
  schedule { s with
    respQueue := update s.respQueue ch (s.respQueue ch ++ [response])
    answered := update s.answered ch (s.answered ch ++ [response]) }

/-- What follows once the slave has accepted the head of a channel. -/
def accepted (env : Env) (s : Cut) (ch : Channel) (access : Access) (rest : List Access) : Cut :=
  let s := { s with
    reqQueue := update s.reqQueue ch rest
    sent := update s.sent ch (s.sent ch ++ [(access, s.cycle)]) }
  if s.inDenied ch then
    inReqs cfg { s with inDenied := update s.inDenied ch false
                        told := update s.told ch (s.told ch ++ [.retry]) } (env.inRetry ch)
  else s

def sendDown (env : Env) (s : Cut) (ch : Channel) : Cut :=
  match s.reqQueue ch with
  | [] => s
  | access :: rest =>
    if s.downDenied ch ∨ s.cycle < access.ready then s
    else
      match env.slave ch with
      | .denied => { s with downDenied := update s.downDenied ch true }
      | .done answer latency => (s.accepted cfg env ch access rest).respond cfg access answer latency
      | .granted =>
        let s := s.accepted cfg env ch access rest
        { s with pending := s.pending ++ [access] }

/-- `None` for a response to an unknown request, which is fatal. -/
def outResp (id : Nat) (answer : Answer) : Option Cut :=
  match s.pending.find? (·.id == id) with
  | none => none
  | some access => some (({ s with pending := s.pending.erase access }).respond cfg access answer 0)

def sendUp (env : Env) (s : Cut) (ch : Channel) : Cut :=
  match s.respQueue ch with
  | [] => s
  | response :: rest =>
    if s.upDenied ch ∨ s.cycle < response.ready then s
    else
      let s := s.inReqs cfg (env.inResp ch)
      if env.masterDenies ch then { s with upDenied := update s.upDenied ch true }
      else { s with
        respQueue := update s.respQueue ch rest
        returned := update s.returned ch (s.returned ch ++ [(response, s.cycle)]) }

def retryDown (channel : RetryChannel) (env : Env) (s : Cut) (ch : Channel) : Cut :=
  if channel.covers ch ∧ s.downDenied ch then
    sendDown cfg env { s with downDenied := update s.downDenied ch false } ch
  else s

def outRetry (channel : RetryChannel) (env : Env) : Cut :=
  ([Channel.read, .write].foldl (retryDown cfg channel env) s).schedule

def retryUp (channel : RetryChannel) (env : Env) (s : Cut) (ch : Channel) : Cut :=
  if channel.covers ch ∧ s.upDenied ch then
    sendUp cfg env { s with upDenied := update s.upDenied ch false } ch
  else s

def inRespRetry (channel : RetryChannel) (env : Env) : Cut :=
  ([Channel.read, .write].foldl (retryUp cfg channel env) s).schedule

/-- One channel in `fsm_handler`: responses first. -/
def serve (env : Env) (s : Cut) (ch : Channel) : Cut := (s.sendUp cfg env ch).sendDown cfg env ch

def fsmHandler (env : Env) : Cut :=
  ([Channel.read, .write].foldl (serve cfg env) { s with fsmEvent := none }).schedule

inductive Event
  | inReq (req : IoReq)
  | outResp (id : Nat) (answer : Answer)
  | outRetry (channel : RetryChannel) (env : Env)
  | inRespRetry (channel : RetryChannel) (env : Env)
  | fsm (env : Env)
  | tick

def Due : Prop := ∃ due ∈ s.fsmEvent, due ≤ s.cycle

instance (s : Cut) : Decidable s.Due := inferInstanceAs (Decidable (∃ due ∈ s.fsmEvent, due ≤ s.cycle))

/-- A cycle ends once the event is not due. -/
def step : Event → Option Cut
  | .inReq req => some (s.inReq cfg req).2
  | .outResp id answer => s.outResp cfg id answer
  | .outRetry channel env => some (s.outRetry cfg channel env)
  | .inRespRetry channel env => some (s.inRespRetry cfg channel env)
  | .fsm env => if s.Due then some (s.fsmHandler cfg env) else none
  | .tick => if s.Due then none else some { s with cycle := s.cycle + 1 }

end Cut

end GvsocPulp.ObiCut
