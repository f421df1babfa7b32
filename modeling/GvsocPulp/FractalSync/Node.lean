import GvsocPulp.Lib.Run

/-!
# `FractalSync`: a node

A node synchronises the requests of its slave ports in pairs, north with south and east with west. A request for its
level waits for the one of the other port of the pair (`fsm_handler`), one for a higher level goes up at once
(`handle_req`); what comes while the FSM is busy is queued, and an event in `IDLE` takes one request from the queue.

The two halves of the source, north-south and east-west, are one definition here with the pair of ports as a parameter.
-/

namespace GvsocPulp.FractalSync

open Function

/-! ## Ports and messages -/

/-- The two pairs of slave ports: `NORD_SUD` and `EAST_WEST`. -/
inductive Pair
  | nordSud
  | eastWest
  deriving DecidableEq, Repr

/-- `fractalsync_input_directions`. -/
inductive Dir
  | nord
  | sud
  | east
  | west
  deriving DecidableEq, Repr

def Dir.pair : Dir → Pair
  | .nord | .sud => .nordSud
  | .east | .west => .eastWest

/-- The ports of a pair, the one the code looks at first before the other. -/
def Pair.fst : Pair → Dir
  | .nordSud => .nord
  | .eastWest => .east

def Pair.snd : Pair → Dir
  | .nordSud => .sud
  | .eastWest => .west

structure PortReq where
  sync : Bool
  aggr : BitVec 32
  idReq : Nat
  deriving DecidableEq, Repr

structure PortResp where
  wake : Bool
  lvl : BitVec 32
  idRsp : Nat
  error : Bool
  deriving DecidableEq, Repr

/-- A call of a node on one of its ports: up, on the master port of a pair (`master_ew_output_port` for the requests
from north and south, `master_ns_output_port` for the others), or on a slave port. -/
inductive Output
  | up (pair : Pair) (req : PortReq)
  | resp (dir : Dir) (resp : PortResp)
  deriving DecidableEq, Repr

/-! ## State -/

/-- `fractalsync_state`. -/
inductive FsmState
  | idle
  | slaveReq (dir : Dir)
  | endSyncro (pair : Pair)
  | upSyncro (pair : Pair)
  deriving DecidableEq, Repr

/-- What a node is configured with; `clz0` is the position of the highest bit that the code computes for an empty mask,
for which `__builtin_clz` is undefined. -/
structure NodeConfig where
  level : Nat
  clz0 : Nat := 4294967295

def NodeConfig.mask (cfg : NodeConfig) : BitVec 32 := 1#32 <<< cfg.level

/-- `0xFFFFFFFF`: no mask. -/
abbrev noAggr : BitVec 32 := 0xFFFFFFFF#32

/-- `req_queue_entry`; `seq` is the number of requests that came by the port before. -/
structure QueueEntry where
  req : PortReq
  portId : Dir
  seq : Nat
  deriving DecidableEq, Repr

/-- `FractalSync`. The values of a pair or a port are by pair or port, those of an id by id. -/
structure Node where
  state : FsmState := .idle
  reqQueue : List QueueEntry := []
  fsmEvent : Bool := false
  syncroVal : Pair → Nat → Int := fun _ _ => 0
  currentAggr : Dir → Nat → BitVec 32 := fun _ _ => noAggr
  currentIdReq : Dir → Nat := fun _ => 4294967295
  /-- `nord_sud_current_aggr` and `nord_sud_current_id_req`, `east_west_...`: the request that goes up. -/
  pairAggr : Pair → BitVec 32 := fun _ => noAggr
  pairIdReq : Pair → Nat := fun _ => 4294967295
  /-- What the node has called in the last event. -/
  outputs : List Output := []
  /-- How many requests have come by each port, and which of them `handle_req` has got. -/
  arrived : Dir → Nat := fun _ => 0
  handled : List (Dir × Nat) := []

namespace Node

variable (cfg : NodeConfig)

/-- `f` with the value at `a`, `b` replaced. -/
def set₂ {α β γ : Type*} [DecidableEq α] [DecidableEq β] (f : α → β → γ) (a : α) (b : β) (v : γ) : α → β → γ :=
  fun a' b' => if a' = a ∧ b' = b then v else f a' b'

variable (s : Node)

def output (o : Output) : Node := { s with outputs := s.outputs ++ [o] }

/-- The FSM goes to a state; `event_enqueue(fsm_event, 1)`. -/
def goto (state : FsmState) : Node := { s with state := state, fsmEvent := true }

/-- The position of the highest bit of a mask. -/
def msbPos (aggr : BitVec 32) : Nat := if aggr = 0 then cfg.clz0 else Nat.log2 aggr.toNat

def errorResp : PortResp := { wake := false, lvl := 0, idRsp := 0, error := true }

/-! ## Requests -/

/-- The mask of a request is kept: it also says which ports an answer goes to. -/
def keepAggr (dir : Dir) (req : PortReq) : Node :=
  { s with currentAggr := set₂ s.currentAggr dir req.idReq req.aggr }

def handleReq (req : PortReq) (dir : Dir) : Node :=
  if req.sync then
    if req.aggr &&& cfg.mask ≠ 0 then
      { s.keepAggr dir req with currentIdReq := update s.currentIdReq dir req.idReq }.goto (.slaveReq dir)
    else if msbPos cfg req.aggr > cfg.level then
      (s.keepAggr dir req).output (.up dir.pair { sync := true, aggr := req.aggr, idReq := req.idReq })
    else s.output (.resp dir errorResp)
  else s.output (.resp dir errorResp)

/-- `handle_req`, noted. -/
def handle (entry : QueueEntry) : Node :=
  handleReq cfg { s with handled := s.handled ++ [(entry.portId, entry.seq)] } entry.req entry.portId

def slaveInput (req : PortReq) (dir : Dir) : Node :=
  let entry := { req := req, portId := dir, seq := s.arrived dir }
  let s := { s with arrived := update s.arrived dir (s.arrived dir + 1) }
  if s.state = .idle then s.handle cfg entry else { s with reqQueue := s.reqQueue ++ [entry] }

/-! ## The FSM -/

/-- The request of a port goes up. -/
def sendUp (dir : Dir) : Node :=
  let id := s.currentIdReq dir
  { s with
    pairAggr := update s.pairAggr dir.pair (s.currentAggr dir id)
    pairIdReq := update s.pairIdReq dir.pair id }.goto (.upSyncro dir.pair)

/-- The port whose mask `SLAVE_..._REQ` tests for the bit of the level: for west it is the one of east. -/
def Dir.tested : Dir → Dir
  | .west => .east
  | dir => dir

def count (pair : Pair) (id : Nat) : Node :=
  { s with syncroVal := set₂ s.syncroVal pair id (s.syncroVal pair id + 1) }

/-- `SLAVE_..._REQ`: the synchronisation ends here, goes on at a higher level with both ports, or is not for this level.
-/
def fsmSlaveReq (dir : Dir) : Node :=
  let id := s.currentIdReq dir
  if msbPos cfg (s.currentAggr dir id) = cfg.level then
    let s := s.count dir.pair id
    s.goto (if s.syncroVal dir.pair id = 2 then .endSyncro dir.pair else .idle)
  else if s.currentAggr (Dir.tested dir) id &&& cfg.mask ≠ 0 then
    let s := s.count dir.pair id
    if s.syncroVal dir.pair id = 2 then s.sendUp dir else s.goto .idle
  else s.sendUp dir

def fsmUpSyncro (pair : Pair) : Node :=
  let id := s.pairIdReq pair
  let s := s.output (.up pair { sync := true, aggr := s.pairAggr pair, idReq := id })
  { s with syncroVal := set₂ s.syncroVal pair id 0 }.goto .idle

def wakeResp (dir : Dir) (id : Nat) : PortResp :=
  { wake := true, lvl := s.currentAggr dir id, idRsp := id, error := false }

def forget (pair : Pair) (id : Nat) : Node :=
  { s with currentAggr := set₂ (set₂ s.currentAggr pair.fst id noAggr) pair.snd id noAggr }

/-- The order in which both ports of a pair are answered: west before east. -/
def Pair.answered : Pair → List Dir
  | .nordSud => [.nord, .sud]
  | .eastWest => [.west, .east]

/-- `..._END_SYNCRO`; `none` where it is fatal. -/
def fsmEndSyncro (pair : Pair) : Option Node :=
  let end_ (id : Nat) : Node :=
    let resps := (Pair.answered pair).map fun dir => Output.resp dir (s.wakeResp dir id)
    ({ s with syncroVal := set₂ s.syncroVal pair id 0, outputs := s.outputs ++ resps }.forget pair id).goto .idle
  if s.syncroVal pair (s.currentIdReq pair.fst) = 2 then some (end_ (s.currentIdReq pair.fst))
  else if s.syncroVal pair (s.currentIdReq pair.snd) = 2 then some (end_ (s.currentIdReq pair.snd))
  else none

/-- `IDLE`: a queued request is handled. -/
def fsmIdle : Node :=
  match s.reqQueue with
  | [] => s
  | entry :: rest => { s with reqQueue := rest }.handle cfg entry

def fired : Node := { s with fsmEvent := false, outputs := [] }

def fsmHandler : Option Node :=
  match s.state with
  | .idle => some (s.fsmIdle cfg)
  | .slaveReq dir => some (s.fsmSlaveReq cfg dir)
  | .upSyncro pair => some (s.fsmUpSyncro pair)
  | .endSyncro pair => s.fsmEndSyncro pair

/-! ## Answers -/

/-- `master_input_method`: the answer goes to the ports of the pair that have a mask for the id. -/
def masterInput (pair : Pair) (rsp : PortResp) : Node :=
  let id := rsp.idRsp
  let dirs := (Pair.answered pair).filter fun dir => s.currentAggr dir id ≠ noAggr
  let rsp : PortResp := { wake := true, lvl := cfg.mask, idRsp := id, error := false }
  { s with outputs := s.outputs ++ dirs.map fun dir => Output.resp dir rsp }.forget pair id

end Node

/-! ## Events -/

/-- What happens to a node: a call on a slave port, the event of the FSM, a call on the master port of a pair. -/
inductive NodeEvent
  | request (dir : Dir) (req : PortReq)
  | fsm
  | response (pair : Pair) (rsp : PortResp)
  deriving DecidableEq, Repr

/-- **A step** of a node. -/
def nodeStep (cfg : NodeConfig) (s : Node) : NodeEvent → Option Node
  | .request dir req => some ({ s with outputs := [] }.slaveInput cfg req dir)
  | .fsm => if s.fsmEvent then s.fired.fsmHandler cfg else none
  | .response pair rsp => some ({ s with outputs := [] }.masterInput cfg pair rsp)

end GvsocPulp.FractalSync
