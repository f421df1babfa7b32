import GvsocPulp.Lib.ClockEvent

/-!
# The L1 NoC interfaces of TeraNoC

The interfaces of all tiles, the endpoint routers of the groups, and between them a NoC that delivers each packet once.

- `Packet`, `toNocReq`: the packet of a core request;
- `handleCoreReq`, `handleNocReq`, `handleNocResp`, `fsmHandler` by its loops, and the callbacks: the code;
- `step`: the calls of the cores, of the NoC and of the TCDM, and the events of the clock. The loops of the handler go
  one port at a time, since a core that is granted may call its interface in turn.
-/

namespace GvsocPulp.TeranocL1

open Lib Function

structure Config where
  nbXGroups : Nat
  nbYGroups : Nat
  nbTilesPerGroup : Nat
  /-- `nb_req_ports` and `nb_resp_ports`: a tile gives one number to both. -/
  nbPorts : Nat
  byteOffset : Nat
  nbBanksPerTile : Nat

structure Tile where
  groupX : Nat
  groupY : Nat
  id : Nat
  deriving DecidableEq, Repr

structure Port where
  tile : Tile
  port : Nat
  deriving DecidableEq, Repr

def getBits (x start width : Nat) : Nat := x / 2 ^ start % 2 ^ width

namespace Config

variable (cfg : Config)

def tiles : List Tile :=
  (List.range cfg.nbXGroups ×ˢ List.range cfg.nbYGroups ×ˢ List.range cfg.nbTilesPerGroup).map
    fun (x, y, id) => ⟨x, y, id⟩

def ports : List Port := (cfg.tiles ×ˢ List.range cfg.nbPorts).map fun (tile, port) => ⟨tile, port⟩

/-- The group of an address, as `REQ_DEST_X` and `REQ_DEST_Y`. -/
def groupOf (addr : Nat) : Nat × Nat :=
  let constantBitsLsb := cfg.byteOffset + Nat.clog 2 cfg.nbBanksPerTile + Nat.clog 2 cfg.nbTilesPerGroup
  let groupId := getBits addr constantBitsLsb (Nat.clog 2 (cfg.nbXGroups * cfg.nbYGroups))
  (groupId / cfg.nbYGroups, groupId % cfg.nbYGroups)

/-- The tile of an address, for the endpoint routers of the requests. -/
def tileOf (addr : Nat) : Nat :=
  getBits addr (cfg.byteOffset + Nat.clog 2 cfg.nbBanksPerTile) (Nat.clog 2 cfg.nbTilesPerGroup)

end Config

/-- What a request is answered through. -/
inductive RespPort
  | core (port : Port)
  | tcdm (port : Port)
  deriving DecidableEq, Repr

structure CoreReq where
  port : Port
  addr : Nat
  size : Nat
  deriving DecidableEq, Repr

/-- The arguments of a NoC request; `srcTile` is `none` when it has not been set. -/
structure Packet where
  burst : Nat
  srcTile : Option Nat
  srcX : Nat
  srcY : Nat
  destX : Nat
  destY : Nat
  deriving DecidableEq, Repr

structure InputPort where
  deniedReqs : List Nat := []
  nextBurstCycle : Nat := 0
  stalled : Bool := false
  deriving DecidableEq, Repr

/-- `limiterCycle` is the `next_write_burst_cycle` of the limiter. -/
structure OutputPort where
  outQueue : List Nat := []
  stalled : Bool := false
  limiterCycle : Nat := 0
  deriving DecidableEq, Repr

inductive NocStatus
  | pending
  | denied
  deriving DecidableEq, Repr

inductive TcdmStatus
  | ok (latency : Nat)
  | pending
  | denied
  deriving DecidableEq, Repr

/-- A core request in the TCDM, with the packet and the port that are pushed on it. -/
structure Access where
  req : Nat
  packet : Nat
  port : RespPort
  deriving DecidableEq, Repr

/-- A response that an interface has handed to a core, the tile of the interface and the packet. -/
structure Response where
  tile : Tile
  port : RespPort
  req : Nat
  packet : Nat
  deriving DecidableEq, Repr

/-- Where the loops of `fsm_handler` are. -/
inductive Todo
  | coreReqs (port : Port)
  | nocReqs (port : Port)
  | nocResps (port : Port)
  deriving DecidableEq, Repr

/-- The core requests and the packets, by their numbers, and what has become of them. -/
structure Heap where
  reqs : List CoreReq := []
  respPorts : Nat → RespPort := fun _ => .core ⟨⟨0, 0, 0⟩, 0⟩
  /-- The packets as they were built; `dests` is where they go now. -/
  packets : List Packet := []
  dests : Nat → Nat × Nat := fun _ => (0, 0)
  denied : List Nat := []
  granted : List (RespPort × Nat) := []
  performed : List (Tile × Access) := []
  responded : List Response := []
  freed : List Nat := []

/-- The interfaces, with what the NoC and the TCDM hold. -/
structure Noc extends Heap where
  coreReqSlvs : Port → InputPort := fun _ => {}
  nocReqMsts : Port → OutputPort := fun _ => {}
  nocReqSlvs : Port → InputPort := fun _ => {}
  nocRespSlvs : Port → OutputPort := fun _ => {}
  fsmEvent : Tile → Option Nat := fun _ => none
  /-- The packets that the NoC has denied, by the port that sent them. -/
  heldReqs : Port → List Nat := fun _ => []
  heldResps : Port → List Nat := fun _ => []
  nocReqs : List Nat := []
  nocResps : List Nat := []
  /-- The requests that the TCDM has to answer, and those it has still to grant. -/
  tcdm : Port → List Access := fun _ => []
  tcdmDenied : Port → List Access := fun _ => []
  cycle : Nat := 0
  todo : List Todo := []

/-- The packet of a core request; the two paths differ in `REQ_SRC_TILE`. -/
def toNocReq (cfg : Config) (tile : Tile) (req addr : Nat) (srcTile : Option Nat) : Packet where
  burst := req
  srcTile := srcTile
  srcX := tile.groupX
  srcY := tile.groupY
  destX := (cfg.groupOf addr).1
  destY := (cfg.groupOf addr).2

namespace Noc

variable (cfg : Config) (s : Noc)

def enqueueFsm (tile : Tile) : Noc :=
  { s with fsmEvent := update s.fsmEvent tile (enqueue s.cycle 1 (s.fsmEvent tile)) }

variable (p : Port)

def setCoreReqSlv (input : InputPort) : Noc := { s with coreReqSlvs := update s.coreReqSlvs p input }

def setNocReqMst (output : OutputPort) : Noc := { s with nocReqMsts := update s.nocReqMsts p output }

def setNocReqSlv (input : InputPort) : Noc := { s with nocReqSlvs := update s.nocReqSlvs p input }

def setNocRespSlv (output : OutputPort) : Noc := { s with nocRespSlvs := update s.nocRespSlvs p output }

def reqAddr (req : Nat) : Nat := (s.reqs[req]?.map (·.addr)).getD 0

def reqSize (req : Nat) : Nat := (s.reqs[req]?.map (·.size)).getD 0

/-- A packet is built and sent to the NoC, with the answer of the NoC. -/
def sendNocReq (packet : Packet) (status : NocStatus) : Noc :=
  let k := s.packets.length
  let s := { s.setCoreReqSlv p { s.coreReqSlvs p with nextBurstCycle := s.cycle + 1 } with
    packets := s.packets ++ [packet]
    dests := update s.dests k (packet.destX, packet.destY) }
  match status with
  | .pending => { s with nocReqs := s.nocReqs ++ [k] }
  | .denied =>
    { s.setNocReqMst p { s.nocReqMsts p with stalled := true } with
      heldReqs := update s.heldReqs p (s.heldReqs p ++ [k]) }

/-- `resp_port->grant` of a core request. -/
def grantCore (req : Nat) : Noc := { s with granted := s.granted ++ [(s.respPorts req, req)] }

def handleCoreReq (addr size : Nat) (status : NocStatus) : Noc :=
  let req := s.reqs.length
  let s := { s with reqs := s.reqs ++ [CoreReq.mk p addr size], respPorts := update s.respPorts req (.core p) }
  if (s.nocReqMsts p).stalled ∨ s.cycle < (s.coreReqSlvs p).nextBurstCycle ∨ (s.coreReqSlvs p).deniedReqs ≠ [] then
    { s.setCoreReqSlv p { s.coreReqSlvs p with deniedReqs := (s.coreReqSlvs p).deniedReqs ++ [req] } with
      denied := s.denied ++ [req] }.enqueueFsm p.tile
  else
    let s := s.sendNocReq p (toNocReq cfg p.tile req addr (some p.tile.id)) status
    if status = .denied then { s with denied := s.denied ++ [req] } else s

/-- `apply_bandwidth` of the limiter of a response port, of 4 bytes in a cycle and a latency of 1: the latency of the
request and the next cycle of the limiter. -/
def applyBandwidth (limiterCycle cycle size latency : Nat) : Nat × Nat :=
  (max latency (limiterCycle - cycle) + 1, max cycle limiterCycle + (size + 3) / 4)

/-- A packet goes back as the response, when the TCDM has answered its request with a latency; gives the latency that
remains. -/
def pushResp (k req : Nat) (port : RespPort) (size latency : Nat) : Noc × Nat :=
  let output := s.nocRespSlvs p
  let (latency, limiterCycle) := applyBandwidth output.limiterCycle s.cycle size latency
  match s.packets[k]? with
  | some packet =>
    ({ s.setNocRespSlv p { output with outQueue := output.outQueue ++ [k], limiterCycle := limiterCycle } with
      respPorts := update s.respPorts req port
      dests := update s.dests k (packet.srcX, packet.srcY) }.enqueueFsm p.tile, latency)
  | none => (s, latency)

/-- The core request of a packet goes to the TCDM, with the answer of the TCDM: as `handle_noc_req` and `fsm_handler`
both have it. -/
def sendTcdm (k : Nat) (status : TcdmStatus) : Noc :=
  match s.packets[k]? with
  | none => s
  | some packet =>
    let req := packet.burst
    let port := s.respPorts req
    let s := { s.setNocReqSlv p { s.nocReqSlvs p with nextBurstCycle := s.cycle + 1 } with
      performed := s.performed ++ [(p.tile, Access.mk req k port)] }
    match status with
    | .ok latency =>
      let (s, latency) := s.pushResp p k req port (s.reqSize req) latency
      if 2 < latency then
        s.setNocReqSlv p { s.nocReqSlvs p with nextBurstCycle := (s.nocReqSlvs p).nextBurstCycle + (latency - 2) }
      else s
    | .pending =>
      { s with
        respPorts := update s.respPorts req (.tcdm p)
        tcdm := update s.tcdm p (s.tcdm p ++ [Access.mk req k port]) }
    | .denied =>
      { s.setNocReqSlv p { s.nocReqSlvs p with stalled := true } with
        respPorts := update s.respPorts req (.tcdm p)
        tcdmDenied := update s.tcdmDenied p (s.tcdmDenied p ++ [Access.mk req k port]) }

def handleNocReq (k : Nat) (status : TcdmStatus) : Noc :=
  if (¬(s.nocReqSlvs p).stalled ∧ s.cycle < (s.nocReqSlvs p).nextBurstCycle) ∨ (s.nocReqSlvs p).deniedReqs ≠ [] then
    (s.setNocReqSlv p { s.nocReqSlvs p with deniedReqs := (s.nocReqSlvs p).deniedReqs ++ [k] }).enqueueFsm p.tile
  else s.sendTcdm p k status

/-- `handle_noc_resp`: the packet is deleted. -/
def handleNocResp (k req : Nat) : Noc :=
  { s with responded := s.responded ++ [Response.mk p.tile (s.respPorts req) req k], freed := s.freed ++ [k] }

def tcdmReqResponse (a : Access) : Noc := (s.pushResp p a.packet a.req a.port (s.reqSize a.req) 0).1

def tcdmReqGrant : Noc := (s.setNocReqSlv p { s.nocReqSlvs p with stalled := false }).enqueueFsm p.tile

def nocReqGrant (k : Nat) : Noc :=
  let s := s.setNocReqMst p { s.nocReqMsts p with stalled := false }
  match s.packets[k]? with
  | some packet => (s.grantCore packet.burst).enqueueFsm p.tile
  | none => s

def nocRespGrant : Noc := (s.setNocRespSlv p { s.nocRespSlvs p with stalled := false }).enqueueFsm p.tile

/-- The core request that the first loop of `fsm_handler` takes up at a port. -/
def retried : Option Nat :=
  if (s.nocReqMsts p).stalled = false ∧ (s.coreReqSlvs p).nextBurstCycle ≤ s.cycle then
    (s.coreReqSlvs p).deniedReqs.head?
  else none

def fsmCoreReq (status : NocStatus) : Noc :=
  let s := match s.retried p with
    | some req =>
      let s := s.setCoreReqSlv p { s.coreReqSlvs p with deniedReqs := (s.coreReqSlvs p).deniedReqs.tail }
      let s := s.sendNocReq p (toNocReq cfg p.tile req (s.reqAddr req) none) status
      if status = .denied then s else (s.grantCore req).enqueueFsm p.tile
    | none => s
  if (s.coreReqSlvs p).deniedReqs ≠ [] then s.enqueueFsm p.tile else s

def fsmNocReq (status : TcdmStatus) : Noc :=
  let s :=
    if (s.nocReqSlvs p).stalled = false ∧ (s.nocReqSlvs p).nextBurstCycle ≤ s.cycle then
      match (s.nocReqSlvs p).deniedReqs with
      | k :: rest => (s.setNocReqSlv p { s.nocReqSlvs p with deniedReqs := rest }).sendTcdm p k status
      | [] => s
    else s
  if (s.nocReqSlvs p).deniedReqs ≠ [] then s.enqueueFsm p.tile else s

/-- Whether the front of the queue can be popped depends on its delay. -/
def fsmNocResp (ready : Bool) (status : NocStatus) : Noc :=
  let s :=
    if (s.nocRespSlvs p).stalled = false ∧ ready then
      match (s.nocRespSlvs p).outQueue with
      | k :: rest =>
        let s := s.setNocRespSlv p { s.nocRespSlvs p with outQueue := rest }
        match status with
        | .pending => { s with nocResps := s.nocResps ++ [k] }
        | .denied =>
          { s.setNocRespSlv p { s.nocRespSlvs p with stalled := true } with
            heldResps := update s.heldResps p (s.heldResps p ++ [k]) }
      | [] => s
    else s
  if (s.nocRespSlvs p).outQueue ≠ [] then s.enqueueFsm p.tile else s

end Noc

inductive Event
  | coreReq (p : Port) (addr size : Nat) (status : NocStatus)
  | nocReqGrant (p : Port)
  | nocReq (k port : Nat) (status : TcdmStatus)
  | tcdmResponse (p : Port) (a : Access)
  | tcdmGrant (p : Port) (a : Access)
  | nocResp (k port unset : Nat)
  | nocRespGrant (p : Port)
  | fsm (tile : Tile)
  | next (noc : NocStatus) (tcdm : TcdmStatus) (ready : Bool)
  | tick
  deriving DecidableEq, Repr

namespace Noc

/-- Where the endpoint router of the group hands a request. -/
def reqPort (cfg : Config) (s : Noc) (k port : Nat) : Option Port :=
  (s.packets[k]?.bind fun packet => s.reqs[packet.burst]?).bind fun r =>
    let p : Port := ⟨⟨(s.dests k).1, (s.dests k).2, cfg.tileOf r.addr⟩, port⟩
    if p ∈ cfg.ports then some p else none

/-- Where it hands a response; what is in `REQ_SRC_TILE` when it has not been set is not known. -/
def respPort (cfg : Config) (s : Noc) (k port unset : Nat) : Option (Port × Nat) :=
  s.packets[k]?.bind fun packet =>
    let p : Port := ⟨⟨(s.dests k).1, (s.dests k).2, packet.srcTile.getD unset⟩, port⟩
    if p ∈ cfg.ports then some (p, packet.burst) else none

def step (cfg : Config) (s : Noc) : Event → Option Noc
  | .coreReq p addr size status => if p ∈ cfg.ports then some (s.handleCoreReq cfg p addr size status) else none
  | .nocReqGrant p =>
    match decide (p ∈ cfg.ports), s.heldReqs p with
    | true, k :: rest =>
      some ({ s with heldReqs := update s.heldReqs p rest, nocReqs := s.nocReqs ++ [k] }.nocReqGrant p k)
    | _, _ => none
  | .nocReq k port status =>
    if k ∈ s.nocReqs then
      (s.reqPort cfg k port).map fun p => { s with nocReqs := s.nocReqs.erase k }.handleNocReq p k status
    else none
  | .tcdmResponse p a =>
    if p ∈ cfg.ports ∧ a ∈ s.tcdm p then
      some ({ s with tcdm := update s.tcdm p ((s.tcdm p).erase a) }.tcdmReqResponse p a)
    else none
  | .tcdmGrant p a =>
    if p ∈ cfg.ports ∧ a ∈ s.tcdmDenied p then
      some ({ s with
        tcdmDenied := update s.tcdmDenied p ((s.tcdmDenied p).erase a)
        tcdm := update s.tcdm p (s.tcdm p ++ [a]) }.tcdmReqGrant p)
    else none
  | .nocResp k port unset =>
    if k ∈ s.nocResps then
      (s.respPort cfg k port unset).map fun (p, req) => { s with nocResps := s.nocResps.erase k }.handleNocResp p k req
    else none
  | .nocRespGrant p =>
    match decide (p ∈ cfg.ports), s.heldResps p with
    | true, k :: rest =>
      some ({ s with heldResps := update s.heldResps p rest, nocResps := s.nocResps ++ [k] }.nocRespGrant p)
    | _, _ => none
  | .fsm tile =>
    if tile ∈ cfg.tiles ∧ s.todo = [] ∧ s.fsmEvent tile = some s.cycle then
      some { s with fsmEvent := update s.fsmEvent tile none, todo := [.coreReqs ⟨tile, 0⟩] }
    else none
  | .next noc tcdm ready =>
    match s.todo with
    | .coreReqs p :: todo =>
      if p.port < cfg.nbPorts then some ({ s with todo := .coreReqs { p with port := p.port + 1 } :: todo }.fsmCoreReq
        cfg p noc)
      else some { s with todo := .nocReqs ⟨p.tile, 0⟩ :: todo }
    | .nocReqs p :: todo =>
      if p.port < cfg.nbPorts then some ({ s with todo := .nocReqs { p with port := p.port + 1 } :: todo }.fsmNocReq p
        tcdm)
      else some { s with todo := .nocResps ⟨p.tile, 0⟩ :: todo }
    | .nocResps p :: todo =>
      if p.port < cfg.nbPorts then
        some ({ s with todo := .nocResps { p with port := p.port + 1 } :: todo }.fsmNocResp p ready noc)
      else some { s with todo := todo }
    | [] => none
  | .tick => if s.todo = [] ∧ ∀ tile ∈ cfg.tiles, s.fsmEvent tile ≠ some s.cycle then
      some { s with cycle := s.cycle + 1 } else none

end Noc

end GvsocPulp.TeranocL1
