import GvsocPulp.Lib.ClockEvent
import GvsocPulp.Lib.Run
import GvsocPulp.TeranocNoc.Net

/-!
# The routers and the network interfaces

`Router` (`floonoc_router.cpp`) and `NetworkInterface` (`floonoc_network_interface.cpp`) of the narrow network. What a
router pushes into a queue shows one cycle later, and the queue enqueues the event of its router. The targets and the
initiators are the environment: a target decides for each request whether it denies it, and owes a grant from then on.
-/

namespace GvsocPulp.TeranocNoc

open Function

/-- A request in a queue, and the cycle from which the queue shows it. -/
structure Entry where
  req : Req
  ready : Nat
  deriving DecidableEq, Repr

/-- The routers, the network interfaces and the targets, by their position. -/
structure Noc where
  cycle : Nat
  queues : Queue → List Entry
  stalledQueues : Pos → Dir → Bool
  currentQueue : Pos → Dir
  /-- The cycle that `fsm_event` is enqueued for. -/
  fsmEvent : Pos → Option Nat
  routerStalled : Pos → Bool
  targetStalled : Pos → Bool
  /-- The target has denied a request and not granted it. -/
  owed : Pos → Bool
  /-- What the network interfaces have accepted. -/
  accepted : List Req
  received : Pos → List Req
  /-- What was handed to a target that owed a grant. -/
  early : List Req
  /-- The queues that were ever above their bound. -/
  overfull : List Queue

inductive IoReqStatus
  | pending
  | denied
  deriving DecidableEq, Repr

namespace Noc

def enqueueFsm (s : Noc) (p : Pos) : Noc :=
  { s with fsmEvent := update s.fsmEvent p (Lib.enqueue s.cycle 1 (s.fsmEvent p)) }

def pushBack (cfg : Config) (s : Noc) (q : Queue) (r : Req) : Noc :=
  enqueueFsm { s with
    queues := update s.queues q (s.queues q ++ [⟨r, s.cycle + 1⟩])
    overfull := if cfg.bound q < (s.queues q).length + 1 then s.overfull ++ [q] else s.overfull } q.pos

def pop (s : Noc) (q : Queue) (rest : List Entry) : Noc := { s with queues := update s.queues q rest }

end Noc

def NetworkInterface.unstallQueue (p : Pos) (s : Noc) : Noc :=
    { s with routerStalled := update s.routerStalled p false }

/-- The next index of a queue, around. -/
def Dir.succ : Dir → Dir
  | .right => .left
  | .left => .up
  | .up => .down
  | .down => .local
  | .local => .right

/-- The queues in the order they are looked at. -/
def Dir.from (d : Dir) : List Dir := [d, d.succ, d.succ.succ, d.succ.succ.succ, d.succ.succ.succ.succ]

namespace Router

def unstallQueue (p sender : Pos) (s : Noc) : Noc :=
  Noc.enqueueFsm { s with stalledQueues := setFlag s.stalledQueues p (getReqQueue p sender) false } p

def stallQueue (p sender : Pos) (s : Noc) : Noc :=
  { s with stalledQueues := setFlag s.stalledQueues p (getReqQueue p sender) true }

/-- `handle_request`: whether the sender has to stall. -/
def handleRequest (cfg : Config) (p : Pos) (s : Noc) (r : Req) (sender : Pos) : Bool × Noc :=
  let q := .input p (getReqQueue p sender)
  let s := s.pushBack cfg q r
  (cfg.queueSize < (s.queues q).length, s)

def unstallPrevious (p : Pos) (d : Dir) (s : Noc) : Noc :=
  let prev := getPosFromQueue p d
  if prev = p then NetworkInterface.unstallQueue p s else unstallQueue prev p s

end Router

def NetworkInterface.reqFromRouter (p : Pos) (s : Noc) (r : Req) (deny : Bool) : Noc :=
  let s := { s with
    received := update s.received p (s.received p ++ [r])
    early := if s.owed p then s.early ++ [r] else s.early }
  if deny then
    Router.stallQueue p p { s with
      targetStalled := update s.targetStalled p true
      owed := update s.owed p true }
  else s

def NetworkInterface.grant (p : Pos) (s : Noc) : Noc :=
  Router.unstallQueue p p { s with
    targetStalled := update s.targetStalled p false
    owed := update s.owed p false }

/-- `req` of the network interface where the request comes in. -/
def NetworkInterface.req (cfg : Config) (s : Noc) (r : Req) : IoReqStatus × Noc :=
  if s.routerStalled r.src then (.denied, s)
  else
    let (stalled, s) := Router.handleRequest cfg r.src s r r.src
    (.pending, { s with
      routerStalled := update s.routerStalled r.src stalled
      accepted := s.accepted ++ [r] })

namespace Router

/-- One input queue in `fsm_handler`, with `output_full`. -/
def visitInput (cfg : Config) (p : Pos) (st : Noc × (Dir → Bool)) (d : Dir) : Noc × (Dir → Bool) :=
  let (s, outputFull) := st
  match s.queues (.input p d) with
  | [] => (s, outputFull)
  | e :: rest =>
    if s.cycle < e.ready then (s.enqueueFsm p, outputFull)
    else
      let out := route p e.req.dest
      if outputFull out then (s.enqueueFsm p, outputFull)
      else if cfg.queueSize ≤ (s.queues (.output p out)).length then (s.enqueueFsm p, update outputFull out true)
      else
        let s := (s.pop (.input p d) rest).pushBack cfg (.output p out) e.req
        let s := if rest.length = cfg.queueSize then unstallPrevious p d s else s
        let s := { s with currentQueue := update s.currentQueue p d.succ }
        (s.enqueueFsm p, update outputFull out true)

/-- One output queue in `fsm_handler`. -/
def visitOutput (cfg : Config) (p : Pos) (deny : Bool) (s : Noc) (d : Dir) : Noc :=
  match s.queues (.output p d) with
  | [] => s
  | e :: rest =>
    if s.cycle < e.ready then s.enqueueFsm p
    else if s.stalledQueues p d then s
    else
      let next := getPosFromQueue p d
      let s := s.pop (.output p d) rest
      let s :=
        if next = p then NetworkInterface.reqFromRouter p s e.req deny
        else
          let (stalled, s) := handleRequest cfg next s e.req p
          if stalled then { s with stalledQueues := setFlag s.stalledQueues p d true } else s
      if rest = [] then s else s.enqueueFsm p

def fsmHandler (cfg : Config) (p : Pos) (s : Noc) (deny : Bool) : Noc :=
  let s := { s with fsmEvent := update s.fsmEvent p none }
  let (s, _) := (s.currentQueue p).from.foldl (visitInput cfg p) (s, fun _ => false)
  [Dir.right, .left, .up, .down, .local].foldl (visitOutput cfg p deny) s

end Router

namespace Noc

/-- After `reset`. -/
def initial : Noc where
  cycle := 0
  queues _ := []
  stalledQueues _ _ := false
  currentQueue _ := .right
  fsmEvent _ := none
  routerStalled _ := false
  targetStalled _ := false
  owed _ := false
  accepted := []
  received _ := []
  early := []
  overfull := []

/-- `deny` is what the target answers if the handler hands it a request. -/
inductive Event
  | req (r : Req)
  | fsm (p : Pos) (deny : Bool)
  | grant (p : Pos)
  | tick
  deriving DecidableEq, Repr

def Due (s : Noc) (p : Pos) : Prop := ∃ due ∈ s.fsmEvent p, due ≤ s.cycle

instance (s : Noc) (p : Pos) : Decidable (s.Due p) := inferInstanceAs (Decidable (∃ due ∈ s.fsmEvent p, due ≤ s.cycle))

/-- A cycle ends once no event is due. -/
def step (cfg : Config) (s : Noc) : Event → Option Noc
  | .req r => if cfg.Mesh r.src ∧ cfg.Mesh r.dest then some (NetworkInterface.req cfg s r).2 else none
  | .fsm p deny => if s.Due p then some (Router.fsmHandler cfg p s deny) else none
  | .grant p => if s.owed p then some (NetworkInterface.grant p s) else none
  | .tick => if ∀ p ∈ cfg.positions, ¬ s.Due p then some { s with cycle := s.cycle + 1 } else none

end Noc

end GvsocPulp.TeranocNoc
