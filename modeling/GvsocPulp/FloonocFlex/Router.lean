import GvsocPulp.FloonocFlex.CollectivePolicy
import GvsocPulp.Lib.Run

/-!
# `Router`: flow control of the flexible NoC router

The input queues of a router, the round-robin of `fsm_handler` with its three ways of removing a request, and the stall
flags of the senders.

- `fsmQueue_other`, `fsmQueue_self`: what handling one input queue does to the queues;
- `fsmHandler_view`: a call of `fsm_handler` handles every input queue once;
- `flow_step_iff`: a call keeps the flow control exactly if it takes no forked or completed collective request from an
  over-full queue;
- `flow_iff`: the same over whole runs; `flow_lost`: a sender stalled for good in front of an empty queue.
-/

namespace GvsocPulp.FloonocFlex

open Lib Function List Option

variable {s s' : Router} {full' : Nat → Bool} {v v' : View}

/-! ## The router -/

/-- What the router reads of a request. -/
structure Req where
  destId : Int
  isWrite : Bool
  collOp : Int
  srcId : Int
  collMask : Nat
  collState : Int
  /-- The input queue it, or the request it is a forked child of, came by, and how many came by it before. -/
  origin : Nat × Nat := (0, 0)
  deriving DecidableEq, Repr

def collOpUnicast : Int := 0

/-- `is_write_reduction_op(op)`: `op == COLL_OP_LSBAND || op >= COLL_OP_FIRST_ARITH_OP`. -/
def isWriteReductionOp (op : Int) : Bool := op = 2 ∨ op ≥ 6

/-- What a router is configured with; `analyze` is the collective policy of the NoC. -/
structure RouterConfig where
  nodeId : Int
  numQueues : Nat
  queueSize : Nat
  localNiId : Int
  routingTable : List Int
  neighborToQueue : List (Int × Nat)
  analyze : Int → Int → Nat → Int → List (Int × Int) × Bool

/-- The state of a router, with the flag of each sender that it is stalled towards this router, and with what came by
each input queue and what left by each output. -/
structure Router where
  inputQueues : Nat → List Req
  /-- `stalled_node` of the queue has been set, to the one sender of the queue. -/
  stalledNode : Nat → Bool
  stalledQueues : Nat → Bool
  collectivePendingQueues : Nat → List Req
  currentQueue : Nat
  senderStalled : Nat → Bool
  arrived : Nat → List Req
  sent : Nat → List Req

def Router.init : Router where
  inputQueues := fun _ => []
  stalledNode := fun _ => false
  stalledQueues := fun _ => false
  collectivePendingQueues := fun _ => []
  currentQueue := 0
  senderStalled := fun _ => false
  arrived := fun _ => []
  sent := fun _ => []

section Model

variable (cfg : RouterConfig)

/-- `get_req_queue(from_node)`; `none` for an unknown node. -/
def RouterConfig.getReqQueue (node : Int) : Option Nat := cfg.neighborToQueue.lookup node

/-- `get_next_router_pos(to_node)`; `none` where it is fatal. -/
def RouterConfig.getNextRouterPos (toNode : Int) : Option Int :=
  if toNode < 0 ∨ toNode ≥ cfg.routingTable.length then none
  else if toNode ≠ cfg.nodeId then cfg.routingTable[toNode.toNat]? else some cfg.nodeId

/-- The output queue of a request; `none` where resolving it is fatal. -/
def RouterConfig.outQueue (toNode : Int) : Option Nat :=
  ((cfg.getNextRouterPos toNode).bind cfg.getReqQueue).filter fun out => out < cfg.numQueues

/-- The fan-out of a collective request; `none` for the requests that only have one destination. -/
def RouterConfig.fanout (req : Req) : Option (List (Int × Int)) :=
  let isWriteJoin := req.isWrite && isWriteReductionOp req.collOp
  if req.collOp ≠ collOpUnicast ∧ !isWriteJoin then
    let (fanout, localMember) := cfg.analyze cfg.nodeId req.srcId req.collMask req.collState
    some (if localMember && cfg.localNiId ≠ -1 then fanout ++ [(cfg.localNiId, 0)] else fanout)
  else none

/-- The request is removed from its queue without being forwarded: completed with no member, or forked. -/
def RouterConfig.Forks (req : Req) : Prop := ∃ dests, cfg.fanout req = some dests ∧ dests.length ≠ 1

/-- `queue->stalled_node->unstall_queue(node_id)`; `none` through a null pointer. -/
def unstallSender (s : Router) (q : Nat) : Option Router :=
  if s.stalledNode q then some { s with senderStalled := update s.senderStalled q false } else none

/-- Forward the head `req` of queue `q` to its next position, unless that output is taken or stalled. -/
def forward (refuses : Nat → Bool) (q : Nat) (req : Req) (rest : List Req) (s : Router) (outputFull : Nat → Bool) :
    Option (Router × (Nat → Bool)) :=
  match cfg.outQueue req.destId with
  | none => none
  | some out =>
    if outputFull out then some (s, outputFull)
    else if s.stalledQueues out then some (s, update outputFull out true)
    else
      let popped := { s with inputQueues := update s.inputQueues q rest }
      match if rest.length = cfg.queueSize then unstallSender popped q else some popped with
      | none => none
      | some s => some
          ({ s with
              sent := update s.sent out (s.sent out ++ [req])
              stalledQueues := if refuses out then update s.stalledQueues out true else s.stalledQueues
              currentQueue := if q + 1 = cfg.numQueues then 0 else q + 1 }, update outputFull out true)

/-- `for (auto &dest : fanout)`: push the forked children to the pending queues. -/
def forkChildren (req : Req) : List (Int × Int) → Router → Option Router
  | [], s => some s
  | (dest, next) :: rest, s =>
    match cfg.getReqQueue dest with
    | none => none
    | some q =>
      let pending := s.collectivePendingQueues q ++ [{ req with destId := dest, collState := next }]
      forkChildren req rest
        { s with collectivePendingQueues := update s.collectivePendingQueues q pending }

/-- The body of the loop of `fsm_handler` for one input queue. -/
def fsmQueue (visible refuses : Nat → Bool) (q : Nat) (s : Router) (outputFull : Nat → Bool) :
    Option (Router × (Nat → Bool)) :=
  match s.inputQueues q with
  | [] => some (s, outputFull)
  | req :: rest =>
    if visible q then
      match cfg.fanout req with
      | none => forward cfg refuses q req rest s outputFull
      | some [] => some ({ s with inputQueues := update s.inputQueues q rest }, outputFull)
      | some [(dest, next)] =>
        let redirected := { req with destId := dest, collState := next }
        forward cfg refuses q redirected rest
          { s with inputQueues := update s.inputQueues q (redirected :: rest) } outputFull
      | some dests =>
        (forkChildren cfg req dests { s with inputQueues := update s.inputQueues q rest }).map (·, outputFull)
    else some (s, outputFull)

/-- The loop of `fsm_handler` over the input queues. -/
def fsmQueues (visible refuses : Nat → Bool) : List Nat → Router → (Nat → Bool) → Option (Router × (Nat → Bool))
  | [], s, outputFull => some (s, outputFull)
  | q :: qs, s, outputFull =>
    (fsmQueue cfg visible refuses q s outputFull).bind fun r => fsmQueues visible refuses qs r.1 r.2

def drainQueue (refuses outputFull : Nat → Bool) (s : Router) (q : Nat) : Router :=
  match s.collectivePendingQueues q with
  | [] => s
  | child :: pending =>
    if outputFull q || s.stalledQueues q then s
    else
      { s with
        collectivePendingQueues := update s.collectivePendingQueues q pending
        sent := update s.sent q (s.sent q ++ [child])
        stalledQueues := if refuses q then update s.stalledQueues q true else s.stalledQueues }

/-- The order of the round-robin: `num_queues` input queues from `current_queue` on. -/
def roundRobin (s : Router) : List Nat := (List.range cfg.numQueues).map fun i => (s.currentQueue + i) % cfg.numQueues

/-- `fsm_handler`: `visible` are the queues whose head has arrived, `refuses` the outputs whose next node reports that
its input queue is full. -/
def fsmHandler (visible refuses : Nat → Bool) (s : Router) : Option Router :=
  (fsmQueues cfg visible refuses (roundRobin cfg s) s fun _ => false).map fun r =>
    (List.range cfg.numQueues).foldl (drainQueue refuses r.2) r.1

/-- `handle_request(node, req, from_node)`, with the sender that records the answer. -/
def handleRequest (q : Nat) (req : Req) (s : Router) : Router :=
  let req := { req with origin := (q, (s.arrived q).length) }
  let queue := s.inputQueues q ++ [req]
  let stalled : Bool := queue.length > cfg.queueSize
  { s with
    arrived := update s.arrived q (s.arrived q ++ [req])
    inputQueues := update s.inputQueues q queue
    stalledNode := if stalled then update s.stalledNode q true else s.stalledNode
    senderStalled := update s.senderStalled q stalled }

/-- What happens to a router. -/
inductive Event
  | request (q : Nat) (req : Req)
  | unstall (q : Nat)
  | fsm (visible refuses : Nat → Bool)

/-- One event; a stalled sender does not send. -/
def step (s : Router) : Event → Option Router
  | .request q req => if q < cfg.numQueues ∧ s.senderStalled q = false then some (handleRequest cfg q req s) else none
  | .unstall q => some { s with stalledQueues := update s.stalledQueues q false }
  | .fsm visible refuses => fsmHandler cfg visible refuses s

end Model

/-! ## One input queue -/

variable {q : Nat} {req : Req} {rest : List Req} {full : Nat → Bool}

section OneQueue

variable {cfg : RouterConfig} {visible refuses : Nat → Bool}

/-- What the flow control of one queue depends on. -/
structure View where
  queue : List Req
  stalledNode : Bool
  senderStalled : Bool

def Router.view (s : Router) (q : Nat) : View := ⟨s.inputQueues q, s.stalledNode q, s.senderStalled q⟩

def View.forwarded (cfg : RouterConfig) (v : View) : View :=
  { v with queue := v.queue.tail, senderStalled := if v.queue.tail.length = cfg.queueSize then false
    else v.senderStalled }

/-- The ways one call of `fsm_handler` changes a queue. -/
inductive QueueStep (cfg : RouterConfig) (visible : Bool) (v : View) : View → Prop
  | keep (h : ∀ req rest, v.queue = req :: rest → visible = true → ¬cfg.Forks req) : QueueStep cfg visible v v
  | redirect {req req' : Req} {rest : List Req} (h : v.queue = req :: rest) (hf : ¬cfg.Forks req) :
      QueueStep cfg visible v { v with queue := req' :: rest }
  | forward {req : Req} {rest : List Req} (h : v.queue = req :: rest) (hf : ¬cfg.Forks req)
      (hn : rest.length = cfg.queueSize → v.stalledNode = true) : QueueStep cfg visible v (v.forwarded cfg)
  | fork {req : Req} {rest : List Req} (h : v.queue = req :: rest) (hv : visible = true) (hf : cfg.Forks req) :
      QueueStep cfg visible v { v with queue := rest }

theorem unstallSender_eq (h : unstallSender s q = some s') :
    s.stalledNode q = true ∧ s' = { s with senderStalled := update s.senderStalled q false } := by
  unfold unstallSender at h
  split at h
  case isTrue hn => cases h; exact ⟨hn, rfl⟩
  case isFalse => cases h

/-- Forwarding keeps the queue, or pops its head and unstalls its sender from an over-full queue. -/
theorem forward_view (h : forward cfg refuses q req rest s full = some (s', full'))
    (hq : (s.view q).queue = req :: rest) :
    (∀ q' ≠ q, s'.view q' = s.view q') ∧
      (s'.view q = s.view q ∨
        (s'.view q = (s.view q).forwarded cfg ∧ (rest.length = cfg.queueSize → (s.view q).stalledNode = true))) := by
  unfold forward at h
  split at h
  case h_1 => cases h
  case h_2 out _ =>
    split at h
    case isTrue => cases h; exact ⟨fun _ _ => rfl, Or.inl rfl⟩
    case isFalse =>
      split at h
      case isTrue => cases h; exact ⟨fun _ _ => rfl, Or.inl rfl⟩
      case isFalse =>
        simp only at h
        split at h
        case h_1 => cases h
        case h_2 s₁ hs₁ =>
          cases h
          by_cases hlen : rest.length = cfg.queueSize
          · rw [if_pos hlen] at hs₁
            obtain ⟨hn, rfl⟩ := unstallSender_eq hs₁
            refine ⟨fun q' hq' => ?_, Or.inr ⟨?_, fun _ => hn⟩⟩
            · simp [Router.view, update_of_ne hq']
            · simp only [Router.view] at hq
              simp [Router.view, View.forwarded, hq, hlen]
          · rw [if_neg hlen] at hs₁
            cases hs₁
            refine ⟨fun q' hq' => ?_, Or.inr ⟨?_, fun h => absurd h hlen⟩⟩
            · simp [Router.view, update_of_ne hq']
            · simp only [Router.view] at hq
              simp [Router.view, View.forwarded, hq, hlen]

theorem forkChildren_view : ∀ {dests : List (Int × Int)} {s s' : Router},
    forkChildren cfg req dests s = some s' → s'.view = s.view
  | [], s, s', h => by cases h; rfl
  | (dest, next) :: rest, s, s', h => by
    rw [forkChildren] at h
    split at h
    case h_1 => cases h
    case h_2 q _ => rw [forkChildren_view h]; rfl

theorem view_pop {q' : Nat} :
    Router.view { s with inputQueues := update s.inputQueues q rest } q' =
      if q' = q then { s.view q with queue := rest } else s.view q' := by
  by_cases h : q' = q
  · subst h; simp [Router.view]
  · simp [Router.view, h]

/-- Handling one queue leaves the others alone and takes one of the steps on its own. -/
theorem fsmQueue_view (h : fsmQueue cfg visible refuses q s full = some (s', full')) :
    (∀ q' ≠ q, s'.view q' = s.view q') ∧ QueueStep cfg (visible q) (s.view q) (s'.view q) := by
  unfold fsmQueue at h
  split at h
  case h_1 hq =>
    cases h
    exact ⟨fun _ _ => rfl, .keep fun req rest hv => by simp [Router.view, hq] at hv⟩
  case h_2 req rest hq =>
    split at h
    case isFalse hvis =>
      cases h
      exact ⟨fun _ _ => rfl, .keep fun _ _ _ hv => absurd hv hvis⟩
    case isTrue hvis =>
      have hqv : (s.view q).queue = req :: rest := hq
      split at h
      case h_1 hf =>
        -- one destination
        have hnf : ¬cfg.Forks req := by rintro ⟨ds, hds, _⟩; rw [hf] at hds; cases hds
        obtain ⟨hother, hself⟩ := forward_view h hqv
        refine ⟨hother, ?_⟩
        rcases hself with hself | ⟨hself, hn⟩
        · rw [hself]
          exact .keep fun req' rest' hv _ => by rw [hqv] at hv; cases hv; exact hnf
        · rw [hself]
          exact .forward hqv hnf hn
      case h_2 hf =>
        -- no member
        cases h
        refine ⟨fun q' hq' => by rw [view_pop, if_neg hq'], ?_⟩
        rw [view_pop, if_pos rfl]
        exact .fork hqv hvis ⟨[], hf, by simp⟩
      case h_3 dest next hf =>
        -- redirected to one destination
        have hnf : ¬cfg.Forks req := by
          rintro ⟨ds, hds, hlen⟩
          rw [hf] at hds
          cases hds
          exact hlen rfl
        obtain ⟨hother, hself⟩ := forward_view h (by rw [view_pop, if_pos rfl])
        refine ⟨fun q' hq' => by rw [hother q' hq', view_pop, if_neg hq'], ?_⟩
        rw [view_pop, if_pos rfl] at hself
        rcases hself with hself | ⟨hself, hn⟩
        · rw [hself]
          exact .redirect hqv hnf
        · have heq : View.forwarded cfg { s.view q with queue :=
            { req with destId := dest, collState := next } :: rest } =
              (s.view q).forwarded cfg := by
            unfold View.forwarded
            rw [hqv]
            rfl
          rw [hself, heq]
          exact .forward hqv hnf hn
      case h_4 dests hne₀ hne₁ hf =>
        -- several destinations
        rw [map_eq_some_iff] at h
        obtain ⟨s₁, hs₁, h⟩ := h
        cases h
        have hview := forkChildren_view hs₁
        refine ⟨fun q' hq' => by rw [hview, view_pop, if_neg hq'], ?_⟩
        rw [hview, view_pop, if_pos rfl]
        refine .fork hqv hvis ⟨dests, hf, fun hlen => ?_⟩
        obtain ⟨⟨d, n⟩, rfl⟩ := length_eq_one_iff.1 hlen
        exact hne₁ d n rfl

end OneQueue

/-! ## A call of `fsm_handler` -/

section Handler

variable {cfg : RouterConfig} {visible refuses : Nat → Bool}

/-- The loop takes one step on each queue of the list and leaves the others alone. -/
theorem fsmQueues_view : ∀ {qs : List Nat} {s s' : Router} {full full' : Nat → Bool}, qs.Nodup →
    fsmQueues cfg visible refuses qs s full = some (s', full') →
    (∀ q, q ∉ qs → s'.view q = s.view q) ∧ ∀ q ∈ qs, QueueStep cfg (visible q) (s.view q) (s'.view q)
  | [], s, s', full, full', _, h => by
    cases h
    exact ⟨fun _ _ => rfl, by simp⟩
  | q :: qs, s, s', full, full', hnd, h => by
    obtain ⟨hq, hnd⟩ := nodup_cons.1 hnd
    rw [fsmQueues, bind_eq_some_iff] at h
    obtain ⟨⟨s₁, full₁⟩, h₁, h⟩ := h
    obtain ⟨hother₁, hself₁⟩ := fsmQueue_view h₁
    obtain ⟨hother, hself⟩ := fsmQueues_view hnd h
    refine ⟨fun q' hq' => ?_, fun q' hq' => ?_⟩
    · rw [mem_cons, not_or] at hq'
      rw [hother q' hq'.2, hother₁ q' hq'.1]
    · rcases mem_cons.1 hq' with rfl | hmem
      · rw [hother q' hq]
        exact hself₁
      · have hne : q' ≠ q := fun h => hq (h ▸ hmem)
        rw [← hother₁ q' hne]
        exact hself q' hmem

theorem drainQueue_view (s : Router) (q : Nat) : (drainQueue refuses full s q).view = s.view := by
  unfold drainQueue
  split
  · rfl
  · split <;> rfl

theorem foldl_drain_view : ∀ (qs : List Nat) (s : Router),
    (qs.foldl (drainQueue refuses full) s).view = s.view
  | [], _ => rfl
  | q :: qs, s => by rw [foldl_cons, foldl_drain_view qs, drainQueue_view]

theorem roundRobin_perm (s : Router) : (roundRobin cfg s).Perm (List.range cfg.numQueues) := by
  have hnd : (roundRobin cfg s).Nodup := by
    refine Nodup.map_on (fun i hi j hj hij => ?_) nodup_range
    have hmod : i ≡ j [MOD cfg.numQueues] := Nat.ModEq.add_left_cancel' s.currentQueue hij
    exact hmod.eq_of_lt_of_lt (mem_range.1 hi) (mem_range.1 hj)
  have hsub : roundRobin cfg s ⊆ List.range cfg.numQueues := by
    intro q hq
    obtain ⟨i, hi, rfl⟩ := List.mem_map.1 hq
    exact mem_range.2 (Nat.mod_lt _ (Nat.zero_lt_of_lt (mem_range.1 hi)))
  exact (hnd.subperm hsub).perm_of_length_le (by simp [roundRobin])

theorem fsmHandler_view (h : fsmHandler cfg visible refuses s = some s') (hq : q < cfg.numQueues) :
    QueueStep cfg (visible q) (s.view q) (s'.view q) := by
  rw [fsmHandler, map_eq_some_iff] at h
  obtain ⟨⟨s₁, full₁⟩, h₁, rfl⟩ := h
  have hperm := @roundRobin_perm cfg s
  obtain ⟨_, hself⟩ := fsmQueues_view (hperm.nodup_iff.2 nodup_range) h₁
  rw [foldl_drain_view]
  exact hself q (hperm.mem_iff.2 (mem_range.2 hq))

end Handler

/-! ## The flow control -/

section Flow

variable (cfg : RouterConfig)

/-- The sender of each queue is stalled iff the queue holds more than `queue_size` requests. -/
def Flow (s : Router) : Prop :=
  ∀ q < cfg.numQueues, (s.senderStalled q = true ↔ cfg.queueSize < (s.inputQueues q).length)

/-- The flow control of one queue, with what keeps it going: one request too many at most, and then a sender to
unstall. -/
structure View.Ok (v : View) : Prop where
  flow : v.senderStalled = true ↔ cfg.queueSize < v.queue.length
  bound : v.queue.length ≤ cfg.queueSize + 1
  node : cfg.queueSize < v.queue.length → v.stalledNode = true

def FlowInv (s : Router) : Prop := ∀ q < cfg.numQueues, (s.view q).Ok cfg

/-- No visible collective request that forks, or completes with no member, heads an over-full queue. -/
def NoOverfullFork (s : Router) : Event → Prop
  | .fsm visible _ => ∀ q < cfg.numQueues, visible q = true → ∀ req rest, s.inputQueues q = req :: rest →
      cfg.Forks req → (s.inputQueues q).length ≤ cfg.queueSize
  | _ => True

variable {cfg}

/-- A step of one queue keeps its flow control unless it takes a forked request from an over-full queue. -/
theorem QueueStep.ok {visible : Bool} (hv : v.Ok cfg) (h : QueueStep cfg visible v v')
    (hno : visible = true → ∀ req rest, v.queue = req :: rest → cfg.Forks req → v.queue.length ≤ cfg.queueSize) :
    v'.Ok cfg := by
  obtain ⟨hflow, hbound, hnode⟩ := hv
  cases h with
  | keep => exact ⟨hflow, hbound, hnode⟩
  | redirect hq =>
    rw [hq] at hflow hbound hnode
    exact ⟨by simpa using hflow, by simpa using hbound, by simpa using hnode⟩
  | @forward req rest hq _ hn =>
    rw [hq] at hflow hbound hnode
    simp only [length_cons] at hflow hbound hnode
    have htail : (v.forwarded cfg).queue = rest := by simp [View.forwarded, hq]
    refine ⟨?_, by rw [htail]; omega, by rw [htail]; intro h; omega⟩
    rw [htail]
    by_cases hlen : rest.length = cfg.queueSize
    · have hs : (v.forwarded cfg).senderStalled = false := by simp [View.forwarded, hq, hlen]
      rw [hs]
      simp [hlen]
    · have hs : (v.forwarded cfg).senderStalled = v.senderStalled := by simp [View.forwarded, hq, hlen]
      rw [hs, hflow]
      omega
  | @fork req rest hq hvis hf =>
    have hle := hno hvis req rest hq hf
    rw [hq] at hflow hle
    simp only [length_cons] at hflow hle
    refine ⟨?_, by simp only; omega, by simp only; intro h; omega⟩
    simp only
    rw [hflow]
    omega

/-- Taking a forked request from an over-full queue loses the unstall. -/
theorem QueueStep.not_flow {visible : Bool} (hv : v.Ok cfg) (h : QueueStep cfg visible v v')
    (hq : v.queue = req :: rest) (hvis : visible = true) (hf : cfg.Forks req) (hover : cfg.queueSize < v.queue.length) :
      v'.senderStalled = true ∧ ¬cfg.queueSize < v'.queue.length := by
  obtain ⟨hflow, hbound, _⟩ := hv
  cases h with
  | keep hk => exact absurd hf (hk req rest hq hvis)
  | redirect hq' hnf =>
    rw [hq] at hq'
    cases hq'
    exact absurd hf hnf
  | forward hq' hnf =>
    rw [hq] at hq'
    cases hq'
    exact absurd hf hnf
  | fork hq' =>
    rw [hq] at hq'
    cases hq'
    rw [hq] at hbound
    simp only [length_cons] at hbound
    exact ⟨hflow.2 hover, by simp only; omega⟩

theorem handleRequest_inv (hs : FlowInv cfg s) (hq : q < cfg.numQueues) (hfree : s.senderStalled q = false) :
    FlowInv cfg (handleRequest cfg q req s) := by
  intro q' hq'
  by_cases hqq : q' = q
  · subst hqq
    obtain ⟨hflow, hbound, _⟩ := hs q' hq'
    simp only [Router.view] at hflow hbound
    rw [hfree] at hflow
    have hroom : ¬cfg.queueSize < (s.inputQueues q').length := by simpa using hflow
    refine ⟨?_, ?_, ?_⟩
    · simp [Router.view, handleRequest]
    · simp only [Router.view, handleRequest, update_self, length_append, length_cons,
        length_nil]
      omega
    · intro hover
      simp only [Router.view, handleRequest, update_self] at hover ⊢
      rw [if_pos (by simpa using hover), update_self]
  · have hview : (handleRequest cfg q req s).view q' = s.view q' := by
      simp only [Router.view, handleRequest, update_of_ne hqq]
      split
      · rw [update_of_ne hqq]
      · rfl
    rw [hview]
    exact hs q' hq'

/-- One event keeps the flow control iff it forks no request out of an overfull queue. -/
theorem flow_step_iff {e : Event} (hs : FlowInv cfg s) (h : step cfg s e = some s') :
    (Flow cfg s' ↔ NoOverfullFork cfg s e) ∧ (Flow cfg s' → FlowInv cfg s') := by
  have hall : NoOverfullFork cfg s e → FlowInv cfg s' := by
    intro hno
    cases e with
    | request q req =>
      simp only [step] at h
      split at h
      case isTrue hq => cases h; exact handleRequest_inv hs hq.1 hq.2
      case isFalse => cases h
    | unstall q => cases h; exact hs
    | fsm visible refuses =>
      intro q hq
      exact (fsmHandler_view h hq).ok (hs q hq) fun hvis req rest hr hf => hno q hq hvis req rest hr hf
  have hback : Flow cfg s' → NoOverfullFork cfg s e := by
    intro hflow
    cases e with
    | request q req => trivial
    | unstall q => trivial
    | fsm visible refuses =>
      intro q hq hvis req rest hr hf
      by_contra hover
      have hlost := (fsmHandler_view h hq).not_flow (hs q hq) hr hvis hf (Nat.lt_of_not_le hover)
      exact hlost.2 ((hflow q hq).1 hlost.1)
  exact ⟨⟨hback, fun hno q hq => (hall hno q hq).flow⟩, fun hflow => hall (hback hflow)⟩

theorem flowInv_init : FlowInv cfg Router.init := by
  intro q _
  exact ⟨by simp [Router.view, Router.init], by simp [Router.view, Router.init], by simp [Router.view, Router.init]⟩

/-- Over every run, the flow control holds in all states iff no call of `fsm_handler` takes a forked request, or one
that completes with no member, from a queue that holds more than `queue_size` requests. -/
theorem flow_iff (cfg : RouterConfig) (events : List Event) :
    AllStates (step cfg) (Flow cfg) Router.init events ↔
      AllSteps (step cfg) (NoOverfullFork cfg) Router.init events :=
  allStates_iff (fun _ hs q hq => (hs q hq).flow) (fun _ _ _ hs h => (flow_step_iff hs h).1)
    (fun _ _ _ hs h => (flow_step_iff hs h).2) flowInv_init

end Flow

/-! ## A lost unstall -/

/-- Router 13 of the 3x2 mesh, with its NI on queue 0 and its two neighbours on queues 1 and 2. -/
def cornerRouter : RouterConfig where
  nodeId := 13
  numQueues := 3
  queueSize := 1
  localNiId := 0
  routingTable := [0, 0, 0, 0, 0, 0, 0, 0, 0, 0, 10, 0, 0, 0, 14]
  neighborToQueue := [(0, 0), (14, 1), (10, 2)]
  analyze := (Mesh.threeByTwo true).analyze

/-- A multicast write that the NI of router 13 injects. -/
def multicast : Req where
  destId := 0
  isWrite := true
  collOp := 1
  srcId := 13
  collMask := 0x10002
  collState := 0

/-- The NI fills the queue with two multicasts and is stalled; both are forked and the queue is empty, but nobody
unstalls the NI: it will never send again. -/
theorem flow_lost :
    let events := [.request 0 multicast, .request 0 multicast, .fsm (fun _ => true) (fun _ => false),
      .fsm (fun _ => true) (fun _ => false)]
    ∃ s, run (step cornerRouter) Router.init events = some s ∧ s.senderStalled 0 = true ∧ s.inputQueues 0 = [] ∧
      ¬AllStates (step cornerRouter) (Flow cornerRouter) Router.init events := by
  intro events
  have hrun : ((run (step cornerRouter) Router.init events).map fun s => (s.senderStalled 0, s.inputQueues 0)) =
      some (true, []) := by decide +kernel
  obtain ⟨s, hs, hview⟩ := map_eq_some_iff.1 hrun
  simp only [Prod.mk.injEq] at hview
  refine ⟨s, hs, hview.1, hview.2, fun hall => ?_⟩
  have hflow := (hall.final hs 0 (by decide)).1 hview.1
  rw [hview.2] at hflow
  exact absurd hflow (by decide)

end GvsocPulp.FloonocFlex
