import GvsocPulp.TeranocNoc.Hops
import GvsocPulp.TeranocNoc.Noc

/-!
# What the handlers of the routers do

A handler visits the queues of its router. Each visit is a step of the network or leaves it as it is (`InputVisit`,
`OutputVisit`), and keeps the events that are needed for what can move (`Keeps`). A handler that moves nothing leaves
only heads that are not free (`fsmHandler_moves`).
-/

namespace GvsocPulp.TeranocNoc

open Function List Entry Router NetworkInterface

namespace Noc

variable {cfg : Config} {s s' s'' : Noc} {p prev : Pos} {d : Dir} {q q' : Queue} {r : Req} {e : Entry}
  {rest : List Entry}

/-- Whether the router or the network interface that sends to an input queue is stalled. -/
def senderStalled (s : Noc) (p : Pos) (d : Dir) : Bool :=
  let prev := getPosFromQueue p d
  if prev = p then s.routerStalled p else s.stalledQueues prev (getReqQueue prev p)

def net (s : Noc) : Net where
  queues q := (s.queues q).map Entry.req
  sender := s.senderStalled
  exit p := s.stalledQueues p .local
  owed := s.owed
  accepted := s.accepted
  received := s.received
  early := s.early
  overfull := s.overfull

/-! ## The flags -/

theorem senderStalled_local (s : Noc) (p : Pos) : s.senderStalled p .local = s.routerStalled p := if_pos rfl

theorem senderStalled_of_ne (hd : d ≠ .local) :
    s.senderStalled p d = s.stalledQueues (getPosFromQueue p d) d.opposite := by
  rw [senderStalled, if_neg fun h => hd (getPosFromQueue_eq_self.1 h), getReqQueue_back]

/-- The flag of a router for an output queue is the one of the input queue it leads to. -/
theorem senderStalled_next (hd : d ≠ .local) :
    s.senderStalled (getPosFromQueue p d) d.opposite = s.stalledQueues p d := by
  rw [senderStalled_of_ne fun h => hd (opposite_eq_local.1 h), getPosFromQueue_opposite, opposite_opposite]

theorem senderStalled_setFlag (hd : d ≠ .local) (b : Bool) :
    senderStalled { s with stalledQueues := setFlag s.stalledQueues (getPosFromQueue p d) d.opposite b } =
      setFlag s.senderStalled p d b := by
  funext p' d'
  by_cases hd' : d' = .local
  · rw [hd', senderStalled_local, setFlag_of_ne fun h => hd h.2.symm, senderStalled_local]
  · rw [senderStalled_of_ne hd']
    by_cases heq : p' = p ∧ d' = d
    · obtain ⟨rfl, rfl⟩ := heq
      rw [setFlag_self (f := s.senderStalled)]
      exact setFlag_self ..
    · rw [setFlag_of_ne heq, senderStalled_of_ne hd']
      refine setFlag_of_ne fun h => heq ?_
      obtain ⟨hpos, hopp⟩ := h
      have hdir : d' = d := by rw [← opposite_opposite d', hopp, opposite_opposite]
      subst hdir
      refine ⟨?_, rfl⟩
      rw [← getPosFromQueue_opposite p' d', hpos, getPosFromQueue_opposite]

theorem senderStalled_routerStalled (b : Bool) :
    senderStalled { s with routerStalled := update s.routerStalled p b } = setFlag s.senderStalled p .local b := by
  funext p' d'
  by_cases hd : d' = .local
  · subst hd
    rw [senderStalled_local]
    by_cases hp : p' = p
    · subst hp
      rw [setFlag_self]
      exact update_self ..
    · rw [setFlag_of_ne fun h => hp h.1, senderStalled_local]
      exact update_of_ne hp ..
  · rw [setFlag_of_ne fun h => hd h.2, senderStalled_of_ne hd, senderStalled_of_ne hd]

theorem senderStalled_exit (b : Bool) :
    senderStalled { s with stalledQueues := setFlag s.stalledQueues p .local b } = s.senderStalled := by
  funext p' d'
  by_cases hd : d' = .local
  · rw [hd, senderStalled_local, senderStalled_local]
  · rw [senderStalled_of_ne hd, senderStalled_of_ne hd]
    exact setFlag_of_ne fun h => hd (opposite_eq_local.1 h.2)

theorem exit_setFlag (f : Pos → Dir → Bool) (p : Pos) (b : Bool) :
    (fun p' => setFlag f p .local b p' .local) = update (fun p' => f p' .local) p b := by
  funext p'
  by_cases hp : p' = p
  · subst hp
    rw [setFlag_self, update_self]
  · rw [setFlag_of_ne fun h => hp h.1, update_of_ne hp]

theorem exit_of_ne {f : Pos → Dir → Bool} {b : Bool} (hd : d ≠ .local) :
    (fun p' => setFlag f p d b p' .local) = fun p' => f p' .local :=
  funext fun _ => setFlag_of_ne fun h => hd h.2.symm

/-! ## The operations on the network -/

theorem map_update (f : Queue → List Entry) (q : Queue) (es : List Entry) :
    (fun q' => (update f q es q').map Entry.req) =
      update (fun q' => (f q').map Entry.req) q (es.map Entry.req) := by
  funext q'
  by_cases hq : q' = q
  · subst hq
    rw [update_self, update_self]
  · rw [update_of_ne hq, update_of_ne hq]

theorem net_pop (s : Noc) (q : Queue) (rest : List Entry) :
    (s.pop q rest).net = { s.net with queues := update s.net.queues q (rest.map req) } := by
  show Net.mk (fun q' => (update s.queues q rest q').map Entry.req) _ _ _ _ _ _ _ = _
  rw [map_update]
  rfl

theorem net_pushBack (cfg : Config) (s : Noc) (q : Queue) (r : Req) : (s.pushBack cfg q r).net =
    { s.net with
      queues := update s.net.queues q (s.net.queues q ++ [r])
      overfull := s.net.noteFull cfg q } := by
  show Net.mk (fun q' => (update s.queues q _ q').map Entry.req) _ _ _ _ _ _ _ = _
  rw [map_update, map_append]
  show _ = Net.mk _ _ _ _ _ _ _ (if cfg.bound q < ((s.queues q).map Entry.req).length + 1 then s.overfull ++ [q]
    else s.overfull)
  rw [length_map]
  rfl

theorem pushBack_queues : (s.pushBack cfg q r).queues q = s.queues q ++ [⟨r, s.cycle + 1⟩] := update_self ..

theorem pop_queues_of_ne (hq : q' ≠ q) : (s.pop q rest).queues q' = s.queues q' := update_of_ne hq ..

theorem net_move (hne : q ≠ q') : ((s.pop q rest).pushBack cfg q' r).net = s.net.move cfg q q' r (rest.map req) := by
  rw [net_pushBack, net_pop]
  simp only [Net.move, Net.noteFull, update_of_ne hne.symm]

theorem net_unstallPrevious (p : Pos) (d : Dir) (s : Noc) :
    (unstallPrevious p d s).net = { s.net with sender := setFlag s.net.sender p d false } := by
  rw [unstallPrevious]
  by_cases hd : d = .local
  · subst hd
    rw [if_pos (by rfl)]
    show Net.mk _ (senderStalled { s with routerStalled := update s.routerStalled p false }) _ _ _ _ _ _ = _
    rw [senderStalled_routerStalled]
    rfl
  · rw [if_neg fun h => hd (getPosFromQueue_eq_self.1 h)]
    show Net.mk _ (senderStalled { s with stalledQueues := setFlag s.stalledQueues _ (getReqQueue _ _) false })
      (fun p' => setFlag s.stalledQueues _ _ false p' .local) _ _ _ _ _ = _
    rw [getReqQueue_back, senderStalled_setFlag hd, exit_of_ne fun h => hd (opposite_eq_local.1 h)]
    rfl

/-! ## The events -/

/-- Where the head of this queue can be moved, the event of its router is enqueued. -/
def Scheduled (s : Noc) : Queue → Prop
  | .input p d => s.queues (.input p d) ≠ [] → s.fsmEvent p ≠ none
  | .output p d => s.queues (.output p d) ≠ [] → s.stalledQueues p d = false → s.fsmEvent p ≠ none

/-- Nothing is enqueued for later than the next cycle. -/
structure Timely (cfg : Config) (s : Noc) : Prop where
  event : ∀ p, cfg.Mesh p → ∀ due ∈ s.fsmEvent p, s.cycle ≤ due ∧ due ≤ s.cycle + 1
  ready : ∀ q, ∀ e ∈ s.queues q, e.ready ≤ s.cycle + 1

/-- What every operation of a handler keeps. -/
structure Keeps (cfg : Config) (s s' : Noc) : Prop where
  cycle : s'.cycle = s.cycle
  sched : ∀ q, s.Scheduled q → s'.Scheduled q
  timely : s.Timely cfg → s'.Timely cfg
  due : ∀ p, s.Due p → s'.Due p

theorem Keeps.refl (cfg : Config) (s : Noc) : Keeps cfg s s := ⟨rfl, fun _ h => h, fun h => h, fun _ h => h⟩

theorem Keeps.trans (h : Keeps cfg s s') (h' : Keeps cfg s' s'') : Keeps cfg s s'' :=
  ⟨h'.cycle.trans h.cycle, fun q hq => h'.sched q (h.sched q hq), fun ht => h'.timely (h.timely ht),
    fun p hp => h'.due p (h.due p hp)⟩

theorem enqueueFsm_ne_none {p' : Pos} (h : s.fsmEvent p' ≠ none) : (s.enqueueFsm p).fsmEvent p' ≠ none := by
  show update s.fsmEvent p _ p' ≠ none
  by_cases hp : p' = p
  · subst hp
    rw [update_self]
    exact Lib.enqueue_ne_none
  · rwa [update_of_ne hp]

@[simp] theorem enqueueFsm_self (s : Noc) (p : Pos) : (s.enqueueFsm p).fsmEvent p ≠ none := by
  show update s.fsmEvent p _ p ≠ none
  rw [update_self]
  exact Lib.enqueue_ne_none

theorem scheduled_enqueueFsm (hq : q.pos = p) : (s.enqueueFsm p).Scheduled q := by
  subst hq
  cases q with
  | input p d => exact fun _ => enqueueFsm_self s p
  | output p d => exact fun _ _ => enqueueFsm_self s p

theorem due_enqueueFsm {p' : Pos} (h : s.Due p') : (s.enqueueFsm p).Due p' := by
  obtain ⟨due, hdue, hle⟩ := h
  by_cases hp : p' = p
  · subst hp
    refine ⟨min due (s.cycle + 1), ?_, (min_le_left ..).trans hle⟩
    show update s.fsmEvent p' (Lib.enqueue s.cycle 1 (s.fsmEvent p')) p' = _
    rw [update_self, Option.mem_def.1 hdue]
    rfl
  · exact ⟨due, (update_of_ne hp ..).trans hdue, hle⟩

theorem keeps_enqueueFsm (cfg : Config) (s : Noc) (p : Pos) : Keeps cfg s (s.enqueueFsm p) := by
  refine ⟨rfl, fun q hq => ?_, fun ht => ⟨fun p' hmesh due hdue => ?_, ht.ready⟩, fun p' hp => due_enqueueFsm hp⟩
  · cases q with
    | input p' d => exact fun hne => enqueueFsm_ne_none (hq hne)
    | output p' d => exact fun hne hgo => enqueueFsm_ne_none (hq hne hgo)
  · replace hdue : due ∈ update s.fsmEvent p (Lib.enqueue s.cycle 1 (s.fsmEvent p)) p' := hdue
    by_cases hp : p' = p
    · subst hp
      rw [update_self] at hdue
      rcases Lib.enqueue_eq_some hdue with rfl | hold
      · exact ⟨Nat.le_succ _, le_rfl⟩
      · exact ht.event p' hmesh due hold
    · rw [update_of_ne hp] at hdue
      exact ht.event p' hmesh due hdue

theorem keeps_pop (cfg : Config) (h : s.queues q = e :: rest) : Keeps cfg s (s.pop q rest) := by
  have hmem : ∀ q', ∀ e' ∈ (s.pop q rest).queues q', e' ∈ s.queues q' := fun q' e' he => by
    replace he : e' ∈ update s.queues q rest q' := he
    by_cases hq : q' = q
    · subst hq
      rw [update_self] at he
      exact h ▸ mem_cons_of_mem _ he
    · rwa [update_of_ne hq] at he
  have hne : ∀ q', (s.pop q rest).queues q' ≠ [] → s.queues q' ≠ [] := fun q' hne => by
    obtain ⟨e', he⟩ := exists_mem_of_ne_nil _ hne
    exact ne_nil_of_mem (hmem q' e' he)
  refine ⟨rfl, fun q' hq => ?_, fun ht => ⟨ht.event, fun q' e' he => ht.ready q' e' (hmem q' e' he)⟩,
    fun _ h => h⟩
  cases q' with
  | input p d => exact fun h => hq (hne _ h)
  | output p d => exact fun h hgo => hq (hne _ h) hgo

theorem keeps_pushBack (cfg : Config) (s : Noc) (q : Queue) (r : Req) : Keeps cfg s (s.pushBack cfg q r) := by
  have hother : ∀ q', q' ≠ q → (s.pushBack cfg q r).queues q' = s.queues q' := fun q' hq => update_of_ne hq ..
  refine ⟨rfl, fun q' hq => ?_, fun ht => ⟨((keeps_enqueueFsm cfg s q.pos).timely ht).event, fun q' e he => ?_⟩,
    fun p hp => due_enqueueFsm hp⟩
  · by_cases heq : q' = q
    · exact scheduled_enqueueFsm (congrArg Queue.pos heq)
    · cases q' with
      | input p' d => exact fun hne => enqueueFsm_ne_none (hq (hother _ heq ▸ hne))
      | output p' d => exact fun hne hgo => enqueueFsm_ne_none (hq (hother _ heq ▸ hne) hgo)
  · by_cases heq : q' = q
    · subst heq
      replace he : e ∈ update s.queues q' (s.queues q' ++ [⟨r, s.cycle + 1⟩]) q' := he
      rw [update_self, mem_append, mem_singleton] at he
      rcases he with he | rfl
      · exact ht.ready _ _ he
      · exact le_rfl
    · rw [hother _ heq] at he
      exact ht.ready _ _ he

theorem keeps_stall (cfg : Config) (s : Noc) (p : Pos) (d : Dir) :
    Keeps cfg s { s with stalledQueues := setFlag s.stalledQueues p d true } := by
  refine ⟨rfl, fun q hq => ?_, fun ht => ⟨ht.event, ht.ready⟩, fun _ h => h⟩
  cases q with
  | input p' d' => exact hq
  | output p' d' =>
    intro hne hgo
    replace hgo : setFlag s.stalledQueues p d true p' d' = false := hgo
    by_cases heq : p' = p ∧ d' = d
    · obtain ⟨rfl, rfl⟩ := heq
      rw [setFlag_self] at hgo
      cases hgo
    · rw [setFlag_of_ne heq] at hgo
      exact hq hne hgo

theorem keeps_currentQueue (cfg : Config) (s : Noc) (current : Pos → Dir) :
    Keeps cfg s { s with currentQueue := current } :=
  ⟨rfl, fun q hq => by cases q <;> exact hq, fun ht => ⟨ht.event, ht.ready⟩, fun _ h => h⟩

theorem keeps_unstallQueue (cfg : Config) (s : Noc) (p prev : Pos) : Keeps cfg s (unstallQueue p prev s) := by
  refine ⟨rfl, fun q hq => ?_, fun ht => ⟨((keeps_enqueueFsm cfg s p).timely ht).event, ht.ready⟩,
    fun p hp => due_enqueueFsm hp⟩
  cases q with
  | input p' d' => exact fun hne => enqueueFsm_ne_none (hq hne)
  | output p' d' =>
    intro hne hgo
    replace hgo : setFlag s.stalledQueues p (getReqQueue p prev) false p' d' = false := hgo
    by_cases heq : p' = p ∧ d' = getReqQueue p prev
    · rw [heq.1]
      exact enqueueFsm_self s p
    · rw [setFlag_of_ne heq] at hgo
      exact enqueueFsm_ne_none (hq hne hgo)

theorem keeps_unstallPrevious (cfg : Config) (s : Noc) (p : Pos) (d : Dir) : Keeps cfg s (unstallPrevious p d s) := by
  rw [unstallPrevious]
  split_ifs
  · exact ⟨rfl, fun q hq => by cases q <;> exact hq, fun ht => ⟨ht.event, ht.ready⟩, fun _ h => h⟩
  · exact keeps_unstallQueue ..

/-! ## One input queue -/

def advanceHead (cfg : Config) (s : Noc) (p : Pos) (d : Dir) (e : Entry) (rest : List Entry) : Noc :=
  let s := (s.pop (.input p d) rest).pushBack cfg (.output p (route p e.req.dest)) e.req
  let s := if rest.length = cfg.queueSize then Router.unstallPrevious p d s else s
  enqueueFsm { s with currentQueue := update s.currentQueue p d.succ } p

/-- The output queues that are taken hold as much as they can, as long as nothing has moved. -/
def Taken (cfg : Config) (p : Pos) (s : Noc) (outputFull : Dir → Bool) : Prop :=
  ∀ out, outputFull out = true → cfg.queueSize ≤ (s.queues (.output p out)).length

/-- If the head of the input queue shows, its output queue is full. -/
def InputStuck (cfg : Config) (p : Pos) (s : Noc) (d : Dir) : Prop :=
  ∀ e rest, s.queues (.input p d) = e :: rest → e.ready ≤ s.cycle →
    cfg.queueSize ≤ (s.queues (.output p (route p e.req.dest))).length

inductive InputVisit (cfg : Config) (p : Pos) (d : Dir) (s : Noc) (outputFull : Dir → Bool) : Noc × (Dir → Bool) → Prop
  | skip (h : s.queues (.input p d) = []) : InputVisit cfg p d s outputFull (s, outputFull)
  | wait {outputFull' : Dir → Bool} (h : Taken cfg p s outputFull → Taken cfg p s outputFull' ∧ InputStuck cfg p s d) :
      InputVisit cfg p d s outputFull (s.enqueueFsm p, outputFull')
  | move {e : Entry} {rest : List Entry} {outputFull' : Dir → Bool} (h : s.queues (.input p d) = e :: rest)
      (hroom : (s.queues (.output p (route p e.req.dest))).length < cfg.queueSize) :
      InputVisit cfg p d s outputFull (s.advanceHead cfg p d e rest, outputFull')

theorem visitInput_cases (cfg : Config) (p : Pos) (d : Dir) (s : Noc) (outputFull : Dir → Bool) :
    InputVisit cfg p d s outputFull (visitInput cfg p (s, outputFull) d) := by
  unfold visitInput
  simp only
  split
  case h_1 h => exact .skip h
  case h_2 e rest h =>
    have hstuck : (e.ready ≤ s.cycle → cfg.queueSize ≤ (s.queues (.output p (route p e.req.dest))).length) →
        InputStuck cfg p s d := fun hfull e' rest' heq hready => by
      obtain ⟨rfl, rfl⟩ := List.cons.inj (h.symm.trans heq)
      exact hfull hready
    by_cases hlate : s.cycle < e.ready
    · rw [if_pos hlate]
      exact .wait fun ht => ⟨ht, hstuck fun hready => absurd hready hlate.not_ge⟩
    · rw [if_neg hlate]
      by_cases htaken : outputFull (route p e.req.dest) = true
      · rw [if_pos htaken]
        exact .wait fun ht => ⟨ht, hstuck fun _ => ht _ htaken⟩
      · rw [if_neg htaken]
        by_cases hfull : cfg.queueSize ≤ (s.queues (.output p (route p e.req.dest))).length
        · rw [if_pos hfull]
          refine .wait fun ht => ⟨fun out hout => ?_, hstuck fun _ => hfull⟩
          by_cases heq : out = route p e.req.dest
          · exact heq ▸ hfull
          · exact ht out (by rwa [update_of_ne heq] at hout)
        · rw [if_neg hfull]
          exact .move h (not_le.1 hfull)

theorem net_advanceHead (cfg : Config) (s : Noc) (p : Pos) (d : Dir) (e : Entry) (rest : List Entry) :
    (s.advanceHead cfg p d e rest).net = s.net.advance cfg p d e.req (rest.map req) := by
  have hne : Queue.input p d ≠ .output p (route p e.req.dest) := nofun
  show net (if rest.length = cfg.queueSize then unstallPrevious p d _ else _) = _
  rw [Net.advance, length_map, ← net_move hne]
  split_ifs
  · rw [net_unstallPrevious, net_move hne]
    rfl
  · rfl

theorem keeps_advanceHead (h : s.queues (.input p d) = e :: rest) : Keeps cfg s (s.advanceHead cfg p d e rest) := by
  have hpush := (keeps_pop cfg h).trans (keeps_pushBack cfg _ (.output p (route p e.req.dest)) e.req)
  have hset : ∀ s₁ : Noc, Keeps cfg s s₁ →
      Keeps cfg s (enqueueFsm { s₁ with currentQueue := update s₁.currentQueue p d.succ } p) := fun s₁ h₁ =>
    (h₁.trans (keeps_currentQueue ..)).trans (keeps_enqueueFsm ..)
  refine hset _ ?_
  split_ifs
  · exact hpush.trans (keeps_unstallPrevious ..)
  · exact hpush

/-! ## One output queue -/

/-- The head of an output queue goes to the next router, or to the target. -/
def sendHead (cfg : Config) (s : Noc) (p : Pos) (d : Dir) (e : Entry) (rest : List Entry) (deny : Bool) : Noc :=
  let next := getPosFromQueue p d
  let s := s.pop (.output p d) rest
  if next = p then NetworkInterface.reqFromRouter p s e.req deny
  else
    let (stalled, s) := Router.handleRequest cfg next s e.req p
    if stalled then { s with stalledQueues := setFlag s.stalledQueues p d true } else s

inductive OutputVisit (cfg : Config) (p : Pos) (deny : Bool) (d : Dir) (s : Noc) : Noc → Prop
  | skip (h : s.queues (.output p d) = [] ∨ s.stalledQueues p d = true) : OutputVisit cfg p deny d s s
  | wait {e : Entry} {rest : List Entry} (h : s.queues (.output p d) = e :: rest) (hlate : s.cycle < e.ready) :
      OutputVisit cfg p deny d s (s.enqueueFsm p)
  | move {e : Entry} {rest : List Entry} (h : s.queues (.output p d) = e :: rest) (hgo : s.stalledQueues p d = false) :
      OutputVisit cfg p deny d s
        (if rest = [] then s.sendHead cfg p d e rest deny else (s.sendHead cfg p d e rest deny).enqueueFsm p)

theorem visitOutput_cases (cfg : Config) (p : Pos) (deny : Bool) (d : Dir) (s : Noc) :
    OutputVisit cfg p deny d s (visitOutput cfg p deny s d) := by
  unfold visitOutput
  split
  case h_1 h => exact .skip (.inl h)
  case h_2 e rest h =>
    by_cases hlate : s.cycle < e.ready
    · rw [if_pos hlate]
      exact .wait h hlate
    · rw [if_neg hlate]
      by_cases hstall : s.stalledQueues p d = true
      · rw [if_pos hstall]
        exact .skip (.inr hstall)
      · rw [if_neg hstall]
        exact .move h (Bool.eq_false_iff.2 hstall)

theorem net_reqFromRouter (p : Pos) (s : Noc) (r : Req) (deny : Bool) : (reqFromRouter p s r deny).net =
    { s.net with
      received := update s.net.received p (s.net.received p ++ [r])
      early := if s.net.owed p then s.net.early ++ [r] else s.net.early
      owed := if deny then update s.net.owed p true else s.net.owed
      exit := if deny then update s.net.exit p true else s.net.exit } := by
  rw [reqFromRouter]
  cases deny with
  | false => rfl
  | true =>
    show Net.mk _ (senderStalled { s with stalledQueues := setFlag s.stalledQueues p (getReqQueue p p) true })
      (fun p' => setFlag s.stalledQueues p (getReqQueue p p) true p' .local) _ _ _ _ _ = _
    rw [getReqQueue_self, senderStalled_exit, exit_setFlag]
    rfl

theorem net_sendHead_local (cfg : Config) (s : Noc) (p : Pos) (e : Entry) (rest : List Entry) (deny : Bool) :
    (s.sendHead cfg p .local e rest deny).net = s.net.deliver p e.req (rest.map req) deny := by
  rw [sendHead, if_pos (by rfl), net_reqFromRouter, net_pop]
  rfl

theorem net_sendHead (cfg : Config) (s : Noc) (p : Pos) (e : Entry) (rest : List Entry) (deny : Bool)
    (hd : d ≠ .local) :
    (s.sendHead cfg p d e rest deny).net = s.net.forward cfg p d e.req (rest.map req) := by
  have hne : Queue.output p d ≠ .input (getPosFromQueue p d) d.opposite := nofun
  have hlen : (((s.pop (.output p d) rest).pushBack cfg (.input (getPosFromQueue p d) d.opposite) e.req).queues
      (.input (getPosFromQueue p d) d.opposite)).length =
        (s.net.queues (.input (getPosFromQueue p d) d.opposite)).length + 1 := by
    rw [pushBack_queues, length_append, length_singleton, pop_queues_of_ne hne.symm, net, length_map]
  have hnext := getPosFromQueue_opposite p d
  have hopp : d.opposite ≠ .local := fun h => hd (opposite_eq_local.1 h)
  rw [sendHead, if_neg fun h => hd (getPosFromQueue_eq_self.1 h), handleRequest, getReqQueue_back]
  simp only [decide_eq_true_iff, hlen]
  rw [Net.forward, ← net_move hne]
  split_ifs
  · show Net.mk _ (senderStalled { s with stalledQueues := setFlag s.stalledQueues p d true })
      (fun p' => setFlag s.stalledQueues p d true p' .local) _ _ _ _ _ = _
    have hflag := senderStalled_setFlag (s := s) (p := getPosFromQueue p d) hopp true
    rw [hnext, opposite_opposite] at hflag
    rw [hflag, exit_of_ne hd]
    rfl
  · rfl

theorem keeps_reqFromRouter (cfg : Config) (p : Pos) (s : Noc) (r : Req) (deny : Bool) :
    Keeps cfg s (reqFromRouter p s r deny) := by
  rw [reqFromRouter]
  cases deny with
  | false => exact ⟨rfl, fun q hq => by cases q <;> exact hq, fun ht => ⟨ht.event, ht.ready⟩, fun _ h => h⟩
  | true =>
    have hstall := keeps_stall cfg s p (getReqQueue p p)
    exact ⟨rfl, fun q hq => by have hkeep := hstall.sched q hq; cases q <;> exact hkeep, fun ht => ⟨ht.event, ht.ready⟩,
      fun _ h => h⟩

theorem keeps_sendHead (h : s.queues (.output p d) = e :: rest) {deny : Bool} :
    Keeps cfg s (s.sendHead cfg p d e rest deny) := by
  refine (keeps_pop cfg h).trans ?_
  rw [sendHead]
  split_ifs
  · exact keeps_reqFromRouter ..
  · refine (keeps_pushBack cfg _ (.input (getPosFromQueue p d) (getReqQueue (getPosFromQueue p d) p)) e.req).trans ?_
    rw [handleRequest]
    simp only [decide_eq_true_iff]
    split_ifs
    · exact keeps_stall ..
    · exact Keeps.refl ..

end Noc

end GvsocPulp.TeranocNoc
