import GvsocPulp.FractalSync.Node

/-!
# `FractalSync`: the requests of a node

Whether the requests that a node queues are all handled, and in their order.

- `handleReq_spec`, `fsmHandler_spec`: what the node does to its queue and its event;
- `nodeStep_iff`: an event keeps the queue served exactly if `KeepsUp` holds of it;
- `requests_iff`: the same over whole runs, and the FSM alone then empties the queue; `request_stuck`: a request that
  waits for good.
-/

namespace GvsocPulp.FractalSync

open Lib Function List Node FsmState

/-- A request that starts the FSM: for the level of the node. -/
def PortReq.isForLevel (cfg : NodeConfig) (req : PortReq) : Bool := req.sync && req.aggr &&& cfg.mask != 0

/-- The requests of a port that have been handled, and those that are queued, by their number. -/
def Node.handledOn (s : Node) (dir : Dir) : List Nat := (s.handled.filter (·.1 = dir)).map (·.2)

def Node.queuedOn (s : Node) (dir : Dir) : List Nat := (s.reqQueue.filter (·.portId = dir)).map (·.seq)

/-- While a request is queued, the event of the FSM is pending; the requests of a port are handled in the order in which
they came, the queued ones last. -/
structure Served (s : Node) : Prop where
  scheduled : s.reqQueue ≠ [] → s.fsmEvent = true
  inOrder : ∀ dir, s.handledOn dir ++ s.queuedOn dir = List.range (s.arrived dir)

/-- No request comes in `IDLE` while one of its port is queued; and a queued request that is not for the level of the
node is not handled while another one is queued. -/
def KeepsUp (cfg : NodeConfig) (s : Node) : NodeEvent → Prop
  | .request dir _ => s.state = .idle → ∀ entry ∈ s.reqQueue, entry.portId ≠ dir
  | .fsm => s.state = .idle → ∀ entry rest, s.reqQueue = entry :: rest → rest ≠ [] → entry.req.isForLevel cfg = true
  | .response _ _ => True

/-- The FSM is scheduled unless it is idle, and has something to end when it ends a synchronisation. -/
structure FsmInv (s : Node) : Prop where
  busy : s.state ≠ .idle → s.fsmEvent = true
  ends : ∀ pair, s.state = .endSyncro pair → ∃ dir, dir.pair = pair ∧ s.syncroVal pair (s.currentIdReq dir) = 2

/-- How many events of the FSM lead to `IDLE`. -/
def FsmState.rank : FsmState → Nat
  | .idle => 0
  | .slaveReq _ => 2
  | .endSyncro _ | .upSyncro _ => 1

namespace Node

variable {cfg : NodeConfig} {s s' : Node}

/-! ## Functions of the node -/

variable {req : PortReq} {dir : Dir} {pair : Pair} {entry : QueueEntry} {rest : List QueueEntry}

theorem handleReq_spec :
    (s.handleReq cfg req dir).reqQueue = s.reqQueue ∧ (s.handleReq cfg req dir).arrived = s.arrived ∧
      (s.handleReq cfg req dir).handled = s.handled ∧ (s.handleReq cfg req dir).syncroVal = s.syncroVal ∧
      if req.isForLevel cfg then
        (s.handleReq cfg req dir).state = .slaveReq dir ∧ (s.handleReq cfg req dir).fsmEvent = true
      else (s.handleReq cfg req dir).state = s.state ∧ (s.handleReq cfg req dir).fsmEvent = s.fsmEvent ∧
        (s.handleReq cfg req dir).currentIdReq = s.currentIdReq := by
  rw [handleReq]
  split
  case isTrue hsync =>
    split
    case isTrue hlevel =>
      have hfor : req.isForLevel cfg = true := by rw [PortReq.isForLevel, hsync]; simpa using hlevel
      rw [if_pos hfor]
      exact ⟨rfl, rfl, rfl, rfl, rfl, rfl⟩
    case isFalse hlevel =>
      have hfor : ¬req.isForLevel cfg = true := by rw [PortReq.isForLevel, hsync]; simpa using hlevel
      rw [if_neg hfor]
      split <;> exact ⟨rfl, rfl, rfl, rfl, rfl, rfl, rfl⟩
  case isFalse hsync =>
    have hfor : ¬req.isForLevel cfg = true := by rw [PortReq.isForLevel, Bool.eq_false_iff.2 hsync]; simp
    rw [if_neg hfor]
    exact ⟨rfl, rfl, rfl, rfl, rfl, rfl, rfl⟩

/-- What an event of the FSM does in another state than `IDLE`: the queue is left alone, the FSM goes on towards `IDLE`
and is scheduled again. -/
structure FsmStep (s s' : Node) : Prop where
  reqQueue : s'.reqQueue = s.reqQueue
  arrived : s'.arrived = s.arrived
  handled : s'.handled = s.handled
  fsmEvent : s'.fsmEvent = true
  rank : FsmState.rank s'.state < FsmState.rank s.state
  inv : FsmInv s'

theorem fsmInv_idle (h : s.state = .idle) : FsmInv s :=
  ⟨fun hne => absurd h hne, fun pair hend => by rw [h] at hend; cases hend⟩

theorem fsmSlaveReq_step (hs : s.state = .slaveReq dir) : FsmStep s (s.fsmSlaveReq cfg dir) := by
  have hrank : rank s.state = 2 := by rw [hs]; rfl
  have hup : ∀ t : Node, t.reqQueue = s.reqQueue → t.arrived = s.arrived → t.handled = s.handled →
      FsmStep s (t.sendUp dir) := by
    intro t hq ha hh
    exact ⟨hq, ha, hh, rfl, by rw [hrank]; exact one_lt_two, fun _ => rfl, fun pair hend => by cases hend⟩
  have hidle : ∀ t : Node, t.reqQueue = s.reqQueue → t.arrived = s.arrived → t.handled = s.handled →
      FsmStep s (t.goto .idle) := by
    intro t hq ha hh
    exact ⟨hq, ha, hh, rfl, by rw [hrank]; exact Nat.zero_lt_two, fsmInv_idle rfl⟩
  rw [fsmSlaveReq]
  dsimp only
  split
  · split
    case isTrue htwo =>
      refine ⟨rfl, rfl, rfl, rfl, by rw [hrank]; exact one_lt_two, fun _ => rfl, fun pair hend => ?_⟩
      cases hend
      exact ⟨dir, rfl, htwo⟩
    case isFalse => exact hidle _ rfl rfl rfl
  · split
    · split
      · exact hup _ rfl rfl rfl
      · exact hidle _ rfl rfl rfl
    · exact hup _ rfl rfl rfl

theorem fsmEndSyncro_step
    (htwo : ∃ dir, dir.pair = pair ∧ s.syncroVal pair (s.currentIdReq dir) = 2) (hs : s.state = .endSyncro pair) :
    ∃ s', s.fsmEndSyncro pair = some s' ∧ FsmStep s s' := by
  have hrank : rank s.state = 1 := by rw [hs]; rfl
  have hend : ∀ (id : Nat) (outputs : List Output), FsmStep s
      (({ s with syncroVal := set₂ s.syncroVal pair id 0, outputs := outputs }.forget pair id).goto .idle) :=
    fun id outputs => ⟨rfl, rfl, rfl, rfl, by rw [hrank]; exact Nat.zero_lt_one, fsmInv_idle rfl⟩
  obtain ⟨dir, hdir, htwo⟩ := htwo
  have hone : s.syncroVal pair (s.currentIdReq pair.fst) = 2 ∨ s.syncroVal pair (s.currentIdReq pair.snd) = 2 := by
    subst hdir
    cases dir with
    | nord => exact .inl htwo
    | sud => exact .inr htwo
    | east => exact .inl htwo
    | west => exact .inr htwo
  rw [fsmEndSyncro]
  split
  case isTrue => exact ⟨_, rfl, hend _ _⟩
  case isFalse hno =>
    rw [if_pos (hone.resolve_left hno)]
    exact ⟨_, rfl, hend _ _⟩

/-- The handler does not get stuck outside of the idle state. -/
theorem fsmHandler_step
    (hends : ∀ pair, s.state = .endSyncro pair → ∃ dir, dir.pair = pair ∧ s.syncroVal pair (s.currentIdReq dir) = 2)
    (hbusy : s.state ≠ .idle) : ∃ s', s.fsmHandler cfg = some s' ∧ FsmStep s s' := by
  rw [fsmHandler]
  cases hs : s.state with
  | idle => exact absurd hs hbusy
  | slaveReq dir => exact ⟨_, rfl, fsmSlaveReq_step hs⟩
  | upSyncro pair =>
    exact ⟨_, rfl, rfl, rfl, rfl, rfl, by rw [hs]; exact Nat.zero_lt_one, fsmInv_idle rfl⟩
  | endSyncro pair => exact fsmEndSyncro_step (hends pair hs) hs

theorem fsmIdle_nil (hq : s.reqQueue = []) : s.fsmIdle cfg = s := by rw [fsmIdle, hq]

theorem fsmIdle_cons (hq : s.reqQueue = entry :: rest) :
    s.fsmIdle cfg = ({ s with reqQueue := rest } : Node).handle cfg entry := by rw [fsmIdle, hq]

/-! ## Order -/

/-- The numbers of the requests of a port, with one put between the handled and the queued ones. -/
theorem handledOn_handle :
    (s.handle cfg entry).handledOn dir = s.handledOn dir ++ if entry.portId = dir then [entry.seq] else [] := by
  have hspec := @handleReq_spec cfg { s with handled := s.handled ++ [(entry.portId, entry.seq)] }
    entry.req entry.portId
  rw [handledOn, handle, hspec.2.2.1, handledOn, filter_append, map_append]
  by_cases h : entry.portId = dir <;> simp [h]

theorem queuedOn_cons (h : s.reqQueue = entry :: rest) :
    s.queuedOn dir = (if entry.portId = dir then [entry.seq] else []) ++
      ({ s with reqQueue := rest } : Node).queuedOn dir := by
  rw [queuedOn, queuedOn, h]
  by_cases hp : entry.portId = dir <;> simp [hp]

end Node

/-! ## Events -/

/-- The next states of a node that serves its requests. -/
structure NodeInv (s : Node) : Prop where
  served : Served s
  fsm : FsmInv s

section Events

variable {cfg : NodeConfig} {s s' : Node}

theorem queuedOn_eq_nil : s.queuedOn dir = [] ↔ ∀ entry ∈ s.reqQueue, entry.portId ≠ dir := by
  rw [queuedOn, map_eq_nil_iff, filter_eq_nil_iff]
  simp

/-- One more request of a port keeps the order, handled at once, exactly if none of the port is queued. -/
theorem handledFirst_iff {n : Nat} {handled queued : List Nat} (h : handled ++ queued = range n) :
    handled ++ [n] ++ queued = range (n + 1) ↔ queued = [] := by
  constructor
  · intro heq
    rw [range_succ, ← h, append_assoc, append_assoc, append_cancel_left_eq] at heq
    by_contra hne
    obtain ⟨x, xs, rfl⟩ := exists_cons_of_ne_nil hne
    have hx : x ∈ range n := by
      rw [← h]
      exact mem_append_right _ mem_cons_self
    have hhead := congrArg head? heq
    rw [singleton_append, cons_append, head?_cons, head?_cons] at hhead
    rw [← Option.some.inj hhead] at hx
    exact absurd (mem_range.1 hx) (lt_irrefl n)
  · rintro rfl
    rw [append_nil] at h ⊢
    rw [h, range_succ]

/-- A request is served iff the node keeps up with it. -/
theorem request_iff (hs : NodeInv s) (h : nodeStep cfg s (.request dir req) = some s') :
    FsmInv s' ∧ (Served s' ↔ KeepsUp cfg s (.request dir req)) := by
  cases h
  generalize hentry : (⟨req, dir, s.arrived dir⟩ : QueueEntry) = entry
  generalize ht : ({ s with outputs := [], arrived := update s.arrived dir (s.arrived dir + 1) } : Node) = t
  have hslave : ({ s with outputs := [] } : Node).slaveInput cfg req dir =
      if t.state = .idle then t.handle cfg entry else { t with reqQueue := t.reqQueue ++ [entry] } := by
    subst ht
    subst hentry
    rfl
  have horder := hs.served.inOrder
  have harrived : ∀ dir', t.arrived dir' = s.arrived dir' + if dir = dir' then 1 else 0 := by
    intro dir'
    subst ht
    show update s.arrived dir _ dir' = _
    by_cases hd : dir = dir'
    · subst hd
      rw [update_self, if_pos rfl]
    · rw [update_of_ne (Ne.symm hd), if_neg hd, Nat.add_zero]
  have hqueued : ∀ dir', t.queuedOn dir' = s.queuedOn dir' := fun dir' => by subst ht; rfl
  have hhandled : ∀ dir', t.handledOn dir' = s.handledOn dir' := fun dir' => by subst ht; rfl
  have hq : t.reqQueue = s.reqQueue := by subst ht; rfl
  have hst : t.state = s.state := by subst ht; rfl
  have hev : t.fsmEvent = s.fsmEvent := by subst ht; rfl
  rw [hslave]
  by_cases hidle : t.state = .idle
  · -- handled at once
    rw [if_pos hidle]
    have hspec := @handleReq_spec cfg { t with handled := t.handled ++ [(entry.portId, entry.seq)] }
      entry.req entry.portId
    obtain ⟨hrq, harr, -, -, hstart⟩ := hspec
    have hkeeps : KeepsUp cfg s (.request dir req) ↔ s.queuedOn dir = [] := by
      rw [queuedOn_eq_nil, KeepsUp, ← hst]
      exact ⟨fun h => h hidle, fun h _ => h⟩
    have hon : ∀ dir', (t.handle cfg entry).queuedOn dir' = s.queuedOn dir' := fun dir' => by
      rw [← hqueued, queuedOn, handle, hrq]
      rfl
    constructor
    · split at hstart
      · exact ⟨fun _ => hstart.2, fun pair hend => by
          rw [handle, hstart.1] at hend
          cases hend⟩
      · exact fsmInv_idle (hstart.1.trans hidle)
    · rw [hkeeps, ← handledFirst_iff (horder dir)]
      have hseq : entry.portId = dir ∧ entry.seq = s.arrived dir := by subst hentry; exact ⟨rfl, rfl⟩
      have hdir : ∀ dir', (t.handle cfg entry).handledOn dir' ++ (t.handle cfg entry).queuedOn dir' =
          s.handledOn dir' ++ (if dir = dir' then [s.arrived dir] else []) ++ s.queuedOn dir' := by
        intro dir'
        rw [handledOn_handle, hhandled, hon, hseq.1, hseq.2]
      have harr' : (t.handle cfg entry).arrived = t.arrived := harr
      constructor
      · intro hserved
        have hin := hserved.inOrder dir
        rw [hdir, harr', harrived, if_pos rfl, if_pos rfl] at hin
        exact hin
      · intro hin
        refine ⟨fun hne => ?_, fun dir' => ?_⟩
        · rw [handle, hrq, hq] at hne
          rw [handle]
          split at hstart
          · exact hstart.2
          · exact hstart.2.1.trans (hev.trans (hs.served.scheduled hne))
        · rw [hdir, harr', harrived]
          by_cases hd : dir = dir'
          · subst hd
            rw [if_pos rfl, if_pos rfl]
            exact hin
          · rw [if_neg hd, if_neg hd, append_nil]
            exact horder dir'
  · -- queued
    rw [if_neg hidle]
    refine ⟨⟨fun hne => ?_, fun pair hend => ?_⟩, fun _ hidle' => ?_, fun _ => ⟨fun _ => ?_, fun dir' => ?_⟩⟩
    · exact hev.trans (hs.fsm.busy (by rwa [← hst]))
    · obtain ⟨d, hd, htwo⟩ := hs.fsm.ends pair (hst.symm.trans hend)
      refine ⟨d, hd, ?_⟩
      subst ht
      exact htwo
    · exact absurd (hst.trans hidle') hidle
    · exact hev.trans (hs.fsm.busy (by rwa [← hst]))
    · show t.handledOn dir' ++ ((t.reqQueue ++ [entry]).filter _).map _ = range (t.arrived dir')
      rw [hhandled, filter_append, map_append, ← append_assoc, harrived]
      have hin := horder dir'
      rw [← hqueued] at hin
      show s.handledOn dir' ++ t.queuedOn dir' ++ _ = _
      rw [hin]
      subst hentry
      by_cases hd : dir = dir'
      · subst hd
        simp [range_succ]
      · simp [hd]

theorem fsm_iff (hs : NodeInv s) (h : nodeStep cfg s .fsm = some s') :
    FsmInv s' ∧ (Served s' ↔ KeepsUp cfg s .fsm) := by
  rw [nodeStep] at h
  split at h
  case isFalse => cases h
  case isTrue =>
    have horder := hs.served.inOrder
    by_cases hidle : s.state = .idle
    · have hs' : s' = s.fired.fsmIdle cfg := by
        rw [fsmHandler, show s.fired.state = .idle from hidle] at h
        exact (Option.some.inj h).symm
      subst hs'
      cases hq : s.reqQueue with
      | nil =>
        rw [fsmIdle_nil (s := s.fired) hq]
        refine ⟨fsmInv_idle hidle, fun _ _ entry rest heq => ?_, fun _ => ⟨fun hne => absurd hq hne, horder⟩⟩
        rw [hq] at heq
        cases heq
      | cons entry rest =>
        rw [fsmIdle_cons (s := s.fired) hq]
        generalize ht : ({ s.fired with reqQueue := rest } : Node) = t
        have htq : t.reqQueue = rest := by subst ht; rfl
        have htst : t.state = .idle := by subst ht; exact hidle
        have htev : t.fsmEvent = false := by subst ht; rfl
        obtain ⟨hrq, harr, -, -, hstart⟩ := @handleReq_spec cfg
          { t with handled := t.handled ++ [(entry.portId, entry.seq)] } entry.req entry.portId
        have hin : ∀ dir, (t.handle cfg entry).handledOn dir ++ (t.handle cfg entry).queuedOn dir =
            range ((t.handle cfg entry).arrived dir) := by
          intro dir
          have hqueued : (t.handle cfg entry).queuedOn dir = ({ s with reqQueue := rest } : Node).queuedOn dir := by
            rw [queuedOn, handle, hrq]
            subst ht
            rfl
          have harr' : (t.handle cfg entry).arrived = s.arrived := by
            rw [handle, harr]
            subst ht
            rfl
          have hhandled : t.handledOn dir = s.handledOn dir := by subst ht; rfl
          rw [handledOn_handle, hqueued, harr', hhandled, append_assoc, ← queuedOn_cons hq]
          exact horder dir
        have hkeeps : KeepsUp cfg s .fsm ↔ (rest ≠ [] → entry.req.isForLevel cfg = true) := by
          rw [KeepsUp]
          constructor
          · exact fun h => h hidle entry rest hq
          · intro h _ entry' rest' heq
            rw [hq] at heq
            cases heq
            exact h
        rw [hkeeps]
        have hserved : Served (t.handle cfg entry) ↔ (rest ≠ [] → (t.handle cfg entry).fsmEvent = true) := by
          have hreq : (t.handle cfg entry).reqQueue = rest := hrq.trans htq
          exact ⟨fun h => by rw [← hreq]; exact h.scheduled, fun h => ⟨by rw [hreq]; exact h, hin⟩⟩
        rw [hserved]
        by_cases hfor : entry.req.isForLevel cfg = true
        · rw [if_pos hfor] at hstart
          refine ⟨⟨fun _ => hstart.2, fun pair hend => ?_⟩, fun _ _ => hfor, fun _ _ => hstart.2⟩
          rw [handle, hstart.1] at hend
          cases hend
        · rw [if_neg hfor] at hstart
          have hev : (t.handle cfg entry).fsmEvent = false := hstart.2.1.trans htev
          refine ⟨fsmInv_idle (hstart.1.trans htst), ?_⟩
          rw [hev, Bool.eq_false_iff.2 hfor]
    · obtain ⟨t, ht, hstep⟩ := @fsmHandler_step cfg s.fired hs.fsm.ends hidle
      rw [ht] at h
      cases h
      refine ⟨hstep.inv, fun _ hidle' => absurd hidle' hidle, fun _ => ⟨fun _ => hstep.fsmEvent, fun dir => ?_⟩⟩
      rw [handledOn, queuedOn, hstep.handled, hstep.reqQueue, hstep.arrived]
      exact horder dir

theorem response_iff {rsp : PortResp} (hs : NodeInv s) (h : nodeStep cfg s (.response pair rsp) = some s') :
    FsmInv s' ∧ (Served s' ↔ KeepsUp cfg s (.response pair rsp)) := by
  cases h
  exact ⟨⟨hs.fsm.busy, hs.fsm.ends⟩, fun _ => trivial, fun _ => ⟨hs.served.scheduled, hs.served.inOrder⟩⟩

theorem nodeStep_iff {e : NodeEvent} (hs : NodeInv s) (h : nodeStep cfg s e = some s') :
    FsmInv s' ∧ (Served s' ↔ KeepsUp cfg s e) := by
  cases e with
  | request dir req => exact request_iff hs h
  | fsm => exact fsm_iff hs h
  | response pair rsp => exact response_iff hs h

theorem nodeInv_init : NodeInv {} :=
  ⟨⟨fun hne => absurd rfl hne, fun _ => rfl⟩, fsmInv_idle rfl⟩

/-- In every run of a node that keeps up, its registers tell the requests it has served. -/
theorem nodeInv_run {es : List NodeEvent} (hkeeps : AllSteps (nodeStep cfg) (KeepsUp cfg) {} es)
    (h : run (nodeStep cfg) {} es = some s) : NodeInv s :=
  run_inv (fun s e s' hs hP h => by
    obtain ⟨hfsm, hserved⟩ := nodeStep_iff hs h
    exact ⟨hserved.2 hP, hfsm⟩) nodeInv_init hkeeps h

/-! ## The FSM alone -/

/-- The events of the FSM it takes at most to empty the queue. -/
def Node.work (s : Node) : Nat := 3 * s.reqQueue.length + FsmState.rank s.state

theorem fsm_work (hs : NodeInv s) (hne : s.reqQueue ≠ []) (hkeeps : KeepsUp cfg s .fsm) :
    ∃ s', nodeStep cfg s .fsm = some s' ∧ NodeInv s' ∧ s'.work < s.work := by
  have hstep : nodeStep cfg s .fsm = s.fired.fsmHandler cfg := if_pos (hs.served.scheduled hne)
  have hwork : ∀ s', s.fired.fsmHandler cfg = some s' → s'.work < s.work → ∃ s', nodeStep cfg s .fsm = some s' ∧
      NodeInv s' ∧ s'.work < s.work := by
    intro s' hs' hlt
    rw [← hstep] at hs'
    obtain ⟨hfsm, hserved⟩ := nodeStep_iff hs hs'
    exact ⟨s', hs', ⟨hserved.2 hkeeps, hfsm⟩, hlt⟩
  by_cases hidle : s.state = .idle
  · obtain ⟨entry, rest, hq⟩ := exists_cons_of_ne_nil hne
    have hhandler : s.fired.fsmHandler cfg = some (({ s.fired with reqQueue := rest } : Node).handle cfg entry) := by
      rw [fsmHandler, show s.fired.state = .idle from hidle]
      exact congrArg some (fsmIdle_cons hq)
    refine hwork _ hhandler ?_
    obtain ⟨hrq, -, -, -, hstart⟩ := @handleReq_spec cfg
      { s.fired with reqQueue := rest, handled := s.handled ++ [(entry.portId, entry.seq)] } entry.req entry.portId
    have hrank : rank (({ s.fired with reqQueue := rest } : Node).handle cfg entry).state ≤ 2 := by
      split at hstart
      · exact (congrArg rank hstart.1).le
      · exact Nat.le_trans (congrArg rank (hstart.1.trans hidle)).le (Nat.zero_le 2)
    have hlen : (({ s.fired with reqQueue := rest } : Node).handle cfg entry).reqQueue.length = rest.length :=
      congrArg length hrq
    have hlens : s.reqQueue.length = rest.length + 1 := congrArg length hq
    rw [work, work, hlen, hlens]
    omega
  · obtain ⟨t, ht, ht'⟩ := @fsmHandler_step cfg s.fired hs.fsm.ends hidle
    refine hwork t ht ?_
    have hlen : t.reqQueue.length = s.reqQueue.length := congrArg length ht'.reqQueue
    have hrank : rank t.state < rank s.state := ht'.rank
    rw [work, work, hlen]
    omega

/-- The events of the FSM empty the queue, as long as none of them leaves the FSM without an event. -/
theorem fsm_drains (cfg : NodeConfig) (hs : NodeInv s) : ∃ n s', run (nodeStep cfg) s (replicate n .fsm) = some s' ∧
    (s'.reqQueue = [] ∨ ¬KeepsUp cfg s' .fsm) := by
  induction hwork : s.work using Nat.strongRecOn generalizing s with
  | ind work ih =>
    by_cases hdone : s.reqQueue = [] ∨ ¬KeepsUp cfg s .fsm
    · exact ⟨0, s, rfl, hdone⟩
    · rw [not_or, not_not] at hdone
      obtain ⟨s₁, h₁, hs₁, hlt⟩ := fsm_work hs hdone.1 hdone.2
      obtain ⟨n, s', hrun, hs'⟩ := ih s₁.work (by omega) hs₁ rfl
      exact ⟨n + 1, s', run_cons.2 ⟨s₁, h₁, hrun⟩, hs'⟩

end Events

/-- **The requests of a node.** In every run, they are served in all states exactly if each step keeps up; then the FSM
alone hands the queued ones to `handle_req`, as long as its steps keep up. -/
theorem requests_iff (cfg : NodeConfig) (es : List NodeEvent) :
    (AllStates (nodeStep cfg) Served {} es ↔ AllSteps (nodeStep cfg) (KeepsUp cfg) {} es) ∧
      ∀ s, AllSteps (nodeStep cfg) (KeepsUp cfg) {} es → run (nodeStep cfg) {} es = some s →
        ∃ n s', run (nodeStep cfg) s (List.replicate n .fsm) = some s' ∧ (s'.reqQueue = [] ∨ ¬KeepsUp cfg s' .fsm) := by
  refine ⟨allStates_iff (I := NodeInv) (fun s hs => hs.served) (fun s e s' hs h => (nodeStep_iff hs h).2)
    (fun s e s' hs h hserved => ⟨hserved, (nodeStep_iff hs h).1⟩) nodeInv_init, ?_⟩
  intro s hkeeps h
  exact fsm_drains cfg (nodeInv_run hkeeps h)

/-- A node of level 0 gets a request of its level by north, and while it is busy two that are for higher levels by the
other ports. -/
def passThroughs : List NodeEvent :=
  [.request .nord { sync := true, aggr := 1, idReq := 0 }, .request .sud { sync := true, aggr := 2, idReq := 1 },
    .request .east { sync := true, aggr := 2, idReq := 2 }, .fsm, .fsm]

/-- The last request waits, with no event that would handle it. -/
theorem request_stuck : ¬AllStates (nodeStep { level := 0 }) Served {} passThroughs := by
  intro h
  have hrun : (run (nodeStep { level := 0 }) {} passThroughs).map (fun s => (s.reqQueue, s.fsmEvent)) =
      some ([⟨{ sync := true, aggr := 2, idReq := 2 }, .east, 0⟩], false) := by decide +kernel
  obtain ⟨s, hs, hpair⟩ := Option.map_eq_some_iff.1 hrun
  have hsched := (h.final hs).scheduled
  rw [(Prod.mk.inj hpair).1, (Prod.mk.inj hpair).2] at hsched
  exact Bool.false_ne_true (hsched (cons_ne_nil _ _))

end GvsocPulp.FractalSync
