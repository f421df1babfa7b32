import GvsocPulp.TeranocNoc.Handlers

/-!
# Every request is delivered once, in order

- `Inv.step`: what every event keeps, with the events of the routers that hold requests that can move;
- `Inv.exists_ripe`, `Inv.drained`: how long it takes until everything is handed to the targets;
- `noc_delivers`: what holds in every run.
-/

namespace GvsocPulp.TeranocNoc

open Function List Option Nat

namespace Noc

variable {cfg : Config} {s s' : Noc} {p : Pos} {d : Dir} {q : Queue} {event : Event} {es : List Event}

structure Inv (cfg : Config) (s : Noc) : Prop where
  net : s.net.Inv cfg
  sched : ∀ q, s.Scheduled q
  timely : s.Timely cfg

theorem inv_initial (cfg : Config) : initial.Inv cfg := by
  refine ⟨⟨fun _ _ => nofun, fun src dest => ?_, fun _ _ => nofun, fun q => zero_le _, fun p d => ?_, fun _ => rfl,
    fun _ => nofun, rfl, rfl⟩, fun q => ?_, ⟨fun _ _ _ => nofun, fun _ _ => nofun⟩⟩
  · show [] = [] ++ (lane dest src .local).flatMap fun _ => []
    rw [flatMap_eq_nil_iff.2 fun _ _ => rfl]
    rfl
  · have hgo : initial.senderStalled p d = false := by
      rw [senderStalled]
      simp [Noc.initial]
    show initial.senderStalled p d = true ↔ cfg.queueSize < 0
    simp [hgo]
  · cases q with
    | input p d => exact fun h => absurd rfl h
    | output p d => exact fun h => absurd rfl h

theorem Inv.fsm (hinv : s.Inv cfg) (hdue : s.Due p) (deny : Bool) : (Router.fsmHandler cfg p s deny).Inv cfg := by
  obtain ⟨hgoes, hsched⟩ := fsmHandler_goes hinv.net p deny
  refine ⟨hgoes.inv hinv.net, fun q => ?_, hgoes.keeps.timely ⟨fun p' hmesh due hd => ?_, hinv.timely.ready⟩⟩
  · by_cases hq : q.pos = p
    · exact hsched q hq
    · refine hgoes.keeps.sched q ?_
      have hevent : ∀ p', p' ≠ p → (s.clearEvent p).fsmEvent p' = s.fsmEvent p' := fun p' hp => update_of_ne hp ..
      cases q with
      | input p' d => exact fun hne => hevent p' hq ▸ hinv.sched (.input p' d) hne
      | output p' d => exact fun hne hgo => hevent p' hq ▸ hinv.sched (.output p' d) hne hgo
  · replace hd : due ∈ update s.fsmEvent p none p' := hd
    by_cases hp : p' = p
    · subst hp
      rw [update_self] at hd
      cases hd
    · rw [update_of_ne hp] at hd
      exact hinv.timely.event p' hmesh due hd

theorem net_req {r : Req} (hgo : s.routerStalled r.src = false) :
    (NetworkInterface.req cfg s r).2.net = s.net.accept cfg r := by
  rw [NetworkInterface.req, hgo, if_neg (by simp), Router.handleRequest, getReqQueue_self]
  simp only
  have hlen : ((s.pushBack cfg (.input r.src .local) r).queues (.input r.src .local)).length =
      (s.net.queues (.input r.src .local)).length + 1 := by
    rw [pushBack_queues, length_append, length_singleton, net, length_map]
  rw [hlen]
  have hpush := net_pushBack cfg s (.input r.src .local) r
  show Net.mk _ (senderStalled { s with routerStalled := update s.routerStalled r.src _ }) _ _ _ _ _ _ = _
  rw [senderStalled_routerStalled]
  show Net.mk (s.pushBack cfg (.input r.src .local) r).net.queues _ _ _ _ _ _
    (s.pushBack cfg (.input r.src .local) r).net.overfull = _
  rw [hpush]
  rfl

theorem keeps_req (cfg : Config) (s : Noc) (r : Req) : Keeps cfg s (NetworkInterface.req cfg s r).2 := by
  rw [NetworkInterface.req]
  split_ifs
  · exact Keeps.refl cfg s
  · have hpush := keeps_pushBack cfg s (.input r.src (getReqQueue r.src r.src)) r
    exact ⟨rfl, fun q hq => by have hkeep := hpush.sched q hq; cases q <;> exact hkeep,
      fun ht => ⟨(hpush.timely ht).event, (hpush.timely ht).ready⟩, hpush.due⟩

theorem Inv.req {r : Req} (hinv : s.Inv cfg) (hsrc : cfg.Mesh r.src) (hdest : cfg.Mesh r.dest) :
    (NetworkInterface.req cfg s r).2.Inv cfg := by
  have hkeeps := keeps_req cfg s r
  refine ⟨?_, fun q => hkeeps.sched q (hinv.sched q), hkeeps.timely hinv.timely⟩
  by_cases hgo : s.routerStalled r.src = true
  · rw [NetworkInterface.req, if_pos hgo]
    exact hinv.net
  · have hfree := Bool.eq_false_iff.2 hgo
    rw [net_req hfree]
    exact hinv.net.accept hsrc hdest ((senderStalled_local s r.src).trans hfree)

theorem net_grant (s : Noc) (p : Pos) : (NetworkInterface.grant p s).net = s.net.grant p := by
  show Net.mk _ (senderStalled { s with stalledQueues := setFlag s.stalledQueues p (getReqQueue p p) false })
    (fun p' => setFlag s.stalledQueues p (getReqQueue p p) false p' .local) _ _ _ _ _ = _
  rw [getReqQueue_self, senderStalled_exit, exit_setFlag]
  rfl

theorem keeps_grant (cfg : Config) (s : Noc) (p : Pos) : Keeps cfg s (NetworkInterface.grant p s) := by
  have hkeeps := keeps_unstallQueue cfg s p p
  exact ⟨rfl, fun q hq => by have hkeep := hkeeps.sched q hq; cases q <;> exact hkeep,
    fun ht => ⟨(hkeeps.timely ht).event, (hkeeps.timely ht).ready⟩, hkeeps.due⟩

section

variable (hinv : s.Inv cfg)
include hinv

theorem Inv.grant (p : Pos) : (NetworkInterface.grant p s).Inv cfg := by
  have hkeeps := keeps_grant cfg s p
  refine ⟨?_, fun q => hkeeps.sched q (hinv.sched q), hkeeps.timely hinv.timely⟩
  rw [net_grant]
  exact hinv.net.grant

theorem Inv.due_next (hp : cfg.Mesh p) (hnot : ¬ s.Due p) {due : Nat} (h : due ∈ s.fsmEvent p) :
    due = s.cycle + 1 := by
  have htime := (hinv.timely.event p hp due h).2
  have hlate : ¬ due ≤ s.cycle := fun hle => hnot ⟨due, h, hle⟩
  omega

theorem Inv.tick (hnot : ∀ p ∈ cfg.positions, ¬ s.Due p) : Inv cfg { s with cycle := s.cycle + 1 } := by
  refine ⟨hinv.net, fun q => ?_, fun p hp due h => ?_, fun q e he => le_succ_of_le (hinv.timely.ready q e he)⟩
  · have hsched := hinv.sched q
    cases q <;> exact hsched
  · have hdue := hinv.due_next hp (hnot p (mem_positions.2 hp)) h
    exact ⟨hdue.symm.le, le_succ_of_le hdue.le⟩

theorem Inv.step (h : step cfg s event = some s') : s'.Inv cfg := by
  cases event with
  | req r =>
    obtain ⟨⟨hsrc, hdest⟩, h⟩ := ite_none_right_eq_some.1 h
    cases h
    exact hinv.req hsrc hdest
  | fsm p deny =>
    obtain ⟨hdue, h⟩ := ite_none_right_eq_some.1 h
    cases h
    exact hinv.fsm hdue deny
  | grant p =>
    obtain ⟨-, h⟩ := ite_none_right_eq_some.1 h
    cases h
    exact hinv.grant p
  | tick =>
    obtain ⟨hnot, h⟩ := ite_none_right_eq_some.1 h
    cases h
    exact hinv.tick hnot

theorem Inv.run (h : Lib.run (Noc.step cfg) s es = some s') : s'.Inv cfg :=
  Lib.run_invariant (fun _ _ _ hinv h => hinv.step h) hinv h

end

/-! ## How long it takes -/

/-- The head of this queue moves in this cycle. -/
structure Ripe (cfg : Config) (s : Noc) (q : Queue) : Prop where
  free : s.net.Free q
  ready : ∀ e ∈ s.queues q, e.ready ≤ s.cycle
  mesh : cfg.Mesh q.pos
  due : s.Due q.pos

theorem Inv.due_of_free (hinv : s.Inv cfg) (hfree : s.net.Free q) : cfg.Mesh q.pos ∧ s.fsmEvent q.pos ≠ none := by
  have hsched := hinv.sched q
  cases q with
  | input p d =>
    obtain ⟨r, rest, h, -⟩ := hfree
    refine ⟨hinv.net.mesh h, hsched fun hnil => ?_⟩
    have hempty : s.net.queues (.input p d) = [] := congrArg (map Entry.req) hnil
    rw [hempty] at h
    cases h
  | output p d =>
    obtain ⟨hne, hgo⟩ := hfree
    obtain ⟨r, rest, h⟩ := exists_cons_of_ne_nil hne
    refine ⟨hinv.net.mesh h, hsched (fun hnil => hne (congrArg (map Entry.req) hnil)) ?_⟩
    by_cases hd : d = .local
    · rw [if_pos hd] at hgo
      rw [hd]
      exact hgo
    · rw [if_neg hd] at hgo
      exact (senderStalled_next hd).symm.trans hgo

theorem Inv.exists_ripe (hinv : s.Inv cfg) (howed : ∀ p, s.owed p = false) (hnot : ∀ p ∈ cfg.positions, ¬ s.Due p)
    (hq : s.net.queues q ≠ []) : ∃ q', Ripe cfg { s with cycle := s.cycle + 1 } q' := by
  obtain ⟨q', hfree⟩ := hinv.net.exists_free howed hq
  obtain ⟨hmesh, hne⟩ := hinv.due_of_free hfree
  obtain ⟨due, hdue⟩ := ne_none_iff_exists'.1 hne
  have hnext := hinv.due_next hmesh (hnot _ (mem_positions.2 hmesh)) hdue
  exact ⟨q', hfree, hinv.timely.ready q', hmesh, due, hdue, hnext.le⟩

/-- A handler moves something, or does not take the turn of what is ripe. -/
theorem Inv.ripe_fsm (hinv : s.Inv cfg) (hripe : Ripe cfg s q) (p : Pos) (deny : Bool) :
    hops cfg (Router.fsmHandler cfg p s deny).net.queues < hops cfg s.net.queues ∨
      Ripe cfg (Router.fsmHandler cfg p s deny) q := by
  refine (fsmHandler_still hinv.net p deny).imp_right fun hstill => ?_
  obtain ⟨hsame, hin, hout⟩ := hstill
  by_cases hp : q.pos = p
  · -- the handler of its router would have moved it
    exfalso
    have hfree := hripe.free
    cases q with
    | input p d =>
      obtain rfl : p = _ := hp
      obtain ⟨r, rest, h, hnil⟩ := hfree
      obtain ⟨e, es, heq, rfl, -⟩ := map_eq_cons_iff.1 h
      have hfull := hin d e es heq (hripe.ready e (heq ▸ mem_cons_self))
      rw [map_eq_nil_iff.1 hnil] at hfull
      have hsize := cfg.queueSize_pos
      rw [length_nil] at hfull
      omega
    | output p d =>
      obtain rfl : p = _ := hp
      obtain ⟨hne, hgo⟩ := hfree
      obtain ⟨e, es, heq⟩ := exists_cons_of_ne_nil fun hnil => hne (congrArg (map Entry.req) hnil)
      have hstall := hout d e es heq (hripe.ready e (heq ▸ mem_cons_self))
      by_cases hd : d = .local
      · rw [if_pos hd] at hgo
        subst hd
        exact Bool.false_ne_true (hgo.symm.trans hstall)
      · rw [if_neg hd] at hgo
        exact Bool.false_ne_true (hgo.symm.trans ((senderStalled_next hd).trans hstall))
  · have hdue := (fsmHandler_goes (s := s) hinv.net p deny).1.keeps.due q.pos (by
      obtain ⟨due, h, hle⟩ := hripe.due
      exact ⟨due, (update_of_ne hp ..).trans h, hle⟩)
    obtain ⟨event, heq⟩ := hsame
    rw [heq] at hdue ⊢
    exact { hripe with due := hdue }

/-- The cycles of a run that end while no target owes a grant. -/
def freeTicks (cfg : Config) (s : Noc) : List Event → Nat
  | [] => 0
  | event :: es =>
    (if event = .tick ∧ ∀ p ∈ cfg.positions, s.owed p = false then 1 else 0) +
      ((step cfg s event).map fun s' => freeTicks cfg s' es).getD 0

def Event.isGrant : Event → Bool
  | .grant _ => true
  | _ => false

def Event.isReq : Event → Bool
  | .req _ => true
  | _ => false

/-- At most `n` hops are left, or less if nothing is ripe. -/
def Left (cfg : Config) (s : Noc) (n : Nat) : Prop :=
  hops cfg s.net.queues < n ∨ hops cfg s.net.queues = n ∧ ∃ q, Ripe cfg s q

theorem Inv.queues_of_hops (hinv : s.Inv cfg) (h : hops cfg s.net.queues = 0) (q : Queue) : s.queues q = [] := by
  by_contra hne
  obtain ⟨r, rest, hq⟩ := exists_cons_of_ne_nil fun hnil : s.net.queues q = [] => hne (map_eq_nil_iff.1 hnil)
  have hnil := hops_eq_zero h (hinv.net.mesh hq)
  rw [hq] at hnil
  cases hnil

section

variable (hinv : s.Inv cfg) (hreq : event.isReq = false) (h : Noc.step cfg s event = some s')
include hinv hreq h

theorem Inv.hops_step :
    hops cfg s'.net.queues ≤ hops cfg s.net.queues := by
  cases event with
  | req r => cases hreq
  | fsm p deny =>
    obtain ⟨-, h⟩ := ite_none_right_eq_some.1 h
    cases h
    exact (fsmHandler_goes hinv.net p deny).1.hops_le
  | grant p =>
    obtain ⟨-, h⟩ := ite_none_right_eq_some.1 h
    cases h
    rw [net_grant]
    exact le_rfl
  | tick =>
    obtain ⟨-, h⟩ := ite_none_right_eq_some.1 h
    cases h
    exact le_rfl

/-- One event: a grant may cost a cycle, and every cycle in which no target owes a grant brings a request on. -/
theorem Inv.left_step {n : Nat} (hleft : Left cfg s n) (hne : hops cfg s.net.queues ≠ 0) : ∃ n', Left cfg s' n' ∧
      n' + (if event = .tick ∧ ∀ p ∈ cfg.positions, s.owed p = false then 1 else 0) = n + event.isGrant.toNat := by
  have hle := hinv.hops_step hreq h
  cases event with
  | req r => cases hreq
  | fsm p deny =>
    obtain ⟨-, h⟩ := ite_none_right_eq_some.1 h
    cases h
    refine ⟨n, ?_, by simp [Event.isGrant]⟩
    rcases hleft with hlt | ⟨heq, q, hripe⟩
    · exact .inl (hle.trans_lt hlt)
    · rcases hinv.ripe_fsm hripe p deny with hlt | hripe
      · exact .inl (heq ▸ hlt)
      · rcases hle.lt_or_eq with hlt | hsame
        · exact .inl (heq ▸ hlt)
        · exact .inr ⟨hsame.trans heq, q, hripe⟩
  | grant p =>
    refine ⟨n + 1, .inl ?_, by simp [Event.isGrant]⟩
    rcases hleft with hlt | ⟨heq, -⟩ <;> omega
  | tick =>
    obtain ⟨hnot, h⟩ := ite_none_right_eq_some.1 h
    cases h
    have hlt : hops cfg s.net.queues < n := by
      rcases hleft with hlt | ⟨-, q, hripe⟩
      · exact hlt
      · exact absurd hripe.due (hnot _ (mem_positions.2 hripe.mesh))
    by_cases howed : ∀ p ∈ cfg.positions, s.owed p = false
    · refine ⟨n - 1, ?_, ?_⟩
      rotate_left
      · rw [if_pos ⟨rfl, howed⟩]
        show n - 1 + 1 = n + 0
        omega
      have hall : ∀ p, s.owed p = false := fun p => by
        by_contra ho
        rw [Bool.not_eq_false] at ho
        have hfree := howed p (mem_positions.2 (hinv.net.owed_mesh p ho))
        rw [ho] at hfree
        cases hfree
      rcases lt_or_ge (hops cfg s.net.queues) (n - 1) with hless | hge
      · exact .inl hless
      · obtain ⟨q, hq⟩ : ∃ q, s.net.queues q ≠ [] := by
          by_contra hnone
          refine hne (List.sum_eq_zero_iff_forall_eq_nat.2 fun x hx => ?_)
          obtain ⟨q, -, rfl⟩ := List.mem_map.1 hx
          rw [show s.net.queues q = [] from by_contra fun h => hnone ⟨q, h⟩]
          rfl
        exact .inr ⟨(le_sub_one_of_lt hlt).antisymm hge, hinv.exists_ripe hall hnot hq⟩
    · exact ⟨n, .inl hlt, by rw [if_neg fun h => howed h.2]; rfl⟩

end

theorem Inv.hops_run : ∀ {es : List Event} {s : Noc}, s.Inv cfg → (∀ event ∈ es, event.isReq = false) →
    Lib.run (Noc.step cfg) s es = some s' → hops cfg s'.net.queues ≤ hops cfg s.net.queues
  | [], s, _, _, h => by
    cases h
    exact le_rfl
  | event :: es, s, hinv, hreq, h => by
    obtain ⟨s₁, h₁, h⟩ := Lib.run_cons.1 h
    have hfirst := hinv.hops_step (hreq event mem_cons_self) h₁
    exact ((hinv.step h₁).hops_run (fun event he => hreq event (mem_cons_of_mem _ he)) h).trans hfirst

theorem Inv.left_run : ∀ {es : List Event} {s : Noc} {n : Nat}, s.Inv cfg → (∀ event ∈ es, event.isReq = false) →
    Lib.run (Noc.step cfg) s es = some s' → Left cfg s n →
    hops cfg s'.net.queues = 0 ∨ hops cfg s'.net.queues + freeTicks cfg s es ≤ n + es.countP Event.isGrant
  | [], s, n, _, _, h, hleft => by
    cases h
    rw [freeTicks]
    rcases hleft with hlt | ⟨heq, -⟩
    · exact .inr hlt.le
    · exact .inr heq.le
  | event :: es, s, n, hinv, hreq, h, hleft => by
    have hhead := hreq event mem_cons_self
    have htail : ∀ event ∈ es, event.isReq = false := fun event he => hreq event (mem_cons_of_mem _ he)
    by_cases hzero : hops cfg s.net.queues = 0
    · exact .inl (le_zero.1 (hzero ▸ hinv.hops_run hreq h))
    · obtain ⟨s₁, h₁, h⟩ := Lib.run_cons.1 h
      obtain ⟨n₁, hleft₁, heq⟩ := hinv.left_step hhead h₁ hleft hzero
      refine ((hinv.step h₁).left_run htail h hleft₁).imp_right fun hle => ?_
      rw [freeTicks, h₁, map_some, getD_some]
      have hcount : (event :: es).countP Event.isGrant = es.countP Event.isGrant + event.isGrant.toNat := by
        rw [countP_cons]
        cases event.isGrant <;> rfl
      omega

/-- Without new requests, the queues are empty after as many cycles as there are hops, and one more for each grant. -/
theorem Inv.drained (hinv : s.Inv cfg) (hreq : ∀ event ∈ es, event.isReq = false)
    (h : Lib.run (Noc.step cfg) s es = some s')
    (hticks : hops cfg s.net.queues + es.countP Event.isGrant < freeTicks cfg s es) (q : Queue) : s'.queues q = [] := by
  refine (hinv.run h).queues_of_hops ?_ q
  rcases hinv.left_run hreq h (n := hops cfg s.net.queues + 1) (.inl (lt_succ_self _)) with hzero | hle
  · exact hzero
  · omega

/-- **The network delivers.** In every state of every run, the requests from one network interface to one destination
are, in the order in which they were accepted, those the target has received and those on their lane. No queue is ever
above its bound, the sender of an input queue is stalled exactly while the queue is over its size, the local output
while its target owes a grant, and no target gets a request between a denial and its grant. Once there are no new
requests, everything is handed to the targets after as many cycles without an owed grant as there are hops left, and one
more for each grant. -/
theorem noc_delivers (cfg : Config) (es : List Event) (s : Noc) (h : Lib.run (Noc.step cfg) initial es = some s) :
    (∀ src dest, s.accepted.filter (Req.Between src dest) = (s.received dest).filter (Req.Between src dest) ++
      (lane dest src .local).flatMap fun q => ((s.queues q).map Entry.req).filter (Req.Between src dest)) ∧
    (∀ p, ∀ r ∈ s.received p, r.dest = p) ∧
    (∀ q, ∀ e ∈ s.queues q, q ∈ lane e.req.dest e.req.src .local) ∧
    (∀ p d, (s.queues (.input p d)).length ≤ cfg.queueSize + 1) ∧
    (∀ p d, (s.queues (.output p d)).length ≤ cfg.queueSize) ∧
    s.overfull = [] ∧
    (∀ p d, s.senderStalled p d = true ↔ cfg.queueSize < (s.queues (.input p d)).length) ∧
    (∀ p, s.stalledQueues p .local = s.owed p) ∧
    s.early = [] ∧
    ∀ es' s', (∀ event ∈ es', event.isReq = false) → Lib.run (Noc.step cfg) s es' = some s' →
      hops cfg s.net.queues + es'.countP Event.isGrant < freeTicks cfg s es' →
      ∀ src dest, s'.accepted.filter (Req.Between src dest) = (s'.received dest).filter (Req.Between src dest) := by
  have hinv := (inv_initial cfg).run h
  have hlen : ∀ q, (s.queues q).length ≤ cfg.bound q := fun q => by
    have hle := hinv.net.length_le q
    rwa [Noc.net, length_map] at hle
  refine ⟨hinv.net.flow, hinv.net.atDest, fun q e he => ?_, fun p d => hlen (.input p d), fun p d => hlen (.output p d),
    hinv.net.overfull, fun p d => ?_, hinv.net.exit_eq, hinv.net.early, fun es' s' hreq h' hticks src dest => ?_⟩
  · exact (hinv.net.located q e.req (List.mem_map_of_mem he)).2.2
  · have hiff := hinv.net.sender_iff p d
    rwa [Noc.net, length_map] at hiff
  · have hflow := (hinv.run h').net.flow src dest
    have hnil : ((lane dest src .local).flatMap fun q => (s'.net.queues q).filter (Req.Between src dest)) = [] := by
      refine flatMap_eq_nil_iff.2 fun q _ => ?_
      rw [show s'.net.queues q = [] from congrArg (map Entry.req) (hinv.drained hreq h' hticks q)]
      rfl
    rwa [hnil, append_nil] at hflow

/-- A request goes from one router to the next, and its target denies it and grants it in the next cycle. -/
def deniedEvents : List Event :=
  [.tick, .fsm (0, 0) false, .tick, .fsm (0, 0) false, .tick, .fsm (1, 0) false, .tick, .fsm (1, 0) true, .tick,
    .grant (1, 0), .tick, .fsm (1, 0) false, .tick]

theorem noc_delivers_denied : ∃ s s' : Noc,
    Lib.run (Noc.step ⟨2, 1, 1, Nat.one_pos⟩) initial [.req ⟨(0, 0), (1, 0), 7⟩] = some s ∧
    Lib.run (Noc.step ⟨2, 1, 1, Nat.one_pos⟩) s deniedEvents = some s' ∧
    s'.accepted.filter (Req.Between (0, 0) (1, 0)) = (s'.received (1, 0)).filter (Req.Between (0, 0) (1, 0)) ∧
    s'.received (1, 0) = [⟨(0, 0), (1, 0), 7⟩] :=
  ⟨_, _, rfl, rfl, (noc_delivers ⟨2, 1, 1, one_pos⟩ [.req ⟨(0, 0), (1, 0), 7⟩] _ rfl).2.2.2.2.2.2.2.2.2 deniedEvents _
    (by decide) rfl (by decide +kernel) (0, 0) (1, 0), by decide +kernel⟩

end Noc

end GvsocPulp.TeranocNoc
