import GvsocPulp.MempoolXbar.Steps

/-!
# Every request is granted, sent and answered once

What `MempoolXbar` promises in every state of a run (`Exact`), and when it keeps it: as long as no output answers a
request with `IO_REQ_INVALID` from the call. `fsm_handler` takes such a request out of its FIFO and ends it for
`IO_REQ_OK` only.
-/

namespace GvsocPulp.MempoolXbar

open Lib Function List Option Channel

variable {cfg : Config} {s t : Channel} {ph : Nat → Phase} {i : Nat}

namespace Channel

/-- The requests in the FIFO of an input that have not been elected; an election grants the request. -/
def notElected (s : Channel) (i : Nat) : List Nat :=
    (s.inputs i).pendingReqs.filter fun req => (some i, req) ∉ s.granted

end Channel

/-- The requests have numbers of their own; an input grants a first part of what has arrived, and sends a first part of
it, in the order of arrival. -/
structure Exact (cfg : Config) (s : Channel) : Prop where
  numbers : (s.arrived.map (·.2)).Nodup
  granted : ∀ i, onLane (some i) s.granted <+: onLane i s.arrived
  grantedPorts : ∀ x ∈ s.granted, x.1 ≠ none
  sent : ∀ i, onLane i s.sent <+: (onLane i s.arrived).map fun req => (s.target cfg req, req)
  /-- A request that does not wait has been granted and sent. -/
  handled : ∀ i req, (i, req) ∈ s.arrived → req ∈ s.queue i ∨ (some i, req) ∈ s.granted ∧
    (i, s.target cfg req, req) ∈ s.sent
  /-- It waits, or the output has it, or its answer is delayed, or it has been answered on its port. -/
  once : ∀ i req, (i, req) ∈ s.arrived → (s.queue i).count req + s.inFlight.count req + s.endedReqs.count req +
    (onLane (some i) s.answered).count req = 1
  answered : ∀ x ∈ s.answered, ∃ i, x.1 = some i ∧ (i, x.2) ∈ s.arrived ∧ x ∈ s.granted
  /-- `pending_size` is an `int`. -/
  pendingSize : s.pc = .idle → ∀ i, (s.inputs i).pendingSize = BitVec.ofNat 32 ((s.notElected i).map s.size).sum
  wake : s.pc = .idle → (∃ i, s.queue i ≠ []) ∨ s.endedReqs ≠ [] →
    ∃ due, s.cycle ≤ due ∧ (s.arbiterEvent = some due ∨ s.fsmEvent = some due)

theorem Config.maxPending_pos (cfg : Config) : 0 < cfg.maxPending := by
  rw [Config.maxPending]
  split <;> omega

namespace Inv

variable (h : Inv cfg s ph)
include h

theorem pending_of_queue (hi : s.queue i ≠ []) : (s.inputs i).pendingReqs ≠ [] := by
  intro hnil
  have hdenied : (s.inputs i).deniedReqs ≠ [] := by rwa [queue, hnil] at hi
  have hbusy : ph i = .free := by
    by_contra hne
    exact ((h.input i).busy hne).1 hnil
  have hsize := (h.input i).size
  have hpos := cfg.maxPending_pos
  rw [hnil, drop_nil, map_nil, sum_nil] at hsize
  rcases (h.input i).backlog hdenied with hfull | hph | hph
  · rw [hsize] at hfull
    exact absurd hpos (Int.not_lt.2 hfull)
  · rw [hbusy] at hph
    cases hph
  · rw [hbusy] at hph
    cases hph

theorem notElected_eq (i : Nat) : s.notElected i = (s.inputs i).pendingReqs.drop (ph i).granted := by
  have hnd : (s.inputs i).pendingReqs.Nodup := (nodup_append.1 ((h.input i).queue_nodup h.account)).1
  rw [← take_append_drop (ph i).granted (s.inputs i).pendingReqs, nodup_append] at hnd
  have hmem : ∀ req ∈ (s.inputs i).pendingReqs,
      (some i, req) ∈ s.granted ↔ req ∈ (s.inputs i).pendingReqs.take (ph i).granted := fun req hreq => by
    rw [← mem_onLane, (h.input i).granted, mem_append]
    exact or_iff_right fun hacc => (h.input i).not_accepted h.account (mem_append_left _ hreq) (mem_onLane.1 hacc)
  rw [notElected]
  conv_lhs => rw [← take_append_drop (ph i).granted (s.inputs i).pendingReqs]
  rw [filter_append, filter_eq_nil_iff.2 fun req hreq => ?_, filter_eq_self.2 fun req hreq => ?_, nil_append]
  · rw [decide_eq_true_eq, hmem req (mem_of_mem_drop hreq)]
    exact fun htake => hnd.2.2 req htake req hreq rfl
  · rw [decide_eq_true_eq, not_not, hmem req (mem_of_mem_take hreq)]
    exact hreq

theorem count_answered {req : Nat} (hreq : (i, req) ∈ s.arrived) :
    (onLane (some i) s.answered).count req = (s.answered.map (·.2)).count req := by
  refine count_onLane fun x hx he => ?_
  obtain ⟨j, hj, hacc⟩ := h.account.answered x hx
  rw [he] at hacc
  rw [hj, h.account.port_unique ((h.input j).accepted_arrived hacc) hreq]

theorem count_accepted {req : Nat} (hreq : (i, req) ∈ s.arrived) :
    (onLane i s.accepted).count req = (s.accepted.map (·.2)).count req := by
  refine count_onLane fun x hx he => ?_
  obtain ⟨j, r⟩ := x
  subst he
  exact h.account.port_unique ((h.input j).accepted_arrived hx) hreq

theorem exact : Exact cfg s where
  numbers := h.account.nodup
  granted i := by
    rw [(h.input i).granted, (h.input i).arrived, queue]
    exact (prefix_append_right_inj _).2 ((List.take_prefix _ _).trans (prefix_append _ _))
  grantedPorts := h.account.grantedPorts
  sent i := by
    rw [(h.input i).sent, (h.input i).arrived, queue]
    exact ((prefix_append_right_inj _).2 ((List.take_prefix _ _).trans (prefix_append _ _))).map _
  handled i req hreq := by
    have hlane := mem_onLane.2 hreq
    rw [(h.input i).arrived, mem_append] at hlane
    refine hlane.symm.imp_right fun hacc => ⟨mem_onLane.1 ?_, mem_onLane.1 ?_⟩
    · rw [(h.input i).granted]
      exact mem_append_left _ hacc
    · rw [(h.input i).sent]
      exact List.mem_map.2 ⟨req, mem_append_left _ hacc, rfl⟩
  once i req hreq := by
    have harrived : (onLane i s.arrived).count req = 1 :=
      count_eq_one_of_mem (h.account.lane_nodup i) (mem_onLane.2 hreq)
    rw [(h.input i).arrived, count_append, h.count_accepted hreq, h.account.count req,
      ← h.count_answered hreq] at harrived
    omega
  answered x hx := by
    obtain ⟨i, hi, hacc⟩ := h.account.answered x hx
    refine ⟨i, hi, (h.input i).accepted_arrived hacc, ?_⟩
    have hlane : (some i, x.2) ∈ s.granted := mem_onLane.1 (by
      rw [(h.input i).granted]
      exact mem_append_left _ (mem_onLane.2 hacc))
    rwa [← hi] at hlane
  pendingSize hidle i := by
    have hphase : (ph i).counted = (ph i).granted := by
      cases hph : ph i with
      | free | elected | stalled => rfl
      | granting =>
        obtain ⟨k, req, he⟩ := (h.links.granting i).1 hph
        rw [hidle] at he
        cases he
      | sending =>
        obtain ⟨o, req, he⟩ := (h.links.sending i).1 hph
        rw [hidle] at he
        cases he
    rw [h.notElected_eq, (h.input i).size, hphase]
  wake hidle hwaiting := by
    have hevent := h.account.wake hidle (hwaiting.imp_left (Exists.imp fun _ => h.pending_of_queue))
    rcases hevent with hevent | hevent
    · obtain ⟨due, hdue⟩ := ne_none_iff_exists'.1 hevent
      exact ⟨due, h.account.due due (.inl hdue), .inl hdue⟩
    · obtain ⟨due, hdue⟩ := ne_none_iff_exists'.1 hevent
      exact ⟨due, h.account.due due (.inr hdue), .inr hdue⟩

/-- A request that is answered with `IO_REQ_INVALID` from the call leaves its input for nowhere. -/
theorem invalid_lost {o req latency : Nat} (hpc : s.pc = .sending o i req) :
    ¬Exact cfg (s.reqReturn o i req .invalid latency) := by
  intro hexact
  obtain ⟨⟨rest, hcons⟩, -, -⟩ := h.links.sendingFront o i req hpc
  have hwaits := head_mem_queue hcons
  have honce := hexact.once i req ((h.input i).mem_arrived hwaits)
  have hnd := (h.input i).queue_nodup h.account
  rw [queue, hcons, cons_append, nodup_cons] at hnd
  have hqueue : (rest ++ (s.inputs i).deniedReqs).count req = 0 := List.count_eq_zero.2 hnd.1
  have haccepted : (s.accepted.map (·.2)).count req = 0 := List.count_eq_zero.2 fun hmem => by
    obtain ⟨⟨j, r⟩, hacc, rfl⟩ := List.mem_map.1 hmem
    exact h.ne_of_accepted hacc hwaits rfl
  have hcount := h.account.count req
  have hanswered := h.count_answered ((h.input i).mem_arrived hwaits)
  simp only [Channel.reqReturn, Channel.handleReqGrant, Channel.setInput, Channel.queue, update_self, hcons,
    tail_cons] at honce
  omega

end Inv

theorem inv_initial : Inv cfg {} fun _ => .free where
  input i := by constructor <;> simp [queue, Phase.granted, Phase.sent]
  links := by constructor <;> simp
  account := by constructor <;> simp

/-- What no output may do. -/
def XbarEvent.isInvalid : XbarEvent → Bool
  | .channel _ (.reqReturn .invalid _) => true
  | _ => false

/-- A step keeps every request iff no output answers with `IO_REQ_INVALID` in it. -/
theorem xbar_step {s t : Xbar} {e : XbarEvent} (h : ∀ c, ∃ ph, Inv cfg (s.channels c) ph)
    (hstep : step cfg s e = some t) :
    ((∀ c, Exact cfg (t.channels c)) ↔ e.isInvalid = false) ∧
      (e.isInvalid = false → ∀ c, ∃ ph, Inv cfg (t.channels c) ph) := by
  have hkept : e.isInvalid = false → ∀ c, ∃ ph, Inv cfg (t.channels c) ph := by
    intro hvalid c
    cases e with
    | channel isWrite event =>
      obtain ⟨u, hu, rfl⟩ := map_eq_some_iff.1 hstep
      change ∃ ph, Inv cfg (update s.channels (channelOf cfg isWrite) u c) ph
      rw [update_apply]
      split
      · obtain ⟨ph, hph⟩ := h (channelOf cfg isWrite)
        exact hph.step (fun latency he => by rw [he] at hvalid; cases hvalid) hu
      · exact h c
    | tick =>
      simp only [step, bind_eq_bind, bind_eq_some_iff, Option.pure_def, Option.some.injEq] at hstep
      obtain ⟨reads, hreads, writes, hwrites, rfl⟩ := hstep
      cases c with
      | false => exact (h false).imp fun ph hph => hph.tick hreads
      | true => exact (h true).imp fun ph hph => hph.tick hwrites
  refine ⟨⟨fun hall => ?_, fun hvalid c => ?_⟩, hkept⟩
  · rw [Bool.eq_false_iff]
    intro hinvalid
    unfold XbarEvent.isInvalid at hinvalid
    split at hinvalid
    · rename_i isWrite latency
      obtain ⟨u, hu, rfl⟩ := map_eq_some_iff.1 hstep
      obtain ⟨ph, hph⟩ := h (channelOf cfg isWrite)
      have hexact : Exact cfg (update s.channels (channelOf cfg isWrite) u (channelOf cfg isWrite)) := hall _
      rw [update_self] at hexact
      rw [Channel.step] at hu
      split at hu
      · cases hu
        exact hph.invalid_lost ‹_› hexact
      · cases hu
    · cases hinvalid
  · obtain ⟨ph, hph⟩ := hkept hvalid c
    exact hph.exact

/-- **No request is lost or duplicated**, in the runs in which no output answers with `IO_REQ_INVALID` from its call,
and in no others. -/
theorem xbar_exact (cfg : Config) (es : List XbarEvent) :
    AllStates (step cfg) (fun s => ∀ c, Exact cfg (s.channels c)) {} es ↔
      AllSteps (step cfg) (fun _ e => e.isInvalid = false) {} es :=
  allStates_iff (I := fun s => ∀ c, ∃ ph, Inv cfg (s.channels c) ph)
    (fun _ h c => (h c).elim fun _ hph => hph.exact)
    (fun _ _ _ h hstep => (xbar_step h hstep).1)
    (fun _ _ _ h hstep hexact => (xbar_step h hstep).2 ((xbar_step h hstep).1.1 hexact))
    fun _ => ⟨_, inv_initial⟩

def oneByOne : Config where
  nbInputPort := 1
  nbOutputPort := 1
  bandwidth := 0
  latency := 1
  useSelector := false
  sharedRwBandwidth := true
  maxInputPendingSize := 0

/-- A request of 4 bytes, which the output answers with `IO_REQ_INVALID`. -/
def invalidAnswer : List XbarEvent :=
  [.channel false (.handleReq ⟨0, 4, []⟩), .channel false .arbiter, .channel false .input, .channel false .grantReturn,
    .channel false .input, .tick, .channel false .fsm, .channel false .endedDone, .channel false .output,
    .channel false (.reqReturn .invalid 0), .channel false .output]

/-- **It is never answered**: nothing waits, nothing is in flight and no event is enqueued. -/
theorem invalid_unanswered : ∃ s, run (step oneByOne) {} invalidAnswer = some s ∧
    (s.channels false).answered = [] ∧ ¬AllStates (step oneByOne) (fun s => ∀ c, Exact oneByOne (s.channels c))
      {} invalidAnswer := by
  have h : (run (step oneByOne) {} invalidAnswer).map (fun s =>
      ((s.channels false).answered, (s.channels false).arrived, (s.channels false).queue 0, (s.channels false).inFlight,
        (s.channels false).endedReqs)) = some ([], [(0, 0)], [], [], []) := by decide +kernel
  obtain ⟨s, hs, hlogs⟩ := map_eq_some_iff.1 h
  simp only [Prod.mk.injEq] at hlogs
  obtain ⟨hanswered, harrived, hqueue, hflight, hended⟩ := hlogs
  refine ⟨s, hs, hanswered, fun hall => ?_⟩
  have honce := (hall.final hs false).once 0 0 (by rw [harrived]; exact mem_cons_self)
  rw [hqueue, hflight, hended, hanswered] at honce
  cases honce

end GvsocPulp.MempoolXbar
