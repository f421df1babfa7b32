import GvsocPulp.MempoolXbar.Channel

/-!
# The queues of the MemPool crossbar

What the front of an input is at (`Phase`), what goes with it at the input (`InputOk`) and between inputs, outputs and
the handlers (`Links`), and what has become of every request (`Account`).

One lemma for each event, up to what is answered.
-/

namespace GvsocPulp.MempoolXbar

open Lib Function List Channel

variable {cfg : Config} {s t : Channel} {i j o r : Nat}

/-- What the request at the front of an input is at: not elected; elected, with its master being granted, or granted;
being sent; denied by its output. -/
inductive Phase
  | free
  | granting
  | elected
  | sending
  | stalled
  deriving DecidableEq, Repr

namespace Phase

def granted : Phase → Nat
  | .free => 0
  | _ => 1

def sent : Phase → Nat
  | .sending | .stalled => 1
  | _ => 0

/-- The bytes of the front have been subtracted. -/
def counted : Phase → Nat
  | .free | .granting => 0
  | _ => 1

end Phase

variable {req : Nat}

namespace Channel

def target (cfg : Config) (s : Channel) (req : Nat) : Nat := ((s.reqs[req]?).bind fun x => outputId cfg x.args).getD 0

/-- The arguments a request has been issued with. -/
def argsOf (s : Channel) (req : Nat) : List Arg := (s.reqs[req]?.map (·.args)).getD []

def queue (s : Channel) (i : Nat) : List Nat := (s.inputs i).pendingReqs ++ (s.inputs i).deniedReqs

theorem target_of_argsOf {out : Nat} (h : outputId cfg (s.argsOf req) = some out) : s.target cfg req = out := by
  rw [argsOf] at h
  rw [target]
  cases hreq : s.reqs[req]? with
  | some x =>
    rw [hreq] at h
    exact congrArg (·.getD 0) h
  | none =>
    cases hsel : cfg.useSelector <;> simp [hreq, outputId, hsel] at h
    exact h

end Channel

/-- The requests of an input, and what it records of them. -/
structure InputOk (cfg : Config) (s : Channel) (i : Nat) (ph : Phase) : Prop where
  arrived : onLane i s.arrived = onLane i s.accepted ++ s.queue i
  granted : onLane (some i) s.granted = onLane i s.accepted ++ (s.inputs i).pendingReqs.take ph.granted
  sent : onLane i s.sent =
    (onLane i s.accepted ++ (s.inputs i).pendingReqs.take ph.sent).map fun req => (s.target cfg req, req)
  busy : ph ≠ .free → (s.inputs i).pendingReqs ≠ [] ∧ (s.inputs i).arbitrationLock = true
  lock : (s.inputs i).arbitrationLock = true → ∃ req rest, (s.inputs i).pendingReqs = req :: rest ∧
    (s.inputs i).pendingMapping = s.target cfg req
  size : (s.inputs i).pendingSize = BitVec.ofNat 32 (((s.inputs i).pendingReqs.drop ph.counted).map s.size).sum
  /-- Requests are denied while the FIFO is full, or while the front is about to be sent. -/
  backlog : (s.inputs i).deniedReqs ≠ [] → cfg.maxPending ≤ (s.inputs i).pendingSize.toInt ∨ ph = .granting ∨
    ph = .elected
  stalled : (s.inputs i).stalled = true ↔ ph = .stalled
  queued : ∀ req ∈ (s.inputs i).pendingReqs.drop ph.sent ++ (s.inputs i).deniedReqs, s.respPort req = some i
  fresh :
    ∀ req ∈ (s.inputs i).pendingReqs.drop (if (s.inputs i).arbitrationLock then 1 else 0) ++ (s.inputs i).deniedReqs,
    s.args req = s.argsOf req
  front : ph.sent = 1 → ∀ req rest, (s.inputs i).pendingReqs = req :: rest → Channel.portOf (s.args req) = some i

/-- The inputs, the outputs and the handlers go together. -/
structure Links (s : Channel) (ph : Nat → Phase) : Prop where
  elected : ∀ o i, (s.entries o).electedInput = some i ↔
    (ph i = .granting ∨ ph i = .elected) ∧ (s.inputs i).pendingMapping = o
  stalled : ∀ o, (s.entries o).stalled = true →
    ph (s.entries o).stalledPort = .stalled ∧ (s.inputs (s.entries o).stalledPort).pendingMapping = o
  stalledOut : ∀ i, ph i = .stalled → (s.entries (s.inputs i).pendingMapping).stalled = true ∧
    (s.entries (s.inputs i).pendingMapping).stalledPort = i
  granting : ∀ i, ph i = .granting ↔ ∃ k req, s.pc = .granting k i req
  grantingFront : ∀ k i req, s.pc = .granting k i req → ∃ rest, (s.inputs i).pendingReqs = req :: rest
  sending : ∀ i, ph i = .sending ↔ ∃ o req, s.pc = .sending o i req
  sendingFront : ∀ o i req, s.pc = .sending o i req → (∃ rest, (s.inputs i).pendingReqs = req :: rest) ∧
    (s.inputs i).pendingMapping = o ∧ (s.entries o).stalled = false

/-- Every request is known, and answered on its port; handlers run while there is something to do. -/
structure Account (cfg : Config) (s : Channel) : Prop where
  numbers : s.arrived.map (·.2) = List.range s.reqs.length
  ports : ∀ i req, (i, req) ∈ s.arrived → i < cfg.nbInputPort
  grantedPorts : ∀ x ∈ s.granted, x.1 ≠ none
  count : ∀ req, (s.accepted.map (·.2)).count req =
    s.inFlight.count req + s.endedReqs.count req + (s.answered.map (·.2)).count req
  owed : ∀ req ∈ s.inFlight ++ s.endedReqs, ∃ i, (i, req) ∈ s.accepted ∧ Channel.portOf (s.args req) = some i
  answered : ∀ x ∈ s.answered, ∃ i, x.1 = some i ∧ (i, x.2) ∈ s.accepted
  once : (s.accepted.map (·.2)).Nodup
  due : ∀ cycle, s.arbiterEvent = some cycle ∨ s.fsmEvent = some cycle → s.cycle ≤ cycle
  wake : s.pc = .idle → ((∃ i, (s.inputs i).pendingReqs ≠ []) ∨ s.endedReqs ≠ []) →
    s.arbiterEvent ≠ none ∨ s.fsmEvent ≠ none

structure Inv (cfg : Config) (s : Channel) (ph : Nat → Phase) : Prop where
  input : ∀ i, InputOk cfg s i (ph i)
  links : Links s ph
  account : Account cfg s

/-! ## Requests by number -/

theorem onLane_concat_self {α : Type} (a : α) (xs : List (Nat × α)) :
    onLane i (xs ++ [(i, a)]) = onLane i xs ++ [a] := by
  rw [onLane_append, onLane_cons_self, onLane_nil]

theorem onLane_concat_ne {α ι : Type} [DecidableEq ι] {k l : ι} (h : l ≠ k) (a : α) (xs : List (ι × α)) :
    onLane k (xs ++ [(l, a)]) = onLane k xs := by
  rw [onLane_append, onLane_singleton_ne h, append_nil]

namespace Account

variable (h : Account cfg s)
include h

theorem nodup : (s.arrived.map (·.2)).Nodup := h.numbers ▸ nodup_range

theorem lt (hreq : (i, req) ∈ s.arrived) : req < s.reqs.length := by
  have hmem : req ∈ s.arrived.map (·.2) := List.mem_map_of_mem (f := (·.2)) hreq
  rw [h.numbers] at hmem
  exact mem_range.1 hmem

theorem port_unique (hi : (i, req) ∈ s.arrived) (hj : (j, req) ∈ s.arrived) : i = j :=
  congrArg Prod.fst (inj_on_of_nodup_map h.nodup hi hj rfl)

theorem lane_nodup (i : Nat) : (onLane i s.arrived).Nodup := by
  rw [onLane]
  exact h.nodup.sublist (filter_sublist.map _)

end Account

namespace InputOk

variable {ph : Phase}

section

variable (h : InputOk cfg s i ph)
include h

theorem mem_arrived (hreq : req ∈ s.queue i) : (i, req) ∈ s.arrived :=
  mem_onLane.1 (h.arrived ▸ mem_append_right _ hreq)

theorem accepted_arrived (hreq : (i, req) ∈ s.accepted) : (i, req) ∈ s.arrived :=
  mem_onLane.1 (h.arrived ▸ mem_append_left _ (mem_onLane.2 hreq))

theorem queue_nodup (ha : Account cfg s) : (s.queue i).Nodup :=
  (nodup_append.1 (h.arrived ▸ ha.lane_nodup i)).2.1

theorem not_accepted (ha : Account cfg s) (hreq : req ∈ s.queue i) :
    (i, req) ∉ s.accepted := fun hacc =>
  (nodup_append.1 (h.arrived ▸ ha.lane_nodup i)).2.2 req (mem_onLane.2 hacc) req hreq rfl

end

open Channel (queue)

theorem grow (h : InputOk cfg s i ph) (moved new : List Nat)
    (hpending : (t.inputs i).pendingReqs = (s.inputs i).pendingReqs ++ moved)
    (hdenied : moved ++ (t.inputs i).deniedReqs = (s.inputs i).deniedReqs ++ new)
    (hlock : (t.inputs i).arbitrationLock = (s.inputs i).arbitrationLock)
    (hmapping : (t.inputs i).pendingMapping = (s.inputs i).pendingMapping)
    (hstalled : (t.inputs i).stalled = (s.inputs i).stalled)
    (hsize : (t.inputs i).pendingSize = (s.inputs i).pendingSize + BitVec.ofNat 32 (moved.map t.size).sum)
    (hbacklog : (t.inputs i).deniedReqs ≠ [] →
      cfg.maxPending ≤ (t.inputs i).pendingSize.toInt ∨ ph = .granting ∨ ph = .elected)
    (harrived : onLane i t.arrived = onLane i s.arrived ++ new) (haccepted : onLane i t.accepted = onLane i s.accepted)
    (hgranted : onLane (some i) t.granted = onLane (some i) s.granted) (hsent : onLane i t.sent = onLane i s.sent)
    (hreqs : ∀ req, (i, req) ∈ s.arrived → t.reqs[req]? = s.reqs[req]?)
    (hargs : ∀ req ∈ s.queue i, t.args req = s.args req ∧ t.respPort req = s.respPort req)
    (hnew : ∀ req ∈ new, t.args req = t.argsOf req ∧ t.respPort req = some i) : InputOk cfg t i ph := by
  have hfit : ∀ k ≤ 1, (ph = .free → k = 0) → k ≤ (s.inputs i).pendingReqs.length := fun k hk hfree => by
    by_cases hph : ph = .free
    · rw [hfree hph]
      exact Nat.zero_le _
    · exact hk.trans (length_pos_iff.2 (h.busy hph).1)
  have hmem : ∀ req ∈ (s.inputs i).pendingReqs, req ∈ s.queue i := fun req hreq => mem_append_left _ hreq
  have htarget : ∀ req, (i, req) ∈ s.arrived → t.target cfg req = s.target cfg req := fun req hreq => by
    rw [target, target, hreqs req hreq]
  -- what waits behind the first `k` requests is what waited there, or new
  have htail : ∀ k ≤ (s.inputs i).pendingReqs.length, (t.inputs i).pendingReqs.drop k ++ (t.inputs i).deniedReqs =
      (s.inputs i).pendingReqs.drop k ++ (s.inputs i).deniedReqs ++ new := fun k hk => by
    rw [hpending, drop_append_of_le_length hk, append_assoc, hdenied, append_assoc]
  have hdrop : ∀ {k : Nat}, ∀ req ∈ (s.inputs i).pendingReqs.drop k ++ (s.inputs i).deniedReqs, req ∈ s.queue i :=
    fun req hreq => (mem_append.1 hreq).elim (fun hreq => hmem req (mem_of_mem_drop hreq))
      (mem_append_right _)
  have hfront : (s.inputs i).arbitrationLock = true ∨ ph ≠ .free → ∃ req rest, (s.inputs i).pendingReqs = req :: rest :=
    fun hlock => hlock.elim (fun hlock => (h.lock hlock).imp fun req => Exists.imp fun rest hfront => hfront.1)
      fun hph => exists_cons_of_ne_nil (h.busy hph).1
  refine ⟨?_, ?_, ?_, fun hph => ?_, fun hlocked => ?_, ?_, hbacklog, ?_, fun req hreq => ?_, fun req hreq => ?_,
    fun hph req rest hcons => ?_⟩
  · rw [harrived, haccepted, queue, hpending, append_assoc, hdenied, h.arrived, queue]
    simp
  · rw [hgranted, haccepted, hpending, h.granted, take_append_of_le_length]
    exact hfit _ (by cases ph <;> decide) fun hph => by rw [hph]; rfl
  · rw [hsent, haccepted, hpending, h.sent, take_append_of_le_length]
    · refine map_congr_left fun req hreq => ?_
      rw [htarget req]
      rcases mem_append.1 hreq with hreq | hreq
      · exact h.accepted_arrived (mem_onLane.1 hreq)
      · exact h.mem_arrived (hmem req (mem_of_mem_take hreq))
    · exact hfit _ (by cases ph <;> decide) fun hph => by rw [hph]; rfl
  · rw [hpending, hlock]
    exact ⟨append_ne_nil_of_left_ne_nil (h.busy hph).1 _, (h.busy hph).2⟩
  · rw [hlock] at hlocked
    obtain ⟨req, rest, hcons, htargeted⟩ := h.lock hlocked
    refine ⟨req, rest ++ moved, by rw [hpending, hcons]; rfl, ?_⟩
    rw [hmapping, htargeted, htarget req (h.mem_arrived (hmem req (by rw [hcons]; exact mem_cons_self)))]
  · have hsizes : ((s.inputs i).pendingReqs.drop ph.counted).map t.size =
        ((s.inputs i).pendingReqs.drop ph.counted).map s.size := map_congr_left fun req hreq => by
      rw [Channel.size, Channel.size, hreqs req (h.mem_arrived (hmem req (mem_of_mem_drop hreq)))]
    rw [hsize, h.size, hpending, drop_append_of_le_length, map_append, hsizes, List.sum_append,
      BitVec.ofNat_add]
    exact hfit _ (by cases ph <;> decide) fun hph => by rw [hph]; rfl
  · rw [hstalled]
    exact h.stalled
  · rw [htail _ (hfit _ (by cases ph <;> decide) fun hph => by rw [hph]; rfl)] at hreq
    rcases mem_append.1 hreq with hreq | hreq
    · rw [(hargs req (hdrop req hreq)).2]
      exact h.queued req hreq
    · exact (hnew req hreq).2
  · rw [htail] at hreq
    · rcases mem_append.1 hreq with hreq | hreq
      · rw [hlock] at hreq
        rw [(hargs req (hdrop req hreq)).1, argsOf, hreqs req (h.mem_arrived (hdrop req hreq))]
        exact h.fresh req hreq
      · exact (hnew req hreq).1
    · split
      · obtain ⟨req, rest, hcons⟩ := hfront (.inl (hlock ▸ ‹_›))
        rw [hcons]
        exact Nat.le_add_left 1 _
      · exact Nat.zero_le _
  · obtain ⟨req', rest', hcons'⟩ := hfront (.inr fun hfree => by rw [hfree] at hph; cases hph)
    rw [hpending, hcons', cons_append, cons.injEq] at hcons
    obtain ⟨rfl, -⟩ := hcons
    rw [(hargs req' (hmem req' (by rw [hcons']; exact mem_cons_self))).1]
    exact h.front hph req' rest' hcons'

theorem frame (h : InputOk cfg s i ph) (hport : t.inputs i = s.inputs i)
    (harrived : onLane i t.arrived = onLane i s.arrived) (haccepted : onLane i t.accepted = onLane i s.accepted)
    (hgranted : onLane (some i) t.granted = onLane (some i) s.granted) (hsent : onLane i t.sent = onLane i s.sent)
    (hreqs : ∀ req, (i, req) ∈ s.arrived → t.reqs[req]? = s.reqs[req]?)
    (hargs : ∀ req ∈ s.queue i, t.args req = s.args req ∧ t.respPort req = s.respPort req) : InputOk cfg t i ph :=
  h.grow [] [] (by rw [hport, append_nil]) (by rw [hport, append_nil, nil_append])
    (by rw [hport]) (by rw [hport]) (by rw [hport]) (by rw [hport]; simp) (by rw [hport]; exact h.backlog)
    (by rw [harrived, append_nil]) haccepted hgranted hsent hreqs hargs nofun

variable {rest : List Nat}

theorem lockFront (h : InputOk cfg s i ph) {out : Nat} {args : Nat → List Arg}
    (hcons : (s.inputs i).pendingReqs = req :: rest) (hfree : (s.inputs i).arbitrationLock = false)
    (hout : outputId cfg (s.args req) = some out) (hargs : ∀ r, r ≠ req → args r = s.args r)
    (hnd : (s.queue i).Nodup) :
    InputOk cfg { s.setInput i { s.inputs i with arbitrationLock := true, pendingMapping := out } with args := args } i
      ph := by
  have hph : ph = .free := by
    by_contra hne
    rw [(h.busy hne).2] at hfree
    cases hfree
  subst hph
  have hport : (update s.inputs i { s.inputs i with arbitrationLock := true, pendingMapping := out }) i =
      { s.inputs i with arbitrationLock := true, pendingMapping := out } := update_self ..
  have hissued := h.fresh req (by rw [hfree, hcons]; exact mem_cons_self)
  refine ⟨?_, ?_, ?_, nofun, fun _ => ⟨req, rest, ?_, ?_⟩, ?_, ?_, ?_, fun r hr => ?_, fun r hr => ?_, nofun⟩ <;>
    simp only [setInput, queue, hport] at *
  · exact h.arrived
  · exact h.granted
  · exact h.sent
  · exact hcons
  · rw [hissued] at hout
    exact (target_of_argsOf hout).symm
  · exact h.size
  · exact h.backlog
  · exact h.stalled
  · exact h.queued r hr
  · have hrest : r ∈ rest ++ (s.inputs i).deniedReqs := by rwa [hcons] at hr
    have hne : r ≠ req := by
      rw [hcons, cons_append, nodup_cons] at hnd
      exact fun he => hnd.1 (he ▸ hrest)
    rw [hargs r hne]
    exact h.fresh r (by rw [hfree, hcons]; exact mem_cons_of_mem _ hrest)

theorem elect (h : InputOk cfg s i .free) (hcons : (s.inputs i).pendingReqs = req :: rest)
    (hlock : (s.inputs i).arbitrationLock = true) :
    InputOk cfg { s with granted := s.granted ++ [(s.respPort req, req)] } i .granting := by
  refine { h with
    granted := ?_, busy := fun _ => ⟨by rw [hcons]; exact cons_ne_nil _ _, hlock⟩, backlog := fun _ => .inr (.inl rfl)
    stalled := ?_, front := nofun }
  · change onLane (some i) (s.granted ++ _) = _
    rw [h.queued req (by rw [hcons]; exact mem_cons_self), onLane_append, h.granted, hcons]
    simp [Phase.granted]
  · rw [h.stalled]
    simp

theorem count (h : InputOk cfg s i .granting) {next : Nat} (hcons : (s.inputs i).pendingReqs = req :: rest) :
    InputOk cfg (s.setInput i { s.inputs i with
      pendingSize := (s.inputs i).pendingSize - BitVec.ofNat 32 (s.size req), nextBurstCycle := next }) i .elected := by
  have hok : InputOk cfg { s with inputs := fun _ => { s.inputs i with
      pendingSize := (s.inputs i).pendingSize - BitVec.ofNat 32 (s.size req), nextBurstCycle := next } } i
        .elected := by
    refine { h with
      busy := fun _ => h.busy nofun, size := ?_, backlog := fun _ => .inr (.inr rfl), stalled := ?_, front := nofun }
    · have hsize := h.size
      simp only [hcons, Phase.counted, drop_zero, map_cons, sum_cons, BitVec.ofNat_add] at hsize ⊢
      rw [hsize, BitVec.add_comm, BitVec.add_sub_cancel]
      rfl
    · rw [h.stalled]
      simp
  exact hok.frame (update_self ..) rfl rfl rfl rfl (fun _ _ => rfl) fun _ _ => ⟨rfl, rfl⟩

theorem send (h : InputOk cfg s i .elected) (hcons : (s.inputs i).pendingReqs = req :: rest)
    (hbacklog : (s.inputs i).deniedReqs ≠ [] → cfg.maxPending ≤ (s.inputs i).pendingSize.toInt)
      (hnd : (s.queue i).Nodup) :
    InputOk cfg { s with
      sent := s.sent ++ [(i, (s.inputs i).pendingMapping, req)]
      args := update s.args req (((s.respPort req).elim (.other 0) .port) :: s.args req)
      respPort := update s.respPort req none } i .sending := by
  have hlock := (h.busy nofun).2
  obtain ⟨req', rest', hcons', hmapping⟩ := h.lock hlock
  rw [hcons] at hcons'
  obtain ⟨rfl, rfl⟩ := cons.inj hcons'
  have hrest : ∀ r ∈ rest ++ (s.inputs i).deniedReqs, r ≠ req := fun r hr he => by
    rw [queue, hcons, cons_append, nodup_cons] at hnd
    exact hnd.1 (he ▸ hr)
  refine { h with
    sent := ?_, busy := fun _ => h.busy nofun, backlog := fun hdenied => .inl (hbacklog hdenied), stalled := ?_
    queued := fun r hr => ?_, fresh := fun r hr => ?_, front := fun _ r rs hr => ?_ }
  · change onLane i (s.sent ++ _) = (onLane i s.accepted ++ (s.inputs i).pendingReqs.take 1).map fun req =>
      (s.target cfg req, req)
    rw [onLane_append, h.sent, hcons, hmapping]
    simp [Phase.sent]
  · rw [h.stalled]
    simp
  · change r ∈ (s.inputs i).pendingReqs.drop 1 ++ _ at hr
    rw [hcons] at hr
    change update s.respPort req none r = some i
    rw [update_of_ne (hrest r hr)]
    exact h.queued r (by rw [hcons]; exact mem_cons_of_mem _ hr)
  · have hold := h.fresh r hr
    change r ∈ (s.inputs i).pendingReqs.drop (if (s.inputs i).arbitrationLock then 1 else 0) ++ _ at hr
    rw [hcons, hlock] at hr
    change update s.args req _ r = _
    rw [update_of_ne (hrest r hr)]
    exact hold
  · change (s.inputs i).pendingReqs = r :: rs at hr
    rw [hcons] at hr
    obtain ⟨rfl, -⟩ := cons.inj hr
    change portOf (update s.args req _ req) = _
    rw [update_self, h.queued req (by rw [hcons]; exact mem_cons_self)]
    rfl

theorem deny (h : InputOk cfg s i .sending) {stalled : Bool} (hstalled : stalled = true) :
    InputOk cfg (s.setInput i { s.inputs i with stalled := stalled }) i .stalled := by
  have hok : InputOk cfg { s with inputs := fun _ => { s.inputs i with stalled := stalled } } i .stalled := { h with
    busy := fun _ => h.busy nofun
    backlog := fun hdenied => .inl ((h.backlog hdenied).resolve_right (by simp))
    stalled := iff_of_true hstalled rfl }
  exact hok.frame (update_self ..) rfl rfl rfl rfl (fun _ _ => rfl) fun _ _ => ⟨rfl, rfl⟩

theorem pop (h : InputOk cfg s i ph) (hph : ph.sent = 1) (hcons : (s.inputs i).pendingReqs = req :: rest) :
    InputOk cfg { s with
      inputs := fun _ => { s.inputs i with pendingReqs := rest, arbitrationLock := false, stalled := false }
      accepted := s.accepted ++ [(i, req)] } i .free := by
  have hphase : ph.granted = 1 ∧ ph.counted = 1 ∧ ph ≠ .free ∧ ph ≠ .granting ∧ ph ≠ .elected := by
    cases ph with
    | sending | stalled => decide
    | free | granting | elected => cases hph
  obtain ⟨hg, hc, hfree, hgranting, helected⟩ := hphase
  have hlock := (h.busy hfree).2
  obtain ⟨harrived, hgranted, hsent, -, -, hbytes, hbacklog, -, hqueued, hfresh, -⟩ := h
  rw [queue] at harrived
  rw [hg] at hgranted
  rw [hph] at hsent hqueued
  rw [hc] at hbytes
  rw [hlock] at hfresh
  rw [hcons] at harrived hgranted hsent hbytes hqueued hfresh
  refine ⟨?_, ?_, ?_, by simp, nofun, hbytes, fun hdenied => ?_, by simp, hqueued, hfresh, nofun⟩
  · rw [onLane_concat_self, harrived, queue]
    simp
  · rw [onLane_concat_self, hgranted]
    simp [Phase.granted]
  · change _ = map (fun req => (s.target cfg req, req)) _
    rw [onLane_concat_self, hsent]
    simp [Phase.sent]
  · exact .inl ((hbacklog hdenied).resolve_right fun hor => hor.elim hgranting helected)

end InputOk

end GvsocPulp.MempoolXbar
