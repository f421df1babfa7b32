import GvsocPulp.Lib.Run
import GvsocPulp.TeranocL1.Live

/-!
# The requests that go to the TCDM

`handle_noc_req` and `fsm_handler` both send NoC requests to the TCDM. What the ports promise over a run
(`FlowControl`), which a port keeps as long as no request comes to it while it is stalled and its queue is empty.
-/

namespace GvsocPulp.TeranocL1

open Lib Function List Option Noc

variable {cfg : Config} {s t : Noc} {p q : Port} {k : Nat} {e : Event}

/-! ## What is seen at the ports -/

namespace Noc

/-- `handle_noc_req` queues what comes to the port. -/
def Holds (s : Noc) (p : Port) : Prop :=
  (¬(s.nocReqSlvs p).stalled ∧ s.cycle < (s.nocReqSlvs p).nextBurstCycle) ∨ (s.nocReqSlvs p).deniedReqs ≠ []

instance : Decidable (s.Holds p) := inferInstanceAs (Decidable (_ ∨ _))

/-- The packet that a step brings to a port. -/
def arrives (cfg : Config) (s : Noc) (e : Event) (p : Port) : List Nat :=
  match e with
  | .nocReq k port _ => if s.reqPort cfg k port = some p then [k] else []
  | _ => []

/-- The packet that a step sends from a port to the TCDM. -/
def sends (cfg : Config) (s : Noc) (e : Event) (p : Port) : List Nat :=
  match e, s.todo with
  | .nocReq k port _, _ => if s.reqPort cfg k port = some p ∧ ¬s.Holds p then [k] else []
  | .next .., .nocReqs q :: _ =>
    if q = p ∧ p.port < cfg.nbPorts ∧ (s.nocReqSlvs p).stalled = false ∧ (s.nocReqSlvs p).nextBurstCycle ≤ s.cycle then
      (s.nocReqSlvs p).deniedReqs.take 1
    else []
  | _, _ => []

/-- A NoC request comes to a port that is stalled, with nothing in its queue. -/
def overtakes (cfg : Config) (s : Noc) : Event → Bool
  | .nocReq k port _ => (s.reqPort cfg k port).any fun p =>
      (s.nocReqSlvs p).stalled && (s.nocReqSlvs p).deniedReqs.isEmpty
  | _ => false

end Noc

/-- A request to the TCDM, with the state of its port: `owed` is what the TCDM has denied and not granted yet. -/
structure TcdmReq where
  packet : Nat
  cycle : Nat
  nextBurstCycle : Nat
  owed : List Access

/-- The interfaces, with what has come to each port from the NoC and what has gone from it to the TCDM. -/
structure Watch where
  noc : Noc := {}
  arrived : Port → List Nat := fun _ => []
  sent : Port → List TcdmReq := fun _ => []

namespace Watch

/-- The state after an event, with what the event has brought and sent. -/
def log (cfg : Config) (w : Watch) (e : Event) (t : Noc) : Watch where
  noc := t
  arrived p := w.arrived p ++ w.noc.arrives cfg e p
  sent p := w.sent p ++ (w.noc.sends cfg e p).map fun k =>
    ⟨k, w.noc.cycle, (w.noc.nocReqSlvs p).nextBurstCycle, w.noc.tcdmDenied p⟩

def step (cfg : Config) (w : Watch) (e : Event) : Option Watch := (w.noc.step cfg e).map (w.log cfg e)

end Watch

/-- What has come to a port, `sent` of it to the TCDM, and the rest in its queue. -/
structure Paced (queue arrived : List Nat) (sent : List TcdmReq) : Prop where
  /-- Nothing is sent between a denial and its grant. -/
  free : ∀ x ∈ sent, x.owed = []
  paced : ∀ x ∈ sent, x.nextBurstCycle ≤ x.cycle
  once : sent.Pairwise fun x y => x.cycle < y.cycle
  order : sent.map (·.packet) ++ queue = arrived

/-- What the ports promise in every state of a run. -/
structure FlowControl (cfg : Config) (w : Watch) : Prop where
  paced : ∀ p, Paced (w.noc.nocReqSlvs p).deniedReqs (w.arrived p) (w.sent p)
  /-- Where a queue is not empty, the event is enqueued, or its handler is on the way to the port. -/
  live : ∀ p ∈ cfg.ports, (w.noc.nocReqSlvs p).deniedReqs ≠ [] →
    w.noc.fsmEvent p.tile ≠ none ∨ ∃ x ∈ w.noc.todo, x.Covers 1 p
  /-- Every request that the TCDM has had is among those that have been sent. -/
  all : ∀ x ∈ w.noc.performed, ∃ p, p.tile = x.1 ∧ x.2.packet ∈ (w.sent p).map (·.packet)

/-! ## What a step does to a port -/

/-- A step that leaves the ports of the NoC requests as they are. -/
def Same (s t : Noc) : Prop :=
  t.nocReqSlvs = s.nocReqSlvs ∧ t.tcdmDenied = s.tcdmDenied ∧ t.performed = s.performed ∧ s.cycle ≤ t.cycle ∧
    s.packets.length ≤ t.packets.length

namespace Same

theorem refl (s : Noc) : Same s s := ⟨rfl, rfl, rfl, le_rfl, le_rfl⟩

theorem sendNocReq (p : Port) (packet : Packet) (status : NocStatus) : Same s (s.sendNocReq p packet status) := by
  have hlength : s.packets.length ≤ (s.packets ++ [packet]).length := by simp
  cases status <;> exact ⟨rfl, rfl, rfl, le_rfl, hlength⟩

theorem handleCoreReq (p : Port) (addr size : Nat) (status : NocStatus) :
    Same s (s.handleCoreReq cfg p addr size status) := by
  rw [Noc.handleCoreReq]
  have hsent := sendNocReq (s := { s with
    reqs := s.reqs ++ [CoreReq.mk p addr size]
    respPorts := update s.respPorts s.reqs.length (.core p) }) p
    (toNocReq cfg p.tile s.reqs.length addr (some p.tile.id)) status
  split_ifs
  · exact refl s
  all_goals exact hsent

theorem nocReqGrant (p : Port) (k : Nat) : Same s (s.nocReqGrant p k) := by
  rw [Noc.nocReqGrant]
  split <;> exact refl s

theorem pushResp (p : Port) (k req : Nat) (port : RespPort) (size latency : Nat) :
    Same s (s.pushResp p k req port size latency).1 := by
  rw [Noc.pushResp]
  dsimp only
  split <;> exact refl s

theorem again {c : Prop} [Decidable c] (h : Same s t) : Same s (if c then t.enqueueFsm p.tile else t) := by
  split_ifs <;> exact h

theorem fsmCoreReq (p : Port) (status : NocStatus) : Same s (s.fsmCoreReq cfg p status) := by
  rw [Noc.fsmCoreReq]
  refine again ?_
  split
  · rename_i req _
    have hsent := sendNocReq (s := s.setCoreReqSlv p
      { s.coreReqSlvs p with deniedReqs := (s.coreReqSlvs p).deniedReqs.tail }) p
      (toNocReq cfg p.tile req (s.reqAddr req) none) status
    split_ifs <;> exact hsent
  · exact refl s

theorem fsmNocResp (p : Port) (ready : Bool) (status : NocStatus) : Same s (s.fsmNocResp p ready status) := by
  rw [Noc.fsmNocResp]
  refine again ?_
  split_ifs
  · split
    · cases status <;> exact refl s
    · exact refl s
  · exact refl s

end Same

/-- The request of a packet goes to the TCDM, which may deny it. -/
def Performs (s t : Noc) (p : Port) (k : Nat) : Prop :=
  ∃ next stalled owed a, s.cycle < next ∧ a.packet = k ∧ t.performed = s.performed ++ [(p.tile, a)] ∧
    t.nocReqSlvs = update s.nocReqSlvs p ⟨(s.nocReqSlvs p).deniedReqs, next, stalled⟩ ∧
    t.tcdmDenied = update s.tcdmDenied p owed ∧ t.packets = s.packets ∧
    (stalled = (s.nocReqSlvs p).stalled ∧ owed = s.tcdmDenied p ∨ stalled = true ∧ owed = s.tcdmDenied p ++ [a])

theorem performs_sendTcdm (hk : k < s.packets.length) (p : Port) (status : TcdmStatus) :
    Performs s (s.sendTcdm p k status) p k := by
  have hpacket := getElem?_eq_getElem hk
  cases status with
  | ok latency =>
    obtain ⟨next, limiter, hnext, hsend⟩ := sendTcdm_ok hpacket p latency
    rw [hsend]
    exact ⟨next, _, _, _, hnext, rfl, rfl, rfl, (update_eq_self ..).symm, rfl, .inl ⟨rfl, rfl⟩⟩
  | pending =>
    rw [sendTcdm, hpacket]
    exact ⟨_, _, _, _, Nat.lt_succ_self _, rfl, rfl, rfl, (update_eq_self ..).symm, rfl, .inl ⟨rfl, rfl⟩⟩
  | denied =>
    rw [sendTcdm, hpacket]
    refine ⟨s.cycle + 1, true, _, _, Nat.lt_succ_self _, rfl, rfl, ?_, rfl, rfl, .inr ⟨rfl, rfl⟩⟩
    simp [setNocReqSlv]

/-! ## The ports over a run -/

structure PortOk (input : InputPort) (owed : List Access) (packets : Nat) (arrived : List Nat)
    (sent : List TcdmReq) : Prop
    extends Paced input.deniedReqs arrived sent where
  packets : ∀ k ∈ input.deniedReqs, k < packets
  /-- A port is stalled for the one request that has been denied. -/
  owed : input.stalled = true ∧ (∃ a, owed = [a]) ∨ input.stalled = false ∧ owed = []
  before : ∀ x ∈ sent, x.cycle < input.nextBurstCycle

namespace PortOk

variable {input : InputPort} {owed : List Access} {packets : Nat} {arrived : List Nat} {sent : List TcdmReq}

variable (h : PortOk input owed packets arrived sent)
include h

theorem queue (hk : k < packets) :
    PortOk { input with deniedReqs := input.deniedReqs ++ [k] } owed packets (arrived ++ [k]) sent := by
  refine ⟨{ h with order := ?_ }, fun k' hk' => ?_, h.owed, h.before⟩
  · rw [← h.order, append_assoc]
  · rcases mem_append.1 hk' with hk' | hk'
    · exact h.packets k' hk'
    · exact mem_singleton.1 hk' ▸ hk

/-- What is sent was at the front of the queue, or has just come to an empty one. -/
theorem send {new rest : List Nat} {cycle next : Nat} {stalled : Bool}
    {owed' : List Access} {a : Access} (hstalled : input.stalled = false) (hnext : input.nextBurstCycle ≤ cycle)
    (hcycle : cycle < next) (hqueue : input.deniedReqs ++ new = k :: rest) (hrest : rest ⊆ input.deniedReqs)
    (howed : stalled = false ∧ owed' = owed ∨ stalled = true ∧ owed' = owed ++ [a]) :
    PortOk ⟨rest, next, stalled⟩ owed' packets (arrived ++ new) (sent ++ [⟨k, cycle, input.nextBurstCycle, owed⟩]) := by
  have hnil : owed = [] := by simpa [hstalled] using h.owed
  refine ⟨⟨fun x hx => ?_, fun x hx => ?_, ?_, ?_⟩, fun k hk => h.packets k (hrest hk), ?_, fun x hx => ?_⟩
  · rcases mem_append.1 hx with hx | hx
    · exact h.free x hx
    · exact mem_singleton.1 hx ▸ hnil
  · rcases mem_append.1 hx with hx | hx
    · exact h.paced x hx
    · exact mem_singleton.1 hx ▸ hnext
  · refine pairwise_append.2 ⟨h.once, pairwise_singleton .., fun x hx y hy => ?_⟩
    exact mem_singleton.1 hy ▸ (h.before x hx).trans_le hnext
  · rw [← h.order, append_assoc, hqueue]
    simp
  · rw [hnil] at howed
    exact howed.symm.imp (fun h => ⟨h.1, a, h.2⟩) id
  · rcases mem_append.1 hx with hx | hx
    · exact ((h.before x hx).trans_le hnext).trans hcycle
    · exact mem_singleton.1 hx ▸ hcycle

theorem grant {a : Access} (ha : a ∈ owed) :
    PortOk { input with stalled := false } (owed.erase a) packets arrived sent := by
  refine ⟨{ h with }, h.packets, .inr ⟨rfl, ?_⟩, h.before⟩
  rcases h.owed with ⟨-, b, rfl⟩ | ⟨-, rfl⟩
  · simp [mem_singleton.1 ha]
  · cases ha

end PortOk

structure Ports (w : Watch) : Prop where
  port : ∀ p, PortOk (w.noc.nocReqSlvs p) (w.noc.tcdmDenied p) w.noc.packets.length (w.arrived p) (w.sent p)
  all : ∀ x ∈ w.noc.performed, ∃ p, p.tile = x.1 ∧ x.2.packet ∈ (w.sent p).map (·.packet)

namespace Ports

variable {w : Watch}

theorem same (h : Ports w) (hsame : Same w.noc t) : Ports { w with noc := t } := by
  obtain ⟨hslvs, howed, hperformed, -, hpackets⟩ := hsame
  refine ⟨fun p => ?_, hperformed ▸ h.all⟩
  have hp := h.port p
  simp only [hslvs, howed]
  exact ⟨hp.toPaced, fun k hk => (hp.packets k hk).trans_le hpackets, hp.owed, hp.before⟩

theorem quiet (h : Ports { w with noc := t }) (harrives : ∀ q, w.noc.arrives cfg e q = [])
    (hsends : ∀ q, w.noc.sends cfg e q = []) : Ports (w.log cfg e t) := by
  simpa [Watch.log, harrives, hsends] using h

theorem again {c : Prop} [Decidable c] (h : Ports (w.log cfg e t)) :
    Ports (w.log cfg e (if c then t.enqueueFsm p.tile else t)) := by
  split_ifs
  · exact ⟨h.port, h.all⟩
  · exact h

theorem change (h : Ports w) {input : InputPort} {owed : List Access} (new sent : List Nat)
    (hslvs : t.nocReqSlvs = update w.noc.nocReqSlvs p input) (howed : t.tcdmDenied = update w.noc.tcdmDenied p owed)
    (hpackets : t.packets = w.noc.packets) (harrives : ∀ q, w.noc.arrives cfg e q = if q = p then new else [])
    (hsends : ∀ q, w.noc.sends cfg e q = if q = p then sent else [])
    (hport : PortOk input owed w.noc.packets.length (w.arrived p ++ new) (w.sent p ++ sent.map fun k =>
      ⟨k, w.noc.cycle, (w.noc.nocReqSlvs p).nextBurstCycle, w.noc.tcdmDenied p⟩))
    (hperformed : t.performed = w.noc.performed ∨ ∃ a, a.packet ∈ sent ∧
      t.performed = w.noc.performed ++ [(p.tile, a)]) :
    Ports (w.log cfg e t) := by
  refine ⟨fun q => ?_, fun x hx => ?_⟩
  · simp only [Watch.log, hslvs, howed, hpackets, harrives, hsends]
    by_cases hq : q = p
    · rw [hq, if_pos rfl, if_pos rfl, update_self, update_self]
      exact hport
    · rw [if_neg hq, if_neg hq, update_of_ne hq, update_of_ne hq, map_nil, append_nil, append_nil]
      exact h.port q
  · have hold : x ∈ w.noc.performed → ∃ q, q.tile = x.1 ∧
      x.2.packet ∈ ((w.log cfg e t).sent q).map (·.packet) := fun hx => by
      obtain ⟨q, htile, hmem⟩ := h.all x hx
      refine ⟨q, htile, ?_⟩
      rw [Watch.log, map_append]
      exact mem_append_left _ hmem
    rcases hperformed with he | ⟨a, ha, he⟩
    · exact hold (he ▸ hx)
    · rcases mem_append.1 (he ▸ hx) with hx | hx
      · exact hold hx
      · obtain rfl := mem_singleton.1 hx
        exact ⟨p, rfl, by simpa [Watch.log, hsends] using .inr ha⟩

theorem nocReq (h : Ports w) {port : Nat} {status : TcdmStatus}
    (hfree : w.noc.overtakes cfg (.nocReq k port status) = false)
    (hnoc : w.noc.step cfg (.nocReq k port status) = some t) : Ports (w.log cfg (.nocReq k port status) t) := by
  rw [Noc.step] at hnoc
  split_ifs at hnoc
  obtain ⟨p, hport, rfl⟩ := map_eq_some_iff.1 hnoc
  have hk : k < w.noc.packets.length := by
    rw [reqPort, bind_eq_some_iff] at hport
    obtain ⟨c, hbind, -⟩ := hport
    obtain ⟨packet, hpacket, -⟩ := bind_eq_some_iff.1 hbind
    exact (List.getElem?_eq_some_iff.1 hpacket).1
  have hat : ∀ q, some p = some q ↔ q = p := fun q => by rw [some.injEq, eq_comm]
  have harrives : ∀ q, w.noc.arrives cfg (.nocReq k port status) q = if q = p then [k] else [] := fun q => by
    simp only [arrives, hport, hat]
  have hsends : ∀ q, w.noc.sends cfg (.nocReq k port status) q = if q = p ∧ ¬w.noc.Holds q then [k]
    else [] := fun q => by
    simp only [sends, hport, hat]
  rw [handleNocReq]
  split_ifs with hold
  · refine h.change [k] [] rfl (update_eq_self ..).symm rfl harrives (fun q => ?_) ?_ (.inl rfl)
    · rw [hsends, ite_self]
      refine if_neg ?_
      rintro ⟨rfl, hn⟩
      exact hn hold
    · rw [map_nil, append_nil]
      exact (h.port p).queue hk
  · obtain ⟨hnext, hqueue⟩ := not_or.1 hold
    have hnil : (w.noc.nocReqSlvs p).deniedReqs = [] := not_not.1 hqueue
    have hstalled : (w.noc.nocReqSlvs p).stalled = false := by
      rw [overtakes, hport] at hfree
      simpa [hnil] using hfree
    obtain ⟨next, stalled, owed, a, hcycle, ha, hperformed, hslvs, howed, hpackets, hdenied⟩ :=
      performs_sendTcdm (s := { w.noc with nocReqs := w.noc.nocReqs.erase k }) hk p status
    refine h.change [k] [k] hslvs howed hpackets harrives (fun q => ?_) ?_ (.inr ⟨a, by simp [ha], hperformed⟩)
    · rw [hsends]
      refine if_congr (and_iff_left_of_imp ?_) rfl rfl
      rintro rfl
      exact hold
    · exact (h.port p).send (a := a) hstalled (by simpa [hstalled] using hnext) hcycle (by simp [hnil]) (by simp [hnil])
        (hstalled ▸ hdenied)

theorem fsmNocReq (h : Ports w) {noc : NocStatus} {tcdm : TcdmStatus} {ready : Bool} {todo : List Todo}
    (htodo : w.noc.todo = .nocReqs p :: todo) (hport : p.port < cfg.nbPorts) :
    Ports (w.log cfg (.next noc tcdm ready)
      ({ w.noc with todo := .nocReqs { p with port := p.port + 1 } :: todo }.fsmNocReq p tcdm)) := by
  have hsends : ∀ q, w.noc.sends cfg (.next noc tcdm ready) q =
      if p = q ∧ q.port < cfg.nbPorts ∧ (w.noc.nocReqSlvs q).stalled = false ∧
        (w.noc.nocReqSlvs q).nextBurstCycle ≤ w.noc.cycle
      then (w.noc.nocReqSlvs q).deniedReqs.take 1 else [] := fun q => by simp only [Noc.sends, htodo]
  rw [Noc.fsmNocReq]
  refine again ?_
  split_ifs with hgo
  · split
    · rename_i k rest hqueue
      replace hqueue : (w.noc.nocReqSlvs p).deniedReqs = k :: rest := hqueue
      obtain ⟨next, stalled, owed, a, hcycle, ha, hperformed, hslvs, howed, hpackets, hdenied⟩ :=
        performs_sendTcdm (s := ({ w.noc with todo := .nocReqs { p with port := p.port + 1 } :: todo } :
          Noc).setNocReqSlv p
          { w.noc.nocReqSlvs p with deniedReqs := rest }) ((h.port p).packets k (hqueue ▸ mem_cons_self)) p tcdm
      simp only [setNocReqSlv, update_self, update_idem] at hslvs hdenied
      refine h.change [] [k] hslvs howed hpackets (fun q => (ite_self _).symm) (fun q => ?_) ?_
        (.inr ⟨a, by simp [ha], hperformed⟩)
      · rw [hsends]
        by_cases hq : q = p
        · rw [hq, if_pos ⟨rfl, hport, hgo⟩, if_pos rfl, hqueue]
          rfl
        · rw [if_neg fun h => hq h.1.symm, if_neg hq]
      · exact (h.port p).send (a := a) hgo.1 hgo.2 hcycle (by rw [hqueue, append_nil])
          (hqueue ▸ subset_cons_self k rest)
          ((show (w.noc.nocReqSlvs p).stalled = false from hgo.1) ▸ hdenied)
    · rename_i hnil
      refine quiet (h.same (.refl _)) (fun _ => rfl) fun q => ?_
      rw [hsends]
      split_ifs with hq
      · rw [← hq.1]
        exact congrArg (take 1) hnil
      · rfl
  · refine quiet (h.same (.refl _)) (fun _ => rfl) fun q => (hsends q).trans (if_neg fun hq => hgo ?_)
    exact hq.1 ▸ hq.2.2

theorem step (h : Ports w) {v : Watch} (hfree : w.noc.overtakes cfg e = false) (hstep : w.step cfg e = some v) :
    Ports v := by
  obtain ⟨t, hnoc, rfl⟩ := map_eq_some_iff.1 hstep
  cases e with
  | nocReq k port status => exact h.nocReq hfree hnoc
  | next noc tcdm ready =>
    rw [step] at hnoc
    split at hnoc
    · rename_i p todo htodo
      refine quiet ?_ (fun q => rfl) (fun q => by simp only [sends, htodo])
      split_ifs at hnoc <;> cases hnoc
      · exact h.same (Same.fsmCoreReq (s := { w.noc with todo := .coreReqs { p with port := p.port + 1 } :: todo }) p
          noc)
      · exact h.same (.refl _)
    · rename_i p todo htodo
      split_ifs at hnoc with hport <;> cases hnoc
      · exact h.fsmNocReq htodo hport
      · refine quiet (h.same (.refl _)) (fun q => rfl) (fun q => ?_)
        simp only [sends, htodo]
        refine if_neg ?_
        rintro ⟨rfl, hq, -⟩
        exact hport hq
    · rename_i p todo htodo
      refine quiet ?_ (fun q => rfl) (fun q => by simp only [sends, htodo])
      split_ifs at hnoc <;> cases hnoc
      · exact h.same (Same.fsmNocResp (s := { w.noc with todo := .nocResps { p with port := p.port + 1 } :: todo }) p
          ready noc)
      · exact h.same (.refl _)
    · cases hnoc
  | tcdmGrant p a =>
    obtain ⟨ha, rfl⟩ := ite_some_none_eq_some.1 hnoc
    refine h.change [] [] rfl rfl rfl (fun q => (ite_self _).symm) (fun q => (ite_self _).symm) ?_ (.inl rfl)
    simpa using (h.port p).grant ha.2
  | coreReq p addr size status =>
    obtain ⟨-, rfl⟩ := ite_some_none_eq_some.1 hnoc
    exact quiet (h.same (.handleCoreReq p addr size status)) (fun _ => rfl) (fun _ => rfl)
  | nocReqGrant p =>
    rw [step] at hnoc
    split at hnoc <;> cases hnoc
    rename_i k rest _ _
    exact quiet (h.same (Same.nocReqGrant (s := { w.noc with
      heldReqs := update w.noc.heldReqs p rest
      nocReqs := w.noc.nocReqs ++ [k] }) p k)) (fun _ => rfl) (fun _ => rfl)
  | tcdmResponse p a =>
    obtain ⟨-, rfl⟩ := ite_some_none_eq_some.1 hnoc
    exact quiet (h.same (Same.pushResp (s := { w.noc with tcdm := update w.noc.tcdm p ((w.noc.tcdm p).erase a) }) p
      a.packet a.req
      a.port (w.noc.reqSize a.req) 0)) (fun _ => rfl) (fun _ => rfl)
  | nocResp k port unset =>
    rw [step] at hnoc
    split_ifs at hnoc
    obtain ⟨_, -, rfl⟩ := map_eq_some_iff.1 hnoc
    exact quiet (h.same (.refl _)) (fun _ => rfl) (fun _ => rfl)
  | nocRespGrant p =>
    rw [step] at hnoc
    split at hnoc <;> cases hnoc
    exact quiet (h.same (.refl _)) (fun _ => rfl) (fun _ => rfl)
  | fsm tile =>
    obtain ⟨-, rfl⟩ := ite_some_none_eq_some.1 hnoc
    exact quiet (h.same (.refl _)) (fun _ => rfl) (fun _ => rfl)
  | tick =>
    obtain ⟨-, rfl⟩ := ite_some_none_eq_some.1 hnoc
    exact quiet (h.same ⟨rfl, rfl, rfl, Nat.le_succ _, le_rfl⟩) (fun _ => rfl) (fun _ => rfl)

theorem init : Ports {} :=
  ⟨fun _ => ⟨⟨nofun, nofun, .nil, rfl⟩, nofun, .inr ⟨rfl, rfl⟩, nofun⟩, nofun⟩

theorem flowControl (h : Ports w) (hlive : Live cfg w.noc) : FlowControl cfg w :=
  ⟨fun p => (h.port p).toPaced, fun p hp => hlive.owed 1 (by omega) p hp, h.all⟩

/-- The TCDM has denied a request of a port that is stalled, and it is sent another one. -/
theorem not_flowControl (h : Ports w) {v : Watch} (hover : w.noc.overtakes cfg e = true)
    (hstep : w.step cfg e = some v) :
    ¬FlowControl cfg v := by
  obtain ⟨t, -, rfl⟩ := map_eq_some_iff.1 hstep
  cases e with
  | nocReq k port status =>
    obtain ⟨p, hport, hstalled⟩ := (any_eq_true _ _).1 hover
    rw [Bool.and_eq_true, List.isEmpty_iff] at hstalled
    obtain ⟨a, ha⟩ : ∃ a, w.noc.tcdmDenied p = [a] := by simpa [hstalled.1] using (h.port p).owed
    have hsends : w.noc.sends cfg (.nocReq k port status) p = [k] := if_pos ⟨hport, by simp [Noc.Holds, hstalled]⟩
    intro hflow
    have hnil := (hflow.paced p).free ⟨k, w.noc.cycle, (w.noc.nocReqSlvs p).nextBurstCycle, w.noc.tcdmDenied p⟩ (by
      simp only [Watch.log, hsends]
      exact mem_append_right _ mem_cons_self)
    rw [ha] at hnil
    cases hnil
  | _ => cases hover

end Ports

/-- In every state of a run the ports keep their promise to the TCDM iff no NoC request comes to a port that is stalled
with an empty queue. -/
theorem flowControl_iff (cfg : Config) (es : List Event) : AllStates (Watch.step cfg) (FlowControl cfg) {} es ↔
    AllSteps (Watch.step cfg) (fun w e => w.noc.overtakes cfg e = false) {} es := by
  have hlive : ∀ w e v, Live cfg w.noc → Watch.step cfg w e = some v → Live cfg v.noc := fun w e v h hstep => by
    obtain ⟨t, hnoc, rfl⟩ := map_eq_some_iff.1 hstep
    exact h.step hnoc
  refine allStates_iff (I := fun w => Ports w ∧ Live cfg w.noc) (fun _ h => h.1.flowControl h.2)
    (fun w e v h hstep => ?_)
    (fun w e v h hstep hflow => ?_) ⟨.init, .init⟩
  · refine ⟨fun hflow => ?_, fun hfree => (h.1.step hfree hstep).flowControl (hlive w e v h.2 hstep)⟩
    by_contra hover
    exact h.1.not_flowControl (by simpa using hover) hstep hflow
  · refine ⟨h.1.step ?_ hstep, hlive w e v h.2 hstep⟩
    by_contra hover
    exact h.1.not_flowControl (by simpa using hover) hstep hflow

/-- Two requests come to one port in two cycles; the TCDM denies the first one, and has not granted it when the second
one comes. -/
def twoArrivals : List Event :=
  [.coreReq ⟨⟨0, 0, 1⟩, 0⟩ 0 4 .pending, .coreReq ⟨⟨0, 0, 0⟩, 0⟩ 0 4 .pending, .nocReq 0 0 .denied, .tick,
    .nocReq 1 0 .denied]

/-- The port sends the second one before the grant of the first. -/
theorem sent_while_stalled : ¬∀ cfg es, AllStates (Watch.step cfg) (FlowControl cfg) {} es := by
  intro hall
  have h := hall ⟨1, 1, 2, 1, 2, 2⟩ twoArrivals
  obtain ⟨w, hrun, hmem⟩ : ∃ w, run (Watch.step ⟨1, 1, 2, 1, 2, 2⟩) {} twoArrivals = some w ∧
      (w.sent ⟨⟨0, 0, 0⟩, 0⟩).map (·.owed) = [[], [⟨0, 0, .core ⟨⟨0, 0, 1⟩, 0⟩⟩]] := ⟨_, rfl, by decide +kernel⟩
  obtain ⟨x, hx, hdenied⟩ := mem_map.1 (hmem ▸ mem_cons_of_mem _ mem_cons_self)
  rw [((h.final hrun).paced _).free x hx] at hdenied
  cases hdenied

end GvsocPulp.TeranocL1
