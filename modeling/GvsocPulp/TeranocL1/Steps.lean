import GvsocPulp.Lib.Lists
import GvsocPulp.TeranocL1.Account

/-!
# The calls keep the account

Where the requests are on the ports of all tiles, and what each call of the interfaces makes of it.
-/

namespace GvsocPulp.TeranocL1

open Lib Function List Option Config Noc OutputPort InputPort
open scoped List

variable {cfg : Config} {s t : Noc} {p : Port} {k r : Nat} {tile : Tile}

variable {α β : Type} {packet : Packet} {a : Access} {c : CoreReq} {rest : List Nat} {port : Nat}

/-! ## Where the requests are -/

theorem Config.ports_nodup (cfg : Config) : cfg.ports.Nodup := by
  have htiles : cfg.tiles.Nodup := by
    refine List.Nodup.map ?_ (nodup_range.product (nodup_range.product nodup_range))
    rintro ⟨x, y, i⟩ ⟨x', y', i'⟩ he
    cases he
    rfl
  refine List.Nodup.map ?_ (htiles.product nodup_range)
  rintro ⟨tile, i⟩ ⟨tile', i'⟩ he
  cases he
  rfl

theorem Config.mem_ports : p ∈ cfg.ports ↔ p.tile ∈ cfg.tiles ∧ p.port < cfg.nbPorts := by
  rw [ports, List.mem_map]
  constructor
  · rintro ⟨⟨tile, i⟩, hmem, rfl⟩
    exact ⟨(mem_product.1 hmem).1, mem_range.1 (mem_product.1 hmem).2⟩
  · rintro ⟨htile, hport⟩
    exact ⟨(p.tile, p.port), mem_product.2 ⟨htile, mem_range.2 hport⟩, rfl⟩

def Config.all {α : Type} (cfg : Config) (at' : Port → List α) : List α := cfg.ports.flatMap at'

theorem Config.count_all [DecidableEq α] (hp : p ∈ cfg.ports) (g : β → List α) (f : Port → β) (v : β) (x : α) :
    (cfg.all fun q => g (update f p v q)).count x + (g (f p)).count x =
      (cfg.all fun q => g (f q)).count x + (g v).count x := by
  have hchange := count_flatMap_change cfg.ports_nodup hp (f := fun q => g (update f p v q)) (g := fun q => g (f q))
    (fun q hq => by rw [update_of_ne hq]) x
  rw [update_self] at hchange
  exact hchange

theorem Config.count_all_lists [DecidableEq α] (hp : p ∈ cfg.ports) (f : Port → List α) (v : List α) (x : α) :
    (cfg.all (update f p v)).count x + (f p).count x = (cfg.all f).count x + v.count x :=
  count_all hp id f v x

theorem Config.all_keep (g : β → List α) (f : Port → β) (v : β) (h : g v = g (f p)) :
    cfg.all (fun q => g (update f p v q)) = cfg.all fun q => g (f q) := by
  refine flatMap_congr fun q _ => ?_
  rw [update_apply]
  split
  · rename_i hq
    rw [hq, h]
  · rfl

namespace Noc

variable (cfg) (s)

def queue : List Nat := cfg.all fun p => (s.coreReqSlvs p).deniedReqs

def held : List Nat := cfg.all s.heldReqs

def before : List Nat := s.nocReqs ++ cfg.all fun p => (s.nocReqSlvs p).deniedReqs

def access : List Access := cfg.all s.tcdmDenied ++ cfg.all s.tcdm

def back : List Nat := s.nocResps ++ cfg.all s.heldResps ++ cfg.all fun p => (s.nocRespSlvs p).outQueue

end Noc

/-- A packet waits at the tile of its address. -/
def Routed (cfg : Config) (s : Noc) : Prop :=
  ∀ p, ∀ k ∈ (s.nocReqSlvs p).deniedReqs, ∃ packet c, s.packets[k]? = some packet ∧ s.reqs[packet.burst]? = some c ∧
    p.tile = cfg.homeOf c.addr

structure Inv (cfg : Config) (s : Noc) : Prop where
  sound : Sound cfg s.toHeap (s.queue cfg) (s.held cfg) (s.before cfg) (s.access cfg) (s.back cfg)
  routed : Routed cfg s

theorem Routed.frame (h : Routed cfg s) (hpackets : s.packets <+: t.packets) (hreqs : s.reqs <+: t.reqs)
    (hqueue : ∀ p, (t.nocReqSlvs p).deniedReqs ⊆ (s.nocReqSlvs p).deniedReqs) : Routed cfg t := fun p k hk => by
  obtain ⟨packet, c, hpacket, hc, htile⟩ := h p k (hqueue p hk)
  refine ⟨packet, c, ?_, ?_, htile⟩
  · obtain ⟨new, he⟩ := hpackets
    rw [← he, getElem?_append_left (List.getElem?_eq_some_iff.1 hpacket).1]
    exact hpacket
  · obtain ⟨new, he⟩ := hreqs
    rw [← he, getElem?_append_left (List.getElem?_eq_some_iff.1 hc).1]
    exact hc

theorem Routed.setQueue (h : Routed cfg s) {input : InputPort} (hslvs : t.nocReqSlvs = update s.nocReqSlvs p input)
    (hpackets : t.packets = s.packets) (hreqs : t.reqs = s.reqs)
    (hinput : ∀ k ∈ input.deniedReqs, k ∈ (s.nocReqSlvs p).deniedReqs ∨ ∃ packet c, s.packets[k]? = some packet ∧
      s.reqs[packet.burst]? = some c ∧ p.tile = cfg.homeOf c.addr) : Routed cfg t := fun q k hk => by
  rw [hslvs, update_apply] at hk
  rw [hpackets, hreqs]
  split_ifs at hk with hq
  · rw [hq]
    rcases hinput k hk with hk | hk
    · exact h p k hk
    · exact hk
  · exact h q k hk

theorem mem_all {f : Port → List α} {x : α} (hp : p ∈ cfg.ports) (hx : x ∈ f p) : x ∈ cfg.all f :=
  mem_flatMap.2 ⟨p, hp, hx⟩

namespace Noc

theorem pushResp_eq (hk : s.packets[k]? = some packet) (p : Port) (req : Nat) (port : RespPort)
    (size latency : Nat) : s.pushResp p k req port size latency =
    ({ s.setNocRespSlv p { s.nocRespSlvs p with
        outQueue := (s.nocRespSlvs p).outQueue ++ [k]
        limiterCycle := (applyBandwidth (s.nocRespSlvs p).limiterCycle s.cycle size latency).2 } with
      respPorts := update s.respPorts req port
      dests := update s.dests k (packet.srcX, packet.srcY) }.enqueueFsm p.tile,
      (applyBandwidth (s.nocRespSlvs p).limiterCycle s.cycle size latency).1) := by
  rw [pushResp, hk]

theorem sendTcdm_ok (hk : s.packets[k]? = some packet) (p : Port) (latency : Nat) : ∃ next limiter, s.cycle < next ∧
    s.sendTcdm p k (.ok latency) = { s with
      nocReqSlvs := update s.nocReqSlvs p { s.nocReqSlvs p with nextBurstCycle := next }
      nocRespSlvs := update s.nocRespSlvs p { s.nocRespSlvs p with
        outQueue := (s.nocRespSlvs p).outQueue ++ [k], limiterCycle := limiter }
      performed := s.performed ++ [(p.tile, Access.mk packet.burst k (s.respPorts packet.burst))]
      respPorts := update s.respPorts packet.burst (s.respPorts packet.burst)
      dests := update s.dests k (packet.srcX, packet.srcY) }.enqueueFsm p.tile := by
  let u : Noc := { s.setNocReqSlv p { s.nocReqSlvs p with nextBurstCycle := s.cycle + 1 } with
    performed := s.performed ++ [(p.tile, Access.mk packet.burst k (s.respPorts packet.burst))] }
  have hpush := pushResp_eq (s := u) hk p packet.burst (s.respPorts packet.burst) (u.reqSize packet.burst) latency
  have hsend : s.sendTcdm p k (.ok latency) =
      (let v := u.pushResp p k packet.burst (s.respPorts packet.burst) (u.reqSize packet.burst) latency
      if 2 < v.2 then v.1.setNocReqSlv p { v.1.nocReqSlvs p with
        nextBurstCycle := (v.1.nocReqSlvs p).nextBurstCycle + (v.2 - 2) } else v.1) := by
    rw [sendTcdm, hk]
  rw [hsend, hpush]
  let bandwidth := applyBandwidth (s.nocRespSlvs p).limiterCycle s.cycle (s.reqSize packet.burst) latency
  simp only
  split_ifs
  · refine ⟨s.cycle + 1 + (bandwidth.1 - 2), bandwidth.2, by omega, ?_⟩
    simp only [u, setNocReqSlv, setNocRespSlv, enqueueFsm, update_idem, update_self]
    rfl
  · exact ⟨s.cycle + 1, bandwidth.2, Nat.lt_succ_self _, rfl⟩

end Noc

/-! ## What the calls make of the account -/

namespace Sound

theorem pushResp {queue held before : List Nat} {access : List Access} (hp : p ∈ cfg.ports)
    (h : Sound cfg s.toHeap queue held before (a :: access) (s.back cfg)) (hk : s.packets[a.packet]? = some packet)
    (size latency : Nat) :
    Sound cfg (s.pushResp p a.packet a.req a.port size latency).1.toHeap queue held before access
      ((s.pushResp p a.packet a.req a.port size latency).1.back cfg) := by
  rw [pushResp_eq hk]
  refine (h.turn hk).perm (.refl _) (.refl _) (.refl _) (.refl _) (perm_iff_count.2 fun x => ?_)
  have hout := count_all hp outQueue s.nocRespSlvs { s.nocRespSlvs p with
    outQueue := (s.nocRespSlvs p).outQueue ++ [a.packet]
    limiterCycle := (applyBandwidth (s.nocRespSlvs p).limiterCycle s.cycle size latency).2 } x
  simp only [Noc.back, Noc.enqueueFsm, Noc.setNocRespSlv, count_append, count_cons, count_nil] at hout ⊢
  omega

theorem sendTcdm (hp : p ∈ cfg.ports)
    (h : Sound cfg s.toHeap (s.queue cfg) (s.held cfg) (k :: s.before cfg) (s.access cfg) (s.back cfg))
    (hk : s.packets[k]? = some packet) (hc : s.reqs[packet.burst]? = some c) (htile : p.tile = cfg.homeOf c.addr)
    (status : TcdmStatus) :
    Sound cfg (s.sendTcdm p k status).toHeap ((s.sendTcdm p k status).queue cfg) ((s.sendTcdm p k status).held cfg)
      ((s.sendTcdm p k status).before cfg) ((s.sendTcdm p k status).access cfg) ((s.sendTcdm p k status).back cfg) := by
  have hperform := h.perform hk hc
  rw [← htile] at hperform
  -- the queues of the port stay as they are
  have hbefore : ∀ input : InputPort, input.deniedReqs = (s.nocReqSlvs p).deniedReqs →
      cfg.all (fun q => (update s.nocReqSlvs p input q).deniedReqs) = cfg.all fun q => (s.nocReqSlvs q).deniedReqs :=
    fun input hinput => all_keep deniedReqs s.nocReqSlvs input hinput
  cases status with
  | ok latency =>
    obtain ⟨next, limiter, -, hsend⟩ := sendTcdm_ok hk p latency
    rw [hsend]
    refine (hperform.turn hk).perm (.refl _) (.refl _) ?_ (.refl _) (perm_iff_count.2 fun x => ?_)
    · simp only [before, enqueueFsm]
      rw [hbefore]
      rfl
    · have hout := count_all hp outQueue s.nocRespSlvs { s.nocRespSlvs p with
        outQueue := (s.nocRespSlvs p).outQueue ++ [k], limiterCycle := limiter } x
      simp only [Noc.back, Noc.enqueueFsm, count_append, count_cons, count_nil] at hout ⊢
      omega
  | pending =>
    rw [Noc.sendTcdm, hk]
    refine (hperform.retarget mem_cons_self (.tcdm p)).perm (.refl _) (.refl _) ?_ ?_ (.refl _)
    · simp only [before, setNocReqSlv]
      rw [hbefore]
      rfl
    · refine perm_iff_count.2 fun x => ?_
      have htcdm := count_all_lists hp s.tcdm (s.tcdm p ++ [Access.mk packet.burst k (s.respPorts packet.burst)]) x
      simp only [Noc.access, Noc.setNocReqSlv, count_append, count_cons, count_nil] at htcdm ⊢
      omega
  | denied =>
    rw [Noc.sendTcdm, hk]
    refine (hperform.retarget mem_cons_self (.tcdm p)).perm (.refl _) (.refl _) ?_ ?_ (.refl _)
    · simp only [before, setNocReqSlv, update_idem, update_self]
      rw [hbefore]
      rfl
    · refine perm_iff_count.2 fun x => ?_
      have htcdm := count_all_lists hp s.tcdmDenied
        (s.tcdmDenied p ++ [Access.mk packet.burst k (s.respPorts packet.burst)]) x
      simp only [Noc.access, Noc.setNocReqSlv, count_append, count_cons, count_nil] at htcdm ⊢
      omega

end Sound

/-! ## Steps -/

namespace Inv

theorem handleCoreReq (h : Inv cfg s) (hp : p ∈ cfg.ports) (addr size : Nat) (status : NocStatus) :
    Inv cfg (s.handleCoreReq cfg p addr size status) := by
  have harrive := h.sound.arrive ⟨p, addr, size⟩
  have hnew : s.reqs.length ∉ s.denied := fun hmem => (h.sound.denied _ hmem).ne rfl
  have hc : (s.reqs ++ [CoreReq.mk p addr size])[s.reqs.length]? = some ⟨p, addr, size⟩ := getElem?_concat_length
  have hslv : ∀ input : InputPort, input.deniedReqs = (s.coreReqSlvs p).deniedReqs →
      cfg.all (fun q => (update s.coreReqSlvs p input q).deniedReqs) = cfg.all fun q => (s.coreReqSlvs q).deniedReqs :=
    fun input hinput => all_keep deniedReqs s.coreReqSlvs input hinput
  rw [Noc.handleCoreReq]
  simp only
  split_ifs with hbusy hdenied
  · refine ⟨(harrive.deny mem_cons_self).perm (perm_iff_count.2 fun x => ?_) (.refl _) (.refl _) (.refl _) (.refl _),
      h.routed.frame prefix_rfl (prefix_append _ _) fun _ => Subset.refl _⟩
    have hqueue := count_all hp deniedReqs s.coreReqSlvs { s.coreReqSlvs p with
      deniedReqs := (s.coreReqSlvs p).deniedReqs ++ [s.reqs.length] } x
    simp only [queue, enqueueFsm, setCoreReqSlv, count_append, count_cons, count_nil] at hqueue ⊢
    omega
  · have hsent := harrive.send hc hnew
    subst hdenied
    refine ⟨(hsent.hold getElem?_concat_length fun hmem => ?_).perm ?_ (perm_iff_count.2 fun x => ?_)
      (.refl _) (.refl _)
      (.refl _), h.routed.frame (prefix_append _ _) (prefix_append _ _) fun _ => Subset.refl _⟩
    · obtain ⟨x, hx, he⟩ := List.mem_map.1 hmem
      have hreq : x.2 = s.reqs.length := he
      exact hnew (hreq ▸ (h.sound.grants x hx).1)
    · simp only [queue, sendNocReq, setCoreReqSlv, setNocReqMst]
      rw [hslv]
      rfl
    · have hheld := count_all_lists hp s.heldReqs (s.heldReqs p ++ [s.packets.length]) x
      simp only [held, sendNocReq, setCoreReqSlv, setNocReqMst, count_append, count_cons,
        count_nil] at hheld ⊢
      omega
  · have hsent := harrive.send hc hnew
    cases status with
    | denied => exact (hdenied rfl).elim
    | pending =>
      refine ⟨hsent.perm ?_ (.refl _) (perm_iff_count.2 fun x => ?_) (.refl _) (.refl _),
        h.routed.frame (prefix_append _ _) (prefix_append _ _) fun _ => Subset.refl _⟩
      · simp only [queue, sendNocReq, setCoreReqSlv]
        rw [hslv]
        rfl
      · simp only [before, sendNocReq, setCoreReqSlv, count_append, count_cons, count_nil]
        omega

theorem nocReqGrant (h : Inv cfg s) (hp : p ∈ cfg.ports) (hheld : s.heldReqs p = k :: rest) :
    Inv cfg ({ s with heldReqs := update s.heldReqs p rest, nocReqs := s.nocReqs ++ [k] }.nocReqGrant p k) := by
  have hmem : k ∈ s.held cfg := mem_all hp (by rw [hheld]; exact mem_cons_self)
  obtain ⟨packet, hk⟩ := h.sound.exists_packet (k := k) (by simp only [mem_append]; tauto)
  have hcount := fun x => count_all_lists hp s.heldReqs rest x
  have hfront : Sound cfg s.toHeap (s.queue cfg) (k :: cfg.all (update s.heldReqs p rest)) (s.before cfg) (s.access cfg)
      (s.back cfg) := h.sound.perm (.refl _) (perm_iff_count.2 fun x => by
    have hx := hcount x
    rw [hheld] at hx
    simp only [held, count_cons] at hx ⊢
    omega) (.refl _) (.refl _) (.refl _)
  rw [Noc.nocReqGrant]
  simp only [setNocReqMst, hk]
  refine ⟨(hfront.grant hk).perm (.refl _) (.refl _) (perm_iff_count.2 fun x => ?_) (.refl _) (.refl _), h.routed⟩
  simp only [before, grantCore, enqueueFsm, count_append, count_cons, count_nil]
  omega

theorem sendTcdm (hsound : Sound cfg s.toHeap (s.queue cfg) (s.held cfg) (k :: s.before cfg) (s.access cfg)
    (s.back cfg)) (hrouted : Routed cfg s) (hp : p ∈ cfg.ports) (hk : s.packets[k]? = some packet)
    (hc : s.reqs[packet.burst]? = some c) (htile : p.tile = cfg.homeOf c.addr) (status : TcdmStatus) :
    Inv cfg (s.sendTcdm p k status) := by
  refine ⟨hsound.sendTcdm hp hk hc htile status, ?_⟩
  cases status with
  | ok latency =>
    obtain ⟨next, limiter, -, hsend⟩ := sendTcdm_ok hk p latency
    rw [hsend]
    exact hrouted.setQueue rfl rfl rfl fun _ => .inl
  | pending =>
    rw [Noc.sendTcdm, hk]
    exact hrouted.setQueue rfl rfl rfl fun _ => .inl
  | denied =>
    rw [Noc.sendTcdm, hk]
    refine hrouted.setQueue (update_idem ..) rfl rfl fun k' hk' => .inl ?_
    simpa [setNocReqSlv] using hk'

variable (h : Inv cfg s)
include h

theorem nocReq (hk : k ∈ s.nocReqs) (hport : s.reqPort cfg k port = some p) (status : TcdmStatus) :
    Inv cfg ({ s with nocReqs := s.nocReqs.erase k }.handleNocReq p k status) := by
  rw [reqPort, bind_eq_some_iff] at hport
  obtain ⟨c, hbind, hport⟩ := hport
  obtain ⟨packet, hpacket, hc⟩ := bind_eq_some_iff.1 hbind
  rw [ite_none_right_eq_some] at hport
  obtain ⟨hp, he⟩ := hport
  have he := Option.some.inj he
  rw [he] at hp
  have hbefore : k ∈ s.before cfg := mem_append_left _ hk
  have hgoing := h.sound.going k (mem_append_right _ hbefore) packet hpacket
  obtain ⟨c', hc', hright⟩ := h.sound.getElem?_right hpacket
  rw [hc] at hc'
  cases hc'
  have htile : p.tile = cfg.homeOf c.addr := by
    rw [← he, hgoing, hright]
    rfl
  have hpop : Sound cfg s.toHeap (s.queue cfg) (s.held cfg)
      (k :: ((s.nocReqs.erase k) ++ cfg.all fun p => (s.nocReqSlvs p).deniedReqs)) (s.access cfg) (s.back cfg) :=
    h.sound.perm (.refl _) (.refl _) (((perm_cons_erase hk).append_right _).symm) (.refl _) (.refl _)
  rw [handleNocReq]
  split_ifs
  · refine ⟨hpop.perm (.refl _) (.refl _) (perm_iff_count.2 fun x => ?_) (.refl _) (.refl _), ?_⟩
    · have hqueue := count_all hp deniedReqs s.nocReqSlvs
        { s.nocReqSlvs p with deniedReqs := (s.nocReqSlvs p).deniedReqs ++ [k] } x
      simp only [before, enqueueFsm, setNocReqSlv, count_append, count_cons, count_nil] at hqueue ⊢
      omega
    · refine h.routed.setQueue rfl rfl rfl fun k' hk' => ?_
      rcases mem_append.1 hk' with hk' | hk'
      · exact .inl hk'
      · obtain rfl := mem_singleton.1 hk'
        exact .inr ⟨packet, c, hpacket, hc, htile⟩
  · exact sendTcdm (s := { s with nocReqs := s.nocReqs.erase k }) hpop h.routed hp hpacket hc htile status

theorem tcdmResponse (hp : p ∈ cfg.ports) (ha : a ∈ s.tcdm p) :
    Inv cfg ({ s with tcdm := update s.tcdm p ((s.tcdm p).erase a) }.tcdmReqResponse p a) := by
  have hmem : a ∈ s.access cfg := mem_append_right _ (mem_all hp ha)
  obtain ⟨⟨packet, hk, -⟩, -⟩ := h.sound.access a hmem
  have hpop : Sound cfg s.toHeap (s.queue cfg) (s.held cfg) (s.before cfg)
      (a :: (cfg.all s.tcdmDenied ++ cfg.all (update s.tcdm p ((s.tcdm p).erase a)))) (s.back cfg) :=
    h.sound.perm (.refl _) (.refl _) (.refl _) (perm_iff_count.2 fun x => by
      have htcdm := count_all_lists hp s.tcdm ((s.tcdm p).erase a) x
      have herase := (perm_cons_erase ha).count_eq x
      simp only [access, count_append, count_cons] at htcdm herase ⊢
      omega) (.refl _)
  have hturn := Sound.pushResp (s := { s with tcdm := update s.tcdm p ((s.tcdm p).erase a) }) hp hpop hk
    (s.reqSize a.req) 0
  rw [tcdmReqResponse]
  rw [pushResp_eq (s := { s with tcdm := update s.tcdm p ((s.tcdm p).erase a) }) hk] at hturn ⊢
  exact ⟨hturn, h.routed⟩

theorem tcdmGrant (hp : p ∈ cfg.ports) (ha : a ∈ s.tcdmDenied p) :
    Inv cfg ({ s with
      tcdmDenied := update s.tcdmDenied p ((s.tcdmDenied p).erase a)
      tcdm := update s.tcdm p (s.tcdm p ++ [a]) }.tcdmReqGrant p) := by
  refine ⟨h.sound.perm (.refl _) (.refl _) ?_ (perm_iff_count.2 fun x => ?_) (.refl _),
    h.routed.setQueue rfl rfl rfl fun _ => .inl⟩
  · simp only [before, tcdmReqGrant, enqueueFsm, setNocReqSlv]
    rw [all_keep deniedReqs]
    rfl
  · have hdenied := count_all_lists hp s.tcdmDenied ((s.tcdmDenied p).erase a) x
    have htcdm := count_all_lists hp s.tcdm (s.tcdm p ++ [a]) x
    have herase := (perm_cons_erase ha).count_eq x
    simp only [access, tcdmReqGrant, enqueueFsm, setNocReqSlv, count_append, count_cons,
      count_nil] at hdenied htcdm herase ⊢
    omega

theorem nocResp (hk : k ∈ s.nocResps) {unset : Nat} (hport : s.respPort cfg k port unset = some (p, r)) :
    Inv cfg ({ s with nocResps := s.nocResps.erase k }.handleNocResp p k r) := by
  rw [respPort, bind_eq_some_iff] at hport
  obtain ⟨packet, hpacket, hport⟩ := hport
  rw [ite_none_right_eq_some] at hport
  obtain ⟨-, he⟩ := hport
  cases he
  have hback : k ∈ s.back cfg := mem_append_left _ (mem_append_left _ hk)
  have hdest := h.sound.back k hback packet hpacket
  obtain ⟨c, hc, hright⟩ := h.sound.getElem?_right hpacket
  have hpop : Sound cfg s.toHeap (s.queue cfg) (s.held cfg) (s.before cfg) (s.access cfg)
      (k :: (s.nocResps.erase k ++ cfg.all s.heldResps ++ cfg.all fun p => (s.nocRespSlvs p).outQueue)) :=
    h.sound.perm (.refl _) (.refl _) (.refl _) (.refl _) (((perm_cons_erase hk).append_right _).append_right _).symm
  have hanswer := hpop.answer hpacket hc
  have htile : (⟨(s.dests k).1, (s.dests k).2, packet.srcTile.getD unset⟩ : Tile) = c.port.tile := by
    rw [hdest, hright]
    rfl
  refine ⟨?_, h.routed⟩
  rw [handleNocResp]
  simp only [htile]
  exact hanswer

theorem nocRespGrant (hp : p ∈ cfg.ports) (hheld : s.heldResps p = k :: rest) :
    Inv cfg ({ s with heldResps := update s.heldResps p rest, nocResps := s.nocResps ++ [k] }.nocRespGrant p) := by
  refine ⟨h.sound.perm (.refl _) (.refl _) (.refl _) (.refl _) (perm_iff_count.2 fun x => ?_), h.routed⟩
  have hresps := count_all_lists hp s.heldResps rest x
  have hout : cfg.all (fun q => (update s.nocRespSlvs p { s.nocRespSlvs p with stalled := false } q).outQueue) =
      cfg.all fun q => (s.nocRespSlvs q).outQueue := all_keep outQueue s.nocRespSlvs _ rfl
  rw [hheld] at hresps
  simp only [Noc.back, Noc.nocRespGrant, Noc.enqueueFsm, Noc.setNocRespSlv, count_append, count_cons, count_nil]
    at hresps ⊢
  rw [hout]
  omega

theorem quiet {event : Tile → Option Nat} {cycle : Nat} {todo : List Todo} :
    Inv cfg { s with fsmEvent := event, cycle := cycle, todo := todo } := ⟨h.sound, h.routed⟩

theorem enqueueFsm (tile : Tile) : Inv cfg (s.enqueueFsm tile) := ⟨h.sound, h.routed⟩

theorem fsmNocReq (hp : p ∈ cfg.ports) (status : TcdmStatus) : Inv cfg (s.fsmNocReq p status) := by
  have hloop : ∀ u : Noc, Inv cfg u → Inv cfg (if (u.nocReqSlvs p).deniedReqs ≠ [] then u.enqueueFsm p.tile else u) :=
    fun u hu => by
    split
    · exact hu.enqueueFsm _
    · exact hu
  refine hloop _ ?_
  split_ifs
  · split
    · rename_i k rest hqueue
      obtain ⟨packet, c, hpacket, hc, htile⟩ := h.routed p k (by rw [hqueue]; exact mem_cons_self)
      refine sendTcdm (s := s.setNocReqSlv p { s.nocReqSlvs p with deniedReqs := rest }) ?_ ?_ hp hpacket
        hc htile status
      · refine h.sound.perm (.refl _) (.refl _) (perm_iff_count.2 fun x => ?_) (.refl _) (.refl _)
        have hcount := count_all hp deniedReqs s.nocReqSlvs { s.nocReqSlvs p with deniedReqs := rest } x
        rw [hqueue] at hcount
        simp only [before, setNocReqSlv, count_append, count_cons] at hcount ⊢
        omega
      · exact h.routed.setQueue rfl rfl rfl fun k' hk' => .inl (by rw [hqueue]; exact mem_cons_of_mem _ hk')
    · exact h
  · exact h

theorem fsmNocResp (hp : p ∈ cfg.ports) (ready : Bool) (status : NocStatus) :
    Inv cfg (s.fsmNocResp p ready status) := by
  have hloop : ∀ u : Noc, Inv cfg u → Inv cfg (if (u.nocRespSlvs p).outQueue ≠ [] then u.enqueueFsm p.tile else u) :=
    fun u hu => by
    split
    · exact hu.enqueueFsm _
    · exact hu
  refine hloop _ ?_
  split_ifs
  · split
    · rename_i k rest hqueue
      have hcount := fun x => count_all hp outQueue s.nocRespSlvs { s.nocRespSlvs p with outQueue := rest } x
      rw [hqueue] at hcount
      cases status with
      | pending =>
        refine ⟨h.sound.perm (.refl _) (.refl _) (.refl _) (.refl _) (perm_iff_count.2 fun x => ?_), h.routed⟩
        have hx := hcount x
        simp only [back, setNocRespSlv, count_append, count_cons, count_nil] at hx ⊢
        omega
      | denied =>
        refine ⟨h.sound.perm (.refl _) (.refl _) (.refl _) (.refl _) (perm_iff_count.2 fun x => ?_), h.routed⟩
        have hx := count_all hp outQueue s.nocRespSlvs
          { s.nocRespSlvs p with outQueue := rest, stalled := true } x
        have hresps := count_all_lists hp s.heldResps (s.heldResps p ++ [k]) x
        rw [hqueue] at hx
        simp only [back, setNocRespSlv, update_idem, update_self, count_append, count_cons,
          count_nil] at hx hresps ⊢
        omega
    · exact h
  · exact h

end Inv

end GvsocPulp.TeranocL1
