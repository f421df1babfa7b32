import GvsocPulp.Lib.Run
import GvsocPulp.TeranocL1.Live

/-!
# Every core request is answered once, to its own tile

What the interfaces promise in every state of a run (`Exact`), and when they keep it: as long as `fsm_handler` does not
take up a core request that has been denied. The packet that it builds then has no `REQ_SRC_TILE`.
-/

namespace GvsocPulp.TeranocL1

open Lib Function List Option Noc

variable {cfg : Config} {s t : Noc} {p : Port} {k r : Nat} {tile : Tile}

/-! ## What the interfaces promise -/

/-- `fsm_handler` takes up a core request that has been denied. -/
def Noc.retries (cfg : Config) (s : Noc) : Event → Bool
  | .next .. =>
    match s.todo with
    | .coreReqs p :: _ => p.port < cfg.nbPorts && (s.retried p).isSome
    | _ => false
  | _ => false

/-- Nothing is left for the interfaces, the NoC and the TCDM to do. -/
structure Quiet (cfg : Config) (s : Noc) : Prop where
  todo : s.todo = []
  event : ∀ tile ∈ cfg.tiles, s.fsmEvent tile = none
  noc : s.nocReqs = [] ∧ s.nocResps = []
  held : ∀ p ∈ cfg.ports, s.heldReqs p = [] ∧ s.heldResps p = []
  tcdm : ∀ p ∈ cfg.ports, s.tcdm p = [] ∧ s.tcdmDenied p = []

/-- What the interfaces promise in every state of a run. -/
structure Exact (cfg : Config) (s : Noc) : Prop where
  /-- Whichever path has built a packet, its arguments are those of its request and of the tile that has sent it. -/
  right : ∀ packet ∈ s.packets, s.Right cfg packet
  packets : (s.packets.map (·.burst)).Nodup
  granted : (s.granted.map (·.2)).Nodup
  grants : ∀ x ∈ s.granted, x.2 ∈ s.denied ∧ ∃ c, s.reqs[x.2]? = some c ∧ x.1 = .core c.port
  performed : (s.performed.map (·.2.req)).Nodup
  performedAt : ∀ x ∈ s.performed, ∃ c, s.reqs[x.2.req]? = some c ∧ x.1 = cfg.homeOf c.addr
  responded : (s.responded.map (·.req)).Nodup
  /-- The interface of the tile hands the response to the port that the request came from, after the TCDM has had it. -/
  respondedAt : ∀ x ∈ s.responded, (∃ c, s.reqs[x.req]? = some c ∧ x.tile = c.port.tile ∧ x.port = .core c.port) ∧
    x.req ∈ s.performed.map (·.2.req)
  freed : s.freed.Nodup
  freedAt : s.freed = s.responded.map (·.packet)
  /-- A port is not left stalled when the other side has granted all. -/
  stalls : Stalls s
  /-- In the end every request has been performed, answered and, if it was denied, granted, and every packet freed. -/
  settled : Quiet cfg s → (∀ r < s.reqs.length, r ∈ s.performed.map (·.2.req) ∧ r ∈ s.responded.map (·.req)) ∧
    (∀ r ∈ s.denied, r ∈ s.granted.map (·.2)) ∧ ∀ k < s.packets.length, k ∈ s.freed

structure Kept (cfg : Config) (s : Noc) : Prop where
  inv : Inv cfg s
  live : Live cfg s
  stalls : Stalls s

namespace Kept

theorem freed_nodup (h : Inv cfg s) : s.freed.Nodup := nodup_iff_count_le_one.2 fun k => by
  have hk := h.sound.packets k
  rw [count_append] at hk
  split_ifs at hk <;> omega

theorem performed_nodup (h : Inv cfg s) : (s.performed.map (·.2.packet)).Nodup := nodup_iff_count_le_one.2 fun k => by
  have hk := h.sound.performed k
  rw [count_append] at hk
  split_ifs at hk <;> omega

theorem performed_of_freed (h : Inv cfg s) (hk : k ∈ s.freed) : k ∈ s.performed.map (·.2.packet) := by
  have hpackets := h.sound.packets k
  have hperformed := h.sound.performed k
  have hpos := count_pos_iff.2 hk
  refine count_pos_iff.1 ?_
  simp only [count_append] at hpackets hperformed
  split_ifs at hpackets hperformed <;> omega

theorem req_of_performed (h : Inv cfg s) {packet : Packet} (hk : s.packets[k]? = some packet)
    (hmem : k ∈ s.performed.map (·.2.packet)) : packet.burst ∈ s.performed.map (·.2.req) := by
  obtain ⟨x, hx, rfl⟩ := mem_map.1 hmem
  obtain ⟨packet', c, hpacket, hburst, -⟩ := h.sound.accesses x hx
  rw [hk] at hpacket
  cases hpacket
  exact hburst ▸ mem_map_of_mem hx

theorem req_of_freed (h : Inv cfg s) {packet : Packet} (hk : s.packets[k]? = some packet) (hmem : k ∈ s.freed) :
    packet.burst ∈ s.responded.map (·.req) := by
  rw [h.sound.freed] at hmem
  obtain ⟨x, hx, rfl⟩ := mem_map.1 hmem
  obtain ⟨packet', c, hpacket, hburst, -⟩ := h.sound.responded x hx
  rw [hk] at hpacket
  cases hpacket
  exact hburst ▸ mem_map_of_mem hx

theorem all_eq_nil {α : Type} {f : Port → List α} (h : ∀ p ∈ cfg.ports, f p = []) : cfg.all f = [] :=
  flatMap_eq_nil_iff.2 h

theorem settled (h : Kept cfg s) (hquiet : Quiet cfg s) :
    (∀ r < s.reqs.length, r ∈ s.performed.map (·.2.req) ∧ r ∈ s.responded.map (·.req)) ∧
    (∀ r ∈ s.denied, r ∈ s.granted.map (·.2)) ∧ ∀ k < s.packets.length, k ∈ s.freed := by
  have hidle : ∀ loop ≤ 2, ∀ p ∈ cfg.ports, ¬s.Waits loop p := fun loop hloop p hp hw => by
    rcases h.live.owed loop hloop p hp hw with he | ⟨x, hx, -⟩
    · exact he (hquiet.event p.tile (Config.mem_ports.1 hp).1)
    · rw [hquiet.todo] at hx
      cases hx
  have hqueue : s.queue cfg = [] := all_eq_nil fun p hp => not_not.1 (hidle 0 (by omega) p hp)
  have hheld : s.held cfg = [] := all_eq_nil fun p hp => (hquiet.held p hp).1
  have hbefore : s.before cfg = [] := by
    rw [before, hquiet.noc.1, all_eq_nil fun p hp => not_not.1 (hidle 1 (by omega) p hp)]
    rfl
  have haccess : s.access cfg = [] := by
    rw [access, all_eq_nil fun p hp => (hquiet.tcdm p hp).2, all_eq_nil fun p hp => (hquiet.tcdm p hp).1]
    rfl
  have hback : s.back cfg = [] := by
    rw [back, hquiet.noc.2, all_eq_nil fun p hp => (hquiet.held p hp).2,
      all_eq_nil fun p hp => not_not.1 (hidle 2 (by omega) p hp)]
    rfl
  have hfreed : ∀ k < s.packets.length, k ∈ s.freed := fun k hk => by
    have hcount := h.inv.sound.packets k
    rw [hheld, hbefore, haccess, hback, if_pos hk] at hcount
    exact count_pos_iff.1 (by simpa using hcount.ge)
  refine ⟨fun r hr => ?_, fun r hr => ?_, hfreed⟩
  · have hcount := h.inv.sound.reqs r
    rw [hqueue, if_pos hr, nil_append] at hcount
    obtain ⟨packet, hmem, rfl⟩ := mem_map.1 (count_pos_iff.1 hcount.ge)
    obtain ⟨k, hk⟩ := mem_iff_getElem?.1 hmem
    have hk' := hfreed k (List.getElem?_eq_some_iff.1 hk).1
    exact ⟨req_of_performed h.inv hk (performed_of_freed h.inv hk'), req_of_freed h.inv hk hk'⟩
  · rcases h.inv.sound.owed r hr with hr | hr | ⟨k, hk, -⟩
    · rw [hqueue] at hr
      cases hr
    · exact hr
    · rw [hheld] at hk
      cases hk

theorem exact (h : Kept cfg s) : Exact cfg s where
  right := h.inv.sound.right
  packets := h.inv.sound.bursts_nodup
  granted := h.inv.sound.granted
  grants x hx := ⟨(h.inv.sound.grants x hx).1, (h.inv.sound.grants x hx).2.2.2⟩
  performed := by
    refine pairwise_map.2 ((pairwise_map.1 (performed_nodup h.inv)).imp_of_mem fun {x y} hx hy hne hreq => hne ?_)
    obtain ⟨packet, -, hpacket, hburst, -⟩ := h.inv.sound.accesses x hx
    obtain ⟨packet', -, hpacket', hburst', -⟩ := h.inv.sound.accesses y hy
    exact h.inv.sound.packet_unique hpacket hpacket' (hburst.trans (hreq.trans hburst'.symm))
  performedAt x hx := by
    obtain ⟨-, c, -, -, hc, htile⟩ := h.inv.sound.accesses x hx
    exact ⟨c, hc, htile⟩
  responded := by
    have hfreed := freed_nodup h.inv
    rw [h.inv.sound.freed] at hfreed
    refine pairwise_map.2 ((pairwise_map.1 hfreed).imp_of_mem fun {x y} hx hy hne hreq => hne ?_)
    obtain ⟨packet, -, hpacket, hburst, -⟩ := h.inv.sound.responded x hx
    obtain ⟨packet', -, hpacket', hburst', -⟩ := h.inv.sound.responded y hy
    exact h.inv.sound.packet_unique hpacket hpacket' (hburst.trans (hreq.trans hburst'.symm))
  respondedAt x hx := by
    obtain ⟨packet, c, hpacket, hburst, hc, hat⟩ := h.inv.sound.responded x hx
    refine ⟨⟨c, hc, hat⟩, hburst ▸ req_of_performed h.inv hpacket (performed_of_freed h.inv ?_)⟩
    rw [h.inv.sound.freed]
    exact mem_map_of_mem hx
  freed := freed_nodup h.inv
  freedAt := h.inv.sound.freed
  stalls := h.stalls
  settled := h.settled

theorem init : Kept cfg {} where
  inv := by
    have hall : ∀ {α : Type}, cfg.all (fun _ => ([] : List α)) = [] := all_eq_nil fun _ _ => rfl
    refine ⟨?_, fun p k hk => nomatch hk⟩
    have hsound : Sound cfg {} [] [] [] [] [] := by
      constructor <;> simp
    exact hsound.perm (Perm.of_eq hall) (Perm.of_eq hall) (Perm.of_eq hall)
      (Perm.of_eq (congrArg₂ _ hall hall)) (Perm.of_eq (congrArg₂ _ (congrArg₂ _ rfl hall) hall))
  live := .init
  stalls := ⟨nofun, nofun, nofun⟩

theorem fsmCoreReq (hnone : s.retried p = none) (status : NocStatus) :
    s.fsmCoreReq cfg p status = if (s.coreReqSlvs p).deniedReqs ≠ [] then s.enqueueFsm p.tile else s := by
  rw [Noc.fsmCoreReq, hnone]

theorem next (h : Kept cfg s) {noc : NocStatus} {tcdm : TcdmStatus} {ready : Bool}
    (hretries : s.retries cfg (.next noc tcdm ready) = false) (hstep : s.step cfg (.next noc tcdm ready) = some t) :
    Kept cfg t := by
  have hlive := h.live.step hstep
  rw [step] at hstep
  split at hstep
  · rename_i p todo htodo
    split_ifs at hstep with hport
    · cases hstep
      have hnone : s.retried p = none := by
        rw [retries, htodo] at hretries
        simpa [hport] using hretries
      rw [fsmCoreReq (s := { s with todo := .coreReqs { p with port := p.port + 1 } :: todo }) hnone] at hlive ⊢
      refine ⟨?_, hlive, ?_⟩
      · split_ifs
        · exact h.inv.quiet.enqueueFsm _
        · exact h.inv.quiet
      · split_ifs <;> exact { h.stalls with }
    · cases hstep
      exact ⟨h.inv.quiet, hlive, { h.stalls with }⟩
  · rename_i p todo htodo
    split_ifs at hstep with hport
    · cases hstep
      have hp : p ∈ cfg.ports := Config.mem_ports.2 ⟨h.live.tiles (.nocReqs p) (htodo ▸ mem_cons_self), hport⟩
      exact ⟨Inv.fsmNocReq h.inv.quiet hp tcdm, hlive,
        Stalls.fsmNocReq (s := { s with todo := .nocReqs { p with port := p.port + 1 } :: todo })
          { h.stalls with } p tcdm⟩
    · cases hstep
      exact ⟨h.inv.quiet, hlive, { h.stalls with }⟩
  · rename_i p todo htodo
    split_ifs at hstep with hport
    · cases hstep
      have hp : p ∈ cfg.ports := Config.mem_ports.2 ⟨h.live.tiles (.nocResps p) (htodo ▸ mem_cons_self), hport⟩
      exact ⟨Inv.fsmNocResp h.inv.quiet hp ready noc, hlive,
        Stalls.fsmNocResp (s := { s with todo := .nocResps { p with port := p.port + 1 } :: todo })
          { h.stalls with } p ready noc⟩
    · cases hstep
      exact ⟨h.inv.quiet, hlive, { h.stalls with }⟩
  · cases hstep

theorem step (h : Kept cfg s) {e : Event} (hretries : s.retries cfg e = false) (hstep : s.step cfg e = some t) :
    Kept cfg t := by
  have hlive := h.live.step hstep
  cases e with
  | coreReq p addr size status =>
    obtain ⟨hp, rfl⟩ := ite_some_none_eq_some.1 hstep
    exact ⟨h.inv.handleCoreReq hp addr size status, hlive, h.stalls.handleCoreReq p addr size status⟩
  | nocReqGrant p =>
    rw [Noc.step] at hstep
    split at hstep
    · rename_i k rest hp hheld
      cases hstep
      exact ⟨h.inv.nocReqGrant (of_decide_eq_true hp) hheld, hlive, h.stalls.nocReqGrant p k rest⟩
    · cases hstep
  | nocReq k port status =>
    rw [Noc.step] at hstep
    split_ifs at hstep with hk
    obtain ⟨p, hport, rfl⟩ := map_eq_some_iff.1 hstep
    exact ⟨h.inv.nocReq hk hport status, hlive,
      Stalls.handleNocReq (s := { s with nocReqs := s.nocReqs.erase k }) { h.stalls with } p k status⟩
  | tcdmResponse p a =>
    obtain ⟨ha, rfl⟩ := ite_some_none_eq_some.1 hstep
    exact ⟨h.inv.tcdmResponse ha.1 ha.2, hlive,
      Stalls.pushResp (s := { s with tcdm := update s.tcdm p ((s.tcdm p).erase a) })
        { h.stalls with } p a.packet a.req a.port (s.reqSize a.req) 0⟩
  | tcdmGrant p a =>
    obtain ⟨ha, rfl⟩ := ite_some_none_eq_some.1 hstep
    exact ⟨h.inv.tcdmGrant ha.1 ha.2, hlive, h.stalls.tcdmGrant p _ _⟩
  | nocResp k port unset =>
    rw [Noc.step] at hstep
    split_ifs at hstep with hk
    obtain ⟨⟨p, req⟩, hport, rfl⟩ := map_eq_some_iff.1 hstep
    exact ⟨h.inv.nocResp hk hport, hlive, { h.stalls with }⟩
  | nocRespGrant p =>
    rw [Noc.step] at hstep
    split at hstep
    · rename_i k rest hp hheld
      cases hstep
      exact ⟨h.inv.nocRespGrant (of_decide_eq_true hp) hheld, hlive, h.stalls.nocRespGrant p k rest⟩
    · cases hstep
  | fsm tile =>
    obtain ⟨-, rfl⟩ := ite_some_none_eq_some.1 hstep
    exact ⟨h.inv.quiet, hlive, { h.stalls with }⟩
  | next noc tcdm ready => exact h.next hretries hstep
  | tick =>
    obtain ⟨-, rfl⟩ := ite_some_none_eq_some.1 hstep
    exact ⟨h.inv.quiet, hlive, { h.stalls with }⟩

/-- A request that `fsm_handler` takes up gets a packet without the tile that has sent it. -/
theorem not_exact_of_retries {e : Event} (hretries : s.retries cfg e = true) (hstep : s.step cfg e = some t) :
    ¬Exact cfg t := by
  cases e with
  | next noc tcdm ready =>
    rw [retries] at hretries
    split at hretries
    · rename_i p rest htodo
      rw [Bool.and_eq_true, decide_eq_true_eq] at hretries
      obtain ⟨hport, hsome⟩ := hretries
      obtain ⟨req, hreq⟩ := isSome_iff_exists.1 hsome
      rw [Noc.step, htodo] at hstep
      simp only [if_pos hport] at hstep
      cases hstep
      intro hexact
      have hmem : toNocReq cfg p.tile req (s.reqAddr req) none ∈
          (({ s with todo := .coreReqs { p with port := p.port + 1 } :: rest } : Noc).fsmCoreReq cfg p
            noc).packets := by
        rw [Noc.fsmCoreReq, show ({ s with todo := .coreReqs { p with port := p.port + 1 } :: rest } : Noc).retried p =
          some req
          from hreq]
        cases noc <;> simp only <;> split_ifs <;> exact mem_append_right _ (mem_singleton.2 rfl)
      obtain ⟨c, -, he⟩ := hexact.right _ hmem
      cases congrArg Packet.srcTile he
    · cases hretries
  | _ => cases hretries

end Kept

/-- Every core request is granted, performed and answered once, through packets that name its own tile, exactly as long
as no request that was denied is taken up by `fsm_handler`. -/
theorem one_answer (cfg : Config) (es : List Event) :
    AllStates (Noc.step cfg) (Exact cfg) {} es ↔ AllSteps (Noc.step cfg)
      (fun s e => s.retries cfg e = false) {} es := by
  refine allStates_iff (I := Kept cfg) (fun _ => Kept.exact) (fun s e s' h hstep => ?_)
    (fun s e s' h hstep hexact => ?_) Kept.init
  · refine ⟨fun hexact => ?_, fun hretries => (h.step hretries hstep).exact⟩
    by_contra hretries
    exact Kept.not_exact_of_retries (by simpa using hretries) hstep hexact
  · refine h.step ?_ hstep
    by_contra hretries
    exact Kept.not_exact_of_retries (by simpa using hretries) hstep hexact

/-- A tile sends two requests through one port in a cycle. -/
def twoRequests : List Event :=
  let p : Port := ⟨⟨0, 0, 1⟩, 0⟩
  [.coreReq p 0 4 .pending, .coreReq p 0 4 .pending, .tick, .fsm p.tile, .next .pending .pending false]

/-- The second one is denied, and its packet then carries no tile. -/
theorem two_requests_not_exact : ¬∀ cfg es, AllStates (Noc.step cfg) (Exact cfg) {} es := by
  intro hall
  have h := hall ⟨1, 1, 2, 1, 2, 2⟩ twoRequests
  obtain ⟨t, hrun, hmem⟩ : ∃ t, run (step ⟨1, 1, 2, 1, 2, 2⟩) {} twoRequests = some t ∧
      (⟨1, none, 0, 0, 0, 0⟩ : Packet) ∈ t.packets :=
    ⟨_, rfl, by decide +kernel⟩
  obtain ⟨c, -, he⟩ := (h.final hrun).right _ hmem
  exact nomatch congrArg Packet.srcTile he

end GvsocPulp.TeranocL1
