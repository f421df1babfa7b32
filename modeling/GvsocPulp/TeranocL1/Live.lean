import GvsocPulp.TeranocL1.Steps

/-!
# No queue is left to wait

What waits on a queue of an interface has the event of the interface enqueued, or the handler is on its way to it
(`Live`), and a port is stalled only until the other side has granted what it denied (`Stalls`).
-/

namespace GvsocPulp.TeranocL1

open Lib Function List Option Noc

variable {cfg : Config} {s t : Noc} {p : Port} {k r : Nat} {tile : Tile}

variable {x : Todo} {rest : List Todo}

/-- The loop of a queue, in the order of the handler. -/
def Todo.loop : Todo → Nat
  | .coreReqs _ => 0
  | .nocReqs _ => 1
  | .nocResps _ => 2

def Todo.port : Todo → Port
  | .coreReqs p | .nocReqs p | .nocResps p => p

def Todo.Covers (x : Todo) (loop : Nat) (p : Port) : Prop :=
  x.port.tile = p.tile ∧ (x.loop < loop ∨ x.loop = loop ∧ x.port.port ≤ p.port)

def Noc.Waits (s : Noc) (loop : Nat) (p : Port) : Prop :=
  match loop with
  | 0 => (s.coreReqSlvs p).deniedReqs ≠ []
  | 1 => (s.nocReqSlvs p).deniedReqs ≠ []
  | _ => (s.nocRespSlvs p).outQueue ≠ []

theorem Noc.enqueueFsm_fsmEvent (s : Noc) (tile : Tile) : (s.enqueueFsm tile).fsmEvent tile ≠ none := by
  simp [enqueueFsm]

/-- What a call does to the queues: where something new waits, the event is enqueued. -/
structure Grows (s t : Noc) : Prop where
  waits : ∀ loop p, t.Waits loop p → s.Waits loop p ∨ t.fsmEvent p.tile ≠ none
  event : ∀ tile, s.fsmEvent tile ≠ none → t.fsmEvent tile ≠ none
  todo : t.todo = s.todo

namespace Grows

variable {u : Noc}

theorem refl (s : Noc) : Grows s s := ⟨fun _ _ => .inl, fun _ => id, rfl⟩

theorem trans (h : Grows s t) (h' : Grows t u) : Grows s u where
  waits loop p hw := by
    rcases h'.waits loop p hw with hw | he
    · exact (h.waits loop p hw).imp_right (h'.event p.tile)
    · exact .inr he
  event tile he := h'.event tile (h.event tile he)
  todo := h'.todo.trans h.todo

theorem shrink (hcore : ∀ p, (s.coreReqSlvs p).deniedReqs = [] → (t.coreReqSlvs p).deniedReqs = [])
    (hnoc : ∀ p, (s.nocReqSlvs p).deniedReqs = [] → (t.nocReqSlvs p).deniedReqs = [])
    (hresp : ∀ p, (s.nocRespSlvs p).outQueue = [] → (t.nocRespSlvs p).outQueue = []) (hevent : t.fsmEvent = s.fsmEvent)
    (htodo : t.todo = s.todo) : Grows s t where
  waits loop p := by
    match loop with
    | 0 => exact fun hw => .inl (mt (hcore p) hw)
    | 1 => exact fun hw => .inl (mt (hnoc p) hw)
    | _ + 2 => exact fun hw => .inl (mt (hresp p) hw)
  event tile he := hevent ▸ he
  todo := htodo

theorem enqueue (hother : ∀ loop q, q ≠ p → t.Waits loop q → s.Waits loop q) (hevent : t.fsmEvent = s.fsmEvent)
    (htodo : t.todo = s.todo) : Grows s (t.enqueueFsm p.tile) where
  waits loop q hw := by
    by_cases hq : q = p
    · rw [hq]
      exact .inr (by simp [enqueueFsm])
    · refine .inl (hother loop q hq ?_)
      rcases loop with _ | _ | _ <;> exact hw
  event tile he := by
    simp only [enqueueFsm, update_apply]
    split
    · exact enqueue_ne_none
    · rw [hevent]
      exact he
  todo := htodo

theorem sendNocReq (p : Port) (packet : Packet) (status : NocStatus) : Grows s (s.sendNocReq p packet status) := by
  cases status <;> refine shrink (fun q => ?_) (fun q => id) (fun q => id) rfl rfl <;>
    · simp only [Noc.sendNocReq, Noc.setCoreReqSlv, Noc.setNocReqMst, update_apply]
      split
      · rename_i hq
        rw [hq]
        exact id
      · exact id

theorem pushResp (p : Port) (k req : Nat) (port : RespPort) (size latency : Nat) :
    Grows s (s.pushResp p k req port size latency).1 := by
  rw [Noc.pushResp]
  simp only
  split
  · refine enqueue (fun loop q hq => ?_) rfl rfl
    rcases loop with _ | _ | _
    · exact id
    · exact id
    · simp only [Noc.Waits, setNocRespSlv]
      rw [update_of_ne hq]
      exact id
  · exact refl s

theorem setNocReqSlv {i : InputPort} (h : i.deniedReqs = (s.nocReqSlvs p).deniedReqs) :
    Grows s (s.setNocReqSlv p i) := by
  refine shrink (fun _ => id) (fun q => ?_) (fun _ => id) rfl rfl
  simp only [Noc.setNocReqSlv, update_apply]
  split
  · rename_i hq
    rw [hq, h]
    exact id
  · exact id

theorem sendTcdm (p : Port) (k : Nat) (status : TcdmStatus) : Grows s (s.sendTcdm p k status) := by
  by_cases hk : ∃ packet, s.packets[k]? = some packet
  · obtain ⟨packet, hk⟩ := hk
    cases status with
    | ok latency =>
      obtain ⟨next, limiter, -, hsend⟩ := sendTcdm_ok hk p latency
      rw [hsend]
      refine enqueue (fun loop q hq => ?_) rfl rfl
      match loop with
      | 0 => exact id
      | 1 =>
        simp only [Noc.Waits]
        rw [update_of_ne hq]
        exact id
      | _ + 2 =>
        simp only [Noc.Waits]
        rw [update_of_ne hq]
        exact id
    | pending =>
      have hslv := setNocReqSlv (s := s) (p := p) (i := { s.nocReqSlvs p with nextBurstCycle := s.cycle + 1 }) rfl
      rw [Noc.sendTcdm, hk]
      exact { hslv with }
    | denied =>
      have hslv := setNocReqSlv (s := s) (p := p) (i := { s.nocReqSlvs p with nextBurstCycle := s.cycle + 1 }) rfl
      have hstall := hslv.trans (setNocReqSlv (p := p) (i := { (s.setNocReqSlv p { s.nocReqSlvs p with
        nextBurstCycle := s.cycle + 1 }).nocReqSlvs p with stalled := true }) rfl)
      rw [Noc.sendTcdm, hk]
      exact { hstall with }
  · rw [Noc.sendTcdm, eq_none_iff_forall_ne_some.2 fun packet he => hk ⟨packet, he⟩]
    exact refl s

/-- The end of a loop at a port: the event is enqueued again where something waits. -/
theorem again (loop : Nat) {c : Prop} [Decidable c] (hc : u.Waits loop p → c) (hu : Grows s u) :
    Grows s (if c then u.enqueueFsm p.tile else u) ∧ ((if c then u.enqueueFsm p.tile else u).Waits loop p →
      (if c then u.enqueueFsm p.tile else u).fsmEvent p.tile ≠ none) := by
  split_ifs with hqueue
  · exact ⟨hu.trans (.enqueue (fun _ _ _ => id) rfl rfl), fun _ => u.enqueueFsm_fsmEvent p.tile⟩
  · exact ⟨hu, fun hw => (hqueue (hc hw)).elim⟩

end Grows

namespace Noc

variable (s)

theorem grows_handleCoreReq (cfg : Config) (p : Port) (addr size : Nat) (status : NocStatus) :
    Grows s (s.handleCoreReq cfg p addr size status) := by
  rw [handleCoreReq]
  simp only
  split_ifs
  · refine .enqueue (fun loop q hq => ?_) rfl rfl
    rcases loop with _ | _ | _
    · simp only [Waits, setCoreReqSlv]
      rw [update_of_ne hq]
      exact id
    · exact id
    · exact id
  all_goals
    have hsent := Grows.sendNocReq (s := { s with
      reqs := s.reqs ++ [CoreReq.mk p addr size]
      respPorts := update s.respPorts s.reqs.length (.core p) }) p
      (toNocReq cfg p.tile s.reqs.length addr (some p.tile.id)) status
    exact { hsent with }

theorem grows_nocReqGrant (p : Port) (k : Nat) : Grows s (s.nocReqGrant p k) := by
  rw [nocReqGrant]
  simp only
  split
  · refine .enqueue (fun loop q hq => ?_) rfl rfl
    rcases loop with _ | _ | _ <;> exact id
  · exact ⟨fun _ _ => .inl, fun _ => id, rfl⟩

theorem grows_handleNocReq (p : Port) (k : Nat) (status : TcdmStatus) : Grows s (s.handleNocReq p k status) := by
  rw [handleNocReq]
  split_ifs
  · refine .enqueue (fun loop q hq => ?_) rfl rfl
    rcases loop with _ | _ | _
    · exact id
    · simp only [Waits, setNocReqSlv]
      rw [update_of_ne hq]
      exact id
    · exact id
  · exact .sendTcdm p k status

theorem grows_tcdmReqGrant (p : Port) : Grows s (s.tcdmReqGrant p) := by
  refine .enqueue (fun loop q hq => ?_) rfl rfl
  match loop with
  | 0 => exact id
  | 1 =>
    simp only [Waits, setNocReqSlv]
    rw [update_of_ne hq]
    exact id
  | _ + 2 => exact id

theorem grows_nocRespGrant (p : Port) : Grows s (s.nocRespGrant p) := by
  refine .enqueue (fun loop q hq => ?_) rfl rfl
  match loop with
  | 0 => exact id
  | 1 => exact id
  | _ + 2 =>
    simp only [Waits, setNocRespSlv]
    rw [update_of_ne hq]
    exact id

/-- The loop of the core requests at a port leaves nothing to wait without the event. -/
theorem grows_fsmCoreReq (cfg : Config) (p : Port) (status : NocStatus) : Grows s (s.fsmCoreReq cfg p status) ∧
    ((s.fsmCoreReq cfg p status).Waits 0 p → (s.fsmCoreReq cfg p status).fsmEvent p.tile ≠ none) := by
  rw [fsmCoreReq]
  simp only
  refine Grows.again 0 id ?_
  split
  · have hpop :
      Grows s (s.setCoreReqSlv p { s.coreReqSlvs p with deniedReqs := (s.coreReqSlvs p).deniedReqs.tail }) := by
      refine .shrink (fun q hq => ?_) (fun _ => id) (fun _ => id) rfl rfl
      simp only [setCoreReqSlv, update_apply]
      split_ifs with he
      · rw [he] at hq
        rw [hq]
        rfl
      · exact hq
    split_ifs
    · exact hpop.trans (.sendNocReq p _ status)
    · exact (hpop.trans (.sendNocReq p _ status)).trans (.enqueue (fun _ _ _ => id) rfl rfl)
  · exact .refl s

/-- The loop of the NoC requests at a port leaves nothing to wait without the event. -/
theorem grows_fsmNocReq (p : Port) (status : TcdmStatus) : Grows s (s.fsmNocReq p status) ∧
    ((s.fsmNocReq p status).Waits 1 p → (s.fsmNocReq p status).fsmEvent p.tile ≠ none) := by
  rw [fsmNocReq]
  simp only
  refine Grows.again 1 id ?_
  split_ifs
  · split
    · rename_i k rest hqueue
      refine .trans (t := s.setNocReqSlv p { s.nocReqSlvs p with deniedReqs := rest })
        (.shrink (fun _ => id) (fun q hq => ?_) (fun _ => id) rfl rfl) (.sendTcdm p k status)
      simp only [setNocReqSlv, update_apply]
      split_ifs with he
      · rw [he, hqueue] at hq
        cases hq
      · exact hq
    · exact .refl s
  · exact .refl s

theorem grows_fsmNocResp (p : Port) (ready : Bool) (status : NocStatus) : Grows s (s.fsmNocResp p ready status) ∧
    ((s.fsmNocResp p ready status).Waits 2 p → (s.fsmNocResp p ready status).fsmEvent p.tile ≠ none) := by
  rw [fsmNocResp]
  simp only
  refine Grows.again 2 id ?_
  split_ifs
  · split
    · rename_i k rest hqueue
      have hpop : ∀ output : OutputPort, ∀ q, (s.nocRespSlvs q).outQueue = [] →
          (update s.nocRespSlvs p output q).outQueue = [] := fun output q hq => by
        rw [update_apply]
        split_ifs with he
        · rw [he, hqueue] at hq
          cases hq
        · exact hq
      cases status with
      | pending => exact .shrink (fun _ => id) (fun _ => id) (hpop _) rfl rfl
      | denied =>
        refine .shrink (fun _ => id) (fun _ => id) (fun q hq => ?_) rfl rfl
        simp only [setNocRespSlv, update_idem]
        exact hpop _ q hq
    · exact .refl s
  · exact .refl s

end Noc

/-! ## What waits is looked at again -/

/-- Everything that waits on a queue has the event enqueued, or the handler still comes to it. -/
structure Live (cfg : Config) (s : Noc) : Prop where
  tiles : ∀ x ∈ s.todo, x.port.tile ∈ cfg.tiles
  owed : ∀ loop ≤ 2, ∀ p ∈ cfg.ports, s.Waits loop p → s.fsmEvent p.tile ≠ none ∨ ∃ x ∈ s.todo, x.Covers loop p

namespace Live

section

variable (h : Live cfg s)
include h

theorem grows (hgrows : Grows s t) : Live cfg t where
  tiles := hgrows.todo ▸ h.tiles
  owed loop hloop p hp hw := by
    rw [hgrows.todo]
    rcases hgrows.waits loop p hw with hw | he
    · exact (h.owed loop hloop p hp hw).imp_left (hgrows.event p.tile)
    · exact .inl he

theorem visit {z : Todo} (htodo : s.todo = x :: rest) (hx : z.loop = x.loop)
    (hport : z.port = { x.port with port := x.port.port + 1 }) (hgrows : Grows { s with todo := z :: rest } t)
    (hw : t.Waits x.loop x.port → t.fsmEvent x.port.tile ≠ none) : Live cfg t where
  tiles y hy := by
    rw [hgrows.todo] at hy
    rcases mem_cons.1 hy with rfl | hy
    · rw [hport]
      exact h.tiles x (htodo ▸ mem_cons_self)
    · exact h.tiles y (htodo ▸ mem_cons_of_mem _ hy)
  owed loop hloop p hp hwaits := by
    rcases hgrows.waits loop p hwaits with hold | he
    · have hold' : s.Waits loop p := by
        rcases loop with _ | _ | _ <;> exact hold
      rcases h.owed loop hloop p hp hold' with he | ⟨y, hy, hcovers⟩
      · exact .inl (hgrows.event _ he)
      · rw [htodo] at hy
        rcases mem_cons.1 hy with rfl | hy
        · obtain ⟨htile, hlater⟩ := hcovers
          by_cases hhere : y.loop = loop ∧ y.port.port = p.port
          · have hp' : y.port = p := by
              rw [show p = ⟨p.tile, p.port⟩ from rfl, ← htile, ← hhere.2]
            obtain ⟨hl, -⟩ := hhere
            rw [hl, hp'] at hw
            exact .inl (hw hwaits)
          · refine .inr ⟨z, hgrows.todo ▸ mem_cons_self, ?_, ?_⟩
            · rw [hport]
              exact htile
            · rw [hx, hport]
              simp only
              omega
        · exact .inr ⟨y, hgrows.todo ▸ mem_cons_of_mem _ hy, hcovers⟩
    · exact .inl he

theorem turn {x' : Todo} (htodo : s.todo = x :: rest) (hx : x'.loop = x.loop + 1)
    (hport : x'.port = ⟨x.port.tile, 0⟩) (hend : ¬x.port.port < cfg.nbPorts) :
      Live cfg { s with todo := x' :: rest } where
  tiles y hy := by
    rcases mem_cons.1 hy with rfl | hy
    · rw [hport]
      exact h.tiles x (htodo ▸ mem_cons_self)
    · exact h.tiles y (htodo ▸ mem_cons_of_mem _ hy)
  owed loop hloop p hp hw := by
    have hold : s.Waits loop p := by
      rcases loop with _ | _ | _ <;> exact hw
    refine (h.owed loop hloop p hp hold).imp_right fun ⟨y, hy, htile, hlater⟩ => ?_
    rw [htodo] at hy
    rcases mem_cons.1 hy with rfl | hy
    · have hlt := (Config.mem_ports.1 hp).2
      refine ⟨x', mem_cons_self, ?_, ?_⟩
      · rw [hport]
        exact htile
      · rw [hx, hport]
        simp only
        omega
    · exact ⟨y, mem_cons_of_mem _ hy, htile, hlater⟩

theorem finished (htodo : s.todo = x :: rest) (hx : x.loop = 2)
    (hend : ¬x.port.port < cfg.nbPorts) : Live cfg { s with todo := rest } where
  tiles y hy := h.tiles y (htodo ▸ mem_cons_of_mem _ hy)
  owed loop hloop p hp hw := by
    have hold : s.Waits loop p := by
      rcases loop with _ | _ | _ <;> exact hw
    refine (h.owed loop hloop p hp hold).imp_right fun ⟨y, hy, htile, hlater⟩ => ?_
    rw [htodo] at hy
    rcases mem_cons.1 hy with rfl | hy
    · have hlt := (Config.mem_ports.1 hp).2
      omega
    · exact ⟨y, hy, htile, hlater⟩

theorem call (htile : tile ∈ cfg.tiles) (htodo : s.todo = []) :
    Live cfg { s with fsmEvent := update s.fsmEvent tile none, todo := [.coreReqs ⟨tile, 0⟩] } where
  tiles x hx := by
    obtain rfl := mem_singleton.1 hx
    exact htile
  owed loop hloop p hp hw := by
    have hold : s.Waits loop p := by
      rcases loop with _ | _ | _ <;> exact hw
    by_cases he : p.tile = tile
    · refine .inr ⟨_, mem_cons_self, he.symm, ?_⟩
      simp only [Todo.loop, Todo.port]
      omega
    · refine (h.owed loop hloop p hp hold).imp (fun hevent => ?_) fun ⟨y, hy, _⟩ => ?_
      · change update s.fsmEvent tile none p.tile ≠ none
        rw [update_of_ne he]
        exact hevent
      · rw [htodo] at hy
        cases hy

theorem step {e : Event} (hstep : s.step cfg e = some t) : Live cfg t := by
  cases e with
  | coreReq p addr size status =>
    obtain ⟨-, rfl⟩ := ite_some_none_eq_some.1 hstep
    exact h.grows (s.grows_handleCoreReq cfg p addr size status)
  | nocReqGrant p =>
    rw [Noc.step] at hstep
    split at hstep
    · rename_i k rest _ _
      cases hstep
      have hgrows := grows_nocReqGrant { s with
        heldReqs := update s.heldReqs p rest
        nocReqs := s.nocReqs ++ [k] } p k
      exact h.grows { hgrows with }
    · cases hstep
  | nocReq k port status =>
    rw [Noc.step] at hstep
    split_ifs at hstep
    obtain ⟨p, -, rfl⟩ := map_eq_some_iff.1 hstep
    have hgrows := grows_handleNocReq { s with nocReqs := s.nocReqs.erase k } p k status
    exact h.grows { hgrows with }
  | tcdmResponse p a =>
    obtain ⟨-, rfl⟩ := ite_some_none_eq_some.1 hstep
    have hgrows := Grows.pushResp (s := { s with tcdm := update s.tcdm p ((s.tcdm p).erase a) }) p a.packet a.req a.port
      (s.reqSize a.req) 0
    exact h.grows { hgrows with }
  | tcdmGrant p a =>
    obtain ⟨-, rfl⟩ := ite_some_none_eq_some.1 hstep
    have hgrows := grows_tcdmReqGrant { s with
      tcdmDenied := update s.tcdmDenied p ((s.tcdmDenied p).erase a)
      tcdm := update s.tcdm p (s.tcdm p ++ [a]) } p
    exact h.grows { hgrows with }
  | nocResp k port unset =>
    rw [Noc.step] at hstep
    split_ifs at hstep
    obtain ⟨⟨p, req⟩, -, rfl⟩ := map_eq_some_iff.1 hstep
    exact h.grows ⟨fun _ _ => .inl, fun _ => id, rfl⟩
  | nocRespGrant p =>
    rw [Noc.step] at hstep
    split at hstep
    · rename_i k rest _ _
      cases hstep
      have hgrows := grows_nocRespGrant { s with
        heldResps := update s.heldResps p rest
        nocResps := s.nocResps ++ [k] } p
      exact h.grows { hgrows with }
    · cases hstep
  | fsm tile =>
    obtain ⟨hcond, rfl⟩ := ite_some_none_eq_some.1 hstep
    exact h.call hcond.1 hcond.2.1
  | next noc tcdm ready =>
    rw [Noc.step] at hstep
    split at hstep
    · rename_i p todo htodo
      split_ifs at hstep with hport <;> cases hstep
      · obtain ⟨hgrows, hw⟩ := grows_fsmCoreReq { s with todo := .coreReqs { p with port := p.port + 1 } :: todo } cfg p
          noc
        exact h.visit (z := .coreReqs { p with port := p.port + 1 }) htodo rfl rfl hgrows hw
      · exact h.turn htodo rfl rfl hport
    · rename_i p todo htodo
      split_ifs at hstep with hport <;> cases hstep
      · obtain ⟨hgrows, hw⟩ := grows_fsmNocReq { s with todo := .nocReqs { p with port := p.port + 1 } :: todo } p tcdm
        exact h.visit (z := .nocReqs { p with port := p.port + 1 }) htodo rfl rfl hgrows hw
      · exact h.turn htodo rfl rfl hport
    · rename_i p todo htodo
      split_ifs at hstep with hport <;> cases hstep
      · obtain ⟨hgrows, hw⟩ :=
          grows_fsmNocResp { s with todo := .nocResps { p with port := p.port + 1 } :: todo } p ready noc
        exact h.visit (z := .nocResps { p with port := p.port + 1 }) htodo rfl rfl hgrows hw
      · exact h.finished htodo rfl hport
    · cases hstep
  | tick =>
    obtain ⟨-, rfl⟩ := ite_some_none_eq_some.1 hstep
    exact h.grows ⟨fun _ _ => .inl, fun _ => id, rfl⟩

end

theorem init : Live cfg {} := ⟨nofun, fun loop _ p _ hw => by
  match loop with
  | 0 => exact (hw rfl).elim
  | 1 => exact (hw rfl).elim
  | _ + 2 => exact (hw rfl).elim⟩

end Live

/-! ## Stalled ports -/

/-- A port is stalled only while the other side still has something to grant. -/
structure Stalls (s : Noc) : Prop where
  reqs : ∀ p, (s.nocReqMsts p).stalled = true → s.heldReqs p ≠ []
  tcdm : ∀ p, (s.nocReqSlvs p).stalled = true → s.tcdmDenied p ≠ []
  resps : ∀ p, (s.nocRespSlvs p).stalled = true → s.heldResps p ≠ []

namespace Stalls

variable (h : Stalls s)
include h

theorem sendNocReq (p : Port) (packet : Packet) (status : NocStatus) : Stalls (s.sendNocReq p packet status) := by
  cases status with
  | pending => exact { h with }
  | denied =>
    refine ⟨fun q hq => ?_, h.tcdm, h.resps⟩
    simp only [Noc.sendNocReq, Noc.setCoreReqSlv, Noc.setNocReqMst, update_apply] at hq ⊢
    split_ifs at hq ⊢
    · exact concat_ne_nil _ _
    · exact h.reqs q hq

theorem sendTcdm (p : Port) (k : Nat) (status : TcdmStatus) : Stalls (s.sendTcdm p k status) := by
  have hslv : ∀ {input : InputPort}, input.stalled = (s.nocReqSlvs p).stalled → ∀ q,
      (update s.nocReqSlvs p input q).stalled = true → s.tcdmDenied q ≠ [] := fun hinput q hq => by
    rw [update_apply] at hq
    split_ifs at hq with he
    · rw [he]
      exact h.tcdm p (hinput ▸ hq)
    · exact h.tcdm q hq
  by_cases hk : ∃ packet, s.packets[k]? = some packet
  · obtain ⟨packet, hk⟩ := hk
    cases status with
    | ok latency =>
      obtain ⟨next, limiter, -, hsend⟩ := sendTcdm_ok hk p latency
      rw [hsend]
      refine ⟨h.reqs, hslv rfl, fun q hq => ?_⟩
      simp only [enqueueFsm, update_apply] at hq
      split_ifs at hq with he
      · rw [he]
        exact h.resps p hq
      · exact h.resps q hq
    | pending =>
      rw [Noc.sendTcdm, hk]
      exact ⟨h.reqs, hslv rfl, h.resps⟩
    | denied =>
      rw [Noc.sendTcdm, hk]
      refine ⟨h.reqs, fun q hq => ?_, h.resps⟩
      simp only [setNocReqSlv, update_idem, update_apply] at hq ⊢
      split_ifs at hq ⊢
      · exact concat_ne_nil _ _
      · exact h.tcdm q hq
  · rw [Noc.sendTcdm, eq_none_iff_forall_ne_some.2 fun packet he => hk ⟨packet, he⟩]
    exact h

theorem nocReqGrant (p : Port) (k : Nat) (rest : List Nat) : Stalls
    ({ s with heldReqs := update s.heldReqs p rest, nocReqs := s.nocReqs ++ [k] }.nocReqGrant p k) := by
  have hreqs : ∀ q, (update s.nocReqMsts p { s.nocReqMsts p with stalled := false } q).stalled = true →
      update s.heldReqs p rest q ≠ [] := fun q hq => by
    simp only [update_apply] at hq ⊢
    split_ifs at hq ⊢
    exact h.reqs q hq
  rw [Noc.nocReqGrant]
  simp only
  split
  · exact ⟨hreqs, h.tcdm, h.resps⟩
  · exact ⟨hreqs, h.tcdm, h.resps⟩

theorem tcdmGrant (p : Port) (denied : List Access) (tcdm : Port → List Access) : Stalls
    ({ s with tcdmDenied := update s.tcdmDenied p denied, tcdm := tcdm }.tcdmReqGrant p) := by
  refine ⟨h.reqs, fun q hq => ?_, h.resps⟩
  simp only [tcdmReqGrant, enqueueFsm, setNocReqSlv, update_apply] at hq ⊢
  split_ifs at hq ⊢
  exact h.tcdm q hq

theorem nocRespGrant (p : Port) (k : Nat) (rest : List Nat) : Stalls
    ({ s with heldResps := update s.heldResps p rest, nocResps := s.nocResps ++ [k] }.nocRespGrant p) := by
  refine ⟨h.reqs, h.tcdm, fun q hq => ?_⟩
  simp only [Noc.nocRespGrant, Noc.enqueueFsm, Noc.setNocRespSlv, update_apply] at hq ⊢
  split_ifs at hq ⊢
  exact h.resps q hq

theorem setNocReqSlv {input : InputPort} (hinput : input.stalled = (s.nocReqSlvs p).stalled) :
    Stalls (s.setNocReqSlv p input) := by
  refine ⟨h.reqs, fun q hq => ?_, h.resps⟩
  simp only [Noc.setNocReqSlv, update_apply] at hq
  split_ifs at hq with he
  · rw [he]
    exact h.tcdm p (hinput ▸ hq)
  · exact h.tcdm q hq

theorem setNocRespSlv {o : OutputPort} (houtput : o.stalled = (s.nocRespSlvs p).stalled) :
    Stalls (s.setNocRespSlv p o) := by
  refine ⟨h.reqs, h.tcdm, fun q hq => ?_⟩
  simp only [Noc.setNocRespSlv, update_apply] at hq
  split_ifs at hq with he
  · rw [he]
    exact h.resps p (houtput ▸ hq)
  · exact h.resps q hq

theorem enqueueFsm (tile : Tile) : Stalls (s.enqueueFsm tile) := { h with }

theorem pushResp (p : Port) (k req : Nat) (port : RespPort) (size latency : Nat) :
    Stalls (s.pushResp p k req port size latency).1 := by
  rw [Noc.pushResp]
  simp only
  split
  · have hslv := h.setNocRespSlv (p := p) (o := { s.nocRespSlvs p with
      outQueue := (s.nocRespSlvs p).outQueue ++ [k]
      limiterCycle := (applyBandwidth (s.nocRespSlvs p).limiterCycle s.cycle size latency).2 }) rfl
    exact { hslv with }
  · exact h

theorem handleCoreReq (p : Port) (addr size : Nat) (status : NocStatus) :
    Stalls (s.handleCoreReq cfg p addr size status) := by
  rw [Noc.handleCoreReq]
  simp only
  split_ifs
  · exact { h with }
  all_goals
    have hsent := sendNocReq (s := { s with
      reqs := s.reqs ++ [CoreReq.mk p addr size]
      respPorts := update s.respPorts s.reqs.length (.core p) }) { h with } p
      (toNocReq cfg p.tile s.reqs.length addr (some p.tile.id)) status
    exact { hsent with }

theorem handleNocReq (p : Port) (k : Nat) (status : TcdmStatus) : Stalls (s.handleNocReq p k status) := by
  rw [Noc.handleNocReq]
  split_ifs
  · refine enqueueFsm (h.setNocReqSlv ?_) p.tile
    rfl
  · exact h.sendTcdm p k status

theorem fsmNocReq (p : Port) (status : TcdmStatus) : Stalls (s.fsmNocReq p status) := by
  have hloop : ∀ u : Noc, Stalls u → Stalls (if (u.nocReqSlvs p).deniedReqs ≠ [] then u.enqueueFsm p.tile else u) :=
    fun u hu => by
    split
    · exact hu.enqueueFsm _
    · exact hu
  refine hloop _ ?_
  split_ifs
  · split
    · refine sendTcdm (h.setNocReqSlv ?_) p _ status
      rfl
    · exact h
  · exact h

theorem fsmNocResp (p : Port) (ready : Bool) (status : NocStatus) : Stalls (s.fsmNocResp p ready status) := by
  have hloop : ∀ u : Noc, Stalls u → Stalls (if (u.nocRespSlvs p).outQueue ≠ [] then u.enqueueFsm p.tile else u) :=
    fun u hu => by
    split
    · exact hu.enqueueFsm _
    · exact hu
  refine hloop _ ?_
  split_ifs
  · split
    · rename_i k rest _
      have hpop := h.setNocRespSlv (p := p) (o := { s.nocRespSlvs p with outQueue := rest }) rfl
      cases status with
      | pending => exact { hpop with }
      | denied =>
        refine ⟨h.reqs, h.tcdm, fun q hq => ?_⟩
        simp only [Noc.setNocRespSlv, update_idem, update_apply] at hq ⊢
        split_ifs at hq ⊢
        · exact concat_ne_nil _ _
        · exact h.resps q hq
    · exact h
  · exact h

end Stalls

end GvsocPulp.TeranocL1
