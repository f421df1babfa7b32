import GvsocPulp.FractalSync.Calls
import GvsocPulp.Lib.Masks

/-!
# `FractalSync`: the invariant of a tree

The registers of all nodes, the calls on their way and the phases of the barriers agree (`TreeInv`), and each thing that
a node does keeps that: it takes a request, passes it, counts it, goes up, ends a barrier, answers.
-/

namespace GvsocPulp.FractalSync

open Function List PhasesOk FractalSync.System

open Node (set₂)

variable {ν : Type} [DecidableEq ν] {t : Tree ν}

variable {node : Node} {req : PortReq} {rsp : PortResp}

namespace System

variable {s : System t} {n : ν}

def maskOf (s : System t) (id : Nat) : BitVec 32 := (s.current id).elim noAggr (·.mask)

def EndsAt (s : System t) (n : ν) (id : Nat) (pair : Pair) : Prop := ∃ b, s.current id = some b ∧ b.top = (n, pair)

def queue (s : System t) (n : ν) : List QueueEntry := (s.node n).reqQueue

/-- The node has something else in its registers. -/
def setNode (s : System t) (n : ν) (node : Node) : System t := { s with node := update s.node n node }

theorem queue_setNode (h : node.reqQueue = (s.node n).reqQueue) : (s.setNode n node).queue = s.queue := by
  funext m
  rw [queue, setNode]
  dsimp only
  by_cases hm : m = n
  · subst hm
    rw [update_self, h, queue]
  · rw [update_of_ne hm, queue]

@[simp] theorem emit_node (o : Output) : (s.emit n o).node = s.node := by
  cases o <;> rw [emit] <;> split <;> rfl

@[simp] theorem emit_current (o : Output) : (s.emit n o).current = s.current := by
  cases o <;> rw [emit] <;> split <;> rfl

@[simp] theorem emit_sent (o : Output) : (s.emit n o).sent = s.sent := by
  cases o <;> rw [emit] <;> split <;> rfl

theorem emitAll_cons (o : Output) (os : List Output) : s.emitAll n (o :: os) = (s.emit n o).emitAll n os := rfl

@[simp] theorem emitAll_node (os : List Output) : (s.emitAll n os).node = s.node := by
  induction os generalizing s with
  | nil => rfl
  | cons o os ih => rw [emitAll_cons, ih, emit_node]

@[simp] theorem emitAll_current (os : List Output) : (s.emitAll n os).current = s.current := by
  induction os generalizing s with
  | nil => rfl
  | cons o os ih => rw [emitAll_cons, ih, emit_current]

@[simp] theorem emitAll_sent (os : List Output) : (s.emitAll n os).sent = s.sent := by
  induction os generalizing s with
  | nil => rfl
  | cons o os ih => rw [emitAll_cons, ih, emit_sent]

def CallsInv (s : System t) (ph : Nat → ν × Dir → Phase) : Prop := CallsOk s.current s.calls s.queue s.wakes ph

variable {ph : Nat → ν × Dir → Phase} {id : Nat}

theorem CallsInv.setNode (h : s.CallsInv ph) (hqueue : node.reqQueue = (s.node n).reqQueue) :
    (s.setNode n node).CallsInv ph := by
  rw [CallsInv, queue_setNode hqueue]
  exact h

theorem CallsInv.emit_up {pair : Pair} {port : ν × Dir} (h : s.CallsInv ph) (hup : t.up (n, pair) = some port)
    (hbefore : ph id port = .before) (hid : req.idReq = id) (hlegit : Legit s.current port req) :
    (s.emit n (.up pair req)).CallsInv (set₂ ph id port .req) := by
  have heq : s.emit n (.up pair req) = { s with calls := s.calls ++ [.request port req] } := by
    rw [emit]
    simp only [hup]
  rw [heq]
  have hsend : CallsOk s.current (.request port req :: s.calls) s.queue s.wakes (set₂ ph id port .req) :=
    CallsOk.send h hbefore hid hlegit
  exact hsend.perm (perm_append_singleton _ _).symm

theorem CallsInv.emit_resp {dir : Dir} (h : s.CallsInv ph)
    (hold : CallsOk.Phase.silent (ph id (n, dir)) = true)
      (hrsp : rsp.wake = true ∧ rsp.error = false ∧ rsp.idRsp = id) :
    (s.emit n (.resp dir rsp)).CallsInv (set₂ ph id (n, dir) (answered t (n, dir))) := by
  obtain ⟨hwake, herror, hid⟩ := hrsp
  rw [answered]
  cases hd : t.down (n, dir) with
  | none =>
    have heq : s.emit n (.resp dir rsp) =
        { s with wakes := set₂ s.wakes rsp.idRsp (n, dir) (s.wakes rsp.idRsp (n, dir) ++ [rsp]) } := by
      rw [emit]
      simp only [hd]
    rw [heq, hid, if_pos rfl]
    exact CallsOk.wake h hd hold hid hwake herror
  | some pair =>
    have heq : s.emit n (.resp dir rsp) = { s with calls := s.calls ++ [.response pair rsp] } := by
      rw [emit]
      simp only [hd]
    rw [heq, if_neg (by simp)]
    have hans : CallsOk s.current (.response pair rsp :: s.calls) s.queue s.wakes (set₂ ph id (n, dir) .ans) :=
      CallsOk.answer h hd hold hid
    exact hans.perm (perm_append_singleton _ _).symm

theorem CallsInv.emit_resps {rsp : Dir → PortResp}
    (hrsp : ∀ dir, (rsp dir).wake = true ∧ (rsp dir).error = false ∧ (rsp dir).idRsp = id) : ∀ {dirs : List Dir}
    {s : System t} {ph ph' : Nat → ν × Dir → Phase}, s.CallsInv ph → dirs.Nodup →
    (∀ dir ∈ dirs, CallsOk.Phase.silent (ph id (n, dir)) = true) →
    (∀ id' port, ph' id' port = if id' = id ∧ port.1 = n ∧ port.2 ∈ dirs then answered t port else ph id' port) →
    (s.emitAll n (dirs.map fun dir => .resp dir (rsp dir))).CallsInv ph'
  | [], s, ph, ph', h, _, _, hph => by
    have heq : ph' = ph := by
      funext id' port
      rw [hph, if_neg (fun h => nomatch h.2.2)]
    rw [heq]
    exact h
  | dir :: dirs, s, ph, ph', h, hnodup, hold, hph => by
    rw [map_cons, emitAll_cons]
    obtain ⟨hnot, hnodup⟩ := nodup_cons.1 hnodup
    refine emit_resps hrsp (h.emit_resp (hold dir mem_cons_self) (hrsp dir)) hnodup (fun dir' hdir' => ?_)
      fun id' port => ?_
    · rw [set₂_of_ne _ _ (fun h => hnot (by rw [← (Prod.mk.inj h.2).2]; exact hdir'))]
      exact hold dir' (mem_cons_of_mem _ hdir')
    · rw [hph]
      by_cases heq : id' = id ∧ port = (n, dir)
      · obtain ⟨rfl, rfl⟩ := heq
        rw [if_pos ⟨rfl, rfl, mem_cons_self⟩, if_neg (fun h => hnot h.2.2), set₂_self]
      · rw [set₂_of_ne _ _ heq]
        have hiff : (id' = id ∧ port.1 = n ∧ port.2 ∈ dir :: dirs) ↔ (id' = id ∧ port.1 = n ∧ port.2 ∈ dirs) := by
          constructor
          · rintro ⟨hid, hn, hmem⟩
            refine ⟨hid, hn, (mem_cons.1 hmem).resolve_left fun hdir => heq ⟨hid, Prod.ext hn hdir⟩⟩
          · rintro ⟨hid, hn, hmem⟩
            exact ⟨hid, hn, mem_cons_of_mem _ hmem⟩
        simp only [hiff]

end System

/-- The registers, the calls and the phases agree; and a barrier whose mask is taken for none ends at participants. -/
structure TreeInv (s : System t) (ph : Nat → ν × Dir → Phase) : Prop where
  regs : ∀ n, Regs s.maskOf (s.EndsAt n) (s.node n) fun id dir => (ph id (n, dir)).reg
  phases : ∀ id b, s.current id = some b → PhasesOk b (ph id)
  unused : ∀ id, s.current id = none → ∀ port, ph id port = .before
  calls : s.CallsInv ph
  sent : ∀ id b, s.current id = some b → ∀ port ∈ b.parts, s.sent id port = false ↔ ph id port = .before
  plain : ∀ id b, s.current id = some b → b.mask = noAggr → ∀ port, half port = b.top → t.down port = none

/-! ## Levels -/

section Levels

variable {b : Barrier t} {port : ν × Dir}

omit [DecidableEq ν] in
theorem Barrier.half_eq_top_iff (hused : b.used port = true) :
    half port = b.top ↔ Nat.log2 b.mask.toNat = (t.cfg port.1).level := by
  rw [← b.top_level]
  constructor
  · intro htop
    rw [← htop]
    rfl
  · intro hlevel
    by_contra hne
    obtain ⟨port', hup, hused'⟩ := b.used_up port hused hne
    have hlt := t.level_up _ _ hup
    have hle := b.level_le port' hused'
    have hhalf : (t.cfg (half port).1).level = (t.cfg port.1).level := rfl
    omega

theorem and_bit_ne_zero {mask : BitVec 32} {level : Nat} : mask &&& 1#32 <<< level ≠ 0 ↔ mask.getLsbD level = true := by
  constructor
  · intro hne
    obtain ⟨i, hi⟩ := Lib.exists_getLsbD hne
    rw [BitVec.getLsbD_and, Bool.and_eq_true] at hi
    by_cases hlevel : level < 32
    · rw [Lib.getLsbD_bit hlevel, decide_eq_true_eq] at hi
      rw [hi.2]
      exact hi.1
    · rw [← BitVec.twoPow_eq, BitVec.getLsbD_twoPow] at hi
      simp [hlevel] at hi
  · intro hbit hzero
    have hlevel : level < 32 := BitVec.lt_of_getLsbD hbit
    have hboth : (mask &&& 1#32 <<< level).getLsbD level = true := by
      rw [BitVec.getLsbD_and, Lib.getLsbD_bit hlevel, hbit]
      simp
    rw [hzero] at hboth
    simp at hboth

omit [DecidableEq ν] in
theorem Barrier.and_mask_ne_zero (b : Barrier t) {cfg : NodeConfig} (hlevel : Nat.log2 b.mask.toNat = cfg.level) :
    b.mask &&& cfg.mask ≠ 0 := by
  rw [NodeConfig.mask, and_bit_ne_zero, ← hlevel, BitVec.getLsbD]
  exact Nat.testBit_log2 fun hzero => b.mask_ne_zero (BitVec.eq_of_toNat_eq hzero)

omit [DecidableEq ν] in
/-- A request of the barrier that is not for the level of a node is for a higher one. -/
theorem Barrier.level_lt (hused : b.used port = true) (hmask : b.mask &&& (t.cfg port.1).mask = 0) :
    (t.cfg port.1).level < Nat.log2 b.mask.toNat := by
  have hle := b.level_le port hused
  rw [b.top_level] at hle
  refine Nat.lt_of_le_of_ne hle fun heq => ?_
  exact b.and_mask_ne_zero heq.symm hmask

end Levels

theorem Node.fsmEndSyncro_reqQueue {s s' : Node} {pair : Pair} (h : s.fsmEndSyncro pair = some s') :
    s'.reqQueue = s.reqQueue := by
  rw [Node.fsmEndSyncro] at h
  split at h
  · cases h
    rfl
  · split at h
    · cases h
      rfl
    · cases h

namespace TreeInv

variable {s s' : System t} {ph ph' : Nat → ν × Dir → Phase} {id : Nat} {b : Barrier t} {n : ν} {dir : Dir} {pair : Pair}

theorem frame (h : TreeInv s ph) (hcur : s'.current = s.current) (hsent : s'.sent = s.sent)
    (hnode : ∀ m, m ≠ n → s'.node m = s.node m) (hb : s.current id = some b)
    (hother : ∀ id', id' ≠ id → ∀ port, ph' id' port = ph id' port)
    (hregs : Regs s.maskOf (s.EndsAt n) (s'.node n) fun id dir => (ph' id (n, dir)).reg)
    (hreg : ∀ m, m ≠ n → ∀ dir, (ph' id (m, dir)).reg = (ph id (m, dir)).reg) (hphases : PhasesOk b (ph' id))
    (hleaf : ∀ port, t.down port = none → (ph' id port = .before ↔ ph id port = .before)) (hcalls : s'.CallsInv ph') :
    TreeInv s' ph' := by
  have hmask : s'.maskOf = s.maskOf := by
    funext id
    rw [maskOf, maskOf, hcur]
  have hends : ∀ m, s'.EndsAt m = s.EndsAt m := by
    intro m
    funext id pair
    rw [System.EndsAt, System.EndsAt, hcur]
  refine ⟨fun m => ?_, fun id' b' hb' => ?_, fun id' hb' port => ?_, hcalls, fun id' b' hb' port hp => ?_, by
    rw [hcur]
    exact h.plain⟩
  · rw [hmask, hends]
    by_cases hm : m = n
    · subst hm
      exact hregs
    · rw [hnode m hm]
      have heq : (fun id dir => (ph' id (m, dir)).reg) = fun id dir => (ph id (m, dir)).reg := by
        funext id' dir
        by_cases hid : id' = id
        · rw [hid, hreg m hm]
        · rw [hother id' hid]
      rw [heq]
      exact h.regs m
  · rw [hcur] at hb'
    by_cases hid : id' = id
    · subst hid
      rw [hb] at hb'
      cases hb'
      exact hphases
    · rw [show ph' id' = ph id' from funext (hother id' hid)]
      exact h.phases id' b' hb'
  · rw [hcur] at hb'
    have hid : id' ≠ id := by
      rintro rfl
      rw [hb] at hb'
      cases hb'
    rw [hother id' hid]
    exact h.unused id' hb' port
  · rw [hcur] at hb'
    rw [hsent, h.sent id' b' hb' port hp]
    by_cases hid : id' = id
    · subst hid
      rw [hb] at hb'
      cases hb'
      exact (hleaf port ((b.mem_parts port).1 hp).2).symm
    · rw [hother id' hid]

theorem withCalls (h : TreeInv s ph) {calls : List (Call ν)}
    (hcalls : ({ s with calls := calls } : System t).CallsInv ph) :
    TreeInv { s with calls := calls } ph :=
  { h with calls := hcalls }

theorem inUse (h : TreeInv s ph) {port : ν × Dir} (hne : ph id port ≠ .before) :
    ∃ b, s.current id = some b ∧ b.used port = true := by
  cases hb : s.current id with
  | none => exact absurd (h.unused id hb port) hne
  | some b => exact ⟨b, rfl, (h.phases id b hb).used hne⟩

omit [DecidableEq ν] in
theorem maskOf_eq (hb : s.current id = some b) : s.maskOf id = b.mask := by rw [maskOf, hb]; rfl

omit [DecidableEq ν] in
theorem endsAt_iff (hb : s.current id = some b) : s.EndsAt n id pair ↔ b.top = (n, pair) := by
  rw [System.EndsAt, hb]
  constructor
  · rintro ⟨b', hb', htop⟩
    cases hb'
    exact htop
  · intro htop
    exact ⟨b, rfl, htop⟩

/-! ## Requests -/

section

variable (h : TreeInv { s with calls := .request (n, dir) (b.req id) :: s.calls } ph)
include h

theorem handleReq_take (hst : (s.node n).state = .idle) (hb : s.current id = some b) (hused : b.used (n, dir) = true)
    (hbit : b.mask &&& (t.cfg n).mask ≠ 0) : TreeInv (s.setNode n ({ s.node n with
      currentAggr := set₂ (s.node n).currentAggr dir id b.mask
      currentIdReq := update (s.node n).currentIdReq dir id }.goto (.slaveReq dir)))
      (set₂ ph id (n, dir) .proc) := by
  have hph : ph id (n, dir) = .req := h.calls.phase_of_request
  have hcalls : s.CallsInv (set₂ ph id (n, dir) .proc) := CallsOk.handled h.calls rfl
  have hregs := h.regs n
  refine h.frame rfl rfl (fun m hm => update_of_ne hm _ _) hb (fun id' hne port => set₂_of_ne _ _ fun h => hne h.1)
    ?_ (fun m hm dir' => ?_) ?_ (fun port hd => ?_) ?_
  · show Regs s.maskOf (s.EndsAt n) (update s.node n _ n) _
    rw [update_self, ← maskOf_eq hb]
    refine hregs.take hst (by rw [hph]; rfl) fun id' dir' => ?_
    by_cases heq : id' = id ∧ dir' = dir
    · rw [if_pos heq, heq.1, heq.2, set₂_self]
      rfl
    · rw [if_neg heq, set₂_of_ne _ _ fun h => heq ⟨h.1, (Prod.mk.inj h.2).2⟩]
  · rw [set₂_of_ne _ _ fun h => hm (Prod.mk.inj h.2).1]
  · refine move (x := .proc) (h.phases id b hb) hused (fun port => ?_) (by rw [hph]; rfl)
      (Or.inr (by rw [hph]; rfl)) (by simp) fun hmask => absurd hmask hbit
    rw [set₂]
    simp
  · exact set₂_eq_iff (show ph id (n, dir) ≠ .before by rw [hph]; simp) (show Phase.proc ≠ .before by simp)
  · exact hcalls.setNode rfl

theorem handleReq_pass (hb : s.current id = some b) (hused : b.used (n, dir) = true)
    (hbit : b.mask &&& (t.cfg n).mask = 0) (hqueue : node.reqQueue = (s.node n).reqQueue)
    (hnode : ∀ regs, Regs s.maskOf (s.EndsAt n) { s.node n with
      currentAggr := set₂ (s.node n).currentAggr dir id b.mask } regs → Regs s.maskOf (s.EndsAt n) node regs) :
    ∃ ph', TreeInv ((s.setNode n node).emit n (.up dir.pair (b.req id))) ph' := by
  have hph : ph id (n, dir) = .req := h.calls.phase_of_request
  have hp := h.phases id b hb
  have hne : half (n, dir) ≠ b.top := by
    intro htop
    have hlevel := (Barrier.half_eq_top_iff hused).1 htop
    have hlt := Barrier.level_lt hused hbit
    omega
  obtain ⟨port, hup, hport⟩ := b.used_up _ hused hne
  have hbefore : ph id port = .before := hp.above_before hused hne (by rw [hph]; rfl) hup hport
  have hlevel := t.level_up _ _ hup
  have hportn : port.1 ≠ n := by
    intro heq
    rw [heq] at hlevel
    exact Nat.succ_ne_self _ hlevel.symm
  -- the only port of the pair that the barrier uses
  have honly : ∀ p, half p = (n, dir.pair) ∧ b.used p = true ↔ p = (n, dir) := by
    obtain ⟨p₀, hp₀, hall⟩ := b.used_pass port _ hport ((t.down_iff _ _).2 hup) hbit
    have hp₀' := (hall (n, dir) rfl).1 hused
    subst hp₀'
    exact fun p => ⟨fun h => (hall p h.1).1 h.2, fun h => by rw [h]; exact ⟨rfl, hused⟩⟩
  have hset : ∀ p, set₂ (set₂ ph id (n, dir) .up) id port .req id p =
      if p = (n, dir) then .up else if p = port then .req else ph id p := by
    intro p
    by_cases hpp : p = port
    · rw [hpp, set₂_self, if_neg (fun heq => hportn (by rw [heq])), if_pos rfl]
    · rw [set₂_of_ne _ _ (fun h => hpp h.2), if_neg hpp, set₂]
      simp
  have hcalls : s.CallsInv (set₂ ph id (n, dir) .up) := CallsOk.handled h.calls rfl
  have hcalls' : (s.setNode n node).CallsInv (set₂ ph id (n, dir) .up) := hcalls.setNode hqueue
  refine ⟨set₂ (set₂ ph id (n, dir) .up) id port .req, ?_⟩
  refine h.frame (n := n) (emit_current _) (emit_sent _) (fun m hm => ?_) hb
    (fun id' hid p => by rw [set₂_of_ne _ _ (fun h => hid h.1), set₂_of_ne _ _ (fun h => hid h.1)]) ?_
    (fun m hm dir' => ?_) ?_ (fun p hd => ?_) ?_
  · rw [emit_node]
    exact update_of_ne hm _ _
  · rw [emit_node]
    show Regs s.maskOf (s.EndsAt n) (update s.node n _ n) _
    rw [update_self]
    refine hnode _ ?_
    rw [← maskOf_eq hb]
    refine (h.regs n).pass (by rw [hph]; rfl) fun id' dir' => ?_
    rw [set₂_of_ne _ _ (fun h => hportn (by rw [← h.2]))]
    by_cases heq : id' = id ∧ dir' = dir
    · rw [if_pos heq, heq.1, heq.2, set₂_self]
      rfl
    · rw [if_neg heq, set₂_of_ne _ _ fun h => heq ⟨h.1, (Prod.mk.inj h.2).2⟩]
  · rw [hset, if_neg (fun heq => hm (Prod.mk.inj heq).1)]
    split
    case isTrue heq => rw [heq, hbefore]; rfl
    case isFalse => rfl
  · refine hp.goUp hne hup hport hbefore (fun p hhalf hu => ?_) fun p => ?_
    · rw [(honly p).1 ⟨hhalf, hu⟩, hph]
      rfl
    · rw [hset]
      exact if_congr (honly p).symm rfl rfl
  · rw [hset]
    have hportd : t.down port ≠ none := by rw [(t.down_iff _ _).2 hup]; simp
    split
    case isTrue heq => rw [heq, hph]; exact ⟨by simp, by simp⟩
    case isFalse =>
      rw [if_neg (fun heq : p = port => hportd (by rw [← heq]; exact hd))]
  · exact hcalls'.emit_up hup (by rw [set₂_of_ne _ _ (fun h => hportn (by rw [h.2]))]; exact hbefore) rfl
      ⟨b, hb, hport, rfl⟩

end

/-- **A request is handled**: the FSM takes it, or it goes up. -/
theorem handleReq (h : TreeInv { s with calls := .request (n, dir) req :: s.calls } ph)
    (hst : (s.node n).state = .idle) (hout : (s.node n).outputs = []) :
    ∃ ph', TreeInv ((s.setNode n ((s.node n).handleReq (t.cfg n) req dir)).emitAll n
      ((s.node n).handleReq (t.cfg n) req dir).outputs) ph' := by
  obtain ⟨b, hb, hused, hreq⟩ := h.calls.legit (n, dir) req mem_cons_self
  generalize req.idReq = id at hb hreq
  subst hreq
  by_cases hbit : b.mask &&& (t.cfg n).mask = 0
  · have hlevel : Node.msbPos (t.cfg n) b.mask > (t.cfg n).level := by
      rw [Node.msbPos, if_neg b.mask_ne_zero]
      exact Barrier.level_lt hused hbit
    have hnode : (s.node n).handleReq (t.cfg n) (b.req id) dir =
        ((s.node n).keepAggr dir (b.req id)).output (.up dir.pair (b.req id)) := by
      rw [Node.handleReq]
      simp only [Barrier.req, if_true, hbit, ne_eq, not_true_eq_false, if_false]
      exact if_pos hlevel
    have hout' : ((s.node n).handleReq (t.cfg n) (b.req id) dir).outputs = [.up dir.pair (b.req id)] := by
      rw [hnode]
      show (s.node n).outputs ++ _ = _
      rw [hout, nil_append]
    rw [hout', hnode]
    exact h.handleReq_pass hb hused hbit rfl fun regs hr => hr.congr rfl rfl rfl rfl rfl rfl
  · have hnode : (s.node n).handleReq (t.cfg n) (b.req id) dir = ({ s.node n with
        currentAggr := set₂ (s.node n).currentAggr dir id b.mask
        currentIdReq := update (s.node n).currentIdReq dir id }.goto (.slaveReq dir)) := by
      rw [Node.handleReq]
      simp only [Barrier.req, if_true, ne_eq, hbit, not_false_eq_true]
      rfl
    have hout' : ((s.node n).handleReq (t.cfg n) (b.req id) dir).outputs = [] := by rw [hnode]; exact hout
    rw [hout', hnode]
    exact ⟨_, h.handleReq_take hst hb hused hbit⟩

/-! ## The FSM -/

/-- **The FSM counts** the request it has taken. -/
theorem slaveReq (h : TreeInv s ph) (hst : (s.node n).state = .slaveReq dir) (hout : (s.node n).outputs = []) :
    ∃ ph', TreeInv ((s.setNode n ((s.node n).fsmSlaveReq (t.cfg n) dir)).emitAll n
      ((s.node n).fsmSlaveReq (t.cfg n) dir).outputs) ph' := by
  generalize hid : (s.node n).currentIdReq dir = id
  have hreg : (ph id (n, dir)).reg = .proc := ((h.regs n).proc id dir).2 ⟨hst, hid⟩
  have hph : ph id (n, dir) = .proc := by
    cases hp : ph id (n, dir) <;> rw [hp] at hreg <;> first | rfl | cases hreg
  obtain ⟨b, hb, hused⟩ := h.inUse (show ph id (n, dir) ≠ .before by rw [hph]; simp)
  have hp := h.phases id b hb
  have hbit : b.mask &&& (t.cfg n).mask ≠ 0 := fun hzero => (hp.pass (n, dir) hused hzero).1 hph
  have hnoAggr : noAggr &&& (t.cfg n).mask ≠ 0 := by
    intro hzero
    rw [show noAggr = BitVec.allOnes 32 from rfl, BitVec.allOnes_and] at hzero
    exact hbit (by rw [hzero]; exact BitVec.and_zero)
  have htop : Node.msbPos (t.cfg n) (s.maskOf id) = (t.cfg n).level ↔ s.EndsAt n id dir.pair := by
    rw [maskOf_eq hb, endsAt_iff hb, Node.msbPos, if_neg b.mask_ne_zero, ← Barrier.half_eq_top_iff hused]
    exact eq_comm
  obtain ⟨hregs, hout'⟩ := @Regs.slaveReq (t.cfg n) _ _ _ _
    (fun id' dir' => (set₂ ph id (n, dir) .kept id' (n, dir')).reg)
    id dir (h.regs n) hst hid (by rw [maskOf_eq hb]; exact hbit) hnoAggr htop fun id' dir' => by
      by_cases heq : id' = id ∧ dir' = dir
      · rw [if_pos heq, heq.1, heq.2, set₂_self]
        rfl
      · rw [if_neg heq, set₂_of_ne _ _ fun h => heq ⟨h.1, (Prod.mk.inj h.2).2⟩]
  have hcalls : s.CallsInv (set₂ ph id (n, dir) .kept) := CallsOk.move h.calls fun id' port => by
    by_cases heq : id' = id ∧ port = (n, dir)
    · rw [heq.1, heq.2, set₂_self, hph]
      exact Or.inr ⟨rfl, rfl⟩
    · rw [set₂_of_ne _ _ heq]
      exact Or.inl rfl
  rw [hout', hout]
  refine ⟨set₂ ph id (n, dir) .kept, ?_⟩
  refine h.frame rfl rfl (fun m hm => update_of_ne hm _ _) hb (fun id' hne port => set₂_of_ne _ _ fun h => hne h.1)
    ?_ (fun m hm dir' => ?_) ?_ (fun port hd => ?_) (hcalls.setNode (Node.fsmSlaveReq_step hst).reqQueue)
  · show Regs s.maskOf (s.EndsAt n) (update s.node n _ n) _
    rw [update_self]
    exact hregs
  · rw [set₂_of_ne _ _ fun h => hm (Prod.mk.inj h.2).1]
  · refine move (x := .kept) hp hused (fun port => ?_) (by rw [hph]; rfl) (Or.inr (by rw [hph]; rfl)) (by simp)
      fun hmask => absurd hmask hbit
    rw [set₂]
    simp
  · exact set₂_eq_iff (show ph id (n, dir) ≠ .before by rw [hph]; simp) (show Phase.kept ≠ .before by simp)

omit [DecidableEq ν] in
theorem kept_of_both (hboth : BothKept (fun dir => (ph id (n, dir)).reg) pair) :
    ∀ port, half port = (n, pair) → ph id port = .kept := by
  intro port hhalf
  have hkept : ∀ dir, (ph id (n, dir)).reg = .kept → ph id (n, dir) = .kept := by
    intro dir hreg
    cases hp : ph id (n, dir) <;> rw [hp] at hreg <;> first | rfl | cases hreg
  obtain ⟨m, dir⟩ := port
  obtain ⟨rfl, hdir⟩ := Prod.mk.inj hhalf
  rcases Dir.pair_eq_iff.1 hdir with hd | hd
  · rw [show dir = pair.fst from hd]
    exact hkept _ hboth.1
  · rw [show dir = pair.snd from hd]
    exact hkept _ hboth.2

/-- **A complete pair goes up.** -/
theorem upSyncro (h : TreeInv s ph) (hst : (s.node n).state = .upSyncro pair) (hout : (s.node n).outputs = []) :
    ∃ ph', TreeInv ((s.setNode n ((s.node n).fsmUpSyncro pair)).emitAll n ((s.node n).fsmUpSyncro pair).outputs)
      ph' := by
  generalize hid : (s.node n).pairIdReq pair = id
  have hboth := ((h.regs n).both id pair).2 (Or.inl ⟨hst, hid⟩)
  have hkept := kept_of_both hboth
  have hfst : half (n, pair.fst) = (n, pair) := by rw [half, Pair.fst_pair]
  obtain ⟨b, hb, hused⟩ := h.inUse (show ph id (n, pair.fst) ≠ .before by rw [hkept _ hfst]; simp)
  have hp := h.phases id b hb
  have hne : (n, pair) ≠ b.top := by
    intro heq
    have hnot := ((h.regs n).up pair hst).2
    rw [hid] at hnot
    exact hnot ((endsAt_iff hb).2 heq.symm)
  obtain ⟨port, hup, hport⟩ := b.used_up (n, pair.fst) hused (hfst ▸ hne)
  have hbefore : ph id port = .before := hp.above_before hused (hfst ▸ hne) (by rw [hkept _ hfst]; rfl) hup hport
  rw [hfst] at hup
  have hnot := half_ne_of_up hup
  have hall : ∀ p, half p = (n, pair) → b.used p = true := fun p hhalf => hp.used (by rw [hkept p hhalf]; simp)
  generalize hph' : (fun id' p => if id' = id ∧ half p = (n, pair) then Phase.up else ph id' p) = ph'
  have hph'eq : ∀ id' p, ph' id' p = if id' = id ∧ half p = (n, pair) then Phase.up else ph id' p := fun id' p => by
    rw [← hph']
  have hcalls : s.CallsInv ph' := CallsOk.move h.calls fun id' p => by
    rw [hph'eq]
    split
    case isTrue heq =>
      rw [heq.1, hkept p heq.2]
      exact Or.inr ⟨rfl, rfl⟩
    case isFalse => exact Or.inl rfl
  have hlevel := t.level_up _ _ hup
  have hportn : port.1 ≠ n := by
    intro heq
    rw [heq] at hlevel
    exact Nat.succ_ne_self _ hlevel.symm
  obtain ⟨hregs, hout'⟩ := @Regs.upSyncro _ _ _ _ (fun id' dir' => (set₂ ph' id port .req id' (n, dir')).reg) id pair
    (h.regs n) hst hid fun id' dir' => by
      rw [set₂_of_ne _ _ (fun h => hportn (by rw [← h.2])), hph'eq]
      by_cases heq : id' = id ∧ dir'.pair = pair
      · rw [if_pos heq, if_pos ⟨heq.1, by rw [half, heq.2]⟩]
        rfl
      · rw [if_neg heq, if_neg (fun h => heq ⟨h.1, (Prod.mk.inj h.2).2⟩)]
  have hset : ∀ p, set₂ ph' id port .req id p =
      if half p = (n, pair) ∧ b.used p = true then .up else if p = port then .req else ph id p := by
    intro p
    by_cases hpp : p = port
    · rw [hpp, set₂_self, if_neg (fun heq => hnot heq.1), if_pos rfl]
    · rw [set₂_of_ne _ _ (fun h => hpp h.2), if_neg hpp, hph'eq]
      exact if_congr ⟨fun heq => ⟨heq.2, hall p heq.2⟩, fun heq => ⟨rfl, heq.1⟩⟩ rfl rfl
  rw [hout', hout, maskOf_eq hb]
  refine ⟨set₂ ph' id port .req, ?_⟩
  refine h.frame (n := n) (emitAll_current _) (emitAll_sent _) (fun m hm => ?_) hb
    (fun id' hne' p => ?_) ?_ (fun m hm dir' => ?_) ?_ (fun p hd => ?_) ?_
  · rw [emitAll_node]
    exact update_of_ne hm _ _
  · rw [set₂_of_ne _ _ (fun h => hne' h.1), hph'eq, if_neg (fun h => hne' h.1)]
  · rw [emitAll_node]
    show Regs s.maskOf (s.EndsAt n) (update s.node n _ n) _
    rw [update_self]
    exact hregs
  · rw [hset, if_neg (fun heq => hm (Prod.mk.inj heq.1).1)]
    split
    case isTrue heq => rw [heq, hbefore]; rfl
    case isFalse => rfl
  · refine hp.goUp hne hup hport hbefore (fun p hhalf _ => ?_) hset
    rw [hkept p hhalf]
    rfl
  · rw [hset]
    have hportd : t.down port ≠ none := by rw [(t.down_iff _ _).2 hup]; simp
    split
    case isTrue heq => rw [hkept p heq.1]; exact ⟨by simp, by simp⟩
    case isFalse => rw [if_neg (fun heq : p = port => hportd (by rw [← heq]; exact hd))]
  · have hbefore' : ph' id port = .before := by
      rw [hph'eq, if_neg (fun h => hnot h.2), hbefore]
    have hset' : (s.setNode n ((s.node n).fsmUpSyncro pair)).CallsInv ph' := hcalls.setNode rfl
    exact hset'.emit_up hup hbefore' rfl ⟨b, hb, hport, rfl⟩

/-- **A barrier ends**: both ports are answered. -/
theorem endSyncro (h : TreeInv s ph) (hst : (s.node n).state = .endSyncro pair) (hout : (s.node n).outputs = []) :
    ∃ node, (s.node n).fsmEndSyncro pair = some node ∧ ∃ ph',
      TreeInv ((s.setNode n node).emitAll n node.outputs) ph' := by
  generalize hid : (s.node n).endId pair = id
  have hboth := ((h.regs n).both id pair).2 (Or.inr ⟨hst, hid⟩)
  have hkept := kept_of_both hboth
  have hfst : half (n, pair.fst) = (n, pair) := by rw [half, Pair.fst_pair]
  obtain ⟨b, hb, hused⟩ := h.inUse (show ph id (n, pair.fst) ≠ .before by rw [hkept _ hfst]; simp)
  have hp := h.phases id b hb
  have htop : b.top = (n, pair) := by
    have hends := (h.regs n).ends pair hst
    rw [hid] at hends
    exact (endsAt_iff hb).1 hends
  generalize hph' : (fun id' p => if id' = id ∧ half p = (n, pair) then answered t p else ph id' p) = ph'
  have hph'eq : ∀ id' p, ph' id' p = if id' = id ∧ half p = (n, pair) then answered t p else ph id' p :=
    fun id' p => by rw [← hph']
  have hset : ∀ p, ph' id p = if half p = b.top then answered t p else ph id p := fun p => by
    rw [hph'eq, htop]
    simp
  obtain ⟨node, hnode, hregs, hout'⟩ := @Regs.endSyncro _ _ _ _ (fun id' dir' => (ph' id' (n, dir')).reg) id pair
    (h.regs n) hst hid fun id' dir' => by
      rw [hph'eq]
      by_cases heq : id' = id ∧ dir'.pair = pair
      · rw [if_pos heq, if_pos ⟨heq.1, by rw [half, heq.2]⟩, answered]
        split <;> rfl
      · rw [if_neg heq, if_neg (fun h => heq ⟨h.1, (Prod.mk.inj h.2).2⟩)]
  refine ⟨node, hnode, ph', ?_⟩
  rw [hout', hout, nil_append]
  refine h.frame (n := n) (emitAll_current _) (emitAll_sent _) (fun m hm => ?_) hb
    (fun id' hne' p => ?_) ?_ (fun m hm dir' => ?_) ?_ (fun p hd => ?_) ?_
  · rw [emitAll_node]
    exact update_of_ne hm _ _
  · rw [hph'eq, if_neg (fun h => hne' h.1)]
  · rw [emitAll_node]
    show Regs s.maskOf (s.EndsAt n) (update s.node n _ n) _
    rw [update_self]
    exact hregs
  · rw [hph'eq, if_neg (fun heq => hm (Prod.mk.inj heq.2).1)]
  · refine hp.endTop (fun p hhalf => ?_) hset
    rw [hkept p (hhalf.trans htop)]
    rfl
  · rw [hset]
    split
    case isTrue heq =>
      rw [hkept p (heq.trans htop), answered, if_pos hd]
      exact ⟨by simp, by simp⟩
    case isFalse => rfl
  · have hnoteq : node.reqQueue = (s.node n).reqQueue := Node.fsmEndSyncro_reqQueue hnode
    have hrsp : ∀ dir, ((s.node n).wakeResp dir id).wake = true ∧ ((s.node n).wakeResp dir id).error = false ∧
        ((s.node n).wakeResp dir id).idRsp = id := fun dir => ⟨rfl, rfl, rfl⟩
    refine (h.calls.setNode hnoteq).emit_resps hrsp (Pair.answered_nodup pair) (fun dir hdir => ?_) fun id' p => ?_
    · rw [hkept _ (by rw [half, Pair.mem_answered.1 hdir])]
      rfl
    · rw [hph'eq]
      refine if_congr ?_ rfl rfl
      rw [half, Prod.mk.injEq, Pair.mem_answered]

/-! ## Answers -/

/-- **An answer** goes on to the ports of the pair. -/
theorem answer (h : TreeInv { s with calls := .response (n, pair) rsp :: s.calls } ph)
    (hout : (s.node n).outputs = []) :
    ∃ ph', TreeInv ((s.setNode n ((s.node n).masterInput (t.cfg n) pair rsp)).emitAll n
      ((s.node n).masterInput (t.cfg n) pair rsp).outputs) ph' := by
  obtain ⟨port, hd⟩ := h.calls.answers (n, pair) rsp mem_cons_self
  generalize hid : rsp.idRsp = id
  have hph : ph id port = .ans := by
    rw [← hid]
    exact h.calls.phase_of_response hd
  obtain ⟨b, hb, hused⟩ := h.inUse (show ph id port ≠ .before by rw [hph]; simp)
  have hp := h.phases id b hb
  have hup := (t.down_iff _ _).1 hd
  have hnot := half_ne_of_up hup
  have hne : (n, pair) ≠ b.top := by
    obtain ⟨p, hhalf, -⟩ := b.exists_used hused hd
    have hne := Barrier.below_ne_top b hused hd hhalf
    rwa [hhalf] at hne
  have hmask : b.mask ≠ noAggr := by
    intro hmask
    obtain ⟨p, htop, hdown⟩ := b.exists_top (P := fun p => t.down p ≠ none) (fun p p' _ _ _ hup' _ => by
      rw [(t.down_iff _ _).2 hup']
      simp) hused (by rw [hd]; simp)
    exact hdown (h.plain id b hb hmask p htop)
  -- the ports of the pair that the barrier uses have gone up
  have hgone : ∀ p, half p = (n, pair) → b.used p = true → ph id p = .up := by
    intro p hhalf hu
    have hbelow := hp.below_eq hused hd hhalf hu
    rw [hph] at hbelow
    cases hpp : ph id p <;> rw [hpp] at hbelow <;> first | rfl | cases hbelow
  have hunused : ∀ p, b.used p = false → ph id p = .before := fun p hu => hp.unused p hu
  have hreg : ∀ dir, dir.pair = pair → ((ph id (n, dir)).reg ≠ .none ↔ b.used (n, dir) = true) := by
    intro dir hdir
    cases hu : b.used (n, dir) with
    | true =>
      rw [hgone (n, dir) (by rw [half, hdir]) hu]
      exact ⟨fun _ => rfl, fun _ h => by cases h⟩
    | false =>
      rw [hunused _ hu]
      exact ⟨fun h => absurd rfl h, by simp⟩
  generalize hph' : (fun id' p => if id' = id ∧ half p = (n, pair) ∧ b.used p = true then answered t p
    else set₂ ph id port .done id' p) = ph'
  have hph'eq : ∀ id' p, ph' id' p = if id' = id ∧ half p = (n, pair) ∧ b.used p = true then answered t p
    else set₂ ph id port .done id' p := fun id' p => by rw [← hph']
  have hset : ∀ p, ph' id p = if half p = (n, pair) ∧ b.used p = true then answered t p
      else if p = port then .done else ph id p := by
    intro p
    rw [hph'eq, set₂]
    simp
  have hlevel := t.level_up _ _ hup
  have hportn : port.1 ≠ n := by
    intro heq
    rw [heq] at hlevel
    exact Nat.succ_ne_self _ hlevel.symm
  obtain ⟨hregs, hout'⟩ := @Regs.answer (t.cfg n) _ _ _ _ (fun id' dir' => (ph' id' (n, dir')).reg) id pair
    (h.regs n) rsp hid
    (fun dir hdir => by
      rw [maskOf_eq hb]
      cases hu : b.used (n, dir) with
      | true => exact Or.inr ⟨by rw [hgone (n, dir) (by rw [half, hdir]) hu]; rfl, hmask⟩
      | false => exact Or.inl (by rw [hunused _ hu]; rfl)) fun id' dir' => by
      rw [hph'eq]
      have hother : set₂ ph id port .done id' (n, dir') = ph id' (n, dir') :=
        set₂_of_ne _ _ fun h => hportn (by rw [← h.2])
      rw [hother]
      by_cases heq : id' = id ∧ dir'.pair = pair
      · rw [if_pos heq, heq.1]
        cases hu : b.used (n, dir') with
        | true =>
          rw [if_pos ⟨rfl, by rw [half, heq.2], rfl⟩, answered]
          split <;> rfl
        | false =>
          rw [if_neg (fun h => by cases h.2.2), hunused _ hu]
          rfl
      · rw [if_neg heq, if_neg (fun h => heq ⟨h.1, (Prod.mk.inj h.2.1).2⟩)]
  have hcalls : s.CallsInv (set₂ ph id port .done) := by
    rw [← hid]
    exact CallsOk.delivered h.calls hd
  rw [hout', hout, nil_append]
  refine ⟨ph', ?_⟩
  refine h.frame (n := n) (System.emitAll_current _) (System.emitAll_sent _) (fun m hm => ?_) hb
    (fun id' hne' p => ?_) ?_ (fun m hm dir' => ?_) (hp.answer hne hup hph hset) (fun p hdp => ?_) ?_
  · rw [System.emitAll_node]
    exact update_of_ne hm _ _
  · rw [hph'eq, if_neg (fun h => hne' h.1), set₂_of_ne _ _ (fun h => hne' h.1)]
  · rw [System.emitAll_node]
    show Regs s.maskOf (s.EndsAt n) (update s.node n _ n) _
    rw [update_self]
    exact hregs
  · rw [hset, if_neg (fun heq => hm (Prod.mk.inj heq.1).1)]
    split
    case isTrue heq => rw [heq, hph]; rfl
    case isFalse => rfl
  · rw [hset]
    split
    case isTrue heq =>
      rw [hgone p heq.1 heq.2, answered, if_pos hdp]
      exact ⟨by simp, by simp⟩
    case isFalse => rw [if_neg (fun heq : p = port => by rw [heq, hd] at hdp; cases hdp)]
  · have hset' : (s.setNode n ((s.node n).masterInput (t.cfg n) pair rsp)).CallsInv (set₂ ph id port .done) :=
      hcalls.setNode rfl
    refine hset'.emit_resps (fun dir => ⟨rfl, rfl, rfl⟩) ((Pair.answered_nodup pair).filter _) (fun dir hdir => ?_)
      fun id' p => ?_
    · obtain ⟨hmem, hr⟩ := mem_filter.1 hdir
      have hpair := Pair.mem_answered.1 hmem
      have hu := (hreg dir hpair).1 (of_decide_eq_true hr)
      rw [set₂_of_ne _ _ (fun h => hportn (by rw [← h.2])), hgone (n, dir) (by rw [half, hpair]) hu]
      rfl
    · rw [hph'eq]
      refine if_congr (and_congr_right fun _ => ?_) rfl rfl
      rw [half, Prod.mk.injEq, mem_filter, Pair.mem_answered, and_assoc]
      refine and_congr_right fun hn => and_congr_right fun hpair => ?_
      subst hn
      rw [decide_eq_true_eq]
      exact (hreg p.2 hpair).symm

end TreeInv

end GvsocPulp.FractalSync
