import GvsocPulp.FractalSync.TreeInv

/-!
# `FractalSync`: barriers

Whether a tree of nodes synchronises exactly the participants of each barrier (`Exact`).

- `treeStep_inv`: each step whose FSM event leaves no request behind keeps the invariant;
- `barriers_exact`: then the barriers are exact in all states; `barrier_missed`: a barrier that all its participants
  have asked for and that none is woken from.
-/

namespace GvsocPulp.FractalSync

open Lib Function List Option Node FractalSync.System TreeInv Phase
open Node (set₂)

variable {ν : Type} [DecidableEq ν] {t : Tree ν}

variable {req : PortReq} {dir : Dir} {e : NodeEvent} {node : Node} {rsp : PortResp} {c : Call ν} {id : Nat}
  {b : Barrier t} {port : ν × Dir}

/-! ## What a step keeps -/

/-- The event of the FSM is pending while it is not idle or a request is queued. -/
def Scheduled (s : Node) : Prop := s.state ≠ .idle ∨ s.reqQueue ≠ [] → s.fsmEvent = true

/-- No FSM event leaves a request behind that is not for the level of the node while another one is queued; and a
barrier whose mask is taken for none ends at participants. -/
def KeepsExact (s : System t) : TreeEvent t → Prop
  | .start _ b => b.mask = noAggr → ∀ port, half port = b.top → t.down port = none
  | .fsm n => KeepsUp (t.cfg n) (s.node n) .fsm
  | _ => True

section Nodes

variable {cfg : NodeConfig} {s s' : Node}

theorem handleReq_scheduled (hst : s.state = .idle)
    (h : s.reqQueue ≠ [] → s.fsmEvent = true ∨ req.isForLevel cfg = true) : Scheduled (s.handleReq cfg req dir) := by
  obtain ⟨hqueue, -, -, -, hstart⟩ := @handleReq_spec cfg s req dir
  intro hbusy
  split at hstart
  case isTrue => exact hstart.2
  case isFalse hfor =>
    rw [hstart.1, hqueue] at hbusy
    rw [hstart.2.1]
    exact (h (hbusy.resolve_left fun hne => hne hst)).resolve_right hfor

theorem fsmHandler_fsmEvent (hst : s.state ≠ .idle) (h : s.fsmHandler cfg = some s') : s'.fsmEvent = true := by
  rw [fsmHandler] at h
  cases hs : s.state with
  | idle => exact absurd hs hst
  | slaveReq dir =>
    rw [hs] at h
    cases h
    exact (fsmSlaveReq_step hs).fsmEvent
  | upSyncro pair =>
    rw [hs] at h
    cases h
    rfl
  | endSyncro pair =>
    rw [hs] at h
    dsimp only at h
    rw [fsmEndSyncro] at h
    split at h
    · cases h
      rfl
    · split at h
      · cases h
        rfl
      · cases h

theorem nodeStep_scheduled (h : Scheduled s) (hkeeps : e = .fsm → KeepsUp cfg s .fsm)
    (hs : nodeStep cfg s e = some s') : Scheduled s' := by
  cases e with
  | request dir req =>
    cases hs
    rw [slaveInput]
    split
    case isTrue hidle => exact handleReq_scheduled hidle fun hne => Or.inl (h (Or.inr hne))
    case isFalse hbusy => exact fun _ => h (Or.inl hbusy)
  | response pair rsp =>
    cases hs
    exact h
  | fsm =>
    rw [nodeStep] at hs
    split at hs
    case isFalse => cases hs
    case isTrue =>
      by_cases hidle : s.state = .idle
      · rw [fsmHandler, show s.fired.state = .idle from hidle] at hs
        cases hs
        cases hq : s.reqQueue with
        | nil =>
          rw [fsmIdle_nil (s := s.fired) hq]
          exact fun hbusy => hbusy.elim (fun hne => absurd hidle hne) fun hne => absurd hq hne
        | cons entry rest =>
          rw [fsmIdle_cons (s := s.fired) hq]
          exact handleReq_scheduled hidle fun hne => Or.inr (hkeeps rfl hidle entry rest hq hne)
      · exact fun _ => fsmHandler_fsmEvent (s := s.fired) hidle hs

end Nodes

namespace TreeInv

variable {s s' : System t} {ph : Nat → ν × Dir → Phase} {n : ν}

theorem requeue (h : TreeInv s ph) {calls : List (Call ν)}
    (hregs : ∀ regs, Regs s.maskOf (s.EndsAt n) (s.node n) regs → Regs s.maskOf (s.EndsAt n) node regs)
    (hcalls : CallsOk s.current calls (update s.queue n node.reqQueue) s.wakes ph) :
    TreeInv { s.setNode n node with calls := calls } ph := by
  have hqueue : queue { s.setNode n node with calls := calls } = update s.queue n node.reqQueue := by
    funext m
    show (update s.node n node m).reqQueue = _
    by_cases hm : m = n
    · rw [hm, update_self, update_self]
    · rw [update_of_ne hm, update_of_ne hm]
      rfl
  refine { h with regs := fun m => ?_, calls := by rw [System.CallsInv, hqueue]; exact hcalls }
  show Regs s.maskOf (s.EndsAt m) (update s.node n node m) _
  by_cases hm : m = n
  · subst hm
    rw [update_self]
    exact hregs _ (h.regs m)
  · rw [update_of_ne hm]
    exact h.regs m

theorem touch (h : TreeInv s ph) (hqueue : node.reqQueue = (s.node n).reqQueue)
    (hregs : ∀ regs, Regs s.maskOf (s.EndsAt n) (s.node n) regs → Regs s.maskOf (s.EndsAt n) node regs) :
    TreeInv (s.setNode n node) ph := by
  refine h.requeue hregs ?_
  have heq : update s.queue n node.reqQueue = s.queue := by rw [hqueue]; exact update_eq_self n s.queue
  rw [heq]
  exact h.calls

theorem setNode_setNode {node' : Node} : (s.setNode n node).setNode n node' = s.setNode n node' := by
  rw [setNode, setNode, setNode]
  simp

@[simp] theorem setNode_node_self {node : Node} : (s.setNode n node).node n = node := by
  rw [setNode]
  exact update_self ..

theorem request (h : TreeInv { s with calls := .request (n, dir) req :: s.calls } ph)
    (hs : s.nodeEvent n (.request dir req) = some s') : ∃ ph', TreeInv s' ph' := by
  obtain ⟨node, hnode, rfl⟩ := map_eq_some_iff.1 hs
  cases hnode
  rw [slaveInput]
  split
  case isTrue hidle =>
    generalize hnode₁ : ({ s.node n with
      outputs := []
      arrived := update (s.node n).arrived dir ((s.node n).arrived dir + 1)
      handled := (s.node n).handled ++ [(dir, (s.node n).arrived dir)] } : Node) = node₁
    have h₁ : TreeInv { s.setNode n node₁ with calls := .request (n, dir) req :: s.calls } ph := by
      refine h.touch (n := n) (by subst hnode₁; rfl) fun regs hr => ?_
      subst hnode₁
      exact hr.congr rfl rfl rfl rfl rfl rfl
    have hres := handleReq (s := s.setNode n node₁) h₁ (by rw [setNode_node_self]; subst hnode₁; exact hidle)
      (by rw [setNode_node_self]; subst hnode₁; rfl)
    rw [setNode_setNode, setNode_node_self] at hres
    subst hnode₁
    exact hres
  case isFalse =>
    exact ⟨ph, h.requeue (fun regs hr => hr.congr rfl rfl rfl rfl rfl rfl) (h.calls.enqueue _)⟩

theorem fsm (h : TreeInv s ph) (hs : s.nodeEvent n .fsm = some s') : ∃ ph', TreeInv s' ph' := by
  obtain ⟨node, hnode, rfl⟩ := map_eq_some_iff.1 hs
  rw [nodeStep] at hnode
  split at hnode
  case isFalse => cases hnode
  case isTrue =>
    have h₁ : TreeInv (s.setNode n (s.node n).fired) ph := h.touch rfl fun regs hr => hr.congr rfl rfl rfl rfl rfl rfl
    rw [fsmHandler] at hnode
    cases hst : (s.node n).state with
    | idle =>
      rw [show (s.node n).fired.state = .idle from hst] at hnode
      cases hnode
      cases hq : (s.node n).reqQueue with
      | nil =>
        rw [fsmIdle_nil (s := (s.node n).fired) hq]
        exact ⟨ph, h₁⟩
      | cons entry rest =>
        rw [fsmIdle_cons (s := (s.node n).fired) hq]
        generalize hnode₁ : ({ (s.node n).fired with
          reqQueue := rest, handled := (s.node n).handled ++ [(entry.portId, entry.seq)] } : Node) = node₁
        have hqueue : node₁.reqQueue = rest := by subst hnode₁; rfl
        have h₂ : TreeInv { s.setNode n node₁ with calls := .request (n, entry.portId) entry.req :: s.calls } ph := by
          refine h.requeue (fun regs hr => ?_) ?_
          · subst hnode₁
            exact hr.congr rfl rfl rfl rfl rfl rfl
          · rw [hqueue]
            exact h.calls.dequeue hq
        have hres := handleReq (s := s.setNode n node₁) h₂ (by rw [setNode_node_self]; subst hnode₁; exact hst)
          (by rw [setNode_node_self]; subst hnode₁; rfl)
        rw [setNode_setNode, setNode_node_self] at hres
        subst hnode₁
        exact hres
    | slaveReq dir =>
      rw [show (s.node n).fired.state = .slaveReq dir from hst] at hnode
      cases hnode
      have hres := slaveReq (n := n) h₁ (by rw [setNode_node_self]; exact hst) (by rw [setNode_node_self]; rfl)
      rw [setNode_setNode, setNode_node_self] at hres
      exact hres
    | upSyncro pair =>
      rw [show (s.node n).fired.state = .upSyncro pair from hst] at hnode
      cases hnode
      have hres := upSyncro (n := n) h₁ (by rw [setNode_node_self]; exact hst) (by rw [setNode_node_self]; rfl)
      rw [setNode_setNode, setNode_node_self] at hres
      exact hres
    | endSyncro pair =>
      rw [show (s.node n).fired.state = .endSyncro pair from hst] at hnode
      have hres := endSyncro (n := n) h₁ (by rw [setNode_node_self]; exact hst) (by rw [setNode_node_self]; rfl)
      rw [setNode_node_self] at hres
      obtain ⟨node', hnode', ph', hres⟩ := hres
      have hnode : (s.node n).fired.fsmEndSyncro pair = some node := hnode
      rw [hnode] at hnode'
      cases hnode'
      rw [setNode_setNode] at hres
      exact ⟨ph', hres⟩

theorem response {pair : Pair} (h : TreeInv { s with calls := .response (n, pair) rsp :: s.calls } ph)
    (hs : s.nodeEvent n (.response pair rsp) = some s') : ∃ ph', TreeInv s' ph' := by
  obtain ⟨node, hnode, rfl⟩ := map_eq_some_iff.1 hs
  cases hnode
  have h₁ : TreeInv { s.setNode n { s.node n with outputs := [] } with calls := .response (n, pair) rsp :: s.calls }
    ph :=
    h.touch rfl fun regs hr => hr.congr rfl rfl rfl rfl rfl rfl
  have hres := answer (s := s.setNode n { s.node n with outputs := [] }) h₁ (by rw [setNode_node_self])
  rw [setNode_setNode, setNode_node_self] at hres
  exact hres

theorem call (h : TreeInv { s with calls := c :: s.calls } ph) (hs : s.call c = some s') :
    ∃ ph', TreeInv s' ph' := by
  cases c with
  | request port req => exact h.request hs
  | response pair rsp => exact h.response hs

theorem clean (h : TreeInv s ph) (hdone : s.completed id = true) (port : ν × Dir) :
    ph id port = .before ∨ ph id port = .done := by
  rw [completed] at hdone
  cases hb : s.current id with
  | none => exact Or.inl (h.unused id hb port)
  | some b =>
    rw [hb] at hdone
    have hparts : ∀ part ∈ b.parts, ph id part = .done := by
      intro part hpart
      have hne := List.all_eq_true.1 hdone part hpart
      have hw := h.calls.wakes id part
      by_contra hnot
      rw [if_neg (fun h => hnot h.2)] at hw
      rw [hw] at hne
      cases hne
    cases hu : b.used port with
    | true => exact Or.inr ((h.phases id b hb).all_done hparts hu)
    | false => exact Or.inl ((h.phases id b hb).unused port hu)

theorem start (h : TreeInv s ph) (hdone : s.completed id = true)
    (hplain : b.mask = noAggr → ∀ port, half port = b.top → t.down port = none) :
    TreeInv { s with
      current := update s.current id (some b)
      sent := update s.sent id fun _ => false
      wakes := update s.wakes id fun _ => [] } (update ph id fun _ => .before) := by
  have hclean := h.clean hdone
  have hreg : ∀ port, (ph id port).reg = .none := fun port => by rcases hclean port with hp | hp <;> rw [hp] <;> rfl
  have hsame : ∀ id' port, (update ph id (fun _ => before) id' port).reg = (ph id' port).reg := by
    intro id' port
    by_cases hid : id' = id
    · rw [hid, update_self, hreg]
      rfl
    · rw [update_of_ne hid]
  have hphase : ∀ y : Phase, y ≠ .before → y ≠ .done → ∀ id' port,
      update ph id (fun _ => before) id' port = y ↔ ph id' port = y := by
    intro y hbefore hdone id' port
    by_cases hid : id' = id
    · rw [hid, update_self]
      refine ⟨fun h => absurd h.symm hbefore, fun h => ?_⟩
      rcases hclean port with hp | hp <;> rw [hp] at h
      · exact absurd h.symm hbefore
      · exact absurd h.symm hdone
    · rw [update_of_ne hid]
  -- a request that is on its way is not for the id
  have hlegit : ∀ port req, ph req.idReq port = .req → Legit s.current port req →
      Legit (update s.current id (some b)) port req := by
    rintro port req hph ⟨b', hb', hused, hreq⟩
    have hid : req.idReq ≠ id := by
      intro hid
      rw [hid] at hph
      rcases hclean port with hp | hp <;> rw [hp] at hph <;> cases hph
    exact ⟨b', by rw [update_of_ne hid]; exact hb', hused, hreq⟩
  have hpending : ∀ id' port, 0 < s.calls.countP (Call.isRequest id' port) +
      (s.queue port.1).countP (QueueEntry.isFor id' port.2) → ph id' port = .req := by
    intro id' port hpos
    by_contra hne
    rw [h.calls.requests id' port, if_neg hne] at hpos
    exact lt_irrefl 0 hpos
  refine ⟨fun m => ?_, fun id' b' hb' => ?_, fun id' hb' port => ?_, ⟨fun id' port => ?_, fun id' port pair hd => ?_,
    fun port req hc => ?_, fun m entry he => ?_, h.calls.answers, fun id' port => ?_⟩, fun id' b' hb' port hp => ?_,
    fun id' b' hb' => ?_⟩
  · simp only [hsame]
    refine (h.regs m).congr_mask fun id' hne => ?_
    have hid : id' ≠ id := by
      rintro rfl
      obtain ⟨dir, hdir⟩ := hne
      exact hdir (hreg (m, dir))
    rw [maskOf, maskOf]
    refine ⟨by simp only [update_of_ne hid], fun pair => ?_⟩
    rw [System.EndsAt, System.EndsAt]
    simp only [update_of_ne hid]
  · by_cases hid : id' = id
    · subst hid
      have hb'' : update s.current id' (some b) id' = some b' := hb'
      rw [update_self] at hb''
      cases hb''
      rw [update_self]
      exact PhasesOk.init b
    · have hb'' : update s.current id (some b) id' = some b' := hb'
      rw [update_of_ne hid] at hb'' ⊢
      exact h.phases id' b' hb''
  · have hb'' : update s.current id (some b) id' = none := hb'
    have hid : id' ≠ id := by
      rintro rfl
      rw [update_self] at hb''
      cases hb''
    rw [update_of_ne hid] at hb'' ⊢
    exact h.unused id' hb'' port
  · simp only [hphase .req (by simp) (by simp)]
    exact h.calls.requests id' port
  · simp only [hphase .ans (by simp) (by simp)]
    exact h.calls.responses id' port pair hd
  · refine hlegit port req (hpending _ _ ?_) (h.calls.legit port req hc)
    have hpos := countP_pos_iff.2 ⟨_, hc, (show Call.isRequest req.idReq port (.request port req) = true by
      simp [Call.isRequest])⟩
    exact hpos.trans_le (Nat.le_add_right _ _)
  · refine hlegit (m, entry.portId) entry.req (hpending _ _ ?_) (h.calls.queued m entry he)
    have hpos := countP_pos_iff.2 ⟨_, he, (show QueueEntry.isFor entry.req.idReq entry.portId entry = true by
      simp [QueueEntry.isFor])⟩
    exact hpos.trans_le (Nat.le_add_left _ _)
  · show if _ then Woken id' (update s.wakes id (fun _ => []) id' port) else
      update s.wakes id (fun _ => []) id' port = []
    by_cases hid : id' = id
    · rw [hid, update_self, update_self, if_neg (fun h => by cases h.2)]
    · rw [update_of_ne hid, update_of_ne hid]
      exact h.calls.wakes id' port
  · show update s.sent id (fun _ => false) id' port = false ↔ _
    have hb'' : update s.current id (some b) id' = some b' := hb'
    by_cases hid : id' = id
    · rw [hid, update_self, update_self]
      exact ⟨fun _ => rfl, fun _ => rfl⟩
    · rw [update_of_ne hid] at hb''
      rw [update_of_ne hid, update_of_ne hid]
      exact h.sent id' b' hb'' port hp
  · have hb'' : update s.current id (some b) id' = some b' := hb'
    by_cases hid : id' = id
    · rw [hid, update_self] at hb''
      cases hb''
      exact hplain
    · rw [update_of_ne hid] at hb''
      exact h.plain id' b' hb''

theorem ask (h : TreeInv s ph) (hb : s.current id = some b)
    (hport : port ∈ b.parts) (hsent : s.sent id port = false) :
    TreeInv { s with sent := set₂ s.sent id port true, calls := .request port (b.req id) :: s.calls }
      (set₂ ph id port .req) := by
  have hbefore : ph id port = .before := (h.sent id b hb port hport).1 hsent
  obtain ⟨hused, hd⟩ := (b.mem_parts port).1 hport
  have hsame : ∀ id' port', (set₂ ph id port .req id' port').reg = (ph id' port').reg := by
    intro id' port'
    by_cases heq : id' = id ∧ port' = port
    · rw [heq.1, heq.2, set₂_self, hbefore]
      rfl
    · rw [set₂_of_ne _ _ heq]
  refine ⟨fun m => ?_, fun id' b' hb' => ?_, fun id' hb' port' => ?_,
    CallsOk.send h.calls hbefore rfl ⟨b, hb, hused, rfl⟩, fun id' b' hb' port' hp => ?_, h.plain⟩
  · simp only [hsame]
    exact h.regs m
  · by_cases hid : id' = id
    · subst hid
      have hb'' : s.current id' = some b' := hb'
      rw [hb] at hb''
      cases hb''
      refine PhasesOk.move (x := .req) (h.phases id' b hb) hused (fun port' => ?_) (by rw [hbefore]; rfl)
        (Or.inl hd) (by simp)
        fun _ => ⟨by simp, by simp⟩
      rw [set₂]
      simp
    · rw [show set₂ ph id port .req id' = ph id' from funext fun port' => set₂_of_ne _ _ fun h => hid h.1]
      exact h.phases id' b' hb'
  · have hid : id' ≠ id := by
      rintro rfl
      have hb'' : s.current id' = none := hb'
      rw [hb] at hb''
      cases hb''
    rw [set₂_of_ne _ _ fun h => hid h.1]
    exact h.unused id' hb' port'
  · show set₂ s.sent id port true id' port' = false ↔ _
    by_cases heq : id' = id ∧ port' = port
    · rw [heq.1, heq.2, set₂_self, set₂_self]
      exact ⟨by simp, by simp⟩
    · rw [set₂_of_ne _ _ heq, set₂_of_ne _ _ heq]
      exact h.sent id' b' hb' port' hp

end TreeInv

/-! ## Steps -/

structure SystemInv (s : System t) : Prop where
  tree : ∃ ph, TreeInv s ph
  scheduled : ∀ n, Scheduled (s.node n)

section Steps

variable {s s' : System t} {n : ν}

theorem nodeEvent_scheduled (h : ∀ m, Scheduled (s.node m))
    (hkeeps : e = .fsm → KeepsUp (t.cfg n) (s.node n) .fsm) (hs : s.nodeEvent n e = some s') (m : ν) :
    Scheduled (s'.node m) := by
  obtain ⟨node, hnode, rfl⟩ := map_eq_some_iff.1 hs
  rw [emitAll_node]
  show Scheduled (update s.node n node m)
  by_cases hm : m = n
  · rw [hm, update_self]
    exact nodeStep_scheduled (h n) hkeeps hnode
  · rw [update_of_ne hm]
    exact h m

theorem call_scheduled (h : ∀ m, Scheduled (s.node m)) (hs : s.call c = some s') (m : ν) :
    Scheduled (s'.node m) := by
  cases c with
  | request port req => exact nodeEvent_scheduled (e := .request port.2 req) (n := port.1) h (fun h => nomatch h) hs m
  | response pair rsp => exact nodeEvent_scheduled (e := .response pair.2 rsp) (n := pair.1) h (fun h => nomatch h) hs m

theorem treeStep_inv {e : TreeEvent t} (h : SystemInv s) (hkeeps : KeepsExact s e) (hs : treeStep s e = some s') :
    SystemInv s' := by
  obtain ⟨⟨ph, htree⟩, hsched⟩ := h
  cases e with
  | start id b =>
    rw [treeStep] at hs
    split at hs
    case isFalse => cases hs
    case isTrue hstart =>
      cases hs
      exact ⟨⟨_, htree.start hstart.2 hkeeps⟩, hsched⟩
  | request id port =>
    rw [treeStep] at hs
    cases hb : s.current id with
    | none =>
      rw [hb] at hs
      cases hs
    | some b =>
      rw [hb] at hs
      dsimp only at hs
      split at hs
      case isFalse => cases hs
      case isTrue hask =>
        exact ⟨call (s := { s with sent := set₂ s.sent id port true }) (htree.ask hb hask.1 hask.2) hs,
          call_scheduled (s := { s with sent := set₂ s.sent id port true }) hsched hs⟩
  | fsm n => exact ⟨htree.fsm hs, nodeEvent_scheduled hsched (fun _ => hkeeps) hs⟩
  | deliver k =>
    rw [treeStep] at hs
    cases hk : s.calls[k]? with
    | none =>
      rw [hk] at hs
      cases hs
    | some c =>
      rw [hk] at hs
      obtain ⟨hlt, rfl⟩ := List.getElem?_eq_some_iff.1 hk
      have hperm : s.calls.Perm (s.calls[k] :: s.calls.eraseIdx k) := (getElem_cons_eraseIdx_perm hlt).symm
      have htree' : TreeInv { s with calls := s.calls[k] :: s.calls.eraseIdx k } ph :=
        htree.withCalls (htree.calls.perm hperm)
      exact ⟨call (s := { s with calls := s.calls.eraseIdx k }) htree' hs,
        call_scheduled (s := { s with calls := s.calls.eraseIdx k }) hsched hs⟩

theorem systemInv_init : SystemInv ({} : System t) := by
  have hwakes : ∀ id (port : ν × Dir), if t.down port = none ∧ before = done then Woken id [] else
      ([] : List PortResp) = [] := by
    intro id port
    rw [if_neg (fun h => nomatch h.2)]
  have hcalls : ({} : System t).CallsInv fun _ _ => .before :=
    ⟨fun _ _ => rfl, fun _ _ _ _ => rfl, fun _ _ h => (nomatch h), fun _ _ h => (nomatch h),
      fun _ _ h => (nomatch h), hwakes⟩
  have htree : TreeInv ({} : System t) fun _ _ => .before :=
    ⟨fun _ => Regs.init, fun _ _ h => (nomatch h), fun _ _ _ => rfl, hcalls, fun _ _ h => (nomatch h),
      fun _ _ h => (nomatch h)⟩
  exact ⟨⟨_, htree⟩, fun n hbusy => hbusy.elim (fun h => absurd rfl h) fun h => absurd rfl h⟩

end Steps

/-! ## Exact barriers -/

/-- What participants get is one wake with the id of the barrier, after all of them have asked for it; where nothing is
left to do, all participants of a barrier that all have asked for are woken; and no FSM event is fatal. -/
structure Exact (s : System t) : Prop where
  wake : ∀ id port rsp, rsp ∈ s.wakes id port → rsp.wake = true ∧ rsp.error = false ∧ rsp.idRsp = id ∧
    ∃ b, s.current id = some b ∧ port ∈ b.parts ∧ ∀ part ∈ b.parts, s.sent id part = true
  once : ∀ id port, (s.wakes id port).length ≤ 1
  complete : s.Quiet → ∀ id b, s.current id = some b → (∀ part ∈ b.parts, s.sent id part = true) →
    ∀ part ∈ b.parts, s.wakes id part ≠ []
  noFatal : ∀ n, (s.node n).fsmEvent = true → (treeStep s (.fsm n)).isSome = true

section Exactness

variable {s : System t} {ph : Nat → ν × Dir → Phase}

theorem TreeInv.woken (h : TreeInv s ph) (hrsp : rsp ∈ s.wakes id port) :
    t.down port = none ∧ ph id port = .done ∧ Woken id (s.wakes id port) := by
  have hw := h.calls.wakes id port
  by_cases hdone : t.down port = none ∧ ph id port = .done
  · rw [if_pos hdone] at hw
    exact ⟨hdone.1, hdone.2, hw⟩
  · rw [if_neg hdone] at hw
    rw [hw] at hrsp
    cases hrsp

theorem TreeInv.still (h : TreeInv s ph) (hsched : ∀ n, Scheduled (s.node n)) (hquiet : s.Quiet) (id : Nat) :
    PhasesOk.Still (ph id) := by
  obtain ⟨hcalls, hevents⟩ := hquiet
  have hidle : ∀ n, (s.node n).state = .idle ∧ (s.node n).reqQueue = [] := by
    intro n
    by_contra hne
    have hevent := hsched n (by
      by_contra hor
      rw [not_or, not_not, not_not] at hor
      exact hne hor)
    rw [hevents n] at hevent
    cases hevent
  refine ⟨fun port hp => ?_, fun port hp => ?_, fun port hp => ?_, fun pair hboth => ?_⟩
  · have hreq := h.calls.requests id port
    rw [hp, if_pos rfl, hcalls, queue, (hidle port.1).2] at hreq
    cases hreq
  · have hst := ((h.regs port.1).proc id port.2).1 (by rw [hp]; rfl)
    rw [(hidle port.1).1] at hst
    cases hst.1
  · cases hd : t.down port with
    | none =>
      obtain ⟨b, hb, -⟩ := h.inUse (show ph id port ≠ .before by rw [hp]; simp)
      exact (h.phases id b hb).leaf port hd hp
    | some pair =>
      have hrsp := h.calls.responses id port pair hd
      rw [hp, if_pos rfl, hcalls] at hrsp
      cases hrsp
  · have hregs : BothKept (fun dir => (ph id (pair.1, dir)).reg) pair.2 :=
      ⟨congrArg reg hboth.1, congrArg reg hboth.2⟩
    refine (h.regs pair.1).not_both ?_ ?_ hregs
    · rw [(hidle pair.1).1]
      simp
    · rw [(hidle pair.1).1]
      simp

theorem SystemInv.toExact (h : SystemInv s) : Exact s := by
  obtain ⟨⟨ph, htree⟩, hsched⟩ := h
  refine ⟨fun id port rsp hrsp => ?_, fun id port => ?_, fun hquiet id b hb hsent part hpart => ?_, fun n hevent => ?_⟩
  · obtain ⟨hd, hdone, rsp', heq, hwake, herror, hid⟩ := htree.woken hrsp
    rw [heq, mem_singleton] at hrsp
    subst hrsp
    obtain ⟨b, hb, hused⟩ := htree.inUse (show ph id port ≠ .before by rw [hdone]; nofun)
    refine ⟨hwake, herror, hid, b, hb, (b.mem_parts port).2 ⟨hused, hd⟩, fun part hpart => ?_⟩
    have hne := (htree.phases id b hb).sent_of_done hdone hpart
    cases hs : s.sent id part with
    | true => rfl
    | false => exact absurd ((htree.sent id b hb part hpart).1 hs) hne
  · cases hw : s.wakes id port with
    | nil => exact Nat.zero_le 1
    | cons rsp rsps =>
      obtain ⟨-, -, rsp', heq, -⟩ := htree.woken (show rsp ∈ s.wakes id port by rw [hw]; exact mem_cons_self)
      rw [hw] at heq
      rw [heq]
      exact rfl.le
  · have hbefore : ∀ part ∈ b.parts, ph id part ≠ .before := by
      intro part hpart hp
      have hs := hsent part hpart
      rw [(htree.sent id b hb part hpart).2 hp] at hs
      cases hs
    obtain ⟨hused, hd⟩ := (b.mem_parts part).1 hpart
    have hdone := (htree.phases id b hb).done_of_still (htree.still hsched hquiet id) hbefore hused
    have hw := htree.calls.wakes id part
    rw [if_pos ⟨hd, hdone⟩] at hw
    obtain ⟨rsp, heq, -⟩ := hw
    rw [heq]
    nofun
  · rw [treeStep, nodeEvent, isSome_map, nodeStep, if_pos hevent, fsmHandler]
    cases hst : (s.node n).state with
    | idle | slaveReq dir | upSyncro pair =>
      rw [show (s.node n).fired.state = _ from hst]
      rfl
    | endSyncro pair =>
      rw [show (s.node n).fired.state = _ from hst]
      have hfired : TreeInv (s.setNode n (s.node n).fired) ph :=
        htree.touch rfl fun regs hr => hr.congr rfl rfl rfl rfl rfl rfl
      have hst' : ((s.setNode n (s.node n).fired).node n).state = .endSyncro pair := by
        rw [setNode_node_self]
        exact hst
      obtain ⟨node, hnode, -⟩ := hfired.endSyncro hst' (by rw [setNode_node_self]; rfl)
      rw [setNode_node_self] at hnode
      show ((s.node n).fired.fsmEndSyncro pair).isSome = true
      rw [hnode]
      rfl

end Exactness

/-- **Barriers are exact** in all states of every run, as long as no FSM event leaves a request behind and no barrier
below the top has the mask that is taken for none. -/
theorem barriers_exact (t : Tree ν) (es : List (TreeEvent t)) (h : AllSteps treeStep KeepsExact ({} : System t) es) :
    AllStates treeStep Exact ({} : System t) es :=
  allStates_of_allSteps (I := SystemInv) (fun _ hs => hs.toExact)
    (fun _ _ _ hs hkeeps hstep => treeStep_inv hs hkeeps hstep) systemInv_init h

/-! ## A tree of three nodes -/

instance : Fintype Dir := ⟨{.nord, .sud, .east, .west}, fun dir => by cases dir <;> decide⟩

instance : Fintype Pair := ⟨{.nordSud, .eastWest}, fun pair => by cases pair <;> decide⟩

/-- Nodes 0 and 1 of level 0, both connected to node 2 of level 1: the north-south pairs to its north and south, the
east-west pairs to its east and west. -/
def smallTree : Tree (Fin 3) where
  cfg n := { level := if n = 2 then 1 else 0 }
  up
    | (0, .nordSud) => some (2, .nord)
    | (1, .nordSud) => some (2, .sud)
    | (0, .eastWest) => some (2, .east)
    | (1, .eastWest) => some (2, .west)
    | (2, _) => none
  down
    | (2, .nord) => some (0, .nordSud)
    | (2, .sud) => some (1, .nordSud)
    | (2, .east) => some (0, .eastWest)
    | (2, .west) => some (1, .eastWest)
    | _ => none
  down_iff := by decide
  level_up := by decide

/-- Between both ports of a pair of node 0. -/
def lowBarrier : Barrier smallTree where
  mask := 1
  top := (0, .nordSud)
  used port := half port = (0, .nordSud)
  parts := [(0, .nord), (0, .sud)]
  mask_ne_zero := by decide
  top_level := by decide
  used_top := by decide
  used_up := by decide
  level_le := by decide
  used_sync := by decide
  used_pass := by decide
  mem_parts := by decide

/-- Between a port of node 0 and one of node 1, by a pair of node 2. -/
def highBarrier (pair : Pair) (dir : Dir) (hdir : dir.pair = pair) : Barrier smallTree where
  mask := 2
  top := (2, pair)
  used port := half port = (2, pair) ∨ port = (0, dir) ∨ port = (1, dir)
  parts := [(0, dir), (1, dir)]
  mask_ne_zero := by decide
  top_level := by cases pair <;> decide
  used_top := by subst hdir; cases dir <;> decide
  used_up := by subst hdir; cases dir <;> decide
  level_le := by subst hdir; cases dir <;> decide
  used_sync := by subst hdir; cases dir <;> decide
  used_pass := by subst hdir; cases dir <;> decide
  mem_parts := by subst hdir; cases dir <;> decide

instance {s : System smallTree} {e : TreeEvent smallTree} : Decidable (KeepsExact s e) :=
  match e with
  | .start _ b => inferInstanceAs (Decidable (b.mask = noAggr → ∀ port, half port = b.top → smallTree.down port = none))
  | .fsm n =>
    decidable_of_iff ((s.node n).state = .idle → (s.node n).reqQueue.tail ≠ [] →
        ((s.node n).reqQueue.head?.all fun entry => entry.req.isForLevel (smallTree.cfg n)) = true) (by
      rw [KeepsExact, KeepsUp]
      cases hq : (s.node n).reqQueue with
      | nil => simp
      | cons entry rest => simp)
  | .request _ _ => isTrue trivial
  | .deliver _ => isTrue trivial

/-- A barrier between the nodes of level 0, while one of them synchronises another one. -/
def bothBarriers : List (TreeEvent smallTree) :=
  [.start 0 lowBarrier, .start 1 (highBarrier .nordSud .sud rfl), .request 0 (0, .nord), .request 1 (0, .sud),
    .fsm 0, .fsm 0, .deliver 0, .fsm 2, .request 1 (1, .sud), .deliver 0, .fsm 2, .fsm 2, .fsm 2,
    .deliver 0, .deliver 0]

theorem barriers_exact_bothBarriers :
    (run treeStep ({} : System smallTree) bothBarriers).map
      (fun s => ((s.wakes 1 (0, .sud)).length, (s.wakes 1 (1, .sud)).length)) =
      some (1, 1) ∧ AllStates treeStep Exact ({} : System smallTree) bothBarriers :=
  ⟨by decide +kernel, barriers_exact smallTree bothBarriers (by decide +kernel)⟩

/-- Two requests that node 0 passes on wait in its queue. -/
def missed : List (TreeEvent smallTree) :=
  [.start 0 lowBarrier, .start 1 (highBarrier .nordSud .sud rfl), .start 2 (highBarrier .eastWest .east rfl),
    .request 0 (0, .nord), .request 1 (0, .sud), .request 2 (0, .east), .fsm 0, .fsm 0, .deliver 0, .fsm 2, .fsm 2,
    .request 2 (1, .east), .deliver 0, .fsm 2, .fsm 2]

/-- Both participants have asked for barrier 2, nothing is left to do, and none is woken. -/
theorem barrier_missed : ¬AllStates treeStep Exact ({} : System smallTree) missed := by
  intro h
  have hrun : (run treeStep ({} : System smallTree) missed).map (fun s => (decide (s.calls.length = 0 ∧
      (∀ n, (s.node n).fsmEvent = false) ∧ s.sent 2 (0, .east) = true ∧ s.sent 2 (1, .east) = true ∧
        (s.wakes 2 (0, .east)).length = 0), (s.current 2).map (·.parts))) =
          some (true, some [(0, .east), (1, .east)]) := by
    decide +kernel
  obtain ⟨s, hs, heq⟩ := map_eq_some_iff.1 hrun
  obtain ⟨hstate, hcurrent⟩ := Prod.mk.inj heq
  obtain ⟨hcalls, hevents, hsent₀, hsent₁, hwakes⟩ := of_decide_eq_true hstate
  obtain ⟨b, hb, hparts⟩ := map_eq_some_iff.1 hcurrent
  have hsent : ∀ part ∈ b.parts, s.sent 2 part = true := by
    intro part hpart
    rw [hparts] at hpart
    rcases mem_cons.1 hpart with rfl | hpart
    · exact hsent₀
    · rw [mem_singleton.1 hpart]
      exact hsent₁
  exact (h.final hs).complete ⟨length_eq_zero_iff.1 hcalls, hevents⟩ 2 b hb hsent (0, .east)
    (by rw [hparts]; exact mem_cons_self) (length_eq_zero_iff.1 hwakes)

end GvsocPulp.FractalSync
