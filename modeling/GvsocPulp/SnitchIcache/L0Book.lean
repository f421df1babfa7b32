import GvsocPulp.Lib.Run
import GvsocPulp.SnitchIcache.L0

/-!
# The fetches and the tags of the L0

- `L0.Tags`: no tag is on two lines, nor on a line and on the refill in flight;
- `L0.Book`: every fetch is in one place, and what waits is woken up; `hand` is the fetch that a handler is at.
-/

namespace GvsocPulp.SnitchIcache

open Lib Function List Option L0

variable {r : Request} {slot : L0Slot} {e : L0Event}

namespace L0

variable {cfg : Config} {s t : L0} {req : Nat} {hand hand' : List Nat}

/-! ## Tags -/

structure Tags (cfg : Config) (s : L0) : Prop where
  distinct : ∀ w < cfg.lineCount, ∀ w' < cfg.lineCount, (s.lines w).tag ≠ noTag →
    (s.lines w).tag = (s.lines w').tag → w = w'
  slot : ∀ slot, s.slot = some slot → slot.tag ≠ noTag ∧ ∀ w < cfg.lineCount, (s.lines w).tag ≠ slot.tag

namespace Tags

theorem frame (h : Tags cfg s) (hlines : ∀ w, (t.lines w).tag = (s.lines w).tag)
    (hslot : t.slot.map (·.tag) = s.slot.map (·.tag)) : Tags cfg t := by
  refine ⟨by simp only [hlines]; exact h.distinct, fun slot hsl => ?_⟩
  rw [hsl] at hslot
  obtain ⟨slot', hsl', htag⟩ := map_eq_some_iff.1 hslot.symm
  have hsame : slot'.tag = slot.tag := htag
  simp only [hlines, ← hsame]
  exact h.slot slot' hsl'

theorem setLine (h : Tags cfg s) {way : Nat} {line : Line} (hlines : t.lines = update s.lines way line)
    (hline : line.tag ≠ noTag → ∀ w < cfg.lineCount, (s.lines w).tag ≠ line.tag)
    (hslot : ∀ slot, t.slot = some slot →
      slot.tag ≠ noTag ∧ line.tag ≠ slot.tag ∧ ∀ w < cfg.lineCount, (s.lines w).tag ≠ slot.tag) : Tags cfg t := by
  refine ⟨fun w hw w' hw' hne htag => ?_, fun slot hsl => ?_⟩
  · rw [hlines, update_apply, update_apply] at htag
    rw [hlines, update_apply] at hne
    split_ifs at htag hne with hway hway' hway'
    · rw [hway, hway']
    · exact (hline hne w' hw' htag.symm).elim
    · exact (hline (htag ▸ hne) w hw htag).elim
    · exact h.distinct w hw w' hw' hne htag
  · obtain ⟨hno, hnew, hold⟩ := hslot slot hsl
    refine ⟨hno, fun w hw => ?_⟩
    rw [hlines, update_apply]
    split
    · exact hnew
    · exact hold w hw

theorem checkState (h : Tags cfg s) : Tags cfg s.checkState := h.frame (fun _ => rfl) rfl

theorem not_tag {tag : BitVec 32} (hget : s.getLine cfg tag = none) : ∀ w < cfg.lineCount,
    (s.lines w).tag ≠ tag := fun w hw =>
  by simpa using find?_eq_none.1 hget w (mem_range.2 hw)

variable (h : Tags cfg s)
include h

theorem decidePrefetch (way : Nat) (addr : BitVec 32) : Tags cfg (s.decidePrefetch cfg way addr) := by
  rw [L0.decidePrefetch]
  simp only
  split_ifs with hoff hhit
  · exact h
  · exact h
  · split
    · refine h.setLine rfl (fun hne => (hne rfl).elim) fun slot hsl => ?_
      cases hsl
      exact ⟨cfg.tagOf_ne _, (cfg.tagOf_ne _).symm, not_tag (not_isSome_iff_eq_none.1 hhit)⟩
    · exact h.frame (fun _ => rfl) rfl

theorem sendPrefetch (status : RefillStatus) : Tags cfg (s.sendPrefetch cfg status) := by
  rw [L0.sendPrefetch]
  split
  · rename_i slot hslot _
    cases status with
    | denied | granted => exact h.frame (fun _ => rfl) (by rw [hslot]; rfl)
    | done latency =>
      refine Tags.checkState (h.setLine (readLine_lines cfg s slot.tag slot.way _) (fun _ => ?_) nofun)
      exact (h.slot slot hslot).2
  · exact h

theorem refill (hget : s.getLine cfg (cfg.tagOf r.addr) = none) (status : RefillStatus) :
    Tags cfg (s.refill cfg (cfg.tagOf r.addr) req r status).1 := by
  rw [L0.refill]
  split_ifs with htag hslot
  · exact h.frame (fun _ => rfl) rfl
  · exact h.frame (fun _ => rfl) rfl
  · split
    · exact h.frame (fun _ => rfl) rfl
    · rename_i way next _
      cases status with
      | granted =>
        refine h.setLine rfl (fun hne => (hne rfl).elim) fun slot hsl => ?_
        cases hsl
        exact ⟨cfg.tagOf_ne _, (cfg.tagOf_ne _).symm, not_tag hget⟩
      | denied => exact h.frame (fun _ => rfl) rfl
      | done latency =>
        refine h.setLine (readLine_lines cfg s (cfg.tagOf r.addr) way _) (fun _ => not_tag hget) fun slot hsl => ?_
        exact (hslot (show s.slot ≠ none from fun hnone => by
          rw [show s.slot = some slot from hsl] at hnone; cases hnone)).elim

theorem handleReq (req : Nat) (r : Request) (status : RefillStatus) : Tags cfg (s.handleReq cfg req r status).1 := by
  rw [L0.handleReq]
  split
  · exact h.refill ‹_› status
  · exact h.decidePrefetch _ _

theorem respQueued (latency : Nat) (data : List Byte) : Tags cfg (s.respQueued req latency data) := by
  rw [L0.respQueued]
  simp only
  split_ifs <;> exact h.frame (fun _ => rfl) rfl

theorem inputReq (addr : BitVec 32) (size : Nat) (status : RefillStatus) :
    Tags cfg (s.inputReq cfg addr size status) := by
  rw [L0.inputReq]
  simp only
  split_ifs
  · exact h.frame (fun _ => rfl) rfl
  · exact Tags.checkState (h.frame (fun _ => rfl) rfl)
  · have hfetch : Tags cfg
        { s with toTraffic := s.toTraffic.arrive cfg 0 addr size, idleAddr := none, idleEvent := none } :=
      h.frame (fun _ => rfl) rfl
    have hhandled := hfetch.handleReq s.reqs.length ⟨0, addr, size, s.flushed (cfg.tagOf addr)⟩ status
    split <;> rename_i hresult <;> rw [hresult] at hhandled
    · exact hhandled.frame (fun _ => rfl) rfl
    · exact hhandled
    · exact hhandled.frame (fun _ => rfl) rfl

theorem fsmHandler (ready : Bool) (status : RefillStatus) : Tags cfg (s.fsmHandler cfg ready status) := by
  rw [L0.fsmHandler]
  simp only
  split
  · rename_i req rest _
    split_ifs
    · split
      · rename_i r _
        have hpopped : Tags cfg { s with fsmEvent := none, todo := .checkState :: s.todo, refillPendingReqs := rest } :=
          h.frame (fun _ => rfl) rfl
        have hhandled := hpopped.handleReq req r status
        split <;> rename_i hresult <;> rw [hresult] at hhandled
        · exact hhandled.respQueued _ _
        · exact hhandled
        · exact hhandled.frame (fun _ => rfl) rfl
      · exact h.frame (fun _ => rfl) rfl
    · exact h.frame (fun _ => rfl) rfl
  · exact h.frame (fun _ => rfl) rfl

theorem refillResp (hslot : s.slot = some slot) : Tags cfg (s.refillResp cfg slot) := by
  have hland : Tags cfg { s.setLine slot.way { s.lines slot.way with tag := slot.tag } with slot := none } :=
    h.setLine rfl (fun _ => (h.slot slot hslot).2) nofun
  rw [L0.refillResp]
  simp only
  split
  · exact hland.checkState
  · exact hland.frame (fun _ => rfl) rfl

theorem step (hfix : e ≠ .flush ∧ ∀ addr, e ≠ .flushLine addr) (hstep : s.step cfg e = some t) :
    Tags cfg t := by
  cases e with
  | fetch addr size status =>
    obtain ⟨-, rfl⟩ := ite_some_none_eq_some.1 hstep
    exact h.inputReq addr size status
  | idle | refillRetry | enable | enablePrefetching | write =>
    cases hstep
    exact h.frame (fun _ => rfl) rfl
  | bypassResp req =>
    obtain ⟨u, -, rfl⟩ := map_eq_some_iff.1 hstep
    exact h.frame (fun _ => rfl) rfl
  | memory =>
    obtain ⟨slot, hslot, -, rfl⟩ := step_memory hstep
    refine h.frame (fun w => ?_) (by rw [hslot]; rfl)
    simp only [L0.readLine, L0.setLine, update_apply]
    split
    · rw [‹w = _›]
    · rfl
  | refillResp isLast =>
    obtain rfl | ⟨slot, hslot, -, rfl⟩ := step_refillResp hstep
    · exact h
    · exact h.refillResp hslot
  | flush => exact (hfix.1 rfl).elim
  | flushLine addr => exact (hfix.2 addr rfl).elim
  | fsm ready status =>
    obtain ⟨-, rfl⟩ := ite_some_none_eq_some.1 hstep
    exact h.fsmHandler ready status
  | prefetch status =>
    obtain ⟨-, rfl⟩ := ite_some_none_eq_some.1 hstep
    have hquiet : Tags cfg { s with prefetchEvent := none } := h.frame (fun _ => rfl) rfl
    exact hquiet.sendPrefetch status
  | missDecide =>
    obtain ⟨-, rfl⟩ := ite_some_none_eq_some.1 hstep
    exact missDecideHandler_keeps (h.frame (fun _ => rfl) rfl) fun way addr h => h.decidePrefetch way addr
  | idleHandler =>
    obtain ⟨-, rfl⟩ := ite_some_none_eq_some.1 hstep
    exact idleHandler_keeps (h.frame (fun _ => rfl) rfl) fun way addr h => h.decidePrefetch way addr
  | delayedResp =>
    obtain ⟨-, rfl⟩ := ite_some_none_eq_some.1 hstep
    exact h.frame (fun _ => rfl) rfl
  | «continue» status =>
    rw [step] at hstep
    split at hstep
    · cases hstep
      exact Tags.checkState (h.frame (fun _ => rfl) rfl)
    · rename_i todo _
      cases hstep
      have hquiet : Tags cfg { s with todo := todo } := h.frame (fun _ => rfl) rfl
      exact hquiet.sendPrefetch status
    · cases hstep
      exact h.frame (fun _ => rfl) rfl
    · cases hstep
      rw [delayedRespLoop]
      split
      · split_ifs <;> exact h.frame (fun _ => rfl) rfl
      · exact h.frame (fun _ => rfl) rfl
    · cases hstep
  | tick =>
    obtain ⟨-, ⟨⟩⟩ := ite_none_left_eq_some.1 hstep
    exact h.frame (fun _ => rfl) rfl

end Tags

/-! ## Fetches -/

/-- Where the fetches are. -/
def places (s : L0) (hand : List Nat) : List Nat :=
  s.denied ++ s.refillPendingReqs ++ (s.slot.bind (·.cpuReq)).toList ++ s.delayedResps.map (·.2.1) ++ s.bypassed ++
    s.answered.map (·.req) ++ hand

/-- Every fetch is in one place; a prefetch that has not been sent has its event, or the refill port owes a retry. -/
structure Book (s : L0) (hand : List Nat) : Prop where
  once : ∀ req, (s.places hand).count req = if req < s.reqs.length then 1 else 0
  pending : s.prefetchSlot = true → ∃ slot, s.slot = some slot ∧ slot.sent = false ∧ slot.cpuReq = none
  sent : ∀ slot, s.slot = some slot → slot.sent = false → s.prefetchSlot = true ∧ slot.fetched = false ∧
    (s.prefetchEvent ≠ none ∨ slot.denied = true)
  delayed : .delayedResps ∉ s.todo → s.delayedResps ≠ [] → s.delayedRespEvent ≠ none

/-- What is queued is looked at again. -/
def Wake (s : L0) : Prop :=
  .checkState ∉ s.todo → s.refillPendingReqs ≠ [] → s.fsmEvent ≠ none ∨ s.slot ≠ none ∨ s.refillRetryPending = true

theorem wake_checkState (s : L0) : s.checkState.Wake := by
  intro _ hqueue
  by_cases hfsm : s.slot = none ∧ s.refillRetryPending = false ∧ s.refillPendingReqs ≠ [] ∧ s.fsmEvent = none
  · refine .inl ?_
    rw [checkState, if_pos hfsm]
    nofun
  · by_cases hslot : s.slot = none
    · cases hretry : s.refillRetryPending with
      | true => exact .inr (.inr hretry)
      | false =>
        refine .inl fun hnone => hfsm ⟨hslot, hretry, hqueue, ?_⟩
        rwa [checkState, if_neg hfsm] at hnone
    · exact .inr (.inl hslot)

namespace Book

theorem frame (h : Book s hand) (hcount : ∀ req, (t.places hand').count req = (s.places hand).count req)
    (hreqs : t.reqs = s.reqs) (hslot : t.slot = s.slot) (hprefetch : t.prefetchSlot = s.prefetchSlot)
    (hevent : t.prefetchEvent = s.prefetchEvent) (htodo : .delayedResps ∈ s.todo → .delayedResps ∈ t.todo)
    (hdelayed : t.delayedResps = s.delayedResps) (hresp : t.delayedRespEvent = s.delayedRespEvent) : Book t hand' := by
  refine ⟨fun req => ?_, ?_, ?_, fun hnot hne => ?_⟩
  · rw [hcount, hreqs]
    exact h.once req
  · rw [hprefetch, hslot]
    exact h.pending
  · rw [hprefetch, hslot, hevent]
    exact h.sent
  · rw [hdelayed] at hne
    rw [hresp]
    exact h.delayed (fun hmem => hnot (htodo hmem)) hne

theorem checkState (h : Book s hand) : Book s.checkState hand := h.frame (fun _ => rfl) rfl rfl rfl rfl id rfl rfl

theorem hand_answer (h : Book s [req]) {data : List Byte} :
    Book { s with toTraffic := s.toTraffic.answer 0 req data } [] := by
  refine h.frame (fun x => ?_) rfl rfl rfl rfl id rfl rfl
  simp [places, Traffic.answer, count_append, count_cons]

theorem hand_queue (h : Book s [req]) : Book { s with refillPendingReqs := s.refillPendingReqs ++ [req] } [] := by
  refine h.frame (fun x => ?_) rfl rfl rfl rfl id rfl rfl
  simp only [places, count_append, count_cons, count_nil]
  omega

theorem takePrefetch (h : Book s hand) (hnone : s.slot = none) (hslot : t.slot = some slot)
    (hcpu : slot.cpuReq = none) (hsent : slot.sent = false) (hfetched : slot.fetched = false)
      (hprefetch : t.prefetchSlot = true)
    (hevent : t.prefetchEvent ≠ none) (hreqs : t.toTraffic = s.toTraffic)
      (hqueue : t.refillPendingReqs = s.refillPendingReqs)
    (htodo : t.todo = s.todo) (hdelayed : t.delayedResps = s.delayedResps)
      (hresp : t.delayedRespEvent = s.delayedRespEvent) :
    Book t hand := by
  refine ⟨fun req => ?_, fun _ => ⟨slot, hslot, hsent, hcpu⟩, fun slot' hsl _ => ?_, ?_⟩
  · have hplaces : t.places hand = s.places hand := by
      rw [places, places, hreqs, hqueue, hslot, hnone, hdelayed]
      simp [hcpu]
    rw [hplaces, hreqs]
    exact h.once req
  · rw [hslot] at hsl
    cases hsl
    exact ⟨hprefetch, hfetched, .inl hevent⟩
  · rw [htodo, hdelayed, hresp]
    exact h.delayed

theorem decidePrefetch (h : Book s hand) (way : Nat) (addr : BitVec 32) :
    Book (s.decidePrefetch cfg way addr) hand := by
  rw [L0.decidePrefetch]
  simp only
  split_ifs with hoff hhit
  · exact h
  · exact h
  · split
    · refine h.takePrefetch ?_ rfl rfl rfl rfl rfl enqueue_ne_none rfl rfl rfl rfl rfl
      by_contra hne
      exact hoff (.inr hne)
    · exact h.frame (fun _ => rfl) rfl rfl rfl rfl id rfl rfl

theorem once_of_slot (h : Book s hand) (hcpu : s.slot.bind (·.cpuReq) = none) (hcpu' : t.slot.bind (·.cpuReq) = none)
    (hdenied : t.denied = s.denied) (hqueue : t.refillPendingReqs = s.refillPendingReqs)
    (hdelayed : t.delayedResps = s.delayedResps) (hbypassed : t.bypassed = s.bypassed)
      (hanswered : t.answered = s.answered)
    (hreqs : t.reqs = s.reqs) (x : Nat) : (t.places hand).count x = if x < t.reqs.length then 1 else 0 := by
  have honce := h.once x
  rw [places, hcpu] at honce
  rw [places, hcpu', hdenied, hqueue, hdelayed, hbypassed, hanswered, hreqs]
  exact honce

theorem sendPrefetch (h : Book s hand) (event : Option Nat) (status : RefillStatus) :
    Book ({ s with prefetchEvent := event }.sendPrefetch cfg status) hand := by
  rw [L0.sendPrefetch]
  split
  · rename_i slot hslot hpending
    have hslot : s.slot = some slot := hslot
    obtain ⟨slot', hslot', hsent, hcpu⟩ := h.pending hpending
    rw [hslot] at hslot'
    obtain rfl := Option.some.inj hslot'
    have hbind : s.slot.bind (·.cpuReq) = none := by rw [hslot]; exact hcpu
    cases status with
    | denied =>
      refine ⟨h.once_of_slot hbind hcpu rfl rfl rfl rfl rfl rfl, fun _ => ⟨_, rfl, hsent, hcpu⟩,
        fun slot' hsl _ => ?_, h.delayed⟩
      cases hsl
      exact ⟨hpending, (h.sent slot hslot hsent).2.1, .inr rfl⟩
    | granted =>
      refine ⟨h.once_of_slot hbind hcpu rfl rfl rfl rfl rfl rfl, nofun, fun slot' hsl hsent' => ?_, h.delayed⟩
      cases hsl
      cases hsent'
    | done latency =>
      exact Book.checkState ⟨h.once_of_slot hbind rfl rfl rfl rfl rfl rfl rfl, nofun, nofun, h.delayed⟩
  · rename_i hnot
    refine { h with sent := fun slot hsl hsent => ?_ }
    exact (hnot slot hsl (h.sent slot hsl hsent).1).elim

/-- What `handle_req` makes of the fetch in hand. -/
def Kept (req : Nat) (result : L0 × L0Status) : Prop :=
  match result.2 with
  | .granted => Book result.1 []
  | _ => Book result.1 [req]

theorem refillVictim_ne_none (hnone : s.slot = none) (skip : Option Nat) : (s.refillVictim cfg skip).1 ≠ none := by
  rw [refillVictim]
  intro hfind
  have hall := find?_eq_none.1 hfind _ (List.mem_map.2 ⟨0, mem_range.2 cfg.lineCount_pos, rfl⟩)
  simp [hnone] at hall

theorem refill (h : Book s [req]) (tag : BitVec 32) (r : Request) (status : RefillStatus) :
    Kept req (s.refill cfg tag req r status) := by
  rw [L0.refill]
  split_ifs with htag hslot
  · exact h.hand_queue
  · exact h.hand_queue
  · have hnone : s.slot = none := not_not.1 hslot
    split
    · rename_i next hvictim
      exact (refillVictim_ne_none hnone none (congrArg Prod.fst hvictim)).elim
    · rename_i way next _
      cases status with
      | granted =>
        refine ⟨fun x => ?_, fun hpre => ?_, fun slot hsl hsent => ?_, h.delayed⟩
        · have honce := h.once x
          change count x (places _ _) = if x < s.reqs.length then 1 else 0
          rw [places, hnone] at honce
          simp only [places, setLine, bind_some, bind_none, toList_none, toList_some,
            count_append, append_nil] at honce ⊢
          omega
        · obtain ⟨slot, hsl, -⟩ := h.pending hpre
          rw [hnone] at hsl
          cases hsl
        · cases hsl
          cases hsent
      | denied => exact h.frame (fun _ => rfl) rfl rfl rfl rfl id rfl rfl
      | done latency => exact h.frame (fun _ => rfl) rfl rfl rfl rfl id rfl rfl

theorem handleReq (h : Book s [req]) (cfg : Config) (r : Request) (status : RefillStatus) :
    Kept req (s.handleReq cfg req r status) := by
  rw [L0.handleReq]
  split
  · exact h.refill _ r status
  · exact h.decidePrefetch _ _

theorem respQueued (h : Book s [req]) (latency : Nat) (data : List Byte) : Book (s.respQueued req latency data) [] := by
  rw [L0.respQueued]
  simp only
  split_ifs
  · exact h.hand_answer
  · refine ⟨fun x => ?_, h.pending, h.sent, fun _ _ => enqueue_ne_none⟩
    have honce := h.once x
    have hsplit := takeWhile_append_dropWhile (p := fun d : Nat × Nat × List Byte => decide (d.1 ≤ s.cycle + latency))
      (l := s.delayedResps)
    rw [places, ← hsplit] at honce
    simp only [places, map_append, map_cons, count_append, count_cons, count_nil] at honce ⊢
    omega

theorem inputReq (h : Book s []) (addr : BitVec 32) (size : Nat) (status : RefillStatus) :
    Book (s.inputReq cfg addr size status) [] := by
  have harrive : Book { s with toTraffic := s.toTraffic.arrive cfg 0 addr size } [s.reqs.length] := by
    refine { h with once := fun x => ?_ }
    have honce := h.once x
    simp only [places, Traffic.arrive, append_nil, count_append, count_cons, count_nil, length_append,
      length_singleton, beq_iff_eq] at honce ⊢
    split_ifs at honce ⊢ <;> omega
  rw [L0.inputReq]
  simp only
  split_ifs with hbypass hqueue
  · refine harrive.frame (fun x => ?_) (Traffic.bypass_reqs ..) rfl rfl rfl id rfl rfl
    cases status <;>
      simp only [places, Traffic.bypass, Traffic.deny, Traffic.read, Traffic.answer, map_append, map_cons, map_nil,
        count_append, count_nil] <;> omega
  · exact Book.checkState ((harrive.frame (t := { s with
      toTraffic := s.toTraffic.arrive cfg 0 addr size, idleAddr := none, idleEvent := none })
      (fun _ => rfl) rfl rfl rfl rfl id rfl rfl).hand_queue)
  · have hfetch : Book { s with toTraffic := s.toTraffic.arrive cfg 0 addr size, idleAddr := none, idleEvent := none }
        [s.reqs.length] := harrive.frame (fun _ => rfl) rfl rfl rfl rfl id rfl rfl
    have hhandled := hfetch.handleReq cfg ⟨0, addr, size, s.flushed (cfg.tagOf addr)⟩ status
    split <;> rename_i hresult <;> rw [hresult] at hhandled
    · exact Book.hand_answer hhandled
    · exact hhandled
    · refine Book.frame hhandled (fun x => ?_) rfl rfl rfl rfl id rfl rfl
      simp only [places, Traffic.deny, count_append, count_nil]
      omega

theorem fsmHandler (h : Book s []) (ready : Bool) (status : RefillStatus) : Book
    (s.fsmHandler cfg ready status) [] := by
  have hquiet : Book { s with fsmEvent := none, todo := .checkState :: s.todo } [] :=
    h.frame (fun _ => rfl) rfl rfl rfl rfl (mem_cons_of_mem _) rfl rfl
  rw [L0.fsmHandler]
  simp only
  split
  · rename_i req rest hqueue
    split_ifs
    · split
      · rename_i r _
        have hpopped : Book { s with fsmEvent := none, todo := .checkState :: s.todo, refillPendingReqs := rest }
          [req] := by
          refine hquiet.frame (fun x => ?_) rfl rfl rfl rfl id rfl rfl
          simp only [places, show s.refillPendingReqs = req :: rest from hqueue, count_append, count_cons,
            count_nil]
          omega
        have hhandled := hpopped.handleReq cfg r status
        split <;> rename_i hresult <;> rw [hresult] at hhandled
        · exact Book.respQueued hhandled _ _
        · exact hhandled
        · refine Book.frame hhandled (fun x => ?_) rfl rfl rfl rfl id rfl rfl
          simp only [places, count_append, count_cons, count_nil]
          omega
      · exact hquiet
    · exact hquiet
  · exact hquiet

theorem refillResp (h : Book s []) (hslot : s.slot = some slot) (hfetched : slot.fetched = true)
    (hreqs : ∀ req, slot.cpuReq = some req → ∃ r, s.reqs[req]? = some r) : Book (s.refillResp cfg slot) [] := by
  have hpre : s.prefetchSlot = false := by
    refine Bool.eq_false_iff.2 fun hpre => ?_
    obtain ⟨slot', hslot', hsent, -⟩ := h.pending hpre
    rw [hslot] at hslot'
    obtain rfl := Option.some.inj hslot'
    rw [(h.sent slot hslot hsent).2.1] at hfetched
    cases hfetched
  have hland : ∀ hand, (∀ x, ((slot.cpuReq.toList ++ []).count x = hand.count x)) →
      Book { s.setLine slot.way { s.lines slot.way with tag := slot.tag } with slot := none } hand :=
        fun hand hhand => by
    refine ⟨fun x => ?_, fun hp => ?_, nofun, h.delayed⟩
    · have honce := h.once x
      have hx := hhand x
      change count x (places _ _) = if x < s.reqs.length then 1 else 0
      rw [places, hslot] at honce
      simp only [places, setLine, bind_some, bind_none, toList_none, count_append,
        count_nil] at honce hx ⊢
      omega
    · rw [show s.prefetchSlot = true from hp] at hpre
      cases hpre
  rw [L0.refillResp]
  simp only
  split
  · rename_i hcpu
    refine Book.checkState (hland [] fun x => ?_)
    cases hreq : slot.cpuReq with
    | none => rfl
    | some req =>
      obtain ⟨r, hr⟩ := hreqs req hreq
      rw [hreq, bind_some, show (s.setLine slot.way _).reqs[req]? = some r from hr] at hcpu
      cases hcpu
  · rename_i req r hcpu
    obtain ⟨req', hreq', hr'⟩ := bind_eq_some_iff.1 hcpu
    obtain ⟨r', -, he⟩ := map_eq_some_iff.1 hr'
    cases he
    have hhand := hland [req] fun x => by rw [hreq']; rfl
    exact hhand.hand_answer.frame (fun _ => rfl) rfl rfl rfl rfl (mem_cons_of_mem _) rfl rfl

theorem delayedRespLoop (h : Book { s with todo := .delayedResps :: s.todo } []) : Book s.delayedRespLoop [] := by
  rw [L0.delayedRespLoop]
  split
  · rename_i due req data rest hresps
    split_ifs
    · refine ⟨fun x => ?_, h.pending, h.sent, fun hnot => (hnot mem_cons_self).elim⟩
      have honce := h.once x
      change count x (places _ _) = if x < s.reqs.length then 1 else 0
      change count x (places _ _) = if x < s.reqs.length then 1 else 0 at honce
      simp only [places, hresps, Traffic.answer, map_append, map_cons, map_nil, count_append,
        count_cons, count_nil] at honce ⊢
      omega
    · exact { h with delayed := fun _ _ => enqueue_ne_none }
  · rename_i hnil
    exact { h with delayed := fun _ hne => (hne hnil).elim }

theorem bypassResp (h : Book s []) {u : Traffic} (hu : s.toTraffic.bypassResp req = some u) :
    Book { s with toTraffic := u } [] := by
  rw [Traffic.bypassResp, ite_none_right_eq_some] at hu
  obtain ⟨hmem, hu⟩ := hu
  obtain ⟨r, -, rfl⟩ := map_eq_some_iff.1 hu
  refine h.frame (fun x => ?_) rfl rfl rfl rfl id rfl rfl
  have hpos := count_pos_iff.2 hmem
  simp only [places, Traffic.read, Traffic.answer, map_append, map_cons, map_nil, count_append,
    count_cons, count_nil, count_erase, beq_iff_eq]
  split_ifs with hx
  · rw [← hx]
    omega
  · omega

theorem step (h : Book s []) (hreqs : ∀ slot, s.slot = some slot → ∀ req, slot.cpuReq = some req → ∃ r,
    s.reqs[req]? = some r)
    (hstep : s.step cfg e = some t) : Book t [] := by
  have hpop : ∀ {head : L0Todo} {todo}, s.todo = head :: todo → head ≠ .delayedResps →
    Book { s with todo := todo } [] :=
    fun {head todo} htodo hne => h.frame (fun _ => rfl) rfl rfl rfl rfl (fun hmem => by
      rw [htodo] at hmem
      exact (mem_cons.1 hmem).resolve_left fun he => hne he.symm) rfl rfl
  cases e with
  | fetch addr size status =>
    obtain ⟨-, rfl⟩ := ite_some_none_eq_some.1 hstep
    exact h.inputReq addr size status
  | idle | enable | enablePrefetching | write | flush | flushLine =>
    cases hstep
    exact h.frame (fun _ => rfl) rfl rfl rfl rfl id rfl rfl
  | refillRetry =>
    cases hstep
    exact h.frame (fun _ => rfl) rfl rfl rfl rfl
      (fun hmem => mem_cons_of_mem _ (mem_cons_of_mem _ (mem_cons_of_mem _ hmem))) rfl rfl
  | bypassResp req =>
    obtain ⟨u, hu, rfl⟩ := map_eq_some_iff.1 hstep
    exact h.bypassResp hu
  | memory =>
    obtain ⟨slot, hslot, hsent, rfl⟩ := step_memory hstep
    refine ⟨fun x => ?_, fun hp => ?_, fun slot' hsl hnot => ?_, h.delayed⟩
    · have honce := h.once x
      rw [places, hslot] at honce
      exact honce
    · obtain ⟨slot', hslot', hnot, -⟩ := h.pending hp
      rw [hslot] at hslot'
      obtain rfl := Option.some.inj hslot'
      rw [hsent] at hnot
      cases hnot
    · cases hsl
      rw [show slot.sent = false from hnot] at hsent
      cases hsent
  | refillResp isLast =>
    obtain rfl | ⟨slot, hslot, hfetched, rfl⟩ := step_refillResp hstep
    · exact h
    · exact h.refillResp hslot hfetched (hreqs slot hslot)
  | fsm ready status =>
    obtain ⟨-, rfl⟩ := ite_some_none_eq_some.1 hstep
    exact h.fsmHandler ready status
  | prefetch status =>
    obtain ⟨-, rfl⟩ := ite_some_none_eq_some.1 hstep
    exact h.sendPrefetch none status
  | missDecide =>
    obtain ⟨-, rfl⟩ := ite_some_none_eq_some.1 hstep
    exact missDecideHandler_keeps (P := (Book · [])) (h.frame (fun _ => rfl) rfl rfl rfl rfl id rfl rfl)
      fun way addr h => h.decidePrefetch way addr
  | idleHandler =>
    obtain ⟨-, rfl⟩ := ite_some_none_eq_some.1 hstep
    exact idleHandler_keeps (P := (Book · [])) (h.frame (fun _ => rfl) rfl rfl rfl rfl id rfl rfl) fun way addr h =>
      h.decidePrefetch way addr
  | delayedResp =>
    obtain ⟨-, rfl⟩ := ite_some_none_eq_some.1 hstep
    exact { h with delayed := fun hnot => (hnot mem_cons_self).elim }
  | «continue» status =>
    rw [step] at hstep
    split at hstep
    · rename_i htodo
      cases hstep
      exact (hpop htodo (by simp)).checkState
    · rename_i htodo
      cases hstep
      exact (hpop htodo (by simp)).sendPrefetch s.prefetchEvent status
    · rename_i htodo
      cases hstep
      exact (hpop htodo (by simp)).frame (fun _ => rfl) rfl rfl rfl rfl id rfl rfl
    · rename_i todo htodo
      cases hstep
      refine Book.delayedRespLoop ?_
      rw [← htodo]
      exact h
    · cases hstep
  | tick =>
    obtain ⟨-, ⟨⟩⟩ := ite_none_left_eq_some.1 hstep
    exact h.frame (fun _ => rfl) rfl rfl rfl rfl id rfl rfl

end Book

/-! ## What wakes up the queue -/

namespace Wake

theorem frame (h : s.Wake) (htodo : .checkState ∈ s.todo → .checkState ∈ t.todo)
    (hqueue : t.refillPendingReqs ≠ [] → s.refillPendingReqs ≠ []) (hfsm : s.fsmEvent ≠ none → t.fsmEvent ≠ none)
    (hslot : s.slot ≠ none → t.slot ≠ none) (hretry : s.refillRetryPending = true → t.refillRetryPending = true) :
      t.Wake :=
  fun hnot hne => (h (fun hmem => hnot (htodo hmem)) (hqueue hne)).imp hfsm (Or.imp hslot hretry)

theorem of_todo (h : .checkState ∈ s.todo) : s.Wake := fun hnot _ => (hnot h).elim

theorem decidePrefetch (h : s.Wake) (way : Nat) (addr : BitVec 32) : (s.decidePrefetch cfg way addr).Wake := by
  rw [L0.decidePrefetch]
  simp only
  split_ifs
  · exact h
  · exact h
  · split
    · exact h.frame id id id (fun _ => nofun) id
    · exact h.frame id id id id id

theorem refill (h : s.Wake) (tag : BitVec 32) (r : Request) (status : RefillStatus) :
    (s.refill cfg tag req r status).1.Wake := by
  rw [L0.refill]
  split_ifs with htag hslot
  · exact fun _ _ => .inr (.inl fun hnone => by rw [show s.slot = none from hnone] at htag; cases htag)
  · exact fun _ _ => .inr (.inl hslot)
  · split
    · rename_i hvictim
      exact (Book.refillVictim_ne_none (not_not.1 hslot) none (congrArg Prod.fst hvictim)).elim
    · cases status with
      | granted => exact h.frame id id id (fun _ => nofun) id
      | denied => exact h.frame id id id id fun _ => rfl
      | done latency => exact h.frame id id id id id

theorem handleReq (h : s.Wake) (cfg : Config) (req : Nat) (r : Request) (status : RefillStatus) :
    (s.handleReq cfg req r status).1.Wake := by
  rw [L0.handleReq]
  split
  · exact h.refill _ r status
  · exact h.decidePrefetch _ _

theorem retry_of_denied {status : RefillStatus} (hresult : s.handleReq cfg req r status = (t, .denied)) :
    t.refillRetryPending = true := by
  rw [L0.handleReq] at hresult
  split at hresult
  · rw [L0.refill] at hresult
    split_ifs at hresult
    · cases congrArg Prod.snd hresult
    · cases congrArg Prod.snd hresult
    · split at hresult
      · cases congrArg Prod.snd hresult
      · cases status with
        | granted => cases congrArg Prod.snd hresult
        | denied => exact (congrArg (·.1.refillRetryPending) hresult).symm
        | done latency => cases congrArg Prod.snd hresult
  · cases congrArg Prod.snd hresult

theorem sendPrefetch (h : s.Wake) (status : RefillStatus) : (s.sendPrefetch cfg status).Wake := by
  rw [L0.sendPrefetch]
  split
  · cases status with
    | denied | granted => exact h.frame id id id (fun _ => nofun) id
    | done latency => exact wake_checkState _
  · exact h

theorem respQueued (h : s.Wake) (latency : Nat) (data : List Byte) : (s.respQueued req latency data).Wake := by
  rw [L0.respQueued]
  simp only
  split_ifs <;> exact h.frame id id id id id

theorem inputReq (h : s.Wake) (addr : BitVec 32) (size : Nat) (status : RefillStatus) :
    (s.inputReq cfg addr size status).Wake := by
  rw [L0.inputReq]
  simp only
  split_ifs
  · exact h.frame id id id id id
  · exact wake_checkState _
  · have hfetch : ({ s with toTraffic := s.toTraffic.arrive cfg 0 addr size, idleAddr := none, idleEvent := none } :
      L0).Wake :=
      h.frame id id id id id
    have hhandled := hfetch.handleReq cfg s.reqs.length ⟨0, addr, size, s.flushed (cfg.tagOf addr)⟩ status
    split <;> rename_i hresult <;> rw [hresult] at hhandled
    · exact hhandled.frame id id id id id
    · exact hhandled
    · exact hhandled.frame id id id id id

theorem fsmHandler (s : L0) (ready : Bool) (status : RefillStatus) : (s.fsmHandler cfg ready status).Wake := by
  have hquiet : ({ s with fsmEvent := none, todo := .checkState :: s.todo } : L0).Wake := of_todo mem_cons_self
  rw [L0.fsmHandler]
  simp only
  split
  · rename_i req rest _
    split_ifs
    · split
      · rename_i r _
        have hpopped : ({ s with fsmEvent := none, todo := .checkState :: s.todo, refillPendingReqs := rest } :
          L0).Wake :=
          of_todo mem_cons_self
        have hhandled := hpopped.handleReq cfg req r status
        split <;> rename_i hresult
        · rw [hresult] at hhandled
          exact hhandled.respQueued _ _
        · rw [hresult] at hhandled
          exact hhandled
        · have hretry := retry_of_denied hresult
          exact fun _ _ => .inr (.inr hretry)
      · exact hquiet
    · exact hquiet
  · exact hquiet

theorem step (h : s.Wake) (hstep : s.step cfg e = some t) : t.Wake := by
  have hpop : ∀ {head : L0Todo} {todo}, s.todo = head :: todo → head ≠ .checkState →
    ({ s with todo := todo } : L0).Wake :=
    fun {head todo} htodo hne => h.frame (fun hmem => by
      rw [htodo] at hmem
      exact (mem_cons.1 hmem).resolve_left fun he => hne he.symm) id id id id
  cases e with
  | fetch addr size status =>
    obtain ⟨-, rfl⟩ := ite_some_none_eq_some.1 hstep
    exact h.inputReq addr size status
  | idle | enable | enablePrefetching | write | flush | flushLine =>
    cases hstep
    exact h.frame id id id id id
  | refillRetry =>
    cases hstep
    exact of_todo (mem_cons_of_mem _ (mem_cons_of_mem _ mem_cons_self))
  | bypassResp req =>
    obtain ⟨u, -, rfl⟩ := map_eq_some_iff.1 hstep
    exact h.frame id id id id id
  | memory =>
    obtain ⟨_, -, -, rfl⟩ := step_memory hstep
    exact h.frame id id id (fun _ => nofun) id
  | refillResp isLast =>
    obtain rfl | ⟨_, -, -, rfl⟩ := step_refillResp hstep
    · exact h
    · rw [refillResp]
      simp only
      split
      · exact wake_checkState _
      · exact of_todo mem_cons_self
  | fsm ready status =>
    obtain ⟨-, rfl⟩ := ite_some_none_eq_some.1 hstep
    exact fsmHandler s ready status
  | prefetch status =>
    obtain ⟨-, rfl⟩ := ite_some_none_eq_some.1 hstep
    have hquiet : ({ s with prefetchEvent := none } : L0).Wake := h.frame id id id id id
    exact hquiet.sendPrefetch status
  | missDecide =>
    obtain ⟨-, rfl⟩ := ite_some_none_eq_some.1 hstep
    exact missDecideHandler_keeps (P := L0.Wake) (h.frame id id id id id) fun way addr h =>
      Wake.decidePrefetch h way addr
  | idleHandler =>
    obtain ⟨-, rfl⟩ := ite_some_none_eq_some.1 hstep
    exact idleHandler_keeps (P := L0.Wake) (h.frame id id id id id) fun way addr h => Wake.decidePrefetch h way addr
  | delayedResp =>
    obtain ⟨hdue, rfl⟩ := ite_some_none_eq_some.1 hstep
    refine h.frame (fun hmem => ?_) id id id id
    rw [(of_decide_eq_true hdue).1] at hmem
    cases hmem
  | «continue» status =>
    rw [step] at hstep
    split at hstep
    · cases hstep
      exact wake_checkState _
    · rename_i htodo
      cases hstep
      exact (hpop htodo (by simp)).sendPrefetch status
    · rename_i htodo
      cases hstep
      exact (hpop htodo (by simp)).frame id id id id id
    · rename_i htodo
      cases hstep
      have hrest := hpop htodo (by simp)
      rw [delayedRespLoop]
      split
      · split_ifs
        · exact hrest.frame (mem_cons_of_mem _) id id id id
        · exact hrest.frame id id id id id
      · exact hrest
    · cases hstep
  | tick =>
    obtain ⟨-, ⟨⟩⟩ := ite_none_left_eq_some.1 hstep
    exact h.frame id id id id id

end Wake

end L0

end GvsocPulp.SnitchIcache
