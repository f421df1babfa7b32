import GvsocPulp.SnitchIcache.FlushBarrier
import GvsocPulp.SnitchIcache.L0Book
import GvsocPulp.SnitchIcache.L1Book

/-!
# Fetches are exact

With a memory that does not change and no flush, a fetch that is accepted is answered once, on its port, with the bytes
of the memory; no tag is on two lines or fetched twice; and what is queued is woken up.
-/

namespace GvsocPulp.SnitchIcache

open Lib List Option L0 L1

/-- The memory has stayed as it was. -/
def Traffic.Still (t u : Traffic) : Prop := u.mem = t.mem ∧ u.written = t.written

def L0Event.constant : L0Event → Bool
  | .flush | .flushLine _ | .write _ _ => false
  | _ => true

def L1Event.constant : L1Event → Bool
  | .flush | .flushLine _ | .write _ _ => false
  | _ => true

namespace Traffic

variable {t u v : Traffic} {cfg : Config} {port req n : Nat} {addr : BitVec 32}

theorem still_bypass (status : RefillStatus) : Still t (t.bypass port req addr n status) := by
  cases status <;> exact ⟨rfl, rfl⟩

theorem still_bypassResp (h : t.bypassResp req = some u) : Still t u := by
  rw [bypassResp, ite_none_right_eq_some] at h
  obtain ⟨r, -, rfl⟩ := map_eq_some_iff.1 h.2
  exact ⟨rfl, rfl⟩

end Traffic

namespace L0

variable {cfg : Config} {mem : BitVec 32 → Byte} {s t : L0}

/-! ## The L0 -/

theorem still_decidePrefetch (s : L0) (way : Nat) (addr : BitVec 32) :
    s.Still (s.decidePrefetch cfg way addr).toTraffic := by
  rw [decidePrefetch]
  simp only
  split_ifs
  · exact ⟨rfl, rfl⟩
  · exact ⟨rfl, rfl⟩
  · split <;> exact ⟨rfl, rfl⟩

theorem still_sendPrefetch (s : L0) (status : RefillStatus) : s.Still (s.sendPrefetch cfg status).toTraffic := by
  rw [sendPrefetch]
  split
  · cases status <;> exact ⟨rfl, rfl⟩
  · exact ⟨rfl, rfl⟩

theorem still_handleReq (cfg : Config) (s : L0) (req : Nat) (r : Request) (status : RefillStatus) :
    s.Still (s.handleReq cfg req r status).1.toTraffic := by
  rw [handleReq]
  split
  · rw [refill]
    split_ifs
    · exact ⟨rfl, rfl⟩
    · exact ⟨rfl, rfl⟩
    · split
      · exact ⟨rfl, rfl⟩
      · cases status <;> exact ⟨rfl, rfl⟩
  · exact still_decidePrefetch _ _ _

theorem still_inputReq (s : L0) (addr : BitVec 32) (size : Nat) (status : RefillStatus) :
    s.Still (s.inputReq cfg addr size status).toTraffic := by
  rw [inputReq]
  simp only
  split_ifs
  · exact Traffic.still_bypass (t := s.toTraffic.arrive cfg 0 addr size) status
  · exact ⟨rfl, rfl⟩
  · have hhandled := still_handleReq cfg { s with
      toTraffic := s.toTraffic.arrive cfg 0 addr size, idleAddr := none, idleEvent := none } s.reqs.length
      ⟨0, addr, size, s.flushed (cfg.tagOf addr)⟩ status
    split <;> rename_i hresult <;> rw [hresult] at hhandled <;> exact hhandled

theorem still_fsmHandler (s : L0) (ready : Bool) (status : RefillStatus) :
    s.Still (s.fsmHandler cfg ready status).toTraffic := by
  rw [fsmHandler]
  simp only
  split
  · rename_i req rest _
    split_ifs
    · split
      · rename_i r _
        have hhandled := still_handleReq cfg { s with
          fsmEvent := none, todo := .checkState :: s.todo, refillPendingReqs := rest } req r status
        split <;> rename_i hresult <;> rw [hresult] at hhandled
        · rw [respQueued]
          simp only
          split_ifs <;> exact hhandled
        · exact hhandled
        · exact hhandled
      · exact ⟨rfl, rfl⟩
    · exact ⟨rfl, rfl⟩
  · exact ⟨rfl, rfl⟩

theorem still_step {e : L0Event} (hconst : e.constant = true) (hstep : s.step cfg e = some t) :
    s.Still t.toTraffic := by
  cases e with
  | fetch addr size status =>
    obtain ⟨-, rfl⟩ := ite_some_none_eq_some.1 hstep
    exact still_inputReq s addr size status
  | idle | refillRetry | enable | enablePrefetching =>
    cases hstep
    exact ⟨rfl, rfl⟩
  | flush | flushLine | write => cases hconst
  | bypassResp req =>
    obtain ⟨u, hu, rfl⟩ := map_eq_some_iff.1 hstep
    exact Traffic.still_bypassResp hu
  | memory =>
    obtain ⟨_, -, -, rfl⟩ := step_memory hstep
    exact ⟨rfl, rfl⟩
  | refillResp isLast =>
    obtain rfl | ⟨_, -, -, rfl⟩ := step_refillResp hstep
    · exact ⟨rfl, rfl⟩
    · rw [refillResp]
      simp only
      split <;> exact ⟨rfl, rfl⟩
  | fsm ready status =>
    obtain ⟨-, rfl⟩ := ite_some_none_eq_some.1 hstep
    exact still_fsmHandler s ready status
  | prefetch status =>
    obtain ⟨-, rfl⟩ := ite_some_none_eq_some.1 hstep
    exact still_sendPrefetch { s with prefetchEvent := none } status
  | missDecide =>
    obtain ⟨-, rfl⟩ := ite_some_none_eq_some.1 hstep
    exact missDecideHandler_keeps (P := (s.Still ·.toTraffic)) ⟨rfl, rfl⟩ fun way addr h =>
      (still_decidePrefetch _ way addr).imp (·.trans h.1) (·.trans h.2)
  | idleHandler =>
    obtain ⟨-, rfl⟩ := ite_some_none_eq_some.1 hstep
    exact idleHandler_keeps (P := (s.Still ·.toTraffic)) ⟨rfl, rfl⟩ fun way addr h =>
      (still_decidePrefetch _ way addr).imp (·.trans h.1) (·.trans h.2)
  | delayedResp =>
    obtain ⟨-, rfl⟩ := ite_some_none_eq_some.1 hstep
    exact ⟨rfl, rfl⟩
  | «continue» status =>
    rw [step] at hstep
    split at hstep
    · cases hstep
      exact ⟨rfl, rfl⟩
    · rename_i todo _
      cases hstep
      exact still_sendPrefetch { s with todo := todo } status
    · cases hstep
      exact ⟨rfl, rfl⟩
    · cases hstep
      rw [delayedRespLoop]
      split
      · split_ifs <;> exact ⟨rfl, rfl⟩
      · exact ⟨rfl, rfl⟩
    · cases hstep
  | tick =>
    obtain ⟨-, ⟨⟩⟩ := ite_none_left_eq_some.1 hstep
    exact ⟨rfl, rfl⟩

/-- Nothing is scheduled and nothing is owed to the cache. -/
def Quiet (s : L0) : Prop :=
  s.todo = [] ∧ s.fsmEvent = none ∧ s.prefetchEvent = none ∧ s.delayedRespEvent = none ∧ s.refillRetryPending = false ∧
    (∀ slot, s.slot = some slot → slot.sent = false ∧ slot.denied = false) ∧ s.bypassed = []

structure Exact (cfg : Config) (mem : BitVec 32 → Byte) (s : L0) : Prop where
  still : s.mem = mem
  /-- A fetch is denied, waits or has been answered, once. -/
  once : ∀ req, (s.places []).count req = if req < s.reqs.length then 1 else 0
  answers : ∀ a ∈ s.answered, ∃ r, s.reqs[a.req]? = some r ∧ r.port = a.port ∧ a.data = s.bytesAt r.addr r.size
  lines : ∀ w, (s.lines w).tag ≠ noTag → (s.lines w).data = s.bytesAt (cfg.lineBase (s.lines w).tag) cfg.lineBytes
  distinct : ∀ w < cfg.lineCount, ∀ w' < cfg.lineCount, (s.lines w).tag ≠ noTag →
    (s.lines w).tag = (s.lines w').tag → w = w'
  /-- There is one refill at a time, and none of a line that is there. -/
  refills : ∀ slot, s.slot = some slot → ∀ w < cfg.lineCount, (s.lines w).tag ≠ slot.tag
  queue : s.todo = [] → s.refillPendingReqs ≠ [] → s.fsmEvent ≠ none ∨ s.refillRetryPending = true ∨
    ∃ slot, s.slot = some slot ∧ (slot.sent = true ∨ slot.denied = true ∨ s.prefetchEvent ≠ none)
  delayed : s.todo = [] → s.delayedResps ≠ [] → s.delayedRespEvent ≠ none
  settled : s.Quiet → ∀ req < s.reqs.length, req ∈ s.denied ∨ ∃ a ∈ s.answered, a.req = req

structure Kept (cfg : Config) (mem : BitVec 32 → Byte) (s : L0) : Prop where
  inv : Inv cfg s
  tags : Tags cfg s
  book : Book s []
  wake : s.Wake
  still : s.mem = mem ∧ s.written = false

namespace Kept

theorem initial (cfg : Config) (mem : BitVec 32 → Byte) : Kept cfg mem { mem := mem } where
  inv := inv_initial mem
  tags := ⟨fun _ _ _ _ hne => (hne rfl).elim, nofun⟩
  book := ⟨fun _ => rfl, nofun, nofun, fun _ hne => (hne rfl).elim⟩
  wake _ hne := (hne rfl).elim
  still := ⟨rfl, rfl⟩

theorem step (h : Kept cfg mem s) {e : L0Event} (hconst : e.constant = true) (hstep : s.step cfg e = some t) :
    Kept cfg mem t := by
  have hfix : e ≠ .flush ∧ ∀ addr, e ≠ .flushLine addr := by
    constructor
    · rintro rfl
      cases hconst
    · rintro addr rfl
      cases hconst
  have hsettled : s.settled cfg e = true := by
    cases e with
    | flush | flushLine => cases hconst
    | _ => rfl
  have hstill := still_step hconst hstep
  refine ⟨h.inv.step hsettled hstep, h.tags.step hfix hstep, h.book.step (fun slot hslot req hreq => ?_) hstep,
    h.wake.step hstep, hstill.1.trans h.still.1, hstill.2.trans h.still.2⟩
  exact ((h.inv.slot slot hslot).2.2 req hreq).imp fun r hr => hr.1

theorem settled (h : Kept cfg mem s) (hquiet : s.Quiet) : ∀ req < s.reqs.length, req ∈ s.denied ∨ ∃ a ∈ s.answered,
    a.req = req := by
  obtain ⟨htodo, hfsm, hprefetch, hresp, hretry, hslot, hbypassed⟩ := hquiet
  have hnot : ∀ {todo : L0Todo}, todo ∉ s.todo := fun hmem => by
    rw [htodo] at hmem
    cases hmem
  have hnone : s.slot = none := by
    refine eq_none_iff_forall_ne_some.2 fun slot hsome => ?_
    obtain ⟨hsent, hdenied⟩ := hslot slot hsome
    obtain ⟨-, -, hwake⟩ := h.book.sent slot hsome hsent
    rcases hwake with hevent | hden
    · exact hevent hprefetch
    · rw [hdenied] at hden
      cases hden
  have hqueue : s.refillPendingReqs = [] := by
    by_contra hne
    rcases h.wake hnot hne with hevent | hsome | hpending
    · exact hevent hfsm
    · exact hsome hnone
    · rw [hretry] at hpending
      cases hpending
  have hdelayed : s.delayedResps = [] := by
    by_contra hne
    exact h.book.delayed hnot hne hresp
  intro req hreq
  have hcount := h.book.once req
  rw [if_pos hreq] at hcount
  have hmem : req ∈ s.places [] := count_pos_iff.1 (by rw [hcount]; exact Nat.one_pos)
  simpa [places, hnone, hqueue, hdelayed, hbypassed] using hmem

theorem exact (h : Kept cfg mem s) : Exact cfg mem s where
  still := h.still.1
  once := h.book.once
  answers a ha := h.inv.traffic.bytesAt_of_fresh h.still.2 (h.inv.traffic.barrier a ha)
  lines w hw := h.inv.traffic.bytesAt_of_source h.still.2 (h.inv.lines w hw)
  distinct := h.tags.distinct
  refills slot hslot := (h.tags.slot slot hslot).2
  queue htodo hne := by
    have hnot : L0Todo.checkState ∉ s.todo := by
      rw [htodo]
      exact not_mem_nil
    rcases h.wake hnot hne with hevent | hsome | hretry
    · exact .inl hevent
    · obtain ⟨slot, hslot⟩ := ne_none_iff_exists'.1 hsome
      refine .inr (.inr ⟨slot, hslot, ?_⟩)
      by_cases hsent : slot.sent = true
      · exact .inl hsent
      · exact .inr ((h.book.sent slot hslot (Bool.eq_false_iff.2 hsent)).2.2.symm)
    · exact .inr (.inl hretry)
  delayed htodo hne := h.book.delayed (by rw [htodo]; exact not_mem_nil) hne
  settled := h.settled

end Kept

end L0

namespace L1

variable {cfg : Config} {mem : BitVec 32 → Byte} {s t : L1}

/-! ## The L1 -/

theorem still_lookup (cfg : Config) (s : L1) (req : Nat) (r : Request) (status : RefillStatus) :
    s.Still (s.lookup cfg req r status).1.toTraffic := by
  rw [lookup]
  split_ifs
  · exact ⟨rfl, rfl⟩
  · simp only
    split
    · exact ⟨rfl, rfl⟩
    · split
      · exact ⟨rfl, rfl⟩
      · split
        · exact ⟨rfl, rfl⟩
        · cases status <;> exact ⟨rfl, rfl⟩

theorem still_lookupPort (s : L1) (port : Nat) (status : RefillStatus) :
    s.Still (s.lookupPort cfg port status).toTraffic := by
  rw [lookupPort]
  split
  · exact ⟨rfl, rfl⟩
  · rename_i p _ _
    split
    · exact ⟨rfl, rfl⟩
    · rename_i r _
      have hlookup := still_lookup cfg s p.req r status
      split <;> rename_i hresult <;> rw [hresult] at hlookup <;> exact hlookup

theorem still_lookupHandler (s : L1) (status : RefillStatus) : s.Still (s.lookupHandler cfg status).toTraffic := by
  rw [lookupHandler]
  simp only
  split_ifs
  · exact ⟨rfl, rfl⟩
  · exact still_lookupPort { s with lookupEvent := none } _ status
  · exact still_lookupPort { s with lookupEvent := none } _ status
  · exact ⟨rfl, rfl⟩
  · exact ⟨rfl, rfl⟩

theorem still_step {e : L1Event} (hconst : e.constant = true) (hstep : s.step cfg e = some t) :
    s.Still t.toTraffic := by
  cases e with
  | fetch port addr size status =>
    obtain ⟨-, rfl⟩ := ite_some_none_eq_some.1 hstep
    rw [inputReqMuxed]
    simp only
    split_ifs
    · exact Traffic.still_bypass (t := s.toTraffic.arrive cfg port addr size) status
    · exact ⟨rfl, rfl⟩
    · exact ⟨rfl, rfl⟩
  | bypassResp req =>
    obtain ⟨u, hu, rfl⟩ := map_eq_some_iff.1 hstep
    exact Traffic.still_bypassResp hu
  | memory i =>
    obtain ⟨-, rfl⟩ := ite_some_none_eq_some.1 hstep
    exact ⟨rfl, rfl⟩
  | refillResp i isLast =>
    obtain ⟨-, hstep⟩ := ite_none_right_eq_some.1 hstep
    split_ifs at hstep <;> cases hstep <;> exact ⟨rfl, rfl⟩
  | refillRetry =>
    cases hstep
    rw [refillRetry]
    split_ifs <;> exact ⟨rfl, rfl⟩
  | enable =>
    cases hstep
    exact ⟨rfl, rfl⟩
  | flush | flushLine | write => cases hconst
  | lookup status =>
    obtain ⟨-, rfl⟩ := ite_some_none_eq_some.1 hstep
    exact still_lookupHandler s status
  | refillDone | resp =>
    obtain ⟨-, rfl⟩ := ite_some_none_eq_some.1 hstep
    exact ⟨rfl, rfl⟩
  | «continue» =>
    rw [step] at hstep
    split at hstep
    · cases hstep
      rw [answerWaiters]
      simp only
      split
      · split <;> exact ⟨rfl, rfl⟩
      · exact ⟨rfl, rfl⟩
    · cases hstep
      rw [refillDoneLoop.eq_def]
      split_ifs
      · split
        · split_ifs <;> exact ⟨rfl, rfl⟩
        · exact ⟨rfl, rfl⟩
      · split <;> exact ⟨rfl, rfl⟩
    · cases hstep
      rw [respLoop]
      split
      · rw [respond]
        split <;> exact ⟨rfl, rfl⟩
      · exact ⟨rfl, rfl⟩
    · cases hstep
      exact ⟨rfl, rfl⟩
    · cases hstep
      exact ⟨rfl, rfl⟩
    · cases hstep
  | tick =>
    obtain ⟨-, ⟨⟩⟩ := ite_none_left_eq_some.1 hstep
    exact ⟨rfl, rfl⟩

/-- Nothing is scheduled and nothing is owed to the cache. -/
def Quiet (s : L1) : Prop :=
  s.todo = [] ∧ s.lookupEvent = none ∧ s.respEvent = none ∧ s.refillDoneEvent = none ∧
    (∀ i, (s.slots i).busy = true → (s.slots i).sent = false) ∧ s.bypassed = []

structure Exact (cfg : Config) (mem : BitVec 32 → Byte) (s : L1) : Prop where
  still : s.mem = mem
  /-- A fetch is denied, waits or has been answered, once. -/
  once : ∀ req, (s.places cfg).count req = if req < s.reqs.length then 1 else 0
  answers : ∀ a ∈ s.answered, ∃ r, s.reqs[a.req]? = some r ∧ r.port = a.port ∧ a.data = s.bytesAt r.addr r.size
  lines : ∀ set w, (s.lines set w).tag ≠ noTag →
    (s.lines set w).data = s.bytesAt (cfg.lineBase (s.lines set w).tag) cfg.lineBytes
  distinct : ∀ set, ∀ w < cfg.wayCount, ∀ w' < cfg.wayCount, (s.lines set w).tag ≠ noTag →
    (s.lines set w).tag = (s.lines set w').tag → w = w'
  /-- There is one refill of a line at a time, and none of a line that is there. -/
  refills : ∀ i j, (s.slots i).busy = true → (s.slots j).busy = true → (s.slots i).tag = (s.slots j).tag → i = j
  missing : s.todo = [] → ∀ i, (s.slots i).busy = true → ∀ w < cfg.wayCount,
    (s.lines (lineIndex cfg (s.slots i).tag) w).tag ≠ (s.slots i).tag
  queue : s.todo = [] → ∀ port, s.portReqs port ≠ [] → s.lookupEvent ≠ none
  merged : s.todo = [] → ∀ i, (s.slots i).waiters ≠ [] → (s.slots i).sent = true ∨ s.refillDoneEvent ≠ none
  hits : s.todo = [] → s.resps ≠ [] → s.respEvent ≠ none
  settled : s.Quiet → ∀ req < s.reqs.length, req ∈ s.denied ∨ ∃ a ∈ s.answered, a.req = req

structure Kept (cfg : Config) (mem : BitVec 32 → Byte) (s : L1) : Prop where
  inv : Inv cfg s
  tags : Tags cfg s
  once : Once cfg s
  owed : Owed cfg s
  lookups : s.Lookups
  still : s.mem = mem ∧ s.written = false

namespace Kept

theorem initial (cfg : Config) (mem : BitVec 32 → Byte) : Kept cfg mem { mem := mem } where
  inv := inv_initial mem
  tags := ⟨fun _ _ _ _ _ hne => (hne rfl).elim, nofun, nofun, nofun⟩
  once x := by
    have hqueued : queued cfg (fun _ => []) = [] := flatMap_eq_nil_iff.2 fun _ _ => rfl
    have hmerged : merged cfg (fun _ => {}) = [] := flatMap_eq_nil_iff.2 fun _ _ => rfl
    rw [places, hqueued, hmerged]
    rfl
  owed := ⟨fun _ hne => (hne rfl).elim, fun hne => (hne rfl).elim, nofun⟩
  lookups _ hne := (hne rfl).elim
  still := ⟨rfl, rfl⟩

variable (h : Kept cfg mem s)
include h

theorem step {e : L1Event} (hconst : e.constant = true) (hstep : s.step cfg e = some t) :
    Kept cfg mem t := by
  have hfix : e ≠ .flush ∧ ∀ addr, e ≠ .flushLine addr := by
    constructor
    · rintro rfl
      cases hconst
    · rintro addr rfl
      cases hconst
  have hsettled : s.settled cfg e = true := by
    cases e with
    | flush | flushLine => cases hconst
    | _ => rfl
  have hstill := still_step hconst hstep
  exact ⟨h.inv.step hsettled hstep, h.tags.step h.inv hfix hstep, h.once.step h.inv h.owed.ports hstep,
    h.owed.step h.inv hstep, h.lookups.step h.owed hstep, hstill.1.trans h.still.1, hstill.2.trans h.still.2⟩

theorem landing (htodo : s.todo = []) {i : Nat} (hbusy : (s.slots i).busy = true) :
    (s.slots i).sent = true ∨ s.refillDoneEvent ≠ none := by
  have hnot : ∀ {todo : L1Todo}, todo ∉ s.todo := fun hmem => by
    rw [htodo] at hmem
    cases hmem
  rcases h.owed.slots i hbusy with hsent | hmem | ⟨-, hevent | ⟨k, next, hmem, -⟩⟩
  · exact .inl hsent
  · exact (hnot hmem).elim
  · exact .inr hevent
  · exact (hnot hmem).elim

theorem merged (htodo : s.todo = []) (i : Nat) (hne : (s.slots i).waiters ≠ []) :
    (s.slots i).sent = true ∨ s.refillDoneEvent ≠ none := by
  obtain ⟨req, rest, hwaiters⟩ := exists_cons_of_ne_nil hne
  exact h.landing htodo (h.inv.waiters i req (by rw [hwaiters]; exact mem_cons_self)).1

theorem hits (htodo : s.todo = []) (hne : s.resps ≠ []) : s.respEvent ≠ none :=
  (h.owed.resps hne).resolve_right (by rw [htodo]; exact not_mem_nil)

theorem settled (hquiet : s.Quiet) : ∀ req < s.reqs.length, req ∈ s.denied ∨ ∃ a ∈ s.answered, a.req = req := by
  obtain ⟨htodo, hlookup, hresp, hdone, hslots, hbypassed⟩ := hquiet
  have hqueued : queued cfg s.portReqs = [] := flatMap_eq_nil_iff.2 fun port _ => by
    by_contra hne
    exact h.lookups port (fun hnil => hne (by rw [hnil]; rfl)) hlookup
  have hmerged : L1.merged cfg s.slots = [] := flatMap_eq_nil_iff.2 fun i _ => by
    by_contra hne
    obtain ⟨req, rest, hwaiters⟩ := exists_cons_of_ne_nil hne
    have hbusy := (h.inv.waiters i req (by rw [hwaiters]; exact mem_cons_self)).1
    rcases h.landing htodo hbusy with hsent | hevent
    · rw [hslots i hbusy] at hsent
      cases hsent
    · exact hevent hdone
  have hresps : s.resps = [] := by
    by_contra hne
    exact h.hits htodo hne hresp
  intro req hreq
  have hcount := h.once req
  rw [if_pos hreq] at hcount
  have hmem : req ∈ s.places cfg := count_pos_iff.1 (by rw [hcount]; exact Nat.one_pos)
  simpa [places, hqueued, hmerged, hresps, hbypassed] using hmem

theorem exact : Exact cfg mem s where
  still := h.still.1
  once := h.once
  answers a ha := h.inv.traffic.bytesAt_of_fresh h.still.2 (h.inv.traffic.barrier a ha)
  lines set w hw := h.inv.traffic.bytesAt_of_source h.still.2 (h.inv.lines set w hw)
  distinct := h.tags.distinct
  refills := h.tags.slotDistinct
  missing htodo i hbusy := h.tags.slotLines i hbusy (by rw [htodo]; exact not_mem_nil)
  queue _ := h.lookups
  merged := h.merged
  hits := h.hits
  settled := h.settled

end Kept

end L1

/-- **Fetches are exact**, at both levels. -/
theorem fetch_exact (cfg : Config) (mem : BitVec 32 → Byte) :
    (∀ (es : List L0Event) (s : L0), (∀ e ∈ es, e.constant = true) → run (L0.step cfg) { mem := mem } es = some s →
      L0.Exact cfg mem s) ∧
    ∀ (es : List L1Event) (s : L1), (∀ e ∈ es, e.constant = true) → run (L1.step cfg) { mem := mem } es = some s →
      L1.Exact cfg mem s := by
  constructor
  · intro es s hconst hrun
    have hkept : L0.Kept cfg mem s := run_inv (I := L0.Kept cfg mem) (P := fun _ e => e.constant = true)
      (fun _ _ _ h hc hstep => h.step hc hstep) (L0.Kept.initial cfg mem) (allSteps_of_forall hconst) hrun
    exact hkept.exact
  · intro es s hconst hrun
    have hkept : L1.Kept cfg mem s := run_inv (I := L1.Kept cfg mem) (P := fun _ e => e.constant = true)
      (fun _ _ _ h hc hstep => h.step hc hstep) (L1.Kept.initial cfg mem) (allSteps_of_forall hconst) hrun
    exact hkept.exact

/-- A miss, a fetch that waits for the same refill, and a hit. -/
def fetches : List L0Event :=
  [.fetch 0 4 .granted, .fetch 0 4 .granted, .memory, .refillResp true, .continue .granted, .tick, .fsm true .granted,
    .continue .granted, .fetch 0 2 .granted]

def fetchesL1 : List L1Event :=
  [.fetch 0 0 4 .granted, .fetch 0 0 4 .granted, .tick, .lookup .granted, .memory 0, .tick, .lookup .granted,
    .refillResp 0 true,
    .continue, .continue, .continue, .fetch 0 0 2 .granted, .tick, .lookup .granted, .tick, .lookup .granted,
      .resp, .continue]

theorem fetch_exact_smallCache :
    (∃ s, run (L0.step smallCache) { mem := fun _ => 0x13 } fetches = some s ∧ s.answered.length = 3 ∧
      L0.Exact smallCache (fun _ => 0x13) s) ∧
    ∃ s, run (L1.step smallCache) { mem := fun _ => 0x13 } fetchesL1 = some s ∧ s.answered.length = 3 ∧
      L1.Exact smallCache (fun _ => 0x13) s := by
  constructor
  · have h : (run (L0.step smallCache) { mem := fun _ => 0x13 } fetches).map (·.answered.length) = some 3 := by
      decide +kernel
    obtain ⟨s, hs, hlen⟩ := map_eq_some_iff.1 h
    exact ⟨s, hs, hlen, (fetch_exact smallCache _).1 fetches s (by decide) hs⟩
  · have h : (run (L1.step smallCache) { mem := fun _ => 0x13 } fetchesL1).map (·.answered.length) = some 3 := by
      decide +kernel
    obtain ⟨s, hs, hlen⟩ := map_eq_some_iff.1 h
    exact ⟨s, hs, hlen, (fetch_exact smallCache _).2 fetchesL1 s (by decide) hs⟩

end GvsocPulp.SnitchIcache
