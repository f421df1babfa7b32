import GvsocPulp.Lib.Lists
import GvsocPulp.SnitchIcache.L1Flush

/-!
# The fetches and the tags of the L1

- `L1.Tags`: no tag is on two lines of a set, nor on two refill slots, nor on a line and on a slot that has not landed;
- `L1.Once`: every fetch is in one place;
- `L1.Owed`: what waits is woken up.
-/

namespace GvsocPulp.SnitchIcache

open Lib Function List Option

variable {slot : L1Slot} {e : L1Event} {port : Nat}

namespace L1

variable {cfg : Config} {s t : L1} {req i x : Nat} {r : Request}

/-! ## Tags -/

structure Tags (cfg : Config) (s : L1) : Prop where
  distinct : ∀ set, ∀ w < cfg.wayCount, ∀ w' < cfg.wayCount, (s.lines set w).tag ≠ noTag →
    (s.lines set w).tag = (s.lines set w').tag → w = w'
  slotDistinct : ∀ i j, (s.slots i).busy = true → (s.slots j).busy = true → (s.slots i).tag = (s.slots j).tag → i = j
  slotLines : ∀ i, (s.slots i).busy = true → .waiters i ∉ s.todo → ∀ w < cfg.wayCount,
    (s.lines (lineIndex cfg (s.slots i).tag) w).tag ≠ (s.slots i).tag
  landing : ∀ i, .waiters i ∈ s.todo → (s.slots i).sent = false ∧ (s.slots i).doneCycle = none

namespace Tags

section

variable (h : Tags cfg s)
include h

theorem frame (hlines : t.lines = s.lines) (hbusy : ∀ i, (t.slots i).busy = true → (s.slots i).busy = true)
    (htag : ∀ i, (t.slots i).busy = true → (t.slots i).tag = (s.slots i).tag)
    (hsent : ∀ i, .waiters i ∈ t.todo →
      .waiters i ∈ s.todo ∧ (t.slots i).sent = (s.slots i).sent ∧ (t.slots i).doneCycle = (s.slots i).doneCycle)
    (htodo : ∀ i, (t.slots i).busy = true → .waiters i ∈ s.todo → .waiters i ∈ t.todo) : Tags cfg t := by
  refine ⟨hlines ▸ h.distinct, fun i j hi hj he => ?_, fun i hi hnot w hw => ?_, fun i hi => ?_⟩
  · rw [htag i hi, htag j hj] at he
    exact h.slotDistinct i j (hbusy i hi) (hbusy j hj) he
  · rw [hlines, htag i hi]
    exact h.slotLines i (hbusy i hi) (fun hmem => hnot (htodo i hi hmem)) w hw
  · obtain ⟨hi, hs, hd⟩ := hsent i hi
    rw [hs, hd]
    exact h.landing i hi

theorem quiet (hlines : t.lines = s.lines) (hslots : t.slots = s.slots)
    (htodo : ∀ i, .waiters i ∈ t.todo ↔ .waiters i ∈ s.todo) : Tags cfg t :=
  h.frame hlines (fun i => by rw [hslots]; exact id) (fun i _ => by rw [hslots])
    (fun i hi => ⟨(htodo i).1 hi, by rw [hslots], by rw [hslots]⟩) fun i _ => (htodo i).2

theorem setSlot (hlines : t.lines = s.lines) (hslots : t.slots = update s.slots i slot)
    (hbusy : slot.busy = true → (s.slots i).busy = true) (htag : slot.tag = (s.slots i).tag)
    (hland : .waiters i ∈ t.todo → slot.sent = (s.slots i).sent ∧ slot.doneCycle = (s.slots i).doneCycle)
    (htodo : ∀ j, .waiters j ∈ t.todo → .waiters j ∈ s.todo)
    (htodo' : ∀ j, (j = i → slot.busy = true) → .waiters j ∈ s.todo → .waiters j ∈ t.todo) : Tags cfg t := by
  refine h.frame hlines (fun j hj => ?_) (fun j _ => ?_) (fun j hj => ⟨htodo j hj, ?_⟩) fun j hj => htodo' j
    fun hji => ?_
  all_goals rw [hslots] at *
  · by_cases hji : j = i
    · rw [hji, update_self] at hj
      exact hji ▸ hbusy hj
    · rwa [update_of_ne hji] at hj
  · by_cases hji : j = i
    · rw [hji, update_self, htag]
    · rw [update_of_ne hji]
  · by_cases hji : j = i
    · rw [hji, update_self]
      exact hland (hji ▸ hj)
    · rw [update_of_ne hji]
      exact ⟨rfl, rfl⟩
  · rwa [hji, update_self] at hj

theorem enqueueLookup : Tags cfg s.enqueueLookup := h.quiet rfl rfl fun _ => Iff.rfl

theorem alloc (htodo : s.todo = []) (hlines : t.lines = s.lines)
    (hslots : t.slots = update s.slots i slot) (htodo' : t.todo = s.todo)
    (hslot : ∀ j, (s.slots j).busy = true → (s.slots j).tag ≠ slot.tag)
    (hget : ∀ w < cfg.wayCount, (s.lines (lineIndex cfg slot.tag) w).tag ≠ slot.tag) : Tags cfg t := by
  refine ⟨hlines ▸ h.distinct, fun j k hj hk he => ?_, fun j hj _ w hw => ?_, fun j hj => ?_⟩
  · rw [hslots, update_apply] at hj
    rw [hslots, update_apply] at hk
    rw [hslots, update_apply, update_apply] at he
    split_ifs at hj hk he with hji hki hki
    · rw [hji, hki]
    · exact (hslot k hk he.symm).elim
    · exact (hslot j hj he).elim
    · exact h.slotDistinct j k hj hk he
  · rw [hslots, update_apply] at hj
    rw [hlines, hslots, update_apply]
    split_ifs at hj ⊢
    · exact hget w hw
    · exact h.slotLines j hj (by rw [htodo]; exact not_mem_nil) w hw
  · rw [htodo', htodo] at hj
    cases hj

section

variable (hinv : Inv cfg s) (htodo : s.todo = [])
include hinv htodo

theorem lookup (req : Nat) (r : Request) (status : RefillStatus) :
    Tags cfg (s.lookup cfg req r status).1 := by
  rw [L1.lookup]
  split_ifs
  · exact h
  · simp only
    split
    · exact h.quiet rfl rfl fun _ => Iff.rfl
    · rename_i hget
      split
      · rename_i i _
        exact h.setSlot rfl rfl id rfl (fun _ => ⟨rfl, rfl⟩) (fun _ => id) fun _ _ => id
      · rename_i hslot
        split
        · exact h
        · have hslot' : ∀ j, (s.slots j).busy = true → (s.slots j).tag ≠ cfg.tagOf r.addr := fun j hj he => by
            have hnone := find?_eq_none.1 hslot j (mem_range.2 (hinv.slotBound j hj).1)
            simp [hj, he] at hnone
          have hget' : ∀ w < cfg.wayCount, (s.lines (lineIndex cfg (cfg.tagOf r.addr)) w).tag ≠
            cfg.tagOf r.addr := fun w hw => by
            simpa using find?_eq_none.1 hget w (mem_range.2 hw)
          cases status with
          | denied => exact h.quiet rfl rfl fun _ => Iff.rfl
          | granted | done latency => exact h.alloc htodo rfl rfl rfl hslot' hget'

theorem lookupPort (port : Nat) (status : RefillStatus) :
    Tags cfg (s.lookupPort cfg port status) := by
  rw [L1.lookupPort]
  split
  · exact h
  · split
    · exact h
    · rename_i p _ _ _ r _
      have hlookup := h.lookup hinv htodo p.req r status
      split <;> rename_i hresult <;> rw [hresult] at hlookup <;> exact hlookup.quiet rfl rfl fun _ => Iff.rfl

theorem lookupHandler (status : RefillStatus) :
    Tags cfg (s.lookupHandler cfg status) := by
  have hquiet : Tags cfg { s with lookupEvent := none } := h.quiet rfl rfl fun _ => Iff.rfl
  have hinv' : Inv cfg { s with lookupEvent := none } := hinv.quiet rfl rfl rfl (fun _ => id) rfl
  rw [L1.lookupHandler]
  simp only
  split_ifs
  · exact hquiet.quiet rfl rfl fun _ => Iff.rfl
  · exact (hquiet.lookupPort hinv' htodo _ status).enqueueLookup
  · exact hquiet.lookupPort hinv' htodo _ status
  · exact hquiet.enqueueLookup
  · exact hquiet

end

theorem completeRefill (hinv : Inv cfg s) (hbusy : (s.slots i).busy = true) (hnot : .waiters i ∉ s.todo) :
    Tags cfg (s.completeRefill cfg i) := by
  have hset := (hinv.slotBound i hbusy).2
  have hkeep : ∀ j, ((s.completeRefill cfg i).slots j).busy = (s.slots j).busy ∧
      ((s.completeRefill cfg i).slots j).tag = (s.slots j).tag := fun j => by
    simp only [L1.completeRefill, update_apply]
    split
    · rw [‹j = _›]
      exact ⟨rfl, rfl⟩
    · exact ⟨rfl, rfl⟩
  have hfree := h.slotLines i hbusy hnot
  rw [← hset] at hfree
  refine ⟨fun set w hw w' hw' hne he => ?_, fun j k hj hk he => ?_, fun j hj hmem w hw => ?_, fun j hj => ?_⟩
  · simp only [L1.completeRefill, L1.setLine, update_apply] at hne he
    split_ifs at hne he with hs
    · subst hs
      rw [update_apply, update_apply] at he
      rw [update_apply] at hne
      split_ifs at hne he with hway hway' hway'
      · rw [hway, hway']
      · exact (hfree w' hw' he.symm).elim
      · exact (hfree w hw he).elim
      · exact h.distinct _ w hw w' hw' hne he
    · exact h.distinct set w hw w' hw' hne he
  · refine h.slotDistinct j k ?_ ?_ ?_
    · exact (hkeep j).1.symm.trans hj
    · exact (hkeep k).1.symm.trans hk
    · exact ((hkeep j).2.symm.trans he).trans (hkeep k).2
  · have hbusy' : (s.slots j).busy = true := (hkeep j).1.symm.trans hj
    have htag : ((s.completeRefill cfg i).slots j).tag = (s.slots j).tag := (hkeep j).2
    have hji : j ≠ i := fun he => hmem (he ▸ mem_cons_self)
    have hold := h.slotLines j hbusy' (fun hm => hmem (mem_cons_of_mem _ hm)) w hw
    rw [htag]
    simp only [L1.completeRefill, L1.setLine, update_apply]
    split
    · rename_i hs
      rw [update_apply]
      split
      · exact fun he => hji (h.slotDistinct i j hbusy hbusy' he).symm
      · rw [← hs]
        exact hold
    · exact hold
  · simp only [L1.completeRefill, update_apply]
    split
    · exact ⟨rfl, rfl⟩
    · rename_i hji
      exact h.landing j ((mem_cons.1 hj).resolve_left fun he => hji (by injection he))

end

theorem answerWaiters (h : Tags cfg { s with todo := .waiters i :: s.todo })
    (hreqs : ∀ req ∈ (s.slots i).waiters, ∃ r, s.reqs[req]? = some r) : Tags cfg (s.answerWaiters cfg i) := by
  obtain ⟨hsent, hdone⟩ := h.landing i mem_cons_self
  rw [L1.answerWaiters]
  simp only
  split
  · rename_i req rest hwaiters
    obtain ⟨r, hr⟩ := hreqs req (by rw [hwaiters]; exact mem_cons_self)
    rw [hr]
    exact h.setSlot rfl rfl id rfl (fun _ => ⟨rfl, rfl⟩) (fun _ => id) fun _ _ => id
  · refine Tags.enqueueLookup (h.setSlot rfl rfl (by simp) rfl (fun _ => ⟨hsent.symm, hdone.symm⟩)
      (fun j hj => mem_cons_of_mem _ hj) fun j hj hmem => ?_)
    exact (mem_cons.1 hmem).resolve_left fun he => Bool.noConfusion (hj (by injection he))

theorem refillDoneLoop (h : Tags cfg s) (hinv : Inv cfg s) (next : Option Nat) :
    Tags cfg (s.refillDoneLoop cfg i next) := by
  have hiff : ∀ (next' : Option Nat) (j : Nat), L1Todo.waiters j ∈ L1Todo.refillDone (i + 1) next' :: s.todo ↔
    .waiters j ∈ s.todo :=
    fun next' j => ⟨fun hj => (mem_cons.1 hj).resolve_left nofun, mem_cons_of_mem _⟩
  have hnext : ∀ next', Tags cfg { s with todo := .refillDone (i + 1) next' :: s.todo } := fun next' =>
    h.quiet rfl rfl (hiff next')
  rw [L1.refillDoneLoop.eq_def]
  split_ifs with hi
  · split
    · rename_i done hbusy hcycle
      split_ifs with hdue
      · refine (hnext next).completeRefill (hinv.quiet rfl rfl rfl (fun j => (hiff next j).1) rfl) hbusy fun hmem => ?_
        have hland := (h.landing i ((hiff next i).1 hmem)).2
        rw [show (s.slots i).doneCycle = some done from hcycle] at hland
        cases hland
      · exact hnext _
      · exact hnext _
    · exact hnext next
  · split
    · exact h.quiet rfl rfl fun _ => Iff.rfl
    · exact h

theorem step (h : Tags cfg s) (hinv : Inv cfg s) (hfix : e ≠ .flush ∧ ∀ addr, e ≠ .flushLine addr)
    (hstep : s.step cfg e = some t) : Tags cfg t := by
  cases e with
  | fetch port addr size status =>
    obtain ⟨-, rfl⟩ := ite_some_none_eq_some.1 hstep
    rw [L1.inputReqMuxed]
    simp only
    split_ifs <;> exact h.quiet rfl rfl fun _ => Iff.rfl
  | bypassResp req =>
    obtain ⟨u, -, rfl⟩ := map_eq_some_iff.1 hstep
    exact h.quiet rfl rfl fun _ => Iff.rfl
  | memory i =>
    obtain ⟨-, rfl⟩ := ite_some_none_eq_some.1 hstep
    exact h.setSlot rfl rfl id rfl (fun _ => ⟨rfl, rfl⟩) (fun _ => id) fun _ _ => id
  | refillResp i isLast =>
    obtain ⟨⟨-, hbusy, hsent⟩, hstep⟩ := ite_none_right_eq_some.1 hstep
    split_ifs at hstep
    · cases hstep
      exact h
    · cases hstep
      refine h.completeRefill hinv hbusy fun hmem => ?_
      rw [(h.landing i hmem).1] at hsent
      cases hsent
  | refillRetry =>
    cases hstep
    rw [L1.refillRetry]
    split_ifs
    · exact h.quiet rfl rfl fun j => ⟨fun hj => (mem_cons.1 hj).resolve_left (by simp), mem_cons_of_mem _⟩
    · exact h.quiet rfl rfl fun _ => Iff.rfl
  | enable | write =>
    cases hstep
    exact h.quiet rfl rfl fun _ => Iff.rfl
  | flush => exact (hfix.1 rfl).elim
  | flushLine addr => exact (hfix.2 addr rfl).elim
  | lookup status =>
    obtain ⟨hdue, rfl⟩ := ite_some_none_eq_some.1 hstep
    exact h.lookupHandler hinv (of_decide_eq_true hdue).1 status
  | refillDone | resp =>
    obtain ⟨hdue, rfl⟩ := ite_some_none_eq_some.1 hstep
    refine h.quiet rfl rfl fun j => ?_
    rw [(of_decide_eq_true hdue).1]
    simp
  | «continue» =>
    rw [L1.step] at hstep
    split at hstep
    · rename_i i todo htodo
      cases hstep
      refine answerWaiters (s := { s with todo := todo }) ?_ fun req hreq => ?_
      · rw [← htodo]
        exact h
      · exact (hinv.waiters i req hreq).2.imp fun _ hr => hr.1
    · rename_i i next todo htodo
      cases hstep
      have hiff : ∀ j, L1Todo.waiters j ∈ todo ↔ .waiters j ∈ s.todo := fun j => by
        rw [htodo, mem_cons]
        simp
      have hpop : Tags cfg { s with todo := todo } := h.quiet rfl rfl hiff
      exact hpop.refillDoneLoop (hinv.quiet rfl rfl rfl (fun j => (hiff j).1) rfl) next
    · rename_i todo htodo
      cases hstep
      have hiff : ∀ j, L1Todo.waiters j ∈ todo ↔ .waiters j ∈ s.todo := fun j => by
        rw [htodo, mem_cons]
        simp
      rw [L1.respLoop]
      split
      · rw [L1.respond]
        split
        · exact h.quiet rfl rfl fun j => by rw [← hiff j]; simp
        · exact h.quiet rfl rfl fun j => by rw [← hiff j]; simp
      · exact h.quiet rfl rfl hiff
    · rename_i port todo htodo
      cases hstep
      refine h.quiet rfl rfl fun j => ?_
      rw [htodo]
      split_ifs <;> simp
    · rename_i todo htodo
      cases hstep
      refine h.quiet rfl rfl fun j => ?_
      rw [htodo]
      simp [L1.enqueueLookup]
    · cases hstep
  | tick =>
    obtain ⟨-, ⟨⟩⟩ := ite_none_left_eq_some.1 hstep
    exact h.quiet rfl rfl fun _ => Iff.rfl

end Tags

/-! ## Fetches -/

def queued (cfg : Config) (portReqs : Nat → List PortReq) : List Nat :=
  (List.range cfg.nrFetchPorts).flatMap fun port => (portReqs port).map (·.req)

/-- The fetches that wait for a refill. -/
def merged (cfg : Config) (slots : Nat → L1Slot) : List Nat :=
  (List.range cfg.numAxiOutstanding).flatMap fun i => (slots i).waiters

/-- Where the fetches are. -/
def places (cfg : Config) (s : L1) : List Nat :=
  s.denied ++ queued cfg s.portReqs ++ merged cfg s.slots ++ s.resps.map (·.1) ++ s.bypassed ++ s.answered.map (·.req)

def Once (cfg : Config) (s : L1) : Prop := ∀ req, (s.places cfg).count req = if req < s.reqs.length then 1 else 0

theorem count_queued (hport : port < cfg.nrFetchPorts) (portReqs : Nat → List PortReq) (reqs : List PortReq) :
    (queued cfg (update portReqs port reqs)).count x + ((portReqs port).map (·.req)).count x =
      (queued cfg portReqs).count x + (reqs.map (·.req)).count x := by
  have hchange := count_flatMap_change (nodup_range (n := cfg.nrFetchPorts)) (mem_range.2 hport)
    (f := fun p => (update portReqs port reqs p).map (·.req)) (g := fun p => (portReqs p).map (·.req))
    (fun p hp => by rw [update_of_ne hp]) x
  rw [update_self] at hchange
  exact hchange

theorem count_merged (hi : i < cfg.numAxiOutstanding) (slots : Nat → L1Slot) (slot : L1Slot) :
    (merged cfg (update slots i slot)).count x + (slots i).waiters.count x =
      (merged cfg slots).count x + slot.waiters.count x := by
  have hchange := count_flatMap_change (nodup_range (n := cfg.numAxiOutstanding)) (mem_range.2 hi)
    (f := fun j => (update slots i slot j).waiters) (g := fun j => (slots j).waiters)
    (fun j hj => by rw [update_of_ne hj]) x
  rw [update_self] at hchange
  exact hchange

namespace Once

theorem frame (h : Once cfg s) (hcount : ∀ x, (t.places cfg).count x = (s.places cfg).count x)
    (hreqs : t.reqs = s.reqs) :
    Once cfg t := fun req => by
  rw [hcount, hreqs]
  exact h req

/-- A lookup that is not refused puts the fetch in one more place. -/
def Lodged (cfg : Config) (s : L1) (req : Nat) (result : L1 × Bool) : Prop :=
  ∀ x, (result.1.places cfg).count x = (s.places cfg).count x + if result.2 then [req].count x else 0

theorem lookup_lodged (hinv : Inv cfg s) (req : Nat) (r : Request) (status : RefillStatus) :
    Lodged cfg s req (s.lookup cfg req r status) := by
  rw [L1.lookup]
  split_ifs
  · exact fun _ => rfl
  · simp only
    split
    · intro x
      simp only [places, map_append, map_cons, map_nil, count_append, if_true]
      omega
    · split
      · rename_i i hget
        intro x
        have hslot := count_merged (x := x) (hinv.slotBound i (Inv.slotForTag_spec hget).1).1 s.slots
          { s.slots i with waiters := (s.slots i).waiters ++ [req] }
        simp only [places, L1.setSlot, count_append, if_true] at hslot ⊢
        omega
      · split
        · exact fun _ => rfl
        · rename_i i halloc
          obtain ⟨hi, hfree⟩ := Inv.allocRefillSlot_spec halloc
          have hidle : (s.slots i).waiters = [] := eq_nil_iff_forall_not_mem.2 fun req' hreq' => by
            rw [(hinv.waiters i req' hreq').1] at hfree
            cases hfree
          cases status with
          | denied => exact fun _ => rfl
          | granted | done latency =>
            intro x
            have hslot := fun slot : L1Slot => count_merged (x := x) hi s.slots slot
            simp only [hidle, count_nil, Nat.add_zero] at hslot
            simp only [places, L1.setSlot, Traffic.read, count_append, hslot, if_true]
            omega

/-- A lookup leaves the ports and the fetches as they are. -/
def Kept (s : L1) (result : L1 × Bool) : Prop := result.1.portReqs = s.portReqs ∧ result.1.reqs = s.reqs

theorem lookup_kept (cfg : Config) (s : L1) (req : Nat) (r : Request) (status : RefillStatus) :
    Kept s (s.lookup cfg req r status) := by
  rw [L1.lookup]
  split_ifs
  · exact ⟨rfl, rfl⟩
  · simp only
    split
    · exact ⟨rfl, rfl⟩
    · split
      · exact ⟨rfl, rfl⟩
      · split
        · exact ⟨rfl, rfl⟩
        · cases status <;> exact ⟨rfl, rfl⟩

variable (h : Once cfg s)
include h

theorem lookupPort (hinv : Inv cfg s) (hports : ∀ p, s.portReqs p ≠ [] → p < cfg.nrFetchPorts) (port : Nat)
    (status : RefillStatus) : Once cfg (s.lookupPort cfg port status) := by
  rw [L1.lookupPort]
  split
  · exact h
  · rename_i p rest hqueue
    have hport := hports port (by rw [hqueue]; exact cons_ne_nil _ _)
    split
    · exact h
    · rename_i r _
      have hlodged := lookup_lodged hinv p.req r status
      have hkept := lookup_kept cfg s p.req r status
      split <;> rename_i t hresult <;> rw [hresult] at hlodged hkept <;> obtain ⟨hsame, hreqs⟩ := hkept
      · refine h.frame (fun x => ?_) hreqs
        have hcount := hlodged x
        have hpop := count_queued (x := x) hport t.portReqs rest
        have hfront : t.portReqs port = p :: rest := hsame ▸ hqueue
        rw [hfront] at hpop
        simp only [places, map_cons, count_append, count_cons, count_nil, if_true] at hcount hpop ⊢
        omega
      · exact h.frame hlodged hreqs

theorem enqueueLookup : Once cfg s.enqueueLookup := h.frame (fun _ => rfl) rfl

theorem lookupHandler (hinv : Inv cfg s) (hports : ∀ p, s.portReqs p ≠ [] → p < cfg.nrFetchPorts)
    (status : RefillStatus) : Once cfg (s.lookupHandler cfg status) := by
  have hquiet : Once cfg { s with lookupEvent := none } := h.frame (fun _ => rfl) rfl
  have hinv' : Inv cfg { s with lookupEvent := none } := hinv.quiet rfl rfl rfl (fun _ => id) rfl
  rw [L1.lookupHandler]
  simp only
  split_ifs
  · exact hquiet.frame (fun _ => rfl) rfl
  · exact (hquiet.lookupPort hinv' hports _ status).enqueueLookup
  · exact hquiet.lookupPort hinv' hports _ status
  · exact hquiet.enqueueLookup
  · exact hquiet

theorem inputReqMuxed (hport : port < cfg.nrFetchPorts) (addr : BitVec 32) (size : Nat)
    (status : RefillStatus) : Once cfg (s.inputReqMuxed cfg port addr size status) := by
  -- the new fetch is in one place more
  have harrive : ∀ t : L1, t.reqs.length = s.reqs.length + 1 →
      (∀ x, (t.places cfg).count x = (s.places cfg).count x + [s.reqs.length].count x) →
        Once cfg t := fun t hlen hcount x => by
    have hx := hcount x
    simp only [h x, count_singleton, beq_iff_eq] at hx
    rw [hx, hlen]
    split_ifs <;> omega
  rw [L1.inputReqMuxed]
  simp only
  split_ifs
  · refine harrive _ ?_ fun x => ?_
    · rw [Traffic.bypass_reqs, Traffic.arrive, length_append, length_singleton]
    · cases status <;>
        simp only [places, Traffic.bypass, Traffic.deny, Traffic.read, Traffic.answer, Traffic.arrive, map_append,
          map_cons, map_nil, count_append] <;> omega
  all_goals
    refine Once.enqueueLookup (harrive _ (by rw [Traffic.arrive, length_append, length_singleton]) fun x => ?_)
    have hqueue := fun delay => count_queued (x := x) hport s.portReqs
      (s.portReqs port ++ [PortReq.mk s.reqs.length (s.cycle + delay)])
    simp only [map_append, map_cons, map_nil, count_append] at hqueue
    simp [places, Traffic.arrive]
  · have hqueue := hqueue 2
    omega
  · have hqueue := hqueue 1
    omega

theorem answerWaiters (hinv : Inv cfg s) : Once cfg (s.answerWaiters cfg i) := by
  rw [L1.answerWaiters]
  simp only
  split
  · rename_i req rest hwaiters
    have hi := (hinv.slotBound i (hinv.waiters i req (by rw [hwaiters]; exact mem_cons_self)).1).1
    split
    · refine h.frame (fun x => ?_) rfl
      have hslot := count_merged (x := x) hi s.slots { s.slots i with waiters := rest }
      rw [hwaiters] at hslot
      simp only [places, L1.setSlot, Traffic.answer, map_append, map_cons, map_nil, count_append,
        count_cons, count_nil] at hslot ⊢
      omega
    · exact h
  · refine Once.enqueueLookup (h.frame (fun x => ?_) rfl)
    have hsame : merged cfg (update s.slots i { s.slots i with
        busy := false, doneCycle := none, reuseCycle := s.cycle + 1, sent := false, fetched := false }) =
          merged cfg s.slots :=
      flatMap_congr fun j _ => by
        rw [update_apply]
        split
        · rw [‹j = i›]
        · rfl
    simp only [places, L1.setSlot, hsame]

theorem completeRefill : Once cfg (s.completeRefill cfg i) := by
  refine h.frame (fun x => ?_) rfl
  have hsame : merged cfg (s.completeRefill cfg i).slots = merged cfg s.slots := flatMap_congr fun j _ => by
    simp only [L1.completeRefill, update_apply]
    split
    · rw [‹j = i›]
    · rfl
  rw [places, places, hsame]
  rfl

theorem refillDoneLoop (next : Option Nat) : Once cfg (s.refillDoneLoop cfg i next) := by
  rw [L1.refillDoneLoop.eq_def]
  split_ifs
  · split
    · split_ifs
      · exact Once.completeRefill (h.frame (fun _ => rfl) rfl)
      · exact h.frame (fun _ => rfl) rfl
      · exact h.frame (fun _ => rfl) rfl
    · exact h.frame (fun _ => rfl) rfl
  · split
    · exact h.frame (fun _ => rfl) rfl
    · exact h

theorem respLoop (hinv : Inv cfg s) : Once cfg s.respLoop := by
  rw [L1.respLoop]
  split
  · rename_i req data rest hresps
    obtain ⟨r, hr, -⟩ := hinv.resps (req, data) (by rw [hresps]; exact mem_cons_self)
    rw [L1.respond, show ({ s with resps := rest } : L1).reqs[req]? = some r from hr]
    refine h.frame (fun x => ?_) rfl
    simp only [places, hresps, Traffic.answer, map_append, map_cons, map_nil, count_append, count_cons,
      count_nil]
    omega
  · exact h

theorem bypassResp {u : Traffic} (hu : s.toTraffic.bypassResp req = some u) :
    Once cfg { s with toTraffic := u } := by
  rw [Traffic.bypassResp, ite_none_right_eq_some] at hu
  obtain ⟨hmem, hu⟩ := hu
  obtain ⟨r, -, rfl⟩ := map_eq_some_iff.1 hu
  refine h.frame (fun x => ?_) rfl
  have hpos := count_pos_iff.2 hmem
  simp only [places, Traffic.read, Traffic.answer, map_append, map_cons, map_nil, count_append,
    count_cons, count_nil, count_erase, beq_iff_eq]
  split_ifs with hx
  · rw [← hx]
    omega
  · omega

theorem memory : Once cfg
    { s.setSlot i { s.slots i with data := s.bytesAt (cfg.lineBase (s.slots i).tag) cfg.lineBytes, fetched :=
      true } with
      toTraffic := s.toTraffic.read (cfg.lineBase (s.slots i).tag) cfg.lineBytes } := by
  refine h.frame (fun x => ?_) rfl
  have hsame : merged cfg (update s.slots i { s.slots i with
      data := s.bytesAt (cfg.lineBase (s.slots i).tag) cfg.lineBytes, fetched := true }) = merged cfg s.slots :=
    flatMap_congr fun j _ => by
      rw [update_apply]
      split
      · rw [‹j = i›]
      · rfl
  simp only [places, L1.setSlot, Traffic.read, hsame]

theorem step (hinv : Inv cfg s) (hports : ∀ p, s.portReqs p ≠ [] → p < cfg.nrFetchPorts)
    (hstep : s.step cfg e = some t) : Once cfg t := by
  cases e with
  | fetch port addr size status =>
    obtain ⟨⟨hport, -⟩, rfl⟩ := ite_some_none_eq_some.1 hstep
    exact h.inputReqMuxed hport addr size status
  | bypassResp req =>
    obtain ⟨u, hu, rfl⟩ := map_eq_some_iff.1 hstep
    exact h.bypassResp hu
  | memory i =>
    obtain ⟨-, rfl⟩ := ite_some_none_eq_some.1 hstep
    exact h.memory
  | refillResp i isLast =>
    obtain ⟨-, hstep⟩ := ite_none_right_eq_some.1 hstep
    split_ifs at hstep
    · cases hstep
      exact h
    · cases hstep
      exact h.completeRefill
  | refillRetry =>
    cases hstep
    rw [L1.refillRetry]
    split_ifs <;> exact h.frame (fun _ => rfl) rfl
  | enable | write | flush | flushLine =>
    cases hstep
    exact h.frame (fun _ => rfl) rfl
  | lookup status =>
    obtain ⟨-, rfl⟩ := ite_some_none_eq_some.1 hstep
    exact h.lookupHandler hinv hports status
  | refillDone | resp =>
    obtain ⟨-, rfl⟩ := ite_some_none_eq_some.1 hstep
    exact h.frame (fun _ => rfl) rfl
  | «continue» =>
    have hpop : ∀ {head todo}, s.todo = head :: todo → Once cfg { s with todo := todo } ∧
      Inv cfg { s with todo := todo } :=
      fun htodo => ⟨h.frame (fun _ => rfl) rfl,
        hinv.quiet rfl rfl rfl (fun j hj => by rw [htodo]; exact mem_cons_of_mem _ hj) rfl⟩
    rw [L1.step] at hstep
    split at hstep
    · rename_i htodo
      cases hstep
      exact (hpop htodo).1.answerWaiters (hpop htodo).2
    · rename_i next todo htodo
      cases hstep
      exact (hpop htodo).1.refillDoneLoop next
    · rename_i htodo
      cases hstep
      exact (hpop htodo).1.respLoop (hpop htodo).2
    · cases hstep
      exact h.frame (fun _ => rfl) rfl
    · cases hstep
      exact h.frame (fun _ => rfl) rfl
    · cases hstep
  | tick =>
    obtain ⟨-, ⟨⟩⟩ := ite_none_left_eq_some.1 hstep
    exact h.frame (fun _ => rfl) rfl

end Once

/-! ## What wakes up the fetches -/

/-- A refill is in flight, or has come back: it is answering, or an event looks for it. -/
def Lands (s : L1) (i : Nat) : Prop :=
  (s.slots i).sent = true ∨ .waiters i ∈ s.todo ∨ (s.slots i).doneCycle ≠ none ∧
    (s.refillDoneEvent ≠ none ∨ ∃ k next, .refillDone k next ∈ s.todo ∧ (k ≤ i ∨ next ≠ none))

theorem Lands.pop {head : L1Todo} (h : L1.Lands { s with todo := head :: s.todo } i) (hwait : head ≠ .waiters i)
    (hloop : ∀ k next, head ≠ .refillDone k next) : s.Lands i := by
  rcases h with hsent | hmem | ⟨hcycle, hevent | ⟨k, next, hmem, hk⟩⟩
  · exact .inl hsent
  · exact .inr (.inl ((mem_cons.1 hmem).resolve_left fun he => hwait he.symm))
  · exact .inr (.inr ⟨hcycle, .inl hevent⟩)
  · exact .inr (.inr ⟨hcycle, .inr ⟨k, next, (mem_cons.1 hmem).resolve_left fun he => hloop k next he.symm, hk⟩⟩)

structure Owed (cfg : Config) (s : L1) : Prop where
  ports : ∀ p, s.portReqs p ≠ [] → p < cfg.nrFetchPorts
  resps : s.resps ≠ [] → s.respEvent ≠ none ∨ .resps ∈ s.todo
  slots : ∀ i, (s.slots i).busy = true → s.Lands i

namespace Owed

section

variable (h : Owed cfg s)
include h

theorem frame (hports : t.portReqs = s.portReqs) (hresps : t.resps = s.resps)
     (hevent : s.respEvent ≠ none → t.respEvent ≠ none) (hslots : t.slots = s.slots)
    (hdone : s.refillDoneEvent ≠ none → t.refillDoneEvent ≠ none) (htodo : s.todo ⊆ t.todo) : Owed cfg t := by
  refine ⟨hports ▸ h.ports, fun hne => ?_, fun i hi => ?_⟩
  · exact (h.resps (hresps ▸ hne)).imp hevent fun hmem => htodo hmem
  · rw [hslots] at hi
    rcases h.slots i hi with hsent | hmem | ⟨hcycle, hwake⟩
    · exact .inl (hslots ▸ hsent)
    · exact .inr (.inl (htodo hmem))
    · exact .inr (.inr ⟨hslots ▸ hcycle, hwake.imp hdone fun ⟨k, next, hmem, hk⟩ => ⟨k, next, htodo hmem, hk⟩⟩)

theorem enqueueLookup : Owed cfg s.enqueueLookup :=
  h.frame rfl rfl id rfl id (Subset.refl _)

theorem setSlot (hslots : t.slots = update s.slots i slot)
    (hland : slot.busy = true → t.Lands i) (hports : t.portReqs = s.portReqs) (hresps : t.resps = s.resps)
    (hevent : t.respEvent = s.respEvent)
    (hdone : s.refillDoneEvent ≠ none → t.refillDoneEvent ≠ none) (htodo : ∀ x ∈ s.todo, x ≠ .waiters i → x ∈ t.todo) :
    Owed cfg t := by
  refine ⟨hports ▸ h.ports, fun hne => ?_, fun j hj => ?_⟩
  · rw [hresps] at hne
    rw [hevent]
    exact (h.resps hne).imp_right fun hmem => htodo _ hmem nofun
  · by_cases hji : j = i
    · rw [hslots, hji, update_self] at hj
      exact hji ▸ hland hj
    · have hsame : t.slots j = s.slots j := by rw [hslots, update_of_ne hji]
      rw [hsame] at hj
      rw [Lands, hsame]
      refine (h.slots j hj).imp_right (Or.imp (fun hmem => htodo _ hmem fun he => hji (by injection he)) ?_)
      exact And.imp_right (Or.imp hdone fun ⟨k, next, hmem, hk⟩ => ⟨k, next, htodo _ hmem nofun, hk⟩)

theorem lookup (req : Nat) (r : Request) (status : RefillStatus) : Owed cfg (s.lookup cfg req r status).1 := by
  rw [L1.lookup]
  split_ifs
  · exact h
  · simp only
    split
    · exact ⟨h.ports, fun _ => .inl enqueue_ne_none, h.slots⟩
    · split
      · rename_i i hget
        refine h.setSlot rfl (fun hbusy => ?_) rfl rfl rfl id fun _ hx _ => hx
        have hland := h.slots i hbusy
        rw [Lands] at hland ⊢
        rw [show (L1.setSlot s i _).slots i = _ from update_self ..]
        exact hland
      · split
        · exact h
        · rename_i i _
          cases status with
          | denied => exact h.frame rfl rfl id rfl id (Subset.refl _)
          | granted =>
            refine h.setSlot rfl (fun _ => .inl ?_) rfl rfl rfl id fun _ hx _ => hx
            rw [show (L1.setSlot s i _).slots i = _ from update_self ..]
          | done latency =>
            refine h.setSlot rfl (fun _ => .inr (.inr ⟨?_, .inl enqueue_ne_none⟩)) rfl rfl rfl
              (fun _ => enqueue_ne_none)
              fun _ hx _ => hx
            rw [show (L1.setSlot s i _).slots i = _ from update_self ..]
            simp

theorem lookupPort (port : Nat) (status : RefillStatus) : Owed cfg (s.lookupPort cfg port status) := by
  rw [L1.lookupPort]
  split
  · exact h
  · rename_i p rest hqueue
    split
    · exact h
    · rename_i r _
      have hlookup := h.lookup p.req r status
      have hkept := Once.lookup_kept cfg s p.req r status
      split <;> rename_i t hresult <;> rw [hresult] at hlookup hkept <;> obtain ⟨hsame, -⟩ := hkept
      · have hsub : ∀ p', update t.portReqs port rest p' ≠ [] → t.portReqs p' ≠ [] := fun p' hne => by
          rw [update_apply] at hne
          split_ifs at hne with hp
          · rw [hp, show t.portReqs = s.portReqs from hsame, hqueue]
            exact cons_ne_nil _ _
          · exact hne
        exact { hlookup with ports := fun p' hne => hlookup.ports p' (hsub p' hne) }
      · exact hlookup.frame rfl rfl id rfl id (Subset.refl _)

theorem lookupHandler (status : RefillStatus) : Owed cfg (s.lookupHandler cfg status) := by
  have hquiet : Owed cfg { s with lookupEvent := none } := h.frame rfl rfl id rfl id (Subset.refl _)
  rw [L1.lookupHandler]
  simp only
  split_ifs
  · exact hquiet.frame rfl rfl id rfl id (Subset.refl _)
  · exact (hquiet.lookupPort _ status).enqueueLookup
  · exact hquiet.lookupPort _ status
  · exact hquiet.enqueueLookup
  · exact hquiet

theorem inputReqMuxed (hport : port < cfg.nrFetchPorts) (addr : BitVec 32) (size : Nat)
    (status : RefillStatus) : Owed cfg (s.inputReqMuxed cfg port addr size status) := by
  have hqueue : ∀ reqs p, update s.portReqs port reqs p ≠ [] → p < cfg.nrFetchPorts := fun reqs p hne => by
    rw [update_apply] at hne
    split_ifs at hne with hp
    · exact hp ▸ hport
    · exact h.ports p hne
  rw [L1.inputReqMuxed]
  simp only
  split_ifs
  · exact h.frame rfl rfl id rfl id (Subset.refl _)
  · exact Owed.enqueueLookup ⟨hqueue _, h.resps, h.slots⟩
  · exact Owed.enqueueLookup ⟨hqueue _, h.resps, h.slots⟩

theorem completeRefill : Owed cfg (s.completeRefill cfg i) :=
  h.setSlot rfl (fun _ => .inr (.inl mem_cons_self)) rfl rfl rfl id fun _ hx _ => mem_cons_of_mem _ hx

end

theorem answerWaiters (h : Owed cfg { s with todo := .waiters i :: s.todo })
    (hreqs : ∀ req ∈ (s.slots i).waiters, ∃ r, s.reqs[req]? = some r) : Owed cfg (s.answerWaiters cfg i) := by
  rw [L1.answerWaiters]
  simp only
  split
  · rename_i req rest hwaiters
    obtain ⟨r, hr⟩ := hreqs req (by rw [hwaiters]; exact mem_cons_self)
    rw [hr]
    exact h.setSlot rfl (fun _ => .inr (.inl mem_cons_self)) rfl rfl rfl id fun _ hx _ => hx
  · exact Owed.enqueueLookup (h.setSlot rfl (by simp) rfl rfl rfl id fun x hx hne => (mem_cons.1 hx).resolve_left hne)

theorem next (h : Owed cfg s) (i : Nat) (next next' : Option Nat) (hports : t.portReqs = s.portReqs)
    (hresps : t.resps = s.resps)
    (hevent : t.respEvent = s.respEvent) (hslots : t.slots = s.slots) (hdone : t.refillDoneEvent = s.refillDoneEvent)
    (htodo : ∀ x ∈ s.todo, x ≠ .refillDone i next → x ∈ t.todo) (hgo : .refillDone (i + 1) next' ∈ t.todo)
    (hnext : next ≠ none → next' ≠ none)
    (hland : (s.slots i).busy = true → (s.slots i).doneCycle ≠ none → .waiters i ∈ t.todo ∨ next' ≠ none) :
      Owed cfg t := by
  refine ⟨hports ▸ h.ports, fun hne => ?_, fun j hj => ?_⟩
  · rw [hresps] at hne
    rw [hevent]
    exact (h.resps hne).imp_right fun hmem => htodo _ hmem nofun
  · rw [hslots] at hj
    rw [Lands, hslots, hdone]
    rcases h.slots j hj with hsent | hmem | ⟨hcycle, hwake | ⟨k, next₀, hmem, hk⟩⟩
    · exact .inl hsent
    · exact .inr (.inl (htodo _ hmem nofun))
    · exact .inr (.inr ⟨hcycle, .inl hwake⟩)
    · by_cases hji : j = i
      · subst hji
        exact .inr ((hland hj hcycle).imp_right fun hne => ⟨hcycle, .inr ⟨_, next', hgo, .inr hne⟩⟩)
      · refine .inr (.inr ⟨hcycle, .inr ?_⟩)
        by_cases he : L1Todo.refillDone k next₀ = .refillDone i next
        · cases he
          exact ⟨i + 1, next', hgo, hk.imp (fun hle => by omega) hnext⟩
        · exact ⟨k, next₀, htodo _ hmem he, hk⟩

theorem refillDoneLoop {next : Option Nat} (h : Owed cfg { s with todo := .refillDone i next :: s.todo })
    (hbound : ∀ j, (s.slots j).busy = true → j < cfg.numAxiOutstanding) : Owed cfg (s.refillDoneLoop cfg i next) := by
  have hrest : ∀ new : List L1Todo, ∀ x ∈ L1Todo.refillDone i next :: s.todo, x ≠ .refillDone i next →
    x ∈ new ++ s.todo :=
    fun _ x hx hne => mem_append_right _ ((mem_cons.1 hx).resolve_left hne)
  rw [L1.refillDoneLoop.eq_def]
  split_ifs with hi
  · split
    · rename_i done hbusy hcycle
      split_ifs with hdue
      · refine h.completeRefill.next i next next rfl rfl rfl rfl rfl (fun x hx hne => ?_)
          (mem_cons_of_mem _ mem_cons_self) id fun _ _ => .inl mem_cons_self
        rcases mem_cons.1 hx with hx | hx
        · exact hx ▸ mem_cons_self
        · exact mem_cons_of_mem _ (mem_cons_of_mem _ ((mem_cons.1 hx).resolve_left hne))
      · exact h.next i next _ rfl rfl rfl rfl rfl (hrest [_]) mem_cons_self (fun _ => by simp) fun _ _ => .inr (by simp)
      · rename_i hlater
        refine h.next i next _ rfl rfl rfl rfl rfl (hrest [_]) mem_cons_self id fun _ _ => .inr fun hnone => ?_
        rw [hnone] at hlater
        exact hlater rfl
    · rename_i hnot
      refine h.next i next _ rfl rfl rfl rfl rfl (hrest [_]) mem_cons_self id fun hbusy hcycle => ?_
      obtain ⟨done, hsome⟩ := ne_none_iff_exists'.1 hcycle
      exact (hnot done hbusy hsome).elim
  · -- no slot is left
    have hgone : ∀ j, (s.slots j).busy = true → L1.Lands { s with todo := .refillDone i next :: s.todo } j →
        (s.slots j).sent = true ∨ .waiters j ∈ s.todo ∨ (s.slots j).doneCycle ≠ none ∧
          (s.refillDoneEvent ≠ none ∨ next ≠ none ∨ ∃ k next, .refillDone k next ∈ s.todo ∧ (k ≤ j ∨ next ≠ none)) :=
      fun j hj hland => by
        rcases hland with hsent | hmem | ⟨hcycle, hevent | ⟨k, next₀, hmem, hk⟩⟩
        · exact .inl hsent
        · exact .inr (.inl ((mem_cons.1 hmem).resolve_left (by simp)))
        · exact .inr (.inr ⟨hcycle, .inl hevent⟩)
        · refine .inr (.inr ⟨hcycle, .inr ?_⟩)
          rcases mem_cons.1 hmem with he | hmem
          · cases he
            have hlt := hbound j hj
            exact .inl (hk.resolve_left fun hle => by omega)
          · exact .inr ⟨k, next₀, hmem, hk⟩
    have hresps : s.resps ≠ [] → s.respEvent ≠ none ∨ .resps ∈ s.todo := fun hne => by
      rcases h.resps hne with hevent | hmem
      · exact .inl hevent
      · exact .inr ((mem_cons.1 hmem).resolve_left (by simp))
    split
    · exact ⟨h.ports, hresps, fun j hj => (hgone j hj (h.slots j hj)).imp_right (Or.imp_right (And.imp_right fun _ =>
        .inl enqueue_ne_none))⟩
    · exact ⟨h.ports, hresps, fun j hj => (hgone j hj (h.slots j hj)).imp_right
        (Or.imp_right (And.imp_right (Or.imp_right
        fun hnext => hnext.resolve_left fun hne => hne rfl)))⟩

theorem respLoop (h : Owed cfg { s with todo := .resps :: s.todo }) : Owed cfg s.respLoop := by
  rw [L1.respLoop]
  split
  · rw [L1.respond]
    split
    · exact ⟨h.ports, fun _ => .inr mem_cons_self, h.slots⟩
    · exact ⟨h.ports, fun _ => .inr mem_cons_self, h.slots⟩
  · exact ⟨h.ports, fun hne => (hne ‹_›).elim, fun j hj => (h.slots j hj).pop (by simp) (by simp)⟩

theorem pop (head : L1Todo) (h : Owed cfg { s with todo := head :: s.todo }) (hresps : head ≠ .resps)
    (hwait : ∀ j, head ≠ .waiters j) (hloop : ∀ k next, head ≠ .refillDone k next) : Owed cfg s :=
  ⟨h.ports, fun hne => (h.resps hne).imp_right fun hmem => (mem_cons.1 hmem).resolve_left fun he => hresps he.symm,
    fun j hj => (h.slots j hj).pop (hwait j) hloop⟩

theorem step (h : Owed cfg s) (hinv : Inv cfg s) (hstep : s.step cfg e = some t) : Owed cfg t := by
  cases e with
  | fetch port addr size status =>
    obtain ⟨⟨hport, -⟩, rfl⟩ := ite_some_none_eq_some.1 hstep
    exact h.inputReqMuxed hport addr size status
  | bypassResp req =>
    obtain ⟨u, -, rfl⟩ := map_eq_some_iff.1 hstep
    exact h.frame rfl rfl id rfl id (Subset.refl _)
  | memory i =>
    obtain ⟨⟨-, -, hsent, -⟩, rfl⟩ := ite_some_none_eq_some.1 hstep
    refine h.setSlot rfl (fun _ => .inl ?_) rfl rfl rfl id fun _ hx _ => hx
    rw [show (L1.setSlot s i _).slots i = _ from update_self ..]
    exact hsent
  | refillResp i isLast =>
    obtain ⟨-, hstep⟩ := ite_none_right_eq_some.1 hstep
    split_ifs at hstep
    · cases hstep
      exact h
    · cases hstep
      exact h.completeRefill
  | refillRetry =>
    cases hstep
    rw [L1.refillRetry]
    split_ifs
    · exact h.frame rfl rfl id rfl id (subset_cons_self _ _)
    · exact h.frame rfl rfl id rfl id (Subset.refl _)
  | enable | write | flush | flushLine =>
    cases hstep
    exact h.frame rfl rfl id rfl id (Subset.refl _)
  | lookup status =>
    obtain ⟨-, rfl⟩ := ite_some_none_eq_some.1 hstep
    exact h.lookupHandler status
  | refillDone =>
    obtain ⟨hdue, rfl⟩ := ite_some_none_eq_some.1 hstep
    have hnil : s.todo = [] := (of_decide_eq_true hdue).1
    refine ⟨h.ports, fun hne => .inl ((h.resps hne).resolve_right fun hmem => ?_), fun j hj => ?_⟩
    · rw [hnil] at hmem
      cases hmem
    · refine (h.slots j hj).imp_right (Or.imp (fun hmem => ?_)
        (And.imp_right fun _ => .inr ⟨0, none, mem_cons_self, .inl
        (Nat.zero_le _)⟩))
      rw [hnil] at hmem
      cases hmem
  | resp =>
    obtain ⟨hdue, rfl⟩ := ite_some_none_eq_some.1 hstep
    have hnil : s.todo = [] := (of_decide_eq_true hdue).1
    refine ⟨h.ports, fun _ => .inr mem_cons_self, fun j hj => ?_⟩
    rw [Lands]
    refine (h.slots j hj).imp_right (Or.imp (fun hmem => ?_) (And.imp_right (Or.imp_right fun hex => ?_)))
    on_goal 2 => obtain ⟨_, _, hmem, _⟩ := hex
    all_goals
      rw [hnil] at hmem
      cases hmem
  | «continue» =>
    rw [L1.step] at hstep
    split at hstep
    · rename_i i todo htodo
      cases hstep
      refine answerWaiters (s := { s with todo := todo }) ?_ fun req hreq => ?_
      · rw [← htodo]
        exact h
      · exact (hinv.waiters i req hreq).2.imp fun _ hr => hr.1
    · rename_i todo htodo
      cases hstep
      refine refillDoneLoop (s := { s with todo := todo }) ?_ fun j hj => (hinv.slotBound j hj).1
      rw [← htodo]
      exact h
    · rename_i todo htodo
      cases hstep
      refine respLoop (s := { s with todo := todo }) ?_
      rw [← htodo]
      exact h
    · rename_i port todo htodo
      cases hstep
      have hpop : Owed cfg { s with todo := todo } := pop (.retryPort port) (htodo ▸ h) (by simp) (by simp) (by simp)
      exact hpop.frame rfl rfl id rfl id (subset_cons_self _ _)
    · rename_i todo htodo
      cases hstep
      have hpop : Owed cfg { s with todo := todo } := pop .lookupEvent (htodo ▸ h) (by simp) (by simp) (by simp)
      exact hpop.enqueueLookup
    · cases hstep
  | tick =>
    obtain ⟨-, ⟨⟩⟩ := ite_none_left_eq_some.1 hstep
    exact h.frame rfl rfl id rfl id (Subset.refl _)

end Owed

/-- A fetch that is queued on a port is looked up. -/
def Lookups (s : L1) : Prop := ∀ p, s.portReqs p ≠ [] → s.lookupEvent ≠ none

namespace Lookups

theorem frame (h : s.Lookups) (hports : t.portReqs = s.portReqs)
    (hevent : s.lookupEvent ≠ none → t.lookupEvent ≠ none) :
    t.Lookups := fun p hp => hevent (h p (hports ▸ hp))

theorem enqueueLookup (s : L1) : s.enqueueLookup.Lookups := fun _ _ => enqueue_ne_none

theorem lookupHandler (h : Owed cfg s) (status : RefillStatus) : (s.lookupHandler cfg status).Lookups := by
  have hquiet : Owed cfg { s with lookupEvent := none } := h.frame rfl rfl id rfl id (Subset.refl _)
  have hempty : ∀ {t : L1}, Owed cfg t → ¬((List.range cfg.nrFetchPorts).any fun i => t.portReqs i ≠ []) =
    true → t.Lookups :=
    fun ht hany p hp => by
      refine (hany (List.any_eq_true.2 ⟨p, mem_range.2 (ht.ports p hp), ?_⟩)).elim
      exact decide_eq_true hp
  rw [L1.lookupHandler]
  simp only
  split_ifs with hblock hready hany hany
  · exact enqueueLookup _
  · exact enqueueLookup _
  · exact hempty (hquiet.lookupPort _ status) hany
  · exact enqueueLookup _
  · exact hempty hquiet hany

theorem step (h : s.Lookups) (howed : Owed cfg s) (hstep : s.step cfg e = some t) : t.Lookups := by
  cases e with
  | fetch port addr size status =>
    obtain ⟨-, rfl⟩ := ite_some_none_eq_some.1 hstep
    rw [L1.inputReqMuxed]
    simp only
    split_ifs
    · exact h.frame rfl id
    · exact enqueueLookup _
    · exact enqueueLookup _
  | bypassResp req =>
    obtain ⟨u, -, rfl⟩ := map_eq_some_iff.1 hstep
    exact h.frame rfl id
  | memory i =>
    obtain ⟨-, rfl⟩ := ite_some_none_eq_some.1 hstep
    exact h.frame rfl id
  | refillResp i isLast =>
    obtain ⟨-, hstep⟩ := ite_none_right_eq_some.1 hstep
    split_ifs at hstep <;> cases hstep
    · exact h
    · exact h.frame rfl id
  | refillRetry =>
    cases hstep
    rw [L1.refillRetry]
    split_ifs
    · exact h.frame rfl id
    · exact enqueueLookup _
  | enable | write | flush | flushLine =>
    cases hstep
    exact h.frame rfl id
  | lookup status =>
    obtain ⟨-, rfl⟩ := ite_some_none_eq_some.1 hstep
    exact lookupHandler howed status
  | refillDone | resp =>
    obtain ⟨-, rfl⟩ := ite_some_none_eq_some.1 hstep
    exact h.frame rfl id
  | «continue» =>
    rw [L1.step] at hstep
    split at hstep
    · cases hstep
      rw [L1.answerWaiters]
      simp only
      split
      · split <;> exact h.frame rfl id
      · exact enqueueLookup _
    · cases hstep
      rw [L1.refillDoneLoop.eq_def]
      split_ifs
      · split
        · split_ifs <;> exact h.frame rfl id
        · exact h.frame rfl id
      · split <;> exact h.frame rfl id
    · cases hstep
      rw [L1.respLoop]
      split
      · rw [L1.respond]
        split <;> exact h.frame rfl id
      · exact h.frame rfl id
    · cases hstep
      exact h.frame rfl id
    · cases hstep
      exact enqueueLookup _
    · cases hstep
  | tick =>
    obtain ⟨-, ⟨⟩⟩ := ite_none_left_eq_some.1 hstep
    exact h.frame rfl id

end Lookups

end L1

end GvsocPulp.SnitchIcache
