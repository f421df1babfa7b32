import GvsocPulp.Lib.Run
import GvsocPulp.SnitchIcache.L1

/-!
# What the lines of the L1 hold

As for the L0, with the buffers of the refill slots, from which a line is written when the refill lands, and the answers
of the hits, which hold their bytes from the lookup on.
-/

namespace GvsocPulp.SnitchIcache

open Lib Function List Option

namespace L1

variable {cfg : Config} {s t : L1} {req i : Nat} {r : Request}

structure Inv (cfg : Config) (s : L1) : Prop where
  traffic : s.toTraffic.Ok cfg
  lines : ∀ set way, (s.lines set way).tag ≠ noTag → s.Source cfg (s.lines set way).tag (s.lines set way).data
  sets : ∀ set way, (s.lines set way).tag ≠ noTag → lineIndex cfg (s.lines set way).tag = set
  slotBound : ∀ i, (s.slots i).busy = true → i < cfg.numAxiOutstanding ∧
    (s.slots i).lineIndex = lineIndex cfg (s.slots i).tag
  slots : ∀ i, (s.slots i).busy = true → (s.slots i).fetched = true → s.Source cfg (s.slots i).tag (s.slots i).data
  done : ∀ i, (s.slots i).busy = true → (s.slots i).doneCycle ≠ none → (s.slots i).fetched = true
  waiters : ∀ i, ∀ req ∈ (s.slots i).waiters, (s.slots i).busy = true ∧
    ∃ r, s.reqs[req]? = some r ∧ cfg.tagOf r.addr = (s.slots i).tag
  /-- A refill that is answering has been read. -/
  landing : ∀ i, .waiters i ∈ s.todo → (s.slots i).waiters ≠ [] → (s.slots i).fetched = true
  resps : ∀ x ∈ s.resps, ∃ r, s.reqs[x.1]? = some r ∧ s.Fresh r.port x.1 x.2

namespace Inv

theorem frame (h : Inv cfg s) (hok : t.toTraffic.Ok cfg) (hlater : s.toTraffic.Later t.toTraffic)
    (hlines : t.lines = s.lines) (hslots : t.slots = s.slots) (htodo : ∀ i, .waiters i ∈ t.todo → .waiters i ∈ s.todo)
    (hresps : ∀ x ∈ t.resps, x ∈ s.resps ∨ ∃ r, t.reqs[x.1]? = some r ∧ t.Fresh r.port x.1 x.2) : Inv cfg t := by
  refine ⟨hok, fun set way hway => ?_, hlines ▸ h.sets, hslots ▸ h.slotBound, fun i hbusy hfetched => ?_,
    hslots ▸ h.done, fun i req hreq => ?_, fun i hi => ?_, fun x hx => ?_⟩
  · rw [hlines] at hway ⊢
    exact hlater.source (h.lines set way hway)
  · rw [hslots] at hbusy hfetched ⊢
    exact hlater.source (h.slots i hbusy hfetched)
  · rw [hslots] at hreq ⊢
    obtain ⟨hbusy, r, hr, htag⟩ := h.waiters i req hreq
    exact ⟨hbusy, r, Traffic.getElem?_of_prefix hlater.reqs hr, htag⟩
  · rw [hslots]
    exact h.landing i (htodo i hi)
  · rcases hresps x hx with hx | hx
    · obtain ⟨r, hr, hfresh⟩ := h.resps x hx
      exact ⟨r, Traffic.getElem?_of_prefix hlater.reqs hr, hlater.fresh hfresh⟩
    · exact hx

theorem quiet (h : Inv cfg s) (htraffic : t.toTraffic = s.toTraffic) (hlines : t.lines = s.lines)
    (hslots : t.slots = s.slots) (htodo : ∀ i, .waiters i ∈ t.todo → .waiters i ∈ s.todo)
    (hresps : t.resps = s.resps) : Inv cfg t :=
  h.frame (htraffic ▸ h.traffic) (htraffic ▸ .refl _) hlines hslots htodo fun _ hx => .inl (hresps ▸ hx)

theorem enqueueLookup (h : Inv cfg s) : Inv cfg s.enqueueLookup := h.quiet rfl rfl rfl (fun _ => id) rfl

theorem setSlot (h : Inv cfg s) {slot : L1Slot} (hok : t.toTraffic.Ok cfg) (hlater : s.toTraffic.Later t.toTraffic)
    (hlines : t.lines = s.lines) (hslots : t.slots = update s.slots i slot)
    (hbound : slot.busy = true → i < cfg.numAxiOutstanding ∧ slot.lineIndex = lineIndex cfg slot.tag)
    (hsource : slot.busy = true → slot.fetched = true → t.Source cfg slot.tag slot.data)
    (hdone : slot.busy = true → slot.doneCycle ≠ none → slot.fetched = true)
    (hwaiters : ∀ req ∈ slot.waiters, slot.busy = true ∧ ∃ r, t.reqs[req]? = some r ∧ cfg.tagOf r.addr = slot.tag)
    (hlanding : .waiters i ∈ t.todo → slot.waiters ≠ [] → slot.fetched = true)
    (htodo : ∀ j, j ≠ i → .waiters j ∈ t.todo → .waiters j ∈ s.todo) (hresps : t.resps = s.resps) : Inv cfg t := by
  refine ⟨hok, fun set way hway => ?_, hlines ▸ h.sets, fun j hbusy => ?_, fun j hbusy hfetched => ?_,
    fun j hbusy hcycle => ?_, fun j req hreq => ?_,
    fun j hj hne => ?_, fun x hx => ?_⟩
  · rw [hlines] at hway ⊢
    exact hlater.source (h.lines set way hway)
  · rw [hslots] at hbusy ⊢
    by_cases hj : j = i
    · rw [hj, update_self] at hbusy ⊢
      exact hbound hbusy
    · rw [update_of_ne hj] at hbusy ⊢
      exact h.slotBound j hbusy
  · rw [hslots] at hbusy hfetched ⊢
    by_cases hj : j = i
    · rw [hj, update_self] at hbusy hfetched ⊢
      exact hsource hbusy hfetched
    · rw [update_of_ne hj] at hbusy hfetched ⊢
      exact hlater.source (h.slots j hbusy hfetched)
  · rw [hslots] at hbusy hcycle ⊢
    by_cases hj : j = i
    · rw [hj, update_self] at hbusy hcycle ⊢
      exact hdone hbusy hcycle
    · rw [update_of_ne hj] at hbusy hcycle ⊢
      exact h.done j hbusy hcycle
  · rw [hslots] at hreq ⊢
    by_cases hj : j = i
    · rw [hj, update_self] at hreq ⊢
      exact hwaiters req hreq
    · rw [update_of_ne hj] at hreq ⊢
      obtain ⟨hbusy, r, hr, htag⟩ := h.waiters j req hreq
      exact ⟨hbusy, r, Traffic.getElem?_of_prefix hlater.reqs hr, htag⟩
  · rw [hslots] at hne ⊢
    by_cases hji : j = i
    · rw [hji, update_self] at hne ⊢
      exact hlanding (hji ▸ hj) hne
    · rw [update_of_ne hji] at hne ⊢
      exact h.landing j (htodo j hji hj) hne
  · rw [hresps] at hx
    obtain ⟨r, hr, hfresh⟩ := h.resps x hx
    exact ⟨r, Traffic.getElem?_of_prefix hlater.reqs hr, hlater.fresh hfresh⟩

theorem getLine_tag {tag : BitVec 32} {way : Nat} (hget : s.getLine cfg tag = some way) :
    (s.lines (lineIndex cfg tag) way).tag = tag := by
  simpa using find?_some hget

theorem slotForTag_spec {tag : BitVec 32} (hget : s.slotForTag cfg tag = some i) :
    (s.slots i).busy = true ∧ (s.slots i).tag = tag := by
  simpa using find?_some hget

theorem allocRefillSlot_spec (hget : s.allocRefillSlot cfg = some i) :
    i < cfg.numAxiOutstanding ∧ (s.slots i).busy = false := by
  have hfree := find?_some hget
  simp only [Bool.and_eq_true, Bool.not_eq_true'] at hfree
  exact ⟨mem_range.1 (mem_of_find?_eq_some hget), hfree.1⟩

variable (h : Inv cfg s)
include h

theorem lookup (hr : s.reqs[req]? = some r) (htodo : s.todo = []) (status : RefillStatus) :
    Inv cfg (s.lookup cfg req r status).1 := by
  have hidle : ∀ {i}, L1Todo.waiters i ∉ s.todo := fun {i} hi => by
    rw [htodo] at hi
    cases hi
  rw [L1.lookup]
  split_ifs with hretry
  · exact h
  · simp only
    split
    · rename_i way hget
      have htag := getLine_tag hget
      have hsource := h.lines _ way (by rw [htag]; exact cfg.tagOf_ne r.addr)
      rw [htag] at hsource
      refine h.frame h.traffic (.refl _) rfl rfl (fun _ => id) fun x hx => ?_
      rcases mem_append.1 hx with hx | hx
      · exact .inl hx
      · obtain rfl := mem_singleton.1 hx
        exact .inr ⟨r, hr, h.traffic.fresh hr hsource⟩
    · split
      · rename_i i hget
        obtain ⟨hbusy, htag⟩ := slotForTag_spec hget
        refine h.setSlot h.traffic (.refl _) rfl rfl (h.slotBound i) (h.slots i) (h.done i) (fun req' hreq' => ?_)
          (fun hi => (hidle hi).elim) (fun _ _ hj => (hidle hj).elim) rfl
        rcases mem_append.1 hreq' with hreq' | hreq'
        · exact h.waiters i req' hreq'
        · obtain rfl := mem_singleton.1 hreq'
          exact ⟨hbusy, r, hr, htag.symm⟩
      · split
        · exact h
        · rename_i i halloc
          obtain ⟨hi, -⟩ := allocRefillSlot_spec halloc
          have hwaiter : ∀ req' ∈ [req], ∃ r', s.reqs[req']? = some r' ∧ cfg.tagOf r'.addr = cfg.tagOf r.addr :=
            fun req' hreq' => by
              obtain rfl := mem_singleton.1 hreq'
              exact ⟨r, hr, rfl⟩
          cases status with
          | denied => exact h.quiet rfl rfl rfl (fun _ => id) rfl
          | granted =>
            exact h.setSlot h.traffic (.refl _) rfl rfl (fun _ => ⟨hi, rfl⟩) nofun (fun _ hne => (hne rfl).elim)
              (fun req' hreq' => ⟨rfl, hwaiter req' hreq'⟩) (fun hi => (hidle hi).elim)
                (fun _ _ hj => (hidle hj).elim) rfl
          | done latency =>
            exact h.setSlot (h.traffic.read _ _) .read rfl rfl (fun _ => ⟨hi, rfl⟩)
              (fun _ _ => h.traffic.source_read (cfg.tagOf r.addr))
              (fun _ _ => rfl) (fun req' hreq' => ⟨rfl, hwaiter req' hreq'⟩) (fun hi => (hidle hi).elim)
              (fun _ _ hj => (hidle hj).elim) rfl

theorem lookupPort (htodo : s.todo = []) (port : Nat) (status : RefillStatus) :
    Inv cfg (s.lookupPort cfg port status) := by
  rw [L1.lookupPort]
  split
  · exact h
  · split
    · exact h
    · rename_i r hr
      have hlookup := h.lookup hr htodo status
      split
      · rename_i hresult
        rw [hresult] at hlookup
        exact hlookup.quiet rfl rfl rfl (fun _ => id) rfl
      · rename_i hresult
        rw [hresult] at hlookup
        exact hlookup.quiet rfl rfl rfl (fun _ => id) rfl

theorem lookupHandler (htodo : s.todo = []) (status : RefillStatus) : Inv cfg (s.lookupHandler cfg status) := by
  have hquiet : Inv cfg { s with lookupEvent := none } := h.quiet rfl rfl rfl (fun _ => id) rfl
  rw [L1.lookupHandler]
  simp only
  split_ifs
  · exact Inv.enqueueLookup (hquiet.quiet rfl rfl rfl (fun _ => id) rfl)
  · exact (hquiet.lookupPort htodo _ status).enqueueLookup
  · exact hquiet.lookupPort htodo _ status
  · exact hquiet.enqueueLookup
  · exact hquiet

theorem inputReqMuxed (port : Nat) {addr : BitVec 32} {size : Nat}
    (hfit : cfg.lineOffset addr + size ≤ cfg.lineBytes) (status : RefillStatus) :
    Inv cfg (s.inputReqMuxed cfg port addr size status) := by
  have hr : (s.toTraffic.arrive cfg port addr size).reqs[s.reqs.length]? =
      some ⟨port, addr, size, s.flushed (cfg.tagOf addr)⟩ := getElem?_concat_length
  have harrive : Inv cfg { s with toTraffic := s.toTraffic.arrive cfg port addr size } :=
    h.frame (h.traffic.arrive port hfit) (.arrive cfg) rfl rfl (fun _ => id) fun _ hx => .inl hx
  rw [L1.inputReqMuxed]
  simp only
  split_ifs
  · exact harrive.frame (harrive.traffic.bypass hr status) .bypass rfl rfl (fun _ => id) fun _ hx => .inl hx
  · exact Inv.enqueueLookup (harrive.quiet rfl rfl rfl (fun _ => id) rfl)
  · exact Inv.enqueueLookup (harrive.quiet rfl rfl rfl (fun _ => id) rfl)

theorem completeRefill (hbusy : (s.slots i).busy = true) (hfetched : (s.slots i).fetched = true) :
    Inv cfg (s.completeRefill cfg i) := by
  have hsource := h.slots i hbusy hfetched
  have hslots : Inv cfg
      { s.setSlot i { s.slots i with doneCycle := none, sent := false } with todo := .waiters i :: s.todo } :=
    h.setSlot h.traffic (.refl _) rfl rfl (h.slotBound i) (h.slots i) (fun _ hne => (hne rfl).elim) (h.waiters i)
      (fun _ _ => hfetched) (fun j hj hmem => (mem_cons.1 hmem).resolve_left fun he => hj (by injection he)) rfl
  refine { hslots with
    traffic := h.traffic, lines := fun set way hway => ?_, sets := fun set way hway => ?_, resps := h.resps }
  · simp only [L1.completeRefill, L1.setLine, update_apply] at hway ⊢
    split at hway
    · rename_i hset
      rw [if_pos hset]
      rw [update_apply] at hway ⊢
      split at hway
      · rename_i hw
        rw [if_pos hw]
        exact hsource
      · rename_i hw
        rw [if_neg hw]
        exact h.lines _ way hway
    · rename_i hset
      rw [if_neg hset]
      exact h.lines set way hway
  · simp only [L1.completeRefill, L1.setLine, update_apply] at hway ⊢
    split at hway
    · rename_i hset
      rw [if_pos hset]
      rw [update_apply] at hway ⊢
      split at hway
      · rename_i hw
        rw [if_pos hw]
        exact ((h.slotBound i hbusy).2.symm).trans hset.symm
      · rename_i hw
        rw [if_neg hw]
        exact (h.sets _ way hway).trans hset.symm
    · rename_i hset
      rw [if_neg hset]
      exact h.sets set way hway

theorem answerWaiters (hlanding : (s.slots i).waiters ≠ [] → (s.slots i).fetched = true) :
    Inv cfg (s.answerWaiters cfg i) := by
  rw [L1.answerWaiters]
  simp only
  split
  · rename_i req rest hwaiters
    have hfetched := hlanding (by rw [hwaiters]; exact cons_ne_nil _ _)
    obtain ⟨hbusy, r', hr', htag⟩ := h.waiters i req (by rw [hwaiters]; exact mem_cons_self)
    split
    · rename_i r hr
      rw [hr] at hr'
      obtain rfl := Option.some.inj hr'
      have hsource := h.slots i hbusy hfetched
      rw [← htag] at hsource
      have hfresh := h.traffic.fresh hr hsource
      refine h.setSlot (h.traffic.answer hfresh) .answer rfl rfl (h.slotBound i)
        (fun _ _ => Traffic.Later.answer.source (htag ▸ hsource)) (h.done i) (fun req' hreq' => ?_)
          (fun _ _ => hfetched)
        (fun j hj hmem => ?_) rfl
      · exact h.waiters i req' (by rw [hwaiters]; exact mem_cons_of_mem _ hreq')
      · exact (mem_cons.1 hmem).resolve_left fun he => hj (by injection he)
    · exact h
  · rename_i hwaiters
    refine Inv.enqueueLookup (h.setSlot h.traffic (.refl _) rfl rfl nofun nofun nofun (fun req' hreq' => ?_)
      (fun _ hne => ?_)
      (fun _ _ => id) rfl)
    · rw [show (s.slots i).waiters = [] from hwaiters] at hreq'
      cases hreq'
    · exact (hne hwaiters).elim

theorem refillDoneLoop (next : Option Nat) : Inv cfg (s.refillDoneLoop cfg i next) := by
  have hnext : ∀ next', Inv cfg { s with todo := .refillDone (i + 1) next' :: s.todo } := fun next' =>
    h.quiet rfl rfl rfl (fun j hj => (mem_cons.1 hj).resolve_left nofun) rfl
  rw [L1.refillDoneLoop.eq_def]
  split_ifs with hi
  · split
    · rename_i done hbusy hcycle
      split_ifs with hdue
      · exact (hnext next).completeRefill hbusy (h.done i hbusy (by rw [hcycle]; nofun))
      · exact hnext _
      · exact hnext _
    · exact hnext next
  · split
    · exact h.quiet rfl rfl rfl (fun _ => id) rfl
    · exact h

theorem respLoop : Inv cfg s.respLoop := by
  rw [L1.respLoop]
  split
  · rename_i req data rest hresps
    obtain ⟨r, hr, hfresh⟩ := h.resps (req, data) (by rw [hresps]; exact mem_cons_self)
    have hrespond : ({ s with resps := rest } : L1).respond req data =
        { s with resps := rest, toTraffic := s.toTraffic.answer r.port req data } := by
      rw [L1.respond, hr]
    rw [hrespond]
    refine h.frame (h.traffic.answer hfresh) .answer rfl rfl (fun j hj => (mem_cons.1 hj).resolve_left nofun)
      fun x hx => .inl ?_
    rw [hresps]
    exact mem_cons_of_mem _ hx
  · exact h

theorem refillRetry : Inv cfg s.refillRetry := by
  rw [L1.refillRetry]
  split_ifs
  · exact h.quiet rfl rfl rfl (fun j hj => (mem_cons.1 hj).resolve_left nofun) rfl
  · exact Inv.enqueueLookup (h.quiet rfl rfl rfl (fun _ => id) rfl)

theorem flush (hslots : ∀ i, (s.slots i).busy = true → (s.slots i).fetched = false) : Inv cfg s.flush := by
  refine ⟨h.traffic.flush, fun _ _ hw => (hw rfl).elim, fun _ _ hw => (hw rfl).elim, h.slotBound,
    fun i hbusy hfetched => ?_, h.done, h.waiters, h.landing,
    fun x hx => (h.resps x hx).imp fun r hr => ⟨hr.1, hr.2.mono prefix_rfl prefix_rfl⟩⟩
  have hnot := hslots i hbusy
  rw [show (s.slots i).fetched = true from hfetched] at hnot
  cases hnot

theorem flushLine (addr : BitVec 32)
    (hslots : ∀ i, (s.slots i).busy = true → (s.slots i).fetched = true → (s.slots i).tag ≠ cfg.tagOf addr) :
    Inv cfg (s.flushLine cfg addr) := by
  refine ⟨h.traffic.flushLine _, fun set way hw => ?_, fun set way hw => ?_, h.slotBound, fun i hbusy hfetched =>
    (h.slots i hbusy hfetched).flushLine (hslots i hbusy hfetched), h.done, h.waiters, h.landing,
    fun x hx => (h.resps x hx).imp fun r hr => ⟨hr.1, hr.2.mono prefix_rfl prefix_rfl⟩⟩
  all_goals simp only [L1.flushLine] at hw ⊢
  all_goals split at hw
  · exact (hw rfl).elim
  · rename_i hne
    rw [if_neg hne]
    refine (h.lines set way hw).flushLine fun htag => hne ⟨?_, htag⟩
    rw [← h.sets set way hw, htag]
  · exact (hw rfl).elim
  · rename_i hne
    rw [if_neg hne]
    exact h.sets set way hw

theorem memory :
    Inv cfg { s.setSlot i
        { s.slots i with data := s.bytesAt (cfg.lineBase (s.slots i).tag) cfg.lineBytes, fetched := true } with
      toTraffic := s.toTraffic.read (cfg.lineBase (s.slots i).tag) cfg.lineBytes } :=
  h.setSlot (h.traffic.read _ _) .read rfl rfl (h.slotBound i) (fun _ _ => h.traffic.source_read (s.slots i).tag)
    (fun _ _ => rfl) (h.waiters i) (fun _ _ => rfl) (fun _ _ => id) rfl

end Inv

/-- No refill that has been read lands behind a flush of its line. -/
def settled (cfg : Config) (s : L1) : L1Event → Bool
  | .flush => (List.range cfg.numAxiOutstanding).all fun i => !((s.slots i).busy && (s.slots i).fetched)
  | .flushLine addr => (List.range cfg.numAxiOutstanding).all fun i =>
      !((s.slots i).busy && (s.slots i).fetched && (s.slots i).tag = cfg.tagOf addr)
  | _ => true

theorem Inv.step (h : Inv cfg s) {e : L1Event} (hsettled : s.settled cfg e = true) (hstep : s.step cfg e = some t) :
    Inv cfg t := by
  cases e with
  | fetch port addr size status =>
    obtain ⟨⟨-, -, hfit⟩, rfl⟩ := ite_some_none_eq_some.1 hstep
    exact h.inputReqMuxed port hfit status
  | bypassResp req =>
    obtain ⟨u, hu, rfl⟩ := map_eq_some_iff.1 hstep
    obtain ⟨hok, hlater⟩ := h.traffic.bypassResp hu
    exact h.frame hok hlater rfl rfl (fun _ => id) fun _ hx => .inl hx
  | memory i =>
    obtain ⟨-, rfl⟩ := ite_some_none_eq_some.1 hstep
    exact h.memory
  | refillResp i isLast =>
    obtain ⟨⟨-, hbusy, -⟩, hstep⟩ := ite_none_right_eq_some.1 hstep
    split_ifs at hstep with hlast hfetched
    · cases hstep
      exact h
    · cases hstep
      exact h.completeRefill hbusy hfetched
  | refillRetry =>
    cases hstep
    exact h.refillRetry
  | enable active =>
    cases hstep
    exact h.quiet rfl rfl rfl (fun _ => id) rfl
  | flush =>
    cases hstep
    refine h.flush fun i hbusy => ?_
    have hi := List.all_eq_true.1 hsettled i (mem_range.2 (h.slotBound i hbusy).1)
    simpa [hbusy] using hi
  | flushLine addr =>
    cases hstep
    refine h.flushLine addr fun i hbusy hfetched => ?_
    have hi := List.all_eq_true.1 hsettled i (mem_range.2 (h.slotBound i hbusy).1)
    simpa [hbusy, hfetched] using hi
  | write addr byte =>
    cases hstep
    exact h.frame (h.traffic.write addr byte) ⟨prefix_rfl, prefix_rfl, rfl⟩ rfl rfl (fun _ => id) fun _ hx => .inl hx
  | lookup status =>
    obtain ⟨hdue, rfl⟩ := ite_some_none_eq_some.1 hstep
    have htodo : s.todo = [] := (of_decide_eq_true hdue).1
    exact h.lookupHandler htodo status
  | refillDone =>
    obtain ⟨-, rfl⟩ := ite_some_none_eq_some.1 hstep
    exact h.quiet rfl rfl rfl (fun j hj => (nomatch mem_singleton.1 hj)) rfl
  | resp =>
    obtain ⟨-, rfl⟩ := ite_some_none_eq_some.1 hstep
    exact h.quiet rfl rfl rfl (fun j hj => (nomatch mem_singleton.1 hj)) rfl
  | «continue» =>
    have hpop : ∀ {c todo}, s.todo = c :: todo → Inv cfg { s with todo := todo } := fun htodo =>
      h.quiet rfl rfl rfl (fun j hj => by rw [htodo]; exact mem_cons_of_mem _ hj) rfl
    rw [L1.step] at hstep
    split at hstep
    · rename_i i todo htodo
      cases hstep
      exact (hpop htodo).answerWaiters (h.landing i (by rw [htodo]; exact mem_cons_self))
    · rename_i i next todo htodo
      cases hstep
      exact (hpop htodo).refillDoneLoop next
    · rename_i todo htodo
      cases hstep
      exact (hpop htodo).respLoop
    · rename_i port todo htodo
      cases hstep
      refine h.quiet rfl rfl rfl (fun j hj => ?_) rfl
      rw [htodo]
      refine mem_cons_of_mem _ ((mem_cons.1 hj).resolve_left ?_)
      split_ifs <;> nofun
    · rename_i todo htodo
      cases hstep
      exact (hpop htodo).enqueueLookup
    · cases hstep
  | tick =>
    obtain ⟨-, ⟨⟩⟩ := ite_none_left_eq_some.1 hstep
    exact h.quiet rfl rfl rfl (fun _ => id) rfl

theorem inv_initial (mem : BitVec 32 → Byte) : Inv cfg { mem := mem } where
  traffic := ⟨nofun, nofun, fun _ => Nat.le_refl _, nofun, nofun⟩
  lines _ _ h := (h rfl).elim
  sets _ _ h := (h rfl).elim
  slotBound := nofun
  slots := nofun
  done := nofun
  waiters := nofun
  landing := nofun
  resps := nofun

end L1

end GvsocPulp.SnitchIcache
