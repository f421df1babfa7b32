import GvsocPulp.EventUnitV3.DispatchRing

/-!
# The event unit: the dispatch FIFO delivers

- `CoreInv`: a core on the ring, what it has taken from there and how far its pop has come;
- `inv_push`, `inv_pop`, `inv_wakeup`, `inv_tick`: each step keeps the invariant, where pops are in order;
- `dispatch_delivers`: over whole runs, each core gets its values; `dispatch_missed`: a core that the ring has overtaken
  sleeps at the wrong entry.
-/

namespace GvsocPulp.EventUnitV3

open Lib CoreEventUnit Function List Option Nat DispatchUnit EventUnit

namespace DispatchSystem

variable {s t : DispatchSystem} {core req a stale : Nat}

/-! ## The invariant -/

/-- The pushes, after as many for nobody as the ring has entries. -/
def log (s : DispatchSystem) : List (BitVec 32 × BitVec 32) := replicate s.unit.size (0#32, 0#32) ++ s.pushes

/-- How far the last pop of a core has come; the core has taken the values before the position `a`. -/
inductive Phase (s : DispatchSystem) (core a stale : Nat) : Prop
  | runs (hno : ∀ req, ¬s.Waits core req) (hrun : Running s.unit.eventBit (s.unit.top.core core))
    (hwaiting : ∀ j, (s.unit.view core).waiting j = false) (htaken : s.answersOf core = valuesFor core (s.log.take a))
  | parked (req : Nat) (hw : s.Waits core req) (ha : a = s.log.length) (hstale : stale + s.unit.size ≤ s.log.length)
    (hasleep : Asleep s.unit.eventBit s.unit.eventBit req .waitingEvent (s.unit.top.core core))
    (hwaiting : ∀ j, (s.unit.view core).waiting j = decide (j = s.log.length % s.unit.size))
    (hreq : (s.unit.view core).waitingReqs (s.log.length % s.unit.size) = some req)
    (htaken : s.answersOf core = valuesFor core s.log)
  | woken (req : Nat) (cycle : Int) (hw : s.Waits core req)
    (hwaking : Waking s.unit.eventBit req false cycle (s.unit.top.core core)) (hle : s.unit.top.now ≤ cycle)
    (hle' : cycle ≤ s.unit.top.now + 1) (hwaiting : ∀ j, (s.unit.view core).waiting j = false)
    (htaken : s.answersOf core ++ [s.unit.top.data req] = valuesFor core (s.log.take a))

structure CoreInv (s : DispatchSystem) (core a stale : Nat) : Prop where
  ring : Ring s.unit.size s.log core (s.unit.view core) a stale
  strict : stale = 0 ∨ stale < a
  phase : s.Phase core a stale

structure Inv (s : DispatchSystem) : Prop where
  nbCore_le : s.unit.top.nbCore ≤ 32
  event_lt : s.unit.dispatchEvent < 32
  entries : Entries s.unit s.log
  asked : ∀ req ∈ s.answered, req < s.pops.length
  answeredOnce : s.answered.Nodup
  waits_lt : ∀ core req, s.Waits core req → core < s.unit.top.nbCore
  once : ∀ core req req', s.Waits core req → s.Waits core req' → req = req'
  idle : ∀ core, s.unit.top.nbCore ≤ core → ∀ j, (s.unit.view core).waiting j = false
  cores : ∀ core < s.unit.top.nbCore, ∃ a stale, s.CoreInv core a stale

theorem runs_iff : s.Runs core ↔ core < s.unit.top.nbCore ∧ ∀ req, ¬s.Waits core req := by
  refine and_congr_right fun _ => forall_answered_iff.trans ?_
  exact ⟨fun h req hw => h core req hw rfl, fun h y req hw heq => h req (by rw [← show y = core from heq]; exact hw)⟩

theorem CoreInv.running (h : s.CoreInv core a stale) (hno : ∀ req, ¬s.Waits core req) :
    Running s.unit.eventBit (s.unit.top.core core) ∧ (∀ j, (s.unit.view core).waiting j = false) ∧
      s.answersOf core = valuesFor core (s.log.take a) := by
  cases h.phase with
  | runs _ hrun hwaiting htaken => exact ⟨hrun, hwaiting, htaken⟩
  | parked req hw => exact absurd hw (hno req)
  | woken req _ hw => exact absurd hw (hno req)

theorem CoreInv.transport (h : s.CoreInv core a stale) (hlog : t.log = s.log) (hsize : t.unit.size = s.unit.size)
    (hview : t.unit.view core = s.unit.view core) (hbit : t.unit.eventBit = s.unit.eventBit)
    (hnow : t.unit.top.now = s.unit.top.now) (hwaits : ∀ req, t.Waits core req ↔ s.Waits core req)
    (hans : t.answersOf core = s.answersOf core) (hdata : ∀ req, s.Waits core req →
      t.unit.top.data req = s.unit.top.data req) :
    t.CoreInv core a stale := by
  have heu : t.unit.top.core core = s.unit.top.core core := congrArg CoreView.eu hview
  refine ⟨by rw [hsize, hlog, hview]; exact h.ring, h.strict, ?_⟩
  cases h.phase with
  | runs hno hrun hwaiting htaken =>
    exact .runs (fun req hw => hno req ((hwaits req).1 hw)) (by rw [hbit, heu]; exact hrun)
      (by rw [hview]; exact hwaiting)
      (by rw [hans, hlog]; exact htaken)
  | parked req hw ha hstale hasleep hwaiting hreq htaken =>
    exact .parked req ((hwaits req).2 hw) (by rw [hlog]; exact ha) (by rw [hsize, hlog]; exact hstale)
      (by rw [hbit, heu]; exact hasleep) (by rw [hview, hlog, hsize]; exact hwaiting)
      (by rw [hview, hlog, hsize]; exact hreq) (by rw [hans, hlog]; exact htaken)
  | woken req cycle hw hwaking hle hle' hwaiting htaken =>
    exact .woken req cycle ((hwaits req).2 hw) (by rw [hbit, heu]; exact hwaking) (by rw [hnow]; exact hle)
      (by rw [hnow]; exact hle') (by rw [hview]; exact hwaiting) (by rw [hans, hdata req hw, hlog]; exact htaken)

theorem inv_config {team : BitVec 32} (hi : s.Inv) (hruns : s.Runs core) : (s.config core team).Inv := by
  obtain ⟨hcore, hno⟩ := runs_iff.1 hruns
  obtain ⟨a, stale, hc⟩ := hi.cores core hcore
  have hdemux : s.demux core = s.unit := by rw [demux, demuxReq_running (hc.running hno).1]
  rw [config, hdemux]
  refine { hi with entries := { hi.entries with }, cores := fun c hc' => ?_ }
  obtain ⟨a, stale, hc⟩ := hi.cores c hc'
  exact ⟨a, stale, hc.transport rfl rfl rfl rfl rfl (fun _ => Iff.rfl) rfl fun _ _ => rfl⟩

/-! ## Pops -/

variable {u : DispatchUnit}

theorem waits_pop (hi : s.Inv) (hu : u.top.answers = s.unit.top.answers) {core' req' : Nat} :
    Waits { s with unit := u, pops := s.pops ++ [core] } core' req' ↔
      s.Waits core' req' ∨ core' = core ∧ req' = s.pops.length := by
  have hans : answered { s with unit := u, pops := s.pops ++ [core] } = s.answered := by rw [answered, hu]; rfl
  rw [Waits, hans]
  exact pending_concat hi.asked

theorem answersOf_pop (hi : s.Inv) (hu : u.top.answers = s.unit.top.answers) (c : Nat) :
    answersOf { s with unit := u, pops := s.pops ++ [core] } c = s.answersOf c := by
  rw [answersOf, answersOf, hu]
  congr 1
  refine filter_congr fun answer hanswer => ?_
  have hlt := hi.asked answer.1 (List.mem_map_of_mem hanswer)
  rw [getElem?_append_left hlt]

theorem cores_pop (hi : s.Inv) (honly : Only s.unit u core)
    (hdata : ∀ r, r ≠ s.pops.length → u.top.data r = s.unit.top.data r)
    (hcore : ∃ a stale, CoreInv { s with unit := u, pops := s.pops ++ [core] } core a stale)
      (hlt : core < s.unit.top.nbCore)
    (hno : ∀ req, ¬s.Waits core req) :
    Inv { s with unit := u, pops := s.pops ++ [core] } := by
  have hans : u.top.answers = s.unit.top.answers := congrArg Shared.answers honly.shared
  have hnb : u.top.nbCore = s.unit.top.nbCore := congrArg Shared.nbCore honly.shared
  have hevent : u.dispatchEvent = s.unit.dispatchEvent := congrArg Shared.dispatchEvent honly.shared
  have hsize : u.size = s.unit.size := congrArg Shared.size honly.shared
  have hanswered : answered { s with unit := u, pops := s.pops ++ [core] } = s.answered := by rw [answered, hans]; rfl
  have hlog : log { s with unit := u, pops := s.pops ++ [core] } = s.log := by rw [log, hsize]; rfl
  refine ⟨hnb ▸ hi.nbCore_le, hevent ▸ hi.event_lt, by rw [hlog]; exact hi.entries.congr honly.shared,
    fun r hr => ?asked, hanswered ▸ hi.answeredOnce, fun c r hw => ?waits_lt, fun c r r' hw hw' => ?once,
    fun c hc j => ?idle, fun c hc => ?cores⟩
  case asked =>
    rw [hanswered] at hr
    rw [length_append]
    exact Nat.lt_add_right _ (hi.asked r hr)
  case waits_lt =>
    rw [hnb]
    rcases (waits_pop hi hans).1 hw with hw | ⟨rfl, -⟩
    · exact hi.waits_lt c r hw
    · exact hlt
  case once =>
    rcases (waits_pop hi hans).1 hw with hw | ⟨rfl, rfl⟩ <;> rcases (waits_pop hi hans).1 hw' with hw' | ⟨hc, rfl⟩
    · exact hi.once c r r' hw hw'
    · exact absurd (hc ▸ hw) (hno r)
    · exact absurd hw' (hno r')
    · rfl
  case idle =>
    have hne : c ≠ core := fun heq => by
      rw [heq] at hc
      exact absurd (hnb ▸ hlt) (not_lt.2 hc)
    rw [honly.view c hne]
    exact hi.idle c (hnb ▸ hc) j
  case cores =>
    by_cases hne : c = core
    · exact hne ▸ hcore
    · obtain ⟨a, stale, hc'⟩ := hi.cores c (hnb ▸ hc)
      refine ⟨a, stale, hc'.transport hlog hsize (honly.view c hne) honly.eventBit_eq (congrArg Shared.now honly.shared)
        (fun r => ?_) (answersOf_pop hi hans c) fun r hw => hdata r hw.lt.ne⟩
      exact (waits_pop hi hans).trans ⟨fun h => h.resolve_right fun h => hne h.1, Or.inl⟩

theorem inv_pop (hi : s.Inv) (hruns : s.Runs core) (horder : s.unit.PopsInOrder core) : (s.pop core).Inv := by
  obtain ⟨hcore, hno⟩ := runs_iff.1 hruns
  have hcore32 : core < 32 := hcore.trans_le hi.nbCore_le
  obtain ⟨a₀, stale₀, hc⟩ := hi.cores core hcore
  obtain ⟨hrun, hwaiting, htaken⟩ := hc.running hno
  have hdemux : s.demux core = s.unit := by rw [demux, demuxReq_running hrun]
  rw [pop, hdemux]
  -- the walk
  obtain ⟨a, stale, hring, hle, hstale, htake, hstop⟩ := hc.ring.normalize hi.entries hc.strict horder
  obtain ⟨a', hw⟩ := bypass_ring hcore32 s.unit.size hring hi.entries hle hle hstop
  obtain ⟨u', hu'⟩ : ∃ u', s.unit.bypass core s.unit.size = u' := ⟨_, rfl⟩
  rw [hu'] at hw
  have hsize' : u'.size = s.unit.size := congrArg Shared.size hw.only.shared
  have htail : u'.tail core = a' % s.unit.size := hw.ring.tail
  have hwaiting' : ∀ j, (u'.view core).waiting j = false := by rw [hw.waiting]; exact hwaiting
  have htake' : s.answersOf core = valuesFor core (s.log.take a') := by
    rw [htaken, ← htake]
    exact (valuesFor_skip hw.le hw.ring.le hw.skipped).symm
  rcases hw.stops with ⟨ha', hstatus⟩ | ⟨hlt, hfor, hstatus⟩
  · -- nothing is ready: the core sleeps at the head
    subst ha'
    obtain ⟨e, he, honly, hdata, hview⟩ := pop_sleeps hu' hw.only hw.top hrun hcore32
      hstatus
    obtain ⟨u, hu⟩ : ∃ u, u = s.unit.pop s.pops.length core := ⟨_, rfl⟩
    rw [← hu] at honly hdata hview ⊢
    have hans : u.top.answers = s.unit.top.answers := congrArg Shared.answers honly.shared
    have hsize : u.size = s.unit.size := congrArg Shared.size honly.shared
    have hbit := honly.eventBit_eq
    have hlog : log { s with unit := u, pops := s.pops ++ [core] } = s.log := by rw [log, hsize]; rfl
    have hpos := hi.entries.size_pos
    refine cores_pop hi honly (fun r _ => by rw [hdata]) ⟨s.log.length, stale, ?_, ?_, ?_⟩ hcore hno
    · rw [hlog]
      rw [hsize, hview]
      exact { hw.ring with }
    · exact hstale
    · have hlast : stale + s.unit.size ≤ s.log.length := by
        refine hstop.resolve_right fun ⟨p, hp, hp', hfor⟩ => ?_
        rw [hw.skipped p hp hp'] at hfor
        cases hfor
      refine .parked s.pops.length ((waits_pop hi hans).2 (Or.inr ⟨rfl, rfl⟩)) (by rw [hlog]) ?_ ?_ (fun j => ?_) ?_ ?_
      · rw [hlog]
        rw [hsize]
        exact hlast
      · show Asleep u.eventBit u.eventBit _ _ (u.view core).eu
        rw [hbit, hview]
        exact he
      · rw [hlog]
        rw [hview, hsize, htail]
        dsimp only
        by_cases hj : j = s.log.length % s.unit.size
        · rw [hj, update_self, decide_eq_true rfl]
        · rw [update_of_ne hj, hwaiting', decide_eq_false hj]
      · rw [hlog]
        rw [hview, hsize, htail]
        dsimp only
        rw [update_self]
      · rw [answersOf_pop hi hans, htake', take_length, hlog]
  · -- the next value of the core
    have hle' : s.log.length ≤ a' + s.unit.size := hle.trans (Nat.add_le_add_right hw.le _)
    have hteam : (u'.dispatches (u'.tail core)).configMask.getLsbD core = true := by
      rw [htail, ← hsize']
      exact ((hi.entries.congr hw.only.shared).team hlt (by rw [hsize']; exact hle')).trans hfor
    have hvalue : (u'.dispatches (u'.tail core)).value = (pushAt s.log a').1 := by
      rw [htail, ← hsize']
      exact congrArg Prod.fst ((hi.entries.congr hw.only.shared).entry a' hlt (by rw [hsize']; exact hle'))
    obtain ⟨e, he, honly, hdata, hview⟩ := pop_takes hu' hw.only hw.top hrun hcore
      hi.nbCore_le hi.event_lt hstatus hteam
    obtain ⟨u, hu⟩ : ∃ u, u = s.unit.pop s.pops.length core := ⟨_, rfl⟩
    rw [← hu] at honly hdata hview ⊢
    have hans : u.top.answers = s.unit.top.answers := congrArg Shared.answers honly.shared
    have hsize : u.size = s.unit.size := congrArg Shared.size honly.shared
    have hbit := honly.eventBit_eq
    have hnow : u.top.now = s.unit.top.now := congrArg Shared.now honly.shared
    have hlog : log { s with unit := u, pops := s.pops ++ [core] } = s.log := by rw [log, hsize]; rfl
    refine cores_pop hi honly (fun r hr => by rw [hdata, update_of_ne hr]) ⟨a' + 1, stale, ?_, ?_, ?_⟩ hcore hno
    · rw [hlog]
      rw [hsize, hview]
      refine hw.ring.pass hlt hle' ?_ ?_
      · rw [htail, ← hsize', next_mod (hsize' ▸ hi.entries.size_pos)]
      · rw [htail]
    · have hsle := hw.ring.stale_le
      exact Or.inr (lt_succ_of_le hsle)
    · refine .woken s.pops.length (s.unit.top.now + 1) ((waits_pop hi hans).2 (Or.inr ⟨rfl, rfl⟩)) ?_ ?_ ?_
        (fun j => ?_) ?_
      · show Waking u.eventBit _ _ _ (u.view core).eu
        rw [hbit, hview]
        exact he
      · rw [hnow]
        exact Int.le_add_one (Int.le_refl _)
      · rw [hnow]
      · rw [hview]
        exact hwaiting' j
      · rw [answersOf_pop hi hans, hlog, valuesFor_succ hlt, htake', if_pos hfor]
        rw [hdata, update_self, hvalue]

/-! ## Pushes -/

theorem Inv.parked (hi : s.Inv) {j : Nat} (hwaiting : (s.unit.view core).waiting j = true) :
    core < s.unit.top.nbCore ∧ ∃ req, s.Waits core req ∧
      Asleep s.unit.eventBit s.unit.eventBit req .waitingEvent (s.unit.top.core core) ∧
      (s.unit.dispatches s.unit.fifoHead).waitingReqs core = some req := by
  have hcore : core < s.unit.top.nbCore := by
    by_contra hge
    rw [hi.idle core (not_lt.1 hge) j] at hwaiting
    cases hwaiting
  refine ⟨hcore, ?_⟩
  obtain ⟨a, stale, hc⟩ := hi.cores core hcore
  cases hc.phase with
  | runs _ _ hnone | woken _ _ _ _ _ _ hnone => rw [hnone] at hwaiting; cases hwaiting
  | parked req hw _ _ hasleep _ hreq =>
    rw [← hi.entries.head] at hreq
    exact ⟨req, hw, hasleep, hreq⟩

theorem entries_push {value : BitVec 32} (he : Entries s.unit s.log) (hu : u.shared = (s.unit.stored value).shared) :
    Entries u (s.log ++ [(value, s.unit.config)]) := by
  have hsize : u.size = s.unit.size := congrArg Shared.size hu
  have hhead : u.fifoHead = s.unit.next s.unit.fifoHead := congrArg Shared.fifoHead hu
  have hpos := he.size_pos
  refine ⟨hsize ▸ hpos, ?_, ?_, fun p hp hle => ?_⟩
  · rw [hsize, length_append]
    exact le_add_right_of_le he.size_le
  · rw [hhead, hsize, he.head, next_mod hpos, length_append, length_singleton]
  · rw [length_append, length_singleton] at hp hle
    rw [hsize] at hle
    rw [hsize, hu, stored, shared_setDispatch, he.head]
    dsimp only
    rcases Nat.lt_succ_iff_lt_or_eq.1 hp with hlt | rfl
    · have hne : p % s.unit.size ≠ s.log.length % s.unit.size := entry_ne hlt (by omega)
      rw [update_of_ne hne, update_of_ne hne, pushAt_append hlt]
      exact he.entry p hlt (by omega)
    · rw [update_self, update_self, pushAt_last]

theorem inv_push {value : BitVec 32} (hi : s.Inv) (hruns : s.Runs core) (hreuse : s.unit.Reusable) :
    (s.push core value).Inv := by
  obtain ⟨hcore, hno⟩ := runs_iff.1 hruns
  obtain ⟨a₀, stale₀, hc₀⟩ := hi.cores core hcore
  have hdemux : s.demux core = s.unit := by rw [demux, demuxReq_running (hc₀.running hno).1]
  rw [push, hdemux]
  -- the cores that sleep at the entry, with their pops
  obtain ⟨reqs, hreqs⟩ : ∃ reqs : Nat → Nat, ∀ c, (s.unit.dispatches s.unit.fifoHead).waitingMask.getLsbD c = true →
      c < s.unit.top.nbCore ∧ s.Waits c (reqs c) ∧
      Asleep s.unit.eventBit s.unit.eventBit (reqs c) .waitingEvent (s.unit.top.core c) ∧
      (s.unit.dispatches s.unit.fifoHead).waitingReqs c = some (reqs c) := by
    refine ⟨fun c => ((s.unit.dispatches s.unit.fifoHead).waitingReqs c).getD 0, fun c hc => ?_⟩
    obtain ⟨hlt, req, hw, hasleep, hreq⟩ := hi.parked (j := s.unit.fifoHead) hc
    dsimp only
    rw [hreq, getD_some]
    exact ⟨hlt, hw, hasleep, rfl⟩
  have hpush := s.unit.push_spec value hi.nbCore_le hi.event_lt
    (fun c hc => ⟨(hreqs c hc).1, (hreqs c hc).2.2⟩)
    fun c c' hc hc' heq => (hreqs c hc).2.1.inj (heq ▸ (hreqs c' hc').2.1)
  obtain ⟨u, hu⟩ : ∃ u, u = s.unit.push value := ⟨_, rfl⟩
  rw [← hu] at hpush ⊢
  obtain ⟨t, ht⟩ : ∃ t : DispatchSystem, t = { s with unit := u, pushes := s.pushes ++ [(value, s.unit.config)] } :=
    ⟨_, rfl⟩
  rw [← ht]
  have hunit : t.unit = u := by rw [ht]
  have hsize : t.unit.size = s.unit.size := by rw [hunit]; exact congrArg Shared.size hpush.shared
  have hnb : t.unit.top.nbCore = s.unit.top.nbCore := by rw [hunit]; exact congrArg Shared.nbCore hpush.shared
  have hnow : t.unit.top.now = s.unit.top.now := by rw [hunit]; exact congrArg Shared.now hpush.shared
  have hevent : t.unit.dispatchEvent = s.unit.dispatchEvent := by
    rw [hunit]; exact congrArg Shared.dispatchEvent hpush.shared
  have hans : t.unit.top.answers = s.unit.top.answers := by rw [hunit]; exact congrArg Shared.answers hpush.shared
  have hbit : t.unit.eventBit = s.unit.eventBit := by rw [eventBit, hevent]
  have hlog : t.log = s.log ++ [(value, s.unit.config)] := by
    rw [log, hsize, log, append_assoc, ht]
  have hlen : t.log.length = s.log.length + 1 := by rw [hlog, length_append, length_singleton]
  have hanswered : t.answered = s.answered := by rw [answered, hans]; rfl
  have hwaits : ∀ c r, t.Waits c r ↔ s.Waits c r := fun c r => by rw [Waits, hanswered, ht]; rfl
  have hanswers : ∀ c, t.answersOf c = s.answersOf c := fun c => by rw [answersOf, hans, ht]; rfl
  have hpos := hi.entries.size_pos
  have hlast : s.log.length - s.unit.size < s.log.length := by
    have := hi.entries.size_le
    omega
  have hmod : (s.log.length - s.unit.size) % s.unit.size = s.log.length % s.unit.size :=
    (mod_eq_sub_mod hi.entries.size_le).symm
  have hnotWaiting : ∀ c, (∀ j, (s.unit.view c).waiting j = false) → c ∉ s.unit.waitingCores := fun c hc hmem => by
    have hbit := (mem_filter.1 hmem).2
    rw [show (s.unit.dispatches s.unit.fifoHead).waitingMask.getLsbD c = false from hc s.unit.fifoHead] at hbit
    cases hbit
  -- a core that does not sleep at the entry
  have hother : ∀ c < s.unit.top.nbCore, ∀ a stale, s.CoreInv c a stale → (∀ j, (s.unit.view c).waiting j = false) →
      t.unit.view c = { s.unit.view c with status := update (s.unit.view c).status s.unit.fifoHead true } ∧
        Ring t.unit.size t.log c (t.unit.view c) a stale := by
    intro c hc a stale hci hnone
    have hview : t.unit.view c =
        { s.unit.view c with status := update (s.unit.view c).status s.unit.fifoHead true } := by
      rw [hunit, hpush.others c (hnotWaiting c hnone)]
      exact stored_view _ (hc.trans_le hi.nbCore_le)
    refine ⟨hview, ?_⟩
    rw [hsize, hlog, hview, hi.entries.head]
    refine hci.ring.push hpos hi.entries.size_le fun hstatus => ?_
    rw [← hi.entries.team hlast (by omega), hmod, ← hi.entries.head, Bool.eq_false_iff]
    intro hteam
    rw [← hi.entries.head] at hstatus
    rw [show (s.unit.view c).status s.unit.fifoHead = false from hreuse c hc hteam] at hstatus
    cases hstatus
  refine ⟨hnb ▸ hi.nbCore_le, hevent ▸ hi.event_lt, ?entries, fun r hr => ?asked, hanswered ▸ hi.answeredOnce,
    fun c r hw => hnb ▸ hi.waits_lt c r ((hwaits c r).1 hw),
    fun c r r' hw hw' => hi.once c r r' ((hwaits c r).1 hw) ((hwaits c r').1 hw'), fun c hc j => ?idle,
      fun c hc => ?cores⟩
  case entries =>
    rw [hlog, hunit]
    exact entries_push hi.entries hpush.shared
  case asked =>
    rw [ht]
    exact hi.asked r (hanswered ▸ hr)
  case idle =>
    have hnone := hi.idle c (hnb ▸ hc)
    rw [hunit, hpush.others c (hnotWaiting c hnone), stored, view_setDispatch]
    show update (s.unit.view c).waiting s.unit.fifoHead ((s.unit.view c).waiting s.unit.fifoHead) j = false
    rw [update_eq_self]
    exact hnone j
  case cores =>
    have hcs : c < s.unit.top.nbCore := hnb ▸ hc
    have hc32 : c < 32 := hcs.trans_le hi.nbCore_le
    obtain ⟨a, stale, hci⟩ := hi.cores c hcs
    have htake : ∀ {a}, a ≤ s.log.length → t.log.take a = s.log.take a := fun h => by
      rw [hlog, take_append_of_le_length h]
    cases hci.phase with
    | runs hnoC hrun hnone htaken =>
      obtain ⟨hview, hring⟩ := hother c hcs a stale hci hnone
      have heu : t.unit.top.core c = s.unit.top.core c := congrArg CoreView.eu hview
      exact ⟨a, stale, hring, hci.strict, .runs (fun r hw => hnoC r ((hwaits c r).1 hw)) (by rw [hbit, heu]; exact hrun)
        (by rw [hview]; exact hnone) (by rw [hanswers, htake hci.ring.le]; exact htaken)⟩
    | woken r cycle hw hwaking hle hle' hnone htaken =>
      obtain ⟨hview, hring⟩ := hother c hcs a stale hci hnone
      have heu : t.unit.top.core c = s.unit.top.core c := congrArg CoreView.eu hview
      have hdata : t.unit.top.data r = s.unit.top.data r := by
        rw [hunit]
        refine hpush.dataOther r fun c' hc' heq => ?_
        have hw' := (hreqs c' (mem_filter.1 hc').2).2.1
        exact hnotWaiting c hnone ((hw.inj (heq ▸ hw')) ▸ hc')
      exact ⟨a, stale, hring, hci.strict, .woken r cycle ((hwaits c r).2 hw) (by rw [hbit, heu]; exact hwaking)
        (by rw [hnow]; exact hle) (by rw [hnow]; exact hle') (by rw [hview]; exact hnone)
        (by rw [hanswers, hdata, htake hci.ring.le]; exact htaken)⟩
    | parked r hw ha hstale hasleep hwaiting hreq htaken =>
      subst ha
      have hhead : (s.unit.view c).waiting s.unit.fifoHead = true := by
        rw [hwaiting, hi.entries.head, decide_eq_true rfl]
      have hmem : c ∈ s.unit.waitingCores := mem_filter.2 ⟨mem_range.2 hc32, hhead⟩
      obtain ⟨-, hw', -, -⟩ := hreqs c hhead
      have hr : reqs c = r := hi.once c _ _ hw' hw
      have hpushed := hpush.pushed c hmem
      have hstoredView := s.unit.stored_view value hc32
      have hteamAt : ((s.unit.stored value).dispatches s.unit.fifoHead).configMask = s.unit.config := by
        rw [stored_entry]
      have hnext : (s.unit.stored value).next ((s.unit.stored value).tail c) = (s.log.length + 1) % s.unit.size := by
        rw [← next_mod hpos, ← hci.ring.tail]
        rfl
      have hfor : isForAt t.log c s.log.length = s.unit.config.getLsbD c := by rw [isForAt, hlog, pushAt_last]
      have hvalues : valuesFor c (t.log.take (s.log.length + 1)) =
          s.answersOf c ++ if s.unit.config.getLsbD c then [value] else [] := by
        rw [valuesFor_succ (by rw [hlen]; exact lt_succ_self _), hfor, htake le_rfl, take_length, ← htaken,
          hlog, pushAt_last]
      refine ⟨s.log.length + 1, stale, ?_, ?_, ?_⟩
      · rw [hsize, hlog]
        cases hpushed with
        | team e _ _ hv | other e _ _ hv =>
          refine hci.ring.pushAsleep hpos ?_ ?_
          · rw [hunit, hv]
            exact hnext
          · rw [hunit, hv, hstoredView, hi.entries.head]
      · exact Or.inr (by omega)
      · cases hpushed with
        | team e hteam he hv =>
          rw [hteamAt] at hteam
          rw [hr] at he
          refine .woken r (s.unit.top.now + 1) ((hwaits c r).2 hw) ?_
            (by rw [hnow]; exact Int.le_add_one (Int.le_refl _))
            (by rw [hnow]) (fun j => ?_) ?_
          · show Waking t.unit.eventBit _ _ _ (t.unit.view c).eu
            rw [hbit, hunit, hv]
            exact he
          · rw [hunit, hv, hstoredView]
            show update (s.unit.view c).waiting s.unit.fifoHead false j = false
            by_cases hj : j = s.unit.fifoHead
            · rw [hj, update_self]
            · rw [update_of_ne hj, hwaiting, decide_eq_false]
              rw [← hi.entries.head]
              exact hj
          · rw [hanswers, hvalues, hteam, if_pos rfl, hunit, ← hr, hpush.data c hmem (by rw [hteamAt]; exact hteam)]
            rw [stored_entry]
        | other e hteam he hv =>
          rw [hteamAt] at hteam
          rw [hr] at he hv
          refine .parked r ((hwaits c r).2 hw) hlen.symm (by rw [hsize, hlen]; omega) ?_ (fun j => ?_) ?_ ?_
          · show Asleep t.unit.eventBit t.unit.eventBit _ _ (t.unit.view c).eu
            rw [hbit, hunit, hv]
            exact he
          · rw [hunit, hv, hstoredView, hnext, hlen, ← hunit, hsize]
            show update (update (s.unit.view c).waiting s.unit.fifoHead false)
              ((s.log.length + 1) % s.unit.size) true j = _
            by_cases hj : j = (s.log.length + 1) % s.unit.size
            · rw [hj, update_self, decide_eq_true rfl]
            · rw [update_of_ne hj, decide_eq_false hj]
              by_cases hj' : j = s.unit.fifoHead
              · rw [hj', update_self]
              · rw [update_of_ne hj', hwaiting, decide_eq_false]
                rw [← hi.entries.head]
                exact hj'
          · rw [hunit, hv, hstoredView, hnext, hlen, ← hunit, hsize]
            dsimp only
            rw [update_self]
          · rw [hteam, if_neg Bool.false_ne_true, append_nil, ← hlen, take_length] at hvalues
            rw [hanswers, hvalues]

/-! ## Answers and cycles -/

variable {top : EventUnit}

section

variable (hi : s.Inv) (hcore : core < s.unit.top.nbCore) (h : s.unit.top.wakeupHandler core = some top)
include hi hcore h

theorem wakeup_woken : ∃ a stale req cycle, s.CoreInv core a stale ∧ s.Waits core req ∧
      Waking s.unit.eventBit req false cycle (s.unit.top.core core) ∧ (∀ j, (s.unit.view core).waiting j = false) ∧
      s.answersOf core ++ [s.unit.top.data req] = valuesFor core (s.log.take a) := by
  have hevent : (s.unit.top.core core).wakeupEvent ≠ none := fun hnone => by
    rw [wakeupHandler, hnone, if_neg (by simp)] at h
    cases h
  obtain ⟨a, stale, hc⟩ := hi.cores core hcore
  cases hc.phase with
  | runs _ hrun => exact absurd hrun.wakeupEvent hevent
  | parked _ _ _ _ hasleep => exact absurd hasleep.wakeupEvent hevent
  | woken req cycle hw hwaking _ _ hnone htaken => exact ⟨a, stale, req, cycle, hc, hw, hwaking, hnone, htaken⟩

theorem inv_wakeup : (s.withTop top).Inv := by
  obtain ⟨a, stale, req, cycle, hc, hw, hwaking, hnone, htaken⟩ := wakeup_woken hi hcore h
  obtain ⟨-, hnow, hnb, hdata, hans, e, he, hcores⟩ := wakeupHandler_waking hwaking h
  obtain ⟨t, ht⟩ : ∃ t, t = s.withTop top := ⟨_, rfl⟩
  rw [← ht]
  have htop : t.unit.top = top := by rw [ht]; rfl
  have hlog : t.log = s.log := by rw [ht]; rfl
  have hsize : t.unit.size = s.unit.size := by rw [ht]; rfl
  have hbit : t.unit.eventBit = s.unit.eventBit := by rw [ht]; rfl
  have hpops : t.pops = s.pops := by rw [ht]; rfl
  have hanswered : t.answered = s.answered ++ [req] := by
    rw [answered, htop, hans, map_append]
    rfl
  have hwaits : ∀ c r, t.Waits c r ↔ s.Waits c r ∧ r ≠ req := fun c r => by
    rw [Waits, hanswered, hpops]
    exact pending_answered
  have hanswers : ∀ c, t.answersOf c = s.answersOf c ++ if c = core then [s.unit.top.data req] else [] := by
    intro c
    rw [answersOf, htop, hans, filter_append, map_append, hpops, answersOf]
    congr 1
    rw [filter_singleton, hw.1]
    by_cases hne : c = core
    · subst hne
      simp
    · have hne' : ¬core = c := fun heq => hne heq.symm
      simp [hne, hne']
  have hview : ∀ c ≠ core, t.unit.view c = s.unit.view c := fun c hne => by
    rw [ht, withTop, view, view]
    rw [hcores, update_of_ne hne]
  have hself : t.unit.view core = { s.unit.view core with eu := e } := by
    rw [ht, withTop, view]
    rw [hcores, update_self]
    rfl
  have hnone' : ∀ r, ¬t.Waits core r := fun r hw' =>
    ((hwaits core r).1 hw').2 (hi.once core r req ((hwaits core r).1 hw').1 hw)
  refine ⟨by rw [htop, hnb]; exact hi.nbCore_le, by rw [ht]; exact hi.event_lt, ?entries, fun r hr => ?asked, ?once',
    fun c r hw' => ?waits_lt, fun c r r' h₁ h₂ => hi.once c r r' ((hwaits c r).1 h₁).1 ((hwaits c r').1 h₂).1,
    fun c hc' j => ?idle, fun c hc' => ?cores⟩
  case entries =>
    rw [hlog, ht]
    exact { hi.entries with }
  case asked =>
    rw [hanswered, mem_append, mem_singleton] at hr
    rw [hpops]
    rcases hr with hr | rfl
    · exact hi.asked r hr
    · exact hw.lt
  case once' =>
    rw [hanswered]
    exact nodup_append.2 ⟨hi.answeredOnce, nodup_singleton _, fun x hx b hb heq => by
      have hreq : x = req := heq.trans (mem_singleton.1 hb)
      exact hw.2 (hreq ▸ hx)⟩
  case waits_lt =>
    rw [htop, hnb]
    exact hi.waits_lt c r ((hwaits c r).1 hw').1
  case idle =>
    rw [htop, hnb] at hc'
    have hne : c ≠ core := fun heq => by
      rw [heq] at hc'
      exact absurd hcore (not_lt.2 hc')
    rw [hview c hne]
    exact hi.idle c hc' j
  case cores =>
    rw [htop, hnb] at hc'
    by_cases hne : c = core
    · subst hne
      refine ⟨a, stale, ?_, hc.strict, .runs hnone' ?_ ?_ ?_⟩
      · rw [hsize, hlog, hself]
        exact { hc.ring with }
      · show Running _ (t.unit.view c).eu
        rw [hbit, hself]
        exact he
      · rw [hself]
        exact hnone
      · rw [hanswers, if_pos rfl, hlog]
        exact htaken
    · obtain ⟨a, stale, hci⟩ := hi.cores c hc'
      refine ⟨a, stale, hci.transport hlog hsize (hview c hne) hbit (by rw [htop]; exact hnow) (fun r => ?_)
        (by rw [hanswers, if_neg hne, append_nil]) fun r _ => by rw [htop, hdata]⟩
      refine (hwaits c r).trans ⟨And.left, fun hw' => ⟨hw', fun heq => ?_⟩⟩
      exact hne (hw'.inj (heq ▸ hw))

end

theorem inv_tick (hi : s.Inv) (h : s.unit.top.tick = some top) : (s.withTop top).Inv := by
  rw [tick] at h
  split at h
  case isFalse => cases h
  case isTrue hdue =>
    cases h
    refine { hi with entries := { hi.entries with }, cores := fun c hc => ?_ }
    obtain ⟨a, stale, hci⟩ := hi.cores c hc
    refine ⟨a, stale, hci.ring, hci.strict, ?_⟩
    cases hci.phase with
    | runs hno hrun hnone htaken => exact .runs hno hrun hnone htaken
    | parked req hw ha hstale hasleep hwaiting hreq htaken =>
        exact .parked req hw ha hstale hasleep hwaiting hreq htaken
    | woken req cycle hw hwaking hle hle' hnone htaken =>
      refine .woken req cycle hw hwaking (hdue c hc cycle hwaking.wakeupEvent) ?_ hnone htaken
      show cycle ≤ s.unit.top.now + 1 + 1
      omega

/-! ## Delivery -/

/-- **A step** keeps the invariant, where what pops, pops in order. -/
theorem dispatchStep_inv {event : DispatchEvent} {s' : DispatchSystem} (hi : s.Inv) (horder : InOrder s event)
    (h : dispatchStep s event = some s') : s'.Inv := by
  cases event with
  | config core team =>
    obtain ⟨hruns, heq⟩ := ite_none_right_eq_some.1 h
    cases heq
    exact inv_config hi hruns
  | push core value =>
    obtain ⟨⟨hruns, hreuse⟩, heq⟩ := ite_none_right_eq_some.1 h
    cases heq
    exact inv_push hi hruns hreuse
  | pop core =>
    obtain ⟨hruns, heq⟩ := ite_none_right_eq_some.1 h
    cases heq
    exact inv_pop hi hruns horder
  | wakeup core =>
    obtain ⟨hcore, hmap⟩ := ite_none_right_eq_some.1 h
    obtain ⟨top, htop, rfl⟩ := map_eq_some_iff.1 hmap
    exact inv_wakeup hi hcore htop
  | tick =>
    obtain ⟨top, htop, rfl⟩ := map_eq_some_iff.1 h
    exact inv_tick hi htop

theorem valuesFor_log (s : DispatchSystem) (core : Nat) : valuesFor core s.log = valuesFor core s.pushes := by
  have hnone : valuesFor core (replicate s.unit.size (0#32, 0#32)) = [] := by
    rw [valuesFor, filter_eq_nil_iff.2, map_nil]
    intro x hx
    rw [eq_of_mem_replicate hx]
    simp
  rw [log, valuesFor_append, hnone, nil_append]

theorem values_take (s : DispatchSystem) (core a : Nat) :
    valuesFor core (s.log.take a) <+: valuesFor core s.pushes := by
  refine ⟨valuesFor core (s.log.drop a), ?_⟩
  rw [← valuesFor_append, take_append_drop, valuesFor_log]

theorem Inv.delivers (hi : s.Inv) : s.Delivers := by
  refine ⟨hi.answeredOnce, fun core hcore => ?_, fun core req hw => ?_⟩
  · obtain ⟨a, stale, hc⟩ := hi.cores core hcore
    have hpre := s.values_take core a
    cases hc.phase with
    | runs _ _ _ htaken => exact htaken ▸ hpre
    | parked _ _ _ _ _ _ _ htaken =>
      exact htaken.trans (s.valuesFor_log core) ▸ prefix_rfl
    | woken req _ _ _ _ _ _ htaken => exact (prefix_append _ _).trans (htaken ▸ hpre)
  · obtain ⟨a, stale, hc⟩ := hi.cores core (hi.waits_lt core req hw)
    cases hc.phase with
    | runs hno => exact absurd hw (hno req)
    | parked req' hw' _ _ hasleep _ _ htaken =>
      obtain rfl := hi.once core req req' hw hw'
      exact Or.inl ⟨{ hasleep with }, htaken.trans (s.valuesFor_log core)⟩
    | woken req' cycle hw' hwaking hle hle' _ htaken =>
      obtain rfl := hi.once core req req' hw hw'
      exact Or.inr ⟨⟨hwaking.pendingReq, cycle, hwaking.wakeupEvent, hle, hle'⟩, htaken ▸ s.values_take core a⟩

theorem dispatchInit_inv {nbCore size dispatchEvent : Nat} (hsize : 0 < size) (hnb : nbCore ≤ 32)
    (hevent : dispatchEvent < 32) : (dispatchInit nbCore size dispatchEvent).Inv := by
  have hno : ∀ core req, ¬(dispatchInit nbCore size dispatchEvent).Waits core req := fun _ _ h => by cases h.1
  have hlog : (dispatchInit nbCore size dispatchEvent).log = replicate size (0#32, 0#32) := append_nil _
  have hlen : (dispatchInit nbCore size dispatchEvent).log.length = size := by rw [hlog, length_replicate]
  have hzero : ∀ j, ((0#32 : BitVec 32)).getLsbD j = false := fun j => by simp
  have hpush : ∀ p, pushAt (replicate size (0#32, 0#32)) p = (0#32, 0#32) := fun p => by
    rw [pushAt, getElem?_replicate]
    split <;> rfl
  refine ⟨hnb, hevent, ⟨hsize, by rw [hlen]; exact le_rfl, ?_, fun p _ _ => by rw [hlog, hpush]; rfl⟩,
    fun _ h => absurd h not_mem_nil, nodup_nil, fun c r h => absurd h (hno c r), fun c r _ h => absurd h (hno c r),
    fun c _ j => hzero c, fun c _ => ⟨size, 0, ?_, Or.inl rfl, ?_⟩⟩
  · exact (mod_self size).symm.trans (congrArg (· % size) hlen.symm)
  · refine ⟨hlen.symm.le, zero_le _, (mod_self size).symm, fun p hp _ => ?_, fun p hp hlt => ?_,
      fun p _ _ hp => absurd hp (Nat.not_lt_zero p)⟩
    · rw [hlen] at hp
      exact ⟨fun h => absurd h (Bool.eq_false_iff.1 (hzero c)), fun h => by omega⟩
    · rw [hlog, isForAt, hpush]
      exact hzero c
  · refine .runs (hno c) ⟨⟨rfl, rfl, rfl, rfl, rfl⟩, rfl, rfl, rfl, rfl⟩ (fun j => hzero c) ?_
    have hvalues := valuesFor_log (dispatchInit nbCore size dispatchEvent) c
    have htake : (dispatchInit nbCore size dispatchEvent).log.take size =
      (dispatchInit nbCore size dispatchEvent).log := by
      rw [take_of_length_le hlen.le]
    rw [htake, hvalues]
    rfl

end DispatchSystem

/-- **The dispatch FIFO delivers**, in every state of a run in which the cores pop in order. -/
theorem dispatch_delivers {nbCore size dispatchEvent : Nat} {events : List DispatchEvent} (hsize : 0 < size)
    (hnb : nbCore ≤ 32) (hevent : dispatchEvent < 32)
    (horder : AllSteps dispatchStep InOrder (dispatchInit nbCore size dispatchEvent) events) :
    AllStates dispatchStep DispatchSystem.Delivers (dispatchInit nbCore size dispatchEvent) events :=
  allStates_of_allSteps (fun _ hi => hi.delivers) (fun _ _ _ hi hp hs => DispatchSystem.dispatchStep_inv hi hp hs)
    (DispatchSystem.dispatchInit_inv hsize hnb hevent) horder

/-- Three values for core 0, which takes them; then core 1 asks, and is sent a value. -/
def lateReader : List DispatchEvent :=
  [.config 0 0b01#32, .push 0 1#32, .pop 0, .tick, .wakeup 0, .push 0 2#32, .pop 0, .tick, .wakeup 0,
    .push 0 3#32, .pop 0, .tick, .wakeup 0, .pop 1, .config 0 0b10#32, .push 0 7#32]

/-- With more entries than values core 1 is woken. -/
theorem dispatch_delivers_lateReader : AllStates dispatchStep DispatchSystem.Delivers
    (dispatchInit 2 4 18) lateReader :=
  dispatch_delivers (by decide) (by decide) (by decide) (by decide +kernel)

/-- **A missed value**: with two entries, core 1 sleeps at the entry before the head, and the push for it passes by. -/
theorem dispatch_missed :
    ¬AllStates dispatchStep DispatchSystem.Delivers (dispatchInit 2 2 18) lateReader := by
  intro h
  have hrun : (run dispatchStep (dispatchInit 2 2 18) lateReader).map (fun s =>
      (s.answersOf 1, valuesFor 1 s.pushes, s.pops, s.answered, (s.unit.top.core 1).wakeupEvent)) =
        some ([], [7#32], [0, 0, 0, 1], [0, 1, 2], none) := by decide +kernel
  obtain ⟨s, hs, heq⟩ := map_eq_some_iff.1 hrun
  simp only [Prod.mk.injEq] at heq
  obtain ⟨hanswers, hvalues, hpops, hanswered, hwakeup⟩ := heq
  have hw : s.Waits 1 3 := by
    rw [DispatchSystem.Waits, Pending, hpops, hanswered]
    decide
  rcases (h.final hs).pending 1 3 hw with ⟨-, hall⟩ | ⟨hwakes, -⟩
  · rw [hanswers, hvalues] at hall
    cases hall
  · obtain ⟨cycle, hcycle, -, -⟩ := hwakes.wakeupEvent
    rw [hwakeup] at hcycle
    cases hcycle

end GvsocPulp.EventUnitV3
