import GvsocPulp.Cv32e40p.ProgramOrder
import GvsocPulp.Cv32e40p.Regions

/-!
# External loads wait for their data

No record of a load from an external region is returned without the data of its load (`external_loads`), as long as the
steps that can lose a load keep to the conditions of `KeepsLoad`.
-/

namespace GvsocPulp.Cv32e40p

open Lib List Effects CosimEvent Cosim

variable {s t : Cosim} {e : Event}

variable {hooks : List Hook} {c : Commit} {l : Load} {data : Word}

/-! ## What is asked of a run -/

namespace Cosim

def inFlight (s : Cosim) : Option Load := if s.opened then s.loading else none

/-- The load of the last attempt of instruction `n`. -/
def lastLoad (s : Cosim) : Nat → Option Load
  | 0 => none
  | n + 1 => if n = s.lastSequence then s.inFlight else (s.loads[n]?).join

/-- The load that waits for its data is that of an earlier instruction. -/
def waiting (s : Cosim) : Bool := s.externalPending && decide (s.external.sequence ≤ s.lastSequence)

/-- The regions can be told apart for a load, and no step drops the load of an earlier instruction or adds its register
write to the record in flight. -/
def KeepsLoad (s : Cosim) : Event → Prop
  | .load l => l.Clear s.regions ∧ (s.waiting = true → ¬l.External s.regions)
  | .retry _ => s.opened = true → s.waiting = false
  | .externalLoadResponse _ _ => s.opened = true → s.external.reg = 0
  | _ => True

instance (s : Cosim) : ∀ e : Event, Decidable (s.KeepsLoad e)
  | .load l => inferInstanceAs (Decidable (l.Clear s.regions ∧ (s.waiting = true → ¬l.External s.regions)))
  | .retry _ => inferInstanceAs (Decidable (s.opened = true → s.waiting = false))
  | .externalLoadResponse _ _ => inferInstanceAs (Decidable (s.opened = true → s.external.reg = 0))
  | .arm _ | .decide _ | .dispatch .. | .setReg .. | .csr .. | .trap .. | .store .. | .retire _ | .boundary
      .. | .wake | .drain _
  | .poll => isTrue trivial

end Cosim

/-- What the interface promises of external loads in every state of a run. -/
structure Published (s : Cosim) : Prop where
  polled : ∀ c l, .commit c ∈ s.polled → s.lastLoad c.sequence = some l → l.External s.regions →
    c.sequence ∈ s.responded
  waits : s.status = .externalLoad → ∃ c rest l, s.events = .commit c :: rest ∧ s.lastLoad c.sequence = some l ∧
    l.External s.regions
  crosses : ∀ n l, s.lastLoad n = some l → l.Crosses s.regions → s.error ≠ none

/-- What the data of a load change in its record, for the reports of its instruction. -/
structure Load.Given (l : Load) (data : Word) (hooks : List Hook) (c c' : Commit) : Prop where
  gpr : c'.gpr = c.gpr.map fun w => if l.reg ≠ 0 ∧ l.reg < 32 ∧ w.index = l.reg then { w with value := l.value data }
    else w
  fpr : c'.fpr = c.fpr.map fun w => if 32 ≤ l.reg ∧ l.reg < 64 ∧ w.index = l.reg - 32 then
    { w with value := l.value data } else w
  mem : c'.mem = c.mem.map fun op => if op.isStore = false ∧ op.address = l.address then
    { op with data := l.bytes data } else op
  others : { c' with gpr := c.gpr, fpr := c.fpr, mem := c.mem } = c
  /-- The destination is in the record when the instruction has reported it, and the memory operation always. -/
  isGpr : l.reg ≠ 0 → l.reg < 32 → ∀ v, .gpr l.reg v ∈ hooks → ⟨l.reg, l.value data⟩ ∈ c'.gpr
  isFpr : 32 ≤ l.reg → l.reg < 64 → ∀ v, .fpr (l.reg - 32) v ∈ hooks → ⟨l.reg - 32, l.value data⟩ ∈ c'.fpr
  isMem : ∃ op ∈ c'.mem, op.isStore = false ∧ op.address = l.address ∧ op.data = l.bytes data

/-- A response changes the record of the load and its register, and no other record or register. -/
def Answered (s : Cosim) (n : Nat) (data : Word) (t : Cosim) : Prop :=
  ∃ c c' rest l hooks attempts, s.events = .commit c :: rest ∧ c.sequence = n ∧ s.lastLoad n = some l ∧
    l.External s.regions ∧ s.attempts[n - 1]? = some hooks ∧ l.Given data hooks c c' ∧
    t = { s with
      regs := fun r => if l.reg ≠ 0 ∧ l.reg < 64 ∧ r = l.reg then l.value data else s.regs r
      events := .commit c' :: rest
      externalPending := false
      attempts := attempts
      responded := s.responded ++ [n] }

/-! ## Records grow -/

theorem put_spec {α β : Type} [DecidableEq β] {f : α → β} {max : Nat} {x : α} {xs ys : List α}
    (h : put (fun y => decide (f y = f x)) max x xs = some ys) : x ∈ ys ∧ ∀ y ∈ xs, ∃ z ∈ ys, f z = f y := by
  rw [put] at h
  split at h
  · rename_i i hi
    cases h
    obtain ⟨hlt, hsame, -⟩ := findIdx?_eq_some_iff_getElem.1 hi
    refine ⟨mem_set hlt x, fun y hy => ?_⟩
    obtain ⟨j, hj, rfl⟩ := mem_iff_getElem.1 hy
    by_cases hij : i = j
    · subst hij
      exact ⟨x, mem_set hlt x, (of_decide_eq_true hsame).symm⟩
    · refine ⟨xs[j], ?_, rfl⟩
      have hkept := getElem_set_ne (a := x) hij (by rw [length_set]; exact hj)
      exact hkept ▸ getElem_mem _
  · split_ifs at h
    cases h
    exact ⟨mem_append_right _ mem_cons_self, fun y hy => ⟨y, mem_append_left _ hy, rfl⟩⟩

namespace Effects

/-- The entries of a record stay, with other data at most. -/
structure Grows (e e' : Effects) : Prop where
  gpr : ∀ w ∈ e.gpr, ∃ w' ∈ e'.gpr, w'.index = w.index
  fpr : ∀ w ∈ e.fpr, ∃ w' ∈ e'.fpr, w'.index = w.index
  mem : ∀ op ∈ e.mem, ∃ op' ∈ e'.mem, op'.isStore = op.isStore ∧ op'.address = op.address

/-- The report is in the record. -/
def Has (e : Effects) : Hook → Prop
  | .gpr index _ => index ≠ 0 → index < 32 → ∃ w ∈ e.gpr, w.index = index
  | .fpr index _ => index < 32 → ∃ w ∈ e.fpr, w.index = index
  | .mem false address _ _ => ∃ op ∈ e.mem, op.isStore = false ∧ op.address = address
  | _ => True

variable {e e' e'' : Effects} {h h' : Hook} {n : Nat}

theorem Grows.refl (e : Effects) : Grows e e :=
  ⟨fun w hw => ⟨w, hw, rfl⟩, fun w hw => ⟨w, hw, rfl⟩, fun op hop => ⟨op, hop, rfl, rfl⟩⟩

theorem Grows.trans (h : Grows e e') (h' : Grows e' e'') : Grows e e'' where
  gpr w hw := by
    obtain ⟨w', hw', hindex⟩ := h.gpr w hw
    obtain ⟨w'', hw'', hindex'⟩ := h'.gpr w' hw'
    exact ⟨w'', hw'', hindex'.trans hindex⟩
  fpr w hw := by
    obtain ⟨w', hw', hindex⟩ := h.fpr w hw
    obtain ⟨w'', hw'', hindex'⟩ := h'.fpr w' hw'
    exact ⟨w'', hw'', hindex'.trans hindex⟩
  mem op hop := by
    obtain ⟨op', hop', hstore, haddress⟩ := h.mem op hop
    obtain ⟨op'', hop'', hstore', haddress'⟩ := h'.mem op' hop'
    exact ⟨op'', hop'', hstore'.trans hstore, haddress'.trans haddress⟩

theorem Has.grows (h : e.Has h') (hgrows : Grows e e') : e'.Has h' := by
  cases h' with
  | gpr index value =>
    intro hne hlt
    obtain ⟨w, hw, hindex⟩ := h hne hlt
    obtain ⟨w', hw', hindex'⟩ := hgrows.gpr w hw
    exact ⟨w', hw', hindex'.trans hindex⟩
  | fpr index value =>
    intro hlt
    obtain ⟨w, hw, hindex⟩ := h hlt
    obtain ⟨w', hw', hindex'⟩ := hgrows.fpr w hw
    exact ⟨w', hw', hindex'.trans hindex⟩
  | csr address value origin => exact trivial
  | trap cause target debugModeTrap mstatus mepc mcause => exact trivial
  | mem isStore address size data =>
    cases isStore with
    | true => exact trivial
    | false =>
      obtain ⟨op, hop, hstore, haddress⟩ := h
      obtain ⟨op', hop', hstore', haddress'⟩ := hgrows.mem op hop
      exact ⟨op', hop', hstore'.trans hstore, haddress'.trans haddress⟩
  | response load data => exact trivial

theorem addCsr_grows (address : Nat) (value : Word) (origin : CsrOrigin) :
    Grows e (e.addCsr address value origin).1 := by
  rw [addCsr]
  split
  · exact { Grows.refl e with }
  · exact { Grows.refl e with }

theorem respond_grows (load : Load) (data : Word) : Grows e (e.respond load data) where
  gpr w hw := by
    simp only [respond]
    split_ifs
    · exact ⟨_, mem_map_of_mem hw, by split_ifs <;> rfl⟩
    · exact ⟨w, hw, rfl⟩
  fpr w hw := by
    simp only [respond]
    split_ifs
    · exact ⟨_, mem_map_of_mem hw, by split_ifs <;> rfl⟩
    · exact ⟨w, hw, rfl⟩
  mem op hop := by
    refine ⟨_, mem_map_of_mem hop, ?_, ?_⟩
    · split_ifs <;> rfl
    · split_ifs <;> rfl

theorem hook_grows (n : Nat) (h : Hook) : Grows e (e.hook n h).1 := by
  have hrefl := Grows.refl e
  cases h with
  | gpr index value =>
    simp only [hook]
    split_ifs
    · exact hrefl
    · split
      · rename_i gpr hput
        exact ⟨(put_spec (f := RegWrite.index) (x := ⟨index, value⟩) hput).2, hrefl.fpr, hrefl.mem⟩
      · exact { hrefl with }
  | fpr index value =>
    simp only [hook]
    split_ifs
    · exact hrefl
    · split
      · rename_i fpr hput
        exact ⟨hrefl.gpr, (put_spec (f := RegWrite.index) (x := ⟨index, value⟩) hput).2, hrefl.mem⟩
      · exact { hrefl with }
  | csr address value origin => exact addCsr_grows address value origin
  | trap cause target debugModeTrap mstatus mepc mcause =>
    have htrap : Grows e { e with trap := some (cause, target) } := { hrefl with }
    simp only [hook]
    split_ifs
    · exact htrap
    · exact ((htrap.trans (addCsr_grows _ _ _)).trans (addCsr_grows _ _ _)).trans (addCsr_grows _ _ _)
  | mem isStore address size data =>
    simp only [hook]
    split_ifs
    · exact { hrefl with }
    · exact ⟨hrefl.gpr, hrefl.fpr, fun op hop => ⟨op, mem_append_left _ hop, rfl, rfl⟩⟩
  | response load data => exact respond_grows load data

theorem hook_has (hfault : (e.hook n h).2 = none) : (e.hook n h).1.Has h := by
  cases h with
  | gpr index value =>
    intro hne hlt
    simp only [hook] at hfault ⊢
    rw [if_neg (by omega)] at hfault ⊢
    cases hput : put (·.index = index) 4 ⟨index, value⟩ e.gpr with
    | none =>
      rw [hput] at hfault
      cases hfault
    | some gpr => exact ⟨_, (put_spec (f := RegWrite.index) (x := ⟨index, value⟩) hput).1, rfl⟩
  | fpr index value =>
    intro hlt
    simp only [hook] at hfault ⊢
    rw [if_neg (by omega)] at hfault ⊢
    cases hput : put (·.index = index) 2 ⟨index, value⟩ e.fpr with
    | none =>
      rw [hput] at hfault
      cases hfault
    | some fpr => exact ⟨_, (put_spec (f := RegWrite.index) (x := ⟨index, value⟩) hput).1, rfl⟩
  | csr address value origin => exact trivial
  | trap cause target debugModeTrap mstatus mepc mcause => exact trivial
  | mem isStore address size data =>
    cases isStore with
    | true => exact trivial
    | false =>
      simp only [hook] at hfault ⊢
      split_ifs at hfault ⊢
      exact ⟨_, mem_append_right _ mem_cons_self, rfl, rfl⟩
  | response load data => exact trivial

end Effects

theorem ite_map {p : Prop} [Decidable p] {q : RegWrite → Prop} [DecidablePred q] (value : Word) (xs : List RegWrite) :
    (if p then xs.map (fun w => if q w then { w with value := value } else w) else xs) =
      xs.map fun w => if p ∧ q w then { w with value := value } else w := by
  split_ifs with hp
  · simp [hp]
  · simp [hp, List.map_id']

theorem given (l : Load) (data : Word) (hhas : ∀ h ∈ hooks, c.toEffects.Has h)
    (hmem : Hook.mem false l.address l.size 0 ∈ hooks) : l.Given data hooks c
      { c with toEffects := c.toEffects.respond { l with reg := if l.reg < 64 then l.reg else 0 } data } := by
  have hvalue : ({ l with reg := if l.reg < 64 then l.reg else 0 } : Load).extend data = l.value data :=
    Load.extend_eq _ data
  have hgpr : (c.toEffects.respond { l with reg := if l.reg < 64 then l.reg else 0 } data).gpr =
      c.gpr.map fun w => if l.reg ≠ 0 ∧ l.reg < 32 ∧ w.index = l.reg then { w with value := l.value data } else w := by
    simp only [Effects.respond, hvalue]
    rw [ite_map]
    refine map_congr_left fun w _ => if_congr ?_ rfl rfl
    split_ifs <;> omega
  have hfpr : (c.toEffects.respond { l with reg := if l.reg < 64 then l.reg else 0 } data).fpr =
      c.fpr.map fun w => if 32 ≤ l.reg ∧ l.reg < 64 ∧ w.index = l.reg - 32 then { w with value := l.value data }
        else w := by
    simp only [Effects.respond, hvalue]
    rw [ite_map]
    refine map_congr_left fun w _ => if_congr ?_ rfl rfl
    split_ifs <;> omega
  have hops : (c.toEffects.respond { l with reg := if l.reg < 64 then l.reg else 0 } data).mem =
      c.mem.map fun op => if op.isStore = false ∧ op.address = l.address then { op with data := l.bytes data }
        else op := by
    simp only [Effects.respond, Load.and_sizeMask, Load.bytes]
  refine ⟨hgpr, hfpr, hops, rfl, fun hne hlt v hv => ?_, fun hle hlt v hv => ?_, ?_⟩
  · obtain ⟨w, hw, hindex⟩ := hhas _ hv hne hlt
    refine hgpr ▸ List.mem_map.2 ⟨w, hw, ?_⟩
    rw [if_pos ⟨hne, hlt, hindex⟩, hindex]
  · obtain ⟨w, hw, hindex⟩ := hhas _ hv (by omega)
    refine hfpr ▸ List.mem_map.2 ⟨w, hw, ?_⟩
    rw [if_pos ⟨hle, hlt, hindex⟩, hindex]
  · obtain ⟨op, hop, hstore, haddress⟩ := hhas _ hmem
    refine ⟨_, hops ▸ mem_map_of_mem hop, ?_⟩
    rw [if_pos ⟨hstore, haddress⟩]
    exact ⟨hstore, haddress, rfl⟩

/-! ## The invariant -/

structure LoadInv (s : Cosim) : Prop where
  sequences : ∀ c, .commit c ∈ s.stream → 0 < c.sequence ∧ c.sequence ≤ s.lastSequence
  loads : s.loads.length = s.lastSequence
  attempts : s.attempts.length = s.lastSequence
  slot : s.externalPending = true → ∃ l, s.lastLoad s.external.sequence = some l ∧ l.External s.regions ∧
    s.external.toLoad = { l with reg := if l.reg < 64 then l.reg else 0 }
  waits : s.error = none → ∀ n l, s.lastLoad n = some l → l.External s.regions →
    n ∈ s.responded ∨ s.externalPending = true ∧ s.external.sequence = n
  polled : ∀ c l, .commit c ∈ s.polled → s.lastLoad c.sequence = some l → l.External s.regions →
    c.sequence ∈ s.responded
  crosses : ∀ n l, s.lastLoad n = some l → l.Crosses s.regions → s.error ≠ none
  current : s.error = none → s.opened = true → ∀ h ∈ s.attempt, s.current.toEffects.Has h
  records : s.error = none → ∀ c hooks, .commit c ∈ s.events ++ s.held → s.attempts[c.sequence - 1]? = some hooks →
    ∀ h ∈ hooks, c.toEffects.Has h
  access : ∀ l, s.inFlight = some l → Hook.mem false l.address l.size 0 ∈ s.attempt
  accesses : ∀ (n : Nat) (l : Load) hooks, s.loads[n]? = some (some l) → s.attempts[n]? = some hooks →
    Hook.mem false l.address l.size 0 ∈ hooks

namespace Cosim

theorem mem_stream : .commit c ∈ s.stream ↔ .commit c ∈ s.polled ∨ .commit c ∈ s.events ++ s.held := by
  simp [stream]

theorem lastLoad_congr (hlast : t.lastSequence = s.lastSequence) (hloads : t.loads = s.loads)
    (hflight : t.inFlight = s.inFlight) :
    t.lastLoad = s.lastLoad := by
  funext n
  cases n with
  | zero => rfl
  | succ n => rw [lastLoad, lastLoad, hlast, hloads, hflight]

theorem lastLoad_le {n : Nat} (hlength : s.loads.length = s.lastSequence) (h : s.lastLoad n = some l) :
    n ≤ s.lastSequence + 1 := by
  cases n with
  | zero => exact Nat.zero_le _
  | succ n =>
    rw [lastLoad] at h
    split_ifs at h with hn
    · omega
    · by_contra hle
      rw [getElem?_eq_none (by omega)] at h
      cases h

theorem close_eq (s : Cosim) (r : Retire) : ∃ events held wfiDrains,
    s.close r = { s with
      lastSequence := s.lastSequence + 1
      opened := false
      fifo := s.fifoAfter r
      attempts := s.attempts ++ [s.attempt]
      loads := s.loads ++ [s.loading]
      events := events
      held := held
      wfiDrains := wfiDrains } ∧
    ∀ c, .commit c ∈ events ++ held → .commit c ∈ s.events ++ s.held ∨ c = s.record r := by
  have hmem : ∀ c, CosimEvent.commit c ∈ [CosimEvent.commit (s.record r)] → c = s.record r := fun c hc => by
    cases mem_singleton.1 hc
    rfl
  rw [close]
  split_ifs
  · refine ⟨_, s.held, _, rfl, fun c hc => ?_⟩
    rcases mem_append.1 hc with hc | hc
    · exact (mem_append.1 hc).imp (mem_append_left _) (hmem c)
    · exact .inl (mem_append_right _ hc)
  · refine ⟨s.events, _, s.wfiDrains, rfl, fun c hc => ?_⟩
    rcases mem_append.1 hc with hc | hc
    · exact .inl (mem_append_left _ hc)
    · exact (mem_append.1 hc).imp (mem_append_right _) (hmem c)
  · refine ⟨_, s.held, s.wfiDrains, rfl, fun c hc => ?_⟩
    rcases mem_append.1 hc with hc | hc
    · exact (mem_append.1 hc).imp (mem_append_left _) (hmem c)
    · exact .inl (mem_append_right _ hc)

/-- A response writes the register only, where it does not add to a record in flight. -/
theorem setReg_closed {reg : Nat} (h : s.opened = true → reg = 0) (value : Word) :
    s.setReg reg value = { s with regs := fun r => if reg ≠ 0 ∧ r = reg then value else s.regs r } := by
  rw [setReg]
  by_cases hreg : reg = 0
  · simp [hreg]
  · have hopened : s.opened = false := Bool.eq_false_iff.2 fun ho => hreg (h ho)
    rw [if_neg hreg]
    simp only [ne_eq, hreg, not_false_eq_true, true_and]
    split_ifs
    · exact hook_closed (s := { s with regs := fun r => if r = reg then value else s.regs r }) hopened _
    · exact hook_closed (s := { s with regs := fun r => if r = reg then value else s.regs r }) hopened _

end Cosim

namespace LoadInv

theorem published (h : LoadInv s) : Published s where
  polled := h.polled
  waits hstatus := by
    rw [Cosim.status] at hstatus
    by_cases herror : s.error.isSome
    · rw [if_pos herror] at hstatus
      cases hstatus
    rw [if_neg herror] at hstatus
    split at hstatus
    · rename_i c rest hevents
      split_ifs at hstatus with hpending
      obtain ⟨l, hl, hexternal, -⟩ := h.slot hpending.1
      exact ⟨c, rest, l, hevents, hpending.2 ▸ hl, hexternal⟩
    · cases hstatus
    · split_ifs at hstatus
  crosses := h.crosses

open Cosim (mem_stream lastLoad inFlight)

section

variable (h : LoadInv s)
include h

theorem keep (hregions : t.regions = s.regions) (hlog : t.lastSequence = s.lastSequence ∧ t.loads = s.loads ∧
    t.attempts = s.attempts)
    (hslot : t.externalPending = s.externalPending ∧ t.external = s.external ∧ t.responded = s.responded)
    (hevents : t.polled = s.polled ∧ ∀ c, .commit c ∈ t.events ++ t.held → .commit c ∈ s.events ++ s.held)
    (hflight : t.inFlight = s.inFlight) (herror : t.error = none → s.error = none)
    (hcurrent : t.error = none → t.opened = true → ∀ h ∈ t.attempt, t.current.toEffects.Has h)
    (haccess : ∀ l, t.inFlight = some l → Hook.mem false l.address l.size 0 ∈ t.attempt) : LoadInv t := by
  have hload := Cosim.lastLoad_congr hlog.1 hlog.2.1 hflight
  obtain ⟨hlast, hloads, hattempts⟩ := hlog
  obtain ⟨hpending, hexternal, hresponded⟩ := hslot
  obtain ⟨hpolled, hevents⟩ := hevents
  obtain ⟨⟨_⟩⟩ := t
  subst hregions hlast hloads hattempts hpending hexternal hresponded hpolled
  refine { h with
    sequences := fun c hc => h.sequences c (mem_stream.2 ((mem_stream.1 hc).imp_right (hevents c))), slot := ?_
    waits := fun he => ?_, polled := ?_, crosses := fun n l hl hcrosses he => ?_, current := hcurrent
    records := fun he c hooks hc => h.records (herror he) c hooks (hevents c hc), access := haccess }
  · rw [hload]
    exact h.slot
  · rw [hload]
    exact h.waits (herror he)
  · rw [hload]
    exact h.polled
  · rw [hload] at hl
    exact h.crosses n l hl hcrosses (herror he)

theorem fail (fault : Fault) : LoadInv (s.fail fault) := by
  have herror : (s.fail fault).error = none → s.error = none := fun he => by
    rw [Cosim.fail] at he
    cases hs : s.error with
    | none => rfl
    | some f =>
      simp only [hs] at he
      cases he
  exact h.keep rfl ⟨rfl, rfl, rfl⟩ ⟨rfl, rfl, rfl⟩ ⟨rfl, fun _ => id⟩ rfl herror
    (fun he => h.current (herror he)) h.access

theorem hook (hk : Hook) : LoadInv (s.hook hk) := by
  cases hopened : s.opened with
  | false =>
    rw [Cosim.hook_closed hopened]
    exact h
  | true =>
    rw [Cosim.hook_eq hopened]
    have herror : ∀ {f : Option Fault}, (s.error <|> f) = none → s.error = none ∧ f = none := fun {f} he => by
      cases hs : s.error with
      | none => exact ⟨rfl, by rw [hs] at he; exact he⟩
      | some x =>
        rw [hs] at he
        cases he
    refine h.keep rfl ⟨rfl, rfl, rfl⟩ ⟨rfl, rfl, rfl⟩ ⟨rfl, fun _ => id⟩ rfl (fun he => (herror he).1)
      (fun he _ hk' hmem => ?_)
      fun l hl => mem_append_left _ (h.access l hl)
    rcases mem_append.1 hmem with hmem | hmem
    · exact (h.current (herror he).1 hopened hk' hmem).grows (hook_grows _ hk)
    · rw [mem_singleton.1 hmem]
      exact hook_has (herror he).2

theorem setReg (reg : Nat) (value : Word) : LoadInv (s.setReg reg value) := by
  have hregs : LoadInv { s with regs := fun r => if r = reg then value else s.regs r } :=
    h.keep rfl ⟨rfl, rfl, rfl⟩ ⟨rfl, rfl, rfl⟩ ⟨rfl, fun _ => id⟩ rfl id h.current h.access
  rw [Cosim.setReg]
  split_ifs
  · exact h
  · exact hregs.hook _
  · exact hregs.hook _

theorem openRecord (hopened : s.opened = false) (insn : Insn) (moved decided : Bool) :
    LoadInv (s.openRecord insn moved decided) := by
  rw [Cosim.openRecord]
  split_ifs
  · exact h
  · refine h.keep rfl ⟨rfl, rfl, rfl⟩ ⟨rfl, rfl, rfl⟩ ⟨rfl, fun _ => id⟩ ?_ id (fun _ _ => by simp) fun _ hl => by
      cases hl
    rw [inFlight, inFlight, hopened]
    rfl
  · exact h.fail _

theorem dispatch (insn : Insn) (fault moved decided : Bool) : LoadInv (s.dispatch insn fault moved decided) := by
  rw [Cosim.dispatch]
  split_ifs with _ hopened
  · exact h
  · exact h
  · exact (h.fail .decision).openRecord (Bool.eq_false_iff.2 hopened) insn moved decided
  · exact h.openRecord (Bool.eq_false_iff.2 hopened) insn moved decided

section

variable (hopened : s.opened = true) (hloading : s.loading = none)
include hopened hloading

theorem beginLoad {error : Option Fault} {external : ExternalLoad} {pending : Bool}
    (hmem : Hook.mem false l.address l.size 0 ∈ s.attempt)
    (hslot : pending = true → s.externalPending = true ∧ external = s.external ∨
      l.External s.regions ∧ external = ⟨{ l with reg := if l.reg < 64 then l.reg else 0 }, s.lastSequence + 1⟩)
    (hwaits : error = none → (l.External s.regions → pending = true ∧ external.sequence = s.lastSequence + 1) ∧
      (s.externalPending = true → pending = true ∧ external = s.external))
    (hcrosses : l.Crosses s.regions → error ≠ none) (herror : error = none → s.error = none) :
    LoadInv { s with loading := some l, error := error, external := external, externalPending := pending } := by
  have hold : s.lastLoad (s.lastSequence + 1) = none := by
    rw [lastLoad, if_pos rfl, inFlight, if_pos hopened, hloading]
  have hflight : inFlight { s with loading := some l } = some l := if_pos hopened
  have hload : ∀ n, lastLoad { s with loading := some l, error := error, external := external, externalPending :=
    pending } n =
      if n = s.lastSequence + 1 then some l else s.lastLoad n := fun n => by
    cases n with
    | zero => rfl
    | succ n =>
      rw [lastLoad, lastLoad]
      by_cases hn : n = s.lastSequence
      · rw [if_pos hn, if_pos (congrArg (· + 1) hn)]
        exact hflight
      · rw [if_neg hn, if_neg hn, if_neg fun he => hn (Nat.succ_inj.1 he)]
  refine { h with
    slot := fun hpending => ?_, waits := fun he n l' hl hexternal => ?_, polled := fun c l' hc hl hexternal => ?_
    crosses := fun n l' hl hc => ?_, current := fun he => h.current (herror he), records :=
      fun he => h.records (herror he)
    access := fun l' hl => ?_ }
  · rcases hslot hpending with ⟨hopen, rfl⟩ | ⟨hexternal, rfl⟩
    · obtain ⟨l', hl', hrest⟩ := h.slot hopen
      refine ⟨l', ?_, hrest⟩
      rw [hload, if_neg]
      · exact hl'
      · intro he
        rw [he, hold] at hl'
        cases hl'
    · exact ⟨l, by rw [hload, if_pos rfl], hexternal, rfl⟩
  · rw [hload] at hl
    split_ifs at hl with hn
    · cases hl
      exact .inr (hn ▸ (hwaits he).1 hexternal)
    · rcases h.waits (herror he) n l' hl hexternal with hmem | ⟨hpending, hseq⟩
      · exact .inl hmem
      · obtain ⟨hpending', rfl⟩ := (hwaits he).2 hpending
        exact .inr ⟨hpending', hseq⟩
  · have hle := (h.sequences c (mem_stream.2 (.inl hc))).2
    rw [hload, if_neg (by omega)] at hl
    exact h.polled c l' hc hl hexternal
  · rw [hload] at hl
    split_ifs at hl with hn
    · cases hl
      exact hcrosses hc
    · exact fun he => h.crosses n l' hl hc (herror he)
  · cases hflight.symm.trans hl
    exact hmem

theorem load (hmem : Hook.mem false l.address l.size 0 ∈ s.attempt) (hclear : l.Clear s.regions)
    (hwaiting : s.waiting = true → ¬l.External s.regions) : LoadInv (s.load l) := by
  rw [Cosim.load, if_pos hopened]
  simp only
  cases hreach : reach s.regions l.address l.size with
  | outside =>
    have hout := reach_outside hclear hreach
    refine h.beginLoad hopened hloading hmem (fun hp => .inl ⟨hp, rfl⟩) (fun _ => ⟨?_, fun hp => ⟨hp, rfl⟩⟩) ?_ id
    · rintro ⟨r, hr, hholds⟩
      exact absurd hholds.1 (hout r hr)
    · rintro ⟨r, hr, hcrosses⟩
      exact absurd hcrosses.1 (hout r hr)
  | crosses =>
    have herror : (s.error <|> some (Fault.crossesBoundary l.address l.size)) ≠ none := by
      cases s.error <;> simp
    exact h.beginLoad hopened hloading hmem (fun hp => .inl ⟨hp, rfl⟩) (fun he => absurd he herror) (fun _ => herror)
      fun he => absurd he herror
  | inside =>
    obtain ⟨hexternal, hno⟩ := reach_inside hclear hreach
    have hfree : s.externalPending = true → False := fun hp => by
      obtain ⟨l', hl', -, -⟩ := h.slot hp
      have hle := lastLoad_le h.loads hl'
      have hne : s.external.sequence ≠ s.lastSequence + 1 := fun he => by
        rw [he, lastLoad, if_pos rfl, inFlight, if_pos hopened, hloading] at hl'
        cases hl'
      refine hwaiting ?_ hexternal
      rw [waiting, hp, Bool.true_and, decide_eq_true (by omega)]
    exact h.beginLoad hopened hloading hmem (fun _ => .inr ⟨hexternal, rfl⟩)
      (fun _ => ⟨fun _ => ⟨rfl, rfl⟩, fun hp => (hfree hp).elim⟩) (fun hc => absurd hc hno) id

theorem cosimLoad
    (hclear : l.Clear s.regions) (hwaiting : s.waiting = true → ¬l.External s.regions) : LoadInv (s.cosimLoad l) := by
  have hhook := h.hook (.mem false l.address l.size 0)
  rw [Cosim.cosimLoad]
  rw [hook_eq hopened] at hhook ⊢
  exact hhook.load hopened hloading (mem_append_right _ mem_cons_self) hclear hwaiting

end

theorem close (hopened : s.opened = true) (r : Retire) : LoadInv (s.close r) := by
  obtain ⟨events, held, wfiDrains, heq, hmem⟩ := s.close_eq r
  have hload : (s.close r).lastLoad = s.lastLoad := by
    funext n
    cases n with
    | zero => rfl
    | succ n =>
      have hlength := h.loads
      rw [heq, lastLoad, lastLoad]
      simp only [inFlight, hopened, Bool.false_eq_true, if_false, if_true]
      rcases lt_trichotomy n s.lastSequence with hlt | rfl | hlt
      · rw [if_neg (by omega), if_neg (by omega), getElem?_append_left (by omega)]
      · rw [if_neg (by omega), if_pos rfl, ← hlength, getElem?_concat_length]
        rfl
      · rw [if_neg (by omega : ¬n = s.lastSequence), getElem?_eq_none (show s.loads.length ≤ n by omega)]
        split_ifs with hn
        · rfl
        · rw [getElem?_eq_none (by rw [length_append, length_singleton]; omega)]
  have hconcat : ∀ {α : Type} {xs : List α} {x y : α} {n : Nat}, (xs ++ [x])[n]? = some y → xs[n]? = some y ∨
    n = xs.length ∧ y = x :=
    fun {α xs x y n} hy => by
      rcases lt_trichotomy n xs.length with hlt | rfl | hlt
      · rw [getElem?_append_left hlt] at hy
        exact .inl hy
      · rw [getElem?_concat_length] at hy
        exact .inr ⟨rfl, (Option.some.inj hy).symm⟩
      · rw [getElem?_eq_none (by rw [length_append, length_singleton]; omega)] at hy
        cases hy
  rw [heq] at hload ⊢
  refine ⟨fun c hc => ?_, ?_, ?_, ?_, ?_, ?_, ?_, fun _ => nofun, fun he c hooks hc hhooks => ?_, nofun,
    fun n l hooks hl hhooks => ?_⟩
  · simp only
    rcases mem_stream.1 hc with hc | hc
    · have hbounds := h.sequences c (mem_stream.2 (.inl hc))
      omega
    · rcases hmem c hc with hc | rfl
      · have hbounds := h.sequences c (mem_stream.2 (.inr hc))
        omega
      · exact ⟨Nat.succ_pos _, le_rfl⟩
  · simp only [length_append, length_singleton]
    rw [h.loads]
  · simp only [length_append, length_singleton]
    rw [h.attempts]
  · rw [hload]
    exact h.slot
  · rw [hload]
    exact h.waits
  · rw [hload]
    exact h.polled
  · rw [hload]
    exact h.crosses
  · have hlength := h.attempts
    rcases hmem c hc with hc | rfl
    · have hbounds := h.sequences c (mem_stream.2 (.inr hc))
      rcases hconcat hhooks with hhooks | ⟨hn, -⟩
      · exact h.records he c hooks hc hhooks
      · omega
    · rcases hconcat hhooks with hhooks | ⟨-, rfl⟩
      · have hlt := (List.getElem?_eq_some_iff.1 hhooks).1
        simp only [Cosim.record] at hlt
        omega
      · exact h.current he hopened
  · have hlengths := h.loads.trans h.attempts.symm
    rcases hconcat hl with hl | ⟨hn, hl⟩
    · rcases hconcat hhooks with hhooks | ⟨hn, -⟩
      · exact h.accesses n l hooks hl hhooks
      · have hlt := (List.getElem?_eq_some_iff.1 hl).1
        omega
    · rcases hconcat hhooks with hhooks | ⟨-, rfl⟩
      · have hlt := (List.getElem?_eq_some_iff.1 hhooks).1
        omega
      · exact h.access l (by rw [inFlight, if_pos hopened, hl])

theorem retire (r : Retire) : LoadInv (s.retire r) := by
  by_cases hopened : s.opened = true
  · obtain ⟨error, hooks, hcsr, herror, -, hretire⟩ := Cosim.retire_eq hopened r
    rw [hretire]
    refine close ?_ ?_ r
    swap
    · exact hopened
    refine h.keep rfl ⟨rfl, rfl, rfl⟩ ⟨rfl, rfl, rfl⟩ ⟨rfl, fun _ => id⟩ rfl herror.none_of (fun he _ => ?_)
      fun l hl => mem_append_left _ (h.access l hl)
    have hgrows : ∀ (hs : List Hook) (e : Effects),
        Effects.Grows e (hs.foldl (fun e hk => (e.hook (s.lastSequence + 1) hk).1) e) := fun hs => by
      induction hs with
      | nil => exact .refl
      | cons hk hs ih => exact fun e => (hook_grows _ hk).trans (ih _)
    intro hk hmem
    rcases mem_append.1 hmem with hmem | hmem
    · exact (h.current (herror.none_of he) hopened hk hmem).grows (hgrows hooks _)
    · obtain ⟨address, value, origin, rfl⟩ := hcsr hk hmem
      exact trivial
  · rw [Cosim.retire, if_neg hopened]
    exact h

theorem dropLoad (hwaiting : s.waiting = false) : LoadInv { s with externalPending := false, loading := none } := by
  have hload : ∀ {n l}, lastLoad { s with externalPending := false, loading := none } n = some l →
      s.lastLoad n = some l ∧ n ≤ s.lastSequence := fun {n l} hl => by
    have hle := Cosim.lastLoad_le (s := { s with externalPending := false, loading := none }) h.loads hl
    cases n with
    | zero => cases hl
    | succ n =>
      rw [lastLoad] at hl ⊢
      simp only at hl hle
      split_ifs at hl with hn
      · simp only [inFlight, ite_self] at hl
        cases hl
      · rw [if_neg hn]
        exact ⟨hl, by omega⟩
  refine { h with slot := nofun, waits := fun he n l hl hexternal => ?_, polled :=
    fun c l hc hl hexternal => ?_, crosses := fun n l hl => h.crosses n l (hload hl).1, access := fun l hl => ?_ }
  · obtain ⟨hl, hle⟩ := hload hl
    rcases h.waits he n l hl hexternal with hmem | ⟨hpending, rfl⟩
    · exact .inl hmem
    · rw [Cosim.waiting, hpending, Bool.true_and, decide_eq_true hle] at hwaiting
      cases hwaiting
  · exact h.polled c l hc (hload hl).1 hexternal
  · simp only [inFlight, ite_self] at hl
    cases hl

theorem retry {exception : Option Retire} (hwaiting : s.opened = true → s.waiting = false)
    (hloading : ¬(exception.isSome ∧ s.loading.isSome)) : LoadInv (s.retry exception) := by
  by_cases hopened : s.opened = true
  · have hdrop := h.dropLoad (hwaiting hopened)
    rw [Cosim.retry, if_pos hopened]
    cases exception with
    | some r =>
      have hnone : s.loading = none := Option.eq_none_iff_forall_ne_some.2 fun l hl => hloading ⟨rfl, by rw [hl]; rfl⟩
      rw [show ({ s with externalPending := false, loading := none } : Cosim) = { s with externalPending := false } by
        rw [← hnone]] at hdrop
      exact hdrop.retire r
    | none =>
      exact hdrop.keep rfl ⟨rfl, rfl, rfl⟩ ⟨rfl, rfl, rfl⟩ ⟨rfl, fun _ => id⟩ rfl id (fun _ _ => by simp) fun l hl => by
        simp only [inFlight, ite_self] at hl
        cases hl
  · rw [Cosim.retry, if_neg hopened]
    exact h

theorem boundary (kind : BoundaryKind) (cause irqId pc nextPc : Word) (csr : List CsrWrite) :
    LoadInv (s.boundary kind cause irqId pc nextPc csr) := by
  have hpush : ∀ {c b} {es : List CosimEvent}, .commit c ∈ es ++ [.boundary b] → .commit c ∈ es := fun {c b es} hc =>
    (mem_append.1 hc).resolve_right fun hb => nomatch mem_singleton.1 hb
  rw [Cosim.boundary, Cosim.push]
  simp only
  split_ifs
  · refine h.keep rfl ⟨rfl, rfl, rfl⟩ ⟨rfl, rfl, rfl⟩ ⟨rfl, fun c hc => ?_⟩ rfl id h.current h.access
    exact mem_append.2 ((mem_append.1 hc).imp_left hpush)
  · refine h.keep rfl ⟨rfl, rfl, rfl⟩ ⟨rfl, rfl, rfl⟩ ⟨rfl, fun c hc => ?_⟩ rfl id h.current h.access
    exact mem_append.2 ((mem_append.1 hc).imp_right hpush)

theorem drain (pc : Word) : LoadInv (s.drain pc) := by
  rw [Cosim.drain]
  split_ifs
  · have hdrain : LoadInv { s with wfiDrains := s.wfiDrains - 1 } :=
      h.keep rfl ⟨rfl, rfl, rfl⟩ ⟨rfl, rfl, rfl⟩ ⟨rfl, fun _ => id⟩ rfl id h.current h.access
    exact hdrain.boundary ..
  · split
    · rename_i c rest hheld
      refine h.keep rfl ⟨rfl, rfl, rfl⟩ ⟨rfl, rfl, rfl⟩ ⟨rfl, fun c' hc' => ?_⟩ rfl id h.current h.access
      simp only [append_assoc, cons_append] at hc'
      rw [takeWhile_append_dropWhile] at hc'
      exact hheld ▸ hc'
    · exact h.fail _

theorem poll (hpoll : s.poll = some t) : LoadInv t := by
  rw [Cosim.poll] at hpoll
  split at hpoll
  · rename_i e rest hstatus hevents
    cases hpoll
    have hstream : s.stream = s.polled ++ [e] ++ rest ++ s.held := by simp [stream, hevents]
    refine { h with sequences := ?_, polled := fun c l hc hl hexternal => ?_, records :=
      fun he c hooks hc => h.records he c hooks (by rw [hevents]; exact mem_cons_of_mem _ hc) }
    · rw [stream, ← hstream]
      exact h.sequences
    · rcases mem_append.1 hc with hc | hc
      · exact h.polled c l hc hl hexternal
      · cases mem_singleton.1 hc
        rw [status] at hstatus
        by_cases herror : s.error.isSome
        · rw [if_pos herror] at hstatus
          cases hstatus
        rw [if_neg herror, hevents] at hstatus
        simp only at hstatus
        split_ifs at hstatus with hpending
        refine (h.waits (by simpa using herror) c.sequence l hl hexternal).resolve_right fun hslot => hpending ?_
        exact ⟨hslot.1, hslot.2.symm⟩
  · cases hpoll

end

theorem mem_modify {xs : List (List Hook)} {m k : Nat} {x : Hook}
    (h : (xs.modify m (· ++ [x]))[k]? = some hooks) : ∃ hooks', xs[k]? = some hooks' ∧ (∀ hk ∈ hooks', hk ∈ hooks) ∧
      ∀ hk ∈ hooks, hk ∈ hooks' ∨ hk = x := by
  rw [getElem?_modify] at h
  obtain ⟨hooks', hhooks', rfl⟩ := Option.map_eq_some_iff.1 h
  refine ⟨hooks', hhooks', fun hk hmem => ?_, fun hk hmem => ?_⟩
  · split_ifs
    · exact mem_append_left _ hmem
    · exact hmem
  · split_ifs at hmem
    · exact (mem_append.1 hmem).imp_right mem_singleton.1
    · exact .inl hmem

theorem externalLoadResponse (h : LoadInv s) {n : Nat} (hkeeps : s.opened = true → s.external.reg = 0)
    (hstep : s.externalLoadResponse n data = some t) : LoadInv t := by
  obtain ⟨c, rest, herror, hevents, hpending, hseq, hext, rfl⟩ := Cosim.externalLoadResponse_eq hstep
  have hhead : commit c ∈ s.events ++ s.held := hevents ▸ mem_cons_self
  have hrest : ∀ {c'}, commit c' ∈ rest ++ s.held → commit c' ∈ s.events ++ s.held := fun hc' => by
    rw [hevents]
    exact mem_cons_of_mem _ hc'
  rw [setReg_closed hkeeps]
  refine ⟨fun c' hc' => ?_, h.loads, ?_, nofun, fun _ m l hl hexternal => .inl ?_, fun c' l hc' hl hexternal => ?_,
    h.crosses, h.current, fun _ c' hooks hc' hhooks hk hmem => ?_, h.access, fun m l hooks hl hhooks => ?_⟩
  · rcases mem_stream.1 hc' with hc' | hc'
    · exact h.sequences c' (mem_stream.2 (.inl hc'))
    · rcases mem_cons.1 hc' with he | hc'
      · cases he
        exact h.sequences c (mem_stream.2 (.inr hhead))
      · exact h.sequences c' (mem_stream.2 (.inr (hrest hc')))
  · simp only [length_modify]
    exact h.attempts
  · rcases h.waits herror m l hl hexternal with hmem | ⟨-, hm⟩
    · exact mem_append_left _ hmem
    · exact mem_append_right _ (mem_singleton.2 (hm.symm.trans hext))
  · exact mem_append_left _ (h.polled c' l hc' hl hexternal)
  · obtain ⟨hooks', hhooks', -, hnew⟩ := mem_modify hhooks
    rcases hnew hk hmem with hold | rfl
    · rcases mem_cons.1 hc' with he | hc'
      · cases he
        exact (h.records herror c hooks' hhead hhooks' hk hold).grows (respond_grows _ _)
      · exact h.records herror c' hooks' (hrest hc') hhooks' hk hold
    · exact trivial
  · obtain ⟨hooks', hhooks', hold, -⟩ := mem_modify hhooks
    exact hold _ (h.accesses m l hooks' hl hhooks')

theorem answered (h : LoadInv s) {n : Nat} (hkeeps : s.opened = true → s.external.reg = 0)
    (hstep : s.externalLoadResponse n data = some t) : Answered s n data t := by
  obtain ⟨c, rest, herror, hevents, hpending, hseq, hext, rfl⟩ := Cosim.externalLoadResponse_eq hstep
  obtain ⟨l, hl, hexternal, hslot⟩ := h.slot hpending
  have hhead : commit c ∈ s.events ++ s.held := hevents ▸ mem_cons_self
  have hbounds := h.sequences c (mem_stream.2 (.inr hhead))
  have hlength := h.attempts
  rw [hext] at hl
  have hlast : s.loads[n - 1]? = some (some l) := by
    obtain ⟨m, rfl⟩ : ∃ m, n = m + 1 := ⟨n - 1, by omega⟩
    rw [lastLoad, if_neg (by omega)] at hl
    exact Option.join_eq_some_iff.1 hl
  obtain ⟨hooks, hhooks⟩ : ∃ hooks, s.attempts[n - 1]? = some hooks := ⟨_, getElem?_eq_getElem (by omega)⟩
  have hgiven := given l data (h.records herror c hooks hhead (hseq ▸ hhooks)) (h.accesses _ l hooks hlast hhooks)
  have hregs : (fun r => if s.external.reg ≠ 0 ∧ r = s.external.reg then s.external.toLoad.extend data else s.regs r) =
      fun r => if l.reg ≠ 0 ∧ l.reg < 64 ∧ r = l.reg then l.value data else s.regs r := by
    funext r
    rw [Load.extend_eq, hslot]
    refine if_congr ?_ rfl rfl
    simp only
    split_ifs <;> omega
  refine ⟨c, _, rest, l, hooks, s.attempts.modify (n - 1) (· ++ [.response s.external.toLoad data]), hevents, hseq,
    hl, hexternal, hhooks, hgiven, ?_⟩
  rw [setReg_closed hkeeps, hregs, hslot]

/-- Every event that keeps the load keeps the invariant of the slot and the records. -/
theorem step (h : LoadInv s) (hkeeps : s.KeepsLoad e) (hstep : s.step e = some t) : LoadInv t := by
  cases e with
  | arm sequence =>
    rw [Cosim.step] at hstep
    split_ifs at hstep
    cases hstep
    exact h.keep rfl ⟨rfl, rfl, rfl⟩ ⟨rfl, rfl, rfl⟩ ⟨rfl, fun _ => id⟩ rfl id h.current h.access
  | decide opportunityId =>
    cases hstep
    exact h.keep rfl ⟨rfl, rfl, rfl⟩ ⟨rfl, rfl, rfl⟩ ⟨rfl, fun _ => id⟩ rfl id h.current h.access
  | dispatch insn fault moved decided =>
    rw [Cosim.step] at hstep
    split_ifs at hstep
    cases hstep
    exact h.dispatch insn fault moved decided
  | setReg reg value =>
    cases hstep
    exact h.setReg reg value
  | csr address value origin =>
    cases hstep
    exact h.hook _
  | trap cause target debugModeTrap mstatus mepc mcause =>
    cases hstep
    exact h.hook _
  | store address size data =>
    cases hstep
    exact h.hook _
  | load l =>
    rw [Cosim.step] at hstep
    split_ifs at hstep with hload
    cases hstep
    exact h.cosimLoad hload.1 hload.2 hkeeps.1 hkeeps.2
  | retry exception =>
    rw [Cosim.step] at hstep
    split_ifs at hstep with hloading
    cases hstep
    exact h.retry hkeeps hloading
  | retire r =>
    cases hstep
    exact h.retire r
  | boundary kind cause irqId pc nextPc csr =>
    cases hstep
    exact h.boundary kind cause irqId pc nextPc csr
  | wake =>
    rw [Cosim.step] at hstep
    split_ifs at hstep
    cases hstep
    exact h.keep rfl ⟨rfl, rfl, rfl⟩ ⟨rfl, rfl, rfl⟩ ⟨rfl, fun _ => id⟩ rfl id h.current h.access
  | drain pc =>
    rw [Cosim.step] at hstep
    split at hstep
    · rename_i x rest hfifo
      split_ifs at hstep
      cases hstep
      have hfront : LoadInv { s with fifo := rest } :=
        h.keep rfl ⟨rfl, rfl, rfl⟩ ⟨rfl, rfl, rfl⟩ ⟨rfl, fun _ => id⟩ rfl id h.current h.access
      exact hfront.drain pc
    · cases hstep
  | poll => exact h.poll hstep
  | externalLoadResponse n data => exact h.externalLoadResponse hkeeps hstep

theorem lastLoad_init (regions : List Region) (n : Nat) (l : Load) : lastLoad { regions := regions } n ≠ some l := by
  intro hl
  cases n with
  | zero => cases hl
  | succ n =>
    rw [lastLoad] at hl
    split_ifs at hl
    · cases hl
    · cases hl

theorem init (regions : List Region) : LoadInv { regions := regions } where
  sequences := nofun
  loads := rfl
  attempts := rfl
  slot := nofun
  waits _ n l hl := absurd hl (lastLoad_init regions n l)
  polled := nofun
  crosses n l hl := absurd hl (lastLoad_init regions n l)
  current _ := nofun
  records _ := nofun
  access := nofun
  accesses := nofun

end LoadInv

/-- External loads wait for their data, in every run whose steps all keep the loads. -/
theorem external_loads (regions : List Region) (es : List Event)
    (h : AllSteps Cosim.step Cosim.KeepsLoad { regions := regions } es) :
    AllStates Cosim.step Published { regions := regions } es ∧
      AllSteps Cosim.step (fun s e => ∀ n data t, e = .externalLoadResponse n data → s.step e = some t →
        Answered s n data t)
        { regions := regions } es := by
  refine ⟨allStates_of_allSteps (fun _ => LoadInv.published) (fun _ _ _ hs hkeeps => hs.step hkeeps)
    (LoadInv.init regions) h, ?_⟩
  refine allSteps_of_allSteps (fun _ _ _ hs hkeeps => hs.step hkeeps) (fun s e hs hkeeps n data t he hstep => ?_)
    (LoadInv.init regions) h
  subst he
  exact hs.answered hkeeps hstep

/-- A load from an external region, its data and its record. -/
def loadAndPoll (address : Word) (response : List Event) : List Event :=
  [.arm 1, .dispatch ⟨0, 0x2083, 4⟩ false false true, .load ⟨address, 4, 1, false⟩, .setReg 1 0, .retire {}] ++
    response ++ [.poll]

theorem external_loads_load_and_poll :
    AllSteps Cosim.step Cosim.KeepsLoad { regions := [⟨0x1000, 0x100, .external⟩] }
      (loadAndPoll 0x1000 [.externalLoadResponse 1 5]) ∧
    AllStates Cosim.step Published { regions := [⟨0x1000, 0x100, .external⟩] }
      (loadAndPoll 0x1000 [.externalLoadResponse 1 5]) :=
  have hkeeps : AllSteps Cosim.step Cosim.KeepsLoad { regions := [⟨0x1000, 0x100, .external⟩] }
      (loadAndPoll 0x1000 [.externalLoadResponse 1 5]) := by decide
  ⟨hkeeps, (external_loads [⟨0x1000, 0x100, .external⟩] _ hkeeps).1⟩

/-- A region that ends at the end of the address space is not seen. -/
theorem last_region_not_published : ¬∀ regions es, AllStates Cosim.step Published { regions := regions } es ∧
    AllSteps Cosim.step (fun s e => ∀ n data t, e = .externalLoadResponse n data → s.step e = some t →
      Answered s n data t)
      { regions := regions } es := by
  intro hall
  obtain ⟨t, hrun, c, hpolled, hload, hresponded⟩ : ∃ t, run Cosim.step { regions := [⟨0xFFFFFF00, 0x100, .external⟩] }
      (loadAndPoll 0xFFFFFF00 []) = some t ∧ ∃ c, t.polled = [.commit c] ∧
        t.lastLoad c.sequence = some ⟨0xFFFFFF00, 4, 1, false⟩ ∧ t.responded = [] ∧
          t.regions = [⟨0xFFFFFF00, 0x100, .external⟩] :=
    ⟨_, rfl, _, rfl, rfl, rfl, rfl⟩
  have hpublished := (hall _ _).1.final hrun
  have hmem := hpublished.polled c _ (hpolled ▸ mem_cons_self) hload (by rw [hresponded.2]; decide)
  rw [hresponded.1] at hmem
  cases hmem

end GvsocPulp.Cv32e40p
