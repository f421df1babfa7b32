import GvsocPulp.Lib.Run
import GvsocPulp.Lib.UpperBound

/-!
# `CacheFilter`

The filter in front of a cache of the L2 interconnect: an access goes to the cache if it meets one of the rules. The
rules are kept sorted by their start with the largest end so far, so that one binary search decides.

- `lt_maxHiPrefix`: the prefix maximum stands for the rules up to it;
- `matchRange_exact_iff`: an access matches iff it overlaps a rule, unless it ends exactly at the top of the address
  space.
-/

namespace GvsocPulp.L2Interconnect

open Lib List

variable {a b : CacheRule} {addr hi : UInt64} {ivs rules : List CacheRule} {r : CacheRule} {f f' : CacheFilter}

/-! ## The filter -/

/-- `CacheRule`: the addresses from `start` on, before `stop`. -/
structure CacheRule where
  start : UInt64
  stop : UInt64
  deriving DecidableEq, Repr

structure RuleSnapshot where
  intervals : List CacheRule
  maxHiPrefix : List UInt64

/-- `CacheFilter`: the rules, and the snapshot that `match` reads. -/
structure CacheFilter where
  rules : List CacheRule := []
  snapshot : Option RuleSnapshot := none

/-- The order of the sort. -/
def CacheRule.Le (a b : CacheRule) : Prop := a.start < b.start ∨ a.start = b.start ∧ a.stop ≤ b.stop

open CacheRule

instance : DecidableRel Le := fun a b => by unfold Le; infer_instance

/-- The loop over the intervals, `cur` being the largest end so far. -/
def maxHiFrom (cur : UInt64) : List CacheRule → List UInt64
  | [] => []
  | r :: rs => max cur r.stop :: maxHiFrom (max cur r.stop) rs

def maxHiPrefix : List CacheRule → List UInt64
  | [] => []
  | r :: rs => r.stop :: maxHiFrom r.stop rs

def buildSnapshot (rules : List CacheRule) : RuleSnapshot :=
  let ivs := (rules.insertionSort Le).filter fun r => !decide (r.stop ≤ r.start)
  ⟨ivs, maxHiPrefix ivs⟩

namespace CacheFilter

variable (f : CacheFilter)

/-- `add_rule`; `none` where it is fatal. -/
def addRule (start stop : UInt64) : Option CacheFilter :=
  if start ≥ stop then none
  else
    let rules := f.rules ++ [⟨start, stop⟩]
    some { rules := rules, snapshot := some (buildSnapshot rules) }

/-- `update_rule`; `none` where it is fatal. -/
def updateRule (idx : Nat) (start stop : UInt64) : Option CacheFilter :=
  if start ≥ stop then none
  else if idx ≥ f.rules.length then none
  else
    let rules := f.rules.set idx ⟨start, stop⟩
    some { rules := rules, snapshot := some (buildSnapshot rules) }

/-- `match(addr, size)`; what is searched for is the last address. -/
def matchRange (addr size : UInt64) : Bool :=
  if size = 0 then false
  else
    let stop := addr + size
    if stop < addr then false
    else match f.snapshot with
      | none => false
      | some snap =>
        let it := upperBound (fun r : CacheRule => decide (stop - 1 < r.start)) snap.intervals
        if it = 0 then false else (snap.maxHiPrefix[it - 1]?).any fun hi => hi > addr

/-- `req`: whether the access is sent to the cache. -/
def toCache (bypass : Bool) (addr size : UInt64) : Bool := !(bypass || !f.matchRange addr size)

/-- `config_sync`: one end of a rule is written; `none` where it is fatal. -/
def configSync (argA : Nat) (argB argC : UInt32) : Option CacheFilter :=
  (f.rules[argA]?).bind fun r =>
    if argB = 0 then f.updateRule argA argC.toUInt64 r.stop else f.updateRule argA r.start argC.toUInt64

end CacheFilter

inductive RuleCall
  | addRule (start stop : UInt64)
  | updateRule (idx : Nat) (start stop : UInt64)
  deriving DecidableEq, Repr

def ruleStep (f : CacheFilter) : RuleCall → Option CacheFilter
  | .addRule start stop => f.addRule start stop
  | .updateRule idx start stop => f.updateRule idx start stop

/-! ## The snapshot -/

theorem lt_max_uint64 {a b d : UInt64} : d < max a b ↔ d < a ∨ d < b := by
  have hmax : max a b = if a ≤ b then b else a := rfl
  rw [hmax]
  split_ifs with h
  · rw [UInt64.le_iff_toNat_le] at h
    simp only [UInt64.lt_iff_toNat_lt]
    omega
  · rw [UInt64.le_iff_toNat_le] at h
    simp only [UInt64.lt_iff_toNat_lt]
    omega

theorem lt_maxHiFrom : ∀ {rs : List CacheRule} {cur : UInt64} {j : Nat},
    (maxHiFrom cur rs)[j]? = some hi → (addr < hi ↔ addr < cur ∨ ∃ r ∈ rs.take (j + 1), addr < r.stop)
  | [], _, _, h => by simp [maxHiFrom] at h
  | r :: rs, cur, 0, h => by
    simp only [maxHiFrom, getElem?_cons_zero, Option.some.injEq] at h
    rw [← h, lt_max_uint64]
    simp
  | r :: rs, cur, j + 1, h => by
    simp only [maxHiFrom, getElem?_cons_succ] at h
    rw [lt_maxHiFrom h, lt_max_uint64, take_succ_cons, or_assoc]
    simp

theorem lt_maxHiPrefix {j : Nat} (h : (maxHiPrefix ivs)[j]? = some hi) :
    addr < hi ↔ ∃ r ∈ ivs.take (j + 1), addr < r.stop := by
  cases ivs with
  | nil => simp [maxHiPrefix] at h
  | cons r rs =>
    cases j with
    | zero =>
      simp only [maxHiPrefix, getElem?_cons_zero, Option.some.injEq] at h
      rw [← h]
      simp
    | succ j =>
      rw [lt_maxHiFrom h, take_succ_cons]
      simp

theorem length_maxHiFrom : ∀ (rs : List CacheRule) (cur : UInt64), (maxHiFrom cur rs).length = rs.length
  | [], _ => rfl
  | _ :: rs, _ => congrArg (· + 1) (length_maxHiFrom rs _)

theorem length_maxHiPrefix (ivs : List CacheRule) : (maxHiPrefix ivs).length = ivs.length := by
  cases ivs with
  | nil => rfl
  | cons r rs => exact congrArg (· + 1) (length_maxHiFrom rs r.stop)

theorem CacheRule.le_total (a b : CacheRule) : a.Le b ∨ b.Le a := by
  simp only [Le, UInt64.lt_iff_toNat_lt, UInt64.le_iff_toNat_le, ← UInt64.toNat_inj]
  omega

theorem CacheRule.le_trans {d : CacheRule} (hab : a.Le b) (hbd : b.Le d) : a.Le d := by
  simp only [Le, UInt64.lt_iff_toNat_lt, UInt64.le_iff_toNat_le, ← UInt64.toNat_inj] at *
  omega

theorem CacheRule.Le.start_le (h : a.Le b) : a.start.toNat ≤ b.start.toNat := by
  simp only [Le, UInt64.lt_iff_toNat_lt, ← UInt64.toNat_inj] at h
  omega

instance : Std.Total Le := ⟨le_total⟩
instance : IsTrans CacheRule Le := ⟨fun _ _ _ => le_trans⟩

theorem mem_intervals (hne : ∀ r ∈ rules, r.start < r.stop) :
    r ∈ (buildSnapshot rules).intervals ↔ r ∈ rules := by
  rw [buildSnapshot, mem_filter, mem_insertionSort]
  constructor
  · exact And.left
  · intro hr
    have hlt := hne r hr
    rw [UInt64.lt_iff_toNat_lt] at hlt
    refine ⟨hr, ?_⟩
    rw [Bool.not_eq_true', decide_eq_false_iff_not, UInt64.le_iff_toNat_le]
    omega

theorem pairwise_intervals (rules : List CacheRule) :
    (buildSnapshot rules).intervals.Pairwise fun a b => a.start.toNat ≤ b.start.toNat :=
  ((pairwise_insertionSort Le rules).filter _).imp Le.start_le

/-! ## The filter over a run -/

/-- No rule is empty, and the snapshot is that of the rules. -/
structure CacheFilter.Inv (f : CacheFilter) : Prop where
  nonempty : ∀ r ∈ f.rules, r.start < r.stop
  snapshot : f.snapshot = some (buildSnapshot f.rules) ∨ f.snapshot = none ∧ f.rules = []

theorem CacheFilter.Inv.init : CacheFilter.Inv {} := ⟨fun _ h => absurd h not_mem_nil, .inr ⟨rfl, rfl⟩⟩

theorem CacheFilter.Inv.step {e : RuleCall} (h : f.Inv) (hs : ruleStep f e = some f') : f'.Inv := by
  cases e with
  | addRule start stop =>
    rw [ruleStep, CacheFilter.addRule] at hs
    split_ifs at hs with hle
    cases hs
    refine ⟨fun r hr => ?_, .inl rfl⟩
    rcases mem_append.1 hr with hr | hr
    · exact h.nonempty r hr
    · rw [mem_singleton.1 hr]
      exact UInt64.not_le.1 hle
  | updateRule idx start stop =>
    rw [ruleStep, CacheFilter.updateRule] at hs
    split_ifs at hs with hle hidx
    cases hs
    refine ⟨fun r hr => ?_, .inl rfl⟩
    rcases mem_or_eq_of_mem_set hr with hr | rfl
    · exact h.nonempty r hr
    · exact UInt64.not_le.1 hle

theorem CacheFilter.Inv.configSync {argA : Nat} {argB argC : UInt32} (h : f.Inv)
    (hs : f.configSync argA argB argC = some f') : f'.Inv := by
  rw [CacheFilter.configSync, Option.bind_eq_some_iff] at hs
  obtain ⟨r, -, hs⟩ := hs
  split_ifs at hs
  · exact h.step (e := .updateRule argA argC.toUInt64 r.stop) hs
  · exact h.step (e := .updateRule argA r.start argC.toUInt64) hs

/-! ## The decision -/

/-- The access ends within the address space and shares an address with a rule. -/
def Overlaps (rules : List CacheRule) (addr size : UInt64) : Prop :=
  0 < size.toNat ∧ addr.toNat + size.toNat ≤ 2 ^ 64 ∧
    ∃ r ∈ rules, r.start.toNat < addr.toNat + size.toNat ∧ addr < r.stop

instance (rules : List CacheRule) (addr size : UInt64) : Decidable (Overlaps rules addr size) := by
  unfold Overlaps
  infer_instance

/-- The access has the last address of the address space, and a rule ends after its start. -/
def AtTop (rules : List CacheRule) (addr size : UInt64) : Prop :=
  0 < size.toNat ∧ addr.toNat + size.toNat = 2 ^ 64 ∧ ∃ r ∈ rules, addr < r.stop

instance (rules : List CacheRule) (addr size : UInt64) : Decidable (AtTop rules addr size) := by
  unfold AtTop
  infer_instance

theorem mem_take_starts {last : UInt64} :
    r ∈ (buildSnapshot rules).intervals.take
        (upperBound (fun r : CacheRule => decide (last < r.start)) (buildSnapshot rules).intervals) ↔
      r ∈ (buildSnapshot rules).intervals ∧ r.start ≤ last := by
  rw [mem_take_upperBound, decide_eq_false_iff_not, UInt64.not_lt]
  refine (pairwise_intervals rules).imp fun {a b} hab => ?_
  rw [decide_eq_true_iff, decide_eq_true_iff, UInt64.lt_iff_toNat_lt, UInt64.lt_iff_toNat_lt]
  omega

theorem any_maxHiPrefix (addr : UInt64) {it : Nat} (hit : it ≤ ivs.length) :
    (if it = 0 then false else ((maxHiPrefix ivs)[it - 1]?).any fun hi => decide (hi > addr)) = true ↔
      ∃ r ∈ ivs.take it, addr < r.stop := by
  split_ifs with hzero
  · simp [hzero]
  · have hlt : it - 1 < (maxHiPrefix ivs).length := by
      rw [length_maxHiPrefix]
      omega
    have hhi := getElem?_eq_getElem hlt
    rw [hhi, Option.any_some, decide_eq_true_iff, gt_iff_lt, lt_maxHiPrefix hhi]
    have hsucc : it - 1 + 1 = it := by omega
    rw [hsucc]

/-- What the filter decides: the sum of address and size must fit into 64 bits. -/
theorem CacheFilter.Inv.matchRange_iff (h : f.Inv) (addr size : UInt64) :
    f.matchRange addr size = true ↔
      0 < size.toNat ∧ addr.toNat + size.toNat < 2 ^ 64 ∧
        ∃ r ∈ f.rules, r.start.toNat < addr.toNat + size.toNat ∧ addr < r.stop := by
  have hadd : (addr + size).toNat = (addr.toNat + size.toNat) % 2 ^ 64 := UInt64.toNat_add addr size
  have haddr := addr.toNat_lt
  have hsize := size.toNat_lt
  rw [CacheFilter.matchRange]
  split_ifs with hzero
  · simp [hzero]
  have hpos : 0 < size.toNat := by
    rw [← UInt64.toNat_inj, UInt64.toNat_zero] at hzero
    omega
  dsimp only
  split_ifs with hwrap
  · -- the sum wraps
    rw [UInt64.lt_iff_toNat_lt] at hwrap
    have hge : ¬ addr.toNat + size.toNat < 2 ^ 64 := fun hlt => by
      rw [hadd, Nat.mod_eq_of_lt hlt] at hwrap
      omega
    constructor
    · intro hfalse
      cases hfalse
    · rintro ⟨-, hlt, -⟩
      exact absurd hlt hge
  have hlt : addr.toNat + size.toNat < 2 ^ 64 := by
    rw [UInt64.lt_iff_toNat_lt] at hwrap
    omega
  have hsum : (addr + size).toNat = addr.toNat + size.toNat := by rw [hadd, Nat.mod_eq_of_lt hlt]
  have hlast : (addr + size - 1).toNat = addr.toNat + size.toNat - 1 := by
    rw [UInt64.toNat_sub_of_le _ _ (by rw [UInt64.le_iff_toNat_le, hsum, UInt64.toNat_one]; omega), hsum,
      UInt64.toNat_one]
  rcases h.snapshot with hsnap | ⟨hsnap, hnil⟩
  · rw [hsnap]
    dsimp only
    have hit : upperBound (fun r : CacheRule => decide (addr + size - 1 < r.start)) (buildSnapshot f.rules).intervals ≤
        (buildSnapshot f.rules).intervals.length := by
      refine (upperBound_spec ((pairwise_intervals f.rules).imp fun {a b} hab => ?_)).1
      rw [decide_eq_true_iff, decide_eq_true_iff, UInt64.lt_iff_toNat_lt, UInt64.lt_iff_toNat_lt]
      omega
    have hdecides := any_maxHiPrefix addr hit
    rw [show (buildSnapshot f.rules).maxHiPrefix = maxHiPrefix (buildSnapshot f.rules).intervals from rfl, hdecides]
    constructor
    · rintro ⟨r, hr, hstop⟩
      obtain ⟨hmem, hstart⟩ := mem_take_starts.1 hr
      rw [UInt64.le_iff_toNat_le, hlast] at hstart
      exact ⟨hpos, hlt, r, (mem_intervals h.nonempty).1 hmem, by omega, hstop⟩
    · rintro ⟨-, -, r, hr, hstart, hstop⟩
      refine ⟨r, mem_take_starts.2 ⟨(mem_intervals h.nonempty).2 hr, ?_⟩, hstop⟩
      rw [UInt64.le_iff_toNat_le, hlast]
      omega
  · rw [hsnap, hnil]
    simp

theorem CacheFilter.Inv.toCache_iff (h : f.Inv) (bypass : Bool) (addr size : UInt64) :
    f.toCache bypass addr size = true ↔ bypass = false ∧ 0 < size.toNat ∧ addr.toNat + size.toNat < 2 ^ 64 ∧
      ∃ r ∈ f.rules, r.start.toNat < addr.toNat + size.toNat ∧ addr < r.stop := by
  rw [← h.matchRange_iff, CacheFilter.toCache]
  cases bypass <;> simp

/-- After every sequence of calls, an access matches iff it overlaps a rule, unless it has the last address of the
address space and a rule ends after its start: the sum is 0 then. -/
theorem matchRange_exact_iff {calls : List RuleCall} {f : CacheFilter} (hrun : run ruleStep {} calls = some f)
    (addr size : UInt64) :
    (f.matchRange addr size = true ↔ Overlaps f.rules addr size) ↔ ¬ AtTop f.rules addr size := by
  have hinv : f.Inv := run_invariant (fun _ _ _ => CacheFilter.Inv.step) CacheFilter.Inv.init hrun
  rw [hinv.matchRange_iff, Overlaps, AtTop]
  constructor
  · rintro hiff ⟨hpos, htop, r, hr, hstop⟩
    have hstart := r.start.toNat_lt
    have h := (hiff.2 ⟨hpos, by omega, r, hr, by omega, hstop⟩).2.1
    omega
  · intro htop
    constructor
    · rintro ⟨hpos, hlt, hr⟩
      exact ⟨hpos, by omega, hr⟩
    · rintro ⟨hpos, hle, r, hr, hstart, hstop⟩
      have hne : addr.toNat + size.toNat ≠ 2 ^ 64 := fun heq => htop ⟨hpos, heq, r, hr, hstop⟩
      exact ⟨hpos, by omega, r, hr, hstart, hstop⟩

theorem matchRange_exact_iff_nested :
    run ruleStep {} [.addRule 0x10 0x100, .addRule 0x20 0x30, .updateRule 1 0x20 0x40] =
        some ⟨[⟨0x10, 0x100⟩, ⟨0x20, 0x40⟩], some (buildSnapshot [⟨0x10, 0x100⟩, ⟨0x20, 0x40⟩])⟩ ∧
      ((CacheFilter.matchRange ⟨[⟨0x10, 0x100⟩, ⟨0x20, 0x40⟩],
        some (buildSnapshot [⟨0x10, 0x100⟩, ⟨0x20, 0x40⟩])⟩ 0x80 4 =
          true ↔ Overlaps [⟨0x10, 0x100⟩, ⟨0x20, 0x40⟩] 0x80 4) ↔
        ¬ AtTop [⟨0x10, 0x100⟩, ⟨0x20, 0x40⟩] 0x80 4) :=
  have hrun : run ruleStep {} [.addRule 0x10 0x100, .addRule 0x20 0x30, .updateRule 1 0x20 0x40] =
    some ⟨[⟨0x10, 0x100⟩, ⟨0x20, 0x40⟩], some (buildSnapshot [⟨0x10, 0x100⟩, ⟨0x20, 0x40⟩])⟩ := rfl
  ⟨hrun, matchRange_exact_iff hrun 0x80 4⟩

/-- The last word of the address space is not found in the rule that has it. -/
theorem top_word_not_matched :
    ∃ f : CacheFilter, run ruleStep {} [.addRule 0xFFFFFFFFFFFFFF00 0xFFFFFFFFFFFFFFFF] = some f ∧
      Overlaps f.rules 0xFFFFFFFFFFFFFFFC 4 ∧ f.matchRange 0xFFFFFFFFFFFFFFFC 4 = false :=
  ⟨_, rfl, by decide +kernel, by decide +kernel⟩

/-! ## Reconfiguration -/

inductive FilterCall
  | rule (call : RuleCall)
  | configSync (argA : Nat) (argB argC : UInt32)

def filterStep (f : CacheFilter) : FilterCall → Option CacheFilter
  | .rule call => ruleStep f call
  | .configSync argA argB argC => f.configSync argA argB argC

/-- After every sequence of calls, with rules rewritten one end at a time by `config_sync`, the accesses that go to the
cache are those that overlap a rule as it is now. -/
theorem toCache_reconfigured {calls : List FilterCall} (hrun : run filterStep {} calls = some f) (bypass : Bool)
    (addr size : UInt64) : f.toCache bypass addr size = true ↔
      bypass = false ∧ addr.toNat + size.toNat ≠ 2 ^ 64 ∧ Overlaps f.rules addr size := by
  have hinv : f.Inv := run_invariant (fun f e f' h hs => by
    cases e with
    | rule call => exact h.step hs
    | configSync => exact h.configSync hs) CacheFilter.Inv.init hrun
  rw [hinv.toCache_iff, Overlaps]
  constructor
  · rintro ⟨hbypass, hpos, hlt, hr⟩
    exact ⟨hbypass, hlt.ne, hpos, hlt.le, hr⟩
  · rintro ⟨hbypass, hne, hpos, hle, hr⟩
    exact ⟨hbypass, hpos, hle.lt_of_ne hne, hr⟩

theorem toCache_reconfigured_moved : ∃ f : CacheFilter, f.rules = [⟨0x40, 0x80⟩] ∧ (f.toCache false 0x10 4 = true ↔
    false = false ∧ (0x10 : UInt64).toNat + (4 : UInt64).toNat ≠ 2 ^ 64 ∧ Overlaps f.rules 0x10 4) :=
  have hrun : run filterStep {} [.rule (.addRule 0x10 0x100), .configSync 0 1 0x80, .configSync 0 0 0x40] =
    some ⟨[⟨0x40, 0x80⟩], some (buildSnapshot [⟨0x40, 0x80⟩])⟩ := rfl
  ⟨_, rfl, toCache_reconfigured hrun false 0x10 4⟩

end GvsocPulp.L2Interconnect
