import GvsocPulp.EventUnitV3.DispatchOps

/-!
# The event unit: a core on the ring of the dispatch FIFO

Positions count the pushes, of which the ring holds the last `size`. A core has a position on the ring (`Ring`); behind
it there may be entries that it has not passed.

- `Ring.push`, `Ring.pushAsleep`: a push, for a core that runs and one that sleeps;
- `bypass_ring`: the walk of a pop goes to the next value of the core, or to the head;
- `Ring.normalize`: where a core pops in order, its walk begins at the oldest entry that matters to it.
-/

namespace GvsocPulp.EventUnitV3

open Lib CoreEventUnit Function List Nat DispatchUnit

/-! ## The log of the pushes -/

/-- The push at a position, its value and its team. -/
def pushAt (log : List (BitVec 32 × BitVec 32)) (p : Nat) : BitVec 32 × BitVec 32 := log[p]?.getD (0#32, 0#32)

def isForAt (log : List (BitVec 32 × BitVec 32)) (core p : Nat) : Bool := (pushAt log p).2.getLsbD core

section Log

variable {log : List (BitVec 32 × BitVec 32)} {x : BitVec 32 × BitVec 32} {core p q : Nat}

theorem pushAt_append (hp : p < log.length) : pushAt (log ++ [x]) p = pushAt log p := by
  rw [pushAt, pushAt, getElem?_append_left hp]

theorem pushAt_last : pushAt (log ++ [x]) log.length = x := by
  rw [pushAt, getElem?_concat_length, Option.getD_some]

theorem valuesFor_append (xs ys : List (BitVec 32 × BitVec 32)) :
    valuesFor core (xs ++ ys) = valuesFor core xs ++ valuesFor core ys := by
  rw [valuesFor, filter_append, map_append]
  rfl

theorem valuesFor_succ (hp : p < log.length) : valuesFor core (log.take (p + 1)) =
    valuesFor core (log.take p) ++ if isForAt log core p then [(pushAt log p).1] else [] := by
  have hget : log[p]? = some log[p] := getElem?_eq_getElem hp
  have hone : valuesFor core [log[p]] = if log[p].2.getLsbD core = true then [log[p].1] else [] := by
    rw [valuesFor, filter_singleton]
    cases log[p].2.getLsbD core <;> rfl
  rw [take_add_one, hget, Option.toList_some, valuesFor_append, hone, isForAt, pushAt, hget, Option.getD_some]

theorem valuesFor_skip (hpq : p ≤ q) (hq : q ≤ log.length) (h : ∀ i, p ≤ i → i < q → isForAt log core i = false) :
    valuesFor core (log.take q) = valuesFor core (log.take p) := by
  induction q, hpq using le_induction with
  | base => rfl
  | succ q hpq ih =>
    rw [valuesFor_succ hq, h q hpq (lt_succ_self q), if_neg Bool.false_ne_true, append_nil]
    exact ih (Nat.le_of_lt hq) fun i hi hlt => h i hi (lt_succ_of_lt hlt)

end Log

/-! ## The ring -/

/-- The entries hold the last pushes. -/
structure Entries (u : DispatchUnit) (log : List (BitVec 32 × BitVec 32)) : Prop where
  size_pos : 0 < u.size
  size_le : u.size ≤ log.length
  head : u.fifoHead = log.length % u.size
  entry : ∀ p < log.length, log.length ≤ p + u.size →
    (u.shared.value (p % u.size), u.shared.team (p % u.size)) = pushAt log p

/-- A core is at the position `a`: of the last pushes it has not passed those from there on, and those before `stale`.
What it has missed is not for it. -/
structure Ring (size : Nat) (log : List (BitVec 32 × BitVec 32)) (core : Nat) (v : CoreView)
    (a stale : Nat) : Prop where
  le : a ≤ log.length
  stale_le : stale ≤ a
  tail : v.tail = a % size
  status : ∀ p < log.length, log.length ≤ p + size → (v.status (p % size) = true ↔ a ≤ p ∨ p < stale)
  overwritten : ∀ p, a ≤ p → p + size < log.length → isForAt log core p = false
  staleNot : ∀ p < log.length, log.length ≤ p + size → p < stale → isForAt log core p = false

section Ring

variable {size : Nat} {log : List (BitVec 32 × BitVec 32)} {core a stale : Nat} {v : CoreView} {u : DispatchUnit}

theorem next_mod (hsize : 0 < u.size) (a : Nat) : u.next (a % u.size) = (a + 1) % u.size := by
  have hlt := mod_lt a hsize
  have hsucc : (a + 1) % u.size = (a % u.size + 1) % u.size := (mod_add_mod a u.size 1).symm
  rw [DispatchUnit.next, hsucc]
  split
  case isTrue h => rw [h, mod_self]
  case isFalse h => exact (mod_eq_of_lt (Nat.lt_of_le_of_ne hlt h)).symm

theorem entry_ne {p q : Nat} (hp : p < q) (hq : q < p + size) : p % size ≠ q % size := by
  intro h
  have hmod : (q - p) % size = 0 := (modEq_iff_dvd' hp.le).1 h |> mod_eq_zero_of_dvd
  rw [mod_eq_of_lt (by omega)] at hmod
  omega

/-! ## Pushes -/

theorem Ring.status_le {p : Nat} (h : Ring size log core v a stale) (hp : p < log.length) (hle : log.length ≤ p + size)
    (ha : a ≤ p) : v.status (p % size) = true := (h.status p hp hle).2 (Or.inl ha)

theorem Ring.push {x : BitVec 32 × BitVec 32} (h : Ring size log core v a stale) (hsize : 0 < size)
    (hle : size ≤ log.length) (hreuse : v.status (log.length % size) = true →
    isForAt log core (log.length - size) = false) :
    Ring size (log ++ [x]) core { v with status := update v.status (log.length % size) true } a stale := by
  have hlen : (log ++ [x]).length = log.length + 1 := by rw [length_append, length_singleton]
  have hnext : ∀ p, p + size = log.length → p % size = log.length % size := fun p hp => by rw [← hp, add_mod_right]
  refine ⟨by rw [hlen]; exact le_succ_of_le h.le, h.stale_le, h.tail, fun p hp hle' => ?_, fun p ha hlt => ?_,
    fun p hp hle' hstale => ?_⟩
  · rw [hlen] at hp hle'
    show update v.status (log.length % size) true (p % size) = true ↔ _
    rcases Nat.lt_succ_iff_lt_or_eq.1 hp with hlt | rfl
    · rw [update_of_ne (entry_ne hlt (by omega))]
      exact h.status p hlt (by omega)
    · rw [update_self]
      exact ⟨fun _ => Or.inl h.le, fun _ => rfl⟩
  · rw [hlen] at hlt
    rw [isForAt, pushAt_append (by omega)]
    rcases Nat.lt_succ_iff_lt_or_eq.1 hlt with hlt | heq
    · exact h.overwritten p ha hlt
    · have hp : log.length - size = p := by omega
      rw [hp] at hreuse
      refine hreuse ?_
      rw [← hnext p heq]
      exact h.status_le (by omega) (by omega) ha
  · rw [hlen] at hp hle'
    have hlt : p < log.length := by
      have := h.stale_le
      have := h.le
      omega
    rw [isForAt, pushAt_append hlt]
    exact h.staleNot p hlt (by omega) hstale

theorem Ring.pushAsleep {x : BitVec 32 × BitVec 32} {v' : CoreView} (h : Ring size log core v log.length stale)
    (hsize : 0 < size) (htail : v'.tail = (log.length + 1) % size)
    (hstatus : v'.status = update (update v.status (log.length % size) true) (log.length % size) false) :
    Ring size (log ++ [x]) core v' (log.length + 1) stale := by
  have hlen : (log ++ [x]).length = log.length + 1 := by rw [length_append, length_singleton]
  refine ⟨by rw [hlen], le_succ_of_le h.stale_le, htail, fun p hp hle' => ?_, fun p ha hlt => ?_,
    fun p hp hle' hstale => ?_⟩
  · rw [hlen] at hp hle'
    rw [hstatus, update_idem]
    have hstale := h.stale_le
    rcases Nat.lt_succ_iff_lt_or_eq.1 hp with hlt | rfl
    · rw [update_of_ne (entry_ne hlt (by omega)), h.status p hlt (by omega)]
      omega
    · rw [update_self]
      exact ⟨fun h => absurd h Bool.false_ne_true, fun h => by omega⟩
  · rw [hlen] at hlt
    omega
  · rw [hlen] at hp hle'
    have hlt : p < log.length := by
      have := h.stale_le
      omega
    rw [isForAt, pushAt_append hlt]
    exact h.staleNot p hlt (by omega) hstale

/-! ## The walk of a pop -/

theorem Ring.pass (h : Ring size log core v a stale) (ha : a < log.length) (hle : log.length ≤ a + size)
    {v' : CoreView} (htail : v'.tail = (a + 1) % size) (hstatus : v'.status = update v.status (a % size) false) :
    Ring size log core v' (a + 1) stale := by
  refine ⟨ha, le_succ_of_le h.stale_le, htail, fun p hp hle' => ?_, fun p ha' hlt => ?_, h.staleNot⟩
  · have hstale := h.stale_le
    rw [hstatus]
    rcases lt_trichotomy p a with hlt | rfl | hgt
    · rw [update_of_ne (entry_ne hlt (ha.trans_le hle')), h.status p hp hle']
      omega
    · rw [update_self]
      exact ⟨fun h => absurd h Bool.false_ne_true, fun h => by omega⟩
    · rw [update_of_ne (entry_ne hgt (by omega)).symm, h.status p hp hle']
      omega
  · exact h.overwritten p (le_of_succ_le ha') hlt

theorem Entries.team (he : Entries u log) {p : Nat} (hp : p < log.length) (hle : log.length ≤ p + u.size) :
    (u.dispatches (p % u.size)).configMask.getLsbD core = isForAt log core p := by
  have hteam : u.shared.team (p % u.size) = (pushAt log p).2 := congrArg Prod.snd (he.entry p hp hle)
  rw [isForAt, ← hteam]
  rfl

theorem Entries.congr {u' : DispatchUnit} (he : Entries u log) (h : u'.shared = u.shared) : Entries u' log := by
  have hsize : u'.size = u.size := congrArg Shared.size h
  have hhead : u'.fifoHead = u.fifoHead := congrArg Shared.fifoHead h
  exact ⟨hsize ▸ he.size_pos, hsize ▸ he.size_le, by rw [hhead, hsize]; exact he.head, by rw [hsize, h]; exact he.entry⟩

/-- The walk stops at the next value of the core, or at the head where there is none. -/
structure Walked (u u' : DispatchUnit) (log : List (BitVec 32 × BitVec 32)) (core a stale a' : Nat) : Prop where
  only : Only u u' core
  top : u'.top = u.top
  waiting : (u'.view core).waiting = (u.view core).waiting
  waitingReqs : (u'.view core).waitingReqs = (u.view core).waitingReqs
  le : a ≤ a'
  ring : Ring u.size log core (u'.view core) a' stale
  skipped : ∀ p, a ≤ p → p < a' → isForAt log core p = false
  stops : (a' = log.length ∧ (u'.dispatches (u'.tail core)).statusMask.getLsbD core = false) ∨
    (a' < log.length ∧ isForAt log core a' = true ∧ (u'.dispatches (u'.tail core)).statusMask.getLsbD core = true)

theorem bypass_ring (hcore : core < 32) : ∀ (fuel : Nat) {u : DispatchUnit} {a : Nat},
    Ring u.size log core (u.view core) a stale → Entries u log → log.length ≤ a + u.size → log.length ≤ a + fuel →
    (stale + u.size ≤ log.length ∨ ∃ p, a ≤ p ∧ p < log.length ∧ isForAt log core p = true) →
    ∃ a', Walked u (u.bypass core fuel) log core a stale a'
  | fuel, u, a, h, he, hle, hfuel, hstop => by
    have htail : u.tail core = a % u.size := h.tail
    rcases h.le.lt_or_eq with hlt | heq
    · obtain ⟨fuel, rfl⟩ : ∃ n, fuel = n + 1 := ⟨fuel - 1, by omega⟩
      have hstatus : (u.dispatches (u.tail core)).statusMask.getLsbD core = true := by
        rw [htail]
        exact h.status_le hlt hle le_rfl
      have hteam : (u.dispatches (u.tail core)).configMask.getLsbD core = isForAt log core a := by
        rw [htail]
        exact he.team hlt hle
      rw [bypass, skips, hstatus, hteam]
      cases hfor : isForAt log core a with
      | true =>
        refine ⟨a, ⟨rfl, fun _ _ => rfl⟩, rfl, rfl, rfl, le_rfl, h, fun p hp hlt' => by omega,
          Or.inr ⟨hlt, hfor, hstatus⟩⟩
      | false =>
        obtain ⟨honly, hview⟩ := skip_view (u := u) hcore
        obtain ⟨u₁, hu₁⟩ : ∃ u₁, u₁ = (u.clearStatus (u.tail core) core).advance core := ⟨_, rfl⟩
        have htop : u₁.top = u.top := by rw [hu₁]; rfl
        rw [← hu₁] at honly hview ⊢
        have hsize : u₁.size = u.size := congrArg Shared.size honly.shared
        have hring : Ring u₁.size log core (u₁.view core) (a + 1) stale := by
          rw [hsize, hview]
          refine h.pass hlt hle ?_ ?_
          · rw [htail, next_mod he.size_pos]
          · rw [htail]
        have hstop' : stale + u₁.size ≤ log.length ∨ ∃ p, a + 1 ≤ p ∧ p < log.length ∧ isForAt log core p = true := by
          rw [hsize]
          refine hstop.imp_right fun ⟨p, hp, hp', hfor'⟩ => ⟨p, ?_, hp', hfor'⟩
          rcases hp.lt_or_eq with hp | rfl
          · exact hp
          · rw [hfor] at hfor'
            cases hfor'
        obtain ⟨a', hw⟩ := bypass_ring hcore fuel hring (he.congr honly.shared) (by rw [hsize]; omega) (by omega) hstop'
        refine ⟨a', honly.trans hw.only, hw.top.trans htop, hw.waiting.trans (by rw [hview]),
          hw.waitingReqs.trans (by rw [hview]), le_of_succ_le hw.le, hsize ▸ hw.ring, fun p hp hlt' => ?_, hw.stops⟩
        rcases hp.lt_or_eq with hp | rfl
        · exact hw.skipped p hp hlt'
        · exact hfor
    · -- the head: nothing is ready
      subst heq
      have hstale : stale + u.size ≤ log.length := hstop.resolve_right fun ⟨p, hp, hp', _⟩ => by omega
      have hpos := he.size_pos
      have hsizeLe := he.size_le
      have hmod : log.length % u.size = (log.length - u.size) % u.size := (mod_eq_sub_mod hsizeLe)
      have hstatus : (u.dispatches (u.tail core)).statusMask.getLsbD core = false := by
        rw [htail, hmod, Bool.eq_false_iff]
        intro hs
        rcases (h.status (log.length - u.size) (by omega) (by omega)).1 hs with hs | hs <;> omega
      have hbypass : u.bypass core fuel = u := by
        cases fuel with
        | zero => rfl
        | succ fuel =>
          rw [bypass, skips, hstatus]
          rfl
      rw [hbypass]
      exact ⟨log.length, ⟨rfl, fun _ _ => rfl⟩, rfl, rfl, rfl, le_rfl, h, fun p hp hlt' => by omega,
        Or.inl ⟨rfl, hstatus⟩⟩

/-! ## Pops in order -/

theorem Entries.ringIndex_eq (he : Entries u log) {k : Nat} :
    u.ringIndex k = (log.length - u.size + k) % u.size := by
  have hle := he.size_le
  rw [ringIndex, he.head, mod_add_mod, ← add_mod_right (log.length - u.size + k)]
  congr 1
  omega

/-- An entry is unread by a core iff it is new, or stale from before the last round of the ring. -/
theorem Entries.unread_iff (he : Entries u log) (h : Ring u.size log core (u.view core) a stale) {k : Nat}
    (hk : k < u.size) :
    u.unread core k = true ↔ a ≤ log.length - u.size + k ∨ log.length - u.size + k < stale := by
  have hle := he.size_le
  rw [unread, he.ringIndex_eq]
  exact h.status _ (by omega) (by omega)

theorem Entries.isFor_eq (he : Entries u log) {k : Nat} (hk : k < u.size) :
    u.isFor core k = isForAt log core (log.length - u.size + k) := by
  have hle := he.size_le
  rw [isFor, he.ringIndex_eq]
  exact he.team (by omega) (by omega)

theorem lagFrom_eq (lag : Nat) : ∀ {n : Nat}, lag ≤ n → (∀ k < n, n - lag ≤ k → u.unread core k = true) →
    (lag < n → u.unread core (n - lag - 1) = false) → u.lagFrom core n = lag
  | 0, hle, _, _ => (le_zero.1 hle).symm
  | n + 1, hle, hall, hstop => by
    rw [lagFrom]
    cases lag with
    | zero =>
      have hn := hstop (zero_lt_succ n)
      rw [Nat.sub_zero, Nat.add_sub_cancel] at hn
      rw [hn, if_neg Bool.false_ne_true]
    | succ lag =>
      have hn := hall n (lt_succ_self n) (by omega)
      rw [hn, if_pos rfl, lagFrom_eq lag (by omega) (fun k hk hle' => hall k (by omega) (by omega)) fun hlt => by
        have hs := hstop (by omega)
        rwa [succ_sub_succ] at hs]

section

variable (he : Entries u log) (h : Ring u.size log core (u.view core) a stale)
include he h

theorem behind_eq (hstrict : stale = 0 ∨ stale < a) (hlt : log.length < a + u.size) :
    log.length - u.size + u.behind core = a := by
  have hle := he.size_le
  have ha := h.le
  have hlag : u.lagFrom core u.size = log.length - a := by
    refine lagFrom_eq _ (by omega) (fun k hk hk' => (he.unread_iff h hk).2 (Or.inl (by omega))) fun _ => ?_
    rw [Bool.eq_false_iff]
    intro hu
    have hiff := (he.unread_iff h (by omega)).1 hu
    omega
  rw [behind, hlag, if_neg (by omega)]
  omega

theorem behind_overtaken
    (hle : a + u.size ≤ log.length) : u.behind core < u.size ∧ (log.length - u.size + u.behind core) % u.size =
      a % u.size := by
  have hpos := he.size_pos
  have hsize := he.size_le
  have hlag : u.lagFrom core u.size = u.size := by
    refine lagFrom_eq _ le_rfl (fun k hk _ => (he.unread_iff h hk).2 (Or.inl (by omega))) fun hlt => ?_
    exact absurd hlt (lt_irrefl _)
  have htail : u.tail core = a % u.size := h.tail
  rw [behind, if_pos hlag, htail, he.head]
  refine ⟨mod_lt _ hpos, ?_⟩
  have hmod := mod_lt log.length hpos
  have hoff : (log.length - u.size + (a % u.size + (u.size - log.length % u.size)) % u.size) % u.size =
      (log.length - u.size + (a % u.size + (u.size - log.length % u.size))) % u.size := add_mod_mod _ _ _
  have hdiv := div_add_mod log.length u.size
  have hsum : log.length - u.size + (a % u.size + (u.size - log.length % u.size)) =
      a % u.size + u.size * (log.length / u.size) := by omega
  rw [hoff, hsum, add_mul_mod_self_left, mod_mod]

end

/-- Where a core pops in order, its walk can be taken to begin among the last pushes. -/
theorem Ring.normalize (h : Ring u.size log core (u.view core) a stale) (he : Entries u log)
    (hstrict : stale = 0 ∨ stale < a) (horder : u.PopsInOrder core) :
    ∃ a₁ stale₁, Ring u.size log core (u.view core) a₁ stale₁ ∧ log.length ≤ a₁ + u.size ∧
      (stale₁ = 0 ∨ stale₁ < log.length) ∧ valuesFor core (log.take a₁) = valuesFor core (log.take a) ∧
      (stale₁ + u.size ≤ log.length ∨ ∃ p, a₁ ≤ p ∧ p < log.length ∧ isForAt log core p = true) := by
  have hsize := he.size_le
  have hpos := he.size_pos
  obtain ⟨hbehind, hahead⟩ := horder
  rcases lt_or_ge log.length (a + u.size) with hlt | hge
  · -- the ring has not overtaken the core
    have hpos' := behind_eq he h hstrict hlt
    refine ⟨a, stale, h, hlt.le, ?_, rfl, ?_⟩
    · have hle := h.le
      omega
    · rcases lt_or_ge log.length (stale + u.size) with hstale | hstale
      · right
        obtain ⟨k, hk, hk', hfor⟩ := hahead ⟨0, by have := h.stale_le; omega,
          (he.unread_iff h hpos).2 (Or.inr (by omega))⟩
        rw [he.isFor_eq hk] at hfor
        exact ⟨_, by omega, by omega, hfor⟩
      · exact Or.inl hstale
  · -- the core goes on at the entry that it has come to, as if it had passed what it missed
    obtain ⟨hoff, hmod⟩ := behind_overtaken he h hge
    obtain ⟨start, hstart⟩ : ∃ start, start = log.length - u.size + u.behind core := ⟨_, rfl⟩
    rw [← hstart] at hmod
    have hunread : ∀ k < u.size, u.unread core k = true := fun k hk => (he.unread_iff h hk).2 (Or.inl (by omega))
    have hnot : ∀ p, a ≤ p → p < start → isForAt log core p = false := by
      intro p ha hp
      rcases lt_or_ge (p + u.size) log.length with hlt | hge'
      · exact h.overwritten p ha hlt
      · have hk : p - (log.length - u.size) < u.behind core := by omega
        have hf := hbehind _ hk (hunread _ (by omega))
        rw [he.isFor_eq (by omega)] at hf
        rwa [Nat.add_sub_cancel' (by omega)] at hf
    refine ⟨start, start, ⟨by omega, le_rfl, h.tail.trans hmod.symm, fun p hp hle => ?_, fun p ha hlt => by omega,
      fun p hp hle hlt => ?_⟩, by omega, Or.inr (by omega), ?_, ?_⟩
    · rw [h.status p hp hle]
      omega
    · exact hnot p (by omega) hlt
    · exact valuesFor_skip (by omega) (by omega) hnot
    · rcases Nat.eq_zero_or_pos (u.behind core) with hzero | hbpos
      · left
        omega
      · right
        obtain ⟨k, hk, hk', hfor⟩ := hahead ⟨0, hbpos, hunread 0 hpos⟩
        rw [he.isFor_eq hk] at hfor
        exact ⟨_, by omega, by omega, hfor⟩

end Ring

end GvsocPulp.EventUnitV3
