import Mathlib

/-!
# Denied requests and their retries

Ports ask a server that may deny: a denied request is held by its port until the server retries the port, which then
asks again from inside the retry. The server works in rounds, and performs a request by accesses to resources.

- `Book`: who has asked what, who holds what, what has been retried and performed;
- `Book.Ok`: the retries, the answers and the accesses go together; one lemma for each way in which they change;
- `Book.Exclusive`: in each round a resource is accessed once, where what is accessed has been reserved before;
- `Book.rounds`: the rounds in which the requests of some of the ports have been performed.
-/

namespace GvsocPulp.Lib

open Function List Option

inductive Status
  | done
  | denied
  deriving DecidableEq, Repr

/-- An access that has been performed: the round, and the number of the request it is for. -/
structure Served (α : Type*) where
  round : Nat
  request : Nat
  access : α
  deriving DecidableEq, Repr

/-- The requests of the ports `ι`, by number. -/
structure Book (ι ρ α : Type*) where
  /-- The request that a port has been denied and holds. -/
  held : ι → Option Nat := fun _ => none
  issued : List (ι × ρ) := []
  round : Nat := 0
  /-- The port that is being retried and has not asked again yet. -/
  opened : Option ι := none
  /-- What each retried port held, with the round. -/
  retries : List (Nat × Option Nat) := []
  /-- The requests answered `done`, with the round. -/
  performed : List (Nat × Nat) := []
  accesses : List (Served α) := []

namespace Book

variable {ι ρ α β : Type*}

section Operations

variable (b : Book ι ρ α) (i : ι) (id : Nat)

/-- The answer to request `id` of a port, with the accesses if it is done. -/
def answered [DecidableEq ι] (status : Status) (accesses : List α) : Book ι ρ α :=
  match status with
  | .denied => { b with held := update b.held i (some id) }
  | .done =>
    { b with
      held := update b.held i none
      performed := b.performed ++ [(b.round, id)]
      accesses := b.accesses ++ accesses.map (⟨b.round, id, ·⟩) }

/-- A new request. -/
def ask (r : ρ) : Book ι ρ α := { b with issued := b.issued ++ [(i, r)] }

def retry : Book ι ρ α := { b with opened := some i, retries := b.retries ++ [(b.round, b.held i)] }

/-- The port that is retried asks again. -/
def close : Book ι ρ α := { b with opened := none }

def nextRound : Book ι ρ α := { b with round := b.round + 1 }

/-- The denied request that a port holds. -/
def heldReq : Option ρ := (b.held i).bind fun id => b.issued[id]?.map (·.2)

end Operations

/-- The accesses of request `id` in round `n`, where `full` are those of a whole request. -/
def served (full : ι → ρ → List α) (issued : List (ι × ρ)) (n id : Nat) : List (Served α) :=
  match issued[id]? with
  | some (i, r) => (full i r).map (⟨n, id, ·⟩)
  | none => []

/-- A request is held until it is performed, whole; the retried requests are performed in the round of their retry. -/
structure Ok (full : ι → ρ → List α) (b : Book ι ρ α) : Prop where
  held : ∀ i id, b.held i = some id → ∃ r, b.issued[id]? = some (i, r)
  left : ∀ id i r, b.issued[id]? = some (i, r) → (b.held i = some id ↔ id ∉ b.performed.map (·.2))
  nodup : (b.performed.map (·.2)).Nodup
  bounds : ∀ p ∈ b.performed, p.1 ≤ b.round ∧ p.2 < b.issued.length
  awaited : ∀ i, b.opened = some i → b.held i ≠ none ∧ (b.round, b.held i) ∈ b.retries
  /-- What is retried is held, and then performed in that round; only the open retry is left. -/
  retried : ∀ p ∈ b.retries, ∃ id, p.2 = some id ∧
    ((p.1, id) ∈ b.performed ∨ ∃ i, b.opened = some i ∧ b.held i = some id ∧ p.1 = b.round)
  retriedOnce : (b.retries.map (·.2)).Nodup
  accesses : b.accesses = b.performed.flatMap fun p => served full b.issued p.1 p.2

structure Exclusive (full : ι → ρ → List α) (resource : α → β) (used : β → Prop) (b : Book ι ρ α) : Prop where
  once : ∀ n, ((b.accesses.filter (·.round = n)).map (resource ·.access)).Nodup
  accessed : ∀ a ∈ b.accesses, a.round = b.round → used (resource a.access)
  /-- The resources of the request that is being retried are its own. -/
  reserved : ∀ i id r, b.opened = some i → b.held i = some id → b.issued[id]? = some (i, r) →
    ((full i r).map resource).Nodup ∧
      ∀ x ∈ (full i r).map resource, used x ∧ ∀ a ∈ b.accesses, a.round = b.round → resource a.access ≠ x

variable {full : ι → ρ → List α} {resource : α → β} {used used' : β → Prop} {b : Book ι ρ α} {i : ι} {r : ρ} {id : Nat}

variable {issued : List (ι × ρ)} {n : Nat} {as : List α}

theorem served_append (x : ι × ρ) (hid : id < issued.length) :
    served full (issued ++ [x]) n id = served full issued n id := by
  rw [served, served, getElem?_append_left hid]

theorem round_of_mem_served {a : Served α} (h : a ∈ served full issued n id) :
    a.round = n := by
  rw [served] at h
  split at h
  · obtain ⟨_, -, rfl⟩ := mem_map.1 h
    rfl
  · cases h

theorem heldReq_eq_some (hheld : b.held i = some id) (hreq : b.issued[id]? = some (i, r)) : b.heldReq i = some r := by
  rw [heldReq, hheld, bind_some, hreq]
  rfl

theorem heldReq_done [DecidableEq ι] : (b.answered i id .done as).heldReq = update b.heldReq i none := by
  funext i'
  change (update b.held i none i').bind (fun id => b.issued[id]?.map (·.2)) = _
  rw [update_apply, update_apply]
  split <;> rfl

/-! ## Bookkeeping -/

namespace Ok

section

variable (h : Ok full b)
include h

theorem of_heldReq (hheld : b.heldReq i = some r) :
    ∃ id, b.held i = some id ∧ b.issued[id]? = some (i, r) := by
  rw [heldReq, bind_eq_some_iff] at hheld
  obtain ⟨id, hid, hreq⟩ := hheld
  obtain ⟨r', hr'⟩ := h.held i id hid
  rw [hr'] at hreq
  cases hreq
  exact ⟨id, hid, hr'⟩

theorem heldReq_eq_none : b.heldReq i = none ↔ b.held i = none := by
  constructor
  · intro hnone
    cases hheld : b.held i with
    | none => rfl
    | some id =>
      obtain ⟨r, hr⟩ := h.held i id hheld
      rw [heldReq_eq_some hheld hr] at hnone
      cases hnone
  · intro hnone
    rw [heldReq, hnone]
    rfl

theorem getElem?_ask {i' : ι} (hheld : b.held i' = some id) (x : ι × ρ) :
    (b.issued ++ [x])[id]? = b.issued[id]? := by
  obtain ⟨r', hr'⟩ := h.held i' id hheld
  exact getElem?_append_left (List.getElem?_eq_some_iff.1 hr').1

theorem not_mem_performed : b.issued.length ∉ b.performed.map (·.2) := by
  intro hmem
  obtain ⟨p, hp, heq⟩ := mem_map.1 hmem
  have hlt := (h.bounds p hp).2
  omega

theorem accesses_ask (x : ι × ρ) :
    b.accesses = b.performed.flatMap fun p => served full (b.issued ++ [x]) p.1 p.2 := by
  rw [h.accesses]
  exact congrArg List.flatten (map_congr_left fun p hp => (served_append _ (h.bounds p hp).2).symm)

/-- A port that holds a request is retried. -/
theorem retry (hopened : b.opened = none) (hheld : b.held i = some id) : Ok full (b.retry i) := by
  obtain ⟨r, hr⟩ := h.held i id hheld
  refine ⟨h.held, h.left, h.nodup, h.bounds, fun i' hi' => ?_, fun p hp => ?_, ?_, h.accesses⟩
  · cases hi'
    exact ⟨hheld ▸ nofun, mem_append_right _ (mem_singleton.2 rfl)⟩
  · rcases mem_append.1 hp with hp | hp
    · obtain ⟨id', hid', hp | ⟨i', hi', -⟩⟩ := h.retried p hp
      · exact ⟨id', hid', .inl hp⟩
      · rw [hopened] at hi'
        cases hi'
    · cases mem_singleton.1 hp
      exact ⟨id, hheld, .inr ⟨i, rfl, hheld, rfl⟩⟩
  · change ((b.retries ++ [(b.round, b.held i)]).map (·.2)).Nodup
    rw [map_append, map_singleton, ← concat_eq_append]
    refine h.retriedOnce.concat fun hmem => ?_
    obtain ⟨p, hp, heq⟩ := mem_map.1 hmem
    obtain ⟨id', hid', hp | ⟨i', hi', -⟩⟩ := h.retried p hp
    · have hid : id' = id := some.inj (hid'.symm.trans (heq.trans hheld))
      subst hid
      exact (h.left _ i r hr).1 hheld (mem_map_of_mem hp)
    · rw [hopened] at hi'
      cases hi'

theorem nextRound (hopened : b.opened = none) : Ok full b.nextRound := by
  refine { h with bounds := fun p hp => ⟨Nat.le_succ_of_le (h.bounds p hp).1, (h.bounds p hp).2⟩, awaited :=
    fun i hi => ?_, retried := fun p hp => ?_ }
  · rw [show b.nextRound.opened = b.opened from rfl, hopened] at hi
    cases hi
  obtain ⟨id', hid', hp | ⟨i', hi', -⟩⟩ := h.retried p hp
  · exact ⟨id', hid', .inl hp⟩
  · rw [hopened] at hi'
    cases hi'

end

variable [DecidableEq ι]

variable (h : Ok full b)
include h

theorem heldReq_deny :
    ((b.ask i r).answered i b.issued.length .denied []).heldReq = update b.heldReq i (some r) := by
  funext i'
  change (update b.held i (some b.issued.length) i').bind (fun id => (b.issued ++ [(i, r)])[id]?.map (·.2)) = _
  by_cases heq : i' = i
  · subst heq
    simp
  · rw [update_of_ne heq, update_of_ne heq, heldReq]
    cases hheld : b.held i' with
    | none => rfl
    | some id => rw [bind_some, bind_some, h.getElem?_ask hheld]

/-- A request that is asked and performed at once is not held. -/
theorem heldReq_direct :
    ((b.ask i r).answered i b.issued.length .done as).heldReq = update b.heldReq i none := by
  funext i'
  change (update b.held i none i').bind (fun id => (b.issued ++ [(i, r)])[id]?.map (·.2)) = _
  by_cases heq : i' = i
  · subst heq
    simp
  · rw [update_of_ne heq, update_of_ne heq, heldReq]
    cases hheld : b.held i' with
    | none => rfl
    | some id => rw [bind_some, bind_some, h.getElem?_ask hheld]

/-- A port that holds nothing is denied a request. -/
theorem deny (hnone : b.held i = none) :
    Ok full ((b.ask i r).answered i b.issued.length .denied []) := by
  have hne : ∀ i', b.held i' ≠ none → i' ≠ i := by
    rintro i' hi' rfl
    exact hi' hnone
  have hlast : (b.issued ++ [(i, r)])[b.issued.length]? = some (i, r) := by simp
  refine ⟨fun i' id' hheld => ?_, fun id' i' r' hr' => ?_, h.nodup, fun p hp => ?_, fun i' hi' => ?_, fun p hp => ?_,
    h.retriedOnce, h.accesses_ask _⟩
  · change update b.held i (some b.issued.length) i' = some id' at hheld
    change ∃ r', (b.issued ++ [(i, r)])[id']? = some (i', r')
    by_cases heq : i' = i
    · subst heq
      rw [update_self, some.injEq] at hheld
      exact ⟨r, hheld ▸ hlast⟩
    · rw [update_of_ne heq] at hheld
      obtain ⟨r', hr'⟩ := h.held i' id' hheld
      exact ⟨r', (h.getElem?_ask hheld _).trans hr'⟩
  · change (b.issued ++ [(i, r)])[id']? = some (i', r') at hr'
    change update b.held i (some b.issued.length) i' = some id' ↔ id' ∉ b.performed.map (·.2)
    rcases lt_trichotomy id' b.issued.length with hlt | rfl | hgt
    · rw [getElem?_append_left hlt] at hr'
      rw [← h.left id' i' r' hr']
      by_cases heq : i' = i
      · subst heq
        rw [update_self, hnone, some.injEq]
        exact iff_of_false (by omega) nofun
      · rw [update_of_ne heq]
    · rw [hlast, some.injEq, Prod.mk.injEq] at hr'
      rw [hr'.1, update_self]
      exact iff_of_true rfl h.not_mem_performed
    · rw [getElem?_eq_none (by simp; omega)] at hr'
      cases hr'
  · have hp := h.bounds p hp
    refine ⟨hp.1, ?_⟩
    change p.2 < (b.issued ++ [(i, r)]).length
    rw [length_append, length_singleton]
    omega
  · change update b.held i (some b.issued.length) i' ≠ none ∧
      (b.round, update b.held i (some b.issued.length) i') ∈ b.retries
    rw [update_of_ne (hne i' (h.awaited i' hi').1)]
    exact h.awaited i' hi'
  · obtain ⟨id', hid', hp | ⟨i', hi', hheld, hround⟩⟩ := h.retried p hp
    · exact ⟨id', hid', .inl hp⟩
    · refine ⟨id', hid', .inr ⟨i', hi', ?_, hround⟩⟩
      change update b.held i (some b.issued.length) i' = some id'
      rwa [update_of_ne (hne i' (h.awaited i' hi').1)]

/-- A port that holds nothing asks, and the request is performed at once. -/
theorem direct (hnone : b.held i = none) :
    Ok full ((b.ask i r).answered i b.issued.length .done (full i r)) := by
  have hlast : (b.issued ++ [(i, r)])[b.issued.length]? = some (i, r) := by simp
  have hheld' : update b.held i none = b.held := update_eq_self_iff.2 hnone.symm
  refine ⟨fun i' id' hheld => ?_, fun id' i' r' hr' => ?_, ?_, fun p hp => ?_, fun i' hi' => ?_, fun p hp => ?_,
    h.retriedOnce, ?_⟩
  · change update b.held i none i' = some id' at hheld
    rw [hheld'] at hheld
    obtain ⟨r', hr'⟩ := h.held i' id' hheld
    exact ⟨r', (h.getElem?_ask hheld _).trans hr'⟩
  · change (b.issued ++ [(i, r)])[id']? = some (i', r') at hr'
    change update b.held i none i' = some id' ↔ id' ∉ (b.performed ++ [(b.round, b.issued.length)]).map (·.2)
    rw [hheld', map_append, map_singleton, mem_append, mem_singleton, not_or]
    rcases lt_trichotomy id' b.issued.length with hlt | rfl | hgt
    · rw [getElem?_append_left hlt] at hr'
      rw [h.left id' i' r' hr']
      exact ⟨fun h => ⟨h, by omega⟩, fun h => h.1⟩
    · rw [hlast, some.injEq, Prod.mk.injEq] at hr'
      rw [← hr'.1, hnone]
      exact iff_of_false nofun fun h => h.2 rfl
    · rw [getElem?_eq_none (by simp; omega)] at hr'
      cases hr'
  · change ((b.performed ++ [(b.round, b.issued.length)]).map (·.2)).Nodup
    rw [map_append, map_singleton, ← concat_eq_append]
    exact h.nodup.concat h.not_mem_performed
  · change p.1 ≤ b.round ∧ p.2 < (b.issued ++ [(i, r)]).length
    rw [length_append, length_singleton]
    rcases mem_append.1 hp with hp | hp
    · have hp := h.bounds p hp
      omega
    · cases mem_singleton.1 hp
      exact ⟨le_rfl, Nat.lt_succ_self _⟩
  · change update b.held i none i' ≠ none ∧ (b.round, update b.held i none i') ∈ b.retries
    rw [hheld']
    exact h.awaited i' hi'
  · obtain ⟨id', hid', hp | ⟨i', hi', hheld, hround⟩⟩ := h.retried p hp
    · exact ⟨id', hid', .inl (mem_append_left _ hp)⟩
    · refine ⟨id', hid', .inr ⟨i', hi', ?_, hround⟩⟩
      change update b.held i none i' = some id'
      rwa [hheld']
  · change b.accesses ++ (full i r).map (⟨b.round, b.issued.length, ·⟩) =
      (b.performed ++ [(b.round, b.issued.length)]).flatMap fun p => served full (b.issued ++ [(i, r)]) p.1 p.2
    rw [flatMap_append, ← h.accesses_ask]
    simp [served]

/-- The port that is being retried asks again, and its request is performed. -/
theorem serve (hopened : b.opened = some i) (hheld : b.held i = some id)
    (hr : b.issued[id]? = some (i, r)) : Ok full (b.close.answered i id .done (full i r)) := by
  have hid : id ∉ b.performed.map (·.2) := (h.left id i r hr).1 hheld
  refine ⟨fun i' id' hheld' => ?_, fun id' i' r' hr' => ?_, ?_, fun p hp => ?_, nofun, fun p hp => ?_,
    h.retriedOnce, ?_⟩
  · change update b.held i none i' = some id' at hheld'
    rw [update_apply] at hheld'
    split at hheld'
    · cases hheld'
    · exact h.held i' id' hheld'
  · change update b.held i none i' = some id' ↔ id' ∉ (b.performed ++ [(b.round, id)]).map (·.2)
    have hleft := h.left id' i' r' hr'
    rw [map_append, map_singleton, mem_append, mem_singleton, not_or, ← hleft, update_apply]
    split
    case isTrue heq =>
      subst heq
      refine iff_of_false nofun fun hboth => hboth.2 ?_
      exact some.inj (hboth.1.symm.trans hheld)
    case isFalse hne =>
      refine ⟨fun hheld' => ⟨hheld', ?_⟩, fun hboth => hboth.1⟩
      rintro rfl
      exact hne (Prod.mk.inj (some.inj (hr'.symm.trans hr))).1
  · change ((b.performed ++ [(b.round, id)]).map (·.2)).Nodup
    rw [map_append, map_singleton, ← concat_eq_append]
    exact h.nodup.concat hid
  · rcases mem_append.1 hp with hp | hp
    · exact h.bounds p hp
    · cases mem_singleton.1 hp
      exact ⟨le_rfl, (List.getElem?_eq_some_iff.1 hr).1⟩
  · obtain ⟨id', hid', hp | ⟨i', hi', hheld', hround⟩⟩ := h.retried p hp
    · exact ⟨id', hid', .inl (mem_append_left _ hp)⟩
    · cases hopened.symm.trans hi'
      refine ⟨id', hid', .inl (mem_append_right _ (mem_singleton.2 ?_))⟩
      exact Prod.ext hround (some.inj (hheld'.symm.trans hheld))
  · change b.accesses ++ (full i r).map (⟨b.round, id, ·⟩) =
      (b.performed ++ [(b.round, id)]).flatMap fun p => served full b.issued p.1 p.2
    rw [flatMap_append, ← h.accesses]
    simp [served, hr]

end Ok

/-! ## The rounds of some ports -/

def rounds (P : ι → Bool) (b : Book ι ρ α) : List Nat :=
  (b.performed.filter fun p => b.issued[p.2]?.any (P ·.1)).map (·.1)

section Rounds

variable {P : ι → Bool}

namespace Ok

theorem le_of_mem_rounds (h : Ok full b) (hn : n ∈ b.rounds P) : n ≤ b.round := by
  obtain ⟨p, hp, rfl⟩ := mem_map.1 hn
  exact (h.bounds p (mem_filter.1 hp).1).1

/-- A new request does not change what the others are. -/
theorem rounds_ask (h : Ok full b) (x : ι × ρ) :
    (b.performed.filter fun p => (b.issued ++ [x])[p.2]?.any (P ·.1)).map (·.1) = b.rounds P := by
  rw [rounds]
  refine congrArg (List.map _) (filter_congr fun p hp => ?_)
  rw [getElem?_append_left (h.bounds p hp).2]

variable [DecidableEq ι]

theorem rounds_deny (h : Ok full b) : ((b.ask i r).answered i b.issued.length .denied []).rounds P = b.rounds P :=
  h.rounds_ask (i, r)

theorem rounds_direct (h : Ok full b) (i : ι) (r : ρ) (as : List α) :
    ((b.ask i r).answered i b.issued.length .done as).rounds P = b.rounds P ++ if P i then [b.round] else [] := by
  have hlast : (b.issued ++ [(i, r)])[b.issued.length]? = some (i, r) := by simp
  rw [← h.rounds_ask (i, r)]
  change ((b.performed ++ [(b.round, b.issued.length)]).filter fun p => (b.issued ++ [(i, r)])[p.2]?.any (P ·.1)).map
    (·.1) = _
  rw [filter_append, map_append]
  congr 1
  rw [filter_singleton, hlast, any_some]
  cases P i <;> rfl

end Ok

theorem rounds_serve [DecidableEq ι] (hr : b.issued[id]? = some (i, r)) (as : List α) :
    (b.close.answered i id .done as).rounds P = b.rounds P ++ if P i then [b.round] else [] := by
  change ((b.performed ++ [(b.round, id)]).filter fun p => b.issued[p.2]?.any (P ·.1)).map (·.1) = _
  rw [filter_append, map_append, rounds]
  congr 1
  rw [filter_singleton, hr, any_some]
  cases P i <;> rfl

end Rounds

/-! ## Exclusive accesses -/

namespace Exclusive

section

variable (h : Exclusive full resource used b)
include h

theorem mono (hused : ∀ x, used x → used' x) :
    Exclusive full resource used' b where
  once := h.once
  accessed a ha hn := hused _ (h.accessed a ha hn)
  reserved i id r hi hheld hr := by
    obtain ⟨hnodup, hfree⟩ := h.reserved i id r hi hheld hr
    exact ⟨hnodup, fun x hx => ⟨hused x (hfree x hx).1, (hfree x hx).2⟩⟩

theorem once_append (has : (as.map resource).Nodup)
    (hfree : ∀ x ∈ as.map resource, ∀ a ∈ b.accesses, a.round = b.round → resource a.access ≠ x) (req n : Nat) :
    (((b.accesses ++ as.map (Served.mk b.round req)).filter (·.round = n)).map (resource ·.access)).Nodup := by
  rw [filter_append, map_append]
  have hone : ((as.map (Served.mk b.round req)).filter (·.round = n)).map (resource ·.access) =
      if n = b.round then as.map resource else [] := by
    rw [List.filter_map, List.map_map]
    split
    case isTrue heq =>
      subst heq
      rw [filter_eq_self.2 fun _ _ => by simp]
      rfl
    case isFalse hne =>
      rw [filter_eq_nil_iff.2 fun _ _ => by simpa using fun heq => hne heq.symm]
      rfl
  rw [hone]
  split
  case isTrue heq =>
    subst heq
    refine Nodup.append (h.once _) has fun x hx hx' => ?_
    obtain ⟨a, ha, rfl⟩ := mem_map.1 hx
    rw [mem_filter, decide_eq_true_eq] at ha
    exact hfree _ hx' a ha.1 ha.2 rfl
  case isFalse => simpa using h.once n

/-- A port is retried once the resources of its request, which nobody used, are reserved. -/
theorem retry (hheld : b.held i = some id) (hr : b.issued[id]? = some (i, r))
    (hnodup : ((full i r).map resource).Nodup) (hfree : ∀ x ∈ (full i r).map resource, ¬used x)
    (hused : ∀ x, used x ∨ x ∈ (full i r).map resource → used' x) : Exclusive full resource used' (b.retry i) where
  once := h.once
  accessed a ha hn := hused _ (.inl (h.accessed a ha hn))
  reserved i' id' r' hi' hheld' hr' := by
    cases hi'
    cases hheld'.symm.trans hheld
    cases hr'.symm.trans hr
    exact ⟨hnodup, fun x hx => ⟨hused x (.inr hx), fun a ha hn heq => hfree x hx (heq ▸ h.accessed a ha hn)⟩⟩

theorem nextRound (hb : Ok full b) (hopened : b.opened = none) :
    Exclusive full resource used' b.nextRound := by
  refine ⟨h.once, fun a ha hn => ?_, fun i id r hi => ?_⟩
  · rw [show b.nextRound.accesses = b.accesses from rfl, hb.accesses, mem_flatMap] at ha
    obtain ⟨p, hp, ha⟩ := ha
    have hle := (hb.bounds p hp).1
    rw [round_of_mem_served ha, show b.nextRound.round = b.round + 1 from rfl] at hn
    omega
  · rw [show b.nextRound.opened = b.opened from rfl, hopened] at hi
    cases hi

end

variable [DecidableEq ι]

variable (h : Exclusive full resource used b)
include h

theorem deny (hb : Ok full b) (hnone : b.held i = none) :
    Exclusive full resource used ((b.ask i r).answered i b.issued.length .denied []) where
  once := h.once
  accessed := h.accessed
  reserved i' id' r' hi' hheld hr' := by
    have hne : i' ≠ i := by
      rintro rfl
      exact (hb.awaited i' hi').1 hnone
    change update b.held i (some b.issued.length) i' = some id' at hheld
    rw [update_of_ne hne] at hheld
    exact h.reserved i' id' r' hi' hheld ((hb.getElem?_ask hheld _).symm.trans hr')

/-- A request is performed at once on resources that nobody uses in this round. -/
theorem direct (hb : Ok full b) (hnone : b.held i = none)
    (hnodup : ((full i r).map resource).Nodup) (hfree : ∀ x ∈ (full i r).map resource, ¬used x)
    (hused : ∀ x, used x ∨ x ∈ (full i r).map resource → used' x) :
    Exclusive full resource used' ((b.ask i r).answered i b.issued.length .done (full i r)) where
  once := h.once_append hnodup (fun x hx a ha hn heq => hfree x hx (heq ▸ h.accessed a ha hn)) _
  accessed a ha hn := by
    rcases mem_append.1 ha with ha | ha
    · exact hused _ (.inl (h.accessed a ha hn))
    · obtain ⟨access, hmem, rfl⟩ := mem_map.1 ha
      exact hused _ (.inr (mem_map_of_mem hmem))
  reserved i' id' r' hi' hheld hr' := by
    have hheld' : b.held i' = some id' := by
      rw [← hheld]
      exact (congrFun (update_eq_self_iff.2 hnone.symm) i').symm
    obtain ⟨hnodup', hfree'⟩ := h.reserved i' id' r' hi' hheld' ((hb.getElem?_ask hheld' _).symm.trans hr')
    refine ⟨hnodup', fun x hx => ⟨hused x (.inl (hfree' x hx).1), fun a ha hn heq => ?_⟩⟩
    rcases mem_append.1 ha with ha | ha
    · exact (hfree' x hx).2 a ha hn heq
    · obtain ⟨access, hmem, rfl⟩ := mem_map.1 ha
      exact hfree _ (mem_map_of_mem hmem) (heq ▸ (hfree' x hx).1)

/-- **The port that is being retried has its request performed.** -/
theorem serve (hopened : b.opened = some i) (hheld : b.held i = some id)
    (hr : b.issued[id]? = some (i, r)) : Exclusive full resource used (b.close.answered i id .done (full i r)) := by
  obtain ⟨hnodup, hfree⟩ := h.reserved i id r hopened hheld hr
  refine ⟨h.once_append hnodup (fun x hx => (hfree x hx).2) _, fun a ha hn => ?_, nofun⟩
  rcases mem_append.1 ha with ha | ha
  · exact h.accessed a ha hn
  · obtain ⟨access, hmem, rfl⟩ := mem_map.1 ha
    exact (hfree _ (mem_map_of_mem hmem)).1

end Exclusive

end Book

end GvsocPulp.Lib
