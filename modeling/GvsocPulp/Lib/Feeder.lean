import Mathlib

/-!
# Jobs that are given out in pieces

A feeder holds a queue of numbered jobs. It gives the pieces of the first one out, one at a time, and goes on to the
next; the pieces come back in any order. It counts for each job the pieces that are out, and acknowledges the job when
its last piece comes back.

- `Cutter`, `CutsInto`: how a job is cut, with a cursor, and the pieces from a cursor on;
- `Feeder`: `enqueue`, `load`, `offer`, `feed`, `back`;
- `Feeder.Ok`, with one lemma for each operation; `Feeder.Ok.acked_iff`: what is acknowledged is what is given out and
  back.
-/

namespace GvsocPulp.Lib

open Function List

/-- How a job is cut. `next` is `none` at the last piece. -/
structure Cutter (τ γ β : Type*) where
  start : τ → γ
  piece : τ → γ → β
  next : τ → γ → Option γ

section CutsInto

variable {τ γ β : Type*} (cut : Cutter τ γ β)

inductive CutsInto (t : τ) : γ → List β → Prop
  | last {c : γ} (h : cut.next t c = none) : CutsInto t c [cut.piece t c]
  | cons {c c' : γ} {ps : List β} (h : cut.next t c = some c') (hw : CutsInto t c' ps) :
      CutsInto t c (cut.piece t c :: ps)

/-- The cursor `c'` comes from `c` after these pieces. -/
inductive Reaches (t : τ) (c : γ) : List β → γ → Prop
  | refl : Reaches t c [] c
  | tail {c₁ c₂ : γ} {ps : List β} (h : Reaches t c ps c₁) (hn : cut.next t c₁ = some c₂) :
      Reaches t c (ps ++ [cut.piece t c₁]) c₂

variable {cut} {t : τ} {c c' : γ} {ps ps' : List β}

theorem CutsInto.ne_nil (h : CutsInto cut t c ps) : ps ≠ [] := by cases h <;> nofun

theorem CutsInto.unique (h : CutsInto cut t c ps) : ∀ {ps' : List β}, CutsInto cut t c ps' → ps = ps' := by
  induction h with
  | last h =>
    intro ps' h'
    cases h' with
    | last => rfl
    | cons hn => rw [h] at hn; cases hn
  | cons h _ ih =>
    intro ps' h'
    cases h' with
    | last hn => rw [h] at hn; cases hn
    | cons hn hw =>
      rw [h] at hn
      cases hn
      rw [ih hw]

theorem Reaches.cutsInto (h : Reaches cut t c ps c') : ∀ {ps' : List β}, CutsInto cut t c' ps' →
    CutsInto cut t c (ps ++ ps') := by
  induction h with
  | refl => exact fun h' => h'
  | tail _ hn ih =>
    intro ps' h'
    rw [append_assoc]
    exact ih (.cons hn h')

/-- What a cursor has behind it is not the whole job. -/
theorem Reaches.left (h : Reaches cut t c ps c') : ∀ {ps' : List β}, CutsInto cut t c ps' → ∃ rest, ps' = ps ++ rest ∧
    CutsInto cut t c' rest := by
  induction h with
  | refl => exact fun h' => ⟨_, rfl, h'⟩
  | tail _ hn ih =>
    intro ps' h'
    obtain ⟨rest, rfl, hrest⟩ := ih h'
    cases hrest with
    | last hlast =>
      rw [hn] at hlast
      cases hlast
    | cons hn' hw =>
      rw [hn] at hn'
      cases hn'
      exact ⟨_, by rw [append_assoc]; rfl, hw⟩

theorem Reaches.not_cutsInto (h : Reaches cut t c ps c') : ¬ CutsInto cut t c ps := by
  intro hw
  obtain ⟨rest, heq, hrest⟩ := h.left hw
  exact hrest.ne_nil (self_eq_append_right.1 heq)

end CutsInto

structure Feeder (τ γ β : Type*) where
  queue : List (Nat × τ) := []
  /-- The cursor of the first job, once it has been loaded. -/
  current : Option γ := none
  nbOut : Nat → Nat := fun _ => 0
  allOut : Nat → Bool := fun _ => false
  /-- All jobs that have been enqueued. -/
  entered : List (Nat × τ) := []
  given : Nat → List β := fun _ => []
  /-- The jobs of the pieces that are out. -/
  flight : List Nat := []
  acked : List Nat := []

namespace Feeder

variable {τ γ β : Type*} (cut : Cutter τ γ β) (s : Feeder τ γ β)

def enqueue (n : Nat) (t : τ) : Feeder τ γ β :=
  { s with
    queue := s.queue ++ [(n, t)]
    nbOut := update s.nbOut n 0
    allOut := update s.allOut n false
    entered := s.entered ++ [(n, t)] }

/-- The first job is loaded. -/
def load : Feeder τ γ β :=
  match s.queue, s.current with
  | (_, t) :: _, none => { s with current := some (cut.start t) }
  | _, _ => s

/-- One piece of the loaded job goes out. -/
def feed : Feeder τ γ β :=
  match s.queue, s.current with
  | (n, t) :: rest, some c =>
    let s := { s with
      nbOut := update s.nbOut n (s.nbOut n + 1)
      given := update s.given n (s.given n ++ [cut.piece t c])
      flight := s.flight ++ [n] }
    match cut.next t c with
    | none => { s with allOut := update s.allOut n true, current := none, queue := rest }
    | some c' => { s with current := some c' }
  | _, _ => s

/-- The piece that goes out next, with its job. -/
def offer : Option (Nat × β) :=
  match s.queue, s.current with
  | (n, t) :: _, some c => some (n, cut.piece t c)
  | _, _ => none

/-- The piece that goes out next is the last one of its job. -/
def atLast : Bool :=
  match s.queue, s.current with
  | (_, t) :: _, some c => (cut.next t c).isNone
  | _, _ => false

/-- The piece that comes back is the last one of its job. -/
def finishes (n : Nat) : Bool := s.allOut n && s.nbOut n - 1 = 0

/-- A piece of a job comes back. -/
def back (n : Nat) : Feeder τ γ β :=
  { s with
    nbOut := update s.nbOut n (s.nbOut n - 1)
    flight := s.flight.erase n
    acked := if s.finishes n then s.acked ++ [n] else s.acked }

/-- All pieces of a job have been given out and are back. -/
def Complete (n : Nat) : Prop := ∃ t, (n, t) ∈ s.entered ∧ CutsInto cut t (cut.start t) (s.given n) ∧ n ∉ s.flight

@[simp] theorem load_queue : (s.load cut).queue = s.queue := by
  unfold load
  split <;> rfl

@[simp] theorem load_entered : (s.load cut).entered = s.entered := by
  unfold load
  split <;> rfl

@[simp] theorem load_acked : (s.load cut).acked = s.acked := by
  unfold load
  split <;> rfl

@[simp] theorem load_flight : (s.load cut).flight = s.flight := by
  unfold load
  split <;> rfl

@[simp] theorem load_given : (s.load cut).given = s.given := by
  unfold load
  split <;> rfl

@[simp] theorem feed_entered : (s.feed cut).entered = s.entered := by
  unfold feed
  split
  · split <;> rfl
  · rfl

@[simp] theorem feed_acked : (s.feed cut).acked = s.acked := by
  unfold feed
  split
  · split <;> rfl
  · rfl

/-- The job leaves the queue with its last piece. -/
theorem feed_queue : (s.feed cut).queue = if s.atLast cut then s.queue.tail else s.queue := by
  unfold feed atLast
  split
  case h_1 n t rest c hqueue hcurrent =>
    split
    case h_1 hnext => simp only [hnext, hqueue, Option.isNone_none, if_true, tail_cons]
    case h_2 c' hnext => simp [hnext]
  case h_2 => rfl

section Offer

variable {cut s} {n : Nat} {p : β}

variable (h : s.offer cut = some (n, p))
include h

theorem offer_eq_some : ∃ t rest c, s.queue = (n, t) :: rest ∧ s.current = some c ∧ p = cut.piece t c := by
  unfold offer at h
  split at h
  case h_1 m t rest c hqueue hcurrent =>
    cases h
    exact ⟨t, rest, c, hqueue, hcurrent, rfl⟩
  case h_2 => cases h

theorem feed_given : (s.feed cut).given = update s.given n (s.given n ++ [p]) := by
  obtain ⟨t, rest, c, hqueue, hcurrent, rfl⟩ := offer_eq_some h
  unfold feed
  rw [hqueue, hcurrent]
  dsimp only
  split <;> rfl

theorem feed_flight : (s.feed cut).flight = s.flight ++ [n] := by
  obtain ⟨t, rest, c, hqueue, hcurrent, rfl⟩ := offer_eq_some h
  unfold feed
  rw [hqueue, hcurrent]
  dsimp only
  split <;> rfl

end Offer

variable {cut s} in
theorem queue_ne_nil_of_atLast (h : s.atLast cut = true) : s.queue ≠ [] := by
  unfold atLast at h
  split at h
  case h_1 n t rest c hqueue hcurrent =>
    rw [hqueue]
    exact cons_ne_nil _ _
  case h_2 => cases h

variable {cut s} in
theorem feed_flight_of_atLast (h : s.atLast cut = true) : ∃ n, n ∈ (s.feed cut).flight := by
  unfold atLast at h
  unfold feed
  split at h
  case h_1 n t rest c hqueue hcurrent =>
    refine ⟨n, ?_⟩
    split <;> exact mem_append_right _ (mem_singleton_self n)
  case h_2 => cases h

/-- The jobs whose pieces have all been given out are in front of the queue. -/
structure Ok (gone : List (Nat × τ)) : Prop where
  entered : s.entered = gone ++ s.queue
  nodup : (s.entered.map (·.1)).Nodup
  given : ∀ p ∈ gone, CutsInto cut p.2 (cut.start p.2) (s.given p.1) ∧ s.allOut p.1 = true
  queued : ∀ p ∈ s.queue, s.allOut p.1 = false
  current : ∀ c, s.current = some c → ∃ n t rest, s.queue = (n, t) :: rest ∧ (∀ p ∈ rest, s.given p.1 = []) ∧
    Reaches cut t (cut.start t) (s.given n) c
  idle : s.current = none → ∀ p ∈ s.queue, s.given p.1 = []
  fresh : ∀ n, n ∉ s.entered.map (·.1) → s.given n = [] ∧ s.allOut n = false
  flight : ∀ n ∈ s.flight, n ∈ s.entered.map (·.1)
  count : ∀ n, s.nbOut n = s.flight.count n
  acked : ∀ n, n ∈ s.acked ↔ n ∈ gone.map (·.1) ∧ n ∉ s.flight
  once : s.acked.Nodup

namespace Ok

variable {cut : Cutter τ γ β} {s : Feeder τ γ β} {gone : List (Nat × τ)} {n : Nat} {t : τ}

theorem initial : Ok cut ({} : Feeder τ γ β) [] where
  entered := rfl
  nodup := nodup_nil
  given := nofun
  queued := nofun
  current := nofun
  idle := nofun
  fresh _ _ := ⟨rfl, rfl⟩
  flight := nofun
  count _ := rfl
  acked _ := ⟨nofun, fun h => nomatch h.1⟩
  once := nodup_nil

variable (h : Ok cut s gone)
include h

theorem enqueue (hn : n ∉ s.entered.map (·.1)) : Ok cut (s.enqueue n t) gone := by
  have hne : ∀ p ∈ s.entered, p.1 ≠ n := fun p hp heq => hn (heq ▸ mem_map_of_mem hp)
  have hqueue : ∀ p ∈ s.queue, p.1 ≠ n := fun p hp => hne p (h.entered ▸ mem_append_right _ hp)
  have hflight : n ∉ s.flight := fun hf => hn (h.flight n hf)
  refine ⟨?_, ?_, fun p hp => ?_, fun p hp => ?_, fun c hc => ?_, fun hc p hp => ?_, fun m hm => ?_,
    fun m hm => ?_, fun m => ?_, h.acked, h.once⟩
  · show s.entered ++ [(n, t)] = gone ++ (s.queue ++ [(n, t)])
    rw [h.entered, append_assoc]
  · show ((s.entered ++ [(n, t)]).map (·.1)).Nodup
    rw [map_append, map_singleton, ← concat_eq_append]
    exact h.nodup.concat hn
  · refine ⟨(h.given p hp).1, ?_⟩
    show update s.allOut n false p.1 = true
    rw [update_of_ne (hne p (h.entered ▸ mem_append_left _ hp))]
    exact (h.given p hp).2
  · show update s.allOut n false p.1 = false
    rcases mem_append.1 hp with hp | hp
    · rw [update_of_ne (hqueue p hp)]
      exact h.queued p hp
    · obtain rfl := mem_singleton.1 hp
      exact update_self ..
  · obtain ⟨m, u, rest, hqueue', hrest, hwalk⟩ := h.current c hc
    refine ⟨m, u, rest ++ [(n, t)], ?_, fun p hp => ?_, hwalk⟩
    · show s.queue ++ [(n, t)] = _
      rw [hqueue']
      rfl
    · rcases mem_append.1 hp with hp | hp
      · exact hrest p hp
      · obtain rfl := mem_singleton.1 hp
        exact (h.fresh n hn).1
  · rcases mem_append.1 hp with hp | hp
    · exact h.idle hc p hp
    · obtain rfl := mem_singleton.1 hp
      exact (h.fresh n hn).1
  · have hm' : m ∉ s.entered.map (·.1) := fun hmem => hm (by
      show m ∈ (s.entered ++ [(n, t)]).map (·.1)
      rw [map_append]
      exact mem_append_left _ hmem)
    refine ⟨(h.fresh m hm').1, ?_⟩
    show update s.allOut n false m = false
    rw [update_apply]
    split
    · rfl
    · exact (h.fresh m hm').2
  · show m ∈ (s.entered ++ [(n, t)]).map (·.1)
    rw [map_append]
    exact mem_append_left _ (h.flight m hm)
  · show update s.nbOut n 0 m = s.flight.count m
    rw [update_apply]
    split
    case isTrue heq =>
      rw [heq, List.count_eq_zero.2 hflight]
    case isFalse => exact h.count m

theorem load : Ok cut (s.load cut) gone := by
  unfold Feeder.load
  split
  case h_1 n t rest hqueue hnone =>
    refine { h with current := fun c hc => ?_, idle := nofun }
    cases hc
    have hgiven : ∀ p ∈ s.queue, s.given p.1 = [] := h.idle hnone
    rw [hqueue] at hgiven
    refine ⟨n, t, rest, hqueue, fun p hp => hgiven p (mem_cons_of_mem _ hp), ?_⟩
    rw [hgiven (n, t) mem_cons_self]
    exact .refl
  case h_2 => exact h

theorem names_disjoint {p q : Nat × τ} (hp : p ∈ gone) (hq : q ∈ s.queue) : p.1 ≠ q.1 := by
  have hnodup := h.nodup
  rw [h.entered, map_append, nodup_append] at hnodup
  exact hnodup.2.2 p.1 (mem_map_of_mem hp) q.1 (mem_map_of_mem hq)

/-- A piece of the loaded job goes out. With the last one, the job has left the queue. -/
theorem feed : ∃ away, Ok cut (s.feed cut) (gone ++ away) ∧ (away ≠ [] ↔ s.atLast cut = true) := by
  unfold Feeder.feed Feeder.atLast
  split
  case h_2 hnot =>
    refine ⟨[], by rwa [append_nil], iff_of_false (fun hne => hne rfl) ?_⟩
    exact Bool.false_ne_true
  case h_1 n t rest c hqueue hcurrent =>
    obtain ⟨n', t', rest', hqueue', hrest, hwalk⟩ := h.current c hcurrent
    rw [hqueue] at hqueue'
    cases hqueue'
    have hmem : (n, t) ∈ s.queue := hqueue ▸ mem_cons_self
    have hentered : n ∈ s.entered.map (·.1) := by
      rw [h.entered, map_append]
      exact mem_append_right _ (mem_map_of_mem hmem)
    have hgone : ∀ p ∈ gone, p.1 ≠ n := fun p hp => h.names_disjoint hp hmem
    have hrestNe : ∀ p ∈ rest, p.1 ≠ n := by
      have hnodup := h.nodup
      rw [h.entered, map_append, hqueue] at hnodup
      have hcons := (nodup_append.1 hnodup).2.1
      rw [map_cons, nodup_cons] at hcons
      intro p hp heq
      exact hcons.1 (mem_map.2 ⟨p, hp, heq⟩)
    have hnotAcked : n ∉ s.acked := fun hacked => by
      obtain ⟨p, hp, heq⟩ := mem_map.1 ((h.acked n).1 hacked).1
      exact hgone p hp heq
    have hcount : ∀ m, update s.nbOut n (s.nbOut n + 1) m = (s.flight ++ [n]).count m := by
      intro m
      rw [count_append, count_singleton, update_apply, ← h.count m]
      by_cases heq : m = n
      · subst heq
        simp
      · rw [if_neg heq, if_neg (by simpa using Ne.symm heq), Nat.add_zero]
    have hflight : ∀ m ∈ s.flight ++ [n], m ∈ s.entered.map (·.1) := by
      intro m hm
      rcases mem_append.1 hm with hm | hm
      · exact h.flight m hm
      · obtain rfl := mem_singleton.1 hm
        exact hentered
    have hfresh : ∀ m, m ∉ s.entered.map (·.1) → m ≠ n := fun m hm heq => hm (heq ▸ hentered)
    cases hnext : cut.next t c with
    | none =>
      simp only
      refine ⟨[(n, t)], ⟨?_, h.nodup, fun p hp => ?_, fun p hp => ?_, nofun, fun _ p hp => ?_, fun m hm => ?_,
        hflight, hcount, fun m => ?_, h.once⟩, iff_of_true nofun rfl⟩
      · rw [h.entered, hqueue, append_assoc]
        rfl
      · show CutsInto cut p.2 _ (update s.given n _ p.1) ∧ update s.allOut n true p.1 = true
        rcases mem_append.1 hp with hp | hp
        · rw [update_of_ne (hgone p hp), update_of_ne (hgone p hp)]
          exact h.given p hp
        · obtain rfl := mem_singleton.1 hp
          rw [update_self, update_self]
          exact ⟨hwalk.cutsInto (.last hnext), rfl⟩
      · show update s.allOut n true p.1 = false
        rw [update_of_ne (hrestNe p hp)]
        exact h.queued p (hqueue ▸ mem_cons_of_mem _ hp)
      · show update s.given n _ p.1 = []
        rw [update_of_ne (hrestNe p hp)]
        exact hrest p hp
      · show update s.given n _ m = [] ∧ update s.allOut n true m = false
        rw [update_of_ne (hfresh m hm), update_of_ne (hfresh m hm)]
        exact h.fresh m hm
      · rw [h.acked m, map_append, mem_append, mem_append, not_or, map_singleton, mem_singleton]
        refine ⟨fun hm => ⟨.inl hm.1, hm.2, ?_⟩, fun hm => ⟨hm.1.resolve_right hm.2.2, hm.2.1⟩⟩
        rintro rfl
        exact hnotAcked ((h.acked m).2 hm)
    | some c' =>
      simp only
      refine ⟨[], ⟨?_, h.nodup, fun p hp => ?_, fun p hp => ?_, fun c'' hc'' => ?_, nofun, fun m hm => ?_,
        hflight, hcount, fun m => ?_, h.once⟩, iff_of_false (fun hne => hne rfl) Bool.false_ne_true⟩
      · rw [append_nil, h.entered]
      · rw [append_nil] at hp
        show CutsInto cut p.2 _ (update s.given n _ p.1) ∧ s.allOut p.1 = true
        rw [update_of_ne (hgone p hp)]
        exact h.given p hp
      · exact h.queued p hp
      · cases hc''
        refine ⟨n, t, rest, hqueue, fun p hp => ?_, ?_⟩
        · show update s.given n _ p.1 = []
          rw [update_of_ne (hrestNe p hp)]
          exact hrest p hp
        · show Reaches cut t _ (update s.given n _ n) c'
          rw [update_self]
          exact hwalk.tail hnext
      · show update s.given n _ m = [] ∧ s.allOut m = false
        rw [update_of_ne (hfresh m hm)]
        exact h.fresh m hm
      · rw [h.acked m, append_nil, mem_append, not_or, mem_singleton]
        constructor
        · rintro ⟨hgone', hout⟩
          refine ⟨hgone', hout, ?_⟩
          rintro rfl
          exact hnotAcked ((h.acked m).2 ⟨hgone', hout⟩)
        · rintro ⟨hgone', hout, _⟩
          exact ⟨hgone', hout⟩

theorem back (hn : n ∈ s.flight) : Ok cut (s.back n) gone := by
  have hpos : 0 < s.flight.count n := count_pos_iff.2 hn
  have hcount : ∀ m, update s.nbOut n (s.nbOut n - 1) m = (s.flight.erase n).count m := by
    intro m
    rw [update_apply]
    split
    case isTrue heq => rw [heq, h.count, count_erase_self]
    case isFalse hne => rw [count_erase_of_ne hne, h.count]
  have hnotAcked : n ∉ s.acked := fun hacked => ((h.acked n).1 hacked).2 hn
  -- the last piece is back iff none is out any more
  have hfinishes : s.finishes n = true ↔ n ∈ gone.map (·.1) ∧ n ∉ s.flight.erase n := by
    rw [Feeder.finishes, Bool.and_eq_true, decide_eq_true_eq, ← List.count_eq_zero, ← hcount n, update_self]
    refine and_congr_left fun _ => ⟨fun hall => ?_, fun hgone => ?_⟩
    · have hmem := h.flight n hn
      rw [h.entered, map_append, mem_append] at hmem
      refine hmem.resolve_right fun hqueue => ?_
      obtain ⟨p, hp, rfl⟩ := mem_map.1 hqueue
      rw [h.queued p hp] at hall
      cases hall
    · obtain ⟨p, hp, rfl⟩ := mem_map.1 hgone
      exact (h.given p hp).2
  refine { h with
    flight := fun m hm => h.flight m (mem_of_mem_erase hm), count := hcount, acked := fun m => ?_, once := ?_ }
  · show m ∈ (if s.finishes n then s.acked ++ [n] else s.acked) ↔ m ∈ gone.map (·.1) ∧ m ∉ s.flight.erase n
    by_cases heq : m = n
    · subst heq
      rw [← hfinishes]
      split
      case isTrue hyes => exact iff_of_true (mem_append_right _ mem_cons_self) hyes
      case isFalse hno => exact iff_of_false hnotAcked hno
    · rw [mem_erase_of_ne heq, ← h.acked m]
      split
      · rw [mem_append, mem_singleton]
        exact ⟨fun hm => hm.resolve_right heq, .inl⟩
      · rfl
  · show (if s.finishes n then s.acked ++ [n] else s.acked).Nodup
    split
    · rw [← concat_eq_append]
      exact h.once.concat hnotAcked
    · exact h.once

/-- **A job is acknowledged iff all its pieces have been given out and are back.** -/
theorem acked_iff (n : Nat) : n ∈ s.acked ↔ s.Complete cut n := by
  rw [h.acked n, Feeder.Complete]
  constructor
  · rintro ⟨hgone, hflight⟩
    obtain ⟨p, hp, rfl⟩ := mem_map.1 hgone
    exact ⟨p.2, h.entered ▸ mem_append_left _ hp, (h.given p hp).1, hflight⟩
  · rintro ⟨t, hmem, hwalk, hflight⟩
    rw [h.entered, mem_append] at hmem
    refine ⟨mem_map_of_mem (hmem.resolve_right fun hqueue => ?_), hflight⟩
    -- what is in the queue has pieces left
    cases hcurrent : s.current with
    | none =>
      rw [h.idle hcurrent _ hqueue] at hwalk
      exact hwalk.ne_nil rfl
    | some c =>
      obtain ⟨m, u, rest, hq, hrest, hleft⟩ := h.current c hcurrent
      rw [hq] at hqueue
      rcases mem_cons.1 hqueue with heq | hqueue
      · cases heq
        exact hleft.not_cutsInto hwalk
      · rw [hrest _ hqueue] at hwalk
        exact hwalk.ne_nil rfl

/-- What has been given out of a job are its first pieces. -/
theorem given_prefix (hmem : (n, t) ∈ s.entered) {ps : List β} (hcuts : CutsInto cut t (cut.start t) ps) :
    s.given n <+: ps := by
  rw [h.entered, mem_append] at hmem
  rcases hmem with hgone | hqueue
  · exact (h.given _ hgone).1.unique hcuts ▸ prefix_rfl
  · cases hcurrent : s.current with
    | none => exact h.idle hcurrent _ hqueue ▸ nil_prefix
    | some c =>
      obtain ⟨m, u, rest, hq, hrest, hwalk⟩ := h.current c hcurrent
      rw [hq] at hqueue
      rcases mem_cons.1 hqueue with heq | hqueue
      · cases heq
        obtain ⟨left, rfl, -⟩ := hwalk.left hcuts
        exact prefix_append _ _
      · exact hrest _ hqueue ▸ nil_prefix

end Ok

end Feeder

end GvsocPulp.Lib
