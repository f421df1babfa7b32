import GvsocPulp.FloonocV2.UpDown

/-!
# Legal routes and the first hops of `up_down`

A legal route takes up links, then down links. The table of a router holds the first hops of its shortest legal routes.

- `LegalRoute`, `LegalVia`: the routes, and the lengths of those through a given first hop;
- `FirstHop.unique`, `FirstHop.of_via`: a router that has a legal route to another one has exactly one first hop;
- `hopsLoop_spec`: the search finds it;
- `legalRoute_of_connected`: on a connected network there is a legal route between any two routers.
-/

namespace GvsocPulp.FloonocV2.Routing

open Lib List

variable {u v w : NodeId}

section Legal

variable (t : Topology) (levels : Levels)

/-- A route of router links from `u` to `w` that takes no up link after a down link, nor any when `goneDown`. -/
inductive LegalRoute : Bool → NodeId → NodeId → List NodeId → Prop
  | here (goneDown : Bool) (w : NodeId) : LegalRoute goneDown w w [w]
  | up {u v w : NodeId} {l : List NodeId} : v ∈ t.routerAdj u → isUp levels u v = true → LegalRoute false v w l →
      LegalRoute false u w (u :: l)
  | down {goneDown : Bool} {u v w : NodeId} {l : List NodeId} : v ∈ t.routerAdj u → isUp levels u v = false →
      LegalRoute true v w l → LegalRoute goneDown u w (u :: l)

/-- A legal route from `u` to `w` starts with the link to `v` and has `k` more nodes. -/
def LegalVia (u v w : NodeId) (k : Nat) : Prop :=
  v ∈ t.routerAdj u ∧ ∃ l, LegalRoute t levels (!isUp levels u v) v w l ∧ l.length = k

/-- `v` is the first neighbour of `u`, in link order, that starts a shortest legal route to `w`. -/
def FirstHop (u w v : NodeId) : Prop :=
  ∃ k, LegalVia t levels u v w k ∧ ∀ v' k', LegalVia t levels u v' w k' →
    k < k' ∨ (k = k' ∧ (t.routerAdj u).idxOf v ≤ (t.routerAdj u).idxOf v')

variable {t levels}

variable {l : List NodeId} {g : Bool}

section

variable (h : LegalRoute t levels g u w l)
include h

theorem LegalRoute.head :
    ∃ l', l = u :: l' := by
  cases h <;> exact ⟨_, rfl⟩

theorem LegalRoute.length_pos :
    0 < l.length := by
  obtain ⟨l', rfl⟩ := h.head
  exact Nat.succ_pos _

theorem LegalRoute.weaken :
    LegalRoute t levels false u w l := by
  cases h with
  | here => exact .here _ _
  | up hv hu hl => exact .up hv hu hl
  | down hv hu hl => exact .down hv hu hl

end

theorem LegalRoute.append_down {l' : List NodeId} (h : LegalRoute t levels g u v l)
    (h' : LegalRoute t levels true v w l') : ∃ l'', LegalRoute t levels g u w l'' := by
  induction h with
  | here g v =>
    cases g with
    | false => exact ⟨l', h'.weaken⟩
    | true => exact ⟨l', h'⟩
  | up hv hu _ ih => obtain ⟨l'', hl⟩ := ih h'; exact ⟨_, .up hv hu hl⟩
  | down hv hu _ ih => obtain ⟨l'', hl⟩ := ih h'; exact ⟨_, .down hv hu hl⟩

theorem LegalRoute.via (h : LegalRoute t levels g u w l) (hne : w ≠ u) :
    ∃ v, LegalVia t levels u v w (l.length - 1) := by
  cases h with
  | here => exact absurd rfl hne
  | up hv hu hl => exact ⟨_, hv, _, by rw [hu]; exact hl, by simp⟩
  | down hv hu hl => exact ⟨_, hv, _, by rw [hu]; exact hl, by simp⟩

theorem FirstHop.unique {v' : NodeId} (h : FirstHop t levels u w v) (h' : FirstHop t levels u w v') : v = v' := by
  obtain ⟨k, hv, hmin⟩ := h
  obtain ⟨k', hv', hmin'⟩ := h'
  have h₁ := hmin v' k' hv'
  have h₂ := hmin' v k hv
  exact (idxOf_inj hv.1).1 (by omega)

theorem FirstHop.of_via {k : Nat} (h : LegalVia t levels u v w k) : ∃ v, FirstHop t levels u w v := by
  -- the least pair of a length and a position in the list of links
  have hwf : WellFounded ((· < ·) : Nat ×ₗ Nat → Nat ×ₗ Nat → Prop) := wellFounded_lt
  obtain ⟨x, ⟨v, hv, hidx⟩, hmin⟩ := hwf.has_min
    {x | ∃ v, LegalVia t levels u v w (ofLex x).1 ∧ (t.routerAdj u).idxOf v = (ofLex x).2}
    ⟨toLex (k, (t.routerAdj u).idxOf v), v, h, rfl⟩
  refine ⟨v, _, hv, fun v' k' hv' => ?_⟩
  have hnot := hmin (toLex (k', (t.routerAdj u).idxOf v')) ⟨v', hv', rfl⟩
  rw [Prod.Lex.lt_iff] at hnot
  simp only [ofLex_toLex] at hnot
  omega

/-! ## The search finds the first hops -/

variable {src : NodeId}

theorem eq_of_walk_none {s : HopState} {l : HopLabel} (h : Walk (hopSucc t levels) nextLabel (src, false) none s l)
    (hl : l = none) : s = (src, false) := by
  cases h with
  | start => rfl
  | step _ _ => exact absurd hl ((@monotone_nextLabel t levels src).ne_start _ _)

theorem legalRoute_of_walk {s : HopState} {l : HopLabel} (h : Walk (hopSucc t levels) nextLabel (src, false) none s l) :
    ∀ {k : Nat} {v x : NodeId} {r : List NodeId},
      l = some (k, v) → LegalRoute t levels s.2 s.1 x r →
        v ∈ t.routerAdj src ∧ ∃ r', LegalRoute t levels (!isUp levels src v) v x r' ∧ r'.length = k + r.length := by
  induction h with
  | start => intro k v x r hl; cases hl
  | @step s l n hw hn ih =>
    intro k v x r hl hr
    obtain ⟨hadj, hdown, hflag⟩ := mem_hopSucc.1 hn
    rcases l with _ | ⟨k', v'⟩
    · -- the first link
      have hs : s = (src, false) := eq_of_walk_none hw rfl
      subst hs
      cases hl
      rw [hflag] at hr
      exact ⟨hadj, r, hr, by simp⟩
    · cases hl
      have hr' : LegalRoute t levels s.2 s.1 x (s.1 :: r) := by
        cases hup : isUp levels s.1 n.1 with
        | true =>
          have hg : s.2 = false := hdown.resolve_right (by simp [hup])
          rw [hup, hg] at hflag
          rw [hflag] at hr
          rw [hg]
          exact .up hadj hup hr
        | false =>
          rw [hup, Bool.not_false, Bool.or_true] at hflag
          rw [hflag] at hr
          exact .down hadj hup hr
      obtain ⟨hv, r', hr', hlen⟩ := ih rfl hr'
      exact ⟨hv, r', hr', by rw [hlen, length_cons]; omega⟩

theorem walk_of_legalRoute {r : List NodeId} (h : LegalRoute t levels g u w r) : ∀ {k : Nat},
      Walk (hopSucc t levels) nextLabel (src, false) none (u, g) (some (k, v)) →
      ∃ g', Walk (hopSucc t levels) nextLabel (src, false) none (w, g') (some (k + (r.length - 1), v)) := by
  induction h with
  | here g w => intro k hw; exact ⟨g, by simpa using hw⟩
  | @up u n w l hadj hup hl ih =>
    intro k hw
    have hn : (n, false) ∈ hopSucc t levels (u, false) := mem_hopSucc.2 ⟨hadj, Or.inl rfl, by simp [hup]⟩
    obtain ⟨g', hg'⟩ := ih (hw.step hn)
    have := hl.length_pos
    exact ⟨g', by rw [length_cons]; rwa [show k + 1 + (l.length - 1) = k + (l.length + 1 - 1) by omega] at hg'⟩
  | @down g u n w l hadj hup hl ih =>
    intro k hw
    have hn : (n, true) ∈ hopSucc t levels (u, g) := mem_hopSucc.2 ⟨hadj, Or.inr hup, by simp [hup]⟩
    obtain ⟨g', hg'⟩ := ih (hw.step hn)
    have := hl.length_pos
    exact ⟨g', by rw [length_cons]; rwa [show k + 1 + (l.length - 1) = k + (l.length + 1 - 1) by omega] at hg'⟩

theorem legalVia_iff_walk {k : Nat} :
    LegalVia t levels src v w (k + 1) ↔
      ∃ g, Walk (hopSucc t levels) nextLabel (src, false) none (w, g) (some (k, v)) := by
  constructor
  · rintro ⟨hv, l, hl, hlen⟩
    have hn : (v, !isUp levels src v) ∈ hopSucc t levels (src, false) := mem_hopSucc.2 ⟨hv, Or.inl rfl, by simp⟩
    have hw := walk_of_legalRoute hl (Walk.step .start hn)
    rw [hlen] at hw
    simpa using hw
  · rintro ⟨g, hw⟩
    obtain ⟨hv, r, hr, hlen⟩ := legalRoute_of_walk hw rfl (.here g w)
    exact ⟨hv, r, hr, by simpa using hlen⟩

/-- The search from a router terminates, and its hops are the first hops of the shortest legal routes. -/
theorem hopsLoop_spec (hsrc : src ∈ t.routers) :
    ∃ hops : Hops, (∀ fuel, upDownBound t < fuel →
        hopsLoop t levels src fuel [(src, false)] [((src, false), none)] [] = some hops) ∧
      ∀ w v, w ≠ src → (hops.lookup w = some v ↔ FirstHop t levels src w v) := by
  obtain ⟨order, horder, hrun⟩ : ∃ order, _ ∧ _ := @hopsLoop_terminates t levels src hsrc
  refine ⟨_, hrun, fun w v hw => ?_⟩
  have hmono := @monotone_nextLabel t levels src
  have hlookup : ((order.map fun e => (e.1, e.2.map Prod.snd)).foldl (recordHop src) []).lookup w =
      (order.find? fun e => decide (e.1.1 = w) && e.2.isSome).bind fun e => e.2.map Prod.snd := by
    rw [recordHop_lookup hw, find?_map]
    simp [Option.bind_map]
  -- every legal route to `w` is matched by an entry of `w` that is no larger
  have hentry : ∀ v' k', LegalVia t levels src v' w k' →
      ∃ e ∈ order, (decide (e.1.1 = w) && e.2.isSome) = true ∧ labelLe t src e.2 (some (k' - 1, v')) := by
    intro v' k' hv'
    obtain ⟨k', rfl⟩ : ∃ n, k' = n + 1 := by
      obtain ⟨_, l, hl, rfl⟩ := hv'
      exact ⟨l.length - 1, by have := hl.length_pos; omega⟩
    obtain ⟨g, hg⟩ := legalVia_iff_walk.1 hv'
    obtain ⟨l', hl', hle⟩ := bfs_minimal hmono labelLe_trans horder hg
    refine ⟨((w, g), l'), hl', ?_, hle⟩
    rcases l' with _ | l'
    · exact absurd (congrArg Prod.fst (eq_of_walk_none (bfs_sound hmono horder hl') rfl)) hw
    · simp
  rw [hlookup]
  cases hfind : order.find? fun e => decide (e.1.1 = w) && e.2.isSome with
  | none =>
    refine ⟨fun h => by simp at h, fun h => ?_⟩
    obtain ⟨k, hv, _⟩ := h
    obtain ⟨e, he, hp, _⟩ := hentry v k hv
    exact absurd hp (find?_eq_none.1 hfind e he)
  | some e =>
    obtain ⟨hp, as, bs, rfl, has⟩ := find?_eq_some_iff_append.1 hfind
    obtain ⟨⟨w', g⟩, l⟩ := e
    simp only [Bool.and_eq_true, decide_eq_true_eq] at hp
    obtain ⟨rfl, hl⟩ := hp
    obtain ⟨⟨k, v₀⟩, rfl⟩ := Option.isSome_iff_exists.1 hl
    have hfirst : FirstHop t levels src w' v₀ := by
      refine ⟨k + 1, legalVia_iff_walk.2 ⟨g, bfs_sound hmono horder (by simp)⟩, fun v' k' hv' => ?_⟩
      obtain ⟨e, he, hp, hle⟩ := hentry v' k' hv'
      -- an entry of the router is the first one or after it
      have hfe : labelLe t src (some (k, v₀)) e.2 := by
        rcases mem_append.1 he with he | he
        · have hnp := has e he
          rw [hp] at hnp
          cases hnp
        · rcases mem_cons.1 he with rfl | he
          · exact hmono.refl _
          · have hsorted := bfs_sorted hmono horder
            exact rel_of_pairwise_cons (pairwise_append.1 hsorted).2.1 he
      have hk' : 0 < k' := by
        obtain ⟨_, l, hl, rfl⟩ := hv'
        exact hl.length_pos
      have h := labelLe_trans _ _ _ hfe hle
      simp only [labelLe] at h
      omega
    constructor
    · intro h
      cases h
      exact hfirst
    · intro h
      rw [h.unique hfirst]
      rfl

/-! ## Legal routes on a connected network -/

theorem LegalRoute.snoc_down (h : LegalRoute t levels true u v l) (hw : w ∈ t.routerAdj v)
    (hd : isUp levels v w = false) : ∃ l', LegalRoute t levels true u w l' :=
  h.append_down (.down hw hd (.here true w))

/-- Where every router but the root has a neighbour on a lower level, a legal route joins any two routers: up to the
root, then down. -/
theorem legalRoute_of_levels {root : NodeId} (hlev : ∀ v ∈ t.routers, v ≠ root → ∃ p ∈ t.routerAdj v,
    levels.level p < levels.level v)
    (hu : u ∈ t.routers) (hw : w ∈ t.routers) : ∃ l, LegalRoute t levels false u w l := by
  have hup : ∀ n, ∀ v ∈ t.routers, levels.level v ≤ n →
      (∃ l, LegalRoute t levels false v root l) ∧ ∃ l, LegalRoute t levels true root v l := by
    intro n
    induction n with
    | zero =>
      intro v hv hn
      by_cases hvr : v = root
      · subst hvr; exact ⟨⟨_, .here _ _⟩, _, .here _ _⟩
      · obtain ⟨p, _, hlt⟩ := hlev v hv hvr
        omega
    | succ n ih =>
      intro v hv hn
      by_cases hvr : v = root
      · subst hvr; exact ⟨⟨_, .here _ _⟩, _, .here _ _⟩
      · obtain ⟨p, hp, hlt⟩ := hlev v hv hvr
        obtain ⟨⟨l, hl⟩, l', hl'⟩ := ih p (t.mem_routerAdj.1 hp).2 (by omega)
        have hvp : isUp levels v p = true := by simp [isUp, hlt]
        have hpv : isUp levels p v = false := by simp [isUp]; omega
        exact ⟨⟨_, .up hp hvp hl⟩, hl'.snoc_down (t.routerAdj_symm hv hp) hpv⟩
  obtain ⟨⟨l, hl⟩, _⟩ := hup _ u hu (le_refl _)
  obtain ⟨_, l', hl'⟩ := hup _ w hw (le_refl _)
  exact hl.append_down hl'

end Legal

end GvsocPulp.FloonocV2.Routing
