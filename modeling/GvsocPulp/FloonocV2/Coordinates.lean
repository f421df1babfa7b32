import GvsocPulp.FloonocV2.FirstHops

/-!
# Generators that route by coordinates

`dimension_order` and `hexamesh` look up the routers by their coordinates and choose a first hop for every pair of
routers; they differ in the choice, and in the error of a router without coordinates.

- `coordToRouter_ok`: a position is mapped to a router there;
- `hopsTowards_ok`, `firstHopsOf_ok`: the choices that a generator without errors has made.
-/

namespace GvsocPulp.FloonocV2.Routing

open Lib Function List

/-- `coord_to_router`. -/
abbrev CoordMap := List Int → Option NodeId

/-- The loop that fills `coord_to_router`, with the error of a router without coordinates. -/
def coordToRouter (t : Topology) (missing : NodeId → RoutingError) : List NodeId → CoordMap →
    Except RoutingError CoordMap
  | [], index => .ok index
  | router :: rest, index =>
    match t.coords router with
    | none => .error (missing router)
    | some coord => coordToRouter t missing rest (update index coord (some router))

def coordOf (t : Topology) (router : NodeId) : List Int := (t.coords router).getD []

/-- `for target in topo.routers`, with the choice of the first hop. -/
def hopsTowards (choose : NodeId → Except RoutingError NodeId) (src : NodeId) : List NodeId → Except RoutingError Hops
  | [] => .ok []
  | target :: rest =>
    if target = src then hopsTowards choose src rest
    else
      match choose target with
      | .error e => .error e
      | .ok hop => (hopsTowards choose src rest).map ((target, hop) :: ·)

/-- `for src in topo.routers`. -/
def firstHopsOf (hopsFrom : NodeId → Except RoutingError Hops) :
    List NodeId → Except RoutingError (List (NodeId × Hops))
  | [] => .ok []
  | src :: rest =>
    match hopsFrom src with
    | .error e => .error e
    | .ok hops => (firstHopsOf hopsFrom rest).map ((src, hops) :: ·)

section Hops

variable {t : Topology}

theorem coordToRouter_ok {missing : NodeId → RoutingError} : ∀ {routers : List NodeId} {index index' : CoordMap},
    coordToRouter t missing routers index = .ok index' →
    (∀ r ∈ routers, (t.coords r).isSome) ∧
    (∀ c x, index' c = some x → index c = some x ∨ (x ∈ routers ∧ t.coords x = some c)) ∧
    ∀ c, ((index c).isSome ∨ ∃ r ∈ routers, t.coords r = some c) → (index' c).isSome
  | [], index, index', h => by
    cases h
    exact ⟨by simp, fun c x hx => .inl hx, fun c hc => by simpa using hc⟩
  | r :: rest, index, index', h => by
    rw [coordToRouter] at h
    cases hr : t.coords r with
    | none =>
      rw [hr] at h
      cases h
    | some c₀ =>
      rw [hr] at h
      obtain ⟨hall, hsound, hcomplete⟩ := coordToRouter_ok h
      refine ⟨fun x hx => ?_, fun c x hx => ?_, fun c hc => hcomplete c ?_⟩
      · rcases mem_cons.1 hx with rfl | hx
        · rw [hr]
          rfl
        · exact hall x hx
      · rcases hsound c x hx with hx | ⟨hx, hc⟩
        · by_cases hcc : c = c₀
          · subst hcc
            rw [update_self] at hx
            cases hx
            exact .inr ⟨mem_cons_self, hr⟩
          · rw [update_of_ne hcc] at hx
            exact .inl hx
        · exact .inr ⟨mem_cons_of_mem _ hx, hc⟩
      · by_cases hcc : c = c₀
        · subst hcc
          left
          rw [update_self]
          rfl
        · rw [update_of_ne hcc]
          rcases hc with hc | ⟨x, hx, hxc⟩
          · exact .inl hc
          · rcases mem_cons.1 hx with rfl | hx
            · rw [hr, Option.some.injEq] at hxc
              exact absurd hxc.symm hcc
            · exact .inr ⟨x, hx, hxc⟩

theorem coordToRouter_of_coords {missing : NodeId → RoutingError} : ∀ {routers : List NodeId} {index : CoordMap},
    (∀ r ∈ routers, (t.coords r).isSome) → ∃ index', coordToRouter t missing routers index = .ok index'
  | [], index, _ => ⟨index, rfl⟩
  | r :: rest, index, h => by
    obtain ⟨c, hc⟩ := Option.isSome_iff_exists.1 (h r (by simp))
    obtain ⟨index', hindex⟩ :=
      @coordToRouter_of_coords missing rest (update index c (some r)) fun x hx => h x (mem_cons_of_mem _ hx)
    refine ⟨index', ?_⟩
    rw [coordToRouter, hc]
    exact hindex

variable {choose : NodeId → Except RoutingError NodeId} {src : NodeId}

theorem hopsTowards_ok : ∀ {targets : List NodeId} {hops : Hops}, hopsTowards choose src targets = .ok hops →
    ∀ w ∈ targets, w ≠ src → ∃ v, choose w = .ok v ∧ hops.lookup w = some v
  | [], _, _ => by simp
  | target :: rest, hops, h => by
    intro w hw hws
    unfold hopsTowards at h
    split at h
    case isTrue htarget =>
      have hwt : w ≠ target := fun heq => hws (heq.trans htarget)
      exact hopsTowards_ok h w ((mem_cons.1 hw).resolve_left hwt) hws
    case isFalse htarget =>
      split at h
      case h_1 => cases h
      case h_2 hop hhop =>
        cases hrest : hopsTowards choose src rest with
        | error e =>
          rw [hrest] at h
          cases h
        | ok hops' =>
          rw [hrest] at h
          cases h
          by_cases hwt : w = target
          · subst hwt
            exact ⟨hop, hhop, by simp⟩
          · obtain ⟨v, hv, hlookup⟩ := hopsTowards_ok hrest w ((mem_cons.1 hw).resolve_left hwt) hws
            have hb : (w == target) = false := by simpa using hwt
            exact ⟨v, hv, by rw [lookup_cons, hb]; exact hlookup⟩

theorem hopsTowards_of_forall : ∀ {targets : List NodeId}, (∀ w ∈ targets, w ≠ src → ∃ v, choose w = .ok v) →
    ∃ hops, hopsTowards choose src targets = .ok hops
  | [], _ => ⟨[], rfl⟩
  | target :: rest, h => by
    obtain ⟨hops, hrest⟩ := hopsTowards_of_forall fun w hw => h w (mem_cons_of_mem _ hw)
    unfold hopsTowards
    split
    case isTrue => exact ⟨hops, hrest⟩
    case isFalse htarget =>
      obtain ⟨v, hv⟩ := h target (by simp) htarget
      refine ⟨(target, v) :: hops, ?_⟩
      rw [hv, hrest]
      rfl

variable {hopsFrom : NodeId → Except RoutingError Hops}

theorem firstHopsOf_ok {srcs : List NodeId} {firstHops : List (NodeId × Hops)}
    (h : firstHopsOf hopsFrom srcs = .ok firstHops) :
    ∃ hops : NodeId → Hops, firstHops = srcs.map (fun u => (u, hops u)) ∧ ∀ u ∈ srcs, hopsFrom u = .ok (hops u) := by
  let found (u : NodeId) : Hops := (hopsFrom u).toOption.getD []
  have hfound : ∀ u hops, hopsFrom u = .ok hops → found u = hops := by
    intro u hops hhops
    simp only [found, hhops]
    rfl
  refine ⟨found, ?_⟩
  induction srcs generalizing firstHops with
  | nil =>
    cases h
    exact ⟨rfl, by simp⟩
  | cons src rest ih =>
    unfold firstHopsOf at h
    split at h
    case h_1 => cases h
    case h_2 hops hhops =>
      cases hrest : firstHopsOf hopsFrom rest with
      | error e =>
        rw [hrest] at h
        cases h
      | ok firstHops' =>
        rw [hrest] at h
        cases h
        obtain ⟨heq, hall⟩ := ih hrest
        refine ⟨?_, fun u hu => ?_⟩
        · rw [map_cons, ← heq, hfound src hops hhops]
        · rcases mem_cons.1 hu with rfl | hu
          · rw [hfound u hops hhops, hhops]
          · exact hall u hu

theorem firstHopsOf_of_forall : ∀ {srcs : List NodeId}, (∀ u ∈ srcs, ∃ hops, hopsFrom u = .ok hops) →
    ∃ firstHops, firstHopsOf hopsFrom srcs = .ok firstHops
  | [], _ => ⟨[], rfl⟩
  | src :: rest, h => by
    obtain ⟨firstHops, hrest⟩ := firstHopsOf_of_forall fun u hu => h u (mem_cons_of_mem _ hu)
    obtain ⟨hops, hhops⟩ := h src (by simp)
    refine ⟨(src, hops) :: firstHops, ?_⟩
    rw [firstHopsOf, hhops, hrest]
    rfl

end Hops

end GvsocPulp.FloonocV2.Routing
