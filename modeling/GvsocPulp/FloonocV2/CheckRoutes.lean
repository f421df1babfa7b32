import GvsocPulp.FloonocV2.FindCycle
import GvsocPulp.FloonocV2.Topology

/-!
# `check_routes`

The walk of every (source NI, destination NI) pair through the next-hop tables, and the channel dependency graph of
the walks.

- `RoutesTo`: the tables lead from a node to an NI through existing links; such a walk is unique and loop-free
  (`RoutesTo.unique`, `RoutesTo.nodup`);
- `routeLoop_ok_iff`: the `while` loop returns exactly these walks, its length bound never rejects one;
- `edge_addRouteDeps`: the graph handed to `_find_cycle` has an edge for each two consecutive channels of a route;
- `checkRoutes_sound_complete`: `check_routes` ends, and returns iff every pair has such a walk and some ranking of
  the channels increases along all of them.
-/

namespace GvsocPulp.FloonocV2.Routing

open Lib List Deps

variable {u : NodeId} {w : Channel} {src : NodeId}

variable {deps : Deps Channel} {routes : List (List NodeId)}

/-- Next-hop tables `{router: {dest_ni: next_node}}`. -/
abbrev Tables := List (NodeId × List (NodeId × NodeId))

/-- `tables.get(curr, {}).get(dst)`. -/
def Tables.hop (tables : Tables) (curr dst : NodeId) : Option NodeId :=
  ((tables.lookup curr).getD []).lookup dst

/-- A directed link, ordered as a Python tuple. -/
abbrev Channel := NodeId ×ₗ NodeId

def chan (u v : NodeId) : Channel := toLex (u, v)

/-- `deps.setdefault(key, set()).add(c)`. -/
def addDep : Deps Channel → Channel → Channel → Deps Channel
  | [], key, c => [(key, [c])]
  | (k, cs) :: rest, key, c =>
    if key = k then (k, if c ∈ cs then cs else cs ++ [c]) :: rest else (k, cs) :: addDep rest key c

/-- `for i in range(len(path) - 2): deps.setdefault((path[i], path[i+1]), set()).add((path[i+1], path[i+2]))`. -/
def addRouteDeps (deps : Deps Channel) : List NodeId → Deps Channel
  | a :: b :: c :: rest => addRouteDeps (addDep deps (chan a b) (chan b c)) (b :: c :: rest)
  | _ => deps

section CheckRoutes

variable (t : Topology) (tables : Tables)

/-- The `while path[-1] != dst` loop; `path` is `before`, last node first, followed by `curr`. -/
def routeLoop (src dst : NodeId) : Nat → NodeId → List NodeId → Option (Except RoutingError (List NodeId))
  | 0, _, _ => none
  | fuel + 1, curr, before =>
    if curr = dst then some (.ok (curr :: before).reverse)
    else if curr ∉ t.routers then some (.error (.reachesNi (t.name src) (t.name dst) (t.name curr)))
    else
      match tables.hop curr dst with
      | none => some (.error (.noRoute (t.name curr) (t.name dst)))
      | some nxt =>
        if nxt ∉ t.adj curr then
          some (.error (.noLink (t.name src) (t.name dst) (t.name curr) (t.name nxt)))
        else if (curr :: before).length > t.nbNodes + 1 then
          some (.error (.loop (t.name src) (t.name dst) ((curr :: before).reverse.map t.name)))
        else routeLoop src dst fuel nxt (curr :: before)

/-- `for src in topo.nis: for dst in topo.nis: if src == dst: continue`. -/
def niPairs : List (NodeId × NodeId) := t.nis.flatMap fun src => (t.nis.filter fun dst => src ≠ dst).map (src, ·)

/-- The body of the loops over the NIs, with the routes and dependencies gathered so far. -/
def routesLoop (fuel : Nat) : List (NodeId × NodeId) → List (List NodeId) → Deps Channel →
    Option (Except RoutingError (List (List NodeId) × Deps Channel))
  | [], routes, deps => some (.ok (routes, deps))
  | (src, dst) :: rest, routes, deps =>
    match t.niRouter src with
    | .error e => some (.error e)
    | .ok router =>
      match routeLoop t tables src dst fuel router [src] with
      | none => none
      | some (.error e) => some (.error e)
      | some (.ok path) => routesLoop fuel rest (routes ++ [path]) (addRouteDeps deps path)

/-- `check_routes(topo, tables, allow_deadlock)`; `none` when the fuel runs out. -/
def checkRoutes (fuel : Nat) (allowDeadlock : Bool) : Option (Except RoutingError (List (List NodeId))) :=
  match routesLoop t tables fuel (niPairs t) [] [] with
  | none => none
  | some (.error e) => some (.error e)
  | some (.ok (routes, deps)) =>
    match findCycle fuel deps with
    | none => none
    | some none => some (.ok routes)
    | some (some cycle) =>
      if allowDeadlock then some (.ok routes)
      else some (.error (.deadlock (cycle.map fun c => (t.name (ofLex c).1, t.name (ofLex c).2))))

/-! ## Walks through the tables -/

inductive RoutesTo (dst : NodeId) : NodeId → List NodeId → Prop
  | here : RoutesTo dst dst [dst]
  | hop {u v : NodeId} {l : List NodeId} : u ≠ dst → u ∈ t.routers → tables.hop u dst = some v → v ∈ t.adj u →
      RoutesTo dst v l → RoutesTo dst u (u :: l)

/-- The walk from an NI to another one starts with the link to its router. -/
def IsRoute (src dst : NodeId) (path : List NodeId) : Prop :=
  ∃ router l, t.adj src = [router] ∧ path = src :: l ∧ RoutesTo t tables dst router l

variable {t tables}

variable {l : List NodeId} {dst : NodeId}

section

variable (h : RoutesTo t tables dst u l)
include h

theorem RoutesTo.head : ∃ l', l = u :: l' := by
  cases h <;> exact ⟨_, rfl⟩

theorem RoutesTo.unique {l' : List NodeId} (h' : RoutesTo t tables dst u l') : l = l' := by
  induction h generalizing l' with
  | here =>
    cases h' with
    | here => rfl
    | hop hne => exact absurd rfl hne
  | hop hne _ hh _ _ ih =>
    cases h' with
    | here => exact absurd rfl hne
    | hop _ _ hh' _ hr => rw [hh] at hh'; cases hh'; rw [ih hr]

theorem RoutesTo.suffix {w : NodeId} (hw : w ∈ l) :
    ∃ l₁ l₂, l = l₁ ++ l₂ ∧ RoutesTo t tables dst w l₂ := by
  induction h with
  | here => rw [mem_singleton.1 hw]; exact ⟨[], _, rfl, .here⟩
  | @hop u v l hne hr hh hadj hrest ih =>
    rcases mem_cons.1 hw with rfl | hw
    · exact ⟨[], _, rfl, .hop hne hr hh hadj hrest⟩
    · obtain ⟨l₁, l₂, rfl, h₂⟩ := ih hw
      exact ⟨u :: l₁, l₂, rfl, h₂⟩

theorem RoutesTo.nodup : l.Nodup := by
  induction h with
  | here => simp
  | @hop u v l hne hr hh hadj hrest ih =>
    refine nodup_cons.2 ⟨fun hu => ?_, ih⟩
    -- the second visit would go on as the first one, along a shorter walk
    obtain ⟨l₁, l₂, rfl, h₂⟩ := hrest.suffix hu
    have := congrArg List.length (h₂.unique (.hop hne hr hh hadj hrest))
    simp at this
    omega

theorem RoutesTo.mem_router {w : NodeId} (hw : w ∈ l) :
    w ∈ t.routers ∨ w = dst := by
  induction h with
  | here => exact Or.inr (mem_singleton.1 hw)
  | hop _ hr _ _ _ ih =>
    rcases mem_cons.1 hw with rfl | hw
    · exact Or.inl hr
    · exact ih hw

end

theorem not_router_of_ni {n : NodeId} (h : n ∈ t.nis) : n ∉ t.routers := fun hr => by
  have := t.nodup
  rw [nodup_append] at this
  exact this.2.2 n hr n h rfl

variable {path : List NodeId}

theorem IsRoute.unique {path' : List NodeId} (h : IsRoute t tables src dst path)
    (h' : IsRoute t tables src dst path') : path = path' := by
  obtain ⟨router, l, hr, rfl, hl⟩ := h
  obtain ⟨router', l', hr', rfl, hl'⟩ := h'
  rw [hr] at hr'
  cases hr'
  rw [hl.unique hl']

theorem IsRoute.nodup (hs : src ∈ t.nis) (hne : src ≠ dst) (h : IsRoute t tables src dst path) : path.Nodup := by
  obtain ⟨router, l, _, rfl, hr⟩ := h
  refine nodup_cons.2 ⟨fun hm => ?_, hr.nodup⟩
  rcases hr.mem_router hm with h | h
  · exact not_router_of_ni hs h
  · exact hne h

theorem IsRoute.length_le (hs : src ∈ t.nis) (hd : dst ∈ t.nis) (hne : src ≠ dst)
    (h : IsRoute t tables src dst path) : path.length ≤ t.nbNodes := by
  have hnd := h.nodup hs hne
  obtain ⟨router, l, _, rfl, hr⟩ := h
  have hsub : src :: l ⊆ t.routers ++ t.nis := by
    intro w hw
    rw [mem_append]
    rcases mem_cons.1 hw with rfl | hw
    · exact Or.inr hs
    · rcases hr.mem_router hw with h | rfl
      · exact Or.inl h
      · exact Or.inr hd
  have := (hnd.subperm hsub).length_le
  simpa [Topology.nbNodes] using this

/-! ## The `while` loop -/

theorem routeLoop_ok : ∀ {fuel : Nat} {curr : NodeId} {before path : List NodeId},
    routeLoop t tables src dst fuel curr before = some (.ok path) →
    ∃ l, path = before.reverse ++ l ∧ RoutesTo t tables dst curr l
  | 0, _, _, _, h => by simp [routeLoop] at h
  | fuel + 1, curr, before, path, h => by
    rw [routeLoop] at h
    split at h
    case isTrue hc => cases h; subst hc; exact ⟨[curr], by simp, .here⟩
    case isFalse hc =>
      split at h
      case isTrue => cases h
      case isFalse hr =>
        split at h
        case h_1 => cases h
        case h_2 nxt hh =>
          split at h
          case isTrue => cases h
          case isFalse hadj =>
            split at h
            case isTrue => cases h
            case isFalse =>
              obtain ⟨l, rfl, hl⟩ := routeLoop_ok h
              exact ⟨curr :: l, by simp, .hop hc (not_not.1 hr) hh (not_not.1 hadj) hl⟩

theorem routeLoop_of_routesTo {curr : NodeId} (h : RoutesTo t tables dst curr l) :
    ∀ {fuel : Nat} {before : List NodeId}, l.length ≤ fuel → before.length + l.length ≤ t.nbNodes + 2 →
      routeLoop t tables src dst fuel curr before = some (.ok (before.reverse ++ l)) := by
  induction h with
  | here =>
    intro fuel before hf _
    obtain ⟨fuel, rfl⟩ : ∃ n, fuel = n + 1 := ⟨fuel - 1, by simp at hf; omega⟩
    simp [routeLoop]
  | @hop u v l hne hr hh hadj hrest ih =>
    intro fuel before hf hlen
    obtain ⟨fuel, rfl⟩ : ∃ n, fuel = n + 1 := ⟨fuel - 1, by simp at hf; omega⟩
    have hl : 0 < l.length := by obtain ⟨l', rfl⟩ := hrest.head; simp
    simp only [length_cons] at hf hlen
    rw [routeLoop, if_neg hne, if_neg (not_not.2 hr), hh]
    simp only [hadj, not_true, if_false, length_cons]
    rw [if_neg (by omega), ih (by omega) (by simp; omega)]
    simp

theorem routeLoop_terminates : ∀ {fuel : Nat} {curr : NodeId} {before : List NodeId},
    0 < fuel → t.nbNodes + 2 ≤ before.length + fuel → ∃ r, routeLoop t tables src dst fuel curr before = some r
  | 0, _, _, h, _ => absurd h (Nat.lt_irrefl 0)
  | fuel + 1, curr, before, _, hle => by
    rw [routeLoop]
    split
    · exact ⟨_, rfl⟩
    · split
      · exact ⟨_, rfl⟩
      · split
        · exact ⟨_, rfl⟩
        · split
          · exact ⟨_, rfl⟩
          · split
            · exact ⟨_, rfl⟩
            case isFalse hlen =>
              simp only [length_cons] at hlen
              exact routeLoop_terminates (by omega) (by simp only [length_cons]; omega)

theorem routeLoop_mono : ∀ {n m : Nat} {curr : NodeId} {before : List NodeId}
    {r : Except RoutingError (List NodeId)}, n ≤ m → routeLoop t tables src dst n curr before = some r →
    routeLoop t tables src dst m curr before = some r
  | 0, _, _, _, _, _, h => by simp [routeLoop] at h
  | n + 1, 0, _, _, _, hle, _ => absurd hle (by omega)
  | n + 1, m + 1, curr, before, r, hle, h => by
    have hle : n ≤ m := by omega
    rw [routeLoop] at h ⊢
    split at h
    · rename_i hc; rw [if_pos hc]; exact h
    · rename_i hc; rw [if_neg hc]
      split at h
      · rename_i hr; rw [if_pos hr]; exact h
      · rename_i hr; rw [if_neg hr]
        split at h
        · exact h
        · split at h
          · rename_i ha; rw [if_pos ha]; exact h
          · rename_i ha; rw [if_neg ha]
            split at h
            · rename_i hl; rw [if_pos hl]; exact h
            · rename_i hl; rw [if_neg hl]; exact routeLoop_mono hle h

variable {fuel : Nat}

/-- The walk of a pair gives a path iff the tables route the pair along it. -/
theorem routeLoop_ok_iff {router : NodeId} (hs : src ∈ t.nis) (hd : dst ∈ t.nis) (hne : src ≠ dst)
    (hr : t.adj src = [router]) (hf : t.nbNodes ≤ fuel) :
    routeLoop t tables src dst fuel router [src] = some (.ok path) ↔ IsRoute t tables src dst path := by
  constructor
  · intro h
    obtain ⟨l, rfl, hl⟩ := routeLoop_ok h
    exact ⟨router, l, hr, by simp, hl⟩
  · intro h
    have hlen := h.length_le hs hd hne
    obtain ⟨router', l, hr', rfl, hl⟩ := h
    rw [hr] at hr'
    cases hr'
    simp only [length_cons] at hlen
    rw [routeLoop_of_routesTo hl (by omega) (by simp; omega)]
    simp

/-! ## The dependency graph -/

theorem children_addDep {key c u : Channel} :
    w ∈ children (addDep deps key c) u ↔ w ∈ children deps u ∨ (u = key ∧ w = c) := by
  induction deps with
  | nil =>
    rw [addDep, children_cons]
    by_cases h : u = key <;> simp [h, children]
  | cons e rest ih =>
    obtain ⟨k, cs⟩ := e
    unfold addDep
    by_cases hk : key = k
    · subst hk
      rw [if_pos rfl, children_cons, children_cons]
      by_cases hu : u = key
      · by_cases hc : c ∈ cs
        · simp only [hu, hc, if_true, true_and]
          exact ⟨Or.inl, fun h => h.elim id fun h => h ▸ hc⟩
        · simp [hu, hc]
      · simp [hu]
    · rw [if_neg hk, children_cons, children_cons]
      by_cases hu : u = k
      · simp only [hu, if_true]
        exact ⟨Or.inl, fun h => h.elim id fun h => absurd h.1.symm hk⟩
      · simpa [hu] using ih

def Consecutive (path : List NodeId) (u w : Channel) : Prop :=
  ∃ a b c, [a, b, c] <:+: path ∧ u = chan a b ∧ w = chan b c

theorem consecutive_cons {a b c : NodeId} {rest : List NodeId} {u : Channel} :
    Consecutive (a :: b :: c :: rest) u w ↔ (u = chan a b ∧ w = chan b c) ∨ Consecutive (b :: c :: rest) u w := by
  constructor
  · rintro ⟨x, y, z, hin, rfl, rfl⟩
    rcases infix_cons_iff.1 hin with hp | hin
    · obtain ⟨s, hs⟩ := hp
      obtain ⟨rfl, rfl, rfl, _⟩ := hs
      exact Or.inl ⟨rfl, rfl⟩
    · exact Or.inr ⟨x, y, z, hin, rfl, rfl⟩
  · rintro (⟨rfl, rfl⟩ | ⟨x, y, z, hin, rfl, rfl⟩)
    · exact ⟨a, b, c, ⟨[], rest, by simp⟩, rfl, rfl⟩
    · exact ⟨x, y, z, hin.trans (infix_cons infix_rfl), rfl, rfl⟩

theorem not_consecutive_short {u : Channel} (h : path.length < 3) : ¬Consecutive path u w := by
  rintro ⟨a, b, c, hin, _, _⟩
  have := hin.length_le
  simp at this
  omega

theorem edge_addRouteDeps {u : Channel} : ∀ (path : List NodeId) (deps : Deps Channel),
    Deps.Edge (addRouteDeps deps path) u w ↔ Deps.Edge deps u w ∨ Consecutive path u w
  | [], deps => by simp [addRouteDeps, not_consecutive_short]
  | [a], deps => by simp [addRouteDeps, not_consecutive_short]
  | [a, b], deps => by simp [addRouteDeps, not_consecutive_short]
  | a :: b :: c :: rest, deps => by
    rw [addRouteDeps, edge_addRouteDeps, consecutive_cons]
    simp only [Deps.Edge, children_addDep, or_assoc]

/-! ## All pairs -/

theorem mem_niPairs : (src, dst) ∈ niPairs t ↔ src ∈ t.nis ∧ dst ∈ t.nis ∧ src ≠ dst := by
  simp only [niPairs, mem_flatMap, List.mem_map, mem_filter, decide_eq_true_eq, Prod.mk.injEq]
  constructor
  · rintro ⟨a, ha, b, ⟨hb, hab⟩, rfl, rfl⟩; exact ⟨ha, hb, hab⟩
  · rintro ⟨ha, hb, hab⟩; exact ⟨src, ha, dst, ⟨hb, hab⟩, rfl, rfl⟩

/-- What the loops over the NIs return: one route for each pair, and the dependencies of these routes. -/
theorem routesLoop_ok : ∀ {pairs : List (NodeId × NodeId)} {routes routes' : List (List NodeId)}
    {deps deps' : Deps Channel}, routesLoop t tables fuel pairs routes deps = some (.ok (routes', deps')) →
    ∃ new, routes' = routes ++ new ∧
      Forall₂ (fun p path => IsRoute t tables p.1 p.2 path) pairs new ∧
      ∀ u w, Deps.Edge deps' u w ↔ Deps.Edge deps u w ∨ ∃ path ∈ new, Consecutive path u w
  | [], routes, routes', deps, deps', h => by
    cases h
    exact ⟨[], by simp, .nil, by simp⟩
  | (src, dst) :: rest, routes, routes', deps, deps', h => by
    rw [routesLoop] at h
    split at h
    case h_1 => cases h
    case h_2 router hr =>
      split at h
      case h_1 => cases h
      case h_2 => cases h
      case h_3 path hp =>
        obtain ⟨l, rfl, hl⟩ := routeLoop_ok hp
        obtain ⟨new, rfl, hnew, hedge⟩ := routesLoop_ok h
        have hroute : IsRoute t tables src dst (src :: l) := ⟨router, l, t.niRouter_ok.1 hr, rfl, hl⟩
        refine ⟨(src :: l) :: new, by simp, .cons hroute hnew, fun u w => ?_⟩
        rw [hedge, edge_addRouteDeps]
        simp [or_assoc]

theorem routesLoop_of_routes (hf : t.nbNodes ≤ fuel) : ∀ {pairs : List (NodeId × NodeId)}
    {routes : List (List NodeId)} {deps : Deps Channel},
    (∀ p ∈ pairs, p ∈ niPairs t ∧ ∃ path, IsRoute t tables p.1 p.2 path) →
    ∃ r, routesLoop t tables fuel pairs routes deps = some (.ok r)
  | [], routes, deps, _ => ⟨_, rfl⟩
  | (src, dst) :: rest, routes, deps, h => by
    obtain ⟨hm, path, hp⟩ := h (src, dst) (by simp)
    obtain ⟨hs, hd, hne⟩ := mem_niPairs.1 hm
    have hr : ∃ router, t.adj src = [router] := by obtain ⟨router, _, hr, _⟩ := hp; exact ⟨router, hr⟩
    obtain ⟨router, hr⟩ := hr
    rw [routesLoop]
    simp only [t.niRouter_ok.2 hr, (routeLoop_ok_iff hs hd hne hr hf).2 hp]
    exact routesLoop_of_routes hf fun p hp => h p (mem_cons_of_mem _ hp)

theorem routesLoop_terminates : ∀ (pairs : List (NodeId × NodeId)) (routes : List (List NodeId))
    (deps : Deps Channel), ∃ r, ∀ fuel, t.nbNodes + 1 ≤ fuel → routesLoop t tables fuel pairs routes deps = some r
  | [], routes, deps => ⟨_, fun _ _ => rfl⟩
  | (src, dst) :: rest, routes, deps => by
    cases hr : t.niRouter src with
    | error e => exact ⟨.error e, fun fuel _ => by rw [routesLoop, hr]⟩
    | ok router =>
      obtain ⟨r, h⟩ : ∃ r, routeLoop t tables src dst (t.nbNodes + 1) router [src] = some r :=
        routeLoop_terminates (by omega) (by simp; omega)
      have hmono : ∀ fuel, t.nbNodes + 1 ≤ fuel → routeLoop t tables src dst fuel router [src] = some r :=
        fun fuel hf => routeLoop_mono hf h
      cases r with
      | error e => exact ⟨.error e, fun fuel hf => by rw [routesLoop, hr]; simp only [hmono fuel hf]⟩
      | ok path =>
        obtain ⟨r', hr'⟩ := routesLoop_terminates rest (routes ++ [path]) (addRouteDeps deps path)
        exact ⟨r', fun fuel hf => by rw [routesLoop, hr]; simp only [hmono fuel hf]; exact hr' fuel hf⟩

/-! ## The whole check -/

variable (t tables)

/-- The dependency relation of all routes. -/
def RouteDep (u w : Channel) : Prop :=
  ∃ src dst path, src ∈ t.nis ∧ dst ∈ t.nis ∧ src ≠ dst ∧ IsRoute t tables src dst path ∧ Consecutive path u w

theorem checkRoutes_terminates (allowDeadlock : Bool) :
    ∃ n r, ∀ fuel, n ≤ fuel → checkRoutes t tables fuel allowDeadlock = some r := by
  obtain ⟨r, hr⟩ : ∃ r, ∀ fuel, t.nbNodes + 1 ≤ fuel → routesLoop t tables fuel (niPairs t) [] [] = some r :=
    routesLoop_terminates (niPairs t) [] []
  cases r with
  | error e => exact ⟨t.nbNodes + 1, .error e, fun fuel hf => by rw [checkRoutes, hr fuel hf]⟩
  | ok rd =>
    obtain ⟨routes, deps⟩ := rd
    obtain ⟨c, hc⟩ := findCycle_terminates deps
    have hrun : ∀ fuel, t.nbNodes + 1 + (deps.bound + 1) ≤ fuel →
        checkRoutes t tables fuel allowDeadlock = match (some c : Option (Option (List Channel))) with
          | none => none
          | some none => some (.ok routes)
          | some (some cycle) =>
            if allowDeadlock then some (.ok routes)
            else some (.error (.deadlock (cycle.map fun c => (t.name (ofLex c).1, t.name (ofLex c).2)))) :=
      fun fuel hf => by rw [checkRoutes, hr fuel (by omega)]; simp only [hc fuel (by omega)]
    refine ⟨t.nbNodes + 1 + (deps.bound + 1), ?_⟩
    cases c with
    | none => exact ⟨_, fun fuel hf => hrun fuel hf⟩
    | some cycle =>
      cases allowDeadlock with
      | true => exact ⟨_, fun fuel hf => hrun fuel hf⟩
      | false => exact ⟨_, fun fuel hf => hrun fuel hf⟩

variable {t tables}

/-- The loop over the pairs: one route a pair, and the dependencies of all of them. -/
theorem routesLoop_spec
    (h : routesLoop t tables fuel (niPairs t) [] [] = some (.ok (routes, deps))) :
    Forall₂ (fun p path => IsRoute t tables p.1 p.2 path) (niPairs t) routes ∧
      ∀ u w, Deps.Edge deps u w ↔ RouteDep t tables u w := by
  obtain ⟨new, hnew, hall, hedge⟩ := routesLoop_ok h
  subst hnew
  refine ⟨hall, fun u w => ?_⟩
  have hempty : ¬Deps.Edge ([] : Deps Channel) u w := by simp [Deps.Edge, children]
  rw [hedge, or_iff_right hempty]
  constructor
  · rintro ⟨path, hp, hc⟩
    obtain ⟨⟨src, dst⟩, hpair, hroute⟩ := forall₂_right_mem hall hp
    obtain ⟨hs, hd, hne⟩ := mem_niPairs.1 hpair
    exact ⟨src, dst, path, hs, hd, hne, hroute, hc⟩
  · rintro ⟨src, dst, path, hs, hd, hne, hroute, hc⟩
    obtain ⟨path', hp, hroute'⟩ := forall₂_left_mem hall (mem_niPairs.2 ⟨hs, hd, hne⟩)
    exact ⟨path', hp, hroute.unique hroute' ▸ hc⟩

variable {cycle : List (String × String)}

theorem routeLoop_ne_deadlock : ∀ {fuel : Nat} {curr : NodeId}
    {before : List NodeId}, routeLoop t tables src dst fuel curr before ≠ some (.error (.deadlock cycle))
  | 0, _, _ => by simp [routeLoop]
  | fuel + 1, curr, before => by
    rw [routeLoop]
    split
    · simp
    · split
      · simp
      · split
        · simp
        · split
          · simp
          · split
            · simp
            · exact routeLoop_ne_deadlock

theorem routesLoop_ne_deadlock :
    ∀ {pairs : List (NodeId × NodeId)} {routes : List (List NodeId)} {deps : Deps Channel},
      routesLoop t tables fuel pairs routes deps ≠ some (.error (.deadlock cycle))
  | [], _, _ => by simp [routesLoop]
  | (src, dst) :: rest, routes, deps => by
    rw [routesLoop]
    split
    case h_1 e he =>
      unfold Topology.niRouter at he
      split at he
      · cases he
      · cases he; simp
    case h_2 router _ =>
      split
      case h_1 => simp
      case h_2 e he =>
        intro h
        cases h
        exact routeLoop_ne_deadlock he
      case h_3 => exact routesLoop_ne_deadlock

/-- A successful check returns one route for each pair of NIs, and some ranking increases along them all. -/
theorem checkRoutes_ok (h : checkRoutes t tables fuel false = some (.ok routes)) :
    Forall₂ (fun p path => IsRoute t tables p.1 p.2 path) (niPairs t) routes ∧
      ∃ rank, Ranks (RouteDep t tables) rank := by
  rw [checkRoutes] at h
  split at h
  case h_1 => cases h
  case h_2 => cases h
  case h_3 routes' deps hr =>
    obtain ⟨hall, hedge⟩ := routesLoop_spec hr
    split at h
    case h_1 => cases h
    case h_2 hc =>
      cases h
      obtain ⟨rank, hrank⟩ := findCycle_none hc
      exact ⟨hall, rank, fun u w huw => hrank u w ((hedge u w).2 huw)⟩
    case h_3 => simp at h

theorem checkRoutes_deadlock (h : checkRoutes t tables fuel false = some (.error (.deadlock cycle))) :
    ∃ c, IsCycle (RouteDep t tables) c := by
  rw [checkRoutes] at h
  split at h
  case h_1 => cases h
  case h_2 e hr =>
    cases h
    exact absurd hr routesLoop_ne_deadlock
  case h_3 routes deps hr =>
    split at h
    case h_1 => cases h
    case h_2 => cases h
    case h_3 c hc => exact ⟨c, (findCycle_sound hc).mono fun u w => ((routesLoop_spec hr).2 u w).1⟩

/-- With a route for each pair and a ranking of the channels along them, `check_routes` returns. -/
theorem checkRoutes_of_ranked {r : Except RoutingError (List (List NodeId))}
    (hroutes : ∀ src ∈ t.nis, ∀ dst ∈ t.nis, src ≠ dst → ∃ path, IsRoute t tables src dst path)
    (hrank : ∃ rank, Ranks (RouteDep t tables) rank) (hf : t.nbNodes ≤ fuel)
      (h : checkRoutes t tables fuel false = some r) : ∃ routes, r = .ok routes := by
  obtain ⟨⟨routes, deps⟩, hr⟩ : ∃ r, routesLoop t tables fuel (niPairs t) [] [] = some (.ok r) :=
    routesLoop_of_routes hf fun p hp => by
      obtain ⟨hs, hd, hne⟩ := mem_niPairs.1 (show (p.1, p.2) ∈ niPairs t from hp)
      exact ⟨hp, hroutes p.1 hs p.2 hd hne⟩
  rw [checkRoutes, hr] at h
  cases hc : findCycle fuel deps with
  | none => simp only [hc] at h; cases h
  | some c =>
    simp only [hc] at h
    cases c with
    | none => cases h; exact ⟨routes, rfl⟩
    | some c =>
      obtain ⟨rank, hrank⟩ := hrank
      exact absurd ((findCycle_sound hc).mono fun u w => ((routesLoop_spec hr).2 u w).1) hrank.not_isCycle

/-- `check_routes` ends; it returns iff the tables lead every NI to every other one through existing links without
visiting a node twice and some ranking of the channels increases along all these routes. The search for a cycle ends
too, finds only cycles and misses none. -/
theorem checkRoutes_sound_complete (t : Topology) (tables : Tables) :
    (∃ n r, (∀ fuel, n ≤ fuel → checkRoutes t tables fuel false = some r) ∧
      ((∃ routes, r = .ok routes) ↔
        (∀ src ∈ t.nis, ∀ dst ∈ t.nis, src ≠ dst → ∃ path, IsRoute t tables src dst path ∧ path.Nodup) ∧
        ∃ rank, ∀ src ∈ t.nis, ∀ dst ∈ t.nis, src ≠ dst → ∀ path, IsRoute t tables src dst path →
          Ranks (Consecutive path) rank) ∧
      ∀ routes, r = .ok routes →
        Forall₂ (fun p path => IsRoute t tables p.1 p.2 path) (niPairs t) routes) ∧
    ∀ deps : Deps Channel,
      (∃ n r, ∀ fuel, n ≤ fuel → findCycle fuel deps = some r) ∧
      (∀ fuel c, findCycle fuel deps = some (some c) → IsCycle deps.Edge c) ∧
      (∀ fuel, findCycle fuel deps = some none → ¬∃ c, IsCycle deps.Edge c) := by
  constructor
  · obtain ⟨n, r, hr⟩ := checkRoutes_terminates t tables false
    have hr' : checkRoutes t tables (n + t.nbNodes) false = some r := hr _ (Nat.le_add_right _ _)
    refine ⟨n, r, hr, ⟨?_, ?_⟩, ?_⟩
    · rintro ⟨routes, rfl⟩
      obtain ⟨hall, rank, hrank⟩ := checkRoutes_ok hr'
      refine ⟨fun src hs dst hd hne => ?_, rank, fun src hs dst hd hne path hp u w huw => ?_⟩
      · obtain ⟨path, _, hp⟩ := forall₂_left_mem hall (mem_niPairs.2 ⟨hs, hd, hne⟩)
        exact ⟨path, hp, hp.nodup hs hne⟩
      · exact hrank u w ⟨src, dst, path, hs, hd, hne, hp, huw⟩
    · rintro ⟨hroutes, rank, hrank⟩
      refine checkRoutes_of_ranked (fun src hs dst hd hne => ?_) ⟨rank, fun u w huw => ?_⟩ (by omega) hr'
      · obtain ⟨path, hp, _⟩ := hroutes src hs dst hd hne
        exact ⟨path, hp⟩
      · obtain ⟨src, dst, path, hs, hd, hne, hp, hc⟩ := huw
        exact hrank src hs dst hd hne path hp u w hc
    · rintro routes rfl
      exact (checkRoutes_ok hr').1
  · intro deps
    refine ⟨?_, fun fuel c => findCycle_sound, fun fuel h => ?_⟩
    · obtain ⟨r, hr⟩ := findCycle_terminates deps
      exact ⟨deps.bound + 1, r, fun fuel hf => hr fuel hf⟩
    · obtain ⟨rank, hrank⟩ := findCycle_none h
      rintro ⟨c, hc⟩
      exact hrank.not_isCycle hc

end CheckRoutes

end GvsocPulp.FloonocV2.Routing
