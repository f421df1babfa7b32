import GvsocPulp.FloonocV2.ShortestPath
import GvsocPulp.FloonocV2.UpDownLegal

/-!
# `multi_tree`, and tables without loops

Up*/Down* over several spanning trees; each destination router is routed on the tree whose root is closest.

- `multiTree_cases`: what the generator returns for any number of trees;
- `legalDist`: the length of the shortest legal route; `Descends`: each hop makes it smaller, on the tree of the
  destination;
- `tables_loopFree`: the tables of `shortest_path`, `up_down` and `multi_tree` lead every packet to its NI.
-/

namespace GvsocPulp.FloonocV2.Routing

open Lib List Option

/-! ## The generator -/

def treeStep (routers : List NodeId) (nbTrees : Int) : Nat := (max 1 (Int.fdiv routers.length nbTrees)).toNat

/-- `[routers[(i * step) % len(routers)] for i in range(nb_trees)]`, over the sorted routers. -/
def multiTreeRoots (routers : List NodeId) (nbTrees : Int) : Except RoutingError (List NodeId) :=
  if nbTrees = 0 ∨ (0 < nbTrees ∧ routers = []) then .error .zeroDivision
  else .ok ((List.range nbTrees.toNat).map fun i => routers.getD (i * treeStep routers nbTrees % routers.length) 0)

/-- `[_bfs_levels(topo, root) for root in roots]`; `none` when the fuel runs out. -/
def treesOf (t : Topology) (fuel : Nat) : List NodeId → Option (Except RoutingError (List Levels))
  | [] => some (.ok [])
  | root :: rest =>
    match bfsLevels t fuel root with
    | none => none
    | some (.error e) => some (.error e)
    | some (.ok levels) => (treesOf t fuel rest).map fun r => r.map (levels :: ·)

/-- `[_up_down_first_hops(topo, levels) for levels in trees]`; `none` when the fuel runs out. -/
def treeHopsOf (t : Topology) (fuel : Nat) : List Levels → Option (List (List (NodeId × Hops)))
  | [] => some []
  | levels :: rest =>
    match upDownFirstHops t levels fuel t.routers with
    | none => none
    | some hops => (treeHopsOf t fuel rest).map (hops :: ·)

/-- `min(range(nb_trees), key=lambda t: (trees[t][router], t))`. -/
def destTree (trees : List Levels) (router : NodeId) : Option Nat :=
  (List.range trees.length).argmin fun i => toLex ((trees.getD i []).level router, i)

/-- The first hops of `src`, each from the tree of its target. -/
def multiTreeHops (t : Topology) (trees : List Levels) (treeHops : List (List (NodeId × Hops))) (src : NodeId) : Hops :=
  t.routers.filterMap fun target =>
    if target = src then none
    else
      ((((treeHops.getD ((destTree trees target).getD 0) []).lookup src).getD []).lookup target).map fun hop =>
        (target, hop)

/-- `multi_tree(topo, nb_trees)`; `none` when the fuel runs out. -/
def multiTree (t : Topology) (fuel : Nat) (nbTrees : Int) : Option (Except RoutingError Tables) :=
  let routers := t.routers.mergeSort
  match multiTreeRoots routers nbTrees with
  | .error e => some (.error e)
  | .ok roots =>
    match treesOf t fuel roots with
    | none => none
    | some (.error e) => some (.error e)
    | some (.ok trees) =>
      match treeHopsOf t fuel trees with
      | none => none
      | some treeHops =>
        -- no tree is the closest one of a router when there is none
        if routers.any fun router => (destTree trees router).isNone then some (.error .minEmpty)
        else some (tablesFromFirstHops t (t.routers.map fun src => (src, multiTreeHops t trees treeHops src)) t.routers)

/-! ## What the generator returns -/

section Runs

variable {t : Topology} {levels : Levels}

theorem treesOf_ok {fuel : Nat} {tree : NodeId → Levels} : ∀ {roots : List NodeId},
    (∀ root ∈ roots, bfsLevels t fuel root = some (.ok (tree root))) →
    treesOf t fuel roots = some (.ok (roots.map tree))
  | [], _ => rfl
  | root :: rest, h => by
    rw [treesOf, h root (by simp)]
    simp only
    rw [treesOf_ok fun r hr => h r (mem_cons_of_mem _ hr)]
    rfl

theorem treeHopsOf_eq {fuel : Nat} {hops : Levels → NodeId → Hops} : ∀ {trees : List Levels},
    (∀ levels ∈ trees, upDownFirstHops t levels fuel t.routers = some (t.routers.map fun u => (u, hops levels u))) →
    treeHopsOf t fuel trees = some (trees.map fun levels => t.routers.map fun u => (u, hops levels u))
  | [], _ => rfl
  | levels :: rest, h => by
    rw [treeHopsOf, h levels (by simp)]
    simp only
    rw [treeHopsOf_eq fun l hl => h l (mem_cons_of_mem _ hl)]
    rfl

theorem lookup_filterMap {g : NodeId → Option NodeId} {w : NodeId} : ∀ {l : List NodeId},
    (l.filterMap fun v => (g v).map fun x => (v, x)).lookup w = if w ∈ l then g w else none
  | [] => rfl
  | v :: l => by
    have ih := @lookup_filterMap g w l
    rw [filterMap_cons]
    by_cases hwv : w = v
    · subst hwv
      rw [if_pos mem_cons_self]
      cases hg : g w with
      | some x => simp
      | none =>
        simp only [map_none]
        rw [ih, hg, ite_self]
    · have hmem : w ∈ v :: l ↔ w ∈ l := by simp [hwv]
      have hb : (w == v) = false := by simpa using hwv
      rw [if_congr hmem rfl rfl, ← ih]
      cases g v with
      | some x =>
        simp only [map_some]
        rw [lookup_cons, hb]
      | none => rfl

theorem destTree_isSome {trees : List Levels} (hne : trees ≠ []) (w : NodeId) :
    ∃ i, destTree trees w = some i ∧ i < trees.length := by
  unfold destTree
  cases h : (List.range trees.length).argmin fun i => toLex ((trees.getD i []).level w, i) with
  | none =>
    rw [argmin_eq_none, range_eq_nil, length_eq_zero_iff] at h
    exact absurd h hne
  | some i => exact ⟨i, rfl, mem_range.1 (argmin_mem h)⟩

def levelsTo (trees : List Levels) (w : NodeId) : Levels := trees.getD ((destTree trees w).getD 0) []

/-- On a connected network with routers and a positive number of trees, `multi_tree` returns the first hops on the tree
of each destination. -/
theorem multiTree_ok {nbTrees : Int} (hpos : 0 < nbTrees) (hne : t.routers ≠ []) (hconn : Connected t)
    (hni : ∀ ni ∈ t.nis, ∃ r, t.adj ni = [r]) :
    ∃ n roots trees hops tables, multiTreeRoots t.routers.mergeSort nbTrees = .ok roots ∧ (∀ fuel, n ≤ fuel →
        treesOf t fuel roots = some (.ok trees) ∧ multiTree t fuel nbTrees = some (.ok tables)) ∧
      HopTables t hops tables ∧ ∀ w ∈ t.routers, (∀ u ∈ t.routers, ∃ l, LegalRoute t (levelsTo trees w) false u w l) ∧
        ∀ u ∈ t.routers, w ≠ u → ∃ v, (hops u).lookup w = some v ∧ FirstHop t (levelsTo trees w) u w v := by
  have hlen : 0 < t.routers.mergeSort.length := by
    rw [length_mergeSort]
    exact length_pos_iff.2 hne
  have hsorted : t.routers.mergeSort ≠ [] := ne_nil_of_length_pos hlen
  -- the roots are routers
  have hroots : ∃ roots, multiTreeRoots t.routers.mergeSort nbTrees = .ok roots ∧ roots ≠ [] ∧ ∀ r ∈ roots,
    r ∈ t.routers := by
    unfold multiTreeRoots
    rw [if_neg (by simp only [hsorted, and_false, or_false]; omega)]
    refine ⟨_, rfl, ?_, ?_⟩
    · intro hnil
      rw [map_eq_nil_iff, range_eq_nil] at hnil
      omega
    · intro r hr
      obtain ⟨i, -, rfl⟩ := mem_map.1 hr
      rw [getD_eq_getElem _ _ (Nat.mod_lt _ hlen)]
      exact mem_mergeSort.1 (getElem_mem _)
  obtain ⟨roots, hrun, hrootsne, hmem⟩ := hroots
  -- the trees and their first hops
  have htree : ∀ root, ∃ levels, root ∈ t.routers →
      (∀ fuel, t.routers.length + 1 < fuel → bfsLevels t fuel root = some (.ok levels)) ∧
      ∀ v ∈ t.routers, v ≠ root → ∃ p ∈ t.routerAdj v, levels.level p < levels.level v := by
    intro root
    by_cases hroot : root ∈ t.routers
    · obtain ⟨levels, h⟩ := bfsLevels_spec hconn hroot
      exact ⟨levels, fun _ => h⟩
    · exact ⟨[], fun h => absurd h hroot⟩
  choose tree htree using htree
  have hhops : ∀ levels, ∃ hops : NodeId → Hops, levels ∈ roots.map tree →
      (∀ fuel, upDownBound t < fuel → upDownFirstHops t levels fuel t.routers =
        some (t.routers.map fun u => (u, hops u))) ∧
      (∀ u ∈ t.routers, ∀ w v, w ≠ u → ((hops u).lookup w = some v ↔ FirstHop t levels u w v)) ∧
      ∀ u ∈ t.routers, ∀ w ∈ t.routers, w ≠ u → ∃ v, (hops u).lookup w = some v := by
    intro levels
    by_cases hl : levels ∈ roots.map tree
    · obtain ⟨root, hroot, rfl⟩ := mem_map.1 hl
      obtain ⟨hops, h⟩ := upDownFirstHops_spec (htree root (hmem root hroot)).2
      exact ⟨hops, fun _ => h⟩
    · exact ⟨fun _ => [], fun h => absurd h hl⟩
  choose hops hhops using hhops
  have htrees : roots.map tree ≠ [] := by simpa using hrootsne
  have hto : ∀ w, levelsTo (roots.map tree) w ∈ roots.map tree := by
    intro w
    obtain ⟨i, hi, hlt⟩ := destTree_isSome htrees w
    rw [levelsTo, hi, getD_some, getD_eq_getElem _ _ hlt]
    exact getElem_mem _
  -- a first hop of the generator is that of the destination's tree
  have hlookup : ∀ u ∈ t.routers, ∀ w ∈ t.routers, w ≠ u →
      (multiTreeHops t (roots.map tree) ((roots.map tree).map fun levels => t.routers.map fun v => (v, hops levels v))
        u).lookup w = (hops (levelsTo (roots.map tree) w) u).lookup w := by
    intro u hu w hw hwu
    obtain ⟨i, hi, hlt⟩ := destTree_isSome htrees w
    have hform : ∀ target, (if target = u then none
        else ((((((roots.map tree).map fun levels => t.routers.map fun v => (v, hops levels v)).getD
          ((destTree (roots.map tree) target).getD 0) []).lookup u).getD []).lookup target).map fun hop =>
            (target, hop)) =
        (if target = u then none
          else (((((roots.map tree).map fun levels => t.routers.map fun v => (v, hops levels v)).getD
            ((destTree (roots.map tree) target).getD 0) []).lookup u).getD []).lookup target).map fun hop =>
              (target, hop) := by
      intro target
      split <;> rfl
    unfold multiTreeHops
    simp only [hform]
    rw [lookup_filterMap, if_pos hw, if_neg hwu, hi, getD_some, getD_eq_getElem _ _ (by simpa using hlt),
      getElem_map, lookup_map_of_mem hu, getD_some, levelsTo, hi, getD_some,
      getD_eq_getElem _ _ hlt]
  obtain ⟨tables, htables, hT⟩ := @hopTables_of_hops t (multiTreeHops t (roots.map tree)
      ((roots.map tree).map fun levels => t.routers.map fun v => (v, hops levels v))) hni (by
    intro u hu ni hm w hw hwu
    have hwr := router_of_attached hm hw
    rw [hlookup u hu w hwr hwu]
    exact (hhops _ (hto w)).2.2 u hu w hwr hwu)
  refine ⟨t.routers.length + upDownBound t + 2, roots, roots.map tree, _, tables, hrun, fun fuel hf => ?_, hT, ?_⟩
  · have hts : treesOf t fuel roots = some (.ok (roots.map tree)) :=
      treesOf_ok fun root hroot => (htree root (hmem root hroot)).1 fuel (by omega)
    have hths := treeHopsOf_eq fun levels hl => (hhops levels hl).1 fuel (by omega)
    have hany : (t.routers.mergeSort.any fun router => (destTree (roots.map tree) router).isNone) = false := by
      rw [List.any_eq_false]
      intro w _
      obtain ⟨i, hi, -⟩ := destTree_isSome htrees w
      rw [hi]
      simp
    refine ⟨hts, ?_⟩
    rw [multiTree]
    simp only [hrun, hts, hths, hany]
    rw [if_neg (by simp), htables]
  · intro w hw
    obtain ⟨root, hroot, hlv⟩ := mem_map.1 (hto w)
    refine ⟨fun u hu => ?_, fun u hu hwu => ?_⟩
    · rw [← hlv]
      exact legalRoute_of_levels (htree root (hmem root hroot)).2 hu hw
    · obtain ⟨-, hspec, hsome⟩ := hhops _ (hto w)
      obtain ⟨v, hv⟩ := hsome u hu w hw hwu
      exact ⟨v, (hlookup u hu w hw hwu).trans hv, (hspec u hu w v hwu).1 hv⟩

theorem multiTree_none {nbTrees : Int} (h : nbTrees ≤ 0 ∨ t.routers = []) (fuel : Nat) :
    ∃ r, multiTree t fuel nbTrees = some r ∧ ((∃ e, r = .error e) ∨ (t.routers = [] ∧ r = .ok [])) := by
  by_cases hzero : nbTrees = 0 ∨ (0 < nbTrees ∧ t.routers.mergeSort = [])
  · refine ⟨.error .zeroDivision, ?_, .inl ⟨_, rfl⟩⟩
    rw [multiTree, multiTreeRoots, if_pos hzero]
  · have hneg : nbTrees < 0 := by
      have hsorted : t.routers = [] → t.routers.mergeSort = [] := fun hnil => by rw [hnil, mergeSort_nil]
      simp only [not_or, not_and] at hzero
      rcases h with h | h
      · omega
      · by_contra hge
        exact hzero.2 (by omega) (hsorted h)
    have hroots : multiTreeRoots t.routers.mergeSort nbTrees = .ok [] := by
      rw [multiTreeRoots, if_neg hzero, Int.toNat_of_nonpos (by omega)]
      rfl
    rw [multiTree, hroots]
    simp only [treesOf, treeHopsOf]
    by_cases hnil : t.routers = []
    · refine ⟨.ok [], ?_, .inr ⟨hnil, rfl⟩⟩
      rw [hnil, mergeSort_nil]
      rfl
    · refine ⟨.error .minEmpty, ?_, .inl ⟨_, rfl⟩⟩
      rw [if_pos]
      obtain ⟨r, hr⟩ := exists_mem_of_ne_nil _ hnil
      exact List.any_eq_true.2 ⟨r, mem_mergeSort.2 hr, rfl⟩

end Runs

/-! ## Shortest legal routes -/

section Descent

variable {t : Topology} {levels : Levels}

variable (t levels) in
noncomputable def legalDist (u w : NodeId) : Nat := sInf {k | ∃ l, LegalRoute t levels false u w l ∧ l.length = k + 1}

theorem LegalRoute.exists_shortest {u w : NodeId} {l : List NodeId} (h : LegalRoute t levels false u w l) :
    ∃ l, LegalRoute t levels false u w l ∧ l.length = legalDist t levels u w + 1 := by
  refine Nat.sInf_mem (s := {k | ∃ l, LegalRoute t levels false u w l ∧ l.length = k + 1}) ⟨l.length - 1, l, h, ?_⟩
  have := h.length_pos
  omega

theorem LegalRoute.legalDist_lt {u w : NodeId} {l : List NodeId} (h : LegalRoute t levels false u w l) :
    legalDist t levels u w < l.length := by
  have hpos := h.length_pos
  have hle : legalDist t levels u w ≤ l.length - 1 := Nat.sInf_le ⟨l, h, by omega⟩
  omega

theorem FirstHop.legalDist_lt {u w v : NodeId} {l : List NodeId} (h : FirstHop t levels u w v)
    (hl : LegalRoute t levels false u w l) (hwu : w ≠ u) : legalDist t levels v w < legalDist t levels u w := by
  obtain ⟨k, ⟨-, r, hr, hlen⟩, hmin⟩ := h
  obtain ⟨l₀, hl₀, hlen₀⟩ := hl.exists_shortest
  obtain ⟨v', hv'⟩ := hl₀.via hwu
  have hle := hmin v' _ hv'
  have hlt := hr.weaken.legalDist_lt
  omega

variable (t) in
/-- The tables lead every packet to its NI; on the levels of its destination, the shortest legal route is the longest
way it can take and gets shorter at every hop. -/
structure Descends (levelsOf : NodeId → Levels) (tables : Tables) : Prop where
  arrives : ∀ u ∈ t.routers, ∀ ni ∈ t.nis, ∀ w, t.adj ni = [w] →
    ∃ l, RoutesTo t tables ni u l ∧ l.length ≤ legalDist t (levelsOf w) u w + 2
  descends : ∀ u ∈ t.routers, ∀ ni ∈ t.nis, ∀ w, t.adj ni = [w] → w ≠ u →
    ∃ v ∈ t.routerAdj u, tables.hop u ni = some v ∧ legalDist t (levelsOf w) v w < legalDist t (levelsOf w) u w
  found : RoutesFound t tables

theorem HopTables.descends {hops : NodeId → Hops} {tables : Tables} {levelsOf : NodeId → Levels}
    (hT : HopTables t hops tables)
    (hspec : ∀ w ∈ t.routers, (∀ u ∈ t.routers, ∃ l, LegalRoute t (levelsOf w) false u w l) ∧
      ∀ u ∈ t.routers, w ≠ u → ∃ v, (hops u).lookup w = some v ∧ FirstHop t (levelsOf w) u w v) :
    Descends t levelsOf tables := by
  have hstep : ∀ w ∈ t.routers, ∀ u ∈ t.routers, w ≠ u → ∃ v ∈ t.routerAdj u, (hops u).lookup w = some v ∧
      legalDist t (levelsOf w) v w < legalDist t (levelsOf w) u w := by
    intro w hw u hu hwu
    obtain ⟨hlegal, hfirst⟩ := hspec w hw
    obtain ⟨l, hl⟩ := hlegal u hu
    obtain ⟨v, hv, hvw⟩ := hfirst u hu hwu
    have hadj : v ∈ t.routerAdj u := by
      obtain ⟨k, hvia, -⟩ := id hvw
      exact hvia.1
    exact ⟨v, hadj, hv, hvw.legalDist_lt hl hwu⟩
  have harrives : ∀ u ∈ t.routers, ∀ ni ∈ t.nis, ∀ w, t.adj ni = [w] →
      ∃ l, RoutesTo t tables ni u l ∧ l.length ≤ legalDist t (levelsOf w) u w + 2 := by
    intro u hu ni hm w hw
    exact hT.routesTo hm hw (fun v => legalDist t (levelsOf w) v w) (hstep w (router_of_attached hm hw)) hu
  refine ⟨harrives, fun u hu ni hm w hw hwu => ?_, routesFound_of_routesTo hT.attached fun u hu ni hm => ?_⟩
  · obtain ⟨v, hadj, hv, hlt⟩ := hstep w (router_of_attached hm hw) u hu hwu
    refine ⟨v, hadj, ?_, hlt⟩
    rw [hT.hop_eq u hu ni hm w hw, if_neg hwu, hv]
  · obtain ⟨w, hw⟩ := hT.attached ni hm
    obtain ⟨l, hl, -⟩ := harrives u hu ni hm w hw
    exact ⟨l, hl⟩

end Descent

/-! ## The whole result -/

/-- **Tables without loops.** On a connected network with one link for each NI, the tables of `shortest_path`, `up_down`
and `multi_tree` lead every packet from every router to every NI; `multi_tree` returns tables for every positive number
of trees and raises for any other one. -/
theorem tables_loopFree (t : Topology) (hconn : Connected t) (hni : ∀ ni ∈ t.nis, ∃ r, t.adj ni = [r]) :
    (∃ n tables, (∀ fuel, n ≤ fuel → shortestPath t fuel = some (.ok tables)) ∧
      (∀ u ∈ t.routers, ∀ ni ∈ t.nis, ∀ w, t.adj ni = [w] →
        ∃ l, RoutesTo t tables ni u l ∧ l.length = (routerGraph t).dist u w + 2) ∧
      RoutesFound t tables) ∧
    (∀ root? root, upDownRoot t root? = some root → root ∈ t.routers →
      ∃ n levels tables, (∀ fuel, n ≤ fuel →
          bfsLevels t fuel root = some (.ok levels) ∧ upDown t fuel root? = some (.ok tables)) ∧
        Descends t (fun _ => levels) tables) ∧
    (∀ nbTrees : Int, 0 < nbTrees → t.routers ≠ [] →
      ∃ n roots trees tables, multiTreeRoots t.routers.mergeSort nbTrees = .ok roots ∧ (∀ fuel, n ≤ fuel →
          treesOf t fuel roots = some (.ok trees) ∧ multiTree t fuel nbTrees = some (.ok tables)) ∧
        Descends t (levelsTo trees) tables) ∧
    ∀ nbTrees : Int, nbTrees ≤ 0 ∨ t.routers = [] → ∀ fuel,
      ∃ r, multiTree t fuel nbTrees = some r ∧ ((∃ e, r = .error e) ∨ (t.routers = [] ∧ r = .ok [])) := by
  refine ⟨shortestPath_exact hconn hni, ?_, ?_, fun nbTrees h fuel => multiTree_none h fuel⟩
  · intro root? root hroot? hroot
    obtain ⟨n, levels, hops, tables, hrun, hlev, hspec, hT⟩ := upDown_run hroot? hroot hconn hni
    refine ⟨n, levels, tables, hrun, hT.descends fun w hw => ⟨fun u hu => legalRoute_of_levels hlev hu hw, ?_⟩⟩
    intro u hu hwu
    obtain ⟨l, hl⟩ := legalRoute_of_levels hlev hu hw
    obtain ⟨v, hv⟩ := hl.via hwu
    obtain ⟨v, hv⟩ := FirstHop.of_via hv
    exact ⟨v, (hspec u hu w v hwu).2 hv, hv⟩
  · intro nbTrees hpos hne
    obtain ⟨n, roots, trees, hops, tables, hroots, hrun, hT, hspec⟩ := multiTree_ok hpos hne hconn hni
    exact ⟨n, roots, trees, tables, hroots, hrun, hT.descends hspec⟩

/-- Two trees on the bridged ring, rooted at its first and its middle router. -/
theorem tables_loopFree_bridgedRing :
    ∃ n trees tables, (∀ fuel, n ≤ fuel → treesOf bridgedRing fuel [0, 3] = some (.ok trees) ∧
        multiTree bridgedRing fuel 2 = some (.ok tables)) ∧ Descends bridgedRing (levelsTo trees) tables := by
  obtain ⟨-, -, hmulti, -⟩ := tables_loopFree bridgedRing bridgedRing_connected bridgedRing_attached
  obtain ⟨n, roots, trees, tables, hroots, hrun, hdescends⟩ := hmulti 2 (by decide) (by decide +kernel)
  have hroots' : multiTreeRoots bridgedRing.routers.mergeSort 2 = .ok [0, 3] := by
    have hrouters : bridgedRing.routers = [0, 1, 2, 3, 4, 5, 6] := by decide +kernel
    rw [hrouters, mergeSort_of_pairwise (by decide)]
    decide
  cases hroots.symm.trans hroots'
  exact ⟨n, trees, tables, hrun, hdescends⟩

end GvsocPulp.FloonocV2.Routing
