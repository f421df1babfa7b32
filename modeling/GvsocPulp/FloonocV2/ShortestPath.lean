import GvsocPulp.FloonocV2.FirstHops

/-!
# `shortest_path`

A breadth-first search from each router; the first hops are handed on along the search tree.

- `shortestLoop_eq`: the loop is a labelled search;
- `shortestLoop_spec`: it ends, and the first hop towards each router brings the graph distance down by one;
- `shortestPath_exact`: the routes have exactly the graph distance.
-/

namespace GvsocPulp.FloonocV2.Routing

open Lib List Option

/-! ## The generator -/

/-- `for neighbour in topo.router_adj(src)`: the neighbours of the source are their own first hops. -/
def visitFirst : List NodeId → Hops → List NodeId → Hops × List NodeId
  | [], hops, queue => (hops, queue)
  | n :: ns, hops, queue =>
    if (hops.lookup n).isSome then visitFirst ns hops queue
    else visitFirst ns (hops ++ [(n, n)]) (queue ++ [n])

/-- `for neighbour in topo.router_adj(curr)`: a new router takes the first hop of the current one. -/
def visitShortest (src hop : NodeId) : List NodeId → Hops → List NodeId → Hops × List NodeId
  | [], hops, queue => (hops, queue)
  | n :: ns, hops, queue =>
    if n ≠ src ∧ (hops.lookup n).isNone then visitShortest src hop ns (hops ++ [(n, hop)]) (queue ++ [n])
    else visitShortest src hop ns hops queue

/-- The `while queue` loop; every queued router has its first hop. -/
def shortestLoop (t : Topology) (src : NodeId) : Nat → Hops → List NodeId → Option Hops
  | 0, _, _ => none
  | _ + 1, hops, [] => some hops
  | fuel + 1, hops, curr :: queue =>
    let (hops', queue') := visitShortest src ((hops.lookup curr).getD curr) (t.routerAdj curr) hops queue
    shortestLoop t src fuel hops' queue'

/-- `for src in topo.routers`; `none` when the fuel runs out. -/
def shortestFirstHops (t : Topology) (fuel : Nat) : List NodeId → Option (List (NodeId × Hops))
  | [] => some []
  | src :: rest =>
    let (hops, queue) := visitFirst (t.routerAdj src) [] []
    match shortestLoop t src fuel hops queue with
    | none => none
    | some hops => (shortestFirstHops t fuel rest).map ((src, hops) :: ·)

/-- `shortest_path(topo)`; `none` when the fuel runs out. -/
def shortestPath (t : Topology) (fuel : Nat) : Option (Except RoutingError Tables) :=
  (shortestFirstHops t fuel t.routers).map fun firstHops => tablesFromFirstHops t firstHops t.routers

/-! ## The loop is a search -/

variable {t : Topology} {src : NodeId}

/-- `hops[neighbour] = hops[curr]`, or the neighbour itself at the source. -/
def handOn (hop : Option NodeId) (n : NodeId) : Option NodeId := some (hop.getD n)

/-- An entry of the search, as `hops` has it. -/
def hopEntry (e : NodeId × Option NodeId) : NodeId × NodeId := (e.1, e.2.getD e.1)

theorem visitFirst_eq : ∀ (ns : List NodeId) (hops : Hops) (queue : List NodeId),
    (hops.map Prod.fst ++ ns).Nodup → visitFirst ns hops queue = (hops ++ ns.map fun n => (n, n), queue ++ ns)
  | [], hops, queue, _ => by simp [visitFirst]
  | n :: ns, hops, queue, hnd => by
    have hn : n ∉ hops.map Prod.fst := by
      intro hn
      exact (nodup_append.1 hnd).2.2 n hn n (by simp) rfl
    have hnd' : ((hops ++ [(n, n)]).map Prod.fst ++ ns).Nodup := by simpa using hnd
    unfold visitFirst
    rw [if_neg fun h => hn (lookup_isSome.1 h), visitFirst_eq ns _ _ hnd']
    simp

theorem visitShortest_eq {hop : NodeId} : ∀ (ns : List NodeId) (hops : Hops) (queue : List NodeId),
    visitShortest src hop ns hops queue =
      (hops ++ (scan handOn (some hop) (src :: hops.map Prod.fst) ns).map hopEntry,
       queue ++ (scan handOn (some hop) (src :: hops.map Prod.fst) ns).map Prod.fst)
  | [], hops, queue => by simp [visitShortest, scan]
  | n :: ns, hops, queue => by
    unfold visitShortest scan
    by_cases hn : n ∈ src :: hops.map Prod.fst
    · have hnot : ¬(n ≠ src ∧ (hops.lookup n).isNone) := by
        rintro ⟨hsrc, hnone⟩
        have hsome := lookup_isSome.2 ((mem_cons.1 hn).resolve_left hsrc)
        rw [isNone_iff_eq_none] at hnone
        rw [hnone] at hsome
        cases hsome
      rw [if_neg hnot, if_pos hn, visitShortest_eq]
    · have hyes : n ≠ src ∧ (hops.lookup n).isNone := by
        simp only [mem_cons, not_or] at hn
        refine ⟨hn.1, ?_⟩
        rw [← not_isSome, Bool.not_eq_true']
        by_contra hsome
        exact hn.2 (lookup_isSome.1 (by simpa using hsome))
      rw [if_pos hyes, if_neg hn, visitShortest_eq]
      simp [handOn, hopEntry]

/-- The dictionary holds the routers that have left the queue, then the waiting ones. -/
theorem shortestLoop_eq : ∀ (fuel : Nat) (popped queue : List (NodeId × Option NodeId)),
    (src :: (popped ++ queue).map Prod.fst).Nodup → (∀ e ∈ queue, e.2.isSome) →
    shortestLoop t src fuel ((popped ++ queue).map hopEntry) (queue.map Prod.fst) =
      (bfs t.routerAdj handOn fuel (src :: (popped ++ queue).map Prod.fst) queue).map fun order =>
        (popped ++ order).map hopEntry
  | 0, _, _, _, _ => rfl
  | _ + 1, popped, [], _, _ => by simp [shortestLoop, bfs]
  | fuel + 1, popped, (s, l) :: queue, hnd, hsome => by
    obtain ⟨hop, rfl⟩ := isSome_iff_exists.1 (hsome (s, l) (by simp))
    have hkeys : ∀ es : List (NodeId × Option NodeId), (es.map hopEntry).map Prod.fst = es.map Prod.fst := by
      intro es
      rw [List.map_map]
      rfl
    have hlookup : List.lookup s ((popped ++ (s, some hop) :: queue).map hopEntry) = some hop := by
      refine (lookup_eq_some_iff_mem ?_).2 ?_
      · rw [hkeys]
        exact (nodup_cons.1 hnd).2
      · exact List.mem_map.2 ⟨(s, some hop), by simp, rfl⟩
    -- what the scan of `s` adds
    generalize hscan : scan handOn (some hop) (src :: (popped ++ (s, some hop) :: queue).map Prod.fst)
      (t.routerAdj s) = new
    have hnd' : (src :: (popped ++ [(s, some hop)] ++ (queue ++ new)).map Prod.fst).Nodup := by
      have hsplit : src :: (popped ++ [(s, some hop)] ++ (queue ++ new)).map Prod.fst =
          (src :: (popped ++ (s, some hop) :: queue).map Prod.fst) ++ new.map Prod.fst := by simp
      rw [hsplit]
      refine nodup_append.2 ⟨hnd, ?_, fun a ha b hb hab => ?_⟩
      · rw [← hscan]
        exact scan_nodup
      · rw [← hscan] at hb
        exact (mem_scan_fst.1 (hab ▸ hb)).2 ha
    have hsome' : ∀ e ∈ queue ++ new, e.2.isSome := by
      intro e he
      rcases mem_append.1 he with he | he
      · exact hsome e (mem_cons_of_mem _ he)
      · rw [← hscan] at he
        rw [scan_label he]
        rfl
    have ih := shortestLoop_eq fuel (popped ++ [(s, some hop)]) (queue ++ new) hnd' hsome'
    have hdict : (popped ++ (s, some hop) :: queue).map hopEntry ++ new.map hopEntry =
        (popped ++ [(s, some hop)] ++ (queue ++ new)).map hopEntry := by simp
    have hvisited : src :: (popped ++ (s, some hop) :: queue).map Prod.fst ++ new.map Prod.fst =
        src :: (popped ++ [(s, some hop)] ++ (queue ++ new)).map Prod.fst := by simp
    rw [map_cons, shortestLoop, hlookup, getD_some, visitShortest_eq, hkeys, hscan, bfs, hscan]
    simp only
    rw [hdict, ← map_append, ih, hvisited, Option.map_map]
    congr 1
    funext order
    simp

theorem shortestLoop_start (fuel : Nat) :
    (bfs t.routerAdj handOn (fuel + 1) [src] [(src, none)]).map (fun order => order.tail.map hopEntry) =
      shortestLoop t src fuel (visitFirst (t.routerAdj src) [] []).1 (visitFirst (t.routerAdj src) [] []).2 := by
  have hsrc : src ∉ t.routerAdj src := fun h => t.adj_irrefl src (t.mem_routerAdj.1 h).1
  have hscan : ∀ ns visited : List NodeId, (visited ++ ns).Nodup →
      scan handOn none visited ns = ns.map fun n => (n, some n) := by
    intro ns
    induction ns with
    | nil => intro visited _; rfl
    | cons n ns ih =>
      intro visited hnd
      have hn : n ∉ visited := fun hn => (nodup_append.1 hnd).2.2 n hn n (by simp) rfl
      rw [scan, if_neg hn, ih (visited ++ [n]) (by simpa using hnd)]
      rfl
  have hnd : ([src] ++ t.routerAdj src).Nodup := nodup_cons.2 ⟨hsrc, t.routerAdj_nodup src⟩
  have hkeys : ((t.routerAdj src).map fun n => (n, some n)).map Prod.fst = t.routerAdj src := by
    rw [List.map_map]
    exact List.map_id _
  have hloop := @shortestLoop_eq t src fuel [] ((t.routerAdj src).map fun n => (n, some n))
    (by rw [nil_append, hkeys]; exact hnd) (by simp)
  rw [visitFirst_eq _ _ _ (by simpa using t.routerAdj_nodup src), bfs, hscan _ _ hnd, Option.map_map]
  simp only [nil_append, hkeys] at hloop ⊢
  have hentry : (t.routerAdj src).map (fun n => (n, n)) =
    ((t.routerAdj src).map fun n => (n, some n)).map hopEntry := by
    rw [List.map_map]
    rfl
  rw [hentry, hloop]
  rfl

/-! ## Distances -/

def countLinks : HopLabel → NodeId → HopLabel
  | none, n => some (0, n)
  | some (k, v), _ => some (k + 1, v)

/-- Fewer links. -/
def countLe : HopLabel → HopLabel → Prop
  | none, _ => True
  | some _, none => False
  | some (k, _), some (k', _) => k ≤ k'

theorem countLe_trans : ∀ a b c : HopLabel, countLe a b → countLe b c → countLe a c
  | none, _, _, _, _ => trivial
  | some _, none, _, h, _ => h.elim
  | some _, some _, none, _, h => h.elim
  | some _, some _, some _, h, h' => h.trans h'

theorem monotone_countLinks : MonotoneLabels t.routerAdj countLinks countLe src none where
  refl := by
    rintro (_ | ⟨k, v⟩)
    · trivial
    · exact le_rfl
  start_le := fun _ _ => trivial
  ne_start := by rintro (_ | ⟨k, v⟩) n <;> simp [countLinks]
  mono := by
    rintro (_ | ⟨k, v⟩) (_ | ⟨k', v'⟩) n n' h hne
    · exact absurd rfl hne
    · exact Nat.zero_le _
    · exact absurd rfl hne
    · exact Nat.succ_le_succ h
  sorted := by
    rw [pairwise_map]
    exact pairwise_of_forall fun _ _ => le_refl 0

theorem countLinks_snd (l : HopLabel) (n : NodeId) : (countLinks l n).map Prod.snd = handOn (l.map Prod.snd) n := by
  rcases l with _ | ⟨k, v⟩ <;> rfl

variable (t) in
def routerGraph : SimpleGraph NodeId where
  Adj u v := u ∈ t.routers ∧ v ∈ t.routerAdj u
  symm := ⟨fun _ _ h => ⟨(t.mem_routerAdj.1 h.2).2, t.routerAdj_symm h.1 h.2⟩⟩
  loopless := ⟨fun u h => t.adj_irrefl u (t.mem_routerAdj.1 h.2).1⟩

theorem reachable_of_connected (hconn : Connected t) {u w : NodeId} (hu : u ∈ t.routers) (hw : w ∈ t.routers) :
    (routerGraph t).Reachable u w := by
  have h := hconn u hu w hw
  clear hw
  induction h with
  | refl => exact .refl _
  | @tail b c hb hc ih =>
    have hbr : b ∈ t.routers := by
      rcases Relation.ReflTransGen.cases_tail hb with rfl | ⟨a, -, hab⟩
      · exact hu
      · exact (t.mem_routerAdj.1 hab).2
    exact ih.trans (SimpleGraph.Adj.reachable ⟨hbr, hc⟩)

/-- The label of a walk of the search: the first hop, and as many links as the rest of the walk has. -/
theorem graphWalk_of_walk (hsrc : src ∈ t.routers) {w : NodeId} {l : HopLabel}
    (h : Walk t.routerAdj countLinks src none w l) : w ∈ t.routers ∧ (l = none → w = src) ∧
      ∀ k v, l = some (k, v) → v ∈ t.routerAdj src ∧ ∃ p : (routerGraph t).Walk v w, p.length = k := by
  induction h with
  | start => exact ⟨hsrc, fun _ => rfl, nofun⟩
  | @step s l n hs hn ih =>
    obtain ⟨hsr, hnone, hsome⟩ := ih
    refine ⟨(t.mem_routerAdj.1 hn).2, fun hl => ?_, fun k v hl => ?_⟩
    · rcases l with _ | ⟨k, v⟩ <;> cases hl
    · rcases l with _ | ⟨k', v'⟩
      · cases hl
        rw [hnone rfl] at hn
        exact ⟨hn, .nil, rfl⟩
      · cases hl
        obtain ⟨hv, p, rfl⟩ := hsome k' _ rfl
        have hadj : (routerGraph t).Adj s n := ⟨hsr, hn⟩
        exact ⟨hv, p.concat hadj, by rw [SimpleGraph.Walk.length_concat]⟩

theorem walk_of_graphWalk {u w : NodeId} (p : (routerGraph t).Walk u w) :
    ∃ l, Walk t.routerAdj countLinks u none w l ∧
      ((l = none ∧ p.length = 0) ∨ ∃ k v, l = some (k, v) ∧ p.length = k + 1) := by
  induction p using SimpleGraph.Walk.concatRec with
  | Hnil => exact ⟨none, .start, .inl ⟨rfl, rfl⟩⟩
  | Hconcat p h ih =>
    obtain ⟨l, hl, hlen⟩ := ih
    refine ⟨_, hl.step h.2, .inr ?_⟩
    rcases hlen with ⟨rfl, hlen⟩ | ⟨k, v, rfl, hlen⟩
    · exact ⟨0, _, rfl, by simp [hlen]⟩
    · exact ⟨k + 1, v, rfl, by simp [hlen]⟩

/-- The search of a source ends, with a first hop towards each router it can reach; the first hop is a neighbour that
is closer by one. -/
theorem shortestLoop_spec (hsrc : src ∈ t.routers) :
    ∃ hops : Hops, (∀ fuel, t.routers.length + 1 < fuel → shortestLoop t src fuel (visitFirst (t.routerAdj src) [] []).1
        (visitFirst (t.routerAdj src) [] []).2 = some hops) ∧
      ∀ w, w ≠ src → (routerGraph t).Reachable src w → ∃ v ∈ t.routerAdj src, hops.lookup w = some v ∧
        (routerGraph t).dist src w = (routerGraph t).dist v w + 1 := by
  have hclosed : ∀ s ∈ t.routers, ∀ n ∈ t.routerAdj s, n ∈ t.routers := fun s _ n hn => (t.mem_routerAdj.1 hn).2
  have hwork : bfsWork t.routers [src] [(src, (none : HopLabel))] ≤ t.routers.length + 1 := by
    simp only [bfsWork, length_cons, length_nil]
    omega
  obtain ⟨order, horder⟩ : ∃ order, ∀ fuel, t.routers.length + 1 < fuel →
      bfs t.routerAdj countLinks fuel [src] [(src, none)] = some order :=
    bfs_terminates hclosed _ (by simp) (by simpa using hsrc) (by simpa using hsrc) hwork
  have hmono := @monotone_countLinks t src
  have hrun := horder (t.routers.length + 2) (by omega)
  obtain ⟨_, hI⟩ := bfs_inv hmono (bfsInv_init src none) hrun
  have hnd : (order.map Prod.fst).Nodup := by simpa using hI.nodup
  obtain ⟨rest, hrest, -⟩ := hI.head
  simp only [nil_append, append_nil] at hrest
  refine ⟨rest.map fun e => hopEntry (e.1, e.2.map Prod.snd), fun fuel hf => ?_, fun w hw hreach => ?_⟩
  · have hmap : bfs t.routerAdj handOn (fuel + 1) [src] [(src, none)] = _ :=
      bfs_map countLinks_snd (fuel + 1) [src] [(src, none)]
    rw [← shortestLoop_start, hmap, horder (fuel + 1) (by omega), hrest]
    simp [Function.comp_def]
  · -- the entry of `w`
    obtain ⟨p, hp⟩ := hreach.exists_walk_length_eq_dist
    obtain ⟨l, hl, hlen⟩ := walk_of_graphWalk p
    obtain ⟨l', hmem, hle⟩ := bfs_minimal hmono countLe_trans hrun hl
    obtain ⟨-, hnone, hsome⟩ := graphWalk_of_walk hsrc (bfs_sound hmono hrun hmem)
    rcases l' with _ | ⟨k, v⟩
    · exact absurd (hnone rfl) hw
    · obtain ⟨hv, q, hq⟩ := hsome k v rfl
      have hadj : (routerGraph t).Adj src v := ⟨hsrc, hv⟩
      refine ⟨v, hv, ?_, ?_⟩
      · refine (lookup_eq_some_iff_mem ?_).2 ?_
        · rw [hrest, map_cons, nodup_cons] at hnd
          have hkeys : (rest.map fun e => hopEntry (e.1, e.2.map Prod.snd)).map Prod.fst = rest.map Prod.fst := by
            rw [List.map_map]
            rfl
          rw [hkeys]
          exact hnd.2
        · rw [hrest] at hmem
          rcases mem_cons.1 hmem with h | hmem
          · exact absurd (congrArg Prod.fst h) hw
          · exact List.mem_map.2 ⟨_, hmem, rfl⟩
      · -- no walk from the first hop is shorter than the entry says
        have hvw : (routerGraph t).dist v w ≤ k := hq ▸ SimpleGraph.dist_le q
        obtain ⟨q', hq'⟩ := q.reachable.exists_walk_length_eq_dist
        have hcons := SimpleGraph.dist_le (q'.cons hadj)
        rw [SimpleGraph.Walk.length_cons] at hcons
        rcases hlen with ⟨rfl, -⟩ | ⟨k', v', rfl, hlen⟩
        · exact hle.elim
        · have hkk : k ≤ k' := hle
          omega

/-! ## The tables -/

/-- On a connected network the tables send every packet to its NI in exactly as many hops as the graph distance. -/
theorem shortestPath_exact (hconn : Connected t) (hni : ∀ ni ∈ t.nis, ∃ r, t.adj ni = [r]) :
    ∃ n tables, (∀ fuel, n ≤ fuel → shortestPath t fuel = some (.ok tables)) ∧
      (∀ u ∈ t.routers, ∀ ni ∈ t.nis, ∀ w, t.adj ni = [w] →
        ∃ l, RoutesTo t tables ni u l ∧ l.length = (routerGraph t).dist u w + 2) ∧
      RoutesFound t tables := by
  have hhops : ∀ u, ∃ hops : Hops, u ∈ t.routers → (∀ fuel, t.routers.length + 1 < fuel →
      shortestLoop t u fuel (visitFirst (t.routerAdj u) [] []).1 (visitFirst (t.routerAdj u) [] []).2 = some hops) ∧
      ∀ w ∈ t.routers, w ≠ u → ∃ v ∈ t.routerAdj u, hops.lookup w = some v ∧
        (routerGraph t).dist u w = (routerGraph t).dist v w + 1 := by
    intro u
    by_cases hu : u ∈ t.routers
    · obtain ⟨hops, hrun, hspec⟩ := shortestLoop_spec hu
      exact ⟨hops, fun _ => ⟨hrun, fun w hw hwu => hspec w hwu (reachable_of_connected hconn hu hw)⟩⟩
    · exact ⟨[], fun h => absurd h hu⟩
  choose hops hhops using hhops
  have hfirst : ∀ fuel, t.routers.length + 1 < fuel → ∀ srcs : List NodeId, (∀ u ∈ srcs, u ∈ t.routers) →
      shortestFirstHops t fuel srcs = some (srcs.map fun u => (u, hops u)) := by
    intro fuel hf srcs
    induction srcs with
    | nil => intro _; rfl
    | cons u rest ih =>
      intro hsub
      rw [shortestFirstHops]
      simp only
      rw [(hhops u (hsub u (by simp))).1 fuel hf]
      simp only
      rw [ih fun u' hu' => hsub u' (mem_cons_of_mem _ hu')]
      rfl
  obtain ⟨tables, htables, hT⟩ := hopTables_of_hops hni fun u hu ni hm w hw hwu =>
    let ⟨v, _, hv, _⟩ := (hhops u hu).2 w (router_of_attached hm hw) hwu
    ⟨v, hv⟩
  have hroutes : ∀ u ∈ t.routers, ∀ ni ∈ t.nis, ∀ w, t.adj ni = [w] →
      ∃ l, RoutesTo t tables ni u l ∧ l.length = (routerGraph t).dist u w + 2 := by
    intro u hu ni hm w hw
    have hwr := router_of_attached hm hw
    refine hT.routesTo_exact hm hw (fun v => (routerGraph t).dist v w) SimpleGraph.dist_self (fun v hv hwv => ?_) hu
    exact (hhops v hv).2 w hwr hwv
  refine ⟨t.routers.length + 2, tables, fun fuel hf => ?_, hroutes, routesFound_of_routesTo hni fun u hu ni hm => ?_⟩
  · rw [shortestPath, hfirst fuel (by omega) t.routers fun _ h => h, map_some, htables]
  · obtain ⟨w, hw⟩ := hni ni hm
    obtain ⟨l, hl, -⟩ := hroutes u hu ni hm w hw
    exact ⟨l, hl⟩

end GvsocPulp.FloonocV2.Routing
