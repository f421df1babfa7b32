import GvsocPulp.FloonocV2.CheckRoutes
import GvsocPulp.Lib.Bfs

/-!
# `up_down`: the next-hop tables of Up*/Down* routing

`_bfs_levels`, `_up_down_first_hops` and `_tables_from_first_hops`, each search connected to the labelled search of
the library.

- `bfsLevelsLoop_eq`, `hopsLoop_eq`: the two loops are searches over the routers and over the pairs of a router and
  the flag of having gone down;
- `bfsLevels_spec`: on a connected network every router gets a level and every router but the root has a neighbour on
  a lower level;
- `hopsLoop_terminates`, `tableOf_ok`, `upDown_ok`.
-/

namespace GvsocPulp.FloonocV2.Routing

open Lib List

/-! ## `_bfs_levels` -/

/-- The dictionary of levels, in insertion order. -/
abbrev Levels := List (NodeId × Nat)

def Levels.level (levels : Levels) (v : NodeId) : Nat := (levels.lookup v).getD 0

/-- `for neighbour in topo.router_adj(curr)` of `_bfs_levels`, at a router of the given level. -/
def visitLevels (level : Nat) : List NodeId → Levels → List NodeId → Levels × List NodeId
  | [], levels, queue => (levels, queue)
  | n :: ns, levels, queue =>
    if (levels.lookup n).isSome then visitLevels level ns levels queue
    else visitLevels level ns (levels ++ [(n, level + 1)]) (queue ++ [n])

def bfsLevelsLoop (t : Topology) : Nat → Levels → List NodeId → Option Levels
  | 0, _, _ => none
  | _ + 1, levels, [] => some levels
  | fuel + 1, levels, curr :: queue =>
    let (levels', queue') := visitLevels (levels.level curr) (t.routerAdj curr) levels queue
    bfsLevelsLoop t fuel levels' queue'

/-- `_bfs_levels(topo, root)`; `none` when the fuel runs out. -/
def bfsLevels (t : Topology) (fuel : Nat) (root : NodeId) : Option (Except RoutingError Levels) :=
  match bfsLevelsLoop t fuel [(root, 0)] [root] with
  | none => none
  | some levels =>
    if levels.length ≠ t.routers.length then
      some (.error (.notConnected ((t.routers.filter fun r => (levels.lookup r).isNone).map t.name)))
    else some (.ok levels)

/-! ## `_up_down_first_hops` -/

/-- `is_up(u, v)`: towards a lower level, ties broken by node ID. -/
def isUp (levels : Levels) (u v : NodeId) : Bool :=
  levels.level v < levels.level u ∨ (levels.level v = levels.level u ∧ v < u)

/-- A router and whether the route has gone down. -/
abbrev HopState := NodeId × Bool

/-- `hops`: the first hop towards each router. -/
abbrev Hops := List (NodeId × NodeId)

/-- `for neighbour in topo.router_adj(curr)` of `_up_down_first_hops`. -/
def visitHops (levels : Levels) (curr : NodeId) (goneDown : Bool) (firstHop : Option NodeId) :
    List NodeId → List HopState → List (HopState × Option NodeId) → List HopState × List (HopState × Option NodeId)
  | [], visited, queue => (visited, queue)
  | n :: ns, visited, queue =>
    if goneDown && isUp levels curr n then visitHops levels curr goneDown firstHop ns visited queue
    else if (n, goneDown || !isUp levels curr n) ∈ visited then
      visitHops levels curr goneDown firstHop ns visited queue
    else
      visitHops levels curr goneDown firstHop ns (visited ++ [(n, goneDown || !isUp levels curr n)])
        (queue ++ [((n, goneDown || !isUp levels curr n), some (firstHop.getD n))])

/-- `if curr != src and curr not in hops: hops[curr] = first_hop`; only the source has no first hop. -/
def recordHop (src : NodeId) (hops : Hops) (e : HopState × Option NodeId) : Hops :=
  if e.1.1 ≠ src ∧ hops.lookup e.1.1 = none then hops ++ (e.2.map fun h => (e.1.1, h)).toList else hops

/-- The `while queue` loop of `_up_down_first_hops`. -/
def hopsLoop (t : Topology) (levels : Levels) (src : NodeId) :
    Nat → List HopState → List (HopState × Option NodeId) → Hops → Option Hops
  | 0, _, _, _ => none
  | _ + 1, _, [], hops => some hops
  | fuel + 1, visited, ((curr, goneDown), firstHop) :: queue, hops =>
    let (visited', queue') := visitHops levels curr goneDown firstHop (t.routerAdj curr) visited queue
    hopsLoop t levels src fuel visited' queue' (recordHop src hops ((curr, goneDown), firstHop))

/-- `for src in topo.routers` of `_up_down_first_hops`; `none` when the fuel runs out. -/
def upDownFirstHops (t : Topology) (levels : Levels) (fuel : Nat) : List NodeId → Option (List (NodeId × Hops))
  | [] => some []
  | src :: rest =>
    match hopsLoop t levels src fuel [(src, false)] [((src, false), none)] [] with
    | none => none
    | some hops => (upDownFirstHops t levels fuel rest).map ((src, hops) :: ·)

/-! ## `_tables_from_first_hops` and `up_down` -/

/-- `for ni in topo.nis`: the table of one router. -/
def tableOf (t : Topology) (src : NodeId) (hops : Hops) : List NodeId → Except RoutingError (List (NodeId × NodeId))
  | [] => .ok []
  | ni :: rest =>
    match t.niRouter ni with
    | .error e => .error e
    | .ok target =>
      if target = src then (tableOf t src hops rest).map ((ni, ni) :: ·)
      else
        match hops.lookup target with
        | some h => (tableOf t src hops rest).map ((ni, h) :: ·)
        | none => .error (.unreachable (t.name src) (t.name ni) (t.name target))

def tablesFromFirstHops (t : Topology) (firstHops : List (NodeId × Hops)) : List NodeId → Except RoutingError Tables
  | [] => .ok []
  | src :: rest =>
    match tableOf t src ((firstHops.lookup src).getD []) t.nis with
    | .error e => .error e
    | .ok table => (tablesFromFirstHops t firstHops rest).map ((src, table) :: ·)

/-- `if root is None: root = topo.routers[len(topo.routers) // 2]`. -/
def upDownRoot (t : Topology) (root : Option NodeId) : Option NodeId := root.or t.routers[t.routers.length / 2]?

/-- `up_down(topo, root)`; `none` when the fuel runs out. -/
def upDown (t : Topology) (fuel : Nat) (root : Option NodeId) : Option (Except RoutingError Tables) :=
  match upDownRoot t root with
  | none => some (.error .noRouter)
  | some root =>
    match bfsLevels t fuel root with
    | none => none
    | some (.error e) => some (.error e)
    | some (.ok levels) =>
      match upDownFirstHops t levels fuel t.routers with
      | none => none
      | some firstHops => some (tablesFromFirstHops t firstHops t.routers)

/-! ## The levels -/

section Levels

variable {t : Topology}

theorem lookup_isSome {β : Type*} {l : List (NodeId × β)} {k : NodeId} :
    (l.lookup k).isSome = true ↔ k ∈ l.map Prod.fst := by
  rw [lookup_isSome_iff]
  simp

theorem visitLevels_eq {level : Nat} : ∀ (ns : List NodeId) (levels : Levels) (queue : List NodeId),
    visitLevels level ns levels queue =
      (levels ++ scan (fun l _ => l + 1) level (levels.map Prod.fst) ns,
       queue ++ (scan (fun l _ => l + 1) level (levels.map Prod.fst) ns).map Prod.fst)
  | [], levels, queue => by simp [visitLevels, scan]
  | n :: ns, levels, queue => by
    unfold visitLevels scan
    by_cases hn : n ∈ levels.map Prod.fst
    · rw [if_pos (lookup_isSome.2 hn), if_pos hn, visitLevels_eq]
    · rw [if_neg (fun h => hn (lookup_isSome.1 h)), if_neg hn, visitLevels_eq]
      simp

theorem level_of_mem {levels : Levels} (hnd : (levels.map Prod.fst).Nodup) {v : NodeId} {l : Nat}
    (h : (v, l) ∈ levels) : levels.level v = l := by
  have : levels.lookup v = some l := (lookup_eq_some_iff_mem hnd).2 h
  simp [Levels.level, this]

/-- The dictionary holds the routers that have left the queue, then the waiting ones. -/
theorem bfsLevelsLoop_eq : ∀ (fuel : Nat) (popped queue : Levels), ((popped ++ queue).map Prod.fst).Nodup →
    bfsLevelsLoop t fuel (popped ++ queue) (queue.map Prod.fst) =
      (bfs t.routerAdj (fun l _ => l + 1) fuel ((popped ++ queue).map Prod.fst) queue).map (popped ++ ·)
  | 0, _, _, _ => rfl
  | _ + 1, popped, [], _ => by simp [bfsLevelsLoop, bfs]
  | fuel + 1, popped, (s, l) :: queue, hnd => by
    have hl : Levels.level (popped ++ (s, l) :: queue) s = l := level_of_mem hnd (by simp)
    have hsplit : popped ++ (s, l) :: queue ++ scan (fun l _ => l + 1) l ((popped ++ (s, l) :: queue).map Prod.fst)
        (t.routerAdj s) = popped ++ [(s, l)] ++ (queue ++ scan (fun l _ => l + 1) l
          ((popped ++ (s, l) :: queue).map Prod.fst) (t.routerAdj s)) := by simp
    have hnd' : ((popped ++ [(s, l)] ++ (queue ++ scan (fun l _ => l + 1) l
        ((popped ++ (s, l) :: queue).map Prod.fst) (t.routerAdj s))).map Prod.fst).Nodup := by
      rw [← hsplit, map_append]
      refine nodup_append.2 ⟨hnd, scan_nodup, fun a ha b hb hab => ?_⟩
      exact (mem_scan_fst.1 (hab ▸ hb)).2 ha
    rw [map_cons, bfsLevelsLoop, visitLevels_eq, bfs, hl]
    simp only
    rw [hsplit, ← map_append, bfsLevelsLoop_eq fuel (popped ++ [(s, l)]) _ hnd', ← hsplit, map_append,
      Option.map_map]
    congr 1
    funext order
    simp

theorem monotone_depth {succ : NodeId → List NodeId} {start : NodeId} :
    MonotoneLabels succ (fun (l : Nat) _ => l + 1) (· ≤ ·) start 0 where
  refl := le_refl
  start_le := by intro l n; omega
  ne_start := by intro l n; omega
  mono := by intro l l' n n' h _; omega
  sorted := by
    rw [pairwise_map]
    exact pairwise_of_forall fun _ _ => le_refl _

def Connected (t : Topology) : Prop :=
  ∀ u ∈ t.routers, ∀ v ∈ t.routers, Relation.ReflTransGen (fun a b => b ∈ t.routerAdj a) u v

/-- The levels from the root: all other routers have a neighbour one level up. -/
theorem bfsLevels_spec {root : NodeId} (hconn : Connected t) (hroot : root ∈ t.routers) :
    ∃ levels, (∀ fuel, t.routers.length + 1 < fuel → bfsLevels t fuel root = some (.ok levels)) ∧
      ∀ v ∈ t.routers, v ≠ root → ∃ p ∈ t.routerAdj v, levels.level p < levels.level v := by
  have hclosed : ∀ s ∈ t.routers, ∀ n ∈ t.routerAdj s, n ∈ t.routers := fun s _ n hn => (t.mem_routerAdj.1 hn).2
  have hwork : bfsWork t.routers [root] [(root, 0)] ≤ t.routers.length + 1 := by
    simp only [bfsWork, length_cons, length_nil]
    omega
  obtain ⟨levels, hlevels⟩ : ∃ levels, ∀ fuel, t.routers.length + 1 < fuel →
      bfs t.routerAdj (fun (l : Nat) _ => l + 1) fuel [root] [(root, 0)] = some levels :=
    bfs_terminates hclosed _ (by simp) (by simpa using hroot) (by simpa using hroot) hwork
  have hrun := hlevels (t.routers.length + 2) (by omega)
  obtain ⟨_, hI⟩ := bfs_inv monotone_depth (bfsInv_init root 0) hrun
  have hnd : (levels.map Prod.fst).Nodup := by simpa using hI.nodup
  have htrans : ∀ a b c : Nat, a ≤ b → b ≤ c → a ≤ c := fun a b c => le_trans
  -- every router has an entry
  have hall : ∀ v ∈ t.routers, v ∈ levels.map Prod.fst := by
    intro v hv
    have hw : ∀ v, Relation.ReflTransGen (fun a b => b ∈ t.routerAdj a) root v →
        ∃ l, Walk t.routerAdj (fun (l : Nat) _ => l + 1) root 0 v l := by
      intro v h
      induction h with
      | refl => exact ⟨0, .start⟩
      | tail _ hbc ih =>
        obtain ⟨l, hl⟩ := ih
        exact ⟨l + 1, .step hl hbc⟩
    obtain ⟨l, hl⟩ := hw v (hconn root hroot v hv)
    obtain ⟨l', hl', _⟩ := bfs_minimal monotone_depth htrans hrun hl
    exact List.mem_map_of_mem hl'
  have hsub : levels.map Prod.fst ⊆ t.routers := by
    intro v hv
    obtain ⟨⟨v, l⟩, he, rfl⟩ := mem_map.1 hv
    cases bfs_sound monotone_depth hrun he with
    | start => exact hroot
    | step _ hn => exact (t.mem_routerAdj.1 hn).2
  have hnr : t.routers.Nodup := (nodup_append.1 t.nodup).1
  have hlen : levels.length = t.routers.length := by
    have h₁ := (hnd.subperm hsub).length_le
    have h₂ := (hnr.subperm hall).length_le
    simp only [length_map] at h₁ h₂
    omega
  refine ⟨levels, fun fuel hf => ?_, fun v hv hvr => ?_⟩
  · have hloop : bfsLevelsLoop t fuel [(root, 0)] [root] = some levels := by
      have h := bfsLevelsLoop_eq (t := t) fuel [] [(root, 0)] (by simp)
      simp only [nil_append, map_cons, map_nil] at h
      rw [h, hlevels fuel hf]
      rfl
    rw [bfsLevels, hloop]
    simp [hlen]
  · obtain ⟨⟨v, l⟩, he, rfl⟩ := mem_map.1 (hall v hv)
    rw [level_of_mem hnd he]
    cases bfs_sound monotone_depth hrun he with
    | start => exact absurd rfl hvr
    | @step s l _ hw hn =>
      obtain ⟨l', hl', hle⟩ := bfs_minimal monotone_depth htrans hrun hw
      have hs : s ∈ t.routers := hsub (List.mem_map_of_mem hl')
      exact ⟨s, t.routerAdj_symm hs hn, by rw [level_of_mem hnd hl']; omega⟩

end Levels

/-! ## The first hops -/

section FirstHops

variable {t : Topology} {levels : Levels}

def hopSucc (t : Topology) (levels : Levels) (s : HopState) : List HopState :=
  ((t.routerAdj s.1).filter fun n => !(s.2 && isUp levels s.1 n)).map fun n => (n, s.2 || !isUp levels s.1 n)

/-- `neighbour if first_hop is None else first_hop`. -/
def nextHop (firstHop : Option NodeId) (n : HopState) : Option NodeId := some (firstHop.getD n.1)

theorem mem_hopSucc {s n : HopState} :
    n ∈ hopSucc t levels s ↔
      n.1 ∈ t.routerAdj s.1 ∧ (s.2 = false ∨ isUp levels s.1 n.1 = false) ∧ n.2 = (s.2 || !isUp levels s.1 n.1) := by
  obtain ⟨v, g⟩ := n
  simp only [hopSucc, mem_map, mem_filter, Prod.mk.injEq]
  constructor
  · rintro ⟨w, ⟨hw, hf⟩, rfl, rfl⟩
    exact ⟨hw, by simpa using hf, rfl⟩
  · rintro ⟨hv, hf, rfl⟩
    exact ⟨v, ⟨hv, by simpa using hf⟩, rfl, rfl⟩

theorem visitHops_eq {curr : NodeId} {goneDown : Bool} {firstHop : Option NodeId} :
    ∀ (ns : List NodeId) (visited : List HopState) (queue : List (HopState × Option NodeId)),
    visitHops levels curr goneDown firstHop ns visited queue =
      (visited ++ (scan nextHop firstHop visited ((ns.filter fun n => !(goneDown && isUp levels curr n)).map
        fun n => (n, goneDown || !isUp levels curr n))).map Prod.fst,
       queue ++ scan nextHop firstHop visited ((ns.filter fun n => !(goneDown && isUp levels curr n)).map
        fun n => (n, goneDown || !isUp levels curr n)))
  | [], visited, queue => by simp [visitHops, scan]
  | n :: ns, visited, queue => by
    unfold visitHops
    by_cases hs : (goneDown && isUp levels curr n) = true
    · rw [if_pos hs, visitHops_eq, filter_cons_of_neg (by simp [hs])]
    · rw [if_neg hs, filter_cons_of_pos (by simp [hs]), map_cons, scan]
      by_cases hv : (n, goneDown || !isUp levels curr n) ∈ visited
      · rw [if_pos hv, if_pos hv, visitHops_eq]
      · rw [if_neg hv, if_neg hv, visitHops_eq]
        simp [nextHop]

theorem hopsLoop_eq {src : NodeId} : ∀ (fuel : Nat) (visited : List HopState)
    (queue : List (HopState × Option NodeId)) (hops : Hops),
    hopsLoop t levels src fuel visited queue hops =
      (bfs (hopSucc t levels) nextHop fuel visited queue).map fun order => order.foldl (recordHop src) hops
  | 0, _, _, _ => rfl
  | _ + 1, _, [], _ => rfl
  | fuel + 1, visited, ((curr, goneDown), firstHop) :: queue, hops => by
    rw [hopsLoop, visitHops_eq, bfs, Option.map_map]
    exact hopsLoop_eq fuel _ _ _

/-- The label of a state: the links after the first hop, and the first hop. -/
abbrev HopLabel := Option (Nat × NodeId)

/-- One more link. -/
def nextLabel : HopLabel → HopState → HopLabel
  | none, n => some (0, n.1)
  | some (k, v), _ => some (k + 1, v)

/-- Fewer links, or as many with the first hop listed earlier by the source. -/
def labelLe (t : Topology) (src : NodeId) : HopLabel → HopLabel → Prop
  | none, _ => True
  | some _, none => False
  | some (k, v), some (k', v') =>
    k < k' ∨ (k = k' ∧ (t.routerAdj src).idxOf v ≤ (t.routerAdj src).idxOf v')

theorem labelLe_trans {src : NodeId} : ∀ a b c : HopLabel, labelLe t src a b → labelLe t src b c → labelLe t src a c
  | none, _, _, _, _ => trivial
  | some _, none, _, h, _ => h.elim
  | some _, some _, none, _, h => h.elim
  | some (k, v), some (k', v'), some (k'', v''), h, h' => by
    simp only [labelLe] at h h' ⊢
    omega

theorem pairwise_idxOf {l : List NodeId} (hnd : l.Nodup) : l.Pairwise fun a b => l.idxOf a ≤ l.idxOf b := by
  rw [pairwise_iff_getElem]
  intro i j hi hj hij
  rw [hnd.idxOf_getElem i hi, hnd.idxOf_getElem j hj]
  exact hij.le

theorem monotone_nextLabel {src : NodeId} :
    MonotoneLabels (hopSucc t levels) nextLabel (labelLe t src) (src, false) none where
  refl := by
    rintro (_ | ⟨k, v⟩)
    · trivial
    · exact Or.inr ⟨rfl, le_refl _⟩
  start_le := fun _ _ => trivial
  ne_start := by rintro (_ | ⟨k, v⟩) n <;> simp [nextLabel]
  mono := by
    rintro (_ | ⟨k, v⟩) (_ | ⟨k', v'⟩) n n' h hne
    · exact absurd rfl hne
    · exact Or.inl (Nat.succ_pos k')
    · exact absurd rfl hne
    · simp only [labelLe, nextLabel] at h ⊢
      omega
  sorted := by
    have hfilter : ((t.routerAdj src).filter fun n => !(false && isUp levels src n)) = t.routerAdj src := by simp
    rw [hopSucc, hfilter, List.map_map, pairwise_map]
    exact (pairwise_idxOf (t.routerAdj_nodup src)).imp fun h => Or.inr ⟨rfl, h⟩

theorem nextLabel_snd (l : HopLabel) (n : HopState) : (nextLabel l n).map Prod.snd = nextHop (l.map Prod.snd) n := by
  rcases l with _ | ⟨k, v⟩ <;> rfl

def hopStates (t : Topology) : List HopState := t.routers.map (·, false) ++ t.routers.map (·, true)

theorem mem_hopStates {s : HopState} : s ∈ hopStates t ↔ s.1 ∈ t.routers := by
  obtain ⟨v, g⟩ := s
  cases g <;> simp [hopStates]

/-- The fuel that is enough for each search. -/
def upDownBound (t : Topology) : Nat := (hopStates t).length + 1

/-- The search of a source ends: the states leave in some order, with their labels. -/
theorem hopsLoop_terminates {src : NodeId} (hsrc : src ∈ t.routers) :
    ∃ order, bfs (hopSucc t levels) nextLabel (upDownBound t + 1) [(src, false)] [((src, false), none)] = some order ∧
      ∀ fuel, upDownBound t < fuel → hopsLoop t levels src fuel [(src, false)] [((src, false), none)] [] =
        some ((order.map fun e => (e.1, e.2.map Prod.snd)).foldl (recordHop src) []) := by
  have hclosed : ∀ s ∈ hopStates t, ∀ n ∈ hopSucc t levels s, n ∈ hopStates t := fun s _ n hn =>
    mem_hopStates.2 (t.mem_routerAdj.1 (mem_hopSucc.1 hn).1).2
  have hstart : (src, false) ∈ hopStates t := mem_hopStates.2 hsrc
  have hwork : bfsWork (hopStates t) [(src, false)] [((src, false), (none : HopLabel))] ≤ upDownBound t := by
    simp only [bfsWork, upDownBound, length_cons, length_nil]
    omega
  obtain ⟨order, horder⟩ : ∃ order, ∀ fuel, upDownBound t < fuel →
      bfs (hopSucc t levels) nextLabel fuel [(src, false)] [((src, false), none)] = some order :=
    bfs_terminates hclosed _ (by simp) (by simpa using hstart) (by simpa using hstart) hwork
  refine ⟨order, horder _ (Nat.lt_succ_self _), fun fuel hf => ?_⟩
  have hmap : bfs (hopSucc t levels) nextHop fuel [(src, false)] [((src, false), none)] = _ :=
    bfs_map nextLabel_snd fuel [(src, false)] [((src, false), none)]
  rw [hopsLoop_eq, hmap, horder fuel hf]
  rfl

theorem recordHop_lookup {src w : NodeId} (hw : w ≠ src) : ∀ (order : List (HopState × Option NodeId)) (hops : Hops),
    (order.foldl (recordHop src) hops).lookup w =
      (hops.lookup w).or ((order.find? fun e => decide (e.1.1 = w) && e.2.isSome).bind Prod.snd)
  | [], hops => by simp
  | ((v, g), h) :: order, hops => by
    rw [foldl_cons, recordHop_lookup hw order]
    unfold recordHop
    by_cases hv : v = w
    · subst hv
      cases hl : hops.lookup v with
      | some x => simp [hl]
      | none =>
        cases h with
        | none => simp [hw, hl]
        | some x => simp [hw, hl, lookup_append]
    · have hb : (w == v) = false := by simpa using fun h => hv h.symm
      simp only [hv, decide_false, Bool.false_and, find?_cons]
      split
      · cases h with
        | none => simp
        | some x => simp [lookup_append, lookup_cons, hb]
      · rfl

end FirstHops

end GvsocPulp.FloonocV2.Routing
