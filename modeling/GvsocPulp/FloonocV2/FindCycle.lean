import GvsocPulp.Lib.Cycle
import GvsocPulp.Lib.Lists

/-!
# `_find_cycle`: the iterative three-colour depth-first search

The search of `floonoc_v2_routing.py` on an arbitrary finite directed graph: colours, a parent map and a stack of
`(node, iterator)` pairs, the last pair of the Python list first.

- `Inv`: the stack is the chain of grey nodes, the children an iterator has passed are black or next on the stack,
  and the black nodes are closed under children and ranked;
- `findCycle_sound`: a returned list is a cycle of the graph;
- `findCycle_none`: `None` is only returned on a graph with a ranking;
- `findCycle_terminates`: enough fuel always gives the result, and more fuel does not change it.
-/

namespace GvsocPulp.FloonocV2.Routing

open Lib Function List

/-- `WHITE, GREY, BLACK`. -/
inductive Color
  | white | grey | black
  deriving DecidableEq, Repr

section FindCycle

variable {V : Type*} [LinearOrder V]

/-- A `dict` of sets, in insertion order. -/
abbrev Deps (V : Type*) := List (V × List V)

def Deps.children (deps : Deps V) (v : V) : List V := (deps.lookup v).getD []

/-- `iter(sorted(deps.get(v, ())))`. -/
def Deps.sortedChildren (deps : Deps V) (v : V) : List V := (deps.children v).insertionSort (· ≤ ·)

variable {deps : Deps V} {cs : List V}

theorem Deps.children_cons {k u : V} :
    Deps.children ((k, cs) :: deps) u = if u = k then cs else Deps.children deps u := by
  by_cases h : u = k
  · subst h; simp [Deps.children]
  · have hb : (u == k) = false := by simpa using h
    simp [Deps.children, lookup_cons, hb, h]

def Deps.Edge (deps : Deps V) (v w : V) : Prop := w ∈ deps.children v

/-- The local variables of the search. -/
structure DfsState (V : Type*) where
  color : V → Color
  parent : V → Option V
  stack : List (V × List V)

/-- `while curr != child: cycle.append(curr); curr = parent[curr]`. -/
def climb (parent : V → Option V) (child : V) : Nat → V → List V → Option (List V)
  | 0, _, _ => none
  | fuel + 1, curr, cycle =>
    if curr = child then some cycle
    else match parent curr with
      | none => none
      | some p => climb parent child fuel p (cycle ++ [curr])

/-- `cycle.reverse(); return [cycle[-1]] + cycle[:-1]`. -/
def rotateCycle (cycle : List V) : List V := cycle.reverse.getLast?.toList ++ cycle.reverse.dropLast

/-- The `while stack` loop: the state once the stack is empty, or the cycle it returns. -/
def dfs (deps : Deps V) : Nat → DfsState V → Option (DfsState V ⊕ List V)
  | 0, _ => none
  | fuel + 1, s =>
    match s.stack with
    | [] => some (.inl s)
    | (node, []) :: rest => dfs deps fuel { s with color := update s.color node .black, stack := rest }
    | (node, child :: cs) :: rest =>
      match s.color child with
      | .grey => (climb s.parent child (s.stack.length + 1) node [child]).map fun c => .inr (rotateCycle c)
      | .white => dfs deps fuel
          { color := update s.color child .grey
            parent := update s.parent child (some node)
            stack := (child, deps.sortedChildren child) :: (node, cs) :: rest }
      | .black => dfs deps fuel { s with stack := (node, cs) :: rest }

/-- The `for start in deps` loop. -/
def findCycleFrom (deps : Deps V) (fuel : Nat) : List V → DfsState V → Option (Option (List V))
  | [], _ => some none
  | start :: rest, s =>
    if s.color start ≠ .white then findCycleFrom deps fuel rest s
    else
      match dfs deps fuel { s with color := update s.color start .grey
                                   stack := [(start, deps.sortedChildren start)] } with
      | none => none
      | some (.inr c) => some (some c)
      | some (.inl s') => findCycleFrom deps fuel rest s'

/-- `_find_cycle(deps)`; `none` when the fuel runs out. -/
def findCycle (fuel : Nat) (deps : Deps V) : Option (Option (List V)) :=
  findCycleFrom deps fuel (deps.map Prod.fst) { color := fun _ => .white, parent := fun _ => none, stack := [] }

@[simp] theorem mem_sortedChildren {v w : V} : w ∈ deps.sortedChildren v ↔ w ∈ deps.children v :=
  mem_insertionSort _

@[simp] theorem length_sortedChildren {v : V} :
    (deps.sortedChildren v).length = (deps.children v).length := length_insertionSort _ _

/-! ## The invariant -/

/-- The children an iterator has passed are black, or the node pushed above it. -/
def Passed (deps : Deps V) (color : V → Color) : Option V → List (V × List V) → Prop
  | _, [] => True
  | above, (v, cs) :: rest =>
    (∀ c ∈ deps.children v, c ∈ cs ∨ color c = .black ∨ above = some c) ∧ Passed deps color (some v) rest

structure Inv (deps : Deps V) (s : DfsState V) : Prop where
  nodup : (s.stack.map Prod.fst).Nodup
  grey_iff : ∀ v, s.color v = .grey ↔ v ∈ s.stack.map Prod.fst
  chain : IsChain (fun a b => s.parent a.1 = some b.1 ∧ a.1 ∈ deps.children b.1) s.stack
  sub : ∀ e ∈ s.stack, ∀ c ∈ e.2, c ∈ deps.children e.1
  passed : Passed deps s.color none s.stack
  black : ∃ rank : V → Nat, ∀ u, s.color u = .black → ∀ w ∈ deps.children u, s.color w = .black ∧ rank w < rank u

variable {c c' : V → Color} {child node : V} {fuel : Nat} {v w : V}

theorem Passed.mono (h : ∀ v, c v = .black → c' v = .black) :
    ∀ {above : Option V} {l : List (V × List V)}, Passed deps c above l → Passed deps c' above l
  | _, [], _ => trivial
  | _, (_, _) :: _, hp => ⟨fun x hx => (hp.1 x hx).imp_right fun hb => hb.imp_left (h x), Passed.mono h hp.2⟩

theorem climb_stack {parent : V → Option V} {post : List (V × List V)} :
    ∀ (pre : List (V × List V)) (acc : List V) (n : Nat), pre.length < n → child ∉ pre.map Prod.fst →
      IsChain (fun a b => parent a.1 = some b.1 ∧ a.1 ∈ deps.children b.1) (pre ++ (child, cs) :: post) →
      climb parent child n (((pre ++ [(child, cs)]).map Prod.fst).headD child) acc = some (acc ++ pre.map Prod.fst)
  | [], acc, n + 1, _, _, _ => by simp [climb]
  | (v, vs) :: pre, acc, n + 1, hn, hc, hch => by
    have hv : v ≠ child := fun h => hc (by simp [h])
    -- the parent of the top node is the node below it on the stack
    obtain ⟨b, bs, hb⟩ : ∃ b bs, pre ++ (child, cs) :: post = b :: bs := by cases pre <;> simp
    have hhead : ((pre ++ [(child, cs)]).map Prod.fst).headD child = b.1 := by
      cases pre with
      | nil => simp only [nil_append, List.cons.injEq] at hb; simp [← hb.1]
      | cons p pre => simp only [cons_append, List.cons.injEq] at hb; simp [← hb.1]
    rw [cons_append, hb, isChain_cons_cons, ← hb] at hch
    have ih := climb_stack pre (acc ++ [v]) n (by simpa using hn) (fun h => hc (by simp [h])) hch.2
    simp only [cons_append, map_cons, headD_cons, climb, hv, if_false, hch.1.1]
    rw [← hhead, ih]
    simp

variable {rest : List (V × List V)} {s : DfsState V}

theorem climb_cycle (hI : Inv deps s) (hs : s.stack = (node, child :: cs) :: rest)
    (hg : s.color child = .grey) :
    ∃ c, climb s.parent child (s.stack.length + 1) node [child] = some c ∧ IsCycle deps.Edge (rotateCycle c) := by
  obtain ⟨e, he, hec⟩ := mem_map.1 ((hI.grey_iff child).1 hg)
  obtain ⟨pre, post, hsplit⟩ := append_of_mem he
  obtain ⟨v, vs⟩ := e
  subst hec
  have hnd := hI.nodup
  rw [hsplit] at hnd
  have hpre : v ∉ pre.map Prod.fst := by
    simp only [map_append, map_cons, nodup_append, nodup_cons] at hnd
    exact fun h => hnd.2.2 v h v (by simp) rfl
  have hch := hI.chain
  rw [hsplit] at hch
  have hhead : ((pre ++ [(v, vs)]).map Prod.fst).headD v = node := by
    have : (s.stack.map Prod.fst).head? = some node := by simp [hs]
    rw [hsplit] at this
    cases pre <;> simpa using this
  have hclimb := climb_stack pre [v] (s.stack.length + 1) (by rw [hsplit, length_append]; omega) hpre hch
  rw [hhead] at hclimb
  refine ⟨_, hclimb, ?_⟩
  have hrot : rotateCycle ([v] ++ pre.map Prod.fst) = v :: (pre.map Prod.fst).reverse := by
    simp [rotateCycle]
  -- the edges down the stack, read upwards
  have hdown : IsChain (fun a b => deps.Edge b a) ((pre ++ [(v, vs)]).map Prod.fst) := by
    rw [isChain_map]
    have hp : pre ++ [(v, vs)] <+: pre ++ (v, vs) :: post := ⟨post, by simp⟩
    have hpc := hch.prefix hp
    exact hpc.imp fun a b h => h.2
  have hback : deps.Edge node v := hI.sub (node, v :: cs) (by rw [hs]; simp) v (by simp)
  rw [hrot]
  refine ⟨by simp, ?_⟩
  have hup : IsChain deps.Edge (v :: (pre.map Prod.fst).reverse) := by
    have := isChain_reverse.2 hdown
    simpa using this
  simp only [take_succ_cons, take_zero]
  rw [isChain_append]
  refine ⟨hup, by simp, ?_⟩
  intro x hx y hy
  simp only [head?_cons, Option.mem_def, Option.some.injEq] at hy
  subst hy
  have hlast : (v :: (pre.map Prod.fst).reverse).getLast? = some node := by
    cases pre with
    | nil => simpa using hhead
    | cons p pre => simp at hhead; simp [hhead, getLast?_cons]
  rw [hlast] at hx
  cases hx
  exact hback

theorem Inv.close (hI : Inv deps s) (hs : s.stack = (node, []) :: rest) :
    Inv deps { s with color := update s.color node .black, stack := rest } := by
  have hnd := hI.nodup
  have hp := hI.passed
  have hch := hI.chain
  rw [hs] at hnd hp hch
  simp only [map_cons, nodup_cons] at hnd
  have hchild : ∀ c ∈ deps.children node, s.color c = .black := by
    intro c hc
    rcases hp.1 c hc with h | h | h
    · cases h
    · exact h
    · cases h
  have hgrey : s.color node = .grey := (hI.grey_iff node).2 (by simp [hs])
  refine ⟨hnd.2, ?_, hch.tail, fun e he => hI.sub e (by rw [hs]; exact mem_cons_of_mem _ he), ?_, ?_⟩
  · intro v
    by_cases hv : v = node
    · subst hv; simp [hnd.1]
    · simp only [update_of_ne hv]
      rw [hI.grey_iff v, hs]
      simp [hv]
  · -- the node below now sees a black child instead of the node above it
    cases rest with
    | nil => trivial
    | cons b rest =>
      obtain ⟨w, ws⟩ := b
      refine ⟨fun c hc => ?_, Passed.mono (fun v hv => ?_) hp.2.2⟩
      · rcases hp.2.1 c hc with h | h | h
        · exact Or.inl h
        · exact Or.inr (Or.inl (by by_cases hcn : c = node <;> simp [hcn, h]))
        · cases h; exact Or.inr (Or.inl (by simp))
      · by_cases hvn : v = node <;> simp [hvn, hv]
  · obtain ⟨rank, hrank⟩ := hI.black
    refine ⟨update rank node (1 + ((deps.children node).map rank).sum), fun u hu w hw => ?_⟩
    by_cases hun : u = node
    · subst hun
      have hwb := hchild w hw
      have hwu : w ≠ u := fun h => by rw [h, hgrey] at hwb; cases hwb
      refine ⟨by simp [update_of_ne hwu, hwb], ?_⟩
      rw [update_of_ne hwu, update_self]
      have := single_le_sum (by simp) (rank w) (List.mem_map_of_mem (f := rank) hw)
      omega
    · have hu : s.color u = .black := by simpa only [update_of_ne hun] using hu
      obtain ⟨hwb, hlt⟩ := hrank u hu w hw
      have hwn : w ≠ node := fun h => by rw [h, hgrey] at hwb; cases hwb
      exact ⟨by simp [update_of_ne hwn, hwb], by rwa [update_of_ne hwn, update_of_ne hun]⟩

theorem Inv.open (hI : Inv deps s) (hs : s.stack = (node, child :: cs) :: rest)
    (hw : s.color child = .white) :
    Inv deps { color := update s.color child .grey
               parent := update s.parent child (some node)
               stack := (child, deps.sortedChildren child) :: (node, cs) :: rest } := by
  have hnot : child ∉ s.stack.map Prod.fst := fun h => by
    rw [(hI.grey_iff child).2 h] at hw; cases hw
  have hmem : ∀ e ∈ s.stack, e.1 ≠ child := fun e he h => hnot (mem_map.2 ⟨e, he, h⟩)
  have hnd := hI.nodup
  have hp := hI.passed
  have hch := hI.chain
  have hsub := hI.sub
  rw [hs] at hnd hp hch hsub hmem hnot
  have hblack : ∀ v, s.color v = .black → update s.color child .grey v = .black := by
    intro v hv
    have : v ≠ child := fun h => by rw [h, hw] at hv; cases hv
    rw [update_of_ne this]; exact hv
  refine ⟨?_, ?_, ?_, ?_, ?_, ?_⟩
  · exact nodup_cons.2 ⟨by simpa using hnot, by simpa using hnd⟩
  · intro v
    by_cases hv : v = child
    · subst hv; simp
    · simp only [update_of_ne hv]
      rw [hI.grey_iff v, hs]
      simp [hv]
  · rw [isChain_cons_cons]
    refine ⟨⟨by simp, hsub (node, child :: cs) (by simp) child (by simp)⟩, ?_⟩
    -- below the new node the chain is the old one: the parents of grey nodes are untouched
    have hpar : ∀ e ∈ (node, child :: cs) :: rest, update s.parent child (some node) e.1 = s.parent e.1 :=
      fun e he => update_of_ne (hmem e he) _ _
    cases rest with
    | nil => simp
    | cons b rest =>
      rw [isChain_cons_cons] at hch ⊢
      refine ⟨⟨?_, hch.1.2⟩, ?_⟩
      · rw [← hch.1.1]; exact hpar (node, child :: cs) (by simp)
      · refine IsChain.imp_of_mem_imp (fun x y hx _ hxy => ⟨?_, hxy.2⟩) hch.2
        rw [← hxy.1]; exact hpar x (mem_cons_of_mem _ hx)
  · intro e he c hc
    simp only [mem_cons] at he
    rcases he with rfl | rfl | he
    · simpa using hc
    · exact hsub (node, child :: cs) (by simp) c (by simp [hc])
    · exact hsub e (mem_cons_of_mem _ he) c hc
  · refine ⟨fun c hc => Or.inl (by simpa using hc), fun c hc => ?_, Passed.mono hblack hp.2⟩
    rcases hp.1 c hc with h | h | h
    · rcases mem_cons.1 h with rfl | h
      · exact Or.inr (Or.inr rfl)
      · exact Or.inl h
    · exact Or.inr (Or.inl (hblack c h))
    · cases h
  · obtain ⟨rank, hrank⟩ := hI.black
    refine ⟨rank, fun u hu w hwu => ?_⟩
    have huc : u ≠ child := fun h => by subst h; simp at hu
    have hu : s.color u = .black := by simpa only [update_of_ne huc] using hu
    obtain ⟨hwb, hlt⟩ := hrank u hu w hwu
    exact ⟨hblack w hwb, hlt⟩

theorem Inv.skip (hI : Inv deps s) (hs : s.stack = (node, child :: cs) :: rest)
    (hb : s.color child = .black) :
    Inv deps { s with stack := (node, cs) :: rest } := by
  have hnd := hI.nodup
  have hp := hI.passed
  have hch := hI.chain
  have hsub := hI.sub
  have hgi := hI.grey_iff
  rw [hs] at hnd hp hch hsub hgi
  refine ⟨by simpa using hnd, by simpa using hgi, ?_, ?_, ⟨fun c hc => ?_, hp.2⟩, hI.black⟩
  · cases rest with
    | nil => simp
    | cons b rest => rw [isChain_cons_cons] at hch ⊢; exact hch
  · intro e he c hc
    rcases mem_cons.1 he with rfl | he
    · exact hsub (node, child :: cs) (by simp) c (by simp [hc])
    · exact hsub e (mem_cons_of_mem _ he) c hc
  · rcases hp.1 c hc with h | h | h
    · rcases mem_cons.1 h with rfl | h
      · exact Or.inr (Or.inl hb)
      · exact Or.inl h
    · exact Or.inr (Or.inl h)
    · cases h

/-- A finished `while stack` loop kept the invariant and whitened no node, or returned a cycle. -/
theorem dfs_spec : ∀ {fuel : Nat} {s : DfsState V} {r : DfsState V ⊕ List V}, Inv deps s →
    dfs deps fuel s = some r →
    (∃ s', r = .inl s' ∧ Inv deps s' ∧ s'.stack = [] ∧ ∀ v, s.color v ≠ .white → s'.color v ≠ .white) ∨
      ∃ c, r = .inr c ∧ IsCycle deps.Edge c
  | 0, _, _, _, h => by simp [dfs] at h
  | fuel + 1, s, r, hI, h => by
    rw [dfs] at h
    split at h
    case h_1 hs => cases h; exact Or.inl ⟨s, rfl, hI, hs, fun _ => id⟩
    case h_2 node rest hs =>
      refine (dfs_spec (hI.close hs) h).imp_left ?_
      rintro ⟨s', rfl, hI', hst, hw⟩
      refine ⟨s', rfl, hI', hst, fun v hv => hw v ?_⟩
      by_cases hvn : v = node <;> simp [hvn, hv]
    case h_3 node child cs rest hs =>
      split at h
      case h_1 hc =>
        obtain ⟨c, hcl, hcy⟩ := climb_cycle hI hs hc
        rw [hcl] at h
        cases h
        exact Or.inr ⟨_, rfl, hcy⟩
      case h_2 hc =>
        refine (dfs_spec (hI.open hs hc) h).imp_left ?_
        rintro ⟨s', rfl, hI', hst, hw⟩
        refine ⟨s', rfl, hI', hst, fun v hv => hw v ?_⟩
        by_cases hvc : v = child <;> simp [hvc, hv]
      case h_3 hc => exact dfs_spec (s := { s with stack := (node, cs) :: rest }) (hI.skip hs hc) h

theorem Inv.start {start : V} (hI : Inv deps s) (hs : s.stack = []) (hw : s.color start = .white) :
    Inv deps { s with color := update s.color start .grey, stack := [(start, deps.sortedChildren start)] } := by
  refine ⟨by simp, fun v => ?_, by simp, fun e he c hc => ?_, ⟨fun c hc => Or.inl (by simpa using hc), trivial⟩, ?_⟩
  · by_cases hv : v = start
    · subst hv; simp
    · simp only [update_of_ne hv]
      rw [hI.grey_iff v, hs]
      simp [hv]
  · simp only [mem_singleton] at he
    subst he
    simpa using hc
  · obtain ⟨rank, hrank⟩ := hI.black
    refine ⟨rank, fun u hu w hwu => ?_⟩
    have hus : u ≠ start := fun h => by subst h; simp at hu
    have hu : s.color u = .black := by simpa only [update_of_ne hus] using hu
    obtain ⟨hwb, hlt⟩ := hrank u hu w hwu
    have hws : w ≠ start := fun h => by rw [h, hw] at hwb; cases hwb
    exact ⟨by simpa only [update_of_ne hws] using hwb, hlt⟩

/-- The search from all starts: a cycle, or every start is done. -/
theorem findCycleFrom_spec : ∀ {starts : List V} {s : DfsState V} {r : Option (List V)},
    Inv deps s → s.stack = [] → findCycleFrom deps fuel starts s = some r →
    (∃ c, r = some c ∧ IsCycle deps.Edge c) ∨
      (r = none ∧ ∃ s', Inv deps s' ∧ s'.stack = [] ∧ (∀ v, s.color v ≠ .white → s'.color v ≠ .white) ∧
        ∀ v ∈ starts, s'.color v ≠ .white)
  | [], s, r, hI, hs, h => by
    cases h
    exact Or.inr ⟨rfl, s, hI, hs, fun _ => id, by simp⟩
  | start :: rest, s, r, hI, hs, h => by
    rw [findCycleFrom] at h
    split at h
    case isTrue hc =>
      refine (findCycleFrom_spec hI hs h).imp_right ?_
      rintro ⟨hr, s', hI', hst, hw, hall⟩
      refine ⟨hr, s', hI', hst, hw, fun v hv => ?_⟩
      rcases mem_cons.1 hv with rfl | hv
      · exact hw _ hc
      · exact hall v hv
    case isFalse hc =>
      have hc : s.color start = .white := not_not.1 hc
      split at h
      case h_1 => cases h
      case h_2 c hd =>
        cases h
        rcases dfs_spec (hI.start hs hc) hd with ⟨s', h', _⟩ | ⟨c', h', hcy⟩
        · cases h'
        · cases h'; exact Or.inl ⟨c, rfl, hcy⟩
      case h_3 s₁ hd =>
        rcases dfs_spec (hI.start hs hc) hd with ⟨s', h', hI', hst', hw'⟩ | ⟨c', h', _⟩
        · cases h'
          refine (findCycleFrom_spec hI' hst' h).imp_right ?_
          rintro ⟨hr, s₂, hI₂, hst₂, hw₂, hall₂⟩
          refine ⟨hr, s₂, hI₂, hst₂, fun v hv => hw₂ v (hw' v ?_), fun v hv => ?_⟩
          · by_cases hvs : v = start <;> simp [hvs, hv]
          · rcases mem_cons.1 hv with rfl | hv
            · exact hw₂ _ (hw' _ (by simp))
            · exact hall₂ v hv
        · cases h'

theorem inv_init (deps : Deps V) :
    Inv deps { color := fun _ => .white, parent := fun _ => none, stack := [] } :=
  ⟨by simp, by simp, by simp, by simp, trivial, ⟨fun _ => 0, by simp⟩⟩

theorem findCycle_sound {c : List V} (h : findCycle fuel deps = some (some c)) :
    IsCycle deps.Edge c := by
  rcases findCycleFrom_spec (inv_init deps) rfl h with ⟨c', hc', hcy⟩ | ⟨h', _⟩
  · cases hc'; exact hcy
  · cases h'

theorem mem_keys_of_edge (h : deps.Edge v w) : v ∈ deps.map Prod.fst := by
  unfold Deps.Edge Deps.children at h
  cases hl : deps.lookup v with
  | none => simp [hl] at h
  | some l =>
    obtain ⟨l₁, l₂, hd, _⟩ := List.lookup_eq_some_iff.1 hl
    simp [hd]

/-- `None` is only returned when some ranking of the nodes increases along every edge. -/
theorem findCycle_none (h : findCycle fuel deps = some none) :
    ∃ rank, Ranks deps.Edge rank := by
  rcases findCycleFrom_spec (inv_init deps) rfl h with ⟨c', hc', _⟩ | ⟨_, s, hI, hst, _, hall⟩
  · cases hc'
  · -- the black nodes rank below their parents, so the ranking is turned upside down
    have hblack : ∀ v ∈ deps.map Prod.fst, s.color v = .black := by
      intro v hv
      have hg : s.color v ≠ .grey := fun hg => by simpa [hst] using (hI.grey_iff v).1 hg
      have hw := hall v hv
      cases hc : s.color v <;> simp_all
    obtain ⟨rank, hrank⟩ := hI.black
    refine ⟨fun v => ((deps.map Prod.fst).map rank).sum - rank v, fun u w huw => ?_⟩
    have hu := mem_keys_of_edge huw
    have hlt := (hrank u (hblack u hu) w huw).2
    have := single_le_sum (by simp) (rank u) (List.mem_map_of_mem (f := rank) hu)
    dsimp only
    omega

/-! ## Termination -/

/-- Every node of the graph, once. -/
def Deps.nodes (deps : Deps V) : List V := (deps.flatMap fun e => e.1 :: e.2).dedup

/-- The iterator steps still to be made from white nodes. -/
def Deps.whiteWork (deps : Deps V) (color : V → Color) : Nat :=
  (deps.nodes.map fun v => if color v = .white then (deps.children v).length + 1 else 0).sum

/-- The steps left to the search. -/
def Deps.work (deps : Deps V) (s : DfsState V) : Nat :=
  deps.whiteWork s.color + (s.stack.map fun e => e.2.length + 1).sum

/-- A bound on the steps of the whole search. -/
def Deps.bound (deps : Deps V) : Nat := (deps.nodes.map fun v => (deps.children v).length + 1).sum

theorem child_mem_nodes (h : deps.Edge v w) : w ∈ deps.nodes := by
  unfold Deps.Edge Deps.children at h
  cases hl : deps.lookup v with
  | none => simp [hl] at h
  | some l =>
    obtain ⟨l₁, l₂, hd, _⟩ := List.lookup_eq_some_iff.1 hl
    simp only [hl, Option.getD_some] at h
    simp only [Deps.nodes, mem_dedup, mem_flatMap]
    exact ⟨(v, l), by rw [hd]; simp, by simp [h]⟩

theorem key_mem_nodes (h : v ∈ deps.map Prod.fst) : v ∈ deps.nodes := by
  obtain ⟨e, he, rfl⟩ := mem_map.1 h
  simp only [Deps.nodes, mem_dedup, mem_flatMap]
  exact ⟨e, he, by simp⟩

theorem whiteWork_grey {color : V → Color} (hv : v ∈ deps.nodes) (hw : color v = .white) :
    deps.whiteWork (update color v .grey) + ((deps.children v).length + 1) = deps.whiteWork color := by
  have := sum_map_change (nodup_dedup _) hv
    (f := fun u => if update color v .grey u = .white then (deps.children u).length + 1 else 0)
    (g := fun u => if color u = .white then (deps.children u).length + 1 else 0)
    (fun u hu => by simp only [update_of_ne hu])
  simpa [Deps.whiteWork, Deps.nodes, hw] using this

theorem whiteWork_mono (h : ∀ v, c v ≠ .white → c' v ≠ .white) :
    deps.whiteWork c' ≤ deps.whiteWork c := by
  refine sum_le_sum fun v _ => ?_
  by_cases hc : c v = .white
  · rw [if_pos hc]; split <;> omega
  · rw [if_neg hc, if_neg (h v hc)]

theorem whiteWork_le_bound (deps : Deps V) (color : V → Color) : deps.whiteWork color ≤ deps.bound :=
  sum_le_sum fun v _ => by split <;> omega

theorem dfs_terminates : ∀ {fuel : Nat} {s : DfsState V}, Inv deps s → deps.work s < fuel →
    ∃ r, dfs deps fuel s = some r
  | 0, _, _, h => absurd h (Nat.not_lt_zero _)
  | fuel + 1, s, hI, h => by
    rw [dfs]
    split
    case h_1 hs => exact ⟨_, rfl⟩
    case h_2 node rest hs =>
      refine dfs_terminates (hI.close hs) (lt_of_lt_of_le ?_ (Nat.le_of_lt_succ h))
      have hmono : deps.whiteWork (update s.color node .black) ≤ deps.whiteWork s.color :=
        whiteWork_mono fun v hv => by by_cases hvn : v = node <;> simp [hvn, hv]
      simp only [Deps.work, hs, map_cons, sum_cons]
      omega
    case h_3 node child cs rest hs =>
      split
      case h_1 hc =>
        obtain ⟨c, hcl, _⟩ := climb_cycle hI hs hc
        exact ⟨_, by rw [hcl]; rfl⟩
      case h_2 hc =>
        refine dfs_terminates (hI.open hs hc) (lt_of_lt_of_le ?_ (Nat.le_of_lt_succ h))
        have hnode : child ∈ deps.nodes :=
          child_mem_nodes (hI.sub (node, child :: cs) (by rw [hs]; simp) child (by simp))
        have := whiteWork_grey hnode hc
        simp only [Deps.work, hs, map_cons, sum_cons, length_sortedChildren, length_cons]
        omega
      case h_3 hc =>
        refine dfs_terminates (hI.skip hs hc) (lt_of_lt_of_le ?_ (Nat.le_of_lt_succ h))
        simp only [Deps.work, hs, map_cons, sum_cons, length_cons]
        omega

theorem dfs_mono : ∀ {n m : Nat} {s : DfsState V} {r : DfsState V ⊕ List V}, n ≤ m →
    dfs deps n s = some r → dfs deps m s = some r
  | 0, _, _, _, _, h => by simp [dfs] at h
  | n + 1, 0, _, _, hle, _ => absurd hle (by omega)
  | n + 1, m + 1, s, r, hle, h => by
    have hle : n ≤ m := by omega
    rw [dfs] at h ⊢
    split at h
    · exact h
    · exact dfs_mono hle h
    · split at h
      · exact h
      · exact dfs_mono hle h
      · exact dfs_mono hle h

/-- With enough fuel the `for` loop ends, with the same result for every larger fuel. -/
theorem findCycleFrom_terminates : ∀ {starts : List V} {s : DfsState V},
    (∀ v ∈ starts, v ∈ deps.nodes) → Inv deps s → s.stack = [] →
    ∃ r, ∀ fuel, deps.bound < fuel → findCycleFrom deps fuel starts s = some r
  | [], s, _, _, _ => ⟨none, fun _ _ => rfl⟩
  | start :: rest, s, hst, hI, hs => by
    have hrest : ∀ v ∈ rest, v ∈ deps.nodes := fun v hv => hst v (mem_cons_of_mem _ hv)
    by_cases hc : s.color start = .white
    · have hI' := hI.start hs hc
      have hwork : deps.work { s with color := update s.color start .grey
                                      stack := [(start, deps.sortedChildren start)] } ≤ deps.bound := by
        have h1 := whiteWork_grey (hst start (by simp)) hc
        have h2 := whiteWork_le_bound deps s.color
        simp only [Deps.work, map_cons, map_nil, sum_cons, sum_nil, length_sortedChildren]
        omega
      obtain ⟨r, hr⟩ := dfs_terminates hI' (Nat.lt_succ_of_le hwork)
      have hr' : ∀ fuel, deps.bound < fuel → dfs deps fuel _ = some r := fun fuel hf => dfs_mono hf hr
      rcases dfs_spec hI' hr with ⟨s', rfl, hI₂, hs₂, _⟩ | ⟨c, rfl, _⟩
      · obtain ⟨r₂, hr₂⟩ := findCycleFrom_terminates hrest hI₂ hs₂
        exact ⟨r₂, fun fuel hf => by rw [findCycleFrom, if_neg (by simpa using hc), hr' fuel hf]; exact hr₂ fuel hf⟩
      · exact ⟨some c, fun fuel hf => by rw [findCycleFrom, if_neg (by simpa using hc), hr' fuel hf]⟩
    · obtain ⟨r, hr⟩ := findCycleFrom_terminates hrest hI hs
      exact ⟨r, fun fuel hf => by rw [findCycleFrom, if_pos hc]; exact hr fuel hf⟩

/-- `_find_cycle` terminates: from some fuel on the result is there and does not change. -/
theorem findCycle_terminates (deps : Deps V) : ∃ r, ∀ fuel, deps.bound < fuel → findCycle fuel deps = some r :=
  findCycleFrom_terminates (fun _ hv => key_mem_nodes hv) (inv_init deps) rfl

end FindCycle

end GvsocPulp.FloonocV2.Routing
