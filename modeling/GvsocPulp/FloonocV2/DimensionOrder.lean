import GvsocPulp.FloonocV2.Coordinates

/-!
# `dimension_order`

A route corrects the coordinates of its router axis by axis.

- `Corrects`: one step along the first axis that differs; `nextCoord_cases`: the position the generator looks up;
- `l1Dist_corrects`: such a step brings the distance down by one;
- `turnKey_lt`: the links of two such steps towards one router increase;
- `dimensionOrder_hops`: where no error is raised, every hop is such a step;
- `dimensionOrder_accepted`: the tables are safe.
-/

namespace GvsocPulp.FloonocV2.Routing

open Lib List

/-! ## The generator -/

def axisIndex (axis : Char) : Except RoutingError Nat :=
  if axis = 'x' then .ok 0
  else if axis = 'y' then .ok 1
  else if axis = 'z' then .ok 2
  else .error .noAxis

/-- `['xyz'.index(axis) for axis in order]`. -/
def axesOf : List Char → Except RoutingError (List Nat)
  | [] => .ok []
  | c :: rest =>
    match axisIndex c with
    | .error e => .error e
    | .ok axis => (axesOf rest).map (axis :: ·)

/-- `next_coord[axis] += 1 if dst_coord[axis] > src_coord[axis] else -1`. -/
def toward (s d : Int) : Int := if d > s then s + 1 else s - 1

/-- `for axis in axes`: the next position, along the first axis that differs. -/
def nextCoord (src dst : List Int) : List Nat → Except RoutingError (List Int)
  | [] => .ok src
  | axis :: axes =>
    match src[axis]?, dst[axis]? with
    | some s, some d => if s ≠ d then .ok (src.set axis (toward s d)) else nextCoord src dst axes
    | _, _ => .error .shortCoordinate

/-- The router at the next position towards a target, which must be a neighbour. -/
def dimensionHop (t : Topology) (order : String) (axes : List Nat) (index : CoordMap) (src target : NodeId) :
    Except RoutingError NodeId :=
  match nextCoord (coordOf t src) (coordOf t target) axes with
  | .error e => .error e
  | .ok next =>
    match index next with
    | none => .error (.noPosition order.toUpper (t.name src) (t.name target) next)
    | some router =>
      if router ∉ t.routerAdj src then .error (.noPosition order.toUpper (t.name src) (t.name target) next)
      else .ok router

def dimensionOrder (t : Topology) (order : String) : Except RoutingError Tables :=
  match axesOf order.toList with
  | .error e => .error e
  | .ok axes =>
    match coordToRouter t (fun router => .noCoordinates (t.name router) order.toUpper) t.routers fun _ => none with
    | .error e => .error e
    | .ok index =>
      match firstHopsOf (fun src => hopsTowards (dimensionHop t order axes index src) src t.routers) t.routers with
      | .error e => .error e
      | .ok firstHops => tablesFromFirstHops t firstHops t.routers

/-! ## One step -/

structure Corrects (axes : List Nat) (src dst next : List Int) (p axis : Nat) (s d : Int) : Prop where
  axis_eq : axes[p]? = some axis
  before : ∀ q < p, ∀ a, axes[q]? = some a → src[a]? = dst[a]?
  src_eq : src[axis]? = some s
  dst_eq : dst[axis]? = some d
  ne : s ≠ d
  next_eq : next = src.set axis (toward s d)

theorem nextCoord_cases {src dst next : List Int} : ∀ {axes : List Nat}, nextCoord src dst axes = .ok next →
    next = src ∨ ∃ p axis s d, Corrects axes src dst next p axis s d
  | [], h => by
    cases h
    exact .inl rfl
  | axis :: axes, h => by
    unfold nextCoord at h
    split at h
    case h_1 s d hs hd =>
      split at h
      case isTrue hne =>
        cases h
        exact .inr ⟨0, axis, s, d, rfl, nofun, hs, hd, hne, rfl⟩
      case isFalse heq =>
        rcases nextCoord_cases h with h | ⟨p, axis', s', d', hc⟩
        · exact .inl h
        · refine .inr ⟨p + 1, axis', s', d', hc.axis_eq, fun q hq a ha => ?_, hc.src_eq, hc.dst_eq, hc.ne, hc.next_eq⟩
          cases q with
          | zero =>
            cases ha
            rw [hs, hd, not_not.1 heq]
          | succ q => exact hc.before q (by omega) a ha
    case h_2 => cases h

def l1Dist (u v : List Int) : Nat := (List.zipWith (fun a b => (a - b).natAbs) u v).sum

theorem l1Dist_self (u : List Int) : l1Dist u u = 0 := by
  unfold l1Dist
  simp

theorem l1Dist_set {s e : Int} : ∀ {u v : List Int} {axis : Nat}, u[axis]? = some s → v[axis]? = some e → s ≠ e →
    l1Dist u v = l1Dist (u.set axis (toward s e)) v + 1
  | [], _, _, hs, _, _ => by simp at hs
  | _ :: _, [], _, _, he, _ => by simp at he
  | a :: u, b :: v, 0, hs, he, hne => by
    simp only [getElem?_cons_zero, Option.some.injEq] at hs he
    subst hs he
    simp only [l1Dist, set_cons_zero, zipWith_cons_cons, sum_cons, toward]
    split <;> omega
  | a :: u, b :: v, axis + 1, hs, he, hne => by
    have ih := @l1Dist_set s e u v axis (by simpa using hs) (by simpa using he) hne
    simp only [l1Dist, set_cons_succ, zipWith_cons_cons, sum_cons] at ih ⊢
    omega

section Corrects

variable {axes : List Nat} {src dst next : List Int} {p axis : Nat} {s d : Int}

theorem toward_ne (s d : Int) : toward s d ≠ s := by
  unfold toward
  split <;> omega

section

variable (h : Corrects axes src dst next p axis s d)
include h

theorem Corrects.l1Dist_eq : l1Dist src dst = l1Dist next dst + 1 := by
  rw [h.next_eq]
  exact l1Dist_set h.src_eq h.dst_eq h.ne

theorem Corrects.next_axis : next[axis]? = some (toward s d) := by
  have hlt : axis < src.length := (List.getElem?_eq_some_iff.1 h.src_eq).1
  rw [h.next_eq, getElem?_set_self hlt]

theorem Corrects.next_other {a : Nat} (ha : a ≠ axis) :
    next[a]? = src[a]? := by
  rw [h.next_eq, getElem?_set_ne ha.symm]

theorem Corrects.before_ne {q a : Nat} (hq : q < p) (ha : axes[q]? = some a) :
    a ≠ axis := by
  rintro rfl
  have heq := h.before q hq a ha
  rw [h.src_eq, h.dst_eq, Option.some.injEq] at heq
  exact h.ne heq

end

/-- A link between two positions: the place of its axis in the order, and how far along it goes. -/
def turnKey (axes : List Nat) (u u' : List Int) : Nat ×ₗ Int :=
  let p := axes.findIdx fun a => decide (u[a]? ≠ u'[a]?)
  let x := u.getD (axes.getD p 0) 0
  toLex (p, if u'.getD (axes.getD p 0) 0 > x then x else -x)

theorem Corrects.turnKey_eq (h : Corrects axes src dst next p axis s d) :
    turnKey axes src next = toLex (p, if d > s then s else -s) := by
  have hlt : p < axes.length := (List.getElem?_eq_some_iff.1 h.axis_eq).1
  have hidx : axes.findIdx (fun a => decide (src[a]? ≠ next[a]?)) = p := by
    rw [findIdx_eq hlt]
    refine ⟨?_, fun q hq => ?_⟩
    · rw [(List.getElem?_eq_some_iff.1 h.axis_eq).2, h.src_eq, h.next_axis]
      simpa using (toward_ne s d).symm
    · have hqa : axes[q]? = some axes[q] := getElem?_eq_getElem _
      rw [h.next_other (h.before_ne hq hqa)]
      simp
  unfold turnKey
  simp only [hidx, getD_eq_getElem?_getD, h.axis_eq, Option.getD_some, h.src_eq, h.next_axis]
  have hcond : toward s d > s ↔ d > s := by
    have hne := h.ne
    unfold toward
    split <;> omega
  rw [if_congr hcond rfl rfl]

/-- The links of two steps towards one position increase: a later axis, or further along the same one. -/
theorem Corrects.turnKey_lt (h : Corrects axes src dst next p axis s d) {next' : List Int} {p' axis' : Nat}
    {s' d' : Int} (h' : Corrects axes next dst next' p' axis' s' d') :
    turnKey axes src next < turnKey axes next next' := by
  rw [h.turnKey_eq, h'.turnKey_eq, Prod.Lex.toLex_lt_toLex]
  have hle : p ≤ p' := by
    by_contra hlt
    have hne := h.before_ne (by omega) h'.axis_eq
    have heq := h.before p' (by omega) axis' h'.axis_eq
    rw [← h.next_other hne, h'.src_eq, h'.dst_eq, Option.some.injEq] at heq
    exact h'.ne heq
  rcases hle.lt_or_eq with hlt | rfl
  · exact .inl hlt
  · refine .inr ⟨rfl, ?_⟩
    have haxis : axis = axis' := by
      have := h.axis_eq.symm.trans h'.axis_eq
      simpa using this
    subst haxis
    have hs : s' = toward s d := by
      have := h'.src_eq.symm.trans h.next_axis
      simpa using this
    have hd : d' = d := by
      have := h'.dst_eq.symm.trans h.dst_eq
      simpa using this
    have hne := h'.ne
    have hne₀ := h.ne
    subst hs hd
    simp only [toward] at hne ⊢
    split at hne <;> split <;> split <;> omega

end Corrects

/-! ## The hops of the generator -/

section Hops

variable {t : Topology} {order : String} {axes : List Nat} {index : CoordMap}

theorem dimensionHop_ok {src w v : NodeId} (h : dimensionHop t order axes index src w = .ok v) :
    ∃ next, nextCoord (coordOf t src) (coordOf t w) axes = .ok next ∧ index next = some v ∧ v ∈ t.routerAdj src := by
  unfold dimensionHop at h
  split at h
  case h_1 => cases h
  case h_2 next hnext =>
    split at h
    case h_1 => cases h
    case h_2 router hrouter =>
      split at h
      case isTrue => cases h
      case isFalse hadj =>
        cases h
        exact ⟨next, hnext, hrouter, not_not.1 hadj⟩

/-- **The hops.** Where no error is raised, each first hop is one step along the first axis that differs. -/
theorem dimensionOrder_hops {tables : Tables} (h : dimensionOrder t order = .ok tables) :
    ∃ (axes : List Nat) (hops : NodeId → Hops), axesOf order.toList = .ok axes ∧
      tablesFromFirstHops t (t.routers.map fun u => (u, hops u)) t.routers = .ok tables ∧
      ∀ u ∈ t.routers, ∀ w ∈ t.routers, w ≠ u → ∃ v ∈ t.routerAdj u, (hops u).lookup w = some v ∧
        ∃ p axis s d, Corrects axes (coordOf t u) (coordOf t w) (coordOf t v) p axis s d := by
  unfold dimensionOrder at h
  split at h
  case h_1 => cases h
  case h_2 axes haxes =>
    split at h
    case h_1 => cases h
    case h_2 index hindex =>
      split at h
      case h_1 => cases h
      case h_2 firstHops hfirst =>
        obtain ⟨hops, rfl, hhops⟩ := firstHopsOf_ok hfirst
        obtain ⟨hcoords, hsound, hcomplete⟩ := coordToRouter_ok hindex
        have hstep : ∀ u ∈ t.routers, ∀ w ∈ t.routers, w ≠ u → ∃ next v,
          nextCoord (coordOf t u) (coordOf t w) axes = .ok next ∧
            index next = some v ∧ v ∈ t.routerAdj u ∧ (hops u).lookup w = some v := by
          intro u hu w hw hwu
          obtain ⟨v, hv, hlookup⟩ := hopsTowards_ok (hhops u hu) w hw hwu
          obtain ⟨next, hnext, hindex, hadj⟩ := dimensionHop_ok hv
          exact ⟨next, v, hnext, hindex, hadj, hlookup⟩
        have hat : ∀ c v, index c = some v → v ∈ t.routers ∧ coordOf t v = c := by
          intro c v hv
          rcases hsound c v hv with hv | ⟨hmem, hc⟩
          · cases hv
          · exact ⟨hmem, by rw [coordOf, hc]; rfl⟩
        -- a router is found at its own position: two routers there, or nothing to correct, would need a link to itself
        have hself : ∀ u ∈ t.routers, ∀ w ∈ t.routers, w ≠ u → nextCoord (coordOf t u) (coordOf t w) axes ≠
          .ok (coordOf t u) := by
          intro u hu w hw hwu hnext
          obtain ⟨next, v, hnext', hv, hadj, -⟩ := hstep u hu w hw hwu
          rw [hnext, Except.ok.injEq] at hnext'
          subst hnext'
          obtain ⟨hvr, hvc⟩ := hat _ _ hv
          -- from `v`, the router found there, to `u`
          have huv : u ≠ v := by
            rintro rfl
            exact t.adj_irrefl u (t.mem_routerAdj.1 hadj).1
          obtain ⟨next', v', hnext', hv', hadj', -⟩ := hstep v hvr u hu huv
          have hsame : ∀ as : List Nat, (∃ c, nextCoord (coordOf t u) (coordOf t u) as = .ok c) →
              nextCoord (coordOf t u) (coordOf t u) as = .ok (coordOf t u) := by
            intro as hok
            obtain ⟨c, hc⟩ := hok
            rcases nextCoord_cases hc with rfl | ⟨p, axis, s, d, hcor⟩
            · exact hc
            · have := hcor.src_eq.symm.trans hcor.dst_eq
              rw [Option.some.injEq] at this
              exact absurd this hcor.ne
          rw [hvc] at hnext'
          rw [hsame axes ⟨_, hnext'⟩, Except.ok.injEq] at hnext'
          subst hnext'
          rw [hv] at hv'
          cases hv'
          exact t.adj_irrefl v (t.mem_routerAdj.1 hadj').1
        refine ⟨axes, hops, haxes, h, fun u hu w hw hwu => ?_⟩
        obtain ⟨next, v, hnext, hv, hadj, hlookup⟩ := hstep u hu w hw hwu
        refine ⟨v, hadj, hlookup, ?_⟩
        rw [(hat _ _ hv).2]
        rcases nextCoord_cases hnext with rfl | hcor
        · exact absurd hnext (hself u hu w hw hwu)
        · exact hcor

end Hops

/-! ## The whole result -/

/-- The tables correct the axes one after the other, on the shortest way, and `check_routes` accepts them. -/
structure DimensionRouted (t : Topology) (axes : List Nat) (tables : Tables) : Prop where
  corrects : ∀ u ∈ t.routers, ∀ ni ∈ t.nis, ∀ w, t.adj ni = [w] → w ≠ u → ∃ v ∈ t.routerAdj u,
    tables.hop u ni = some v ∧ ∃ p axis s d, Corrects axes (coordOf t u) (coordOf t w) (coordOf t v) p axis s d
  arrives : ∀ u ∈ t.routers, ∀ ni ∈ t.nis, ∀ w, t.adj ni = [w] →
    ∃ l, RoutesTo t tables ni u l ∧ l.length = l1Dist (coordOf t u) (coordOf t w) + 2
  accepted : Accepted t tables

/-- **Dimension-order tables are safe**: where `dimension_order` raises no error on a network with a router, every route
corrects the axes in the given order, and the channel dependencies are acyclic. -/
theorem dimensionOrder_accepted (t : Topology) (order : String) (tables : Tables)
    (h : dimensionOrder t order = .ok tables) (hnis : t.routers = [] → t.nis.length ≤ 1) :
    ∃ axes, axesOf order.toList = .ok axes ∧ DimensionRouted t axes tables := by
  obtain ⟨axes, hops, haxes, htables, hhops⟩ := dimensionOrder_hops h
  refine ⟨axes, haxes, ?_⟩
  by_cases hne : t.routers = []
  · have hnone : ∀ u, u ∉ t.routers := by simp [hne]
    refine ⟨fun u hu => absurd hu (hnone u), fun u hu => absurd hu (hnone u), accepted_of_ranked ?_ ⟨fun _ => 0, ?_⟩⟩
    · intro src hs dst hd hsd
      obtain ⟨i, hi, rfl⟩ := getElem_of_mem hs
      obtain ⟨j, hj, rfl⟩ := getElem_of_mem hd
      have hlen := hnis hne
      have hij : i = j := by omega
      subst hij
      exact absurd rfl hsd
    · rintro x y ⟨src, dst, path, hs, -, -, ⟨router, l, hr, -⟩, -⟩
      exact absurd (router_of_attached hs hr) (hnone router)
  · obtain ⟨hT, -⟩ := hopTables_of_ok hne htables
    have hspec : ∀ w ∈ t.routers, ∀ u ∈ t.routers, w ≠ u → ∀ v, (hops u).lookup w = some v → v ∈ t.routerAdj u ∧
        ∃ p axis s d, Corrects axes (coordOf t u) (coordOf t w) (coordOf t v) p axis s d := by
      intro w hw u hu hwu v hv
      obtain ⟨v', hadj, hv', hcor⟩ := hhops u hu w hw hwu
      rw [hv] at hv'
      cases hv'
      exact ⟨hadj, hcor⟩
    have harrives : ∀ u ∈ t.routers, ∀ ni ∈ t.nis, ∀ w, t.adj ni = [w] →
        ∃ l, RoutesTo t tables ni u l ∧ l.length = l1Dist (coordOf t u) (coordOf t w) + 2 := by
      intro u hu ni hm w hw
      have hwr := router_of_attached hm hw
      refine hT.routesTo_exact hm hw (fun v => l1Dist (coordOf t v) (coordOf t w)) (l1Dist_self _)
        (fun v hv hwv => ?_) hu
      obtain ⟨v', hadj, hv', p, axis, s, d, hcor⟩ := hhops v hv w hwr hwv
      exact ⟨v', hadj, hv', hcor.l1Dist_eq⟩
    refine ⟨fun u hu ni hm w hw hwu => ?_, harrives, ?_⟩
    · obtain ⟨v, hadj, hv, hcor⟩ := hhops u hu w (router_of_attached hm hw) hwu
      refine ⟨v, hadj, ?_, hcor⟩
      rw [hT.hop_eq u hu ni hm w hw, if_neg hwu, hv]
    · refine hT.accepted (fun a b => turnKey axes (coordOf t a) (coordOf t b)) (fun u hu ni hm => ?_)
        (fun w hw u hu hwu v hv => (hspec w hw u hu hwu v hv).1) ?_
      · obtain ⟨w, hw⟩ := hT.attached ni hm
        obtain ⟨l, hl, -⟩ := harrives u hu ni hm w hw
        exact ⟨l, hl⟩
      · intro w hw a ha b hb c hc hwa hwb hab hbc
        obtain ⟨-, p, axis, s, d, hcor⟩ := hspec w hw a ha hwa b hab
        obtain ⟨-, p', axis', s', d', hcor'⟩ := hspec w hw b hb hwb c hbc
        exact hcor.turnKey_lt hcor'

/-! ## Two networks -/

def gridOf (routers : List (NodeId × List Int)) (links : List (NodeId × NodeId)) : Except RoutingError Topology :=
  let withRouter (t : Except RoutingError Topology) (r : NodeId × List Int) : Except RoutingError Topology :=
    t.bind fun t => (t.addRouter r.1 ("r" ++ toString r.1) (some r.2)).bind fun t =>
      (t.addNi (100 + r.1) ("ni" ++ toString r.1)).bind fun t => t.addLink r.1 (100 + r.1)
  links.foldl (fun t l => t.bind fun t => t.addLink l.1 l.2) (routers.foldl withRouter (.ok Topology.empty))

/-- A square of four routers, their coordinates with an entry more than there are axes. -/
def square : Topology :=
  match gridOf [(0, [0, 0, 7]), (1, [1, 0, 7]), (2, [1, 1, 7]), (3, [0, 1, 7])] [(0, 1), (1, 2), (3, 0), (2, 3)] with
  | .ok t => t
  | .error _ => .empty

theorem dimensionOrder_accepted_square : ∃ tables, dimensionOrder square "yx" = .ok tables ∧
    DimensionRouted square [1, 0] tables := by
  have hok : (dimensionOrder square "yx").isOk = true := by decide +kernel
  cases h : dimensionOrder square "yx" with
  | error e =>
    rw [h] at hok
    cases hok
  | ok tables =>
    obtain ⟨axes, haxes, hrouted⟩ := dimensionOrder_accepted square "yx" tables h fun hnil => by
      have hrouters : square.routers = [0, 1, 2, 3] := by decide +kernel
      rw [hrouters] at hnil
      cases hnil
    cases haxes.symm.trans (show axesOf "yx".toList = .ok [1, 0] by decide +kernel)
    exact ⟨tables, rfl, hrouted⟩

/-- Two NIs without a router. -/
def looseNis : Topology :=
  match (Topology.empty.addNi 0 "a").bind fun t => t.addNi 1 "b" with
  | .ok t => t
  | .error _ => .empty

/-- Without a router no table is built and no error raised, but `check_routes` asks for the router of each NI. -/
theorem dimensionOrder_looseNis : dimensionOrder looseNis "xy" = .ok [] ∧ ¬Accepted looseNis [] := by
  refine ⟨by decide +kernel, ?_⟩
  rintro ⟨n, routes, hrun⟩
  have h := hrun n le_rfl
  have hpairs : niPairs looseNis = [(0, 1), (1, 0)] := by decide +kernel
  have hrouter : looseNis.niRouter 0 = .error (.niLinks "a" 0) := by decide +kernel
  rw [checkRoutes, hpairs, routesLoop, hrouter] at h
  cases h

end GvsocPulp.FloonocV2.Routing
