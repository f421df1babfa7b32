import GvsocPulp.FloonocV2.UpDown

/-!
# Tables built from first hops

Most generators choose, for each router, a first hop towards each other router, and `_tables_from_first_hops` turns
these into next-hop tables.

- `HopTables`: the tables of such a choice; `hopTables_of_ok`, `hopTables_of_hops`: what `_tables_from_first_hops`
  returns, and when it does;
- `HopTables.routesTo`, `HopTables.routesTo_exact`: following the tables arrives where some measure of the remaining
  way gets smaller at each hop;
- `RoutesFound`: `check_routes` raises no error but that of a deadlock;
- `HopTables.accepted`: it raises no error at all where the links between routers have an order in which the next two
  hops towards a router always increase.
-/

namespace GvsocPulp.FloonocV2.Routing

open Lib List

variable {ni u w : NodeId} {l : List NodeId}

variable {src : NodeId} {firstHops : List (NodeId × Hops)} {K : Type*}

/-! ## What the tables hold -/

section Tables

variable {t : Topology} {tables : Tables}

theorem lookup_map_of_mem {β : Type*} {f : NodeId → β} {k : NodeId} : ∀ {l : List NodeId}, k ∈ l →
    (l.map fun s => (s, f s)).lookup k = some (f k)
  | [], h => by cases h
  | s :: l, h => by
    by_cases hk : k = s
    · subst hk; simp
    · have hb : (k == s) = false := by simpa using hk
      rw [map_cons, lookup_cons, hb]
      exact lookup_map_of_mem ((mem_cons.1 h).resolve_left hk)

theorem tableOf_ok {hops : Hops} : ∀ {nis : List NodeId},
    (∀ ni ∈ nis, ∃ r, t.adj ni = [r] ∧ (r ≠ src → ∃ h, hops.lookup r = some h)) →
    ∃ table, tableOf t src hops nis = .ok table ∧ ∀ ni ∈ nis, ∀ r, t.adj ni = [r] →
      List.lookup ni table = if r = src then some ni else hops.lookup r
  | [], _ => ⟨[], rfl, by simp⟩
  | ni :: rest, h => by
    obtain ⟨r, hr, hhop⟩ := h ni (by simp)
    obtain ⟨table, htable, hspec⟩ := tableOf_ok fun n hn => h n (mem_cons_of_mem _ hn)
    obtain ⟨h₀, hh₀, hrun⟩ : ∃ h₀, (if r = src then some ni else hops.lookup r) = some h₀ ∧
        tableOf t src hops (ni :: rest) = .ok ((ni, h₀) :: table) := by
      rw [tableOf, t.niRouter_ok.2 hr]
      by_cases hrs : r = src
      · exact ⟨ni, by simp [hrs], by simp [hrs, htable, Except.map]⟩
      · obtain ⟨h₀, hh₀⟩ := hhop hrs
        exact ⟨h₀, by simp [hrs, hh₀], by simp [hrs, hh₀, htable, Except.map]⟩
    refine ⟨_, hrun, fun n hn r' hr' => ?_⟩
    by_cases hni : n = ni
    · subst hni
      rw [hr] at hr'
      cases hr'
      rw [hh₀]
      simp
    · have hb : (n == ni) = false := by simpa using hni
      rw [lookup_cons, hb]
      exact hspec n ((mem_cons.1 hn).resolve_left hni) r' hr'

/-- A router gets its table only with a first hop towards the router of every NI. -/
theorem tableOf_hops {hops : Hops} : ∀ {nis : List NodeId} {table : List (NodeId × NodeId)},
    tableOf t src hops nis = .ok table →
    ∀ ni ∈ nis, ∃ r, t.adj ni = [r] ∧ (r ≠ src → ∃ h, hops.lookup r = some h)
  | [], _, _ => by simp
  | ni :: rest, table, h => by
    rw [tableOf] at h
    cases hr : t.niRouter ni with
    | error e =>
      rw [hr] at h
      cases h
    | ok r =>
      rw [hr] at h
      simp only at h
      have hrest : (∃ table', tableOf t src hops rest = .ok table') ∧ (r ≠ src → ∃ h, hops.lookup r = some h) := by
        by_cases hrs : r = src
        · rw [if_pos hrs] at h
          cases hrec : tableOf t src hops rest with
          | error e =>
            rw [hrec] at h
            cases h
          | ok table' => exact ⟨⟨table', rfl⟩, fun hne => absurd hrs hne⟩
        · rw [if_neg hrs] at h
          cases hl : hops.lookup r with
          | none =>
            rw [hl] at h
            cases h
          | some hop =>
            rw [hl] at h
            cases hrec : tableOf t src hops rest with
            | error e =>
              simp only [hrec] at h
              cases h
            | ok table' => exact ⟨⟨table', rfl⟩, fun _ => ⟨hop, rfl⟩⟩
      obtain ⟨⟨table', hrec⟩, hhop⟩ := hrest
      intro n hn
      rcases mem_cons.1 hn with rfl | hn
      · exact ⟨r, t.niRouter_ok.1 hr, hhop⟩
      · exact tableOf_hops hrec n hn

theorem tablesFromFirstHops_ok {table : NodeId → List (NodeId × NodeId)} :
    ∀ {srcs : List NodeId},
      (∀ src ∈ srcs, tableOf t src ((firstHops.lookup src).getD []) t.nis = .ok (table src)) →
      tablesFromFirstHops t firstHops srcs = .ok (srcs.map fun src => (src, table src))
  | [], _ => rfl
  | src :: rest, h => by
    rw [tablesFromFirstHops, h src (by simp)]
    simp only
    rw [tablesFromFirstHops_ok fun s hs => h s (mem_cons_of_mem _ hs)]
    rfl

theorem tableOf_of_tables : ∀ {srcs : List NodeId} {tables : Tables},
    tablesFromFirstHops t firstHops srcs = .ok tables →
    ∀ src ∈ srcs, ∃ table, tableOf t src ((firstHops.lookup src).getD []) t.nis = .ok table
  | [], _, _ => by simp
  | src :: rest, tables, h => by
    rw [tablesFromFirstHops] at h
    cases htable : tableOf t src ((firstHops.lookup src).getD []) t.nis with
    | error e =>
      rw [htable] at h
      cases h
    | ok table =>
      rw [htable] at h
      cases hrec : tablesFromFirstHops t firstHops rest with
      | error e =>
        simp only [hrec] at h
        cases h
      | ok tables' =>
        intro s hs
        rcases mem_cons.1 hs with rfl | hs
        · exact ⟨table, htable⟩
        · exact tableOf_of_tables hrec s hs

variable (t) in
/-- The tables hold the first hops towards the routers of the NIs. -/
structure HopTables (hops : NodeId → Hops) (tables : Tables) : Prop where
  attached : ∀ ni ∈ t.nis, ∃ r, t.adj ni = [r]
  hop_eq : ∀ u ∈ t.routers, ∀ ni ∈ t.nis, ∀ w, t.adj ni = [w] →
    tables.hop u ni = if w = u then some ni else (hops u).lookup w

theorem router_of_attached {r : NodeId} (hni : ni ∈ t.nis) (hr : t.adj ni = [r]) : r ∈ t.routers :=
  t.router_of_ni_adj ni r hni (by simp [hr])

theorem hopTables_of_hops {hops : NodeId → Hops} (hni : ∀ ni ∈ t.nis, ∃ r, t.adj ni = [r])
    (hhop : ∀ u ∈ t.routers, ∀ ni ∈ t.nis, ∀ w, t.adj ni = [w] → w ≠ u → ∃ v, (hops u).lookup w = some v) :
    ∃ tables, tablesFromFirstHops t (t.routers.map fun u => (u, hops u)) t.routers = .ok tables ∧
      HopTables t hops tables := by
  have htable : ∀ u, ∃ table, u ∈ t.routers → tableOf t u (hops u) t.nis = .ok table ∧
      ∀ ni ∈ t.nis, ∀ r, t.adj ni = [r] →
        List.lookup ni table = if r = u then some ni else (hops u).lookup r := by
    intro u
    by_cases hu : u ∈ t.routers
    · obtain ⟨table, h⟩ : ∃ table, tableOf t u (hops u) t.nis = .ok table ∧ _ := by
        refine tableOf_ok fun ni hm => ?_
        obtain ⟨r, hr⟩ := hni ni hm
        exact ⟨r, hr, hhop u hu ni hm r hr⟩
      exact ⟨table, fun _ => h⟩
    · exact ⟨[], fun h => absurd h hu⟩
  choose table htable using htable
  refine ⟨t.routers.map fun u => (u, table u), ?_, hni, fun u hu ni hm w hw => ?_⟩
  · exact tablesFromFirstHops_ok fun u hu => by rw [lookup_map_of_mem hu]; exact (htable u hu).1
  · rw [Tables.hop, lookup_map_of_mem hu]
    exact (htable u hu).2 ni hm w hw

theorem hopTables_of_ok {hops : NodeId → Hops} (hne : t.routers ≠ [])
    (h : tablesFromFirstHops t (t.routers.map fun u => (u, hops u)) t.routers = .ok tables) :
    HopTables t hops tables ∧
      ∀ u ∈ t.routers, ∀ ni ∈ t.nis, ∀ w, t.adj ni = [w] → w ≠ u → ∃ v, (hops u).lookup w = some v := by
  have hsome : ∀ u ∈ t.routers, ∀ ni ∈ t.nis, ∃ r, t.adj ni = [r] ∧ (r ≠ u → ∃ v, (hops u).lookup r = some v) := by
    intro u hu
    obtain ⟨table, htable⟩ := tableOf_of_tables h u hu
    rw [lookup_map_of_mem hu] at htable
    exact tableOf_hops htable
  obtain ⟨u₀, hu₀⟩ := exists_mem_of_ne_nil _ hne
  have hhop : ∀ u ∈ t.routers, ∀ ni ∈ t.nis, ∀ w, t.adj ni = [w] → w ≠ u → ∃ v, (hops u).lookup w = some v := by
    intro u hu ni hm w hw hwu
    obtain ⟨r, hr, hv⟩ := hsome u hu ni hm
    rw [hw] at hr
    cases hr
    exact hv hwu
  obtain ⟨tables', htables', hT⟩ := hopTables_of_hops (fun ni hm => (hsome u₀ hu₀ ni hm).imp fun _ h => h.1) hhop
  rw [h] at htables'
  cases htables'
  exact ⟨hT, hhop⟩

end Tables

/-! ## Following the tables -/

section Follow

variable {t : Topology} {tables : Tables} {hops : NodeId → Hops}

section

variable (hT : HopTables t hops tables) (hni : ni ∈ t.nis) (hw : t.adj ni = [w])
include hT hni hw

theorem HopTables.routesTo_attached : RoutesTo t tables ni w [w, ni] := by
  have hwr := router_of_attached hni hw
  have hne : w ≠ ni := fun h => not_router_of_ni hni (h ▸ hwr)
  have hadj : ni ∈ t.adj w := t.adj_symm ni w (by simp [hw])
  refine .hop hne hwr ?_ hadj .here
  rw [hT.hop_eq w hwr ni hni w hw, if_pos rfl]

theorem HopTables.routesTo_cons {v : NodeId} (hu : u ∈ t.routers) (hwu : w ≠ u) (hv : (hops u).lookup w = some v)
    (hadj : v ∈ t.routerAdj u) (hl : RoutesTo t tables ni v l) : RoutesTo t tables ni u (u :: l) := by
  refine .hop (fun h => not_router_of_ni hni (h ▸ hu)) hu ?_ (t.mem_routerAdj.1 hadj).1 hl
  rw [hT.hop_eq u hu ni hni w hw, if_neg hwu, hv]

theorem HopTables.routesTo (μ : NodeId → Nat)
    (hstep : ∀ u ∈ t.routers, w ≠ u → ∃ v ∈ t.routerAdj u, (hops u).lookup w = some v ∧ μ v < μ u)
    (hu : u ∈ t.routers) : ∃ l, RoutesTo t tables ni u l ∧ l.length ≤ μ u + 2 := by
  induction hn : μ u using Nat.strong_induction_on generalizing u with
  | _ n ih =>
    by_cases hwu : w = u
    · subst hwu
      exact ⟨_, hT.routesTo_attached hni hw, by simp⟩
    · obtain ⟨v, hadj, hv, hlt⟩ := hstep u hu hwu
      obtain ⟨l, hl, hlen⟩ := ih (μ v) (hn ▸ hlt) (t.mem_routerAdj.1 hadj).2 rfl
      refine ⟨u :: l, hT.routesTo_cons hni hw hu hwu hv hadj hl, ?_⟩
      rw [length_cons]
      omega

/-- Where each hop brings the measure down by one, the walk has exactly that many hops. -/
theorem HopTables.routesTo_exact (μ : NodeId → Nat) (hzero : μ w = 0)
    (hstep : ∀ u ∈ t.routers, w ≠ u → ∃ v ∈ t.routerAdj u, (hops u).lookup w = some v ∧ μ u = μ v + 1)
    (hu : u ∈ t.routers) : ∃ l, RoutesTo t tables ni u l ∧ l.length = μ u + 2 := by
  induction hn : μ u generalizing u with
  | zero =>
    by_cases hwu : w = u
    · subst hwu
      exact ⟨_, hT.routesTo_attached hni hw, rfl⟩
    · obtain ⟨v, -, -, hsucc⟩ := hstep u hu hwu
      omega
  | succ n ih =>
    have hwu : w ≠ u := by
      rintro rfl
      omega
    obtain ⟨v, hadj, hv, hsucc⟩ := hstep u hu hwu
    obtain ⟨l, hl, hlen⟩ := ih (t.mem_routerAdj.1 hadj).2 (by omega)
    refine ⟨u :: l, hT.routesTo_cons hni hw hu hwu hv hadj hl, ?_⟩
    rw [length_cons, hlen]

end

/-! ## What is left for `check_routes` -/

variable (t tables) in
def RoutesFound : Prop :=
  ∃ n r, (∀ fuel, n ≤ fuel → checkRoutes t tables fuel false = some r) ∧ ∀ e, r = .error e → ∃ cycle,
    e = .deadlock cycle

/-- Tables that lead from every router to every NI leave `check_routes` a deadlock to find at most. -/
theorem routesFound_of_routesTo (hni : ∀ ni ∈ t.nis, ∃ r, t.adj ni = [r])
    (h : ∀ u ∈ t.routers, ∀ ni ∈ t.nis, ∃ l, RoutesTo t tables ni u l) : RoutesFound t tables := by
  obtain ⟨n, r, hr⟩ := checkRoutes_terminates t tables false
  refine ⟨n, r, hr, fun e he => ?_⟩
  subst he
  have hrun := hr (n + t.nbNodes) (Nat.le_add_right _ _)
  obtain ⟨⟨routes, deps⟩, hloop⟩ : ∃ r, routesLoop t tables (n + t.nbNodes) (niPairs t) [] [] = some (.ok r) := by
    refine routesLoop_of_routes (Nat.le_add_left _ _) fun p hp => ⟨hp, ?_⟩
    obtain ⟨hs, hd, -⟩ := mem_niPairs.1 (show (p.1, p.2) ∈ niPairs t from hp)
    obtain ⟨router, hrouter⟩ := hni p.1 hs
    obtain ⟨l, hl⟩ := h router (router_of_attached hs hrouter) p.2 hd
    exact ⟨p.1 :: l, router, l, hrouter, rfl, hl⟩
  rw [checkRoutes, hloop] at hrun
  cases hc : findCycle (n + t.nbNodes) deps with
  | none =>
    simp only [hc] at hrun
    cases hrun
  | some c =>
    cases c with
    | none =>
      simp only [hc] at hrun
      cases hrun
    | some c =>
      simp only [hc] at hrun
      cases hrun
      exact ⟨_, rfl⟩

/-! ## The channel dependencies of the hops -/

section

variable (hT : HopTables t hops tables) (hni : ni ∈ t.nis) (hw : t.adj ni = [w])
  (hadj : ∀ u ∈ t.routers, w ≠ u → ∀ v, (hops u).lookup w = some v → v ∈ t.routerAdj u) (h : RoutesTo t tables ni u l)
include hT hni hw hadj h

theorem HopTables.routesTo_cases  (hu : u ∈ t.routers) :
    (u = w ∧ l = [w, ni]) ∨ ∃ v l', l = u :: v :: l' ∧ w ≠ u ∧ (hops u).lookup w = some v ∧ v ∈ t.routers ∧
      RoutesTo t tables ni v (v :: l') := by
  by_cases hwu : w = u
  · subst hwu
    exact .inl ⟨rfl, h.unique (hT.routesTo_attached hni hw)⟩
  · refine .inr ?_
    cases h with
    | here => exact absurd hu (not_router_of_ni hni)
    | @hop _ v l' hne _ hv _ hl =>
      rw [hT.hop_eq u hu ni hni w hw, if_neg hwu] at hv
      obtain ⟨l'', rfl⟩ := hl.head
      exact ⟨v, l'', rfl, hwu, hv, (t.mem_routerAdj.1 (hadj u hu hwu v hv)).2, hl⟩

/-- Two consecutive channels of a walk from a router are two hops towards the router of the NI, or the last hop and the
link to the NI. -/
theorem HopTables.consecutive_cases {x y : Channel} (hc : Consecutive l x y) : u ∈ t.routers →
    ∃ a ∈ t.routers, ∃ b ∈ t.routers, x = chan a b ∧ (y = chan b ni ∨
      ∃ c ∈ t.routers, y = chan b c ∧ w ≠ a ∧ w ≠ b ∧ (hops a).lookup w = some b ∧ (hops b).lookup w = some c) := by
  induction h with
  | here => exact absurd hc (not_consecutive_short (by simp))
  | @hop u v l hne hr hh hadj' hrest ih =>
    intro hu
    rcases hT.routesTo_cases hni hw hadj (.hop hne hr hh hadj' hrest) hu with ⟨rfl, hl⟩ | ⟨v', l', hl, hwu,
      hv, hvr, hrest'⟩
    · rw [hl] at hc
      exact absurd hc (not_consecutive_short (by simp))
    · simp only [List.cons.injEq, true_and] at hl
      subst hl
      obtain ⟨_, hhead⟩ := hrest.head
      obtain ⟨rfl, -⟩ := hhead
      rcases hT.routesTo_cases hni hw hadj hrest' hvr with ⟨rfl, hl⟩ | ⟨z, l'', hl, hwv, hz, hzr, -⟩
      · rw [hl] at hc ih
        rcases consecutive_cons.1 hc with ⟨rfl, rfl⟩ | hc
        · exact ⟨u, hu, _, hvr, rfl, .inl rfl⟩
        · exact ih hc hvr
      · rw [hl] at hc ih
        rcases consecutive_cons.1 hc with ⟨rfl, rfl⟩ | hc
        · exact ⟨u, hu, _, hvr, rfl, .inr ⟨z, hzr, rfl, hwu, hwv, hv, hz⟩⟩
        · exact ih hc hvr

end

variable (t tables) in
/-- `check_routes` ends and returns the routes. -/
def Accepted : Prop := ∃ n routes, ∀ fuel, n ≤ fuel → checkRoutes t tables fuel false = some (.ok routes)

theorem accepted_of_ranked (hroutes : ∀ src ∈ t.nis, ∀ dst ∈ t.nis, src ≠ dst → ∃ path, IsRoute t tables src dst path)
    (hrank : ∃ rank, Ranks (RouteDep t tables) rank) : Accepted t tables := by
  obtain ⟨n, r, hr⟩ := checkRoutes_terminates t tables false
  have hrun := hr (n + t.nbNodes) (Nat.le_add_right _ _)
  obtain ⟨routes, rfl⟩ := checkRoutes_of_ranked hroutes hrank (Nat.le_add_left _ _) hrun
  exact ⟨n, routes, hr⟩

variable (t) in
/-- The links of the NIs come first and last, those between routers in the given order. -/
def chanKey {K : Type*} (κ : NodeId → NodeId → K) (x : Channel) : WithBot (WithTop K) :=
  if (ofLex x).1 ∈ t.routers then
    if (ofLex x).2 ∈ t.routers then ((κ (ofLex x).1 (ofLex x).2 : WithTop K) : WithBot (WithTop K))
    else ((⊤ : WithTop K) : WithBot (WithTop K))
  else ⊥

theorem chanKey_chan (κ : NodeId → NodeId → K) (a b : NodeId) : chanKey t κ (chan a b) =
    if a ∈ t.routers then
      if b ∈ t.routers then ((κ a b : WithTop K) : WithBot (WithTop K)) else ((⊤ : WithTop K) : WithBot (WithTop K))
    else ⊥ := rfl

theorem HopTables.accepted (hT : HopTables t hops tables) [Preorder K] (κ : NodeId → NodeId → K)
    (hroutes : ∀ u ∈ t.routers, ∀ ni ∈ t.nis, ∃ l, RoutesTo t tables ni u l)
    (hadj : ∀ w ∈ t.routers, ∀ u ∈ t.routers, w ≠ u → ∀ v, (hops u).lookup w = some v → v ∈ t.routerAdj u)
    (hκ : ∀ w ∈ t.routers, ∀ a ∈ t.routers, ∀ b ∈ t.routers, ∀ c ∈ t.routers, w ≠ a → w ≠ b →
      (hops a).lookup w = some b → (hops b).lookup w = some c → κ a b < κ b c) : Accepted t tables := by
  have hne : ∀ ni ∈ t.nis, ni ∉ t.routers := fun ni hm => not_router_of_ni hm
  refine accepted_of_ranked (fun src hs dst hd _ => ?_) ?_
  · obtain ⟨router, hrouter⟩ := hT.attached src hs
    obtain ⟨l, hl⟩ := hroutes router (router_of_attached hs hrouter) dst hd
    exact ⟨src :: l, router, l, hrouter, rfl, hl⟩
  · refine exists_ranks (chanKey t κ) ((t.routers ++ t.nis).flatMap fun a => (t.routers ++ t.nis).map (chan a)) ?_
    rintro x y ⟨src, dst, path, hs, hd, -, ⟨router, l, hrouter, rfl, hl⟩, hc⟩
    have hmem : ∀ a ∈ t.routers ++ t.nis, ∀ b ∈ t.routers ++ t.nis,
        chan a b ∈ (t.routers ++ t.nis).flatMap fun a => (t.routers ++ t.nis).map (chan a) := by
      intro a ha b hb
      exact mem_flatMap.2 ⟨a, ha, List.mem_map.2 ⟨b, hb, rfl⟩⟩
    have hrr := router_of_attached hs hrouter
    obtain ⟨w, hw⟩ := hT.attached dst hd
    have hwr := router_of_attached hd hw
    obtain ⟨l', rfl⟩ := hl.head
    have hfirst : (x = chan src router ∧ ∃ v, y = chan router v) ∨ Consecutive (router :: l') x y := by
      cases l' with
      | nil => exact absurd hc (not_consecutive_short (by simp))
      | cons v l' =>
        rcases consecutive_cons.1 hc with ⟨rfl, rfl⟩ | hc
        · exact .inl ⟨rfl, v, rfl⟩
        · exact .inr hc
    rcases hfirst with ⟨rfl, v, rfl⟩ | hc
    · refine ⟨hmem _ (by simp [hs]) _ (by simp [hrr]), ?_⟩
      rw [chanKey_chan, chanKey_chan, if_neg (hne src hs), if_pos hrr]
      split
      · exact WithBot.bot_lt_coe _
      · exact WithBot.bot_lt_coe _
    · obtain ⟨a, ha, b, hb, rfl, hy⟩ := hT.consecutive_cases hd hw (hadj w hwr) hl hc hrr
      refine ⟨hmem _ (by simp [ha]) _ (by simp [hb]), ?_⟩
      rw [chanKey_chan κ a b, if_pos ha, if_pos hb]
      rcases hy with rfl | ⟨c, hcr, rfl, hwa, hwb, hab, hbc⟩
      · rw [chanKey_chan, if_pos hb, if_neg (hne dst hd)]
        exact WithBot.coe_lt_coe.2 (WithTop.coe_lt_top _)
      · rw [chanKey_chan, if_pos hb, if_pos hcr]
        exact WithBot.coe_lt_coe.2 (WithTop.coe_lt_coe.2 (hκ w hwr a ha b hb c hcr hwa hwb hab hbc))

end Follow

end GvsocPulp.FloonocV2.Routing
