import GvsocPulp.FloonocV2.LegalRoute
import GvsocPulp.FloonocV2.FirstHops

/-!
# Are the routes of `up_down` legal?

Each table follows the shortest legal routes of its own router, but a packet does not carry the flag of having gone
down from one table to the next.

- `upDown_ok`: on a connected network the tables hold the first hops of the shortest legal routes;
- `UpDownTables.routesTo`: following them always arrives, as the shortest legal routes get shorter at each hop;
- `neverUpAfterDown_iff`: the routes are legal iff no router reached by a down link has an up shortcut;
- `ranks_of_neverUpAfterDown`: legal routes have an acyclic channel dependency graph;
- `upDown_legal_iff`: the whole result; `upDown_bridgedRing`: a network on which the tables can deadlock.
-/

namespace GvsocPulp.FloonocV2.Routing

open Lib List

variable {a b ni u v w : NodeId}

variable {root? : Option NodeId} {c dst : NodeId} {g : Bool}

/-! ## The tables -/

section Tables

variable {t : Topology} {levels : Levels}

theorem upDownFirstHops_eq {fuel : Nat} {hops : NodeId → Hops} : ∀ {srcs : List NodeId},
    (∀ src ∈ srcs, hopsLoop t levels src fuel [(src, false)] [((src, false), none)] [] = some (hops src)) →
    upDownFirstHops t levels fuel srcs = some (srcs.map fun src => (src, hops src))
  | [], _ => rfl
  | src :: rest, h => by
    rw [upDownFirstHops, h src (by simp)]
    simp only
    rw [upDownFirstHops_eq fun s hs => h s (mem_cons_of_mem _ hs)]
    rfl

variable (t levels) in
/-- The tables hold the first hops of the shortest legal routes. -/
structure UpDownTables (tables : Tables) : Prop where
  attached : ∀ ni ∈ t.nis, ∃ r, t.adj ni = [r]
  legal : ∀ u ∈ t.routers, ∀ w ∈ t.routers, ∃ l, LegalRoute t levels false u w l
  hop_attached : ∀ u ∈ t.routers, ∀ ni ∈ t.nis, t.adj ni = [u] → tables.hop u ni = some ni
  hop_remote : ∀ u ∈ t.routers, ∀ ni ∈ t.nis, ∀ w, t.adj ni = [w] → w ≠ u →
    ∀ v, tables.hop u ni = some v ↔ FirstHop t levels u w v

variable {root : NodeId}

/-- Over the levels of a spanning tree the searches find the first hops of the shortest legal routes. -/
theorem upDownFirstHops_spec (hlev : ∀ v ∈ t.routers, v ≠ root → ∃ p ∈ t.routerAdj v, levels.level p < levels.level v) :
    ∃ hops : NodeId → Hops,
      (∀ fuel, upDownBound t < fuel → upDownFirstHops t levels fuel t.routers =
        some (t.routers.map fun u => (u, hops u))) ∧
      (∀ u ∈ t.routers, ∀ w v, w ≠ u → ((hops u).lookup w = some v ↔ FirstHop t levels u w v)) ∧
      ∀ u ∈ t.routers, ∀ w ∈ t.routers, w ≠ u → ∃ v, (hops u).lookup w = some v := by
  have hhops : ∀ src, ∃ hops : Hops, src ∈ t.routers →
      (∀ fuel, upDownBound t < fuel →
        hopsLoop t levels src fuel [(src, false)] [((src, false), none)] [] = some hops) ∧
      ∀ w v, w ≠ src → (hops.lookup w = some v ↔ FirstHop t levels src w v) := by
    intro src
    by_cases hsrc : src ∈ t.routers
    · obtain ⟨hops, h⟩ := @hopsLoop_spec t levels src hsrc
      exact ⟨hops, fun _ => h⟩
    · exact ⟨[], fun h => absurd h hsrc⟩
  choose hops hhops using hhops
  refine ⟨hops, fun fuel hf => upDownFirstHops_eq fun src hsrc => (hhops src hsrc).1 fuel hf,
    fun u hu => (hhops u hu).2, fun u hu w hw hwu => ?_⟩
  obtain ⟨l, hl⟩ := legalRoute_of_levels hlev hu hw
  obtain ⟨v, hv⟩ := hl.via hwu
  obtain ⟨v, hv⟩ := FirstHop.of_via hv
  exact ⟨v, ((hhops u hu).2 w v hwu).2 hv⟩

variable (hroot? : upDownRoot t root? = some root) (hroot : root ∈ t.routers) (hconn : Connected t)
  (hni : ∀ ni ∈ t.nis, ∃ r, t.adj ni = [r])
include hroot? hroot hconn hni

/-- The whole generator on a connected topology: levels, first hops and tables. -/
theorem upDown_run :
    ∃ n levels hops tables, (∀ fuel, n ≤ fuel →
        bfsLevels t fuel root = some (.ok levels) ∧ upDown t fuel root? = some (.ok tables)) ∧
      (∀ v ∈ t.routers, v ≠ root → ∃ p ∈ t.routerAdj v, levels.level p < levels.level v) ∧
      (∀ u ∈ t.routers, ∀ w v, w ≠ u → ((hops u).lookup w = some v ↔ FirstHop t levels u w v)) ∧
      HopTables t hops tables := by
  obtain ⟨levels, hlevels, hlev⟩ := bfsLevels_spec hconn hroot
  obtain ⟨hops, hrun, hspec, hsome⟩ := upDownFirstHops_spec hlev
  obtain ⟨tables, htables, hT⟩ := hopTables_of_hops hni fun u hu ni hm w hw hwu =>
    hsome u hu w (router_of_attached hm hw) hwu
  refine ⟨t.routers.length + upDownBound t + 2, levels, hops, tables, fun fuel hf => ?_, hlev, hspec, hT⟩
  have hl := hlevels fuel (by omega)
  refine ⟨hl, ?_⟩
  rw [upDown, hroot?]
  simp only [hl, hrun fuel (by omega)]
  rw [htables]

theorem upDown_ok :
    ∃ n levels tables, (∀ fuel, n ≤ fuel →
        bfsLevels t fuel root = some (.ok levels) ∧ upDown t fuel root? = some (.ok tables)) ∧
      UpDownTables t levels tables := by
  obtain ⟨n, levels, hops, tables, hrun, hlev, hspec, hT⟩ := upDown_run hroot? hroot hconn hni
  refine ⟨n, levels, tables, hrun, hni, fun u hu w hw => legalRoute_of_levels hlev hu hw, ?_, ?_⟩
  · intro u hu ni hm hr
    rw [hT.hop_eq u hu ni hm u hr, if_pos rfl]
  · intro u hu ni hm w hw hne v
    rw [hT.hop_eq u hu ni hm w hw, if_neg hne]
    exact hspec u hu w v hne

end Tables

/-! ## Following the tables -/

variable {l : List NodeId}

section Follow

variable {t : Topology} {levels : Levels} {tables : Tables}

theorem RoutesTo.last (h : RoutesTo t tables dst u l) : ∃ l', l = l' ++ [dst] := by
  induction h with
  | here => exact ⟨[], rfl⟩
  | @hop u _ _ _ _ _ _ _ ih => obtain ⟨l', rfl⟩ := ih; exact ⟨u :: l', rfl⟩

theorem UpDownTables.routesTo_attached (hT : UpDownTables t levels tables) (hni : ni ∈ t.nis)
    (hw : t.adj ni = [w]) : RoutesTo t tables ni w [w, ni] := by
  have hwr := router_of_attached hni hw
  have hne : w ≠ ni := fun h => not_router_of_ni hni (h ▸ hwr)
  have hadj : ni ∈ t.adj w := t.adj_symm ni w (by simp [hw])
  exact .hop hne hwr (hT.hop_attached w hwr ni hni hw) hadj .here

theorem UpDownTables.routesTo (hT : UpDownTables t levels tables) (hni : ni ∈ t.nis)
    (hu : u ∈ t.routers) : ∃ l, RoutesTo t tables ni u l := by
  obtain ⟨w, hw⟩ := hT.attached ni hni
  obtain ⟨r, hr⟩ := hT.legal u hu w (router_of_attached hni hw)
  have hmain : ∀ n, ∀ u ∈ t.routers, ∀ r, LegalRoute t levels false u w r → r.length ≤ n →
      ∃ l, RoutesTo t tables ni u l := by
    intro n
    induction n with
    | zero => intro u _ r hr hn; have := hr.length_pos; omega
    | succ n ih =>
      intro u hu r hr hn
      by_cases hwu : w = u
      · subst hwu; exact ⟨_, hT.routesTo_attached hni hw⟩
      · obtain ⟨v, hv⟩ := hr.via hwu
        obtain ⟨v', hv'⟩ := FirstHop.of_via hv
        obtain ⟨k, ⟨hadj, l, hl, rfl⟩, hmin⟩ := id hv'
        have hle := hmin v _ hv
        have := hl.length_pos
        have hvr := t.mem_routerAdj.1 hadj
        obtain ⟨l', hl'⟩ := ih v' hvr.2 l hl.weaken (by omega)
        have hne : u ≠ ni := fun h => not_router_of_ni hni (h ▸ hu)
        exact ⟨u :: l', .hop hne hu ((hT.hop_remote u hu ni hni w hw hwu v').2 hv') hvr.1 hl'⟩
  exact hmain _ u hu r hr le_rfl

/-! ## Up after down -/

variable (t levels tables) in
/-- Following the tables never takes an up link after a down link, from any router to any NI. -/
def NeverUpAfterDown : Prop :=
  ∀ u ∈ t.routers, ∀ ni ∈ t.nis, ∀ l, RoutesTo t tables ni u l → ∃ w, LegalRoute t levels false u w l.dropLast

variable (t levels) in
/-- A legal route from `v` to `w` that starts with an up link is shorter than each one that starts with a down link,
or as short with its first link listed earlier. -/
def UpShortcut (v w : NodeId) : Prop :=
  ∃ v' k', LegalVia t levels v v' w k' ∧ isUp levels v v' = true ∧
    ∀ v'' k'', LegalVia t levels v v'' w k'' → isUp levels v v'' = false →
      k' < k'' ∨ (k' = k'' ∧ (t.routerAdj v).idxOf v' ≤ (t.routerAdj v).idxOf v'')

variable (t levels) in
/-- No router that the first shortest legal route of a neighbour enters by a down link has an up shortcut. -/
def NoUpShortcut : Prop :=
  ∀ u ∈ t.routers, ∀ ni ∈ t.nis, ∀ w v, t.adj ni = [w] → w ≠ u → FirstHop t levels u w v →
    isUp levels u v = false → v ≠ w → ¬UpShortcut t levels v w

theorem FirstHop.upShortcut_iff {v' : NodeId} (h : FirstHop t levels v w v') :
    UpShortcut t levels v w ↔ isUp levels v v' = true := by
  obtain ⟨k', hv', hmin⟩ := h
  constructor
  · rintro ⟨x, k, hx, hup, hless⟩
    by_contra hdown
    have hdown : isUp levels v v' = false := by simpa using hdown
    have h₁ := hmin x k hx
    have h₂ := hless v' k' hv' hdown
    have hidx : v' = x := (idxOf_inj hv'.1).1 (by omega)
    rw [hidx, hup] at hdown
    cases hdown
  · intro hup
    exact ⟨v', k', hv', hup, fun v'' k'' h'' _ => hmin v'' k'' h''⟩

/-- Without up shortcuts the walks are legal; those of a router entered by a down link only go down. -/
theorem UpDownTables.legalRoute_of_noUpShortcut (hT : UpDownTables t levels tables) (hno : NoUpShortcut t levels)
    (hni : ni ∈ t.nis) (hw : t.adj ni = [w]) (h : RoutesTo t tables ni u l) : u ∈ t.routers →
      LegalRoute t levels false u w l.dropLast ∧
      ∀ p ∈ t.routers, w ≠ p → FirstHop t levels p w u → isUp levels p u = false →
        LegalRoute t levels true u w l.dropLast := by
  induction h with
  | here => exact fun hu => absurd hu (not_router_of_ni hni)
  | @hop u v l hne hu hh hadj hrest ih =>
    intro _
    by_cases hwu : w = u
    · -- the router of the NI
      subst hwu
      have hl := (hT.routesTo_attached hni hw).unique (.hop hne hu hh hadj hrest)
      rw [← hl]
      exact ⟨.here _ _, fun _ _ _ _ _ => .here _ _⟩
    · have hfirst := (hT.hop_remote u hu ni hni w hw hwu v).1 hh
      have hvadj : v ∈ t.routerAdj u := by obtain ⟨_, hv, _⟩ := hfirst; exact hv.1
      obtain ⟨ih₁, ih₂⟩ := ih (t.mem_routerAdj.1 hvadj).2
      have hdrop : (u :: l).dropLast = u :: l.dropLast := by
        obtain ⟨l', rfl⟩ := hrest.head
        rfl
      rw [hdrop]
      refine ⟨?_, fun p hp hwp hpu hdown => ?_⟩
      · cases hup : isUp levels u v with
        | true => exact .up hvadj hup ih₁
        | false => exact .down hvadj hup (ih₂ u hu hwu hfirst hup)
      · -- entered by a down link: an up link now would be an up shortcut
        have hnot := hno p hp ni hni w u hw hwp hpu hdown (Ne.symm hwu)
        rw [hfirst.upShortcut_iff, Bool.not_eq_true] at hnot
        exact .down hvadj hnot (ih₂ u hu hwu hfirst hnot)

/-- The composed tables never go up after down iff no shortest legal route has an up shortcut. -/
theorem UpDownTables.neverUpAfterDown_iff (hT : UpDownTables t levels tables) :
    NeverUpAfterDown t levels tables ↔ NoUpShortcut t levels := by
  constructor
  · intro hlegal u hu ni hni w v hw hwu hfirst hdown hvw
    obtain ⟨_, ⟨hvadj, _⟩, _⟩ := id hfirst
    have hv := t.mem_routerAdj.1 hvadj
    -- the next hop of `v`
    obtain ⟨r, hr⟩ := hT.legal v hv.2 w (router_of_attached hni hw)
    obtain ⟨x, hx⟩ := hr.via hvw.symm
    obtain ⟨v', hv'⟩ := FirstHop.of_via hx
    rw [hv'.upShortcut_iff]
    intro hup
    obtain ⟨_, ⟨hv'adj, _⟩, _⟩ := id hv'
    have hv'r := t.mem_routerAdj.1 hv'adj
    obtain ⟨l, hl⟩ := hT.routesTo hni hv'r.2
    have hne : ∀ x ∈ t.routers, x ≠ ni := fun x hx h => not_router_of_ni hni (h ▸ hx)
    have hwalk : RoutesTo t tables ni u (u :: v :: l) :=
      .hop (hne u hu) hu ((hT.hop_remote u hu ni hni w hw hwu v).2 hfirst) hv.1
        (.hop (hne v hv.2) hv.2 ((hT.hop_remote v hv.2 ni hni w hw hvw.symm v').2 hv') hv'r.1 hl)
    obtain ⟨w', hleg⟩ := hlegal u hu ni hni _ hwalk
    obtain ⟨l', rfl⟩ := hl.head
    have hl' : ∃ l'', (v' :: l').dropLast = v' :: l'' := by
      obtain ⟨l'', hl''⟩ := hl.last
      cases l'' with
      | nil =>
        simp only [nil_append, List.cons.injEq] at hl''
        exact absurd hl''.1 (hne v' hv'r.2)
      | cons y l'' =>
        simp only [cons_append, List.cons.injEq] at hl''
        obtain ⟨rfl, rfl⟩ := hl''
        exact ⟨l'', by rw [← cons_append, dropLast_concat]⟩
    obtain ⟨l'', hl''⟩ := hl'
    have hdrop : (u :: v :: v' :: l').dropLast = u :: v :: v' :: l'' := by
      rw [← hl'']
      rfl
    rw [hdrop] at hleg
    cases hleg with
    | up hadj hu' hrest =>
      obtain ⟨_, hhead⟩ := hrest.head
      cases hhead
      rw [hdown] at hu'
      cases hu'
    | down hadj _ hrest =>
      obtain ⟨_, hhead⟩ := hrest.head
      cases hhead
      cases hrest with
      | down hadj hd hrest =>
        obtain ⟨_, hhead⟩ := hrest.head
        cases hhead
        rw [hup] at hd
        cases hd
  · intro hno u hu ni hni l hl
    obtain ⟨w, hw⟩ := hT.attached ni hni
    exact ⟨w, (hT.legalRoute_of_noUpShortcut hno hni hw hl hu).1⟩

end Follow

/-! ## The channel dependency graph of legal routes -/

section Ranking

variable {t : Topology} {levels : Levels} {tables : Tables}

theorem isUp_trans (h : isUp levels u v = true) (h' : isUp levels v w = true) :
    isUp levels u w = true := by
  simp only [isUp, decide_eq_true_eq] at h h' ⊢
  grind

theorem isUp_irrefl (u : NodeId) : isUp levels u u = false := by
  simp [isUp]

theorem isUp_total (hne : v ≠ u) (h : isUp levels u v = false) : isUp levels v u = true := by
  simp only [isUp, decide_eq_true_eq, decide_eq_false_iff_not] at h ⊢
  grind

variable (t levels) in
def position (u : NodeId) : Nat := (t.routers.filter fun v => isUp levels u v).length

theorem position_le (u : NodeId) : position t levels u ≤ t.routers.length := length_filter_le _ _

theorem position_lt (hv : v ∈ t.routers) (h : isUp levels u v = true) :
    position t levels v < position t levels u := by
  have hnd : t.routers.Nodup := (nodup_append.1 t.nodup).1
  have hcons : (v :: t.routers.filter fun x => isUp levels v x).Nodup := by
    refine nodup_cons.2 ⟨fun hm => ?_, hnd.filter _⟩
    have := (mem_filter.1 hm).2
    rw [isUp_irrefl] at this
    cases this
  have hsub : (v :: t.routers.filter fun x => isUp levels v x) ⊆ t.routers.filter fun x => isUp levels u x := by
    intro x hx
    rcases mem_cons.1 hx with rfl | hx
    · exact mem_filter.2 ⟨hv, h⟩
    · obtain ⟨hx, hup⟩ := mem_filter.1 hx
      exact mem_filter.2 ⟨hx, isUp_trans h hup⟩
  have := (hcons.subperm hsub).length_le
  exact this

variable (t levels) in
/-- Links from NIs, up links towards the root, down links away from it, links to NIs. -/
def linkRank (a b : NodeId) : Nat :=
  if a ∈ t.nis then 0
  else if b ∈ t.nis then 2 * t.routers.length + 3
  else if isUp levels a b then t.routers.length + 1 - position t levels b
  else t.routers.length + 2 + position t levels b

variable (t levels) in
def chanRank (c : Channel) : Nat := linkRank t levels (ofLex c).1 (ofLex c).2

@[simp] theorem chanRank_chan {a b : NodeId} : chanRank t levels (chan a b) = linkRank t levels a b := rfl

theorem linkRank_ni (ha : a ∈ t.nis) : linkRank t levels a b = 0 := by
  simp [linkRank, ha]

theorem linkRank_pos (ha : a ∈ t.routers) : 0 < linkRank t levels a b := by
  have hna : a ∉ t.nis := fun h => not_router_of_ni h ha
  have := @position_le t levels b
  simp only [linkRank, hna, if_false]
  split
  · omega
  · split <;> omega

theorem linkRank_lt_ni (ha : a ∈ t.routers) (hb : b ∈ t.routers) (hc : c ∈ t.nis) :
    linkRank t levels a b < linkRank t levels b c := by
  have hna : a ∉ t.nis := fun h => not_router_of_ni h ha
  have hnb : b ∉ t.nis := fun h => not_router_of_ni h hb
  have := @position_le t levels b
  simp only [linkRank, hna, hnb, hc, if_false, if_true]
  split <;> omega

theorem linkRank_lt (ha : a ∈ t.routers) (hb : b ∈ t.routers) (hc : c ∈ t.routers) (hbc : c ≠ b)
    (h : isUp levels a b = false → isUp levels b c = false) : linkRank t levels a b < linkRank t levels b c := by
  have hna : a ∉ t.nis := fun h => not_router_of_ni h ha
  have hnb : b ∉ t.nis := fun h => not_router_of_ni h hb
  have hnc : c ∉ t.nis := fun h => not_router_of_ni h hc
  have hlb := @position_le t levels b
  have hlc := @position_le t levels c
  simp only [linkRank, hna, hnb, hnc, if_false]
  cases hab : isUp levels a b with
  | true =>
    cases hup : isUp levels b c with
    | true =>
      have := position_lt hc hup
      simp only [if_true]
      omega
    | false =>
      simp only [if_true, Bool.false_eq_true, if_false]
      omega
  | false =>
    have := position_lt hb (isUp_total hbc (h hab))
    simp only [h hab, Bool.false_eq_true, if_false]
    omega

theorem LegalRoute.chanRank_lt (h : LegalRoute t levels g u w l) (hu : u ∈ t.routers) (hdst : dst ∈ t.nis)
    {x y : Channel} :
    (∀ a, a ∈ t.routers → (isUp levels a u = false → g = true) →
      Consecutive (a :: l ++ [dst]) x y → chanRank t levels x < chanRank t levels y) := by
  induction h with
  | here g w =>
    intro a ha _ hc
    rcases consecutive_cons.1 hc with ⟨rfl, rfl⟩ | hc
    · exact linkRank_lt_ni ha hu hdst
    · exact absurd hc (not_consecutive_short (by simp))
  | @up u v w l hadj hup hl ih =>
    intro a ha hg hc
    have hv := t.mem_routerAdj.1 hadj
    have hvu : v ≠ u := fun h => t.adj_irrefl u (h ▸ hv.1)
    obtain ⟨l', rfl⟩ := hl.head
    rcases consecutive_cons.1 hc with ⟨rfl, rfl⟩ | hc
    · exact linkRank_lt ha hu hv.2 hvu fun h => by simpa using hg h
    · exact ih hv.2 u hu (fun h => by rw [hup] at h; cases h) hc
  | @down g u v w l hadj hdown hl ih =>
    intro a ha _ hc
    have hv := t.mem_routerAdj.1 hadj
    have hvu : v ≠ u := fun h => t.adj_irrefl u (h ▸ hv.1)
    obtain ⟨l', rfl⟩ := hl.head
    rcases consecutive_cons.1 hc with ⟨rfl, rfl⟩ | hc
    · exact linkRank_lt ha hu hv.2 hvu fun _ => hdown
    · exact ih hv.2 u hu (fun _ => rfl) hc

theorem ranks_of_neverUpAfterDown (hlegal : NeverUpAfterDown t levels tables) :
    Ranks (RouteDep t tables) (chanRank t levels) := by
  rintro x y ⟨src, dst, path, hsrc, hdst, _, ⟨router, l, hr, rfl, hl⟩, hc⟩
  have hrouter := router_of_attached hsrc hr
  obtain ⟨w, hleg⟩ := hlegal router hrouter dst hdst l hl
  obtain ⟨l', rfl⟩ := hl.last
  rw [dropLast_concat] at hleg
  obtain ⟨l'', rfl⟩ := hleg.head
  cases hleg with
  | here =>
    rcases consecutive_cons.1 hc with ⟨rfl, rfl⟩ | hc
    · rw [chanRank_chan, linkRank_ni hsrc]; exact linkRank_pos hrouter
    · exact absurd hc (not_consecutive_short (by simp))
  | @up _ v _ _ hadj hup hrest =>
    obtain ⟨l₀, rfl⟩ := hrest.head
    rcases consecutive_cons.1 hc with ⟨rfl, rfl⟩ | hc
    · rw [chanRank_chan, linkRank_ni hsrc]; exact linkRank_pos hrouter
    · exact hrest.chanRank_lt (t.mem_routerAdj.1 hadj).2 hdst router hrouter
        (fun h => by rw [hup] at h; cases h) hc
  | @down _ _ v _ _ hadj hdown hrest =>
    obtain ⟨l₀, rfl⟩ := hrest.head
    rcases consecutive_cons.1 hc with ⟨rfl, rfl⟩ | hc
    · rw [chanRank_chan, linkRank_ni hsrc]; exact linkRank_pos hrouter
    · exact hrest.chanRank_lt (t.mem_routerAdj.1 hadj).2 hdst router hrouter (fun _ => rfl) hc

end Ranking

/-! ## The whole result -/

/-- What the tables of a deadlock-free algorithm promise: legal routes, an acyclic channel dependency graph, and no
deadlock error of `check_routes`. -/
def DeadlockFree (t : Topology) (levels : Levels) (tables : Tables) : Prop :=
  NeverUpAfterDown t levels tables ∧ (∃ rank, Ranks (RouteDep t tables) rank) ∧
    ∀ fuel cycle, checkRoutes t tables fuel false ≠ some (.error (.deadlock cycle))

/-- On a connected network `up_down` returns tables that lead every router to every NI; the tables are deadlock-free
with legal routes iff no router entered by a down link has an up shortcut. -/
theorem upDown_legal_iff (t : Topology) (root? : Option NodeId) (root : NodeId)
    (hroot? : upDownRoot t root? = some root) (hroot : root ∈ t.routers) (hconn : Connected t)
    (hni : ∀ ni ∈ t.nis, ∃ r, t.adj ni = [r]) :
    ∃ n levels tables, (∀ fuel, n ≤ fuel →
        bfsLevels t fuel root = some (.ok levels) ∧ upDown t fuel root? = some (.ok tables)) ∧
      (∀ u ∈ t.routers, ∀ ni ∈ t.nis, ∃ l, RoutesTo t tables ni u l) ∧
      (DeadlockFree t levels tables ↔ NoUpShortcut t levels) := by
  obtain ⟨n, levels, tables, hrun, hT⟩ := upDown_ok hroot? hroot hconn hni
  refine ⟨n, levels, tables, hrun, fun u hu ni hm => hT.routesTo hm hu, ?_⟩
  constructor
  · intro h
    exact hT.neverUpAfterDown_iff.1 h.1
  · intro hno
    have hlegal := hT.neverUpAfterDown_iff.2 hno
    have hrank := ranks_of_neverUpAfterDown hlegal
    refine ⟨hlegal, ⟨_, hrank⟩, fun fuel cycle h => ?_⟩
    obtain ⟨c, hc⟩ := checkRoutes_deadlock h
    exact hrank.not_isCycle hc

/-! ## A network whose tables can deadlock -/

theorem LegalRoute.reachable {t : Topology} {levels : Levels} (h : LegalRoute t levels g u w l) :
    Relation.ReflTransGen (fun a b => b ∈ t.routerAdj a) u w := by
  induction h with
  | here => exact .refl
  | up hadj _ _ ih => exact .head hadj ih
  | down hadj _ _ ih => exact .head hadj ih

/-- Levels that decrease towards the root certify a connected network. -/
theorem connected_of_levels {t : Topology} (levels : Levels) (root : NodeId)
    (h : ∀ v ∈ t.routers, v ≠ root → ∃ p ∈ t.routerAdj v, levels.level p < levels.level v) : Connected t := by
  intro u hu v hv
  obtain ⟨l, hl⟩ := legalRoute_of_levels h hu hv
  exact hl.reachable

def networkOf (routers : List NodeId) (links : List (NodeId × NodeId)) : Except RoutingError Topology :=
  let withRouter (t : Except RoutingError Topology) (r : NodeId) : Except RoutingError Topology :=
    t.bind fun t => (t.addRouter r ("r" ++ toString r) none).bind fun t =>
      (t.addNi (100 + r) ("ni" ++ toString r)).bind fun t => t.addLink r (100 + r)
  links.foldl (fun t l => t.bind fun t => t.addLink l.1 l.2) (routers.foldl withRouter (.ok Topology.empty))

/-- A ring of five routers with a triangle of two more on one side. -/
def bridgedRing : Topology :=
  match networkOf [0, 1, 2, 3, 4, 5, 6] [(3, 6), (1, 2), (2, 3), (0, 4), (4, 5), (1, 6), (1, 5), (0, 2)] with
  | .ok t => t
  | .error _ => .empty

theorem bridgedRing_connected : Connected bridgedRing :=
  connected_of_levels [(4, 0), (0, 1), (5, 1), (2, 2), (1, 2), (3, 3), (6, 3)] 4 (by decide +kernel)

theorem bridgedRing_attached : ∀ ni ∈ bridgedRing.nis, ∃ r, bridgedRing.adj ni = [r] := by
  have h : ∀ ni ∈ bridgedRing.nis, bridgedRing.adj ni = [(bridgedRing.adj ni).headD 0] := by decide +kernel
  exact fun ni hni => ⟨_, h ni hni⟩

/-- The result on this network, with the root on the far side of the ring. -/
theorem upDown_legal_iff_bridgedRing :
    ∃ n levels tables, (∀ fuel, n ≤ fuel → bfsLevels bridgedRing fuel 4 = some (.ok levels) ∧
        upDown bridgedRing fuel (some 4) = some (.ok tables)) ∧
      (∀ u ∈ bridgedRing.routers, ∀ ni ∈ bridgedRing.nis, ∃ l, RoutesTo bridgedRing tables ni u l) ∧
      (DeadlockFree bridgedRing levels tables ↔ NoUpShortcut bridgedRing levels) :=
  upDown_legal_iff bridgedRing (some 4) 4 rfl (by decide +kernel) bridgedRing_connected bridgedRing_attached

/-- The route from router 0 to router 6 goes down to router 2 and then up to router 1; the dependencies of the routes
have a cycle and `check_routes` raises the deadlock error. -/
theorem upDown_bridgedRing :
    Connected bridgedRing ∧ (∀ ni ∈ bridgedRing.nis, ∃ r, bridgedRing.adj ni = [r]) ∧
    ∃ levels tables cycle, bfsLevels bridgedRing 40 4 = some (.ok levels) ∧
      upDown bridgedRing 40 (some 4) = some (.ok tables) ∧ ¬NeverUpAfterDown bridgedRing levels tables ∧
      (¬∃ rank, Ranks (RouteDep bridgedRing tables) rank) ∧
      checkRoutes bridgedRing tables 1000 false = some (.error (.deadlock cycle)) := by
  let levels : Levels := [(4, 0), (0, 1), (5, 1), (2, 2), (1, 2), (3, 3), (6, 3)]
  let tables : Tables :=
    [(0, [(100, 100), (101, 4), (102, 2), (103, 2), (104, 4), (105, 4), (106, 2)]),
     (1, [(100, 5), (101, 101), (102, 2), (103, 2), (104, 5), (105, 5), (106, 6)]),
     (2, [(100, 0), (101, 1), (102, 102), (103, 3), (104, 0), (105, 1), (106, 1)]),
     (3, [(100, 2), (101, 2), (102, 2), (103, 103), (104, 2), (105, 2), (106, 6)]),
     (4, [(100, 0), (101, 5), (102, 0), (103, 0), (104, 104), (105, 5), (106, 5)]),
     (5, [(100, 4), (101, 1), (102, 1), (103, 1), (104, 4), (105, 105), (106, 1)]),
     (6, [(100, 3), (101, 1), (102, 3), (103, 3), (104, 1), (105, 1), (106, 106)])]
  have hlevels : bfsLevels bridgedRing 40 4 = some (.ok levels) := by decide +kernel
  have htables : upDown bridgedRing 40 (some 4) = some (.ok tables) := by decide +kernel
  have hcheck : checkRoutes bridgedRing tables 1000 false = some (.error (.deadlock
      [("r0", "r2"), ("r2", "r1"), ("r1", "r5"), ("r5", "r4"), ("r4", "r0")])) := by decide +kernel
  obtain ⟨c, hc⟩ := checkRoutes_deadlock hcheck
  refine ⟨bridgedRing_connected, bridgedRing_attached, levels, tables, _, hlevels, htables, fun h => ?_, ?_, hcheck⟩
  · exact (ranks_of_neverUpAfterDown h).not_isCycle hc
  · rintro ⟨rank, hrank⟩
    exact hrank.not_isCycle hc

end GvsocPulp.FloonocV2.Routing
