import Mathlib

/-!
# The routing view of a network

`class Topology` of `floonoc_v2_routing.py`. The structure carries what its builders keep true: a node is declared
once, links are symmetric, irreflexive and listed once, and a network interface only links to routers.
-/

namespace GvsocPulp.FloonocV2.Routing

open Function List

variable {a b u v : NodeId}

/-- Routers and NIs share one space of integer identifiers. -/
abbrev NodeId := Int

/-- The `RoutingError`s, with what their messages show. -/
inductive RoutingError
  | declaredTwice (node : NodeId) (name : String)
  | negativeId (name : String) (node : NodeId)
  | unknownNode (a b node : NodeId)
  | selfLink (a : String)
  | duplicateLink (a b : String)
  | niLink (a b : String)
  | portOrder (node : String) (neighbours : List String)
  | niLinks (ni : String) (links : Nat)
  | unreachable (src ni target : String)
  | notConnected (missing : List String)
  | reachesNi (src dst curr : String)
  | noRoute (curr dst : String)
  | noLink (src dst curr nxt : String)
  | loop (src dst : String) (path : List String)
  | deadlock (cycle : List (String × String))
  /-- The `IndexError` of the default root of a network with no router. -/
  | noRouter
  /-- The `ZeroDivisionError` of a number of trees, or of routers, that is zero. -/
  | zeroDivision
  /-- The `ValueError` of the minimum of nothing. -/
  | minEmpty
  | noCoordinates (router order : String)
  | noAxialCoordinates (router : String)
  | noPosition (order src target : String) (position : List Int)
  /-- The `ValueError` of an axis that is none of `xyz`. -/
  | noAxis
  /-- The `IndexError` of a coordinate with fewer entries than an axis needs. -/
  | shortCoordinate
  /-- The `ValueError` of an axial coordinate that does not have two entries. -/
  | unpack (entries : Nat)
  deriving DecidableEq, Repr

/-- Routing view of a FlooNoC v2 network. -/
structure Topology where
  routers : List NodeId
  nis : List NodeId
  names : NodeId → Option String
  coords : NodeId → Option (List Int)
  /-- Neighbours of each node, in link order. -/
  adj : NodeId → List NodeId
  nodup : (routers ++ nis).Nodup
  node_of_adj : ∀ a b, b ∈ adj a → a ∈ routers ++ nis
  adj_symm : ∀ a b, b ∈ adj a → a ∈ adj b
  adj_irrefl : ∀ a, a ∉ adj a
  adj_nodup : ∀ a, (adj a).Nodup
  router_of_ni_adj : ∀ a b, a ∈ nis → b ∈ adj a → b ∈ routers

namespace Topology

def empty : Topology where
  routers := []
  nis := []
  names := fun _ => none
  coords := fun _ => none
  adj := fun _ => []
  nodup := by simp
  node_of_adj := by simp
  adj_symm := by simp
  adj_irrefl := by simp
  adj_nodup := by simp
  router_of_ni_adj := by simp

variable (t : Topology)

/-- `len(topo.adj)`: every declared node has its list of links. -/
def nbNodes : Nat := t.routers.length + t.nis.length

variable (node : NodeId)

def name : String := (t.names node).getD (toString node)

def isRouter : Bool := node ∈ t.routers

def isNi : Bool := node ∈ t.nis

/-- `topo.ni_router(ni)`: the router an NI is attached to. -/
def niRouter (ni : NodeId) : Except RoutingError NodeId :=
  match t.adj ni with
  | [r] => .ok r
  | links => .error (.niLinks (t.name ni) links.length)

/-- `topo.router_adj(router)`: router neighbours of a router, in link order. -/
def routerAdj (router : NodeId) : List NodeId := (t.adj router).filter fun n => n ∈ t.routers

theorem mem_routerAdj : v ∈ t.routerAdj u ↔ v ∈ t.adj u ∧ v ∈ t.routers := by simp [routerAdj]

theorem routerAdj_symm (hu : u ∈ t.routers) (h : v ∈ t.routerAdj u) : u ∈ t.routerAdj v :=
  t.mem_routerAdj.2 ⟨t.adj_symm u v (t.mem_routerAdj.1 h).1, hu⟩

theorem routerAdj_nodup (u : NodeId) : (t.routerAdj u).Nodup := (t.adj_nodup u).filter _

theorem niRouter_ok {ni r : NodeId} : t.niRouter ni = .ok r ↔ t.adj ni = [r] := by
  unfold niRouter
  split <;> simp_all

/-- `topo.check()`: every NI hangs off exactly one router. -/
def check : Except RoutingError Unit := t.nis.forM fun ni => t.niRouter ni *> pure ()

/-! ## The builders -/

def addNodeError (name : String) : Option RoutingError :=
  if node ∈ t.routers ++ t.nis then some (.declaredTwice node name)
  else if node < 0 then some (.negativeId name node)
  else none

variable {t} in
theorem fresh_of_addNodeError {node : NodeId} {name : String} (h : t.addNodeError node name = none) :
    node ∉ t.routers ++ t.nis := by
  unfold addNodeError at h
  split at h
  · cases h
  · assumption

def addRouter (name : String) (coord : Option (List Int)) : Except RoutingError Topology :=
  match h : t.addNodeError node name with
  | some e => .error e
  | none => .ok
    { t with
      routers := t.routers ++ [node]
      names := update t.names node (some name)
      coords := match coord with
        | some c => update t.coords node (some c)
        | none => t.coords
      nodup := by
        have hf := fresh_of_addNodeError h
        have hn := t.nodup
        grind
      node_of_adj := fun a b hb => by
        have := t.node_of_adj a b hb
        simp only [mem_append] at this ⊢
        tauto
      router_of_ni_adj := fun a b ha hb => mem_append_left _ (t.router_of_ni_adj a b ha hb) }

def addNi (name : String) : Except RoutingError Topology :=
  match h : t.addNodeError node name with
  | some e => .error e
  | none => .ok
    { t with
      nis := t.nis ++ [node]
      names := update t.names node (some name)
      nodup := by
        have hf := fresh_of_addNodeError h
        have hn := t.nodup
        grind
      node_of_adj := fun a b hb => by
        have := t.node_of_adj a b hb
        simp only [mem_append] at this ⊢
        tauto
      router_of_ni_adj := fun a b ha hb => by
        rcases mem_append.1 ha with ha | ha
        · exact t.router_of_ni_adj a b ha hb
        · -- a node just declared has no link yet
          have hf := fresh_of_addNodeError h
          rw [mem_singleton.1 ha] at hb
          exact absurd (t.node_of_adj node b hb) hf }

def addLinkError (a b : NodeId) : Option RoutingError :=
  if a ∉ t.routers ++ t.nis then some (.unknownNode a b a)
  else if b ∉ t.routers ++ t.nis then some (.unknownNode a b b)
  else if a = b then some (.selfLink (t.name a))
  else if b ∈ t.adj a then some (.duplicateLink (t.name a) (t.name b))
  else if t.isNi a && t.isNi b then some (.niLink (t.name a) (t.name b))
  else none

variable {t} in
theorem of_addLinkError (h : t.addLinkError a b = none) :
    a ∈ t.routers ++ t.nis ∧ b ∈ t.routers ++ t.nis ∧ a ≠ b ∧ b ∉ t.adj a ∧ ¬(a ∈ t.nis ∧ b ∈ t.nis) := by
  simp only [addLinkError, isNi] at h
  grind

/-- The links after `adj[a].append(b); adj[b].append(a)`. -/
def linked (a b : NodeId) (u : NodeId) : List NodeId :=
  if u = a then t.adj a ++ [b] else if u = b then t.adj b ++ [a] else t.adj u

theorem mem_linked (hab : a ≠ b) :
    v ∈ t.linked a b u ↔ v ∈ t.adj u ∨ (u = a ∧ v = b) ∨ (u = b ∧ v = a) := by
  unfold linked
  by_cases hua : u = a
  · subst hua; simp [hab]
  · by_cases hub : u = b
    · subst hub; simp [hua]
    · simp [hua, hub]

def addLink (a b : NodeId) : Except RoutingError Topology :=
  match h : t.addLinkError a b with
  | some e => .error e
  | none => .ok
    { t with
      adj := t.linked a b
      node_of_adj := fun u v hv => by
        obtain ⟨ha, hb, hab, _, _⟩ := of_addLinkError h
        rcases (t.mem_linked hab).1 hv with hv | ⟨rfl, _⟩ | ⟨rfl, _⟩
        · exact t.node_of_adj u v hv
        · exact ha
        · exact hb
      adj_symm := fun u v hv => by
        obtain ⟨_, _, hab, _, _⟩ := of_addLinkError h
        rw [t.mem_linked hab] at hv ⊢
        rcases hv with hv | ⟨hu, hv⟩ | ⟨hu, hv⟩
        · exact Or.inl (t.adj_symm u v hv)
        · exact Or.inr (Or.inr ⟨hv, hu⟩)
        · exact Or.inr (Or.inl ⟨hv, hu⟩)
      adj_irrefl := fun u hu => by
        obtain ⟨_, _, hab, _, _⟩ := of_addLinkError h
        rcases (t.mem_linked hab).1 hu with hu | ⟨h1, h2⟩ | ⟨h1, h2⟩
        · exact t.adj_irrefl u hu
        · exact hab (h1.symm.trans h2)
        · exact hab (h2.symm.trans h1)
      adj_nodup := fun u => by
        obtain ⟨_, _, hab, hnew, _⟩ := of_addLinkError h
        have hnew' : a ∉ t.adj b := fun hm => hnew (t.adj_symm b a hm)
        unfold linked
        split
        · exact nodup_append.2 ⟨t.adj_nodup a, by simp, by simp; grind⟩
        · split
          · exact nodup_append.2 ⟨t.adj_nodup b, by simp, by simp; grind⟩
          · exact t.adj_nodup u
      router_of_ni_adj := fun u v hu hv => by
        obtain ⟨ha, hb, hab, _, hnn⟩ := of_addLinkError h
        rw [mem_append] at ha hb
        rcases (t.mem_linked hab).1 hv with hv | ⟨rfl, rfl⟩ | ⟨rfl, rfl⟩
        · exact t.router_of_ni_adj u v hu hv
        · exact hb.resolve_right fun hvn => hnn ⟨hu, hvn⟩
        · exact ha.resolve_right fun hvn => hnn ⟨hvn, hu⟩ }

/-- The same links in another order. -/
theorem mem_update_of_perm {neighbours : List NodeId} (h : neighbours.Perm (t.adj node)) (u v : NodeId) :
    v ∈ update t.adj node neighbours u ↔ v ∈ t.adj u := by
  by_cases hu : u = node
  · subst hu; simp [h.mem_iff]
  · simp [hu]

/-- `topo.set_port_order(node, neighbours)`: a permutation of the links of a node. -/
def setPortOrder (neighbours : List NodeId) : Except RoutingError Topology :=
  if h : neighbours.Perm (t.adj node) then
    .ok
      { t with
        adj := update t.adj node neighbours
        node_of_adj := fun a b hb => t.node_of_adj a b ((t.mem_update_of_perm node h a b).1 hb)
        adj_symm := fun a b hb =>
          (t.mem_update_of_perm node h b a).2 (t.adj_symm a b ((t.mem_update_of_perm node h a b).1 hb))
        adj_irrefl := fun a ha => t.adj_irrefl a ((t.mem_update_of_perm node h a a).1 ha)
        adj_nodup := fun a => by
          by_cases hu : a = node
          · subst hu; simpa using h.nodup_iff.2 (t.adj_nodup a)
          · simpa [hu] using t.adj_nodup a
        router_of_ni_adj := fun a b ha hb =>
          t.router_of_ni_adj a b ha ((t.mem_update_of_perm node h a b).1 hb) }
  else .error (.portOrder (t.name node) ((t.adj node).map t.name))

end Topology

end GvsocPulp.FloonocV2.Routing
