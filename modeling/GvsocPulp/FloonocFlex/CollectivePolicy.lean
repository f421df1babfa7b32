import GvsocPulp.Lib.Lists
import GvsocPulp.Lib.Tree

/-!
# `MeshXYCollectivePolicy`: collective fan-out on a mesh

The masked box around the source, the neighbours a router forwards a collective request to, and the tree they form.

- `Matched.bounds`: a coordinate that matches the source outside the mask lies between `*_min` and `*_max`;
- `mem_fanout`: `analyze` forwards along one step of an axis, away from the source and inside the bounds;
- `parentUnique_fanout`, `below_of_matched`: no router is reached twice, and every member is reached;
- `fanoutTree_exact_cover`: the tree of any source and mask on any rectangular mesh.
-/

namespace GvsocPulp.FloonocFlex

open Lib List

variable {node : Int}

/-- `coll_mask_axis(mask, axis)`: the 16-bit sub-mask of one axis. -/
def collMaskAxis (mask axis : Nat) : Nat := (mask >>> (axis * 16)) &&& (2 ^ 16 - 1)

/-- `pack_coord(x, y)`: `((int64_t)x << 32) | (uint32_t)y`. -/
def packCoord (x y : Nat) : Nat := x * 2 ^ 32 + y % 2 ^ 32

/-- `class MeshXYCollectivePolicy`: the coordinates of each router node. -/
structure MeshXYCollectivePolicy where
  xFirst : Bool
  nodeCoords : List (Int × (Nat × Nat))

namespace MeshXYCollectivePolicy

variable (p : MeshXYCollectivePolicy)

/-- `coord_to_id`, filled by the constructor. -/
def coordToId : List (Nat × Int) := p.nodeCoords.map fun e => (packCoord e.2.1 e.2.2, e.1)

def lookupNeighbor (x y : Nat) : Option Int := p.coordToId.lookup (packCoord x y)

def isMember (node ref : Int) (mask : Nat) : Bool :=
  match p.nodeCoords.lookup node, p.nodeCoords.lookup ref with
  | some cur, some ref =>
    let maskX := collMaskAxis mask 0
    let maskY := collMaskAxis mask 1
    cur.1.ldiff maskX = ref.1.ldiff maskX ∧ cur.2.ldiff maskY = ref.2.ldiff maskY
  | _, _ => false

/-- `if (guard && lookup_neighbor(x, y, neighbor_id)) fanout.push_back({neighbor_id, 0})`. -/
def push (guard : Bool) (x y : Nat) : List (Int × Int) :=
  if guard then (p.lookupNeighbor x y).toList.map (·, 0) else []

/-- The two pushes along X: `cur_x >= src_x && cur_x < x_max` and `cur_x <= src_x && cur_x > x_min`. -/
def spreadX (guard : Bool) (cur src : Nat × Nat) (maskX : Nat) : List (Int × Int) :=
  p.push (guard && (cur.1 ≥ src.1 && cur.1 < (src.1 ||| maskX))) (cur.1 + 1) cur.2 ++
    p.push (guard && (cur.1 ≤ src.1 && cur.1 > src.1.ldiff maskX)) (cur.1 - 1) cur.2

/-- The two pushes along Y: `cur_y >= src_y && cur_y < y_max` and `cur_y <= src_y && cur_y > y_min`. -/
def spreadY (guard : Bool) (cur src : Nat × Nat) (maskY : Nat) : List (Int × Int) :=
  p.push (guard && (cur.2 ≥ src.2 && cur.2 < (src.2 ||| maskY))) cur.1 (cur.2 + 1) ++
    p.push (guard && (cur.2 ≤ src.2 && cur.2 > src.2.ldiff maskY)) cur.1 (cur.2 - 1)

/-- `analyze(node_id, src_id, mask, state)`: the pairs of a neighbour and its next state, and `local_member`. -/
def analyze (node src : Int) (mask : Nat) (_state : Int) : List (Int × Int) × Bool :=
  match p.nodeCoords.lookup node, p.nodeCoords.lookup src with
  | some cur, some src =>
    let maskX := collMaskAxis mask 0
    let maskY := collMaskAxis mask 1
    let xMatched : Bool := cur.1.ldiff maskX = src.1.ldiff maskX
    let yMatched : Bool := cur.2.ldiff maskY = src.2.ldiff maskY
    (if p.xFirst then p.spreadX (cur.2 = src.2) cur src maskX ++ p.spreadY xMatched cur src maskY
     else p.spreadY (cur.1 = src.1) cur src maskY ++ p.spreadX yMatched cur src maskX, xMatched && yMatched)
  | _, _ => ([], false)

/-- The requests a router makes of one: the neighbours it forwards to, with their states. -/
def fanout (src : Int) (mask : Nat) (v : Int × Int) : List (Int × Int) := (p.analyze v.1 src mask v.2).1

/-- The routers a collective visits from its source on, `0` being the state just injected. -/
def fanoutTree (fuel : Nat) (src : Int) (mask : Nat) : Option (List (Int × Int)) :=
  preorder (p.fanout src mask) fuel (src, 0)

end MeshXYCollectivePolicy

/-- A rectangular mesh: one router per coordinate from (0, 0); coordinates are of type `int`. -/
structure Mesh extends MeshXYCollectivePolicy where
  w : Nat
  h : Nat
  w_le : w ≤ 2 ^ 31
  h_le : h ≤ 2 ^ 31
  ids_nodup : (nodeCoords.map Prod.fst).Nodup
  coords_nodup : (nodeCoords.map Prod.snd).Nodup
  mem_coords : ∀ c, c ∈ nodeCoords.map Prod.snd ↔ c.1 < w ∧ c.2 < h

/-! ## The masked box -/

/-- The coordinate matches the source's one outside the mask. -/
def Matched (s m x : Nat) : Prop := x.ldiff m = s.ldiff m

theorem Matched.bounds {s m x : Nat} (h : Matched s m x) : s.ldiff m ≤ x ∧ x ≤ s ||| m := by
  have hbit : ∀ i, (x.testBit i && !m.testBit i) = (s.testBit i && !m.testBit i) := by
    intro i
    have := congrArg (fun n => Nat.testBit n i) h
    simpa using this
  constructor
  · apply Nat.le_of_testBit
    intro i hi
    rw [Nat.testBit_ldiff, ← hbit i] at hi
    simp only [Bool.and_eq_true] at hi
    exact hi.1
  · apply Nat.le_of_testBit
    intro i hi
    have := hbit i
    rw [hi] at this
    rw [Nat.testBit_lor]
    cases hm : m.testBit i with
    | true => simp
    | false => simpa [hm] using this

theorem Matched.refl (s m : Nat) : Matched s m s := rfl

/-- One step along an axis: away from the source `s`, within the bounds of the mask `m`. -/
def AxisStep (s m a b : Nat) : Prop := (s ≤ a ∧ a < s ||| m ∧ b = a + 1) ∨ (a ≤ s ∧ s.ldiff m < a ∧ b + 1 = a)

theorem AxisStep.unique {s m a a' b : Nat} (h : AxisStep s m a b) (h' : AxisStep s m a' b) : a = a' := by
  unfold AxisStep at h h'
  omega

theorem AxisStep.ne {s m a b : Nat} (h : AxisStep s m a b) : b ≠ s := by
  unfold AxisStep at h
  omega

def axisDist (s x : Nat) : Nat := (x - s) + (s - x)

theorem axisDist_le (s x : Nat) : axisDist s x ≤ s + x :=
    add_comm s x ▸ Nat.add_le_add (Nat.sub_le x s) (Nat.sub_le s x)

theorem AxisStep.dist {s m a b : Nat} (h : AxisStep s m a b) : axisDist s b = axisDist s a + 1 := by
  unfold AxisStep at h
  unfold axisDist
  omega

theorem axisSteps {V : Type*} {children : V → List V} {s m n : Nat} {f : Nat → V}
    (hstep : ∀ a b, a < n → b < n → AxisStep s m a b → f b ∈ children (f a)) (hs : s < n) :
    ∀ b < n, s.ldiff m ≤ b → b ≤ s ||| m → Below children (f s) (f b) := by
  have hlo' := (Matched.refl s m).bounds.1
  have hhi' := (Matched.refl s m).bounds.2
  have key : ∀ d b, axisDist s b = d → b < n → s.ldiff m ≤ b → b ≤ s ||| m → Below children (f s) (f b) := by
    intro d
    induction d with
    | zero =>
      intro b hd _ _ _
      have : b = s := by unfold axisDist at hd; omega
      subst this
      exact .refl
    | succ d ih =>
      intro b hd hb hlo hhi
      unfold axisDist at hd ih
      rcases lt_or_ge s b with hsb | hsb
      · have hprev := ih (b - 1) (by omega) (by omega) (by omega) (by omega)
        refine hprev.tail (hstep (b - 1) b (by omega) hb (Or.inl ⟨by omega, by omega, by omega⟩))
      · have hprev := ih (b + 1) (by omega) (by omega) (by omega) (by omega)
        refine hprev.tail (hstep (b + 1) b (by omega) hb (Or.inr ⟨by omega, by omega, by omega⟩))
  intro b
  exact key _ b rfl

/-- One step of the tree in coordinates, from `c` to `c'`: the axis routed first spreads along the line of the source,
the other one along the lines that match. -/
def Step (xFirst : Bool) (mask : Nat) (s c c' : Nat × Nat) : Prop :=
  ((if xFirst then c.2 = s.2 else Matched s.2 (collMaskAxis mask 1) c.2) ∧
      AxisStep s.1 (collMaskAxis mask 0) c.1 c'.1 ∧ c'.2 = c.2) ∨
    ((if xFirst then Matched s.1 (collMaskAxis mask 0) c.1 else c.1 = s.1) ∧
      AxisStep s.2 (collMaskAxis mask 1) c.2 c'.2 ∧ c'.1 = c.1)

theorem Step.unique {xFirst : Bool} {mask : Nat} {s a b c : Nat × Nat} (h : Step xFirst mask s a c)
    (h' : Step xFirst mask s b c) : a = b := by
  rcases h with ⟨hg, hs, he⟩ | ⟨hg, hs, he⟩ <;> rcases h' with ⟨hg', hs', he'⟩ | ⟨hg', hs', he'⟩
  · exact Prod.ext (hs.unique hs') (he.symm.trans he')
  · -- along the first axis the line of the source, along the second one away from it
    cases xFirst with
    | true => exact absurd (he.trans hg) hs'.ne
    | false => exact absurd (he'.trans hg') hs.ne
  · cases xFirst with
    | true => exact absurd (he'.trans hg') hs.ne
    | false => exact absurd (he.trans hg) hs'.ne
  · exact Prod.ext (he.symm.trans he') (hs.unique hs')

theorem Step.dist {xFirst : Bool} {mask : Nat} {s c c' : Nat × Nat} (h : Step xFirst mask s c c') :
    axisDist s.1 c'.1 + axisDist s.2 c'.2 = axisDist s.1 c.1 + axisDist s.2 c.2 + 1 := by
  rcases h with ⟨_, hs, he⟩ | ⟨_, hs, he⟩
  · have := hs.dist
    rw [he]
    omega
  · have := hs.dist
    rw [he]
    omega

/-! ## The fan-out on a mesh -/

namespace Mesh

variable (M : Mesh)

def At (node : Int) (c : Nat × Nat) : Prop := (node, c) ∈ M.nodeCoords

variable {M}

theorem At.range {c : Nat × Nat} (h : M.At node c) : c.1 < M.w ∧ c.2 < M.h :=
  (M.mem_coords c).1 (mem_map_of_mem h)

theorem At.coord_unique {c c' : Nat × Nat} (h : M.At node c) (h' : M.At node c') : c = c' :=
  eq_of_mem_of_nodup_fst M.ids_nodup h h'

theorem At.node_unique {node' : Int} {c : Nat × Nat} (h : M.At node c) (h' : M.At node' c) : node = node' :=
  congrArg Prod.fst (inj_on_of_nodup_map M.coords_nodup h h' rfl)

theorem exists_at {c : Nat × Nat} (hx : c.1 < M.w) (hy : c.2 < M.h) : ∃ node, M.At node c := by
  obtain ⟨e, he, rfl⟩ := mem_map.1 ((M.mem_coords c).2 ⟨hx, hy⟩)
  exact ⟨e.1, he⟩

theorem lookup_eq_some_iff {c : Nat × Nat} : M.nodeCoords.lookup node = some c ↔ M.At node c :=
  lookup_eq_some_iff_mem M.ids_nodup

theorem packCoord_inj {x y x' y' : Nat} (hy : y < 2 ^ 32) (hy' : y' < 2 ^ 32) (h : packCoord x y = packCoord x' y') :
    x = x' ∧ y = y' := by
  unfold packCoord at h
  omega

open MeshXYCollectivePolicy

theorem coordToId_nodup : (M.coordToId.map Prod.fst).Nodup := by
  have hlt := M.h_le
  rw [coordToId, List.map_map]
  refine Nodup.map_on (fun a ha b hb hab => ?_) (Nodup.of_map _ M.ids_nodup)
  have hra : a.2.1 < M.w ∧ a.2.2 < M.h := At.range ha
  have hrb : b.2.1 < M.w ∧ b.2.2 < M.h := At.range hb
  have hc := packCoord_inj (by omega) (by omega) hab
  exact inj_on_of_nodup_map M.coords_nodup ha hb (Prod.ext hc.1 hc.2)

theorem lookupNeighbor_eq_some_iff {x y : Nat} (hy : y < 2 ^ 32) :
    M.lookupNeighbor x y = some node ↔ M.At node (x, y) := by
  have hlt := M.h_le
  rw [lookupNeighbor, lookup_eq_some_iff_mem coordToId_nodup,
    coordToId, mem_map]
  constructor
  · rintro ⟨⟨n, c⟩, he, heq⟩
    simp only [Prod.mk.injEq] at heq
    obtain ⟨hk, rfl⟩ := heq
    have hr := At.range he
    obtain ⟨rfl, rfl⟩ := packCoord_inj (by omega) hy hk
    exact he
  · intro h
    exact ⟨(node, (x, y)), h, rfl⟩

theorem mem_push {g : Bool} {x y : Nat} (hy : y < 2 ^ 32) {d : Int × Int} :
    d ∈ M.push g x y ↔ g = true ∧ d.2 = 0 ∧ M.At d.1 (x, y) := by
  unfold push
  cases g with
  | false => simp
  | true =>
    simp only [if_true, mem_map, Option.mem_toList, lookupNeighbor_eq_some_iff hy, true_and]
    constructor
    · rintro ⟨n, hn, rfl⟩; exact ⟨rfl, hn⟩
    · rintro ⟨h₀, hn⟩; exact ⟨d.1, hn, Prod.ext rfl h₀.symm⟩

theorem push_nodup {g : Bool} {x y : Nat} : (M.push g x y).Nodup := by
  unfold push
  cases g with
  | false => simp
  | true => cases M.lookupNeighbor x y <;> simp

theorem push_disjoint {g g' : Bool} {x y x' y' : Nat} (hy : y < 2 ^ 32) (hy' : y' < 2 ^ 32)
    (h : g = true → g' = true → (x, y) ≠ (x', y')) : List.Disjoint (M.push g x y) (M.push g' x' y') := by
  intro d hd hd'
  obtain ⟨hg, _, ha⟩ := (mem_push hy).1 hd
  obtain ⟨hg', _, ha'⟩ := (mem_push hy').1 hd'
  exact h hg hg' (ha.coord_unique ha')

theorem mem_spreadX {g : Bool} {c s : Nat × Nat} (hc : c.2 < M.h) {m : Nat} {d : Int × Int} :
    d ∈ M.spreadX g c s m ↔
      g = true ∧ d.2 = 0 ∧ ∃ c', M.At d.1 c' ∧ AxisStep s.1 m c.1 c'.1 ∧ c'.2 = c.2 := by
  have hlt := M.h_le
  have h₀ : c.2 < 2 ^ 32 := by omega
  simp only [spreadX, mem_append, mem_push h₀, Bool.and_eq_true, decide_eq_true_eq]
  constructor
  · rintro (⟨⟨hg, h⟩, hd, ha⟩ | ⟨⟨hg, h⟩, hd, ha⟩)
    · exact ⟨hg, hd, _, ha, Or.inl ⟨h.1, h.2, rfl⟩, rfl⟩
    · exact ⟨hg, hd, _, ha, Or.inr ⟨h.1, h.2, by simp only; omega⟩, rfl⟩
  · rintro ⟨hg, hd, ⟨x, y⟩, ha, ⟨h₁, h₂, h₃⟩ | ⟨h₁, h₂, h₃⟩, he⟩
    · simp only at h₃ he
      subst h₃ he
      exact Or.inl ⟨⟨hg, h₁, h₂⟩, hd, ha⟩
    · simp only at h₃ he
      rw [← h₃, Nat.add_sub_cancel, ← he]
      exact Or.inr ⟨⟨hg, by omega, by omega⟩, hd, ha⟩

theorem mem_spreadY {g : Bool} {c s : Nat × Nat} (hc : c.2 < M.h) {m : Nat} {d : Int × Int} :
    d ∈ M.spreadY g c s m ↔
      g = true ∧ d.2 = 0 ∧ ∃ c', M.At d.1 c' ∧ AxisStep s.2 m c.2 c'.2 ∧ c'.1 = c.1 := by
  have hlt := M.h_le
  have h₁ : c.2 + 1 < 2 ^ 32 := by omega
  have h₂ : c.2 - 1 < 2 ^ 32 := by omega
  simp only [spreadY, mem_append, mem_push h₁, mem_push h₂, Bool.and_eq_true,
    decide_eq_true_eq]
  constructor
  · rintro (⟨⟨hg, h⟩, hd, ha⟩ | ⟨⟨hg, h⟩, hd, ha⟩)
    · exact ⟨hg, hd, _, ha, Or.inl ⟨h.1, h.2, rfl⟩, rfl⟩
    · exact ⟨hg, hd, _, ha, Or.inr ⟨h.1, h.2, by simp only; omega⟩, rfl⟩
  · rintro ⟨hg, hd, ⟨x, y⟩, ha, ⟨h₁, h₂, h₃⟩ | ⟨h₁, h₂, h₃⟩, he⟩
    · simp only at h₃ he
      subst h₃ he
      exact Or.inl ⟨⟨hg, h₁, h₂⟩, hd, ha⟩
    · simp only at h₃ he
      rw [← h₃, Nat.add_sub_cancel, ← he]
      exact Or.inr ⟨⟨hg, by omega, by omega⟩, hd, ha⟩

theorem spread_nodup {g g' : Bool} {c s : Nat × Nat} (hc : c.2 < M.h) {m m' : Nat} :
    (M.spreadX g c s m ++ M.spreadY g' c s m').Nodup := by
  have hlt := M.h_le
  have h₀ : c.2 < 2 ^ 32 := by omega
  have h₁ : c.2 + 1 < 2 ^ 32 := by omega
  have h₂ : c.2 - 1 < 2 ^ 32 := by omega
  refine (nodup_append'.2 ⟨?_, ?_, ?_⟩)
  · refine nodup_append'.2 ⟨push_nodup, push_nodup, push_disjoint h₀ h₀ fun _ _ h => ?_⟩
    simp only [Prod.mk.injEq] at h
    omega
  · refine nodup_append'.2 ⟨push_nodup, push_nodup, push_disjoint h₁ h₂ fun _ _ h => ?_⟩
    simp only [Prod.mk.injEq] at h
    omega
  · intro d hd hd'
    obtain ⟨_, _, c', ha, hs, he⟩ := (mem_spreadX hc).1 hd
    obtain ⟨_, _, c'', ha', _, he'⟩ := (mem_spreadY hc).1 hd'
    rw [ha'.coord_unique ha] at he'
    unfold AxisStep at hs
    omega

variable {src : Int} {mask : Nat} {s : Nat × Nat}

theorem fanout_eq (hs : M.At src s) {v : Int × Int} {c : Nat × Nat} (hv : M.At v.1 c) :
    M.fanout src mask v =
      if M.xFirst then
        M.spreadX (c.2 = s.2) c s (collMaskAxis mask 0) ++
          M.spreadY (c.1.ldiff (collMaskAxis mask 0) = s.1.ldiff (collMaskAxis mask 0)) c s (collMaskAxis mask 1)
      else
        M.spreadY (c.1 = s.1) c s (collMaskAxis mask 1) ++
          M.spreadX (c.2.ldiff (collMaskAxis mask 1) = s.2.ldiff (collMaskAxis mask 1)) c s (collMaskAxis mask 0) := by
  rw [fanout, analyze, lookup_eq_some_iff.2 hv,
    lookup_eq_some_iff.2 hs]

theorem mem_fanout (hs : M.At src s) {v d : Int × Int} {c : Nat × Nat} (hv : M.At v.1 c) :
    d ∈ M.fanout src mask v ↔ d.2 = 0 ∧ ∃ c', M.At d.1 c' ∧ Step M.xFirst mask s c c' := by
  have hc := hv.range.2
  have hdist : ∀ {gx gy : Prop}, ((gx ∧ d.2 = 0 ∧ ∃ c', M.At d.1 c' ∧
        AxisStep s.1 (collMaskAxis mask 0) c.1 c'.1 ∧ c'.2 = c.2) ∨
      (gy ∧ d.2 = 0 ∧ ∃ c', M.At d.1 c' ∧ AxisStep s.2 (collMaskAxis mask 1) c.2 c'.2 ∧ c'.1 = c.1)) ↔
      d.2 = 0 ∧ ∃ c', M.At d.1 c' ∧ ((gx ∧ AxisStep s.1 (collMaskAxis mask 0) c.1 c'.1 ∧ c'.2 = c.2) ∨
        (gy ∧ AxisStep s.2 (collMaskAxis mask 1) c.2 c'.2 ∧ c'.1 = c.1)) := by
    intro gx gy
    constructor
    · rintro (⟨hg, hd, c', ha, h⟩ | ⟨hg, hd, c', ha, h⟩)
      · exact ⟨hd, c', ha, Or.inl ⟨hg, h⟩⟩
      · exact ⟨hd, c', ha, Or.inr ⟨hg, h⟩⟩
    · rintro ⟨hd, c', ha, ⟨hg, h⟩ | ⟨hg, h⟩⟩
      · exact Or.inl ⟨hg, hd, c', ha, h⟩
      · exact Or.inr ⟨hg, hd, c', ha, h⟩
  rw [fanout_eq hs hv]
  unfold Step Matched
  cases M.xFirst with
  | true =>
    simp only [if_true, mem_append, mem_spreadX hc, mem_spreadY hc, decide_eq_true_eq]
    exact hdist
  | false =>
    simp only [Bool.false_eq_true, if_false, mem_append, mem_spreadX hc, mem_spreadY hc, decide_eq_true_eq]
    exact or_comm.trans hdist

theorem fanout_nodup (hs : M.At src s) {v : Int × Int} {c : Nat × Nat} (hv : M.At v.1 c) :
    (M.fanout src mask v).Nodup := by
  rw [fanout_eq hs hv]
  split
  · exact spread_nodup hv.range.2
  · exact nodup_append_comm.1 (spread_nodup hv.range.2)

/-! ## The tree -/

variable (M) in
/-- The requests of the tree: at a router of the mesh, in state `0`. -/
def InTree (v : Int × Int) : Prop := v.2 = 0 ∧ ∃ c, M.At v.1 c

variable (M) in
/-- How much further from the source a request can get. -/
def height (s : Nat × Nat) (v : Int × Int) : Nat :=
  match M.nodeCoords.lookup v.1 with
  | some c => M.w + M.h + s.1 + s.2 - (axisDist s.1 c.1 + axisDist s.2 c.2)
  | none => 0

theorem forest_fanout (hs : M.At src s) : Forest (M.fanout src mask) M.InTree (M.height s) where
  closed := by
    rintro v ⟨_, c, hc⟩ d hd
    obtain ⟨hd₀, c', hc', _⟩ := (mem_fanout hs hc).1 hd
    exact ⟨hd₀, c', hc'⟩
  parent_unique := by
    rintro a b d ⟨ha₀, ca, ha⟩ ⟨hb₀, cb, hb⟩ hda hdb
    obtain ⟨_, c, hc, hstep⟩ := (mem_fanout hs ha).1 hda
    obtain ⟨_, c', hc', hstep'⟩ := (mem_fanout hs hb).1 hdb
    rw [hc'.coord_unique hc] at hstep'
    have hab := hstep.unique hstep'
    subst hab
    exact Prod.ext (ha.node_unique hb) (ha₀.trans hb₀.symm)
  lower := by
    rintro v ⟨_, c, hc⟩ d hd
    obtain ⟨_, c', hc', hstep⟩ := (mem_fanout hs hc).1 hd
    have hr := hc'.range
    have hdist := hstep.dist
    unfold height
    rw [lookup_eq_some_iff.2 hc, lookup_eq_some_iff.2 hc']
    simp only
    have hx := axisDist_le s.1 c'.1
    have hy := axisDist_le s.2 c'.2
    omega
  nodup := by
    rintro v ⟨_, c, hc⟩
    exact fanout_nodup hs hc

theorem below_of_matched (hs : M.At src s) {c : Nat × Nat} (hc : M.At node c)
    (hx : Matched s.1 (collMaskAxis mask 0) c.1) (hy : Matched s.2 (collMaskAxis mask 1) c.2) :
    Below (M.fanout src mask) (src, 0) (node, 0) := by
  have hat : ∀ x y, ∃ n, x < M.w → y < M.h → M.At n (x, y) := by
    intro x y
    by_cases h : x < M.w ∧ y < M.h
    · obtain ⟨n, hn⟩ := exists_at (c := (x, y)) h.1 h.2
      exact ⟨n, fun _ _ => hn⟩
    · exact ⟨0, fun h₁ h₂ => absurd ⟨h₁, h₂⟩ h⟩
  choose at' hat using hat
  have hrs := hs.range
  have hrc := hc.range
  have hsrc : at' s.1 s.2 = src := (hat s.1 s.2 hrs.1 hrs.2).node_unique hs
  have hnode : at' c.1 c.2 = node := (hat c.1 c.2 hrc.1 hrc.2).node_unique hc
  rw [← hsrc, ← hnode]
  have hstepX : ∀ y, y < M.h →
      (if M.xFirst then y = s.2 else Matched s.2 (collMaskAxis mask 1) y) → ∀ a b, a < M.w → b < M.w →
      AxisStep s.1 (collMaskAxis mask 0) a b → (at' b y, (0 : Int)) ∈ M.fanout src mask (at' a y, 0) := by
    intro y hyr hg a b ha hb hab
    have hmem := @mem_fanout M src mask s hs (at' a y, 0) (at' b y, 0) (a, y) (hat a y ha hyr)
    exact hmem.2 ⟨rfl, (b, y), hat b y hb hyr, Or.inl ⟨hg, hab, rfl⟩⟩
  have hstepY : ∀ x, x < M.w →
      (if M.xFirst then Matched s.1 (collMaskAxis mask 0) x else x = s.1) → ∀ a b, a < M.h → b < M.h →
      AxisStep s.2 (collMaskAxis mask 1) a b → (at' x b, (0 : Int)) ∈ M.fanout src mask (at' x a, 0) := by
    intro x hxr hg a b ha hb hab
    have hmem := @mem_fanout M src mask s hs (at' x a, 0) (at' x b, 0) (x, a) (hat x a hxr ha)
    exact hmem.2 ⟨rfl, (x, b), hat x b hxr hb, Or.inr ⟨hg, hab, rfl⟩⟩
  rw [← hsrc] at hstepX hstepY
  cases hxf : M.xFirst with
  | true =>
    -- along the row of the source, then along the column of the router
    simp only [hxf, if_true] at hstepX hstepY
    have hrow := axisSteps (f := fun x => (at' x s.2, (0 : Int))) (hstepX s.2 hrs.2 rfl) hrs.1 c.1 hrc.1
      hx.bounds.1 hx.bounds.2
    have hcol := axisSteps (f := fun y => (at' c.1 y, (0 : Int))) (hstepY c.1 hrc.1 hx) hrs.2 c.2 hrc.2
      hy.bounds.1 hy.bounds.2
    exact hrow.trans hcol
  | false =>
    simp only [hxf, Bool.false_eq_true, if_false] at hstepX hstepY
    have hcol := axisSteps (f := fun y => (at' s.1 y, (0 : Int))) (hstepY s.1 hrs.1 rfl) hrs.2 c.2 hrc.2
      hy.bounds.1 hy.bounds.2
    have hrow := axisSteps (f := fun x => (at' x c.2, (0 : Int))) (hstepX c.2 hrc.2 hy) hrs.1 c.1 hrc.1
      hx.bounds.1 hx.bounds.2
    exact hcol.trans hrow

theorem isMember_iff (hs : M.At src s) :
    M.isMember node src mask = true ↔ ∃ c, M.At node c ∧ Matched s.1 (collMaskAxis mask 0) c.1 ∧
      Matched s.2 (collMaskAxis mask 1) c.2 := by
  unfold isMember
  rw [lookup_eq_some_iff.2 hs]
  cases hn : M.nodeCoords.lookup node with
  | none =>
    simp only [Bool.false_eq_true, false_iff]
    rintro ⟨c, hc, _⟩
    rw [lookup_eq_some_iff.2 hc] at hn
    cases hn
  | some c =>
    have hc := lookup_eq_some_iff.1 hn
    simp only [decide_eq_true_eq]
    constructor
    · intro h
      exact ⟨c, hc, h⟩
    · rintro ⟨c', hc', h⟩
      rw [hc'.coord_unique hc] at h
      exact h

theorem analyze_localMember (hs : M.At src s) {state : Int} (hn : ∃ c, M.At node c) :
    (M.analyze node src mask state).2 = M.isMember node src mask := by
  obtain ⟨c, hc⟩ := hn
  unfold analyze isMember
  rw [lookup_eq_some_iff.2 hc, lookup_eq_some_iff.2 hs]
  simp

/-- For every source and mask the fan-out tree ends, visits only routers of the mesh, none of them twice, reports
`local_member` exactly at the members, and visits all of them. -/
theorem fanoutTree_exact_cover (M : Mesh) (src : Int) (mask : Nat) (hsrc : src ∈ M.nodeCoords.map Prod.fst) :
    ∃ n visited, (∀ fuel, n ≤ fuel → M.fanoutTree fuel src mask = some visited) ∧
      (visited.map Prod.fst).Nodup ∧ (∀ v ∈ visited, v.1 ∈ M.nodeCoords.map Prod.fst) ∧
      (∀ v ∈ visited, (M.analyze v.1 src mask v.2).2 = M.isMember v.1 src mask) ∧
      ∀ node, M.isMember node src mask = true → node ∈ visited.map Prod.fst := by
  obtain ⟨⟨src, s⟩, hs, rfl⟩ := mem_map.1 hsrc
  have hf := @forest_fanout M src mask s hs
  have hroot : M.InTree (src, 0) := ⟨rfl, s, hs⟩
  obtain ⟨visited, hrun, hmem, hnd⟩ := hf.preorder_spec _ (src, 0) hroot le_rfl
  have hin : ∀ v ∈ visited, M.InTree v := fun v hv => hf.below_mem hroot ((hmem v).1 hv)
  refine ⟨_, visited, fun fuel hn => hrun fuel hn, ?_, fun v hv => ?_, fun v hv => ?_, fun node hnode => ?_⟩
  · refine Nodup.map_on (fun a ha b hb hab => ?_) hnd
    exact Prod.ext hab ((hin a ha).1.trans (hin b hb).1.symm)
  · obtain ⟨_, c, hc⟩ := hin v hv
    exact mem_map_of_mem hc
  · exact analyze_localMember hs (hin v hv).2
  · obtain ⟨c, hc, hx, hy⟩ := (isMember_iff hs).1 hnode
    exact mem_map_of_mem ((hmem _).2 (below_of_matched hs hc hx hy))

/-- A mesh whose sizes are no powers of two. -/
def threeByTwo (xFirst : Bool) : Mesh where
  xFirst := xFirst
  nodeCoords := [(10, (0, 0)), (11, (1, 0)), (12, (2, 0)), (13, (0, 1)), (14, (1, 1)), (15, (2, 1))]
  w := 3
  h := 2
  w_le := by decide
  h_le := by decide
  ids_nodup := by decide
  coords_nodup := by decide
  mem_coords := by
    rintro ⟨x, y⟩
    simp
    omega

/-- From router 13 to columns 0 and 2 of both rows, over a router of column 1 that is not a member. -/
theorem fanoutTree_threeByTwo :
    ∃ n visited, (∀ fuel, n ≤ fuel → (threeByTwo true).fanoutTree fuel 13 0x10002 = some visited) ∧
      (visited.map Prod.fst).Nodup ∧ (∀ v ∈ visited, v.1 ∈ (threeByTwo true).nodeCoords.map Prod.fst) ∧
      (∀ v ∈ visited, ((threeByTwo true).analyze v.1 13 0x10002 v.2).2 = (threeByTwo true).isMember v.1 13 0x10002) ∧
      ∀ node, (threeByTwo true).isMember node 13 0x10002 = true → node ∈ visited.map Prod.fst :=
  fanoutTree_exact_cover (threeByTwo true) 13 0x10002 (by decide)

example : (threeByTwo true).fanoutTree 10 13 0x10002 =
    some [(13, 0), (14, 0), (15, 0), (12, 0), (10, 0)] := by decide +kernel

end Mesh

end GvsocPulp.FloonocFlex
