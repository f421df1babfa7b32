import Mathlib

/-!
# Labelled breadth-first search

A search that marks a state when it enters the queue and gives it a label computed from the label of its parent.

- `bfs`: the states in the order they leave the queue, with their labels;
- `bfs_terminates`: over a finite set of states the search ends;
- `bfs_sound`: every label is the label of a walk;
- `bfs_minimal`: if extending walks is monotone for an order on the labels, every walk is matched by an entry with a
  label that is no larger, and the entries leave in the order of their labels (`bfs_sorted`).
-/

namespace GvsocPulp.Lib

open List

section Bfs

variable {S L : Type*} [DecidableEq S] (succ : S → List S) (lab : L → S → L)

/-- The entries that the successors `ns` of a state labelled `l` add to the queue. -/
def scan (l : L) : List S → List S → List (S × L)
  | _, [] => []
  | visited, n :: ns => if n ∈ visited then scan l visited ns else (n, lab l n) :: scan l (visited ++ [n]) ns

/-- The entries in the order they leave the queue; `none` when the fuel runs out. -/
def bfs : Nat → List S → List (S × L) → Option (List (S × L))
  | 0, _, _ => none
  | _ + 1, _, [] => some []
  | fuel + 1, visited, (s, l) :: queue =>
    (bfs fuel (visited ++ (scan lab l visited (succ s)).map Prod.fst) (queue ++ scan lab l visited (succ s))).map
      ((s, l) :: ·)

/-- A walk from the start, with the label it has gathered. -/
inductive Walk (start : S) (l₀ : L) : S → L → Prop
  | start : Walk start l₀ start l₀
  | step {s : S} {l : L} {n : S} : Walk start l₀ s l → n ∈ succ s → Walk start l₀ n (lab l n)

variable {succ lab}

/-! ## One scan -/

variable {l : L} {L' : Type*} {lab' : L' → S → L'} {f : L → L'} {s : S}

theorem mem_scan_fst {n : S} : ∀ {ns visited : List S},
    n ∈ (scan lab l visited ns).map Prod.fst ↔ n ∈ ns ∧ n ∉ visited
  | [], visited => by simp [scan]
  | m :: ns, visited => by
    unfold scan
    by_cases hm : m ∈ visited
    · rw [if_pos hm, mem_scan_fst, mem_cons]
      constructor
      · rintro ⟨h, hv⟩; exact ⟨Or.inr h, hv⟩
      · rintro ⟨rfl | h, hv⟩
        · exact absurd hm hv
        · exact ⟨h, hv⟩
    · rw [if_neg hm, map_cons, mem_cons, mem_scan_fst, mem_cons, mem_append, mem_singleton]
      by_cases hnm : n = m
      · subst hnm; simp [hm]
      · simp [hnm]

theorem scan_nodup : ∀ {ns visited : List S}, ((scan lab l visited ns).map Prod.fst).Nodup
  | [], visited => by simp [scan]
  | m :: ns, visited => by
    unfold scan
    by_cases hm : m ∈ visited
    · rw [if_pos hm]; exact scan_nodup
    · rw [if_neg hm, map_cons, nodup_cons]
      exact ⟨fun h => (mem_scan_fst.1 h).2 (by simp), scan_nodup⟩

theorem scan_label {e : S × L} : ∀ {ns visited : List S}, e ∈ scan lab l visited ns → e.2 = lab l e.1
  | [], visited, h => by simp [scan] at h
  | m :: ns, visited, h => by
    unfold scan at h
    by_cases hm : m ∈ visited
    · rw [if_pos hm] at h; exact scan_label h
    · rw [if_neg hm] at h
      rcases mem_cons.1 h with rfl | h
      · rfl
      · exact scan_label h

theorem scan_sublist : ∀ {ns visited : List S}, ((scan lab l visited ns).map Prod.snd).Sublist (ns.map (lab l))
  | [], visited => by simp [scan]
  | m :: ns, visited => by
    unfold scan
    by_cases hm : m ∈ visited
    · rw [if_pos hm]; exact scan_sublist.cons _
    · rw [if_neg hm]; exact scan_sublist.cons_cons _

/-- The labels do not steer the search. -/
theorem scan_map (hf : ∀ l n, f (lab l n) = lab' (f l) n) :
    ∀ {ns visited : List S}, scan lab' (f l) visited ns = (scan lab l visited ns).map fun e => (e.1, f e.2)
  | [], visited => rfl
  | m :: ns, visited => by
    unfold scan
    by_cases hm : m ∈ visited
    · rw [if_pos hm, if_pos hm]; exact scan_map hf
    · rw [if_neg hm, if_neg hm, scan_map hf, map_cons, hf]

/-! ## The search -/

/-- A search with finer labels visits the same states in the same order. -/
theorem bfs_map (hf : ∀ l n, f (lab l n) = lab' (f l) n) :
    ∀ (fuel : Nat) (visited : List S) (queue : List (S × L)),
      bfs succ lab' fuel visited (queue.map fun e => (e.1, f e.2)) =
        (bfs succ lab fuel visited queue).map fun order => order.map fun e => (e.1, f e.2)
  | 0, _, _ => rfl
  | _ + 1, _, [] => rfl
  | fuel + 1, visited, (s, l) :: queue => by
    have ih := bfs_map hf fuel (visited ++ (scan lab l visited (succ s)).map Prod.fst)
      (queue ++ scan lab l visited (succ s))
    rw [map_append] at ih
    have hkeys : ((scan lab l visited (succ s)).map fun e => (e.1, f e.2)).map Prod.fst =
        (scan lab l visited (succ s)).map Prod.fst := by rw [List.map_map]; rfl
    rw [map_cons, bfs, bfs, scan_map hf, hkeys, ih, Option.map_map, Option.map_map]
    rfl

/-- The measure of the search: the waiting entries and the states not marked yet. -/
def bfsWork (U visited : List S) (queue : List (S × L)) : Nat := queue.length + (U.length - visited.length)

theorem bfs_terminates {U : List S} (hU : ∀ s ∈ U, ∀ n ∈ succ s, n ∈ U) : ∀ (m : Nat) {visited : List S}
    {queue : List (S × L)}, visited.Nodup → visited ⊆ U → (∀ e ∈ queue, e.1 ∈ U) → bfsWork U visited queue ≤ m →
      ∃ order, ∀ fuel, m < fuel → bfs succ lab fuel visited queue = some order := by
  intro m
  induction m with
  | zero =>
    intro visited queue _ _ _ hm
    have hq : queue = [] := length_eq_zero_iff.1 (by simp only [bfsWork] at hm; omega)
    subst hq
    exact ⟨[], fun fuel hf => by obtain ⟨f, rfl⟩ : ∃ f, fuel = f + 1 := ⟨fuel - 1, by omega⟩; rfl⟩
  | succ m ih =>
    intro visited queue hnd hsub hq hm
    cases queue with
    | nil => exact ⟨[], fun fuel hf => by obtain ⟨f, rfl⟩ : ∃ f, fuel = f + 1 := ⟨fuel - 1, by omega⟩; rfl⟩
    | cons e queue =>
      obtain ⟨s, l⟩ := e
      have hs : s ∈ U := hq (s, l) (by simp)
      have hfresh : ∀ n ∈ (scan lab l visited (succ s)).map Prod.fst, n ∈ U := fun n hn =>
        hU s hs n (mem_scan_fst.1 hn).1
      have hnd' : (visited ++ (scan lab l visited (succ s)).map Prod.fst).Nodup := by
        refine nodup_append.2 ⟨hnd, scan_nodup, fun a ha b hb hab => ?_⟩
        exact (mem_scan_fst.1 (hab ▸ hb)).2 ha
      have hsub' : visited ++ (scan lab l visited (succ s)).map Prod.fst ⊆ U :=
        append_subset.2 ⟨hsub, hfresh⟩
      have hlen := (hnd'.subperm hsub').length_le
      have hq' : ∀ e ∈ queue ++ scan lab l visited (succ s), e.1 ∈ U := by
        intro e he
        rcases mem_append.1 he with he | he
        · exact hq e (mem_cons_of_mem _ he)
        · exact hfresh e.1 (List.mem_map_of_mem he)
      have hm' : bfsWork U (visited ++ (scan lab l visited (succ s)).map Prod.fst)
          (queue ++ scan lab l visited (succ s)) ≤ m := by
        simp only [bfsWork, length_append, length_map, length_cons] at hm hlen ⊢
        omega
      obtain ⟨order, horder⟩ := ih hnd' hsub' hq' hm'
      refine ⟨(s, l) :: order, fun fuel hf => ?_⟩
      obtain ⟨f, rfl⟩ : ∃ f, fuel = f + 1 := ⟨fuel - 1, by omega⟩
      rw [bfs, horder f (by omega)]
      rfl

/-! ## Shortest walks -/

variable (succ lab) in
/-- Extending walks is monotone for `le`, and the walks of one step are listed in its order. -/
structure MonotoneLabels (le : L → L → Prop) (start : S) (l₀ : L) : Prop where
  refl : ∀ l, le l l
  start_le : ∀ l n, le l₀ (lab l n)
  ne_start : ∀ l n, lab l n ≠ l₀
  mono : ∀ l l' n n', le l l' → l' ≠ l₀ → le (lab l n) (lab l' n')
  sorted : ((succ start).map (lab l₀)).Pairwise le

variable (succ lab) in
/-- The invariant of the search: `popped` are the entries that have left the queue. -/
structure BfsInv (le : L → L → Prop) (start : S) (l₀ : L) (visited : List S) (popped queue : List (S × L)) : Prop where
  mem_visited : ∀ s, s ∈ visited ↔ s ∈ (popped ++ queue).map Prod.fst
  nodup : ((popped ++ queue).map Prod.fst).Nodup
  head : ∃ rest, popped ++ queue = (start, l₀) :: rest ∧ ∀ e ∈ rest, e.2 ≠ l₀
  sorted : (popped ++ queue).Pairwise fun a b => le a.2 b.2
  walk : ∀ e ∈ popped ++ queue, Walk succ lab start l₀ e.1 e.2
  parent : ∀ e ∈ popped ++ queue, e = (start, l₀) ∨ ∃ p ∈ popped, e.2 = lab p.2 e.1
  closed : ∀ e ∈ popped, ∀ n ∈ succ e.1, ∃ l', (n, l') ∈ popped ++ queue ∧ le l' (lab e.2 n)

omit [DecidableEq S] in
theorem bfsInv_init {le : L → L → Prop} (start : S) (l₀ : L) :
    BfsInv succ lab le start l₀ [start] [] [(start, l₀)] where
  mem_visited := by simp
  nodup := by simp
  head := ⟨[], rfl, by simp⟩
  sorted := by simp
  walk := by rintro e he; rw [mem_singleton.1 he]; exact .start
  parent := fun e he => Or.inl (mem_singleton.1 he)
  closed := by simp

theorem BfsInv.pop {le : L → L → Prop} {start : S} {l₀ : L} {visited : List S} {popped queue : List (S × L)}
    (hle : MonotoneLabels succ lab le start l₀)
    (hI : BfsInv succ lab le start l₀ visited popped ((s, l) :: queue)) :
    BfsInv succ lab le start l₀ (visited ++ (scan lab l visited (succ s)).map Prod.fst) (popped ++ [(s, l)])
      (queue ++ scan lab l visited (succ s)) := by
  have happ : popped ++ [(s, l)] ++ (queue ++ scan lab l visited (succ s)) =
      popped ++ (s, l) :: queue ++ scan lab l visited (succ s) := by simp
  have hmem : (s, l) ∈ popped ++ (s, l) :: queue := by simp
  obtain ⟨rest, hrest, hne⟩ := hI.head
  -- the start is the only entry with its label, and it leaves first
  have hstart : l = l₀ → popped = [] ∧ queue = [] ∧ s = start := by
    rintro rfl
    cases popped with
    | nil =>
      simp only [nil_append, List.cons.injEq] at hrest
      obtain ⟨hse, rfl⟩ := hrest
      refine ⟨rfl, eq_nil_iff_forall_not_mem.2 fun e he => ?_, congrArg Prod.fst hse⟩
      rcases hI.parent e (by simp [he]) with h | ⟨p, hp, _⟩
      · exact hne e he (congrArg Prod.snd h)
      · cases hp
    | cons p popped =>
      obtain ⟨_, rfl⟩ := hrest
      exact absurd rfl (hne (s, l) (by simp))
  have hold : ∀ e ∈ popped ++ (s, l) :: queue, ∀ n, le e.2 (lab l n) := by
    intro e he n
    rcases hI.parent e he with rfl | ⟨p, hp, hep⟩
    · exact hle.start_le l n
    · have hl : l ≠ l₀ := fun h => by rw [(hstart h).1] at hp; cases hp
      have hpl : le p.2 l := (pairwise_append.1 hI.sorted).2.2 p hp (s, l) (by simp)
      rw [hep]
      exact hle.mono _ _ _ _ hpl hl
  refine ⟨?_, ?_, ?_, ?_, ?_, ?_, ?_⟩
  · intro u
    rw [happ, map_append, mem_append, mem_append, hI.mem_visited]
  · rw [happ, map_append]
    refine nodup_append.2 ⟨hI.nodup, scan_nodup, fun a ha b hb hab => ?_⟩
    exact (mem_scan_fst.1 (hab ▸ hb)).2 ((hI.mem_visited a).2 ha)
  · refine ⟨rest ++ scan lab l visited (succ s), by rw [happ, hrest]; rfl, fun e he => ?_⟩
    rcases mem_append.1 he with he | he
    · exact hne e he
    · rw [scan_label he]; exact hle.ne_start l e.1
  · rw [happ]
    refine pairwise_append.2 ⟨hI.sorted, ?_, fun a ha b hb => ?_⟩
    · by_cases hl : l = l₀
      · obtain ⟨_, _, rfl⟩ := hstart hl
        subst hl
        exact pairwise_map.1 (hle.sorted.sublist scan_sublist)
      · refine pairwise_of_forall_mem_list fun a ha b hb => ?_
        rw [scan_label ha, scan_label hb]
        exact hle.mono _ _ _ _ (hle.refl l) hl
    · rw [scan_label hb]
      exact hold a ha b.1
  · intro e he
    rw [happ] at he
    rcases mem_append.1 he with he | he
    · exact hI.walk e he
    · rw [scan_label he]
      exact .step (hI.walk (s, l) hmem) (mem_scan_fst.1 (List.mem_map_of_mem he)).1
  · intro e he
    rw [happ] at he
    rcases mem_append.1 he with he | he
    · exact (hI.parent e he).imp_right fun ⟨p, hp, h⟩ => ⟨p, mem_append_left _ hp, h⟩
    · exact Or.inr ⟨(s, l), by simp, scan_label he⟩
  · intro e he n hn
    rw [happ]
    rcases mem_append.1 he with he | he
    · obtain ⟨l', hl', h⟩ := hI.closed e he n hn
      exact ⟨l', mem_append_left _ hl', h⟩
    · cases mem_singleton.1 he
      by_cases hv : n ∈ visited
      · obtain ⟨e, he, rfl⟩ := List.mem_map.1 ((hI.mem_visited n).1 hv)
        exact ⟨e.2, mem_append_left _ he, hold e he e.1⟩
      · have hfresh : n ∈ (scan lab l visited (succ s)).map Prod.fst := mem_scan_fst.2 ⟨hn, hv⟩
        obtain ⟨e, he, rfl⟩ := List.mem_map.1 hfresh
        exact ⟨e.2, mem_append_right _ he, by rw [scan_label he]; exact hle.refl _⟩

/-- The invariant holds with an empty queue at the end. -/
theorem bfs_inv {le : L → L → Prop} {start : S} {l₀ : L} (hle : MonotoneLabels succ lab le start l₀) :
    ∀ {fuel : Nat} {visited : List S} {popped queue order : List (S × L)},
      BfsInv succ lab le start l₀ visited popped queue → bfs succ lab fuel visited queue = some order →
      ∃ visited', BfsInv succ lab le start l₀ visited' (popped ++ order) []
  | 0, _, _, _, _, _, h => by simp [bfs] at h
  | _ + 1, visited, popped, [], order, hI, h => by
    cases h
    exact ⟨visited, by simpa using hI⟩
  | fuel + 1, visited, popped, (s, l) :: queue, order, hI, h => by
    rw [bfs, Option.map_eq_some_iff] at h
    obtain ⟨order, h, rfl⟩ := h
    obtain ⟨visited', hI'⟩ := bfs_inv hle (hI.pop hle) h
    exact ⟨visited', by simpa using hI'⟩

section Spec

variable {le : L → L → Prop} {start : S} {l₀ : L} {fuel : Nat} {order : List (S × L)}

variable (hle : MonotoneLabels succ lab le start l₀)
include hle

theorem bfs_sound (h : bfs succ lab fuel [start] [(start, l₀)] = some order) (hs : (s, l) ∈ order) :
    Walk succ lab start l₀ s l := by
  obtain ⟨_, hI⟩ := bfs_inv hle (bfsInv_init start l₀) h
  exact hI.walk (s, l) (by simpa using hs)

theorem bfs_sorted (h : bfs succ lab fuel [start] [(start, l₀)] = some order) :
    order.Pairwise fun a b => le a.2 b.2 := by
  obtain ⟨_, hI⟩ := bfs_inv hle (bfsInv_init start l₀) h
  simpa using hI.sorted

theorem bfs_minimal (htrans : ∀ a b c, le a b → le b c → le a c)
    (h : bfs succ lab fuel [start] [(start, l₀)] = some order) (hw : Walk succ lab start l₀ s l) :
    ∃ l', (s, l') ∈ order ∧ le l' l := by
  obtain ⟨_, hI⟩ := bfs_inv hle (bfsInv_init start l₀) h
  obtain ⟨rest, hrest, _⟩ := hI.head
  simp only [nil_append, append_nil] at hrest
  have hcl := hI.closed
  simp only [nil_append, append_nil] at hcl
  have hfirst : (start, l₀) ∈ order := by rw [hrest]; simp
  induction hw with
  | start => exact ⟨l₀, hfirst, hle.refl l₀⟩
  | @step s l n hw hn ih =>
    by_cases hl : l = l₀
    · -- only the empty walk has the label of the start
      have hs : s = start := by
        cases hw with
        | start => rfl
        | step _ _ => exact absurd hl (hle.ne_start _ _)
      subst hs hl
      exact hcl _ hfirst n hn
    · obtain ⟨l', hl', hle'⟩ := ih
      obtain ⟨l'', hl'', h''⟩ := hcl _ hl' n hn
      exact ⟨l'', hl'', htrans _ _ _ h'' (hle.mono _ _ _ _ hle' hl)⟩

end Spec

end Bfs

end GvsocPulp.Lib
