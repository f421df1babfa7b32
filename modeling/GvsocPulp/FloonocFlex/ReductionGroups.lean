import GvsocPulp.FloonocFlex.Reduction

/-!
# The groups of write-triggered reductions

Which contributions a committed request holds, over whole runs. A group is found by address, operation and mask alone,
and waits for as many contributions as the masked box has coordinates.

- `Watched`: the groups with what came under each key since its last commit, and the commits;
- `Groups`: what the code keeps in any run; `Watched.step_cases`: what one contribution does;
- `Gathering`, `Exact`: what a group should hold while it waits and when it is committed;
- `commits_exact_iff`: all states of a run are as they should be iff every contribution opens a group that its box can
  complete, or joins a group of its own box for the first time.
-/

namespace GvsocPulp.FloonocFlex

open Lib Function List Option MeshXYCollectivePolicy

/-- What groups are matched by. -/
def Contribution.key (c : Contribution) : Nat × Int × Nat := (c.addr, c.op, c.mask)

def PendingWriteReduction.key (g : PendingWriteReduction) : Nat × Int × Nat := (g.addr, g.op, g.mask)

/-- A request that was forwarded, with the contributions since the one before it under its key. -/
structure Commit where
  request : Contribution
  contributions : List Contribution
  deriving DecidableEq

structure Watched where
  noc : Reductions := {}
  since : Nat × Int × Nat → List Contribution := fun _ => []
  commits : List Commit := []

/-- A contribution reaches the network interface. -/
def Watched.step (p : MeshXYCollectivePolicy) (fp : Fp16) (s : Watched) (req : Contribution) : Option Watched :=
  if isWriteReductionOp req.op then
    (handleWriteReductionContribution p fp s.noc req).map fun (noc, committed) =>
      let contributions := s.since req.key ++ [req]
      match committed with
      | none => { s with noc := noc, since := update s.since req.key contributions }
      | some request =>
        { noc := noc, since := update s.since req.key []
          commits := s.commits ++ [{ request := request, contributions := contributions }] }
  else none

/-! ## The list of groups -/

section List

variable {groups : List PendingWriteReduction} {i : Nat}

theorem matches_iff {g : PendingWriteReduction} {req : Contribution} : g.matches req = true ↔ g.key = req.key := by
  unfold PendingWriteReduction.matches PendingWriteReduction.key Contribution.key
  simp [and_assoc]

theorem removeGroup_perm (hi : i < groups.length) : (removeGroup groups i).Perm (groups.eraseIdx i) := by
  obtain ⟨init, last, rfl⟩ : ∃ init last, groups = init ++ [last] :=
    ⟨_, _, (dropLast_append_getLast (ne_nil_of_length_pos (by omega))).symm⟩
  unfold removeGroup
  rw [getLast?_concat]
  simp only
  rw [length_append, length_singleton] at hi
  rcases Nat.lt_succ_iff_lt_or_eq.1 hi with hlt | rfl
  · rw [set_append_left _ _ hlt, dropLast_concat, eraseIdx_append_of_lt_length hlt]
    refine Perm.trans ?_ (perm_append_singleton _ _).symm
    exact set_perm_cons_eraseIdx hlt _
  · rw [set_append_right _ _ le_rfl, tsub_self, set_cons_zero, dropLast_concat,
      eraseIdx_append_of_length_le le_rfl, tsub_self, eraseIdx_cons_zero, append_nil]

end List

/-! ## What the code keeps -/

/-- A pending group holds what came since the last commit under its key. -/
structure GroupOk (p : MeshXYCollectivePolicy) (fp : Fp16) (g : PendingWriteReduction) (first : Contribution)
    (rest : List Contribution) : Prop where
  accumulator : ∃ data, g.accumulator = { first with data := data } ∧
    mergeAll fp first.op first.data (rest.map Contribution.data) = some data
  keys : ∀ c ∈ first :: rest, c.key = g.key
  expected : p.memberCount first.srcId first.mask = some g.expected
  received : g.received = rest.length + 1
  others : g.others = rest
  waits : g.received < g.expected

structure Groups (p : MeshXYCollectivePolicy) (fp : Fp16) (s : Watched) : Prop where
  nodup : (s.noc.pendingWriteReductions.map PendingWriteReduction.key).Nodup
  ok : ∀ g ∈ s.noc.pendingWriteReductions, ∃ first rest, s.since g.key = first :: rest ∧ GroupOk p fp g first rest
  pending : ∀ k, s.since k ≠ [] → ∃ g ∈ s.noc.pendingWriteReductions, g.key = k

section Groups

variable {p : MeshXYCollectivePolicy} {fp : Fp16} {s s' : Watched} {req : Contribution}

theorem groups_init : Groups p fp {} := ⟨nodup_nil, nofun, fun _ h => absurd rfl h⟩

/-- The other groups, when one key is dealt with. -/
structure OtherGroups (p : MeshXYCollectivePolicy) (fp : Fp16) (s : Watched) (k : Nat × Int × Nat)
    (others : List PendingWriteReduction) : Prop where
  nodup : (others.map PendingWriteReduction.key).Nodup
  ok : ∀ g ∈ others, g.key ≠ k ∧ ∃ first rest, s.since g.key = first :: rest ∧ GroupOk p fp g first rest
  pending : ∀ k', k' ≠ k → s.since k' ≠ [] → ∃ g ∈ others, g.key = k'

theorem OtherGroups.wait {others : List PendingWriteReduction} (h : OtherGroups p fp s req.key others)
    {g : PendingWriteReduction} {first : Contribution} {rest : List Contribution}
    (hperm : s'.noc.pendingWriteReductions.Perm (g :: others)) (hkey : g.key = req.key)
    (hsince : s'.since = update s.since req.key (first :: rest)) (hok : GroupOk p fp g first rest) :
    Groups p fp s' := by
  have hmem : ∀ g', g' ∈ s'.noc.pendingWriteReductions ↔ g' = g ∨ g' ∈ others := fun g' => by
    rw [hperm.mem_iff, mem_cons]
  refine ⟨?_, fun g' hg' => ?_, fun k hk => ?_⟩
  · rw [(hperm.map _).nodup_iff, map_cons, nodup_cons]
    refine ⟨fun hin => ?_, h.nodup⟩
    obtain ⟨g', hg', heq⟩ := List.mem_map.1 hin
    exact (h.ok g' hg').1 (heq.trans hkey)
  · rw [hsince]
    rcases (hmem g').1 hg' with rfl | hg'
    · exact ⟨first, rest, by rw [hkey, update_self], hok⟩
    · obtain ⟨hne, first', rest', hs, hok'⟩ := h.ok g' hg'
      exact ⟨first', rest', by rw [update_of_ne hne, hs], hok'⟩
  · by_cases hkr : k = req.key
    · exact ⟨g, (hmem g).2 (.inl rfl), hkey.trans hkr.symm⟩
    · rw [hsince, update_of_ne hkr] at hk
      obtain ⟨g', hg', heq⟩ := h.pending k hkr hk
      exact ⟨g', (hmem g').2 (.inr hg'), heq⟩

theorem OtherGroups.commit {others : List PendingWriteReduction} (h : OtherGroups p fp s req.key others)
    (hperm : s'.noc.pendingWriteReductions.Perm others) (hsince : s'.since = update s.since req.key []) :
    Groups p fp s' := by
  refine ⟨(hperm.map _).nodup_iff.2 h.nodup, fun g hg => ?_, fun k hk => ?_⟩
  · obtain ⟨hne, first, rest, hs, hok⟩ := h.ok g (hperm.mem_iff.1 hg)
    exact ⟨first, rest, by rw [hsince, update_of_ne hne, hs], hok⟩
  · rw [hsince] at hk
    by_cases hkr : k = req.key
    · rw [hkr, update_self] at hk
      exact absurd rfl hk
    · rw [update_of_ne hkr] at hk
      obtain ⟨g, hg, heq⟩ := h.pending k hkr hk
      exact ⟨g, hperm.mem_iff.2 hg, heq⟩

theorem Groups.others_of_none (h : Groups p fp s)
    (hnone : s.noc.pendingWriteReductions.findIdx? (·.matches req) = none) :
    s.since req.key = [] ∧ OtherGroups p fp s req.key s.noc.pendingWriteReductions := by
  rw [findIdx?_eq_none_iff] at hnone
  have hne : ∀ g ∈ s.noc.pendingWriteReductions, g.key ≠ req.key := by
    intro g hg heq
    have hfalse := hnone g hg
    rw [matches_iff.2 heq] at hfalse
    cases hfalse
  refine ⟨?_, h.nodup, fun g hg => ⟨hne g hg, h.ok g hg⟩, fun k _ hk => h.pending k hk⟩
  by_contra hsome
  obtain ⟨g, hg, heq⟩ := h.pending _ hsome
  exact hne g hg heq

theorem Groups.others_of_some (h : Groups p fp s) {i : Nat}
    (hsome : s.noc.pendingWriteReductions.findIdx? (·.matches req) = some i) :
    ∃ hi : i < s.noc.pendingWriteReductions.length, s.noc.pendingWriteReductions[i].key = req.key ∧
      OtherGroups p fp s req.key (s.noc.pendingWriteReductions.eraseIdx i) := by
  rw [findIdx?_eq_some_iff_getElem] at hsome
  obtain ⟨hi, hmatch, -⟩ := hsome
  have hkey := matches_iff.1 hmatch
  have hperm : s.noc.pendingWriteReductions.Perm
      (s.noc.pendingWriteReductions[i] :: s.noc.pendingWriteReductions.eraseIdx i) :=
    (getElem_cons_eraseIdx_perm hi).symm
  have hnd := h.nodup
  rw [(hperm.map _).nodup_iff, map_cons, nodup_cons, hkey] at hnd
  refine ⟨hi, hkey, hnd.2, fun g hg => ⟨fun heq => hnd.1 (heq ▸ mem_map_of_mem hg), ?_⟩, fun k hk hs => ?_⟩
  · exact h.ok g (mem_of_mem_eraseIdx hg)
  · obtain ⟨g, hg, heq⟩ := h.pending k hs
    rcases mem_cons.1 (hperm.mem_iff.1 hg) with rfl | hg
    · exact absurd (heq.symm.trans hkey) hk
    · exact ⟨g, hg, heq⟩

/-- **A contribution**: its group then holds it; it is committed once it has as many as it waits for. -/
theorem Watched.step_cases (h : Groups p fp s) (hstep : s.step p fp req = some s') : Groups p fp s' ∧
    ∃ first rest data count, s.since req.key ++ [req] = first :: rest ∧ (∀ c ∈ first :: rest, c.key = req.key) ∧
      p.memberCount first.srcId first.mask = some count ∧ (rest ≠ [] → (rest.length : Int) < count) ∧
      mergeAll fp first.op first.data (rest.map Contribution.data) = some data ∧
      if (rest.length : Int) + 1 < count then
        s'.since = update s.since req.key (first :: rest) ∧ s'.commits = s.commits
      else
        s'.since = update s.since req.key [] ∧
          s'.commits = s.commits ++ [{ request := { first with data := data }, contributions := first :: rest }] := by
  unfold Watched.step at hstep
  split at hstep
  case isFalse => cases hstep
  case isTrue =>
    rw [map_eq_some_iff] at hstep
    obtain ⟨⟨noc, committed⟩, hrun, hs'⟩ := hstep
    unfold handleWriteReductionContribution at hrun
    rw [bind_eq_some_iff] at hrun
    obtain ⟨⟨groups, i⟩, hjoin, hrun⟩ := hrun
    simp only [map_eq_some_iff] at hrun
    obtain ⟨group, hgroup, hrun⟩ := hrun
    unfold joinGroup at hjoin
    split at hjoin
    case h_1 hnone =>
      obtain ⟨hempty, hothers⟩ := h.others_of_none hnone
      rw [map_eq_some_iff] at hjoin
      obtain ⟨count, hcount, hjoin⟩ := hjoin
      cases hjoin
      rw [getElem?_concat_length] at hgroup
      cases hgroup
      have hfacts : s.since req.key ++ [req] = req :: [] ∧ (∀ c ∈ [req], c.key = req.key) :=
        ⟨by rw [hempty]; rfl, fun c hc => by rw [mem_singleton.1 hc]⟩
      split at hrun
      case isTrue hlt =>
        cases hrun
        subst hs'
        rw [hfacts.1]
        refine ⟨hothers.wait (perm_append_singleton _ _) rfl rfl ?_, req, [], req.data, count, rfl, hfacts.2, hcount,
          fun hne => absurd rfl hne, rfl, ?_⟩
        · exact ⟨⟨req.data, rfl, rfl⟩, hfacts.2, hcount, rfl, rfl, hlt⟩
        · rw [if_pos (by simpa using hlt)]
          exact ⟨rfl, rfl⟩
      case isFalse hlt =>
        cases hrun
        subst hs'
        rw [hfacts.1]
        refine ⟨hothers.commit ?_ rfl, req, [], req.data, count, rfl, hfacts.2, hcount,
          fun hne => absurd rfl hne, rfl, ?_⟩
        · refine (removeGroup_perm (by rw [length_append, length_singleton]; omega)).trans ?_
          rw [eraseIdx_append_of_length_le le_rfl, tsub_self, eraseIdx_cons_zero, append_nil]
        · rw [if_neg (by simpa using hlt)]
          exact ⟨rfl, rfl⟩
    case h_2 i' hsome =>
      obtain ⟨hi, hkey, hothers⟩ := h.others_of_some hsome
      rw [getElem?_eq_getElem hi, bind_some, map_eq_some_iff] at hjoin
      obtain ⟨data, hdata, hjoin⟩ := hjoin
      cases hjoin
      rw [getElem?_set_self hi] at hgroup
      cases hgroup
      obtain ⟨first, rest, hsince, hok⟩ := h.ok _ (getElem_mem hi)
      obtain ⟨merged, hacc, hmerged⟩ := hok.accumulator
      have hexpected := hok.expected
      have hreceived := hok.received
      have hwaits := hok.waits
      have hothers' := hok.others
      have hkeys : ∀ c ∈ first :: (rest ++ [req]), c.key = req.key := by
        intro c hc
        rw [← cons_append, mem_append, mem_singleton] at hc
        rcases hc with hc | rfl
        · exact (hok.keys c hc).trans hkey
        · rfl
      have hdata' : mergeAll fp first.op first.data ((rest ++ [req]).map Contribution.data) = some data := by
        rw [hacc] at hdata
        rw [map_append]
        exact mergeAll_append hmerged hdata
      have hcontr : s.since req.key ++ [req] = first :: (rest ++ [req]) := by
        rw [← hkey, hsince]
        rfl
      have hlen : ((rest ++ [req]).length : Int) = rest.length + 1 := by
        rw [length_append, length_singleton]
        rfl
      split at hrun
      case isTrue hlt =>
        cases hrun
        dsimp only at hlt hs'
        subst hs'
        rw [hcontr]
        refine ⟨hothers.wait (set_perm_cons_eraseIdx hi _) hkey rfl ?_, first, rest ++ [req], data, _, rfl, hkeys,
          hexpected, fun _ => by omega, hdata', ?_⟩
        · exact ⟨⟨data, by rw [hacc], hdata'⟩, fun c hc => (hkeys c hc).trans hkey.symm, hexpected, by
            rw [hlen, hreceived], by rw [hothers'], hlt⟩
        · rw [if_pos (by omega)]
          exact ⟨rfl, rfl⟩
      case isFalse hlt =>
        cases hrun
        dsimp only at hlt hs'
        subst hs'
        rw [hcontr]
        refine ⟨hothers.commit ?_ rfl, first, rest ++ [req], data, _, rfl, hkeys, hexpected, fun _ => by
          omega, hdata', ?_⟩
        · refine (removeGroup_perm (by rwa [length_set])).trans ?_
          rw [eraseIdx_set_eq]
        · rw [if_neg (by omega), hacc]
          exact ⟨rfl, rfl⟩

end Groups

/-! ## What a group is for -/

/-- The routers of the mesh for which `is_member` holds. -/
def MeshXYCollectivePolicy.members (p : MeshXYCollectivePolicy) (ref : Int) (mask : Nat) : List Int :=
  (p.nodeCoords.map Prod.fst).filter fun node => p.isMember node ref mask

open Contribution (srcId)

/-- A group that waits has contributions of different members, with the same number of elements, and waits for those of
all members. -/
def Gathering (M : Mesh) : List Contribution → Prop
  | [] => True
  | first :: rest =>
    M.memberCount first.srcId first.mask = some ((M.members first.srcId first.mask).length : Int) ∧
      ((first :: rest).map srcId).Nodup ∧
      ∀ c ∈ first :: rest, M.isMember c.srcId first.srcId first.mask = true ∧
        elements first.op c.data = elements first.op first.data

/-- A committed request holds the reduction of the contributions of exactly the members, in whatever order they came. -/
structure Exact (M : Mesh) (c : Commit) : Prop where
  sources : (c.contributions.map srcId).Perm (M.members c.request.srcId c.request.mask)
  sizes : ∀ d ∈ c.contributions, elements c.request.op d.data = elements c.request.op c.request.data
  bits : c.request.op = collOpLsband → ∀ i < c.request.data.length,
    c.request.data.getD i 0 = if ∀ d ∈ c.contributions, (d.data.getD i 0).getLsbD 0 = true then 1 else 0
  values : ∀ i < (words c.request.data).length, ∀ cs : List Contribution, cs.Perm c.contributions →
    Reduced c.request.op ((words c.request.data).getD i 0) (cs.map fun d => (words d.data).getD i 0)

/-- All groups are as they should be. -/
def Right (M : Mesh) (s : Watched) : Prop := (∀ k, Gathering M (s.since k)) ∧ ∀ c ∈ s.commits, Exact M c

/-- A contribution that opens a group which its box can complete, or joins a group of its own box, its router for the
first time and with as many elements. -/
def Joins (M : Mesh) (s : Watched) (req : Contribution) : Prop :=
  match s.since req.key with
  | [] =>
    (∃ count, M.memberCount req.srcId req.mask = some count ∧ max 1 count = (M.members req.srcId req.mask).length) ∧
      (req.op = collOpLsband → (M.members req.srcId req.mask).length = 1 → ∀ b ∈ req.data, b = 0 ∨ b = 1)
  | first :: rest =>
    M.isMember req.srcId first.srcId first.mask = true ∧ (∀ c ∈ first :: rest, c.srcId ≠ req.srcId) ∧
      elements first.op req.data = elements first.op first.data

/-! ## The data -/

theorem and_one (b : Byte) : b &&& 1 = if b.getLsbD 0 = true then 1 else 0 := by
  refine BitVec.eq_of_getLsbD_eq fun i hi => ?_
  rw [BitVec.getLsbD_and]
  cases i with
  | zero => cases h : b.getLsbD 0 <;> simp
  | succ i =>
    have hone : (1 : Byte).getLsbD (i + 1) = false := by
      rw [show (1 : Byte) = 1#8 from rfl, BitVec.getLsbD_one]
      simp
    rw [hone, Bool.and_false]
    split
    · exact hone.symm
    · exact BitVec.getLsbD_zero.symm

theorem and_one_eq_self {b : Byte} : b &&& 1 = b ↔ b = 0 ∨ b = 1 := by
  constructor
  · intro h
    rw [and_one] at h
    split at h
    · exact .inr h.symm
    · exact .inl h.symm
  · rintro (rfl | rfl) <;> rfl

theorem foldl_bits (bytes : List Byte) : ∀ b : Byte, (bytes.map (· &&& 1)).foldl (· &&& ·) (b &&& 1) =
    if b.getLsbD 0 = true ∧ ∀ b' ∈ bytes, b'.getLsbD 0 = true then 1 else 0 := by
  induction bytes with
  | nil =>
    intro b
    rw [map_nil, foldl_nil, and_one]
    simp
  | cons b' bytes ih =>
    intro b
    have hboth : (b &&& 1) &&& (b' &&& 1) = (b &&& b') &&& 1 := by
      rw [BitVec.and_assoc, ← BitVec.and_assoc (1 : Byte), BitVec.and_comm (1 : Byte) b', BitVec.and_assoc b',
        BitVec.and_self, ← BitVec.and_assoc]
    rw [map_cons, foldl_cons, hboth, ih]
    simp [and_assoc]

section Data

variable {M : Mesh} {fp : Fp16} {first : Contribution} {rest : List Contribution} {data : List Byte}

theorem wordOp_of_merge (hop : first.op ≠ collOpMulticast) (hlsband : first.op ≠ collOpLsband) (hne : rest ≠ [])
    (hdata : mergeAll fp first.op first.data (rest.map Contribution.data) = some data) :
    ∃ f, wordOp fp first.op = some f := by
  obtain ⟨c, rest, rfl⟩ := exists_cons_of_ne_nil hne
  rw [map_cons] at hdata
  obtain ⟨data', hstep, -⟩ := mergeAll_cons.1 hdata
  rw [processCollectiveOperations, if_neg hop, if_neg hlsband, bind_eq_some_iff] at hstep
  obtain ⟨f, hf, -⟩ := hstep
  exact ⟨f, hf⟩

theorem elements_words {op : Int} (hlsband : op ≠ collOpLsband) (bytes : List Byte) :
    elements op bytes = (words bytes).length := if_neg hlsband

theorem merged_elements (hop : first.op ≠ collOpMulticast)
    (hlen : ∀ c ∈ rest, elements first.op c.data = elements first.op first.data)
    (hdata : mergeAll fp first.op first.data (rest.map Contribution.data) = some data) :
    elements first.op data = elements first.op first.data := by
  by_cases hlsband : first.op = collOpLsband
  · rw [hlsband] at hlen hdata ⊢
    refine (bits_mergeAll (fun src hsrc => ?_) hdata).1
    obtain ⟨c, hc, rfl⟩ := List.mem_map.1 hsrc
    exact hlen c hc
  · simp only [elements_words hlsband] at hlen ⊢
    by_cases hne : rest = []
    · subst hne
      cases hdata
      rfl
    · obtain ⟨f, hf⟩ := wordOp_of_merge hop hlsband hne hdata
      refine (words_mergeAll hf (fun src hsrc => ?_) hdata).1
      obtain ⟨c, hc, rfl⟩ := List.mem_map.1 hsrc
      exact hlen c hc

theorem merged_bits (hlsband : first.op = collOpLsband)
    (hlen : ∀ c ∈ rest, elements first.op c.data = elements first.op first.data)
    (hdata : mergeAll fp first.op first.data (rest.map Contribution.data) = some data) {i : Nat}
      (hi : i < data.length) :
    data.getD i 0 = (if ∀ d ∈ first :: rest, (d.data.getD i 0).getLsbD 0 = true then 1 else 0) ↔
      (rest = [] → first.data.getD i 0 &&& 1 = first.data.getD i 0) := by
  rw [hlsband] at hlen hdata
  have hlen' : ∀ src ∈ rest.map Contribution.data, src.length = first.data.length := by
    intro src hsrc
    obtain ⟨c, hc, rfl⟩ := List.mem_map.1 hsrc
    exact hlen c hc
  obtain ⟨hr, hget⟩ := bits_mergeAll hlen' hdata
  obtain ⟨hfold, hbit⟩ := hget i (hr ▸ hi)
  have hall : ((rest.map Contribution.data).map fun src => src.getD i 0 &&& 1).foldl (· &&& ·)
    (first.data.getD i 0 &&& 1) =
      if ∀ d ∈ first :: rest, (d.data.getD i 0).getLsbD 0 = true then 1 else 0 := by
    have := foldl_bits ((rest.map Contribution.data).map fun src => src.getD i 0) (first.data.getD i 0)
    rw [List.map_map] at this
    refine this.trans ?_
    simp only [forall_mem_cons, List.forall_mem_map]
  rw [← hall, ← hfold]
  by_cases hne : rest = []
  · subst hne
    cases hdata
    simp [eq_comm]
  · have := hbit (by simpa using hne)
    simp only [hne, false_implies, iff_true]
    exact this.symm

theorem merged_values (hlen : ∀ c ∈ rest, elements first.op c.data = elements first.op first.data)
    (hdata : mergeAll fp first.op first.data (rest.map Contribution.data) = some data) {i : Nat}
    (hi : i < (words data).length) {cs : List Contribution} (hcs : cs.Perm (first :: rest)) :
    Reduced first.op ((words data).getD i 0) (cs.map fun d => (words d.data).getD i 0) := by
  by_cases hf : ∃ f, wordOp fp first.op = some f
  · obtain ⟨f, hf⟩ := hf
    have hlsband := (wordOp_range hf).2
    simp only [elements_words hlsband] at hlen
    have hlen' : ∀ src ∈ rest.map Contribution.data, (words src).length = (words first.data).length := by
      intro src hsrc
      obtain ⟨c, hc, rfl⟩ := List.mem_map.1 hsrc
      exact hlen c hc
    obtain ⟨hr, hget⟩ := words_mergeAll hf hlen' hdata
    rw [hget i (hr ▸ hi), List.map_map]
    exact reduced_foldl hf (hcs.map fun d => (words d.data).getD i 0)
  · refine ⟨fun hadd => absurd ?_ hf, fun hmax => absurd ?_ hf, fun hmax => absurd ?_ hf⟩
    · exact ⟨_, if_pos hadd⟩
    · exact ⟨maxUint16, by rw [hmax]; rfl⟩
    · exact ⟨maxInt16, by rw [hmax]; rfl⟩

end Data

/-! ## What one contribution does to the groups -/

section Right

variable {M : Mesh} {fp : Fp16} {s s' : Watched} {req first : Contribution} {rest : List Contribution}

theorem members_nodup (ref : Int) (mask : Nat) : (M.members ref mask).Nodup := M.ids_nodup.filter _

theorem mem_members {node ref : Int} {mask : Nat} : node ∈ M.members ref mask ↔ M.isMember node ref mask = true := by
  unfold MeshXYCollectivePolicy.members
  rw [mem_filter, and_iff_right_iff_imp]
  intro h
  unfold isMember at h
  split at h
  case h_1 cur _ hcur _ => exact mem_map_of_mem (Mesh.lookup_eq_some_iff.1 hcur)
  case h_2 => cases h

theorem isMember_self {ref : Int} {mask : Nat} (h : 0 < (M.members ref mask).length) :
    M.isMember ref ref mask = true := by
  obtain ⟨node, hnode⟩ := exists_mem_of_length_pos h
  have := mem_members.1 hnode
  unfold isMember at this ⊢
  split at this
  case h_1 c hcur href =>
    rw [href]
    simp
  case h_2 => cases this

theorem sources_perm {cs : List Contribution} {ref : Int} {mask : Nat} (hnd : (cs.map srcId).Nodup)
    (hmem : ∀ c ∈ cs, M.isMember c.srcId ref mask = true) (hlen : (M.members ref mask).length ≤ cs.length) :
    (cs.map srcId).Perm (M.members ref mask) := by
  have hsub : (cs.map srcId).Subperm (M.members ref mask) := by
    refine subperm_of_subset hnd fun node hnode => ?_
    obtain ⟨c, hc, rfl⟩ := List.mem_map.1 hnode
    exact mem_members.2 (hmem c hc)
  exact hsub.perm_of_length_le (by rwa [length_map])

theorem gathering_cons : Gathering M (first :: rest) ↔
    M.memberCount first.srcId first.mask = some ((M.members first.srcId first.mask).length : Int) ∧
      ((first :: rest).map srcId).Nodup ∧
      ∀ c ∈ first :: rest, M.isMember c.srcId first.srcId first.mask = true ∧
        elements first.op c.data = elements first.op first.data := Iff.rfl

theorem joins_nil (hs : s.since req.key = []) : Joins M s req ↔
    (∃ count, M.memberCount req.srcId req.mask = some count ∧ max 1 count = (M.members req.srcId req.mask).length) ∧
      (req.op = collOpLsband → (M.members req.srcId req.mask).length = 1 → ∀ b ∈ req.data, b = 0 ∨ b = 1) := by
  unfold Joins
  rw [hs]

theorem joins_cons (hs : s.since req.key = first :: rest) : Joins M s req ↔
    M.isMember req.srcId first.srcId first.mask = true ∧ (∀ c ∈ first :: rest, c.srcId ≠ req.srcId) ∧
      elements first.op req.data = elements first.op first.data := by
  unfold Joins
  rw [hs]

theorem nodup_concat {cs : List Contribution} (hnd : (cs.map srcId).Nodup) :
    ((cs ++ [req]).map srcId).Nodup ↔ ∀ c ∈ cs, c.srcId ≠ req.srcId := by
  rw [map_append, map_singleton, nodup_append]
  simp only [hnd, nodup_singleton, true_and, mem_singleton, List.mem_map]
  constructor
  · intro h c hc
    exact h _ ⟨c, hc, rfl⟩ _ rfl
  · rintro h _ ⟨c, hc, rfl⟩ _ rfl
    exact h c hc

/-- A group that is not complete gathers one collective iff the request joins it. -/
theorem gathering_iff (hright : ∀ k, Gathering M (s.since k)) (hcontr : s.since req.key ++ [req] = first :: rest)
    {count : Int} (hcount : M.memberCount first.srcId first.mask = some count) (hlt : (rest.length : Int) + 1 < count) :
    Gathering M (first :: rest) ↔ Joins M s req := by
  cases hs : s.since req.key with
  | nil =>
    rw [hs] at hcontr
    cases hcontr
    rw [gathering_cons, joins_nil hs, hcount]
    constructor
    · rintro ⟨hmem, -, -⟩
      rw [Option.some.injEq] at hmem
      exact ⟨⟨count, rfl, by omega⟩, fun _ hone => by omega⟩
    · rintro ⟨⟨count', hcount', hmax⟩, -⟩
      cases hcount'
      refine ⟨by rw [Option.some.injEq]; omega, nodup_singleton _, fun c hc => ?_⟩
      rw [mem_singleton.1 hc]
      exact ⟨isMember_self (by omega), rfl⟩
  | cons first' rest' =>
    have hold := hright req.key
    rw [hs] at hold
    rw [hs, cons_append, List.cons.injEq] at hcontr
    obtain ⟨hfirst, rfl⟩ := hcontr
    obtain rfl := hfirst.symm
    obtain ⟨hmembers, hnd, hall⟩ := hold
    rw [joins_cons hs]
    constructor
    · rintro ⟨-, hnew, hall'⟩
      obtain ⟨hin, hel⟩ := hall' req (mem_append_right (first :: rest') (mem_singleton_self req))
      exact ⟨hin, (nodup_concat hnd).1 hnew, hel⟩
    · rintro ⟨hin, hnew, hel⟩
      refine ⟨hmembers, (nodup_concat hnd).2 hnew, fun c hc => ?_⟩
      rcases mem_append.1 (show c ∈ (first :: rest') ++ [req] from hc) with hc | hc
      · exact hall c hc
      · rw [mem_singleton.1 hc]
        exact ⟨hin, hel⟩

/-- A group that completes is exactly one collective iff the request joins it. -/
theorem exact_iff (hop : first.op ≠ collOpMulticast) (hright : ∀ k, Gathering M (s.since k))
    (hcontr : s.since req.key ++ [req] = first :: rest) {count : Int}
    (hcount : M.memberCount first.srcId first.mask = some count) (hwaits : rest ≠ [] → (rest.length : Int) < count)
    {data : List Byte} (hdata : mergeAll fp first.op first.data (rest.map Contribution.data) = some data)
    (hge : ¬(rest.length : Int) + 1 < count) :
    Exact M { request := { first with data := data }, contributions := first :: rest } ↔ Joins M s req := by
  cases hs : s.since req.key with
  | nil =>
    rw [hs] at hcontr
    cases hcontr
    cases hdata
    simp only [length_nil] at hge
    rw [joins_nil hs, hcount]
    have hbit : req.op = collOpLsband → ∀ i < req.data.length, (req.data.getD i 0 =
        if ∀ d ∈ [req], (d.data.getD i 0).getLsbD 0 = true then 1 else 0) ↔
          (req.data.getD i 0 = 0 ∨ req.data.getD i 0 = 1) := by
      intro hlsband i hi
      rw [← and_one_eq_self, @merged_bits fp req [] req.data hlsband nofun rfl i hi]
      simp
    constructor
    · rintro ⟨hsources, -, hbits, -⟩
      have hone : (M.members req.srcId req.mask).length = 1 := hsources.length_eq.symm
      refine ⟨⟨count, rfl, by omega⟩, fun hlsband _ b hb => ?_⟩
      obtain ⟨i, hi, rfl⟩ := getElem_of_mem hb
      have := (hbit hlsband i hi).1 (hbits hlsband i hi)
      rwa [getD_eq_getElem _ _ hi] at this
    · rintro ⟨⟨count', hcount', hmax⟩, hbits⟩
      cases hcount'
      have hone : (M.members req.srcId req.mask).length = 1 := by omega
      have hself := @isMember_self M req.srcId req.mask (by omega)
      refine ⟨sources_perm (nodup_singleton _) (fun c hc => ?_) hone.le, fun c hc => ?_,
        fun hlsband i hi => ?_, fun i hi cs hcs => ?_⟩
      · rw [mem_singleton.1 hc]
        exact hself
      · rw [mem_singleton.1 hc]
      · refine (hbit hlsband i hi).2 ?_
        rw [getD_eq_getElem _ _ hi]
        exact hbits hlsband hone _ (getElem_mem hi)
      · exact @merged_values fp req [] req.data nofun rfl i hi cs hcs
  | cons first' rest' =>
    have hold := hright req.key
    rw [hs] at hold
    rw [hs, cons_append, List.cons.injEq] at hcontr
    obtain ⟨hfirst, rfl⟩ := hcontr
    obtain rfl := hfirst.symm
    obtain ⟨hmembers, hnd, hall⟩ := hold
    have hlast : req ∈ (first :: rest') ++ [req] := mem_append_right _ (mem_singleton_self req)
    rw [joins_cons hs]
    constructor
    · rintro ⟨hsources, hsizes, -, -⟩
      have hnew : (((first :: rest') ++ [req]).map srcId).Nodup := hsources.nodup_iff.2 (members_nodup _ _)
      refine ⟨?_, (nodup_concat hnd).1 hnew, ?_⟩
      · exact mem_members.1 (hsources.mem_iff.1 (mem_map_of_mem hlast))
      · exact (hsizes req hlast).trans (hsizes first mem_cons_self).symm
    · rintro ⟨hin, hnew, hel⟩
      have hsizes : ∀ c ∈ rest' ++ [req], elements first.op c.data = elements first.op first.data := by
        intro c hc
        rcases mem_append.1 hc with hc | hc
        · exact (hall c (mem_cons_of_mem _ hc)).2
        · rw [mem_singleton.1 hc]
          exact hel
      have hmerged := merged_elements hop hsizes hdata
      have hwaits := hwaits (by simp)
      rw [hmembers, Option.some.injEq] at hcount
      refine ⟨?_, fun c hc => ?_, fun hlsband i hi => ?_, fun i hi cs hcs => merged_values hsizes hdata hi hcs⟩
      · refine sources_perm ((@nodup_concat req (first :: rest') hnd).2 hnew) (fun c hc => ?_) ?_
        · rcases mem_append.1 (show c ∈ (first :: rest') ++ [req] from hc) with hc | hc
          · exact (hall c hc).1
          · rw [mem_singleton.1 hc]
            exact hin
        · show (M.members first.srcId first.mask).length ≤ (first :: (rest' ++ [req])).length
          rw [length_cons]
          omega
      · rcases mem_cons.1 hc with rfl | hc
        · exact hmerged.symm
        · exact (hsizes c hc).trans hmerged.symm
      · exact (@merged_bits fp first (rest' ++ [req]) data hlsband hsizes hdata i hi).2 fun hnil => by simp at hnil

/-- **One contribution** keeps all groups as they should be iff it opens or joins one as it should. -/
theorem right_iff (h : Groups M.toMeshXYCollectivePolicy fp s) (hright : Right M s)
    (hstep : s.step M.toMeshXYCollectivePolicy fp req = some s') : Right M s' ↔ Joins M s req := by
  obtain ⟨-, first, rest, data, count, hcontr, hkeys, hcount, hwaits, hdata, hcases⟩ := Watched.step_cases h hstep
  have hop : first.op ≠ collOpMulticast := by
    have hkey := hkeys first mem_cons_self
    simp only [Contribution.key, Prod.mk.injEq] at hkey
    rw [hkey.2.1]
    rintro heq
    unfold Watched.step at hstep
    rw [heq] at hstep
    cases hstep
  obtain ⟨hgather, hexact⟩ := hright
  split at hcases
  case isTrue hlt =>
    obtain ⟨hsince, hcommits⟩ := hcases
    rw [← gathering_iff hgather hcontr hcount hlt]
    unfold Right
    rw [hsince, hcommits]
    constructor
    · rintro ⟨hg, -⟩
      have := hg req.key
      rwa [update_self] at this
    · refine fun hg => ⟨fun k => ?_, hexact⟩
      by_cases hk : k = req.key
      · rw [hk, update_self]
        exact hg
      · rw [update_of_ne hk]
        exact hgather k
  case isFalse hge =>
    obtain ⟨hsince, hcommits⟩ := hcases
    rw [← exact_iff hop hgather hcontr hcount hwaits hdata hge]
    unfold Right
    rw [hsince, hcommits]
    constructor
    · rintro ⟨-, hc⟩
      exact hc _ (mem_append_right _ (mem_singleton_self _))
    · refine fun hc => ⟨fun k => ?_, fun c hmem => ?_⟩
      · by_cases hk : k = req.key
        · rw [hk, update_self]
          trivial
        · rw [update_of_ne hk]
          exact hgather k
      · rcases mem_append.1 hmem with hmem | hmem
        · exact hexact c hmem
        · rw [mem_singleton.1 hmem]
          exact hc

end Right

/-! ## Whole runs -/

theorem right_init (M : Mesh) : Right M {} := ⟨fun _ => trivial, nofun⟩

/-- **The reductions**: from the start on, every group waits for exactly its members and every committed request holds
the reduction of their contributions, iff each contribution opens or joins a group as it should. -/
theorem commits_exact_iff (M : Mesh) (fp : Fp16) (reqs : List Contribution) :
    AllStates (Watched.step M.toMeshXYCollectivePolicy fp) (Right M) {} reqs ↔
      AllSteps (Watched.step M.toMeshXYCollectivePolicy fp) (Joins M) {} reqs :=
  allStates_iff (I := fun s => Groups M.toMeshXYCollectivePolicy fp s ∧ Right M s) (fun _ h => h.2)
    (fun _ _ _ h hstep => right_iff h.1 h.2 hstep) (fun _ _ _ h hstep hF => ⟨(Watched.step_cases h.1 hstep).1, hF⟩)
    ⟨groups_init, right_init M⟩

/-- Half-precision numbers, which the networks below do not use. -/
def someFp16 : Fp16 where
  add a _ := a
  max a _ := a

/-- An addition of 16-bit numbers at address 0x1000, under a mask. -/
def addTo (mask : Nat) (srcId : Int) (data : List Byte) : Contribution :=
  { srcId := srcId, addr := 0x1000, op := collOpRedaddUint16, mask := mask, data := data }

/-- Two columns of the mesh reduce to one address: the contributions of routers 10 and 11 are committed together,
although router 11 is in the other column. A box that has one column outside the mesh is not committed at all. -/
theorem commits_mixed :
    (∃ s, run (Watched.step (Mesh.threeByTwo true).toMeshXYCollectivePolicy someFp16) {}
        [addTo 0x10000 10 [1, 0], addTo 0x10000 11 [2, 0]] = some s ∧
      s.commits = [{ request := addTo 0x10000 10 [3, 0]
                     contributions := [addTo 0x10000 10 [1, 0], addTo 0x10000 11 [2, 0]] }] ∧
      ¬Right (Mesh.threeByTwo true) s) ∧
    ∃ s, run (Watched.step (Mesh.threeByTwo true).toMeshXYCollectivePolicy someFp16) {} [addTo 2 11 [1, 0]] = some s ∧
      (Mesh.threeByTwo true).members 11 2 = [11] ∧ s.commits = [] ∧ ¬Right (Mesh.threeByTwo true) s := by
  constructor
  · have hcommits : (run (Watched.step (Mesh.threeByTwo true).toMeshXYCollectivePolicy someFp16) {}
        [addTo 0x10000 10 [1, 0], addTo 0x10000 11 [2, 0]]).map (·.commits) =
        some [{ request := addTo 0x10000 10 [3, 0], contributions := [addTo 0x10000 10 [1, 0],
          addTo 0x10000 11 [2, 0]] }] := by
      decide +kernel
    obtain ⟨s, hrun, hs⟩ := map_eq_some_iff.1 hcommits
    refine ⟨s, hrun, hs, fun hright => ?_⟩
    have hexact := (hright.2 _ (by rw [hs]; exact mem_singleton_self _)).sources
    have hmembers : (Mesh.threeByTwo true).members 10 0x10000 = [10, 13] := by decide +kernel
    have hmem := hexact.mem_iff.1 (show (11 : Int) ∈ _ from mem_cons_of_mem _ (mem_singleton_self 11))
    exact absurd (show (11 : Int) ∈ [10, 13] from hmembers ▸ hmem) (by decide)
  · have hrun : (run (Watched.step (Mesh.threeByTwo true).toMeshXYCollectivePolicy someFp16) {} [addTo 2 11 [1, 0]]).map
        (fun s => (s.commits, s.since (addTo 2 11 [1, 0]).key)) = some ([], [addTo 2 11 [1, 0]]) := by
      decide +kernel
    obtain ⟨s, hrun, hs⟩ := map_eq_some_iff.1 hrun
    rw [Prod.mk.injEq] at hs
    refine ⟨s, hrun, by decide +kernel, hs.1, fun hright => ?_⟩
    have hgather := hright.1 (addTo 2 11 [1, 0]).key
    rw [hs.2] at hgather
    exact absurd hgather.1 (by decide +kernel)

end GvsocPulp.FloonocFlex
