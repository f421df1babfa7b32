import GvsocPulp.IdmaV3.Lines

/-!
# Runs of the ND mid-end

- `NdMidEnd`: the mid-end with the records of its requests, under any order of pushes, peeks, hand-overs and
  completions;
- `Inv`: where it stands in the request at the head of its FIFO, how many lines of a record are alive, which records are
  deleted;
- `enumerates`: in every state of a run the lines handed over are the first ones of the lines of the pushed requests,
  the next one is offered from some cycle on, and a record has been deleted iff its last line was handed over and all
  its lines are completed.
-/

namespace GvsocPulp.IdmaV3

open Lib MidEnd Function List Option

variable {cfg : StreamConfig} {req : NdReq} {c : Cursor} {n : Nat}

variable {head : NdReq} {rest : List NdReq} {forceLast : Bool}

/-! ## The mid-end with the records of its requests -/

/-- `IdmaMeNd`, with `nb_1d_alive` of the records of its requests and what has been observed of a run. A record is known
by its place among the pushes (`seq`). -/
structure NdMidEnd where
  now : Int := 0
  me : MidEnd := {}
  alive : Nat → Int := fun _ => 0
  pushed : List NdReq := []
  handed : List Line := []
  /-- The places of the lines, among those handed over, that are completed. -/
  completed : List Nat := []
  /-- What the front-end was told to be complete. -/
  reported : List NdReq := []
  deleted : List NdReq := []

namespace NdMidEnd

variable (cfg) (s : NdMidEnd)

/-- `push_nd(req, extra_delay)` of a new record, where the front-end may push. -/
def pushNd (req : NdReq) (extraDelay : Nat) : Option NdMidEnd :=
  if s.me.canAcceptNd cfg s.now ∧ req.seq = s.pushed.length then
    some { s with me := s.me.pushNd req extraDelay s.now, pushed := s.pushed ++ [req] }
  else none

/-- `peek_1d(now)`; a line that is built is alive. -/
def peek1d : NdMidEnd :=
  let me := s.me.peek1d cfg s.now
  { s with
    me := me
    alive := match s.me.pending, me.pending with
      | none, some line => update s.alive line.parent.seq (s.alive line.parent.seq + 1)
      | _, _ => s.alive }

/-- `take_1d(now)` of the line that waits. -/
def take1d : Option NdMidEnd :=
  s.me.pending.map fun line => { s with me := s.me.take1d s.now, handed := s.handed ++ [line] }

/-- `complete_1d(req, force_last)` of a line that was handed over and is not completed. -/
def complete1d (i : Nat) (forceLast : Bool) : Option NdMidEnd :=
  match s.handed[i]? with
  | none => none
  | some line =>
    if i ∈ s.completed then none
    else
      let parent := line.parent
      let alive := s.alive parent.seq - 1
      some { s with
        completed := s.completed ++ [i]
        reported := if line.superLast || forceLast then s.reported ++ [parent] else s.reported
        alive := update s.alive parent.seq alive
        deleted := if alive = 0 ∧ s.me.current.map (·.req.seq) ≠ some parent.seq then s.deleted ++ [parent]
          else s.deleted }

inductive Event
  | cycle
  | pushNd (req : NdReq) (extraDelay : Nat)
  | peek1d
  | take1d
  | complete1d (i : Nat) (forceLast : Bool)

def step (s : NdMidEnd) : Event → Option NdMidEnd
  | .cycle => some { s with now := s.now + 1 }
  | .pushNd req extraDelay => s.pushNd cfg req extraDelay
  | .peek1d => some (s.peek1d cfg)
  | .take1d => s.take1d
  | .complete1d i forceLast => s.complete1d i forceLast

def allLines : List Line := s.pushed.flatMap (ndLines cfg)

/-- The mid-end hands over the lines of the pushed requests, and deletes the records. -/
structure Exact : Prop where
  inOrder : s.handed <+: s.allLines cfg
  offers : ∀ line, (s.allLines cfg)[s.handed.length]? = some line →
    ∃ t : Int, ∀ now ≥ t, (s.me.peek1d cfg now).pending = some line
  /-- Peeks and hand-overs go on to the last line. -/
  finishes : ∃ es s', run (step cfg) s es = some s' ∧ s'.pushed = s.pushed ∧ s'.handed = s.allLines cfg
  deletedOnce : s.deleted.Nodup
  deleted : ∀ req, req ∈ s.deleted ↔ (∃ line ∈ s.handed, line.parent = req ∧ line.superLast = true) ∧
    ∀ (i : Nat) (line : Line), s.handed[i]? = some line → line.parent = req → i ∈ s.completed

/-- The lines of a record that were handed over and are not completed. -/
def openLines (q : Nat) : Finset Nat :=
  (Finset.range s.handed.length).filter fun i => i ∉ s.completed ∧ (s.handed[i]?).map (·.parent.seq) = some q

/-- Where the mid-end stands, after the requests `gone`: idle, or `n` lines into the request at the head of the FIFO. -/
def Stands (gone : List NdReq) : Prop :=
  match s.me.current with
  | none => s.me.pending = none ∧ s.handed = gone.flatMap (ndLines cfg)
  | some c => ∃ n rest, s.me.queue.entries = c.req :: rest ∧ n < nbLines cfg c.req ∧
      s.handed = gone.flatMap (ndLines cfg) ++ (ndLines cfg c.req).take n ∧
      match s.me.pending with
      | none => CursorAt cfg c n
      | some line => line = lineAt cfg c.req n ∧ CursorAt cfg c (n + 1)

/-- The invariant; the requests `gone` have left the FIFO. -/
structure Inv (gone : List NdReq) : Prop where
  seqs : ∀ (i : Nat) (req : NdReq), s.pushed[i]? = some req → req.seq = i
  pushed : s.pushed = gone ++ s.me.queue.entries
  stands : s.Stands cfg gone
  completed : ∀ i ∈ s.completed, i < s.handed.length
  alive : ∀ q, s.alive q = (s.openLines q).card + if s.me.pending.map (·.parent.seq) = some q then 1 else 0
  deletedOnce : s.deleted.Nodup
  deleted : ∀ req, req ∈ s.deleted ↔ req ∈ gone ∧
    ∀ (i : Nat) (line : Line), s.handed[i]? = some line → line.parent = req → i ∈ s.completed

variable {cfg s} {s' : NdMidEnd} {gone : List NdReq}

theorem inv_init : Inv cfg {} [] where
  seqs := by simp
  pushed := rfl
  stands := ⟨rfl, rfl⟩
  completed := by simp
  alive := by simp [openLines]
  deletedOnce := nodup_nil
  deleted := by simp

/-! ### The records -/

theorem parent_of_mem_ndLines {line : Line} (h : line ∈ ndLines cfg req) : line.parent = req := by
  rw [ndLines_eq] at h
  obtain ⟨n, -, rfl⟩ := List.mem_map.1 h
  rfl

theorem parent_of_mem_flatMap {line : Line} (h : line ∈ gone.flatMap (ndLines cfg)) : line.parent ∈ gone := by
  obtain ⟨req, hreq, hline⟩ := mem_flatMap.1 h
  rwa [parent_of_mem_ndLines hline]

section

variable (h : s.Inv cfg gone)
include h

theorem Inv.seq_inj {req req' : NdReq} (hreq : req ∈ s.pushed) (hreq' : req' ∈ s.pushed) (heq : req.seq = req'.seq) :
    req = req' := by
  obtain ⟨i, hi⟩ := getElem?_of_mem hreq
  obtain ⟨j, hj⟩ := getElem?_of_mem hreq'
  rw [h.seqs i req hi, h.seqs j req' hj] at heq
  subst heq
  rw [hi] at hj
  exact Option.some.inj hj

theorem Inv.mem_pushed {req : NdReq} (hreq : req ∈ gone) : req ∈ s.pushed := by
  rw [h.pushed]
  exact mem_append_left _ hreq

theorem Inv.head_seq_ne {req : NdReq} (hreq : req ∈ gone) (hhead : s.me.queue.entries = head :: rest) :
    req.seq ≠ head.seq := by
  obtain ⟨i, hi⟩ := getElem?_of_mem hreq
  obtain ⟨hlt, -⟩ := List.getElem?_eq_some_iff.1 hi
  have hpushed := h.pushed
  have hseq : req.seq = i := by
    apply h.seqs
    rw [hpushed, getElem?_append_left hlt, hi]
  have hseq' : head.seq = gone.length := by
    apply h.seqs
    rw [hpushed, hhead]
    simp
  omega

/-- The lines handed over belong to requests that have left the FIFO, or to its head. -/
theorem Inv.parent_cases {line : Line} (hline : line ∈ s.handed) :
    line.parent ∈ gone ∨ ∃ c rest, s.me.current = some c ∧ s.me.queue.entries = c.req :: rest ∧ line.parent = c.req ∧
      line.superLast = false := by
  have hstands := h.stands
  unfold Stands at hstands
  split at hstands
  · rw [hstands.2] at hline
    exact .inl (parent_of_mem_flatMap hline)
  · next c hc =>
    obtain ⟨n, rest, hentries, hn, hhanded, -⟩ := hstands
    rw [hhanded] at hline
    rcases mem_append.1 hline with hmem | hmem
    · exact .inl (parent_of_mem_flatMap hmem)
    · refine .inr ⟨c, rest, hc, hentries, parent_of_mem_ndLines (mem_of_mem_take hmem), ?_⟩
      obtain ⟨i, hi, rfl⟩ := mem_take_iff_getElem.1 hmem
      have hlt : i < n := by omega
      have hsuper : (lineAt cfg c.req i).superLast = true ↔ i + 1 = nbLines cfg c.req := superLast_lineAt (by omega)
      simp only [ndLines_eq, getElem_map, getElem_range]
      change (lineAt cfg c.req i).superLast = false
      rw [Bool.eq_false_iff, Ne, hsuper]
      omega

theorem Inv.pending_parent {line : Line} (hpending : s.me.pending = some line) :
    ∃ c rest, s.me.current = some c ∧ s.me.queue.entries = c.req :: rest ∧ line.parent = c.req := by
  have hstands := h.stands
  unfold Stands at hstands
  rw [hpending] at hstands
  split at hstands
  · cases hstands.1
  · next c hc =>
    obtain ⟨n, rest, hentries, -, -, hline, -⟩ := hstands
    exact ⟨c, rest, hc, hentries, by rw [hline]; rfl⟩

end

theorem mem_openLines {q i : Nat} :
    i ∈ s.openLines q ↔ i ∉ s.completed ∧ ∃ line, s.handed[i]? = some line ∧ line.parent.seq = q := by
  unfold openLines
  rw [Finset.mem_filter, Finset.mem_range, map_eq_some_iff]
  constructor
  · rintro ⟨-, h⟩
    exact h
  · rintro ⟨hopen, line, hline, hq⟩
    exact ⟨(List.getElem?_eq_some_iff.1 hline).1, hopen, line, hline, hq⟩

/-! ### The steps -/

theorem Inv.pushNd (h : s.Inv cfg gone) {req : NdReq} {extraDelay : Nat} (hs : s.pushNd cfg req extraDelay = some s') :
    s'.Inv cfg gone := by
  unfold NdMidEnd.pushNd at hs
  split at hs
  · next hpush =>
    cases hs
    refine { h with seqs := ?_, pushed := ?_, stands := ?_ }
    · intro i r hi
      rcases lt_or_ge i s.pushed.length with hlt | hge
      · rw [getElem?_append_left hlt] at hi
        exact h.seqs i r hi
      · rw [getElem?_append_right hge, getElem?_singleton] at hi
        split at hi
        · cases hi
          omega
        · cases hi
    · simp [MidEnd.pushNd, h.pushed]
    · have hstands := h.stands
      unfold Stands at hstands ⊢
      split at hstands
      · next hc =>
        simp only [MidEnd.pushNd, hc]
        exact hstands
      · next c hc =>
        obtain ⟨n, rest, hentries, hn⟩ := hstands
        simp only [MidEnd.pushNd, hc, TimedFifo.entries_push, hentries]
        exact ⟨n, rest ++ [req], rfl, hn⟩
  · cases hs

theorem Inv.peek1d (h : s.Inv cfg gone) : (s.peek1d cfg).Inv cfg gone := by
  unfold NdMidEnd.peek1d
  rcases peek1d_cases cfg s.now s.me with ⟨hsame, -⟩ | ⟨hpending, c, hc, hpeek⟩
  · rw [hsame]
    have halive : (match s.me.pending, s.me.pending with
        | none, some line => update s.alive line.parent.seq (s.alive line.parent.seq + 1)
        | _, _ => s.alive) = s.alive := by cases s.me.pending <;> rfl
    simp only [halive]
    exact h
  · -- the cursors, `n` lines into the request at the head
    have hcursor : ∃ n rest, s.me.queue.entries = c.req :: rest ∧ n < nbLines cfg c.req ∧
        s.handed = gone.flatMap (ndLines cfg) ++ (ndLines cfg c.req).take n ∧ CursorAt cfg c n := by
      have hstands := h.stands
      unfold Stands at hstands
      rcases hc with hc | ⟨hc, req, hhead, rfl⟩
      · rw [hc, hpending] at hstands
        exact hstands
      · rw [hc] at hstands
        obtain ⟨rest, hentries⟩ := TimedFifo.entries_of_visibleHead hhead
        refine ⟨0, rest, hentries, nbLines_pos, ?_, load_cursorAt⟩
        simpa using hstands.2
    obtain ⟨n, rest, hentries, hn, hhanded, hat⟩ := hcursor
    obtain ⟨hline, hreq, hat'⟩ := build1d_line hat hn
    simp only [hpeek, hpending]
    refine { h with stands := ?_, alive := ?_ }
    · refine ⟨n, rest, ?_, ?_, ?_, ?_⟩
      · rw [hreq]
        exact hentries
      · rwa [hreq]
      · rwa [hreq]
      · rw [hreq]
        exact ⟨hline, hat'⟩
    · intro q
      have halive := h.alive q
      rw [hpending] at halive
      change _ = ((s.openLines q).card : Int) + _
      by_cases hq : (build1d c).1.parent.seq = q
      · subst hq
        simpa using halive
      · simpa [hq, Ne.symm hq] using halive

theorem Inv.take1d (h : s.Inv cfg gone) (hs : s.take1d = some s') : ∃ gone', s'.Inv cfg gone' := by
  unfold NdMidEnd.take1d at hs
  obtain ⟨line, hpending, rfl⟩ := map_eq_some_iff.1 hs
  obtain ⟨c, rest, hc, hentries, hparent⟩ := h.pending_parent hpending
  have hstands := h.stands
  unfold Stands at hstands
  rw [hc, hpending] at hstands
  obtain ⟨n, rest', hentries', hn, hhanded, hline, hat⟩ := hstands
  have hsuper : line.superLast = true ↔ n + 1 = nbLines cfg c.req := hline ▸ superLast_lineAt hn
  have hnew : s.handed ++ [line] = gone.flatMap (ndLines cfg) ++ (ndLines cfg c.req).take (n + 1) := by
    rw [hhanded, take_succ_ndLines hn, hline, append_assoc]
  have hlen : s.handed.length ∉ s.completed := fun hmem => lt_irrefl _ (h.completed _ hmem)
  have hcompleted : ∀ i ∈ s.completed, i < (s.handed ++ [line]).length := by
    intro i hi
    have hlt := h.completed i hi
    simp only [length_append, length_singleton]
    omega
  have hlines : ∀ q, ((NdMidEnd.openLines { s with me := s.me.take1d s.now, handed := s.handed ++ [line] } q).card :
    Int) =
      (s.openLines q).card + if line.parent.seq = q then 1 else 0 := by
    intro q
    unfold openLines
    simp only [length_append, length_singleton]
    rw [Finset.range_add_one, Finset.filter_insert]
    have hold : (Finset.range s.handed.length).filter (fun i => i ∉ s.completed ∧
          ((s.handed ++ [line])[i]?).map (·.parent.seq) = some q) =
        (Finset.range s.handed.length).filter fun i => i ∉ s.completed ∧ (s.handed[i]?).map
          (·.parent.seq) = some q := by
      apply Finset.filter_congr
      intro i hi
      rw [getElem?_append_left (Finset.mem_range.1 hi)]
    rw [hold, getElem?_concat_length]
    by_cases hq : line.parent.seq = q
    · rw [if_pos ⟨hlen, by simp [hq]⟩, Finset.card_insert_of_notMem (by simp), if_pos hq]
      simp
    · rw [if_neg (by simp [hq]), if_neg hq]
      simp
  have halive : ∀ q, s.alive q =
      (NdMidEnd.openLines { s with me := s.me.take1d s.now, handed := s.handed ++ [line] } q).card := by
    intro q
    rw [hlines, h.alive q, hpending]
    simp
  -- the records of the requests that have left the FIFO own none of the new line
  have hdeleted : ∀ req, req ∈ s.deleted ↔ req ∈ gone ∧ ∀ (i : Nat) (l : Line), (s.handed ++ [line])[i]? = some l →
      l.parent = req → i ∈ s.completed := by
    intro req
    rw [h.deleted]
    refine and_congr_right fun hreq => ⟨?_, ?_⟩
    · intro hall i l hi hl
      rcases lt_or_ge i s.handed.length with hlt | hge
      · rw [getElem?_append_left hlt] at hi
        exact hall i l hi hl
      · rw [getElem?_append_right hge, getElem?_singleton] at hi
        split at hi
        · cases hi
          exact absurd (congrArg NdReq.seq (hl.symm.trans hparent)) (h.head_seq_ne hreq hentries)
        · cases hi
    · intro hall i l hi hl
      exact hall i l (by rw [getElem?_append_left (List.getElem?_eq_some_iff.1 hi).1, hi]) hl
  by_cases hlast : line.superLast = true
  · refine ⟨gone ++ [c.req], h.seqs, ?_, ?_, hcompleted, ?_, h.deletedOnce, ?_⟩
    · simp [MidEnd.take1d, hpending, hlast, h.pushed, hentries]
    · unfold Stands
      simp only [MidEnd.take1d, hpending, hlast, any_some, if_true]
      rw [hnew, hsuper.1 hlast, ← length_ndLines, take_length]
      simp
    · intro q
      rw [← halive q]
      simp [MidEnd.take1d, hpending, hlast]
    · intro req
      rw [hdeleted, mem_append, mem_singleton]
      constructor
      · rintro ⟨hreq, hall⟩
        exact ⟨.inl hreq, hall⟩
      · rintro ⟨hreq | hreq, hall⟩
        · exact ⟨hreq, hall⟩
        · exact absurd (hall s.handed.length line getElem?_concat_length (hparent.trans hreq.symm)) hlen
  · have hn' : n + 1 < nbLines cfg c.req := by
      rw [hsuper] at hlast
      omega
    refine ⟨gone, h.seqs, ?_, ?_, hcompleted, ?_, h.deletedOnce, hdeleted⟩
    · simp [MidEnd.take1d, hpending, hlast, h.pushed]
    · unfold Stands
      simp only [MidEnd.take1d, hpending, hlast, any_some, hc, hnew]
      exact ⟨n + 1, rest, hentries, hn', rfl, hat⟩
    · intro q
      rw [← halive q]
      simp [MidEnd.take1d, hpending, hlast]

theorem complete1d_cases {i : Nat} (hs : s.complete1d i forceLast = some s') :
    ∃ line, s.handed[i]? = some line ∧ i ∉ s.completed ∧ s'.pushed = s.pushed ∧ s'.me = s.me ∧ s'.handed = s.handed ∧
      s'.completed = s.completed ++ [i] ∧
      s'.alive = update s.alive line.parent.seq (s.alive line.parent.seq - 1) ∧
      s'.deleted = if s'.alive line.parent.seq = 0 ∧ s.me.current.map (·.req.seq) ≠ some line.parent.seq then
        s.deleted ++ [line.parent] else s.deleted := by
  unfold NdMidEnd.complete1d at hs
  split at hs
  · cases hs
  · next line hline =>
    split at hs
    · cases hs
    · next hopen =>
      cases hs
      refine ⟨line, hline, hopen, rfl, rfl, rfl, rfl, rfl, ?_⟩
      simp

section Complete

variable {i : Nat} {line : Line} (hline : s.handed[i]? = some line)

include hline

theorem openLines_complete (hopen : i ∉ s.completed) (hhanded : s'.handed = s.handed)
    (hcompleted : s'.completed = s.completed ++ [i]) (q : Nat) :
    s'.openLines q = if q = line.parent.seq then (s.openLines q).erase i else s.openLines q := by
  ext j
  rw [mem_openLines, hhanded, hcompleted, mem_append, mem_singleton, not_or]
  split
  · rw [Finset.mem_erase, mem_openLines]
    tauto
  · next hq =>
    rw [mem_openLines]
    constructor
    · rintro ⟨⟨hj, -⟩, hl⟩
      exact ⟨hj, hl⟩
    · rintro ⟨hj, l, hl, hlq⟩
      refine ⟨⟨hj, ?_⟩, l, hl, hlq⟩
      rintro rfl
      rw [hline] at hl
      cases hl
      exact hq hlq.symm

theorem closed_complete (hhanded : s'.handed = s.handed) (hcompleted : s'.completed = s.completed ++ [i]) {req : NdReq}
    (hreq : req ≠ line.parent) :
    (∀ (j : Nat) (l : Line), s'.handed[j]? = some l → l.parent = req → j ∈ s'.completed) ↔
      ∀ (j : Nat) (l : Line), s.handed[j]? = some l → l.parent = req → j ∈ s.completed := by
  rw [hhanded, hcompleted]
  constructor
  · intro hall j l hl hp
    rcases mem_append.1 (hall j l hl hp) with hj | hj
    · exact hj
    · rw [mem_singleton.1 hj, hline] at hl
      cases hl
      exact absurd hp.symm hreq
  · intro hall j l hl hp
    exact mem_append_left _ (hall j l hl hp)

theorem Inv.not_deleted (h : s.Inv cfg gone) (hopen : i ∉ s.completed) : line.parent ∉ s.deleted := by
  intro hdel
  exact hopen (((h.deleted _).1 hdel).2 i line hline rfl)

end Complete

section

variable (h : s.Inv cfg gone)
include h

theorem Inv.alive_complete {i : Nat} {line : Line} (hline : s.handed[i]? = some line)
    (hopen : i ∉ s.completed) (hme : s'.me = s.me) (hhanded : s'.handed = s.handed)
    (hcompleted : s'.completed = s.completed ++ [i])
    (halive : s'.alive = update s.alive line.parent.seq (s.alive line.parent.seq - 1)) (q : Nat) :
    s'.alive q = (s'.openLines q).card + if s'.me.pending.map (·.parent.seq) = some q then 1 else 0 := by
  have hcard := Finset.card_erase_add_one (mem_openLines.2 ⟨hopen, line, hline, rfl⟩)
  have hq := h.alive q
  rw [halive, openLines_complete hline hopen hhanded hcompleted, hme]
  by_cases heq : q = line.parent.seq
  · subst heq
    rw [update_self, if_pos rfl, hq]
    omega
  · rw [update_of_ne heq, if_neg heq, hq]

theorem Inv.left_fifo {req : NdReq} (hreq : req ∈ gone) :
    s.me.current.map (·.req.seq) ≠ some req.seq ∧ s.me.pending.map (·.parent.seq) ≠ some req.seq := by
  constructor
  · intro heq
    obtain ⟨c, hc, hseq⟩ := map_eq_some_iff.1 heq
    have hstands := h.stands
    unfold Stands at hstands
    rw [hc] at hstands
    obtain ⟨n, rest, hentries, -⟩ := hstands
    exact h.head_seq_ne hreq hentries hseq.symm
  · intro heq
    obtain ⟨l, hl, hseq⟩ := map_eq_some_iff.1 heq
    obtain ⟨c, rest, -, hentries, hparent⟩ := h.pending_parent hl
    exact h.head_seq_ne hreq hentries (by rw [← hparent, hseq])

theorem Inv.openLines_eq_empty_iff {req : NdReq} (hreq : req ∈ gone) (hhanded : s'.handed = s.handed) :
    ((s'.openLines req.seq).card : Int) = 0 ↔
      ∀ (j : Nat) (l : Line), s'.handed[j]? = some l → l.parent = req → j ∈ s'.completed := by
  rw [ Int.natCast_eq_zero, Finset.card_eq_zero, Finset.eq_empty_iff_forall_notMem]
  simp only [mem_openLines, not_and, not_exists]
  constructor
  · intro hall j l hl hp
    by_contra hj
    exact hall j hj l hl (by rw [hp])
  · intro hall j hj l hl hp
    have hmem : l.parent ∈ s.pushed := by
      rcases h.parent_cases (mem_of_getElem? (hhanded ▸ hl)) with hgone | ⟨c, rest, -, hentries, hparent, -⟩
      · exact h.mem_pushed hgone
      · rw [h.pushed, hentries, hparent]
        simp
    exact hj (hall j l hl (h.seq_inj hmem (h.mem_pushed hreq) hp))

theorem Inv.complete1d {i : Nat} (hs : s.complete1d i forceLast = some s') :
    s'.Inv cfg gone := by
  obtain ⟨line, hline, hopen, hpushed, hme, hhanded, hcompleted, halive', hdeleted⟩ := complete1d_cases hs
  have halive := h.alive_complete hline hopen hme hhanded hcompleted halive'
  have hnot := h.not_deleted hline hopen
  have hseqs := h.seqs
  have hqueue := h.pushed
  have hstands := h.stands
  unfold Stands at hstands
  rw [← hpushed] at hseqs
  rw [← hpushed, ← hme] at hqueue
  rw [← hme, ← hhanded] at hstands
  have hbound : ∀ j ∈ s'.completed, j < s'.handed.length := by
    intro j hj
    rw [hcompleted] at hj
    rw [hhanded]
    rcases mem_append.1 hj with hj | hj
    · exact h.completed j hj
    · rw [mem_singleton.1 hj]
      exact (List.getElem?_eq_some_iff.1 hline).1
  rcases h.parent_cases (mem_of_getElem? hline) with hgone | ⟨c, rest, hc, hentries, hparent, -⟩
  · -- its request has left the FIFO: the record goes with its last open line
    obtain ⟨hcurrent, hpending⟩ := h.left_fifo hgone
    have hzero : s'.alive line.parent.seq = 0 ↔ ∀ (j : Nat) (l : Line), s'.handed[j]? = some l →
      l.parent = line.parent →
        j ∈ s'.completed := by
      rw [halive, hme, if_neg hpending, add_zero]
      exact h.openLines_eq_empty_iff hgone hhanded
    refine ⟨hseqs, hqueue, hstands, hbound, halive, ?_, ?_⟩
    · rw [hdeleted]
      split
      · refine nodup_append.2 ⟨h.deletedOnce, nodup_singleton _, ?_⟩
        intro a ha b hb heq
        rw [mem_singleton.1 hb] at heq
        exact hnot (heq ▸ ha)
      · exact h.deletedOnce
    · intro req
      by_cases hreq : req = line.parent
      · subst hreq
        rw [hdeleted, ← hzero]
        by_cases hz : s'.alive line.parent.seq = 0 <;> simp [hcurrent, hgone, hnot, hz]
      · rw [closed_complete hline hhanded hcompleted hreq, ← h.deleted, hdeleted]
        split
        · simp [hreq]
        · rfl
  · -- its request heads the FIFO: the record stays
    have hkeep : s'.deleted = s.deleted := by
      rw [hdeleted, if_neg]
      rintro ⟨-, hne⟩
      rw [hc, hparent] at hne
      exact hne rfl
    refine ⟨hseqs, hqueue, hstands, hbound, halive, ?_, ?_⟩
    · rw [hkeep]
      exact h.deletedOnce
    · intro req
      rw [hkeep, h.deleted]
      refine and_congr_right fun hreq => (closed_complete hline hhanded hcompleted ?_).symm
      intro heq
      exact h.head_seq_ne hreq hentries (by rw [heq, hparent])

theorem Inv.step {e : Event} (hs : NdMidEnd.step cfg s e = some s') : ∃ gone', s'.Inv cfg gone' := by
  cases e with
  | cycle =>
    cases hs
    exact ⟨gone, { h with }⟩
  | pushNd req extraDelay => exact ⟨gone, h.pushNd hs⟩
  | peek1d =>
    cases hs
    exact ⟨gone, h.peek1d⟩
  | take1d => exact h.take1d hs
  | complete1d i forceLast => exact ⟨gone, h.complete1d hs⟩

end

theorem exists_inv {s : NdMidEnd} (h : ∃ gone, s.Inv cfg gone) {es : List Event}
    (hrun : run (NdMidEnd.step cfg) s es = some s') :
    ∃ gone, s'.Inv cfg gone := by
  refine run_invariant (I := fun s => ∃ gone, NdMidEnd.Inv cfg s gone) ?_ h hrun
  rintro s e s' ⟨gone, h⟩ hs
  exact h.step hs

/-! ### What it means -/

theorem Inv.inOrder (h : s.Inv cfg gone) : s.handed <+: s.allLines cfg := by
  have hstands := h.stands
  unfold Stands at hstands
  unfold allLines
  rw [h.pushed, flatMap_append]
  split at hstands
  · rw [hstands.2]
    exact prefix_append ..
  · next c hc =>
    obtain ⟨n, rest, hentries, -, hhanded, -⟩ := hstands
    rw [hhanded, hentries, flatMap_cons, prefix_append_right_inj]
    exact (List.take_prefix ..).trans (prefix_append ..)

theorem Inv.next_line (h : s.Inv cfg gone) (hentries : s.me.queue.entries = head :: rest)
    (hn : n < nbLines cfg head) (hhanded : s.handed = gone.flatMap (ndLines cfg) ++ (ndLines cfg head).take n) :
    (s.allLines cfg)[s.handed.length]? = some (lineAt cfg head n) := by
  have hlen : s.handed.length = (gone.flatMap (ndLines cfg)).length + n := by
    rw [hhanded, length_append, length_take, length_ndLines, min_eq_left hn.le]
  unfold allLines
  rw [h.pushed, hentries, flatMap_append, flatMap_cons, hlen, getElem?_append_right (Nat.le_add_right ..),
    Nat.add_sub_cancel_left, getElem?_append_left (by rwa [length_ndLines]), ndLines_eq, getElem?_map,
    getElem?_range hn]
  rfl

theorem Inv.offers (h : s.Inv cfg gone) {line : Line} (hline : (s.allLines cfg)[s.handed.length]? = some line) :
    ∃ t : Int, ∀ now ≥ t, (s.me.peek1d cfg now).pending = some line := by
  have hstands := h.stands
  unfold Stands at hstands
  cases hpending : s.me.pending with
  | some l =>
    rw [hpending] at hstands
    refine ⟨0, fun now _ => ?_⟩
    have hkept : s.me.peek1d cfg now = s.me := by
      unfold MidEnd.peek1d
      rw [hpending]
    rw [hkept, hpending]
    split at hstands
    · cases hstands.1
    · obtain ⟨n, rest, hentries, hn, hhanded, hl, -⟩ := hstands
      rw [h.next_line hentries hn hhanded] at hline
      rw [hl]
      exact hline
  | none =>
    rw [hpending] at hstands
    cases hc : s.me.current with
    | some c =>
      rw [hc] at hstands
      obtain ⟨n, rest, hentries, hn, hhanded, hat⟩ := hstands
      refine ⟨0, fun now _ => ?_⟩
      have hbuilt : (s.me.peek1d cfg now).pending = some (build1d c).1 := by
        unfold MidEnd.peek1d
        rw [hpending, hc]
        rfl
      rw [hbuilt, (build1d_line hat hn).1, ← h.next_line hentries hn hhanded, hline]
    | none =>
      rw [hc] at hstands
      cases hq : s.me.queue.queue with
      | nil =>
        have hentries : s.me.queue.entries = [] := by rw [TimedFifo.entries, hq, map_nil]
        unfold allLines at hline
        rw [h.pushed, hentries, append_nil, ← hstands.2] at hline
        rw [getElem?_length] at hline
        cases hline
      | cons entry rest =>
        obtain ⟨req, visibleAt⟩ := entry
        have hentries : s.me.queue.entries = req :: rest.map (·.1) := by rw [TimedFifo.entries, hq, map_cons]
        have hhanded : s.handed = gone.flatMap (ndLines cfg) ++ (ndLines cfg req).take 0 := by simpa using hstands.2
        refine ⟨visibleAt, fun now hnow => ?_⟩
        have hhead : s.me.queue.visibleHead now = some req := by
          unfold TimedFifo.visibleHead
          rw [hq]
          exact if_pos hnow
        have hbuilt : (s.me.peek1d cfg now).pending = some (build1d (load cfg req)).1 := by
          unfold MidEnd.peek1d
          rw [hpending, hc, hhead]
          rfl
        rw [hbuilt, (build1d_line load_cursorAt nbLines_pos).1, ← hline]
        exact (h.next_line hentries nbLines_pos hhanded).symm

theorem run_cycles (n : Nat) : ∀ s : NdMidEnd,
    run (NdMidEnd.step cfg) s (List.replicate n .cycle) = some { s with now := s.now + n } := by
  induction n with
  | zero => simp
  | succ n ih =>
    intro s
    rw [replicate_succ, run]
    simp only [NdMidEnd.step, bind_some, ih]
    congr 2
    omega

theorem Inv.hands_over (h : s.Inv cfg gone) {line : Line} (hline : (s.allLines cfg)[s.handed.length]? = some line) :
    ∃ es s', run (NdMidEnd.step cfg) s es = some s' ∧ s'.pushed = s.pushed ∧ s'.handed = s.handed ++ [line] := by
  obtain ⟨t, ht⟩ := h.offers hline
  let s₁ : NdMidEnd := { s with now := s.now + (t - s.now).toNat }
  have hpeek : (s₁.peek1d cfg).me.pending = some line := ht s₁.now (by
    show t ≤ s.now + (t - s.now).toNat
    omega)
  have htake : ∃ s', (s₁.peek1d cfg).take1d = some s' ∧ s'.pushed = s.pushed ∧ s'.handed = s.handed ++ [line] := by
    unfold NdMidEnd.take1d
    rw [hpeek]
    exact ⟨_, rfl, rfl, rfl⟩
  obtain ⟨s', hs', hpushed, hhanded⟩ := htake
  refine ⟨List.replicate (t - s.now).toNat .cycle ++ [.peek1d, .take1d], s', ?_, hpushed, hhanded⟩
  refine run_append.2 ⟨s₁, run_cycles _ s, ?_⟩
  simp [run, NdMidEnd.step, hs']

theorem Inv.finishes (k : Nat) : ∀ {s : NdMidEnd} {gone : List NdReq}, s.Inv cfg gone →
    (s.allLines cfg).length = s.handed.length + k →
    ∃ es s', run (NdMidEnd.step cfg) s es = some s' ∧ s'.pushed = s.pushed ∧ s'.handed = s.allLines cfg := by
  induction k with
  | zero =>
    intro s gone h hlen
    exact ⟨[], s, rfl, rfl, h.inOrder.eq_of_length hlen.symm⟩
  | succ k ih =>
    intro s gone h hlen
    have hlt : s.handed.length < (s.allLines cfg).length := by omega
    obtain ⟨es, s₁, hrun, hpushed, hhanded⟩ := h.hands_over (getElem?_eq_getElem hlt)
    have hall : s₁.allLines cfg = s.allLines cfg := by rw [allLines, allLines, hpushed]
    obtain ⟨gone₁, h₁⟩ := exists_inv ⟨gone, h⟩ hrun
    obtain ⟨es', s', hrun', hpushed', hhanded'⟩ := ih h₁ (by
      rw [hall, hhanded, length_append, length_singleton]
      omega)
    exact ⟨es ++ es', s', run_append.2 ⟨s₁, hrun, hrun'⟩, hpushed'.trans hpushed, hhanded'.trans hall⟩

theorem Inv.left_iff (h : s.Inv cfg gone) : req ∈ gone ↔ ∃ line ∈ s.handed, line.parent = req ∧
    line.superLast = true := by
  constructor
  · intro hreq
    have hpos : 0 < nbLines cfg req := nbLines_pos
    have hmem : lineAt cfg req (nbLines cfg req - 1) ∈ ndLines cfg req := by
      rw [ndLines_eq]
      exact List.mem_map.2 ⟨_, mem_range.2 (by omega), rfl⟩
    have hflat := mem_flatMap.2 ⟨req, hreq, hmem⟩
    refine ⟨lineAt cfg req (nbLines cfg req - 1), ?_, rfl, (superLast_lineAt (by omega)).2 (by omega)⟩
    have hstands := h.stands
    unfold Stands at hstands
    split at hstands
    · rw [hstands.2]
      exact hflat
    · obtain ⟨n, rest, -, -, hhanded, -⟩ := hstands
      rw [hhanded]
      exact mem_append_left _ hflat
  · rintro ⟨line, hline, hparent, hsuper⟩
    rcases h.parent_cases hline with hgone | ⟨c, rest, -, -, -, hnot⟩
    · rwa [← hparent]
    · rw [hnot] at hsuper
      cases hsuper

theorem Inv.exact (h : s.Inv cfg gone) : s.Exact cfg where
  inOrder := h.inOrder
  offers := fun _ => h.offers
  finishes := by
    have hle := h.inOrder.length_le
    exact h.finishes ((s.allLines cfg).length - s.handed.length) (by omega)
  deletedOnce := h.deletedOnce
  deleted := fun req => by rw [h.deleted, h.left_iff]

/-- In every state of a run, the lines handed over are the first ones of the pushed requests in order, the mid-end goes
on to the last of them, and a record is deleted once: iff its last line was handed over and all its lines are completed.
-/
theorem enumerates (cfg : StreamConfig) (es : List Event) : AllStates (NdMidEnd.step cfg) (Exact cfg) {} es := by
  refine (AllStates.mono (I := fun s => ∃ gone, NdMidEnd.Inv cfg s gone) (fun s ⟨_, h⟩ => h.exact)) ?_
  refine allStates_of_allSteps (I := fun s => ∃ gone, NdMidEnd.Inv cfg s gone) (P := fun _ _ => True) (fun s h => h) ?_
    ⟨[], inv_init⟩ (allSteps_of_forall fun _ _ => trivial)
  rintro s e s' ⟨gone, h⟩ - hs
  exact h.step hs

end NdMidEnd

end GvsocPulp.IdmaV3
