import GvsocPulp.Snitchv2.SsrJobs

/-!
# What the streams of an SSR data mover move

The FIFO holds what lies between the address generator, at element `n`, and the FP side, at element `f`: pushed data
that is not written yet, or reads that the FP side has not used yet.

- `StreamSpec`: what has been requested, popped, pushed and left, against the elements;
- `ssr_streams`: it holds in all states of a run in which each pop finds a read stream first in the job list.
-/

namespace GvsocPulp.Snitchv2

open Lib Function List Option Streamer

variable {w : Nat}

variable {data : UInt64}

variable {e : Nat} {slot : Slot} {f' r' : Nat} {insnId : Int}

/-! ## The elements that are moved -/

/-- The memory access of an element: direction, address and size. A read gets the whole word of its element. -/
def busAccess (x : Stream w × BitVec w) : Bool × BitVec w × Nat :=
  if x.1.isWrite then (true, x.2, 8 - x.2.toNat % 8) else (false, x.2 - BitVec.ofNat w (x.2.toNat % 8), 8)

/-- The value of an element: the word that memory has returned for it, shifted to the element. -/
def elementValue (answers : Nat → Option UInt64) (x : Stream w × BitVec w) (e : Nat) : Option UInt64 :=
  (answers e).map (· >>> UInt64.ofNat (x.2.toNat % 8 * 8))

/-- What the FP side reads of an element: its value, repeated. -/
def popsOf (answers : Nat → Option UInt64) (x : (Stream w × BitVec w) × Nat) : List (Option UInt64) :=
  if x.1.1.isWrite then [] else replicate x.1.1.accesses (elementValue answers x.1 x.2)

def fpAccesses (xs : List (Stream w × BitVec w)) : List Bool :=
  xs.flatMap fun x => replicate x.1.accesses x.1.isWrite

theorem fpAccesses_append (xs xs' : List (Stream w × BitVec w)) :
    fpAccesses (xs ++ xs') = fpAccesses xs ++ fpAccesses xs' := flatMap_append

/-- What the streams are for: the requests are those of the elements, each accepted once and in order; the writes carry
the pushed values, in order; the FP side makes the accesses to the elements, in order, and its pops return their values;
the streams that have left the job list are those whose elements are all requested and accessed. -/
structure StreamSpec (s : Streamer w) : Prop where
  requests : s.issued.map (fun req => (req.isWrite, req.addr, req.size)) <+: (elements s.launched).map busAccess
  accepted : s.accepted ++ s.deniedReq.toList = s.issued
  writes : (s.issued.filter (·.isWrite)).map (·.data) <+: s.pushed
  reads : s.popped.map some <+: (elements s.launched).zipIdx.flatMap (popsOf s.answers)
  accesses : s.fpLog <+: fpAccesses (elements s.launched)
  left : ∃ gone, s.launched = gone ++ s.jobs.map Job.stream ∧ (elements gone).length ≤ s.issued.length ∧
    fpAccesses (elements gone) <+: s.fpLog ∧ ∀ job ∈ s.jobs.head?,
      ¬((elements (gone ++ [job.stream])).length ≤ s.issued.length ∧
        fpAccesses (elements (gone ++ [job.stream])) <+: s.fpLog)

/-! ## The FIFO -/

/-- The FIFO between the two sides: the elements it holds are all writes or all reads, and a valid read has the value of
its element. -/
structure FifoOk (depth : Nat) (xs : List (Stream w × BitVec w)) (answers : Nat → Option UInt64) (n f : Nat)
    (fifo : Nat → Slot) : Prop where
  le : max n f - min n f ≤ depth
  writes : ∀ e, n ≤ e → e < f → ∃ x, xs[e]? = some x ∧ x.1.isWrite = true
  reads : ∀ e, f ≤ e → e < n → ∃ x, xs[e]? = some x ∧ x.1.isWrite = false
  filled : ∀ e, f ≤ e → e < n → (fifo (e % depth)).valid = true → ∀ x, xs[e]? = some x →
    some (fifo (e % depth)).data = elementValue answers x e

/-- A request that is not done: a read waits for its slot. -/
structure ReqOk (depth : Nat) (xs : List (Stream w × BitVec w)) (n f : Nat) (fifo : Nat → Slot) (req : SsrReq w) :
    Prop where
  lt : req.elem < n
  write : req.isWrite = true → req.slot = none
  read : req.isWrite = false → f ≤ req.elem ∧ req.slot = some (req.elem % depth) ∧
    (fifo (req.elem % depth)).valid = false ∧ ∃ x, xs[req.elem]? = some x ∧ x.2.toNat % 8 = req.offset

/-- The requests that are not done: those that wait for memory, and those it has answered. -/
structure ReqsOk (depth : Nat) (xs : List (Stream w × BitVec w)) (answers : Nat → Option UInt64) (n f : Nat)
    (fifo : Nat → Slot) (waiting answered : List (SsrReq w)) : Prop where
  ok : ∀ req ∈ waiting ++ answered, ReqOk depth xs n f fifo req
  nodup : ((waiting ++ answered).map SsrReq.elem).Nodup
  answered : ∀ req ∈ answered, req.isWrite = false → answers req.elem = some req.data

/-- The accesses and the values of the FP side, at access `r` of element `f`; an element it has begun to read is in the
FIFO. -/
structure FpOk (depth : Nat) (xs : List (Stream w × BitVec w)) (answers : Nat → Option UInt64) (n f r : Nat)
    (fifo : Nat → Slot) (popped : List UInt64) (fpLog : List Bool) : Prop where
  le : f ≤ xs.length
  log : fpLog = fpAccesses (xs.take f) ++ replicate r false
  popped : ∃ v, popped.map some = (xs.zipIdx.take f).flatMap (popsOf answers) ++ replicate r v ∧
    (0 < r → ∃ x, xs[f]? = some x ∧ x.1.isWrite = false ∧ r < x.1.accesses ∧ v = elementValue answers x f ∧ f < n ∧
      (fifo (f % depth)).valid = true)

/-- What holds between events and inside of them, for the address generator at element `n` and the FP side at element
`f`: a request in `waiting` or `answered` is on its way from one list to the next. -/
structure Inv (depth : Nat) (s : Streamer w) (n f : Nat) (waiting answered : List (SsrReq w)) : Prop where
  headOpen : HeadOpen s.jobs
  jobList : ∃ gone, JobList s.launched n f s.repeatCount.toNat gone s.jobs
  fifo : FifoOk depth (elements s.launched) s.answers n f s.fifo
  fifoHead : s.fifoHead = min n f % depth
  fifoTail : s.fifoTail = max n f % depth
  fifoCount : s.fifoCount = max n f - min n f
  reqs : ReqsOk depth (elements s.launched) s.answers n f s.fifo
    (s.deniedReq.toList ++ s.inFlight ++ waiting) (s.syncReqs ++ answered)
  fp : FpOk depth (elements s.launched) s.answers n f s.repeatCount.toNat s.fifo s.popped s.fpLog
  length : s.issued.length = n
  issued : s.issued.map (fun req => (req.isWrite, req.addr, req.size)) = ((elements s.launched).take n).map busAccess
  pushed : (s.issued.filter (·.isWrite)).map (·.data) ++
    (range' n (f - n)).map (fun e => (s.fifo (e % depth)).data) = s.pushed

section Spec

variable {depth n f r : Nat} {xs : List (Stream w × BitVec w)} {answers : Nat → Option UInt64} {fifo : Nat → Slot}
  {popped : List UInt64} {fpLog : List Bool}

theorem fpAccesses_mono {xs xs' : List (Stream w × BitVec w)} (h : xs <+: xs') : fpAccesses xs <+: fpAccesses xs' :=
  h.flatMap _

theorem take_succ_of_getElem? {x : Stream w × BitVec w} (hx : xs[f]? = some x) :
    xs.take (f + 1) = xs.take f ++ [x] := by
  rw [take_add_one, hx]
  rfl

theorem take_zipIdx_succ {x : Stream w × BitVec w} (hx : xs[f]? = some x) :
    xs.zipIdx.take (f + 1) = xs.zipIdx.take f ++ [(x, f)] := by
  rw [take_add_one, getElem?_zipIdx, hx]
  simp

section

variable (h : FpOk depth xs answers n f r fifo popped fpLog)
include h

theorem FpOk.accessOk : AccessOk xs[f]? r := by
  obtain ⟨v, -, hr⟩ := h.popped
  intro hpos
  obtain ⟨x, hx, -, hlt, -⟩ := hr hpos
  exact ⟨x, hx, hlt⟩

theorem FpOk.reads_prefix :
    popped.map some <+: xs.zipIdx.flatMap (popsOf answers) := by
  obtain ⟨v, hpop, hr⟩ := h.popped
  rw [hpop]
  rcases eq_zero_or_pos r with rfl | hpos
  · rw [replicate_zero, append_nil]
    exact ( take_prefix f xs.zipIdx).flatMap _
  · obtain ⟨x, hx, hread, hlt, hv, -⟩ := hr hpos
    have hpops : popsOf answers (x, f) = replicate x.1.accesses v := by rw [popsOf, if_neg (by simp [hread]), hv]
    have hpre := ( take_prefix (f + 1) xs.zipIdx).flatMap (popsOf answers)
    rw [take_zipIdx_succ hx, flatMap_append, flatMap_singleton, hpops] at hpre
    refine IsPrefix.trans ?_ hpre
    rw [prefix_append_right_inj]
    exact prefix_replicate_iff.2 ⟨by simpa using hlt.le, by simp⟩

theorem FpOk.log_lt (hf : f < xs.length) :
    fpLog.length < (fpAccesses (xs.take (f + 1))).length := by
  have hx : xs[f]? = some xs[f] := getElem?_eq_getElem hf
  rw [take_succ_of_getElem? hx, fpAccesses_append, h.log, length_append, length_append]
  apply Nat.add_lt_add_left
  have hacc : (fpAccesses [xs[f]]).length = xs[f].1.accesses := by simp [fpAccesses]
  rw [length_replicate, hacc]
  rcases eq_zero_or_pos r with rfl | hpos
  · exact Stream.accesses_pos _
  · obtain ⟨y, hy, hlt⟩ := h.accessOk hpos
    rw [hx] at hy
    cases hy
    exact hlt

theorem FpOk.accesses_prefix : fpLog <+: fpAccesses xs := by
  rw [h.log]
  rcases eq_zero_or_pos r with rfl | hpos
  · rw [replicate_zero, append_nil]
    exact fpAccesses_mono ( take_prefix _ _)
  · obtain ⟨v, -, hr⟩ := h.popped
    obtain ⟨x, hx, hread, hlt, -⟩ := hr hpos
    have hacc : fpAccesses [x] = replicate x.1.accesses false := by simp [fpAccesses, hread]
    have hpre := fpAccesses_mono ( take_prefix (f + 1) xs)
    rw [take_succ_of_getElem? hx, fpAccesses_append, hacc] at hpre
    refine IsPrefix.trans ?_ hpre
    rw [prefix_append_right_inj]
    exact prefix_replicate_iff.2 ⟨by simpa using hlt.le, by simp⟩

end

theorem Inv.spec {s : Streamer w} (h : Inv depth s n f [] []) (hacc : s.accepted ++ s.deniedReq.toList = s.issued) :
    StreamSpec s := by
  obtain ⟨gone, hlist⟩ := h.jobList
  have hgone : elements s.launched = elements gone ++ jobElements s.jobs := by
    rw [hlist.launched, elements_append]
    rfl
  refine ⟨?_, hacc, ?_, h.fp.reads_prefix, h.fp.accesses_prefix, gone, hlist.launched, h.length ▸ hlist.addr,
    ?_, ?_⟩
  · rw [h.issued]
    exact ( take_prefix _ _).map _
  · rw [← h.pushed]
    exact prefix_append _ _
  · rw [h.fp.log]
    refine IsPrefix.trans (fpAccesses_mono ?_) (prefix_append _ _)
    rw [hgone, take_append, take_of_length_le hlist.fp]
    exact prefix_append _ _
  · rintro job hjob ⟨hn, hf⟩
    rw [h.length] at hn
    obtain ⟨jobs, hjobs⟩ : ∃ jobs, s.jobs = job :: jobs := by
      cases hjs : s.jobs with
      | nil => rw [hjs] at hjob; cases hjob
      | cons j js => rw [hjs] at hjob; cases hjob; exact ⟨js, rfl⟩
    have hok := hlist.jobs
    have hxs : elements s.launched = elements (gone ++ [job.stream]) ++ jobElements jobs := by
      rw [hgone, hjobs, jobElements_cons, elements_append, elements_cons, elements_nil, append_nil,
        append_assoc]
    have hlen : (elements (gone ++ [job.stream])).length = (elements gone).length + job.stream.nest.length := by simp
    rw [hjobs] at hok
    have hdone : job.addrDone = true := by
      cases hd : job.addrDone with
      | true => rfl
      | false => exact absurd (hok.1.not_done hd) (by omega)
    have hpos := hok.1.fp_pos fun hz => h.headOpen job hjob ⟨hz, hdone⟩
    have hr := h.fp.accessOk
    rw [hlist.getElem? hlist.fp, hjobs] at hr
    have hlt := (hok.1.fp_pos_iff hr).1 hpos
    have htake : (elements s.launched).take (f + 1) <+: elements (gone ++ [job.stream]) := by
      rw [hxs, take_append_of_le_length (by omega)]
      exact take_prefix _ _
    have hlog := h.fp.log_lt (by rw [hxs, length_append]; omega)
    have hle := (fpAccesses_mono htake).length_le
    have hle' := hf.length_le
    omega

end Spec

/-! ## Requests and their answers -/

section Requests

variable {depth n f r : Nat} {xs : List (Stream w × BitVec w)} {answers answers' : Nat → Option UInt64}
  {fifo : Nat → Slot} {waiting answered : List (SsrReq w)} {req : SsrReq w}

theorem ReqsOk.perm {waiting' answered' : List (SsrReq w)} (h : ReqsOk depth xs answers n f fifo waiting answered)
    (hw : waiting.Perm waiting') (ha : answered.Perm answered') :
    ReqsOk depth xs answers n f fifo waiting' answered' := by
  have hall := hw.append ha
  refine ⟨fun req hreq => h.ok req (hall.mem_iff.2 hreq), ?_, fun req hreq => h.answered req (ha.mem_iff.2 hreq)⟩
  exact (hall.map _).nodup_iff.1 h.nodup

theorem ReqsOk.answer {req' : SsrReq w} (h : ReqsOk depth xs answers n f fifo (req :: waiting) answered)
    (hok : ReqOk depth xs n f fifo req') (helem : req'.elem = req.elem)
    (hreq : req'.isWrite = false → answers' req'.elem = some req'.data)
    (hne : ∀ e, e ≠ req.elem → answers' e = answers e) :
      ReqsOk depth xs answers' n f fifo waiting (req' :: answered) := by
  have hnodup : ((req' :: (waiting ++ answered)).map SsrReq.elem).Nodup := by
    have hnd := h.nodup
    rwa [cons_append, map_cons, ← helem, ← map_cons] at hnd
  refine ⟨fun r hr => ?_, ?_, fun r hr hread => ?_⟩
  · rcases mem_cons.1 (perm_middle.mem_iff.1 hr) with rfl | hr
    · exact hok
    · exact h.ok r (mem_cons_of_mem _ hr)
  · exact (perm_middle.map _).nodup_iff.2 hnodup
  · rcases mem_cons.1 hr with rfl | hr
    · exact hreq hread
    · rw [hne, h.answered r hr hread]
      intro heq
      rw [map_cons, nodup_cons, helem, ← heq] at hnodup
      exact hnodup.1 (mem_map_of_mem (mem_append_right _ hr))

theorem FifoOk.congr_answers (h : FifoOk depth xs answers n f fifo)
    (heq : ∀ e, f ≤ e → e < n → (fifo (e % depth)).valid = true → answers' e = answers e) :
    FifoOk depth xs answers' n f fifo := by
  refine { h with filled := fun e hf hn hv x hx => ?_ }
  rw [h.filled e hf hn hv x hx, elementValue, elementValue, heq e hf hn hv]

/-- What the FP side has read only depends on the answers for the elements up to its own. -/
theorem FpOk.congr_answers {popped : List UInt64} {fpLog : List Bool}
    (h : FpOk depth xs answers n f r fifo popped fpLog) (hlt : ∀ e, e < f → answers' e = answers e)
    (heq : f < n → (fifo (f % depth)).valid = true → answers' f = answers f) :
    FpOk depth xs answers' n f r fifo popped fpLog := by
  obtain ⟨v, hpop, hr⟩ := h.popped
  refine ⟨h.le, h.log, v, ?_, fun hpos => ?_⟩
  · rw [hpop, flatMap_def, flatMap_def]
    congr 2
    apply map_congr_left
    intro x hx
    have hlt := hlt x.2 (by
      obtain ⟨i, hi, rfl⟩ := mem_take_iff_getElem.1 hx
      rw [getElem_zipIdx]
      simp only
      omega)
    rw [popsOf, popsOf, elementValue, elementValue, hlt]
  · obtain ⟨x, hx, hread, hacc, hv, hfn, hvalid⟩ := hr hpos
    exact ⟨x, hx, hread, hacc, by rw [hv, elementValue, elementValue, heq hfn hvalid], hfn, hvalid⟩

variable {s : Streamer w}

theorem Inv.answer (h : Inv depth s n f (req :: waiting) answered) (data : UInt64) :
    Inv depth (s.answer req data).1 n f waiting ((s.answer req data).2 :: answered) := by
  have hreqs := h.reqs.perm perm_middle (Perm.refl _)
  have hok := hreqs.ok req (by simp)
  rw [Streamer.answer]
  split
  case isTrue hwrite =>
    have hreqs := hreqs.answer hok rfl (fun hread => absurd (hwrite.symm.trans hread) (by simp)) (fun _ _ => rfl)
    exact { h with reqs := hreqs.perm (Perm.refl _) perm_middle.symm }
  case isFalse hread =>
    obtain ⟨hf, -, hinvalid, -⟩ := hok.read (by simpa using hread)
    have hne : ∀ e, e ≠ req.elem → update s.answers req.elem (some data) e = s.answers e :=
      fun e he => update_of_ne he _ _
    have hvalid : ∀ e, (s.fifo (e % depth)).valid = true →
        update s.answers req.elem (some data) e = s.answers e := by
      intro e hv
      apply hne
      rintro rfl
      exact absurd (hv.symm.trans hinvalid) (by simp)
    have hreqs := @ReqsOk.answer _ _ _ _ _ _ _ _ _ _ _ { req with data := data } hreqs { hok with } rfl
      (fun _ => update_self ..) hne
    exact { h with
      fifo := h.fifo.congr_answers fun e _ _ => hvalid e
      fp := h.fp.congr_answers (fun e he => hne e (by omega)) fun _ => hvalid f
      reqs := hreqs.perm (Perm.refl _) perm_middle.symm }

theorem slot_ne {lo e' : Nat} (he : lo ≤ e) (hlt : e < lo + depth) (he' : lo ≤ e') (hlt' : e' < lo + depth)
    (hne : e ≠ e') : e % depth ≠ e' % depth := by
  intro h
  apply hne
  exact Nat.mod_injOn_Ico lo depth (by simpa using ⟨he, hlt⟩) (by simpa using ⟨he', hlt'⟩) h

variable {fifo' : Nat → Slot}

theorem ReqsOk.reqEnd (h : ReqsOk depth xs answers n f fifo waiting (req :: answered))
    (hfifo : ∀ e, f ≤ e → e < n → e ≠ req.elem → fifo' (e % depth) = fifo (e % depth)) :
    ReqsOk depth xs answers n f fifo' waiting answered := by
  have hnodup := (perm_middle.map SsrReq.elem).nodup_iff.1 h.nodup
  rw [map_cons, nodup_cons] at hnodup
  refine ⟨fun r hr => ?_, hnodup.2, fun r hr => h.answered r (mem_cons_of_mem _ hr)⟩
  have hok := h.ok r (perm_middle.mem_iff.2 (mem_cons_of_mem _ hr))
  refine ⟨hok.lt, hok.write, fun hread => ?_⟩
  obtain ⟨hf, hslot, hinvalid, hx⟩ := hok.read hread
  refine ⟨hf, hslot, ?_, hx⟩
  rw [hfifo _ hf hok.lt, hinvalid]
  intro heq
  exact hnodup.1 (heq ▸ mem_map_of_mem hr)

theorem FifoOk.fill (h : FifoOk depth xs answers n f fifo) (hf : f ≤ e) (hn : e < n)
    (hdata : ∀ x, xs[e]? = some x → some slot.data = elementValue answers x e) :
    FifoOk depth xs answers n f (update fifo (e % depth) slot) := by
  have hle := h.le
  refine { h with filled := fun e' hf' hn' hv x hx => ?_ }
  by_cases heq : e' = e
  · subst heq
    rw [update_self]
    exact hdata x hx
  · have hslot : e' % depth ≠ e % depth := slot_ne hf' (by omega) hf (by omega) heq
    rw [update_of_ne hslot] at hv ⊢
    exact h.filled e' hf' hn' hv x hx

theorem FpOk.congr_fifo {popped : List UInt64} {fpLog : List Bool} (h : FpOk depth xs answers n f r fifo popped fpLog)
    (hvalid : f < n → (fifo (f % depth)).valid = true → (fifo' (f % depth)).valid = true) :
    FpOk depth xs answers n f r fifo' popped fpLog := by
  obtain ⟨v, hpop, hr⟩ := h.popped
  refine ⟨h.le, h.log, v, hpop, fun hpos => ?_⟩
  obtain ⟨x, hx, hread, hacc, hv, hfn, hfill⟩ := hr hpos
  exact ⟨x, hx, hread, hacc, hv, hfn, hvalid hfn hfill⟩

theorem Inv.reqEnd (h : Inv depth s n f waiting (req :: answered)) : Inv depth (s.reqEnd req) n f waiting answered := by
  have hreqs := h.reqs.perm (Perm.refl _) perm_middle
  have hok := hreqs.ok req (mem_append_right _ (mem_cons_self ..))
  rw [Streamer.reqEnd]
  cases hslot : req.slot with
  | none => exact { h with reqs := hreqs.reqEnd fun _ _ _ _ => rfl }
  | some slot =>
    have hread : req.isWrite = false := by
      cases hw : req.isWrite with
      | false => rfl
      | true => rw [hok.write hw] at hslot; cases hslot
    obtain ⟨hf, hs, hinvalid, x, hx, hoffset⟩ := hok.read hread
    rw [hslot] at hs
    cases hs
    have hanswer := hreqs.answered req (mem_cons_self ..) hread
    have hle := h.fifo.le
    have hn := hok.lt
    have hother : ∀ v : Slot, ∀ e, f ≤ e → e < n → e ≠ req.elem →
        update s.fifo (req.elem % depth) v (e % depth) = s.fifo (e % depth) := fun v e he hen hne =>
      update_of_ne (slot_ne he (by omega) hf (by omega) hne) _ _
    exact { h with
      reqs := hreqs.reqEnd (hother _)
      fifo := h.fifo.fill hf hn fun y hy => by
        rw [hx] at hy
        cases hy
        rw [elementValue, hanswer, hoffset]
        rfl
      fp := h.fp.congr_fifo fun hfn hv => by
        show (update s.fifo (req.elem % depth) _ (f % depth)).valid = true
        by_cases heq : f = req.elem
        · rw [heq, update_self]
        · rw [hother _ f le_rfl hfn heq, hv]
      pushed := by
        have hpushed := h.pushed
        rw [show f - n = 0 by omega] at hpushed ⊢
        exact hpushed }

theorem Inv.endSync (h : Inv depth s n f [] []) : Inv depth s.endSync n f [] [] := by
  have hfold : ∀ (reqs : List (SsrReq w)) (s : Streamer w), Inv depth s n f [] reqs →
      Inv depth (reqs.foldl Streamer.reqEnd s) n f [] [] := by
    intro reqs
    induction reqs with
    | nil => exact fun s h => h
    | cons req reqs ih => exact fun s h => ih _ h.reqEnd
  apply hfold
  refine { h with reqs := h.reqs.perm (Perm.refl _) ?_ }
  rw [append_nil]
  have hperm := filter_append_perm (fun req : SsrReq w => decide (req.timestamp ≤ s.cycle)) s.syncReqs
  simpa [← decide_not] using (hperm.symm.trans perm_append_comm)

theorem Inv.setTimestamp (h : Inv depth s n f (req :: waiting) answered) (t : Int) :
    Inv depth s n f ({ req with timestamp := t } :: waiting) answered := by
  have hreqs := h.reqs.perm perm_middle (Perm.refl _)
  have hok := hreqs.ok req (mem_cons_self ..)
  have hreqs : ReqsOk depth (elements s.launched) s.answers n f s.fifo
      ({ req with timestamp := t } :: (s.deniedReq.toList ++ s.inFlight ++ waiting)) (s.syncReqs ++ answered) := by
    refine { hreqs with ok := fun r hr => ?_ }
    rcases mem_cons.1 hr with rfl | hr
    · exact { hok with }
    · exact hreqs.ok r (mem_cons_of_mem _ hr)
  exact { h with reqs := hreqs.perm perm_middle.symm (Perm.refl _) }

theorem Inv.send (h : Inv depth s n f [req] []) (hd : s.deniedReq = none) (status : MemStatus) :
    Inv depth (s.send req status) n f [] [] := by
  cases status with
  | done latency data =>
    have h : Inv depth { s with accepted := s.accepted ++ [req] } n f [req] [] := { h with }
    have h := (h.setTimestamp (s.cycle + latency)).answer data
    rw [Streamer.send]
    exact { h with reqs := h.reqs.perm (Perm.refl _) (by rw [append_nil]) }
  | granted =>
    rw [Streamer.send]
    exact { h with reqs := h.reqs.perm (by rw [append_nil, append_assoc]) (Perm.refl _) }
  | denied =>
    have hreqs := h.reqs
    rw [hd] at hreqs
    rw [Streamer.send]
    exact { h with reqs := hreqs.perm (by
      rw [toList_none, nil_append, append_nil]
      exact perm_append_comm) (Perm.refl _) }

theorem Inv.retry (h : Inv depth s n f [] []) (status : MemStatus) : Inv depth (s.retry status) n f [] [] := by
  rw [Streamer.retry]
  cases hd : s.deniedReq with
  | none => exact h
  | some req =>
    have hreqs := h.reqs
    rw [hd] at hreqs
    have h : Inv depth { s with deniedReq := none } n f [req] [] :=
      { h with reqs := hreqs.perm (by
          rw [append_nil]
          exact perm_append_comm) (Perm.refl _) }
    exact h.send rfl status

theorem Inv.response {s' : Streamer w} {k : Nat} (h : Inv depth s n f [] [])
    (hs : s.response k data = some s') : Inv depth s' n f [] [] := by
  obtain ⟨req, hk, rfl⟩ := map_eq_some_iff.1 hs
  have hperm : s.inFlight.Perm (s.inFlight.eraseIdx k ++ [req]) := by
    obtain ⟨hlt, rfl⟩ := List.getElem?_eq_some_iff.1 hk
    exact (getElem_cons_eraseIdx_perm hlt).symm.trans (perm_append_singleton _ _).symm
  have h : Inv depth { s with inFlight := s.inFlight.eraseIdx k } n f [req] [] :=
    { h with reqs := h.reqs.perm (by
        rw [append_nil, append_assoc]
        exact hperm.append_left _) (Perm.refl _) }
  exact (h.answer data).reqEnd

end Requests

/-! ## The address generator -/

section Address

variable {depth n f : Nat} {s : Streamer w} {job : Job w}

/-- The element at the head of the FIFO goes in the direction of the first job. -/
theorem Inv.head (h : Inv depth s n f [] []) {x : Stream w × BitVec w} (hx : (elements s.launched)[min n f]? = some x) :
    ∃ j, s.jobs.head? = some j ∧ j.isWrite = x.1.isWrite := by
  obtain ⟨gone, hlist⟩ := h.jobList
  obtain ⟨j, hj, hst⟩ := hlist.head h.headOpen h.fp.accessOk hx
  exact ⟨j, hj, by rw [Job.isWrite, hst]⟩

theorem Inv.addrJob (h : Inv depth s n f [] []) (hjob : s.addrJob = some job) :
    job.addrDone = false ∧ (elements s.launched)[n]? = some (job.stream, job.ptr) := by
  obtain ⟨gone, hlist⟩ := h.jobList
  rw [hlist.getElem? hlist.addr]
  exact hlist.jobs.addrJob hlist.addr hjob

theorem Inv.addrNext (h : Inv depth s n f [] []) (hjob : s.addrJob = some job) :
    let jobs := updateFirst (!·.addrDone) addrNext s.jobs
    let jobs := if (addrNext job).addrDone then jobCheckEnd jobs else jobs
    HeadOpen jobs ∧ ∃ gone, JobList s.launched (n + 1) f s.repeatCount.toNat gone jobs := by
  obtain ⟨gone, hlist⟩ := h.jobList
  intro jobs
  have hnext : JobList s.launched (n + 1) f s.repeatCount.toNat gone jobs := hlist.addrNext
  cases hd : (Streamer.addrNext job).addrDone with
  | true => exact hnext.checkEnd h.fp.accessOk
  | false =>
    refine ⟨headOpen_updateFirst h.headOpen fun j hj _ hend => ?_, gone, hnext⟩
    rw [show s.jobs.find? _ = some job from hjob] at hj
    cases hj
    rw [hd] at hend
    exact absurd hend.2 (by simp)

theorem ReqsOk.issue {xs : List (Stream w × BitVec w)} {answers : Nat → Option UInt64} {fifo : Nat → Slot}
    {waiting answered : List (SsrReq w)} {req : SsrReq w} (h : ReqsOk depth xs answers n f fifo waiting answered)
    (hreq : ReqOk depth xs (n + 1) f fifo' req) (helem : req.elem = n)
    (hfifo : ∀ e, f ≤ e → e < n → fifo' (e % depth) = fifo (e % depth)) :
    ReqsOk depth xs answers (n + 1) f fifo' (waiting ++ [req]) answered := by
  have hperm : (waiting ++ [req] ++ answered).Perm (req :: (waiting ++ answered)) := by
    rw [append_assoc]
    exact perm_middle
  refine ⟨fun r hr => ?_, ?_, h.answered⟩
  · rcases mem_cons.1 (hperm.mem_iff.1 hr) with rfl | hr
    · exact hreq
    · have hok := h.ok r hr
      refine ⟨Nat.lt_succ_of_lt hok.lt, hok.write, fun hread => ?_⟩
      obtain ⟨hf, hslot, hinvalid, hx⟩ := hok.read hread
      exact ⟨hf, hslot, by rw [hfifo _ hf hok.lt, hinvalid], hx⟩
  · rw [(hperm.map SsrReq.elem).nodup_iff, map_cons, nodup_cons, helem]
    refine ⟨fun hmem => ?_, h.nodup⟩
    obtain ⟨r, hr, hrn⟩ := mem_map.1 hmem
    have := (h.ok r hr).lt
    omega

theorem FifoOk.leave {xs : List (Stream w × BitVec w)} {answers : Nat → Option UInt64} {fifo : Nat → Slot}
    (h : FifoOk depth xs answers n f fifo) (hlt : n < f) : FifoOk depth xs answers (n + 1) f fifo := by
  have hle := h.le
  exact ⟨by omega, fun e hn hf => h.writes e (by omega) hf, fun e hf hn => by omega, fun e hf hn => by omega⟩

theorem FifoOk.reserve {xs : List (Stream w × BitVec w)} {answers : Nat → Option UInt64} {fifo : Nat → Slot}
    {x : Stream w × BitVec w} (h : FifoOk depth xs answers n f fifo) (hle : f ≤ n) (hlt : n - f < depth)
    (hx : xs[n]? = some x) (hread : x.1.isWrite = false) (hslot : slot.valid = false) :
    FifoOk depth xs answers (n + 1) f (update fifo (n % depth) slot) := by
  refine ⟨by omega, fun e hn hf => by omega, fun e hf hn => ?_, fun e hf hn hv y hy => ?_⟩
  · rcases Nat.lt_succ_iff_lt_or_eq.1 hn with hn | rfl
    · exact h.reads e hf hn
    · exact ⟨x, hx, hread⟩
  · rcases Nat.lt_succ_iff_lt_or_eq.1 hn with hn | rfl
    · have hne : e % depth ≠ n % depth := slot_ne hf (by omega) hle (by omega) (by omega)
      rw [update_of_ne hne] at hv ⊢
      exact h.filled e hf hn hv y hy
    · rw [update_self, hslot] at hv
      cases hv

theorem FpOk.addrNext {xs : List (Stream w × BitVec w)} {answers : Nat → Option UInt64} {r : Nat} {fifo : Nat → Slot}
    {popped : List UInt64} {fpLog : List Bool} (h : FpOk depth xs answers n f r fifo popped fpLog) :
    FpOk depth xs answers (n + 1) f r fifo popped fpLog := by
  obtain ⟨v, hpop, hr⟩ := h.popped
  refine ⟨h.le, h.log, v, hpop, fun hpos => ?_⟩
  obtain ⟨x, hx, hread, hacc, hv, hfn, hvalid⟩ := hr hpos
  exact ⟨x, hx, hread, hacc, hv, Nat.lt_succ_of_lt hfn, hvalid⟩

section

variable (h : Inv depth s n f [] [])
include h

theorem Inv.issueWrite (hwrite : job.isWrite = true) (hjob : s.addrJob = some job)
    (hlt : n < f) : Inv depth (s.issue depth job).1 (n + 1) f [(s.issue depth job).2] [] := by
  obtain ⟨hopen, hlist⟩ := h.addrNext hjob
  obtain ⟨-, hx⟩ := h.addrJob hjob
  have hhead : s.fifoHead = n % depth := by rw [h.fifoHead, min_eq_left hlt.le]
  have hreqs := h.reqs
  rw [append_nil] at hreqs
  have haccess : busAccess (job.stream, job.ptr) = (true, job.ptr, 8 - job.ptr.toNat % 8) := if_pos hwrite
  have hpushed := h.pushed
  rw [show f - n = f - (n + 1) + 1 by omega, range'_succ, map_cons, append_cons] at hpushed
  rw [issue, makeReq, if_pos hwrite, hhead]
  exact {
    headOpen := hopen
    jobList := hlist
    fifo := h.fifo.leave hlt
    fifoHead := by
      rw [Nat.mod_add_mod, show min (n + 1) f = n + 1 by omega]
    fifoTail := by rw [show max (n + 1) f = max n f by omega]; exact h.fifoTail
    fifoCount := by
      show s.fifoCount - 1 = _
      rw [h.fifoCount]
      omega
    reqs := hreqs.issue ⟨by simp [h.length], fun _ => rfl, fun hread => by cases hread⟩ h.length fun _ _ _ => rfl
    fp := h.fp.addrNext
    length := by simp [h.length]
    issued := by
      rw [map_append, h.issued, take_succ_of_getElem? hx, map_append, map_singleton, map_singleton,
        haccess]
    pushed := by
      rw [filter_append, map_append]
      exact hpushed }

theorem Inv.issueRead (hread : job.isWrite = false) (hjob : s.addrJob = some job)
    (hle : f ≤ n) (hlt : n - f < depth) : Inv depth (s.issue depth job).1 (n + 1) f [(s.issue depth job).2] [] := by
  obtain ⟨hopen, hlist⟩ := h.addrNext hjob
  obtain ⟨-, hx⟩ := h.addrJob hjob
  have htail : s.fifoTail = n % depth := by rw [h.fifoTail, Nat.max_eq_left hle]
  have hslot : ∀ v : Slot, ∀ e, f ≤ e → e < n →
      update s.fifo (n % depth) v (e % depth) = s.fifo (e % depth) := fun v e hf hn =>
    update_of_ne (slot_ne hf (by omega) hle (by omega) (by omega)) _ _
  have hreqs := h.reqs
  rw [append_nil] at hreqs
  have haccess : busAccess (job.stream, job.ptr) =
      (false, job.ptr - BitVec.ofNat w (job.ptr.toNat % 8), 8) := if_neg (Bool.not_eq_true _ ▸ hread)
  have hpushed := h.pushed
  rw [show f - n = 0 by omega] at hpushed
  rw [issue, makeReq, if_neg (by simp [hread]), htail]
  exact {
    headOpen := hopen
    jobList := hlist
    fifo := h.fifo.reserve hle hlt hx hread rfl
    fifoHead := by rw [show min (n + 1) f = min n f by omega]; exact h.fifoHead
    fifoTail := by
      rw [Nat.mod_add_mod, show max (n + 1) f = n + 1 by omega]
    fifoCount := by
      show s.fifoCount + 1 = _
      rw [h.fifoCount]
      omega
    reqs := by
      refine hreqs.issue ⟨by simp [h.length], fun hwrite => (by cases hwrite), fun _ => ?_⟩ h.length (hslot _)
      rw [h.length]
      refine ⟨hle, rfl, ?_, _, hx, rfl⟩
      show (update s.fifo (n % depth) _ (n % depth)).valid = false
      rw [update_self]
    fp := (h.fp.congr_fifo fun hfn hv => (congrArg Slot.valid (hslot _ f le_rfl hfn)).trans hv).addrNext
    length := by simp [h.length]
    issued := by
      rw [map_append, h.issued, take_succ_of_getElem? hx, map_append, map_singleton, map_singleton,
        haccess]
    pushed := by
      rw [show f - (n + 1) = 0 by omega, filter_append]
      simpa using hpushed }

theorem Inv.startJob :
    Inv depth { s with jobs := updateFirst (!·.addrDone) s.startJob s.jobs } n f [] [] := by
  obtain ⟨gone, hlist⟩ := h.jobList
  exact { h with
    headOpen := headOpen_updateFirst h.headOpen fun _ _ hopen => hopen
    jobList := ⟨gone, hlist.startJob s⟩ }

/-- The current element is accessed: the first job goes in its direction, so the FIFO holds data for a write, and only
reads beside a read. -/
theorem Inv.issue (hjob : s.addrJob = some job)
    (hdir : ∀ j, s.jobs.head? = some j → j.isWrite = job.isWrite) (hready : s.ready depth job = true) :
    Inv depth (s.issue depth job).1 (n + 1) f [(s.issue depth job).2] [] := by
  have hcount := h.fifoCount
  rw [ready] at hready
  cases hw : job.isWrite with
  | true =>
    rw [if_pos hw] at hready
    have hne : s.fifoCount ≠ 0 := by simpa using (Bool.and_eq_true_iff.1 hready).1
    -- the FIFO does not hold reads, as the first job is a write
    have hlt : n < f := by
      apply not_le.1
      intro hle
      obtain ⟨x, hx, hread⟩ := h.fifo.reads f le_rfl (by omega)
      obtain ⟨j, hj, hjx⟩ := h.head (by rw [min_eq_right hle]; exact hx)
      rw [hdir j hj, hw, hread] at hjx
      cases hjx
    exact h.issueWrite hw hjob hlt
  | false =>
    rw [if_neg (by simp [hw])] at hready
    have hne : s.fifoCount ≠ depth := by simpa using hready
    obtain ⟨-, hx⟩ := h.addrJob hjob
    have hle : f ≤ n := by
      apply not_lt.1
      intro hlt
      obtain ⟨x, hx', hwrite⟩ := h.fifo.writes n le_rfl hlt
      rw [hx] at hx'
      cases hx'
      exact absurd (hw.symm.trans hwrite) (by simp)
    have hcap := h.fifo.le
    exact h.issueRead hw hjob hle (by omega)

end

theorem makeReq_deniedReq (s : Streamer w) (job : Job w) : (s.makeReq depth job).1.deniedReq = s.deniedReq := by
  rw [makeReq]
  split <;> rfl

theorem Inv.handle (h : Inv depth s n f [] []) (status : MemStatus) :
    ∃ n, Inv depth (s.handle depth status) n f [] [] := by
  have h := h.endSync
  rw [Streamer.handle]
  generalize s.endSync = s at h
  dsimp only
  split
  case isTrue => exact ⟨n, h⟩
  case isFalse hdenied =>
    split
    case h_1 => exact ⟨n, h⟩
    case h_2 job hjob =>
      have hstart := h.startJob
      have hjob' : Streamer.addrJob { s with jobs := Streamer.updateFirst (!·.addrDone) s.startJob s.jobs } =
          some (s.startJob job) := by
        show (updateFirst (!·.addrDone) s.startJob s.jobs).find? _ = _
        rw [find?_updateFirst (g := s.startJob) fun _ => rfl, show s.jobs.find? _ = some job from hjob]
        rfl
      split
      case isTrue => exact ⟨n, h⟩
      case isFalse hdir =>
        split
        case isTrue => exact ⟨n, hstart⟩
        case isFalse =>
          split
          case isTrue => exact ⟨n, hstart⟩
          case isFalse =>
            split
            case isFalse => exact ⟨n, hstart⟩
            case isTrue hready =>
              have hstreams := @updateFirst_map_stream _ (!·.addrDone) s.startJob s.jobs fun _ => rfl
              refine ⟨n + 1, (hstart.issue hjob' (fun j hj => ?_) hready).send ?_ status⟩
              · have hhead := congrArg head? hstreams
                rw [head?_map, head?_map, show head? _ = some j from hj] at hhead
                obtain ⟨j', hj', hst⟩ := map_eq_some_iff.1 hhead.symm
                rw [hj'] at hdir
                have hdir : j'.isWrite = job.isWrite := by simpa using hdir
                rw [Job.isWrite, hst] at hdir
                exact hdir
              · show (makeReq depth _ _).1.deniedReq = none
                rw [makeReq_deniedReq]
                simpa using hdenied

end Address

/-! ## The FP side -/

section Fp

variable {depth n f r : Nat} {xs : List (Stream w × BitVec w)} {answers : Nat → Option UInt64} {fifo : Nat → Slot}
  {waiting answered : List (SsrReq w)} {popped : List UInt64} {fpLog : List Bool} {x : Stream w × BitVec w}

theorem FifoOk.push (h : FifoOk depth xs answers n f fifo) (hle : n ≤ f) (hlt : f - n < depth)
    (hx : xs[f]? = some x) (hwrite : x.1.isWrite = true) :
    FifoOk depth xs answers n (f + 1) (update fifo (f % depth) slot) := by
  refine ⟨by omega, fun e hn hf => ?_, fun e hf hn => by omega, fun e hf hn => by omega⟩
  rcases Nat.lt_succ_iff_lt_or_eq.1 hf with hf | rfl
  · exact h.writes e hn hf
  · exact ⟨x, hx, hwrite⟩

theorem map_slots_push (hle : n ≤ f) (hlt : f - n < depth) :
    (range' n (f + 1 - n)).map (fun e => (update fifo (f % depth) slot (e % depth)).data) =
      (range' n (f - n)).map (fun e => (fifo (e % depth)).data) ++ [slot.data] := by
  rw [show f + 1 - n = f - n + 1 by omega, range'_1_concat, map_append, map_singleton,
    show n + (f - n) = f by omega, update_self]
  congr 1
  apply map_congr_left
  intro e he
  obtain ⟨hn, hf⟩ := mem_range'_1.1 he
  rw [update_of_ne (slot_ne hn (by omega) hle (by omega) (by omega))]

theorem FifoOk.use (h : FifoOk depth xs answers n f fifo) (hlt : f < n) : FifoOk depth xs answers n (f + 1) fifo := by
  have hle := h.le
  exact ⟨by omega, fun e hn hf => by omega, fun e hf hn => h.reads e (by omega) hn,
    fun e hf hn => h.filled e (by omega) hn⟩

theorem ReqsOk.push (h : ReqsOk depth xs answers n f fifo waiting answered) (hle : n ≤ f) :
    ReqsOk depth xs answers n (f + 1) fifo' waiting answered := by
  refine { h with ok := fun req hreq => ?_ }
  have hok := h.ok req hreq
  refine ⟨hok.lt, hok.write, fun hread => ?_⟩
  obtain ⟨hf, -⟩ := hok.read hread
  have := hok.lt
  omega

theorem ReqsOk.use (h : ReqsOk depth xs answers n f fifo waiting answered) (hvalid : (fifo (f % depth)).valid = true) :
    ReqsOk depth xs answers n (f + 1) fifo waiting answered := by
  refine { h with ok := fun req hreq => ?_ }
  have hok := h.ok req hreq
  refine ⟨hok.lt, hok.write, fun hread => ?_⟩
  obtain ⟨hf, hslot, hinvalid, hx⟩ := hok.read hread
  refine ⟨hf.lt_of_ne ?_, hslot, hinvalid, hx⟩
  rintro rfl
  exact absurd (hvalid.symm.trans hinvalid) (by simp)

theorem FpOk.push (h : FpOk depth xs answers n f 0 fifo popped fpLog) (hx : xs[f]? = some x)
    (hwrite : x.1.isWrite = true) : FpOk depth xs answers n (f + 1) 0 fifo' popped (fpLog ++ [true]) := by
  obtain ⟨hlt, -⟩ := List.getElem?_eq_some_iff.1 hx
  obtain ⟨v, hpop, -⟩ := h.popped
  refine ⟨hlt, ?_, v, ?_, fun hpos => absurd hpos (lt_irrefl 0)⟩
  · rw [h.log, take_succ_of_getElem? hx, fpAccesses_append]
    simp [fpAccesses, Stream.accesses, hwrite]
  · rw [hpop, take_zipIdx_succ hx, flatMap_append]
    simp [popsOf, hwrite]

theorem FpOk.pop (h : FpOk depth xs answers n f r fifo popped fpLog)
    (hx : xs[f]? = some x) (hread : x.1.isWrite = false) (hlt : f < n) (hvalid : (fifo (f % depth)).valid = true)
    (hdata : some data = elementValue answers x f) (hnext : NextAccess xs[f]? f r f' r') :
    FpOk depth xs answers n f' r' fifo (popped ++ [data]) (fpLog ++ [false]) := by
  obtain ⟨hlen, -⟩ := List.getElem?_eq_some_iff.1 hx
  obtain ⟨v, hpop, hr⟩ := h.popped
  have hv : replicate r v = replicate r (elementValue answers x f) := by
    rcases eq_zero_or_pos r with rfl | hpos
    · rfl
    · obtain ⟨y, hy, -, -, rfl, -⟩ := hr hpos
      rw [hx] at hy
      cases hy
      rfl
  have hpopped : (popped ++ [data]).map some =
      (xs.zipIdx.take f).flatMap (popsOf answers) ++ replicate (r + 1) (elementValue answers x f) := by
    rw [map_append, hpop, hv, map_singleton, hdata, append_assoc, replicate_succ']
  have hlog : fpLog ++ [false] = fpAccesses (xs.take f) ++ replicate (r + 1) false := by
    rw [h.log, append_assoc, replicate_succ']
  cases hnext with
  | again hy hacc =>
    rw [hx] at hy
    cases hy
    exact ⟨h.le, hlog, _, hpopped, fun _ => ⟨x, hx, hread, hacc, rfl, hlt, hvalid⟩⟩
  | next hy hacc =>
    rw [hx] at hy
    cases hy
    refine ⟨hlen, ?_, none, ?_, fun hpos => absurd hpos (lt_irrefl 0)⟩
    · rw [hlog, take_succ_of_getElem? hx, fpAccesses_append]
      simp [fpAccesses, hread, hacc]
    · rw [hpopped, take_zipIdx_succ hx, flatMap_append]
      simp [popsOf, hread, hacc]

variable {s s' : Streamer w}

theorem Inv.fpJob {job : Job w} (h : Inv depth s n f [] []) (hjob : s.fpJob = some job) :
    ∃ a, (elements s.launched)[f]? = some (job.stream, a) := by
  obtain ⟨gone, hlist⟩ := h.jobList
  have hr := h.fp.accessOk
  rw [hlist.getElem? hlist.fp] at hr ⊢
  exact hlist.jobs.fpJob hlist.fp hr hjob

theorem Inv.fpAccess (h : Inv depth s n f [] []) (hnext : NextAccess
    (elements s.launched)[f]? f s.repeatCount.toNat f' r') (hr' : AccessOk (elements s.launched)[f']? r') :
    let jobs := jobCheckEnd (updateFirst (·.fpRemaining > 0) Streamer.fpAccess s.jobs)
    HeadOpen jobs ∧ ∃ gone, JobList s.launched n f' r' gone jobs := by
  obtain ⟨gone, hlist⟩ := h.jobList
  exact (hlist.fpAccess h.fp.accessOk hnext).checkEnd hr'

theorem Inv.push {readyCycle : Int} (h : Inv depth s n f [] [])
    (hs : s.push depth data readyCycle = some s') : Inv depth s' n (f + 1) [] [] := by
  rw [Streamer.push, Streamer.canWrite] at hs
  cases hjob : s.fpJob with
  | none => rw [hjob] at hs; cases hs
  | some job =>
    rw [hjob] at hs
    dsimp only at hs
    split at hs
    case isFalse => cases hs
    case isTrue hcan =>
      cases hs
      obtain ⟨hw, hroom⟩ := Bool.and_eq_true_iff.1 hcan
      have hroom : s.fifoCount < depth := by simpa using hroom
      obtain ⟨a, hx⟩ := h.fpJob hjob
      have hcount := h.fifoCount
      have hle : n ≤ f := by
        apply not_lt.1
        intro hlt
        obtain ⟨y, hy, hread⟩ := h.fifo.reads f le_rfl hlt
        rw [hx] at hy
        cases hy
        exact absurd (hw.symm.trans hread) (by simp)
      have hr : s.repeatCount.toNat = 0 := by
        apply Nat.eq_zero_of_not_pos
        intro hpos
        obtain ⟨v, -, hr⟩ := h.fp.popped
        obtain ⟨_, _, _, _, _, hlt, _⟩ := hr hpos
        omega
      have hfp := h.fp
      rw [hr] at hfp
      have hfp := @FpOk.push _ _ _ _ _ _ _ _ _ _ (update s.fifo s.fifoTail ⟨data, true, readyCycle⟩) hfp hx hw
      have hnext : NextAccess (elements s.launched)[f]? f s.repeatCount.toNat (f + 1) 0 :=
        .next hx (by rw [hr]; exact (if_pos hw).symm)
      obtain ⟨hopen, hlist⟩ := h.fpAccess hnext fun hpos => absurd hpos (lt_irrefl 0)
      have htail : s.fifoTail = f % depth := by rw [h.fifoTail, Nat.max_eq_right hle]
      exact {
        headOpen := hopen
        jobList := by rw [hr]; exact hlist
        fifo := by rw [htail]; exact h.fifo.push hle (by omega) hx hw
        fifoHead := by rw [show min n (f + 1) = min n f by omega]; exact h.fifoHead
        fifoTail := by
          rw [htail, Nat.mod_add_mod, show max n (f + 1) = f + 1 by omega]
        fifoCount := by
          show s.fifoCount + 1 = _
          omega
        reqs := h.reqs.push hle
        fp := by rw [hr]; exact hfp
        length := h.length
        issued := h.issued
        pushed := by
          rw [← h.pushed, htail, append_assoc]
          exact congrArg _ (map_slots_push hle (by omega)) }

/-- A pop that finds a read stream first in the job list, when the count of the accesses to one element does not
overflow; a launch of a stream whose accesses an `int64_t` can count. -/
def CleanStep (s : Streamer w) : Event w → Prop
  | .pop insnId => insnId ≠ s.lastPopId → s.jobs.head?.any (!·.isWrite) = true ∧ s.repeatCount + 1 ≠ 0
  | .cfgWrite reg value => regRptr ≤ reg ∧ reg < regWptr + 4 → (s.streamAt reg value).total < 2 ^ 63
  | _ => True

theorem toNat_add_one {x : BitVec w} (h : x + 1 ≠ 0) : (x + 1).toNat = x.toNat + 1 := by
  have hadd : (x + 1).toNat = (x.toNat + 1) % 2 ^ w := by
    rw [BitVec.toNat_add, show (1 : BitVec w) = BitVec.ofNat w 1 from rfl, BitVec.toNat_ofNat, Nat.add_mod_mod]
  have hlt := x.isLt
  rw [hadd]
  apply Nat.mod_eq_of_lt
  apply not_le.1
  intro hge
  apply h
  apply BitVec.eq_of_toNat_eq
  rw [hadd, show x.toNat + 1 = 2 ^ w by omega, Nat.mod_self]
  rfl

/-- A pop that reads the element of the FP side, which goes on to access `r'` of element `f'`. -/
theorem Inv.popAt {count : BitVec w} {head left : Nat}
    (h : Inv depth s n f [] []) (hx : (elements s.launched)[f]? = some x) (hread : x.1.isWrite = false) (hlt : f < n)
    (hvalid : (s.fifo (f % depth)).valid = true) (hdata : (s.fifo (f % depth)).data = data)
    (hnext : NextAccess (elements s.launched)[f]? f s.repeatCount.toNat f' r') (hr' : count.toNat = r')
      (hhead : head = f' % depth)
    (hleft : left = n - f') :
    Inv depth { s with
      lastPopId := insnId
      lastPopData := data
      popped := s.popped ++ [data]
      fpLog := s.fpLog ++ [false]
      repeatCount := count
      fifoHead := head
      fifoCount := left
      jobs := Streamer.jobCheckEnd (Streamer.updateFirst (·.fpRemaining > 0) Streamer.fpAccess s.jobs) } n
        f' [] [] := by
  have hvalue : some data = elementValue s.answers x f := by
    rw [← hdata]
    exact h.fifo.filled f le_rfl hlt hvalid x hx
  have hfp := h.fp.pop hx hread hlt hvalid hvalue hnext
  obtain ⟨hopen, hlist⟩ := h.fpAccess hnext hfp.accessOk
  have hle : f' ≤ n := by cases hnext <;> omega
  exact {
    headOpen := hopen
    jobList := by rw [hr']; exact hlist
    fifo := by cases hnext with
      | again => exact h.fifo
      | next => exact h.fifo.use hlt
    fifoHead := by rw [min_eq_right hle]; exact hhead
    fifoTail := by
      rw [Nat.max_eq_left hle, ← Nat.max_eq_left hlt.le]
      exact h.fifoTail
    fifoCount := by
      rw [Nat.max_eq_left hle, min_eq_right hle]
      exact hleft
    reqs := by cases hnext with
      | again => exact h.reqs
      | next => exact h.reqs.use hvalid
    fp := by rw [hr']; exact hfp
    length := h.length
    issued := h.issued
    pushed := by
      have hpushed := h.pushed
      rw [show f - n = 0 by omega] at hpushed
      rw [show f' - n = 0 by omega]
      exact hpushed }

theorem Inv.pop (h : Inv depth s n f [] []) (hclean : CleanStep s (.pop insnId))
    (hs : s.pop depth insnId = some (s', data)) : ∃ f, Inv depth s' n f [] [] := by
  rw [Streamer.pop] at hs
  split at hs
  case isTrue => cases hs; exact ⟨f, h⟩
  case isFalse hid =>
    obtain ⟨hfirst, hwrap⟩ := hclean hid
    obtain ⟨first, hhead, hread⟩ := (Option.any_eq_true _ _).1 hfirst
    have hread : first.isWrite = false := by simpa using hread
    rw [canRead] at hs
    cases hjob : s.fpJob with
    | none => rw [hjob] at hs; cases hs
    | some job =>
      rw [hjob] at hs
      dsimp only at hs
      split at hs
      case isFalse => cases hs
      case isTrue hcan =>
        simp only [Bool.and_eq_true, Bool.not_eq_true', decide_eq_true_eq] at hcan
        obtain ⟨⟨⟨hw, hne⟩, hvalid⟩, -⟩ := hcan
        have hcount := h.fifoCount
        obtain ⟨a, hx⟩ := h.fpJob hjob
        -- the FIFO does not hold pushed data, as the first job is a read
        have hlt : f < n := by
          apply not_le.1
          intro hle
          obtain ⟨y, hy, hwrite⟩ := h.fifo.writes n le_rfl (by omega)
          obtain ⟨j, hj, hjy⟩ := h.head (by rw [min_eq_left hle]; exact hy)
          rw [hhead] at hj
          cases hj
          rw [hread, hwrite] at hjy
          cases hjy
        have hfifoHead : s.fifoHead = f % depth := by rw [h.fifoHead, min_eq_right hlt.le]
        have hr : s.repeatCount.toNat < job.stream.accesses := by
          rcases eq_zero_or_pos s.repeatCount.toNat with hzero | hpos
          · rw [hzero]
            exact job.stream.accesses_pos
          · obtain ⟨y, hy, hry⟩ := h.fp.accessOk hpos
            rw [hx] at hy
            cases hy
            exact hry
        have haccesses : job.stream.accesses = job.stream.reps.toNat + 1 := if_neg (Bool.not_eq_true _ ▸ hw)
        rw [hfifoHead] at hvalid hs
        have hleft : s.fifoCount = n - f := by omega
        by_cases hfinal : s.repeatCount + 1 > job.stream.reps
        · have hlast : s.repeatCount.toNat + 1 = job.stream.accesses := by
            have hgt : job.stream.reps.toNat < (s.repeatCount + 1).toNat := hfinal
            rw [toNat_add_one hwrap] at hgt
            omega
          rw [decide_eq_true hfinal] at hs
          cases hs
          exact ⟨f + 1, h.popAt hx hw hlt hvalid rfl (.next hx hlast) rfl (Nat.mod_add_mod ..)
            (by rw [if_pos rfl, hleft, Nat.sub_sub])⟩
        · have hmore : s.repeatCount.toNat + 1 < job.stream.accesses := by
            have hle : (s.repeatCount + 1).toNat ≤ job.stream.reps.toNat := not_lt.1 hfinal
            rw [toNat_add_one hwrap] at hle
            omega
          rw [decide_eq_false hfinal] at hs
          cases hs
          exact ⟨f, h.popAt hx hw hlt hvalid rfl (.again hx hmore) (toNat_add_one hwrap) rfl hleft⟩

end Fp

/-! ## Launches and runs -/

section Runs

variable {depth n f r : Nat} {xs ys : List (Stream w × BitVec w)} {answers : Nat → Option UInt64} {fifo : Nat → Slot}

theorem getElem?_of_prefix {x y : Stream w × BitVec w} (hx : xs[e]? = some x) (hy : (xs ++ ys)[e]? = some y) :
    x = y := by
  obtain ⟨hlt, -⟩ := List.getElem?_eq_some_iff.1 hx
  rw [getElem?_append_left hlt, hx] at hy
  exact Option.some.inj hy

theorem getElem?_append_of_some {x : Stream w × BitVec w} (hx : xs[e]? = some x) :
    (xs ++ ys)[e]? = some x := by
  obtain ⟨hlt, -⟩ := List.getElem?_eq_some_iff.1 hx
  rw [getElem?_append_left hlt, hx]

theorem FifoOk.append (h : FifoOk depth xs answers n f fifo) : FifoOk depth (xs ++ ys) answers n f fifo := by
  refine ⟨h.le, fun e hn hf => ?_, fun e hf hn => ?_, fun e hf hn hv y hy => ?_⟩
  · obtain ⟨x, hx, hw⟩ := h.writes e hn hf
    exact ⟨x, getElem?_append_of_some hx, hw⟩
  · obtain ⟨x, hx, hw⟩ := h.reads e hf hn
    exact ⟨x, getElem?_append_of_some hx, hw⟩
  · obtain ⟨x, hx, -⟩ := h.reads e hf hn
    rw [← getElem?_of_prefix hx hy]
    exact h.filled e hf hn hv x hx

theorem ReqsOk.append {waiting answered : List (SsrReq w)} (h : ReqsOk depth xs answers n f fifo waiting answered) :
    ReqsOk depth (xs ++ ys) answers n f fifo waiting answered := by
  refine { h with ok := fun req hreq => ?_ }
  have hok := h.ok req hreq
  refine ⟨hok.lt, hok.write, fun hread => ?_⟩
  obtain ⟨hf, hslot, hinvalid, x, hx, hoffset⟩ := hok.read hread
  exact ⟨hf, hslot, hinvalid, x, getElem?_append_of_some hx, hoffset⟩

theorem FpOk.append {popped : List UInt64} {fpLog : List Bool} (h : FpOk depth xs answers n f r fifo popped fpLog) :
    FpOk depth (xs ++ ys) answers n f r fifo popped fpLog := by
  obtain ⟨v, hpop, hr⟩ := h.popped
  refine ⟨by rw [length_append]; exact Nat.le_add_right_of_le h.le, ?_, v, ?_, fun hpos => ?_⟩
  · rw [take_append_of_le_length h.le]
    exact h.log
  · rw [zipIdx_append, take_append_of_le_length (by rw [length_zipIdx]; exact h.le)]
    exact hpop
  · obtain ⟨x, hx, hrest⟩ := hr hpos
    exact ⟨x, getElem?_append_of_some hx, hrest⟩

variable {s s' : Streamer w}

theorem Inv.le (h : Inv depth s n f [] []) : n ≤ (elements s.launched).length := by
  have hlen := congrArg List.length h.issued
  rw [length_map, length_map, length_take, h.length] at hlen
  omega

theorem Inv.launch (h : Inv depth s n f [] []) (st : Stream w) (hfits : st.total < 2 ^ 63) :
    Inv depth { s with jobs := s.jobs ++ [newJob st], launched := s.launched ++ [st] } n f [] [] := by
  obtain ⟨gone, hlist⟩ := h.jobList
  have hxs : elements (s.launched ++ [st]) = elements s.launched ++ st.elements := by
    rw [elements_append, elements_cons, elements_nil, append_nil]
  have hf : (elements s.launched).length ≤ f → f = (elements s.launched).length ∧ s.repeatCount.toNat = 0 := by
    intro hle
    refine ⟨h.fp.le.antisymm hle, Nat.eq_zero_of_not_pos fun hpos => ?_⟩
    obtain ⟨x, hx, -⟩ := h.fp.accessOk hpos
    rw [getElem?_eq_none hle] at hx
    cases hx
  exact { h with
    headOpen := by
      intro job hjob
      cases hjobs : s.jobs with
      | nil =>
        rw [hjobs] at hjob
        cases hjob
        rintro ⟨-, hdone⟩
        cases hdone
      | cons j js =>
        rw [hjobs] at hjob
        exact h.headOpen job (by rw [hjobs]; exact hjob)
    jobList := ⟨gone, hlist.launch h.le hf st hfits⟩
    fifo := by rw [hxs]; exact h.fifo.append
    reqs := by rw [hxs]; exact h.reqs.append
    fp := by rw [hxs]; exact h.fp.append
    issued := by rw [hxs, take_append_of_le_length h.le]; exact h.issued }

theorem Inv.cfgWrite {reg : Int} {value : BitVec w} (h : Inv depth s n f [] [])
    (hclean : CleanStep s (.cfgWrite reg value)) (hs : s.cfgWrite reg value = some s') : Inv depth s' n f [] [] := by
  rw [Streamer.cfgWrite] at hs
  split at hs
  · cases hs; exact { h with }
  split at hs
  · cases hs; exact { h with }
  split at hs
  · cases hs; exact { h with }
  split at hs
  case isTrue hptr =>
    split at hs
    · cases hs
    · cases hs; exact h.launch _ (hclean hptr)
  case isFalse => cases hs; exact h

theorem Inv.init : Inv depth (init depth : Streamer w) 0 0 [] [] where
  headOpen := fun job hjob => by cases hjob
  jobList := ⟨[], rfl, le_refl 0, le_refl 0, trivial⟩
  fifo := ⟨by simp, fun e _ hf => absurd hf (by simp), fun e _ hn => absurd hn (by simp),
    fun e _ hn => absurd hn (by simp)⟩
  fifoHead := (Nat.zero_mod depth).symm
  fifoTail := (Nat.zero_mod depth).symm
  fifoCount := rfl
  reqs := ⟨fun req hreq => (by cases hreq), nodup_nil, fun req hreq => (by cases hreq)⟩
  fp := ⟨Nat.zero_le _, rfl, none, rfl, fun hpos => absurd hpos (by simp [Streamer.init])⟩
  length := rfl
  issued := rfl
  pushed := rfl

/-! The requests the memory has accepted, with the one it has denied, are the ones issued. -/

/-- The denied request waits behind those that have been accepted. -/
def Sent (s : Streamer w) : Prop := s.accepted ++ s.deniedReq.toList = s.issued

theorem sent_send {req : SsrReq w} (hd : s.deniedReq = none) (h : s.accepted ++ [req] = s.issued)
    (status : MemStatus) : Sent (s.send req status) := by
  cases status with
  | done latency data => cases hw : req.isWrite <;> simpa [Sent, send, answer, hw, hd] using h
  | granted => simpa [Sent, send, hd] using h
  | denied => simpa [Sent, send] using h

theorem sent_endSync (h : Sent s) : Sent s.endSync := by
  have hfold : ∀ (reqs : List (SsrReq w)) (s : Streamer w), Sent s → Sent (reqs.foldl reqEnd s) := by
    intro reqs
    induction reqs with
    | nil => exact fun s h => h
    | cons req reqs ih => exact fun s h => ih _ h
  exact hfold _ _ h

theorem sent_handle (h : Sent s) (status : MemStatus) : Sent (s.handle depth status) := by
  have h := sent_endSync h
  rw [handle]
  generalize s.endSync = s at h
  dsimp only
  split
  case isTrue => exact h
  case isFalse hdenied =>
    split
    case h_1 => exact h
    case h_2 job _ =>
      have hnone : s.deniedReq = none := by simpa using hdenied
      have h : s.accepted = s.issued := by simpa [Sent, hnone] using h
      have hsent : Sent { s with jobs := updateFirst (!·.addrDone) s.startJob s.jobs } := by
        simpa [Sent, hnone] using h
      split
      case isTrue => simpa [Sent, hnone] using h
      case isFalse =>
        split
        case isTrue => exact hsent
        case isFalse =>
          split
          case isTrue => exact hsent
          case isFalse =>
            split
            case isFalse => exact hsent
            case isTrue =>
              apply sent_send
              · show (makeReq depth _ _).1.deniedReq = none
                rw [makeReq_deniedReq]
                exact hnone
              · show (makeReq depth _ _).1.accepted ++ _ = (makeReq depth _ _).1.issued ++ _
                rw [makeReq]
                split <;> exact congrArg (· ++ _) h

theorem Inv.step {e : Event w} (h : Inv depth s n f [] []) (hclean : CleanStep s e) (hs : step depth s e = some s') :
    ∃ n f, Inv depth s' n f [] [] := by
  cases e with
  | cycle => cases hs; exact ⟨n, f, { h with }⟩
  | cfgWrite reg value => exact ⟨n, f, h.cfgWrite hclean hs⟩
  | pop insnId =>
    obtain ⟨⟨s₁, data⟩, hpop, rfl⟩ := map_eq_some_iff.1 hs
    exact ⟨n, h.pop hclean hpop⟩
  | push data readyCycle => exact ⟨n, f + 1, h.push hs⟩
  | handle status =>
    cases hs
    obtain ⟨n', h'⟩ := h.handle status
    exact ⟨n', f, h'⟩
  | retry status => cases hs; exact ⟨n, f, h.retry status⟩
  | response k data => exact ⟨n, f, h.response hs⟩

theorem sent_step {e : Event w} (h : Sent s) (hs : step depth s e = some s') : Sent s' := by
  cases e with
  | cycle => cases hs; exact h
  | cfgWrite reg value =>
    rw [step, cfgWrite] at hs
    split_ifs at hs <;> cases hs <;> exact h
  | pop insnId =>
    obtain ⟨⟨s₁, data⟩, hpop, rfl⟩ := map_eq_some_iff.1 hs
    rw [pop] at hpop
    split at hpop
    · cases hpop; exact h
    split at hpop
    · split at hpop
      · cases hpop
      · cases hpop; exact h
    · cases hpop
  | push data readyCycle =>
    rw [step, push] at hs
    split at hs
    · cases hs; exact h
    · cases hs
  | handle status => cases hs; exact sent_handle h status
  | retry status =>
    cases hs
    rw [retry]
    cases hd : s.deniedReq with
    | none => exact h
    | some req =>
      apply sent_send
      · rfl
      · rwa [Sent, hd] at h
  | response k data =>
    obtain ⟨req, -, rfl⟩ := map_eq_some_iff.1 hs
    cases hw : req.isWrite <;> simpa [Sent, answer, reqEnd, hw] using h

/-- **The streams of a data mover move their elements**, in every run in which each pop that reads an element finds a
read stream first in the job list, and is not the `2 ^ w`-th access to it, and each launched stream makes fewer than
`2 ^ 63` accesses. -/
theorem ssr_streams (depth : Nat) {es : List (Event w)}
    (hclean : AllSteps (step depth) CleanStep (Streamer.init depth) es)
    {s : Streamer w} (hrun : run (step depth) (Streamer.init depth) es = some s) : StreamSpec s := by
  have hinv : (∃ n f, Inv depth s n f [] []) ∧ Sent s := by
    refine run_inv (I := fun s => (∃ n f, Inv depth s n f [] []) ∧ Sent s) (fun s e s' h hP hs => ?_)
      ⟨⟨0, 0, Inv.init⟩, rfl⟩ hclean hrun
    obtain ⟨⟨n, f, hinv⟩, hsent⟩ := h
    exact ⟨hinv.step hP hs, sent_step hsent hs⟩
  obtain ⟨⟨n, f, hinv⟩, hsent⟩ := hinv
  exact hinv.spec hsent

/-! A read of one word on the 32-bit core, then a write that waits behind it. -/

instance (s : Streamer w) (e : Event w) : Decidable (CleanStep s e) := by
  cases e <;> unfold CleanStep <;> infer_instance

def readThenWrite : List (Event 32) :=
  [.cfgWrite 24 0x1004, .cfgWrite 28 0x2000, .handle .granted, .cycle, .handle .denied, .retry .granted,
    .response 0 0x1122334455667788, .cycle, .pop 1, .pop 1, .push 42 0, .handle .granted, .cycle, .handle (.done 1 0)]

theorem ssr_streams_readThenWrite : ∃ s : Streamer 32,
    run (step 4) (Streamer.init 4) readThenWrite = some s ∧ s.popped = [0x11223344] ∧ StreamSpec s := by
  have hrun : (run (step 4) (init 4) readThenWrite).map (·.popped) = some [0x11223344] := by decide +kernel
  obtain ⟨s, hs, hpopped⟩ := map_eq_some_iff.1 hrun
  exact ⟨s, hs, hpopped, ssr_streams 4 (by decide +kernel) hs⟩

/-- A write of one word, then a read that waits behind it: the pop of the read gets the pushed data, before anything
has been requested. -/
theorem ssr_pop_of_write : ∃ (es : List (Event 32)) (s : Streamer 32),
    run (step 4) (Streamer.init 4) es = some s ∧ s.issued.length = 0 ∧ s.pushed = [42] ∧ s.popped = [42] ∧
      ¬StreamSpec s := by
  let es : List (Event 32) := [.cfgWrite 28 0x1000, .cfgWrite 24 0x2000, .push 42 0, .pop 1]
  have hrun : (run (step 4) (init 4) es).map (fun s => (s.issued.length, s.pushed, s.popped,
      (elements s.launched).zipIdx.flatMap (popsOf s.answers))) = some (0, [42], [42], [none]) := by decide +kernel
  obtain ⟨s, hs, hstate⟩ := map_eq_some_iff.1 hrun
  simp only [Prod.mk.injEq] at hstate
  obtain ⟨hissued, hpushed, hpopped, hreads⟩ := hstate
  refine ⟨es, s, hs, hissued, hpushed, hpopped, fun hspec => ?_⟩
  have hpre := hspec.reads
  rw [hpopped, hreads] at hpre
  exact absurd hpre (by decide)

end Runs

end GvsocPulp.Snitchv2
