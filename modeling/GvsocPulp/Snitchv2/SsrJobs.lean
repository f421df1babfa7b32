import GvsocPulp.Snitchv2.Ssr

/-!
# The job list of an SSR data mover

The elements of the launched streams, one stream after the other, are walked twice: by the address generator, which is
at element `n`, and by the FP side, which is at access `r` of element `f`. Where each job is follows from these.

- `JobList`: the job list against the launched streams; `JobList.checkEnd`: it stays so when streams leave;
- `JobsOk.addrJob`, `JobsOk.fpJob`: the current job of a side is the one its element belongs to;
- `JobsOk.addrNext`, `JobsOk.fpAccess`: the steps of the sides.
-/

namespace GvsocPulp.Snitchv2

open Lib List Snitchv2.Stream Streamer

variable {w : Nat}

variable {e f' r' : Nat} {p : Job w → Bool} {g : Job w → Job w}

/-! ## Elements -/

def Stream.elements (st : Stream w) : List (Stream w × BitVec w) := st.nest.map fun a => (st, a)

def elements (sts : List (Stream w)) : List (Stream w × BitVec w) := sts.flatMap Stream.elements

open Streamer (newJob jobCheckEnd)

theorem walks_newJob (st : Stream w) : Walks (newJob st).loops (newJob st).ptr st.nest := by
  have h := walks_nest (newJob st).loops st.ptr
  have hloops : restart (newJob st).loops = (newJob st).loops := by
    simp [restart, newJob]
  rw [hloops] at h
  simpa [Stream.nest, newJob, Function.comp_def] using h

theorem Stream.nest_ne_nil (st : Stream w) : st.nest ≠ [] := (walks_newJob st).ne_nil

theorem Stream.nest_pos (st : Stream w) : 0 < st.nest.length := length_pos_of_ne_nil st.nest_ne_nil

theorem Stream.accesses_pos (st : Stream w) : 0 < st.accesses := by
  rw [accesses]
  split <;> omega

@[simp] theorem Stream.elements_length (st : Stream w) : st.elements.length = st.nest.length := length_map _

@[simp] theorem elements_nil : elements ([] : List (Stream w)) = [] := rfl

@[simp] theorem elements_cons (st : Stream w) (sts : List (Stream w)) :
    elements (st :: sts) = st.elements ++ elements sts := rfl

@[simp] theorem elements_append (sts sts' : List (Stream w)) :
    elements (sts ++ sts') = elements sts ++ elements sts' := flatMap_append

/-! ## The job list -/

/-- A job whose first element is element `b`, with the address generator at element `n` and the FP side at access `r` of
element `f`. -/
structure JobOk (n f r b : Nat) (job : Job w) : Prop where
  done : job.addrDone = true → b + job.stream.nest.length ≤ n
  walk : job.addrDone = false → Walks job.loops job.ptr (job.stream.nest.drop (n - b))
  fp : job.fpRemaining = ((job.stream.nest.length - (f - b)) * job.stream.accesses - if b ≤ f then r else 0 : Nat)

/-- The jobs from element `b` on. -/
def JobsOk (n f r : Nat) : Nat → List (Job w) → Prop
  | _, [] => True
  | b, job :: jobs => JobOk n f r b job ∧ JobsOk n f r (b + job.stream.nest.length) jobs

def jobElements (jobs : List (Job w)) : List (Stream w × BitVec w) := elements (jobs.map Job.stream)

/-- The access number is one of the element, or none has been made. -/
def AccessOk (x : Option (Stream w × BitVec w)) (r : Nat) : Prop := 0 < r → ∃ y, x = some y ∧ r < y.1.accesses

section Jobs

variable {n f r b : Nat} {job : Job w} {jobs : List (Job w)}

theorem JobOk.not_done (h : JobOk n f r b job) (hd : job.addrDone = false) : n < b + job.stream.nest.length := by
  have hne := (h.walk hd).ne_nil
  rw [Ne, drop_eq_nil_iff] at hne
  omega

theorem JobOk.fp_pos (h : JobOk n f r b job) (hne : job.fpRemaining ≠ 0) : 0 < job.fpRemaining :=
  lt_of_le_of_ne (h.fp ▸ Int.natCast_nonneg _) hne.symm

theorem JobOk.fp_pos_iff (h : JobOk n f r b job) {rest : List (Stream w × BitVec w)}
    (hr : AccessOk ((job.stream.elements ++ rest)[f - b]?) r) :
    0 < job.fpRemaining ↔ f < b + job.stream.nest.length := by
  have hacc := job.stream.accesses_pos
  rw [h.fp, Int.natCast_pos]
  constructor
  · intro hpos
    apply not_le.1
    intro hle
    rw [show job.stream.nest.length - (f - b) = 0 by omega, zero_mul, Nat.zero_sub] at hpos
    exact lt_irrefl _ hpos
  · intro hlt
    have hmul : job.stream.accesses ≤ (job.stream.nest.length - (f - b)) * job.stream.accesses :=
      Nat.le_mul_of_pos_left _ (by have := job.stream.nest_pos; omega)
    split
    case isTrue hb =>
      rcases eq_zero_or_pos r with rfl | hpos
      · omega
      · obtain ⟨y, hy, hry⟩ := hr hpos
        rw [getElem?_append_left (by simp; omega), Stream.elements, getElem?_map] at hy
        obtain ⟨a, -, rfl⟩ := Option.map_eq_some_iff.1 hy
        simp only at hry
        omega
    case isFalse => omega

theorem jobElements_cons (job : Job w) (jobs : List (Job w)) :
    jobElements (job :: jobs) = job.stream.elements ++ jobElements jobs := rfl

theorem getElem?_jobElements_head (hb : b ≤ e) (he : e < b + job.stream.nest.length) :
    ∃ a, job.stream.nest[e - b]? = some a ∧ (jobElements (job :: jobs))[e - b]? = some (job.stream, a) := by
  have hlt : e - b < job.stream.nest.length := by omega
  refine ⟨job.stream.nest[e - b], getElem?_eq_getElem hlt, ?_⟩
  rw [jobElements_cons, getElem?_append_left (by simpa using hlt), Stream.elements, getElem?_map,
    getElem?_eq_getElem hlt]
  rfl

theorem getElem?_jobElements_tail (he : b + job.stream.nest.length ≤ e) :
    (jobElements (job :: jobs))[e - b]? = (jobElements jobs)[e - (b + job.stream.nest.length)]? := by
  rw [jobElements_cons, getElem?_append_right (by simp; omega), elements_length]
  congr 1
  omega

section

variable (h : JobsOk n f r b jobs)
include h

theorem JobsOk.addr_ahead {n' : Nat} (hn : n ≤ b) (hn' : n' ≤ b) : JobsOk n' f r b jobs := by
  induction jobs generalizing b with
  | nil => trivial
  | cons job jobs ih =>
    obtain ⟨hok, hrest⟩ := h
    have hlen := job.stream.nest_pos
    refine ⟨⟨fun hd => ?_, fun hd => ?_, hok.fp⟩, ih hrest (by omega) (by omega)⟩
    · have := hok.done hd
      omega
    · have hwalk := hok.walk hd
      rwa [show n - b = n' - b by omega] at hwalk

theorem JobsOk.fp_ahead (hf : b ≤ f → f = b ∧ r = 0) (hf' : b ≤ f' → f' = b ∧ r' = 0) : JobsOk n f' r' b jobs := by
  induction jobs generalizing b with
  | nil => trivial
  | cons job jobs ih =>
    obtain ⟨hok, hrest⟩ := h
    have hlen := job.stream.nest_pos
    refine ⟨⟨hok.done, hok.walk, ?_⟩, ih hrest (by omega) (by omega)⟩
    have hfp := hok.fp
    have hzero : (if b ≤ f then r else 0) = 0 := by split <;> omega
    have hzero' : (if b ≤ f' then r' else 0) = 0 := by split <;> omega
    rw [hzero, show f - b = 0 by omega] at hfp
    rw [hfp, hzero', show f' - b = 0 by omega]

theorem JobsOk.addrJob (hb : b ≤ n) (hj : jobs.find? (!·.addrDone) = some job) :
    job.addrDone = false ∧ (jobElements jobs)[n - b]? = some (job.stream, job.ptr) := by
  induction jobs generalizing b with
  | nil => cases hj
  | cons j jobs ih =>
    obtain ⟨hok, hrest⟩ := h
    cases hd : j.addrDone with
    | true =>
      have hle := hok.done hd
      rw [find?_cons_of_neg (by simp [hd])] at hj
      rw [getElem?_jobElements_tail hle]
      exact ih hrest hle hj
    | false =>
      rw [find?_cons_of_pos (by simp [hd])] at hj
      cases hj
      obtain ⟨a, ha, hx⟩ := getElem?_jobElements_head hb (hok.not_done hd)
      have hhead := (hok.walk hd).getElem?_zero
      rw [getElem?_drop, add_zero, ha] at hhead
      cases hhead
      exact ⟨hd, hx⟩

theorem JobsOk.addrNext (hb : b ≤ n) :
    JobsOk (n + 1) f r b (updateFirst (!·.addrDone) addrNext jobs) := by
  induction jobs generalizing b with
  | nil => trivial
  | cons j jobs ih =>
    obtain ⟨hok, hrest⟩ := h
    rw [updateFirst]
    cases hd : j.addrDone with
    | true =>
      have hle := hok.done hd
      rw [if_neg (by simp)]
      exact ⟨⟨fun _ => by omega, fun h => absurd (hd.symm.trans h) (by simp), hok.fp⟩, ih hrest hle⟩
    | false =>
      have hlt := hok.not_done hd
      rw [if_pos (by simp)]
      have hwalk := hok.walk hd
      have htail : j.stream.nest.drop (n + 1 - b) = (j.stream.nest.drop (n - b)).tail := by
        rw [tail_drop, show n - b + 1 = n + 1 - b by omega]
      rw [addrNext]
      split
      case h_1 ls p hadv =>
        refine ⟨⟨fun h => absurd (hd.symm.trans h) (by simp), fun _ => ?_, hok.fp⟩,
          hrest.addr_ahead (by omega) (by omega)⟩
        rw [htail]
        exact hwalk.step hadv
      case h_2 hadv =>
        refine ⟨⟨fun _ => ?_, fun h => (by cases h), hok.fp⟩, hrest.addr_ahead (by omega) (by omega)⟩
        show b + j.stream.nest.length ≤ n + 1
        have hnil := hwalk.tail_eq_nil hadv
        rw [← htail, drop_eq_nil_iff] at hnil
        omega

theorem JobsOk.fpJob (hb : b ≤ f) (hr : AccessOk (jobElements jobs)[f - b]? r)
    (hj : jobs.find? (fun job => job.fpRemaining > 0) = some job) :
    ∃ a, (jobElements jobs)[f - b]? = some (job.stream, a) := by
  induction jobs generalizing b with
  | nil => cases hj
  | cons j jobs ih =>
    obtain ⟨hok, hrest⟩ := h
    by_cases hpos : 0 < j.fpRemaining
    · rw [find?_cons_of_pos (by simpa using hpos)] at hj
      cases hj
      obtain ⟨a, -, hx⟩ := getElem?_jobElements_head hb ((hok.fp_pos_iff hr).1 hpos)
      exact ⟨a, hx⟩
    · rw [find?_cons_of_neg (by simpa using hpos)] at hj
      have hle : b + j.stream.nest.length ≤ f := not_lt.1 fun hlt => hpos ((hok.fp_pos_iff hr).2 hlt)
      rw [getElem?_jobElements_tail hle] at hr ⊢
      exact ih hrest hle hr hj

end

inductive NextAccess (x : Option (Stream w × BitVec w)) (f r : Nat) : Nat → Nat → Prop
  | again {y : Stream w × BitVec w} (hx : x = some y) (h : r + 1 < y.1.accesses) : NextAccess x f r f (r + 1)
  | next {y : Stream w × BitVec w} (hx : x = some y) (h : r + 1 = y.1.accesses) : NextAccess x f r (f + 1) 0

theorem JobsOk.fpAccess (h : JobsOk n f r b jobs) (hb : b ≤ f)
    (hr : AccessOk (jobElements jobs)[f - b]? r) (hnext : NextAccess (jobElements jobs)[f - b]? f r f' r') :
    JobsOk n f' r' b (updateFirst (·.fpRemaining > 0) Streamer.fpAccess jobs) := by
  induction jobs generalizing b with
  | nil => trivial
  | cons j jobs ih =>
    obtain ⟨hok, hrest⟩ := h
    rw [updateFirst]
    by_cases hpos : 0 < j.fpRemaining
    · rw [if_pos (by simpa using hpos)]
      have hlt := (hok.fp_pos_iff hr).1 hpos
      obtain ⟨a, -, hx⟩ := getElem?_jobElements_head hb hlt
      have hfp : (Streamer.fpAccess j).fpRemaining =
          ((j.stream.nest.length - (f' - b)) * j.stream.accesses - if b ≤ f' then r' else 0 : Nat) := by
        rw [hok.fp, Int.natCast_pos] at hpos
        show j.fpRemaining - 1 = _
        rw [hok.fp, ← Nat.cast_pred hpos, Nat.cast_inj, if_pos hb]
        cases hnext with
        | again => rw [if_pos hb, Nat.sub_sub]
        | next hy hlast =>
          rw [hx] at hy
          cases hy
          rw [if_pos (by omega), Nat.sub_zero, Nat.sub_sub, hlast,
            show j.stream.nest.length - (f - b) = j.stream.nest.length - (f + 1 - b) + 1 by omega, Nat.add_one_mul,
            Nat.add_sub_cancel]
      refine ⟨⟨hok.done, hok.walk, hfp⟩, hrest.fp_ahead (by omega) ?_⟩
      cases hnext <;> omega
    · rw [if_neg (by simpa using hpos)]
      have hle : b + j.stream.nest.length ≤ f := not_lt.1 fun hlt => hpos ((hok.fp_pos_iff hr).2 hlt)
      rw [getElem?_jobElements_tail hle] at hr hnext
      refine ⟨⟨hok.done, hok.walk, ?_⟩, ih hrest hle hr hnext⟩
      have hle' : f ≤ f' := by cases hnext <;> omega
      have hzero : j.fpRemaining = 0 := not_not.1 fun hne => hpos (hok.fp_pos hne)
      rw [hzero, show j.stream.nest.length - (f' - b) = 0 by omega, zero_mul, Nat.zero_sub, Nat.cast_zero]

end Jobs

structure JobList (launched : List (Stream w)) (n f r : Nat) (gone : List (Stream w)) (jobs : List (Job w)) : Prop where
  launched : launched = gone ++ jobs.map Job.stream
  addr : (elements gone).length ≤ n
  fp : (elements gone).length ≤ f
  jobs : JobsOk n f r (elements gone).length jobs

/-- The first job is not addressed and used to its end. -/
def HeadOpen (jobs : List (Job w)) : Prop := ∀ job ∈ jobs.head?, ¬(job.fpRemaining = 0 ∧ job.addrDone = true)

section JobList

variable {launched gone : List (Stream w)} {n f r : Nat} {jobs : List (Job w)}

section

variable (h : JobList launched n f r gone jobs)
include h

theorem JobList.getElem? (he : (elements gone).length ≤ e) :
    (elements launched)[e]? = (jobElements jobs)[e - (elements gone).length]? := by
  rw [h.launched, elements_append, getElem?_append_right he]
  rfl

theorem JobList.head (hopen : HeadOpen jobs) (hr : AccessOk (elements launched)[f]? r) {x : Stream w × BitVec w}
    (hx : (elements launched)[min n f]? = some x) : ∃ job, jobs.head? = some job ∧ job.stream = x.1 := by
  rw [h.getElem? (Nat.le_min.2 ⟨h.addr, h.fp⟩)] at hx
  rw [h.getElem? h.fp] at hr
  cases jobs with
  | nil => cases hx
  | cons job jobs =>
    obtain ⟨hok, -⟩ := h.jobs
    have hlt : min n f < (elements gone).length + job.stream.nest.length := by
      cases hd : job.addrDone with
      | false =>
        have := hok.not_done hd
        omega
      | true =>
        have := (hok.fp_pos_iff hr).1 (hok.fp_pos fun hz => hopen job rfl ⟨hz, hd⟩)
        omega
    obtain ⟨a, -, ha⟩ := getElem?_jobElements_head (Nat.le_min.2 ⟨h.addr, h.fp⟩) hlt
    rw [ha] at hx
    cases hx
    exact ⟨job, rfl, rfl⟩

theorem JobList.checkEnd (hr : AccessOk (elements launched)[f]? r) :
    HeadOpen (jobCheckEnd jobs) ∧ ∃ gone, JobList launched n f r gone (jobCheckEnd jobs) := by
  induction jobs generalizing gone with
  | nil => exact ⟨fun job hj => (by cases hj), gone, h⟩
  | cons job jobs ih =>
    obtain ⟨hok, hrest⟩ := h.jobs
    by_cases hend : job.fpRemaining = 0 ∧ job.addrDone = true
    · have hcheck : jobCheckEnd (job :: jobs) = jobCheckEnd jobs :=
        dropWhile_cons_of_pos (by simpa using hend)
      rw [hcheck]
      have hlen : (elements (gone ++ [job.stream])).length = (elements gone).length + job.stream.nest.length := by
        simp
      have hr' := hr
      rw [h.getElem? h.fp] at hr'
      have hgone : launched = (gone ++ [job.stream]) ++ jobs.map (·.stream) := by simp [h.launched]
      refine ih ⟨hgone, ?_, ?_, ?_⟩
      · rw [hlen]
        exact hok.done hend.2
      · rw [hlen]
        exact not_lt.1 fun hlt => absurd ((hok.fp_pos_iff hr').2 hlt) (by omega)
      · rw [hlen]
        exact hrest
    · have hcheck : jobCheckEnd (job :: jobs) = job :: jobs :=
        dropWhile_cons_of_neg (by simpa using hend)
      rw [hcheck]
      exact ⟨fun j hj => by cases hj; exact hend, gone, h⟩

end

theorem jobsOk_append {b : Nat} {jobs' : List (Job w)} (h : JobsOk n f r b jobs)
    (h' : JobsOk n f r (b + (jobElements jobs).length) jobs') : JobsOk n f r b (jobs ++ jobs') := by
  induction jobs generalizing b with
  | nil => exact h'
  | cons job jobs ih =>
    refine ⟨h.1, ih h.2 ?_⟩
    rwa [jobElements_cons, length_append, elements_length, ← add_assoc] at h'

/-- A stream that makes fewer than `2 ^ 63` accesses is launched with their number. -/
theorem jobOk_newJob {b : Nat} (st : Stream w) (hfits : st.total < 2 ^ 63) (hn : n ≤ b) (hf : b ≤ f → f = b ∧ r = 0) :
    JobOk n f r b (newJob st) := by
  have hlen : st.nest.length = (st.dims.map fun d => d.1.toNat + 1).prod := by
    rw [Stream.nest, nest_length, List.map_map, map_reverse, prod_reverse]
    rfl
  refine ⟨fun hd => (by cases hd), fun _ => ?_, ?_⟩
  · rw [show n - b = 0 by omega, drop_zero]
    exact walks_newJob st
  · have hzero : (if b ≤ f then r else 0) = 0 := by split <;> omega
    have htotal : (newJob st).fpRemaining = st.total := by
      simp only [newJob]
      exact Int.bmod_eq_of_le (by omega) (by omega)
    rw [htotal, hzero, show f - b = 0 by omega, Nat.sub_zero, Nat.sub_zero, total, ← hlen]
    rfl

theorem JobList.launch (h : JobList launched n f r gone jobs) (hn : n ≤ (elements launched).length)
    (hf : (elements launched).length ≤ f → f = (elements launched).length ∧ r = 0) (st : Stream w)
    (hfits : st.total < 2 ^ 63) : JobList (launched ++ [st]) n f r gone (jobs ++ [newJob st]) := by
  have hlen : (elements launched).length = (elements gone).length + (jobElements jobs).length := by
    rw [h.launched, elements_append, length_append]
    rfl
  refine ⟨by simp [h.launched, newJob], h.addr, h.fp, jobsOk_append h.jobs ⟨?_, trivial⟩⟩
  rw [← hlen]
  exact jobOk_newJob st hfits hn hf

theorem updateFirst_map_stream (hg : ∀ job, (g job).stream = job.stream) :
    (updateFirst p g jobs).map Job.stream = jobs.map Job.stream := by
  induction jobs with
  | nil => rfl
  | cons job jobs ih =>
    rw [updateFirst]
    split
    · rw [map_cons, map_cons, hg]
    · rw [map_cons, map_cons, ih]

theorem find?_updateFirst (hg : ∀ job, p (g job) = p job) :
    (updateFirst p g jobs).find? p = (jobs.find? p).map g := by
  induction jobs with
  | nil => rfl
  | cons job jobs ih =>
    rw [updateFirst]
    by_cases hp : p job = true
    · rw [if_pos hp, find?_cons_of_pos (by rw [hg, hp]), find?_cons_of_pos hp]
      rfl
    · rw [if_neg hp, find?_cons_of_neg hp, find?_cons_of_neg hp, ih]

theorem addrNext_stream (job : Job w) : (addrNext job).stream = job.stream := by
  rw [addrNext]
  split <;> rfl

section

variable (h : JobList launched n f r gone jobs)
include h

theorem JobList.addrNext :
    JobList launched (n + 1) f r gone (updateFirst (!·.addrDone) addrNext jobs) := by
  refine ⟨?_, Nat.le_succ_of_le h.addr, h.fp, h.jobs.addrNext h.addr⟩
  rw [updateFirst_map_stream addrNext_stream, ← h.launched]

theorem JobList.fpAccess (hr : AccessOk (elements launched)[f]? r)
    (hnext : NextAccess (elements launched)[f]? f r f' r') :
    JobList launched n f' r' gone (updateFirst (·.fpRemaining > 0) Streamer.fpAccess jobs) := by
  have hle : f ≤ f' := by cases hnext <;> omega
  rw [h.getElem? h.fp] at hr hnext
  refine ⟨?_, h.addr, h.fp.trans hle, h.jobs.fpAccess h.fp hr hnext⟩
  rw [updateFirst_map_stream (g := Streamer.fpAccess) fun _ => rfl, ← h.launched]

theorem JobList.startJob (s : Streamer w) :
    JobList launched n f r gone (updateFirst (!·.addrDone) s.startJob jobs) := by
  refine ⟨?_, h.addr, h.fp, ?_⟩
  · rw [updateFirst_map_stream (g := s.startJob) fun _ => rfl, ← h.launched]
  · have hjobs := h.jobs
    generalize (elements gone).length = b at hjobs
    clear h
    induction jobs generalizing b with
    | nil => trivial
    | cons job jobs ih =>
      rw [updateFirst]
      split
      · exact ⟨{ hjobs.1 with }, hjobs.2⟩
      · exact ⟨hjobs.1, ih _ hjobs.2⟩

end

theorem headOpen_updateFirst (h : HeadOpen jobs) (hg : ∀ job, jobs.find? p = some job →
    ¬(job.fpRemaining = 0 ∧ job.addrDone = true) →
      ¬((g job).fpRemaining = 0 ∧ (g job).addrDone = true)) : HeadOpen (updateFirst p g jobs) := by
  cases jobs with
  | nil => exact h
  | cons job jobs =>
    rw [updateFirst]
    split
    case isTrue hp =>
      intro j hj
      cases hj
      exact hg job (find?_cons_of_pos hp) (h job rfl)
    case isFalse =>
      intro j hj
      cases hj
      exact h job rfl

end JobList

end GvsocPulp.Snitchv2
