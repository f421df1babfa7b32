import GvsocPulp.Lib.Run
import GvsocPulp.LightRedmule.JobQueue

/-!
# Each committed job runs once, with its own configuration

What the queue promises in every state of a run (`Exact`), and when it keeps it: as long as no job is started in the
cycle between the end of a job and the idle pass of the FSM, which lowers `done`.
-/

namespace GvsocPulp.LightRedmule

open Lib Function List Option Nat Queue

variable {s t : Queue} {e : Event}

variable {value : BitVec 32} {last : Bool} {latency : Nat}

/-! ## What the queue promises -/

def slot (n : Nat) : Fin 2 := ⟨n % 2, mod_lt _ (by decide)⟩

/-- What the slots hold before each job is configured: the slot of the job before the last one. -/
def History.contexts (h : History) : List Context := {} :: {} :: h.committed.map (·.context)

/-- A job has the values written for it, on top of those of the job that had its slot before. -/
def History.Configured (h : History) (n : Nat) (job : Job) : Prop :=
  (h.contexts[n]?.bind fun cxt => job.writes.foldlM Context.write cxt) = some job.context

/-- The values of `done` in a number of jobs. -/
def pulses (n : Nat) : List Bool := (replicate n [true, false]).flatten

namespace Queue

variable (s)

def beforeIdle : Bool := s.state = .idle && s.fsmEvent.isSome

/-- The values of `done` that are still to come for the jobs that are over. -/
def owedDone : List Bool := if s.beforeIdle then [false] else []

/-- An access starts a job between the end of a job and the idle pass. -/
def startsEarly : Event → Bool
  | .commitTrigger value =>
    let ct := value &&& 0x3
    s.beforeIdle && (ct = 0 && (s.jobState ≠ 0 || s.jobPending < 2) || ct = 2 && 0 < s.jobPending)
  | _ => false

end Queue

/-- What the queue promises in every state of a run. -/
structure Exact (s : Queue) : Prop where
  ids : s.acquired = (List.range s.acquired.length).map fun n => ((n % 256 : Nat) : Int)
  acquire : 0 ≤ s.acquire.1 → s.jobPending < 2
  /-- A job that was acquired is committed with the id that was handed out. -/
  held : s.jobState = -2 → s.acquired.getLast? = some (s.cxtJobId s.cxtCfgPtr)
  /-- A commit is taken, or dropped without a trace. -/
  commit : ∀ start t, s.commit start = some t → (∃ job, t.committed = s.committed ++ [job]) ∨ s.jobPending = 2 ∧ t = s
  contexts : ∀ n job, s.committed[n]? = some job → s.Configured n job
  /-- Jobs run in the order of the commits, each once and with its own registers. -/
  started : s.started = (s.committed.take s.started.length).map Job.registers
  running : s.started.length = s.finished + if s.state = .idle then 0 else 1
  registers : s.state ≠ .idle → s.started.getLast? = some s.regs
  pending : s.jobPending + s.finished = s.committed.length ∧ s.jobPending ≤ 2
  completed : s.completedJobs.toNat = s.finished % 256
  /-- `done` goes high at the end of each job, and low in the idle pass after it. -/
  done : s.doneSyncs ++ s.owedDone = pulses s.finished
  /-- The engine does not stop in a job. -/
  busy : s.state ≠ .idle → s.fsmEvent ≠ none
  /-- What is left in the queue while nothing is going on was neither committed with a start nor triggered. -/
  left : s.state = .idle → s.fsmEvent = none → s.triggered ≤ s.finished ∧ ∀ job ∈ s.committed.drop s.finished,
    job.start = false

/-! ## The slots -/

@[simp] theorem one_sub_slot (n : Nat) : 1 - slot n = slot (n + 1) := by
  rcases mod_two_eq_zero_or_one n with h | h <;>
    simp [slot, h, add_mod]

theorem slot_ne (n : Nat) : slot (n + 1) ≠ slot n := by
  rw [Ne, Fin.ext_iff]
  simp only [slot]
  omega

theorem slot_add_two (n : Nat) : slot (n + 2) = slot n := by
  rw [Fin.ext_iff]
  simp [slot]

theorem History.contexts_add_two (h : History) (n : Nat) : h.contexts[n + 2]? = h.committed[n]?.map (·.context) := by
  simp [History.contexts]

structure Slots (s : Queue) : Prop where
  cfgPtr : s.cxtCfgPtr = slot s.committed.length
  usePtr : s.cxtUsePtr = slot s.finished
  jobState : s.jobState = 0 ∧ s.writes = [] ∨ s.jobState = -2 ∧ s.jobPending < 2
  pending : s.jobPending + s.finished = s.committed.length ∧ s.jobPending ≤ 2
  counter : s.jobIdCounter.toNat = s.acquired.length % 256
  ids : s.acquired = (List.range s.acquired.length).map fun n => ((n % 256 : Nat) : Int)
  held : s.jobState = -2 → s.acquired.getLast? = some (s.cxtJobId s.cxtCfgPtr)
  configured : (s.contexts[s.committed.length]?.bind fun cxt => s.writes.foldlM Context.write cxt) =
    some (s.cxt s.cxtCfgPtr)
  other : s.contexts[s.committed.length + 1]? = some (s.cxt (1 - s.cxtCfgPtr))
  jobIds : ∀ n job, s.committed[n]? = some job → s.finished ≤ n → s.cxtJobId (slot n) = job.id
  contexts : ∀ n job, s.committed[n]? = some job → s.Configured n job

structure Runs (s : Queue) : Prop where
  started : s.started = (s.committed.take s.started.length).map Job.registers
  running : s.started.length = s.finished + if s.state = .idle then 0 else 1
  registers : s.state ≠ .idle → s.started.getLast? = some s.regs
  runs : s.state ≠ .idle → 0 < s.jobPending
  completed : s.completedJobs.toNat = s.finished % 256
  done : s.doneSyncs ++ s.owedDone = pulses s.finished
  busy : s.state ≠ .idle → s.fsmEvent ≠ none
  triggered : s.triggered ≤ s.committed.length

/-- What waits while nothing is going on. -/
def Left (s : Queue) : Prop :=
  s.state = .idle → s.fsmEvent = none → s.triggered ≤ s.finished ∧ ∀ job ∈ s.committed.drop s.finished,
    job.start = false

namespace Slots

theorem next (h : Slots s) (hpending : 0 < s.jobPending) :
    ∃ job, s.committed[s.finished]? = some job ∧ s.cxt s.cxtUsePtr = job.context ∧ s.cxtJobId s.cxtUsePtr = job.id := by
  obtain ⟨hsum, hle⟩ := h.pending
  have hlt : s.finished < s.committed.length := by omega
  have hjob : s.committed[s.finished]? = some s.committed[s.finished] := getElem?_eq_getElem hlt
  refine ⟨s.committed[s.finished], hjob, ?_, ?_⟩
  · have hcontext := s.contexts_add_two s.finished
    rw [hjob, map_some] at hcontext
    rcases (by omega : s.committed.length = s.finished + 1 ∨ s.committed.length = s.finished + 2) with hone | htwo
    · have hother := h.other
      rw [hone, hcontext, h.cfgPtr, hone, one_sub_slot, slot_add_two] at hother
      rw [h.usePtr]
      exact (Option.some.inj hother).symm
    · -- with two jobs pending nothing has been written since the last commit
      have hwrites : s.writes = [] := by
        rcases h.jobState with ⟨-, hw⟩ | ⟨-, hlt⟩
        · exact hw
        · omega
      have hconfigured := h.configured
      rw [htwo, hcontext, hwrites, h.cfgPtr, htwo, slot_add_two] at hconfigured
      rw [h.usePtr]
      exact (Option.some.inj hconfigured).symm
  · rw [h.usePtr]
    exact h.jobIds _ _ hjob le_rfl

end Slots

theorem start (h : Slots s) (hr : Runs s) (hidle : s.state = .idle) (hearly : s.beforeIdle = false)
    (hpending : 0 < s.jobPending) (hstart : s.startNextJob = some t) : Slots t ∧ Runs t ∧ Left t := by
  obtain ⟨job, hjob, hcontext, hid⟩ := h.next hpending
  rw [startNextJob] at hstart
  split_ifs at hstart
  cases hstart
  have hlength := hr.running
  rw [if_pos hidle] at hlength
  refine ⟨{ h with },
    ⟨?_, ?_, fun _ => getLast?_concat, fun _ => hpending, hr.completed, ?_, fun _ => enqueue_ne_none, hr.triggered⟩,
      nofun⟩
  · rw [length_append, length_singleton, hlength, add_zero, take_add_one, hjob, map_append]
    nth_rewrite 1 [hr.started]
    rw [hlength, hcontext, hid]
    rfl
  · rw [length_append, hlength]
    rfl
  · have hdone := hr.done
    rw [owedDone, hearly] at hdone
    exact hdone

/-! ## Steps -/

structure Inv (s : Queue) : Prop where
  slots : Slots s
  runs : Runs s
  left : Left s

namespace Inv

theorem acquire (h : Inv s) : Inv s.acquire.2 := by
  rw [Queue.acquire]
  split_ifs with hstate hfull
  · exact h
  · exact h
  · have hstate : s.jobState = 0 := not_not.1 hstate
    obtain ⟨hsum, hle⟩ := h.slots.pending
    have hroom : s.jobPending < 2 := by omega
    have hid : ((s.jobIdCounter.toNat : Nat) : Int) = ((s.acquired.length % 256 : Nat) : Int) := by rw [h.slots.counter]
    refine ⟨{ h.slots with
        jobState := .inr ⟨rfl, hroom⟩, counter := ?_, ids := ?_, held := fun _ => ?_
        jobIds := fun n job hjob hn => ?_ },
      { h.runs with }, h.left⟩
    · rw [BitVec.toNat_add, h.slots.counter, length_append, length_singleton]
      simp
    · rw [length_append, length_singleton, List.range_succ, map_append, ← h.slots.ids, hid]
      rfl
    · simp
    · -- the slot that is configured does not hold a pending job
      change s.committed[n]? = some job at hjob
      change s.finished ≤ n at hn
      change update s.cxtJobId s.cxtCfgPtr _ (slot n) = job.id
      have hlt := (List.getElem?_eq_some_iff.1 hjob).1
      have hne : slot n ≠ s.cxtCfgPtr := by
        rw [h.slots.cfgPtr, show s.committed.length = n + 1 by omega]
        exact (slot_ne n).symm
      rw [update_of_ne hne]
      exact h.slots.jobIds n job hjob hn

theorem configure (h : Inv s) (hstate : s.jobState = -2) {w : Write} (hw : s.configure w = some t) : Inv t := by
  obtain ⟨cxt, hcxt, rfl⟩ := map_eq_some_iff.1 hw
  have hlt : s.jobPending < 2 := by
    rcases h.slots.jobState with ⟨h0, -⟩ | ⟨-, hlt⟩
    · rw [hstate] at h0
      cases h0
    · exact hlt
  refine ⟨{ h.slots with jobState := .inr ⟨hstate, hlt⟩, configured := ?_, other := ?_ },
    { h.runs with }, h.left⟩
  · obtain ⟨before, hbefore, hwrites⟩ := bind_eq_some_iff.1 h.slots.configured
    change (s.contexts[s.committed.length]?.bind _) = some (update s.cxt s.cxtCfgPtr cxt s.cxtCfgPtr)
    rw [hbefore, bind_some, foldlM_append, hwrites, update_self]
    change ((s.cxt s.cxtCfgPtr).write w).bind _ = _
    rw [hcxt]
    rfl
  · change s.contexts[s.committed.length + 1]? = some (update s.cxt s.cxtCfgPtr cxt (1 - s.cxtCfgPtr))
    have hne : 1 - s.cxtCfgPtr ≠ s.cxtCfgPtr := by
      rw [h.slots.cfgPtr, one_sub_slot]
      exact slot_ne _
    rw [update_of_ne hne]
    exact h.slots.other

/-- The state of a commit before the job is started. -/
def push (s : Queue) (start : Bool) : Queue :=
  { s with
    cxtJobId := if s.jobState = 0 then update s.cxtJobId s.cxtCfgPtr s.jobIdCounter.toNat else s.cxtJobId
    jobPending := s.jobPending + 1
    jobState := 0
    cxtCfgPtr := ⟨1, Nat.one_lt_two⟩ - s.cxtCfgPtr
    committed := s.committed ++ [Job.mk (if s.jobState = 0 then (s.jobIdCounter.toNat : Int)
      else s.cxtJobId s.cxtCfgPtr) s.writes
      (s.cxt s.cxtCfgPtr) start]
    writes := [] }

theorem commit_cases (h : Slots s) (start : Bool) : s.commit start = some s ∧ s.jobState = 0 ∧ s.jobPending = 2 ∨
    s.jobPending < 2 ∧
      s.commit start = if start = true ∧ s.state = .idle then (push s start).startNextJob else some (push s start) := by
  rcases h.jobState with ⟨h0, -⟩ | ⟨h2, hlt⟩
  · by_cases hlt : s.jobPending < 2
    · exact .inr ⟨hlt, by simp [commit, push, h0, hlt]⟩
    · have hle := h.pending.2
      exact .inl ⟨by simp [commit, h0, hlt], h0, by omega⟩
  · exact .inr ⟨hlt, by simp [commit, push, h2]⟩

theorem slots_push (h : Slots s) (hlt : s.jobPending < 2) (start : Bool) : Slots (push s start) := by
  obtain ⟨hsum, hle⟩ := h.pending
  have hlength : (push s start).committed.length = s.committed.length + 1 := length_append
  -- what the jobs before this one had in their slots stays
  have hcontexts : ∀ n ≤ s.committed.length + 1, (push s start).contexts[n]? = s.contexts[n]? := fun n hn => by
    rw [History.contexts, History.contexts, push, map_append, ← cons_append, ← cons_append,
      getElem?_append_left]
    simp only [length_cons, length_map]
    omega
  refine ⟨?_, h.usePtr, .inl ⟨rfl, rfl⟩, ?_, h.counter, h.ids, nofun, ?_, ?_, fun n job hjob hn => ?_,
    fun n job hjob => ?_⟩
  · rw [hlength, ← one_sub_slot, ← h.cfgPtr]
    rfl
  · rw [hlength]
    simp only [push]
    omega
  · rw [hlength, hcontexts _ le_rfl, h.other]
    rfl
  · rw [hlength, History.contexts_add_two]
    simp only [push, getElem?_concat_length, map_some]
    rw [h.cfgPtr, Fin.mk_one, one_sub_slot, one_sub_slot, slot_add_two]
  · have hle' : n ≤ s.committed.length := by
      have hlt' := (List.getElem?_eq_some_iff.1 hjob).1
      rw [hlength] at hlt'
      omega
    rcases hle'.lt_or_eq with hold | rfl
    · have hne : slot n ≠ s.cxtCfgPtr := by
        change s.finished ≤ n at hn
        rw [h.cfgPtr, show s.committed.length = n + 1 by omega]
        exact (slot_ne n).symm
      rw [push, getElem?_append_left hold] at hjob
      have hid := h.jobIds n job hjob hn
      simp only [push]
      split_ifs
      · rw [update_of_ne hne]
        exact hid
      · exact hid
    · simp only [push, getElem?_concat_length, Option.some.injEq] at hjob
      rw [← hjob, ← h.cfgPtr]
      simp only [push]
      split_ifs
      · rw [update_self]
      · rfl
  · have hle' : n ≤ s.committed.length := by
      have hlt' := (List.getElem?_eq_some_iff.1 hjob).1
      rw [hlength] at hlt'
      omega
    rw [History.Configured, hcontexts n (by omega)]
    rcases hle'.lt_or_eq with hold | rfl
    · rw [push, getElem?_append_left hold] at hjob
      exact h.contexts n job hjob
    · simp only [push, getElem?_concat_length, Option.some.injEq] at hjob
      rw [← hjob]
      exact h.configured

theorem runs_push (hr : Runs s) (start : Bool) : Runs (push s start) := by
  have hlength : s.started.length ≤ s.committed.length := by
    have hstarted := congrArg List.length hr.started
    rw [length_map, length_take] at hstarted
    omega
  refine { hr with started := ?_, runs := fun _ => succ_pos _, triggered := ?_ }
  rotate_left
  · exact hr.triggered.trans (by rw [push, length_append]; exact Nat.le_add_right _ _)
  rw [push, take_append_of_le_length hlength]
  exact hr.started

theorem commit (h : Inv s) {start : Bool} (hearly : start = true → s.jobPending < 2 → s.beforeIdle = false)
    (hcommit : s.commit start = some t) : Inv t := by
  rcases commit_cases h.slots start with ⟨hdrop, -, -⟩ | ⟨hlt, htaken⟩
  · rw [hdrop] at hcommit
    cases hcommit
    exact h
  · rw [htaken] at hcommit
    have hslots := slots_push h.slots hlt start
    have hruns := runs_push h.runs start
    split_ifs at hcommit with hstart
    · obtain ⟨hs, hr, hl⟩ := LightRedmule.start hslots hruns hstart.2 (hearly hstart.1 hlt) (succ_pos _) hcommit
      exact ⟨hs, hr, hl⟩
    · cases hcommit
      refine ⟨hslots, hruns, fun hidle hevent => ?_⟩
      obtain ⟨htrigger, hleft⟩ := h.left hidle hevent
      refine ⟨htrigger, fun job hjob => ?_⟩
      have hfinished : s.finished ≤ s.committed.length := by
        have := h.slots.pending.1
        omega
      rw [push, drop_append_of_le_length hfinished] at hjob
      rcases mem_append.1 hjob with hjob | hjob
      · exact hleft job hjob
      · rw [mem_singleton.1 hjob]
        exact Bool.eq_false_iff.2 fun htrue => hstart ⟨htrue, hidle⟩

theorem trigger (h : Inv s) (hearly : 0 < s.jobPending → s.beforeIdle = false)
    (htrigger : (if 0 < s.jobPending ∧ s.state = .idle then { s with triggered := s.committed.length }.startNextJob
      else some { s with triggered := s.committed.length }) = some t) : Inv t := by
  have hslots : Slots { s with triggered := s.committed.length } := { h.slots with }
  have hruns : Runs { s with triggered := s.committed.length } :=
    { h.runs with triggered := le_rfl }
  split_ifs at htrigger with hstart
  · obtain ⟨hs, hr, hl⟩ := LightRedmule.start hslots hruns hstart.2 (hearly hstart.1) hstart.1 htrigger
    exact ⟨hs, hr, hl⟩
  · cases htrigger
    refine ⟨hslots, hruns, fun hidle hevent => ⟨?_, (h.left hidle hevent).2⟩⟩
    -- nothing is pending, so that the trigger leaves no job behind
    have hnone : ¬0 < s.jobPending := fun hpos => hstart ⟨hpos, hidle⟩
    have hsum := h.slots.pending.1
    simp only
    omega

theorem startsEarly_eq_false (hearly : s.startsEarly (.commitTrigger value) = false) (hidle : s.beforeIdle = true) :
    (value &&& 0x3 = 0 → s.jobState = 0 ∧ 2 ≤ s.jobPending) ∧ (value &&& 0x3 = 2 → s.jobPending = 0) := by
  simp [startsEarly, hidle] at hearly
  exact hearly

theorem commitTrigger (h : Inv s) (hearly : s.startsEarly (.commitTrigger value) = false)
    (hstep : s.commitTrigger value = some t) : Inv t := by
  have hnot : ∀ {P : Prop}, (s.beforeIdle = true → ¬P) → P → s.beforeIdle = false := fun himp hp =>
    Bool.eq_false_iff.2 fun hidle => himp hidle hp
  rw [Queue.commitTrigger] at hstep
  simp only at hstep
  by_cases htwo : value &&& 0x3 = 2
  · rw [if_pos htwo] at hstep
    refine h.trigger (hnot fun hidle hpos => ?_) hstep
    have hzero := (startsEarly_eq_false hearly hidle).2 htwo
    omega
  · rw [if_neg htwo] at hstep
    split_ifs at hstep with hthree
    · cases hstep
      exact h
    · refine h.commit (fun hstart => hnot fun hidle hlt => ?_) hstep
      have hfull := ((startsEarly_eq_false hearly hidle).1 (of_decide_eq_true hstart)).2
      omega

@[simp] theorem pulses_succ (n : Nat) : pulses (n + 1) = pulses n ++ [true, false] := by
  rw [pulses, replicate_succ', flatten_append]
  rfl

theorem pass (h : Inv s) (hbusy : s.state ≠ .idle) {state : FsmState} (hstate : state ≠ .idle) (latency : Nat) :
    Inv { s with state := state, fsmEvent := enqueue s.cycle latency none } := by
  refine ⟨{ h.slots with },
    ⟨h.runs.started, ?_, fun _ => h.runs.registers hbusy, fun _ => h.runs.runs hbusy, h.runs.completed, ?_,
      fun _ => nofun, h.runs.triggered⟩,
    fun hidle => (hstate hidle).elim⟩
  · have hrunning := h.runs.running
    rw [if_neg hbusy] at hrunning
    rw [if_neg hstate]
    exact hrunning
  · have hdone := h.runs.done
    have hnot : ∀ u : Queue, u.state ≠ .idle → u.owedDone = [] := fun u hu => by simp [owedDone, beforeIdle, hu]
    rw [hnot s hbusy] at hdone
    rw [hnot _ hstate]
    exact hdone

theorem fsmHandler_idle (hidle : s.state = .idle) (last : Bool) (latency : Nat) : s.fsmHandler last latency =
    if 0 < s.jobPending then { s with fsmEvent := none, doneSyncs := s.doneSyncs ++ [false] }.startNextJob
    else some { s with fsmEvent := none, doneSyncs := s.doneSyncs ++ [false] } := by
  rw [fsmHandler]
  split <;> rename_i hstate
  · rfl
  all_goals
    rw [hidle] at hstate
    cases hstate

theorem idlePass (h : Inv s) (hidle : s.state = .idle) (hevent : s.fsmEvent ≠ none)
    (hstep : s.fsmHandler last latency = some t) : Inv t := by
  have hslots : Slots { s with fsmEvent := none, doneSyncs := s.doneSyncs ++ [false] } :=
    { h.slots with }
  have hbefore : s.beforeIdle = true := by
    rw [beforeIdle, hidle]
    simpa using isSome_iff_ne_none.2 hevent
  have hearly : ({ s with fsmEvent := none, doneSyncs := s.doneSyncs ++ [false] } : Queue).beforeIdle = false := by
    simp [beforeIdle]
  have hruns : Runs { s with fsmEvent := none, doneSyncs := s.doneSyncs ++ [false] } := by
    refine { h.runs with done := ?_, busy := fun hbusy => (hbusy hidle).elim }
    have hdone := h.runs.done
    rw [owedDone, hbefore] at hdone
    rw [owedDone, hearly]
    simpa using hdone
  rw [fsmHandler_idle hidle] at hstep
  split_ifs at hstep with hpending
  · obtain ⟨hs, hr, hl⟩ := LightRedmule.start hslots hruns hidle hearly hpending hstep
    exact ⟨hs, hr, hl⟩
  · cases hstep
    refine ⟨hslots, hruns, fun _ _ => ⟨?_, fun job hjob => ?_⟩⟩
    · have hsum := h.slots.pending.1
      have htriggered := h.runs.triggered
      simp only
      omega
    · have hsum := h.slots.pending.1
      rw [drop_of_length_le (by simp only; omega)] at hjob
      cases hjob

theorem retire (h : Inv s) (hstate : s.state = .finished)
    (hstep : s.fsmHandler last latency = some t) : Inv t := by
  have hbusy : s.state ≠ .idle := by
    rw [hstate]
    nofun
  have hpending := h.runs.runs hbusy
  obtain ⟨hsum, hle⟩ := h.slots.pending
  have hrunning := h.runs.running
  have hdone := h.runs.done
  rw [if_neg hbusy] at hrunning
  rw [show s.owedDone = [] by simp [owedDone, beforeIdle, hbusy], append_nil] at hdone
  rw [fsmHandler, hstate] at hstep
  cases hstep
  refine ⟨{ h.slots with usePtr := ?_, jobState := ?_, pending := ?_, held := fun hheld => ?_, jobIds :=
    fun n job hjob hn => ?_ }, ⟨h.runs.started, hrunning, (absurd rfl), (absurd rfl), ?_, ?_, fun _ => nofun,
    h.runs.triggered⟩, fun _ => nofun⟩
  · change 1 - s.cxtUsePtr = slot (s.finished + 1)
    rw [h.slots.usePtr, one_sub_slot]
  · exact h.slots.jobState.imp_right fun ⟨h2, hlt⟩ => ⟨h2, (sub_le _ _).trans_lt hlt⟩
  · exact ⟨by simp only; omega, (sub_le _ _).trans hle⟩
  · -- the slot that is being configured is not that of the job that is over
    rcases h.slots.jobState with ⟨h0, -⟩ | ⟨-, hlt⟩
    · change s.jobState = -2 at hheld
      rw [h0] at hheld
      cases hheld
    · have hne : s.cxtCfgPtr ≠ s.cxtUsePtr := by
        rw [h.slots.cfgPtr, h.slots.usePtr, show s.committed.length = s.finished + 1 by omega]
        exact slot_ne _
      change s.acquired.getLast? = some (update s.cxtJobId s.cxtUsePtr (-1) s.cxtCfgPtr)
      rw [update_of_ne hne]
      exact h.slots.held hheld
  · change s.committed[n]? = some job at hjob
    change s.finished + 1 ≤ n at hn
    have hlt := (List.getElem?_eq_some_iff.1 hjob).1
    have hne : slot n ≠ s.cxtUsePtr := by
      rw [h.slots.usePtr, show n = s.finished + 1 by omega]
      exact slot_ne _
    change update s.cxtJobId s.cxtUsePtr (-1) (slot n) = job.id
    rw [update_of_ne hne]
    exact h.slots.jobIds n job hjob (by omega)
  · change (s.completedJobs + 1).toNat = (s.finished + 1) % 256
    rw [BitVec.toNat_add, h.runs.completed]
    simp
  · rw [pulses_succ, ← hdone]
    simp [owedDone, beforeIdle, enqueue]

theorem fsm (h : Inv s) (hstep : s.fsmHandler last latency = some t)
    (hevent : s.fsmEvent ≠ none) : Inv t := by
  cases hstate : s.state with
  | idle => exact h.idlePass hstate hevent hstep
  | finished => exact h.retire hstate hstep
  | _ =>
    have hbusy : s.state ≠ .idle := by
      rw [hstate]
      nofun
    rw [fsmHandler, hstate] at hstep
    cases hstep
    refine h.pass hbusy ?_ latency
    split <;> nofun

theorem step (h : Inv s) (hearly : s.startsEarly e = false) (hstep : s.step e = some t) : Inv t := by
  cases e with
  | acquire =>
    cases hstep
    exact h.acquire
  | configure w =>
    rw [step] at hstep
    split_ifs at hstep with hstate
    exact h.configure hstate.1 hstep
  | commitTrigger value => exact h.commitTrigger hearly hstep
  | fsm last latency =>
    rw [step] at hstep
    split_ifs at hstep with hevent
    refine h.fsm hstep ?_
    rw [hevent.1]
    nofun
  | tick =>
    rw [step] at hstep
    split_ifs at hstep
    cases hstep
    exact ⟨{ h.slots with },
      { h.runs with }, h.left⟩

theorem init : Inv {} := by
  refine ⟨⟨rfl, rfl, .inl ⟨rfl, rfl⟩, ⟨rfl, by decide⟩, rfl, rfl, nofun, rfl, rfl, nofun, nofun⟩,
    ⟨rfl, rfl, (absurd rfl), (absurd rfl), rfl, rfl, (absurd rfl), le_rfl⟩, fun _ _ => ⟨le_rfl, nofun⟩⟩

theorem exact (h : Inv s) : Exact s where
  ids := h.slots.ids
  acquire hid := by
    rw [Queue.acquire] at hid
    have hle := h.slots.pending.2
    rcases h.slots.jobState with ⟨h0, -⟩ | ⟨h2, hlt⟩
    · split_ifs at hid with hfree hfull
      · exact (hfree h0).elim
      · cases hid
      · omega
    · exact hlt
  held := h.slots.held
  commit start t ht := by
    rcases commit_cases h.slots start with ⟨hdrop, -, hfull⟩ | ⟨-, htaken⟩
    · rw [hdrop] at ht
      cases ht
      exact .inr ⟨hfull, rfl⟩
    · rw [htaken] at ht
      split_ifs at ht
      · rw [startNextJob] at ht
        split_ifs at ht
        cases ht
        exact .inl ⟨_, rfl⟩
      · cases ht
        exact .inl ⟨_, rfl⟩
  contexts := h.slots.contexts
  started := h.runs.started
  running := h.runs.running
  registers := h.runs.registers
  pending := h.slots.pending
  completed := h.runs.completed
  done := h.runs.done
  busy := h.runs.busy
  left := h.left

end Inv

theorem startNextJob_done (hstart : s.startNextJob = some t) :
    t.state = .preload ∧ t.doneSyncs = s.doneSyncs ∧ t.finished = s.finished := by
  rw [startNextJob] at hstart
  split_ifs at hstart
  cases hstart
  exact ⟨rfl, rfl, rfl⟩

/-- A job that is started before the idle pass finds `done` still high. -/
theorem not_exact_of_startsEarly (h : Inv s) (hearly : s.startsEarly e = true) (hstep : s.step e = some t) :
    ¬Exact t := by
  intro hexact
  cases e with
  | commitTrigger value =>
    simp only [startsEarly, Bool.and_eq_true, Bool.or_eq_true, decide_eq_true_eq] at hearly
    obtain ⟨hbefore, haccess⟩ := hearly
    have hidle : s.state = .idle := by
      rw [beforeIdle, Bool.and_eq_true, decide_eq_true_eq] at hbefore
      exact hbefore.1
    have hstarted : t.state = .preload ∧ t.doneSyncs = s.doneSyncs ∧ t.finished = s.finished := by
      rw [step, commitTrigger] at hstep
      simp only at hstep
      rcases haccess with ⟨hzero, hroom⟩ | ⟨htwo, hpending⟩
      · rw [if_neg (by rw [hzero]; decide), if_neg (by rw [hzero]; decide)] at hstep
        rcases Inv.commit_cases h.slots (decide (value &&& 0x3 = 0)) with ⟨-, h0, hfull⟩ | ⟨-, htaken⟩
        · have hlt := hroom.resolve_left (not_not.2 h0)
          omega
        · rw [htaken, if_pos ⟨decide_eq_true hzero, hidle⟩] at hstep
          obtain ⟨hstate, hsyncs, hfinished⟩ := startNextJob_done hstep
          exact ⟨hstate, hsyncs, hfinished⟩
      · rw [if_pos htwo, if_pos ⟨hpending, hidle⟩] at hstep
        obtain ⟨hstate, hsyncs, hfinished⟩ := startNextJob_done hstep
        exact ⟨hstate, hsyncs, hfinished⟩
    obtain ⟨hstate, hsyncs, hfinished⟩ := hstarted
    have hdone := h.runs.done
    have hdone' := hexact.done
    rw [owedDone, hbefore, if_pos rfl] at hdone
    rw [show t.owedDone = [] by simp [owedDone, beforeIdle, hstate], hsyncs, hfinished, ← hdone] at hdone'
    simp at hdone'
  | _ => cases hearly

/-- Each committed job runs once, in order and with its own configuration, and `done` goes high and low for it, exactly
as long as no access starts a job between the end of a job and the idle pass. -/
theorem jobs_once (es : List Event) : AllStates Queue.step Exact {} es ↔
    AllSteps Queue.step (fun s e => s.startsEarly e = false) {} es := by
  refine allStates_iff (I := Inv) (fun _ => Inv.exact) (fun s e s' h hstep => ?_)
    (fun s e s' h hstep hexact => ?_) Inv.init
  · refine ⟨fun hexact => Bool.eq_false_iff.2 fun hearly => ?_, fun hearly => (h.step hearly hstep).exact⟩
    exact not_exact_of_startsEarly h hearly hstep hexact
  · exact h.step (Bool.eq_false_iff.2 fun hearly => not_exact_of_startsEarly h hearly hstep hexact) hstep

def oneElement : List Event := [.acquire, .configure ⟨0x20, 0x10001⟩, .configure ⟨0x24, 0x100001⟩, .commitTrigger 0]

/-- The passes of a job that go on at once. -/
def quickPasses : List Event := [.fsm true 1, .tick, .fsm true 1, .tick, .fsm true 1, .tick, .fsm true 1]

/-- A second job is committed in the cycle after the end of the first one: `done` stays high through it. -/
theorem second_job_not_exact : ¬∀ es, AllStates Queue.step Exact {} es := by
  intro hall
  have h := hall (oneElement ++ replicate 8 .tick ++ quickPasses ++ oneElement ++ [.tick] ++ quickPasses)
  obtain ⟨t, hrun, hsyncs, hfinished, howed⟩ : ∃ t, run step {} (oneElement ++ replicate 8 .tick ++ quickPasses ++
      oneElement ++ [.tick] ++ quickPasses) = some t ∧ t.doneSyncs = [true, true] ∧ t.finished = 2 ∧
        t.owedDone = [false] :=
    ⟨_, rfl, by decide +kernel, by decide +kernel, by decide +kernel⟩
  have hdone := (h.final hrun).done
  rw [hsyncs, hfinished, howed] at hdone
  exact absurd hdone (by decide)

end GvsocPulp.LightRedmule
