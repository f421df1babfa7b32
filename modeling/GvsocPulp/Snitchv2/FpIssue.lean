import GvsocPulp.Snitchv2.FpCore
import GvsocPulp.Snitchv2.FpSsSteps

/-!
# What an issue does to the accesses

`issue_spec`: a turn of `issue()` executes the entry that `issuing` says, or none; what it changes of the LSU, the
scoreboard and the loads and stores in the queue.
-/

namespace GvsocPulp.Snitchv2

open List

variable {w : Nat}

def memEntries (queue : List (FpSsEntry w)) : List (FpSsEntry w) := queue.filter fun e => e.insn.kind.isMem

theorem memEntries_append (queue queue' : List (FpSsEntry w)) :
    memEntries (queue ++ queue') = memEntries queue ++ memEntries queue' := filter_append ..

theorem memEntries_eq_nil {queue : List (FpSsEntry w)} (h : ∀ e ∈ queue, e.insn.kind.isMem = false) :
    memEntries queue = [] := by
  rw [memEntries, filter_eq_nil_iff]
  intro e he
  rw [h e he]
  exact Bool.false_ne_true

theorem memEntries_set {queue : List (FpSsEntry w)} {i : Nat} {e e' : FpSsEntry w} (hi : queue[i]? = some e)
    (he : e.insn.kind.isMem = false) (he' : e'.insn = e.insn) : memEntries (queue.set i e') = memEntries queue := by
  obtain ⟨hlt, hget⟩ := List.getElem?_eq_some_iff.1 hi
  have hsplit : queue = queue.take i ++ e :: queue.drop (i + 1) := by
    rw [← hget, getElem_cons_drop, take_append_drop]
  have hset : queue.set i e' = queue.take i ++ e' :: queue.drop (i + 1) := by
    rw [set_eq_take_append_cons_drop, if_pos hlt]
  rw [hset]
  conv_rhs => rw [hsplit]
  rw [memEntries_append, memEntries_append, memEntries, memEntries, memEntries,
    filter_cons_of_neg (by rw [he', he]; exact Bool.false_ne_true),
    filter_cons_of_neg (by rw [he]; exact Bool.false_ne_true)]

theorem memEntries_drop {queue : List (FpSsEntry w)} {n : Nat} (h : ∀ e ∈ queue.take n, e.insn.kind.isMem = false) :
    memEntries (queue.drop n) = memEntries queue := by
  conv_rhs => rw [← take_append_drop n queue]
  rw [memEntries_append, memEntries_eq_nil h, nil_append]

namespace FpSs

variable {cfg : FpConfig} {s : FpSs w} {env : FpEnv} {entry : FpSsEntry w} {args : List InsnArg} {last : Bool}

/-! ## Executions -/

/-- A request that is taken for an access, before it is sent. -/
def take (s : FpSs w) (req : FpLsuReq w) : FpSs w :=
  { s with
    lsu := { s.lsu with free := s.lsu.free - 1 }
    fpReady := if req.isRead then Function.update s.fpReady req.reg none else s.fpReady }

theorem lsuAccess_eq (req : FpLsuReq w) (status : LsuStatus) :
    s.lsuAccess cfg req status = (s.take req).lsuSend cfg req status := rfl

def lsuAfter (cfg : FpConfig) (s : FpSs w) (env : FpEnv) (entry : FpSsEntry w) (args : List InsnArg) (last : Bool) :
    FpLsu w :=
  if entry.insn.kind.isMem then (s.lsuAccess cfg (lsuReq entry args last) env.status).lsu else s.lsu

/-- The scoreboard after an instruction. -/
def readyAfter (cfg : FpConfig) (s : FpSs w) (env : FpEnv) (entry : FpSsEntry w) (args : List InsnArg) (last : Bool) :
    Fin 32 → Option Int :=
  let ready := if entry.insn.kind.isMem then (s.lsuAccess cfg (lsuReq entry args last) env.status).fpReady
    else s.fpReady
  if entry.insn.kind = .load then ready else args.foldl (setResult cfg env (s.cycle + entry.insn.latency)) ready

theorem after_congr {s' : FpSs w} (hlsu : s'.lsu = s.lsu) (hready : s'.fpReady = s.fpReady)
    (hcycle : s'.cycle = s.cycle) :
    s'.lsuAfter cfg env entry args last = s.lsuAfter cfg env entry args last ∧
      s'.readyAfter cfg env entry args last = s.readyAfter cfg env entry args last := by
  rw [lsuAfter, lsuAfter, readyAfter, readyAfter, lsuAccess, lsuAccess]
  cases env.status <;> simp [lsuSend, hlsu, hready, hcycle]

theorem execute_eq (index : Nat) : ∃ div completions event, s.execute cfg env index entry args last = { s with
    queue := s.queue.set index { entry with caqPending := false }
    executed := s.executed ++ [(entry.insn.entry, args)]
    fpReady := s.readyAfter cfg env entry args last, lsu := s.lsuAfter cfg env entry args last
    divsqrtReady := div, completions := completions, fsmEvent := event } := by
  rw [execute, readyAfter, lsuAfter]
  by_cases hmem : entry.insn.kind.isMem = true
  · simp only [hmem, if_true, complete_of_mem, ite_self]
    cases env.status with
    | done latency =>
      rw [setResults]
      split
      · exact ⟨_, _, _, rfl⟩
      · exact ⟨_, _, _, rfl⟩
    | granted =>
      rw [setResults]
      split
      · exact ⟨_, _, _, rfl⟩
      · exact ⟨_, _, _, rfl⟩
    | denied =>
      rw [setResults]
      split
      · exact ⟨_, _, _, rfl⟩
      · exact ⟨_, _, _, rfl⟩
  · have hload : entry.insn.kind ≠ .load := fun h => hmem (by rw [h]; rfl)
    rw [if_neg hmem, if_neg hmem, if_neg hmem, if_neg hload, setResults, if_neg hload]
    cases last with
    | false => exact ⟨_, _, _, rfl⟩
    | true =>
      rw [if_pos rfl, complete]
      split
      · exact ⟨_, _, _, rfl⟩
      · exact ⟨_, _, _, rfl⟩
      · exact ⟨_, _, _, rfl⟩
      · exact ⟨_, _, _, rfl⟩

theorem entryArgs_zero (mask : Nat) : entryArgs mask entry 0 = (entry, entry.insn.args) := rfl

theorem entryArgs_eq (mask offset : Nat) : ∃ copies args, entryArgs mask entry offset =
    ({ entry with staggerInsns := copies }, args) := by
  rw [entryArgs, getStaggerInsn]
  split
  · split
    · exact ⟨_, _, rfl⟩
    · exact ⟨_, _, rfl⟩
  · exact ⟨_, _, rfl⟩

/-- `issue_entry` executes the entry that `entryAt` says; otherwise at most the copies of an entry change. -/
theorem issueEntry_eq (mask index offset : Nat) :
    (∃ e copies args, s.queue[index]? = some e ∧ s.checkOperands cfg env e.insn args = true ∧ e.readyCycle ≤ s.cycle ∧
      entryArgs mask e offset = ({ e with staggerInsns := copies }, args) ∧
      s.entryAt cfg env mask index offset = some ({ e with staggerInsns := copies }, args) ∧
      s.issueEntry cfg env mask index offset last =
        ({ s with queue := s.queue.set index { e with staggerInsns := copies } }.execute cfg env index
          { e with staggerInsns := copies } args last, true)) ∨
      (s.entryAt cfg env mask index offset = none ∧
        ∃ queue, s.issueEntry cfg env mask index offset last = ({ s with queue := queue }, false) ∧
          (queue = s.queue ∨ ∃ e copies args, s.queue[index]? = some e ∧
            entryArgs mask e offset = ({ e with staggerInsns := copies }, args) ∧
            queue = s.queue.set index { e with staggerInsns := copies })) := by
  rw [entryAt, issueEntry]
  cases he : s.queue[index]? with
  | none => exact .inr ⟨rfl, _, rfl, .inl rfl⟩
  | some e =>
    dsimp only
    by_cases hready : e.readyCycle > s.cycle
    · rw [if_pos hready, if_pos hready]
      exact .inr ⟨rfl, _, rfl, .inl rfl⟩
    · obtain ⟨copies, args, hargs⟩ := @entryArgs_eq _ e mask offset
      rw [if_neg hready, if_neg hready, hargs]
      by_cases hcheck : s.checkOperands cfg env e.insn args = true
      · left
        refine ⟨e, copies, args, rfl, hcheck, not_lt.1 hready, hargs, by rw [if_pos hcheck], ?_⟩
        exact if_pos hcheck
      · right
        refine ⟨if_neg hcheck, s.queue.set index { e with staggerInsns := copies }, if_neg hcheck, .inr ?_⟩
        exact ⟨e, copies, args, rfl, hargs, rfl⟩

/-! ## A turn of `issue()` -/

/-- What the execution of an entry, or none, changes. -/
inductive Executes (cfg : FpConfig) (env : FpEnv) (s s' : FpSs w) : Option (FpSsEntry w × List InsnArg × Bool) → Prop
  | none (lsu : s'.lsu = s.lsu) (ready : s'.fpReady = s.fpReady) (executed : s'.executed = s.executed)
      (mem : memEntries s'.queue = memEntries s.queue) : Executes cfg env s s' none
  | some {entry : FpSsEntry w} {args : List InsnArg} {last : Bool}
      (check : s.checkOperands cfg env entry.insn args = true) (lsu : s'.lsu = s.lsuAfter cfg env entry args last)
      (ready : s'.fpReady = s.readyAfter cfg env entry args last)
      (executed : s'.executed = s.executed ++ [(entry.insn.entry, args)])
      (insn : entry.insn ∈ s.queue.map (·.insn))
      (args_eq : entry.insn.kind.isMem = true → args = entry.insn.args ∧ last = true)
      (mem : memEntries s.queue = (if entry.insn.kind.isMem then [entry] else []) ++ memEntries s'.queue) :
      Executes cfg env s s' (some (entry, args, last))

theorem Executes.congr {s₁ s' : FpSs w} {x : Option (FpSsEntry w × List InsnArg × Bool)} (h : Executes cfg env s₁ s' x)
    (hlsu : s₁.lsu = s.lsu) (hready : s₁.fpReady = s.fpReady) (hcycle : s₁.cycle = s.cycle)
    (hdiv : s₁.divsqrtReady = s.divsqrtReady) (hexec : s₁.executed = s.executed)
    (hmem : memEntries s.queue = memEntries s₁.queue)
    (hinsn : ∀ x ∈ s₁.queue.map (·.insn), x ∈ s.queue.map (·.insn)) : Executes cfg env s s' x := by
  cases h with
  | none lsu ready executed mem =>
    exact .none (lsu.trans hlsu) (ready.trans hready) (executed.trans hexec) (mem.trans hmem.symm)
  | some check lsu ready executed insn args_eq mem =>
    obtain ⟨hlsu', hready'⟩ := @after_congr _ cfg s env _ _ _ s₁ hlsu hready hcycle
    refine .some ?_ (lsu.trans hlsu') (ready.trans hready') (by rw [executed, hexec]) (hinsn _ insn) args_eq
      (hmem.trans mem)
    rw [checkOperands] at check ⊢
    have harg : s.argReady cfg env = s₁.argReady cfg env := by
      funext kind arg
      rw [argReady, argReady, hready, hcycle]
    rw [harg, ← hlsu, ← hdiv, ← hcycle]
    exact check

/-- What a turn does not change: the instructions leave the queue at its head. -/
structure Frame (s s' : FpSs w) : Prop where
  rest : s'.rest = s.rest
  cycle : s'.cycle = s.cycle
  caq : s'.caq = s.caq
  terminated : s'.terminated = s.terminated
  queue : ∃ popped, s.queue.map (·.insn) = popped ++ s'.queue.map (·.insn)

/-- The body of a loop, as far as it is in the queue, has no loads and stores. -/
def LoopOnly (s : FpSs w) (loop : FrepLoop) : Prop :=
  loop.insn < loop.nbInsns ∧ ∀ x ∈ (s.queue.map (·.insn) ++ s.rest).take loop.nbInsns, x.kind.isMem = false

theorem popEntry_iterate_eq (n : Nat) : ∃ nbInsns bypass, popEntry^[n] s =
    { s with queue := s.queue.drop n, nbInsns := nbInsns, pendingBypass := bypass } := by
  induction n generalizing s with
  | zero => exact ⟨_, _, rfl⟩
  | succ n ih =>
    obtain ⟨nbInsns, bypass, heq⟩ := ih (s := s.popEntry)
    refine ⟨nbInsns, bypass, ?_⟩
    rw [Function.iterate_succ_apply, heq, popEntry]
    rw [drop_tail]

theorem map_insn_set_of {queue : List (FpSsEntry w)} {i : Nat} {e e' : FpSsEntry w} (hi : queue[i]? = some e)
    (he : e'.insn = e.insn) : (queue.set i e').map (·.insn) = queue.map (·.insn) := by
  obtain ⟨hlt, rfl⟩ := List.getElem?_eq_some_iff.1 hi
  rw [map_set, he]
  have h := @set_getElem_self _ (queue.map (·.insn)) i (by simpa using hlt)
  rwa [getElem_map] at h

theorem LoopOnly.insn {loop : FrepLoop} {i : Nat} {e : FpSsEntry w} (h : s.LoopOnly loop) (hi : s.queue[i]? = some e)
    (hlt : i < loop.nbInsns) : e.insn.kind.isMem = false := by
  obtain ⟨hlen, rfl⟩ := List.getElem?_eq_some_iff.1 hi
  refine h.2 _ (mem_take_iff_getElem.2 ⟨i, ?_, ?_⟩)
  · simp only [length_append, length_map]
    omega
  · rw [getElem_append_left (by rw [length_map]; exact hlen), getElem_map]

theorem LoopOnly.take {loop : FrepLoop} (h : s.LoopOnly loop) : ∀ e ∈ s.queue.take loop.nbInsns,
    e.insn.kind.isMem = false := by
  intro e he
  obtain ⟨i, hi, rfl⟩ := mem_take_iff_getElem.1 he
  exact h.insn (getElem?_eq_getElem (by omega)) (by omega)

theorem issueLoop_spec {loop : FrepLoop} (hl : s.loop = some loop) (h : s.LoopOnly loop) :
    Executes cfg env s (s.issueLoop cfg env loop).1 (s.loopEntry cfg env loop) ∧
      Frame s (s.issueLoop cfg env loop).1 ∧
      ∀ loop', (s.issueLoop cfg env loop).1.loop = some loop' →
        loop'.nbInsns = loop.nbInsns ∧ (s.issueLoop cfg env loop).1.queue.map (·.insn) = s.queue.map (·.insn) := by
  rw [loopEntry, issueLoop]
  split
  case isTrue hge =>
    have hnone : s.queue[loop.insn]? = none := getElem?_eq_none hge
    rw [entryAt, hnone]
    exact ⟨.none rfl rfl rfl rfl, ⟨rfl, rfl, rfl, rfl, [], rfl⟩, fun loop' hl' => by
      rw [hl] at hl'; cases hl'; exact ⟨rfl, rfl⟩⟩
  case isFalse =>
    dsimp only
    rcases @issueEntry_eq _ cfg s env (decide (loop.rpt = loop.nbRpt - 1)) loop.staggerMask loop.insn
      (stagger loop) with ⟨e, copies, args, he, hcheck, -, -, hat, hissue⟩ | ⟨hat, queue, hissue, hqueue⟩
    · have hmem := h.insn he h.1
      obtain ⟨div, completions, event, hexec⟩ := @execute_eq _ cfg
        { s with queue := s.queue.set loop.insn { e with staggerInsns := copies } } env
        { e with staggerInsns := copies } args (decide (loop.rpt = loop.nbRpt - 1)) loop.insn
      rw [hat, hissue, hexec]
      obtain ⟨hlsu, hready⟩ := @after_congr _ cfg s env { e with staggerInsns := copies } args
        (decide (loop.rpt = loop.nbRpt - 1)) { s with queue := s.queue.set loop.insn { e with staggerInsns := copies } }
        rfl rfl rfl
      rw [hlsu, hready, set_set]
      have hq := @memEntries_set _ _ _ _ { e with staggerInsns := copies, caqPending := false } he hmem rfl
      have hi := @map_insn_set_of _ _ _ _ { e with staggerInsns := copies, caqPending := false } he rfl
      have hnone : ¬e.insn.kind.isMem = true := by rw [hmem]; exact Bool.false_ne_true
      have hin : e.insn ∈ s.queue.map (·.insn) := mem_map_of_mem (mem_of_getElem? he)
      cases hnext : loopNext loop with
      | mk loop' done =>
        have hinsns := loopNext_nbInsns loop
        rw [hnext] at hinsns
        dsimp only at hinsns ⊢
        cases done with
        | false =>
          refine ⟨.some hcheck rfl rfl rfl hin (fun h => absurd h hnone) ?_, ⟨rfl, rfl, rfl, rfl, [], hi.symm⟩, ?_⟩
          · rw [if_neg hnone]
            exact hq.symm
          · intro l hl'
            cases hl'
            exact ⟨hinsns, hi⟩
        | true =>
          rw [if_pos rfl, hinsns]
          obtain ⟨nbInsns, bypass, hpop⟩ := popEntry_iterate_eq loop.nbInsns (s := { s with
            queue := s.queue.set loop.insn { e with staggerInsns := copies, caqPending := false }
            executed := s.executed ++ [(e.insn.entry, args)]
            fpReady := s.readyAfter cfg env { e with staggerInsns := copies } args (decide (loop.rpt = loop.nbRpt - 1))
            lsu := s.lsuAfter cfg env { e with staggerInsns := copies } args (decide (loop.rpt = loop.nbRpt - 1))
            divsqrtReady := div, completions := completions, fsmEvent := event })
          rw [hpop]
          refine ⟨.some hcheck rfl rfl rfl hin (fun h => absurd h hnone) ?_, ⟨rfl, rfl, rfl, rfl, ?_⟩, ?_⟩
          · rw [if_neg hnone, nil_append]
            have htake : ∀ x ∈ (s.queue.set loop.insn { e with staggerInsns := copies, caqPending := false }).take
                loop.nbInsns, x.insn.kind.isMem = false := by
              intro x hx
              have hx := mem_map_of_mem (f := FpSsEntry.insn) hx
              rw [map_take, hi, ← map_take] at hx
              obtain ⟨y, hy, hxy⟩ := mem_map.1 hx
              rw [← hxy]
              exact h.take y hy
            rw [memEntries_drop htake, hq]
          · refine ⟨(s.queue.map (·.insn)).take loop.nbInsns, ?_⟩
            rw [map_drop, hi, take_append_drop]
          · intro l hl'
            cases hl'
    · rw [hat, hissue]
      have hsame : memEntries queue = memEntries s.queue ∧ queue.map (·.insn) = s.queue.map (·.insn) := by
        rcases hqueue with rfl | ⟨e, copies, args, he, -, rfl⟩
        · exact ⟨rfl, rfl⟩
        · exact ⟨memEntries_set he (h.insn he h.1) rfl, map_insn_set_of he rfl⟩
      exact ⟨.none rfl rfl rfl hsame.1, ⟨rfl, rfl, rfl, rfl, [], hsame.2.symm⟩, fun loop' hl' => by
        rw [show s.loop = some loop' from hl'] at hl; cases hl; exact ⟨rfl, hsame.2⟩⟩

/-- The turn of an instruction on its own in `issue()`. -/
def issueHead (cfg : FpConfig) (env : FpEnv) (s : FpSs w) : FpSs w × Bool :=
  match s.issueEntry cfg env 0 0 0 true with
  | (s, false) => (s, false)
  | (s, true) => (s.popEntry, true)

theorem issueHead_spec {head : FpSsEntry w} {queue : List (FpSsEntry w)} (hq : s.queue = head :: queue) :
    Executes cfg env s (s.issueHead cfg env).1 ((s.entryAt cfg env 0 0 0).map fun x => (x.1, x.2, true)) ∧
      Frame s (s.issueHead cfg env).1 ∧ (s.issueHead cfg env).1.loop = s.loop := by
  rw [issueHead]
  have hhead : s.queue[0]? = some head := by rw [hq]; rfl
  rcases @issueEntry_eq _ cfg s env true 0 0 0 with
    ⟨e, copies, args, he, hcheck, -, hargs, hat, hissue⟩ | ⟨hat, queue', hissue, hqueue⟩
  · rw [hhead] at he
    cases he
    rw [entryArgs_zero, Prod.mk.injEq] at hargs
    obtain ⟨hself, rfl⟩ := hargs
    rw [← hself] at hat hissue
    obtain ⟨div, completions, event, hexec⟩ := @execute_eq _ cfg { s with queue := s.queue.set 0 head } env head
      head.insn.args true 0
    obtain ⟨hlsu, hready⟩ := @after_congr _ cfg s env head head.insn.args true
      { s with queue := s.queue.set 0 head } rfl rfl rfl
    rw [hat, hissue, hexec]
    rw [hlsu, hready, hq]
    refine ⟨.some hcheck rfl rfl rfl (by rw [hq]; exact mem_cons_self) (fun _ => ⟨rfl, rfl⟩) ?_,
      ⟨rfl, rfl, rfl, rfl, [head.insn], ?_⟩, rfl⟩
    · rw [hq, memEntries, filter_cons]
      split
      · rfl
      · rfl
    · rw [hq]
      rfl
  · rw [hat, hissue]
    have hsame : queue' = s.queue := by
      rcases hqueue with rfl | ⟨e, copies, args, he, hargs, rfl⟩
      · rfl
      · rw [hhead] at he
        cases he
        rw [entryArgs_zero, Prod.mk.injEq] at hargs
        rw [← hargs.1, hq]
        rfl
    rw [hsame]
    exact ⟨.none rfl rfl rfl rfl, ⟨rfl, rfl, rfl, rfl, [], rfl⟩, rfl⟩

/-- What follows an FREP at the head of a list of instructions has no loads and stores. -/
def HeadOnly (insns : List (FpInsn w)) : Prop := ∀ head rest, insns = head :: rest → head.kind.isFrep = true →
  ∀ x ∈ rest.take (head.uim2 + 1), x.kind.isMem = false

theorem issue_spec (hloop : ∀ loop, s.loop = some loop → s.LoopOnly loop)
    (hfrep : s.loop = none → HeadOnly (s.queue.map (·.insn) ++ s.rest)) :
    Executes cfg env s (s.issue cfg env).1 (s.issuing cfg env) ∧ Frame s (s.issue cfg env).1 ∧
      ∀ loop, (s.issue cfg env).1.loop = some loop →
        ∀ x ∈ ((s.issue cfg env).1.queue.map (·.insn) ++ s.rest).take loop.nbInsns, x.kind.isMem = false := by
  rw [issue, issuing]
  cases hl : s.loop with
  | some loop =>
    obtain ⟨hexec, hframe, hnext⟩ := @issueLoop_spec _ cfg s env loop hl (hloop loop hl)
    refine ⟨hexec, hframe, fun loop' hl' => ?_⟩
    obtain ⟨hinsns, hqueue⟩ := hnext loop' hl'
    rw [hinsns, hqueue]
    exact (hloop loop hl).2
  | none =>
    cases hq : s.queue with
    | nil =>
      exact ⟨.none rfl rfl rfl rfl, ⟨rfl, rfl, rfl, rfl, [], rfl⟩, fun loop hl' => by
        rw [show s.loop = some loop from hl'] at hl; cases hl⟩
    | cons head queue =>
      dsimp only
      by_cases hready : head.readyCycle > s.cycle
      · rw [if_pos hready, if_pos hready]
        exact ⟨.none rfl rfl rfl rfl, ⟨rfl, rfl, rfl, rfl, [], rfl⟩, fun loop hl' => by
          rw [show s.loop = some loop from hl'] at hl; cases hl⟩
      · rw [if_neg hready, if_neg hready]
        cases hkind : head.insn.kind.isFrep with
        | false =>
          rw [if_neg Bool.false_ne_true, if_neg Bool.false_ne_true]
          obtain ⟨hexec, hframe, hsame⟩ := @issueHead_spec _ cfg s env head queue hq
          refine ⟨hexec, hframe, fun loop hl' => ?_⟩
          cases (hsame.trans hl).symm.trans hl'
        | true =>
          rw [if_pos rfl, if_pos rfl]
          have hbody : ∀ x ∈ (queue.map (·.insn) ++ s.rest).take (head.insn.uim2 + 1), x.kind.isMem = false :=
            hfrep hl head.insn _ (by rw [hq]; rfl) hkind
          have hmem : head.insn.kind.isMem = false := by
            cases hk : head.insn.kind <;> rw [hk] at hkind <;> first | rfl | cases hkind
          obtain ⟨hexec, hframe, hnext⟩ := @issueLoop_spec _ cfg
            { s.completeAt head.insn.entry s.cycle with
              loop := some (loopStart head.insn), queue := queue, nbFreps := s.nbFreps - 1 } env
                (loopStart head.insn) rfl
            ⟨Nat.succ_pos _, hbody⟩
          have hnil : memEntries s.queue = memEntries queue := by
            rw [hq, memEntries, filter_cons_of_neg (by rw [hmem]; exact Bool.false_ne_true)]
            rfl
          obtain ⟨popped, hpopped⟩ := hframe.queue
          refine ⟨?_, ⟨hframe.rest, hframe.cycle, hframe.caq, hframe.terminated, head.insn :: popped, ?_⟩,
            fun loop hl' x hx => ?_⟩
          · exact hexec.congr rfl rfl rfl rfl rfl hnil fun x hx => by
              rw [hq]
              exact mem_cons_of_mem _ hx
          · rw [hq]
            exact congrArg (head.insn :: ·) hpopped
          · obtain ⟨hinsns, hqueue⟩ := hnext loop hl'
            rw [hinsns] at hx
            exact hbody x ((congrArg (fun insns => x ∈ (insns ++ s.rest).take (head.insn.uim2 + 1)) hqueue).mp hx)

end FpSs

end GvsocPulp.Snitchv2
