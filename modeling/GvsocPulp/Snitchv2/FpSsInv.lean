import GvsocPulp.Lib.Run
import GvsocPulp.Snitchv2.Frep

/-!
# The invariant of the FP subsystem

What the queue, the running loop, the counters, the accesses of the LSU and the held instructions say about each other
in every reachable state; one structure for each of these, and the effect of an execution (`execute_spec`) on them.
-/

namespace GvsocPulp.Snitchv2

open Lib Function List FpSs FpLsu

variable {w : Nat}

def FpLsu.reqs (lsu : FpLsu w) : List (FpLsuReq w) := lsu.denied.toList ++ lsu.syncReqs ++ lsu.inFlight

/-! ## The parts of the invariant -/

/-- The running loop, with its body and what is left of it. -/
inductive RunningLoop (cfg : FpConfig) : Option FrepLoop → List (FpInsn w) → List (Nat × List InsnArg) → Prop
  | none : RunningLoop cfg none [] []
  | some {frep : FpInsn w} {body : List (FpInsn w)} {loop : FrepLoop} (hok : LoopOk frep body loop)
      (hbody : ∀ b ∈ body, b.kind.isFrep = false ∧ b.kind.isBypass = false)
      (hlen : body.length ≤ cfg.seqBufferSize + 1) : RunningLoop cfg (some loop) body (loopTodo frep body loop)

/-- The program in execution: what has been executed, what the running loop has left, and the blocks after it; their
instructions are those in the queue and those not offloaded yet. -/
structure OrderOk (cfg : FpConfig) (prog : List (Block w)) (queue : List (FpInsn w)) (rest : List (FpInsn w))
    (loop : Option FrepLoop) (executed : List (Nat × List InsnArg)) (body : List (FpInsn w))
    (todo : List (Nat × List InsnArg)) (bs : List (Block w)) : Prop where
  loop : RunningLoop cfg loop body todo
  blocks : ∀ b ∈ bs, b.Ok cfg
  insns : queue ++ rest = body ++ program bs
  executed : executed ++ todo ++ unroll bs = unroll prog

structure CountOk (prog : List (Block w)) (queue : List (FpInsn w)) (rest : List (FpInsn w)) (nbInsns nbFreps : Int)
    (pendingBypass : Bool) (nbInflight : Int) (terminated : List Nat) : Prop where
  nbInsns : nbInsns = (queue.filter fun insn => !insn.kind.isFrep).length
  nbFreps : nbFreps = (queue.filter fun insn => insn.kind.isFrep).length
  bypass : (queue.filter fun insn => insn.kind.isBypass).length = pendingBypass.toNat
  nbInflight : nbInflight + terminated.length + rest.length = (program prog).length

/-- How many instructions at the head of the queue have had their last execution. -/
def queueDone (loop : Option FrepLoop) : Nat := (loop.map lastDone).getD 0

/-- How many instructions at the head of the queue have had an execution. -/
def queueStarted (loop : Option FrepLoop) : Nat := (loop.map firstDone).getD 0

/-- Each held instruction is in one place: terminated, about to be, with the LSU, in the queue, or not offloaded. -/
def HeldOk (prog : List (Block w)) (terminated : List Nat) (completions : List (Int × Nat)) (lsu : List (FpLsuReq w))
    (queue : List (FpInsn w)) (rest : List (FpInsn w)) : Prop :=
  (terminated ++ (completions.map (·.2) ++ lsu.filterMap (·.entry)) ++ (queue ++ rest).map (·.entry)).Perm
    ((program prog).map (·.entry))

def CopiesOk (queue : List (FpSsEntry w)) (loop : Option FrepLoop) : Prop :=
  ∀ (i : Nat) (e : FpSsEntry w), queue[i]? = some e → e.staggerInsns = [] ∨
    ∃ l, loop = some l ∧ i < l.nbInsns ∧ ∀ (o : Nat) (copy : List InsnArg), e.staggerInsns[o]? = some (some copy) →
      copy = staggerArgs l.staggerMask (o + 1) e.insn.args

/-- The consistency address queue: the loads and stores not executed yet, and the first accesses of the others. -/
structure CaqOk (caq : List (BitVec w)) (queue : List (FpSsEntry w)) (lsu : List (FpLsuReq w)) (started : Nat) :
    Prop where
  caq : caq.Perm ((queue.filter (·.caqPending)).map (fun e => FpSs.wordAddr e.insn.intValue) ++
    (lsu.filter (·.caqRelease)).map (·.caqAddr))
  mem : ∀ e ∈ queue, e.caqPending = true → e.insn.kind.isMem = true
  started : ∀ (i : Nat) (e : FpSsEntry w), queue[i]? = some e → i < started → e.caqPending = false

/-- The LSU: each access has one of its requests, and a register that waits has a load for it. -/
structure LsuOk (cfg : FpConfig) (lsu : FpLsu w) (fpReady : Fin 32 → Option Int) : Prop where
  free : lsu.free + lsu.reqs.length = cfg.lsuNbOutstanding
  ready : ∀ reg, fpReady reg = none → ∃ req ∈ lsu.denied.toList ++ lsu.inFlight, req.isRead = true ∧ req.reg = reg

/-! ## Executions -/

section Execute

variable {cfg : FpConfig} {s : FpSs w} {env : FpEnv}

theorem ready_of_setResult {done : Int} {args : List InsnArg} {ready : Fin 32 → Option Int} {reg : Fin 32}
    (h : args.foldl (setResult cfg env done) ready reg = none) : ready reg = none := by
  induction args generalizing ready with
  | nil => exact h
  | cons arg args ih =>
    have h := ih h
    rw [setResult] at h
    split at h
    · by_cases hreg : reg = arg.lid
      · rw [hreg, update_self] at h
        cases h
      · rwa [update_of_ne hreg] at h
    · exact h

theorem lsuSend_spec (req : FpLsuReq w) (status : LsuStatus) (hd : s.lsu.denied = none)
    (hready : ∀ reg, s.fpReady reg = none → (req.isRead = true ∧ req.reg = reg) ∨
      ∃ r ∈ s.lsu.inFlight, r.isRead = true ∧ r.reg = reg) :
    ∃ t ready lsu event, s.lsuSend cfg req status = { s with fpReady := ready, lsu := lsu, fsmEvent := event } ∧
      lsu.free = s.lsu.free ∧ lsu.reqs.Perm ({ req with timestamp := t } :: s.lsu.reqs) ∧
      (∀ reg, ready reg = none → ∃ r ∈ lsu.denied.toList ++ lsu.inFlight, r.isRead = true ∧ r.reg = reg) ∧
      (s.fsmEvent = true → event = true) ∧ (lsu.syncReqs = s.lsu.syncReqs ∨ event = true) := by
  cases status with
  | done latency =>
    refine ⟨s.cycle + latency, _, _, true, rfl, rfl, ?_, fun reg hreg => ?_, fun _ => rfl, .inr rfl⟩
    · rw [reqs, reqs, append_assoc, append_assoc, singleton_append, append_assoc,
        ← append_assoc, ← append_assoc]
      exact perm_middle
    · have hother : s.fpReady reg = none ∧ ¬(req.isRead = true ∧ req.reg = reg) := by
        split at hreg
        case isTrue hread =>
          by_cases heq : reg = req.reg
          · rw [heq, update_self] at hreg
            cases hreg
          · rw [update_of_ne heq] at hreg
            exact ⟨hreg, fun h => heq h.2.symm⟩
        case isFalse hread => exact ⟨hreg, fun h => hread h.1⟩
      rcases hready reg hother.1 with h | ⟨r, hr, h⟩
      · exact absurd h hother.2
      · exact ⟨r, mem_append_right _ hr, h⟩
  | granted =>
    refine ⟨req.timestamp, s.fpReady, _, s.fsmEvent, rfl, rfl, ?_, fun reg hreg => ?_, id, .inl rfl⟩
    · rw [reqs, reqs, ← append_assoc]
      exact perm_append_singleton _ _
    · rcases hready reg hreg with h | ⟨r, hr, h⟩
      · exact ⟨req, by simp, h⟩
      · exact ⟨r, by simp [hr], h⟩
  | denied =>
    refine ⟨req.timestamp, s.fpReady, _, s.fsmEvent, rfl, rfl, ?_, fun reg hreg => ?_, id, .inl rfl⟩
    · rw [reqs, reqs, hd]
      exact Perm.refl _
    · rcases hready reg hreg with h | ⟨r, hr, h⟩
      · exact ⟨req, by simp, h⟩
      · exact ⟨r, by simp [hr], h⟩

theorem lsu_of_checkOperands {insn : FpInsn w} {args : List InsnArg} (h : s.checkOperands cfg env insn args = true)
    (hmem : insn.kind.isMem = true) : s.lsu.free ≠ 0 ∧ s.lsu.denied = none := by
  rw [checkOperands] at h
  simpa [hmem] using (Bool.and_eq_true_iff.1 (Bool.and_eq_true_iff.1 h).1).2

theorem lsuAccess_spec {req : FpLsuReq w} {status : LsuStatus} (hlsu : LsuOk cfg s.lsu s.fpReady)
    (hfree : s.lsu.free ≠ 0) (hd : s.lsu.denied = none) :
    ∃ t ready lsu event, s.lsuAccess cfg req status = { s with fpReady := ready, lsu := lsu, fsmEvent := event } ∧
      lsu.reqs.Perm ({ req with timestamp := t } :: s.lsu.reqs) ∧ LsuOk cfg lsu ready ∧
      (s.fsmEvent = true → event = true) := by
  obtain ⟨t, ready, lsu, event, heq, hfree', hperm, hready, hevent, -⟩ :=
    @lsuSend_spec w cfg { s with
      lsu := { s.lsu with free := s.lsu.free - 1 }
      fpReady := if req.isRead then update s.fpReady req.reg none else s.fpReady } req status hd
      fun reg hreg => by
        dsimp only at hreg
        by_cases hself : req.isRead = true ∧ req.reg = reg
        · exact .inl hself
        · right
          have hwait : s.fpReady reg = none := by
            split at hreg
            case isTrue hread =>
              rwa [update_of_ne fun h => hself ⟨hread, h.symm⟩] at hreg
            case isFalse => exact hreg
          obtain ⟨r, hr, h⟩ := hlsu.ready reg hwait
          rw [hd] at hr
          exact ⟨r, hr, h⟩
  refine ⟨t, ready, lsu, event, heq, hperm, ⟨?_, hready⟩, hevent⟩
  have hlen : lsu.reqs.length = s.lsu.reqs.length + 1 := hperm.length_eq
  have hfree' : lsu.free = s.lsu.free - 1 := hfree'
  have := hlsu.free
  omega

theorem setResults_spec (kind : FpSsKind) (args : List InsnArg) (done : Int) : ∃ ready,
    s.setResults cfg env kind args done = { s with fpReady := ready } ∧
      ∀ reg, ready reg = none → s.fpReady reg = none := by
  rw [setResults]
  split
  · exact ⟨s.fpReady, rfl, fun _ h => h⟩
  · exact ⟨_, rfl, fun _ h => ready_of_setResult h⟩

theorem complete_of_mem {insn : FpInsn w} (h : insn.kind.isMem = true) (done : Int) : s.complete cfg insn done = s := by
  rw [complete]
  cases hk : insn.kind <;> simp_all [FpSsKind.isMem]

theorem complete_of_not_mem {insn : FpInsn w} (h : insn.kind.isMem = false) (done : Int) :
    ∃ t, s.complete cfg insn done = { s with completions := s.completions ++ [(t, insn.entry)] } := by
  rw [complete]
  cases hk : insn.kind <;> simp_all [FpSsKind.isMem, completeAt]

/-- What an execution changes: the entry, the log, and the completions or the accesses of the LSU. -/
theorem execute_spec {index : Nat} {entry : FpSsEntry w} {args : List InsnArg} {last : Bool}
    (hlsu : LsuOk cfg s.lsu s.fpReady) (hcheck : s.checkOperands cfg env entry.insn args = true)
    (hcaq : entry.caqPending = true → entry.insn.kind.isMem = true) :
    ∃ ready div completions lsu event, s.execute cfg env index entry args last = { s with
        queue := s.queue.set index { entry with caqPending := false }
        executed := s.executed ++ [(entry.insn.entry, args)]
        fpReady := ready, divsqrtReady := div, completions := completions, lsu := lsu, fsmEvent := event } ∧
      (completions.map (·.2) ++ lsu.reqs.filterMap (·.entry)).Perm
        ((if last then [entry.insn.entry] else []) ++ (s.completions.map (·.2) ++ s.lsu.reqs.filterMap (·.entry))) ∧
      ((lsu.reqs.filter (·.caqRelease)).map (·.caqAddr)).Perm
        ((if entry.caqPending then [wordAddr entry.insn.intValue] else []) ++
          (s.lsu.reqs.filter (·.caqRelease)).map (·.caqAddr)) ∧
      LsuOk cfg lsu ready ∧ (s.fsmEvent = true → event = true) := by
  rw [execute]
  by_cases hmem : entry.insn.kind.isMem = true
  · obtain ⟨hfree, hd⟩ := lsu_of_checkOperands hcheck hmem
    obtain ⟨t, ready, lsu, event, heq, hperm, hlsu', hevent⟩ :=
      @lsuAccess_spec w cfg { s with
        queue := s.queue.set index { entry with caqPending := false }
        executed := s.executed ++ [(entry.insn.entry, args)] } (lsuReq entry args last) env.status hlsu hfree hd
    obtain ⟨ready', heq', hready'⟩ := @setResults_spec w cfg { s with
        queue := s.queue.set index { entry with caqPending := false }
        executed := s.executed ++ [(entry.insn.entry, args)]
        fpReady := ready, lsu := lsu, fsmEvent := event } env entry.insn.kind args (s.cycle + entry.insn.latency)
    rw [if_pos hmem, heq, heq', complete_of_mem hmem, ite_self]
    refine ⟨ready', _, s.completions, lsu, event, rfl, ?_, ?_,
      ⟨hlsu'.free, fun reg h => hlsu'.ready reg (hready' reg h)⟩, hevent⟩
    · have hentries := hperm.filterMap (·.entry)
      cases last with
      | true => exact (hentries.append_left _).trans perm_middle
      | false => exact hentries.append_left _
    · have hreleases := (hperm.filter (·.caqRelease)).map (·.caqAddr)
      cases hc : entry.caqPending with
      | true =>
        rw [filter_cons_of_pos (by exact hc)] at hreleases
        exact hreleases
      | false =>
        rw [filter_cons_of_neg (by simp [lsuReq, hc])] at hreleases
        exact hreleases
  · have hnot : entry.insn.kind.isMem = false := by simpa using hmem
    have hc : entry.caqPending = false := by
      cases hc : entry.caqPending with
      | false => rfl
      | true => exact absurd (hcaq hc) hmem
    obtain ⟨ready, heq, hready⟩ := @setResults_spec w cfg { s with
        queue := s.queue.set index { entry with caqPending := false }
        executed := s.executed ++ [(entry.insn.entry, args)] } env entry.insn.kind args (s.cycle + entry.insn.latency)
    rw [if_neg hmem, heq, hc]
    cases last with
    | true =>
      obtain ⟨t, hcomplete⟩ := @complete_of_not_mem w cfg { s with
        queue := s.queue.set index { entry with caqPending := false }
        executed := s.executed ++ [(entry.insn.entry, args)]
        fpReady := ready
        divsqrtReady := if entry.insn.divsqrt then s.cycle + entry.insn.latency else s.divsqrtReady } entry.insn hnot
        (s.cycle + entry.insn.latency)
      refine ⟨ready, _, s.completions ++ [(t, entry.insn.entry)], s.lsu, s.fsmEvent,
        (if_pos rfl).trans hcomplete, ?_, Perm.refl _, ⟨hlsu.free, fun reg h => hlsu.ready reg (hready reg h)⟩, id⟩
      rw [map_append, append_assoc]
      exact perm_middle
    | false =>
      exact ⟨ready, _, s.completions, s.lsu, s.fsmEvent, rfl, Perm.refl _, Perm.refl _,
        ⟨hlsu.free, fun reg h => hlsu.ready reg (hready reg h)⟩, id⟩

end Execute

/-! ## The invariant -/

/-- What holds in every reachable state. -/
structure FpInv (cfg : FpConfig) (prog : List (Block w)) (s : FpSs w) : Prop where
  order : ∃ body todo bs, OrderOk cfg prog (s.queue.map (·.insn)) s.rest s.loop s.executed body todo bs
  count : CountOk prog (s.queue.map (·.insn)) s.rest s.nbInsns s.nbFreps s.pendingBypass s.nbInflight s.terminated
  held : HeldOk prog s.terminated s.completions s.lsu.reqs ((s.queue.map (·.insn)).drop (queueDone s.loop)) s.rest
  copies : CopiesOk s.queue s.loop
  started : queueStarted s.loop ≤ s.queue.length
  caq : CaqOk s.caq s.queue s.lsu.reqs (queueStarted s.loop)
  lsu : LsuOk cfg s.lsu s.fpReady
  event : s.queue ≠ [] ∨ s.completions ≠ [] ∨ s.lsu.syncReqs ≠ [] → s.fsmEvent = true

section Copies

variable {mask offset : Nat} {entry : FpSsEntry w}

theorem staggerArgs_zero (mask : Nat) (args : List InsnArg) : staggerArgs mask 0 args = args := by
  rw [staggerArgs]
  refine (map_congr_left fun arg _ => ?_).trans (List.map_id args)
  split
  · split
    · simp
    · rfl
  · rfl

/-- The operands an entry is issued with are the staggered ones, also when the copy was made before. -/
theorem entryArgs_spec (h : ∀ (o : Nat) (copy : List InsnArg), entry.staggerInsns[o]? = some (some copy) →
      copy = staggerArgs mask (o + 1) entry.insn.args) :
    ∃ copies, entryArgs mask entry offset =
        ({ entry with staggerInsns := copies }, staggerArgs mask offset entry.insn.args) ∧
      (offset = 0 → copies = entry.staggerInsns) ∧
      ∀ (o : Nat) (copy : List InsnArg), copies[o]? = some (some copy) →
        copy = staggerArgs mask (o + 1) entry.insn.args := by
  rw [entryArgs]
  split
  case isFalse hzero =>
    rw [show offset = 0 by omega, staggerArgs_zero]
    exact ⟨entry.staggerInsns, rfl, fun _ => rfl, h⟩
  case isTrue hpos =>
    have hlong : ∀ (o : Nat) (copy : List InsnArg),
        (entry.staggerInsns ++ List.replicate (offset - entry.staggerInsns.length) none)[o]? = some (some copy) →
          copy = staggerArgs mask (o + 1) entry.insn.args := by
      intro o copy ho
      rw [getElem?_append] at ho
      split at ho
      · exact h o copy ho
      · rw [getElem?_replicate] at ho
        split at ho <;> cases ho
    rw [getStaggerInsn]
    split
    case h_1 copy hcopy =>
      have hcopy := hlong _ _ hcopy
      rw [show offset - 1 + 1 = offset by omega] at hcopy
      exact ⟨_, by rw [hcopy], fun hzero => absurd hzero hpos, hlong⟩
    case h_2 =>
      refine ⟨_, rfl, fun hzero => absurd hzero hpos, fun o copy ho => ?_⟩
      rw [getElem?_set] at ho
      split at ho
      case isTrue heq =>
        split at ho
        · cases ho
          rw [← heq, show offset - 1 + 1 = offset by omega]
        · cases ho
      case isFalse => exact hlong o copy ho

end Copies

end GvsocPulp.Snitchv2
