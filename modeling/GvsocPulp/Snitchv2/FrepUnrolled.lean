import GvsocPulp.Snitchv2.FpSsSteps

/-!
# FREP executes the unrolled program

What the invariant of `FpSsInv` says to the outside (`FrepSpec`): the executions are a prefix of those of the unrolled
program, no instruction is terminated twice or before its last execution, the counters count, and with an empty FPU the
subsystem is done, accepts the next instruction, or advances. `frep_unrolled` has it in every reachable state.
-/

namespace GvsocPulp.Snitchv2

open Lib List FpSs

variable {w : Nat}

variable {x : Nat × List InsnArg}

/-! ## The specification -/

/-- The FPU is empty: no instruction is about to be terminated and no access is under way. -/
def FpSs.Empty (s : FpSs w) : Prop := s.completions = [] ∧ s.lsu.reqs = []

/-- The whole program is executed and terminated. -/
structure FpSs.Finished (s : FpSs w) (prog : List (Block w)) : Prop where
  rest : s.rest = []
  queue : s.queue = []
  executed : s.executed = unroll prog
  terminated : s.terminated.Perm ((program prog).map (·.entry))

/-- The SSRs have data to read and room to write. -/
def FpEnv.Ready (env : FpEnv) : Prop := ∀ lane, env.canRead lane = true ∧ env.canWrite lane = true

/-- A call of `fsm_handler` in a later cycle executes an instruction or starts a loop. -/
def FpSs.Advances (cfg : FpConfig) (s : FpSs w) (cycle : Int) (env : FpEnv) : Prop :=
  s.executed.length < (({ s with cycle := cycle } : FpSs w).fsmHandler cfg env).executed.length ∨
    (({ s with cycle := cycle } : FpSs w).fsmHandler cfg env).nbFreps < s.nbFreps

/-- **What a state of the subsystem says about the program.** -/
structure FrepSpec (cfg : FpConfig) (prog : List (Block w)) (s : FpSs w) : Prop where
  executed : s.executed <+: unroll prog
  nodup : s.terminated.Nodup
  mem : ∀ entry ∈ s.terminated, entry ∈ (program prog).map (·.entry)
  last : ∀ entry ∈ s.terminated, ∀ x ∈ (unroll prog).drop s.executed.length, x.1 ≠ entry
  nbInsns : s.nbInsns = (s.queue.filter fun e => !e.insn.kind.isFrep).length
  nbFreps : s.nbFreps = (s.queue.filter fun e => e.insn.kind.isFrep).length
  bypass : (s.queue.filter fun e => e.insn.kind.isBypass).length = s.pendingBypass.toNat
  nbInflight : s.nbInflight = (program prog).length - s.rest.length - s.terminated.length
  progress : s.Empty → s.Finished prog ∨ (∃ s', s.offload cfg = some s') ∨
    s.fsmEvent = true ∧ ∃ first, ∀ cycle ≥ first, ∀ env : FpEnv, env.Ready → s.Advances cfg cycle env

/-! ## The instructions that are left -/

section Last

variable {cfg : FpConfig} {prog : List (Block w)} {s : FpSs w}

/-- A loop has nothing left of the instructions that have had their last execution. -/
theorem mem_loopTodo {frep : FpInsn w} {body : List (FpInsn w)} {loop : FrepLoop} (hok : LoopOk frep body loop)
    (hw : w < 64) (h : x ∈ loopTodo frep body loop) :
    ∃ b ∈ body.drop (lastDone loop), x.1 = b.entry := by
  rw [loopTodo] at h
  split at h
  case isTrue hin =>
    obtain ⟨b, hb, k, rfl⟩ := mem_innerTodo h
    exact ⟨b, by rwa [lastDone, if_pos hin], rfl⟩
  case isFalse hin =>
    by_cases hlast : loop.rpt = loop.nbRpt - 1
    · rw [lastDone_of_last hlast]
      have hreps := (hok.last_iff hw).1 hlast
      rcases mem_outerTodo h with ⟨b, hb, k, rfl⟩ | ⟨hlt, -⟩
      · exact ⟨b, hb, rfl⟩
      · omega
    · rw [lastDone, if_neg hin, if_neg hlast]
      rcases mem_outerTodo h with ⟨b, hb, k, rfl⟩ | ⟨-, b, hb, k, rfl⟩
      · exact ⟨b, mem_of_mem_drop hb, rfl⟩
      · exact ⟨b, hb, rfl⟩

theorem mem_unroll {bs : List (Block w)} (h : x ∈ unroll bs) :
    ∃ b ∈ program bs, x.1 = b.entry := by
  obtain ⟨block, hblock, h⟩ := mem_flatMap.1 h
  suffices hb : ∃ b ∈ block.insns, x.1 = b.entry by
    obtain ⟨b, hb, hx⟩ := hb
    exact ⟨b, mem_flatMap.2 ⟨block, hblock, hb⟩, hx⟩
  cases block with
  | single insn =>
    rw [Block.unroll, mem_singleton] at h
    exact ⟨insn, mem_singleton_self insn, by rw [h]⟩
  | frep insn body =>
    rw [Block.unroll] at h
    split at h
    · obtain ⟨b, hb, h⟩ := mem_flatMap.1 h
      obtain ⟨k, -, rfl⟩ := mem_map.1 h
      exact ⟨b, mem_cons_of_mem _ hb, rfl⟩
    · obtain ⟨k, -, h⟩ := mem_flatMap.1 h
      obtain ⟨b, hb, rfl⟩ := mem_map.1 h
      exact ⟨b, mem_cons_of_mem _ hb, rfl⟩

theorem FpInv.mem_left (h : FpInv cfg prog s) (hw : w < 64)
    (hx : x ∈ (unroll prog).drop s.executed.length) :
    x.1 ∈ ((s.queue.map (·.insn)).drop (queueDone s.loop) ++ s.rest).map (·.entry) := by
  obtain ⟨body, todo, bs, horder⟩ := h.order
  have hdone : queueDone s.loop ≤ (s.queue.map (·.insn)).length := by
    rw [length_map]
    exact (queueDone_le_started h).trans h.started
  rw [← horder.executed, append_assoc, drop_left] at hx
  rw [← drop_append_of_le_length hdone, horder.insns]
  suffices hb : ∃ b ∈ (body ++ program bs).drop (queueDone s.loop), x.1 = b.entry by
    obtain ⟨b, hb, hx⟩ := hb
    exact mem_map.2 ⟨b, hb, hx.symm⟩
  have hrunning := horder.loop
  cases hl : s.loop with
  | none =>
    rw [hl] at hrunning
    cases hrunning
    obtain ⟨b, hb, hxb⟩ := mem_unroll hx
    exact ⟨b, hb, hxb⟩
  | some loop =>
    rw [hl] at hrunning
    cases hrunning with
    | some hok hbody hlen =>
      have hle : lastDone loop ≤ body.length := by
        have hlt := hok.insn_lt
        rw [lastDone]
        split
        · omega
        · split <;> omega
      show ∃ b ∈ (body ++ program bs).drop (lastDone loop), x.1 = b.entry
      rw [drop_append_of_le_length hle]
      rcases mem_append.1 hx with hx | hx
      · obtain ⟨b, hb, hxb⟩ := mem_loopTodo hok hw hx
        exact ⟨b, mem_append_left _ hb, hxb⟩
      · obtain ⟨b, hb, hxb⟩ := mem_unroll hx
        exact ⟨b, mem_append_right _ hb, hxb⟩

end Last

/-! ## Progress -/

section Progress

variable {cfg : FpConfig} {prog : List (Block w)} {s : FpSs w} {env : FpEnv}

/-- With an empty FPU every instruction finds its operands from some cycle on. -/
theorem checkOperands_of_empty {insn : FpInsn w} {args : List InsnArg} (hlsu : LsuOk cfg s.lsu s.fpReady)
    (hempty : s.lsu.reqs = []) (henv : env.Ready) (hready : ∀ reg t, s.fpReady reg = some t → t ≤ s.cycle)
    (hdiv : s.divsqrtReady ≤ s.cycle) : s.checkOperands cfg env insn args = true := by
  have hfree := hlsu.free
  have hpos := cfg.lsuNbOutstanding_pos
  rw [hempty, length_nil] at hfree
  have hdenied : s.lsu.denied = none := by
    rw [FpLsu.reqs] at hempty
    simpa using (append_eq_nil_iff.1 (append_eq_nil_iff.1 hempty).1).1
  rw [checkOperands, Bool.and_eq_true, Bool.and_eq_true]
  refine ⟨⟨List.all_eq_true.2 fun arg _ => ?_, ?_⟩, ?_⟩
  · rw [argReady]
    split
    · rfl
    · split
      · split
        · exact (henv _).1
        · exact (henv _).2
      · cases hreg : s.fpReady arg.lid with
        | none =>
          obtain ⟨req, hreq, -⟩ := hlsu.ready _ hreg
          have hmem : req ∈ s.lsu.reqs := by
            rw [FpLsu.reqs]
            rcases mem_append.1 hreq with hreq | hreq
            · exact mem_append_left _ (mem_append_left _ hreq)
            · exact mem_append_right _ hreq
          rw [hempty] at hmem
          cases hmem
        | some t => simpa using hready _ t hreg
  · have hne : s.lsu.free ≠ 0 := by omega
    simp [hne, hdenied]
  · have hnot : ¬s.divsqrtReady > s.cycle := by omega
    simp [hnot]

theorem issueEntry_of_ready {mask index offset : Nat} {last : Bool} {entry : FpSsEntry w}
    (hi : s.queue[index]? = some entry) (hready : entry.readyCycle ≤ s.cycle)
    (hcheck : ∀ (queue : List (FpSsEntry w)) (insn : FpInsn w) (args : List InsnArg),
      ({ s with queue := queue } : FpSs w).checkOperands cfg env insn args = true) :
    ∃ s', s.issueEntry cfg env mask index offset last = (s', true) := by
  rw [issueEntry, hi]
  dsimp only
  rw [if_neg (by omega)]
  split
  case isTrue => exact ⟨_, rfl⟩
  case isFalse hnot => exact absurd (hcheck _ _ _) hnot

theorem execute_executed {index : Nat} {entry : FpSsEntry w} {args : List InsnArg} {last : Bool} :
    (s.execute cfg env index entry args last).executed.length = s.executed.length + 1 ∧
      (s.execute cfg env index entry args last).nbFreps = s.nbFreps := by
  have haccess : ∀ (s : FpSs w) (req : FpLsuReq w), (s.lsuAccess cfg req env.status).executed = s.executed ∧
      (s.lsuAccess cfg req env.status).nbFreps = s.nbFreps := by
    intro s req
    rw [lsuAccess]
    cases env.status <;> exact ⟨rfl, rfl⟩
  have hresults : ∀ (s : FpSs w) (done : Int),
      (s.setResults cfg env entry.insn.kind args done).executed = s.executed ∧
        (s.setResults cfg env entry.insn.kind args done).nbFreps = s.nbFreps := by
    intro s done
    rw [setResults]
    split <;> exact ⟨rfl, rfl⟩
  have hcomplete : ∀ (s : FpSs w) (done : Int), (s.complete cfg entry.insn done).executed = s.executed ∧
      (s.complete cfg entry.insn done).nbFreps = s.nbFreps := by
    intro s done
    rw [complete]
    split <;> exact ⟨rfl, rfl⟩
  rw [execute]
  split <;> split <;> simp [(hcomplete _ _).1, (hcomplete _ _).2, (hresults _ _).1, (hresults _ _).2, (haccess _ _).1,
    (haccess _ _).2]

theorem issueEntry_executed {mask index offset : Nat} {last done : Bool} {s' : FpSs w}
    (h : s.issueEntry cfg env mask index offset last = (s', done)) :
    s'.executed.length = s.executed.length + done.toNat ∧ s'.nbFreps = s.nbFreps := by
  rw [issueEntry] at h
  split at h
  case h_1 =>
    cases h
    exact ⟨rfl, rfl⟩
  case h_2 =>
    split at h
    case isTrue =>
      cases h
      exact ⟨rfl, rfl⟩
    case isFalse =>
      dsimp only at h
      split at h
      case isTrue =>
        cases h
        exact execute_executed
      case isFalse =>
        cases h
        exact ⟨rfl, rfl⟩

theorem popEntry_iterate_executed (n : Nat) : (popEntry^[n] s).executed = s.executed ∧
    (popEntry^[n] s).nbFreps = s.nbFreps := by
  induction n generalizing s with
  | zero => exact ⟨rfl, rfl⟩
  | succ n ih =>
    rw [Function.iterate_succ_apply]
    exact ih

theorem issueLoop_executed (loop : FrepLoop) :
    (s.issueLoop cfg env loop).1.executed.length = s.executed.length + (s.issueLoop cfg env loop).2.toNat ∧
      (s.issueLoop cfg env loop).1.nbFreps = s.nbFreps := by
  rw [issueLoop]
  split
  case isTrue => exact ⟨rfl, rfl⟩
  case isFalse =>
    dsimp only
    cases hissue : s.issueEntry cfg env loop.staggerMask loop.insn (stagger loop)
        (decide (loop.rpt = loop.nbRpt - 1)) with
    | mk s' done =>
      have hexec := issueEntry_executed hissue
      cases done with
      | false => exact hexec
      | true =>
        dsimp only
        split
        · have hpop := @popEntry_iterate_executed w s' (loopNext loop).1.nbInsns
          exact ⟨(congrArg List.length hpop.1).trans hexec.1, hpop.2.trans hexec.2⟩
        · exact hexec

theorem fsmHandler_of_empty (h : s.Empty) : s.fsmHandler cfg env = (s.issue cfg env).1.checkIdle := by
  obtain ⟨hcompletions, hreqs⟩ := h
  have hsync : s.lsu.syncReqs = [] := by
    rw [FpLsu.reqs] at hreqs
    exact (append_eq_nil_iff.1 (append_eq_nil_iff.1 hreqs).1).2
  have hend : s.endCompletions = s := by
    cases s
    subst hcompletions
    simp [endCompletions]
  have hlsu : s.endLsuSync cfg = s := by
    rcases s with ⟨⟩
    rename_i lsu _ _ _ _ _
    cases lsu
    subst hsync
    rfl
  rw [fsmHandler, hend, hlsu]

theorem advances_of_issue {cycle : Int} (h : s.Empty)
    (hissue : s.executed.length < (({ s with cycle := cycle } : FpSs w).issue cfg env).1.executed.length ∨
      (({ s with cycle := cycle } : FpSs w).issue cfg env).1.nbFreps < s.nbFreps) : s.Advances cfg cycle env := by
  rw [FpSs.Advances, fsmHandler_of_empty (s := { s with cycle := cycle }) h, checkIdle]
  split <;> exact hissue

/-- The operands of every instruction are there from some cycle on. -/
theorem exists_ready (s : FpSs w) : ∃ first, s.divsqrtReady ≤ first ∧ ∀ reg t, s.fpReady reg = some t → t ≤ first := by
  obtain ⟨first, hfirst⟩ := Finite.exists_le fun reg => (s.fpReady reg).getD 0
  refine ⟨max s.divsqrtReady first, Int.le_max_left _ _, fun reg t ht => ?_⟩
  have hle := hfirst reg
  rw [ht] at hle
  exact Int.le_trans hle (Int.le_max_right _ _)

/-- The core offloads its next instruction when the queue has room and nothing in it waits for a first access. -/
theorem FpInv.offload_of (h : FpInv cfg prog s) (hempty : s.Empty) {insn : FpInsn w} {rest : List (FpInsn w)}
    (hrest : s.rest = insn :: rest)
    (hqueue : ∀ b ∈ s.queue.map (·.insn), b.kind.isFrep = false ∧ b.kind.isBypass = false)
    (hpending : ∀ e ∈ s.queue, e.caqPending = false) (hlen : s.queue.length < cfg.seqBufferSize + 1) :
    ∃ s', s.offload cfg = some s' := by
  have hcount := h.count
  have hbypass : s.pendingBypass = false := by
    have hb := hcount.bypass
    rw [filter_eq_nil_iff.2 fun b hb => by rw [(hqueue b hb).2]; exact Bool.false_ne_true] at hb
    cases hp : s.pendingBypass with
    | false => rfl
    | true => rw [hp] at hb; cases hb
  have hfreps : s.nbFreps = 0 := by
    rw [hcount.nbFreps, filter_eq_nil_iff.2 fun b hb => by rw [(hqueue b hb).1]; exact Bool.false_ne_true]
    rfl
  have hinsns : s.nbInsns < cfg.seqBufferSize + 1 := by
    have hle := length_filter_le (fun insn : FpInsn w => !insn.kind.isFrep) (s.queue.map (·.insn))
    rw [length_map] at hle
    rw [hcount.nbInsns]
    omega
  have hcaq : s.caq = [] := by
    have hperm := h.caq.caq
    rw [hempty.2, filter_eq_nil_iff.2 fun e he => by rw [hpending e he]; exact Bool.false_ne_true] at hperm
    exact hperm.eq_nil
  have hconfig := cfg.frepConfigSize_pos
  have hdepth := cfg.caqDepth_pos
  have hcan : s.canOffload cfg insn.kind = true := by
    rw [canOffload, hbypass, if_neg Bool.false_ne_true, hcaq, hfreps]
    split
    · simpa using hconfig
    · rw [if_neg (by simp; omega)]
      simpa using hinsns
  rw [FpSs.offload, hrest]
  dsimp only
  rw [if_pos hcan]
  exact ⟨_, rfl⟩

theorem issue_of_loop {loop : FrepLoop} {s' : FpSs w} (hl : s.loop = some loop) (hlt : ¬loop.insn ≥ s.queue.length)
    (hissue : s.issueEntry cfg env loop.staggerMask loop.insn (stagger loop) (decide (loop.rpt = loop.nbRpt - 1)) =
      (s', true)) : s.executed.length < (s.issue cfg env).1.executed.length := by
  have hexec := (@issueLoop_executed w cfg s env loop).1
  have hdone : (s.issueLoop cfg env loop).2 = true := by
    rw [issueLoop, if_neg hlt]
    dsimp only
    rw [hissue]
    dsimp only
    split <;> rfl
  rw [issue, hl]
  rw [hexec, hdone]
  exact Nat.lt_succ_self _

theorem eq_nil_of_program {bs : List (Block w)} (h : program bs = []) : bs = [] := by
  cases bs with
  | nil => rfl
  | cons b bs =>
    rw [program_cons] at h
    cases b <;> cases h

/-- **Progress**: with an empty FPU the subsystem is done, accepts the next instruction, or advances. -/
theorem FpInv.progress (h : FpInv cfg prog s) (hempty : s.Empty) :
    s.Finished prog ∨ (∃ s', s.offload cfg = some s') ∨
      s.fsmEvent = true ∧ ∃ first, ∀ cycle ≥ first, ∀ env : FpEnv, env.Ready → s.Advances cfg cycle env := by
  obtain ⟨body, todo, bs, horder⟩ := h.order
  obtain ⟨first, hdiv, hregs⟩ := exists_ready s
  have hrunning := horder.loop
  -- the operands of an entry in a cycle where everything is ready
  have hcheck : ∀ cycle ≥ first, ∀ env : FpEnv, env.Ready → ∀ (queue : List (FpSsEntry w)) (insn : FpInsn w)
      (args : List InsnArg),
      ({ s with cycle := cycle, queue := queue } : FpSs w).checkOperands cfg env insn args = true := by
    intro cycle hcycle env henv queue insn args
    refine checkOperands_of_empty h.lsu hempty.2 henv (fun reg t ht => ?_) ?_
    · exact Int.le_trans (hregs reg t ht) hcycle
    · exact Int.le_trans hdiv hcycle
  cases hl : s.loop with
  | some loop =>
    rw [hl] at hrunning
    cases hrunning with
    | @some frep body loop hok hbody hlen =>
      by_cases hlt : loop.insn < s.queue.length
      · -- the instruction of the loop is in the queue
        have hev := h.event (.inl (ne_nil_of_length_pos (by omega)))
        refine .inr (.inr ⟨hev, max first s.queue[loop.insn].readyCycle, fun cycle hcycle env henv => ?_⟩)
        apply advances_of_issue hempty
        left
        obtain ⟨s', hissue⟩ := @issueEntry_of_ready w cfg { s with cycle := cycle } env loop.staggerMask loop.insn
          (stagger loop) (decide (loop.rpt = loop.nbRpt - 1)) s.queue[loop.insn] (getElem?_eq_getElem hlt)
          (Int.le_trans (Int.le_max_right _ _) hcycle)
          (hcheck cycle (Int.le_trans (Int.le_max_left _ _) hcycle) env henv)
        exact issue_of_loop (s := { s with cycle := cycle }) hl (not_le.2 hlt) hissue
      · -- the core has not offloaded it yet
        have hshort : s.queue.length < body.length := by
          have := hok.insn_lt
          omega
        have hqueue : ∀ b ∈ s.queue.map (·.insn), b ∈ body := by
          intro b hb
          have htake := congrArg (List.take s.queue.length) horder.insns
          rw [take_append_of_le_length (by simp), take_append_of_le_length (by omega),
            take_of_length_le (by simp)] at htake
          rw [htake] at hb
          exact mem_of_mem_take hb
        have hpending : ∀ e ∈ s.queue, e.caqPending = false := by
          intro e he
          obtain ⟨i, hi, rfl⟩ := mem_iff_getElem.1 he
          refine h.caq.started i _ (getElem?_eq_getElem hi) ?_
          rw [hl]
          exact lt_of_lt_of_le (by omega) (insn_le_firstDone hok)
        cases hrest : s.rest with
        | nil =>
          have hlength := congrArg List.length horder.insns
          rw [hrest, append_nil, length_map, length_append] at hlength
          omega
        | cons insn rest =>
          exact .inr (.inl (h.offload_of hempty hrest (fun b hb => hbody b (hqueue b hb)) hpending (by omega)))
  | none =>
    rw [hl] at hrunning
    cases hrunning
    cases hq : s.queue with
    | nil =>
      cases hrest : s.rest with
      | nil =>
        have hinsns := horder.insns
        rw [hq, hrest] at hinsns
        have hnil := eq_nil_of_program hinsns.symm
        have hexec := horder.executed
        rw [hnil, append_nil] at hexec
        refine .inl ⟨hrest, hq, by simpa [unroll] using hexec, ?_⟩
        have hheld := h.held
        rw [HeldOk, hempty.1, hempty.2, hq, hrest] at hheld
        simpa using hheld
      | cons insn rest =>
        exact .inr (.inl (h.offload_of hempty hrest (by simp [hq]) (by simp [hq]) (by simp [hq])))
    | cons head queue =>
      have hev := h.event (.inl (by simp [hq]))
      refine .inr (.inr ⟨hev, max first head.readyCycle, fun cycle hcycle env henv => advances_of_issue hempty ?_⟩)
      have hready : ¬head.readyCycle > cycle := not_lt.2 (Int.le_trans (Int.le_max_right _ _) hcycle)
      rw [FpSs.issue]
      rw [hl, hq]
      dsimp only
      rw [if_neg hready]
      split
      case isTrue =>
        right
        rw [(issueLoop_executed _).2]
        exact Int.sub_one_lt_of_le (Int.le_refl _)
      case isFalse =>
        left
        obtain ⟨s', hissue⟩ := @issueEntry_of_ready w cfg { s with cycle := cycle } env 0 0 0 true head
          (by rw [hq]; rfl)
          (not_lt.1 hready) (hcheck cycle (Int.le_trans (Int.le_max_left _ _) hcycle) env henv)
        have hexec := issueEntry_executed hissue
        rw [hl, hq] at hissue
        rw [hissue]
        show s.executed.length < s'.executed.length
        rw [hexec.1]
        exact Nat.lt_succ_self _

end Progress

/-! ## The result -/

section Result

variable {cfg : FpConfig} {prog : List (Block w)} {s : FpSs w}

theorem FpInv.spec (h : FpInv cfg prog s) (hw : w < 64) (hnodup : ((program prog).map (·.entry)).Nodup) :
    FrepSpec cfg prog s := by
  have hheld := h.held
  have hparts := hheld.nodup_iff.2 hnodup
  rw [append_assoc, nodup_append] at hparts
  have hcount := h.count
  refine ⟨?_, hparts.1, fun entry hentry => ?_, fun entry hentry x hx heq => ?_, ?_, ?_, ?_, ?_, h.progress⟩
  · obtain ⟨body, todo, bs, horder⟩ := h.order
    rw [← horder.executed, append_assoc]
    exact prefix_append _ _
  · exact hheld.subset (mem_append_left _ (mem_append_left _ hentry))
  · exact hparts.2.2 entry hentry x.1 (mem_append_right _ (h.mem_left hw hx)) heq.symm
  · rw [hcount.nbInsns, filter_map, length_map]
    rfl
  · rw [hcount.nbFreps, filter_map, length_map]
    rfl
  · rw [← hcount.bypass, filter_map, length_map]
    rfl
  · have hinflight := hcount.nbInflight
    omega

/-- **FREP executes the unrolled program**, in every reachable state of the subsystem. -/
theorem frep_unrolled (hw : w < 64) (hprog : ∀ b ∈ prog, b.Ok cfg) (hnodup : ((program prog).map (·.entry)).Nodup)
    {events : List FpEvent} (hrun : run (fpStep cfg) (FpSs.init cfg (program prog)) events = some s) :
    FrepSpec cfg prog s :=
  (run_invariant (fun _ _ _ h hs => FpInv.step h hw hs) (fpInv_init hprog) hrun).spec hw hnodup

def smallFpConfig : FpConfig where
  seqBufferSize := 2
  frepConfigSize := 1
  offloadLatency := 1
  resultLatency := 1
  respLatency := 1
  lsuNbOutstanding := 2
  caqDepth := 1
  nbSsrs := 3
  frepConfigSize_pos := Nat.one_pos
  lsuNbOutstanding_pos := Nat.two_pos
  caqDepth_pos := Nat.one_pos

/-- An instruction that writes `fd` and reads `fa`, or a load to `fd`. -/
def fpInsn (entry : Nat) (kind : FpSsKind) (fd : Fin 32) (fa : Fin 32) : FpInsn 32 where
  entry := entry
  kind := kind
  args := [⟨.outReg, true, 0, fd⟩, ⟨.inReg, kind = .compute, 0, fa⟩]
  latency := 2
  intValue := 64

/-- A load of `f31`, and two instructions in a loop of three repetitions whose registers change places. -/
def smallFrep : List (Block 32) :=
  [.single (fpInsn 0 .load 31 0),
    .frep { entry := 1, kind := .frepO, args := [], uim0 := 3, uim1 := 1, uim2 := 1, latency := 0, intValue := 2 }
      [fpInsn 2 .compute 31 30, fpInsn 3 .compute 8 31]]

/-- The SSRs are disabled and the memory answers in the next cycle. -/
def smallFpEnv : FpEnv := ⟨false, fun _ => true, fun _ => true, .done 1⟩

/-- The core offloads what it can, and the handler is called in each of 16 cycles. -/
def smallFpEvents : List FpEvent :=
  .offload :: .offload :: .offload :: .offload :: (List.replicate 16 [.cycle, .fsmHandler smallFpEnv]).flatten

/-- The loop after the load executes its two instructions three times, in the second repetition with shifted registers.
-/
theorem frep_unrolled_smallFrep : ∃ s, run (fpStep smallFpConfig) (FpSs.init smallFpConfig (program smallFrep))
    smallFpEvents = some s ∧ s.executed = unroll smallFrep ∧ s.terminated = [0, 1, 2, 3] ∧
    FrepSpec smallFpConfig smallFrep s := by
  have hrun : ((run (fpStep smallFpConfig) (init smallFpConfig (program smallFrep)) smallFpEvents).map
      fun s => (s.executed, s.terminated)) = some (unroll smallFrep, [0, 1, 2, 3]) := by decide +kernel
  obtain ⟨s, hs, hlog⟩ := Option.map_eq_some_iff.1 hrun
  have hlog := Prod.mk.inj hlog
  refine ⟨s, hs, hlog.1, hlog.2, frep_unrolled (by decide) ?_ (by decide) hs⟩
  intro b hb
  rcases mem_cons.1 hb with rfl | hb
  · exact rfl
  · cases mem_singleton.1 hb
    exact ⟨rfl, rfl, by decide, by decide⟩

end Result

end GvsocPulp.Snitchv2
