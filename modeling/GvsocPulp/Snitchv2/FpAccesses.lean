import GvsocPulp.Snitchv2.FpIssue

/-!
# The FP accesses

In a program without FP accesses in FREP bodies, each load or store is executed once, in program order, and its held
instruction is terminated when the access is done: `AccessInv` and its steps. Hence the consistency address queue holds
the words of the accesses offloaded and not done (`AccessInv.caq_perm`).
-/

namespace GvsocPulp.Snitchv2

open List Option FpSs

variable {w : Nat}

/-- The executed loads and stores. -/
def memLog (log : List (FpInsn w × List InsnArg)) : List (FpInsn w) := (log.map (·.1)).filter (·.kind.isMem)

/-- What the LSU keeps of a load or store: its held instruction, and the word that its end removes. -/
def FpInsn.access (insn : FpInsn w) : Option Nat × BitVec w := (some insn.entry, FpSs.wordAddr insn.intValue)

/-- The loads and stores, from the program to their ends. -/
structure AccessInv (cfg : FpConfig) (prog : List (FpInsn w)) (s : FpSs w) (log : List (FpInsn w × List InsnArg)) :
    Prop where
  suffix : ∃ done, prog = done ++ (s.queue.map (·.insn) ++ s.rest)
  loop : ∀ loop, s.loop = some loop →
    ∀ x ∈ (s.queue.map (·.insn) ++ s.rest).take loop.nbInsns, x.kind.isMem = false
  pending : ∀ e ∈ memEntries s.queue, e.caqPending = true
  executed : (log.map fun x => (x.1.entry, x.2)) = s.executed
  insns : ∀ x ∈ log, x.1 ∈ prog
  order : prog.filter (·.kind.isMem) =
    memLog log ++ (memEntries s.queue).map (·.insn) ++ s.rest.filter (·.kind.isMem)
  lsu : ∃ ended : List (FpInsn w), ((memLog log).map FpInsn.access).Perm
      (ended.map FpInsn.access ++ s.lsu.reqs.map fun r => (r.entry, r.caqAddr)) ∧ ∀ i ∈ ended, i.entry ∈ s.terminated
  release : ∀ r ∈ s.lsu.reqs, r.caqRelease = true
  caq_le : s.caq.length ≤ cfg.caqDepth

/-! ## Programs -/

/-- After each FREP of a program come its body's instructions, none of them a load or store. -/
theorem headOnly_program {cfg : FpConfig} {bs : List (Block w)} (hok : ∀ b ∈ bs, b.Ok cfg)
    (hno : ∀ b ∈ bs, b.NoAccess) :
    ∀ {done insns : List (FpInsn w)}, program bs = done ++ insns → FpSs.HeadOnly insns := by
  induction bs with
  | nil =>
    intro done insns heq head rest hinsns
    have hnil := append_eq_nil_iff.1 heq.symm
    rw [hnil.2] at hinsns
    cases hinsns
  | cons b bs ih =>
    intro done insns heq
    replace ih := @ih (fun b hb => hok b (mem_cons_of_mem _ hb)) (fun b hb => hno b (mem_cons_of_mem _ hb))
    have hb := hok b mem_cons_self
    have hnb := hno b mem_cons_self
    rw [program_cons, append_eq_append_iff] at heq
    rcases heq with ⟨more, -, hbs⟩ | ⟨more, hdone, hinsns⟩
    · exact ih hbs
    · intro head rest hcons hfrep x hx
      cases more with
      | nil =>
        rw [nil_append] at hinsns
        exact @ih [] _ hinsns.symm head rest hcons hfrep x hx
      | cons first more =>
        rw [hcons, cons_append, cons.injEq] at hinsns
        obtain ⟨rfl, rfl⟩ := hinsns
        have hmem : head ∈ b.insns := by rw [hdone]; simp
        cases b with
        | single insn =>
          rw [mem_singleton.1 hmem] at hfrep
          rw [show insn.kind.isFrep = false from hb] at hfrep
          cases hfrep
        | frep insn body =>
          obtain ⟨-, hlen, -, hbody⟩ := hb
          cases done with
          | nil =>
            obtain ⟨rfl, rfl⟩ := cons.inj hdone
            rw [← hlen, take_left] at hx
            exact hnb x hx
          | cons d done =>
            have hin : head ∈ body := by
              have hbodyEq : body = done ++ head :: more := (cons.inj hdone).2
              rw [hbodyEq]
              simp
            rw [(hbody head hin).1] at hfrep
            cases hfrep

section Steps

variable {cfg : FpConfig} {prog : List (FpInsn w)} {s s' : FpSs w} {log : List (FpInsn w × List InsnArg)}

@[simp] theorem memLog_append (log log' : List (FpInsn w × List InsnArg)) :
    memLog (log ++ log') = memLog log ++ memLog log' := by
  simp [memLog]

/-! ## The steps -/

theorem accessInv_init (prog : List (FpInsn w)) : AccessInv cfg prog (init cfg prog) [] where
  suffix := ⟨[], rfl⟩
  loop := fun _ h => by cases h
  pending := fun _ h => (not_mem_nil h).elim
  executed := rfl
  insns := fun _ h => (not_mem_nil h).elim
  order := rfl
  lsu := ⟨[], List.Perm.refl _, fun _ h => (not_mem_nil h).elim⟩
  release := fun _ h => (not_mem_nil h).elim
  caq_le := Nat.zero_le _

theorem AccessInv.endCompletions (h : AccessInv cfg prog s log) : AccessInv cfg prog s.endCompletions log := by
  obtain ⟨ended, hperm, hended⟩ := h.lsu
  exact { h with lsu := ⟨ended, hperm, fun i hi => mem_append_left _ (hended i hi)⟩ }

theorem AccessInv.offload (h : AccessInv cfg prog s log) (hs : s.offload cfg = some s') :
    AccessInv cfg prog s' log := by
  rw [FpSs.offload] at hs
  split at hs
  case h_1 => cases hs
  case h_2 insn rest hrest =>
    split at hs
    case isFalse => cases hs
    case isTrue hcan =>
      cases hs
      have hinsns : ∀ e : FpSsEntry w, e.insn = insn →
          (s.queue ++ [e]).map (·.insn) ++ rest = s.queue.map (·.insn) ++ s.rest := fun e he => by
        rw [hrest, map_append, append_assoc, map_singleton, he]
        rfl
      refine ⟨?_, fun loop hl => ?_, fun e he => ?_, h.executed, h.insns, ?_, h.lsu, h.release, ?_⟩
      · obtain ⟨done, hdone⟩ := h.suffix
        exact ⟨done, by rw [hinsns _ rfl]; exact hdone⟩
      · rw [hinsns _ rfl]
        exact h.loop loop hl
      · rw [memEntries_append] at he
        rcases mem_append.1 he with he | he
        · exact h.pending e he
        · obtain ⟨he, hmem⟩ := mem_filter.1 he
          cases mem_singleton.1 he
          exact hmem
      · have horder := h.order
        rw [hrest] at horder
        rw [memEntries_append, map_append, horder, filter_cons, append_assoc, append_assoc,
          append_assoc]
        rw [memEntries, memEntries, filter_cons]
        split
        · rfl
        · rfl
      · dsimp only
        split
        case isFalse => exact h.caq_le
        case isTrue hmem =>
          rw [length_append, length_singleton]
          rw [canOffload] at hcan
          have hfrep : insn.kind.isFrep = false := by
            cases hk : insn.kind <;> rw [hk] at hmem <;> first | rfl | cases hmem
          by_cases hfull : s.caq.length ≥ cfg.caqDepth
          · simp [hfrep, hmem, hfull] at hcan
          · omega

theorem AccessInv.lsuEnd {req : FpLsuReq w} {lsu : FpLsu w} (h : AccessInv cfg prog s log)
    (hreqs : s.lsu.reqs.Perm (req :: lsu.reqs)) : AccessInv cfg prog (lsuEnd cfg { s with lsu := lsu } req) log := by
  obtain ⟨ended, hperm, hended⟩ := h.lsu
  have hreq : req ∈ s.lsu.reqs := hreqs.symm.subset mem_cons_self
  have hperm := hperm.trans ((hreqs.map fun r => (r.entry, r.caqAddr)).append_left _)
  obtain ⟨i, -, hi⟩ := mem_map.1 (hperm.symm.subset (mem_append_right _ mem_cons_self))
  refine { h with lsu := ⟨ended ++ [i], ?_, fun j hj => ?_⟩, release := fun r hr => ?_, caq_le := ?_ }
  · rw [map_append, map_singleton, hi, append_assoc]
    exact hperm
  · rcases mem_append.1 hj with hj | hj
    · exact mem_append_left _ (hended j hj)
    · cases mem_singleton.1 hj
      refine mem_append_right _ ?_
      rw [mem_toList]
      exact (congrArg Prod.fst hi).symm
  · exact h.release r (hreqs.symm.subset (mem_cons_of_mem _ hr))
  · rw [FpSs.lsuEnd]
    dsimp only
    split
    · exact (length_erase_le).trans h.caq_le
    · exact h.caq_le

theorem AccessInv.entry_mem_log {req : FpLsuReq w} {entry : Nat} (h : AccessInv cfg prog s log)
    (hreq : req ∈ s.lsu.reqs) (hentry : req.entry = some entry) : entry ∈ (memLog log).map (·.entry) := by
  obtain ⟨ended, hperm, -⟩ := h.lsu
  obtain ⟨i, hi, heq⟩ := mem_map.1 (hperm.symm.subset (mem_append_right _ (mem_map_of_mem hreq)))
  refine mem_map.2 ⟨i, hi, ?_⟩
  have hfst : some i.entry = req.entry := congrArg Prod.fst heq
  exact Option.some.inj (hfst.trans hentry)

theorem AccessInv.move {ready : Fin 32 → Option Int} {lsu : FpLsu w} {event : Bool} (h : AccessInv cfg prog s log)
    (hreqs : (lsu.reqs.map fun r => (r.entry, r.caqAddr, r.caqRelease)).Perm
      (s.lsu.reqs.map fun r => (r.entry, r.caqAddr, r.caqRelease))) :
    AccessInv cfg prog { s with fpReady := ready, lsu := lsu, fsmEvent := event } log := by
  obtain ⟨ended, hperm, hended⟩ := h.lsu
  refine { h with lsu := ⟨ended, hperm.trans (Perm.append_left _ ?_), hended⟩, release := fun r hr => ?_ }
  · have hpairs := hreqs.map fun x : Option Nat × BitVec w × Bool => (x.1, x.2.1)
    rw [List.map_map, List.map_map] at hpairs
    exact hpairs.symm
  · obtain ⟨r', hr', heq⟩ := mem_map.1 (hreqs.subset (mem_map_of_mem hr))
    have hrelease : r'.caqRelease = r.caqRelease := congrArg (·.2.2) heq
    rw [← hrelease]
    exact h.release r' hr'

theorem AccessInv.foldl_lsuEnd {done sync : List (FpLsuReq w)}
    (h : AccessInv cfg prog { s with lsu := { s.lsu with syncReqs := done ++ sync } } log) :
    AccessInv cfg prog (done.foldl (FpSs.lsuEnd cfg) { s with lsu := { s.lsu with syncReqs := sync } }) log := by
  induction done generalizing s with
  | nil => exact h
  | cons req done ih =>
    rw [foldl_cons]
    refine ih (s := FpSs.lsuEnd cfg { s with lsu := { s.lsu with syncReqs := sync } } req) ?_
    refine @AccessInv.lsuEnd _ _ _ { s with lsu := { s.lsu with syncReqs := req :: done ++ sync } } _ req
      { s.lsu with syncReqs := done ++ sync } h ?_
    rw [FpLsu.reqs, FpLsu.reqs]
    rw [append_assoc _ (req :: done ++ sync), append_assoc _ (done ++ sync)]
    exact perm_middle

theorem AccessInv.endLsuSync (h : AccessInv cfg prog s log) : AccessInv cfg prog (s.endLsuSync cfg) log := by
  refine AccessInv.foldl_lsuEnd ?_
  have hsync := filter_append_perm (fun req : FpLsuReq w => decide (req.timestamp ≤ s.cycle)) s.lsu.syncReqs
  simp only [decide_not]
  refine h.move (Perm.map _ ?_)
  exact (hsync.append_left _).append_right _

theorem lsuAfter_reqs {env : FpEnv} {entry : FpSsEntry w} {args : List InsnArg} {last : Bool}
    (hlsu : LsuOk cfg s.lsu s.fpReady) (hcheck : s.checkOperands cfg env entry.insn args = true)
    (hmem : entry.insn.kind.isMem = true) :
    ∃ t, (s.lsuAfter cfg env entry args last).reqs.Perm
      ({ lsuReq entry args last with timestamp := t } :: s.lsu.reqs) := by
  obtain ⟨hfree, hdenied⟩ := lsu_of_checkOperands hcheck hmem
  obtain ⟨t, ready, lsu, event, heq, hperm, -⟩ :=
    @lsuAccess_spec _ cfg s (lsuReq entry args last) env.status hlsu hfree hdenied
  refine ⟨t, ?_⟩
  rw [lsuAfter, if_pos hmem, heq]
  exact hperm

/-- What the log gains in a turn of `issue()`. -/
def logOf (x : Option (FpSsEntry w × List InsnArg × Bool)) : List (FpInsn w × List InsnArg) :=
  (x.map fun x => (x.1.insn, x.2.1)).toList

variable (h : AccessInv cfg prog s log)
include h

theorem AccessInv.issue {env : FpEnv} (hlsu : LsuOk cfg s.lsu s.fpReady)
    (hloop : ∀ loop, s.loop = some loop → loop.insn < loop.nbInsns)
    (hhead : ∀ {done insns}, prog = done ++ insns → FpSs.HeadOnly insns) :
    AccessInv cfg prog (s.issue cfg env).1 (log ++ logOf (s.issuing cfg env)) := by
  obtain ⟨done, hdone⟩ := h.suffix
  obtain ⟨hexec, hframe, hnext⟩ := @issue_spec _ cfg s env (fun loop hl => ⟨hloop loop hl, h.loop loop hl⟩)
    fun _ => hhead hdone
  generalize (s.issue cfg env).1 = s' at hexec hframe hnext ⊢
  obtain ⟨popped, hpopped⟩ := hframe.queue
  have hsuffix : ∃ done, prog = done ++ (s'.queue.map (·.insn) ++ s'.rest) := by
    refine ⟨done ++ popped, ?_⟩
    rw [hdone, hpopped, hframe.rest]
    simp
  have hloop' : ∀ loop, s'.loop = some loop →
      ∀ x ∈ (s'.queue.map (·.insn) ++ s'.rest).take loop.nbInsns, x.kind.isMem = false := by
    rw [hframe.rest]
    exact hnext
  obtain ⟨ended, hperm, hended⟩ := h.lsu
  have hended' : ∀ i ∈ ended, i.entry ∈ s'.terminated := by
    rw [hframe.terminated]
    exact hended
  have hcaq : s'.caq.length ≤ cfg.caqDepth := by
    rw [hframe.caq]
    exact h.caq_le
  generalize s.issuing cfg env = x at hexec ⊢
  cases hexec with
  | none lsu _ executed mem =>
    rw [logOf, map_none, toList_none, append_nil]
    refine ⟨hsuffix, hloop', ?_, ?_, h.insns, ?_, ⟨ended, ?_, hended'⟩, ?_, hcaq⟩
    · rw [mem]
      exact h.pending
    · rw [executed]
      exact h.executed
    · rw [mem, hframe.rest]
      exact h.order
    · rw [lsu]
      exact hperm
    · rw [lsu]
      exact h.release
  | @some entry args last check lsu _ executed insn args_eq mem =>
    rw [logOf, map_some, toList_some]
    have hpending : ∀ e ∈ memEntries s'.queue, e.caqPending = true := fun e he =>
      h.pending e (by rw [mem]; exact mem_append_right _ he)
    have hinsns : ∀ x ∈ log ++ [(entry.insn, args)], x.1 ∈ prog := by
      intro x hx
      rcases mem_append.1 hx with hx | hx
      · exact h.insns x hx
      · rw [mem_singleton.1 hx, hdone]
        exact mem_append_right _ (mem_append_left _ insn)
    have hexecuted : ((log ++ [(entry.insn, args)]).map fun x => (x.1.entry, x.2)) = s'.executed := by
      rw [map_append, h.executed, executed]
      rfl
    have horder := h.order
    rw [mem] at horder
    by_cases hmem : entry.insn.kind.isMem = true
    · have hlog : memLog (log ++ [(entry.insn, args)]) = memLog log ++ [entry.insn] := by
        rw [memLog_append]
        simp [memLog, hmem]
      obtain ⟨t, hreqs⟩ := @lsuAfter_reqs _ _ _ _ _ args last hlsu check hmem
      rw [if_pos hmem] at horder mem
      have hrelease : entry.caqPending = true := h.pending entry (by rw [mem]; exact mem_cons_self)
      refine ⟨hsuffix, hloop', hpending, hexecuted, hinsns, ?_, ⟨ended, ?_, hended'⟩, ?_, hcaq⟩
      · rw [horder, hlog, hframe.rest]
        simp
      · rw [hlog, lsu, map_append, map_singleton]
        refine Perm.trans ?_ ((hreqs.map _).symm.append_left _)
        have hentry : (lsuReq entry args last).entry = some entry.insn.entry := by
          rw [lsuReq, (args_eq hmem).2]
          rfl
        rw [map_cons, hentry]
        exact ((perm_append_singleton _ _).trans (hperm.cons _)).trans perm_middle.symm
      · intro r hr
        rw [lsu] at hr
        rcases mem_cons.1 (hreqs.subset hr) with rfl | hr
        · exact hrelease
        · exact h.release r hr
    · have hlog : memLog (log ++ [(entry.insn, args)]) = memLog log := by
        rw [memLog_append]
        simp [memLog, hmem]
      have hsame : s'.lsu = s.lsu := by rw [lsu, lsuAfter, if_neg hmem]
      rw [if_neg hmem] at horder
      refine ⟨hsuffix, hloop', hpending, hexecuted, hinsns, ?_, ⟨ended, ?_, hended'⟩, ?_, hcaq⟩
      · rw [horder, hlog, hframe.rest]
        rfl
      · rw [hlog, hsame]
        exact hperm
      · rw [hsame]
        exact h.release

theorem AccessInv.checkIdle : AccessInv cfg prog s.checkIdle log := by
  rw [FpSs.checkIdle]
  split
  · exact { h with }
  · exact h

theorem AccessInv.lsuRetry {status : LsuStatus} (hlsu : LsuOk cfg s.lsu s.fpReady) :
    AccessInv cfg prog (s.lsuRetry cfg status) log := by
  rw [FpSs.lsuRetry]
  split
  case h_1 => exact h
  case h_2 req hdenied =>
    obtain ⟨t, ready, lsu, event, heq, -, hperm, -⟩ :=
      @lsuSend_spec w cfg { s with lsu := { s.lsu with denied := none } } req status rfl fun reg hreg => by
        obtain ⟨r, hr, h⟩ := hlsu.ready reg hreg
        rw [hdenied] at hr
        rcases mem_append.1 hr with hr | hr
        · cases mem_toList.1 hr
          exact .inl h
        · exact .inr ⟨r, hr, h⟩
    rw [heq]
    refine h.move ?_
    have hreqs : s.lsu.reqs = req :: ({ s.lsu with denied := none } : FpLsu w).reqs := by
      rw [FpLsu.reqs, hdenied]
      rfl
    rw [hreqs]
    exact hperm.map _

theorem AccessInv.lsuResponse {k : Nat} (hs : s.lsuResponse cfg k = some s') :
    AccessInv cfg prog s' log := by
  rw [FpSs.lsuResponse, map_eq_some_iff] at hs
  obtain ⟨req, hreq, rfl⟩ := hs
  obtain ⟨hlt, rfl⟩ := List.getElem?_eq_some_iff.1 hreq
  refine h.lsuEnd ?_
  exact ((getElem_cons_eraseIdx_perm hlt).symm.append_left _).trans perm_middle

end Steps

/-! ## The accesses that are not done -/

section Outstanding

variable {cfg : FpConfig} {prog : List (Block w)} {s : FpSs w} {log : List (FpInsn w × List InsnArg)}

theorem AccessInv.offloaded (h : AccessInv cfg (program prog) s log) :
    (s.offloaded prog).filter (·.kind.isMem) = memLog log ++ (memEntries s.queue).map (·.insn) := by
  obtain ⟨done, hdone⟩ := h.suffix
  have horder := h.order
  rw [← append_assoc] at hdone
  have htake : s.offloaded prog = done ++ s.queue.map (·.insn) := by
    rw [FpSs.offloaded, hdone, length_append, Nat.add_sub_cancel]
    exact take_left
  rw [hdone, filter_append] at horder
  rw [htake]
  exact append_cancel_right horder

theorem FpInv.loop_insn (h : FpInv cfg prog s) {loop : FrepLoop} (hl : s.loop = some loop) :
    loop.insn < loop.nbInsns ∧ queueDone s.loop ≤ loop.nbInsns := by
  obtain ⟨body, todo, bs, horder⟩ := h.order
  have hrunning := horder.loop
  rw [hl] at hrunning
  cases hrunning with
  | @some frep body loop hok =>
    have hlt : loop.insn < loop.nbInsns := by rw [hok.nbInsns]; exact hok.insn_lt
    refine ⟨hlt, ?_⟩
    rw [hl, queueDone, map_some, getD_some, lastDone]
    split
    · omega
    · split
      · omega
      · exact Nat.zero_le _

theorem AccessInv.not_terminated (h : AccessInv cfg (program prog) s log) (hf : FpInv cfg prog s)
    (hnodup : ((program prog).map (·.entry)).Nodup) : ∀ e ∈ memEntries s.queue, e.insn.entry ∉ s.terminated := by
  have hparts := hf.held.nodup_iff.2 hnodup
  rw [append_assoc, nodup_append] at hparts
  have hdrop : memEntries (s.queue.drop (queueDone s.loop)) = memEntries s.queue := by
    refine memEntries_drop fun e he => ?_
    cases hl : s.loop with
    | none =>
      rw [hl, queueDone, map_none, getD_none, take_zero] at he
      cases he
    | some loop =>
      have hle := (hf.loop_insn hl).2
      refine h.loop loop hl e.insn ?_
      have he := mem_map_of_mem (f := FpSsEntry.insn) he
      rw [map_take] at he
      refine take_subset_take_left _ hle ?_
      rw [take_append]
      exact mem_append_left _ he
  intro e he hterm
  rw [← hdrop] at he
  have hmem := mem_map_of_mem (f := FpSsEntry.insn) (mem_of_mem_filter he)
  refine hparts.2.2 _ hterm e.insn.entry (mem_append_right _ (mem_map_of_mem (mem_append_left _ ?_))) rfl
  rw [← map_drop]
  exact hmem

theorem FpInv.req_not_terminated (hf : FpInv cfg prog s) (hnodup : ((program prog).map (·.entry)).Nodup)
    {r : FpLsuReq w} {entry : Nat} (hr : r ∈ s.lsu.reqs) (hentry : r.entry = some entry) : entry ∉ s.terminated := by
  have hparts := hf.held.nodup_iff.2 hnodup
  rw [append_assoc, nodup_append] at hparts
  intro hterm
  refine hparts.2.2 _ hterm entry (mem_append_left _ (mem_append_right _ ?_)) rfl
  exact mem_filterMap.2 ⟨r, hr, hentry⟩

variable (h : AccessInv cfg (program prog) s log) (hf : FpInv cfg prog s)
  (hnodup : ((program prog).map (·.entry)).Nodup)
include h hf hnodup

/-- **The accesses offloaded and not done** are those in the queue and those of the LSU. -/
theorem AccessInv.outstanding_perm : ((s.outstanding prog).map FpInsn.access).Perm
      ((memEntries s.queue).map (fun e => e.insn.access) ++ s.lsu.reqs.map fun r => (r.entry, r.caqAddr)) := by
  obtain ⟨ended, hperm, hended⟩ := h.lsu
  have hsplit : s.outstanding prog = (memLog log).filter (fun i => !s.terminated.contains i.entry) ++
      (memEntries s.queue).map (·.insn) := by
    have hqueue : ((memEntries s.queue).map (·.insn)).filter (fun i => !s.terminated.contains i.entry) =
        (memEntries s.queue).map (·.insn) := by
      rw [filter_eq_self]
      intro i hi
      obtain ⟨e, he, rfl⟩ := mem_map.1 hi
      simpa using h.not_terminated hf hnodup e he
    rw [← hqueue, ← filter_append, ← h.offloaded, List.filter_filter, FpSs.outstanding]
    simp only [Bool.and_comm]
  -- the executed ones that are not terminated are with the LSU
  have hlog : (((memLog log).filter (fun i => !s.terminated.contains i.entry)).map FpInsn.access).Perm
      (s.lsu.reqs.map fun r => (r.entry, r.caqAddr)) := by
    have hfilter := hperm.filter fun x : Option Nat × BitVec w => !x.1.any s.terminated.contains
    rw [filter_append, List.filter_map] at hfilter
    have hnone : (ended.map FpInsn.access).filter (fun x => !x.1.any s.terminated.contains) = [] := by
      rw [filter_eq_nil_iff]
      intro x hx
      obtain ⟨i, hi, rfl⟩ := mem_map.1 hx
      simpa [FpInsn.access] using hended i hi
    have hall : (s.lsu.reqs.map fun r => (r.entry, r.caqAddr)).filter (fun x => !x.1.any s.terminated.contains) =
        s.lsu.reqs.map fun r => (r.entry, r.caqAddr) := by
      rw [filter_eq_self]
      intro x hx
      obtain ⟨r, hr, rfl⟩ := mem_map.1 hx
      cases hentry : r.entry with
      | none => rfl
      | some entry => simpa using hf.req_not_terminated hnodup hr hentry
    rw [hnone, hall, nil_append] at hfilter
    exact hfilter
  rw [hsplit, map_append, List.map_map]
  exact (hlog.append_right _).trans perm_append_comm

/-- **The consistency address queue** holds the words of the accesses offloaded and not done. -/
theorem AccessInv.caq_perm :
    s.caq.Perm ((s.outstanding prog).map fun x => FpSs.wordAddr x.intValue) := by
  have hcaq := hf.caq.caq
  have hqueue : s.queue.filter (·.caqPending) = memEntries s.queue := by
    refine filter_congr fun e he => ?_
    cases hmem : e.insn.kind.isMem with
    | true => exact h.pending e (mem_filter.2 ⟨he, hmem⟩)
    | false =>
      cases hp : e.caqPending with
      | false => rfl
      | true => rw [hf.caq.mem e he hp] at hmem; cases hmem
  have hreqs : s.lsu.reqs.filter (·.caqRelease) = s.lsu.reqs := filter_eq_self.2 h.release
  rw [hqueue, hreqs] at hcaq
  refine hcaq.trans ?_
  have hwords := (h.outstanding_perm hf hnodup).map Prod.snd
  rw [map_append, List.map_map, List.map_map, List.map_map] at hwords
  exact hwords.symm

end Outstanding

end GvsocPulp.Snitchv2
