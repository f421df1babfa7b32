import GvsocPulp.Snitchv2.FpAccesses
import GvsocPulp.Snitchv2.FpValues
import GvsocPulp.Snitchv2.FrepUnrolled

/-!
# The FP subsystem preserves the sequential program

`CoreInv`: the control invariant of the subsystem, the order of its accesses and the values of its registers, kept by
every event. In every reachable state the FP operands and the requests to the memory are those of the program executed
one instruction after the other, and the integer accesses wait for the FP accesses to their words (`fpSs_sequential`).
-/

namespace GvsocPulp.Snitchv2

open Lib List Option FpCore FpSs LoadsOk

variable {w : Nat} {V : Type}

/-- The values: the data kept beside the requests, the log, and the loads that are not done. -/
structure ValueInv (handler : FpHandler w V) (regs₀ : Fin 32 → V) (c : FpCore w V) : Prop where
  denied : c.denied.map (·.isRead) = c.ss.lsu.denied.map (·.isRead)
  syncLen : c.syncData.length = c.ss.lsu.syncReqs.length
  reads : ∀ data, c.Answers data → c.reads = seqReads handler data regs₀ c.log
  accesses : ∀ data, c.Answers data → c.sent ++ c.denied.toList = seqAccesses handler data regs₀ c.log
  loads : LoadsOk handler regs₀ c.log c.loaded c.regs c.ss.fpReady
    (c.ss.lsu.denied.toList ++ c.ss.lsu.inFlight) c.syncReqs
  loaded : ∀ entry, c.loaded entry ≠ none → entry ∈ (memLog c.log).map (·.entry)

/-- What holds in every reachable state. -/
structure CoreInv (cfg : FpConfig) (handler : FpHandler w V) (regs₀ : Fin 32 → V) (prog : List (Block w))
    (c : FpCore w V) : Prop where
  control : FpInv cfg prog c.ss
  access : AccessInv cfg (program prog) c.ss c.log
  value : ValueInv handler regs₀ c

section Steps

variable {cfg : FpConfig} {handler : FpHandler w V} {regs₀ : Fin 32 → V} {prog : List (Block w)} {c : FpCore w V}

/-! ## The accesses of the LSU with their data -/

theorem ValueInv.map_fst (h : ValueInv handler regs₀ c) : c.syncReqs.map (·.1) = c.ss.lsu.syncReqs :=
  map_fst_zip h.syncLen.symm.le

theorem ValueInv.reqs_perm (h : ValueInv handler regs₀ c) :
    (c.ss.lsu.denied.toList ++ c.ss.lsu.inFlight ++ c.syncReqs.map (·.1)).Perm c.ss.lsu.reqs := by
  rw [h.map_fst, FpLsu.reqs, append_assoc, append_assoc]
  exact perm_append_comm.append_left _

theorem FpInv.entries_nodup {s : FpSs w} (hf : FpInv cfg prog s) (hnodup : ((program prog).map (·.entry)).Nodup) :
    (s.lsu.reqs.filterMap (·.entry)).Nodup := by
  have hparts := hf.held.nodup_iff.2 hnodup
  rw [append_assoc, nodup_append, nodup_append, nodup_append] at hparts
  exact hparts.2.1.1.2.1

/-! ## Steps that change neither the LSU nor the scoreboard -/

theorem ValueInv.congr {ss : FpSs w} (h : ValueInv handler regs₀ c) (hlsu : ss.lsu = c.ss.lsu)
    (hready : ss.fpReady = c.ss.fpReady) : ValueInv handler regs₀ { c with ss := ss } := by
  refine ⟨?_, ?_, h.reads, h.accesses, ?_, h.loaded⟩
  · rw [hlsu]
    exact h.denied
  · rw [hlsu]
    exact h.syncLen
  · rw [syncReqs, hlsu, hready]
    exact h.loads

theorem offload_lsu {s s' : FpSs w} (hs : s.offload cfg = some s') : s'.lsu = s.lsu ∧ s'.fpReady = s.fpReady := by
  rw [offload] at hs
  split at hs
  · cases hs
  · split at hs
    · cases hs
      exact ⟨rfl, rfl⟩
    · cases hs

theorem checkIdle_lsu {s : FpSs w} : s.checkIdle.lsu = s.lsu ∧ s.checkIdle.fpReady = s.fpReady := by
  rw [checkIdle]
  split
  · exact ⟨rfl, rfl⟩
  · exact ⟨rfl, rfl⟩

/-! ## The loop over `lsu_sync_reqs` -/

theorem foldl_lsuEnd_lsu {done : List (FpLsuReq w)} {s : FpSs w} :
    (done.foldl (lsuEnd cfg) s).lsu = { s.lsu with free := s.lsu.free + done.length } ∧
      (done.foldl (lsuEnd cfg) s).cycle = s.cycle := by
  induction done generalizing s with
  | nil => exact ⟨rfl, rfl⟩
  | cons req done ih =>
    obtain ⟨hlsu, hcycle⟩ := ih (s := s.lsuEnd cfg req)
    refine ⟨?_, hcycle⟩
    rw [foldl_cons, hlsu, length_cons, add_comm done.length, ← add_assoc]
    rfl

/-- The loads whose latency has elapsed write their registers; those that stay are not due. -/
theorem ValueInv.endLsuSync (h : ValueInv handler regs₀ c) : ValueInv handler regs₀ (c.endLsuSync cfg) ∧
    ∀ x ∈ (c.endLsuSync cfg).syncReqs, ¬x.1.timestamp ≤ (c.endLsuSync cfg).ss.cycle := by
  have hfst := h.map_fst
  have hdone : (c.syncReqs.filter fun x => x.1.timestamp ≤ c.ss.cycle).map (·.1) =
      c.ss.lsu.syncReqs.filter fun req => req.timestamp ≤ c.ss.cycle := by
    rw [← hfst, List.filter_map]
    rfl
  have hleft : (c.syncReqs.filter fun x => ¬x.1.timestamp ≤ c.ss.cycle).map (·.1) =
      c.ss.lsu.syncReqs.filter fun req => ¬req.timestamp ≤ c.ss.cycle := by
    rw [← hfst, List.filter_map]
    rfl
  obtain ⟨hlsu, hcycle⟩ := @foldl_lsuEnd_lsu _ cfg (c.ss.lsu.syncReqs.filter fun req => req.timestamp ≤ c.ss.cycle)
    { c.ss with lsu := { c.ss.lsu with syncReqs := c.ss.lsu.syncReqs.filter fun req => ¬req.timestamp ≤ c.ss.cycle } }
  have hsync : (c.endLsuSync cfg).syncReqs = c.syncReqs.filter fun x => ¬x.1.timestamp ≤ c.ss.cycle := by
    rw [FpCore.syncReqs, FpCore.endLsuSync, FpSs.endLsuSync]
    rw [hlsu]
    rw [← hleft, zip_map', map_id'']
    exact fun _ => rfl
  refine ⟨⟨?_, ?_, h.reads, h.accesses, ?_, h.loaded⟩, fun x hx => ?_⟩
  · rw [FpCore.endLsuSync, FpSs.endLsuSync]
    rw [hlsu]
    exact h.denied
  · rw [FpCore.endLsuSync, FpSs.endLsuSync]
    rw [hlsu]
    rw [← hleft, length_map, length_map]
  · rw [hsync, FpCore.endLsuSync, FpSs.endLsuSync]
    rw [hlsu, ← hdone]
    refine foldl_lsuEnd (h.loads.perm (List.Perm.refl _) ?_)
    have hperm := filter_append_perm (fun x : FpLsuReq w × V => decide (x.1.timestamp ≤ c.ss.cycle)) c.syncReqs
    simpa only [decide_not] using hperm.symm
  · rw [hsync] at hx
    have hcycle' : (c.endLsuSync cfg).ss.cycle = c.ss.cycle := hcycle
    rw [hcycle']
    simpa using (mem_filter.1 hx).2

/-! ## `issue()` -/

theorem send_ss (ss : FpSs w) (entry : Option Nat) (access : FpAccess w V) (status : LsuStatus) (value : V) :
    ({ c with ss := ss } : FpCore w V).send entry access status value =
      { c.send entry access status value with ss := ss } := by
  cases status with
  | done latency =>
    rw [send, send]
    cases entry with
    | none => rfl
    | some entry =>
      rw [FpCore.answer, FpCore.answer]
      split
      · rfl
      · rfl
  | granted => rfl
  | denied => rfl

theorem seqStep_of_not_mem {data : Nat → V} {regs : Fin 32 → V} {x : FpInsn w × List InsnArg}
    (h : x.1.kind.isMem = false) :
    seqStep handler data regs x = writeResult x.2 (handler x.1 (operands regs x.2)) regs := by
  rw [seqStep]
  cases hk : x.1.kind <;> first | rfl | (rw [hk] at h; cases h)

variable {env : FpEnv} {value : V} {entry : FpSsEntry w} {args : List InsnArg} {last : Bool}

open FpSs (lsuReq)

theorem CoreInv.loaded_eq_none (h : CoreInv cfg handler regs₀ prog c) (hnodup : ((program prog).map (·.entry)).Nodup)
    {left : List (FpSsEntry w)} (hq : memEntries c.ss.queue = entry :: left) : c.loaded entry.insn.entry = none := by
  by_contra hsome
  have hmem := h.value.loaded _ hsome
  have hsub : (((program prog).filter (·.kind.isMem)).map (·.entry)).Nodup := hnodup.sublist (filter_sublist.map _)
  rw [h.access.order, hq, append_assoc, map_append, nodup_append] at hsub
  exact hsub.2.2 _ hmem entry.insn.entry (by simp) rfl

section

variable (h : CoreInv cfg handler regs₀ prog c) (hsync : ∀ x ∈ c.syncReqs, ¬x.1.timestamp ≤ c.ss.cycle)
  (hssr : env.ssrEnabled = false) (hcheck : c.ss.checkOperands cfg env entry.insn args = true)
include h hsync hssr hcheck

/-- The register of an operand of an instruction that is issued: no load is about to write it, so it has its value. -/
theorem CoreInv.operand_ready {arg : InsnArg} (harg : arg ∈ args) (hfreg : arg.freg = true)
    (htype : arg.type ≠ .other) :
    ∀ q ∈ c.ss.lsu.denied.toList ++ c.ss.lsu.inFlight ++ c.syncReqs.map (·.1), q.isRead = true → q.reg ≠ arg.lid := by
  obtain ⟨t, hle, hready⟩ := ready_of_checkOperands hssr hcheck arg harg hfreg htype
  exact h.value.loads.not_waiting hsync hready hle

/-- The operands and the request of an instruction that is issued are those of the sequential program. -/
theorem CoreInv.operands_eq {data : Nat → V}
    (hdata : c.Answers data) : operands c.regs args = operands (seqRegs handler data regs₀ c.log) args :=
  operands_congr fun arg harg hin hfreg => h.value.loads.regs data hdata arg.lid
    (h.operand_ready hsync hssr hcheck harg hfreg (by rw [hin]; decide))

theorem CoreInv.access_eq
    (hargs : args = entry.insn.args) (hmem : entry.insn.kind.isMem = true) (hdecoded : entry.insn.Decoded)
      {data : Nat → V}
    (hdata : c.Answers data) :
    fpAccess c.regs entry.insn args = fpAccess (seqRegs handler data regs₀ c.log) entry.insn args := by
  rw [fpAccess, fpAccess]
  by_cases hload : entry.insn.kind = .load
  · rw [if_pos hload, if_pos hload]
  · have hstore : entry.insn.kind = .store := by
      cases hk : entry.insn.kind <;> rw [hk] at hmem hload <;> first | rfl | exact absurd rfl hload | cases hmem
    obtain ⟨arg, harg, hfreg, hin, hlid⟩ := hdecoded.2 hstore
    rw [← hargs] at harg hlid
    rw [if_neg hload, if_neg hload, ← hlid, h.value.loads.regs data hdata arg.lid
      (h.operand_ready hsync hssr hcheck harg hfreg (by rw [hin]; decide))]

theorem CoreInv.compute (hmem : entry.insn.kind.isMem = false) {ss : FpSs w}
    (hlsu : ss.lsu = c.ss.lsuAfter cfg env entry args last)
    (hready : ss.fpReady = c.ss.readyAfter cfg env entry args last) :
    ValueInv handler regs₀ { c.execute handler entry args last env.status value with ss := ss } := by
  have hnot : ¬entry.insn.kind.isMem = true := by rw [hmem]; exact Bool.false_ne_true
  have hload : entry.insn.kind ≠ .load := fun hk => hnot (by rw [hk]; rfl)
  have hlsu : ss.lsu = c.ss.lsu := by rw [hlsu, lsuAfter, if_neg hnot]
  have hready : ss.fpReady = args.foldl (setResult cfg env (c.ss.cycle + entry.insn.latency)) c.ss.fpReady := by
    rw [hready, readyAfter, if_neg hload, if_neg hnot]
  have hv := h.value
  have hlog : memLog (c.log ++ [(entry.insn, args)]) = memLog c.log := by
    rw [memLog_append]
    simp [memLog, hmem]
  have houts : ∀ q ∈ c.ss.lsu.denied.toList ++ c.ss.lsu.inFlight ++ c.syncReqs.map (·.1), q.isRead = true →
      ∀ arg ∈ args, arg.type = .outReg → arg.freg = true → arg.lid ≠ q.reg := fun q hq hread arg harg hout hfreg =>
    (h.operand_ready hsync hssr hcheck harg hfreg (by rw [hout]; decide) q hq hread).symm
  rw [FpCore.execute]
  rw [if_neg hnot]
  refine ⟨?_, ?_, fun data hdata => ?_, fun data hdata => ?_, ?_, fun e he => ?_⟩
  · rw [hlsu]
    exact hv.denied
  · rw [hlsu]
    exact hv.syncLen
  · rw [seqReads_concat, hv.reads data hdata, h.operands_eq hsync hssr hcheck hdata]
  · rw [seqAccesses_concat, if_neg hnot, append_nil]
    exact hv.accesses data hdata
  · rw [syncReqs]
    rw [hlsu, hready]
    refine hv.loads.concat (fun q hq hread => ⟨setResult_of_not_mem (houts q hq hread), fun data seq => ?_⟩)
      fun data hdata reg hreg => ?_
    · rw [seqStep_of_not_mem hmem]
      exact writeResult_of_not_mem (houts q hq hread)
    · rw [seqStep_of_not_mem hmem, ← h.operands_eq hsync hssr hcheck hdata]
      exact writeResult_congr (hv.loads.regs data hdata reg hreg)
  · rw [hlog]
    exact hv.loaded e he

theorem CoreInv.request (hargs : args = entry.insn.args) (hlast : last = true) (hmem : entry.insn.kind.isMem = true)
    (hdecoded : entry.insn.Decoded) (hloaded : c.loaded entry.insn.entry = none) :
    LoadsOk handler regs₀ (c.log ++ [(entry.insn, args)]) c.loaded c.regs
      (if (lsuReq entry args last).isRead then Function.update c.ss.fpReady (lsuReq entry args last).reg none
        else c.ss.fpReady)
      (lsuReq entry args last :: (c.ss.lsu.denied.toList ++ c.ss.lsu.inFlight)) c.syncReqs := by
  by_cases hload : entry.insn.kind = .load
  · have hread : (lsuReq entry args last).isRead = true := by
      rw [lsuReq, hload]
      rfl
    have hentry : (lsuReq entry args last).entry = some entry.insn.entry := by
      rw [lsuReq, hlast]
      rfl
    obtain ⟨arg, harg, hfreg, hout, hlid⟩ := hdecoded.1 hload
    rw [← hargs] at harg hlid
    rw [if_pos hread]
    refine h.value.loads.load hload hread rfl hentry hloaded ?_
    have hfree := h.operand_ready hsync hssr hcheck harg hfreg (by rw [hout]; decide)
    rw [hlid] at hfree
    exact hfree
  · have hread : (lsuReq entry args last).isRead = false := decide_eq_false hload
    have hstore : entry.insn.kind = .store := by
      cases hk : entry.insn.kind <;> rw [hk] at hmem hload <;> first | rfl | exact absurd rfl hload | cases hmem
    have hstep : ∀ (data : Nat → V) (seq : Fin 32 → V), seqStep handler data seq (entry.insn, args) = seq := by
      intro data seq
      rw [seqStep, hstore]
    rw [hread, if_neg Bool.false_ne_true]
    refine cons_write (h.value.loads.concat (fun q hq hq' => ⟨rfl, fun data seq => by rw [hstep]⟩)
      fun data hdata reg hreg => ?_) hread
    rw [hstep]
    exact h.value.loads.regs data hdata reg hreg

theorem CoreInv.memAccess (hargs : args = entry.insn.args) (hlast : last = true) (hmem : entry.insn.kind.isMem = true)
    (hdecoded : entry.insn.Decoded) (hloaded : c.loaded entry.insn.entry = none) {ss : FpSs w}
    (hlsu : ss.lsu = c.ss.lsuAfter cfg env entry args last)
      (hready : ss.fpReady = c.ss.readyAfter cfg env entry args last)
    (hentries : (ss.lsu.reqs.filterMap (·.entry)).Nodup) :
    ValueInv handler regs₀ { c.execute handler entry args last env.status value with ss := ss } := by
  have hv := h.value
  obtain ⟨-, hdenied⟩ := lsu_of_checkOperands hcheck hmem
  have hcd : c.denied = none := by
    have hsame := hv.denied
    rw [hdenied] at hsame
    exact map_eq_none_iff.1 hsame
  have hlog : memLog (c.log ++ [(entry.insn, args)]) = memLog c.log ++ [entry.insn] := by
    rw [memLog_append]
    simp [memLog, hmem]
  have hentry : (lsuReq entry args last).entry = some entry.insn.entry := by
    rw [lsuReq, hlast]
    rfl
  obtain ⟨t, hreqs⟩ := @lsuAfter_reqs _ cfg c.ss env entry args last h.control.lsu hcheck hmem
  have hrequest := h.request hsync hssr hcheck hargs hlast hmem hdecoded hloaded
  rw [hdenied] at hrequest
  have hperm := hv.reqs_perm
  rw [hdenied] at hperm
  have hnodup : ((lsuReq entry args last :: (c.ss.lsu.inFlight ++ c.syncReqs.map (·.1))).filterMap
    (·.entry)).Nodup := by
    have hboth := ((hperm.cons { lsuReq entry args last with timestamp := t }).trans hreqs.symm).filterMap (·.entry)
    rw [← hlsu] at hboth
    exact hboth.nodup_iff.2 hentries
  have hsend := @send_loads _ _ cfg handler regs₀
    { c with
      log := c.log ++ [(entry.insn, args)]
      reads := c.reads ++ [operands c.regs args]
      ss := c.ss.take (lsuReq entry args last) }
    (lsuReq entry args last) (fpAccess c.regs entry.insn args) env.status value rfl hv.syncLen hdenied hcd hrequest
    hnodup
  have hsent := @send_sent _ _ { c with
    log := c.log ++ [(entry.insn, args)]
    reads := c.reads ++ [operands c.regs args] } (fpAccess c.regs entry.insn args) env.status value
    (lsuReq entry args last).entry hcd
  have hanswer := @send_answers _ _ { c with
    log := c.log ++ [(entry.insn, args)]
    reads := c.reads ++ [operands c.regs args] } (lsuReq entry args last) (fpAccess c.regs entry.insn args) env.status
    value rfl
  rw [@send_ss _ _ { c with
    log := c.log ++ [(entry.insn, args)]
    reads := c.reads ++ [operands c.regs args] }] at hsend
  have hlsuSend : ss.lsu = ((c.ss.take (lsuReq entry args last)).lsuSend cfg (lsuReq entry args last)
      env.status).lsu := by
    rw [hlsu, lsuAfter, if_pos hmem]
    rfl
  rw [FpCore.execute]
  rw [if_pos hmem]
  obtain ⟨loaded, syncData, sent, denied, heq⟩ := @send_eq _ _ { c with
    log := c.log ++ [(entry.insn, args)]
    reads := c.reads ++ [operands c.regs args] } (fpAccess c.regs entry.insn args) env.status value
    (lsuReq entry args last).entry
  rw [heq] at hsend hsent hanswer ⊢
  rw [← hlsuSend] at hsend
  dsimp only at hsend hsent hanswer ⊢
  obtain ⟨hloads, hlen, hsome⟩ := hsend
  have hold : ∀ data : Nat → V, (∀ e v, loaded e = some v → data e = v) → c.Answers data := by
    intro data hdata e v hv'
    refine hdata e v ?_
    rcases hanswer with hanswer | hanswer
    · rw [hanswer]
      exact hv'
    · rw [hanswer]
      exact loadedAfter_of_some (fun _ e' he' => by cases hentry.symm.trans he'; exact hloaded) hv'
  refine ⟨hsome, hlen, fun data hdata => ?_, fun data hdata => ?_, ?_, fun e he => ?_⟩
  · rw [seqReads_concat, hv.reads data (hold data hdata), h.operands_eq hsync hssr hcheck (hold data hdata)]
  · rw [hsent, seqAccesses_concat, if_pos hmem, ← hv.accesses data (hold data hdata), hcd, toList_none, append_nil,
      h.access_eq hsync hssr hcheck hargs hmem hdecoded (hold data hdata)]
  · refine congr_ready hloads fun q hq hread => ?_
    rw [hready, readyAfter, if_pos hmem, lsuAccess_eq]
    split
    case isTrue => rfl
    case isFalse hload =>
      -- a store has no request that reads, so the request is an older one
      have hreqs' : q ∈ ss.lsu.reqs := by
        replace hq : q ∈ ss.lsu.denied.toList ++ ss.lsu.inFlight ++ (ss.lsu.syncReqs.zip syncData).map (·.1) := hq
        rw [map_fst_zip hlen.symm.le, append_assoc] at hq
        rw [FpLsu.reqs, append_assoc]
        exact (perm_append_comm.append_left _).subset hq
      rw [hlsu] at hreqs'
      refine setResult_of_not_mem fun arg harg hout hfreg => ?_
      rcases mem_cons.1 (hreqs.subset hreqs') with rfl | hq
      · exact absurd (of_decide_eq_true hread) hload
      · exact (h.operand_ready hsync hssr hcheck harg hfreg (by rw [hout]; decide) q
          (hv.reqs_perm.symm.subset hq) hread).symm
  · rw [hlog, map_append]
    have hcases : c.loaded e ≠ none ∨ (lsuReq entry args last).entry = some e := by
      rcases hanswer with hanswer | hanswer
      · exact .inl (hanswer ▸ he)
      · exact loadedAfter_ne_none (hanswer ▸ he)
    rcases hcases with he | he
    · exact mem_append_left _ (hv.loaded e he)
    · cases hentry.symm.trans he
      exact mem_append_right _ (mem_singleton.2 rfl)

end

theorem issue_ss : (c.issue cfg handler env value).ss = (c.ss.issue cfg env).1 := by
  rw [FpCore.issue]
  split
  · rfl
  · rfl

theorem execute_log (status : LsuStatus) :
    (c.execute handler entry args last status value).log = c.log ++ [(entry.insn, args)] := by
  rw [FpCore.execute]
  split
  · obtain ⟨loaded, syncData, sent, denied, heq⟩ := @send_eq _ _ { c with
      log := c.log ++ [(entry.insn, args)]
      reads := c.reads ++ [operands c.regs args] } (fpAccess c.regs entry.insn args) status value
      (lsuReq entry args last).entry
    rw [heq]
  · rfl

theorem issue_log : (c.issue cfg handler env value).log = c.log ++ logOf (c.ss.issuing cfg env) := by
  rw [FpCore.issue]
  cases hissuing : c.ss.issuing cfg env with
  | none => exact (append_nil _).symm
  | some x => exact execute_log env.status

structure ProgramOk (cfg : FpConfig) (prog : List (Block w)) : Prop where
  ok : ∀ b ∈ prog, b.Ok cfg
  noAccess : ∀ b ∈ prog, b.NoAccess
  decoded : ∀ insn ∈ program prog, insn.Decoded
  nodup : ((program prog).map (·.entry)).Nodup
  width : w < 64

section

variable (h : CoreInv cfg handler regs₀ prog c)
include h

theorem CoreInv.issue (hp : ProgramOk cfg prog)
    (hsync : ∀ x ∈ c.syncReqs, ¬x.1.timestamp ≤ c.ss.cycle) (hssr : env.ssrEnabled = false)
      (hev : c.ss.fsmEvent = true) :
    CoreInv cfg handler regs₀ prog (c.issue cfg handler env value) := by
  have hcontrol := (@FpInv.issue _ _ _ _ env h.control hp.width hev).1
  have hloop : ∀ loop, c.ss.loop = some loop → loop.insn < loop.nbInsns := fun loop hl => (h.control.loop_insn hl).1
  have haccess := @AccessInv.issue _ cfg _ _ _ h.access env h.control.lsu hloop (headOnly_program hp.ok hp.noAccess)
  refine ⟨by rw [issue_ss]; exact hcontrol, by rw [issue_ss, issue_log]; exact haccess, ?_⟩
  obtain ⟨done, hdone⟩ := h.access.suffix
  obtain ⟨hexec, -, -⟩ := @issue_spec _ cfg c.ss env (fun loop hl => ⟨hloop loop hl, h.access.loop loop hl⟩)
    fun _ => headOnly_program hp.ok hp.noAccess hdone
  rw [FpCore.issue]
  cases hissuing : c.ss.issuing cfg env with
  | none =>
    rw [hissuing] at hexec
    cases hexec with
    | none lsu ready _ _ => exact h.value.congr lsu ready
  | some x =>
    obtain ⟨entry, args, last⟩ := x
    rw [hissuing] at hexec
    cases hexec with
    | some check lsu ready _ insn args_eq mem =>
      have hinsn : entry.insn ∈ program prog := by
        rw [hdone]
        exact mem_append_right _ (mem_append_left _ insn)
      cases hmem : entry.insn.kind.isMem with
      | false => exact h.compute hsync hssr check hmem lsu ready
      | true =>
        rw [if_pos hmem] at mem
        exact h.memAccess hsync hssr check (args_eq hmem).1 (args_eq hmem).2 hmem (hp.decoded _ hinsn)
          (h.loaded_eq_none hp.nodup mem) lsu ready (hcontrol.entries_nodup hp.nodup)

theorem CoreInv.fsmHandler (hp : ProgramOk cfg prog) (hssr : env.ssrEnabled = false)
    (hev : c.ss.fsmEvent = true) : CoreInv cfg handler regs₀ prog (c.fsmHandler cfg handler env value) := by
  obtain ⟨hcontrol, hevent⟩ := h.control.endCompletions hev
  obtain ⟨hcontrol, hevent⟩ := hcontrol.endLsuSync hevent
  have hended : ValueInv handler regs₀ ({ c with ss := c.ss.endCompletions } : FpCore w V) := h.value.congr rfl rfl
  obtain ⟨hvalue, hsync⟩ := hended.endLsuSync
  have hcore : CoreInv cfg handler regs₀ prog (({ c with ss := c.ss.endCompletions } : FpCore w V).endLsuSync cfg) :=
    ⟨hcontrol, h.access.endCompletions.endLsuSync, hvalue⟩
  have hissue := @CoreInv.issue _ _ cfg handler regs₀ prog _ env value hcore hp hsync hssr hevent
  have hss : (c.fsmHandler cfg handler env value).ss = c.ss.fsmHandler cfg env := by
    rw [FpCore.fsmHandler, FpSs.fsmHandler]
    rw [issue_ss]
    rfl
  refine ⟨by rw [hss]; exact h.control.fsmHandler hp.width hev, hissue.access.checkIdle, ?_⟩
  obtain ⟨hlsu, hready⟩ := checkIdle_lsu (s := (({ c with ss := c.ss.endCompletions } : FpCore w V).endLsuSync
    cfg).issue cfg
    handler env value |>.ss)
  exact hissue.value.congr hlsu hready

/-! ## Retries and responses -/

theorem CoreInv.lsuRetry {status : LsuStatus}
    (hnodup : ((program prog).map (·.entry)).Nodup) : CoreInv cfg handler regs₀ prog (c.lsuRetry cfg status value) := by
  have hv := h.value
  have hsame := hv.denied
  cases hss : c.ss.lsu.denied with
  | none =>
    rw [FpCore.lsuRetry, hss]
    exact h
  | some req =>
    rw [hss, map_some] at hsame
    obtain ⟨access, haccess, hread⟩ := map_eq_some_iff.1 hsame
    have hcontrol := @FpInv.lsuRetry _ cfg prog c.ss h.control status
    have haccessInv := @AccessInv.lsuRetry _ cfg _ c.ss c.log h.access status h.control.lsu
    have hretry : c.ss.lsuRetry cfg status =
        lsuSend cfg { c.ss with lsu := { c.ss.lsu with denied := none } } req status := by
      rw [FpSs.lsuRetry, hss]
    have hloads := hv.loads
    rw [hss] at hloads
    have hperm := hv.reqs_perm
    rw [hss] at hperm
    have hentries : ((req :: (c.ss.lsu.inFlight ++ c.syncReqs.map (·.1))).filterMap (·.entry)).Nodup :=
      (hperm.filterMap _).nodup_iff.2 (h.control.entries_nodup hnodup)
    have hsend := @send_loads _ _ cfg handler regs₀
      { c with denied := none, ss := { c.ss with lsu := { c.ss.lsu with denied := none } } } req access
        status value hread
      hv.syncLen rfl rfl hloads hentries
    have hsent := @send_sent _ _ { c with denied := none } access status value req.entry rfl
    have hanswer := @send_answers _ _ { c with denied := none } req access status value hread
    rw [@send_ss _ _ { c with denied := none }, ← hretry] at hsend
    rw [FpCore.lsuRetry, hss, haccess]
    dsimp only
    obtain ⟨loaded, syncData, sent, denied, heq⟩ := @send_eq _ _ { c with denied := none } access status value req.entry
    rw [heq] at hsend hsent hanswer ⊢
    dsimp only at hsend hsent hanswer ⊢
    obtain ⟨hloads', hlen, hsome⟩ := hsend
    have hnone : req.isRead = true → ∀ entry, req.entry = some entry → c.loaded entry = none := by
      intro hread' entry hentry
      obtain ⟨entry', hentry', hloaded, -⟩ := (hloads.waiting req (by simp) hread').2
      cases hentry.symm.trans hentry'
      exact hloaded
    have hold : ∀ data : Nat → V, (∀ e v, loaded e = some v → data e = v) → c.Answers data := by
      intro data hdata e v hv'
      refine hdata e v ?_
      rcases hanswer with hanswer | hanswer
      · rw [hanswer]
        exact hv'
      · rw [hanswer]
        exact loadedAfter_of_some hnone hv'
    refine ⟨hcontrol, haccessInv, hsome, hlen, fun data hdata => hv.reads data (hold data hdata), fun data hdata => ?_,
      hloads', fun e he => ?_⟩
    · rw [hsent, ← hv.accesses data (hold data hdata), haccess]
      rfl
    · have hcases : c.loaded e ≠ none ∨ req.entry = some e := by
        rcases hanswer with hanswer | hanswer
        · exact .inl (hanswer ▸ he)
        · exact loadedAfter_ne_none (hanswer ▸ he)
      rcases hcases with he | he
      · exact hv.loaded e he
      · have hmem : req ∈ c.ss.lsu.reqs := by
          rw [FpLsu.reqs, hss]
          simp
        exact h.access.entry_mem_log hmem he

theorem CoreInv.lsuResponse {k : Nat} {c' : FpCore w V}
    (hnodup : ((program prog).map (·.entry)).Nodup) (hs : c.lsuResponse cfg k value = some c') :
    CoreInv cfg handler regs₀ prog c' := by
  have hv := h.value
  rw [FpCore.lsuResponse, bind_eq_some_iff] at hs
  obtain ⟨req, hreq, hs⟩ := hs
  obtain ⟨ss, hss, rfl⟩ := map_eq_some_iff.1 hs
  have hcontrol := h.control.lsuResponse hss
  have haccess := h.access.lsuResponse hss
  have hend : ss = lsuEnd cfg { c.ss with lsu := { c.ss.lsu with inFlight := c.ss.lsu.inFlight.eraseIdx k } } req := by
    rw [FpSs.lsuResponse, hreq] at hss
    exact (Option.some.inj hss).symm
  have hloaded := @answer_loaded _ _ c req value req.isRead rfl
  obtain ⟨loaded, heq⟩ := @answer_eq _ _ c value req.entry req.isRead
  rw [heq] at hloaded ⊢
  dsimp only at hloaded ⊢
  obtain ⟨hlt, rfl⟩ := List.getElem?_eq_some_iff.1 hreq
  have hflight := getElem_cons_eraseIdx_perm hlt
  have hwaiting : (c.ss.lsu.denied.toList ++ c.ss.lsu.inFlight).Perm
      (c.ss.lsu.inFlight[k] :: (c.ss.lsu.denied.toList ++ c.ss.lsu.inFlight.eraseIdx k)) :=
    (hflight.symm.append_left _).trans perm_middle
  have hloads := hv.loads.perm hwaiting (List.Perm.refl _)
  have hmem : c.ss.lsu.inFlight[k] ∈ c.ss.lsu.reqs := mem_append_right _ (getElem_mem hlt)
  have hnone : c.ss.lsu.inFlight[k].isRead = true → c.ss.fpReady c.ss.lsu.inFlight[k].reg = none ∧
      ∀ entry, c.ss.lsu.inFlight[k].entry = some entry → c.loaded entry = none := by
    intro hread
    obtain ⟨hready, entry, hentry, hnone, -⟩ := hloads.waiting _ mem_cons_self hread
    exact ⟨hready, fun entry' hentry' => by cases hentry.symm.trans hentry'; exact hnone⟩
  have hentries := (hv.reqs_perm.symm.trans (hwaiting.append_right _) |>.filterMap (·.entry)).nodup_iff.1
    (h.control.entries_nodup hnodup)
  have hanswered : LoadsOk handler regs₀ c.log (loadedAfter c.loaded c.ss.lsu.inFlight[k] value) c.regs c.ss.fpReady
      (c.ss.lsu.denied.toList ++ c.ss.lsu.inFlight.eraseIdx k) ((c.ss.lsu.inFlight[k], value) :: c.syncReqs) :=
    hloads.answer hentries (fun hread t ht => by rw [(hnone hread).1] at ht; cases ht) (fun reg _ => rfl)
  have hold : ∀ data : Nat → V, (∀ e v, loaded e = some v → data e = v) → c.Answers data := fun data hdata e v hv' =>
    hdata e v (by rw [hloaded]; exact loadedAfter_of_some (fun hread => (hnone hread).2) hv')
  refine ⟨hcontrol, haccess, ?_, ?_, fun data hdata => hv.reads data (hold data hdata),
    fun data hdata => hv.accesses data (hold data hdata), ?_, fun e he => ?_⟩
  · rw [hend]
    exact hv.denied
  · rw [hend]
    exact hv.syncLen
  · rw [hend, hloaded]
    refine hanswered.lsuEnd fun reg hreg => ?_
    rw [FpSs.lsuEnd]
    dsimp only
    split
    case isTrue hread => exact Function.update_of_ne (hreg (Bool.and_eq_true_iff.1 hread).1) _ _
    case isFalse => rfl
  · rw [hloaded] at he
    rcases loadedAfter_ne_none he with he | he
    · exact hv.loaded e he
    · exact h.access.entry_mem_log hmem he

/-! ## Runs -/

theorem CoreInv.step {event : FpCoreEvent V} {c' : FpCore w V}
    (hp : ProgramOk cfg prog) (hssr : event.NoSsr) (hs : fpCoreStep cfg handler c event = some c') :
    CoreInv cfg handler regs₀ prog c' := by
  cases event with
  | cycle =>
    cases hs
    exact ⟨{ h.control with }, { h.access with }, h.value.congr rfl rfl⟩
  | offload =>
    obtain ⟨ss, hss, rfl⟩ := map_eq_some_iff.1 hs
    obtain ⟨hlsu, hready⟩ := offload_lsu hss
    exact ⟨h.control.offload hss, h.access.offload hss, h.value.congr hlsu hready⟩
  | fsmHandler env value =>
    rw [fpCoreStep] at hs
    split at hs
    case isTrue hev =>
      cases hs
      exact h.fsmHandler hp hssr hev
    case isFalse => cases hs
  | lsuRetry status value =>
    cases hs
    exact h.lsuRetry hp.nodup
  | lsuResponse k value => exact h.lsuResponse hp.nodup hs

end

theorem coreInv_init (hp : ProgramOk cfg prog) : CoreInv cfg handler regs₀ prog (.init cfg regs₀ (program prog)) where
  control := fpInv_init hp.ok
  access := accessInv_init _
  value := ⟨rfl, rfl, fun _ _ => rfl, fun _ _ => rfl,
    ⟨fun _ _ _ _ => rfl, nodup_nil, fun _ hq => (not_mem_nil hq).elim, fun _ hx => (not_mem_nil hx).elim⟩,
    fun _ he => absurd rfl he⟩

theorem CoreInv.sequential (h : CoreInv cfg handler regs₀ prog c) (hnodup : ((program prog).map (·.entry)).Nodup) :
    FpSequential cfg handler regs₀ prog c := by
  have hcaq := h.access.caq_perm h.control hnodup
  refine ⟨?_, h.access.insns, h.value.reads, h.value.accesses, fun hreqs data hdata => ?_,
    fun intRegs insn hpass x hx heq => ?_, hcaq, h.access.caq_le, ?_⟩
  · obtain ⟨body, todo, bs, horder⟩ := h.control.order
    rw [h.access.executed, ← horder.executed, append_assoc]
    exact prefix_append _ _
  · funext reg
    refine h.value.loads.regs data hdata reg fun q hq => ?_
    have hmem := h.value.reqs_perm.subset hq
    rw [hreqs] at hmem
    cases hmem
  · -- the word of the FP access is in the queue
    have hmem : wordAddr (insn.addr intRegs) ∈ c.ss.caq := by
      rw [← heq]
      exact hcaq.symm.subset (List.mem_map_of_mem hx)
    have hany : c.ss.caq.any (fun caqAddr => caqAddr = wordAddr (insn.addr intRegs)) = true :=
      List.any_eq_true.2 ⟨_, hmem, decide_eq_true rfl⟩
    have hempty : c.ss.caq.isEmpty = false := by
      rw [isEmpty_eq_false_iff]
      exact ne_nil_of_mem hmem
    rw [caqStub, hempty] at hpass
    dsimp only at hpass
    rw [hany] at hpass
    cases hpass
  · have hfree := h.control.lsu.free
    rw [FpLsu.reqs, length_append, length_append] at hfree
    omega

/-- **The FP subsystem preserves the sequential program**, in every reachable state. -/
theorem fpSs_sequential {events : List (FpCoreEvent V)} (hw : w < 64) (hprog : ∀ b ∈ prog, b.Ok cfg)
    (hno : ∀ b ∈ prog, b.NoAccess) (hdecoded : ∀ insn ∈ program prog, insn.Decoded)
    (hnodup : ((program prog).map (·.entry)).Nodup) (hssr : ∀ event ∈ events, event.NoSsr)
    (hrun : run (fpCoreStep cfg handler) (.init cfg regs₀ (program prog)) events = some c) :
    FpSequential cfg handler regs₀ prog c := by
  have hp : ProgramOk cfg prog := ⟨hprog, hno, hdecoded, hnodup, hw⟩
  have hsteps := @allSteps_of_forall _ _ (fpCoreStep cfg handler) FpCoreEvent.NoSsr events
    (.init cfg regs₀ (program prog)) hssr
  exact (run_inv (fun _ _ _ h hssr hs => CoreInv.step h hp hssr hs) (coreInv_init hp) hsteps hrun).sequential hnodup

end Steps

/-! ## A run -/

/-- A load of `f8`, a computation from it, and a store of the result. -/
def smallFpProgram : List (Block 32) :=
  [.single (fpInsn 0 .load 8 0), .single (fpInsn 1 .compute 9 8),
    .single { fpInsn 2 .store 0 0 with args := [⟨.inReg, false, 0, 0⟩, ⟨.inReg, true, 1, 9⟩] }]

/-- A computation adds 1. -/
def incHandler : FpHandler 32 Nat := fun _ values => values.sum + 1

/-- The load is denied at first, and answered late. -/
def smallFpRun : List (FpCoreEvent Nat) :=
  [.offload, .offload, .cycle, .fsmHandler ⟨false, fun _ => true, fun _ => true, .denied⟩ 0,
    .lsuRetry .granted 0, .cycle, .fsmHandler smallFpEnv 0, .lsuResponse 0 5, .offload] ++
    (List.replicate 5 [.cycle, .fsmHandler smallFpEnv 0]).flatten

/-- The computation waits for the load, and the store for the computation. -/
theorem fpSs_sequential_lateLoad : ∃ c, run (fpCoreStep smallFpConfig incHandler)
    (.init smallFpConfig (fun _ => 0) (program smallFpProgram)) smallFpRun = some c ∧ c.reads = [[], [5], [6]] ∧
    c.sent = [⟨true, 64, none⟩, ⟨false, 64, some 6⟩] ∧
      FpSequential smallFpConfig incHandler (fun _ => 0) smallFpProgram c := by
  have hrun : ((run (fpCoreStep smallFpConfig incHandler) (.init smallFpConfig (fun _ => 0) (program smallFpProgram))
      smallFpRun).map fun c => (c.reads, c.sent)) =
        some ([[], [5], [6]], [⟨true, 64, none⟩, ⟨false, 64, some 6⟩]) := by decide +kernel
  obtain ⟨c, hc, hlog⟩ := map_eq_some_iff.1 hrun
  have hlog := Prod.mk.inj hlog
  refine ⟨c, hc, hlog.1, hlog.2, fpSs_sequential (by decide) ?_ ?_ ?_ (by decide) ?_ hc⟩
  · intro b hb
    simp only [smallFpProgram, mem_cons, not_mem_nil, or_false] at hb
    rcases hb with rfl | rfl | rfl
    · rfl
    · rfl
    · rfl
  · intro b hb
    simp only [smallFpProgram, mem_cons, not_mem_nil, or_false] at hb
    rcases hb with rfl | rfl | rfl
    · trivial
    · trivial
    · trivial
  · intro insn hinsn
    simp only [smallFpProgram, program, Block.insns, flatMap_cons, flatMap_nil, singleton_append,
      append_nil, mem_cons, not_mem_nil, or_false] at hinsn
    rcases hinsn with rfl | rfl | rfl
    · exact ⟨fun _ => ⟨⟨.outReg, true, 0, 8⟩, by decide⟩, fun h => by cases h⟩
    · exact ⟨fun h => (by cases h), fun h => (by cases h)⟩
    · exact ⟨fun h => (by cases h), fun _ => ⟨⟨.inReg, true, 1, 9⟩, by decide⟩⟩
  · decide

end GvsocPulp.Snitchv2
