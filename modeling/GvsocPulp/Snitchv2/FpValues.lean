import GvsocPulp.Snitchv2.FpCore

/-!
# The FP registers and the loads in flight

`LoadsOk` ties the registers, the scoreboard and the loads that are not done to the sequential program: a register that
no load is about to write has its value there, and a load that is not done is the latest instruction that writes its
register. A register that the scoreboard lets an instruction use is of the first kind (`LoadsOk.not_waiting`). One lemma
for each thing that happens to a load, and one for an instruction that is executed.
-/

namespace GvsocPulp.Snitchv2

open Function List Bool

variable {w : Nat} {V : Type}

/-! ## The sequential program -/

variable {args : List InsnArg} {reg : Fin 32}

section Sequential

variable {handler : FpHandler w V} {data : Nat → V} {regs : Fin 32 → V} {log : List (FpInsn w × List InsnArg)}
  {x : FpInsn w × List InsnArg}

theorem seqRegs_concat : seqRegs handler data regs (log ++ [x]) =
    seqStep handler data (seqRegs handler data regs log) x := by
  rw [seqRegs, foldl_append]
  rfl

theorem seqReads_concat : seqReads handler data regs (log ++ [x]) =
    seqReads handler data regs log ++ [operands (seqRegs handler data regs log) x.2] := by
  induction log generalizing regs with
  | nil => rfl
  | cons y log ih =>
    rw [cons_append, seqReads, seqReads, ih]
    rfl

theorem seqAccesses_concat : seqAccesses handler data regs (log ++ [x]) = seqAccesses handler data regs log ++
    if x.1.kind.isMem then [fpAccess (seqRegs handler data regs log) x.1 x.2] else [] := by
  induction log generalizing regs with
  | nil => simp [seqAccesses, seqRegs]
  | cons y log ih =>
    rw [cons_append, seqAccesses, seqAccesses, ih, append_assoc]
    rfl

theorem writeResult_of_not_mem {value : V} (h : ∀ arg ∈ args, arg.type = .outReg → arg.freg = true → arg.lid ≠ reg) :
    writeResult args value regs reg = regs reg := by
  induction args generalizing regs with
  | nil => rfl
  | cons arg args ih =>
    refine (ih fun a ha => h a (mem_cons_of_mem _ ha)).trans ?_
    dsimp only
    split
    case isFalse => rfl
    case isTrue hout =>
      simp only [and_eq_true, decide_eq_true_eq] at hout
      exact update_of_ne (h arg mem_cons_self hout.1 hout.2).symm _ _

theorem writeResult_congr {value : V} {regs' : Fin 32 → V} (h : regs reg = regs' reg) :
    writeResult args value regs reg = writeResult args value regs' reg := by
  induction args generalizing regs regs' with
  | nil => exact h
  | cons arg args ih =>
    refine ih ?_
    dsimp only
    split
    case isFalse => exact h
    case isTrue =>
      by_cases heq : reg = arg.lid
      · rw [heq, update_self, update_self]
      · rw [update_of_ne heq, update_of_ne heq]
        exact h

theorem operands_congr {regs' : Fin 32 → V} (h : ∀ arg ∈ args, arg.type = .inReg → arg.freg = true →
    regs arg.lid = regs' arg.lid) :
    operands regs args = operands regs' args := by
  refine map_congr_left fun arg harg => ?_
  obtain ⟨harg, hin⟩ := mem_filter.1 harg
  simp only [and_eq_true, decide_eq_true_eq] at hin
  exact h arg harg hin.2 hin.1

end Sequential

/-! ## Operands that are ready -/

section Ready

variable {cfg : FpConfig} {s : FpSs w} {env : FpEnv}

theorem ready_of_checkOperands {insn : FpInsn w} (hssr : env.ssrEnabled = false)
    (h : s.checkOperands cfg env insn args = true) : ∀ arg ∈ args, arg.freg = true → arg.type ≠ .other →
      ∃ t ≤ s.cycle, s.fpReady arg.lid = some t := by
  intro arg harg hfreg htype
  rw [FpSs.checkOperands] at h
  have hready := List.all_eq_true.1 (and_eq_true_iff.1 (and_eq_true_iff.1 h).1).1 arg harg
  have hssr : FpSs.isSsr cfg env insn.kind arg = false := by rw [FpSs.isSsr, hssr]; rfl
  rw [FpSs.argReady, if_neg (by simp [hfreg, htype]), hssr, if_neg Bool.false_ne_true, Option.any_eq_true] at hready
  obtain ⟨t, ht, hle⟩ := hready
  exact ⟨t, of_decide_eq_true hle, ht⟩

theorem setResult_of_not_mem {done : Int} {ready : Fin 32 → Option Int}
    (h : ∀ arg ∈ args, arg.type = .outReg → arg.freg = true → arg.lid ≠ reg) :
    args.foldl (FpSs.setResult cfg env done) ready reg = ready reg := by
  induction args generalizing ready with
  | nil => rfl
  | cons arg args ih =>
    refine (ih fun a ha => h a (mem_cons_of_mem _ ha)).trans ?_
    rw [FpSs.setResult]
    split
    case isFalse => rfl
    case isTrue hout =>
      simp only [and_eq_true, decide_eq_true_eq] at hout
      exact update_of_ne (h arg mem_cons_self hout.1.1 hout.1.2).symm _ _

end Ready

/-! ## The loads that are not done -/

/-- A request is the load of a held instruction, with the data that it has brought, and nothing after it in the log
writes its register. -/
def LoadOf (handler : FpHandler w V) (regs₀ : Fin 32 → V) (log : List (FpInsn w × List InsnArg))
    (loaded : Nat → Option V) (value : Option V) (q : FpLsuReq w) : Prop :=
  ∃ entry, q.entry = some entry ∧ loaded entry = value ∧ ∀ data, seqRegs handler data regs₀ log q.reg = data entry

/-- The registers, with the requests not answered and those that have their data. -/
structure LoadsOk (handler : FpHandler w V) (regs₀ : Fin 32 → V) (log : List (FpInsn w × List InsnArg))
    (loaded : Nat → Option V) (regs : Fin 32 → V) (ready : Fin 32 → Option Int) (waiting : List (FpLsuReq w))
    (sync : List (FpLsuReq w × V)) : Prop where
  regs : ∀ data, (∀ entry v, loaded entry = some v → data entry = v) → ∀ reg,
    (∀ q ∈ waiting ++ sync.map (·.1), q.isRead = true → q.reg ≠ reg) → regs reg = seqRegs handler data regs₀ log reg
  distinct : (((waiting ++ sync.map (·.1)).filter (·.isRead)).map (·.reg)).Nodup
  waiting : ∀ q ∈ waiting, q.isRead = true → ready q.reg = none ∧ LoadOf handler regs₀ log loaded none q
  sync : ∀ x ∈ sync, x.1.isRead = true → (∀ t, ready x.1.reg = some t → x.1.timestamp ≤ t) ∧
    LoadOf handler regs₀ log loaded (some x.2) x.1

namespace LoadsOk

variable {handler : FpHandler w V} {regs₀ regs : Fin 32 → V} {log : List (FpInsn w × List InsnArg)}
  {loaded : Nat → Option V} {ready ready' : Fin 32 → Option Int} {waiting waiting' : List (FpLsuReq w)}
  {sync sync' : List (FpLsuReq w × V)} {q : FpLsuReq w} {value : V}

section

variable (h : LoadsOk handler regs₀ log loaded regs ready waiting sync)
include h

theorem perm (hw : waiting.Perm waiting') (hs : sync.Perm sync') :
    LoadsOk handler regs₀ log loaded regs ready waiting' sync' := by
  have hreqs := hw.append (hs.map (·.1))
  refine ⟨fun data hdata reg hreg => h.regs data hdata reg fun q hq => hreg q (hreqs.subset hq), ?_,
    fun q hq => h.waiting q (hw.symm.subset hq), fun x hx => h.sync x (hs.symm.subset hx)⟩
  exact ((hreqs.filter _).map _).nodup_iff.1 h.distinct

theorem congr_ready (hready : ∀ q ∈ waiting ++ sync.map (·.1), q.isRead = true → ready' q.reg = ready q.reg) :
    LoadsOk handler regs₀ log loaded regs ready' waiting sync := by
  refine ⟨h.regs, h.distinct, fun q hq hread => ?_, fun x hx hread => ?_⟩
  · rw [hready q (mem_append_left _ hq) hread]
    exact h.waiting q hq hread
  · rw [hready x.1 (mem_append_right _ (mem_map_of_mem hx)) hread]
    exact h.sync x hx hread

theorem not_waiting {cycle t : Int} (hsync : ∀ x ∈ sync, ¬x.1.timestamp ≤ cycle) (hready : ready reg = some t)
    (hle : t ≤ cycle) :
    ∀ q ∈ waiting ++ sync.map (·.1), q.isRead = true → q.reg ≠ reg := by
  intro q hq hread heq
  rcases mem_append.1 hq with hq | hq
  · have hnone := (h.waiting q hq hread).1
    rw [heq, hready] at hnone
    cases hnone
  · obtain ⟨x, hx, rfl⟩ := List.mem_map.1 hq
    have ht := (h.sync x hx hread).1 t (by rw [heq]; exact hready)
    exact hsync x hx (ht.trans hle)

end

theorem lsuEnd (h : LoadsOk handler regs₀ log loaded regs ready waiting ((q, value) :: sync))
    (hready : ∀ reg, (q.isRead = true → reg ≠ q.reg) → ready' reg = ready reg) :
    LoadsOk handler regs₀ log loaded (FpCore.writeBack regs (q, value)) ready' waiting sync := by
  have hdistinct := h.distinct
  have hperm : (waiting ++ ((q, value) :: sync).map (·.1)).Perm (q :: (waiting ++ sync.map (·.1))) := perm_middle
  have hother : ∀ q' ∈ waiting ++ sync.map (·.1), q'.isRead = true → q.isRead = true → q'.reg ≠ q.reg := by
    intro q' hq' hread' hread heq
    have hnodup := ((hperm.filter (·.isRead)).map (·.reg)).nodup_iff.1 hdistinct
    rw [filter_cons_of_pos (by exact hread), map_cons, nodup_cons] at hnodup
    refine hnodup.1 ?_
    rw [← heq]
    exact mem_map_of_mem (mem_filter.2 ⟨hq', hread'⟩)
  have hkept : ∀ q' ∈ waiting ++ sync.map (·.1), q'.isRead = true → ready' q'.reg = ready q'.reg := fun q' hq' hread' =>
    hready q'.reg fun hread => hother q' hq' hread' hread
  refine LoadsOk.congr_ready ⟨fun data hdata reg hreg => ?_, ?_, h.waiting,
    fun x hx => h.sync x (mem_cons_of_mem _ hx)⟩ hkept
  · by_cases hself : q.isRead = true ∧ q.reg = reg
    · obtain ⟨entry, -, hloaded, hlatest⟩ := (h.sync (q, value) mem_cons_self hself.1).2
      rw [FpCore.writeBack, if_pos hself.1, hself.2, update_self, ← hself.2]
      exact ((hlatest data).trans (hdata entry value hloaded)).symm
    · have hregs := h.regs data hdata reg fun q' hq' hread' => by
        rcases mem_cons.1 (hperm.subset hq') with rfl | hq'
        · exact fun heq => hself ⟨hread', heq⟩
        · exact hreg q' hq' hread'
      rw [FpCore.writeBack]
      split
      case isFalse => exact hregs
      case isTrue hread =>
        rw [update_of_ne fun heq => hself ⟨hread, heq.symm⟩]
        exact hregs
  · exact (((hperm.filter (·.isRead)).map (·.reg)).nodup_iff.1 hdistinct).sublist
      (((sublist_cons_self _ _).filter _).map _)

/-- The cycle at which a request is done does not matter before its data is there. -/
theorem retime (h : LoadsOk handler regs₀ log loaded regs ready (q :: waiting) sync) (t : Int) :
    LoadsOk handler regs₀ log loaded regs ready ({ q with timestamp := t } :: waiting) sync := by
  refine ⟨fun data hdata reg hreg => h.regs data hdata reg fun q' hq' hread => ?_, ?_, fun q' hq' => ?_, h.sync⟩
  · rcases mem_cons.1 hq' with rfl | hq'
    · exact hreg { q' with timestamp := t } mem_cons_self hread
    · exact hreg q' (mem_cons_of_mem _ hq') hread
  · have hdistinct := h.distinct
    rw [cons_append, filter_cons] at hdistinct ⊢
    cases hread : q.isRead with
    | true => simpa [hread] using hdistinct
    | false => simpa [hread] using hdistinct
  · rcases mem_cons.1 hq' with rfl | hq'
    · exact h.waiting q mem_cons_self
    · exact h.waiting q' (mem_cons_of_mem _ hq')

/-- What the memory has answered after an answer. -/
def loadedAfter (loaded : Nat → Option V) (q : FpLsuReq w) (value : V) : Nat → Option V :=
  match q.entry with
  | some entry => if q.isRead then update loaded entry (some value) else loaded
  | none => loaded

theorem loadedAfter_of_some {e : Nat} {v : V} (h : q.isRead = true → ∀ entry, q.entry = some entry →
    loaded entry = none)
    (hv : loaded e = some v) : loadedAfter loaded q value e = some v := by
  rw [loadedAfter]
  cases he : q.entry with
  | none => exact hv
  | some entry =>
    dsimp only
    split
    case isTrue hread =>
      by_cases heq : e = entry
      · rw [heq, h hread entry he] at hv
        cases hv
      · rw [update_of_ne heq]
        exact hv
    case isFalse => exact hv

theorem loadedAfter_ne_none {e : Nat} (h : loadedAfter loaded q value e ≠ none) :
    loaded e ≠ none ∨ q.entry = some e := by
  rw [loadedAfter] at h
  cases he : q.entry with
  | none =>
    rw [he] at h
    exact .inl h
  | some entry =>
    rw [he] at h
    by_cases heq : e = entry
    · exact .inr (by rw [heq])
    · left
      dsimp only at h
      split at h
      · rwa [update_of_ne heq] at h
      · exact h

theorem loadOf_answer {q' : FpLsuReq w} {v : Option V} (hne : ∀ entry, q.entry = some entry → q'.entry ≠ some entry)
    (h : LoadOf handler regs₀ log loaded v q') : LoadOf handler regs₀ log (loadedAfter loaded q value) v q' := by
  obtain ⟨entry, hentry, hloaded, hlatest⟩ := h
  refine ⟨entry, hentry, ?_, hlatest⟩
  rw [loadedAfter]
  cases he : q.entry with
  | none => exact hloaded
  | some e =>
    dsimp only
    split
    · rw [update_of_ne fun heq => hne e he (by rw [hentry, heq])]
      exact hloaded
    · exact hloaded

theorem answer (h : LoadsOk handler regs₀ log loaded regs ready (q :: waiting) sync)
    (hentries : ((q :: (waiting ++ sync.map (·.1))).filterMap (·.entry)).Nodup)
    (hready : q.isRead = true → ∀ t, ready' q.reg = some t → q.timestamp ≤ t)
    (hkept : ∀ reg, (q.isRead = true → reg ≠ q.reg) → ready' reg = ready reg) :
    LoadsOk handler regs₀ log (loadedAfter loaded q value) regs ready' waiting ((q, value) :: sync) := by
  have hdistinct := h.distinct
  have hperm : (waiting ++ ((q, value) :: sync).map (·.1)).Perm (q :: (waiting ++ sync.map (·.1))) := perm_middle
  have hne : ∀ q' ∈ waiting ++ sync.map (·.1), ∀ entry, q.entry = some entry → q'.entry ≠ some entry := by
    intro q' hq' entry hentry hentry'
    rw [filterMap_cons_some hentry, nodup_cons] at hentries
    exact hentries.1 (mem_filterMap.2 ⟨q', hq', hentry'⟩)
  have hother : ∀ q' ∈ waiting ++ sync.map (·.1), q'.isRead = true → q.isRead = true → q'.reg ≠ q.reg := by
    intro q' hq' hread' hread heq
    have hnodup := hdistinct
    rw [cons_append, filter_cons_of_pos (by exact hread), map_cons, nodup_cons] at hnodup
    refine hnodup.1 ?_
    rw [← heq]
    exact mem_map_of_mem (mem_filter.2 ⟨hq', hread'⟩)
  have hself : ∀ hread : q.isRead = true, LoadOf handler regs₀ log (loadedAfter loaded q value) (some value) q := by
    intro hread
    obtain ⟨entry, hentry, -, hlatest⟩ := (h.waiting q mem_cons_self hread).2
    refine ⟨entry, hentry, ?_, hlatest⟩
    rw [loadedAfter, hentry]
    dsimp only
    rw [if_pos hread, update_self]
  refine ⟨fun data hdata reg hreg => ?_, ((hperm.filter (·.isRead)).map (·.reg)).nodup_iff.2 hdistinct,
    fun q' hq' hread' => ?_, fun x hx hread' => ?_⟩
  · -- data that agrees with the new answer agrees with the old ones
    refine h.regs data (fun entry v hv => hdata entry v (loadedAfter_of_some (fun hread e he => ?_) hv)) reg
      fun q' hq' => hreg q' (hperm.symm.subset hq')
    obtain ⟨e', he', hnone, -⟩ := (h.waiting q mem_cons_self hread).2
    rw [he] at he'
    cases he'
    exact hnone
  · obtain ⟨hnone, hload⟩ := h.waiting q' (mem_cons_of_mem _ hq') hread'
    have hmem : q' ∈ waiting ++ sync.map (·.1) := mem_append_left _ hq'
    exact ⟨by rw [hkept _ (hother q' hmem hread')]; exact hnone, loadOf_answer (hne q' hmem) hload⟩
  · rcases mem_cons.1 hx with rfl | hx
    · exact ⟨hready hread', hself hread'⟩
    · obtain ⟨htime, hload⟩ := h.sync x hx hread'
      have hmem : x.1 ∈ waiting ++ sync.map (·.1) := mem_append_right _ (mem_map_of_mem hx)
      exact ⟨by rw [hkept _ (hother x.1 hmem hread')]; exact htime, loadOf_answer (hne x.1 hmem) hload⟩

/-! ## Instructions -/

variable {x : FpInsn w × List InsnArg} {regs' : Fin 32 → V}

section

variable (h : LoadsOk handler regs₀ log loaded regs ready waiting sync)
include h

/-- An instruction that is executed, and leaves the registers of the loads alone. -/
theorem concat (hkept : ∀ q ∈ waiting ++ sync.map (·.1), q.isRead = true → ready' q.reg = ready q.reg ∧
      ∀ data seq, seqStep handler data seq x q.reg = seq q.reg)
    (hregs : ∀ data, (∀ entry v, loaded entry = some v → data entry = v) → ∀ reg,
      (∀ q ∈ waiting ++ sync.map (·.1), q.isRead = true → q.reg ≠ reg) →
        regs' reg = seqStep handler data (seqRegs handler data regs₀ log) x reg) :
    LoadsOk handler regs₀ (log ++ [x]) loaded regs' ready' waiting sync := by
  have hload : ∀ {v : Option V} {q : FpLsuReq w}, q ∈ waiting ++ sync.map (·.1) → q.isRead = true →
      LoadOf handler regs₀ log loaded v q → LoadOf handler regs₀ (log ++ [x]) loaded v q := by
    intro v q hq hread hload
    obtain ⟨entry, hentry, hloaded, hlatest⟩ := hload
    refine ⟨entry, hentry, hloaded, fun data => ?_⟩
    rw [seqRegs_concat, (hkept q hq hread).2]
    exact hlatest data
  refine ⟨fun data hdata reg hreg => ?_, h.distinct, fun q hq hread => ?_, fun y hy hread => ?_⟩
  · rw [seqRegs_concat]
    exact hregs data hdata reg hreg
  · have hmem : q ∈ waiting ++ sync.map (·.1) := mem_append_left _ hq
    rw [(hkept q hmem hread).1]
    exact ⟨(h.waiting q hq hread).1, hload hmem hread (h.waiting q hq hread).2⟩
  · have hmem : y.1 ∈ waiting ++ sync.map (·.1) := mem_append_right _ (mem_map_of_mem hy)
    rw [(hkept y.1 hmem hread).1]
    exact ⟨(h.sync y hy hread).1, hload hmem hread (h.sync y hy hread).2⟩

theorem load (hkind : x.1.kind = .load) (hread : q.isRead = true) (hreg : q.reg = FpSs.outReg x.2)
    (hentry : q.entry = some x.1.entry)
    (hloaded : loaded x.1.entry = none) (hfree : ∀ q' ∈ waiting ++ sync.map (·.1), q'.isRead = true → q'.reg ≠ q.reg) :
    LoadsOk handler regs₀ (log ++ [x]) loaded regs (update ready q.reg none) (q :: waiting) sync := by
  have hstep : ∀ (data : Nat → V) (seq : Fin 32 → V) (reg : Fin 32), reg ≠ q.reg →
    seqStep handler data seq x reg = seq reg := by
    intro data seq reg hne
    rw [seqStep, hkind]
    dsimp only
    rw [← hreg, update_of_ne hne]
  have hlatest : ∀ data : Nat → V, seqRegs handler data regs₀ (log ++ [x]) q.reg = data x.1.entry := by
    intro data
    rw [seqRegs_concat, seqStep, hkind]
    dsimp only
    rw [← hreg, update_self]
  have hload : ∀ {v : Option V} {q' : FpLsuReq w}, q' ∈ waiting ++ sync.map (·.1) → q'.isRead = true →
      LoadOf handler regs₀ log loaded v q' → LoadOf handler regs₀ (log ++ [x]) loaded v q' := by
    intro v q' hq' hread' hload
    obtain ⟨entry, hentry, hloaded, hlatest⟩ := hload
    refine ⟨entry, hentry, hloaded, fun data => ?_⟩
    rw [seqRegs_concat, hstep _ _ _ (hfree q' hq' hread')]
    exact hlatest data
  refine ⟨fun data hdata reg hregs => ?_, ?_, fun q' hq' hread' => ?_, fun y hy hread' => ?_⟩
  · rw [seqRegs_concat, hstep _ _ _ fun heq => hregs q mem_cons_self hread heq.symm]
    exact h.regs data hdata reg fun q' hq' => hregs q' (mem_cons_of_mem _ hq')
  · rw [cons_append, filter_cons_of_pos (by exact hread), map_cons, nodup_cons]
    refine ⟨fun hmem => ?_, h.distinct⟩
    obtain ⟨q', hq', heq⟩ := List.mem_map.1 hmem
    obtain ⟨hq', hread'⟩ := mem_filter.1 hq'
    exact hfree q' hq' hread' heq
  · rcases mem_cons.1 hq' with rfl | hq'
    · exact ⟨update_self _ _ _, _, hentry, hloaded, hlatest⟩
    · have hmem : q' ∈ waiting ++ sync.map (·.1) := mem_append_left _ hq'
      rw [update_of_ne (hfree q' hmem hread')]
      exact ⟨(h.waiting q' hq' hread').1, hload hmem hread' (h.waiting q' hq' hread').2⟩
  · have hmem : y.1 ∈ waiting ++ sync.map (·.1) := mem_append_right _ (mem_map_of_mem hy)
    rw [update_of_ne (hfree y.1 hmem hread')]
    exact ⟨(h.sync y hy hread').1, hload hmem hread' (h.sync y hy hread').2⟩

theorem cons_write (hread : q.isRead = false) :
    LoadsOk handler regs₀ log loaded regs ready (q :: waiting) sync := by
  have hnot : ∀ q' ∈ q :: waiting, q'.isRead = true → q' ∈ waiting := by
    intro q' hq' hread'
    rcases mem_cons.1 hq' with rfl | hq'
    · rw [hread] at hread'
      cases hread'
    · exact hq'
  refine ⟨fun data hdata reg hregs => h.regs data hdata reg fun q' hq' => hregs q' (mem_cons_of_mem _ hq'), ?_,
    fun q' hq' hread' => h.waiting q' (hnot q' hq' hread') hread', h.sync⟩
  rw [cons_append, filter_cons_of_neg (by rw [hread]; exact Bool.false_ne_true)]
  exact h.distinct

end

theorem foldl_lsuEnd {cfg : FpConfig} {s : FpSs w} {done : List (FpLsuReq w × V)}
    (h : LoadsOk handler regs₀ log loaded regs s.fpReady waiting (done ++ sync)) :
    LoadsOk handler regs₀ log loaded (done.foldl FpCore.writeBack regs)
      ((done.map (·.1)).foldl (FpSs.lsuEnd cfg) s).fpReady waiting sync := by
  induction done generalizing s regs with
  | nil => exact h
  | cons x done ih =>
    refine ih (s := s.lsuEnd cfg x.1) (h.lsuEnd fun reg hreg => ?_)
    rw [FpSs.lsuEnd]
    dsimp only
    split
    case isTrue hread => exact update_of_ne (hreg (and_eq_true_iff.1 hread).1) _ _
    case isFalse => rfl

end LoadsOk

/-! ## Requests that are sent -/

section Send

variable {cfg : FpConfig} {handler : FpHandler w V} {regs₀ : Fin 32 → V} {c : FpCore w V} {q : FpLsuReq w}
  {access : FpAccess w V} {status : LsuStatus} {value : V}

theorem answer_loaded (isRead : Bool) (h : isRead = q.isRead) :
    (c.answer q.entry isRead value).loaded = LoadsOk.loadedAfter c.loaded q value := by
  rw [LoadsOk.loadedAfter, h]
  cases q.entry with
  | none => rfl
  | some entry =>
    rw [FpCore.answer]
    split
    · rfl
    · rfl

theorem answer_eq (entry : Option Nat) (isRead : Bool) :
    ∃ loaded, c.answer entry isRead value = { c with loaded := loaded } := by
  cases entry with
  | none => exact ⟨_, rfl⟩
  | some entry =>
    rw [FpCore.answer]
    split
    · exact ⟨_, rfl⟩
    · exact ⟨_, rfl⟩

/-- A request that is sent: what the memory may have answered, and the rest of the core. -/
theorem send_eq (entry : Option Nat) : ∃ loaded syncData sent denied, c.send entry access status value =
    { c with loaded := loaded, syncData := syncData, sent := sent, denied := denied } := by
  cases status with
  | done latency =>
    obtain ⟨loaded, heq⟩ := @answer_eq w V c value entry access.isRead
    rw [FpCore.send, heq]
    exact ⟨_, _, _, _, rfl⟩
  | granted => exact ⟨_, _, _, _, rfl⟩
  | denied => exact ⟨_, _, _, _, rfl⟩

theorem send_sent (entry : Option Nat) (hd : c.denied = none) :
    (c.send entry access status value).sent ++ (c.send entry access status value).denied.toList =
      c.sent ++ [access] := by
  cases status with
  | done latency =>
    obtain ⟨loaded, heq⟩ := @answer_eq w V c value entry access.isRead
    rw [FpCore.send, heq]
    rw [hd, Option.toList_none, append_nil]
  | granted =>
    rw [FpCore.send]
    rw [hd, Option.toList_none, append_nil]
  | denied => rfl

theorem send_answers (hisRead : access.isRead = q.isRead) :
    (c.send q.entry access status value).loaded = c.loaded ∨
      (c.send q.entry access status value).loaded = LoadsOk.loadedAfter c.loaded q value := by
  cases status with
  | done latency => exact .inr (answer_loaded _ hisRead)
  | granted => exact .inl rfl
  | denied => exact .inl rfl

theorem send_loads (hisRead : access.isRead = q.isRead) (hlen : c.syncData.length = c.ss.lsu.syncReqs.length)
    (hd : c.ss.lsu.denied = none) (hcd : c.denied = none)
    (h : LoadsOk handler regs₀ c.log c.loaded c.regs c.ss.fpReady (q :: c.ss.lsu.inFlight) c.syncReqs)
    (hentries : ((q :: (c.ss.lsu.inFlight ++ c.syncReqs.map (·.1))).filterMap (·.entry)).Nodup) :
    LoadsOk handler regs₀ c.log (c.send q.entry access status value).loaded c.regs (c.ss.lsuSend cfg q status).fpReady
        ((c.ss.lsuSend cfg q status).lsu.denied.toList ++ (c.ss.lsuSend cfg q status).lsu.inFlight)
        ((c.ss.lsuSend cfg q status).lsu.syncReqs.zip (c.send q.entry access status value).syncData) ∧
      (c.send q.entry access status value).syncData.length = (c.ss.lsuSend cfg q status).lsu.syncReqs.length ∧
      (c.send q.entry access status value).denied.map (·.isRead) =
        (c.ss.lsuSend cfg q status).lsu.denied.map (·.isRead) := by
  cases status with
  | done latency =>
    obtain ⟨loaded, heq⟩ := @answer_eq w V c value q.entry access.isRead
    have hloaded := @answer_loaded w V c q value access.isRead hisRead
    have hzip : (c.ss.lsu.syncReqs ++ [{ q with timestamp := c.ss.cycle + latency }]).zip (c.syncData ++ [value]) =
        c.syncReqs ++ [({ q with timestamp := c.ss.cycle + latency }, value)] := zip_append hlen.symm
    rw [FpCore.send, FpSs.lsuSend]
    rw [hloaded, heq, hd, hcd, hzip]
    have hanswer : LoadsOk handler regs₀ c.log (LoadsOk.loadedAfter c.loaded q value) c.regs
        (if q.isRead then update c.ss.fpReady q.reg (some (c.ss.cycle + latency + cfg.resultLatency))
          else c.ss.fpReady) c.ss.lsu.inFlight (({ q with timestamp := c.ss.cycle + latency }, value) ::
            c.syncReqs) := by
      refine (h.retime (c.ss.cycle + latency)).answer hentries (fun hread t ht => ?_) fun reg hreg => ?_
      · rw [if_pos (show q.isRead = true from hread)] at ht
        dsimp only at ht ⊢
        rw [update_self] at ht
        cases ht
        omega
      · split
        case isTrue hread => exact update_of_ne (hreg hread) _ _
        case isFalse => rfl
    refine ⟨hanswer.perm (List.Perm.refl _) ?_, by simp [hlen], rfl⟩
    exact (perm_append_singleton _ _).symm
  | granted =>
    rw [FpCore.send, FpSs.lsuSend, hd, hcd]
    refine ⟨h.perm ?_ (List.Perm.refl _), hlen, rfl⟩
    exact (perm_append_singleton _ _).symm
  | denied => exact ⟨h, hlen, congrArg some hisRead⟩

end Send

end GvsocPulp.Snitchv2
