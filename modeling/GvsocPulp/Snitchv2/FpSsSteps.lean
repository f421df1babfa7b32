import GvsocPulp.Snitchv2.FpSsInv

/-!
# The steps of the FP subsystem

Each event keeps the invariant: `FpInv.offload`, `FpInv.issue` with its cases (an execution in a loop, the end of a
loop, an instruction on its own, the start of a loop), the ends of accesses and completions.
-/

namespace GvsocPulp.Snitchv2

open List Option

variable {w : Nat}

variable {queue : List (FpSsEntry w)}

variable {caq : List (BitVec w)}

section Issue

variable {cfg : FpConfig} {prog : List (Block w)} {s : FpSs w} {env : FpEnv} {i : Nat} {entry e : FpSsEntry w}
  {loop : FrepLoop}

/-- An attempt to issue an entry: at most its copies change, or it is executed with the staggered operands. -/
theorem issueEntry_spec {mask offset : Nat} {last : Bool} (hi : s.queue[i]? = some entry)
    (hcopies : ∀ (o : Nat) (copy : List InsnArg), entry.staggerInsns[o]? = some (some copy) →
      copy = staggerArgs mask (o + 1) entry.insn.args)
    (hlsu : LsuOk cfg s.lsu s.fpReady) (hcaq : entry.caqPending = true → entry.insn.kind.isMem = true) :
    ∃ copies : List (Option (List InsnArg)), (offset = 0 → copies = entry.staggerInsns) ∧
      (∀ (o : Nat) (copy : List InsnArg), copies[o]? = some (some copy) →
        copy = staggerArgs mask (o + 1) entry.insn.args) ∧
      (s.issueEntry cfg env mask i offset last =
        ({ s with queue := s.queue.set i { entry with staggerInsns := copies } }, false) ∨
      ∃ ready div completions lsu event, s.issueEntry cfg env mask i offset last = ({ s with
          queue := s.queue.set i { entry with staggerInsns := copies, caqPending := false }
          executed := s.executed ++ [(entry.insn.entry, staggerArgs mask offset entry.insn.args)]
          fpReady := ready, divsqrtReady := div, completions := completions, lsu := lsu, fsmEvent := event }, true) ∧
        (completions.map (·.2) ++ lsu.reqs.filterMap (·.entry)).Perm
          ((if last then [entry.insn.entry] else []) ++ (s.completions.map (·.2) ++ s.lsu.reqs.filterMap (·.entry))) ∧
        ((lsu.reqs.filter (·.caqRelease)).map (·.caqAddr)).Perm
          ((if entry.caqPending then [FpSs.wordAddr entry.insn.intValue] else []) ++
            (s.lsu.reqs.filter (·.caqRelease)).map (·.caqAddr)) ∧
        LsuOk cfg lsu ready ∧ (s.fsmEvent = true → event = true)) := by
  obtain ⟨copies, hargs, hzero, hvalid⟩ := @entryArgs_spec _ mask offset _ hcopies
  rw [FpSs.issueEntry, hi]
  dsimp only
  split
  case isTrue =>
    refine ⟨entry.staggerInsns, fun _ => rfl, hcopies, .inl ?_⟩
    obtain ⟨hlt, rfl⟩ := List.getElem?_eq_some_iff.1 hi
    rw [show ({ s.queue[i] with staggerInsns := s.queue[i].staggerInsns } : FpSsEntry w) = s.queue[i] from rfl,
      set_getElem_self]
  case isFalse =>
    refine ⟨copies, hzero, hvalid, ?_⟩
    rw [hargs]
    split
    case isFalse => exact .inl rfl
    case isTrue hcheck =>
      right
      obtain ⟨ready, div, completions, lsu, event, heq, hheld, hcaq', hlsu', hevent⟩ :=
        @execute_spec w cfg { s with queue := s.queue.set i { entry with staggerInsns := copies } } env i
          { entry with staggerInsns := copies } (staggerArgs mask offset entry.insn.args) last hlsu hcheck hcaq
      refine ⟨ready, div, completions, lsu, event, ?_, hheld, hcaq', hlsu', hevent⟩
      rw [heq]
      rw [set_set]

theorem map_insn_set (hi : s.queue[i]? = some entry) (he : e.insn = entry.insn) :
    (s.queue.set i e).map (·.insn) = s.queue.map (·.insn) := by
  obtain ⟨hlt, rfl⟩ := List.getElem?_eq_some_iff.1 hi
  have h := @List.set_getElem_self _ (s.queue.map (·.insn)) i (by simpa using hlt)
  rw [getElem_map] at h
  rw [map_set, he, h]

theorem CopiesOk.set (h : CopiesOk queue (some loop)) (hlt : i < loop.nbInsns)
    (he : ∀ (o : Nat) (copy : List InsnArg), e.staggerInsns[o]? = some (some copy) →
      copy = staggerArgs loop.staggerMask (o + 1) e.insn.args) : CopiesOk (queue.set i e) (some loop) := by
  intro j x hx
  rw [getElem?_set] at hx
  split at hx
  case isTrue heq =>
    split at hx
    · cases hx
      exact .inr ⟨loop, rfl, heq ▸ hlt, he⟩
    · cases hx
  case isFalse => exact h j x hx

theorem caq_set (hi : queue[i]? = some entry) (he : e.caqPending = false) :
    ((queue.filter (·.caqPending)).map fun e => FpSs.wordAddr e.insn.intValue).Perm
      ((if entry.caqPending then [FpSs.wordAddr entry.insn.intValue] else []) ++
        ((queue.set i e).filter (·.caqPending)).map fun e => FpSs.wordAddr e.insn.intValue) := by
  obtain ⟨hlt, rfl⟩ := List.getElem?_eq_some_iff.1 hi
  rw [set_eq_take_append_cons_drop, if_pos hlt]
  conv_lhs => rw [← take_append_drop i queue, drop_eq_getElem_cons hlt]
  rw [filter_append, filter_append, filter_cons_of_neg (a := e) (by simp [he]), map_append, map_append]
  cases hc : queue[i].caqPending with
  | true =>
    rw [filter_cons_of_pos (by exact hc)]
    exact perm_middle
  | false =>
    rw [filter_cons_of_neg (by simp [hc])]
    exact Perm.refl _

variable {lsu : List (FpLsuReq w)}

theorem CaqOk.execute {lsu' : List (FpLsuReq w)}
    {started started' : Nat} (h : CaqOk caq queue lsu started) (hi : queue[i]? = some entry) (he : e.caqPending = false)
    (hstarted : started' ≤ max started (i + 1)) (hprev : i ≤ started)
    (hlsu : ((lsu'.filter (·.caqRelease)).map (·.caqAddr)).Perm
      ((if entry.caqPending then [FpSs.wordAddr entry.insn.intValue] else []) ++
        (lsu.filter (·.caqRelease)).map (·.caqAddr))) : CaqOk caq (queue.set i e) lsu' started' := by
  refine ⟨?_, fun x hx hp => ?_, fun j x hx hj => ?_⟩
  · refine h.caq.trans (((caq_set hi he).append_right _).trans ?_)
    refine (Perm.append_right _ perm_append_comm).trans ?_
    rw [append_assoc]
    exact hlsu.symm.append_left _
  · rcases mem_or_eq_of_mem_set hx with hx | rfl
    · exact h.mem x hx hp
    · rw [he] at hp
      cases hp
  · rw [getElem?_set] at hx
    split at hx
    case isTrue heq =>
      split at hx
      · cases hx
        exact he
      · cases hx
    case isFalse hne => exact h.started j x hx (by omega)

variable {insn : FpInsn w}

theorem HeldOk.execute {terminated : List Nat} {completions completions' : List (Int × Nat)}
    {lsu' : List (FpLsuReq w)} {queue rest : List (FpInsn w)} {d d' : Nat} {last : Bool}
    (h : HeldOk prog terminated completions lsu (queue.drop d) rest) (hi : queue[i]? = some insn)
    (hlast : last = true → d = i ∧ d' = i + 1) (hmore : last = false → d' = d)
    (hlsu : (completions'.map (·.2) ++ lsu'.filterMap (·.entry)).Perm
      ((if last then [insn.entry] else []) ++ (completions.map (·.2) ++ lsu.filterMap (·.entry)))) :
    HeldOk prog terminated completions' lsu' (queue.drop d') rest := by
  rw [HeldOk] at h ⊢
  refine Perm.trans ?_ h
  rw [append_assoc terminated, append_assoc terminated]
  apply Perm.append_left
  refine (hlsu.append_right _).trans ?_
  cases last with
  | false =>
    rw [hmore rfl]
    exact Perm.refl _
  | true =>
    obtain ⟨rfl, rfl⟩ := hlast rfl
    obtain ⟨hlt, rfl⟩ := List.getElem?_eq_some_iff.1 hi
    rw [drop_eq_getElem_cons hlt]
    exact perm_middle.symm

theorem CaqOk.copies {started : Nat}
    {copies : List (Option (List InsnArg))} (h : CaqOk caq queue lsu started) (hi : queue[i]? = some entry) :
    CaqOk caq (queue.set i { entry with staggerInsns := copies }) lsu started := by
  obtain ⟨hlt, rfl⟩ := List.getElem?_eq_some_iff.1 hi
  refine ⟨?_, fun x hx hp => ?_, fun j x hx hj => ?_⟩
  · refine h.caq.trans (Perm.append_right _ (Perm.of_eq ?_))
    conv_lhs => rw [← take_append_drop i queue, drop_eq_getElem_cons hlt]
    rw [set_eq_take_append_cons_drop, if_pos hlt, filter_append, filter_append, map_append,
      map_append, filter_cons, filter_cons]
    split <;> rfl
  · rcases mem_or_eq_of_mem_set hx with hx | rfl
    · exact h.mem x hx hp
    · exact h.mem queue[i] (getElem_mem hlt) hp
  · rw [getElem?_set] at hx
    split at hx
    case isTrue heq =>
      cases hx
      exact h.started i queue[i] hi (heq ▸ hj)
    case isFalse => exact h.started j x hx hj

theorem insn_le_firstDone {frep : FpInsn w} {body : List (FpInsn w)} (h : LoopOk frep body loop) :
    loop.insn ≤ firstDone loop := by
  have hinsn := h.insn_lt
  have hlen := h.nbInsns
  rw [firstDone]
  split
  · exact le_rfl
  · split <;> omega

theorem loopNext_nbInsns (loop : FrepLoop) : (FpSs.loopNext loop).1.nbInsns = loop.nbInsns := by
  rw [FpSs.loopNext]
  dsimp only
  split <;> split <;> rfl

theorem popEntry_iterate {n : Nat} (hn : ∀ e ∈ s.queue.take n, e.insn.kind.isBypass = false) :
    FpSs.popEntry^[n] s = { s with queue := s.queue.drop n, nbInsns := s.nbInsns - n } := by
  induction n generalizing s with
  | zero => simp
  | succ n ih =>
    have hhead : s.queue.head?.any (·.insn.kind.isBypass) = false := by
      cases hq : s.queue with
      | nil => rfl
      | cons head queue =>
        rw [hq] at hn
        exact hn head (by simp)
    have hpop : s.popEntry = { s with queue := s.queue.tail, nbInsns := s.nbInsns - 1 } := by
      rw [FpSs.popEntry, hhead]
      simp
    have htail : ∀ e ∈ s.queue.tail.take n, e.insn.kind.isBypass = false := by
      intro e he
      refine hn e ?_
      cases hq : s.queue with
      | nil => simp [hq] at he
      | cons head queue =>
        rw [hq] at he
        exact mem_cons_of_mem _ he
    rw [Function.iterate_succ_apply, hpop, ih htail]
    simp only [drop_tail]
    congr 1
    push_cast
    omega

/-! ## The turn of a loop -/

theorem OrderOk.getElem?_body {queue rest body : List (FpInsn w)} {executed todo : List (Nat × List InsnArg)}
    {bs : List (Block w)} {l : Option FrepLoop} (h : OrderOk cfg prog queue rest l executed body todo bs)
    (hi : queue[i]? = some insn) (hlt : i < body.length) : body[i]? = some insn := by
  have hinsns : (queue ++ rest)[i]? = (body ++ program bs)[i]? := by rw [h.insns]
  rw [getElem?_append_left (List.getElem?_eq_some_iff.1 hi).1, getElem?_append_left hlt, hi] at hinsns
  exact hinsns.symm

theorem OrderOk.queue_eq {queue rest body : List (FpInsn w)} {executed todo : List (Nat × List InsnArg)}
    {bs : List (Block w)} {l : Option FrepLoop} (h : OrderOk cfg prog queue rest l executed body todo bs)
    (hlen : body.length ≤ queue.length) : queue = body ++ queue.drop body.length ∧
      queue.drop body.length ++ rest = program bs := by
  have hinsns := h.insns
  rw [← take_append_drop body.length queue, append_assoc] at hinsns
  obtain ⟨htake, hdrop⟩ := append_inj hinsns (by rw [length_take]; omega)
  refine ⟨?_, hdrop⟩
  conv_lhs => rw [← take_append_drop body.length queue, htake]

theorem CaqOk.drop {n : Nat} (h : CaqOk caq queue lsu n) : CaqOk caq (queue.drop n) lsu 0 := by
  refine ⟨?_, fun x hx => h.mem x (mem_of_mem_drop hx), fun _ _ _ hj => absurd hj (Nat.not_lt_zero _)⟩
  have hnone : (queue.take n).filter (·.caqPending) = [] := by
    rw [filter_eq_nil_iff]
    intro x hx
    obtain ⟨i, hi, rfl⟩ := mem_iff_getElem.1 hx
    rw [length_take] at hi
    rw [h.started i _ (by rw [getElem_take, getElem?_eq_getElem]) (by omega)]
    exact Bool.false_ne_true
  have hcaq := h.caq
  rwa [← take_append_drop n queue, filter_append, hnone, nil_append] at hcaq

theorem CopiesOk.drop (h : CopiesOk queue (some loop)) :
    CopiesOk (queue.drop loop.nbInsns) none := by
  intro i x hx
  rw [getElem?_drop] at hx
  rcases h _ x hx with hnil | ⟨l, hl, hlt, -⟩
  · exact .inl hnil
  · cases hl
    omega

theorem CopiesOk.eq_nil (h : CopiesOk queue none) (hi : queue[i]? = some entry) :
    entry.staggerInsns = [] := by
  rcases h i entry hi with hnil | ⟨l, hl, -⟩
  · exact hnil
  · cases hl

theorem CopiesOk.next {loop' : FrepLoop} (h : CopiesOk queue (some loop))
    (hinsns : loop'.nbInsns = loop.nbInsns) (hmask : loop'.staggerMask = loop.staggerMask) :
    CopiesOk queue (some loop') := by
  intro i x hx
  rcases h i x hx with hnil | ⟨l, hl, hlt, hvalid⟩
  · exact .inl hnil
  · cases hl
    refine .inr ⟨loop', rfl, by rw [hinsns]; exact hlt, ?_⟩
    rw [hmask]
    exact hvalid

theorem CountOk.drop {queue rest body : List (FpInsn w)} {nbInsns nbFreps nbInflight : Int} {bypass : Bool}
    {terminated : List Nat} (h : CountOk prog (body ++ queue) rest nbInsns nbFreps bypass nbInflight terminated)
    (hbody : ∀ b ∈ body, b.kind.isFrep = false ∧ b.kind.isBypass = false) :
    CountOk prog queue rest (nbInsns - body.length) nbFreps bypass nbInflight terminated := by
  have hinsns : body.filter (fun insn => !insn.kind.isFrep) = body :=
    filter_eq_self.2 fun b hb => by rw [(hbody b hb).1]; rfl
  have hfreps : body.filter (fun insn => insn.kind.isFrep) = [] :=
    filter_eq_nil_iff.2 fun b hb => by rw [(hbody b hb).1]; exact Bool.false_ne_true
  have hbypass : body.filter (fun insn => insn.kind.isBypass) = [] :=
    filter_eq_nil_iff.2 fun b hb => by rw [(hbody b hb).2]; exact Bool.false_ne_true
  have h₁ := h.nbInsns
  have h₂ := h.nbFreps
  have h₃ := h.bypass
  rw [filter_append, hinsns, length_append] at h₁
  rw [filter_append, hfreps, nil_append] at h₂
  rw [filter_append, hbypass, nil_append] at h₃
  exact ⟨by omega, h₂, h₃, h.nbInflight⟩

theorem FpInv.issueLoop (h : FpInv cfg prog s) (hw : w < 64) (hev : s.fsmEvent = true) (hl : s.loop = some loop) :
    FpInv cfg prog (s.issueLoop cfg env loop).1 ∧ (s.issueLoop cfg env loop).1.fsmEvent = true := by
  rw [FpSs.issueLoop]
  split
  case isTrue => exact ⟨h, hev⟩
  case isFalse hlt =>
    have hlt : loop.insn < s.queue.length := by omega
    have hi := getElem?_eq_getElem hlt
    obtain ⟨body, todo, bs, horder⟩ := h.order
    have hrunning := horder.loop
    rw [hl] at hrunning
    cases hrunning with
    | @some frep body loop hok hbody hlen =>
      have hbi := horder.getElem?_body (by rw [getElem?_map, hi]; rfl) hok.insn_lt
      have hcopies : ∀ (o : Nat) (copy : List InsnArg), s.queue[loop.insn].staggerInsns[o]? = some (some copy) →
          copy = staggerArgs loop.staggerMask (o + 1) s.queue[loop.insn].insn.args := by
        rcases h.copies loop.insn _ hi with hnil | ⟨l, hl', -, hvalid⟩
        · simp [hnil]
        · rw [hl] at hl'
          cases hl'
          exact hvalid
      have hinsn : loop.insn < loop.nbInsns := by rw [hok.nbInsns]; exact hok.insn_lt
      have hcopiesOk := h.copies
      rw [hl] at hcopiesOk
      obtain ⟨copies, -, hvalid, hfail | ⟨ready, div, completions, lsu, event, hissue, hheld, hcaq, hlsu, hevent⟩⟩ :=
        @issueEntry_spec w cfg s env loop.insn s.queue[loop.insn] loop.staggerMask (FpSs.stagger loop)
          (decide (loop.rpt = loop.nbRpt - 1)) hi hcopies h.lsu (h.caq.mem _ (getElem_mem hlt))
      · -- the entry waits
        dsimp only
        rw [hfail]
        have hmap := @map_insn_set w s loop.insn s.queue[loop.insn]
          { s.queue[loop.insn] with staggerInsns := copies } hi rfl
        refine ⟨⟨?_, ?_, ?_, ?_, ?_, h.caq.copies hi, h.lsu, fun _ => hev⟩, hev⟩
        · exact ⟨_, _, bs, by rw [hmap]; exact horder⟩
        · rw [hmap]
          exact h.count
        · rw [hmap]
          exact h.held
        · rw [hl]
          exact hcopiesOk.set hinsn hvalid
        · exact h.started.trans_eq length_set.symm
      · have hmap := @map_insn_set w s loop.insn s.queue[loop.insn]
          { s.queue[loop.insn] with staggerInsns := copies, caqPending := false } hi rfl
        have hpair : (s.queue[loop.insn].insn.entry,
            staggerArgs loop.staggerMask (FpSs.stagger loop) s.queue[loop.insn].insn.args) =
            frep.repetition loop.rpt.toNat s.queue[loop.insn].insn := by
          rw [FpInsn.repetition, stagger_eq hok, hok.staggerMask]
        have hcount := h.count
        have hheld' := h.held
        have hcaqOk := h.caq
        rw [hl] at hheld' hcaqOk
        dsimp only
        rw [hissue]
        have hheld₁ := fun d' hlast hmore => @HeldOk.execute _ _ _ _ _ _ _ _ _ _ _ _ d' _ hheld'
          (by rw [getElem?_map, hi]; rfl) hlast
          hmore hheld
        cases hnext : FpSs.loopNext loop with
        | mk loop' done =>
          obtain ⟨todo, htodo, hdone, hmore⟩ := hok.next hw hbi hnext
          have hinsns := loopNext_nbInsns loop
          rw [hnext] at hinsns
          dsimp only at hinsns ⊢
          cases done with
          | true =>
            obtain ⟨rfl, hlast, hend⟩ := hdone rfl
            have hlong : body.length ≤ (s.queue.map (·.insn)).length := by
              rw [length_map]
              omega
            obtain ⟨hqueue, hdrop⟩ := horder.queue_eq hlong
            have hbypass : ∀ e ∈ (s.queue.set loop.insn { s.queue[loop.insn] with
                staggerInsns := copies, caqPending := false }).take loop.nbInsns, e.insn.kind.isBypass = false := by
              intro e he
              have he := List.mem_map_of_mem (f := FpSsEntry.insn) he
              rw [map_take, hmap, hqueue, hok.nbInsns, take_left] at he
              exact (hbody _ he).2
            rw [if_pos rfl, hinsns, popEntry_iterate hbypass]
            have hpopped : ((s.queue.set loop.insn { s.queue[loop.insn] with
                staggerInsns := copies, caqPending := false }).drop loop.nbInsns).map (·.insn) =
                (s.queue.map (·.insn)).drop body.length := by
              rw [map_drop, hmap, hok.nbInsns]
            refine ⟨⟨?_, ?_, ?_, ?_, Nat.zero_le _, ?_, hlsu, fun _ => hevent hev⟩, hevent hev⟩
            · refine ⟨[], [], bs, .none, horder.blocks, ?_, ?_⟩
              · rw [hpopped]
                exact hdrop
              · have hexec := horder.executed
                rw [htodo] at hexec
                rw [hpair, ← hexec]
                simp
            · rw [hpopped, hok.nbInsns]
              rw [hqueue] at hcount
              exact hcount.drop hbody
            · rw [hpopped]
              refine hheld₁ _ ?_ ?_
              · exact fun _ => ⟨lastDone_of_last hlast, hend.symm⟩
              · simp [hlast]
            · exact (hcopiesOk.set hinsn hvalid).drop
            · have hstarted : loop.nbInsns ≤ max (queueStarted (some loop)) (loop.insn + 1) := by
                rw [hok.nbInsns, ← hend]
                exact Nat.le_max_right _ _
              exact (hcaqOk.execute hi rfl hstarted (insn_le_firstDone hok) hcaq).drop
          | false =>
            have hloop := hmore rfl
            rw [if_neg Bool.false_ne_true]
            refine ⟨⟨?_, ?_, ?_, ?_, ?_, ?_, hlsu, fun _ => hevent hev⟩, hevent hev⟩
            · refine ⟨body, _, bs, .some hloop.ok hbody hlen, horder.blocks, ?_, ?_⟩
              · rw [hmap]
                exact horder.insns
              · have hexec := horder.executed
                rw [htodo] at hexec
                rw [hpair, ← hexec, hloop.todo]
                simp
            · rw [hmap]
              exact h.count
            · rw [hmap]
              refine hheld₁ _ ?_ ?_
              · intro hlast
                have hlast := of_decide_eq_true hlast
                exact ⟨lastDone_of_last hlast, by rw [queueDone, map_some, getD_some, hloop.lastDone,
                  if_pos hlast]⟩
              · intro hlast
                exact hloop.lastDone.trans (if_neg (of_decide_eq_false hlast))
            · refine (hcopiesOk.set hinsn hvalid).next ?_ ?_
              · rw [hloop.ok.nbInsns, hok.nbInsns]
              · rw [hloop.ok.staggerMask, hok.staggerMask]
            · have hstarted := h.started
              rw [hl] at hstarted
              rw [length_set]
              exact hloop.firstDone.trans (Nat.max_le.2 ⟨hstarted, hlt⟩)
            · exact hcaqOk.execute hi rfl hloop.firstDone (insn_le_firstDone hok) hcaq

/-! ## The head of the queue -/

theorem program_cons (b : Block w) (bs : List (Block w)) : program (b :: bs) = b.insns ++ program bs := rfl

theorem unroll_cons (b : Block w) (bs : List (Block w)) : unroll (b :: bs) = b.unroll ++ unroll bs := rfl

/-- The instruction at the head of the queue, when no loop runs, is that of the next block. -/
theorem OrderOk.head {queue rest body : List (FpInsn w)} {executed todo : List (Nat × List InsnArg)}
    {bs : List (Block w)} (h : OrderOk cfg prog (insn :: queue) rest none executed body todo bs) :
    body = [] ∧ todo = [] ∧ ∃ b bs', bs = b :: bs' ∧ b.Ok cfg ∧ insn :: queue ++ rest = b.insns ++ program bs' ∧
      b.insns.head? = some insn := by
  cases h.loop
  refine ⟨rfl, rfl, ?_⟩
  have hinsns := h.insns
  cases bs with
  | nil => cases hinsns
  | cons b bs' =>
    refine ⟨b, bs', rfl, h.blocks b mem_cons_self, hinsns, ?_⟩
    cases b with
    | single => exact congrArg some (cons.inj hinsns).1.symm
    | frep => exact congrArg some (cons.inj hinsns).1.symm

theorem FpInv.loopStart {head : FpSsEntry w} (h : FpInv cfg prog s) (hl : s.loop = none)
    (hq : s.queue = head :: queue) (hk : head.insn.kind.isFrep = true) (hev : s.fsmEvent = true) :
    FpInv cfg prog { s.completeAt head.insn.entry s.cycle with
      loop := some (FpSs.loopStart head.insn), queue := queue, nbFreps := s.nbFreps - 1 } := by
  obtain ⟨body, todo, bs, horder⟩ := h.order
  rw [hq, hl, map_cons] at horder
  obtain ⟨rfl, rfl, b, bs', rfl, hok, hinsns, hhead⟩ := horder.head
  cases b with
  | single insn =>
    cases hhead
    rw [show head.insn.kind.isFrep = false from hok] at hk
    cases hk
  | frep insn body =>
    cases hhead
    obtain ⟨-, hlen, hmax, hbody⟩ := hok
    have hnot : head.insn.kind.isMem = false ∧ head.insn.kind.isBypass = false := by
      cases hkind : head.insn.kind <;> simp_all [FpSsKind.isFrep, FpSsKind.isMem, FpSsKind.isBypass]
    refine ⟨?_, ?_, ?_, ?_, Nat.zero_le _, ?_, h.lsu, fun _ => hev⟩
    · refine ⟨body, _, bs', .some (loopOk_start hlen) hbody hmax, ?_, ?_, ?_⟩
      · exact fun b hb => horder.blocks b (mem_cons_of_mem _ hb)
      · exact (cons.inj hinsns).2
      · have hexec := horder.executed
        rw [unroll_cons, ← loopTodo_start] at hexec
        rw [append_assoc]
        rwa [append_nil] at hexec
    · have hcount := h.count
      rw [hq, map_cons] at hcount
      have h₁ := hcount.nbInsns
      have h₂ := hcount.nbFreps
      have h₃ := hcount.bypass
      rw [filter_cons_of_neg (by simp [hk])] at h₁
      rw [filter_cons_of_pos (by exact hk), length_cons] at h₂
      rw [filter_cons_of_neg (by simp [hnot.2])] at h₃
      refine ⟨h₁, ?_, h₃, hcount.nbInflight⟩
      show s.nbFreps - 1 = ((queue.map (·.insn)).filter fun insn => insn.kind.isFrep).length
      omega
    · have hheld := h.held
      have hzero : queueDone (some (FpSs.loopStart head.insn)) = 0 := by
        show lastDone _ = 0
        rw [lastDone]
        split
        · rfl
        · split <;> rfl
      rw [hq, hl, map_cons] at hheld
      rw [HeldOk] at hheld ⊢
      rw [hzero]
      refine Perm.trans ?_ hheld
      rw [FpSs.completeAt, map_append, append_assoc s.terminated, append_assoc s.terminated]
      apply Perm.append_left
      rw [append_assoc, append_assoc, append_assoc]
      apply Perm.append_left
      exact (@List.perm_middle _ _ (s.lsu.reqs.filterMap (·.entry)) _).symm
    · have hcopies := h.copies
      rw [hq, hl] at hcopies
      exact fun i x hx => .inl (hcopies.eq_nil (i := i + 1) hx)
    · have hcaq := h.caq
      have hpending : head.caqPending = false := by
        cases hc : head.caqPending with
        | false => rfl
        | true =>
          have hmem := hcaq.mem head (by rw [hq]; exact mem_cons_self) hc
          rw [hnot.1] at hmem
          cases hmem
      refine ⟨?_, ?_, fun i x _ hi => ?_⟩
      · have hperm := hcaq.caq
        rw [hq, filter_cons_of_neg (by simp [hpending])] at hperm
        exact hperm
      · exact fun x hx => hcaq.mem x (by rw [hq]; exact mem_cons_of_mem _ hx)
      · exact absurd hi (Nat.not_lt_zero _)

/-- **An instruction on its own** that is executed leaves the queue; one that waits stays. -/
theorem FpInv.issueSingle {head : FpSsEntry w} (h : FpInv cfg prog s) (hl : s.loop = none)
    (hq : s.queue = head :: queue) (hk : head.insn.kind.isFrep = false) (hev : s.fsmEvent = true) {s' : FpSs w}
    {done : Bool} (hissue : s.issueEntry cfg env 0 0 0 true = (s', done)) :
    (done = false → FpInv cfg prog s' ∧ s'.fsmEvent = true) ∧
      (done = true → FpInv cfg prog s'.popEntry ∧ s'.popEntry.fsmEvent = true) := by
  have hi : s.queue[0]? = some head := by rw [hq]; rfl
  have hcopies := h.copies
  have hcaq := h.caq
  rw [hl] at hcopies hcaq
  have hnil := hcopies.eq_nil hi
  obtain ⟨copies, hzero, -, hfail | ⟨ready, div, completions, lsu, event, hdone, hheld, hfirst, hlsu, hevent⟩⟩ :=
    @issueEntry_spec w cfg s env 0 head 0 0 true hi (by simp [hnil]) h.lsu
      (hcaq.mem head (mem_of_getElem? hi))
  · -- the entry waits
    rw [hfail] at hissue
    cases hissue
    rw [hzero rfl, hq]
    refine ⟨fun _ => ⟨?_, hev⟩, by simp⟩
    rw [set_cons_zero, ← hq]
    exact h
  · rw [hdone] at hissue
    cases hissue
    refine ⟨by simp, fun _ => ⟨?_, hevent hev⟩⟩
    obtain ⟨body, todo, bs, horder⟩ := h.order
    rw [hq, hl, map_cons] at horder
    obtain ⟨rfl, rfl, b, bs', rfl, hok, hinsns, hhead⟩ := horder.head
    cases b with
    | frep insn body =>
      cases hhead
      rw [hok.1] at hk
      cases hk
    | single insn =>
      cases hhead
      have htail : (s.queue.set 0 { head with staggerInsns := copies, caqPending := false }).tail = queue := by
        rw [hq]
        rfl
      refine ⟨?_, ?_, ?_, ?_, ?_, ?_, hlsu, fun _ => hevent hev⟩
      · refine ⟨[], [], bs', ?_, ?_, ?_, ?_⟩
        · rw [hl]
          exact .none
        · exact fun b hb => horder.blocks b (mem_cons_of_mem _ hb)
        · rw [FpSs.popEntry]
          rw [htail]
          exact (cons.inj hinsns).2
        · have hexec := horder.executed
          rw [unroll_cons] at hexec
          show (s.executed ++ [_]) ++ [] ++ _ = _
          rw [staggerArgs_zero, append_nil, append_assoc]
          rwa [append_nil] at hexec
      · have hcount := h.count
        rw [hq, map_cons] at hcount
        have h₁ := hcount.nbInsns
        have h₂ := hcount.nbFreps
        have h₃ := hcount.bypass
        rw [filter_cons_of_pos (by simp [hk]), length_cons] at h₁
        rw [filter_cons_of_neg (by simp [hk])] at h₂
        rw [FpSs.popEntry]
        dsimp only
        rw [htail, hq, set_cons_zero]
        refine ⟨by omega, h₂, ?_, hcount.nbInflight⟩
        rw [filter_cons] at h₃
        cases hb : head.insn.kind.isBypass <;> cases hp : s.pendingBypass <;> simp_all
      · have hheld' := h.held
        rw [hl, hq, map_cons] at hheld'
        have hrest := @HeldOk.execute _ _ 0 _ _ _ _ _ _ _ _ _ 1 _ hheld' rfl (fun _ => ⟨rfl, rfl⟩) (by simp) hheld
        show HeldOk prog s.terminated completions lsu.reqs (((set _ _ _).tail.map _).drop (queueDone s.loop)) s.rest
        rw [htail, hl]
        exact hrest
      · show CopiesOk (set _ _ _).tail s.loop
        rw [htail, hl]
        intro i x hx
        refine .inl (hcopies.eq_nil (i := i + 1) ?_)
        rw [hq]
        exact hx
      · rw [hl]
        exact Nat.zero_le _
      · have hexec : CaqOk s.caq (s.queue.set 0 { head with staggerInsns := copies, caqPending := false }) lsu.reqs 1 :=
          hcaq.execute hi rfl (Nat.le_max_right _ _) (Nat.zero_le _) hfirst
        have hdropped := hexec.drop
        rw [hl]
        rwa [drop_one] at hdropped

theorem FpInv.issue (h : FpInv cfg prog s) (hw : w < 64) (hev : s.fsmEvent = true) :
    FpInv cfg prog (s.issue cfg env).1 ∧ (s.issue cfg env).1.fsmEvent = true := by
  rw [FpSs.issue]
  split
  case h_1 loop hl => exact h.issueLoop hw hev hl
  case h_2 hl =>
    split
    case h_1 => exact ⟨h, hev⟩
    case h_2 head queue hq =>
      split
      case isTrue => exact ⟨h, hev⟩
      case isFalse =>
        split
        case isTrue hk => exact (h.loopStart hl hq hk hev).issueLoop hw hev rfl
        case isFalse hk =>
          cases hissue : s.issueEntry cfg env 0 0 0 true with
          | mk s' done =>
            obtain ⟨hwait, hdone⟩ := h.issueSingle hl hq (by simpa using hk) hev hissue
            cases done with
            | false => exact hwait rfl
            | true => exact hdone rfl

end Issue

/-! ## The other events -/

section Events

variable {cfg : FpConfig} {prog : List (Block w)} {s s' : FpSs w}

theorem CountOk.offload {queue rest : List (FpInsn w)} {nbInsns nbFreps nbInflight : Int} {bypass : Bool}
    {terminated : List Nat} (h : CountOk prog queue (insn :: rest) nbInsns nbFreps bypass nbInflight terminated)
    (hbypass : bypass = false) :
    CountOk prog (queue ++ [insn]) rest (if insn.kind.isFrep then nbInsns else nbInsns + 1)
      (if insn.kind.isFrep then nbFreps + 1 else nbFreps) (bypass || insn.kind.isBypass)
        (nbInflight + 1) terminated := by
  have h₁ := h.nbInsns
  have h₂ := h.nbFreps
  have h₃ := h.bypass
  have h₄ := h.nbInflight
  rw [length_cons] at h₄
  subst hbypass
  refine ⟨?_, ?_, ?_, by push_cast at h₄ ⊢; omega⟩
  · rw [filter_append, length_append, filter_singleton]
    cases insn.kind.isFrep <;> simp [h₁]
  · rw [filter_append, length_append, filter_singleton]
    cases insn.kind.isFrep <;> simp [h₂]
  · rw [filter_append, length_append, filter_singleton, h₃]
    cases insn.kind.isBypass <;> rfl

theorem queueDone_le_started (h : FpInv cfg prog s) : queueDone s.loop ≤ queueStarted s.loop := by
  obtain ⟨body, todo, bs, horder⟩ := h.order
  cases hl : s.loop with
  | none => exact le_rfl
  | some loop =>
    have hrunning := horder.loop
    rw [hl] at hrunning
    cases hrunning with
    | some hok =>
      refine le_trans ?_ (insn_le_firstDone hok)
      show lastDone loop ≤ loop.insn
      rw [lastDone]
      split
      · exact le_rfl
      · split <;> omega

theorem pendingBypass_of_canOffload {kind : FpSsKind} (h : s.canOffload cfg kind = true) : s.pendingBypass = false := by
  rw [FpSs.canOffload] at h
  split at h
  · cases h
  · simp_all

theorem CaqOk.offload {started : Nat} {e : FpSsEntry w} (h : CaqOk caq queue lsu started)
    (he : e.caqPending = e.insn.kind.isMem) (hstarted : started ≤ queue.length) :
    CaqOk (if e.insn.kind.isMem then caq ++ [FpSs.wordAddr e.insn.intValue] else caq) (queue ++ [e]) lsu started := by
  refine ⟨?_, fun x hx hp => ?_, fun i x hx hi => ?_⟩
  · rw [filter_append, filter_singleton, he]
    cases e.insn.kind.isMem with
    | false =>
      rw [if_neg Bool.false_ne_true, cond_false, append_nil]
      exact h.caq
    | true =>
      rw [if_pos rfl, cond_true, map_append, append_assoc]
      refine (h.caq.append_right _).trans ?_
      rw [append_assoc]
      exact perm_append_comm.append_left _
  · rcases mem_append.1 hx with hx | hx
    · exact h.mem x hx hp
    · rw [mem_singleton] at hx
      subst hx
      rwa [← he]
  · rw [getElem?_append_left (by omega)] at hx
    exact h.started i x hx hi

theorem FpInv.offload (h : FpInv cfg prog s) (hs : s.offload cfg = some s') : FpInv cfg prog s' := by
  rw [FpSs.offload] at hs
  split at hs
  case h_1 => cases hs
  case h_2 insn rest hrest =>
    split at hs
    case isFalse => cases hs
    case isTrue hcan =>
      cases hs
      obtain ⟨body, todo, bs, horder⟩ := h.order
      have hcount := h.count
      have hheld := h.held
      rw [hrest] at horder hcount hheld
      have hstarted := h.started
      refine ⟨⟨body, todo, bs, horder.loop, horder.blocks, ?_, horder.executed⟩, ?_, ?_, ?_, ?_, ?_, h.lsu,
        fun _ => rfl⟩
      · rw [map_append, append_assoc]
        exact horder.insns
      · rw [map_append]
        exact hcount.offload (pendingBypass_of_canOffload hcan)
      · have hdone : queueDone s.loop ≤ (s.queue.map (·.insn)).length := by
          rw [length_map]
          exact (queueDone_le_started h).trans hstarted
        rw [HeldOk] at hheld ⊢
        rw [map_append (f := fun e : FpSsEntry w => e.insn), drop_append_of_le_length hdone,
          append_assoc _ _ rest]
        exact hheld
      · intro i e he
        rw [getElem?_append] at he
        split at he
        case isTrue => exact h.copies i e he
        case isFalse =>
          left
          rw [mem_singleton.1 (mem_of_getElem? he)]
      · dsimp only
        rw [length_append]
        omega
      · exact h.caq.offload (e := { insn := insn, readyCycle := _, caqPending := insn.kind.isMem }) rfl hstarted

theorem FpInv.endCompletions (h : FpInv cfg prog s) (hev : s.fsmEvent = true) :
    FpInv cfg prog s.endCompletions ∧ s.endCompletions.fsmEvent = true := by
  refine ⟨{ h with count := ?_, held := ?_, event := fun _ => hev }, hev⟩
  · have hcount := h.count
    have h₄ := hcount.nbInflight
    refine { hcount with nbInflight := ?_ }
    rw [FpSs.endCompletions]
    rw [length_append, length_map]
    push_cast
    omega
  · have hheld := h.held
    rw [HeldOk] at hheld ⊢
    refine Perm.trans ?_ hheld
    apply Perm.append_right
    rw [FpSs.endCompletions]
    rw [append_assoc, ← append_assoc (List.map _ _)]
    apply Perm.append_left
    apply Perm.append_right
    rw [← map_append]
    apply Perm.map
    simpa only [decide_not] using filter_append_perm (fun c : Int × Nat => decide (c.1 ≤ s.cycle)) s.completions

theorem FpInv.lsuEnd {req : FpLsuReq w} {lsu : FpLsu w} (h : FpInv cfg prog s) (hfree : lsu.free = s.lsu.free)
    (hreqs : s.lsu.reqs.Perm (req :: lsu.reqs))
    (hready : ∀ reg, s.fpReady reg = none → (req.isRead = true ∧ req.reg = reg) ∨
      ∃ r ∈ lsu.denied.toList ++ lsu.inFlight, r.isRead = true ∧ r.reg = reg)
    (hsync : s.queue ≠ [] ∨ s.completions ≠ [] ∨ lsu.syncReqs ≠ [] → s.fsmEvent = true) :
    FpInv cfg prog (FpSs.lsuEnd cfg { s with lsu := lsu } req) := by
  refine ⟨h.order, ?_, ?_, h.copies, h.started, ?_, ?_, hsync⟩
  · have hcount := h.count
    have h₄ := hcount.nbInflight
    refine { hcount with nbInflight := ?_ }
    rw [FpSs.lsuEnd]
    rw [length_append]
    cases req.entry with
    | none => simpa using h₄
    | some entry =>
      simp only [isSome_some, if_true, toList_some, length_singleton]
      push_cast
      omega
  · have hheld := h.held
    rw [HeldOk] at hheld ⊢
    refine Perm.trans ?_ hheld
    apply Perm.append_right
    rw [FpSs.lsuEnd]
    rw [append_assoc]
    apply Perm.append_left
    have hentries := hreqs.filterMap (·.entry)
    refine Perm.trans ?_ (hentries.symm.append_left _)
    cases hentry : req.entry with
    | none =>
      rw [filterMap_cons_none hentry]
      exact Perm.refl _
    | some entry =>
      rw [filterMap_cons_some hentry]
      show (entry :: (s.completions.map (·.2) ++ lsu.reqs.filterMap (·.entry))).Perm _
      exact perm_middle.symm
  · have hcaq := h.caq
    have hreleases := ((hreqs.filter (·.caqRelease)).map (·.caqAddr)).append_left
      ((s.queue.filter (·.caqPending)).map fun e => FpSs.wordAddr e.insn.intValue)
    refine ⟨?_, hcaq.mem, hcaq.started⟩
    have hperm := hcaq.caq.trans hreleases
    rw [FpSs.lsuEnd]
    cases hrelease : req.caqRelease with
    | false =>
      rw [filter_cons_of_neg (by simp [hrelease])] at hperm
      exact hperm
    | true =>
      rw [filter_cons_of_pos (by exact hrelease), map_cons] at hperm
      rw [if_pos rfl]
      have herase := (hperm.trans perm_middle).erase req.caqAddr
      rwa [erase_cons_head] at herase
  · have hlen := hreqs.length_eq
    have hfree' := h.lsu.free
    rw [length_cons] at hlen
    refine ⟨?_, fun reg hreg => ?_⟩
    · show lsu.free + 1 + lsu.reqs.length = cfg.lsuNbOutstanding
      omega
    · rw [FpSs.lsuEnd] at hreg
      dsimp only at hreg
      have hself : ¬(req.isRead = true ∧ req.reg = reg) ∧ s.fpReady reg = none := by
        split at hreg
        case isTrue hcond =>
          by_cases heq : reg = req.reg
          · rw [heq, Function.update_self] at hreg
            cases hreg
          · rw [Function.update_of_ne heq] at hreg
            exact ⟨fun hself => heq hself.2.symm, hreg⟩
        case isFalse hcond =>
          refine ⟨?_, hreg⟩
          rintro ⟨hread, rfl⟩
          exact hcond (by rw [hread, hreg]; rfl)
      exact (hready reg hself.2).resolve_left hself.1

theorem FpInv.move {ready : Fin 32 → Option Int} {lsu : FpLsu w} {event : Bool} (h : FpInv cfg prog s)
    (hentries : (lsu.reqs.filterMap (·.entry)).Perm (s.lsu.reqs.filterMap (·.entry)))
    (hreleases : ((lsu.reqs.filter (·.caqRelease)).map (·.caqAddr)).Perm
      ((s.lsu.reqs.filter (·.caqRelease)).map (·.caqAddr)))
    (hlsu : LsuOk cfg lsu ready) (hev : s.queue ≠ [] ∨ s.completions ≠ [] ∨ lsu.syncReqs ≠ [] → event = true) :
    FpInv cfg prog { s with fpReady := ready, lsu := lsu, fsmEvent := event } := by
  refine { h with held := ?_, caq := ?_, lsu := hlsu, event := hev }
  · have hheld := h.held
    rw [HeldOk] at hheld ⊢
    refine Perm.trans ?_ hheld
    apply Perm.append_right
    apply Perm.append_left
    exact hentries.append_left _
  · have hcaq := h.caq
    exact ⟨hcaq.caq.trans (hreleases.symm.append_left _), hcaq.mem, hcaq.started⟩

theorem FpInv.foldl_lsuEnd {done sync : List (FpLsuReq w)}
    (h : FpInv cfg prog { s with lsu := { s.lsu with syncReqs := done ++ sync } }) (hev : s.fsmEvent = true) :
    FpInv cfg prog (done.foldl (FpSs.lsuEnd cfg) { s with lsu := { s.lsu with syncReqs := sync } }) ∧
      (done.foldl (FpSs.lsuEnd cfg) { s with lsu := { s.lsu with syncReqs := sync } }).fsmEvent = true := by
  induction done generalizing s with
  | nil => exact ⟨h, hev⟩
  | cons req done ih =>
    rw [foldl_cons]
    refine ih (s := FpSs.lsuEnd cfg { s with lsu := { s.lsu with syncReqs := sync } } req) ?_ hev
    refine @FpInv.lsuEnd _ _ _ { s with lsu := { s.lsu with syncReqs := req :: done ++ sync } } req
      { s.lsu with syncReqs := done ++ sync } h rfl ?_ ?_ fun _ => hev
    · rw [FpLsu.reqs, FpLsu.reqs]
      rw [append_assoc _ (req :: done ++ sync), append_assoc _ (done ++ sync)]
      exact perm_middle
    · exact fun reg hreg => .inr (h.lsu.ready reg hreg)

section

variable (h : FpInv cfg prog s)
include h

/-- The accesses that the memory has answered at once, and that are done in this cycle. -/
theorem FpInv.endLsuSync (hev : s.fsmEvent = true) :
    FpInv cfg prog (s.endLsuSync cfg) ∧ (s.endLsuSync cfg).fsmEvent = true := by
  refine FpInv.foldl_lsuEnd ?_ hev
  have hsync := filter_append_perm (fun req : FpLsuReq w => decide (req.timestamp ≤ s.cycle)) s.lsu.syncReqs
  have hreqs : (s.lsu.denied.toList ++ (s.lsu.syncReqs.filter (fun req => decide (req.timestamp ≤ s.cycle)) ++
      s.lsu.syncReqs.filter (fun req => !decide (req.timestamp ≤ s.cycle))) ++ s.lsu.inFlight).Perm s.lsu.reqs :=
    (hsync.append_left _).append_right _
  simp only [decide_not]
  refine h.move (hreqs.filterMap _) ((hreqs.filter _).map _) ⟨?_, h.lsu.ready⟩ fun _ => hev
  have hfree := h.lsu.free
  have hlen := hreqs.length_eq
  rw [FpLsu.reqs]
  dsimp only
  omega

theorem FpInv.fsmHandler {env : FpEnv} (hw : w < 64) (hev : s.fsmEvent = true) :
    FpInv cfg prog (s.fsmHandler cfg env) := by
  obtain ⟨h, hev⟩ := h.endCompletions hev
  obtain ⟨h, hev⟩ := h.endLsuSync hev
  obtain ⟨h, hev⟩ := @FpInv.issue _ _ _ _ env h hw hev
  rw [FpSs.fsmHandler, FpSs.checkIdle]
  split
  case isFalse => exact h
  case isTrue hidle =>
    refine { h with event := fun hbusy => ?_ }
    simp only [Bool.and_eq_true, List.isEmpty_iff] at hidle
    rcases hbusy with hbusy | hbusy | hbusy
    · exact absurd hidle.1.1 hbusy
    · exact absurd hidle.1.2 hbusy
    · exact absurd hidle.2 hbusy

theorem FpInv.lsuRetry {status : LsuStatus} : FpInv cfg prog (s.lsuRetry cfg status) := by
  rw [FpSs.lsuRetry]
  split
  case h_1 => exact h
  case h_2 req hdenied =>
    obtain ⟨t, ready, lsu, event, heq, hfree, hperm, hready, hevent, hsync⟩ :=
      @lsuSend_spec w cfg { s with lsu := { s.lsu with denied := none } } req status rfl fun reg hreg => by
        obtain ⟨r, hr, h⟩ := h.lsu.ready reg hreg
        rw [hdenied] at hr
        rcases mem_append.1 hr with hr | hr
        · cases mem_toList.1 hr
          exact .inl h
        · exact .inr ⟨r, hr, h⟩
    rw [heq]
    have hreqs : s.lsu.reqs = req :: ({ s.lsu with denied := none } : FpLsu w).reqs := by
      rw [FpLsu.reqs, hdenied]
      rfl
    refine h.move ?_ ?_ ⟨?_, hready⟩ ?_
    · refine (hperm.filterMap _).trans ?_
      rw [hreqs]
      exact Perm.refl _
    · refine ((hperm.filter _).map _).trans ?_
      rw [hreqs, filter_cons, filter_cons]
      split
      · exact Perm.refl _
      · exact Perm.refl _
    · have hfree' := h.lsu.free
      have hlen : lsu.reqs.length = ({ s.lsu with denied := none } : FpLsu w).reqs.length + 1 := hperm.length_eq
      rw [hreqs, length_cons] at hfree'
      have hfree : lsu.free = s.lsu.free := hfree
      omega
    · intro hbusy
      rcases hsync with hsync | hevent
      · rw [hsync] at hbusy
        exact hevent (h.event hbusy)
      · exact hevent

theorem FpInv.lsuResponse {k : Nat} (hs : s.lsuResponse cfg k = some s') : FpInv cfg prog s' := by
  rw [FpSs.lsuResponse, map_eq_some_iff] at hs
  obtain ⟨req, hreq, rfl⟩ := hs
  obtain ⟨hlt, rfl⟩ := List.getElem?_eq_some_iff.1 hreq
  have hperm := getElem_cons_eraseIdx_perm hlt
  refine FpInv.lsuEnd h rfl ?_ ?_ h.event
  · exact (hperm.symm.append_left _).trans perm_middle
  · intro reg hreg
    obtain ⟨r, hr, hself⟩ := h.lsu.ready reg hreg
    rcases mem_append.1 hr with hr | hr
    · exact .inr ⟨r, mem_append_left _ hr, hself⟩
    · rcases mem_cons.1 (hperm.symm.subset hr) with rfl | hr
      · exact .inl hself
      · exact .inr ⟨r, mem_append_right _ hr, hself⟩

theorem FpInv.step {event : FpEvent} (hw : w < 64) (hs : fpStep cfg s event = some s') :
    FpInv cfg prog s' := by
  cases event with
  | cycle =>
    cases hs
    exact { h with }
  | offload => exact h.offload hs
  | fsmHandler env =>
    rw [fpStep] at hs
    split at hs
    case isTrue hev =>
      cases hs
      exact h.fsmHandler hw hev
    case isFalse => cases hs
  | lsuRetry status =>
    cases hs
    exact h.lsuRetry
  | lsuResponse k => exact h.lsuResponse hs

end

theorem fpInv_init (hprog : ∀ b ∈ prog, b.Ok cfg) : FpInv cfg prog (FpSs.init cfg (program prog)) where
  order := ⟨[], [], prog, .none, hprog, rfl, rfl⟩
  count := ⟨rfl, rfl, rfl, by simp [FpSs.init]⟩
  held := Perm.refl _
  copies := fun i e he => by cases he
  started := le_rfl
  caq := ⟨Perm.refl _, fun e he => (not_mem_nil he).elim, fun i e he => by cases he⟩
  lsu := ⟨rfl, fun reg hreg => by cases hreg⟩
  event := by simp [FpSs.init]

end Events

end GvsocPulp.Snitchv2
