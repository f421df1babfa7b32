import GvsocPulp.MempoolXbar.Queues

/-!
# The events of the MemPool crossbar

What each event makes of the phases of the inputs; the request that an output answers with `IO_REQ_INVALID` from the
call is the only one that is not accounted for any more.

- `Inv.quiet`, `Inv.arrive`, `Inv.refill`, `Inv.finish`: the front of no input moves;
- `Inv.lock`, `Inv.elect`, `Inv.count`, `Inv.send`, `Inv.deny`, `Inv.pop`: what the front of an input goes through;
- `Inv.step`: one step of a channel.
-/

namespace GvsocPulp.MempoolXbar

open Lib Function List Option Channel

variable {cfg : Config} {s t : Channel} {i j o r : Nat} {ph : Nat → Phase}

/-- A master or an output is being called for the front of an input. -/
def Pc.calling : Pc → Bool
  | .granting .. | .sending .. => true
  | _ => false

theorem Pc.calling_eq_false {pc : Pc} (h : pc.calling = false) :
    (∀ k i req, pc ≠ .granting k i req) ∧ ∀ o i req, pc ≠ .sending o i req :=
  ⟨fun _ _ _ he => (nomatch he ▸ h), fun _ _ _ he => (nomatch he ▸ h)⟩

theorem Links.frame (h : Links s ph) (hentries : t.entries = s.entries) (hpc : t.pc = s.pc)
    (hmapping : ∀ i, (t.inputs i).pendingMapping = (s.inputs i).pendingMapping)
    (hfront : ∀ i req rest, (s.inputs i).pendingReqs = req :: rest → ∃ rest', (t.inputs i).pendingReqs = req :: rest') :
    Links t ph := by
  refine ⟨?_, ?_, ?_, ?_, fun k i req hcall => ?_, ?_, fun o i req hcall => ?_⟩
  · simp only [hentries, hmapping]
    exact h.elected
  · simp only [hentries, hmapping]
    exact h.stalled
  · simp only [hentries, hmapping]
    exact h.stalledOut
  · simp only [hpc]
    exact h.granting
  · obtain ⟨rest, hcons⟩ := h.grantingFront k i req (hpc ▸ hcall)
    exact hfront i req rest hcons
  · simp only [hpc]
    exact h.sending
  · obtain ⟨⟨rest, hcons⟩, hto, hfree⟩ := h.sendingFront o i req (hpc ▸ hcall)
    rw [hmapping, hentries]
    exact ⟨hfront i req rest hcons, hto, hfree⟩

namespace Inv

/-! ## What waits -/

variable {req : Nat}

theorem ne_of_queue (h : Inv cfg s ph) (hij : j ≠ i) (hreq : req ∈ s.queue i) (hr : r ∈ s.queue j) : r ≠ req :=
  fun he => hij (h.account.port_unique ((h.input j).mem_arrived hr) (he ▸ (h.input i).mem_arrived hreq))

theorem ne_of_accepted (h : Inv cfg s ph) (hacc : (i, req) ∈ s.accepted) (hr : r ∈ s.queue j) : r ≠ req := by
  rintro rfl
  have hij : j = i := h.account.port_unique ((h.input j).mem_arrived hr) ((h.input i).accepted_arrived hacc)
  subst hij
  exact (h.input j).not_accepted h.account hr hacc

variable {rest : List Nat}

theorem head_mem_queue (hcons : (s.inputs i).pendingReqs = req :: rest) : req ∈ s.queue i := by
  rw [queue, hcons]
  exact mem_cons_self

/-! ## Events at which no front moves -/

variable {current : Nat}

theorem quiet (h : Inv cfg s ph) {pc : Pc} {cycle : Nat} {arbiter fsm : Option Nat} (hpc : s.pc.calling = false)
    (hpc' : pc.calling = false) (hdue : ∀ c, arbiter = some c ∨ fsm = some c → cycle ≤ c)
    (hwake : pc = .idle → ((∃ i, (s.inputs i).pendingReqs ≠ []) ∨ s.endedReqs ≠ []) → arbiter ≠ none ∨ fsm ≠ none) :
    Inv cfg { s with pc := pc, currentInput := current, cycle := cycle, arbiterEvent := arbiter, fsmEvent := fsm }
      ph := by
  obtain ⟨hgranting, hsending⟩ := Pc.calling_eq_false hpc
  obtain ⟨hgranting', hsending'⟩ := Pc.calling_eq_false hpc'
  have hl := h.links
  have ha := h.account
  refine ⟨fun i => (h.input i).frame rfl rfl rfl rfl rfl (fun _ _ => rfl) (fun _ _ => ⟨rfl, rfl⟩),
    ⟨hl.elected, hl.stalled, hl.stalledOut, fun i => ?_, fun k i req he => (hgranting' k i req he).elim, fun i => ?_,
      fun o i req he => (hsending' o i req he).elim⟩,
    { ha with due := hdue, wake := hwake }⟩
  · rw [hl.granting]
    exact iff_of_false (fun ⟨k, req, he⟩ => hgranting k i req he) fun ⟨k, req, he⟩ => hgranting' k i req he
  · rw [hl.sending]
    exact iff_of_false (fun ⟨o, req, he⟩ => hsending o i req he) fun ⟨o, req, he⟩ => hsending' o i req he

open Channel (setInput refill setEntry)

theorem arrive (h : Inv cfg s ph) (req : Request) (moved denied : List Nat) (size : BitVec 32) (arbiter : Option Nat)
    (hport : req.port < cfg.nbInputPort)
    (hnew : moved ++ denied = (s.inputs req.port).deniedReqs ++ [s.reqs.length])
    (hsize : size = (s.inputs req.port).pendingSize + BitVec.ofNat 32 (moved.map (s.arrive req).size).sum)
    (hbacklog : denied ≠ [] → cfg.maxPending ≤ size.toInt ∨ ph req.port = .granting ∨ ph req.port = .elected)
    (hdue : ∀ c, arbiter = some c → s.cycle ≤ c) (hkeep : s.arbiterEvent ≠ none → arbiter ≠ none)
    (hwake : (s.inputs req.port).pendingReqs ++ moved ≠ [] → arbiter ≠ none ∨ (s.inputs req.port).pendingReqs ≠ []) :
    Inv cfg { (s.arrive req).setInput req.port { s.inputs req.port with
      pendingReqs := (s.inputs req.port).pendingReqs ++ moved, deniedReqs := denied, pendingSize := size } with
      arbiterEvent := arbiter } ph := by
  have ha := h.account
  have hreqs : ∀ i r, (i, r) ∈ s.arrived → (s.reqs ++ [req])[r]? = s.reqs[r]? := fun i r hr =>
    getElem?_append_left (ha.lt hr)
  have hargs : ∀ i, ∀ r ∈ s.queue i, r ≠ s.reqs.length := fun i r hr => (ha.lt ((h.input i).mem_arrived hr)).ne
  refine ⟨fun i => ?_, ?_, ?_⟩
  · by_cases hi : i = req.port
    · subst hi
      refine (h.input req.port).grow moved [s.reqs.length] ?_ ?_ ?_ ?_ ?_ ?_ ?_
        (onLane_concat_self _ _) rfl rfl rfl (hreqs req.port) (fun r hr => ?_) (fun r hr => ?_)
      all_goals try simp only [setInput, Channel.arrive, update_self]
      · exact hnew
      · exact hsize
      · exact hbacklog
      · rw [update_of_ne (hargs _ r hr), update_of_ne (hargs _ r hr)]
        exact ⟨rfl, rfl⟩
      · obtain rfl := mem_singleton.1 hr
        rw [update_self, update_self, Channel.argsOf]
        simp
    · refine (h.input i).frame (update_of_ne hi _ _) (onLane_concat_ne (Ne.symm hi) _ _) rfl rfl rfl (hreqs i)
        fun r hr => ?_
      simp only [setInput, Channel.arrive]
      rw [update_of_ne (hargs _ r hr), update_of_ne (hargs _ r hr)]
      exact ⟨rfl, rfl⟩
  · refine h.links.frame rfl rfl (fun i => ?_) fun i r rest hcons => ?_
    · simp only [setInput, update_apply]
      split
      · rw [‹i = _›]
      · rfl
    · simp only [setInput, update_apply]
      split
      · subst i
        exact ⟨rest ++ moved, by rw [hcons]; rfl⟩
      · exact ⟨rest, hcons⟩
  · refine ⟨?_, fun i r hr => ?_, ha.grantedPorts, ha.count, fun r hr => ?_, ha.answered, ha.once, fun c hc => ?_,
      fun hidle hwaiting => ?_⟩
    · simp [setInput, Channel.arrive, ha.numbers, List.range_succ]
    · rcases mem_append.1 hr with hr | hr
      · exact ha.ports i r hr
      · cases mem_singleton.1 hr
        exact hport
    · obtain ⟨i, hacc, hargsr⟩ := ha.owed r hr
      refine ⟨i, hacc, ?_⟩
      simp only [setInput, Channel.arrive]
      rw [update_of_ne (ha.lt ((h.input i).accepted_arrived hacc)).ne]
      exact hargsr
    · exact hc.elim (hdue c) fun hc => ha.due c (.inr hc)
    · have hbefore : (arbiter ≠ none) ∨ ((∃ i, (s.inputs i).pendingReqs ≠ []) ∨ s.endedReqs ≠ []) := by
        rcases hwaiting with ⟨i, hi⟩ | hended
        · by_cases hip : i = req.port
          · subst hip
            simp only [setInput, update_self] at hi
            exact (hwake hi).imp_right fun hp => .inl ⟨_, hp⟩
          · simp only [setInput, update_of_ne hip] at hi
            exact .inr (.inl ⟨i, hi⟩)
        · exact .inr (.inr hended)
      rcases hbefore with harb | hbefore
      · exact .inl harb
      · exact (ha.wake hidle hbefore).imp_left hkeep

theorem handleReq (h : Inv cfg s ph) {req : Request} (hport : req.port < cfg.nbInputPort) :
    Inv cfg (s.handleReq cfg req) ph := by
  have hdue : ∀ c, enqueue s.cycle 0 s.arbiterEvent = some c → s.cycle ≤ c := fun c hc =>
    (enqueue_eq_some hc).elim (fun hc => hc ▸ le_rfl) fun hc => h.account.due c (.inl hc)
  rw [Channel.handleReq]
  split_ifs with hfull
  · have harrive := h.arrive req [] ((s.inputs req.port).deniedReqs ++ [s.reqs.length]) (s.inputs req.port).pendingSize
      s.arbiterEvent hport rfl (by simp)
      (fun _ => hfull.elim (h.input req.port).backlog .inl) (fun c hc => h.account.due c (.inl hc)) id
      fun hp => .inr (by rwa [append_nil] at hp)
    rw [append_nil] at harrive
    exact harrive
  · have hdenied : (s.inputs req.port).deniedReqs = [] := by
      by_contra hne
      exact hfull (.inl hne)
    have hsize : (s.arrive req).size s.reqs.length = req.size := by simp [Channel.size, Channel.arrive]
    exact h.arrive req [s.reqs.length] (s.inputs req.port).deniedReqs _ (enqueue s.cycle 0 s.arbiterEvent) hport
      (by rw [hdenied]; rfl) (by rw [map_singleton, hsize, sum_singleton]; rfl) (by simp [hdenied]) hdue
      (fun _ => enqueue_ne_none)
      fun _ => .inl enqueue_ne_none

theorem refill_spec (cfg : Config) (size : Nat → Nat) : ∀ (denied pending : List Nat) (bytes : BitVec 32), ∃ moved rest,
    moved ++ rest = denied ∧
    refill cfg size denied pending bytes = (rest, pending ++ moved, bytes + BitVec.ofNat 32 (moved.map size).sum) ∧
    (rest ≠ [] → cfg.maxPending ≤ (bytes + BitVec.ofNat 32 (moved.map size).sum).toInt)
  | [], pending, bytes => ⟨[], [], rfl, by simp [refill], nofun⟩
  | req :: denied, pending, bytes => by
    by_cases hroom : bytes.toInt < cfg.maxPending
    · obtain ⟨moved, rest, hdenied, hrefill, hfull⟩ :=
        refill_spec cfg size denied (pending ++ [req]) (bytes + BitVec.ofNat 32 (size req))
      have hsum : bytes + BitVec.ofNat 32 (size req) + BitVec.ofNat 32 (moved.map size).sum =
          bytes + BitVec.ofNat 32 ((req :: moved).map size).sum := by
        rw [map_cons, sum_cons, BitVec.ofNat_add, BitVec.add_assoc]
      rw [hsum] at hrefill hfull
      refine ⟨req :: moved, rest, by rw [cons_append, hdenied], ?_, hfull⟩
      rw [refill, if_pos hroom, hrefill, append_assoc]
      rfl
    · refine ⟨[], req :: denied, rfl, ?_, fun _ => ?_⟩
      · rw [refill, if_neg hroom]
        simp
      · simpa using hroom

variable (h : Inv cfg s ph)
include h

theorem refill (hpc : s.pc ≠ .idle) : Inv cfg (s.refillInput cfg i) ph ∧
    (((s.refillInput cfg i).inputs i).deniedReqs ≠ [] →
      cfg.maxPending ≤ ((s.refillInput cfg i).inputs i).pendingSize.toInt) := by
  obtain ⟨moved, rest, hdenied, hrefill, hfull⟩ :=
    refill_spec cfg s.size (s.inputs i).deniedReqs (s.inputs i).pendingReqs (s.inputs i).pendingSize
  have ha := h.account
  rw [refillInput, hrefill]
  simp only [setInput, update_self]
  refine ⟨⟨fun j => ?_, h.links.frame rfl rfl (fun j => ?_) fun j req reqs hcons => ?_,
    { ha with wake := fun hidle => (hpc hidle).elim }⟩, hfull⟩
  · by_cases hj : j = i
    · subst hj
      refine (h.input j).grow moved [] ?_ ?_ ?_ ?_ ?_ ?_ ?_ (append_nil _).symm rfl rfl rfl
        (fun _ _ => rfl) (fun _ _ => ⟨rfl, rfl⟩) (by simp)
      all_goals simp only [update_self]
      · rw [hdenied, append_nil]
      · rfl
      · exact fun hrest => .inl (hfull hrest)
    · exact (h.input j).frame (update_of_ne hj _ _) rfl rfl rfl rfl (fun _ _ => rfl) fun _ _ => ⟨rfl, rfl⟩
  · simp only [update_apply]
    split
    · rw [‹j = i›]
    · rfl
  · simp only [update_apply]
    split
    · subst j
      exact ⟨reqs ++ moved, by rw [hcons]; rfl⟩
    · exact ⟨reqs, hcons⟩

theorem finish (req : Nat) (inFlight ended : List Nat) (hreq : req ∈ s.inFlight ++ s.endedReqs)
    (hcount : ∀ r, s.inFlight.count r + s.endedReqs.count r = inFlight.count r + ended.count
      r + if r = req then 1 else 0)
    (hpc : s.pc = .idle → ended ≠ [] → s.endedReqs ≠ []) :
    Inv cfg ({ s with inFlight := inFlight, endedReqs := ended }.handleReqEnd req) ph := by
  have ha := h.account
  obtain ⟨i, hacc, hport⟩ := ha.owed req hreq
  have hkept : ∀ r ∈ inFlight ++ ended, r ≠ req ∧ r ∈ s.inFlight ++ s.endedReqs := fun r hr => by
    have hpos := count_pos_iff.2 hr
    rw [count_append] at hpos
    constructor
    · -- it has been accepted once
      rintro rfl
      have honce := nodup_iff_count_le_one.1 ha.once r
      have hcr := ha.count r
      have hfin := hcount r
      rw [if_pos rfl] at hfin
      omega
    · have hfin := hcount r
      rw [← count_pos_iff, count_append]
      omega
  refine ⟨fun j => ?_, h.links.frame rfl rfl (fun _ => rfl) fun _ _ rest hcons => ⟨rest, hcons⟩,
    { ha with count := fun r => ?_, owed := fun r hr => ?_, answered := fun x hx => ?_, wake :=
      fun hidle hwaiting => ha.wake hidle (hwaiting.imp_right (hpc hidle)) }⟩
  · exact (h.input j).frame rfl rfl rfl rfl rfl (fun _ _ => rfl) fun r hr =>
      ⟨update_of_ne (h.ne_of_accepted hacc hr) _ _, rfl⟩
  · have hcr := ha.count r
    have hfin := hcount r
    simp only [handleReqEnd, map_append, map_cons, map_nil, count_append, count_singleton,
      beq_iff_eq, @eq_comm _ req r]
    omega
  · obtain ⟨hne, hr⟩ := hkept r hr
    obtain ⟨k, hk, hpk⟩ := ha.owed r hr
    refine ⟨k, hk, ?_⟩
    change portOf (update s.args req _ r) = _
    rw [update_of_ne hne]
    exact hpk
  · rcases mem_append.1 hx with hx | hx
    · exact ha.answered x hx
    · obtain rfl := mem_singleton.1 hx
      exact ⟨i, hport, hacc⟩

/-! ## The front of an input -/

theorem lock (hcons : (s.inputs i).pendingReqs = req :: rest) (hlock : s.lockMapping cfg i req = some t) :
    Inv cfg t ph ∧ (t.inputs i).arbitrationLock = true ∧ (t.inputs i).pendingReqs = req :: rest ∧
      (t.inputs i).stalled = (s.inputs i).stalled ∧ t.pc = s.pc := by
  by_cases hlocked : (s.inputs i).arbitrationLock = true
  · rw [lockMapping, if_pos hlocked] at hlock
    cases hlock
    exact ⟨h, hlocked, hcons, rfl, rfl⟩
  · rw [lockMapping, if_neg hlocked] at hlock
    have hfree : (s.inputs i).arbitrationLock = false := Bool.eq_false_iff.2 hlocked
    have hph : ph i = .free := by
      by_contra hne
      exact hlocked ((h.input i).busy hne).2
    split at hlock
    · rename_i out hout
      rw [ite_none_right_eq_some] at hlock
      obtain ⟨-, hlock⟩ := hlock
      cases hlock
      have hl := h.links
      have ha := h.account
      refine ⟨⟨fun j => ?_, ⟨fun o' j => ?_, fun o' hst => ?_, fun j hst => ?_, hl.granting, fun k j r hcall => ?_,
        hl.sending, fun o' j r hcall => ?_⟩, { ha with owed := fun r hr => ?_, wake := fun hidle hwaiting => ?_ }⟩,
          ?_, ?_, ?_, rfl⟩
      · by_cases hj : j = i
        · subst hj
          exact (h.input j).lockFront hcons hfree hout (fun r hr => update_of_ne hr _ _)
            ((h.input j).queue_nodup ha)
        · exact (h.input j).frame (update_of_ne hj _ _) rfl rfl rfl rfl (fun _ _ => rfl) fun r hr =>
            ⟨update_of_ne (h.ne_of_queue hj (head_mem_queue hcons) hr) _ _, rfl⟩
      all_goals simp only [setInput]
      · by_cases hj : j = i
        · subst hj
          rw [hl.elected, hph]
          simp
        · rw [update_of_ne hj]
          exact hl.elected o' j
      · have hne : (s.entries o').stalledPort ≠ i := fun he => by
          have hstalled := (hl.stalled o' hst).1
          rw [he, hph] at hstalled
          cases hstalled
        rw [update_of_ne hne]
        exact hl.stalled o' hst
      · have hne : j ≠ i := fun he => by
          rw [he, hph] at hst
          cases hst
        rw [update_of_ne hne]
        exact hl.stalledOut j hst
      · have hne : j ≠ i := fun he => by
          have hgranting := (hl.granting j).2 ⟨k, r, hcall⟩
          rw [he, hph] at hgranting
          cases hgranting
        rw [update_of_ne hne]
        exact hl.grantingFront k j r hcall
      · have hne : j ≠ i := fun he => by
          have hsending := (hl.sending j).2 ⟨o', r, hcall⟩
          rw [he, hph] at hsending
          cases hsending
        rw [update_of_ne hne]
        exact hl.sendingFront o' j r hcall
      · obtain ⟨k, hacc, hport⟩ := ha.owed r hr
        refine ⟨k, hacc, ?_⟩
        rw [update_of_ne (h.ne_of_accepted hacc (head_mem_queue hcons)).symm]
        exact hport
      · refine ha.wake hidle (hwaiting.imp_left fun _ => ⟨i, by rw [hcons]; exact cons_ne_nil _ _⟩)
      · rw [update_self]
      · rw [update_self]
        exact hcons
      · rw [update_self]
    · cases hlock

theorem elect {k : Nat} (hpc : s.pc.calling = false)
    (hcons : (s.inputs current).pendingReqs = req :: rest) (hlock : (s.inputs current).arbitrationLock = true)
    (hrun : (s.inputs current).stalled = false) : ∃ ph', Inv cfg (s.elect cfg k current req) ph' := by
  rw [Channel.elect]
  simp only
  split_ifs with hfree
  · obtain ⟨hout, hrunning⟩ := hfree
    have hl := h.links
    have ha := h.account
    obtain ⟨hgranting, hsending⟩ := Pc.calling_eq_false hpc
    have hph : ph current = .free := by
      cases hphase : ph current with
      | free => rfl
      | granting =>
        obtain ⟨k', r, he⟩ := (hl.granting current).1 hphase
        exact (hgranting k' current r he).elim
      | elected =>
        rw [(hl.elected _ current).2 ⟨.inr hphase, rfl⟩] at hout
        cases hout
      | sending =>
        obtain ⟨o', r, he⟩ := (hl.sending current).1 hphase
        exact (hsending o' current r he).elim
      | stalled =>
        rw [(h.input current).stalled.2 hphase] at hrun
        cases hrun
    have hkeep : ∀ j, j ≠ current → update ph current .granting j = ph j := fun j hj => update_of_ne hj _ _
    have hentry : ∀ o', (update s.entries (s.inputs current).pendingMapping
        { s.entries (s.inputs current).pendingMapping with electedInput := some current } o').stalled =
          (s.entries o').stalled ∧
        (update s.entries (s.inputs current).pendingMapping
          { s.entries (s.inputs current).pendingMapping with electedInput := some current } o').stalledPort =
          (s.entries o').stalledPort := fun o' => by
      rw [update_apply]
      split
      · rw [‹o' = _›]
        exact ⟨rfl, rfl⟩
      · exact ⟨rfl, rfl⟩
    refine ⟨update ph current .granting, ⟨fun j => ?_, ⟨fun o' j => ?_, fun o' hst => ?_, fun j hst => ?_, fun j => ?_,
      fun k' j r hcall => ?_, fun j => ?_, nofun⟩, { ha with grantedPorts := fun x hx => ?_, wake := nofun }⟩⟩
    · by_cases hj : j = current
      · subst hj
        rw [update_self]
        exact ((hph ▸ h.input j).elect hcons hlock).frame rfl rfl rfl rfl rfl (fun _ _ => rfl) fun _ _ => ⟨rfl, rfl⟩
      · rw [hkeep j hj]
        refine (h.input j).frame rfl rfl rfl (onLane_concat_ne ?_ _ _) rfl (fun _ _ => rfl) fun _ _ => ⟨rfl, rfl⟩
        rw [(h.input current).queued req (by rw [hcons, hph]; exact mem_cons_self)]
        exact fun he => hj (Option.some.inj he).symm
    all_goals try simp only [setEntry]
    · by_cases ho : o' = (s.inputs current).pendingMapping
      · subst ho
        rw [update_self]
        by_cases hj : j = current
        · subst hj
          simp
        · rw [hkeep j hj, ← hl.elected, hout]
          simp [Ne.symm hj]
      · rw [update_of_ne ho, hl.elected]
        by_cases hj : j = current
        · subst hj
          rw [hph]
          simp [Ne.symm ho]
        · rw [hkeep j hj]
    · rw [(hentry o').2]
      have hstalled := hl.stalled o' ((hentry o').1 ▸ hst)
      rw [hkeep _ fun he => by rw [he, hph] at hstalled; cases hstalled.1]
      exact hstalled
    · have hj : j ≠ current := fun he => by rw [he, update_self] at hst; cases hst
      rw [hkeep j hj] at hst
      rw [(hentry _).1, (hentry _).2]
      exact hl.stalledOut j hst
    · by_cases hj : j = current
      · subst hj
        simp
      · rw [hkeep j hj, hl.granting]
        refine iff_of_false (fun ⟨k', r, he⟩ => hgranting k' j r he) fun ⟨k', r, he⟩ => hj ?_
        injection he with _ he
        exact he.symm
    · injection hcall with _ hj hr
      subst hj hr
      exact ⟨rest, hcons⟩
    · by_cases hj : j = current
      · subst hj
        simp
      · rw [hkeep j hj, hl.sending]
        exact iff_of_false (fun ⟨o', r, he⟩ => hsending o' j r he) nofun
    · rcases mem_append.1 hx with hx | hx
      · exact ha.grantedPorts x hx
      · obtain rfl := mem_singleton.1 hx
        rw [(h.input current).queued req (by rw [hcons, hph]; exact mem_cons_self)]
        nofun
  · exact ⟨ph, h.quiet hpc rfl h.account.due nofun⟩

theorem count {k : Nat} (hpc : s.pc = .granting k current req) :
    ∃ ph', Inv cfg (s.grantReturn cfg k current req) ph' := by
  have hl := h.links
  have ha := h.account
  obtain ⟨rest, hcons⟩ := hl.grantingFront k current req hpc
  have hph : ph current = .granting := (hl.granting current).2 ⟨k, req, hpc⟩
  have hkeep : ∀ j, j ≠ current → update ph current .elected j = ph j := fun j hj => update_of_ne hj _ _
  have honly : ∀ j, j ≠ current → ph j ≠ .granting ∧ ph j ≠ .sending := fun j hj => by
    rw [Ne, hl.granting, Ne, hl.sending, hpc]
    constructor <;> rintro ⟨_, _, he⟩ <;> cases he
    exact hj rfl
  have hmapping : ∀ j, ((s.grantReturn cfg k current req).inputs j).pendingMapping =
    (s.inputs j).pendingMapping := fun j => by
    simp only [grantReturn, setInput, update_apply]
    split
    · rw [‹j = _›]
    · rfl
  refine ⟨update ph current .elected, ⟨fun j => ?_, ⟨fun o' j => ?_, fun o' hst => ?_, fun j hst => ?_, fun j => ?_,
    by rintro _ _ _ ⟨⟩, fun j => ?_, by rintro _ _ _ ⟨⟩⟩, { ha with wake := fun he => by cases he }⟩⟩
  · by_cases hj : j = current
    · subst hj
      rw [update_self]
      exact ((hph ▸ h.input j).count hcons).frame rfl rfl rfl rfl rfl (fun _ _ => rfl) fun _ _ => ⟨rfl, rfl⟩
    · rw [hkeep j hj]
      exact (h.input j).frame (update_of_ne hj _ _) rfl rfl rfl rfl (fun _ _ => rfl) fun _ _ => ⟨rfl, rfl⟩
  · rw [hmapping]
    refine (hl.elected o' j).trans ?_
    by_cases hj : j = current
    · subst hj
      rw [update_self, hph]
      simp
    · rw [hkeep j hj]
  · rw [hmapping]
    have hstalled := hl.stalled o' hst
    refine ⟨(hkeep _ fun he => ?_).trans hstalled.1, hstalled.2⟩
    have hphase := hstalled.1
    rw [show (s.entries o').stalledPort = current from he, hph] at hphase
    cases hphase
  · rw [hmapping]
    have hj : j ≠ current := fun he => by rw [he, update_self] at hst; cases hst
    exact hl.stalledOut j (hkeep j hj ▸ hst)
  · refine iff_of_false (fun he => ?_) (by rintro ⟨_, _, ⟨⟩⟩)
    by_cases hj : j = current
    · rw [hj, update_self] at he
      cases he
    · exact (honly j hj).1 (hkeep j hj ▸ he)
  · refine iff_of_false (fun he => ?_) (by rintro ⟨_, _, ⟨⟩⟩)
    by_cases hj : j = current
    · rw [hj, update_self] at he
      cases he
    · exact (honly j hj).2 (hkeep j hj ▸ he)

theorem elected_at_output (hpc : s.pc.calling = false) (helected : (s.entries o).electedInput = some current) :
    ph current = .elected ∧ (s.inputs current).pendingMapping = o := by
  obtain ⟨hphase, hmapping⟩ := (h.links.elected o current).1 helected
  refine ⟨hphase.resolve_left fun hgranting => ?_, hmapping⟩
  obtain ⟨k, req, he⟩ := (h.links.granting current).1 hgranting
  exact (Pc.calling_eq_false hpc).1 k current req he

theorem send {next : Nat} (hpc : s.pc.calling = false) (helected : (s.entries o).electedInput = some i)
    (hrun : (s.entries o).stalled = false) (hcons : (s.inputs i).pendingReqs = req :: rest)
    (hbacklog : (s.inputs i).deniedReqs ≠ [] → cfg.maxPending ≤ (s.inputs i).pendingSize.toInt) :
    Inv cfg { s.setEntry o { s.entries o with electedInput := none, nextBurstCycle := next } with
      args := update s.args req (((s.respPort req).elim (.other 0) .port) :: s.args req)
      respPort := update s.respPort req none
      sent := s.sent ++ [(i, o, req)]
      pc := .sending o i req } (update ph i .sending) := by
  have hl := h.links
  have ha := h.account
  obtain ⟨hgranting, hsending⟩ := Pc.calling_eq_false hpc
  obtain ⟨hph, hmapping⟩ := h.elected_at_output hpc helected
  have hkeep : ∀ j, j ≠ i → update ph i .sending j = ph j := fun j hj => update_of_ne hj _ _
  have hentry : ∀ o', (update s.entries o { s.entries o with electedInput := none, nextBurstCycle := next }
    o').stalled =
      (s.entries o').stalled ∧
      (update s.entries o { s.entries o with electedInput := none, nextBurstCycle := next } o').stalledPort =
      (s.entries o').stalledPort := fun o' => by
    rw [update_apply]
    split
    · rw [‹o' = _›]
      exact ⟨rfl, rfl⟩
    · exact ⟨rfl, rfl⟩
  refine ⟨fun j => ?_, ⟨fun o' j => ?_, fun o' hst => ?_, fun j hst => ?_, fun j => ?_, nofun, fun j => ?_,
    fun o' j r hcall => ?_⟩, { ha with owed := fun r hr => ?_, wake := nofun }⟩
  · by_cases hj : j = i
    · subst hj
      rw [update_self]
      exact ((hph ▸ h.input j).send hcons hbacklog ((h.input j).queue_nodup ha)).frame rfl rfl rfl rfl
        (by rw [hmapping])
        (fun _ _ => rfl) fun _ _ => ⟨rfl, rfl⟩
    · have hne := fun r (hr : r ∈ s.queue j) => h.ne_of_queue hj (head_mem_queue hcons) hr
      rw [hkeep j hj]
      exact (h.input j).frame rfl rfl rfl rfl (onLane_concat_ne (Ne.symm hj) _ _) (fun _ _ => rfl) fun r hr =>
        ⟨update_of_ne (hne r hr) _ _, update_of_ne (hne r hr) _ _⟩
  all_goals try simp only [setEntry]
  · by_cases ho : o' = o
    · subst ho
      rw [update_self]
      refine iff_of_false nofun fun ⟨hphase, hto⟩ => ?_
      by_cases hj : j = i
      · rw [hj, update_self] at hphase
        cases hphase <;> contradiction
      · rw [hkeep j hj] at hphase
        rw [(hl.elected o' j).2 ⟨hphase, hto⟩] at helected
        exact hj (Option.some.inj helected)
    · rw [update_of_ne ho, hl.elected]
      by_cases hj : j = i
      · subst hj
        rw [hmapping]
        simp [Ne.symm ho]
      · rw [hkeep j hj]
  · rw [(hentry o').2]
    have hstalled := hl.stalled o' ((hentry o').1 ▸ hst)
    rw [hkeep _ fun he => by rw [he, hph] at hstalled; cases hstalled.1]
    exact hstalled
  · have hj : j ≠ i := fun he => by rw [he, update_self] at hst; cases hst
    rw [hkeep j hj] at hst
    rw [(hentry _).1, (hentry _).2]
    exact hl.stalledOut j hst
  · refine iff_of_false (fun he => ?_) nofun
    by_cases hj : j = i
    · rw [hj, update_self] at he
      cases he
    · obtain ⟨k, r, he⟩ := (hl.granting j).1 (hkeep j hj ▸ he)
      exact hgranting k j r he
  · by_cases hj : j = i
    · subst hj
      simp
    · rw [hkeep j hj, hl.sending]
      refine iff_of_false (fun ⟨o', r, he⟩ => hsending o' j r he) fun ⟨o', r, he⟩ => hj ?_
      injection he with _ he
      exact he.symm
  · injection hcall with ho hj hr
    subst ho hj hr
    exact ⟨⟨rest, hcons⟩, hmapping, (hentry o).1.trans hrun⟩
  · obtain ⟨k, hacc, hport⟩ := ha.owed r hr
    refine ⟨k, hacc, ?_⟩
    rw [update_of_ne (h.ne_of_accepted hacc (head_mem_queue hcons)).symm]
    exact hport

theorem deny (hpc : s.pc = .sending o i req) :
    Inv cfg ((({ s with pc := .send (o + 1) }).setEntry o
      { s.entries o with stalled := true, stalledPort := i }).setInput i
      { s.inputs i with stalled := true }) (update ph i .stalled) := by
  have hl := h.links
  have ha := h.account
  obtain ⟨⟨rest, hcons⟩, hmapping, hrun⟩ := hl.sendingFront o i req hpc
  have hph : ph i = .sending := (hl.sending i).2 ⟨o, req, hpc⟩
  have hkeep : ∀ j, j ≠ i → update ph i .stalled j = ph j := fun j hj => update_of_ne hj _ _
  have honly : ∀ j, j ≠ i → ph j ≠ .granting ∧ ph j ≠ .sending := fun j hj => by
    rw [Ne, hl.granting, Ne, hl.sending, hpc]
    constructor <;> rintro ⟨_, _, he⟩ <;> cases he
    exact hj rfl
  have hto : ∀ j, (update s.inputs i { s.inputs i with stalled := true } j).pendingMapping =
      (s.inputs j).pendingMapping := fun j => by
    rw [update_apply]
    split
    · rw [‹j = _›]
    · rfl
  refine ⟨fun j => ?_, ⟨fun o' j => ?_, fun o' hst => ?_, fun j hst => ?_, fun j => ?_, by rintro _ _ _ ⟨⟩,
    fun j => ?_, by rintro _ _ _ ⟨⟩⟩, { ha with wake := fun he => by cases he }⟩
  · by_cases hj : j = i
    · subst hj
      rw [update_self]
      exact ((hph ▸ h.input j).deny rfl).frame rfl rfl rfl rfl rfl (fun _ _ => rfl) fun _ _ => ⟨rfl, rfl⟩
    · rw [hkeep j hj]
      exact (h.input j).frame (update_of_ne hj _ _) rfl rfl rfl rfl (fun _ _ => rfl) fun _ _ => ⟨rfl, rfl⟩
  all_goals simp only [setEntry, setInput, hto] at *
  · have hsame : (update s.entries o { s.entries o with stalled := true, stalledPort := i } o').electedInput =
        (s.entries o').electedInput := by
      rw [update_apply]
      split
      · rw [‹o' = _›]
      · rfl
    rw [hsame, hl.elected]
    by_cases hj : j = i
    · subst hj
      rw [hph]
      simp
    · rw [hkeep j hj]
  · by_cases ho : o' = o
    · subst ho
      rw [update_self, update_self]
      exact ⟨rfl, hmapping⟩
    · rw [update_of_ne ho] at hst ⊢
      have hstalled := hl.stalled o' hst
      rw [hkeep _ fun he => by rw [he, hph] at hstalled; cases hstalled.1]
      exact hstalled
  · by_cases hj : j = i
    · subst hj
      rw [hmapping, update_self]
      exact ⟨rfl, rfl⟩
    · rw [hkeep j hj] at hst
      have hstalled := hl.stalledOut j hst
      rw [update_of_ne fun ho => by rw [ho, hrun] at hstalled; cases hstalled.1]
      exact hstalled
  · refine iff_of_false (fun he => ?_) (by rintro ⟨_, _, ⟨⟩⟩)
    by_cases hj : j = i
    · rw [hj, update_self] at he
      cases he
    · exact (honly j hj).1 (hkeep j hj ▸ he)
  · refine iff_of_false (fun he => ?_) (by rintro ⟨_, _, ⟨⟩⟩)
    by_cases hj : j = i
    · rw [hj, update_self] at he
      cases he
    · exact (honly j hj).2 (hkeep j hj ▸ he)

/-- The front of an input that has been sent leaves; the output that had denied it, if any, is free again. -/
theorem pop (entries : Nat → OutputPort) (pc : Pc) (inFlight ended : List Nat) (hph : (ph i).sent = 1)
    (hcons : (s.inputs i).pendingReqs = req :: rest)
      (helected : ∀ o, (entries o).electedInput = (s.entries o).electedInput)
    (hstalled : ∀ o, ((entries o).stalled = true ↔ (s.entries o).stalled = true ∧ (s.entries o).stalledPort ≠ i) ∧
      (entries o).stalledPort = (s.entries o).stalledPort)
    (hpc : ∀ j, j ≠ i → (∀ k r, pc = .granting k j r ↔ s.pc = .granting k j r) ∧
      ∀ o r, pc = .sending o j r ↔ s.pc = .sending o j r) (hleft : ∀ k o r, pc ≠ .granting k i r ∧ pc ≠ .sending o i r)
    (hidle : pc = .idle → s.pc = .idle)
    (hcount : ∀ r, inFlight.count r + ended.count r = s.inFlight.count r + s.endedReqs.count r +
      if r = req then 1 else 0) :
    Inv cfg { s with
      inputs := update s.inputs i
        { s.inputs i with pendingReqs := rest, arbitrationLock := false, stalled := false }
      entries := entries
      pc := pc
      accepted := s.accepted ++ [(i, req)]
      inFlight := inFlight
      endedReqs := ended } (update ph i .free) := by
  have hl := h.links
  have ha := h.account
  have hi := h.input i
  have hwaits := head_mem_queue hcons
  have hkeep : ∀ j, j ≠ i → update ph i .free j = ph j := fun j hj => update_of_ne hj _ _
  have hto : ∀ j, (update s.inputs i
      { s.inputs i with pendingReqs := rest, arbitrationLock := false, stalled := false } j).pendingMapping =
      (s.inputs j).pendingMapping := fun j => by
    rw [update_apply]
    split
    · rw [‹j = _›]
    · rfl
  have hphase : ¬(ph i = .granting ∨ ph i = .elected) := by
    rintro (he | he) <;> rw [he] at hph <;> cases hph
  refine ⟨fun j => ?_, ⟨fun o' j => ?_, fun o' hst => ?_, fun j hst => ?_, fun j => ?_,
    fun k j r hcall => ?_, fun j => ?_,
    fun o' j r hcall => ?_⟩, ⟨ha.numbers, ha.ports, ha.grantedPorts, fun r => ?_, fun r hr => ?_,
      fun x hx => ?_, ?_, ha.due,
    fun hp _ => ha.wake (hidle hp) (.inl ⟨i, by rw [hcons]; exact cons_ne_nil _ _⟩)⟩⟩
  · by_cases hj : j = i
    · subst hj
      rw [update_self]
      exact (hi.pop hph hcons).frame (update_self ..) rfl rfl rfl rfl (fun _ _ => rfl) fun _ _ => ⟨rfl, rfl⟩
    · rw [hkeep j hj]
      exact (h.input j).frame (update_of_ne hj _ _) rfl (onLane_concat_ne (Ne.symm hj) _ _) rfl rfl (fun _ _ => rfl)
        fun _ _ => ⟨rfl, rfl⟩
  all_goals simp only [hto]
  · rw [helected, hl.elected]
    by_cases hj : j = i
    · subst hj
      rw [update_self]
      simp [hphase]
    · rw [hkeep j hj]
  · obtain ⟨hst, hne⟩ := (hstalled o').1.1 hst
    rw [(hstalled o').2, hkeep _ hne]
    exact hl.stalled o' hst
  · have hj : j ≠ i := fun he => by rw [he, update_self] at hst; cases hst
    rw [hkeep j hj] at hst
    obtain ⟨hst, hport⟩ := hl.stalledOut j hst
    exact ⟨(hstalled _).1.2 ⟨hst, fun he => hj (hport.symm.trans he)⟩, (hstalled _).2.trans hport⟩
  · by_cases hj : j = i
    · subst hj
      rw [update_self]
      exact iff_of_false nofun fun ⟨k, r, he⟩ => (hleft k 0 r).1 he
    · rw [hkeep j hj, hl.granting]
      simp only [(hpc j hj).1]
  · have hj : j ≠ i := fun he => (hleft k 0 r).1 (he ▸ hcall)
    rw [update_of_ne hj]
    exact hl.grantingFront k j r (((hpc j hj).1 k r).1 hcall)
  · by_cases hj : j = i
    · subst hj
      rw [update_self]
      exact iff_of_false nofun fun ⟨o', r, he⟩ => (hleft 0 o' r).2 he
    · rw [hkeep j hj, hl.sending]
      simp only [(hpc j hj).2]
  · have hj : j ≠ i := fun he => (hleft 0 o' r).2 (he ▸ hcall)
    obtain ⟨hfront, hmapping, hrun⟩ := hl.sendingFront o' j r (((hpc j hj).2 o' r).1 hcall)
    rw [update_of_ne hj]
    refine ⟨hfront, hmapping, Bool.eq_false_iff.2 fun hst => ?_⟩
    rw [((hstalled o').1.1 hst).1] at hrun
    cases hrun
  · have hcr := ha.count r
    have hnew := hcount r
    simp only [map_append, map_cons, map_nil, count_append, count_singleton, beq_iff_eq,
      @eq_comm _ req r]
    omega
  · by_cases hreq : r = req
    · subst hreq
      exact ⟨i, mem_append_right _ (mem_singleton_self _), hi.front hph r rest hcons⟩
    · have hpos : 0 < (inFlight ++ ended).count r := count_pos_iff.2 hr
      have hnew := hcount r
      rw [if_neg hreq] at hnew
      rw [count_append] at hpos
      have hmem : r ∈ s.inFlight ++ s.endedReqs := by
        rw [← count_pos_iff, count_append]
        omega
      obtain ⟨k, hacc, hport⟩ := ha.owed r hmem
      exact ⟨k, mem_append_left _ hacc, hport⟩
  · obtain ⟨k, hk, hacc⟩ := ha.answered x hx
    exact ⟨k, hk, mem_append_left _ hacc⟩
  · rw [map_append, map_cons, map_nil, nodup_append]
    refine ⟨ha.once, nodup_singleton _, fun r hr r' hr' he => ?_⟩
    rw [mem_singleton.1 hr'] at he
    obtain ⟨⟨k, r₀⟩, hacc, hr₀⟩ := List.mem_map.1 hr
    exact h.ne_of_accepted hacc hwaits (hr₀.trans he).symm

/-! ## A step -/

theorem visitInput {k : Nat} (hpc : s.pc = .arbiter k current)
    (hstep : s.visitInput cfg k current = some t) : ∃ ph', Inv cfg t ph' := by
  have hcalling : s.pc.calling = false := by rw [hpc]; rfl
  have hskip : Inv cfg { s with pc := .arbiter (k + 1) (nextInput cfg current) } ph :=
    h.quiet hcalling rfl h.account.due nofun
  rw [Channel.visitInput] at hstep
  split_ifs at hstep with hready
  · split at hstep
    · rename_i req rest hcons
      obtain ⟨u, hlock, rfl⟩ := map_eq_some_iff.1 hstep
      obtain ⟨hu, hlocked, hfront, hstalled, hsame⟩ := h.lock hcons hlock
      exact hu.elect (by rw [hsame, hpc]; rfl) hfront hlocked (hstalled.trans hready.2)
    · cases hstep
      exact ⟨ph, hskip⟩
  · cases hstep
    exact ⟨ph, hskip⟩

theorem visitOutput (hpc : s.pc = .send o) : ∃ ph', Inv cfg (s.visitOutput cfg o) ph' := by
  have hcalling : s.pc.calling = false := by rw [hpc]; rfl
  rw [Channel.visitOutput]
  simp only
  split_ifs with hready
  · split
    · rename_i i helected
      obtain ⟨hu, hfull⟩ := h.refill (i := i) (by rw [hpc]; nofun)
      split
      · rename_i req rest hcons
        exact ⟨_, hu.send hcalling helected hready.1 hcons hfull⟩
      · exact ⟨ph, hu.quiet hcalling rfl hu.account.due nofun⟩
    · exact ⟨ph, h.quiet hcalling rfl h.account.due nofun⟩
  · exact ⟨ph, h.quiet hcalling rfl h.account.due nofun⟩

theorem sent (inFlight ended : List Nat) (hpc : s.pc = .sending o i req)
    (hcount : ∀ r, inFlight.count r + ended.count r = s.inFlight.count r + s.endedReqs.count r +
      if r = req then 1 else 0) :
    Inv cfg { ({ s with pc := .send (o + 1) }).handleReqGrant i with inFlight := inFlight, endedReqs := ended }
      (update ph i .free) := by
  obtain ⟨⟨rest, hcons⟩, -, -⟩ := h.links.sendingFront o i req hpc
  have hph : ph i = .sending := (h.links.sending i).2 ⟨o, req, hpc⟩
  have hrun : (s.inputs i).stalled = false := Bool.eq_false_iff.2 fun hst => by
    rw [(h.input i).stalled, hph] at hst
    cases hst
  have hpop := h.pop s.entries (.send (o + 1)) inFlight ended (by rw [hph]; rfl) hcons (fun _ => rfl)
    (fun o' => ⟨(and_iff_left_of_imp fun hst hport => ?_).symm, rfl⟩) (fun j hj => ?_)
      (fun _ _ _ => ⟨nofun, nofun⟩) nofun hcount
  · have hport : { s.inputs i with pendingReqs := rest, arbitrationLock := false, stalled := false } =
        { s.inputs i with pendingReqs := (s.inputs i).pendingReqs.tail, arbitrationLock := false } := by
      rw [hcons, ← hrun]
      rfl
    rw [hport] at hpop
    rw [handleReqGrant]
    simp only [hcons] at hpop ⊢
    exact hpop
  · have hstalled := (h.links.stalled o' hst).1
    rw [hport, hph] at hstalled
    cases hstalled
  · rw [hpc]
    refine ⟨fun _ _ => iff_of_false nofun nofun, fun _ _ => iff_of_false nofun fun he => hj ?_⟩
    injection he with _ he
    exact he.symm

theorem reqReturn {latency : Nat} {status : IoReqStatus} (hpc : s.pc = .sending o i req)
    (hstatus : status ≠ .invalid) : ∃ ph', Inv cfg (s.reqReturn o i req status latency) ph' := by
  cases status with
  | denied => exact ⟨_, h.deny hpc⟩
  | pending =>
    refine ⟨_, h.sent (s.inFlight ++ [req]) s.endedReqs hpc fun r => ?_⟩
    simp only [count_append, count_singleton, beq_iff_eq, @eq_comm _ req r]
    omega
  | ok =>
    simp only [Channel.reqReturn]
    split_ifs with hlatency
    · -- as if it had been answered later
      have hsent := h.sent (s.inFlight ++ [req]) s.endedReqs hpc fun r => by
        simp only [count_append, count_singleton, beq_iff_eq, @eq_comm _ req r]
        omega
      refine ⟨_, hsent.finish req s.inFlight s.endedReqs ?_ (fun r => ?_) nofun⟩
      · simp
      · simp only [count_append, count_singleton, beq_iff_eq, @eq_comm _ req r]
        omega
    · refine ⟨_, h.sent s.inFlight (s.endedReqs ++ [req]) hpc fun r => ?_⟩
      simp only [count_append, count_singleton, beq_iff_eq, @eq_comm _ req r]
      omega
  | invalid => exact (hstatus rfl).elim

theorem grant (hstalled : (s.entries o).stalled = true) : ∃ ph', Inv cfg (s.grant o) ph' := by
  obtain ⟨hph, hmapping⟩ := h.links.stalled o hstalled
  generalize hi : (s.entries o).stalledPort = i at hph hmapping
  have hbusy := ((h.input i).busy (by rw [hph]; simp)).1
  obtain ⟨req, rest, hcons⟩ := exists_cons_of_ne_nil hbusy
  have honly : (∀ k r, s.pc ≠ .granting k i r) ∧ ∀ o r, s.pc ≠ .sending o i r := by
    refine ⟨fun k r he => ?_, fun o r he => ?_⟩
    · have hgranting := (h.links.granting i).2 ⟨k, r, he⟩
      rw [hph] at hgranting
      cases hgranting
    · have hsending := (h.links.sending i).2 ⟨o, r, he⟩
      rw [hph] at hsending
      cases hsending
  have hpop := h.pop (update s.entries o { s.entries o with stalled := false }) s.pc (s.inFlight ++ [req]) s.endedReqs
    (by rw [hph]; rfl) hcons
    (fun o' => ?_) (fun o' => ?_) (fun _ _ => ⟨fun _ _ => Iff.rfl, fun _ _ => Iff.rfl⟩)
    (fun k o r => ⟨honly.1 k r, honly.2 o r⟩) id fun r => ?_
  · refine ⟨update ph i .free, ?_⟩
    subst hi
    rw [Channel.grant]
    simp only [setEntry, setInput, handleReqGrant, update_self, update_idem,
      hcons, head?_cons, toList_some, map_cons, map_nil, tail_cons]
    exact hpop
  · rw [update_apply]
    split
    · rw [‹o' = _›]
    · rfl
  · by_cases ho : o' = o
    · subst ho
      rw [update_self]
      exact ⟨iff_of_false (by simp) fun hst => hst.2 hi, rfl⟩
    · rw [update_of_ne ho]
      refine ⟨(and_iff_left_of_imp fun hst hport => ho ?_).symm, rfl⟩
      have hto := (h.links.stalled o' hst).2
      rw [hport, hmapping] at hto
      exact hto.symm
  · simp only [count_append, count_singleton, beq_iff_eq, @eq_comm _ req r]
    omega

theorem endFsm (hpc : s.pc.calling = false) (hports : ∀ i, (s.inputs i).pendingReqs ≠ [] → i < cfg.nbInputPort) :
    Inv cfg (s.endFsm cfg) ph := by
  have hdue : ∀ delay c, enqueue s.cycle delay s.arbiterEvent = some c ∨ s.fsmEvent = some c →
    s.cycle ≤ c := fun delay c hc =>
    hc.elim (fun hc => (enqueue_eq_some hc).elim (fun hc => by omega) fun hc => h.account.due c (.inl hc))
      fun hc => h.account.due c (.inr hc)
  rw [Channel.endFsm]
  simp only
  split_ifs with hresched hlatency
  · exact h.quiet hpc rfl (hdue 0) fun _ _ => .inl enqueue_ne_none
  · exact h.quiet hpc rfl (hdue 1) fun _ _ => .inl enqueue_ne_none
  · refine h.quiet hpc rfl h.account.due fun _ hwaiting => (hresched ?_).elim
    refine hwaiting.imp_left fun ⟨i, hi⟩ => ?_
    rw [List.any_eq_true]
    exact ⟨i, mem_range.2 (hports i hi), decide_eq_true hi⟩

theorem pending_port (hi : (s.inputs i).pendingReqs ≠ []) : i < cfg.nbInputPort := by
  obtain ⟨req, rest, hcons⟩ := exists_cons_of_ne_nil hi
  exact h.account.ports i req ((h.input i).mem_arrived (head_mem_queue hcons))

theorem step {e : Event} (he : ∀ latency, e ≠ .reqReturn .invalid latency) (hstep : s.step cfg e = some t) :
    ∃ ph', Inv cfg t ph' := by
  have hdue := h.account.due
  cases e with
  | handleReq req =>
    obtain ⟨hport, rfl⟩ := ite_some_none_eq_some.1 hstep
    exact ⟨ph, h.handleReq hport⟩
  | arbiter =>
    obtain ⟨⟨hidle, -⟩, rfl⟩ := ite_some_none_eq_some.1 hstep
    exact ⟨ph, h.quiet (by rw [hidle]; rfl) rfl (fun c hc => hdue c (.inr (hc.resolve_left nofun))) nofun⟩
  | input =>
    rw [Channel.step] at hstep
    split at hstep
    · rename_i k current hpc
      split_ifs at hstep with hk
      · exact h.visitInput hpc hstep
      · cases hstep
        refine ⟨ph, h.quiet (by rw [hpc]; rfl) rfl (fun c hc => ?_) fun _ _ => .inr enqueue_ne_none⟩
        rcases hc with hc | hc
        · exact hdue c (.inl hc)
        · rcases enqueue_eq_some hc with hc | hc
          · exact hc ▸ Nat.le_add_right _ _
          · exact hdue c (.inr hc)
    · cases hstep
  | grantReturn =>
    rw [Channel.step] at hstep
    split at hstep
    · cases hstep
      exact h.count ‹_›
    · cases hstep
  | fsm =>
    obtain ⟨⟨hidle, -⟩, rfl⟩ := ite_some_none_eq_some.1 hstep
    exact ⟨ph, h.quiet (by rw [hidle]; rfl) rfl (fun c hc => hdue c (.inl (hc.resolve_right nofun))) nofun⟩
  | ended =>
    rw [Channel.step] at hstep
    split at hstep
    · rename_i req rest hpc hended
      cases hstep
      refine ⟨ph, h.finish req s.inFlight rest (by rw [hended]; simp) (fun r => ?_) fun hidle => ?_⟩
      · simp only [hended, count_cons, beq_iff_eq, @eq_comm _ req r]
        omega
      · rw [hpc] at hidle
        cases hidle
    · cases hstep
  | endedDone =>
    obtain ⟨hpc, rfl⟩ := ite_some_none_eq_some.1 hstep
    exact ⟨ph, h.quiet (by rw [hpc]; rfl) rfl hdue nofun⟩
  | output =>
    rw [Channel.step] at hstep
    split at hstep
    · rename_i o hpc
      cases hstep
      split_ifs with ho
      · exact h.visitOutput hpc
      · exact ⟨ph, h.endFsm (by rw [hpc]; rfl) fun i hi => h.pending_port hi⟩
    · cases hstep
  | reqReturn status latency =>
    rw [Channel.step] at hstep
    split at hstep
    · cases hstep
      exact h.reqReturn ‹_› fun hstatus => he latency (by rw [hstatus])
    · cases hstep
  | grant o =>
    obtain ⟨hstalled, rfl⟩ := ite_some_none_eq_some.1 hstep
    exact h.grant hstalled
  | response req =>
    obtain ⟨hreq, rfl⟩ := ite_some_none_eq_some.1 hstep
    refine ⟨ph, h.finish req (s.inFlight.erase req) s.endedReqs (mem_append_left _ hreq) (fun r => ?_)
      fun _ => id⟩
    have hpos := count_pos_iff.2 hreq
    rw [count_erase]
    by_cases hr : r = req
    · subst hr
      simp
      omega
    · simp [hr, Ne.symm hr]

theorem tick (hstep : s.tick = some t) : Inv cfg t ph := by
  obtain ⟨⟨hidle, harbiter, hfsm⟩, rfl⟩ := ite_some_none_eq_some.1 hstep
  have hpc : s.pc.calling = false := by rw [hidle]; rfl
  refine h.quiet hpc hpc (fun c hc => (h.account.due c hc).lt_of_ne ?_) h.account.wake
  rintro rfl
  exact hc.elim harbiter hfsm

end Inv

end GvsocPulp.MempoolXbar
