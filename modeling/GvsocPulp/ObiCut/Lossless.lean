import GvsocPulp.ObiCut.Cut

/-!
# The cut loses nothing

`Inv flight s` says where the granted requests of a channel are: what has been sent is a prefix of what has been taken,
and each request that has been sent is answered, pending, or in `flight` between the slave and one of the two. What the
slave has answered is returned in its order. One lemma for each function of the cut; `flight` is empty between events.
-/

namespace GvsocPulp.ObiCut

open Function List Nat Cut

variable {access : Access} {s' : Cut} {e : Event}

namespace Cut

def onChannel (ch : Channel) (accesses : List Access) : List Access :=
    accesses.filter fun a => channelOf a.up.opcode == ch

structure Inv (flight : List Access) (s : Cut) : Prop where
  taken : ∀ ch, s.taken ch = (s.sent ch).map (·.1) ++ s.reqQueue ch
  ready : ∀ ch, ∀ a ∈ s.taken ch, a.ready = a.taken + 1 ∧ channelOf a.up.opcode = ch ∧ a.down = downOf a.up ∧
    a.id < s.nextId
  ids : ∀ ch, (s.taken ch).Pairwise (·.id < ·.id)
  sent : ∀ ch, ∀ p ∈ s.sent ch, p.1.ready ≤ p.2 ∧ p.2 ≤ s.cycle
  pending : ∀ ch, ((s.sent ch).map (·.1)).Perm ((s.answered ch).map (·.access) ++ onChannel ch (s.pending ++ flight))
  answered : ∀ ch, s.answered ch = (s.returned ch).map (·.1) ++ s.respQueue ch
  resp : ∀ ch, ∀ r ∈ s.answered ch, r.resp = respOf r.access r.answer ∧ r.answered + 1 ≤ r.ready
  returned : ∀ ch, ∀ p ∈ s.returned ch, p.1.ready ≤ p.2 ∧ p.2 ≤ s.cycle
  room : ∀ ch, (s.reqQueue ch).length ≤ depth
  denied : ∀ ch, s.inDenied ch = true → (s.reqQueue ch).length = depth
  told : ∀ ch, (s.told ch).getLast? = some .denied → s.inDenied ch = true

variable {cfg : Config} {env : Env} {s : Cut} {flight : List Access} {ch : Channel}

/-! ## The functions -/

/-- `schedule` sets the event and nothing else. -/
theorem schedule_eq (s : Cut) : ∃ event, s.schedule = { s with fsmEvent := event } := by
  unfold schedule
  split
  · exact ⟨s.fsmEvent, rfl⟩
  · exact ⟨_, rfl⟩

/-- The event is not part of the invariant. -/
theorem Inv.schedule (h : Inv flight s) : Inv flight s.schedule := by
  obtain ⟨event, heq⟩ := s.schedule_eq
  rw [heq]
  exact { h with }

structure KeepsResponses (s t : Cut) : Prop where
  cycle : t.cycle = s.cycle
  respQueue : t.respQueue = s.respQueue
  upDenied : t.upDenied = s.upDenied
  returned : t.returned = s.returned

theorem KeepsResponses.refl (s : Cut) : KeepsResponses s s := ⟨rfl, rfl, rfl, rfl⟩

theorem KeepsResponses.trans {s t u : Cut} (h : KeepsResponses s t) (h' : KeepsResponses t u) : KeepsResponses s u :=
  ⟨h'.cycle.trans h.cycle, h'.respQueue.trans h.respQueue, h'.upDenied.trans h.upDenied, h'.returned.trans h.returned⟩

/-- A request leaves the responses as they are. -/
theorem keeps_inReq (cfg : Config) (s : Cut) (req : IoReq) : KeepsResponses s (s.inReq cfg req).2 := by
  simp only [inReq]
  split_ifs
  · exact ⟨rfl, rfl, rfl, rfl⟩
  · exact ⟨rfl, rfl, rfl, rfl⟩
  · obtain ⟨event, heq⟩ := schedule_eq { s with
      reqQueue := update s.reqQueue (channelOf req.opcode) (s.reqQueue (channelOf req.opcode) ++
        [{ id := s.nextId, up := req, down := downOf req, taken := s.cycle, ready := s.cycle + 1 }])
      nextId := s.nextId + 1
      taken := update s.taken (channelOf req.opcode) (s.taken (channelOf req.opcode) ++
        [{ id := s.nextId, up := req, down := downOf req, taken := s.cycle, ready := s.cycle + 1 }]) }
    rw [heq]
    exact ⟨rfl, rfl, rfl, rfl⟩

theorem keeps_inReqs (cfg : Config) (s : Cut) (reqs : List IoReq) : KeepsResponses s (s.inReqs cfg reqs) := by
  induction reqs generalizing s with
  | nil => exact KeepsResponses.refl s
  | cons req reqs ih => exact (keeps_inReq cfg s req).trans (ih _)

/-- A request is denied where its queue is full, and otherwise taken. -/
theorem Inv.inReq (h : Inv flight s) (req : IoReq) : Inv flight (s.inReq cfg req).2 := by
  simp only [Cut.inReq]
  split_ifs with hfull hbeat
  · have hlen : (s.reqQueue (channelOf req.opcode)).length = depth := (h.room _).antisymm hfull
    refine { h with denied := fun ch hch => ?_, told := fun ch hch => ?_ }
    · by_cases hc : ch = channelOf req.opcode
      · rw [hc]
        exact hlen
      · exact h.denied ch (by simpa only [update_of_ne hc] using hch)
    · by_cases hc : ch = channelOf req.opcode
      · rw [hc]
        exact update_self ..
      · simp only [update_of_ne hc] at hch ⊢
        exact h.told ch hch
  · exact h
  · refine Inv.schedule { h with taken := ?_, ready := ?_, ids := ?_, room := ?_, denied := ?_ }
    · intro ch
      by_cases hc : ch = channelOf req.opcode
      · subst hc
        simp [h.taken]
      · simp only [update_of_ne hc, h.taken]
    · intro ch a ha
      by_cases hc : ch = channelOf req.opcode
      · subst hc
        simp only [update_self] at ha
        rcases mem_append.1 ha with ha | ha
        · obtain ⟨hr, hch, hdown, hid⟩ := h.ready _ a ha
          exact ⟨hr, hch, hdown, lt_succ_of_lt hid⟩
        · obtain rfl := mem_singleton.1 ha
          exact ⟨rfl, rfl, rfl, lt_succ_self _⟩
      · simp only [update_of_ne hc] at ha
        obtain ⟨hr, hch, hdown, hid⟩ := h.ready ch a ha
        exact ⟨hr, hch, hdown, lt_succ_of_lt hid⟩
    · intro ch
      by_cases hc : ch = channelOf req.opcode
      · subst hc
        simp only [update_self]
        refine pairwise_append.2 ⟨h.ids _, pairwise_singleton .., fun a ha b hb => ?_⟩
        obtain rfl := mem_singleton.1 hb
        exact (h.ready _ a ha).2.2.2
      · simp only [update_of_ne hc]
        exact h.ids ch
    · intro ch
      by_cases hc : ch = channelOf req.opcode
      · subst hc
        simp only [update_self, length_append]
        exact succ_le_of_lt (not_le.1 hfull)
      · simp only [update_of_ne hc]
        exact h.room ch
    · intro ch hch
      by_cases hc : ch = channelOf req.opcode
      · subst hc
        exact absurd (h.denied _ hch).symm.le hfull
      · simp only [update_of_ne hc]
        exact h.denied ch hch

/-- The requests that the master makes inside its retry. -/
theorem Inv.inReqs (h : Inv flight s) (reqs : List IoReq) : Inv flight (s.inReqs cfg reqs) := by
  induction reqs generalizing s with
  | nil => exact h
  | cons req reqs ih => exact ih (h.inReq req)

/-- A request in flight is answered, and its response queued. -/
theorem Inv.respond (h : Inv (access :: flight) s) (answer : Answer) (latency : Nat) :
    Inv flight (s.respond cfg access answer latency) := by
  refine Inv.schedule { h with pending := ?_, answered := ?_, resp := ?_ }
  · intro ch
    refine (h.pending ch).trans ?_
    by_cases hc : ch = channelOf access.up.opcode
    · subst hc
      have hperm : (onChannel (channelOf access.up.opcode) (s.pending ++ access :: flight)).Perm
          (access :: onChannel (channelOf access.up.opcode) (s.pending ++ flight)) := by
        have hmid : (s.pending ++ access :: flight).Perm (access :: (s.pending ++ flight)) := perm_middle
        have hf := hmid.filter fun a => channelOf a.up.opcode == channelOf access.up.opcode
        rwa [filter_cons_of_pos (by simp)] at hf
      simp only [update_self, map_append, map_cons, map_nil, append_assoc, singleton_append]
      exact hperm.append_left _
    · have hne : (channelOf access.up.opcode == ch) = false := beq_false_of_ne (Ne.symm hc)
      simp only [update_of_ne hc, onChannel, filter_append, filter_cons, hne]
      exact List.Perm.refl _
  · intro ch
    by_cases hc : ch = channelOf access.up.opcode
    · subst hc
      simp [h.answered]
    · simp only [update_of_ne hc, h.answered]
  · intro ch r hr
    by_cases hc : ch = channelOf access.up.opcode
    · subst hc
      simp only [update_self] at hr
      rcases mem_append.1 hr with hr | hr
      · exact h.resp _ r hr
      · obtain rfl := mem_singleton.1 hr
        exact ⟨rfl, by simp only; omega⟩
    · simp only [update_of_ne hc] at hr
      exact h.resp ch r hr

section

variable (h : Inv flight s)
include h

/-- The slave takes the first request: it is in flight, and a retry may make room for more. -/
theorem Inv.accepted {rest : List Access} (hq : s.reqQueue ch = access :: rest)
    (hready : access.ready ≤ s.cycle) : Inv (access :: flight) (s.accepted cfg env ch access rest) := by
  have hmem : access ∈ s.taken ch := by
    rw [h.taken ch, hq]
    exact mem_append_right _ mem_cons_self
  have hch : channelOf access.up.opcode = ch := (h.ready ch access hmem).2.1
  have hrest : rest.length < depth := by
    have := h.room ch
    rw [hq, length_cons] at this
    exact this
  -- The state without the retry: the head is in flight.
  have hpop : Inv (access :: flight) { s with
      reqQueue := update s.reqQueue ch rest
      sent := update s.sent ch (s.sent ch ++ [(access, s.cycle)])
      inDenied := update s.inDenied ch false
      told := update s.told ch (s.told ch ++ [.retry]) } := by
    refine { h with taken := ?_, sent := ?_, pending := ?_, room := ?_, denied := ?_, told := ?_ }
    · intro c
      by_cases hc : c = ch
      · subst hc
        simp [h.taken, hq]
      · simp only [update_of_ne hc, h.taken]
    · intro c p hp
      by_cases hc : c = ch
      · subst hc
        simp only [update_self] at hp
        rcases mem_append.1 hp with hp | hp
        · exact h.sent _ p hp
        · obtain rfl := mem_singleton.1 hp
          exact ⟨hready, le_rfl⟩
      · simp only [update_of_ne hc] at hp
        exact h.sent c p hp
    · intro c
      have hcons : (s.pending ++ access :: flight).Perm (access :: (s.pending ++ flight)) := perm_middle
      have hmid := hcons.filter fun a => channelOf a.up.opcode == c
      by_cases hc : c = ch
      · subst hc
        rw [filter_cons_of_pos (by simp [hch])] at hmid
        simp only [update_self, map_append, map_cons, map_nil]
        refine ((h.pending c).append_right [access]).trans ?_
        rw [append_assoc]
        exact (perm_append_singleton access _).trans hmid.symm |>.append_left _
      · have hne : (channelOf access.up.opcode == c) = false := by
          rw [hch]
          exact beq_false_of_ne (Ne.symm hc)
        rw [filter_cons_of_neg (by simp [hne])] at hmid
        simp only [update_of_ne hc]
        exact (h.pending c).trans (hmid.symm.append_left _)
    · intro c
      by_cases hc : c = ch
      · subst hc
        simp only [update_self]
        exact hrest.le
      · simp only [update_of_ne hc]
        exact h.room c
    · intro c hden
      have hc : c ≠ ch := by
        rintro rfl
        simp only [update_self] at hden
        cases hden
      simp only [update_of_ne hc] at hden ⊢
      exact h.denied c hden
    · intro c htold
      have hc : c ≠ ch := by
        rintro rfl
        simp only [update_self, getLast?_append] at htold
        cases htold
      simp only [update_of_ne hc] at htold ⊢
      exact h.told c htold
  simp only [Cut.accepted]
  split_ifs with hden
  · exact hpop.inReqs _
  · have hden : s.inDenied ch = false := Bool.eq_false_iff.2 hden
    refine { hpop with denied := fun c hd => ?_, told := h.told }
    have hc : c ≠ ch := by
      rintro rfl
      rw [hden] at hd
      cases hd
    simp only [update_of_ne hc]
    exact h.denied c hd

/-- The first request of a channel is sent once it is ready. -/
theorem Inv.sendDown : Inv flight (s.sendDown cfg env ch) := by
  unfold Cut.sendDown
  split
  · exact h
  · rename_i access rest hq
    split_ifs with hwait
    · exact h
    · have hready : access.ready ≤ s.cycle := not_lt.1 fun hlt => hwait (.inr hlt)
      split
      · exact { h with }
      · exact (h.accepted hq hready).respond _ _
      · have hacc : Inv (access :: flight) (s.accepted cfg env ch access rest) := h.accepted hq hready
        refine { hacc with pending := fun c => ?_ }
        have hp := hacc.pending c
        simpa using hp

/-- The slave answers a pending request. -/
theorem Inv.outResp {id : Nat} {answer : Answer} (hs : s.outResp cfg id answer = some s') :
    Inv flight s' := by
  unfold Cut.outResp at hs
  split at hs
  · cases hs
  · rename_i access hfind
    cases hs
    have hmem : access ∈ s.pending := mem_of_find?_eq_some hfind
    have hmid : (s.pending ++ flight).Perm (s.pending.erase access ++ access :: flight) :=
      ((perm_cons_erase hmem).append_right flight).trans perm_middle.symm
    have herase : Inv (access :: flight) { s with pending := s.pending.erase access } :=
      { h with pending := fun c => (h.pending c).trans ((hmid.filter _).append_left _) }
    exact herase.respond answer 0

/-- The first response of a channel is returned once it is ready. -/
theorem Inv.sendUp : Inv flight (s.sendUp cfg env ch) := by
  unfold Cut.sendUp
  split
  · exact h
  · rename_i response rest hq
    split_ifs with hwait hden
    · exact h
    · exact { h.inReqs _ with }
    · have hready : response.ready ≤ s.cycle := not_lt.1 fun hlt => hwait (.inr hlt)
      have hinv : Inv flight (s.inReqs cfg (env.inResp ch)) := h.inReqs _
      have hkeeps := keeps_inReqs cfg s (env.inResp ch)
      refine { hinv with answered := fun c => ?_, returned := fun c p hp => ?_ }
      · have hans := hinv.answered c
        rw [hkeeps.respQueue] at hans
        rcases eq_or_ne c ch with rfl | hc
        · simp only [update_self, map_append, map_cons, map_nil, append_assoc,
            singleton_append]
          rw [hans, hq]
        · simp only [update_of_ne hc, hans, hkeeps.respQueue]
      · rcases eq_or_ne c ch with rfl | hc
        · simp only [update_self] at hp
          rcases mem_append.1 hp with hp | hp
          · exact hinv.returned _ p hp
          · obtain rfl := mem_singleton.1 hp
            exact ⟨by rwa [hkeeps.cycle], le_rfl⟩
        · simp only [update_of_ne hc] at hp
          exact hinv.returned c p hp

/-- The slave lets a denied channel go on, and its first request is sent again. -/
theorem Inv.retryDown (channel : RetryChannel) (ch : Channel) :
    Inv flight (s.retryDown cfg channel env ch) := by
  unfold Cut.retryDown
  split_ifs
  · have hclear : Inv flight { s with downDenied := update s.downDenied ch false } := { h with }
    exact hclear.sendDown
  · exact h

/-- The master lets a denied channel go on, and its first response is returned again. -/
theorem Inv.retryUp (channel : RetryChannel) (ch : Channel) :
    Inv flight (s.retryUp cfg channel env ch) := by
  unfold Cut.retryUp
  split_ifs
  · have hclear : Inv flight { s with upDenied := update s.upDenied ch false } := { h with }
    exact hclear.sendUp
  · exact h

/-- The handler sends on both channels, in both directions. -/
theorem Inv.fsmHandler (env : Env) : Inv flight (s.fsmHandler cfg env) := by
  have hclear : Inv flight { s with fsmEvent := none } := { h with }
  exact hclear.sendUp.sendDown.sendUp.sendDown.schedule

end

/-- Every event of the cut keeps the invariant. -/
theorem Inv.step (h : Inv [] s) (hs : s.step cfg e = some s') : Inv [] s' := by
  cases e with
  | inReq req =>
    cases hs
    exact h.inReq req
  | outResp id answer => exact h.outResp hs
  | outRetry channel env =>
    cases hs
    exact ((h.retryDown channel .read).retryDown channel .write).schedule
  | inRespRetry channel env =>
    cases hs
    exact ((h.retryUp channel .read).retryUp channel .write).schedule
  | fsm env =>
    simp only [step] at hs
    split_ifs at hs
    cases hs
    exact h.fsmHandler env
  | tick =>
    simp only [step] at hs
    split_ifs at hs
    cases hs
    exact { h with sent := fun ch p hp => ⟨(h.sent ch p hp).1, le_succ_of_le (h.sent ch p hp).2⟩
                   returned := fun ch p hp => ⟨(h.returned ch p hp).1, le_succ_of_le (h.returned ch p hp).2⟩ }

/-! ## The handler wakes up -/

/-- The event of the handler is for `cycle` at the latest. -/
def WakesBy (s : Cut) (cycle : Nat) : Prop := ∃ due ∈ s.fsmEvent, due ≤ cycle

/-- A head that is not denied has the handler by the cycle it is ready, or in the next one. -/
structure Wakes (s : Cut) : Prop where
  down : ∀ ch, ∀ access ∈ (s.reqQueue ch).head?, s.downDenied ch = false → s.WakesBy (max access.ready (s.cycle + 1))
  up : ∀ ch, ∀ response ∈ (s.respQueue ch).head?, s.upDenied ch = false → s.WakesBy (max response.ready (s.cycle + 1))

theorem foldl_min_le (need : Nat) (needs : List Nat) : ∀ n ∈ need :: needs, needs.foldl min need ≤ n := by
  induction needs generalizing need with
  | nil =>
    intro n hn
    exact (mem_singleton.1 hn).symm.le
  | cons m needs ih =>
    intro n hn
    rw [foldl_cons]
    rcases mem_cons.1 hn with rfl | hn
    · exact (ih _ _ mem_cons_self).trans (min_le_left ..)
    · rcases mem_cons.1 hn with rfl | hn
      · exact (ih _ _ mem_cons_self).trans (min_le_right ..)
      · exact ih _ _ (mem_cons_of_mem _ hn)

theorem schedule_wakesBy {n : Nat} (hn : n ∈ s.needs) : s.schedule.WakesBy (max n (s.cycle + 1)) := by
  unfold schedule
  split
  · rename_i hnil
    rw [hnil] at hn
    cases hn
  · rename_i need needs hneeds
    rw [hneeds] at hn
    have hle := foldl_min_le need needs n hn
    cases hevent : s.fsmEvent with
    | none =>
      refine ⟨_, rfl, ?_⟩
      split_ifs <;> omega
    | some due =>
      refine ⟨_, rfl, ?_⟩
      split_ifs <;> omega

theorem schedule_wakes (s : Cut) : s.schedule.Wakes := by
  obtain ⟨event, heq⟩ := s.schedule_eq
  constructor
  · intro ch access ha hden
    have hmem : access.ready ∈ s.needs := by
      rw [heq] at ha hden
      have ha : (s.reqQueue ch).head? = some access := ha
      have hden : s.downDenied ch = false := hden
      refine mem_flatMap.2 ⟨ch, by cases ch <;> decide, mem_append_left _ ?_⟩
      simp [ha, hden]
    have := schedule_wakesBy hmem
    rwa [show s.schedule.cycle = s.cycle by rw [heq]]
  · intro ch response hr hden
    have hmem : response.ready ∈ s.needs := by
      rw [heq] at hr hden
      have hr : (s.respQueue ch).head? = some response := hr
      have hden : s.upDenied ch = false := hden
      refine mem_flatMap.2 ⟨ch, by cases ch <;> decide, mem_append_right _ ?_⟩
      simp [hr, hden]
    have := schedule_wakesBy hmem
    rwa [show s.schedule.cycle = s.cycle by rw [heq]]

/-- After every event, what is queued has an event that looks at it. -/
theorem Wakes.step (h : s.Wakes) (hs : s.step cfg e = some s') : s'.Wakes := by
  cases e with
  | inReq req =>
    cases hs
    simp only [inReq]
    split_ifs
    · exact ⟨h.down, h.up⟩
    · exact h
    · exact schedule_wakes _
  | outResp id answer =>
    simp only [step, outResp] at hs
    split at hs
    · cases hs
    · cases hs
      exact schedule_wakes _
  | outRetry channel env =>
    cases hs
    exact schedule_wakes _
  | inRespRetry channel env =>
    cases hs
    exact schedule_wakes _
  | fsm env =>
    simp only [step] at hs
    split_ifs at hs
    cases hs
    exact schedule_wakes _
  | tick =>
    simp only [step] at hs
    split_ifs at hs
    cases hs
    refine ⟨fun ch access ha hden => ?_, fun ch response hr hden => ?_⟩
    · obtain ⟨due, hdue, hle⟩ := h.down ch access ha hden
      exact ⟨due, hdue, hle.trans (by simp only; omega)⟩
    · obtain ⟨due, hdue, hle⟩ := h.up ch response hr hden
      exact ⟨due, hdue, hle.trans (by simp only; omega)⟩

end Cut

end GvsocPulp.ObiCut
