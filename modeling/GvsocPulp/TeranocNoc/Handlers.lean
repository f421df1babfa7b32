import GvsocPulp.TeranocNoc.Visits

/-!
# A run of a handler

A handler takes steps of the network (`fsmHandler_goes`), and if it takes none, no head of its router is free
(`fsmHandler_still`).
-/

namespace GvsocPulp.TeranocNoc

open List Router

variable {e : Entry} {rest : List Entry}

theorem Net.Inv.steps {cfg : Config} {n n' : Net} (hinv : n.Inv cfg) (h : Relation.ReflTransGen (Net.Step cfg) n n') :
    n'.Inv cfg := by
  induction h with
  | refl => exact hinv
  | tail _ hstep ih => exact ih.step hstep

namespace Noc

variable {cfg : Config} {s s' s'' : Noc} {p : Pos} {d : Dir} {q : Queue}

/-! ## Handlers -/

/-- What a handler, or a part of it, does. -/
structure Goes (cfg : Config) (s s' : Noc) : Prop where
  keeps : Keeps cfg s s'
  steps : Relation.ReflTransGen (Net.Step cfg) s.net s'.net
  hops_le : hops cfg s'.net.queues ≤ hops cfg s.net.queues

/-- Only events have changed. -/
def Still (s s' : Noc) : Prop := ∃ event, s' = { s with fsmEvent := event }

theorem Goes.refl (cfg : Config) (s : Noc) : Goes cfg s s := ⟨Keeps.refl cfg s, .refl, le_rfl⟩

theorem Goes.trans (h : Goes cfg s s') (h' : Goes cfg s' s'') : Goes cfg s s'' :=
  ⟨h.keeps.trans h'.keeps, h.steps.trans h'.steps, h'.hops_le.trans h.hops_le⟩

theorem Goes.inv (h : Goes cfg s s') (hinv : s.net.Inv cfg) : s'.net.Inv cfg := hinv.steps h.steps

theorem goes_enqueueFsm (cfg : Config) (s : Noc) (p : Pos) : Goes cfg s (s.enqueueFsm p) :=
  ⟨keeps_enqueueFsm cfg s p, .refl, le_rfl⟩

theorem Still.trans (h : Still s s') (h' : Still s' s'') : Still s s'' := by
  obtain ⟨event, rfl⟩ := h
  obtain ⟨event', rfl⟩ := h'
  exact ⟨event', rfl⟩

theorem advanceHead_goes (hinv : s.net.Inv cfg) (h : s.queues (.input p d) = e :: rest)
    (hroom : (s.queues (.output p (route p e.req.dest))).length < cfg.queueSize) :
    Goes cfg s (s.advanceHead cfg p d e rest) ∧
      hops cfg (s.advanceHead cfg p d e rest).net.queues < hops cfg s.net.queues := by
  have hhead : s.net.queues (.input p d) = e.req :: rest.map Entry.req := congrArg (List.map Entry.req) h
  have hlt := hinv.hops_advance hhead
  rw [← net_advanceHead] at hlt
  refine ⟨⟨keeps_advanceHead h, .single ?_, hlt.le⟩, hlt⟩
  rw [net_advanceHead]
  exact .advance hhead (by rwa [net, length_map])

theorem sendHead_goes (hinv : s.net.Inv cfg)
    (h : s.queues (.output p d) = e :: rest) (hgo : s.stalledQueues p d = false) (deny : Bool) :
    Goes cfg s (s.sendHead cfg p d e rest deny) ∧
      hops cfg (s.sendHead cfg p d e rest deny).net.queues < hops cfg s.net.queues := by
  have hhead : s.net.queues (.output p d) = e.req :: rest.map Entry.req := congrArg (List.map Entry.req) h
  by_cases hd : d = .local
  · subst hd
    have hlt := hinv.hops_deliver hhead deny
    rw [← net_sendHead_local cfg] at hlt
    refine ⟨⟨keeps_sendHead h, .single ?_, hlt.le⟩, hlt⟩
    rw [net_sendHead_local]
    exact .deliver hhead hgo
  · have hlt := hinv.hops_forward hd hhead
    rw [← net_sendHead cfg s p e rest deny hd] at hlt
    refine ⟨⟨keeps_sendHead h, .single ?_, hlt.le⟩, hlt⟩
    rw [net_sendHead cfg s p e rest deny hd]
    exact .forward hd hhead ((senderStalled_next hd).trans hgo)

theorem sendHead_nil {deny : Bool} (h : s.queues (.output p d) = [e]) :
    (s.sendHead cfg p d e [] deny).queues (.output p d) = [] := by
  have hnet : (s.sendHead cfg p d e [] deny).net.queues (.output p d) = [] := by
    by_cases hd : d = .local
    · subst hd
      rw [net_sendHead_local]
      exact Net.deliver_queues_self
    · rw [net_sendHead cfg s p e [] deny hd]
      have hne : Queue.output p d ≠ .input (getPosFromQueue p d) d.opposite := nofun
      exact (Net.move_queues_from hne : (s.net.move cfg _ _ e.req []).queues _ = [])
  exact map_eq_nil_iff.1 hnet

theorem visitInput_goes (hinv : s.net.Inv cfg) (p : Pos) (d : Dir) (outputFull : Dir → Bool) :
    Goes cfg s (visitInput cfg p (s, outputFull) d).1 ∧
      (visitInput cfg p (s, outputFull) d).1.Scheduled (.input p d) := by
  have hcases := visitInput_cases cfg p d s outputFull
  generalize visitInput cfg p (s, outputFull) d = st at hcases ⊢
  cases hcases with
  | skip h => exact ⟨Goes.refl cfg s, fun hne => absurd h hne⟩
  | wait _ => exact ⟨goes_enqueueFsm cfg s p, scheduled_enqueueFsm rfl⟩
  | move h hroom => exact ⟨(advanceHead_goes hinv h hroom).1, scheduled_enqueueFsm rfl⟩

theorem visitInput_still (hinv : s.net.Inv cfg) {outputFull : Dir → Bool} (ht : Taken cfg p s outputFull) :
    hops cfg (visitInput cfg p (s, outputFull) d).1.net.queues < hops cfg s.net.queues ∨
      Still s (visitInput cfg p (s, outputFull) d).1 ∧
        Taken cfg p s (visitInput cfg p (s, outputFull) d).2 ∧ InputStuck cfg p s d := by
  have hcases := visitInput_cases cfg p d s outputFull
  generalize visitInput cfg p (s, outputFull) d = st at hcases ⊢
  cases hcases with
  | skip h => exact .inr ⟨⟨_, rfl⟩, ht, fun e rest heq => absurd (h.symm.trans heq) nofun⟩
  | wait h => exact .inr ⟨⟨_, rfl⟩, h ht⟩
  | move h hroom => exact .inl (advanceHead_goes hinv h hroom).2

theorem foldl_visitInput_goes (p : Pos) : ∀ (ds : List Dir) {s : Noc} (outputFull : Dir → Bool), s.net.Inv cfg →
    Goes cfg s (ds.foldl (visitInput cfg p) (s, outputFull)).1 ∧
      ∀ d ∈ ds, (ds.foldl (visitInput cfg p) (s, outputFull)).1.Scheduled (.input p d)
  | [], s, _, _ => ⟨Goes.refl cfg s, nofun⟩
  | d :: ds, s, outputFull, hinv => by
    obtain ⟨hgoes, hsched⟩ := visitInput_goes hinv p d outputFull
    obtain ⟨hrest, hscheds⟩ := foldl_visitInput_goes p ds (visitInput cfg p (s, outputFull) d).2 (hgoes.inv hinv)
    refine ⟨hgoes.trans hrest, fun d' hd => ?_⟩
    rcases mem_cons.1 hd with rfl | hd
    · exact hrest.keeps.sched _ hsched
    · exact hscheds d' hd

theorem foldl_visitInput_still (p : Pos) : ∀ (ds : List Dir) {s : Noc} (outputFull : Dir → Bool), s.net.Inv cfg →
    Taken cfg p s outputFull →
    hops cfg (ds.foldl (visitInput cfg p) (s, outputFull)).1.net.queues < hops cfg s.net.queues ∨
      Still s (ds.foldl (visitInput cfg p) (s, outputFull)).1 ∧ ∀ d ∈ ds, InputStuck cfg p s d
  | [], s, _, _, _ => .inr ⟨⟨s.fsmEvent, rfl⟩, nofun⟩
  | d :: ds, s, outputFull, hinv, ht => by
    have hgoes := (visitInput_goes hinv p d outputFull).1
    rcases visitInput_still (d := d) hinv ht with hlt | ⟨hstill, htaken, hstuck⟩
    · have hrest := (foldl_visitInput_goes p ds (visitInput cfg p (s, outputFull) d).2 (hgoes.inv hinv)).1
      exact .inl (hrest.hops_le.trans_lt hlt)
    · obtain ⟨event, heq⟩ := hstill
      have htaken' : Taken cfg p (visitInput cfg p (s, outputFull) d).1
          (visitInput cfg p (s, outputFull) d).2 := by
        rw [heq]
        exact htaken
      rcases foldl_visitInput_still p ds _ (hgoes.inv hinv) htaken' with hlt | ⟨hrest, hstucks⟩
      · exact .inl (hlt.trans_le hgoes.hops_le)
      · refine .inr ⟨Still.trans ⟨event, heq⟩ hrest, fun d' hd => ?_⟩
        rcases mem_cons.1 hd with rfl | hd
        · exact hstuck
        · have hstuck' := hstucks d' hd
          rw [heq] at hstuck'
          exact hstuck'

/-- If the head of the output queue shows, the queue is stalled. -/
def OutputStuck (p : Pos) (s : Noc) (d : Dir) : Prop :=
  ∀ e rest, s.queues (.output p d) = e :: rest → e.ready ≤ s.cycle → s.stalledQueues p d = true

theorem visitOutput_goes (hinv : s.net.Inv cfg) (p : Pos) (deny : Bool) (d : Dir) :
    Goes cfg s (visitOutput cfg p deny s d) ∧ (visitOutput cfg p deny s d).Scheduled (.output p d) := by
  have hcases := visitOutput_cases cfg p deny d s
  generalize visitOutput cfg p deny s d = st at hcases ⊢
  cases hcases with
  | skip h =>
    refine ⟨Goes.refl cfg s, fun hne hgo => ?_⟩
    rcases h with h | h
    · exact absurd h hne
    · rw [h] at hgo
      cases hgo
  | wait _ _ => exact ⟨goes_enqueueFsm cfg s p, scheduled_enqueueFsm rfl⟩
  | @move e rest h hgo =>
    have hgoes := (sendHead_goes hinv h hgo deny).1
    split_ifs with hrest
    · exact ⟨hgoes, fun hne => absurd (sendHead_nil (hrest ▸ h)) (hrest ▸ hne)⟩
    · exact ⟨hgoes.trans (goes_enqueueFsm ..), scheduled_enqueueFsm rfl⟩

theorem visitOutput_still (hinv : s.net.Inv cfg) (p : Pos) (deny : Bool) (d : Dir) :
    hops cfg (visitOutput cfg p deny s d).net.queues < hops cfg s.net.queues ∨
      Still s (visitOutput cfg p deny s d) ∧ OutputStuck p s d := by
  have hcases := visitOutput_cases cfg p deny d s
  generalize visitOutput cfg p deny s d = st at hcases ⊢
  cases hcases with
  | skip h =>
    refine .inr ⟨⟨_, rfl⟩, fun e rest heq _ => h.resolve_left fun hnil => ?_⟩
    rw [hnil] at heq
    cases heq
  | wait h hlate =>
    refine .inr ⟨⟨_, rfl⟩, fun e rest heq hready => ?_⟩
    obtain ⟨rfl, rfl⟩ := List.cons.inj (h.symm.trans heq)
    exact absurd hready hlate.not_ge
  | move h hgo =>
    have hlt := (sendHead_goes hinv h hgo deny).2
    split_ifs
    · exact .inl hlt
    · exact .inl hlt

theorem foldl_visitOutput_goes (p : Pos) (deny : Bool) : ∀ (ds : List Dir) {s : Noc}, s.net.Inv cfg →
    Goes cfg s (ds.foldl (visitOutput cfg p deny) s) ∧
      ∀ d ∈ ds, (ds.foldl (visitOutput cfg p deny) s).Scheduled (.output p d)
  | [], s, _ => ⟨Goes.refl cfg s, nofun⟩
  | d :: ds, s, hinv => by
    obtain ⟨hgoes, hsched⟩ := visitOutput_goes hinv p deny d
    obtain ⟨hrest, hscheds⟩ := foldl_visitOutput_goes p deny ds (hgoes.inv hinv)
    refine ⟨hgoes.trans hrest, fun d' hd => ?_⟩
    rcases mem_cons.1 hd with rfl | hd
    · exact hrest.keeps.sched _ hsched
    · exact hscheds d' hd

theorem foldl_visitOutput_still (p : Pos) (deny : Bool) : ∀ (ds : List Dir) {s : Noc}, s.net.Inv cfg →
    hops cfg (ds.foldl (visitOutput cfg p deny) s).net.queues < hops cfg s.net.queues ∨
      Still s (ds.foldl (visitOutput cfg p deny) s) ∧ ∀ d ∈ ds, OutputStuck p s d
  | [], s, _ => .inr ⟨⟨s.fsmEvent, rfl⟩, nofun⟩
  | d :: ds, s, hinv => by
    have hgoes := (visitOutput_goes hinv p deny d).1
    rcases visitOutput_still hinv p deny d with hlt | ⟨hstill, hstuck⟩
    · have hrest := (foldl_visitOutput_goes p deny ds (hgoes.inv hinv)).1
      exact .inl (hrest.hops_le.trans_lt hlt)
    · obtain ⟨event, heq⟩ := hstill
      rcases foldl_visitOutput_still p deny ds (hgoes.inv hinv) with hlt | ⟨hrest, hstucks⟩
      · exact .inl (hlt.trans_le hgoes.hops_le)
      · refine .inr ⟨Still.trans ⟨event, heq⟩ hrest, fun d' hd => ?_⟩
        rcases mem_cons.1 hd with rfl | hd
        · exact hstuck
        · have hstuck' := hstucks d' hd
          rw [heq] at hstuck'
          exact hstuck'

/-- A handler starts with its event taken. -/
def clearEvent (s : Noc) (p : Pos) : Noc := { s with fsmEvent := Function.update s.fsmEvent p none }

theorem mem_from (c d : Dir) : d ∈ c.from := by cases c <;> cases d <;> decide

theorem fsmHandler_eq (cfg : Config) (p : Pos) (s : Noc) (deny : Bool) : fsmHandler cfg p s deny =
    Dir.all.foldl (visitOutput cfg p deny)
      ((s.currentQueue p).from.foldl (visitInput cfg p) (s.clearEvent p, fun _ => false)).1 := rfl

theorem fsmHandler_goes (hinv : s.net.Inv cfg) (p : Pos) (deny : Bool) :
    Goes cfg (s.clearEvent p) (fsmHandler cfg p s deny) ∧
      ∀ q, q.pos = p → (fsmHandler cfg p s deny).Scheduled q := by
  rw [fsmHandler_eq]
  obtain ⟨hin, hsin⟩ := foldl_visitInput_goes (s := s.clearEvent p) p (s.currentQueue p).from (fun _ => false) hinv
  obtain ⟨hout, hsout⟩ := foldl_visitOutput_goes p deny Dir.all (hin.inv hinv)
  refine ⟨hin.trans hout, fun q hq => ?_⟩
  subst hq
  cases q with
  | input p d => exact hout.keeps.sched _ (hsin d (mem_from _ d))
  | output p d => exact hsout d d.mem_all

theorem fsmHandler_still (hinv : s.net.Inv cfg) (p : Pos) (deny : Bool) :
    hops cfg (fsmHandler cfg p s deny).net.queues < hops cfg s.net.queues ∨
      Still s (fsmHandler cfg p s deny) ∧ (∀ d, InputStuck cfg p s d) ∧ ∀ d, OutputStuck p s d := by
  rw [fsmHandler_eq]
  have hin := (foldl_visitInput_goes (s := s.clearEvent p) p (s.currentQueue p).from (fun _ => false) hinv).1
  have hout := (foldl_visitOutput_goes p deny Dir.all (hin.inv hinv)).1
  rcases foldl_visitInput_still (s := s.clearEvent p) p (s.currentQueue p).from (fun _ => false) hinv
    nofun with hlt | ⟨hstill, hstuck⟩
  · exact .inl (hout.hops_le.trans_lt hlt)
  · rcases foldl_visitOutput_still p deny Dir.all (hin.inv hinv) with hlt | ⟨hstill', hstuck'⟩
    · exact .inl (hlt.trans_le hin.hops_le)
    · refine .inr ⟨Still.trans (Still.trans ⟨_, rfl⟩ hstill) hstill', fun d => hstuck d (mem_from _ d), fun d => ?_⟩
      have hd := hstuck' d d.mem_all
      obtain ⟨event, heq⟩ := hstill
      rw [heq] at hd
      exact hd

end Noc

end GvsocPulp.TeranocNoc
