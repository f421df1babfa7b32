import GvsocPulp.ObiCut.Rate

/-!
# The cut as a spill register

`SpillRegister` is what the cut promises of each of its states. Everything but the rate holds in every run; the rate
breaks exactly where a channel is served twice in a cycle, by a retry and by the handler or by two retries.
-/

namespace GvsocPulp.ObiCut

open List

namespace Cut

/-- The cut has lost nothing, the handler will look at what waits, and a channel has forwarded once per cycle. -/
structure SpillRegister (s : Cut) : Prop where
  lossless : Inv [] s
  wakes : s.Wakes
  rate : s.Rate

theorem inv_init : Inv [] {} where
  taken _ := rfl
  ready _ _ h := nomatch h
  ids _ := Pairwise.nil
  sent _ _ h := nomatch h
  pending _ := List.Perm.refl _
  answered _ := rfl
  resp _ _ h := nomatch h
  returned _ _ h := nomatch h
  room _ := Nat.zero_le _
  denied _ h := nomatch h
  told _ h := nomatch h

theorem wakes_init : Wakes {} := ⟨fun _ _ h => (nomatch h), fun _ _ h => (nomatch h)⟩

theorem rate_init : Rate {} := fun _ => ⟨Pairwise.nil, Pairwise.nil⟩

variable {cfg : Config} {s s' : Cut} {e : Event}

/-- An event keeps the rate iff it serves no channel for the second time in the cycle. -/
theorem rate_step_iff (hinv : Inv [] s) (hrate : s.Rate) (hs : s.step cfg e = some s') :
    s'.Rate ↔ s.FirstOfCycle e := by
  refine forall_congr' fun ch => and_congr ?_ ?_
  · exact (step_sends cfg hs).pairwise_iff (hrate ch).1 fun p hp => (hinv.sent ch p hp).2
  · exact (step_returns cfg hs).pairwise_iff (hrate ch).2 fun p hp => (hinv.returned ch p hp).2

/-- In every run, nothing is lost and the handler wakes up; the rate is kept in all states iff no event serves a channel
that has been served in its cycle. -/
theorem spillRegister_iff (cfg : Config) (es : List Event) :
    Lib.AllStates (step cfg) (fun s => Inv [] s ∧ s.Wakes) {} es ∧
      (Lib.AllStates (step cfg) SpillRegister {} es ↔ Lib.AllSteps (step cfg) FirstOfCycle {} es) := by
  constructor
  · refine Lib.allStates_of_allSteps (I := fun s => Inv [] s ∧ s.Wakes) (P := fun _ _ => True) (fun s h => h) ?_
      ⟨inv_init, wakes_init⟩ (Lib.allSteps_of_forall fun _ _ => trivial)
    intro s e s' h _ hs
    exact ⟨h.1.step hs, h.2.step hs⟩
  · refine Lib.allStates_iff (I := SpillRegister) (fun s h => h) ?_ ?_ ⟨inv_init, wakes_init, rate_init⟩
    · intro s e s' h hs
      rw [← rate_step_iff h.lossless h.rate hs]
      exact ⟨fun h' => h'.rate, fun hrate => ⟨h.lossless.step hs, h.wakes.step hs, hrate⟩⟩
    · intro s e s' _ _ h'
      exact h'

/-- A read is denied in cycle 1 and retried in cycle 2, in which the handler is due for a write: it sends a second read.
-/
def twoReads : List Event :=
  let read := { opcode := .read, addr := 0, size := 4 }
  [.inReq read, .tick, .inReq read, .inReq { opcode := .write, addr := 4, size := 4 },
    .fsm { slave := fun _ => .denied }, .tick, .outRetry .any {}, .fsm {}]

theorem not_spillRegister_twoReads :
    ¬ ∀ cfg es, Lib.AllStates (step cfg) SpillRegister {} es := by
  intro hall
  have hcycles : ((Lib.run (step { width := 4, respLatency := 0 }) {} twoReads).map fun s => (s.sent .read).map (·.2)) =
      some [2, 2] := by decide
  obtain ⟨s, hrun, hsent⟩ := Option.map_eq_some_iff.1 hcycles
  have hrate := ((hall { width := 4, respLatency := 0 } twoReads).final hrun).rate .read
  have hlt : ((s.sent .read).map (·.2)).Pairwise (· < ·) := pairwise_map.2 hrate.1
  rw [hsent] at hlt
  exact absurd hlt (by decide)

end Cut

end GvsocPulp.ObiCut
