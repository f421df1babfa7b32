import GvsocPulp.SnitchIcache.L0Flush
import GvsocPulp.SnitchIcache.L1Flush

/-!
# Flushes as barriers

A fetch that is accepted after a flush of its line is answered with bytes that the refill port has read after it, in the
runs in which no flush comes between the read of a refill and its landing. There, the landing puts back the tag that the
flush has cleared (`flush_overtaken`).
-/

namespace GvsocPulp.SnitchIcache

open Lib

/-- **A flush is a barrier**, at both levels, unless a refill of the line has been read and has not landed. `flush`
sends its acknowledge and returns in the step that sets `since` for the fetches to come. -/
theorem flush_barrier (cfg : Config) (mem : BitVec 32 → Byte) :
    (∀ (es : List L0Event) (s : L0), AllSteps (L0.step cfg) (fun s e => s.settled cfg e = true) { mem := mem } es →
      run (L0.step cfg) { mem := mem } es = some s → s.Barrier) ∧
    ∀ (es : List L1Event) (s : L1), AllSteps (L1.step cfg) (fun s e => s.settled cfg e = true) { mem := mem } es →
      run (L1.step cfg) { mem := mem } es = some s → s.Barrier := by
  constructor
  · intro es s hsettled hrun
    have hinv : L0.Inv cfg s := run_inv (I := L0.Inv cfg) (fun _ _ _ h hs hstep => h.step hs hstep)
      (L0.inv_initial _) hsettled hrun
    exact hinv.traffic.barrier
  · intro es s hsettled hrun
    have hinv : L1.Inv cfg s := run_inv (I := L1.Inv cfg) (fun _ _ _ h hs hstep => h.step hs hstep)
      (L1.inv_initial _) hsettled hrun
    exact hinv.traffic.barrier

def smallCache : Config where
  lineSizeBits := 2
  lineCount := 2
  wayCount := 1
  nrFetchPorts := 1
  numAxiOutstanding := 1
  serialLookup := false
  cacheableBase := 0
  cacheableSize := 0
  lineSizeBits_pos := Nat.two_pos
  lineCount_pos := Nat.two_pos
  wayCount_pos := Nat.one_pos

/-- A flush while a refill is on its way that has not been read. -/
def flushFirst : List L0Event := [.fetch 0 4 .granted, .flush, .memory, .refillResp true, .continue .granted,
    .fetch 0 4 .granted]

def flushFirstL1 : List L1Event :=
  [.fetch 0 0 4 .granted, .tick, .lookup .granted, .flush, .memory 0, .refillResp 0 true, .continue, .continue,
    .fetch 0 0 4 .granted, .tick, .lookup .granted, .tick, .lookup .granted, .resp, .continue]

theorem flush_barrier_smallCache : (∃ s, run (L0.step smallCache) {} flushFirst = some s ∧
    s.answered.length = 2 ∧ s.Barrier) ∧ ∃ s, run (L1.step smallCache) {} flushFirstL1 = some s ∧
    s.answered.length = 2 ∧ s.Barrier := by
  constructor
  · have h : (run (L0.step smallCache) {} flushFirst).map (·.answered.length) = some 2 := by decide +kernel
    obtain ⟨s, hs, hlen⟩ := Option.map_eq_some_iff.1 h
    exact ⟨s, hs, hlen, (flush_barrier smallCache _).1 flushFirst s (by decide +kernel) hs⟩
  · have h : (run (L1.step smallCache) {} flushFirstL1).map (·.answered.length) = some 2 := by decide +kernel
    obtain ⟨s, hs, hlen⟩ := Option.map_eq_some_iff.1 h
    exact ⟨s, hs, hlen, (flush_barrier smallCache _).2 flushFirstL1 s (by decide +kernel) hs⟩

/-- A refill of the L0 is read; new code is written and the cache is flushed; the refill lands, and the line is fetched
again. -/
def overtaken : List L0Event :=
  [.fetch 0 4 .granted, .memory, .write 0 0x13, .flush, .refillResp true, .continue .granted, .fetch 0 4 .granted]

/-- **The fetch that follows the flush gets the old code.** -/
theorem flush_overtaken : ∃ s, run (L0.step smallCache) {} overtaken = some s ∧ s.mem 0 = 0x13 ∧
    s.answered.getLast? = some ⟨0, 1, [0, 0, 0, 0]⟩ ∧ ¬s.Barrier := by
  have h : (run (L0.step smallCache) {} overtaken).map (fun s => (s.mem 0, s.reqs, s.reads, s.answered)) =
      some (0x13, [⟨0, 0, 4, 0⟩, ⟨0, 0, 4, 1⟩], [⟨0, [0, 0, 0, 0]⟩], [⟨0, 0, [0, 0, 0, 0]⟩, ⟨0, 1, [0, 0, 0, 0]⟩]) := by
    decide +kernel
  obtain ⟨s, hs, hlogs⟩ := Option.map_eq_some_iff.1 h
  simp only [Prod.mk.injEq] at hlogs
  obtain ⟨hmem, hreqs, hreads, hanswered⟩ := hlogs
  refine ⟨s, hs, hmem, by rw [hanswered]; rfl, fun hbarrier => ?_⟩
  obtain ⟨r, hr, -, -, k, hk, source, hsource, -⟩ := hbarrier ⟨0, 1, [0, 0, 0, 0]⟩ (by rw [hanswered]; decide)
  rw [hreqs] at hr
  cases hr
  rw [hreads, List.getElem?_eq_none hk] at hsource
  cases hsource

end GvsocPulp.SnitchIcache
