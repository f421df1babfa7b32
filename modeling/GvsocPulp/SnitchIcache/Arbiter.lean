import GvsocPulp.Lib.RoundRobin
import GvsocPulp.SnitchIcache.L1Book

/-!
# The arbiter of the L1

The tree finds a port that requests, and the one of the pointer if it does; the pointer goes from one requesting port to
the next.

- `rrTreeWinner_requests`, `rrTreeWinner_pointer`: the tree;
- `turnsTo_nextRrQ`: the pointer;
- `Passive`, `Handled`, `step_arbiter`: what an event does to the arbiter.
-/

namespace GvsocPulp.SnitchIcache

open Lib Function List Nat Option L1

section Tree

variable {n rrQ lo hi : Nat} {req : Nat → Bool}

/-! ## The tree -/

theorem anyIn_iff : anyIn n req lo hi = true ↔ ∃ j, lo ≤ j ∧ j < hi ∧ j < n ∧ req j = true := by
  rw [anyIn, List.any_eq_true]
  constructor
  · rintro ⟨j, hj, hreq⟩
    simp only [Bool.and_eq_true, decide_eq_true_eq] at hreq
    exact ⟨j, hreq.1.1, hreq.1.2, mem_range.1 hj, hreq.2⟩
  · rintro ⟨j, hlo, hhi, hn, hreq⟩
    refine ⟨j, mem_range.2 hn, ?_⟩
    simp [hlo, hhi, hreq]

theorem rrTreeWalk_requests (rrQ : Nat) : ∀ (bit lo : Nat), anyIn n req lo (lo + 2 ^ bit) = true →
    rrTreeWalk n rrQ req bit lo < n ∧ req (rrTreeWalk n rrQ req bit lo) = true := by
  intro bit
  induction bit with
  | zero =>
    intro lo h
    obtain ⟨j, hlo, hhi, hn, hreq⟩ := anyIn_iff.1 h
    have hj : j = lo := by omega
    exact ⟨hj ▸ hn, hj ▸ hreq⟩
  | succ bit ih =>
    intro lo h
    rw [rrTreeWalk]
    obtain ⟨j, hlo, hhi, hn, hreq⟩ := anyIn_iff.1 h
    by_cases hleft : anyIn n req lo (lo + 2 ^ bit) = true
    · by_cases hright : anyIn n req (lo + 2 ^ bit) (lo + 2 * 2 ^ bit) = true
      · have hhalf : anyIn n req (lo + 2 ^ bit) (lo + 2 ^ bit + 2 ^ bit) = true := by
          rw [add_assoc, ← Nat.two_mul]
          exact hright
        split
        · exact ih _ hhalf
        · exact ih _ hleft
      · rw [hleft, Bool.eq_false_iff.2 hright, if_neg (by simp)]
        exact ih _ hleft
    · rw [Bool.eq_false_iff.2 hleft, if_pos (by simp)]
      refine ih _ (anyIn_iff.2 ⟨j, ?_, ?_, hn, hreq⟩)
      · by_contra hlt
        exact hleft (anyIn_iff.2 ⟨j, hlo, by omega, hn, hreq⟩)
      · rw [pow_succ] at hhi
        omega

theorem rrTreeWinner_requests (rrQ : Nat) (h : ∃ i < n, req i = true) :
    rrTreeWinner n rrQ req < n ∧ req (rrTreeWinner n rrQ req) = true := by
  obtain ⟨i, hi, hreq⟩ := h
  refine rrTreeWalk_requests rrQ _ 0 (anyIn_iff.2 ⟨i, zero_le i, ?_, hi, hreq⟩)
  rw [zero_add]
  exact hi.trans_le (le_pow_clog one_lt_two n)

theorem div_two_pow (a bit : Nat) : a / 2 ^ bit = 2 * (a / 2 ^ (bit + 1)) + (a.testBit bit).toNat := by
  rw [toNat_testBit, pow_succ, ← Nat.div_div_eq_div_mul]
  omega

theorem rrTreeWalk_pointer (hn : rrQ < n) (hreq : req rrQ = true) : ∀ bit,
    rrTreeWalk n rrQ req bit (rrQ / 2 ^ bit * 2 ^ bit) = rrQ := by
  intro bit
  induction bit with
  | zero => rw [rrTreeWalk, pow_zero, Nat.div_one, mul_one]
  | succ bit ih =>
    have hdiv := div_two_pow rrQ bit
    have hlt : rrQ < (rrQ / 2 ^ bit + 1) * 2 ^ bit := by
      rw [mul_comm]
      exact lt_mul_div_succ rrQ (Nat.two_pow_pos bit)
    have hle : rrQ / 2 ^ bit * 2 ^ bit ≤ rrQ := div_mul_le_self rrQ (2 ^ bit)
    have hlo : rrQ / 2 ^ (bit + 1) * 2 ^ (bit + 1) = 2 * (rrQ / 2 ^ (bit + 1)) * 2 ^ bit := by
      generalize rrQ / 2 ^ (bit + 1) = a
      rw [pow_succ, ← mul_assoc, Nat.mul_right_comm, mul_comm a 2]
    rw [rrTreeWalk, hlo]
    cases hbit : rrQ.testBit bit with
    | false =>
      rw [hbit, Bool.toNat_false, add_zero] at hdiv
      rw [← hdiv]
      have hleft : anyIn n req (rrQ / 2 ^ bit * 2 ^ bit) (rrQ / 2 ^ bit * 2 ^ bit + 2 ^ bit) = true :=
        anyIn_iff.2 ⟨rrQ, hle, by rwa [add_mul, one_mul] at hlt, hn, hreq⟩
      rw [hleft, if_neg (by simp)]
      exact ih
    | true =>
      rw [hbit, Bool.toNat_true] at hdiv
      have hnode : 2 * (rrQ / 2 ^ (bit + 1)) * 2 ^ bit + 2 ^ bit = rrQ / 2 ^ bit * 2 ^ bit := by
        rw [hdiv, add_mul, one_mul]
      have hright : anyIn n req (2 * (rrQ / 2 ^ (bit + 1)) * 2 ^ bit + 2 ^ bit)
          (2 * (rrQ / 2 ^ (bit + 1)) * 2 ^ bit + 2 * 2 ^ bit) = true := by
        refine anyIn_iff.2 ⟨rrQ, hnode ▸ hle, ?_, hn, hreq⟩
        rw [add_mul, one_mul, ← hnode] at hlt
        omega
      rw [hright, if_pos (by simp), hnode]
      exact ih

theorem rrTreeWinner_pointer (hn : rrQ < n) (hreq : req rrQ = true) : rrTreeWinner n rrQ req = rrQ := by
  have h := rrTreeWalk_pointer hn hreq (Nat.clog 2 n)
  rwa [div_eq_of_lt (hn.trans_le (le_pow_clog one_lt_two n)), zero_mul] at h

end Tree

namespace L1

variable {cfg : Config} {s t : L1} {p q : Nat}

/-! ## The pointer -/

theorem nextRrQ_spec (s : L1) {ready : Nat → Bool} (port : Nat) (hp : p < cfg.nrFetchPorts) (hready : ready p = true)
    (hrr : s.rrQ < cfg.nrFetchPorts) : ∃ k, 0 < k ∧ k ≤ cfg.nrFetchPorts ∧
      s.nextRrQ cfg ready port = (s.rrQ + k) % cfg.nrFetchPorts ∧
      ∀ j, 0 < j → j < k → (s.rrQ + j) % cfg.nrFetchPorts ≠ p := by
  have hd := turnsTo_lt hrr hp
  have hfind : (((List.range cfg.nrFetchPorts).find? fun k =>
      (s.rrQ + (k + 1)) % cfg.nrFetchPorts = port || ready ((s.rrQ + (k + 1)) % cfg.nrFetchPorts)).isSome) = true := by
    rw [find?_isSome]
    by_cases h0 : turnsTo cfg.nrFetchPorts s.rrQ p = 0
    · refine ⟨cfg.nrFetchPorts - 1, mem_range.2 (by omega), ?_⟩
      have hself := add_turnsTo hrr hp
      rw [h0, add_zero, mod_eq_of_lt hrr] at hself
      rw [Nat.sub_add_cancel (by omega), add_mod_right, mod_eq_of_lt hrr, hself, hready, Bool.or_true]
    · refine ⟨turnsTo cfg.nrFetchPorts s.rrQ p - 1, mem_range.2 (by omega), ?_⟩
      rw [Nat.sub_add_cancel (by omega), add_turnsTo hrr hp, hready, Bool.or_true]
  obtain ⟨k, hk⟩ := isSome_iff_exists.1 hfind
  have hspec := find?_range_eq_some.1 hk
  refine ⟨k + 1, succ_pos k, mem_range.1 hspec.2.1, ?_, fun j hpos hlt hj => ?_⟩
  · rw [nextRrQ, find?_map]
    change (Option.map _ (List.find? (fun k => (s.rrQ + (k + 1)) % cfg.nrFetchPorts = port ||
      ready ((s.rrQ + (k + 1)) % cfg.nrFetchPorts)) _)).getD _ = _
    rw [hk]
    rfl
  · have hnot := hspec.2.2 (j - 1) (by omega)
    rw [Nat.sub_add_cancel hpos, hj, hready, Bool.or_true] at hnot
    cases hnot

/-- **The pointer comes nearer to a port that requests**, unless it is there. -/
theorem turnsTo_nextRrQ {ready : Nat → Bool} {port : Nat} (hp : p < cfg.nrFetchPorts) (hready : ready p = true)
    (hrr : s.rrQ < cfg.nrFetchPorts) (hne : s.rrQ ≠ p) :
    turnsTo cfg.nrFetchPorts (s.nextRrQ cfg ready port) p < turnsTo cfg.nrFetchPorts s.rrQ p := by
  obtain ⟨k, hpos, hk, hnext, hpast⟩ := s.nextRrQ_spec port hp hready hrr
  have hle : k ≤ turnsTo cfg.nrFetchPorts s.rrQ p := by
    by_contra hlt
    refine hpast _ ?_ (not_le.1 hlt) (add_turnsTo hrr hp)
    refine Nat.pos_of_ne_zero fun h0 => hne ?_
    have hself := add_turnsTo hrr hp
    rwa [h0, add_zero, mod_eq_of_lt hrr] at hself
  rw [hnext, mod_of_lt_two (by omega)]
  unfold turnsTo at *
  split at hle <;> split <;> split <;> omega

theorem nextRrQ_lt {ready : Nat → Bool} {port : Nat} (hp : p < cfg.nrFetchPorts) (hready : ready p = true)
    (hrr : s.rrQ < cfg.nrFetchPorts) : s.nextRrQ cfg ready port < cfg.nrFetchPorts := by
  obtain ⟨k, -, -, hnext, -⟩ := s.nextRrQ_spec port hp hready hrr
  rw [hnext]
  exact mod_lt _ (zero_lt_of_lt hp)

/-! ## Events -/

/-- The delay of a fetch in the register of its port, and of the tags where they are read first. -/
def lookupDelay (cfg : Config) : Nat := if cfg.serialLookup then 2 else 1

/-- The port whose fetch is looked up next, if there is one. -/
def granted (cfg : Config) (s : L1) : Option Nat :=
  if anyIn cfg.nrFetchPorts s.ready 0 cfg.nrFetchPorts then
    some (s.lockedPort.getD (rrTreeWinner cfg.nrFetchPorts s.rrQ s.ready))
  else none

/-- What always holds of the arbiter: the pointer is at a port, the locked port requests, the fetches that are queued
are known and are past the register soon, and the handler is scheduled for them. -/
structure Arb (cfg : Config) (s : L1) : Prop where
  pointer : 0 < cfg.nrFetchPorts → s.rrQ < cfg.nrFetchPorts
  locked : ∀ q, s.lockedPort = some q → q < cfg.nrFetchPorts ∧ s.ready q = true
  ports : ∀ q, s.portReqs q ≠ [] → q < cfg.nrFetchPorts
  known : ∀ q, ∀ x ∈ s.portReqs q, x.req < s.reqs.length ∧ x.cycle ≤ s.cycle + lookupDelay cfg
  scheduled : s.Lookups

theorem Arb.initial (cfg : Config) (mem : BitVec 32 → Byte) : Arb cfg { mem := mem } :=
  ⟨id, nofun, fun _ hq => absurd rfl hq, fun _ _ hx => absurd hx not_mem_nil, fun _ hq => absurd rfl hq⟩

/-- The arbiter does nothing: fetches may come, or the cycle end once the lookup has been done. -/
structure Passive (cfg : Config) (s t : L1) : Prop where
  rrQ : t.rrQ = s.rrQ
  lockedPort : t.lockedPort = s.lockedPort
  reqs : s.reqs.length ≤ t.reqs.length
  portReqs : ∀ q, ∃ l, t.portReqs q = s.portReqs q ++ l ∧
    ∀ x ∈ l, q < cfg.nrFetchPorts ∧ x.req < t.reqs.length ∧ x.cycle = s.cycle + lookupDelay cfg
  scheduled : s.Lookups → t.Lookups
  clock : t.cycle = s.cycle ∧ (t.lookupEvent = some t.cycle → s.lookupEvent = some s.cycle) ∨
    t.cycle = s.cycle + 1 ∧ s.lookupEvent ≠ some s.cycle

/-- A lookup that is not taken leaves its port granted; one that is taken moves the pointer. -/
inductive Outcome (cfg : Config) (s t : L1) : Prop
  | idle (granted : granted cfg s = none) (rrQ : t.rrQ = s.rrQ) (lockedPort : t.lockedPort = s.lockedPort)
    (portReqs : t.portReqs = s.portReqs)
  | kept (q : Nat) (granted : granted cfg s = some q) (rrQ : t.rrQ = s.rrQ) (lockedPort : t.lockedPort = some q)
    (portReqs : t.portReqs = s.portReqs)
  | taken (q : Nat) (granted : granted cfg s = some q) (rrQ : t.rrQ = s.nextRrQ cfg s.ready q)
      (lockedPort : t.lockedPort = none)
    (portReqs : t.portReqs = update s.portReqs q (s.portReqs q).tail)

structure Handled (cfg : Config) (s t : L1) : Prop where
  due : s.lookupEvent = some s.cycle
  cycle : t.cycle = s.cycle
  event : t.lookupEvent ≠ some t.cycle
  reqs : t.reqs = s.reqs
  scheduled : t.Lookups
  outcome : Outcome cfg s t

theorem Arb.granted (h : Arb cfg s) (hq : granted cfg s = some q) : q < cfg.nrFetchPorts ∧ s.ready q = true := by
  rw [L1.granted, Option.ite_none_right_eq_some, Option.some.injEq] at hq
  obtain ⟨hany, hq⟩ := hq
  obtain ⟨j, -, hj, -, hready⟩ := anyIn_iff.1 hany
  subst hq
  cases hlocked : s.lockedPort with
  | none => exact rrTreeWinner_requests s.rrQ ⟨j, hj, hready⟩
  | some q => exact h.locked q hlocked

theorem lookup_frame (cfg : Config) (s : L1) (req : Nat) (r : Request) (status : RefillStatus) :
    (s.lookup cfg req r status).1.rrQ = s.rrQ ∧ (s.lookup cfg req r status).1.lockedPort = s.lockedPort ∧
      (s.lookup cfg req r status).1.cycle = s.cycle ∧ (s.lookup cfg req r status).1.lookupEvent = s.lookupEvent := by
  rw [lookup]
  split_ifs
  · exact ⟨rfl, rfl, rfl, rfl⟩
  · simp only
    split
    · exact ⟨rfl, rfl, rfl, rfl⟩
    · split
      · exact ⟨rfl, rfl, rfl, rfl⟩
      · split
        · exact ⟨rfl, rfl, rfl, rfl⟩
        · cases status <;> exact ⟨rfl, rfl, rfl, rfl⟩

theorem lookupPort_outcome (h : Arb cfg s) (hq : granted cfg s = some q) (status : RefillStatus) {u : L1}
    (hu : lookupPort cfg { s with lookupEvent := none } q status = u) :
    Outcome cfg s u ∧ u.cycle = s.cycle ∧ u.lookupEvent = none ∧ u.reqs = s.reqs := by
  have hready := (h.granted hq).2
  rw [ready] at hready
  rw [lookupPort] at hu
  cases hqueue : s.portReqs q with
  | nil =>
    rw [hqueue] at hready
    cases hready
  | cons x rest =>
    have hx := (h.known q x (by rw [hqueue]; exact mem_cons_self)).1
    rw [hqueue] at hu
    dsimp only at hu
    rw [getElem?_eq_getElem hx] at hu
    dsimp only at hu
    obtain ⟨hrr, hlocked, hcycle, hevent⟩ := lookup_frame cfg { s with lookupEvent := none } x.req s.reqs[x.req] status
    obtain ⟨hports, hreqs⟩ := Once.lookup_kept cfg { s with lookupEvent := none } x.req s.reqs[x.req] status
    split at hu <;> rename_i v hresult <;> rw [hresult] at hrr hlocked hcycle hevent hports hreqs <;> subst hu
    · refine ⟨.taken q hq ?_ rfl ?_, hcycle, hevent, hreqs⟩
      · show nextRrQ cfg v (ready s) q = s.nextRrQ cfg s.ready q
        rw [nextRrQ, nextRrQ, hrr]
      · rw [hports, hqueue, tail_cons]
    · exact ⟨.kept q hq hrr rfl hports, hcycle, hevent, hreqs⟩

theorem Outcome.congr {t' : L1} (h : Outcome cfg s t) (hrr : t'.rrQ = t.rrQ) (hlocked : t'.lockedPort = t.lockedPort)
    (hports : t'.portReqs = t.portReqs) : Outcome cfg s t' := by
  cases h with
  | idle hq hr hl hp => exact .idle hq (hrr.trans hr) (hlocked.trans hl) (hports.trans hp)
  | kept q hq hr hl hp => exact .kept q hq (hrr.trans hr) (hlocked.trans hl) (hports.trans hp)
  | taken q hq hr hl hp => exact .taken q hq (hrr.trans hr) (hlocked.trans hl) (hports.trans hp)

theorem Outcome.queued (h : Outcome cfg s t) (hne : t.portReqs q ≠ []) : s.portReqs q ≠ [] := by
  cases h with
  | idle hq hrr hlocked hports => exact hports ▸ hne
  | kept q' hq hrr hlocked hports => exact hports ▸ hne
  | taken q' hq hrr hlocked hports =>
    rw [hports, update_apply] at hne
    split at hne
    case isTrue heq => exact fun hnil => hne (by rw [← heq, hnil, tail_nil])
    case isFalse => exact hne

theorem enqueue_next {now : Nat} {event : Option Nat} (h : event ≠ some now) : enqueue now 1 event ≠ some now := by
  intro he
  rcases enqueue_eq_some he with hlt | heq
  · omega
  · exact h heq

theorem lookupHandler_handled (h : Arb cfg s) (hdue : s.lookupEvent = some s.cycle) (status : RefillStatus) :
    Handled cfg s (s.lookupHandler cfg status) := by
  have hnone : (none : Option Nat) ≠ some s.cycle := by simp
  have hempty : ∀ {u : L1}, (∀ q, u.portReqs q ≠ [] → q < cfg.nrFetchPorts) →
      ¬((List.range cfg.nrFetchPorts).any fun i => u.portReqs i ≠ []) = true → u.Lookups := by
    intro u hu hany q hq
    exact (hany (List.any_eq_true.2 ⟨q, mem_range.2 (hu q hq), decide_eq_true hq⟩)).elim
  rw [lookupHandler]
  simp only
  by_cases hany : anyIn cfg.nrFetchPorts s.ready 0 cfg.nrFetchPorts = true
  · have hq : granted cfg s = some (s.lockedPort.getD (rrTreeWinner cfg.nrFetchPorts s.rrQ s.ready)) := if_pos hany
    split
    case isTrue => exact ⟨hdue, rfl, enqueue_next hnone, rfl, Lookups.enqueueLookup _, .kept _ hq rfl rfl rfl⟩
    case isFalse =>
      change anyIn cfg.nrFetchPorts (ready { s with lookupEvent := none }) 0 cfg.nrFetchPorts = true at hany
      rw [if_pos hany]
      obtain ⟨hout, hcycle, hevent, hreqs⟩ := lookupPort_outcome h hq status rfl
      have hports : ∀ q', (lookupPort cfg { s with lookupEvent := none } (s.lockedPort.getD
          (rrTreeWinner cfg.nrFetchPorts s.rrQ s.ready)) status).portReqs q' ≠ [] → q' < cfg.nrFetchPorts :=
        fun q' hne => h.ports q' (hout.queued hne)
      split
      case isTrue =>
        refine ⟨hdue, hcycle, fun he => ?_, hreqs, Lookups.enqueueLookup _, hout.congr rfl rfl rfl⟩
        exact enqueue_next (fun hnow => by cases hevent.symm.trans hnow) he
      case isFalse hall => exact ⟨hdue, hcycle, fun he => (by cases hevent.symm.trans he), hreqs,
        hempty hports hall, hout⟩
  · have hq : granted cfg s = none := if_neg hany
    rw [if_neg fun hblock => hany hblock.1]
    change ¬anyIn cfg.nrFetchPorts (ready { s with lookupEvent := none }) 0 cfg.nrFetchPorts = true at hany
    rw [if_neg hany]
    split
    case isTrue => exact ⟨hdue, rfl, enqueue_next hnone, rfl, Lookups.enqueueLookup _, .idle hq rfl rfl rfl⟩
    case isFalse hall => exact ⟨hdue, rfl, by simp, rfl, hempty h.ports hall, .idle hq rfl rfl rfl⟩

/-! ## Other events -/

theorem Passive.same (hrr : t.rrQ = s.rrQ) (hlocked : t.lockedPort = s.lockedPort) (hports : t.portReqs = s.portReqs)
    (hreqs : t.reqs = s.reqs) (hcycle : t.cycle = s.cycle)
    (hevent : t.lookupEvent = s.lookupEvent ∨ t.lookupEvent = enqueue s.cycle 1 s.lookupEvent) : Passive cfg s t := by
  refine ⟨hrr, hlocked, hreqs ▸ le_rfl, fun q => ⟨[], by rw [hports, append_nil], fun _ hx => absurd hx not_mem_nil⟩,
    fun hs q hq => ?_, .inl ⟨hcycle, fun hdue => ?_⟩⟩
  · rcases hevent with he | he
    · rw [he]
      exact hs q (hports ▸ hq)
    · rw [he]
      exact enqueue_ne_none
  · rw [hcycle] at hdue
    rcases hevent with he | he
    · rw [← he, hdue]
    · by_contra hne
      exact enqueue_next hne (he ▸ hdue)

theorem step_arbiter (h : Arb cfg s) {e : L1Event} (hstep : s.step cfg e = some t) :
    Passive cfg s t ∨ (∃ status, e = .lookup status) ∧ Handled cfg s t := by
  cases e with
  | lookup status =>
    obtain ⟨hdue, rfl⟩ := ite_some_none_eq_some.1 hstep
    rw [due, decide_eq_true_eq] at hdue
    exact .inr ⟨⟨status, rfl⟩, lookupHandler_handled h hdue.2 status⟩
  | fetch port addr size status =>
    left
    obtain ⟨⟨hport, -, -⟩, rfl⟩ := ite_some_none_eq_some.1 hstep
    have hreqs : (s.toTraffic.arrive cfg port addr size).reqs.length = s.reqs.length + 1 := by
      rw [Traffic.arrive, length_append, length_singleton]
    rw [inputReqMuxed]
    split
    case isTrue =>
      have hbypass : ((s.toTraffic.arrive cfg port addr size).bypass port s.reqs.length addr size status).reqs.length =
          s.reqs.length + 1 := by
        cases status <;> exact hreqs
      refine ⟨rfl, rfl, ?_, fun q => ⟨[], (append_nil _).symm, fun _ hx => absurd hx not_mem_nil⟩, id,
        .inl ⟨rfl, id⟩⟩
      exact hbypass ▸ le_succ _
    case isFalse =>
      refine ⟨rfl, rfl, ?_, fun q => ?_, fun _ => Lookups.enqueueLookup _, .inl ⟨rfl, fun hdue => ?_⟩⟩
      · exact hreqs ▸ le_succ _
      · by_cases hq : q = port
        · subst hq
          refine ⟨[⟨s.reqs.length, s.cycle + lookupDelay cfg⟩], update_self .., fun x hx => ?_⟩
          rw [mem_singleton.1 hx]
          exact ⟨hport, hreqs ▸ lt_succ_self _, rfl⟩
        · refine ⟨[], ?_, fun _ hx => absurd hx not_mem_nil⟩
          rw [append_nil]
          exact update_of_ne hq ..
      · by_contra hne
        exact enqueue_next hne hdue
  | bypassResp req =>
    obtain ⟨u, hu, rfl⟩ := map_eq_some_iff.1 hstep
    rw [Traffic.bypassResp, ite_none_right_eq_some] at hu
    obtain ⟨r, -, rfl⟩ := map_eq_some_iff.1 hu.2
    exact .inl (.same rfl rfl rfl rfl rfl (.inl rfl))
  | memory i =>
    obtain ⟨-, rfl⟩ := ite_some_none_eq_some.1 hstep
    exact .inl (.same rfl rfl rfl rfl rfl (.inl rfl))
  | refillResp i isLast =>
    obtain ⟨-, hstep⟩ := ite_none_right_eq_some.1 hstep
    split_ifs at hstep <;> cases hstep
    · exact .inl (.same rfl rfl rfl rfl rfl (.inl rfl))
    · exact .inl (.same rfl rfl rfl rfl rfl (.inl rfl))
  | refillRetry =>
    cases hstep
    rw [refillRetry]
    split_ifs
    · exact .inl (.same rfl rfl rfl rfl rfl (.inl rfl))
    · exact .inl (.same rfl rfl rfl rfl rfl (.inr rfl))
  | enable | write | flush | flushLine =>
    cases hstep
    exact .inl (.same rfl rfl rfl rfl rfl (.inl rfl))
  | refillDone | resp =>
    obtain ⟨-, rfl⟩ := ite_some_none_eq_some.1 hstep
    exact .inl (.same rfl rfl rfl rfl rfl (.inl rfl))
  | «continue» =>
    left
    rw [step] at hstep
    split at hstep
    · cases hstep
      rw [answerWaiters]
      simp only
      split
      · split <;> exact .same rfl rfl rfl rfl rfl (.inl rfl)
      · exact .same rfl rfl rfl rfl rfl (.inr rfl)
    · cases hstep
      rw [refillDoneLoop.eq_def]
      split_ifs
      · split
        · split_ifs <;> exact .same rfl rfl rfl rfl rfl (.inl rfl)
        · exact .same rfl rfl rfl rfl rfl (.inl rfl)
      · split <;> exact .same rfl rfl rfl rfl rfl (.inl rfl)
    · cases hstep
      rw [respLoop]
      split
      · rw [respond]
        split <;> exact .same rfl rfl rfl rfl rfl (.inl rfl)
      · exact .same rfl rfl rfl rfl rfl (.inl rfl)
    · cases hstep
      exact .same rfl rfl rfl rfl rfl (.inl rfl)
    · cases hstep
      exact .same rfl rfl rfl rfl rfl (.inr rfl)
    · cases hstep
  | tick =>
    left
    obtain ⟨hdue, ⟨⟩⟩ := ite_none_left_eq_some.1 hstep
    refine ⟨rfl, rfl, le_rfl, fun q => ⟨[], (append_nil _).symm, fun _ hx => absurd hx not_mem_nil⟩, id,
      .inr ⟨rfl, fun he => hdue ?_⟩⟩
    by_cases htodo : s.todo = []
    · exact .inl (by rw [due, decide_eq_true_eq]; exact ⟨htodo, he⟩)
    · exact .inr (.inr (.inr htodo))

theorem Passive.ready (h : Passive cfg s t) (hready : s.ready q = true) : t.ready q = true := by
  have hcycle : s.cycle ≤ t.cycle := by
    rcases h.clock with ⟨heq, -⟩ | ⟨heq, -⟩ <;> omega
  obtain ⟨l, hl, -⟩ := h.portReqs q
  rw [L1.ready] at hready ⊢
  rw [hl]
  cases hqueue : s.portReqs q with
  | nil =>
    rw [hqueue] at hready
    cases hready
  | cons x rest =>
    rw [hqueue, decide_eq_true_eq] at hready
    rw [cons_append, decide_eq_true_eq]
    exact hready.trans hcycle

theorem ready_congr (hports : t.portReqs q = s.portReqs q) (hcycle : t.cycle = s.cycle) : t.ready q = s.ready q := by
  rw [ready, ready, hports, hcycle]

theorem Arb.passive (h : Arb cfg s) (hpassive : Passive cfg s t) : Arb cfg t := by
  have hcycle : s.cycle ≤ t.cycle := by
    rcases hpassive.clock with ⟨heq, -⟩ | ⟨heq, -⟩ <;> omega
  refine ⟨fun hpos => hpassive.rrQ ▸ h.pointer hpos, fun q hq => ?_, fun q hne => ?_, fun q x hx => ?_,
    hpassive.scheduled h.scheduled⟩
  · rw [hpassive.lockedPort] at hq
    exact ⟨(h.locked q hq).1, hpassive.ready (h.locked q hq).2⟩
  · obtain ⟨l, hl, hnew⟩ := hpassive.portReqs q
    by_cases hold : s.portReqs q = []
    · rw [hl, hold, nil_append] at hne
      obtain ⟨x, hx⟩ := exists_mem_of_ne_nil l hne
      exact (hnew x hx).1
    · exact h.ports q hold
  · obtain ⟨l, hl, hnew⟩ := hpassive.portReqs q
    rw [hl] at hx
    rcases mem_append.1 hx with hx | hx
    · have hold := h.known q x hx
      exact ⟨hold.1.trans_le hpassive.reqs, by omega⟩
    · have hx' := hnew x hx
      exact ⟨hx'.2.1, by omega⟩

theorem Arb.handled (h : Arb cfg s) (hh : Handled cfg s t) : Arb cfg t := by
  have hknown : (∀ q, ∀ x ∈ t.portReqs q, x ∈ s.portReqs q) →
      ∀ q, ∀ x ∈ t.portReqs q, x.req < t.reqs.length ∧ x.cycle ≤ t.cycle + lookupDelay cfg := by
    intro hsub q x hx
    rw [hh.reqs, hh.cycle]
    exact h.known q x (hsub q x hx)
  cases hh.outcome with
  | idle hq hrr hlocked hports =>
    refine ⟨hrr ▸ h.pointer, fun q hq => ?_, hports ▸ h.ports, hknown fun q x hx => hports ▸ hx,
      hh.scheduled⟩
    rw [ready_congr (congrFun hports q) hh.cycle]
    exact h.locked q (hlocked ▸ hq)
  | kept q hq hrr hlocked hports =>
    refine ⟨hrr ▸ h.pointer, fun q' hq' => ?_, hports ▸ h.ports, hknown fun q x hx => hports ▸ hx,
      hh.scheduled⟩
    rw [hlocked] at hq'
    cases hq'
    rw [ready_congr (congrFun hports q) hh.cycle]
    exact h.granted hq
  | taken q hq hrr hlocked hports =>
    have hsub : ∀ q', ∀ x ∈ t.portReqs q', x ∈ s.portReqs q' := by
      intro q' x hx
      rw [hports, update_apply] at hx
      split at hx
      case isTrue heq => exact heq ▸ mem_of_mem_tail hx
      case isFalse => exact hx
    refine ⟨fun hpos => ?_, fun q' hq' => ?_, fun q' hne => ?_, hknown hsub, hh.scheduled⟩
    · rw [hrr]
      exact nextRrQ_lt (h.granted hq).1 (h.granted hq).2 (h.pointer hpos)
    · rw [hlocked] at hq'
      cases hq'
    · obtain ⟨x, hx⟩ := exists_mem_of_ne_nil _ hne
      exact h.ports q' (ne_nil_of_mem (hsub q' x hx))

theorem Arb.step (h : Arb cfg s) {e : L1Event} (hstep : s.step cfg e = some t) : Arb cfg t := by
  rcases step_arbiter h hstep with hpassive | ⟨-, hhandled⟩
  · exact h.passive hpassive
  · exact h.handled hhandled

theorem Arb.run {es : List L1Event} {s t : L1} (h : Arb cfg s) (hrun : run (L1.step cfg) s es = some t) : Arb cfg t :=
  run_invariant (fun _ _ _ h hstep => h.step hstep) h hrun

end L1

end GvsocPulp.SnitchIcache
