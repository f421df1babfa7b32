import GvsocPulp.FloonocV2.Arbiter
import GvsocPulp.FloonocV2.BackPressure

/-!
# Packets through routers

What arrives at the inputs of a router against what leaves on its links, over whole runs.

- `Carried`: each flit that arrived is in its input FIFO or has moved to the output of its destination, and from there
  to the link; an output that has let a flit of a packet through stays with its input (`Worm`);
- `lossless`: a router loses no flit and doubles none;
- `Network.wormhole`: where whole packets are injected into a network, whole packets pass each link;
- `Network.in_order`: the flits from a source to a destination arrive in order.
-/

namespace GvsocPulp.FloonocV2.RouterV2

open Lib Function List OutputArbiter

/-! ## What has passed -/

/-- A router with the flits that arrived at its inputs and those it sent on its links. -/
structure Logged where
  router : RouterV2 := {}
  arrived : Nat → List Flit := fun _ => []
  sent : Nat → List Flit := fun _ => []

def arrives (input : Nat) : RouterEvent → List Flit
  | .linkReq input' flit => if input' = input then [flit] else []
  | _ => []

theorem mem_arrives {f : Flit} {input : Nat} {e : RouterEvent} : f ∈ arrives input e ↔ e = .linkReq input f := by
  cases e with
  | linkReq input' flit =>
    rw [arrives, RouterEvent.linkReq.injEq]
    split <;> simp_all [eq_comm]
  | fsm => simp [arrives]
  | linkUnstall output => simp [arrives]

def loggedStep (cfg : RouterV2Config) (s : Logged) (e : RouterEnv × RouterEvent) : Option Logged :=
  (routerStep cfg s.router e).map fun router =>
    { router := router
      arrived := fun input => s.arrived input ++ arrives input e.2
      sent := fun output => s.sent output ++ router.outputs.filterMap (·.sentOn output) }

/-- A flit that went from an input FIFO to an output FIFO. -/
structure Move where
  input : Nat
  output : Nat
  flit : Flit

def movesFrom (input : Nat) (moves : List Move) : List Flit := (moves.filter (·.input = input)).map (·.flit)

def movesTo (output : Nat) (moves : List Move) : List Flit := (moves.filter (·.output = output)).map (·.flit)

variable {ι : Type*} {packet : Flit → ι}

/-- Packets one after the other: what follows a flit that is not the last one of its packet is of the same packet. -/
def Whole (packet : Flit → ι) (flits : List Flit) : Prop :=
  flits.IsChain fun f g => f.isLast = false → f.destId = g.destId ∧ packet f = packet g

theorem Whole.before {flits first : List Flit} (h : Whole packet flits)
    (hfirst : first <+: flits) : Whole packet first := by
  obtain ⟨rest, rfl⟩ := hfirst
  exact (isChain_append.1 h).1

/-- What an arbiter let through: in the middle of a packet it is locked, and selects the input of that packet. -/
structure Worm (cfg : RouterV2Config) (moves : List Move) (arb : OutputArbiter) : Prop where
  chain : moves.IsChain fun m m' => m.flit.isLast = false → m.input = m'.input
  locked : ∀ m ∈ moves.getLast?, m.flit.isLast = false →
    arb.lockQ = true ∧ arbSelect arb.reqQ arb.rrQ cfg.arbLevels 0 = m.input

/-- What arrived, moved and was sent; `sent` is without what the router sends in this event. -/
structure Carried (cfg : RouterV2Config) (arrived sent : Nat → List Flit) (moves : List Move)
    (s : RouterV2) : Prop where
  route : ∀ m ∈ moves, cfg.getOutputPort m.flit.destId = some m.output
  arrived : ∀ input, arrived input = movesFrom input moves ++ s.inputQueues input
  sent : ∀ output, movesTo output moves =
    sent output ++ s.outputs.filterMap (·.sentOn output) ++ s.outputQueues output
  worm : ∀ output, Worm cfg (moves.filter (·.output = output)) (s.arbiters output)

variable {cfg : RouterV2Config} {env : RouterEnv} {s : RouterV2} {moves : List Move} {arb arb' : OutputArbiter}

/-! ## An arbiter -/

/-- A flit of the selected input passes. -/
theorem Worm.pass (h : Worm cfg moves arb) {m : Move} {validI rr : Nat} (hne : arb.requests validI ≠ 0)
    (hsel : arbSelect (arb.requests validI) arb.rrQ cfg.arbLevels 0 = m.input)
    (hafter : arb'.After (arb.requests validI) m.flit.isLast (if m.flit.isLast then rr else arb.rrQ)) :
    Worm cfg (moves ++ [m]) arb' := by
  constructor
  · refine isChain_append.2 ⟨h.chain, isChain_singleton m, fun x hx y hy hlast => ?_⟩
    obtain ⟨hlock, hx⟩ := h.locked x hx hlast
    rw [requests, if_pos hlock, hx] at hsel
    simp_all
  · intro x hx hlast
    obtain rfl : m = x := by simpa using hx
    rw [hlast] at hafter
    have hlock : arb'.lockQ = true := by simp [hafter.lockQ, hne]
    rw [hafter.reqQ hlock, hafter.rrQ]
    exact ⟨hlock, hsel⟩

theorem Worm.stay (h : Worm cfg moves arb) {validI : Nat} (hok : arb.Ok cfg.nbPorts)
    (hafter : arb'.After (arb.requests validI) false arb.rrQ) : Worm cfg moves arb' := by
  refine ⟨h.chain, fun x hx hlast => ?_⟩
  obtain ⟨hlock, hx⟩ := h.locked x hx hlast
  rw [requests, if_pos hlock] at hafter
  have hlock' : arb'.lockQ = true := by simp [hafter.lockQ, (hok.locked hlock).1]
  rw [hafter.reqQ hlock', hafter.rrQ]
  exact ⟨hlock', hx⟩

variable {full : Nat → Bool} {heads : List (Option Nat)} {arrived sent : Nat → List Flit} {output : Nat}

/-- An arbiter is in order, and the inputs that ask for its output do so for their head flit. -/
def Ready (cfg : RouterV2Config) (heads : List (Option Nat)) (s : RouterV2) (output : Nat) : Prop :=
  (s.arbiters output).Ok cfg.nbPorts ∧ ∀ i flit rest, heads[i]? = some (some output) →
    s.inputQueues i = flit :: rest → cfg.getOutputPort flit.destId = some output

/-- **An arbiter** lets one flit of the input it selects through, or nothing. -/
theorem Carried.arbitrate (full : Nat → Bool) (h : Carried cfg arrived sent moves s)
    (hready : Ready cfg heads s output) :
    ∃ moves', Carried cfg arrived sent moves' (arbitrate cfg full heads s output) := by
  have hframe : ∀ o, o ≠ output → (RouterV2.arbitrate cfg full heads s output).arbiters o = s.arbiters o :=
    fun o ho => (arbitrate_frame ho.symm).1
  have hcases := arbitrate_cases cfg full heads s output
  generalize hsel : arbSelect ((s.arbiters output).requests (validIn heads output)) _ cfg.arbLevels 0 = sel
  rcases @arbitrate_spec _ full heads _ _ hready.1 _ _ rfl hsel with ⟨flit, rest, hq, hhead, hne, hpop, hafter⟩ |
    ⟨hsame, hafter⟩
  · obtain ⟨arbiters, heq | ⟨input, flit', rest', hq', -, -, heq⟩⟩ := hcases
    · rw [heq] at hpop
      simpa [hq] using congrFun hpop sel
    · rw [heq] at hpop
      have hinput : input = sel := by
        by_contra hinput
        simpa [update_of_ne (Ne.symm hinput), hq] using congrFun hpop sel
      subst hinput
      obtain ⟨rfl, rfl⟩ := List.cons.inj (hq'.symm.trans hq)
      have hport := hready.2 _ _ _ hhead hq
      refine ⟨moves ++ [⟨input, output, flit'⟩], ⟨?_, fun i => ?_, fun o => ?_, fun o => ?_⟩⟩
      · simpa [or_imp, forall_and] using ⟨h.route, hport⟩
      · rw [h.arrived, heq]
        by_cases hi : input = i
        · subst hi
          simp [movesFrom, hq]
        · simp [movesFrom, hi, update_of_ne (Ne.symm hi)]
      · have hsent := h.sent o
        have hnone : (if rest'.length + 1 = cfg.queueCapacity input then [RouterOutput.unstall input] else []).filterMap
            (·.sentOn o) = [] := by split <;> rfl
        rw [heq]
        simp only [moveFlit_outputs, moveFlit_outputQueues, filterMap_append, hnone, append_nil]
        by_cases ho : output = o
        · subst ho
          simp only [movesTo] at hsent ⊢
          simp [hsent]
        · simpa [movesTo, ho, update_of_ne (Ne.symm ho)] using hsent
      · by_cases ho : o = output
        · subst ho
          simpa using (h.worm o).pass (m := ⟨input, o, flit'⟩) hne hsel hafter
        · simpa [hframe o ho, Ne.symm ho] using h.worm o
  · obtain ⟨arbiters, heq | ⟨input, flit, rest, hq, -, -, heq⟩⟩ := hcases
    · refine ⟨moves, h.route, by rw [heq]; exact h.arrived, by rw [heq]; exact h.sent, fun o => ?_⟩
      by_cases ho : o = output
      · subst ho
        exact (h.worm o).stay hready.1 hafter
      · rw [hframe o ho]
        exact h.worm o
    · rw [heq] at hsame
      simpa [hq] using congrFun hsame input

/-! ## A step of the router -/

theorem Carried.foldl_arbitrate {ports : List Nat} (hnd : ports.Nodup) (h : Carried cfg arrived sent moves s)
    (hready : ∀ p ∈ ports, Ready cfg heads s p) :
    ∃ moves', Carried cfg arrived sent moves' (ports.foldl (RouterV2.arbitrate cfg full heads) s) := by
  induction ports generalizing s moves with
  | nil => exact ⟨moves, h⟩
  | cons p ports ih =>
    obtain ⟨hp, hnd⟩ := nodup_cons.1 hnd
    obtain ⟨moves', h'⟩ := h.arbitrate full (hready p mem_cons_self)
    refine ih hnd h' fun p' hp' => ?_
    obtain ⟨harb, hqueue⟩ := @arbitrate_frame cfg full heads s p' p fun heq => hp (heq ▸ hp')
    obtain ⟨hok, hport⟩ := hready p' (mem_cons_of_mem _ hp')
    refine ⟨harb ▸ hok, fun i flit rest hhead hq => hport i flit rest hhead ?_⟩
    rw [← hqueue i fun o ho => Option.some.inj (Option.some.inj (ho.symm.trans hhead)), hq]

theorem Carried.sendOutput (h : Carried cfg arrived sent moves s) (output : Nat) :
    Carried cfg arrived sent moves (s.sendOutput env output) := by
  rw [RouterV2.sendOutput]
  split
  case h_1 => exact h
  case h_2 flit rest hq =>
    split
    case isTrue => exact h
    case isFalse =>
      refine { h with sent := fun o => ?_ }
      by_cases ho : output = o
      · subst ho
        simp [h.sent, hq, RouterV2.output, RouterOutput.sentOn]
      · simp [h.sent, RouterV2.output, RouterOutput.sentOn, ho, update_of_ne (Ne.symm ho)]

def Logged.Kept (cfg : RouterV2Config) (s : Logged) : Prop :=
  ArbitersOk cfg s.router ∧ ∃ moves, Carried cfg s.arrived s.sent moves { s.router with outputs := [] }

theorem Logged.kept_init (cfg : RouterV2Config) : Logged.Kept cfg {} :=
  ⟨fun o ho => arbitersOk_init (Nat.zero_lt_of_lt ho) o ho, [], by simp, fun _ => rfl, fun _ => rfl,
    fun _ => ⟨isChain_nil, by simp⟩⟩

/-- **A step** of the router. -/
theorem Logged.Kept.step {s s' : Logged} {e : RouterEnv × RouterEvent} (h : s.Kept cfg)
    (hs : loggedStep cfg s e = some s') : s'.Kept cfg := by
  obtain ⟨hok, moves, hc⟩ := h
  obtain ⟨router, hr, rfl⟩ := Option.map_eq_some_iff.1 hs
  refine ⟨arbitersOk_step _ _ _ hok hr, ?_⟩
  suffices hsuff : ∃ moves', Carried cfg (fun input => s.arrived input ++ arrives input e.2) s.sent moves' router by
    obtain ⟨moves', h'⟩ := hsuff
    exact ⟨moves', h'.route, h'.arrived, fun output => by simpa using h'.sent output, h'.worm⟩
  obtain ⟨env, e⟩ := e
  cases e with
  | fsm =>
    simp only [arrives, append_nil]
    replace hr : fsmHandler cfg env { s.router with outputs := [] } = some router := hr
    rw [fsmHandler, Option.map_eq_some_iff] at hr
    obtain ⟨heads, hheads, rfl⟩ := hr
    obtain ⟨-, harbs⟩ := @foldl_sendOutput env (range cfg.nbPorts) { s.router with outputs := [] }
    refine Carried.foldl_arbitrate nodup_range (List.foldlRecOn _ _ hc fun s hs p _ => hs.sendOutput p) fun p hp => ?_
    refine ⟨harbs ▸ hok p (mem_range.1 hp), fun i flit rest hhead hq => ?_⟩
    obtain ⟨hlen, hget⟩ := forall₂_iff_get.1 (forall₂_of_mapM hheads)
    obtain ⟨hi, heq⟩ := List.getElem?_eq_some_iff.1 hhead
    have hof := hget i (hlen ▸ hi) hi
    simp only [get_eq_getElem, getElem_range, heq, headOutput, hq] at hof
    split at hof
    · simpa using hof
    · cases hof
  | linkReq input flit =>
    cases hr
    refine ⟨moves, hc.route, fun i => ?_, fun o => by
      simpa [linkReq, RouterV2.output, RouterOutput.sentOn] using hc.sent o, hc.worm⟩
    have harrived := hc.arrived i
    by_cases hi : input = i
    · subst hi
      simp [arrives, harrived, linkReq, RouterV2.output]
    · simpa [arrives, hi, linkReq, RouterV2.output, update_of_ne (Ne.symm hi)] using harrived
  | linkUnstall output =>
    cases hr
    exact ⟨moves, hc.route, by simpa [arrives, linkUnstall] using hc.arrived, hc.sent, hc.worm⟩

/-! ## Whole packets -/

/-- The first flit to an output is also the first one of its input that goes to that output. -/
theorem movesFrom_head {m : Move} {f : Flit} (hroute : ∀ m ∈ moves, cfg.getOutputPort m.flit.destId = some m.output)
    (hm : m ∈ (moves.filter (·.output = output)).head?) (hf : f ∈ (movesFrom m.input moves).head?)
    (hport : cfg.getOutputPort f.destId = some output) : f = m.flit := by
  induction moves with
  | nil => cases hm
  | cons x moves ih =>
    rw [movesFrom, filter_cons] at hf
    rw [filter_cons] at hm
    have hx := hroute x mem_cons_self
    split_ifs at hm hf with ho hi hi
    · cases hm
      exact (Option.some.inj hf).symm
    · cases hm
      simp at hi
    · cases hf
      exact absurd (Option.some.inj (hx.symm.trans hport)) (by simpa using ho)
    · exact ih (fun m hm => hroute m (mem_cons_of_mem _ hm)) hm hf

theorem whole_movesTo (hroute : ∀ m ∈ moves, cfg.getOutputPort m.flit.destId = some m.output)
    (hworm : (moves.filter (·.output = output)).IsChain fun m m' => m.flit.isLast = false → m.input = m'.input)
    (hin : ∀ input, Whole packet (movesFrom input moves)) : Whole packet (movesTo output moves) := by
  induction moves with
  | nil => exact isChain_nil
  | cons m moves ih =>
    have hroute' : ∀ m ∈ moves, cfg.getOutputPort m.flit.destId = some m.output :=
      fun m hm => hroute m (mem_cons_of_mem _ hm)
    have hin' : ∀ input, Whole packet (movesFrom input moves) := fun input => by
      have htail := hin input
      rw [movesFrom, filter_cons] at htail
      split at htail
      · exact (isChain_cons.1 htail).2
      · exact htail
    rw [movesTo, filter_cons]
    rw [filter_cons] at hworm
    split_ifs at hworm ⊢ with ho
    · rw [isChain_cons] at hworm
      refine isChain_cons.2 ⟨fun g hg hlast => ?_, ih hroute' hworm.2 hin'⟩
      obtain ⟨m', hm', rfl⟩ : ∃ m' ∈ (moves.filter (·.output = output)).head?, m'.flit = g := by simpa using hg
      have hsame := hworm.1 m' hm' hlast
      -- the next flit of the same input is of the same packet, so it goes to the same output
      have hfrom := hin m.input
      rw [movesFrom, filter_cons, if_pos (by simp), map_cons, Whole, isChain_cons] at hfrom
      have hmem : m' ∈ moves.filter (·.input = m.input) := by
        simpa [hsame] using (mem_filter.1 (mem_of_mem_head? hm')).1
      obtain ⟨x, rest, hx⟩ := exists_cons_of_ne_nil (ne_nil_of_mem hmem)
      have hnext := hfrom.1 x.flit (by rw [hx]; rfl) hlast
      have hport : cfg.getOutputPort x.flit.destId = some output := by
        rw [← hnext.1, hroute m mem_cons_self, of_decide_eq_true ho]
      have hf : x.flit ∈ (movesFrom m'.input moves).head? := by
        rw [movesFrom, ← hsame, hx]
        rfl
      exact movesFrom_head hroute' hm' hf hport ▸ hnext
    · exact ih hroute' hworm hin'

/-- What has moved, in the order of the moves. An output in the middle of a packet gets the flits of its input only. -/
structure Moved (cfg : RouterV2Config) (s : Logged) (moves : List Move) : Prop where
  route : ∀ m ∈ moves, cfg.getOutputPort m.flit.destId = some m.output
  arrived : ∀ input, s.arrived input = movesFrom input moves ++ s.router.inputQueues input
  sent : ∀ output, movesTo output moves = s.sent output ++ s.router.outputQueues output
  worm : ∀ output, (moves.filter (·.output = output)).IsChain fun m m' => m.flit.isLast = false → m.input = m'.input

theorem Logged.Kept.moved {s : Logged} (h : s.Kept cfg) : ∃ moves, Moved cfg s moves := by
  obtain ⟨-, moves, hc⟩ := h
  exact ⟨moves, hc.route, hc.arrived, fun output => by simpa using hc.sent output, fun output => (hc.worm output).chain⟩

theorem Moved.mem_arrived {s : Logged} (h : Moved cfg s moves) {m : Move} (hm : m ∈ moves) :
    m.flit ∈ s.arrived m.input := by
  rw [h.arrived]
  exact mem_append_left _ (mem_map_of_mem (mem_filter.2 ⟨hm, by simp⟩))

theorem Logged.Kept.whole_sent {s : Logged} (h : s.Kept cfg)
    (hin : ∀ input, Whole packet (s.arrived input)) (output : Nat) : Whole packet (s.sent output) := by
  obtain ⟨moves, hm⟩ := h.moved
  have hmoved : Whole packet (movesTo output moves) := whole_movesTo hm.route (hm.worm output) fun input =>
    (hin input).before ⟨_, (hm.arrived input).symm⟩
  exact hmoved.before ⟨_, (hm.sent output).symm⟩

theorem Logged.Kept.mem_sent {s : Logged} (h : s.Kept cfg) {f : Flit} (hf : f ∈ s.sent output) :
    cfg.getOutputPort f.destId = some output ∧ ∃ input, f ∈ s.arrived input := by
  obtain ⟨moves, hmoved⟩ := h.moved
  have hmem : f ∈ movesTo output moves := hmoved.sent output ▸ mem_append_left _ hf
  obtain ⟨m, hm, rfl⟩ := mem_map.1 hmem
  obtain ⟨hm, hout⟩ := mem_filter.1 hm
  exact ⟨of_decide_eq_true hout ▸ hmoved.route m hm, m.input, hmoved.mem_arrived hm⟩

/-- Flits for one destination that arrive at one input only stay in order. -/
theorem Logged.Kept.filter_arrived {s : Logged} {p : Flit → Bool} {dest : Int} {input : Nat} (h : s.Kept cfg)
    (hdest : ∀ f, p f = true → f.destId = dest) (hport : cfg.getOutputPort dest = some output)
    (honly : ∀ i, ∀ f ∈ s.arrived i, p f = true → i = input) : (s.arrived input).filter p =
      (s.sent output).filter p ++ (s.router.outputQueues output).filter p ++ (s.router.inputQueues input).filter p := by
  obtain ⟨moves, hmoved⟩ := h.moved
  have hsame : (movesTo output moves).filter p = (movesFrom input moves).filter p := by
    simp only [movesTo, movesFrom, filter_map, filter_filter, Function.comp_def]
    congr 1
    refine filter_congr fun m hm => ?_
    cases hp : p m.flit
    · rfl
    · have hin := honly _ _ (hmoved.mem_arrived hm) hp
      have hout := Option.some.inj ((hmoved.route m hm).symm.trans (hdest _ hp ▸ hport))
      simp [hin, hout]
  rw [hmoved.arrived, filter_append, ← hsame, hmoved.sent, filter_append]

/-- **A router** loses no flit and doubles none: in every state of every run each flit that arrived waits in its input
FIFO or has moved once, to the output of its destination, and what has moved to an output waits in its FIFO or was sent
on its link. -/
theorem lossless (cfg : RouterV2Config) (es : List (RouterEnv × RouterEvent)) (s : Logged)
    (hrun : run (loggedStep cfg) {} es = some s) : ∃ moves : List Move, Moved cfg s moves := by
  have hkept : s.Kept cfg := run_invariant (fun _ _ _ => Logged.Kept.step) (Logged.kept_init cfg) hrun
  exact hkept.moved

def writeFlit (burst : Nat) (isLast : Bool) : Flit :=
  { destId := 1, srcId := 0, isRsp := false, burst := burst, wide := false, isAddress := false, initiatorAddr := 0
    opcode := .write, addr := 0, size := 4, isLast := isLast }

/-- Packets of two flits at both inputs of a router, for the same output. -/
def twoPackets : List (RouterEnv × RouterEvent) :=
  [RouterEvent.linkReq 0 (writeFlit 0 false), .linkReq 1 (writeFlit 1 false), .fsm, .linkReq 1 (writeFlit 1 true), .fsm,
    .linkReq 0 (writeFlit 0 true), .fsm, .fsm, .fsm, .fsm].map fun e => ({ now := 0 }, e)

theorem lossless_twoPackets : ∃ s moves, run (loggedStep twoPorts) {} twoPackets = some s ∧
    (s.sent 1).map (·.burst) = [0, 0, 1, 1] ∧ Moved twoPorts s moves := by
  obtain ⟨s, hs, hsent⟩ := (Option.any_eq_true (fun s : Logged => decide ((s.sent 1).map (·.burst) = [0, 0, 1, 1])) _).1
    (show (run (loggedStep twoPorts) {} twoPackets).any _ = true by decide +kernel)
  obtain ⟨moves, hmoves⟩ := lossless twoPorts twoPackets s hs
  exact ⟨s, moves, hs, of_decide_eq_true hsent, hmoves⟩

/-! ## A network -/

/-- Routers, and the outputs that feed their inputs; at an input that is not fed packets are injected. An output feeds
one input at most. -/
structure Network (ν : Type*) where
  cfg : ν → RouterV2Config
  feeds : ν → Nat → Option (ν × Nat)
  single : ∀ n input n' input' src, feeds n input = some src → feeds n' input' = some src → n = n' ∧ input = input'

def flow (src dest : Int) (flits : List Flit) : List Flit := flits.filter fun f => f.srcId = src ∧ f.destId = dest

namespace Network

variable {ν : Type*} (net : Network ν)

/-- An input gets what the output that feeds it has sent, in this order. -/
def allows (s : ν → Logged) (n : ν) : RouterEvent → Bool
  | .linkReq input flit =>
    (net.feeds n input).all fun src => ((s src.1).sent src.2)[((s n).arrived input).length]? = some flit
  | _ => true

/-- The routing tables lead from an input to another one. -/
def Hop (dest : Int) (x y : ν × Nat) : Prop :=
  ∃ output, (net.cfg x.1).getOutputPort dest = some output ∧ net.feeds y.1 y.2 = some (x.1, output)

/-- A flit was injected, and has followed the routing tables since. -/
inductive Origin (s : ν → Logged) (f : Flit) : ν × Nat → Prop
  | injected {n input} (hnone : net.feeds n input = none) (hf : f ∈ (s n).arrived input) : Origin s f (n, input)
  | hop {x y} (h : Origin s f x) (hhop : net.Hop f.destId x y) : Origin s f y

def Injects (packet : Flit → ι) (s : ν → Logged) : Prop :=
  ∀ n input, net.feeds n input = none → Whole packet ((s n).arrived input)

structure Inv (packet : Flit → ι) (s : ν → Logged) : Prop where
  kept : ∀ n, (s n).Kept (net.cfg n)
  fed : ∀ n input, ∀ src ∈ net.feeds n input, (s n).arrived input <+: (s src.1).sent src.2
  origin : ∀ n input, ∀ f ∈ (s n).arrived input, net.Origin s f (n, input)
  whole : net.Injects packet s → ∀ n port, Whole packet ((s n).arrived port) ∧ Whole packet ((s n).sent port)

/-- A walk that the routing tables lead along to an output that feeds no input. -/
structure Route (dest : Int) (route : List (ν × Nat)) : Prop where
  hops : route.IsChain (net.Hop dest)
  once : (route.map Prod.fst).Nodup
  ends : ∀ x ∈ route.getLast?, ∀ y, ¬ net.Hop dest x y

/-- Nothing is in a FIFO or on a link. -/
def Drained (s : ν → Logged) : Prop :=
  (∀ n port, (s n).router.inputQueues port = [] ∧ (s n).router.outputQueues port = []) ∧
    ∀ n input, ∀ src ∈ net.feeds n input, (s n).arrived input = (s src.1).sent src.2

/-- The first ones of what came have been delivered, and all once nothing is on the way. -/
def Delivers (s : ν → Logged) (delivered came : List Flit) : Prop :=
  delivered <+: came ∧ (net.Drained s → delivered = came)

section

variable {net} {dest : Int} {route : List (ν × Nat)} {x : ν × Nat} {s : ν → Logged} {f : Flit} {p : Flit → Bool}

theorem Origin.mono {t : ν → Logged} (h : net.Origin s f x)
    (hst : ∀ n input, (s n).arrived input <+: (t n).arrived input) : net.Origin t f x := by
  induction h with
  | injected hnone hf => exact .injected hnone ((hst _ _).subset hf)
  | hop _ hhop ih => exact .hop ih hhop

theorem Route.mem (h : net.Route dest route) {x y : ν × Nat} (hx : x ∈ route) (hhop : net.Hop dest x y) :
    y ∈ route := by
  obtain ⟨before, after, rfl⟩ := append_of_mem hx
  cases after with
  | nil => exact absurd hhop (h.ends x (by simp) y)
  | cons z after =>
    obtain ⟨output, hport, hfeeds⟩ := hhop
    obtain ⟨output', hport', hfeeds'⟩ := (isChain_append.1 h.hops).2.1.rel
    cases hport.symm.trans hport'
    obtain rfl : y = z := Prod.ext_iff.2 (net.single _ _ _ _ _ hfeeds hfeeds')
    simp

theorem Route.of_origin (h : net.Route dest route) (hdest : f.destId = dest) (ho : net.Origin s f x)
    (hin : ∀ n input, net.feeds n input = none → f ∈ (s n).arrived input → (n, input) ∈ route) : x ∈ route := by
  subst hdest
  induction ho with
  | injected hnone hf => exact hin _ _ hnone hf
  | hop _ hhop ih => exact h.mem ih hhop

theorem Inv.delivers_router (h : net.Inv packet s) (hdest : ∀ f, p f = true → f.destId = dest)
    (hport : (net.cfg x.1).getOutputPort dest = some output)
      (honly : ∀ i, ∀ f ∈ (s x.1).arrived i, p f = true → i = x.2) :
    net.Delivers s (((s x.1).sent output).filter p) (((s x.1).arrived x.2).filter p) := by
  have harrived := (h.kept x.1).filter_arrived hdest hport honly
  refine ⟨⟨_, by rw [harrived, append_assoc]⟩, fun hd => ?_⟩
  simp [harrived, hd.1 x.1]

/-- Along a route, the flits of a flow arrive and are sent in order. -/
theorem Inv.delivers_route (h : net.Inv packet s) (hdest : ∀ f, p f = true → f.destId = dest) :
    ∀ {route : List (ν × Nat)} {x : ν × Nat}, (x :: route).IsChain (net.Hop dest) →
    (∀ y ∈ x :: route, ∀ input, ∀ f ∈ (s y.1).arrived input, p f = true → input = y.2) → ∀ y ∈ x :: route, ∀ output,
    (net.cfg y.1).getOutputPort dest = some output →
      net.Delivers s (((s y.1).sent output).filter p) (((s x.1).arrived x.2).filter p)
  | route, x, hchain, honly, y, hy, output, hport => by
    rcases mem_cons.1 hy with rfl | hy
    · exact h.delivers_router hdest hport (honly y mem_cons_self)
    · cases route with
      | nil => cases hy
      | cons z route =>
        obtain ⟨⟨output', hport', hfeeds⟩, hchain⟩ := isChain_cons_cons.1 hchain
        have hrest := Inv.delivers_route h hdest hchain (fun y hy => honly y (mem_cons_of_mem x hy)) y hy output hport
        have hfirst := h.delivers_router hdest hport' (honly x mem_cons_self)
        refine ⟨hrest.1.trans (((h.fed _ _ _ hfeeds).filter p).trans hfirst.1), fun hd => ?_⟩
        rw [hrest.2 hd, hd.2 _ _ _ hfeeds, hfirst.2 hd]

theorem Inv.delivers_flow {src : Int} {n : ν} {input : Nat} (h : net.Inv packet s)
    (hroute : net.Route dest (x :: route))
    (hin : ∀ m j, net.feeds m j = none → ∀ f ∈ (s m).arrived j, f.srcId = src → f.destId = dest → (m, j) = x)
    (hlast : (x :: route).getLast? = some (n, input)) (hport : (net.cfg n).getOutputPort dest = some output) :
    net.Delivers s (flow src dest ((s n).sent output)) (flow src dest ((s x.1).arrived x.2)) := by
  refine h.delivers_route (fun f hf => (of_decide_eq_true hf).2) hroute.hops (fun y hy j f hf hp => ?_) _
    (mem_of_mem_getLast? hlast) output hport
  obtain ⟨hsrc, hdest⟩ := of_decide_eq_true hp
  have hmem := hroute.of_origin hdest (h.origin _ _ f hf) fun m k hnone hf => by
    simp [hin m k hnone f hf hsrc hdest]
  exact (Prod.ext_iff.1 (inj_on_of_nodup_map hroute.once hmem hy rfl)).2

/-! ## The runs of a network -/

variable [DecidableEq ν] {es : List (ν × RouterEnv × RouterEvent)} {n : ν} {input : Nat}

def step (net : Network ν) (s : ν → Logged) (e : ν × RouterEnv × RouterEvent) : Option (ν → Logged) :=
  if net.allows s e.1 e.2.2 then (loggedStep (net.cfg e.1) (s e.1) e.2).map (update s e.1) else none

theorem step_inv {s' : ν → Logged} {e : ν × RouterEnv × RouterEvent}
    (h : net.Inv packet s) (hs : net.step s e = some s') : net.Inv packet s' := by
  obtain ⟨n, env, e⟩ := e
  rw [step] at hs
  split at hs
  case isFalse => cases hs
  case isTrue hallows =>
    obtain ⟨l, hl, rfl⟩ := Option.map_eq_some_iff.1 hs
    obtain ⟨router, -, rfl⟩ := Option.map_eq_some_iff.1 hl
    have hkept := (h.kept n).step hl
    generalize hl' : Logged.mk router _ _ = l at hkept
    have hgrows : ∀ m port, (s m).arrived port <+: (update s n l m).arrived port ∧
        (s m).sent port <+: (update s n l m).sent port := by
      intro m port
      by_cases hm : m = n
      · subst hm
        simp [← hl']
      · simp [hm]
    -- what an input got is the next flit of the output that feeds it
    have hfed : ∀ m input, ∀ src ∈ net.feeds m input, (update s n l m).arrived input <+: (s src.1).sent src.2 := by
      intro m input src hsrc
      have hold := h.fed m input src hsrc
      by_cases hm : m = n
      · subst hm
        cases e with
        | linkReq input' flit =>
          by_cases hi : input' = input
          · subst hi
            obtain ⟨rest, hrest⟩ := hold
            have hnext : ((s src.1).sent src.2)[((s m).arrived input').length]? = some flit := by
              simpa [allows, Option.mem_def.1 hsrc] using hallows
            rw [← hrest, getElem?_append_right le_rfl, tsub_self] at hnext
            obtain ⟨rest', rfl⟩ : ∃ rest', rest = flit :: rest' := by
              cases rest <;> simp_all
            exact ⟨rest', by simp [← hl', arrives, ← hrest]⟩
          · simpa [← hl', arrives, hi] using hold
        | fsm => simpa [← hl', arrives] using hold
        | linkUnstall => simpa [← hl', arrives] using hold
      · simpa [hm] using hold
    refine ⟨fun m => ?_, fun m input src hsrc => (hfed m input src hsrc).trans (hgrows _ _).2, fun m input f hf => ?_,
      fun hin m => ?_⟩
    · by_cases hm : m = n
      · subst hm
        simpa using hkept
      · simpa [hm] using h.kept m
    · cases hsrc : net.feeds m input with
      | none => exact .injected hsrc hf
      | some src =>
        obtain ⟨hport, input', hf'⟩ := (h.kept src.1).mem_sent ((hfed m input src hsrc).subset hf)
        exact .hop ((h.origin _ _ f hf').mono fun n input => (hgrows n input).1) ⟨_, hport, hsrc⟩
    · have hwhole := h.whole fun m input hnone => (hin m input hnone).before (hgrows m input).1
      have hin' : ∀ port, Whole packet ((update s n l m).arrived port) := fun port => by
        cases hsrc : net.feeds m port with
        | none => exact hin m port hsrc
        | some src => exact (hwhole src.1 src.2).2.before (hfed m port src hsrc)
      refine fun port => ⟨hin' port, ?_⟩
      by_cases hm : m = n
      · subst hm
        rw [update_self] at hin' ⊢
        exact hkept.whole_sent hin' port
      · simpa [hm] using (hwhole m port).2

theorem run_inv (hrun : run net.step (fun _ => {}) es = some s) : net.Inv packet s :=
  run_invariant (fun _ _ _ => step_inv) ⟨fun n => Logged.kept_init _, fun _ _ _ _ => nil_prefix, by simp,
    fun _ _ _ => ⟨isChain_nil, isChain_nil⟩⟩ hrun

theorem mem_arrived {t : ν → Logged} (hrun : run net.step s es = some t) (hf : f ∈ (t n).arrived input) :
    f ∈ (s n).arrived input ∨ ∃ env, (n, env, RouterEvent.linkReq input f) ∈ es := by
  induction es generalizing s with
  | nil =>
    cases hrun
    exact .inl hf
  | cons e es ih =>
    obtain ⟨m, env, e⟩ := e
    obtain ⟨s', hs, hrun⟩ := run_cons.1 hrun
    rcases ih hrun with hf | ⟨env', he⟩
    · rw [step] at hs
      split at hs
      case isFalse => cases hs
      case isTrue =>
        obtain ⟨l, hl, rfl⟩ := Option.map_eq_some_iff.1 hs
        obtain ⟨router, -, rfl⟩ := Option.map_eq_some_iff.1 hl
        by_cases hm : n = m
        · subst hm
          rw [update_self, mem_append, mem_arrives] at hf
          refine hf.imp_right fun he => ⟨env, ?_⟩
          subst he
          exact mem_cons_self
        · exact .inl (by simpa [hm] using hf)
    · exact .inr ⟨env', mem_cons_of_mem _ he⟩

/-- **Packets stay whole** in any network of routers: where whole packets are injected, every input gets and every link
carries whole packets, in every state of every run. -/
theorem wormhole {ι : Type} (packet : Flit → ι) (hrun : run net.step (fun _ => {}) es = some s)
    (hin : net.Injects packet s) (n : ν) (port : Nat) : Whole packet ((s n).arrived port) ∧
    Whole packet ((s n).sent port) := by
  exact (run_inv hrun).whole hin n port

/-- **Flits of a flow arrive in order**, none lost and none doubled. Where the flits from `src` to `dest` are injected
at the start of a route only, what has been sent of them at its end are the first ones injected, in every state of every
run, and all of them once nothing is on the way. -/
theorem in_order {src : Int} (hrun : run net.step (fun _ => {}) es = some s) (hroute : net.Route dest (x :: route))
    (hin : ∀ m j, net.feeds m j = none → ∀ f ∈ (s m).arrived j, f.srcId = src → f.destId = dest → (m, j) = x)
    (hlast : (x :: route).getLast? = some (n, input)) (hport : (net.cfg n).getOutputPort dest = some output) :
    net.Delivers s (flow src dest ((s n).sent output)) (flow src dest ((s x.1).arrived x.2)) := by
  have hinv : net.Inv (fun _ => ()) s := run_inv hrun
  exact hinv.delivers_flow hroute hin hlast hport

end

/-- Two routers: flits enter at input 0 of the first one, and its output 1 feeds input 0 of the second one. -/
def chain : Network Bool where
  cfg _ := twoPorts
  feeds n input := if n then some (false, input + 1) else if input = 0 then none else some (true, input + 1)
  single n input n' input' src h h' := by
    cases n <;> cases n' <;> grind

theorem eq_of_unfed {n : Bool} {input : Nat} (h : chain.feeds n input = none) : (n, input) = (false, 0) := by
  simp only [chain] at h
  split_ifs at h
  simp_all

def overChain : List (Bool × RouterEnv × RouterEvent) :=
  [(false, RouterEvent.linkReq 0 (writeFlit 0 false)), (false, .fsm), (false, .fsm),
    (true, .linkReq 0 (writeFlit 0 false)),
    (false, .linkReq 0 (writeFlit 0 true)), (false, .fsm), (true, .fsm), (false, .fsm),
      (true, .linkReq 0 (writeFlit 0 true)),
    (true, .fsm), (true, .fsm)].map fun e => (e.1, { now := 0 }, e.2)

theorem overChain_runs : ∃ s, run chain.step (fun _ => {}) overChain = some s ∧
    ((s true).sent 1).map (·.isLast) = [false, true] ∧ Whole (·.burst) ((s false).arrived 0) := by
  obtain ⟨s, hs, hp⟩ := (Option.any_eq_true (fun s : Bool → Logged => decide
    (((s true).sent 1).map (·.isLast) = [false, true] ∧
    ((s false).arrived 0).IsChain fun f g : Flit => f.isLast = false → f.destId = g.destId ∧ f.burst = g.burst)) _).1
    (show (run chain.step (fun _ => {}) overChain).any _ = true by decide +kernel)
  obtain ⟨hsent, hin⟩ := of_decide_eq_true hp
  exact ⟨s, hs, hsent, hin⟩

theorem wormhole_chain : ∃ s, run chain.step (fun _ => {}) overChain = some s ∧ Whole (·.burst) ((s true).sent 1) := by
  obtain ⟨s, hs, -, hin⟩ := overChain_runs
  refine ⟨s, hs, (wormhole (·.burst) hs (fun n input hnone => ?_) true 1).2⟩
  cases eq_of_unfed hnone
  exact hin

theorem in_order_chain : ∃ s, run chain.step (fun _ => {}) overChain = some s ∧
    ((s true).sent 1).map (·.isLast) = [false, true] ∧
      chain.Delivers s (flow 0 1 ((s true).sent 1)) (flow 0 1 ((s false).arrived 0)) := by
  obtain ⟨s, hs, hsent, -⟩ := overChain_runs
  have hroute : chain.Route 1 [(false, 0), (true, 0)] := by
    refine ⟨.cons_cons ⟨1, rfl, rfl⟩ (.singleton _), by decide, fun x hx y => ?_⟩
    cases hx
    rintro ⟨output, hport, hfeeds⟩
    cases hport
    simp only [chain] at hfeeds
    grind
  exact ⟨s, hs, hsent, in_order hs hroute (fun _ _ hnone _ _ _ _ => eq_of_unfed hnone) rfl rfl⟩

end Network

end GvsocPulp.FloonocV2.RouterV2
