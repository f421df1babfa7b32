import GvsocPulp.FloonocV2.Flit

/-!
# The router

`RouterV2`: an input FIFO and an output FIFO for each port, and for each output a wormhole arbiter (`OutputArbiter`)
that moves at most one flit per cycle from the input FIFOs to its output FIFO. A request mask is a number, input `i` its
bit `i`. `vp::Queue` is a FIFO whose head becomes visible some time after it was pushed (`RouterEnv.visible`).
-/

namespace GvsocPulp.FloonocV2

open Function

/-! ## State -/

abbrev outputDepth : Nat := 2

/-- What a router is configured with. `getOutputPort` is `get_output_port(dest_id)`, `none` where it is fatal. -/
structure RouterV2Config where
  nbPorts : Nat
  /-- The configured queue size plus the pipeline stages of the link. -/
  queueCapacity : Nat → Nat
  getOutputPort : Int → Option Nat

def RouterV2Config.arbLevels (cfg : RouterV2Config) : Nat := Nat.clog 2 cfg.nbPorts

structure OutputArbiter where
  validQ : Nat := 0
  lastQ : Bool := false
  reqQ : Nat := 0
  lockQ : Bool := false
  rrQ : Nat := 0
  deriving DecidableEq, Repr

/-- What a router calls, and what its link callback returns. -/
inductive RouterOutput
  | link (output : Nat) (flit : Flit)
  | unstall (input : Nat)
  | linkStatus (input : Nat) (flit : Flit) (stalled : Bool)
  deriving DecidableEq, Repr

/-- `RouterV2`, with what it has called or returned in this event. -/
structure RouterV2 where
  inputQueues : Nat → List Flit := fun _ => []
  outputQueues : Nat → List Flit := fun _ => []
  stalledQueues : Nat → Bool := fun _ => false
  unstallCycle : Nat → Int := fun _ => -1
  arbiters : Nat → OutputArbiter := fun _ => {}
  outputs : List RouterOutput := []

/-- What the environment answers in one event: the cycle, which heads of the input and output FIFOs are visible, and
whether the next node is full after a flit. -/
structure RouterEnv where
  now : Int
  visible : Nat → Bool := fun _ => true
  outputVisible : Nat → Bool := fun _ => true
  linkFull : Nat → Bool := fun _ => false

namespace RouterV2

variable (cfg : RouterV2Config) (env : RouterEnv) (s : RouterV2)

def output (o : RouterOutput) : RouterV2 := { s with outputs := s.outputs ++ [o] }

/-! ## Links -/

/-- `link_req`: the flit takes its input FIFO; the sender has to stall once it is full. -/
def linkReq (input : Nat) (flit : Flit) : RouterV2 :=
  let queue := s.inputQueues input ++ [flit]
  { s with inputQueues := update s.inputQueues input queue }.output
    (.linkStatus input flit (decide (cfg.queueCapacity input ≤ queue.length)))

def linkUnstall (output : Nat) : RouterV2 :=
  { s with
    stalledQueues := update s.stalledQueues output false
    unstallCycle := update s.unstallCycle output env.now }

/-- The head of an output FIFO goes on the link, unless the next node is full. -/
def sendOutput (output : Nat) : RouterV2 :=
  match s.outputQueues output with
  | [] => s
  | flit :: rest =>
    if s.stalledQueues output || !env.outputVisible output || s.unstallCycle output == env.now then s
    else
      { s with
        outputQueues := update s.outputQueues output rest
        stalledQueues := if env.linkFull output then update s.stalledQueues output true else s.stalledQueues
      }.output (.link output flit)

/-! ## Arbiters -/

/-- `arb_select`: at each node of the tree the right subtree, when the left one has no request, or both have one and the
bit of the level is set in `rr`. -/
def arbSelect (req rr : Nat) : (levels lo : Nat) → Nat
  | 0, lo => lo
  | level + 1, lo =>
    let half := 2 ^ level
    let left := (req >>> lo) % 2 ^ half
    let right := (req >>> (lo + half)) % 2 ^ half
    arbSelect req rr level (if left = 0 ∨ (right ≠ 0 ∧ rr.testBit level) then lo + half else lo)

/-- `arb_next`: the first request above `rr`, else the first one up to it. -/
def arbNext (nbPorts req rr : Nat) : Nat :=
  ((List.range' (rr + 1) (nbPorts - (rr + 1)) ++ List.range (rr + 1)).find? (req.testBit ·)).getD rr

/-- The output of the head flit of an input, `none` for no flit; the outer `none` where the route is fatal. -/
def headOutput (input : Nat) : Option (Option Nat) :=
  match s.inputQueues input with
  | [] => some none
  | flit :: _ => if env.visible input then (cfg.getOutputPort flit.destId).map some else some none

def validIn (heads : List (Option Nat)) (output : Nat) : Nat :=
  ((List.range heads.length).filter fun input => heads[input]? = some (some output)).foldl
    (fun mask input => mask ||| 1 <<< input) 0

/-- The head of an input FIFO goes to an output FIFO; its sender is unstalled where the FIFO was full. -/
def moveFlit (input output : Nat) (flit : Flit) (rest : List Flit) : RouterV2 :=
  let s := { s with
    inputQueues := update s.inputQueues input rest
    outputQueues := update s.outputQueues output (s.outputQueues output ++ [flit]) }
  if rest.length + 1 = cfg.queueCapacity input then s.output (.unstall input) else s

section

variable {cfg} {s : RouterV2} {input output : Nat} {flit : Flit} {rest : List Flit}

@[simp] theorem moveFlit_inputQueues :
    (s.moveFlit cfg input output flit rest).inputQueues = update s.inputQueues input rest := by
  rw [moveFlit]
  split <;> rfl

@[simp] theorem moveFlit_outputQueues : (s.moveFlit cfg input output flit rest).outputQueues =
    update s.outputQueues output (s.outputQueues output ++ [flit]) := by
  rw [moveFlit]
  split <;> rfl

@[simp] theorem moveFlit_stalledQueues :
    (s.moveFlit cfg input output flit rest).stalledQueues = s.stalledQueues := by
  rw [moveFlit]
  split <;> rfl

theorem moveFlit_outputs : (s.moveFlit cfg input output flit rest).outputs =
    s.outputs ++ if rest.length + 1 = cfg.queueCapacity input then [.unstall input] else [] := by
  rw [moveFlit]
  split
  · rfl
  · exact (List.append_nil _).symm

end

def arbitrate (full : Nat → Bool) (heads : List (Option Nat)) (s : RouterV2) (output : Nat) : RouterV2 :=
  let arb := s.arbiters output
  let validI := validIn heads output
  if validI = 0 ∧ arb.validQ = 0 ∧ !arb.lockQ ∧ !arb.lastQ then s
  else
    let validD := if arb.validQ = 0 ∨ arb.lastQ then validI else arb.validQ
    let reqD := if arb.lockQ then arb.reqQ else validD
    let reqO := reqD ≠ 0
    let idx := if reqO then arbSelect reqD arb.rrQ cfg.arbLevels 0 else 0
    let sel := if validI ≠ 0 then idx else 0
    let validO := validI.testBit sel
    let readyI := !full output
    let (s, lastOut) :=
      match s.inputQueues sel with
      | flit :: rest =>
        if validO && readyI then (s.moveFlit cfg sel output flit rest, flit.isLast)
        else (s, validO && flit.isLast)
      | [] => (s, false)
    let gntI := readyI && lastOut
    let arb : OutputArbiter :=
      { validQ := validD
        lastQ := lastOut && readyI
        reqQ := reqD
        lockQ := decide reqO && !gntI
        rrQ := if gntI ∧ reqO then arbNext cfg.nbPorts reqD arb.rrQ else arb.rrQ }
    { s with arbiters := update s.arbiters output arb }

theorem arbitrate_cases (full : Nat → Bool) (heads : List (Option Nat)) (s : RouterV2) (output : Nat) :
    ∃ arbiters, arbitrate cfg full heads s output = { s with arbiters := arbiters } ∨
      ∃ input flit rest, s.inputQueues input = flit :: rest ∧ full output = false ∧
        (validIn heads output).testBit input = true ∧
        arbitrate cfg full heads s output = { s.moveFlit cfg input output flit rest with arbiters := arbiters } := by
  rw [arbitrate]
  dsimp only
  split
  · exact ⟨s.arbiters, .inl rfl⟩
  · generalize (if validIn heads output ≠ 0 then _ else 0) = sel
    split
    case h_1 flit rest hq =>
      split
      case isTrue hmove =>
        rw [Bool.and_eq_true, Bool.not_eq_true'] at hmove
        exact ⟨_, .inr ⟨sel, flit, rest, hq, hmove.2, hmove.1, rfl⟩⟩
      case isFalse => exact ⟨_, .inl rfl⟩
    case h_2 => exact ⟨_, .inl rfl⟩

/-! ## The handler -/

/-- `fsm_handler`. The outputs that are full at its start take no flit in it. -/
def fsmHandler (s : RouterV2) : Option RouterV2 :=
  let ports := List.range cfg.nbPorts
  let full := fun output => decide (outputDepth ≤ (s.outputQueues output).length)
  let s := ports.foldl (sendOutput env) s
  (ports.mapM (s.headOutput cfg env)).map fun heads => ports.foldl (arbitrate cfg full heads) s

end RouterV2

/-! ## Events -/

inductive RouterEvent
  | fsm
  | linkReq (input : Nat) (flit : Flit)
  | linkUnstall (output : Nat)
  deriving DecidableEq

/-- **A step** of a router, with what the environment answers in it. -/
def routerStep (cfg : RouterV2Config) (s : RouterV2) (e : RouterEnv × RouterEvent) : Option RouterV2 :=
  let s := { s with outputs := [] }
  match e.2 with
  | .fsm => s.fsmHandler cfg e.1
  | .linkReq input flit => some (s.linkReq cfg input flit)
  | .linkUnstall output => some (s.linkUnstall e.1 output)

end GvsocPulp.FloonocV2
