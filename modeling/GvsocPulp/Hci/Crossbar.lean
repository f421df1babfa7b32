import GvsocPulp.Lib.ClockEvent
import GvsocPulp.Lib.Interleave
import GvsocPulp.Lib.Masks
import GvsocPulp.Lib.Retry
import GvsocPulp.Lib.Run

/-!
# The HCI crossbar

Narrow and wide masters over interleaved banks. A request is denied and recorded; an election (`fsm_handler`) retries
the winners, which issue their request again from inside the `retry()`.

- `inputReq`, `wideInputReq`, `wideForward`: the two sides of the crossbar;
- `serveBank`, `serveWide`: what the election does with one bank, and with one wide port;
- `step`: the events of the crossbar with its masters, also those that come while a `retry()` runs.
-/

namespace GvsocPulp.Hci

open Lib

structure Config where
  nbMasters : Nat
  /-- The masters of the first arbitration group; 0 for a flat election. -/
  nbGroup0Masters : Nat
  slaveBits : Nat
  interleavingWidth : Nat
  nbWideMasters : Nat
  wideMaxStall : Int
  widePrio : Bool
  masters_pos : 0 < nbMasters
  masters_le : nbMasters ≤ 64
  group0_le : nbGroup0Masters ≤ nbMasters
  slaves_le : slaveBits ≤ 6
  /-- The shifts of `decode_offset` are by less than the width of an address. -/
  shift_lt : slaveBits + interleavingWidth < 64

namespace Config

variable (cfg : Config)

def nbSlaves : Nat := 1 <<< cfg.slaveBits

def group0Mask : BitVec 64 := if 64 ≤ cfg.nbGroup0Masters then ~~~0#64 else (1#64 <<< cfg.nbGroup0Masters) - 1#64

def granule : Nat := 1 <<< cfg.interleavingWidth

end Config

/-- A request; `data` is where its bytes are. -/
structure Req where
  addr : Nat
  size : Nat
  data : Nat
  isWrite : Bool
  deriving DecidableEq, Repr

structure Access where
  bank : Nat
  offset : Nat
  size : Nat
  data : Nat
  isWrite : Bool
  deriving DecidableEq, Repr

structure BankState where
  /-- Bit `i`: the narrow input `i` has a denied request for this bank. -/
  pendingMask : BitVec 64 := 0#64
  rrNext : Nat := 0
  rrNextGroup : Bool → Nat := fun _ => 0
  group1Prio : Bool := false

structure WideState where
  pending : Bool := false
  bankMask : BitVec 64 := 0#64
  /-- The next request of this port is forwarded. -/
  elected : Bool := false

structure Crossbar where
  banks : Nat → BankState := fun _ => {}
  wides : Nat → WideState := fun _ => {}
  inElection : Bool := false
  lowStallCtr : Nat := 0
  wideMaxStall : Int
  widePrio : Bool
  fsmEvent : Option Nat := none
  nextCycleEvent : Option Nat := none
  cycle : Nat := 0

variable (cfg : Config)

def decodeBank (offset : Nat) : Nat :=
  if cfg.slaveBits = 0 then 0
  else (offset >>> cfg.interleavingWidth) &&& (1 <<< cfg.slaveBits - 1)

def decodeOffset (offset : Nat) : Nat :=
  let iw := cfg.interleavingWidth
  let iwMask := if iw = 0 then 0 else 1 <<< iw - 1
  let hiShift := cfg.slaveBits + iw
  ((offset >>> hiShift) <<< iw) ||| (offset &&& iwMask)

def chunks (addr size : Nat) : List (Nat × Nat) := pieces 64 cfg.granule addr size

/-- `pick_winner`: the first bit of the mask at or after `rrNext`, around the `nb` bits. -/
def pickWinner (mask : BitVec 64) (rrNext nb : Nat) : Nat :=
  let valid := if nb = 64 then ~~~0#64 else (1#64 <<< nb) - 1#64
  let mask := mask &&& valid
  let rotated := if rrNext = 0 then mask else ((mask >>> rrNext) ||| (mask <<< (nb - rrNext))) &&& valid
  (rrNext + rotated.ctz.toNat) % nb

/-- `compute_bank_mask`; it fails on more granules than banks. -/
def computeBankMask (addr size : Nat) : Option (BitVec 64) :=
  if (chunks cfg addr size).length ≤ cfg.nbSlaves then
    some ((chunks cfg addr size).foldl (fun mask chunk => mask ||| 1#64 <<< decodeBank cfg chunk.1) 0#64)
  else none

/-- The request of one chunk: its place in the data is where the chunks before it end. -/
def wideForwardLoop (req : Req) : Nat → List (Nat × Nat) → List Access
  | _, [] => []
  | offset, (addr, chunk) :: rest =>
    ⟨decodeBank cfg addr, decodeOffset cfg addr, chunk, req.data + offset, req.isWrite⟩ ::
      wideForwardLoop req (offset + chunk) rest

def wideForward (req : Req) : List Access := wideForwardLoop cfg req 0 (chunks cfg req.addr req.size)

/-- A narrow request, as its bank gets it. -/
def forward (req : Req) : Access :=
  ⟨decodeBank cfg req.addr, decodeOffset cfg req.addr, req.size, req.data, req.isWrite⟩

/-- What a port is answered, and what the banks are asked for. -/
abbrev Answer := Status × Crossbar × List Access

namespace Crossbar

variable (s : Crossbar)

def enqueueFsm (delay : Nat) : Crossbar := { s with fsmEvent := enqueue s.cycle delay s.fsmEvent }

def enqueueNextCycle (delay : Nat) : Crossbar := { s with nextCycleEvent := enqueue s.cycle delay s.nextCycleEvent }

def setBank (b : Nat) (bank : BankState) : Crossbar := { s with banks := Function.update s.banks b bank }

def setWide (i : Nat) (w : WideState) : Crossbar := { s with wides := Function.update s.wides i w }

def ctrlSync (value : BitVec 32) : Crossbar :=
  { s with
    wideMaxStall := (value &&& 0xff#32).toNat
    widePrio := value.getLsbD 8
    lowStallCtr := 0 }

def inputReq (req : Req) (id : Nat) : Answer :=
  if s.inElection then (.done, s, [forward cfg req])
  else
    let b := decodeBank cfg req.addr
    let bank := s.banks b
    (.denied, (s.setBank b { bank with pendingMask := bank.pendingMask ||| 1#64 <<< id }).enqueueFsm 0, [])

def wideInputReq (req : Req) (id : Nat) : Option Answer :=
  let w := s.wides id
  if w.elected then some (.done, s.setWide id { w with elected := false }, wideForward cfg req)
  else
    (computeBankMask cfg req.addr req.size).map fun bankMask =>
      let s₁ := s.setWide id { w with bankMask := bankMask, pending := true }
      (.denied, if s.inElection then s₁.enqueueNextCycle 1 else s₁.enqueueFsm 0, [])

end Crossbar

/-- The winner of a bank in `serve_narrow`, and the bank once it is picked. -/
def pickNarrow (bank : BankState) : Nat × BankState :=
  if cfg.nbGroup0Masters = 0 then
    let winner := pickWinner bank.pendingMask bank.rrNext cfg.nbMasters
    (winner, { bank with
      rrNext := (winner + 1) % cfg.nbMasters
      pendingMask := bank.pendingMask &&& ~~~(1#64 <<< winner) })
  else
    let mask0 := bank.pendingMask &&& cfg.group0Mask
    let mask1 := bank.pendingMask &&& ~~~cfg.group0Mask
    let group := decide (mask1 ≠ 0#64) && (decide (mask0 = 0#64) || bank.group1Prio)
    let mask := if group then mask1 else mask0
    let winner := pickWinner mask (bank.rrNextGroup group) cfg.nbMasters
    (winner, { bank with
      rrNextGroup := Function.update bank.rrNextGroup group ((winner + 1) % cfg.nbMasters)
      group1Prio := !bank.group1Prio
      pendingMask := bank.pendingMask &&& ~~~(1#64 <<< winner) })

inductive Port
  | narrow (id : Nat)
  | wide (id : Nat)
  deriving DecidableEq, Repr

/-- What the two loops of an election go through. -/
inductive Visit
  | bank (b : Nat)
  | wide (id : Nat)
  deriving DecidableEq, Repr

/-- An election that is going on: the locals of `fsm_handler`, what is left of its loops, and the port whose `retry()`
runs. -/
structure Election where
  wideRequested : Bool
  narrowRequested : Bool
  lowTurn : Bool
  taken : BitVec 64 := 0#64
  todo : List Visit
  retrying : Option Port := none
  deriving Repr

namespace Crossbar

variable (s : Crossbar)

def widePending : Bool := (List.range cfg.nbWideMasters).any fun i => (s.wides i).pending

def narrowPending : Bool := (List.range cfg.nbSlaves).any fun b => (s.banks b).pendingMask ≠ 0#64

def wideVisits : List Visit := (List.range cfg.nbWideMasters).map .wide

def narrowVisits : List Visit := (List.range cfg.nbSlaves).map .bank

/-- `fsm_handler` up to its loops. -/
def startElection : Crossbar × Election :=
  let wideRequested := s.widePending cfg
  let narrowRequested := s.narrowPending cfg
  let lowPending := if s.widePrio then narrowRequested else wideRequested
  let lowTurn := decide (0 < s.wideMaxStall) && lowPending && decide (s.wideMaxStall ≤ s.lowStallCtr)
  let wideFirst := s.widePrio ^^ lowTurn
  let todo :=
    if wideFirst then wideVisits cfg ++ if lowTurn then [] else narrowVisits cfg
    else narrowVisits cfg ++ if lowTurn then [] else wideVisits cfg
  ({ s with inElection := true, fsmEvent := none }, { wideRequested, narrowRequested, lowTurn, todo })

/-- The body of the loop of `serve_narrow`. -/
def serveBank (e : Election) (b : Nat) : Crossbar × Election :=
  let bank := s.banks b
  if bank.pendingMask = 0#64 then (s, e)
  else if e.taken &&& 1#64 <<< b ≠ 0#64 then (s, e)
  else
    let (winner, bank) := pickNarrow cfg bank
    (s.setBank b bank, { e with taken := e.taken ||| 1#64 <<< b, retrying := some (.narrow winner) })

/-- The body of the loop of `serve_wide`. -/
def serveWide (e : Election) (id : Nat) : Crossbar × Election :=
  let w := s.wides id
  if !w.pending then (s, e)
  else if w.bankMask &&& e.taken ≠ 0#64 then (s, e)
  else
    (s.setWide id { w with pending := false, elected := true },
      { e with taken := e.taken ||| w.bankMask, retrying := some (.wide id) })

def visit (e : Election) : Visit → Crossbar × Election
  | .bank b => s.serveBank cfg e b
  | .wide id => s.serveWide e id

def retryReturn : Port → Crossbar
  | .narrow _ => s
  | .wide id => s.setWide id { s.wides id with elected := false }

/-- `fsm_handler` after its loops. -/
def endElection (e : Election) : Crossbar :=
  let wideRemaining := s.widePending cfg
  let narrowRemaining := s.narrowPending cfg
  let lowRemaining := if s.widePrio then narrowRemaining else wideRemaining
  let highRequested := if s.widePrio then e.wideRequested else e.narrowRequested
  let lowStallCtr := if e.lowTurn then 0 else if lowRemaining && highRequested then s.lowStallCtr + 1 else 0
  let s₁ := { s with inElection := false, lowStallCtr := lowStallCtr }
  if narrowRemaining || wideRemaining then s₁.enqueueNextCycle 1 else s₁

def nextCycleHandler : Crossbar := { s with nextCycleEvent := none }.enqueueFsm 0

end Crossbar

/-! ## The crossbar and its masters -/

def fullAccess (port : Port) (req : Req) : List Access :=
  match port with
  | .narrow _ => [forward cfg req]
  | .wide _ => wideForward cfg req

/-- The crossbar, and its masters' requests: a round of the book is an election. -/
structure System where
  hci : Crossbar
  election : Option Election := none
  book : Book Port Req Access := {}

inductive Event
  | input (id : Nat) (req : Req)
  | wideInput (id : Nat) (req : Req)
  | ctrl (value : BitVec 32)
  | nextCycle
  | fsm
  | visit
  | reissue
  | retryReturn
  | endElection
  | tick
  deriving DecidableEq, Repr

def initial : System := { hci := { wideMaxStall := cfg.wideMaxStall, widePrio := cfg.widePrio } }

namespace System

variable (s : System)

def answered (port : Port) (n : Nat) (answer : Answer) : System :=
  { s with hci := answer.2.1, book := s.book.answered port n answer.1 answer.2.2 }

def issue (port : Port) (req : Req) (answer : Answer) : System :=
  { s with book := s.book.ask port req }.answered port s.book.issued.length answer

def request (port : Port) (req : Req) : Option Answer :=
  match port with
  | .narrow id => some (s.hci.inputReq cfg req id)
  | .wide id => s.hci.wideInputReq cfg req id

/-- The master whose `retry()` runs issues its request again. -/
def reissue (port : Port) : Option System := do
  let n ← s.book.held port
  let (_, req) ← s.book.issued[n]?
  let answer ← s.request cfg port req
  return { s with book := s.book.close }.answered port n answer

def visit (e : Election) (v : Visit) : System :=
  let (hci, e₁) := s.hci.visit cfg e v
  match e₁.retrying with
  | some port => { hci := hci, election := some e₁, book := s.book.retry port }
  | none => { s with hci := hci, election := some e₁ }

end System

/-- One event. A narrow master issues new requests outside the elections, a wide one also from inside a `retry()`; a
port that holds a denied request issues no other, and a `retry()` returns once the request has been issued again. -/
def step (s : System) : Event → Option System
  | .input id req =>
    if id < cfg.nbMasters ∧ s.book.held (.narrow id) = none ∧ s.election.isNone then
      some (s.issue (.narrow id) req (s.hci.inputReq cfg req id))
    else none
  | .wideInput id req =>
    if id < cfg.nbWideMasters ∧ s.book.held (.wide id) = none ∧ s.election.all (·.retrying.isSome) then
      (s.hci.wideInputReq cfg req id).map (s.issue (.wide id) req)
    else none
  | .ctrl value => some { s with hci := s.hci.ctrlSync value }
  | .nextCycle =>
    if s.election.isNone ∧ s.hci.nextCycleEvent = some s.hci.cycle then some { s with hci := s.hci.nextCycleHandler }
    else none
  | .fsm =>
    if s.election.isNone ∧ s.hci.fsmEvent = some s.hci.cycle then
      let (hci, e) := s.hci.startElection cfg
      some { hci := hci, election := some e, book := s.book.nextRound }
    else none
  | .visit =>
    match s.election with
    | some e =>
      match e.retrying, e.todo with
      | none, v :: todo => some (s.visit cfg { e with todo := todo } v)
      | _, _ => none
    | none => none
  | .reissue => s.book.opened.bind (s.reissue cfg)
  | .retryReturn =>
    match s.election with
    | some e =>
      match e.retrying, s.book.opened with
      | some port, none => some { s with hci := s.hci.retryReturn port, election := some { e with retrying := none } }
      | _, _ => none
    | none => none
  | .endElection =>
    match s.election with
    | some e =>
      match e.retrying, e.todo with
      | none, [] => some { s with hci := s.hci.endElection cfg e, election := none }
      | _, _ => none
    | none => none
  | .tick =>
    if s.election.isNone ∧ s.hci.fsmEvent ≠ some s.hci.cycle ∧ s.hci.nextCycleEvent ≠ some s.hci.cycle then
      some { s with hci := { s.hci with cycle := s.hci.cycle + 1 } }
    else none

/-! ## What a step does -/

variable {cfg} {s s' : System}

theorem visit_inv (hs : step cfg s .visit = some s') : ∃ e v todo, s.election = some e ∧ e.retrying = none ∧
    e.todo = v :: todo ∧ s' = s.visit cfg { e with todo := todo } v := by
  simp only [step] at hs
  split at hs
  case h_2 => cases hs
  case h_1 e he =>
    split at hs
    case h_2 => cases hs
    case h_1 v todo hretrying htodo =>
      cases hs
      exact ⟨e, v, todo, he, hretrying, htodo, rfl⟩

theorem reissue_inv (hs : step cfg s .reissue = some s') : ∃ port n p req answer, s.book.opened = some port ∧
    s.book.held port = some n ∧ s.book.issued[n]? = some (p, req) ∧ s.request cfg port req = some answer ∧
    s' = { s with book := s.book.close }.answered port n answer := by
  obtain ⟨port, hopened, hs⟩ := Option.bind_eq_some_iff.1 hs
  simp only [System.reissue, Option.bind_eq_bind, Option.bind_eq_some_iff] at hs
  obtain ⟨n, hn, ⟨p, req⟩, hreq, answer, hanswer, hs⟩ := hs
  cases hs
  exact ⟨port, n, p, req, answer, hopened, hn, hreq, hanswer, rfl⟩

theorem retryReturn_inv (hs : step cfg s .retryReturn = some s') : ∃ e port, s.election = some e ∧
    e.retrying = some port ∧
    s.book.opened = none ∧
      s' = { s with hci := s.hci.retryReturn port, election := some { e with retrying := none } } := by
  simp only [step] at hs
  split at hs
  case h_2 => cases hs
  case h_1 e he =>
    split at hs
    case h_2 => cases hs
    case h_1 port hretrying hopened =>
      cases hs
      exact ⟨e, port, he, hretrying, hopened, rfl⟩

theorem endElection_inv (hs : step cfg s .endElection = some s') : ∃ e, s.election = some e ∧ e.retrying = none ∧
    e.todo = [] ∧ s' = { s with hci := s.hci.endElection cfg e, election := none } := by
  simp only [step] at hs
  split at hs
  case h_2 => cases hs
  case h_1 e he =>
    split at hs
    case h_2 => cases hs
    case h_1 hretrying htodo =>
      cases hs
      exact ⟨e, he, hretrying, htodo, rfl⟩

end GvsocPulp.Hci
