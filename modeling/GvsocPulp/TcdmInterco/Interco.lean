import GvsocPulp.Lib.ClockEvent
import GvsocPulp.Lib.Interleave
import GvsocPulp.Lib.Retry
import GvsocPulp.Lib.Run
import GvsocPulp.TcdmInterco.Mask

/-!
# The MAGIA TCDM interconnect

Narrow and wide masters over interleaved banks. A wide request is served on arrival where its banks are free; what is
denied is recorded, and an election (`fsm_handler`) retries the wide ports first and then one narrow master for each
bank.

- `inputReq`, `wideInputReq`, `forwardWide`: the two sides;
- `visitWide`, `visitBank`: the bodies of the two loops of the election;
- `step`: the events of the interconnect with its masters, also those that come while a `retry()` runs.
-/

namespace GvsocPulp.TcdmInterco

open Lib Nat

structure Config where
  nbMasters : Nat
  slaveBits : Nat
  interleavingWidth : Nat
  nbWideMasters : Nat
  masters_pos : 0 < nbMasters
  /-- The shifts of `decode_offset` are by less than the width of an address. -/
  shift_lt : slaveBits + interleavingWidth < 64

namespace Config

variable (cfg : Config)

def nbSlaves : Nat := 1 <<< cfg.slaveBits

def granule : Nat := 1 <<< cfg.interleavingWidth

end Config

/-- A request; `data` and `strb` are where its bytes and its byte enables are. -/
structure Req where
  addr : Nat
  size : Nat
  data : Option Nat := none
  strb : Option Nat := none
  isWrite : Bool := false
  deriving DecidableEq, Repr

structure Access where
  bank : Nat
  offset : Nat
  size : Nat
  data : Option Nat
  strb : Option Nat
  isWrite : Bool
  deriving DecidableEq, Repr

variable (cfg : Config)

def decodeBank (offset : Nat) : Nat :=
  if cfg.slaveBits = 0 then 0
  else (offset >>> cfg.interleavingWidth) &&& (1 <<< cfg.slaveBits - 1)

def decodeOffset (offset : Nat) : Nat :=
  let iw := cfg.interleavingWidth
  let iwMask := if iw = 0 then 0 else 1 <<< iw - 1
  let hiShift := cfg.slaveBits + iw
  ((offset >>> hiShift) <<< iw) ||| (offset &&& iwMask)

def chunks (addr size : Nat) : List (Nat × Nat) := pieces 64 cfg.granule addr size

variable {cfg}

theorem nbSlaves_pos : 0 < cfg.nbSlaves := by
  rw [Config.nbSlaves, shiftLeft_eq, Nat.one_mul]
  exact Nat.two_pow_pos _

theorem decodeBank_eq (addr : Nat) : decodeBank cfg addr = bankOf cfg.granule cfg.nbSlaves addr := by
  rw [decodeBank, bankOf, Config.granule, Config.nbSlaves]
  split
  case isTrue h => simp [h, mod_one]
  case isFalse =>
    simp only [shiftLeft_eq, Nat.one_mul]
    rw [and_two_pow_sub_one_eq_mod, shiftRight_eq_div_pow]

theorem decodeBank_lt (addr : Nat) : decodeBank cfg addr < cfg.nbSlaves := by
  rw [decodeBank_eq]
  exact mod_lt _ nbSlaves_pos

variable (cfg)

def wideClaimMask (addr size : Nat) : Mask cfg.nbSlaves :=
  (chunks cfg addr size).foldl (fun claim chunk => claim.set ⟨decodeBank cfg chunk.1, decodeBank_lt chunk.1⟩) .clear

/-- The request of one chunk: its data and its strobe are where those of the chunks before it end. -/
def forwardWideLoop (isWrite : Bool) : Option Nat → Option Nat → List (Nat × Nat) → List Access
  | _, _, [] => []
  | data, strb, (addr, chunk) :: rest =>
    ⟨decodeBank cfg addr, decodeOffset cfg addr, chunk, data, strb, isWrite⟩ ::
      forwardWideLoop isWrite (data.map (· + chunk)) (strb.map (· + chunk)) rest

def forwardWide (req : Req) : List Access :=
  forwardWideLoop cfg req.isWrite req.data req.strb (chunks cfg req.addr req.size)

/-- A narrow request, as its bank gets it. -/
def forward (req : Req) : Access :=
  { req with bank := decodeBank cfg req.addr, offset := decodeOffset cfg req.addr }

structure BankState where
  /-- Bit `i`: the input `i` has a denied request for this bank. -/
  pendingMask : Mask cfg.nbMasters := .clear
  rrNext : Nat := 0

structure WideState where
  pending : Bool := false
  pendingAddr : Nat := 0
  pendingSize : Nat := 0

structure Interco where
  banks : Nat → BankState cfg := fun _ => {}
  wides : Fin cfg.nbWideMasters → WideState := fun _ => {}
  inElection : Bool := false
  wideRetrying : Option (Fin cfg.nbWideMasters) := none
  banksBusy : Mask cfg.nbSlaves := .clear
  banksBusyCycle : Int := -1
  wideClaim : Mask cfg.nbSlaves := .clear
  banksTaken : Mask cfg.nbSlaves := .clear
  fsmEvent : Option Nat := none
  cycle : Nat := 0

/-- What a port is answered, and what the banks are asked for. -/
abbrev Answer := Status × Interco cfg × List Access

namespace Interco

variable {cfg} (s : Interco cfg)

def enqueueFsm (delay : Nat) : Interco cfg := { s with fsmEvent := enqueue s.cycle delay s.fsmEvent }

def setBank (b : Nat) (bank : BankState cfg) : Interco cfg := { s with banks := Function.update s.banks b bank }

def setWide (i : Fin cfg.nbWideMasters) (w : WideState) : Interco cfg := { s with wides := Function.update s.wides i w }

def banksBusyNow : Interco cfg :=
  if s.banksBusyCycle ≠ s.cycle then { s with banksBusyCycle := s.cycle, banksBusy := .clear } else s

def inputReq (req : Req) (id : Fin cfg.nbMasters) : Answer cfg :=
  if s.inElection then (.done, s, [forward cfg req])
  else
    let b := decodeBank cfg req.addr
    let bank := s.banks b
    (.denied, (s.setBank b { bank with pendingMask := bank.pendingMask.set id }).enqueueFsm 0, [])

/-- The end of `wide_input_req`: the request is denied. -/
def denyWide (req : Req) (id : Fin cfg.nbWideMasters) : Answer cfg :=
  (.denied, (s.setWide id ⟨true, req.addr, req.size⟩).enqueueFsm 0, [])

def wideInputReq (req : Req) (id : Fin cfg.nbWideMasters) : Answer cfg :=
  if s.wideRetrying = some id then (.done, s, forwardWide cfg req)
  else if !s.inElection then
    let s := { s with wideClaim := wideClaimMask cfg req.addr req.size }.banksBusyNow
    if !s.wideClaim.intersects s.banksBusy then
      (.done, { s with banksBusy := s.banksBusy.merge s.wideClaim }, forwardWide cfg req)
    else s.denyWide req id
  else s.denyWide req id

end Interco

/-- Where `fsm_handler` is. -/
inductive Pc
  | wide (i : Nat)
  | wideRetry (i : Fin cfg.nbWideMasters)
  | bank (b : Nat)
  | bankRetry (b : Nat) (winner : Fin cfg.nbMasters)
  deriving DecidableEq, Repr

/-- The locals of `fsm_handler`. -/
structure Election where
  pc : Pc cfg
  anyRemaining : Bool := false
  deriving DecidableEq, Repr

inductive Port
  | narrow (id : Fin cfg.nbMasters)
  | wide (id : Fin cfg.nbWideMasters)
  deriving DecidableEq, Repr

namespace Interco

variable {cfg} (s : Interco cfg)

/-- `fsm_handler` up to its loops. -/
def startElection : Interco cfg :=
  let s := { s with fsmEvent := none }.banksBusyNow
  { s with banksTaken := s.banksBusy }

variable (e : Election cfg)

/-- The body of the loop over the wide inputs, up to the `retry()`. -/
def visitWide (i : Fin cfg.nbWideMasters) : Interco cfg × Election cfg :=
  let w := s.wides i
  if !w.pending then (s, { e with pc := .wide (i + 1) })
  else
    let s := { s with wideClaim := wideClaimMask cfg w.pendingAddr w.pendingSize }
    if s.wideClaim.intersects s.banksTaken then (s, { pc := .wide (i + 1), anyRemaining := true })
    else
      let s := { s with
        banksTaken := s.banksTaken.merge s.wideClaim
        banksBusy := s.banksBusy.merge s.wideClaim
        wideRetrying := some i }
      (s.setWide i { w with pending := false }, { e with pc := .wideRetry i })

/-- The body of the loop over the banks, up to the `retry()`. -/
def visitBank (b : Fin cfg.nbSlaves) : Interco cfg × Election cfg :=
  let bank := s.banks b
  if !bank.pendingMask.any then (s, { e with pc := .bank (b + 1) })
  else if s.banksTaken.test b then (s, { pc := .bank (b + 1), anyRemaining := true })
  else
    match bank.pendingMask.firstFrom bank.rrNext with
    | some winner =>
      let s := s.setBank b {
        pendingMask := bank.pendingMask.reset winner
        rrNext := (winner + 1) % cfg.nbMasters }
      ({ s with banksBusy := s.banksBusy.set b }, { e with pc := .bankRetry b winner })
    -- the mask has a bit
    | none => (s, { e with pc := .bank (b + 1) })

def retryReturn : Interco cfg × Election cfg :=
  match e.pc with
  | .wideRetry i => ({ s with wideRetrying := none }, { e with pc := .wide (i + 1) })
  | .bankRetry b _ => (s, { pc := .bank (b + 1), anyRemaining := e.anyRemaining || (s.banks b).pendingMask.any })
  | _ => (s, e)

/-- `fsm_handler` after its loops. -/
def endElection : Interco cfg :=
  let s := { s with inElection := false }
  if e.anyRemaining then s.enqueueFsm 1 else s

end Interco

/-! ## The interconnect and its masters -/

def fullAccess (port : Port cfg) (req : Req) : List Access :=
  match port with
  | .narrow _ => [forward cfg req]
  | .wide _ => forwardWide cfg req

/-- The interconnect, and its masters' requests: a round of the book is a cycle. -/
structure System where
  ico : Interco cfg := {}
  election : Option (Election cfg) := none
  book : Book (Port cfg) Req Access := {}

inductive Event
  | input (id : Fin cfg.nbMasters) (req : Req)
  | wideInput (id : Fin cfg.nbWideMasters) (req : Req)
  | fsm
  | visit
  | reissue
  | retryReturn
  | tick
  deriving DecidableEq, Repr

namespace System

variable {cfg} (s : System cfg)

variable (port : Port cfg)

def answered (n : Nat) (answer : Answer cfg) : System cfg :=
  { s with ico := answer.2.1, book := s.book.answered port n answer.1 answer.2.2 }

def issue (req : Req) (answer : Answer cfg) : System cfg :=
  { s with book := s.book.ask port req }.answered port s.book.issued.length answer

def request (req : Req) : Answer cfg :=
  match port with
  | .narrow id => s.ico.inputReq req id
  | .wide id => s.ico.wideInputReq req id

/-- The master whose `retry()` runs issues its request again. -/
def reissue : Option (System cfg) := do
  let n ← s.book.held port
  let (_, req) ← s.book.issued[n]?
  return { s with book := s.book.close }.answered port n (s.request port req)

/-- What the election does next, with the retry it may start. -/
def visit (e : Election cfg) : Option (System cfg) :=
  match e.pc with
  | .wide i =>
    if hi : i < cfg.nbWideMasters then
      let (ico, e₁) := s.ico.visitWide e ⟨i, hi⟩
      some { ico := ico, election := some e₁, book := if e₁.pc = .wideRetry ⟨i, hi⟩ then s.book.retry (.wide ⟨i, hi⟩)
        else s.book }
    else some { s with ico := { s.ico with inElection := true }, election := some { e with pc := .bank 0 } }
  | .bank b =>
    if hb : b < cfg.nbSlaves then
      let (ico, e₁) := s.ico.visitBank e ⟨b, hb⟩
      some { ico := ico, election := some e₁, book := match e₁.pc with
        | .bankRetry _ winner => s.book.retry (.narrow winner)
        | _ => s.book }
    else some { s with ico := s.ico.endElection e, election := none }
  | _ => none

end System

variable {cfg}

/-- One event. A narrow master issues new requests while `in_election` is not set, a wide one at any time at which it
may run; a port that holds a denied request issues no other, and a `retry()` returns once the request has been issued
again. -/
def step (s : System cfg) : Event cfg → Option (System cfg)
  | .input id req =>
    if s.book.held (.narrow id) = none ∧ !s.ico.inElection then some (s.issue (.narrow id) req (s.ico.inputReq req id))
    else none
  | .wideInput id req =>
    if s.book.held (.wide id) = none then some (s.issue (.wide id) req (s.ico.wideInputReq req id)) else none
  | .fsm =>
    if s.election.isNone ∧ s.ico.fsmEvent = some s.ico.cycle then
      some { s with ico := s.ico.startElection, election := some { pc := .wide 0 } }
    else none
  | .visit => s.election.bind s.visit
  | .reissue => s.book.opened.bind s.reissue
  | .retryReturn =>
    match s.election, s.book.opened with
    | some e, none =>
      let (ico, e₁) := s.ico.retryReturn e
      some { s with ico := ico, election := some e₁ }
    | _, _ => none
  | .tick =>
    if s.election.isNone ∧ s.ico.fsmEvent ≠ some s.ico.cycle then
      some { s with ico := { s.ico with cycle := s.ico.cycle + 1 }, book := s.book.nextRound }
    else none

end GvsocPulp.TcdmInterco
