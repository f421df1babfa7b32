import GvsocPulp.Lib.Log2
import GvsocPulp.TcdmInterco.Interco

/-!
# The Spatz TCDM interconnect

A fork of the MAGIA interconnect, with the same state and the same bodies for what is not here. It has one wide port
towards the banks, which carries one access per cycle (`wide_used_cycle`), and it may arbitrate as the `rr_arb_tree` of
the RTL.

- `rrTreePick`, `pick`: the winner of a bank and its next priority pointer;
- `wideInputReq`, `visitWide`, `visitBank`: what differs;
- `step`: masters run outside of elections, and inside of a `retry()`.
-/

namespace GvsocPulp.SpatzTcdmInterco

open Lib
open TcdmInterco (Mask Req Access BankState WideState Port Pc Election Event forwardWide wideClaimMask)

structure Config extends TcdmInterco.Config where
  rrTree : Bool

variable (cfg : Config)

structure Interco extends TcdmInterco.Interco cfg.toConfig where
  wideUsedCycle : Int := -1

abbrev Answer := Status × Interco cfg × List Access

/-! ## The arbiters -/

section RrTree

variable {nb : Nat} (req : Mask nb)

/-- `any_in` of `rr_tree_pick`. -/
def anyIn (lo hi : Nat) : Bool := (List.range nb).any fun i => lo ≤ i && i < hi && req.test i

/-- The loop of `rr_tree_pick`, with the levels below. -/
def rrTreeLoop (rrQ : Nat) : Nat → Nat → Nat
  | 0, lo => lo
  | bit + 1, lo =>
    let half := 1 <<< bit
    let left := anyIn req lo (lo + half)
    let right := anyIn req (lo + half) (lo + 2 * half)
    if !left || right && rrQ.testBit bit then rrTreeLoop rrQ bit (lo + half) else rrTreeLoop rrQ bit lo

def rrTreePick (rrQ : Nat) : Nat := rrTreeLoop req rrQ (log2Loop nb nb 0) 0

end RrTree

variable {cfg}

/-- The winner of a bank and its next `rr_next`; `none` where there is no request. -/
def pick (bank : BankState cfg.toConfig) : Option (Fin cfg.nbMasters × Nat) :=
  if cfg.rrTree then
    let winner := rrTreePick bank.pendingMask bank.rrNext
    let next := match bank.pendingMask.firstFrom ((bank.rrNext + 1) % cfg.nbMasters) with
      | some next => if next.1 ≤ bank.rrNext then bank.pendingMask.firstFrom 0 else some next
      | none => bank.pendingMask.firstFrom 0
    if hw : winner < cfg.nbMasters then next.map fun next => (⟨winner, hw⟩, next.1) else none
  else (bank.pendingMask.firstFrom bank.rrNext).map fun winner => (winner, (winner + 1) % cfg.nbMasters)

namespace Interco

variable (s : Interco cfg)

/-- A method of the MAGIA interconnect. -/
def lift (answer : TcdmInterco.Answer cfg.toConfig) : Answer cfg :=
  (answer.1, { s with toInterco := answer.2.1 }, answer.2.2)

def inputReq (req : Req) (id : Fin cfg.nbMasters) : Answer cfg := s.lift (s.toInterco.inputReq req id)

/-- The end of `wide_input_req`: the request is denied. -/
def denyWide (req : Req) (id : Fin cfg.nbWideMasters) : Answer cfg := s.lift (s.toInterco.denyWide req id)

/-- The claim of a request, and the busy banks of this cycle. -/
def claimNow (req : Req) : Interco cfg :=
  { s with toInterco :=
      ({ s.toInterco with wideClaim := wideClaimMask cfg.toConfig req.addr req.size } : TcdmInterco.Interco
        cfg.toConfig).banksBusyNow }

def wideInputReq (req : Req) (id : Fin cfg.nbWideMasters) : Answer cfg :=
  if s.wideRetrying = some id then (.done, s, forwardWide cfg.toConfig req)
  else if !s.inElection then
    let s := s.claimNow req
    if !s.wideClaim.intersects s.banksBusy && s.wideUsedCycle ≠ s.cycle then
      (.done, { s with wideUsedCycle := s.cycle, banksBusy := s.banksBusy.merge s.wideClaim },
        forwardWide cfg.toConfig req)
    else s.denyWide req id
  else s.denyWide req id

/-- The body of the loop over the wide inputs, up to the `retry()`. -/
def visitWide (e : Election cfg.toConfig) (i : Fin cfg.nbWideMasters) : Interco cfg × Election cfg.toConfig :=
  let w := s.wides i
  if !w.pending then (s, { e with pc := .wide (i + 1) })
  else
    let s := { s with wideClaim := wideClaimMask cfg.toConfig w.pendingAddr w.pendingSize }
    if s.wideClaim.intersects s.banksTaken || s.wideUsedCycle = s.cycle then
      (s, { pc := .wide (i + 1), anyRemaining := true })
    else
      ({ s with
        banksTaken := s.banksTaken.merge s.wideClaim
        banksBusy := s.banksBusy.merge s.wideClaim
        wideUsedCycle := s.cycle
        wides := Function.update s.wides i { w with pending := false }
        wideRetrying := some i }, { e with pc := .wideRetry i })

/-- The body of the loop over the banks, up to the `retry()`. -/
def visitBank (e : Election cfg.toConfig) (b : Fin cfg.nbSlaves) : Interco cfg × Election cfg.toConfig :=
  let bank := s.banks b
  if !bank.pendingMask.any then (s, { e with pc := .bank (b + 1) })
  else if s.banksTaken.test b then (s, { pc := .bank (b + 1), anyRemaining := true })
  else
    match pick bank with
    | some (winner, next) =>
      ({ s with
        banks := Function.update s.banks b { pendingMask := bank.pendingMask.reset winner, rrNext := next }
        banksBusy := s.banksBusy.set b }, { e with pc := .bankRetry b winner })
    -- the mask has a bit
    | none => (s, { e with pc := .bank (b + 1) })

end Interco

/-! ## The interconnect and its masters -/

variable (cfg) in
structure System where
  ico : Interco cfg := {}
  election : Option (Election cfg.toConfig) := none
  book : Book (Port cfg.toConfig) Req Access := {}

namespace System

variable (s : System cfg)

/-- Code of the masters may run: no election does, or the `retry()` of one. -/
def mastersRun : Bool := s.election.all fun e =>
  match e.pc with
  | .wideRetry _ | .bankRetry _ _ => true
  | _ => false

variable (port : Port cfg.toConfig)

def answered (n : Nat) (answer : Answer cfg) : System cfg :=
  { s with ico := answer.2.1, book := s.book.answered port n answer.1 answer.2.2 }

def issue (req : Req) (answer : Answer cfg) : System cfg :=
  { s with book := s.book.ask port req }.answered port s.book.issued.length answer

def request (req : Req) : Answer cfg :=
  match port with
  | .narrow id => s.ico.inputReq req id
  | .wide id => s.ico.wideInputReq req id

def reissue : Option (System cfg) := do
  let n ← s.book.held port
  let (_, req) ← s.book.issued[n]?
  return { s with book := s.book.close }.answered port n (s.request port req)

def visit (e : Election cfg.toConfig) : Option (System cfg) :=
  match e.pc with
  | .wide i =>
    if hi : i < cfg.nbWideMasters then
      let (ico, e₁) := s.ico.visitWide e ⟨i, hi⟩
      some { ico := ico, election := some e₁, book := if e₁.pc = .wideRetry ⟨i, hi⟩ then s.book.retry (.wide ⟨i, hi⟩)
        else s.book }
    else some { s with ico := { s.ico with inElection := true }, election := some { e with pc := .bank 0 } }
  | .bank b =>
    if hb : b < cfg.nbSlaves then
      let (ico, e₁) := s.ico.visitBank e ⟨b, hb⟩
      some { ico := ico, election := some e₁, book := match e₁.pc with
        | .bankRetry _ winner => s.book.retry (.narrow winner)
        | _ => s.book }
    else some { s with ico := { s.ico with toInterco := s.ico.toInterco.endElection e }, election := none }
  | _ => none

end System

/-- One event. A narrow master issues new requests while `in_election` is not set, and a port that holds a denied
request issues no other; a `retry()` returns once the request has been issued again. -/
def step (s : System cfg) : Event cfg.toConfig → Option (System cfg)
  | .input id req =>
    if s.mastersRun ∧ s.book.held (.narrow id) = none ∧ !s.ico.inElection then
      some (s.issue (.narrow id) req (s.ico.inputReq req id))
    else none
  | .wideInput id req =>
    if s.mastersRun ∧ s.book.held (.wide id) = none then some (s.issue (.wide id) req (s.ico.wideInputReq req id))
      else none
  | .fsm =>
    if s.election.isNone ∧ s.ico.fsmEvent = some s.ico.cycle then
      some { s with ico := { s.ico with toInterco := s.ico.toInterco.startElection }, election := some {
        pc := .wide 0 } }
    else none
  | .visit => s.election.bind s.visit
  | .reissue => s.book.opened.bind s.reissue
  | .retryReturn =>
    match s.election, s.book.opened with
    | some e, none =>
      let (ico, e₁) := s.ico.toInterco.retryReturn e
      some { s with ico := { s.ico with toInterco := ico }, election := some e₁ }
    | _, _ => none
  | .tick =>
    if s.election.isNone ∧ s.ico.fsmEvent ≠ some s.ico.cycle then
      some { s with ico := { s.ico with cycle := s.ico.cycle + 1 }, book := s.book.nextRound }
    else none

end GvsocPulp.SpatzTcdmInterco
