import GvsocPulp.SnitchIcache.Cache

/-!
# The L1

Sets of lines, a port for each L0, one lookup in a cycle, and refill slots that merge the misses on a line.

- `rrTreeWinner`, `rtlEvictWay`: the choices of a port and of a way;
- `lookup`, `lookupHandler`, `completeRefill`: the code;
- `step`: the calls on the ports and the events of the clock. What a handler has still to do after a call to a master is
  in `todo`.
-/

namespace GvsocPulp.SnitchIcache

open Lib Function

/-- The fetch of a port, with the cycle from which it may be looked up. -/
structure PortReq where
  req : Nat
  cycle : Nat
  deriving DecidableEq, Repr

/-- `sent` is kept for the refills that the port has granted; `fetched` once the memory has been read for the refill. -/
structure L1Slot where
  busy : Bool := false
  lineIndex : Nat := 0
  tag : BitVec 32 := noTag
  data : List Byte := []
  waiters : List Nat := []
  doneCycle : Option Nat := none
  reuseCycle : Nat := 0
  sent : Bool := false
  fetched : Bool := false
  deriving DecidableEq, Repr

inductive L1Todo
  | waiters (slot : Nat)
  | refillDone (slot : Nat) (next : Option Nat)
  | resps
  | retryPort (port : Nat)
  | lookupEvent
  deriving DecidableEq, Repr

structure L1 extends Traffic where
  enabled : Bool := true
  lines : Nat → Nat → Line := fun _ _ => {}
  slots : Nat → L1Slot := fun _ => {}
  portReqs : Nat → List PortReq := fun _ => []
  resps : List (Nat × List Byte) := []
  refillRetryPending : Bool := false
  inputNeedsRetry : Bool := false
  evictLfsr : BitVec 32 := 0
  rrQ : Nat := 0
  lockedPort : Option Nat := none
  lookupBlockCycle : Option Nat := none
  lockedInHandler : Bool := false
  lookupEvent : Option Nat := none
  respEvent : Option Nat := none
  refillDoneEvent : Option Nat := none
  cycle : Nat := 0
  todo : List L1Todo := []

/-! ## Choices -/

/-- A request between two ports. -/
def anyIn (n : Nat) (req : Nat → Bool) (lo hi : Nat) : Bool := (List.range n).any fun j => lo ≤ j && j < hi && req j

/-- `rr_tree_winner`, down the levels of the tree from a node. -/
def rrTreeWalk (n rrQ : Nat) (req : Nat → Bool) : Nat → Nat → Nat
  | 0, lo => lo
  | bit + 1, lo =>
    let half := 2 ^ bit
    let left := anyIn n req lo (lo + half)
    let right := anyIn n req (lo + half) (lo + 2 * half)
    rrTreeWalk n rrQ req bit (if !left || (right && rrQ.testBit bit) then lo + half else lo)

def rrTreeWinner (n rrQ : Nat) (req : Nat → Bool) : Nat := rrTreeWalk n rrQ req (Nat.clog 2 n) 0

/-- The next state of the eviction LFSR. -/
def evictStep (n : Nat) (q : BitVec 32) : BitVec 32 :=
  if n = 1 then q ^^^ 1
  else
    let mask := BitVec.ofNat 32 (2 ^ n - 1)
    let taps : List (BitVec 32) := [0, 0, 0x3, 0x6, 0xc, 0x14, 0x30, 0x60, 0xb8]
    let tap := if n ≤ 8 then taps.getD n 0 else BitVec.ofNat 32 (2 ^ (n - 1))
    if q = 0 then mask
    else
      let d := if q.getLsbD 0 then q >>> 1 ^^^ tap else q >>> 1
      if d = mask then 0 else d

namespace L1

variable (cfg : Config) (s : L1)

/-- `rtl_evict_way`, with the next state of the LFSR. -/
def rtlEvictWay : Nat × BitVec 32 :=
  let n := Nat.clog 2 cfg.wayCount
  if n = 0 then (0, s.evictLfsr) else (s.evictLfsr.toNat % cfg.wayCount, evictStep n s.evictLfsr)

def setLine (set way : Nat) (line : Line) : L1 :=
  { s with lines := update s.lines set (update (s.lines set) way line) }

def setSlot (slot : Nat) (value : L1Slot) : L1 := { s with slots := update s.slots slot value }

def lineIndex (tag : BitVec 32) : Nat := (tag &&& BitVec.ofNat 32 (cfg.lineCount - 1)).toNat

def getLine (tag : BitVec 32) : Option Nat :=
  (List.range cfg.wayCount).find? fun way => (s.lines (lineIndex cfg tag) way).tag = tag

def slotForTag (tag : BitVec 32) : Option Nat :=
  (List.range cfg.numAxiOutstanding).find? fun i => (s.slots i).busy && (s.slots i).tag = tag

def allocRefillSlot : Option Nat :=
  (List.range cfg.numAxiOutstanding).find? fun i => !(s.slots i).busy && (s.slots i).reuseCycle ≤ s.cycle

def enqueueLookup : L1 := { s with lookupEvent := enqueue s.cycle 1 s.lookupEvent }

def respond (req : Nat) (data : List Byte) : L1 :=
  match s.reqs[req]? with
  | some r => { s with toTraffic := s.toTraffic.answer r.port req data }
  | none => s

def inputReqMuxed (port : Nat) (addr : BitVec 32) (size : Nat) (status : RefillStatus) : L1 :=
  let req := s.reqs.length
  let s := { s with toTraffic := s.toTraffic.arrive cfg port addr size }
  if s.enabled = false ∨ cfg.cacheable addr = false then
    { s with
      toTraffic := s.toTraffic.bypass port req addr size status
      inputNeedsRetry := s.inputNeedsRetry || status = .denied }
  else
    let delay := if cfg.serialLookup then 2 else 1
    { s with portReqs := update s.portReqs port (s.portReqs port ++ [PortReq.mk req (s.cycle + delay)]) }.enqueueLookup

/-- `lookup`: false if the fetch has to stay. -/
def lookup (req : Nat) (r : Request) (status : RefillStatus) : L1 × Bool :=
  if s.refillRetryPending then (s, false)
  else
    let tag := cfg.tagOf r.addr
    match s.getLine cfg tag with
    | some way =>
      let data := slice (s.lines (lineIndex cfg tag) way).data (cfg.lineOffset r.addr) r.size
      ({ s with resps := s.resps ++ [(req, data)], respEvent := enqueue s.cycle 0 s.respEvent }, true)
    | none =>
      match s.slotForTag cfg tag with
      | some i => (s.setSlot i { s.slots i with waiters := (s.slots i).waiters ++ [req] }, true)
      | none =>
        match s.allocRefillSlot cfg with
        | none => (s, false)
        | some i =>
          let slot := { s.slots i with
            busy := true, lineIndex := lineIndex cfg tag, tag := tag, waiters := [req], doneCycle :=
              none, sent := false,
            fetched := false }
          match status with
          | .denied => ({ s with refillRetryPending := true }, false)
          | .granted => (s.setSlot i { slot with sent := true }, true)
          | .done latency =>
            let data := s.bytesAt (cfg.lineBase tag) cfg.lineBytes
            ({ s.setSlot i { slot with data := data, doneCycle := some (s.cycle + latency), fetched := true } with
              toTraffic := s.toTraffic.read (cfg.lineBase tag) cfg.lineBytes
              refillDoneEvent := enqueue s.cycle latency s.refillDoneEvent }, true)

/-- The ports whose front can be looked up. -/
def ready (s : L1) (port : Nat) : Bool :=
  match s.portReqs port with
  | p :: _ => p.cycle ≤ s.cycle
  | [] => false

/-- The pointer after a port has been granted: to the first requesting port after it. -/
def nextRrQ (ready : Nat → Bool) (port : Nat) : Nat :=
  (((List.range cfg.nrFetchPorts).map fun k => (s.rrQ + (k + 1)) % cfg.nrFetchPorts).find? fun j => j =
    port || ready j).getD s.rrQ

def lookupPort (port : Nat) (status : RefillStatus) : L1 :=
  match s.portReqs port with
  | [] => s
  | p :: rest =>
    match s.reqs[p.req]? with
    | none => s
    | some r =>
      match s.lookup cfg p.req r status with
      | (t, true) =>
        { t with
          portReqs := update t.portReqs port rest
          lockedPort := none
          lockedInHandler := false
          rrQ := t.nextRrQ cfg s.ready port }
      | (t, false) => { t with lockedPort := some port, lockedInHandler := true }

def lookupHandler (status : RefillStatus) : L1 :=
  let s := { s with lookupEvent := none }
  let any := anyIn cfg.nrFetchPorts s.ready 0 cfg.nrFetchPorts
  let winner := rrTreeWinner cfg.nrFetchPorts s.rrQ s.ready
  if any ∧ s.lookupBlockCycle = some s.cycle ∧ ¬(s.lockedPort ≠ none ∧ s.lockedInHandler) then
    { s with lockedPort := some (s.lockedPort.getD winner) }.enqueueLookup
  else
    let s := if any then s.lookupPort cfg (s.lockedPort.getD winner) status else s
    if (List.range cfg.nrFetchPorts).any fun i => s.portReqs i ≠ [] then s.enqueueLookup else s

/-- `complete_refill` up to the answers; nothing reads `done_cycle` during them. -/
def completeRefill (i : Nat) : L1 :=
  let slot := s.slots i
  let (way, lfsr) := s.rtlEvictWay cfg
  { s.setLine slot.lineIndex way ⟨slot.tag, slot.data, 0⟩ with
    slots := update s.slots i { slot with doneCycle := none, sent := false }
    lookupBlockCycle := some (s.cycle + 1)
    evictLfsr := lfsr
    todo := .waiters i :: s.todo }

/-- The answers of `complete_refill`, one at a time, and what follows them. -/
def answerWaiters (i : Nat) : L1 :=
  let slot := s.slots i
  match slot.waiters with
  | req :: rest =>
    match s.reqs[req]? with
    | some r =>
      { s.setSlot i { slot with waiters := rest } with
        toTraffic := s.toTraffic.answer r.port req (slice slot.data (cfg.lineOffset r.addr) r.size)
        todo := .waiters i :: s.todo }
    | none => s
  | [] =>
    (s.setSlot i
      { slot with
        busy := false, doneCycle := none, reuseCycle := s.cycle + 1, sent := false, fetched := false }).enqueueLookup

/-- The loop of `refill_done_handler`, from a slot on. -/
def refillDoneLoop (i : Nat) (next : Option Nat) : L1 :=
  if i < cfg.numAxiOutstanding then
    match (s.slots i).busy, (s.slots i).doneCycle with
    | true, some done =>
      if done ≤ s.cycle then { s with todo := .refillDone (i + 1) next :: s.todo }.completeRefill cfg i
      else { s with todo := .refillDone (i + 1) (if next.all (done < ·) then some done else next) :: s.todo }
    | _, _ => { s with todo := .refillDone (i + 1) next :: s.todo }
  else
    match next with
    | some done => { s with refillDoneEvent := enqueue s.cycle (done - s.cycle) s.refillDoneEvent }
    | none => s

def respLoop : L1 :=
  match s.resps with
  | (req, data) :: rest => { { s with resps := rest }.respond req data with todo := .resps :: s.todo }
  | [] => s

def refillRetry : L1 :=
  if s.inputNeedsRetry then
    { s with refillRetryPending := false, inputNeedsRetry := false, todo := .retryPort 0 :: s.todo }
  else { s with refillRetryPending := false }.enqueueLookup

def flush : L1 :=
  { s with lines := fun set way => { s.lines set way with tag := noTag }, toTraffic := s.toTraffic.flush }

def flushLine (addr : BitVec 32) : L1 :=
  let tag := cfg.tagOf addr
  { s with
    lines := fun set way =>
      if set = lineIndex cfg tag ∧ (s.lines set way).tag = tag then { s.lines set way with tag := noTag }
        else s.lines set way
    toTraffic := s.toTraffic.flushLine tag }

end L1

inductive L1Event
  | fetch (port : Nat) (addr : BitVec 32) (size : Nat) (status : RefillStatus)
  | bypassResp (req : Nat)
  | memory (slot : Nat)
  | refillResp (slot : Nat) (isLast : Bool)
  | refillRetry
  | enable (active : Bool)
  | flush
  | flushLine (addr : BitVec 32)
  | write (addr : BitVec 32) (byte : Byte)
  | lookup (status : RefillStatus)
  | refillDone
  | resp
  | continue
  | tick
  deriving DecidableEq, Repr

namespace L1

def due (s : L1) (event : Option Nat) : Bool := s.todo = [] ∧ event = some s.cycle

def step (cfg : Config) (s : L1) : L1Event → Option L1
  | .fetch port addr size status =>
    if port < cfg.nrFetchPorts ∧ 0 < size ∧ cfg.lineOffset addr + size ≤ cfg.lineBytes then
      some (s.inputReqMuxed cfg port addr size status)
    else none
  | .bypassResp req => (s.toTraffic.bypassResp req).map fun traffic => { s with toTraffic := traffic }
  -- the memory is read for a refill, some time before its last response
  | .memory i =>
    let slot := s.slots i
    if i < cfg.numAxiOutstanding ∧ slot.busy ∧ slot.sent ∧ slot.fetched = false then
      some { s.setSlot i { slot with data := s.bytesAt (cfg.lineBase slot.tag) cfg.lineBytes, fetched := true } with
        toTraffic := s.toTraffic.read (cfg.lineBase slot.tag) cfg.lineBytes }
    else none
  | .refillResp i isLast =>
    let slot := s.slots i
    if i < cfg.numAxiOutstanding ∧ slot.busy ∧ slot.sent then
      if isLast = false then some s
      else if slot.fetched then some (s.completeRefill cfg i) else none
    else none
  | .refillRetry => some s.refillRetry
  | .enable active => some { s with enabled := active }
  | .flush => some s.flush
  | .flushLine addr => some (s.flushLine cfg addr)
  | .write addr byte => some { s with toTraffic := s.toTraffic.write addr byte }
  | .lookup status => if s.due s.lookupEvent then some (s.lookupHandler cfg status) else none
  | .refillDone =>
    if s.due s.refillDoneEvent then some { s with refillDoneEvent := none, todo := [.refillDone 0 none] } else none
  | .resp => if s.due s.respEvent then some { s with respEvent := none, todo := [.resps] } else none
  | .continue =>
    match s.todo with
    | .waiters i :: todo => some ({ s with todo := todo }.answerWaiters cfg i)
    | .refillDone i next :: todo => some ({ s with todo := todo }.refillDoneLoop cfg i next)
    | .resps :: todo => some { s with todo := todo }.respLoop
    | .retryPort port :: todo =>
      some { s with todo := (if port + 1 < cfg.nrFetchPorts then .retryPort (port + 1) else .lookupEvent) :: todo }
    | .lookupEvent :: todo => some { s with todo := todo }.enqueueLookup
    | [] => none
  | .tick =>
    if s.due s.lookupEvent ∨ s.due s.refillDoneEvent ∨ s.due s.respEvent ∨ s.todo ≠ [] then none
    else some { s with cycle := s.cycle + 1 }

end L1

end GvsocPulp.SnitchIcache
