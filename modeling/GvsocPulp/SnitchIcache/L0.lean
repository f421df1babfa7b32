import GvsocPulp.SnitchIcache.Cache

/-!
# The L0

One set of lines, one refill in flight, and the prefetcher that shares it.

- `handleReq`, `refill`, `decidePrefetch`, `sendPrefetch`, `checkState`: the code;
- `step`: the calls on the ports and the events of the clock. What a handler has still to do after a call to a master or
  to the refill port, which may call the cache in turn, is in `todo`.
-/

namespace GvsocPulp.SnitchIcache

open Lib

/-! ## The target of a prefetch -/

def insnAt (data : List Byte) (off : Nat) : BitVec 32 :=
  (data.getD (off + 3) 0 ++ data.getD (off + 2) 0 ++ data.getD (off + 1) 0 ++ data.getD off 0 : BitVec 32)

/-- Where the instruction at `pc` jumps to, if it is a backward branch or a `JAL`. -/
def jumpTarget (insn pc : BitVec 32) : Option (BitVec 32) :=
  let opcode := insn &&& 0x7f
  if opcode = 0x63 then
    if insn &&& 0x80000000 = 0 then none
    else
      let imm := ((insn >>> 31 &&& 1) <<< 12) ||| ((insn >>> 7 &&& 1) <<< 11) ||| ((insn >>> 25 &&& 0x3f) <<< 5) |||
        ((insn >>> 8 &&& 0xf) <<< 1)
      some (pc + (imm <<< 19).sshiftRight 19)
  else if opcode = 0x6f then
    let imm := ((insn >>> 31 &&& 1) <<< 20) ||| ((insn >>> 12 &&& 0xff) <<< 12) ||| ((insn >>> 20 &&& 1) <<< 11) |||
      ((insn >>> 21 &&& 0x3ff) <<< 1)
    some (pc + (imm <<< 11).sshiftRight 11)
  else none

/-- `prefetch_target`: the line of the first jump from the fetch on, or the next line. -/
def prefetchTarget (cfg : Config) (data : List Byte) (addr : BitVec 32) : BitVec 32 :=
  let base := cfg.lineBase (cfg.tagOf addr)
  let off := cfg.lineOffset addr
  let slots := (List.range ((cfg.lineBytes - off) / 4)).map fun k => off + 4 * k
  match slots.findSome? fun off => jumpTarget (insnAt data off) (base + BitVec.ofNat 32 off) with
  | some target => cfg.lineBase (cfg.tagOf target)
  | none => base + BitVec.ofNat 32 cfg.lineBytes

/-! ## The cache -/

/-- The refill in flight: its line and its tag, and the fetch that waits for it unless it is a prefetch. A prefetch may
be `denied` by the refill port, which owes a retry then; `sent` once the port has taken it, `fetched` once the memory
has been read for it. -/
structure L0Slot where
  way : Nat
  tag : BitVec 32
  cpuReq : Option Nat
  denied : Bool
  sent : Bool
  fetched : Bool
  deriving DecidableEq, Repr

/-- What a handler does after a call that may call the cache. -/
inductive L0Todo
  | checkState
  | sendPrefetch
  | retryInput
  | delayedResps
  deriving DecidableEq, Repr

structure L0 extends Traffic where
  enabled : Bool := true
  enablePrefetching : Bool := false
  lines : Nat → Line := fun _ => {}
  slot : Option L0Slot := none
  /-- The prefetch in the slot has still to be sent. -/
  prefetchSlot : Bool := false
  refillPendingReqs : List Nat := []
  refillRetryPending : Bool := false
  inputNeedsRetry : Bool := false
  refillTimestamp : Nat := 0
  rrVictim : Nat := 0
  missDecideLine : Option Nat := none
  missDecideAddr : BitVec 32 := 0
  idleAddr : Option (BitVec 32) := none
  /-- The answers of queued fetches, by the cycle they are due. -/
  delayedResps : List (Nat × Nat × List Byte) := []
  fsmEvent : Option Nat := none
  prefetchEvent : Option Nat := none
  missDecideEvent : Option Nat := none
  idleEvent : Option Nat := none
  delayedRespEvent : Option Nat := none
  cycle : Nat := 0
  todo : List L0Todo := []

/-- What `handle_req` returns; a fetch that is done has its bytes and a latency. -/
inductive L0Status
  | done (latency : Nat) (data : List Byte)
  | granted
  | denied

namespace L0

variable (cfg : Config) (s : L0)

def setLine (way : Nat) (line : Line) : L0 := { s with lines := Function.update s.lines way line }

/-- `get_line`: the line that holds a tag. -/
def getLine (tag : BitVec 32) : Option Nat := (List.range cfg.lineCount).find? fun way => (s.lines way).tag = tag

/-- `refill_victim`: the lines in turn, without the one that is being hit and the one that is being refilled. -/
def refillVictim (skip : Option Nat) : Option Nat × Nat :=
  let way := s.rrVictim
  let next := (s.rrVictim + 1) % cfg.lineCount
  let (way, next) := if skip = some way then (next, (next + 1) % cfg.lineCount) else (way, next)
  ((List.range cfg.lineCount).map (fun i => (way + i) % cfg.lineCount) |>.find? fun w => s.slot.map (·.way) ≠
    some w, next)

def checkState : L0 :=
  { s with
    idleEvent := if s.idleAddr ≠ none then enqueue s.cycle 1 s.idleEvent else s.idleEvent
    fsmEvent :=
      if s.slot = none ∧ s.refillRetryPending = false ∧ s.refillPendingReqs ≠ [] ∧ s.fsmEvent = none then
        some (s.cycle + 1)
      else s.fsmEvent }

/-- `decide_prefetch`, for a fetch that hits a line: the slot and the line are taken, the request goes out later. -/
def decidePrefetch (way : Nat) (addr : BitVec 32) : L0 :=
  if s.enablePrefetching = false ∨ s.slot ≠ none then s
  else
    let tag := cfg.tagOf (prefetchTarget cfg (s.lines way).data addr)
    if (s.getLine cfg tag).isSome then s
    else
      match s.refillVictim cfg (some way) with
      | (some victim, next) =>
        { s.setLine victim { s.lines victim with tag := noTag } with
          rrVictim := next
          slot := some ⟨victim, tag, none, false, false, false⟩
          prefetchSlot := true
          prefetchEvent := enqueue s.cycle 1 s.prefetchEvent }
      | (none, next) => { s with rrVictim := next }

def readLine (tag : BitVec 32) (way : Nat) : L0 :=
  { s.setLine way { s.lines way with data := s.bytesAt (cfg.lineBase tag) cfg.lineBytes } with
    toTraffic := s.toTraffic.read (cfg.lineBase tag) cfg.lineBytes }

theorem readLine_lines (tag : BitVec 32) (way landing : Nat) :
    ((s.readLine cfg tag way).setLine way { (s.readLine cfg tag way).lines way with tag := tag, timestamp :=
      landing }).lines = Function.update s.lines way ⟨tag, s.bytesAt (cfg.lineBase tag) cfg.lineBytes, landing⟩ := by
  simp [readLine, setLine]

/-- The time a refill that completes at once takes, after the ones before it. -/
def refillLatency (latency : Nat) : Nat := (s.refillTimestamp - s.cycle) + latency

def sendPrefetch (status : RefillStatus) : L0 :=
  match s.slot, s.prefetchSlot with
  | some slot, true =>
    match status with
    | .denied => { s with slot := some { slot with denied := true } }
    | .granted => { s with prefetchSlot := false, slot := some { slot with sent := true } }
    | .done latency =>
      let s := s.readLine cfg slot.tag slot.way
      let landing := s.cycle + s.refillLatency latency
      checkState
        { s.setLine slot.way { s.lines slot.way with tag := slot.tag, timestamp := landing } with
          prefetchSlot := false
          refillTimestamp := landing
          slot := none }
  | _, _ => s

/-- `refill`, with what `handle_req` returns for the fetch that misses. -/
def refill (tag : BitVec 32) (req : Nat) (r : Request) (status : RefillStatus) : L0 × L0Status :=
  if s.slot.map (·.tag) = some tag then ({ s with refillPendingReqs := s.refillPendingReqs ++ [req] }, .granted)
  else if s.slot ≠ none then ({ s with refillPendingReqs := s.refillPendingReqs ++ [req] }, .granted)
  else
    match s.refillVictim cfg none with
    | (none, next) => ({ s with rrVictim := next, refillPendingReqs := s.refillPendingReqs ++ [req] }, .granted)
    | (some way, next) =>
      let s := { s with rrVictim := next }
      match status with
      | .granted =>
        ({ s.setLine way { s.lines way with tag := noTag } with slot := some ⟨way, tag, some req, false, true, false⟩ },
          .granted)
      | .denied => ({ s with refillRetryPending := true }, .denied)
      | .done latency =>
        let s := s.readLine cfg tag way
        let landing := s.cycle + s.refillLatency latency
        let data := slice (s.lines way).data (cfg.lineOffset r.addr) r.size
        ({ s.setLine way { s.lines way with tag := tag, timestamp := landing } with refillTimestamp := landing },
          .done (s.refillLatency latency) data)

def handleReq (req : Nat) (r : Request) (status : RefillStatus) : L0 × L0Status :=
  match s.getLine cfg (cfg.tagOf r.addr) with
  | none => s.refill cfg (cfg.tagOf r.addr) req r status
  | some way =>
    let line := s.lines way
    (s.decidePrefetch cfg way r.addr, .done (line.timestamp - s.cycle) (slice line.data (cfg.lineOffset r.addr) r.size))

def inputReq (addr : BitVec 32) (size : Nat) (status : RefillStatus) : L0 :=
  let req := s.reqs.length
  let r : Request := ⟨0, addr, size, s.flushed (cfg.tagOf addr)⟩
  let s := { s with toTraffic := s.toTraffic.arrive cfg 0 addr size }
  if s.enabled = false ∨ cfg.cacheable addr = false then
    { s with
      toTraffic := s.toTraffic.bypass 0 req addr size status
      inputNeedsRetry := s.inputNeedsRetry || status = .denied }
  else
    let s := { s with idleAddr := none, idleEvent := none }
    if s.refillPendingReqs ≠ [] ∨ s.refillRetryPending then
      { s with refillPendingReqs := s.refillPendingReqs ++ [req] }.checkState
    else
      match s.handleReq cfg req r status with
      | (s, .done _ data) => { s with toTraffic := s.toTraffic.answer 0 req data }
      | (s, .granted) => s
      | (s, .denied) => { s with toTraffic := s.toTraffic.deny req, inputNeedsRetry := true }

/-- `input_req` of size 0: the address the core shows while it waits. -/
def inputIdle (addr : BitVec 32) : L0 := { s with idleAddr := some addr, idleEvent := enqueue s.cycle 1 s.idleEvent }

/-- `resp_queued`; the answers are kept by cycle, those of a cycle in their order. -/
def respQueued (req latency : Nat) (data : List Byte) : L0 :=
  if latency = 0 then { s with toTraffic := s.toTraffic.answer 0 req data }
  else
    let due := s.cycle + latency
    let resps := s.delayedResps.takeWhile (·.1 ≤ due) ++ (due, req, data) :: s.delayedResps.dropWhile (·.1 ≤ due)
    { s with
      delayedResps := resps
      delayedRespEvent := enqueue s.cycle ((resps.head?.map (·.1)).getD 0 - s.cycle) s.delayedRespEvent }

/-- `fsm_handler`; whether the front of the queue can be popped depends on its delay. -/
def fsmHandler (ready : Bool) (status : RefillStatus) : L0 :=
  let s := { s with fsmEvent := none, todo := .checkState :: s.todo }
  match s.refillPendingReqs with
  | req :: rest =>
    if s.slot = none ∧ s.refillRetryPending = false ∧ ready then
      match s.reqs[req]? with
      | some r =>
        match { s with refillPendingReqs := rest }.handleReq cfg req r status with
        | (s, .done latency data) => s.respQueued req latency data
        | (s, .granted) => s
        | (s, .denied) => { s with refillPendingReqs := req :: s.refillPendingReqs }
      | none => s
    else s
  | [] => s

def refillResp (slot : L0Slot) : L0 :=
  let line := s.lines slot.way
  let s := { s.setLine slot.way { line with tag := slot.tag } with slot := none }
  match slot.cpuReq.bind fun req => s.reqs[req]?.map fun r => (req, r) with
  | none => s.checkState
  | some (req, r) =>
    { s with
      missDecideLine := some slot.way
      missDecideAddr := r.addr
      missDecideEvent := enqueue s.cycle 1 s.missDecideEvent
      toTraffic := s.toTraffic.answer 0 req (slice line.data (cfg.lineOffset r.addr) r.size)
      todo := .checkState :: s.todo }

def refillRetry : L0 :=
  { s with refillRetryPending := false, todo := .sendPrefetch :: .retryInput :: .checkState :: s.todo }

def missDecideHandler : L0 :=
  let way := s.missDecideLine
  let s := { s with missDecideEvent := none, missDecideLine := none }
  match way with
  | some way => if (s.lines way).tag = cfg.tagOf s.missDecideAddr then s.decidePrefetch cfg way s.missDecideAddr else s
  | none => s

def idleHandler : L0 :=
  let s := { s with idleEvent := none }
  match s.idleAddr with
  | some addr =>
    if s.enabled ∧ cfg.cacheable addr then
      match s.getLine cfg (cfg.tagOf addr) with
      | some way => s.decidePrefetch cfg way addr
      | none => s
    else s
  | none => s

def delayedRespLoop (s : L0) : L0 :=
  match s.delayedResps with
  | (due, req, data) :: rest =>
    if due ≤ s.cycle then { s with delayedResps := rest, toTraffic := s.toTraffic.answer 0 req data, todo :=
      .delayedResps :: s.todo }
    else { s with delayedRespEvent := enqueue s.cycle (due - s.cycle) s.delayedRespEvent }
  | [] => s

def flush : L0 := { s with lines := fun way => { s.lines way with tag := noTag }, toTraffic := s.toTraffic.flush }

def flushLine (addr : BitVec 32) : L0 :=
  let tag := cfg.tagOf addr
  { s with
    lines := fun way => if (s.lines way).tag = tag then { s.lines way with tag := noTag } else s.lines way
    toTraffic := s.toTraffic.flushLine tag }

end L0

inductive L0Event
  | fetch (addr : BitVec 32) (size : Nat) (status : RefillStatus)
  | idle (addr : BitVec 32)
  | bypassResp (req : Nat)
  | memory
  | refillResp (isLast : Bool)
  | refillRetry
  | enable (active : Bool)
  | enablePrefetching (active : Bool)
  | flush
  | flushLine (addr : BitVec 32)
  | write (addr : BitVec 32) (byte : Byte)
  | fsm (ready : Bool) (status : RefillStatus)
  | prefetch (status : RefillStatus)
  | missDecide
  | idleHandler
  | delayedResp
  | continue (status : RefillStatus)
  | tick
  deriving DecidableEq, Repr

namespace L0

/-- An event of the clock: due, and not inside another one. -/
def due (s : L0) (event : Option Nat) : Bool := s.todo = [] ∧ event = some s.cycle

def step (cfg : Config) (s : L0) : L0Event → Option L0
  -- a fetch stays in a line
  | .fetch addr size status =>
    if 0 < size ∧ cfg.lineOffset addr + size ≤ cfg.lineBytes then some (s.inputReq cfg addr size status) else none
  | .idle addr => some (s.inputIdle addr)
  | .bypassResp req => (s.toTraffic.bypassResp req).map fun traffic => { s with toTraffic := traffic }
  -- the memory is read for the refill, some time before its last response
  | .memory =>
    match s.slot with
    | some slot =>
      if slot.sent ∧ slot.fetched = false then
        some { s.readLine cfg slot.tag slot.way with slot := some { slot with fetched := true } }
      else none
    | none => none
  | .refillResp isLast =>
    match s.slot with
    | some slot => if isLast = false then some s else if slot.fetched then some (s.refillResp cfg slot) else none
    | none => none
  | .refillRetry => some s.refillRetry
  | .enable active => some { s with enabled := active }
  | .enablePrefetching active => some { s with enablePrefetching := active }
  | .flush => some s.flush
  | .flushLine addr => some (s.flushLine cfg addr)
  | .write addr byte => some { s with toTraffic := s.toTraffic.write addr byte }
  | .fsm ready status => if s.due s.fsmEvent then some (s.fsmHandler cfg ready status) else none
  | .prefetch status => if s.due s.prefetchEvent then some ({ s with prefetchEvent := none }.sendPrefetch cfg status)
      else none
  | .missDecide => if s.due s.missDecideEvent then some (s.missDecideHandler cfg) else none
  | .idleHandler => if s.due s.idleEvent then some (s.idleHandler cfg) else none
  | .delayedResp => if s.due s.delayedRespEvent then some { s with delayedRespEvent := none, todo := [.delayedResps] }
      else none
  | .continue status =>
    match s.todo with
    | .checkState :: todo => some { s with todo := todo }.checkState
    | .sendPrefetch :: todo => some ({ s with todo := todo }.sendPrefetch cfg status)
    | .retryInput :: todo => some { s with todo := todo, inputNeedsRetry := false }
    | .delayedResps :: todo => some { s with todo := todo }.delayedRespLoop
    | [] => none
  | .tick =>
    if s.due s.fsmEvent ∨ s.due s.prefetchEvent ∨ s.due s.missDecideEvent ∨ s.due s.idleEvent ∨
      s.due s.delayedRespEvent ∨
        s.todo ≠ [] then none
    else some { s with cycle := s.cycle + 1 }

variable {cfg : Config} {s t : L0}

theorem step_memory (hstep : s.step cfg .memory = some t) : ∃ slot, s.slot = some slot ∧ slot.sent = true ∧
    t = { s.readLine cfg slot.tag slot.way with slot := some { slot with fetched := true } } := by
  rw [step] at hstep
  split at hstep
  · rename_i slot hslot
    obtain ⟨hguard, rfl⟩ := Option.ite_some_none_eq_some.1 hstep
    exact ⟨slot, hslot, hguard.1, rfl⟩
  · cases hstep

theorem step_refillResp {isLast : Bool} (hstep : s.step cfg (.refillResp isLast) = some t) :
    s = t ∨ ∃ slot, s.slot = some slot ∧ slot.fetched = true ∧ s.refillResp cfg slot = t := by
  rw [step] at hstep
  split at hstep
  · rename_i slot hslot
    split_ifs at hstep with hlast hfetched
    · exact .inl (Option.some.inj hstep)
    · exact .inr ⟨slot, hslot, hfetched, Option.some.inj hstep⟩
  · cases hstep

/-- What holds before a handler of a prefetch, and is kept by `decidePrefetch`, holds after it. -/
theorem missDecideHandler_keeps {P : L0 → Prop} (h : P { s with missDecideEvent := none, missDecideLine := none })
    (hdecide : ∀ {t} way addr, P t → P (t.decidePrefetch cfg way addr)) : P (s.missDecideHandler cfg) := by
  rw [missDecideHandler]
  simp only
  split
  · split_ifs
    · exact hdecide _ _ h
    · exact h
  · exact h

theorem idleHandler_keeps {P : L0 → Prop} (h : P { s with idleEvent := none })
    (hdecide : ∀ {t} way addr, P t → P (t.decidePrefetch cfg way addr)) : P (s.idleHandler cfg) := by
  rw [idleHandler]
  simp only
  split
  · split_ifs
    · split
      · exact hdecide _ _ h
      · exact h
    · exact h
  · exact h

end L0

end GvsocPulp.SnitchIcache
