import GvsocPulp.Lib.LoopNest
import GvsocPulp.Lib.Run

/-!
# `SnitchSsrStreamer`: one SSR data mover

The shadow configuration, the two streams in flight, their address generator and the data FIFO shared by reads and
writes, as a step function over the calls: configuration writes, pops and pushes of the FP side, `handle`, retries and
answers of the memory. `iss_reg_t` has `w` bits. What has been launched, requested, pushed and popped is kept beside.
-/

namespace GvsocPulp.Snitchv2

open Lib Function

/-! ## Streams and requests -/

/-- One stream as it is launched: the configuration that `SnitchSsrJob` snapshots, dimensions in use only. -/
structure Stream (w : Nat) where
  isWrite : Bool
  reps : BitVec w
  /-- `bounds` and `strides`, innermost dimension first. -/
  dims : List (BitVec w × BitVec w)
  ptr : BitVec w

/-- The elements of a stream: the affine loop nest over its dimensions. -/
def Stream.nest {w : Nat} (st : Stream w) : List (BitVec w) :=
  Lib.nest (st.dims.reverse.map fun d => (d.1.toNat, d.2)) st.ptr

/-- How often the FP side accesses each element. -/
def Stream.accesses {w : Nat} (st : Stream w) : Nat := if st.isWrite then 1 else st.reps.toNat + 1

/-- The accesses of the FP side to the stream. -/
def Stream.total {w : Nat} (st : Stream w) : Nat := (st.dims.map fun d => d.1.toNat + 1).prod * st.accesses

/-- `SnitchSsrJob`, with the stream it runs. -/
structure Job (w : Nat) where
  stream : Stream w
  /-- `bounds`, `strides` and `cnt`. -/
  loops : List (Loop (BitVec w))
  ptr : BitVec w
  addrDone : Bool := false
  startCycle : Int := -1
  fpRemaining : Int

namespace Job

variable {w : Nat} (job : Job w)

def isWrite : Bool := job.stream.isWrite

end Job

/-- `SnitchSsrReq`; with the number of the element it is for. -/
structure SsrReq (w : Nat) where
  isWrite : Bool
  addr : BitVec w
  size : Nat
  data : UInt64
  /-- The FIFO slot of a read; `none` for `-1`. -/
  slot : Option Nat
  offset : Nat := 0
  timestamp : Int := 0
  elem : Nat

/-- `SnitchSsrSlot`. -/
structure Slot where
  data : UInt64
  valid : Bool
  readyCycle : Int

/-- The state of a streamer, the requests the memory has accepted, and the logs. -/
structure Streamer (w : Nat) where
  reps : BitVec w
  bounds : Nat → BitVec w
  strides : Nat → BitVec w
  jobs : List (Job w)
  fifo : Nat → Slot
  fifoHead : Nat
  fifoTail : Nat
  fifoCount : Nat
  repeatCount : BitVec w
  lastPopId : Int
  lastPopData : UInt64
  /-- The length of the list of free requests. -/
  freeReqs : Nat
  deniedReq : Option (SsrReq w)
  syncReqs : List (SsrReq w)
  inFlight : List (SsrReq w)
  cycle : Int
  launched : List (Stream w)
  issued : List (SsrReq w)
  /-- The requests the memory has accepted, as they were sent. -/
  accepted : List (SsrReq w)
  /-- The words the memory returned, by the number of the element. -/
  answers : Nat → Option UInt64
  pushed : List UInt64
  popped : List UInt64
  /-- The accesses of the FP side, `true` for a push. -/
  fpLog : List Bool

/-- What the memory answers to a request: it is done with a word after a latency, accepted, or denied. -/
inductive MemStatus
  | done (latency : Int) (data : UInt64)
  | granted
  | denied

/-- `SNITCH_SSR_START_LATENCY`, `SNITCH_SSR_READ_LATENCY`. -/
def startLatency : Int := 1
def readLatency : Int := 1

/-- The registers, `SNITCH_SSR_REG_*`. -/
def regRepeat : Int := 1
def regBounds : Int := 2
def regStrides : Int := 6
def regRptr : Int := 24
def regWptr : Int := 28

namespace Streamer

variable {w : Nat} (depth : Nat)

/-- `reset(true)`. -/
def init : Streamer w where
  reps := 0
  bounds := fun _ => 0
  strides := fun _ => 0
  jobs := []
  fifo := fun _ => ⟨0, false, 0⟩
  fifoHead := 0
  fifoTail := 0
  fifoCount := 0
  repeatCount := 0
  lastPopId := -1
  lastPopData := 0
  freeReqs := depth
  deniedReq := none
  syncReqs := []
  inFlight := []
  cycle := 0
  launched := []
  issued := []
  accepted := []
  answers := fun _ => none
  pushed := []
  popped := []
  fpLog := []

variable (s : Streamer w)

/-- The configuration that a job snapshots. -/
def streamOf (isWrite : Bool) (dims : Nat) (value : BitVec w) : Stream w where
  isWrite := isWrite
  reps := s.reps
  dims := (List.range dims).map fun i => (s.bounds i, s.strides i)
  ptr := value

/-- The stream that a write of the pointer register `reg` launches. -/
def streamAt (reg : Int) (value : BitVec w) : Stream w :=
  let isWrite : Bool := reg ≥ regWptr
  let dims := (reg - (if isWrite then regWptr else regRptr) + 1).toNat
  s.streamOf isWrite dims value

/-- A job; `fp_remaining` is an `int64_t`, which wraps. -/
def newJob (st : Stream w) : Job w where
  stream := st
  loops := st.dims.map fun d => { bound := d.1.toNat, stride := d.2 }
  ptr := st.ptr
  fpRemaining := Int.bmod st.total (2 ^ 64)

/-- `cfg_write(reg, value)`; `none` where it returns `false` and the access is retried. -/
def cfgWrite (reg : Int) (value : BitVec w) : Option (Streamer w) :=
  if reg = regRepeat then some { s with reps := value }
  else if regBounds ≤ reg ∧ reg < regBounds + 4 then
    some { s with bounds := update s.bounds (reg - regBounds).toNat value }
  else if regStrides ≤ reg ∧ reg < regStrides + 4 then
    some { s with strides := update s.strides (reg - regStrides).toNat value }
  else if regRptr ≤ reg ∧ reg < regWptr + 4 then
    if s.jobs.length ≥ 2 then none
    else
      let st := s.streamAt reg value
      some { s with jobs := s.jobs ++ [newJob st], launched := s.launched ++ [st] }
  else some s

/-! ## The FP side -/

def fpJob : Option (Job w) := s.jobs.find? fun job => job.fpRemaining > 0

def addrJob : Option (Job w) := s.jobs.find? fun job => !job.addrDone

/-- Change the first job for which the predicate holds, as through the pointer to it. -/
def updateFirst (p : Job w → Bool) (f : Job w → Job w) : List (Job w) → List (Job w)
  | [] => []
  | job :: jobs => if p job then f job :: jobs else job :: updateFirst p f jobs

def jobCheckEnd (jobs : List (Job w)) : List (Job w) := jobs.dropWhile fun job => job.fpRemaining = 0 ∧ job.addrDone

def canRead : Bool :=
  match s.fpJob with
  | none => false
  | some job => !job.isWrite && s.fifoCount ≠ 0 && (s.fifo s.fifoHead).valid &&
      (s.fifo s.fifoHead).readyCycle ≤ s.cycle

def canWrite : Bool :=
  match s.fpJob with
  | none => false
  | some job => job.isWrite && s.fifoCount < depth

variable (job : Job w)

/-- `fp_remaining--`. -/
def fpAccess : Job w := { job with fpRemaining := job.fpRemaining - 1 }

/-- `pop(insn_id)`, with the value it returns; called when data can be read, or again by the same instruction. -/
def pop (insnId : Int) : Option (Streamer w × UInt64) :=
  if insnId = s.lastPopId then some (s, s.lastPopData)
  else if s.canRead then
    match s.fpJob with
    | none => none
    | some job =>
      let data := (s.fifo s.fifoHead).data
      let count := s.repeatCount + 1
      let final : Bool := count > job.stream.reps
      let s := { s with
        lastPopId := insnId
        lastPopData := data
        popped := s.popped ++ [data]
        fpLog := s.fpLog ++ [false]
        repeatCount := if final then 0 else count
        fifoHead := if final then (s.fifoHead + 1) % depth else s.fifoHead
        fifoCount := if final then s.fifoCount - 1 else s.fifoCount
        jobs := jobCheckEnd (updateFirst (·.fpRemaining > 0) fpAccess s.jobs) }
      some (s, data)
  else none

/-- `push(data, ready_cycle)`, called when there is room to write. -/
def push (data : UInt64) (readyCycle : Int) : Option (Streamer w) :=
  if s.canWrite depth then
    some { s with
      fifo := update s.fifo s.fifoTail ⟨data, true, readyCycle⟩
      fifoTail := (s.fifoTail + 1) % depth
      fifoCount := s.fifoCount + 1
      pushed := s.pushed ++ [data]
      fpLog := s.fpLog ++ [true]
      jobs := jobCheckEnd (updateFirst (·.fpRemaining > 0) fpAccess s.jobs) }
  else none

/-! ## The address generator -/

/-- `addr_next(job)`, and `addr_done` after the last element. -/
def addrNext : Job w :=
  match advance job.loops job.ptr with
  | some (loops, ptr) => { job with loops := loops, ptr := ptr }
  | none => { job with loops := restart job.loops, addrDone := true }

def reqEnd (req : SsrReq w) : Streamer w :=
  { s with
    fifo := match req.slot with
      | none => s.fifo
      | some slot => update s.fifo slot
          ⟨req.data >>> UInt64.ofNat (req.offset * 8), true, s.cycle + readLatency⟩
    freeReqs := s.freeReqs + 1 }

def answer (req : SsrReq w) (data : UInt64) : Streamer w × SsrReq w :=
  if req.isWrite then (s, req)
  else ({ s with answers := update s.answers req.elem (some data) }, { req with data := data })

/-- `send(req)`, with what the memory answers. -/
def send (req : SsrReq w) : MemStatus → Streamer w
  | .done latency data =>
    let (s, req) := { s with accepted := s.accepted ++ [req] }.answer { req with timestamp := s.cycle + latency } data
    { s with syncReqs := s.syncReqs ++ [req] }
  | .granted => { s with accepted := s.accepted ++ [req], inFlight := s.inFlight ++ [req] }
  | .denied => { s with deniedReq := some req }

/-- The loop over `sync_reqs`: end those whose time has come. -/
def endSync : Streamer w :=
  (s.syncReqs.filter fun req => req.timestamp ≤ s.cycle).foldl reqEnd
    { s with syncReqs := s.syncReqs.filter fun req => ¬req.timestamp ≤ s.cycle }

/-- A stream that is the current one of the address generator starts after a latency. -/
def startJob : Job w :=
  { job with startCycle := if job.startCycle = -1 then s.cycle + startLatency else job.startCycle }

/-- The request for the current element of a stream, taken from a free one. -/
def makeReq : Streamer w × SsrReq w :=
  let offset := job.ptr.toNat % 8
  if job.isWrite then
    ({ s with
        freeReqs := s.freeReqs - 1
        fifoHead := (s.fifoHead + 1) % depth
        fifoCount := s.fifoCount - 1 },
      { isWrite := true, addr := job.ptr, size := 8 - offset, data := (s.fifo s.fifoHead).data, slot := none,
        elem := s.issued.length })
  else
    ({ s with
        freeReqs := s.freeReqs - 1
        fifo := update s.fifo s.fifoTail { s.fifo s.fifoTail with valid := false }
        fifoTail := (s.fifoTail + 1) % depth
        fifoCount := s.fifoCount + 1 },
      { isWrite := false, addr := job.ptr - BitVec.ofNat w offset, size := 8, data := 0, slot := some s.fifoTail,
        offset := offset, elem := s.issued.length })

/-- The request for the current element of a stream; the address generator goes on to the next element. -/
def issue : Streamer w × SsrReq w :=
  let (s, req) := s.makeReq depth job
  let jobs := updateFirst (!·.addrDone) addrNext s.jobs
  ({ s with
      issued := s.issued ++ [req]
      jobs := if (addrNext job).addrDone then jobCheckEnd jobs else jobs }, req)

/-- Whether the current element of a stream can be accessed: the FIFO has its data, or room for it. -/
def ready : Bool :=
  if job.isWrite then s.fifoCount ≠ 0 && (s.fifo s.fifoHead).readyCycle ≤ s.cycle else s.fifoCount ≠ depth

/-- `handle(cycle)`: the memory answers the request with `status`, if there is one. -/
def handle (status : MemStatus) : Streamer w :=
  let s := s.endSync
  if s.deniedReq.isSome then s
  else
    match s.addrJob with
    | none => s
    | some job =>
      -- the data FIFO is shared: a waiting stream starts behind one in the same direction only
      if s.jobs.head?.any (·.isWrite ≠ job.isWrite) then s
      else
        let job := s.startJob job
        let s := { s with jobs := updateFirst (!·.addrDone) s.startJob s.jobs }
        if s.cycle < job.startCycle then s
        else if s.freeReqs = 0 then s
        else if s.ready depth job then
          let (s, req) := s.issue depth job
          s.send req status
        else s

def retry (status : MemStatus) : Streamer w :=
  match s.deniedReq with
  | none => s
  | some req => { s with deniedReq := none }.send req status

/-- `response(req)` for the `k`-th request that the memory has accepted, with the word it returns. -/
def response (k : Nat) (data : UInt64) : Option (Streamer w) :=
  (s.inFlight[k]?).map fun req =>
    let (s, req) := { s with inFlight := s.inFlight.eraseIdx k }.answer req data
    s.reqEnd req

end Streamer

/-! ## Runs -/

/-- What happens to a streamer. -/
inductive Event (w : Nat)
  | cycle
  | cfgWrite (reg : Int) (value : BitVec w)
  | pop (insnId : Int)
  | push (data : UInt64) (readyCycle : Int)
  | handle (status : MemStatus)
  | retry (status : MemStatus)
  | response (k : Nat) (data : UInt64)

/-- One event; a pop without data and a push without room are not made. -/
def step {w : Nat} (depth : Nat) (s : Streamer w) : Event w → Option (Streamer w)
  | .cycle => some { s with cycle := s.cycle + 1 }
  | .cfgWrite reg value => s.cfgWrite reg value
  | .pop insnId => (s.pop depth insnId).map (·.1)
  | .push data readyCycle => s.push depth data readyCycle
  | .handle status => some (s.handle depth status)
  | .retry status => some (s.retry status)
  | .response k data => s.response k data

end GvsocPulp.Snitchv2
