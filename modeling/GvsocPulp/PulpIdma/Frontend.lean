import GvsocPulp.Lib.Feeder
import GvsocPulp.Lib.Numbered
import GvsocPulp.Lib.Run

/-!
# The front-end and the 3D middle-end of the PULP Open iDMA

`IDmaFeReg32_3d` (`fe/idma_fe_reg32_3d.cpp`): one register file per port, identifier counters per stream, and a queue of
transfers in front of `IDmaMe3d` (`me/idma_me_3d.cpp`), which cuts them into lines. When the back-ends take a line, and
which line is done next, is the environment's choice.
-/

namespace GvsocPulp.PulpIdma

open Lib Function

/-! ## Transfers -/

/-- `IdmaTransfer` with its `IDMA_ND` data. -/
structure IdmaTransfer where
  src : BitVec 64
  dst : BitVec 64
  size : BitVec 64
  srcStride : BitVec 64
  dstStride : BitVec 64
  reps : BitVec 64
  config : BitVec 64
  srcStride3 : BitVec 64
  dstStride3 : BitVec 64
  reps3 : BitVec 64
  stream : Nat
  deriving DecidableEq, Repr

namespace IdmaTransfer

variable (t : IdmaTransfer)

/-- `IDMA_CONFIG_2D` -/
def is2d : Bool := t.config.getLsbD 1

/-- `IDMA_CONFIG_3D` -/
def is3d : Bool := t.config.getLsbD 2

def isEmpty : Bool := t.size == 0 || t.is2d && t.reps == 0 || t.is3d && t.reps3 == 0

def nbLines : BitVec 64 := if t.is2d then t.reps else 1

def nbPages : BitVec 64 := if t.is3d then t.reps3 else 1

end IdmaTransfer

/-- A line, as the back-end gets it. -/
structure Burst where
  src : BitVec 64
  dst : BitVec 64
  size : BitVec 64
  deriving DecidableEq, Repr

/-- `current_src`, `current_dst`, `current_reps` and `current_reps_3d` -/
structure Cursor where
  src : BitVec 64
  dst : BitVec 64
  reps : BitVec 64
  reps3 : BitVec 64
  deriving DecidableEq, Repr

/-- How `IDmaMe3d::fsm_handler` cuts a transfer. -/
def me3d : Cutter IdmaTransfer Cursor Burst where
  start t := { src := t.src, dst := t.dst, reps := t.nbLines, reps3 := t.nbPages }
  piece t c := { src := c.src, dst := c.dst, size := t.size }
  next t c :=
    if c.reps - 1 = 0 then
      if c.reps3 - 1 = 0 then none
      else some { src := c.src + t.srcStride3, dst := c.dst + t.dstStride3, reps := t.nbLines, reps3 := c.reps3 - 1 }
    else some { c with src := c.src + t.srcStride, dst := c.dst + t.dstStride, reps := c.reps - 1 }

abbrev IDmaMe3d := Feeder IdmaTransfer Cursor Burst

def IDmaMe3d.canAcceptTransfer (transferQueueSize : Nat) (me : IDmaMe3d) : Bool := me.queue.length < transferQueueSize

/-- The lines that are left of a page, then the pages that are left. Addresses accumulate. -/
def linesFrom (t : IdmaTransfer) : (pages lines : Nat) → BitVec 64 → BitVec 64 → List Burst
  | 0, 0, src, dst => [{ src := src, dst := dst, size := t.size }]
  | pages + 1, 0, src, dst =>
    { src := src, dst := dst, size := t.size } ::
      linesFrom t pages (t.nbLines.toNat - 1) (src + t.srcStride3) (dst + t.dstStride3)
  | pages, lines + 1, src, dst =>
    { src := src, dst := dst, size := t.size } :: linesFrom t pages lines (src + t.srcStride) (dst + t.dstStride)

def IdmaTransfer.lines (t : IdmaTransfer) : List Burst :=
  linesFrom t (t.nbPages.toNat - 1) (t.nbLines.toNat - 1) t.src t.dst

theorem cutsInto_linesFrom (t : IdmaTransfer) (ht : t.nbLines.toNat ≠ 0) (pages lines : Nat) (src dst : BitVec 64) :
    ∀ {reps reps3 : BitVec 64}, reps.toNat = lines + 1 → reps3.toNat = pages + 1 →
      CutsInto me3d t { src := src, dst := dst, reps := reps, reps3 := reps3 } (linesFrom t pages lines src dst) := by
  induction pages, lines, src, dst using linesFrom.induct t with
  | case1 src dst =>
    intro reps reps3 hreps hreps3
    have hreps : reps - 1 = 0 := by bv_omega
    have hreps3 : reps3 - 1 = 0 := by bv_omega
    rw [linesFrom]
    refine .last ?_
    simp only [me3d, hreps, hreps3, if_true]
  | case2 pages src dst ih =>
    intro reps reps3 hreps hreps3
    have hreps : reps - 1 = 0 := by bv_omega
    have hne : ¬ reps3 - 1 = 0 := by bv_omega
    have hpages : (reps3 - 1).toNat = pages + 1 := by bv_omega
    rw [linesFrom]
    refine .cons ?_ (ih (Nat.sub_add_cancel (Nat.pos_of_ne_zero ht)).symm hpages)
    simp only [me3d, hreps, hne, if_true, if_false]
  | case3 pages lines src dst ih =>
    intro reps reps3 hreps hreps3
    have hne : ¬ reps - 1 = 0 := by bv_omega
    have hlines : (reps - 1).toNat = lines + 1 := by bv_omega
    rw [linesFrom]
    refine .cons ?_ (ih hlines hreps3)
    simp only [me3d, hne, if_false]

theorem cutsInto_lines {t : IdmaTransfer} (ht : t.isEmpty = false) : CutsInto me3d t (me3d.start t) t.lines := by
  rw [IdmaTransfer.isEmpty, Bool.or_eq_false_iff, Bool.or_eq_false_iff] at ht
  have hlines : t.nbLines.toNat ≠ 0 := by
    unfold IdmaTransfer.nbLines
    split
    case isTrue h2d =>
      have hne : t.reps ≠ 0 := by simpa [h2d] using ht.1.2
      exact fun h => hne (BitVec.eq_of_toNat_eq h)
    case isFalse => exact Nat.one_ne_zero
  have hpages : t.nbPages.toNat ≠ 0 := by
    unfold IdmaTransfer.nbPages
    split
    case isTrue h3d =>
      have hne : t.reps3 ≠ 0 := by simpa [h3d] using ht.2
      exact fun h => hne (BitVec.eq_of_toNat_eq h)
    case isFalse => exact Nat.one_ne_zero
  exact cutsInto_linesFrom t hlines _ _ _ _ (Nat.sub_add_cancel (Nat.pos_of_ne_zero hlines)).symm
    (Nat.sub_add_cancel (Nat.pos_of_ne_zero hpages)).symm

/-! ## The front-end -/

structure Port where
  conf : BitVec 32 := 0
  src : BitVec 32 := 0
  dst : BitVec 32 := 0
  length : BitVec 32 := 0
  srcStride2 : BitVec 32 := 0
  dstStride2 : BitVec 32 := 0
  reps2 : BitVec 32 := 0
  srcStride3 : BitVec 32 := 0
  dstStride3 : BitVec 32 := 0
  reps3 : BitVec 32 := 0
  deriving DecidableEq, Repr

structure Stream where
  nextId : BitVec 32 := 1
  doneId : BitVec 32 := 0
  pending : BitVec 32 := 0
  deriving DecidableEq, Repr

structure Config where
  nbStreams : Nat
  multiregCount : Nat
  globalQueueDepth : Nat
  transferQueueSize : Nat

namespace Config

variable (cfg : Config)

/-- `IDMA_REG32_3D_MULTIREG_BASE` -/
def statusBase : Nat := 0x004

def nextIdBase : Nat := statusBase + 4 * cfg.multiregCount

def doneIdBase : Nat := cfg.nextIdBase + 4 * cfg.multiregCount

end Config

/-- What an access to a port does. -/
inductive Op
  | launch (stream : Nat)
  | readDoneId (stream : Nat)
  | readStatus (stream : Nat)
  | set (f : Port → Port)
  | invalid

def streamOp (cfg : Config) (offset stream : Nat) : Option Op :=
  if offset = cfg.nextIdBase + 4 * stream then some (.launch stream)
  else if offset = cfg.doneIdBase + 4 * stream then some (.readDoneId stream)
  else if offset = Config.statusBase + 4 * stream then some (.readStatus stream)
  else none

/-- `IDmaFeReg32_3dPort::req` -/
def decode (cfg : Config) (offset size : Nat) (value : BitVec 32) : Op :=
  if size ≠ 4 then .invalid
  else
    match (List.range cfg.nbStreams).findSome? (streamOp cfg offset) with
    | some op => op
    | none =>
      match offset with
      | 0x000 => .set fun p => { p with conf := value }
      | 0x0d0 => .set fun p => { p with dst := value }
      | 0x0d8 => .set fun p => { p with src := value }
      | 0x0e0 => .set fun p => { p with length := value }
      | 0x0e8 => .set fun p => { p with dstStride2 := value }
      | 0x0f0 => .set fun p => { p with srcStride2 := value }
      | 0x0f8 => .set fun p => { p with reps2 := value }
      | 0x100 => .set fun p => { p with dstStride3 := value }
      | 0x108 => .set fun p => { p with srcStride3 := value }
      | 0x110 => .set fun p => { p with reps3 := value }
      | _ => .invalid

def Port.transfer (port : Port) (stream : Nat) : IdmaTransfer :=
  let enableNd := (port.conf >>> 10) &&& 0x3
  { src := port.src.setWidth 64, dst := port.dst.setWidth 64, size := port.length.setWidth 64,
    srcStride := port.srcStride2.setWidth 64, dstStride := port.dstStride2.setWidth 64, reps := port.reps2.setWidth 64,
    config := (if 1 ≤ enableNd then 1 <<< 1 else 0) ||| if 2 ≤ enableNd then 1 <<< 2 else 0,
    srcStride3 := port.srcStride3.setWidth 64, dstStride3 := port.dstStride3.setWidth 64, reps3 :=
      port.reps3.setWidth 64,
    stream := stream }

structure Launch where
  id : BitVec 32
  transfer : IdmaTransfer
  deriving DecidableEq, Repr

/-- A read of NEXT_ID: how many transfers wait, the identifiers of the launches of the stream in progress, and the
answer. -/
structure NextIdRead where
  waiting : Nat
  inProgress : List (BitVec 32)
  answer : BitVec 32
  deriving DecidableEq, Repr

structure IDma where
  ports : Nat → Port := fun _ => {}
  streams : Nat → Stream := fun _ => {}
  pendingQueue : List (Nat × IdmaTransfer) := []
  me : IDmaMe3d := {}
  launches : List Launch := []
  reads : List NextIdRead := []
  /-- The launches of a stream that have been acknowledged to the front-end. -/
  completed : Nat → List Nat := fun _ => []

inductive Event
  | access (port offset size : Nat) (value : BitVec 32)
  /-- The handler of the middle-end. `accepts` is what the back-end says. -/
  | fsm (accepts : Bool)
  /-- The back-end is done with a line of a launch. -/
  | ack (n : Nat)
  deriving DecidableEq, Repr

namespace IDma

variable (cfg : Config) (s : IDma)

/-- The launches of a stream in order: their numbers and identifiers. -/
def launchesOf (stream : Nat) : List (Nat × BitVec 32) :=
  numbered (fun l : Launch => if l.transfer.stream = stream then some l.id else none) s.launches

/-- The identifiers of the launches of a stream that are not acknowledged. -/
def idsInProgress (stream : Nat) : List (BitVec 32) :=
  ((s.launchesOf stream).filter fun p => p.1 ∉ s.completed stream).map (·.2)

def ackTransfer (n : Nat) (t : IdmaTransfer) : IDma :=
  let stream := s.streams t.stream
  { s with
    streams := update s.streams t.stream { stream with doneId := stream.doneId + 1, pending := stream.pending - 1 }
    completed := update s.completed t.stream (s.completed t.stream ++ [n]) }

/-- The loop of `check_pending_queue`. -/
def handOver : List (Nat × IdmaTransfer) → IDmaMe3d → List (Nat × IdmaTransfer) × IDmaMe3d
  | [], me => ([], me)
  | (n, t) :: queue, me =>
    if me.canAcceptTransfer cfg.transferQueueSize then handOver queue (me.enqueue n t) else ((n, t) :: queue, me)

def checkPendingQueue : IDma :=
  let (queue, me) := handOver cfg s.pendingQueue s.me
  { s with pendingQueue := queue, me := me }

def allocate (t : IdmaTransfer) : IDma :=
  let stream := s.streams t.stream
  { s with
    streams := update s.streams t.stream { stream with nextId := stream.nextId + 1, pending := stream.pending + 1 }
    launches := s.launches ++ [{ id := stream.nextId, transfer := t }] }

def enqueueCopy (port stream : Nat) : BitVec 32 × IDma :=
  if cfg.globalQueueDepth ≤ s.pendingQueue.length then (0, s)
  else
    let t := (s.ports port).transfer stream
    let n := s.launches.length
    let id := (s.streams stream).nextId
    let s := s.allocate t
    if t.isEmpty then (id, s.ackTransfer n t)
    else (id, checkPendingQueue cfg { s with pendingQueue := s.pendingQueue ++ [(n, t)] })

def readNextId (port stream : Nat) : IDma :=
  let (answer, s') := s.enqueueCopy cfg port stream
  let read := { waiting := s.pendingQueue.length, inProgress := s.idsInProgress stream, answer := answer }
  { s' with reads := s.reads ++ [read] }

def readStatus (stream : Nat) : BitVec 32 := if 0 < (s.streams stream).pending.toInt then 1 else 0

def fsmHandler (accepts : Bool) : IDma :=
  let s := { s with me := s.me.load me3d }
  if accepts then
    let s' := { s with me := s.me.feed me3d }
    if s.me.atLast me3d then s'.checkPendingQueue cfg else s'
  else s

/-- `IDmaMe3d::ack_transfer` -/
def ackBurst (n : Nat) : IDma :=
  let s' := { s with me := s.me.back n }
  if s.me.finishes n then
    match s.launches[n]? with
    | some l => s'.ackTransfer n l.transfer
    | none => s'
  else s'

def step (s : IDma) : Event → Option IDma
  | .access port offset size value =>
    match decode cfg offset size value with
    | .launch stream => some (s.readNextId cfg port stream)
    | .set f => some { s with ports := update s.ports port (f (s.ports port)) }
    | _ => some s
  | .fsm accepts => some (s.fsmHandler cfg accepts)
  | .ack n => if n ∈ s.me.flight then some (s.ackBurst n) else none

end IDma

end GvsocPulp.PulpIdma
