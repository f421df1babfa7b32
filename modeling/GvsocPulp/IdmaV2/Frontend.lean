import GvsocPulp.IdmaV2.MiddleEnd
import GvsocPulp.Lib.Run

/-!
# The front-ends of the iDMA v2

`IDmaFeXdma`, `IDmaFeReg` and `IDmaFeCheshire` (`fe/*.cpp`) are three instances of `Frontend`: their registers, what an
access does, the transfer of a launch, and what becomes of a launch for which the middle-end has no room (`Scheme`).
Behind them is the 2D middle-end; when the back-end takes a line, and which line is done next, is the environment's
choice.
-/

namespace GvsocPulp.IdmaV2

/-- What an access to a front-end does. -/
inductive Op (R A : Type)
  | set (f : R → R)
  | launch (args : A)
  | nothing

/-- What a front-end does with a launch when the middle-end is full. -/
inductive Scheme
  /-- The transfer is kept, and the core waits for its grant. -/
  | grant
  /-- The access is denied, and comes again. -/
  | deny
  /-- The transfer is kept. -/
  | keep
  deriving DecidableEq, Repr

structure Frontend where
  Regs : Type
  Access : Type
  Args : Type
  /-- The registers after reset. -/
  regs : Regs
  decode : Access → Op Regs Args
  transfer : Regs → Args → IdmaTransfer
  idWidth : Nat
  /-- `next_transfer_id` after reset. -/
  firstId : Nat
  firstId_lt : firstId < 2 ^ idWidth
  scheme : Scheme
  /-- What the front-end tests before it asks the middle-end. -/
  zeroSize : Regs → Args → Bool
  zeroSize_eq : ∀ r a, zeroSize r a = (transfer r a).isEmpty

/-! ## `idma_fe_xdma.cpp` -/

structure XdmaRegs where
  src : BitVec 64 := 0
  dst : BitVec 64 := 0
  srcStride : BitVec 32 := 0
  dstStride : BitVec 32 := 0
  reps : BitVec 32 := 0
  deriving DecidableEq, Repr

structure OffloadInsn where
  func7 : BitVec 7
  argA : BitVec 32
  argB : BitVec 32
  deriving DecidableEq, Repr

structure DmcpyArgs where
  config : BitVec 32
  size : BitVec 32
  deriving DecidableEq, Repr

def IDmaFeXdma.offloadSync (insn : OffloadInsn) : Op XdmaRegs DmcpyArgs :=
  match insn.func7.toNat with
  | 0b0000000 => .set fun r => { r with src := insn.argB ++ insn.argA }
  | 0b0000001 => .set fun r => { r with dst := insn.argB ++ insn.argA }
  | 0b0000110 => .set fun r => { r with srcStride := insn.argA, dstStride := insn.argB }
  | 0b0000111 => .set fun r => { r with reps := insn.argA }
  | 0b0000011 | 0b0000010 => .launch { config := insn.argB, size := insn.argA }
  | _ => .nothing

def IDmaFeXdma.transfer (r : XdmaRegs) (args : DmcpyArgs) : IdmaTransfer :=
  { src := r.src, dst := r.dst, size := args.size.setWidth 64, srcStride := r.srcStride.setWidth 64,
    dstStride := r.dstStride.setWidth 64, reps := r.reps.setWidth 64, config := args.config.setWidth 64 }

def idmaFeXdma : Frontend where
  Regs := XdmaRegs
  Access := OffloadInsn
  Args := DmcpyArgs
  regs := {}
  decode := IDmaFeXdma.offloadSync
  transfer := IDmaFeXdma.transfer
  idWidth := 32
  firstId := 2
  firstId_lt := by decide
  scheme := .grant
  zeroSize r args := (IDmaFeXdma.transfer r args).isEmpty
  zeroSize_eq _ _ := rfl

/-! ## `idma_fe_reg.cpp` -/

structure Regs32 where
  src : BitVec 32 := 0
  dst : BitVec 32 := 0
  length : BitVec 32 := 0
  srcStride : BitVec 32 := 0
  dstStride : BitVec 32 := 0
  reps : BitVec 32 := 0
  deriving DecidableEq, Repr

structure RegAccess where
  addr : Nat
  size : Nat
  value : BitVec 32
  deriving DecidableEq, Repr

def IDmaFeReg.req (access : RegAccess) : Op Regs32 Unit :=
  if access.size ≠ 4 then .nothing
  else
    match access.addr with
    | 0x10 => .launch ()
    | 0xd0 => .set fun r => { r with dst := access.value }
    | 0xd8 => .set fun r => { r with src := access.value }
    | 0xe0 => .set fun r => { r with length := access.value }
    | 0xe8 => .set fun r => { r with dstStride := access.value }
    | 0xf0 => .set fun r => { r with srcStride := access.value }
    | 0xf8 => .set fun r => { r with reps := access.value }
    | _ => .nothing

def IDmaFeReg.transfer (r : Regs32) : IdmaTransfer :=
  { src := r.src.setWidth 64, dst := r.dst.setWidth 64, size := r.length.setWidth 64,
    srcStride := r.srcStride.setWidth 64, dstStride := r.dstStride.setWidth 64, reps := r.reps.setWidth 64,
    config := 1 <<< 1 }

def IDmaFeReg.zeroSize (r : Regs32) : Bool := r.length == 0 || r.reps == 0

theorem setWidth_beq_zero (x : BitVec 32) : (x.setWidth 64 == 0) = (x == 0) := by
  rw [Bool.eq_iff_iff, beq_iff_eq, beq_iff_eq]
  bv_omega

theorem IDmaFeReg.zeroSize_eq (r : Regs32) : IDmaFeReg.zeroSize r = (IDmaFeReg.transfer r).isEmpty := by
  have h2d : (IDmaFeReg.transfer r).is2d = true := by
    show ((1 : BitVec 64) <<< 1).getLsbD 1 = true
    decide
  rw [IdmaTransfer.isEmpty, h2d, Bool.true_and]
  show (r.length == 0 || r.reps == 0) = (r.length.setWidth 64 == 0 || r.reps.setWidth 64 == 0)
  rw [setWidth_beq_zero, setWidth_beq_zero]

def idmaFeReg : Frontend where
  Regs := Regs32
  Access := RegAccess
  Args := Unit
  regs := {}
  decode := IDmaFeReg.req
  transfer r _ := IDmaFeReg.transfer r
  idWidth := 32
  firstId := 1
  firstId_lt := by decide
  scheme := .deny
  zeroSize r _ := IDmaFeReg.zeroSize r
  zeroSize_eq r _ := IDmaFeReg.zeroSize_eq r

/-! ## `idma_fe_cheshire.cpp` -/

structure Regs64 where
  src : BitVec 64 := 0
  dst : BitVec 64 := 0
  numBytes : BitVec 64 := 0
  config : BitVec 64 := 0
  srcStride : BitVec 64 := 0
  dstStride : BitVec 64 := 0
  reps : BitVec 64 := 0
  deriving DecidableEq, Repr

structure CheshireAccess where
  offset : Nat
  isWrite : Bool
  size : Nat
  value : BitVec 64 := 0
  deriving DecidableEq, Repr

def IDmaFeCheshire.req (access : CheshireAccess) : Op Regs64 Unit :=
  if access.size ≠ 8 then .nothing
  else
    match access.offset, access.isWrite with
    | 0x0, true => .set fun r => { r with src := access.value }
    | 0x8, true => .set fun r => { r with dst := access.value }
    | 0x10, true => .set fun r => { r with numBytes := access.value }
    | 0x18, true => .set fun r => { r with config := access.value }
    | 0x28, false => .launch ()
    | 0x38, true => .set fun r => { r with srcStride := access.value }
    | 0x40, true => .set fun r => { r with dstStride := access.value }
    | 0x48, true => .set fun r => { r with reps := access.value }
    | _, _ => .nothing

def IDmaFeCheshire.transfer (r : Regs64) : IdmaTransfer :=
  { src := r.src, dst := r.dst, size := r.numBytes, srcStride := r.srcStride, dstStride := r.dstStride, reps := r.reps,
    config := r.config }

def idmaFeCheshire : Frontend where
  Regs := Regs64
  Access := CheshireAccess
  Args := Unit
  regs := {}
  decode := IDmaFeCheshire.req
  transfer r _ := IDmaFeCheshire.transfer r
  idWidth := 64
  firstId := 2
  firstId_lt := by decide
  scheme := .keep
  zeroSize r _ := (IDmaFeCheshire.transfer r).isEmpty
  zeroSize_eq _ _ := rfl

/-! ## A front-end with its middle-end -/

structure Launch where
  id : Nat
  transfer : IdmaTransfer
  deriving DecidableEq, Repr

structure IDma (fe : Frontend) where
  regs : fe.Regs := fe.regs
  nextTransferId : Nat := fe.firstId
  completedId : Nat := fe.firstId - 1
  doTransferGrant : Bool := false
  stalledTransfer : Option (Nat × IdmaTransfer) := none
  /-- The launch that has been denied, at the master. -/
  held : Option fe.Args := none
  me : IDmaMe2D := {}
  launches : List Launch := []
  /-- The launches for which `completed_id` has been incremented. -/
  completed : List Nat := []

inductive Event (fe : Frontend)
  | access (a : fe.Access)
  /-- The handler of the middle-end. `accepts` is what the back-end says. -/
  | fsm (accepts : Bool)
  /-- The back-end is done with a line of a launch. -/
  | ack (n : Nat)

namespace IDma

variable {fe : Frontend} (transferQueueSize : Nat) (s : IDma fe)

def ackTransfer (n : Nat) : IDma fe :=
  { s with completedId := (s.completedId + 1) % 2 ^ fe.idWidth, completed := s.completed ++ [n] }

def enqueueTransfer (n : Nat) (t : IdmaTransfer) : IDma fe := { s with me := s.me.enqueue n t }

def allocate (t : IdmaTransfer) : IDma fe :=
  { s with
    nextTransferId := (s.nextTransferId + 1) % 2 ^ fe.idWidth
    launches := s.launches ++ [{ id := s.nextTransferId, transfer := t }] }

def enqueueCopy (args : fe.Args) : IDma fe :=
  let t := fe.transfer s.regs args
  let n := s.launches.length
  let s := s.allocate t
  if t.isEmpty then s.ackTransfer n
  else if fe.scheme = .deny ∨ s.me.canAcceptTransfer transferQueueSize then s.enqueueTransfer n t
  else { s with stalledTransfer := some (n, t), doTransferGrant := true }

/-- An access to the trigger. -/
def launch (args : fe.Args) : IDma fe :=
  if fe.scheme = .deny ∧ ¬ fe.zeroSize s.regs args ∧ ¬ s.me.canAcceptTransfer transferQueueSize then
    { s with doTransferGrant := true, held := some args }
  else s.enqueueCopy transferQueueSize args

/-- The middle-end has room again. -/
def update : IDma fe :=
  if s.doTransferGrant ∧ s.me.canAcceptTransfer transferQueueSize then
    let s := { s with doTransferGrant := false }
    match fe.scheme, s.stalledTransfer, s.held with
    | .deny, _, some args => { s with held := none }.launch transferQueueSize args
    | .deny, _, none => s
    | _, some (n, t), _ => s.enqueueTransfer n t
    | _, none, _ => s
  else s

def fsmHandler (accepts : Bool) : IDma fe :=
  let s := { s with me := s.me.load me2d }
  if accepts then
    let s' := { s with me := s.me.feed me2d }
    if s.me.atLast me2d then s'.update transferQueueSize else s'
  else s

/-- `IDmaMe2D::ack_transfer` -/
def ackBurst (n : Nat) : IDma fe :=
  let s' := { s with me := s.me.back n }
  if s.me.finishes n then s'.ackTransfer n else s'

/-- Nothing else is launched while the core waits for a grant or the master holds a denied access. -/
def waits : Bool := s.doTransferGrant && fe.scheme != .keep

def step (s : IDma fe) : Event fe → Option (IDma fe)
  | .access a =>
    match fe.decode a with
    | .set f => some { s with regs := f s.regs }
    | .launch args => if s.waits then none else some (s.launch transferQueueSize args)
    | .nothing => some s
  | .fsm accepts => some (s.fsmHandler transferQueueSize accepts)
  | .ack n => if n ∈ s.me.flight then some (s.ackBurst n) else none

end IDma

end GvsocPulp.IdmaV2
