import Mathlib

/-!
# Requests and flits

What travels in the network: the requests of the external masters (`vp::IoReq`) and the flits the network interfaces
make of them (`FloonocReqV2`). A pointer is a number; the payload of a read response is in the flit itself.

- `EntryV2`, `getEntry`: the memory map of the interfaces.
-/

namespace GvsocPulp.FloonocV2

/-! ## Requests -/

abbrev addrSpace : Nat := 18446744073709551616

/-- The opcode of a request; of an atomic, only what `get_is_write` says of it is used. -/
inductive Opcode
  | read
  | write
  | atomic (isWrite : Bool)
  deriving DecidableEq, Repr, Inhabited

/-- `get_is_write()`. -/
def Opcode.isWrite : Opcode → Bool
  | .read => false
  | .write => true
  | .atomic isWrite => isWrite

/-- `IO_RESP_OK` and `IO_RESP_INVALID`. -/
inductive RespStatus
  | ok
  | invalid
  deriving DecidableEq, Repr, Inhabited

/-- What a network interface reads of an external request: a burst, or a beat of a write burst. -/
structure IoReq where
  /-- The object itself, as a pointer. -/
  ptr : Nat
  opcode : Opcode
  addr : Nat
  size : Nat
  /-- The buffer with the data of a write; `none` for `NULL`. -/
  data : Option Nat := none
  isFirst : Bool := true
  isLast : Bool := true
  burstId : Int := -1
  initiator : Nat := 0
  /-- The bytes that have not come back yet. -/
  remainingSize : Nat := 0
  deriving DecidableEq, Repr, Inhabited

/-- A write that is a burst on its own and has no id. -/
def IoReq.isLone (req : IoReq) : Bool := req.isFirst && req.isLast && req.burstId == -1

/-! ## Flits -/

/-- `FloonocReqV2`. -/
structure Flit where
  destId : Int
  srcId : Int
  isRsp : Bool
  /-- The external request the flit belongs to. -/
  burst : Nat
  ownsBeat : Bool := false
  silentB : Bool := false
  wide : Bool
  isAddress : Bool
  initiatorAddr : Nat
  payload : List UInt8 := []
  opcode : Opcode
  addr : Nat
  size : Nat
  data : Option Nat := none
  isFirst : Bool := true
  isLast : Bool := true
  burstId : Int := -1
  initiator : Nat := 0
  respStatus : RespStatus := .ok
  deriving DecidableEq, Repr, Inhabited

/-- `expects_response`: a write beat that is not the last of its burst gets no B. -/
def Flit.expectsResponse (flit : Flit) : Bool := flit.opcode != .write || !flit.silentB

/-! ## The memory map -/

structure EntryV2 where
  base : Nat
  size : Nat
  nodeId : Int
  removeOffset : Nat := 0
  deriving DecidableEq, Repr

/-- The end of an entry, as 64-bit addresses are added. -/
def EntryV2.stop (entry : EntryV2) : Nat := (entry.base + entry.size) % addrSpace

def EntryV2.covers (entry : EntryV2) (base : Nat) : Bool := 0 < entry.size && entry.base ≤ base && base < entry.stop

/-- `get_entry`: the first entry that has the address. -/
def getEntry (entries : List EntryV2) (base : Nat) : Option EntryV2 := entries.find? (·.covers base)

theorem getEntry_covers {entries : List EntryV2} {base : Nat} {entry : EntryV2}
    (h : getEntry entries base = some entry) :
    0 < entry.size ∧ entry.base ≤ base ∧ base < entry.stop := by
  have hcovers := List.find?_some h
  simpa [EntryV2.covers, and_assoc] using hcovers

end GvsocPulp.FloonocV2
