import GvsocPulp.FractalSync.Requests

/-!
# `FractalSync`: a tree of nodes

Nodes whose master ports are connected to slave ports of the next level, and barriers that their participants ask for at
the slave ports that are not connected (`System`). A call of a node on a connected port is delivered at a later step:
the code delivers it at once, which is one of the orders.

- `Barrier`: the ports that the requests of a barrier pass, from its participants up to the pair of ports where it ends;
- `treeStep`: what happens to the system;
- `Barrier.exists_part`, `Barrier.exists_top`, `Barrier.forall_used`: down and up the ports of a barrier.
-/

namespace GvsocPulp.FractalSync

open Lib Function

variable {ν : Type}

variable {port : ν × Dir}

/-! ## Trees and barriers -/

def half (port : ν × Dir) : ν × Pair := (port.1, port.2.pair)

/-- The connections of a tree: `up` is where the master port of a pair leads, `down` what is connected to a slave port.
-/
structure Tree (ν : Type) where
  cfg : ν → NodeConfig
  up : ν × Pair → Option (ν × Dir)
  down : ν × Dir → Option (ν × Pair)
  down_iff : ∀ port pair, down port = some pair ↔ up pair = some port
  level_up : ∀ pair port, up pair = some port → (cfg port.1).level = (cfg pair.1).level + 1

/-- A barrier: the mask that all its participants send, the pair of ports where it ends, the ports that its requests use
and, of those, the participants'. It ends at the level of the highest bit of the mask; below, a pair of ports
synchronises both its ports if its level is in the mask, and otherwise passes the requests of one of them. -/
structure Barrier (t : Tree ν) where
  mask : BitVec 32
  top : ν × Pair
  used : ν × Dir → Bool
  parts : List (ν × Dir)
  mask_ne_zero : mask ≠ 0
  top_level : (t.cfg top.1).level = Nat.log2 mask.toNat
  used_top : ∀ port, half port = top → used port = true
  used_up : ∀ port, used port = true → half port ≠ top → ∃ port', t.up (half port) = some port' ∧ used port' = true
  level_le : ∀ port, used port = true → (t.cfg port.1).level ≤ (t.cfg top.1).level
  used_sync : ∀ port pair, used port = true → t.down port = some pair → mask &&& (t.cfg pair.1).mask ≠ 0 →
    ∀ port', half port' = pair → used port' = true
  used_pass : ∀ port pair, used port = true → t.down port = some pair → mask &&& (t.cfg pair.1).mask = 0 →
    ∃ port', half port' = pair ∧ ∀ port'', half port'' = pair → (used port'' = true ↔ port'' = port')
  mem_parts : ∀ port, port ∈ parts ↔ used port = true ∧ t.down port = none

/-! ## State -/

/-- A call on a slave port, or on the master port of a pair. -/
inductive Call (ν : Type)
  | request (port : ν × Dir) (req : PortReq)
  | response (pair : ν × Pair) (rsp : PortResp)
  deriving DecidableEq

/-- The nodes, the calls that are not delivered yet, and by id: the barrier it is used for, which participants have
asked for it, and what their ports have got since it started. -/
structure System (t : Tree ν) where
  node : ν → Node := fun _ => {}
  calls : List (Call ν) := []
  current : Nat → Option (Barrier t) := fun _ => none
  sent : Nat → ν × Dir → Bool := fun _ _ => false
  wakes : Nat → ν × Dir → List PortResp := fun _ _ => []

/-- `start`: an id is used for a barrier; `request`: a participant asks for it; `fsm`: the FSM event of a node fires;
`deliver`: a call is delivered. -/
inductive TreeEvent (t : Tree ν)
  | start (id : Nat) (barrier : Barrier t)
  | request (id : Nat) (port : ν × Dir)
  | fsm (n : ν)
  | deliver (k : Nat)

namespace System

variable [DecidableEq ν] {t : Tree ν} (s : System t)

/-- A call of a node: to the port that is connected, or to the participant. -/
def emit (n : ν) : Output → System t
  | .up pair req =>
    match t.up (n, pair) with
    | some port => { s with calls := s.calls ++ [.request port req] }
    | none => s
  | .resp dir rsp =>
    match t.down (n, dir) with
    | some pair => { s with calls := s.calls ++ [.response pair rsp] }
    | none => { s with wakes := Node.set₂ s.wakes rsp.idRsp (n, dir) (s.wakes rsp.idRsp (n, dir) ++ [rsp]) }

/-- The calls of a node, in their order. -/
def emitAll (n : ν) (outputs : List Output) : System t := outputs.foldl (fun s o => s.emit n o) s

def nodeEvent (n : ν) (e : NodeEvent) : Option (System t) :=
  (nodeStep (t.cfg n) (s.node n) e).map fun node =>
    ({ s with node := update s.node n node } : System t).emitAll n node.outputs

def call : Call ν → Option (System t)
  | .request port req => s.nodeEvent port.1 (.request port.2 req)
  | .response pair rsp => s.nodeEvent pair.1 (.response pair.2 rsp)

/-- All participants of the barrier that the id was used for have been woken. -/
def completed (id : Nat) : Bool :=
  match s.current id with
  | none => true
  | some b => b.parts.all fun port => !(s.wakes id port).isEmpty

/-- Nothing is left to deliver, and no FSM event is pending. -/
def Quiet : Prop := s.calls = [] ∧ ∀ n, (s.node n).fsmEvent = false

end System

/-- The request of a participant. -/
def Barrier.req {t : Tree ν} (b : Barrier t) (id : Nat) : PortReq := { sync := true, aggr := b.mask, idReq := id }

/-- **A step** of the system. -/
def treeStep [DecidableEq ν] {t : Tree ν} (s : System t) : TreeEvent t → Option (System t)
  | .start id barrier =>
    if id < 128 ∧ s.completed id = true then
      some { s with
        current := update s.current id (some barrier)
        sent := update s.sent id fun _ => false
        wakes := update s.wakes id fun _ => [] }
    else none
  | .request id port =>
    match s.current id with
    | none => none
    | some b =>
      if port ∈ b.parts ∧ s.sent id port = false then
        ({ s with sent := Node.set₂ s.sent id port true } : System t).call (.request port (b.req id))
      else none
  | .fsm n => s.nodeEvent n .fsm
  | .deliver k =>
    match s.calls[k]? with
    | none => none
    | some c => ({ s with calls := s.calls.eraseIdx k } : System t).call c

/-! ## Up and down the ports of a barrier -/

namespace Barrier

variable {t : Tree ν} (b : Barrier t) {P : ν × Dir → Prop}

theorem exists_part (hdown : ∀ port pair, b.used port = true → P port → t.down port = some pair →
    ∃ port', half port' = pair ∧ b.used port' = true ∧ P port') (hused : b.used port = true)
    (hport : P port) : ∃ part ∈ b.parts, P part := by
  induction hlevel : (t.cfg port.1).level generalizing port with
  | zero =>
    cases hd : t.down port with
    | none => exact ⟨port, (b.mem_parts port).2 ⟨hused, hd⟩, hport⟩
    | some pair =>
      have hup := t.level_up pair port ((t.down_iff port pair).1 hd)
      omega
  | succ level ih =>
    cases hd : t.down port with
    | none => exact ⟨port, (b.mem_parts port).2 ⟨hused, hd⟩, hport⟩
    | some pair =>
      obtain ⟨port', hhalf, hused', hport'⟩ := hdown port pair hused hport hd
      have hup := t.level_up pair port ((t.down_iff port pair).1 hd)
      refine ih hused' hport' ?_
      subst hhalf
      exact Nat.succ.inj (hup.symm.trans hlevel)

theorem exists_used {pair : ν × Pair} (hused : b.used port = true) (hd : t.down port = some pair) :
    ∃ port', half port' = pair ∧ b.used port' = true := by
  by_cases hmask : b.mask &&& (t.cfg pair.1).mask = 0
  · obtain ⟨port', hhalf, hport'⟩ := b.used_pass port pair hused hd hmask
    exact ⟨port', hhalf, (hport' port' hhalf).2 rfl⟩
  · refine ⟨(pair.1, pair.2.fst), ?_, ?_⟩
    · cases pair with
      | mk n p => cases p <;> rfl
    · refine b.used_sync port pair hused hd hmask _ ?_
      cases pair with
      | mk n p => cases p <;> rfl

theorem exists_top (hup : ∀ port port', b.used port = true → P port → half port ≠ b.top →
    t.up (half port) = some port' → b.used port' = true → P port') (hused : b.used port = true) (hport : P port) :
    ∃ port', half port' = b.top ∧ P port' := by
  induction hgap : (t.cfg b.top.1).level - (t.cfg port.1).level generalizing port with
  | zero =>
    by_cases htop : half port = b.top
    · exact ⟨port, htop, hport⟩
    · -- the next port would be above the end of the barrier
      obtain ⟨port', hport', hused'⟩ := b.used_up port hused htop
      have hlevel := t.level_up _ _ hport'
      have hle := b.level_le port' hused'
      have hhalf : (t.cfg (half port).1).level = (t.cfg port.1).level := rfl
      omega
  | succ gap ih =>
    by_cases htop : half port = b.top
    · exact ⟨port, htop, hport⟩
    · obtain ⟨port', hport', hused'⟩ := b.used_up port hused htop
      have hlevel := t.level_up _ _ hport'
      have hhalf : (t.cfg (half port).1).level = (t.cfg port.1).level := rfl
      exact ih hused' (hup port port' hused hport htop hport' hused') (by omega)

/-- What holds of the ports where the barrier ends, and goes down, holds of all its ports. -/
theorem forall_used (htop : ∀ port, half port = b.top → P port)
    (hdown : ∀ port port', b.used port = true → half port ≠ b.top → t.up (half port) = some port' →
      b.used port' = true → P port' → P port) (hused : b.used port = true) : P port := by
  induction hgap : (t.cfg b.top.1).level - (t.cfg port.1).level generalizing port with
  | zero =>
    by_cases hend : half port = b.top
    · exact htop port hend
    · obtain ⟨port', hport', hused'⟩ := b.used_up port hused hend
      have hlevel := t.level_up _ _ hport'
      have hle := b.level_le port' hused'
      have hhalf : (t.cfg (half port).1).level = (t.cfg port.1).level := rfl
      omega
  | succ gap ih =>
    by_cases hend : half port = b.top
    · exact htop port hend
    · obtain ⟨port', hport', hused'⟩ := b.used_up port hused hend
      have hlevel := t.level_up _ _ hport'
      have hhalf : (t.cfg (half port).1).level = (t.cfg port.1).level := rfl
      exact hdown port port' hused hend hport' hused' (ih hused' (by omega))

end Barrier

end GvsocPulp.FractalSync
