import GvsocPulp.FractalSync.Requests

/-!
# `FractalSync`: the registers of a node

What a node notes of a request, by id and port (`Reg`), and that its registers say nothing else (`Regs`): the masks say
which requests of an id it holds, the arrival counters how many of them it has counted, and the FSM works for the one
request or pair that its `current` registers name.

One lemma for each function of the node says which requests it moves on.
-/

namespace GvsocPulp.FractalSync

open Function Node.Pair Pair

variable {id' : Nat} {pair' : Pair}

/-- What a node notes of the request of a port for an id: nothing, taken by the FSM, counted, sent up. -/
inductive Reg
  | none
  | proc
  | kept
  | up
  deriving DecidableEq, Repr

/-- The id for which `..._END_SYNCRO` ends. -/
def Node.endId (s : Node) (pair : Pair) : Nat :=
  if s.syncroVal pair (s.currentIdReq pair.fst) = 2 then s.currentIdReq pair.fst else s.currentIdReq pair.snd

/-- Both requests of the pair are counted. -/
def BothKept (regs : Dir → Reg) (pair : Pair) : Prop := regs pair.fst = .kept ∧ regs pair.snd = .kept

/-- The registers of a node say what it notes; `mask` is the mask of each id, `top` says which ids end at a pair of this
node. -/
structure Regs (mask : Nat → BitVec 32) (top : Nat → Pair → Prop) (s : Node) (regs : Nat → Dir → Reg) : Prop where
  aggr : ∀ id dir, s.currentAggr dir id = if regs id dir = .none then noAggr else mask id
  count : ∀ id pair, s.syncroVal pair id =
    (if regs id pair.fst = .kept then 1 else 0) + if regs id pair.snd = .kept then 1 else 0
  proc : ∀ id dir, regs id dir = .proc ↔ s.state = .slaveReq dir ∧ s.currentIdReq dir = id
  both : ∀ id pair, BothKept (regs id) pair ↔
    (s.state = .upSyncro pair ∧ s.pairIdReq pair = id) ∨ (s.state = .endSyncro pair ∧ s.endId pair = id)
  up : ∀ pair, s.state = .upSyncro pair → s.pairAggr pair = mask (s.pairIdReq pair) ∧ ¬top (s.pairIdReq pair) pair
  ends : ∀ pair, s.state = .endSyncro pair → top (s.endId pair) pair

section Ports

@[simp] theorem Pair.fst_pair (pair : Pair) : pair.fst.pair = pair := by cases pair <;> rfl

@[simp] theorem Pair.snd_pair (pair : Pair) : pair.snd.pair = pair := by cases pair <;> rfl

theorem Dir.pair_eq_iff {dir : Dir} {pair : Pair} : dir.pair = pair ↔ dir = pair.fst ∨ dir = pair.snd := by
  cases dir <;> cases pair <;> decide

theorem Pair.mem_answered {dir : Dir} {pair : Pair} : dir ∈ answered pair ↔ dir.pair = pair := by
  cases dir <;> cases pair <;> decide

theorem Pair.answered_nodup (pair : Pair) : (answered pair).Nodup := by cases pair <;> decide

end Ports

namespace Regs

open Node

variable {cfg : NodeConfig} {mask : Nat → BitVec 32} {top : Nat → Pair → Prop} {s : Node} {regs regs' : Nat → Dir → Reg}
  {id : Nat} {dir : Dir} {pair : Pair}

/-! ## What the registers say -/

theorem init : Regs mask top {} fun _ _ => .none where
  aggr _ _ := rfl
  count _ _ := rfl
  proc _ _ := ⟨fun h => (nomatch h), fun h => (nomatch h.1)⟩
  both _ _ := ⟨fun h => (nomatch h.1), fun h => h.elim (fun h => (nomatch h.1)) (fun h => (nomatch h.1))⟩
  up _ h := by cases h
  ends _ h := by cases h

section

variable (h : Regs mask top s regs)
include h

theorem not_both (hup : s.state ≠ .upSyncro pair) (hend : s.state ≠ .endSyncro pair) :
    ¬BothKept (regs id) pair := by
  intro hboth
  rcases (h.both id pair).1 hboth with ⟨hst, -⟩ | ⟨hst, -⟩
  · exact hup hst
  · exact hend hst

theorem not_proc (hst : s.state ≠ .slaveReq dir) : regs id dir ≠ .proc :=
  fun hproc => hst ((h.proc id dir).1 hproc).1

theorem congr {s' : Node} (hstate : s'.state = s.state) (haggr : s'.currentAggr = s.currentAggr)
    (hval : s'.syncroVal = s.syncroVal) (hcur : s'.currentIdReq = s.currentIdReq) (hid : s'.pairIdReq = s.pairIdReq)
    (hpair : s'.pairAggr = s.pairAggr) : Regs mask top s' regs := by
  have hend : s'.endId = s.endId := by
    funext pair
    rw [Node.endId, Node.endId, hval, hcur]
  exact ⟨by rw [haggr]; exact h.aggr, by rw [hval]; exact h.count, by rw [hstate, hcur]; exact h.proc,
    by rw [hstate, hid, hend]; exact h.both, by rw [hstate, hid, hpair]; exact h.up, by rw [hstate, hend]; exact h.ends⟩

theorem congr_mask {mask' : Nat → BitVec 32} {top' : Nat → Pair → Prop}
    (hmask : ∀ id, (∃ dir, regs id dir ≠ .none) → mask' id = mask id ∧ ∀ pair, top' id pair ↔ top id pair) :
    Regs mask' top' s regs := by
  refine ⟨fun id dir => ?_, h.count, h.proc, h.both, fun pair hst => ?_, fun pair hst => ?_⟩
  · rw [h.aggr]
    by_cases hnone : regs id dir = .none
    · rw [if_pos hnone, if_pos hnone]
    · rw [if_neg hnone, if_neg hnone, (hmask id ⟨dir, hnone⟩).1]
  · have hboth := (h.both _ _).2 (Or.inl ⟨hst, rfl⟩)
    obtain ⟨heq, htop⟩ := hmask _ ⟨pair.fst, by rw [hboth.1]; decide⟩
    rw [heq, htop]
    exact h.up pair hst
  · have hboth := (h.both _ _).2 (Or.inr ⟨hst, rfl⟩)
    exact ((hmask _ ⟨pair.fst, by rw [hboth.1]; decide⟩).2 pair).2 (h.ends pair hst)

/-! ## Requests -/

theorem aggr_set {r : Reg} (hr : r ≠ .none)
    (hregs : ∀ id' dir', regs' id' dir' = if id' = id ∧ dir' = dir then r else regs id' dir') (id' : Nat) (dir' : Dir) :
    set₂ s.currentAggr dir id (mask id) dir' id' = if regs' id' dir' = .none then noAggr else mask id' := by
  rw [set₂, hregs]
  by_cases heq : id' = id ∧ dir' = dir
  · rw [if_pos ⟨heq.2, heq.1⟩, if_pos heq, heq.1, if_neg hr]
  · rw [if_neg (fun h => heq ⟨h.2, h.1⟩), if_neg heq]
    exact h.aggr id' dir'

theorem take (hst : s.state = .idle) (hnone : regs id dir = .none)
    (hregs : ∀ id' dir', regs' id' dir' = if id' = id ∧ dir' = dir then .proc else regs id' dir') :
    Regs mask top ({ s with
      currentAggr := set₂ s.currentAggr dir id (mask id)
      currentIdReq := update s.currentIdReq dir id }.goto (.slaveReq dir)) regs' := by
  have hkept : ∀ id' dir', regs' id' dir' = .kept ↔ regs id' dir' = .kept := by
    intro id' dir'
    rw [hregs]
    split
    case isTrue heq => rw [heq.1, heq.2, hnone]; decide
    case isFalse => rfl
  have hboth : ∀ id' pair, ¬BothKept (regs' id') pair := by
    intro id' pair hboth
    rw [BothKept, hkept, hkept] at hboth
    exact h.not_both (by rw [hst]; nofun) (by rw [hst]; nofun) hboth
  refine ⟨fun id' dir' => ?_, fun id' pair => ?_, fun id' dir' => ?_, fun id' pair => ?_, nofun, nofun⟩
  · exact h.aggr_set (by decide) hregs id' dir'
  · show s.syncroVal pair id' = _
    rw [h.count]
    simp only [hkept]
  · show _ ↔ FsmState.slaveReq dir = .slaveReq dir' ∧ update s.currentIdReq dir id dir' = id'
    rw [hregs]
    by_cases hdir : dir' = dir
    · subst hdir
      rw [update_self]
      by_cases hid : id' = id
      · rw [if_pos ⟨hid, rfl⟩]
        exact ⟨fun _ => ⟨rfl, hid.symm⟩, fun _ => rfl⟩
      · rw [if_neg (fun h => hid h.1)]
        exact ⟨fun hproc => absurd hproc (h.not_proc (by rw [hst]; nofun)), fun heq => absurd heq.2.symm hid⟩
    · rw [if_neg (fun h => hdir h.2)]
      exact ⟨fun hproc => absurd hproc (h.not_proc (by rw [hst]; nofun)),
        fun heq => absurd (FsmState.slaveReq.inj heq.1).symm hdir⟩
  · exact ⟨fun hb => absurd hb (hboth id' pair), fun hst => hst.elim (fun h => (nomatch h.1)) (fun h => (nomatch h.1))⟩

theorem pass (hnone : regs id dir = .none) (hregs : ∀ id' dir',
    regs' id' dir' = if id' = id ∧ dir' = dir then .up else regs id' dir') :
    Regs mask top { s with currentAggr := set₂ s.currentAggr dir id (mask id) } regs' := by
  have hne : ∀ r : Reg, r ≠ .none → r ≠ .up → ∀ id' dir', regs' id' dir' = r ↔ regs id' dir' = r := by
    intro r hr hup id' dir'
    rw [hregs]
    split
    case isTrue heq =>
      rw [heq.1, heq.2, hnone]
      exact ⟨fun h => absurd h.symm hup, fun h => absurd h.symm hr⟩
    case isFalse => rfl
  have hkept := hne .kept nofun nofun
  have hb : ∀ id' pair, BothKept (regs' id') pair ↔ BothKept (regs id') pair := by
    intro id' pair
    rw [BothKept, hkept, hkept, BothKept]
  refine ⟨fun id' dir' => ?_, fun id' pair => ?_, fun id' dir' => ?_, fun id' pair => ?_, fun pair hup => ?_,
    fun pair hend => ?_⟩
  · exact h.aggr_set (by decide) hregs id' dir'
  · rw [h.count]
    simp only [hkept]
  · rw [hne .proc nofun nofun]
    exact h.proc id' dir'
  · rw [hb]
    exact h.both id' pair
  · exact h.up pair hup
  · exact h.ends pair hend

end

/-! ## The FSM -/

/-- The registers after a request has been counted: no request is with the FSM, and only one pair can be complete. -/
structure Counted (mask : Nat → BitVec 32) (s : Node) (regs : Nat → Dir → Reg) (id : Nat) (pair : Pair) : Prop where
  aggr : ∀ id dir, s.currentAggr dir id = if regs id dir = .none then noAggr else mask id
  count : ∀ id pair, s.syncroVal pair id =
    (if regs id pair.fst = .kept then 1 else 0) + if regs id pair.snd = .kept then 1 else 0
  noProc : ∀ id dir, regs id dir ≠ .proc
  only : ∀ id' pair', BothKept (regs id') pair' → id' = id ∧ pair' = pair

theorem count_eq_two {n : Int} {regs : Dir → Reg}
    (h : n = (if regs pair.fst = .kept then 1 else 0) + if regs pair.snd = .kept then 1 else 0) :
    n = 2 ↔ BothKept regs pair := by
  rw [h, BothKept]
  split <;> split <;> simp_all

theorem counted (h : Regs mask top s regs) (hst : s.state = .slaveReq dir) (hid : s.currentIdReq dir = id)
    (hregs : ∀ id' dir', regs' id' dir' = if id' = id ∧ dir' = dir then .kept else regs id' dir') :
    Counted mask (s.count dir.pair id) regs' id dir.pair := by
  have hproc : regs id dir = .proc := (h.proc id dir).2 ⟨hst, hid⟩
  have hsame : ∀ id' dir', ¬(id' = id ∧ dir' = dir) → regs' id' dir' = regs id' dir' := fun id' dir' hne => by
    rw [hregs, if_neg hne]
  refine ⟨fun id' dir' => ?_, fun id' pair => ?_, fun id' dir' hp => ?_, fun id' pair' hboth => ?_⟩
  · show s.currentAggr dir' id' = _
    rw [h.aggr, hregs]
    by_cases heq : id' = id ∧ dir' = dir
    · rw [if_pos heq, heq.1, heq.2, hproc]
      rfl
    · rw [if_neg heq]
  · show set₂ s.syncroVal dir.pair id (s.syncroVal dir.pair id + 1) pair id' = _
    by_cases heq : id' = id ∧ pair = dir.pair
    · obtain ⟨rfl, rfl⟩ := heq
      rw [set₂, hregs, hregs, h.count]
      -- the other port of the pair is as before
      cases dir <;> simp [Dir.pair, fst, snd, hproc, Int.add_comm] <;> rfl
    · rw [set₂, if_neg (fun h => heq ⟨h.2, h.1⟩), h.count, hsame id' _ (fun h => heq ⟨h.1, by rw [← h.2, fst_pair]⟩),
        hsame id' _ (fun h => heq ⟨h.1, by rw [← h.2, snd_pair]⟩)]
  · rw [hregs] at hp
    split at hp
    case isTrue => cases hp
    case isFalse hne =>
      obtain ⟨hst', hid'⟩ := (h.proc id' dir').1 hp
      rw [hst] at hst'
      cases hst'
      exact hne ⟨hid'.symm.trans hid, rfl⟩
  · have hnot : ¬BothKept (regs id') pair' := h.not_both (by rw [hst]; nofun) (by rw [hst]; nofun)
    by_contra hne
    refine hnot ⟨?_, ?_⟩
    · rw [← hsame id' _ fun heq => hne ⟨heq.1, by rw [← heq.2, fst_pair]⟩]
      exact hboth.1
    · rw [← hsame id' _ fun heq => hne ⟨heq.1, by rw [← heq.2, snd_pair]⟩]
      exact hboth.2

section

variable (h : Counted mask s regs id pair)
include h

theorem Counted.syncroVal_eq_two :
    s.syncroVal pair' id' = 2 ↔ BothKept (regs id') pair' := count_eq_two (h.count id' pair')

theorem Counted.idle (hnot : ¬BothKept (regs id) pair) :
    Regs mask top (s.goto .idle) regs := by
  refine ⟨h.aggr, h.count, fun id' dir' => ⟨fun hp => absurd hp (h.noProc id' dir'), fun hst => (nomatch hst.1)⟩,
    fun id' pair' => ⟨fun hboth => ?_, fun hst => hst.elim (fun h => (nomatch h.1)) (fun h => (nomatch h.1))⟩,
    fun _ hst => (nomatch hst), fun _ hst => (nomatch hst)⟩
  obtain ⟨rfl, rfl⟩ := h.only id' pair' hboth
  exact absurd hboth hnot

theorem Counted.ended (hboth : BothKept (regs id) pair) (htop : top id pair)
    (hcur : ∃ dir, dir.pair = pair ∧ s.currentIdReq dir = id) : Regs mask top (s.goto (.endSyncro pair)) regs := by
  have htwo : s.syncroVal pair id = 2 := h.syncroVal_eq_two.2 hboth
  have hend : s.endId pair = id := by
    obtain ⟨dir, hdir, hid⟩ := hcur
    rw [Node.endId]
    split
    case isTrue hfst => exact (h.only _ _ (h.syncroVal_eq_two.1 hfst)).1
    case isFalse hfst =>
      rcases Dir.pair_eq_iff.1 hdir with rfl | rfl
      · rw [hid] at hfst
        exact absurd htwo hfst
      · exact hid
  refine ⟨h.aggr, h.count, fun id' dir' => ⟨fun hp => absurd hp (h.noProc id' dir'), fun hst => (nomatch hst.1)⟩,
    fun id' pair' => ⟨fun hb => ?_, fun hst => ?_⟩, fun _ hst => (nomatch hst), fun pair' hst => ?_⟩
  · obtain ⟨rfl, rfl⟩ := h.only id' pair' hb
    exact Or.inr ⟨rfl, hend⟩
  · rcases hst with ⟨hst, -⟩ | ⟨hst, hid⟩
    · cases hst
    · cases hst
      have hid : s.endId pair = id' := hid
      rw [← hid, hend]
      exact hboth
  · cases hst
    show top (s.endId pair) pair
    rw [hend]
    exact htop

end

theorem Counted.goesUp (h : Counted mask s regs id dir.pair) (hboth : BothKept (regs id) dir.pair)
    (htop : ¬top id dir.pair) (hid : s.currentIdReq dir = id) (hheld : regs id dir ≠ .none) :
    Regs mask top (s.sendUp dir) regs := by
  have hpair : (s.sendUp dir).pairIdReq dir.pair = id := by
    show update s.pairIdReq dir.pair (s.currentIdReq dir) dir.pair = id
    rw [update_self, hid]
  have haggr : (s.sendUp dir).pairAggr dir.pair = mask id := by
    show update s.pairAggr dir.pair (s.currentAggr dir (s.currentIdReq dir)) dir.pair = _
    rw [update_self, hid, h.aggr, if_neg hheld]
  refine ⟨h.aggr, h.count, fun id' dir' => ⟨fun hp => absurd hp (h.noProc id' dir'), fun hst => (nomatch hst.1)⟩,
    fun id' pair' => ⟨fun hb => ?_, fun hst => ?_⟩, fun pair' hst => ?_, fun _ hst => (nomatch hst)⟩
  · obtain ⟨rfl, rfl⟩ := h.only id' pair' hb
    exact Or.inl ⟨rfl, hpair⟩
  · rcases hst with ⟨hst, hid'⟩ | ⟨hst, -⟩
    · cases hst
      rw [← hid', hpair]
      exact hboth
    · cases hst
  · cases hst
    rw [hpair]
    exact ⟨haggr, htop⟩

section

variable (h : Regs mask top s regs)
include h

/-- **`SLAVE_..._REQ`** counts the request that the FSM has taken; the synchronisation goes on with the second one. -/
theorem slaveReq (hst : s.state = .slaveReq dir) (hid : s.currentIdReq dir = id)
    (hbit : mask id &&& cfg.mask ≠ 0) (hnoAggr : noAggr &&& cfg.mask ≠ 0)
    (htop : msbPos cfg (mask id) = cfg.level ↔ top id dir.pair)
    (hregs : ∀ id' dir', regs' id' dir' = if id' = id ∧ dir' = dir then .kept else regs id' dir') :
    Regs mask top (s.fsmSlaveReq cfg dir) regs' ∧ (s.fsmSlaveReq cfg dir).outputs = s.outputs := by
  have hc := h.counted hst hid hregs
  have hproc : regs id dir = .proc := (h.proc id dir).2 ⟨hst, hid⟩
  have haggr : s.currentAggr dir id = mask id := by rw [h.aggr, hproc]; rfl
  have htested : s.currentAggr (Dir.tested dir) id &&& cfg.mask ≠ 0 := by
    rw [h.aggr]
    split
    · exact hnoAggr
    · exact hbit
  have hheld : regs' id dir ≠ .none := by rw [hregs, if_pos ⟨rfl, rfl⟩]; nofun
  rw [fsmSlaveReq, hid]
  dsimp only
  rw [haggr]
  by_cases hboth : BothKept (regs' id) dir.pair
  · have htwo := hc.syncroVal_eq_two.2 hboth
    by_cases hmsb : msbPos cfg (mask id) = cfg.level
    · rw [if_pos hmsb, if_pos htwo]
      exact ⟨hc.ended hboth (htop.1 hmsb) ⟨dir, rfl, hid⟩, rfl⟩
    · rw [if_neg hmsb, if_pos htested, if_pos htwo]
      exact ⟨hc.goesUp hboth (fun ht => hmsb (htop.2 ht)) hid hheld, rfl⟩
  · have htwo := fun h2 => hboth (hc.syncroVal_eq_two.1 h2)
    by_cases hmsb : msbPos cfg (mask id) = cfg.level
    · rw [if_pos hmsb, if_neg htwo]
      exact ⟨hc.idle hboth, rfl⟩
    · rw [if_neg hmsb, if_pos htested, if_neg htwo]
      exact ⟨hc.idle hboth, rfl⟩

theorem both_unique (hboth : BothKept (regs id) pair) (hboth' : BothKept (regs id') pair') :
    id' = id ∧ pair' = pair := by
  rcases (h.both id pair).1 hboth with ⟨hst, hid⟩ | ⟨hst, hid⟩ <;>
    rcases (h.both id' pair').1 hboth' with ⟨hst', hid'⟩ | ⟨hst', hid'⟩ <;>
      rw [hst] at hst' <;> cases hst'
  · exact ⟨hid'.symm.trans hid, rfl⟩
  · exact ⟨hid'.symm.trans hid, rfl⟩

theorem not_both_of_moved (hboth : BothKept (regs id) pair) (reg : Reg) (hreg : reg ≠ .kept)
    (hregs : ∀ id' dir', regs' id' dir' = if id' = id ∧ dir'.pair = pair then reg else regs id' dir') (id' : Nat)
    (pair' : Pair) : ¬BothKept (regs' id') pair' := by
  intro hb
  rw [BothKept, hregs, hregs, fst_pair, snd_pair] at hb
  split at hb
  case isTrue => exact hreg hb.1
  case isFalse hne => exact hne (h.both_unique hboth hb)

theorem count_reset (reg : Reg) (hreg : reg ≠ .kept)
    (hregs : ∀ id' dir', regs' id' dir' = if id' = id ∧ dir'.pair = pair then reg else regs id' dir') (id' : Nat)
    (pair' : Pair) : set₂ s.syncroVal pair id 0 pair' id' =
      (if regs' id' pair'.fst = .kept then 1 else 0) + if regs' id' pair'.snd = .kept then 1 else 0 := by
  rw [set₂, hregs, hregs, h.count, fst_pair, snd_pair]
  by_cases heq : id' = id ∧ pair' = pair
  · rw [if_pos ⟨heq.2, heq.1⟩, if_pos heq, if_pos heq, if_neg hreg, Int.add_zero]
  · rw [if_neg (fun h => heq ⟨h.2, h.1⟩), if_neg heq, if_neg heq]

/-- **`..._UP_SYNCRO`**: the pair goes up. -/
theorem upSyncro (hst : s.state = .upSyncro pair) (hid : s.pairIdReq pair = id)
    (hregs : ∀ id' dir', regs' id' dir' = if id' = id ∧ dir'.pair = pair then .up else regs id' dir') :
    Regs mask top (s.fsmUpSyncro pair) regs' ∧
      (s.fsmUpSyncro pair).outputs = s.outputs ++ [.up pair { sync := true, aggr := mask id, idReq := id }] := by
  have hboth := (h.both id pair).2 (Or.inl ⟨hst, hid⟩)
  have haggr := (h.up pair hst).1
  rw [hid] at haggr
  have hheld : ∀ dir, dir.pair = pair → regs id dir = .kept := by
    intro dir hdir
    rcases Dir.pair_eq_iff.1 hdir with rfl | rfl
    · exact hboth.1
    · exact hboth.2
  have hnot := h.not_both_of_moved hboth .up nofun hregs
  refine ⟨⟨fun id' dir' => ?_, fun id' pair' => ?_, fun id' dir' => ⟨fun hp => ?_, fun hst => (nomatch hst.1)⟩,
    fun id' pair' => ⟨fun hb => absurd hb (hnot id' pair'),
      fun hst => hst.elim (fun h => (nomatch h.1)) (fun h => (nomatch h.1))⟩,
    fun _ hst => (nomatch hst), fun _ hst => (nomatch hst)⟩, ?_⟩
  · show s.currentAggr dir' id' = _
    rw [h.aggr, hregs]
    by_cases heq : id' = id ∧ dir'.pair = pair
    · rw [if_pos heq, heq.1, hheld dir' heq.2]
      rfl
    · rw [if_neg heq]
  · show set₂ s.syncroVal pair (s.pairIdReq pair) 0 pair' id' = _
    rw [hid]
    exact h.count_reset .up nofun hregs id' pair'
  · rw [hregs] at hp
    split at hp
    case isTrue => cases hp
    case isFalse => exact absurd hp (h.not_proc (by rw [hst]; nofun))
  · show s.outputs ++ [Output.up pair { sync := true, aggr := s.pairAggr pair, idReq := s.pairIdReq pair }] = _
    rw [haggr, hid]

end

theorem forget_currentAggr {dir' : Dir} :
    (s.forget pair id).currentAggr dir' id' = if id' = id ∧ dir'.pair = pair then noAggr
      else s.currentAggr dir' id' := by
  show set₂ (set₂ s.currentAggr pair.fst id noAggr) pair.snd id noAggr dir' id' = _
  rw [set₂, set₂]
  by_cases heq : id' = id ∧ dir'.pair = pair
  · rw [if_pos heq]
    rcases Dir.pair_eq_iff.1 heq.2 with hdir | hdir
    · rw [if_pos (⟨hdir, heq.1⟩ : dir' = pair.fst ∧ id' = id), ite_self]
    · rw [if_pos ⟨hdir, heq.1⟩]
  · rw [if_neg (fun h => heq ⟨h.2, Dir.pair_eq_iff.2 (Or.inr h.1)⟩),
      if_neg (fun h => heq ⟨h.2, Dir.pair_eq_iff.2 (Or.inl h.1)⟩), if_neg heq]

variable (h : Regs mask top s regs)
include h

theorem forgotten (hregs : ∀ id' dir', regs' id' dir' = if id' = id ∧ dir'.pair = pair then .none else regs id' dir')
    (id' : Nat) (dir' : Dir) : (s.forget pair id).currentAggr dir' id' = if regs' id' dir' = .none then noAggr
    else mask id' := by
  rw [forget_currentAggr, hregs]
  split
  · rfl
  · exact h.aggr id' dir'

/-- **`..._END_SYNCRO`**: the pair is ended, and both ports are answered. -/
theorem endSyncro (hst : s.state = .endSyncro pair) (hid : s.endId pair = id)
    (hregs : ∀ id' dir', regs' id' dir' = if id' = id ∧ dir'.pair = pair then .none else regs id' dir') :
    ∃ s', s.fsmEndSyncro pair = some s' ∧ Regs mask top s' regs' ∧
      s'.outputs = s.outputs ++ (answered pair).map fun dir => Output.resp dir (s.wakeResp dir id) := by
  have hboth := (h.both id pair).2 (Or.inr ⟨hst, hid⟩)
  have htwo : s.syncroVal pair id = 2 := (count_eq_two (h.count id pair)).2 hboth
  have hnot := h.not_both_of_moved hboth .none (by simp) hregs
  have heq : s.fsmEndSyncro pair = some (({ s with
      syncroVal := set₂ s.syncroVal pair id 0
      outputs := s.outputs ++ (answered pair).map fun dir => Output.resp dir (s.wakeResp dir id) }.forget
        pair id).goto .idle) := by
    rw [fsmEndSyncro]
    rw [Node.endId] at hid
    split
    case isTrue hfst =>
      rw [if_pos hfst] at hid
      rw [hid]
    case isFalse hfst =>
      rw [if_neg hfst] at hid
      rw [hid, if_pos htwo]
  refine ⟨_, heq, ⟨h.forgotten hregs, h.count_reset .none (by simp) hregs,
    fun id' dir' => ⟨fun hp => ?_, fun hst => by cases hst.1⟩, fun id' pair' => ⟨fun hb => absurd hb (hnot id' pair'),
      fun hst => hst.elim (fun h => by cases h.1) (fun h => by cases h.1)⟩,
    fun _ hst => (by cases hst), fun _ hst => by cases hst⟩, rfl⟩
  rw [hregs] at hp
  split at hp
  case isTrue => cases hp
  case isFalse => exact absurd hp (h.not_proc (by rw [hst]; simp))

/-! ## Answers -/

/-- **`master_input_method`** answers the ports of the pair whose requests have gone up, if their mask is not taken for
none. -/
theorem answer {rsp : PortResp} (hid : rsp.idRsp = id)
    (hup : ∀ dir, dir.pair = pair → regs id dir = .none ∨ regs id dir = .up ∧ mask id ≠ noAggr)
    (hregs : ∀ id' dir', regs' id' dir' = if id' = id ∧ dir'.pair = pair then .none else regs id' dir') :
    Regs mask top (s.masterInput cfg pair rsp) regs' ∧ (s.masterInput cfg pair rsp).outputs = s.outputs ++
      ((answered pair).filter fun dir => regs id dir ≠ .none).map fun dir =>
        Output.resp dir { wake := true, lvl := cfg.mask, idRsp := id, error := false } := by
  subst hid
  have hne : ∀ reg : Reg, reg ≠ .none → reg ≠ .up → ∀ id' dir', regs' id' dir' = reg ↔ regs id' dir' = reg := by
    intro reg hnone hreg id' dir'
    rw [hregs]
    split
    case isTrue heq =>
      rw [heq.1]
      refine ⟨fun heq => absurd heq.symm hnone, fun hr => ?_⟩
      rcases hup dir' heq.2 with h' | ⟨h', -⟩ <;> rw [h'] at hr
      · exact absurd hr.symm hnone
      · exact absurd hr.symm hreg
    case isFalse => rfl
  have hkept := hne .kept nofun nofun
  refine ⟨⟨h.forgotten hregs, fun id' pair' => ?_, fun id' dir' => ?_, fun id' pair' => ?_, h.up, h.ends⟩, ?_⟩
  · simp only [hkept]
    exact h.count id' pair'
  · rw [hne .proc nofun nofun]
    exact h.proc id' dir'
  · rw [BothKept, hkept, hkept]
    exact h.both id' pair'
  · show s.outputs ++ ((answered pair).filter _).map _ = _
    congr 2
    refine List.filter_congr fun dir hdir => ?_
    have haggr := h.aggr rsp.idRsp dir
    rcases hup dir (mem_answered.1 hdir) with h' | ⟨h', hmask⟩
    · rw [h', if_pos rfl] at haggr
      simp [haggr, h']
    · rw [h', if_neg nofun] at haggr
      simp [haggr, h', hmask]

end Regs

end GvsocPulp.FractalSync
