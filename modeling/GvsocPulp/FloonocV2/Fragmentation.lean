import GvsocPulp.FloonocV2.NetworkInterface

/-!
# Fragmentation of a request

What `enqueue_router_req` makes of a request whose bytes are all in the memory map (`Fragmented`), and the memory maps
for which it does so for every width and every request of a range (`enqueueRouterReq_fragments`): `get_entry` looks up
the first address of a flit only, and adds the size of an entry in 64 bits.
-/

namespace GvsocPulp.FloonocV2

open List Nat

variable {rounds size : Nat} {entries : List EntryV2}

def EntryV2.Has (entry : EntryV2) (a : Nat) : Prop := entry.base ≤ a ∧ a < entry.base + entry.size

instance (entry : EntryV2) (a : Nat) : Decidable (entry.Has a) := inferInstanceAs (Decidable (_ ∧ _))

def nodeOf (entries : List EntryV2) (a : Nat) : Option Int := (entries.find? fun entry => entry.Has a).map (·.nodeId)

/-- The flits partition the addresses in increasing order. -/
def Pieces : (base left : Nat) → List Flit → Prop
  | _, left, [] => left = 0
  | base, left, flit :: flits =>
    flit.initiatorAddr = base ∧ 0 < flit.size ∧ flit.size ≤ left ∧ Pieces (base + flit.size) (left - flit.size) flits

/-- Whole packets to one destination each, where a packet to this destination may have begun before. -/
def Framed : Option Int → List Flit → Prop
  | begun, [] => begun = none
  | begun, flit :: flits =>
    flit.isFirst = begun.isNone ∧ (∀ dest ∈ begun, flit.destId = dest) ∧
      Framed (if flit.isLast then none else some flit.destId) flits

structure FlitOk (entries : List EntryV2) (req : IoReq) (isAddress : Bool) (width : Nat) (flit : Flit) : Prop where
  size_le : isAddress = false → flit.size ≤ width
  data : flit.data = if isAddress then none else req.data.map (· + (flit.initiatorAddr - req.addr))
  entry : ∃ entry ∈ entries, entry.base ≤ flit.initiatorAddr ∧ flit.initiatorAddr + flit.size ≤
    entry.base + entry.size ∧ flit.destId = entry.nodeId ∧
    flit.addr = (flit.initiatorAddr + addrSpace - entry.removeOffset) % addrSpace
  node : ∀ a, flit.initiatorAddr ≤ a → a < flit.initiatorAddr + flit.size → nodeOf entries a = some flit.destId

structure Fragmented (entries : List EntryV2) (req : IoReq) (isAddress : Bool) (width : Nat)
    (flits : List Flit) : Prop where
  pieces : Pieces req.addr req.size flits
  flit : ∀ flit ∈ flits, FlitOk entries req isAddress width flit
  framed : req.burstId < 0 → Framed none flits

/-- Between these addresses, `get_entry` finds an entry to the node of the first one that has the address, the bytes up
to the end of that entry have the same node, and the byte after its end has another. -/
structure Plain (entries : List EntryV2) (lo hi : Nat) : Prop where
  found : ∀ a, lo ≤ a → a < hi → (getEntry entries a).map (·.nodeId) = nodeOf entries a
  kept : ∀ s a entry, lo ≤ s → s ≤ a → a < hi → getEntry entries s = some entry → a < entry.stop →
    nodeOf entries a = some entry.nodeId
  left : ∀ s entry, lo ≤ s → getEntry entries s = some entry → entry.stop < hi →
    nodeOf entries entry.stop ≠ some entry.nodeId

namespace NetworkInterfaceV2

section Loop

variable {cfg : NiConfig} {req : IoReq} {isAddress wide : Bool} {width lo hi base left : Nat} {data : Option Nat}
  {prevDest : Option Int} {entry : EntryV2}

def flitSize (isAddress : Bool) (width : Nat) (entry : EntryV2) (base left : Nat) : Nat :=
  min (entry.stop - base) (if isAddress then left else min width left)

theorem requestFlits_some (hleft : left ≠ 0) (h : getEntry cfg.entries base = some entry) :
    (requestFlits cfg req isAddress wide width (rounds + 1) base left data prevDest).1 =
      requestFlit cfg req isAddress wide entry base (flitSize isAddress width entry base left) left data prevDest ::
        (requestFlits cfg req isAddress wide width rounds (base + flitSize isAddress width entry base left)
          (left - flitSize isAddress width entry base left) (data.map (· + flitSize isAddress width entry base left))
          (some entry.nodeId)).1 := by
  rw [requestFlits, if_neg hleft, h]
  rfl

theorem requestFlits_none (hleft : left ≠ 0) (h : getEntry cfg.entries base = none) :
    (requestFlits cfg req isAddress wide width (rounds + 1) base left data prevDest).1 = [] := by
  rw [requestFlits, if_neg hleft, h]

theorem flitSize_pos (isAddress : Bool) (hw : 0 < width) (hleft : left ≠ 0)
    (h : getEntry cfg.entries base = some entry) :
    0 < flitSize isAddress width entry base left := by
  obtain ⟨-, -, hstop⟩ := getEntry_covers h
  unfold flitSize
  cases isAddress <;> simp only [Bool.false_eq_true, if_false, if_true] <;> omega

theorem flitSize_le_left (isAddress : Bool) (width : Nat) (entry : EntryV2) (base left : Nat) :
    flitSize isAddress width entry base left ≤ left := by
  unfold flitSize
  cases isAddress <;> simp only [Bool.false_eq_true, if_false, if_true] <;> omega

theorem flitSize_le_stop (isAddress : Bool) (width left : Nat) (h : getEntry cfg.entries base = some entry) :
    base + flitSize isAddress width entry base left ≤ entry.stop := by
  obtain ⟨-, -, hstop⟩ := getEntry_covers h
  have hle : flitSize isAddress width entry base left ≤ entry.stop - base := min_le_left _ _
  omega

/-- What the framing of the loop relies on at an address: a packet that has begun goes on to the same node, and a new
one starts with another node than the last. -/
def Enters (entries : List EntryV2) (base : Nat) (prevDest begun : Option Int) : Prop :=
  match begun with
  | none => nodeOf entries base ≠ prevDest
  | some dest => prevDest = some dest ∧ nodeOf entries base = some dest

theorem exists_entry (hplain : Plain cfg.entries lo hi) (hmapped : ∀ a, lo ≤ a → a < hi → nodeOf cfg.entries a ≠ none)
    (hlo : lo ≤ base) (hhi : base < hi) :
    ∃ entry, getEntry cfg.entries base = some entry ∧ nodeOf cfg.entries base = some entry.nodeId := by
  have hfound := hplain.found base hlo hhi
  cases h : getEntry cfg.entries base with
  | none =>
    rw [h] at hfound
    exact absurd hfound.symm (hmapped base hlo hhi)
  | some entry =>
    rw [h] at hfound
    exact ⟨entry, rfl, hfound.symm⟩

theorem flitOk (isAddress wide : Bool) (width : Nat) (prevDest : Option Int) (hplain : Plain cfg.entries lo hi)
    (hlo : lo ≤ base) (hhi : base + left ≤ hi)
    (hdata : data = req.data.map (· + (base - req.addr))) (h : getEntry cfg.entries base = some entry) :
    FlitOk cfg.entries req isAddress width
      (requestFlit cfg req isAddress wide entry base (flitSize isAddress width entry base left) left data
        prevDest) := by
  have hstop := flitSize_le_stop isAddress width left h
  have hleft := flitSize_le_left isAddress width entry base left
  obtain ⟨-, hbase, -⟩ := getEntry_covers h
  refine ⟨fun hdatum => ?_, ?_, ⟨entry, mem_of_find?_eq_some h, hbase, ?_, rfl, rfl⟩, fun a ha ha' => ?_⟩
  · subst hdatum
    exact (min_le_right _ _).trans (min_le_left _ _)
  · show (if isAddress then none else data) = if isAddress then none else req.data.map (· + (base - req.addr))
    rw [hdata]
  · exact hstop.trans (mod_le _ _)
  · have hlt : a < base + flitSize isAddress width entry base left := ha'
    exact hplain.kept base a entry hlo ha (by omega) h (by omega)

theorem enters_next (hplain : Plain cfg.entries lo hi) (hlo : lo ≤ base) (hhi : base + size < hi)
    (h : getEntry cfg.entries base = some entry) (hstop : base + size ≤ entry.stop) :
    Enters cfg.entries (base + size) (some entry.nodeId)
      (if entry.stop ≤ base + size then none else some entry.nodeId) := by
  split_ifs with hend
  · have heq : entry.stop = base + size := hend.antisymm hstop
    have hleft := hplain.left base entry hlo h (heq ▸ hhi)
    rwa [heq] at hleft
  · exact ⟨rfl, hplain.kept base (base + size) entry hlo (Nat.le_add_right _ _) hhi h (not_le.1 hend)⟩

theorem requestFlit_isFirst (hid : req.burstId < 0) :
    (requestFlit cfg req isAddress wide entry base size left data prevDest).isFirst = decide
      (prevDest ≠ some entry.nodeId) :=
  if_neg fun hwr => Int.not_le_of_gt hid hwr.2

theorem requestFlit_isLast (hid : req.burstId < 0) :
    (requestFlit cfg req isAddress wide entry base size left data prevDest).isLast =
      decide (left ≤ size ∨ entry.stop ≤ base + size) :=
  if_neg fun hwr => Int.not_le_of_gt hid hwr.2

theorem framed_cons {flits : List Flit} {begun : Option Int} (hid : req.burstId < 0)
    (hnode : nodeOf cfg.entries base = some entry.nodeId) (henter : Enters cfg.entries base prevDest begun)
    (hflits : Framed (if left ≤ size ∨ entry.stop ≤ base + size then none else some entry.nodeId) flits) :
    Framed begun (requestFlit cfg req isAddress wide entry base size left data prevDest :: flits) := by
  refine ⟨?_, fun dest hdest => ?_, ?_⟩
  · rw [requestFlit_isFirst hid]
    cases begun with
    | none => exact decide_eq_true fun heq => henter (hnode.trans heq.symm)
    | some dest => exact decide_eq_false fun hne => hne (henter.1.trans (henter.2.symm.trans hnode))
  · obtain rfl : begun = some dest := hdest
    exact Option.some.inj (hnode.symm.trans henter.2)
  · rw [requestFlit_isLast hid]
    simp only [decide_eq_true_iff]
    exact hflits

theorem requestFlits_fragments (hplain : Plain cfg.entries lo hi)
    (hmapped : ∀ a, lo ≤ a → a < hi → nodeOf cfg.entries a ≠ none)
    (isAddress wide : Bool) (hw : 0 < width) (rounds : Nat) :
      ∀ (base left : Nat) (data : Option Nat) (prevDest : Option Int), left ≤ rounds → lo ≤ base →
      base + left ≤ hi → req.addr ≤ base → data = req.data.map (· + (base - req.addr)) →
      Pieces base left (requestFlits cfg req isAddress wide width rounds base left data prevDest).1 ∧
      (∀ flit ∈ (requestFlits cfg req isAddress wide width rounds base left data prevDest).1,
        FlitOk cfg.entries req isAddress width flit) ∧
      (req.burstId < 0 → ∀ begun, (left = 0 → begun = none) → (left ≠ 0 → Enters cfg.entries base prevDest begun) →
        Framed begun (requestFlits cfg req isAddress wide width rounds base left data prevDest).1) := by
  induction rounds with
  | zero =>
    intro base left data prevDest hrounds _ _ _ _
    obtain rfl : left = 0 := by omega
    rw [requestFlits]
    exact ⟨rfl, forall_mem_nil _, fun _ _ hend _ => hend rfl⟩
  | succ rounds ih =>
    intro base left data prevDest hrounds hlo hhi haddr hdata
    by_cases hleft : left = 0
    · subst hleft
      rw [requestFlits, if_pos rfl]
      exact ⟨rfl, forall_mem_nil _, fun _ _ hend _ => hend rfl⟩
    · obtain ⟨entry, h, hnode⟩ := exists_entry hplain hmapped hlo (show base < hi by omega)
      have hflit := flitOk isAddress wide width prevDest hplain hlo hhi hdata h
      have hpos := flitSize_pos isAddress hw hleft h
      have hle := flitSize_le_left isAddress width entry base left
      have hstop := flitSize_le_stop isAddress width left h
      rw [requestFlits_some hleft h]
      generalize flitSize isAddress width entry base left = size at hflit hpos hle hstop ⊢
      have hnext : data.map (· + size) = req.data.map (· + (base + size - req.addr)) := by
        rw [hdata, Option.map_map]
        congr 1
        funext d
        show d + (base - req.addr) + size = d + (base + size - req.addr)
        omega
      obtain ⟨hpieces, hflits, hframed⟩ := ih (base + size) (left - size) (data.map (· + size))
        (some entry.nodeId) (by omega)
        (by omega) (by omega) (by omega) hnext
      refine ⟨⟨rfl, hpos, hle, hpieces⟩, forall_mem_cons.2 ⟨hflit, hflits⟩, fun hid begun _ henter => ?_⟩
      refine framed_cons hid hnode (henter hleft) (hframed hid _ (fun hend => ?_) fun hmore => ?_)
      · rw [if_pos (.inl (by omega))]
      · have hnot : ¬ left ≤ size := fun hle => hmore (by omega)
        simp only [hnot, false_or]
        exact enters_next hplain hlo (by omega) h hstop

end Loop

/-! ## The memory maps -/

theorem enqueueRouterReq_inputs (cfg : NiConfig) (s : NetworkInterfaceV2) (nw : Nw) (req : IoReq)
    (isAddress wide : Bool)
    (input : Nat) : ((s.enqueueRouterReq cfg nw req isAddress wide input).queue nw).inputs input =
      (s.queue nw).inputs input ++
      (requestFlits cfg req isAddress wide (cfg.width nw) req.size req.addr req.size req.data none).1 := by
  rw [enqueueRouterReq]
  simp only
  split_ifs <;> simp [setQueue, NetworkQueueV2.push, enqueueFsm, ackSilent]

/-- The data of a write without an id. -/
def probe (base size : Nat) : IoReq := { ptr := 0, opcode := .write, addr := base, size := size }

theorem probe_id (base size : Nat) : (probe base size).burstId < 0 := show (-1 : Int) < 0 by decide

section

variable {lo hi : Nat} (hall : ∀ cfg : NiConfig, cfg.entries = entries →
  ∀ (s : NetworkInterfaceV2) (nw : Nw) (req : IoReq)
  (isAddress wide : Bool) (input : Nat), lo ≤ req.addr → req.addr + req.size ≤ hi →
    ∃ flits, ((s.enqueueRouterReq cfg nw req isAddress wide input).queue nw).inputs input =
      (s.queue nw).inputs input ++ flits ∧ Fragmented entries req isAddress (cfg.width nw) flits)
include hall

theorem probe_flits {base : Nat} (hpos : 0 < size) (hlo : lo ≤ base) (hhi : base + size ≤ hi) : ∃ cfg : NiConfig,
    cfg.entries = entries ∧
      Fragmented entries (probe base size) false size
        (requestFlits cfg (probe base size) false true size size base size none none).1 := by
  let cfg : NiConfig := ⟨0, entries, 1, 1, size, fun _ => true, one_pos, hpos⟩
  obtain ⟨flits, heq, hfrag⟩ := hall cfg rfl {} .wide (probe base size) false true 0 hlo hhi
  rw [enqueueRouterReq_inputs, append_cancel_left_eq] at heq
  subst heq
  exact ⟨cfg, rfl, hfrag⟩

theorem plain_of_fragments : Plain entries lo hi := by
  have hfound : ∀ a, lo ≤ a → a < hi → (getEntry entries a).map (·.nodeId) = nodeOf entries a := by
    intro a hlo hhi
    obtain ⟨cfg, rfl, hfrag⟩ := probe_flits hall Nat.one_pos hlo hhi
    cases h : getEntry cfg.entries a with
    | none =>
      rw [requestFlits_none (by decide) h] at hfrag
      exact absurd hfrag.pieces Nat.one_ne_zero
    | some entry =>
      rw [requestFlits_some (by decide) h] at hfrag
      have hpos : 0 < flitSize false 1 entry a 1 := flitSize_pos false Nat.one_pos Nat.one_ne_zero h
      exact ((hfrag.flit _ mem_cons_self).node a (Nat.le_refl _) (Nat.lt_add_of_pos_right hpos)).symm
  refine ⟨hfound, fun s a entry hlo hle hhi h hstop => ?_, fun s entry hlo h hstop => ?_⟩
  · have hsize : a + 1 - s = (a - s) + 1 := by omega
    obtain ⟨cfg, rfl, hfrag⟩ := probe_flits hall (succ_pos (a - s)) hlo (show s + (a - s + 1) ≤ hi by omega)
    rw [requestFlits_some (succ_ne_zero _) h] at hfrag
    refine (hfrag.flit _ mem_cons_self).node a hle ?_
    show a < s + min (entry.stop - s) (min (a - s + 1) (a - s + 1))
    omega
  · obtain ⟨-, -, hbase⟩ := getEntry_covers h
    have hmid := hfound entry.stop (hlo.trans hbase.le) hstop
    obtain ⟨k, hk⟩ : ∃ k, entry.stop = s + (k + 1) := ⟨entry.stop - s - 1, by omega⟩
    -- the flit up to the end of the entry, and the byte after it
    obtain ⟨cfg, rfl, hfrag⟩ := probe_flits hall (succ_pos (k + 1)) hlo (show s + (k + 2) ≤ hi by omega)
    have hsize : flitSize false (k + 2) entry s (k + 2) = k + 1 := by
      show min (entry.stop - s) (min (k + 2) (k + 2)) = k + 1
      omega
    have hone : k + 2 - (k + 1) = 1 := by omega
    rw [requestFlits_some (succ_ne_zero _) h, hsize, hone, ← hk] at hfrag
    obtain ⟨-, -, hrest⟩ := hfrag.framed (probe_id ..)
    rw [requestFlit_isLast (probe_id ..), if_pos (decide_eq_true (.inr hk.le))] at hrest
    cases hnext : getEntry cfg.entries entry.stop with
    | none =>
      rw [hnext] at hmid
      rw [← hmid]
      exact nofun
    | some entry' =>
      rw [hnext] at hmid
      rw [requestFlits_some one_ne_zero hnext] at hrest
      have hfirst : decide (some entry.nodeId ≠ some entry'.nodeId) = true := by
        have hopen := hrest.1
        rwa [requestFlit_isFirst (probe_id ..)] at hopen
      rw [← hmid]
      exact fun heq => of_decide_eq_true hfirst heq.symm

end

/-- **Exactly these memory maps.** Every request of the range is fragmented at every width, in both phases, iff the
entries of the range do not overlap, wrap or touch in a way that `get_entry` does not see. -/
theorem enqueueRouterReq_fragments (entries : List EntryV2) (lo hi : Nat)
    (hmapped : ∀ a, lo ≤ a → a < hi → nodeOf entries a ≠ none) :
    (∀ cfg : NiConfig, cfg.entries = entries →
      ∀ (s : NetworkInterfaceV2) (nw : Nw) (req : IoReq) (isAddress wide : Bool)
      (input : Nat), lo ≤ req.addr → req.addr + req.size ≤ hi →
        ∃ flits, ((s.enqueueRouterReq cfg nw req isAddress wide input).queue nw).inputs input =
          (s.queue nw).inputs input ++ flits ∧ Fragmented entries req isAddress (cfg.width nw) flits) ↔
      Plain entries lo hi := by
  refine ⟨plain_of_fragments, fun hplain cfg hcfg s nw req isAddress wide input hlo hhi => ?_⟩
  subst hcfg
  refine ⟨_, enqueueRouterReq_inputs cfg s nw req isAddress wide input, ?_⟩
  have hdata : req.data = req.data.map (· + (req.addr - req.addr)) := by
    rw [tsub_self]
    exact Option.map_id_fun.symm ▸ rfl
  obtain ⟨hpieces, hflits, hframed⟩ := requestFlits_fragments hplain hmapped isAddress wide
    (cfg.width_pos nw) req.size req.addr req.size req.data none le_rfl hlo hhi le_rfl hdata
  refine ⟨hpieces, hflits, fun hid => hframed hid none (fun _ => rfl) fun hne => ?_⟩
  exact hmapped req.addr hlo (by omega)

/-- Two entries to two nodes. -/
theorem enqueueRouterReq_fragments_pair :
    let entries : List EntryV2 := [⟨0, 2, 5, 0⟩, ⟨2, 2, 6, 2⟩]
    ∀ cfg : NiConfig, cfg.entries = entries → ∀ (s : NetworkInterfaceV2) (nw : Nw) (req : IoReq) (isAddress wide : Bool)
      (input : Nat), 0 ≤ req.addr → req.addr + req.size ≤ 4 →
        ∃ flits, ((s.enqueueRouterReq cfg nw req isAddress wide input).queue nw).inputs input =
          (s.queue nw).inputs input ++ flits ∧ Fragmented entries req isAddress (cfg.width nw) flits := by
  refine (enqueueRouterReq_fragments [⟨0, 2, 5, 0⟩, ⟨2, 2, 6, 2⟩] 0 4 fun a _ ha => ?_).2 ⟨fun a _ ha => ?_,
    fun s a entry _ hsa ha h hstop => ?_, fun s entry _ h hstop => ?_⟩
  · revert a
    decide
  · revert a
    decide
  · have hs : s < 4 := by omega
    interval_cases s <;> cases h <;> interval_cases a <;> first | rfl | exact absurd hstop (by decide)
  · obtain ⟨-, -, hlt⟩ := getEntry_covers h
    have hs : s < 4 := by omega
    interval_cases s <;> cases h <;> decide

/-- The data of a write in these entries is fragmented, at 8 bytes a flit. -/
def FragmentsWrite (entries : List EntryV2) (addr size : Nat) : Prop :=
  ∃ flits,
    (((({} : NetworkInterfaceV2).enqueueRouterReq ⟨0, entries, 1, 8, 8, fun _ => true, by decide, by decide⟩ .wide
    (probe addr size) false true 0).queue .wide).inputs 0) = flits ∧ Fragmented entries (probe addr size) false 8 flits

theorem not_fragmentsWrite :
    -- an entry up to the end of the address space is not found
    ((∀ a, addrSpace - 2 ≤ a → a < addrSpace → nodeOf [⟨addrSpace - 2, 2, 5, 0⟩] a ≠ none) ∧
      ¬ FragmentsWrite [⟨addrSpace - 2, 2, 5, 0⟩] (addrSpace - 2) 2) ∧
    -- an entry that begins inside a flit does not get its bytes
    ((∀ a, a < 4 → nodeOf [⟨2, 2, 6, 0⟩, ⟨0, 8, 5, 0⟩] a ≠ none) ∧ ¬ FragmentsWrite [⟨2, 2, 6, 0⟩, ⟨0, 8, 5, 0⟩] 0 4) ∧
    -- the second of two entries to one node begins no packet
    ((∀ a, a < 4 → nodeOf [⟨0, 2, 5, 0⟩, ⟨2, 2, 5, 2⟩] a ≠ none) ∧
      ¬ FragmentsWrite [⟨0, 2, 5, 0⟩, ⟨2, 2, 5, 2⟩] 0 4) := by
  refine ⟨⟨fun a ha ha' => ?_, ?_⟩, ⟨fun a ha => ?_, ?_⟩, ⟨fun a ha => ?_, ?_⟩⟩
  · interval_cases a <;> decide
  · rintro ⟨flits, rfl, hfrag⟩
    have hpieces : 2 = 0 := hfrag.pieces
    exact absurd hpieces (by decide)
  · revert a
    decide
  · rintro ⟨flits, rfl, hfrag⟩
    exact absurd ((hfrag.flit _ mem_cons_self).node 2 (by decide) (by decide)) (by decide)
  · revert a
    decide
  · rintro ⟨flits, rfl, hfrag⟩
    exact absurd (hfrag.framed (by decide)).2.2.1 (by decide)

end NetworkInterfaceV2

end GvsocPulp.FloonocV2
