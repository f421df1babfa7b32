import GvsocPulp.IdmaV2.Frontend
import GvsocPulp.Lib.Numbered

/-!
# The launches of a front-end

`IDma.Inv`: what holds in every run, whatever is launched and in whatever order the back-end completes. A launch counts
as completed iff it is done (`Inv.completed_iff`), once; the middle-end is full while a launch waits for it.
-/

namespace GvsocPulp.IdmaV2

open Lib List Option Feeder

def moving (launches : List Launch) : List (Nat × IdmaTransfer) :=
  numbered (fun l : Launch => if l.transfer.isEmpty then none else some l.transfer) launches

theorem moving_concat (launches : List Launch) (l : Launch) :
    moving (launches ++ [l]) = moving launches ++ if l.transfer.isEmpty then []
      else [(launches.length, l.transfer)] := by
  rw [moving, numbered_concat, moving]
  cases l.transfer.isEmpty <;> rfl

namespace IDma

variable {fe : Frontend} (transferQueueSize : Nat) (s : IDma fe)

def transferOf (n : Nat) : Option IdmaTransfer := s.launches[n]?.map (·.transfer)

/-- The launch that waits for the middle-end. -/
def waiting : List (Nat × IdmaTransfer) := if s.doTransferGrant then s.stalledTransfer.toList else []

/-- The launch moves no data, or all its lines have gone to the back-end and are acknowledged. -/
def Done (n : Nat) : Prop :=
  ∃ t, s.transferOf n = some t ∧
    (t.isEmpty = true ∨ (n, t) ∈ s.me.entered ∧ s.me.given n = t.lines ∧ n ∉ s.me.flight)

/-- The identifiers and the counters of the front-end. -/
structure Counted : Prop where
  ids : ∀ n l, s.launches[n]? = some l → l.id = (fe.firstId + n) % 2 ^ fe.idWidth
  nextTransferId : s.nextTransferId = (fe.firstId + s.launches.length) % 2 ^ fe.idWidth
  completedId : s.completedId = (fe.firstId - 1 + s.completed.length) % 2 ^ fe.idWidth

structure Inv (gone : List (Nat × IdmaTransfer)) : Prop where
  ok : Feeder.Ok me2d s.me gone
  fits : s.me.queue.length ≤ transferQueueSize
  entered : ∀ p ∈ s.me.entered, s.transferOf p.1 = some p.2 ∧ p.2.isEmpty = false
  waiting : ∀ p ∈ s.waiting, s.transferOf p.1 = some p.2 ∧ p.2.isEmpty = false ∧ p.1 ∉ s.me.entered.map (·.1)
  stalled : s.doTransferGrant = true → if fe.scheme = .deny then s.held.isSome else s.stalledTransfer.isSome
  denied : fe.scheme = .deny → s.stalledTransfer = none
  counted : s.Counted
  completed : ∀ n, n ∈ s.completed ↔ n ∈ s.me.acked ∨ ∃ t, s.transferOf n = some t ∧ t.isEmpty = true
  once : s.completed.Nodup

/-- A launch waits only while the middle-end is full. -/
def Room : Prop := s.doTransferGrant = true → transferQueueSize ≤ s.me.queue.length

variable {transferQueueSize s} {gone : List (Nat × IdmaTransfer)} {n : Nat} {t : IdmaTransfer} {args : fe.Args}

@[simp] theorem transferOf_length : s.transferOf s.launches.length = none := by
  rw [transferOf, getElem?_eq_none le_rfl, map_none]

theorem lt_of_transferOf (h : s.transferOf n = some t) : n < s.launches.length := by
  obtain ⟨l, hl, _⟩ := map_eq_some_iff.1 h
  exact (List.getElem?_eq_some_iff.1 hl).1

theorem transferOf_allocate (n : Nat) :
    (s.allocate t).transferOf n = if n = s.launches.length then some t else s.transferOf n := by
  show (s.launches ++ [_])[n]?.map (·.transfer) = _
  rw [getElem?_concat]
  split <;> rfl

theorem transferOf_allocate_of_some {u : IdmaTransfer} (h : s.transferOf n = some u) :
    (s.allocate t).transferOf n = some u := by
  rw [transferOf_allocate, if_neg (lt_of_transferOf h).ne, h]

/-! ## What is completed is done -/

namespace Inv

section

variable (h : Inv transferQueueSize s gone)
include h

theorem complete_iff (n : Nat) :
    s.me.Complete me2d n ↔ ∃ t, (n, t) ∈ s.me.entered ∧ s.me.given n = t.lines ∧ n ∉ s.me.flight := by
  refine exists_congr fun t => and_congr_right fun hmem => and_congr_left fun _ => ?_
  have hcuts := cutsInto_lines (h.entered _ hmem).2
  exact ⟨fun h' => h'.unique hcuts, fun heq => heq ▸ hcuts⟩

/-- **`completed_id` has been incremented for a launch iff the launch is done.** -/
theorem completed_iff (n : Nat) : n ∈ s.completed ↔ s.Done n := by
  rw [h.completed n, h.ok.acked_iff, h.complete_iff]
  constructor
  · rintro (⟨t, hmem, hlines⟩ | ⟨t, ht, hempty⟩)
    · exact ⟨t, (h.entered _ hmem).1, .inr ⟨hmem, hlines⟩⟩
    · exact ⟨t, ht, .inl hempty⟩
  · rintro ⟨t, ht, hempty | hdone⟩
    · exact .inr ⟨t, ht, hempty⟩
    · exact .inl ⟨t, hdone⟩

theorem lt_of_completed (hn : n ∈ s.completed) : n < s.launches.length := by
  obtain ⟨t, ht, _⟩ := (h.completed_iff n).1 hn
  exact lt_of_transferOf ht

theorem length_not_mem : s.launches.length ∉ s.me.entered.map (·.1) := fun hmem => by
  obtain ⟨p, hp, heq⟩ := List.mem_map.1 hmem
  exact absurd (lt_of_transferOf (h.entered p hp).1) (by omega)

end

/-! ## The operations -/

theorem initial : Inv transferQueueSize ({} : IDma fe) [] where
  ok := .initial
  fits := Nat.zero_le _
  entered := nofun
  waiting := nofun
  stalled := nofun
  denied _ := rfl
  counted := {
    ids := nofun
    nextTransferId := (Nat.mod_eq_of_lt fe.firstId_lt).symm
    completedId := (Nat.mod_eq_of_lt ((Nat.sub_le ..).trans_lt fe.firstId_lt)).symm }
  completed _ := ⟨nofun, by rintro (h | ⟨t, h, _⟩) <;> cases h⟩
  once := nodup_nil

end Inv

theorem Counted.allocate (h : s.Counted) : (s.allocate t).Counted where
  ids n l hl := by
    change (s.launches ++ [_])[n]? = some l at hl
    rw [getElem?_concat] at hl
    split_ifs at hl with hn
    · cases hl
      rw [hn]
      exact h.nextTransferId
    · exact h.ids n l hl
  nextTransferId := by
    show (s.nextTransferId + 1) % 2 ^ fe.idWidth = (fe.firstId + (s.launches ++ [_]).length) % 2 ^ fe.idWidth
    rw [h.nextTransferId, Nat.mod_add_mod, length_append, length_singleton, add_assoc]
  completedId := h.completedId

theorem Counted.ackTransfer (h : s.Counted) : (s.ackTransfer n).Counted where
  ids := h.ids
  nextTransferId := h.nextTransferId
  completedId := by
    show (s.completedId + 1) % 2 ^ fe.idWidth = (fe.firstId - 1 + (s.completed ++ [n]).length) % 2 ^ fe.idWidth
    rw [h.completedId, Nat.mod_add_mod, length_append, length_singleton, add_assoc]

namespace Inv

variable (h : Inv transferQueueSize s gone)
include h

theorem allocate (ht : t.isEmpty = false) : Inv transferQueueSize (s.allocate t) gone where
  ok := h.ok
  fits := h.fits
  entered p hp := ⟨transferOf_allocate_of_some (h.entered p hp).1, (h.entered p hp).2⟩
  waiting p hp := ⟨transferOf_allocate_of_some (h.waiting p hp).1, (h.waiting p hp).2⟩
  stalled := h.stalled
  denied := h.denied
  counted := h.counted.allocate
  completed n := by
    rw [transferOf_allocate]
    split
    case isTrue heq =>
      refine (h.completed n).trans (or_congr_right ?_)
      rw [heq, transferOf_length]
      constructor
      · rintro ⟨u, hu, _⟩
        cases hu
      · rintro ⟨u, hu, hempty⟩
        cases hu
        rw [ht] at hempty
        cases hempty
    case isFalse => exact h.completed n
  once := h.once

theorem complete_empty (ht : t.isEmpty = true) :
    Inv transferQueueSize ((s.allocate t).ackTransfer s.launches.length) gone where
  ok := h.ok
  fits := h.fits
  entered p hp := ⟨transferOf_allocate_of_some (h.entered p hp).1, (h.entered p hp).2⟩
  waiting p hp := ⟨transferOf_allocate_of_some (h.waiting p hp).1, (h.waiting p hp).2⟩
  stalled := h.stalled
  denied := h.denied
  counted := h.counted.allocate.ackTransfer
  completed n := by
    show n ∈ s.completed ++ [s.launches.length] ↔ n ∈ s.me.acked ∨ ∃ u, (s.allocate t).transferOf n = some u ∧
      u.isEmpty = true
    rw [transferOf_allocate, mem_append, mem_singleton]
    split
    case isTrue heq => exact iff_of_true (.inr heq) (.inr ⟨t, rfl, ht⟩)
    case isFalse hne => rw [or_iff_left hne, h.completed n]
  once := by
    show (s.completed ++ [s.launches.length]).Nodup
    rw [← concat_eq_append]
    exact h.once.concat fun hmem => absurd (h.lt_of_completed hmem) (lt_irrefl _)

theorem enqueueTransfer (hroom : s.me.queue.length < transferQueueSize)
    (ht : s.transferOf n = some t) (hempty : t.isEmpty = false) (hn : n ∉ s.me.entered.map (·.1))
    (hwaiting : ∀ p ∈ s.waiting, p.1 ≠ n) : Inv transferQueueSize (s.enqueueTransfer n t) gone where
  ok := h.ok.enqueue hn
  fits := by
    show (s.me.queue ++ [(n, t)]).length ≤ transferQueueSize
    rw [length_append]
    exact hroom
  entered p hp := by
    rcases mem_append.1 hp with hp | hp
    · exact h.entered p hp
    · obtain rfl := mem_singleton.1 hp
      exact ⟨ht, hempty⟩
  waiting p hp := by
    obtain ⟨htransfer, hp', hnot⟩ := h.waiting p hp
    refine ⟨htransfer, hp', ?_⟩
    show p.1 ∉ (s.me.entered ++ [(n, t)]).map (·.1)
    rw [map_append, mem_append, map_singleton, mem_singleton, not_or]
    exact ⟨hnot, hwaiting p hp⟩
  stalled := h.stalled
  denied := h.denied
  counted := { h.counted with }
  completed := h.completed
  once := h.once

theorem stall (hscheme : fe.scheme ≠ .deny) (ht : s.transferOf n = some t)
    (hempty : t.isEmpty = false) (hn : n ∉ s.me.entered.map (·.1)) :
    Inv transferQueueSize { s with stalledTransfer := some (n, t), doTransferGrant := true } gone :=
  { h with
    waiting := fun p hp => by
      obtain rfl := mem_singleton.1 hp
      exact ⟨ht, hempty, hn⟩
    stalled := fun _ => by
      rw [if_neg hscheme]
      rfl
    denied := fun hdeny => absurd hdeny hscheme
    counted := { h.counted with } }

theorem deny (hscheme : fe.scheme = .deny) :
    Inv transferQueueSize { s with doTransferGrant := true, held := some args } gone :=
  { h with
    waiting := fun p hp => by
      change p ∈ s.stalledTransfer.toList at hp
      rw [h.denied hscheme] at hp
      cases hp
    stalled := fun _ => by
      rw [if_pos hscheme]
      rfl
    counted := { h.counted with } }

theorem ungrant (held : Option fe.Args) :
    Inv transferQueueSize { s with doTransferGrant := false, held := held } gone :=
  { h with
    waiting := nofun
    stalled := nofun
    counted := { h.counted with } }

end Inv

/-! ## What a launch and an update do -/

theorem canAcceptTransfer_iff : s.me.canAcceptTransfer transferQueueSize = true ↔
    s.me.queue.length < transferQueueSize := by
  rw [IDmaMe2D.canAcceptTransfer, decide_eq_true_eq]

variable (transferQueueSize s) in
theorem launch_cases (args : fe.Args) :
    (fe.scheme = .deny ∧ (fe.transfer s.regs args).isEmpty = false ∧ transferQueueSize ≤ s.me.queue.length ∧
      s.launch transferQueueSize args = { s with doTransferGrant := true, held := some args }) ∨
    ((fe.transfer s.regs args).isEmpty = true ∧
      s.launch transferQueueSize args = (s.allocate (fe.transfer s.regs args)).ackTransfer s.launches.length) ∨
    ((fe.transfer s.regs args).isEmpty = false ∧ s.me.queue.length < transferQueueSize ∧
      s.launch transferQueueSize args =
        (s.allocate (fe.transfer s.regs args)).enqueueTransfer s.launches.length (fe.transfer s.regs args)) ∨
    (fe.scheme ≠ .deny ∧ (fe.transfer s.regs args).isEmpty = false ∧ transferQueueSize ≤ s.me.queue.length ∧
      s.launch transferQueueSize args = { s.allocate (fe.transfer s.regs args) with
        stalledTransfer := some (s.launches.length, fe.transfer s.regs args), doTransferGrant := true }) := by
  have hme : (s.allocate (fe.transfer s.regs args)).me = s.me := rfl
  rw [launch, enqueueCopy, fe.zeroSize_eq]
  simp only [hme, canAcceptTransfer_iff, not_lt, Bool.not_eq_true]
  by_cases hdeny : fe.scheme = .deny
  · cases hempty : (fe.transfer s.regs args).isEmpty with
    | true => simp [hdeny]
    | false =>
      rcases lt_or_ge s.me.queue.length transferQueueSize with hroom | hroom
      · simp [hdeny, hroom, not_le.2 hroom]
      · simp [hdeny, hroom]
  · cases hempty : (fe.transfer s.regs args).isEmpty with
    | true => simp [hdeny]
    | false =>
      rcases lt_or_ge s.me.queue.length transferQueueSize with hroom | hroom
      · simp [hdeny, hroom]
      · simp [hdeny, hroom, not_lt.2 hroom]

/-- An update does nothing, launches again what has been denied, or hands what has been kept to the middle-end. -/
theorem Inv.update_cases (h : Inv transferQueueSize s gone) :
    (s.Room transferQueueSize ∧ s.update transferQueueSize = s) ∨
    (fe.scheme = .deny ∧ s.doTransferGrant = true ∧ s.me.queue.length < transferQueueSize ∧ ∃ args, s.held = some args ∧
      s.update transferQueueSize = { s with doTransferGrant := false, held := none }.launch transferQueueSize args) ∨
    (fe.scheme ≠ .deny ∧ s.doTransferGrant = true ∧ s.me.queue.length < transferQueueSize ∧ ∃ n t,
      s.stalledTransfer = some (n, t) ∧ s.update transferQueueSize =
      { s with doTransferGrant := false }.enqueueTransfer n t) := by
  simp only [update, canAcceptTransfer_iff]
  split
  case isFalse hno =>
    refine .inl ⟨fun hgrant => ?_, rfl⟩
    exact not_lt.1 fun hlt => hno ⟨hgrant, hlt⟩
  case isTrue hyes =>
    have hstalled := h.stalled hyes.1
    by_cases hdeny : fe.scheme = .deny
    · rw [if_pos hdeny] at hstalled
      obtain ⟨args, hheld⟩ := isSome_iff_exists.1 hstalled
      refine .inr (.inl ⟨hdeny, hyes.1, hyes.2, args, hheld, ?_⟩)
      simp only [hdeny, hheld]
    · rw [if_neg hdeny] at hstalled
      obtain ⟨⟨n, t⟩, hkept⟩ := isSome_iff_exists.1 hstalled
      refine .inr (.inr ⟨hdeny, hyes.1, hyes.2, n, t, hkept, ?_⟩)
      simp only [hkept]
      cases hscheme : fe.scheme with
      | deny => exact absurd hscheme hdeny
      | grant => rfl
      | keep => rfl

namespace Inv

variable (h : Inv transferQueueSize s gone)
include h

theorem launch (args : fe.Args) : Inv transferQueueSize (s.launch transferQueueSize args) gone := by
  have hid : (s.allocate (fe.transfer s.regs args)).transferOf s.launches.length = some (fe.transfer s.regs args) := by
    rw [transferOf_allocate, if_pos rfl]
  rcases launch_cases transferQueueSize s args with ⟨hdeny, -, -, heq⟩ | ⟨hempty, heq⟩ | ⟨hempty, hroom,
    heq⟩ | ⟨hscheme, hempty, -, heq⟩
  · rw [heq]
    exact h.deny hdeny
  · rw [heq]
    exact h.complete_empty hempty
  · rw [heq]
    refine (h.allocate hempty).enqueueTransfer hroom hid hempty h.length_not_mem fun p hp => ?_
    exact (lt_of_transferOf (h.waiting p hp).1).ne
  · rw [heq]
    exact (h.allocate hempty).stall hscheme hid hempty h.length_not_mem

theorem update : Inv transferQueueSize (s.update transferQueueSize) gone := by
  rcases h.update_cases with ⟨-, heq⟩ | ⟨-, -, -, args, -, heq⟩ | ⟨-, hgrant, hroom, n, t, hkept, heq⟩
  · rwa [heq]
  · rw [heq]
    exact (h.ungrant none).launch args
  · rw [heq]
    have hwaiting : (n, t) ∈ s.waiting := by
      rw [IDma.waiting, if_pos hgrant, hkept]
      exact mem_singleton_self _
    obtain ⟨ht, hempty, hn⟩ := h.waiting _ hwaiting
    exact (h.ungrant s.held).enqueueTransfer hroom ht hempty hn nofun

/-! ## The middle-end -/

theorem load : Inv transferQueueSize { s with me := s.me.load me2d } gone where
  ok := h.ok.load
  fits := (s.me.load_queue me2d).symm ▸ h.fits
  entered p hp := h.entered p ((s.me.load_entered me2d) ▸ hp)
  waiting p hp := by
    rw [load_entered]
    exact h.waiting p hp
  stalled := h.stalled
  denied := h.denied
  counted := { h.counted with }
  completed n := by
    rw [load_acked]
    exact h.completed n
  once := h.once

theorem feed : ∃ away, Inv transferQueueSize { s with me := s.me.feed me2d } (gone ++ away) := by
  obtain ⟨away, hok, -⟩ := h.ok.feed
  refine ⟨away, { h with
    ok := hok
    fits := ?_
    entered := fun p hp => h.entered p ((s.me.feed_entered me2d) ▸ hp)
    waiting := fun p hp => ?_
    counted := { h.counted with }
    completed := fun n => ?_ }⟩
  · rw [feed_queue]
    split
    · rw [length_tail]
      exact (Nat.sub_le ..).trans h.fits
    · exact h.fits
  · rw [feed_entered]
    exact h.waiting p hp
  · rw [feed_acked]
    exact h.completed n

theorem fsmHandler (accepts : Bool) :
    ∃ away, Inv transferQueueSize (s.fsmHandler transferQueueSize accepts) (gone ++ away) := by
  rw [IDma.fsmHandler]
  split
  · obtain ⟨away, hfeed⟩ := h.load.feed
    refine ⟨away, ?_⟩
    split
    · exact hfeed.update
    · exact hfeed
  · exact ⟨[], by rw [append_nil]; exact h.load⟩

/-- A line is acknowledged. With the last one of its launch, the launch is completed. -/
theorem ackBurst (hn : n ∈ s.me.flight) : Inv transferQueueSize (s.ackBurst n) gone := by
  have hok := h.ok.back hn
  have hnew : n ∉ s.completed := by
    intro hmem
    rcases (h.completed n).1 hmem with hacked | ⟨t, ht, hempty⟩
    · exact ((h.ok.acked n).1 hacked).2 hn
    · obtain ⟨p, hp, rfl⟩ := List.mem_map.1 (h.ok.flight n hn)
      obtain ⟨ht', hempty'⟩ := h.entered p hp
      rw [ht] at ht'
      cases ht'
      rw [hempty] at hempty'
      cases hempty'
  rw [IDma.ackBurst]
  cases hfinishes : s.me.finishes n with
  | false =>
    exact { h with
      ok := hok
      counted := { h.counted with }
      completed := fun m => by
        show m ∈ s.completed ↔ m ∈ (if s.me.finishes n then s.me.acked ++ [n] else s.me.acked) ∨ _
        rw [hfinishes]
        exact h.completed m }
  | true =>
    refine { h with
      ok := hok
      counted := Counted.ackTransfer { h.counted with }
      completed := fun m => ?_
      once := ?_ }
    · show m ∈ s.completed ++ [n] ↔ m ∈ (if s.me.finishes n then s.me.acked ++ [n] else s.me.acked) ∨ _
      rw [hfinishes, if_pos rfl, mem_append, mem_append, h.completed m, or_right_comm]
      rfl
    · show (s.completed ++ [n]).Nodup
      rw [← concat_eq_append]
      exact h.once.concat hnew

end Inv

/-! ## Room -/

theorem Room.launch (h : s.Room transferQueueSize) (args : fe.Args) :
    (s.launch transferQueueSize args).Room transferQueueSize := by
  rcases launch_cases transferQueueSize s args with ⟨-, -, hfull, heq⟩ | ⟨-, heq⟩ | ⟨-, -, heq⟩ | ⟨-, -, hfull, heq⟩
  · rw [heq]
    exact fun _ => hfull
  · rw [heq]
    exact h
  · rw [heq]
    intro hgrant
    show transferQueueSize ≤ (s.me.queue ++ [_]).length
    rw [length_append]
    exact Nat.le_add_right_of_le (h hgrant)
  · rw [heq]
    exact fun _ => hfull

theorem Inv.room_update (h : Inv transferQueueSize s gone) : (s.update transferQueueSize).Room transferQueueSize := by
  rcases h.update_cases with ⟨hroom, heq⟩ | ⟨-, -, -, args, -, heq⟩ | ⟨-, -, -, n, t, -, heq⟩
  · rwa [heq]
  · rw [heq]
    exact Room.launch (fun hgrant => absurd hgrant Bool.false_ne_true) args
  · rw [heq]
    exact fun hgrant => absurd hgrant Bool.false_ne_true

theorem Inv.room_fsmHandler (h : Inv transferQueueSize s gone) (hroom : s.Room transferQueueSize) (accepts : Bool) :
    (s.fsmHandler transferQueueSize accepts).Room transferQueueSize := by
  rw [IDma.fsmHandler]
  split
  · obtain ⟨away, hfeed⟩ := h.load.feed
    split
    case isTrue => exact hfeed.room_update
    case isFalse hlast =>
      intro hgrant
      rw [feed_queue, if_neg hlast, load_queue]
      exact hroom hgrant
  · intro hgrant
    rw [load_queue]
    exact hroom hgrant

theorem Room.ackBurst (h : s.Room transferQueueSize) : (s.ackBurst n).Room transferQueueSize := by
  rw [IDma.ackBurst]
  split <;> exact h

theorem Inv.step {s' : IDma fe} {e : Event fe} (h : Inv transferQueueSize s gone) (hroom : s.Room transferQueueSize)
    (hs : s.step transferQueueSize e = some s') : (∃ gone', Inv transferQueueSize s' gone') ∧
      s'.Room transferQueueSize := by
  cases e with
  | access a =>
    simp only [IDma.step] at hs
    split at hs
    · cases hs
      exact ⟨⟨gone, { h with counted := { h.counted with } }⟩, hroom⟩
    · split at hs
      · cases hs
      · cases hs
        exact ⟨⟨gone, h.launch _⟩, hroom.launch _⟩
    · cases hs
      exact ⟨⟨gone, h⟩, hroom⟩
  | fsm accepts =>
    cases hs
    obtain ⟨away, h'⟩ := h.fsmHandler accepts
    exact ⟨⟨_, h'⟩, h.room_fsmHandler hroom accepts⟩
  | ack n =>
    simp only [IDma.step] at hs
    split at hs
    case isTrue hn =>
      cases hs
      exact ⟨⟨gone, h.ackBurst hn⟩, hroom.ackBurst⟩
    case isFalse => cases hs

end IDma

end GvsocPulp.IdmaV2
