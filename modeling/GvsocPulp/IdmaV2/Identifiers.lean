import GvsocPulp.IdmaV2.Launches

/-!
# The identifiers of the launches

`Exact`: each launch that moves data has gone to the middle-end once and in order, or waits for it, and `completed_id`
has come to an identifier only if its launch and all earlier ones are done. It counts completions, so this is so in all
states of a run iff the launches complete in order (`InOrder`); and the one transfer that a front-end keeps must not be
replaced by the next.
-/

namespace GvsocPulp.IdmaV2

open Lib List

namespace IDma

variable {fe : Frontend} (transferQueueSize : Nat) (s : IDma fe)

/-- Every launch is executed once, and `completed_id` is honest. -/
structure Exact : Prop where
  /-- The transfers of the middle-end are those of the launches, in the order of the identifiers. -/
  handed : s.me.entered ++ s.waiting = moving s.launches
  room : s.Room transferQueueSize
  counted : s.Counted
  once : s.completed.Nodup
  completed : ∀ n, n ∈ s.completed ↔ s.Done n
  /-- `completed_id` has come to the identifier of launch `n` with completion `n + 1`. -/
  honest : ∀ n < s.completed.length, ∀ m ≤ n, s.Done m

/-- The event launches no empty transfer before all launches are completed, replaces no transfer that is kept, and
completes the launches in order. -/
def InOrder : Event fe → Prop
  | .access a => ∀ args, fe.decode a = .launch args →
      ((fe.transfer s.regs args).isEmpty = true → s.completed.length = s.launches.length) ∧
      ((fe.transfer s.regs args).isEmpty = false → fe.scheme = .keep → s.doTransferGrant = false)
  | .fsm accepts => accepts = true → (s.me.load me2d).atLast me2d = true → fe.scheme = .deny →
      s.doTransferGrant = true → ∀ args, s.held = some args → (fe.transfer s.regs args).isEmpty = false
  | .ack n => s.me.finishes n = true → n = s.completed.length

def Ordered : Prop := ∀ m < s.completed.length, m ∈ s.completed

variable {transferQueueSize s} {s' : IDma fe} {e : Event fe} {gone : List (Nat × IdmaTransfer)} {n : Nat}
  {t : IdmaTransfer}

theorem ordered_concat {l : List Nat} (hl : ∀ m < l.length, m ∈ l) (n : Nat) :
    (∀ m < (l ++ [n]).length, m ∈ l ++ [n]) ↔ n = l.length := by
  have hsub : List.range l.length ⊆ l := fun m hm => hl m (mem_range.1 hm)
  have hperm : (List.range l.length).Perm l :=
    (subperm_of_subset nodup_range hsub).perm_of_length_le (by rw [length_range])
  have hnot : l.length ∉ l := fun hmem => absurd (mem_range.1 (hperm.mem_iff.2 hmem)) (lt_irrefl _)
  rw [length_append, length_singleton]
  constructor
  · intro h
    have hmem := h l.length (Nat.lt_succ_self _)
    rw [mem_append, mem_singleton] at hmem
    exact (hmem.resolve_left hnot).symm
  · rintro rfl m hm
    rcases Nat.lt_succ_iff_lt_or_eq.1 hm with hm | rfl
    · exact mem_append_left _ (hl m hm)
    · exact mem_append_right _ (mem_singleton_self _)

/-- With room in the queue, a state is exact iff no launch is lost and the identifiers are in order. -/
theorem Inv.exact_iff (h : Inv transferQueueSize s gone) (hroom : s.Room transferQueueSize) :
    s.Exact transferQueueSize ↔ s.me.entered ++ s.waiting = moving s.launches ∧ s.Ordered := by
  constructor
  · intro hexact
    exact ⟨hexact.handed, fun m hm => (h.completed_iff m).2 (hexact.honest m hm m le_rfl)⟩
  · rintro ⟨hhanded, hordered⟩
    exact ⟨hhanded, hroom, h.counted, h.once, h.completed_iff, fun n hn m hm =>
      (h.completed_iff m).1 (hordered m (hm.trans_lt hn))⟩

/-! ## What goes to the middle-end -/

theorem waiting_of_not_grant (h : s.doTransferGrant = false) : s.waiting = [] := by
  rw [waiting, h]
  rfl

theorem Inv.waiting_of_deny (h : Inv transferQueueSize s gone) (hdeny : fe.scheme = .deny) : s.waiting = [] := by
  rw [IDma.waiting, h.denied hdeny]
  split <;> rfl

theorem Inv.waiting_eq_nil (h : Inv transferQueueSize s gone) (hscheme : fe.scheme ≠ .deny) :
    s.waiting = [] ↔ s.doTransferGrant = false := by
  refine ⟨fun hwaiting => ?_, waiting_of_not_grant⟩
  by_contra hgrant
  rw [Bool.not_eq_false] at hgrant
  have hstalled := h.stalled hgrant
  rw [if_neg hscheme] at hstalled
  obtain ⟨p, hp⟩ := Option.isSome_iff_exists.1 hstalled
  rw [IDma.waiting, if_pos hgrant, hp] at hwaiting
  cases hwaiting

theorem moving_allocate (t : IdmaTransfer) :
    moving (s.allocate t).launches = moving s.launches ++ if t.isEmpty then [] else [(s.launches.length, t)] :=
  moving_concat s.launches _

section

variable (h : Inv transferQueueSize s gone)
include h

theorem Inv.handed_launch (hroom : s.Room transferQueueSize)
    (hhanded : s.me.entered ++ s.waiting = moving s.launches) (hwaits : s.waits = false) (args : fe.Args) :
    (s.launch transferQueueSize args).me.entered ++ (s.launch transferQueueSize args).waiting =
        moving (s.launch transferQueueSize args).launches ↔
      ((fe.transfer s.regs args).isEmpty = false → fe.scheme = .keep → s.doTransferGrant = false) := by
  rcases launch_cases transferQueueSize s args with ⟨hdeny, hempty, -, heq⟩ | ⟨hempty, heq⟩ | ⟨hempty, hfree,
    heq⟩ | ⟨hscheme, hempty, hfull, heq⟩
  · rw [heq]
    refine iff_of_true ?_ fun _ hkeep => ?_
    · have hwaiting := h.waiting_of_deny hdeny
      rw [hwaiting] at hhanded
      have hdenied : Inv transferQueueSize { s with doTransferGrant := true, held := some args } gone := h.deny hdeny
      rw [hdenied.waiting_of_deny hdeny]
      exact hhanded
    · rw [hdeny] at hkeep
      cases hkeep
  · rw [heq]
    refine iff_of_true ?_ fun hfalse => ?_
    · show s.me.entered ++ s.waiting = moving (s.allocate _).launches
      rw [moving_allocate, hempty, if_pos rfl, append_nil]
      exact hhanded
    · rw [hempty] at hfalse
      cases hfalse
  · rw [heq]
    have hgrant : s.doTransferGrant = false := by
      by_contra hgrant
      rw [Bool.not_eq_false] at hgrant
      exact absurd (hroom hgrant) (not_le.2 hfree)
    refine iff_of_true ?_ fun _ _ => hgrant
    have hwaiting := waiting_of_not_grant hgrant
    rw [hwaiting, append_nil] at hhanded
    show (s.me.entered ++ [_]) ++ s.waiting = moving (s.allocate _).launches
    rw [hwaiting, append_nil, moving_allocate, hempty, hhanded]
    rfl
  · rw [heq]
    show s.me.entered ++ [_] = moving (s.allocate _).launches ↔ _
    rw [moving_allocate, hempty, ← hhanded, if_neg Bool.false_ne_true, append_cancel_right_eq, self_eq_append_right,
      h.waiting_eq_nil hscheme]
    refine ⟨fun hgrant _ _ => hgrant, fun hkeep => ?_⟩
    by_cases hscheme' : fe.scheme = .keep
    · exact hkeep rfl hscheme'
    · by_contra hgrant
      rw [Bool.not_eq_false] at hgrant
      rw [waits, hgrant, Bool.true_and, bne_eq_false_iff_eq] at hwaits
      exact hscheme' hwaits

variable (hhanded : s.me.entered ++ s.waiting = moving s.launches)
include hhanded

theorem Inv.handed_update :
    (s.update transferQueueSize).me.entered ++ (s.update transferQueueSize).waiting = moving
      (s.update transferQueueSize).launches := by
  rcases h.update_cases with ⟨-, heq⟩ | ⟨hdeny, -, -, args, -, heq⟩ | ⟨-, hgrant, -, n, t, hkept, heq⟩
  · rwa [heq]
  · rw [heq]
    refine ((h.ungrant none).handed_launch (fun hgrant => absurd hgrant Bool.false_ne_true) ?_ rfl args).2
      fun _ hkeep => ?_
    · rwa [h.waiting_of_deny hdeny] at hhanded
    · rw [hdeny] at hkeep
  · rw [heq]
    rw [IDma.waiting, if_pos hgrant, hkept] at hhanded
    show (s.me.entered ++ [(n, t)]) ++ [] = moving s.launches
    rw [append_nil]
    exact hhanded

theorem Inv.handed_fsmHandler
    (accepts : Bool) : (s.fsmHandler transferQueueSize accepts).me.entered ++
      (s.fsmHandler transferQueueSize accepts).waiting = moving (s.fsmHandler transferQueueSize accepts).launches := by
  rw [IDma.fsmHandler]
  split
  · obtain ⟨away, hfeed⟩ := h.load.feed
    have hhanded' : ((s.me.load me2d).feed me2d).entered ++ s.waiting = moving s.launches := by
      rwa [Feeder.feed_entered, Feeder.load_entered]
    split
    · exact hfeed.handed_update hhanded'
    · exact hhanded'
  · rwa [Feeder.load_entered]

end

/-! ## In which order the launches complete -/

theorem ordered_launch (hordered : s.Ordered) (args : fe.Args) :
    (s.launch transferQueueSize args).Ordered ↔
      ((fe.transfer s.regs args).isEmpty = true → s.completed.length = s.launches.length) := by
  rcases launch_cases transferQueueSize s args with ⟨-, hempty, -, heq⟩ | ⟨hempty, heq⟩ | ⟨hempty, -, heq⟩ | ⟨-,
    hempty, -, heq⟩
  · rw [heq, hempty]
    exact iff_of_true hordered (fun h => nomatch h)
  · rw [heq, hempty]
    show (∀ m < (s.completed ++ [s.launches.length]).length, m ∈ s.completed ++ [s.launches.length]) ↔ _
    rw [ordered_concat hordered, eq_comm]
    exact ⟨fun h _ => h, fun h => h rfl⟩
  · rw [heq, hempty]
    exact iff_of_true hordered (fun h => nomatch h)
  · rw [heq, hempty]
    exact iff_of_true hordered (fun h => nomatch h)

section

variable (h : Inv transferQueueSize s gone) (hordered : s.Ordered)
include h hordered

theorem Inv.length_completed_ne (hn : n ∈ s.me.flight) :
    s.completed.length ≠ s.launches.length := by
  intro heq
  obtain ⟨p, hp, rfl⟩ := List.mem_map.1 (h.ok.flight n hn)
  obtain ⟨ht, hempty⟩ := h.entered p hp
  have hmem := hordered p.1 (heq ▸ lt_of_transferOf ht)
  rcases (h.completed p.1).1 hmem with hacked | ⟨u, hu, hempty'⟩
  · exact ((h.ok.acked p.1).1 hacked).2 hn
  · rw [ht] at hu
    cases hu
    rw [hempty] at hempty'
    cases hempty'

theorem Inv.ordered_update (hn : n ∈ s.me.flight) (hq : s.me.queue.length < transferQueueSize) :
    (s.update transferQueueSize).Ordered ↔
      (fe.scheme = .deny → s.doTransferGrant = true → ∀ args, s.held = some args →
        (fe.transfer s.regs args).isEmpty = false) := by
  rcases h.update_cases with ⟨hroom, heq⟩ | ⟨hdeny, hgrant, -, args, hheld, heq⟩ | ⟨hscheme, -, -, n, t, -, heq⟩
  · rw [heq]
    refine iff_of_true hordered fun _ hgrant => ?_
    exact absurd (hroom hgrant) (not_le.2 hq)
  · rw [heq, ordered_launch (s := { s with doTransferGrant := false, held := none }) hordered args]
    have hne := h.length_completed_ne hordered hn
    constructor
    · intro hall _ _ args' hargs'
      rw [hheld] at hargs'
      cases hargs'
      by_contra hempty
      rw [Bool.not_eq_false] at hempty
      exact hne (hall hempty)
    · intro hall hempty
      have hnonempty := hall hdeny hgrant args hheld
      rw [show (fe.transfer s.regs args).isEmpty = true from hempty] at hnonempty
      cases hnonempty
  · rw [heq]
    exact iff_of_true hordered fun hdeny => absurd hdeny hscheme

theorem Inv.ordered_fsmHandler (accepts : Bool) :
    (s.fsmHandler transferQueueSize accepts).Ordered ↔ s.InOrder (.fsm accepts) := by
  rw [IDma.fsmHandler, InOrder]
  cases accepts with
  | false => exact iff_of_true hordered (by simp)
  | true =>
    rw [if_pos rfl]
    cases hlast : (s.me.load me2d).atLast me2d with
    | false => exact iff_of_true hordered (by simp)
    | true =>
      rw [if_pos rfl]
      obtain ⟨away, hfeed⟩ := h.load.feed
      obtain ⟨n, hn⟩ := (s.me.load me2d).feed_flight_of_atLast hlast
      have hq : ((s.me.load me2d).feed me2d).queue.length < transferQueueSize := by
        have hfits := h.load.fits
        have hpos := (s.me.load me2d).queue_ne_nil_of_atLast hlast
        rw [Feeder.feed_queue, hlast, if_pos rfl, length_tail]
        have := length_pos_iff.2 hpos
        change (s.me.load me2d).queue.length ≤ _ at hfits
        omega
      rw [hfeed.ordered_update hordered hn hq]
      exact ⟨fun hall _ _ => hall, fun hall => hall rfl rfl⟩

end

theorem ordered_ackBurst (hordered : s.Ordered) : (s.ackBurst n).Ordered ↔ s.InOrder (.ack n) := by
  rw [ackBurst, InOrder]
  cases s.me.finishes n with
  | false => exact iff_of_true hordered (by simp)
  | true =>
    show (∀ m < (s.completed ++ [n]).length, m ∈ s.completed ++ [n]) ↔ _
    rw [ordered_concat hordered]
    exact ⟨fun h _ => h, fun h => h rfl⟩

/-! ## The front-ends -/

theorem Inv.exact_step (h : Inv transferQueueSize s gone) (hexact : s.Exact transferQueueSize)
    (hs : s.step transferQueueSize e = some s') : s'.Exact transferQueueSize ↔ s.InOrder e := by
  obtain ⟨⟨gone', h'⟩, hroom'⟩ := h.step hexact.room hs
  obtain ⟨hhanded, hordered⟩ := (h.exact_iff hexact.room).1 hexact
  rw [h'.exact_iff hroom']
  cases e with
  | access a =>
    simp only [IDma.step] at hs
    rw [InOrder]
    split at hs
    case h_1 f hset =>
      cases hs
      refine iff_of_true ⟨hhanded, hordered⟩ fun args hlaunch => ?_
      rw [hset] at hlaunch
      cases hlaunch
    case h_2 args hlaunch =>
      split at hs
      · cases hs
      case isFalse hwaits =>
        cases hs
        rw [h.handed_launch hexact.room hhanded (Bool.not_eq_true _ ▸ hwaits) args, ordered_launch hordered,
          hlaunch, and_comm]
        constructor
        · rintro hall args' hargs'
          cases hargs'
          exact hall
        · exact fun hall => hall args rfl
    case h_3 hnothing =>
      cases hs
      refine iff_of_true ⟨hhanded, hordered⟩ fun args hlaunch => ?_
      rw [hnothing] at hlaunch
      cases hlaunch
  | fsm accepts =>
    cases hs
    rw [h.ordered_fsmHandler hordered accepts]
    exact and_iff_right (h.handed_fsmHandler hhanded accepts)
  | ack n =>
    simp only [IDma.step] at hs
    split at hs
    case isTrue hn =>
      cases hs
      rw [ordered_ackBurst hordered, and_iff_right]
      rw [IDma.ackBurst]
      split <;> exact hhanded
    case isFalse => cases hs

/-- **Every launch of a front-end is executed once and its identifier is honest in all states of a run iff the launches
complete in order and no transfer that is kept is replaced.** -/
theorem launches_exact_iff (fe : Frontend) (transferQueueSize : Nat) (es : List (Event fe)) :
    AllStates (step transferQueueSize) (Exact transferQueueSize) {} es ↔
      AllSteps (step transferQueueSize) InOrder {} es := by
  have hinit : ({} : IDma fe).Exact transferQueueSize := by
    refine (Inv.initial.exact_iff fun hgrant => absurd hgrant Bool.false_ne_true).2 ⟨rfl, ?_⟩
    exact fun m hm => absurd hm (Nat.not_lt_zero m)
  refine allStates_iff (I := fun s : IDma fe => s.Exact transferQueueSize ∧ ∃ gone, Inv transferQueueSize s gone)
    (fun s h => h.1) ?_ ?_ ⟨hinit, [], .initial⟩
  · rintro s e s' ⟨hexact, gone, h⟩ hs
    exact h.exact_step hexact hs
  · rintro s e s' ⟨hexact, gone, h⟩ hs hexact'
    exact ⟨hexact', (h.step hexact.room hs).1⟩

/-- A Cheshire transfer of 8 bytes, and three reads of NEXT_ID. -/
def threeLaunches : List (Event idmaFeCheshire) :=
  let write (offset : Nat) (value : BitVec 64) : Event idmaFeCheshire :=
    .access { offset := offset, isWrite := true, size := 8, value := value }
  let read : Event idmaFeCheshire := .access { offset := 0x28, isWrite := false, size := 8 }
  [write 0x0 0x1000, write 0x8 0x2000, write 0x10 8, read, read, read]

/-- With room for one transfer, the second launch waits; the third one replaces it. -/
theorem not_exact_threeLaunches : ¬ AllStates (step 1) (Exact 1) {} threeLaunches := by
  intro h
  have hexact := h.final rfl
  have hids : [0, 2] = [0, 1, 2] := congrArg (List.map fun p : Nat × IdmaTransfer => p.1) hexact.handed
  exact absurd hids (by decide)

end IDma

end GvsocPulp.IdmaV2
