import GvsocPulp.PulpIdma.Frontend

/-!
# The launches of the streams

`IDma.Inv`: what holds in every run. The transfers go to the middle-end in the order of the launches, a launch is
completed iff it is done (`Inv.completed_iff`), and the counters of a stream count its launches and its completions.
-/

namespace GvsocPulp.PulpIdma

open Lib Function List Option Feeder

def moving (launches : List Launch) : List (Nat × IdmaTransfer) :=
  numbered (fun l : Launch => if l.transfer.isEmpty then none else some l.transfer) launches

theorem moving_concat (launches : List Launch) (l : Launch) :
    moving (launches ++ [l]) = moving launches ++ if l.transfer.isEmpty then []
      else [(launches.length, l.transfer)] := by
  rw [moving, numbered_concat, moving]
  cases l.transfer.isEmpty <;> rfl

namespace IDma

variable (cfg : Config) (s : IDma)

def transferOf (n : Nat) : Option IdmaTransfer := s.launches[n]?.map (·.transfer)

def ofStream (stream : Nat) : List Nat := (s.launchesOf stream).map (·.1)

/-- The launch moves no data, or all its lines have gone to the back-end and are acknowledged. -/
def Done (n : Nat) : Prop :=
  ∃ t, s.transferOf n = some t ∧
    (t.isEmpty = true ∨ (n, t) ∈ s.me.entered ∧ s.me.given n = t.lines ∧ n ∉ s.me.flight)

structure Counted (stream : Nat) : Prop where
  ids : ∀ k p, (s.launchesOf stream)[k]? = some p → p.2 = BitVec.ofNat 32 (k + 1)
  nextId : (s.streams stream).nextId = BitVec.ofNat 32 ((s.ofStream stream).length + 1)
  doneId : (s.streams stream).doneId = BitVec.ofNat 32 (s.completed stream).length
  pending : (s.streams stream).pending = BitVec.ofNat 32 (s.ofStream stream).length -
    BitVec.ofNat 32 (s.completed stream).length

structure Inv (gone : List (Nat × IdmaTransfer)) : Prop where
  ok : Feeder.Ok me3d s.me gone
  fits : s.me.queue.length ≤ cfg.transferQueueSize
  handed : s.me.entered ++ s.pendingQueue = moving s.launches
  counted : ∀ stream, s.Counted stream
  completed : ∀ stream n, n ∈ s.completed stream ↔
    n ∈ s.ofStream stream ∧ (n ∈ s.me.acked ∨ ∃ t, s.transferOf n = some t ∧ t.isEmpty = true)
  once : ∀ stream, (s.completed stream).Nodup

/-- A transfer waits only while the middle-end is full. -/
def Room : Prop := s.pendingQueue ≠ [] → cfg.transferQueueSize ≤ s.me.queue.length

variable {cfg s} {gone : List (Nat × IdmaTransfer)} {n stream : Nat} {t : IdmaTransfer}

@[simp] theorem transferOf_length : s.transferOf s.launches.length = none := by
  rw [transferOf, getElem?_eq_none le_rfl, map_none]

theorem lt_of_transferOf (h : s.transferOf n = some t) : n < s.launches.length := by
  obtain ⟨l, hl, _⟩ := map_eq_some_iff.1 h
  exact (List.getElem?_eq_some_iff.1 hl).1

theorem mem_moving : (n, t) ∈ moving s.launches ↔ s.transferOf n = some t ∧ t.isEmpty = false := by
  rw [moving, mem_numbered, transferOf]
  constructor
  · rintro ⟨l, hl, h⟩
    split at h
    · cases h
    case isFalse hempty =>
      cases h
      exact ⟨by rw [hl]; rfl, Bool.not_eq_true _ ▸ hempty⟩
  · rintro ⟨h, hempty⟩
    obtain ⟨l, hl, rfl⟩ := map_eq_some_iff.1 h
    exact ⟨l, hl, by rw [hempty]; rfl⟩

theorem mem_ofStream : n ∈ s.ofStream stream ↔ ∃ t, s.transferOf n = some t ∧ t.stream = stream := by
  rw [ofStream, List.mem_map, transferOf]
  constructor
  · rintro ⟨⟨n, id⟩, hmem, rfl⟩
    obtain ⟨l, hl, h⟩ := mem_numbered.1 hmem
    split at h
    case isTrue hstream => exact ⟨l.transfer, by rw [hl]; rfl, hstream⟩
    case isFalse => cases h
  · rintro ⟨t, h, hstream⟩
    obtain ⟨l, hl, rfl⟩ := map_eq_some_iff.1 h
    exact ⟨(n, l.id), mem_numbered.2 ⟨l, hl, if_pos hstream⟩, rfl⟩

theorem ofStream_nodup : (s.ofStream stream).Nodup := numbered_nodup

theorem length_not_mem_ofStream : s.launches.length ∉ s.ofStream stream := fun h => by
  obtain ⟨t, ht, _⟩ := mem_ofStream.1 h
  rw [transferOf_length] at ht
  cases ht

/-! ## A new launch -/

theorem transferOf_allocate (n : Nat) :
    (s.allocate t).transferOf n = if n = s.launches.length then some t else s.transferOf n := by
  show (s.launches ++ [_])[n]?.map (·.transfer) = _
  rw [getElem?_concat]
  split <;> rfl

theorem launchesOf_allocate (stream : Nat) : (s.allocate t).launchesOf stream =
    s.launchesOf stream ++ if t.stream = stream then [(s.launches.length, (s.streams stream).nextId)] else [] := by
  show numbered _ (s.launches ++ [_]) = _
  rw [numbered_concat, launchesOf]
  by_cases h : t.stream = stream
  · subst h
    simp
  · simp [h]

theorem ofStream_allocate (stream : Nat) :
    (s.allocate t).ofStream stream = s.ofStream stream ++ if t.stream = stream then [s.launches.length] else [] := by
  rw [ofStream, launchesOf_allocate, map_append, ofStream]
  split <;> rfl

theorem streams_allocate_of_ne (h : stream ≠ t.stream) : (s.allocate t).streams stream = s.streams stream :=
  update_of_ne h _ _

theorem Counted.allocate (h : ∀ stream, s.Counted stream) (stream : Nat) : (s.allocate t).Counted stream := by
  by_cases hstream : t.stream = stream
  · subst hstream
    have hlaunches := s.launchesOf_allocate (t := t) t.stream
    have hlen : ((s.allocate t).ofStream t.stream).length = (s.ofStream t.stream).length + 1 := by
      rw [ofStream_allocate, if_pos rfl, length_append, length_singleton]
    rw [if_pos rfl] at hlaunches
    have hstreams : (s.allocate t).streams t.stream =
        { s.streams t.stream with nextId := (s.streams t.stream).nextId + 1, pending := (s.streams t.stream).pending +
          1 } :=
      update_self ..
    refine ⟨fun k p hp => ?_, ?_, ?_, ?_⟩
    · rw [hlaunches, getElem?_concat] at hp
      split_ifs at hp with hk
      · cases hp
        rw [(h t.stream).nextId, hk, ofStream, length_map]
      · exact (h t.stream).ids k p hp
    · rw [hstreams, hlen]
      show (s.streams t.stream).nextId + 1#32 = _
      rw [(h t.stream).nextId, ← BitVec.ofNat_add]
    · rw [hstreams]
      exact (h t.stream).doneId
    · rw [hstreams, hlen]
      show (s.streams t.stream).pending + 1#32 = _ - BitVec.ofNat 32 (s.completed t.stream).length
      rw [(h t.stream).pending, BitVec.ofNat_add]
      bv_omega
  · have hlaunches : (s.allocate t).launchesOf stream = s.launchesOf stream := by
      rw [launchesOf_allocate, if_neg hstream, append_nil]
    have hof : (s.allocate t).ofStream stream = s.ofStream stream := by rw [ofStream, hlaunches, ofStream]
    refine ⟨?_, ?_, ?_, ?_⟩
    · rw [hlaunches]
      exact (h stream).ids
    · rw [streams_allocate_of_ne (Ne.symm hstream), hof]
      exact (h stream).nextId
    · rw [streams_allocate_of_ne (Ne.symm hstream)]
      exact (h stream).doneId
    · rw [streams_allocate_of_ne (Ne.symm hstream), hof]
      exact (h stream).pending

theorem Counted.ackTransfer (h : ∀ stream, s.Counted stream) (stream : Nat) : (s.ackTransfer n t).Counted stream := by
  by_cases hstream : stream = t.stream
  · subst hstream
    have hstreams : (s.ackTransfer n t).streams t.stream =
        { s.streams t.stream with doneId := (s.streams t.stream).doneId + 1, pending := (s.streams t.stream).pending -
          1 } :=
      update_self ..
    have hcompleted : (s.ackTransfer n t).completed t.stream = s.completed t.stream ++ [n] := update_self ..
    refine ⟨(h t.stream).ids, ?_, ?_, ?_⟩
    · rw [hstreams]
      exact (h t.stream).nextId
    · rw [hstreams, hcompleted, length_append, length_singleton]
      show (s.streams t.stream).doneId + 1#32 = _
      rw [(h t.stream).doneId, ← BitVec.ofNat_add]
    · rw [hstreams, hcompleted, length_append, length_singleton]
      show (s.streams t.stream).pending - 1#32 = BitVec.ofNat 32 (s.ofStream t.stream).length - _
      rw [(h t.stream).pending, BitVec.ofNat_add]
      bv_omega
  · have hstreams : (s.ackTransfer n t).streams stream = s.streams stream := update_of_ne hstream _ _
    have hcompleted : (s.ackTransfer n t).completed stream = s.completed stream := update_of_ne hstream _ _
    refine ⟨(h stream).ids, ?_, ?_, ?_⟩
    · rw [hstreams]
      exact (h stream).nextId
    · rw [hstreams, hcompleted]
      exact (h stream).doneId
    · rw [hstreams, hcompleted]
      exact (h stream).pending

/-! ## What is completed is done -/

namespace Inv

theorem entered (h : Inv cfg s gone) {p : Nat × IdmaTransfer} (hp : p ∈ s.me.entered) :
    s.transferOf p.1 = some p.2 ∧ p.2.isEmpty = false :=
  mem_moving.1 (h.handed ▸ mem_append_left _ hp)

theorem complete_iff (h : Inv cfg s gone) (n : Nat) :
    s.me.Complete me3d n ↔ ∃ t, (n, t) ∈ s.me.entered ∧ s.me.given n = t.lines ∧ n ∉ s.me.flight := by
  refine exists_congr fun t => and_congr_right fun hmem => and_congr_left fun _ => ?_
  have hcuts := cutsInto_lines (h.entered hmem).2
  exact ⟨fun h' => h'.unique hcuts, fun heq => heq ▸ hcuts⟩

/-- **A launch of a stream is counted as completed iff it is done.** -/
theorem completed_iff (h : Inv cfg s gone) (stream n : Nat) :
    n ∈ s.completed stream ↔ n ∈ s.ofStream stream ∧ s.Done n := by
  rw [h.completed stream n, h.ok.acked_iff, h.complete_iff]
  refine and_congr_right fun _ => ?_
  constructor
  · rintro (⟨t, hmem, hlines⟩ | ⟨t, ht, hempty⟩)
    · exact ⟨t, (h.entered hmem).1, .inr ⟨hmem, hlines⟩⟩
    · exact ⟨t, ht, .inl hempty⟩
  · rintro ⟨t, ht, hempty | hdone⟩
    · exact .inr ⟨t, ht, hempty⟩
    · exact .inl ⟨t, hdone⟩

theorem length_not_mem (h : Inv cfg s gone) : s.launches.length ∉ s.completed stream := fun hmem =>
  length_not_mem_ofStream ((h.completed stream _).1 hmem).1

/-! ## The operations -/

theorem initial : Inv cfg {} [] where
  ok := .initial
  fits := Nat.zero_le _
  handed := rfl
  counted _ := ⟨nofun, rfl, rfl, by
    show (0 : BitVec 32) = BitVec.ofNat 32 0 - BitVec.ofNat 32 0
    decide⟩
  completed _ _ := ⟨nofun, fun h => nomatch h.1⟩
  once _ := nodup_nil

theorem completed_allocate (h : Inv cfg s gone) (t : IdmaTransfer) (hn : n ≠ s.launches.length) :
    n ∈ s.completed stream ↔
      n ∈ (s.allocate t).ofStream stream ∧ (n ∈ s.me.acked ∨ ∃ u, (s.allocate t).transferOf n = some u ∧
        u.isEmpty = true) := by
  rw [h.completed stream n, ofStream_allocate, transferOf_allocate, if_neg hn, mem_append]
  refine and_congr_left fun _ => (or_iff_left ?_).symm
  split
  · exact fun hmem => hn (mem_singleton.1 hmem)
  · exact not_mem_nil

theorem complete_empty (h : Inv cfg s gone) (ht : t.isEmpty = true) :
    Inv cfg ((s.allocate t).ackTransfer s.launches.length t) gone where
  ok := h.ok
  fits := h.fits
  handed := by
    show s.me.entered ++ s.pendingQueue = moving (s.launches ++ [_])
    rw [moving_concat, ht, if_pos rfl, append_nil]
    exact h.handed
  counted := Counted.ackTransfer (Counted.allocate h.counted)
  completed stream n := by
    show n ∈ update s.completed t.stream (s.completed t.stream ++ [s.launches.length]) stream ↔
      n ∈ (s.allocate t).ofStream stream ∧ (n ∈ s.me.acked ∨ ∃ u, (s.allocate t).transferOf n = some u ∧
        u.isEmpty = true)
    by_cases hn : n = s.launches.length
    · rw [ofStream_allocate, transferOf_allocate, if_pos hn, hn, update_apply]
      split
      case isTrue heq =>
        rw [if_pos heq.symm]
        exact iff_of_true (mem_append_right _ (mem_singleton_self _))
          ⟨mem_append_right _ (mem_singleton_self _), .inr ⟨t, rfl, ht⟩⟩
      case isFalse hne =>
        rw [if_neg (Ne.symm hne), append_nil]
        exact iff_of_false h.length_not_mem fun hmem => length_not_mem_ofStream hmem.1
    · rw [← h.completed_allocate t hn, update_apply]
      split
      case isTrue heq =>
        rw [heq, mem_append, mem_singleton, or_iff_left hn]
      case isFalse => rfl
  once stream := by
    show (update s.completed t.stream (s.completed t.stream ++ [s.launches.length]) stream).Nodup
    rw [update_apply]
    split
    · rw [← concat_eq_append]
      exact (h.once _).concat h.length_not_mem
    · exact h.once stream

theorem push (h : Inv cfg s gone) (ht : t.isEmpty = false) :
    Inv cfg { s.allocate t with pendingQueue := s.pendingQueue ++ [(s.launches.length, t)] } gone where
  ok := h.ok
  fits := h.fits
  handed := by
    show s.me.entered ++ (s.pendingQueue ++ [_]) = moving (s.launches ++ [_])
    rw [moving_concat, ht, ← append_assoc, h.handed]
    rfl
  counted stream := by
    obtain ⟨hids, hnext, hdone, hpending⟩ := Counted.allocate h.counted (t := t) stream
    exact ⟨hids, hnext, hdone, hpending⟩
  completed stream n := by
    show n ∈ s.completed stream ↔
      n ∈ (s.allocate t).ofStream stream ∧ (n ∈ s.me.acked ∨ ∃ u, (s.allocate t).transferOf n = some u ∧
        u.isEmpty = true)
    by_cases hn : n = s.launches.length
    · rw [transferOf_allocate, if_pos hn, hn]
      refine iff_of_false h.length_not_mem ?_
      rintro ⟨-, hacked | ⟨u, hu, hempty⟩⟩
      · obtain ⟨u, hmem, _⟩ := (h.ok.acked_iff _).1 hacked
        have hlt := lt_of_transferOf (h.entered hmem).1
        exact absurd hlt (lt_irrefl _)
      · cases hu
        rw [ht] at hempty
        cases hempty
    · exact h.completed_allocate t hn
  once := h.once

end Inv

/-! ## The middle-end -/

theorem handOver_spec {gone : List (Nat × IdmaTransfer)} : ∀ {queue : List (Nat × IdmaTransfer)} {me : IDmaMe3d},
    Feeder.Ok me3d me gone → me.queue.length ≤ cfg.transferQueueSize → ((me.entered ++ queue).map (·.1)).Nodup →
    Feeder.Ok me3d (handOver cfg queue me).2 gone ∧ (handOver cfg queue me).2.queue.length ≤ cfg.transferQueueSize ∧
      (handOver cfg queue me).2.entered ++ (handOver cfg queue me).1 = me.entered ++ queue ∧
      (handOver cfg queue me).2.acked = me.acked ∧ (handOver cfg queue me).2.flight = me.flight ∧
      ((handOver cfg queue me).1 ≠ [] → cfg.transferQueueSize ≤ (handOver cfg queue me).2.queue.length)
  | [], me, hok, hfits, _ => ⟨hok, hfits, rfl, rfl, rfl, fun hne => absurd rfl hne⟩
  | (n, t) :: queue, me, hok, hfits, hnodup => by
    rw [handOver]
    split
    case isTrue hroom =>
      rw [IDmaMe3d.canAcceptTransfer, decide_eq_true_eq] at hroom
      have hn : n ∉ me.entered.map (·.1) := by
        rw [map_append, nodup_append] at hnodup
        exact fun hmem => hnodup.2.2 n hmem n mem_cons_self rfl
      have hfits' : (me.enqueue n t).queue.length ≤ cfg.transferQueueSize := by
        show (me.queue ++ [(n, t)]).length ≤ _
        rw [length_append]
        exact hroom
      have hall : (me.enqueue n t).entered ++ queue = me.entered ++ (n, t) :: queue := by
        show me.entered ++ [(n, t)] ++ queue = _
        rw [append_assoc]
        rfl
      obtain ⟨hok', hfits'', hentered, hacked, hflight, hfull⟩ :=
        handOver_spec (hok.enqueue hn (t := t)) hfits' (hall ▸ hnodup)
      exact ⟨hok', hfits'', hentered.trans hall, hacked, hflight, hfull⟩
    case isFalse hfull =>
      rw [IDmaMe3d.canAcceptTransfer, decide_eq_true_eq, not_lt] at hfull
      exact ⟨hok, hfits, rfl, rfl, rfl, fun _ => hfull⟩

namespace Inv

variable (h : Inv cfg s gone)
include h

theorem nodup : ((s.me.entered ++ s.pendingQueue).map (·.1)).Nodup := by
  rw [h.handed]
  exact numbered_nodup

theorem checkPendingQueue : Inv cfg (s.checkPendingQueue cfg) gone := by
  obtain ⟨hok, hfits, hentered, hacked, -, -⟩ := handOver_spec h.ok h.fits h.nodup
  exact {
    ok := hok
    fits := hfits
    handed := hentered.trans h.handed
    counted := fun stream => { h.counted stream with }
    completed := fun stream n => by
      show _ ↔ _ ∧ (n ∈ (IDma.handOver cfg s.pendingQueue s.me).2.acked ∨ _)
      rw [hacked]
      exact h.completed stream n
    once := h.once }

theorem room_checkPendingQueue : (s.checkPendingQueue cfg).Room cfg :=
  (handOver_spec h.ok h.fits h.nodup).2.2.2.2.2

theorem load : Inv cfg { s with me := s.me.load me3d } gone where
  ok := h.ok.load
  fits := (s.me.load_queue me3d).symm ▸ h.fits
  handed := by
    rw [load_entered]
    exact h.handed
  counted stream := { h.counted stream with }
  completed stream n := by
    rw [load_acked]
    exact h.completed stream n
  once := h.once

theorem feed : ∃ away, Inv cfg { s with me := s.me.feed me3d } (gone ++ away) := by
  obtain ⟨away, hok, -⟩ := h.ok.feed
  refine ⟨away, {
    ok := hok
    fits := ?_
    handed := ?_
    counted := fun stream => { h.counted stream with }
    completed := fun stream n => ?_
    once := h.once }⟩
  · rw [feed_queue]
    split
    · rw [length_tail]
      exact (Nat.sub_le ..).trans h.fits
    · exact h.fits
  · rw [feed_entered]
    exact h.handed
  · rw [feed_acked]
    exact h.completed stream n

theorem fsmHandler (accepts : Bool) : ∃ away, Inv cfg (s.fsmHandler cfg accepts) (gone ++ away) := by
  rw [IDma.fsmHandler]
  split
  · obtain ⟨away, hfeed⟩ := h.load.feed
    refine ⟨away, ?_⟩
    split
    · exact hfeed.checkPendingQueue
    · exact hfeed
  · exact ⟨[], by rw [append_nil]; exact h.load⟩

theorem room_fsmHandler (hroom : s.Room cfg) (accepts : Bool) : (s.fsmHandler cfg accepts).Room cfg := by
  rw [IDma.fsmHandler]
  split
  · obtain ⟨away, hfeed⟩ := h.load.feed
    split
    case isTrue => exact hfeed.room_checkPendingQueue
    case isFalse hlast =>
      intro hne
      rw [feed_queue, if_neg hlast, load_queue]
      exact hroom hne
  · intro hne
    rw [load_queue]
    exact hroom hne

theorem of_flight (hn : n ∈ s.me.flight) :
    ∃ l, s.launches[n]? = some l ∧ l.transfer.isEmpty = false ∧ n ∉ s.completed l.transfer.stream := by
  obtain ⟨⟨n, t⟩, hp, rfl⟩ := List.mem_map.1 (h.ok.flight n hn)
  obtain ⟨ht, hempty⟩ := h.entered hp
  obtain ⟨l, hl, rfl⟩ := map_eq_some_iff.1 ht
  refine ⟨l, hl, hempty, fun hmem => ?_⟩
  rcases ((h.completed _ _).1 hmem).2 with hacked | ⟨u, hu, hempty'⟩
  · exact ((h.ok.acked n).1 hacked).2 hn
  · rw [ht] at hu
    cases hu
    rw [hempty] at hempty'
    cases hempty'

theorem ackBurst_eq (hn : n ∈ s.me.flight) : ∃ l, s.launches[n]? = some l ∧
    s.ackBurst n = if s.me.finishes n then { s with me := s.me.back n }.ackTransfer n l.transfer
      else { s with me := s.me.back n } := by
  obtain ⟨l, hl, -⟩ := h.of_flight hn
  refine ⟨l, hl, ?_⟩
  rw [IDma.ackBurst, hl]

/-- A line is acknowledged. With the last one of its launch, the launch is completed. -/
theorem ackBurst (hn : n ∈ s.me.flight) : Inv cfg (s.ackBurst n) gone := by
  have hok := h.ok.back hn
  obtain ⟨l, hl, heq⟩ := h.ackBurst_eq hn
  obtain ⟨l', hl', -, hnew⟩ := h.of_flight hn
  rw [hl] at hl'
  cases hl'
  have htransfer : s.transferOf n = some l.transfer := by rw [transferOf, hl]; rfl
  have hcounted : ∀ stream, ({ s with me := s.me.back n } : IDma).Counted stream := fun stream =>
    { h.counted stream with }
  rw [heq]
  cases hfinishes : s.me.finishes n with
  | false =>
    exact { h with
      ok := hok
      counted := hcounted
      completed := fun stream m => by
        show m ∈ s.completed stream ↔ _ ∧ (m ∈ (if s.me.finishes n then s.me.acked ++ [n] else s.me.acked) ∨ _)
        rw [hfinishes]
        exact h.completed stream m }
  | true =>
    refine { h with
      ok := hok
      counted := Counted.ackTransfer hcounted
      completed := fun stream m => ?_
      once := fun stream => ?_ }
    · show m ∈ update s.completed l.transfer.stream (s.completed l.transfer.stream ++ [n]) stream ↔
        m ∈ s.ofStream stream ∧ (m ∈ (if s.me.finishes n then s.me.acked ++ [n] else s.me.acked) ∨ _)
      rw [hfinishes, if_pos rfl, mem_append, mem_singleton, update_apply]
      split
      case isTrue hstream =>
        rw [hstream, mem_append, mem_singleton, h.completed]
        constructor
        · rintro (⟨hof, hdone⟩ | rfl)
          · exact ⟨hof, hdone.imp_left .inl⟩
          · exact ⟨mem_ofStream.2 ⟨_, htransfer, rfl⟩, .inl (.inr rfl)⟩
        · rintro ⟨hof, (hacked | rfl) | hempty⟩
          · exact .inl ⟨hof, .inl hacked⟩
          · exact .inr rfl
          · exact .inl ⟨hof, .inr hempty⟩
      case isFalse hstream =>
        rw [h.completed]
        refine and_congr_right fun hof => or_congr_left (or_iff_left ?_).symm
        rintro rfl
        obtain ⟨u, hu, rfl⟩ := mem_ofStream.1 hof
        rw [htransfer] at hu
        cases hu
        exact hstream rfl
    · show (update s.completed l.transfer.stream (s.completed l.transfer.stream ++ [n]) stream).Nodup
      rw [update_apply]
      split
      · rw [← concat_eq_append]
        exact (h.once _).concat hnew
      · exact h.once stream

end Inv

end IDma

end GvsocPulp.PulpIdma
