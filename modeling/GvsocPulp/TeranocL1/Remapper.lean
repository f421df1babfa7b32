import GvsocPulp.Lib.RoundRobin
import GvsocPulp.Lib.Run

/-!
# The remapper of the NoC routers

`L1NocRouterRemapper` sends each port to a port of its batch, by a rotation that turns with the cycles and a shuffle of
the two halves of the batch.

- `getMappedPort`, `req`, `fsmHandler`: the code, and `step`, the calls and the clock;
- `permutes_iff`: the ports of a cycle are permuted, batch by batch and each to all outputs of its batch in turn, when
  the halves of a batch are halves.
-/

namespace GvsocPulp.TeranocL1

open Lib Function Nat

/-- The ports come in whole batches. -/
structure RemapperConfig where
  nbPorts : Nat
  remapBatchSize : Nat
  shuffle : Bool
  batch_pos : 0 < remapBatchSize
  batch_dvd : remapBatchSize ∣ nbPorts

/-- A request that a port has sent to an output. -/
structure Sent where
  cycle : Nat
  port : Nat
  output : Nat
  deriving DecidableEq

structure L1NocRouterRemapper where
  remapPos : Nat := 0
  remapTimestamp : Nat := 0
  /-- The ports whose request has been denied. -/
  pendingReqs : Nat → Bool := fun _ => false
  fsmEvent : Option Nat := none
  cycle : Nat := 0
  sent : List Sent := []

inductive RemapperEvent
  | req (port : Nat) (denied : Bool)
  | fsm (denied : Nat → Bool)
  | tick (cycles : Nat)

namespace RemapperConfig

variable (cfg : RemapperConfig)

def nbGroups : Nat := cfg.nbPorts / cfg.remapBatchSize

def mappedOffset (adjusted : Nat) : Nat :=
  adjusted % (cfg.remapBatchSize / 2) * 2 + adjusted / (cfg.remapBatchSize / 2)

def offsetInGroup (port : Nat) : Nat := if cfg.shuffle then port / cfg.nbGroups else port % cfg.remapBatchSize

def groupStart (port : Nat) : Nat :=
  if cfg.shuffle then port % cfg.nbGroups * cfg.remapBatchSize else port - port % cfg.remapBatchSize

end RemapperConfig

namespace L1NocRouterRemapper

variable (cfg : RemapperConfig) (s : L1NocRouterRemapper)

/-- The position is computed with 64 bits. -/
def getMappedPort (port : Nat) : Nat × L1NocRouterRemapper :=
  if cfg.remapBatchSize ≤ 1 ∨ cfg.nbPorts < cfg.remapBatchSize then (port, s)
  else
    let pos := (s.remapPos + s.cycle + (2 ^ 64 - s.remapTimestamp)) % 2 ^ 64 % cfg.remapBatchSize
    let adjusted := (cfg.offsetInGroup port + pos) % cfg.remapBatchSize
    (cfg.groupStart port + cfg.mappedOffset adjusted, { s with remapPos := pos, remapTimestamp := s.cycle })

/-- A request is sent to the output of its port; a denied one is sent again in the next cycle. -/
def send (port : Nat) (denied : Bool) : L1NocRouterRemapper :=
  let (output, s) := s.getMappedPort cfg port
  { s with
    sent := s.sent ++ [⟨s.cycle, port, output⟩]
    pendingReqs := update s.pendingReqs port denied
    fsmEvent := if denied ∧ s.fsmEvent = none then some (s.cycle + 1) else s.fsmEvent }

def fsmHandler (denied : Nat → Bool) : L1NocRouterRemapper :=
  (List.range cfg.nbPorts).foldl (fun s port => if s.pendingReqs port then s.send cfg port (denied port) else s)
    { s with fsmEvent := none }

/-- A port has one request at a time; `get_cycles` is an `int64_t`. -/
def step : RemapperEvent → Option L1NocRouterRemapper
  | .req port denied => if port < cfg.nbPorts ∧ s.pendingReqs port = false then some (s.send cfg port denied) else none
  | .fsm denied => if s.fsmEvent = some s.cycle then some (s.fsmHandler cfg denied) else none
  | .tick cycles => if s.cycle + cycles < 2 ^ 63 then some { s with cycle := s.cycle + cycles } else none

end L1NocRouterRemapper

/-! ## The map of a cycle -/

namespace RemapperConfig

variable (cfg : RemapperConfig)

def inputBatch (port : Nat) : Nat := if cfg.shuffle then port % cfg.nbGroups else port / cfg.remapBatchSize

/-- The map of a cycle: what the first call of the run returns, made in that cycle. -/
def mapAt (c port : Nat) : Nat := (({ cycle := c } : L1NocRouterRemapper).getMappedPort cfg port).1

/-- The ports are permuted in each cycle, batch by batch, and an input is sent to each output of its batch in turn. -/
structure Remaps (m : Nat → Nat → Nat) : Prop where
  bijective : ∀ c, Set.BijOn (m c) (Set.Iio cfg.nbPorts) (Set.Iio cfg.nbPorts)
  batches : ∀ c, ∀ g < cfg.nbGroups, m c '' {p | p < cfg.nbPorts ∧ cfg.inputBatch p = g} =
    {q | q < cfg.nbPorts ∧ q / cfg.remapBatchSize = g}
  turns : ∀ c, c + cfg.remapBatchSize ≤ 2 ^ 63 → ∀ p < cfg.nbPorts, ∀ q < cfg.nbPorts,
    q / cfg.remapBatchSize = cfg.inputBatch p → ∃! k, k < cfg.remapBatchSize ∧ m (c + k) p = q

/-- The halves of a batch are halves, or the shuffle is the identity. -/
def Halves : Prop := cfg.nbPorts = 0 ∨ Even cfg.remapBatchSize ∨ cfg.remapBatchSize ≤ 3

/-- The input port at an offset of a batch. -/
def place (g o : Nat) : Nat := if cfg.shuffle then o * cfg.nbGroups + g else g * cfg.remapBatchSize + o

variable {cfg : RemapperConfig} {c g o p q : Nat}

theorem nbPorts_eq : cfg.nbPorts = cfg.nbGroups * cfg.remapBatchSize := (Nat.div_mul_cancel cfg.batch_dvd).symm

section

variable (hg : g < cfg.nbGroups) (ho : o < cfg.remapBatchSize)
include hg ho

theorem place_lt : cfg.place g o < cfg.nbPorts := by
  rw [nbPorts_eq, place]
  have hgroups : (o + 1) * cfg.nbGroups ≤ cfg.remapBatchSize * cfg.nbGroups := Nat.mul_le_mul_right _ ho
  have hbatches : (g + 1) * cfg.remapBatchSize ≤ cfg.nbGroups * cfg.remapBatchSize := Nat.mul_le_mul_right _ hg
  rw [add_mul, one_mul] at hgroups hbatches
  rw [mul_comm cfg.remapBatchSize] at hgroups
  split <;> omega

theorem inputBatch_place : cfg.inputBatch (cfg.place g o) = g := by
  rw [inputBatch, place]
  split
  · rw [mul_comm, mul_add_mod, mod_eq_of_lt hg]
  · rw [mul_comm, mul_add_div cfg.batch_pos, div_eq_of_lt ho, add_zero]

theorem offsetInGroup_place :
    cfg.offsetInGroup (cfg.place g o) = o := by
  rw [offsetInGroup, place]
  split
  · rw [mul_comm, mul_add_div (zero_lt_of_lt hg), div_eq_of_lt hg, add_zero]
  · rw [mul_comm, mul_add_mod, mod_eq_of_lt ho]

theorem groupStart_place :
    cfg.groupStart (cfg.place g o) = g * cfg.remapBatchSize := by
  rw [groupStart, place]
  split
  · rw [mul_comm o, mul_add_mod, mod_eq_of_lt hg]
  · rw [mul_comm g, mul_add_mod, mod_eq_of_lt ho, Nat.add_sub_cancel]

end

theorem exists_place (hp : p < cfg.nbPorts) : ∃ g < cfg.nbGroups, ∃ o < cfg.remapBatchSize, p = cfg.place g o := by
  rw [nbPorts_eq] at hp
  have hgroups : 0 < cfg.nbGroups := Nat.pos_of_ne_zero fun h => by rw [h, zero_mul] at hp; exact Nat.not_lt_zero _ hp
  unfold place
  split
  · exact ⟨p % cfg.nbGroups, mod_lt _ hgroups, p / cfg.nbGroups, Nat.div_lt_of_lt_mul hp, (div_add_mod' ..).symm⟩
  · refine ⟨p / cfg.remapBatchSize, ?_, p % cfg.remapBatchSize, mod_lt _ cfg.batch_pos, (div_add_mod' ..).symm⟩
    exact Nat.div_lt_of_lt_mul (by rwa [mul_comm])

theorem output_batch (ho : o < cfg.remapBatchSize) : (g * cfg.remapBatchSize + o) / cfg.remapBatchSize = g := by
  rw [mul_comm, mul_add_div cfg.batch_pos, div_eq_of_lt ho, add_zero]

theorem output_inj {g' o' : Nat} (ho : o < cfg.remapBatchSize) (ho' : o' < cfg.remapBatchSize)
    (h : g * cfg.remapBatchSize + o = g' * cfg.remapBatchSize + o') : g = g' ∧ o = o' := by
  have hg : g = g' := by rw [← output_batch (g := g) ho, h, output_batch ho']
  subst hg
  exact ⟨rfl, Nat.add_left_cancel h⟩

/-- The offset of the output in a cycle, for an offset of an input. -/
def offsetAt (cfg : RemapperConfig) (c o : Nat) : Nat :=
  cfg.mappedOffset ((o + c % 2 ^ 64 % cfg.remapBatchSize) % cfg.remapBatchSize)

theorem mapAt_place (hg : g < cfg.nbGroups) (ho : o < cfg.remapBatchSize) :
    cfg.mapAt c (cfg.place g o) = g * cfg.remapBatchSize + cfg.offsetAt c o := by
  have hle : cfg.remapBatchSize ≤ cfg.nbPorts := by
    rw [nbPorts_eq]
    exact Nat.le_mul_of_pos_left _ (zero_lt_of_lt hg)
  rw [mapAt, L1NocRouterRemapper.getMappedPort]
  split_ifs with hone
  · have hbatch : cfg.remapBatchSize = 1 := by
      have := cfg.batch_pos
      omega
    obtain rfl : o = 0 := by omega
    simp [offsetAt, mappedOffset, place, hbatch, mod_one]
  · rw [groupStart_place hg ho, offsetInGroup_place hg ho, offsetAt]
    simp

/-! ## The offsets -/

theorem mappedOffset_bijOn (h : Even cfg.remapBatchSize ∨ cfg.remapBatchSize ≤ 3) :
    Set.BijOn cfg.mappedOffset (Set.Iio cfg.remapBatchSize) (Set.Iio cfg.remapBatchSize) := by
  have hpos := cfg.batch_pos
  by_cases heven : Even cfg.remapBatchSize
  · obtain ⟨half, hhalf⟩ := heven
    have hdiv : cfg.remapBatchSize / 2 = half := by omega
    have hhalf_pos : 0 < half := by omega
    refine Set.InvOn.bijOn (⟨fun a ha => ?_, fun q hq => ?_⟩ : Set.InvOn (fun q => q / 2 + q % 2 * half) _ _ _)
      (fun a ha => ?_) fun q hq => ?_
    · have hlt : a / half < 2 := Nat.div_lt_of_lt_mul (by rw [Set.mem_Iio] at ha; omega)
      have hsplit := mod_add_div' a half
      simp only [mappedOffset, hdiv]
      rw [mul_comm _ 2, mul_add_div (by decide), div_eq_of_lt hlt, mul_add_mod, mod_eq_of_lt hlt, add_zero,
        hsplit]
    · have hlt : q / 2 < half := by rw [Set.mem_Iio] at hq; omega
      simp only [mappedOffset, hdiv]
      rw [add_mul_mod_self_right, mod_eq_of_lt hlt, add_mul_div_right _ _ hhalf_pos, div_eq_of_lt hlt]
      omega
    · have hlt : a / half < 2 := Nat.div_lt_of_lt_mul (by rw [Set.mem_Iio] at ha; omega)
      have hmod := mod_lt a hhalf_pos
      rw [Set.mem_Iio, mappedOffset, hdiv]
      omega
    · rw [Set.mem_Iio] at hq ⊢
      rcases mod_two_eq_zero_or_one q with hq' | hq' <;> simp only [hq'] <;> omega
  · have hid : Set.EqOn id cfg.mappedOffset (Set.Iio cfg.remapBatchSize) := fun a ha => by
      have hthree : cfg.remapBatchSize = 1 ∨ cfg.remapBatchSize = 3 := by
        have hne : cfg.remapBatchSize ≠ 2 := fun h => heven (by rw [h]; decide)
        have hle := h.resolve_left heven
        omega
      rw [Set.mem_Iio] at ha
      rcases hthree with hb | hb <;> simp [mappedOffset, hb, mod_one]
      omega
    exact (Set.bijOn_id _).congr hid

theorem rotate_bijOn {n r : Nat} (hr : r < n) : Set.BijOn (fun o => (r + o) % n) (Set.Iio n) (Set.Iio n) :=
  Set.InvOn.bijOn (⟨fun _ ho => turnsTo_add hr ho, fun _ hq => add_turnsTo hr hq⟩ : Set.InvOn (turnsTo n r) _ _ _)
    (fun _ _ => mod_lt _ (zero_lt_of_lt hr)) fun _ hq => turnsTo_lt hr hq

section

variable (h : Even cfg.remapBatchSize ∨ cfg.remapBatchSize ≤ 3)
include h

theorem offsetAt_bijOn (c : Nat) :
    Set.BijOn (cfg.offsetAt c) (Set.Iio cfg.remapBatchSize) (Set.Iio cfg.remapBatchSize) := by
  have hrotate := rotate_bijOn (mod_lt (c % 2 ^ 64) cfg.batch_pos)
  refine ((mappedOffset_bijOn h).comp hrotate).congr fun o _ => ?_
  rw [comp_apply, offsetAt, add_comm o]

theorem existsUnique_turn (hc : c + cfg.remapBatchSize ≤ 2 ^ 63)
    (hq : q < cfg.remapBatchSize) (o : Nat) : ∃! k, k < cfg.remapBatchSize ∧ cfg.offsetAt (c + k) o = q := by
  have hturn := (mappedOffset_bijOn h).comp (rotate_bijOn (mod_lt (o + c) cfg.batch_pos))
  have hoffset : ∀ k < cfg.remapBatchSize,
      cfg.offsetAt (c + k) o = (cfg.mappedOffset ∘ fun k => ((o + c) % cfg.remapBatchSize + k) % cfg.remapBatchSize)
        k := fun k hk => by
    rw [offsetAt, comp_apply, mod_eq_of_lt (show c + k < 2 ^ 64 by omega), add_mod_mod, mod_add_mod, add_assoc]
  obtain ⟨k, hk, hkq⟩ := hturn.surjOn hq
  refine ⟨k, ⟨hk, by rw [hoffset k hk, hkq]⟩, fun k' ⟨hk', hkq'⟩ => hturn.injOn hk' hk ?_⟩
  rw [hkq, ← hoffset k' hk', hkq']

/-! ## The ports -/

theorem remaps_of_halves : cfg.Remaps cfg.mapAt := by
  have hlt : ∀ {g o}, g < cfg.nbGroups → o < cfg.remapBatchSize →
    g * cfg.remapBatchSize + o < cfg.nbPorts := fun {g o} hg ho => by
    have hle := Nat.mul_le_mul_right cfg.remapBatchSize hg
    rw [succ_mul] at hle
    rw [nbPorts_eq]
    omega
  have hsplit : ∀ {q}, q < cfg.nbPorts → q / cfg.remapBatchSize < cfg.nbGroups ∧
    q % cfg.remapBatchSize < cfg.remapBatchSize :=
    fun {q} hq => ⟨Nat.div_lt_of_lt_mul (by rwa [mul_comm, ← nbPorts_eq]), mod_lt _ cfg.batch_pos⟩
  have hreach : ∀ c q, q < cfg.nbPorts → ∃ o < cfg.remapBatchSize,
    cfg.mapAt c (cfg.place (q / cfg.remapBatchSize) o) = q := by
    intro c q hq
    obtain ⟨hg, hr⟩ := hsplit hq
    obtain ⟨o, ho, hoq⟩ := (offsetAt_bijOn h c).surjOn hr
    exact ⟨o, ho, by rw [mapAt_place hg ho, hoq, div_add_mod']⟩
  refine ⟨fun c => ⟨fun p hp => ?_, fun p hp p' hp' heq => ?_, fun q hq => ?_⟩, fun c g hg => Set.ext fun q => ⟨?_, ?_⟩,
    fun c hc p hp q hq hbatch => ?_⟩
  · obtain ⟨g, hg, o, ho, rfl⟩ := exists_place hp
    rw [mapAt_place hg ho]
    exact hlt hg ((offsetAt_bijOn h c).mapsTo ho)
  · obtain ⟨g, hg, o, ho, rfl⟩ := exists_place hp
    obtain ⟨g', hg', o', ho', rfl⟩ := exists_place hp'
    rw [mapAt_place hg ho, mapAt_place hg' ho'] at heq
    obtain ⟨rfl, hoff⟩ := output_inj ((offsetAt_bijOn h c).mapsTo ho) ((offsetAt_bijOn h c).mapsTo ho') heq
    rw [(offsetAt_bijOn h c).injOn ho ho' hoff]
  · obtain ⟨o, ho, hoq⟩ := hreach c q hq
    exact ⟨_, place_lt (hsplit hq).1 ho, hoq⟩
  · rintro ⟨p, ⟨hp, rfl⟩, rfl⟩
    obtain ⟨g, hg', o, ho, rfl⟩ := exists_place hp
    have hoff : cfg.offsetAt c o < cfg.remapBatchSize := (offsetAt_bijOn h c).mapsTo ho
    rw [mapAt_place hg' ho, inputBatch_place hg' ho]
    exact ⟨hlt hg' hoff, output_batch hoff⟩
  · rintro ⟨hq, rfl⟩
    obtain ⟨o, ho, hoq⟩ := hreach c q hq
    exact ⟨_, ⟨place_lt hg ho, inputBatch_place hg ho⟩, hoq⟩
  · obtain ⟨g, hg, o, ho, rfl⟩ := exists_place hp
    rw [inputBatch_place hg ho] at hbatch
    obtain ⟨k, ⟨hk, hkq⟩, hone⟩ := existsUnique_turn h hc (hsplit hq).2 o
    refine ⟨k, ⟨hk, ?_⟩, fun k' ⟨hk', hkq'⟩ => hone k' ⟨hk', ?_⟩⟩
    · rw [mapAt_place hg ho, hkq, ← hbatch, div_add_mod']
    · rw [mapAt_place hg ho] at hkq'
      have hoff : cfg.offsetAt (c + k') o < cfg.remapBatchSize := (offsetAt_bijOn h _).mapsTo ho
      rw [← hkq', mul_comm, mul_add_mod, mod_eq_of_lt hoff]

end

/-- With an odd batch, its second and its last port are sent to the same output. -/
theorem not_bijOn_of_odd (hn : cfg.nbPorts ≠ 0) (hodd : ¬ Even cfg.remapBatchSize) (hb : 3 < cfg.remapBatchSize) :
    ¬ Set.BijOn (cfg.mapAt 0) (Set.Iio cfg.nbPorts) (Set.Iio cfg.nbPorts) := by
  intro hbij
  obtain ⟨half, hhalf⟩ := not_even_iff_odd.1 hodd
  have hg : 0 < cfg.nbGroups := Nat.div_pos (le_of_dvd (Nat.pos_of_ne_zero hn) cfg.batch_dvd) cfg.batch_pos
  have hone : 1 < cfg.remapBatchSize := by omega
  have hlast : cfg.remapBatchSize - 1 < cfg.remapBatchSize := by omega
  have hdiv : cfg.remapBatchSize / 2 = half := by omega
  have hsame : cfg.offsetAt 0 1 = cfg.offsetAt 0 (cfg.remapBatchSize - 1) := by
    simp only [offsetAt, zero_mod, add_zero, mod_eq_of_lt hone, mod_eq_of_lt hlast, mappedOffset, hdiv]
    have hodd : cfg.remapBatchSize - 1 = half * 2 := by omega
    rw [hodd, mul_mod_right, Nat.mul_div_cancel_left _ (by omega), mod_eq_of_lt (by omega),
      div_eq_of_lt (by omega)]
  have hplace := hbij.injOn (place_lt hg hone) (place_lt hg hlast)
    (by rw [mapAt_place hg hone, mapAt_place hg hlast, hsame])
  have hoffset := congrArg cfg.offsetInGroup hplace
  rw [offsetInGroup_place hg hone, offsetInGroup_place hg hlast] at hoffset
  omega

end RemapperConfig

/-! ## Runs -/

namespace L1NocRouterRemapper

/-- The position is that of the last call, and the requests have been sent by the map of their cycle. -/
structure Inv (cfg : RemapperConfig) (s : L1NocRouterRemapper) : Prop where
  pos : s.remapPos = s.remapTimestamp % cfg.remapBatchSize
  past : s.remapTimestamp ≤ s.cycle
  range : s.cycle < 2 ^ 63
  sent : ∀ x ∈ s.sent, x.port < cfg.nbPorts ∧ x.output = cfg.mapAt x.cycle x.port

variable {cfg : RemapperConfig} {s t : L1NocRouterRemapper}

section

variable (h : Inv cfg s)
include h

theorem Inv.newPos :
    (s.remapPos + s.cycle + (2 ^ 64 - s.remapTimestamp)) % 2 ^ 64 % cfg.remapBatchSize =
      s.cycle % cfg.remapBatchSize := by
  have hpast := h.past
  have hrange := h.range
  have hsplit := mod_add_div s.remapTimestamp cfg.remapBatchSize
  have hsum : s.remapPos + s.cycle + (2 ^ 64 - s.remapTimestamp) =
      s.cycle - cfg.remapBatchSize * (s.remapTimestamp / cfg.remapBatchSize) + 2 ^ 64 := by
    rw [h.pos]
    omega
  have hlt : s.cycle - cfg.remapBatchSize * (s.remapTimestamp / cfg.remapBatchSize) < 2 ^ 64 := by omega
  rw [hsum, add_mod_right, mod_eq_of_lt hlt, sub_mul_mod]
  omega

/-- A call returns what the map of the cycle says, whatever calls there were before. -/
theorem Inv.getMappedPort (port : Nat) : (s.getMappedPort cfg port).1 = cfg.mapAt s.cycle port := by
  have hrange := h.range
  rw [RemapperConfig.mapAt, L1NocRouterRemapper.getMappedPort, L1NocRouterRemapper.getMappedPort]
  split
  · rfl
  · rw [h.newPos, zero_add, Nat.sub_zero, add_mod_right, mod_eq_of_lt (show s.cycle < 2 ^ 64 by omega)]

theorem Inv.called (port : Nat) :
    Inv cfg (s.getMappedPort cfg port).2 ∧ (s.getMappedPort cfg port).2.cycle = s.cycle := by
  rw [L1NocRouterRemapper.getMappedPort]
  split
  · exact ⟨h, rfl⟩
  · exact ⟨⟨h.newPos, le_rfl, h.range, h.sent⟩, rfl⟩

theorem Inv.send {port : Nat} (hport : port < cfg.nbPorts) (denied : Bool) : Inv cfg (s.send cfg port denied) := by
  have hmap := h.getMappedPort port
  obtain ⟨hcalled, hcycle⟩ := h.called port
  rw [L1NocRouterRemapper.send]
  rcases hcall : s.getMappedPort cfg port with ⟨output, u⟩
  rw [hcall] at hmap hcalled hcycle
  refine { hcalled with sent := fun x hx => ?_ }
  rcases List.mem_append.1 hx with hx | hx
  · exact hcalled.sent x hx
  · obtain rfl := List.mem_singleton.1 hx
    exact ⟨hport, hmap.trans (congrArg (cfg.mapAt · port) hcycle.symm)⟩

theorem Inv.fsmHandler (denied : Nat → Bool) : Inv cfg (s.fsmHandler cfg denied) := by
  have hfold : ∀ (ports : List Nat) (s : L1NocRouterRemapper), (∀ p ∈ ports, p < cfg.nbPorts) → Inv cfg s →
      Inv cfg (ports.foldl (fun s port => if s.pendingReqs port then s.send cfg port (denied port) else s) s) := by
    intro ports
    induction ports with
    | nil => exact fun _ _ h => h
    | cons port ports ih =>
      intro s hports h
      refine ih _ (fun p hp => hports p (List.mem_cons_of_mem _ hp)) ?_
      dsimp only
      split
      · exact h.send (hports port List.mem_cons_self) _
      · exact h
  exact hfold _ _ (fun p hp => List.mem_range.1 hp) { h with }

theorem Inv.step {e : RemapperEvent} (hstep : s.step cfg e = some t) : Inv cfg t := by
  cases e with
  | req port denied =>
    obtain ⟨⟨hport, -⟩, rfl⟩ := Option.ite_some_none_eq_some.1 hstep
    exact h.send hport denied
  | fsm denied =>
    obtain ⟨-, rfl⟩ := Option.ite_some_none_eq_some.1 hstep
    exact h.fsmHandler denied
  | tick cycles =>
    obtain ⟨hlt, rfl⟩ := Option.ite_some_none_eq_some.1 hstep
    exact ⟨h.pos, h.past.trans (Nat.le_add_right _ _), hlt, h.sent⟩

end

theorem inv_run {es : List RemapperEvent} (h : run (step cfg) {} es = some s) : Inv cfg s :=
  run_invariant (fun _ _ _ hs hstep => hs.step hstep) ⟨(zero_mod _).symm, le_rfl, by decide, fun _ hx => by cases hx⟩ h

end L1NocRouterRemapper

open L1NocRouterRemapper (step inv_run)

/-- The map of a cycle permutes the ports, a call of that cycle returns what it says, and so no two inputs drive one
output in a cycle. -/
structure RemapperConfig.Permutes (cfg : RemapperConfig) : Prop where
  remaps : cfg.Remaps cfg.mapAt
  calls : ∀ es s, run (step cfg) {} es = some s →
    ∀ port, (s.getMappedPort cfg port).1 = cfg.mapAt s.cycle port
  drives : ∀ es s, run (step cfg) {} es = some s →
    ∀ x ∈ s.sent, ∀ y ∈ s.sent, x.cycle = y.cycle → x.output = y.output → x.port = y.port

theorem permutes_iff (cfg : RemapperConfig) : cfg.Permutes ↔ cfg.Halves := by
  constructor
  · intro h
    by_contra hnot
    rw [RemapperConfig.Halves, not_or, not_or, not_le] at hnot
    exact RemapperConfig.not_bijOn_of_odd hnot.1 hnot.2.1 hnot.2.2 (h.remaps.bijective 0)
  · intro h
    have hremaps : cfg.Remaps cfg.mapAt := by
      rcases h with hnone | h
      · have hno : ∀ p, ¬ p < cfg.nbPorts := fun p => by rw [hnone]; exact Nat.not_lt_zero p
        have hgroups : cfg.nbGroups = 0 := by rw [RemapperConfig.nbGroups, hnone, Nat.zero_div]
        refine ⟨fun c => ?_, fun c g hg => ?_, fun c _ p hp => (hno p hp).elim⟩
        · have hempty : Set.Iio cfg.nbPorts = ∅ := Set.eq_empty_of_forall_notMem hno
          rw [hempty]
          exact Set.bijOn_empty _
        · rw [hgroups] at hg
          exact (Nat.not_lt_zero g hg).elim
      · exact RemapperConfig.remaps_of_halves h
    refine ⟨hremaps, fun es s hs => (inv_run hs).getMappedPort, fun es s hs x hx y hy hcycle hout => ?_⟩
    obtain ⟨hxp, hxo⟩ := (inv_run hs).sent x hx
    obtain ⟨hyp, hyo⟩ := (inv_run hs).sent y hy
    rw [hxo, hyo, hcycle] at hout
    exact (hremaps.bijective y.cycle).injOn hxp hyp hout

def fivePorts : RemapperConfig := ⟨5, 5, false, by decide, dvd_refl 5⟩

/-- In the first cycle the requests of ports 1 and 4 are both sent to output 2. -/
theorem two_inputs_one_output : ¬ fivePorts.Permutes := fun h => by
  obtain ⟨s, hs, hsent⟩ : ∃ s, run (step fivePorts) {} [.req 1 false, .req 4 false] = some s ∧
      s.sent = [⟨0, 1, 2⟩, ⟨0, 4, 2⟩] := ⟨_, rfl, rfl⟩
  have hsame := h.drives _ s hs ⟨0, 1, 2⟩ (by simp [hsent]) ⟨0, 4, 2⟩ (by simp [hsent]) rfl rfl
  exact absurd hsame (by decide)

end GvsocPulp.TeranocL1
