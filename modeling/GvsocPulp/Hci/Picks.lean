import GvsocPulp.Hci.Crossbar
import GvsocPulp.Lib.RoundRobin

/-!
# What the election of the HCI picks

- `decodeBank_eq`: the banks are interleaved by granule;
- `wideForward_banks`, `wideForward_nodup`: a wide request asks each bank of its mask once;
- `pickWinner_mem`, `pickNarrow_mem`: the winner of a bank is one of the inputs recorded there.
-/

namespace GvsocPulp.Hci

open Lib List Nat

variable {cfg : Config}

variable {req : Req} {bankMask : BitVec 64} {b nb : Nat} {mask : BitVec 64} {rrNext : Nat}

theorem granule_pos : 0 < cfg.granule := by
  rw [Config.granule, shiftLeft_eq, one_mul]
  exact Nat.two_pow_pos _

theorem nbSlaves_pos : 0 < cfg.nbSlaves := by
  rw [Config.nbSlaves, shiftLeft_eq, one_mul]
  exact Nat.two_pow_pos _

theorem nbSlaves_le : cfg.nbSlaves ≤ 64 := by
  rw [Config.nbSlaves, shiftLeft_eq, one_mul]
  exact Nat.pow_le_pow_right (n := 2) (by decide) cfg.slaves_le

theorem decodeBank_eq (addr : Nat) : decodeBank cfg addr = bankOf cfg.granule cfg.nbSlaves addr := by
  rw [decodeBank, bankOf, Config.granule, Config.nbSlaves]
  split
  case isTrue h => simp [h, mod_one]
  case isFalse =>
    simp only [shiftLeft_eq, one_mul]
    rw [and_two_pow_sub_one_eq_mod, shiftRight_eq_div_pow]

theorem decodeBank_lt (addr : Nat) : decodeBank cfg addr < cfg.nbSlaves := by
  rw [decodeBank_eq]
  exact mod_lt _ nbSlaves_pos

theorem decodeBank_lt_64 (addr : Nat) : decodeBank cfg addr < 64 :=
  (decodeBank_lt addr).trans_le nbSlaves_le

/-! ## Wide requests -/

theorem wideForwardLoop_banks : ∀ {offset : Nat} {cs : List (Nat × Nat)},
    (wideForwardLoop cfg req offset cs).map (·.bank) = cs.map fun c => decodeBank cfg c.1
  | _, [] => rfl
  | offset, (addr, chunk) :: cs => by rw [wideForwardLoop, map_cons, wideForwardLoop_banks, map_cons]

theorem wideForward_banks (req : Req) :
    (wideForward cfg req).map (·.bank) = (chunks cfg req.addr req.size).map fun c => decodeBank cfg c.1 :=
  wideForwardLoop_banks

/-- No bank gets two chunks of a request that has no more chunks than there are banks. -/
theorem wideForward_nodup (h : computeBankMask cfg req.addr req.size = some bankMask) :
    ((wideForward cfg req).map (·.bank)).Nodup := by
  have hdvd : cfg.granule * cfg.nbSlaves ∣ 2 ^ 64 := by
    rw [Config.granule, Config.nbSlaves, shiftLeft_eq, shiftLeft_eq, one_mul, one_mul, ← pow_add]
    have hshift := cfg.shift_lt
    exact Nat.pow_dvd_pow 2 (by omega)
  rw [computeBankMask] at h
  split at h
  case isTrue hle =>
    rw [wideForward_banks]
    simp only [decodeBank_eq]
    exact (pieces_nodup hdvd granule_pos nbSlaves_pos _ _).2 hle
  case isFalse => cases h

theorem getLsbD_foldl_banks : ∀ {cs : List (Nat × Nat)} {mask : BitVec 64},
    (cs.foldl (fun mask c => mask ||| 1#64 <<< decodeBank cfg c.1) mask).getLsbD b = true ↔
      mask.getLsbD b = true ∨ b ∈ cs.map fun c => decodeBank cfg c.1
  | [], mask => by simp
  | c :: cs, mask => by
    rw [foldl_cons, getLsbD_foldl_banks, getLsbD_or_bit (decodeBank_lt_64 _), map_cons, mem_cons]
    simp only [Bool.or_eq_true, decide_eq_true_eq, eq_comm (a := b)]
    rw [or_assoc]

theorem getLsbD_bankMask (h : computeBankMask cfg req.addr req.size = some bankMask) :
    bankMask.getLsbD b = true ↔ b ∈ (wideForward cfg req).map (·.bank) := by
  rw [computeBankMask] at h
  split at h
  case isTrue =>
    cases h
    rw [getLsbD_foldl_banks, wideForward_banks]
    simp
  case isFalse => cases h

/-! ## Narrow requests -/

theorem getLsbD_valid {j : Nat} (hnb : nb ≤ 64) (hj : j < 64) :
    (if nb = 64 then ~~~0#64 else (1#64 <<< nb) - 1#64).getLsbD j = decide (j < nb) := by
  split
  case isTrue h =>
    rw [BitVec.getLsbD_not, decide_eq_true (by omega), decide_eq_true (by omega)]
    simp
  case isFalse h => exact getLsbD_below (by omega)

section

variable (hnb : nb ≤ 64) (hrr : rrNext < nb)
include hnb hrr

theorem getLsbD_rotated (hlt : ∀ j, mask.getLsbD j = true → j < nb) (r : Nat) :
    (if rrNext = 0 then mask else ((mask >>> rrNext ||| mask <<< (nb - rrNext)) &&&
        (if nb = 64 then ~~~0#64 else (1#64 <<< nb) - 1#64))).getLsbD r = true ↔
      r < nb ∧ mask.getLsbD ((rrNext + r) % nb) = true := by
  split
  case isTrue h0 =>
    subst h0
    constructor
    · intro h
      have hr := hlt r h
      rw [zero_add, mod_eq_of_lt hr]
      exact ⟨hr, h⟩
    · rintro ⟨hr, h⟩
      rwa [zero_add, mod_eq_of_lt hr] at h
  case isFalse h0 =>
    by_cases hr : r < nb
    · rw [BitVec.getLsbD_and, getLsbD_valid hnb (by omega), BitVec.getLsbD_or, BitVec.getLsbD_ushiftRight,
        BitVec.getLsbD_shiftLeft]
      rcases lt_or_ge (rrNext + r) nb with hsmall | hbig
      · rw [mod_eq_of_lt hsmall]
        simp [hr, show r < nb - rrNext by omega]
      · have hmod : (rrNext + r) % nb = r - (nb - rrNext) := by
          rw [mod_eq_sub_mod hbig, mod_eq_of_lt (by omega)]
          omega
        have hout : mask.getLsbD (rrNext + r) = false :=
          Bool.eq_false_iff.2 fun h => absurd (hlt _ h) (by omega)
        simp [hr, hout, hmod, show r < 64 by omega, show ¬r < nb - rrNext by omega]
    · refine iff_of_false (fun h => ?_) fun h => hr h.1
      have hr64 : r < 64 := BitVec.lt_of_getLsbD h
      rw [BitVec.getLsbD_and, getLsbD_valid hnb hr64] at h
      simp [hr] at h

variable (hmask : mask ≠ 0#64) (hlt : ∀ j, mask.getLsbD j = true → j < nb)
include hmask hlt

theorem pickWinner_first :
    mask.getLsbD (pickWinner mask rrNext nb) = true ∧
      ∀ j, mask.getLsbD j = true → turnsTo nb rrNext (pickWinner mask rrNext nb) ≤ turnsTo nb rrNext j := by
  have hvalid : mask &&& (if nb = 64 then ~~~0#64 else (1#64 <<< nb) - 1#64) = mask := by
    refine BitVec.eq_of_getLsbD_eq fun j hj => ?_
    rw [BitVec.getLsbD_and, getLsbD_valid hnb hj]
    cases hbit : mask.getLsbD j with
    | false => rfl
    | true => simp [hlt j hbit]
  have hrot := getLsbD_rotated hnb hrr hlt
  rw [pickWinner]
  simp only [hvalid]
  generalize (if rrNext = 0 then mask else ((mask >>> rrNext ||| mask <<< (nb - rrNext)) &&&
    (if nb = 64 then ~~~0#64 else (1#64 <<< nb) - 1#64))) = rotated at hrot ⊢
  have hat : ∀ j, mask.getLsbD j = true → rotated.getLsbD (turnsTo nb rrNext j) = true := fun j hj =>
    (hrot _).2 ⟨turnsTo_lt hrr (hlt j hj), by rwa [add_turnsTo hrr (hlt j hj)]⟩
  obtain ⟨j, hj⟩ := exists_getLsbD hmask
  have hne : rotated ≠ 0#64 := fun h0 => by
    have hbit := hat j hj
    rw [h0] at hbit
    simp at hbit
  obtain ⟨hctz, hbit⟩ := (hrot _).1 (BitVec.getLsbD_true_ctz_of_ne_zero hne)
  refine ⟨hbit, fun j hj => ?_⟩
  rw [turnsTo_add hrr hctz]
  exact ctz_le (hat j hj)

theorem pickWinner_mem : mask.getLsbD (pickWinner mask rrNext nb) = true :=
  (pickWinner_first hnb hrr hmask hlt).1

end

/-- The pointers of the round robins are inputs. -/
def BankState.Ok (cfg : Config) (bank : BankState) : Prop :=
  bank.rrNext < cfg.nbMasters ∧ ∀ group, bank.rrNextGroup group < cfg.nbMasters

theorem pickNarrow_mem {bank : BankState} (hok : bank.Ok cfg) (hmask : bank.pendingMask ≠ 0#64)
    (hlt : ∀ j, bank.pendingMask.getLsbD j = true → j < cfg.nbMasters) :
    bank.pendingMask.getLsbD (pickNarrow cfg bank).1 = true ∧
      (pickNarrow cfg bank).2.pendingMask = bank.pendingMask &&& ~~~(1#64 <<< (pickNarrow cfg bank).1) ∧
      (pickNarrow cfg bank).2.Ok cfg := by
  have hnext : ∀ winner, (winner + 1) % cfg.nbMasters < cfg.nbMasters := fun _ => mod_lt _ cfg.masters_pos
  rw [pickNarrow]
  split
  case isTrue => exact ⟨pickWinner_mem cfg.masters_le hok.1 hmask hlt, rfl, hnext _, hok.2⟩
  case isFalse =>
    simp only [true_and]
    generalize hgroup : (decide (bank.pendingMask &&& ~~~cfg.group0Mask ≠ 0#64) &&
      (decide (bank.pendingMask &&& cfg.group0Mask = 0#64) || bank.group1Prio)) = group
    -- the mask of the group that is picked is not empty, and part of the mask of the bank
    have hpart : ∀ j, (if group = true then bank.pendingMask &&& ~~~cfg.group0Mask
        else bank.pendingMask &&& cfg.group0Mask).getLsbD j = true → bank.pendingMask.getLsbD j = true := by
      intro j h
      cases group <;> simp only [if_true, Bool.false_eq_true, if_false, BitVec.getLsbD_and, Bool.and_eq_true] at h <;>
        exact h.1
    have hne : (if group = true then bank.pendingMask &&& ~~~cfg.group0Mask
        else bank.pendingMask &&& cfg.group0Mask) ≠ 0#64 := by
      cases group with
      | true =>
        rw [Bool.and_eq_true, decide_eq_true_eq] at hgroup
        exact hgroup.1
      | false =>
        rw [if_neg (by decide)]
        intro h0
        simp only [h0, decide_true, Bool.true_or, Bool.and_true, decide_eq_false_iff_not, not_not] at hgroup
        refine hmask (eq_zero_iff_getLsbD.2 fun j => Bool.eq_false_iff.2 fun hj => ?_)
        have h0j := eq_zero_iff_getLsbD.1 h0 j
        have h1j := eq_zero_iff_getLsbD.1 hgroup j
        rw [BitVec.getLsbD_and, hj, Bool.true_and] at h0j
        rw [getLsbD_andNot (BitVec.lt_of_getLsbD hj), hj, h0j] at h1j
        cases h1j
    refine ⟨hpart _ (pickWinner_mem cfg.masters_le (hok.2 group) hne fun j h => hlt j (hpart j h)), hok.1, fun g => ?_⟩
    simp only [Function.update_apply]
    split
    · exact hnext _
    · exact hok.2 g

end GvsocPulp.Hci
