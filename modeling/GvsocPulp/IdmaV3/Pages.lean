import GvsocPulp.IdmaV3.Backend

/-!
# Pages and bursts

How far a side goes in one burst, and in how many bursts it is cut.

- `log2Width_spec`: the loop of the constructor finds the logarithm of the width;
- `sideBytes_axi`: an AXI side goes up to the next boundary of one page, the smaller of the protocol page and the
  page of the reduced burst length;
- `burstCount_step`: cutting a burst off leaves one burst less.
-/

namespace GvsocPulp.IdmaV3

open Lib Nat

/-! ## Width -/

namespace Config

variable (cfg : Config)

theorem width_pos : 0 < cfg.width := by
  obtain ⟨k, hk⟩ := cfg.width_pow
  rw [hk]
  exact Nat.two_pow_pos k

theorem log2Width_spec : cfg.width = 2 ^ cfg.log2Width := by
  obtain ⟨k, hk⟩ := cfg.width_pow
  have hlog : cfg.log2Width = k := by
    unfold log2Width
    rw [hk]
    exact log2Loop_two_pow (zero_le k) (by have := @Nat.lt_two_pow_self k; omega)
  rw [hlog, hk]

end Config

/-! ## Pages -/

section Pages

variable (cfg : Config)

/-- The boundary of the bursts of an AXI side: the protocol page, or less when the transfer reduces the burst length. -/
def sidePage (burstLen : Nat) (reduceLen : Bool) (maxLlen : Nat) : Nat :=
  2 ^ if reduceLen then min (min (cfg.log2Width + burstLen) 12) (min (cfg.log2Width + maxLlen) 12)
      else min (cfg.log2Width + burstLen) 12

variable {cfg}

theorem sidePage_pos (burstLen : Nat) (reduceLen : Bool) (maxLlen : Nat) :
    0 < sidePage cfg burstLen reduceLen maxLlen := Nat.two_pow_pos _

theorem sidePage_dvd (burstLen : Nat) (reduceLen : Bool) (maxLlen : Nat) :
    sidePage cfg burstLen reduceLen maxLlen ∣ addrSpace := by
  show _ ∣ 2 ^ 64
  apply Nat.pow_dvd_pow
  split <;> omega

/-- Up to the boundaries of two pages, one of which divides the other, is up to the boundary of the smaller page. -/
theorem min_to_boundary {p q a : Nat} (hq : 0 < q) (h : p ∣ q) : min (q - a % q) (p - a % p) = p - a % p := by
  obtain ⟨c, rfl⟩ := h
  have hp : 0 < p := Nat.pos_of_mul_pos_right hq
  apply min_eq_right
  have hmod : a % (p * c) = a % p + p * (a / p % c) := mod_mul
  have hc : a / p % c < c := mod_lt _ (Nat.pos_of_mul_pos_left hq)
  have hle : p * (a / p % c + 1) ≤ p * c := Nat.mul_le_mul_left p hc
  rw [mul_add] at hle
  have hlt := mod_lt a hp
  omega

theorem min_to_boundary_pow {m n a : Nat} :
    min (2 ^ m - a % 2 ^ m) (2 ^ n - a % 2 ^ n) = 2 ^ min m n - a % 2 ^ min m n := by
  rcases le_total n m with h | h
  · rw [min_eq_right h, min_to_boundary (Nat.two_pow_pos m) (Nat.pow_dvd_pow 2 h)]
  · rw [min_eq_left h, min_comm, min_to_boundary (Nat.two_pow_pos n) (Nat.pow_dvd_pow 2 h)]

theorem sideBytes_axi {side : Side} (hv : side.valid = true) (burstLen : Nat) :
    sideBytes cfg side .axi (cfg.pageSize burstLen) =
      min side.length (sidePage cfg burstLen side.reduceLen side.maxLlen
        - side.addr % sidePage cfg burstLen side.reduceLen side.maxLlen) := by
  unfold sideBytes bytesToBoundary sidePage Manager.bytesToPageBoundary Config.pageSize Manager.notBursting
  rw [if_pos hv]
  cases hr : side.reduceLen with
  | false => simp
  | true =>
    simp only [Bool.not_true, Bool.or_self, Bool.false_eq_true, if_false, if_true]
    rw [min_to_boundary_pow]

theorem sideBytes_obi {side : Side} (hv : side.valid = true) (page : Nat) :
    sideBytes cfg side .obi page = min side.length (cfg.width - side.addr % cfg.width) := by
  simp [sideBytes, hv, bytesToBoundary, Manager.bytesToPageBoundary, Manager.notBursting]

/-- A side with bytes left always goes further, and never beyond its end. -/
theorem sideBytes_pos {side : Side} {manager : Manager} (hv : side.valid = true) (hl : 0 < side.length)
    (burstLen : Nat) : 0 < sideBytes cfg side manager (cfg.pageSize burstLen) := by
  cases manager with
  | axi =>
    rw [sideBytes_axi hv]
    have hpage : 0 < sidePage cfg burstLen side.reduceLen side.maxLlen := sidePage_pos _ _ _
    have h := mod_lt side.addr hpage
    omega
  | obi =>
    rw [sideBytes_obi hv]
    have h := mod_lt side.addr cfg.width_pos
    omega

theorem sideBytes_le {side : Side} {manager : Manager} {page : Nat} :
    sideBytes cfg side manager page ≤ side.length := by
  unfold sideBytes
  split
  · exact min_le_left _ _
  · exact zero_le _

end Pages

/-! ## Bursts -/

/-- In how many bursts `len` bytes from `addr` on are cut at the boundaries of a page. -/
def burstCount (page addr len : Nat) : Nat := if len = 0 then 0 else (addr % page + len - 1) / page + 1

@[simp] theorem burstCount_zero (page addr : Nat) : burstCount page addr 0 = 0 := rfl

theorem burstCount_step {page addr len bytes : Nat} (hp : 0 < page) (hd : page ∣ addrSpace) (hl : 0 < len)
    (hb : bytes = min len (page - addr % page)) :
    burstCount page addr len = burstCount page ((addr + bytes) % addrSpace) (len - bytes) + 1 := by
  have hmod := mod_lt addr hp
  unfold burstCount
  rw [if_neg (by omega)]
  by_cases hle : len ≤ page - addr % page
  · rw [if_pos (by omega), div_eq_of_lt (by omega)]
  · have hbytes : bytes = page - addr % page := by omega
    have haddr : (addr + bytes) % addrSpace % page = 0 := by
      rw [mod_mod_of_dvd _ hd, hbytes]
      have hsplit : addr + (page - addr % page) = page * (addr / page + 1) := by
        have hdiv := div_add_mod addr page
        rw [mul_add, mul_one]
        omega
      rw [hsplit, mul_mod_right]
    have hlen : addr % page + len - 1 = (len - bytes - 1) + page := by omega
    rw [if_neg (by omega), haddr, hlen, add_div_right _ hp, zero_add]

end GvsocPulp.IdmaV3
