import Mathlib.Algebra.Order.Group.Int
import Mathlib.Data.Nat.Bitwise
import Mathlib.Data.Nat.ModEq
import Mathlib.Tactic.Linarith
import Mathlib.Tactic.NormNum

/-!
# Masked counters

A counter selects a slot of a ring of `2 ^ k` slots by its last `k` bits, after a conversion to 64 bits.
-/

namespace Transition

/-- The conversion of an integer to an unsigned one of 64 bits. -/
def unsigned64 (i : Int) : Nat := (i % 2 ^ 64).toNat

theorem unsigned64_of_lt {i : Int} (h0 : 0 ≤ i) (h : i < 2 ^ 64) : (unsigned64 i : Int) = i := by
  rw [unsigned64, Int.emod_eq_of_lt h0 h, Int.toNat_of_nonneg h0]

theorem unsigned64_natCast {n : Nat} (h : n < 2 ^ 64) : unsigned64 n = n := by
  have hcast : (n : Int) < 2 ^ 64 := by exact_mod_cast h
  exact_mod_cast unsigned64_of_lt (Int.natCast_nonneg n) hcast

theorem mask_eq {k : Nat} (hk : k ≤ 64) (i : Int) :
    ((unsigned64 i &&& (2 ^ k - 1) : Nat) : Int) = i % 2 ^ k := by
  have hdvd : (2 : Int) ^ k ∣ 2 ^ 64 := pow_dvd_pow 2 hk
  have hnonneg : 0 ≤ i % 2 ^ 64 := Int.emod_nonneg _ (by norm_num)
  rw [Nat.and_two_pow_sub_one_eq_mod, Int.natCast_mod, unsigned64, Int.toNat_of_nonneg hnonneg]
  push_cast
  exact Int.emod_emod_of_dvd i hdvd

/-- Two counters closer than the size of the ring select one slot only if they are equal. -/
theorem mask_inj {k : Nat} (hk : k ≤ 64) {i j : Int}
    (h : unsigned64 i &&& (2 ^ k - 1) = unsigned64 j &&& (2 ^ k - 1)) (hlt : |i - j| < 2 ^ k) : i = j := by
  have hmod : i % 2 ^ k = j % 2 ^ k := by rw [← mask_eq hk, ← mask_eq hk, h]
  have hdvd : (2 : Int) ^ k ∣ i - j :=
    Int.dvd_of_emod_eq_zero (Int.emod_eq_emod_iff_emod_sub_eq_zero.mp hmod)
  have hzero := Int.eq_zero_of_abs_lt_dvd hdvd hlt
  omega

section Rounds

variable {m a b : Nat}

theorem ne_succ_of_mod_eq (hm : 2 ≤ m) (h : a % m = b % m) : a ≠ b + 1 := by
  rintro rfl
  have hle : b + m ≤ b + 1 := Nat.ModEq.add_le_of_lt (show b ≡ b + 1 [MOD m] from h.symm) (by omega)
  omega

/-- Indices of one slot are a round apart. -/
theorem add_le_of_mod_eq (h : a % m = b % m) (hlt : a < b) : a + m ≤ b :=
  Nat.ModEq.add_le_of_lt h hlt

theorem eq_of_mod_eq (h : a % m = b % m) (hab : a < b + m) (hba : b < a + m) : a = b := by
  rcases Nat.lt_trichotomy a b with hlt | heq | hgt
  · have hle := add_le_of_mod_eq h hlt
    omega
  · exact heq
  · have hle := add_le_of_mod_eq h.symm hgt
    omega

end Rounds

end Transition
