/-
Rounding an address up to a power of two, as machine code does it: add the alignment less
one and clear the low bits.
-/
import Mathlib.Data.Nat.Bitwise

namespace Rcard.Align

/-- `(x + a - 1) & !(a - 1)` on words of `w` bits. -/
def alignUp (w x a : Nat) : Nat := ((x + a - 1) % 2 ^ w) &&& (2 ^ w - a)

theorem and_high_mask {w k y : Nat} (hk : k ≤ w) (hy : y < 2 ^ w) :
    y &&& (2 ^ w - 2 ^ k) = y / 2 ^ k * 2 ^ k := by
  have hmask : 2 ^ w - 2 ^ k = (2 ^ (w - k) - 1) <<< k := by
    rw [Nat.shiftLeft_eq, Nat.sub_mul, ← Nat.pow_add, Nat.sub_add_cancel hk, Nat.one_mul]
  rw [hmask, ← Nat.shiftRight_eq_div_pow, ← Nat.shiftLeft_eq]
  refine Nat.eq_of_testBit_eq fun i => ?_
  by_cases hki : k ≤ i
  · by_cases hiw : i < w
    · have hlt : i - k < w - k := by omega
      simp [hki, hlt]
    · -- past the word both are zero
      have hzero : y.testBit i = false :=
        Nat.testBit_lt_two_pow (Nat.lt_of_lt_of_le hy (Nat.pow_le_pow_right (by omega) (by omega)))
      simp [hki, hzero]
  · simp [hki]

variable {w x k : Nat}

variable (hk : k ≤ w)
include hk

variable (hx : x + 2 ^ k ≤ 2 ^ w)
include hx

theorem alignUp_eq : alignUp w x (2 ^ k) = (x + 2 ^ k - 1) / 2 ^ k * 2 ^ k := by
  have hpos : 0 < 2 ^ k := Nat.two_pow_pos k
  have hlt : x + 2 ^ k - 1 < 2 ^ w := by omega
  rw [alignUp, Nat.mod_eq_of_lt hlt, and_high_mask hk hlt]

theorem dvd_alignUp : 2 ^ k ∣ alignUp w x (2 ^ k) := by
  rw [alignUp_eq hk hx]
  exact Nat.dvd_mul_left _ _

theorem le_alignUp : x ≤ alignUp w x (2 ^ k) := by
  rw [alignUp_eq hk hx]
  have hdiv := Nat.div_add_mod (x + 2 ^ k - 1) (2 ^ k)
  rw [Nat.mul_comm] at hdiv
  omega

theorem alignUp_lt : alignUp w x (2 ^ k) < x + 2 ^ k := by
  have hpos : 0 < 2 ^ k := Nat.two_pow_pos k
  rw [alignUp_eq hk hx]
  have hle := Nat.div_mul_le_self (x + 2 ^ k - 1) (2 ^ k)
  omega

end Rcard.Align
