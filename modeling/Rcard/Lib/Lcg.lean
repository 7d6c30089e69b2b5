/-
Linear congruential generators modulo a power of two.

`lcg a c m` is one step of the generator.  When the modulus is `2 ^ k`, the
multiplier is one modulo four and the increment is odd, the generator walks
through all `2 ^ k` residues before it returns to where it started, whatever
the seed.  The two forms used elsewhere are `iterate_eq_self_iff`, which says
when a walk of `n` steps closes, and `iterate_inj`, which says that the first
`2 ^ k` values are pairwise distinct.

A walk of `n` steps adds `geom a n * ((a - 1) * x + c)` to the seed, where
`geom a n` is `1 + a + ... + a ^ (n - 1)`.  The second factor is odd, so all of
the divisibility is in `geom`, and `geom a n` has exactly the twos of `n`.
-/
import Mathlib.Data.Nat.ModEq
import Mathlib.Data.Nat.Prime.Basic
import Mathlib.Tactic.Ring

namespace Rcard.Lcg

def lcg (a c m x : Nat) : Nat := (a * x + c) % m

def geom (a : Nat) : Nat → Nat
  | 0 => 0
  | n + 1 => 1 + a * geom a n

theorem iterate_lt {a c m x : Nat} (hm : 0 < m) (hx : x < m) (n : Nat) : (lcg a c m)^[n] x < m := by
  cases n with
  | zero => exact hx
  | succ n =>
    rw [Function.iterate_succ_apply']
    exact Nat.mod_lt _ hm

/-! ## The closed form of a walk -/

theorem pow_eq_geom (b n : Nat) : (1 + b) ^ n = 1 + b * geom (1 + b) n := by
  induction n with
  | zero => rfl
  | succ n ih =>
    rw [pow_succ, ih, geom]
    ring

theorem iterate_modEq (a c m x n : Nat) : (lcg a c m)^[n] x ≡ a ^ n * x + c * geom a n [MOD m] := by
  induction n with
  | zero => simp [geom, Nat.ModEq.refl]
  | succ n ih =>
    rw [Function.iterate_succ_apply']
    have hstep : lcg a c m ((lcg a c m)^[n] x) ≡
        a * (lcg a c m)^[n] x + c [MOD m] := Nat.mod_modEq _ _
    have hrec := (ih.mul_left a).add_right c
    have hring : a * (a ^ n * x + c * geom a n) + c = a ^ (n + 1) * x + c * geom a (n + 1) := by
      rw [geom]
      ring
    rw [hring] at hrec
    exact hstep.trans hrec

theorem iterate_modEq_add (b c m x n : Nat) :
    (lcg (1 + b) c m)^[n] x ≡ x + geom (1 + b) n * (b * x + c) [MOD m] := by
  have h := iterate_modEq (1 + b) c m x n
  have hring : (1 + b) ^ n * x + c * geom (1 + b) n = x + geom (1 + b) n * (b * x + c) := by
    rw [pow_eq_geom]
    ring
  rw [hring] at h
  exact h

/-! ## The twos of `geom` -/

theorem geom_mod_two {a : Nat} (ha : a % 2 = 1) (n : Nat) : geom a n % 2 = n % 2 := by
  induction n with
  | zero => rfl
  | succ n ih =>
    have hmul : a * geom a n % 2 = n % 2 := by
      rw [Nat.mul_mod, ha]
      omega
    rw [geom]
    omega

theorem geom_two_mul (b n : Nat) : geom (1 + b) (n + n) = geom (1 + b) n * (1 + (1 + b) ^ n) := by
  have hadd : ∀ m, geom (1 + b) (m + n) = geom (1 + b) m + (1 + b) ^ m * geom (1 + b) n := by
    intro m
    induction m with
    | zero => simp [geom]
    | succ m ih =>
      rw [show m + 1 + n = (m + n) + 1 by omega, geom, ih, geom]
      ring
  rw [hadd n]
  ring

theorem one_add_pow_mod_four {a : Nat} (ha : a % 4 = 1) (n : Nat) : (1 + a ^ n) % 4 = 2 := by
  have hpow : a ^ n % 4 = 1 := by
    rw [Nat.pow_mod, ha, one_pow]
    rfl
  omega

theorem two_pow_dvd_mul_odd {k x y : Nat} (hy : y % 2 = 1) : 2 ^ k ∣ x * y ↔ 2 ^ k ∣ x := by
  have hcop : Nat.Coprime (2 ^ k) y := by
    apply Nat.Coprime.pow_left
    rw [Nat.coprime_two_left, Nat.odd_iff]
    exact hy
  exact ⟨hcop.dvd_of_dvd_mul_right, fun h => Dvd.dvd.mul_right h y⟩

theorem two_pow_dvd_geom_iff {b : Nat} (hb : b % 4 = 0) (k n : Nat) :
    2 ^ k ∣ geom (1 + b) n ↔ 2 ^ k ∣ n := by
  induction n using Nat.strong_induction_on generalizing k with
  | _ n ih =>
    cases k with
    | zero => simp
    | succ k =>
      -- An odd `n` has an odd sum, and an even `n` halves both sides.
      rcases Nat.mod_two_eq_zero_or_one n with heven | hodd
      · obtain ⟨m, rfl⟩ : ∃ m, n = m + m := ⟨n / 2, by omega⟩
        rcases Nat.eq_zero_or_pos m with hm | hm
        · subst hm
          simp [geom]
        · have hfactor := one_add_pow_mod_four (a := 1 + b) (by omega) m
          obtain ⟨q, hq⟩ : ∃ q, 1 + (1 + b) ^ m = 2 * q :=
            ⟨(1 + (1 + b) ^ m) / 2, by omega⟩
          have hqodd : q % 2 = 1 := by omega
          have hleft : geom (1 + b) (m + m) = 2 * (geom (1 + b) m * q) := by
            rw [geom_two_mul, hq]
            ring
          rw [hleft, ← two_mul, pow_succ', Nat.mul_dvd_mul_iff_left (by omega),
            Nat.mul_dvd_mul_iff_left (by omega), two_pow_dvd_mul_odd hqodd]
          exact ih m (by omega) k
      · have hg := geom_mod_two (a := 1 + b) (by omega) n
        have htwo : 2 ∣ 2 ^ (k + 1) := dvd_pow_self 2 (by omega)
        constructor
        · intro h
          have := htwo.trans h
          omega
        · intro h
          have := htwo.trans h
          omega

/-! ## Full period -/

section Period

variable {a c k : Nat} (ha : a % 4 = 1) (hc : c % 2 = 1)

include ha hc

/-- A walk closes exactly when its length is a multiple of the modulus. -/
theorem iterate_eq_self_iff {x : Nat} (hx : x < 2 ^ k) (n : Nat) :
    (lcg a c (2 ^ k))^[n] x = x ↔ 2 ^ k ∣ n := by
  obtain ⟨b, rfl⟩ : ∃ b, a = 1 + b := ⟨a - 1, by omega⟩
  have hb : b % 4 = 0 := by omega
  have hodd : (b * x + c) % 2 = 1 := by
    have hbx : b * x % 2 = 0 := by
      rw [Nat.mul_mod, show b % 2 = 0 by omega, Nat.zero_mul]
    omega
  have hwalk := iterate_modEq_add b c (2 ^ k) x n
  rw [← two_pow_dvd_geom_iff hb, ← two_pow_dvd_mul_odd hodd]
  constructor
  · intro h
    rw [h] at hwalk
    have hsub := (Nat.modEq_iff_dvd' (Nat.le_add_right _ _)).mp hwalk
    rwa [Nat.add_sub_cancel_left] at hsub
  · intro h
    have hzero : x + geom (1 + b) n * (b * x + c) ≡ x [MOD 2 ^ k] := by
      have := (Nat.modEq_zero_iff_dvd.mpr h).add_left x
      rwa [Nat.add_zero] at this
    exact (hwalk.trans hzero).eq_of_lt_of_lt (iterate_lt (Nat.two_pow_pos k) hx n) hx

/-- The first `2 ^ k` values are pairwise distinct, from any seed. -/
theorem iterate_inj {x : Nat} (hx : x < 2 ^ k) {i j : Nat}
    (hi : i < 2 ^ k) (hj : j < 2 ^ k)
    (h : (lcg a c (2 ^ k))^[i] x = (lcg a c (2 ^ k))^[j] x) : i = j := by
  wlog hij : i ≤ j generalizing i j with hswap
  · exact (hswap hj hi h.symm (by omega)).symm
  · obtain ⟨d, rfl⟩ : ∃ d, j = d + i := ⟨j - i, by omega⟩
    rw [Function.iterate_add_apply] at h
    have hy := iterate_lt (a := a) (c := c) (Nat.two_pow_pos k) hx i
    have hd := (iterate_eq_self_iff ha hc hy d).mp h.symm
    have hzero : d = 0 := Nat.eq_zero_of_dvd_of_lt hd (by omega)
    omega

end Period

end Rcard.Lcg
