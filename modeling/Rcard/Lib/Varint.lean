/-
Numbers of any size as bytes of seven bits, the lowest first, and signed numbers
as unsigned ones.

A reader puts a number together from a register and a shift.  `encode_induct` is
the rule for such a reader, whatever else it does with the bytes.
-/
import Mathlib.Data.List.Basic
import Mathlib.Data.Nat.Bitwise

namespace Rcard.Varint

/-- The bytes of `v`, at most `turns` of them. -/
def encode : (turns v : Nat) → List UInt8
  | 0, _ => []
  | turns + 1, v =>
    if v / 128 = 0 then [UInt8.ofNat (v % 128)]
    else UInt8.ofNat (v % 128 + 128) :: encode turns (v / 128)

variable {w : Nat}

def accumulate (acc : BitVec w) (shift : Nat) (b : UInt8) : BitVec w :=
  acc ||| ((b &&& 0x7F).toBitVec.setWidth w <<< shift)

theorem toNat_low (b : UInt8) : (b &&& 0x7F).toNat = b.toNat % 128 := by
  exact Nat.and_two_pow_sub_one_eq_mod b.toNat 7

theorem toNat_accumulate {acc : BitVec w} {shift : Nat} {b : UInt8} (hacc : acc.toNat < 2 ^ shift)
    (hfit : acc.toNat + (b.toNat % 128) * 2 ^ shift < 2 ^ w) :
    (accumulate acc shift b).toNat = acc.toNat + (b.toNat % 128) * 2 ^ shift := by
  have hlow : (b.toNat % 128) * 2 ^ shift < 2 ^ w := by omega
  have hone : b.toNat % 128 ≤ (b.toNat % 128) * 2 ^ shift :=
    Nat.le_mul_of_pos_right _ (Nat.two_pow_pos shift)
  rw [accumulate, BitVec.toNat_or, BitVec.toNat_shiftLeft, BitVec.toNat_setWidth,
    UInt8.toNat_toBitVec, toNat_low, Nat.mod_eq_of_lt (Nat.lt_of_le_of_lt hone hlow),
    Nat.shiftLeft_eq, Nat.mod_eq_of_lt hlow, Nat.or_comm, ← Nat.shiftLeft_eq,
    ← Nat.shiftLeft_add_eq_or_of_lt hacc, Nat.add_comm]

theorem and_high_eq_zero_iff (b : UInt8) : b &&& 0x80 = 0 ↔ b.toNat < 128 := by
  have hnat : (b &&& 0x80).toNat = (b.toNat.testBit 7).toNat * 128 := by
    exact Nat.and_two_pow b.toNat 7
  have hlt := b.toNat_lt
  rw [← UInt8.toNat_inj, hnat]
  grind

section Reader

variable {v : Nat} {P : BitVec w → Nat → List UInt8 → Prop}
  (last : ∀ acc shift b, shift < w → b &&& 0x80 = 0 → b.toNat * 2 ^ shift ≤ v →
    accumulate acc shift b = BitVec.ofNat w v → P acc shift [b])
  (more : ∀ acc shift b bs, shift < w → b &&& 0x80 ≠ 0 → P (accumulate acc shift b) (shift + 7) bs →
    P acc shift (b :: bs))
  (hw : 0 < w) (hv : v < 2 ^ w)
include last more hw hv

/-- `rest` is what is left of `v` after `k` bytes. -/
theorem encode_induct_from {turns rest k : Nat} {acc : BitVec w} (hacc : acc.toNat < 2 ^ (7 * k))
    (hsum : acc.toNat + rest * 2 ^ (7 * k) = v) (hturns : rest < 128 ^ turns)
    (hrest : 0 < rest ∨ k = 0 ∧ 0 < turns) : P acc (7 * k) (encode turns rest) := by
  induction turns generalizing rest k acc with
  | zero =>
    omega
  | succ turns ih =>
    have hshift : 7 * k < w := by
      rcases hrest with hpos | ⟨rfl, _⟩
      · have hle : 2 ^ (7 * k) ≤ rest * 2 ^ (7 * k) := Nat.le_mul_of_pos_left _ hpos
        exact (Nat.pow_lt_pow_iff_right (by decide)).mp
          (Nat.lt_of_le_of_lt hle (by omega : rest * 2 ^ (7 * k) < 2 ^ w))
      · exact hw
    have hpow : (2 : Nat) ^ (7 * (k + 1)) = 128 * 2 ^ (7 * k) := by
      rw [Nat.mul_add, Nat.pow_add, Nat.mul_comm]
    have hsplit : rest * 2 ^ (7 * k) =
        (rest % 128) * 2 ^ (7 * k) + (rest / 128) * 2 ^ (7 * (k + 1)) := by
      rw [hpow, ← Nat.mul_assoc, ← Nat.add_mul, Nat.mul_comm (rest / 128), Nat.mod_add_div]
    rw [encode]
    split
    · rename_i hlast
      have hbyte : (UInt8.ofNat (rest % 128)).toNat = rest % 128 := by
        rw [UInt8.toNat_ofNat']
        omega
      rw [hlast, Nat.zero_mul, Nat.add_zero] at hsplit
      refine last _ _ _ hshift ((and_high_eq_zero_iff _).mpr (by omega)) (by rw [hbyte]; omega) ?_
      apply BitVec.eq_of_toNat_eq
      rw [toNat_accumulate hacc (by rw [hbyte, Nat.mod_mod]; omega), hbyte, Nat.mod_mod, ← hsplit,
        hsum, BitVec.toNat_ofNat, Nat.mod_eq_of_lt hv]
    · have hbyte : (UInt8.ofNat (rest % 128 + 128)).toNat = rest % 128 + 128 := by
        rw [UInt8.toNat_ofNat']
        omega
      have hlow : (UInt8.ofNat (rest % 128 + 128)).toNat % 128 = rest % 128 := by omega
      have hnat : (accumulate acc (7 * k) (UInt8.ofNat (rest % 128 + 128))).toNat =
          acc.toNat + (rest % 128) * 2 ^ (7 * k) := by
        rw [toNat_accumulate hacc (by rw [hlow]; omega), hlow]
      have hnext : P (accumulate acc (7 * k) (UInt8.ofNat (rest % 128 + 128))) (7 * (k + 1))
          (encode turns (rest / 128)) := by
        refine ih ?_ ?_ ?_ (.inl (by omega))
        · have hmul : (rest % 128) * 2 ^ (7 * k) ≤ 127 * 2 ^ (7 * k) :=
            Nat.mul_le_mul_right _ (by omega)
          omega
        · omega
        · rw [Nat.pow_succ, Nat.mul_comm] at hturns
          exact Nat.div_lt_of_lt_mul hturns
      refine more _ _ _ _ hshift (fun h => ?_) hnext
      have hsmall := (and_high_eq_zero_iff _).mp h
      omega

/-- A reader that goes on after a byte with its high bit and ends at one without. -/
theorem encode_induct {turns : Nat} (hpos : 0 < turns) (hturns : v < 128 ^ turns) :
    P 0 0 (encode turns v) :=
  encode_induct_from last more hw hv (k := 0) (Nat.two_pow_pos _)
    (by simp) hturns (.inr ⟨rfl, hpos⟩)

end Reader

/-! ## Signed numbers -/

def zigzag (v : BitVec w) : BitVec w := (v <<< 1) ^^^ v.sshiftRight (w - 1)

def unzigzag (z : BitVec w) : BitVec w := (z >>> 1) ^^^ -(z &&& 1)

/-- The lowest bit of a zigzag number, spread over all bits. -/
theorem neg_and_one (z : BitVec w) :
    -(z &&& 1) = if z.getLsbD 0 then BitVec.allOnes w else 0 := by
  have hone : z &&& 1 = (BitVec.ofBool (z.getLsbD 0)).setWidth w :=
    BitVec.and_one_eq_setWidth_ofBool_getLsbD
  rw [hone]
  cases z.getLsbD 0 with
  | false => simp
  | true =>
    have hset : (BitVec.ofBool true).setWidth w = 1#w := by
      apply BitVec.eq_of_toNat_eq
      simp
    rw [hset, BitVec.neg_one_eq_allOnes, if_pos rfl]

theorem unzigzag_zigzag (v : BitVec w) : unzigzag (zigzag v) = v := by
  apply BitVec.eq_of_getLsbD_eq
  intro i hi
  rw [unzigzag, neg_and_one, BitVec.getLsbD_xor]
  grind [zigzag]

theorem setWidth_signExtend {u : Nat} (v : BitVec w) (h : w ≤ u) :
    (v.signExtend u).setWidth w = v := by
  grind

end Rcard.Varint
