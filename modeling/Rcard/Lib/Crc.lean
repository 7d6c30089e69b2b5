/-
Reflected CRCs, one byte at a time from a table.

The register shifts towards its low bit.  A shift is linear in exclusive or, so
the eight shifts of a byte are a look-up for the low byte of the register and a
move of the rest (`step_eq_shifts`).  If the polynomial has its top bit set, the
top bit of the register after a shift is the bit that was shifted out, and a shift
can be undone.  Undone from the top, the shifts give back the bytes of a burst that
is not longer than the register, so two inputs that differ in such a burst have
different CRCs (`foldl_step_ne`).
-/
import Mathlib.Data.List.Basic

namespace Rcard.Crc

variable {w : Nat} (poly : BitVec w)

def shift (c : BitVec w) : BitVec w := if c.getLsbD 0 then (c >>> 1) ^^^ poly else c >>> 1

def shifts : Nat → BitVec w → BitVec w
  | 0, c => c
  | n + 1, c => shifts n (shift poly c)

def table (b : BitVec 8) : BitVec w := shifts poly 8 (b.setWidth w)

def step (c : BitVec w) (b : BitVec 8) : BitVec w :=
  (c >>> 8) ^^^ table poly ((c ^^^ b.setWidth w).setWidth 8)

variable {poly}

/-! ## Linearity -/

theorem shift_xor (a b : BitVec w) : shift poly (a ^^^ b) = shift poly a ^^^ shift poly b := by
  have hcancel : ∀ x y p : BitVec w, x ^^^ y = x ^^^ p ^^^ (y ^^^ p) := by
    intro x y p
    rw [BitVec.xor_comm y p, ← BitVec.xor_assoc, BitVec.xor_assoc x p p, BitVec.xor_self,
      BitVec.xor_zero]
  simp only [shift, BitVec.getLsbD_xor, BitVec.ushiftRight_xor_distrib]
  cases a.getLsbD 0 <;> cases b.getLsbD 0
  · rfl
  · exact BitVec.xor_assoc _ _ _
  · grind
  · exact hcancel _ _ _

theorem shifts_xor (n : Nat) (a b : BitVec w) :
    shifts poly n (a ^^^ b) = shifts poly n a ^^^ shifts poly n b := by
  induction n generalizing a b with
  | zero => rfl
  | succ n ih => rw [shifts, shift_xor, ih, shifts, shifts]

/-- A register with `n` low bits clear only moves. -/
theorem shifts_of_low_clear {n : Nat} {c : BitVec w} (h : ∀ i < n, c.getLsbD i = false) :
    shifts poly n c = c >>> n := by
  induction n generalizing c with
  | zero => rw [shifts, BitVec.ushiftRight_zero]
  | succ n ih =>
    have hshift : shift poly c = c >>> 1 := if_neg (by simp [h 0 (Nat.zero_lt_succ n)])
    grind [shifts]

theorem setWidth_ushiftRight (b : BitVec 8) : (b.setWidth w) >>> 8 = 0#w := by
  grind

theorem shifts_eight (c : BitVec w) :
    shifts poly 8 c = (c >>> 8) ^^^ table poly (c.setWidth 8) := by
  have hsplit : c = (c ^^^ (c.setWidth 8).setWidth w) ^^^ (c.setWidth 8).setWidth w := by
    rw [BitVec.xor_assoc, BitVec.xor_self, BitVec.xor_zero]
  have hlow : ∀ i < 8, (c ^^^ (c.setWidth 8).setWidth w).getLsbD i = false := by grind
  have hhigh : (c ^^^ (c.setWidth 8).setWidth w) >>> 8 = c >>> 8 := by
    rw [BitVec.ushiftRight_xor_distrib, setWidth_ushiftRight, BitVec.xor_zero]
  calc shifts poly 8 c
      = shifts poly 8 ((c ^^^ (c.setWidth 8).setWidth w) ^^^ (c.setWidth 8).setWidth w) := by
        rw [← hsplit]
    _ = (c >>> 8) ^^^ table poly (c.setWidth 8) := by
        rw [shifts_xor, shifts_of_low_clear hlow, hhigh, table]

theorem step_eq_shifts (c : BitVec w) (b : BitVec 8) :
    step poly c b = shifts poly 8 (c ^^^ b.setWidth w) := by
  rw [shifts_eight, step, BitVec.ushiftRight_xor_distrib, setWidth_ushiftRight, BitVec.xor_zero]

/-! ## Injectivity -/

def AgreeFrom (k : Nat) (a b : BitVec w) : Prop := ∀ i, k ≤ i → a.getLsbD i = b.getLsbD i

variable {a b : BitVec w} {k : Nat}

theorem AgreeFrom.eq (h : AgreeFrom 0 a b) : a = b :=
  BitVec.eq_of_getLsbD_eq fun i _ => h i (Nat.zero_le i)

theorem getLsbD_shift (c : BitVec w) (i : Nat) : (shift poly c).getLsbD i =
    (c.getLsbD (i + 1) ^^ (c.getLsbD 0 && poly.getLsbD i)) := by
  rw [shift, Nat.add_comm]
  split <;> simp_all

section

variable (hpoly : poly.msb = true)
include hpoly

/-- The top bit after a shift is the bit that was shifted out. -/
theorem AgreeFrom.of_shift (hk : k < w) (h : AgreeFrom k (shift poly a) (shift poly b)) :
    a.getLsbD 0 = b.getLsbD 0 ∧ AgreeFrom (k + 1) a b := by
  rw [BitVec.msb_eq_getLsbD_last] at hpoly
  have hlow : a.getLsbD 0 = b.getLsbD 0 := by
    have htop := h (w - 1) (by omega)
    rwa [getLsbD_shift, getLsbD_shift, hpoly, a.getLsbD_of_ge _ (by omega),
      b.getLsbD_of_ge _ (by omega), Bool.and_true, Bool.and_true, Bool.false_xor,
      Bool.false_xor] at htop
  refine ⟨hlow, fun i hi => ?_⟩
  have hbit := h (i - 1) (by omega)
  rwa [getLsbD_shift, getLsbD_shift, hlow, Bool.xor_left_inj, Nat.sub_add_cancel (by omega)] at hbit

theorem AgreeFrom.of_shifts {n : Nat} (hk : k + n ≤ w)
    (h : AgreeFrom k (shifts poly n a) (shifts poly n b)) :
    (∀ i < n, a.getLsbD i = b.getLsbD i) ∧ AgreeFrom (k + n) a b := by
  induction n generalizing a b with
  | zero => exact ⟨fun i hi => absurd hi (Nat.not_lt_zero i), h⟩
  | succ n ih =>
    obtain ⟨hbelow, habove⟩ := ih (by omega) h
    obtain ⟨hlow, hrest⟩ := habove.of_shift hpoly (by omega)
    refine ⟨fun i hi => ?_, hrest⟩
    cases i with
    | zero => exact hlow
    | succ i =>
      have hbit := hbelow i (by omega)
      rwa [getLsbD_shift, getLsbD_shift, hlow, Bool.xor_left_inj] at hbit

/-- Registers that agree above after a step took the same low bits, and agreed further up. -/
theorem AgreeFrom.of_step (hk : k + 8 ≤ w) {x y : BitVec 8}
    (h : AgreeFrom k (step poly a x) (step poly b y)) :
    (∀ i < 8, (a.getLsbD i ^^ x.getLsbD i) = (b.getLsbD i ^^ y.getLsbD i)) ∧
      AgreeFrom (k + 8) a b := by
  rw [step_eq_shifts, step_eq_shifts] at h
  obtain ⟨hlow, hhigh⟩ := h.of_shifts hpoly hk
  grind [AgreeFrom]

theorem step_state_injective (hw : 8 ≤ w) {x : BitVec 8} (h : step poly a x = step poly b x) :
    a = b := by
  have hagree : AgreeFrom 0 (step poly a x) (step poly b x) := fun i _ => by rw [h]
  obtain ⟨hlow, hhigh⟩ := hagree.of_step hpoly (by omega)
  refine AgreeFrom.eq fun i _ => ?_
  rcases Nat.lt_or_ge i 8 with hi | hi
  · exact (Bool.xor_left_inj).mp (hlow i hi)
  · exact hhigh i (by omega)

theorem foldl_step_injective (hw : 8 ≤ w) {bs : List (BitVec 8)}
    (h : bs.foldl (step poly) a = bs.foldl (step poly) b) : a = b := by
  induction bs generalizing a b with
  | nil => exact h
  | cons x bs ih => exact step_state_injective hpoly hw (ih h)

/-- A burst that is not longer than the register. -/
theorem foldl_step_burst {bs bs' : List (BitVec 8)} (hlen : bs.length = bs'.length)
    (hw : 8 * bs.length ≤ w) (h : bs.foldl (step poly) a = bs'.foldl (step poly) b) :
    AgreeFrom (8 * bs.length) a b ∧ (a = b → bs = bs') := by
  induction bs generalizing a b bs' with
  | nil =>
    grind [AgreeFrom]
  | cons x bs ih =>
    cases bs' with
    | nil => cases hlen
    | cons y bs' =>
      rw [List.length_cons] at hw
      obtain ⟨hagree, hrest⟩ := ih (Nat.succ.inj hlen) (by omega) h
      obtain ⟨hlow, hhigh⟩ := hagree.of_step hpoly (by omega)
      refine ⟨hhigh, fun heq => ?_⟩
      subst heq
      have hxy : x = y := BitVec.eq_of_getLsbD_eq fun i hi => (Bool.xor_right_inj).mp (hlow i hi)
      subst hxy
      rw [hrest rfl]

theorem foldl_step_ne (hw : 8 ≤ w) (c : BitVec w) (pre post : List (BitVec 8))
    {bs bs' : List (BitVec 8)} (hlen : bs.length = bs'.length) (hburst : 8 * bs.length ≤ w)
    (h : bs ≠ bs') :
    (pre ++ bs ++ post).foldl (step poly) c ≠ (pre ++ bs' ++ post).foldl (step poly) c := by
  simp only [List.foldl_append]
  intro heq
  exact h ((foldl_step_burst hpoly hlen hburst (foldl_step_injective hpoly hw heq)).2 rfl)

end

end Rcard.Crc
