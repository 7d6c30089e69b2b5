/-
Little-endian numbers.
-/
import Mathlib.Init

namespace Rcard

open List

def leBytes : (count v : Nat) → List UInt8
  | 0, _ => []
  | count + 1, v => UInt8.ofNat v :: leBytes count (v / 256)

def leNat : List UInt8 → Nat
  | [] => 0
  | b :: bs => b.toNat + 256 * leNat bs

def leBound : Nat → Nat
  | 0 => 1
  | count + 1 => 256 * leBound count

@[simp] theorem length_leBytes (count v : Nat) : (leBytes count v).length = count := by
  induction count generalizing v with
  | zero => rfl
  | succ count ih => rw [leBytes, length_cons, ih]

theorem leNat_leBytes {count v : Nat} (h : v < leBound count) : leNat (leBytes count v) = v := by
  induction count generalizing v with
  | zero =>
    rw [leBound] at h
    rw [leBytes, leNat]
    omega
  | succ count ih =>
    rw [leBound] at h
    rw [leBytes, leNat, ih (by omega), UInt8.toNat_ofNat']
    omega

theorem leNat_lt_of_le {bs : List UInt8} {count : Nat} (h : bs.length ≤ count) :
    leNat bs < leBound count := by
  induction count generalizing bs with
  | zero =>
    rw [length_eq_zero_iff.mp (Nat.le_zero.mp h)]
    exact Nat.one_pos
  | succ count ih =>
    rw [leBound]
    cases bs with
    | nil =>
      grind
    | cons b bs =>
      have hb := b.toNat_lt
      have hrest := ih (Nat.le_of_succ_le_succ h)
      rw [leNat]
      omega

theorem leNat_injective {bs bs' : List UInt8} (hlen : bs.length = bs'.length)
    (h : leNat bs = leNat bs') : bs = bs' := by
  induction bs generalizing bs' with
  | nil => exact (length_eq_zero_iff.mp hlen.symm).symm
  | cons b bs ih =>
    cases bs' with
    | nil => cases hlen
    | cons b' bs' =>
      have hb := b.toNat_lt
      have hb' := b'.toNat_lt
      rw [leNat, leNat] at h
      have hhead : b.toNat = b'.toNat := by omega
      have htail : leNat bs = leNat bs' := by omega
      rw [UInt8.toNat_inj.mp hhead, ih (Nat.succ.inj hlen) htail]

theorem leBytes_zero (count : Nat) : leBytes count 0 = List.replicate count 0 := by
  induction count with
  | zero => rfl
  | succ count ih =>
    rw [leBytes, ih]
    rfl

theorem leBytes_leNat {bytes : List UInt8} {count : Nat} (h : bytes.length ≤ count) :
    leBytes count (leNat bytes) = bytes ++ List.replicate (count - bytes.length) 0 := by
  induction bytes generalizing count with
  | nil => exact leBytes_zero count
  | cons b bytes ih =>
    obtain ⟨count, rfl⟩ := Nat.exists_eq_add_one_of_ne_zero (Nat.ne_zero_of_lt h)
    have hb := b.toNat_lt
    have hfirst : UInt8.ofNat (b.toNat + 256 * leNat bytes) = b := by
      apply UInt8.toNat_inj.mp
      rw [UInt8.toNat_ofNat']
      omega
    rw [leNat, leBytes, hfirst, show (b.toNat + 256 * leNat bytes) / 256 = leNat bytes by omega,
      ih (Nat.le_of_succ_le_succ h), length_cons, Nat.add_sub_add_right, cons_append]

/-! ## Records of numbers -/

/-- Fields of so many bytes and these values, without gaps. -/
def packed (fields : List (Nat × Nat)) : List UInt8 :=
  fields.flatMap fun field => leBytes field.1 field.2

def offset : (fields : List (Nat × Nat)) → (i : Nat) → Nat
  | field :: fields, i + 1 => field.1 + offset fields i
  | _, _ => 0

def leAt (buf : List UInt8) (off count : Nat) : Nat := leNat ((buf.drop off).take count)

theorem leAt_packed {fields : List (Nat × Nat)} {i count v : Nat} (h : fields[i]? = some (count, v))
    (hv : v < leBound count) (rest : List UInt8) :
    leAt (packed fields ++ rest) (offset fields i) count = v := by
  induction fields generalizing i with
  | nil => cases h
  | cons field fields ih =>
    rw [packed, flatMap_cons, append_assoc]
    cases i with
    | zero =>
      cases h
      show leNat ((leBytes count v ++ _).take count) = v
      rw [take_left' (length_leBytes count v), leNat_leBytes hv]
    | succ i =>
      rw [← ih h, leAt, offset, drop_append, drop_eq_nil_of_le (by simp), length_leBytes,
        Nat.add_sub_cancel_left]
      rfl

end Rcard
