/-
Words of four bytes in a memory of bytes, the least significant byte first.
-/
import Mathlib.Data.Nat.Bitwise
import Rcard.Lib.Le
import Rcard.Lib.Mem

namespace Rcard.Word

open Mem

section

variable (m : Nat → UInt8)

def load (a : Nat) : Nat := leNat (slice m a 4)

def store (a v : Nat) : Nat → UInt8 := write m a (leBytes 4 v)

theorem load_lt (a : Nat) : load m a < 2 ^ 32 :=
  leNat_lt_of_le (Nat.le_of_eq (length_slice m a 4))

theorem load_store (a : Nat) {v : Nat} (h : v < 2 ^ 32) : load (store m a v) a = v := by
  have hlen : (leBytes 4 v).length = 4 := length_leBytes 4 v
  have hback := slice_write m a (leBytes 4 v)
  rw [hlen] at hback
  rw [load, store, hback, leNat_leBytes h]

theorem store_of_outside {a i : Nat} (v : Nat) (h : i < a ∨ a + 4 ≤ i) : store m a v i = m i := by
  rcases h with h | h
  · exact write_of_lt m _ h
  · exact write_of_ge m (by rw [length_leBytes]; exact h)

end

theorem load_congr {m m' : Nat → UInt8} {a : Nat} (h : ∀ i, a ≤ i → i < a + 4 → m' i = m i) :
    load m' a = load m a := by
  rw [load, load, slice_eq_iff.mpr fun k hk => h (a + k) (by omega) (by omega)]

theorem load_store_of_disjoint (m : Nat → UInt8) {a b : Nat} (v : Nat)
    (h : b + 4 ≤ a ∨ a + 4 ≤ b) : load (store m a v) b = load m b :=
  load_congr fun i _ _ => store_of_outside m v (by omega)

theorem store_load (m m' : Nat → UInt8) (s d : Nat) :
    store m d (load m' s) = write m d (slice m' s 4) := by
  rw [store, load, leBytes_leNat (Nat.le_of_eq (length_slice m' s 4)), length_slice]
  exact congrArg (write m d) (List.append_nil _)

end Rcard.Word
