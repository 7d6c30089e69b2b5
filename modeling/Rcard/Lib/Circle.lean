/-
Circular buffers.

A buffer of `n` positions is used round its end, so a run of values from some position
is in two pieces at most.  `read` and `write` copy the pieces.  `slice` is the run they
are about, and what is written behind a run leaves it alone as long as both fit the
buffer.
-/
import Rcard.Lib.Mem

namespace Rcard.Circle

open List

variable {α : Type} {n : Nat}

/-- The `len` values from `start` on, round the end. -/
def slice (m : Nat → α) (n start len : Nat) : List α :=
  (List.range len).map fun i => m ((start + i) % n)

def read (m : Nat → α) (n start len : Nat) : List α :=
  let first := min (n - start) len
  Mem.slice m start first ++ Mem.slice m 0 (len - first)

def write (m : Nat → α) (n start : Nat) (values : List α) : Nat → α :=
  let first := min (n - start) values.length
  Mem.write (Mem.write m start (values.take first)) 0 (values.drop first)

variable {start : Nat} {values : List α}

@[simp] theorem length_slice (m : Nat → α) (n start len : Nat) :
    (slice m n start len).length = len := by
  simp [slice]

theorem slice_eq_iff {m m' : Nat → α} {start' len : Nat} :
    slice m n start len = slice m' n start' len ↔
      ∀ i < len, m ((start + i) % n) = m' ((start' + i) % n) := by
  simp [slice]

section

variable (m : Nat → α)

theorem slice_add (n start a b : Nat) :
    slice m n start (a + b) = slice m n start a ++ slice m n (start + a) b := by
  simp [slice, range_add, Nat.add_assoc]

theorem slice_mod (n start len : Nat) : slice m n (start % n) len = slice m n start len :=
  slice_eq_iff.mpr fun i _ => by rw [Nat.mod_add_mod]

theorem slice_of_le {len : Nat} (h : start + len ≤ n) :
    slice m n start len = Mem.slice m start len := by
  refine map_congr_left fun i hi => ?_
  have hi := mem_range.mp hi
  rw [Nat.mod_eq_of_lt (by omega)]

theorem read_eq_slice {len : Nat} (hstart : start < n) (hlen : len ≤ n) :
    read m n start len = slice m n start len := by
  rw [read]
  by_cases hend : start + len ≤ n
  · rw [Nat.min_eq_right (by omega), Nat.sub_self, slice_of_le m hend]
    exact append_nil _
  · have hsplit : len = (n - start) + (len - (n - start)) := by omega
    have hround : slice m n (start + (n - start)) (len - (n - start)) =
        slice m n 0 (len - (n - start)) := by
      rw [← slice_mod, show start + (n - start) = n by omega, Nat.mod_self]
    rw [Nat.min_eq_left (by omega)]
    conv_rhs => rw [hsplit, slice_add, hround]
    rw [slice_of_le m (by omega), slice_of_le m (by omega)]

/-- Position `k` of the run from `start` on. -/
theorem write_apply {k : Nat} (hstart : start < n) (hlen : values.length ≤ n) (hk : k < n) :
    write m n start values ((start + k) % n) = (values[k]?).getD (m ((start + k) % n)) := by
  rw [write]
  by_cases hend : start + k < n
  · have hsecond : 0 + (values.drop (min (n - start) values.length)).length ≤ start + k := by
      rw [length_drop]
      omega
    rw [Nat.mod_eq_of_lt hend, Mem.write_of_ge _ hsecond, Mem.write]
    grind
  · have hmod : (start + k) % n = start + k - n := by
      rw [Nat.mod_eq_sub_mod (by omega), Nat.mod_eq_of_lt (by omega)]
    grind [Mem.write]

theorem slice_write (hstart : start < n) (hlen : values.length ≤ n) :
    slice (write m n start values) n start values.length = values := by
  apply ext_getElem (length_slice _ _ _ _)
  intro k h₁ h₂
  simp only [slice, getElem_map, getElem_range]
  rw [write_apply m hstart hlen (by omega), getElem?_eq_getElem h₂, Option.getD_some]

/-- A write `y` positions behind `base` leaves a run alone that ends before it. -/
theorem slice_write_of_le {base x y len : Nat} (hbefore : x + len ≤ y)
    (hfit : y + values.length ≤ n) :
    slice (write m n ((base + y) % n) values) n (base + x) len = slice m n (base + x) len := by
  refine slice_eq_iff.mpr fun i hi => ?_
  have hn : 0 < n := by omega
  have hpos : (base + x + i) % n = ((base + y) % n + (n - y + x + i)) % n := by
    rw [Nat.mod_add_mod, show base + y + (n - y + x + i) = base + x + i + n by omega,
      Nat.add_mod_right]
  rw [hpos, write_apply m (Nat.mod_lt _ hn) (by omega) (by omega), getElem?_eq_none (by omega),
    Option.getD_none]

theorem slice_write_behind {base y len : Nat} (hbefore : len ≤ y) (hfit : y + values.length ≤ n) :
    slice (write m n ((base + y) % n) values) n base len = slice m n base len :=
  slice_write_of_le m (x := 0) (by omega) hfit

end

end Rcard.Circle
