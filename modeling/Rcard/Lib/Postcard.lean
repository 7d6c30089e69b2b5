/-
The postcard wire format.

A reader takes what it reads off the front of its input, and fails if that is malformed.
`Reads r bytes a` says that `r` takes exactly `bytes`, whatever is behind them, and reads `a`.
Lengths are those of a machine with words of 64 bits.
-/
import Rcard.Lib.Varint

namespace Rcard.Postcard

open List Varint

variable {α β : Type} {w : Nat}

def Read (α : Type) : Type := List UInt8 → Option (α × List UInt8)

namespace Read

def map (f : α → β) (r : Read α) : Read β := fun bytes => (r bytes).map fun p => (f p.1, p.2)

def andThen (r : Read α) (k : α → Read β) : Read β := fun bytes =>
  (r bytes).bind fun p => k p.1 p.2

def done (a : α) : Read α := fun bytes => some (a, bytes)

def fail : Read α := fun _ => none

def times (r : Read α) : Nat → Read (List α)
  | 0 => done []
  | n + 1 => r.andThen fun a => (times r n).map (a :: ·)

end Read

def Reads (r : Read α) (bytes : List UInt8) (a : α) : Prop :=
  ∀ rest, r (bytes ++ rest) = some (a, rest)

namespace Reads

variable {r : Read α} {bytes bytes' : List UInt8} {a : α} {b : β}

theorem done (a : α) : Reads (.done a) [] a := fun _ => rfl

theorem map (h : Reads r bytes a) (f : α → β) : Reads (r.map f) bytes (f a) := by
  intro rest
  rw [Read.map, h rest]
  rfl

theorem andThen {k : α → Read β} (h : Reads r bytes a) (hk : Reads (k a) bytes' b) :
    Reads (r.andThen k) (bytes ++ bytes') b := by
  intro rest
  rw [Read.andThen, append_assoc, h (bytes' ++ rest)]
  exact hk rest

/-- Nothing is left behind a whole input. -/
theorem eq_some (h : Reads r bytes a) : r bytes = some (a, []) := by
  have hall := h []
  rwa [append_nil] at hall

end Reads

/-! ## Bytes -/

def pop : Read UInt8
  | [] => none
  | b :: bytes => some (b, bytes)

theorem reads_pop (b : UInt8) : Reads pop [b] b := fun _ => rfl

def bool (b : Bool) : List UInt8 := [if b then 1 else 0]

def takeBool : Read Bool :=
  pop.andThen fun b => if b = 0 then .done false else if b = 1 then .done true else .fail

theorem reads_bool (b : Bool) : Reads takeBool (bool b) b := by
  cases b
  · exact (reads_pop 0).andThen (.done false)
  · exact (reads_pop 1).andThen (.done true)

def takeOption (r : Read α) : Read (Option α) :=
  takeBool.andThen fun present => if present then r.map some else .done none

theorem reads_none (r : Read α) : Reads (takeOption r) [0] none :=
  (reads_bool false).andThen (.done none)

theorem reads_some {r : Read α} {bytes : List UInt8} {a : α} (h : Reads r bytes a) :
    Reads (takeOption r) (1 :: bytes) (some a) := (reads_bool true).andThen (h.map some)

/-! ## Numbers -/

def varintMax (w : Nat) : Nat := (w + 6) / 7

def maxOfLastByte (w : Nat) : Nat := 2 ^ (w % 7) - 1

def varint (v : BitVec w) : List UInt8 := encode (varintMax w) v.toNat

/-- At most so many bytes, onto what has been read. -/
def takeVarintFrom : (left : Nat) → (acc : BitVec w) → (shift : Nat) → Read (BitVec w)
  | 0, _, _ => .fail
  | left + 1, acc, shift => pop.andThen fun b =>
    if b &&& 0x80 = 0 then
      if left = 0 ∧ maxOfLastByte w < b.toNat then .fail
      else .done (accumulate acc shift b)
    else takeVarintFrom left (accumulate acc shift b) (shift + 7)

def takeVarint (w : Nat) : Read (BitVec w) := takeVarintFrom (varintMax w) 0 0

theorem lt_pow_varintMax {v : Nat} (h : v < 2 ^ w) : v < 128 ^ varintMax w := by
  refine Nat.lt_of_lt_of_le h ?_
  rw [show (128 : Nat) = 2 ^ 7 from rfl, ← Nat.pow_mul]
  refine Nat.pow_le_pow_right (by decide) ?_
  rw [varintMax]
  omega

/-- The byte with the highest bits is not more than these bits can be. -/
theorem le_maxOfLastByte {v left shift : Nat} {b : UInt8} (hw : w % 7 ≠ 0) (hv : v < 2 ^ w)
    (hshift : shift + 7 * left = 7 * varintMax w) (hlast : left = 1)
    (hb : b.toNat * 2 ^ shift ≤ v) : b.toNat ≤ maxOfLastByte w := by
  have hsplit : shift + w % 7 = w := by
    rw [varintMax] at hshift
    omega
  have hlt : b.toNat * 2 ^ shift < 2 ^ (w % 7) * 2 ^ shift := by
    rw [← Nat.pow_add, Nat.add_comm, hsplit]
    omega
  have hbyte := Nat.lt_of_mul_lt_mul_right hlt
  rw [maxOfLastByte]
  omega

theorem reads_varint (hw : w % 7 ≠ 0) (v : BitVec w) : Reads (takeVarint w) (varint v) v := by
  have hpos : 0 < varintMax w := by
    rw [varintMax]
    omega
  refine encode_induct (P := fun acc shift bytes => ∀ left,
    shift + 7 * left = 7 * varintMax w → Reads (takeVarintFrom left acc shift) bytes v)
    ?_ ?_ (by omega) v.isLt hpos (lt_pow_varintMax v.isLt) _ (by omega)
  · intro acc shift b hshift hend hb hacc left hleft
    obtain ⟨left, rfl⟩ : ∃ n, left = n + 1 := by
      refine Nat.exists_eq_add_one_of_ne_zero ?_
      rw [varintMax] at hleft
      omega
    refine (reads_pop b).andThen ?_
    rw [if_pos hend, if_neg, hacc, BitVec.ofNat_toNat, BitVec.setWidth_eq]
    · exact .done v
    · rintro ⟨rfl, hlarge⟩
      exact Nat.not_le.mpr hlarge (le_maxOfLastByte hw v.isLt hleft rfl hb)
  · intro acc shift b bytes hshift hmore hrest left hleft
    obtain ⟨left, rfl⟩ : ∃ n, left = n + 1 := by
      refine Nat.exists_eq_add_one_of_ne_zero ?_
      rw [varintMax] at hleft
      omega
    have hnext := hrest left (by omega)
    refine (reads_pop b).andThen ?_
    rw [if_neg hmore]
    exact hnext

/-- One byte is written as it is. -/
def uint (v : BitVec w) : List UInt8 := if w = 8 then [UInt8.ofNat v.toNat] else varint v

def takeUint (w : Nat) : Read (BitVec w) :=
  if w = 8 then pop.map fun b => BitVec.ofNat w b.toNat else takeVarint w

theorem reads_uint (hw : w = 8 ∨ w % 7 ≠ 0) (v : BitVec w) : Reads (takeUint w) (uint v) v := by
  rw [takeUint, uint]
  split
  · rename_i height
    have hbyte : BitVec.ofNat w (UInt8.ofNat v.toNat).toNat = v := by
      subst height
      rw [UInt8.toNat_ofNat', Nat.mod_eq_of_lt v.isLt, BitVec.ofNat_toNat, BitVec.setWidth_eq]
    grind [Reads, Read.map, pop]
  · exact reads_varint (by omega) v

def int (v : BitVec w) : List UInt8 :=
  if w = 8 then [UInt8.ofNat v.toNat] else varint (zigzag v)

def takeInt (w : Nat) : Read (BitVec w) :=
  if w = 8 then pop.map fun b => BitVec.ofNat w b.toNat else (takeVarint w).map unzigzag

theorem reads_int (hw : w = 8 ∨ w % 7 ≠ 0) (v : BitVec w) : Reads (takeInt w) (int v) v := by
  by_cases height : w = 8
  · have hread := reads_uint (.inl height) v
    rw [takeUint, uint, if_pos height, if_pos height] at hread
    rw [takeInt, int, if_pos height, if_pos height]
    exact hread
  · have hread := (reads_varint (by omega) (zigzag v)).map unzigzag
    rw [unzigzag_zigzag] at hread
    rw [takeInt, int, if_neg height, if_neg height]
    exact hread

/-! ## Strings -/

def length (n : Nat) : List UInt8 := varint (BitVec.ofNat 64 n)

def takeLength : Read Nat := (takeVarint 64).map BitVec.toNat

theorem reads_length {n : Nat} (h : n < 2 ^ 64) : Reads takeLength (length n) n := by
  have hread := (reads_varint (by decide) (BitVec.ofNat 64 n)).map BitVec.toNat
  rwa [BitVec.toNat_ofNat, Nat.mod_eq_of_lt h] at hread

def takeN (n : Nat) : Read (List UInt8) := fun bytes =>
  if bytes.length < n then none else some (bytes.take n, bytes.drop n)

theorem reads_takeN (bytes : List UInt8) : Reads (takeN bytes.length) bytes bytes := by
  intro rest
  rw [takeN, if_neg (by simp), take_left, drop_left]

def bytes (b : List UInt8) : List UInt8 := length b.length ++ b

def takeBytes : Read (List UInt8) := takeLength.andThen takeN

theorem reads_bytes {b : List UInt8} (h : b.length < 2 ^ 64) : Reads takeBytes (bytes b) b :=
  (reads_length h).andThen (reads_takeN b)

def char (c : Char) : List UInt8 := bytes (String.utf8EncodeChar c)

/-- The first character of what must be text. -/
def firstChar (b : List UInt8) : Read Char :=
  match String.fromUTF8? b.toByteArray with
  | none => .fail
  | some text =>
    match text.toList with
    | [] => .fail
    | c :: _ => .done c

def takeChar : Read Char :=
  takeLength.andThen fun n => if 4 < n then .fail else (takeN n).andThen firstChar

theorem reads_firstChar (c : Char) : Reads (firstChar (String.utf8EncodeChar c)) [] c := by
  have hencode : (String.utf8EncodeChar c).toByteArray = [c].utf8Encode := by
    simp [utf8Encode]
  have hvalid : (String.utf8EncodeChar c).toByteArray.IsValidUTF8 := ⟨[c], hencode⟩
  have htext : String.fromUTF8 _ hvalid = String.ofList [c] := by
    apply String.toByteArray_inj.mp
    exact hencode
  rw [firstChar, String.fromUTF8?, dif_pos hvalid]
  dsimp only
  rw [htext, String.toList_ofList]
  exact .done c

theorem reads_char (c : Char) : Reads takeChar (char c) c := by
  have hlen : (String.utf8EncodeChar c).length ≤ 4 := by
    rw [String.length_utf8EncodeChar]
    exact Char.utf8Size_le_four c
  have hread := (reads_takeN (String.utf8EncodeChar c)).andThen (reads_firstChar c)
  rw [append_nil] at hread
  refine (reads_length (by omega)).andThen ?_
  rw [if_neg (Nat.not_lt.mpr hlen)]
  exact hread

end Rcard.Postcard
