/-
Consistent overhead byte stuffing.

An encoding is a sequence of blocks.  A block is a code `n + 1` and then `n` bytes
that are not zero.  Between two blocks stands a zero, unless the first of them is
full, with 254 bytes.  No byte of an encoding is zero.

`Cobs` says what a framing layer needs of an encoder and a decoder.  `standard` is
the plain one.
-/
import Mathlib.Data.List.Basic

namespace Rcard

open List

structure Cobs where
  encode : List UInt8 → List UInt8
  decode : List UInt8 → Option (List UInt8)
  decode_encode : ∀ raw, decode (encode raw) = some raw
  encode_ne_nil : ∀ raw, encode raw ≠ []
  zero_notMem_encode : ∀ raw, 0 ∉ encode raw
  length_encode_le : ∀ raw, (encode raw).length ≤ raw.length + raw.length / 254 + 1

namespace Cobs

def block (bytes : List UInt8) : List UInt8 := UInt8.ofNat (bytes.length + 1) :: bytes

/-- `pending` is the open block. -/
def encodeFrom (pending : List UInt8) : List UInt8 → List UInt8
  | [] => block pending
  | byte :: raw =>
    if byte = 0 then block pending ++ encodeFrom [] raw
    else if pending.length = 253 then block (pending ++ [byte]) ++ encodeFrom [] raw
    else encodeFrom (pending ++ [byte]) raw

/-- One byte for an encoder that emits a block as soon as it is closed: what it emits, and
the open block. -/
def push (pending : List UInt8) (byte : UInt8) : List UInt8 × List UInt8 :=
  if byte = 0 then (block pending, [])
  else if pending.length = 253 then (block (pending ++ [byte]), [])
  else ([], pending ++ [byte])

def feed (pending : List UInt8) : List UInt8 → List UInt8 × List UInt8
  | [] => ([], pending)
  | byte :: raw =>
    ((push pending byte).1 ++ (feed (push pending byte).2 raw).1,
      (feed (push pending byte).2 raw).2)

/-- `left` bytes of the block are to come.  `zero` says if a zero stands before the
next block. -/
def decodeFrom : (left : Nat) → (zero : Bool) → List UInt8 → Option (List UInt8)
  | 0, _, [] => some []
  | _ + 1, _, [] => none
  | 0, zero, code :: bytes =>
    if code = 0 then none
    else (decodeFrom (code.toNat - 1) (code.toNat != 255) bytes).map
      ((if zero then [0] else []) ++ ·)
  | left + 1, zero, byte :: bytes =>
    if byte = 0 then none else (decodeFrom left zero bytes).map (byte :: ·)

theorem decodeFrom_append {bytes rest : List UInt8} (h : 0 ∉ bytes) (zero : Bool) :
    decodeFrom bytes.length zero (bytes ++ rest) = (decodeFrom 0 zero rest).map (bytes ++ ·) := by
  induction bytes with
  | nil => exact Option.map_id'.symm
  | cons byte bytes ih =>
    have hbyte : byte ≠ 0 := fun hzero => h (hzero ▸ mem_cons_self)
    have hbytes : 0 ∉ bytes := fun hmem => h (mem_cons_of_mem _ hmem)
    rw [length_cons, cons_append, decodeFrom, if_neg hbyte, ih hbytes, Option.map_map]
    rfl

section Block

variable {bytes : List UInt8}

theorem toNat_code (h : bytes.length ≤ 254) :
    (UInt8.ofNat (bytes.length + 1)).toNat = bytes.length + 1 := by
  apply UInt8.toNat_ofNat_of_lt'
  show bytes.length + 1 < 256
  omega

theorem code_ne_zero (h : bytes.length ≤ 254) : UInt8.ofNat (bytes.length + 1) ≠ 0 := by
  intro hzero
  have hcode := toNat_code h
  rw [hzero] at hcode
  exact Nat.succ_ne_zero _ hcode.symm

theorem decodeFrom_block (h : 0 ∉ bytes) (hlen : bytes.length ≤ 254) (zero : Bool)
    (rest : List UInt8) : decodeFrom 0 zero (block bytes ++ rest) =
      (decodeFrom 0 (bytes.length + 1 != 255) rest).map
        ((if zero then [0] else []) ++ bytes ++ ·) := by
  rw [block, cons_append, decodeFrom, if_neg (code_ne_zero hlen), toNat_code hlen,
    Nat.add_sub_cancel, decodeFrom_append h, Option.map_map]
  simp only [Function.comp_def, append_assoc]

theorem zero_notMem_block (h : 0 ∉ bytes) (hlen : bytes.length ≤ 254) : 0 ∉ block bytes := by
  intro hmem
  rcases mem_cons.mp hmem with hcode | hbytes
  · exact code_ne_zero hlen hcode.symm
  · exact h hbytes

end Block

-- The inductions are on what is left to encode; the open block has room for one byte.
variable {pending : List UInt8}

theorem decodeFrom_encodeFrom (h : 0 ∉ pending) (hlen : pending.length ≤ 253) (zero : Bool)
    (raw : List UInt8) :
    decodeFrom 0 zero (encodeFrom pending raw) =
      some ((if zero then [0] else []) ++ pending ++ raw) := by
  induction raw generalizing pending zero with
  | nil =>
    have hblock := decodeFrom_block h (by omega) zero []
    rw [append_nil] at hblock
    rw [encodeFrom, hblock]
    simp [decodeFrom]
  | cons byte raw ih =>
    rw [encodeFrom]
    by_cases hbyte : byte = 0
    · have hopen : (pending.length + 1 != 255) = true := by
        rw [bne_iff_ne]
        omega
      rw [if_pos hbyte, decodeFrom_block h (by omega), hopen, ih not_mem_nil (by decide)]
      simp [hbyte]
    · have hpending : 0 ∉ pending ++ [byte] := by
        simp [h, Ne.symm hbyte]
      rw [if_neg hbyte]
      by_cases hfull : pending.length = 253
      · have hlen' : (pending ++ [byte]).length = 254 := by
          rw [length_append, hfull]
          rfl
        rw [if_pos hfull, decodeFrom_block hpending (by omega), hlen', ih not_mem_nil (by decide)]
        simp
      · rw [if_neg hfull, ih hpending (by simp; omega)]
        simp

theorem encodeFrom_cons (pending : List UInt8) (byte : UInt8) (raw : List UInt8) :
    encodeFrom pending (byte :: raw) =
      (push pending byte).1 ++ encodeFrom (push pending byte).2 raw := by
  rw [encodeFrom, push]
  split
  · rfl
  · split
    · rfl
    · rfl

theorem length_push_le (hlen : pending.length ≤ 253) (byte : UInt8) :
    (push pending byte).2.length ≤ 253 := by
  grind [push]

theorem length_feed_le (hlen : pending.length ≤ 253) (raw : List UInt8) :
    (feed pending raw).2.length ≤ 253 := by
  induction raw generalizing pending with
  | nil => exact hlen
  | cons byte raw ih => exact ih (length_push_le hlen byte)

theorem feed_append (pending raw raw' : List UInt8) :
    feed pending (raw ++ raw') =
      ((feed pending raw).1 ++ (feed (feed pending raw).2 raw').1,
        (feed (feed pending raw).2 raw').2) := by
  induction raw generalizing pending with
  | nil => rfl
  | cons byte raw ih => rw [cons_append, feed, ih, feed, append_assoc]

/-- Closing the open block ends the encoding. -/
theorem encodeFrom_eq_feed (pending raw : List UInt8) :
    encodeFrom pending raw = (feed pending raw).1 ++ block (feed pending raw).2 := by
  induction raw generalizing pending with
  | nil => rfl
  | cons byte raw ih => rw [encodeFrom_cons, ih, feed, append_assoc]

theorem encodeFrom_ne_nil (pending raw : List UInt8) : encodeFrom pending raw ≠ [] := by
  induction raw generalizing pending with
  | nil => exact cons_ne_nil _ _
  | cons byte raw ih =>
    grind [block, encodeFrom]

theorem zero_notMem_encodeFrom (h : 0 ∉ pending) (hlen : pending.length ≤ 253) (raw : List UInt8) :
    0 ∉ encodeFrom pending raw := by
  induction raw generalizing pending with
  | nil => exact zero_notMem_block h (by omega)
  | cons byte raw ih =>
    rw [encodeFrom]
    by_cases hbyte : byte = 0
    · rw [if_pos hbyte]
      exact not_mem_append (zero_notMem_block h (by omega)) (ih not_mem_nil (by decide))
    · have hpending : 0 ∉ pending ++ [byte] := by
        simp [h, Ne.symm hbyte]
      rw [if_neg hbyte]
      split
      · exact not_mem_append (zero_notMem_block hpending (by simp; omega))
          (ih not_mem_nil (by decide))
      · exact ih hpending (by simp; omega)

theorem length_encodeFrom_le (hlen : pending.length ≤ 253) (raw : List UInt8) :
    (encodeFrom pending raw).length ≤
      pending.length + raw.length + (pending.length + raw.length) / 254 + 1 := by
  induction raw generalizing pending with
  | nil =>
    show pending.length + 1 ≤ _
    omega
  | cons byte raw ih =>
    have hempty := ih (show ([] : List UInt8).length ≤ 253 by decide)
    rw [length_nil] at hempty
    rw [encodeFrom, length_cons]
    split
    · rw [length_append, block, length_cons]
      omega
    · split
      · grind [block]
      grind

def standard : Cobs where
  encode := encodeFrom []
  decode := decodeFrom 0 false
  decode_encode := decodeFrom_encodeFrom not_mem_nil (by decide) false
  encode_ne_nil := encodeFrom_ne_nil []
  zero_notMem_encode := zero_notMem_encodeFrom not_mem_nil (by decide)
  length_encode_le := by
    intro raw
    have h := length_encodeFrom_le (show ([] : List UInt8).length ≤ 253 by decide) raw
    rwa [length_nil, Nat.zero_add] at h

end Cobs
end Rcard
