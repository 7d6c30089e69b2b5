/-
The inter-core ring (`sysmodule/lcpu/src/circular_buf.rs`).

The ring lies in memory that two processors share.  Each index is one word that holds a
position in the buffer and mirror bits, which change whenever the position comes round the
end.  Equal positions mean an empty ring if the mirror bits agree and a full one if they
do not.

`put` and `get` are programs of single accesses: those to the fields are the volatile ones
of the source, and those to the buffer are the bytes of its copies.  The fences order the
copies before the store to the index, as the programs do.
-/
import Mathlib.Data.Nat.Bitwise
import Rcard.Lib.Prog

namespace Rcard.CircularBuf

open Prog

/-! ## Index words -/

def cbPtrMirrorMask : Nat := 0xFFFF

def cbPtrIdxOffset : Nat := 16

def cbPtrIdxMask : Nat := 0xFFFF

def cbMakePtrIdxMirror (idx mirror : Nat) : Nat :=
  (idx <<< cbPtrIdxOffset) ||| (mirror &&& cbPtrMirrorMask)

def cbGetPtrIdx (ptrIdxMirror : Nat) : Nat := (ptrIdxMirror >>> cbPtrIdxOffset) &&& cbPtrIdxMask

def cbGetPtrMirror (ptrIdxMirror : Nat) : Nat := ptrIdxMirror &&& cbPtrMirrorMask

inductive CircularBufState where
  | empty
  | full
  | halfFull
  deriving DecidableEq, Repr

def circularBufStatus (rdPtr wrPtr : Nat) : CircularBufState :=
  if cbGetPtrIdx rdPtr = cbGetPtrIdx wrPtr then
    if cbGetPtrMirror rdPtr = cbGetPtrMirror wrPtr then .empty else .full
  else .halfFull

/-- `as u16`. -/
def asU16 (x : Nat) : Nat := x % 2 ^ 16

def flipMirror (mirror : Nat) : Nat := (mirror ^^^ 0xFFFF) &&& 0xFFFF

/-! ## The shared memory -/

/-- The fields, and the buffer behind both pointers: each processor sees it at an address
of its own. -/
structure Ring where
  rdBufferPtr : Nat
  wrBufferPtr : Nat
  readIdxMirror : Nat
  writeIdxMirror : Nat
  /-- An `i16`. -/
  bufferSize : Int
  data : Nat → UInt8

inductive Access where
  | rdBufferPtr
  | wrBufferPtr
  | readIdxMirror
  | writeIdxMirror
  | bufferSize
  | setReadIdxMirror (v : Nat)
  | setWriteIdxMirror (v : Nat)
  /-- A byte at an offset from the buffer pointer. -/
  | load (i : Nat)
  | store (i : Nat) (b : UInt8)
  deriving DecidableEq, Repr

abbrev Access.Answer : Access → Type
  | rdBufferPtr => Nat
  | wrBufferPtr => Nat
  | readIdxMirror => Nat
  | writeIdxMirror => Nat
  | bufferSize => Int
  | setReadIdxMirror _ => Unit
  | setWriteIdxMirror _ => Unit
  | load _ => UInt8
  | store _ _ => Unit

abbrev RingProg := Prog Access Access.Answer

def exec (r : Ring) : (a : Access) → Ring × a.Answer
  | .rdBufferPtr => (r, r.rdBufferPtr)
  | .wrBufferPtr => (r, r.wrBufferPtr)
  | .readIdxMirror => (r, r.readIdxMirror)
  | .writeIdxMirror => (r, r.writeIdxMirror)
  | .bufferSize => (r, r.bufferSize)
  | .setReadIdxMirror v => ({ r with readIdxMirror := v }, ())
  | .setWriteIdxMirror v => ({ r with writeIdxMirror := v }, ())
  | .load i => (r, r.data i)
  | .store i b => ({ r with data := Function.update r.data i b }, ())

def rdBufferPtr : RingProg Nat := perform Access.rdBufferPtr

def wrBufferPtr : RingProg Nat := perform Access.wrBufferPtr

def readIdxMirror : RingProg Nat := perform Access.readIdxMirror

def writeIdxMirror : RingProg Nat := perform Access.writeIdxMirror

def setReadIdxMirror (v : Nat) : RingProg Unit := perform (Access.setReadIdxMirror v)

def setWriteIdxMirror (v : Nat) : RingProg Unit := perform (Access.setWriteIdxMirror v)

def loadByte (i : Nat) : RingProg UInt8 := perform (Access.load i)

def storeByte (i : Nat) (b : UInt8) : RingProg Unit := perform (Access.store i b)

/-- `(size as i32).max(0) as usize`. -/
def bufferSize : RingProg Nat := act Access.bufferSize fun size => return size.toNat

/-! ## Lengths -/

/-- How many bytes two index words say are in the ring. -/
def lenOf (bufSize rdPtr wrPtr : Nat) : Nat :=
  match circularBufStatus rdPtr wrPtr with
  | .empty => 0
  | .full => bufSize
  | .halfFull =>
    let rdIdx := cbGetPtrIdx rdPtr
    let wrIdx := cbGetPtrIdx wrPtr
    let len := if rdIdx < wrIdx then wrIdx - rdIdx else bufSize - (rdIdx - wrIdx)
    min len bufSize

def dataLen : RingProg Nat := do
  let bufSize ← bufferSize
  if bufSize = 0 then return 0
  let rdPtr ← readIdxMirror
  let wrPtr ← writeIdxMirror
  return lenOf bufSize rdPtr wrPtr

def spaceLen : RingProg Nat := do
  let bufSize ← bufferSize
  let len ← dataLen
  return bufSize - len

/-! ## Setting up -/

/-- The size loses its low two bits, so that it is a multiple of four. -/
def wrInit (r : Ring) (pool : Nat) (size : Int) : Ring :=
  { r with
    readIdxMirror := 0
    writeIdxMirror := 0
    wrBufferPtr := pool
    bufferSize := size / 4 * 4 }

def rdInit (r : Ring) (pool : Nat) : Ring := { r with rdBufferPtr := pool }

/-! ## Transfers -/

/-- `copy_nonoverlapping` into the buffer. -/
def storeBytes : (i : Nat) → List UInt8 → RingProg Unit
  | _, [] => return ()
  | i, b :: bytes => do
      storeByte i b
      storeBytes (i + 1) bytes

/-- `copy_nonoverlapping` out of the buffer. -/
def loadBytes : (i n : Nat) → RingProg (List UInt8)
  | _, 0 => return []
  | i, n + 1 => do
      let b ← loadByte i
      let bytes ← loadBytes (i + 1) n
      return b :: bytes

def put (data : List UInt8) : RingProg Nat := do
  if data.length = 0 then return 0
  let bufSize ← bufferSize
  if bufSize = 0 then return 0
  let space ← spaceLen
  if space = 0 then return 0
  let length := if space < data.length then space else data.length
  let word ← writeIdxMirror
  let wrIdx := cbGetPtrIdx word
  let wrMirror := cbGetPtrMirror word
  let _ ← wrBufferPtr
  if bufSize < wrIdx then return 0
  if length < bufSize - wrIdx then
    storeBytes wrIdx (data.take length)
    setWriteIdxMirror (cbMakePtrIdxMirror (asU16 (wrIdx + length)) wrMirror)
    return length
  let first := bufSize - wrIdx
  let second := length - first
  storeBytes wrIdx (data.take first)
  storeBytes 0 ((data.drop first).take second)
  setWriteIdxMirror (cbMakePtrIdxMirror (asU16 second) (flipMirror wrMirror))
  return length

/-- `get` with a buffer of `outLen` bytes, of which it returns those it has filled. -/
def get (outLen : Nat) : RingProg (List UInt8) := do
  if outLen = 0 then return []
  let size ← dataLen
  if size = 0 then return []
  let length := if size < outLen then size else outLen
  let word ← readIdxMirror
  let rdIdx := cbGetPtrIdx word
  let rdMirror := cbGetPtrMirror word
  let bufSize ← bufferSize
  let pool ← rdBufferPtr
  if bufSize = 0 ∨ pool = 0 ∨ bufSize < rdIdx then return []
  if length < bufSize - rdIdx then
    let out ← loadBytes rdIdx length
    setReadIdxMirror (cbMakePtrIdxMirror (asU16 (rdIdx + length)) rdMirror)
    return out
  let first := bufSize - rdIdx
  let second := length - first
  let out ← loadBytes rdIdx first
  let rest ← loadBytes 0 second
  setReadIdxMirror (cbMakePtrIdxMirror (asU16 second) (flipMirror rdMirror))
  return out ++ rest

/-! ## Words as counters -/

theorem cbMakePtrIdxMirror_eq (idx mirror : Nat) :
    cbMakePtrIdxMirror idx mirror = idx * 2 ^ 16 + mirror % 2 ^ 16 := by
  have hlow : mirror &&& 0xFFFF = mirror % 2 ^ 16 := Nat.and_two_pow_sub_one_eq_mod mirror 16
  rw [cbMakePtrIdxMirror, cbPtrMirrorMask, cbPtrIdxOffset, hlow,
    ← Nat.shiftLeft_add_eq_or_of_lt (Nat.mod_lt mirror (Nat.two_pow_pos 16)), Nat.shiftLeft_eq]

theorem cbGetPtrIdx_make {idx : Nat} (h : idx < 2 ^ 16) (mirror : Nat) :
    cbGetPtrIdx (cbMakePtrIdxMirror idx mirror) = idx := by
  have hlow (x : Nat) : x &&& 0xFFFF = x % 2 ^ 16 := Nat.and_two_pow_sub_one_eq_mod x 16
  rw [cbGetPtrIdx, cbPtrIdxMask, cbPtrIdxOffset, hlow, cbMakePtrIdxMirror_eq]
  omega

theorem cbGetPtrMirror_make (idx : Nat) {mirror : Nat} (h : mirror < 2 ^ 16) :
    cbGetPtrMirror (cbMakePtrIdxMirror idx mirror) = mirror := by
  have hlow (x : Nat) : x &&& 0xFFFF = x % 2 ^ 16 := Nat.and_two_pow_sub_one_eq_mod x 16
  rw [cbGetPtrMirror, cbPtrMirrorMask, hlow, cbMakePtrIdxMirror_eq]
  omega

/-- The mirror bits of a count. -/
def mirrorOf (n count : Nat) : Nat := if count / n % 2 = 0 then 0 else 0xFFFF

/-- The word for a count of bytes since the start, in a buffer of `n`. -/
def wordOf (n count : Nat) : Nat := cbMakePtrIdxMirror (count % n) (mirrorOf n count)

theorem mirrorOf_lt (n count : Nat) : mirrorOf n count < 2 ^ 16 := by
  rw [mirrorOf]
  split <;> omega

section Counters

variable {n r w len : Nat}

theorem idx_wordOf (hn : 0 < n) (hmax : n ≤ 2 ^ 16) (count : Nat) :
    cbGetPtrIdx (wordOf n count) = count % n :=
  cbGetPtrIdx_make (Nat.lt_of_lt_of_le (Nat.mod_lt count hn) hmax) _

theorem mirror_wordOf (n count : Nat) : cbGetPtrMirror (wordOf n count) = mirrorOf n count :=
  cbGetPtrMirror_make _ (mirrorOf_lt n count)

/-- A count that is at most a whole buffer ahead of another is in the same round, or in
the next one at a position that is not behind. -/
theorem same_round_or_next (hn : 0 < n) (hle : r ≤ w) (hfit : w ≤ r + n) :
    (w / n = r / n ∧ w - r = w % n - r % n ∧ r % n ≤ w % n) ∨
      (w / n = r / n + 1 ∧ w - r = n - (r % n - w % n) ∧ w % n ≤ r % n) := by
  have hlow : r / n ≤ w / n := Nat.div_le_div_right hle
  have hhigh : w / n ≤ r / n + 1 := by
    rw [← Nat.add_div_right r hn]
    exact Nat.div_le_div_right hfit
  have hr := Nat.div_add_mod r n
  have hw := Nat.div_add_mod w n
  rcases Nat.lt_or_ge (r / n) (w / n) with hnext | hsame
  · have hround : w / n = r / n + 1 := by omega
    rw [hround, Nat.mul_succ] at hw
    exact .inr ⟨hround, by omega, by omega⟩
  grind

theorem mirrorOf_eq_iff (n r w : Nat) : mirrorOf n r = mirrorOf n w ↔ r / n % 2 = w / n % 2 := by
  rw [mirrorOf, mirrorOf]
  split <;> split <;> omega

/-- The words of two counts tell how many bytes are between them. -/
theorem lenOf_wordOf (hn : 0 < n) (hmax : n ≤ 2 ^ 16) (hle : r ≤ w) (hfit : w ≤ r + n) :
    lenOf n (wordOf n r) (wordOf n w) = w - r := by
  rw [lenOf, circularBufStatus, idx_wordOf hn hmax, idx_wordOf hn hmax, mirror_wordOf,
    mirror_wordOf]
  simp only [mirrorOf_eq_iff]
  rcases same_round_or_next hn hle hfit with ⟨hround, hlen, hpos⟩ | ⟨hround, hlen, hpos⟩
  · grind
  grind

/-- The word for a count that stays in its round. -/
theorem wordOf_add (hn : 0 < n) (hmax : n ≤ 2 ^ 16) (hlen : len < n - w % n) :
    cbMakePtrIdxMirror (asU16 (w % n + len)) (mirrorOf n w) = wordOf n (w + len) := by
  have hw := Nat.div_add_mod w n
  obtain ⟨hdiv, hmod⟩ : (w + len) / n = w / n ∧ (w + len) % n = w % n + len :=
    (Nat.div_mod_unique hn).mpr ⟨by omega, by omega⟩
  rw [wordOf, hmod, asU16, Nat.mod_eq_of_lt (by omega), mirrorOf, mirrorOf, hdiv]

theorem flipMirror_mirrorOf (n count : Nat) :
    flipMirror (mirrorOf n count) = if (count / n + 1) % 2 = 0 then 0 else 0xFFFF := by
  grind [flipMirror, mirrorOf]

/-- The word for a count that comes round the end. -/
theorem wordOf_wrap (hn : 0 < n) (hmax : n ≤ 2 ^ 16) (hlow : n - w % n ≤ len) (hlen : len ≤ n) :
    cbMakePtrIdxMirror (asU16 (len - (n - w % n))) (flipMirror (mirrorOf n w)) =
      wordOf n (w + len) := by
  have hw := Nat.div_add_mod w n
  have hwn := Nat.mod_lt w hn
  obtain ⟨hdiv, hmod⟩ : (w + len) / n = w / n + 1 ∧ (w + len) % n = len - (n - w % n) :=
    (Nat.div_mod_unique hn).mpr ⟨by rw [Nat.mul_succ]; omega, by omega⟩
  rw [wordOf, hmod, asU16, Nat.mod_eq_of_lt (by omega), flipMirror_mirrorOf, mirrorOf, hdiv]

end Counters

end Rcard.CircularBuf
