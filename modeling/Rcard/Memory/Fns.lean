/-
The byte-copy primitives of the firmware (`modules/memfns/src/lib.rs`).

The functions replace those of the compiler's runtime.  They copy single bytes until the
destination is aligned, then words if the source is aligned as well, then the bytes that
are left.  Each is a program of single accesses to a memory of bytes.  Addresses do not
wrap round, so they are natural numbers.

`copyWithin` and `fill` say what the functions are for.  A copy from the front is right
when it moves down or when the ranges do not overlap, whatever the size of its steps
(`Forward`), and that is when `memmove` takes it.
-/
import Rcard.Lib.Prog
import Rcard.Lib.Word

namespace Rcard.Memfns

open Mem Prog Does Safe

inductive Access where
  | read (a : Nat)
  | write (a : Nat) (b : UInt8)
  | readWord (a : Nat)
  | writeWord (a w : Nat)
  deriving DecidableEq, Repr

abbrev Access.Answer : Access → Type
  | read _ => UInt8
  | write _ _ => Unit
  | readWord _ => Nat
  | writeWord _ _ => Unit

abbrev Code := Prog Access Access.Answer

def exec (m : Nat → UInt8) : (a : Access) → (Nat → UInt8) × a.Answer
  | .read a => (m, m a)
  | .write a b => (Function.update m a b, ())
  | .readWord a => (m, Word.load m a)
  | .writeWord a w => (Word.store m a w, ())

def read (a : Nat) : Code UInt8 := perform (Access.read a)

def write (a : Nat) (b : UInt8) : Code Unit := perform (Access.write a b)

def readWord (a : Nat) : Code Nat := perform (Access.readWord a)

def writeWord (a w : Nat) : Code Unit := perform (Access.writeWord a w)

/-! ## `memcpy` -/

/-- `while n > 0`. -/
def copyBytes : (d s n : Nat) → Code Unit
  | _, _, 0 => pure ()
  | d, s, n + 1 => do
      write d (← read s)
      copyBytes (d + 1) (s + 1) n

/-- `while n >= 4`, and the bytes that are left. -/
def copyWords : (d s n : Nat) → Code Unit
  | d, s, n + 4 => do
      writeWord d (← readWord s)
      copyWords (d + 4) (s + 4) n
  | d, s, n => copyBytes d s n

/-- `while n >= 16`, and the words that are left. -/
def copyQuads : (d s n : Nat) → Code Unit
  | dw, sw, n + 16 => do
      let a ← readWord sw
      let b ← readWord (sw + 4)
      let c ← readWord (sw + 8)
      let d ← readWord (sw + 12)
      writeWord dw a
      writeWord (dw + 4) b
      writeWord (dw + 8) c
      writeWord (dw + 12) d
      copyQuads (dw + 16) (sw + 16) n
  | d, s, n => copyWords d s n

def copyAlignedTail (d s n : Nat) : Code Unit :=
  if s &&& 3 = 0 then copyQuads d s n else copyBytes d s n

def aeabiMemcpy : (dest src n : Nat) → Code Unit
  | d, s, 0 => copyAlignedTail d s 0
  | d, s, n + 1 =>
    if d &&& 3 ≠ 0 then do
      write d (← read s)
      aeabiMemcpy (d + 1) (s + 1) n
    else copyAlignedTail d s (n + 1)

def aeabiMemcpy8 (dest src n : Nat) : Code Unit := copyAlignedTail dest src n

def aeabiMemcpy4 (dest src n : Nat) : Code Unit := copyAlignedTail dest src n

def memcpy (dest src n : Nat) : Code Nat := do
  aeabiMemcpy dest src n
  return dest

/-! ## `memmove` -/

/-- The loop from the last byte to the first. -/
def copyBack (dest src : Nat) : (i : Nat) → Code Unit
  | 0 => pure ()
  | i + 1 => do
      write (dest + i) (← read (src + i))
      copyBack dest src i

def aeabiMemmove (dest src n : Nat) : Code Unit :=
  if dest ≤ src then aeabiMemcpy dest src n else copyBack dest src n

def memmove (dest src n : Nat) : Code Nat := do
  aeabiMemmove dest src n
  return dest

/-! ## `memset` -/

def setBytes (byte : UInt8) : (d n : Nat) → Code Unit
  | _, 0 => pure ()
  | d, n + 1 => do
      write d byte
      setBytes byte (d + 1) n

def setWords (byte : UInt8) : (d n : Nat) → Code Unit
  | d, n + 4 => do
      writeWord d (leNat [byte, byte, byte, byte])
      setWords byte (d + 4) n
  | d, n => setBytes byte d n

def setAligned (byte : UInt8) : (d n : Nat) → Code Unit
  | d, 0 => setBytes byte d 0
  | d, n + 1 =>
    if d &&& 3 ≠ 0 then do
      write d byte
      setAligned byte (d + 1) n
    else if 4 ≤ n + 1 then setWords byte d (n + 1) else setBytes byte d (n + 1)

/-- The value and the length come in the other order than for `memset`. -/
def aeabiMemset (dest n : Nat) (c : Int32) : Code Unit := setAligned c.toUInt32.toUInt8 dest n

def aeabiMemclr (dest n : Nat) : Code Unit := aeabiMemset dest n 0

def memset (dest : Nat) (c : Int32) (n : Nat) : Code Nat := do
  aeabiMemset dest n c
  return dest

/-! ## `memcmp` -/

/-- The loop of `memcmp` from some index on, with so many bytes left. -/
def compareFrom : (a b left : Nat) → Code Int
  | _, _, 0 => return 0
  | a, b, left + 1 => do
      let av ← read a
      let bv ← read b
      if av ≠ bv then return (av.toNat : Int) - bv.toNat
      compareFrom (a + 1) (b + 1) left

def memcmp (a b n : Nat) : Code Int := compareFrom a b n

/-! ## What the accesses may touch -/

/-- A write lies in `dest[0..n]`, and a word is aligned. -/
def Writes (dest n : Nat) : Access → Prop
  | .write a _ => dest ≤ a ∧ a < dest + n
  | .writeWord a _ => a % 4 = 0 ∧ dest ≤ a ∧ a + 4 ≤ dest + n
  | .read _ => False
  | .readWord _ => False

/-- A read lies in `src[0..n]`, a write in `dest[0..n]`, and a word is aligned. -/
def Inside (dest src n : Nat) : Access → Prop
  | .read a => src ≤ a ∧ a < src + n
  | .readWord a => a % 4 = 0 ∧ src ≤ a ∧ a + 4 ≤ src + n
  | .write a b => Writes dest n (.write a b)
  | .writeWord a w => Writes dest n (.writeWord a w)

theorem Writes.widen {d n k : Nat} {a : Access} (h : Writes (d + k) n a) : Writes d (n + k) a := by
  cases a <;> simp only [Writes] at h ⊢ <;> omega

theorem Inside.widen {d s n k : Nat} {a : Access} (h : Inside (d + k) (s + k) n a) :
    Inside d s (n + k) a := by
  cases a <;> simp only [Inside, Writes] at h ⊢ <;> omega

theorem Inside.lengthen {d s n : Nat} {a : Access} (h : Inside d s n a) : Inside d s (n + 1) a := by
  cases a <;> simp only [Inside, Writes] at h ⊢ <;> omega

section Accesses

variable {α : Type} {ok : Access → Prop} {m : Nat → UInt8} {post : α → (Nat → UInt8) → Prop}
  {a : Nat}

theorem does_read {k : UInt8 → Code α} (hok : ok (.read a))
    (hk : Does exec ok (k (m a)) post m) : Does exec ok (read a >>= k) post m :=
  act hok hk

theorem does_write {b : UInt8} {k : Unit → Code α} (hok : ok (.write a b))
    (hk : Does exec ok (k ()) post (Function.update m a b)) :
    Does exec ok (write a b >>= k) post m :=
  act hok hk

theorem does_readWord {k : Nat → Code α} (hok : ok (.readWord a))
    (hk : Does exec ok (k (Word.load m a)) post m) :
    Does exec ok (readWord a >>= k) post m :=
  act hok hk

theorem does_writeWord {w : Nat} {k : Unit → Code α} (hok : ok (.writeWord a w))
    (hk : Does exec ok (k ()) post (Word.store m a w)) :
    Does exec ok (writeWord a w >>= k) post m :=
  act hok hk

end Accesses

/-- Copying from the front reads no byte after it was overwritten. -/
def Forward (dest src n : Nat) : Prop := dest ≤ src ∨ src + n ≤ dest

/-- What copying from the front makes of a memory. -/
structure Moved (m m' : Nat → UInt8) (dest src n : Nat) : Prop where
  frame : ∀ i, i < dest ∨ dest + n ≤ i → m' i = m i
  copied : Forward dest src n → m' = copyWithin m src n dest

/-- A copy of `k` bytes and then of the rest. -/
theorem Moved.after {m m' : Nat → UInt8} {d s n k : Nat}
    (h : Moved (copyWithin m s k d) m' (d + k) (s + k) n) : Moved m m' d s (n + k) := by
  refine ⟨fun i hi => ?_, fun hforward => ?_⟩
  · rw [h.frame i (by omega), copyWithin_outside m s (by omega)]
  · rw [Forward] at hforward
    rw [h.copied (by rw [Forward]; omega), Nat.add_comm n k, copyWithin_front m (by omega)]

theorem and_three (a : Nat) : a &&& 3 = a % 4 := Nat.and_two_pow_sub_one_eq_mod a 2

section Copy

variable {ok : Access → Prop} {m : Nat → UInt8} {d s n : Nat}

def Copies (ok : Access → Prop) (p : Code Unit) (d s n : Nat) (m : Nat → UInt8) : Prop :=
  Does exec ok p (fun _ m' => Moved m m' d s n) m

theorem copies_nothing : Copies ok (pure ()) d s 0 m := by
  rintro m' rfl
  exact ⟨fun _ _ => rfl, fun _ => (copyWithin_zero m s d).symm⟩

theorem copies_byte {p : Code Unit} (hok : ∀ a, Inside d s (n + 1) a → ok a)
    (h : ∀ m, Copies ok p (d + 1) (s + 1) n m) :
    Copies ok (do write d (← read s); p) d s (n + 1) m := by
  refine does_read (hok _ ⟨by omega, by omega⟩) ?_
  refine does_write (hok _ ⟨by omega, by omega⟩) ?_
  rw [← copyWithin_one]
  exact mono (fun _ _ hm' => hm'.after) (h _)

theorem copyBytes_copies (hok : ∀ a, Inside d s n a → ok a) :
    Copies ok (copyBytes d s n) d s n m := by
  induction n generalizing d s m with
  | zero => exact copies_nothing
  | succ n ih => exact copies_byte hok fun m => ih fun a ha => hok a ha.widen

theorem copyWords_copies (hok : ∀ a, Inside d s n a → ok a) (hd : d % 4 = 0) (hs : s % 4 = 0) :
    Copies ok (copyWords d s n) d s n m := by
  fun_induction copyWords d s n generalizing m with
  | case1 d s n ih =>
    refine does_readWord (hok _ ⟨hs, by omega, by omega⟩) ?_
    refine does_writeWord (hok _ ⟨hd, by omega, by omega⟩) ?_
    rw [Word.store_load, ← copyWithin_eq_write]
    refine mono (fun _ _ hm' => Moved.after (k := 4) hm') ?_
    exact ih (fun a ha => hok a ha.widen) (by omega) (by omega)
  | case2 d s n => exact copyBytes_copies hok

/-- Four words are read before four are written. -/
theorem store_quad (m : Nat → UInt8) (d s : Nat) :
    Word.store (Word.store (Word.store (Word.store m d (Word.load m s)) (d + 4)
      (Word.load m (s + 4))) (d + 8) (Word.load m (s + 8))) (d + 12) (Word.load m (s + 12)) =
    copyWithin m s 16 d := by
  rw [copyWithin_eq_write, slice_add m s 12 4, slice_add m s 8 4, slice_add m s 4 4,
    ← write_append m d (k := 12) (by simp), ← write_append m d (k := 8) (by simp),
    ← write_append m d (k := 4) (by simp)]
  simp only [Word.store_load]

section

variable (hok : ∀ a, Inside d s n a → ok a)
include hok

theorem copyQuads_copies (hd : d % 4 = 0) (hs : s % 4 = 0) :
    Copies ok (copyQuads d s n) d s n m := by
  fun_induction copyQuads d s n generalizing m with
  | case1 d s n ih =>
    refine does_readWord (hok _ ⟨hs, by omega, by omega⟩) ?_
    refine does_readWord (hok _ ⟨by omega, by omega, by omega⟩) ?_
    refine does_readWord (hok _ ⟨by omega, by omega, by omega⟩) ?_
    refine does_readWord (hok _ ⟨by omega, by omega, by omega⟩) ?_
    refine does_writeWord (hok _ ⟨hd, by omega, by omega⟩) ?_
    refine does_writeWord (hok _ ⟨by omega, by omega, by omega⟩) ?_
    refine does_writeWord (hok _ ⟨by omega, by omega, by omega⟩) ?_
    refine does_writeWord (hok _ ⟨by omega, by omega, by omega⟩) ?_
    rw [store_quad m d s]
    refine mono (fun _ _ hm' => Moved.after (k := 16) hm') ?_
    exact ih (fun a ha => hok a ha.widen) (by omega) (by omega)
  | case2 d s n => exact copyWords_copies hok hd hs

theorem copyAlignedTail_copies (hd : d % 4 = 0) : Copies ok (copyAlignedTail d s n) d s n m := by
  rw [copyAlignedTail, and_three]
  split
  · next hs => exact copyQuads_copies hok hd hs
  · exact copyBytes_copies hok

theorem aeabiMemcpy_copies : Copies ok (aeabiMemcpy d s n) d s n m := by
  induction n generalizing d s m with
  | zero =>
    -- Nothing is left, and the destination may still be unaligned.
    rw [aeabiMemcpy, copyAlignedTail]
    split
    · exact copies_nothing
    · exact copies_nothing
  | succ n ih =>
    rw [aeabiMemcpy, and_three]
    by_cases hd : d % 4 = 0
    · rw [if_neg (not_not.mpr hd)]
      exact copyAlignedTail_copies hok hd
    · rw [if_pos hd]
      exact copies_byte hok fun m => ih fun a ha => hok a ha.widen

end

/-- From the back, a byte is read before anything is written at or below it. -/
theorem copyBack_does (hup : s ≤ d) (hok : ∀ a, Inside d s n a → ok a) :
    Does exec ok (copyBack d s n) (fun _ m' => m' = copyWithin m s n d) m := by
  induction n generalizing m with
  | zero =>
    rintro m' rfl
    exact (copyWithin_zero m s d).symm
  | succ n ih =>
    refine does_read (hok _ ⟨by omega, by omega⟩) ?_
    refine does_write (hok _ ⟨by omega, by omega⟩) ?_
    rw [← copyWithin_one, ← copyWithin_back m hup]
    exact ih fun a ha => hok a ha.lengthen

theorem aeabiMemmove_does (hok : ∀ a, Inside d s n a → ok a) :
    Does exec ok (aeabiMemmove d s n) (fun _ m' => m' = copyWithin m s n d) m := by
  rw [aeabiMemmove]
  split
  · next hdown =>
    exact mono (fun _ _ hm' => hm'.copied (.inl hdown)) (aeabiMemcpy_copies hok)
  · exact copyBack_does (by omega) hok

end Copy

section Set

variable {ok : Access → Prop} {m : Nat → UInt8} {byte : UInt8} {d n : Nat}

def Fills (ok : Access → Prop) (p : Code Unit) (d n : Nat) (byte : UInt8) (m : Nat → UInt8) :
    Prop :=
  Does exec ok p (fun _ m' => m' = fill m d n byte) m

theorem Fills.after {p : Code Unit} {k : Nat}
    (h : Fills ok p (d + k) n byte (fill m d k byte)) :
    Does exec ok p (fun _ m' => m' = fill m d (n + k) byte) (fill m d k byte) := by
  refine mono (fun _ m' hm' => ?_) h
  rw [hm', fill_add, Nat.add_comm k n]

theorem fills_byte {p : Code Unit} (hok : ∀ a, Writes d (n + 1) a → ok a)
    (h : ∀ m, Fills ok p (d + 1) n byte m) : Fills ok (do write d byte; p) d (n + 1) byte m := by
  refine does_write (hok _ ⟨by omega, by omega⟩) ?_
  rw [← fill_one]
  exact Fills.after (h _)

theorem setBytes_fills (hok : ∀ a, Writes d n a → ok a) :
    Fills ok (setBytes byte d n) d n byte m := by
  induction n generalizing d m with
  | zero =>
    rintro m' rfl
    exact (fill_zero m d byte).symm
  | succ n ih => exact fills_byte hok fun m => ih fun a ha => hok a ha.widen

theorem store_repeated (m : Nat → UInt8) (d : Nat) (byte : UInt8) :
    Word.store m d (leNat [byte, byte, byte, byte]) = fill m d 4 byte := by
  rw [fill_eq_write, Word.store, leBytes_leNat (Nat.le_refl 4)]
  rfl

theorem setWords_fills (hok : ∀ a, Writes d n a → ok a) (hd : d % 4 = 0) :
    Fills ok (setWords byte d n) d n byte m := by
  fun_induction setWords byte d n generalizing m with
  | case1 d n ih =>
    refine does_writeWord (hok _ ⟨hd, by omega, by omega⟩) ?_
    rw [store_repeated]
    exact Fills.after (ih (fun a ha => hok a ha.widen) (by omega))
  | case2 d n => exact setBytes_fills hok

theorem setAligned_fills (hok : ∀ a, Writes d n a → ok a) :
    Fills ok (setAligned byte d n) d n byte m := by
  induction n generalizing d m with
  | zero => exact setBytes_fills hok
  | succ n ih =>
    rw [setAligned, and_three]
    by_cases hd : d % 4 = 0
    · rw [if_neg (not_not.mpr hd)]
      split
      · exact setWords_fills hok hd
      · exact setBytes_fills hok
    · rw [if_pos hd]
      exact fills_byte hok fun m => ih fun a ha => hok a ha.widen

end Set

/-! ## The functions -/

variable (m : Nat → UInt8) (dest src n : Nat)

theorem memmove_does : Does exec (Inside dest src n) (memmove dest src n)
    (fun r m' => r = dest ∧ m' = copyWithin m src n dest) m := by
  refine bind (fun _ => rfl) (aeabiMemmove_does fun _ ha => ha) fun _ m' hm' => ?_
  exact ret ⟨rfl, hm'⟩

theorem memcpy_does : Does exec (Inside dest src n) (memcpy dest src n)
    (fun r m' => r = dest ∧ Moved m m' dest src n) m := by
  refine bind (fun _ => rfl) (aeabiMemcpy_copies fun _ ha => ha) fun _ m' hm' => ?_
  exact ret ⟨rfl, hm'⟩

theorem memset_does (c : Int32) : Does exec (Writes dest n) (memset dest c n)
    (fun r m' => r = dest ∧ m' = fill m dest n c.toUInt32.toUInt8) m := by
  refine bind (fun _ => rfl) (setAligned_fills fun _ ha => ha) fun _ m' hm' => ?_
  exact ret ⟨rfl, hm'⟩

variable {m n} in
/-- `memcmp` writes nothing.  Its result is zero for equal ranges only, and otherwise the
difference of the first two bytes that differ. -/
theorem memcmp_does {ok : Access → Prop} {a b : Nat}
    (hok : ∀ i < n, ok (.read (a + i)) ∧ ok (.read (b + i))) :
    Does exec ok (memcmp a b n)
      (fun r m' => m' = m ∧ (r = 0 ↔ ∀ i < n, m (a + i) = m (b + i)) ∧
        ∀ i < n, (∀ j < i, m (a + j) = m (b + j)) → m (a + i) ≠ m (b + i) →
          r = (m (a + i)).toNat - (m (b + i)).toNat) m := by
  rw [memcmp]
  induction n generalizing a b with
  | zero => exact ret ⟨rfl, by simp, nofun⟩
  | succ n ih =>
    refine does_read (hok 0 (by omega)).1 ?_
    refine does_read (hok 0 (by omega)).2 ?_
    simp only [Nat.forall_lt_succ_left]
    by_cases hfirst : m a = m b
    · grind
    · rw [if_pos hfirst]
      refine ret ⟨rfl, ⟨fun hzero => ?_, fun hall => absurd hall.1 hfirst⟩, fun _ _ => rfl,
        fun i _ hbefore => absurd hbefore.1 hfirst⟩
      exact absurd (UInt8.toNat_inj.mp (by omega)) hfirst

/-- Two ranges of three bytes that differ in the last. -/
theorem memcmp_does_last :
    Does exec (fun x => ∃ i < 3, x = .read i ∨ x = .read (9 + i)) (memcmp 0 9 3)
      (fun r m => r = -2 ∧ m 2 = 5 ∧ m 11 = 7)
      (Mem.write (Mem.write (fun _ => 0) 0 [1, 3, 5]) 9 [1, 3, 7]) := by
  refine (memcmp_does fun i hi => ⟨⟨i, hi, .inl (by rw [Nat.zero_add])⟩, i, hi, .inr rfl⟩).mono ?_
  rintro r _ ⟨rfl, -, hdiff⟩
  exact ⟨hdiff 2 (by decide) (by decide) (by decide), by decide, by decide⟩

/-- `dest[0..n]` holds these bytes, and every other byte is the one it was. -/
def Puts (m m' : Nat → UInt8) (dest : Nat) (bytes : List UInt8) : Prop :=
  slice m' dest bytes.length = bytes ∧ ∀ i, i < dest ∨ dest + bytes.length ≤ i → m' i = m i

theorem puts_write (bytes : List UInt8) : Puts m (Mem.write m dest bytes) dest bytes := by
  refine ⟨slice_write m dest bytes, fun i hi => ?_⟩
  grind [Mem.write]

theorem puts_copyWithin : Puts m (Mem.copyWithin m src n dest) dest (Mem.slice m src n) := by
  rw [Mem.copyWithin_eq_write]
  exact puts_write m dest _

theorem puts_fill (b : UInt8) : Puts m (Mem.fill m dest n b) dest (List.replicate n b) := by
  rw [Mem.fill_eq_write]
  exact puts_write m dest _

/-- The functions move and set what they are asked to, and change nothing else. -/
theorem primitives_exact (c : Int32) :
    Puts m (Prog.run exec (memmove dest src n) m).1 dest (Mem.slice m src n) ∧
    (dest + n ≤ src ∨ src + n ≤ dest →
      Puts m (Prog.run exec (memcpy dest src n) m).1 dest (Mem.slice m src n)) ∧
    (∀ i, i < dest ∨ dest + n ≤ i → (Prog.run exec (memcpy dest src n) m).1 i = m i) ∧
    Puts m (Prog.run exec (memset dest c n) m).1 dest (List.replicate n c.toUInt32.toUInt8) ∧
    (∀ a ∈ Prog.accesses exec (memmove dest src n) m, Inside dest src n a) ∧
    (∀ a ∈ Prog.accesses exec (memcpy dest src n) m, Inside dest src n a) ∧
    ∀ a ∈ Prog.accesses exec (memset dest c n) m, Writes dest n a := by
  have hmove := memmove_does m dest src n
  have hcopy := memcpy_does m dest src n
  have hset := memset_does m dest n c
  refine ⟨?_, fun hapart => ?_, hcopy.run.2.frame, ?_, hmove.accesses, hcopy.accesses,
    hset.accesses⟩
  · rw [hmove.run.2]
    exact puts_copyWithin m dest src n
  · rw [hcopy.run.2.copied (by rw [Forward]; omega)]
    exact puts_copyWithin m dest src n
  · rw [hset.run.2]
    exact puts_fill m dest n _

end Rcard.Memfns
