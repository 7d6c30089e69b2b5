/-
Single bit errors on the USB link.

A shift of the checksum register can be undone, since the polynomial is odd: the low bit after
a shift is the bit that was shifted out.  So a frame with one byte changed has another
checksum.  The receiver looks for the checksum where the length field says, though, and a flip
that makes the length smaller moves it into the payload, which may hold anything.
-/
import Mathlib.Data.Nat.Bitwise
import Rcard.Tunnel.Framing

namespace Rcard.HostUsb

open List Function

def lengthField (bytes : List UInt8) : Nat :=
  (u16FromLe (bytes.getD 3 0) (bytes.getD 4 0)).toNat

/-- The bytes with bit `i` flipped, counted from the low bit of the first byte. -/
def flipBit (bytes : List UInt8) (i : Nat) : List UInt8 :=
  bytes.set (i / 8) (bytes.getD (i / 8) 0 ^^^ UInt8.ofNat (2 ^ (i % 8)))

/-! ## The checksum -/

theorem top_bit (c : UInt16) : c &&& 0x8000 ≠ 0 ↔ c.toBitVec.msb = true := by
  have htop : (c &&& 0x8000).toNat = (c.toNat.testBit 15).toNat * 2 ^ 15 := Nat.and_two_pow _ 15
  rw [Ne, ← UInt16.toNat_inj, htop]
  show _ ↔ c.toNat.testBit 15 = true
  cases c.toNat.testBit 15 <;> decide

/-- Equal after a shift, two registers had the same top bit, since it is the low bit now. -/
theorem crcShift_injective : Injective crcShift := by
  intro a b h
  have heven : ∀ c : UInt16, (c <<< 1).toBitVec.getLsbD 0 = false := fun c => by simp
  have hodd : ∀ c : UInt16, (c <<< 1 ^^^ 0x1021).toBitVec.getLsbD 0 = true := fun c => by simp
  have hlow := congrArg (fun c : UInt16 => c.toBitVec.getLsbD 0) h
  unfold crcShift at h hlow
  have hmsb : a.toBitVec.msb = b.toBitVec.msb := by grind [top_bit]
  have hshift : a <<< 1 = b <<< 1 := by grind [UInt16.xor_left_inj]
  apply UInt16.toBitVec_inj.mp
  apply BitVec.eq_of_getLsbD_eq
  intro i hi
  by_cases htop : i = 15
  · rw [htop]
    exact hmsb
  · have hbit := congrArg (fun c => c.toBitVec.getLsbD (i + 1)) hshift
    simpa [hi, show i + 1 < 16 by omega] using hbit

def crcByte (crc : UInt16) (b : UInt8) : UInt16 :=
  crcShift^[8] (crc ^^^ b.toUInt16 <<< (8 : UInt16))

theorem crcByte_injective (b : UInt8) : Injective (crcByte · b) := fun _ _ h =>
  (UInt16.xor_left_inj _).mp (crcShift_injective.iterate 8 h)

theorem crcByte_byte_injective (crc : UInt16) : Injective (crcByte crc) := by
  intro b b' h
  have hbytes := (UInt16.xor_right_inj _).mp (crcShift_injective.iterate 8 h)
  have hnat := congrArg UInt16.toNat hbytes
  have hb := b.toNat_lt
  have hb' := b'.toNat_lt
  simp at hnat
  exact UInt8.toNat_inj.mp (by omega)

variable {frame : List UInt8} {i : Nat}

theorem foldl_crcByte_set_ne {k : Nat} (hk : k < frame.length) {x : UInt8} (hx : x ≠ frame[k])
    (crc : UInt16) : (frame.set k x).foldl crcByte crc ≠ frame.foldl crcByte crc := by
  induction frame generalizing k crc with
  | nil => cases hk
  | cons b frame ih =>
    cases k with
    | zero =>
      have hrest : Injective fun crc => frame.foldl crcByte crc := by
        clear hk hx ih
        induction frame with
        | nil => exact injective_id
        | cons b frame ih => exact ih.comp (crcByte_injective b)
      exact fun h => hx (crcByte_byte_injective crc (hrest h))
    | succ k => exact ih (Nat.lt_of_succ_lt_succ hk) hx _

/-! ## The receiver -/

theorem unwrapFrame_append (h : Consistent frame) (hi lo : UInt8) (pad : List UInt8) :
    unwrapFrame (frame ++ hi :: lo :: pad) =
      if u16FromBe hi lo ≠ crc16 frame then .error .mismatch else .ok frame := by
  obtain ⟨hhead, hlength⟩ := h
  rw [headerSize] at hhead
  have hget : ∀ i < frame.length, (frame ++ hi :: lo :: pad).getD i 0 = frame.getD i 0 :=
    fun i hi => getD_append _ _ _ _ hi
  rw [unwrapFrame, if_neg (by simp; omega)]
  dsimp only
  rw [hget 3 (by omega), hget 4 (by omega), hlength]
  simp

theorem unwrapFrame_long {pad : List UInt8} {hi lo : UInt8} (hhead : headerSize ≤ frame.length)
    (hlong : frame.length + pad.length < headerSize + lengthField frame) :
    unwrapFrame (frame ++ hi :: lo :: pad) = .error .tooShort := by
  rw [headerSize] at hhead
  have hget : ∀ i < frame.length, (frame ++ hi :: lo :: pad).getD i 0 = frame.getD i 0 :=
    fun i hi => getD_append _ _ _ _ hi
  rw [unwrapFrame, if_neg (by simp [headerSize]; omega)]
  rw [hget 3 (by omega), hget 4 (by omega)]
  simp [lengthField] at hlong ⊢
  omega

theorem u16FromBe_injective {hi lo hi' lo' : UInt8} (h : u16FromBe hi lo = u16FromBe hi' lo') :
    hi = hi' ∧ lo = lo' := by
  have hnat := congrArg UInt16.toNat h
  have := hi.toNat_lt
  have := lo.toNat_lt
  have := hi'.toNat_lt
  have := lo'.toNat_lt
  simp only [u16FromBe, UInt16.toNat_ofNat'] at hnat
  exact ⟨UInt8.toNat_inj.mp (by omega), UInt8.toNat_inj.mp (by omega)⟩

/-! ## One bit -/

theorem xor_bit_ne (b : UInt8) (i : Nat) : b ^^^ UInt8.ofNat (2 ^ (i % 8)) ≠ b := by
  have hbit : ∀ j < 8, UInt8.ofNat (2 ^ j) ≠ 0 := by decide
  intro h
  rw [← UInt8.xor_zero (a := b), UInt8.xor_assoc, UInt8.xor_right_inj, UInt8.zero_xor] at h
  exact hbit _ (Nat.mod_lt i (by decide)) h

theorem even_of_xor_bit {b : UInt8} (h : (b ^^^ UInt8.ofNat (2 ^ (i % 8))).toNat = b.toNat + 1) :
    b.toNat % 2 = 0 := by
  have hbit : ∀ n < 256, ∀ j < 8, n ^^^ UInt8.toNat (UInt8.ofNat (2 ^ j)) = n + 1 → n % 2 = 0 := by
    decide +kernel
  exact hbit _ b.toNat_lt _ (Nat.mod_lt i (by decide)) h

instance (frame : List UInt8) : Decidable (Consistent frame) := inferInstanceAs (Decidable (_ ∧ _))

theorem lengthField_eq (bytes : List UInt8) :
    lengthField bytes = (bytes.getD 3 0).toNat + 256 * (bytes.getD 4 0).toNat := by
  have := (bytes.getD 3 0).toNat_lt
  have := (bytes.getD 4 0).toNat_lt
  rw [lengthField, u16FromLe, UInt16.toNat_ofNat']
  omega

theorem getD_flipBit {bytes : List UInt8} (hi : i / 8 < bytes.length) (j : Nat) :
    (flipBit bytes i).getD j 0 = if i / 8 = j then
      bytes.getD j 0 ^^^ UInt8.ofNat (2 ^ (i % 8)) else bytes.getD j 0 := by
  unfold flipBit
  grind

/-- A flip that adds one to the length sets its low bit. -/
theorem even_of_lengthField (hi : i / 8 < frame.length)
    (h : lengthField (flipBit frame i) = lengthField frame + 1) : lengthField frame % 2 = 0 := by
  simp only [lengthField_eq, getD_flipBit hi] at h ⊢
  have hlow :
      (frame.getD 3 0 ^^^ UInt8.ofNat (2 ^ (i % 8))).toNat = (frame.getD 3 0).toNat + 1 := by
    split at h <;> split at h <;> omega
  have := even_of_xor_bit hlow
  omega

/-- A flipped bit is detected, unless it makes the length smaller. -/
theorem flip_detected (frame : List UInt8) (h : Consistent frame) (i : Nat)
    (hi : i < 8 * (frame.length + 2))
    (hlength : lengthField frame ≤ lengthField (flipBit frame i)) :
    ∃ e, unwrapFrame (flipBit (wrapFrame frame) i) = .error e := by
  set pad : List UInt8 := if (frame.length + 2) % maxPacketSize = 0 then [0] else [] with hpad
  have hwrap : wrapFrame frame =
      frame ++ (crc16 frame >>> 8).toUInt8 :: (crc16 frame).toUInt8 :: pad := by
    rw [wrapFrame, append_assoc]
    rfl
  rw [hwrap]
  by_cases hin : i / 8 < frame.length
  · -- in the frame: another length is too long, and with the same the checksum differs
    have hflip : ∀ rest, flipBit (frame ++ rest) i = flipBit frame i ++ rest := by grind [flipBit]
    have hlen : (flipBit frame i).length = frame.length := length_set
    rw [hflip]
    rcases Nat.lt_or_eq_of_le hlength with hmore | hsame
    · refine ⟨_, unwrapFrame_long (hlen ▸ h.1) ?_⟩
      have hsize : headerSize + lengthField frame = frame.length := h.2
      have heven := even_of_lengthField hin
      rw [headerSize] at hsize ⊢
      rw [hpad, maxPacketSize]
      grind
    · have hconsistent : Consistent (flipBit frame i) := by
        refine ⟨hlen ▸ h.1, ?_⟩
        rw [hlen, ← h.2]
        exact congrArg _ hsame.symm
      have hcrc : crc16 (flipBit frame i) ≠ crc16 frame := by
        refine foldl_crcByte_set_ne hin ?_ _
        rw [getD_eq_getElem _ _ hin]
        exact xor_bit_ne _ i
      refine ⟨.mismatch, ?_⟩
      rw [unwrapFrame_append hconsistent, u16FromBe_u16ToBe, if_pos hcrc.symm]
  · -- in the checksum
    refine ⟨.mismatch, ?_⟩
    rcases (by omega : i / 8 = frame.length + 0 ∨ i / 8 = frame.length + 1) with hat | hat
    all_goals
      rw [flipBit, hat, set_append_right _ _ (Nat.le_add_right _ _),
        getD_append_right _ _ _ _ (Nat.le_add_right _ _), Nat.add_sub_cancel_left]
      refine (unwrapFrame_append h _ _ _).trans (if_pos fun heq => ?_)
      have hbytes := u16FromBe_injective (heq.trans (u16FromBe_u16ToBe (crc16 frame)).symm)
    · exact xor_bit_ne _ i hbytes.1
    · exact xor_bit_ne _ i hbytes.2

/-- A bit that makes the length of three bytes one of seven. -/
theorem flip_detected_length :
    lengthField (flipBit [1, 0, 0, 3, 0, 9, 8, 7] 26) = 7 ∧
    ∃ e, unwrapFrame (flipBit (wrapFrame [1, 0, 0, 3, 0, 9, 8, 7]) 26) = .error e :=
  ⟨by decide, flip_detected [1, 0, 0, 3, 0, 9, 8, 7] (by decide) 26 (by decide) (by decide)⟩

/-- A payload that is the checksum of the bare header: without its length it is accepted. -/
def crafted : List UInt8 := [1, 0, 0, 2, 0] ++ u16ToBe (crc16 [1, 0, 0, 0, 0])

theorem shorter_frame_accepted : Consistent crafted ∧
    unwrapFrame (flipBit (wrapFrame crafted) 25) = .ok [1, 0, 0, 0, 0] := by
  decide +kernel

end Rcard.HostUsb
