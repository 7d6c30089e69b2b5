/-
Images with one byte changed.

The checksum covers all of an image but its own field and the state.  The CRC
catches every change of one byte in what it covers, a change of the checksum does
not fit the rest any more, and a state that is not erased is a concern.  The
footer also has the magic number and the format version.  The reader accepts two
format versions, and the older one has no checksum.  So there is one change that
is not caught (`changed_bootable`).
-/
import Rcard.Lib.Crc
import Rcard.Places.Build

namespace Rcard.Places

open Function List Mem PlacesBuilder

/-! ## The checksum of a changed list -/

def crcPoly : BitVec 32 := 0xEDB88320#32

theorem toBitVec_crcShift (c : UInt32) : (crcShift c).toBitVec = Crc.shift crcPoly c.toBitVec := by
  have hlow : (c &&& 1 ≠ 0) ↔ c.toBitVec.getLsbD 0 = true := by
    have hone : (c &&& 1).toNat = c.toNat % 2 := by
      exact Nat.and_one_is_mod c.toNat
    rw [Ne, ← UInt32.toNat_inj, hone, BitVec.getLsbD, Nat.testBit_zero, decide_eq_true_iff]
    show ¬ c.toNat % 2 = 0 ↔ c.toNat % 2 = 1
    omega
  rw [crcShift, Crc.shift]
  by_cases h : c &&& 1 ≠ 0
  · rw [if_pos h, if_pos (hlow.mp h)]
    rfl
  · rw [if_neg h, if_neg (mt hlow.mpr h)]
    rfl

theorem toBitVec_crcShifts (n : Nat) (c : UInt32) :
    (crcShift^[n] c).toBitVec = Crc.shifts crcPoly n c.toBitVec := by
  induction n generalizing c with
  | zero => rfl
  | succ n ih => rw [iterate_succ_apply, ih, toBitVec_crcShift, Crc.shifts]

theorem toBitVec_crc32Step (c : UInt32) (b : UInt8) :
    (crc32Step c b).toBitVec = Crc.step crcPoly c.toBitVec b.toBitVec := by
  have hbyte : ∀ x : BitVec 32, x &&& 0xFF#32 = (x.setWidth 8).setWidth 32 := by
    intro x
    apply BitVec.eq_of_toNat_eq
    rw [BitVec.toNat_setWidth]
    show x.toNat &&& (2 ^ 8 - 1) = x.toNat % 2 ^ 8 % 2 ^ 32
    rw [Nat.and_two_pow_sub_one_eq_mod]
    omega
  have hindex : ((c ^^^ b.toUInt32) &&& 0xFF).toBitVec =
      ((c.toBitVec ^^^ b.toBitVec.setWidth 32).setWidth 8).setWidth 32 :=
    hbyte _
  rw [crc32Step, UInt32.toBitVec_xor, crc32Table, toBitVec_crcShifts, hindex]
  rfl

theorem toBitVec_crc32Update (c : UInt32) (data : List UInt8) :
    (crc32Update c data).toBitVec =
      (data.map UInt8.toBitVec).foldl (Crc.step crcPoly) c.toBitVec := by
  induction data generalizing c with
  | nil => rfl
  | cons b data ih =>
    rw [crc32Update, foldl_cons, ← crc32Update, ih, toBitVec_crc32Step]
    rfl

/-- The checksum tells a burst of up to four bytes. -/
theorem crc32Update_ne (c : UInt32) (pre post : List UInt8) {bs bs' : List UInt8}
    (hlen : bs.length = bs'.length) (hburst : bs.length ≤ 4) (h : bs ≠ bs') :
    crc32Update c (pre ++ bs ++ post) ≠ crc32Update c (pre ++ bs' ++ post) := by
  intro heq
  have hbits := congrArg UInt32.toBitVec heq
  simp only [toBitVec_crc32Update, map_append] at hbits
  refine Crc.foldl_step_ne (by decide) (by decide) _ _ _ (by simpa using hlen)
    (by rw [length_map]; omega) (fun hmap => h ?_) hbits
  exact map_injective_iff.mpr (fun _ _ => UInt8.toBitVec_inj.mp) hmap

theorem crc32Update_set_ne (c : UInt32) {data : List UInt8} {k : Nat} {x : UInt8}
    (hk : k < data.length) (hx : x ≠ data[k]) :
    crc32Update c (data.set k x) ≠ crc32Update c data := by
  have hsplit : data = data.take k ++ [data[k]] ++ data.drop (k + 1) := by simp
  have hset : data.set k x = data.take k ++ [x] ++ data.drop (k + 1) := by
    simp [set_eq_take_append_cons_drop, hk]
  rw [hset]
  nth_rewrite 3 [hsplit]
  exact crc32Update_ne c _ _ rfl (by simp) (by simpa using hx)

theorem crc32Update_injective {c c' : UInt32} {data : List UInt8}
    (h : crc32Update c data = crc32Update c' data) : c = c' := by
  have hbits := congrArg UInt32.toBitVec h
  rw [toBitVec_crc32Update, toBitVec_crc32Update] at hbits
  exact UInt32.toBitVec_inj.mp (Crc.foldl_step_injective (by decide) (by decide) hbits)

/-! ## One byte -/

def Slice.set (data : Slice) (pos : Nat) (x : UInt8) : Slice :=
  { data with byte := Function.update data.byte pos x }

section Set

variable {data : Slice} {pos a n : Nat} {x : UInt8}

theorem toNat_readU32 {m : Nat} (hfit : a + 4 ≤ m) :
    (readU32 m data a).val.toNat = leNat (slice data.byte a 4) := by
  show (UInt32.ofNat (readLe m data a 4).val).toNat = _
  have hbound : leNat (slice data.byte a 4) < leBound 4 :=
    leNat_lt_of_le (Nat.le_of_eq (length_slice _ _ _))
  rw [readLe_val hfit]
  exact Nat.mod_eq_of_lt hbound

theorem slice_set_of_outside (h : pos < a ∨ a + n ≤ pos) :
    slice (data.set pos x).byte a n = slice data.byte a n :=
  slice_eq_iff.mpr fun k hk => update_of_ne (by omega) _ _

theorem readU32_set_of_outside {m : Nat} (hfit : a + 4 ≤ m) (h : pos < a ∨ a + 4 ≤ pos) :
    (readU32 m (data.set pos x) a).val = (readU32 m data a).val := by
  apply UInt32.toNat_inj.mp
  rw [toNat_readU32 hfit, toNat_readU32 hfit, slice_set_of_outside h]

theorem slice_set_of_le (hle : a ≤ pos) :
    slice (data.set pos x).byte a n = (slice data.byte a n).set (pos - a) x := by
  apply ext_getElem (by simp)
  intro k hk _
  rw [getElem_set]
  simp only [slice, getElem_map, getElem_range]
  split
  · rename_i heq
    rw [← heq, Nat.add_sub_cancel' hle]
    exact update_self _ _ _
  · exact update_of_ne (by omega) _ _

variable (hx : x ≠ data.byte pos)
include hx

theorem slice_set_ne (hle : a ≤ pos) (hlt : pos < a + n) :
    slice (data.set pos x).byte a n ≠ slice data.byte a n := by
  intro heq
  have hbyte := slice_eq_iff.mp heq (pos - a) (by omega)
  rw [Nat.add_sub_cancel' hle] at hbyte
  exact hx ((update_self _ _ _).symm.trans hbyte)

theorem crc32Update_slice_set_ne (c : UInt32) (hle : a ≤ pos) (hlt : pos < a + n) :
    crc32Update c (slice (data.set pos x).byte a n) ≠ crc32Update c (slice data.byte a n) := by
  have hk : pos - a < (slice data.byte a n).length := by
    rw [length_slice]
    omega
  rw [slice_set_of_le hle]
  refine crc32Update_set_ne c hk ?_
  simp only [slice, getElem_map, getElem_range, Nat.add_sub_cancel' hle]
  exact hx

/-- The checksum notices a change of any byte it covers. -/
theorem computeChecksumV2_set_ne (hlen : footerV2Size ≤ data.len) (hpos : pos < data.len)
    (hchecksum : pos < data.len - footerV2Size ∨ data.len - footerV2Size + 4 ≤ pos)
    (hstate : pos < data.len - footerV2Size + 20 ∨ data.len - footerV2Size + 24 ≤ pos) :
    computeChecksumV2 (data.set pos x) ≠ computeChecksumV2 data := by
  intro heq
  have hset : (data.set pos x).len = data.len := rfl
  rw [computeChecksumV2, computeChecksumV2, hset, if_neg (by omega), if_neg (by omega)] at heq
  have hcrc := (UInt32.xor_left_inj _).mp heq
  by_cases hfirst : pos < data.len - footerV2Size
  · rw [slice_set_of_outside (a := data.len - footerV2Size + 4) (by omega),
      slice_set_of_outside (a := data.len - footerV2Size + 24) (by omega)] at hcrc
    exact crc32Update_slice_set_ne hx _ (Nat.zero_le _) (by omega)
      (crc32Update_injective (crc32Update_injective hcrc))
  · rw [slice_set_of_outside (a := 0) (by omega)] at hcrc
    by_cases hsecond : pos < data.len - footerV2Size + 20
    · rw [slice_set_of_outside (a := data.len - footerV2Size + 24) (by omega)] at hcrc
      exact crc32Update_slice_set_ne hx _ (by omega) (by omega) (crc32Update_injective hcrc)
    · rw [slice_set_of_outside (a := data.len - footerV2Size + 4) (by omega)] at hcrc
      exact crc32Update_slice_set_ne hx _ (by omega) (by omega) hcrc

/-- So does a word of its own bytes. -/
theorem readU32_set_ne {m : Nat} (hfit : a + 4 ≤ m) (hle : a ≤ pos) (hlt : pos < a + 4) :
    (readU32 m (data.set pos x) a).val ≠ (readU32 m data a).val := by
  intro heq
  have hword := congrArg UInt32.toNat heq
  rw [toNat_readU32 hfit, toNat_readU32 hfit] at hword
  exact slice_set_ne hx hle hlt (leNat_injective (by simp) hword)

end Set

/-! ## Changed images -/

section Changed

variable {b : PlacesBuilder} {m pos : Nat} {x : UInt8}

theorem readU32_build (hlen : b.total ≤ m) :
    (readU32 m b.build (b.total - 4)).val = magic ∧
      (readU32 m b.build (b.total - 8)).val = version2 ∧
      (readU32 m b.build (b.total - footerV2Size)).val = b.checksum ∧
      (readU32 m b.build (b.total - footerV2Size + 20)).val = stateDefaultRaw := by
  have hsize : 48 ≤ b.total := Nat.le_add_left _ _
  have hsize' : footerV2Size = 48 := rfl
  rw [b.build_eq]
  exact ⟨readFooterU32 hlen (j := 12) (k := 44) rfl (by simp [footerFields])
      (by omega) (by decide),
    readFooterU32 hlen (j := 11) (k := 40) rfl (by simp [footerFields]) (by omega) (by decide),
    readFooterU32 hlen (j := 0) (k := 0) rfl rfl rfl (by decide),
    readFooterU32 hlen (j := 6) (k := 20) rfl (by simp [footerFields]) rfl (by decide)⟩

/-- The one change that turns format version 2 into 1. -/
theorem version_set {k : Nat} (hk : k < 4) (h : leNat ((leBytes 4 2).set k x) = 1) :
    k = 0 ∧ x = 1 := by
  have hbytes : leBytes 4 2 = [2, 0, 0, 0] := rfl
  match k, hk with
  | 0, _ =>
    have hx : x.toNat + 256 * 0 = 1 := h
    exact ⟨rfl, UInt8.toNat_inj.mp hx⟩
  | k + 1, _ =>
    exact absurd h (by
      show ¬ 2 + 256 * _ = 1
      omega)

/-- With its version intact, a changed image has a checksum that does not fit or a
state that is not erased. -/
theorem not_bootable_of_version2 (hlen : b.total ≤ m) (hpos : pos < b.total)
    (hx : x ≠ b.build.byte pos) {img : PlacesImage} {footer : Footer}
    (hp : ParsedAs m (b.build.set pos x) img footer) (hv : img.formatVersion = version2)
    (hboot : img.firmwareState.isBootable = true) : False := by
  have hsize : footerV2Size ≤ b.total := Nat.le_add_left _ _
  have hsize' : footerV2Size = 48 := rfl
  obtain ⟨_, _, hchecksum, hstate⟩ := readU32_build hlen
  have hbuilt : computeChecksumV2 b.build = b.checksum := by
    rw [b.build_eq, b.computeChecksumV2_imageWith]
  obtain ⟨hcrc, hraw⟩ := img.isBootable_version2 hv hboot
  rcases readFooter_ok hp.footer_ok with hv' | ⟨_, _, hfound, hfoundState⟩
  · rw [hv] at hv'
    exact absurd hv' (by decide)
  · have hbuildLen : b.build.len = b.total := rfl
    have hlen' : (b.build.set pos x).len = b.total := rfl
    rw [hlen'] at hfound
    rw [Nat.mod_eq_of_lt (by omega)] at hfoundState
    rw [hp.data_eq, hp.checksum, hfound] at hcrc
    rw [hp.stateRaw, hfoundState] at hraw
    by_cases hself : b.total - footerV2Size ≤ pos ∧ pos < b.total - footerV2Size + 4
    · -- The checksum is another one, and what it covers is the same.
      have hcover : computeChecksumV2 (b.build.set pos x) = computeChecksumV2 b.build :=
        computeChecksumV2_congr hlen' fun p _ hp _ => update_of_ne
          (by rw [hbuildLen] at hp; omega) _ _
      rw [hcover, hbuilt, ← hchecksum] at hcrc
      exact readU32_set_ne hx (by omega) hself.1 hself.2 hcrc.symm
    · by_cases hflag : b.total - footerV2Size + 20 ≤ pos ∧ pos < b.total - footerV2Size + 24
      · rw [← hstate] at hraw
        exact readU32_set_ne hx (by omega) hflag.1 (by omega) hraw
      · rw [readU32_set_of_outside (by omega) (by omega), hchecksum, ← hbuilt] at hcrc
        exact computeChecksumV2_set_ne hx hsize hpos (by rw [hbuildLen]; omega)
          (by rw [hbuildLen]; omega) hcrc

theorem bootable_change (hlen : b.total ≤ m) (hpos : pos < b.total)
    (hx : x ≠ b.build.byte pos) {img : PlacesImage}
    (hparse : (parse m (b.build.set pos x)).val = .ok img)
    (hboot : img.firmwareState.isBootable = true) : pos = b.total - 8 ∧ x = 1 := by
  obtain ⟨footer, hp⟩ := parse_ok_iff.mp hparse
  have hsize : 48 ≤ b.total := Nat.le_add_left _ _
  obtain ⟨_, hversion, _, _⟩ := readU32_build hlen
  rcases readFooter_ok hp.footer_ok with hv | ⟨hv, _⟩
  · have hlen' : (b.build.set pos x).len = b.total := rfl
    have hfound := hp.formatVersion
    rw [hv, hlen'] at hfound
    by_cases hinside : b.total - 8 ≤ pos ∧ pos < b.total - 8 + 4
    · have hbytes : slice b.build.byte (b.total - 8) 4 = leBytes 4 2 := by
        rw [b.build_eq]
        exact (congrArg (slice _ · 4) (by rw [footerV2Size]; omega)).trans
          (slice_field (j := 11) (k := 40) rfl (by simp [footerFields]) (by simp))
      have hnat := congrArg UInt32.toNat hfound
      rw [toNat_readU32 (by omega), slice_set_of_le hinside.1, hbytes] at hnat
      obtain ⟨hzero, hone⟩ := version_set (by omega) hnat.symm
      exact ⟨by omega, hone⟩
    · rw [readU32_set_of_outside (by omega) (by omega), hversion] at hfound
      exact absurd hfound (by decide)
  · exact (not_bootable_of_version2 hlen hpos hx hp hv hboot).elim

theorem tailBytes_set (b : PlacesBuilder) (c : UInt32) :
    (b.tailBytes c version2).set (b.tableBytes.length + 40) 1 = b.tailBytes c version1 := by
  have hfront : ∀ v, footerBytes b c v = ((footerFields b c version2).take 11).flatten ++
      (leBytes 4 v.toNat ++ leBytes 4 magic.toNat) := by
    intro v
    simp [footerBytes, footerFields]
  have hlen : ((footerFields b c version2).take 11).flatten.length = 40 := by
    simp [footerFields]
  rw [tailBytes, tailBytes, hfront, set_append_right _ _ (by omega),
    set_append_right _ _ (by omega), hlen, Nat.add_sub_cancel_left]
  rfl

theorem set_version (b : PlacesBuilder) :
    b.build.set (b.total - 8) 1 = b.imageWith b.checksum version1 := by
  have hpos : b.total - 8 = b.tablesOffset + (b.tableBytes.length + 40) := by
    have hstart := b.footer_start
    have hsize : 48 ≤ b.total := Nat.le_add_left _ _
    rw [footerV2Size] at hstart
    omega
  have hlen : b.tableBytes.length + 40 < (b.tailBytes b.checksum version2).length := by
    rw [tailBytes, length_append, length_footerBytes, footerV2Size]
    omega
  rw [b.build_eq, Slice.set, hpos, imageWith, imageWith, ← tailBytes_set, write_set _ _ hlen]

/-- Among all changes of one byte, exactly the one of the format version from 2 to 1
leaves an image that boots. -/
theorem changed_bootable (b : PlacesBuilder) {m pos : Nat} {x : UInt8} (hm : usize32 ≤ m)
    (hlen : b.total < m) (hpos : pos < b.total) (hx : x ≠ b.build.byte pos) :
    ((∃ img, (parse m (b.build.set pos x)).val = .ok img ∧
        img.firmwareState.isBootable = true) → pos = b.total - 8 ∧ x = 1) ∧
      (b.total < usize32 → pos = b.total - 8 ∧ x = 1 →
        ∃ img, (parse m (b.build.set pos x)).val = .ok img ∧
          img.firmwareState.isBootable = true) := by
  refine ⟨?_, ?_⟩
  · rintro ⟨img, hparse, hboot⟩
    exact bootable_change (Nat.le_of_lt hlen) hpos hx hparse hboot
  · rintro htotal ⟨rfl, rfl⟩
    rw [set_version]
    exact ⟨_, parse_ok_iff.mpr ⟨_, parsedAs_build hm htotal (.inl rfl)⟩, rfl⟩

end Changed

open PlacesBuilder (sample)

theorem changed_bootable_first_byte :
    ¬ ∃ img, (parse usize32 (sample.build.set 0 7)).val = .ok img ∧
      img.firmwareState.isBootable = true := fun h =>
  absurd ((changed_bootable sample (Nat.le_refl usize32) (by decide) (by decide)
    (by decide +kernel)).1 h).1 (by decide)

/-- One byte of the footer, and the image has no checksum any more. -/
theorem version_change_boots :
    sample.build.byte (sample.total - 8) = 2 ∧
      ∃ img, (parse usize32 (sample.build.set (sample.total - 8) 1)).val = .ok img ∧
        img.firmwareState.isBootable = true := by
  refine ⟨by decide +kernel, ?_⟩
  rw [set_version]
  exact ⟨_, parse_ok_iff.mpr ⟨_, parsedAs_build (Nat.le_refl _) (by decide) (.inl rfl)⟩, rfl⟩

end Rcard.Places
