/-
What the checksum of an image covers.

The three parts that `compute_checksum_v2` feeds to the register are one sequence of bytes, and
a burst of up to four of them changes the checksum, also where it goes over a field that is
cut out.  The two fields that are cut out do not count, so a concern can be written into the
state of an image without a new checksum.
-/
import Rcard.Lib.Fallible
import Rcard.Places.Corrupt

namespace Rcard.Places

open Mem PlacesImage

/-- The bytes the checksum covers, in the order of the file. -/
def Slice.covered (data : Slice) : List UInt8 :=
  let fb := data.len - footerV2Size
  slice data.byte 0 fb ++ slice data.byte (fb + 4) 16 ++
    slice data.byte (fb + 24) (data.len - (fb + 24))

def ConcernSource.tag : ConcernSource → UInt32
  | watchdog => 1
  | kernel => 2
  | supervisor => 3
  | runtime => 4

def FirmwareState.encodeConcern (source : ConcernSource) : UInt32 := source.tag <<< 24

/-- The image with another word in its state field. -/
def Slice.writeState (data : Slice) (raw : UInt32) : Slice :=
  { data with byte := write data.byte (data.len - footerV2Size + 20) (leBytes 4 raw.toNat) }

variable {data : Slice}

theorem computeChecksumV2_eq (hlen : footerV2Size ≤ data.len) :
    computeChecksumV2 data = crc32Update crc32Init data.covered ^^^ crc32Init := by
  grind [computeChecksumV2, crc32Update, Slice.covered]

theorem byte_writeState {raw : UInt32} {p : Nat}
    (h : p < data.len - footerV2Size + 20 ∨ data.len - footerV2Size + 24 ≤ p) :
    (data.writeState raw).byte p = data.byte p := by
  rcases h with hlt | hge
  · exact write_of_lt _ _ hlt
  · exact write_of_ge _ (by simpa using hge)

theorem readU32_writeState {m a : Nat} {raw : UInt32} (hfit : a + 4 ≤ m)
    (h : a + 4 ≤ data.len - footerV2Size + 20 ∨ data.len - footerV2Size + 24 ≤ a) :
    (readU32 m (data.writeState raw) a).val = (readU32 m data a).val := by
  apply UInt32.toNat_inj.mp
  rw [toNat_readU32 hfit, toNat_readU32 hfit]
  exact congrArg leNat (slice_eq_iff.mpr fun k hk => byte_writeState (by omega))

theorem checksumValid_writeState {m : Nat} (hm : data.len ≤ m) (hbig : footerV2Size ≤ data.len)
    {raw : UInt32} {img img' : PlacesImage} (h : (parse m data).val = .ok img)
    (h' : (parse m (data.writeState raw)).val = .ok img') :
    img'.checksumValid = img.checksumValid := by
  obtain ⟨footer, hp⟩ := parse_ok_iff.mp h
  obtain ⟨footer', hp'⟩ := parse_ok_iff.mp h'
  have hlen : (data.writeState raw).len = data.len := rfl
  have hsize : footerV2Size = 48 := rfl
  have hversion : img'.formatVersion = img.formatVersion := by
    rw [hp'.formatVersion, hp.formatVersion]
    exact readU32_writeState (by omega) (by omega)
  rcases readFooter_ok hp.footer_ok with hv | ⟨hv, -, hsum, -⟩
  · rw [checksumValid, checksumValid, hversion, if_pos hv, if_pos hv]
  · rcases readFooter_ok hp'.footer_ok with hv' | ⟨-, -, hsum', -⟩
    · rw [hversion, hv] at hv'
      cases hv'
    · have hsame : img'.checksum = img.checksum := by
        rw [hp'.checksum, hp.checksum, hsum, hsum']
        exact readU32_writeState (by omega) (by omega)
      have hcover : computeChecksumV2 img'.data = computeChecksumV2 img.data := by
        rw [hp'.data_eq, hp.data_eq]
        exact computeChecksumV2_congr hlen fun p _ _ hp => byte_writeState hp
      rw [checksumValid, checksumValid, hversion, hsame, hcover]

/-- A burst of up to four bytes of what is covered changes the checksum, the fields that are
not covered never do, and a concern in the state leaves the checksum of an image valid. -/
theorem checksum_coverage :
    (∀ data data' pre bs bs' post, footerV2Size ≤ data.len → data'.len = data.len →
      Slice.covered data = pre ++ bs ++ post → Slice.covered data' = pre ++ bs' ++ post →
      bs.length = bs'.length → bs.length ≤ 4 → bs ≠ bs' →
      computeChecksumV2 data ≠ computeChecksumV2 data') ∧
    (∀ data data' : Slice, data'.len = data.len →
      (∀ p < data.len, p < data.len - footerV2Size ∨ data.len - footerV2Size + 4 ≤ p →
        p < data.len - footerV2Size + 20 ∨ data.len - footerV2Size + 24 ≤ p →
        data'.byte p = data.byte p) → computeChecksumV2 data' = computeChecksumV2 data) ∧
    ∀ m data source img img', data.len ≤ m → footerV2Size ≤ data.len →
      (parse m data).val = .ok img →
      (parse m (data.writeState (FirmwareState.encodeConcern source))).val = .ok img' →
      img.checksumValid = true → img'.checksumValid = true := by
  refine ⟨?_, fun data data' hlen h => computeChecksumV2_congr hlen h, ?_⟩
  · intro data data' pre bs bs' post hlen hlen' h h' hsame hburst hne heq
    rw [computeChecksumV2_eq hlen, computeChecksumV2_eq (hlen' ▸ hlen), h, h'] at heq
    exact crc32Update_ne _ pre post hsame hburst hne ((UInt32.xor_left_inj _).mp heq)
  · intro m data source img img' hm hlen h h' hvalid
    rw [checksumValid_writeState hm hlen h h', hvalid]

/-- A byte of the first segment is another, and a concern is written to the state. -/
theorem checksum_coverage_sample :
    let image := PlacesBuilder.sample.build
    computeChecksumV2 image ≠ computeChecksumV2 { image with byte := write image.byte 1 [0xFF] } ∧
    ∃ img, (parse usize32 (image.writeState (FirmwareState.encodeConcern .kernel))).val = .ok img ∧
      img.checksumValid = true := by
  intro image
  obtain ⟨hburst, -, hconcern⟩ := checksum_coverage
  refine ⟨hburst image _ [1] [2] [0xFF] (image.covered.drop 2) (by decide +kernel) rfl
    (by decide +kernel) (by decide +kernel) rfl (by decide) (by decide), ?_⟩
  have hvalid : (parse usize32 image).val.toOption.map checksumValid = some true := by
    decide +kernel
  have hparsed : ((parse usize32 (image.writeState
      (FirmwareState.encodeConcern .kernel))).val.toOption.map formatVersion) = some 2 := by
    decide +kernel
  obtain ⟨img, himg, hsum⟩ := Fallible.ok_of_toOption_map hvalid
  obtain ⟨img', himg', -⟩ := Fallible.ok_of_toOption_map hparsed
  exact ⟨img', himg', hconcern usize32 image .kernel img img' (by decide +kernel)
    (by decide +kernel) himg himg' hsum⟩

end Rcard.Places
