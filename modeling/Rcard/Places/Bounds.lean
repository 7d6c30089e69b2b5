/-
Unchecked reads of an accepted image.

`parse` checks that the tables end in front of the footer and that the data of
each segment ends in front of the tables.  Both ends are sums that wrap on the
device, and an end that wraps passes for a small one.  The counts then still say
how far the tables are read.

`accepted_inBounds_iff` says exactly for which accepted images all reads are
inside: those whose tables and data ranges also end in front when the sums are
taken without wrapping.
-/
import Rcard.Places.Image

namespace Rcard.Places

def Inside (data : Slice) (offsets : List Nat) : Prop := ∀ p ∈ offsets, p < data.len

section Inside

variable {α β : Type} {data data' : Slice} {m : Nat}

theorem inside_pure (a : α) : Inside data (pure a : Read α).log := fun _ h => nomatch h

theorem inside_bind {x : Read α} {f : α → Read β} :
    Inside data (x >>= f).log ↔ Inside data x.log ∧ Inside data (f x.val).log := by
  simp [Inside, or_imp, forall_and]

variable {offset : Nat}

theorem inside_readLe {count : Nat} : Inside data (readLe m data' offset count).log ↔
    ∀ k < count, (offset + k) % m < data.len := by
  simp [Inside, readLe]

theorem inside_readU32 : Inside data (readU32 m data' offset).log ↔
    ∀ k < 4, (offset + k) % m < data.len := by
  rw [readU32, inside_bind, inside_readLe]
  exact and_iff_left (inside_pure _)

theorem inside_readU16 : Inside data (readU16 m data' offset).log ↔
    ∀ k < 2, (offset + k) % m < data.len := by
  rw [readU16, inside_bind, inside_readLe]
  exact and_iff_left (inside_pure _)

theorem inside_readU64 : Inside data (readU64 m data' offset).log ↔
    ∀ k < 8, (offset + k) % m < data.len := by
  rw [readU64, inside_bind, inside_readLe]
  exact and_iff_left (inside_pure _)

end Inside

/-! ## The entries of the tables -/

/-- The entry of 16 bytes at `base` is inside. -/
def EntryInside (data : Slice) (base : Nat) : Prop := ∀ t < 16, (base + t) % usize32 < data.len

theorem entryInside_iff {data : Slice} {base : Nat} (data' : Slice) :
    EntryInside data base ↔
      Inside data (readU32 usize32 data' base).log ∧
      Inside data (readU32 usize32 data' ((base + 4) % usize32)).log ∧
      Inside data (readU32 usize32 data' ((base + 8) % usize32)).log ∧
      Inside data (readU32 usize32 data' ((base + 12) % usize32)).log := by
  rw [inside_readU32, inside_readU32, inside_readU32, inside_readU32, EntryInside, usize32]
  constructor
  · intro h
    refine ⟨fun k hk => h k (by omega), fun k hk => ?_, fun k hk => ?_, fun k hk => ?_⟩
    · have := h (4 + k) (by omega)
      omega
    · have := h (8 + k) (by omega)
      omega
    · have := h (12 + k) (by omega)
      omega
  · rintro ⟨h₀, h₁, h₂, h₃⟩ t ht
    by_cases h4 : t < 4
    · exact h₀ t h4
    · by_cases h8 : t < 8
      · have := h₁ (t - 4) (by omega)
        omega
      · by_cases h12 : t < 12
        · have := h₂ (t - 8) (by omega)
          omega
        · have := h₃ (t - 12) (by omega)
          omega

theorem inside_partition_iff {img : PlacesImage} {i : Nat} :
    Inside img.data (img.partition usize32 i).log ↔
      EntryInside img.data ((img.tablesOffset.toNat + i * partitionSize % usize32) % usize32) := by
  rw [PlacesImage.partition, entryInside_iff img.data]
  simp only [inside_bind, inside_pure, and_true]

theorem inside_segment_iff {img : PlacesImage} {i : Nat} :
    Inside img.data (img.segment usize32 i).log ↔
      EntryInside img.data
        (segmentBase usize32 (partTableEnd usize32 img.tablesOffset img.partitionCount) i) := by
  rw [PlacesImage.segment, entryInside_iff img.data]
  simp only [inside_bind, inside_pure, and_true]
  rfl

/-- Entries that are all inside end inside, and the sum that says so does not wrap. -/
theorem entries_inside_iff {data : Slice} {base count : Nat} (hlen : data.len < usize32)
    (hbase : base < usize32) :
    (∀ i < count, EntryInside data ((base + i * 16 % usize32) % usize32)) ↔
      count = 0 ∨ base + 16 * count ≤ data.len := by
  simp only [EntryInside]
  unfold usize32 at *
  constructor
  · intro h
    by_contra hcon
    -- The first byte outside, or the first byte of all.
    by_cases hle : data.len ≤ base
    · have := h 0 (by omega) 0 (by omega)
      omega
    · have := h ((data.len - base) / 16) (by omega) ((data.len - base) % 16) (by omega)
      omega
  · rintro h i hi t ht
    omega

/-! ## The reads of each function -/

section Functions

variable {data : Slice} (hlen : data.len < usize32)
variable {img : PlacesImage}

theorem inside_findFrom {hash : UInt32} {i remaining : Nat}
    (h : ∀ j, i ≤ j → j < i + remaining → Inside img.data (img.partition usize32 j).log) :
    Inside img.data (img.findFrom usize32 hash i remaining).log := by
  induction remaining generalizing i with
  | zero => exact inside_pure none
  | succ remaining ih =>
    rw [PlacesImage.findFrom, inside_bind]
    refine ⟨h i (Nat.le_refl i) (by omega), ?_⟩
    split
    · exact inside_pure _
    · exact ih fun j hle hlt => h j (by omega) (by omega)

theorem inside_checkSegments {tableBase : Nat} {tablesOffset : UInt32} {i remaining : Nat}
    (h : ∀ j, i ≤ j → j < i + remaining → EntryInside data (segmentBase usize32 tableBase j)) :
    Inside data (checkSegments usize32 data tableBase tablesOffset i remaining).log := by
  induction remaining generalizing i with
  | zero => exact inside_pure _
  | succ remaining ih =>
    obtain ⟨_, hoffset, hsize, _⟩ := (entryInside_iff data).mp (h i (Nat.le_refl i) (by omega))
    rw [checkSegments, inside_bind, inside_bind]
    refine ⟨hoffset, hsize, ?_⟩
    split
    · exact inside_pure _
    · exact ih fun j hle hlt => h j (by omega) (by omega)

include hlen

theorem inside_readFooter (formatVersion : UInt32) :
    Inside data (readFooter usize32 data formatVersion).log := by
  rw [readFooter]
  split
  · exact inside_pure _
  · split
    · split
      · exact inside_pure _
      · rename_i hsize
        simp only [inside_bind, inside_readU32, inside_readU16, inside_readU64, inside_pure,
          and_true, footerV2Size, usize32] at hsize hlen ⊢
        refine ⟨?_, ?_, ?_, ?_, ?_, ?_⟩ <;> omega
    · exact inside_pure _

theorem inside_readTables (hsize : footerV1Size ≤ data.len) {formatVersion : UInt32}
    {footer : Footer} (himg : img = tablesImage usize32 data formatVersion footer)
    (hsegments : ∀ i < img.segmentCount.toNat, EntryInside data
      (segmentBase usize32 (partTableEnd usize32 img.tablesOffset img.partitionCount) i)) :
    Inside data (readTables usize32 data formatVersion footer).log := by
  have hcore : ∀ n ≤ 12, Inside data
      (readU32 usize32 data ((data.len - footerV1Size + n) % usize32)).log := by
    intro n hn
    rw [inside_readU32]
    unfold usize32 footerV1Size at *
    omega
  have hfirst : Inside data (readU32 usize32 data (data.len - footerV1Size)).log := by
    rw [inside_readU32]
    unfold usize32 footerV1Size at *
    omega
  rw [readTables, inside_bind, inside_bind, inside_bind, inside_bind]
  refine ⟨hfirst, hcore 4 (by omega), hcore 8 (by omega), hcore 12 (by omega), ?_⟩
  dsimp only
  split
  · exact inside_pure _
  · rw [inside_bind]
    subst himg
    refine ⟨inside_checkSegments fun j _ hj => hsegments j (by rwa [Nat.zero_add] at hj), ?_⟩
    split <;> exact inside_pure _

theorem inside_parse {footer : Footer} (h : ParsedAs usize32 data img footer)
    (hsegments : ∀ i < img.segmentCount.toNat, EntryInside data
      (segmentBase usize32 (partTableEnd usize32 img.tablesOffset img.partitionCount) i)) :
    Inside data (parse usize32 data).log := by
  have hsize := h.len
  have hfooter := h.footer_ok
  rw [h.formatVersion] at hfooter
  have hend : ∀ n, 4 ≤ n → n ≤ 8 → Inside data (readU32 usize32 data (data.len - n)).log := by
    intro n hge hle
    rw [inside_readU32]
    unfold usize32 footerV1Size at *
    omega
  rw [parse, if_neg (Nat.not_lt.mpr hsize), inside_bind, if_neg (not_not.mpr h.found), inside_bind,
    inside_bind, hfooter]
  exact ⟨hend 4 (by omega) (by omega), hend 8 (by omega) (by omega), inside_readFooter hlen _,
    inside_readTables hlen hsize h.eq_tablesImage hsegments⟩

end Functions

/-! ## Accepted images -/

structure InBounds (data : Slice) (img : PlacesImage) : Prop where
  parsed : Inside data (parse usize32 data).log
  partitions : ∀ i < img.partitionCount.toNat, Inside data (img.partition usize32 i).log
  segments : ∀ i < img.segmentCount.toNat, Inside data (img.segment usize32 i).log
  found : ∀ hash, Inside data (img.findPartition usize32 hash).log
  ranges : ∀ i < img.segmentCount.toNat,
    let seg := (img.segment usize32 i).val
    seg.fileOffset.toNat + seg.fileSize.toNat ≤ img.tablesOffset.toNat ∧
      seg.fileOffset.toNat + seg.fileSize.toNat ≤ data.len ∧
      seg.data.len = seg.fileSize.toNat

/-- The sums of the bounds checks without wrapping. -/
structure Unwrapped (data : Slice) (img : PlacesImage) : Prop where
  partitions : img.partitionCount.toNat = 0 ∨
    img.tablesOffset.toNat + 16 * img.partitionCount.toNat ≤ data.len
  segments : img.segmentCount.toNat = 0 ∨
    img.tablesOffset.toNat + 16 * img.partitionCount.toNat + 16 * img.segmentCount.toNat ≤ data.len
  ranges : ∀ i < img.segmentCount.toNat,
    let seg := (img.segment usize32 i).val
    seg.fileOffset.toNat + seg.fileSize.toNat < usize32

section Accepted

variable {data : Slice} {img : PlacesImage} (hlen : data.len < usize32)
include hlen

theorem partitions_inside_iff (hdata : img.data = data) :
    (∀ i < img.partitionCount.toNat, Inside data (img.partition usize32 i).log) ↔
      img.partitionCount.toNat = 0 ∨
        img.tablesOffset.toNat + 16 * img.partitionCount.toNat ≤ data.len := by
  subst hdata
  rw [← entries_inside_iff hlen img.tablesOffset.toNat_lt]
  exact forall₂_congr fun i _ => inside_partition_iff

/-- Where the partitions end inside, the segment table starts there. -/
theorem partTableEnd_eq (h : img.partitionCount.toNat = 0 ∨
      img.tablesOffset.toNat + 16 * img.partitionCount.toNat ≤ data.len) :
    partTableEnd usize32 img.tablesOffset img.partitionCount =
      img.tablesOffset.toNat + 16 * img.partitionCount.toNat := by
  have htables := img.tablesOffset.toNat_lt
  unfold partTableEnd partitionSize usize32 at *
  omega

theorem segments_inside_iff (hdata : img.data = data)
    (h : img.partitionCount.toNat = 0 ∨
      img.tablesOffset.toNat + 16 * img.partitionCount.toNat ≤ data.len) :
    (∀ i < img.segmentCount.toNat, Inside data (img.segment usize32 i).log) ↔
      img.segmentCount.toNat = 0 ∨
        img.tablesOffset.toNat + 16 * img.partitionCount.toNat + 16 * img.segmentCount.toNat ≤
          data.len := by
  have hbase := partTableEnd_eq hlen h
  have hlt : partTableEnd usize32 img.tablesOffset img.partitionCount < usize32 :=
    Nat.mod_lt _ (by decide)
  subst hdata
  rw [← hbase, ← entries_inside_iff hlen hlt]
  exact forall₂_congr fun i _ => inside_segment_iff

variable (h : (parse usize32 data).val = .ok img)
include h

theorem accepted_inBounds_iff : InBounds data img ↔ Unwrapped data img := by
  obtain ⟨footer, hp⟩ := parse_ok_iff.mp h
  have hdata := hp.data_eq
  constructor
  · intro hin
    have hpartitions := (partitions_inside_iff hlen hdata).mp hin.partitions
    refine ⟨hpartitions, (segments_inside_iff hlen hdata hpartitions).mp hin.segments, ?_⟩
    intro i hi
    exact Nat.lt_of_le_of_lt (hin.ranges i hi).1 img.tablesOffset.toNat_lt
  · intro hun
    have hpartitions := (partitions_inside_iff hlen hdata).mpr hun.partitions
    have hsegments := (segments_inside_iff hlen hdata hun.partitions).mpr hun.segments
    refine ⟨inside_parse hlen hp fun i hi => ?_, hpartitions, hsegments, fun hash => ?_, ?_⟩
    · subst hdata
      exact inside_segment_iff.mp (hsegments i hi)
    · subst hdata
      exact inside_findFrom fun j _ hj => hpartitions j (by rwa [Nat.zero_add] at hj)
    · intro i hi
      have hrange : RangeOk usize32 img.data _ img.tablesOffset i := hdata ▸ hp.ranges i hi
      have hnowrap := hun.ranges i hi
      have hend := hun.segments
      generalize hseg : (img.segment usize32 i).val = seg at hnowrap ⊢
      have hle : (seg.fileOffset.toNat + seg.fileSize.toNat) % usize32 ≤ img.tablesOffset.toNat :=
        hseg ▸ hrange
      have hdatalen : seg.data.len =
          (seg.fileOffset.toNat + seg.fileSize.toNat) % usize32 - seg.fileOffset.toNat :=
        hseg ▸ rfl
      rw [Nat.mod_eq_of_lt hnowrap] at hle hdatalen
      omega

end Accepted

def sliceOf (bytes : List UInt8) : Slice :=
  { len := bytes.length, byte := Mem.write (fun _ => 0) 0 bytes }

/-- Four bytes of a segment, the entries of a partition and of the segment, and a footer of
format version 1. -/
def smallImage : List UInt8 :=
  [0xAA, 0xBB, 0xCC, 0xDD] ++ [7, 0, 0, 0, 0, 0x10, 0, 0, 0, 0x20, 0, 0, 1, 0, 0, 0] ++
    [0, 0, 0, 0x20, 0, 0, 0, 0, 4, 0, 0, 0, 8, 0, 0, 0] ++
    [4, 0, 0, 0, 1, 0, 0, 0, 1, 0, 0, 0, 0, 0, 0, 0x20, 1, 0, 0, 0, 0x42, 0x43, 0x4C, 0x50]

theorem accepted_inBounds_iff_smallImage :
    ∃ img, (parse usize32 (sliceOf smallImage)).val = .ok img ∧ img.partitionCount = 1 ∧
      img.segmentCount = 1 ∧ InBounds (sliceOf smallImage) img := by
  refine ⟨_, rfl, rfl, rfl, (accepted_inBounds_iff (by decide) rfl).mpr ⟨.inr ?_, .inr ?_, ?_⟩⟩
  · decide
  · decide
  · decide

/-- A footer that names `0x10000000` partitions: 16 times that is zero in 32 bits. -/
def wrappedImage : List UInt8 :=
  [0, 0, 0, 0, 0, 0, 0, 0, 0, 0, 0, 0x10, 0, 0, 0, 0, 1, 0, 0, 0, 0x42, 0x43, 0x4C, 0x50]

theorem wrapped_count_read_outside :
    ∃ img, (parse usize32 (sliceOf wrappedImage)).val = .ok img ∧
      2 < img.partitionCount.toNat ∧
      ¬ Inside (sliceOf wrappedImage) (img.partition usize32 2).log := by
  refine ⟨_, rfl, by decide, fun h => ?_⟩
  exact absurd (h 32 (by decide)) (by decide)

end Rcard.Places
