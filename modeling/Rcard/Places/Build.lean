/-
Building an image and reading it back (`shared/places/src/lib.rs`).

The builder writes the data of the segments where the caller says, then the two
tables and the footer, field by field, and last the checksum over all of it.  The
writes from the tables on are one behind the other, so together they are one
write (`build_byte`).  What the reader reads is then a part of one list, and the
round trip is a matter of positions.

The builder runs on the host, where its sums do not wrap.
-/
import Rcard.Places.Image

namespace Rcard.Places

open List Mem Logged

structure BuilderSegment where
  dest : UInt32
  fileOffset : UInt32
  data : List UInt8
  memSize : UInt32
  /-- What `add_segment` asserts. -/
  fits : data.length ≤ memSize.toNat

structure PlacesBuilder where
  entryPoint : UInt32
  version : Version
  flashTimestamp : UInt64
  partitions : List Partition
  segments : List BuilderSegment

def partUnmapped : UInt32 := 1

def partManaged : UInt32 := 2

/-- The hash under which a partition is looked up. -/
def nameHash (name : List UInt8) : UInt32 :=
  name.foldl (fun h b => (h ^^^ b.toUInt32) * 0x01000193) 0x811C9DC5

def writeU32 (out : Nat → UInt8) (offset : Nat) (v : UInt32) : Nat → UInt8 :=
  write out offset (leBytes 4 v.toNat)

def writeU16 (out : Nat → UInt8) (offset : Nat) (v : UInt16) : Nat → UInt8 :=
  write out offset (leBytes 2 v.toNat)

def writeU64 (out : Nat → UInt8) (offset : Nat) (v : UInt64) : Nat → UInt8 :=
  write out offset (leBytes 8 v.toNat)

def BuilderSegment.stop (s : BuilderSegment) : Nat := s.fileOffset.toNat + s.data.length

/-- The four words of an entry of a table. -/
structure Entry where
  first : UInt32
  second : UInt32
  third : UInt32
  fourth : UInt32
  deriving DecidableEq, Repr

def Partition.entry (p : Partition) : Entry := ⟨p.nameHash, p.offset, p.size, p.flags⟩

def BuilderSegment.entry (s : BuilderSegment) : Entry :=
  ⟨s.dest, s.fileOffset, UInt32.ofNat s.data.length, s.memSize⟩

/-- The loop that writes a table. -/
def writeTable (out : Nat → UInt8) (base : Nat) : List Entry → Nat → UInt8
  | [] => out
  | e :: es =>
    let out := writeU32 out base e.first
    let out := writeU32 out (base + 4) e.second
    let out := writeU32 out (base + 8) e.third
    let out := writeU32 out (base + 12) e.fourth
    writeTable out (base + 16) es

/-- What a segment says, on either side. -/
structure SegmentContent where
  dest : UInt32
  fileOffset : UInt32
  data : List UInt8
  memSize : UInt32
  deriving DecidableEq, Repr

def BuilderSegment.content (s : BuilderSegment) : SegmentContent :=
  ⟨s.dest, s.fileOffset, s.data, s.memSize⟩

def Segment.content (s : Segment) : SegmentContent :=
  ⟨s.dest, s.fileOffset, slice s.data.byte 0 s.data.len, s.memSize⟩

namespace PlacesBuilder

variable (b : PlacesBuilder)

def dataEnd : Nat := (b.segments.map BuilderSegment.stop).foldr max 0

def tablesOffset : Nat := (b.dataEnd + 3) / 4 * 4

def total : Nat :=
  b.tablesOffset + b.partitions.length * partitionSize + b.segments.length * segmentSize +
    footerV2Size

def writeSegments (out : Nat → UInt8) (segments : List BuilderSegment) : Nat → UInt8 :=
  segments.foldl (fun out s => write out s.fileOffset.toNat s.data) out

def writeTables (out : Nat → UInt8) : Nat → UInt8 :=
  let out := writeTable out b.tablesOffset (b.partitions.map Partition.entry)
  writeTable out (b.tablesOffset + b.partitions.length * partitionSize)
    (b.segments.map BuilderSegment.entry)

def writeFooter (out : Nat → UInt8) (fb : Nat) : Nat → UInt8 :=
  let out := writeU32 out fb 0
  let out := writeU16 out (fb + 4) b.version.major
  let out := writeU16 out (fb + 6) b.version.minor
  let out := writeU16 out (fb + 8) b.version.patch
  let out := writeU16 out (fb + 10) 0xFFFF
  let out := writeU64 out (fb + 12) b.flashTimestamp
  let out := writeU32 out (fb + 20) stateDefaultRaw
  let out := writeU32 out (fb + 24) (UInt32.ofNat b.tablesOffset)
  let out := writeU32 out (fb + 28) (UInt32.ofNat b.segments.length)
  let out := writeU32 out (fb + 32) (UInt32.ofNat b.partitions.length)
  let out := writeU32 out (fb + 36) b.entryPoint
  let out := writeU32 out (fb + 40) version2
  writeU32 out (fb + 44) magic

def build : Slice :=
  let out := writeSegments (fun _ => 0xFF) b.segments
  let out := b.writeTables out
  let fb := b.total - footerV2Size
  let out := b.writeFooter out fb
  let checksum := computeChecksumV2 { len := b.total, byte := out }
  { len := b.total, byte := writeU32 out fb checksum }

/-- No byte of the file belongs to two segments. -/
def Disjoint : Prop :=
  b.segments.Pairwise fun s t =>
    ∀ p, s.fileOffset.toNat ≤ p → p < s.stop → t.fileOffset.toNat ≤ p → t.stop ≤ p

end PlacesBuilder

/-! ## One write -/

def Entry.bytes (e : Entry) : List UInt8 :=
  leBytes 4 e.first.toNat ++ leBytes 4 e.second.toNat ++ leBytes 4 e.third.toNat ++
    leBytes 4 e.fourth.toNat

section

variable (b : PlacesBuilder) (checksum formatVersion : UInt32)

def footerFields : List (List UInt8) :=
  [leBytes 4 checksum.toNat, leBytes 2 b.version.major.toNat, leBytes 2 b.version.minor.toNat,
    leBytes 2 b.version.patch.toNat, leBytes 2 0xFFFF, leBytes 8 b.flashTimestamp.toNat,
    leBytes 4 stateDefaultRaw.toNat, leBytes 4 (UInt32.ofNat b.tablesOffset).toNat,
    leBytes 4 (UInt32.ofNat b.segments.length).toNat,
    leBytes 4 (UInt32.ofNat b.partitions.length).toNat, leBytes 4 b.entryPoint.toNat,
    leBytes 4 formatVersion.toNat, leBytes 4 magic.toNat]

def footerBytes : List UInt8 := (footerFields b checksum formatVersion).flatten

theorem length_footerBytes : (footerBytes b checksum formatVersion).length = footerV2Size := by
  simp [footerBytes, footerFields, footerV2Size]

end

theorem length_entryBytes (e : Entry) : e.bytes.length = 16 := by
  simp [Entry.bytes]

theorem length_tableBytes (es : List Entry) : (es.flatMap Entry.bytes).length = 16 * es.length := by
  induction es with
  | nil => rfl
  | cons e es ih =>
    rw [flatMap_cons, length_append, ih, length_entryBytes, length_cons]
    omega

theorem writeTable_eq (out : Nat → UInt8) (base : Nat) (es : List Entry) :
    writeTable out base es = write out base (es.flatMap Entry.bytes) := by
  induction es generalizing out base with
  | nil => exact (write_nil out base).symm
  | cons e es ih =>
    have hentry : writeU32 (writeU32 (writeU32 (writeU32 out base e.first) (base + 4) e.second)
        (base + 8) e.third) (base + 12) e.fourth = write out base e.bytes := by
      simp (disch := simp) only [writeU32, write_append, Entry.bytes]
    rw [writeTable, ih, hentry, flatMap_cons, write_append out base (length_entryBytes e)]

theorem writeFooter_eq (b : PlacesBuilder) (out : Nat → UInt8) (fb : Nat) :
    b.writeFooter out fb = write out fb (footerBytes b 0 version2) := by
  simp (disch := simp) only [PlacesBuilder.writeFooter, writeU32, writeU16, writeU64,
    write_append, footerBytes, footerFields, flatten_cons, flatten_nil,
    append_nil, append_assoc]
  rfl

namespace PlacesBuilder

variable (b : PlacesBuilder)

def dataRegion : Nat → UInt8 := writeSegments (fun _ => 0xFF) b.segments

/-- The entries of both tables. -/
def entries : List Entry :=
  b.partitions.map Partition.entry ++ b.segments.map BuilderSegment.entry

def tableBytes : List UInt8 := b.entries.flatMap Entry.bytes

section

variable (checksum formatVersion : UInt32)

def tailBytes : List UInt8 := b.tableBytes ++ footerBytes b checksum formatVersion

/-- The image with a checksum and a format version. -/
def imageWith : Slice :=
  { len := b.total
    byte := write b.dataRegion b.tablesOffset (b.tailBytes checksum formatVersion) }

theorem len_imageWith : (b.imageWith checksum formatVersion).len = b.total := rfl

end

def checksum : UInt32 := computeChecksumV2 (b.imageWith 0 version2)

theorem length_tableBytes : b.tableBytes.length = 16 * b.partitions.length +
    16 * b.segments.length := by
  rw [tableBytes, Places.length_tableBytes, entries, length_append, length_map, length_map,
    Nat.mul_add]

theorem footer_start : b.total - footerV2Size = b.tablesOffset + b.tableBytes.length := by
  rw [length_tableBytes, total, partitionSize, segmentSize]
  omega

theorem writeTables_eq (out : Nat → UInt8) :
    b.writeTables out = write out b.tablesOffset b.tableBytes := by
  have hlen : ((b.partitions.map Partition.entry).flatMap Entry.bytes).length =
      b.partitions.length * partitionSize := by
    rw [Places.length_tableBytes, length_map, partitionSize, Nat.mul_comm]
  rw [writeTables, writeTable_eq, writeTable_eq, write_append _ _ hlen, tableBytes, entries,
    flatMap_append]

theorem writeChecksum_eq (out : Nat → UInt8) (fb : Nat) (c : UInt32) :
    writeU32 (write out fb (footerBytes b 0 version2)) fb c =
      write out fb (footerBytes b c version2) := by
  rw [writeU32, footerBytes, footerFields, flatten_cons, write_overwrite out fb (by simp)]
  rfl

theorem writeFooter_tables : b.writeFooter (b.writeTables b.dataRegion) (b.total - footerV2Size) =
    (b.imageWith 0 version2).byte := by
  rw [writeFooter_eq, writeTables_eq, footer_start, write_append _ _ rfl]
  rfl

theorem writeChecksum_image (c : UInt32) :
    writeU32 (b.imageWith 0 version2).byte (b.total - footerV2Size) c =
      (b.imageWith c version2).byte := by
  rw [← writeFooter_tables, writeFooter_eq, writeChecksum_eq, writeTables_eq, footer_start,
    write_append _ _ rfl]
  rfl

theorem build_eq : b.build = b.imageWith b.checksum version2 := by
  have hbuild : b.build =
      { len := b.total
        byte := writeU32 (b.writeFooter (b.writeTables b.dataRegion) (b.total - footerV2Size))
          (b.total - footerV2Size)
          (computeChecksumV2
            { len := b.total
              byte := b.writeFooter (b.writeTables b.dataRegion) (b.total - footerV2Size) }) } :=
    rfl
  rw [hbuild, writeFooter_tables]
  show ({ len := b.total, byte := writeU32 _ _ b.checksum } : Slice) = _
  rw [writeChecksum_image]
  rfl

theorem computeChecksumV2_imageWith (c : UInt32) :
    computeChecksumV2 (b.imageWith c version2) = b.checksum := by
  refine computeChecksumV2_congr rfl fun p _ hp _ => ?_
  rw [len_imageWith] at hp
  rw [← writeChecksum_image]
  rcases hp with hlt | hge
  · exact write_of_lt _ _ hlt
  · exact write_of_ge _ (by simpa using hge)

/-! ## Reading fields -/

section Read

variable {b} {c v : UInt32}

theorem slice_table {k n : Nat} (h : k + n ≤ b.tableBytes.length) :
    slice (b.imageWith c v).byte (b.tablesOffset + k) n = (b.tableBytes.drop k).take n := by
  rw [imageWith, slice_write_part _ _ (by rw [tailBytes, length_append]; omega), tailBytes,
    drop_append_of_le_length (by omega), take_append_of_le_length (by rw [length_drop]; omega)]

theorem slice_footer {k n : Nat} (h : k + n ≤ footerV2Size) :
    slice (b.imageWith c v).byte (b.total - footerV2Size + k) n =
      ((footerBytes b c v).drop k).take n := by
  have hlen : b.tableBytes.length + k + n ≤ (b.tailBytes c v).length := by
    rw [tailBytes, length_append, length_footerBytes]
    omega
  rw [imageWith, footer_start, Nat.add_assoc, slice_write_part _ _ (by omega), tailBytes,
    drop_append, drop_of_length_le (Nat.le_add_right _ _), nil_append, Nat.add_sub_cancel_left]

variable {i : Nat} {s : BuilderSegment}

theorem drop_entries {es : List Entry} {e : Entry} (h : es[i]? = some e) :
    (es.flatMap Entry.bytes).drop (16 * i) = e.bytes ++ (es.drop (i + 1)).flatMap Entry.bytes := by
  induction es generalizing i with
  | nil => cases h
  | cons e' es ih =>
    cases i with
    | zero =>
      cases h
      rfl
    | succ i =>
      rw [flatMap_cons, drop_append, drop_of_length_le (by rw [length_entryBytes]; omega),
        length_entryBytes, show 16 * (i + 1) - 16 = 16 * i by omega, ih h]
      rfl

variable {m : Nat} (hm : usize32 ≤ m) (htotal : b.total < usize32)
include hm htotal

theorem readEntry {base : Nat} {e : Entry} (he : b.entries[i]? = some e)
    (hbase : base = b.tablesOffset + 16 * i) :
    (readU32 m (b.imageWith c v) base).val = e.first ∧
      (readU32 m (b.imageWith c v) ((base + 4) % m)).val = e.second ∧
      (readU32 m (b.imageWith c v) ((base + 8) % m)).val = e.third ∧
      (readU32 m (b.imageWith c v) ((base + 12) % m)).val = e.fourth := by
  have hi : i < b.entries.length := (List.getElem?_eq_some_iff.mp he).1
  have hlen : b.tableBytes.length = 16 * b.entries.length := Places.length_tableBytes _
  have hend : b.tablesOffset + 16 * b.entries.length < m := by
    have hstart := b.footer_start
    omega
  have hword : ∀ k, k + 4 ≤ 16 → slice (b.imageWith c v).byte (base + k) 4 =
      (e.bytes.drop k).take 4 := by
    intro k hk
    rw [hbase, Nat.add_assoc, slice_table (by omega), ← drop_drop, tableBytes, drop_entries he,
      drop_append_of_le_length (by rw [length_entryBytes]; omega),
      take_append_of_le_length (by rw [length_drop, length_entryBytes]; omega)]
  rw [Nat.mod_eq_of_lt (by omega), Nat.mod_eq_of_lt (by omega), Nat.mod_eq_of_lt (by omega)]
  exact ⟨readU32_val (by omega) (hword 0 (by omega)), readU32_val (by omega) (hword 4 (by omega)),
    readU32_val (by omega) (hword 8 (by omega)), readU32_val (by omega) (hword 12 (by omega))⟩

omit hm htotal in
theorem slice_field {j k n : Nat} {f : List UInt8} (hf : (footerFields b c v)[j]? = some f)
    (hk : ((footerFields b c v).take j).flatten.length = k) (hn : f.length = n) :
    slice (b.imageWith c v).byte (b.total - footerV2Size + k) n = f := by
  subst hk hn
  have hsplit : footerBytes b c v = ((footerFields b c v).take j).flatten ++
      (f ++ ((footerFields b c v).drop (j + 1)).flatten) := by
    obtain ⟨hj, rfl⟩ := List.getElem?_eq_some_iff.mp hf
    rw [← flatten_cons, getElem_cons_drop, ← flatten_append, take_append_drop, footerBytes]
  have hlen := congrArg List.length hsplit
  rw [length_footerBytes, length_append, length_append] at hlen
  rw [slice_footer (by omega), hsplit, drop_left, take_left]

omit hm htotal in
theorem readFooterU32 (hlen : b.total ≤ m) {j k : Nat} {x : UInt32}
    (hf : (footerFields b c v)[j]? = some (leBytes 4 x.toNat))
    (hk : ((footerFields b c v).take j).flatten.length = k) {offset : Nat}
    (hoffset : offset = b.total - footerV2Size + k) (hfit : k + 4 ≤ footerV2Size) :
    (readU32 m (b.imageWith c v) offset).val = x := by
  subst hoffset
  have hsize : footerV2Size ≤ b.total := Nat.le_add_left _ _
  exact readU32_val (by omega) (slice_field hf hk (by simp))

/-- The footer the reader finds. -/
def footerOf (b : PlacesBuilder) (c v : UInt32) : Footer :=
  if v = version1 then
    { size := footerV1Size, checksum := 0, version := ⟨0, 0, 0⟩, flashTimestamp := 0
      stateRaw := stateDefaultRaw }
  else
    { size := footerV2Size, checksum := c, version := b.version
      flashTimestamp := b.flashTimestamp, stateRaw := stateDefaultRaw }

omit hm htotal in
theorem size_footerOf_le (b : PlacesBuilder) (c v : UInt32) :
    (b.footerOf c v).size ≤ footerV2Size := by
  rw [footerOf]
  split
  · decide
  · exact Nat.le_refl _

theorem readFooter_val (hv : v = version1 ∨ v = version2) :
    (readFooter m (b.imageWith c v) v).val = .ok (b.footerOf c v) := by
  have hsize : footerV2Size ≤ b.total := Nat.le_add_left _ _
  have hlen : b.total ≤ m := by omega
  rcases hv with rfl | rfl
  · rfl
  · have hsize' : footerV2Size = 48 := rfl
    have hmod : ∀ k, k < 48 → (b.total - footerV2Size + k) % m = b.total - footerV2Size + k :=
      fun k hk => Nat.mod_eq_of_lt (by omega)
    have hchecksum : (readU32 m (b.imageWith c version2) (b.total - footerV2Size)).val = c :=
      readFooterU32 hlen (j := 0) (k := 0) rfl rfl rfl (by decide)
    have hmajor : (readU16 m (b.imageWith c version2) (b.total - footerV2Size + 4)).val =
        b.version.major :=
      readU16_val (by omega) (slice_field (j := 1) rfl (by simp [footerFields]) (by simp))
    have hminor : (readU16 m (b.imageWith c version2) (b.total - footerV2Size + 6)).val =
        b.version.minor :=
      readU16_val (by omega) (slice_field (j := 2) rfl (by simp [footerFields]) (by simp))
    have hpatch : (readU16 m (b.imageWith c version2) (b.total - footerV2Size + 8)).val =
        b.version.patch :=
      readU16_val (by omega) (slice_field (j := 3) rfl (by simp [footerFields]) (by simp))
    have htime : (readU64 m (b.imageWith c version2) (b.total - footerV2Size + 12)).val =
        b.flashTimestamp :=
      readU64_val (by omega) (slice_field (j := 5) rfl (by simp [footerFields]) (by simp))
    have hstate : (readU32 m (b.imageWith c version2) (b.total - footerV2Size + 20)).val =
        stateDefaultRaw :=
      readFooterU32 hlen (j := 6) rfl (by simp [footerFields]) rfl (by decide)
    rw [readFooter, if_neg (by decide), if_pos rfl, if_neg (Nat.not_lt.mpr (by exact hsize))]
    simp only [val_bind, len_imageWith, hmod 4 (by decide), hmod 6 (by decide), hmod 8 (by decide),
      hmod 12 (by decide), hmod 20 (by decide), hchecksum, hmajor, hminor, hpatch, htime, hstate]
    rfl

/-- The image the reader finds. -/
def parsedImage (b : PlacesBuilder) (c v : UInt32) : PlacesImage where
  data := b.imageWith c v
  formatVersion := v
  entryPoint := b.entryPoint
  partitionCount := UInt32.ofNat b.partitions.length
  segmentCount := UInt32.ofNat b.segments.length
  tablesOffset := UInt32.ofNat b.tablesOffset
  checksum := (b.footerOf c v).checksum
  version := (b.footerOf c v).version
  flashTimestamp := (b.footerOf c v).flashTimestamp
  stateRaw := (b.footerOf c v).stateRaw

omit hm in
theorem toNat_counts : (UInt32.ofNat b.tablesOffset).toNat = b.tablesOffset ∧
    (UInt32.ofNat b.partitions.length).toNat = b.partitions.length ∧
    (UInt32.ofNat b.segments.length).toNat = b.segments.length := by
  simp only [UInt32.toNat_ofNat']
  unfold total usize32 partitionSize segmentSize at *
  omega

theorem partTableEnd_build :
    partTableEnd m (UInt32.ofNat b.tablesOffset) (UInt32.ofNat b.partitions.length) =
      b.tablesOffset + 16 * b.partitions.length := by
  obtain ⟨htables, hpartitions, _⟩ := toNat_counts htotal
  rw [partTableEnd, htables, hpartitions]
  unfold total partitionSize segmentSize at *
  have hinner : b.partitions.length * 16 % m = b.partitions.length * 16 :=
    Nat.mod_eq_of_lt (by omega)
  rw [hinner, Nat.mod_eq_of_lt (by omega), Nat.mul_comm]

theorem tables_fit_build {size : Nat} (hsize : size ≤ footerV2Size) :
    ((partTableEnd m (UInt32.ofNat b.tablesOffset) (UInt32.ofNat b.partitions.length) +
      (UInt32.ofNat b.segments.length).toNat * segmentSize % m) % m + size) % m ≤ b.total := by
  rw [partTableEnd_build hm htotal, (toNat_counts htotal).2.2]
  unfold total partitionSize segmentSize at *
  have hinner : b.segments.length * 16 % m = b.segments.length * 16 :=
    Nat.mod_eq_of_lt (by omega)
  have hend : (b.tablesOffset + 16 * b.partitions.length + b.segments.length * 16) % m =
      b.tablesOffset + 16 * b.partitions.length + b.segments.length * 16 :=
    Nat.mod_eq_of_lt (by omega)
  rw [hinner, Nat.mod_eq_of_lt (by omega)]
  omega

theorem segmentBase_build (hi : i < b.segments.length) :
    segmentBase m (b.tablesOffset + 16 * b.partitions.length) i =
      b.tablesOffset + 16 * (b.partitions.length + i) := by
  rw [segmentBase]
  unfold total partitionSize segmentSize at *
  have hinner : i * 16 % m = i * 16 := Nat.mod_eq_of_lt (by omega)
  rw [Nat.mod_eq_of_lt (by omega)]
  omega

omit hm htotal in
theorem getElem?_entries_segment (hs : b.segments[i]? = some s) :
    b.entries[b.partitions.length + i]? = some s.entry := by
  grind [entries]

omit hm htotal in
theorem getElem?_entries_partition {p : Partition} (hp : b.partitions[i]? = some p) :
    b.entries[i]? = some p.entry := by
  grind [entries]

omit hm htotal in
theorem stop_le_tablesOffset (hs : s ∈ b.segments) : s.stop ≤ b.tablesOffset := by
  have hle : ∀ l : List Nat, ∀ x ∈ l, x ≤ l.foldr max 0 := by
    intro l x hx
    induction l with
    | nil => cases hx
    | cons y l ih =>
      grind
  have hend : s.stop ≤ b.dataEnd := hle _ _ (mem_map_of_mem hs)
  rw [tablesOffset]
  omega

omit hm htotal in
theorem toNat_length (s : BuilderSegment) : (UInt32.ofNat s.data.length).toNat = s.data.length := by
  have hfits := s.fits
  have hmem := s.memSize.toNat_lt
  rw [UInt32.toNat_ofNat']
  omega

theorem rangeOk_build (hi : i < b.segments.length) :
    RangeOk m (b.imageWith c v) (b.tablesOffset + 16 * b.partitions.length)
      (UInt32.ofNat b.tablesOffset) i := by
  obtain ⟨_, hoffset, hsize, _⟩ := readEntry (c := c) (v := v) hm htotal
    (getElem?_entries_segment (getElem?_eq_getElem hi)) (segmentBase_build hm htotal hi)
  have hstop := stop_le_tablesOffset (getElem_mem hi)
  rw [RangeOk, hoffset, hsize, (toNat_counts htotal).1, BuilderSegment.entry, toNat_length]
  exact Nat.le_trans (Nat.mod_le _ _) hstop

theorem parsedAs_build (hv : v = version1 ∨ v = version2) :
    ParsedAs m (b.imageWith c v) (b.parsedImage c v) (b.footerOf c v) := by
  have hsize : footerV2Size ≤ b.total := Nat.le_add_left _ _
  have hsize' : footerV2Size = 48 := rfl
  have hcore' : footerV1Size = 24 := rfl
  have hlen : b.total ≤ m := by omega
  have hcore : ∀ k, k < 24 → (b.total - footerV1Size + k) % m =
      b.total - footerV2Size + 24 + k := by
    intro k hk
    rw [Nat.mod_eq_of_lt (by omega)]
    omega
  obtain ⟨_, _, hsegments⟩ := toNat_counts htotal
  have htableEnd := partTableEnd_build hm htotal
  refine
    { data_eq := rfl
      len := Nat.le_trans (by decide) hsize
      found := readFooterU32 hlen (j := 12) (k := 44) rfl (by simp [footerFields]) ?_ (by decide)
      formatVersion := (readFooterU32 hlen (j := 11) (k := 40) rfl (by simp [footerFields]) ?_
        (by decide)).symm
      footer_ok := readFooter_val hm htotal hv
      tablesOffset := (readFooterU32 hlen (j := 7) (k := 24) rfl (by simp [footerFields]) ?_
        (by decide)).symm
      segmentCount := (readFooterU32 hlen (j := 8) (k := 28) rfl (by simp [footerFields])
        (hcore 4 (by decide)) (by decide)).symm
      partitionCount := (readFooterU32 hlen (j := 9) (k := 32) rfl (by simp [footerFields])
        (hcore 8 (by decide)) (by decide)).symm
      entryPoint := (readFooterU32 hlen (j := 10) (k := 36) rfl (by simp [footerFields])
        (hcore 12 (by decide)) (by decide)).symm
      checksum := rfl
      version := rfl
      flashTimestamp := rfl
      stateRaw := rfl
      fits := ?_
      ranges := ?_ }
  · rw [len_imageWith]
    omega
  · rw [len_imageWith]
    omega
  · rw [len_imageWith]
    omega
  · exact tables_fit_build hm htotal (size_footerOf_le b c v)
  · intro i hi
    show RangeOk m _ (partTableEnd m (UInt32.ofNat b.tablesOffset)
      (UInt32.ofNat b.partitions.length)) (UInt32.ofNat b.tablesOffset) i
    rw [htableEnd]
    exact rangeOk_build hm htotal (hsegments ▸ hi)

theorem partition_build {p : Partition} (hp : b.partitions[i]? = some p) :
    ((b.parsedImage c v).partition m i).val = p := by
  have hi : i < b.partitions.length := (List.getElem?_eq_some_iff.mp hp).1
  have hbase : ((UInt32.ofNat b.tablesOffset).toNat + i * partitionSize % m) % m =
      b.tablesOffset + 16 * i := by
    rw [(toNat_counts htotal).1]
    unfold total partitionSize segmentSize at *
    have hinner : i * 16 % m = i * 16 := Nat.mod_eq_of_lt (by omega)
    rw [hinner, Nat.mod_eq_of_lt (by omega), Nat.mul_comm]
  obtain ⟨hfirst, hsecond, hthird, hfourth⟩ := readEntry (c := c) (v := v) hm htotal
    (getElem?_entries_partition hp) hbase
  simp only [PlacesImage.partition, parsedImage, val_bind, hfirst, hsecond, hthird, hfourth]
  rfl

omit hm htotal in
theorem map_range_eq {α β : Type} {l : List α} {n : Nat} {f : Nat → β} {g : α → β}
    (hn : n = l.length) (h : ∀ i x, l[i]? = some x → f i = g x) :
    (List.range n).map f = l.map g := by
  apply ext_getElem (by simp [hn])
  grind

theorem partitions_build : (b.parsedImage c v).partitions m = b.partitions := by
  have hmap := map_range_eq (g := id) (toNat_counts htotal).2.1 fun i p hp =>
    partition_build (c := c) (v := v) hm htotal hp
  rw [map_id] at hmap
  exact hmap

/-! ## The data of the segments -/

omit hm htotal in
theorem slice_imageWith (hdisjoint : b.Disjoint) (hs : s ∈ b.segments) :
    slice (b.imageWith c v).byte s.fileOffset.toNat s.data.length = s.data := by
  rw [imageWith, slice_write_of_disjoint _ (.inl (stop_le_tablesOffset hs))]
  exact slice_writeAll hdisjoint hs

theorem segment_build (hdisjoint : b.Disjoint) (hs : b.segments[i]? = some s) :
    ((b.parsedImage c v).segment m i).val.content = s.content := by
  have hi : i < b.segments.length := (List.getElem?_eq_some_iff.mp hs).1
  have hstop : s.fileOffset.toNat + s.data.length ≤ b.tablesOffset :=
    stop_le_tablesOffset (mem_of_getElem? hs)
  have htables : b.tablesOffset ≤ b.total := by
    rw [total]
    omega
  obtain ⟨hfirst, hsecond, hthird, hfourth⟩ := readEntry (c := c) (v := v) hm htotal
    (getElem?_entries_segment hs)
    ((congrArg (segmentBase m · i) (partTableEnd_build hm htotal)).trans
      (segmentBase_build hm htotal hi))
  have hdata := slice_imageWith (c := c) (v := v) hdisjoint (mem_of_getElem? hs)
  have hlen : (s.fileOffset.toNat + (UInt32.ofNat s.data.length).toNat) % m -
      s.fileOffset.toNat = s.data.length := by
    rw [toNat_length, Nat.mod_eq_of_lt (by omega)]
    omega
  have hshift : slice (fun k => (b.imageWith c v).byte (s.fileOffset.toNat + k)) 0
      s.data.length = s.data := by grind [slice]
  rw [segmentBase] at hfirst hsecond hthird hfourth
  simp only [PlacesImage.segment, parsedImage, val_bind, val_pure, hfirst, hsecond, hthird, hfourth,
    BuilderSegment.entry, Segment.content, BuilderSegment.content, hlen, hshift]

theorem segments_build (hdisjoint : b.Disjoint) :
    ((b.parsedImage c v).segments m).map Segment.content =
      b.segments.map BuilderSegment.content := by
  rw [PlacesImage.segments, map_map]
  exact map_range_eq (toNat_counts htotal).2.2 fun i s hs => segment_build hm htotal hdisjoint hs

end Read

/-- An image is read back as it was built. -/
theorem parse_build {b : PlacesBuilder} (hdisjoint : b.Disjoint) (htotal : b.total < usize32)
    {m : Nat} (hm : usize32 ≤ m) :
    ∃ img, (parse m b.build).val = .ok img ∧ img.entryPoint = b.entryPoint ∧
      img.version = b.version ∧ img.flashTimestamp = b.flashTimestamp ∧
      img.partitions m = b.partitions ∧
      (img.segments m).map Segment.content = b.segments.map BuilderSegment.content ∧
      img.checksumValid = true ∧ img.firmwareState = .default := by
  have hvalid : (b.parsedImage b.checksum version2).checksumValid = true := by
    show decide (computeChecksumV2 (b.imageWith b.checksum version2) = b.checksum) = true
    rw [computeChecksumV2_imageWith]
    exact decide_eq_true rfl
  rw [build_eq]
  refine ⟨b.parsedImage b.checksum version2,
    parse_ok_iff.mpr ⟨_, parsedAs_build hm htotal (.inr rfl)⟩, rfl, rfl, rfl,
    partitions_build hm htotal, segments_build hm htotal hdisjoint, hvalid, ?_⟩
  rw [PlacesImage.firmwareState, if_neg (by simp [hvalid])]
  rfl

/-- One partition, and two segments with a gap between them. -/
def sample : PlacesBuilder where
  entryPoint := 0x20000100
  version := ⟨1, 4, 2⟩
  flashTimestamp := 1700000000
  partitions := [⟨7, 0x5000, 0x100, 0⟩]
  segments := [⟨0x12000000, 0, [1, 2, 3], 4, by decide⟩, ⟨0x20000000, 8, [9], 16, by decide⟩]

theorem sample_disjoint : sample.Disjoint := by
  refine pairwise_pair.mpr ?_
  grind [BuilderSegment.stop]

theorem parse_build_sample :
    ∃ img, (parse usize32 sample.build).val = .ok img ∧ img.entryPoint = sample.entryPoint ∧
      img.version = sample.version ∧ img.flashTimestamp = sample.flashTimestamp ∧
      img.partitions usize32 = sample.partitions ∧
      (img.segments usize32).map Segment.content = sample.segments.map BuilderSegment.content ∧
      img.checksumValid = true ∧ img.firmwareState = .default :=
  parse_build sample_disjoint (by decide) (Nat.le_refl _)

end PlacesBuilder

end Rcard.Places
