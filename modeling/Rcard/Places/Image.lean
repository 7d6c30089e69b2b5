/-
The firmware image format (`shared/places/src/lib.rs`), reader side.

An image is a byte slice whose tables and footer stand at its end.  The reader
checks the bounds once, in `parse`, and then reads without checks.  So a slice is
modelled with the memory behind it, and every read records where it reads.

The arithmetic of the reader is that of `usize`, which wraps.  `m` is the number
of its values: `0x100000000` on the device, more on the host.
-/
import Mathlib.Logic.Function.Iterate
import Rcard.Lib.Le
import Rcard.Lib.Logged
import Rcard.Lib.Mem

namespace Rcard.Places

open Mem List Logged

/-- `usize` on the device. -/
def usize32 : Nat := 0x100000000

def magic : UInt32 := 0x504C4342
def version1 : UInt32 := 1
def version2 : UInt32 := 2
def footerV1Size : Nat := 24
def footerV2Size : Nat := 48
def partitionSize : Nat := 16
def segmentSize : Nat := 16

/-! ## The checksum -/

def crcShift (crc : UInt32) : UInt32 :=
  if crc &&& 1 ≠ 0 then (crc >>> 1) ^^^ 0xEDB88320 else crc >>> 1

def crc32Init : UInt32 := 0xFFFFFFFF

/-- `CRC32_TABLE`. -/
def crc32Table (index : UInt32) : UInt32 := crcShift^[8] index

def crc32Step (crc : UInt32) (b : UInt8) : UInt32 :=
  (crc >>> 8) ^^^ crc32Table ((crc ^^^ b.toUInt32) &&& 0xFF)

def crc32Update (crc : UInt32) (data : List UInt8) : UInt32 := data.foldl crc32Step crc

/-! ## Firmware states -/

inductive ConcernSource where
  | watchdog
  | kernel
  | supervisor
  | runtime
  deriving DecidableEq, Repr

def ConcernSource.fromTag (tag : UInt8) : Option ConcernSource :=
  if tag = 1 then some watchdog
  else if tag = 2 then some kernel
  else if tag = 3 then some supervisor
  else if tag = 4 then some runtime
  else none

def stateDefaultRaw : UInt32 := 0xFFFFFFFF

inductive FirmwareState where
  | integrityCompromised
  | watchdogConcern
  | kernelConcern
  | supervisorConcern
  | runtimeConcern
  | default
  deriving DecidableEq, Repr

namespace FirmwareState

def isBootable : FirmwareState → Bool
  | default => true
  | _ => false

def decodeStored (raw : UInt32) : FirmwareState :=
  if raw = stateDefaultRaw then default
  else
    match ConcernSource.fromTag (raw >>> 24).toUInt8 with
    | some .watchdog => watchdogConcern
    | some .kernel => kernelConcern
    | some .supervisor => supervisorConcern
    | some .runtime => runtimeConcern
    | none => runtimeConcern

theorem decodeStored_default_iff {raw : UInt32} :
    decodeStored raw = default ↔ raw = stateDefaultRaw := by
  grind [decodeStored]

end FirmwareState

/-! ## Slices -/

/-- A byte slice: its length, and the memory from its start on. -/
structure Slice where
  len : Nat
  byte : Nat → UInt8

abbrev Read := Logged Nat

/-- `count` unchecked reads from `offset` on. -/
def readLe (m : Nat) (data : Slice) (offset count : Nat) : Read Nat :=
  { val := leNat ((range count).map fun k => data.byte ((offset + k) % m))
    log := (range count).map fun k => (offset + k) % m }

def readU32 (m : Nat) (data : Slice) (offset : Nat) : Read UInt32 := do
  return UInt32.ofNat (← readLe m data offset 4)

def readU16 (m : Nat) (data : Slice) (offset : Nat) : Read UInt16 := do
  return UInt16.ofNat (← readLe m data offset 2)

def readU64 (m : Nat) (data : Slice) (offset : Nat) : Read UInt64 := do
  return UInt64.ofNat (← readLe m data offset 8)

section ReadVal

variable {m : Nat} {data : Slice} {offset : Nat}

theorem readLe_val {count : Nat} (h : offset + count ≤ m) :
    (readLe m data offset count).val = leNat (slice data.byte offset count) := by
  have hmap : (range count).map (fun k => data.byte ((offset + k) % m)) =
      slice data.byte offset count := by
    apply map_congr_left
    intro k hk
    rw [Nat.mod_eq_of_lt (by have := mem_range.mp hk; omega)]
  rw [readLe, hmap]

theorem readU32_val {v : UInt32} (h : offset + 4 ≤ m)
    (hv : slice data.byte offset 4 = leBytes 4 v.toNat) :
    (readU32 m data offset).val = v := by
  show UInt32.ofNat (readLe m data offset 4).val = v
  rw [readLe_val h, hv, leNat_leBytes v.toNat_lt, UInt32.ofNat_toNat]

theorem readU16_val {v : UInt16} (h : offset + 2 ≤ m)
    (hv : slice data.byte offset 2 = leBytes 2 v.toNat) :
    (readU16 m data offset).val = v := by
  show UInt16.ofNat (readLe m data offset 2).val = v
  rw [readLe_val h, hv, leNat_leBytes v.toNat_lt, UInt16.ofNat_toNat]

theorem readU64_val {v : UInt64} (h : offset + 8 ≤ m)
    (hv : slice data.byte offset 8 = leBytes 8 v.toNat) :
    (readU64 m data offset).val = v := by
  show UInt64.ofNat (readLe m data offset 8).val = v
  rw [readLe_val h, hv, leNat_leBytes v.toNat_lt, UInt64.ofNat_toNat]

end ReadVal

/-- `compute_checksum_v2`: all but the checksum and the state. -/
def computeChecksumV2 (data : Slice) : UInt32 :=
  if data.len < footerV2Size then 0
  else
    let fb := data.len - footerV2Size
    let c := crc32Update crc32Init (slice data.byte 0 fb)
    let c := crc32Update c (slice data.byte (fb + 4) 16)
    let c := crc32Update c (slice data.byte (fb + 24) (data.len - (fb + 24)))
    c ^^^ crc32Init

/-- The checksum looks neither at its own field nor at the state. -/
theorem computeChecksumV2_congr {data data' : Slice} (hlen : data'.len = data.len)
    (h : ∀ p < data.len, p < data.len - footerV2Size ∨ data.len - footerV2Size + 4 ≤ p →
      p < data.len - footerV2Size + 20 ∨ data.len - footerV2Size + 24 ≤ p →
      data'.byte p = data.byte p) : computeChecksumV2 data' = computeChecksumV2 data := by
  have hslice : ∀ a n, a + n ≤ data.len →
      a + n ≤ data.len - footerV2Size ∨ data.len - footerV2Size + 4 ≤ a →
      a + n ≤ data.len - footerV2Size + 20 ∨ data.len - footerV2Size + 24 ≤ a →
      slice data'.byte a n = slice data.byte a n := by
    intro a n hend hfirst hsecond
    exact slice_eq_iff.mpr fun k hk => h _ (by omega) (by omega) (by omega)
  rw [computeChecksumV2, computeChecksumV2]
  grind [footerV2Size]

/-! ## Images -/

structure Version where
  major : UInt16
  minor : UInt16
  patch : UInt16
  deriving DecidableEq, Repr

@[ext] structure PlacesImage where
  data : Slice
  formatVersion : UInt32
  entryPoint : UInt32
  partitionCount : UInt32
  segmentCount : UInt32
  tablesOffset : UInt32
  checksum : UInt32
  version : Version
  flashTimestamp : UInt64
  stateRaw : UInt32

structure Partition where
  nameHash : UInt32
  offset : UInt32
  size : UInt32
  flags : UInt32
  deriving DecidableEq, Repr

structure Segment where
  data : Slice
  dest : UInt32
  fileOffset : UInt32
  fileSize : UInt32
  memSize : UInt32

inductive ParseError where
  | tooSmall
  | badMagic
  | badVersion
  | segmentOutOfBounds
  | tablesOutOfBounds
  deriving DecidableEq, Repr

/-- What the two format versions have in different places. -/
structure Footer where
  size : Nat
  checksum : UInt32
  version : Version
  flashTimestamp : UInt64
  stateRaw : UInt32

def readFooter (m : Nat) (data : Slice) (formatVersion : UInt32) :
    Read (Except ParseError Footer) :=
  if formatVersion = version1 then
    return .ok
      { size := footerV1Size, checksum := 0, version := ⟨0, 0, 0⟩, flashTimestamp := 0
        stateRaw := stateDefaultRaw }
  else if formatVersion = version2 then
    if data.len < footerV2Size then return .error .tooSmall
    else do
      let fb := data.len - footerV2Size
      let checksum ← readU32 m data fb
      let major ← readU16 m data ((fb + 4) % m)
      let minor ← readU16 m data ((fb + 6) % m)
      let patch ← readU16 m data ((fb + 8) % m)
      let flashTimestamp ← readU64 m data ((fb + 12) % m)
      let stateRaw ← readU32 m data ((fb + 20) % m)
      return .ok
        { size := footerV2Size, checksum, version := ⟨major, minor, patch⟩, flashTimestamp
          stateRaw }
  else return .error .badVersion

def partTableEnd (m : Nat) (tablesOffset partitionCount : UInt32) : Nat :=
  (tablesOffset.toNat + partitionCount.toNat * partitionSize % m) % m

/-- The loop over the data ranges of `remaining` segments, from segment `i` on. -/
def checkSegments (m : Nat) (data : Slice) (tableBase : Nat) (tablesOffset : UInt32) :
    (i remaining : Nat) → Read (Except ParseError Unit)
  | _, 0 => return .ok ()
  | i, remaining + 1 => do
      let base := (tableBase + i * segmentSize % m) % m
      let fileOffset ← readU32 m data ((base + 4) % m)
      let fileSize ← readU32 m data ((base + 8) % m)
      if (fileOffset.toNat + fileSize.toNat) % m > tablesOffset.toNat then
        return .error .segmentOutOfBounds
      else checkSegments m data tableBase tablesOffset (i + 1) remaining

def readTables (m : Nat) (data : Slice) (formatVersion : UInt32) (footer : Footer) :
    Read (Except ParseError PlacesImage) := do
  let coreBase := data.len - footerV1Size
  let tablesOffset ← readU32 m data coreBase
  let segmentCount ← readU32 m data ((coreBase + 4) % m)
  let partitionCount ← readU32 m data ((coreBase + 8) % m)
  let entryPoint ← readU32 m data ((coreBase + 12) % m)
  let tableBase := partTableEnd m tablesOffset partitionCount
  let segTableEnd := (tableBase + segmentCount.toNat * segmentSize % m) % m
  if (segTableEnd + footer.size) % m > data.len then return .error .tablesOutOfBounds
  else
    match ← checkSegments m data tableBase tablesOffset 0 segmentCount.toNat with
    | .error e => return .error e
    | .ok () =>
      return .ok
        { data, formatVersion, entryPoint, partitionCount, segmentCount, tablesOffset
          checksum := footer.checksum, version := footer.version
          flashTimestamp := footer.flashTimestamp, stateRaw := footer.stateRaw }

def parse (m : Nat) (data : Slice) : Read (Except ParseError PlacesImage) :=
  if data.len < footerV1Size then return .error .tooSmall
  else do
    let found ← readU32 m data (data.len - 4)
    if found ≠ magic then return .error .badMagic
    else
      let formatVersion ← readU32 m data (data.len - 8)
      match ← readFooter m data formatVersion with
      | .error e => return .error e
      | .ok footer => readTables m data formatVersion footer

namespace PlacesImage

def checksumValid (img : PlacesImage) : Bool :=
  if img.formatVersion = version1 then true
  else if img.formatVersion = version2 then computeChecksumV2 img.data = img.checksum
  else false

def firmwareState (img : PlacesImage) : FirmwareState :=
  if img.formatVersion ≥ version2 ∧ img.checksumValid = false then .integrityCompromised
  else .decodeStored img.stateRaw

def partition (m : Nat) (img : PlacesImage) (i : Nat) : Read Partition := do
  let base := (img.tablesOffset.toNat + i * partitionSize % m) % m
  let nameHash ← readU32 m img.data base
  let offset ← readU32 m img.data ((base + 4) % m)
  let size ← readU32 m img.data ((base + 8) % m)
  let flags ← readU32 m img.data ((base + 12) % m)
  return { nameHash, offset, size, flags }

/-- The loop of `find_partition`, from partition `i` on. -/
def findFrom (m : Nat) (img : PlacesImage) (hash : UInt32) :
    (i remaining : Nat) → Read (Option Partition)
  | _, 0 => return none
  | i, remaining + 1 => do
      let p ← img.partition m i
      if p.nameHash = hash then return some p
      else findFrom m img hash (i + 1) remaining

def findPartition (m : Nat) (img : PlacesImage) (hash : UInt32) : Read (Option Partition) :=
  findFrom m img hash 0 img.partitionCount.toNat

/-- `segment`.  Taking the range out of the slice is unchecked too. -/
def segment (m : Nat) (img : PlacesImage) (i : Nat) : Read Segment := do
  let base := (partTableEnd m img.tablesOffset img.partitionCount + i * segmentSize % m) % m
  let dest ← readU32 m img.data base
  let fileOffset ← readU32 m img.data ((base + 4) % m)
  let fileSize ← readU32 m img.data ((base + 8) % m)
  let memSize ← readU32 m img.data ((base + 12) % m)
  let start := fileOffset.toNat
  let stop := (start + fileSize.toNat) % m
  let data : Slice := { len := stop - start, byte := fun k => img.data.byte (start + k) }
  return { data, dest, fileOffset, fileSize, memSize }

/-- The partitions in the order of their iterator. -/
def partitions (m : Nat) (img : PlacesImage) : List Partition :=
  (range img.partitionCount.toNat).map fun i => (img.partition m i).val

def segments (m : Nat) (img : PlacesImage) : List Segment :=
  (range img.segmentCount.toNat).map fun i => (img.segment m i).val

end PlacesImage

def Segment.zeroFill (seg : Segment) : Nat := seg.memSize.toNat - seg.fileSize.toNat

/-! ## What `parse` accepts -/

section Parse

variable {m : Nat} {data : Slice} {img : PlacesImage}

def segmentBase (m tableBase i : Nat) : Nat := (tableBase + i * segmentSize % m) % m

/-- The check of the data range of segment `i`. -/
def RangeOk (m : Nat) (data : Slice) (tableBase : Nat) (tablesOffset : UInt32) (i : Nat) : Prop :=
  ((readU32 m data ((segmentBase m tableBase i + 4) % m)).val.toNat +
    (readU32 m data ((segmentBase m tableBase i + 8) % m)).val.toNat) % m ≤ tablesOffset.toNat

theorem checkSegments_ok_iff {tableBase : Nat} {tablesOffset : UInt32} {i remaining : Nat} :
    (checkSegments m data tableBase tablesOffset i remaining).val = .ok () ↔
      ∀ j, i ≤ j → j < i + remaining → RangeOk m data tableBase tablesOffset j := by
  induction remaining generalizing i with
  | zero => exact ⟨fun _ j hle hlt => absurd hlt (by omega), fun _ => rfl⟩
  | succ remaining ih =>
    have hstep : (checkSegments m data tableBase tablesOffset i (remaining + 1)).val = .ok () ↔
        RangeOk m data tableBase tablesOffset i ∧
          (checkSegments m data tableBase tablesOffset (i + 1) remaining).val = .ok () := by
      rw [checkSegments, RangeOk, segmentBase]
      simp only [val_bind]
      split
      · exact ⟨nofun, fun h => absurd h.1 (by omega)⟩
      · exact ⟨fun h => ⟨by omega, h⟩, fun h => h.2⟩
    grind

/-- The fields of an accepted image and the checks it passed. -/
structure ParsedAs (m : Nat) (data : Slice) (img : PlacesImage) (footer : Footer) : Prop where
  data_eq : img.data = data
  len : footerV1Size ≤ data.len
  found : (readU32 m data (data.len - 4)).val = magic
  formatVersion : img.formatVersion = (readU32 m data (data.len - 8)).val
  footer_ok : (readFooter m data img.formatVersion).val = .ok footer
  tablesOffset : img.tablesOffset = (readU32 m data (data.len - footerV1Size)).val
  segmentCount : img.segmentCount = (readU32 m data ((data.len - footerV1Size + 4) % m)).val
  partitionCount : img.partitionCount = (readU32 m data ((data.len - footerV1Size + 8) % m)).val
  entryPoint : img.entryPoint = (readU32 m data ((data.len - footerV1Size + 12) % m)).val
  checksum : img.checksum = footer.checksum
  version : img.version = footer.version
  flashTimestamp : img.flashTimestamp = footer.flashTimestamp
  stateRaw : img.stateRaw = footer.stateRaw
  fits : ((partTableEnd m img.tablesOffset img.partitionCount +
    img.segmentCount.toNat * segmentSize % m) % m + footer.size) % m ≤ data.len
  ranges : ∀ i < img.segmentCount.toNat,
    RangeOk m data (partTableEnd m img.tablesOffset img.partitionCount) img.tablesOffset i

/-- The image `readTables` builds if its checks pass. -/
def tablesImage (m : Nat) (data : Slice) (formatVersion : UInt32) (footer : Footer) :
    PlacesImage where
  data := data
  formatVersion := formatVersion
  tablesOffset := (readU32 m data (data.len - footerV1Size)).val
  segmentCount := (readU32 m data ((data.len - footerV1Size + 4) % m)).val
  partitionCount := (readU32 m data ((data.len - footerV1Size + 8) % m)).val
  entryPoint := (readU32 m data ((data.len - footerV1Size + 12) % m)).val
  checksum := footer.checksum
  version := footer.version
  flashTimestamp := footer.flashTimestamp
  stateRaw := footer.stateRaw

theorem ParsedAs.eq_tablesImage {footer : Footer} (h : ParsedAs m data img footer) :
    img = tablesImage m data (readU32 m data (data.len - 8)).val footer :=
  PlacesImage.ext h.data_eq h.formatVersion h.entryPoint h.partitionCount h.segmentCount
    h.tablesOffset h.checksum h.version h.flashTimestamp h.stateRaw

theorem readTables_val (m : Nat) (data : Slice) (formatVersion : UInt32) (footer : Footer) :
    (readTables m data formatVersion footer).val =
      let image := tablesImage m data formatVersion footer
      let tableBase := partTableEnd m image.tablesOffset image.partitionCount
      if ((tableBase + image.segmentCount.toNat * segmentSize % m) % m + footer.size) % m >
          data.len then .error .tablesOutOfBounds
      else (checkSegments m data tableBase image.tablesOffset 0 image.segmentCount.toNat).val.map
        fun _ => image := by
  rw [readTables]
  simp only [val_bind, tablesImage]
  split
  · rename_i hfit
    simp only [hfit]
    rfl
  · rename_i hfit
    simp only [hfit, val_bind]
    split
    · rename_i h
      rw [h]
      rfl
    · rename_i h
      rw [h]
      rfl

theorem parse_val_of_footer {footer : Footer} (hlen : footerV1Size ≤ data.len)
    (hfound : (readU32 m data (data.len - 4)).val = magic)
    (hfooter : (readFooter m data (readU32 m data (data.len - 8)).val).val = .ok footer) :
    (parse m data).val = (readTables m data (readU32 m data (data.len - 8)).val footer).val := by
  rw [parse, if_neg (Nat.not_lt.mpr hlen)]
  simp only [val_bind]
  rw [if_neg (not_not.mpr hfound)]
  simp only [val_bind, hfooter]

theorem parse_ok_iff : (parse m data).val = .ok img ↔ ∃ footer, ParsedAs m data img footer := by
  constructor
  · intro h
    have hlen : footerV1Size ≤ data.len := by
      by_contra hlt
      rw [parse, if_pos (by omega)] at h
      cases h
    have hfound : (readU32 m data (data.len - 4)).val = magic := by
      by_contra hne
      rw [parse, if_neg (by omega)] at h
      simp only [val_bind] at h
      rw [if_pos hne] at h
      cases h
    cases hfooter : (readFooter m data (readU32 m data (data.len - 8)).val).val with
    | error e =>
      rw [parse, if_neg (by omega)] at h
      simp only [val_bind] at h
      rw [if_neg (not_not.mpr hfound)] at h
      simp only [val_bind, hfooter] at h
      cases h
    | ok footer =>
      rw [parse_val_of_footer hlen hfound hfooter, readTables_val] at h
      dsimp only at h
      split at h
      · cases h
      · rename_i hfit
        cases hcheck : (checkSegments m data _ _ 0 _).val with
        | error e =>
          rw [hcheck] at h
          cases h
        | ok u =>
          rw [hcheck] at h
          cases h
          refine ⟨footer, rfl, hlen, hfound, rfl, hfooter, rfl, rfl, rfl, rfl, rfl, rfl, rfl,
            rfl, Nat.not_lt.mp hfit, fun i hi => ?_⟩
          exact checkSegments_ok_iff.mp hcheck i (Nat.zero_le i) (by rw [Nat.zero_add]; exact hi)
  · rintro ⟨footer, h⟩
    have himg := h.eq_tablesImage
    have hfooter := h.footer_ok
    rw [h.formatVersion] at hfooter
    rw [parse_val_of_footer h.len h.found hfooter, readTables_val, ← himg]
    rw [if_neg (Nat.not_lt.mpr h.fits), checkSegments_ok_iff.mpr]
    · rfl
    · exact fun j _ hj => h.ranges j (by omega)

theorem readFooter_ok {formatVersion : UInt32} {footer : Footer}
    (h : (readFooter m data formatVersion).val = .ok footer) :
    formatVersion = version1 ∨
      formatVersion = version2 ∧ footerV2Size ≤ data.len ∧
        footer.checksum = (readU32 m data (data.len - footerV2Size)).val ∧
        footer.stateRaw = (readU32 m data ((data.len - footerV2Size + 20) % m)).val := by
  rw [readFooter] at h
  split at h
  · rename_i hv
    exact .inl hv
  · split at h
    · rename_i hv
      split at h
      · cases h
      · rename_i hlen
        cases h
        exact .inr ⟨hv, Nat.not_lt.mp hlen, rfl, rfl⟩
    · cases h

end Parse

theorem FirmwareState.isBootable_iff {state : FirmwareState} :
    state.isBootable = true ↔ state = .default := by
  cases state <;> decide

/-- An image of format version 2 is bootable only with its checksum and an erased
state. -/
theorem PlacesImage.isBootable_version2 {img : PlacesImage} (hv : img.formatVersion = version2)
    (h : img.firmwareState.isBootable = true) :
    computeChecksumV2 img.data = img.checksum ∧ img.stateRaw = stateDefaultRaw := by
  rw [FirmwareState.isBootable_iff, firmwareState] at h
  split at h
  · cases h
  · rename_i hvalid
    refine ⟨?_, FirmwareState.decodeStored_default_iff.mp h⟩
    by_contra hne
    apply hvalid
    rw [checksumValid, hv]
    exact ⟨by decide, decide_eq_false hne⟩

end Rcard.Places
