/-
The partition table as the storage task reads it (`locate_places` and `get_layout` in
`sysmodule/storage/src/main.rs`).

The storage task does not use the image library.  It reads the slot of the flash table, the footer
and the entries of the table word by word from the flash, eight entries a call.  A caller goes on
behind the entries it got until it has them all.

Reads of the flash succeed.
-/
import Rcard.Lib.Fallible
import Rcard.Places.Image

namespace Rcard.Places

open List

def mpi2MappingBase : UInt32 := 0x12000000
def secConfigMagic : UInt32 := 0x53454346
def secfgFtabOffset : UInt32 := 4
def ftabEntrySize : UInt32 := 16
def ftabPlacesSlot : UInt32 := 14
def placesMagic : UInt32 := 0x504C4342
def placesFooterSize : UInt32 := 24
def placesPartitionSize : UInt32 := 16
def maxEntriesPerCall : Nat := 8

structure LayoutEntry where
  nameHash : UInt32
  offset : UInt32
  size : UInt32
  flags : UInt32
  deriving DecidableEq, Repr

structure Layout where
  total : UInt32
  start : UInt32
  count : UInt32
  entries : List LayoutEntry
  deriving DecidableEq, Repr

inductive LayoutError where
  | unpartitioned
  | outOfRange
  | readFailure
  deriving DecidableEq, Repr

section

variable (flash : Nat → UInt8)

def mpiReadU32 (address : UInt32) : UInt32 :=
  UInt32.ofNat (leNat ((range 4).map fun k => flash ((address.toNat + k) % usize32)))

def locatePlaces : Except LayoutError (UInt32 × UInt32) :=
  if mpiReadU32 flash 0 ≠ secConfigMagic then .error .unpartitioned
  else
    let entry := secfgFtabOffset + ftabPlacesSlot * ftabEntrySize
    let cpuBase := mpiReadU32 flash entry
    let size := mpiReadU32 flash (entry + 4)
    if cpuBase = 0xFFFFFFFF ∨ size = 0xFFFFFFFF ∨ size = 0 then .error .unpartitioned
    else if cpuBase < mpi2MappingBase then .error .unpartitioned
    else .ok (cpuBase - mpi2MappingBase, size)

def readEntry (part : UInt32) : LayoutEntry where
  nameHash := mpiReadU32 flash part
  offset := mpiReadU32 flash (part + 4)
  size := mpiReadU32 flash (part + 8)
  flags := mpiReadU32 flash (part + 12)

def getLayout (start : UInt32) : Except LayoutError Layout :=
  match locatePlaces flash with
  | .error e => .error e
  | .ok (placesBase, placesSize) =>
    if placesSize < placesFooterSize then .error .unpartitioned
    else
      let footer := placesBase + placesSize - placesFooterSize
      let tablesOffset := mpiReadU32 flash footer
      let partitionCount := mpiReadU32 flash (footer + 8)
      if mpiReadU32 flash (footer + 20) ≠ placesMagic then .error .unpartitioned
      else if start ≥ partitionCount then .error .outOfRange
      else
        let count := min (partitionCount - start).toNat maxEntriesPerCall
        .ok {
          total := partitionCount
          start
          count := UInt32.ofNat count
          entries := (range count).map (fun i => readEntry flash
              (placesBase + tablesOffset + (start + UInt32.ofNat i) * placesPartitionSize)) ++
            replicate (maxEntriesPerCall - count) ⟨0, 0, 0, 0⟩ }

/-- A caller that wants all entries from `start` on, in so many calls. -/
def layoutFrom : (calls : Nat) → (start : UInt32) → Except LayoutError (List LayoutEntry)
  | 0, _ => .ok []
  | calls + 1, start =>
    match getLayout flash start with
    | .error e => .error e
    | .ok layout =>
      let entries := layout.entries.take layout.count.toNat
      if start + layout.count < layout.total then
        (layoutFrom calls (start + layout.count)).map (entries ++ ·)
      else .ok entries

/-- What the slot of the flash table says. -/
def slotBase : UInt32 := mpiReadU32 flash 228 - mpi2MappingBase
def slotSize : UInt32 := mpiReadU32 flash 232

def slotSlice : Slice where
  len := (slotSize flash).toNat
  byte p := flash (((slotBase flash).toNat + p) % usize32)

/-- The slot describes this image. -/
structure Installed (m : Nat) (img : PlacesImage) : Prop where
  table : mpiReadU32 flash 0 = secConfigMagic
  mapped : mpi2MappingBase ≤ mpiReadU32 flash 228
  inside : (mpiReadU32 flash 228).toNat + (slotSize flash).toNat ≤ usize32
  parsed : (parse m (slotSlice flash)).val = .ok img

end

def Partition.layoutEntry (p : Partition) : LayoutEntry := ⟨p.nameHash, p.offset, p.size, p.flags⟩

variable {flash : Nat → UInt8} {m : Nat} {img : PlacesImage}

/-- Addresses of the image library wrap at a multiple of what those of the flash wrap at. -/
theorem mod_usize32 (hm : usize32 ∣ m) (a x : Nat) : (a + x % m) % usize32 = (a + x) % usize32 := by
  rw [Nat.add_mod, Nat.mod_mod_of_dvd _ hm, ← Nat.add_mod]

theorem readU32_flash (hm : usize32 ∣ m) {offset : Nat} {address : UInt32}
    (h : address.toNat = ((slotBase flash).toNat + offset) % usize32) :
    (readU32 m (slotSlice flash) offset).val = mpiReadU32 flash address := by
  show UInt32.ofNat (leNat (map _ _)) = _
  congr 2
  refine map_congr_left fun k _ => congrArg flash ?_
  rw [mod_usize32 hm, h, Nat.mod_add_mod, Nat.add_assoc]

theorem locatePlaces_ok (h : Installed flash m img) (hsize : 24 ≤ (slotSize flash).toNat) :
    locatePlaces flash = .ok (slotBase flash, slotSize flash) := by
  have hmapped := UInt32.le_iff_toNat_le.mp h.mapped
  have hinside := h.inside
  have hslot : secfgFtabOffset + ftabPlacesSlot * ftabEntrySize = 228 := rfl
  have hmapping : mpi2MappingBase.toNat = 0x12000000 := rfl
  have hmax : (0xFFFFFFFF : UInt32).toNat = 0xFFFFFFFF := rfl
  rw [usize32] at hinside
  rw [locatePlaces, if_neg (not_not.mpr h.table), hslot, if_neg,
    if_neg (UInt32.not_lt.mpr h.mapped)]
  · rfl
  · show ¬(_ ∨ slotSize flash = _ ∨ slotSize flash = _)
    rintro (hbase | herased | hzero)
    · rw [hbase] at hinside
      omega
    · rw [herased] at hinside
      omega
    · rw [hzero] at hsize
      cases hsize

theorem readEntry_eq (hm : usize32 ∣ m) (hdata : img.data = slotSlice flash) (start : UInt32)
    (i : Nat) : readEntry flash (slotBase flash + img.tablesOffset +
      (start + UInt32.ofNat i) * placesPartitionSize) =
        (img.partition m (start.toNat + i)).val.layoutEntry := by
  have haddress : ∀ k < 16, (slotBase flash + img.tablesOffset +
      (start + UInt32.ofNat i) * placesPartitionSize + UInt32.ofNat k).toNat =
        ((slotBase flash).toNat + ((img.tablesOffset.toNat +
          (start.toNat + i) * partitionSize % m) % m + k)) % usize32 := by
    intro k hk
    rw [← Nat.add_assoc, ← Nat.mod_add_mod, mod_usize32 hm, ← Nat.add_assoc, mod_usize32 hm]
    have hsixteen : placesPartitionSize.toNat = 16 := rfl
    simp only [UInt32.toNat_add, UInt32.toNat_mul, UInt32.toNat_ofNat', hsixteen, partitionSize,
      usize32]
    omega
  have hword : ∀ k < 16, mpiReadU32 flash (slotBase flash + img.tablesOffset +
      (start + UInt32.ofNat i) * placesPartitionSize + UInt32.ofNat k) =
        (readU32 m img.data (((img.tablesOffset.toNat +
          (start.toNat + i) * partitionSize % m) % m + k) % m)).val := by
    intro k hk
    rw [hdata, readU32_flash hm ((haddress k hk).trans (mod_usize32 hm _ _).symm)]
  have hfirst := hword 0 (by decide)
  rw [Nat.add_zero, Nat.mod_mod, show UInt32.ofNat 0 = 0 from rfl, UInt32.add_zero] at hfirst
  have hsecond : mpiReadU32 flash (_ + 4) = _ := hword 4 (by decide)
  have hthird : mpiReadU32 flash (_ + 8) = _ := hword 8 (by decide)
  have hlast : mpiReadU32 flash (_ + 12) = _ := hword 12 (by decide)
  rw [readEntry, hfirst, hsecond, hthird, hlast]
  rfl

theorem footer_address (hsize : 24 ≤ (slotSize flash).toNat) (k : Nat) :
    (slotBase flash + slotSize flash - placesFooterSize + UInt32.ofNat k).toNat =
      ((slotBase flash).toNat + ((slotSize flash).toNat - 24 + k)) % usize32 := by
  have hfooter : placesFooterSize.toNat = 24 := rfl
  simp only [UInt32.toNat_add, UInt32.toNat_sub, UInt32.toNat_ofNat', hfooter, usize32]
  omega

/-- One call, with the entries as the library gives them. -/
theorem getLayout_eq (hm : usize32 ∣ m) (h : Installed flash m img) (start : UInt32) :
    getLayout flash start =
      if start ≥ img.partitionCount then .error .outOfRange
      else .ok {
        total := img.partitionCount
        start
        count := UInt32.ofNat (min (img.partitionCount - start).toNat maxEntriesPerCall)
        entries := (range (min (img.partitionCount - start).toNat maxEntriesPerCall)).map
            (fun i => (img.partition m (start.toNat + i)).val.layoutEntry) ++
          replicate (maxEntriesPerCall - min (img.partitionCount - start).toNat
            maxEntriesPerCall) ⟨0, 0, 0, 0⟩ } := by
  obtain ⟨footer, hparsed⟩ := parse_ok_iff.mp h.parsed
  have hsize : 24 ≤ (slotSize flash).toNat := hparsed.len
  have htables : mpiReadU32 flash (slotBase flash + slotSize flash - placesFooterSize) =
      img.tablesOffset := by
    have haddress := footer_address hsize 0
    rw [show UInt32.ofNat 0 = 0 from rfl, UInt32.add_zero] at haddress
    exact (hparsed.tablesOffset.trans (readU32_flash hm haddress)).symm
  have hcount : mpiReadU32 flash (slotBase flash + slotSize flash - placesFooterSize + 8) =
      img.partitionCount :=
    (hparsed.partitionCount.trans
      (readU32_flash hm ((footer_address hsize 8).trans (mod_usize32 hm _ _).symm))).symm
  have hmagic : mpiReadU32 flash (slotBase flash + slotSize flash - placesFooterSize + 20) =
      placesMagic := by
    refine (readU32_flash hm ((footer_address hsize 20).trans ?_)).symm.trans hparsed.found
    rw [show (slotSize flash).toNat - 24 + 20 = (slotSlice flash).len - 4 from ?_]
    show _ = (slotSize flash).toNat - 4
    omega
  rw [getLayout, locatePlaces_ok h hsize]
  dsimp only
  have hroom : placesFooterSize ≤ slotSize flash := UInt32.le_iff_toNat_le.mpr (by exact hsize)
  rw [if_neg (UInt32.not_lt.mpr hroom), htables, hcount, if_neg (not_not.mpr hmagic)]
  simp only [readEntry_eq hm hparsed.data_eq]

/-- The entries from `start` on. -/
theorem layoutFrom_eq (hm : usize32 ∣ m) (h : Installed flash m img) {calls : Nat} {start : UInt32}
    (hstart : start < img.partitionCount)
    (hcalls : img.partitionCount.toNat ≤ start.toNat + maxEntriesPerCall * calls) :
    layoutFrom flash calls start =
      .ok ((range' start.toNat (img.partitionCount.toNat - start.toNat)).map fun i =>
        (img.partition m i).val.layoutEntry) := by
  induction calls generalizing start with
  | zero =>
    have := UInt32.lt_iff_toNat_lt.mp hstart
    omega
  | succ calls ih =>
    have hlt := UInt32.lt_iff_toNat_lt.mp hstart
    have hleft : (img.partitionCount - start).toNat = img.partitionCount.toNat - start.toNat :=
      UInt32.toNat_sub_of_le _ _ (UInt32.le_of_lt hstart)
    rw [layoutFrom, getLayout_eq hm h, if_neg (UInt32.not_le.mpr hstart), hleft]
    dsimp only
    generalize hn : min (img.partitionCount.toNat - start.toNat) maxEntriesPerCall = n
    have hbound := img.partitionCount.toNat_lt
    rw [maxEntriesPerCall] at hn hcalls
    have hcount : (UInt32.ofNat n).toNat = n := UInt32.toNat_ofNat_of_lt' (by
      rw [UInt32.size]
      omega)
    have hnext : (start + UInt32.ofNat n).toNat = start.toNat + n := by
      rw [UInt32.toNat_add, hcount, Nat.mod_eq_of_lt (by omega)]
    have hpage : (range n).map (fun i => (img.partition m (start.toNat + i)).val.layoutEntry) =
        (range' start.toNat n).map fun i => (img.partition m i).val.layoutEntry := by
      rw [range'_eq_map_range, map_map]
      rfl
    rw [hcount, take_left' (by simp), hpage]
    split
    · next hmore =>
      rw [ih hmore (by rw [hnext, maxEntriesPerCall]; omega), hnext]
      show Except.ok (_ ++ _) = _
      rw [← map_append, range'_append_1,
        show n + (img.partitionCount.toNat - (start.toNat + n)) =
          img.partitionCount.toNat - start.toNat by omega]
    · next hdone =>
      have hend := UInt32.le_iff_toNat_le.mp (UInt32.not_lt.mp hdone)
      rw [show img.partitionCount.toNat - start.toNat = n by omega]

/-- The calls give all partitions of the image in the order of its table. -/
theorem layout_agrees (hm : usize32 ∣ m) (h : Installed flash m img)
    (hpartition : 0 < img.partitionCount) :
    (∀ calls, img.partitionCount.toNat ≤ maxEntriesPerCall * calls →
      layoutFrom flash calls 0 = .ok ((img.partitions m).map Partition.layoutEntry)) ∧
    ∀ start, img.partitionCount ≤ start → getLayout flash start = .error .outOfRange := by
  constructor
  · intro calls hcalls
    rw [layoutFrom_eq hm h hpartition (by rw [UInt32.toNat_zero]; omega), PlacesImage.partitions,
      map_map, range_eq_range']
    rfl
  · intro start hstart
    rw [getLayout_eq hm h, if_pos hstart]

/-- A flash table, and an image of nine partitions. -/
def ninePartitions : Nat → UInt8 :=
  Mem.write (Mem.write (Mem.write (fun _ => 0) 0 [0x46, 0x43, 0x45, 0x53]) 228
      [0, 0x10, 0, 0x12, 168, 0, 0, 0])
    0x1000 ((range 9).flatMap (fun i =>
        [UInt8.ofNat i, 0, 0, 0, 2, 0, 0, 0, 3, 0, 0, 0, 4, 0, 0, 0]) ++
      replicate 8 0 ++ [9, 0, 0, 0, 0, 0, 0, 0, 1, 0, 0, 0, 0x42, 0x43, 0x4C, 0x50])

/-- They take two calls. -/
theorem layout_agrees_ninePartitions : ∃ img, Installed ninePartitions usize32 img ∧
    img.partitionCount = 9 ∧
    layoutFrom ninePartitions 2 0 = .ok ((img.partitions usize32).map Partition.layoutEntry) := by
  have hparse : (parse usize32 (slotSlice ninePartitions)).val.toOption.map
      PlacesImage.partitionCount = some 9 := by decide +kernel
  obtain ⟨img, hparsed, hcount⟩ := Fallible.ok_of_toOption_map hparse
  have hinstalled : Installed ninePartitions usize32 img :=
    ⟨by decide +kernel, by decide +kernel, by decide +kernel, hparsed⟩
  refine ⟨img, hinstalled, hcount, (layout_agrees (Nat.dvd_refl _) hinstalled ?_).1 2 ?_⟩
  · rw [hcount]
    decide
  · rw [hcount]
    decide

end Rcard.Places
