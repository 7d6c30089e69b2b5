/-
Linking an image.

The loadable segments of all ELF files are grouped by the place their address lies in, each
group is merged into one blob, and the blobs become the segments of a places image.  A blob
whose first address lies in the flash that hosts the image is stored where it will be executed
from; the others are packed behind.

Reading and parsing the ELF files, the clock and writing the result are outside: what they
give is an input, and the result is the builder whose image is written.  Addresses and lengths
of a 32-bit ELF file add up in `u64`; other sums wrap, as in a release build.
-/
import Rcard.Places.Build
import Rcard.Tfw.Layout

namespace Rcard.Tfw

open Align Places

/-! ## ELF files -/

structure ProgramHeader where
  pType : UInt32
  pOffset : UInt32
  pPaddr : UInt32
  pFilesz : UInt32
deriving DecidableEq

def ptLoad : UInt32 := 1

structure Elf where
  data : List UInt8
  headers : List ProgramHeader

inductive LinkError where
  | io (message : String)
  | elf (crateName message : String)
  | noSegments
  | overlap (aOwner : String) (aAddr : Nat) (bOwner : String) (bAddr : Nat)
  | unmappedSegment (owner : String) (addr : Nat)
  | other (message : String)
deriving DecidableEq

inductive LinkFailure where
  | error (e : LinkError)
  | panic
deriving DecidableEq

structure CompileArtifact where
  crateName : String
  /-- What reading and parsing the file gives. -/
  elf : Except LinkError Elf

structure Segment where
  paddr : Nat
  data : List UInt8
  owner : String

def Segment.stop (s : Segment) : Nat := s.paddr + s.data.length

def hex (n : Nat) : String := "0x" ++ String.ofList (Nat.toDigits 16 n)

def pastEof (offset filesz : Nat) : String :=
  "segment at offset " ++ hex offset ++ " size " ++ hex filesz ++ " extends past EOF"

def pushSegment (crateName : String) (data : List UInt8) (segments : List Segment)
    (header : ProgramHeader) : Except LinkFailure (List Segment) :=
  let filesz := header.pFilesz.toNat
  let offset := header.pOffset.toNat
  if header.pType ≠ ptLoad then .ok segments
  else if filesz = 0 then .ok segments
  -- the segment of the ELF header
  else if offset < 64 then .ok segments
  else if data.length < offset + filesz then
    .error (.error (.elf crateName (pastEof offset filesz)))
  else .ok (segments ++ [⟨header.pPaddr.toNat, (data.drop offset).take filesz, crateName⟩])

def pushArtifact (segments : List Segment) (artifact : CompileArtifact) :
    Except LinkFailure (List Segment) :=
  match artifact.elf with
  | .error e => .error (.error e)
  | .ok elf => elf.headers.foldlM (pushSegment artifact.crateName elf.data) segments

def collectSegments (artifacts : List CompileArtifact) : Except LinkFailure (List Segment) :=
  artifacts.foldlM pushArtifact []

/-! ## Places by address -/

structure PlaceRange where
  start : Nat
  stop : Nat
  name : String
deriving DecidableEq

def PlaceRange.before (a b : PlaceRange) : Prop := a.start ≤ b.start

instance : DecidableRel PlaceRange.before := fun a b =>
  inferInstanceAs (Decidable (a.start ≤ b.start))

def Place.range (place : Place) (name : String) (m : Mapping) : PlaceRange :=
  let start := add64 m.address place.start
  ⟨start, add64 start place.size, name⟩

def buildPlaceRanges (config : AppConfig) : List PlaceRange :=
  let ranges := config.places.flatMap fun p =>
    if p.2.unmapped || p.2.mappings.isEmpty then [] else p.2.mappings.map (p.2.range p.1)
  ranges.insertionSort PlaceRange.before

/-- The ranges of the image's own place, where no range starts yet. -/
def addImagePlace (ranges : List PlaceRange) (imagePlace : Place) : List PlaceRange :=
  let name := imagePlace.name.getD "code_generic"
  let ranges := imagePlace.mappings.foldl (fun ranges m =>
    let range := imagePlace.range name m
    if ranges.any fun r => r.start == range.start then ranges else ranges ++ [range]) ranges
  ranges.insertionSort PlaceRange.before

def placeRanges (config : AppConfig) (imagePlace : Option Place) : List PlaceRange :=
  match imagePlace with
  | none => buildPlaceRanges config
  | some imagePlace => addImagePlace (buildPlaceRanges config) imagePlace

def findRange (ranges : List PlaceRange) (addr : Nat) : Option PlaceRange :=
  ranges.find? fun r => decide (r.start ≤ addr) && decide (addr < r.stop)

def findPlace (ranges : List PlaceRange) (addr : Nat) : Option String :=
  (findRange ranges addr).map PlaceRange.name

abbrev Groups := OrdMap String (List Segment)

def groupOf (groups : Groups) (name : String) : List Segment := (groups.get? name).getD []

def groupSegment (ranges : List PlaceRange) (groups : Groups) (seg : Segment) :
    Except LinkFailure Groups :=
  match findPlace ranges seg.paddr with
  | none => .error (.error (.unmappedSegment seg.owner seg.paddr))
  | some name => .ok (groups.insert name (groupOf groups name ++ [seg]))

/-! ## What the builder is given besides the segments -/

def parseU16 (s : List Char) : Option UInt16 :=
  let digits := match s with
    | '+' :: digits => digits
    | digits => digits
  if digits.isEmpty || !digits.all Char.isDigit then none
  else
    let n := digits.foldl (fun n c => 10 * n + (c.toNat - '0'.toNat)) 0
    if n < 2 ^ 16 then some (UInt16.ofNat n) else none

def versionOf (config : AppConfig) : Version :=
  match config.version with
  | none => ⟨0, 0, 0⟩
  | some text =>
    match (text.toList.splitOn '.').filterMap parseU16 with
    | major :: minor :: patch :: _ => ⟨major, minor, patch⟩
    | _ => ⟨0, 0, 0⟩

def partitionOf (config : AppConfig) (name : String) (place : Place) : Option Partition :=
  place.offset.map fun offset =>
    let sources := config.filesystems.values.flatten
    let unmapped := if place.unmapped then partUnmapped else 0
    let managed := if sources.contains name then partManaged else 0
    { nameHash := nameHash name.toUTF8.data.toList
      offset := UInt32.ofNat offset
      size := UInt32.ofNat place.size
      flags := unmapped ||| managed }

def partitionsOf (config : AppConfig) : List Partition :=
  config.places.filterMap fun p => partitionOf config p.1 p.2

/-! ## Packing -/

/-- The addresses of the flash that hosts the image, by the first mapping of its place. -/
def hostRange (imagePlace : Option Place) : Option (Nat × Nat) :=
  imagePlace.bind fun place => place.mappings.head?.map fun m =>
    (add64 m.address place.start, add64 (add64 m.address place.start) place.size)

def isHostResident (host : Option (Nat × Nat)) (paddr : Nat) : Bool :=
  match host with
  | none => false
  | some (base, stop) => decide (base ≤ paddr) && decide (paddr < stop)

/-- Where the flash that hosts the image begins. -/
def hostBase (host : Option (Nat × Nat)) : Nat := (host.map Prod.fst).getD 0

def lowest (segs : List Segment) : Nat := (segs.map Segment.paddr).min?.getD 0

def highest (segs : List Segment) : Nat := (segs.map Segment.stop).max?.getD 0

/-- Host-resident places first. -/
def rank (host : Option (Nat × Nat)) (groups : Groups) (name : String) : Nat :=
  if isHostResident host (lowest (groupOf groups name)) then 0 else 1

def Ranked (host : Option (Nat × Nat)) (groups : Groups) (a b : String) : Prop :=
  rank host groups a ≤ rank host groups b

instance (host : Option (Nat × Nat)) (groups : Groups) : DecidableRel (Ranked host groups) :=
  fun a b => inferInstanceAs (Decidable (rank host groups a ≤ rank host groups b))

def placeNames (host : Option (Nat × Nat)) (groups : Groups) : List String :=
  groups.keys.insertionSort (Ranked host groups)

def Segment.before (a b : Segment) : Prop := a.paddr ≤ b.paddr

instance : DecidableRel Segment.before := fun a b =>
  inferInstanceAs (Decidable (a.paddr ≤ b.paddr))

def checkOverlap : List Segment → Except LinkFailure Unit
  | a :: b :: segs =>
    if b.paddr < a.stop then .error (.error (.overlap a.owner a.paddr b.owner b.paddr))
    else checkOverlap (b :: segs)
  | _ => .ok ()

/-- The segments of a place merged, with `0xFF` in the gaps. -/
def mergeSegments (base total : Nat) (segs : List Segment) : List UInt8 :=
  Mem.slice (Mem.writeAll (fun s : Segment => s.paddr - base) Segment.data (fun _ => 0xFF) segs) 0
    total

structure PlaceLayout where
  fileOffset : Nat
  blobBase : Nat

structure Packing where
  placeLayouts : OrdMap String PlaceLayout
  tailCursor : Nat
  segments : List BuilderSegment

/-- The file offset of a blob and the cursor behind it, both `u32`. -/
def fileOffsetOf (host : Option (Nat × Nat)) (tailCursor base total : Nat) : Nat × Nat :=
  if isHostResident host base then
    let off := sub64 base (hostBase host) % 2 ^ 32
    (off, max tailCursor ((off + total) % 2 ^ 32))
  else
    let off := alignUp 32 tailCursor 4
    (off, (off + total) % 2 ^ 32)

/-- The end of what the layout has in a place, `stop` if it has nothing there. -/
def memEnd (layout : Layout) (range : PlaceRange) (stop : Nat) : Nat :=
  let inside := layout.placed.values.filter fun a =>
    decide (range.start ≤ a.base) && decide (a.base < range.stop)
  (inside.map fun a => add64 a.base a.size).max?.getD stop

def packPlace (ranges : List PlaceRange) (layout : Layout) (host : Option (Nat × Nat))
    (groups : Groups) (st : Packing) (name : String) : Except LinkFailure Packing := do
  let segs := (groupOf groups name).insertionSort Segment.before
  checkOverlap segs
  match segs.head?, ranges.find? fun r => r.name == name with
  | some first, some range =>
    let base := first.paddr
    let stop := highest segs
    let blob := mergeSegments base (stop - base) segs
    let memSize := UInt32.ofNat (sub64 (memEnd layout range stop) base)
    let (fileOffset, tailCursor) := fileOffsetOf host st.tailCursor base (stop - base)
    if fits : blob.length ≤ memSize.toNat then
      return {
        placeLayouts := st.placeLayouts.insert name ⟨fileOffset, base⟩
        tailCursor
        segments := st.segments ++
          [⟨UInt32.ofNat base, UInt32.ofNat fileOffset, blob, memSize, fits⟩] }
    else .error .panic
  | _, _ => .error .panic

def linkImage (artifacts : List CompileArtifact) (config : AppConfig) (layout : Layout)
    (imagePlace : Option Place) (flashTimestamp : UInt64) :
    Except LinkFailure (PlacesBuilder × OrdMap String PlaceLayout) := do
  let ranges := placeRanges config imagePlace
  let segments ← collectSegments artifacts
  if segments.isEmpty then .error (.error .noSegments)
  else
    let groups ← segments.foldlM (groupSegment ranges) []
    match layout.placed.get? ⟨"kernel", "code"⟩ with
    | none => .error (.error (.other "kernel.code not in layout"))
    | some kernelCode =>
      let host := hostRange imagePlace
      let st ← (placeNames host groups).foldlM (packPlace ranges layout host groups) ⟨[], 0, []⟩
      return (
        { entryPoint := UInt32.ofNat kernelCode.base
          version := versionOf config
          flashTimestamp
          partitions := partitionsOf config
          segments := st.segments }, st.placeLayouts)

end Rcard.Tfw
