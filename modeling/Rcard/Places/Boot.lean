/-
The bootloader (`firmware/bootloader/src/main.rs`).

The flash table names two slots.  The bootloader parses both, chooses one, parses
it again, copies its segments and jumps.  With two images that parse,
`select_firmware` decides by their states.  With only one, that one is taken, and
nothing asks for its state.

Memory is a function that does not change while the image is read.  The texts on
the serial line and the caches are left out.
-/
import Rcard.Places.Image

namespace Rcard.Places

open FirmwareState

/-! ## Choosing a slot -/

inductive Slot where
  | a
  | b
  deriving DecidableEq, Repr

def Slot.other : Slot → Slot
  | a => b
  | b => a

inductive SelectionReason where
  | otherConcerned (state : FirmwareState)
  | higherVersion
  | newerFlash
  | tiebreak
  deriving DecidableEq, Repr

inductive SelectionError where
  | bothConcerned (a b : FirmwareState)
  deriving DecidableEq, Repr

def cmpVersion (a b : Version) : Ordering :=
  ((compare a.major b.major).then (compare a.minor b.minor)).then (compare a.patch b.patch)

def selectFirmware (a b : PlacesImage) : Except SelectionError (Slot × SelectionReason) :=
  let aState := a.firmwareState
  let bState := b.firmwareState
  match aState.isBootable, bState.isBootable with
  | true, false => .ok (.a, .otherConcerned bState)
  | false, true => .ok (.b, .otherConcerned aState)
  | false, false => .error (.bothConcerned aState bState)
  | true, true =>
    match cmpVersion a.version b.version with
    | .gt => .ok (.a, .higherVersion)
    | .lt => .ok (.b, .higherVersion)
    | .eq =>
      match compare a.flashTimestamp b.flashTimestamp with
      | .gt => .ok (.a, .newerFlash)
      | .lt => .ok (.b, .newerFlash)
      | .eq => .ok (.a, .tiebreak)

/-! ## The flash table -/

def ftabAddr : Nat := 0x12000000

/-- `FTAB_SLOT_A` and `FTAB_SLOT_B`. -/
def Slot.ftabIndex : Slot → Nat
  | a => 14
  | b => 15

def readWord (mem : Nat → UInt8) (addr : Nat) : UInt32 :=
  UInt32.ofNat (leNat (Mem.slice mem addr 4))

structure FtabEntry where
  base : UInt32
  size : UInt32
  deriving DecidableEq, Repr

def readFtabSlot (mem : Nat → UInt8) (slot : Slot) : FtabEntry :=
  let entryAddr := ftabAddr + 4 + slot.ftabIndex * 16
  { base := readWord mem entryAddr, size := readWord mem (entryAddr + 4) }

/-- `from_raw_parts`. -/
def FtabEntry.slice (mem : Nat → UInt8) (e : FtabEntry) : Slice :=
  { len := e.size.toNat, byte := fun i => mem ((e.base.toNat + i) % usize32) }

def tryParseSlot (mem : Nat → UInt8) (slot : Slot) : Option PlacesImage :=
  let e := readFtabSlot mem slot
  if e.base = 0xFFFFFFFF ∨ e.size = 0 ∨ e.size = 0xFFFFFFFF then none
  else (parse usize32 (e.slice mem)).val.toOption

/-! ## Booting -/

inductive Halt where
  | selection (e : SelectionError)
  | noFirmware
  | badImage (e : ParseError)
  deriving DecidableEq, Repr

def chooseSlot (mem : Nat → UInt8) : Except Halt Slot :=
  match tryParseSlot mem .a, tryParseSlot mem .b with
  | some a, some b =>
    match selectFirmware a b with
    | .ok (slot, _) => .ok slot
    | .error e => .error (.selection e)
  | some _, none => .ok .a
  | none, some _ => .ok .b
  | none, none => .error .noFirmware

structure MemWrite where
  addr : UInt32
  bytes : List UInt8
  deriving DecidableEq, Repr

abbrev Load := Logged MemWrite

/-- One turn of the loop over the segments, for an image at `base`. -/
def loadSegment (base : UInt32) (seg : Segment) : Load Unit :=
  let src := base + seg.fileOffset
  let copied : MemWrite :=
    { addr := seg.dest, bytes := Mem.slice seg.data.byte 0 seg.fileSize.toNat }
  let zeroed : MemWrite :=
    { addr := seg.dest + seg.fileSize, bytes := List.replicate seg.zeroFill 0 }
  if seg.dest = src then ⟨(), []⟩
  else if 0 < seg.zeroFill then ⟨(), [copied, zeroed]⟩
  else ⟨(), [copied]⟩

def loadSegments (base : UInt32) : List Segment → Load Unit
  | [] => return ()
  | seg :: segs => do
      loadSegment base seg
      loadSegments base segs

/-- The image that was loaded and the vector table it is entered through. -/
structure Boot where
  image : PlacesImage
  entry : UInt32

def bootloaderMain (mem : Nat → UInt8) : Load (Except Halt Boot) :=
  match chooseSlot mem with
  | .error halt => return .error halt
  | .ok selected =>
    let places := readFtabSlot mem selected
    match (parse usize32 (places.slice mem)).val with
    | .error e => return .error (.badImage e)
    | .ok image => do
        loadSegments places.base (image.segments usize32)
        return .ok { image, entry := image.entryPoint }

/-! ## What is booted -/

section Main

variable {mem : Nat → UInt8} {slot : Slot} {img : PlacesImage}

theorem parse_of_tryParseSlot (h : tryParseSlot mem slot = some img) :
    (parse usize32 ((readFtabSlot mem slot).slice mem)).val = .ok img := by
  rw [tryParseSlot] at h
  split at h
  · cases h
  · cases hparse : (parse usize32 ((readFtabSlot mem slot).slice mem)).val with
    | error e =>
      rw [hparse] at h
      cases h
    | ok image =>
      rw [hparse] at h
      cases h
      rfl

/-- The state `Default` of an accepted image. -/
theorem PlacesImage.firmwareState_default {m : Nat} {data : Slice}
    (hparse : (parse m data).val = .ok img) (h : img.firmwareState = .default) :
    img.checksumValid = true ∧ img.stateRaw = stateDefaultRaw := by
  obtain ⟨footer, hp⟩ := parse_ok_iff.mp hparse
  rw [firmwareState] at h
  split at h
  · cases h
  · rename_i hvalid
    refine ⟨?_, decodeStored_default_iff.mp h⟩
    rcases readFooter_ok hp.footer_ok with hv | ⟨hv, _⟩
    · rw [checksumValid, if_pos hv]
    · by_contra hbad
      exact hvalid ⟨by rw [hv]; decide, Bool.eq_false_iff.mpr hbad⟩

theorem selectFirmware_ok {a b : PlacesImage} {reason : SelectionReason}
    (h : selectFirmware a b = .ok (slot, reason)) :
    slot = .a ∧ a.firmwareState = .default ∨ slot = .b ∧ b.firmwareState = .default := by
  rw [selectFirmware] at h
  split at h
  · rename_i ha _
    cases h
    exact .inl ⟨rfl, isBootable_iff.mp ha⟩
  · rename_i _ hb
    cases h
    exact .inr ⟨rfl, isBootable_iff.mp hb⟩
  · cases h
  · -- Both are bootable, so it does not matter how the tie is broken.
    rename_i ha hb
    cases slot with
    | a => exact .inl ⟨rfl, isBootable_iff.mp ha⟩
    | b => exact .inr ⟨rfl, isBootable_iff.mp hb⟩

theorem chooseSlot_ok (h : chooseSlot mem = .ok slot) :
    ∃ img, tryParseSlot mem slot = some img ∧
      (img.firmwareState = .default ∨ tryParseSlot mem slot.other = none) := by
  rw [chooseSlot] at h
  split at h
  · rename_i a b ha hb
    split at h
    · rename_i chosen reason hselect
      cases h
      rcases selectFirmware_ok hselect with ⟨rfl, hdefault⟩ | ⟨rfl, hdefault⟩
      · exact ⟨a, ha, .inl hdefault⟩
      · exact ⟨b, hb, .inl hdefault⟩
    · cases h
  · rename_i a ha hb
    cases h
    exact ⟨a, ha, .inr hb⟩
  · rename_i b ha hb
    cases h
    exact ⟨b, hb, .inr ha⟩
  · cases h

/-- The only slot that parses is taken, in any state. -/
theorem chooseSlot_alone (h : tryParseSlot mem slot = some img)
    (hother : tryParseSlot mem slot.other = none) : chooseSlot mem = .ok slot := by
  cases slot with
  | a | b =>
    rw [Slot.other] at hother
    rw [chooseSlot, h, hother]

theorem bootloaderMain_error {halt : Halt} (h : chooseSlot mem = .error halt) :
    bootloaderMain mem = return .error halt := by
  rw [bootloaderMain, h]

theorem bootloaderMain_ok (h : chooseSlot mem = .ok slot)
    (hparse : tryParseSlot mem slot = some img) :
    bootloaderMain mem = do
      loadSegments (readFtabSlot mem slot).base (img.segments usize32)
      return .ok { image := img, entry := img.entryPoint } := by
  rw [bootloaderMain, h]
  dsimp only
  rw [parse_of_tryParseSlot hparse]

/-- The image of a slot is loaded and entered. -/
structure Loaded (mem : Nat → UInt8) (slot : Slot) (boot : Boot) : Prop where
  image : tryParseSlot mem slot = some boot.image
  writes : (bootloaderMain mem).log =
    (loadSegments (readFtabSlot mem slot).base (boot.image.segments usize32)).log
  entry : boot.entry = boot.image.entryPoint

structure BootsOnlyDefault (mem : Nat → UInt8) : Prop where
  booted : ∀ boot, (bootloaderMain mem).val = .ok boot →
    (∃ slot, Loaded mem slot boot) ∧ boot.image.firmwareState = .default ∧
      boot.image.checksumValid = true ∧ boot.image.stateRaw = stateDefaultRaw
  halted : (∀ slot img, tryParseSlot mem slot = some img → img.firmwareState ≠ .default) →
    (∃ halt, (bootloaderMain mem).val = .error halt) ∧ (bootloaderMain mem).log = []

/-- One slot parses, and its image is not in the state `Default`. -/
def AloneConcerned (mem : Nat → UInt8) : Prop :=
  ∃ slot img, tryParseSlot mem slot = some img ∧ tryParseSlot mem slot.other = none ∧
    img.firmwareState ≠ .default

theorem bootsOnlyDefault_iff (mem : Nat → UInt8) : BootsOnlyDefault mem ↔ ¬ AloneConcerned mem := by
  constructor
  · rintro hboots ⟨slot, img, hparse, hother, hstate⟩
    have hmain := bootloaderMain_ok (chooseSlot_alone hparse hother) hparse
    have hval : (bootloaderMain mem).val = .ok { image := img, entry := img.entryPoint } := by
      rw [hmain]
      rfl
    exact hstate (hboots.booted _ hval).2.1
  · intro halone
    have hdefault : ∀ slot, chooseSlot mem = .ok slot →
        ∃ img, tryParseSlot mem slot = some img ∧ img.firmwareState = .default := by
      intro slot hslot
      obtain ⟨img, hparse, hstate | hother⟩ := chooseSlot_ok hslot
      · exact ⟨img, hparse, hstate⟩
      · refine ⟨img, hparse, ?_⟩
        by_contra hstate
        exact halone ⟨slot, img, hparse, hother, hstate⟩
    cases hslot : chooseSlot mem with
    | error halt =>
      have hmain := bootloaderMain_error hslot
      refine ⟨fun boot hval => ?_, fun _ => ?_⟩
      · rw [hmain] at hval
        cases hval
      · rw [hmain]
        exact ⟨⟨halt, rfl⟩, rfl⟩
    | ok slot =>
      obtain ⟨img, hparse, hstate⟩ := hdefault slot hslot
      have hmain := bootloaderMain_ok hslot hparse
      refine ⟨fun boot hval => ?_, fun hnone => absurd hstate (hnone slot img hparse)⟩
      have hlog : (bootloaderMain mem).log =
          (loadSegments (readFtabSlot mem slot).base (img.segments usize32)).log := by
        rw [hmain, Logged.log_bind, Logged.log_pure, List.append_nil]
      rw [hmain] at hval
      cases hval
      exact ⟨⟨slot, hparse, hlog, rfl⟩, hstate,
        PlacesImage.firmwareState_default (parse_of_tryParseSlot hparse) hstate⟩

end Main

/-- Slot A holds one image in format version 2, slot B has size zero. -/
def loneFlash : Nat → UInt8 :=
  Mem.write (Mem.write (fun _ => 0) (ftabAddr + 4 + 14 * 16) [0, 0, 1, 0x12, 48, 0, 0, 0])
    0x12010000 ([1, 1, 1, 1] ++ List.replicate 16 0 ++ [0xFF, 0xFF, 0xFF, 0xFF] ++
      List.replicate 16 0 ++ [2, 0, 0, 0, 0x42, 0x43, 0x4C, 0x50])

theorem corrupt_image_boots :
    ∃ boot, (bootloaderMain loneFlash).val = .ok boot ∧
      boot.image.firmwareState = .integrityCompromised := by
  have hparse : (tryParseSlot loneFlash .a).map PlacesImage.firmwareState =
      some .integrityCompromised := by decide +kernel
  have hother : (tryParseSlot loneFlash .b).isNone = true := by decide +kernel
  obtain ⟨img, himg, hstate⟩ := Option.map_eq_some_iff.mp hparse
  refine ⟨{ image := img, entry := img.entryPoint }, ?_, hstate⟩
  rw [bootloaderMain_ok (chooseSlot_alone himg (Option.isNone_iff_eq_none.mp hother)) himg]
  rfl

end Rcard.Places
