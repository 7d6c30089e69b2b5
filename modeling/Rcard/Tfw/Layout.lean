/-
The memory layout of an image.

The build tool places the regions of the bootloader, the kernel and the tasks into the named
places of a board.  `solve` places what has a size; what the linker sizes is left in
`deferred` and placed by three later calls, one for the tasks, one for the kernel and one for
the bootloader.  Every call allocates upwards in each place with a cursor that is kept in the
addresses of one of the place's mappings and built again from what is already placed.

Sums of `u64` wrap, as in a release build.  An `unwrap` of a missing place is `Failure.panic`.
-/
import Mathlib.Data.List.Sort
import Rcard.Lib.Align
import Rcard.Lib.OrdMap

namespace Rcard.Tfw

open Align

def add64 (x y : Nat) : Nat := (x + y) % 2 ^ 64

def sub64 (x y : Nat) : Nat := (x + (2 ^ 64 - y)) % 2 ^ 64

/-! ## The configuration -/

structure Mapping where
  address : Nat
  size : Nat
  execute : Bool
deriving DecidableEq

structure Place where
  size : Nat
  mappings : List Mapping
  offset : Option Nat
  unmapped : Bool
  name : Option String
deriving DecidableEq

/-- What a component asks for one of its regions. -/
structure RegionRequest where
  place : Option Place
  size : Option Nat
  align : Option Nat
  shared : Option String
  execute : Bool
deriving DecidableEq

inductive TaskConfig where
  | mk (name : String) (regions : OrdMap String RegionRequest) (dependsOn : List TaskConfig)

def TaskConfig.regions : TaskConfig → OrdMap String RegionRequest
  | .mk _ regions _ => regions

structure AppConfig where
  version : Option String
  places : OrdMap String Place
  /-- The sources of each filesystem's mounts. -/
  filesystems : OrdMap String (List String)
  bootloader : Option (OrdMap String RegionRequest)
  kernel : OrdMap String RegionRequest
  entries : List TaskConfig

mutual

def TaskConfig.walk : TaskConfig → OrdMap String TaskConfig → OrdMap String TaskConfig
  | .mk name regions dependsOn, out =>
    if (out.get? name).isSome then out
    else walkAll dependsOn (out.insert name (.mk name regions dependsOn))

def TaskConfig.walkAll : List TaskConfig → OrdMap String TaskConfig → OrdMap String TaskConfig
  | [], out => out
  | task :: tasks, out => walkAll tasks (task.walk out)

end

def collectTasks (config : AppConfig) : OrdMap String TaskConfig :=
  TaskConfig.walkAll config.entries []

structure RegionKey where
  owner : String
  region : String
deriving DecidableEq

instance : LT RegionKey :=
  ⟨fun a b => a.owner < b.owner ∨ a.owner = b.owner ∧ a.region < b.region⟩

instance : DecidableLT RegionKey := fun a b =>
  inferInstanceAs (Decidable (a.owner < b.owner ∨ a.owner = b.owner ∧ a.region < b.region))

def regionsOf (owner : String) (regions : OrdMap String RegionRequest) :
    List (RegionKey × RegionRequest) :=
  regions.map fun p => (⟨owner, p.1⟩, p.2)

def AppConfig.requests (config : AppConfig) : List (RegionKey × RegionRequest) :=
  regionsOf "bootloader" (config.bootloader.getD []) ++ regionsOf "kernel" config.kernel ++
    (collectTasks config).flatMap fun p => regionsOf p.1 p.2.regions

/-! ## Places and their addresses -/

section

variable (place : Place)

def Place.start : Nat := place.offset.getD 0

def Place.fits (mapping : Mapping) : Bool :=
  decide (add64 place.start place.size ≤ mapping.size)

/-- The first mapping of the kind that is asked for. -/
def Place.preferred (needsExecute : Bool) : Option Mapping :=
  place.mappings.find? fun mapping =>
    let dominated := if needsExecute then !mapping.execute else mapping.execute
    !dominated && place.fits mapping

def resolveCpuAddress (needsExecute : Bool) : Option Nat :=
  match place.preferred needsExecute with
  | some mapping => some (add64 mapping.address place.start)
  | none => (place.mappings.find? place.fits).map fun mapping => add64 mapping.address place.start

def isCpuMapped : Bool := !place.unmapped && !place.mappings.isEmpty

def placeKey : Nat := (resolveCpuAddress place false).getD place.start

end

/-! ## The cursors -/

structure Allocation where
  base : Nat
  size : Nat
deriving DecidableEq

structure PlaceCursor where
  base : Nat
  cursor : Nat
  endAddr : Nat
deriving DecidableEq

abbrev CursorMap := OrdMap Nat PlaceCursor

/-- The bytes kept free at the end of a place, by the place's key. -/
abbrev Reservations := OrdMap Nat Nat

def reserve (place : Place) (reservations : Reservations) : Nat :=
  (reservations.get? (placeKey place)).getD 0

def cursorEnd (cpuBase : Nat) (place : Place) (reservations : Reservations) : Nat :=
  add64 cpuBase (place.size - reserve place reservations)

def PlaceCursor.seed (cpuBase : Nat) (place : Place) (reservations : Reservations) :
    PlaceCursor :=
  ⟨cpuBase, cpuBase, cursorEnd cpuBase place reservations⟩

def ensureCursor (place : Place) (cursors : CursorMap) (reservations : Reservations) :
    CursorMap :=
  match resolveCpuAddress place false with
  | none => cursors
  | some cpuBase =>
    match cursors.get? (placeKey place) with
    | some _ => cursors
    | none => cursors.insert (placeKey place) (.seed cpuBase place reservations)

def PlaceCursor.past (pc : PlaceCursor) (alloc : Allocation) : PlaceCursor :=
  let allocEnd := add64 alloc.base alloc.size
  if pc.base ≤ alloc.base ∧ alloc.base < pc.endAddr ∧ pc.cursor < allocEnd then
    { pc with cursor := allocEnd }
  else pc

def advanceCursorsPast (placed : OrdMap RegionKey Allocation) (cursors : CursorMap) :
    CursorMap :=
  placed.values.foldl (fun cursors alloc => cursors.mapValues (·.past alloc)) cursors

/-- The cursor of a place, a new one if the place has none yet. -/
def cursorOf (reservations : Reservations) (cursors : CursorMap) (place : Place) (base : Nat) :
    PlaceCursor :=
  (cursors.get? (placeKey place)).getD (.seed base place reservations)

/-- The cursor map changes even when the region does not fit. -/
def tryAllocate (place : Place) (size align : Nat) (needsExecute : Bool) (cursors : CursorMap)
    (reservations : Reservations) : Option Allocation × CursorMap :=
  match resolveCpuAddress place false with
  | none => (none, cursors)
  | some canonicalBase =>
    let pk := placeKey place
    let pc := cursorOf reservations cursors place canonicalBase
    let aligned := alignUp 64 pc.cursor align
    let endAddr := add64 aligned size
    if pc.endAddr < endAddr then (none, cursors.insert pk pc)
    else
      let targetBase := (resolveCpuAddress place needsExecute).getD canonicalBase
      let offset := sub64 aligned canonicalBase
      (some ⟨add64 targetBase offset, size⟩, cursors.insert pk { pc with cursor := endAddr })

def remainingInPlace (place : Place) (cursors : CursorMap) : Nat :=
  match cursors.get? (placeKey place) with
  | some pc => pc.endAddr - pc.cursor
  | none => place.size

/-! ## Errors -/

structure PlaceOccupant where
  owner : String
  region : String
  size : Nat
deriving DecidableEq

def occupantsInPlace (placed : OrdMap RegionKey Allocation) (place : Place) :
    List PlaceOccupant :=
  let inside := placed.filter fun p =>
    decide (0 < p.2.size) && place.mappings.any fun m =>
      let start := add64 m.address place.start
      decide (start ≤ p.2.base) && decide (p.2.base < add64 start place.size)
  let occupants : List PlaceOccupant := inside.map fun p => ⟨p.1.owner, p.1.region, p.2.size⟩
  occupants.insertionSort fun a b => b.size ≤ a.size

structure OutOfSpaceDetail where
  owner : String
  region : String
  needed : Nat
  available : Nat
  placeName : String
  placeSize : Nat
  occupants : List PlaceOccupant
deriving DecidableEq

inductive LayoutError where
  | outOfSpace (detail : OutOfSpaceDetail)
  | deferredNotMeasured (owner region : String)
  | sharedConflict (group field owner region : String)
  | sharedMissing (group field : String)
deriving DecidableEq

inductive Failure where
  | error (e : LayoutError)
  | panic
deriving DecidableEq

def outOfSpace (owner region : String) (needed : Nat) (place : Place)
    (placed : OrdMap RegionKey Allocation) (cursors : CursorMap) : Failure :=
  .error (.outOfSpace
    { owner, region, needed
      available := remainingInPlace place cursors
      placeName := place.name.getD "?"
      placeSize := place.size
      occupants := occupantsInPlace placed place })

/-! ## Shared groups -/

structure SharedGroup where
  place : Option Place
  size : Option Nat
  align : Option Nat
  members : List RegionKey

def SharedGroup.empty : SharedGroup := ⟨none, none, none, []⟩

/-- One field of a group after a member's request: the first value given stays. -/
def agree {α : Type} (group field : String) (key : RegionKey) (same : α → α → Bool)
    (existing requested : Option α) : Except Failure (Option α) :=
  match requested, existing with
  | none, _ => .ok existing
  | some new, none => .ok (some new)
  | some new, some old =>
    if same old new then .ok existing
    else .error (.error (.sharedConflict group field key.owner key.region))

def SharedGroup.join (entry : SharedGroup) (group : String) (key : RegionKey)
    (request : RegionRequest) : Except Failure SharedGroup := do
  let place ←
    agree group "place" key (fun a b => placeKey a == placeKey b) entry.place request.place
  let size ← agree group "size" key (· == ·) entry.size request.size
  let align ← agree group "align" key (· == ·) entry.align request.align
  return { place, size, align, members := entry.members ++ [key] }

def joinShared (groups : OrdMap String SharedGroup) (p : RegionKey × RegionRequest) :
    Except Failure (OrdMap String SharedGroup) :=
  match p.2.shared with
  | none => .ok groups
  | some group => do
      let entry ← ((groups.get? group).getD .empty).join group p.1 p.2
      return groups.insert group entry

/-! ## `solve` -/

structure Layout where
  placed : OrdMap RegionKey Allocation
  deferred : OrdMap RegionKey RegionRequest
  aclOnly : List RegionKey

structure Solving where
  placed : OrdMap RegionKey Allocation
  cursors : CursorMap
  aclOnly : List RegionKey

def allocateShared (reservations : Reservations) (st : Solving) (p : String × SharedGroup) :
    Except Failure Solving :=
  match p.2.place, p.2.size with
  | none, _ => .error (.error (.sharedMissing p.1 "place"))
  | some _, none => .error (.error (.sharedMissing p.1 "size"))
  | some place, some size =>
    if !isCpuMapped place then .ok { st with aclOnly := st.aclOnly ++ p.2.members }
    else
      match tryAllocate place size (p.2.align.getD 4) false st.cursors reservations with
      | (none, cursors) =>
        .error (outOfSpace ("shared:" ++ p.1) p.1 size place st.placed cursors)
      | (some alloc, cursors) =>
        .ok { st with
          placed := p.2.members.foldl (fun placed key => placed.insert key alloc) st.placed
          cursors }

structure Region where
  key : RegionKey
  size : Nat
  align : Nat
  place : Place
  execute : Bool

/-- By place, the larger first. -/
def Region.before (a b : Region) : Prop :=
  placeKey a.place < placeKey b.place ∨ placeKey a.place = placeKey b.place ∧ b.size ≤ a.size

instance : DecidableRel Region.before := fun a b =>
  inferInstanceAs (Decidable (placeKey a.place < placeKey b.place ∨
    placeKey a.place = placeKey b.place ∧ b.size ≤ a.size))

def allocateRegion (reservations : Reservations) (r : Region)
    (placed : OrdMap RegionKey Allocation) (cursors : CursorMap) :
    Except Failure (OrdMap RegionKey Allocation × CursorMap) :=
  match tryAllocate r.place r.size r.align r.execute cursors reservations with
  | (none, cursors) => .error (outOfSpace r.key.owner r.key.region r.size r.place placed cursors)
  | (some alloc, cursors) => .ok (placed.insert r.key alloc, cursors)

def fixedRegion (regions : List Region) (p : RegionKey × RegionRequest) :
    Except Failure (List Region) :=
  match p.2.shared, p.2.size with
  | none, some size =>
    match p.2.place with
    | none => .error .panic
    | some place => .ok (regions ++ [⟨p.1, size, p.2.align.getD 4, place, p.2.execute⟩])
  | _, _ => .ok regions

def allocateFixed (reservations : Reservations) (st : Solving) (r : Region) :
    Except Failure Solving :=
  if !isCpuMapped r.place then .ok { st with aclOnly := st.aclOnly ++ [r.key] }
  else do
    let (placed, cursors) ← allocateRegion reservations r st.placed st.cursors
    return { st with placed, cursors }

def deferRequest (layout : Layout) (p : RegionKey × RegionRequest) : Except Failure Layout :=
  match p.2.shared, p.2.size with
  | none, none =>
    match p.2.place with
    | none => .error .panic
    | some place =>
      if isCpuMapped place then
        .ok { layout with deferred := layout.deferred.insert p.1 p.2 }
      else .ok { layout with aclOnly := layout.aclOnly ++ [p.1] }
  | _, _ => .ok layout

def solve (config : AppConfig) (reservations : Reservations) : Except Failure Layout := do
  let requests := config.requests
  let groups ← requests.foldlM joinShared []
  let st ← groups.foldlM (allocateShared reservations) ⟨[], [], []⟩
  let fixed ← requests.foldlM fixedRegion []
  let st ← (fixed.insertionSort Region.before).foldlM (allocateFixed reservations) st
  requests.foldlM deferRequest ⟨st.placed, [], st.aclOnly⟩

/-! ## Deferred regions -/

def pushRegion (regions : List Region) (p : RegionKey × RegionRequest) (size : Nat) :
    List Region :=
  match p.2.place with
  | none => regions
  | some place =>
    if !isCpuMapped place then regions
    else regions ++ [⟨p.1, size, p.2.align.getD 32, place, p.2.execute⟩]

/-- Only code has to be measured. -/
def measureRegion (measured : OrdMap RegionKey Nat) (regions : List Region)
    (p : RegionKey × RegionRequest) : Except Failure (List Region) :=
  match measured.get? p.1 with
  | some size => .ok (pushRegion regions p size)
  | none =>
    if p.1.region = "code" then
      .error (.error (.deferredNotMeasured p.1.owner p.1.region))
    else .ok (pushRegion regions p 0)

/-- A region without content gets the cursor's address and does not move the cursor. -/
def emptyAllocation (r : Region) (cursors : CursorMap) : Allocation :=
  let canonical := (resolveCpuAddress r.place false).getD 0
  let target := (resolveCpuAddress r.place r.execute).getD canonical
  let cursor := ((cursors.get? (placeKey r.place)).map PlaceCursor.cursor).getD canonical
  ⟨add64 target (sub64 cursor canonical), 0⟩

def resolveRegion (reservations : Reservations)
    (st : OrdMap RegionKey Allocation × CursorMap) (r : Region) :
    Except Failure (OrdMap RegionKey Allocation × CursorMap) :=
  if r.size = 0 then .ok (st.1.insert r.key (emptyAllocation r st.2), st.2)
  else allocateRegion reservations r st.1 st.2

inductive Pass where
  | tasks
  | kernel
  | bootloader
deriving DecidableEq

def Pass.covers : Pass → RegionKey → Bool
  | .tasks, key => key.owner != "kernel" && key.owner != "bootloader"
  | .kernel, key => key.owner == "kernel"
  | .bootloader, key => key.owner == "bootloader"

namespace Layout

def resolveDeferredFiltered (layout : Layout) (measured : OrdMap RegionKey Nat)
    (reservations : Reservations) (filter : RegionKey → Bool) : Except Failure Layout := do
  let regions ← (layout.deferred.filter fun p => filter p.1).foldlM (measureRegion measured) []
  let cursors :=
    regions.foldl (fun cursors r => ensureCursor r.place cursors reservations) []
  let cursors := advanceCursorsPast layout.placed cursors
  let st ← (regions.insertionSort Region.before).foldlM (resolveRegion reservations)
    (layout.placed, cursors)
  return { layout with placed := st.1 }

/-- The three public calls drop from `deferred` what they cover. -/
def resolvePass (pass : Pass) (layout : Layout) (measured : OrdMap RegionKey Nat)
    (reservations : Reservations) : Except Failure Layout := do
  let layout ← layout.resolveDeferredFiltered measured reservations pass.covers
  return { layout with deferred := layout.deferred.filter fun p => !pass.covers p.1 }

def resolveDeferred : Layout → OrdMap RegionKey Nat → Reservations → Except Failure Layout :=
  resolvePass .tasks

def resolveBootloaderDeferred :
    Layout → OrdMap RegionKey Nat → Reservations → Except Failure Layout :=
  resolvePass .bootloader

def resolveKernelDeferred : Layout → OrdMap RegionKey Nat → Reservations → Except Failure Layout :=
  resolvePass .kernel

end Layout

def Pass.resolve : Pass → Layout → OrdMap RegionKey Nat → Reservations → Except Failure Layout
  | .tasks => Layout.resolveDeferred
  | .kernel => Layout.resolveKernelDeferred
  | .bootloader => Layout.resolveBootloaderDeferred

/-- `solve`, then any of the other calls in any order. -/
def layOut (config : AppConfig) (reservations : Reservations)
    (calls : List (Pass × OrdMap RegionKey Nat)) : Except Failure Layout := do
  let layout ← solve config reservations
  calls.foldlM (fun layout call => call.1.resolve layout call.2 reservations) layout

end Rcard.Tfw
