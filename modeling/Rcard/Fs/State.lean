/-
The filesystem sysmodule (`sysmodule/fs`).

Mounts live in a table of four slots.  Open files, open directories, iterators and names in
the registry refer to a mount by its slot, and nothing keeps a slot from being unmounted and
mounted again while they do.

Every mount has a number here that the code does not have, and everything that refers to a
mount keeps the number of the one that it was made for.  `calls` is the list of the littlefs
calls made: what they were made for, the mount they were made on, and the mount whose file
or directory state they were given.  Return codes of littlefs are arguments of the events.
-/
import Mathlib.Data.Nat.Bitwise

namespace Rcard.Fs

open List

def maxFs : Nat := 4

/-- `MAX_OPEN_FILES` and `MAX_OPEN_DIRS`. -/
def maxOpen : Nat := 4

def maxRegistryEntries : Nat := 8

/-- The arenas of files and folders. -/
def arenaSize : Nat := 4

inductive Kind where
  | file
  | folder
  deriving DecidableEq, Repr

inductive OpenError where
  | notFound
  | invalidFs
  | noSpace
  | isDirectory
  | io
  deriving DecidableEq, Repr

/-- `OpenFile` or `OpenDir`.  Only directories count their openings. -/
structure Slot where
  path : List UInt8
  fsId : Nat
  refcount : Nat
  occupied : Bool
  unlinked : Bool
  generation : Nat
  /-- The mount that its littlefs state is of. -/
  inst : Option Nat
  deriving DecidableEq, Repr

structure RegistryEntry where
  name : List UInt8
  fsId : Option Nat
  /-- What was mounted when it was registered. -/
  inst : Option Nat
  deriving DecidableEq, Repr

structure FsState where
  /-- The number of the mount in each slot. -/
  mounts : Nat → Option Nat
  slots : Kind → Nat → Slot
  registry : Nat → RegistryEntry

namespace FsState

def new : FsState where
  mounts := fun _ => none
  slots := fun _ _ => ⟨[], 0, 0, false, false, 0, none⟩
  registry := fun _ => ⟨[], none, none⟩

section

variable (s : FsState)

def setMount (k : Nat) (m : Option Nat) : FsState :=
  { s with mounts := Function.update s.mounts k m }

def setSlot (kind : Kind) (j : Nat) (slot : Slot) : FsState :=
  { s with slots := fun kind' j' => if kind' = kind ∧ j' = j then slot else s.slots kind' j' }

def allocate : Option Nat :=
  (range maxFs).find? fun k => (s.mounts k).isNone

def findExisting (kind : Kind) (fsId : Nat) (path : List UInt8) : Option Nat :=
  (range maxOpen).find? fun j =>
    (s.slots kind j).occupied && (s.slots kind j).fsId = fsId && (s.slots kind j).path = path

def freeSlot (kind : Kind) : Option Nat :=
  (range maxOpen).find? fun j => !(s.slots kind j).occupied

end

/-- Names are compared up to their first zero. -/
def namesEq (a b : List UInt8) : Bool := a.takeWhile (· ≠ 0) = b.takeWhile (· ≠ 0)

def lookup (s : FsState) (name : List UInt8) : Option RegistryEntry :=
  ((range maxRegistryEntries).map s.registry).find? fun e =>
    e.fsId.isSome && namesEq e.name name

def registerEntry (s : FsState) (name : List UInt8) (fsId : Nat) : FsState :=
  if (s.lookup name).isSome then s
  else
    match (range maxRegistryEntries).find? fun i => (s.registry i).fsId.isNone with
    | some i =>
      { s with registry := Function.update s.registry i ⟨name, some fsId, s.mounts fsId⟩ }
    | none => s

end FsState

/-! ## Paths -/

def pathLen : Nat := 64

def padded (bytes : List UInt8) : List UInt8 :=
  bytes ++ replicate (pathLen - bytes.length) 0

/-- A lease as a path that ends in a zero. -/
def leaseToCstr (lease : List UInt8) : List UInt8 := padded (lease.take (pathLen - 1))

/-- The name before the first colon, and the path behind it. -/
def parseSchemePath (lease : List UInt8) : Option (List UInt8 × List UInt8) :=
  let buf := lease.take pathLen
  match buf.findIdx? (· = 58) with
  | none => none
  | some colon => some (buf.take (min colon 16), padded (buf.drop (colon + 1)))

/-! ## Resources -/

structure FileSystem where
  fsId : Nat
  inst : Nat
  deriving DecidableEq, Repr

/-- A `FileResource` or `FolderResource`. -/
structure Handle where
  kind : Kind
  slot : Nat
  inst : Option Nat
  deriving DecidableEq, Repr

structure FolderIterator where
  fsId : Nat
  slot : Nat
  generation : Nat
  inst : Option Nat
  deriving DecidableEq, Repr

/-- A call of littlefs. -/
structure Call where
  /-- The mount that the resource or name was made for. -/
  via : Option Nat
  /-- The mount that it acts on. -/
  on : Nat
  /-- The mount that the file or directory state is of, if it takes one. -/
  state : Option Nat
  deriving DecidableEq, Repr

structure State where
  fs : FsState
  nextInst : Nat
  systems : List FileSystem
  opened : List Handle
  iterators : List FolderIterator
  calls : List Call

namespace State

def start : State := ⟨.new, 0, [], [], [], []⟩

section

variable (s : State)

def call (c : Call) : State := { s with calls := s.calls ++ [c] }

/-- A mount that takes a slot if all calls of littlefs succeed. -/
def mounted (rcs : List Int) : Option (Nat × State) :=
  match s.fs.allocate with
  | none => none
  | some k =>
    if rcs.all (· = 0) then
      some (k, { s with fs := s.fs.setMount k (some s.nextInst), nextInst := s.nextInst + 1 })
    else none

/-- `mount` and `format`, which calls `lfs_format` before `lfs_mount`. -/
def mount (rcs : List Int) : State :=
  match s.mounted rcs with
  | some (k, s') => { s' with systems := s'.systems ++ [⟨k, s.nextInst⟩] }
  | none => s

/-- At the start of the task: a mount without a resource, under a name. -/
def autoMount (name : List UInt8) (rc : Int) : State :=
  match s.mounted [rc] with
  | some (k, s') => { s' with fs := s'.fs.registerEntry name k }
  | none => s

def unmount (y : FileSystem) : State :=
  let s' :=
    match s.fs.mounts y.fsId with
    | some m => s.call ⟨some y.inst, m, none⟩
    | none => s
  { s' with fs := s'.fs.setMount y.fsId none, systems := s'.systems.erase y }

/-- The task panics if nothing is mounted. -/
def stat (y : FileSystem) : Option State :=
  match s.fs.mounts y.fsId with
  | some m => some (s.call ⟨some y.inst, m, none⟩)
  | none => none

end

def u8Max : Nat := 255

/-- `find_existing` counts one more handle. -/
def share (s : State) (kind : Kind) (j : Nat) : State :=
  let slot := s.fs.slots kind j
  { s with fs := s.fs.setSlot kind j { slot with refcount := min (slot.refcount + 1) u8Max } }

def nextGeneration (slot : Slot) : Kind → Nat
  | .file => slot.generation
  | .folder => (slot.generation + 1) % 2 ^ 32

def openError : Kind → (rc : Int) → OpenError
  | .file, rc =>
    if rc = -2 then .notFound
    else if rc = -21 then .isDirectory
    else if rc = -28 then .noSpace
    else .io
  | .folder, rc => if rc = -2 then .notFound else .io

def missingFs : Kind → OpenError
  | .file => .io
  | .folder => .invalidFs

/-- The slot that was opened.  It is written before littlefs is asked. -/
def openNew (s : State) (kind : Kind) (fsId : Nat) (path : List UInt8) (via : Option Nat)
    (rc : Int) : State × Except OpenError Nat :=
  match s.fs.freeSlot kind with
  | none => (s, .error .io)
  | some j =>
    match s.fs.mounts fsId with
    | none => (s, .error (missingFs kind))
    | some m =>
      let slot := { s.fs.slots kind j with path, fsId, inst := some m }
      let s' := s.call ⟨via, m, some m⟩
      if rc = 0 then
        ({ s' with
           fs := s'.fs.setSlot kind j { slot with
             refcount := 1, occupied := true, unlinked := false
             generation := nextGeneration slot kind } },
          .ok j)
      else ({ s' with fs := s'.fs.setSlot kind j slot }, .error (openError kind rc))

def openSlot (s : State) (kind : Kind) (fsId : Nat) (path : List UInt8) (via : Option Nat)
    (rc : Int) : State × Except OpenError Nat :=
  match s.fs.findExisting kind fsId path with
  | some j => (s.share kind j, .ok j)
  | none => s.openNew kind fsId path via rc

def keep (kind : Kind) (via : Option Nat) : State × Except OpenError Nat → State
  | (s, .ok j) => { s with opened := s.opened ++ [⟨kind, j, via⟩] }
  | (s, .error _) => s

section

variable (s : State)

/-- `get_in` and `get_or_create_in` of files, and `get` of folders. -/
def openIn (kind : Kind) (y : FileSystem) (lease : List UInt8) (rc : Int) : State :=
  keep kind (some y.inst) (s.openSlot kind y.fsId (leaseToCstr lease) (some y.inst) rc)

/-- `get` and `get_or_create` of files, by a registered name. -/
def openByName (lease : List UInt8) (rc : Int) : State :=
  match parseSchemePath lease with
  | none => s
  | some (name, path) =>
    match s.fs.lookup name with
    | some ⟨_, some fsId, inst⟩ => keep .file inst (s.openSlot .file fsId path inst rc)
    | _ => s

/-- `get_or_create` of folders. -/
def createFolder (y : FileSystem) (lease : List UInt8) (rc rcMkdir rcOpen : Int) :
    State :=
  let path := leaseToCstr lease
  match s.openSlot .folder y.fsId path (some y.inst) rc with
  | (s', .error .notFound) =>
    match s'.fs.mounts y.fsId with
    | none => s'
    | some m =>
      let s' := s'.call ⟨some y.inst, m, none⟩
      if rcMkdir = 0 then
        keep .folder (some y.inst) (s'.openNew .folder y.fsId path (some y.inst) rcOpen)
      else s'
  | r => keep .folder (some y.inst) r

/-- `read`, `write` and `size`. -/
def access (h : Handle) : State :=
  let slot := s.fs.slots h.kind h.slot
  match s.fs.mounts slot.fsId with
  | some m => s.call ⟨h.inst, m, slot.inst⟩
  | none => s

def unlink (h : Handle) : State :=
  { s with fs := s.fs.setSlot h.kind h.slot { s.fs.slots h.kind h.slot with unlinked := true } }

/-- The last handle closes the file, and removes it if it was unlinked. -/
def drop (h : Handle) : State :=
  let slot := s.fs.slots h.kind h.slot
  let slot := { slot with refcount := slot.refcount - 1 }
  let s := { s with opened := s.opened.erase h }
  if slot.refcount = 0 then
    let s :=
      match s.fs.mounts slot.fsId with
      | some m =>
        let s := s.call ⟨h.inst, m, slot.inst⟩
        if slot.unlinked then s.call ⟨h.inst, m, none⟩ else s
      | none => s
    { s with fs := s.fs.setSlot h.kind h.slot { slot with occupied := false } }
  else { s with fs := s.fs.setSlot h.kind h.slot slot }

def iter (h : Handle) : State :=
  let slot := s.fs.slots .folder h.slot
  { s with iterators := s.iterators ++ [⟨slot.fsId, h.slot, slot.generation, h.inst⟩] }

def next (it : FolderIterator) : State :=
  let slot := s.fs.slots .folder it.slot
  if slot.occupied && slot.generation = it.generation then
    match s.fs.mounts it.fsId with
    | some m => s.call ⟨it.inst, m, slot.inst⟩
    | none => s
  else s

end

end State

inductive Event where
  | mount (rcs : List Int)
  | autoMount (name : List UInt8) (rc : Int)
  | register (name : List UInt8) (fsId : UInt8)
  | stat (y : FileSystem)
  | unmount (y : FileSystem)
  | openIn (kind : Kind) (y : FileSystem) (lease : List UInt8) (rc : Int)
  | openByName (lease : List UInt8) (rc : Int)
  | createFolder (y : FileSystem) (lease : List UInt8) (rc rcMkdir rcOpen : Int)
  | access (h : Handle)
  | unlink (h : Handle)
  | drop (h : Handle)
  | iter (h : Handle)
  | next (it : FolderIterator)
  deriving Repr

namespace State

/-- Beside a full arena there is at most the value that is being put into it. -/
def room (s : State) (kind : Kind) : Prop := s.opened.countP (·.kind = kind) ≤ arenaSize

instance (s : State) (kind : Kind) : Decidable (s.room kind) := inferInstanceAs (Decidable (_ ≤ _))

/-- `none` if there is no such resource, or the task panics. -/
def step (s : State) : Event → Option State
  | .mount rcs => some (s.mount rcs)
  | .autoMount name rc => some (s.autoMount name rc)
  | .register name fsId => some { s with fs := s.fs.registerEntry name fsId.toNat }
  | .stat y => if y ∈ s.systems then s.stat y else none
  | .unmount y => if y ∈ s.systems then some (s.unmount y) else none
  | .openIn kind y lease rc =>
    if y ∈ s.systems ∧ s.room kind then some (s.openIn kind y lease rc) else none
  | .openByName lease rc => if s.room .file then some (s.openByName lease rc) else none
  | .createFolder y lease rc rcMkdir rcOpen =>
    if y ∈ s.systems ∧ s.room .folder then some (s.createFolder y lease rc rcMkdir rcOpen)
    else none
  | .access h => if h ∈ s.opened then some (s.access h) else none
  | .unlink h => if h ∈ s.opened ∧ h.kind = .file then some (s.unlink h) else none
  | .drop h => if h ∈ s.opened then some (s.drop h) else none
  | .iter h => if h ∈ s.opened ∧ h.kind = .folder then some (s.iter h) else none
  | .next it => if it ∈ s.iterators then some (s.next it) else none

def run : State → List Event → Option State
  | s, [] => some s
  | s, e :: es => (s.step e).bind fun s' => run s' es

end State

end Rcard.Fs
