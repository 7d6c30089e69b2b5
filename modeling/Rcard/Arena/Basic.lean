/-
The generational arena of the IPC server (`firmware/modules/ipc/src/arena.rs`).

An arena has `N` slots and `N` map entries.  A handle is an opaque `u64` key
held by one entry.  The entry names a slot and the generation the slot had when
the entry was made.  Several entries may name one slot, and the slot counts
them in `refcount`.

`Cell` fields become record fields and every method becomes a function from the
arena to the arena and the method's result.  The state between two writes of
one method is not visible, because a Hubris task is single-threaded and
dropping a value does not call back into the arena.  A reference returned by
`get_mut` is modelled together with what the caller writes through it.

A slot index is stored as `u8`, a generation as `u32` and a key as `u64`, with
the wrapping of those types.  `refcount` is a `u16` in the source.  It is a
natural number here, since the only addition to it is guarded by the test
against `u16::MAX` and the subtraction saturates.
-/
import Rcard.Lib.Select
import Mathlib.Logic.Function.Basic

namespace Rcard

open Select List

abbrev RawHandle := UInt64

inductive AllocError where
  | noFreeSlot
  | noFreeEntry
  deriving DecidableEq, Repr

inductive CloneError where
  | invalidHandle
  | arenaFull
  | serverDied
  deriving DecidableEq, Repr

structure HandleEntry where
  key : UInt64
  slot : UInt8
  generation : UInt32
  occupied : Bool
  owner : UInt16
  priority : Int8
  pendingTo : Option UInt16
  deriving DecidableEq, Repr

structure Slot (T : Type) where
  value : Option T
  generation : UInt32
  refcount : Nat
  deriving DecidableEq, Repr

def HandleEntry.empty : HandleEntry :=
  { key := 0, slot := 0, generation := 0, occupied := false, owner := 0, priority := 0,
    pendingTo := none }

/-- The two cells `release_entry` writes in the entry. -/
def HandleEntry.cleared (e : HandleEntry) : HandleEntry :=
  { e with occupied := false, pendingTo := none }

def Slot.empty {T : Type} : Slot T := { value := none, generation := 0, refcount := 0 }

/-- The size bound is asserted by `Arena::new`, so an arena carries it. -/
structure Arena (T : Type) (N : Nat) where
  slots : Fin N → Slot T
  map : Fin N → HandleEntry
  nextKey : UInt64
  size_le : N ≤ 255

namespace Arena

variable {T : Type} {N : Nat}

/-- The seed puts the kind byte in the top byte of the first key. -/
def new (kind : UInt8) (h : N ≤ 255) : Arena T N :=
  { slots := fun _ => Slot.empty
    map := fun _ => HandleEntry.empty
    nextKey := (kind.toUInt64 <<< 56) ||| 1
    size_le := h }

def u16Max : Nat := 65535

def advanceKey (key : UInt64) : UInt64 :=
  key * 6364136223846793005 + 1442695040888963407

/-! ## Reading and writing cells -/

section

variable (s : Arena T N)

/-- The slot an entry names.  An index beyond the table panics in the source.
By the invariant no occupied entry holds one. -/
def slotAt (j : UInt8) : Slot T :=
  if h : j.toNat < N then s.slots ⟨j.toNat, h⟩ else Slot.empty

def setEntry (j : Fin N) (e : HandleEntry) : Arena T N :=
  { s with map := Function.update s.map j e }

def setSlot (i : Fin N) (sl : Slot T) : Arena T N :=
  { s with slots := Function.update s.slots i sl }

def modifySlotAt (j : UInt8) (f : Slot T → Slot T) : Arena T N :=
  if h : j.toNat < N then s.setSlot ⟨j.toNat, h⟩ (f (s.slots ⟨j.toNat, h⟩)) else s

/-- The test `slot.generation != entry.generation || slot.value.is_none()`. -/
def stale (e : HandleEntry) : Bool :=
  (s.slotAt e.slot).generation != e.generation || (s.slotAt e.slot).value.isNone

end

/-! ## Releasing entries -/

/-- `release_entry`.  The value is returned when the last reference goes. -/
def releaseEntry (s : Arena T N) (j : Fin N) : Arena T N × Option T :=
  let e := s.map j
  let s₁ := s.setEntry j e.cleared
  if s.stale e then (s₁, none)
  else
    let sl := s.slotAt e.slot
    if sl.refcount - 1 = 0 then
      (s₁.modifySlotAt e.slot fun sl =>
        { value := none, generation := sl.generation + 1, refcount := 0 }, sl.value)
    else
      (s₁.modifySlotAt e.slot fun sl => { sl with refcount := sl.refcount - 1 }, none)

/-- The loop `for i in ..: if test(i) { self.release_entry(i); }`, over a list
of indices.  The test reads the arena as the earlier iterations left it. -/
def releaseLoop (test : Arena T N → Fin N → Bool) (s : Arena T N) (l : List (Fin N)) :
    Arena T N :=
  l.foldl (fun s j => if test s j then (s.releaseEntry j).1 else s) s

/-! ## Eviction -/

/-- The largest priority among the entries of slot `i`, from `i8::MIN` up. -/
def maxPriority (s : Arena T N) (i : Fin N) : Int8 :=
  (finRange N).foldl (fun m j =>
    if (s.map j).occupied && (s.map j).slot == UInt8.ofNat i
        && (s.map j).generation == (s.slots i).generation && decide (m < (s.map j).priority)
    then (s.map j).priority else m) Int8.minValue

/-- What pass 1 of `evict_slot` compares, for a slot it does not skip. -/
def evictScore (s : Arena T N) (requesterPriority : Int8) (i : Fin N) : Option (Int8 × Nat) :=
  if (s.slots i).value.isNone then none
  else if s.maxPriority i ≥ requesterPriority then none
  else some (s.maxPriority i, (s.slots i).refcount)

/-- Lower refcount first, then lower maximum priority. -/
def dominated (new old : Int8 × Nat) : Bool :=
  decide (new.2 < old.2) || (new.2 == old.2 && decide (new.1 < old.1))

def evictVictim (s : Arena T N) (requesterPriority : Int8) : Option (Fin N) :=
  (best dominated (s.evictScore requesterPriority) (finRange N)).map Prod.fst

/-- The guard of pass 2, which reads the generation the releases change. -/
def pointsAt (victim : Fin N) (s : Arena T N) (j : Fin N) : Bool :=
  (s.map j).occupied && (s.map j).slot == UInt8.ofNat victim
    && (s.map j).generation == (s.slots victim).generation

def evictSlot (s : Arena T N) (requesterPriority : Int8) : Option (Arena T N × Fin N) :=
  (s.evictVictim requesterPriority).map fun victim =>
    (releaseLoop (pointsAt victim) s (finRange N), victim)

/-- The priority of an entry `find_eviction_victim` does not skip. -/
def victimScore (s : Arena T N) (requesterPriority : Int8)
    (excludeSlot : Option (UInt8 × UInt32)) (j : Fin N) : Option Int8 :=
  if (s.map j).occupied then
    match excludeSlot with
    | some (slot, generation) =>
      if (s.map j).slot = slot ∧ (s.map j).generation = generation then none
      else if (s.map j).priority < requesterPriority then some (s.map j).priority
      else none
    | none => if (s.map j).priority < requesterPriority then some (s.map j).priority else none
  else none

def findEvictionVictim (s : Arena T N) (requesterPriority : Int8)
    (excludeSlot : Option (UInt8 × UInt32)) : Option (Fin N) :=
  (best (fun new old => decide (new < old)) (s.victimScore requesterPriority excludeSlot)
    (finRange N)).map Prod.fst

/-! ## Allocation -/

def freeSlot (s : Arena T N) : Option (Fin N) := firstIdx fun i => (s.slots i).value.isNone

def freeEntry (s : Arena T N) : Option (Fin N) := firstIdx fun j => !(s.map j).occupied

/-- The entry `alloc` and `clone_handle` write over map index `j`. -/
def newEntry (key : UInt64) (slot : UInt8) (generation : UInt32) (owner : UInt16)
    (priority : Int8) : HandleEntry :=
  { key, slot, generation, occupied := true, owner, priority, pendingTo := none }

/-- The writes of `alloc` once it has a slot and a map entry. -/
def allocAt (s : Arena T N) (i j : Fin N) (value : T) (owner : UInt16) (priority : Int8) :
    Arena T N :=
  { (s.setSlot i { (s.slots i) with value := some value, refcount := 1 }).setEntry j
      (newEntry s.nextKey (UInt8.ofNat i) (s.slots i).generation owner priority) with
    nextKey := advanceKey s.nextKey }

/-- The slot `alloc` fills: a free one as it is, or an evicted one. -/
def slotFor (s : Arena T N) (priority : Int8) : Option (Arena T N × Fin N) :=
  match s.freeSlot with
  | some i => some (s, i)
  | none => s.evictSlot priority

def alloc (s : Arena T N) (value : T) (owner : UInt16) (priority : Int8) :
    Arena T N × Except AllocError RawHandle :=
  match s.slotFor priority with
  | none => (s, .error .noFreeSlot)
  | some (s₁, i) =>
    match s₁.freeEntry with
    | none => (s₁, .error .noFreeEntry)
    | some j => (s₁.allocAt i j value owner priority, .ok s₁.nextKey)

/-! ## Lookup -/

section

variable (s : Arena T N)

section

variable (handle : RawHandle)

def lookupEntry : Option (Fin N) :=
  firstIdx fun j => (s.map j).occupied && (s.map j).key == handle
    && (s.map j).pendingTo.isNone && !s.stale (s.map j)

def lookupOwnedEntry (owner : UInt16) : Option (Fin N) :=
  firstIdx fun j => (s.map j).occupied && (s.map j).key == handle && (s.map j).owner == owner
    && (s.map j).pendingTo.isNone && !s.stale (s.map j)

def lookup : Option UInt8 :=
  (s.lookupEntry handle).map fun j => (s.map j).slot

def lookupOwned (owner : UInt16) : Option UInt8 :=
  (s.lookupOwnedEntry handle owner).map fun j => (s.map j).slot

def get : Option T :=
  (s.lookup handle).bind fun idx => (s.slotAt idx).value

end

def writeThrough (idx : UInt8) (f : T → T) : Arena T N :=
  s.modifySlotAt idx fun sl => { sl with value := sl.value.map f }

/-- `get_mut`, with the update `f` its caller makes through the reference.  The
result is the value the reference points to when it is handed out. -/
def getMut (handle : RawHandle) (f : T → T) : Arena T N × Option T :=
  match s.lookup handle with
  | none => (s, none)
  | some idx => (s.writeThrough idx f, (s.slotAt idx).value)

def getMutOwned (handle : RawHandle) (owner : UInt16) (f : T → T) :
    Arena T N × Option T :=
  match s.lookupOwned handle owner with
  | none => (s, none)
  | some idx => (s.writeThrough idx f, (s.slotAt idx).value)

end

/-! ## Removal -/

def remove (s : Arena T N) (handle : RawHandle) : Arena T N × Option T :=
  match firstIdx fun j => (s.map j).occupied && (s.map j).key == handle with
  | none => (s, none)
  | some j => s.releaseEntry j

/-- The search shared by `remove_owned` and `try_drop`, pending or not. -/
def ownedEntry (s : Arena T N) (handle : RawHandle) (owner : UInt16) : Option (Fin N) :=
  firstIdx fun j => (s.map j).occupied && (s.map j).key == handle && (s.map j).owner == owner

def removeOwned (s : Arena T N) (handle : RawHandle) (owner : UInt16) : Arena T N × Option T :=
  match s.ownedEntry handle owner with
  | none => (s, none)
  | some j => s.releaseEntry j

def ownedBy (taskIndex : UInt16) (s : Arena T N) (j : Fin N) : Bool :=
  (s.map j).occupied && (s.map j).owner == taskIndex

def removeByOwner (s : Arena T N) (taskIndex : UInt16) : Arena T N :=
  releaseLoop (ownedBy taskIndex) s (finRange N)

/-! ## Cloning -/

/-- The search shared by `clone_handle` and `prepare_transfer`: an entry of the
caller that is not already pending. -/
def idleEntry (s : Arena T N) (handle : RawHandle) (owner : UInt16) : Option (Fin N) :=
  firstIdx fun j => (s.map j).occupied && (s.map j).key == handle && (s.map j).owner == owner
    && (s.map j).pendingTo.isNone

/-- The writes of `clone_handle` once it has a map entry. -/
def cloneAt (s : Arena T N) (slot : UInt8) (generation : UInt32) (j : Fin N)
    (newOwner : UInt16) (priority : Int8) : Arena T N :=
  { (s.modifySlotAt slot fun sl => { sl with refcount := sl.refcount + 1 }).setEntry j
      (newEntry s.nextKey slot generation newOwner priority) with
    nextKey := advanceKey s.nextKey }

/-- The map entry `clone_handle` fills: a free one, or that of a released
victim. -/
def entryFor (s : Arena T N) (priority : Int8) (src : HandleEntry) :
    Option (Arena T N × Fin N) :=
  match s.freeEntry with
  | some j => some (s, j)
  | none =>
    (s.findEvictionVictim priority (some (src.slot, src.generation))).map fun victim =>
      ((s.releaseEntry victim).1, victim)

def cloneHandle (s : Arena T N) (handle : RawHandle) (owner newOwner : UInt16)
    (priority : Int8) : Arena T N × Except CloneError RawHandle :=
  match s.idleEntry handle owner with
  | none => (s, .error .invalidHandle)
  | some k =>
    let src := s.map k
    if s.stale src then (s, .error .invalidHandle)
    else if (s.slotAt src.slot).refcount = u16Max then (s, .error .arenaFull)
    else
      match s.entryFor priority src with
      | none => (s, .error .arenaFull)
      | some (s₁, j) =>
        (s₁.cloneAt src.slot src.generation j newOwner priority, .ok s₁.nextKey)

/-! ## Two-phase transfer -/

def prepareTransfer (s : Arena T N) (handle : RawHandle) (owner target : UInt16) :
    Arena T N × Bool :=
  match s.idleEntry handle owner with
  | none => (s, false)
  | some j =>
    if s.stale (s.map j) then (s, false)
    else (s.setEntry j { s.map j with pendingTo := some target }, true)

def cancelTransfer (s : Arena T N) (handle : RawHandle) (owner : UInt16) : Arena T N × Bool :=
  match firstIdx fun j => (s.map j).occupied && (s.map j).key == handle
      && (s.map j).owner == owner && (s.map j).pendingTo.isSome with
  | none => (s, false)
  | some j => (s.setEntry j { s.map j with pendingTo := none }, true)

def acquire (s : Arena T N) (handle : RawHandle) (acquirer : UInt16) (newPriority : Int8) :
    Arena T N × Bool :=
  match firstIdx fun j => (s.map j).occupied && (s.map j).key == handle
      && (s.map j).pendingTo == some acquirer with
  | none => (s, false)
  | some j =>
    if s.stale (s.map j) then (s, false)
    else
      (s.setEntry j
        { s.map j with owner := acquirer, priority := newPriority, pendingTo := none }, true)

def tryDrop (s : Arena T N) (handle : RawHandle) (owner : UInt16) : Arena T N × Bool :=
  match s.ownedEntry handle owner with
  | none => (s, false)
  | some j => ((s.releaseEntry j).1, true)

/-- One iteration of `cancel_transfers_to`. -/
def cancelStep (target : UInt16) (s : Arena T N) (j : Fin N) : Arena T N :=
  if (s.map j).occupied && (s.map j).pendingTo == some target && !s.stale (s.map j) then
    s.setEntry j { s.map j with pendingTo := none }
  else s

def cancelTransfersTo (s : Arena T N) (target : UInt16) : Arena T N :=
  (finRange N).foldl (cancelStep target) s

end Arena

end Rcard
