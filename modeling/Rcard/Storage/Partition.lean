/-
Partitions of the flash (`firmware/sysmodule/storage/src/main.rs`).

A `PartitionResource` is made by `acquire` and lives in the server's arena.  A flag for each
partition, `ACQUIRED`, is set by `acquire` and cleared when the resource is dropped.  The
arena drops a resource when its last handle goes, when its owner dies and when a client of
higher priority takes its slot.  Its slot then has the next generation.

`read`, `write`, `erase` and `program` check their range against the size of the partition
and go to the flash driver in chunks.  The driver is another task.  It may die in a call,
with the commands it sent so far done, or never get the message; `fates` says which, by the
number of the call.  Such a call is made again, up to three times and from the first chunk.
`leases` says whether the copy to or from the client's memory works.

A panic restarts the task with its arena and its flags as at the start.
-/
import Rcard.Arena.Run
import Rcard.Storage.Mpi

namespace Rcard.Partition

open Function Option Arena Mpi.Sends Mpi.MpiResource

open Fallible

/-! ## The driver behind its messages -/

inductive Fate where
  | answered
  | died
  | lost

structure Dev where
  hw : Mpi.Hw
  fates : Nat → Fate
  leases : Nat → Bool
  asked : Nat

inductive StorageError where
  | outOfRange
  | alignment
  | device (deviceCode : UInt16)
  deriving DecidableEq

/-- How an attempt ends early. -/
inductive Abort where
  | again
  | error (e : StorageError)

section Driver

variable {α : Type}

def ipcCall (x : Mpi.Driver α) : Fallible Dev Abort α := fun d =>
  let d' := { d with asked := d.asked + 1 }
  match d.fates d.asked with
  | .lost => (.error .again, d')
  | .died => (.error .again, { d' with hw := (x d.hw).2 })
  | .answered =>
    match x d.hw with
    | (.ok a, hw') => (.ok a, { d' with hw := hw' })
    | (.error _, hw') => (.error (.error (.device 0xFFFE)), { d' with hw := hw' })

/-- `write_range` or `read_range` of a lease. -/
def leaseCopy : Fallible Dev Abort Unit := fun d =>
  (if d.leases d.asked then .ok () else .error (.error (.device 0xFFFD)),
    { d with asked := d.asked + 1 })

def mpiIpcMaxAttempts : Nat := 3

def retry (x : Fallible Dev Abort α) : (attempts : Nat) → Fallible Dev StorageError α
  | 0 => fail (.device 0xFFFE)
  | attempts + 1 => fun d =>
    match x d with
    | (.ok a, d') => (.ok a, d')
    | (.error .again, d') => retry x attempts d'
    | (.error (.error e), d') => (.error e, d')

def mpiRetrySingle (x : Mpi.Driver α) : Fallible Dev StorageError α :=
  retry (ipcCall x) mpiIpcMaxAttempts

/-- A sum of two `u32`. -/
def addU32 (a b : Nat) : Nat := (a + b) % 2 ^ 32

def saturatingAddU32 (a b : Nat) : Nat := min (a + b) (2 ^ 32 - 1)

def readChunks (mpi : Mpi.MpiResource) (address len : Nat) :
    (fuel offset : Nat) → Fallible Dev Abort (List UInt8)
  | 0, _ => pure []
  | fuel + 1, offset =>
    if offset < len then do
      let chunk := min (len - offset) 256
      let tmp ← ipcCall (mpi.read (addU32 address offset) chunk)
      leaseCopy
      let rest ← readChunks mpi address len fuel (offset + chunk)
      pure (tmp ++ rest)
    else pure []

def mpiReadToLease (mpi : Mpi.MpiResource) (address len : Nat) :
    Fallible Dev StorageError (List UInt8) :=
  retry (readChunks mpi address len len 0) mpiIpcMaxAttempts

def programChunks (mpi : Mpi.MpiResource) (address : Nat) (data : List UInt8) :
    (fuel offset : Nat) → Fallible Dev Abort Unit
  | 0, _ => pure ()
  | fuel + 1, offset =>
    if offset < data.length then do
      let chunk := min (data.length - offset) 256
      leaseCopy
      ipcCall (mpi.write (addU32 address offset) ((data.drop offset).take chunk))
      programChunks mpi address data fuel (offset + chunk)
    else pure ()

def mpiProgramFromLease (mpi : Mpi.MpiResource) (address : Nat) (data : List UInt8) :
    Fallible Dev StorageError Unit :=
  retry (programChunks mpi address data data.length 0) mpiIpcMaxAttempts

end Driver

/-! ## The resource -/

structure PartitionConfig where
  name : List UInt8
  offsetBytes : Nat
  sizeBytes : Nat
  flags : UInt32

def partManaged : UInt32 := 0x2

/-- What is fixed when the firmware is built, and the driver's resource as `main` opens it. -/
structure Config where
  partitions : List PartitionConfig
  isPartitionAllowed : List UInt8 → UInt16 → Bool
  /-- The task of `sysmodule_fs`, if there is one. -/
  fsTask : Option UInt16
  priorityFn : UInt16 → Int8
  mpi : Mpi.MpiResource

def maxPartitions : Nat := 16

def arenaSize : Nat := 8

def kind : UInt8 := 0x20

/-- `FLASH_GEOMETRY.erase_size` as `main` sets it. -/
def eraseSize : Nat := 4096

inductive AcquireError where
  | inUse
  | notFound
  | managedByFilesystem
  | notAllowed
  deriving DecidableEq

structure PartitionResource where
  index : Nat
  offsetBytes : Nat
  sizeBytes : Nat
  deriving DecidableEq

def PartitionConfig.isManaged (p : PartitionConfig) : Bool := p.flags &&& partManaged != 0

/-- Names of the table are valid UTF-8, so that a name that is not is not found. -/
def findPartition (cfg : Config) (name : List UInt8) : Option (Fin cfg.partitions.length) :=
  cfg.partitions.findFinIdx? fun p => p.name == name.takeWhile (· != 0)

/-- The checks before the flag. -/
def permit (cfg : Config) (config : PartitionConfig) (caller : UInt16) :
    Option AcquireError :=
  if config.isManaged then
    if cfg.fsTask = some caller then none else some .managedByFilesystem
  else if cfg.isPartitionAllowed config.name caller then none
  else some .notAllowed

/-- None is the panic of an index past the flags. -/
def acquire (cfg : Config) (acquired : Nat → Bool) (name : List UInt8) (caller : UInt16) :
    Option (Except AcquireError PartitionResource × (Nat → Bool)) :=
  match findPartition cfg name with
  | none => some (.error .notFound, acquired)
  | some idx =>
    let config := cfg.partitions.get idx
    match permit cfg config caller with
    | some e => some (.error e, acquired)
    | none =>
      if maxPartitions ≤ idx then none
      else if acquired idx then some (.error .inUse, acquired)
      else some (.ok ⟨idx, config.offsetBytes % 2 ^ 32, config.sizeBytes % 2 ^ 32⟩,
        update acquired idx true)

namespace PartitionResource

variable (mpi : Mpi.MpiResource) (r : PartitionResource)

def read (offset len : Nat) : Fallible Dev StorageError (List UInt8) :=
  if r.sizeBytes < saturatingAddU32 offset len then fail .outOfRange
  else mpiReadToLease mpi (addU32 r.offsetBytes offset) len

def write (offset : Nat) (buf : List UInt8) : Fallible Dev StorageError Unit :=
  if r.sizeBytes < saturatingAddU32 offset buf.length then fail .outOfRange
  else if offset % eraseSize ≠ 0 ∨ buf.length % eraseSize ≠ 0 then fail .alignment
  else do
    let abs := addU32 r.offsetBytes offset
    mpiRetrySingle (mpi.erase abs buf.length)
    mpiProgramFromLease mpi abs buf

def erase (offset len : Nat) : Fallible Dev StorageError Unit :=
  if r.sizeBytes < saturatingAddU32 offset len then fail .outOfRange
  else if offset % eraseSize ≠ 0 ∨ len % eraseSize ≠ 0 then fail .alignment
  else mpiRetrySingle (mpi.erase (addU32 r.offsetBytes offset) len)

def program (offset : Nat) (buf : List UInt8) : Fallible Dev StorageError Unit :=
  if r.sizeBytes < saturatingAddU32 offset buf.length then fail .outOfRange
  else mpiProgramFromLease mpi (addU32 r.offsetBytes offset) buf

end PartitionResource

/-! ## The server -/

structure Store where
  arena : Arena PartitionResource arenaSize
  acquired : Nat → Bool
  dev : Dev

/-- Operations that move, clone and drop handles. -/
def onHandles : Op PartitionResource → Bool
  | .alloc _ _ _ => false
  | .getMut _ _ => false
  | .getMutOwned _ _ _ => false
  | _ => true

inductive Call where
  | acquire (name : List UInt8) (caller : UInt16)
  | read (handle : RawHandle) (caller : UInt16) (offset len : UInt32)
  | write (handle : RawHandle) (caller : UInt16) (offset : UInt32) (buf : List UInt8)
  | erase (handle : RawHandle) (caller : UInt16) (offset len : UInt32)
  | program (handle : RawHandle) (caller : UInt16) (offset : UInt32) (buf : List UInt8)
  /-- A drop, a transfer or a clone of a handle, or the clean-up after a client. -/
  | handles (op : Op PartitionResource) (h : onHandles op = true)
  | restart

/-- The flags after the drops of an arena operation: `Drop` ran for the value of each slot
that went on to another generation. -/
def dropAll (before after : Arena PartitionResource arenaSize) (acquired : Nat → Bool) :
    Nat → Bool := fun k =>
  acquired k && !decide (∃ i, (after.slots i).generation ≠ (before.slots i).generation ∧
    (before.slots i).value.any (fun v => v.index == k))

def Store.new (dev : Dev) : Store :=
  { arena := Arena.new kind (show arenaSize ≤ 255 by decide), acquired := fun _ => false, dev }

namespace Store

variable (cfg : Config) (w : Store)

/-- The resource a method is called on.  No method writes to its fields. -/
def resource (handle : RawHandle) (caller : UInt16) : Option PartitionResource :=
  (w.arena.getMutOwned handle caller id).2

def method {α : Type} (handle : RawHandle) (caller : UInt16)
    (m : PartitionResource → Fallible Dev StorageError α) : Store :=
  match w.resource handle caller with
  | none => w
  | some r => { w with dev := (m r w.dev).2 }

/-- The constructor's message.  A resource that finds no place in the arena is dropped. -/
def construct (name : List UInt8) (caller : UInt16) : Store :=
  match Partition.acquire cfg w.acquired name caller with
  | none => .new w.dev
  | some (.error _, acquired) => { w with acquired }
  | some (.ok r, acquired) =>
    match w.arena.alloc r caller (cfg.priorityFn caller) with
    | (arena, .ok _) => { w with arena, acquired := dropAll w.arena arena acquired }
    | (arena, .error _) =>
      { w with arena, acquired :=
          update (dropAll w.arena arena acquired) r.index false }

def step : Call → Store
  | .acquire name caller => w.construct cfg name caller
  | .read handle caller offset len =>
    w.method handle caller fun r => r.read cfg.mpi offset.toNat len.toNat
  | .write handle caller offset buf =>
    w.method handle caller fun r => r.write cfg.mpi offset.toNat buf
  | .erase handle caller offset len =>
    w.method handle caller fun r => r.erase cfg.mpi offset.toNat len.toNat
  | .program handle caller offset buf =>
    w.method handle caller fun r => r.program cfg.mpi offset.toNat buf
  | .handles op _ =>
    { w with
      arena := (w.arena.step op).1
      acquired := dropAll w.arena (w.arena.step op).1 w.acquired }
  | .restart => .new w.dev

def run : Store → List Call → Store := List.foldl (step cfg)

/-- The resource a call works on. -/
def target : Call → Option PartitionResource
  | .read handle caller _ _ => w.resource handle caller
  | .write handle caller _ _ => w.resource handle caller
  | .erase handle caller _ _ => w.resource handle caller
  | .program handle caller _ _ => w.resource handle caller
  | _ => none

end Store

/-! ## One resource for each partition -/

/-- Some client gets the partition from `acquire` when nobody has it. -/
def Obtainable (cfg : Config) (k : Nat) : Prop :=
  k < maxPartitions ∧ ∃ name caller idx, findPartition cfg name = some idx ∧ idx.val = k ∧
    permit cfg (cfg.partitions.get idx) caller = none

/-- The resource has the range of its partition. -/
structure PartitionResource.Configured (cfg : Config) (r : PartitionResource) : Prop where
  obtainable : Obtainable cfg r.index
  config : ∃ p, cfg.partitions[r.index]? = some p ∧ r.offsetBytes = p.offsetBytes % 2 ^ 32 ∧
    r.sizeBytes = p.sizeBytes % 2 ^ 32

/-- The flags are those of the resources in the arena, each of which is the only one of its
partition. -/
structure Owned (arena : Arena PartitionResource arenaSize) (acquired : Nat → Bool) : Prop where
  flag : ∀ i r, (arena.slots i).value = some r → acquired r.index = true
  live : ∀ k, acquired k = true → ∃ i r, (arena.slots i).value = some r ∧ r.index = k
  single : ∀ i j r r', (arena.slots i).value = some r → (arena.slots j).value = some r' →
    r.index = r'.index → i = j

structure Store.Inv (cfg : Config) (w : Store) : Prop where
  arena : w.arena.Inv
  owned : Owned w.arena w.acquired
  configured : ∀ i r, (w.arena.slots i).value = some r → r.Configured cfg

section Flags

variable {a a' : Arena PartitionResource arenaSize} {acquired : Nat → Bool}

theorem dropAll_eq_true {k : Nat} : dropAll a a' acquired k = true ↔
    acquired k = true ∧ ∀ i r, (a.slots i).value = some r → r.index = k →
      (a'.slots i).generation = (a.slots i).generation := by
  simp only [dropAll, any_eq_true]
  grind

theorem Owned.dropAll (h : Owned a acquired) (hkept : Thinned a a') :
    Owned a' (dropAll a a' acquired) := by
  -- a value of the new arena is the old value of the same slot
  have hold : ∀ i r, (a'.slots i).value = some r → (a.slots i).value = some r ∧
      (a'.slots i).generation = (a.slots i).generation := by
    intro i r hr
    rcases hkept i with ⟨hvalue, hgen⟩ | ⟨hvalue, -⟩
    · exact ⟨hvalue.symm.trans hr, hgen⟩
    · exact absurd (hvalue.symm.trans hr) (by simp)
  refine ⟨fun i r hr => ?_, fun k hk => ?_, fun i j r r' hr hr' => ?_⟩
  · refine dropAll_eq_true.mpr ⟨h.flag i r (hold i r hr).1, fun j r' hr' hk => ?_⟩
    rw [h.single j i r' r hr' (hold i r hr).1 hk]
    exact (hold i r hr).2
  · obtain ⟨hk, hsame⟩ := dropAll_eq_true.mp hk
    obtain ⟨i, r, hr, hi⟩ := h.live k hk
    refine ⟨i, r, ?_, hi⟩
    rcases hkept i with ⟨hvalue, -⟩ | ⟨-, hgen⟩
    · exact hvalue.trans hr
    · rw [hsame i r hr hi] at hgen
      exact absurd hgen (by simp)
  · exact h.single i j r r' (hold i r hr).1 (hold j r' hr').1

theorem Owned.fill (h : Owned a acquired) {i : Fin arenaSize} {r : PartitionResource}
    (hfill : Filled a a' i r) (hidx : acquired r.index = false) :
    Owned a' (update acquired r.index true) := by
  have hold : ∀ j r', (a'.slots j).value = some r' →
      (j = i ∧ r' = r) ∨ (j ≠ i ∧ (a.slots j).value = some r') := by
    intro j r' hr'
    by_cases hj : j = i
    · subst hj
      exact .inl ⟨rfl, some.inj (hr'.symm.trans hfill.value)⟩
    · rw [hfill.other j hj] at hr'
      exact .inr ⟨hj, hr'⟩
  -- the resources from before have another index
  have hne : ∀ j r', (a.slots j).value = some r' → r'.index ≠ r.index := fun j r' hr' heq =>
    absurd (h.flag j r' hr') (by rw [heq, hidx]; simp)
  refine ⟨fun j r' hr' => ?_, fun k hk => ?_, fun j j' r₁ r₂ hr₁ hr₂ heq => ?_⟩
  · rcases hold j r' hr' with ⟨-, rfl⟩ | ⟨-, hr'⟩
    · rw [update_self]
    · rw [update_of_ne (hne j r' hr')]
      exact h.flag j r' hr'
  · by_cases hkr : k = r.index
    · exact ⟨i, r, hfill.value, hkr.symm⟩
    · rw [update_of_ne hkr] at hk
      obtain ⟨j, r', hr', hj⟩ := h.live k hk
      refine ⟨j, r', ?_, hj⟩
      rw [hfill.other j (fun hji => ?_), hr']
      rw [hji, hfill.free] at hr'
      cases hr'
  · rcases hold j r₁ hr₁ with ⟨rfl, rfl⟩ | ⟨-, hr₁⟩ <;>
      rcases hold j' r₂ hr₂ with ⟨rfl, rfl⟩ | ⟨-, hr₂⟩
    · rfl
    · exact absurd heq.symm (hne j' r₂ hr₂)
    · exact absurd heq (hne j r₁ hr₁)
    · exact h.single j j' r₁ r₂ hr₁ hr₂ heq

/-- A flag that no resource holds is not touched by drops. -/
theorem dropAll_update (h : Owned a acquired) {k : Nat} (hk : acquired k = false) (b : Bool) :
    dropAll a a' (update acquired k b) = update (dropAll a a' acquired) k b := by
  funext j
  by_cases hj : j = k
  · subst hj
    have hnone : ¬ ∃ i, (a'.slots i).generation ≠ (a.slots i).generation ∧
        (a.slots i).value.any (fun v => v.index == j) := by
      rintro ⟨i, -, hany⟩
      obtain ⟨r, hr, hi⟩ := (any_eq_true _ _).mp hany
      have hflag := h.flag i r hr
      rw [beq_iff_eq.mp hi, hk] at hflag
      cases hflag
    simp [Partition.dropAll, hnone]
  · simp [Partition.dropAll, update_of_ne hj]

theorem Owned.restart : Owned (new kind (show arenaSize ≤ 255 by decide)) fun _ => false :=
  ⟨fun _ _ h => (nomatch h), fun _ h => (nomatch h), fun _ _ _ _ h => (nomatch h)⟩

end Flags

section Steps

variable {cfg : Config} {w : Store}

/-- What `acquire` can do: fail with the flags as they were, or set the flag of a partition
that was not set. -/
theorem acquire_cases {acquired acquired' : Nat → Bool} {name : List UInt8} {caller : UInt16}
    {out : Except AcquireError PartitionResource}
    (h : acquire cfg acquired name caller = some (out, acquired')) :
    (∃ e, out = .error e ∧ acquired' = acquired) ∨
    ∃ r, out = .ok r ∧ r.Configured cfg ∧ acquired r.index = false ∧
      acquired' = update acquired r.index true := by
  unfold acquire at h
  split at h
  · cases h
    exact .inl ⟨_, rfl, rfl⟩
  · next idx hfind =>
    dsimp only at h
    split at h
    · cases h
      exact .inl ⟨_, rfl, rfl⟩
    · next hpermit =>
      split at h
      · cases h
      · next hidx =>
        split at h
        · cases h
          exact .inl ⟨_, rfl, rfl⟩
        · next hfree =>
          cases h
          exact .inr ⟨_, rfl,
            ⟨⟨Nat.lt_of_not_le hidx, name, caller, idx, hfind, rfl, hpermit⟩,
              _, List.getElem?_eq_getElem idx.isLt, rfl, rfl⟩,
            Bool.eq_false_iff.mpr hfree, rfl⟩

theorem inv_new (dev : Dev) : (Store.new dev).Inv cfg :=
  ⟨Arena.inv_new _ _, Owned.restart, fun _ _ h => nomatch h⟩

theorem Configured.thinned {a a' : Arena PartitionResource arenaSize}
    (h : ∀ i r, (a.slots i).value = some r → r.Configured cfg) (hkept : Thinned a a') :
    ∀ i r, (a'.slots i).value = some r → r.Configured cfg := by
  intro i r hr
  rcases hkept i with ⟨hvalue, -⟩ | ⟨hvalue, -⟩
  · exact h i r (hvalue.symm.trans hr)
  · rw [hvalue] at hr
    cases hr

theorem Store.Inv.construct (hw : w.Inv cfg) (name : List UInt8) (caller : UInt16) :
    (w.construct cfg name caller).Inv cfg := by
  unfold Store.construct
  split
  · exact inv_new _
  · next hacq =>
    rcases acquire_cases hacq with ⟨-, -, rfl⟩ | ⟨_, h, -⟩
    · exact hw
    · cases h
  · next r acquired hacq =>
    obtain ⟨_, hbad, -⟩ | ⟨_, heq, hconf, hfree, rfl⟩ := acquire_cases hacq
    · cases hbad
    cases heq
    have heffect := step_effect hw.arena (.alloc r caller (cfg.priorityFn caller))
    have hinv := hw.arena.step (.alloc r caller (cfg.priorityFn caller))
    simp only [Arena.step] at heffect hinv
    rcases halloc : w.arena.alloc r caller (cfg.priorityFn caller) with ⟨a, e | key⟩
    · rw [halloc] at heffect hinv
      have hkept := heffect.thinned (fun _ _ h => by cases h) fun _ _ h => by cases h
      refine ⟨hinv, ?_, Configured.thinned hw.configured hkept⟩
      -- the flag that `acquire` set is cleared again
      show Owned a (update (dropAll w.arena a (update w.acquired r.index true)) r.index false)
      rw [dropAll_update hw.owned hfree, update_idem, ← dropAll_update hw.owned hfree false,
        update_eq_self_iff.mpr hfree.symm]
      exact hw.owned.dropAll hkept
    · rw [halloc] at heffect hinv
      obtain ⟨s₁, i, hkept, hfill⟩ := heffect.filled
      dsimp only at hfill
      have hdrop : dropAll w.arena a = dropAll w.arena s₁ := by
        funext acquired k
        simp only [dropAll, hfill.generation]
      refine ⟨hinv, ?_, fun j r' hr' => ?_⟩
      · show Owned a (dropAll w.arena a (update w.acquired r.index true))
        rw [hdrop, dropAll_update hw.owned hfree]
        refine (hw.owned.dropAll hkept).fill hfill ?_
        rw [dropAll, hfree, Bool.false_and]
      · by_cases hj : j = i
        · subst hj
          cases hr'.symm.trans hfill.value
          exact hconf
        · have hother : (s₁.slots j).value = some r' := by
            rw [← hfill.other j hj]
            exact hr'
          exact Configured.thinned hw.configured hkept j r' hother

theorem eventOf_onHandles {op : Op PartitionResource} (h : onHandles op = true)
    (out : Out PartitionResource) :
    (∀ key v, eventOf op out ≠ some (.alloc key v)) ∧
      ∀ handle f, eventOf op out ≠ some (.write handle f) := by
  refine ⟨fun key v => ?_, fun handle f => eventOf_ne_write ?_ out handle f⟩
  · cases op with
    | alloc => cases h
    | cloneHandle =>
      rcases out with _ | (_ | _) | _ | _ | _ <;> exact fun h => nomatch h
    | getMut => cases h
    | getMutOwned => cases h
    | _ => exact fun h => nomatch h
  · cases op <;> first | rfl | cases h

theorem Store.Inv.method {α : Type} (hw : w.Inv cfg) (handle : RawHandle) (caller : UInt16)
    (m : PartitionResource → Fallible Dev StorageError α) : (w.method handle caller m).Inv cfg := by
  unfold Store.method
  split
  · exact hw
  · exact ⟨hw.arena, hw.owned, hw.configured⟩

theorem Store.Inv.step (hw : w.Inv cfg) (call : Call) : (w.step cfg call).Inv cfg := by
  cases call with
  | acquire name caller => exact hw.construct name caller
  | read handle caller offset len => exact hw.method ..
  | write handle caller offset buf => exact hw.method ..
  | erase handle caller offset len => exact hw.method ..
  | program handle caller offset buf => exact hw.method ..
  | handles op h =>
    obtain ⟨halloc, hwrite⟩ := eventOf_onHandles h (w.arena.step op).2
    have hkept := (step_effect hw.arena op).thinned halloc hwrite
    exact ⟨hw.arena.step op, hw.owned.dropAll hkept, Configured.thinned hw.configured hkept⟩
  | restart => exact inv_new _

theorem Store.Inv.run (hw : w.Inv cfg) (calls : List Call) : (w.run cfg calls).Inv cfg := by
  induction calls generalizing w with
  | nil => exact hw
  | cons call calls ih => exact ih (hw.step call)

end Steps

/-! ## Addresses -/

def DevSends (mpi : Mpi.MpiResource) (lo hi : Nat) (d d' : Dev) : Prop :=
  Mpi.Sends mpi lo hi d.hw d'.hw

section Addresses

variable {mpi : Mpi.MpiResource} {lo hi address : Nat} {α : Type}

theorem DevSends.refl (d : Dev) : DevSends mpi lo hi d d := Mpi.Sends.refl _

theorem DevSends.trans (a b c : Dev) (h : DevSends mpi lo hi a b) (h' : DevSends mpi lo hi b c) :
    DevSends mpi lo hi a c :=
  Mpi.Sends.trans _ _ _ h h'

theorem sends_ipcCall {x : Mpi.Driver α} (h : Keeps (Mpi.Sends mpi lo hi) x) :
    Keeps (DevSends mpi lo hi) (ipcCall x) := by
  intro d
  unfold ipcCall
  split
  · exact refl _
  · exact h d.hw
  · have hx := h d.hw
    split <;> next heq => rwa [heq] at hx

theorem sends_leaseCopy : Keeps (DevSends mpi lo hi) leaseCopy := fun _ => refl _

theorem sends_retry {x : Fallible Dev Abort α} (h : Keeps (DevSends mpi lo hi) x) (attempts : Nat) :
    Keeps (DevSends mpi lo hi) (retry x attempts) := by
  induction attempts with
  | zero => exact .fail DevSends.refl _
  | succ attempts ih =>
    intro d
    have hx := h d
    rw [retry]
    rcases heq : x d with ⟨(_ | e) | a, d'⟩
    all_goals
      rw [heq] at hx
      dsimp only
      rw [heq]
    · exact DevSends.trans _ _ _ hx (ih _)
    · exact hx
    · exact hx

theorem addU32_eq {a b : Nat} (h : a + b < 2 ^ 32) : addU32 a b = a + b := Nat.mod_eq_of_lt h

theorem sends_readChunks {len : Nat} (hlo : lo ≤ address) (hhi : address + len ≤ hi)
    (hlt : hi < 2 ^ 32) (fuel offset : Nat) :
    Keeps (DevSends mpi lo hi) (readChunks mpi address len fuel offset) := by
  induction fuel generalizing offset with
  | zero => exact .pure DevSends.refl _
  | succ fuel ih =>
    rw [readChunks]
    split
    next hoff =>
      rw [addU32_eq (by omega)]
      exact .bind DevSends.trans (sends_ipcCall (sends_read (by omega) (by omega))) fun _ =>
        .bind DevSends.trans sends_leaseCopy fun _ =>
        .bind DevSends.trans (ih _) fun _ => .pure DevSends.refl _
    next => exact .pure DevSends.refl _

theorem sends_programChunks {data : List UInt8} (hlo : lo ≤ address)
    (hhi : address + data.length ≤ hi) (hlt : hi < 2 ^ 32) (fuel offset : Nat) :
    Keeps (DevSends mpi lo hi) (programChunks mpi address data fuel offset) := by
  induction fuel generalizing offset with
  | zero => exact .pure DevSends.refl _
  | succ fuel ih =>
    rw [programChunks]
    split
    next hoff =>
      rw [addU32_eq (by omega)]
      have hchunk : ((data.drop offset).take (min (data.length - offset) 256)).length ≤
          data.length - offset := by
        rw [List.length_take]
        omega
      have hwrite := sends_write (r := mpi) (address + offset)
        ((data.drop offset).take (min (data.length - offset) 256))
      exact .bind DevSends.trans sends_leaseCopy fun _ => .bind DevSends.trans
        (sends_ipcCall (hwrite.mono (mono (by omega) (by omega)))) fun _ => ih _
    next => exact .pure DevSends.refl _

theorem sends_eraseSingle {len : Nat} (hlo : lo ≤ address) (hhi : address + len ≤ hi) :
    Keeps (DevSends mpi lo hi) (mpiRetrySingle (mpi.erase address len)) :=
  have herase := sends_erase (r := mpi) address len
  sends_retry (sends_ipcCall (herase.mono (mono hlo hhi))) _

end Addresses

section Methods

variable {mpi : Mpi.MpiResource} {r : PartitionResource}

/-- A range that passes the check lies in the partition, because the check cannot saturate
below the end of the address space. -/
theorem range_of_check (hr : r.offsetBytes + r.sizeBytes < 2 ^ 32 - 1) {offset len : Nat}
    (h : ¬ r.sizeBytes < saturatingAddU32 offset len) :
    addU32 r.offsetBytes offset = r.offsetBytes + offset ∧
      r.offsetBytes + offset + len ≤ r.offsetBytes + r.sizeBytes := by
  unfold saturatingAddU32 at h
  grind [addU32]

variable (hr : r.offsetBytes + r.sizeBytes < 2 ^ 32 - 1)

include hr

theorem sends_read (offset len : Nat) :
    Keeps (DevSends mpi r.offsetBytes (r.offsetBytes + r.sizeBytes)) (r.read mpi offset len) := by
  unfold PartitionResource.read
  split
  · exact .fail DevSends.refl _
  · next h =>
    obtain ⟨habs, hhi⟩ := range_of_check hr h
    rw [habs]
    exact sends_retry (sends_readChunks (Nat.le_add_right _ _) hhi (by omega) _ _) _

theorem sends_program (offset : Nat) (buf : List UInt8) :
    Keeps (DevSends mpi r.offsetBytes (r.offsetBytes + r.sizeBytes))
      (r.program mpi offset buf) := by
  unfold PartitionResource.program
  split
  · exact .fail DevSends.refl _
  · next h =>
    obtain ⟨habs, hhi⟩ := range_of_check hr h
    rw [habs]
    exact sends_retry (sends_programChunks (Nat.le_add_right _ _) hhi (by omega) _ _) _

theorem sends_erase (offset len : Nat) :
    Keeps (DevSends mpi r.offsetBytes (r.offsetBytes + r.sizeBytes)) (r.erase mpi offset len) := by
  unfold PartitionResource.erase
  split
  · exact .fail DevSends.refl _
  · next h =>
    obtain ⟨habs, hhi⟩ := range_of_check hr h
    split
    · exact .fail DevSends.refl _
    · rw [habs]
      exact sends_eraseSingle (Nat.le_add_right _ _) hhi

theorem sends_write (offset : Nat) (buf : List UInt8) :
    Keeps (DevSends mpi r.offsetBytes (r.offsetBytes + r.sizeBytes)) (r.write mpi offset buf) := by
  unfold PartitionResource.write
  split
  · exact .fail DevSends.refl _
  · next h =>
    obtain ⟨habs, hhi⟩ := range_of_check hr h
    split
    · exact .fail DevSends.refl _
    · rw [habs]
      exact .bind DevSends.trans (sends_eraseSingle (Nat.le_add_right _ _) hhi) fun _ =>
        sends_retry (sends_programChunks (Nat.le_add_right _ _) hhi (by omega) _ _) _

end Methods

/-! ## Confinement -/

section Confinement

variable {cfg : Config} {w : Store}
variable {r : PartitionResource}

theorem resource_mem (hw : w.Inv cfg) {handle : RawHandle} {caller : UInt16}
    (h : w.resource handle caller = some r) : ∃ i, (w.arena.slots i).value = some r := by
  have hcase := getMutOwned_cases hw.arena handle caller id
  unfold Store.resource at h
  generalize w.arena.getMutOwned handle caller id = out at hcase h
  cases hcase with
  | absent => cases h
  | wrote hp hkey hidle => exact ⟨_, h⟩

theorem method_sends {α : Type} {handle : RawHandle} {caller : UInt16}
    {m : PartitionResource → Fallible Dev StorageError α} {mpi : Mpi.MpiResource} {lo hi : Nat}
    (h : w.resource handle caller = some r) (hm : Keeps (DevSends mpi lo hi) (m r)) :
    Mpi.Sends mpi lo hi w.dev.hw (w.method handle caller m).dev.hw := by
  rw [Store.method, h]
  exact hm w.dev

theorem step_sends (hr : r.offsetBytes + r.sizeBytes < 2 ^ 32 - 1) {call : Call}
    (h : w.target call = some r) :
    Mpi.Sends cfg.mpi r.offsetBytes (r.offsetBytes + r.sizeBytes) w.dev.hw
      (w.step cfg call).dev.hw := by
  cases call with
  | acquire => cases h
  | read handle caller offset len => exact method_sends h (sends_read hr _ _)
  | write handle caller offset buf => exact method_sends h (sends_write hr _ _)
  | erase handle caller offset len => exact method_sends h (sends_erase hr _ _)
  | program handle caller offset buf => exact method_sends h (sends_program hr _ _)
  | handles => cases h
  | restart => cases h

theorem step_hw_of_target_none {call : Call} (h : w.target call = none) :
    (w.step cfg call).dev.hw = w.dev.hw := by
  have hmethod : ∀ {α : Type} (handle : RawHandle) (caller : UInt16)
      (m : PartitionResource → Fallible Dev StorageError α),
      w.resource handle caller = none → (w.method handle caller m).dev.hw = w.dev.hw := by
    intro α handle caller m hnone
    rw [Store.method, hnone]
  cases call with
  | acquire name caller =>
    show (w.construct cfg name caller).dev.hw = _
    unfold Store.construct
    split
    · rfl
    · rfl
    · split <;> rfl
  | read => exact hmethod _ _ _ h
  | write => exact hmethod _ _ _ h
  | erase => exact hmethod _ _ _ h
  | program => exact hmethod _ _ _ h
  | handles => rfl
  | restart => rfl

/-- A call that works on a resource makes the chip touch bytes of the resource's partition
only.  Any other call sends nothing to the flash. -/
structure Confined (cfg : Config) (w : Store) (call : Call) : Prop where
  inside : ∀ r, w.target call = some r → ∃ p cs, cfg.partitions[r.index]? = some p ∧
    (w.step cfg call).dev.hw.commands = w.dev.hw.commands ++ cs ∧
    ∀ c ∈ cs, ∀ a, c.Touches a → p.offsetBytes ≤ a ∧ a < p.offsetBytes + p.sizeBytes
  idle : w.target call = none → (w.step cfg call).dev.hw = w.dev.hw

/-- The chip takes every address of the partition for an address of the partition.  It gets
as many bytes of an address as the driver sends. -/
def PartitionConfig.Addressed (mpi : Mpi.MpiResource) (p : PartitionConfig) : Prop :=
  ∀ a, p.offsetBytes ≤ a → a < p.offsetBytes + p.sizeBytes → a < mpi.capacityBytes →
    p.offsetBytes ≤ a % 256 ^ mpi.addrSize.bytes

theorem PartitionConfig.Addressed.inside {p : PartitionConfig} {mpi : Mpi.MpiResource}
    (h : p.Addressed mpi) {c : Mpi.Command}
    (hc : c.Within mpi p.offsetBytes (p.offsetBytes + p.sizeBytes)) {a : Nat} (ha : c.Touches a) :
    p.offsetBytes ≤ a ∧ a < p.offsetBytes + p.sizeBytes := by
  obtain ⟨hfrom, hto⟩ := hc.touches ha
  have hlo := hc.lo
  have hhi := hc.hi
  have hchip := hc.chip
  have hsent : c.sent = c.address % 256 ^ mpi.addrSize.bytes := by rw [Mpi.Command.sent, hc.width]
  have hle : c.sent ≤ c.address := hsent ▸ Nat.mod_le _ _
  have hoff := h c.address hlo (by omega) (by omega)
  omega

theorem Store.Inv.confined (hw : w.Inv cfg)
    (hranges : ∀ p ∈ cfg.partitions, p.offsetBytes + p.sizeBytes < 2 ^ 32 - 1)
    (haddr : ∀ k p, cfg.partitions[k]? = some p → Obtainable cfg k → p.Addressed cfg.mpi)
    (call : Call) : Confined cfg w call := by
  refine ⟨fun r hr => ?_, step_hw_of_target_none⟩
  have hmem : ∃ i, (w.arena.slots i).value = some r := by
    cases call with
    | acquire => cases hr
    | read handle caller offset len => exact resource_mem hw hr
    | write handle caller offset buf => exact resource_mem hw hr
    | erase handle caller offset len => exact resource_mem hw hr
    | program handle caller offset buf => exact resource_mem hw hr
    | handles => cases hr
    | restart => cases hr
  obtain ⟨i, hi⟩ := hmem
  obtain ⟨hobtain, p, hp, hoff, hsize⟩ := hw.configured i r hi
  have hlt := hranges p (List.mem_of_getElem? hp)
  rw [Nat.mod_eq_of_lt (by omega)] at hoff hsize
  have hsends : Mpi.Sends cfg.mpi r.offsetBytes (r.offsetBytes + r.sizeBytes) w.dev.hw
      (w.step cfg call).dev.hw := step_sends (by omega) hr
  obtain ⟨cs, hcs, hall⟩ := hsends
  rw [hoff, hsize] at hall
  refine ⟨p, cs, hp, hcs, fun c hc a ha => ?_⟩
  rcases hall c hc with hplain | hin
  · exact absurd ha (hplain.not_touches a)
  · exact (haddr _ p hp hobtain).inside hin ha

end Confinement

/-! ## A partition the chip does not address -/

/-- A device that is always in time and never loses a message. -/
def readyDev (flash : Nat → UInt8) : Dev :=
  { hw := Mpi.readyHw flash, fates := fun _ => .answered, leases := fun _ => true, asked := 0 }

section Unaddressed

variable {cfg : Config} {r : PartitionResource} {caller : UInt16}

/-- The handle of the first resource. -/
def firstHandle : RawHandle := 0x2000000000000001

theorem construct_first (dev : Dev) {name : List UInt8} {acquired : Nat → Bool}
    (h : acquire cfg (fun _ => false) name caller = some (.ok r, acquired)) :
    let w := (Store.new dev).construct cfg name caller
    w.dev = dev ∧ w.resource firstHandle caller = some r := by
  have hnew : (Store.new dev).acquired = fun _ => false := rfl
  have halloc : (Store.new dev).arena.alloc r caller (cfg.priorityFn caller) =
      ((Store.new dev).arena.allocAt ⟨0, by decide⟩ ⟨0, by decide⟩ r caller (cfg.priorityFn caller),
        .ok firstHandle) := rfl
  rw [Store.construct, hnew, h]
  dsimp only
  rw [halloc]
  refine ⟨rfl, ?_⟩
  have hlookup : lookupOwnedEntry ((Store.new dev).arena.allocAt ⟨0, by decide⟩ ⟨0, by decide⟩ r
      caller (cfg.priorityFn caller)) firstHandle caller = some ⟨0, by decide⟩ :=
    Select.firstIdx_zero (n := 7) (by
      show (true && (firstHandle == firstHandle) && (caller == caller) && true && true) = true
      rw [beq_self_eq_true, beq_self_eq_true]
      rfl)
  rw [Store.resource, getMutOwned, lookupOwned, hlookup]
  rfl

theorem read_byte {mpi : Mpi.MpiResource} {a : Nat} (hlo : r.offsetBytes ≤ a)
    (hhi : a < r.offsetBytes + r.sizeBytes) (hlt : a + 1 < 2 ^ 32) (hcap : a < mpi.capacityBytes)
    (flash : Nat → UInt8) :
    (r.read mpi (a - r.offsetBytes) 1 (readyDev flash)).2.hw.commands =
      [⟨mpi.cmdRead, some mpi.addrSize, a, 1⟩] := by
  obtain ⟨hw', hread, hcmd⟩ := mpi.read_one flash hlt hcap
  have habs : addU32 r.offsetBytes (a - r.offsetBytes) = a := by
    rw [addU32_eq (by omega)]
    omega
  have hipc : ipcCall (mpi.read (addU32 a 0) 1) (readyDev flash) =
      (.ok [flash (a % 256 ^ mpi.addrSize.bytes)],
        { readyDev flash with hw := hw', asked := 1 }) := by
    rw [addU32_eq (by omega), Nat.add_zero, ipcCall]
    dsimp only [readyDev]
    rw [hread]
  have hchunks : readChunks mpi a 1 1 0 (readyDev flash) =
      (.ok [flash (a % 256 ^ mpi.addrSize.bytes)],
        { readyDev flash with hw := hw', asked := 2 }) := by
    rw [readChunks, if_pos Nat.zero_lt_one]
    exact bind_of_ok hipc _
  have hretry : mpiReadToLease mpi a 1 (readyDev flash) =
      (.ok [flash (a % 256 ^ mpi.addrSize.bytes)],
        { readyDev flash with hw := hw', asked := 2 }) := by
    rw [mpiReadToLease, mpiIpcMaxAttempts]
    unfold retry
    simp only [hchunks]
  rw [PartitionResource.read, if_neg, habs, hretry]
  · exact hcmd
  · unfold saturatingAddU32
    omega

/-- A client that can get the partition gets it from a new server. -/
theorem acquire_of_obtainable {k : Nat} {p : PartitionConfig} (hp : cfg.partitions[k]? = some p)
    (hlt : p.offsetBytes + p.sizeBytes < 2 ^ 32 - 1) (h : Obtainable cfg k) :
    ∃ name caller acquired, acquire cfg (fun _ => false) name caller =
      some (.ok ⟨k, p.offsetBytes, p.sizeBytes⟩, acquired) := by
  obtain ⟨hmax, name, caller, idx, hfind, rfl, hpermit⟩ := h
  have hget : cfg.partitions.get idx = p := by
    rw [List.getElem?_eq_getElem idx.isLt] at hp
    exact some.inj hp
  refine ⟨name, caller, update (fun _ => false) idx.val true, ?_⟩
  rw [acquire, hfind]
  dsimp only
  rw [hpermit, hget, Nat.mod_eq_of_lt (by omega), Nat.mod_eq_of_lt (by omega)]
  dsimp only
  rw [if_neg (by omega), if_neg Bool.false_ne_true]

/-- It can then have each byte of it read that the chip has. -/
theorem read_first {name : List UInt8} {acquired : Nat → Bool} {a : Nat}
    (hacq : acquire cfg (fun _ => false) name caller = some (.ok r, acquired))
    (hlo : r.offsetBytes ≤ a) (hhi : a < r.offsetBytes + r.sizeBytes) (hlt : a + 1 < 2 ^ 32)
    (hcap : a < cfg.mpi.capacityBytes) :
    let w := (Store.new (readyDev fun _ => 0)).run cfg [.acquire name caller]
    w.resource firstHandle caller = some r ∧ w.dev.hw.commands = [] ∧
      (w.step cfg (.read firstHandle caller (UInt32.ofNat (a - r.offsetBytes)) 1)).dev.hw.commands =
        [⟨cfg.mpi.cmdRead, some cfg.mpi.addrSize, a, 1⟩] := by
  obtain ⟨hdev, hres⟩ := construct_first (readyDev fun _ => 0) hacq
  refine ⟨hres, ?_, ?_⟩
  · show ((Store.new _).construct cfg name caller).dev.hw.commands = _
    rw [hdev]
    rfl
  · show (((Store.new _).construct cfg name caller).method _ _ _).dev.hw.commands = _
    rw [Store.method, hres]
    dsimp only
    rw [hdev, UInt32.toNat_ofNat_of_lt' (by simp only [UInt32.size]; omega)]
    exact read_byte hlo hhi hlt hcap _

end Unaddressed

/-- No two resources are ever of one partition.  Every call after every sequence of calls
keeps inside the partition of the resource it works on, exactly if the chip takes the
addresses of each partition that a client can get for addresses of that partition. -/
theorem partitions_confined_iff (cfg : Config)
    (hranges : ∀ p ∈ cfg.partitions, p.offsetBytes + p.sizeBytes < 2 ^ 32 - 1) :
    (∀ dev calls i j r r', ((((Store.new dev).run cfg calls).arena).slots i).value = some r →
      ((((Store.new dev).run cfg calls).arena).slots j).value = some r' →
      r.index = r'.index → i = j) ∧
    ((∀ dev calls call, Confined cfg ((Store.new dev).run cfg calls) call) ↔
      ∀ k p, cfg.partitions[k]? = some p → Obtainable cfg k → p.Addressed cfg.mpi) := by
  have hinv : ∀ dev calls, ((Store.new dev).run cfg calls).Inv cfg :=
    fun dev calls => (inv_new dev).run calls
  refine ⟨fun dev calls => (hinv dev calls).owned.single, fun h k p hp hk a hlo hhi hcap => ?_,
    fun h dev calls => (hinv dev calls).confined hranges h⟩
  -- the client that can get the partition gets it and reads the byte at `a`
  have hlt := hranges p (List.mem_of_getElem? hp)
  obtain ⟨name, caller, _, hacq⟩ := acquire_of_obtainable hp hlt hk
  obtain ⟨hres, hempty, hread⟩ := read_first hacq hlo hhi (by omega) hcap
  obtain ⟨p', cs, hp', hcs, hall⟩ := (h (readyDev fun _ => 0) [.acquire name caller]
    (.read firstHandle caller (UInt32.ofNat (a - p.offsetBytes)) 1)).inside _ hres
  rw [hread, hempty, List.nil_append] at hcs
  cases hp.symm.trans hp'
  refine (hall _ (by rw [← hcs]; exact List.mem_singleton_self _) _ ?_).1
  rw [Mpi.Command.Touches, Mpi.MpiResource.blockSize_cmdRead]
  dsimp only
  rw [Mpi.MpiResource.isPageProgram_cmdRead]
  exact ⟨Option.some_ne_none _, Nat.le_refl _, Nat.lt_succ_self _⟩

/-- Two partitions that any task may acquire, on an 8 MiB chip. -/
def twoPartitions : Config where
  partitions := [⟨[0x61], 0x1000, 0x2000, 0⟩, ⟨[0x62], 0x3000, 0x1000, 0⟩]
  isPartitionAllowed := fun _ _ => true
  fsTask := none
  priorityFn := fun _ => 0
  mpi := { addrSize := .threeBytes, capacityBytes := 8 * 1024 * 1024, readMode := .singleStandard }

def twoAcquires : List Call :=
  [.acquire [0x62, 0] 1, .acquire [0x61, 0] 1, .acquire [0x61, 0] 2]

def twoAcquired : Store := (Store.new (readyDev fun _ => 0)).run twoPartitions twoAcquires

theorem partitions_confined_iff_two :
    twoAcquired.target (.erase firstHandle 1 0 0x1000) = some ⟨1, 0x3000, 0x1000⟩ ∧
    Confined twoPartitions twoAcquired (.erase firstHandle 1 0 0x1000) := by
  have haddr : ∀ k p, twoPartitions.partitions[k]? = some p → Obtainable twoPartitions k →
      p.Addressed twoPartitions.mpi := by
    intro k p hp _ a _ ha
    have hle : p.offsetBytes + p.sizeBytes ≤ 0x4000 := by
      have hmem := List.mem_of_getElem? hp
      simp only [twoPartitions, List.mem_cons, List.not_mem_nil, or_false] at hmem
      rcases hmem with rfl | rfl <;> decide
    show a < 0x800000 → p.offsetBytes ≤ a % 0x1000000
    omega
  refine ⟨by decide +kernel, ?_⟩
  exact ((partitions_confined_iff twoPartitions (by decide)).2.mpr haddr) _ twoAcquires _

/-- A partition above the first 16 MiB of a chip that takes three address bytes only. -/
def highPartition : Config where
  partitions := [⟨[0x61], 0, 0x1000, 0⟩, ⟨[0x62], 0x1000000, 0x1000, 0⟩]
  isPartitionAllowed := fun _ _ => true
  fsTask := none
  priorityFn := fun _ => 0
  mpi := Mpi.wideChip

def highAcquired : Store :=
  (Store.new (readyDev fun _ => 0)).run highPartition [.acquire [0x62, 0] 1]

/-- To erase it is to erase the other partition. -/
theorem erase_reaches_other :
    highAcquired.target (.erase firstHandle 1 0 0x1000) = some ⟨1, 0x1000000, 0x1000⟩ ∧
    (highAcquired.step highPartition (.erase firstHandle 1 0 0x1000)).dev.hw.flash 0 = 0xFF ∧
    (highAcquired.step highPartition (.erase firstHandle 1 0 0x1000)).dev.hw.flash 0x1000000 = 0 ∧
    ¬ Confined highPartition highAcquired (.erase firstHandle 1 0 0x1000) := by
  have htarget : highAcquired.target (.erase firstHandle 1 0 0x1000) =
      some ⟨1, 0x1000000, 0x1000⟩ := by decide +kernel
  refine ⟨htarget, by decide +kernel, by decide +kernel, fun h => ?_⟩
  obtain ⟨p, cs, hp, hcs, hall⟩ := h.inside _ htarget
  cases hp
  have hmem : ⟨Mpi.cmdSectorErase4k3b, some .threeBytes, 0x1000000, 0⟩ ∈ cs := by
    have hempty : highAcquired.dev.hw.commands = [] := by decide +kernel
    rw [hempty, List.nil_append] at hcs
    rw [← hcs]
    decide +kernel
  have hlo : 0x1000000 ≤ 0 := (hall _ hmem 0 rfl).1
  exact absurd hlo (by decide)

end Rcard.Partition
