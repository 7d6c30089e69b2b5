/-
What each operation of the arena can do.

`alloc` and `clone_handle` either fail and change nothing, or release a group of
entries and then add one.  `alloc_cases` and `cloneHandle_cases` say so, with
everything the source checked on the way.  The transfer operations change the
owner, priority or pending target of one entry, and the removals release
entries.  Later files use these lemmas and never open the operations again.
-/
import Rcard.Arena.Evict

namespace Rcard.Arena

open Select Option Bool

variable {T : Type} {N : Nat} {s : Arena T N}

theorem freeSlot_some {i : Fin N} (h : s.freeSlot = some i) : (s.slots i).value = none :=
  isNone_iff_eq_none.mp (firstIdx_some h)

theorem freeSlot_none (h : s.freeSlot = none) (i : Fin N) : (s.slots i).value.isSome = true := by
  have hi := firstIdx_eq_none.mp h i
  cases hv : (s.slots i).value with
  | none => simp [hv] at hi
  | some v => rfl

variable {j : Fin N} {handle : RawHandle} {owner : UInt16}

theorem freeEntry_some (h : s.freeEntry = some j) : (s.map j).occupied = false := by
  simpa using firstIdx_some h

theorem freeEntry_none (h : s.freeEntry = none) (j : Fin N) : (s.map j).occupied = true := by
  simpa using firstIdx_eq_none.mp h j

theorem exists_freeEntry (h : (s.map j).occupied = false) : ∃ k, s.freeEntry = some k :=
  exists_firstIdx (by simp [h] : (fun j => !(s.map j).occupied) j = true)

/-! ## alloc -/

/-- The outcomes of `alloc`.  In the last one the arena was full, every entry of
slot `i` was released, and the freed entries leave room for the new one. -/
inductive AllocCase (s : Arena T N) (value : T) (owner : UInt16) (p : Int8) :
    Arena T N × Except AllocError RawHandle → Prop
  | noFreeSlot (hfull : ∀ i, (s.slots i).value.isSome = true)
      (hvictim : s.evictVictim p = none) :
      AllocCase s value owner p (s, .error .noFreeSlot)
  | noFreeEntry {i : Fin N} (hfree : (s.slots i).value = none)
      (hentries : ∀ j, (s.map j).occupied = true) :
      AllocCase s value owner p (s, .error .noFreeEntry)
  | placed {i j : Fin N} (hslot : s.freeSlot = some i) (hentry : s.freeEntry = some j) :
      AllocCase s value owner p (s.allocAt i j value owner p, .ok s.nextKey)
  | evicted {s₁ : Arena T N} {i j : Fin N} (hfull : ∀ i, (s.slots i).value.isSome = true)
      (hvictim : s.evictVictim p = some i) (hinv : s₁.Inv)
      (hrel : Released (s.PointsTo i) s s₁) (hfree : (s₁.slots i).value = none)
      (hentry : s₁.freeEntry = some j) :
      AllocCase s value owner p (s₁.allocAt i j value owner p, .ok s.nextKey)

theorem alloc_cases (hs : s.Inv) (value : T) (owner : UInt16) (p : Int8) :
    AllocCase s value owner p (s.alloc value owner p) := by
  unfold alloc slotFor
  cases hslot : s.freeSlot with
  | some i =>
    cases hentry : s.freeEntry with
    | none =>
      simp only [hentry]
      exact .noFreeEntry (freeSlot_some hslot) (freeEntry_none hentry)
    | some j =>
      simp only [hentry]
      exact .placed hslot hentry
  | none =>
    have hfull := freeSlot_none hslot
    cases hevict : s.evictSlot p with
    | none =>
      exact .noFreeSlot hfull (by simpa [evictSlot] using hevict)
    | some r =>
      obtain ⟨s₁, i⟩ := r
      obtain ⟨hvictim, hinv, hrel, hfree⟩ := evictSlot_some hs hevict
      -- The victim had at least one entry, and that entry is free now.
      have hcard : 0 < (s.pointers i).card := by
        rw [← hs.refcount]
        exact (hs.value_iff i).mp (hfull i)
      obtain ⟨j₀, hj₀⟩ := Finset.card_pos.mp hcard
      obtain ⟨j, hentry⟩ := exists_freeEntry (s := s₁) (j := j₀) (by
        rw [hrel.cleared j₀ (mem_pointers.mp hj₀)]
        rfl)
      simp only [hentry, hrel.nextKey]
      exact .evicted hfull hvictim hinv hrel hfree hentry

/-! ## clone_handle -/

theorem idleEntry_some {k : Fin N} (h : s.idleEntry handle owner = some k) :
    (s.map k).occupied = true ∧ (s.map k).key = handle ∧ (s.map k).owner = owner ∧
      (s.map k).pendingTo = none := by
  have := firstIdx_some h
  simp only [and_eq_true, beq_iff_eq, isNone_iff_eq_none] at this
  exact ⟨this.1.1.1, this.1.1.2, this.1.2, this.2⟩

/-- The outcomes of `clone_handle`.  The source entry is `k`, on slot `i`.  In
the last case the map was full and entry `j` was released to make room. -/
inductive CloneCase (s : Arena T N) (handle : RawHandle) (owner newOwner : UInt16) (p : Int8) :
    Arena T N × Except CloneError RawHandle → Prop
  | invalidHandle (hnone : s.idleEntry handle owner = none) :
      CloneCase s handle owner newOwner p (s, .error .invalidHandle)
  | arenaFull (hentries : ∀ j, (s.map j).occupied = true) :
      CloneCase s handle owner newOwner p (s, .error .arenaFull)
  | placed {i j k : Fin N} (hsrc : s.idleEntry handle owner = some k) (hp : s.PointsTo i k)
      (hentry : s.freeEntry = some j) :
      CloneCase s handle owner newOwner p
        (s.cloneAt (s.map k).slot (s.map k).generation j newOwner p, .ok s.nextKey)
  | evicted {s₁ : Arena T N} {i j k : Fin N} (hsrc : s.idleEntry handle owner = some k)
      (hp : s.PointsTo i k) (hentries : ∀ j, (s.map j).occupied = true)
      (hvictim : s.findEvictionVictim p (some ((s.map k).slot, (s.map k).generation)) = some j)
      (hinv : s₁.Inv) (hrel : Released (fun m => m = j) s s₁) (hne : ¬ s.PointsTo i j) :
      CloneCase s handle owner newOwner p
        (s₁.cloneAt (s.map k).slot (s.map k).generation j newOwner p, .ok s.nextKey)

theorem cloneHandle_cases (hs : s.Inv) (handle : RawHandle) (owner newOwner : UInt16) (p : Int8) :
    CloneCase s handle owner newOwner p (s.cloneHandle handle owner newOwner p) := by
  unfold cloneHandle
  cases hsrc : s.idleEntry handle owner with
  | none => exact .invalidHandle hsrc
  | some k =>
    obtain ⟨hocc, -⟩ := idleEntry_some hsrc
    obtain ⟨i, hp, -⟩ := hs.entry k hocc
    have hcount := hs.refcount_lt_u16Max i
    simp only [hs.not_stale hocc, slotAt_eq hp.2.1, Nat.ne_of_lt hcount, entryFor]
    cases hentry : s.freeEntry with
    | some j => exact .placed hsrc hp hentry
    | none =>
      have hentries := freeEntry_none hentry
      cases hvictim : s.findEvictionVictim p (some ((s.map k).slot, (s.map k).generation)) with
      | none => exact .arenaFull hentries
      | some j =>
        obtain ⟨i', hp', -⟩ := hs.entry j (hentries j)
        have hrel := releaseEntry_released hs hp'
        have hne : ¬ s.PointsTo i j := by
          intro h
          refine (findEvictionVictim_some hvictim).1.2.1 ⟨?_, ?_⟩
          · exact UInt8.toNat.inj (h.2.1.trans hp.2.1.symm)
          · exact h.2.2.trans hp.2.2.symm
        simp only [map_some, hrel.nextKey]
        exact .evicted hsrc hp hentries hvictim (hs.releaseEntry hp') hrel hne

/-! ## Removal of one entry -/

/-- The state after a removal: unchanged, or with entry `j` released. -/
inductive DropCase (s : Arena T N) (Q : Fin N → Prop) : Arena T N → Prop
  | absent (h : ∀ j, ¬ Q j) : DropCase s Q s
  | dropped {i j : Fin N} (hj : Q j) (hp : s.PointsTo i j) :
      DropCase s Q (s.releaseEntry j).1

theorem remove_cases (hs : s.Inv) (handle : RawHandle) :
    DropCase s (fun j => (s.map j).occupied = true ∧ (s.map j).key = handle)
      (s.remove handle).1 := by
  unfold remove
  cases hf : firstIdx fun j => (s.map j).occupied && (s.map j).key == handle with
  | none => exact .absent fun j hj => by simpa [hj] using firstIdx_eq_none.mp hf j
  | some j =>
    have hj := firstIdx_some hf
    simp only [and_eq_true, beq_iff_eq] at hj
    obtain ⟨i, hp, -⟩ := hs.entry j hj.1
    exact .dropped hj hp

def OwnedKey (s : Arena T N) (handle : RawHandle) (owner : UInt16) (j : Fin N) : Prop :=
  (s.map j).occupied = true ∧ (s.map j).key = handle ∧ (s.map j).owner = owner

theorem ownedEntry_some (h : s.ownedEntry handle owner = some j) : s.OwnedKey handle owner j := by
  have := firstIdx_some h
  simp only [and_eq_true, beq_iff_eq] at this
  exact ⟨this.1.1, this.1.2, this.2⟩

theorem ownedEntry_none (h : s.ownedEntry handle owner = none) (j : Fin N) :
    ¬ s.OwnedKey handle owner j := by
  rintro ⟨h₁, h₂, h₃⟩
  simpa [h₁, h₂, h₃] using firstIdx_eq_none.mp h j

theorem removeOwned_cases (hs : s.Inv) (handle : RawHandle) (owner : UInt16) :
    DropCase s (s.OwnedKey handle owner) (s.removeOwned handle owner).1 := by
  unfold removeOwned
  cases hf : s.ownedEntry handle owner with
  | none => exact .absent (ownedEntry_none hf)
  | some j =>
    obtain ⟨i, hp, -⟩ := hs.entry j (ownedEntry_some hf).1
    exact .dropped (ownedEntry_some hf) hp

theorem tryDrop_eq (handle : RawHandle) (owner : UInt16) :
    (s.tryDrop handle owner).1 = (s.removeOwned handle owner).1 := by
  unfold tryDrop removeOwned
  cases s.ownedEntry handle owner <;> rfl

/-! ## Transfers -/

/-- The state after an operation that rewrites the owner, priority or pending
target of entries, and nothing else. -/
structure Relabelled (s s' : Arena T N) : Prop where
  key : ∀ j, (s'.map j).key = (s.map j).key
  slot : ∀ j, (s'.map j).slot = (s.map j).slot
  generation : ∀ j, (s'.map j).generation = (s.map j).generation
  occupied : ∀ j, (s'.map j).occupied = (s.map j).occupied
  slots : s'.slots = s.slots
  nextKey : s'.nextKey = s.nextKey

theorem Relabelled.refl (s : Arena T N) : Relabelled s s :=
  ⟨fun _ => rfl, fun _ => rfl, fun _ => rfl, fun _ => rfl, rfl, rfl⟩

theorem Relabelled.trans {s₁ s₂ : Arena T N} (h₁ : Relabelled s s₁) (h₂ : Relabelled s₁ s₂) :
    Relabelled s s₂ :=
  ⟨fun j => (h₂.key j).trans (h₁.key j), fun j => (h₂.slot j).trans (h₁.slot j),
    fun j => (h₂.generation j).trans (h₁.generation j),
    fun j => (h₂.occupied j).trans (h₁.occupied j), h₂.slots.trans h₁.slots,
    h₂.nextKey.trans h₁.nextKey⟩

theorem Relabelled.inv {s' : Arena T N} (hs : s.Inv) (h : Relabelled s s') : s'.Inv :=
  hs.of_shape h.occupied h.slot h.generation (fun i => by rw [h.slots])
    (fun i => by rw [h.slots]) (fun i => by rw [h.slots])

theorem relabelled_setEntry (j : Fin N) (owner : UInt16) (priority : Int8)
    (pendingTo : Option UInt16) :
    Relabelled s (s.setEntry j { s.map j with owner, priority, pendingTo }) := by
  refine ⟨fun k => ?_, fun k => ?_, fun k => ?_, fun k => ?_, rfl, rfl⟩
  all_goals
    by_cases hk : k = j
    · subst hk
      rw [setEntry_map_self]
    · rw [setEntry_map_of_ne hk]

theorem prepareTransfer_relabelled (handle : RawHandle) (owner target : UInt16) :
    Relabelled s (s.prepareTransfer handle owner target).1 := by
  unfold prepareTransfer
  cases s.idleEntry handle owner with
  | none => exact .refl s
  | some j =>
    by_cases hst : s.stale (s.map j) = true
    · simp only [hst]
      exact .refl s
    · simp only [hst]
      exact relabelled_setEntry j _ _ _

theorem cancelTransfer_relabelled (handle : RawHandle) (owner : UInt16) :
    Relabelled s (s.cancelTransfer handle owner).1 := by
  unfold cancelTransfer
  split
  · exact .refl s
  · exact relabelled_setEntry _ _ _ _

theorem acquire_relabelled (handle : RawHandle) (acquirer : UInt16) (newPriority : Int8) :
    Relabelled s (s.acquire handle acquirer newPriority).1 := by
  unfold acquire
  split
  · exact .refl s
  · split
    · exact .refl s
    · exact relabelled_setEntry _ _ _ _

theorem cancelStep_relabelled (target : UInt16) (j : Fin N) :
    Relabelled s (cancelStep target s j) := by
  unfold cancelStep
  split
  · exact relabelled_setEntry j _ _ _
  · exact .refl s

theorem cancelLoop_relabelled (target : UInt16) (l : List (Fin N)) :
    Relabelled s (l.foldl (cancelStep target) s) := by
  induction l generalizing s with
  | nil => exact .refl s
  | cons j l ih => exact (cancelStep_relabelled target j).trans ih

theorem cancelTransfersTo_relabelled (target : UInt16) :
    Relabelled s (s.cancelTransfersTo target) :=
  cancelLoop_relabelled target _

/-! ## Writes through a reference -/

theorem lookupEntry_some (h : s.lookupEntry handle = some j) :
    (s.map j).occupied = true ∧ (s.map j).key = handle ∧ (s.map j).pendingTo = none := by
  have := firstIdx_some h
  simp only [and_eq_true, beq_iff_eq, isNone_iff_eq_none] at this
  exact ⟨this.1.1.1, this.1.1.2, this.1.2⟩

theorem lookupOwnedEntry_some (h : s.lookupOwnedEntry handle owner = some j) :
    (s.map j).occupied = true ∧ (s.map j).key = handle ∧ (s.map j).owner = owner ∧
      (s.map j).pendingTo = none := by
  have := firstIdx_some h
  simp only [and_eq_true, beq_iff_eq, isNone_iff_eq_none] at this
  exact ⟨this.1.1.1.1, this.1.1.1.2, this.1.1.2, this.1.2⟩

inductive WriteCase (s : Arena T N) (handle : RawHandle) (f : T → T) :
    Arena T N × Option T → Prop
  | absent : WriteCase s handle f (s, none)
  | wrote {i j : Fin N} (hp : s.PointsTo i j) (hkey : (s.map j).key = handle)
      (hidle : (s.map j).pendingTo = none) :
      WriteCase s handle f
        (s.setSlot i { (s.slots i) with value := (s.slots i).value.map f }, (s.slots i).value)

theorem getMut_cases (hs : s.Inv) (handle : RawHandle) (f : T → T) :
    WriteCase s handle f (s.getMut handle f) := by
  unfold getMut lookup
  cases hl : s.lookupEntry handle with
  | none => exact .absent
  | some j =>
    obtain ⟨hocc, hkey, hidle⟩ := lookupEntry_some hl
    obtain ⟨i, hp, -⟩ := hs.entry j hocc
    simp only [map_some, writeThrough, modifySlotAt_eq hp.2.1, slotAt_eq hp.2.1]
    exact .wrote hp hkey hidle

theorem getMutOwned_cases (hs : s.Inv) (handle : RawHandle) (owner : UInt16) (f : T → T) :
    WriteCase s handle f (s.getMutOwned handle owner f) := by
  unfold getMutOwned lookupOwned
  cases hl : s.lookupOwnedEntry handle owner with
  | none => exact .absent
  | some j =>
    obtain ⟨hocc, hkey, -, hidle⟩ := lookupOwnedEntry_some hl
    obtain ⟨i, hp, -⟩ := hs.entry j hocc
    simp only [map_some, writeThrough, modifySlotAt_eq hp.2.1, slotAt_eq hp.2.1]
    exact .wrote hp hkey hidle

end Rcard.Arena
