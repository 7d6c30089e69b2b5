/-
Runs of the arena.

A run is a finite sequence of operations with any arguments, starting from
`Arena::new`.  `Visited` also contains the states inside the three loops of the
arena, cut after any number of iterations, because the tests for a stale entry
are evaluated there.  Every visited state satisfies the invariant, so none of
those tests ever succeeds, and a stored value is given up in the step that
releases its last entry and in no other.
-/
import Rcard.Arena.Ops

namespace Rcard.Arena

open List

variable {T : Type} {N : Nat}

inductive Op (T : Type) where
  | alloc (value : T) (owner : UInt16) (priority : Int8)
  | cloneHandle (handle : RawHandle) (owner newOwner : UInt16) (priority : Int8)
  | remove (handle : RawHandle)
  | removeOwned (handle : RawHandle) (owner : UInt16)
  | removeByOwner (taskIndex : UInt16)
  | prepareTransfer (handle : RawHandle) (owner target : UInt16)
  | cancelTransfer (handle : RawHandle) (owner : UInt16)
  | acquire (handle : RawHandle) (acquirer : UInt16) (newPriority : Int8)
  | tryDrop (handle : RawHandle) (owner : UInt16)
  | cancelTransfersTo (target : UInt16)
  | getMut (handle : RawHandle) (f : T → T)
  | getMutOwned (handle : RawHandle) (owner : UInt16) (f : T → T)

inductive Out (T : Type) where
  | allocated (r : Except AllocError RawHandle)
  | cloned (r : Except CloneError RawHandle)
  | value (v : Option T)
  | flag (b : Bool)
  | done

def step (s : Arena T N) : Op T → Arena T N × Out T
  | .alloc value owner priority =>
    ((s.alloc value owner priority).1, .allocated (s.alloc value owner priority).2)
  | .cloneHandle handle owner newOwner priority =>
    ((s.cloneHandle handle owner newOwner priority).1,
      .cloned (s.cloneHandle handle owner newOwner priority).2)
  | .remove handle => ((s.remove handle).1, .value (s.remove handle).2)
  | .removeOwned handle owner =>
    ((s.removeOwned handle owner).1, .value (s.removeOwned handle owner).2)
  | .removeByOwner taskIndex => (s.removeByOwner taskIndex, .done)
  | .prepareTransfer handle owner target =>
    ((s.prepareTransfer handle owner target).1, .flag (s.prepareTransfer handle owner target).2)
  | .cancelTransfer handle owner =>
    ((s.cancelTransfer handle owner).1, .flag (s.cancelTransfer handle owner).2)
  | .acquire handle acquirer newPriority =>
    ((s.acquire handle acquirer newPriority).1, .flag (s.acquire handle acquirer newPriority).2)
  | .tryDrop handle owner => ((s.tryDrop handle owner).1, .flag (s.tryDrop handle owner).2)
  | .cancelTransfersTo target => (s.cancelTransfersTo target, .done)
  | .getMut handle f => ((s.getMut handle f).1, .value (s.getMut handle f).2)
  | .getMutOwned handle owner f =>
    ((s.getMutOwned handle owner f).1, .value (s.getMutOwned handle owner f).2)

def run (s : Arena T N) (ops : List (Op T)) : Arena T N :=
  ops.foldl (fun s op => (s.step op).1) s

/-! ## What a step can do

An event is the part of a step that the history of a handle depends on: the key
`alloc` issued for a value, the key `clone_handle` issued for a source, and a
write through a reference.  `Effect` lists the ways a step changes the arena,
each with its event. -/

inductive Event (T : Type) where
  | alloc (key : RawHandle) (value : T)
  | clone (source key : RawHandle)
  | write (handle : RawHandle) (f : T → T)

def eventOf : Op T → Out T → Option (Event T)
  | .alloc value _ _, .allocated (.ok key) => some (.alloc key value)
  | .cloneHandle handle _ _ _, .cloned (.ok key) => some (.clone handle key)
  | .getMut handle f, .value (some _) => some (.write handle f)
  | .getMutOwned handle _ f, .value (some _) => some (.write handle f)
  | _, _ => none

inductive Effect (s : Arena T N) : Arena T N → Option (Event T) → Prop
  | relabel {s' : Arena T N} (h : Relabelled s s') : Effect s s' none
  | release {s' : Arena T N} {P : Fin N → Prop} (hinv : s'.Inv) (hrel : Released P s s') :
      Effect s s' none
  | alloc {s₁ : Arena T N} {P : Fin N → Prop} {i j : Fin N} (hinv : s₁.Inv)
      (hrel : Released P s s₁) (hslot : (s₁.slots i).value = none)
      (hentry : (s₁.map j).occupied = false) (value : T) (owner : UInt16) (p : Int8) :
      Effect s (s₁.allocAt i j value owner p) (some (.alloc s.nextKey value))
  | clone {s₁ : Arena T N} {P : Fin N → Prop} {i j k : Fin N} (hinv : s₁.Inv)
      (hrel : Released P s s₁) (hp : s.PointsTo i k) (hk : ¬ P k)
      (hentry : (s₁.map j).occupied = false) (newOwner : UInt16) (p : Int8) :
      Effect s (s₁.cloneAt (s.map k).slot (s.map k).generation j newOwner p)
        (some (.clone (s.map k).key s.nextKey))
  | write {i j : Fin N} (hp : s.PointsTo i j) (f : T → T) :
      Effect s (s.setSlot i { (s.slots i) with value := (s.slots i).value.map f })
        (some (.write (s.map j).key f))

variable {s : Arena T N} {e : Option (Event T)} {i : Fin N}

theorem DropCase.effect {Q : Fin N → Prop} {s' : Arena T N} (hs : s.Inv) (h : DropCase s Q s') :
    Effect s s' none := by
  cases h with
  | absent => exact .relabel (.refl s)
  | dropped hj hp => exact .release (hs.releaseEntry hp) (releaseEntry_released hs hp)

theorem WriteCase.effect {handle : RawHandle} {f : T → T} {r : Arena T N × Option T} (hs : s.Inv)
    (h : WriteCase s handle f r) {e : Option T → Option (Event T)} (hnone : e none = none)
    (hsome : ∀ v, e (some v) = some (.write handle f)) : Effect s r.1 (e r.2) := by
  cases h with
  | absent =>
    rw [hnone]
    exact .relabel (.refl s)
  | wrote hp hkey hidle =>
    obtain ⟨v, hv⟩ := Option.isSome_iff_exists.mp (hs.value_of_pointsTo hp)
    simp only [hv, hsome, ← hkey]
    exact hv ▸ .write hp f

theorem step_effect (hs : s.Inv) (op : Op T) :
    Effect s (s.step op).1 (eventOf op (s.step op).2) := by
  cases op with
  | alloc value owner p =>
    have hcase := alloc_cases hs value owner p
    simp only [step]
    generalize s.alloc value owner p = r at hcase
    cases hcase with
    | noFreeSlot => exact .relabel (.refl s)
    | noFreeEntry => exact .relabel (.refl s)
    | placed hslot hentry =>
      exact .alloc hs (.refl s) (freeSlot_some hslot) (freeEntry_some hentry) value owner p
    | evicted hfull hvictim hinv hrel hfree hentry =>
      exact .alloc hinv hrel hfree (freeEntry_some hentry) value owner p
  | cloneHandle handle owner newOwner p =>
    have hcase := cloneHandle_cases hs handle owner newOwner p
    simp only [step]
    generalize s.cloneHandle handle owner newOwner p = r at hcase
    cases hcase with
    | invalidHandle => exact .relabel (.refl s)
    | arenaFull => exact .relabel (.refl s)
    | placed hsrc hp hentry =>
      obtain ⟨-, rfl, -⟩ := idleEntry_some hsrc
      exact .clone hs (.refl s) hp id (freeEntry_some hentry) newOwner p
    | evicted hsrc hp hentries hvictim hinv hrel hne =>
      obtain ⟨-, rfl, -⟩ := idleEntry_some hsrc
      refine .clone hinv hrel hp ?_ (by rw [hrel.cleared _ rfl]; rfl) newOwner p
      rintro rfl
      exact hne hp
  | remove handle => exact (remove_cases hs handle).effect hs
  | removeOwned handle owner => exact (removeOwned_cases hs handle owner).effect hs
  | removeByOwner t => exact .release (removeByOwner_inv hs t) (removeByOwner_released hs t)
  | prepareTransfer handle owner target =>
    exact .relabel (prepareTransfer_relabelled handle owner target)
  | cancelTransfer handle owner => exact .relabel (cancelTransfer_relabelled handle owner)
  | acquire handle acquirer p => exact .relabel (acquire_relabelled handle acquirer p)
  | tryDrop handle owner =>
    simp only [step, tryDrop_eq]
    exact (removeOwned_cases hs handle owner).effect hs
  | cancelTransfersTo target => exact .relabel (cancelTransfersTo_relabelled target)
  | getMut handle f =>
    have hcase := getMut_cases hs handle f
    exact hcase.effect hs (e := fun v => eventOf (.getMut handle f) (.value v)) rfl fun _ => rfl
  | getMutOwned handle owner f =>
    have hcase := getMutOwned_cases hs handle owner f
    exact hcase.effect hs (e := fun v => eventOf (.getMutOwned handle owner f) (.value v)) rfl
      fun _ => rfl

/-! ## The invariant over runs -/

theorem Effect.inv {s' : Arena T N} (hs : s.Inv) (h : Effect s s' e) : s'.Inv := by
  cases h with
  | relabel h => exact h.inv hs
  | release hinv hrel => exact hinv
  | alloc hinv hrel hslot hentry value owner p => exact hinv.allocAt hslot hentry value owner p
  | clone hinv hrel hp hk hentry newOwner p =>
    obtain ⟨hval, hgen⟩ := hrel.slot_kept _ _ hk hp.1 hp.2.1
    exact hinv.cloneAt hp.2.1 (hp.2.2.trans hgen.symm)
      (by rw [hval]; exact hs.value_of_pointsTo hp) hentry newOwner p
  | write hp f => exact hs.setSlot_value _ (by simp)

theorem Inv.step (hs : s.Inv) (op : Op T) : (s.step op).1.Inv :=
  (step_effect hs op).inv hs

theorem Inv.run (hs : s.Inv) (ops : List (Op T)) : (s.run ops).Inv := by
  induction ops generalizing s with
  | nil => exact hs
  | cons op ops ih => exact ih (hs.step op)

/-- The states an arena passes through, the insides of its loops included. -/
inductive Visited : Arena T N → Prop
  | new (kind : UInt8) (h : N ≤ 255) : Visited (new kind h)
  | step {s : Arena T N} (hs : Visited s) (op : Op T) : Visited (s.step op).1
  | evicting {s : Arena T N} (hs : Visited s) (victim : Fin N) (n : Nat) :
      Visited (releaseLoop (pointsAt victim) s ((finRange N).take n))
  | removing {s : Arena T N} (hs : Visited s) (taskIndex : UInt16) (n : Nat) :
      Visited (releaseLoop (ownedBy taskIndex) s ((finRange N).take n))
  | cancelling {s : Arena T N} (hs : Visited s) (target : UInt16) (n : Nat) :
      Visited (((finRange N).take n).foldl (cancelStep target) s)

theorem Visited.run (hs : Visited s) (ops : List (Op T)) : Visited (s.run ops) := by
  induction ops generalizing s with
  | nil => exact hs
  | cons op ops ih => exact ih (hs.step op)

theorem Visited.inv (h : Visited s) : s.Inv := by
  have htake : ∀ n, ((finRange N).take n).Nodup := fun n =>
    (nodup_finRange N).sublist (take_sublist n _)
  induction h with
  | new kind h => exact inv_new kind h
  | step _ op ih => exact ih.step op
  | evicting _ victim n ih => exact (evictLoop_spec ih victim _ (htake n)).1
  | removing _ t n ih => exact (removeLoop_spec ih t _ (htake n)).1
  | cancelling _ t n ih => exact (cancelLoop_relabelled t _).inv ih

/-! ## Values -/

theorem Released.slot_step {P : Fin N → Prop} {s' : Arena T N} (h : Released P s s') {v : T}
    (hv : (s.slots i).value = some v) :
    ((s'.slots i).value = some v ∧ (s'.slots i).generation = (s.slots i).generation) ∨
      (s'.slots i).generation = (s.slots i).generation + 1 := by
  rcases h.slot_cases i with hsame | hdrop
  · exact .inl ⟨hsame.1.trans hv, hsame.2⟩
  · exact .inr hdrop.2

theorem allocAt_map_self (s : Arena T N) (i j : Fin N) (value : T) (owner : UInt16) (p : Int8) :
    (s.allocAt i j value owner p).map j =
      newEntry s.nextKey (UInt8.ofNat i) (s.slots i).generation owner p :=
  setEntry_map_self _ _ _

theorem allocAt_map_of_ne {j k : Fin N} (hk : k ≠ j) (value : T) (owner : UInt16) (p : Int8) :
    (s.allocAt i j value owner p).map k = s.map k :=
  setEntry_map_of_ne hk _

theorem cloneAt_map_self (s : Arena T N) (slot : UInt8) (generation : UInt32) (j : Fin N)
    (newOwner : UInt16) (p : Int8) :
    (s.cloneAt slot generation j newOwner p).map j =
      newEntry s.nextKey slot generation newOwner p :=
  setEntry_map_self _ _ _

theorem cloneAt_map_of_ne {j k : Fin N} (hk : k ≠ j) (slot : UInt8) (generation : UInt32)
    (newOwner : UInt16) (p : Int8) : (s.cloneAt slot generation j newOwner p).map k = s.map k := by
  refine (setEntry_map_of_ne hk _).trans ?_
  rw [modifySlotAt_map]

theorem allocAt_slots_of_ne {j k : Fin N} (hk : k ≠ i) (value : T) (owner : UInt16) (p : Int8) :
    (s.allocAt i j value owner p).slots k = s.slots k :=
  setSlot_slots_of_ne hk _

theorem allocAt_slots_self (s : Arena T N) (i j : Fin N) (value : T) (owner : UInt16)
    (p : Int8) : (s.allocAt i j value owner p).slots i =
      { (s.slots i) with value := some value, refcount := 1 } :=
  setSlot_slots_self ..

theorem allocAt_generation (s : Arena T N) (i j k : Fin N) (value : T) (owner : UInt16)
    (p : Int8) :
    ((s.allocAt i j value owner p).slots k).generation = (s.slots k).generation := by
  by_cases hk : k = i
  · subst hk
    rw [allocAt_slots_self]
  · rw [allocAt_slots_of_ne hk]

theorem cloneAt_slot {slot : UInt8} (hslot : slot.toNat = i) (generation : UInt32) (j : Fin N)
    (newOwner : UInt16) (p : Int8) (k : Fin N) :
    ((s.cloneAt slot generation j newOwner p).slots k).value = (s.slots k).value ∧
      ((s.cloneAt slot generation j newOwner p).slots k).generation = (s.slots k).generation := by
  rw [cloneAt, modifySlotAt_eq hslot]
  show ((s.setSlot i _).slots k).value = _ ∧ ((s.setSlot i _).slots k).generation = _
  by_cases hk : k = i
  · subst hk
    rw [setSlot_slots_self]
    exact ⟨rfl, rfl⟩
  · rw [setSlot_slots_of_ne hk]
    exact ⟨rfl, rfl⟩

/-- A step other than a write leaves an occupied slot with its value and
generation, or moves it to the next generation. -/
theorem Effect.slot_step {s' : Arena T N} (h : Effect s s' e)
    (hwrite : ∀ handle f, e ≠ some (.write handle f)) {v : T} (hv : (s.slots i).value = some v) :
    ((s'.slots i).value = some v ∧ (s'.slots i).generation = (s.slots i).generation) ∨
      (s'.slots i).generation = (s.slots i).generation + 1 := by
  cases h with
  | relabel h =>
    rw [h.slots]
    exact .inl ⟨hv, rfl⟩
  | release hinv hrel => exact hrel.slot_step hv
  | alloc hinv hrel hslot hentry value owner p =>
    rw [allocAt_generation]
    rcases hrel.slot_step hv with hsame | hnext
    · have hne : i ≠ _ := fun h => by
        rw [h, hslot] at hsame
        exact absurd hsame.1 (by simp)
      rw [allocAt_slots_of_ne hne]
      exact .inl hsame
    · exact .inr hnext
  | clone hinv hrel hp hk hentry newOwner p =>
    rw [(cloneAt_slot hp.2.1 _ _ _ _ i).1, (cloneAt_slot hp.2.1 _ _ _ _ i).2]
    exact hrel.slot_step hv
  | write hp f => exact absurd rfl (hwrite _ f)

/-- Every slot has its value and generation still, or has lost its value and is in the next
generation. -/
def Thinned (s s' : Arena T N) : Prop := ∀ i,
  ((s'.slots i).value = (s.slots i).value ∧ (s'.slots i).generation = (s.slots i).generation) ∨
  ((s'.slots i).value = none ∧ (s'.slots i).generation = (s.slots i).generation + 1)

/-- The free slot `i` got the value, and nothing else changed. -/
structure Filled (s s' : Arena T N) (i : Fin N) (v : T) : Prop where
  free : (s.slots i).value = none
  value : (s'.slots i).value = some v
  generation : ∀ k, (s'.slots k).generation = (s.slots k).generation
  other : ∀ k, k ≠ i → s'.slots k = s.slots k

theorem Effect.thinned {s' : Arena T N} (h : Effect s s' e)
    (halloc : ∀ key v, e ≠ some (.alloc key v)) (hwrite : ∀ handle f, e ≠ some (.write handle f)) :
    Thinned s s' := by
  cases h with
  | relabel h => exact fun i => .inl (by rw [h.slots]; exact ⟨rfl, rfl⟩)
  | release hinv hrel => exact hrel.slot_cases
  | alloc hinv hrel hslot hentry value owner p => exact absurd rfl (halloc _ value)
  | clone hinv hrel hp hk hentry newOwner p =>
    intro i
    rw [(cloneAt_slot hp.2.1 _ _ _ _ i).1, (cloneAt_slot hp.2.1 _ _ _ _ i).2]
    exact hrel.slot_cases i
  | write hp f => exact absurd rfl (hwrite _ f)

/-- An allocation drops values first, if it must, and then fills a free slot. -/
theorem Effect.filled {s' : Arena T N} {key : RawHandle} {v : T}
    (h : Effect s s' (some (.alloc key v))) : ∃ s₁ i, Thinned s s₁ ∧ Filled s₁ s' i v := by
  cases h with
  | alloc hinv hrel hslot hentry value owner p =>
    exact ⟨_, _, hrel.slot_cases, hslot, by rw [allocAt_slots_self],
      fun k => allocAt_generation .., fun k hk => allocAt_slots_of_ne hk ..⟩

def Op.writes : Op T → Bool
  | .getMut _ _ => true
  | .getMutOwned _ _ _ => true
  | _ => false

theorem eventOf_ne_write {op : Op T} (hop : op.writes = false) (out : Out T)
    (handle : RawHandle) (f : T → T) : eventOf op out ≠ some (.write handle f) := by
  cases op with
  | getMut | getMutOwned => exact absurd hop (by simp [Op.writes])
  | alloc value owner p =>
    rcases out with r | r | v | b | _
    · cases r <;> simp [eventOf]
    all_goals simp [eventOf]
  | cloneHandle handle owner newOwner p =>
    rcases out with r | r | v | b | _
    · simp [eventOf]
    · cases r <;> simp [eventOf]
    all_goals simp [eventOf]
  | _ => simp [eventOf]

def Holds (s : Arena T N) (i : Fin N) (g : UInt32) (v : T) : Prop :=
  (s.slots i).generation = g ∧ (s.slots i).value = some v

def HasEntry (s : Arena T N) (i : Fin N) (g : UInt32) : Prop :=
  ∃ j, (s.map j).occupied = true ∧ (s.map j).slot.toNat = i ∧ (s.map j).generation = g

theorem Inv.holds_iff (hs : s.Inv) (i : Fin N) (g : UInt32) :
    (∃ v, s.Holds i g v) ↔ s.HasEntry i g := by
  constructor
  · rintro ⟨v, rfl, hv⟩
    have hcard : 0 < (s.pointers i).card := by
      rw [← hs.refcount, ← hs.value_iff, hv]
      rfl
    obtain ⟨j, hj⟩ := Finset.card_pos.mp hcard
    exact ⟨j, mem_pointers.mp hj⟩
  · rintro ⟨j, hocc, hslot, rfl⟩
    have hp := hs.pointsTo_iff.mpr ⟨hocc, hslot⟩
    obtain ⟨v, hv⟩ := Option.isSome_iff_exists.mp (hs.value_of_pointsTo hp)
    exact ⟨v, hp.2.2.symm, hv⟩

theorem step_holds (hs : s.Inv) (op : Op T) (hop : op.writes = false) {g : UInt32} {v w : T}
    (h : s.Holds i g v) (h' : (s.step op).1.Holds i g w) : w = v := by
  obtain ⟨rfl, hv⟩ := h
  rcases (step_effect hs op).slot_step (eventOf_ne_write hop _) hv with hsame | hnext
  · exact Option.some.inj (h'.2.symm.trans hsame.1)
  · rw [h'.1] at hnext
    exact absurd hnext (by simp)

theorem releaseEntry_value (hs : s.Inv) {j : Fin N} (hp : s.PointsTo i j) :
    (s.releaseEntry j).2 = if s.pointers i = {j} then (s.slots i).value else none := by
  have hiff : s.pointers i = {j} ↔ (s.slots i).refcount = 1 := by
    constructor
    · intro h
      rw [hs.refcount, h, Finset.card_singleton]
    · intro hone
      ext k
      rw [mem_pointers, Finset.mem_singleton]
      constructor
      · exact fun hk => hs.only_pointer hp hone hk
      · rintro rfl
        exact hp
  rw [releaseEntry_eq hs hp]
  grind

/-- The bookkeeping of the arena is right in every state it passes through: the
invariant holds, no test for a stale entry or for a refcount overflow succeeds,
releasing an entry hands out the value exactly when it was the only one on its
slot, and a step keeps a stored value exactly while an entry for it is left. -/
theorem visited_sound {s : Arena T N} (h : Visited s) :
    s.Inv ∧
    (∀ j, (s.map j).occupied = true → s.stale (s.map j) = false) ∧
    (∀ i, (s.slots i).refcount < u16Max) ∧
    (∀ i j, s.PointsTo i j →
      (s.releaseEntry j).2 = if s.pointers i = {j} then (s.slots i).value else none) ∧
    (∀ op i g v, s.Holds i g v →
      ((∃ w, (s.step op).1.Holds i g w) ↔ (s.step op).1.HasEntry i g) ∧
      (op.writes = false → ∀ w, (s.step op).1.Holds i g w → w = v)) := by
  have hs := h.inv
  refine ⟨hs, fun j hj => hs.not_stale hj, hs.refcount_lt_u16Max,
    fun i j hp => releaseEntry_value hs hp, fun op i g v hv => ⟨?_, ?_⟩⟩
  · exact (hs.step op).holds_iff i g
  · exact fun hop w hw => step_holds hs op hop hv hw

/-- A two-slot arena with one value and two handles on it. -/
def clonedPair : Arena Nat 2 :=
  (new 7 (by decide)).run [.alloc 10 1 0, .cloneHandle 504403158265495553 1 2 0]

theorem visited_sound_clonedPair :
    clonedPair.Inv ∧ (clonedPair.slots 0).refcount = 2 ∧ clonedPair.pointers 0 = {0, 1} ∧
      clonedPair.stale (clonedPair.map 1) = false := by
  have h := visited_sound (Visited.run (Visited.new 7 (by decide))
    [.alloc 10 1 0, .cloneHandle 504403158265495553 1 2 0] : Visited clonedPair)
  exact ⟨h.1, by decide, by decide, h.2.1 1 (by decide)⟩

end Rcard.Arena
