/-
The bookkeeping invariant of the arena.

`Inv` ties the three tables together: a slot's refcount is the number of
occupied entries that name it at its current generation, a slot holds a value
exactly when that number is positive, and every occupied entry names such a
slot.  This file has one lemma per elementary write of the arena.  The
operations are assembled from those writes in the files that follow, so none of
them counts entries again.
-/
import Rcard.Arena.Basic
import Mathlib.Data.Fintype.Card

namespace Rcard.Arena

open Function Finset

variable {T : Type} {N : Nat}

/-- Entry `j` is occupied and names slot `i` at its current generation. -/
def PointsTo (s : Arena T N) (i j : Fin N) : Prop :=
  (s.map j).occupied = true ∧ (s.map j).slot.toNat = i ∧
    (s.map j).generation = (s.slots i).generation

instance (s : Arena T N) (i j : Fin N) : Decidable (s.PointsTo i j) :=
  inferInstanceAs (Decidable (_ ∧ _ ∧ _))

def pointers (s : Arena T N) (i : Fin N) : Finset (Fin N) :=
  Finset.univ.filter fun j => s.PointsTo i j

structure Inv (s : Arena T N) : Prop where
  refcount : ∀ i, (s.slots i).refcount = (s.pointers i).card
  value_iff : ∀ i, (s.slots i).value.isSome = true ↔ 0 < (s.slots i).refcount
  entry : ∀ j, (s.map j).occupied = true →
    ∃ i : Fin N, s.PointsTo i j ∧ (s.slots i).value.isSome = true

variable {s : Arena T N} {i : Fin N}

theorem mem_pointers {j : Fin N} : j ∈ s.pointers i ↔ s.PointsTo i j := by
  simp [pointers]

theorem inv_new (kind : UInt8) (h : N ≤ 255) : (new kind h : Arena T N).Inv := by
  have hfree : ∀ i j, ¬ (new kind h : Arena T N).PointsTo i j := by
    intro i j hp
    exact absurd hp.1 (by simp [new, HandleEntry.empty])
  refine ⟨fun i => ?_, fun i => ?_, fun j hj => ?_⟩
  · rw [show (new kind h : Arena T N).pointers i = ∅ from
      filter_eq_empty_iff.mpr fun j _ => hfree i j]
    rfl
  · simp [new, Slot.empty]
  · exact absurd hj (by simp [new, HandleEntry.empty])

/-! ## Cells -/

theorem toNat_ofNat (s : Arena T N) (i : Fin N) : (UInt8.ofNat i).toNat = i := by
  have := s.size_le
  exact UInt8.toNat_ofNat_of_lt' (by have := i.isLt; simp [UInt8.size]; omega)

/-- Comparing the stored byte with `i as u8` is comparing with `i`. -/
theorem slot_eq_ofNat_iff (s : Arena T N) (b : UInt8) (i : Fin N) :
    b = UInt8.ofNat i ↔ b.toNat = i := by
  constructor
  · intro h
    rw [h, s.toNat_ofNat]
  · intro h
    apply UInt8.toNat.inj
    rw [s.toNat_ofNat, h]

theorem slotAt_eq {b : UInt8} (h : b.toNat = i) : s.slotAt b = s.slots i := by
  grind [slotAt]

theorem modifySlotAt_eq {b : UInt8} (h : b.toNat = i) (f : Slot T → Slot T) :
    s.modifySlotAt b f = s.setSlot i (f (s.slots i)) := by
  grind [modifySlotAt]

section

variable (s : Arena T N)

@[simp] theorem setEntry_slots (j : Fin N) (e : HandleEntry) :
    (s.setEntry j e).slots = s.slots := rfl

@[simp] theorem setSlot_map (i : Fin N) (sl : Slot T) :
    (s.setSlot i sl).map = s.map := rfl

@[simp] theorem modifySlotAt_map (slot : UInt8) (f : Slot T → Slot T) :
    (s.modifySlotAt slot f).map = s.map := by
  unfold modifySlotAt
  split <;> rfl

@[simp] theorem setEntry_map_self (j : Fin N) (e : HandleEntry) :
    (s.setEntry j e).map j = e := update_self ..

@[simp] theorem setSlot_slots_self (i : Fin N) (sl : Slot T) :
    (s.setSlot i sl).slots i = sl := update_self ..

end

theorem setEntry_map_of_ne {j k : Fin N} (h : k ≠ j) (e : HandleEntry) :
    (s.setEntry j e).map k = s.map k := update_of_ne h ..

theorem setSlot_slots_of_ne {k : Fin N} (h : k ≠ i) (sl : Slot T) :
    (s.setSlot i sl).slots k = s.slots k := update_of_ne h ..

/-! ## What the invariant says of one entry -/

section Consequences

variable {s : Arena T N}

theorem PointsTo.unique {i i' j : Fin N} (h : s.PointsTo i j) (h' : s.PointsTo i' j) :
    i = i' := Fin.ext (h.2.1.symm.trans h'.2.1)

section

variable (hs : s.Inv)
include hs

theorem Inv.pointsTo_iff {i j : Fin N} :
    s.PointsTo i j ↔ (s.map j).occupied = true ∧ (s.map j).slot.toNat = i := by
  constructor
  · exact fun h => ⟨h.1, h.2.1⟩
  · rintro ⟨hocc, hslot⟩
    obtain ⟨i', hp, -⟩ := hs.entry j hocc
    have hi : i' = i := Fin.ext (hp.2.1.symm.trans hslot)
    rwa [hi] at hp

theorem Inv.value_of_pointsTo {i j : Fin N} (hp : s.PointsTo i j) :
    (s.slots i).value.isSome = true := by
  obtain ⟨i', hp', hv⟩ := hs.entry j hp.1
  rwa [hp'.unique hp] at hv

/-- No occupied entry is stale, so the branches behind `stale` are dead. -/
theorem Inv.not_stale {j : Fin N} (hocc : (s.map j).occupied = true) :
    s.stale (s.map j) = false := by
  obtain ⟨i, hp, hv⟩ := hs.entry j hocc
  rw [stale, slotAt_eq hp.2.1, hp.2.2]
  simp [hv]

theorem Inv.refcount_pos {i j : Fin N} (hp : s.PointsTo i j) : 0 < (s.slots i).refcount :=
  (hs.value_iff i).mp (hs.value_of_pointsTo hp)

theorem Inv.refcount_le (i : Fin N) : (s.slots i).refcount ≤ N := by
  rw [hs.refcount]
  exact (card_le_univ _).trans (by simp)

/-- The overflow test of `clone_handle` never fires. -/
theorem Inv.refcount_lt_u16Max (i : Fin N) : (s.slots i).refcount < u16Max := by
  have h := hs.refcount_le i
  have := s.size_le
  unfold u16Max
  omega

theorem Inv.pointers_eq_empty {i : Fin N} (hv : (s.slots i).value = none) : s.pointers i = ∅ := by
  have hno : ¬ 0 < (s.slots i).refcount := by
    rw [← hs.value_iff, hv]
    simp
  rw [hs.refcount] at hno
  exact card_eq_zero.mp (by omega)

theorem Inv.slot_ne_of_free {i j : Fin N} (hv : (s.slots i).value = none)
    (hocc : (s.map j).occupied = true) : (s.map j).slot.toNat ≠ i := by
  intro h
  have hmem : j ∈ s.pointers i := mem_pointers.mpr (hs.pointsTo_iff.mpr ⟨hocc, h⟩)
  rw [hs.pointers_eq_empty hv] at hmem
  exact absurd hmem (notMem_empty j)

end

end Consequences

/-! ## Writes that keep the shape -/

/-- The invariant reads three fields of an entry and three facts of a slot. -/
theorem Inv.of_shape {s' : Arena T N} (hs : s.Inv)
    (hocc : ∀ j, (s'.map j).occupied = (s.map j).occupied)
    (hslot : ∀ j, (s'.map j).slot = (s.map j).slot)
    (hegen : ∀ j, (s'.map j).generation = (s.map j).generation)
    (hsgen : ∀ i, (s'.slots i).generation = (s.slots i).generation)
    (hcount : ∀ i, (s'.slots i).refcount = (s.slots i).refcount)
    (hsome : ∀ i, (s'.slots i).value.isSome = (s.slots i).value.isSome) : s'.Inv := by
  have hp : ∀ i j, s'.PointsTo i j ↔ s.PointsTo i j := by
    intro i j
    simp only [PointsTo, hocc, hslot, hegen, hsgen]
  refine ⟨fun i => ?_, fun i => ?_, fun j hj => ?_⟩
  · rw [hcount, hs.refcount]
    congr 1
    ext j
    rw [mem_pointers, mem_pointers, hp]
  · rw [hsome, hcount]
    exact hs.value_iff i
  · obtain ⟨i, hpi, hv⟩ := hs.entry j ((hocc j) ▸ hj)
    exact ⟨i, (hp i j).mpr hpi, by rw [hsome]; exact hv⟩

theorem Inv.setSlot_value (hs : s.Inv) (i : Fin N) {v : Option T}
    (hv : v.isSome = (s.slots i).value.isSome) :
    (s.setSlot i { (s.slots i) with value := v }).Inv := by
  refine hs.of_shape (fun _ => rfl) (fun _ => rfl) (fun _ => rfl)
    (fun k => ?_) (fun k => ?_) (fun k => ?_)
  all_goals
    by_cases hk : k = i
    · subst hk
      simp [hv]
    · rw [setSlot_slots_of_ne hk]

/-! ## Writes at one slot and one entry -/

section Local

variable {s s' : Arena T N} {i j : Fin N}

/-- A write at slot `i` and at entry `j`, which names no other slot before or
after it: the invariant has to be shown at `i` only. -/
theorem Inv.of_local (hs : s.Inv) (hmap : ∀ m, m ≠ j → s'.map m = s.map m)
    (hslots : ∀ k, k ≠ i → s'.slots k = s.slots k)
    (hbefore : (s.map j).occupied = true → (s.map j).slot.toNat = i)
    (hafter : (s'.map j).occupied = true → (s'.map j).slot.toNat = i)
    (hcount : (s'.slots i).refcount = (s'.pointers i).card)
    (hvalue : (s'.slots i).value.isSome = true ↔ 0 < (s'.slots i).refcount)
    (hentry : ∀ m, (s'.map m).occupied = true → (s'.map m).slot.toNat = i →
      s'.PointsTo i m) : s'.Inv := by
  have hfar : ∀ k m, k ≠ i → (s'.PointsTo k m ↔ s.PointsTo k m) := by grind [PointsTo]
  have hnear : ∀ m, (s'.map m).occupied = true → (s'.map m).slot.toNat = i →
      ∃ k : Fin N, s'.PointsTo k m ∧ (s'.slots k).value.isSome = true := by
    intro m hocc hslot
    have hp := hentry m hocc hslot
    have hpos : 0 < (s'.pointers i).card := card_pos.mpr ⟨m, mem_pointers.mpr hp⟩
    exact ⟨i, hp, hvalue.mpr (hcount ▸ hpos)⟩
  refine ⟨fun k => ?_, fun k => ?_, fun m hm => ?_⟩
  · by_cases hk : k = i
    · rw [hk]
      exact hcount
    · have hsame : s'.pointers k = s.pointers k := by
        ext m
        rw [mem_pointers, mem_pointers, hfar k m hk]
      rw [hslots k hk, hsame, hs.refcount]
  · by_cases hk : k = i
    · rw [hk]
      exact hvalue
    · rw [hslots k hk]
      exact hs.value_iff k
  · by_cases hmj : m = j
    · subst hmj
      exact hnear m hm (hafter hm)
    · have hocc := hm
      rw [hmap m hmj] at hocc
      obtain ⟨k, hpk, hvk⟩ := hs.entry m hocc
      grind [PointsTo]

theorem pointsTo_congr {m : Fin N} (hmap : s'.map m = s.map m)
    (hgen : (s'.slots i).generation = (s.slots i).generation) :
    s'.PointsTo i m ↔ s.PointsTo i m := by
  simp only [PointsTo, hmap, hgen]

/-- One occupied entry more on slot `i`, whose count and value say so.  Both
`alloc` and `clone_handle` end in this write. -/
theorem Inv.insert (hs : s.Inv) {e : HandleEntry} {v : Option T}
    (hfree : (s.map j).occupied = false) (hocc : e.occupied = true)
    (hslot : e.slot.toNat = i) (hgen : e.generation = (s.slots i).generation)
    (hv : v.isSome = true) :
    ((s.setSlot i { (s.slots i) with value := v, refcount := (s.slots i).refcount + 1 }).setEntry
      j e).Inv := by
  generalize hs' : ((s.setSlot i
    { (s.slots i) with value := v, refcount := (s.slots i).refcount + 1 }).setEntry j e) = s'
  have hself : s'.map j = e := by rw [← hs', setEntry_map_self]
  have hmap : ∀ k, k ≠ j → s'.map k = s.map k := by
    intro k hk
    rw [← hs', setEntry_map_of_ne hk, setSlot_map]
  have hi : s'.slots i = { (s.slots i) with value := v, refcount := (s.slots i).refcount + 1 } := by
    rw [← hs', setEntry_slots, setSlot_slots_self]
  have hold : ∀ m, m ≠ j → (s'.PointsTo i m ↔ s.PointsTo i m) := fun m hm =>
    pointsTo_congr (hmap m hm) (by rw [hi])
  have hnew : s'.PointsTo i j := by grind [PointsTo]
  have hnotj : j ∉ s.pointers i := by
    intro h
    have hp := mem_pointers.mp h
    rw [hp.1] at hfree
    exact absurd hfree (by simp)
  have hins : s'.pointers i = Insert.insert j (s.pointers i) := by grind [pointers]
  refine hs.of_local hmap (fun k hk => ?_) (fun h => ?_) (fun _ => by rw [hself, hslot])
    ?_ ?_ (fun m hm hmi => ?_)
  · rw [← hs', setEntry_slots, setSlot_slots_of_ne hk]
  · rw [hfree] at h
    exact absurd h (by simp)
  · rw [hi, hins, card_insert_of_notMem hnotj, ← hs.refcount]
  · simp [hi, hv]
  · by_cases hmj : m = j
    · rw [hmj]
      exact hnew
    · rw [hmap m hmj] at hm hmi
      exact (hold m hmj).mpr (hs.pointsTo_iff.mpr ⟨hm, hmi⟩)

end Local

theorem Inv.withNextKey (hs : s.Inv) (key : UInt64) : ({ s with nextKey := key } : Arena T N).Inv :=
  hs.of_shape (fun _ => rfl) (fun _ => rfl) (fun _ => rfl) (fun _ => rfl) (fun _ => rfl)
    (fun _ => rfl)

theorem Inv.allocAt (hs : s.Inv) {j : Fin N} (hv : (s.slots i).value = none)
    (hfree : (s.map j).occupied = false) (value : T) (owner : UInt16) (priority : Int8) :
    (s.allocAt i j value owner priority).Inv := by
  have hzero : (s.slots i).refcount = 0 := by
    rw [hs.refcount, hs.pointers_eq_empty hv, card_empty]
  have h := hs.insert (e := newEntry s.nextKey (UInt8.ofNat i) (s.slots i).generation owner
    priority) (v := some value) hfree rfl (s.toNat_ofNat i) rfl rfl
  rw [hzero] at h
  exact h.withNextKey _

theorem Inv.cloneAt (hs : s.Inv) {j : Fin N} {slot : UInt8} {generation : UInt32}
    (hslot : slot.toNat = i) (hgen : generation = (s.slots i).generation)
    (hv : (s.slots i).value.isSome = true) (hfree : (s.map j).occupied = false) (newOwner : UInt16)
    (priority : Int8) : (s.cloneAt slot generation j newOwner priority).Inv := by
  have h := hs.insert (e := newEntry s.nextKey slot generation newOwner priority)
    (v := (s.slots i).value) hfree rfl hslot hgen hv
  rw [Arena.cloneAt, modifySlotAt_eq hslot]
  exact h.withNextKey _

end Rcard.Arena
