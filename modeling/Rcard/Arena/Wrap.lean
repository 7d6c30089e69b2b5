/-
An arena that has issued more than 2^64 keys.

Isolation of the implicit protocol needs the bound on issued keys.  One
long-lived handle and 2^64 short-lived ones bring the generator round to the key
of the long-lived handle.  Two tasks then hold entries with one key, and `get`
resolves it through whichever comes first in the map.
-/
import Rcard.Arena.Implicit

namespace Rcard.Arena

open Select Option

/-- Slot 0 and entry 0 are free, and entry 1 holds the value 20 for task 2. -/
structure Parked (s : Arena Nat 2) (key : UInt64) : Prop where
  inv : s.Inv
  slot : (s.slots 0).value = none
  entry : (s.map 0).occupied = false
  other : s.map 1 = newEntry key 1 0 2 0
  value : (s.slots 1).value = some 20

variable {s : Arena Nat 2} {key : UInt64}

theorem Parked.alloc (h : Parked s key) :
    s.alloc 30 3 0 = (s.allocAt 0 0 30 3 0, .ok s.nextKey) := by
  have hslot : s.freeSlot = some 0 := firstIdx_zero (by rw [h.slot]; rfl)
  have hentry : s.freeEntry = some 0 := firstIdx_zero (by rw [h.entry]; rfl)
  rw [Arena.alloc, slotFor, hslot]
  simp only [hentry]

theorem Parked.cycle (h : Parked s key) :
    Parked (s.run [.alloc 30 3 0, .removeByOwner 3]) key ∧
      (s.run [.alloc 30 3 0, .removeByOwner 3]).nextKey = advanceKey s.nextKey := by
  have hrun : s.run [.alloc 30 3 0, .removeByOwner 3] = (s.allocAt 0 0 30 3 0).removeByOwner 3 := by
    show ((s.alloc 30 3 0).1).removeByOwner 3 = _
    rw [h.alloc]
  have hinv := h.inv.allocAt h.slot h.entry 30 3 0
  have hother : (s.allocAt 0 0 30 3 0).map 1 = newEntry key 1 0 2 0 :=
    (allocAt_map_of_ne (by decide) 30 3 0).trans h.other
  have hrel := removeByOwner_released hinv 3
  have hinv' := removeByOwner_inv hinv 3
  have hkept : ¬ (((s.allocAt 0 0 30 3 0).map 1).occupied = true ∧
      ((s.allocAt 0 0 30 3 0).map 1).owner = 3) := by
    rw [hother]
    exact fun hcon => absurd hcon.2 (show ¬ (2 : UInt16) = 3 by decide)
  rw [hrun]
  have hentry : (((s.allocAt 0 0 30 3 0).removeByOwner 3).map 0).occupied = false := by
    rw [hrel.cleared 0 (by rw [allocAt_map_self]; exact ⟨rfl, rfl⟩)]
    rfl
  have hmap : ((s.allocAt 0 0 30 3 0).removeByOwner 3).map 1 = newEntry key 1 0 2 0 := by
    rw [hrel.kept 1 hkept, hother]
  refine ⟨⟨hinv', ?_, hentry, hmap, ?_⟩, hrel.nextKey⟩
  · -- A value in slot 0 would need an entry, and neither entry names that slot.
    by_contra hv
    have hcard : 0 < (((s.allocAt 0 0 30 3 0).removeByOwner 3).pointers 0).card := by
      rw [← hinv'.refcount]
      exact (hinv'.value_iff 0).mp (isSome_iff_ne_none.mpr hv)
    obtain ⟨j, hj⟩ := Finset.card_pos.mp hcard
    obtain ⟨hocc, hslot, -⟩ := mem_pointers.mp hj
    match j with
    | 0 => exact absurd (hentry.symm.trans hocc) Bool.false_ne_true
    | 1 =>
      rw [hmap] at hslot
      exact absurd hslot (show ¬ (1 : UInt8).toNat = ((0 : Fin 2) : Nat) by decide)
  · rw [(hrel.slot_kept 1 1 hkept (by rw [hother]; rfl) (by rw [hother]; rfl)).1,
      allocAt_slots_of_ne (by decide), h.value]

theorem Parked.cycles (h : Parked s key) (n : Nat) :
    ∃ ops, Parked (s.run ops) key ∧ (s.run ops).nextKey = advanceKey^[n] s.nextKey := by
  induction n with
  | zero => exact ⟨[], h, rfl⟩
  | succ n ih =>
    obtain ⟨ops, hparked, hnext⟩ := ih
    have hcycle := hparked.cycle
    refine ⟨ops ++ [.alloc 30 3 0, .removeByOwner 3], ?_⟩
    rw [run, List.foldl_append, Function.iterate_succ_apply', ← hnext]
    exact hcycle

theorem advanceKey_iterate_period (key : UInt64) : advanceKey^[2 ^ 64] key = key := by
  apply UInt64.toNat.inj
  rw [advanceKey_iterate_toNat]
  exact (Lcg.iterate_eq_self_iff (a := 6364136223846793005) (c := 1442695040888963407) (k := 64)
    (by decide) (by decide) key.toNat_lt _).mpr (dvd_refl _)

/-- The generator comes round to the key of a handle that is still live. -/
theorem parked_wrapped : ∃ ops, Parked ((new 0 (by decide) : Arena Nat 2).run ops) (advanceKey 1) ∧
    ((new 0 (by decide) : Arena Nat 2).run ops).nextKey = advanceKey 1 := by
  let first : List (Op Nat) := [.alloc 30 3 0, .alloc 20 2 0, .removeByOwner 3]
  have hstart : Parked ((new 0 (by decide) : Arena Nat 2).run first) (advanceKey 1) :=
    ⟨(inv_new 0 (by decide)).run first, by decide, by decide, by decide, by decide⟩
  obtain ⟨ops, hparked, hnext⟩ := hstart.cycles (2 ^ 64 - 1)
  refine ⟨first ++ ops, ?_⟩
  refine ⟨hparked, hnext.trans ?_⟩
  have hkey : ((new 0 (by decide) : Arena Nat 2).run first).nextKey =
      advanceKey^[1] (advanceKey 1) := by
    decide
  rw [hkey, ← Function.iterate_add_apply]
  exact advanceKey_iterate_period (advanceKey 1)

/-- Two entries with one key: task 3 on slot 0 and task 2 on slot 1. -/
structure Doubled (s : Arena Nat 2) (key : UInt64) : Prop where
  inv : s.Inv
  first : s.OwnedKey key 3 0 ∧ (s.map 0).slot = 0 ∧ (s.map 0).pendingTo = none
  second : s.OwnedKey key 2 1 ∧ (s.map 1).slot = 1 ∧ (s.map 1).pendingTo = none
  values : (s.slots 0).value = some 30 ∧ (s.slots 1).value = some 20

theorem Parked.doubled (h : Parked s key) (hnext : s.nextKey = key) :
    Doubled (s.alloc 30 3 0).1 key := by
  rw [h.alloc]
  refine ⟨h.inv.allocAt h.slot h.entry 30 3 0, ?_, ?_, ?_, ?_⟩
  · rw [OwnedKey, allocAt_map_self, hnext]
    exact ⟨⟨rfl, rfl, rfl⟩, rfl, rfl⟩
  · rw [OwnedKey, allocAt_map_of_ne (by decide), h.other]
    exact ⟨⟨rfl, rfl, rfl⟩, rfl, rfl⟩
  · rw [allocAt_slots_self]
  · rw [allocAt_slots_of_ne (by decide), h.value]

theorem Doubled.get (h : Doubled s key) : s.get key = some 30 := by
  obtain ⟨⟨hocc, hkey, -⟩, hslot, hidle⟩ := h.first
  have hlookup : s.lookupEntry key = some 0 :=
    firstIdx_zero (by simp [hocc, hkey, hidle, h.inv.not_stale hocc])
  rw [Arena.get, lookup, hlookup, map_some, bind_some, hslot, slotAt_eq (i := 0) rfl, h.values.1]

theorem Doubled.removeOwned (h : Doubled s key) :
    (s.removeOwned key 3).1.map 1 = s.map 1 ∧ (s.removeOwned key 3).1.get key = some 20 := by
  obtain ⟨⟨hocc₀, hkey₀, howner₀⟩, hslot₀, -⟩ := h.first
  obtain ⟨⟨hocc, hkey, -⟩, hslot, hidle⟩ := h.second
  have hfound : s.ownedEntry key 3 = some 0 := firstIdx_zero (by simp [hocc₀, hkey₀, howner₀])
  have hp : s.PointsTo 0 0 := h.inv.pointsTo_iff.mpr ⟨hocc₀, by rw [hslot₀]; rfl⟩
  have hrel := releaseEntry_released h.inv hp
  have hinv := h.inv.releaseEntry hp
  have hne : ¬ ((1 : Fin 2) = 0) := by decide
  rw [Arena.removeOwned, hfound]
  have hmap := hrel.kept 1 hne
  have hlookup : (s.releaseEntry 0).1.lookupEntry key = some 1 := by
    refine firstIdx_eq_some_of_unique ?_ fun j hj => ?_
    · have hst := hinv.not_stale (j := 1) (by rw [hmap]; exact hocc)
      rw [hst, hmap]
      simp [hocc, hkey, hidle]
    · match j with
      | 1 => rfl
      | 0 =>
        rw [hrel.cleared 0 rfl] at hj
        simp [HandleEntry.cleared] at hj
  refine ⟨hmap, ?_⟩
  rw [Arena.get, lookup, hlookup, map_some, bind_some, hmap, hslot, slotAt_eq (i := 1) rfl,
    (hrel.slot_kept 1 1 hne hocc (by rw [hslot]; rfl)).1, h.values.2]

/-- Task 3 destroys its own handle, the entry of task 2 stays as it was, and
still `get` on the handle of task 2 returns another value than before. -/
theorem dispatchImplicit_wrapped :
    ∃ ops : List (Op Nat),
      let s : Arena Nat 2 := (history 0 (by decide) ops).1
      let s' := (dispatchImplicit varintCodec s implicitDestroyMethod
        [252, 128, 244, 159, 196, 245, 219, 171, 108] 3 fun _ => 0).1
      (s.map 1).occupied = true ∧ (s.map 1).owner = 2 ∧ s'.map 1 = s.map 1 ∧
        s.get (s.map 1).key = some 30 ∧ s'.get (s.map 1).key = some 20 ∧
        s.OwnedKey (s.map 1).key 3 0 ∧ s.OwnedKey (s.map 1).key 2 1 := by
  obtain ⟨ops, hparked, hnext⟩ := parked_wrapped
  refine ⟨ops ++ [.alloc 30 3 0], ?_⟩
  intro s s'
  have hs : s = (((new 0 (by decide) : Arena Nat 2).run ops).alloc 30 3 0).1 := by
    show ((history 0 (by decide) (ops ++ [.alloc 30 3 0]) : Arena Nat 2 × _).1) = _
    rw [history, foldl_record_fst, run, List.foldl_append]
    rfl
  have hd : Doubled s (advanceKey 1) := hs ▸ hparked.doubled hnext
  have hkey : (s.map 1).key = advanceKey 1 := hd.second.1.2.1
  rw [hkey]
  exact ⟨hd.second.1.1, hd.second.1.2.2, hd.removeOwned.1, hd.get, hd.removeOwned.2,
    hd.first.1, hd.second.1⟩

end Rcard.Arena
