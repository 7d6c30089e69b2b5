/-
Releasing entries.

`Released P s s'` says what a group of releases did: the entries in `P` are
cleared and no other entry is touched, a slot with an entry outside `P` keeps
its value and generation, and a slot that lost its last entry is empty at the
next generation.  `releaseEntry` releases one entry, the loops of
`remove_by_owner` and of the second pass of `evict_slot` release the entries
their guard selects, and every intermediate state of those loops satisfies the
invariant.
-/
import Rcard.Arena.Invariant

namespace Rcard.Arena

open List Function Finset

variable {T : Type} {N : Nat}

structure Released (P : Fin N → Prop) (s s' : Arena T N) : Prop where
  cleared : ∀ j, P j → s'.map j = (s.map j).cleared
  kept : ∀ j, ¬ P j → s'.map j = s.map j
  slot_kept : ∀ i j : Fin N, ¬ P j → (s.map j).occupied = true → (s.map j).slot.toNat = i →
    (s'.slots i).value = (s.slots i).value ∧ (s'.slots i).generation = (s.slots i).generation
  slot_cases : ∀ i,
    ((s'.slots i).value = (s.slots i).value ∧ (s'.slots i).generation = (s.slots i).generation) ∨
    ((s'.slots i).value = none ∧ (s'.slots i).generation = (s.slots i).generation + 1)
  slot_free : ∀ i, (s.slots i).value = none → s'.slots i = s.slots i
  nextKey : s'.nextKey = s.nextKey

theorem Released.refl (s : Arena T N) : Released (fun _ => False) s s :=
  ⟨fun _ h => h.elim, fun _ _ => rfl, fun _ _ _ _ _ => ⟨rfl, rfl⟩,
    fun _ => .inl ⟨rfl, rfl⟩, fun _ _ => rfl, rfl⟩

theorem Released.congr {P Q : Fin N → Prop} {s s' : Arena T N} (h : Released P s s')
    (hPQ : ∀ j, P j ↔ Q j) : Released Q s s' := by
  rwa [show P = Q from funext fun j => propext (hPQ j)] at h

theorem Released.trans {P Q : Fin N → Prop} {s s₁ s₂ : Arena T N}
    (h₁ : Released P s s₁) (h₂ : Released Q s₁ s₂) (hdisj : ∀ j, Q j → ¬ P j) :
    Released (fun j => P j ∨ Q j) s s₂ := by
  refine ⟨fun j hj => ?_, fun j hj => ?_, fun i j hj hocc hslot => ?_, fun i => ?_,
    fun i hv => ?_, h₂.nextKey.trans h₁.nextKey⟩
  · rcases hj with hP | hQ
    · rw [h₂.kept j (fun hQ => hdisj j hQ hP), h₁.cleared j hP]
    · rw [h₂.cleared j hQ, h₁.kept j (hdisj j hQ)]
  · rw [h₂.kept j (fun hQ => hj (.inr hQ)), h₁.kept j (fun hP => hj (.inl hP))]
  · have hP : ¬ P j := fun hP => hj (.inl hP)
    have hQ : ¬ Q j := fun hQ => hj (.inr hQ)
    have hfirst := h₁.slot_kept i j hP hocc hslot
    have hsecond := h₂.slot_kept i j hQ (by rwa [h₁.kept j hP]) (by rwa [h₁.kept j hP])
    exact ⟨hsecond.1.trans hfirst.1, hsecond.2.trans hfirst.2⟩
  · rcases h₁.slot_cases i with hsame | hdrop
    · rcases h₂.slot_cases i with hsame' | hdrop'
      · exact .inl ⟨hsame'.1.trans hsame.1, hsame'.2.trans hsame.2⟩
      · exact .inr ⟨hdrop'.1, by rw [hdrop'.2, hsame.2]⟩
    · rw [h₂.slot_free i hdrop.1]
      exact .inr hdrop
  · rw [h₂.slot_free i (by rw [h₁.slot_free i hv]; exact hv), h₁.slot_free i hv]

/-! ## One entry -/

section One

variable {s : Arena T N} {i j : Fin N}

theorem releaseEntry_map (s : Arena T N) (j : Fin N) :
    (s.releaseEntry j).1.map = update s.map j ((s.map j).cleared) := by
  rw [releaseEntry]
  dsimp only
  split
  · rfl
  · split
    · rw [modifySlotAt_map]
      rfl
    · rw [modifySlotAt_map]
      rfl

theorem releaseEntry_map_of_ne (s : Arena T N) {j k : Fin N} (hk : k ≠ j) :
    (s.releaseEntry j).1.map k = s.map k := by
  rw [releaseEntry_map, update_of_ne hk]

theorem releaseEntry_occupied (s : Arena T N) (j : Fin N) :
    ((s.releaseEntry j).1.map j).occupied = false := by
  rw [releaseEntry_map, update_self]
  rfl

section

variable (hs : s.Inv)
include hs

variable (hp : s.PointsTo i j)
include hp

theorem releaseEntry_eq :
    s.releaseEntry j =
      if (s.slots i).refcount = 1 then
        ((s.setEntry j ((s.map j).cleared)).setSlot i
          { value := none, generation := (s.slots i).generation + 1, refcount := 0 },
          (s.slots i).value)
      else
        ((s.setEntry j ((s.map j).cleared)).setSlot i
          { (s.slots i) with refcount := (s.slots i).refcount - 1 }, none) := by
  have hpos := hs.refcount_pos hp
  rw [releaseEntry, hs.not_stale hp.1]
  simp only [slotAt_eq hp.2.1, modifySlotAt_eq hp.2.1, setEntry_slots]
  grind

theorem Inv.only_pointer (hone : (s.slots i).refcount = 1) {k : Fin N} (hk : s.PointsTo i k) :
    k = j := by
  rw [hs.refcount] at hone
  obtain ⟨a, ha⟩ := Finset.card_eq_one.mp hone
  have hkmem := mem_pointers.mpr hk
  have hjmem := mem_pointers.mpr hp
  rw [ha, Finset.mem_singleton] at hkmem hjmem
  rw [hkmem, hjmem]

theorem releaseEntry_nextKey : (s.releaseEntry j).1.nextKey = s.nextKey := by
  rw [releaseEntry_eq hs hp]
  split <;> rfl

theorem releaseEntry_slots_of_ne {k : Fin N} (hk : k ≠ i) :
    (s.releaseEntry j).1.slots k = s.slots k := by
  rw [releaseEntry_eq hs hp]
  split <;> exact setSlot_slots_of_ne hk _

theorem releaseEntry_slots_last (hone : (s.slots i).refcount = 1) :
    (s.releaseEntry j).1.slots i =
      { value := none, generation := (s.slots i).generation + 1, refcount := 0 } := by
  rw [releaseEntry_eq hs hp, if_pos hone, setSlot_slots_self]

theorem releaseEntry_slots_shared (hone : (s.slots i).refcount ≠ 1) :
    (s.releaseEntry j).1.slots i = { (s.slots i) with refcount := (s.slots i).refcount - 1 } := by
  rw [releaseEntry_eq hs hp, if_neg hone, setSlot_slots_self]

theorem releaseEntry_released : Released (fun k => k = j) s (s.releaseEntry j).1 := by
  have hmap := releaseEntry_map s j
  refine ⟨fun k hk => ?_, fun k hk => ?_, fun m k hk hocc hslot => ?_, fun m => ?_,
    fun m hv => ?_, releaseEntry_nextKey hs hp⟩
  · subst hk
    rw [hmap, update_self]
  · rw [hmap, update_of_ne hk]
  · by_cases hm : m = i
    · subst hm
      -- Another entry shares the slot, so the count was not one.
      have hk' : s.PointsTo m k := hs.pointsTo_iff.mpr ⟨hocc, hslot⟩
      have hone : (s.slots m).refcount ≠ 1 := fun h => hk (hs.only_pointer hp h hk')
      rw [releaseEntry_slots_shared hs hp hone]
      exact ⟨rfl, rfl⟩
    · rw [releaseEntry_slots_of_ne hs hp hm]
      exact ⟨rfl, rfl⟩
  · by_cases hm : m = i
    · subst hm
      by_cases hone : (s.slots m).refcount = 1
      · rw [releaseEntry_slots_last hs hp hone]
        exact .inr ⟨rfl, rfl⟩
      · rw [releaseEntry_slots_shared hs hp hone]
        exact .inl ⟨rfl, rfl⟩
    · rw [releaseEntry_slots_of_ne hs hp hm]
      exact .inl ⟨rfl, rfl⟩
  · have hm : m ≠ i := by
      rintro rfl
      have := hs.value_of_pointsTo hp
      rw [hv] at this
      exact absurd this (by simp)
    exact releaseEntry_slots_of_ne hs hp hm

theorem Inv.releaseEntry_last (hone : (s.slots i).refcount = 1) : (s.releaseEntry j).1.Inv := by
  generalize hs' : (s.releaseEntry j).1 = s'
  have hmap : ∀ m, m ≠ j → s'.map m = s.map m := fun m hm =>
    hs' ▸ releaseEntry_map_of_ne s hm
  have hj : (s'.map j).occupied = false := hs' ▸ releaseEntry_occupied s j
  have hslot : s'.slots i =
      { value := none, generation := (s.slots i).generation + 1, refcount := 0 } :=
    hs' ▸ releaseEntry_slots_last hs hp hone
  have hnone : ∀ m, (s'.map m).occupied = true → (s'.map m).slot.toNat ≠ i := by
    intro m hm hmi
    have hmj : m ≠ j := by
      rintro rfl
      exact absurd (hm.symm.trans hj) (by simp)
    rw [hmap m hmj] at hm hmi
    exact hmj (hs.only_pointer hp hone (hs.pointsTo_iff.mpr ⟨hm, hmi⟩))
  have hempty : s'.pointers i = ∅ := by
    ext m
    rw [mem_pointers]
    exact iff_of_false (fun h => hnone m h.1 h.2.1) (notMem_empty m)
  refine hs.of_local hmap (fun k hk => hs' ▸ releaseEntry_slots_of_ne hs hp hk)
    (fun _ => hp.2.1) (fun h => absurd (h.symm.trans hj) (by simp)) ?_ ?_
    (fun m hm hmi => absurd hmi (hnone m hm))
  · rw [hempty, hslot, card_empty]
  · simp [hslot]

theorem Inv.releaseEntry_shared (hone : (s.slots i).refcount ≠ 1) : (s.releaseEntry j).1.Inv := by
  generalize hs' : (s.releaseEntry j).1 = s'
  have hmap : ∀ m, m ≠ j → s'.map m = s.map m := fun m hm =>
    hs' ▸ releaseEntry_map_of_ne s hm
  have hj : (s'.map j).occupied = false := hs' ▸ releaseEntry_occupied s j
  have hslot : s'.slots i = { (s.slots i) with refcount := (s.slots i).refcount - 1 } :=
    hs' ▸ releaseEntry_slots_shared hs hp hone
  have hold : ∀ m, m ≠ j → (s'.PointsTo i m ↔ s.PointsTo i m) := fun m hm =>
    pointsTo_congr (hmap m hm) (by rw [hslot])
  have herase : s'.pointers i = (s.pointers i).erase j := by
    ext m
    rw [mem_erase, mem_pointers, mem_pointers]
    by_cases hm : m = j
    · grind [PointsTo]
    · rw [hold m hm, and_iff_right hm]
  refine hs.of_local hmap (fun k hk => hs' ▸ releaseEntry_slots_of_ne hs hp hk)
    (fun _ => hp.2.1) (fun h => absurd (h.symm.trans hj) (by simp)) ?_ ?_ (fun m hm hmi => ?_)
  · rw [herase, card_erase_of_mem (mem_pointers.mpr hp), hslot, ← hs.refcount]
  · have hpos := hs.refcount_pos hp
    rw [hslot]
    exact iff_of_true (hs.value_of_pointsTo hp) (by simp only; omega)
  · have hmj : m ≠ j := by
      rintro rfl
      exact absurd (hm.symm.trans hj) (by simp)
    rw [hmap m hmj] at hm hmi
    exact (hold m hmj).mpr (hs.pointsTo_iff.mpr ⟨hm, hmi⟩)

theorem Inv.releaseEntry : (s.releaseEntry j).1.Inv := by
  by_cases hone : (s.slots i).refcount = 1
  · exact hs.releaseEntry_last hp hone
  · exact hs.releaseEntry_shared hp hone

end

end One

/-! ## Loops -/

section Loop

variable {s : Arena T N} {test : Arena T N → Fin N → Bool} {P : Fin N → Prop}

theorem releaseLoop_cons (s : Arena T N) (a : Fin N) (l : List (Fin N)) :
    releaseLoop test s (a :: l) =
      releaseLoop test (if test s a then (s.releaseEntry a).1 else s) l := by
  simp only [releaseLoop, foldl_cons]

/-- A release loop over distinct indices releases the entries its guard selects.
The guard may read state the loop itself changes, as long as it decides `P` in
every invariant state that still has the entry as it was at the start. -/
theorem releaseLoop_spec (l : List (Fin N)) : ∀ {s : Arena T N}, s.Inv → l.Nodup →
    (∀ j ∈ l, P j → (s.map j).occupied = true) →
    (∀ j ∈ l, ∀ s' : Arena T N, s'.Inv → s'.map j = s.map j → (test s' j = true ↔ P j)) →
      (releaseLoop test s l).Inv ∧ Released (fun j => j ∈ l ∧ P j) s (releaseLoop test s l) := by
  induction l with
  | nil =>
    intro s hs _ _ _
    exact ⟨hs, (Released.refl s).congr fun j => by simp⟩
  | cons a l ih =>
    intro s hs hnodup hocc htest
    obtain ⟨hal, hnodup⟩ := nodup_cons.mp hnodup
    have hta := htest a mem_cons_self s hs rfl
    rw [releaseLoop_cons]
    by_cases hPa : P a
    · obtain ⟨i, hp, -⟩ := hs.entry a (hocc a mem_cons_self hPa)
      have hrel := releaseEntry_released hs hp
      -- The rest of the list is as it was: `a` does not come again.
      have hkept : ∀ j ∈ l, (s.releaseEntry a).1.map j = s.map j := fun j hj =>
        hrel.kept j (ne_of_mem_of_not_mem hj hal)
      rw [if_pos (hta.mpr hPa)]
      obtain ⟨hinv, hout⟩ := ih (hs.releaseEntry hp) hnodup (fun j hj hP => by
          rw [hkept j hj]
          exact hocc j (mem_cons_of_mem a hj) hP)
        (fun j hj s' hs' hmap =>
          htest j (mem_cons_of_mem a hj) s' hs' (hmap.trans (hkept j hj)))
      refine ⟨hinv, (hrel.trans hout fun j hj => ne_of_mem_of_not_mem hj.1 hal).congr fun j => ?_⟩
      grind
    · rw [if_neg (fun h => hPa (hta.mp h))]
      obtain ⟨hinv, hout⟩ := ih hs hnodup
        (fun j hj => hocc j (mem_cons_of_mem a hj))
        (fun j hj => htest j (mem_cons_of_mem a hj))
      refine ⟨hinv, hout.congr fun j => ?_⟩
      grind

theorem ownedBy_iff (t : UInt16) (s' : Arena T N) (j : Fin N) (h : s'.map j = s.map j) :
    ownedBy t s' j = true ↔ (s.map j).occupied = true ∧ (s.map j).owner = t := by
  simp only [ownedBy, h, Bool.and_eq_true, beq_iff_eq]

/-- The generation in the guard of pass 2 is the one it started with for as long
as an entry of the victim is left. -/
theorem pointsAt_iff (hs : s.Inv) (victim : Fin N) {s' : Arena T N} (hs' : s'.Inv) (j : Fin N)
    (h : s'.map j = s.map j) : pointsAt victim s' j = true ↔ s.PointsTo victim j := by
  have hbool : pointsAt victim s' j = true ↔ s'.PointsTo victim j := by
    simp only [pointsAt, PointsTo, Bool.and_eq_true, beq_iff_eq, s'.slot_eq_ofNat_iff, and_assoc]
  rw [hbool, hs'.pointsTo_iff, hs.pointsTo_iff, h]

theorem removeLoop_spec (hs : s.Inv) (t : UInt16) (l : List (Fin N)) (hl : l.Nodup) :
    (releaseLoop (ownedBy t) s l).Inv ∧
      Released (fun j => j ∈ l ∧ (s.map j).occupied = true ∧ (s.map j).owner = t) s
        (releaseLoop (ownedBy t) s l) :=
  releaseLoop_spec l hs hl (fun _ _ h => h.1) (fun j _ s' _ h => ownedBy_iff t s' j h)

/-- The second pass of `evict_slot`, also when cut short. -/
theorem evictLoop_spec (hs : s.Inv) (victim : Fin N) (l : List (Fin N)) (hl : l.Nodup) :
    (releaseLoop (pointsAt victim) s l).Inv ∧
      Released (fun j => j ∈ l ∧ s.PointsTo victim j) s (releaseLoop (pointsAt victim) s l) :=
  releaseLoop_spec l hs hl (fun _ _ h => h.1) (fun j _ _ hs' h => pointsAt_iff hs victim hs' j h)

theorem removeByOwner_inv (hs : s.Inv) (t : UInt16) : (s.removeByOwner t).Inv :=
  (removeLoop_spec hs t _ (nodup_finRange N)).1

theorem removeByOwner_released (hs : s.Inv) (t : UInt16) :
    Released (fun j => (s.map j).occupied = true ∧ (s.map j).owner = t) s (s.removeByOwner t) :=
  (removeLoop_spec hs t _ (nodup_finRange N)).2.congr fun j => by
    simp

end Loop

end Rcard.Arena
