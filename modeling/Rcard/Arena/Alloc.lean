/-
What `alloc` may take from others, and what a failure leaves behind.

Slots and map entries fill up independently, because a clone takes an entry and
no slot.  `alloc` evicts before it looks for a free entry, and still a failed
call changes nothing: an eviction frees at least one entry, so only a call that
evicted nothing can run out of entries.
-/
import Rcard.Arena.Run

namespace Rcard.Arena

variable {T : Type} {N : Nat} {s : Arena T N}

def IsMaxPriority (s : Arena T N) (i : Fin N) (m : Int8) : Prop :=
  (∃ j, s.PointsTo i j ∧ (s.map j).priority = m) ∧ ∀ j, s.PointsTo i j → (s.map j).priority ≤ m

theorem isMaxPriority_iff (hs : s.Inv) {i : Fin N} (hv : (s.slots i).value.isSome = true)
    (m : Int8) : s.IsMaxPriority i m ↔ m = s.maxPriority i := by
  have hlt := fun p => maxPriority_lt_iff (p := p) hs hv
  have hle : ∀ j, s.PointsTo i j → (s.map j).priority ≤ s.maxPriority i := by
    intro j hj
    by_contra hcon
    exact Int8.lt_irrefl ((hlt _).mp (Int8.not_le.mp hcon) j hj)
  have hattained : ∃ j, s.PointsTo i j ∧ (s.map j).priority = s.maxPriority i := by
    by_contra hcon
    refine Int8.lt_irrefl ((hlt (s.maxPriority i)).mpr fun j hj => ?_)
    exact Int8.lt_of_le_of_ne (hle j hj) fun h => hcon ⟨j, hj, h⟩
  grind [IsMaxPriority]

/-- Slot `i` goes before slot `k`: fewer references, or as many and a maximum
priority that is no higher. -/
def EvictedBefore (s : Arena T N) (i k : Fin N) : Prop :=
  (s.slots i).refcount < (s.slots k).refcount ∨
    ((s.slots i).refcount = (s.slots k).refcount ∧
      ∀ m m', s.IsMaxPriority i m → s.IsMaxPriority k m' → m ≤ m')

structure IsVictim (s : Arena T N) (p : Int8) (i : Fin N) : Prop where
  evictable : s.Evictable p i
  first : ∀ k, s.Evictable p k → s.EvictedBefore i k

theorem evictVictim_isVictim (hs : s.Inv) {p : Int8} {i : Fin N}
    (h : s.evictVictim p = some i) : s.IsVictim p i := by
  obtain ⟨hev, hmin⟩ := evictVictim_some hs h
  refine ⟨hev, fun k hk => ?_⟩
  rcases hmin k hk with hlt | ⟨heq, htie⟩
  · exact .inl hlt
  · refine .inr ⟨heq, fun m m' hm hm' => ?_⟩
    rw [(isMaxPriority_iff hs hev.1 m).mp hm, (isMaxPriority_iff hs hk.1 m').mp hm']
    exact htie

/-- Entry `j` was live and is gone or changed afterwards. -/
def Lost (s s' : Arena T N) (j : Fin N) : Prop :=
  (s.map j).occupied = true ∧ s'.map j ≠ s.map j

theorem not_lost_allocAt {i j k : Fin N} (hfree : (s.map j).occupied = false) (value : T)
    (owner : UInt16) (p : Int8) : ¬ Lost s (s.allocAt i j value owner p) k := by
  rintro ⟨hocc, hne⟩
  refine hne (allocAt_map_of_ne ?_ value owner p)
  rintro rfl
  rw [hfree] at hocc
  exact Bool.false_ne_true hocc

theorem lost_evicted {s₁ : Arena T N} {i j : Fin N}
    (hrel : Released (s.PointsTo i) s s₁) (hfree : (s₁.slots i).value = none)
    (hv : (s.slots i).value.isSome = true) (hentry : (s₁.map j).occupied = false)
    (value : T) (owner : UInt16) (p : Int8) (k : Fin N) :
    Lost s (s₁.allocAt i j value owner p) k ↔ s.PointsTo i k := by
  constructor
  · rintro ⟨hocc, hne⟩
    by_contra hk
    refine hne ?_
    rw [← hrel.kept k hk]
    refine allocAt_map_of_ne ?_ value owner p
    rintro rfl
    rw [hrel.kept k hk, hocc] at hentry
    exact absurd hentry (by simp)
  · intro hk
    refine ⟨hk.1, fun heq => ?_⟩
    by_cases hkj : k = j
    · subst hkj
      -- The new entry carries the next generation of the slot.
      rw [allocAt_map_self] at heq
      have hgen := congrArg HandleEntry.generation heq
      rcases hrel.slot_cases i with hsame | hdrop
      · rw [← hsame.1, hfree] at hv
        exact absurd hv (by simp)
      · have : (s.slots i).generation + 1 = (s.slots i).generation := by
          rw [← hdrop.2, ← hk.2.2]
          exact hgen
        exact absurd this (by simp)
    · rw [allocAt_map_of_ne hkj, hrel.cleared k hk] at heq
      have hocc := congrArg HandleEntry.occupied heq
      rw [hk.1] at hocc
      exact absurd hocc (by simp [HandleEntry.cleared])

/-- In every state the arena passes through: `alloc` takes an entry away only
when every slot is full, and then exactly the entries of one slot, which are all
below the requester's priority, and of a slot that goes first among those it may
take.  A call that evicts succeeds.  A failed `alloc` or `clone_handle` returns
the arena as it was. -/
theorem alloc_sound (h : Visited s) (value : T) (owner : UInt16) (p : Int8) :
    ((∃ j, Lost s (s.alloc value owner p).1 j) →
      (∀ i, (s.slots i).value.isSome = true) ∧
      ∃ i, s.IsVictim p i ∧ (∀ j, s.PointsTo i j → (s.map j).priority < p) ∧
        ∀ j, Lost s (s.alloc value owner p).1 j ↔ s.PointsTo i j) ∧
    (∀ s₁ i, s.freeSlot = none → s.evictSlot p = some (s₁, i) →
      (s.alloc value owner p).2 = .ok s.nextKey) ∧
    (∀ e, (s.alloc value owner p).2 = .error e → (s.alloc value owner p).1 = s) ∧
    (∀ handle holder newOwner e, (s.cloneHandle handle holder newOwner p).2 = .error e →
      (s.cloneHandle handle holder newOwner p).1 = s) := by
  have hs := h.inv
  have hcase := alloc_cases hs value owner p
  generalize s.alloc value owner p = r at hcase
  have hunchanged : ∀ k, ¬ Lost s s k := fun k hk => hk.2 rfl
  refine ⟨?_, ?_, ?_, ?_⟩
  · rintro ⟨j, hj⟩
    cases hcase with
    | noFreeSlot | noFreeEntry => exact absurd hj (hunchanged j)
    | placed hslot hentry =>
      exact absurd hj (not_lost_allocAt (freeEntry_some hentry) value owner p)
    | evicted hfull hvictim hinv hrel hfree hentry =>
      have hvic := evictVictim_isVictim hs hvictim
      exact ⟨hfull, _, hvic, hvic.evictable.2, lost_evicted hrel hfree (hfull _)
        (freeEntry_some hentry) value owner p⟩
  · intro s₁ i hnone hevict
    cases hcase with
    | noFreeSlot hfull hvictim => simp [evictSlot, hvictim] at hevict
    | @noFreeEntry i' hfree hentries =>
      have hsome := freeSlot_none hnone i'
      rw [hfree] at hsome
      exact absurd hsome (by simp)
    | placed hslot hentry => simp [hnone] at hslot
    | evicted => rfl
  · intro e he
    cases hcase with
    | noFreeSlot => rfl
    | noFreeEntry => rfl
    | placed => exact absurd he (by simp)
    | evicted => exact absurd he (by simp)
  · intro handle holder newOwner e he
    have hclone := cloneHandle_cases hs handle holder newOwner p
    generalize s.cloneHandle handle holder newOwner p = c at hclone he
    cases hclone with
    | invalidHandle => rfl
    | arenaFull => rfl
    | placed => exact absurd he (by simp)
    | evicted => exact absurd he (by simp)

/-- A full one-slot arena gives way to a higher priority and to no other. -/
theorem alloc_sound_full :
    let s : Arena Nat 1 := (new 0 (by decide)).run [.alloc 10 1 0]
    (s.alloc 11 2 1).2 = .ok s.nextKey ∧ Lost s (s.alloc 11 2 1).1 0 ∧ (s.alloc 11 2 0).1 = s := by
  intro s
  have h : Visited s := Visited.run (Visited.new 0 (by decide)) [.alloc 10 1 0]
  have hhigh := alloc_sound h 11 2 1
  have hlow := alloc_sound h 11 2 0
  have hlost : Lost s (s.alloc 11 2 1).1 0 := ⟨by decide, by decide⟩
  refine ⟨?_, hlost, hlow.2.2.1 .noFreeSlot (by decide)⟩
  exact hhigh.2.1 _ 0 (by decide) rfl

end Rcard.Arena
