/-
Choosing what to evict.

`evict_slot` may take a slot when all of its entries have a priority strictly
below the requester's, and takes one with the lowest refcount, then the lowest
maximum priority.  `find_eviction_victim` takes a single entry of the lowest
priority below the requester's, outside the slot being cloned.
-/
import Rcard.Arena.Release

namespace Rcard.Arena

open List Option

open Select

variable {T : Type} {N : Nat}

/-! ## The maximum priority of a slot -/

section Maximum

variable {α : Type} (test : α → Bool) (f : α → Int8)

def maxFold (l : List α) (m : Int8) : Int8 :=
  l.foldl (fun m a => if test a && decide (m < f a) then f a else m) m

theorem maxFold_lt_iff (l : List α) (m p : Int8) :
    maxFold test f l m < p ↔ m < p ∧ ∀ a ∈ l, test a = true → f a < p := by
  induction l generalizing m with
  | nil => simp [maxFold]
  | cons a l ih =>
    have hstep : maxFold test f (a :: l) m =
        maxFold test f l (if test a && decide (m < f a) then f a else m) := rfl
    rw [hstep, ih]
    by_cases ht : test a = true
    · by_cases hlt : m < f a
      · simp only [ht, hlt, mem_cons, forall_eq_or_imp, forall_const]
        constructor
        · exact fun h => ⟨Int8.lt_trans hlt h.1, h⟩
        · exact fun h => h.2
      · simp only [ht, hlt, mem_cons, forall_eq_or_imp, forall_const]
        constructor
        · exact fun h => ⟨h.1, Int8.lt_of_le_of_lt (Int8.not_lt.mp hlt) h.1, h.2⟩
        · exact fun h => ⟨h.1, h.2.2⟩
    · simp only [ht, Bool.false_and, Bool.false_eq_true, if_false, mem_cons, forall_eq_or_imp,
        false_implies, true_and]

end Maximum

section Slot

variable {s : Arena T N} {p : Int8}

theorem maxPriority_eq (s : Arena T N) (i : Fin N) :
    s.maxPriority i =
      maxFold (fun j => pointsAt i s j) (fun j => (s.map j).priority) (finRange N)
        Int8.minValue := rfl

theorem pointsAt_self (hs : s.Inv) (i j : Fin N) :
    pointsAt i s j = true ↔ s.PointsTo i j := pointsAt_iff hs i hs j rfl

def Evictable (s : Arena T N) (p : Int8) (i : Fin N) : Prop :=
  (s.slots i).value.isSome = true ∧ ∀ j, s.PointsTo i j → (s.map j).priority < p

theorem maxPriority_lt_iff (hs : s.Inv) {i : Fin N} (hv : (s.slots i).value.isSome = true) :
    s.maxPriority i < p ↔ ∀ j, s.PointsTo i j → (s.map j).priority < p := by
  rw [maxPriority_eq, maxFold_lt_iff]
  constructor
  · intro h j hj
    exact h.2 j (mem_finRange j) ((pointsAt_self hs i j).mpr hj)
  · intro h
    -- A slot with a value has an entry, which bounds `p` from below.
    have hcard : 0 < (s.pointers i).card := by
      rw [← hs.refcount]
      exact (hs.value_iff i).mp hv
    obtain ⟨j, hj⟩ := Finset.card_pos.mp hcard
    refine ⟨Int8.lt_of_le_of_lt (Int8.minValue_le _) (h j (mem_pointers.mp hj)), ?_⟩
    intro j _ hj
    exact h j ((pointsAt_self hs i j).mp hj)

theorem evictScore_eq_some (hs : s.Inv) {i : Fin N} {b : Int8 × Nat} :
    s.evictScore p i = some b ↔ s.Evictable p i ∧ b = (s.maxPriority i, (s.slots i).refcount) := by
  unfold evictScore Evictable
  by_cases hv : (s.slots i).value.isSome = true
  · have hsome : ¬ (s.slots i).value.isNone = true := by
      rw [isNone_iff_eq_none]
      exact isSome_iff_ne_none.mp hv
    rw [← maxPriority_lt_iff hs hv]
    grind
  · rw [if_pos (by simpa using hv)]
    exact iff_of_false (by simp) (fun h => hv h.1.1)

theorem dominated_iff (a b : Int8 × Nat) :
    dominated a b = true ↔ a.2 < b.2 ∨ (a.2 = b.2 ∧ a.1 < b.1) := by
  simp only [dominated, Bool.or_eq_true, decide_eq_true_eq, Bool.and_eq_true, beq_iff_eq]

theorem dominated_trans (a b c : Int8 × Nat) (hab : dominated a b = true)
    (hbc : dominated b c = true) : dominated a c = true := by
  grind [dominated]

theorem dominated_irrefl (a : Int8 × Nat) : dominated a a = false := by
  grind [dominated]

/-- The victim is evictable, and no evictable slot has a lower refcount or an
equal one with a lower maximum priority. -/
theorem evictVictim_some (hs : s.Inv) {i : Fin N} (h : s.evictVictim p = some i) :
    s.Evictable p i ∧ ∀ k, s.Evictable p k →
      (s.slots i).refcount < (s.slots k).refcount ∨
        ((s.slots i).refcount = (s.slots k).refcount ∧ s.maxPriority i ≤ s.maxPriority k) := by
  rw [evictVictim, map_eq_some_iff] at h
  obtain ⟨⟨i', b⟩, hbest, rfl⟩ := h
  obtain ⟨-, hscore, hmin⟩ := best_some dominated_trans dominated_irrefl hbest
  obtain ⟨hev, rfl⟩ := (evictScore_eq_some hs).mp hscore
  refine ⟨hev, fun k hk => ?_⟩
  have hk' := hmin k (mem_finRange k) _ ((evictScore_eq_some hs).mpr ⟨hk, rfl⟩)
  rw [Bool.eq_false_iff, Ne, dominated_iff, not_or, not_and] at hk'
  grind

theorem evictSlot_some (hs : s.Inv) {s₁ : Arena T N} {i : Fin N}
    (h : s.evictSlot p = some (s₁, i)) :
    s.evictVictim p = some i ∧ s₁.Inv ∧ Released (s.PointsTo i) s s₁ ∧
      (s₁.slots i).value = none := by
  rw [evictSlot, map_eq_some_iff] at h
  obtain ⟨i', hvictim, heq⟩ := h
  obtain ⟨rfl, rfl⟩ := Prod.mk.inj heq
  obtain ⟨hinv, hrel⟩ := evictLoop_spec hs i' _ (nodup_finRange N)
  have hrel' : Released (s.PointsTo i') s (releaseLoop (pointsAt i') s (finRange N)) :=
    hrel.congr fun j => by simp
  refine ⟨hvictim, hinv, hrel', ?_⟩
  by_contra hv
  have hsome : ((releaseLoop (pointsAt i') s (finRange N)).slots i').value.isSome = true :=
    isSome_iff_ne_none.mpr hv
  have hcard : 0 < ((releaseLoop (pointsAt i') s (finRange N)).pointers i').card := by
    rw [← hinv.refcount]
    exact (hinv.value_iff i').mp hsome
  obtain ⟨j, hj⟩ := Finset.card_pos.mp hcard
  have hpj := mem_pointers.mp hj
  by_cases hold : s.PointsTo i' j
  · have := hpj.1
    rw [hrel'.cleared j hold] at this
    exact absurd this (by simp [HandleEntry.cleared])
  · rw [hinv.pointsTo_iff, hrel'.kept j hold] at hpj
    exact hold (hs.pointsTo_iff.mpr hpj)

end Slot

/-! ## The victim of a clone -/

section Clone

variable {s : Arena T N} {p : Int8} {x : UInt8 × UInt32}

/-- An entry a clone may replace: below the requester's priority and outside
the cloned slot. -/
def Replaceable (s : Arena T N) (p : Int8) (x : UInt8 × UInt32) (j : Fin N) : Prop :=
  (s.map j).occupied = true ∧ ¬ ((s.map j).slot = x.1 ∧ (s.map j).generation = x.2) ∧
    (s.map j).priority < p

theorem victimScore_eq_some {j : Fin N} {b : Int8} :
    s.victimScore p (some x) j = some b ↔ s.Replaceable p x j ∧ b = (s.map j).priority := by
  grind [victimScore, Replaceable]

theorem findEvictionVictim_some {j : Fin N} (h : s.findEvictionVictim p (some x) = some j) :
    s.Replaceable p x j ∧ ∀ k, s.Replaceable p x k → (s.map j).priority ≤ (s.map k).priority := by
  rw [findEvictionVictim, map_eq_some_iff] at h
  obtain ⟨⟨j', b⟩, hbest, rfl⟩ := h
  obtain ⟨-, hscore, hmin⟩ := best_some (fun a b c hab hbc => by
      rw [decide_eq_true_eq] at *
      exact Int8.lt_trans hab hbc)
    (fun a => by simp) hbest
  obtain ⟨hrep, rfl⟩ := victimScore_eq_some.mp hscore
  refine ⟨hrep, fun k hk => ?_⟩
  have hk' := hmin k (mem_finRange k) _ (victimScore_eq_some.mpr ⟨hk, rfl⟩)
  rw [decide_eq_false_iff_not, Int8.not_lt] at hk'
  exact hk'

end Clone

end Rcard.Arena
