/-
Searches over the indices of a fixed-size table.

`firstIdx` is the first index satisfying a test, the result of a linear scan.
`best` is the result of a scan that keeps one candidate and replaces it when a
later one is strictly better.  What a caller needs of either is stated here
once: where the answer comes from, and what every index it passed over failed.
-/
import Mathlib.Data.List.FinRange

namespace Rcard.Select

open List Bool

/-! ## First match -/

section First

variable {n : Nat} {p q : Fin n → Bool}

def firstIdx (p : Fin n → Bool) : Option (Fin n) :=
  (List.finRange n).find? p

theorem firstIdx_some {i : Fin n} (h : firstIdx p = some i) : p i = true :=
  find?_some h

theorem firstIdx_eq_none : firstIdx p = none ↔ ∀ i, p i = false := by
  grind [firstIdx]

theorem exists_firstIdx {i : Fin n} (hi : p i = true) : ∃ j, firstIdx p = some j := by
  cases h : firstIdx p with
  | some j => exact ⟨j, rfl⟩
  | none =>
    rw [firstIdx_eq_none.mp h i] at hi
    exact absurd hi false_ne_true

theorem firstIdx_eq_some_of_unique {i : Fin n} (hi : p i = true)
    (huniq : ∀ j, p j = true → j = i) : firstIdx p = some i := by
  obtain ⟨j, hj⟩ := exists_firstIdx hi
  rw [hj, huniq j (firstIdx_some hj)]

theorem firstIdx_zero {p : Fin (n + 1) → Bool} (h : p 0 = true) : firstIdx p = some 0 := by
  rw [firstIdx, finRange_succ, find?_cons_of_pos h]

end First

/-! ## Best candidate -/

section Best

variable {α β : Type}

/-- One iteration of the scan.  A candidate without a score is skipped, and the
current candidate stays unless the new score is strictly better. -/
def bestStep (lt : β → β → Bool) (score : α → Option β)
    (current : Option (α × β)) (a : α) : Option (α × β) :=
  match score a with
  | none => current
  | some b =>
    match current with
    | none => some (a, b)
    | some (_, b₀) => if lt b b₀ then some (a, b) else current

def best (lt : β → β → Bool) (score : α → Option β) (l : List α) : Option (α × β) :=
  l.foldl (bestStep lt score) none

/-- What the scan knows of the part of the table it has seen. -/
def BestOf (lt : β → β → Bool) (score : α → Option β) (seen : List α) :
    Option (α × β) → Prop
  | none => ∀ a ∈ seen, score a = none
  | some (a, b) => a ∈ seen ∧ score a = some b ∧
      ∀ a' ∈ seen, ∀ b', score a' = some b' → lt b' b = false

variable {lt : β → β → Bool} {score : α → Option β}

variable (htrans : ∀ x y z, lt x y = true → lt y z = true → lt x z = true)
include htrans

variable (hirr : ∀ x, lt x x = false)
include hirr

theorem bestStep_bestOf {seen : List α} {current : Option (α × β)}
    (h : BestOf lt score seen current) (a : α) :
    BestOf lt score (seen ++ [a]) (bestStep lt score current a) := by
  have hsnoc : ∀ {p : α → Prop}, (∀ x ∈ seen, p x) → p a → ∀ x ∈ seen ++ [a], p x :=
    fun hseen ha => forall_mem_append.mpr ⟨hseen, forall_mem_singleton.mpr ha⟩
  have hself : ∀ b, score a = some b → ∀ b', score a = some b' → lt b' b = false := by grind
  cases hs : score a with
  | none =>
    simp only [bestStep, hs]
    cases current with
    | none => exact hsnoc h hs
    | some c =>
      grind [BestOf]
  | some b =>
    simp only [bestStep, hs]
    cases current with
    | none =>
      refine ⟨mem_append_right _ mem_cons_self, hs, hsnoc (fun x hx b' hb' => ?_) (hself b hs)⟩
      rw [h x hx] at hb'
      exact absurd hb' (by simp)
    | some c =>
      obtain ⟨a₀, b₀⟩ := c
      obtain ⟨ha, hb, hmin⟩ := h
      by_cases hlt : lt b b₀ = true
      · simp only [hlt]
        refine ⟨mem_append_right _ mem_cons_self, hs, hsnoc (fun x hx b' hb' => ?_) (hself b hs)⟩
        -- A score below the new one would be below the old one too.
        by_contra hcon
        have hlt' := htrans b' b b₀ (not_eq_false _ ▸ hcon) hlt
        rw [hmin x hx b' hb'] at hlt'
        exact false_ne_true hlt'
      · simp only [hlt]
        refine ⟨mem_append_left _ ha, hb, hsnoc hmin fun b' hb' => ?_⟩
        rw [hs, Option.some.injEq] at hb'
        rw [← hb']
        exact eq_false_iff.mpr hlt

theorem best_bestOf (l : List α) : BestOf lt score l (best lt score l) := by
  have hfold : ∀ (rest seen : List α) (current : Option (α × β)),
      BestOf lt score seen current →
        BestOf lt score (seen ++ rest) (rest.foldl (bestStep lt score) current) := by
    intro rest
    induction rest with
    | nil =>
      intro seen current h
      rw [append_nil]
      exact h
    | cons a rest ih =>
      intro seen current h
      rw [append_cons]
      exact ih _ _ (bestStep_bestOf htrans hirr h a)
  exact hfold l [] none (fun a ha => absurd ha (not_mem_nil))

theorem best_some {l : List α} {a : α} {b : β} (h : best lt score l = some (a, b)) :
    a ∈ l ∧ score a = some b ∧ ∀ a' ∈ l, ∀ b', score a' = some b' → lt b' b = false := by
  have hb : BestOf lt score l (best lt score l) := best_bestOf htrans hirr l
  rw [h] at hb
  exact hb

end Best

end Rcard.Select
