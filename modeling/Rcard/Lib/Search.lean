/-
Binary search (`slice::binary_search_by`).

`binarySearchBy_spec` is what it promises for a list in the order of the comparison: an element
that compares equal, any one of them, or none because there is none.
-/
import Mathlib.Init

namespace Rcard

open List

variable {α : Type} (cmp : α → Ordering) (xs : List α)

/-- The first place of a range that halves until one place is left. -/
def narrow (cmp : Nat → Ordering) (base size : Nat) : Nat :=
  if size ≤ 1 then base
  else
    let half := size / 2
    narrow cmp (if cmp (base + half) = .gt then base else base + half) (size - half)
termination_by size

def binarySearchBy : Option Nat :=
  let at? (i : Nat) : Ordering := (xs[i]?).elim .gt cmp
  let i := narrow at? 0 xs.length
  if at? i = .eq then some i else none

/-- First what is less, then what is equal, then what is greater. -/
def SearchSorted : Prop :=
  xs.Pairwise fun a b => (cmp b ≠ .gt → cmp a ≠ .gt) ∧ (cmp a ≠ .lt → cmp b ≠ .lt)

/-- A place in the range that compares equal is not lost. -/
theorem narrow_eq {cmp : Nat → Ordering} {base size : Nat}
    (hsorted : ∀ i j, i < j → j < base + size →
      (cmp j ≠ .gt → cmp i ≠ .gt) ∧ (cmp i ≠ .lt → cmp j ≠ .lt))
    {k : Nat} (hlow : base ≤ k) (hhigh : k < base + size) (hk : cmp k = .eq) :
    cmp (narrow cmp base size) = .eq := by
  rw [narrow]
  split
  · have hone : k = base := by omega
    rwa [← hone]
  dsimp only
  have hsub (b s : Nat) (hle : b + s ≤ base + size) := fun i j hij (hj : j < b + s) =>
    hsorted i j hij (Nat.lt_of_lt_of_le hj hle)
  split
  · have hbefore : k < base + size / 2 := by
      have := hsorted (base + size / 2) k
      grind
    exact narrow_eq (hsub _ _ (by omega)) hlow (by omega) hk
  rename_i hmid
  by_cases hbefore : k < base + size / 2
  · -- The middle is between two that are not less and not greater.
    have hnot := (hsorted k (base + size / 2) hbefore (by omega)).2 (by rw [hk]; decide)
    have heq : cmp (base + size / 2) = .eq := by
      cases hm : cmp (base + size / 2) with
      | lt => exact absurd hm hnot
      | eq => rfl
      | gt => exact absurd hm hmid
    exact narrow_eq (hsub _ _ (by omega)) (Nat.le_refl _) (by omega) heq
  · exact narrow_eq (hsub _ _ (by omega)) (Nat.not_lt.mp hbefore) (by omega) hk
termination_by size

variable {cmp xs}

theorem binarySearchBy_spec (h : SearchSorted cmp xs) :
    match binarySearchBy cmp xs with
    | some i => ∃ before x after, xs = before ++ x :: after ∧ before.length = i ∧ cmp x = .eq
    | none => ∀ x ∈ xs, cmp x ≠ .eq := by
  rw [binarySearchBy]
  dsimp only
  generalize hi : narrow (fun i => (xs[i]?).elim .gt cmp) 0 xs.length = i
  split
  · rename_i j hfound
    obtain ⟨heq, hj⟩ := Option.ite_none_right_eq_some.mp hfound
    cases hj
    cases hx : xs[i]? with
    | none =>
      rw [hx] at heq
      cases heq
    | some x =>
      rw [hx] at heq
      obtain ⟨hlt, rfl⟩ := List.getElem?_eq_some_iff.mp hx
      exact ⟨xs.take i, xs[i], xs.drop (i + 1), by simp, by simp; omega, heq⟩
  · rename_i hnone
    intro x hx heq
    obtain ⟨k, hk, rfl⟩ := mem_iff_getElem.mp hx
    have hsorted := pairwise_iff_getElem.mp h
    have hthere : ((xs[i]?).elim .gt cmp : Ordering) = .eq := by
      rw [← hi]
      refine @narrow_eq (fun i => (xs[i]?).elim .gt cmp) 0 xs.length (fun i j hij hj => ?_) k
        (Nat.zero_le k) (by omega) ?_
      · have hlt : j < xs.length := by omega
        simpa [hlt, Nat.lt_trans hij hlt] using hsorted i j (Nat.lt_trans hij hlt) hlt hij
      · simpa [hk] using heq
    rw [if_pos hthere] at hnone
    cases hnone

end Rcard
