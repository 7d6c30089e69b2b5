/-
Runs without end.

Time is a natural number and a property of a run is a property of times.  What holds now and
not later changes at some step.  What cannot hold on without some rank going down ends.
-/
import Mathlib.Data.Nat.Init

namespace Rcard.Temporal

variable {p : Nat → Prop} {n m : Nat}

theorem exists_change (hnm : n ≤ m) (hn : p n) (hm : ¬ p m) :
    ∃ k, n ≤ k ∧ k < m ∧ p k ∧ ¬ p (k + 1) := by
  induction m, hnm using Nat.le_induction with
  | base => exact absurd hn hm
  | succ m hle ih =>
    grind

theorem ends_of_rank (rank : Nat → Nat)
    (h : ∀ n, p n → ∃ m, n ≤ m ∧ (p m → rank m < rank n)) (n : Nat) : ∃ m, n ≤ m ∧ ¬ p m := by
  generalize hr : rank n = r
  induction r using Nat.strongRecOn generalizing n with
  | ind r ih =>
    by_cases hn : p n
    · grind
    · exact ⟨n, Nat.le_refl n, hn⟩

end Rcard.Temporal
