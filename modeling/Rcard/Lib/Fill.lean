/-
Arrays that are filled one element after the other.
-/
import Mathlib.Data.List.Basic

namespace Rcard.Fill

open List

variable {α : Type} {z : α} {n : Nat}

theorem set_replicate (done : List α) (v : α) (h : done.length < n) :
    (done ++ replicate (n - done.length) z).set done.length v =
      (done ++ [v]) ++ replicate (n - (done ++ [v]).length) z := by
  have hrest : replicate (n - done.length) z = z :: replicate (n - (done ++ [v]).length) z := by
    rw [← replicate_succ, length_append]
    exact congrArg (replicate · z) (by rw [length_singleton]; omega)
  grind

section

variable {values : List α} {P : List α → Nat → List α → Prop}
  (last : ∀ buf pos v, buf.length = n → pos + 1 = values.length →
    buf.set pos v = values ++ replicate (n - values.length) z → P buf pos [v])
  (more : ∀ buf pos v vs, buf.length = n → pos + 1 < values.length →
    P (buf.set pos v) (pos + 1) vs → P buf pos (v :: vs))
  (hle : values.length ≤ n)
include last more hle

theorem fill_induct_from {done : List α} {v : α} {rest : List α} (h : done ++ v :: rest = values) :
    P (done ++ replicate (n - done.length) z) done.length (v :: rest) := by
  induction rest generalizing done v with
  | nil =>
    have hlen : done.length + 1 = values.length := by rw [← h, length_append]; rfl
    refine last _ _ _ ?_ hlen ?_
    · rw [length_append, length_replicate]
      omega
    · rw [set_replicate done v (by omega), h]
  | cons w rest ih =>
    have hlen : done.length + (rest.length + 2) = values.length := by
      rw [← h, length_append]
      rfl
    have hnext : P ((done ++ [v]) ++ replicate (n - (done ++ [v]).length) z)
        (done ++ [v]).length (w :: rest) := ih (by rw [append_assoc]; exact h)
    rw [← set_replicate done v (by omega), length_append] at hnext
    grind

/-- A reader that stores its elements in an array and does something else with the
last one. -/
theorem fill_induct (hne : values ≠ []) : P (replicate n z) 0 values := by
  obtain ⟨v, rest, rfl⟩ := exists_cons_of_ne_nil hne
  have h := fill_induct_from last more hle (nil_append (v :: rest))
  exact h

end

end Rcard.Fill
