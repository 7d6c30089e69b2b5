/-
The end of a sequence that fits a budget.

Every element has a weight.  Of the suffixes within the budget one is the longest, and
it is kept up to date element by element: elements are dropped from its front until the
next one fits.
-/
import Mathlib.Algebra.GroupWithZero.Nat
import Mathlib.Data.List.Infix

namespace Rcard.Window

open List

variable {α : Type} (w : α → Nat) (cap : Nat)

def weight (l : List α) : Nat := (l.map w).sum

@[simp] theorem weight_nil : weight w [] = 0 := rfl

@[simp] theorem weight_cons (x : α) (l : List α) : weight w (x :: l) = w x + weight w l := by
  simp [weight]

@[simp] theorem weight_append (l l' : List α) :
    weight w (l ++ l') = weight w l + weight w l' := by
  simp [weight]

/-- Drop from the front until `need` more fits. -/
def room (need : Nat) : List α → List α
  | [] => []
  | x :: l => if weight w (x :: l) + need > cap then room need l else x :: l

/-- The longest suffix of `l` within the budget. -/
structure Longest (l s : List α) : Prop where
  suffix : s <:+ l
  fits : weight w s ≤ cap
  longest : ∀ s', s' <:+ l → weight w s' ≤ cap → s' <:+ s

variable {w cap}

theorem room_suffix (need : Nat) (l : List α) : room w cap need l <:+ l := by
  induction l with
  | nil => exact suffix_refl _
  | cons x l ih =>
    grind [room]

theorem weight_room_le {need : Nat} (hneed : need ≤ cap) (l : List α) :
    weight w (room w cap need l) + need ≤ cap := by
  induction l with
  | nil => simpa [room] using hneed
  | cons x l ih =>
    rw [room]
    split
    · exact ih
    · omega

theorem suffix_room {need : Nat} {l s : List α} (hs : s <:+ l) (hfit : weight w s + need ≤ cap) :
    s <:+ room w cap need l := by
  induction l with
  | nil => exact hs
  | cons x l ih =>
    rw [room]
    split
    next hfull =>
      rcases suffix_cons_iff.mp hs with rfl | hs
      · omega
      · exact ih hs
    next => exact hs

theorem longest_nil : Longest w cap ([] : List α) [] :=
  ⟨suffix_refl _, Nat.zero_le _, fun _ h _ => h⟩

theorem suffix_snoc_iff {s l : List α} {x : α} : s ++ [x] <:+ l ++ [x] ↔ s <:+ l := by
  constructor
  · rintro ⟨t, ht⟩
    rw [← append_assoc] at ht
    exact ⟨t, (append_inj' ht rfl).1⟩
  · rintro ⟨t, rfl⟩
    exact ⟨t, (append_assoc _ _ _).symm⟩

theorem Longest.snoc {l s : List α} (h : Longest w cap l s) {x : α} (hx : w x ≤ cap) :
    Longest w cap (l ++ [x]) (room w cap (w x) s ++ [x]) where
  suffix := suffix_snoc_iff.mpr ((room_suffix _ s).trans h.suffix)
  fits := by
    have hroom : weight w (room w cap (w x) s) + w x ≤ cap := weight_room_le hx s
    simpa using hroom
  longest := by
    intro s' hs' hfit
    rcases eq_nil_or_concat s' with rfl | ⟨init, last, rfl⟩
    · exact nil_suffix
    · rw [concat_eq_append] at hs' ⊢
      obtain ⟨t, ht⟩ := hs'
      rw [← append_assoc] at ht
      obtain ⟨hinit, hlast⟩ := append_inj' ht rfl
      cases hlast
      have hweight : weight w init + w x ≤ cap := by simpa using hfit
      have hsuffix : init <:+ s := h.longest init ⟨t, hinit⟩ (by omega)
      exact suffix_snoc_iff.mpr (suffix_room hsuffix hweight)

end Rcard.Window
