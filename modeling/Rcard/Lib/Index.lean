/-
Values under handles, and the same values under keys.

An entry has a handle and a key.  No two entries have the same key, so the values can be
found by key as well as by handle, and a change of one entry is a change at one handle
and at one key.
-/
import Mathlib.Logic.Function.Basic

namespace Rcard

open Function

structure Indexed {H K A B : Type} (key : A → K) (entries : H → Option A) (values : H → Option B)
    (view : K → Option B) : Prop where
  value : ∀ h a, entries h = some a → ∃ b, values h = some b ∧ view (key a) = some b
  absent : ∀ h, entries h = none → values h = none
  only : ∀ k b, view k = some b → ∃ h a, entries h = some a ∧ key a = k
  distinct : ∀ h h' a a', entries h = some a → entries h' = some a' → key a = key a' → h = h'

namespace Indexed

variable {H K A B : Type} {key : A → K} {entries : H → Option A} {values : H → Option B}
  {view : K → Option B} {i : H} {k : K}

theorem empty : Indexed key (fun _ : H => none) (fun _ => (none : Option B)) fun _ => none where
  value := fun _ _ h => nomatch h
  absent := fun _ _ => rfl
  only := fun _ _ h => nomatch h
  distinct := fun _ _ _ _ h => nomatch h

theorem view_eq_none (h : Indexed key entries values view)
    (hfresh : ∀ j a, entries j = some a → key a ≠ k) : view k = none := by
  cases hview : view k with
  | none => rfl
  | some b =>
    obtain ⟨j, a, ha, hkey⟩ := h.only k b hview
    exact absurd hkey (hfresh j a ha)

theorem entry_eq_none (h : Indexed key entries values view) (hnone : values i = none) :
    entries i = none := by
  cases hentry : entries i with
  | none => rfl
  | some a =>
    obtain ⟨b, hb, _⟩ := h.value i a hentry
    cases hnone.symm.trans hb

variable [DecidableEq H] [DecidableEq K]

/-- `k` is the key of the entry at `i`, before and after, and of no other entry. -/
theorem assign {a : Option A} {b : Option B} (h : Indexed key entries values view)
    (hown : ∀ j a, entries j = some a → key a = k → j = i)
    (hat : ∀ a, entries i = some a → key a = k)
    (hnew : Option.Rel (fun a _ => key a = k) a b) :
    Indexed key (update entries i a) (update values i b) (update view k b) where
  value := by
    intro j a' ha'
    by_cases heq : j = i
    · rw [heq, update_self] at ha'
      rw [ha'] at hnew
      cases hnew with
      | some hkey =>
        exact ⟨_, by rw [heq, update_self], by rw [hkey, update_self]⟩
    · rw [update_of_ne heq] at ha'
      have hne : key a' ≠ k := fun hkey => heq (hown j a' ha' hkey)
      rw [update_of_ne heq, update_of_ne hne]
      exact h.value j a' ha'
  absent := by
    intro j hj
    by_cases heq : j = i
    · rw [heq, update_self] at hj ⊢
      rw [hj] at hnew
      cases hnew with
      | none => rfl
    · rw [update_of_ne heq] at hj ⊢
      exact h.absent j hj
  only := by
    intro k' b' hb'
    by_cases heq : k' = k
    · rw [heq, update_self] at hb'
      rw [hb'] at hnew
      cases hnew with
      | some hkey => exact ⟨i, _, update_self _ _ _, hkey.trans heq.symm⟩
    · rw [update_of_ne heq] at hb'
      obtain ⟨j, a', ha', hkey⟩ := h.only k' b' hb'
      have hne : j ≠ i := fun hcon => heq (hkey.symm.trans (hat a' (hcon ▸ ha')))
      exact ⟨j, a', (update_of_ne hne _ _).trans ha', hkey⟩
  distinct := by
    have hkey : ∀ j a', update entries i a j = some a' → j ≠ i → key a' ≠ k := by grind
    have hself : ∀ a', update entries i a i = some a' → key a' = k := by
      intro a' ha'
      rw [update_self] at ha'
      rw [ha'] at hnew
      cases hnew with
      | some hkey => exact hkey
    intro j j' a' a'' ha' ha'' hsame
    by_cases heq : j = i
    · grind
    · by_cases heq' : j' = i
      · subst heq'
        exact absurd (hsame.trans (hself a'' ha'')) (hkey j a' ha' heq)
      · rw [update_of_ne heq] at ha'
        rw [update_of_ne heq'] at ha''
        exact h.distinct j j' a' a'' ha' ha'' hsame

section

variable (h : Indexed key entries values view)
include h

/-- A new entry, under a key that is not in use. -/
theorem insert {a : A} (b : B) (hfree : entries i = none)
    (hfresh : ∀ j a', entries j = some a' → key a' ≠ key a) :
    Indexed key (update entries i (some a)) (update values i (some b))
      (update view (key a) (some b)) := by
  refine h.assign (fun j a' ha' hkey => absurd hkey (hfresh j a' ha')) ?_ (.some rfl)
  intro a' ha'
  cases hfree.symm.trans ha'

/-- The entry at `i` changes but keeps its key. -/
theorem replace {a a' : A} (b : B) (ha : entries i = some a) (hkey : key a' = key a) :
    Indexed key (update entries i (some a')) (update values i (some b))
      (update view (key a) (some b)) := by
  refine h.assign (fun j a'' ha'' => h.distinct j i a'' a ha'' ha) ?_ (.some hkey)
  intro a'' ha''
  cases ha.symm.trans ha''
  rfl

theorem remove {a : A} (ha : entries i = some a) :
    Indexed key (update entries i none) (update values i none) (update view (key a) none) := by
  refine h.assign (fun j a'' ha'' => h.distinct j i a'' a ha'' ha) ?_ .none
  intro a'' ha''
  cases ha.symm.trans ha''
  rfl

end

end Indexed

end Rcard
