/-
Programs that fail with a state.

A program changes a state and ends with a result or an error; the changes stay in either
case.  `Keeps` is a relation between the states before and after that holds however the
program ends, with a rule for sequences.
-/
import Mathlib.Init

namespace Rcard

open List

def Fallible (S E α : Type) : Type := S → Except E α × S

namespace Fallible

variable {S E α β : Type}

def bind (x : Fallible S E α) (f : α → Fallible S E β) : Fallible S E β := fun s =>
  match x s with
  | (.ok a, s') => f a s'
  | (.error e, s') => (.error e, s')

instance : Monad (Fallible S E) where
  pure a := fun s => (.ok a, s)
  bind := bind

def fail (e : E) : Fallible S E α := fun s => (.error e, s)

def change (f : S → S) : Fallible S E Unit := fun s => (.ok (), f s)

theorem pure_bind (a : α) (f : α → Fallible S E β) : (pure a >>= f : Fallible S E β) = f a := rfl

variable {x : Fallible S E α} {f : α → Fallible S E β} {b : β} {l : List α}

theorem bind_of_ok {s s' : S} {a : α} (h : x s = (.ok a, s')) (f : α → Fallible S E β) :
    (x >>= f) s = f a s' := by
  show bind x f s = _
  rw [bind, h]

theorem bind_of_error {s s' : S} {e : E} (h : x s = (.error e, s')) (f : α → Fallible S E β) :
    (x >>= f) s = (.error e, s') := by
  show bind x f s = _
  rw [bind, h]

theorem bind_eq_ok {s s'' : S} :
    (x >>= f) s = (.ok b, s'') ↔ ∃ a s', x s = (.ok a, s') ∧ f a s' = (.ok b, s'') := by
  constructor
  · intro h
    rcases hx : x s with ⟨e | a, s'⟩
    · rw [bind_of_error hx] at h
      cases h
    · rw [bind_of_ok hx] at h
      exact ⟨a, s', rfl, h⟩
  · rintro ⟨a, s', hx, hf⟩
    rw [bind_of_ok hx, hf]

theorem bind_eq_error {s s'' : S} {e : E} :
    (x >>= f) s = (.error e, s'') ↔
      x s = (.error e, s'') ∨ ∃ a s', x s = (.ok a, s') ∧ f a s' = (.error e, s'') := by
  constructor
  · intro h
    rcases hx : x s with ⟨e' | a, s'⟩
    · rw [bind_of_error hx] at h
      cases h
      exact .inl rfl
    · rw [bind_of_ok hx] at h
      exact .inr ⟨a, s', rfl, h⟩
  · rintro (hx | ⟨a, s', hx, hf⟩)
    · rw [bind_of_error hx]
    · rw [bind_of_ok hx, hf]

/-! ## However it ends -/

def Keeps (R : S → S → Prop) (x : Fallible S E α) : Prop := ∀ s, R s (x s).2

variable {R : S → S → Prop}

theorem Keeps.pure (hrefl : ∀ s, R s s) (a : α) : Keeps R (pure a : Fallible S E α) :=
  hrefl

theorem Keeps.fail (hrefl : ∀ s, R s s) (e : E) : Keeps R (fail e : Fallible S E α) :=
  hrefl

theorem Keeps.bind (htrans : ∀ a b c, R a b → R b c → R a c) (hx : Keeps R x)
    (hf : ∀ a, Keeps R (f a)) : Keeps R (x >>= f) := by
  intro s
  have hfirst := hx s
  rcases h : x s with ⟨_ | a, s'⟩
  · rw [bind_of_error h]
    rwa [h] at hfirst
  · rw [bind_of_ok h]
    rw [h] at hfirst
    exact htrans _ _ _ hfirst (hf a s')

theorem Keeps.mono {R' : S → S → Prop} (hle : ∀ a b, R a b → R' a b) (hx : Keeps R x) :
    Keeps R' x :=
  fun s => hle _ _ (hx s)

/-! ## How it fails -/

/-- Only with errors in `P`. -/
def Fails (P : E → Prop) (x : Fallible S E α) : Prop := ∀ s e s', x s = (.error e, s') → P e

variable {P : E → Prop}

theorem Fails.pure (a : α) : Fails P (pure a : Fallible S E α) := fun _ _ _ h => nomatch h

theorem Fails.fail {e : E} (h : P e) : Fails P (fail e : Fallible S E α) := by
  intro s e' s' heq
  cases heq
  exact h

theorem Fails.bind (hx : Fails P x) (hf : ∀ a, Fails P (f a)) : Fails P (x >>= f) := by
  intro s e s'' h
  rcases bind_eq_error.mp h with hfirst | ⟨a, s', _, hsecond⟩
  · exact hx s e s'' hfirst
  · exact hf a s' e s'' hsecond

/-! ## Without a state -/

theorem except_bind_eq_ok {x : Except E α} {f : α → Except E β} :
    (x >>= f) = .ok b ↔ ∃ a, x = .ok a ∧ f a = .ok b := by
  cases x with
  | error e => exact ⟨(fun h => nomatch h), (fun ⟨_, h, _⟩ => nomatch h)⟩
  | ok a =>
    constructor
    · exact fun h => ⟨a, rfl, h⟩
    · rintro ⟨_, ⟨⟩, h⟩
      exact h

theorem ok_of_toOption_map {x : Except E α} {f : α → β} (h : x.toOption.map f = some b) :
    ∃ a, x = .ok a ∧ f a = b := by
  cases x with
  | error e => cases h
  | ok a => exact ⟨a, rfl, Option.some.inj h⟩

/-- What every step of a loop keeps holds after the loop. -/
theorem foldlM_keeps {f : β → α → Except E β} {P : β → Prop}
    (hstep : ∀ a ∈ l, ∀ b b', P b → f b a = .ok b' → P b') {b' : β} (hstart : P b)
    (h : l.foldlM f b = .ok b') : P b' := by
  induction l generalizing b with
  | nil =>
    cases h
    exact hstart
  | cons a l ih =>
    obtain ⟨c, hfirst, hrest⟩ := except_bind_eq_ok.mp h
    grind

end Fallible
end Rcard
