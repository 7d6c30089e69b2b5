/-
One task among others.

The task has a local state and runs programs over a shared state, one at a time.
A call starts a program, which ends with the next local state.  Between any two
steps of the task the others may change the shared state.

`Machine.step` says what can happen next.  `Reaches` are the states of the runs
whose calls and foreign steps all meet given conditions, and `Reaches.sound` is
the rule for them: if every call, started in the invariant, is safe and ends in
the invariant, then every access of every run is permitted where it happens.
-/
import Rcard.Lib.Prog

namespace Rcard

open Prog

/-- The task: its accesses, its calls, and the steps of the others. -/
structure Machine (S L C A O : Type) (R : A → Type) where
  exec : S → (a : A) → S × R a
  /-- The program of a call, unless the call cannot be made in this state. -/
  start : C → L → Option (Prog A R L)
  other : S → O → S

namespace Machine

variable {S L C A O : Type} {R : A → Type}

structure State (S L C A : Type) (R : A → Type) where
  shared : S
  loc : L
  /-- The call that runs, and what is left of it. -/
  running : Option (C × Prog A R L)

def State.next (s : State S L C A R) : Option (C × A) :=
  match s.running with
  | some (c, .act a _) => some (c, a)
  | _ => none

inductive Event (C O : Type) where
  | call (c : C)
  | act
  | finish
  | other (o : O)

def step (m : Machine S L C A O R) (s : State S L C A R) : Event C O → Option (State S L C A R)
  | .call c =>
    match s.running with
    | none => (m.start c s.loc).map fun p => { s with running := some (c, p) }
    | some _ => none
  | .act =>
    match s.running with
    | some (c, .act a k) =>
      some { s with
        shared := (m.exec s.shared a).1
        running := some (c, k (m.exec s.shared a).2) }
    | _ => none
  | .finish =>
    match s.running with
    | some (_, .ret l) => some { s with loc := l, running := none }
    | _ => none
  | .other o => some { s with shared := m.other s.shared o }

section Reaches

variable (m : Machine S L C A O R) (guard : C → L → S → Prop) (fair : S → O → Prop)

def Admits (s : State S L C A R) : Event C O → Prop
  | .call c => guard c s.loc s.shared
  | .other o => fair s.shared o
  | _ => True

/-- The states of the runs from `s₀` whose steps all meet the condition. -/
inductive Reaches (s₀ : State S L C A R) : State S L C A R → Prop where
  | start : Reaches s₀ s₀
  | step {s s' : State S L C A R} (e : Event C O) : Reaches s₀ s → Admits guard fair s e →
      m.step s e = some s' → Reaches s₀ s'

variable {m guard fair} {rely : S → S → Prop} {ok : C → S → A → Prop} {inv : L → S → Prop}

def Sound (m : Machine S L C A O R) (rely : S → S → Prop) (ok : C → S → A → Prop)
    (inv : L → S → Prop) (s : State S L C A R) : Prop :=
  match s.running with
  | none => inv s.loc s.shared
  | some (c, p) => Safe m.exec rely (ok c) p inv s.shared

theorem Sound.step (hrefl : ∀ s, rely s s) (htrans : ∀ a b c, rely a b → rely b c → rely a c)
    (hstable : ∀ l, Stable rely (inv l))
    (hother : ∀ s o, fair s o → rely s (m.other s o))
    (hcall : ∀ c l p, m.start c l = some p →
      Triple m.exec rely (ok c) (fun s => inv l s ∧ guard c l s) p inv)
    {s s' : State S L C A R} (h : Sound m rely ok inv s) {e : Event C O}
    (he : Admits guard fair s e) (hs : m.step s e = some s') : Sound m rely ok inv s' := by
  rcases s with ⟨shared, loc, running⟩
  cases e with
  | call c =>
    cases running with
    | some r => exact absurd hs (by simp [Machine.step])
    | none =>
      obtain ⟨p, hp, rfl⟩ := Option.map_eq_some_iff.mp hs
      exact hcall c loc p hp shared ⟨h, he⟩
  | act =>
    match running, hs with
    | some (c, .act a k), hs =>
      cases hs
      exact (Safe.act hrefl h).2
  | finish =>
    match running, hs with
    | some (c, .ret l), hs =>
      cases hs
      have hsafe : Safe m.exec rely (ok c) (.ret l) inv shared := h
      have hinv : inv l shared := hsafe.done hrefl
      exact hinv
  | other o =>
    cases hs
    cases running with
    | none => exact hstable loc _ _ (hother shared o he) h
    | some r => exact Safe.after_others htrans h (hother shared o he)

/-- In a run whose steps meet the condition, the next access is permitted. -/
theorem Reaches.sound (hrefl : ∀ s, rely s s) (htrans : ∀ a b c, rely a b → rely b c → rely a c)
    (hstable : ∀ l, Stable rely (inv l))
    (hother : ∀ s o, fair s o → rely s (m.other s o))
    (hcall : ∀ c l p, m.start c l = some p →
      Triple m.exec rely (ok c) (fun s => inv l s ∧ guard c l s) p inv)
    {s₀ s : State S L C A R} (h₀ : Sound m rely ok inv s₀) (h : Reaches m guard fair s₀ s) :
    Sound m rely ok inv s := by
  induction h with
  | start => exact h₀
  | step e _ he hs ih => exact ih.step hrefl htrans hstable hother hcall he hs

theorem Sound.permitted (hrefl : ∀ s, rely s s) {s : State S L C A R}
    (h : Sound m rely ok inv s) {c : C} {a : A} {k : R a → Prog A R L}
    (hrun : s.running = some (c, .act a k)) : ok c s.shared a := by
  rw [Sound, hrun] at h
  exact (Safe.act hrefl h).1

end Reaches

end Machine

end Rcard
