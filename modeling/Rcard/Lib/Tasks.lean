/-
Several tasks that run programs over one shared state.

Each task runs one program at a time.  A step is a call, which starts a program,
an access of the program of some task, its end, or a step of the environment,
which can also end programs half way.

`Sound.run` is the rule for the runs.  The tasks rely on a relation that every
permitted access and every step of the environment keeps.  If every program that
a call can start is safe under that relation, then every access of every run is
permitted where it happens, and the invariant holds throughout.
-/
import Mathlib.Logic.Function.Basic
import Rcard.Lib.Prog

namespace Rcard

open Function Prog

structure Tasks (S T C A O : Type) (R : A → Type) where
  exec : S → (a : A) → S × R a
  /-- The program of a call, unless the task does not make it. -/
  start : T → C → Option (Prog A R Unit)
  other : S → O → S
  /-- Whether a step of the environment ends the program of a task. -/
  ends : O → T → Bool

namespace Tasks

variable {S T C A O : Type} {R : A → Type} [DecidableEq T]

structure State (S T A : Type) (R : A → Type) where
  shared : S
  running : T → Option (Prog A R Unit)

def State.next (s : State S T A R) (t : T) : Option A :=
  match s.running t with
  | some (.act a _) => some a
  | _ => none

inductive Event (T C O : Type) where
  | call (t : T) (c : C)
  | act (t : T)
  | finish (t : T)
  | other (o : O)

def step (m : Tasks S T C A O R) (s : State S T A R) : Event T C O → Option (State S T A R)
  | .call t c =>
    match s.running t with
    | none => (m.start t c).map fun p =>
      { s with running := update s.running t (some p) }
    | some _ => none
  | .act t =>
    match s.running t with
    | some (.act a k) =>
      some
        { shared := (m.exec s.shared a).1
          running := update s.running t (some (k (m.exec s.shared a).2)) }
    | _ => none
  | .finish t =>
    match s.running t with
    | some (.ret _) => some { s with running := update s.running t none }
    | _ => none
  | .other o =>
    some
      { shared := m.other s.shared o
        running := fun t => if m.ends o t then none else s.running t }

def run (m : Tasks S T C A O R) : State S T A R → List (Event T C O) → Option (State S T A R)
  | s, [] => some s
  | s, e :: es => (m.step s e).bind fun s' => run m s' es

section Sound

variable {m : Tasks S T C A O R} {rely : S → S → Prop} {ok : S → A → Prop} {inv : S → Prop}

structure Sound (m : Tasks S T C A O R) (rely : S → S → Prop) (ok : S → A → Prop)
    (inv : S → Prop) (s : State S T A R) : Prop where
  shared : inv s.shared
  safe : ∀ t p, s.running t = some p → Safe m.exec rely ok p (fun _ _ => True) s.shared

/-- What the tasks rely on, and what each step gives. -/
structure Rules (m : Tasks S T C A O R) (rely : S → S → Prop) (ok : S → A → Prop)
    (inv : S → Prop) : Prop where
  refl : ∀ s, rely s s
  trans : ∀ a b c, rely a b → rely b c → rely a c
  act : ∀ s a, inv s → ok s a → inv (m.exec s a).1 ∧ rely s (m.exec s a).1
  other : ∀ s o, inv s → inv (m.other s o) ∧ rely s (m.other s o)
  call : ∀ t c p, m.start t c = some p → Triple m.exec rely ok inv p fun _ _ => True

theorem safe_update {running : T → Option (Prog A R Unit)} {shared : S} {t : T}
    {v : Option (Prog A R Unit)}
    (hv : ∀ p, v = some p → Safe m.exec rely ok p (fun _ _ => True) shared)
    (h : ∀ u p, running u = some p → Safe m.exec rely ok p (fun _ _ => True) shared) :
    ∀ u p, update running t v u = some p → Safe m.exec rely ok p (fun _ _ => True) shared := by
  grind

theorem Sound.step (hm : Rules m rely ok inv) {s s' : State S T A R}
    (h : Sound m rely ok inv s) {e : Event T C O} (hs : m.step s e = some s') :
    Sound m rely ok inv s' := by
  rcases s with ⟨shared, running⟩
  cases e with
  | call t c =>
    rw [Tasks.step] at hs
    split at hs
    · obtain ⟨p, hp, rfl⟩ := Option.map_eq_some_iff.mp hs
      refine ⟨h.shared, safe_update ?_ h.safe⟩
      rintro q ⟨⟩
      exact hm.call t c p hp shared h.shared
    · cases hs
  | act t =>
    rw [Tasks.step] at hs
    split at hs
    · rename_i a k hrun
      cases hs
      obtain ⟨hok, hk⟩ := Safe.act hm.refl (h.safe t _ hrun)
      obtain ⟨hinv, hrely⟩ := hm.act shared a h.shared hok
      refine ⟨hinv, safe_update ?_ fun u q hq => ?_⟩
      · rintro q ⟨⟩
        exact hk
      · exact Safe.after_others hm.trans (h.safe u q hq) hrely
    · cases hs
  | finish t =>
    rw [Tasks.step] at hs
    split at hs
    · cases hs
      exact ⟨h.shared, safe_update nofun h.safe⟩
    · cases hs
  | other o =>
    cases hs
    obtain ⟨hinv, hrely⟩ := hm.other shared o h.shared
    refine ⟨hinv, fun u q hq => ?_⟩
    obtain ⟨_, hq⟩ := Option.ite_none_left_eq_some.mp hq
    exact Safe.after_others hm.trans (h.safe u q hq) hrely

theorem Sound.run (hm : Rules m rely ok inv) {s s' : State S T A R}
    (h : Sound m rely ok inv s) {es : List (Event T C O)} (hs : m.run s es = some s') :
    Sound m rely ok inv s' := by
  induction es generalizing s with
  | nil =>
    cases hs
    exact h
  | cons e es ih =>
    obtain ⟨mid, hmid, hs⟩ := Option.bind_eq_some_iff.mp hs
    exact ih (h.step hm hmid) hs

omit [DecidableEq T] in
theorem Sound.permitted (hm : Rules m rely ok inv) {s : State S T A R}
    (h : Sound m rely ok inv s) {t : T} {a : A} (hnext : s.next t = some a) : ok s.shared a := by
  rw [State.next] at hnext
  split at hnext
  · rename_i hrun
    cases hnext
    exact (Safe.act hm.refl (h.safe t _ hrun)).1
  · cases hnext

end Sound

end Tasks

end Rcard
