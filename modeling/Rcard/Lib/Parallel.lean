/-
Calls of several tasks over one shared state, with what they return.

A call runs a program of single accesses, and the other tasks take their accesses in
between.  It returns with its last access: there is nothing left that the others could
come between.  Of each call that has returned we keep its result, and the accesses it made
with the states it made them in.

`Sound.run` is the rule for the runs.  Each task names what it relies on the others to do.
If every body, started in the invariant, keeps the invariant with each access and does only
what the others rely on, then the invariant holds in every state of every run.
-/
import Mathlib.Logic.Function.Basic
import Rcard.Lib.Prog

namespace Rcard

open Function

structure Parallel (S T A : Type) (R : A → Type) (C β : T → Type) where
  exec : S → (a : A) → S × R a
  body : (t : T) → C t → Prog A R (β t)

namespace Parallel

variable {S T A : Type} {R : A → Type} {C β : T → Type} [DecidableEq T]

/-- A call that has returned. -/
structure Return (S A C β : Type) where
  call : C
  trace : List (A × S)
  result : β

structure World (S T A : Type) (C β : T → Type) where
  shared : S
  done : (t : T) → List (Return S A (C t) (β t))

def World.log (w : World S T A C β) (t : T) (r : Return S A (C t) (β t)) : World S T A C β :=
  { w with done := update w.done t (w.done t ++ [r]) }

section

variable (w : World S T A C β)

@[simp] theorem World.log_shared (t : T) (r : Return S A (C t) (β t)) :
    (w.log t r).shared = w.shared := rfl

@[simp] theorem World.log_done_self (t : T) (r : Return S A (C t) (β t)) :
    (w.log t r).done t = w.done t ++ [r] :=
  update_self t _ w.done

theorem World.log_done_of_ne {t u : T} (h : u ≠ t) (r : Return S A (C t) (β t)) :
    (w.log t r).done u = w.done u :=
  update_of_ne h _ w.done

end

/-- A call that runs: what it has accessed and what is left of it. -/
structure Running (S A : Type) (R : A → Type) (C β : Type) where
  call : C
  trace : List (A × S)
  rest : Prog A R β

structure State (S T A : Type) (R : A → Type) (C β : T → Type) where
  world : World S T A C β
  running : (t : T) → Option (Running S A R (C t) (β t))

inductive Event (T : Type) (C : T → Type) where
  | call (t : T) (c : C t)
  | act (t : T)

/-- A call goes on, or returns if nothing is left of it. -/
def State.settle (s : State S T A R C β) (t : T) (r : Running S A R (C t) (β t)) :
    State S T A R C β :=
  match r.rest with
  | .ret b =>
    { world := s.world.log t ⟨r.call, r.trace, b⟩
      running := update s.running t none }
  | .act _ _ => { s with running := update s.running t (some r) }

def step (m : Parallel S T A R C β) (s : State S T A R C β) :
    Event T C → Option (State S T A R C β)
  | .call t c =>
    match s.running t with
    | none => some (s.settle t ⟨c, [], m.body t c⟩)
    | some _ => none
  | .act t =>
    match s.running t with
    | some ⟨c, trace, .act a k⟩ =>
      let after := m.exec s.world.shared a
      some ({ s with world := { s.world with shared := after.1 } }.settle t
        ⟨c, trace ++ [(a, s.world.shared)], k after.2⟩)
    | _ => none

def run (m : Parallel S T A R C β) : State S T A R C β → List (Event T C) →
    Option (State S T A R C β)
  | s, [] => some s
  | s, e :: es => (m.step s e).bind fun s' => run m s' es

section Sound

variable (m : Parallel S T A R C β) (inv : World S T A C β → Prop)
  (rely : T → World S T A C β → World S T A C β → Prop)

/-- A step of a task from one world to another keeps the invariant and does what the other
tasks rely on. -/
def Settled (t : T) (before after : World S T A C β) : Prop :=
  inv after ∧ ∀ u, u ≠ t → rely u before after

/-- The last access of the call led from one world to another, and whatever the others do
before each next one, the call goes on as it should. -/
def Safe (t : T) (c : C t) : (rest : Prog A R (β t)) → (trace : List (A × S)) →
    (before after : World S T A C β) → Prop
  | .ret b, trace, before, after => Settled inv rely t before (after.log t ⟨c, trace, b⟩)
  | .act a k, trace, before, after =>
    Settled inv rely t before after ∧
      ∀ w, rely t after w → inv w →
        Safe t c (k (m.exec w.shared a).2) (trace ++ [(a, w.shared)]) w
          { w with shared := (m.exec w.shared a).1 }

structure Rules : Prop where
  refl : ∀ t w, rely t w w
  trans : ∀ t a b c, rely t a b → rely t b c → rely t a c
  body : ∀ t c w, inv w → Safe m inv rely t c (m.body t c) [] w w

variable {m inv rely}

/-- Whatever the others do first, what is left of a call goes on as it should. -/
def Waits (m : Parallel S T A R C β) (inv : World S T A C β → Prop)
    (rely : T → World S T A C β → World S T A C β → Prop) (t : T) (w : World S T A C β)
    (r : Running S A R (C t) (β t)) : Prop :=
  ∀ a k, r.rest = .act a k → ∀ w', rely t w w' → inv w' →
    Safe m inv rely t r.call (k (m.exec w'.shared a).2) (r.trace ++ [(a, w'.shared)]) w'
      { w' with shared := (m.exec w'.shared a).1 }

structure Sound (m : Parallel S T A R C β) (inv : World S T A C β → Prop)
    (rely : T → World S T A C β → World S T A C β → Prop) (s : State S T A R C β) : Prop where
  world : inv s.world
  running : ∀ t r, s.running t = some r → Waits m inv rely t s.world r

theorem Waits.after_others (hm : Rules m inv rely) {t : T} {w w' : World S T A C β}
    {r : Running S A R (C t) (β t)} (h : Waits m inv rely t w r) (hrely : rely t w w') :
    Waits m inv rely t w' r :=
  fun a k hrest w'' hw'' => h a k hrest w'' (hm.trans t _ _ _ hrely hw'')

theorem waits_update {running : (t : T) → Option (Running S A R (C t) (β t))} {t : T}
    {v : Option (Running S A R (C t) (β t))} {w : World S T A C β}
    (hv : ∀ q, v = some q → Waits m inv rely t w q)
    (h : ∀ u q, u ≠ t → running u = some q → Waits m inv rely u w q) :
    ∀ u q, update running t v u = some q → Waits m inv rely u w q := by
  grind

/-- A task has taken a step, and the others wait in the world it led to. -/
theorem Sound.settle (hm : Rules m inv rely) {s : State S T A R C β} {t : T}
    {r : Running S A R (C t) (β t)} {before : World S T A C β}
    (hsafe : Safe m inv rely t r.call r.rest r.trace before s.world)
    (hothers : ∀ u q, s.running u = some q → Waits m inv rely u before q) :
    Sound m inv rely (s.settle t r) := by
  obtain ⟨c, trace, rest⟩ := r
  cases rest with
  | ret b =>
    obtain ⟨hinv, hrely⟩ := hsafe
    refine ⟨hinv, waits_update nofun fun u q hut hq => ?_⟩
    exact (hothers u q hq).after_others hm (hrely u hut)
  | act a k =>
    obtain ⟨⟨hinv, hrely⟩, hnext⟩ := hsafe
    refine ⟨hinv, waits_update (fun q hq => ?_) fun u q hut hq => ?_⟩
    · cases hq
      rintro _ _ ⟨⟩
      exact hnext
    · exact (hothers u q hq).after_others hm (hrely u hut)

theorem Sound.step (hm : Rules m inv rely) {s s' : State S T A R C β}
    (h : Sound m inv rely s) {e : Event T C} (hs : m.step s e = some s') :
    Sound m inv rely s' := by
  cases e with
  | call t c =>
    rw [Parallel.step] at hs
    split at hs
    · cases hs
      exact Sound.settle hm (hm.body t c s.world h.world) h.running
    · cases hs
  | act t =>
    rw [Parallel.step] at hs
    split at hs
    · rename_i c trace a k hrun
      cases hs
      refine Sound.settle hm ?_ h.running
      exact h.running t _ hrun a k rfl s.world (hm.refl t s.world) h.world
    · cases hs

theorem Sound.run (hm : Rules m inv rely) {s s' : State S T A R C β}
    (h : Sound m inv rely s) {es : List (Event T C)} (hs : m.run s es = some s') :
    Sound m inv rely s' := by
  induction es generalizing s with
  | nil =>
    cases hs
    exact h
  | cons e es ih =>
    obtain ⟨mid, hmid, hs⟩ := Option.bind_eq_some_iff.mp hs
    exact ih (h.step hm hmid) hs

end Sound

/-! ## Calls that wrap calls -/

section Wraps

variable {C' β' : T → Type} {m' : Parallel S T A R C' β'} {m : Parallel S T A R C β}

/-- Every call of `m'` makes one call of `m` and computes its result from that one's, or it
makes none. -/
structure Wraps (m' : Parallel S T A R C' β') (m : Parallel S T A R C β) where
  inner : (t : T) → C' t → Option (C t)
  answer : (t : T) → C' t → Option (β t) → β' t
  exec : m'.exec = m.exec
  body : ∀ t c, m'.body t c = (inner t c).elim (.ret (answer t c none))
    fun d => m.body t d >>= fun b => .ret (answer t c (some b))

namespace Wraps

variable (h : Wraps m' m) {s' : State S T A R C' β'} {s : State S T A R C β} {t : T}

/-- The return of a call, from the return of the one that it has made. -/
def outer (t : T) (call : C' t × Option (Return S A (C t) (β t))) : Return S A (C' t) (β' t) :=
  ⟨call.1, (call.2.map (·.trace)).getD [], h.answer t call.1 (call.2.map (·.result))⟩

/-- All calls of a task that have returned, each with the one that it has made. -/
structure Returned (t : T) (returns' : List (Return S A (C' t) (β' t)))
    (returns : List (Return S A (C t) (β t)))
    (calls : List (C' t × Option (Return S A (C t) (β t)))) : Prop where
  inner : ∀ call ∈ calls, call.2.map (·.call) = h.inner t call.1
  outer : returns' = calls.map (h.outer t)
  made : returns = calls.filterMap (·.2)

omit [DecidableEq T] in
theorem Returned.snoc {h : Wraps m' m} {returns' : List (Return S A (C' t) (β' t))}
    {returns : List (Return S A (C t) (β t))}
    {calls : List (C' t × Option (Return S A (C t) (β t)))}
    (hr : h.Returned t returns' returns calls) (c : C' t)
    (made : Option (Return S A (C t) (β t))) (hmade : made.map (·.call) = h.inner t c) :
    h.Returned t (returns' ++ [h.outer t (c, made)]) (returns ++ made.toList)
      (calls ++ [(c, made)]) := by
  refine ⟨?_, by rw [hr.outer, List.map_append]; rfl, ?_⟩
  · exact List.forall_mem_append.mpr ⟨hr.inner, List.forall_mem_singleton.mpr hmade⟩
  · rw [hr.made, List.filterMap_append]
    cases made <;> rfl

omit [DecidableEq T] in
/-- What the calls give, if it depends on what the calls that they make give. -/
theorem Returned.flatMap_eq {h : Wraps m' m} {returns' : List (Return S A (C' t) (β' t))}
    {returns : List (Return S A (C t) (β t))}
    {calls : List (C' t × Option (Return S A (C t) (β t)))} {γ : Type}
    (hr : h.Returned t returns' returns calls) {f' : Return S A (C' t) (β' t) → List γ}
    {f : Return S A (C t) (β t) → List γ}
    (hf : ∀ c made, Option.map (·.call) made = h.inner t c →
      f' (h.outer t (c, made)) = made.toList.flatMap f) :
    returns'.flatMap f' = returns.flatMap f := by
  rw [hr.outer, hr.made]
  have hinner := hr.inner
  clear hr
  induction calls with
  | nil => rfl
  | cons call calls ih =>
    obtain ⟨hcall, hcalls⟩ := List.forall_mem_cons.mp hinner
    obtain ⟨c, made⟩ := call
    rw [List.map_cons, List.flatMap_cons, hf c made hcall, ih hcalls]
    cases made <;> simp

/-- What is left of a call is what is left of the one that it has made. -/
def outerRunning (t : T) (c : C' t) (r : Running S A R (C t) (β t)) :
    Running S A R (C' t) (β' t) :=
  ⟨c, r.trace, r.rest >>= fun b => .ret (h.answer t c (some b))⟩

structure Rel (s' : State S T A R C' β') (s : State S T A R C β) : Prop where
  shared : s'.world.shared = s.world.shared
  done : ∀ t, ∃ calls, h.Returned t (s'.world.done t) (s.world.done t) calls
  running : ∀ t, Option.Rel (fun r' r => ∃ c, h.inner t c = some r.call ∧ r' = h.outerRunning t c r)
    (s'.running t) (s.running t)

variable {h}

theorem forall_update {X Y : T → Type} {P : (t : T) → X t → Y t → Prop} {f : (t : T) → X t}
    {g : (t : T) → Y t} (hfg : ∀ u, P u (f u) (g u)) {x : X t} {y : Y t} (hxy : P t x y) (u : T) :
    P u (update f t x u) (update g t y u) := by
  by_cases hu : u = t
  · subst hu
    rwa [update_self, update_self]
  · rw [update_of_ne hu, update_of_ne hu]
    exact hfg u

theorem Rel.settle (hrel : h.Rel s' s) {c : C' t} {r : Running S A R (C t) (β t)}
    (hinner : h.inner t c = some r.call) :
    h.Rel (s'.settle t (h.outerRunning t c r)) (s.settle t r) := by
  obtain ⟨d, trace, rest⟩ := r
  cases rest with
  | ret b =>
    obtain ⟨calls, hcalls⟩ := hrel.done t
    exact ⟨hrel.shared, forall_update (P := fun t x y => ∃ calls, h.Returned t x y calls) hrel.done
      ⟨_, hcalls.snoc c (some ⟨d, trace, b⟩) hinner.symm⟩, forall_update hrel.running .none⟩
  | act a k =>
    exact ⟨hrel.shared, hrel.done, forall_update hrel.running (.some ⟨c, hinner, rfl⟩)⟩

theorem Rel.call (hrel : h.Rel s' s) {c : C' t} (hfree : s'.running t = none) :
    h.Rel (s'.settle t ⟨c, [], m'.body t c⟩) s ∨
      ∃ e u, m.step s e = some u ∧ h.Rel (s'.settle t ⟨c, [], m'.body t c⟩) u := by
  have hrunning := hrel.running t
  rw [hfree] at hrunning
  cases hrun : s.running t with
  | some r =>
    rw [hrun] at hrunning
    cases hrunning
  | none =>
    rw [h.body]
    cases hinner : h.inner t c with
    | none =>
      obtain ⟨calls, hcalls⟩ := hrel.done t
      have hdone := forall_update (P := fun t x y => ∃ calls, h.Returned t x y calls)
        hrel.done ⟨_, hcalls.snoc c none hinner.symm⟩
      have hrunning := forall_update hrel.running (t := t) .none
      rw [Option.toList_none, List.append_nil, update_eq_self] at hdone
      rw [← hrun, update_eq_self] at hrunning
      exact .inl ⟨hrel.shared, hdone, hrunning⟩
    | some d =>
      refine .inr ⟨.call t d, s.settle t ⟨d, [], m.body t d⟩, ?_,
        hrel.settle (r := ⟨d, [], m.body t d⟩) hinner⟩
      rw [Parallel.step, hrun]

omit [DecidableEq T] in
theorem Rel.exists_running (hrel : h.Rel s' s) {r' : Running S A R (C' t) (β' t)}
    (hrun' : s'.running t = some r') :
    ∃ c r, h.inner t c = some r.call ∧ r' = h.outerRunning t c r ∧ s.running t = some r := by
  have hrunning := hrel.running t
  rw [hrun'] at hrunning
  cases hrun : s.running t with
  | none =>
    rw [hrun] at hrunning
    cases hrunning
  | some r =>
    rw [hrun] at hrunning
    cases hrunning with
    | some houter =>
      obtain ⟨c, hinner, heq⟩ := houter
      exact ⟨c, r, hinner, heq, rfl⟩

/-- A step of the calls is a step of those that they make, or none. -/
theorem Rel.step (hrel : h.Rel s' s) {e : Event T C'} {u' : State S T A R C' β'}
    (hs : m'.step s' e = some u') :
    h.Rel u' s ∨ ∃ e u, m.step s e = some u ∧ h.Rel u' u := by
  cases e with
  | call t c =>
    rw [Parallel.step] at hs
    split at hs
    · next hfree =>
      cases hs
      exact hrel.call hfree
    · cases hs
  | act t =>
    rw [Parallel.step] at hs
    split at hs
    · next c trace a k hrun' =>
      cases hs
      obtain ⟨c, ⟨d, trace, rest⟩, hinner, houter, hrun⟩ := hrel.exists_running hrun'
      cases rest with
      | ret b => cases houter
      | act a k =>
        cases houter
        have hmoved : h.Rel
            { s' with world := { s'.world with shared := (m.exec s.world.shared a).1 } }
            { s with world := { s.world with shared := (m.exec s.world.shared a).1 } } :=
          ⟨rfl, hrel.done, hrel.running⟩
        rw [h.exec, hrel.shared]
        refine .inr ⟨.act t, _, ?_, hmoved.settle
          (r := ⟨d, trace ++ [(a, s.world.shared)], k (m.exec s.world.shared a).2⟩) hinner⟩
        rw [Parallel.step, hrun]
    · cases hs

theorem Rel.run (hrel : h.Rel s' s) {es : List (Event T C')} {u' : State S T A R C' β'}
    (hs : m'.run s' es = some u') : ∃ es u, m.run s es = some u ∧ h.Rel u' u := by
  induction es generalizing s' s with
  | nil =>
    cases hs
    exact ⟨[], s, rfl, hrel⟩
  | cons e es ih =>
    obtain ⟨mid', hmid', hs⟩ := Option.bind_eq_some_iff.mp hs
    rcases hrel.step hmid' with hsame | ⟨e, mid, hmid, hmoved⟩
    · exact ih hsame hs
    · obtain ⟨es, u, hu, hend⟩ := ih hmoved hs
      exact ⟨e :: es, u, Option.bind_eq_some_iff.mpr ⟨mid, hmid, hu⟩, hend⟩

end Wraps

end Wraps

end Parallel
end Rcard
