/-
Programs that access a shared state while others change it.

A program is a tree of accesses.  Between two accesses the rest of the system
may take any steps, summed up in a relation `rely`.  `Safe` says that a program,
started in a state, makes every access in a state that permits it and ends in
the postcondition, whatever the others do in between.  `Triple` is the same for
all states of a precondition, with one rule per way of building a program.

A condition that the others cannot break is `Stable`.  Every assertion between
two accesses has to be.
-/
import Mathlib.Init

namespace Rcard

/-- A program whose access `a` answers with an `R a`. -/
inductive Prog (A : Type) (R : A → Type) (α : Type) where
  | ret (a : α)
  | act (a : A) (k : R a → Prog A R α)

namespace Prog

variable {A : Type} {R : A → Type} {α β : Type} {S : Type}

def bind : Prog A R α → (α → Prog A R β) → Prog A R β
  | ret a, f => f a
  | act a k, f => act a fun r => bind (k r) f

instance : Monad (Prog A R) where
  pure := ret
  bind := bind

theorem bind_assoc {γ : Type} (p : Prog A R α) (f : α → Prog A R β) (g : β → Prog A R γ) :
    p >>= f >>= g = p >>= fun a => f a >>= g := by
  induction p with
  | ret a => rfl
  | act a k ih => exact congrArg (act a) (funext ih)

theorem bind_ret (p : Prog A R α) : p >>= ret = p := by
  induction p with
  | ret a => rfl
  | act a k ih => exact congrArg (act a) (funext ih)

def perform (a : A) : Prog A R (R a) := act a ret

/-! ## Running alone -/

/-- The state and result of a program nobody interferes with. -/
def run (exec : S → (a : A) → S × R a) : Prog A R α → S → S × α
  | ret a, s => (s, a)
  | act a k, s => run exec (k (exec s a).2) (exec s a).1

section Run

variable {exec : S → (a : A) → S × R a}

@[simp] theorem run_perform (a : A) (s : S) : run exec (perform a) s = exec s a := rfl

theorem run_bind (p : Prog A R α) (f : α → Prog A R β) (s : S) :
    run exec (p >>= f) s = run exec (f (run exec p s).2) (run exec p s).1 := by
  induction p generalizing s with
  | ret a => rfl
  | act a k ih => exact ih _ _

end Run

/-! ## Running among others -/

section Safe

variable (exec : S → (a : A) → S × R a) (rely : S → S → Prop) (ok : S → A → Prop)

/-- Every access of the program is permitted where it happens, and the program
ends in `post`. -/
def Safe : Prog A R α → (α → S → Prop) → S → Prop
  | ret a, post, s => ∀ s', rely s s' → post a s'
  | act a k, post, s => ∀ s', rely s s' →
      ok s' a ∧ Safe (k (exec s' a).2) post (exec s' a).1

def Triple (pre : S → Prop) (p : Prog A R α) (post : α → S → Prop) : Prop :=
  ∀ s, pre s → Safe exec rely ok p post s

def Stable (P : S → Prop) : Prop := ∀ s s', rely s s' → P s → P s'

variable {exec rely ok}
variable {p : Prog A R α} {post : α → S → Prop} {s : S} {pre : S → Prop}

theorem Safe.after_others {s' : S} (htrans : ∀ a b c, rely a b → rely b c → rely a c)
    (h : Safe exec rely ok p post s) (hr : rely s s') : Safe exec rely ok p post s' := by
  cases p with
  | ret a | act a k => exact fun s'' hr' => h s'' (htrans _ _ _ hr hr')

theorem Safe.act {a : A} {k : R a → Prog A R α} (hrefl : ∀ s, rely s s)
    (h : Safe exec rely ok (.act a k) post s) :
    ok s a ∧ Safe exec rely ok (k (exec s a).2) post (exec s a).1 :=
  h s (hrefl s)

theorem Safe.done {a : α} (hrefl : ∀ s, rely s s) (h : Safe exec rely ok (.ret a) post s) :
    post a s :=
  h s (hrefl s)

theorem Safe.bind {f : α → Prog A R β} {mid : α → S → Prop} {post : β → S → Prop}
    (hrefl : ∀ s, rely s s) (h : Safe exec rely ok p mid s)
    (hf : ∀ a s, mid a s → Safe exec rely ok (f a) post s) :
    Safe exec rely ok (p >>= f) post s := by
  induction p generalizing s with
  | ret a => exact hf a s (h s (hrefl s))
  | act a k ih =>
    intro s' hr
    obtain ⟨hok, hk⟩ := h s' hr
    exact ⟨hok, ih _ hk⟩

theorem Safe.mono {post' : α → S → Prop} (hpost : ∀ a s, post a s → post' a s)
    (h : Safe exec rely ok p post s) : Safe exec rely ok p post' s := by
  induction p generalizing s with
  | ret a => exact fun s' hr => hpost a s' (h s' hr)
  | act a k ih => exact fun s' hr => ⟨(h s' hr).1, ih _ (h s' hr).2⟩

theorem Triple.ret {a : α} (hstable : Stable rely pre) (h : ∀ s, pre s → post a s) :
    Triple exec rely ok pre (.ret a) post :=
  fun s hs s' hr => h s' (hstable s s' hr hs)

theorem Triple.act {a : A} {k : R a → Prog A R α} (hstable : Stable rely pre)
    (hok : ∀ s, pre s → ok s a) {m : R a → S → Prop}
    (hmid : ∀ s, pre s → m (exec s a).2 (exec s a).1)
    (hk : ∀ r, Triple exec rely ok (m r) (k r) post) : Triple exec rely ok pre (.act a k) post :=
  fun s hs s' hr => ⟨hok s' (hstable s s' hr hs), hk _ _ (hmid s' (hstable s s' hr hs))⟩

theorem Triple.bind {f : α → Prog A R β} {mid : α → S → Prop} {post : β → S → Prop}
    (hrefl : ∀ s, rely s s) (hp : Triple exec rely ok pre p mid)
    (hf : ∀ a, Triple exec rely ok (mid a) (f a) post) : Triple exec rely ok pre (p >>= f) post :=
  fun s hs => (hp s hs).bind hrefl hf

theorem Triple.weaken {pre' : S → Prop} (h : Triple exec rely ok pre p post)
    (hpre : ∀ s, pre' s → pre s) : Triple exec rely ok pre' p post :=
  fun s hs => h s (hpre s hs)

end Safe

/-! ## The accesses of a program that runs alone -/

section Alone

variable (exec : S → (a : A) → S × R a)

def accesses : Prog A R α → S → List A
  | ret _, _ => []
  | act a k, s => a :: accesses (k (exec s a).2) (exec s a).1

/-- The program makes only permitted accesses and ends in `post`. -/
abbrev Does (ok : A → Prop) (p : Prog A R α) (post : α → S → Prop) (s : S) : Prop :=
  Safe exec Eq (fun _ => ok) p post s

variable {exec} {ok : A → Prop}
variable {post : α → S → Prop} {s : S}

theorem Does.ret {a : α} (h : post a s) : Does exec ok (pure a) post s := by
  rintro s' rfl
  exact h

theorem Does.act {a : A} {k : R a → Prog A R α} (hok : ok a)
    (hk : Does exec ok (k (exec s a).2) post (exec s a).1) : Does exec ok (.act a k) post s := by
  rintro s' rfl
  exact ⟨hok, hk⟩

theorem Does.run {p : Prog A R α} (h : Does exec ok p post s) :
    post (run exec p s).2 (run exec p s).1 := by
  induction p generalizing s with
  | ret a => exact h s rfl
  | act a k ih => exact ih _ (h s rfl).2

theorem Does.accesses {p : Prog A R α} (h : Does exec ok p post s) :
    ∀ a ∈ accesses exec p s, ok a := by
  induction p generalizing s with
  | ret a => nofun
  | act a k ih =>
    intro b hb
    rcases List.mem_cons.mp hb with rfl | hb
    · exact (h s rfl).1
    · exact ih _ (h s rfl).2 b hb

end Alone

end Prog

end Rcard
