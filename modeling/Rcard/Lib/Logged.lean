/-
Computations that record what they access.
-/
import Mathlib.Init

namespace Rcard

structure Logged (ω α : Type) where
  val : α
  log : List ω

namespace Logged

variable {ω α β : Type}

instance : Monad (Logged ω) where
  pure a := ⟨a, []⟩
  bind x f := ⟨(f x.val).val, x.log ++ (f x.val).log⟩

@[simp] theorem val_pure (a : α) : (pure a : Logged ω α).val = a := rfl

@[simp] theorem log_pure (a : α) : (pure a : Logged ω α).log = [] := rfl

@[simp] theorem val_bind (x : Logged ω α) (f : α → Logged ω β) :
    (x >>= f).val = (f x.val).val := rfl

@[simp] theorem log_bind (x : Logged ω α) (f : α → Logged ω β) :
    (x >>= f).log = x.log ++ (f x.val).log := rfl

end Logged
end Rcard
