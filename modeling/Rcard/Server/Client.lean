/-
The generated client (`firmware/modules/ipc/macros/src/client`, `transfer/prepare.rs`).

A call first clones the handles that are passed by reference to the target, then forgets each
handle that it moves and has its source prepare the transfer, and then sends the message.  When a
transfer cannot be prepared, those prepared before are cancelled and the handles that are not
forgotten yet are dropped, the last one first.  After the message the client does nothing about
the handles, whatever the reply.
-/
import Rcard.Server.Dispatcher

namespace Rcard.Ipc

/-- A call of a method.  The target may die after it has gone through the first `dies` of the
parameters.  `effect` is what the method does to the arena of its resource. -/
structure Call {ι : Type} (sys : System ι) where
  client : UInt16
  own : ι
  kind : MethodKind
  handle : RawHandle
  args : List (Param ι × DynHandle)
  leases : Bool
  dies : Option Nat
  effect : Invocation sys → Arena (sys.Resource own) (sys.size own) →
    Arena (sys.Resource own) (sys.size own)

def Call.target {ι : Type} {sys : System ι} (c : Call sys) : UInt16 := sys.taskIndex c.own

/-- How a call returns.  `arg` is the handle of the parameter that the error names, and `acquired`
what the dispatcher found when it acquired the handles. -/
inductive Returned {ι : Type} (sys : System ι) where
  | cloneFailed (arg : DynHandle) (error : CloneError)
  | transferLost (param : Nat)
  | died
  | served (acquired : List Acquired) (outcome : Outcome sys)

def Returned.cloneError {ι : Type} {sys : System ι} : Returned sys → Option CloneError
  | .cloneFailed _ error => some error
  | _ => none

/-- The handles that are moved, each with whether it is of an `impl Trait`. -/
def moves {ι : Type} : List (Param ι × DynHandle) → List (Bool × DynHandle)
  | [] => []
  | (.move dyn, arg) :: args => (dyn, arg) :: moves args
  | _ :: args => moves args

theorem mem_moves {ι : Type} {args : List (Param ι × DynHandle)} {dyn : Bool} {arg : DynHandle} :
    (dyn, arg) ∈ moves args ↔ (Param.move dyn, arg) ∈ args := by
  induction args with
  | nil => exact iff_of_false List.not_mem_nil List.not_mem_nil
  | cons head args ih =>
    match head with
    | (.value, _) => simp [moves, ih]
    | (.clone _, _) => simp [moves, ih]
    | (.move _, _) => simp [moves, ih]

namespace State

variable {ι : Type} [DecidableEq ι] {sys : System ι} (env : Nat → State sys → State sys)

/-- A message about a handle, to its server. -/
def sendTo {β : Type} (s : State sys) (arg : DynHandle)
    (f : ∀ a, Arena (sys.Resource a) (sys.size a) → Arena (sys.Resource a) (sys.size a) × β) :
    State sys × Option β :=
  match sys.route arg.serverId arg.kind with
  | none => (s, none)
  | some a => s.send env a (f a)

/-! ## Clones -/

/-- `clone_for`. -/
def cloneFor (s : State sys) (client target : UInt16) (arg : DynHandle) :
    State sys × Except CloneError DynHandle :=
  match s.sendTo env arg fun a arena =>
    arena.cloneHandle arg.handle client target (sys.priorityFn a target) with
  | (s, none) => (s, .error .serverDied)
  | (s, some (.error error)) => (s, .error error)
  | (s, some (.ok handle)) => (s, .ok { arg with handle })

def cloneAll (s : State sys) (client target : UInt16) :
    List (Param ι × DynHandle) →
      State sys × Except (DynHandle × CloneError) (List (Param ι × DynHandle))
  | [] => (s, .ok [])
  | (.clone peer, arg) :: args =>
    match s.cloneFor env client target arg with
    | (s, .error error) => (s, .error (arg, error))
    | (s, .ok copy) =>
      let (s, rest) := s.cloneAll client target args
      (s, rest.map fun rest => (.clone peer, copy) :: rest)
  | head :: args =>
    let (s, rest) := s.cloneAll client target args
    (s, rest.map fun rest => head :: rest)

/-- Moved handles are passed on as they are. -/
theorem moves_cloneAll {env : Nat → State sys → State sys} {s : State sys} {client target : UInt16}
    {args args' : List (Param ι × DynHandle)}
    (h : (s.cloneAll env client target args).2 = .ok args') : moves args' = moves args := by
  induction args generalizing s args' with
  | nil =>
    cases h
    rfl
  | cons head args ih =>
    have hrest : ∀ {t : State sys} {wire : Param ι × DynHandle},
        (t.cloneAll env client target args).2.map (fun rest => wire :: rest) = .ok args' →
          ∃ rest, args' = wire :: rest ∧ moves rest = moves args := by
      intro t wire heq
      cases hresult : (t.cloneAll env client target args).2 with
      | error error =>
        rw [hresult] at heq
        cases heq
      | ok rest =>
        rw [hresult] at heq
        cases heq
        exact ⟨rest, rfl, ih hresult⟩
    match head with
    | (.value, _) =>
      obtain ⟨rest, rfl, hmoves⟩ := hrest h
      exact hmoves
    | (.move dyn, arg) =>
      obtain ⟨rest, rfl, hmoves⟩ := hrest h
      exact congrArg ((dyn, arg) :: ·) hmoves
    | (.clone peer, arg) =>
      rw [cloneAll] at h
      grind [moves]

/-! ## Moves -/

theorem acquire_moves (env : Nat → State sys → State sys) (s : State sys) (own : ι)
    (sender : UInt16) (args : List (Param ι × DynHandle)) :
    (s.acquire env own sender args).2.map (fun moved => (moved.dyn, moved.arg)) = moves args := by
  induction args generalizing s with
  | nil => rfl
  | cons head args ih =>
    match head with
    | (.value, _) => exact ih s
    | (.clone _, _) => exact ih s
    | (.move dyn, arg) => exact congrArg ((dyn, arg) :: ·) (ih _)

theorem mem_acquire {env : Nat → State sys → State sys} {s : State sys} {own : ι}
    {sender : UInt16} {args : List (Param ι × DynHandle)} {moved : Acquired}
    (h : moved ∈ (s.acquire env own sender args).2) : (moved.dyn, moved.arg) ∈ moves args := by
  rw [← acquire_moves env s own sender args]
  exact List.mem_map_of_mem h

/-- `Drop` of a handle. -/
def drop (client : UInt16) (s : State sys) (arg : DynHandle) : State sys :=
  (s.sendTo env arg fun _ arena => ((arena.removeOwned arg.handle client).1, ())).1

def cancel (client : UInt16) (s : State sys) (arg : DynHandle) : State sys :=
  (s.sendTo env arg fun _ arena => arena.cancelTransfer arg.handle client).1

/-- The transfers of the handles of which those in `done` are prepared.  The result is the position
of the one that could not be. -/
def prepare (s : State sys) (client target : UInt16) (done : List DynHandle) :
    List DynHandle → State sys × Option Nat
  | [] => (s, none)
  | arg :: args =>
    let (s, prepared) :=
      s.sendTo env arg fun _ arena => arena.prepareTransfer arg.handle client target
    if prepared = some true then s.prepare client target (done ++ [arg]) args
    else
      (args.reverse.foldl (drop env client) (done.foldl (cancel env client) s), some done.length)

/-! ## The call -/

/-- A server dies, and its arenas with it. -/
def kill (s : State sys) (task : UInt16) : State sys :=
  { s with alive := fun a => s.alive a && sys.taskIndex a != task }

/-- What the target makes of the message. -/
def deliver (s : State sys) (c : Call sys) (args : List (Param ι × DynHandle)) :
    State sys × Returned sys :=
  match c.dies with
  | some n => ((s.acquire env c.own c.client (args.take n)).1.kill c.target, .died)
  | none =>
    let acquired := (s.acquire env c.own c.client args).2
    match s.arm env c.own c.client c.kind c.handle args c.leases with
    | (s, .runs inv) =>
      (s.set c.own (c.effect inv (s.arenas c.own)), .served acquired (.runs inv))
    | (s, outcome) => (s, .served acquired outcome)

/-- The call, once the clones are made. -/
def transfer (s : State sys) (c : Call sys) (args : List (Param ι × DynHandle)) :
    State sys × Returned sys :=
  match s.prepare env c.client c.target [] ((moves args).map Prod.snd) with
  | (s, some param) => (s, .transferLost param)
  | (s, none) =>
    let s := s.tick env
    if s.alive c.own then s.deliver env c args else (s, .died)

def call (s : State sys) (c : Call sys) : State sys × Returned sys :=
  match s.cloneAll env c.client c.target c.args with
  | (s, .error (arg, error)) =>
    (((moves c.args).map Prod.snd).reverse.foldl (drop env c.client) s, .cloneFailed arg error)
  | (s, .ok args) => s.transfer env c args

end State
end Rcard.Ipc
