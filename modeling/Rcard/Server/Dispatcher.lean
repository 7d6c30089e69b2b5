/-
The generated dispatcher (`firmware/modules/ipc/macros/src/server/dispatcher.rs`).

A dispatcher serves one arena.  For a method that its interface declares it decodes the arguments,
resolves the peers, acquires the handles that are moved to it, looks the receiver up, and runs the
method.  A receiver has to be the sender's.  A peer is looked up by its key alone.

All arenas of all servers are in one state, so that the messages a dispatcher sends to other
servers are part of the model.  A message of the implicit protocol is one operation on an arena
(`Arena.dispatchImplicit`).  Other tasks act between any two messages.
-/
import Rcard.Arena.Implicit

namespace Rcard.Ipc

inductive MethodKind where
  | constructor
  | message
  | staticMessage
  | destructor
  deriving DecidableEq, Repr

/-- A parameter that is not a lease.  Of a clone that is an `impl Trait` the dispatcher has the
arena of the peer, and any other clone reaches the method as a key.  A move that is an `impl Trait`
is `dyn`: it is acquired from the server in the handle. -/
inductive Param (ι : Type) where
  | value
  | clone (peer : Option ι)
  | move (dyn : Bool)
  deriving DecidableEq, Repr

structure DynHandle where
  serverId : UInt16
  kind : UInt8
  handle : RawHandle
  deriving DecidableEq, Repr

/-- What is fixed: the arenas there are, each with the task of its server. -/
structure System (ι : Type) where
  Resource : ι → Type
  size : ι → Nat
  priorityFn : ι → UInt16 → Int8
  taskIndex : ι → UInt16
  route : UInt16 → UInt8 → Option ι
  postcard : Postcard

structure State {ι : Type} (sys : System ι) where
  arenas : ∀ a, Arena (sys.Resource a) (sys.size a)
  alive : ι → Bool
  clock : Nat

structure Method (ι : Type) where
  kind : MethodKind
  params : List (Param ι)
  decode : List UInt8 → Option (RawHandle × Vector DynHandle params.length)

/-- A value that a method is given, and where it comes from. -/
structure Received {ι : Type} (sys : System ι) where
  arena : ι
  key : RawHandle
  value : sys.Resource arena

structure Invocation {ι : Type} (sys : System ι) where
  receiver : Option (Received sys)
  peers : List (Received sys)

inductive Outcome {ι : Type} (sys : System ι) where
  | replied (reply : Reply)
  | panicked
  | runs (invocation : Invocation sys)

/-- A handle that is moved, and whether it was acquired. -/
structure Acquired where
  dyn : Bool
  arg : DynHandle
  flag : Bool
  deriving DecidableEq, Repr

def replyErr (error : Error) : Reply := .ok [1, error.toByte]

namespace State

variable {ι : Type} [DecidableEq ι] {sys : System ι}

def set (s : State sys) (a : ι) (arena : Arena (sys.Resource a) (sys.size a)) : State sys :=
  { s with arenas := Function.update s.arenas a arena }

/-- What the other tasks do until the next message arrives. -/
def tick (env : Nat → State sys → State sys) (s : State sys) : State sys :=
  env s.clock { s with clock := s.clock + 1 }

/-- A message to the server of an arena.  There is no reply if that server is dead. -/
def send {β : Type} (env : Nat → State sys → State sys) (s : State sys) (a : ι)
    (f : Arena (sys.Resource a) (sys.size a) → Arena (sys.Resource a) (sys.size a) × β) :
    State sys × Option β :=
  let s := s.tick env
  if s.alive a then
    let (arena, result) := f (s.arenas a)
    (s.set a arena, some result)
  else (s, none)

theorem set_arenas_of_ne (s : State sys) {a b : ι} (h : a ≠ b)
    (x : Arena (sys.Resource b) (sys.size b)) : (s.set b x).arenas a = s.arenas a :=
  Function.update_of_ne h ..

theorem set_arenas_self (s : State sys) (a : ι) (x : Arena (sys.Resource a) (sys.size a)) :
    (s.set a x).arenas a = x :=
  Function.update_self ..

section Send

variable {β : Type} {env : Nat → State sys → State sys} {s : State sys} {a : ι}
  {f : Arena (sys.Resource a) (sys.size a) → Arena (sys.Resource a) (sys.size a) × β}

theorem send_of_alive (h : (s.tick env).alive a = true) : s.send env a f =
    ((s.tick env).set a (f ((s.tick env).arenas a)).1, some (f ((s.tick env).arenas a)).2) := by
  exact if_pos h

theorem send_of_dead (h : (s.tick env).alive a ≠ true) : s.send env a f = (s.tick env, none) := by
  exact if_neg h

end Send

/-! ## Peers -/

def resolvePeers (s : State sys) : List (Param ι × DynHandle) → Option (List (Received sys))
  | [] => some []
  | (.clone (some peer), arg) :: args =>
    match (s.arenas peer).get arg.handle with
    | none => none
    | some value =>
      (s.resolvePeers args).map fun peers =>
        { arena := peer, key := arg.handle, value } :: peers
  | _ :: args => s.resolvePeers args

/-! ## Moved handles -/

section Moved

variable (env : Nat → State sys → State sys) (own : ι) (sender : UInt16)

def acquireOne (s : State sys) (dyn : Bool) (arg : DynHandle) : State sys × Bool :=
  if dyn then
    match sys.route arg.serverId arg.kind with
    | none => (s, false)
    | some a =>
      let (s, result) := s.send env a fun arena =>
        arena.acquire arg.handle (sys.taskIndex own) (sys.priorityFn a (sys.taskIndex own))
      (s, result == some true)
  else
    let (arena, flag) :=
      (s.arenas own).acquire arg.handle (sys.taskIndex own) (sys.priorityFn own sender)
    (s.set own arena, flag)

def acquire (s : State sys) : List (Param ι × DynHandle) → State sys × List Acquired
  | [] => (s, [])
  | (.move dyn, arg) :: args =>
    let (s, flag) := s.acquireOne env own sender dyn arg
    let (s, acquired) := s.acquire args
    (s, { dyn, arg, flag } :: acquired)
  | _ :: args => s.acquire args

def release (s : State sys) (moved : Acquired) : State sys :=
  if moved.dyn then
    match sys.route moved.arg.serverId moved.arg.kind with
    | none => s
    | some a =>
      (s.send env a fun arena => arena.removeOwned moved.arg.handle (sys.taskIndex own)).1
  else s.set own ((s.arenas own).removeOwned moved.arg.handle (sys.taskIndex own)).1

/-- The checks of the flags.  At the first one that is not set, what was acquired before it is
released. -/
def check (s : State sys) (before : List Acquired) : List Acquired → State sys × Bool
  | [] => (s, true)
  | moved :: rest =>
    if moved.flag then s.check (before ++ [moved]) rest
    else (before.foldl (fun s prev => if prev.flag then s.release env own prev else s) s, false)

/-! ## The method -/

/-- The method is run on what the arena has under the key of the receiver. -/
def enter (s : State sys) (kind : MethodKind) (handle : RawHandle) (peers : List (Received sys)) :
    State sys × Outcome sys :=
  match kind with
  | .constructor => (s, .runs { receiver := none, peers })
  | .staticMessage => (s, .runs { receiver := none, peers })
  | .message =>
    match ((s.arenas own).getMutOwned handle sender id).2 with
    | none => (s, .replied (replyErr .handleLost))
    | some value => (s, .runs { receiver := some { arena := own, key := handle, value }, peers })
  | .destructor =>
    let (arena, value) := (s.arenas own).removeOwned handle sender
    match value with
    | none => (s.set own arena, .replied (replyErr .handleLost))
    | some value =>
      (s.set own arena, .runs { receiver := some { arena := own, key := handle, value }, peers })

/-- The arm of a method, with its arguments decoded. -/
def arm (s : State sys) (kind : MethodKind) (handle : RawHandle)
    (args : List (Param ι × DynHandle)) (leases : Bool) : State sys × Outcome sys :=
  if !leases then (s, .replied (.error malformedMessage []))
  else
    match s.resolvePeers args with
    | none => (s, .replied (replyErr .handleLost))
    | some peers =>
      let (s, acquired) := s.acquire env own sender args
      let (s, ok) := s.check env own [] acquired
      if ok then s.enter own sender kind handle peers
      else (s, .replied (replyErr .transferFailed))

/-- What the reply to arguments that cannot be decoded shows of them. -/
def diagnostic (data : List UInt8) : List UInt8 := UInt8.ofNat data.length :: data.take 16

/-- `ResourceDispatch::dispatch`, for the methods of the interface.  `leases` says whether every
lease of the method can be bound. -/
def dispatch (s : State sys) (methods : UInt8 → Option (Method ι)) (methodId : UInt8)
    (data : List UInt8) (leases : Bool) : State sys × Outcome sys :=
  match (s.arenas own).dispatchImplicit sys.postcard methodId data sender (sys.priorityFn own) with
  | (arena, some reply) => (s.set own arena, .replied reply)
  | (_, none) =>
    match methods methodId with
    | none => (s, .panicked)
    | some m =>
      match m.decode data with
      | none => (s, .replied (.error malformedMessage (diagnostic data)))
      | some (handle, args) =>
        s.arm env own sender m.kind handle (m.params.zip args.toList) leases

end Moved

end State

/-! ## A file system -/

inductive FsArena where
  | fileSystem
  | file
  deriving DecidableEq, Repr

/-- Both arenas are those of task 7. -/
def fsSystem : System FsArena where
  Resource := fun _ => Nat
  size := fun _ => 4
  priorityFn := fun _ _ => 0
  taskIndex := fun _ => 7
  route := fun serverId kind =>
    if serverId ≠ 7 then none
    else if kind = 0x12 then some .fileSystem
    else if kind = 0x13 then some .file
    else none
  postcard := Arena.varintCodec

/-- The state after operations on the arena of file systems. -/
def fsState (ops : List (Arena.Op Nat)) : State fsSystem where
  arenas
    | .fileSystem => (Arena.new 0 (by decide)).run ops
    | .file => Arena.new 0 (by decide)
  alive := fun _ => true
  clock := 0

end Rcard.Ipc
