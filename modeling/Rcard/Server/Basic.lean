/-
The IPC server (`firmware/modules/ipc/src/server.rs`).

A server owns one arena per registered resource and a table with the last
generation it saw of each client task.  Every message first compares the
sender's generation with that table.  A changed generation means that the
client restarted, and then everything the client owned, and every transfer
pending for it, is dropped from all arenas.

A dispatcher is generated code.  Of its methods this file has the implicit ones.
A method the interface declares acts on the arenas by the operations of
`Arena.Op` and is not part of `dispatchMessage`.
-/
import Rcard.Arena.Implicit
import Mathlib.Data.Fintype.EquivFin

namespace Rcard

open Select Function

/-- The client identity in a message: a task index and the low bits of the
task's restart count. -/
structure TaskId where
  taskIndex : UInt16
  generation : UInt8
  deriving DecidableEq, Repr

structure ClientGen where
  taskIndex : UInt16
  generation : UInt8
  active : Bool
  deriving DecidableEq, Repr

def ClientGen.empty : ClientGen := { taskIndex := 0, generation := 0, active := false }

/-- What is fixed when a server is set up: the registered dispatchers, each with
its kind byte, its arena's type and size and its priority function, the access
list, and the codec. -/
structure Server.Config (count : Nat) where
  Resource : Fin count → Type
  size : Fin count → Nat
  kind : Fin count → UInt8
  priorityFn : Fin count → UInt16 → Int8
  aclFn : UInt16 → Bool
  postcard : Postcard

structure Server {count : Nat} (cfg : Server.Config count) (taskCount : Nat) where
  arenas : ∀ r, Arena (cfg.Resource r) (cfg.size r)
  clients : Fin taskCount → ClientGen

/-- An incoming message.  `data` is `none` when the kernel reports that it did
not fit the receive buffer. -/
structure Message where
  sender : TaskId
  operation : UInt16
  data : Option (List UInt8)

def splitOpcode (op : UInt16) : UInt8 × UInt8 := ((op >>> 8).toUInt8, op.toUInt8)

def accessViolation : UInt32 := 2

inductive Response where
  | reply (r : Reply)
  | badMessageSize
  /-- The method belongs to the interface of the resource. -/
  | declared
  deriving DecidableEq, Repr

def Arena.cleanupClient {T : Type} {N : Nat} (s : Arena T N) (taskIndex : UInt16) : Arena T N :=
  (s.removeByOwner taskIndex).cancelTransfersTo taskIndex

namespace Server

variable {count taskCount : Nat} {cfg : Config count}

section

variable (s : Server cfg taskCount)

/-- The loop over all dispatchers that calls `cleanup_client`. -/
def cleanupAll (taskIndex : UInt16) : Server cfg taskCount :=
  { s with arenas := fun r => (s.arenas r).cleanupClient taskIndex }

def setClient (k : Fin taskCount) (c : ClientGen) :
    Server cfg taskCount :=
  { s with clients := update s.clients k c }

def clientOf (taskIndex : UInt16) : Option (Fin taskCount) :=
  firstIdx fun k => (s.clients k).active && (s.clients k).taskIndex == taskIndex

def freeClient : Option (Fin taskCount) :=
  firstIdx fun k => !(s.clients k).active

/-- `check_client_generation`.  `none` is the panic on a full client table. -/
def checkClientGeneration (sender : TaskId) :
    Option (Server cfg taskCount) :=
  match s.clientOf sender.taskIndex with
  | some k =>
    if (s.clients k).generation ≠ sender.generation then
      some ((s.cleanupAll sender.taskIndex).setClient k
        { s.clients k with generation := sender.generation })
    else some s
  | none =>
    match s.freeClient with
    | some k => some (s.setClient k ⟨sender.taskIndex, sender.generation, true⟩)
    | none => none

def setArena (r : Fin count)
    (a : Arena (cfg.Resource r) (cfg.size r)) : Server cfg taskCount :=
  { s with arenas := update s.arenas r a }

theorem setArena_arenas_self (r : Fin count)
    (a : Arena (cfg.Resource r) (cfg.size r)) : (s.setArena r a).arenas r = a :=
  update_self ..

end

theorem setArena_arenas_of_ne {s : Server cfg taskCount} {q r : Fin count} (h : r ≠ q)
    (a : Arena (cfg.Resource q) (cfg.size q)) : (s.setArena q a).arenas r = s.arenas r :=
  update_of_ne h ..

/-- `dispatch_message` from the access check on. -/
def route (s : Server cfg taskCount) (msg : Message) : Server cfg taskCount × Response :=
  if !cfg.aclFn msg.sender.taskIndex then (s, .reply (.error accessViolation []))
  else
    let (kind, method) := splitOpcode msg.operation
    if method = notifyDeadMethod then (s.cleanupAll msg.sender.taskIndex, .reply (.ok []))
    else
      match msg.data with
      | none => (s, .badMessageSize)
      | some data =>
        match firstIdx fun r => cfg.kind r == kind with
        | none => (s, .reply (.error malformedMessage []))
        | some r =>
          let (a, reply) := (s.arenas r).dispatchImplicit cfg.postcard method data
            msg.sender.taskIndex (cfg.priorityFn r)
          (s.setArena r a, (reply.map Response.reply).getD .declared)

def dispatchMessage (s : Server cfg taskCount) (msg : Message) :
    Option (Server cfg taskCount × Response) :=
  (s.checkClientGeneration msg.sender).map fun s₁ => s₁.route msg

/-- `Server::new` with its dispatchers registered. -/
def new (size_le : ∀ r, cfg.size r ≤ 255) : Server cfg taskCount :=
  { arenas := fun r => Arena.new (cfg.kind r) (size_le r)
    clients := fun _ => ClientGen.empty }

/-! ## The client table -/

structure TableInv (s : Server cfg taskCount) : Prop where
  distinct : ∀ k m, (s.clients k).active = true → (s.clients m).active = true →
    (s.clients k).taskIndex = (s.clients m).taskIndex → k = m
  bound : ∀ k, (s.clients k).active = true → (s.clients k).taskIndex.toNat < taskCount

section Table

variable {s : Server cfg taskCount}

theorem tableInv_new (size_le : ∀ r, cfg.size r ≤ 255) :
    (new size_le : Server cfg taskCount).TableInv := by
  refine ⟨fun k m hk => ?_, fun k hk => ?_⟩
  · exact absurd hk (by simp [new, ClientGen.empty])
  · exact absurd hk (by simp [new, ClientGen.empty])

variable {t : UInt16} {k : Fin taskCount} {sender : TaskId}

theorem clientOf_some (h : s.clientOf t = some k) :
    (s.clients k).active = true ∧ (s.clients k).taskIndex = t := by
  have hk := firstIdx_some h
  simp only [Bool.and_eq_true, beq_iff_eq] at hk
  exact hk

theorem clientOf_none (h : s.clientOf t = none) (k : Fin taskCount) :
    ¬ ((s.clients k).active = true ∧ (s.clients k).taskIndex = t) := by
  rintro ⟨hactive, hindex⟩
  have hk := firstIdx_eq_none.mp h k
  rw [hactive, hindex] at hk
  simp at hk

/-- With every entry in use, each of the `taskCount` tasks has one. -/
theorem TableInv.exists_free (hs : s.TableInv) (ht : t.toNat < taskCount)
    (hnone : s.clientOf t = none) : ∃ k, s.freeClient = some k := by
  by_contra hcon
  have hactive : ∀ k, (s.clients k).active = true := by
    intro k
    by_contra hk
    exact hcon (exists_firstIdx (i := k) (by simpa using hk))
  let f : Fin taskCount → Fin taskCount := fun k =>
    ⟨(s.clients k).taskIndex.toNat, hs.bound k (hactive k)⟩
  have hinj : Injective f := by
    intro k m hkm
    have hval : (f k).val = (f m).val := by rw [hkm]
    exact hs.distinct k m (hactive k) (hactive m) (UInt16.toNat.inj hval)
  obtain ⟨k, hk⟩ := Finite.surjective_of_injective hinj ⟨t.toNat, ht⟩
  have hval : (f k).val = t.toNat := by rw [hk]
  exact clientOf_none hnone k ⟨hactive k, UInt16.toNat.inj hval⟩

/-- What `check_client_generation` does: nothing, a clean-up for a client with
an outdated entry, or a new entry for a client it did not know. -/
inductive CheckCase (s : Server cfg taskCount) (sender : TaskId) :
    Server cfg taskCount → Prop
  | same {k : Fin taskCount} (hk : s.clientOf sender.taskIndex = some k)
      (hgen : (s.clients k).generation = sender.generation) : CheckCase s sender s
  | restarted {k : Fin taskCount} (hk : s.clientOf sender.taskIndex = some k)
      (hgen : (s.clients k).generation ≠ sender.generation) :
      CheckCase s sender ((s.cleanupAll sender.taskIndex).setClient k
        { s.clients k with generation := sender.generation })
  | first {k : Fin taskCount} (hnone : s.clientOf sender.taskIndex = none)
      (hfree : s.freeClient = some k) :
      CheckCase s sender (s.setClient k ⟨sender.taskIndex, sender.generation, true⟩)

theorem checkClientGeneration_cases (hs : s.TableInv) (ht : sender.taskIndex.toNat < taskCount) :
    ∃ s', s.checkClientGeneration sender = some s' ∧ CheckCase s sender s' := by
  unfold checkClientGeneration
  cases hk : s.clientOf sender.taskIndex with
  | some k =>
    by_cases hgen : (s.clients k).generation = sender.generation
    · exact ⟨s, by simp [hgen], .same hk hgen⟩
    · exact ⟨_, by simp only [ne_eq, hgen, not_false_eq_true, if_true], .restarted hk hgen⟩
  | none =>
    obtain ⟨k, hfree⟩ := hs.exists_free ht hk
    exact ⟨_, by simp only [hfree], .first hk hfree⟩

theorem setClient_clients_self (k : Fin taskCount) (c : ClientGen) :
    (s.setClient k c).clients k = c := update_self ..

theorem setClient_clients_of_ne {m : Fin taskCount} (h : m ≠ k) (c : ClientGen) :
    (s.setClient k c).clients m = s.clients m := update_of_ne h ..

theorem TableInv.setClient (hs : s.TableInv) {c : ClientGen}
    (hbound : c.taskIndex.toNat < taskCount)
    (huniq : ∀ m, m ≠ k → (s.clients m).active = true → (s.clients m).taskIndex ≠ c.taskIndex) :
    (s.setClient k c).TableInv := by
  refine ⟨fun m n hm hn heq => ?_, fun m hm => ?_⟩
  · by_cases hmk : m = k
    · by_cases hnk : n = k
      · rw [hmk, hnk]
      · rw [hmk, setClient_clients_self, setClient_clients_of_ne hnk] at heq
        rw [setClient_clients_of_ne hnk] at hn
        exact absurd heq.symm (huniq n hnk hn)
    · by_cases hnk : n = k
      · rw [hnk, setClient_clients_self, setClient_clients_of_ne hmk] at heq
        rw [setClient_clients_of_ne hmk] at hm
        exact absurd heq (huniq m hmk hm)
      · rw [setClient_clients_of_ne hmk] at hm heq
        rw [setClient_clients_of_ne hnk] at hn heq
        exact hs.distinct m n hm hn heq
  · by_cases hmk : m = k
    · rw [hmk, setClient_clients_self]
      exact hbound
    · rw [setClient_clients_of_ne hmk] at hm ⊢
      exact hs.bound m hm

theorem CheckCase.tableInv {s' : Server cfg taskCount} (hs : s.TableInv)
    (ht : sender.taskIndex.toNat < taskCount) (h : CheckCase s sender s') : s'.TableInv := by
  cases h with
  | same => exact hs
  | restarted hk hgen =>
    have hc := clientOf_some hk
    have hclean : (s.cleanupAll sender.taskIndex).TableInv := ⟨hs.distinct, hs.bound⟩
    refine hclean.setClient (hs.bound _ hc.1) fun m hm hactive heq => ?_
    exact hm (hs.distinct m _ hactive hc.1 heq)
  | first hnone hfree =>
    exact hs.setClient ht fun m _ hactive heq => clientOf_none hnone m ⟨hactive, heq⟩

theorem CheckCase.other {s' : Server cfg taskCount} (h : CheckCase s sender s')
    (hactive : (s.clients k).active = true) (hne : (s.clients k).taskIndex ≠ sender.taskIndex) :
    s'.clients k = s.clients k := by
  cases h with
  | same => rfl
  | restarted hk hgen =>
    refine setClient_clients_of_ne ?_ _
    rintro rfl
    exact hne (clientOf_some hk).2
  | first hnone hfree =>
    refine setClient_clients_of_ne ?_ _
    rintro rfl
    have hfree := firstIdx_some hfree
    rw [hactive] at hfree
    exact absurd hfree (by decide)

end Table

end Server

end Rcard
