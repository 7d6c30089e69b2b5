/-
The shared tunnel buffer (`usb-proto/src/tunnel.rs`).

Three tasks map one buffer: the two transports and the host proxy.  The lock
word holds the id of the task that owns the buffer, or zero.  Only the owner
may touch the data and the length, and only the owner may pass the lock on or
give it up.  Nothing enforces this.  `transfer` and `release` store to the lock
without looking at it.

The tasks run on one core and preempt each other, so what a task does is a
program of single accesses (`Rcard.Lib.Prog`), with steps of the other tasks in
between.  What a task sends elsewhere is an access too.
-/
import Rcard.Lib.Mem
import Rcard.Lib.Prog
import Rcard.Proto.Ipc

namespace Rcard

def tunnelDataSize : Nat := maxDecodedFrame + 3

inductive Output where
  /-- A chunk on the serial line, with its type byte and before COBS encoding. -/
  | usart (type : UInt8) (body : List UInt8)
  | usb (packet : List UInt8)
  /-- A `host_request` notification for the host proxy. -/
  | notify (code : UInt32)
  /-- The identity message, in answer to `MoshiMoshi`. -/
  | awake (seq : UInt16)
  deriving DecidableEq, Repr

def Output.onUsb : Output → Bool
  | usb _ => true
  | _ => false

/-- The shared state, and what the kernel and the endpoint would answer now. -/
structure Tunnel where
  lock : UInt32
  len : UInt32
  data : Nat → UInt8
  out : List Output
  /-- Whether a write to the USB endpoint succeeds.  No task looks at the result
  of any other output. -/
  wireOk : Bool
  /-- `sys_refresh_task_id`: the id with the generation the task has now. -/
  refreshed : UInt32 → UInt32

namespace Tunnel

def free : UInt32 := 0

def new : Tunnel :=
  { lock := free, len := 0, data := fun _ => 0, out := [], wireOk := true, refreshed := id }

inductive Access where
  | compareExchange (current new : UInt32)
  | loadLock
  | refreshTid (tid : UInt32)
  | transfer (newOwner : UInt32)
  | release
  | getLen
  | setLen (v : UInt32)
  | read (n : Nat)
  | write (start : Nat) (bytes : List UInt8)
  | copyWithin (src n dst : Nat)
  | send (o : Output)
  deriving DecidableEq

namespace Access

abbrev Answer : Access → Type
  | compareExchange _ _ => Bool
  | loadLock => UInt32
  | refreshTid _ => UInt32
  | getLen => UInt32
  | read _ => List UInt8
  | send _ => Bool
  | _ => Unit

/-- The accesses the owner alone may make. -/
def owned : Access → Bool
  | transfer _ => true
  | release => true
  | setLen _ => true
  | write _ _ => true
  | copyWithin _ _ _ => true
  | _ => false

end Access

def exec (s : Tunnel) : (a : Access) → Tunnel × a.Answer
  | .compareExchange current new =>
    if s.lock = current then ({ s with lock := new }, true) else (s, false)
  | .loadLock => (s, s.lock)
  | .refreshTid tid => (s, s.refreshed tid)
  | .transfer newOwner => ({ s with lock := newOwner }, ())
  | .release => ({ s with lock := free }, ())
  | .getLen => (s, s.len)
  | .setLen v => ({ s with len := v }, ())
  | .read n => (s, Mem.slice s.data 0 n)
  | .write start bytes => ({ s with data := Mem.write s.data start bytes }, ())
  | .copyWithin src n dst => ({ s with data := Mem.copyWithin s.data src n dst }, ())
  | .send o =>
    if o.onUsb && !s.wireOk then (s, false) else ({ s with out := o :: s.out }, true)

theorem exec_data_of_not_owned {s : Tunnel} {a : Access} (h : ¬ a.owned = true) :
    (exec s a).1.data = s.data ∧ (exec s a).1.len = s.len := by
  cases a with
  | compareExchange current new | send o =>
    rw [exec]
    split <;> exact ⟨rfl, rfl⟩
  | setLen v => exact absurd rfl h
  | write start bytes => exact absurd rfl h
  | copyWithin src n dst => exact absurd rfl h
  | _ => exact ⟨rfl, rfl⟩

end Tunnel

open Tunnel Prog Triple

abbrev TunnelProg (α : Type) := Prog Access Access.Answer α

namespace Tunnel

def compareExchange (current new : UInt32) : TunnelProg Bool :=
  perform (Access.compareExchange current new)
def holder : TunnelProg UInt32 := perform Access.loadLock
def refreshTid (tid : UInt32) : TunnelProg UInt32 := perform (Access.refreshTid tid)
def transfer (newOwner : UInt32) : TunnelProg Unit := perform (Access.transfer newOwner)
def release : TunnelProg Unit := perform Access.release
def getLen : TunnelProg UInt32 := perform Access.getLen
def setLen (v : UInt32) : TunnelProg Unit := perform (Access.setLen v)
def read (n : Nat) : TunnelProg (List UInt8) := perform (Access.read n)
def write (start : Nat) (bytes : List UInt8) : TunnelProg Unit :=
  perform (Access.write start bytes)
def copyWithin (src n dst : Nat) : TunnelProg Unit := perform (Access.copyWithin src n dst)
def send (o : Output) : TunnelProg Bool := perform (Access.send o)

def tryAcquire (tid : UInt32) : TunnelProg Bool := compareExchange free tid

/-- `try_acquire_or_wipe`.  A holder whose refreshed id differs was restarted. -/
def tryAcquireOrWipe (tid : UInt32) : TunnelProg Bool := do
  if ← tryAcquire tid then return true
  else
    let current ← holder
    if current = free then tryAcquire tid
    else if (← refreshTid current) ≠ current then compareExchange current tid
    else return false

structure TransportConfig where
  selfTid : UInt32
  hostProxy : Option UInt16

def TransportConfig.hostProxyTid (cfg : TransportConfig) : UInt32 :=
  (cfg.hostProxy.map UInt16.toUInt32).getD 0

/-! ## The other tasks -/

inductive Other where
  | acquire (t : UInt32)
  | transfer (t newOwner : UInt32)
  | release (t : UInt32)
  | fill (t : UInt32) (len : UInt32) (data : Nat → UInt8)
  /-- The USB endpoint starts or stops taking data. -/
  | wire (ok : Bool)
  /-- Tasks are restarted and get new generations. -/
  | restart (refreshed : UInt32 → UInt32)

namespace Other

/-- The effect of a step, with nothing checked that the source does not check. -/
def apply (s : Tunnel) : Other → Tunnel
  | acquire t =>
    if s.lock = free ∨ s.refreshed s.lock ≠ s.lock then { s with lock := t } else s
  | transfer _ newOwner => { s with lock := newOwner }
  | release _ => { s with lock := free }
  | fill _ len data => { s with len, data }
  | wire ok => { s with wireOk := ok }
  | restart refreshed => { s with refreshed }

/-- The step is made by a task other than `self`, and by the owner of the buffer
where only the owner may make it.  Who acquires the lock finds the id `self`
current. -/
def Disciplined (self : UInt32) (s : Tunnel) : Other → Prop
  | acquire t => t ≠ self ∧ s.refreshed self = self
  | transfer t _ => t ≠ self ∧ s.lock = t
  | release t => t ≠ self ∧ s.lock = t
  | fill t _ _ => t ≠ self ∧ s.lock = t
  | wire _ => True
  | restart _ => True

end Other

/-! ## Owning the lock -/

section Owned

variable {self : UInt32}

/-- All a task has to know of the others: they leave its lock alone. -/
def KeepsLock (self : UInt32) (s s' : Tunnel) : Prop := s.lock = self → s'.lock = self

theorem keepsLock_refl (s : Tunnel) : KeepsLock self s s := id

theorem keepsLock_trans (a b c : Tunnel) (hab : KeepsLock self a b) (hbc : KeepsLock self b c) :
    KeepsLock self a c := fun h => hbc (hab h)

theorem Other.keepsLock (hfree : self ≠ free) (s : Tunnel) (o : Other)
    (h : o.Disciplined self s) : KeepsLock self s (o.apply s) := by
  intro hlock
  cases o with
  | acquire t =>
    have hno : ¬ (s.lock = free ∨ s.refreshed s.lock ≠ s.lock) := by
      rw [hlock]
      rintro (heq | hne)
      · exact hfree heq
      · exact hne h.2
    rw [Other.apply, if_neg hno]
    exact hlock
  | transfer t newOwner | release t => exact absurd (h.2.symm.trans hlock) h.1
  | fill t len data => exact hlock
  | wire ok => exact hlock
  | restart refreshed => exact hlock

def Permitted (self : UInt32) (s : Tunnel) (a : Access) : Prop := a.owned = true → s.lock = self

abbrev OwnedTriple {α : Type} (self : UInt32) (pre : Tunnel → Prop) (p : TunnelProg α)
    (post : α → Tunnel → Prop) : Prop :=
  Triple exec (KeepsLock self) (Permitted self) pre p post

def Owned (self : UInt32) (s : Tunnel) : Prop := s.lock = self

theorem stable_owned : Stable (KeepsLock self) (Owned self) := fun _ _ hr h => hr h

theorem stable_true : Stable (KeepsLock self) fun _ => True := fun _ _ _ h => h

theorem stable_owned_of (p : Prop) : Stable (KeepsLock self) fun s => p → Owned self s :=
  fun _ _ hr h hp => hr (h hp)

/-! One rule per access.  The owner keeps the lock by every access but two. -/

variable {α : Type} {post : α → Tunnel → Prop}
variable {a : Access} {pre : Tunnel → Prop} {f : a.Answer → TunnelProg α}

/-- Anyone may make an access that is not the owner's. -/
theorem triple_free (h : a.owned = false) (hstable : Stable (KeepsLock self) pre)
    (hpre : ∀ s, pre s → pre (exec s a).1) (hf : ∀ r, OwnedTriple self pre (f r) post) :
    OwnedTriple self pre (perform a >>= f) post :=
  act hstable (fun _ _ howned => absurd howned (by simp [h])) hpre hf

/-- An access by which the owner stays the owner. -/
theorem triple_keep (hlock : ∀ s : Tunnel, (exec s a).1.lock = s.lock)
    (hf : ∀ r, OwnedTriple self (Owned self) (f r) post) :
    OwnedTriple self (Owned self) (perform a >>= f) post :=
  act stable_owned (fun _ h _ => h) (fun s h => (hlock s).trans h) hf

/-- An access by which the owner may lose the buffer. -/
theorem triple_give (hf : ∀ r, OwnedTriple self (fun _ => True) (f r) post) :
    OwnedTriple self (Owned self) (perform a >>= f) post :=
  act stable_owned (fun _ h _ => h) (fun _ _ => trivial) hf

theorem triple_of_true {p : TunnelProg α} (h : OwnedTriple self (fun _ => True) p post) :
    OwnedTriple self pre p post :=
  h.weaken fun _ _ => trivial

theorem triple_of_owned {p : TunnelProg α} (hpre : ∀ s, pre s → Owned self s)
    (h : OwnedTriple self (Owned self) p post) : OwnedTriple self pre p post :=
  h.weaken hpre

theorem exec_send_lock (s : Tunnel) (o : Output) : (exec s (.send o)).1.lock = s.lock := by
  rw [exec]
  split <;> rfl

theorem triple_done (a : α) : OwnedTriple self (Owned self) (ret a) fun _ => Owned self :=
  ret stable_owned fun _ => id

/-- Sending is no access to the buffer, so the owner may do it and stays the owner. -/
theorem triple_send {o : Output} {f : (Access.send o).Answer → TunnelProg α}
    (hf : ∀ r, OwnedTriple self (Owned self) (f r) post) :
    OwnedTriple self (Owned self) (perform (.send o) >>= f) post :=
  triple_keep (fun s => exec_send_lock s o) hf

theorem triple_compareExchange (current : UInt32) :
    OwnedTriple self (fun _ => True) (compareExchange current self)
      fun ok s => ok = true → Owned self s := by
  have hmid : ∀ s : Tunnel, (exec s (.compareExchange current self)).2 = true →
      Owned self (exec s (.compareExchange current self)).1 := by
    intro s
    by_cases h : s.lock = current
    · simp [exec, h, Owned]
    · simp [exec, h]
  exact act stable_true (fun _ _ howned => absurd howned Bool.false_ne_true)
    (fun s _ => hmid s) fun _ => ret (stable_owned_of _) fun _ h => h

theorem triple_tryAcquireOrWipe :
    OwnedTriple self (fun _ => True) (tryAcquireOrWipe self)
      fun ok s => ok = true → Owned self s := by
  refine bind keepsLock_refl (triple_compareExchange free) fun first => ?_
  cases first with
  | true => exact ret (stable_owned_of _) fun _ h => h
  | false =>
    refine triple_of_true ?_
    refine triple_free rfl stable_true (fun _ _ => trivial) fun current => ?_
    split
    · exact triple_compareExchange free
    · refine triple_free rfl stable_true (fun _ _ => trivial) fun refreshed => ?_
      split
      · exact triple_compareExchange current
      · exact ret stable_true fun _ _ h => absurd h (by simp)

end Owned

end Tunnel

end Rcard
