/-
Whose lock is wiped.

The supervisor restarts tasks, and a restarted task gets a new generation.  The
lock word holds the id of its owner, and `try_acquire_or_wipe` takes the lock away
from an owner whose current id is a different one.  But the tasks store ids the
build gives them: the plain task index, which is the id with generation zero.  A
task that was restarted before it took the lock is never current under that id.

The three tasks run the calls that touch the lock, in any interleaving, with
restarts in between.  `taken` records for each owner the incarnation that took or
was handed the lock.  `wiped_holder` says that an owner in its first incarnation
loses the lock only when it is dead, and that any other owner with a generation
that is not zero loses it to whoever tries.
-/
import Rcard.Lib.Tasks
import Rcard.Tunnel.HostProxy

namespace Rcard.Tunnel

open Prog Triple

open HostProxy (Transport)

inductive Role where
  | transport (t : Transport)
  | hostProxy
  deriving DecidableEq, Repr

/-- The task indices of the build. -/
structure Indices where
  index : Role → Nat
  pos : ∀ r, 0 < index r
  lt : ∀ r, index r < 0x400

/-- `SELF_TID`, `HOST_PROXY_TID` and the ids of the transport tasks. -/
def Indices.tid (ix : Indices) (r : Role) : UInt32 := UInt32.ofNat (ix.index r)

def taskIndex (tid : UInt32) : Nat := tid.toNat % 0x400

/-- `sys_refresh_task_id`: the generation has six bits and starts at zero. -/
def refreshTaskId (restarts : Nat → Nat) (tid : UInt32) : UInt32 :=
  UInt32.ofNat (taskIndex tid + 0x400 * (restarts (taskIndex tid) % 0x40))

structure Holder where
  task : Nat
  incarnation : Nat
  deriving DecidableEq, Repr

structure Shared where
  tun : Tunnel
  /-- How often each task was restarted. -/
  restarts : Nat → Nat
  /-- Who took or was handed the lock. -/
  taken : Option Holder

namespace Shared

def new : Shared := { tun := Tunnel.new, restarts := fun _ => 0, taken := none }

def handedTo (s : Shared) (tid : UInt32) : Option Holder :=
  if tid = free then none
  else some { task := taskIndex tid, incarnation := s.restarts (taskIndex tid) }

def record (s : Shared) : Access → Option Holder
  | .compareExchange current new => if s.tun.lock = current then s.handedTo new else s.taken
  | .transfer newOwner => s.handedTo newOwner
  | .release => none
  | _ => s.taken

def exec (s : Shared) (a : Access) : Shared × a.Answer :=
  let (tun, answer) := Tunnel.exec { s.tun with refreshed := refreshTaskId s.restarts } a
  ({ s with tun, taken := s.record a }, answer)

def restart (s : Shared) (task : Nat) : Shared :=
  { s with restarts := Function.update s.restarts task (s.restarts task + 1) }

end Shared

/-- What the tasks do with the lock. -/
inductive Call where
  | acquire
  | release
  /-- A transport stages a request. -/
  | handOver (len : UInt32)
  /-- The host proxy has a reply for a transport. -/
  | handBack (t : Transport) (len : UInt32)
  | redeliver (len : UInt32)
  deriving DecidableEq, Repr

def Call.prog (ix : Indices) : Role → Call → Option (TunnelProg Unit)
  | .transport t, .acquire => some do
      let _ ← tryAcquireOrWipe (ix.tid (.transport t))
  | .transport _, .release => some Tunnel.release
  | .transport _, .handOver len => some do
      setLen len
      transfer (ix.tid .hostProxy)
  | .hostProxy, .handBack t len => some do
      setLen len
      transfer (ix.tid (.transport t))
  | .hostProxy, .redeliver len => some do
      let transportTid ← holder
      setLen len
      transfer transportTid
  | _, _ => none

def tasks (ix : Indices) : Tasks Shared Role Call Access Nat Access.Answer where
  exec := Shared.exec
  start := Call.prog ix
  other := Shared.restart
  ends task r := ix.index r = task

abbrev System := Tasks.State Shared Role Access Access.Answer

abbrev Step := Tasks.Event Role Call Nat

def System.new : System := { shared := Shared.new, running := fun _ => none }

/-! ## Ids and generations -/

theorem refreshTaskId_ne_iff (restarts : Nat → Nat) {tid : UInt32} (h : tid.toNat < 0x400) :
    refreshTaskId restarts tid ≠ tid ↔ restarts (taskIndex tid) % 0x40 ≠ 0 := by
  have hindex : taskIndex tid = tid.toNat := Nat.mod_eq_of_lt h
  rw [not_iff_not, refreshTaskId, ← UInt32.toNat_inj, UInt32.toNat_ofNat']
  omega

/-! ## What the runs keep -/

/-- The lock holds an id without generation, and its holder is recorded. -/
structure Recorded (s : Shared) : Prop where
  stored : s.tun.lock.toNat < 0x400
  idle : s.tun.lock = free → s.taken = none
  holder : s.tun.lock ≠ free → ∃ n ≤ s.restarts (taskIndex s.tun.lock),
    s.taken = some { task := taskIndex s.tun.lock, incarnation := n }

/-- A wipe comes after the task was seen restarted. -/
def Allowed (s : Shared) : Access → Prop
  | .compareExchange current new =>
    new.toNat < 0x400 ∧ (current ≠ free → 0 < s.restarts (taskIndex current))
  | .transfer newOwner => newOwner.toNat < 0x400
  | _ => True

def Rely (s s' : Shared) : Prop :=
  (Recorded s → Recorded s') ∧ ∀ task, s.restarts task ≤ s'.restarts task

theorem Rely.refl (s : Shared) : Rely s s := ⟨id, fun _ => Nat.le_refl _⟩

theorem Rely.trans (a b c : Shared) (hab : Rely a b) (hbc : Rely b c) : Rely a c :=
  ⟨fun h => hbc.1 (hab.1 h), fun task => Nat.le_trans (hab.2 task) (hbc.2 task)⟩

theorem recorded_handedTo (s : Shared) {tun : Tunnel} (h : tun.lock.toNat < 0x400) :
    Recorded { s with tun, taken := s.handedTo tun.lock } :=
  ⟨h, fun heq => if_pos heq, fun hne => ⟨_, Nat.le_refl _, if_neg hne⟩⟩

section CompareExchange

variable {s : Shared} {current new : UInt32}

theorem exec_compareExchange : s.exec (.compareExchange current new) =
    if s.tun.lock = current then
      ({ s with tun := { s.tun with lock := new, refreshed := refreshTaskId s.restarts }
                taken := s.handedTo new }, true)
    else ({ s with tun := { s.tun with refreshed := refreshTaskId s.restarts } }, false) := by
  show ({ s with tun := (if s.tun.lock = current then (_, true) else (_, false) : Tunnel × Bool).1
                 taken := if s.tun.lock = current then s.handedTo new else s.taken },
    (if s.tun.lock = current then (_, true) else (_, false) : Tunnel × Bool).2) = _
  split <;> rfl

end CompareExchange

theorem Recorded.exec {s : Shared} (h : Recorded s) {a : Access} (ha : Allowed s a) :
    Recorded (s.exec a).1 := by
  cases a with
  | compareExchange current new =>
    rw [exec_compareExchange]
    split
    · exact recorded_handedTo s ha.1
    · exact ⟨h.stored, h.idle, h.holder⟩
  | transfer newOwner => exact recorded_handedTo s ha
  | release => exact ⟨Nat.zero_lt_succ _, fun _ => rfl, fun hne => absurd rfl hne⟩
  | send o =>
    have hlock : (s.exec (.send o)).1.tun.lock = s.tun.lock := exec_send_lock _ o
    refine ⟨?_, ?_, ?_⟩
    · rw [hlock]
      exact h.stored
    · rw [hlock]
      exact h.idle
    · rw [hlock]
      exact h.holder
  | _ => exact ⟨h.stored, h.idle, h.holder⟩

theorem restarts_exec (s : Shared) (a : Access) : (s.exec a).1.restarts = s.restarts := rfl

theorem le_restart (s : Shared) (task i : Nat) : s.restarts i ≤ (s.restart task).restarts i := by
  show s.restarts i ≤ Function.update s.restarts task (s.restarts task + 1) i
  grind

theorem Recorded.restart {s : Shared} (h : Recorded s) (task : Nat) :
    Recorded (s.restart task) := by
  refine ⟨h.stored, h.idle, fun hne => ?_⟩
  obtain ⟨n, hn, htaken⟩ := h.holder hne
  exact ⟨n, Nat.le_trans hn (le_restart s task _), htaken⟩

/-! ## The calls -/

abbrev StaleTriple {α : Type} (pre : Shared → Prop) (p : TunnelProg α)
    (post : α → Shared → Prop) : Prop :=
  Triple Shared.exec Rely Allowed pre p post

/-- The task of an id was restarted at least once. -/
def Restarted (tid : UInt32) (s : Shared) : Prop := Recorded s ∧ 0 < s.restarts (taskIndex tid)

theorem stable_recorded : Stable Rely Recorded := fun _ _ hr h => hr.1 h

theorem stable_restarted (tid : UInt32) : Stable Rely (Restarted tid) :=
  fun _ _ hr h => ⟨hr.1 h.1, Nat.lt_of_lt_of_le h.2 (hr.2 _)⟩

section Triples

variable {α : Type} {post : α → Shared → Prop}

theorem triple_step {a : Access} {pre : Shared → Prop} (hstable : Stable Rely pre)
    (hpre : ∀ s, pre s → Recorded s ∧ Allowed s a) {f : a.Answer → TunnelProg α}
    (hf : ∀ r, StaleTriple Recorded (f r) post) : StaleTriple pre (perform a >>= f) post :=
  act hstable (fun s h => (hpre s h).2) (fun s h => (hpre s h).1.exec (hpre s h).2) hf

theorem triple_allowed {a : Access} (ha : ∀ s, Allowed s a) {f : a.Answer → TunnelProg α}
    (hf : ∀ r, StaleTriple Recorded (f r) post) :
    StaleTriple Recorded (perform a >>= f) post :=
  triple_step stable_recorded (fun s h => ⟨h, ha s⟩) hf

theorem triple_recorded (a : α) : StaleTriple Recorded (.ret a) fun _ => Recorded :=
  ret stable_recorded fun _ h => h

theorem triple_transfer {newOwner : UInt32} (h : newOwner.toNat < 0x400) :
    StaleTriple Recorded (transfer newOwner) fun _ => Recorded :=
  triple_allowed (a := .transfer newOwner) (fun _ => h) triple_recorded

theorem triple_tryAcquire {tid : UInt32} (h : tid.toNat < 0x400) :
    StaleTriple Recorded (tryAcquire tid) fun _ => Recorded :=
  triple_allowed (a := .compareExchange free tid) (fun _ => ⟨h, fun hne => absurd rfl hne⟩)
    triple_recorded

/-- The wipe follows a refreshed id that differs, and restarts are not undone. -/
theorem triple_wipe {tid current : UInt32} (h : tid.toNat < 0x400)
    (hcurrent : current.toNat < 0x400) :
    StaleTriple Recorded
      (do if (← refreshTid current) ≠ current then compareExchange current tid else return false)
      fun _ => Recorded := by
  refine act
    (m := fun refreshed s => Recorded s ∧ (refreshed ≠ current → Restarted current s))
    stable_recorded (fun _ _ => trivial) (fun s hs => ?_) fun refreshed => ?_
  · refine ⟨hs.exec trivial, fun hne => ⟨hs.exec trivial, ?_⟩⟩
    have hrestarts := (refreshTaskId_ne_iff s.restarts hcurrent).mp hne
    rw [restarts_exec]
    omega
  · show StaleTriple _ (if refreshed ≠ current then compareExchange current tid else .ret false) _
    split
    · rename_i hne
      have hcas : StaleTriple (Restarted current) (compareExchange current tid) fun _ => Recorded :=
        triple_step (a := .compareExchange current tid) (stable_restarted current)
          (fun s hs => ⟨hs.1, h, fun _ => hs.2⟩) triple_recorded
      exact hcas.weaken fun s hs => hs.2 hne
    · exact (triple_recorded false).weaken fun s hs => hs.1

theorem triple_tryAcquireOrWipe_stale {tid : UInt32} (h : tid.toNat < 0x400) :
    StaleTriple Recorded (tryAcquireOrWipe tid) fun _ => Recorded := by
  refine bind Rely.refl (triple_tryAcquire h) fun first => ?_
  cases first with
  | true => exact triple_recorded true
  | false =>
    -- The lock word that is read is one of the stored ids.
    refine act (m := fun current s => current.toNat < 0x400 ∧ Recorded s)
      stable_recorded (fun _ _ => trivial) (fun s hs => ⟨hs.stored, hs.exec trivial⟩) ?_
    rintro current s ⟨hcurrent, hs⟩
    show Safe _ _ _ (if current = free then tryAcquire tid else
      do if (← refreshTid current) ≠ current then compareExchange current tid else return false)
      _ s
    split
    · exact triple_tryAcquire h s hs
    · exact triple_wipe h hcurrent s hs

theorem triple_prog {ix : Indices} {r : Role} {c : Call} {p : TunnelProg Unit}
    (hp : c.prog ix r = some p) : StaleTriple Recorded p fun _ => Recorded := by
  have htid : ∀ r, (ix.tid r).toNat < 0x400 := fun r => by
    have hlt := ix.lt r
    rw [Indices.tid, UInt32.toNat_ofNat']
    omega
  have hset : ∀ {len : UInt32} {f : Unit → TunnelProg Unit},
      (∀ r, StaleTriple Recorded (f r) fun _ => Recorded) →
      StaleTriple Recorded (setLen len >>= f) fun _ => Recorded :=
    fun hf => triple_allowed (a := .setLen _) (fun _ => trivial) hf
  match r, c, hp with
  | .transport t, .acquire, rfl =>
    exact bind Rely.refl (triple_tryAcquireOrWipe_stale (htid _)) fun _ =>
      triple_recorded ()
  | .transport t, .release, rfl =>
    exact triple_allowed (a := .release) (fun _ => trivial) triple_recorded
  | .transport t, .handOver len, rfl | .hostProxy, .handBack t len, rfl =>
    exact hset fun _ => triple_transfer (htid _)
  | .hostProxy, .redeliver len, rfl =>
    refine act (m := fun transportTid s => transportTid.toNat < 0x400 ∧ Recorded s)
      stable_recorded (fun _ _ => trivial) (fun s hs => ⟨hs.stored, hs.exec trivial⟩) ?_
    rintro transportTid s ⟨hstored, hs⟩
    exact hset (fun _ => triple_transfer hstored) s hs

end Triples

theorem tasks_rules (ix : Indices) : (tasks ix).Rules Rely Allowed Recorded where
  refl := Rely.refl
  trans := Rely.trans
  act _ _ hs ha := ⟨hs.exec ha, fun _ => hs.exec ha, fun _ => Nat.le_refl _⟩
  other s task hs := ⟨hs.restart task, fun _ => hs.restart task, le_restart s task⟩
  call _ _ _ hp s hs := (triple_prog hp s hs).mono fun _ _ _ => trivial

theorem sound_new (ix : Indices) : (tasks ix).Sound Rely Allowed Recorded System.new :=
  ⟨⟨Nat.zero_lt_succ _, fun _ => rfl, fun hne => absurd rfl hne⟩, nofun⟩

/-- An attempt that nobody interrupts succeeds exactly if the generation of the
holder is not zero now. -/
theorem run_tryAcquireOrWipe {s : Shared} (hs : Recorded s) (hlock : s.tun.lock ≠ free)
    (tid : UInt32) : (run Shared.exec (tryAcquireOrWipe tid) s).2 = true ↔
      s.restarts (taskIndex s.tun.lock) % 0x40 ≠ 0 := by
  rw [← refreshTaskId_ne_iff s.restarts hs.stored]
  have hfirst : run Shared.exec (tryAcquire tid) s =
      ({ s with tun := { s.tun with refreshed := refreshTaskId s.restarts } }, false) := by
    exact exec_compareExchange.trans (if_neg hlock)
  rw [tryAcquireOrWipe, run_bind, hfirst]
  -- The lock is read, and then the id refreshed from what was read.
  show (run Shared.exec (if s.tun.lock = free then tryAcquire tid else
    do if (← refreshTid s.tun.lock) ≠ s.tun.lock then compareExchange s.tun.lock tid
       else return false) _).2 = true ↔ _
  rw [if_neg hlock]
  show (run Shared.exec (if refreshTaskId s.restarts s.tun.lock ≠ s.tun.lock then
    compareExchange s.tun.lock tid else .ret false) _).2 = true ↔ _
  by_cases hne : refreshTaskId s.restarts s.tun.lock ≠ s.tun.lock
  · rw [if_pos hne, compareExchange]
    exact iff_of_true (congrArg Prod.snd (exec_compareExchange.trans (if_pos rfl))) hne
  · rw [if_neg hne]
    exact iff_of_false Bool.false_ne_true hne

/-- In every run, a wipe meets an owner that is dead or was restarted before it got
the lock.  And an owner whose generation is not zero is wiped by any attempt,
dead or not. -/
theorem wiped_holder (ix : Indices) {es : List Step} {s : System}
    (h : (tasks ix).run System.new es = some s) :
    (∀ r current tid, s.next r = some (.compareExchange current tid) → current ≠ free →
      s.shared.tun.lock = current → ∃ n, s.shared.taken = some ⟨taskIndex current, n⟩ ∧
        (n = 0 → n < s.shared.restarts (taskIndex current))) ∧
    ∀ holder, s.shared.taken = some holder → ∀ tid,
      ((Prog.run Shared.exec (tryAcquireOrWipe tid) s.shared).2 = true ↔
        s.shared.restarts holder.task % 0x40 ≠ 0) := by
  have hsound := (sound_new ix).run (tasks_rules ix) h
  have hs := hsound.shared
  refine ⟨?_, ?_⟩
  · intro r current tid hnext hfree hlock
    have hallowed : Allowed s.shared (.compareExchange current tid) :=
      hsound.permitted (tasks_rules ix) hnext
    obtain ⟨n, _, htaken⟩ := hs.holder (by rw [hlock]; exact hfree)
    rw [hlock] at htaken
    refine ⟨n, htaken, ?_⟩
    rintro rfl
    exact hallowed.2 hfree
  · intro holder htaken tid
    have hlock : s.shared.tun.lock ≠ free := by
      intro hfree
      rw [hs.idle hfree] at htaken
      cases htaken
    obtain ⟨n, _, heq⟩ := hs.holder hlock
    rw [htaken] at heq
    cases heq
    exact run_tryAcquireOrWipe hs hlock tid

def board : Indices where
  index
    | .transport .usb => 3
    | .transport .usart => 2
    | .hostProxy => 5
  pos r := by rcases r with (_ | _) | _ <;> decide
  lt r := by rcases r with (_ | _) | _ <;> decide

/-- USB takes the lock and is restarted, and the serial line comes to wipe it. -/
def dieThenWipe : List Step :=
  [.call (.transport .usb) .acquire, .act (.transport .usb), .other 3,
    .call (.transport .usart) .acquire, .act (.transport .usart), .act (.transport .usart),
    .act (.transport .usart)]

theorem wiped_holder_dieThenWipe :
    ∃ s, (tasks board).run System.new dieThenWipe = some s ∧
      s.next (.transport .usart) = some (.compareExchange 3 2) ∧ s.shared.tun.lock = 3 ∧
      ∃ n, s.shared.taken = some ⟨taskIndex 3, n⟩ ∧ (n = 0 → n < s.shared.restarts (taskIndex 3)) :=
  ⟨_, rfl, rfl, rfl,
    (wiped_holder board (show (tasks board).run System.new dieThenWipe = some _ from rfl)).1
      (.transport .usart) 3 2 rfl (by decide) rfl⟩

/-- USB is restarted and then takes the lock. -/
def restartThenAcquire : List Step :=
  [.other 3, .call (.transport .usb) .acquire, .act (.transport .usb), .finish (.transport .usb)]

def acquireByUsart : List Step :=
  [.call (.transport .usart) .acquire, .act (.transport .usart), .act (.transport .usart),
    .act (.transport .usart), .act (.transport .usart)]

/-- The incarnation of USB that took the lock still runs when the serial line
takes it. -/
theorem live_holder_wiped :
    ∃ s s', (tasks board).run System.new restartThenAcquire = some s ∧
      (tasks board).run s acquireByUsart = some s' ∧
      s.shared.tun.lock = board.tid (.transport .usb) ∧
      s.shared.taken = some { task := 3, incarnation := s'.shared.restarts 3 } ∧
      s'.shared.tun.lock = board.tid (.transport .usart) :=
  ⟨_, _, rfl, rfl, by decide, by decide, by decide⟩

end Rcard.Tunnel
