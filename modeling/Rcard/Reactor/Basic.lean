/-
The reactor (`firmware/sysmodule/reactor/src/main.rs`) with the tables that
`firmware/modules/generated/build.rs` writes for it.

Notifications of all groups stand in one queue of 32.  Each task has a cursor into it, and
`pull` returns the next notification of a group the caller subscribes to.  `gc` takes from
the front what every subscriber of its group has passed, `evict` takes an entry out to make
room, and `refresh` takes out an entry that it replaces.  All three move the cursors.

Two parts of the state are not in the source.  `next` numbers the calls that passed
`validate`, and an entry has the number of the call it came from, so that equal
notifications can be told apart.  `trace` is what the reactor did so far.  No function
reads either.

The kernel's part is `live`, the generation each task runs in: a post reaches the task if it
names this generation, and otherwise returns it.
-/
import Rcard.Lib.Cursor
import Mathlib.Data.List.Nodup
import Mathlib.Logic.Function.Basic

namespace Rcard.Reactor

open List Function Cursor

structure Notification where
  senderIndex : UInt16
  groupId : UInt16
  code : UInt32
  priority : UInt8
  deriving DecidableEq

structure Entry extends Notification where
  seq : Nat
  deriving DecidableEq

inductive OverflowStrategy where
  | reject
  | dropOldest
  | dropNewest
  deriving DecidableEq

inductive ReactorError where
  | notAuthorized
  | priorityOutOfRange
  | invalidGroup
  | queueFull
  deriving DecidableEq

inductive Event where
  /-- A call passed `validate`. -/
  | accepted (e : Entry)
  /-- A refresh took `e` out for `n`. -/
  | superseded (e n : Entry)
  | received (t : UInt16) (e : Entry)
  /-- A drop report to the supervisor, for subscriber `t`. -/
  | report (e : Entry) (t : UInt16)
  /-- `NOTIFICATION_BIT` reached the task. -/
  | post (t : UInt16)
  deriving DecidableEq

/-! ## The generated tables -/

structure Group where
  minPriority : UInt8
  maxPriority : UInt8

/-- A group's number is its position.  `pushers` and `subscribers` are maps from a task to
its groups. -/
structure Notifications where
  groups : List Group
  pushers : List (UInt16 × List Nat)
  subscribers : List (UInt16 × List Nat)
  nodup : (subscribers.map Prod.fst).Nodup

namespace Notifications

variable (cfg : Notifications)

def isSenderAllowed (groupId sender : UInt16) : Bool :=
  groupId.toNat < cfg.groups.length &&
    cfg.pushers.any fun p => p.2.contains groupId.toNat && p.1 == sender

def groupSubscribers (groupId : UInt16) : List UInt16 :=
  if groupId.toNat < cfg.groups.length then
    (cfg.subscribers.filter fun p => p.2.contains groupId.toNat).map Prod.fst
  else []

def isSubscriber (groupId task : UInt16) : Bool :=
  groupId.toNat < cfg.groups.length &&
    cfg.subscribers.any fun p => p.2.contains groupId.toNat && p.1 == task

def subscriberTasks : List UInt16 := cfg.subscribers.map Prod.fst

def validate (senderIndex groupId : UInt16) (priority : UInt8) : Except ReactorError Unit :=
  match cfg.groups[groupId.toNat]? with
  | none => .error .invalidGroup
  | some group =>
    if !cfg.isSenderAllowed groupId senderIndex then .error .notAuthorized
    else if group.minPriority ≤ priority ∧ priority ≤ group.maxPriority then .ok ()
    else .error .priorityOutOfRange

end Notifications

/-! ## The state -/

def queueCapacity : Nat := 32

structure State where
  queue : List Entry
  cursors : UInt16 → Nat
  live : UInt16 → UInt8
  next : Nat
  trace : List Event

def State.init (live : UInt16 → UInt8) : State :=
  { queue := [], cursors := fun _ => 0, live, next := 0, trace := [] }

namespace State

variable (cfg : Notifications) (s : State)

def isFull : Bool := s.queue.length == queueCapacity

def emit (e : Event) : State := { s with trace := s.trace ++ [e] }

def dropNotificationFor (notif : Entry) (droppedFor : UInt16) : State :=
  s.emit (.report notif droppedFor)

/-- An error is the generation that runs. -/
def sysPost (task : UInt16) (generation : UInt8) : Except UInt8 State :=
  if generation = s.live task then .ok (s.emit (.post task)) else .error (s.live task)

/-! ## Taking entries out -/

def reportEviction (notif : Entry) (index : Nat) : State :=
  (cfg.groupSubscribers notif.groupId).foldl
    (fun s t => if s.cursors t ≤ index then s.dropNotificationFor notif t else s) s

/-- The loop over `SUBSCRIBER_TASKS`. -/
def adjustCursors (index : Nat) (cursors : UInt16 → Nat) : UInt16 → Nat :=
  cfg.subscriberTasks.foldl
    (fun c t => if index < c t then update c t (c t - 1) else c) cursors

def removeAndAdjustCursors (index : Nat) : State :=
  { s with
    queue := s.queue.eraseIdx index
    cursors := adjustCursors cfg index s.cursors }

def evictAt (index : Nat) : State :=
  match s.queue[index]? with
  | none => s
  | some notif => (s.reportEviction cfg notif index).removeAndAdjustCursors cfg index

def rposition (p : Entry → Bool) (queue : List Entry) : Option Nat :=
  (queue.reverse.findIdx? p).map fun k => queue.length - 1 - k

/-- None if nothing can go. -/
def evict (priority : UInt8) : OverflowStrategy → Option State
  | .reject => none
  | .dropOldest => (s.queue.findIdx? fun n => n.priority ≤ priority).map (s.evictAt cfg)
  | .dropNewest => (rposition (fun n => n.priority ≤ priority) s.queue).map (s.evictAt cfg)

def gcLoop : List Entry → (UInt16 → Nat) → List Entry × (UInt16 → Nat)
  | [], cursors => ([], cursors)
  | notif :: queue, cursors =>
    if (cfg.groupSubscribers notif.groupId).all fun t => 0 < cursors t then
      gcLoop queue (adjustCursors cfg 0 cursors)
    else (notif :: queue, cursors)

def gc : State :=
  { s with
    queue := (gcLoop cfg s.queue s.cursors).1
    cursors := (gcLoop cfg s.queue s.cursors).2 }

/-! ## Posts -/

def notifyTask (task : UInt16) : State :=
  match s.sysPost task 0 with
  | .ok s' => s'
  | .error newGeneration =>
    match s.sysPost task newGeneration with
    | .ok s' => s'
    | .error _ => s

def notifySubscribers (groupId : UInt16) : State :=
  (cfg.groupSubscribers groupId).foldl notifyTask s

def hasMoreFor (task : UInt16) : Bool :=
  (s.queue.drop (s.cursors task)).any fun n => cfg.isSubscriber n.groupId task

/-! ## The calls -/

/-- A push on a queue that has room. -/
def accept (notif : Entry) : State :=
  State.notifySubscribers cfg { s with
      queue := s.queue ++ [notif]
      next := s.next + 1
      trace := s.trace ++ [.accepted notif] }
    notif.groupId

/-- The notification does not go into the queue. -/
def turnAway (notif : Entry) : State :=
  (cfg.groupSubscribers notif.groupId).foldl (fun s t => s.dropNotificationFor notif t)
    { s with next := s.next + 1, trace := s.trace ++ [.accepted notif] }

/-- The common end of `push` and `refresh`. -/
def enqueue (notif : Entry) (strategy : OverflowStrategy) : State × Except ReactorError Unit :=
  let s := if s.isFull then s.gc cfg else s
  if s.isFull then
    match s.evict cfg notif.priority strategy with
    | some s => (s.accept cfg notif, .ok ())
    | none => (s.turnAway cfg notif, .error .queueFull)
  else (s.accept cfg notif, .ok ())

section

variable (senderIndex groupId : UInt16)

def push (code : UInt32) (priority : UInt8)
    (strategy : OverflowStrategy) : State × Except ReactorError Unit :=
  match cfg.validate senderIndex groupId priority with
  | .error e => (s, .error e)
  | .ok () =>
    s.enqueue cfg { senderIndex, groupId, code, priority, seq := s.next } strategy

def isMatch (code : UInt32) (n : Entry) : Bool :=
  n.senderIndex == senderIndex && n.groupId == groupId && n.code == code

def refresh (code : UInt32) (priority : UInt8)
    (strategy : OverflowStrategy) : State × Except ReactorError Unit :=
  match cfg.validate senderIndex groupId priority with
  | .error e => (s, .error e)
  | .ok () =>
    match s.queue.findIdx? (isMatch senderIndex groupId code) with
    | none => s.enqueue cfg { senderIndex, groupId, code, priority, seq := s.next } strategy
    | some i =>
      match s.queue[i]? with
      | none => (s, .ok ())
      | some old =>
        let notif : Entry :=
          { senderIndex, groupId, code, priority := max priority old.priority, seq := s.next }
        ((s.removeAndAdjustCursors cfg i).emit (.superseded old notif)).enqueue cfg notif strategy

end

def pull (task : UInt16) (generation : UInt8) : State × Option Notification :=
  let s := s.gc cfg
  let start := s.cursors task
  match (s.queue.drop start).findIdx? fun n => cfg.isSubscriber n.groupId task with
  | none => (s, none)
  | some k =>
    match s.queue[start + k]? with
    | none => (s, none)
    | some notif =>
      let s := State.gc cfg { s with
          cursors := update s.cursors task ((start + k + 1) % 256)
          trace := s.trace ++ [.received task notif] }
      if s.hasMoreFor cfg task then
        match s.sysPost task generation with
        | .ok s' => (s', some notif.toNotification)
        | .error _ => (s, some notif.toNotification)
      else (s, some notif.toNotification)

end State

inductive Call where
  | push (senderIndex groupId : UInt16) (code : UInt32) (priority : UInt8)
      (strategy : OverflowStrategy)
  | refresh (senderIndex groupId : UInt16) (code : UInt32) (priority : UInt8)
      (strategy : OverflowStrategy)
  /-- The sender's task and generation. -/
  | pull (task : UInt16) (generation : UInt8)
  /-- The kernel starts a task again. -/
  | restart (task : UInt16)

def State.step (cfg : Notifications) (s : State) : Call → State
  | .push senderIndex groupId code priority strategy =>
    (s.push cfg senderIndex groupId code priority strategy).1
  | .refresh senderIndex groupId code priority strategy =>
    (s.refresh cfg senderIndex groupId code priority strategy).1
  | .pull task generation => (s.pull cfg task generation).1
  | .restart task => { s with live := update s.live task (s.live task + 1) }

def State.run (cfg : Notifications) : State → List Call → State := List.foldl (State.step cfg)

/-! ## What the parts do -/

section Tables

variable {cfg : Notifications} {g t : UInt16}

theorem isSubscriber_iff : cfg.isSubscriber g t = true ↔ t ∈ cfg.groupSubscribers g := by
  unfold Notifications.isSubscriber Notifications.groupSubscribers
  split
  · next h =>
    simp only [mem_map, mem_filter]
    grind
  · next h => simp [h]

theorem groupSubscribers_nodup (cfg : Notifications) (g : UInt16) :
    (cfg.groupSubscribers g).Nodup := by
  unfold Notifications.groupSubscribers
  split
  · exact cfg.nodup.sublist (filter_sublist.map _)
  · exact nodup_nil

theorem mem_subscriberTasks (h : cfg.isSubscriber g t = true) : t ∈ cfg.subscriberTasks := by
  have hmem := isSubscriber_iff.mp h
  unfold Notifications.groupSubscribers at hmem
  split at hmem
  · exact (filter_sublist.map _).mem hmem
  · cases hmem

end Tables

section Cursors

variable {cfg : Notifications} {cursors : UInt16 → Nat}

theorem foldl_adjust (i : Nat) {tasks : List UInt16} (h : tasks.Nodup) (t : UInt16) :
    tasks.foldl (fun c t => if i < c t then update c t (c t - 1) else c) cursors t =
      if t ∈ tasks then past i (cursors t) else cursors t := by
  induction tasks generalizing cursors with
  | nil => rfl
  | cons u tasks ih =>
    rw [foldl_cons]
    grind [past]

/-- Tasks outside the loop have their cursor at zero, where nothing moves. -/
theorem adjustCursors_apply (h : ∀ t, t ∉ cfg.subscriberTasks → cursors t = 0) (i : Nat)
    (t : UInt16) : State.adjustCursors cfg i cursors t = past i (cursors t) := by
  have htasks : cfg.subscriberTasks.Nodup := cfg.nodup
  rw [State.adjustCursors, foldl_adjust i htasks]
  grind [past]

end Cursors

section Loops

variable {cfg : Notifications} (s : State)

theorem foldl_emit (events : UInt16 → Event) (tasks : List UInt16) :
    tasks.foldl (fun s t => s.emit (events t)) s =
      { s with trace := s.trace ++ tasks.map events } := by
  induction tasks generalizing s with
  | nil => simp
  | cons t tasks ih =>
    rw [foldl_cons, ih]
    simp [State.emit]

theorem notifyTask_eq (t : UInt16) : s.notifyTask t = s.emit (.post t) := by
  unfold State.notifyTask State.sysPost
  grind

theorem notifySubscribers_eq (g : UInt16) : s.notifySubscribers cfg g =
    { s with trace := s.trace ++ (cfg.groupSubscribers g).map .post } := by
  rw [State.notifySubscribers, ← foldl_emit]
  congr 1
  funext s t
  exact notifyTask_eq s t

theorem turnAway_eq (n : Entry) : s.turnAway cfg n = { s with
      next := s.next + 1
      trace := s.trace ++ .accepted n :: (cfg.groupSubscribers n.groupId).map (.report n) } := by
  refine (foldl_emit _ _ _).trans ?_
  simp

theorem reportEviction_eq (n : Entry) (i : Nat) : s.reportEviction cfg n i = { s with
      trace := s.trace ++
        ((cfg.groupSubscribers n.groupId).filter fun t => s.cursors t ≤ i).map (.report n) } := by
  unfold State.reportEviction
  generalize cfg.groupSubscribers n.groupId = tasks
  induction tasks generalizing s with
  | nil => simp
  | cons t tasks ih =>
    rw [foldl_cons]
    by_cases h : s.cursors t ≤ i
    · rw [if_pos h, ih, filter_cons_of_pos (by simpa using h)]
      exact congrArg (fun l => { s with trace := l }) (append_assoc s.trace [_] _)
    · rw [if_neg h, ih, filter_cons_of_neg (by simpa using h)]

end Loops

theorem rposition_some {p : Entry → Bool} {queue : List Entry} {i : Nat}
    (h : State.rposition p queue = some i) : i < queue.length := by
  obtain ⟨k, hk, rfl⟩ := Option.map_eq_some_iff.mp h
  obtain ⟨hlt, -⟩ := findIdx?_eq_some_iff_getElem.mp hk
  rw [length_reverse] at hlt
  omega

/-- Whatever the strategy, an eviction takes out one entry of the queue. -/
theorem evict_some {cfg : Notifications} {s s' : State} {priority : UInt8}
    {strategy : OverflowStrategy} (h : s.evict cfg priority strategy = some s') :
    ∃ i n, s.queue[i]? = some n ∧ s' = (s.reportEviction cfg n i).removeAndAdjustCursors cfg i := by
  obtain ⟨i, hi, rfl⟩ : ∃ i, i < s.queue.length ∧ s' = s.evictAt cfg i := by
    cases strategy with
    | reject => cases h
    | dropOldest =>
      obtain ⟨i, hi, rfl⟩ := Option.map_eq_some_iff.mp h
      obtain ⟨hlt, -⟩ := findIdx?_eq_some_iff_getElem.mp hi
      exact ⟨i, hlt, rfl⟩
    | dropNewest =>
      obtain ⟨i, hi, rfl⟩ := Option.map_eq_some_iff.mp h
      exact ⟨i, rposition_some hi, rfl⟩
  refine ⟨i, s.queue[i], getElem?_eq_getElem hi, ?_⟩
  rw [State.evictAt, getElem?_eq_getElem hi]

end Rcard.Reactor
