/-
Clients that restart.

A task that restarts keeps its index and gets a new generation, the restart
count modulo 64.  The server finds out when the next message arrives.  Handles
can also reach a task from others, as the new owner of a clone or as the target
of a transfer, so a task may hold entries on a server that has never seen it.

`World` puts the server next to the true restart counts and notes, for every
entry, which incarnation it was granted to.  `Clean` says that no entry is left
from before the last incarnation a message came from.  It holds as long as each
restart finds the task known to the server under another generation, or without
entries there.  It fails for a task that was given a handle before its first
message.

Handling a message and restarting a task commute, because the server reads
nothing of a task but the identity in the message.  So a message is one step.
-/
import Rcard.Server.Basic

namespace Rcard

open Option List Server Function

/-! ## Clean-up -/

namespace Arena

variable {T : Type} {N : Nat}

theorem cancelStep_owner (target : UInt16) (s : Arena T N) (k j : Fin N) :
    ((cancelStep target s k).map j).owner = (s.map j).owner := by
  unfold cancelStep
  split
  · by_cases hj : j = k
    · rw [hj, setEntry_map_self]
    · rw [setEntry_map_of_ne hj]
  · rfl

theorem cancelLoop_owner (target : UInt16) (l : List (Fin N)) (s : Arena T N) (j : Fin N) :
    ((l.foldl (cancelStep target) s).map j).owner = (s.map j).owner := by
  induction l generalizing s with
  | nil => rfl
  | cons k l ih => rw [foldl_cons, ih, cancelStep_owner]

variable {s : Arena T N}

theorem cancelStep_pending {target : UInt16} (hs : s.Inv) (k j : Fin N)
    (hocc : (s.map j).occupied = true) (h : j = k ∨ (s.map j).pendingTo ≠ some target) :
    ((cancelStep target s k).map j).pendingTo ≠ some target := by
  unfold cancelStep
  by_cases hj : j = k
  · subst hj
    by_cases hp : (s.map j).pendingTo = some target
    · simp only [hocc, hp, hs.not_stale hocc, beq_self_eq_true, Bool.and_self, Bool.not_false,
        if_true, setEntry_map_self]
      exact some_ne_none target ∘ Eq.symm
    grind
  · have hp := h.resolve_left hj
    split
    · rw [setEntry_map_of_ne hj]
      exact hp
    · exact hp

theorem cancelLoop_pending {target : UInt16} (l : List (Fin N)) (hs : s.Inv) (j : Fin N)
    (hocc : (s.map j).occupied = true) (h : j ∈ l ∨ (s.map j).pendingTo ≠ some target) :
    ((l.foldl (cancelStep target) s).map j).pendingTo ≠ some target := by
  induction l generalizing s with
  | nil => exact h.resolve_left not_mem_nil
  | cons k l ih =>
    have hrel : Relabelled s (cancelStep target s k) := cancelStep_relabelled target k
    refine ih (hrel.inv hs) ((hrel.occupied j).trans hocc) ?_
    rcases h with hmem | hp
    · rcases mem_cons.mp hmem with hjk | hl
      · exact .inr (cancelStep_pending hs k j hocc (.inl hjk))
      · exact .inl hl
    · exact .inr (cancelStep_pending hs k j hocc (.inr hp))

theorem Inv.cleanupClient (hs : s.Inv) (t : UInt16) : (s.cleanupClient t).Inv :=
  (cancelTransfersTo_relabelled t).inv (removeByOwner_inv hs t)

theorem cleanupClient_absent (hs : s.Inv) (t : UInt16) {j : Fin N}
    (hocc : ((s.cleanupClient t).map j).occupied = true) :
    ((s.cleanupClient t).map j).owner ≠ t ∧ ((s.cleanupClient t).map j).pendingTo ≠ some t := by
  have hinv := removeByOwner_inv hs t
  have hrel : Relabelled (s.removeByOwner t) (s.cleanupClient t) := cancelTransfersTo_relabelled t
  rw [hrel.occupied] at hocc
  have hmap := (removeByOwner_released hs t).map_of_occupied hocc
  constructor
  · intro howner
    rw [Arena.cleanupClient, cancelTransfersTo, cancelLoop_owner, hmap] at howner
    have hcleared := (removeByOwner_released hs t).cleared j ⟨hmap ▸ hocc, howner⟩
    rw [hcleared] at hocc
    exact absurd hocc (by simp [HandleEntry.cleared])
  · exact cancelLoop_pending _ hinv j hocc (.inl (mem_finRange j))

end Arena

/-! ## Incarnations -/

/-- The six generation bits of a task id after `n` restarts. -/
def generationOf (n : Nat) : UInt8 := UInt8.ofNat (n % 64)

/-- The incarnation an entry's owner got it in.  An entry that has kept its key
and owner keeps the note, and any other entry was granted just now. -/
def stampOwner {T : Type} {N : Nat} (incarnation : UInt16 → Nat) (a a' : Arena T N)
    (note : Fin N → Nat) (j : Fin N) : Nat :=
  if (a.map j).occupied ∧ (a'.map j).key = (a.map j).key ∧ (a'.map j).owner = (a.map j).owner
  then note j else incarnation (a'.map j).owner

def stampTarget {T : Type} {N : Nat} (incarnation : UInt16 → Nat) (a a' : Arena T N)
    (note : Fin N → Nat) (j : Fin N) : Nat :=
  if (a.map j).occupied ∧ (a'.map j).key = (a.map j).key ∧
      (a'.map j).pendingTo = (a.map j).pendingTo
  then note j else ((a'.map j).pendingTo.map incarnation).getD 0

structure World {count : Nat} (cfg : Server.Config count) (taskCount : Nat) where
  server : Server cfg taskCount
  /-- How often each task has been restarted. -/
  incarnation : UInt16 → Nat
  /-- The incarnation of the owner that each entry was granted to. -/
  granted : ∀ r, Fin (cfg.size r) → Nat
  /-- The incarnation of the target that each transfer was prepared for. -/
  prepared : ∀ r, Fin (cfg.size r) → Nat
  /-- The incarnation of the last message from each task. -/
  heard : UInt16 → Option Nat

namespace World

variable {count taskCount : Nat} {cfg : Server.Config count}

def new (size_le : ∀ r, cfg.size r ≤ 255) : World cfg taskCount :=
  { server := Server.new size_le
    incarnation := fun _ => 0
    granted := fun _ _ => 0
    prepared := fun _ _ => 0
    heard := fun _ => none }

/-- The server moves to `s`, and changed entries are granted to the present
incarnations. -/
def update (w : World cfg taskCount) (s : Server cfg taskCount) : World cfg taskCount :=
  { w with
    server := s
    granted := fun r => stampOwner w.incarnation (w.server.arenas r) (s.arenas r) (w.granted r)
    prepared := fun r =>
      stampTarget w.incarnation (w.server.arenas r) (s.arenas r) (w.prepared r) }

def taskId (w : World cfg taskCount) (t : UInt16) : TaskId :=
  { taskIndex := t, generation := generationOf (w.incarnation t) }

def indexOf (t : Fin taskCount) : UInt16 := UInt16.ofNat t

inductive Step (cfg : Server.Config count) (taskCount : Nat) where
  | restart (t : UInt16)
  | message (sender : Fin taskCount) (operation : UInt16) (data : Option (List UInt8))
  /-- An operation the server's own code makes on an arena. -/
  | method (r : Fin count) (op : Arena.Op (cfg.Resource r))

section

variable (w : World cfg taskCount)

def hear (t : UInt16) : World cfg taskCount :=
  { w with heard := Function.update w.heard t (some (w.incarnation t)) }

/-- The server takes a message from `t` and has checked its generation. -/
def receive (t : UInt16) : Option (World cfg taskCount) :=
  (w.server.checkClientGeneration (w.taskId t)).map fun s => (w.update s).hear t

def restart (t : UInt16) : World cfg taskCount :=
  { w with incarnation := Function.update w.incarnation t (w.incarnation t + 1) }

def step : Step cfg taskCount → Option (World cfg taskCount)
  | .restart t => some (w.restart t)
  | .message sender operation data =>
    let t := indexOf sender
    (w.receive t).map fun w₁ => w₁.update (w₁.server.route ⟨w.taskId t, operation, data⟩).1
  | .method r op => some (w.update (w.server.setArena r ((w.server.arenas r).step op).1))

/-- No entry is left that an earlier incarnation was granted than the last one
that was heard of. -/
def Clean : Prop :=
  ∀ t m, w.heard t = some m → ∀ r j, ((w.server.arenas r).map j).occupied = true →
    (((w.server.arenas r).map j).owner = t → m ≤ w.granted r j) ∧
      (((w.server.arenas r).map j).pendingTo = some t → m ≤ w.prepared r j)

def Outdated (t : UInt16) (g : UInt8) : Prop :=
  ∃ k, (w.server.clients k).active = true ∧ (w.server.clients k).taskIndex = t ∧
    (w.server.clients k).generation ≠ g

def Absent (t : UInt16) : Prop :=
  ∀ r j, ((w.server.arenas r).map j).occupied = true →
    ((w.server.arenas r).map j).owner ≠ t ∧ ((w.server.arenas r).map j).pendingTo ≠ some t

/-- A restart finds its task on record under another generation than the one it
gets, or without entries. -/
def RestartOk : Step cfg taskCount → Prop
  | .restart t => w.Outdated t (generationOf (w.incarnation t + 1)) ∨ w.Absent t
  | _ => True

end

/-- The worlds reached by runs whose restarts are all of that kind. -/
inductive Run : World cfg taskCount → Prop
  | new (size_le : ∀ r, cfg.size r ≤ 255) : Run (new size_le)
  | step {w w' : World cfg taskCount} (h : Run w) (st : Step cfg taskCount)
      (hok : w.RestartOk st) (hstep : w.step st = some w') : Run w'

/-! ## The invariant -/

def Current (w : World cfg taskCount) (t : UInt16) : Prop :=
  ∀ r j, ((w.server.arenas r).map j).occupied = true →
    (((w.server.arenas r).map j).owner = t → w.granted r j = w.incarnation t) ∧
      (((w.server.arenas r).map j).pendingTo = some t → w.prepared r j = w.incarnation t)

structure Inv (w : World cfg taskCount) : Prop where
  arenas : ∀ r, (w.server.arenas r).Inv
  table : w.server.TableInv
  /-- Either the next message from `t` will clean up, or there is no need to. -/
  current : ∀ t, w.Outdated t (generationOf (w.incarnation t)) ∨ w.Current t
  heard_le : ∀ t m, w.heard t = some m → m ≤ w.incarnation t
  clean : w.Clean

section Lemmas

variable {w : World cfg taskCount}

theorem inv_new (size_le : ∀ r, cfg.size r ≤ 255) : (new size_le : World cfg taskCount).Inv := by
  refine ⟨fun r => Arena.inv_new _ _, tableInv_new size_le, fun t => .inr ?_,
    fun t m h => ?_, fun t m h => ?_⟩
  · intro r j hocc
    exact absurd hocc (by simp [new, Server.new, Arena.new, HandleEntry.empty])
  · exact absurd h (by simp [new])
  · exact absurd h (by simp [new])

variable {t : UInt16} {s : Server cfg taskCount}

theorem Absent.current (h : w.Absent t) : w.Current t := fun r j hocc =>
  ⟨fun howner => absurd howner (h r j hocc).1, fun hp => absurd hp (h r j hocc).2⟩

theorem granted_update (w : World cfg taskCount) (s : Server cfg taskCount) (r : Fin count)
    (j : Fin (cfg.size r)) :
    (((w.server.arenas r).map j).occupied = true ∧
      ((s.arenas r).map j).owner = ((w.server.arenas r).map j).owner ∧
      (w.update s).granted r j = w.granted r j) ∨
    (w.update s).granted r j = w.incarnation ((s.arenas r).map j).owner := by
  show (_ ∧ _ ∧ stampOwner _ _ _ _ _ = _) ∨ stampOwner _ _ _ _ _ = _
  grind [stampOwner]

theorem prepared_update (w : World cfg taskCount) (s : Server cfg taskCount) (r : Fin count)
    (j : Fin (cfg.size r)) (ht : ((s.arenas r).map j).pendingTo = some t) :
    (((w.server.arenas r).map j).occupied = true ∧
      ((w.server.arenas r).map j).pendingTo = some t ∧
      (w.update s).prepared r j = w.prepared r j) ∨
    (w.update s).prepared r j = w.incarnation t := by
  show (_ ∧ _ ∧ stampTarget _ _ _ _ _ = _) ∨ stampTarget _ _ _ _ _ = _
  grind [stampTarget]

theorem Current.update (h : w.Current t) (s : Server cfg taskCount) : (w.update s).Current t := by
  intro r j hocc
  constructor
  · intro howner
    rcases granted_update w s r j with ⟨hwas, hsame, hnote⟩ | hnote
    · exact hnote.trans ((h r j hwas).1 (hsame.symm.trans howner))
    · exact hnote.trans (congrArg w.incarnation howner)
  · intro hp
    rcases prepared_update w s r j hp with ⟨hwas, hsame, hnote⟩ | hnote
    · exact hnote.trans ((h r j hwas).2 hsame)
    · exact hnote

theorem Clean.update (h : w.Clean) (hle : ∀ t m, w.heard t = some m → m ≤ w.incarnation t)
    (s : Server cfg taskCount) : (w.update s).Clean := by
  intro t m hm r j hocc
  constructor
  · intro howner
    rcases granted_update w s r j with ⟨hwas, hsame, hnote⟩ | hnote
    · rw [hnote]
      exact (h t m hm r j hwas).1 (hsame.symm.trans howner)
    · rw [hnote]
      exact (hle t m hm).trans (le_of_eq (congrArg w.incarnation howner).symm)
  · intro hp
    rcases prepared_update w s r j hp with ⟨hwas, hsame, hnote⟩ | hnote
    · rw [hnote]
      exact (h t m hm r j hwas).2 hsame
    · rw [hnote]
      exact hle t m hm

theorem Outdated.update {g : UInt8} (h : w.Outdated t g)
    (hclients : ∀ k, (w.server.clients k).active = true →
      (w.server.clients k).taskIndex = t → s.clients k = w.server.clients k) :
    (w.update s).Outdated t g := by
  grind [Outdated, World.update]

theorem Inv.update (hw : w.Inv) (harenas : ∀ r, (s.arenas r).Inv)
    (hclients : s.clients = w.server.clients) : (w.update s).Inv := by
  refine ⟨harenas, ?_, fun t => ?_, hw.heard_le, hw.clean.update hw.heard_le s⟩
  · have htable : s.TableInv := ⟨by rw [hclients]; exact hw.table.distinct,
      by rw [hclients]; exact hw.table.bound⟩
    exact htable
  · rcases hw.current t with hout | hcur
    · exact .inl (hout.update fun k _ _ => by rw [hclients])
    · exact .inr (hcur.update s)

theorem indexOf_lt (t : Fin taskCount) : (indexOf t).toNat < taskCount := by
  exact lt_of_le_of_lt (Nat.mod_le _ _) t.isLt

theorem Inv.current_of_known (hw : w.Inv)
    (h : ∀ k, (w.server.clients k).active = true → (w.server.clients k).taskIndex = t →
      (w.server.clients k).generation = generationOf (w.incarnation t)) : w.Current t := by
  rcases hw.current t with ⟨k, hactive, hindex, hgen⟩ | hcur
  · exact absurd (h k hactive hindex) hgen
  · exact hcur

theorem checkCase_arenas {s' : Server cfg taskCount} {sender : TaskId}
    (h : Server.CheckCase s sender s') (hs : ∀ r, (s.arenas r).Inv) (r : Fin count) :
    (s'.arenas r).Inv := by
  cases h with
  | same => exact hs r
  | restarted => exact (hs r).cleanupClient _
  | first => exact hs r

/-- When the generation of a sender has been checked, its entries are all of its
present incarnation. -/
theorem Inv.current_of_check (hw : w.Inv) (h : Server.CheckCase w.server (w.taskId t) s) :
    (w.update s).Current t := by
  cases h with
  | @same k hk hgen =>
    refine (hw.current_of_known fun m hactive hindex => ?_).update _
    have hc := clientOf_some hk
    rw [hw.table.distinct m k hactive hc.1 (hindex.trans hc.2.symm)]
    exact hgen
  | restarted hk hgen =>
    refine Absent.current fun r j hocc => ?_
    exact Arena.cleanupClient_absent (hw.arenas r) t hocc
  | first hnone hfree =>
    refine (hw.current_of_known fun m hactive hindex => ?_).update _
    exact absurd ⟨hactive, hindex⟩ (clientOf_none hnone m)

theorem hear_heard_self (w : World cfg taskCount) (t : UInt16) :
    (w.hear t).heard t = some (w.incarnation t) := update_self ..

theorem hear_heard_of_ne {u : UInt16} (h : u ≠ t) : (w.hear t).heard u = w.heard u :=
  update_of_ne h ..

theorem Inv.hear (hw : w.Inv) (hcur : w.Current t) : (w.hear t).Inv := by
  refine ⟨hw.arenas, hw.table, hw.current, fun u m hm => ?_, fun u m hm => ?_⟩
  · by_cases hu : u = t
    · subst hu
      rw [hear_heard_self, some.injEq] at hm
      exact le_of_eq hm.symm
    · rw [hear_heard_of_ne hu] at hm
      exact hw.heard_le u m hm
  · by_cases hu : u = t
    · subst hu
      rw [hear_heard_self, some.injEq] at hm
      intro r j hocc
      rw [← hm]
      exact ⟨fun ho => le_of_eq ((hcur r j hocc).1 ho).symm,
        fun hp => le_of_eq ((hcur r j hocc).2 hp).symm⟩
    · rw [hear_heard_of_ne hu] at hm
      exact hw.clean u m hm

theorem Inv.check (hw : w.Inv) (ht : t.toNat < taskCount)
    (h : Server.CheckCase w.server (w.taskId t) s) : (w.update s).Inv := by
  refine ⟨checkCase_arenas h hw.arenas, h.tableInv hw.table ht, fun u => ?_, hw.heard_le,
    hw.clean.update hw.heard_le s⟩
  by_cases hu : u = t
  · subst hu
    exact .inr (hw.current_of_check h)
  · rcases hw.current u with hout | hcur
    · refine .inl (hout.update fun k hactive hindex => h.other hactive ?_)
      rw [hindex]
      exact hu
    · exact .inr (hcur.update s)

theorem receive_inv (hw : w.Inv) (t : Fin taskCount) :
    ∃ w₁, w.receive (indexOf t) = some w₁ ∧ w₁.Inv := by
  obtain ⟨s, hs, hcase⟩ := checkClientGeneration_cases hw.table
    (show (w.taskId (indexOf t)).taskIndex.toNat < taskCount from indexOf_lt t)
  refine ⟨(w.update s).hear (indexOf t), by rw [receive, hs]; rfl, ?_⟩
  exact (hw.check (indexOf_lt t) hcase).hear (hw.current_of_check hcase)

theorem setArena_arenas (hs : ∀ r, (s.arenas r).Inv) (q : Fin count)
    {a : Arena (cfg.Resource q) (cfg.size q)} (ha : a.Inv) (r : Fin count) :
    ((s.setArena q a).arenas r).Inv := by
  by_cases hr : r = q
  · subst hr
    rw [setArena_arenas_self]
    exact ha
  · rw [setArena_arenas_of_ne hr]
    exact hs r

theorem route_clients (s : Server cfg taskCount) (msg : Message) :
    (s.route msg).1.clients = s.clients := by
  unfold route
  split
  · rfl
  · dsimp only
    split
    · rfl
    · split
      · rfl
      · split <;> rfl

theorem route_arenas (hs : ∀ r, (s.arenas r).Inv) (msg : Message) (r : Fin count) :
    ((s.route msg).1.arenas r).Inv := by
  unfold route
  split
  · exact hs r
  · dsimp only
    split
    · exact (hs r).cleanupClient _
    · split
      · exact hs r
      · split
        · exact hs r
        next q hq => exact setArena_arenas hs q (by
            rw [Arena.dispatchImplicit_run]
            exact (hs q).run _) r

theorem restart_incarnation_self (w : World cfg taskCount) (t : UInt16) :
    (w.restart t).incarnation t = w.incarnation t + 1 := update_self ..

theorem restart_incarnation_of_ne {u : UInt16} (h : u ≠ t) :
    (w.restart t).incarnation u = w.incarnation u := update_of_ne h ..

theorem Inv.restart (hw : w.Inv) (hok : w.RestartOk (.restart t)) : (w.restart t).Inv := by
  refine ⟨hw.arenas, hw.table, fun u => ?_, fun u m hm => ?_, hw.clean⟩
  · by_cases hu : u = t
    · subst hu
      rw [restart_incarnation_self]
      rcases hok with hout | habs
      · exact .inl hout
      · exact .inr (Absent.current habs)
    · rw [Current, restart_incarnation_of_ne hu]
      exact hw.current u
  · have hle := hw.heard_le u m hm
    by_cases hu : u = t
    · subst hu
      rw [restart_incarnation_self]
      omega
    · rw [restart_incarnation_of_ne hu]
      exact hle

theorem step_inv (hw : w.Inv) (st : Step cfg taskCount) (hok : w.RestartOk st) :
    ∃ w', w.step st = some w' ∧ w'.Inv := by
  cases st with
  | restart t => exact ⟨_, rfl, hw.restart hok⟩
  | message sender operation data =>
    obtain ⟨w₁, hw₁, hinv⟩ := receive_inv hw sender
    refine ⟨_, by rw [step, hw₁]; rfl, ?_⟩
    exact hinv.update (route_arenas hinv.arenas _) (route_clients _ _)
  | method r op =>
    exact ⟨_, rfl, hw.update (setArena_arenas hw.arenas r ((hw.arenas r).step op)) rfl⟩

theorem Run.inv (h : Run w) : w.Inv := by
  induction h with
  | new size_le => exact inv_new size_le
  | step h st hok hstep ih =>
    obtain ⟨w', hw', hinv⟩ := step_inv ih st hok
    rw [hw', some.injEq] at hstep
    exact hstep ▸ hinv

end Lemmas

/-- In every run whose restarts meet the condition, the arenas hold nothing from
before the last incarnation heard of, and this is so from the moment a message
is taken up, before it is acted on.  The run never stops on a full table. -/
theorem run_clean {w : World cfg taskCount} (h : Run w) :
    w.Clean ∧
    (∀ t : Fin taskCount, ∃ w₁, w.receive (indexOf t) = some w₁ ∧ w₁.Clean ∧
      w₁.heard (indexOf t) = some (w₁.incarnation (indexOf t))) ∧
    (∀ st, w.RestartOk st → ∃ w', w.step st = some w') := by
  have hw := h.inv
  refine ⟨hw.clean, fun t => ?_, fun st hok => ?_⟩
  · obtain ⟨w₁, hw₁, hinv⟩ := receive_inv hw t
    refine ⟨w₁, hw₁, hinv.clean, ?_⟩
    rw [receive, map_eq_some_iff] at hw₁
    obtain ⟨s, -, rfl⟩ := hw₁
    exact hear_heard_self ..
  · obtain ⟨w', hw', -⟩ := step_inv hw st hok
    exact ⟨w', hw'⟩

/-! ## First contact -/

/-- A server with one resource, a two-slot arena of numbers. -/
def numbers : Server.Config 1 :=
  { Resource := fun _ => Nat
    size := fun _ => 2
    kind := fun _ => 0
    priorityFn := fun _ _ => 0
    aclFn := fun _ => true
    postcard := Arena.varintCodec }

def numbersNew : World numbers 3 := new fun _ => (by decide : 2 ≤ 255)

def numbersEntry (w : World numbers 3) (j : Fin 2) : HandleEntry := (w.server.arenas 0).map j

/-- Task 2 prepares a transfer for task 1, which has never sent a message.  Task
1 restarts.  Its first message does not clean up, and it acquires the handle
that was meant for its predecessor. -/
theorem first_contact_keeps_transfer :
    ∃ w w₁ w' : World numbers 3,
      [Step.method 0 (.alloc (10 : Nat) 2 0), .message 2 0x00FC (some [1, 1]),
        .restart 1].foldlM step numbersNew = some w ∧
      w.receive 1 = some w₁ ∧ ¬ w₁.Clean ∧ (numbersEntry w₁ 0).pendingTo = some 1 ∧
      w.step (.message 1 0x00FA (some [1])) = some w' ∧ (numbersEntry w' 0).owner = 1 := by
  refine ⟨_, _, _, rfl, rfl, fun h => ?_, rfl, rfl, rfl⟩
  have hle := (h 1 1 rfl 0 (0 : Fin 2) rfl).2 rfl
  exact absurd hle (by decide)

/-- The same run with a message from task 1 before its restart. -/
theorem run_clean_known :
    ∃ w : World numbers 3,
      [Step.message 1 0x0000 (some []), .method 0 (.alloc (10 : Nat) 2 0),
        .message 2 0x00FC (some [1, 1]), .restart 1,
        .message 1 0x00FA (some [1])].foldlM step numbersNew = some w ∧
      w.Clean ∧ (numbersEntry w 0).owner = 2 := by
  have h₀ : Run numbersNew := Run.new _
  have h₁ := h₀.step (.message 1 0x0000 (some [])) trivial rfl
  have h₂ := h₁.step (.method 0 (.alloc (10 : Nat) 2 0)) trivial rfl
  have h₃ := h₂.step (.message 2 0x00FC (some [1, 1])) trivial rfl
  have h₄ := h₃.step (.restart 1) (.inl ⟨0, rfl, rfl, by decide⟩) rfl
  have h₅ := h₄.step (.message 1 0x00FA (some [1])) trivial rfl
  exact ⟨_, rfl, (run_clean h₅).1, rfl⟩

end World

end Rcard
