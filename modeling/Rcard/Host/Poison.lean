/-
Closing the transport (`IpcProtocol::poison`).

`poison` sets the flag and then clears the map of pending calls.  A call tests the flag before it
takes its number and puts its entry into the map after that, so it can put it into a map that has
been cleared.  Nobody takes such an entry out again but the call itself, when its timeout has
passed.  If no call is in between when the map is cleared, the map stays empty, and every call
comes to its end without its timeout.
-/
import Mathlib.Logic.Relation
import Rcard.Host.Protocol

namespace Rcard

open Function Option

/-- The task has passed the test of the flag and can still put its entry into the map. -/
def Task.Inserting : Task → Prop
  | .encoding _ req => req.Fits maxDecodedFrame
  | .registering _ _ _ => True
  | _ => False

/-- What a call returns that has this answer and no entry. -/
def closed : Option ResolvedResponse → Except IpcError IpcCallResult
  | some response => response.outcome
  | none => .error .disconnected

/-- The moves of a task once the transport is closed, if its call has this answer. -/
inductive Move (answer : Option ResolvedResponse) : Task → Task → Prop
  | refused (whole : Bool) (req : IpcRequest) :
      Move answer (.start whole req) (.returned (.error .transportClosed))
  | malformed (whole : Bool) (req : IpcRequest) :
      Move answer (.encoding whole req) (.returned (.error .encode))
  | sent (seq : UInt16) (frameBytes : List UInt8) :
      Move answer (.sending seq frameBytes) (.waiting seq)
  | unsent (seq : UInt16) (frameBytes : List UInt8) (message : String) :
      Move answer (.sending seq frameBytes) (.returned (.error (.transport message)))
  | disconnected (seq : UInt16) : Move answer (.waiting seq) (.returned (closed answer))
  /-- The timeout had passed before. -/
  | removed (seq : UInt16) : Move answer (.removing seq) (.returned (.error .timeout))
  | unmatched (seq : UInt16) (response : ResolvedResponse) :
      Move answer (.resolving seq response) (.resolved false)
  | poisons : Move answer .poisoning .clearing
  | clears : Move answer .clearing .poisoned

namespace Calls

/-- In every later state the map is empty, every task has made such moves only, and a call that
waits ends with its next step, which is not that of the timeout. -/
structure Final (t : Calls) : Prop where
  empty : ∀ events u, t.run events = some u → ∀ seq, u.protocol.pending seq = none
  moves : ∀ events u, t.run events = some u → ∀ i,
    Relation.ReflTransGen (Move (t.answers i)) (t.tasks i) (u.tasks i)
  ends : ∀ events u, t.run events = some u → ∀ i seq, u.tasks i = .waiting seq →
    ∃ v, u.step (.run i) = some v ∧ v.tasks i = .returned (closed (t.answers i))

/-! ## Once the transport is closed -/

structure Dead (s : Calls) : Prop where
  poisoned : s.protocol.poisoned = true
  empty : ∀ seq, s.protocol.pending seq = none
  inserting : ∀ i, ¬(s.tasks i).Inserting

variable {s t u : Calls}

theorem Dead.goto (h : Dead s) {protocol : IpcProtocol} (hpoisoned : protocol.poisoned = true)
    (hempty : ∀ seq, protocol.pending seq = none) {task : Task} (htask : ¬task.Inserting)
    (i : Nat) : Dead ({ s with protocol }.goto i task) := by
  refine ⟨hpoisoned, hempty, fun j => ?_⟩
  show ¬(update s.tasks i task j).Inserting
  by_cases hj : j = i
  · rwa [hj, update_self]
  · rw [update_of_ne hj]
    exact h.inserting j

theorem Dead.received (h : Dead s) (i : Nat) (seq : UInt16) :
    s.received i seq = .returned (closed (s.answers i)) := by
  rw [Calls.received]
  cases s.answers i with
  | some response => rfl
  | none =>
    refine if_neg ?_
    rw [IpcProtocol.Holds, h.empty]
    intro hholds
    cases hholds

theorem Dead.remove (h : Dead s) (seq : UInt16) (other : UInt16) :
    (s.protocol.remove seq).pending other = none := by
  show update s.protocol.pending seq none other = none
  by_cases hother : other = seq
  · rw [hother, update_self]
  · rw [update_of_ne hother, h.empty]

/-- A step of a task is one of its moves, and leaves the transport closed. -/
structure Stepped (s t : Calls) (i : Nat) : Prop where
  dead : Dead t
  answers : t.answers = s.answers
  moved : Move (s.answers i) (s.tasks i) (t.tasks i)
  others : ∀ j, j ≠ i → t.tasks j = s.tasks j

variable {i : Nat} {event : Event}

theorem Stepped.goto (h : Dead s) (protocol : IpcProtocol) (hpoisoned : protocol.poisoned = true)
    (hempty : ∀ seq, protocol.pending seq = none) {task : Task}
    (hmove : Move (s.answers i) (s.tasks i) task) (htask : ¬task.Inserting) :
    Stepped s ({ s with protocol }.goto i task) i := by
  refine ⟨h.goto hpoisoned hempty htask i, rfl, ?_, fun j hj => update_of_ne hj _ _⟩
  show Move _ _ (update s.tasks i task i)
  rwa [update_self]

/-- The task of an event. -/
def Event.task : Event → Nat
  | run i => i
  | sent i _ => i

theorem Dead.step (h : Dead s) (hstep : s.step event = some t) : Stepped s t event.task := by
  cases event with
  | sent i result =>
    rw [Calls.step] at hstep
    generalize htask : s.tasks i = task at hstep ⊢
    cases task with
    | sending seq frameBytes =>
      cases hstep
      cases result with
      | ok _ => exact .goto h s.protocol h.poisoned h.empty (htask ▸ .sent seq frameBytes) id
      | error message =>
        exact .goto h s.protocol h.poisoned h.empty (htask ▸ .unsent seq frameBytes message) id
    | _ =>
      cases hstep
  | run i =>
    have hquiet := h.inserting i
    rw [Calls.step] at hstep
    generalize htask : s.tasks i = task at hstep hquiet ⊢
    cases task with
    | start whole req =>
      dsimp only at hstep
      rw [if_pos h.poisoned] at hstep
      cases hstep
      exact .goto h s.protocol h.poisoned h.empty (htask ▸ .refused whole req) id
    | encoding whole req =>
      have hnone : req.encodeInto maxDecodedFrame s.protocol.writer.seq = none := by
        cases hframe : req.encodeInto maxDecodedFrame s.protocol.writer.seq with
        | none => rfl
        | some frame => exact absurd (IpcRequest.encodeInto_eq_some.mp hframe).1 hquiet
      dsimp only at hstep
      rw [encode, FrameWriter.writeIpcRequest, hnone] at hstep
      cases hstep
      exact .goto h { s.protocol with writer := ⟨s.protocol.writer.seq + 1⟩ } h.poisoned h.empty
        (htask ▸ .malformed whole req) id
    | registering whole seq frameBytes =>
      exact absurd trivial hquiet
    | waiting seq =>
      cases hstep
      have hreceived := h.received i seq
      exact .goto h s.protocol h.poisoned h.empty (htask ▸ hreceived ▸ .disconnected seq)
        (hreceived ▸ id)
    | removing seq =>
      cases hstep
      exact .goto h (s.protocol.remove seq) h.poisoned (h.remove seq) (htask ▸ .removed seq) id
    | resolving seq response =>
      dsimp only at hstep
      rw [resolve, h.empty] at hstep
      cases hstep
      exact .goto h s.protocol h.poisoned h.empty (htask ▸ .unmatched seq response) id
    | poisoning =>
      cases hstep
      exact .goto h { s.protocol with poisoned := true } rfl h.empty (htask ▸ .poisons) id
    | clearing =>
      cases hstep
      exact .goto h s.protocol.clear h.poisoned (fun _ => rfl) (htask ▸ .clears) id
    | sending seq frameBytes | returned result | prepared seq frameBytes | resolved matched
    | poisoned =>
      cases hstep

theorem Dead.run (h : Dead s) {events : List Event} (hrun : s.run events = some t) :
    Dead t ∧ t.answers = s.answers ∧
      ∀ i, Relation.ReflTransGen (Move (s.answers i)) (s.tasks i) (t.tasks i) := by
  induction events generalizing s with
  | nil =>
    cases hrun
    exact ⟨h, rfl, fun _ => .refl⟩
  | cons event events ih =>
    obtain ⟨next, hstep, hrest⟩ := bind_eq_some_iff.mp hrun
    have hstepped := h.step hstep
    obtain ⟨hdead, hanswers, hmoves⟩ := ih hstepped.dead hrest
    refine ⟨hdead, hanswers.trans hstepped.answers, fun i => ?_⟩
    have hmore := hmoves i
    rw [hstepped.answers] at hmore
    by_cases hi : i = event.task
    · rw [hi] at hmore ⊢
      exact .head hstepped.moved hmore
    · rwa [hstepped.others i hi] at hmore

theorem Dead.final (h : Dead t) : t.Final where
  empty events u hrun := (h.run hrun).1.empty
  moves events u hrun := (h.run hrun).2.2
  ends events u hrun i seq htask := by
    obtain ⟨hdead, hanswers, _⟩ := h.run hrun
    refine ⟨u.goto i (u.received i seq), ?_, ?_⟩
    · rw [Calls.step, htask]
    · show update u.tasks i (u.received i seq) i = _
      rw [update_self, hdead.received, hanswers]

/-! ## Up to that -/

/-- A step moves one task.  It leaves the flag set, and sets it before the map is cleared. -/
theorem step_cases (hstep : s.step event = some t) :
    (∃ task, t.tasks = update s.tasks event.task task ∧
      (task = .clearing → t.protocol.poisoned = true)) ∧
    (s.protocol.poisoned = true → t.protocol.poisoned = true) := by
  cases event with
  | sent i result =>
    rw [Calls.step] at hstep
    split at hstep
    · cases hstep
      refine ⟨⟨_, rfl, fun hclearing => ?_⟩, id⟩
      cases result <;> cases hclearing
    · cases hstep
  | run i =>
    rw [Calls.step] at hstep
    split at hstep
    · cases hstep
      grind [goto, Event.task]
    · cases hstep
      refine ⟨⟨_, rfl, fun hclearing => ?_⟩, id⟩
      split at hclearing <;> cases hclearing
    · cases hstep
      refine ⟨⟨_, rfl, fun hclearing => ?_⟩, id⟩
      split at hclearing <;> cases hclearing
    · cases hstep
      grind [goto, received, Event.task]
    · cases hstep
      exact ⟨⟨_, rfl, fun hclearing => by cases hclearing⟩, id⟩
    · next seq response _ =>
      cases hstep
      grind [goto, IpcProtocol.remove, Event.task]
    · cases hstep
      exact ⟨⟨_, rfl, fun _ => rfl⟩, fun _ => rfl⟩
    · cases hstep
      exact ⟨⟨_, rfl, fun hclearing => by cases hclearing⟩, id⟩
    · cases hstep

/-- A task that is going to clear the map has set the flag. -/
def Flagged (s : Calls) : Prop := ∀ i, s.tasks i = .clearing → s.protocol.poisoned = true

theorem Flagged.step (h : s.Flagged) (hstep : s.step event = some t) : t.Flagged := by
  obtain ⟨⟨task, htasks, hclearing⟩, hset⟩ := step_cases hstep
  intro j hj
  rw [htasks] at hj
  by_cases hi : j = event.task
  · rw [hi, update_self] at hj
    exact hclearing hj
  · rw [update_of_ne hi] at hj
    exact hset (h j hj)

theorem Flagged.run (h : s.Flagged) {events : List Event} (hrun : s.run events = some t) :
    t.Flagged := by
  induction events generalizing s with
  | nil =>
    cases hrun
    exact h
  | cons event events ih =>
    obtain ⟨next, hstep, hrest⟩ := bind_eq_some_iff.mp hrun
    exact ih (h.step hstep) hrest

theorem Initial.flagged (h : s.Initial) : s.Flagged := by
  intro i hi
  rcases h.tasks i with ⟨_, _, htask⟩ | ⟨_, _, htask⟩ | htask
  · cases htask.symm.trans hi
  · cases htask.symm.trans hi
  · cases htask.symm.trans hi

/-! ## Between the test and the map -/

theorem pending_register (s : Calls) (i : Nat) (whole : Bool) (seq : UInt16)
    (frameBytes : List UInt8) : (s.register i whole seq frameBytes).protocol.pending seq =
      some { tx := i, frameBytes, retransmits := 0 } :=
  update_self _ _ _

theorem run_registering {whole : Bool} {seq : UInt16} {frameBytes : List UInt8}
    (h : s.tasks i = .registering whole seq frameBytes) :
    s.run [.run i] = some (s.register i whole seq frameBytes) := by
  rw [run, Calls.step, h]
  rfl

/-- A task that is in between can go on by itself. -/
theorem exists_run_of_inserting (h : (s.tasks i).Inserting) :
    ∃ events t seq, s.run events = some t ∧ t.protocol.pending seq ≠ none := by
  cases htask : s.tasks i with
  | registering whole seq frameBytes =>
    refine ⟨[.run i], s.register i whole seq frameBytes, seq, run_registering htask, ?_⟩
    rw [pending_register]
    exact some_ne_none _
  | encoding whole req =>
    rw [htask] at h
    obtain ⟨frame, hframe⟩ : ∃ frame,
        req.encodeInto maxDecodedFrame s.protocol.writer.seq = some frame :=
      ⟨_, IpcRequest.encodeInto_eq_some.mpr ⟨h, rfl⟩⟩
    have hencoded : (s.encode i whole req).tasks i =
        .registering whole s.protocol.writer.seq frame := by
      rw [encode, FrameWriter.writeIpcRequest, hframe]
      exact update_self _ _ _
    refine ⟨[.run i, .run i], (s.encode i whole req).register i whole s.protocol.writer.seq frame,
      s.protocol.writer.seq, ?_, ?_⟩
    · rw [run, Calls.step, htask]
      exact run_registering hencoded
    · rw [pending_register]
      exact some_ne_none _
  | _ =>
    rw [htask] at h
    exact h.elim

/-- When `poison` has cleared the map, that is final exactly if no task is between its test of the
flag and its entry. -/
theorem poison_final_iff {s₀ s t : Calls} {i : Nat} (hinit : s₀.Initial) {events : List Event}
    (hrun : s₀.run events = some s) (hclearing : s.tasks i = .clearing)
    (hstep : s.step (.run i) = some t) : t.Final ↔ ∀ j, ¬(t.tasks j).Inserting := by
  have hpoisoned := hinit.flagged.run hrun i hclearing
  rw [Calls.step, hclearing] at hstep
  cases hstep
  constructor
  · intro hfinal j hinserting
    obtain ⟨events, u, seq, hrun, hne⟩ := exists_run_of_inserting hinserting
    exact hne (hfinal.empty events u hrun seq)
  · intro hquiet
    exact Dead.final ⟨hpoisoned, fun _ => rfl, hquiet⟩

/-- Task 0 is a call, task 1 closes the transport, and nobody else does anything. -/
def callAndPoison : Calls where
  protocol := .new
  answers := fun _ => none
  tasks
    | 0 => .start true { taskId := 1, resourceKind := 0, method := 0, args := [], leases := [],
                         leaseData := [] }
    | 1 => .poisoning
    | _ => .resolving 0 .unexpectedFrame

theorem initial_callAndPoison : callAndPoison.Initial := by
  refine ⟨rfl, rfl, fun i => ?_⟩
  grind [callAndPoison]

/-- The call is waiting when the transport is closed. -/
theorem poison_final_waiting : ∃ s t, callAndPoison.run
      [.run 0, .run 0, .run 0, .sent 0 (.ok ()), .run 1] = some s ∧
    s.step (.run 1) = some t ∧ t.tasks 0 = .waiting 0 ∧ t.Final := by
  refine ⟨_, _, rfl, rfl, rfl,
    (poison_final_iff (i := 1) initial_callAndPoison
      (show callAndPoison.run [.run 0, .run 0, .run 0, .sent 0 (.ok ()), .run 1] = _ from rfl)
      rfl rfl).mpr fun j => ?_⟩
  match j with
  | 0 => exact id
  | 1 => exact id
  | _ + 2 => exact id

/-- The call has passed the test of the flag when the transport is closed.  Its entry stays until
its timeout wakes it. -/
theorem poison_misses_call : ∃ t, callAndPoison.run
      [.run 0, .run 1, .run 1, .run 0, .run 0, .sent 0 (.ok ()), .run 0] = some t ∧
    t.tasks 1 = .poisoned ∧ t.protocol.pending 0 ≠ none ∧ t.tasks 0 = .removing 0 :=
  ⟨_, rfl, rfl, Option.some_ne_none _, rfl⟩

end Calls
end Rcard
