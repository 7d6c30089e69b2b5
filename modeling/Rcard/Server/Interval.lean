/-
The periodic handler of a server (`gen_server` in `ipc/macros/src/server_macro.rs`).

The timer is armed for one period from now when the server starts.  When its bit comes in, the
handler is run and the timer is armed again, for one period after the deadline before or one period
after the handler has returned, whichever is later.  That is always the latter, since the handler
is not run before the deadline: a handler that takes any time at all moves all later ticks.

Times are in milliseconds, and sums of them wrap at 64 bits.
-/
import Mathlib.Data.Nat.Bitwise

namespace Rcard.Interval

/-- A tick that was served: the deadline that triggered it, when its handler returned, and the
deadline that was armed then. -/
structure Tick where
  deadline : Nat
  returned : Nat
  next : Nat
  deriving DecidableEq, Repr

structure State where
  now : Nat
  nextIntervalDeadline : Nat
  /-- The timer of the kernel. -/
  timer : Option Nat
  /-- The interval bit was posted. -/
  posted : Bool
  /-- All deadlines the timer was armed for. -/
  armed : List Nat
  ticks : List Tick
  deriving DecidableEq, Repr

inductive Event where
  /-- Time goes by, in the server or out of it. -/
  | pass (ms : Nat)
  /-- The bit is received, and the handler takes this long. -/
  | serve (ms : Nat)
  deriving DecidableEq, Repr

def sum (a b : Nat) : Nat := (a + b) % 2 ^ 64

namespace State

def setTimer (s : State) (deadline : Nat) : State :=
  { s with
    nextIntervalDeadline := deadline, timer := some deadline, armed := s.armed ++ [deadline] }

/-- The kernel posts the bit when the deadline is reached. -/
def pass (s : State) (ms : Nat) : State :=
  let now := s.now + ms
  if s.timer.any (· ≤ now) then { s with now, timer := none, posted := true } else { s with now }

def serve (period : Nat) (s : State) (ms : Nat) : State :=
  if s.posted then
    let s := { s.pass ms with posted := false }
    let next := max (sum s.nextIntervalDeadline period) (sum s.now period)
    { s.setTimer next with ticks := s.ticks ++ [⟨s.nextIntervalDeadline, s.now, next⟩] }
  else s

def step (period : Nat) (s : State) : Event → State
  | .pass ms => s.pass ms
  | .serve ms => s.serve period ms

end State

def start (period now : Nat) : State :=
  State.setTimer ⟨now, 0, none, false, [], []⟩ (sum now period)

def run (period now : Nat) (events : List Event) : State :=
  events.foldl (State.step period) (start period now)

/-- The `k`-th of them is `k` periods after the start. -/
def OnTime (period now : Nat) (armed : List Nat) : Prop :=
  armed = (List.range armed.length).map fun k => now + (k + 1) * period

/-- The sums made for the tick do not wrap. -/
def Tick.Fits (period : Nat) (t : Tick) : Prop :=
  t.deadline + period < 2 ^ 64 ∧ t.returned + period < 2 ^ 64

structure Inv (period start : Nat) (s : State) : Prop where
  /-- The bit is posted at the deadline, not before. -/
  due : (s.timer = some s.nextIntervalDeadline ∧ s.posted = false) ∨
    (s.timer = none ∧ s.posted = true ∧ s.nextIntervalDeadline ≤ s.now)
  last : ∃ before, s.armed = before ++ [s.nextIntervalDeadline]
  onTime : (∀ t ∈ s.ticks, t.Fits period) →
    (OnTime period start s.armed ↔ ∀ t ∈ s.ticks, t.returned = t.deadline)
  later : 0 < period → ∀ t ∈ s.ticks, t.Fits period → t.returned < t.next

open List

variable {period begin : Nat} {s : State}

/-- One more deadline. -/
theorem onTime_snoc {before : List Nat} {d next : Nat} :
    OnTime period begin (before ++ [d] ++ [next]) ↔
      OnTime period begin (before ++ [d]) ∧ next = d + period := by
  unfold OnTime
  simp only [length_append, length_singleton, range_succ, map_append, map_singleton]
  constructor
  · intro h
    obtain ⟨hbefore, hnext⟩ := append_inj' h rfl
    obtain ⟨-, hd⟩ := append_inj' hbefore rfl
    rw [singleton_inj] at hd hnext
    refine ⟨hbefore, ?_⟩
    rw [hnext, hd, Nat.add_mul (before.length + 1), Nat.one_mul, Nat.add_assoc]
  · rintro ⟨hbefore, rfl⟩
    obtain ⟨-, hd⟩ := append_inj' hbefore rfl
    rw [singleton_inj] at hd
    rw [hbefore, hd, Nat.add_mul (before.length + 1), Nat.one_mul, Nat.add_assoc]

theorem pass_of_none (htimer : s.timer = none) (ms : Nat) :
    s.pass ms = { s with now := s.now + ms } := by
  rw [State.pass, htimer]
  rfl

theorem Inv.pass (h : Inv period begin s) (ms : Nat) : Inv period begin (s.pass ms) := by
  rcases h.due with ⟨htimer, hposted⟩ | ⟨htimer, hposted, hdue⟩
  · unfold State.pass
    dsimp only
    split
    · next hany =>
      rw [htimer, Option.any_some, decide_eq_true_eq] at hany
      exact { h with due := .inr ⟨rfl, rfl, hany⟩ }
    · exact { h with due := .inl ⟨htimer, hposted⟩ }
  · rw [pass_of_none htimer]
    exact { h with due := .inr ⟨htimer, hposted, Nat.le_add_right_of_le hdue⟩ }

theorem Inv.serve (h : Inv period begin s) (ms : Nat) : Inv period begin (s.serve period ms) := by
  rcases h.due with ⟨-, hposted⟩ | ⟨htimer, hposted, hdue⟩
  · rwa [State.serve, hposted, if_neg Bool.false_ne_true]
  · obtain ⟨before, hlast⟩ := h.last
    rw [State.serve, hposted, pass_of_none htimer]
    refine ⟨.inl ⟨rfl, rfl⟩, ⟨s.armed, rfl⟩, fun hfits => ?_, fun hperiod => ?_⟩
    · obtain ⟨hold, hnew⟩ := forall_mem_append.mp hfits
      obtain ⟨hfit, hfit'⟩ := forall_mem_singleton.mp hnew
      show OnTime period begin (s.armed ++ [_]) ↔ ∀ t ∈ s.ticks ++ [_], _
      rw [forall_mem_append, forall_mem_singleton, ← h.onTime hold, hlast, onTime_snoc]
      refine and_congr_right fun _ => ?_
      dsimp only at hfit hfit' ⊢
      rw [sum, sum]
      omega
    · refine forall_mem_append.mpr ⟨h.later hperiod, forall_mem_singleton.mpr ?_⟩
      rintro ⟨-, hfit⟩
      dsimp only at hfit ⊢
      rw [sum, sum]
      omega

theorem inv_start (hfit : begin + period < 2 ^ 64) : Inv period begin (start period begin) := by
  have hsum : sum begin period = begin + period := Nat.mod_eq_of_lt hfit
  refine ⟨.inl ⟨rfl, rfl⟩, ⟨[], rfl⟩, fun _ => ?_, fun _ t ht => absurd ht not_mem_nil⟩
  refine iff_of_true ?_ fun t ht => absurd ht not_mem_nil
  show [sum begin period] = [begin + (0 + 1) * period]
  rw [hsum, Nat.one_mul]

theorem inv_run (hfit : begin + period < 2 ^ 64) (events : List Event) :
    Inv period begin (run period begin events) := by
  unfold run
  have hstart := inv_start hfit
  generalize start period begin = s at hstart
  induction events generalizing s with
  | nil => exact hstart
  | cons event events ih =>
    cases event with
    | pass ms => exact ih _ (hstart.pass ms)
    | serve ms => exact ih _ (hstart.serve ms)

/-- The deadlines are whole periods after the start exactly if every handler returns at the very
time of its deadline.  The next deadline is always later than the time it is armed at. -/
theorem drift_free_iff (period now : Nat) (hfit : now + period < 2 ^ 64) (events : List Event)
    (hfits : ∀ t ∈ (run period now events).ticks, t.Fits period) :
    (OnTime period now (run period now events).armed ↔
      ∀ t ∈ (run period now events).ticks, t.returned = t.deadline) ∧
    (0 < period → ∀ t ∈ (run period now events).ticks, t.returned < t.next) :=
  have h := inv_run hfit events
  ⟨h.onTime hfits, fun hperiod t ht => h.later hperiod t ht (hfits t ht)⟩

theorem drift_free_iff_instant : OnTime 10 0 (run 10 0 [.pass 10, .serve 0, .pass 10]).armed :=
  (drift_free_iff 10 0 (by decide) [.pass 10, .serve 0, .pass 10]
    (by unfold Tick.Fits; decide)).1.mpr (by decide)

/-- The handler takes one of ten milliseconds. -/
theorem tick_drifts : (run 10 0 [.pass 10, .serve 1]).ticks = [⟨10, 11, 21⟩] ∧
    (run 10 0 [.pass 10, .serve 1]).armed = [10, 21] := by
  decide

end Rcard.Interval
