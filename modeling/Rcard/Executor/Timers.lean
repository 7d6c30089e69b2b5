/-
The time driver of the executor (`modules/ipc/src/executor/time_driver.rs`).

Eight entries hold a deadline and a waker, and the kernel timer is armed for the earliest
deadline.  A waker has one entry: registered again, it keeps only its new deadline.  A
ninth waker takes the entry with the latest deadline.  In both cases a pair that was
registered before is forgotten.

`pending` is what the callers have asked for: the pairs registered and not yet due.  The
driver serves all of it as long as each registration finds its own pair registered, or a
waker without an entry and an entry without a waker.  A registration that does not can be
followed by expirations that miss a pair.
-/
import Mathlib.Data.Fin.Basic
import Mathlib.Data.List.FinRange
import Mathlib.Data.Nat.Bitwise

namespace Rcard.Timers

open List Function

abbrev maxAlarms : Nat := 8

structure TimerEntry (W : Type) where
  deadline : Nat
  waker : Option W
  deriving DecidableEq, Repr

/-- The table, and what the kernel timer was last set to. -/
structure Driver (W : Type) where
  entries : Fin maxAlarms → TimerEntry W
  armed : Option Nat

variable {W : Type}

def TimerEntry.empty : TimerEntry W := { deadline := 2 ^ 64 - 1, waker := none }

namespace Driver

def new : Driver W := { entries := fun _ => .empty, armed := none }

def set (d : Driver W) (i : Fin maxAlarms) (e : TimerEntry W) : Driver W :=
  { d with entries := update d.entries i e }

def deadlines (d : Driver W) : List Nat :=
  ((finRange maxAlarms).filter fun i => (d.entries i).waker.isSome).map fun i =>
    (d.entries i).deadline

def armEarliest (d : Driver W) : Driver W := { d with armed := d.deadlines.min? }

def due (now : Nat) (e : TimerEntry W) : Bool := e.waker.isSome && e.deadline ≤ now

/-- The driver afterwards and the wakers that were woken. -/
def expireTimers (d : Driver W) (now : Nat) : Driver W × List W :=
  (armEarliest
    { d with entries := fun i => if due now (d.entries i) then .empty else d.entries i },
   (finRange maxAlarms).filterMap fun i =>
    if due now (d.entries i) then (d.entries i).waker else none)

/-- `max_by_key`, which takes the last of equals. -/
def latest (d : Driver W) : Fin maxAlarms :=
  (finRange maxAlarms).foldl
    (fun best i => if (d.entries best).deadline ≤ (d.entries i).deadline then i else best) 0

def free (d : Driver W) : Option (Fin maxAlarms) :=
  (finRange maxAlarms).find? fun i => (d.entries i).waker.isNone

variable [DecidableEq W]

/-- `will_wake` is equality of wakers. -/
def registered (d : Driver W) (w : W) : Option (Fin maxAlarms) :=
  (finRange maxAlarms).find? fun i => (d.entries i).waker = some w

def scheduleWake (d : Driver W) (t : Nat) (w : W) : Driver W :=
  match d.registered w with
  | some i => (d.set i { deadline := t, waker := (d.entries i).waker }).armEarliest
  | none =>
    match d.free with
    | some i => (d.set i { deadline := t, waker := some w }).armEarliest
    | none => (d.set d.latest { deadline := t, waker := some w }).armEarliest

end Driver

/-! ## Runs -/

structure State (W : Type) where
  driver : Driver W
  /-- The pairs registered and not yet due. -/
  pending : List (Nat × W)

inductive Event (W : Type) where
  | scheduleWake (t : Nat) (w : W)
  /-- `Sleep::poll` at a time of the kernel. -/
  | poll (deadline : Nat) (w : W) (now : Nat)
  | expireTimers (now : Nat)

namespace State

def start : State W := { driver := .new, pending := [] }

def expireTimers (s : State W) (now : Nat) : State W :=
  { driver := (s.driver.expireTimers now).1
    pending := s.pending.filter fun p => now < p.1 }

variable [DecidableEq W]

def scheduleWake (s : State W) (t : Nat) (w : W) : State W :=
  { driver := s.driver.scheduleWake t w, pending := s.pending ++ [(t, w)] }

def step (s : State W) : Event W → State W
  | .scheduleWake t w => s.scheduleWake t w
  | .poll deadline w now => if deadline ≤ now then s else s.scheduleWake deadline w
  | .expireTimers now => s.expireTimers now

def run (s : State W) (es : List (Event W)) : State W := es.foldl step s

end State

section Spec

/-- Whatever is pending, the kernel timer is armed in time for it. -/
def Armed (s : State W) : Prop := ∀ p ∈ s.pending, s.driver.armed.any (· ≤ p.1)

/-- An expiration wakes the waker of every pair that is due. -/
def Serves (s : State W) : Event W → Prop
  | .expireTimers now =>
    ∀ p ∈ s.pending, p.1 ≤ now → p.2 ∈ (s.driver.expireTimers now).2
  | _ => True

variable [DecidableEq W]

instance (s : State W) : Decidable (Armed s) :=
  inferInstanceAs (Decidable (∀ p ∈ s.pending, s.driver.armed.any (· ≤ p.1) = true))

instance (s : State W) : (e : Event W) → Decidable (Serves s e)
  | .scheduleWake _ _ => isTrue trivial
  | .poll _ _ _ => isTrue trivial
  | .expireTimers now =>
    inferInstanceAs (Decidable (∀ p ∈ s.pending, p.1 ≤ now → p.2 ∈ (s.driver.expireTimers now).2))

def Kept : State W → List (Event W) → Prop
  | s, [] => Armed s
  | s, e :: es => Armed s ∧ Serves s e ∧ Kept (s.step e) es

instance decidableKept : (s : State W) → (es : List (Event W)) → Decidable (Kept s es)
  | s, [] => inferInstanceAs (Decidable (Armed s))
  | s, e :: es =>
    have := decidableKept (s.step e) es
    inferInstanceAs (Decidable (Armed s ∧ Serves s e ∧ Kept (s.step e) es))

/-- The pair has its entry, or its waker has none and there is a free one. -/
def Fits (d : Driver W) (t : Nat) (w : W) : Prop :=
  (∃ i, d.entries i = { deadline := t, waker := some w }) ∨
    ((∀ i, (d.entries i).waker ≠ some w) ∧ ∃ i, (d.entries i).waker = none)

def Allowed (s : State W) : Event W → Prop
  | .scheduleWake t w => Fits s.driver t w
  | .poll deadline w now => deadline ≤ now ∨ Fits s.driver deadline w
  | .expireTimers _ => True

def Orderly : State W → List (Event W) → Prop
  | _, [] => True
  | s, e :: es => Allowed s e ∧ Orderly (s.step e) es

end Spec

/-! ## The invariant -/

/-- The entries with a waker are what is pending, and the timer is set for them. -/
structure Inv (s : State W) : Prop where
  listed : ∀ p ∈ s.pending, ∃ i, s.driver.entries i = { deadline := p.1, waker := some p.2 }
  asked : ∀ i t w, s.driver.entries i = { deadline := t, waker := some w } → (t, w) ∈ s.pending
  once : ∀ i j w, (s.driver.entries i).waker = some w → (s.driver.entries j).waker = some w → i = j
  armed : s.driver.armed = s.driver.deadlines.min?

section Lookup

variable {d : Driver W} {i : Fin maxAlarms} {w : W}

theorem Driver.mem_deadlines {t : Nat} (h : d.entries i = { deadline := t, waker := some w }) :
    t ∈ d.deadlines := by
  grind [deadlines]

theorem Driver.min_deadlines {t : Nat} (h : t ∈ d.deadlines) : d.deadlines.min?.any (· ≤ t) := by
  cases hmin : d.deadlines.min? with
  | none =>
    rw [min?_eq_none_iff.mp hmin] at h
    cases h
  | some a => exact decide_eq_true ((min?_eq_some_iff.mp hmin).2 t h)

theorem Driver.mem_woken {now t : Nat} (h : d.entries i = { deadline := t, waker := some w })
    (hdue : t ≤ now) : w ∈ (d.expireTimers now).2 := by
  refine mem_filterMap.mpr ⟨i, mem_finRange i, ?_⟩
  rw [h, if_pos (by simp [due, hdue])]

/-- Only entries with that waker, due, wake it. -/
theorem Driver.exists_of_mem_woken {now : Nat} (h : w ∈ (d.expireTimers now).2) :
    ∃ i, (d.entries i).waker = some w ∧ (d.entries i).deadline ≤ now := by
  obtain ⟨i, -, hi⟩ := mem_filterMap.mp h
  split at hi
  · rename_i hdue
    simp only [due, Bool.and_eq_true, decide_eq_true_eq] at hdue
    exact ⟨i, hi, hdue.2⟩
  · cases hi

theorem Driver.free_some (h : d.free = some i) : (d.entries i).waker = none := by
  have hfound := find?_some h
  exact Option.isNone_iff_eq_none.mp hfound

theorem Driver.free_none (h : d.free = none) (i : Fin maxAlarms) : (d.entries i).waker ≠ none := by
  have hnot := find?_eq_none.mp h i (mem_finRange i)
  simpa using hnot

variable [DecidableEq W]

theorem Driver.registered_some (h : d.registered w = some i) : (d.entries i).waker = some w := by
  have hfound := find?_some h
  exact of_decide_eq_true hfound

theorem Driver.registered_none (h : d.registered w = none) (i : Fin maxAlarms) :
    (d.entries i).waker ≠ some w := by
  have hnot := find?_eq_none.mp h i (mem_finRange i)
  simpa using hnot

end Lookup

section Step

variable {s : State W} {t : Nat} {w : W}

theorem entry_eq {e : TimerEntry W} (h : e.waker = some w) :
    e = { deadline := e.deadline, waker := some w } := by
  cases e
  cases h
  rfl

theorem inv_start : Inv (State.start : State W) := by
  refine ⟨nofun, ?_, ?_, ?_⟩
  · intro i t w h
    cases h
  · intro i j w h
    cases h
  · rfl

/-- The entries that are left after an expiration are those not yet due. -/
theorem entries_expireTimers (d : Driver W) (now : Nat) (i : Fin maxAlarms) (t : Nat) (w : W) :
    (d.expireTimers now).1.entries i = { deadline := t, waker := some w } ↔
      d.entries i = { deadline := t, waker := some w } ∧ now < t := by
  change (if Driver.due now (d.entries i) then .empty else d.entries i) = _ ↔ _
  grind [Driver.due, TimerEntry.empty]

theorem Inv.expireTimers (h : Inv s) (now : Nat) : Inv (s.expireTimers now) := by
  refine ⟨?_, ?_, ?_, rfl⟩
  · intro p hp
    obtain ⟨hp, hlt⟩ := mem_filter.mp hp
    obtain ⟨i, hi⟩ := h.listed p hp
    exact ⟨i, (entries_expireTimers _ _ _ _ _).mpr ⟨hi, of_decide_eq_true hlt⟩⟩
  · intro i t w hi
    obtain ⟨hi, hlt⟩ := (entries_expireTimers _ _ _ _ _).mp hi
    exact mem_filter.mpr ⟨h.asked i t w hi, decide_eq_true hlt⟩
  · intro i j w hi hj
    have hi' := ((entries_expireTimers _ _ _ _ _).mp (entry_eq hi)).1
    have hj' := ((entries_expireTimers _ _ _ _ _).mp (entry_eq hj)).1
    exact h.once i j w (by rw [hi']) (by rw [hj'])

/-- With a pair pending, the timer is armed for it. -/
theorem Inv.armed_pending (h : Inv s) : Armed s := by
  intro p hp
  obtain ⟨i, hi⟩ := h.listed p hp
  rw [h.armed]
  exact Driver.min_deadlines (Driver.mem_deadlines hi)

theorem Inv.serves (h : Inv s) (e : Event W) : Serves s e := by
  cases e with
  | scheduleWake t w => trivial
  | poll deadline w now => trivial
  | expireTimers now =>
    intro p hp hdue
    obtain ⟨i, hi⟩ := h.listed p hp
    exact Driver.mem_woken hi hdue

variable [DecidableEq W]

/-- A registration that finds its pair changes nothing. -/
theorem scheduleWake_again (h : Inv s) {i : Fin maxAlarms}
    (hi : s.driver.entries i = { deadline := t, waker := some w }) :
    (s.scheduleWake t w).driver.entries = s.driver.entries := by
  rw [State.scheduleWake, Driver.scheduleWake]
  cases hreg : s.driver.registered w with
  | none => exact absurd (by rw [hi]) (Driver.registered_none hreg i)
  | some j =>
    obtain rfl := h.once i j w (by rw [hi]) (Driver.registered_some hreg)
    change update _ _ _ = _
    grind

/-- A waker without an entry takes a free one. -/
theorem scheduleWake_free (t : Nat) (hnew : ∀ i, (s.driver.entries i).waker ≠ some w)
    (hfree : ∃ i, (s.driver.entries i).waker = none) :
    ∃ i, (s.driver.entries i).waker = none ∧ (s.scheduleWake t w).driver.entries =
      update s.driver.entries i { deadline := t, waker := some w } := by
  rw [State.scheduleWake, Driver.scheduleWake]
  cases hreg : s.driver.registered w with
  | some j => exact absurd (Driver.registered_some hreg) (hnew j)
  | none =>
    cases hslot : s.driver.free with
    | none =>
      obtain ⟨i, hi⟩ := hfree
      exact absurd hi (Driver.free_none hslot i)
    | some i => exact ⟨i, Driver.free_some hslot, rfl⟩

theorem armed_scheduleWake (d : Driver W) (t : Nat) (w : W) :
    (d.scheduleWake t w).armed = (d.scheduleWake t w).deadlines.min? := by
  rw [Driver.scheduleWake]
  split
  · rfl
  · split <;> rfl

theorem Inv.scheduleWake (h : Inv s) (hfits : Fits s.driver t w) : Inv (s.scheduleWake t w) := by
  have hpending : (s.scheduleWake t w).pending = s.pending ++ [(t, w)] := rfl
  rcases hfits with ⟨i, hi⟩ | ⟨hnew, hfree⟩
  · have hsame := scheduleWake_again h hi
    refine ⟨?_, ?_, ?_, armed_scheduleWake _ _ _⟩
    · rw [hsame]
      exact forall_mem_append.mpr ⟨h.listed, forall_mem_singleton.mpr ⟨i, hi⟩⟩
    · rw [hsame]
      exact fun j t' w' hj => mem_append_left _ (h.asked j t' w' hj)
    · rw [hsame]
      exact h.once
  · obtain ⟨i, hnone, hset⟩ := scheduleWake_free t hnew hfree
    have hself : (s.scheduleWake t w).driver.entries i = { deadline := t, waker := some w } := by
      rw [hset, update_self]
    have hother : ∀ j, j ≠ i → (s.scheduleWake t w).driver.entries j = s.driver.entries j := by
      intro j hj
      rw [hset, update_of_ne hj]
    refine ⟨?_, ?_, ?_, armed_scheduleWake _ _ _⟩
    · refine forall_mem_append.mpr ⟨fun p hp => ?_, forall_mem_singleton.mpr ⟨i, hself⟩⟩
      obtain ⟨j, hj⟩ := h.listed p hp
      grind
    · intro j t' w' hj
      by_cases hne : j = i
      · grind
      · rw [hother j hne] at hj
        exact mem_append_left _ (h.asked j t' w' hj)
    · intro j k w' hj hk
      by_cases hji : j = i <;> by_cases hki : k = i
      · rw [hji, hki]
      · grind
      · grind
      · rw [hother j hji] at hj
        rw [hother k hki] at hk
        exact h.once j k w' hj hk

theorem Inv.step (h : Inv s) {e : Event W} (ha : Allowed s e) : Inv (s.step e) := by
  cases e with
  | scheduleWake t w => exact h.scheduleWake ha
  | poll deadline w now =>
    rw [State.step]
    split
    · exact h
    · rename_i hlater
      exact h.scheduleWake (ha.resolve_left hlater)
  | expireTimers now => exact h.expireTimers now

theorem Inv.run (h : Inv s) {es : List (Event W)} (ho : Orderly s es) :
    Inv (s.run es) ∧ Kept s es := by
  induction es generalizing s with
  | nil => exact ⟨h, h.armed_pending⟩
  | cons e es ih =>
    obtain ⟨hinv, hkept⟩ := ih (h.step ho.1) ho.2
    exact ⟨hinv, h.armed_pending, h.serves e, hkept⟩

/-- The entry that a registration writes, if it does not fit, belongs to another pair. -/
theorem scheduleWake_of_not_fits (hnot : ¬Fits s.driver t w) :
    ∃ i d w', s.driver.entries i = { deadline := d, waker := some w' } ∧ (d, w') ≠ (t, w) ∧
      (s.scheduleWake t w).driver.entries =
        update s.driver.entries i { deadline := t, waker := some w } := by
  rw [State.scheduleWake, Driver.scheduleWake]
  cases hreg : s.driver.registered w with
  | some i =>
    have hi := entry_eq (Driver.registered_some hreg)
    refine ⟨i, _, w, hi, ?_, ?_⟩
    · intro hsame
      rw [(Prod.mk.inj hsame).1] at hi
      exact hnot (.inl ⟨i, hi⟩)
    · change update _ _ _ = _
      rw [Driver.registered_some hreg]
  | none =>
    have hnew := Driver.registered_none hreg
    cases hslot : s.driver.free with
    | some i => exact absurd (.inr ⟨hnew, i, Driver.free_some hslot⟩) hnot
    | none =>
      obtain ⟨w', hw'⟩ := Option.ne_none_iff_exists'.mp (Driver.free_none hslot s.driver.latest)
      refine ⟨s.driver.latest, _, w', entry_eq hw', ?_, rfl⟩
      intro hsame
      rw [(Prod.mk.inj hsame).2] at hw'
      exact hnew _ hw'

/-- A registration that does not fit takes the entry of a pair that is pending. -/
theorem lost_of_not_fits (h : Inv s) (hnot : ¬Fits s.driver t w) :
    ∃ d w', (d, w') ∈ s.pending ∧
      ∀ i, (s.scheduleWake t w).driver.entries i ≠ { deadline := d, waker := some w' } := by
  obtain ⟨i, d, w', hi, hne, hset⟩ := scheduleWake_of_not_fits hnot
  refine ⟨d, w', h.asked i d w' hi, fun j hj => ?_⟩
  rw [hset] at hj
  by_cases hji : j = i
  · rw [hji, update_self] at hj
    cases hj
    exact hne rfl
  · rw [update_of_ne hji] at hj
    exact hji (h.once j i w' (by rw [hj]) (by rw [hi]))

/-- A pair without an entry is missed. -/
theorem missed_of_lost {d : Nat} (hpending : (d, w) ∈ s.pending)
    (hlost : ∀ i, s.driver.entries i ≠ { deadline := d, waker := some w }) :
    ¬Kept s [.expireTimers (d - 1), .expireTimers d] := by
  rintro ⟨-, hfirst, -, hsecond, -⟩
  rcases Nat.eq_zero_or_pos d with hzero | hpos
  · obtain ⟨i, hwaker, hdue⟩ :=
      Driver.exists_of_mem_woken (hfirst _ hpending (by dsimp only; omega))
    have hdeadline : (s.driver.entries i).deadline = d := by omega
    exact hlost i ((entry_eq hwaker).trans (by rw [hdeadline]))
  · have hstill : (d, w) ∈ (s.expireTimers (d - 1)).pending :=
      mem_filter.mpr ⟨hpending, decide_eq_true (by omega)⟩
    obtain ⟨i, hwaker, hdue⟩ := Driver.exists_of_mem_woken (hsecond _ hstill (Nat.le_refl _))
    obtain ⟨hi, hlater⟩ := (entries_expireTimers _ _ _ _ _).mp (entry_eq hwaker)
    have hdeadline : ((s.expireTimers (d - 1)).driver.entries i).deadline = d :=
      Nat.le_antisymm hdue (Nat.le_of_pred_lt hlater)
    exact hlost i (hi.trans (congrArg (TimerEntry.mk · (some w)) hdeadline))

end Step

/-- In a run whose registrations all fit, no pair is missed and the kernel timer is always
armed in time.  After such a run, a registration that does not fit can be followed by
expirations that miss a pair. -/
theorem no_timer_lost [DecidableEq W] (es : List (Event W)) (h : Orderly State.start es) :
    Kept State.start es ∧
      ∀ t w, ¬Fits (State.start.run es).driver t w →
        ∃ now now', ¬Kept (State.start.run es)
          [.scheduleWake t w, .expireTimers now, .expireTimers now'] := by
  obtain ⟨hinv, hkept⟩ := inv_start.run h
  refine ⟨hkept, fun t w hnot => ?_⟩
  obtain ⟨d, w', hpending, hlost⟩ := lost_of_not_fits hinv hnot
  refine ⟨d - 1, d, fun hall => ?_⟩
  exact missed_of_lost (mem_append_left _ hpending) hlost hall.2.2

/-- A task that sleeps is polled twice, and another one sleeps longer. -/
def twoSleeps : List (Event Nat) :=
  [.poll 5 0 1, .poll 8 1 2, .poll 5 0 3, .expireTimers 5, .expireTimers 9]

theorem no_timer_lost_two_sleeps : Kept State.start twoSleeps := by
  refine (no_timer_lost twoSleeps ?_).1
  refine ⟨.inr (.inr ⟨by decide, 0, rfl⟩), .inr (.inr ⟨by decide, 1, by decide⟩),
    .inr (.inl ⟨0, by decide⟩), trivial, trivial, trivial⟩

/-- Nine wakers with deadlines from 1 to 9. -/
def nineWakers : List (Event Nat) :=
  (range 9).map (fun i => .scheduleWake (i + 1) i) ++ [.expireTimers 8]

/-- The ninth waker takes the entry of the eighth, and a waker that is registered for a
later time loses the earlier one. -/
theorem timers_lost :
    ¬Kept State.start nineWakers ∧
      ¬Kept State.start [.scheduleWake 5 0, .scheduleWake 9 0, .expireTimers 5] := by
  decide +kernel

end Rcard.Timers
