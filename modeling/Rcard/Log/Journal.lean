/-
What the log task and the reader are for.

Logs are begun, added to and completed, and the complete ones come out in order.  The
journal knows neither streams nor frames.
-/
import Rcard.Log.Device
import Rcard.Log.Streams

namespace Rcard.Log

open Function List

structure Record where
  metadata : LogMetadata
  payload : List UInt8

def Record.add (data : List UInt8) (rec : Record) : Record :=
  { rec with payload := rec.payload ++ data }

/-- Open logs by handle, and the complete ones. -/
@[ext]
structure Journal where
  begun : Nat
  handles : Nat
  opened : Nat → Option Record
  unused : ∀ h, handles ≤ h → opened h = none
  done : List Record

def Journal.new : Journal where
  begun := 0
  handles := 0
  opened := fun _ => none
  unused := fun _ _ => rfl
  done := []

def Journal.record (j : Journal) (head : Head) (payload : List UInt8) : Record :=
  { metadata := head.metadata (UInt64.ofNat (j.begun + 1)), payload }

section Unused

variable (j : Journal) {h handle : Nat}

theorem Journal.unused_start (rec : Record) (hle : j.handles + 1 ≤ h) :
    update j.opened j.handles (some rec) h = none := by
  rw [update_of_ne (by omega)]
  exact j.unused h (by omega)

theorem Journal.unused_drop (hle : j.handles ≤ h) : update j.opened handle none h = none := by
  by_cases heq : h = handle
  · rw [heq, update_self]
  · rw [update_of_ne heq]
    exact j.unused h hle

theorem Journal.unused_write (data : List UInt8) (hle : j.handles ≤ h) :
    update j.opened handle ((j.opened handle).map (Record.add data)) h = none := by
  by_cases heq : h = handle
  · rw [heq, update_self, ← heq, j.unused h hle]
    rfl
  · rw [update_of_ne heq]
    exact j.unused h hle

end Unused

def Journal.step (j : Journal) : Op → Journal
  | .log head data => { j with begun := j.begun + 1, done := j.done ++ [j.record head data] }
  | .start head =>
    { j with
      begun := j.begun + 1
      handles := j.handles + 1
      opened := update j.opened j.handles (some (j.record head []))
      unused := fun _ => j.unused_start (j.record head []) }
  | .write handle data =>
    { j with
      opened := update j.opened handle ((j.opened handle).map (Record.add data))
      unused := fun _ => j.unused_write data }
  | .drop handle =>
    { j with
      opened := update j.opened handle none
      unused := fun _ => j.unused_drop
      done := j.done ++ (j.opened handle).toList }

def Journal.run (j : Journal) : List Op → Journal
  | [] => j
  | op :: ops => (j.step op).run ops

theorem Journal.run_append (j : Journal) (ops rest : List Op) :
    j.run (ops ++ rest) = (j.run ops).run rest := by
  induction ops generalizing j with
  | nil => rfl
  | cons op ops ih => exact ih (j.step op)

/-- The complete logs are encodings, and the open ones can still become encodings. -/
structure Journal.Valid (L : Layout) (j : Journal) : Prop where
  opened : ∀ h rec, j.opened h = some rec →
    ∃ (vs : List (Value L)) (rest : List UInt8), Encodes L vs (rec.payload ++ rest)
  done : ∀ rec ∈ j.done, ∃ vs : List (Value L), Encodes L vs rec.payload

section Journal

variable {L : Layout} {j : Journal}

/-- A handle that is not open changes nothing. -/
theorem Journal.write_of_none {handle : Nat} (h : j.opened handle = none) (data : List UInt8) :
    j.step (.write handle data) = j := by
  have hopened : update j.opened handle ((j.opened handle).map (Record.add data)) = j.opened := by
    rw [h, Option.map_none, ← h, update_eq_self]
  exact Journal.ext rfl rfl hopened rfl

theorem Journal.drop_of_none {handle : Nat} (h : j.opened handle = none) :
    j.step (.drop handle) = j := by
  have hopened : update j.opened handle none = j.opened := by
    rw [← h, update_eq_self]
  have hdone : j.done ++ (j.opened handle).toList = j.done := by
    rw [h, Option.toList_none, append_nil]
  exact Journal.ext rfl rfl hopened hdone

-- What will be valid is valid before: payloads only grow, and complete logs stay.
theorem Journal.Valid.of_step {op : Op} (h : (j.step op).Valid L) : j.Valid L := by
  cases op with
  | log head data => exact ⟨h.opened, fun rec hrec => h.done rec (mem_append_left _ hrec)⟩
  | start head =>
    refine ⟨fun handle rec hrec => h.opened handle rec ?_, h.done⟩
    have hne : handle ≠ j.handles := by
      intro heq
      rw [j.unused handle (Nat.le_of_eq heq.symm)] at hrec
      cases hrec
    exact (update_of_ne hne _ _).trans hrec
  | write handle data =>
    refine ⟨fun handle' rec hrec => ?_, h.done⟩
    by_cases heq : handle' = handle
    · subst heq
      have hadded : (j.step (.write handle' data)).opened handle' = some (rec.add data) := by
        show update _ _ _ _ = _
        rw [update_self, hrec]
        rfl
      obtain ⟨vs, rest, hencodes⟩ := h.opened handle' _ hadded
      exact ⟨vs, data ++ rest, by rwa [← append_assoc]⟩
    · exact h.opened handle' rec ((update_of_ne heq _ _).trans hrec)
  | drop handle =>
    refine ⟨fun handle' rec hrec => ?_, fun rec hrec => h.done rec (mem_append_left _ hrec)⟩
    by_cases heq : handle' = handle
    · subst heq
      obtain ⟨vs, hencodes⟩ := h.done rec (mem_append_right _ (Option.mem_toList.mpr hrec))
      exact ⟨vs, [], by rwa [append_nil]⟩
    · exact h.opened handle' rec ((update_of_ne heq _ _).trans hrec)

theorem Journal.Valid.of_run {ops : List Op} (h : (j.run ops).Valid L) : j.Valid L := by
  induction ops generalizing j with
  | nil => exact h
  | cons op ops ih => exact (ih h).of_step

end Journal

end Rcard.Log
