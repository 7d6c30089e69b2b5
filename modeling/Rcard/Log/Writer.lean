/-
The writer of one log message (`shared/log/src/log_writer.rs`).

What is written is collected in a buffer of 128 bytes.  A message that fits is sent in one call when
the writer is dropped; the first byte that does not fit starts a stream.  The copies into the buffer
and the slices of it are unchecked, and reading or writing past its end is undefined here.
-/
import Mathlib.Data.List.Basic

namespace Rcard

open List

def logBufSize : Nat := 128

/-- The calls of the `extern` functions. -/
inductive LogCall where
  | logSend (level : UInt8) (species : UInt64) (data : List UInt8)
  | logStart (level : UInt8) (species : UInt64)
  | logWrite (handle : UInt64) (data : List UInt8)
  | logEnd (handle : UInt64)
  deriving DecidableEq, Repr

inductive LogSession where
  | buffered
  | active (handle : UInt64)
  | rejected
  deriving DecidableEq, Repr

/-- `buf` is `LOG_BUF`, which the one writer alive has for itself, and `calls` are those made so
far. -/
structure LogWriter where
  level : UInt8
  species : UInt64
  pos : Nat
  session : LogSession
  buf : List UInt8
  calls : List LogCall
  deriving DecidableEq, Repr

namespace LogWriter

-- what `__rcard_log_start` returns, after these calls
variable (answer : List LogCall → Option UInt64)

def new (level : UInt8) (species : UInt64) (buf : List UInt8) : LogWriter :=
  { level, species, pos := 0, session := .buffered, buf, calls := [] }

/-- `get_unchecked(..pos)`. -/
def getUnchecked (w : LogWriter) : Option (List UInt8) :=
  if w.pos ≤ w.buf.length then some (w.buf.take w.pos) else none

/-- `copy_nonoverlapping` to the position. -/
def copy (w : LogWriter) (bytes : List UInt8) : Option (List UInt8) :=
  if w.pos + bytes.length ≤ w.buf.length then
    some (w.buf.take w.pos ++ bytes ++ w.buf.drop (w.pos + bytes.length))
  else none

def writeOut (w : LogWriter) (handle : UInt64) : Option LogWriter := do
  let data ← w.getUnchecked
  some { w with calls := w.calls ++ [.logWrite handle data], pos := 0 }

def flushBuf (w : LogWriter) : Option LogWriter :=
  if w.pos = 0 then some w
  else
    match w.session with
    | .active handle => w.writeOut handle
    | .rejected => some { w with pos := 0 }
    | .buffered =>
      let calls := w.calls ++ [.logStart w.level w.species]
      match answer w.calls with
      | some handle => { w with calls, session := .active handle }.writeOut handle
      | none => some { w with calls, session := .rejected, pos := 0 }

/-- The loop of `write`, with `bytes` from the offset on. -/
def writeLoop : (fuel : Nat) → LogWriter → List UInt8 → Option LogWriter
  | _, w, [] => some w
  | 0, _, _ => none
  | fuel + 1, w, bytes =>
    if w.pos > logBufSize then none
    else
      let remainingBuf := logBufSize - w.pos
      if bytes.length ≤ remainingBuf then do
        let buf ← w.copy bytes
        writeLoop fuel { w with buf, pos := w.pos + bytes.length } []
      else do
        let buf ← w.copy (bytes.take remainingBuf)
        let w ← { w with buf, pos := logBufSize }.flushBuf answer
        if w.session = .rejected then some w else writeLoop fuel w (bytes.drop remainingBuf)

def write (w : LogWriter) (bytes : List UInt8) : Option LogWriter :=
  if w.session = .rejected then some w else writeLoop answer (bytes.length + 1) w bytes

def drop (w : LogWriter) : Option (List LogCall) :=
  match w.session with
  | .rejected => some w.calls
  | .active handle =>
    (if w.pos > 0 then w.flushBuf answer else some w).map fun w => w.calls ++ [.logEnd handle]
  | .buffered => do
    let data ← w.getUnchecked
    some (w.calls ++ [.logSend w.level w.species data])

/-- A writer's life: the calls it makes. -/
def log (level : UInt8) (species : UInt64) (buf : List UInt8) (slices : List (List UInt8)) :
    Option (List LogCall) := do
  let w ← slices.foldlM (write answer) (new level species buf)
  w.drop answer

/-! ## What is where -/

section

variable (level : UInt8) (species : UInt64)

def Sized (chunk : List UInt8) : Prop := 1 ≤ chunk.length ∧ chunk.length ≤ logBufSize

/-- Where the `written` bytes are, if `held` are those in the buffer.  There are `more` known to
come. -/
def Stored (more : Nat) (written : List UInt8) (calls : List LogCall) (held : List UInt8) :
    LogSession → Prop
  | .buffered => calls = [] ∧ held = written
  | .active handle => answer [] = some handle ∧ logBufSize < written.length + more ∧
      ∃ chunks : List (List UInt8),
        calls = .logStart level species :: chunks.map (.logWrite handle) ∧
        (∀ chunk ∈ chunks, Sized chunk) ∧ chunks.flatten ++ held = written
  | .rejected => answer [] = none ∧ logBufSize < written.length + more ∧
      calls = [.logStart level species]

structure Sound (more : Nat) (written : List UInt8) (w : LogWriter) : Prop where
  level_eq : w.level = level
  species_eq : w.species = species
  length : w.buf.length = logBufSize
  pos : w.pos ≤ logBufSize
  stored : Stored answer level species more written w.calls (w.buf.take w.pos) w.session

end

variable {answer} {level : UInt8} {species : UInt64} {more : Nat} {written bytes : List UInt8}
  {w : LogWriter}

theorem Sound.getUnchecked_eq (h : Sound answer level species more written w) :
    w.getUnchecked = some (w.buf.take w.pos) :=
  if_pos (h.length ▸ h.pos)

theorem Stored.append {session : LogSession} {calls : List LogCall} {held : List UInt8}
    (h : Stored answer level species (bytes.length + more) written calls held session) :
    Stored answer level species more (written ++ bytes) calls (held ++ bytes) session := by
  have hlength : (written ++ bytes).length = _ := length_append
  cases session with
  | buffered => exact ⟨h.1, congrArg (· ++ bytes) h.2⟩
  | active handle =>
    grind [Stored]
  | rejected => exact ⟨h.1, by have := h.2.1; omega, h.2.2⟩

theorem Sound.copy (h : Sound answer level species (bytes.length + more) written w)
    (hfit : w.pos + bytes.length ≤ logBufSize) : ∃ buf, w.copy bytes = some buf ∧
      Sound answer level species more (written ++ bytes)
        { w with buf, pos := w.pos + bytes.length } := by
  have hpos : (w.buf.take w.pos).length = w.pos := length_take_of_le (h.length ▸ h.pos)
  refine ⟨_, if_pos (h.length ▸ hfit), h.level_eq, h.species_eq, ?_, hfit, ?_⟩
  · have hlength := h.length
    simp only [length_append, length_drop]
    omega
  · show Stored _ _ _ _ _ _ (List.take (w.pos + bytes.length) (_ ++ _ ++ _)) _
    rw [take_left' (by rw [length_append, hpos])]
    exact h.stored.append

/-- The session has been started. -/
theorem Sound.writeOut {handle : UInt64} (h : Sound answer level species more written w)
    (hsession : w.session = .active handle) (hpos : 0 < w.pos) : ∃ v,
      w.writeOut handle = some v ∧ v.session = .active handle ∧ v.pos = 0 ∧
      Sound answer level species more written v := by
  refine ⟨{ w with calls := w.calls ++ [.logWrite handle (w.buf.take w.pos)], pos := 0 },
    ?_, hsession, rfl, h.level_eq, h.species_eq, h.length, Nat.zero_le _, ?_⟩
  · rw [LogWriter.writeOut, h.getUnchecked_eq]
    rfl
  · have hsized : Sized (w.buf.take w.pos) := by
      have hlength := length_take_of_le (h.length ▸ h.pos : w.pos ≤ w.buf.length)
      have := h.pos
      constructor <;> omega
    have hstored := h.stored
    rw [hsession] at hstored ⊢
    obtain ⟨hanswer, hlong, chunks, hcalls, hchunks, hall⟩ := hstored
    refine ⟨hanswer, hlong, chunks ++ [w.buf.take w.pos], ?_, ?_, ?_⟩
    · simp [hcalls]
    · simpa [or_imp, forall_and] using ⟨hchunks, hsized⟩
    · simpa using hall

theorem Sound.flushBuf (h : Sound answer level species more written w) (hpos : 0 < w.pos)
    (hlong : logBufSize < written.length + more) : ∃ v, w.flushBuf answer = some v ∧
      v.pos = 0 ∧ Sound answer level species more written v := by
  have hstored := h.stored
  cases h.level_eq
  cases h.species_eq
  rw [LogWriter.flushBuf, if_neg (Nat.ne_of_gt hpos)]
  cases hsession : w.session with
  | active handle =>
    obtain ⟨v, hv, -, hsound⟩ := h.writeOut hsession hpos
    exact ⟨v, hv, hsound⟩
  | rejected =>
    rw [hsession] at hstored
    exact ⟨_, rfl, rfl, rfl, rfl, h.length, Nat.zero_le _, hstored⟩
  | buffered =>
    rw [hsession] at hstored
    obtain ⟨hcalls, hheld⟩ := hstored
    rw [hcalls]
    cases hanswer : answer [] with
    | some handle =>
      have hstarted : Sound answer w.level w.species more written { w with
          calls := [.logStart w.level w.species], session := .active handle } :=
        ⟨rfl, rfl, h.length, h.pos, hanswer, hlong, [], rfl, by simp, hheld⟩
      obtain ⟨v, hv, -, hsound⟩ := hstarted.writeOut rfl hpos
      exact ⟨v, hv, hsound⟩
    | none => exact ⟨_, rfl, rfl, rfl, rfl, h.length, Nat.zero_le _, hanswer, hlong, rfl⟩

/-! ## Writing -/

theorem Sound.rejected (h : Sound answer level species (bytes.length + more) written w)
    (hsession : w.session = .rejected) : Sound answer level species more (written ++ bytes) w := by
  have happend := h.stored.append
  rw [hsession] at happend
  refine { h with stored := ?_ }
  rw [hsession]
  exact happend

/-- A message is streamed only if it is too long for the buffer. -/
theorem Sound.long (h : Sound answer level species more written w)
    (hmore : logBufSize < w.pos + more) : logBufSize < written.length + more := by
  have hstored := h.stored
  cases hsession : w.session with
  | buffered =>
    rw [hsession] at hstored
    rwa [← hstored.2, length_take_of_le (h.length ▸ h.pos)]
  | _ =>
    rw [hsession] at hstored
    exact hstored.2.1

/-- With a full buffer the first round only makes room. -/
theorem Sound.writeLoop {fuel : Nat} (h : Sound answer level species bytes.length written w)
    (hfuel : bytes.length < fuel ∨ w.pos = 0 ∧ bytes.length ≤ fuel) :
    ∃ v, writeLoop answer fuel w bytes = some v ∧
      Sound answer level species 0 (written ++ bytes) v := by
  induction fuel generalizing w written bytes with
  | zero =>
    grind [LogWriter.writeLoop]
  | succ fuel ih =>
    cases bytes with
    | nil => exact ⟨w, rfl, (append_nil written).symm ▸ h⟩
    | cons byte rest =>
      rw [LogWriter.writeLoop.eq_3 _ _ _ _ (by simp)]
      generalize byte :: rest = bytes at *
      rw [if_neg (Nat.not_lt.mpr h.pos)]
      have hpos := h.pos
      dsimp only
      split
      · next hfit =>
        obtain ⟨buf, hbuf, hsound⟩ := Sound.copy (Nat.add_zero bytes.length ▸ h) (by omega)
        rw [hbuf]
        exact ⟨_, by cases fuel <;> rfl, hsound⟩
      · next hfit =>
        have htake : (bytes.take (logBufSize - w.pos)).length = logBufSize - w.pos :=
          length_take_of_le (by omega)
        have hdrop : (bytes.drop (logBufSize - w.pos)).length = _ := length_drop
        have hsplit : (bytes.take (logBufSize - w.pos)).length +
            (bytes.drop (logBufSize - w.pos)).length = bytes.length := by omega
        rw [← hsplit] at h
        obtain ⟨buf, hbuf, hsound⟩ := h.copy (by omega)
        rw [htake, Nat.add_sub_cancel' hpos] at hsound
        have hlong := hsound.long (show logBufSize < logBufSize + _ by omega)
        obtain ⟨v, hv, hzero, hflushed⟩ := hsound.flushBuf (by decide : 0 < logBufSize) hlong
        simp only [hbuf, hv, Option.bind_eq_bind, Option.bind_some]
        rw [show written ++ bytes = written ++ bytes.take (logBufSize - w.pos) ++
          bytes.drop (logBufSize - w.pos) by rw [append_assoc, take_append_drop]]
        split
        · next hsession => exact ⟨v, rfl, hflushed.rejected hsession⟩
        grind [LogWriter.writeLoop, logBufSize]

theorem Sound.write (h : Sound answer level species 0 written w) (bytes : List UInt8) :
    ∃ v, w.write answer bytes = some v ∧ Sound answer level species 0 (written ++ bytes) v := by
  have hmore : Sound answer level species bytes.length written w := by
    refine { h with stored := ?_ }
    have hstored := h.stored
    cases hsession : w.session with
    | buffered =>
      rw [hsession] at hstored
      exact hstored
    | _ =>
      grind [Stored]
  rw [LogWriter.write]
  split
  · next hsession => exact ⟨w, rfl, Sound.rejected hmore hsession⟩
  · exact hmore.writeLoop (.inl (Nat.lt_succ_self _))

theorem Sound.foldlM (h : Sound answer level species 0 written w) (slices : List (List UInt8)) :
    ∃ v, slices.foldlM (LogWriter.write answer) w = some v ∧
      Sound answer level species 0 (written ++ slices.flatten) v := by
  induction slices generalizing w written with
  | nil => exact ⟨w, rfl, (append_nil written).symm ▸ h⟩
  | cons slice slices ih =>
    obtain ⟨v, hv, hsound⟩ := h.write slice
    rw [foldlM_cons, hv, flatten_cons, ← append_assoc]
    exact ih hsound

/-- The calls a message leads to. -/
inductive Logged (answer : List LogCall → Option UInt64) (level : UInt8) (species : UInt64)
    (message : List UInt8) : List LogCall → Prop
  | sent (hshort : message.length ≤ logBufSize) :
      Logged answer level species message [.logSend level species message]
  | refused (hlong : logBufSize < message.length) (hanswer : answer [] = none) :
      Logged answer level species message [.logStart level species]
  | streamed {handle : UInt64} {chunks : List (List UInt8)} (hlong : logBufSize < message.length)
      (hanswer : answer [] = some handle) (hchunks : ∀ chunk ∈ chunks, Sized chunk)
      (hall : chunks.flatten = message) : Logged answer level species message
        (.logStart level species :: chunks.map (.logWrite handle) ++ [.logEnd handle])

theorem Sound.drop (h : Sound answer level species 0 written w) :
    ∃ calls, w.drop answer = some calls ∧ Logged answer level species written calls := by
  have hstored := h.stored
  rw [LogWriter.drop]
  cases hsession : w.session with
  | buffered =>
    rw [hsession] at hstored
    obtain ⟨hcalls, rfl⟩ := hstored
    have hlength := length_take_of_le (h.length ▸ h.pos : w.pos ≤ w.buf.length)
    refine ⟨_, ?_, .sent (Nat.le_trans (Nat.le_of_eq hlength) h.pos)⟩
    rw [h.getUnchecked_eq, hcalls, h.level_eq, h.species_eq]
    rfl
  | rejected =>
    rw [hsession] at hstored
    obtain ⟨hanswer, hlong, hcalls⟩ := hstored
    exact ⟨_, rfl, hcalls ▸ .refused hlong hanswer⟩
  | active handle =>
    -- after the last flush nothing is left in the buffer
    obtain ⟨v, hv, hactive, hzero, hsound⟩ : ∃ v,
        (if w.pos > 0 then w.flushBuf answer else some w) = some v ∧
          v.session = .active handle ∧ v.pos = 0 ∧ Sound answer level species 0 written v := by
      split
      · next hpos =>
        rw [LogWriter.flushBuf, if_neg (Nat.ne_of_gt hpos), hsession]
        exact h.writeOut hsession hpos
      · next hpos => exact ⟨w, rfl, hsession, Nat.eq_zero_of_not_pos hpos, h⟩
    have hflushed := hsound.stored
    rw [hactive, hzero] at hflushed
    obtain ⟨hanswer, hlong, chunks, hcalls, hchunks, hall⟩ := hflushed
    rw [take_zero, append_nil] at hall
    refine ⟨v.calls ++ [.logEnd handle], ?_, ?_⟩
    · dsimp only
      rw [hv, Option.map_some]
    · rw [hcalls]
      exact .streamed hlong hanswer hchunks hall

/-- No access leaves the buffer, and a message is sent in one call or streamed whole. -/
theorem log_faithful (answer : List LogCall → Option UInt64) (level : UInt8) (species : UInt64)
    {buf : List UInt8} (hbuf : buf.length = logBufSize) (slices : List (List UInt8)) :
    ∃ calls, log answer level species buf slices = some calls ∧
      Logged answer level species slices.flatten calls := by
  have hnew : Sound answer level species 0 [] (new level species buf) :=
    ⟨rfl, rfl, hbuf, Nat.zero_le _, rfl, rfl⟩
  obtain ⟨w, hw, hsound⟩ := hnew.foldlM slices
  rw [log, hw]
  exact hsound.drop

/-- A short message is sent.  A long one is refused or streamed, as the server answers. -/
theorem log_faithful_lengths :
    log (fun _ => none) 4 7 (replicate 128 0) [[1, 2], [], [3]] =
      some [.logSend 4 7 [1, 2, 3]] ∧
    log (fun _ => none) 4 7 (replicate 128 0) [replicate 100 1, replicate 100 2] =
      some [.logStart 4 7] ∧
    ∃ chunks : List (List UInt8),
      log (fun _ => some 9) 4 7 (replicate 128 0) [replicate 100 1, replicate 100 2] =
        some (.logStart 4 7 :: chunks.map (.logWrite 9) ++ [.logEnd 9]) ∧
      chunks.flatten = replicate 100 1 ++ replicate 100 2 := by
  have hbuf : (replicate 128 (0 : UInt8)).length = logBufSize := length_replicate
  refine ⟨?_, ?_, ?_⟩
  · obtain ⟨calls, hcalls, hlogged⟩ := log_faithful (fun _ => none) 4 7 hbuf [[1, 2], [], [3]]
    cases hlogged with
    | sent => exact hcalls
    | refused hlong | streamed hlong => exact absurd hlong (by decide)
  · obtain ⟨calls, hcalls, hlogged⟩ :=
      log_faithful (fun _ => none) 4 7 hbuf [replicate 100 1, replicate 100 2]
    cases hlogged with
    | sent hshort => exact absurd hshort (by decide +kernel)
    | refused => exact hcalls
    | streamed _ hanswer => cases hanswer
  · obtain ⟨calls, hcalls, hlogged⟩ :=
      log_faithful (fun _ => some 9) 4 7 hbuf [replicate 100 1, replicate 100 2]
    cases hlogged with
    | sent hshort => exact absurd hshort (by decide +kernel)
    | refused _ hanswer => cases hanswer
    | streamed _ hanswer _ hall =>
      cases hanswer
      exact ⟨_, hcalls, hall⟩

end LogWriter
end Rcard
