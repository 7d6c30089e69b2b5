/-
At most once, over a link that corrupts transfers.

An error that names no request makes the host send every pending request again.  A request that
had arrived is then executed twice.  Each is executed at most once if the requests that are sent
again were not executed and cannot be any more; and a reply reaches the call whose request was
executed if no number is given to a second call while something of the first one is left.
-/
import Mathlib.Data.List.Nodup
import Rcard.Host.Session

namespace Rcard

open Function List Option PendingEntry Down

namespace Session

/-! ## The condition -/

def copies (s : Session) : List Copy :=
  s.resend.filterMap Down.copy? ++ s.down.filterMap Down.copy? ++ s.staged.toList

end Session

/-- The frame that the call is yet to send for the first time, and its number. -/
def Task.due : Task → Option (UInt16 × List UInt8)
  | .registering _ seq frame => some (seq, frame)
  | .sending seq frame => some (seq, frame)
  | _ => none

namespace Session

/-- How often the request of a call was executed or can still be, as things are. -/
def count (s : Session) (call : Nat) : Nat :=
  (if (s.calls.tasks call).due.isSome then 1 else 0) + s.copies.countP (·.call = call) +
    s.executed.countP (·.1 = call)

/-- The number is that of something of this call that is left. -/
inductive Carries (s : Session) (call : Nat) (seq : UInt16) : Prop
  | pending {entry : PendingEntry} (h : s.calls.protocol.pending seq = some entry)
      (hcall : entry.tx = call)
  | due {frame : List UInt8} (h : (s.calls.tasks call).due = some (seq, frame))
  | copy {copy : Copy} (h : copy ∈ s.copies) (hcall : copy.call = call)
      (hseq : frameSeq copy.frame = seq)
  | answer {response : ResolvedResponse} (h : Up.answer call seq response ∈ s.up)

/-- When the host sends its pending requests again, none of these was executed or can still be; and
no call takes a number of which something is left. -/
def Orderly (s : Session) : Event → Prop
  | .read _ => ∀ frame seq, s.up.head? = some frame →
      frame.response? = some (seq, .tunnelError .requestCorrupted) →
      ∀ seq entry, s.calls.protocol.pending seq = some entry → entry.retransmits < maxRetransmits →
        s.count entry.tx = 0
  | .run i => ∀ whole req, s.calls.tasks i = .encoding whole req →
      ∀ call, ¬s.Carries call s.calls.protocol.writer.seq
  | _ => True

end Session

/-! ## Sending again -/

/-- What an entry is sent again as, if it is not given up. -/
def PendingEntry.resend (entry : PendingEntry) : Option (Nat × List UInt8) :=
  if entry.retransmits ≥ maxRetransmits then none else some (entry.tx, entry.frameBytes)

theorem PendingEntry.resend_eq_some {entry : PendingEntry} {call : Nat} {frame : List UInt8} :
    entry.resend = some (call, frame) ↔
      entry.retransmits < maxRetransmits ∧ entry.tx = call ∧ entry.frameBytes = frame := by
  rw [resend, ite_none_left_eq_some, Nat.not_le, some_inj, Prod.mk.injEq]

namespace IpcProtocol

variable {p : IpcProtocol} {seqs : List UInt16} {seq : UInt16} {entry : PendingEntry}

theorem pending_insert (p : IpcProtocol) (seq : UInt16) (entry : PendingEntry) :
    (p.insert seq entry).pending = update p.pending seq (some entry) := rfl

theorem pending_remove (p : IpcProtocol) (seq : UInt16) :
    (p.remove seq).pending = update p.pending seq none := rfl

theorem of_pending_remove {other : UInt16} (h : (p.remove other).pending seq = some entry) :
    p.pending seq = some entry := by
  rw [pending_remove] at h
  grind

theorem retransmitPending_toResend (p : IpcProtocol) (h : seqs.Nodup) :
    (p.retransmitPending seqs).2.1 =
      seqs.filterMap fun seq => (p.pending seq).bind PendingEntry.resend := by
  induction seqs generalizing p with
  | nil => rfl
  | cons seq seqs ih =>
    obtain ⟨hnot, hnodup⟩ := nodup_cons.mp h
    -- the entries of the later keys are as they were
    have hrest : ∀ found : Option PendingEntry, (seqs.filterMap fun other =>
          (update p.pending seq found other).bind resend) =
            seqs.filterMap fun other => (p.pending other).bind resend := by
      intro found
      refine filterMap_congr fun other hother => ?_
      rw [update_of_ne (ne_of_mem_of_not_mem hother hnot)]
    rw [retransmitPending, filterMap_cons]
    cases hentry : p.pending seq with
    | none => exact ih p hnodup
    | some entry =>
      dsimp only [bind_some]
      rw [resend]
      split
      · exact (ih _ hnodup).trans (hrest _)
      · exact congrArg _ ((ih _ hnodup).trans (hrest _))

/-- The entries that are left are those that were there, tried once more. -/
theorem retransmitPending_pending (p : IpcProtocol) (seqs : List UInt16)
    (h : (p.retransmitPending seqs).1.pending seq = some entry) :
    ∃ old, p.pending seq = some old ∧ entry.tx = old.tx ∧ entry.frameBytes = old.frameBytes := by
  induction seqs generalizing p with
  | nil => exact ⟨entry, h, rfl, rfl⟩
  | cons next seqs ih =>
    rw [retransmitPending] at h
    cases hnext : p.pending next with
    | none =>
      rw [hnext] at h
      exact ih p h
    | some found =>
      rw [hnext] at h
      dsimp only at h
      split at h
      · obtain ⟨old, hold, hsame⟩ := ih _ h
        exact ⟨old, of_pending_remove hold, hsame⟩
      · obtain ⟨old, hold, hsame⟩ := ih _ h
        rw [pending_insert] at hold
        grind

end IpcProtocol

theorem frameSeq_of_encodeInto {req : IpcRequest} {bufLen : Nat} {seq : UInt16}
    {frame : List UInt8} (h : req.encodeInto bufLen seq = some frame) : frameSeq frame = seq := by
  obtain ⟨-, rfl⟩ := IpcRequest.encodeInto_eq_some.mp h
  rw [frameSeq, FrameHeader.decode_encode]

/-! ## Steps -/

/-- The task is one of a call. -/
def Task.Plain : Task → Prop
  | .start whole _ => whole = true
  | .encoding whole _ => whole = true
  | .registering whole _ _ => whole = true
  | .sending _ _ => True
  | .waiting _ => True
  | .removing _ => True
  | .returned _ => True
  | _ => False

/-- The call has no number yet. -/
def Task.Early : Task → Prop
  | .start _ _ => True
  | .encoding _ _ => True
  | _ => False

namespace Session

variable {s t : Session}

/-- What every step does that gives no call its number: what it leaves comes from what was there. -/
structure Advances (s t : Session) : Prop where
  plain : ∀ i, (t.calls.tasks i).Plain
  early : ∀ i, (t.calls.tasks i).Early → (s.calls.tasks i).Early
  due : ∀ i frame, (t.calls.tasks i).due = some frame → (s.calls.tasks i).due = some frame
  pending : ∀ seq entry, t.calls.protocol.pending seq = some entry →
    (s.calls.tasks entry.tx).due = some (seq, entry.frameBytes) ∨
      ∃ old, s.calls.protocol.pending seq = some old ∧ entry.tx = old.tx ∧
        entry.frameBytes = old.frameBytes
  copies : ∀ copy ∈ t.copies, copy ∈ s.copies ∨
    (∃ seq, (s.calls.tasks copy.call).due = some (seq, copy.frame)) ∨
      ∃ seq entry, s.calls.protocol.pending seq = some entry ∧ entry.tx = copy.call ∧
        entry.frameBytes = copy.frame
  up : ∀ call seq response, Up.answer call seq response ∈ t.up →
    Up.answer call seq response ∈ s.up ∨
      (∃ copy ∈ s.copies, copy.call = call ∧ frameSeq copy.frame = seq) ∧
        (call, response) ∈ t.executed
  count : ∀ call, t.count call ≤ s.count call ∨ t.count call ≤ 1 ∧ ∃ seq, s.Carries call seq
  executed : s.executed ⊆ t.executed
  answers : ∀ call result, t.calls.answers call = some (.reply result) →
    s.calls.answers call = some (.reply result) ∨
      ∃ seq entry from', s.calls.protocol.pending seq = some entry ∧ entry.tx = call ∧
        Up.answer from' seq (.reply result) ∈ s.up
  returned : ∀ call result, t.calls.tasks call = .returned (.ok result) →
    s.calls.tasks call = .returned (.ok result) ∨ s.calls.answers call = some (.reply result)

theorem Advances.refl (h : ∀ i, (s.calls.tasks i).Plain) : Advances s s where
  plain := h
  early _ := id
  due _ _ := id
  pending _ entry h := .inr ⟨entry, h, rfl, rfl⟩
  copies _ := .inl
  up _ _ _ := .inl
  count _ := .inl le_rfl
  executed := Subset.refl _
  answers _ _ := .inl
  returned _ _ := .inl

/-- A call goes on. -/
theorem Advances.goto (h : ∀ j, (s.calls.tasks j).Plain) (protocol : IpcProtocol)
    (hpending : ∀ seq entry, protocol.pending seq = some entry →
      (s.calls.tasks entry.tx).due = some (seq, entry.frameBytes) ∨
        ∃ old, s.calls.protocol.pending seq = some old ∧ entry.tx = old.tx ∧
          entry.frameBytes = old.frameBytes)
    (i : Nat) (task : Task) (hplain : task.Plain) (hearly : task.Early → (s.calls.tasks i).Early)
    (hdue : ∀ frame, task.due = some frame → (s.calls.tasks i).due = some frame)
    (hreturned : ∀ result, task = .returned (.ok result) →
      s.calls.answers i = some (.reply result)) :
    Advances s { s with calls := { s.calls with protocol }.goto i task } := by
  have hself : (s.calls.goto i task).tasks i = task := update_self _ _ _
  have hother : ∀ j, j ≠ i → (s.calls.goto i task).tasks j = s.calls.tasks j :=
    fun j hj => update_of_ne hj _ _
  have hdues : ∀ j frame, ((s.calls.goto i task).tasks j).due = some frame →
      (s.calls.tasks j).due = some frame := by grind
  refine { Advances.refl h with
    plain := fun j => ?_, early := fun j hj => ?_, due := hdues, pending := hpending,
    count := fun call => .inl ?_, returned := fun call result hresult => ?_ }
  · show ((s.calls.goto i task).tasks j).Plain
    by_cases hji : j = i
    · rwa [hji, hself]
    · rw [hother j hji]
      exact h j
  · by_cases hji : j = i
    · rw [hji] at hj ⊢
      exact hearly (hself ▸ hj)
    · exact hother j hji ▸ hj
  · refine Nat.add_le_add_right (Nat.add_le_add_right ?_ _) _
    split
    · next hsome =>
      obtain ⟨frame, hframe⟩ := isSome_iff_exists.mp hsome
      rw [hdues call frame hframe]
      exact le_rfl
    · exact Nat.zero_le _
  · by_cases hcall : call = i
    · rw [hcall] at hresult ⊢
      exact .inr (hreturned result (hself ▸ hresult))
    · exact .inl (hother call hcall ▸ hresult)

/-- A call goes on that has sent its frame, or will not. -/
theorem Advances.settle (h : ∀ j, (s.calls.tasks j).Plain) (protocol : IpcProtocol)
    (hpending : ∀ seq entry, protocol.pending seq = some entry →
      s.calls.protocol.pending seq = some entry)
    (i : Nat) (task : Task) (hplain : task.Plain) (hearly : ¬task.Early) (hdue : task.due = none)
    (hreturned : ∀ result, task = .returned (.ok result) →
      s.calls.answers i = some (.reply result)) :
    Advances s { s with calls := { s.calls with protocol }.goto i task } := by
  refine .goto h protocol ?_ i task hplain (fun h => absurd h hearly) ?_ hreturned
  · intro seq entry hentry
    exact .inr ⟨entry, hpending seq entry hentry, rfl, rfl⟩
  · intro frame hframe
    cases hdue.symm.trans hframe

/-! ## The invariant -/

structure Sound (s : Session) : Prop where
  plain : ∀ i, (s.calls.tasks i).Plain
  pending : ∀ seq entry, s.calls.protocol.pending seq = some entry → frameSeq entry.frameBytes = seq
  due : ∀ i seq frame, (s.calls.tasks i).due = some (seq, frame) → frameSeq frame = seq
  unique : ∀ seq call call', s.Carries call seq → s.Carries call' seq → call = call'
  single : ∀ call seq seq', s.Carries call seq → s.Carries call seq' → seq = seq'
  early : ∀ i, (s.calls.tasks i).Early → (∀ seq, ¬s.Carries i seq) ∧ s.count i = 0
  count : ∀ call, s.count call ≤ 1
  up : ∀ call seq response, Up.answer call seq response ∈ s.up → (call, response) ∈ s.executed
  answers : ∀ call result, s.calls.answers call = some (.reply result) →
    (call, .reply result) ∈ s.executed
  returned : ∀ call result, s.calls.tasks call = .returned (.ok result) →
    (call, .reply result) ∈ s.executed

variable {call i : Nat} {seq : UInt16} {frame : List UInt8} {intact : Bool}
    {response : ResolvedResponse} {seqs : List UInt16}

theorem Advances.carries (hstep : Advances s t) (h : s.Sound) (hcarries : t.Carries call seq) :
    s.Carries call seq := by
  cases hcarries with
  | @pending entry hentry hcall =>
    rcases hstep.pending seq entry hentry with hdue | ⟨old, hold, htx, -⟩
    · exact hcall ▸ .due hdue
    · exact .pending hold (htx.symm.trans hcall)
  | due hdue => exact .due (hstep.due call _ hdue)
  | @copy copy hcopy hcall hseq =>
    rcases hstep.copies copy hcopy with hold | ⟨seq', hdue⟩ | ⟨seq', entry, hentry, htx, hframe⟩
    · exact .copy hold hcall hseq
    · rw [hcall] at hdue
      exact hseq ▸ (h.due call seq' _ hdue).symm ▸ .due hdue
    · rw [← hframe, h.pending seq' entry hentry] at hseq
      exact hseq ▸ .pending hentry (htx.trans hcall)
  | answer hanswer =>
    rcases hstep.up call seq _ hanswer with hold | ⟨⟨copy, hcopy, hcall, hseq⟩, -⟩
    · exact .answer hold
    · exact .copy hcopy hcall hseq

theorem Advances.sound (hstep : Advances s t) (h : s.Sound) : t.Sound where
  plain := hstep.plain
  pending seq entry hentry := by
    rcases hstep.pending seq entry hentry with hdue | ⟨old, hold, -, hframe⟩
    · exact h.due _ seq _ hdue
    · exact hframe ▸ h.pending seq old hold
  due i seq frame hdue := h.due i seq frame (hstep.due i _ hdue)
  unique seq call call' hcall hcall' :=
    h.unique seq call call' (hstep.carries h hcall) (hstep.carries h hcall')
  single call seq seq' hseq hseq' :=
    h.single call seq seq' (hstep.carries h hseq) (hstep.carries h hseq')
  early i hearly := by
    obtain ⟨hnone, hcount⟩ := h.early i (hstep.early i hearly)
    refine ⟨fun seq hcarries => hnone seq (hstep.carries h hcarries), ?_⟩
    rcases hstep.count i with hle | ⟨-, seq, hcarries⟩
    · exact Nat.le_zero.mp (hcount ▸ hle)
    · exact absurd hcarries (hnone seq)
  count call := (hstep.count call).elim (fun hle => hle.trans (h.count call)) And.left
  up call seq response hup :=
    (hstep.up call seq response hup).elim
      (fun hold => hstep.executed (h.up call seq response hold)) And.right
  answers call result hanswer := by
    rcases hstep.answers call result hanswer with hold | ⟨seq, entry, from', hentry, htx, hup⟩
    · exact hstep.executed (h.answers call result hold)
    · have hcall := h.unique seq call from' (.pending hentry htx) (.answer hup)
      exact hstep.executed (hcall ▸ h.up from' seq _ hup)
  returned call result hreturned :=
    (hstep.returned call result hreturned).elim
      (fun hold => hstep.executed (h.returned call result hold))
      (fun hanswer => hstep.executed (h.answers call result hanswer))

theorem count_of_due_eq_some {frame : UInt16 × List UInt8}
    (h : (s.calls.tasks call).due = some frame) : s.count call =
      1 + s.copies.countP (·.call = call) + s.executed.countP (·.1 = call) := by
  rw [count, h]
  rfl

theorem count_of_due_eq_none (h : (s.calls.tasks call).due = none) :
    s.count call = s.copies.countP (·.call = call) + s.executed.countP (·.1 = call) := by
  rw [count, h]
  exact congrArg (· + _) (Nat.zero_add _)

theorem count_le_add {more : Nat} (htasks : t.calls.tasks = s.calls.tasks)
    (h : t.copies.countP (·.call = call) + t.executed.countP (·.1 = call) ≤
      s.copies.countP (·.call = call) + s.executed.countP (·.1 = call) + more) :
    t.count call ≤ s.count call + more := by
  rw [count, count, htasks]
  omega

theorem count_le_count (htasks : t.calls.tasks = s.calls.tasks)
    (h : t.copies.countP (·.call = call) + t.executed.countP (·.1 = call) ≤
      s.copies.countP (·.call = call) + s.executed.countP (·.1 = call)) :
    t.count call ≤ s.count call := by
  rw [count, count, htasks]
  omega

/-! ## The number of a call -/

/-- The call has taken its number. -/
def number (s : Session) (i : Nat) (frame : List UInt8) : Session :=
  { s with
    calls :=
      { s.calls with
        protocol := { s.calls.protocol with writer := ⟨s.calls.protocol.writer.seq + 1⟩ } }.goto i
        (.registering true s.calls.protocol.writer.seq frame) }

theorem number_self (s : Session) (i : Nat) (frame : List UInt8) :
    (s.number i frame).calls.tasks i = .registering true s.calls.protocol.writer.seq frame :=
  update_self _ _ _

theorem number_of_ne (s : Session) {j : Nat} (h : j ≠ i) (frame : List UInt8) :
    (s.number i frame).calls.tasks j = s.calls.tasks j :=
  update_of_ne h _ _

theorem count_number_of_ne (s : Session) (h : call ≠ i) (frame : List UInt8) :
    (s.number i frame).count call = s.count call := by
  rw [count, number_of_ne s h]
  rfl

theorem carries_number (h : (s.number i frame).Carries call seq) :
    s.Carries call seq ∨ call = i ∧ seq = s.calls.protocol.writer.seq := by
  cases h with
  | pending hentry hcall => exact .inl (.pending hentry hcall)
  | due hdue =>
    by_cases hcall : call = i
    · rw [hcall, number_self] at hdue
      cases hdue
      exact .inr ⟨hcall, rfl⟩
    · rw [number_of_ne s hcall] at hdue
      exact .inl (.due hdue)
  | copy hcopy hcall hseq => exact .inl (.copy hcopy hcall hseq)
  | answer hanswer => exact .inl (.answer hanswer)

/-- Where nothing was related to `b`, and only `a` is related to it anew, at most one thing is
related to each. -/
theorem eq_of_added {α β : Type} {R S : α → β → Prop} {a x x' : α} {b y : β}
    (hadded : ∀ x, S x y → R x y ∨ x = a ∧ y = b) (hfresh : ∀ x, ¬R x b)
    (hold : R x y → R x' y → x = x') (hx : S x y) (hx' : S x' y) : x = x' := by
  grind

/-- A call takes a number of which nothing is left. -/
theorem Sound.number (h : s.Sound) (hearly : (s.calls.tasks i).Early)
    (hfresh : ∀ call, ¬s.Carries call s.calls.protocol.writer.seq)
    (hframe : frameSeq frame = s.calls.protocol.writer.seq) : (s.number i frame).Sound := by
  obtain ⟨hnone, hzero⟩ := h.early i hearly
  refine ⟨fun j => ?_, h.pending, fun j seq frame' hdue => ?_, fun seq call call' hc hc' => ?_,
    fun call seq seq' hs hs' => ?_, fun j hj => ?_, fun call => ?_, h.up, h.answers,
    fun call result hresult => ?_⟩
  · by_cases hj : j = i
    · rw [hj, number_self]
      rfl
    · rw [number_of_ne s hj]
      exact h.plain j
  · by_cases hj : j = i
    · rw [hj, number_self] at hdue
      cases hdue
      exact hframe
    · rw [number_of_ne s hj] at hdue
      exact h.due j seq frame' hdue
  · exact eq_of_added (fun _ => carries_number) hfresh (h.unique seq call call') hc hc'
  · exact eq_of_added (R := flip s.Carries) (S := flip (s.number i frame).Carries)
      (fun _ hnew => (carries_number hnew).imp_right And.symm) hnone (h.single call seq seq') hs hs'
  · have hne : j ≠ i := by
      rintro rfl
      rw [number_self] at hj
      exact hj
    rw [number_of_ne s hne] at hj
    obtain ⟨hnone', hzero'⟩ := h.early j hj
    refine ⟨fun seq hc => ?_, (count_number_of_ne s hne frame).trans hzero'⟩
    exact (carries_number hc).elim (hnone' seq) fun hnew => hne hnew.1
  · by_cases hcall : call = i
    · -- nothing of it was there before
      have hdue : ((s.number i frame).calls.tasks i).due =
          some (s.calls.protocol.writer.seq, frame) := by
        rw [number_self]
        rfl
      rw [hcall, count_of_due_eq_some hdue]
      show 1 + s.copies.countP (·.call = i) + s.executed.countP (·.1 = i) ≤ 1
      rw [Session.count] at hzero
      omega
    · rw [count_number_of_ne s hcall]
      exact h.count call
  · have hcall : call ≠ i := by
      rintro rfl
      cases (number_self s call frame).symm.trans hresult
    exact h.returned call result (number_of_ne s hcall frame ▸ hresult)

theorem Sound.encode (h : s.Sound) {req : IpcRequest} (htask : s.calls.tasks i = .encoding true req)
    (hfresh : ∀ call, ¬s.Carries call s.calls.protocol.writer.seq) :
    Sound { s with calls := s.calls.encode i true req } := by
  rw [Calls.encode, FrameWriter.writeIpcRequest]
  cases hframe : req.encodeInto maxDecodedFrame s.calls.protocol.writer.seq with
  | none =>
    exact (Advances.settle h.plain
      { s.calls.protocol with writer := ⟨s.calls.protocol.writer.seq + 1⟩ } (fun _ _ => id) i
      (.returned (.error .encode)) trivial id rfl (fun _ hresult => by cases hresult)).sound h
  | some frame => exact h.number (htask ▸ trivial) hfresh (frameSeq_of_encodeInto hframe)

/-! ## The other steps -/

theorem Advances.received (h : ∀ j, (s.calls.tasks j).Plain) (i : Nat) (seq : UInt16) :
    Advances s { s with calls := s.calls.goto i (s.calls.received i seq) } := by
  rw [Calls.received]
  cases hanswer : s.calls.answers i with
  | some response =>
    refine .settle h s.calls.protocol (fun _ _ => id) i _ trivial id rfl fun result hresult => ?_
    rw [hanswer]
    cases response <;> cases hresult
    rfl
  | none =>
    dsimp only
    split
    · exact .settle h s.calls.protocol (fun _ _ => id) i (.removing seq) trivial id rfl
        (fun _ hresult => by cases hresult)
    · exact .settle h s.calls.protocol (fun _ _ => id) i (.returned (.error .disconnected))
        trivial id rfl (fun _ hresult => by cases hresult)

theorem Sound.run (h : s.Sound) (horderly : s.Orderly (.run i)) {calls : Calls}
    (hstep : s.calls.step (.run i) = some calls) : Sound { s with calls } := by
  have hplain := h.plain i
  have hsame : ∀ seq entry, s.calls.protocol.pending seq = some entry →
      (s.calls.tasks entry.tx).due = some (seq, entry.frameBytes) ∨
        ∃ old, s.calls.protocol.pending seq = some old ∧ entry.tx = old.tx ∧
          entry.frameBytes = old.frameBytes :=
    fun _ entry hentry => .inr ⟨entry, hentry, rfl, rfl⟩
  rw [Calls.step] at hstep
  generalize htask : s.calls.tasks i = task at hstep hplain ⊢
  cases task with
  | start whole req =>
    cases hstep
    refine (Advances.goto h.plain s.calls.protocol hsame i _ ?_ (fun _ => htask ▸ trivial) ?_
      ?_).sound h
    · split
      · trivial
      · exact hplain
    · intro frame hdue
      split at hdue <;> cases hdue
    · intro result hresult
      split at hresult <;> cases hresult
  | encoding whole req =>
    cases hstep
    cases hplain
    exact h.encode htask (horderly true req htask)
  | registering whole seq frame =>
    cases hstep
    cases hplain
    refine (Advances.goto h.plain (s.calls.protocol.insert seq _) ?_ i (.sending seq frame)
      trivial False.elim (fun _ hdue => htask ▸ hdue) (fun _ hresult => by cases hresult)).sound h
    intro seq' entry hentry
    rw [IpcProtocol.pending_insert] at hentry
    grind [Task.due]
  | waiting seq =>
    cases hstep
    exact (Advances.received h.plain i seq).sound h
  | removing seq =>
    cases hstep
    exact (Advances.settle h.plain (s.calls.protocol.remove seq)
      (fun _ _ => IpcProtocol.of_pending_remove) i (.returned (.error .timeout)) trivial id rfl
      (fun _ hresult => by cases hresult)).sound h
  | sending seq frame | returned result =>
    cases hstep
  | _ =>
    exact hplain.elim

theorem landed_sublist (frame : Down) (arrival : Option Bool) :
    ((landed frame arrival).filterMap Down.copy?).Sublist frame.copy?.toList := by
  rcases arrival with _ | _ | _
  · exact nil_sublist _
  · exact nil_sublist _
  · cases frame <;> exact Sublist.refl _

theorem mem_copies_arrive {frame : Down} {arrival : Option Bool} {copy : Copy}
    (h : copy ∈ (s.arrive frame arrival).copies) : copy ∈ s.copies ∨ frame.copy? = some copy := by
  rw [copies, arrive, filterMap_append, mem_append, mem_append, mem_append] at h
  rw [copies, mem_append, mem_append]
  rcases h with (hresend | hdown | hlanded) | hstaged
  · exact .inl (.inl (.inl hresend))
  · exact .inl (.inl (.inr hdown))
  · exact .inr (mem_toList.mp ((landed_sublist frame arrival).subset hlanded))
  · exact .inl (.inr hstaged)

theorem count_arrive (s : Session) (frame : Down) (arrival : Option Bool) (call : Nat) :
    (s.arrive frame arrival).count call ≤
      s.count call + frame.copy?.toList.countP (·.call = call) := by
  have hlanded : ((landed frame arrival).filterMap copy?).countP (·.call = call) ≤ _ :=
    (landed_sublist frame arrival).countP_le
  refine count_le_add rfl ?_
  simp only [copies, arrive, filterMap_append, countP_append]
  omega

theorem Advances.sent (h : s.Sound) (htask : s.calls.tasks i = .sending seq frame) (task : Task)
    (hplain : task.Plain) (hearly : ¬task.Early) (hdue : task.due = none)
    (hreturned : ∀ result, task ≠ .returned (.ok result)) (arrival : Option Bool) :
    Advances s
      ({ s with calls := s.calls.goto i task }.arrive (.request { call := i, frame }) arrival) := by
  have hgoto := Advances.settle h.plain s.calls.protocol (fun _ _ => id) i task hplain hearly hdue
    (fun result hresult => absurd hresult (hreturned result))
  have hbefore : (s.calls.tasks i).due = some (seq, frame) := htask ▸ rfl
  refine { hgoto with copies := fun copy hcopy => ?_, count := fun call => ?_ }
  · rcases mem_copies_arrive hcopy with hold | hnew
    · exact .inl hold
    · cases hnew
      exact .inr (.inl ⟨seq, hbefore⟩)
  · have harrive := count_arrive { s with calls := s.calls.goto i task }
      (.request { call := i, frame }) arrival call
    by_cases hcall : call = i
    · -- the frame that was due is the copy that may be on its way now
      have hafter : ((s.calls.goto i task).tasks i).due = none := by
        show (update s.calls.tasks i task i).due = none
        rwa [update_self]
      refine .inl (harrive.trans (Nat.le_of_eq ?_))
      rw [hcall, count_of_due_eq_some hbefore, count_of_due_eq_none hafter]
      grind [Session.copies, copy?]
    · have hnone : [Copy.mk i frame].countP (·.call = call) = 0 := by
        rw [countP_singleton, if_neg (by simpa using Ne.symm hcall)]
      rw [show (request (Copy.mk i frame)).copy?.toList = [Copy.mk i frame] from rfl, hnone]
        at harrive
      exact (hgoto.count call).imp harrive.trans (And.imp_left harrive.trans)

theorem Advances.push (h : s.Sound) {frame : Down} {resend : List Down}
    (hresend : s.resend = frame :: resend) (arrival : Option Bool) :
    Advances s ({ s with resend }.arrive frame arrival) := by
  have hcopies : s.copies = frame.copy?.toList ++ { s with resend }.copies := by
    rw [Session.copies, hresend]
    cases frame <;> rfl
  refine { Advances.refl h.plain with
    copies := fun copy hcopy => .inl ?_, count := fun call => .inl ?_ }
  · rw [hcopies, mem_append, mem_toList]
    exact (mem_copies_arrive hcopy).symm
  · refine (count_arrive _ _ _ _).trans (Nat.le_of_eq ?_)
    grind [Session.count]

/-! The device. -/

theorem mem_up_emit {frame : Up} (h : Up.answer call seq response ∈ (s.emit frame intact).up) :
    Up.answer call seq response ∈ s.up ∨ frame = .answer call seq response := by
  rcases mem_append.mp h with hold | hnew
  · exact .inl hold
  grind

/-- The device sends an error. -/
theorem Advances.error (hstep : Advances s t) (seq : UInt16) (code : TunnelErrorCode)
    (intact : Bool) : Advances s (t.emit (.error seq code) intact) :=
  { hstep with
    up := fun call seq' response hup =>
      (mem_up_emit hup).elim (hstep.up call seq' response) (fun hnew => by cases hnew) }

/-- The copies have moved within the device. -/
theorem Advances.moved (h : s.Sound) {down : List Down} {staged : Option Copy}
    (hcopies : { s with down, staged }.copies.Perm s.copies) :
    Advances s { s with down, staged } :=
  { Advances.refl h.plain with
    copies := fun _ hcopy => .inl (hcopies.mem_iff.mp hcopy)
    count := fun _ =>
      .inl (count_le_count rfl (Nat.add_le_add_right (Nat.le_of_eq (hcopies.countP_eq _)) _)) }

theorem Advances.take (h : s.Sound) (hstep : s.take intact = some t) : Advances s t := by
  rw [Session.take] at hstep
  split at hstep
  · cases hstep
  · next frame down hdown =>
    rw [ite_none_left_eq_some] at hstep
    obtain ⟨hidle, hstep⟩ := hstep
    have hstaged : s.staged = none := by
      cases hstaged : s.staged with
      | none => rfl
      | some copy => exact absurd (hstaged ▸ rfl) hidle
    have hdrop : frame.copy? = none → Advances s { s with down } := by
      intro hcopy
      refine .moved h (.of_eq ?_)
      rw [Session.copies, Session.copies, hdown, filterMap_cons_none hcopy]
    cases hstep
    cases frame with
    | corrupted => exact { (hdrop rfl).error 0xFFFF .requestCorrupted intact with }
    | replyCorrupted =>
      rw [accept]
      split
      · exact { hdrop rfl with }
      · exact (hdrop rfl).error _ _ intact
      · exact hdrop rfl
    | request copy =>
      refine .moved h ?_
      rw [Session.copies, Session.copies]
      grind [copy?]

theorem Advances.serve (h : s.Sound) (hstep : s.serve response intact = some t) : Advances s t := by
  obtain ⟨copy, hstaged, rfl⟩ := map_eq_some_iff.mp hstep
  have hcopies : s.copies = { s with staged := none }.copies ++ [copy] := by grind [Session.copies]
  refine { Advances.refl h.plain with
    copies := fun other hother => .inl ?_,
    up := fun call seq response' hup => ?_,
    count := fun call => .inl (count_le_count rfl (Nat.le_of_eq ?_)),
    executed := subset_append_left _ _ }
  · rw [hcopies]
    exact mem_append_left _ hother
  · grind [frameSeq, emit]
  grind [Session.copies, emit]

theorem Advances.redeliver (h : s.Sound) (hstep : s.redeliver intact = some t) : Advances s t := by
  rw [Session.redeliver, ite_none_right_eq_some] at hstep
  cases hstep.2
  exact { (Advances.refl h.plain).error 0xFFFF .replyCorrupted intact with }

/-! The host. -/

theorem Advances.resolve (h : s.Sound)
    (hup : ∀ result, response = .reply result → ∃ call, Up.answer call seq response ∈ s.up) :
    Advances s { s with calls := (s.calls.resolve seq response).1 } := by
  rw [Calls.resolve]
  cases hentry : s.calls.protocol.pending seq with
  | none => exact .refl h.plain
  | some entry =>
    refine { Advances.refl h.plain with
      pending := fun seq' entry' hpending =>
        .inr ⟨entry', IpcProtocol.of_pending_remove hpending, rfl, rfl⟩,
      answers := fun call result hanswer => ?_ }
    grind

/-- A list without duplicates has at most one element that only one element can be. -/
theorem countP_le_one {α : Type} [DecidableEq α] {l : List α} (h : l.Nodup) {p : α → Bool}
    (hone : ∀ a b, p a = true → p b = true → a = b) : l.countP p ≤ 1 := by
  by_cases hex : ∃ a, p a = true
  · obtain ⟨a, ha⟩ := hex
    calc l.countP p ≤ l.countP (· == a) :=
          countP_mono_left fun b _ hb => beq_iff_eq.mpr (hone b a hb ha)
      _ ≤ 1 := nodup_iff_count_le_one.mp h a
  · rw [countP_eq_zero.mpr fun a _ ha => hex ⟨a, ha⟩]
    exact Nat.zero_le 1

/-- The requests that are sent again. -/
def resent (s : Session) (seqs : List UInt16) : List (Nat × List UInt8) :=
  seqs.filterMap fun seq => (s.calls.protocol.pending seq).bind PendingEntry.resend

theorem mem_resent (h : (call, frame) ∈ s.resent seqs) :
    ∃ seq entry, s.calls.protocol.pending seq = some entry ∧ entry.retransmits < maxRetransmits ∧
      entry.tx = call ∧ entry.frameBytes = frame := by
  obtain ⟨seq, -, hseq⟩ := mem_filterMap.mp h
  obtain ⟨entry, hentry, hresend⟩ := bind_eq_some_iff.mp hseq
  exact ⟨seq, entry, hentry, resend_eq_some.mp hresend⟩

theorem Sound.countP_resent (h : s.Sound) (hnodup : seqs.Nodup) (call : Nat) :
    (s.resent seqs).countP (·.1 = call) ≤ 1 := by
  rw [resent, countP_filterMap]
  -- a call has one number, so it is found under one key
  refine countP_le_one hnodup fun seq seq' hseq hseq' => ?_
  have hcarries : ∀ seq, (((s.calls.protocol.pending seq).bind PendingEntry.resend).map
      fun x => decide (x.1 = call)).getD false = true → s.Carries call seq := by
    intro seq hfound
    obtain ⟨⟨call', frame⟩, hbind, hcall⟩ := map_eq_some_iff.mp
      (getD_eq_iff.mp hfound |>.resolve_right (by simp))
    obtain ⟨entry, hentry, hresend⟩ := bind_eq_some_iff.mp hbind
    exact .pending hentry
      ((PendingEntry.resend_eq_some.mp hresend).2.1.trans (of_decide_eq_true hcall))
  exact h.single call seq seq' (hcarries seq hseq) (hcarries seq' hseq')

theorem copies_retransmit (hresend : s.resend = []) (hnodup : seqs.Nodup) :
    (s.retransmit seqs).copies = (s.resent seqs).map (fun x => Copy.mk x.1 x.2) ++ s.copies := by
  rw [resent, ← s.calls.protocol.retransmitPending_toResend hnodup, copies, copies, hresend]
  show (map _ _).filterMap copy? ++ _ ++ _ = _ ++ (_ ++ _ ++ _)
  rw [filterMap_map, append_assoc, filterMap_nil]
  exact congrArg (· ++ _) (congrFun filterMap_eq_map _)

/-- Every pending request that was not executed and cannot be is sent again, once. -/
theorem Advances.retransmit (h : s.Sound) (hnodup : seqs.Nodup) (hresend : s.resend = [])
    (horderly : ∀ seq entry, s.calls.protocol.pending seq = some entry →
      entry.retransmits < maxRetransmits → s.count entry.tx = 0) :
    Advances s (s.retransmit seqs) := by
  have hcopies := copies_retransmit hresend hnodup
  refine { Advances.refl h.plain with
    pending := fun seq entry hentry =>
      .inr (IpcProtocol.retransmitPending_pending s.calls.protocol seqs hentry),
    copies := fun copy hcopy => ?_,
    count := fun call => ?_,
    answers := fun call result hanswer => .inl ?_ }
  · rw [hcopies, mem_append] at hcopy
    rcases hcopy with hnew | hold
    · obtain ⟨⟨call, frame⟩, hmem, rfl⟩ := mem_map.mp hnew
      obtain ⟨seq, entry, hentry, -, hsame⟩ := mem_resent hmem
      exact .inr (.inr ⟨seq, entry, hentry, hsame⟩)
    · exact .inl hold
  · have hcount : (s.retransmit seqs).count call ≤
        s.count call + (s.resent seqs).countP (·.1 = call) := by
      refine count_le_add rfl ?_
      rw [hcopies, countP_append, countP_map]
      show (s.resent seqs).countP (·.1 = call) + _ + s.executed.countP _ ≤ _
      omega
    by_cases hresent : ∃ x ∈ s.resent seqs, x.1 = call
    · obtain ⟨⟨_, frame⟩, hmem, rfl⟩ := hresent
      obtain ⟨seq, entry, hentry, htries, rfl, -⟩ := mem_resent hmem
      rw [horderly seq entry hentry htries, Nat.zero_add] at hcount
      exact .inr ⟨hcount.trans (h.countP_resent hnodup _), seq, .pending hentry rfl⟩
    · rw [countP_eq_zero.mpr fun x hx hcall => hresent ⟨x, hx, of_decide_eq_true hcall⟩]
        at hcount
      exact .inl hcount
  · change (if call ∈ _ then _ else _) = _ at hanswer
    split at hanswer
    · cases hanswer
    · exact hanswer

/-- The host has taken an answer. -/
theorem Advances.pop (hstep : Advances s t) {up : List Up} (hup : up ⊆ t.up) :
    Advances s { t with up } :=
  { hstep with up := fun call seq response hmem => hstep.up call seq response (hup hmem) }

theorem Advances.read (h : s.Sound) (hnodup : seqs.Nodup) (horderly : s.Orderly (.read seqs))
    (hstep : s.read seqs = some t) : Advances s t := by
  rw [Session.read] at hstep
  split at hstep
  · next frame up hresend hup =>
    have hsub : up ⊆ s.up := hup ▸ subset_cons_self frame up
    cases hframe : frame.response? with
    | none =>
      rw [hframe] at hstep
      cases hstep
      have hcopies : Session.copies { s with up, resend := [.replyCorrupted] } = s.copies := by
        rw [Session.copies, Session.copies, hresend]
        rfl
      exact { (Advances.refl h.plain).pop hsub with
        copies := fun copy hcopy => .inl (hcopies ▸ hcopy)
        count := fun call => .inl (count_le_count rfl (by rw [hcopies])) }
    | some resolved =>
      obtain ⟨seq, response⟩ := resolved
      rw [hframe] at hstep
      cases hstep
      rw [handle]
      split
      · next hnack =>
        refine (Advances.retransmit h hnodup hresend ?_).pop hsub
        exact horderly frame seq (hup ▸ rfl) (hnack ▸ hframe)
      · refine (Advances.resolve h fun result hresult => ?_).pop hsub
        cases frame with
        | answer call seq' response' =>
          cases hframe
          exact ⟨call, hup ▸ mem_cons_self⟩
        | error seq' code =>
          cases hframe
          cases hresult
        | corrupted => cases hframe
  · cases hstep

/-! ## Runs -/

theorem Sound.step (h : s.Sound) {event : Event} (hpossible : s.Possible event)
    (horderly : s.Orderly event) (hstep : s.step event = some t) : t.Sound := by
  cases event with
  | run i =>
    obtain ⟨calls, hcalls, rfl⟩ := map_eq_some_iff.mp hstep
    exact h.run horderly hcalls
  | sent i result arrival =>
    rw [Session.step] at hstep
    split at hstep
    · next seq frame htask =>
      rw [Calls.step, htask] at hstep
      cases hstep
      cases result with
      | ok _ =>
        exact (Advances.sent h htask (.waiting seq) trivial id rfl
          (fun _ hresult => by cases hresult) arrival).sound h
      | error message =>
        exact (Advances.sent h htask (.returned (.error (.transport message))) trivial id rfl
          (fun _ hresult => by cases hresult) arrival).sound h
    · cases hstep
  | push arrival =>
    rw [Session.step] at hstep
    split at hstep
    · cases hstep
    · next frame resend hresend =>
      cases hstep
      exact (Advances.push h hresend arrival).sound h
  | read seqs => exact (Advances.read h hpossible.1 horderly hstep).sound h
  | take intact => exact (Advances.take h hstep).sound h
  | serve response intact => exact (Advances.serve h hstep).sound h
  | redeliver intact => exact (Advances.redeliver h hstep).sound h

theorem not_carries (hpending : ∀ seq, s.calls.protocol.pending seq = none)
    (hdue : ∀ call, (s.calls.tasks call).due = none) (hcopies : s.copies = []) (hup : s.up = [])
    (call : Nat) (seq : UInt16) : ¬s.Carries call seq := by
  intro hcarries
  cases hcarries with
  | pending hentry _ => cases (hpending seq).symm.trans hentry
  | due hframe => cases (hdue call).symm.trans hframe
  | copy hcopy _ _ =>
    rw [hcopies] at hcopy
    cases hcopy
  | answer hanswer =>
    rw [hup] at hanswer
    cases hanswer

theorem Initial.sound (h : s.Initial) : s.Sound := by
  obtain ⟨hresend, hdown, hstaged, hexecuted, hup⟩ := h.quiet
  have hcopies : s.copies = [] := by
    rw [copies, hresend, hdown, hstaged]
    rfl
  have hdue : ∀ call, (s.calls.tasks call).due = none := by
    intro call
    obtain ⟨req, htask⟩ := h.tasks call
    rw [htask]
    rfl
  have hnone : ∀ call seq, ¬s.Carries call seq :=
    not_carries (fun seq => h.protocol ▸ rfl) hdue hcopies hup
  have hcount : ∀ call, s.count call = 0 := by
    intro call
    rw [count_of_due_eq_none (hdue call), hcopies, hexecuted]
    rfl
  refine ⟨fun i => ?_, fun seq entry hentry => absurd (.pending hentry rfl) (hnone _ seq),
    fun i seq frame hdue => absurd (.due hdue) (hnone i seq),
    fun seq call _ hcall _ => absurd hcall (hnone call seq),
    fun call seq _ hseq _ => absurd hseq (hnone call seq), fun i _ => ⟨hnone i, hcount i⟩,
    fun call => (hcount call).le.trans (Nat.zero_le 1),
    fun call seq response hanswer => absurd (.answer hanswer) (hnone call seq),
    fun call result hanswer => ?_, fun call result hresult => ?_⟩
  · obtain ⟨req, htask⟩ := h.tasks i
    rw [htask]
    rfl
  · cases (h.answers call).symm.trans hanswer
  · obtain ⟨req, htask⟩ := h.tasks call
    cases htask.symm.trans hresult

theorem Reaches.sound {s₀ : Session} (hinit : s₀.Initial) (h : Reaches Orderly s₀ s) : s.Sound := by
  induction h with
  | start => exact hinit.sound
  | step event _ hpossible horderly hstep ih => exact ih.step hpossible horderly hstep

/-- On every run on which the host sends again only what was not executed and cannot be, and no
call takes a number of which something is left, every request is executed at most once, and a call
that returns has the reply of its own. -/
theorem executed_at_most_once {s₀ s : Session} (hinit : s₀.Initial) (h : Reaches Orderly s₀ s) :
    (∀ call, s.executed.countP (·.1 = call) ≤ 1) ∧
      ∀ call result, s.calls.tasks call = .returned (.ok result) →
        (call, .reply result) ∈ s.executed := by
  have hsound := h.sound hinit
  refine ⟨fun call => ?_, hsound.returned⟩
  exact (Nat.le_add_left _ _).trans (hsound.count call)

/-- Everybody makes a call, and nothing is sent yet. -/
def calling : Session where
  calls :=
    { protocol := .new
      answers := fun _ => none
      tasks := fun _ => .start true
        { taskId := 1, resourceKind := 0, method := 0, args := [], leases := [],
          leaseData := [] } }
  resend := []
  down := []
  staged := none
  retransmitting := false
  lastSent := .none
  executed := []
  up := []

theorem initial_calling : calling.Initial :=
  ⟨rfl, fun _ => rfl, fun _ => ⟨_, rfl⟩, rfl, rfl, rfl, rfl, rfl⟩

theorem keys_insert {p : IpcProtocol} (h : p.Keys seqs) (seq : UInt16) (entry : PendingEntry) :
    (p.insert seq entry).Keys (seq :: seqs) := by
  intro other
  rw [IpcProtocol.pending_insert, mem_cons]
  by_cases hother : other = seq
  · grind
  · rw [update_of_ne hother, ← h other]
    exact or_iff_right hother

theorem keys_one (seq : UInt16) (entry : PendingEntry) :
    IpcProtocol.Keys (IpcProtocol.new.insert seq entry) [seq] :=
  keys_insert (fun _ => iff_of_false not_mem_nil fun hne => hne rfl) seq entry

theorem keys_again {p : IpcProtocol} (h : p.Keys seqs) (hseq : seq ∈ seqs) (entry : PendingEntry) :
    (p.insert seq entry).Keys seqs := by
  intro other
  rw [← keys_insert h seq entry other, mem_cons]
  exact (or_iff_right_of_imp fun hother => hother ▸ hseq).symm

/-- The first transfer of a request is corrupted. -/
theorem executed_at_most_once_corrupted : ∃ s, Reaches Orderly calling s ∧
    s.calls.tasks 0 = .returned (.ok ⟨0, [], []⟩) ∧
    (∀ call, s.executed.countP (·.1 = call) ≤ 1) ∧
    (0, .reply ⟨0, [], []⟩) ∈ s.executed := by
  have h₁ : Reaches Orderly calling _ := .step (.run 0) .start trivial
    (fun _ _ htask => by cases htask) rfl
  have h₂ : Reaches Orderly calling _ := .step (.run 0) h₁ trivial
    (fun _ _ _ call => not_carries (fun _ => rfl)
      (fun call => Nat.casesOn call rfl fun _ => rfl) rfl rfl call _) rfl
  have h₃ : Reaches Orderly calling _ := .step (.run 0) h₂ trivial
    (fun _ _ htask => by cases htask) rfl
  have h₄ : Reaches Orderly calling _ :=
    .step (.sent 0 (.ok ()) (some false)) h₃ trivial trivial rfl
  have h₅ : Reaches Orderly calling _ := .step (.take true) h₄ trivial trivial rfl
  have h₆ : Reaches Orderly calling _ := .step (.read [0]) h₅
    ⟨nodup_singleton 0, keys_one 0 _⟩ (fun _ _ _ _ seq entry hentry _ => by
      have hseq := (keys_one 0 _ seq).mpr (hentry.trans_ne (some_ne_none _))
      cases mem_singleton.mp hseq
      cases hentry
      rfl) rfl
  have h₇ : Reaches Orderly calling _ := .step (.push (some true)) h₆ trivial trivial rfl
  have h₈ : Reaches Orderly calling _ := .step (.take true) h₇ trivial trivial rfl
  have h₉ : Reaches Orderly calling _ :=
    .step (.serve (.reply ⟨0, [], []⟩) true) h₈ trivial trivial rfl
  have h₁₀ : Reaches Orderly calling _ := .step (.read [0]) h₉
    ⟨nodup_singleton 0, keys_again (keys_one 0 _) (mem_singleton_self 0) _⟩
    (fun _ _ hframe hnack => by
      cases hframe
      cases hnack) rfl
  have h₁₁ : Reaches Orderly calling _ := .step (.run 0) h₁₀ trivial
    (fun _ _ htask => by cases htask) rfl
  exact ⟨_, h₁₁, rfl, (executed_at_most_once initial_calling h₁₁).1,
    (executed_at_most_once initial_calling h₁₁).2 0 _ rfl⟩

def run (s : Session) : List Event → Option Session
  | [] => some s
  | event :: events => (s.step event).bind fun s => s.run events

/-- The reader takes nothing. -/
def Event.silent : Event → Bool
  | read _ => false
  | _ => true

theorem possible_of_silent {event : Event} (h : event.silent = true) : s.Possible event := by
  cases event with
  | read seqs => cases h
  | _ => trivial

theorem Reaches.run {s₀ : Session} (h : Reaches (fun _ _ => True) s₀ s) (events : List Event)
    (hsilent : events.all Event.silent = true)
    (hrun : s.run events = some t) : Reaches (fun _ _ => True) s₀ t := by
  induction events generalizing s with
  | nil =>
    cases hrun
    exact h
  | cons event events ih =>
    obtain ⟨u, hstep, hrest⟩ := bind_eq_some_iff.mp hrun
    rw [all_cons, Bool.and_eq_true] at hsilent
    exact ih (.step event h (possible_of_silent hsilent.1) trivial hstep) hsilent.2 hrest

/-- The request of the second call is corrupted.  The device answers with an error that names no
request, the host sends both requests again, and the device executes the first one twice. -/
theorem retransmit_executes_twice : ∃ s, Reaches (fun _ _ => True) calling s ∧
    s.executed.map Prod.fst = [0, 1, 0] := by
  have hstart : Reaches (fun _ _ => True) calling calling := .start
  have hnacked := hstart.run
    [.run 0, .run 0, .run 0, .run 1, .run 1, .run 1, .sent 1 (.ok ()) (some false),
      .sent 0 (.ok ()) (some true), .take true, .take true, .serve (.reply ⟨0, [], []⟩) true]
    rfl rfl
  have hread := hnacked.step (.read [1, 0]) ⟨by decide, keys_insert (keys_one 0 _) 1 _⟩ trivial rfl
  have hagain := hread.run
    [.push (some true), .push (some true), .take true, .serve (.reply ⟨0, [], []⟩) true,
      .take true, .serve (.reply ⟨0, [], []⟩) true]
    rfl rfl
  exact ⟨_, hagain, rfl⟩

end Session
end Rcard
