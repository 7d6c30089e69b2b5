/-
Frames out of a stream of bytes (`shared/usb-proto/src/reader.rs`).

A `FrameReader` has a buffer for `N` bytes.  A caller pushes what it has read, takes out the
frames that are complete, and pushes again what did not fit.  A frame longer than the buffer is
reported and its bytes are dropped as they come, `skipRemaining` of them.

`Synced` says where in the stream a reader is: what it has buffered and what is still to be
pushed are the bytes it has to drop and then whole frames.  It does not say how the stream was
cut up, so how it was cut up does not matter.
-/
import Rcard.Proto.Frame

namespace Rcard

open List FrameHeader

inductive ReaderError where
  | header (e : HeaderError)
  | oversized (declaredSize : Nat)
  deriving DecidableEq, Repr

/-- `buf` is the part of the source's buffer that is in use. -/
structure FrameReader (N : Nat) where
  buf : List UInt8
  skipRemaining : Nat
  fits : buf.length ≤ N

namespace FrameReader

variable {N : Nat}

def new : FrameReader N := ⟨[], 0, Nat.zero_le N⟩

section

variable (r : FrameReader N)

theorem fits_take (data : List UInt8) :
    (r.buf ++ data.take (min data.length (N - r.buf.length))).length ≤ N := by
  have := r.fits
  rw [length_append, length_take]
  omega

/-- The end of `push`, with nothing to skip. -/
def append (data : List UInt8) : FrameReader N × Nat :=
  let n := min data.length (N - r.buf.length)
  (⟨r.buf ++ data.take n, r.skipRemaining, r.fits_take data⟩, n)

/-- The reader, and the number of bytes it took. -/
def push (data : List UInt8) : FrameReader N × Nat :=
  if r.skipRemaining > 0 then
    let discard := min data.length r.skipRemaining
    let r := { r with skipRemaining := r.skipRemaining - discard }
    -- The source calls itself here, with nothing left to skip.
    if discard < data.length then
      let (r, n) := r.append (data.drop discard)
      (r, discard + n)
    else (r, discard)
  else r.append data

def nextFrame : Except ReaderError (Option RawFrame) :=
  if r.skipRemaining > 0 then .ok none
  else if r.buf.length < headerSize then .ok none
  else
    match FrameHeader.decode r.buf with
    | .error e => .error (.header e)
    | .ok header =>
      let total := header.frameSize
      if total > N then .error (.oversized total)
      else if r.buf.length < total then .ok none
      else .ok (some { header, payload := (r.buf.take total).drop headerSize })

theorem fits_drop (n : Nat) : (r.buf.drop n).length ≤ N := by
  have := r.fits
  rw [length_drop]
  omega

/-- Also where `frameSize` is more than there is. -/
def consume (frameSize : Nat) : FrameReader N :=
  ⟨r.buf.drop frameSize, r.skipRemaining, r.fits_drop frameSize⟩

def skipFrame (declaredSize : Nat) : FrameReader N :=
  if declaredSize ≤ r.buf.length then r.consume declaredSize
  else ⟨[], declaredSize - r.buf.length, Nat.zero_le N⟩

end

def reset (_ : FrameReader N) : FrameReader N := new

def buffered (r : FrameReader N) : Nat := r.buf.length

/-! ## Callers -/

inductive Report where
  | frame (f : RawFrame)
  | oversized (declaredSize : Nat)
  | badHeader (e : HeaderError)
  deriving DecidableEq, Repr

/-- The loop every caller has around `next_frame`. -/
def drainFrom : Nat → FrameReader N → List Report × FrameReader N
  | 0, r => ([], r)
  | fuel + 1, r =>
    match r.nextFrame with
    | .ok (some f) =>
      let (reports, r) := drainFrom fuel (r.consume f.header.frameSize)
      (.frame f :: reports, r)
    | .ok none => ([], r)
    | .error (.oversized declaredSize) =>
      let (reports, r) := drainFrom fuel (r.skipFrame declaredSize)
      (.oversized declaredSize :: reports, r)
    | .error (.header e) => ([.badHeader e], r.reset)

def drain (r : FrameReader N) : List Report × FrameReader N := drainFrom (r.buf.length + 1) r

/-- Push a chunk, take out what is complete, and push the rest again.  The bytes at the end are
those that were never accepted. -/
def feedFrom : Nat → FrameReader N → List UInt8 → List Report × FrameReader N × List UInt8
  | _, r, [] => ([], r, [])
  | 0, r, data => ([], r, data)
  | fuel + 1, r, data =>
    let (r, n) := r.push data
    let (reports, r) := r.drain
    let (reports', r, rest) := feedFrom fuel r (data.drop n)
    (reports ++ reports', r, rest)

def feed (r : FrameReader N) (data : List UInt8) : List Report × FrameReader N × List UInt8 :=
  feedFrom data.length r data

def feedAll : FrameReader N → List (List UInt8) → List Report × FrameReader N × List UInt8
  | r, [] => ([], r, [])
  | r, chunk :: chunks =>
    let (reports, r, lost) := r.feed chunk
    let (reports', r, lost') := feedAll r chunks
    (reports ++ reports', r, lost ++ lost')

end FrameReader

/-! ## Frames in the stream -/

namespace RawFrame

def bytes (f : RawFrame) : List UInt8 := f.header.encode ++ f.payload

def size (f : RawFrame) : Nat := f.bytes.length

/-- The header counts the payload. -/
def WellFormed (f : RawFrame) : Prop := f.payload.length = f.header.length.toNat

instance (f : RawFrame) : Decidable f.WellFormed := inferInstanceAs (Decidable (_ = _))

/-- What a reader of `N` bytes makes of a frame. -/
def report (N : Nat) (f : RawFrame) : FrameReader.Report :=
  if f.size ≤ N then .frame f else .oversized f.size

theorem WellFormed.frameSize {f : RawFrame} (h : f.WellFormed) : f.header.frameSize = f.size := by
  rw [size, bytes, length_append, FrameHeader.length_encode, h, FrameHeader.frameSize]

theorem headerSize_le_size (f : RawFrame) : headerSize ≤ f.size := by
  rw [size, bytes, length_append]
  exact Nat.le_add_right _ _

/-- The header of the frame in front is read as soon as it is complete. -/
theorem decode_of_append {f : RawFrame} {buf todo rest : List UInt8}
    (h : buf ++ todo = f.bytes ++ rest) (hlen : headerSize ≤ buf.length) :
    FrameHeader.decode buf = .ok f.header := by
  have hdecode := decode_append hlen todo
  rw [← hdecode, h, bytes]
  exact decode_encode _ _

end RawFrame

namespace FrameReader

variable {N : Nat} {r : FrameReader N} {todo : List UInt8} {frames : List RawFrame}

structure Synced (r : FrameReader N) (todo : List UInt8) (frames : List RawFrame) : Prop where
  formed : ∀ f ∈ frames, f.WellFormed
  clear : r.skipRemaining ≠ 0 → r.buf = []
  bytes : ∃ dropped, dropped.length = r.skipRemaining ∧
    r.buf ++ todo = dropped ++ frames.flatMap RawFrame.bytes

/-! ### Pushing -/

section Push

variable {data : List UInt8}

section

variable (h : r.Synced (data ++ todo) frames)
include h

theorem Synced.append (hskip : r.skipRemaining = 0) :
    (r.append data).1.Synced (data.drop (r.append data).2 ++ todo) frames := by
  obtain ⟨dropped, hdropped, hbytes⟩ := h.bytes
  refine ⟨h.formed, fun hne => absurd hskip hne, dropped, hdropped, ?_⟩
  rw [FrameReader.append, ← hbytes, append_assoc, ← append_assoc (List.take _ _), take_append_drop]

theorem Synced.discard (hskip : r.skipRemaining ≠ 0) {n : Nat} (hdata : n ≤ data.length)
    (hn : n ≤ r.skipRemaining) :
    Synced { r with skipRemaining := r.skipRemaining - n } (data.drop n ++ todo) frames := by
  obtain ⟨dropped, hdropped, hbytes⟩ := h.bytes
  have hbuf := h.clear hskip
  refine ⟨h.formed, fun _ => hbuf, dropped.drop n, ?_, ?_⟩
  · rw [length_drop, hdropped]
  · rw [hbuf, nil_append] at hbytes
    show r.buf ++ _ = _
    rw [hbuf, nil_append, ← drop_append_of_le_length hdata, hbytes,
      drop_append_of_le_length (by omega)]

theorem Synced.push : (r.push data).1.Synced (data.drop (r.push data).2 ++ todo) frames := by
  rw [FrameReader.push]
  split
  · next hskip =>
    have hmin := Nat.min_le_left data.length r.skipRemaining
    have hdiscard := h.discard (Nat.pos_iff_ne_zero.mp hskip) hmin (Nat.min_le_right _ _)
    dsimp only
    split
    · next hlt =>
      have happend := hdiscard.append (by show _ - _ = 0; omega)
      rwa [drop_drop] at happend
    · exact hdiscard
  · next hskip => exact h.append (by omega)

end

/-- A reader that has nothing to hand out takes something. -/
theorem push_pos (hN : headerSize ≤ N) (hdrained : r.nextFrame = .ok none) (hdata : data ≠ []) :
    0 < (r.push data).2 := by
  have hpos := length_pos_iff.mpr hdata
  rw [FrameReader.push]
  split
  · grind
  · next hskip =>
    have hroom : r.buf.length < N := by
      rw [nextFrame] at hdrained
      split at hdrained
      · omega
      · grind
    show 0 < min data.length (N - r.buf.length)
    omega

end Push

/-! ### Taking frames out -/

/-- What a caller sees next. -/
inductive Step (r : FrameReader N) (todo : List UInt8) : List RawFrame → Prop
  | frame {f : RawFrame} {frames : List RawFrame} (hsize : f.size ≤ N)
      (hnext : r.nextFrame = .ok (some f)) (hbuf : f.size ≤ r.buf.length)
      (hsynced : (r.consume f.header.frameSize).Synced todo frames) : Step r todo (f :: frames)
  | oversized {f : RawFrame} {frames : List RawFrame} (hsize : N < f.size)
      (hnext : r.nextFrame = .error (.oversized f.size)) (hbuf : headerSize ≤ r.buf.length)
      (hsynced : (r.skipFrame f.size).Synced todo frames) : Step r todo (f :: frames)
  | wait {frames : List RawFrame} (hnext : r.nextFrame = .ok none)
      (hdone : todo = [] → frames = []) : Step r todo frames

/-- With nothing to drop, whole frames lie ahead. -/
theorem Synced.stream (h : r.Synced todo frames) (hskip : r.skipRemaining = 0) :
    r.buf ++ todo = frames.flatMap RawFrame.bytes := by
  obtain ⟨dropped, hdropped, hbytes⟩ := h.bytes
  rw [hskip, length_eq_zero_iff] at hdropped
  rw [hbytes, hdropped, nil_append]

variable {f : RawFrame}

theorem Synced.consume (h : r.Synced todo (f :: frames)) (hskip : r.skipRemaining = 0)
    (hbuf : f.size ≤ r.buf.length) : (r.consume f.size).Synced todo frames := by
  refine ⟨(forall_mem_cons.mp h.formed).2, fun hne => absurd hskip hne, [], hskip.symm, ?_⟩
  show r.buf.drop f.size ++ todo = _
  rw [← drop_append_of_le_length hbuf, h.stream hskip]
  exact drop_left' rfl

theorem Synced.skipFrame (h : r.Synced todo (f :: frames)) (hskip : r.skipRemaining = 0)
    (hsize : N < f.size) : (r.skipFrame f.size).Synced todo frames := by
  have hfits := r.fits
  have hlong : ¬f.size ≤ r.buf.length := by omega
  rw [FrameReader.skipFrame, if_neg hlong]
  refine ⟨(forall_mem_cons.mp h.formed).2, fun _ => rfl, f.bytes.drop r.buf.length, length_drop, ?_⟩
  show [] ++ todo = _
  rw [← drop_append_of_le_length (Nat.le_of_not_le hlong), ← flatMap_cons, ← h.stream hskip,
    drop_left]
  rfl

/-- The frame in front, once it is complete. -/
theorem nextFrame_of_stream {rest : List UInt8} (hskip : r.skipRemaining = 0) (hf : f.WellFormed)
    (hstream : r.buf ++ todo = f.bytes ++ rest) (hlen : headerSize ≤ r.buf.length) :
    r.nextFrame = if f.size > N then .error (.oversized f.size)
      else if r.buf.length < f.size then .ok none else .ok (some f) := by
  rw [nextFrame, if_neg (by omega), if_neg (by omega), RawFrame.decode_of_append hstream hlen]
  dsimp only
  rw [hf.frameSize]
  by_cases hbuf : f.size ≤ r.buf.length
  · have hfront : (r.buf ++ todo).take f.size = r.buf.take f.size :=
      take_append_of_le_length hbuf
    have htake : r.buf.take f.size = f.bytes := by
      rw [← hfront, hstream]
      exact take_left' rfl
    have hpayload : f.bytes.drop headerSize = f.payload :=
      drop_left' (length_encode _)
    rw [htake, hpayload]
  · rw [if_pos (Nat.lt_of_not_le hbuf), if_pos (Nat.lt_of_not_le hbuf)]

theorem Synced.step (h : r.Synced todo frames) : Step r todo frames := by
  by_cases hskip : r.skipRemaining = 0
  · have hstream := h.stream hskip
    have hwait : r.buf.length < headerSize → r.nextFrame = .ok none := by
      intro hlen
      rw [nextFrame, if_neg (by omega), if_pos hlen]
    cases frames with
    | nil =>
      refine .wait (hwait ?_) fun _ => rfl
      rw [(append_eq_nil_iff.mp hstream).1]
      decide
    | cons f frames =>
      have hf := h.formed f mem_cons_self
      have hshort : r.buf.length < f.size → todo = [] → f :: frames = [] := by grind [RawFrame.size]
      by_cases hlen : r.buf.length < headerSize
      · exact .wait (hwait hlen) (hshort (Nat.lt_of_lt_of_le hlen f.headerSize_le_size))
      · have hnext := nextFrame_of_stream hskip hf hstream (Nat.le_of_not_lt hlen)
        split at hnext
        · next hsize =>
          exact .oversized hsize hnext (Nat.le_of_not_lt hlen) (h.skipFrame hskip hsize)
        · next hsize =>
          split at hnext
          · exact .wait hnext (hshort ‹_›)
          · next hbuf =>
            refine .frame (Nat.le_of_not_lt hsize) hnext (Nat.le_of_not_lt hbuf) ?_
            rw [hf.frameSize]
            exact h.consume hskip (Nat.le_of_not_lt hbuf)
  · have hnext : r.nextFrame = .ok none := by
      rw [nextFrame, if_pos (Nat.pos_of_ne_zero hskip)]
    refine .wait hnext fun hnil => ?_
    -- What has to be dropped is still to come.
    obtain ⟨dropped, hdropped, hbytes⟩ := h.bytes
    rw [hnil, h.clear hskip] at hbytes
    obtain ⟨rfl, -⟩ := append_eq_nil_iff.mp hbytes.symm
    exact absurd hdropped.symm hskip

/-- What a drain or a push loop does: the frames of `done` are reported, those of `rest` are
ahead. -/
structure Handed (frames : List RawFrame) (reports : List Report) (r : FrameReader N)
    (todo : List UInt8) (rest : List RawFrame) : Prop where
  reports : ∃ done, frames = done ++ rest ∧ reports = done.map (RawFrame.report N)
  synced : r.Synced todo rest
  drained : r.nextFrame = .ok none

theorem Handed.cons {reports : List Report} {rest : List RawFrame}
    (h : Handed frames reports r todo rest) :
    Handed (f :: frames) (f.report N :: reports) r todo rest := by
  obtain ⟨done, rfl, rfl⟩ := h.reports
  exact ⟨⟨f :: done, rfl, rfl⟩, h.synced, h.drained⟩

theorem Handed.append {reports reports' : List Report} {mid rest : List RawFrame}
    {r' : FrameReader N} {todo' : List UInt8} (h : Handed frames reports r todo mid)
    (h' : Handed mid reports' r' todo' rest) :
    Handed frames (reports ++ reports') r' todo' rest := by
  obtain ⟨done, rfl, rfl⟩ := h.reports
  obtain ⟨done', rfl, rfl⟩ := h'.reports
  exact ⟨⟨done ++ done', (append_assoc _ _ _).symm, map_append.symm⟩, h'.synced, h'.drained⟩

theorem Synced.drainFrom {fuel : Nat} (h : r.Synced todo frames) (hfuel : r.buf.length < fuel) :
    ∃ rest, Handed frames (r.drainFrom fuel).1 (r.drainFrom fuel).2 todo rest := by
  induction fuel generalizing r frames with
  | zero => exact absurd hfuel (Nat.not_lt_zero _)
  | succ fuel ih =>
    rw [FrameReader.drainFrom]
    cases h.step with
    | wait hnext _ =>
      rw [hnext]
      exact ⟨frames, ⟨[], rfl, rfl⟩, h, hnext⟩
    | @frame f frames hsize hnext hbuf hsynced =>
      have hpos := f.headerSize_le_size
      obtain ⟨rest, hrest⟩ := ih hsynced (by
        show (r.buf.drop f.header.frameSize).length < fuel
        rw [length_drop, (h.formed f mem_cons_self).frameSize]
        rw [headerSize] at hpos
        omega)
      have hcons := hrest.cons (f := f)
      rw [RawFrame.report, if_pos hsize] at hcons
      rw [hnext]
      exact ⟨rest, hcons⟩
    | @oversized f frames hsize hnext hbuf hsynced =>
      have hfits := r.fits
      obtain ⟨rest, hrest⟩ := ih hsynced (by
        rw [FrameReader.skipFrame, if_neg (by omega)]
        show 0 < fuel
        rw [headerSize] at hbuf
        omega)
      have hcons := hrest.cons (f := f)
      rw [RawFrame.report, if_neg (Nat.not_le.mpr hsize)] at hcons
      rw [hnext]
      exact ⟨rest, hcons⟩

theorem Synced.drain (h : r.Synced todo frames) :
    ∃ rest, Handed frames r.drain.1 r.drain.2 todo rest :=
  h.drainFrom (Nat.lt_succ_self _)

/-! ### Whole chunks -/

theorem Synced.feedFrom (hN : headerSize ≤ N) {data : List UInt8} {fuel : Nat}
    (h : r.Synced (data ++ todo) frames) (hdrained : r.nextFrame = .ok none)
    (hfuel : data.length ≤ fuel) :
    (r.feedFrom fuel data).2.2 = [] ∧
      ∃ rest, Handed frames (r.feedFrom fuel data).1 (r.feedFrom fuel data).2.1 todo rest := by
  induction fuel generalizing r frames data with
  | zero =>
    cases length_eq_zero_iff.mp (Nat.le_zero.mp hfuel)
    exact ⟨rfl, frames, ⟨[], rfl, rfl⟩, h, hdrained⟩
  | succ fuel ih =>
    cases data with
    | nil => exact ⟨rfl, frames, ⟨[], rfl, rfl⟩, h, hdrained⟩
    | cons b data =>
      have hpush : 0 < (r.push (b :: data)).2 :=
        push_pos hN hdrained (cons_ne_nil b data)
      obtain ⟨rest, hhanded⟩ := h.push.drain
      have hless : ((b :: data).drop (r.push (b :: data)).2).length ≤ fuel := by
        rw [length_drop]
        omega
      obtain ⟨hall, rest', hhanded'⟩ := ih hhanded.synced hhanded.drained hless
      exact ⟨hall, rest', hhanded.append hhanded'⟩

theorem Synced.feedAll (hN : headerSize ≤ N) {chunks : List (List UInt8)}
    (h : r.Synced (chunks.flatten ++ todo) frames) (hdrained : r.nextFrame = .ok none) :
    (r.feedAll chunks).2.2 = [] ∧
      ∃ rest, Handed frames (r.feedAll chunks).1 (r.feedAll chunks).2.1 todo rest := by
  induction chunks generalizing r frames with
  | nil => exact ⟨rfl, frames, ⟨[], rfl, rfl⟩, h, hdrained⟩
  | cons chunk chunks ih =>
    rw [flatten_cons, append_assoc] at h
    obtain ⟨hall, rest, hhanded⟩ := h.feedFrom hN hdrained (Nat.le_refl _)
    obtain ⟨hall', rest', hhanded'⟩ := ih hhanded.synced hhanded.drained
    refine ⟨?_, rest', hhanded.append hhanded'⟩
    show (r.feed chunk).2.2 ++ _ = []
    rw [FrameReader.feed, hall]
    exact hall'

end FrameReader

/-- However the stream is cut up, a caller gets the frames that fit the buffer, as they were, and
one report for each of the others, in order.  Every byte is accepted in the end: a reader that
has nothing to hand out takes at least one. -/
theorem reader_chunking_independent (N : Nat) (hN : headerSize ≤ N) (frames : List RawFrame)
    (hframes : ∀ f ∈ frames, f.WellFormed) (chunks : List (List UInt8))
    (hchunks : chunks.flatten = frames.flatMap RawFrame.bytes) :
    ((FrameReader.new : FrameReader N).feedAll chunks).1 = frames.map (RawFrame.report N) ∧
    ((FrameReader.new : FrameReader N).feedAll chunks).2.2 = [] ∧
    (∀ r : FrameReader N, r.buffered ≤ N) ∧
    (∀ (r : FrameReader N) (data : List UInt8), r.nextFrame = .ok none → data ≠ [] →
      0 < (r.push data).2) := by
  have hsynced : (FrameReader.new : FrameReader N).Synced (chunks.flatten ++ []) frames :=
    ⟨hframes, fun hne => absurd rfl hne, [], rfl, by rw [append_nil, hchunks]; rfl⟩
  obtain ⟨hall, rest, hhanded⟩ := hsynced.feedAll hN rfl
  obtain ⟨done, rfl, hreports⟩ := hhanded.reports
  refine ⟨?_, hall, fun r => r.fits, fun r data => FrameReader.push_pos hN⟩
  cases hhanded.synced.step with
  | wait _ hdone => rw [hreports, hdone rfl, append_nil]
  | frame _ hnext | oversized _ hnext => cases hhanded.drained.symm.trans hnext

/-- A frame with the given payload. -/
def RawFrame.ofPayload (frameType : FrameType) (seq : UInt16) (payload : List UInt8) : RawFrame :=
  { header := { frameType, seq, length := UInt16.ofNat payload.length }, payload }

/-- Three frames in four pieces, and a buffer that is too small for the second. -/
theorem reader_chunking_independent_pieces :
    ((FrameReader.new : FrameReader 8).feedAll
      [[3, 0, 0, 1, 0, 9, 2], [1, 0, 4, 0], [7, 7, 7], [7, 3, 2, 0, 0, 0]]).1 =
      [.frame (.ofPayload .simple 0 [9]), .oversized 9, .frame (.ofPayload .simple 2 [])] :=
  (reader_chunking_independent 8 (by decide)
    [.ofPayload .simple 0 [9], .ofPayload .ipcReply 1 [7, 7, 7, 7], .ofPayload .simple 2 []]
    (by decide) _ rfl).1

end Rcard
