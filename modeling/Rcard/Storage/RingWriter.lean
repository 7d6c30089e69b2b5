/-
The ring writer (`firmware/sysmodule/storage/api/src/ring.rs`).

A message is a zero, the encoding of its counter and data, and a zero.  Bytes collect in a
page buffer; a full page is programmed where it belongs, and a sector is erased when its
first page begins.  `end` pads the open page with zeros and programs it too.

It does not move `pos` behind the padding.  The next message begins inside the page that was
just programmed, where programming leaves zeros as they are.  Messages come back whole if
each of them but the last ends with its page.
-/
import Rcard.Lib.Cobs
import Rcard.Lib.Le
import Rcard.Lib.Nor

namespace Rcard.Storage

open List Mem Cobs

/-! ## The partition -/

/-- What the writer's storage handle leads to, with its geometry. -/
structure Flash where
  totalSize : Nat
  eraseSize : Nat
  programSize : Nat
  bytes : Nat → UInt8

def Flash.erase (s : Flash) (offset len : Nat) : Flash :=
  if offset + len ≤ s.totalSize then { s with bytes := Nor.erase s.bytes offset len } else s

def Flash.program (s : Flash) (offset : Nat) (data : List UInt8) : Flash :=
  if offset + data.length ≤ s.totalSize then { s with bytes := Nor.program s.bytes offset data }
  else s

/-! ## The writer -/

def maxProgramSize : Nat := 256

/-- `progBuf` and `cobsBuf` are the used parts of their arrays. -/
structure RingWriter where
  storage : Flash
  pos : Nat
  capacity : Nat
  eraseSize : Nat
  programSize : Nat
  counter : UInt32
  progBuf : List UInt8
  progBufStart : Nat
  cobsBuf : List UInt8
  inMessage : Bool

namespace RingWriter

/-- The assertion on the page size may fail. -/
def new (storage : Flash) : Option RingWriter :=
  if storage.programSize ≤ maxProgramSize then
    some { storage, pos := 0, capacity := storage.totalSize, eraseSize := storage.eraseSize
           programSize := storage.programSize, counter := 0, progBuf := [], progBufStart := 0
           cobsBuf := [], inMessage := false }
  else none

section

variable (w : RingWriter)

def flushProg : RingWriter :=
  if w.progBuf = [] then w
  else
    { w with
      storage := w.storage.program w.progBufStart
        (w.progBuf ++ replicate (w.programSize - w.progBuf.length) 0x00)
      progBuf := [] }

/-- Erase at the beginning of a sector, and begin a page. -/
def openPage : RingWriter :=
  if w.progBuf = [] then
    { w with
      storage := if w.pos % w.eraseSize = 0 then w.storage.erase w.pos w.eraseSize else w.storage
      progBufStart := w.pos }
  else w

def push (b : UInt8) : RingWriter :=
  let w := { w with progBuf := w.progBuf ++ [b], pos := (w.pos + 1) % w.capacity }
  if w.progBuf.length = w.programSize then w.flushProg else w

/-- A remainder by zero and a full page buffer panic. -/
def emitByte (b : UInt8) : Option RingWriter :=
  if w.eraseSize = 0 ∨ w.capacity = 0 ∨ maxProgramSize ≤ w.progBuf.length then none
  else some (w.openPage.push b)

def emitBytes (bs : List UInt8) : Option RingWriter := bs.foldlM emitByte w

def cobsFlush : Option RingWriter := do
  let w ← w.emitBytes (UInt8.ofNat (w.cobsBuf.length + 1) :: w.cobsBuf)
  return { w with cobsBuf := [] }

def cobsFlushFull : Option RingWriter := do
  let w ← w.emitBytes (0xFF :: w.cobsBuf)
  return { w with cobsBuf := [] }

def cobsFeed (b : UInt8) : Option RingWriter :=
  if b = 0 then w.cobsFlush
  else if 254 ≤ w.cobsBuf.length then none
  else
    let w := { w with cobsBuf := w.cobsBuf ++ [b] }
    if w.cobsBuf.length = 254 then w.cobsFlushFull else some w

def write (data : List UInt8) : Option RingWriter := data.foldlM cobsFeed w

def finish : Option RingWriter :=
  if w.inMessage then do
    let w ← w.cobsFlush
    let w ← w.emitByte 0x00
    return { w.flushProg with counter := w.counter + 1, inMessage := false }
  else some w

/-- `begin` behind the last message. -/
def openMessage : Option RingWriter := do
  let w ← { w with inMessage := true, cobsBuf := [] }.emitByte 0x00
  w.write (leBytes 4 w.counter.toNat)

def begin : Option RingWriter := do
  let w ← if w.inMessage then w.finish else some w
  w.openMessage

end

end RingWriter

inductive RingOp where
  | begin
  | write (data : List UInt8)
  | finish
  deriving DecidableEq

def RingOp.isWrite : RingOp → Bool
  | write _ => true
  | _ => false

def RingWriter.step (w : RingWriter) : RingOp → Option RingWriter
  | .begin => w.begin
  | .write data => w.write data
  | .finish => w.finish

def RingWriter.run (w : RingWriter) (ops : List RingOp) : Option RingWriter :=
  ops.foldlM RingWriter.step w

/-! ## What is to be written -/

/-- The messages so far: the data of those that were ended, and of the open one. -/
structure Messages where
  done : List (List UInt8)
  part : Option (List UInt8)

namespace Messages

/-- Message `k` before encoding. -/
def raw (k : Nat) (data : List UInt8) : List UInt8 := leBytes 4 (UInt32.ofNat k).toNat ++ data

def framed (k : Nat) (data : List UInt8) : List UInt8 :=
  0x00 :: standard.encode (raw k data) ++ [0x00]

section

variable (v : Messages)

def stream : List UInt8 := (v.done.mapIdx framed).flatten

/-- Every byte emitted so far. -/
def output : List UInt8 :=
  v.stream ++ match v.part with
    | none => []
    | some data => 0x00 :: (feed [] (raw v.done.length data)).1

def finish : Messages :=
  match v.part with
  | none => v
  | some data => { done := v.done ++ [data], part := none }

def step : RingOp → Messages
  | .begin => { v.finish with part := some [] }
  | .write data => { v with part := v.part.map (· ++ data) }
  | .finish => v.finish

def run (ops : List RingOp) : Messages := ops.foldl step v

end

/-- Data is written to an open message only. -/
def Framed : Messages → List RingOp → Prop
  | _, [] => True
  | v, op :: ops => (op.isWrite → v.part.isSome) ∧ Framed (v.step op) ops

instance decidableFramed : (v : Messages) → (ops : List RingOp) → Decidable (v.Framed ops)
  | _, [] => isTrue trivial
  | v, op :: ops => @instDecidableAnd _ _ inferInstance (decidableFramed (v.step op) ops)

/-- When a message begins, those before it end with a page. -/
def PageAligned (programSize : Nat) : Messages → List RingOp → Prop
  | _, [] => True
  | v, op :: ops =>
    (op = .begin → programSize ∣ v.finish.stream.length) ∧ PageAligned programSize (v.step op) ops

instance decidablePageAligned (programSize : Nat) :
    (v : Messages) → (ops : List RingOp) → Decidable (v.PageAligned programSize ops)
  | _, [] => isTrue trivial
  | v, op :: ops =>
    @instDecidableAnd _ _ inferInstance (decidablePageAligned programSize (v.step op) ops)

def new : Messages := { done := [], part := none }

variable {v : Messages} {data : List UInt8}

theorem stream_finish (h : v.part = some data) :
    v.finish.stream = v.stream ++ framed v.done.length data := by
  rw [finish, h]
  simp [stream]

theorem part_finish (v : Messages) : v.finish.part = none := by
  rw [finish]
  cases h : v.part with
  | none => exact h
  | some data => rfl

theorem output_of_none (h : v.part = none) : v.output = v.stream := by
  rw [output, h, append_nil]

theorem output_of_some (h : v.part = some data) :
    v.output = v.stream ++ 0x00 :: (feed [] (raw v.done.length data)).1 := by
  rw [output, h]

theorem output_finish (h : v.part = some data) :
    v.finish.output = v.output ++ block (feed [] (raw v.done.length data)).2 ++ [0x00] := by
  rw [output_of_none v.part_finish, stream_finish h, output_of_some h]
  show v.stream ++ (0x00 :: encodeFrom [] _ ++ [0x00]) = _
  rw [encodeFrom_eq_feed]
  simp

theorem output_write {old : List UInt8} (h : v.part = some old) :
    (v.step (.write data)).output =
      v.output ++ (feed (feed [] (raw v.done.length old)).2 data).1 := by
  have hraw : raw v.done.length (old ++ data) = raw v.done.length old ++ data :=
    (append_assoc _ _ _).symm
  rw [output_of_some h, step, h]
  show v.stream ++ 0x00 :: (feed [] (raw v.done.length (old ++ data))).1 = _
  rw [hraw, feed_append, append_assoc, cons_append]

theorem output_prefix_finish (v : Messages) : v.output <+: v.finish.output := by
  cases h : v.part with
  | none =>
    grind [finish]
  | some data =>
    rw [output_finish h, append_assoc]
    exact prefix_append _ _

theorem output_prefix_step (v : Messages) (op : RingOp) : v.output <+: (v.step op).output := by
  cases op with
  | begin =>
    refine v.output_prefix_finish.trans ?_
    rw [output_of_none v.part_finish]
    exact prefix_append _ _
  | write data =>
    cases h : v.part with
    | none =>
      rw [step, output_of_none h]
      exact prefix_append _ _
    | some old =>
      rw [output_write h]
      exact prefix_append _ _
  | finish => exact v.output_prefix_finish

theorem output_prefix_run (v : Messages) (ops : List RingOp) : v.output <+: (v.run ops).output := by
  induction ops generalizing v with
  | nil => exact prefix_refl _
  | cons op ops ih => exact (v.output_prefix_step op).trans (ih (v.step op))

end Messages

/-! ## Pages -/

structure Flash.Regular (s : Flash) : Prop where
  erase : s.eraseSize ∣ s.totalSize
  program : s.programSize ∣ s.eraseSize
  max : s.programSize ≤ maxProgramSize

/-- The writer belongs to a partition with the geometry of `s`. -/
structure RingWriter.Uses (s : Flash) (w : RingWriter) : Prop where
  storage : w.storage = { s with bytes := w.storage.bytes }
  capacity : w.capacity = s.totalSize
  eraseSize : w.eraseSize = s.eraseSize
  programSize : w.programSize = s.programSize

/-- `full` is programmed, the page buffer comes behind it, and from there to `limit` the
partition is erased. -/
structure RingWriter.Streams (s : Flash) (w : RingWriter) (full : List UInt8) (limit : Nat) : Prop
    extends w.Uses s where
  pages : s.programSize ∣ full.length
  short : w.progBuf.length < s.programSize
  sectors : s.eraseSize ∣ limit
  le_limit : full.length + w.progBuf.length ≤ limit
  limit_le : limit ≤ s.totalSize
  pos : w.pos = (full.length + w.progBuf.length) % s.totalSize
  start : w.progBuf ≠ [] → w.progBufStart = full.length
  programmed : slice w.storage.bytes 0 full.length = full
  erased : ∀ i, full.length ≤ i → i < limit → w.storage.bytes i = 0xFF

namespace RingWriter

variable {s : Flash} {w : RingWriter} {full : List UInt8} {limit : Nat}

/-- What emitting leaves alone. -/
structure Same (w w' : RingWriter) : Prop where
  counter : w'.counter = w.counter
  cobsBuf : w'.cobsBuf = w.cobsBuf
  inMessage : w'.inMessage = w.inMessage

theorem Same.trans {w' w'' : RingWriter} (h : w.Same w') (h' : w'.Same w'') : w.Same w'' :=
  ⟨h'.counter.trans h.counter, h'.cobsBuf.trans h.cobsBuf, h'.inMessage.trans h.inMessage⟩

variable {data : List UInt8}

theorem Uses.program (h : w.Uses s) {offset : Nat} (hfit : offset + data.length ≤ s.totalSize) :
    w.storage.program offset data =
      { s with bytes := Nor.program w.storage.bytes offset data } := by
  rw [h.storage]
  exact if_pos hfit

theorem Uses.erase (h : w.Uses s) {offset len : Nat} (hfit : offset + len ≤ s.totalSize) :
    w.storage.erase offset len = { s with bytes := Nor.erase w.storage.bytes offset len } := by
  rw [h.storage]
  exact if_pos hfit

section

variable (h : w.Streams s full limit)
include h

theorem Streams.pos_eq (hroom : full.length + w.progBuf.length < s.totalSize) :
    w.pos = full.length + w.progBuf.length := by
  rw [h.pos, Nat.mod_eq_of_lt hroom]

/-- Away from the beginning of a sector, the next byte lies in the erased part. -/
theorem Streams.lt_limit (hsector : ¬ s.eraseSize ∣ full.length + w.progBuf.length) :
    full.length + w.progBuf.length < limit := by
  refine Nat.lt_of_le_of_ne h.le_limit fun heq => hsector ?_
  rw [heq]
  exact h.sectors

theorem Streams.not_sector (hs : s.Regular) (hbuf : w.progBuf ≠ []) :
    ¬ s.eraseSize ∣ full.length + w.progBuf.length := by
  intro hdvd
  have hpage := (Nat.dvd_add_right h.pages).mp (Nat.dvd_trans hs.program hdvd)
  exact hbuf (length_eq_zero_iff.mp (Nat.eq_zero_of_dvd_of_lt hpage h.short))

/-- After that, the next byte lies in the erased part. -/
theorem Streams.openPage (hs : s.Regular) (hroom : full.length + w.progBuf.length < s.totalSize) :
    ∃ limit', w.openPage.Streams s full limit' ∧ full.length + w.progBuf.length < limit' ∧
      w.openPage.progBufStart = full.length ∧ w.openPage.progBuf = w.progBuf ∧
      w.Same w.openPage := by
  have hpos := h.pos_eq hroom
  rw [RingWriter.openPage]
  by_cases hbuf : w.progBuf = []
  · have hlen : w.progBuf.length = 0 := by rw [hbuf, length_nil]
    rw [if_pos hbuf, hpos, h.eraseSize]
    rw [hlen, Nat.add_zero] at hroom ⊢
    by_cases hsector : s.eraseSize ∣ full.length
    · have hfit : full.length + s.eraseSize ≤ s.totalSize := by
        have := Nat.le_of_dvd (by omega) (Nat.dvd_sub hs.erase hsector)
        omega
      have hpositive : 0 < s.eraseSize := Nat.pos_of_dvd_of_pos hs.erase (by omega)
      rw [if_pos (Nat.mod_eq_zero_of_dvd hsector), h.toUses.erase hfit]
      refine ⟨full.length + s.eraseSize, ⟨⟨rfl, h.capacity, rfl, h.programSize⟩, h.pages,
        h.short, (Nat.dvd_add_right hsector).mpr (Nat.dvd_refl _), ?_, hfit, ?_,
        fun hne => absurd hbuf hne, ?_, ?_⟩, by omega, rfl, rfl, rfl, rfl, rfl⟩
      · show full.length + w.progBuf.length ≤ full.length + s.eraseSize
        omega
      · rw [hlen, Nat.add_zero, Nat.mod_eq_of_lt hroom]
      · refine Eq.trans (slice_eq_iff.mpr fun k hk => ?_) h.programmed
        exact Nor.erase_of_lt _ _ (by omega)
      · intro i hi hlt
        exact Nor.erase_of_mem _ hi hlt
    · have hlt := h.lt_limit (by rwa [hlen, Nat.add_zero])
      rw [if_neg (mt Nat.dvd_of_mod_eq_zero hsector)]
      rw [hlen] at hlt
      refine ⟨limit, ⟨⟨h.storage, h.capacity, rfl, h.programSize⟩, h.pages, h.short, h.sectors,
        h.le_limit, h.limit_le, ?_, fun hne => absurd hbuf hne, h.programmed, h.erased⟩, hlt,
        rfl, rfl, rfl, rfl, rfl⟩
      rw [hlen, Nat.add_zero, Nat.mod_eq_of_lt hroom]
  · rw [if_neg hbuf]
    exact ⟨limit, h, h.lt_limit (h.not_sector hs hbuf), h.start hbuf, rfl, rfl, rfl, rfl⟩

/-- Programming the erased part. -/
theorem Streams.slice_program (hfit : full.length + data.length ≤ limit) :
    slice (Nor.program w.storage.bytes full.length data) 0 (full.length + data.length) =
      full ++ data := by
  have herased : ∀ k < data.length, w.storage.bytes (full.length + k) = 0xFF :=
    fun k hk => h.erased _ (by omega) (by omega)
  have hwrite := slice_write w.storage.bytes full.length data
  rw [Nor.program_eq_write _ herased, slice_add, Nat.zero_add, hwrite,
    slice_write_of_disjoint _ (.inl (by omega)), h.programmed]

theorem Streams.push (hlt : full.length + w.progBuf.length < limit)
    (hstart : w.progBufStart = full.length) (b : UInt8) :
    ∃ full', (w.push b).Streams s full' limit ∧ w.Same (w.push b) ∧
      full' ++ (w.push b).progBuf = full ++ w.progBuf ++ [b] := by
  have hshort := h.short
  have hlen : (w.progBuf ++ [b]).length = w.progBuf.length + 1 := by simp
  have hpos : (w.pos + 1) % w.capacity = (full.length + (w.progBuf.length + 1)) % s.totalSize := by
    rw [h.pos, h.capacity, Nat.mod_add_mod, Nat.add_assoc]
  have hne : w.progBuf ++ [b] ≠ [] := by simp
  rw [RingWriter.push, hlen, h.programSize]
  by_cases hpage : w.progBuf.length + 1 = s.programSize
  · have hlimit := h.limit_le
    have hfit : full.length + (w.progBuf ++ [b]).length ≤ limit := by omega
    have hprogram := h.toUses.program (Nat.le_trans hfit hlimit)
    have hfull : (full ++ (w.progBuf ++ [b])).length = full.length + s.programSize := by
      rw [length_append, hlen, hpage]
    rw [if_pos hpage, flushProg, if_neg hne]
    rw [hlen, hpage, Nat.sub_self, replicate_zero, append_nil, hstart, hprogram]
    refine ⟨full ++ (w.progBuf ++ [b]), ⟨⟨rfl, h.capacity, h.eraseSize, rfl⟩, ?_,
      Nat.zero_lt_of_lt hshort, h.sectors, ?_, h.limit_le, ?_, nofun, ?_, ?_⟩, ⟨rfl, rfl, rfl⟩,
      by simp⟩
    · rw [hfull]
      exact Nat.dvd_add h.pages (Nat.dvd_refl _)
    · show (full ++ (w.progBuf ++ [b])).length + 0 ≤ limit
      omega
    · grind
    · rw [length_append]
      exact h.slice_program hfit
    · intro i hi hi'
      rw [length_append] at hi
      exact (Nor.program_of_ge _ hi).trans (h.erased i (by omega) hi')
  · rw [if_neg hpage]
    refine ⟨full, ⟨⟨h.storage, h.capacity, h.eraseSize, rfl⟩, h.pages, ?_, h.sectors, ?_,
      h.limit_le, ?_, fun _ => hstart, h.programmed, h.erased⟩, ⟨rfl, rfl, rfl⟩,
      (append_assoc _ _ _).symm⟩
    · show (w.progBuf ++ [b]).length < s.programSize
      omega
    · show full.length + (w.progBuf ++ [b]).length ≤ limit
      omega
    grind

end

/-- All bytes so far are `out`. -/
def Emitted (s : Flash) (w : RingWriter) (out : List UInt8) : Prop :=
  ∃ full limit, w.Streams s full limit ∧ full ++ w.progBuf = out

variable {out : List UInt8}

theorem Emitted.emitByte (h : w.Emitted s out) (hs : s.Regular) (hroom : out.length < s.totalSize)
    (b : UInt8) : ∃ w', w.emitByte b = some w' ∧ w'.Emitted s (out ++ [b]) ∧ w.Same w' := by
  obtain ⟨full, limit, hw, rfl⟩ := h
  rw [length_append] at hroom
  have herase : 0 < s.eraseSize := Nat.pos_of_dvd_of_pos hs.erase (by omega)
  have hfits : w.progBuf.length < maxProgramSize := Nat.lt_of_lt_of_le hw.short hs.max
  obtain ⟨limit', hopen, hlt, hstart, hbuf, hsame⟩ := hw.openPage hs hroom
  obtain ⟨full', hpush, hsame', hout⟩ := hopen.push (by rwa [hbuf]) hstart b
  refine ⟨w.openPage.push b, ?_, ⟨full', limit', hpush, by rw [hout, hbuf]⟩, hsame.trans hsame'⟩
  rw [RingWriter.emitByte, hw.eraseSize, hw.capacity, if_neg (by omega)]

theorem Emitted.emitBytes (h : w.Emitted s out) (hs : s.Regular) {bs : List UInt8}
    (hroom : (out ++ bs).length ≤ s.totalSize) :
    ∃ w', w.emitBytes bs = some w' ∧ w'.Emitted s (out ++ bs) ∧ w.Same w' := by
  induction bs generalizing w out with
  | nil => exact ⟨w, rfl, by rwa [append_nil], rfl, rfl, rfl⟩
  | cons b bs ih =>
    rw [append_cons] at hroom ⊢
    obtain ⟨w₁, hw₁, h₁, hsame⟩ := h.emitByte hs (by simp at hroom; omega) b
    obtain ⟨w', hw', h', hsame'⟩ := ih h₁ hroom
    refine ⟨w', ?_, h', hsame.trans hsame'⟩
    rw [RingWriter.emitBytes, foldlM_cons, hw₁]
    exact hw'

/-! ## Messages -/

theorem Emitted.withMessage (h : w.Emitted s out) (counter : UInt32) (cobsBuf : List UInt8)
    (inMessage : Bool) : Emitted s { w with counter, cobsBuf, inMessage } out := by
  obtain ⟨full, limit, hw, hout⟩ := h
  exact ⟨full, limit, ⟨⟨hw.storage, hw.capacity, hw.eraseSize, hw.programSize⟩, hw.pages, hw.short,
    hw.sectors, hw.le_limit, hw.limit_le, hw.pos, hw.start, hw.programmed, hw.erased⟩, hout⟩

/-- Inside message `k`: all bytes so far are `out`, and `pending` is the open block. -/
structure Writing (s : Flash) (w : RingWriter) (k : Nat) (out pending : List UInt8) : Prop where
  emitted : w.Emitted s out
  pending : w.cobsBuf = pending
  counter : w.counter = UInt32.ofNat k
  inMessage : w.inMessage = true

variable {k : Nat} {pending : List UInt8}

section

variable (h : w.Writing s k out pending)
include h

variable (hs : s.Regular)
include hs

theorem Writing.emitBytes {bs : List UInt8} (hroom : (out ++ bs).length ≤ s.totalSize) :
    ∃ w', w.emitBytes bs = some w' ∧ { w' with cobsBuf := [] }.Writing s k (out ++ bs) [] := by
  obtain ⟨w', hw', h', hsame⟩ := h.emitted.emitBytes hs hroom
  exact ⟨w', hw', h'.withMessage _ _ _, rfl, hsame.counter.trans h.counter,
    hsame.inMessage.trans h.inMessage⟩

theorem Writing.cobsFlush (hroom : (out ++ block pending).length ≤ s.totalSize) :
    ∃ w', w.cobsFlush = some w' ∧ w'.Writing s k (out ++ block pending) [] := by
  obtain ⟨w', hw', h'⟩ := h.emitBytes hs hroom
  refine ⟨_, ?_, h'⟩
  rw [RingWriter.cobsFlush, h.pending, ← block, hw']
  rfl

theorem Writing.cobsFeed (hpending : pending.length ≤ 253) {b : UInt8}
    (hroom : (out ++ (Cobs.push pending b).1).length ≤ s.totalSize) :
    ∃ w', w.cobsFeed b = some w' ∧
      w'.Writing s k (out ++ (Cobs.push pending b).1) (Cobs.push pending b).2 := by
  rw [RingWriter.cobsFeed]
  by_cases hb : b = 0
  · rw [Cobs.push, if_pos hb] at hroom ⊢
    rw [if_pos hb]
    exact h.cobsFlush hs hroom
  · have hopen : { w with cobsBuf := w.cobsBuf ++ [b] }.Writing s k out (pending ++ [b]) :=
      ⟨h.emitted.withMessage _ _ _, by rw [h.pending], h.counter, h.inMessage⟩
    have hlen : (w.cobsBuf ++ [b]).length = pending.length + 1 := by
      rw [h.pending, length_append, length_singleton]
    rw [Cobs.push, if_neg hb] at hroom ⊢
    rw [if_neg hb, if_neg (by rw [h.pending]; omega)]
    dsimp only
    by_cases hfull : pending.length = 253
    · rw [if_pos hfull] at hroom ⊢
      rw [if_pos (by omega)]
      obtain ⟨w', hw', h'⟩ := hopen.emitBytes hs hroom
      have hblock : block (pending ++ [b]) = 0xFF :: (pending ++ [b]) := by
        rw [block, ← h.pending, hlen, hfull]
        rfl
      refine ⟨_, ?_, h'⟩
      rw [hblock] at hw'
      rw [cobsFlushFull, hopen.pending, hw']
      rfl
    grind

theorem Writing.write (hpending : pending.length ≤ 253)
    (hroom : (out ++ (feed pending data).1).length ≤ s.totalSize) :
    ∃ w', w.write data = some w' ∧
      w'.Writing s k (out ++ (feed pending data).1) (feed pending data).2 := by
  induction data generalizing w out pending with
  | nil => exact ⟨w, rfl, by rwa [feed, append_nil]⟩
  | cons b data ih =>
    rw [feed, ← append_assoc] at hroom ⊢
    have hfirst : (out ++ (Cobs.push pending b).1).length ≤ s.totalSize := by
      rw [length_append] at hroom
      omega
    obtain ⟨w₁, hw₁, h₁⟩ := h.cobsFeed hs hpending hfirst
    grind [RingWriter.write, Cobs.push]

end

/-- Between messages: `out` is in the partition, and if it fills its pages the writer goes on
behind it. -/
structure Ended (s : Flash) (w : RingWriter) (k : Nat) (out : List UInt8) : Prop where
  stored : slice w.storage.bytes 0 out.length = out
  emitted : s.programSize ∣ out.length → out.length < s.totalSize → w.Emitted s out
  counter : w.counter = UInt32.ofNat k
  inMessage : w.inMessage = false

theorem Emitted.flushProg (h : w.Emitted s out) (hs : s.Regular) :
    slice w.flushProg.storage.bytes 0 out.length = out ∧
      (s.programSize ∣ out.length → w.flushProg.Emitted s out) ∧ w.Same w.flushProg := by
  obtain ⟨full, limit, hw, rfl⟩ := h
  rw [RingWriter.flushProg]
  by_cases hbuf : w.progBuf = []
  · rw [if_pos hbuf]
    refine ⟨?_, fun _ => ⟨full, limit, hw, rfl⟩, rfl, rfl, rfl⟩
    rw [hbuf, append_nil, hw.programmed]
  · have hpos := length_pos_iff.mpr hbuf
    have hshort := hw.short
    have hle := hw.le_limit
    -- The page lies in the erased part whole.
    have hpage : full.length + s.programSize ≤ limit := by
      have := Nat.le_of_dvd (by omega) (Nat.dvd_sub (Nat.dvd_trans hs.program hw.sectors) hw.pages)
      omega
    have hlen : (w.progBuf ++ replicate (w.programSize - w.progBuf.length) 0x00).length =
        s.programSize := by
      rw [length_append, length_replicate, hw.programSize]
      omega
    have hfit : full.length +
        (w.progBuf ++ replicate (w.programSize - w.progBuf.length) 0x00).length ≤ limit := by
      rwa [hlen]
    rw [if_neg hbuf, hw.start hbuf, hw.toUses.program (Nat.le_trans hfit hw.limit_le)]
    refine ⟨?_, fun hdvd => ?_, rfl, rfl, rfl⟩
    · have hslice := hw.slice_program hfit
      rw [hlen] at hslice
      rw [← slice_take _ 0 (show (full ++ w.progBuf).length ≤ full.length + s.programSize by
        rw [length_append]; omega), hslice, ← append_assoc, take_left]
    · rw [length_append] at hdvd
      exact absurd (Nat.eq_zero_of_dvd_of_lt ((Nat.dvd_add_right hw.pages).mp hdvd) hshort)
        (Nat.ne_of_gt hpos)

theorem Writing.finish (h : w.Writing s k out pending) (hs : s.Regular)
    (hroom : (out ++ block pending ++ [0x00]).length ≤ s.totalSize) :
    ∃ w', w.finish = some w' ∧ w'.Ended s (k + 1) (out ++ block pending ++ [0x00]) := by
  rw [length_append, length_singleton] at hroom
  obtain ⟨w₁, hw₁, h₁⟩ := h.cobsFlush hs (by omega)
  obtain ⟨w₂, hw₂, h₂, hsame⟩ := h₁.emitted.emitByte hs (by omega) 0x00
  obtain ⟨hstored, hemitted, _⟩ := h₂.flushProg hs
  refine ⟨{ w₂.flushProg with counter := w₂.counter + 1, inMessage := false }, ?_, hstored,
    fun hdvd _ => ?_, ?_, rfl⟩
  · rw [RingWriter.finish, if_pos h.inMessage, hw₁, Option.bind_eq_bind, Option.bind_some, hw₂]
    rfl
  · exact (hemitted hdvd).withMessage _ _ _
  · show w₂.counter + 1 = UInt32.ofNat (k + 1)
    rw [hsame.counter, h₁.counter, UInt32.ofNat_add]
    rfl

theorem Ended.openMessage (h : w.Ended s k out) (hs : s.Regular)
    (hpage : s.programSize ∣ out.length)
    (hroom : (out ++ 0x00 :: (feed [] (Messages.raw k [])).1).length ≤ s.totalSize) :
    ∃ w', w.openMessage = some w' ∧
      w'.Writing s k (out ++ 0x00 :: (feed [] (Messages.raw k [])).1)
        (feed [] (Messages.raw k [])).2 := by
  have hraw : Messages.raw k [] = leBytes 4 (UInt32.ofNat k).toNat := append_nil _
  rw [append_cons] at hroom
  have hlt : out.length < s.totalSize := by
    simp at hroom
    omega
  obtain ⟨w₁, hw₁, h₁, hsame⟩ := ((h.emitted hpage hlt).withMessage _ [] true).emitByte hs hlt 0x00
  have hcounter : w₁.counter = UInt32.ofNat k := hsame.counter.trans h.counter
  obtain ⟨w', hw', h'⟩ := Writing.write ⟨h₁, hsame.cobsBuf, hcounter, hsame.inMessage⟩ hs
    (Nat.zero_le _) hroom
  grind [RingWriter.openMessage]

theorem begin_eq (w : RingWriter) : w.begin = w.finish >>= RingWriter.openMessage := by
  rw [RingWriter.begin, RingWriter.finish]
  split
  · rfl
  · rfl

/-! ## Whole runs -/

/-- The writer is where the messages so far bring it. -/
def Tracks (s : Flash) (w : RingWriter) (v : Messages) : Prop :=
  match v.part with
  | none => w.Ended s v.done.length v.stream
  | some data => s.programSize ∣ v.stream.length ∧
      w.Writing s v.done.length v.output (feed [] (Messages.raw v.done.length data)).2

variable {v : Messages}

theorem tracks_of_none (h : v.part = none) : w.Tracks s v ↔ w.Ended s v.done.length v.stream := by
  rw [Tracks, h]

theorem tracks_of_some (h : v.part = some data) : w.Tracks s v ↔
    s.programSize ∣ v.stream.length ∧
      w.Writing s v.done.length v.output (feed [] (Messages.raw v.done.length data)).2 := by
  rw [Tracks, h]

theorem Tracks.finish (h : w.Tracks s v) (hs : s.Regular)
    (hroom : v.finish.output.length ≤ s.totalSize) :
    ∃ w', w.finish = some w' ∧ w'.Ended s v.finish.done.length v.finish.stream := by
  rw [← Messages.output_of_none v.part_finish]
  cases hpart : v.part with
  | none =>
    have hended := (tracks_of_none hpart).mp h
    refine ⟨w, ?_, ?_⟩
    · rw [RingWriter.finish, hended.inMessage, if_neg Bool.false_ne_true]
    · rw [Messages.finish, hpart, Messages.output_of_none hpart]
      exact hended
  | some data =>
    have hcount : v.finish.done.length = v.done.length + 1 := by
      rw [Messages.finish, hpart]
      simp
    rw [Messages.output_finish hpart] at hroom ⊢
    rw [hcount]
    exact ((tracks_of_some hpart).mp h).2.finish hs hroom

theorem Tracks.step (h : w.Tracks s v) (hs : s.Regular) {op : RingOp}
    (hframed : op.isWrite → v.part.isSome)
    (hpage : op = .begin → s.programSize ∣ v.finish.stream.length)
    (hroom : (v.step op).output.length ≤ s.totalSize) :
    ∃ w', w.step op = some w' ∧ w'.Tracks s (v.step op) := by
  cases op with
  | begin =>
    have hprefix : v.finish.output <+: (v.step .begin).output := by
      rw [Messages.output_of_none v.part_finish]
      exact prefix_append _ _
    obtain ⟨w₁, hw₁, h₁⟩ := h.finish hs (Nat.le_trans hprefix.length_le hroom)
    obtain ⟨w', hw', h'⟩ := h₁.openMessage hs (hpage rfl) hroom
    refine ⟨w', ?_, hpage rfl, h'⟩
    rw [RingWriter.step, begin_eq, hw₁]
    exact hw'
  | write data =>
    obtain ⟨old, hpart⟩ := Option.isSome_iff_exists.mp (hframed rfl)
    have hraw : Messages.raw v.done.length (old ++ data) =
        Messages.raw v.done.length old ++ data := (append_assoc _ _ _).symm
    have hpart' : (v.step (.write data)).part = some (old ++ data) := by
      rw [Messages.step, hpart]
      rfl
    rw [Messages.output_write hpart] at hroom
    obtain ⟨haligned, hwriting⟩ := (tracks_of_some hpart).mp h
    obtain ⟨w', hw', h'⟩ := hwriting.write hs (length_feed_le (Nat.zero_le _) _) hroom
    refine ⟨w', hw', (tracks_of_some hpart').mpr ⟨haligned, ?_⟩⟩
    rw [Messages.output_write hpart]
    show w'.Writing s v.done.length _ (feed [] (Messages.raw v.done.length (old ++ data))).2
    rw [hraw, feed_append]
    exact h'
  | finish =>
    obtain ⟨w', hw', h'⟩ := h.finish hs hroom
    exact ⟨w', hw', (tracks_of_none v.part_finish).mpr h'⟩

theorem Tracks.run (h : w.Tracks s v) (hs : s.Regular) {ops : List RingOp} (hframed : v.Framed ops)
    (hpage : v.PageAligned s.programSize ops) (hroom : (v.run ops).output.length ≤ s.totalSize) :
    ∃ w', w.run ops = some w' ∧ w'.Tracks s (v.run ops) := by
  induction ops generalizing w v with
  | nil => exact ⟨w, rfl, h⟩
  | cons op ops ih =>
    have hfirst := ((v.step op).output_prefix_run ops).length_le
    obtain ⟨w₁, hw₁, h₁⟩ := h.step hs hframed.1 hpage.1 (Nat.le_trans hfirst hroom)
    obtain ⟨w', hw', h'⟩ := ih h₁ hframed.2 hpage.2 hroom
    refine ⟨w', ?_, h'⟩
    rw [RingWriter.run, foldlM_cons, hw₁]
    exact hw'

theorem tracks_new (hs : s.Regular) : ∃ w, RingWriter.new s = some w ∧ w.Tracks s Messages.new := by
  refine ⟨_, if_pos hs.max, rfl, fun _ hlt => ?_, rfl, rfl⟩
  have hpage : 0 < s.programSize :=
    Nat.pos_of_dvd_of_pos (Nat.dvd_trans hs.program hs.erase) (Nat.zero_lt_of_lt hlt)
  refine ⟨[], 0, ⟨⟨rfl, rfl, rfl, rfl⟩, Nat.dvd_zero _, hpage, Nat.dvd_zero _, Nat.le_refl _,
    Nat.zero_le _, ?_, fun hne => absurd rfl hne, rfl, fun i _ hi => absurd hi (Nat.not_lt_zero i)⟩,
    rfl⟩
  exact (Nat.zero_mod _).symm

/-- The messages that were ended are in the partition. -/
theorem Tracks.stored (h : w.Tracks s v) : slice w.storage.bytes 0 v.stream.length = v.stream := by
  cases hpart : v.part with
  | none => exact ((tracks_of_none hpart).mp h).stored
  | some data =>
    obtain ⟨hpage, hwriting⟩ := (tracks_of_some hpart).mp h
    obtain ⟨full, limit, hw, hout⟩ := hwriting.emitted
    rw [Messages.output_of_some hpart] at hout
    have hprefix : v.stream <+: full := by
      refine prefix_of_prefix_length_le (prefix_append _ _) (hout ▸ prefix_append full w.progBuf) ?_
      -- Both are whole pages, and less than a page lies behind `full`.
      have hlen := congrArg length hout
      have hshort := hw.short
      rw [length_append, length_append] at hlen
      by_contra hlt
      have := Nat.le_of_dvd (by omega) (Nat.dvd_sub hpage hw.pages)
      omega
    obtain ⟨tail, rfl⟩ := hprefix
    rw [← slice_take _ 0 (show v.stream.length ≤ (v.stream ++ tail).length by simp), hw.programmed,
      take_left]

end RingWriter

/-! ## Reading back -/

/-- The parts between the zeros, without the empty ones. -/
def groups (bytes : List UInt8) : List (List UInt8) := (bytes.splitOn 0x00).filter (· ≠ [])

theorem groups_framed (k : Nat) (data rest : List UInt8) :
    groups (Messages.framed k data ++ rest) =
      standard.encode (Messages.raw k data) :: groups rest := by
  have hzero := standard.zero_notMem_encode (Messages.raw k data)
  have hne := standard.encode_ne_nil (Messages.raw k data)
  have hsplit : Messages.framed k data ++ rest =
      [] ++ 0x00 :: (standard.encode (Messages.raw k data) ++ 0x00 :: rest) := by
    simp [Messages.framed]
  rw [groups, hsplit, splitOn_append_cons_self_of_not_mem not_mem_nil,
    splitOn_append_cons_self_of_not_mem hzero]
  simp [groups, hne]

theorem groups_flatten_mapIdx {f g : Nat → List UInt8 → List UInt8}
    (h : ∀ k data rest, groups (f k data ++ rest) = g k data :: groups rest)
    (ds : List (List UInt8)) (rest : List UInt8) :
    groups ((ds.mapIdx f).flatten ++ rest) = ds.mapIdx g ++ groups rest := by
  induction ds generalizing f g with
  | nil => rfl
  | cons d ds ih =>
    grind

/-- If each message but the last ends with its page, the partition from its beginning on
holds the ended messages, one group each, and each group decodes to its counter and data.
`rest` is what lies behind the last of them. -/
theorem messages_recovered {s : Flash} (hs : s.Regular) {ops : List RingOp}
    (hframed : Messages.new.Framed ops)
    (hroom : (Messages.new.run ops).output.length ≤ s.totalSize)
    (hpage : Messages.new.PageAligned s.programSize ops) :
    ∃ w found rest, RingWriter.new s >>= (RingWriter.run · ops) = some w ∧
      groups (Mem.slice w.storage.bytes 0 s.totalSize) = found ++ groups rest ∧
      rest = Mem.slice w.storage.bytes (Messages.new.run ops).stream.length
        (s.totalSize - (Messages.new.run ops).stream.length) ∧
      found.map Cobs.standard.decode =
        (Messages.new.run ops).done.mapIdx fun k data => some (Messages.raw k data) := by
  obtain ⟨w₀, hnew, h₀⟩ := RingWriter.tracks_new hs
  obtain ⟨w, hrun, h⟩ := h₀.run hs hframed hpage hroom
  have hle : (Messages.new.run ops).stream.length ≤ s.totalSize :=
    Nat.le_trans (prefix_append _ _).length_le hroom
  have hsplit := slice_add w.storage.bytes 0 (Messages.new.run ops).stream.length
    (s.totalSize - (Messages.new.run ops).stream.length)
  rw [Nat.add_sub_cancel' hle, h.stored, Nat.zero_add] at hsplit
  refine ⟨w, (Messages.new.run ops).done.mapIdx fun k data =>
    standard.encode (Messages.raw k data), _, by rw [hnew]; exact hrun, ?_, rfl, ?_⟩
  · rw [hsplit, Messages.stream, groups_flatten_mapIdx groups_framed]
  · refine ext_getElem? fun k => ?_
    simp only [getElem?_map, getElem?_mapIdx, Option.map_map]
    exact congrArg (Option.map · _) (funext fun data => standard.decode_encode _)

/-- One sector of two pages. -/
def oneSector : Flash :=
  { totalSize := 32, eraseSize := 32, programSize := 16, bytes := fun _ => 0x5A }

/-- The first message fills its page. -/
def pageThenMore : List RingOp :=
  [.begin, .write (replicate 9 0x07), .finish, .begin, .write [0x00], .finish]

theorem messages_recovered_pageThenMore : ∃ w found rest,
    RingWriter.new oneSector >>= (RingWriter.run · pageThenMore) = some w ∧
      groups (Mem.slice w.storage.bytes 0 32) = found ++ groups rest ∧
      found.map Cobs.standard.decode =
        [some (Messages.raw 0 (List.replicate 9 0x07)), some (Messages.raw 1 [0x00])] := by
  have hs : oneSector.Regular := ⟨⟨1, rfl⟩, ⟨2, rfl⟩, by decide⟩
  obtain ⟨w, found, rest, hrun, hgroups, _, hfound⟩ := messages_recovered hs
    (show Messages.new.Framed pageThenMore by decide) (by decide +kernel) (by decide +kernel)
  exact ⟨w, found, rest, hrun, hgroups, hfound⟩

def twoEmpty : List RingOp := [.begin, .finish, .begin, .finish]

/-- The second of two empty messages is lost. -/
theorem second_message_lost : oneSector.Regular ∧ Messages.new.Framed twoEmpty ∧
    (Messages.new.run twoEmpty).done.length = 2 ∧
    (Messages.new.run twoEmpty).output.length ≤ oneSector.totalSize ∧
    (RingWriter.new oneSector >>= (RingWriter.run · twoEmpty)).map (fun w =>
        (groups (Mem.slice w.storage.bytes 0 32)).filterMap Cobs.standard.decode) =
      some [Messages.raw 0 []] := by
  refine ⟨⟨⟨1, rfl⟩, ⟨2, rfl⟩, by decide⟩, by decide, by decide, by decide +kernel, ?_⟩
  decide +kernel

end Rcard.Storage
