/-
Replies on the serial link (`firmware/sysmodule/log/src/transport.rs`,
`host/serial/src/usart2.rs`).

`deliver_reply` encodes a frame block by block, however long it is.  The host collects a chunk
of at most 300 bytes.  A reply that is no longer than that, once it is encoded, is passed on as
it is, and the log fragments around it are read as if it were not there.  Of a longer one the
host drops 301 bytes at a time and takes what is left for a chunk.
-/
import Rcard.Log.Streams

namespace Rcard.Log

open List Cobs Prod Reader StreamState

/-! ## The encoder -/

/-- `pending` is the part of the source's buffer after the first byte that is in use. -/
structure StreamingCobsEncoder where
  written : List UInt8
  pending : List UInt8

namespace StreamingCobsEncoder

def new : StreamingCobsEncoder := { written := [], pending := [] }

section

variable (e : StreamingCobsEncoder)

def flushBlock (overhead : UInt8) : StreamingCobsEncoder :=
  { written := e.written ++ overhead :: e.pending, pending := [] }

def pushByte (byte : UInt8) : StreamingCobsEncoder :=
  if byte = 0 then e.flushBlock (UInt8.ofNat (e.pending.length + 1))
  else
    let e := { e with pending := e.pending ++ [byte] }
    if e.pending.length = 254 then e.flushBlock 0xFF else e

def push (data : List UInt8) : StreamingCobsEncoder :=
  data.foldl pushByte e

def finalize : List UInt8 :=
  (e.flushBlock (UInt8.ofNat (e.pending.length + 1))).written ++ [0x00]

theorem pushByte_eq (byte : UInt8) :
    e.pushByte byte = { written := e.written ++ (Cobs.push e.pending byte).1
                        pending := (Cobs.push e.pending byte).2 } := by
  rw [pushByte, Cobs.push]
  by_cases hbyte : byte = 0
  · rw [if_pos hbyte, if_pos hbyte]
    rfl
  · rw [if_neg hbyte, if_neg hbyte]
    dsimp only
    rw [length_append, length_singleton]
    by_cases hfull : e.pending.length = 253
    · rw [if_pos hfull, if_pos (by omega)]
      have hcode : UInt8.ofNat ((e.pending ++ [byte]).length + 1) = 0xFF := by
        rw [length_append, hfull]
        rfl
      rw [flushBlock, block, hcode]
    · rw [if_neg hfull, if_neg (by omega), append_nil]

theorem push_eq (data : List UInt8) :
    e.push data = { written := e.written ++ (Cobs.feed e.pending data).1
                    pending := (Cobs.feed e.pending data).2 } := by
  induction data generalizing e with
  | nil =>
    rw [Cobs.feed, append_nil]
    rfl
  | cons byte data ih =>
    rw [push, foldl_cons, ← push, ih, pushByte_eq, Cobs.feed, append_assoc]

end

theorem finalize_push (data : List UInt8) :
    (new.push data).finalize = standard.encode data ++ [0x00] := by
  show _ = encodeFrom [] data ++ [0x00]
  rw [push_eq, encodeFrom_eq_feed]
  rfl

/-- However the bytes come in, what goes out is one zero at the end and before it a code for
them.  The open block never fills the buffer, so the index and the count stay in range. -/
theorem streaming_faithful (calls : List (List UInt8)) :
    (calls.foldl push new).pending.length < 254 ∧
      ∃ code, (calls.foldl push new).finalize = code ++ [0x00] ∧ 0 ∉ code ∧
        standard.decode code = some calls.flatten := by
  have hpush : calls.foldl push new = new.push calls.flatten := foldl_flatten.symm
  rw [hpush]
  refine ⟨?_, standard.encode calls.flatten, finalize_push _, standard.zero_notMem_encode _,
    standard.decode_encode _⟩
  rw [push_eq]
  exact Nat.lt_succ_of_le (length_feed_le (show new.pending.length ≤ 253 by decide) _)

end StreamingCobsEncoder

/-- What `deliver_reply` puts on the line. -/
def deliverReply (data : List UInt8) : List UInt8 :=
  ((StreamingCobsEncoder.new.push [typeIpcReply]).push data).finalize

theorem deliverReply_eq (data : List UInt8) :
    deliverReply data = standard.encode (typeIpcReply :: data) ++ [0x00] :=
  StreamingCobsEncoder.finalize_push (typeIpcReply :: data)

/-! ## Ticks

A read is its bytes one by one. -/

inductive Tick where
  | byte (now : Nat) (byte : UInt8)
  | sweep (now : Nat)

def Tick.byte? : Tick → Option UInt8
  | .byte _ b => some b
  | .sweep _ => none

def Input.ticks : Input → List Tick
  | read now data => data.map (.byte now)
  | sweep now => [.sweep now]

section Reader

variable {L : Layout} {cobs : Cobs} {r : Reader}

def Reader.tick (L : Layout) (cobs : Cobs) (r : Reader) : Tick → Except Panic Reader
  | .byte now byte => r.byte L cobs now byte
  | .sweep now => .ok (r.sweep now)

def Reader.ticks (L : Layout) (cobs : Cobs) (r : Reader) : List Tick → Except Panic Reader
  | [] => .ok r
  | tick :: ticks => (r.tick L cobs tick).bind fun r => r.ticks L cobs ticks

theorem ticks_append (first rest : List Tick) : r.ticks L cobs (first ++ rest) =
    (r.ticks L cobs first).bind fun r => r.ticks L cobs rest := by
  induction first generalizing r with
  | nil => rfl
  | cons tick first ih =>
    rw [cons_append, ticks, ticks]
    cases r.tick L cobs tick with
    | error panic => rfl
    | ok r => exact ih

theorem ticks_singleton (tick : Tick) : r.ticks L cobs [tick] = r.tick L cobs tick := by
  rw [ticks]
  cases r.tick L cobs tick with
  | error panic => rfl
  | ok r => rfl

theorem ticks_bytes (now : Nat) (data : List UInt8) :
    r.ticks L cobs (data.map (.byte now)) = r.bytes L cobs (data.map (now, ·)) := by
  induction data generalizing r with
  | nil => rfl
  | cons byte data ih =>
    exact congrArg _ (funext fun r => ih)

theorem run_eq_ticks {inputs : List Input} (h : ∀ now, .read now [] ∉ inputs) :
    r.run L cobs inputs = r.ticks L cobs (inputs.flatMap Input.ticks) := by
  induction inputs generalizing r with
  | nil => rfl
  | cons input inputs ih =>
    have hrest : ∀ now, .read now [] ∉ inputs := fun now hmem =>
      h now (mem_cons_of_mem _ hmem)
    rw [flatMap_cons, ticks_append]
    cases input with
    | read now data =>
      have hne : data ≠ [] := fun hnil => h now (hnil ▸ mem_cons_self)
      rw [run, if_neg hne, Input.ticks, ticks_bytes]
      exact congrArg _ (funext fun r => ih hrest)
    | sweep now => exact ih hrest

/-! ## Two readers side by side -/

def Event.reply? : Event → Option (List UInt8)
  | .ipcReply frameBytes => some frameBytes
  | _ => none

/-- The calls of `process_ipc_reply`. -/
def replies (sink : List Event) : List (List UInt8) := sink.filterMap Event.reply?

def others (sink : List Event) : List Event := sink.filter fun event => event.reply?.isNone

/-- The two have the same streams, and the first has these replies between the events of the
second. -/
structure Level (r r' : Reader) (done : List (List UInt8)) : Prop where
  streams : r.streams = r'.streams
  others : others r.sink = r'.sink
  replies : replies r.sink = done

variable {r' : Reader} {done : List (List UInt8)}

theorem Level.emit (h : Level r r' done) {events : List Event}
    (hevents : ∀ event ∈ events, event.reply? = none)
    (streams : AList fun _ : UInt64 => StreamState) :
    Level { r with streams, sink := r.sink ++ events }
      { r' with streams, sink := r'.sink ++ events } done := by
  refine ⟨rfl, ?_, ?_⟩
  · show Log.others (r.sink ++ events) = r'.sink ++ events
    rw [Log.others, filter_append, ← Log.others, h.others]
    refine congrArg _ (filter_eq_self.mpr fun event hevent => ?_)
    rw [hevents event hevent]
    rfl
  · show Log.replies (r.sink ++ events) = done
    rw [Log.replies, filterMap_append, ← Log.replies, h.replies, filterMap_eq_nil_iff.mpr hevents,
      append_nil]

theorem reply?_structured (s : StreamState) (truncated : Bool) :
    ∀ event ∈ s.structured truncated, event.reply? = none := by
  grind [structured, Event.reply?]

theorem reply?_finish (s : StreamState) : ∀ event ∈ s.finish, event.reply? = none := by
  rw [finish]
  split
  · simp [Event.reply?]
  · exact reply?_structured s false

theorem sweep_eq (r : Reader) (now : Nat) : r.sweep now = { r with
      streams := (r.stale now).foldl (fun streams entry => streams.erase entry.1) r.streams
      sink := r.sink ++ (r.stale now).flatMap fun entry => entry.2.timedOut entry.1 now } := by
  rw [sweep]
  generalize r.stale now = stale
  induction stale generalizing r with
  | nil => simp
  | cons entry stale ih =>
    rw [foldl_cons, ih, foldl_cons, flatMap_cons, append_assoc]

theorem Level.sweep (h : Level r r' done) (now : Nat) :
    Level (r.sweep now) (r'.sweep now) done := by
  have hstale : r.stale now = r'.stale now := by rw [stale, h.streams, stale]
  rw [sweep_eq r, sweep_eq r', hstale, h.streams]
  refine h.emit (fun event hevent => ?_) _
  obtain ⟨entry, _, hentry⟩ := mem_flatMap.mp hevent
  rcases mem_cons.mp hentry with rfl | hmem
  · rfl
  · exact reply?_structured _ _ event hmem

/-! ## Up to a delimiter -/

/-- Without the bytes that are marked. -/
def strip : List Bool → List Tick → List Tick
  | _, [] => []
  | mask, .sweep now :: ticks => .sweep now :: strip mask ticks
  | [], .byte now b :: ticks => .byte now b :: strip [] ticks
  | true :: mask, .byte _ _ :: ticks => strip mask ticks
  | false :: mask, .byte now b :: ticks => .byte now b :: strip mask ticks

theorem strip_nil (ticks : List Tick) : strip [] ticks = ticks := by
  induction ticks with
  | nil => rfl
  | cons tick ticks ih =>
    cases tick with
    | sweep now => rw [strip, ih]
    | byte now b => rw [strip, ih]

theorem strip_append {mask : List Bool} {u : List Tick}
    (h : mask.length = (u.filterMap Tick.byte?).length) (mask' : List Bool) (v : List Tick) :
    strip (mask ++ mask') (u ++ v) = strip mask u ++ strip mask' v := by
  induction u generalizing mask with
  | nil =>
    rw [length_eq_zero_iff.mp h]
    rfl
  | cons tick u ih =>
    cases tick with
    | sweep now => rw [cons_append, strip, ih h, strip, cons_append]
    | byte now b =>
      cases mask with
      | nil => cases h
      | cons drop mask =>
        have hrest := ih (Nat.succ.inj h)
        cases drop with
        | true => exact hrest
        | false => exact congrArg _ hrest

theorem sweep_cobsBuf (now : Nat) : (r.sweep now).cobsBuf = r.cobsBuf := by rw [sweep_eq]

/-- What a reader has of a chunk. -/
def Reader.chunk (r : Reader) : List UInt8 × Option Nat := (r.cobsBuf, r.chunkStart)

/-- A byte of a chunk that still has room. -/
def Reader.took (r : Reader) (now : Nat) (b : UInt8) : Reader :=
  { r with
    cobsBuf := r.cobsBuf ++ [b]
    chunkStart := if r.cobsBuf = [] then some now else r.chunkStart }

theorem tick_byte {b : UInt8} (hb : b ≠ 0) (hlen : r.cobsBuf.length < 300) (now : Nat) :
    r.tick L cobs (.byte now b) = .ok (r.took now b) := by
  rw [tick, byte, if_neg hb, collect_eq now b hlen]
  rfl

theorem chunk_sweep (now : Nat) : (r.sweep now).chunk = r.chunk := by
  rw [sweep_eq]
  rfl

theorem chunk_took (h : r'.chunk = r.chunk) (now : Nat) (b : UInt8) :
    (r'.took now b).chunk = (r.took now b).chunk := by
  grind [chunk, took]

/-- The second reader gets the byte too, or does not. -/
theorem Level.byte (L : Layout) (cobs : Cobs) (drop : Bool) (h : Level r r' done)
    (hsame : drop = false → r'.chunk = r.chunk) {b : UInt8} (hb : b ≠ 0)
    (hlen : r.cobsBuf.length < 300) (now : Nat) :
    ∃ t', Level (r.took now b) t' done ∧ (drop = false → t'.chunk = (r.took now b).chunk) ∧
      (drop = true → t'.chunk = r'.chunk) ∧
      ∀ mask u, r'.ticks L cobs (strip (drop :: mask) (.byte now b :: u)) =
        t'.ticks L cobs (strip mask u) := by
  cases drop with
  | true =>
    refine ⟨r', ⟨h.streams, h.others, h.replies⟩, fun hfalse => ?_, fun _ => rfl, fun _ _ => rfl⟩
    cases hfalse
  | false =>
    have hchunk := hsame rfl
    have hbuf : r'.cobsBuf = r.cobsBuf := congrArg fst hchunk
    refine ⟨r'.took now b, ⟨h.streams, h.others, h.replies⟩, fun _ => chunk_took hchunk now b,
      fun htrue => ?_, fun mask u => ?_⟩
    · cases htrue
    · rw [strip, ticks, tick_byte hb (hbuf ▸ hlen)]
      rfl

/-- The second reader gets the bytes of the chunk too, or the sweeps only. -/
theorem Level.collect (L : Layout) (cobs : Cobs) (drop : Bool) {u : List Tick} (h : Level r r' done)
    (hsame : drop = false → r'.chunk = r.chunk) (hzero : 0 ∉ u.filterMap Tick.byte?)
    (hlen : r.cobsBuf.length + (u.filterMap Tick.byte?).length ≤ 300) :
    ∃ s s', r.ticks L cobs u = .ok s ∧
      r'.ticks L cobs (strip (replicate (u.filterMap Tick.byte?).length drop) u) = .ok s' ∧
      Level s s' done ∧ s.cobsBuf = r.cobsBuf ++ u.filterMap Tick.byte? ∧
      (drop = false → s'.chunk = s.chunk) ∧ (drop = true → s'.chunk = r'.chunk) := by
  induction u generalizing r r' with
  | nil => exact ⟨r, r', rfl, rfl, h, (append_nil _).symm, hsame, fun _ => rfl⟩
  | cons tick u ih =>
    cases tick with
    | sweep now =>
      obtain ⟨s, s', hs, hs', hlevel, hbuf, hkept, hdropped⟩ := ih (h.sweep now)
        (by rw [chunk_sweep, chunk_sweep]; exact hsame) hzero
        (by rw [sweep_cobsBuf]; exact hlen)
      rw [sweep_cobsBuf] at hbuf
      rw [chunk_sweep] at hdropped
      exact ⟨s, s', hs, hs', hlevel, hbuf, hkept, hdropped⟩
    | byte now b =>
      have hb : b ≠ 0 := fun hb => hzero (hb ▸ mem_cons_self)
      have hroom : r.cobsBuf.length + ((u.filterMap Tick.byte?).length + 1) ≤ 300 := hlen
      obtain ⟨t', hlevel', hkept', hdropped', hticks'⟩ :=
        h.byte L cobs drop hsame hb (by omega) now
      obtain ⟨s, s', hs, hs', hlevel, hbuf, hkept, hdropped⟩ := ih hlevel' hkept'
        (fun hmem => hzero (mem_cons_of_mem _ hmem))
        (by show (r.cobsBuf ++ [b]).length + _ ≤ 300; rw [length_append]; simp; omega)
      refine ⟨s, s', ?_, ?_, hlevel, ?_, hkept, fun hdrop => ?_⟩
      · rw [ticks, tick_byte hb (by omega)]
        exact hs
      · rw [← hs', ← hticks']
        rfl
      · rw [hbuf]
        exact append_assoc _ _ _
      · rw [hdropped hdrop, hdropped' hdrop]

/-! ## Chunks -/

/-- Both panic, or both are between two chunks. -/
inductive Alike (done : List (List UInt8)) : Except Panic Reader → Except Panic Reader → Prop
  | ok {r r' : Reader} (hlevel : Level r r' done) (hchunk : r.chunk = ([], none))
      (hchunk' : r'.chunk = ([], none)) : Alike done (.ok r) (.ok r')
  | error (panic : Panic) : Alike done (.error panic) (.error panic)

theorem tick_delimiter {raw : List UInt8} (hne : r.cobsBuf ≠ [])
    (hdecode : cobs.decode r.cobsBuf = some raw) (now : Nat) : r.tick L cobs (.byte now 0) =
      (r.processChunk L raw (r.chunkStart.getD now)).map Reader.clear := by
  rw [tick, byte, if_pos rfl, delimit, if_neg hne, decodeChunk, hdecode]

theorem Level.store (h : Level r r' done) (id : UInt64) (fed : StreamState × Bool) :
    Level (r.store id fed) (r'.store id fed) done := by
  rw [Reader.store, Reader.store, h.streams]
  split
  · exact h.emit (reply?_finish fed.1) _
  · exact ⟨rfl, h.others, h.replies⟩

theorem Level.fragment (h : Level r r' done) (id : UInt64) (data : List UInt8) (started : Nat) :
    Alike done ((r.processChunk L (rawChunk id data) started).map Reader.clear)
      ((r'.processChunk L (rawChunk id data) started).map Reader.clear) := by
  have hclear : ∀ {s s' : Reader}, Level s s' done → Alike done (.ok s.clear) (.ok s'.clear) :=
    fun hlevel => .ok ⟨hlevel.streams, hlevel.others, hlevel.replies⟩ rfl rfl
  obtain ⟨body, hbody⟩ : ∃ body, rawChunk id data = typeLogFragment :: body := ⟨_, rfl⟩
  rw [hbody, processChunk, processChunk, if_pos rfl]
  split
  · exact hclear h
  · dsimp only
    split
    · exact hclear h
    · rw [stream, h.streams, stream]
      cases feedData L _ _ with
      | error panic => exact .error panic
      | ok fed => exact hclear (h.store _ fed)

theorem Level.reply (h : Level r r' done) (frame : List UInt8) :
    Level { r with sink := r.sink ++ [.ipcReply frame] } r' (done ++ [frame]) := by
  refine ⟨h.streams, ?_, ?_⟩
  · show Log.others (r.sink ++ [.ipcReply frame]) = r'.sink
    rw [Log.others, filter_append, ← Log.others, h.others]
    exact append_nil _
  · show Log.replies (r.sink ++ [.ipcReply frame]) = done ++ [frame]
    rw [Log.replies, filterMap_append, ← Log.replies, h.replies]
    rfl

/-! ## Traffic -/

/-- What is on the line between two delimiters. -/
inductive Sent where
  | reply (frame : List UInt8)
  | fragment (streamId : UInt64) (data : List UInt8) (hmax : data.length ≤ 255)

def Sent.frame? : Sent → Option (List UInt8)
  | reply frame => some frame
  | fragment _ _ _ => none

def Sent.wire (cobs : Cobs) : Sent → List UInt8
  | reply frame => deliverReply frame
  | fragment streamId data _ => cobs.encode (rawChunk streamId data) ++ [0x00]

/-- The bytes of a reply are marked. -/
def Sent.mask (cobs : Cobs) (sent : Sent) : List Bool :=
  replicate (sent.wire cobs).length sent.frame?.isSome

/-- The host has room for the chunk. -/
def Sent.Fits : Sent → Prop
  | reply frame => (standard.encode (typeIpcReply :: frame)).length ≤ 300
  | fragment _ _ _ => True

theorem fits_of_length_le {frame : List UInt8} (h : frame.length ≤ 297) :
    (Sent.reply frame).Fits := by
  have hlen := standard.length_encode_le (typeIpcReply :: frame)
  grind [Sent.Fits]

def Sent.raw : Sent → List UInt8
  | reply frame => typeIpcReply :: frame
  | fragment streamId data _ => rawChunk streamId data

def Sent.code (cobs : Cobs) : Sent → List UInt8
  | reply frame => standard.encode (typeIpcReply :: frame)
  | fragment streamId data _ => cobs.encode (rawChunk streamId data)

theorem wire_eq (cobs : Cobs) (sent : Sent) : sent.wire cobs = sent.code cobs ++ [0x00] := by
  cases sent with
  | reply frame => exact deliverReply_eq frame
  | fragment streamId data hmax => rfl

theorem Sent.Fits.length_le {sent : Sent} (h : sent.Fits) : (sent.code cobs).length ≤ 300 := by
  cases sent with
  | reply frame => exact h
  | fragment streamId data hmax =>
    have hlen := cobs.length_encode_le (rawChunk streamId data)
    rw [length_rawChunk] at hlen
    show (cobs.encode (rawChunk streamId data)).length ≤ 300
    omega

section Reads

variable (hstandard : ∀ raw, cobs.decode (standard.encode raw) = some raw)
include hstandard

theorem code_spec (sent : Sent) : sent.code cobs ≠ [] ∧ 0 ∉ sent.code cobs ∧
    cobs.decode (sent.code cobs) = some sent.raw := by
  cases sent with
  | reply frame =>
    exact ⟨standard.encode_ne_nil _, standard.zero_notMem_encode _, hstandard _⟩
  | fragment streamId data hmax =>
    exact ⟨cobs.encode_ne_nil _, cobs.zero_notMem_encode _, cobs.decode_encode _⟩

/-- The delimiter, for a first reader that has the chunk and a second one that has it too or has
nothing. -/
theorem Level.delimit {sent : Sent} (h : Level r r' done) (hbuf : r.cobsBuf = sent.code cobs)
    (hkept : sent.frame?.isSome = false → r'.chunk = r.chunk)
    (hdropped : sent.frame?.isSome = true → r'.chunk = ([], none)) (now : Nat) :
    Alike (done ++ sent.frame?.toList) (r.ticks L cobs [.byte now 0x00])
      (r'.ticks L cobs (strip [sent.frame?.isSome] [.byte now 0x00])) := by
  obtain ⟨hne, -, hdecode⟩ := code_spec hstandard sent
  rw [← hbuf] at hne hdecode
  rw [ticks_singleton, tick_delimiter hne hdecode]
  cases sent with
  | reply frame =>
    have hreply := h.reply frame
    exact .ok ⟨hreply.streams, hreply.others, hreply.replies⟩ rfl (hdropped rfl)
  | fragment streamId data hmax =>
    have hsame : r'.cobsBuf = r.cobsBuf := congrArg fst (hkept rfl)
    have hstart : r'.chunkStart = r.chunkStart := congrArg snd (hkept rfl)
    show Alike (done ++ []) _ (r'.ticks L cobs [.byte now 0x00])
    rw [← hsame] at hne hdecode
    rw [ticks_singleton, tick_delimiter hne hdecode, hstart, append_nil]
    exact h.fragment streamId data _

/-- A chunk for a reader between two chunks. -/
theorem Level.sent {sent : Sent} (hfits : sent.Fits) {u : List Tick} {now : Nat}
    (h : Level r r' done) (hchunk : r.chunk = ([], none)) (hchunk' : r'.chunk = ([], none))
    (hu : u.filterMap Tick.byte? = sent.code cobs) :
    Alike (done ++ sent.frame?.toList) (r.ticks L cobs (u ++ [.byte now 0x00]))
      (r'.ticks L cobs (strip (sent.mask cobs) (u ++ [.byte now 0x00]))) := by
  have hbuf : r.cobsBuf = [] := congrArg fst hchunk
  obtain ⟨s, s', hs, hs', hlevel, hcollected, hkept, hdropped⟩ :=
    h.collect L cobs (u := u) sent.frame?.isSome
      (fun _ => hchunk'.trans hchunk.symm)
      (by rw [hu]; exact (code_spec hstandard sent).2.1)
      (by rw [hbuf, hu]; exact (Nat.zero_add _).trans_le hfits.length_le)
  rw [hbuf, hu] at hcollected
  have hmask : sent.mask cobs = replicate (u.filterMap Tick.byte?).length sent.frame?.isSome ++
      [sent.frame?.isSome] := by
    rw [Sent.mask, wire_eq, hu, length_append, replicate_add]
    rfl
  rw [hmask, strip_append (by rw [length_replicate]), ticks_append, ticks_append, hs, hs']
  exact hlevel.delimit hstandard hcollected hkept (fun hdrop => (hdropped hdrop).trans hchunk') now

omit hstandard in
theorem Alike.bind {next : List (List UInt8)} {x y : Except Panic Reader}
    {f g : Reader → Except Panic Reader} (h : Alike done x y)
    (hnext : ∀ r r', Level r r' done → r.chunk = ([], none) → r'.chunk = ([], none) →
      Alike next (f r) (g r')) : Alike next (x.bind f) (y.bind g) := by
  cases h with
  | ok hlevel hchunk hchunk' => exact hnext _ _ hlevel hchunk hchunk'
  | error panic => exact .error panic

omit hstandard in
/-- A tick of the line ends the first chunk. -/
theorem exists_of_wire {ticks : List Tick} {sent : Sent} {rest : List UInt8}
    (h : ticks.filterMap Tick.byte? = sent.wire cobs ++ rest) : ∃ u now v,
      ticks = (u ++ [.byte now 0x00]) ++ v ∧
      u.filterMap Tick.byte? = sent.code cobs ∧ v.filterMap Tick.byte? = rest := by
  rw [wire_eq, append_assoc] at h
  obtain ⟨u, w, rfl, hu, hw⟩ := filterMap_eq_append_iff.mp h
  obtain ⟨sweeps, tick, v, rfl, hsweeps, htick, hv⟩ := filterMap_eq_cons_iff.mp hw
  cases tick with
  | sweep now => cases htick
  | byte now b =>
    cases htick
    refine ⟨u ++ sweeps, now, v, ?_, ?_, hv⟩
    · rw [append_assoc, append_assoc, singleton_append]
    · rw [filterMap_append, filterMap_eq_nil_iff.mpr hsweeps, append_nil, hu]

omit hstandard in
theorem Level.sweeps {ticks : List Tick} (h : Level r r' done) (hchunk : r.chunk = ([], none))
    (hchunk' : r'.chunk = ([], none)) (hticks : ticks.filterMap Tick.byte? = []) :
    Alike done (r.ticks L cobs ticks) (r'.ticks L cobs ticks) := by
  induction ticks generalizing r r' with
  | nil => exact .ok h hchunk hchunk'
  | cons tick ticks ih =>
    cases tick with
    | byte now b => cases hticks
    | sweep now =>
      exact ih (h.sweep now) ((chunk_sweep now).trans hchunk) ((chunk_sweep now).trans hchunk')
        hticks

theorem Level.ticks {traffic : List Sent} {ticks : List Tick} (h : Level r r' done)
    (hchunk : r.chunk = ([], none)) (hchunk' : r'.chunk = ([], none))
    (hfits : ∀ sent ∈ traffic, sent.Fits)
    (hticks : ticks.filterMap Tick.byte? = traffic.flatMap (Sent.wire cobs)) :
    Alike (done ++ traffic.filterMap Sent.frame?) (r.ticks L cobs ticks)
      (r'.ticks L cobs (strip (traffic.flatMap (Sent.mask cobs)) ticks)) := by
  induction traffic generalizing r r' done ticks with
  | nil =>
    rw [flatMap_nil, strip_nil, filterMap_nil, append_nil]
    exact h.sweeps hchunk hchunk' hticks
  | cons sent traffic ih =>
    obtain ⟨hfirst, hrest⟩ := forall_mem_cons.mp hfits
    obtain ⟨u, now, v, rfl, hu, hv⟩ := exists_of_wire hticks
    have hmask : (sent.mask cobs).length =
        ((u ++ [Tick.byte now 0x00]).filterMap Tick.byte?).length := by
      rw [filterMap_append, hu, Sent.mask, length_replicate, wire_eq]
      rfl
    have hframes : (sent :: traffic).filterMap Sent.frame? =
        sent.frame?.toList ++ traffic.filterMap Sent.frame? := by
      rw [filterMap_cons]
      cases sent.frame? <;> rfl
    rw [flatMap_cons, strip_append hmask, ticks_append _ v, ticks_append (strip _ _), hframes,
      ← append_assoc]
    exact (h.sent hstandard hfirst hchunk hchunk' hu).bind fun r r' hlevel hchunk hchunk' =>
      ih hlevel hchunk hchunk' hrest hv

end Reads

theorem ticks_byte? (inputs : List Input) :
    (inputs.flatMap Input.ticks).filterMap Tick.byte? = inputs.flatMap Input.bytes := by
  rw [filterMap_flatMap]
  refine congrArg (flatMap · inputs) (funext fun input => ?_)
  cases input with
  | read now data => simp [Input.ticks, Input.bytes, Tick.byte?, Function.comp_def]
  | sweep now => rfl

end Reader

/-- Whatever the reads and the sweeps, every reply is passed on once and as it is, if it fits and
the decoder reads the standard code.  The logs and the streams are those of a reader that does not
see the bytes of the replies; it panics where this one does. -/
theorem replies_arrive (L : Layout) (cobs : Cobs)
    (hstandard : ∀ raw, cobs.decode (standard.encode raw) = some raw) (traffic : List Sent)
    (inputs : List Input) (hfits : ∀ sent ∈ traffic, sent.Fits)
    (hreads : ∀ now, .read now [] ∉ inputs)
    (hinputs : inputs.flatMap Input.bytes = traffic.flatMap (Sent.wire cobs)) :
    (Reader.new.run L cobs inputs).map (fun r => (replies r.sink, others r.sink, r.streams)) =
      (Reader.new.ticks L cobs
        (strip (traffic.flatMap (Sent.mask cobs)) (inputs.flatMap Input.ticks))).map fun r =>
          (traffic.filterMap Sent.frame?, r.sink, r.streams) := by
  have hnew : Level .new .new [] := ⟨rfl, rfl, rfl⟩
  have halike := hnew.ticks (L := L) hstandard rfl rfl hfits ((ticks_byte? inputs).trans hinputs)
  rw [run_eq_ticks hreads]
  generalize new.ticks L cobs (inputs.flatMap Input.ticks) = x at halike ⊢
  generalize new.ticks L cobs _ = y at halike ⊢
  cases halike with
  | @ok r r' hlevel _ _ =>
    show Except.ok (replies r.sink, others r.sink, r.streams) = .ok (_, r'.sink, r'.streams)
    rw [hlevel.replies, hlevel.others, hlevel.streams, nil_append]
  | error panic => rfl

/-- A fragment and a reply, which comes in two reads with a sweep before each of them. -/
def sampleTraffic : List Sent := [.fragment 1 [5] (by decide), .reply [9, 7]]

def sampleReads : List Input :=
  [.read 0 ((Sent.fragment 1 [5] (by decide)).wire .standard), .sweep 1, .read 2 [4, 2, 9],
    .sweep 3, .read 4 [7, 0]]

theorem replies_arrive_sample :
    (Reader.new.run sampleLayout .standard sampleReads).map
        (fun r => (replies r.sink, others r.sink, r.streams)) =
      (Reader.new.ticks sampleLayout .standard (strip (sampleTraffic.flatMap (Sent.mask .standard))
        (sampleReads.flatMap Input.ticks))).map fun r => ([[9, 7]], r.sink, r.streams) := by
  refine replies_arrive sampleLayout standard standard.decode_encode sampleTraffic sampleReads
    ?_ ?_ rfl
  · intro sent hsent
    rcases mem_pair.mp hsent with rfl | rfl
    · trivial
    · exact fits_of_length_le (by decide)
  · simp [sampleReads, Sent.wire]

/-- The host takes the end of a reply of 301 bytes for another reply. -/
theorem long_reply_lost :
    (Reader.new.run sampleLayout .standard
      [.read 0 (deliverReply (List.replicate 298 1 ++ [0, 2, 7]))]).toOption.map
        (fun r => replies r.sink) = some [[7]] := by
  decide +kernel

end Rcard.Log
