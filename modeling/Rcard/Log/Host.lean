/-
The reader of the serial port on the host (`host/serial/src/usart2.rs`).

Bytes collect up to a zero byte and are then decoded to a chunk.  A chunk with a log
fragment goes to its stream, which has a buffer for the metadata and then a decoder.
The end-of-stream tag removes the stream and emits its entry.  A sweep removes the
streams that have been idle for too long.

Time is a number of nanoseconds.  One read is handled at one time; a read in which
time passes is a sequence of shorter reads.  Events go to the sink in order.
-/
import Mathlib.Data.List.AList
import Rcard.Lib.Cobs
import Rcard.Log.Decoder
import Rcard.Log.Wire

namespace Rcard.Log

/-! ## Streams -/

structure StreamState where
  metaBuf : List UInt8
  metaPos : Nat
  metadata : Option LogMetadata
  metaFailed : Bool
  decoder : Decoder
  values : List OwnedValue
  start : Nat
  lastActivity : Nat
  bytesSeen : Nat

def StreamState.new (start : Nat) : StreamState where
  metaBuf := List.replicate metadataSize 0
  metaPos := 0
  metadata := none
  metaFailed := false
  decoder := .new
  values := []
  start := start
  lastActivity := start
  bytesSeen := 0

/-- Where the reader would panic: in the decoder, or in `with_capacity`. -/
inductive Panic where
  | decoder (fault : Fault)
  | capacity

instance (L : Layout) (r : Request) : Decidable (r.Granted L) :=
  inferInstanceAs (Decidable (r.size L ≤ isizeMax))

/-- What a stream does with a result of its decoder. -/
def StreamState.accept (s : StreamState) : FeedResult → StreamState × Bool
  | .done value => ({ s with values := s.values ++ [value] }, false)
  | .endOfStream => (s, true)
  | _ => (s, false)

section Reader

variable (L : Layout)

/-- `feed_byte`.  The result says if this byte ends the stream. -/
def StreamState.feedByte (s : StreamState) (byte : UInt8) : Except Panic (StreamState × Bool) :=
  if s.metaPos < metadataSize then
    let s := { s with metaBuf := s.metaBuf.set s.metaPos byte, metaPos := s.metaPos + 1 }
    if s.metaPos = metadataSize then
      match LogMetadata.tryReadFromBytes s.metaBuf with
      | some metadata => .ok ({ s with metadata := some metadata }, false)
      | none => .ok ({ s with metaFailed := true }, false)
    else .ok (s, false)
  else
    match s.decoder.feed [byte] with
    | .error fault => .error (.decoder fault)
    | .ok call =>
      if ∀ r ∈ call.requests, r.Granted L then
        .ok ({ s with decoder := call.decoder }.accept call.result)
      else .error .capacity

/-- The loop of `process_chunk` over the bytes of a fragment. -/
def StreamState.feedData (s : StreamState) : List UInt8 → Except Panic (StreamState × Bool)
  | [] => .ok (s, false)
  | byte :: data =>
    (s.feedByte L byte).bind fun fed => if fed.2 then .ok fed else fed.1.feedData data

structure LogEntry where
  level : LogLevel
  timestamp : UInt64
  source : UInt16
  logId : UInt64
  logSpecies : UInt64
  values : List OwnedValue
  truncated : Bool

def LogMetadata.entry (m : LogMetadata) (values : List OwnedValue) (truncated : Bool) :
    LogEntry where
  level := m.level
  timestamp := m.timestamp
  source := m.source
  logId := m.logId
  logSpecies := m.logSpecies
  values := values
  truncated := truncated

inductive SerialError where
  | portClosed
  | cobsDecode (data : List UInt8)
  | cobsOverflow (data : List UInt8)
  | logMetadata
  | streamTimeout (streamId logId : UInt64) (bytesDecoded ageMs : Nat)

/-- What goes to the sink.  `ipcReply` is a call of `process_ipc_reply`. -/
inductive Event where
  | structuredAt (entry : LogEntry) (start : Nat)
  | error (e : SerialError)
  | ipcReply (frameBytes : List UInt8)

def StreamState.structured (s : StreamState) (truncated : Bool) : List Event :=
  match s.metadata with
  | some m => [.structuredAt (m.entry s.values truncated) s.start]
  | none => []

/-- The end of a stream that was not cut short. -/
def StreamState.finish (s : StreamState) : List Event :=
  if s.metaFailed then [.error .logMetadata] else s.structured false

/-! ## The reader -/

structure Reader where
  cobsBuf : List UInt8
  chunkStart : Option Nat
  streams : AList fun _ : UInt64 => StreamState
  sink : List Event

def Reader.new : Reader :=
  { cobsBuf := [], chunkStart := none, streams := ∅, sink := [] }

def Reader.clear (r : Reader) : Reader := { r with cobsBuf := [], chunkStart := none }

/-- The stream of a fragment, made if it is the first one. -/
def Reader.stream (r : Reader) (id : UInt64) (chunkStart length : Nat) : StreamState :=
  let s := (r.streams.lookup id).getD (.new chunkStart)
  { s with lastActivity := chunkStart, bytesSeen := s.bytesSeen + length }

/-- A stream that has ended is removed, and its entry is emitted. -/
def Reader.store (r : Reader) (id : UInt64) (fed : StreamState × Bool) : Reader :=
  if fed.2 then { r with streams := r.streams.erase id, sink := r.sink ++ fed.1.finish }
  else { r with streams := r.streams.insert id fed.1 }

def Reader.processChunk (r : Reader) (chunk : List UInt8) (chunkStart : Nat) :
    Except Panic Reader :=
  match chunk with
  | [] => .ok r
  | type :: body =>
    if type = typeLogFragment then
      if chunk.length < 10 then .ok r
      else
        let id := UInt64.ofNat (leAt chunk 1 8)
        let length := leAt chunk 9 1
        if length = 0 ∨ chunk.length < 10 + length then .ok r
        else
          let data := (chunk.drop 10).take length
          ((r.stream id chunkStart data.length).feedData L data).map (r.store id)
    else if type = typeIpcReply then .ok { r with sink := r.sink ++ [.ipcReply body] }
    else .ok r

variable (cobs : Cobs)

def Reader.decodeChunk (r : Reader) (started : Nat) : Except Panic Reader :=
  match cobs.decode r.cobsBuf with
  | some chunk => r.processChunk L chunk started
  | none => .ok { r with sink := r.sink ++ [.error (.cobsDecode r.cobsBuf)] }

/-- A zero byte: what was collected is a chunk. -/
def Reader.delimit (r : Reader) (now : Nat) : Except Panic Reader :=
  if r.cobsBuf = [] then .ok { r with chunkStart := none }
  else (r.decodeChunk L cobs (r.chunkStart.getD now)).map Reader.clear

def Reader.collect (r : Reader) (now : Nat) (byte : UInt8) : Reader :=
  let cobsBuf := r.cobsBuf ++ [byte]
  if cobsBuf.length > 300 then
    { r.clear with sink := r.sink ++ [.error (.cobsOverflow cobsBuf)] }
  else { r with cobsBuf, chunkStart := if r.cobsBuf = [] then some now else r.chunkStart }

def Reader.byte (r : Reader) (now : Nat) (byte : UInt8) : Except Panic Reader :=
  if byte = 0 then r.delimit L cobs now else .ok (r.collect now byte)

/-- The bytes of a read. -/
def Reader.bytes (r : Reader) : List (Nat × UInt8) → Except Panic Reader
  | [] => .ok r
  | (now, byte) :: rest => (r.byte L cobs now byte).bind fun r => r.bytes rest

/-- Two seconds. -/
def streamTimeout : Nat := 2000000000

def Reader.stale (r : Reader) (now : Nat) : List (Sigma fun _ : UInt64 => StreamState) :=
  r.streams.entries.filter fun entry => streamTimeout < now - entry.2.lastActivity

def StreamState.timedOut (s : StreamState) (id : UInt64) (now : Nat) : List Event :=
  .error (.streamTimeout id ((s.metadata.map LogMetadata.logId).getD 0) s.bytesSeen
    ((now - s.start) / 1000000)) :: s.structured true

/-- `sweep_stale_streams`.  The order of the streams is that of the map. -/
def Reader.sweep (r : Reader) (now : Nat) : Reader :=
  (r.stale now).foldl (fun r entry =>
    { r with streams := r.streams.erase entry.1, sink := r.sink ++ entry.2.timedOut entry.1 now }) r

inductive Input where
  | read (now : Nat) (data : List UInt8)
  | sweep (now : Nat)

/-- `read_structured`.  A read of no bytes ends the loop. -/
def Reader.run (r : Reader) : List Input → Except Panic Reader
  | [] => .ok r
  | .read now data :: inputs =>
    if data = [] then .ok { r with sink := r.sink ++ [.error .portClosed] }
    else (r.bytes L cobs (data.map (now, ·))).bind fun r => r.run inputs
  | .sweep now :: inputs => (r.sweep now).run inputs

end Reader

end Rcard.Log
