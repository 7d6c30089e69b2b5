/-
The log decoder (`shared/log/src/decoder/mod.rs`).

The decoder takes one byte at a time.  Its state says what the next byte belongs
to, and its stack has a frame for each container that is not complete.  A value
that is complete goes into the top frame, and this may complete the container.

A step may fault where the source would panic: a count that is decremented at
zero, an index outside its array, an arm marked unreachable.  Allocations are
recorded as requests.  Only `with_capacity` is an allocation here; the stack of
frames grows by one frame at a time.
-/
import Rcard.Log.Format

namespace Rcard.Log

open List Varint

inductive DecodeError where
  | invalidTag (tag : UInt8)
  | varintOverflow
  | invalidUtf8
  | invalidChar
  deriving DecidableEq, Repr

inductive FeedResult where
  | incomplete
  | done (value : OwnedValue)
  | endOfStream
  | error (e : DecodeError)

inductive VarintPurpose where
  | unsignedValue (tag : UInt8)
  | signedValue (tag : UInt8)
  | charValue
  | stringLength
  | containerLength (tag : UInt8)
  | tupleTypeId
  | tupleFieldCount (typeId : UInt64)
  | structTypeId
  | structFieldCount (typeId : UInt64)
  | structFieldId
  deriving DecidableEq, Repr

inductive State where
  | awaitingTag
  | readingSingleByte (tag : UInt8)
  | readingVarint (acc : BitVec 128) (shift : Nat) (purpose : VarintPurpose)
  | readingFixed (buf : List UInt8) (expected got : Nat) (isF64 : Bool)
  | readingString (buf : List UInt8) (remaining : UInt64)
  | readingStackDumpHeader (buf : List UInt8) (pos : Nat)
  | readingStackDumpLength (header lenBuf : List UInt8) (pos : Nat)
  | readingStackDumpData (header buf : List UInt8) (remaining : UInt32)
  deriving DecidableEq, Repr

inductive Frame where
  | array (remaining : UInt64) (children : List OwnedValue)
  | slice (remaining : UInt64) (children : List OwnedValue)
  | tuple (typeId remaining : UInt64) (fields : List OwnedValue)
  | struct (typeId remaining currentFieldId : UInt64) (fields : List (UInt64 × OwnedValue))

/-- `Decoder`.  The top of the stack comes first. -/
structure Decoder where
  state : State
  stack : List Frame

def Decoder.new : Decoder := { state := .awaitingTag, stack := [] }

/-- Where the source panics. -/
inductive Fault where
  | underflow
  | index
  | unreachable
  deriving DecidableEq, Repr

/-- The elements a vector is made for. -/
inductive Elem where
  | byte
  | value
  /-- `(u64, OwnedValue)`. -/
  | field
  deriving DecidableEq, Repr

/-- `Vec::with_capacity(count)`. -/
structure Request where
  elem : Elem
  count : UInt64
  deriving DecidableEq, Repr

/-- The sizes of the elements, which the compiler chooses. -/
structure Layout where
  size : Elem → Nat
  byte : size .byte = 1
  pos : ∀ elem, 0 < size elem

def isizeMax : Nat := 0x7FFFFFFFFFFFFFFF

def Request.size (L : Layout) (r : Request) : Nat := r.count.toNat * L.size r.elem

/-- `with_capacity` panics above `isize::MAX`. -/
def Request.Granted (L : Layout) (r : Request) : Prop := r.size L ≤ isizeMax

/-- What one byte does. -/
structure Fed where
  decoder : Decoder
  result : FeedResult
  requests : List Request := []

abbrev Step := Except Fault Fed

/-- Take the next byte in `state`. -/
def await (stack : List Frame) (state : State) (requests : List Request) : Step :=
  .ok { decoder := { state, stack }, result := .incomplete, requests }

def awaitVarint (stack : List Frame) (purpose : VarintPurpose) : Step :=
  await stack (.readingVarint 0 0 purpose) []

/-- An error drops what was read of the value but leaves the frames. -/
def fail (stack : List Frame) (e : DecodeError) : Step :=
  .ok { decoder := { state := .awaitingTag, stack }, result := .error e }

/-- The loop of `complete_value`, over the frames that the value completes. -/
def completeValue : (stack : List Frame) → (value : OwnedValue) → Step
  | [], value => .ok { decoder := .new, result := .done value }
  | .array remaining children :: stack, value =>
    if remaining = 0 then .error .underflow
    else if remaining - 1 = 0 then completeValue stack (.array (children ++ [value]))
    else await (.array (remaining - 1) (children ++ [value]) :: stack) .awaitingTag []
  | .slice remaining children :: stack, value =>
    if remaining = 0 then .error .underflow
    else if remaining - 1 = 0 then completeValue stack (.slice (children ++ [value]))
    else await (.slice (remaining - 1) (children ++ [value]) :: stack) .awaitingTag []
  | .tuple typeId remaining fields :: stack, value =>
    if remaining = 0 then .error .underflow
    else if remaining - 1 = 0 then completeValue stack (.tuple typeId (fields ++ [value]))
    else await (.tuple typeId (remaining - 1) (fields ++ [value]) :: stack) .awaitingTag []
  | .struct typeId remaining currentFieldId fields :: stack, value =>
    if remaining = 0 then .error .underflow
    else if remaining - 1 = 0 then
      completeValue stack (.struct typeId (fields ++ [(currentFieldId, value)]))
    else
      awaitVarint
        (.struct typeId (remaining - 1) currentFieldId
          (fields ++ [(currentFieldId, value)]) :: stack)
        .structFieldId

def handleTag (stack : List Frame) (tag : UInt8) : Step :=
  if tag = tagUnit then completeValue stack .unit
  else if tag = tagBool ∨ tag = tagU8 ∨ tag = tagI8 then await stack (.readingSingleByte tag) []
  else if tag = tagU16 ∨ tag = tagU32 ∨ tag = tagU64 ∨ tag = tagU128 then
    awaitVarint stack (.unsignedValue tag)
  else if tag = tagI16 ∨ tag = tagI32 ∨ tag = tagI64 ∨ tag = tagI128 then
    awaitVarint stack (.signedValue tag)
  else if tag = tagF32 then await stack (.readingFixed (replicate 8 0) 4 0 false) []
  else if tag = tagF64 then await stack (.readingFixed (replicate 8 0) 8 0 true) []
  else if tag = tagChar then awaitVarint stack .charValue
  else if tag = tagStr then awaitVarint stack .stringLength
  else if tag = tagArray ∨ tag = tagSlice then awaitVarint stack (.containerLength tag)
  else if tag = tagTuple then awaitVarint stack .tupleTypeId
  else if tag = tagStruct then awaitVarint stack .structTypeId
  else if tag = tagStackDump then
    await stack (.readingStackDumpHeader (replicate 72 0) 0) []
  else if tag = tagEndOfStream then
    .ok { decoder := { state := .awaitingTag, stack }, result := .endOfStream }
  else fail stack (.invalidTag tag)

/-! ## Values that are complete -/

def singleByteValue (tag byte : UInt8) : Option OwnedValue :=
  if tag = tagBool then some (.bool (byte ≠ 0))
  else if tag = tagU8 then some (.u8 byte)
  else if tag = tagI8 then some (.i8 byte.toInt8)
  else none

def asU64 (raw : BitVec 128) : UInt64 := ⟨raw.setWidth 64⟩

/-- The arms of `UnsignedValue`; `none` is the unreachable one. -/
def unsignedValue (tag : UInt8) (raw : BitVec 128) : Option OwnedValue :=
  if tag = tagU16 then some (.u16 ⟨raw.setWidth 16⟩)
  else if tag = tagU32 then some (.u32 ⟨raw.setWidth 32⟩)
  else if tag = tagU64 then some (.u64 (asU64 raw))
  else if tag = tagU128 then some (.u128 raw)
  else none

def signedValue (tag : UInt8) (raw : BitVec 128) : Option OwnedValue :=
  let zz : BitVec 64 := raw.setWidth 64
  if tag = tagI16 then some (.i16 (.ofBitVec ((unzigzag zz).setWidth 16)))
  else if tag = tagI32 then some (.i32 (.ofBitVec ((unzigzag zz).setWidth 32)))
  else if tag = tagI64 then some (.i64 (.ofBitVec (unzigzag zz)))
  else if tag = tagI128 then some (.i128 (unzigzag raw))
  else none

/-- `char::from_u32`. -/
def charFromU32 (n : UInt32) : Option Char :=
  if h : n.isValidChar then some ⟨n, h⟩ else none

/-- `String::from_utf8`. -/
def stringFromUtf8 (buf : List UInt8) : Option String := String.fromUTF8? ⟨buf.toArray⟩

def u32At (header : List UInt8) (off : Nat) : UInt32 :=
  UInt32.ofNat (leNat ((header.drop off).take 4))

def stackDumpFromHeader (header stack : List UInt8) : StackDump where
  sp := u32At header 0
  stackTop := u32At header 4
  lr := u32At header 8
  pc := u32At header 12
  registers := fun i => u32At header (16 + i * 4)
  xpsr := u32At header 68
  stack := stack

/-! ## Varints -/

def setFieldId (fieldId : UInt64) : List Frame → List Frame
  | .struct typeId remaining _ fields :: stack => .struct typeId remaining fieldId fields :: stack
  | stack => stack

def handleVarintComplete (stack : List Frame) (raw : BitVec 128) : VarintPurpose → Step
  | .unsignedValue tag =>
    match unsignedValue tag raw with
    | some value => completeValue stack value
    | none => .error .unreachable
  | .signedValue tag =>
    match signedValue tag raw with
    | some value => completeValue stack value
    | none => .error .unreachable
  | .charValue =>
    match charFromU32 ⟨raw.setWidth 32⟩ with
    | some c => completeValue stack (.char c)
    | none => fail stack .invalidChar
  | .stringLength =>
    if raw = 0 then completeValue stack (.str "")
    else await stack (.readingString [] (asU64 raw)) [⟨.byte, asU64 raw⟩]
  | .containerLength tag =>
    let count := asU64 raw
    if count = 0 then completeValue stack (if tag = tagArray then .array [] else .slice [])
    else
      let frame := if tag = tagArray then Frame.array count [] else Frame.slice count []
      await (frame :: stack) .awaitingTag [⟨.value, count⟩]
  | .tupleTypeId => awaitVarint stack (.tupleFieldCount (asU64 raw))
  | .tupleFieldCount typeId =>
    let count := asU64 raw
    if count = 0 then completeValue stack (.tuple typeId [])
    else await (.tuple typeId count [] :: stack) .awaitingTag [⟨.value, count⟩]
  | .structTypeId => awaitVarint stack (.structFieldCount (asU64 raw))
  | .structFieldCount typeId =>
    let count := asU64 raw
    if count = 0 then completeValue stack (.struct typeId [])
    else
      await (.struct typeId count 0 [] :: stack) (.readingVarint 0 0 .structFieldId)
        [⟨.field, count⟩]
  | .structFieldId => await (setFieldId (asU64 raw) stack) .awaitingTag []

/-! ## Bytes -/

/-- `feed_byte`. -/
def Decoder.feedByte (d : Decoder) (byte : UInt8) : Step :=
  match d.state with
  | .awaitingTag => handleTag d.stack byte
  | .readingSingleByte tag =>
    match singleByteValue tag byte with
    | some value => completeValue d.stack value
    | none => fail d.stack (.invalidTag tag)
  | .readingVarint acc shift purpose =>
    if shift ≥ 128 then fail d.stack .varintOverflow
    else
      let acc := accumulate acc shift byte
      if byte &&& 0x80 ≠ 0 then await d.stack (.readingVarint acc (shift + 7) purpose) []
      else handleVarintComplete d.stack acc purpose
  | .readingFixed buf expected got isF64 =>
    if buf.length ≤ got then .error .index
    else
      let buf := buf.set got byte
      if got + 1 < expected then await d.stack (.readingFixed buf expected (got + 1) isF64) []
      else if isF64 then completeValue d.stack (.f64 (UInt64.ofNat (leNat buf)))
      else completeValue d.stack (.f32 (UInt32.ofNat (leNat (buf.take 4))))
  | .readingString buf remaining =>
    let buf := buf ++ [byte]
    if remaining = 0 then .error .underflow
    else if remaining - 1 > 0 then await d.stack (.readingString buf (remaining - 1)) []
    else
      match stringFromUtf8 buf with
      | some s => completeValue d.stack (.str s)
      | none => fail d.stack .invalidUtf8
  | .readingStackDumpHeader buf pos =>
    if buf.length ≤ pos then .error .index
    else
      let buf := buf.set pos byte
      if pos + 1 < 72 then await d.stack (.readingStackDumpHeader buf (pos + 1)) []
      else await d.stack (.readingStackDumpLength buf (replicate 4 0) 0) []
  | .readingStackDumpLength header lenBuf pos =>
    if lenBuf.length ≤ pos then .error .index
    else
      let lenBuf := lenBuf.set pos byte
      if pos + 1 < 4 then await d.stack (.readingStackDumpLength header lenBuf (pos + 1)) []
      else
        let remaining := UInt32.ofNat (leNat lenBuf)
        if remaining = 0 then completeValue d.stack (.stackDump (stackDumpFromHeader header []))
        else
          await d.stack (.readingStackDumpData header [] remaining) [⟨.byte, remaining.toUInt64⟩]
  | .readingStackDumpData header buf remaining =>
    let buf := buf ++ [byte]
    if remaining = 0 then .error .underflow
    else if remaining - 1 > 0 then
      await d.stack (.readingStackDumpData header buf (remaining - 1)) []
    else completeValue d.stack (.stackDump (stackDumpFromHeader header buf))

/-- `P` holds of every step that does not end the stream. -/
structure Closed (P : Step → Prop) : Prop where
  error (fault : Fault) : P (.error fault)
  await (stack : List Frame) (state : State) (requests : List Request) :
    P (await stack state requests)
  fail (stack : List Frame) (e : DecodeError) : P (fail stack e)
  done (value : OwnedValue) : P (.ok { decoder := .new, result := .done value })

section Closed

variable {P : Step → Prop} (h : Closed P)
include h

theorem Closed.completeValue (stack : List Frame) (value : OwnedValue) :
    P (completeValue stack value) := by
  induction stack generalizing value with
  | nil => exact h.done value
  | cons frame stack ih =>
    cases frame with
    | array remaining children | slice remaining children | tuple typeId remaining fields
    | struct typeId remaining currentFieldId fields =>
      exact iteInduction (fun _ => h.error _) fun _ =>
        iteInduction (fun _ => ih _) fun _ => h.await _ _ _

theorem Closed.handleTag {stack : List Frame}
    (hend : P (.ok { decoder := { state := .awaitingTag, stack }, result := .endOfStream }))
    (tag : UInt8) : P (handleTag stack tag) := by
  unfold Log.handleTag
  repeat' refine iteInduction (fun _ => ?_) fun _ => ?_
  all_goals first | exact h.completeValue _ _ | exact h.await _ _ _ | exact h.fail _ _ | exact hend

theorem Closed.handleVarintComplete (stack : List Frame) (raw : BitVec 128)
    (purpose : VarintPurpose) : P (handleVarintComplete stack raw purpose) := by
  have hvalue := h.completeValue stack
  cases purpose with
  | unsignedValue tag | signedValue tag =>
    rw [Log.handleVarintComplete]
    split
    · exact hvalue _
    · exact h.error _
  | charValue =>
    rw [Log.handleVarintComplete]
    split
    · exact hvalue _
    · exact h.fail _ _
  | stringLength | containerLength tag | tupleFieldCount typeId | structFieldCount typeId =>
    exact iteInduction (fun _ => hvalue _) fun _ => h.await _ _ _
  | tupleTypeId | structTypeId | structFieldId => exact h.await _ _ _

theorem Closed.feedByte {d : Decoder} {byte : UInt8}
    (htag : d.state = .awaitingTag → P (Log.handleTag d.stack byte)) : P (d.feedByte byte) := by
  obtain ⟨state, stack⟩ := d
  have hvalue := h.completeValue stack
  have hread : ∀ {c c' : Prop} [Decidable c] [Decidable c'] {fault state requests} {last : Step},
      P last →
        P (if c then .error fault else if c' then Log.await stack state requests else last) :=
    fun hlast => iteInduction (fun _ => h.error _) fun _ =>
      iteInduction (fun _ => h.await _ _ _) fun _ => hlast
  cases state with
  | awaitingTag => exact htag rfl
  | readingSingleByte tag =>
    rw [Decoder.feedByte]
    dsimp only
    split
    · exact hvalue _
    · exact h.fail _ _
  | readingVarint acc shift purpose =>
    exact iteInduction (fun _ => h.fail _ _) fun _ => iteInduction (fun _ => h.await _ _ _)
      fun _ => h.handleVarintComplete _ _ _
  | readingFixed buf expected got isF64 =>
    exact hread (iteInduction (fun _ => hvalue _) fun _ => hvalue _)
  | readingString buf remaining =>
    refine hread ?_
    split
    · exact hvalue _
    · exact h.fail _ _
  | readingStackDumpHeader buf pos => exact hread (h.await _ _ _)
  | readingStackDumpLength header lenBuf pos =>
    exact hread (iteInduction (fun _ => hvalue _) fun _ => h.await _ _ _)
  | readingStackDumpData header buf remaining => exact hread (hvalue _)

end Closed

/-! ## Slices -/

/-- What `feed` returns, with the requests made on the way. -/
structure Call where
  decoder : Decoder
  count : Nat
  result : FeedResult
  requests : List Request

def Decoder.feed (d : Decoder) : List UInt8 → Except Fault Call
  | [] => .ok { decoder := d, count := 0, result := .incomplete, requests := [] }
  | byte :: bytes =>
    (d.feedByte byte).bind fun fed =>
      match fed.result with
      | .incomplete =>
        (fed.decoder.feed bytes).map fun call =>
          { call with count := call.count + 1, requests := fed.requests ++ call.requests }
      | result => .ok { decoder := fed.decoder, count := 1, result, requests := fed.requests }

/-- The bytes one call took, and its result. -/
structure Taken where
  bytes : List UInt8
  result : FeedResult

/-- The calls that were made for some input. -/
structure Session where
  decoder : Decoder
  taken : List Taken
  requests : List Request

/-- Feed a chunk, each call from where the last one stopped. -/
def Decoder.feedChunk (d : Decoder) : (fuel : Nat) → List UInt8 → Except Fault Session
  | 0, _ => .ok { decoder := d, taken := [], requests := [] }
  | _ + 1, [] => .ok { decoder := d, taken := [], requests := [] }
  | fuel + 1, byte :: bytes =>
    (d.feed (byte :: bytes)).bind fun call =>
      (call.decoder.feedChunk fuel ((byte :: bytes).drop call.count)).map fun rest =>
        { decoder := rest.decoder
          taken := ⟨(byte :: bytes).take call.count, call.result⟩ :: rest.taken
          requests := call.requests ++ rest.requests }

/-- Every call takes at least one byte, so the length of a chunk is enough fuel. -/
def Decoder.feedChunks (d : Decoder) : List (List UInt8) → Except Fault Session
  | [] => .ok { decoder := d, taken := [], requests := [] }
  | chunk :: chunks =>
    (d.feedChunk chunk.length chunk).bind fun first =>
      (first.decoder.feedChunks chunks).map fun rest =>
        { decoder := rest.decoder, taken := first.taken ++ rest.taken
          requests := first.requests ++ rest.requests }

section Except

variable {ε α β : Type} {b : β}

theorem exists_of_bind_eq_ok {x : Except ε α} {f : α → Except ε β} (h : x.bind f = .ok b) :
    ∃ a, x = .ok a ∧ f a = .ok b := by
  cases x with
  | error e => cases h
  | ok a => exact ⟨a, rfl, h⟩

theorem exists_of_map_eq_ok {x : Except ε α} {f : α → β} (h : x.map f = .ok b) :
    ∃ a, x = .ok a ∧ f a = b := by
  cases x with
  | error e => cases h
  | ok a => exact ⟨a, rfl, Except.ok.inj h⟩

end Except

/-! ## Runs

How the input is divided does not matter: `run` takes it byte by byte. -/

def FeedResult.emitted : FeedResult → List FeedResult
  | incomplete => []
  | done value => [done value]
  | endOfStream => [endOfStream]
  | error e => [error e]

/-- The decoder after some bytes, and the results other than `Incomplete`. -/
structure Ran where
  decoder : Decoder
  results : List FeedResult
  requests : List Request

/-- The same with `results` and `requests` before it. -/
def Ran.after (results : List FeedResult) (requests : List Request) (ran : Ran) : Ran :=
  { decoder := ran.decoder, results := results ++ ran.results,
    requests := requests ++ ran.requests }

def Decoder.run (d : Decoder) : List UInt8 → Except Fault Ran
  | [] => .ok { decoder := d, results := [], requests := [] }
  | byte :: bytes =>
    (d.feedByte byte).bind fun fed =>
      (fed.decoder.run bytes).map (Ran.after fed.result.emitted fed.requests)

theorem Ran.after_after (results results' : List FeedResult) (requests requests' : List Request)
    (ran : Ran) : Ran.after results requests (Ran.after results' requests' ran) =
      Ran.after (results ++ results') (requests ++ requests') ran := by
  rw [Ran.after, Ran.after, Ran.after, append_assoc, append_assoc]

theorem map_after_nil (x : Except Fault Ran) : x.map (Ran.after [] []) = x := by
  cases x <;> rfl

theorem map_after (x : Except Fault Ran) (results results' : List FeedResult)
    (requests requests' : List Request) :
    (x.map (Ran.after results' requests')).map (Ran.after results requests) =
      x.map (Ran.after (results ++ results') (requests ++ requests')) := by
  cases x with
  | error fault => rfl
  | ok ran => exact congrArg Except.ok (Ran.after_after results results' requests requests' ran)

theorem run_append (d : Decoder) (bytes rest : List UInt8) :
    d.run (bytes ++ rest) = (d.run bytes).bind fun ran =>
      (ran.decoder.run rest).map (Ran.after ran.results ran.requests) := by
  induction bytes generalizing d with
  | nil => exact (map_after_nil _).symm
  | cons byte bytes ih =>
    rw [cons_append, Decoder.run, Decoder.run]
    cases d.feedByte byte with
    | error fault => rfl
    | ok fed =>
      show (fed.decoder.run (bytes ++ rest)).map _ = ((fed.decoder.run bytes).map _).bind _
      rw [ih]
      cases fed.decoder.run bytes with
      | error fault => rfl
      | ok ran => exact map_after _ _ _ _ _

theorem run_feed (d : Decoder) (bytes : List UInt8) : d.run bytes = (d.feed bytes).bind fun call =>
      (call.decoder.run (bytes.drop call.count)).map
        (Ran.after call.result.emitted call.requests) := by
  induction bytes generalizing d with
  | nil => rfl
  | cons byte bytes ih =>
    rw [Decoder.run, Decoder.feed]
    cases d.feedByte byte with
    | error fault => rfl
    | ok fed =>
      obtain ⟨decoder, result, requests⟩ := fed
      cases result with
      | incomplete =>
        show (decoder.run bytes).map _ = ((decoder.feed bytes).map _).bind _
        rw [ih]
        cases decoder.feed bytes with
        | error fault => rfl
        | ok call => exact map_after _ _ _ _ _
      | done value => rfl
      | endOfStream => rfl
      | error e => rfl

variable {d : Decoder} {bytes : List UInt8} {fuel : Nat}

theorem feed_count {byte : UInt8} {call : Call} (h : d.feed (byte :: bytes) = .ok call) :
    0 < call.count := by
  obtain ⟨fed, _, hfed⟩ := exists_of_bind_eq_ok h
  split at hfed
  · obtain ⟨rest, _, rfl⟩ := exists_of_map_eq_ok hfed
    exact Nat.succ_pos _
  · cases hfed
    exact Nat.one_pos

theorem length_drop_feed {byte : UInt8} {call : Call} (h : d.feed (byte :: bytes) = .ok call)
    (hfuel : (byte :: bytes).length ≤ fuel + 1) :
    ((byte :: bytes).drop call.count).length ≤ fuel := by
  have hpos := feed_count h
  rw [length_drop]
  omega

def Session.ran (s : Session) : Ran :=
  { decoder := s.decoder, results := s.taken.flatMap fun t => t.result.emitted
    requests := s.requests }

theorem feedChunk_run (d : Decoder) (h : bytes.length ≤ fuel) :
    (d.feedChunk fuel bytes).map Session.ran = d.run bytes := by
  induction fuel generalizing d bytes with
  | zero =>
    rw [eq_nil_of_length_eq_zero (Nat.le_zero.mp h)]
    rfl
  | succ fuel ih =>
    cases bytes with
    | nil => rfl
    | cons byte bytes =>
      rw [run_feed, Decoder.feedChunk]
      cases hfeed : d.feed (byte :: bytes) with
      | error fault => rfl
      | ok call =>
        have hlen := length_drop_feed hfeed h
        have hrest := ih call.decoder hlen
        show ((call.decoder.feedChunk fuel _).map _).map _ = (call.decoder.run _).map _
        rw [← hrest]
        cases call.decoder.feedChunk fuel ((byte :: bytes).drop call.count) <;> rfl

theorem feedChunks_run (d : Decoder) (chunks : List (List UInt8)) :
    (d.feedChunks chunks).map Session.ran = d.run chunks.flatten := by
  induction chunks generalizing d with
  | nil => rfl
  | cons chunk chunks ih =>
    rw [flatten_cons, run_append, ← feedChunk_run d (Nat.le_refl _), Decoder.feedChunks]
    cases d.feedChunk chunk.length chunk with
    | error fault => rfl
    | ok first =>
      show ((first.decoder.feedChunks chunks).map _).map _ = (first.decoder.run _).map _
      rw [← ih]
      cases first.decoder.feedChunks chunks with
      | error fault => rfl
      | ok rest =>
        refine congrArg Except.ok ?_
        rw [Session.ran, flatMap_append]
        rfl

/-- How the input is divided makes no difference. -/
theorem feedChunks_divided (chunks : List (List UInt8)) :
    (d.feedChunks chunks).map Session.ran = (d.feedChunks [chunks.flatten]).map Session.ran := by
  rw [feedChunks_run, feedChunks_run, flatten_singleton]

theorem feedChunk_taken {s : Session} (hfuel : bytes.length ≤ fuel)
    (h : d.feedChunk fuel bytes = .ok s) : s.taken.flatMap Taken.bytes = bytes := by
  induction fuel generalizing d bytes s with
  | zero =>
    cases h
    exact (eq_nil_of_length_eq_zero (Nat.le_zero.mp hfuel)).symm
  | succ fuel ih =>
    cases bytes with
    | nil =>
      cases h
      rfl
    | cons byte bytes =>
      obtain ⟨call, hfeed, hcall⟩ := exists_of_bind_eq_ok h
      obtain ⟨rest, hrest, rfl⟩ := exists_of_map_eq_ok hcall
      rw [flatMap_cons, ih (length_drop_feed hfeed hfuel) hrest, take_append_drop]

/-- Every byte is taken by one call, and in order. -/
theorem feedChunks_taken {chunks : List (List UInt8)} {s : Session}
    (h : d.feedChunks chunks = .ok s) : s.taken.flatMap Taken.bytes = chunks.flatten := by
  induction chunks generalizing d s with
  | nil =>
    cases h
    rfl
  | cons chunk chunks ih =>
    obtain ⟨first, hfirst, hmore⟩ := exists_of_bind_eq_ok h
    obtain ⟨rest, hrest, rfl⟩ := exists_of_map_eq_ok hmore
    rw [flatMap_append, feedChunk_taken (Nat.le_refl _) hfirst, ih hrest, flatten_cons]

end Rcard.Log
