/-
The log task (`firmware/sysmodule/log/src/server.rs`).

A log is one call, or it is a resource that is started, written to and dropped.  Every
log has a stream id and a log id of its own, and what it sends on the port goes to the
ring as well.  Both are actions here.

A call comes with the bytes of its lease, which it reads without fail.  Handles are
numbered as they are given out.  A start that finds no room for its resource is a start
and a drop.
-/
import Rcard.Lib.Cobs
import Rcard.Log.Wire
import Rcard.Server.Basic

namespace Rcard.Log

open List Function

/-! ## Frames -/

/-- `send_frame`.  Every turn of the loop takes at least one byte. -/
def sendFrame (cobs : Cobs) (streamId : UInt64) : (fuel : Nat) → List UInt8 → List UInt8
  | 0, _ => []
  | _ + 1, [] => []
  | fuel + 1, byte :: data =>
    cobs.encode (rawChunk streamId ((byte :: data).take 255)) ++ [0x00] ++
      sendFrame cobs streamId fuel ((byte :: data).drop 255)

theorem sendFrame_of_le (cobs : Cobs) (streamId : UInt64) {data : List UInt8}
    (hpos : 0 < data.length) (hmax : data.length ≤ 255) :
    sendFrame cobs streamId data.length data = cobs.encode (rawChunk streamId data) ++ [0x00] := by
  obtain ⟨byte, data, rfl⟩ := exists_cons_of_length_pos hpos
  rw [length_cons, sendFrame, take_of_length_le hmax, drop_eq_nil_of_le hmax]
  cases data <;> exact append_nil _

/-! ## State -/

structure LogState where
  nextStreamId : UInt64
  nextLogId : UInt64

def LogState.new : LogState := { nextStreamId := 1, nextLogId := 1 }

def LogState.allocStreamId (s : LogState) : UInt64 × LogState :=
  (s.nextStreamId, { s with nextStreamId := s.nextStreamId + 1 })

def LogState.allocLogId (s : LogState) : UInt64 × LogState :=
  (s.nextLogId, { s with nextLogId := s.nextLogId + 1 })

structure LogResource where
  metadata : LogMetadata
  streamId : UInt64
  idx : UInt8

def LogResource.advance (res : LogResource) : LogResource :=
  { res with idx := if res.idx = 255 then 255 else res.idx + 1 }

structure Device where
  state : LogState
  resources : Nat → Option LogResource
  nextHandle : Nat

def Device.new : Device := { state := .new, resources := fun _ => none, nextHandle := 0 }

/-! ## Calls -/

/-- What a caller gives with a log. -/
structure Head where
  sender : TaskId
  level : LogLevel
  species : UInt64
  timestamp : UInt64

def Head.metadata (head : Head) (logId : UInt64) : LogMetadata where
  level := head.level
  timestamp := head.timestamp
  source := head.sender.taskIndex
  generation := head.sender.generation.toUInt16
  logId := logId
  logSpecies := head.species

inductive Op where
  | log (head : Head) (data : List UInt8)
  | start (head : Head)
  | write (handle : Nat) (data : List UInt8)
  | drop (handle : Nat)

/-- `send_frame` and `ring.push`. -/
inductive Action where
  | sendFrame (streamId : UInt64) (data : List UInt8)
  | push (logId : UInt64) (idx : UInt8) (data : List UInt8)

def Action.wire (cobs : Cobs) : Action → List UInt8
  | sendFrame streamId data => Log.sendFrame cobs streamId data.length data
  | push _ _ _ => []

def maxInlineLogSize : Nat := 128

def Device.log (d : Device) (head : Head) (data : List UInt8) : Device × List Action :=
  let (streamId, state) := d.state.allocStreamId
  let (logId, state) := state.allocLogId
  let buf := (head.metadata logId).asBytes ++ data.take maxInlineLogSize ++ [tagEndOfStream]
  ({ d with state }, [.sendFrame streamId buf, .push logId 0 buf])

def Device.start (d : Device) (head : Head) : Device × List Action :=
  let (streamId, state) := d.state.allocStreamId
  let (logId, state) := state.allocLogId
  let metadata := head.metadata logId
  ({ state
     resources := update d.resources d.nextHandle (some { metadata, streamId, idx := 1 })
     nextHandle := d.nextHandle + 1 },
    [.sendFrame streamId metadata.asBytes, .push logId 0 metadata.asBytes])

def Device.write (d : Device) (handle : Nat) (res : LogResource) (data : List UInt8) :
    Device × List Action :=
  let buf := data.take maxInlineLogSize
  ({ d with resources := update d.resources handle (some res.advance) },
    [.sendFrame res.streamId buf, .push res.metadata.logId res.idx buf])

def Device.drop (d : Device) (handle : Nat) (res : LogResource) : Device × List Action :=
  ({ d with resources := update d.resources handle none },
    [.sendFrame res.streamId [tagEndOfStream], .push res.metadata.logId res.idx [tagEndOfStream]])

/-- One call.  A handle that is not open is refused before the call. -/
def Device.step (d : Device) : Op → Device × List Action
  | .log head data => d.log head data
  | .start head => d.start head
  | .write handle data =>
    match d.resources handle with
    | some res => d.write handle res data
    | none => (d, [])
  | .drop handle =>
    match d.resources handle with
    | some res => d.drop handle res
    | none => (d, [])

def Device.run (d : Device) : List Op → Device × List Action
  | [] => (d, [])
  | op :: ops => (((d.step op).1.run ops).1, (d.step op).2 ++ ((d.step op).1.run ops).2)

/-! ## What calls send -/

section Wire

variable {cobs : Cobs} {handle : Nat} {res : LogResource} {data : List UInt8} (d : Device)
  (head : Head)

theorem wire_pair (id logId : UInt64) (idx : UInt8) (buf buf' : List UInt8) :
    [Action.sendFrame id buf, .push logId idx buf'].flatMap (Action.wire cobs) =
      sendFrame cobs id buf.length buf := by
  simp [Action.wire]

theorem wire_log (h : data.length ≤ maxInlineLogSize) :
    (d.log head data).2.flatMap (Action.wire cobs) = cobs.encode (rawChunk d.state.nextStreamId
      ((head.metadata d.state.nextLogId).asBytes ++ data ++ [tagEndOfStream])) ++ [0x00] := by
  have hlen : ((head.metadata d.state.nextLogId).asBytes ++ data ++ [tagEndOfStream]).length =
      29 + data.length + 1 := by
    rw [length_append, length_append]
    rfl
  have hmax : data.length ≤ 128 := h
  rw [← sendFrame_of_le cobs _ (by omega) (by omega), ← wire_pair, Device.log, take_of_length_le h]
  rfl

theorem wire_start : (d.start head).2.flatMap (Action.wire cobs) = cobs.encode (rawChunk
    d.state.nextStreamId (head.metadata d.state.nextLogId).asBytes) ++ [0x00] := by
  have hlen : (head.metadata d.state.nextLogId).asBytes.length = 29 := length_asBytes _
  rw [← sendFrame_of_le cobs _ (by omega) (by omega), ← wire_pair]
  rfl

theorem wire_write (h : data.length ≤ maxInlineLogSize) :
    (d.write handle res data).2.flatMap (Action.wire cobs) =
      sendFrame cobs res.streamId data.length data := by
  rw [Device.write, take_of_length_le h]
  exact wire_pair _ _ _ _ _

theorem wire_drop : (d.drop handle res).2.flatMap (Action.wire cobs) =
    cobs.encode (rawChunk res.streamId [tagEndOfStream]) ++ [0x00] := by
  rw [← sendFrame_of_le cobs _ (by decide) (by decide), ← wire_pair]
  rfl

theorem wire_run_start_ne_nil (ops : List Op) :
    (d.run (.start head :: ops)).2.flatMap (Action.wire cobs) ≠ [] := by
  rw [Device.run, flatMap_append, Device.step, wire_start]
  simp

end Wire

theorem Device.run_append (d : Device) (ops rest : List Op) : d.run (ops ++ rest) =
    (((d.run ops).1.run rest).1, (d.run ops).2 ++ ((d.run ops).1.run rest).2) := by
  induction ops generalizing d with
  | nil => rfl
  | cons op ops ih =>
    rw [cons_append, Device.run, ih, Device.run, append_assoc]

/-! ## Stream ids -/

/-- A log that begins does not get the stream id of an open one. -/
def Device.FreshFor (d : Device) : Op → Prop
  | .log _ _ => ∀ h res, d.resources h = some res → res.streamId ≠ d.state.nextStreamId
  | .start _ => ∀ h res, d.resources h = some res → res.streamId ≠ d.state.nextStreamId
  | _ => True

def Device.Fresh (d : Device) : List Op → Prop
  | [] => True
  | op :: ops => d.FreshFor op ∧ (d.step op).1.Fresh ops

/-- The data of a call fits its buffer. -/
def Op.Inline : Op → Prop
  | .log _ data => data.length ≤ maxInlineLogSize
  | .write _ data => data.length ≤ maxInlineLogSize
  | _ => True

instance : DecidablePred Op.Inline
  | .log _ data => inferInstanceAs (Decidable (data.length ≤ maxInlineLogSize))
  | .start _ => inferInstanceAs (Decidable True)
  | .write _ data => inferInstanceAs (Decidable (data.length ≤ maxInlineLogSize))
  | .drop _ => inferInstanceAs (Decidable True)

section Ids

variable {d : Device} {n : Nat}

/-- `n` logs were begun, and every open one has the number of its beginning. -/
structure Device.Numbered (n : Nat) (d : Device) : Prop where
  next : d.state.nextStreamId = UInt64.ofNat (n + 1)
  before : ∀ h res, d.resources h = some res → ∃ k < n, res.streamId = UInt64.ofNat (k + 1)

theorem Device.Numbered.fresh (h : d.Numbered n) (hn : n < 2 ^ 64) (handle : Nat)
    (res : LogResource) (hres : d.resources handle = some res) :
    res.streamId ≠ d.state.nextStreamId := by
  obtain ⟨k, hk, hid⟩ := h.before handle res hres
  rw [hid, h.next]
  intro heq
  have htoNat := congrArg UInt64.toNat heq
  rw [UInt64.toNat_ofNat', UInt64.toNat_ofNat'] at htoNat
  omega

def Op.begins : Op → Bool
  | log _ _ => true
  | start _ => true
  | _ => false

theorem Device.Numbered.begin (h : d.Numbered n) :
    d.state.nextStreamId + 1 = UInt64.ofNat (n + 1 + 1) ∧
      ∀ h res, d.resources h = some res → ∃ k < n + 1, res.streamId = UInt64.ofNat (k + 1) := by
  refine ⟨?_, fun h' res hres => ?_⟩
  · rw [h.next, UInt64.ofNat_add (n + 1) 1]
    rfl
  · obtain ⟨k, hk, hid⟩ := h.before h' res hres
    exact ⟨k, Nat.lt_succ_of_lt hk, hid⟩

theorem forall_update {P : LogResource → Prop} {resources : Nat → Option LogResource}
    {handle : Nat} {res : Option LogResource} (h : ∀ h res, resources h = some res → P res)
    (hres : ∀ res', res = some res' → P res') :
    ∀ h res', update resources handle res h = some res' → P res' := by
  grind

theorem Device.Numbered.step (h : d.Numbered n) (op : Op) :
    (d.step op).1.Numbered (n + if op.begins then 1 else 0) := by
  obtain ⟨hnext, hbefore⟩ := h.begin
  cases op with
  | log head data => exact ⟨hnext, hbefore⟩
  | start head =>
    refine ⟨hnext, forall_update hbefore ?_⟩
    intro res hres
    cases hres
    exact ⟨n, Nat.lt_succ_self n, h.next⟩
  | write handle data =>
    rw [Device.step]
    cases hres : d.resources handle with
    | none => exact h
    | some res =>
      refine ⟨h.next, forall_update h.before ?_⟩
      intro res' hres'
      cases hres'
      exact h.before handle res hres
  | drop handle =>
    rw [Device.step]
    cases hres : d.resources handle with
    | none => exact h
    | some res => exact ⟨h.next, forall_update h.before nofun⟩

/-- Up to `2 ^ 64` logs, no stream id is used twice. -/
theorem fresh_of_countP_le {ops : List Op} (h : d.Numbered n)
    (hcount : n + ops.countP Op.begins ≤ 2 ^ 64) : d.Fresh ops := by
  induction ops generalizing d n with
  | nil => trivial
  | cons op ops ih =>
    rw [countP_cons] at hcount
    refine ⟨?_, ih (h.step op) ?_⟩
    · cases op with
      | log head data | start head => exact h.fresh (by simp [Op.begins] at hcount; omega)
      | _ => trivial
    · omega

end Ids

def sampleHead : Head :=
  { sender := { taskIndex := 2, generation := 0 }, level := .info, species := 42, timestamp := 7 }

end Rcard.Log
