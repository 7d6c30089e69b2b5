/-
Frames of the host protocol (`shared/usb-proto`).

Every frame starts with a five-byte header: the frame type, a sequence number
and the payload length, both little-endian.  A simple frame carries an opcode
and a message.  The only message the tunnel itself sends or reads is
`TunnelError`.

A byte slice is a list here.  An encoder that writes into a caller's buffer
takes the length of that buffer and returns the bytes it writes from the front,
or `none` where the source reports that they do not fit.
-/
import Mathlib.Data.List.Basic

namespace Rcard

def headerSize : Nat := 5

def u16FromLe (lo hi : UInt8) : UInt16 := UInt16.ofNat (lo.toNat + 256 * hi.toNat)

def u16ToLe (v : UInt16) : List UInt8 := [UInt8.ofNat v.toNat, UInt8.ofNat (v.toNat / 256)]

theorem u16FromLe_toNat (lo hi : UInt8) : (u16FromLe lo hi).toNat = lo.toNat + 256 * hi.toNat := by
  have hlo := lo.toNat_lt
  have hhi := hi.toNat_lt
  rw [u16FromLe, UInt16.toNat_ofNat']
  omega

theorem u16FromLe_u16ToLe (v : UInt16) :
    u16FromLe (UInt8.ofNat v.toNat) (UInt8.ofNat (v.toNat / 256)) = v := by
  have hv := v.toNat_lt
  apply UInt16.toNat.inj
  rw [u16FromLe_toNat, UInt8.toNat_ofNat', UInt8.toNat_ofNat']
  omega

inductive FrameType where
  | ipcRequest
  | ipcReply
  | simple
  deriving DecidableEq, Repr

inductive HeaderError where
  | tooShort
  | badFrameType (v : UInt8)
  deriving DecidableEq, Repr

def FrameType.toU8 : FrameType → UInt8
  | .ipcRequest => 0x01
  | .ipcReply => 0x02
  | .simple => 0x03

def FrameType.fromU8 (v : UInt8) : Except HeaderError FrameType :=
  if v = 0x01 then .ok .ipcRequest
  else if v = 0x02 then .ok .ipcReply
  else if v = 0x03 then .ok .simple
  else .error (.badFrameType v)

theorem FrameType.fromU8_toU8 (t : FrameType) : fromU8 t.toU8 = .ok t := by
  cases t <;> rfl

structure FrameHeader where
  frameType : FrameType
  seq : UInt16
  length : UInt16
  deriving DecidableEq, Repr

namespace FrameHeader

def frameSize (h : FrameHeader) : Nat := headerSize + h.length.toNat

def encode (h : FrameHeader) : List UInt8 :=
  h.frameType.toU8 :: (u16ToLe h.seq ++ u16ToLe h.length)

def decode : List UInt8 → Except HeaderError FrameHeader
  | t :: s₀ :: s₁ :: l₀ :: l₁ :: _ => do
      let frameType ← FrameType.fromU8 t
      return { frameType, seq := u16FromLe s₀ s₁, length := u16FromLe l₀ l₁ }
  | _ => .error .tooShort

theorem length_encode (h : FrameHeader) : h.encode.length = headerSize := rfl

theorem decode_encode (h : FrameHeader) (rest : List UInt8) :
    decode (h.encode ++ rest) = .ok h := by
  have hseq := u16FromLe_u16ToLe h.seq
  have hlength := u16FromLe_u16ToLe h.length
  simp only [encode, u16ToLe, List.cons_append, List.nil_append, decode, FrameType.fromU8_toU8,
    hseq, hlength]
  rfl

theorem exists_fields {bytes : List UInt8} (h : headerSize ≤ bytes.length) :
    ∃ t s₀ s₁ l₀ l₁ rest, bytes = t :: s₀ :: s₁ :: l₀ :: l₁ :: rest := by
  match bytes, h with
  | t :: s₀ :: s₁ :: l₀ :: l₁ :: rest, _ => exact ⟨t, s₀, s₁, l₀, l₁, rest, rfl⟩

/-- A header is read from the first five bytes alone. -/
theorem decode_append {bytes : List UInt8} (h : headerSize ≤ bytes.length)
    (rest : List UInt8) : decode (bytes ++ rest) = decode bytes := by
  obtain ⟨t, s₀, s₁, l₀, l₁, tail, rfl⟩ := exists_fields h
  rfl

end FrameHeader

/-! ## Simple frames -/

structure SimpleFrameView where
  opcode : UInt8
  payload : List UInt8
  deriving DecidableEq, Repr

def SimpleFrameView.fromBytes : List UInt8 → Option SimpleFrameView
  | [] => none
  | opcode :: payload => some { opcode, payload }

def opTunnelError : UInt8 := 0x01
def opMoshiMoshi : UInt8 := 0x03

inductive TunnelErrorCode where
  | taskDead
  | leasePoolFull
  | badRequest
  | noHostForwarding
  | busy
  | requestCorrupted
  | replyCorrupted
  | internal
  deriving DecidableEq, Repr

namespace TunnelErrorCode

def toByte : TunnelErrorCode → UInt8
  | taskDead => 0x01
  | leasePoolFull => 0x02
  | badRequest => 0x03
  | noHostForwarding => 0x04
  | busy => 0x05
  | requestCorrupted => 0x06
  | replyCorrupted => 0x07
  | internal => 0xFF

def fromByte (v : UInt8) : TunnelErrorCode :=
  if v = 0x01 then taskDead
  else if v = 0x02 then leasePoolFull
  else if v = 0x03 then badRequest
  else if v = 0x04 then noHostForwarding
  else if v = 0x05 then busy
  else if v = 0x06 then requestCorrupted
  else if v = 0x07 then replyCorrupted
  else internal

theorem fromByte_toByte (c : TunnelErrorCode) : fromByte c.toByte = c := by
  cases c <;> rfl

end TunnelErrorCode

def TunnelError.fromPayload : List UInt8 → Option TunnelErrorCode
  | [] => none
  | v :: _ => some (.fromByte v)

/-- `TunnelError::to_payload`, into a buffer of `bufLen` bytes. -/
def TunnelError.toPayload (code : TunnelErrorCode) (bufLen : Nat) : Option (List UInt8) :=
  if bufLen = 0 then none else some [code.toByte]

/-- `encode_simple`, with the opcode and `to_payload` of the message type. -/
def encodeSimple (opcode : UInt8) (toPayload : Nat → Option (List UInt8)) (bufLen : Nat)
    (seq : UInt16) : Option (List UInt8) :=
  if bufLen < headerSize + 1 then none
  else do
    let msg ← toPayload (bufLen - (headerSize + 1))
    let payloadLen := 1 + msg.length
    if payloadLen > 65535 then none
    else
      let header : FrameHeader := { frameType := .simple, seq, length := UInt16.ofNat payloadLen }
      some (header.encode ++ opcode :: msg)

/-- `encode_simple_raw`, into a buffer of `bufLen` bytes. -/
def encodeSimpleRaw (opcode : UInt8) (payload : List UInt8) (bufLen : Nat) (seq : UInt16) :
    Option (List UInt8) :=
  let payloadLen := 1 + payload.length
  if payloadLen > 65535 then none
  else if bufLen < headerSize + payloadLen then none
  else
    let header : FrameHeader := { frameType := .simple, seq, length := UInt16.ofNat payloadLen }
    some (header.encode ++ opcode :: payload)

/-- The seven bytes of a tunnel error frame. -/
def tunnelErrorFrame (seq : UInt16) (code : TunnelErrorCode) : List UInt8 :=
  ({ frameType := .simple, seq, length := 2 } : FrameHeader).encode ++ [opTunnelError, code.toByte]

theorem length_tunnelErrorFrame (seq : UInt16) (code : TunnelErrorCode) :
    (tunnelErrorFrame seq code).length = 7 := rfl

theorem encodeSimple_tunnelError (code : TunnelErrorCode) {bufLen : Nat} (h : 7 ≤ bufLen)
    (seq : UInt16) :
    encodeSimple opTunnelError (TunnelError.toPayload code) bufLen seq =
      some (tunnelErrorFrame seq code) := by
  have h₁ : ¬ bufLen < headerSize + 1 := by
    unfold headerSize
    omega
  have h₂ : bufLen - (headerSize + 1) ≠ 0 := by
    unfold headerSize
    omega
  simp only [encodeSimple, h₁, TunnelError.toPayload, h₂]
  rfl

/-! ## Raw frames -/

structure RawFrame where
  header : FrameHeader
  payload : List UInt8
  deriving DecidableEq, Repr

def RawFrame.parseTunnelError (f : RawFrame) : Option TunnelErrorCode :=
  if f.header.frameType ≠ .simple then none
  else do
    let view ← SimpleFrameView.fromBytes f.payload
    if view.opcode ≠ opTunnelError then none
    else TunnelError.fromPayload view.payload

end Rcard
