/-
What the host makes of a frame from the device (`host/serial/src/usart2.rs`,
`shared/usb-proto/src/frame.rs`).

A reply, or a tunnel error in its place, answers the call with its sequence number.  On the
serial link a frame that answers no call is shown on the panel.
-/
import Rcard.Proto.Ipc
import Rcard.Proto.Reader

namespace Rcard

def SimpleFrameView.parse {M : Type} (opcode : UInt8) (fromPayload : List UInt8 → Option M)
    (view : SimpleFrameView) : Option M :=
  if view.opcode ≠ opcode then none else fromPayload view.payload

def opAwake : UInt8 := 0x02
def awakeFieldSize : Nat := 16

structure Awake where
  uid : List UInt8
  firmwareId : List UInt8
  sessionId : List UInt8
  deriving DecidableEq, Repr

/-- The old format has no session id. -/
def Awake.fromPayload (payload : List UInt8) : Option Awake :=
  if payload.length < awakeFieldSize * 2 then none
  else some
    { uid := payload.take awakeFieldSize
      firmwareId := (payload.drop awakeFieldSize).take awakeFieldSize
      sessionId :=
        if awakeFieldSize * 3 ≤ payload.length then
          (payload.drop (awakeFieldSize * 2)).take awakeFieldSize
        else List.replicate awakeFieldSize 0 }

structure IpcResponse where
  inner : Except SimpleFrameView IpcReplyView
  seq : UInt16

namespace RawFrame

def asSimple (f : RawFrame) : Option SimpleFrameView :=
  if f.header.frameType ≠ .simple then none else SimpleFrameView.fromBytes f.payload

def asIpcResponse (f : RawFrame) : Option IpcResponse :=
  match f.header.frameType with
  | .ipcReply => (IpcReplyView.fromBytes f.payload).map fun view =>
    { inner := .ok view, seq := f.header.seq }
  | .simple => (SimpleFrameView.fromBytes f.payload).map fun view =>
    { inner := .error view, seq := f.header.seq }
  | .ipcRequest => none

end RawFrame

structure IpcCallResult where
  rc : UInt32
  returnValue : List UInt8
  leaseWriteback : List UInt8
  deriving DecidableEq, Repr

inductive ResolvedResponse where
  | reply (result : IpcCallResult)
  | tunnelError (code : TunnelErrorCode)
  | unexpectedFrame
  deriving DecidableEq, Repr

/-- The `resolved` of both readers. -/
def IpcResponse.resolved (response : IpcResponse) : ResolvedResponse :=
  match response.inner with
  | .ok view =>
    .reply { rc := view.rc, returnValue := view.returnValue,
             leaseWriteback := view.leaseWriteback }
  | .error view =>
    match view.parse opTunnelError TunnelError.fromPayload with
    | some code => .tunnelError code
    | none => .unexpectedFrame

/-! ## The serial panel -/

inductive ControlEvent where
  | awake (seq : UInt16) (message : Awake)
  | tunnelError (code : TunnelErrorCode) (seq : UInt16)
  | unknownSimple (seq : UInt16) (opcode : UInt8) (payload : List UInt8)
  | ipcReply (seq : UInt16) (payload : List UInt8)
  | frameError (text : String)
  deriving DecidableEq, Repr

/-- `{:?}` of the error. -/
def HeaderError.debug : HeaderError → String
  | .tooShort => "TooShort"
  | .badFrameType v => s!"BadFrameType({v.toNat})"

/-- `resolve` asks the protocol for the call, and shows `unmatched` if there is none. -/
inductive Effect where
  | control (event : ControlEvent)
  | resolve (seq : UInt16) (response : ResolvedResponse) (unmatched : ControlEvent)
  deriving DecidableEq, Repr

/-- The body of the loop in `process_ipc_reply`. -/
def FrameReader.Report.effect : FrameReader.Report → Effect
  | .frame f =>
    let seq := f.header.seq
    match f.asSimple with
    | some simple =>
      match simple.parse opAwake Awake.fromPayload with
      | some awake => .control (.awake seq awake)
      | none =>
        match simple.parse opTunnelError TunnelError.fromPayload with
        | some code => .resolve seq (.tunnelError code) (.tunnelError code seq)
        | none => .control (.unknownSimple seq simple.opcode simple.payload)
    | none =>
      match f.asIpcResponse with
      | some response => .resolve seq response.resolved (.ipcReply seq f.payload)
      | none => .control (.ipcReply seq f.payload)
  | .oversized declaredSize =>
    .control (.frameError s!"oversized frame: declared {declaredSize} bytes")
  | .badHeader e => .control (.frameError s!"bad frame header: {e.debug}")

/-- A frame without a payload is shown with its sequence number, and nothing else is. -/
theorem FrameReader.Report.eq_frame_of_effect {report : FrameReader.Report} {seq : UInt16}
    (h : report.effect = .control (.ipcReply seq [])) :
    ∃ f, report = .frame f ∧ f.header.seq = seq ∧ f.payload = [] := by
  cases report with
  | oversized declaredSize => cases h
  | badHeader e => cases h
  | frame f =>
    refine ⟨f, rfl, ?_⟩
    rw [effect] at h
    grind

end Rcard
