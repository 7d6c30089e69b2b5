/-
Dispatching a tunneled request (`sysmodule/host_proxy/src/main.rs`).

The host proxy works in the tunnel buffer itself.  It parses the request there,
moves the lease data to the front of the buffer, sends the message to the target
task with leases into that pool, gathers what the target wrote at the end of the
buffer, and encodes the reply at the front.

The kernel is a parameter: what `sys_send` answers, and what it leaves in the
lease regions, can be anything.
-/
import Rcard.Tunnel.Buffer

namespace Rcard.HostProxy

open Mem

def maxMessage : Nat := 256

def opcode (kind method : UInt8) : UInt16 := (kind.toUInt16 <<< 8) ||| method.toUInt16

structure LeaseSlot where
  kind : LeaseKind
  offset : Nat
  length : Nat
  deriving DecidableEq, Repr

/-- A lease before compaction: its slot, and its entry of `src_offsets`. -/
structure LeaseSource where
  kind : LeaseKind
  length : Nat
  srcOff : Nat
  srcLen : Nat
  deriving DecidableEq, Repr

/-! ## The call -/

structure Lease where
  writable : Bool
  bytes : List UInt8
  deriving DecidableEq, Repr

/-- What `sys_send` returns, and the bytes of the leases afterwards. -/
structure SendReply where
  /-- The response code and the reply message.  `none` is the death of the target. -/
  response : Option (UInt32 × List UInt8)
  leases : List (List UInt8)
  /-- The first byte of the message buffer if neither arguments nor reply wrote it. -/
  leftover : UInt8 := 0

abbrev Kernel := (target opcode : UInt16) → (args : List UInt8) → List Lease → SendReply

/-- All that is at hand when `sys_send` is called. -/
structure SendCall where
  seq : UInt16
  target : UInt16
  opcode : UInt16
  args : List UInt8
  data : Nat → UInt8
  slots : List LeaseSlot

def SendCall.region (c : SendCall) (slot : LeaseSlot) : List UInt8 :=
  slice c.data slot.offset slot.length

def SendCall.leases (c : SendCall) : List Lease :=
  c.slots.map fun slot => { writable := slot.kind ≠ .read, bytes := c.region slot }

/-! ## From the request to the call -/

/-- Where the lease bytes of a request start in the buffer. -/
def leaseBase (view : IpcRequestView) : Nat :=
  headerSize + requestFixedSize + view.descriptors.length + view.args.length

def recordLease (view : IpcRequestView) (i : Nat) : Option LeaseSource := do
  let desc ← view.lease i
  let (srcOff, srcLen) :=
    if desc.kind.hasRequestData then
      match view.leaseRange i with
      | some (offset, n) => (leaseBase view + offset, n)
      | none => (0, 0)
    else (0, 0)
  return { kind := desc.kind, length := desc.length, srcOff, srcLen }

def recordLeases (view : IpcRequestView) (count : Nat) : Option (List LeaseSource) :=
  (List.range count).mapM (recordLease view)

/-- The compaction loop.  `none` if the pool is too small, and the buffer as far
as the loop came. -/
def compact (data : Nat → UInt8) (poolEnd : Nat) :
    List LeaseSource → (Nat → UInt8) × Option (List LeaseSlot)
  | [] => (data, some [])
  | l :: ls =>
    if poolEnd + l.length > leasePoolSize then (data, none)
    else
      let moved :=
        if l.kind.hasRequestData then
          copyWithin data l.srcOff (min l.srcLen l.length) poolEnd
        else fill data poolEnd l.length 0
      let (final, slots) := compact moved (poolEnd + l.length) ls
      (final, slots.map ({ kind := l.kind, offset := poolEnd, length := l.length } :: ·))

inductive Prepared where
  | skip
  | poolFull (data : Nat → UInt8) (seq : UInt16)
  | send (call : SendCall)

def prepareRequest (data : Nat → UInt8) (header : FrameHeader) (view : IpcRequestView) : Prepared :=
  match recordLeases view (min view.leaseCount maxLeases) with
  | none => .poolFull data header.seq
  | some sources =>
    match compact data 0 sources with
    | (data, none) => .poolFull data header.seq
    | (data, some slots) =>
      .send
        { seq := header.seq, target := view.taskId
          opcode := opcode view.resourceKind view.method
          args := view.args.take maxMessage, data, slots }

/-- The request in the first `fetchLen` bytes of the buffer. -/
def parseRequest (data : Nat → UInt8) (fetchLen : Nat) : Option (FrameHeader × IpcRequestView) :=
  match FrameHeader.decode (slice data 0 fetchLen) with
  | .error _ => none
  | .ok header =>
    if header.frameSize > fetchLen then none
    else do
      let payload := ((slice data 0 fetchLen).take header.frameSize).drop headerSize
      let view ← RawFrame.asIpcRequest { header, payload }
      return (header, view)

def prepare (data : Nat → UInt8) (fetchLen : Nat) : Prepared :=
  match parseRequest data fetchLen with
  | none => .skip
  | some (header, view) => prepareRequest data header view

/-! ## From the answer to the reply -/

inductive DispatchOutcome where
  | reply (len : Nat)
  | error (len : Nat)
  | skip
  deriving DecidableEq, Repr

/-- `encode_tunnel_error`, into the first `bufLen` bytes of the buffer. -/
def encodeTunnelError (data : Nat → UInt8) (bufLen : Nat) (seq : UInt16) (code : TunnelErrorCode) :
    (Nat → UInt8) × DispatchOutcome :=
  let frame := (encodeSimple opTunnelError (TunnelError.toPayload code) bufLen seq).getD []
  (write data 0 frame, .error frame.length)

def writeLeases (data : Nat → UInt8) : List LeaseSlot → List (List UInt8) → Nat → UInt8
  | slot :: slots, bytes :: rest =>
    writeLeases
      (if slot.kind = .read then data
       else write data slot.offset (bytes.take slot.length)) slots rest
  | _, _ => data

def writebackTotal : List LeaseSlot → Nat
  | [] => 0
  | slot :: slots => (if slot.kind.hasReplyData then slot.length else 0) + writebackTotal slots

/-- The reverse loop that moves the regions to the end of the buffer. -/
def gatherWritebacks (data : Nat → UInt8) (cursor : Nat) : List LeaseSlot → Nat → UInt8
  | [] => data
  | slot :: slots =>
    if slot.kind.hasReplyData then
      gatherWritebacks (copyWithin data slot.offset slot.length (cursor - slot.length))
        (cursor - slot.length) slots
    else gatherWritebacks data cursor slots

/-- The message buffer after the call.  One byte is returned even if the reply is
empty: the first argument byte, or what an earlier call left there. -/
def returnValue (args message : List UInt8) (leftover : UInt8) : List UInt8 :=
  let message := message.take maxMessage
  (message ++ args.drop message.length ++ [leftover]).take (max message.length 1)

def encodeReply (data : Nat → UInt8) (call : SendCall) (rc : UInt32) (message : List UInt8)
    (leftover : UInt8) : (Nat → UInt8) × DispatchOutcome :=
  let wbTotal := writebackTotal call.slots
  let wbStart := tunnelDataSize - wbTotal
  let data := gatherWritebacks data tunnelDataSize call.slots.reverse
  match encodeIpcReply rc (returnValue call.args message leftover)
    (slice data wbStart wbTotal) wbStart call.seq with
  | some frame => (write data 0 frame, .reply frame.length)
  | none => encodeTunnelError data wbStart call.seq .internal

def dispatchTunneledRequest (kernel : Kernel) (data : Nat → UInt8) (fetchLen : Nat) :
    (Nat → UInt8) × DispatchOutcome :=
  match prepare data fetchLen with
  | .skip => (data, .skip)
  | .poolFull data seq => encodeTunnelError data tunnelDataSize seq .leasePoolFull
  | .send call =>
    let reply := kernel call.target call.opcode call.args call.leases
    let data := writeLeases call.data call.slots reply.leases
    match reply.response with
    | some (rc, message) => encodeReply data call rc message reply.leftover
    | none => encodeTunnelError data tunnelDataSize call.seq .taskDead

/-! ## Every parsed request is answered -/

def DispatchOutcome.frameLen : DispatchOutcome → Nat
  | reply len => len
  | error len => len
  | skip => 0

/-- A frame the host proxy delivers: a reply, or a tunnel error of its own. -/
def IsAnswer (frame : List UInt8) : Prop :=
  (∃ rest, frame = FrameType.ipcReply.toU8 :: rest ∧ frame.length < 0x20000) ∨
    ∃ seq code, code ≠ .replyCorrupted ∧ frame = tunnelErrorFrame seq code

def Answered (r : (Nat → UInt8) × DispatchOutcome) : Prop :=
  ∃ data frame, IsAnswer frame ∧ r.1 = write data 0 frame ∧ r.2.frameLen = frame.length

theorem IsAnswer.length_pos {frame : List UInt8} (h : IsAnswer frame) : 0 < frame.length := by
  rcases h with ⟨rest, rfl, _⟩ | ⟨seq, code, _, rfl⟩
  · exact Nat.zero_lt_succ _
  · exact Nat.zero_lt_succ _

theorem IsAnswer.length_lt {frame : List UInt8} (h : IsAnswer frame) : frame.length < 0x20000 := by
  rcases h with ⟨rest, _, hlt⟩ | ⟨seq, code, _, rfl⟩
  · exact hlt
  · rw [length_tunnelErrorFrame]
    decide

theorem encodeTunnelError_answered (data : Nat → UInt8) {bufLen : Nat} (h : 7 ≤ bufLen)
    (seq : UInt16) {code : TunnelErrorCode} (hcode : code ≠ .replyCorrupted) :
    Answered (encodeTunnelError data bufLen seq code) := by
  rw [encodeTunnelError, encodeSimple_tunnelError code h seq]
  exact ⟨data, _, .inr ⟨seq, code, hcode, rfl⟩, rfl, rfl⟩

variable {data : Nat → UInt8}

theorem compact_writebackTotal {poolEnd : Nat} (hend : poolEnd ≤ leasePoolSize)
    {sources : List LeaseSource} {slots : List LeaseSlot}
    (h : (compact data poolEnd sources).2 = some slots) :
    poolEnd + writebackTotal slots ≤ leasePoolSize := by
  induction sources generalizing data poolEnd slots with
  | nil =>
    cases h
    exact hend
  | cons l ls ih =>
    rw [compact] at h
    split at h
    · cases h
    · obtain ⟨rest, hrest, rfl⟩ := Option.map_eq_some_iff.mp h
      grind [writebackTotal]

theorem prepareRequest_ne_skip (data : Nat → UInt8) (header : FrameHeader)
    (view : IpcRequestView) : prepareRequest data header view ≠ .skip := by
  rw [prepareRequest]
  split
  · nofun
  · split <;> nofun

/-- Writebacks leave room for a tunnel error at least. -/
theorem prepareRequest_room {header : FrameHeader} {view : IpcRequestView} {call : SendCall}
    (h : prepareRequest data header view = .send call) :
    7 ≤ tunnelDataSize - writebackTotal call.slots := by
  rw [prepareRequest] at h
  split at h
  · cases h
  · split at h
    · cases h
    · rename_i final slots hcompact
      cases h
      have htotal := compact_writebackTotal (Nat.zero_le leasePoolSize) (congrArg Prod.snd hcompact)
      have hsize : tunnelDataSize = leasePoolSize + 278 := rfl
      show 7 ≤ tunnelDataSize - writebackTotal slots
      omega

theorem encodeReply_answered {call : SendCall} (h : 7 ≤ tunnelDataSize - writebackTotal call.slots)
    (rc : UInt32) (message : List UInt8) (leftover : UInt8) :
    Answered (encodeReply data call rc message leftover) := by
  rw [encodeReply]
  split
  · rename_i frame hframe
    obtain ⟨rest, hrest⟩ := encodeIpcReply_head hframe
    exact ⟨_, frame, .inl ⟨rest, hrest, encodeIpcReply_length_lt hframe⟩, rfl, rfl⟩
  · exact encodeTunnelError_answered _ h _ nofun

theorem dispatch_answered (kernel : Kernel) {fetchLen : Nat}
    (h : (parseRequest data fetchLen).isSome) :
    Answered (dispatchTunneledRequest kernel data fetchLen) := by
  obtain ⟨⟨header, view⟩, hparse⟩ := Option.isSome_iff_exists.mp h
  have hprepare : prepare data fetchLen = prepareRequest data header view := by
    rw [prepare, hparse]
  rw [dispatchTunneledRequest, hprepare]
  cases hprep : prepareRequest data header view with
  | skip => exact absurd hprep (prepareRequest_ne_skip data header view)
  | poolFull data' seq => exact encodeTunnelError_answered data' (by decide) seq nofun
  | send call =>
    dsimp only
    split
    · exact encodeReply_answered (prepareRequest_room hprep) _ _ _
    · exact encodeTunnelError_answered _ (by decide) _ nofun

/-- There is a frame to deliver for every request that can be parsed, and for no
other. -/
theorem dispatch_frameLen_pos_iff (kernel : Kernel) (data : Nat → UInt8) (fetchLen : Nat) :
    0 < (dispatchTunneledRequest kernel data fetchLen).2.frameLen ↔
      (parseRequest data fetchLen).isSome := by
  cases hparse : parseRequest data fetchLen with
  | none => simp [dispatchTunneledRequest, prepare, hparse, DispatchOutcome.frameLen]
  | some request =>
    have hsome : (parseRequest data fetchLen).isSome := by rw [hparse, Option.isSome_some]
    obtain ⟨_, frame, hframe, _, hlen⟩ := dispatch_answered kernel hsome
    refine iff_of_true ?_ rfl
    rw [hlen]
    exact hframe.length_pos

end Rcard.HostProxy
