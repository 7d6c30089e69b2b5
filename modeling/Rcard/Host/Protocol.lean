/-
Calls of the host (`host/ipc-protocol/src/lib.rs`).

A call tests the flag, takes a number and encodes its request under the lock of the writer, puts
an entry into the map of pending calls under the lock of that, sends the frame, and waits for its
answer or the timeout.  Tasks interleave between any two of these steps; what is done under a lock
is one step, since nothing is awaited there.

The sender of a call's channel lives in its entry.  A call that has no answer and no entry any
more is disconnected.
-/
import Mathlib.Logic.Function.Basic
import Rcard.Host.Responses
import Rcard.Proto.Codec

namespace Rcard

open Function

inductive IpcError where
  | timeout
  | tunnelError (code : TunnelErrorCode)
  | disconnected
  | encode
  | unexpectedFrame
  | transport (message : String)
  | transportClosed
  deriving DecidableEq, Repr

/-- `tx` is the call whose channel it is. -/
structure PendingEntry where
  tx : Nat
  frameBytes : List UInt8
  retransmits : Nat
  deriving DecidableEq, Repr

structure IpcProtocol where
  writer : FrameWriter
  pending : UInt16 → Option PendingEntry
  poisoned : Bool

def maxRetransmits : Nat := 3

namespace IpcProtocol

def new : IpcProtocol := { writer := .new, pending := fun _ => none, poisoned := false }

def insert (p : IpcProtocol) (seq : UInt16) (entry : PendingEntry) : IpcProtocol :=
  { p with pending := update p.pending seq (some entry) }

def remove (p : IpcProtocol) (seq : UInt16) : IpcProtocol :=
  { p with pending := update p.pending seq none }

def clear (p : IpcProtocol) : IpcProtocol := { p with pending := fun _ => none }

/-- `retransmit_pending`, for the keys of the map in the order in which it goes through them: what
is to be sent again, and the calls that were given up. -/
def retransmitPending (p : IpcProtocol) : List UInt16 →
    IpcProtocol × List (Nat × List UInt8) × List Nat
  | [] => (p, [], [])
  | seq :: seqs =>
    match p.pending seq with
    | none => p.retransmitPending seqs
    | some entry =>
      if entry.retransmits ≥ maxRetransmits then
        let (p, toResend, exhausted) := (p.remove seq).retransmitPending seqs
        (p, toResend, entry.tx :: exhausted)
      else
        let (p, toResend, exhausted) :=
          (p.insert seq { entry with retransmits := entry.retransmits + 1 }).retransmitPending seqs
        (p, (entry.tx, entry.frameBytes) :: toResend, exhausted)

/-- The call has its entry under its number. -/
def Holds (p : IpcProtocol) (seq : UInt16) (call : Nat) : Prop :=
  (p.pending seq).map PendingEntry.tx = some call

instance (p : IpcProtocol) (seq : UInt16) (call : Nat) : Decidable (p.Holds seq call) :=
  inferInstanceAs (Decidable (_ = _))

end IpcProtocol

def ResolvedResponse.outcome : ResolvedResponse → Except IpcError IpcCallResult
  | reply result => .ok result
  | tunnelError code => .error (.tunnelError code)
  | unexpectedFrame => .error .unexpectedFrame

/-! ## Tasks -/

/-- Where a task is: what it does next.  `whole` tells `call` from `prepare_call`. -/
inductive Task where
  | start (whole : Bool) (req : IpcRequest)
  /-- The flag was not set. -/
  | encoding (whole : Bool) (req : IpcRequest)
  | registering (whole : Bool) (seq : UInt16) (frameBytes : List UInt8)
  | sending (seq : UInt16) (frameBytes : List UInt8)
  | waiting (seq : UInt16)
  /-- The timeout has passed. -/
  | removing (seq : UInt16)
  | returned (result : Except IpcError IpcCallResult)
  | prepared (seq : UInt16) (frameBytes : List UInt8)
  | resolving (seq : UInt16) (response : ResolvedResponse)
  | resolved (matched : Bool)
  | poisoning
  /-- The flag is set, and the map is not yet cleared. -/
  | clearing
  | poisoned

structure Calls where
  protocol : IpcProtocol
  answers : Nat → Option ResolvedResponse
  tasks : Nat → Task

namespace Calls

def goto (s : Calls) (i : Nat) (task : Task) : Calls :=
  { s with tasks := update s.tasks i task }

/-- `resolve`.  The answer goes to the call of the entry, if there is one. -/
def resolve (s : Calls) (seq : UInt16) (response : ResolvedResponse) : Calls × Bool :=
  match s.protocol.pending seq with
  | some entry =>
    ({ s with
        protocol := s.protocol.remove seq
        answers := update s.answers entry.tx (some response) }, true)
  | none => (s, false)

/-- The part of `prepare_call` under the lock of the writer. -/
def encode (s : Calls) (i : Nat) (whole : Bool) (req : IpcRequest) : Calls :=
  let seq := s.protocol.writer.seq
  let (writer, frame) := s.protocol.writer.writeIpcRequest req maxDecodedFrame
  { s with protocol := { s.protocol with writer } }.goto i
    (match frame with
    | none => .returned (.error .encode)
    | some frameBytes => .registering whole seq frameBytes)

def register (s : Calls) (i : Nat) (whole : Bool) (seq : UInt16) (frameBytes : List UInt8) :
    Calls :=
  { s with protocol := s.protocol.insert seq { tx := i, frameBytes, retransmits := 0 } }.goto i
    (if whole then .sending seq frameBytes else .prepared seq frameBytes)

/-- What a call that is waiting finds.  With nothing there it is the timeout that wakes it. -/
def received (s : Calls) (i : Nat) (seq : UInt16) : Task :=
  match s.answers i with
  | some response => .returned response.outcome
  | none => if s.protocol.Holds seq i then .removing seq else .returned (.error .disconnected)

inductive Event where
  | run (i : Nat)
  /-- The frame was sent, or was not. -/
  | sent (i : Nat) (result : Except String Unit)

def step (s : Calls) : Event → Option Calls
  | .run i =>
    match s.tasks i with
    | .start whole req =>
      some (s.goto i
        (if s.protocol.poisoned then .returned (.error .transportClosed)
        else .encoding whole req))
    | .encoding whole req => some (s.encode i whole req)
    | .registering whole seq frameBytes => some (s.register i whole seq frameBytes)
    | .waiting seq => some (s.goto i (s.received i seq))
    | .removing seq =>
      some ({ s with protocol := s.protocol.remove seq }.goto i (.returned (.error .timeout)))
    | .resolving seq response =>
      let (s, matched) := s.resolve seq response
      some (s.goto i (.resolved matched))
    | .poisoning =>
      some ({ s with protocol := { s.protocol with poisoned := true } }.goto i .clearing)
    | .clearing => some ({ s with protocol := s.protocol.clear }.goto i .poisoned)
    | _ => none
  | .sent i result =>
    match s.tasks i with
    | .sending seq _ =>
      some (s.goto i
        (match result with
        | .ok () => .waiting seq
        | .error message => .returned (.error (.transport message))))
    | _ => none

def run (s : Calls) : List Event → Option Calls
  | [] => some s
  | event :: events => (s.step event).bind fun s => s.run events

/-- Nobody has done anything yet. -/
structure Initial (s : Calls) : Prop where
  protocol : s.protocol = .new
  answers : s.answers = fun _ => none
  tasks : ∀ i, (∃ whole req, s.tasks i = .start whole req) ∨
    (∃ seq response, s.tasks i = .resolving seq response) ∨ s.tasks i = .poisoning

end Calls
end Rcard
