/-
The handle of the debug port (`host/serial/src/sifli_debug/tap.rs`, `DebugHandle`).

Calls run side by side.  Each stops at its awaits, and goes on, or is dropped there by the
timeout around it (`host/serial/src/capability.rs`).  Locks are taken in any order.

The device takes frames off the wire as `Frame.recv` does.  It answers each command once, with
any payload and in any order, or not at all.  The read loop forwards its frames in order, into
a channel with room for one.  Bytes on the wire carry the call that wrote them, and an answer
the call whose bytes the command was; no function of the host looks at them.
-/
import Mathlib.Logic.Function.Basic
import Rcard.Debug.Frame

namespace Rcard.SifliDebug

/-- The methods, with the generation that the session has kept. -/
inductive Method where
  | enter
  | exit (gen : Nat)
  | memRead (gen : Nat) (addr : UInt32) (count : UInt16)
  | memWrite (gen : Nat) (addr : UInt32) (data : List UInt32)
  | memWriteNoResponse (addr : UInt32) (data : List UInt32)
  deriving DecidableEq, Repr

namespace Method

def command : Method → Command
  | enter => .enter
  | exit _ => .exit
  | memRead _ addr count => .memRead addr count
  | memWrite _ addr data => .memWrite addr data
  | memWriteNoResponse addr data => .memWrite addr data

def payload (m : Method) : List UInt8 := m.command.toPayload

/-- What is made of the response: `enter` and `exit` take any. -/
def accept : Method → Response → Except Error Response
  | memRead _ _ _, .memRead words => .ok (.memRead words)
  | memRead _ _ _, _ => .error (.protocol (.unexpectedResponse "MemRead"))
  | memWrite _ _ _, .memWrite => .ok .memWrite
  | memWrite _ _ _, _ => .error (.protocol (.unexpectedResponse "MemWrite"))
  | _, response => .ok response

/-- What is returned for a frame with this payload. -/
def respond (m : Method) (payload : List UInt8) : Except Error Response :=
  match Response.parse payload with
  | .ok response => m.accept response
  | .error e => .error (.protocol e)

def awaits : Method → Bool
  | memWriteNoResponse _ _ => false
  | _ => true

end Method

/-- Where a call is. -/
inductive Phase where
  /-- `enter` waits for the receiver that it is going to drain. -/
  | drainLock (gen : Nat)
  | draining (gen : Nat)
  | writerLock
  | sending (count : Nat)
  | sent
  /-- It has subscribed to the generations, and has seen this one. -/
  | receiverLock (seen : Nat)
  | receiving (seen : Nat)
  deriving DecidableEq, Repr

structure Call where
  method : Method
  phase : Phase
  deriving DecidableEq, Repr

structure Answer where
  owner : Option Nat
  command : List UInt8
  payload : List UInt8
  deriving DecidableEq, Repr

/-- What is between the calls and the device. -/
structure Link where
  wire : List (Nat × UInt8)
  /-- Commands that the device has not answered. -/
  taken : List (Option Nat × List UInt8)
  /-- What the device has sent and the read loop not yet forwarded. -/
  responses : List Answer
  channel : List Answer
  /-- All answers that there were. -/
  answers : List Answer
  deriving DecidableEq, Repr

/-- Without a response for a call that does not wait for one. -/
structure Returned where
  id : Nat
  method : Method
  result : Except Error (Option Response)

structure Handle where
  poison : Nat
  writer : Option Nat
  receiver : Option Nat
  calls : Nat → Option Call
  next : Nat
  returned : List Returned
  link : Link

namespace Link

variable (l : Link)

def write (id : Nat) (b : UInt8) : Link := { l with wire := l.wire ++ [(id, b)] }

def setChannel (frames : List Answer) : Link := { l with channel := frames }

end Link

namespace Handle

def start : Handle := ⟨0, none, none, fun _ => none, 0, [], ⟨[], [], [], [], []⟩⟩

variable (h : Handle) (id : Nat) (method : Method)

def setLink (l : Link) : Handle := { h with link := l }

def setPhase (phase : Phase) : Handle :=
  { h with calls := Function.update h.calls id (some ⟨method, phase⟩) }

/-- A call is over, and what it holds is free. -/
def drop : Handle :=
  { h with
    writer := if h.writer = some id then none else h.writer
    receiver := if h.receiver = some id then none else h.receiver
    calls := Function.update h.calls id none }

def finish (result : Except Error (Option Response)) : Handle :=
  let h := h.drop id
  { h with returned := h.returned ++ [⟨id, method, result⟩] }

/-- Until the writer is locked. -/
def request (gen : Nat) : Handle :=
  if h.poison ≠ gen then h.finish id method (.error .timeout)
  else h.setPhase id method .writerLock

def begin : Method → Handle
  | .enter => h.setPhase id .enter (.drainLock h.poison)
  | .exit gen => h.request id (.exit gen) gen
  | .memRead gen addr count => h.request id (.memRead gen addr count) gen
  | .memWrite gen addr data => h.request id (.memWrite gen addr data) gen
  | .memWriteNoResponse addr data => h.setPhase id (.memWriteNoResponse addr data) .writerLock

/-- A call starts. -/
def call : Handle := { h with next := h.next + 1 }.begin h.next method

/-- One more byte, or the end of the frame. -/
def send (count : Nat) : Handle :=
  match method.command.toFrame.bytes[count]? with
  | some b => (h.setLink (h.link.write id b)).setPhase id method (.sending (count + 1))
  | none =>
    if method.awaits then { h with writer := none }.setPhase id method .sent
    else h.finish id method (.ok none)

/-- A frame from the channel, unless the generation has changed. -/
def receive (seen : Nat) : Option Handle :=
  if h.poison ≠ seen then some (h.finish id method (.error .timeout))
  else
    match h.link.channel with
    | [] => none
    | frame :: channel =>
      some ((h.setLink (h.link.setChannel channel)).finish id method
        ((method.respond frame.payload).map some))

/-- `none` while it has to wait. -/
def advance : Option Handle :=
  match h.calls id with
  | none => none
  | some ⟨method, .drainLock gen⟩ =>
    if h.receiver = none then
      some ({ h with receiver := some id }.setPhase id method (.draining gen))
    else none
  | some ⟨method, .draining gen⟩ =>
    match h.link.channel with
    | _ :: channel => some (h.setLink (h.link.setChannel channel))
    | [] => some ({ h with receiver := none }.request id method gen)
  | some ⟨method, .writerLock⟩ =>
    if h.writer = none then
      some ({ h with writer := some id }.setPhase id method (.sending 0))
    else none
  | some ⟨method, .sending count⟩ => some (h.send id method count)
  | some ⟨method, .sent⟩ => some (h.setPhase id method (.receiverLock h.poison))
  | some ⟨method, .receiverLock seen⟩ =>
    if h.receiver = none then
      some ({ h with receiver := some id }.setPhase id method (.receiving seen))
    else none
  | some ⟨method, .receiving seen⟩ => h.receive id method seen

/-- Writing fails, or the read loop has ended. -/
def fail : Option Handle :=
  match h.calls id with
  | some ⟨method, .sending _⟩ | some ⟨method, .receiving _⟩ =>
    some (h.finish id method (.error .io))
  | _ => none

end Handle

namespace Link

variable (l : Link)

/-- The call that wrote all of these bytes. -/
def owner : List (Nat × UInt8) → Option Nat
  | [] => none
  | (id, b) :: bytes => if ((id, b) :: bytes).all (·.1 = id) then some id else none

/-- The device takes a frame off the wire. -/
def take : Option Link :=
  match Frame.recv (l.wire.map (·.2)) with
  | none => none
  | some (_, frame, rest) =>
    let count := l.wire.length - rest.length
    some { l with
      wire := l.wire.drop count
      taken := l.taken ++ [(owner (l.wire.take count), frame.payload)] }

def answer (i : Nat) (payload : List UInt8) : Option Link :=
  match l.taken[i]? with
  | none => none
  | some (owner, command) =>
    some { l with
      taken := l.taken.eraseIdx i
      responses := l.responses ++ [⟨owner, command, payload⟩]
      answers := l.answers ++ [⟨owner, command, payload⟩] }

def ignore (i : Nat) : Link := { l with taken := l.taken.eraseIdx i }

/-- The read loop forwards a frame. -/
def arrive : Option Link :=
  match l.channel, l.responses with
  | [], frame :: responses => some { l with responses, channel := [frame] }
  | _, _ => none

end Link

inductive Event where
  | call (method : Method)
  | advance (id : Nat)
  | fail (id : Nat)
  | drop (id : Nat)
  | poison
  | take
  | answer (i : Nat) (payload : List UInt8)
  | ignore (i : Nat)
  | arrive
  deriving DecidableEq, Repr

namespace Handle

def step (h : Handle) : Event → Option Handle
  | .call method => some (h.call method)
  | .advance id => h.advance id
  | .fail id => h.fail id
  | .drop id => some (h.drop id)
  | .poison => some { h with poison := h.poison + 1 }
  | .take => h.link.take.map h.setLink
  | .answer i payload => (h.link.answer i payload).map h.setLink
  | .ignore i => some (h.setLink (h.link.ignore i))
  | .arrive => h.link.arrive.map h.setLink

def run : Handle → List Event → Option Handle
  | h, [] => some h
  | h, e :: es => (h.step e).bind fun h' => run h' es

end Handle

end Rcard.SifliDebug
