/-
Calls over a link that corrupts transfers (`host/usb/src/lib.rs`, `host/ipc-protocol/src/lib.rs`,
`firmware/sysmodule/usb_protocol_host/src/main.rs`, `firmware/sysmodule/host_proxy/src/main.rs`).

The device answers a corrupted transfer with an error that names no request, and the host then
sends every pending request again.  A reply that is corrupted is asked for again, and what the
device then sends is not the reply (`Rcard.Tunnel.Redeliver`).

A transfer arrives as it is, or corrupted, which its checksum shows.  What happens to it is fixed
when it is sent.  A copy of a request carries the call it is for, and an answer the call whose
request was executed; no function looks at them.
-/
import Rcard.Host.Protocol

namespace Rcard

/-- The sequence number of a frame. -/
def frameSeq (frame : List UInt8) : UInt16 :=
  match FrameHeader.decode frame with
  | .ok header => header.seq
  | .error _ => 0

structure Copy where
  call : Nat
  frame : List UInt8
  deriving DecidableEq, Repr

/-- The keys of the map are these. -/
def IpcProtocol.Keys (p : IpcProtocol) (seqs : List UInt16) : Prop :=
  ∀ seq, seq ∈ seqs ↔ p.pending seq ≠ none

/-- What is on its way to the device. -/
inductive Down where
  | request (copy : Copy)
  | replyCorrupted
  | corrupted
  deriving DecidableEq, Repr

def Down.copy? : Down → Option Copy
  | request copy => some copy
  | _ => none

/-- What is on its way to the host. -/
inductive Up where
  | answer (call : Nat) (seq : UInt16) (response : ResolvedResponse)
  | error (seq : UInt16) (code : TunnelErrorCode)
  | corrupted
  deriving DecidableEq, Repr

/-- What the host takes a frame for. -/
def Up.response? : Up → Option (UInt16 × ResolvedResponse)
  | answer _ seq response => some (seq, response)
  | error seq code => some (seq, .tunnelError code)
  | corrupted => none

/-- What the transport of the device has sent last. -/
inductive LastAnswer where
  | none
  | ipcReply
  | error (seq : UInt16) (code : TunnelErrorCode)
  deriving DecidableEq, Repr

/-- `resend` is what the reader of the host is about to send. -/
structure Session where
  calls : Calls
  resend : List Down
  down : List Down
  staged : Option Copy
  retransmitting : Bool
  lastSent : LastAnswer
  executed : List (Nat × ResolvedResponse)
  up : List Up

namespace Session

/-! ## Transfers -/

/-- What of a transfer arrives: the frame, intact or not, or nothing if the transfer fails. -/
def landed (frame : Down) : Option Bool → List Down
  | none => []
  | some intact => [if intact then frame else .corrupted]

def arrive (s : Session) (frame : Down) (arrival : Option Bool) : Session :=
  { s with down := s.down ++ landed frame arrival }

def emit (s : Session) (frame : Up) (intact : Bool) : Session :=
  { s with up := s.up ++ [if intact then frame else .corrupted] }

/-! ## The device -/

/-- `process_accumulated_frame`. -/
def accept (s : Session) (frame : Down) (intact : Bool) : Session :=
  match frame with
  | .corrupted =>
    { s.emit (.error 0xFFFF .requestCorrupted) intact with
      lastSent := .error 0xFFFF .requestCorrupted }
  | .replyCorrupted =>
    match s.lastSent with
    | .ipcReply => { s with retransmitting := true }
    | .error seq code => s.emit (.error seq code) intact
    | .none => s
  | .request copy => { s with staged := some copy }

/-- The transport takes the next transfer, unless it waits for the host proxy. -/
def take (s : Session) (intact : Bool) : Option Session :=
  match s.down with
  | [] => none
  | frame :: down =>
    if s.staged.isSome || s.retransmitting then none
    else some ({ s with down }.accept frame intact)

/-- The host proxy dispatches the request that is staged and delivers what comes of it. -/
def serve (s : Session) (response : ResolvedResponse) (intact : Bool) : Option Session :=
  s.staged.map fun copy =>
    { s.emit (.answer copy.call (frameSeq copy.frame) response) intact with
      staged := none
      executed := s.executed ++ [(copy.call, response)]
      lastSent := .ipcReply }

/-- The host proxy delivers the last reply again.  The request for that is at the front of the
buffer by now, and the host finds it there as the frame. -/
def redeliver (s : Session) (intact : Bool) : Option Session :=
  if s.retransmitting then
    some { s.emit (.error 0xFFFF .replyCorrupted) intact with
        retransmitting := false
        lastSent := .ipcReply }
  else none

/-! ## The host -/

def retransmit (s : Session) (seqs : List UInt16) : Session :=
  let (protocol, toResend, exhausted) := s.calls.protocol.retransmitPending seqs
  { s with
    calls :=
      { s.calls with
        protocol
        answers := fun call =>
          if call ∈ exhausted then some (.tunnelError .requestCorrupted)
          else s.calls.answers call }
    resend := toResend.map fun (call, frame) => .request { call, frame } }

/-- The body of the loop in `host_reader`. -/
def handle (s : Session) (seq : UInt16) (response : ResolvedResponse) (seqs : List UInt16) :
    Session :=
  if response = .tunnelError .requestCorrupted then s.retransmit seqs
  else { s with calls := (s.calls.resolve seq response).1 }

/-- The reader takes the next transfer, unless it is still sending. -/
def read (s : Session) (seqs : List UInt16) : Option Session :=
  match s.resend, s.up with
  | [], frame :: up =>
    match frame.response? with
    | some (seq, response) => some ({ s with up }.handle seq response seqs)
    | none => some { s with up, resend := [.replyCorrupted] }
  | _, _ => none

inductive Event where
  | run (i : Nat)
  | sent (i : Nat) (result : Except String Unit) (arrival : Option Bool)
  /-- The reader sends what is next. -/
  | push (arrival : Option Bool)
  | read (seqs : List UInt16)
  | take (intact : Bool)
  | serve (response : ResolvedResponse) (intact : Bool)
  | redeliver (intact : Bool)

def step (s : Session) : Event → Option Session
  | .run i => (s.calls.step (.run i)).map fun calls => { s with calls }
  | .sent i result arrival =>
    match s.calls.tasks i with
    | .sending _ frame => (s.calls.step (.sent i result)).map fun calls =>
      { s with calls }.arrive (.request { call := i, frame }) arrival
    | _ => none
  | .push arrival =>
    match s.resend with
    | [] => none
    | frame :: resend => some ({ s with resend }.arrive frame arrival)
  | .read seqs => s.read seqs
  | .take intact => s.take intact
  | .serve response intact => s.serve response intact
  | .redeliver intact => s.redeliver intact

/-- The reader goes through all keys of the map. -/
def Possible (s : Session) : Event → Prop
  | .read seqs => seqs.Nodup ∧ s.calls.protocol.Keys seqs
  | _ => True

/-- What a run of the system is, if its steps are permitted. -/
inductive Reaches (permitted : Session → Event → Prop) (s : Session) : Session → Prop
  | start : Reaches permitted s s
  | step {t u : Session} (event : Event) (h : Reaches permitted s t) (hpossible : t.Possible event)
      (hpermitted : permitted t event) (hstep : t.step event = some u) : Reaches permitted s u

/-- Only calls are made, and nothing is on its way. -/
structure Initial (s : Session) : Prop where
  protocol : s.calls.protocol = .new
  answers : ∀ i, s.calls.answers i = none
  tasks : ∀ i, ∃ req, s.calls.tasks i = .start true req
  quiet : s.resend = [] ∧ s.down = [] ∧ s.staged = none ∧ s.executed = [] ∧ s.up = []

end Session
end Rcard
