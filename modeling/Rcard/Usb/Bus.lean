/-
The USB sysmodule (`sysmodule/usb`): the bus and its endpoints.

There is one bus.  `take` starts a session and the drop of the bus ends it; all that is
known of the session is one global record.  Endpoints are resources of their own and may
outlive the session that they were opened in.

The session of an endpoint and the handle it was opened with are not in the code.  They are
kept here to say what belongs to which session.  So is the traffic: what the operations on
endpoints did to the hardware.
-/
import Mathlib.Data.Nat.Bitwise

namespace Rcard.UsbBus

inductive UsbError where
  | alreadyTaken
  | notConfigured
  | invalidEndpoint
  | endpointBusy
  | stalled
  | disconnected
  | bufferOverflow
  | malformedIdentity
  deriving DecidableEq, Repr

inductive Direction where
  | dirOut
  | dirIn
  deriving DecidableEq, Repr

inductive BusState where
  | detached
  | powered
  | default
  | addressed
  | configured
  | suspended
  deriving DecidableEq, Repr

/-- The fields that only shape descriptors are left out. -/
structure EndpointConfig where
  number : Nat
  direction : Direction
  maxPacketSize : Nat
  deriving DecidableEq, Repr

/-- `endpoints_in` and `endpoints_out`, by the endpoint number less one. -/
abbrev Slots := Direction → Nat → Option EndpointConfig

def Slots.set (slots : Slots) (d : Direction) (i : Nat) (c : Option EndpointConfig) : Slots :=
  fun d' i' => if d' = d ∧ i' = i then c else slots d' i'

structure UsbGlobal where
  endpointCount : Nat
  slots : Slots
  /-- The endpoints of the class, and the state of the device built with it. -/
  device : Option (Slots × BusState)
  busTaken : Bool
  handlesIssued : Nat
  handlesConsumed : Nat
  endpointsOpened : Nat

namespace UsbGlobal

def new : UsbGlobal where
  endpointCount := 0
  slots := fun _ _ => none
  device := none
  busTaken := false
  handlesIssued := 0
  handlesConsumed := 0
  endpointsOpened := 0

def busState (usb : UsbGlobal) : BusState :=
  match usb.device with
  | some (_, state) => state
  | none => .detached

def identityBlobSize : Nat := 2048

/-- Of the identity blob, its length and whether it validates. -/
def take (usb : UsbGlobal) (blobLen : Nat) (valid : Bool) (endpoints : Nat) :
    UsbGlobal × Except UsbError Unit :=
  if usb.busTaken then (usb, .error .alreadyTaken)
  else if identityBlobSize < blobLen then (usb, .error .bufferOverflow)
  else if !valid then (usb, .error .malformedIdentity)
  else ({ usb with busTaken := true, endpointCount := endpoints }, .ok ())

def takeEndpointHandle (usb : UsbGlobal) : UsbGlobal × Option Nat :=
  if usb.endpointCount ≤ usb.handlesIssued then (usb, none)
  else ({ usb with handlesIssued := usb.handlesIssued + 1 }, some usb.handlesIssued)

def reset (_usb : UsbGlobal) : UsbGlobal := new

/-- The class takes the endpoints that are open, and the device starts out unaddressed. -/
def activate (usb : UsbGlobal) : UsbGlobal := { usb with device := some (usb.slots, .default) }

/-- An interrupt: the host may have brought the device into another state. -/
def poll (usb : UsbGlobal) (state : BusState) : UsbGlobal :=
  { usb with device := usb.device.map fun device => (device.1, state) }

/-- `1u8 << handle_id`, with the shift distance masked as in a release build. -/
def handleMask (handleId : Nat) : Nat := 1 <<< (handleId % 8)

section

variable (usb : UsbGlobal)

def consume (handleId : Nat) : UsbGlobal :=
  { usb with handlesConsumed := usb.handlesConsumed ||| handleMask handleId }

/-- The handle is consumed even if the endpoint cannot be opened. -/
def openEndpoint (handle : Nat) (config : EndpointConfig) :
    UsbGlobal × Except UsbError Unit :=
  let handleId := handle % 2 ^ 8
  if !usb.busTaken then (usb, .error .notConfigured)
  else if usb.endpointCount ≤ handleId then (usb, .error .invalidEndpoint)
  else if usb.handlesConsumed &&& handleMask handleId ≠ 0 then (usb, .error .invalidEndpoint)
  else if config.number = 0 ∨ 8 ≤ config.number then
    (usb.consume handleId, .error .invalidEndpoint)
  else if (usb.slots config.direction (config.number - 1)).isSome then
    (usb.consume handleId, .error .endpointBusy)
  else
    let usb : UsbGlobal := { usb.consume handleId with
      slots := usb.slots.set config.direction (config.number - 1) (some config)
      endpointsOpened := usb.endpointsOpened + 1 }
    (if usb.endpointsOpened = usb.endpointCount then usb.activate else usb, .ok ())

def dropEndpoint (config : EndpointConfig) : UsbGlobal :=
  { usb with
    slots := usb.slots.set config.direction (config.number - 1) none
    endpointsOpened := usb.endpointsOpened - 1 }

/-- The checks of `write` and `read` before they reach the hardware endpoint. -/
def transfer (config : EndpointConfig) (direction : Direction) :
    Except UsbError Unit := do
  if config.direction ≠ direction then throw .invalidEndpoint
  if usb.busState ≠ .configured then throw .disconnected
  match usb.device with
  | none => throw .notConfigured
  | some (slots, _) =>
    if (slots direction (config.number - 1)).isNone then throw .invalidEndpoint
    return ()

end

end UsbGlobal

/-! ## Resources -/

/-- An endpoint resource, with the session and the handle that it was opened with. -/
structure Endpoint where
  key : Nat
  config : EndpointConfig
  session : Nat
  handle : Nat
  deriving DecidableEq, Repr

/-- An endpoint that was opened, with the number of handles issued by then. -/
structure Opening where
  session : Nat
  handle : Nat
  issued : Nat
  deriving DecidableEq, Repr

inductive Act where
  | wrote (bytes : List UInt8)
  | took (bytes : List UInt8)
  | stalled (on : Bool)
  deriving DecidableEq, Repr

/-- What an endpoint did to the hardware, and the session it happened in. -/
structure Traffic where
  session : Option Nat
  endpoint : Endpoint
  act : Act
  deriving DecidableEq, Repr

structure State where
  usb : UsbGlobal
  session : Nat
  endpoints : List Endpoint
  nextKey : Nat
  openings : List Opening
  traffic : List Traffic

inductive Event where
  | take (blobLen : Nat) (valid : Bool) (endpoints : UInt8)
  | takeEndpointHandle
  | dropBus
  | poll (state : BusState)
  | openEndpoint (handle : UInt32) (config : EndpointConfig)
  /-- The hardware endpoint may have no room. -/
  | write (key : Nat) (data : List UInt8) (room : Bool)
  /-- The packet that the hardware endpoint has, if it has one. -/
  | read (key : Nat) (packet : Option (List UInt8))
  | setStall (key : Nat) (stalled : Bool)
  | dropEndpoint (key : Nat)
  deriving Repr

namespace State

def start : State where
  usb := .new
  session := 0
  endpoints := []
  nextKey := 0
  openings := []
  traffic := []

def endpoint (s : State) (key : Nat) : Option Endpoint :=
  s.endpoints.find? fun ep => ep.key = key

def record (s : State) (ep : Endpoint) (act : Act) : State :=
  { s with traffic := s.traffic ++ [⟨if s.usb.busTaken then some s.session else none, ep, act⟩] }

def take (s : State) (blobLen : Nat) (valid : Bool) (endpoints : UInt8) : State :=
  match s.usb.take blobLen valid endpoints.toNat with
  | (usb, .ok ()) => { s with usb, session := s.session + 1 }
  | (usb, .error _) => { s with usb }

def openEndpoint (s : State) (handle : UInt32) (config : EndpointConfig) : State :=
  match s.usb.openEndpoint handle.toNat config with
  | (usb, .ok ()) =>
    { s with
      usb
      endpoints := s.endpoints ++ [⟨s.nextKey, config, s.session, handle.toNat⟩]
      nextKey := s.nextKey + 1
      openings := s.openings ++ [⟨s.session, handle.toNat, s.usb.handlesIssued⟩] }
  | (usb, .error _) => { s with usb }

def bufLen : Nat := 64

/-- A packet is cut to the maximum size of the endpoint.  The task panics if it does not
fit the buffer on the stack. -/
def write (s : State) (ep : Endpoint) (data : List UInt8) (room : Bool) : Option State :=
  match s.usb.transfer ep.config .dirIn with
  | .ok () =>
    let packet := data.take ep.config.maxPacketSize
    if bufLen < packet.length then none
    else some (if room then s.record ep (.wrote packet) else s)
  | .error _ => some s

/-- A packet that does not fit the buffer is an error. -/
def read (s : State) (ep : Endpoint) (packet : Option (List UInt8)) : State :=
  match s.usb.transfer ep.config .dirOut with
  | .ok () =>
    match packet with
    | some bytes => if bufLen < bytes.length then s else s.record ep (.took bytes)
    | none => s
  | .error _ => s

def setStall (s : State) (ep : Endpoint) (stalled : Bool) : State := s.record ep (.stalled stalled)

def dropEndpoint (s : State) (ep : Endpoint) : State :=
  { s with usb := s.usb.dropEndpoint ep.config, endpoints := s.endpoints.erase ep }

/-- `none` if there is no such resource, or the task panics. -/
def step (s : State) : Event → Option State
  | .take blobLen valid endpoints => some (s.take blobLen valid endpoints)
  | .takeEndpointHandle =>
    if s.usb.busTaken then some { s with usb := s.usb.takeEndpointHandle.1 } else none
  | .dropBus => if s.usb.busTaken then some { s with usb := s.usb.reset } else none
  | .poll state => some { s with usb := s.usb.poll state }
  | .openEndpoint handle config => some (s.openEndpoint handle config)
  | .write key data room => (s.endpoint key).bind fun ep => s.write ep data room
  | .read key packet => (s.endpoint key).map fun ep => s.read ep packet
  | .setStall key stalled => (s.endpoint key).map fun ep => s.setStall ep stalled
  | .dropEndpoint key => (s.endpoint key).map s.dropEndpoint

def run : State → List Event → Option State
  | s, [] => some s
  | s, e :: es => (s.step e).bind fun s' => run s' es

end State

end Rcard.UsbBus
