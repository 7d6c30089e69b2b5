/-
The host proxy (`sysmodule/host_proxy/src/main.rs`) and the two transports.

A transport that has staged a request, or has been asked to send its last reply
again, notifies the host proxy and then waits.  Only a call of its
`deliver_reply` makes it leave that state.  The handler of the notification has
several returns that make no such call.

The handler runs with nobody in between: its calls to the transport are run to
their end, and they succeed.
-/
import Rcard.Tunnel.Dispatch
import Rcard.Tunnel.Usart
import Rcard.Tunnel.Usb

namespace Rcard.HostProxy

open Tunnel Prog

/-- The tasks, by the ids the build gives them.  The lock word holds the same
numbers. -/
structure Config where
  self : UInt32
  usbTask : Option UInt16
  usartTask : Option UInt16

inductive Transport where
  | usb
  | usart
  deriving DecidableEq, Repr

/-- The byte `LastDelivery` keeps for a transport. -/
def Transport.tag : Transport → UInt8
  | usb => 1
  | usart => 2

def Config.task (cfg : Config) : Transport → Option UInt16
  | .usb => cfg.usbTask
  | .usart => cfg.usartTask

def Config.transportTid (cfg : Config) (t : Transport) : UInt32 :=
  ((cfg.task t).map UInt16.toUInt32).getD 0

structure LastDelivery where
  transport : UInt8
  len : Nat
  deriving DecidableEq, Repr

def LastDelivery.new : LastDelivery := { transport := 0, len := 0 }

structure World where
  tun : Tunnel
  usb : Usb.State
  usart : Usart.DecodeState
  last : LastDelivery

def selectTransport (cfg : Config) (sender : UInt16) : Option Transport :=
  if cfg.usbTask = some sender then some .usb
  else if cfg.usartTask = some sender then some .usart
  else none

namespace World

def fetchPendingRequest (w : World) : Transport → Option Nat
  | .usb => (run exec (Usb.fetchPendingRequest w.usb) w.tun).2
  | .usart => Usart.fetchPendingRequest w.usart

def deliverReply (w : World) : Transport → World
  | .usb =>
    let (tun, usb, _) := run exec (Usb.deliverReply w.usb) w.tun
    { w with tun, usb }
  | .usart =>
    let (tun, usart) := run exec (Usart.deliverReply w.usart) w.tun
    { w with tun, usart }

def access (w : World) (p : TunnelProg Unit) : World :=
  { w with tun := (run exec p w.tun).1 }

end World

def codeDisconnected : UInt32 := 0xFFFFFFFF

def codeRedeliver : UInt32 := 1

/-- `handle_host_request` for code 1. -/
def redeliver (w : World) (t : Transport) : World :=
  if w.last.len = 0 then w
  else if w.last.transport ≠ t.tag then w
  else
    (w.access do
      let transportTid ← holder
      setLen (UInt32.ofNat w.last.len)
      transfer transportTid).deliverReply t

def handBack (cfg : Config) (w : World) (t : Transport) (len : Nat) : World :=
  ({ w with last := { transport := t.tag, len } }.access do
    setLen (UInt32.ofNat len)
    transfer (cfg.transportTid t)).deliverReply t

/-- `handle_host_request` for a staged request. -/
def serve (cfg : Config) (kernel : Kernel) (w : World) (t : Transport) : World :=
  match w.fetchPendingRequest t with
  | none => w
  | some requestLen =>
    if requestLen = 0 then w
    else
      let (data, outcome) := dispatchTunneledRequest kernel w.tun.data requestLen
      let w := { w with tun := { w.tun with data } }
      if 0 < outcome.frameLen then handBack cfg w t outcome.frameLen else w

def handleHostRequest (cfg : Config) (kernel : Kernel) (w : World) (sender : UInt16)
    (code : UInt32) : World :=
  match selectTransport cfg sender with
  | none => w
  | some t =>
    -- Revoking the handles does not touch the tunnel.
    if code = codeDisconnected then w
    else if code = codeRedeliver then redeliver w t
    else serve cfg kernel w t

/-! ## When the tunnel is free again -/

/-- The transport takes nothing from its wire until a reply is delivered. -/
def World.waiting (w : World) : Transport → Bool
  | .usb => w.usb.busy
  | .usart => w.usart.staged

/-- The host proxy has let go of the buffer, and the transport takes requests. -/
def Released (cfg : Config) (t : Transport) (w : World) : Prop :=
  w.tun.lock ≠ cfg.self ∧ w.waiting t = false

def Answerable (w : World) (t : Transport) (code : UInt32) : Prop :=
  if code = codeDisconnected then False
  else if code = codeRedeliver then w.last.len ≠ 0 ∧ w.last.transport = t.tag
  else ∃ len, w.fetchPendingRequest t = some len ∧ (parseRequest w.tun.data len).isSome

theorem World.released_deliverReply {cfg : Config} (hself : cfg.self ≠ free) (w : World)
    (t : Transport) : Released cfg t (w.deliverReply t) := by
  cases t with
  | usb =>
    simp only [World.deliverReply, Usb.deliverReply, run_bind]
    exact ⟨hself.symm, rfl⟩
  | usart =>
    exact ⟨hself.symm, rfl⟩

theorem released_redeliver_iff {cfg : Config} (hself : cfg.self ≠ free) (w : World)
    (t : Transport) :
    Released cfg t (redeliver w t) ↔
      (w.last.len ≠ 0 ∧ w.last.transport = t.tag) ∨ Released cfg t w := by
  rw [redeliver]
  by_cases hlen : w.last.len = 0
  · simp [hlen]
  · by_cases htag : w.last.transport = t.tag
    · rw [if_neg hlen, if_neg (not_not.mpr htag)]
      exact iff_of_true (World.released_deliverReply hself _ t) (.inl ⟨hlen, htag⟩)
    grind

theorem released_serve_iff {cfg : Config} (hself : cfg.self ≠ free) (kernel : Kernel) (w : World)
    (t : Transport) :
    Released cfg t (serve cfg kernel w t) ↔
      (∃ len, w.fetchPendingRequest t = some len ∧ (parseRequest w.tun.data len).isSome) ∨
        Released cfg t w := by
  rw [serve]
  cases hfetch : w.fetchPendingRequest t with
  | none => simp
  | some len =>
    simp only [Option.some.injEq, exists_eq_left']
    by_cases hzero : len = 0
    · subst hzero
      exact ⟨.inr, fun h => h.resolve_left Bool.false_ne_true⟩
    · rw [if_neg hzero]
      have hpos := dispatch_frameLen_pos_iff kernel w.tun.data len
      split
      case isTrue h =>
        exact iff_of_true (World.released_deliverReply hself _ t) (.inl (hpos.mp h))
      case isFalse h =>
        -- Only the data changed, and neither the lock nor the transport is in it.
        have hsame : ∀ data, Released cfg t { w with tun := { w.tun with data } } ↔
            Released cfg t w := by
          intro data
          cases t <;> rfl
        grind

/-- When the handler returns, the buffer and the transport are free exactly if
there was something to deliver, or they were free before. -/
theorem released_handleHostRequest_iff (cfg : Config) (kernel : Kernel) (w : World)
    {sender : UInt16} {t : Transport} (code : UInt32) (hself : cfg.self ≠ free)
    (hsender : selectTransport cfg sender = some t) :
    Released cfg t (handleHostRequest cfg kernel w sender code) ↔
      Answerable w t code ∨ Released cfg t w := by
  rw [handleHostRequest, hsender, Answerable]
  dsimp only
  by_cases hdisc : code = codeDisconnected
  · simp only [if_pos hdisc, false_or]
  · rw [if_neg hdisc]
    split
    · exact released_redeliver_iff hself w t
    · exact released_serve_iff hself kernel w t

/-- A build with the host proxy as task 1, the USB transport as task 2 and the
log task as task 3. -/
def threeTasks : Config := { self := 1, usbTask := some 2, usartTask := some 3 }

def noTarget : Kernel := fun _ _ _ _ => { response := none, leases := [] }

/-- The world after the log task has decoded these bytes. -/
def serialWorld (results : List Usart.Decoded) : World :=
  let cfg : TransportConfig := { selfTid := 3, hostProxy := some 1 }
  let (tun, usart) := run exec (results.foldlM (Usart.feedByte cfg) .new) Tunnel.new
  { tun, usart, usb := .new, last := .new }

/-- A staged request with one argument byte is answered with a tunnel error. -/
theorem released_handleHostRequest_iff_taskDead :
    Released threeTasks .usart (handleHostRequest threeTasks noTarget
      (serialWorld ([3, 1, 0, 0, 7, 0, 9, 0, 0, 0, 0, 0, 0].map .dataContinue ++ [.dataComplete]))
      3 0) := by
  refine (released_handleHostRequest_iff threeTasks noTarget _ 0 (by decide) (by decide)).mpr
    (.inl ?_)
  exact ⟨12, rfl, rfl⟩

/-- A request that is a bare header.  The log task stages it, the host proxy
cannot parse it and returns, and both wait for ever. -/
theorem bare_header_wedges :
    (serialWorld ([3, 1, 0, 0, 0, 0].map .dataContinue ++ [.dataComplete])).usart.staged = true ∧
      ¬ Released threeTasks .usart (handleHostRequest threeTasks noTarget
        (serialWorld ([3, 1, 0, 0, 0, 0].map .dataContinue ++ [.dataComplete])) 3 0) := by
  refine ⟨rfl, fun h => absurd h.1 ?_⟩
  decide

end Rcard.HostProxy
