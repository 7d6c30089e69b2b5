/-
The USB transport (`sysmodule/usb_protocol_host/src/main.rs`).

A bulk transfer carries one frame and its CRC, and ends with a short packet.
Packets go straight into the tunnel buffer.  At the end of the transfer the
frame is checked and staged for the host proxy, answered with a tunnel error, or
taken as a request to send the last reply again.

The phase `overflowed` has two ways in.  A transfer that grows too long enters it
with the lock, and a transfer whose first packet finds the buffer taken enters it
without.  Both leave it by `release`.

The endpoint takes a packet of up to 64 bytes whole or fails.  A busy endpoint is
asked again until it is not, so only the answer after that is modelled.  Both
endpoints are open before the task takes its first call.
-/
import Mathlib.Logic.Function.Iterate
import Rcard.Lib.Interleave
import Rcard.Tunnel.Buffer

namespace Rcard.Usb

open Tunnel Prog Option Triple

def packetSize : Nat := 64

/-! ## The checksum -/

/-- One shift of the CRC-16/CCITT-FALSE register. -/
def crcShift (crc : UInt16) : UInt16 :=
  if crc &&& 0x8000 ≠ 0 then (crc <<< 1) ^^^ 0x1021 else crc <<< 1

def crc16Update (crc : UInt16) (data : List UInt8) : UInt16 :=
  data.foldl (fun crc b => crcShift^[8] (crc ^^^ b.toUInt16 <<< (8 : UInt16))) crc

def crc16 (data : List UInt8) : UInt16 := crc16Update 0xFFFF data

def crcBytes (data : List UInt8) : List UInt8 :=
  [(crc16 data >>> 8).toUInt8, (crc16 data).toUInt8]

-- The check value of this CRC, over the digits 1 to 9.
example : crc16 [0x31, 0x32, 0x33, 0x34, 0x35, 0x36, 0x37, 0x38, 0x39] = 0x29B1 := by
  decide +kernel

/-- A frame with its checksum, and a pad byte if the packets would all be full. -/
def wrapFrame (frame : List UInt8) : List UInt8 :=
  let wire := frame ++ crcBytes frame
  if wire.length % packetSize = 0 then wire ++ [0] else wire

/-! ## State -/

inductive Phase where
  | idle
  | accumulating
  | overflowed
  | staged
  | retransmitting
  deriving DecidableEq, Repr

inductive LastSent where
  | none
  | ipcReply
  | error (wire : List UInt8)
  deriving DecidableEq, Repr

structure State where
  phase : Phase
  len : Nat
  lastSent : LastSent
  disconnected : Bool
  /-- A short packet came, and the transfer has to be processed before the next
  call. -/
  complete : Bool
  deriving DecidableEq, Repr

def State.new : State :=
  { phase := .idle, len := 0, lastSent := .none, disconnected := true, complete := false }

def State.busy (st : State) : Bool := st.phase = .staged || st.phase = .retransmitting

/-! ## Writing to the host -/

/-- The packets of at most 64 bytes `write_usb` cuts its data into. -/
def packets (data : List UInt8) : List (List UInt8) :=
  (List.range ((data.length + 63) / packetSize)).map fun i =>
    (data.drop (i * packetSize)).take packetSize

def writePackets : List (List UInt8) → TunnelProg Bool
  | [] => return true
  | p :: ps => do if ← send (.usb p) then writePackets ps else return false

def writeUsb (data : List UInt8) : TunnelProg Bool := writePackets (packets data)

/-- What `deliver_reply` hands to `write_usb`, piece by piece. -/
def replyPieces (data : List UInt8) : List (List UInt8) :=
  let fullChunks := data.length / packetSize
  let tail := data.drop (fullChunks * packetSize)
  let packet := tail ++ crcBytes data
  (List.range fullChunks).map (fun i => (data.drop (i * packetSize)).take packetSize) ++
    if tail.length > 0 then
      if packet.length ≤ packetSize then
        if packet.length = packetSize then [packet, [0]] else [packet]
      else [packet.take packetSize, packet.drop packetSize]
    else [crcBytes data]

def writePieces : List (List UInt8) → TunnelProg Bool
  | [] => return true
  | d :: ds => do if ← writeUsb d then writePieces ds else return false

def deliverReply (st : State) : TunnelProg (State × Bool) := do
  let len ← getLen
  let data ← read len.toNat
  let result ← writePieces (replyPieces data)
  release
  return ({ st with phase := .idle, len := 0, lastSent := .ipcReply }, result)

/-- `fetch_pending_request`.  `none` is the error `NoPendingRequest`. -/
def fetchPendingRequest (st : State) : TunnelProg (Option Nat) :=
  if st.phase ≠ .staged then return none else do return some (← getLen).toNat

/-- `write_tunnel_error`, whose buffer of 16 bytes is always large enough. -/
def writeTunnelError (st : State) (seq : UInt16) (code : TunnelErrorCode) : TunnelProg State := do
  match encodeSimple opTunnelError (TunnelError.toPayload code) 16 seq with
  | none => return st
  | some frame =>
    let wire := wrapFrame frame
    let _ ← writeUsb wire
    return { st with lastSent := .error wire }

def sendRequestCorrupted (st : State) : TunnelProg State :=
  writeTunnelError st 0xFFFF .requestCorrupted

/-! ## Receiving -/

def storePacket (st : State) (packet : List UInt8) : TunnelProg State :=
  if st.len + packet.length > tunnelDataSize then
    return { st with phase := .overflowed, len := 0 }
  else do
    write st.len packet
    return { st with len := st.len + packet.length }

def accumulate (cfg : TransportConfig) (st : State) (packet : List UInt8) : TunnelProg State :=
  if st.phase = .overflowed then return st
  else if st.phase = .idle then do
    if ← tryAcquireOrWipe cfg.selfTid then storePacket { st with phase := .accumulating } packet
    else return { st with phase := .overflowed }
  else storePacket st packet

def onPacket (cfg : TransportConfig) (st : State) (packet : List UInt8) : TunnelProg State := do
  let st ← accumulate cfg { st with disconnected := false } packet
  return { st with complete := packet.length < packetSize }

/-- `handle_usb_event`, when the endpoint reports the bus as not configured. -/
def onDisconnected (st : State) : TunnelProg State :=
  if st.disconnected then return st
  else do
    let _ ← send (.notify 0xFFFFFFFF)
    if st.phase ≠ .idle then release
    return { st with phase := .idle, len := 0, disconnected := true }

def dropTransfer (st : State) : TunnelProg State := do
  release
  return { st with phase := .idle, len := 0 }

def rejectTransfer (st : State) : TunnelProg State := do
  let st ← dropTransfer st
  sendRequestCorrupted st

/-- The host asks for the last reply again. -/
def retransmit (st : State) : TunnelProg State := do
  release
  match st.lastSent with
  | .ipcReply =>
    let _ ← send (.notify 1)
    return { st with phase := .retransmitting, len := 0 }
  | .error wire =>
    let _ ← writeUsb wire
    return { st with phase := .idle, len := 0 }
  | .none => return { st with phase := .idle, len := 0 }

/-- A frame with a good checksum.  The flag says that it was staged. -/
def acceptFrame (cfg : TransportConfig) (st : State) (frame : RawFrame) :
    TunnelProg (State × Bool) :=
  match frame.parseTunnelError with
  | some .replyCorrupted => do return (← retransmit st, false)
  | some _ => do return (← dropTransfer st, false)
  | none =>
    if frame.asIpcRequest.isNone then do return (← dropTransfer st, false)
    else if cfg.hostProxy.isNone then do
      let st ← dropTransfer st
      return (← writeTunnelError st frame.header.seq .noHostForwarding, false)
    else do
      setLen (UInt32.ofNat frame.header.frameSize)
      transfer cfg.hostProxyTid
      return ({ st with phase := .staged }, true)

/-- The frame in the bytes of a transfer, if header, length and checksum are good. -/
def checkTransfer (bytes : List UInt8) : Option RawFrame :=
  if bytes.length < headerSize + 2 then none
  else
    match FrameHeader.decode bytes with
    | .error _ => none
    | .ok header =>
      if header.frameSize + 2 > bytes.length then none
      else if (bytes.drop header.frameSize).take 2 ≠ crcBytes (bytes.take header.frameSize) then
        none
      else some { header, payload := (bytes.take header.frameSize).drop headerSize }

def processAccumulatedFrame (cfg : TransportConfig) (st : State) : TunnelProg (State × Bool) :=
  if st.phase = .overflowed then do return (← rejectTransfer st, false)
  else do
    match checkTransfer (← read st.len) with
    | none => return (← rejectTransfer st, false)
    | some frame => acceptFrame cfg st frame

/-- The end of a transfer in `handle_usb_event`. -/
def onComplete (cfg : TransportConfig) (st : State) : TunnelProg State := do
  let (st, staged) ← processAccumulatedFrame cfg st
  if staged then
    let _ ← send (.notify 0)
  return { st with complete := false }

/-! ## The task among the others -/

inductive Call where
  | packet (bytes : List UInt8)
  /-- The end of a transfer, right after its short packet. -/
  | complete
  | disconnected
  | deliver
  deriving DecidableEq, Repr

/-- The program of a call.  Nothing is read from the endpoint while a request is
staged or a retransmission is under way. -/
def start (cfg : TransportConfig) (st : State) : Call → Option (TunnelProg State)
  | .packet bytes =>
    if st.complete || st.busy || bytes.length = 0 || packetSize < bytes.length then none
    else some (onPacket cfg st bytes)
  | .complete => if st.complete then some (onComplete cfg st) else none
  | .disconnected => if st.complete || st.busy then none else some (onDisconnected st)
  | .deliver => if st.complete then none else some do return (← deliverReply st).1

def machine (cfg : TransportConfig) : Machine Tunnel State Call Access Other Access.Answer where
  exec := exec
  start c st := start cfg st c
  other := Other.apply

def initial (t : Tunnel) : Machine.State Tunnel State Call Access Access.Answer :=
  { shared := t, loc := .new, running := none }

/-- The condition on a call.  An overflowed transfer ends, and a reply is
delivered, while the buffer is the transport's. -/
def Orderly (cfg : TransportConfig) : Call → State → Tunnel → Prop
  | .packet _, _, _ => True
  | .complete, st, s => st.phase = .overflowed → s.lock = cfg.selfTid
  | .disconnected, st, s =>
    st.disconnected = false → st.phase = .overflowed → s.lock = cfg.selfTid
  | .deliver, _, s => s.lock = cfg.selfTid

/-! ## Ownership -/

section Ownership

variable {cfg : TransportConfig}

structure Flags (tid : UInt32) (st : State) (s : Tunnel) : Prop where
  owned : st.phase = .accumulating → Owned tid s
  complete : st.complete = true → st.phase = .accumulating ∨ st.phase = .overflowed

theorem stable_flags (tid : UInt32) (st : State) : Stable (KeepsLock tid) (Flags tid st) :=
  fun _ _ hr h => ⟨fun hp => hr (h.owned hp), h.complete⟩

variable {st : State}

theorem Flags.of_quiet {tid : UInt32} {s : Tunnel} (hp : st.phase ≠ .accumulating)
    (hc : st.complete = false) : Flags tid st s :=
  ⟨fun h => absurd h hp, fun h => absurd (hc.symm.trans h) (by decide)⟩

/-! Writing to the endpoint leaves the buffer alone, whoever has it. -/

def LockOnly (P : Tunnel → Prop) : Prop := ∀ s s' : Tunnel, s'.lock = s.lock → P s → P s'

theorem triple_writePackets {P : Tunnel → Prop} (hstable : Stable (KeepsLock cfg.selfTid) P)
    (hlock : LockOnly P) (ps : List (List UInt8)) :
    OwnedTriple cfg.selfTid P (writePackets ps) fun _ => P := by
  induction ps with
  | nil => exact ret hstable fun _ => id
  | cons p ps ih =>
    refine triple_free rfl hstable (fun s hs => hlock _ _ (exec_send_lock s _) hs) fun ok => ?_
    split
    · exact ih
    · exact ret hstable fun _ => id

theorem triple_writePieces {P : Tunnel → Prop} (hstable : Stable (KeepsLock cfg.selfTid) P)
    (hlock : LockOnly P) (ds : List (List UInt8)) :
    OwnedTriple cfg.selfTid P (writePieces ds) fun _ => P := by
  induction ds with
  | nil => exact ret hstable fun _ => id
  | cons d ds ih =>
    refine bind keepsLock_refl (triple_writePackets hstable hlock _) fun ok => ?_
    split
    · exact ih
    · exact ret hstable fun _ => id

theorem lockOnly_true : LockOnly fun _ => True := fun _ _ _ h => h

/-- Once the buffer is given up, what the transport still writes is harmless. -/
theorem triple_writeTunnelError (st : State) (seq : UInt16) (code : TunnelErrorCode) :
    OwnedTriple cfg.selfTid (fun _ => True) (writeTunnelError st seq code)
      fun st' _ => st'.phase = st.phase ∧ st'.complete = st.complete := by
  rw [writeTunnelError]
  split
  · exact ret stable_true fun _ _ => ⟨rfl, rfl⟩
  · exact bind keepsLock_refl (triple_writePackets stable_true lockOnly_true _)
      fun _ => ret stable_true fun _ _ => ⟨rfl, rfl⟩

/-! ### The end of a transfer -/

def Over (st : State) (_ : Tunnel) : Prop := st.phase ≠ .accumulating

section

variable (st : State)

theorem stable_over : Stable (KeepsLock cfg.selfTid) (Over st) :=
  fun _ _ _ h => h

theorem triple_dropTransfer : OwnedTriple cfg.selfTid (Owned cfg.selfTid) (dropTransfer st) Over :=
  triple_give fun _ => ret stable_true fun _ _ => nofun

theorem triple_writeTunnelError_over (seq : UInt16) (code : TunnelErrorCode) :
    OwnedTriple cfg.selfTid (Over st) (writeTunnelError st seq code) Over := by
  intro s hs
  refine Safe.mono (fun st' _ h => ?_) (triple_writeTunnelError st seq code s trivial)
  rw [Over, h.1]
  exact hs

theorem triple_rejectTransfer :
    OwnedTriple cfg.selfTid (Owned cfg.selfTid) (rejectTransfer st) Over :=
  bind keepsLock_refl (triple_dropTransfer st) fun st' =>
    triple_writeTunnelError_over st' _ _

theorem triple_retransmit : OwnedTriple cfg.selfTid (Owned cfg.selfTid) (retransmit st) Over := by
  refine triple_give fun _ => ?_
  cases st.lastSent with
  | none => exact ret stable_true fun _ _ => nofun
  | ipcReply =>
    exact triple_free rfl stable_true (fun _ _ => trivial) fun _ =>
      ret stable_true fun _ _ => nofun
  | error wire =>
    exact bind keepsLock_refl (triple_writePackets stable_true lockOnly_true _)
      fun _ => ret stable_true fun _ _ => nofun

theorem triple_acceptFrame (frame : RawFrame) :
    OwnedTriple cfg.selfTid (Owned cfg.selfTid) (acceptFrame cfg st frame) fun r => Over r.1 := by
  have hdone : ∀ (staged : Bool) (st' : State),
      OwnedTriple cfg.selfTid (Over st') (pure (st', staged)) fun r => Over r.1 :=
    fun _ st' => ret (stable_over st') fun _ => id
  rw [acceptFrame]
  split
  · exact bind keepsLock_refl (triple_retransmit st) (hdone false)
  · exact bind keepsLock_refl (triple_dropTransfer st) (hdone false)
  · split
    · exact bind keepsLock_refl (triple_dropTransfer st) (hdone false)
    · split
      · exact bind keepsLock_refl (triple_dropTransfer st) fun st' =>
          bind keepsLock_refl (triple_writeTunnelError_over st' _ _) (hdone false)
      · exact triple_keep (fun _ => rfl) fun _ => triple_give fun _ =>
          ret stable_true fun _ _ => nofun

theorem triple_processAccumulatedFrame :
    OwnedTriple cfg.selfTid (Owned cfg.selfTid) (processAccumulatedFrame cfg st)
      fun r => Over r.1 := by
  have hreject : OwnedTriple cfg.selfTid (Owned cfg.selfTid)
      (do return (← rejectTransfer st, false)) fun r : State × Bool => Over r.1 :=
    bind keepsLock_refl (triple_rejectTransfer st) fun st' =>
      ret (stable_over st') fun _ => id
  rw [processAccumulatedFrame]
  split
  · exact hreject
  · refine triple_keep (fun _ => rfl) fun bytes => ?_
    split
    · exact hreject
    · exact triple_acceptFrame st _

theorem triple_onComplete :
    OwnedTriple cfg.selfTid (Owned cfg.selfTid) (onComplete cfg st) (Flags cfg.selfTid) := by
  refine bind keepsLock_refl (triple_processAccumulatedFrame st) fun r => ?_
  rcases r with ⟨st', staged⟩
  cases staged with
  | true =>
    exact triple_free rfl (stable_over st') (fun _ => id) fun _ =>
      ret (stable_over st') fun _ h => Flags.of_quiet h rfl
  | false => exact ret (stable_over st') fun _ h => Flags.of_quiet h rfl

end

/-! ### Packets -/

/-- A transfer is under way: with the buffer, or without. -/
structure UnderWay (tid : UInt32) (st : State) (s : Tunnel) : Prop where
  owned : st.phase = .accumulating → Owned tid s
  phase : st.phase = .accumulating ∨ st.phase = .overflowed

theorem stable_underWay (tid : UInt32) (st : State) : Stable (KeepsLock tid) (UnderWay tid st) :=
  fun _ _ hr h => ⟨fun hp => hr (h.owned hp), h.phase⟩

theorem triple_storePacket (hst : st.phase = .accumulating) (packet : List UInt8) :
    OwnedTriple cfg.selfTid (Owned cfg.selfTid) (storePacket st packet) (UnderWay cfg.selfTid) := by
  rw [storePacket]
  split
  · exact ret stable_owned fun _ _ => ⟨nofun, .inr rfl⟩
  · exact triple_keep (fun _ => rfl) fun _ =>
      ret stable_owned fun _ h => ⟨fun _ => h, .inl hst⟩

theorem triple_accumulate (st : State) (hbusy : st.busy = false) (packet : List UInt8) :
    OwnedTriple cfg.selfTid (Flags cfg.selfTid st) (accumulate cfg st packet)
      (UnderWay cfg.selfTid) := by
  rw [accumulate]
  split
  case isTrue h =>
    exact ret (stable_flags _ st) fun s hs => ⟨hs.owned, .inr h⟩
  case isFalse h =>
    split
    · refine bind keepsLock_refl (triple_of_true triple_tryAcquireOrWipe) fun ok => ?_
      cases ok with
      | true =>
        intro s hs
        exact triple_storePacket rfl packet s (hs rfl)
      | false => exact ret (stable_owned_of _) fun _ _ => ⟨nofun, .inr rfl⟩
    case isFalse hidle =>
      have hacc : st.phase = .accumulating := by
        cases hp : st.phase <;> simp_all [State.busy]
      exact triple_of_owned (fun s hs => hs.owned hacc) (triple_storePacket hacc packet)

theorem triple_onPacket (hbusy : st.busy = false) (packet : List UInt8) :
    OwnedTriple cfg.selfTid (Flags cfg.selfTid st) (onPacket cfg st packet)
      (Flags cfg.selfTid) := by
  refine bind keepsLock_refl
    ((triple_accumulate { st with disconnected := false } hbusy packet).weaken ?_) fun st' => ?_
  · exact fun s hs => ⟨hs.owned, hs.complete⟩
  · exact ret (stable_underWay _ st') fun s hs => ⟨hs.owned, fun _ => hs.phase⟩

/-! ### The other calls -/

theorem triple_onDisconnected (hbusy : st.busy = false) (hcomplete : st.complete = false) :
    OwnedTriple cfg.selfTid
      (fun s => Flags cfg.selfTid st s ∧
        (st.disconnected = false → st.phase = .overflowed → s.lock = cfg.selfTid))
      (onDisconnected st) (Flags cfg.selfTid) := by
  rw [onDisconnected]
  split
  case isTrue h =>
    exact ret (fun s s' hr hs => ⟨stable_flags _ st s s' hr hs.1,
      fun hd hp => hr (hs.2 hd hp)⟩) fun _ hs => hs.1
  case isFalse h =>
    have hquiet : ∀ s : Tunnel, Flags cfg.selfTid
        { st with phase := .idle, len := 0, disconnected := true } s :=
      fun _ => Flags.of_quiet nofun hcomplete
    by_cases hidle : st.phase = .idle
    · simp only [hidle]
      exact triple_of_true (triple_free rfl stable_true (fun _ _ => trivial) fun _ =>
        ret stable_true fun s _ => hquiet s)
    · -- Not busy and not idle: the transport has the buffer, by the flags or by the guard.
      simp only [ne_eq, hidle]
      refine triple_of_owned (fun s hs => ?_) (triple_send fun _ =>
        triple_give fun _ => ret stable_true fun s _ => hquiet s)
      cases hp : st.phase with
      | accumulating => exact hs.1.owned hp
      | overflowed => exact hs.2 (Bool.eq_false_iff.mpr h) hp
      | _ => simp_all [State.busy]

theorem triple_deliverReply (hcomplete : st.complete = false) :
    OwnedTriple cfg.selfTid (Owned cfg.selfTid) (deliverReply st) fun r => Flags cfg.selfTid r.1 :=
  triple_keep (fun _ => rfl) fun _ => triple_keep (fun _ => rfl) fun _ =>
    bind keepsLock_refl (triple_writePieces stable_owned (fun _ _ h hs => h.trans hs) _) fun _ =>
      triple_give fun _ => ret stable_true fun _ _ => Flags.of_quiet nofun hcomplete

theorem triple_call (c : Call) (st : State) (p : TunnelProg State)
    (hp : (machine cfg).start c st = some p) :
    OwnedTriple cfg.selfTid (fun s => Flags cfg.selfTid st s ∧ Orderly cfg c st s) p
      (Flags cfg.selfTid) := by
  cases c with
  | packet bytes =>
    obtain ⟨hno, heq⟩ := ite_none_left_eq_some.mp hp
    cases heq
    simp only [Bool.or_eq_true, not_or] at hno
    exact (triple_onPacket (Bool.eq_false_iff.mpr hno.1.1.2) bytes).weaken fun _ hs => hs.1
  | complete =>
    obtain ⟨hc, heq⟩ := ite_none_right_eq_some.mp hp
    cases heq
    refine triple_of_owned (fun s hs => ?_) (triple_onComplete st)
    rcases hs.1.complete hc with hacc | hover
    · exact hs.1.owned hacc
    · exact hs.2 hover
  | disconnected =>
    obtain ⟨hno, heq⟩ := ite_none_left_eq_some.mp hp
    cases heq
    simp only [Bool.or_eq_true, not_or] at hno
    exact triple_onDisconnected (Bool.eq_false_iff.mpr hno.2) (Bool.eq_false_iff.mpr hno.1)
  | deliver =>
    obtain ⟨hno, heq⟩ := ite_none_left_eq_some.mp hp
    cases heq
    refine triple_of_owned (fun s hs => hs.2) (bind keepsLock_refl
      (triple_deliverReply (Bool.eq_false_iff.mpr hno)) fun r => ?_)
    exact ret (stable_flags _ r.1) fun _ => id

/-- In every run of the USB transport among disciplined tasks whose calls are
orderly, the transport writes the data, sets the length and passes on or gives up
the lock only while the lock is its own.  While it is not, the buffer stays as it
is. -/
theorem access_owned (cfg : TransportConfig) (t : Tunnel) (hfree : cfg.selfTid ≠ free)
    {s : Machine.State Tunnel State Call Access Access.Answer}
    (h : (machine cfg).Reaches (Orderly cfg) (fun s o => Other.Disciplined cfg.selfTid s o)
      (initial t) s)
    {c : Call} {a : Access} {k : a.Answer → TunnelProg State}
    (hrun : s.running = some (c, .act a k)) :
    (a.owned = true → s.shared.lock = cfg.selfTid) ∧
      (s.shared.lock ≠ cfg.selfTid →
        (exec s.shared a).1.data = s.shared.data ∧ (exec s.shared a).1.len = s.shared.len) := by
  have hstart : Machine.Sound (machine cfg) (KeepsLock cfg.selfTid)
      (fun _ => Permitted cfg.selfTid) (Flags cfg.selfTid) (initial t) :=
    Flags.of_quiet nofun rfl
  have hsound := Machine.Reaches.sound keepsLock_refl keepsLock_trans
    (stable_flags cfg.selfTid) (Other.keepsLock hfree) triple_call hstart h
  have hok : Permitted cfg.selfTid s.shared a := hsound.permitted keepsLock_refl hrun
  exact ⟨hok, fun hne => exec_data_of_not_owned fun howned => hne (hok howned)⟩

end Ownership

/-- A build with the host proxy as task 1 and the USB transport as task 2. -/
def pair : TransportConfig := { selfTid := 2, hostProxy := some 1 }

/-- The first packet of a transfer is stored under the transport's lock. -/
theorem access_owned_first :
    ∃ s : Machine.State Tunnel State Call Access Access.Answer, ∃ k,
      s.running = some (.packet [1], .act (.write 0 [1]) k) ∧ s.shared.lock = pair.selfTid := by
  have h₀ : (machine pair).Reaches (Orderly pair)
      (fun s o => Other.Disciplined pair.selfTid s o) (initial Tunnel.new)
      (initial Tunnel.new) := .start
  have h₁ := (h₀.step (.call (Call.packet [1])) trivial rfl).step .act trivial rfl
  exact ⟨_, _, rfl, (access_owned pair Tunnel.new (by decide) h₁ rfl).1 rfl⟩

/-- A transfer of one short packet, while task 3 has the buffer. -/
def transferWhileTaken : List (Machine.Event Call Other) :=
  [.other (.acquire 3), .call (.packet [1]), .act, .act, .act, .finish, .call .complete]

/-- The transport does not get the lock, and then releases the lock of task 3. -/
theorem rejected_transfer_releases_lock :
    ∃ s, transferWhileTaken.foldlM (machine pair).step (initial Tunnel.new) = some s ∧
      s.shared.lock = 3 ∧ s.next = some (.complete, .release) :=
  ⟨_, rfl, rfl, rfl⟩

end Rcard.Usb
