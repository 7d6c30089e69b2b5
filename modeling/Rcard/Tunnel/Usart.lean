/-
The serial transport (`sysmodule/log/src/transport.rs`).

Bytes from the serial line go through a streaming COBS decoder, and decoded
bytes go straight into the tunnel buffer.  A complete frame is dispatched on
its type byte: an IPC request is staged for the host proxy, which then owns the
buffer until it hands a reply back through `deliver_reply`.

The decoder is the `cobs` crate's.  Nothing is assumed of it here: a decoder is
any state machine with the four results of the crate.
-/
import Rcard.Lib.Interleave
import Rcard.Tunnel.Buffer

namespace Rcard.Usart

open Tunnel Prog Option Bool Triple

inductive Decoded where
  | dataContinue (byte : UInt8)
  | dataComplete
  | noData
  | error
  deriving DecidableEq, Repr

structure Decoder where
  State : Type
  idle : State
  feed : State → UInt8 → State × Decoded

structure DecodeState where
  writePos : Nat
  stagedLen : Nat
  staged : Bool
  truncated : Bool
  locked : Bool
  deriving DecidableEq, Repr

def DecodeState.new : DecodeState :=
  { writePos := 0, stagedLen := 0, staged := false, truncated := false, locked := false }

def typeIpcReply : UInt8 := 0x02
def typeIpcRequest : UInt8 := 0x03
def typeControlRequest : UInt8 := 0x04

/-- `send_tunnel_error`, whose buffer of 16 bytes is always large enough. -/
def sendTunnelError (seq : UInt16) (code : TunnelErrorCode) : TunnelProg Unit := do
  match encodeSimple opTunnelError (TunnelError.toPayload code) 16 seq with
  | some frame => let _ ← send (.usart typeIpcReply frame)
  | none => return ()

def stageIpcRequest (cfg : TransportConfig) (body : List UInt8) : TunnelProg Bool :=
  match FrameHeader.decode body with
  | .error _ => return false
  | .ok header =>
    if header.frameType ≠ .ipcRequest then return false
    else if cfg.hostProxy.isNone then do
      sendTunnelError header.seq .noHostForwarding
      return false
    else do
      let _ ← send (.notify 0)
      return true

/-- `handle_control_request`.  The identity also goes to the supervisor, which
is not modelled. -/
def handleControlRequest (body : List UInt8) : TunnelProg Unit :=
  match FrameHeader.decode body with
  | .error _ => return ()
  | .ok header =>
    if header.frameType ≠ .simple then return ()
    else
      match body[headerSize]? with
      | none => return ()
      | some opcode =>
        if opcode ≠ opMoshiMoshi then return ()
        else do
          let _ ← send (.awake header.seq)

/-- The lock, taken at the first byte of a frame.  `none` if it is not to be
had. -/
def ensureLocked (cfg : TransportConfig) (ds : DecodeState) : TunnelProg (Option DecodeState) :=
  if !ds.locked && !ds.staged then do
    if ← tryAcquireOrWipe cfg.selfTid then return some { ds with locked := true }
    else return none
  else return some ds

def storeByte (ds : DecodeState) (byte : UInt8) : TunnelProg DecodeState :=
  if ds.writePos < tunnelDataSize then do
    write ds.writePos [byte]
    return { ds with writePos := ds.writePos + 1 }
  else return { ds with truncated := true }

def onData (cfg : TransportConfig) (ds : DecodeState) (byte : UInt8) : TunnelProg DecodeState :=
  if ds.truncated then return ds
  else do
    match ← ensureLocked cfg ds with
    | none => return { ds with truncated := true }
    | some ds => storeByte ds byte

def releaseLock (ds : DecodeState) : TunnelProg DecodeState := do
  release
  return { ds with locked := false }

def onComplete (cfg : TransportConfig) (ds : DecodeState) : TunnelProg DecodeState := do
  let decodedLen := ds.writePos
  let wasTruncated := ds.truncated
  let ds := { ds with writePos := 0, truncated := false }
  if decodedLen = 0 ∨ wasTruncated then
    if ds.locked then releaseLock ds else return ds
  else
    let typeByte := ((← read decodedLen).head?).getD 0
    copyWithin 1 (decodedLen - 1) 0
    let bodyLen := decodedLen - 1
    if typeByte = typeIpcRequest then
      if ← stageIpcRequest cfg (← read bodyLen) then
        setLen (UInt32.ofNat bodyLen)
        transfer cfg.hostProxyTid
        return { ds with stagedLen := bodyLen, staged := true }
      else releaseLock ds
    else if typeByte = typeControlRequest then
      handleControlRequest (← read bodyLen)
      releaseLock ds
    else releaseLock ds

def onError (ds : DecodeState) : TunnelProg DecodeState := do
  let ds ← if ds.locked then releaseLock ds else pure ds
  return { ds with writePos := 0, truncated := false }

/-- `feed_byte`, after the decoder has taken the byte. -/
def feedByte (cfg : TransportConfig) (ds : DecodeState) : Decoded → TunnelProg DecodeState
  | .dataContinue byte => onData cfg ds byte
  | .dataComplete => onComplete cfg ds
  | .noData => return ds
  | .error => onError ds

def deliverReply (ds : DecodeState) : TunnelProg DecodeState := do
  let len ← getLen
  let data ← read len.toNat
  let _ ← send (.usart typeIpcReply data)
  release
  return { ds with staged := false, stagedLen := 0, locked := false }

/-- `fetch_pending_request`.  `none` is the error `NoPendingRequest`. -/
def fetchPendingRequest (ds : DecodeState) : Option Nat :=
  if !ds.staged then none else some ds.stagedLen

/-! ## The task among the others -/

/-- What the task keeps: its flags, the decoder, and the bytes read from the
serial line and not yet fed. -/
structure Local (dec : Decoder) where
  ds : DecodeState
  decoder : dec.State
  queue : List UInt8

def Local.new (dec : Decoder) : Local dec := { ds := .new, decoder := dec.idle, queue := [] }

inductive Call where
  /-- `handle_usart_rx` finds these bytes, in one read or in several. -/
  | rx (bytes : List UInt8)
  | feed
  | deliver
  deriving DecidableEq, Repr

/-- The task works through all bytes of an `rx` before it takes the next call.
The flag `staged` is looked at once, before the first of them. -/
def machine (cfg : TransportConfig) (dec : Decoder) :
    Machine Tunnel (Local dec) Call Access Other Access.Answer where
  exec := exec
  start
    | .rx bytes, l =>
      if l.queue = [] then some (.ret (if l.ds.staged then l else { l with queue := bytes }))
      else none
    | .feed, l =>
      match l.queue with
      | [] => none
      | b :: rest =>
        some do
          let ds ← feedByte cfg l.ds (dec.feed l.decoder b).2
          return { ds, decoder := (dec.feed l.decoder b).1, queue := rest }
    | .deliver, l =>
      if l.queue = [] then
        some do
          let ds ← deliverReply l.ds
          return { l with ds }
      else none
  other := Other.apply

def initial (dec : Decoder) (t : Tunnel) : Machine.State Tunnel (Local dec) Call Access
    Access.Answer :=
  { shared := t, loc := .new dec, running := none }

/-- The condition on a call.  A byte is fed while a request is staged only if the
buffer is the task's or the decoder has nothing to report, and a reply is not
delivered in the middle of a frame. -/
def Orderly (cfg : TransportConfig) (dec : Decoder) : Call → Local dec → Tunnel → Prop
  | .rx _, _, _ => True
  | .feed, l, s => ∀ b ∈ l.queue.head?, l.ds.staged = false ∨ s.lock = cfg.selfTid ∨
      (dec.feed l.decoder b).2 = .noData
  | .deliver, l, _ => l.ds.writePos = 0 ∨ l.ds.truncated = true

/-! ## Ownership -/

section Ownership

variable {cfg : TransportConfig}

/-- The frame so far lies in the buffer, so the lock was taken for it. -/
def DecodeState.Started (ds : DecodeState) : Prop := 0 < ds.writePos ∧ ds.truncated = false

variable {ds : DecodeState} {tid : UInt32} {s : Tunnel}

theorem DecodeState.not_started (h : ds.writePos = 0) : ¬ ds.Started :=
  fun hd => absurd hd.1 (by omega)

/-- The flags between two calls.  While a request is staged they say nothing. -/
structure Flags (tid : UInt32) (ds : DecodeState) (s : Tunnel) : Prop where
  owned : ds.staged = false → ds.locked = true → Owned tid s
  started : ds.staged = false → ds.Started → ds.locked = true

theorem stable_flags (tid : UInt32) (ds : DecodeState) : Stable (KeepsLock tid) (Flags tid ds) :=
  fun _ _ hr h => ⟨fun hs hl => hr (h.owned hs hl), h.started⟩

theorem Flags.of_staged (h : ds.staged = true) : Flags tid ds s :=
  ⟨fun hs => absurd (h.symm.trans hs) (by decide), fun hs => absurd (h.symm.trans hs) (by decide)⟩

theorem Flags.of_idle (hl : ds.locked = false) (hs : ¬ ds.Started) : Flags tid ds s :=
  ⟨fun _ h => absurd (hl.symm.trans h) (by decide), fun _ h => absurd h hs⟩

theorem triple_releaseLock (h : ¬ ds.Started) :
    OwnedTriple cfg.selfTid (Owned cfg.selfTid) (releaseLock ds) (Flags cfg.selfTid) :=
  triple_give fun _ => ret stable_true fun _ _ => Flags.of_idle rfl h

/-- Before an arm that touches the buffer: whoever staged or locked owns it. -/
structure Ready (tid : UInt32) (ds : DecodeState) (s : Tunnel) : Prop where
  owned : ds.staged = true ∨ ds.locked = true → Owned tid s
  started : ds.Started → ds.staged = true ∨ ds.locked = true

theorem stable_ready (tid : UInt32) (ds : DecodeState) : Stable (KeepsLock tid) (Ready tid ds) :=
  fun _ _ hr h => ⟨fun hd => hr (h.owned hd), h.started⟩

theorem Flags.ready (h : Flags tid ds s) (hs : ds.staged = false ∨ s.lock = tid) :
    Ready tid ds s := by
  refine ⟨fun hd => ?_, fun hd => ?_⟩
  · rcases hs with hs | hs
    · exact h.owned hs (hd.resolve_left (by simp [hs]))
    · exact hs
  · by_cases hstaged : ds.staged = true
    · exact .inl hstaged
    · exact .inr (h.started (eq_false_iff.mpr hstaged) hd)

theorem triple_storeByte (hds : ds.locked = true ∨ ds.staged = true) (byte : UInt8) :
    OwnedTriple cfg.selfTid (Owned cfg.selfTid) (storeByte ds byte) (Flags cfg.selfTid) := by
  have hflags : ∀ (ds' : DecodeState) (s : Tunnel), ds'.locked = ds.locked →
      ds'.staged = ds.staged → Owned cfg.selfTid s → Flags cfg.selfTid ds' s := by
    intro ds' s hl hs howned
    rcases hds with h | h
    · exact ⟨fun _ _ => howned, fun _ _ => hl.trans h⟩
    · exact Flags.of_staged (hs.trans h)
  rw [storeByte]
  split
  · exact triple_keep (fun _ => rfl) fun _ =>
      ret stable_owned fun s h => hflags _ s rfl rfl h
  · exact ret stable_owned fun s h => hflags _ s rfl rfl h

/-- The lock is had, or it is not to be had and was not had before. -/
def Ensured (tid : UInt32) (ds : DecodeState) : Option DecodeState → Tunnel → Prop
  | none, _ => ds.locked = false
  | some ds', s => (ds'.locked = true ∨ ds'.staged = true) ∧ Owned tid s

theorem triple_ensureLocked (ds : DecodeState) :
    OwnedTriple cfg.selfTid (Ready cfg.selfTid ds) (ensureLocked cfg ds)
      (Ensured cfg.selfTid ds) := by
  rw [ensureLocked]
  split
  case isTrue h =>
    have hlocked : ds.locked = false := by
      simpa using (and_eq_true_iff.mp h).1
    refine bind keepsLock_refl (triple_of_true triple_tryAcquireOrWipe) fun ok => ?_
    cases ok with
    | true => exact ret (stable_owned_of _) fun s hs => ⟨.inl rfl, hs rfl⟩
    | false => exact ret (stable_owned_of _) fun s hs => hlocked
  case isFalse h =>
    have hheld : ds.locked = true ∨ ds.staged = true := by
      by_contra hno
      push Not at hno
      exact h (by simp [hno.1, hno.2])
    exact ret (stable_ready _ _) fun s hs => ⟨hheld, hs.owned hheld.symm⟩

theorem triple_onData (ds : DecodeState) (byte : UInt8) :
    OwnedTriple cfg.selfTid (Ready cfg.selfTid ds) (onData cfg ds byte) (Flags cfg.selfTid) := by
  rw [onData]
  split
  case isTrue h =>
    refine ret (stable_ready _ _) fun s hs => ⟨fun _ hl => hs.owned (.inr hl), ?_⟩
    exact fun _ hd => absurd (h.symm.trans hd.2) (by decide)
  case isFalse h =>
    refine bind keepsLock_refl (triple_ensureLocked ds) fun r => ?_
    cases r with
    | none =>
      exact ret (fun _ _ _ hl => hl) fun s hl =>
        Flags.of_idle hl fun hd => absurd hd.2 (by simp)
    | some ds' =>
      intro s hs
      exact triple_storeByte hs.1 byte s hs.2

/-! The frame handlers only send, so the owner stays the owner. -/

theorem triple_sendTunnelError (seq : UInt16) (code : TunnelErrorCode) :
    OwnedTriple cfg.selfTid (Owned cfg.selfTid) (sendTunnelError seq code)
      fun _ => Owned cfg.selfTid := by
  rw [sendTunnelError]
  split
  · exact triple_send fun _ => triple_done _
  · exact triple_done _

theorem triple_stageIpcRequest (body : List UInt8) :
    OwnedTriple cfg.selfTid (Owned cfg.selfTid) (stageIpcRequest cfg body)
      fun _ => Owned cfg.selfTid := by
  rw [stageIpcRequest]
  split
  · exact triple_done _
  · split
    · exact triple_done _
    · split
      · exact bind keepsLock_refl (triple_sendTunnelError _ _) fun _ =>
          triple_done _
      · exact triple_send fun _ => triple_done _

theorem triple_handleControlRequest (body : List UInt8) :
    OwnedTriple cfg.selfTid (Owned cfg.selfTid) (handleControlRequest body)
      fun _ => Owned cfg.selfTid := by
  rw [handleControlRequest]
  split
  · exact triple_done _
  · split
    · exact triple_done _
    · split
      · exact triple_done _
      · split
        · exact triple_done _
        · exact triple_send fun _ => triple_done _

theorem triple_onComplete (ds : DecodeState) :
    OwnedTriple cfg.selfTid (Ready cfg.selfTid ds) (onComplete cfg ds) (Flags cfg.selfTid) := by
  have hrest : ¬ DecodeState.Started { ds with writePos := 0, truncated := false } :=
    DecodeState.not_started rfl
  rw [onComplete]
  split
  case isTrue h =>
    split
    case isTrue hl =>
      exact triple_of_owned (fun s hs => hs.owned (.inr hl)) (triple_releaseLock hrest)
    case isFalse hl =>
      exact ret (stable_ready _ _) fun s _ =>
        Flags.of_idle (eq_false_iff.mpr hl) hrest
  case isFalse h =>
    -- A frame of at least one byte went into the buffer, so it is the task's.
    have hstarted : ds.Started := by grind [DecodeState.Started]
    refine triple_of_owned (fun s hs => hs.owned (hs.started hstarted)) ?_
    refine triple_keep (fun _ => rfl) fun bytes => triple_keep (fun _ => rfl) fun _ => ?_
    split
    · refine triple_keep (fun _ => rfl) fun body =>
        bind keepsLock_refl (triple_stageIpcRequest body) fun staged => ?_
      split
      · exact triple_keep (fun _ => rfl) fun _ => triple_give fun _ =>
          ret stable_true fun _ _ => Flags.of_staged rfl
      · exact triple_releaseLock hrest
    · split
      · exact triple_keep (fun _ => rfl) fun body => bind keepsLock_refl
          (triple_handleControlRequest body) fun _ => triple_releaseLock hrest
      · exact triple_releaseLock hrest

theorem triple_onError (ds : DecodeState) :
    OwnedTriple cfg.selfTid (Ready cfg.selfTid ds) (onError ds) (Flags cfg.selfTid) := by
  rw [onError]
  split
  case isTrue hl =>
    refine triple_of_owned (fun s hs => hs.owned (.inr hl)) ?_
    exact triple_give fun _ => ret stable_true fun _ _ =>
      Flags.of_idle rfl (DecodeState.not_started rfl)
  case isFalse hl =>
    exact ret (stable_ready _ _) fun s _ =>
      Flags.of_idle (eq_false_iff.mpr hl) (DecodeState.not_started rfl)

theorem triple_feedByte (ds : DecodeState) (r : Decoded) :
    OwnedTriple cfg.selfTid
      (fun s => Flags cfg.selfTid ds s ∧ (ds.staged = false ∨ s.lock = cfg.selfTid ∨ r = .noData))
      (feedByte cfg ds r) (Flags cfg.selfTid) := by
  intro s hs
  have hready : r ≠ .noData → Ready cfg.selfTid ds s := fun hr =>
    hs.1.ready (hs.2.imp_right fun h => h.resolve_right hr)
  cases r with
  | dataContinue byte => exact triple_onData ds byte s (hready nofun)
  | dataComplete => exact triple_onComplete ds s (hready nofun)
  | noData => exact ret (stable_flags _ _) (fun _ => id) s hs.1
  | error => exact triple_onError ds s (hready nofun)

/-- What a call may do to the buffer.  `feed_byte` alone is held to the rule. -/
def CallPermitted (tid : UInt32) : Call → Tunnel → Access → Prop
  | .feed, s, a => Permitted tid s a
  | _, _, _ => True

theorem triple_call {dec : Decoder} (c : Call) (l : Local dec)
    (p : Prog Access Access.Answer (Local dec)) (hp : (machine cfg dec).start c l = some p) :
    Triple exec (KeepsLock cfg.selfTid) (CallPermitted cfg.selfTid c)
      (fun s => Flags cfg.selfTid l.ds s ∧ Orderly cfg dec c l s) p
      fun l s => Flags cfg.selfTid l.ds s := by
  cases c with
  | rx bytes =>
    obtain ⟨_, heq⟩ := ite_none_right_eq_some.mp hp
    cases heq
    refine ret (fun s s' hr h => ⟨stable_flags _ _ s s' hr h.1, h.2⟩) fun s h => ?_
    split
    · exact h.1
    · exact h.1
  | feed =>
    cases hq : l.queue with
    | nil => exact absurd hp (by simp [machine, hq])
    | cons b rest =>
      simp only [machine, hq, some.injEq] at hp
      subst hp
      refine bind keepsLock_refl ((triple_feedByte l.ds _).weaken fun s h => ?_)
        fun ds => ret (stable_flags _ ds) fun _ => id
      exact ⟨h.1, h.2 b (by simp [hq])⟩
  | deliver =>
    obtain ⟨_, heq⟩ := ite_none_right_eq_some.mp hp
    cases heq
    intro s h s₁ _
    refine ⟨trivial, fun s₂ _ => ⟨trivial, fun s₃ _ => ⟨trivial, fun s₄ _ => ⟨trivial, ?_⟩⟩⟩⟩
    intro s₅ _
    refine Flags.of_idle rfl fun hd => ?_
    rcases h.2 with h0 | ht
    · exact DecodeState.not_started h0 hd
    · exact absurd (ht.symm.trans hd.2) (by decide)

/-- In every run of the serial transport among disciplined tasks whose calls are
orderly, `feed_byte` writes the data, sets the length and passes on or gives up
the lock only while the lock is the transport's.  While it is not, the buffer
stays as it is. -/
theorem feedByte_owned (cfg : TransportConfig) (dec : Decoder) (t : Tunnel)
    (hfree : cfg.selfTid ≠ free)
    {s : Machine.State Tunnel (Local dec) Call Access Access.Answer}
    (h : (machine cfg dec).Reaches (Orderly cfg dec)
      (fun s o => Other.Disciplined cfg.selfTid s o) (initial dec t) s)
    {a : Access} {k : a.Answer → TunnelProg (Local dec)}
    (hrun : s.running = some (.feed, .act a k)) :
    (a.owned = true → s.shared.lock = cfg.selfTid) ∧
      (s.shared.lock ≠ cfg.selfTid →
        (exec s.shared a).1.data = s.shared.data ∧ (exec s.shared a).1.len = s.shared.len) := by
  have hstart : Machine.Sound (machine cfg dec) (KeepsLock cfg.selfTid)
      (CallPermitted cfg.selfTid) (fun l s => Flags cfg.selfTid l.ds s) (initial dec t) :=
    Flags.of_idle rfl (DecodeState.not_started rfl)
  have hsound := Machine.Reaches.sound keepsLock_refl keepsLock_trans
    (fun l => stable_flags cfg.selfTid l.ds) (Other.keepsLock hfree) triple_call hstart h
  have hok : Permitted cfg.selfTid s.shared a := hsound.permitted keepsLock_refl hrun
  exact ⟨hok, fun hne => exec_data_of_not_owned fun howned => hne (hok howned)⟩

end Ownership

/-! ## The decoder of the crate -/

/-- The states of the `cobs` decoder: between frames, and with so many bytes to go
in a run that ends in a zero or in a run of 254 bytes that does not. -/
inductive CobsState where
  | idle
  | grab (n : UInt8)
  | grabChain (n : UInt8)
  deriving DecidableEq, Repr

def cobsFeed : CobsState → UInt8 → CobsState × Decoded
  | .idle, b =>
    if b = 0 then (.idle, .noData)
    else if b = 0xFF then (.grabChain 0xFE, .noData)
    else (.grab (b - 1), .noData)
  | .grab n, b =>
    if n = 0 then
      if b = 0 then (.idle, .dataComplete)
      else if b = 0xFF then (.grabChain 0xFE, .dataContinue 0)
      else (.grab (b - 1), .dataContinue 0)
    else if b = 0 then (.idle, .error)
    else (.grab (n - 1), .dataContinue b)
  | .grabChain n, b =>
    if n = 0 then
      if b = 0 then (.idle, .dataComplete)
      else if b = 0xFF then (.grabChain 0xFE, .noData)
      else (.grab (b - 1), .noData)
    else if b = 0 then (.idle, .error)
    else (.grabChain (n - 1), .dataContinue b)

def cobs : Decoder := { State := CobsState, idle := .idle, feed := cobsFeed }

/-- A build with the host proxy as task 1 and the log task as task 2. -/
def pair : TransportConfig := { selfTid := 2, hostProxy := some 1 }

/-- The first byte of a frame is stored under the transport's lock. -/
theorem feedByte_owned_first :
    ∃ s : Machine.State Tunnel (Local cobs) Call Access Access.Answer, ∃ k,
      s.running = some (.feed, .act (.write 0 [0x55]) k) ∧ s.shared.lock = pair.selfTid := by
  have h₀ : (machine pair cobs).Reaches (Orderly pair cobs)
      (fun s o => Other.Disciplined pair.selfTid s o) (initial cobs Tunnel.new)
      (initial cobs Tunnel.new) := .start
  have h₁ := (h₀.step (.call (Call.rx [2, 0x55])) trivial rfl).step .finish trivial rfl
  have h₂ := h₁.step (.call Call.feed) (fun _ _ => .inl rfl) rfl
  have h₃ := h₂.step .finish trivial rfl
  have h₄ := (h₃.step (.call Call.feed) (fun _ _ => .inl rfl) rfl).step .act trivial rfl
  exact ⟨_, _, rfl, (feedByte_owned pair cobs Tunnel.new (by decide) h₄ rfl).1 rfl⟩

/-- Ten bytes in one read: a request that is a bare header, and the start of a
second frame. -/
def twoFrames : List (Machine.Event Call Other) :=
  [.call (.rx [3, 3, 1, 1, 1, 1, 1, 0, 2, 0x55]), .finish, .call .feed, .finish,
    .call .feed, .act, .act, .finish] ++
  (List.replicate 5 [.call .feed, .act, .finish]).flatten ++
  [.call .feed, .act, .act, .act, .act, .act, .act, .finish, .call .feed, .finish, .call .feed]

/-- The request is staged and passed to the host proxy.  The second frame goes
into the buffer all the same, over the request. -/
theorem second_frame_overwrites_staged :
    ∃ s, twoFrames.foldlM (machine pair cobs).step (initial cobs Tunnel.new) = some s ∧
      s.loc.ds.staged = true ∧ s.shared.lock = pair.hostProxyTid ∧
      s.next = some (.feed, .write 0 [0x55]) := by
  have hrun : (twoFrames.foldlM (machine pair cobs).step (initial cobs Tunnel.new)).map
      (fun s => (s.loc.ds.staged, s.shared.lock, s.next)) =
        some (true, pair.hostProxyTid, some (.feed, .write 0 [0x55])) := by
    decide +kernel
  obtain ⟨s, hs, heq⟩ := map_eq_some_iff.mp hrun
  simp only [Prod.mk.injEq] at heq
  exact ⟨s, hs, heq⟩

end Rcard.Usart
