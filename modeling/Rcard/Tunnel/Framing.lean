/-
The two ends of the USB link.

The host wraps a frame in one buffer (`host/usb/src/crc.rs`).  The firmware writes a
reply packet by packet, with the checksum and the pad byte wherever the last full
packet leaves them.  Both put the same bytes on the wire, in full packets and a short
one at the end.  In the other direction a wrapped request goes into the tunnel buffer
packet by packet and is staged as it was.
-/
import Mathlib.Data.List.GetD
import Rcard.Tunnel.Redeliver

namespace Rcard

open List Mem Prog

open Tunnel

/-! ## The host -/

namespace HostUsb

def maxPacketSize : Nat := 64

def crcShift (crc : UInt16) : UInt16 :=
  if crc &&& 0x8000 ≠ 0 then (crc <<< 1) ^^^ 0x1021 else crc <<< 1

def crc16 (data : List UInt8) : UInt16 :=
  data.foldl (fun crc b => crcShift^[8] (crc ^^^ b.toUInt16 <<< (8 : UInt16))) 0xFFFF

def u16ToBe (v : UInt16) : List UInt8 := [(v >>> 8).toUInt8, v.toUInt8]

def u16FromBe (hi lo : UInt8) : UInt16 := UInt16.ofNat (lo.toNat + 256 * hi.toNat)

def wrapFrame (frame : List UInt8) : List UInt8 :=
  frame ++ u16ToBe (crc16 frame) ++ if (frame.length + 2) % maxPacketSize = 0 then [0] else []

inductive CrcError where
  | tooShort
  | mismatch
  deriving DecidableEq, Repr

def unwrapFrame (buf : List UInt8) : Except CrcError (List UInt8) :=
  if buf.length < headerSize + 2 then .error .tooShort
  else
    let length := (u16FromLe (buf.getD 3 0) (buf.getD 4 0)).toNat
    let frameSize := headerSize + length
    if frameSize + 2 > buf.length then .error .tooShort
    else if u16FromBe (buf.getD frameSize 0) (buf.getD (frameSize + 1) 0) ≠
        crc16 (buf.take frameSize) then .error .mismatch
    else .ok (buf.take frameSize)

theorem wrapFrame_eq (frame : List UInt8) : wrapFrame frame = Usb.wrapFrame frame := by
  rw [Usb.wrapFrame, length_append, Usb.length_crcBytes]
  show frame ++ Usb.crcBytes frame ++
      (if (frame.length + 2) % Usb.packetSize = 0 then [0] else []) =
    _
  grind

theorem u16FromBe_u16ToBe (v : UInt16) : u16FromBe (v >>> 8).toUInt8 v.toUInt8 = v := by
  have hv := v.toNat_lt
  have hhi : (v >>> 8).toUInt8.toNat = v.toNat / 256 := by
    show (v.toNat >>> 8) % 256 = _
    omega
  apply UInt16.toNat.inj
  rw [u16FromBe, UInt16.toNat_ofNat', UInt16.toNat_toUInt8]
  omega

/-- The length field counts the bytes after the header. -/
def Consistent (frame : List UInt8) : Prop :=
  headerSize ≤ frame.length ∧
    headerSize + (u16FromLe (frame.getD 3 0) (frame.getD 4 0)).toNat = frame.length

theorem unwrapFrame_wrapFrame {frame : List UInt8} (h : Consistent frame) :
    unwrapFrame (wrapFrame frame) = .ok frame := by
  obtain ⟨hhead, hlength⟩ := h
  rw [headerSize] at hhead
  obtain ⟨pad, hpad⟩ : ∃ pad, wrapFrame frame = frame ++ (u16ToBe (crc16 frame) ++ pad) :=
    ⟨_, append_assoc _ _ _⟩
  have htotal : (wrapFrame frame).length = frame.length + (2 + pad.length) := by
    rw [hpad, length_append, length_append]
    rfl
  have hget : ∀ i, i < frame.length → (wrapFrame frame).getD i 0 = frame.getD i 0 := by
    intro i hi
    rw [hpad, getD_append _ _ _ _ hi]
  have hcrc : ∀ i, (wrapFrame frame).getD (frame.length + i) 0 =
      (u16ToBe (crc16 frame) ++ pad).getD i 0 := by grind
  have htake : (wrapFrame frame).take frame.length = frame := by rw [hpad, take_left]
  rw [unwrapFrame, if_neg (by rw [headerSize]; omega)]
  dsimp only
  rw [hget 3 (by omega), hget 4 (by omega), hlength, htake, if_neg (by omega)]
  rw [show frame.length = frame.length + 0 from rfl, hcrc 0, hcrc 1]
  exact if_neg (not_not.mpr (u16FromBe_u16ToBe (crc16 frame)))

end HostUsb

namespace Usb

/-! ## Packets -/

/-- Full packets and a short one at the end. -/
def ShortEnded (ps : List (List UInt8)) : Prop :=
  ∃ fulls last, ps = fulls ++ [last] ∧ (∀ p ∈ fulls, p.length = packetSize) ∧
    0 < last.length ∧ last.length < packetSize

theorem packets_of_le {data : List UInt8} (hpos : 0 < data.length)
    (hle : data.length ≤ packetSize) : packets data = [data] := by
  have hcount : (data.length + 63) / packetSize = 1 := by
    rw [packetSize] at *
    omega
  rw [packets, hcount]
  simp [take_of_length_le hle]

theorem packets_append {full : List UInt8} (hfull : full.length = packetSize) (data : List UInt8) :
    packets (full ++ data) = full :: packets data := by
  have hcount :
      ((full ++ data).length + 63) / packetSize = (data.length + 63) / packetSize + 1 := by
    rw [length_append, hfull, packetSize]
    omega
  have hstep : ∀ i, (full ++ data).drop ((i + 1) * packetSize) = data.drop (i * packetSize) := by
    intro i
    rw [Nat.succ_mul, Nat.add_comm, ← drop_drop, drop_left' hfull]
  rw [packets, hcount, range_succ_eq_map, map_cons, map_map]
  refine congrArg₂ _ ?_ (map_congr_left fun i _ => ?_)
  · rw [Nat.zero_mul, drop_zero, take_left' hfull]
  · exact congrArg _ (hstep i)

theorem packets_flatten {fulls : List (List UInt8)} {last : List UInt8}
    (hfulls : ∀ p ∈ fulls, p.length = packetSize) (hpos : 0 < last.length)
    (hlt : last.length < packetSize) : packets (fulls ++ [last]).flatten = fulls ++ [last] := by
  induction fulls with
  | nil =>
    rw [nil_append, flatten_singleton]
    exact packets_of_le hpos (Nat.le_of_lt hlt)
  | cons p fulls ih =>
    rw [cons_append, flatten_cons, packets_append (hfulls p mem_cons_self),
      ih fun q hq => hfulls q (mem_cons_of_mem _ hq)]

/-- A short-ended cut is the only one. -/
theorem ShortEnded.packets_flatten {ps : List (List UInt8)} (h : ShortEnded ps) :
    packets ps.flatten = ps := by
  obtain ⟨fulls, last, rfl, hfulls, hpos, hlt⟩ := h
  exact Usb.packets_flatten hfulls hpos hlt

theorem ShortEnded.flatMap_packets {ps : List (List UInt8)} (h : ShortEnded ps) :
    ps.flatMap packets = ps := by
  obtain ⟨fulls, last, rfl, hfulls, hpos, hlt⟩ := h
  rw [flatMap_append, flatMap_singleton, packets_of_le hpos (Nat.le_of_lt hlt)]
  congr 1
  induction fulls with
  | nil => rfl
  | cons p fulls ih =>
    have hp := hfulls p mem_cons_self
    rw [flatMap_cons, packets_of_le (by rw [hp]; decide) (Nat.le_of_eq hp),
      ih fun q hq => hfulls q (mem_cons_of_mem _ hq)]
    rfl

theorem shortEnded_replyPieces (data : List UInt8) : ShortEnded (replyPieces data) := by
  have hchunks : ∀ p ∈ (List.range (data.length / packetSize)).map
      (fun i => (data.drop (i * packetSize)).take packetSize), p.length = packetSize := by
    grind [packetSize]
  have htail : (data.drop (data.length / packetSize * packetSize)).length < packetSize := by
    rw [length_drop, packetSize]
    omega
  rw [replyPieces]
  split
  · have hpacket : (data.drop (data.length / packetSize * packetSize) ++ crcBytes data).length =
        (data.drop (data.length / packetSize * packetSize)).length + 2 := by
      rw [length_append, length_crcBytes]
    split
    · split
      next hfull =>
        -- The checksum fills the packet, and a pad byte follows.
        refine ⟨_ ++ [_], [0], by rw [append_assoc]; rfl, ?_, by decide, by decide⟩
        grind
      next hle hne =>
        exact ⟨_, _, rfl, hchunks, by omega, by omega⟩
    next hlong =>
      -- One byte of the checksum goes into a packet of its own.
      refine ⟨_ ++ [_], _, by rw [append_assoc]; rfl, ?_, ?_, ?_⟩
      · grind
      · rw [length_drop]
        omega
      · rw [length_drop]
        omega
  · exact ⟨_, crcBytes data, rfl, hchunks, Nat.zero_lt_succ _, show 2 < 64 by decide⟩

theorem shortEnded_packets_wrapFrame (frame : List UInt8) :
    ShortEnded (packets (wrapFrame frame)) := by
  have h := shortEnded_replyPieces frame
  rw [← flatten_replyPieces, h.packets_flatten]
  exact h

/-! ## Receiving -/

/-- The loop of `handle_usb_event` over the packets in the endpoint, with the packets it
leaves there. -/
def drain (cfg : TransportConfig) : State → List (List UInt8) →
    TunnelProg (State × List (List UInt8))
  | st, [] => return (st, [])
  | st, p :: ps =>
    if p.length = 0 then return (st, ps)
    else do
      let st ← onPacket cfg st p
      if st.complete then return (← onComplete cfg st, ps) else drain cfg st ps

def handleUsbEvent (cfg : TransportConfig) (st : State) (queued : List (List UInt8)) :
    TunnelProg (State × List (List UInt8)) :=
  if st.busy then return (st, queued) else drain cfg st queued

/-- One `usb_event` after another, each with the packets that came since the last. -/
def handleUsbEvents (cfg : TransportConfig) : State → List (List UInt8) →
    List (List (List UInt8)) → TunnelProg (State × List (List UInt8))
  | st, queued, [] => return (st, queued)
  | st, queued, batch :: batches => do
      let (st, queued) ← handleUsbEvent cfg st (queued ++ batch)
      handleUsbEvents cfg st queued batches

section Receive

variable {cfg : TransportConfig} {st : State} {s : Tunnel}

/-- The transport can take the next packet of a transfer. -/
structure Receiving (cfg : TransportConfig) (st : State) (s : Tunnel) : Prop where
  begun : st.phase = .idle ∧ st.len = 0 ∧ s.lock = free ∨
    st.phase = .accumulating ∧ s.lock = cfg.selfTid

/-- The transport after one more packet. -/
def stored (st : State) (packet : List UInt8) : State :=
  { st with
    phase := .accumulating, len := st.len + packet.length, disconnected := false
    complete := packet.length < packetSize }

theorem run_onPacket (h : Receiving cfg st s) {packet : List UInt8}
    (hfit : st.len + packet.length ≤ tunnelDataSize) :
    run exec (onPacket cfg st packet) s =
      ({ s with lock := cfg.selfTid, data := write s.data st.len packet }, stored st packet) := by
  rcases h.begun with ⟨hphase, hlen, hlock⟩ | ⟨hphase, hlock⟩
  · rw [run_onPacket_free cfg hphase hlen hlock (by omega), stored, hlen, Nat.zero_add]
  · rw [onPacket, accumulate, if_neg (by simp [hphase]), if_neg (by simp [hphase]), storePacket,
      if_neg (Nat.not_lt.mpr hfit), ← hlock]
    obtain ⟨phase, len, lastSent, disconnected, complete⟩ := st
    cases hphase
    rfl

theorem Receiving.not_busy (h : Receiving cfg st s) : st.busy = false := by
  rcases h.begun with ⟨hphase, _⟩ | ⟨hphase, _⟩ <;> simp [State.busy, hphase]

/-- A frame with a good checksum that is a request goes to the host proxy. -/
theorem run_onComplete_request {frame : RawFrame} (hphase : st.phase = .accumulating)
    (hcheck : checkTransfer (slice s.data 0 st.len) = some frame)
    (hrequest : frame.asIpcRequest.isSome) (hproxy : cfg.hostProxy.isSome) :
    run exec (onComplete cfg st) s = ({ s with
          len := UInt32.ofNat frame.header.frameSize, lock := cfg.hostProxyTid
          out := .notify 0 :: s.out },
        { st with phase := .staged, complete := false }) := by
  have hread : run exec (read st.len) s = (s, slice s.data 0 st.len) := rfl
  have htype : frame.header.frameType = .ipcRequest := by
    by_contra hne
    rw [RawFrame.asIpcRequest, if_pos hne] at hrequest
    cases hrequest
  have hparse : frame.parseTunnelError = none := by
    rw [RawFrame.parseTunnelError, if_pos (by rw [htype]; decide)]
  have hprocess : run exec (processAccumulatedFrame cfg st) s =
      ({ s with len := UInt32.ofNat frame.header.frameSize, lock := cfg.hostProxyTid },
        { st with phase := .staged }, true) := by
    rw [processAccumulatedFrame, if_neg (by simp [hphase]), run_bind, hread]
    rw [hcheck]
    dsimp only
    rw [acceptFrame, hparse]
    rw [if_neg (by simp [Option.isSome_iff_ne_none.mp hrequest]),
      if_neg (by simp [Option.isSome_iff_ne_none.mp hproxy])]
    rfl
  rw [onComplete, run_bind, hprocess]
  rfl

/-- The packets `ps` are in the buffer, and the transfer goes on. -/
structure Took (cfg : TransportConfig) (st : State) (s : Tunnel) (ps : List (List UInt8))
    (st' : State) (s' : Tunnel) : Prop where
  receiving : Receiving cfg st' s'
  len : st'.len = st.len + ps.flatten.length
  data : s'.data = write s.data st.len ps.flatten
  out : s'.out = s.out

theorem run_drain_fulls {fulls : List (List UInt8)} (hfulls : ∀ p ∈ fulls, p.length = packetSize)
    (h : Receiving cfg st s) (hfit : st.len + fulls.flatten.length ≤ tunnelDataSize) :
    ∃ st' s', Took cfg st s fulls st' s' ∧ ∀ rest,
      run exec (drain cfg st (fulls ++ rest)) s = run exec (drain cfg st' rest) s' := by
  induction fulls generalizing st s with
  | nil => exact ⟨st, s, ⟨h, rfl, (write_nil _ _).symm, rfl⟩, fun _ => rfl⟩
  | cons p fulls ih =>
    have hp := hfulls p mem_cons_self
    rw [flatten_cons, length_append, ← Nat.add_assoc] at hfit
    have hrun := run_onPacket h (show st.len + p.length ≤ tunnelDataSize by omega)
    have hnext : Receiving cfg (stored st p)
        { s with lock := cfg.selfTid, data := write s.data st.len p } := ⟨.inr ⟨rfl, rfl⟩⟩
    obtain ⟨st', s', htook, hrest⟩ :=
      ih (fun q hq => hfulls q (mem_cons_of_mem _ hq)) hnext hfit
    refine ⟨st', s', ⟨htook.receiving, ?_, ?_, htook.out⟩, fun rest => ?_⟩
    · rw [htook.len, flatten_cons, length_append, ← Nat.add_assoc]
      rfl
    · rw [htook.data, flatten_cons, ← write_append s.data st.len rfl]
      rfl
    · have hopen : ¬ (stored st p).complete = true := by simp [stored, hp]
      rw [cons_append, drain, if_neg (by rw [hp]; decide), run_bind, hrun]
      rw [if_neg hopen]
      exact hrest rest

/-- The transfer with bytes `wire` is complete and processed. -/
theorem run_drain_last {last : List UInt8} (hpos : 0 < last.length) (hlt : last.length < packetSize)
    (h : Receiving cfg st s) (hfit : st.len + last.length ≤ tunnelDataSize)
    (rest : List (List UInt8)) :
    run exec (drain cfg st (last :: rest)) s =
      let (s', st') := run exec (onComplete cfg (stored st last))
        { s with lock := cfg.selfTid, data := write s.data st.len last }
      (s', st', rest) := by
  have hclosed : (stored st last).complete = true := by simp [stored, hlt]
  rw [drain, if_neg (Nat.pos_iff_ne_zero.mp hpos), run_bind, run_onPacket h hfit]
  rw [if_pos hclosed, run_bind]
  rfl

theorem run_handleUsbEvents_busy (hbusy : st.busy = true) {batches : List (List (List UInt8))}
    (h : batches.flatten = []) :
    run exec (handleUsbEvents cfg st [] batches) s = (s, st, []) := by
  induction batches with
  | nil => rfl
  | cons batch batches ih =>
    obtain ⟨rfl, hrest⟩ := append_eq_nil_iff.mp h
    rw [handleUsbEvents, handleUsbEvent, if_pos hbusy]
    exact ih hrest

/-- The transfer with the bytes `wire` was staged as a frame. -/
structure StagedAs (cfg : TransportConfig) (st : State) (s : Tunnel) (wire : List UInt8)
    (frame : RawFrame) (st' : State) (s' : Tunnel) : Prop where
  phase : st'.phase = .staged
  lock : s'.lock = cfg.hostProxyTid
  len : s'.len = UInt32.ofNat frame.header.frameSize
  data : s'.data = write s.data st.len wire
  out : s'.out = .notify 0 :: s.out

theorem StagedAs.busy {wire : List UInt8} {frame : RawFrame} {st' : State} {s' : Tunnel}
    (h : StagedAs cfg st s wire frame st' s') : st'.busy = true := by simp [State.busy, h.phase]

section Request

variable {fulls : List (List UInt8)} {last : List UInt8} {frame : RawFrame}
  (hpos : 0 < last.length) (hlt : last.length < packetSize) (hrequest : frame.asIpcRequest.isSome)
  (hproxy : cfg.hostProxy.isSome)
include hpos hlt hrequest hproxy

theorem run_drain_request (hfulls : ∀ p ∈ fulls, p.length = packetSize) (h : Receiving cfg st s)
    (hfit : st.len + (fulls ++ [last]).flatten.length ≤ tunnelDataSize)
    (hcheck : checkTransfer (slice (write s.data st.len (fulls ++ [last]).flatten) 0
      (st.len + (fulls ++ [last]).flatten.length)) = some frame) :
    ∃ st' s', StagedAs cfg st s (fulls ++ [last]).flatten frame st' s' ∧
      run exec (drain cfg st (fulls ++ [last])) s = (s', st', []) := by
  rw [flatten_append, flatten_singleton] at hcheck hfit ⊢
  rw [length_append, ← Nat.add_assoc] at hfit hcheck
  obtain ⟨st₁, s₁, htook, hrun⟩ := run_drain_fulls hfulls h (by omega)
  have hdata : write s₁.data st₁.len last = write s.data st.len (fulls.flatten ++ last) := by
    rw [htook.data, htook.len, write_append s.data st.len rfl]
  rw [← htook.len, ← hdata] at hcheck
  have hlast := run_drain_last hpos hlt htook.receiving (by rw [htook.len]; exact hfit) []
  rw [run_onComplete_request rfl hcheck hrequest hproxy] at hlast
  exact ⟨_, _, ⟨rfl, rfl, rfl, hdata, congrArg _ htook.out⟩, (hrun [last]).trans hlast⟩

/-- However the packets are spread over the events. -/
theorem run_handleUsbEvents {batches : List (List (List UInt8))}
    (hfulls : ∀ p ∈ fulls, p.length = packetSize) (hbatches : batches.flatten = fulls ++ [last])
    (h : Receiving cfg st s) (hfit : st.len + (fulls ++ [last]).flatten.length ≤ tunnelDataSize)
    (hcheck : checkTransfer (slice (write s.data st.len (fulls ++ [last]).flatten) 0
      (st.len + (fulls ++ [last]).flatten.length)) = some frame) :
    ∃ st' s', StagedAs cfg st s (fulls ++ [last]).flatten frame st' s' ∧
      run exec (handleUsbEvents cfg st [] batches) s = (s', st', []) := by
  induction batches generalizing fulls st s with
  | nil => exact absurd hbatches (by simp)
  | cons batch batches ih =>
    rw [flatten_cons] at hbatches
    have hhandle : run exec (handleUsbEvents cfg st [] (batch :: batches)) s =
        let (s₁, st₁, queued) := run exec (drain cfg st batch) s
        run exec (handleUsbEvents cfg st₁ queued batches) s₁ := by
      rw [handleUsbEvents, nil_append, handleUsbEvent, if_neg (by rw [h.not_busy]; decide),
        run_bind]
    rcases eq_nil_or_concat batches.flatten with hrest | ⟨later, l, hlater⟩
    · -- The batch holds the whole transfer.
      rw [hrest, append_nil] at hbatches
      subst hbatches
      obtain ⟨st', s', hstaged, hrun⟩ :=
        run_drain_request hpos hlt hrequest hproxy hfulls h hfit hcheck
      refine ⟨st', s', hstaged, ?_⟩
      rw [hhandle, hrun]
      exact run_handleUsbEvents_busy hstaged.busy hrest
    · -- The batch holds full packets only.
      rw [hlater, concat_eq_append, ← append_assoc] at hbatches
      obtain ⟨rfl, hl⟩ := append_inj' hbatches rfl
      cases hl
      have hsplit : (batch ++ later ++ [last]).flatten =
          batch.flatten ++ (later ++ [last]).flatten := by
        rw [append_assoc, flatten_append]
      rw [hsplit, ← write_append s.data st.len rfl] at hcheck
      rw [hsplit] at hfit
      rw [length_append, ← Nat.add_assoc] at hfit hcheck
      obtain ⟨st₁, s₁, htook, hrun⟩ := run_drain_fulls
        (fun p hp => hfulls p (mem_append_left _ hp)) h (by omega)
      rw [← htook.len, ← htook.data] at hcheck
      rw [← htook.len] at hfit
      rw [concat_eq_append] at hlater
      obtain ⟨st', s', hstaged, hrest⟩ :=
        ih (fun p hp => hfulls p (mem_append_right _ hp)) hlater htook.receiving hfit hcheck
      have hbatch := hrun []
      rw [append_nil] at hbatch
      refine ⟨st', s', ⟨hstaged.phase, hstaged.lock, hstaged.len, ?_, ?_⟩, ?_⟩
      · rw [hstaged.data, hsplit, ← write_append s.data st.len rfl, ← htook.len, ← htook.data]
      · rw [hstaged.out, htook.out]
      · rw [hhandle, hbatch]
        exact hrest

end Request

end Receive

/-! ## Agreement -/

/-- The bytes of a request: a header with the length of the payload, and a payload that
`from_bytes` takes. -/
structure RequestBytes (raw : RawFrame) (frame : List UInt8) : Prop where
  bytes : frame = raw.header.encode ++ raw.payload
  length : raw.payload.length = raw.header.length.toNat
  request : raw.asIpcRequest.isSome

theorem RequestBytes.frameSize {raw : RawFrame} {frame : List UInt8} (h : RequestBytes raw frame) :
    raw.header.frameSize = frame.length := by
  rw [h.bytes, length_append, FrameHeader.length_encode, h.length, FrameHeader.frameSize]

theorem length_wrapFrame_le (frame : List UInt8) : (wrapFrame frame).length ≤ frame.length + 3 := by
  rw [wrapFrame]
  split
  · simp [length_crcBytes]
  · simp [length_crcBytes]

/-- What `deliver_reply` puts on the endpoint for the frame in the buffer. -/
theorem deliverReply_packets (st : State) {s : Tunnel} {frame : List UInt8}
    (hwire : s.wireOk = true) (hlen : s.len.toNat = frame.length)
    (hdata : slice s.data 0 frame.length = frame) :
    (run exec (deliverReply st) s).1.out =
      ((replyPieces frame).map Output.usb).reverse ++ s.out := by
  rw [run_deliverReply st hwire, hlen, hdata, (shortEnded_replyPieces frame).flatMap_packets]
  rfl

theorem handleUsbEvents_stages {cfg : TransportConfig} {st : State} {s : Tunnel} {raw : RawFrame}
    {frame : List UInt8} {batches : List (List (List UInt8))} (hframe : RequestBytes raw frame)
    (hmax : frame.length ≤ maxDecodedFrame) (hphase : st.phase = .idle) (hlen : st.len = 0)
    (hlock : s.lock = free) (hproxy : cfg.hostProxy.isSome)
    (hbatches : batches.flatten = packets (wrapFrame frame)) :
    ∃ st' s', StagedAs cfg st s (wrapFrame frame) raw st' s' ∧
      run exec (handleUsbEvents cfg st [] batches) s = (s', st', []) := by
  obtain ⟨fulls, last, hps, hfulls, hpos, hlt⟩ := shortEnded_packets_wrapFrame frame
  have hwire : (fulls ++ [last]).flatten = wrapFrame frame := by rw [← hps, flatten_packets]
  have hcheck : checkTransfer (wrapFrame frame) = some raw := by
    rw [hframe.bytes]
    exact checkTransfer_wrapFrame hframe.length
  have hsize : st.len + (fulls ++ [last]).flatten.length ≤ tunnelDataSize := by
    have hle := length_wrapFrame_le frame
    rw [hwire, hlen, tunnelDataSize]
    omega
  rw [← hwire]
  refine run_handleUsbEvents hpos hlt hframe.request hproxy hfulls (hbatches.trans hps)
    ⟨.inl ⟨hphase, hlen, hlock⟩⟩ hsize ?_
  rw [hwire, hlen, Nat.zero_add, slice_write, hcheck]

/-- The two ends agree.  A reply goes out as the bytes the host would have wrapped, in
full packets and a short one, and the host unwraps it.  A request of the host, in any
division of its packets over `usb_event`s, is staged byte for byte. -/
theorem framing_agrees {frame : List UInt8} (hmax : frame.length ≤ maxDecodedFrame) :
    (0 < frame.length → ∀ (st : State) (s : Tunnel), s.wireOk = true →
      s.len.toNat = frame.length → Mem.slice s.data 0 frame.length = frame →
      ∃ ps, (Prog.run exec (deliverReply st) s).1.out = (ps.map Output.usb).reverse ++ s.out ∧
        ps.flatten = HostUsb.wrapFrame frame ∧ ShortEnded ps ∧
        (HostUsb.Consistent frame → HostUsb.unwrapFrame ps.flatten = .ok frame)) ∧
    (∀ raw, RequestBytes raw frame → ∀ (cfg : TransportConfig) (st : State) (s : Tunnel),
      cfg.hostProxy.isSome → st.phase = .idle → st.len = 0 → s.lock = free →
      ∀ batches : List (List (List UInt8)),
        batches.flatten = packets (HostUsb.wrapFrame frame) →
        ∃ st' s', Prog.run exec (handleUsbEvents cfg st [] batches) s = (s', st', []) ∧
          st'.phase = .staged ∧ s'.lock = cfg.hostProxyTid ∧ s'.len.toNat = frame.length ∧
          Mem.slice s'.data 0 frame.length = frame ∧ s'.out = .notify 0 :: s.out) := by
  constructor
  · intro _ st s hwire hlen hdata
    have hflat : (replyPieces frame).flatten = HostUsb.wrapFrame frame := by
      rw [flatten_replyPieces, HostUsb.wrapFrame_eq]
    refine ⟨_, deliverReply_packets st hwire hlen hdata, hflat, shortEnded_replyPieces frame, ?_⟩
    intro hconsistent
    rw [hflat]
    exact HostUsb.unwrapFrame_wrapFrame hconsistent
  · intro raw hframe cfg st s hproxy hphase hlen hlock batches hbatches
    rw [HostUsb.wrapFrame_eq] at hbatches
    obtain ⟨st', s', hstaged, hrun⟩ :=
      handleUsbEvents_stages hframe hmax hphase hlen hlock hproxy hbatches
    have hsize : frame.length < UInt32.size := Nat.lt_of_le_of_lt hmax (by decide)
    refine ⟨st', s', hrun, hstaged.phase, hstaged.lock, ?_, ?_, hstaged.out⟩
    · rw [hstaged.len, hframe.frameSize]
      exact UInt32.toNat_ofNat_of_lt' hsize
    · have hle : frame.length ≤ (wrapFrame frame).length := by
        rw [wrapFrame]
        split <;> simp
      rw [hstaged.data, hlen, ← slice_take _ _ hle, slice_write, take_wrapFrame]

/-- A bare request of twelve bytes, in one packet. -/
theorem framing_agrees_request :
    ∃ st' s', Prog.run exec (handleUsbEvents HostProxy.usbBuild .new []
          [[[1, 5, 0, 7, 0, 9, 0, 0, 0, 0, 0, 0, 148, 229]]]) Tunnel.new = (s', st', []) ∧
      st'.phase = .staged ∧ s'.lock = 1 ∧ s'.len.toNat = 12 ∧
      Mem.slice s'.data 0 12 = [1, 5, 0, 7, 0, 9, 0, 0, 0, 0, 0, 0] ∧
      s'.out = [.notify 0] :=
  (framing_agrees (show [1, 5, 0, 7, 0, 9, 0, 0, 0, 0, 0, 0].length ≤ maxDecodedFrame by decide)).2
    { header := { frameType := .ipcRequest, seq := 5, length := 7 },
      payload := [9, 0, 0, 0, 0, 0, 0] } ⟨rfl, rfl, by decide⟩ HostProxy.usbBuild .new Tunnel.new
    (by decide) rfl rfl rfl _ (by decide +kernel)

end Usb
end Rcard
