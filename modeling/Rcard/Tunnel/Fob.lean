/-
The channel the fob drives (`firmware/sysmodule/usb_protocol_fob/src/main.rs`).

`send` wraps a message in a simple frame and `write_usb` puts it on an IN endpoint with the
framing of the other channel.  It assembles the end of the frame, the checksum and the pad in
one array of 64 bytes.  When 63 bytes of the frame are left over, the second byte of the
checksum has no place there, and the store of it panics.

An endpoint takes a packet or fails.  It is asked again while it is busy, so an answer is the
one after that.
-/
import Rcard.Lib.Fallible
import Rcard.Proto.Codec
import Rcard.Tunnel.Framing

namespace Rcard.Fob

open List Usb Fallible

open Fallible

inductive FobSendError where
  | disconnected
  | bufferFull
  deriving DecidableEq, Repr

inductive Fault where
  | error (e : FobSendError)
  | panic
  deriving DecidableEq, Repr

inductive Answer where
  | taken
  | failed
  /-- The driver died in the call. -/
  | died
  deriving DecidableEq, Repr

structure Endpoint where
  answers : Nat → Answer
  asked : Nat
  packets : List (List UInt8)

abbrev Sending := Fallible Endpoint Fault

def emitPacket (data : List UInt8) : Sending Unit := fun ep =>
  match ep.answers ep.asked with
  | .taken => (.ok (), { ep with asked := ep.asked + 1, packets := ep.packets ++ [data] })
  | .failed => (.error (.error .disconnected), { ep with asked := ep.asked + 1 })
  | .died => (.error .panic, { ep with asked := ep.asked + 1 })

def crc16 (data : List UInt8) : UInt16 := Usb.crc16Update 0xFFFF data

/-- `buf[i] = v` -/
def store (buf : List UInt8) (i : Nat) (v : UInt8) : Sending (List UInt8) :=
  if i < buf.length then pure (buf.set i v) else fail .panic

/-- `&buf[lo..hi]` -/
def slice (buf : List UInt8) (lo hi : Nat) : Sending (List UInt8) :=
  if lo ≤ hi ∧ hi ≤ buf.length then pure ((buf.take hi).drop lo) else fail .panic

/-- The loop over the full packets, for the numbers in the list. -/
def emitFull (data : List UInt8) : List Nat → Sending Unit
  | [] => pure ()
  | i :: is => do
      emitPacket (← slice data (i * 64) ((i + 1) * 64))
      emitFull data is

/-- The frame's last `tail` bytes, the checksum and the pad. -/
def emitLast (rest : List UInt8) (crc : UInt16) : Sending Unit :=
  let tail := rest.length
  if tail > 0 then do
    let last := rest ++ replicate (64 - tail) 0
    let last ← store last tail (crc >>> 8).toUInt8
    let last ← store last (tail + 1) crc.toUInt8
    let total := tail + 2
    if total ≤ 64 then
      emitPacket (← slice last 0 total)
      if total = 64 then emitPacket [0]
    else
      emitPacket (← slice last 0 64)
      emitPacket (← slice last 64 total)
  else emitPacket [(crc >>> 8).toUInt8, crc.toUInt8]

/-- `opened` is whether `EP_IN` is set. -/
def writeUsb (opened : Bool) (data : List UInt8) : Sending Unit :=
  if !opened then fail (.error .disconnected)
  else do
    let full := data.length / 64
    emitFull data (range full)
    emitLast (data.drop (full * 64)) (crc16 data)

def fobDataSize : Nat := 500
def fobEncodeSize : Nat := 512

def send (opened : Bool) (w : FrameWriter) (opcode : UInt8) (payload : List UInt8) :
    FrameWriter × Sending Unit :=
  match w.writeSimpleRaw opcode (payload.take fobDataSize) fobEncodeSize with
  | (w, none) => (w, fail (.error .bufferFull))
  | (w, some frame) => (w, writeUsb opened frame)

/-! ## An endpoint that takes everything -/

def Endpoint.Taking (ep : Endpoint) : Prop := ∀ n, ep.answers n = .taken

def Endpoint.sent (ep : Endpoint) (ps : List (List UInt8)) : Endpoint :=
  { ep with asked := ep.asked + ps.length, packets := ep.packets ++ ps }

theorem Endpoint.Taking.sent {ep : Endpoint} (h : ep.Taking) (ps : List (List UInt8)) :
    (ep.sent ps).Taking := h

theorem Endpoint.sent_nil (ep : Endpoint) : ep.sent [] = ep := by
  rw [Endpoint.sent, append_nil]
  rfl

theorem Endpoint.sent_append (ep : Endpoint) (ps qs : List (List UInt8)) :
    (ep.sent ps).sent qs = ep.sent (ps ++ qs) := by
  simp only [Endpoint.sent, append_assoc, length_append, Nat.add_assoc]

theorem slice_of_le {buf : List UInt8} {lo hi : Nat} (hlo : lo ≤ hi) (hhi : hi ≤ buf.length) :
    slice buf lo hi = pure ((buf.take hi).drop lo) := if_pos ⟨hlo, hhi⟩

theorem store_append (front : List UInt8) (b v : UInt8) (back : List UInt8) :
    store (front ++ b :: back) front.length v = pure (front ++ v :: back) := by
  rw [store, if_pos (by simp), set_append_right _ _ (Nat.le_refl _), Nat.sub_self, set_cons_zero]

section Taking

variable {ep : Endpoint}

theorem emitPacket_taking (h : ep.Taking) (data : List UInt8) :
    emitPacket data ep = (.ok (), ep.sent [data]) := by
  rw [emitPacket, h]
  rfl

variable {data : List UInt8}

theorem emitFull_taking (h : ep.Taking) {is : List Nat}
    (his : ∀ i ∈ is, (i + 1) * 64 ≤ data.length) :
    emitFull data is ep = (.ok (), ep.sent (is.map fun i => (data.drop (i * 64)).take 64)) := by
  induction is generalizing ep with
  | nil =>
    rw [map_nil, Endpoint.sent_nil]
    rfl
  | cons i is ih =>
    obtain ⟨hi, his⟩ := forall_mem_cons.mp his
    have hslice : slice data (i * 64) ((i + 1) * 64) = pure ((data.drop (i * 64)).take 64) := by
      rw [slice_of_le (Nat.mul_le_mul_right 64 (Nat.le_succ i)) hi, take_drop, Nat.succ_mul]
    rw [emitFull, hslice, pure_bind, bind_of_ok (emitPacket_taking h _), ih (h.sent _) his,
      Endpoint.sent_append]
    rfl

/-- What is sent behind the full packets. -/
def lastPieces (rest : List UInt8) (crc : List UInt8) : List (List UInt8) :=
  if rest.length > 0 then
    if (rest ++ crc).length = 64 then [rest ++ crc, [0]] else [rest ++ crc]
  else [crc]

theorem emitLast_taking (h : ep.Taking) {rest : List UInt8} (hrest : rest.length < 63)
    (crc : UInt16) : emitLast rest crc ep =
      (.ok (), ep.sent (lastPieces rest [(crc >>> 8).toUInt8, crc.toUInt8])) := by
  rw [emitLast, lastPieces]
  dsimp only
  split
  · have hzeros : replicate (64 - rest.length) (0 : UInt8) =
        0 :: 0 :: replicate (62 - rest.length) 0 := by
      rw [show 64 - rest.length = 62 - rest.length + 1 + 1 by omega, replicate_succ, replicate_succ]
    have hcrc : (rest ++ [(crc >>> 8).toUInt8, crc.toUInt8]).length = rest.length + 2 :=
      length_append
    have hfirst := store_append rest 0 (crc >>> 8).toUInt8 (0 :: replicate (62 - rest.length) 0)
    have hsecond := store_append (rest ++ [(crc >>> 8).toUInt8]) 0 crc.toUInt8
      (replicate (62 - rest.length) 0)
    have hslice : slice (rest ++ (crc >>> 8).toUInt8 :: crc.toUInt8 ::
        replicate (62 - rest.length) 0) 0 (rest.length + 2) =
        pure (rest ++ [(crc >>> 8).toUInt8, crc.toUInt8]) := by
      rw [slice_of_le (Nat.zero_le _) (by simp), append_cons, append_cons, take_left' (by simp),
        append_assoc]
      rfl
    rw [← append_cons, ← append_cons, length_append, length_singleton]
      at hsecond
    rw [hzeros, hfirst, pure_bind, hsecond, pure_bind, if_pos (by omega), hslice, pure_bind,
      bind_of_ok (emitPacket_taking h _), hcrc]
    split
    · rw [emitPacket_taking (h.sent _), Endpoint.sent_append]
      rfl
    · rfl
  · exact emitPacket_taking h _

/-- The second byte of the checksum is stored behind the array. -/
theorem emitLast_panics {rest : List UInt8} (hrest : rest.length = 63) (crc : UInt16) :
    emitLast rest crc ep = (.error .panic, ep) := by
  have hfirst := store_append rest 0 (crc >>> 8).toUInt8 []
  have hsecond : store (rest ++ [(crc >>> 8).toUInt8]) (rest.length + 1) crc.toUInt8 =
      fail .panic := if_neg (by simp)
  have hzeros : replicate (64 - rest.length) (0 : UInt8) = [0] := by rw [hrest]; rfl
  rw [emitLast]
  rw [if_pos (by omega), hzeros, hfirst, pure_bind, hsecond]
  rfl

theorem emitFull_range (h : ep.Taking) (data : List UInt8) :
    emitFull data (range (data.length / 64)) ep =
      (.ok (), ep.sent ((range (data.length / 64)).map fun i =>
        (data.drop (i * 64)).take 64)) := by
  refine emitFull_taking h fun i hi => ?_
  have hlt := mem_range.mp hi
  omega

theorem writeUsb_eq (h : ep.Taking) (data : List UInt8) :
    writeUsb true data ep = emitLast (data.drop (data.length / 64 * 64)) (crc16 data)
      (ep.sent ((range (data.length / 64)).map fun i => (data.drop (i * 64)).take 64)) := by
  rw [writeUsb, if_neg (by decide), bind_of_ok (emitFull_range h data)]

theorem replyPieces_eq (hlen : data.length % 64 ≠ 63) :
    Usb.replyPieces data =
      (range (data.length / 64)).map (fun i => (data.drop (i * 64)).take 64) ++
        lastPieces (data.drop (data.length / 64 * 64)) (Usb.crcBytes data) := by
  have hfits : (data.drop (data.length / packetSize * packetSize) ++
      crcBytes data).length ≤ packetSize := by grind [packetSize, crcBytes]
  rw [replyPieces, if_pos hfits]
  rfl

theorem writeUsb_taking (h : ep.Taking) (hlen : data.length % 64 ≠ 63) :
    writeUsb true data ep = (.ok (), ep.sent (Usb.replyPieces data)) := by
  have hrest : (data.drop (data.length / 64 * 64)).length < 63 := by
    rw [length_drop]
    omega
  rw [writeUsb_eq h, emitLast_taking (h.sent _) hrest, Endpoint.sent_append, replyPieces_eq hlen]
  rfl

theorem writeUsb_panics (h : ep.Taking) (hlen : data.length % 64 = 63) :
    (writeUsb true data ep).1 = .error .panic := by
  have hrest : (data.drop (data.length / 64 * 64)).length = 63 := by
    rw [length_drop]
    omega
  rw [writeUsb_eq h, emitLast_panics hrest]

end Taking

/-! ## Agreement with the host -/

/-- The frame goes out as the bytes the host would have wrapped, in full packets and a short
one. -/
def Agrees (frame : List UInt8) (ep : Endpoint) : Prop :=
  ∃ ps, writeUsb true frame ep = (.ok (), ep.sent ps) ∧ ps.flatten = HostUsb.wrapFrame frame ∧
    Usb.ShortEnded ps

/-- Only a frame that leaves 63 bytes for its last packet is not sent. -/
theorem fob_framing_agrees_iff (frame : List UInt8) (ep : Endpoint) (h : ep.Taking) :
    Agrees frame ep ↔ frame.length % 64 ≠ 63 := by
  constructor
  · rintro ⟨ps, hrun, -⟩ hlen
    have hpanic := writeUsb_panics h hlen
    rw [hrun] at hpanic
    cases hpanic
  · intro hlen
    refine ⟨_, writeUsb_taking h hlen, ?_, shortEnded_replyPieces frame⟩
    rw [flatten_replyPieces, HostUsb.wrapFrame_eq]

def taking : Endpoint := { answers := fun _ => .taken, asked := 0, packets := [] }

theorem fob_framing_agrees_full : Agrees (List.replicate 64 0xAB) taking :=
  (fob_framing_agrees_iff (List.replicate 64 0xAB) taking fun _ => rfl).mpr (by decide)

/-- A message of 57 bytes makes a frame of 63. -/
theorem send_panics_57 :
    ((send true .new 0x10 (List.replicate 57 0xAB)).2 taking).1 = .error .panic ∧
      (FrameWriter.new.writeSimpleRaw 0x10 (List.replicate 57 0xAB) fobEncodeSize).2.map
        List.length = some 63 := by
  decide +kernel

end Rcard.Fob
