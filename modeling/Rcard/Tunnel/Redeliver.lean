/-
Sending the last reply again.

The host answers a reply with a bad checksum by a `ReplyCorrupted` frame, and the
host proxy then has the transport deliver the buffer once more.  The reply is
kept nowhere else.  But the frame with the request for it went through the same
buffer, from the first byte on, so what is delivered the second time is never the
reply.
-/
import Rcard.Tunnel.HostProxy

namespace Rcard

open List Mem Prog FrameHeader TunnelErrorCode

open Tunnel

namespace Usb

/-! ## What goes over the wire -/

def wireBytes : Output → List UInt8
  | .usb packet => packet
  | _ => []

/-- All bytes on the IN endpoint so far.  The newest output comes first in `out`. -/
def emitted (s : Tunnel) : List UInt8 := s.out.reverse.flatMap wireBytes

def withPackets (s : Tunnel) (ps : List (List UInt8)) : Tunnel :=
  { s with out := (ps.map Output.usb).reverse ++ s.out }

theorem emitted_withPackets (s : Tunnel) (ps : List (List UInt8)) :
    emitted (withPackets s ps) = emitted s ++ ps.flatten := by
  have hps : (ps.map Output.usb).flatMap wireBytes = ps.flatten := by
    induction ps with
    | nil => rfl
    | cons p ps ih => rw [map_cons, flatMap_cons, ih, flatten_cons, wireBytes]
  grind [emitted, withPackets]

theorem withPackets_append (s : Tunnel) (ps qs : List (List UInt8)) :
    withPackets (withPackets s ps) qs = withPackets s (ps ++ qs) := by
  simp [withPackets]

theorem emitted_notify (s : Tunnel) (code : UInt32) :
    emitted { s with out := .notify code :: s.out } = emitted s := by
  simp [emitted, wireBytes]

variable {s : Tunnel}

theorem run_writePackets (h : s.wireOk = true) (ps : List (List UInt8)) :
    run exec (writePackets ps) s = (withPackets s ps, true) := by
  induction ps generalizing s with
  | nil => rfl
  | cons p ps ih =>
    have hsend : run exec (send (.usb p)) s = (withPackets s [p], true) := by
      simp [send, exec, h, withPackets]
    have hok : (withPackets s [p]).wireOk = true := h
    rw [writePackets, run_bind, hsend, if_pos rfl]
    rw [ih hok, withPackets_append]
    rfl

theorem run_writePieces (h : s.wireOk = true) (ds : List (List UInt8)) :
    run exec (writePieces ds) s = (withPackets s (ds.flatMap packets), true) := by
  induction ds generalizing s with
  | nil => rfl
  | cons d ds ih =>
    have hok : (withPackets s (packets d)).wireOk = true := h
    rw [writePieces, run_bind, writeUsb, run_writePackets h, if_pos rfl]
    rw [ih hok, withPackets_append]
    rfl

theorem flatten_chunks (data : List UInt8) (k : Nat) :
    ((List.range k).map fun i => (data.drop (i * packetSize)).take packetSize).flatten =
      data.take (k * packetSize) := by
  induction k with
  | zero => simp
  | succ k ih =>
    rw [range_succ, map_append, flatten_append, ih, Nat.succ_mul, take_add]
    simp

theorem flatten_packets (data : List UInt8) : (packets data).flatten = data := by
  rw [packets, flatten_chunks, take_of_length_le]
  rw [packetSize]
  omega

theorem flatten_flatMap_packets (ds : List (List UInt8)) :
    (ds.flatMap packets).flatten = ds.flatten := by
  induction ds with
  | nil => rfl
  | cons d ds ih => rw [flatMap_cons, flatten_append, flatten_packets, ih, flatten_cons]

theorem length_crcBytes (data : List UInt8) : (crcBytes data).length = 2 := rfl

theorem flatten_lastPieces (packet : List UInt8) :
    (if packet.length ≤ packetSize then
        if packet.length = packetSize then [packet, [0]] else [packet]
      else [packet.take packetSize, packet.drop packetSize]).flatten =
      packet ++ if packet.length = packetSize then [0] else [] := by
  split
  · split <;> simp
  · rw [if_neg (by omega)]
    simp

/-- `deliver_reply` sends the wrapped frame, however it cuts it up. -/
theorem flatten_replyPieces (data : List UInt8) : (replyPieces data).flatten = wrapFrame data := by
  have htail : (data.drop (data.length / packetSize * packetSize)).length =
      data.length % packetSize := by
    rw [length_drop, packetSize]
    omega
  have hlast : (data.drop (data.length / packetSize * packetSize) ++ crcBytes data).length =
      data.length % packetSize + 2 := by
    rw [length_append, htail, length_crcBytes]
  have hwrap : wrapFrame data = data ++ (crcBytes data ++
      if data.length % packetSize + 2 = packetSize then [0] else []) := by
    grind [wrapFrame, packetSize]
  rw [replyPieces, flatten_append, flatten_chunks]
  by_cases hpos : (data.drop (data.length / packetSize * packetSize)).length > 0
  · rw [if_pos hpos, flatten_lastPieces, hlast, ← append_assoc, ← append_assoc, take_append_drop,
      hwrap, append_assoc]
  · rw [if_neg hpos, hwrap, if_neg (by rw [packetSize] at *; omega), take_of_length_le]
    · simp
    · rw [packetSize] at *
      omega

theorem run_deliverReply (st : State) (h : s.wireOk = true) :
    run exec (deliverReply st) s =
      ({ withPackets s ((replyPieces (slice s.data 0 s.len.toNat)).flatMap packets) with
          lock := free },
        { st with phase := .idle, len := 0, lastSent := .ipcReply }, true) := by
  have hlen : run exec getLen s = (s, s.len) := rfl
  have hread : run exec (read s.len.toNat) s = (s, slice s.data 0 s.len.toNat) := rfl
  rw [deliverReply, run_bind, hlen, run_bind, hread, run_bind, run_writePieces h]
  rfl

theorem emitted_deliverReply (st : State) (h : s.wireOk = true) :
    emitted (run exec (deliverReply st) s).1 =
      emitted s ++ wrapFrame (slice s.data 0 s.len.toNat) := by
  rw [run_deliverReply st h, ← flatten_replyPieces, ← flatten_flatMap_packets,
    ← emitted_withPackets]
  rfl

/-! ## The request for the last reply -/

theorem checkTransfer_wrapFrame {header : FrameHeader} {payload : List UInt8}
    (h : payload.length = header.length.toNat) :
    checkTransfer (wrapFrame (header.encode ++ payload)) = some { header, payload } := by
  have hlen : (header.encode ++ payload).length = header.frameSize := by
    rw [length_append, length_encode, h, frameSize]
  obtain ⟨pad, hpad⟩ : ∃ pad, wrapFrame (header.encode ++ payload) =
      header.encode ++ payload ++ (crcBytes (header.encode ++ payload) ++ pad) := by
    rw [wrapFrame]
    split
    · exact ⟨[0], append_assoc _ _ _⟩
    · exact ⟨[], by rw [append_nil]⟩
  have htotal : (wrapFrame (header.encode ++ payload)).length =
      header.frameSize + (2 + pad.length) := by
    rw [hpad, length_append, hlen, length_append, length_crcBytes]
  have hdecode : decode (wrapFrame (header.encode ++ payload)) = .ok header := by
    rw [hpad]
    exact decode_encode header _
  have htake : (wrapFrame (header.encode ++ payload)).take header.frameSize =
      header.encode ++ payload := by
    rw [hpad, ← hlen, take_left]
  have hcrc : ((wrapFrame (header.encode ++ payload)).drop header.frameSize).take 2 =
      crcBytes (header.encode ++ payload) := by
    rw [hpad, ← hlen, drop_left]
    exact take_left' (length_crcBytes _)
  have hshort : ¬ (wrapFrame (header.encode ++ payload)).length < headerSize + 2 := by
    rw [htotal, frameSize]
    omega
  rw [checkTransfer, if_neg hshort, hdecode]
  dsimp only
  rw [if_neg (by omega), htake, hcrc, if_neg (not_not.mpr rfl), ← length_encode header, drop_left]

def retransmitRequest (seq : UInt16) : List UInt8 :=
  wrapFrame (tunnelErrorFrame seq .replyCorrupted)

theorem length_retransmitRequest (seq : UInt16) : (retransmitRequest seq).length = 9 := rfl

theorem checkTransfer_retransmitRequest (seq : UInt16) :
    ∃ frame, checkTransfer (retransmitRequest seq) = some frame ∧
      frame.parseTunnelError = some .replyCorrupted :=
  ⟨_, checkTransfer_wrapFrame rfl, rfl⟩

theorem run_tryAcquireOrWipe_free (h : s.lock = free) (tid : UInt32) :
    run exec (tryAcquireOrWipe tid) s = ({ s with lock := tid }, true) := by
  have hfirst : run exec (tryAcquire tid) s = ({ s with lock := tid }, true) := by
    simp [tryAcquire, compareExchange, exec, h]
  rw [tryAcquireOrWipe, run_bind, hfirst]
  rfl

theorem run_onPacket_free (cfg : TransportConfig) {st : State} {packet : List UInt8}
    (hphase : st.phase = .idle) (hlen : st.len = 0) (hlock : s.lock = free)
    (hpacket : packet.length ≤ tunnelDataSize) :
    run exec (onPacket cfg st packet) s =
      ({ s with lock := cfg.selfTid, data := write s.data 0 packet }, { st with
          phase := .accumulating, len := packet.length, disconnected := false
          complete := packet.length < packetSize }) := by
  have hfit : ¬ st.len + packet.length > tunnelDataSize := by omega
  rw [onPacket, run_bind, accumulate, if_neg (by simp [hphase]), if_pos hphase, run_bind,
    run_tryAcquireOrWipe_free hlock, if_pos rfl, storePacket, if_neg hfit, hlen, Nat.zero_add]
  rfl

/-- The frame makes the transport release the buffer and wake the host proxy. -/
theorem run_onComplete_retransmit (cfg : TransportConfig) (st : State) (s : Tunnel)
    {frame : RawFrame} (hphase : st.phase = .accumulating) (hlast : st.lastSent = .ipcReply)
    (hcheck : checkTransfer (slice s.data 0 st.len) = some frame)
    (hparse : frame.parseTunnelError = some .replyCorrupted) :
    run exec (onComplete cfg st) s =
      ({ s with lock := free, out := .notify 1 :: s.out },
        { st with phase := .retransmitting, len := 0, complete := false }) := by
  have hread : run exec (read st.len) s = (s, slice s.data 0 st.len) := rfl
  have hretransmit : run exec (retransmit st) s =
      ({ s with lock := free, out := .notify 1 :: s.out },
        { st with phase := .retransmitting, len := 0 }) := by
    rw [retransmit, hlast]
    rfl
  have hprocess : run exec (processAccumulatedFrame cfg st) s =
      ({ s with lock := free, out := .notify 1 :: s.out },
        { st with phase := .retransmitting, len := 0 }, false) := by
    rw [processAccumulatedFrame, if_neg (by simp [hphase]), run_bind, hread]
    rw [hcheck]
    dsimp only
    rw [acceptFrame, hparse]
    rw [run_bind, hretransmit]
    rfl
  rw [onComplete, run_bind, hprocess]
  rfl

theorem take_wrapFrame (frame : List UInt8) : (wrapFrame frame).take frame.length = frame := by
  grind [wrapFrame]

theorem wrapFrame_inj {frame frame' : List UInt8} (hlen : frame.length = frame'.length)
    (h : wrapFrame frame = wrapFrame frame') : frame = frame' := by
  have htake := congrArg (List.take frame.length) h
  rw [take_wrapFrame, hlen, take_wrapFrame] at htake
  exact htake

end Usb

namespace HostProxy

open Usb (emitted wrapFrame retransmitRequest)

/-- A transfer of one short packet reaches the USB transport. -/
def World.receiveTransfer (cfg : TransportConfig) (w : World) (packet : List UInt8) : World :=
  let (tun, usb) := run exec
    (do
      let st ← Usb.onPacket cfg w.usb packet
      Usb.onComplete cfg st) w.tun
  { w with tun, usb }

/-- The USB transport has delivered the first `n` bytes of the buffer. -/
structure Delivered (w w' : World) (n : Nat) : Prop where
  lock : w'.tun.lock = free
  data : w'.tun.data = w.tun.data
  wireOk : w'.tun.wireOk = true
  phase : w'.usb.phase = .idle
  len : w'.usb.len = 0
  lastSent : w'.usb.lastSent = .ipcReply
  last : w'.last = w.last
  emitted : emitted w'.tun = emitted w.tun ++ wrapFrame (slice w.tun.data 0 n)

variable {w : World} {n : Nat}

theorem delivered_of_access (hwire : w.tun.wireOk = true) (hn : n < UInt32.size) (tid : UInt32) :
    Delivered w
      ({ w with tun := { w.tun with len := UInt32.ofNat n, lock := tid } }.deliverReply .usb)
      n := by
  have hlen : (UInt32.ofNat n).toNat = n := by
    exact Nat.mod_eq_of_lt hn
  have hok : ({ w.tun with len := UInt32.ofNat n, lock := tid } : Tunnel).wireOk = true := hwire
  have hrun := Usb.run_deliverReply w.usb hok
  have hemit := Usb.emitted_deliverReply w.usb hok
  rw [hrun] at hemit
  rw [hlen] at hrun hemit
  rw [World.deliverReply, hrun]
  exact ⟨rfl, rfl, hwire, rfl, rfl, rfl, rfl, hemit⟩

theorem handBack_delivered (cfg : Config) (hwire : w.tun.wireOk = true) (hn : n < UInt32.size) :
    Delivered { w with last := { transport := 1, len := n } } (handBack cfg w .usb n) n :=
  delivered_of_access (w := { w with last := { transport := 1, len := n } }) hwire hn _

theorem redeliver_delivered (hwire : w.tun.wireOk = true) (hn : n < UInt32.size) (hpos : n ≠ 0)
    (hlast : w.last = { transport := 1, len := n }) : Delivered w (redeliver w .usb) n := by
  have hlen : w.last.len = n := by rw [hlast]
  have htag : w.last.transport = Transport.usb.tag := by rw [hlast]; rfl
  rw [redeliver, if_neg (by rw [hlen]; exact hpos), if_neg (not_not.mpr htag), hlen]
  exact delivered_of_access hwire hn _

theorem serve_answered (cfg : Config) (kernel : Kernel) {t : Transport} {len : Nat}
    (hfetch : w.fetchPendingRequest t = some len) (hparse : (parseRequest w.tun.data len).isSome) :
    ∃ data frame, IsAnswer frame ∧ serve cfg kernel w t =
      handBack cfg { w with tun := { w.tun with data := write data 0 frame } } t frame.length := by
  obtain ⟨data, frame, hframe, hdata, hlen⟩ := dispatch_answered kernel hparse
  have hne : len ≠ 0 := by
    rintro rfl
    cases hparse
  refine ⟨data, frame, hframe, ?_⟩
  rw [serve, hfetch]
  dsimp only
  rw [if_neg hne, hdata, hlen, if_pos hframe.length_pos]

structure Asked (w w' : World) (request : List UInt8) : Prop where
  data : w'.tun.data = write w.tun.data 0 request
  wireOk : w'.tun.wireOk = w.tun.wireOk
  phase : w'.usb.phase = .retransmitting
  last : w'.last = w.last
  emitted : emitted w'.tun = emitted w.tun

theorem receiveTransfer_asked (cfg : TransportConfig) (hlock : w.tun.lock = free)
    (hphase : w.usb.phase = .idle) (hlen : w.usb.len = 0) (hlast : w.usb.lastSent = .ipcReply)
    (seq : UInt16) :
    Asked w (w.receiveTransfer cfg (retransmitRequest seq)) (retransmitRequest seq) := by
  obtain ⟨frame, hcheck, hparse⟩ := Usb.checkTransfer_retransmitRequest seq
  have hpacket := Usb.run_onPacket_free cfg hphase hlen hlock
    (show (retransmitRequest seq).length ≤ tunnelDataSize by
      rw [Usb.length_retransmitRequest]
      decide)
  have hcomplete := Usb.run_onComplete_retransmit cfg
    (run exec (Usb.onPacket cfg w.usb (retransmitRequest seq)) w.tun).2
    (run exec (Usb.onPacket cfg w.usb (retransmitRequest seq)) w.tun).1 (by rw [hpacket])
    (by rw [hpacket]; exact hlast) (by rw [hpacket]; exact hcheck) hparse
  rw [World.receiveTransfer, run_bind, hcomplete, hpacket]
  exact ⟨rfl, rfl, rfl, rfl, Usb.emitted_notify _ _⟩

/-- No answer survives the request for it. -/
theorem overwritten_ne_answer {frame : List UInt8} (h : IsAnswer frame) (data : Nat → UInt8)
    (seq : UInt16) :
    slice (write (write data 0 frame) 0 (retransmitRequest seq)) 0 frame.length ≠
      frame := by
  intro heq
  have hbyte : ∀ k (hk : k < frame.length) (hr : k < (retransmitRequest seq).length),
      frame[k] = (retransmitRequest seq)[k] := by
    intro k hk hr
    have hget := getElem?_slice (write (write data 0 frame) 0 (retransmitRequest seq)) 0 hk
    rw [heq, write_apply_of_lt _ hr, getElem?_eq_getElem hk] at hget
    exact Option.some.inj hget
  rcases h with ⟨rest, rfl, _⟩ | ⟨seq', code, hcode, rfl⟩
  · have htypes : FrameType.ipcReply.toU8 = FrameType.simple.toU8 :=
      hbyte 0 (Nat.zero_lt_succ _) (Nat.zero_lt_succ _)
    exact absurd htypes (by decide)
  · have hsix : 6 < (retransmitRequest seq).length := by
      rw [Usb.length_retransmitRequest]
      decide
    have hcodes : code.toByte = replyCorrupted.toByte :=
      hbyte 6 (Nat.lt_succ_self 6) hsix
    apply hcode
    rw [← fromByte_toByte code, hcodes, fromByte_toByte]

/-- Whatever the reply, and whatever the sequence number of the request for it,
the second delivery differs from the first. -/
theorem redelivery_ne_delivery (cfg : Config) (usbCfg : TransportConfig) (kernel : Kernel)
    (w : World) {sender : UInt16} (seq : UInt16) (hsender : cfg.usbTask = some sender)
    (hanswer : Answerable w .usb 0) (hwire : w.tun.wireOk = true) :
    let delivered := handleHostRequest cfg kernel w sender 0
    let asked := delivered.receiveTransfer usbCfg (retransmitRequest seq)
    let redelivered := handleHostRequest cfg kernel asked sender 1
    asked.usb.phase = .retransmitting ∧
      ∃ reply again, emitted delivered.tun = emitted w.tun ++ reply ∧
        emitted redelivered.tun = emitted delivered.tun ++ again ∧ again ≠ reply := by
  intro delivered asked redelivered
  have hselect : selectTransport cfg sender = some .usb := by rw [selectTransport, if_pos hsender]
  obtain ⟨len, hfetch, hparse⟩ := hanswer
  obtain ⟨data, frame, hframe, hserve⟩ := serve_answered cfg kernel hfetch hparse
  have hlt : frame.length < UInt32.size := Nat.lt_trans hframe.length_lt (by decide)
  have hdelivered : delivered = handBack cfg
      { w with tun := { w.tun with data := write data 0 frame } } .usb frame.length := by
    show handleHostRequest cfg kernel w sender 0 = _
    rw [handleHostRequest, hselect]
    exact hserve
  have hd := handBack_delivered cfg
    (w := { w with tun := { w.tun with data := write data 0 frame } }) hwire hlt
  rw [← hdelivered] at hd
  have ha : Asked delivered asked (retransmitRequest seq) :=
    receiveTransfer_asked usbCfg hd.lock hd.phase hd.len hd.lastSent seq
  have hr : Delivered asked redelivered frame.length := by
    show Delivered asked (handleHostRequest cfg kernel asked sender 1) frame.length
    rw [handleHostRequest, hselect]
    exact redeliver_delivered (ha.wireOk.trans hd.wireOk) hlt
      (Nat.pos_iff_ne_zero.mp hframe.length_pos) (ha.last.trans hd.last)
  have hfirst : emitted delivered.tun = emitted w.tun ++ wrapFrame frame := by
    have hemit := hd.emitted
    rw [slice_write] at hemit
    exact hemit
  have hdata : delivered.tun.data = write data 0 frame := hd.data
  have hsecond := hr.emitted
  rw [ha.emitted, ha.data, hdata] at hsecond
  refine ⟨ha.phase, _, _, hfirst, hsecond, fun heq => overwritten_ne_answer hframe data seq ?_⟩
  exact Usb.wrapFrame_inj (length_slice _ _ _) heq

def answer42 : Kernel := fun _ _ _ _ => { response := some (0, [42]), leases := [] }

def usbBuild : TransportConfig := { selfTid := 2, hostProxy := some 1 }

/-- The world after the USB transport has staged a request with one argument
byte, as the first thing ever. -/
def stagedWorld : World :=
  World.receiveTransfer usbBuild { tun := Tunnel.new, usb := .new, usart := .new, last := .new }
    (wrapFrame [1, 5, 0, 7, 0, 9, 0, 0, 0, 0, 0, 0])

theorem redelivery_ne_delivery_answer42 :
    ∃ reply again,
      emitted (handleHostRequest threeTasks answer42 stagedWorld 2 0).tun =
        emitted stagedWorld.tun ++ reply ∧
      emitted (handleHostRequest threeTasks answer42
          ((handleHostRequest threeTasks answer42 stagedWorld 2 0).receiveTransfer usbBuild
            (retransmitRequest 5)) 2 1).tun =
        emitted (handleHostRequest threeTasks answer42 stagedWorld 2 0).tun ++ again ∧
      again ≠ reply :=
  (redelivery_ne_delivery threeTasks usbBuild answer42 stagedWorld 5 (by decide)
    ⟨12, by decide +kernel, by decide +kernel⟩ (by decide +kernel)).2

/-- A reply of eleven bytes comes back with the nine bytes of the request for it
at its front. -/
theorem reply_lost :
    emitted (handleHostRequest threeTasks answer42 stagedWorld 2 0).tun =
        [2, 5, 0, 6, 0, 0, 0, 0, 0, 0, 42, 179, 47] ∧
      emitted (handleHostRequest threeTasks answer42
          ((handleHostRequest threeTasks answer42 stagedWorld 2 0).receiveTransfer usbBuild
            (retransmitRequest 5)) 2 1).tun =
        [2, 5, 0, 6, 0, 0, 0, 0, 0, 0, 42, 179, 47] ++
          [3, 5, 0, 2, 0, 1, 7, 196, 243, 0, 42, 133, 40] := by
  decide +kernel

end HostProxy
end Rcard
