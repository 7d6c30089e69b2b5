/-
HCI packets between the host and the controller (`HciTransport::read` in `sysmodule/bluetooth`,
`recv_hci`, `read_hci`, `send_hci` and `write_hci` in `sysmodule/lcpu`).

The LCPU puts packets into the receive ring as bytes.  The host takes what is there, up to the
length of its buffer, and parses it as one packet.  What is left behind that packet is
dropped, and a packet that has not arrived completely is an error: the next `read` starts
in its middle.  So the packets come through exactly if every receive that finds bytes finds
those of one packet.

`send_hci` puts the packet into the ring of the other direction.  What `put` takes of a packet
that does not fit stays in the ring, while the call returns an error.
-/
import Rcard.Lcpu.Fifo

namespace Rcard.Hci

open List Parallel CircularBuf

/-! ## Packets

`bt_hci` is not part of the repository.  Any format will do, if a packet is read back from its
bytes, whatever comes behind them, and from no others. -/

structure Format (Packet E : Type) where
  toHciBytes : Packet → List UInt8
  fromHciBytes : List UInt8 → Except E (Packet × List UInt8)
  fromHciBytes_append : ∀ p rest, fromHciBytes (toHciBytes p ++ rest) = .ok (p, rest)
  eq_of_fromHciBytes : ∀ {bytes p rest}, fromHciBytes bytes = .ok (p, rest) →
    bytes = toHciBytes p ++ rest

namespace Format

variable {Packet E : Type} (fmt : Format Packet E)

/-- The first packet of what was received.  The bytes behind it are dropped. -/
def firstPacket (bytes : List UInt8) : Except E Packet := do
  let (packet, _) ← fmt.fromHciBytes bytes
  return packet

/-- What the calls of `HciTransport::read` return, in the order of the receives they make.
A call goes on receiving until something has come. -/
def read : (received : List (List UInt8)) → List (Except E Packet)
  | [] => []
  | bytes :: received =>
    if 0 < bytes.length then
      fmt.firstPacket bytes :: read received
    else read received

variable {fmt} {ps : List Packet}

theorem firstPacket_toHciBytes (p : Packet) : fmt.firstPacket (fmt.toHciBytes p) = .ok p := by
  have hparse := fmt.fromHciBytes_append p []
  rw [append_nil] at hparse
  rw [firstPacket, hparse]
  rfl

theorem eq_of_firstPacket {bytes : List UInt8} {p : Packet} (h : fmt.firstPacket bytes = .ok p) :
    ∃ rest, bytes = fmt.toHciBytes p ++ rest := by
  rw [firstPacket] at h
  cases hparse : fmt.fromHciBytes bytes with
  | error e =>
    rw [hparse] at h
    cases h
  | ok q =>
    rw [hparse] at h
    cases h
    exact ⟨q.2, fmt.eq_of_fromHciBytes hparse⟩

theorem map_firstPacket : (ps.map fmt.toHciBytes).map fmt.firstPacket = ps.map .ok := by
  rw [map_map]
  exact map_congr_left fun p _ => firstPacket_toHciBytes p

/-- If every packet came through, the bytes that came are at least theirs, and if no more
came, each receive took one packet. -/
theorem whole_packets {chunks : List (List UInt8)}
    (h : chunks.map fmt.firstPacket = ps.map .ok) :
    (ps.flatMap fmt.toHciBytes).length ≤ chunks.flatten.length ∧
      (chunks.flatten.length ≤ (ps.flatMap fmt.toHciBytes).length →
        chunks = ps.map fmt.toHciBytes) := by
  induction chunks generalizing ps with
  | nil =>
    cases ps with
    | nil => exact ⟨Nat.le_refl _, fun _ => rfl⟩
    | cons p ps => cases h
  | cons bytes chunks ih =>
    cases ps with
    | nil => cases h
    | cons p ps =>
      obtain ⟨hhead, htail⟩ := cons.inj h
      obtain ⟨hle, heq⟩ := ih htail
      obtain ⟨rest, rfl⟩ := eq_of_firstPacket hhead
      simp only [flatMap_cons, flatten_cons, length_append, map_cons]
      refine ⟨by omega, fun hshort => ?_⟩
      have hnone : rest = [] := length_eq_zero_iff.mp (by omega)
      rw [hnone, append_nil, heq (by omega)]

end Format

/-- Pieces of the same bytes and with the same lengths are the same. -/
theorem prefix_of_lengths {α : Type} {l m : List (List α)} (hbytes : l.flatten <+: m.flatten)
    (hlengths : l.map length <+: m.map length) : l <+: m := by
  induction l generalizing m with
  | nil => exact nil_prefix
  | cons x l ih =>
    cases m with
    | nil => cases prefix_nil.mp hlengths
    | cons y m =>
      obtain ⟨hlen, htails⟩ := cons_prefix_cons.mp hlengths
      obtain ⟨rest, hrest⟩ := hbytes
      rw [flatten_cons, flatten_cons, append_assoc] at hrest
      obtain ⟨rfl, htail⟩ := append_inj hrest hlen
      exact (prefix_cons_inj x).mpr (ih ⟨rest, htail⟩ htails)

/-! ## Receiving -/

def scratchLen : Nat := 512

/-- `read_hci`.  The ring is at its address, and the reads that only log the header are
left out. -/
def readHci (outLen : Nat) : RingProg (List UInt8) := do
  if outLen = 0 then return []
  get outLen

/-- `recv_hci` with a buffer of `bufLen` bytes: what it has written to the front of it. -/
def recvHci (bufLen : Nat) : RingProg (List UInt8) := do
  let want := min bufLen scratchLen
  if want = 0 then return []
  readHci want

theorem recvHci_eq (bufLen : Nat) : recvHci bufLen = get (min bufLen scratchLen) := by
  rw [recvHci]
  split
  · rename_i hzero
    rw [hzero]
    rfl
  · rename_i hne
    rw [readHci, if_neg hne]

/-- The LCPU puts and the host receives. -/
def rx : Parallel Ring Side Access Access.Answer Side.Call Side.Result where
  exec := exec
  body
    | .producer, data => put data
    | .consumer, bufLen => recvHci bufLen

def rxWraps : Wraps rx calls where
  inner
    | .producer, data => some data
    | .consumer, bufLen => some (min bufLen scratchLen)
  answer
    | .producer, _, taken => taken.getD 0
    | .consumer, _, out => out.getD []
  exec := rfl
  body
    | .producer, data => (Prog.bind_ret (put data)).symm
    | .consumer, bufLen => (recvHci_eq bufLen).trans (Prog.bind_ret _).symm

/-- What the host has received from the ring. -/
def received (w : World) : List (List UInt8) := (w.done .consumer).map fun r => r.result

/-- How many bytes the receives find that they can take, when they look at the ring. -/
def fills (w : World) : List Nat :=
  (w.done .consumer).flatMap fun r =>
    (seen .writeIdxMirror r.trace).map fun ring => min ring.used (min r.call scratchLen)

section Arrivals

variable (received : List (List UInt8))

/-- The receives that were not empty. -/
def arrivals : List (List UInt8) :=
  received.filter fun bytes => 0 < bytes.length

theorem read_eq {Packet E : Type} (fmt : Format Packet E) :
    fmt.read received = (arrivals received).map fmt.firstPacket := by
  induction received with
  | nil => rfl
  | cons bytes received ih =>
    grind [Format.read, arrivals]

theorem flatten_arrivals : (arrivals received).flatten = received.flatten := by
  induction received with
  | nil => rfl
  | cons bytes received ih =>
    rw [arrivals, filter_cons]
    simp only [decide_eq_true_eq]
    split
    · rw [flatten_cons, flatten_cons, ← ih, arrivals]
    · rename_i hempty
      rw [flatten_cons, length_eq_zero_iff.mp (Nat.eq_zero_of_not_pos hempty), nil_append, ← ih,
        arrivals]

end Arrivals

/-- A receive takes what it finds. -/
theorem takes_of_rel {s u : CircularBuf.State} (hrel : rxWraps.Rel s u)
    (hgets : ∀ r ∈ u.world.done .consumer, GetTakes r) :
    ∀ r ∈ s.world.done .consumer, GetTakes ⟨min r.call scratchLen, r.trace, r.result⟩ := by
  obtain ⟨calls, hinner, houter, hmade⟩ := hrel.done .consumer
  rw [houter, forall_mem_map]
  rintro ⟨bufLen, made⟩ hmem
  have hcall := hinner _ hmem
  cases made with
  | none => cases hcall
  | some r =>
    have hgot := hgets r (hmade ▸ mem_filterMap.mpr ⟨_, hmem, rfl⟩)
    obtain ⟨call, trace, result⟩ := r
    have hwant : call = min bufLen scratchLen := Option.some.inj hcall
    subst hwant
    exact hgot

/-- The amounts that were received are those that were found. -/
theorem lengths_arrivals {w : World}
    (h : ∀ r ∈ w.done .consumer, GetTakes ⟨min r.call scratchLen, r.trace, r.result⟩) :
    (arrivals (received w)).map length = (fills w).filter (0 < ·) := by
  rw [received, fills, arrivals]
  generalize w.done .consumer = rs at h ⊢
  induction rs with
  | nil => rfl
  | cons r rs ih =>
    obtain ⟨hr, hrs⟩ := forall_mem_cons.mp h
    rw [flatMap_cons, filter_append, ← ih hrs, map_cons, filter_cons]
    rcases hr with ⟨hzero, hnone⟩ | ⟨ring, hseen, hlen⟩
    · simp only at hzero hnone
      simp [hzero, hnone]
    · simp only at hseen hlen
      rw [hseen, map_singleton, ← hlen, filter_cons]
      by_cases hpos : 0 < r.result.length <;> simp [hpos]

theorem rel_start (ring : CircularBuf.Ring) (wrPool rdPool : Nat) (size : Int) :
    rxWraps.Rel (start ring wrPool size rdPool) (start ring wrPool size rdPool) :=
  ⟨rfl, fun _ => ⟨[], nofun, rfl, rfl⟩, fun _ => .none⟩

/-- While the LCPU puts packets into the ring, with any timing: if each receive that finds bytes
finds those of the next packet, the reads return the packets in their order, and once all bytes
are received, they return all packets only if each receive found one. -/
theorem packets_preserved {Packet E : Type} (fmt : Format Packet E) (ring : CircularBuf.Ring)
    (wrPool rdPool : Nat) (size : Int) (es : List (Parallel.Event Side Side.Call))
    (s : CircularBuf.State) (hptr : rdPool ≠ 0) (hlow : 4 ≤ size) (hhigh : size ≤ 32767)
    (hrun : rx.run (start ring wrPool size rdPool) es = some s) (ps : List Packet)
    (hsent : accepted s.world <+: ps.flatMap fmt.toHciBytes) :
    ((fills s.world).filter (0 < ·) <+: ps.map (fun p => (fmt.toHciBytes p).length) →
      fmt.read (received s.world) <+: ps.map .ok) ∧
    (returned s.world = ps.flatMap fmt.toHciBytes →
      (fmt.read (received s.world) = ps.map .ok ↔
        (fills s.world).filter (0 < ·) = ps.map fun p => (fmt.toHciBytes p).length)) := by
  obtain ⟨es', u, hu, hrel⟩ := (rel_start ring wrPool rdPool size).run hrun
  obtain ⟨n, -, -, -, hinv⟩ := inv_of_run ring wrPool rdPool size es' u hptr hlow hhigh hu
  have haccepted : accepted s.world = accepted u.world := by
    obtain ⟨calls, hcalls⟩ := hrel.done .producer
    refine hcalls.flatMap_eq fun data made hmade => ?_
    rcases made with _ | ⟨call, trace, taken⟩ <;> cases hmade
    exact (append_nil _).symm
  have hreturned : returned s.world = returned u.world := by
    obtain ⟨calls, hcalls⟩ := hrel.done .consumer
    refine hcalls.flatMap_eq fun bufLen made hmade => ?_
    rcases made with _ | ⟨call, trace, out⟩ <;> cases hmade
    exact (append_nil _).symm
  have hbytes : (arrivals (received s.world)).flatten = returned s.world := by
    rw [flatten_arrivals, received, returned, flatMap_def]
  have hlengths :
      ps.map (fun p => (fmt.toHciBytes p).length) = (ps.map fmt.toHciBytes).map length :=
    (map_map ..).symm
  rw [read_eq, ← lengths_arrivals (takes_of_rel hrel hinv.gets), hlengths,
    ← Format.map_firstPacket]
  rw [flatMap_def] at hsent ⊢
  refine ⟨fun hfound => ?_, fun hall => ⟨fun h => ?_, fun h => ?_⟩⟩
  · refine (prefix_of_lengths ?_ hfound).map _
    rw [hbytes, hreturned]
    exact hinv.front.trans (haccepted ▸ hsent)
  · rw [Format.map_firstPacket] at h
    rw [(Format.whole_packets h).2 (by rw [hbytes, hall, flatMap_def])]
  · rw [eq_iff_flatten_eq.mpr ⟨hbytes.trans hall, h⟩]

/-- An event of the controller. -/
structure HciEvent where
  code : UInt8
  params : List UInt8
  fits : params.length < 256
  deriving DecidableEq

/-- A controller that sends events only: the indicator 4, the code, the length and the
parameters. -/
def events : Format HciEvent Unit where
  toHciBytes e := 4 :: e.code :: UInt8.ofNat e.params.length :: e.params
  fromHciBytes
    | kind :: code :: len :: rest =>
      if hlen : kind = 4 ∧ len.toNat ≤ rest.length then
        .ok (⟨code, rest.take len.toNat,
          Nat.lt_of_le_of_lt (length_take_le _ _) len.toNat_lt⟩, rest.drop len.toNat)
      else .error ()
    | _ => .error ()
  fromHciBytes_append e rest := by
    have hlen : (UInt8.ofNat e.params.length).toNat = e.params.length :=
      Nat.mod_eq_of_lt e.fits
    simp [hlen]
  eq_of_fromHciBytes {bytes p rest} h := by
    split at h
    · split at h
      · next kind code len rest hlen =>
        cases h
        simp [hlen.1, hlen.2]
      · cases h
    · cases h

/-- An event without parameters. -/
def emptyEvent (code : UInt8) : HciEvent := ⟨code, [], by decide⟩

/-- The LCPU puts one event, the host receives it, and the same again. -/
def oneByOne : List (Event Side Side.Call) :=
  [.call .producer (events.toHciBytes (emptyEvent 14))] ++ replicate 11 (.act .producer) ++
    [.call .consumer (259 : Nat)] ++ replicate 10 (.act .consumer) ++
    [.call .producer (events.toHciBytes (emptyEvent 15))] ++ replicate 11 (.act .producer) ++
    [.call .consumer (259 : Nat)] ++ replicate 10 (.act .consumer)

theorem packets_preserved_one_by_one :
    ∃ s, rx.run (start zeroRing 64 512 64) oneByOne = some s ∧
      events.read (received s.world) = [.ok (emptyEvent 14), .ok (emptyEvent 15)] := by
  refine ⟨_, rfl, ?_⟩
  refine ((packets_preserved events zeroRing 64 64 512 oneByOne _ (by decide) (by decide)
    (by decide) rfl [emptyEvent 14, emptyEvent 15] prefix_rfl).2 rfl).mpr rfl

/-- The LCPU puts two events before the host receives. -/
def twoAtOnce : List (Event Side Side.Call) :=
  [.call .producer (events.toHciBytes (emptyEvent 14) ++ events.toHciBytes (emptyEvent 15))] ++
    replicate 14 (.act .producer) ++
    [.call .consumer (259 : Nat)] ++ replicate 13 (.act .consumer)

/-- The second event is gone. -/
theorem second_packet_lost :
    ∃ s, rx.run (start zeroRing 64 512 64) twoAtOnce = some s ∧
      accepted s.world = events.toHciBytes (emptyEvent 14) ++ events.toHciBytes (emptyEvent 15) ∧
      s.world.shared.used = 0 ∧ events.read (received s.world) = [.ok (emptyEvent 14)] :=
  ⟨_, rfl, rfl, rfl, rfl⟩

/-! ## Sending -/

inductive HciSendError where
  | tooLarge
  deriving DecidableEq, Repr

/-- `write_hci`, without what it logs and the doorbell. -/
def writeHci (data : List UInt8) : RingProg Nat := do
  if data.length = 0 then return 0
  put data

/-- `send_hci` with the bytes of the lease and how many of them could be read. -/
def sendHci (data : List UInt8) (n : Nat) : RingProg (Except HciSendError Unit) := do
  let total := data.length
  if total = 0 then return .ok ()
  if total > scratchLen then return .error .tooLarge
  if n ≠ total then return .error .tooLarge
  let written ← writeHci data
  if written ≠ total then return .error .tooLarge
  return .ok ()

/-- The lease and how many of its bytes can be read, or the length of the buffer to fill. -/
abbrev TxCall : Side → Type
  | .producer => List UInt8 × Nat
  | .consumer => Nat

abbrev TxResult : Side → Type
  | .producer => Except HciSendError Unit
  | .consumer => List UInt8

/-- The host sends and the LCPU gets. -/
def tx : Parallel Ring Side Access Access.Answer TxCall TxResult where
  exec := exec
  body
    | .producer, (data, n) => sendHci data n
    | .consumer, outLen => get outLen

/-- What `send_hci` puts, if it comes to it. -/
def toPut (data : List UInt8) (n : Nat) : Option (List UInt8) :=
  if 0 < data.length ∧ data.length ≤ scratchLen ∧ n = data.length then some data else none

/-- What it makes of the result of its `put`. -/
def sendAnswer (data : List UInt8) : Option Nat → Except HciSendError Unit
  | some written => if written ≠ data.length then .error .tooLarge else .ok ()
  | none => if data.length = 0 then .ok () else .error .tooLarge

theorem eq_of_toPut {data d : List UInt8} {n : Nat} (h : toPut data n = some d) : d = data := by
  rw [toPut, Option.ite_none_right_eq_some] at h
  exact (Option.some.inj h.2).symm

theorem sendHci_eq (data : List UInt8) (n : Nat) :
    sendHci data n = (toPut data n).elim (.ret (sendAnswer data none))
      fun d => put d >>= fun written => .ret (sendAnswer data (some written)) := by
  rw [sendHci, toPut]
  by_cases hempty : data.length = 0
  · rw [if_pos hempty, if_neg (by omega), sendAnswer, if_pos hempty]
    rfl
  · by_cases hreach : data.length ≤ scratchLen ∧ n = data.length
    · rw [if_neg hempty, if_neg (by omega), if_neg (by omega), if_pos ⟨by omega, hreach⟩, writeHci,
        if_neg hempty]
      refine congrArg (put data >>= ·) (funext fun written => ?_)
      rw [sendAnswer]
      split <;> rfl
    · rw [if_neg hempty, if_neg (by omega : ¬(0 < data.length ∧ _)), sendAnswer, if_neg hempty]
      split_ifs <;> first | rfl | omega

def txWraps : Wraps tx calls where
  inner
    | .producer, (data, n) => toPut data n
    | .consumer, outLen => some outLen
  answer
    | .producer, (data, _), written => sendAnswer data written
    | .consumer, _, out => out.getD []
  exec := rfl
  body
    | .producer, (data, n) => sendHci_eq data n
    | .consumer, outLen => (Prog.bind_ret (get outLen)).symm

abbrev TxState := Parallel.State Ring Side Access Access.Answer TxCall TxResult

/-- The ring is set up as for `put` and `get`. -/
def txStart (ring : CircularBuf.Ring) (wrPool : Nat) (size : Int) (rdPool : Nat) : TxState where
  world := { shared := (start ring wrPool size rdPool).world.shared, done := fun _ => [] }
  running := fun _ => none

abbrev TxWorld := Parallel.World Ring Side Access TxCall TxResult

/-- The packets for which `send_hci` has returned success. -/
def succeeded (w : TxWorld) : List UInt8 :=
  (w.done .producer).flatMap fun r => if r.result = .ok () then r.call.1 else []

/-- What has appeared in the ring: what the LCPU has taken and what is still there. -/
def appeared (w : TxWorld) : List UInt8 :=
  (w.done .consumer).flatMap (fun r => r.result) ++ w.shared.contents

/-- The bytes of a packet that was put whole. -/
def wholePut (r : PutReturn) : List UInt8 := if r.result = r.call.length then r.call else []

/-- The packets that were put whole are all that was put only if of no other a part was. -/
theorem flatMap_wholePut_eq_iff {puts : List PutReturn}
    (h : ∀ r ∈ puts, r.result ≤ r.call.length) :
    (puts.flatMap wholePut).length ≤ (puts.flatMap fun r => r.call.take r.result).length ∧
      (puts.flatMap wholePut = puts.flatMap (fun r => r.call.take r.result) ↔
        ∀ r ∈ puts, r.result = 0 ∨ r.result = r.call.length) := by
  induction puts with
  | nil => exact ⟨Nat.le_refl _, iff_of_true rfl (forall_mem_nil _)⟩
  | cons r puts ih =>
    obtain ⟨hr, hrest⟩ := forall_mem_cons.mp h
    obtain ⟨hle, hiff⟩ := ih hrest
    have hlen : (r.call.take r.result).length = r.result := length_take_of_le hr
    simp only [flatMap_cons, length_append, forall_mem_cons]
    by_cases hwhole : r.result = r.call.length
    · have htake : r.call.take r.result = r.call := take_of_length_le (Nat.le_of_eq hwhole.symm)
      rw [wholePut, if_pos hwhole, htake, append_cancel_left_eq, hiff]
      exact ⟨by omega, by simp only [hwhole, or_true, true_and]⟩
    · rw [wholePut, if_neg hwhole, nil_append]
      refine ⟨by rw [length_nil]; omega, fun heq => ?_, fun ⟨hr, hall⟩ => ?_⟩
      · have hnone : r.result = 0 := by
          have hlens := congrArg length heq
          rw [length_append] at hlens
          omega
        rw [hnone, take_zero] at heq
        exact ⟨.inl hnone, hiff.mp heq⟩
      · rw [hr.resolve_right hwhole, take_zero, nil_append, hiff.mpr hall]

/-- A `put` takes all or nothing exactly if it finds room for all or none. -/
theorem whole_iff {r : PutReturn} (h : PutTakes r) :
    r.result = 0 ∨ r.result = r.call.length ↔
      ∀ ring ∈ seen .readIdxMirror r.trace, ring.space = 0 ∨ r.call.length ≤ ring.space := by
  rcases h with ⟨hcall, hresult⟩ | ⟨ring, hseen, hresult⟩
  · simp [hcall, hresult]
  · rw [hseen, forall_mem_singleton, hresult]
    omega

theorem succeeded_eq {s : TxState} {u : CircularBuf.State} (hrel : txWraps.Rel s u) :
    succeeded s.world = (u.world.done .producer).flatMap wholePut := by
  obtain ⟨calls, hcalls⟩ := hrel.done .producer
  refine hcalls.flatMap_eq fun call made hmade => ?_
  obtain ⟨data, n⟩ := call
  change (if sendAnswer data (made.map (·.result)) = .ok () then data else []) = _
  change made.map (·.call) = toPut data n at hmade
  cases made with
  | none =>
    rw [Option.map_none, sendAnswer]
    split_ifs with hempty <;> grind
  | some r =>
    have hcall : r.call = data := eq_of_toPut hmade.symm
    rw [Option.map_some, sendAnswer, Option.toList_some, flatMap_singleton, wholePut, hcall]
    split_ifs <;> grind

theorem appeared_eq {s : TxState} {u : CircularBuf.State} (hrel : txWraps.Rel s u) :
    appeared s.world = returned u.world ++ u.world.shared.contents := by
  obtain ⟨calls, hcalls⟩ := hrel.done .consumer
  rw [appeared, hrel.shared]
  refine congrArg (· ++ _) (hcalls.flatMap_eq fun outLen made hmade => ?_)
  rcases made with _ | ⟨call, trace, out⟩ <;> cases hmade
  exact (append_nil _).symm

/-- While the LCPU drains the ring, with any timing, the bytes that have appeared in the ring are
those of the packets whose `send_hci` returned success, exactly if each `put` finds room for its
packet or none at all when it looks at the ring. -/
theorem sends_whole_iff (ring : CircularBuf.Ring) (wrPool rdPool : Nat) (size : Int)
    (es : List (Parallel.Event Side TxCall)) (s : TxState) (hptr : rdPool ≠ 0)
    (hlow : 4 ≤ size) (hhigh : size ≤ 32767)
    (hrun : tx.run (txStart ring wrPool size rdPool) es = some s) :
    succeeded s.world = appeared s.world ↔
      ∀ r ∈ s.world.done .producer, ∀ ring ∈ seen .readIdxMirror r.trace,
        ring.space = 0 ∨ r.call.1.length ≤ ring.space := by
  have hstart : txWraps.Rel (txStart ring wrPool size rdPool) (start ring wrPool size rdPool) :=
    ⟨rfl, fun _ => ⟨[], nofun, rfl, rfl⟩, fun _ => .none⟩
  obtain ⟨es', u, hu, hrel⟩ := hstart.run hrun
  obtain ⟨n, hn, hmax, -, hinv⟩ := inv_of_run ring wrPool rdPool size es' u hptr hlow hhigh hu
  rw [succeeded_eq hrel, appeared_eq hrel, hinv.contents_eq hn hmax]
  refine (flatMap_wholePut_eq_iff fun r hr => (hinv.puts r hr).fair.1).2.trans ?_
  obtain ⟨calls, hinner, houter, hmade⟩ := hrel.done .producer
  have hputs := hinv.puts
  rw [hmade] at hputs ⊢
  rw [houter, forall_mem_map]
  have hcall : ∀ data n r, ((data, n), some r) ∈ calls → r.call = data := fun data n r hmem =>
    eq_of_toPut (hinner _ hmem).symm
  refine ⟨fun h => ?_, fun h r hr => ?_⟩
  · rintro ⟨⟨data, n⟩, _ | r⟩ hmem
    · nofun
    · have hr : r ∈ calls.filterMap (·.2) := mem_filterMap.mpr ⟨_, hmem, rfl⟩
      have hwhole := (whole_iff (hputs r hr)).mp (h r hr)
      rw [hcall data n r hmem] at hwhole
      exact hwhole
  · obtain ⟨⟨⟨data, n⟩, made⟩, hmem, hmade⟩ := mem_filterMap.mp hr
    cases hmade
    refine (whole_iff (hputs r hr)).mpr ?_
    rw [hcall data n r hmem]
    exact h _ hmem

/-- A packet that fills the ring, and one that finds no room. -/
def sendsIntoFull : List (Event Side TxCall) :=
  [.call .producer (([1, 2, 3, 4], 4) : List UInt8 × Nat)] ++ replicate 12 (.act .producer) ++
    [.call .producer (([5, 6], 2) : List UInt8 × Nat)] ++ replicate 5 (.act .producer)

theorem sends_whole_iff_full : ∃ s : TxState,
    tx.run (txStart zeroRing 64 7 64) sendsIntoFull = some s ∧ appeared s.world = [1, 2, 3, 4] ∧
      (s.world.done .producer).map (fun r => r.result) = [.ok (), .error .tooLarge] ∧
      ∀ r ∈ s.world.done .producer, ∀ ring ∈ seen .readIdxMirror r.trace,
        ring.space = 0 ∨ r.call.1.length ≤ ring.space := by
  refine ⟨_, rfl, rfl, rfl, ?_⟩
  exact (sends_whole_iff zeroRing 64 64 7 sendsIntoFull _ (by decide) (by decide) (by decide)
    rfl).mp rfl

/-- A packet of three bytes, and one of two that finds room for one. -/
def twoSends : List (Event Side TxCall) :=
  [.call .producer (([1, 2, 3], 3) : List UInt8 × Nat)] ++ replicate 11 (.act .producer) ++
    [.call .producer (([4, 5], 2) : List UInt8 × Nat)] ++ replicate 9 (.act .producer)

/-- The first byte of the second packet is in the ring, and its `send_hci` fails. -/
theorem part_of_packet_sent : ∃ s : TxState,
    tx.run (txStart zeroRing 64 7 64) twoSends = some s ∧ appeared s.world = [1, 2, 3, 4] ∧
      (s.world.done .producer).map (fun r => r.result) = [.ok (), .error .tooLarge] :=
  ⟨_, rfl, rfl, rfl⟩

end Rcard.Hci
