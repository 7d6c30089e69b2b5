/-
The reply to an executed call.

The regions of the writable leases are moved to the end of the buffer, the last
one first, and the reply is encoded in front of them.  No region is overwritten
before its turn: the regions lie one after the other at the front, and their end
is below the end of the buffer.

The reply repeats the regions, so the buffer has to hold them twice.  It has room
for the pool and for 278 bytes more.  `dispatch_reports_iff` says for which calls
this is enough.  For the others the call has been made, and the host gets a
tunnel error.
-/
import Rcard.Tunnel.Compact

namespace Rcard.HostProxy

open List Mem LeaseSource

/-! ## The regions at the end of the buffer -/

def writableRegions (slots : List LeaseSlot) : List (Nat × Nat) :=
  (slots.filter fun slot => slot.kind.hasReplyData).map fun slot => (slot.offset, slot.length)

/-- The contents of the writable regions, in lease order. -/
def writeback (data : Nat → UInt8) (slots : List LeaseSlot) : List UInt8 :=
  (writableRegions slots).flatMap fun region => slice data region.1 region.2

theorem gatherWritebacks_eq (data : Nat → UInt8) (cursor : Nat) (slots : List LeaseSlot) :
    gatherWritebacks data cursor slots = gatherBack data cursor (writableRegions slots) := by
  induction slots generalizing data cursor with
  | nil => rfl
  | cons slot slots ih =>
    grind [gatherWritebacks, gatherBack, writableRegions]

theorem totalLength_writableRegions (slots : List LeaseSlot) :
    totalLength (writableRegions slots) = writebackTotal slots := by
  induction slots with
  | nil => rfl
  | cons slot slots ih =>
    grind [totalLength, writableRegions, writebackTotal]

theorem writableRegions_append (slots slots' : List LeaseSlot) :
    writableRegions (slots ++ slots') = writableRegions slots ++ writableRegions slots' := by
  rw [writableRegions, filter_append, map_append]
  rfl

theorem writableRegions_reverse (slots : List LeaseSlot) :
    writableRegions slots.reverse = (writableRegions slots).reverse := by
  rw [writableRegions, filter_reverse, map_reverse]
  rfl

theorem slotsFrom_append (poolEnd : Nat) (ls ls' : List LeaseSource) :
    slotsFrom poolEnd (ls ++ ls') = slotsFrom poolEnd ls ++
      slotsFrom (poolEnd + size (ls.map LeaseSource.segment)) ls' := by
  induction ls generalizing poolEnd with
  | nil => rfl
  | cons l ls ih =>
    rw [cons_append, slotsFrom, ih, map_cons, size_cons, l.length_segment, Nat.add_assoc]
    rfl

/-- From the last slot to the first, each region ends where the next one starts
or before, so the copies of the later ones stay above it. -/
theorem below_slotsFrom {cursor poolEnd : Nat} {ls : List LeaseSource}
    (h : poolEnd + size (ls.map LeaseSource.segment) ≤ cursor) :
    Below cursor (writableRegions (slotsFrom poolEnd ls).reverse) := by
  induction ls using List.reverseRecOn generalizing cursor with
  | nil => exact trivial
  | append_singleton ls l ih =>
    rw [map_append, size_append, map_singleton, size_cons, l.length_segment] at h
    rw [slotsFrom_append, reverse_append, writableRegions_append]
    by_cases hdata : l.kind.hasReplyData = true
    · have hone : writableRegions (slotsFrom (poolEnd + size (ls.map segment))
          [l]).reverse = [(poolEnd + size (ls.map segment), l.length)] := by
        simp [slotsFrom, writableRegions, hdata]
      rw [hone]
      exact ⟨by omega, ih (by omega)⟩
    · have hnone : writableRegions (slotsFrom (poolEnd + size (ls.map segment))
          [l]).reverse = [] := by
        simp [slotsFrom, writableRegions, hdata]
      rw [hnone]
      exact ih (by omega)

theorem slice_gatherWritebacks (data : Nat → UInt8) {cursor : Nat} {ls : List LeaseSource}
    (h : size (ls.map LeaseSource.segment) ≤ cursor) :
    slice (gatherWritebacks data cursor (slotsFrom 0 ls).reverse)
      (cursor - writebackTotal (slotsFrom 0 ls)) (writebackTotal (slotsFrom 0 ls)) =
      writeback data (slotsFrom 0 ls) := by
  have hbelow : Below cursor (writableRegions (slotsFrom 0 ls).reverse) :=
    below_slotsFrom (by rw [Nat.zero_add]; exact h)
  have htotal : totalLength (writableRegions (slotsFrom 0 ls).reverse) =
      writebackTotal (slotsFrom 0 ls) := by
    rw [writableRegions_reverse, totalLength_reverse, totalLength_writableRegions]
  have hslice := slice_gatherBack data hbelow
  rw [htotal, writableRegions_reverse, reverse_reverse] at hslice
  rw [gatherWritebacks_eq, writableRegions_reverse, hslice]
  rfl

/-! ## The reply -/

theorem returnValue_nil (args : List UInt8) (leftover : UInt8) :
    ∃ pad, returnValue args [] leftover = [pad] := by
  cases args with
  | nil => exact ⟨leftover, rfl⟩
  | cons a args => exact ⟨a, rfl⟩

theorem returnValue_of_ne_nil (args : List UInt8) {message : List UInt8} (leftover : UInt8)
    (hne : message ≠ []) (hmax : message.length ≤ maxMessage) :
    returnValue args message leftover = message := by
  have hpos := length_pos_iff.mpr hne
  grind [returnValue]

theorem length_returnValue (args : List UInt8) {message : List UInt8} (leftover : UInt8)
    (hmax : message.length ≤ maxMessage) :
    (returnValue args message leftover).length = max message.length 1 := by
  grind [returnValue]

/-- The host can read from the reply what the call returned. -/
def Reports (r : (Nat → UInt8) × DispatchOutcome) (seq : UInt16) (rc : UInt32)
    (message writeback : List UInt8) : Prop :=
  ∃ len header view, r.2 = .reply len ∧
    FrameHeader.decode (slice r.1 0 len) = .ok header ∧ header.frameType = .ipcReply ∧
    header.seq = seq ∧ header.frameSize = len ∧
    IpcReplyView.fromBytes ((slice r.1 0 len).drop headerSize) = some view ∧
    view.rc = rc ∧ view.leaseWriteback = writeback ∧
    (message ≠ [] → view.returnValue = message) ∧
    (message = [] → ∃ pad, view.returnValue = [pad])

theorem writebackTotal_slotsFrom_le {ls : List LeaseSource}
    (hsize : size (ls.map LeaseSource.segment) ≤ leasePoolSize) :
    writebackTotal (slotsFrom 0 ls) ≤ leasePoolSize := by
  have hbelow : Below leasePoolSize (writableRegions (slotsFrom 0 ls).reverse) :=
    below_slotsFrom (by rw [Nat.zero_add]; exact hsize)
  have htotal := hbelow.totalLength_le
  rw [writableRegions_reverse, totalLength_reverse, totalLength_writableRegions] at htotal
  exact htotal

section Encode

variable {data : Nat → UInt8} {call : SendCall} {ls : List LeaseSource} {rc : UInt32}
  {message : List UInt8} {leftover : UInt8}
  (hslots : call.slots = slotsFrom 0 ls)
  (hsize : size (ls.map LeaseSource.segment) ≤ leasePoolSize)
  (hmax : message.length ≤ maxMessage)
include hslots hsize hmax

theorem encodeReply_reports
    (hfit : 10 + max message.length 1 + 2 * writebackTotal call.slots ≤ tunnelDataSize) :
    Reports (encodeReply data call rc message leftover) call.seq rc message
      (writeback data call.slots) := by
  have htotal := writebackTotal_slotsFrom_le hsize
  have hpool : leasePoolSize = 8192 := rfl
  have htunnel : tunnelDataSize = leasePoolSize + 278 := rfl
  have hvalue := length_returnValue call.args leftover hmax
  have hslice := slice_gatherWritebacks data (show size (ls.map segment) ≤ tunnelDataSize by omega)
  have hwriteback : (writeback data call.slots).length = writebackTotal call.slots := by
    rw [hslots, ← hslice, length_slice]
  rw [← hslots] at hslice
  rw [maxMessage] at hmax
  obtain ⟨frame, header, hframe, hdecode, htype, hseq, hlen, hview⟩ :=
    @encodeIpcReply_decode rc (returnValue call.args message leftover)
      (writeback data call.slots) (tunnelDataSize - writebackTotal call.slots) call.seq
      (by omega) (by omega)
      (by rw [replyFixedSize]; omega) (by rw [headerSize, replyFixedSize]; omega)
  have hread : slice (write (gatherWritebacks data tunnelDataSize call.slots.reverse) 0
      frame) 0 frame.length = frame := slice_write _ 0 frame
  rw [encodeReply, hslice, hframe]
  refine ⟨frame.length, header, _, rfl, ?_, htype, hseq, hlen, (congrArg _ ?_).trans hview, rfl,
    rfl, ?_, ?_⟩
  · rw [hread, hdecode]
  · rw [hread]
  · exact fun hne => returnValue_of_ne_nil call.args leftover hne hmax
  · rintro rfl
    exact returnValue_nil call.args leftover

theorem encodeReply_error
    (hfit : ¬ 10 + max message.length 1 + 2 * writebackTotal call.slots ≤ tunnelDataSize) :
    (encodeReply data call rc message leftover).2 = .error 7 := by
  have htotal := writebackTotal_slotsFrom_le hsize
  have htunnel : tunnelDataSize = leasePoolSize + 278 := rfl
  have hvalue := length_returnValue call.args leftover hmax
  rw [← hslots] at htotal
  have hnone : encodeIpcReply rc (returnValue call.args message leftover)
      (slice (gatherWritebacks data tunnelDataSize call.slots.reverse)
        (tunnelDataSize - writebackTotal call.slots) (writebackTotal call.slots))
      (tunnelDataSize - writebackTotal call.slots) call.seq = none := by
    apply encodeIpcReply_eq_none_of_lt
    rw [length_slice, headerSize, replyFixedSize]
    omega
  rw [encodeReply, hnone]
  rw [encodeTunnelError, encodeSimple_tunnelError _ (by omega)]
  rfl

end Encode

/-! ## The call and its answer -/

def SendCall.answer (c : SendCall) (kernel : Kernel) : SendReply :=
  kernel c.target c.opcode c.args c.leases

/-- The buffer after the call. -/
def SendCall.after (c : SendCall) (kernel : Kernel) : Nat → UInt8 :=
  writeLeases c.data c.slots (c.answer kernel).leases

section Dispatch

variable (kernel : Kernel) {data : Nat → UInt8} {fetchLen : Nat}

theorem dispatch_eq_encodeReply {call : SendCall} (hcall : prepare data fetchLen = .send call)
    {rc : UInt32} {message : List UInt8}
    (hresponse : (call.answer kernel).response = some (rc, message)) :
    dispatchTunneledRequest kernel data fetchLen =
      encodeReply (call.after kernel) call rc message (call.answer kernel).leftover := by
  rw [SendCall.answer] at hresponse
  rw [dispatchTunneledRequest, hcall]
  dsimp only
  rw [hresponse]
  rfl

variable {header : FrameHeader} {view : IpcRequestView}
  (hparse : parseRequest data fetchLen = some (header, view))
  (hcount : view.leaseCount ≤ maxLeases) (htotal : declaredLength view ≤ leasePoolSize)
include hparse hcount htotal

/-- The call is made, and its answer reaches the host exactly if the buffer holds
the reply beside the regions it repeats. -/
theorem dispatch_reports_iff :
    ∃ call, prepare data fetchLen = .send call ∧ ∀ rc message,
      (call.answer kernel).response = some (rc, message) → message.length ≤ maxMessage →
      (Reports (dispatchTunneledRequest kernel data fetchLen) header.seq rc message
          (writeback (call.after kernel) call.slots) ↔
        10 + max message.length 1 + 2 * writebackTotal call.slots ≤ tunnelDataSize) := by
  have hsize : size ((sources view).map segment) ≤ leasePoolSize :=
    Nat.le_trans (Nat.le_of_eq (size_segments (parsed_of_parseRequest hparse))) htotal
  refine ⟨_, prepare_eq_send hparse hcount htotal, ?_⟩
  intro rc message hresponse hmax
  rw [dispatch_eq_encodeReply kernel (prepare_eq_send hparse hcount htotal) hresponse]
  constructor
  · rintro ⟨len, _, _, houtcome, _⟩
    by_contra hfit
    rw [encodeReply_error rfl hsize hmax hfit] at houtcome
    cases houtcome
  · exact encodeReply_reports rfl hsize hmax

end Dispatch

/-- One `Write` lease of one byte. -/
def oneWrite : List UInt8 := [1, 5, 0, 9, 0, 7, 0, 1, 2, 1, 0, 0x01, 0x40, 0xAA]

/-- The target fills its lease and replies with one byte. -/
def fillLease : Kernel := fun _ _ _ leases =>
  { response := some (3, [42]), leases := leases.map fun lease => lease.bytes.map fun _ => 0x77 }

theorem dispatch_reports_iff_oneWrite :
    ∃ header view, parseRequest (bufferOf oneWrite) 14 = some (header, view) ∧
      ∃ call, prepare (bufferOf oneWrite) 14 = .send call ∧
        Reports (dispatchTunneledRequest fillLease (bufferOf oneWrite) 14) 5 3 [42] [0x77] := by
  refine ⟨_, _, rfl, ?_⟩
  obtain ⟨call, hcall, hiff⟩ :=
    dispatch_reports_iff fillLease
      (show parseRequest (bufferOf oneWrite) 14 = some (_, _) from rfl) (by decide) (by decide)
  refine ⟨call, hcall, ?_⟩
  cases hcall
  exact (hiff 3 [42] rfl (by decide)).mpr (by decide)

/-- One `Write` lease as large as the pool. -/
def poolWrite : List UInt8 := [1, 5, 0, 9, 0, 7, 0, 1, 2, 1, 0, 0x00, 0x60, 0xAA]

/-- The target is called and answers.  The host gets a tunnel error. -/
theorem full_writeback_lost :
    ∃ header view call, parseRequest (bufferOf poolWrite) 14 = some (header, view) ∧
      view.leaseCount ≤ maxLeases ∧ declaredLength view ≤ leasePoolSize ∧
      prepare (bufferOf poolWrite) 14 = .send call ∧
      (call.answer fillLease).response = some (3, [42]) ∧
      (dispatchTunneledRequest fillLease (bufferOf poolWrite) 14).2 = .error 7 := by
  have hparse : ∃ header view, parseRequest (bufferOf poolWrite) 14 = some (header, view) ∧
      view.leaseCount ≤ maxLeases ∧ declaredLength view ≤ leasePoolSize ∧
      writebackTotal (slotsFrom 0 (sources view)) = leasePoolSize :=
    ⟨_, _, rfl, by decide, by decide, by decide⟩
  obtain ⟨header, view, hparse, hcount, htotal, hwriteback⟩ := hparse
  have hsize : size ((sources view).map segment) ≤ leasePoolSize :=
    Nat.le_trans (Nat.le_of_eq (size_segments (parsed_of_parseRequest hparse))) htotal
  have hcall := prepare_eq_send hparse hcount htotal
  refine ⟨header, view, _, hparse, hcount, htotal, hcall, rfl, ?_⟩
  rw [dispatch_eq_encodeReply fillLease hcall rfl]
  refine encodeReply_error rfl hsize (by decide) ?_
  show ¬ 10 + 1 + 2 * writebackTotal (slotsFrom 0 (sources view)) ≤ tunnelDataSize
  rw [hwriteback]
  decide

end Rcard.HostProxy
