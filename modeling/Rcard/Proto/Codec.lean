/-
What is encoded is decoded (`shared/usb-proto`).

A request is written with its descriptors first and its lease data behind the arguments, and
only the leases that carry data have a slice there.  The view finds the slice of a lease again
by adding up the lengths of the leases before it.  `IpcRequest.Fits` is what `encode_into` asks
of a request and a buffer.
-/
import Mathlib.Algebra.GroupWithZero.Nat
import Mathlib.Data.Nat.Bitwise
import Rcard.Proto.Ipc

namespace Rcard

open List Option LeaseDescriptor FrameHeader IpcRequestView LeaseKind

/-- At least one byte.  Where this is sent, its length is sent less one. -/
def padded (bytes : List UInt8) : List UInt8 := if bytes.isEmpty then [0] else bytes

theorem length_padded_pos (bytes : List UInt8) : 0 < (padded bytes).length := by
  grind [padded]

theorem length_padded (bytes : List UInt8) : (padded bytes).length = max bytes.length 1 := by
  cases bytes with
  | nil => rfl
  | cons b bytes => exact (Nat.max_eq_left (Nat.le_add_left 1 _)).symm

/-- A frame with the sequence number and the length of its payload in its header. -/
def Framed (type : FrameType) (seq : UInt16) (frame : List UInt8) : Prop :=
  ∃ header, FrameHeader.decode frame = .ok header ∧ header.frameType = type ∧
    header.seq = seq ∧ header.frameSize = frame.length

theorem framed_encode (type : FrameType) (seq : UInt16) {payload : List UInt8}
    (h : payload.length < 2 ^ 16) :
    let frame := ({ frameType := type, seq, length := UInt16.ofNat payload.length } :
      FrameHeader).encode ++ payload
    Framed type seq frame ∧ frame.drop headerSize = payload := by
  refine ⟨⟨_, decode_encode _ _, rfl, rfl, ?_⟩, ?_⟩
  · rw [frameSize, UInt16.toNat_ofNat', Nat.mod_eq_of_lt h, length_append, length_encode]
  · exact drop_left' (length_encode _)

/-! ## Requests -/

def LeaseKind.toBits : LeaseKind → Nat
  | read => 0
  | write => 1
  | readWrite => 2

def maxLeaseLength : Nat := (1 <<< 14) - 1

def LeaseDescriptor.toWire (d : LeaseDescriptor) : Option UInt16 :=
  if d.length > maxLeaseLength then none
  else some (UInt16.ofNat (d.kind.toBits <<< 14 ||| d.length))

structure IpcRequest where
  taskId : UInt16
  resourceKind : UInt8
  method : UInt8
  args : List UInt8
  leases : List LeaseDescriptor
  /-- One slice for each lease with data in the request, in order. -/
  leaseData : List (List UInt8)
  deriving DecidableEq, Repr

namespace IpcRequest

/-- The loop over the leases.  It counts the slices it has matched from `idx` on. -/
def matchLeases (leaseData : List (List UInt8)) : Nat → List LeaseDescriptor → Option Nat
  | idx, [] => some idx
  | idx, desc :: leases => do
      let _ ← desc.toWire
      if desc.kind.hasRequestData then
        let slice ← leaseData[idx]?
        if slice.length ≠ desc.length then none else matchLeases leaseData (idx + 1) leases
      else matchLeases leaseData idx leases

def wireLeases (leases : List LeaseDescriptor) : List UInt8 :=
  leases.flatMap fun desc => u16ToLe (desc.toWire.getD 0)

section

variable (req : IpcRequest)

def payloadLen : Nat :=
  requestFixedSize + req.leases.length * leaseDescriptorSize + (padded req.args).length +
    (req.leaseData.map List.length).sum

def payload : List UInt8 :=
  u16ToLe req.taskId ++ [req.resourceKind, req.method, UInt8.ofNat req.leases.length,
    UInt8.ofNat ((padded req.args).length - 1)] ++ wireLeases req.leases ++ padded req.args ++
      req.leaseData.flatten

/-- `IpcRequest::encode_into`, into a buffer of `bufLen` bytes. -/
def encodeInto (bufLen : Nat) (seq : UInt16) : Option (List UInt8) :=
  if req.args.length > maxArgs then none
  else if req.leases.length > 255 then none
  else do
    let dataIdx ← matchLeases req.leaseData 0 req.leases
    if dataIdx ≠ req.leaseData.length then none
    else if req.payloadLen > 65535 then none
    else if bufLen < headerSize + req.payloadLen then none
    else
      let header : FrameHeader :=
        { frameType := .ipcRequest, seq, length := UInt16.ofNat req.payloadLen }
      some (header.encode ++ req.payload)

/-- The slice of lease `index`. -/
def slice (index : Nat) : Option (List UInt8) := do
  let desc ← req.leases[index]?
  if desc.kind.hasRequestData then
    req.leaseData[(req.leases.take index).countP fun d => d.kind.hasRequestData]?
  else none

end

/-- The slices are those of the leases with data, one for one. -/
def Matched (leases : List LeaseDescriptor) (leaseData : List (List UInt8)) : Prop :=
  leaseData.map List.length =
    (leases.filter fun d => d.kind.hasRequestData).map LeaseDescriptor.length

/-- What `encode_into` asks of a request and a buffer. -/
structure Fits (req : IpcRequest) (bufLen : Nat) : Prop where
  args : req.args.length ≤ maxArgs
  leases : req.leases.length ≤ 255
  /-- Every length fits 14 bits. -/
  short : ∀ desc ∈ req.leases, desc.length ≤ maxLeaseLength
  slices : Matched req.leases req.leaseData
  payload : req.payloadLen < 2 ^ 16
  room : headerSize + req.payloadLen ≤ bufLen

end IpcRequest

/-! ### Descriptors -/

section Descriptors

variable {desc : LeaseDescriptor} {leases : List LeaseDescriptor}

theorem LeaseDescriptor.toWire_of_le (h : desc.length ≤ maxLeaseLength) :
    desc.toWire = some (UInt16.ofNat (desc.kind.toBits * 2 ^ 14 + desc.length)) := by
  have hlt : desc.length < 2 ^ 14 := Nat.lt_of_le_of_lt h (by decide)
  rw [toWire, if_neg (Nat.not_lt.mpr h), ← Nat.shiftLeft_add_eq_or_of_lt hlt, Nat.shiftLeft_eq]

theorem LeaseDescriptor.toWire_eq_none (h : ¬ desc.length ≤ maxLeaseLength) :
    desc.toWire = none := by
  rw [toWire, if_pos (Nat.not_le.mp h)]

theorem LeaseDescriptor.fromWire_toWire (h : desc.length ≤ maxLeaseLength) :
    fromWire (desc.toWire.getD 0) = some desc := by
  obtain ⟨kind, length⟩ := desc
  have hlength : length < 2 ^ 14 := Nat.lt_of_le_of_lt h (by decide)
  have hbits : kind.toBits < 3 := by cases kind <;> decide
  have hkind : fromBits kind.toBits = some kind := by cases kind <;> rfl
  have hwire : (UInt16.ofNat (kind.toBits * 2 ^ 14 + length)).toNat =
      kind.toBits * 2 ^ 14 + length := by
    rw [UInt16.toNat_ofNat']
    omega
  have hdiv : (kind.toBits * 2 ^ 14 + length) / 0x4000 = kind.toBits := by omega
  have hmod : (kind.toBits * 2 ^ 14 + length) % 0x4000 = length := by omega
  rw [toWire_of_le h, getD_some, fromWire, hwire, hdiv, hmod, hkind]
  rfl

theorem IpcRequest.length_wireLeases :
    (wireLeases leases).length = leases.length * leaseDescriptorSize := by
  induction leases with
  | nil => rfl
  | cons desc leases ih =>
    rw [wireLeases, flatMap_cons, length_append, ← wireLeases, ih, length_cons, Nat.succ_mul,
      Nat.add_comm]
    rfl

/-- Two bytes for each descriptor, so the view reads descriptor `i`. -/
theorem IpcRequest.descriptorAt_wireLeases (h : ∀ desc ∈ leases, desc.length ≤ maxLeaseLength)
    (i : Nat) :
    descriptorAt (wireLeases leases) i = leases[i]? := by
  induction leases generalizing i with
  | nil => rfl
  | cons desc leases ih =>
    have hrest := ih fun d hd => h d (mem_cons_of_mem _ hd)
    rw [wireLeases, flatMap_cons, ← wireLeases]
    cases i with
    | zero =>
      have hfirst := fromWire_toWire (h desc mem_cons_self)
      rw [← u16FromLe_u16ToLe (desc.toWire.getD 0)] at hfirst
      exact hfirst
    | succ i =>
      have hskip : descriptorAt (u16ToLe (desc.toWire.getD 0) ++ wireLeases leases) (i + 1) =
          descriptorAt (wireLeases leases) i := by
        rw [descriptorAt, descriptorAt, Nat.succ_mul]
        rfl
      rw [hskip, hrest, getElem?_cons_succ]

end Descriptors

/-! ### Slices -/

section Slices

variable {desc : LeaseDescriptor} {leases : List LeaseDescriptor} {leaseData : List (List UInt8)}

namespace IpcRequest

theorem matched_cons_of_data (h : desc.kind.hasRequestData = true) :
    Matched (desc :: leases) leaseData ↔ ∃ slice rest, leaseData = slice :: rest ∧
      slice.length = desc.length ∧ Matched leases rest := by
  rw [Matched, filter_cons, if_pos h, map_cons, map_eq_cons_iff]
  rfl

theorem matched_cons_of_no_data (h : ¬desc.kind.hasRequestData = true) :
    Matched (desc :: leases) leaseData ↔ Matched leases leaseData := by
  rw [Matched, filter_cons, if_neg h]
  rfl

/-- What the loop of `encode_into` checks, with the slices `front` matched before. -/
theorem matchLeases_eq_some (leases : List LeaseDescriptor)
    (front leaseData : List (List UInt8)) :
    matchLeases (front ++ leaseData) front.length leases =
        some (front.length + leaseData.length) ↔
      (∀ desc ∈ leases, desc.length ≤ maxLeaseLength) ∧ Matched leases leaseData := by
  induction leases generalizing front leaseData with
  | nil => simp [matchLeases, Matched]
  | cons desc leases ih =>
    rw [matchLeases, forall_mem_cons]
    by_cases hshort : desc.length ≤ maxLeaseLength
    · rw [toWire_of_le hshort]
      dsimp only [bind_eq_bind, bind_some]
      by_cases hdata : desc.kind.hasRequestData = true
      · rw [if_pos hdata, matched_cons_of_data hdata]
        cases leaseData with
        | nil => simp
        | cons slice leaseData =>
          have hnext := ih (front ++ [slice]) leaseData
          rw [append_assoc, singleton_append, length_append, length_singleton, Nat.add_assoc,
            Nat.add_comm 1] at hnext
          grind
      · rw [if_neg hdata, matched_cons_of_no_data hdata, ih front leaseData]
        simp [hshort]
    · rw [toWire_eq_none hshort]
      simp [hshort]

/-- The data of the leases before lease `i`. -/
def offset (leases : List LeaseDescriptor) (i : Nat) : Nat :=
  ((leases.take i).map LeaseDescriptor.dataLength).sum

theorem offset_succ (desc : LeaseDescriptor) (leases : List LeaseDescriptor) (i : Nat) :
    offset (desc :: leases) (i + 1) = desc.dataLength + offset leases i := by
  rw [offset, take_succ_cons, map_cons, sum_cons, offset]

/-- The slice of a lease begins where the slices of the leases before it end. -/
theorem slice_spec (h : Matched leases leaseData) {i : Nat} (hi : leases[i]? = some desc)
    (hdata : desc.kind.hasRequestData = true) :
    offset leases i + desc.length ≤ leaseData.flatten.length ∧
      leaseData[(leases.take i).countP fun d => d.kind.hasRequestData]? =
        some ((leaseData.flatten.drop (offset leases i)).take desc.length) := by
  induction leases generalizing leaseData i with
  | nil => cases hi
  | cons first leases ih =>
    by_cases hfirst : first.kind.hasRequestData = true
    · obtain ⟨slice, rest, rfl, hlen, hrest⟩ := (matched_cons_of_data hfirst).mp h
      have hlength : first.dataLength = slice.length := by
        rw [dataLength, if_pos hfirst, hlen]
      rw [flatten_cons, length_append]
      cases i with
      | zero =>
        grind [offset, hasRequestData]
      | succ i =>
        obtain ⟨hfit, hslice⟩ := ih hrest hi
        rw [offset_succ, hlength, take_succ_cons, countP_cons, if_pos hfirst, getElem?_cons_succ,
          hslice, ← drop_drop, drop_left]
        exact ⟨by omega, rfl⟩
    · cases i with
      | zero =>
        cases hi
        exact absurd hdata hfirst
      | succ i =>
        obtain ⟨hfit, hslice⟩ := ih ((matched_cons_of_no_data hfirst).mp h) hi
        rw [offset_succ, dataLength, if_neg hfirst, Nat.zero_add, take_succ_cons, countP_cons,
          if_neg hfirst, Nat.add_zero]
        exact ⟨hfit, hslice⟩

/-- Together the leases with data have the bytes of the slices. -/
theorem offset_length (h : Matched leases leaseData) :
    offset leases leases.length = leaseData.flatten.length := by
  induction leases generalizing leaseData with
  | nil =>
    rw [map_eq_nil_iff.mp h]
    rfl
  | cons desc leases ih =>
    rw [length_cons, offset_succ, dataLength]
    by_cases hdata : desc.kind.hasRequestData = true
    · obtain ⟨slice, rest, rfl, hlen, hrest⟩ := (matched_cons_of_data hdata).mp h
      rw [if_pos hdata, ih hrest, flatten_cons, length_append, hlen]
    · rw [if_neg hdata, ih ((matched_cons_of_no_data hdata).mp h), Nat.zero_add]

theorem offset_snoc {n : Nat} (h : leases[n]? = some desc) :
    offset leases (n + 1) = offset leases n + desc.dataLength := by
  rw [offset, take_add_one, h, toList_some, map_append, sum_append, offset]
  simp

/-- The validation loop of the view. -/
theorem expectedLeaseData_wireLeases (h : ∀ desc ∈ leases, desc.length ≤ maxLeaseLength) {n : Nat}
    (hn : n ≤ leases.length) :
    expectedLeaseData (wireLeases leases) n = some (offset leases n) := by
  induction n with
  | zero => rfl
  | succ n ih =>
    have hget : leases[n]? = some leases[n] := getElem?_eq_getElem hn
    rw [expectedLeaseData, ih (Nat.le_of_succ_le hn), descriptorAt_wireLeases h, hget,
      offset_snoc hget]
    rfl

end IpcRequest

end Slices

/-! ### The view of an encoded request -/

namespace IpcRequest

variable {req : IpcRequest} {bufLen : Nat} {seq : UInt16}

theorem length_payload (req : IpcRequest) : req.payload.length = req.payloadLen := by
  simp only [payload, payloadLen, length_append, length_wireLeases, length_flatten, u16ToLe,
    length_cons, length_nil, requestFixedSize]

theorem encodeInto_eq_some {frame : List UInt8} :
    req.encodeInto bufLen seq = some frame ↔ req.Fits bufLen ∧
      ({ frameType := .ipcRequest, seq, length := UInt16.ofNat req.payloadLen } :
        FrameHeader).encode ++ req.payload = frame := by
  have hmatch := matchLeases_eq_some req.leases [] req.leaseData
  rw [length_nil, Nat.zero_add] at hmatch
  simp only [encodeInto, ite_none_left_eq_some, bind_eq_bind, bind_eq_some_iff, some.injEq]
  constructor
  · rintro ⟨hargs, hleases, idx, hidx, hall, hpayload, hroom, hframe⟩
    rw [not_not.mp hall] at hidx
    obtain ⟨hshort, hslices⟩ := hmatch.mp hidx
    exact ⟨⟨by omega, by omega, hshort, hslices, by omega, by omega⟩, hframe⟩
  · rintro ⟨h, hframe⟩
    have hpayload := h.payload
    refine ⟨Nat.not_lt.mpr h.args, Nat.not_lt.mpr h.leases, _, hmatch.mpr ⟨h.short, h.slices⟩,
      not_not.mpr rfl, by omega, Nat.not_lt.mpr h.room, hframe⟩

/-- What the view has of the request. -/
def view (req : IpcRequest) : IpcRequestView where
  taskId := req.taskId
  resourceKind := req.resourceKind
  method := req.method
  leaseCount := req.leases.length
  descriptors := wireLeases req.leases
  args := padded req.args
  leaseBytes := req.leaseData.flatten

section

variable (h : req.Fits bufLen)
include h

theorem fromBytes_payload : IpcRequestView.fromBytes req.payload = some req.view := by
  have hpos := length_padded_pos req.args
  have hmax : (padded req.args).length ≤ 256 := by
    rw [length_padded]
    exact Nat.max_le.mpr ⟨h.args, by decide⟩
  have hcount : (UInt8.ofNat req.leases.length).toNat = req.leases.length := by
    have := h.leases
    rw [UInt8.toNat_ofNat']
    omega
  have hargs : (UInt8.ofNat ((padded req.args).length - 1)).toNat + 1 =
      (padded req.args).length := by
    rw [UInt8.toNat_ofNat']
    omega
  have hlen : requestFixedSize + req.leases.length * leaseDescriptorSize +
      (padded req.args).length ≤ req.payload.length := by
    rw [length_payload, payloadLen]
    exact Nat.le_add_right _ _
  have hsplit : req.payload = UInt8.ofNat req.taskId.toNat ::
      UInt8.ofNat (req.taskId.toNat / 256) :: req.resourceKind :: req.method ::
      UInt8.ofNat req.leases.length ::
      UInt8.ofNat ((padded req.args).length - 1) ::
      (wireLeases req.leases ++ (padded req.args ++ req.leaseData.flatten)) := by
    simp only [payload, u16ToLe, cons_append, nil_append, append_assoc]
  have hdrop : (wireLeases req.leases ++ (padded req.args ++ req.leaseData.flatten)).drop
      (req.leases.length * leaseDescriptorSize) = padded req.args ++ req.leaseData.flatten :=
    drop_left' length_wireLeases
  rw [hsplit] at hlen ⊢
  rw [fromBytes, hcount, hargs]
  dsimp only
  rw [if_neg (Nat.not_lt.mpr hlen), ← drop_drop, hdrop, take_left' length_wireLeases, take_left,
    drop_left, expectedLeaseData_wireLeases h.short (Nat.le_refl _), offset_length h.slices]
  dsimp only [bind_eq_bind, bind_some]
  rw [if_neg (Nat.lt_irrefl _), u16FromLe_u16ToLe]
  rfl

theorem lease_view (i : Nat) : req.view.lease i = req.leases[i]? := by
  rw [lease]
  split
  · next hle => exact (getElem?_eq_none hle).symm
  · exact descriptorAt_wireLeases h.short i

theorem dataOffset_view {i : Nat} (hi : i ≤ req.leases.length) :
    req.view.dataOffset i = offset req.leases i := by
  induction i with
  | zero => rfl
  | succ i ih =>
    have hget : req.leases[i]? = some req.leases[i] := getElem?_eq_getElem hi
    rw [dataOffset, ih (Nat.le_of_succ_le hi), lease_view h, hget, offset_snoc hget]
    rfl

theorem leaseData_view (i : Nat) : req.view.leaseData i = req.slice i := by
  rw [IpcRequestView.leaseData, IpcRequestView.leaseRange, lease_view h, slice]
  rcases hget : req.leases[i]? with _ | desc
  · rfl
  · have hi : i < req.leases.length := (List.getElem?_eq_some_iff.mp hget).1
    dsimp only [bind_eq_bind, bind_some]
    rw [dataOffset_view h (Nat.le_of_lt hi)]
    by_cases hdata : desc.kind.hasRequestData = true
    · obtain ⟨hfit, hslice⟩ := slice_spec h.slices hget hdata
      grind [view, hasRequestData, offset]
    · rw [if_pos (by simp [hdata]), if_neg hdata]
      rfl

end

end IpcRequest

/-! ## Replies and simple frames -/

/-- What `IpcReply::encode_into` asks. -/
structure ReplyFits (returnValue leaseWriteback : List UInt8) (bufLen : Nat) : Prop where
  value : returnValue.length ≤ 256
  payload : replyFixedSize + (padded returnValue).length + leaseWriteback.length < 2 ^ 16
  room : headerSize + (replyFixedSize + (padded returnValue).length + leaseWriteback.length) ≤
    bufLen

section Replies

variable {rc : UInt32} {returnValue leaseWriteback frame : List UInt8} {bufLen : Nat}
  {seq : UInt16}

theorem encodeIpcReply_isSome :
    (∃ frame, encodeIpcReply rc returnValue leaseWriteback bufLen seq = some frame) ↔
      ReplyFits returnValue leaseWriteback bufLen := by
  simp only [encodeIpcReply, ite_none_left_eq_some, some.injEq]
  constructor
  · rintro ⟨frame, hvalue, hpayload, hroom, -⟩
    exact ⟨Nat.not_lt.mp hvalue, Nat.lt_succ_of_le (Nat.not_lt.mp hpayload), Nat.not_lt.mp hroom⟩
  · rintro ⟨hvalue, hpayload, hroom⟩
    exact ⟨_, Nat.not_lt.mpr hvalue, Nat.not_lt.mpr (Nat.le_of_lt_succ hpayload),
      Nat.not_lt.mpr hroom, rfl⟩

/-- An empty return value is sent as one zero. -/
theorem encodeIpcReply_padded :
    encodeIpcReply rc (padded returnValue) leaseWriteback bufLen seq =
      encodeIpcReply rc returnValue leaseWriteback bufLen seq := by
  cases returnValue with
  | nil => rfl
  | cons b bytes => rfl

theorem encodeIpcReply_eq_some
    (h : encodeIpcReply rc returnValue leaseWriteback bufLen seq = some frame) :
    Framed .ipcReply seq frame ∧ IpcReplyView.fromBytes (frame.drop headerSize) =
      some { rc, returnValue := padded returnValue, leaseWriteback } := by
  obtain ⟨hvalue, hpayload, hroom⟩ := encodeIpcReply_isSome.mp ⟨frame, h⟩
  have hmax : (padded returnValue).length ≤ 256 := by
    rw [length_padded]
    exact Nat.max_le.mpr ⟨hvalue, by decide⟩
  obtain ⟨frame', header, hencode, hdecode, htype, hseq, hsize, hview⟩ :=
    @encodeIpcReply_decode rc (padded returnValue) leaseWriteback bufLen seq
      (length_padded_pos returnValue) hmax (Nat.le_of_lt_succ hpayload) hroom
  rw [encodeIpcReply_padded, h] at hencode
  cases hencode
  exact ⟨⟨header, hdecode, htype, hseq, hsize⟩, hview⟩

end Replies

section Simple

variable {opcode : UInt8} {payload frame : List UInt8} {bufLen : Nat} {seq : UInt16}

theorem encodeSimpleRaw_eq_some :
    encodeSimpleRaw opcode payload bufLen seq = some frame ↔
      (1 + payload.length < 2 ^ 16 ∧ headerSize + (1 + payload.length) ≤ bufLen) ∧
        ({ frameType := .simple, seq, length := UInt16.ofNat (1 + payload.length) } :
          FrameHeader).encode ++ opcode :: payload = frame := by
  grind [encodeSimpleRaw, headerSize, encode]

end Simple

/-! ## The writer -/

/-- The sequence number of the next request. -/
structure FrameWriter where
  seq : UInt16
  deriving DecidableEq, Repr

namespace FrameWriter

def new : FrameWriter := ⟨0⟩

/-- A number is used up also when the frame does not fit. -/
def writeIpcRequest (w : FrameWriter) (req : IpcRequest) (bufLen : Nat) :
    FrameWriter × Option (List UInt8) :=
  (⟨w.seq + 1⟩, req.encodeInto bufLen w.seq)

def writeSimpleRaw (w : FrameWriter) (opcode : UInt8) (payload : List UInt8) (bufLen : Nat) :
    FrameWriter × Option (List UInt8) :=
  (⟨w.seq + 1⟩, encodeSimpleRaw opcode payload bufLen w.seq)

end FrameWriter

/-! ## The inverse laws -/

/-- What a request gives the view of its payload. -/
structure IpcRequest.SeenAs (req : IpcRequest) (v : IpcRequestView) : Prop where
  taskId : v.taskId = req.taskId
  resourceKind : v.resourceKind = req.resourceKind
  method : v.method = req.method
  args : v.args = if req.args.isEmpty then [0] else req.args
  leaseCount : v.leaseCount = req.leases.length
  lease : ∀ i, v.lease i = req.leases[i]?
  read : ∀ i desc, req.leases[i]? = some desc → desc.kind ≠ .write →
    ∃ slice, req.slice i = some slice ∧ slice.length = desc.length ∧ v.leaseData i = some slice
  write : ∀ i desc, req.leases[i]? = some desc → desc.kind = .write → v.leaseData i = none

theorem IpcRequest.seenAs_view {req : IpcRequest} {bufLen : Nat} (h : req.Fits bufLen) :
    req.SeenAs req.view := by
  refine ⟨rfl, rfl, rfl, rfl, rfl, lease_view h, fun i desc hi hkind => ?_,
    fun i desc hi hkind => ?_⟩
  · have hdata : desc.kind.hasRequestData = true := by
      rcases desc with ⟨_ | _ | _, length⟩
      · rfl
      · exact absurd rfl hkind
      · rfl
    obtain ⟨hfit, hslice⟩ := slice_spec h.slices hi hdata
    have hself : req.slice i =
        some ((req.leaseData.flatten.drop (offset req.leases i)).take desc.length) := by
      rw [slice, hi]
      exact (if_pos hdata).trans hslice
    refine ⟨_, hself, ?_, (leaseData_view h i).trans hself⟩
    rw [length_take, length_drop]
    omega
  · rw [leaseData_view h, slice, hi]
    refine if_neg ?_
    rw [hkind]
    decide

/-- The encoders accept what fits and the views give it back. -/
theorem codec_round_trip (bufLen : Nat) (seq : UInt16) :
    (∀ req : IpcRequest,
      ((∃ frame, req.encodeInto bufLen seq = some frame) ↔ req.Fits bufLen) ∧
      ∀ frame, req.encodeInto bufLen seq = some frame → Framed .ipcRequest seq frame ∧
        ∃ v, IpcRequestView.fromBytes (frame.drop headerSize) = some v ∧ req.SeenAs v) ∧
    (∀ (rc : UInt32) (returnValue leaseWriteback : List UInt8),
      ((∃ frame, encodeIpcReply rc returnValue leaseWriteback bufLen seq = some frame) ↔
        ReplyFits returnValue leaseWriteback bufLen) ∧
      ∀ frame, encodeIpcReply rc returnValue leaseWriteback bufLen seq = some frame →
        Framed .ipcReply seq frame ∧ IpcReplyView.fromBytes (frame.drop headerSize) =
          some { rc, returnValue := padded returnValue, leaseWriteback }) ∧
    (∀ (opcode : UInt8) (payload : List UInt8),
      ((∃ frame, encodeSimpleRaw opcode payload bufLen seq = some frame) ↔
        1 + payload.length < 2 ^ 16 ∧ headerSize + (1 + payload.length) ≤ bufLen) ∧
      ∀ frame, encodeSimpleRaw opcode payload bufLen seq = some frame →
        Framed .simple seq frame ∧
          SimpleFrameView.fromBytes (frame.drop headerSize) = some { opcode, payload }) := by
  refine ⟨fun req => ⟨?_, fun frame hframe => ?_⟩, fun rc returnValue leaseWriteback =>
    ⟨encodeIpcReply_isSome, fun frame => encodeIpcReply_eq_some⟩,
    fun opcode payload => ⟨?_, fun frame hframe => ?_⟩⟩
  · simp only [IpcRequest.encodeInto_eq_some, exists_and_left, exists_eq', and_true]
  · obtain ⟨hfits, rfl⟩ := IpcRequest.encodeInto_eq_some.mp hframe
    have hlen := req.length_payload
    have hframed := framed_encode .ipcRequest seq (hlen ▸ hfits.payload)
    rw [hlen] at hframed
    refine ⟨hframed.1, req.view, ?_, IpcRequest.seenAs_view hfits⟩
    exact IpcRequest.fromBytes_payload hfits
  · simp only [encodeSimpleRaw_eq_some, exists_and_left, exists_eq', and_true]
  · obtain ⟨⟨hpayload, -⟩, rfl⟩ := encodeSimpleRaw_eq_some.mp hframe
    have hlen : (opcode :: payload).length = 1 + payload.length := Nat.add_comm _ _
    have hframed := framed_encode .simple seq (hlen ▸ hpayload)
    rw [hlen] at hframed
    exact ⟨hframed.1, by rw [hframed.2]; rfl⟩

end Rcard
