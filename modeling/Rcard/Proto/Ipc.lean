/-
IPC request and reply payloads (`ipc_request.rs`, `ipc_reply.rs`).

A request payload is six fixed bytes, two bytes per lease descriptor, one to 256
argument bytes, and the data of the leases that carry any, one after the other.
A descriptor packs the lease kind in two bits and the length in fourteen.  A
`Write` lease has a length and no data in the request.
-/
import Rcard.Proto.Frame

namespace Rcard

open List Option FrameHeader

def maxArgs : Nat := 256
def leasePoolSize : Nat := 8192
def leaseDescriptorSize : Nat := 2
def maxLeases : Nat := 4

def requestFixedSize : Nat := 6

def maxDecodedFrame : Nat :=
  headerSize + (requestFixedSize + maxArgs + maxLeases * leaseDescriptorSize + leasePoolSize)

inductive LeaseKind where
  | read
  | write
  | readWrite
  deriving DecidableEq, Repr

namespace LeaseKind

def fromBits (v : Nat) : Option LeaseKind :=
  if v = 0 then some read
  else if v = 1 then some write
  else if v = 2 then some readWrite
  else none

def hasRequestData : LeaseKind → Bool
  | read => true
  | write => false
  | readWrite => true

def hasReplyData : LeaseKind → Bool
  | read => false
  | write => true
  | readWrite => true

end LeaseKind

structure LeaseDescriptor where
  kind : LeaseKind
  length : Nat
  deriving DecidableEq, Repr

/-- `[kind:2 | length:14]`. -/
def LeaseDescriptor.fromWire (wire : UInt16) : Option LeaseDescriptor := do
  let kind ← LeaseKind.fromBits (wire.toNat / 0x4000)
  return { kind, length := wire.toNat % 0x4000 }

def LeaseDescriptor.dataLength (d : LeaseDescriptor) : Nat :=
  if d.kind.hasRequestData then d.length else 0

/-- A request view.  The source keeps slices of the payload.  The lists here are
those slices, and `args` starts `requestFixedSize + descriptors.length` bytes
into the payload. -/
structure IpcRequestView where
  taskId : UInt16
  resourceKind : UInt8
  method : UInt8
  leaseCount : Nat
  descriptors : List UInt8
  args : List UInt8
  leaseBytes : List UInt8
  deriving DecidableEq, Repr

def descriptorAt (descriptors : List UInt8) (i : Nat) : Option LeaseDescriptor := do
  let lo ← descriptors[i * leaseDescriptorSize]?
  let hi ← descriptors[i * leaseDescriptorSize + 1]?
  LeaseDescriptor.fromWire (u16FromLe lo hi)

/-- The validation loop of `from_bytes`: the sum of the data lengths of the
first `n` leases, or `none` at the first bad descriptor. -/
def expectedLeaseData (descriptors : List UInt8) : Nat → Option Nat
  | 0 => some 0
  | n + 1 => do
      let sum ← expectedLeaseData descriptors n
      let desc ← descriptorAt descriptors n
      return sum + desc.dataLength

namespace IpcRequestView

def fromBytes (payload : List UInt8) : Option IpcRequestView :=
  match payload with
  | t₀ :: t₁ :: kind :: method :: count :: argsByte :: rest =>
    let descriptorsSize := count.toNat * leaseDescriptorSize
    let argsLen := argsByte.toNat + 1
    if payload.length < requestFixedSize + descriptorsSize + argsLen then none
    else
      let descriptors := rest.take descriptorsSize
      let args := (rest.drop descriptorsSize).take argsLen
      let leaseBytes := rest.drop (descriptorsSize + argsLen)
      do
        let expected ← expectedLeaseData descriptors count.toNat
        if leaseBytes.length < expected then none
        else
          some { taskId := u16FromLe t₀ t₁, resourceKind := kind, method,
                 leaseCount := count.toNat, descriptors, args, leaseBytes }
  | _ => none

def lease (v : IpcRequestView) (index : Nat) : Option LeaseDescriptor :=
  if v.leaseCount ≤ index then none else descriptorAt v.descriptors index

/-- Where the data of lease `index` starts in the lease bytes. -/
def dataOffset (v : IpcRequestView) : Nat → Nat
  | 0 => 0
  | n + 1 => v.dataOffset n + ((v.lease n).map LeaseDescriptor.dataLength).getD 0

/-- `lease_data`, as the offset and length of the slice it returns. -/
def leaseRange (v : IpcRequestView) (index : Nat) : Option (Nat × Nat) := do
  let desc ← v.lease index
  if !desc.kind.hasRequestData then none
  else if v.dataOffset index + desc.length > v.leaseBytes.length then none
  else some (v.dataOffset index, desc.length)

def leaseData (v : IpcRequestView) (index : Nat) : Option (List UInt8) :=
  (v.leaseRange index).map fun (offset, n) => (v.leaseBytes.drop offset).take n

/-! ### Accepted requests -/

/-- What `from_bytes` checks: every descriptor is good, and the lease bytes are
enough for all of them. -/
structure Valid (v : IpcRequestView) : Prop where
  described : ∀ i < v.leaseCount, ∃ desc, v.lease i = some desc
  enough : v.dataOffset v.leaseCount ≤ v.leaseBytes.length
  args_length : v.args.length ≤ maxArgs

/-- The validation loop sums up what `lease_data` sums up. -/
theorem expectedLeaseData_eq (v : IpcRequestView) {n e : Nat} (hn : n ≤ v.leaseCount)
    (h : expectedLeaseData v.descriptors n = some e) :
    v.dataOffset n = e ∧ ∀ i < n, ∃ desc, v.lease i = some desc := by
  induction n generalizing e with
  | zero =>
    cases h
    exact ⟨rfl, fun i hi => absurd hi (Nat.not_lt_zero i)⟩
  | succ n ih =>
    obtain ⟨sum, hsum, h⟩ := bind_eq_some_iff.mp h
    obtain ⟨desc, hdesc, h⟩ := bind_eq_some_iff.mp h
    cases h
    obtain ⟨hoffset, hprev⟩ := ih (by omega) hsum
    have hlease : v.lease n = some desc := by rw [lease, if_neg (by omega), hdesc]
    refine ⟨by rw [dataOffset, hoffset, hlease]; rfl, fun i hi => ?_⟩
    rcases Nat.lt_succ_iff_lt_or_eq.mp hi with hlt | rfl
    · exact hprev i hlt
    · exact ⟨desc, hlease⟩

theorem fromBytes_valid {payload : List UInt8} {v : IpcRequestView}
    (h : fromBytes payload = some v) : v.Valid ∧ v.leaseBytes =
      payload.drop (requestFixedSize + v.descriptors.length + v.args.length) := by
  match payload, h with
  | t₀ :: t₁ :: kind :: method :: count :: argsByte :: rest, h =>
    simp only [fromBytes, ite_none_left_eq_some] at h
    obtain ⟨hlen, h⟩ := h
    obtain ⟨e, hexp, h⟩ := bind_eq_some_iff.mp h
    obtain ⟨henough, h⟩ := ite_none_left_eq_some.mp h
    have hv := (some.inj h).symm
    have hexp' : expectedLeaseData v.descriptors v.leaseCount = some e := by
      rw [hv]
      exact hexp
    have henough' : e ≤ v.leaseBytes.length := by
      rw [hv]
      exact Nat.not_lt.mp henough
    have hargs := argsByte.toNat_lt
    simp only [requestFixedSize] at hlen
    obtain ⟨hoffset, hdesc⟩ := expectedLeaseData_eq v (Nat.le_refl _) hexp'
    refine ⟨⟨hdesc, by rw [hoffset]; exact henough', ?_⟩, ?_⟩
    · rw [hv]
      simp only [length_take, maxArgs]
      omega
    · simp only [requestFixedSize]
      grind

theorem dataOffset_mono (v : IpcRequestView) {i j : Nat} (h : i ≤ j) :
    v.dataOffset i ≤ v.dataOffset j := by
  induction h with
  | refl => exact Nat.le_refl _
  | step _ ih => exact Nat.le_trans ih (Nat.le_add_right _ _)

theorem Valid.leaseRange {v : IpcRequestView} (hv : v.Valid) {i : Nat} {desc : LeaseDescriptor}
    (hi : i < v.leaseCount) (hdesc : v.lease i = some desc) :
    v.leaseRange i =
      if desc.kind.hasRequestData then some (v.dataOffset i, desc.length) else none := by
  rw [IpcRequestView.leaseRange, hdesc]
  dsimp only [bind_eq_bind, bind_some]
  by_cases hdata : desc.kind.hasRequestData = true
  · have hnext : v.dataOffset (i + 1) = v.dataOffset i + desc.length := by
      rw [dataOffset, hdesc, map_some, getD_some, LeaseDescriptor.dataLength, if_pos hdata]
    have hfit : v.dataOffset i + desc.length ≤ v.leaseBytes.length := by
      rw [← hnext]
      exact Nat.le_trans (v.dataOffset_mono hi) hv.enough
    rw [if_neg (by simp [hdata]), if_neg (by omega), if_pos hdata]
  · rw [if_pos (by simp [hdata]), if_neg hdata]

end IpcRequestView

def RawFrame.asIpcRequest (f : RawFrame) : Option IpcRequestView :=
  if f.header.frameType ≠ .ipcRequest then none else IpcRequestView.fromBytes f.payload

def u32ToLe (v : UInt32) : List UInt8 :=
  [UInt8.ofNat v.toNat, UInt8.ofNat (v.toNat / 0x100), UInt8.ofNat (v.toNat / 0x10000),
    UInt8.ofNat (v.toNat / 0x1000000)]

def u32FromLe (b₀ b₁ b₂ b₃ : UInt8) : UInt32 :=
  UInt32.ofNat (b₀.toNat + 0x100 * b₁.toNat + 0x10000 * b₂.toNat + 0x1000000 * b₃.toNat)

theorem u32FromLe_u32ToLe (v : UInt32) :
    u32FromLe (UInt8.ofNat v.toNat) (UInt8.ofNat (v.toNat / 0x100))
      (UInt8.ofNat (v.toNat / 0x10000)) (UInt8.ofNat (v.toNat / 0x1000000)) = v := by
  have hv := v.toNat_lt
  apply UInt32.toNat_inj.mp
  simp only [u32FromLe, UInt32.toNat_ofNat', UInt8.toNat_ofNat']
  omega

def replyFixedSize : Nat := 5

structure IpcReplyView where
  rc : UInt32
  returnValue : List UInt8
  leaseWriteback : List UInt8
  deriving DecidableEq, Repr

def IpcReplyView.fromBytes : List UInt8 → Option IpcReplyView
  | r₀ :: r₁ :: r₂ :: r₃ :: replyLenWire :: rest =>
    let replyLen := replyLenWire.toNat + 1
    if rest.length < replyLen then none
    else
      some
        { rc := u32FromLe r₀ r₁ r₂ r₃, returnValue := rest.take replyLen
          leaseWriteback := rest.drop replyLen }
  | _ => none

/-- `IpcReply::encode_into`, into a buffer of `bufLen` bytes.  An empty return
value is padded with one zero byte. -/
def encodeIpcReply (rc : UInt32) (returnValue leaseWriteback : List UInt8) (bufLen : Nat)
    (seq : UInt16) : Option (List UInt8) :=
  if returnValue.length > 256 then none
  else
    let wireReturn := if returnValue.isEmpty then [0] else returnValue
    let payloadLen := replyFixedSize + wireReturn.length + leaseWriteback.length
    if payloadLen > 65535 then none
    else if bufLen < headerSize + payloadLen then none
    else
      let header : FrameHeader :=
        { frameType := .ipcReply, seq, length := UInt16.ofNat payloadLen }
      some (header.encode ++ u32ToLe rc ++ [UInt8.ofNat (wireReturn.length - 1)] ++ wireReturn
        ++ leaseWriteback)

section EncodeIpcReply

variable {rc : UInt32} {returnValue leaseWriteback frame : List UInt8} {bufLen : Nat} {seq : UInt16}

section

variable (h : encodeIpcReply rc returnValue leaseWriteback bufLen seq = some frame)
include h

theorem encodeIpcReply_head : ∃ rest, frame = FrameType.ipcReply.toU8 :: rest := by
  simp only [encodeIpcReply, ite_none_left_eq_some] at h
  obtain ⟨_, _, _, heq⟩ := h
  exact ⟨_, (some.inj heq).symm⟩

theorem encodeIpcReply_length_lt : frame.length < 0x20000 := by
  simp only [encodeIpcReply, ite_none_left_eq_some] at h
  obtain ⟨_, hpayload, _, heq⟩ := h
  rw [← some.inj heq]
  simp only [length_append, length_encode, u32ToLe, length_cons, length_nil,
    headerSize] at ⊢
  omega

end

theorem encodeIpcReply_eq_none_of_lt
    (h : bufLen < headerSize + (replyFixedSize + returnValue.length + leaseWriteback.length)) :
    encodeIpcReply rc returnValue leaseWriteback bufLen seq = none := by
  grind [encodeIpcReply]

/-- The host reads back what was encoded. -/
theorem encodeIpcReply_decode (hpos : 0 < returnValue.length) (hmax : returnValue.length ≤ 256)
    (hpayload : replyFixedSize + returnValue.length + leaseWriteback.length ≤ 65535)
    (hfit : headerSize + (replyFixedSize + returnValue.length + leaseWriteback.length) ≤ bufLen) :
    ∃ frame header, encodeIpcReply rc returnValue leaseWriteback bufLen seq = some frame ∧
      FrameHeader.decode frame = .ok header ∧ header.frameType = .ipcReply ∧
      header.seq = seq ∧ header.frameSize = frame.length ∧
      IpcReplyView.fromBytes (frame.drop headerSize) =
        some { rc, returnValue, leaseWriteback } := by
  have hwire : (if returnValue.isEmpty then [0] else returnValue) = returnValue :=
    if_neg (by simpa using ne_nil_of_length_pos hpos)
  have hbyte : (UInt8.ofNat (returnValue.length - 1)).toNat + 1 = returnValue.length := by
    rw [UInt8.toNat_ofNat']
    omega
  rw [encodeIpcReply, if_neg (by omega), hwire]
  rw [if_neg (by omega), if_neg (by omega)]
  simp only [append_assoc]
  refine ⟨_, _, rfl, decode_encode _ _, rfl, rfl, ?_, ?_⟩
  · simp only [frameSize, length_append, length_encode, u32ToLe, UInt16.toNat_ofNat', length_cons,
      length_nil, replyFixedSize] at hpayload ⊢
    omega
  · rw [← length_encode, drop_left]
    simp only [u32ToLe, cons_append, nil_append, IpcReplyView.fromBytes, hbyte, u32FromLe_u32ToLe,
      take_left, drop_left]
    exact if_neg (by simp)

end EncodeIpcReply

end Rcard
