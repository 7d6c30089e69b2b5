/-
Accepted requests are safe to read.

`from_bytes` sums up the lease lengths once, and the accessors read the descriptors again by
index.  Here each of them is written with the checks the machine makes: an index or a range
outside of its slice, and a sum or a product that does not fit in a `usize`, give `none`.
None of these checks fails, whatever the payload is.
-/
import Mathlib.Data.Nat.Bitwise
import Rcard.Proto.Ipc

namespace Rcard.IpcRequestView

open List Option LeaseDescriptor

/-! ## With the checks of the machine -/

section Machine

variable (m : Nat)

def checkedAdd (a b : Nat) : Option Nat := if a + b < m then some (a + b) else none

def checkedMul (a b : Nat) : Option Nat := if a * b < m then some (a * b) else none

def range (bytes : List UInt8) (start stop : Nat) : Option (List UInt8) :=
  if start ≤ stop ∧ stop ≤ bytes.length then some ((bytes.drop start).take (stop - start))
  else none

/-- The wire word of a descriptor. -/
def wireAt (descriptors : List UInt8) (i : Nat) : Option UInt16 := do
  let offset ← checkedMul m i leaseDescriptorSize
  let lo ← descriptors[offset]?
  let next ← checkedAdd m offset 1
  let hi ← descriptors[next]?
  return u16FromLe lo hi

/-- What a lease adds to a running sum of data lengths. -/
def addLength (sum : Nat) (desc : LeaseDescriptor) : Option Nat :=
  if desc.kind.hasRequestData then checkedAdd m sum desc.length else some sum

def expectedChecked (descriptors : List UInt8) : Nat → Option (Option Nat)
  | 0 => some (some 0)
  | n + 1 => do
    let some sum ← expectedChecked descriptors n | return none
    let wire ← wireAt m descriptors n
    let some desc := LeaseDescriptor.fromWire wire | return none
    some <$> addLength m sum desc

def fromBytesChecked (payload : List UInt8) : Option (Option IpcRequestView) := do
  if payload.length < requestFixedSize then return none
  let t₀ ← payload[0]?
  let t₁ ← payload[1]?
  let resourceKind ← payload[2]?
  let method ← payload[3]?
  let count ← payload[4]?
  let argsByte ← payload[5]?
  let argsLen ← checkedAdd m argsByte.toNat 1
  let descriptorsSize ← checkedMul m count.toNat leaseDescriptorSize
  let argsStart ← checkedAdd m requestFixedSize descriptorsSize
  let argsEnd ← checkedAdd m argsStart argsLen
  if payload.length < argsEnd then return none
  let descriptors ← range payload requestFixedSize argsStart
  let args ← range payload argsStart argsEnd
  let leaseBytes ← range payload argsEnd payload.length
  let some expected ← expectedChecked m descriptors count.toNat | return none
  if leaseBytes.length < expected then return none
  return some { taskId := u16FromLe t₀ t₁, resourceKind, method, leaseCount := count.toNat,
                descriptors, args, leaseBytes }

variable (v : IpcRequestView)

def leaseChecked (index : Nat) : Option (Option LeaseDescriptor) :=
  if index ≥ v.leaseCount then some none
  else (wireAt m v.descriptors index).map LeaseDescriptor.fromWire

def offsetChecked : Nat → Option Nat
  | 0 => some 0
  | n + 1 => do
    let sum ← offsetChecked n
    match ← leaseChecked m v n with
    | some prev => addLength m sum prev
    | none => return sum

def leaseDataChecked (index : Nat) : Option (Option (List UInt8)) := do
  let some desc ← leaseChecked m v index | return none
  if !desc.kind.hasRequestData then return none
  let offset ← offsetChecked m v index
  let stop ← checkedAdd m offset desc.length
  if stop > v.leaseBytes.length then return none
  some <$> range v.leaseBytes offset stop

end Machine

/-! ## No check fails -/

section Safe

variable {m n i : Nat} {d payload : List UInt8} {v : IpcRequestView}
  {desc : LeaseDescriptor}

theorem checkedAdd_of_lt {a b : Nat} (h : a + b < m) : checkedAdd m a b = some (a + b) := if_pos h

theorem length_of_fromWire {wire : UInt16} (h : LeaseDescriptor.fromWire wire = some desc) :
    desc.length ≤ 0x3FFF := by
  obtain ⟨kind, -, h⟩ := bind_eq_some_iff.mp h
  cases h
  dsimp only
  omega

theorem descriptorAt_eq (hm : 2 ^ 32 ≤ m) (hn : n < 256) (hlen : n * 2 + 2 ≤ d.length) :
    ∃ wire, wireAt m d n = some wire ∧ descriptorAt d n = LeaseDescriptor.fromWire wire := by
  have hlo : d[n * 2]? = some d[n * 2] := getElem?_eq_getElem _
  have hhi : d[n * 2 + 1]? = some d[n * 2 + 1] := getElem?_eq_getElem _
  have hmul : n * 2 < m := by omega
  have hadd : n * 2 + 1 < m := by omega
  refine ⟨u16FromLe d[n * 2] d[n * 2 + 1], ?_, ?_⟩
  · simp [wireAt, checkedMul, checkedAdd, leaseDescriptorSize, hlo, hhi, hmul, hadd]
  · simp [descriptorAt, leaseDescriptorSize, hlo, hhi]

theorem dataLength_le (desc : LeaseDescriptor) : desc.dataLength ≤ desc.length := by
  unfold dataLength
  split <;> omega

theorem addLength_eq {sum : Nat} (h : sum + desc.length < m) :
    addLength m sum desc = some (sum + desc.dataLength) := by
  unfold addLength dataLength
  split
  · exact checkedAdd_of_lt h
  · rfl

theorem expectedChecked_eq (hm : 2 ^ 32 ≤ m) (hn : n < 256) (hlen : n * 2 ≤ d.length) :
    expectedChecked m d n = some (expectedLeaseData d n) ∧
      ∀ e, expectedLeaseData d n = some e → e ≤ n * 0x3FFF := by
  induction n with
  | zero => simp [expectedChecked, expectedLeaseData]
  | succ n ih =>
    obtain ⟨hsum, hbound⟩ := ih (by omega) (by omega)
    obtain ⟨wire, hwire, hdesc⟩ := descriptorAt_eq hm (n := n) (d := d) (by omega) (by omega)
    simp only [expectedChecked, expectedLeaseData, hsum, hwire, hdesc]
    cases hs : expectedLeaseData d n with
    | none => simp
    | some sum =>
      cases hd : fromWire wire with
      | none => simp [hd]
      | some desc =>
        have hle := hbound sum hs
        have hlength := length_of_fromWire hd
        have hdata := dataLength_le desc
        have hadd : addLength m sum desc = _ := addLength_eq (by omega)
        simp [hd, hadd]
        omega

/-- A range behind the six fixed bytes. -/
theorem range_six {x₀ x₁ x₂ x₃ x₄ x₅ : UInt8} {rest : List UInt8} {a start stop : Nat}
    (ha : 6 + a = start) (hn : start + n = stop) (hle : a + n ≤ rest.length) :
    range (x₀ :: x₁ :: x₂ :: x₃ :: x₄ :: x₅ :: rest) start stop = some ((rest.drop a).take n) := by
  grind [range]

/-- The three slices `from_bytes` takes lie behind each other in the payload. -/
theorem fromBytesChecked_eq (hm : 2 ^ 32 ≤ m) (payload : List UInt8) :
    fromBytesChecked m payload = some (fromBytes payload) := by
  rcases payload with
    - | ⟨t₀, - | ⟨t₁, - | ⟨kind, - | ⟨method, - | ⟨count, - | ⟨argsByte, rest⟩⟩⟩⟩⟩⟩
  case cons.cons.cons.cons.cons.cons =>
    have hcount := count.toNat_lt
    have hargs := argsByte.toNat_lt
    have hargsLen : checkedAdd m argsByte.toNat 1 = some (argsByte.toNat + 1) :=
      checkedAdd_of_lt (by omega)
    have hsize : checkedMul m count.toNat 2 = some (count.toNat * 2) := if_pos (by omega)
    have hstart : checkedAdd m 6 (count.toNat * 2) = some (6 + count.toNat * 2) :=
      checkedAdd_of_lt (by omega)
    have hend : checkedAdd m (6 + count.toNat * 2) (argsByte.toNat + 1) = some _ :=
      checkedAdd_of_lt (by omega)
    have hsix : ¬rest.length + 1 + 1 + 1 + 1 + 1 + 1 < 6 := by omega
    simp only [fromBytes, fromBytesChecked, length_cons, requestFixedSize, leaseDescriptorSize,
      if_neg hsix, getElem?_cons_zero, getElem?_cons_succ, hargsLen, hsize, hstart, hend,
      Option.bind_eq_bind, Option.bind_some, Option.pure_def]
    by_cases hshort : rest.length + 1 + 1 + 1 + 1 + 1 + 1 <
        6 + count.toNat * 2 + (argsByte.toNat + 1)
    · simp only [hshort, if_true]
    · have hlease : range (t₀ :: t₁ :: kind :: method :: count :: argsByte :: rest)
          (6 + count.toNat * 2 + (argsByte.toNat + 1)) (rest.length + 1 + 1 + 1 + 1 + 1 + 1) =
            some (rest.drop (count.toNat * 2 + (argsByte.toNat + 1))) := by
        rw [range_six (n := (rest.drop (count.toNat * 2 + (argsByte.toNat + 1))).length)
          (Nat.add_assoc _ _ _).symm (by rw [length_drop]; omega)
          (by rw [length_drop]; omega), take_length]
      obtain ⟨hexpected, -⟩ := expectedChecked_eq hm (d := rest.take (count.toNat * 2)) hcount
        (by rw [length_take]; omega)
      simp only [hshort, hlease, hexpected, Option.bind_some, drop_zero,
        range_six (a := 0) rfl rfl (show 0 + count.toNat * 2 ≤ rest.length by omega),
        range_six rfl rfl (show count.toNat * 2 + (argsByte.toNat + 1) ≤ rest.length by omega)]
      cases expectedLeaseData (rest.take (count.toNat * 2)) count.toNat with
      | none => rfl
      | some expected => exact (apply_ite some _ _ _).symm
  all_goals rfl

/-- The descriptors are all there, and the arguments are one byte at least. -/
structure Whole (v : IpcRequestView) : Prop where
  count : v.leaseCount < 256
  descriptors : v.descriptors.length = v.leaseCount * 2
  args : 0 < v.args.length

theorem whole_of_fromBytes (h : fromBytes payload = some v) : v.Whole := by
  rcases payload with
    - | ⟨t₀, - | ⟨t₁, - | ⟨kind, - | ⟨method, - | ⟨count, - | ⟨argsByte, rest⟩⟩⟩⟩⟩⟩
  case cons.cons.cons.cons.cons.cons =>
    simp only [fromBytes, ite_none_left_eq_some] at h
    obtain ⟨hlen, h⟩ := h
    simp only [length_cons, requestFixedSize, leaseDescriptorSize] at hlen
    obtain ⟨expected, -, h⟩ := bind_eq_some_iff.mp h
    obtain ⟨-, ⟨⟩⟩ := ite_none_left_eq_some.mp h
    refine ⟨count.toNat_lt, ?_, ?_⟩ <;> simp [leaseDescriptorSize] <;> omega
  all_goals cases h

theorem Whole.leaseChecked (h : v.Whole) (hm : 2 ^ 32 ≤ m) (i : Nat) :
    leaseChecked m v i = some (v.lease i) := by
  have hcount := h.count
  have hlength := h.descriptors
  unfold IpcRequestView.leaseChecked lease
  split
  · rfl
  · obtain ⟨wire, hwire, hdesc⟩ := descriptorAt_eq hm (n := i) (d := v.descriptors) (by omega)
      (by omega)
    simp [hwire, hdesc]

theorem length_of_lease (h : v.lease i = some desc) : desc.length ≤ 0x3FFF := by
  obtain ⟨-, h⟩ := ite_none_left_eq_some.mp h
  obtain ⟨lo, -, h⟩ := bind_eq_some_iff.mp h
  obtain ⟨hi, -, h⟩ := bind_eq_some_iff.mp h
  exact length_of_fromWire h

theorem Whole.offsetChecked (h : v.Whole) (hm : 2 ^ 32 ≤ m) (hn : n ≤ v.leaseCount) :
    offsetChecked m v n = some (v.dataOffset n) ∧ v.dataOffset n ≤ n * 0x3FFF := by
  induction n with
  | zero => simp [IpcRequestView.offsetChecked, dataOffset]
  | succ n ih =>
    obtain ⟨hsum, hbound⟩ := ih (by omega)
    have hcount := h.count
    simp only [IpcRequestView.offsetChecked, dataOffset, hsum, h.leaseChecked hm]
    cases hd : v.lease n with
    | none => exact ⟨rfl, Nat.le_trans hbound (Nat.mul_le_mul_right _ (Nat.le_succ n))⟩
    | some desc =>
      have hlength := length_of_lease hd
      have hdata := dataLength_le desc
      have hadd : addLength m (v.dataOffset n) desc = _ := addLength_eq (by omega)
      simp [hadd]
      omega

theorem Whole.leaseDataChecked (h : v.Whole) (hm : 2 ^ 32 ≤ m) (hi : i < v.leaseCount) :
    leaseDataChecked m v i = some (v.leaseData i) := by
  obtain ⟨hoffset, hbound⟩ := h.offsetChecked hm (Nat.le_of_lt hi)
  have hcount := h.count
  simp only [IpcRequestView.leaseDataChecked, leaseData, leaseRange, h.leaseChecked hm]
  cases hd : v.lease i with
  | none => simp
  | some desc =>
    have hlength := length_of_lease hd
    have hadd := checkedAdd_of_lt (m := m) (a := v.dataOffset i) (b := desc.length) (by omega)
    by_cases hdata : desc.kind.hasRequestData = true
    · by_cases hfit : v.leaseBytes.length < v.dataOffset i + desc.length
      · simp [hdata, hoffset, hadd, hfit]
      · simp [hdata, hoffset, hadd, hfit, range, Nat.not_lt.mp hfit]
    · simp [hdata]

/-- Whatever the payload, `from_bytes` makes no bad access and no overflow.  Of an accepted
request the descriptors and the data can be read in the same way, and the data of the leases
that have any lies one behind the other in the bytes after the arguments. -/
theorem accepted_readable (m : Nat) (hm : 2 ^ 32 ≤ m) (payload : List UInt8) :
    fromBytesChecked m payload = some (fromBytes payload) ∧
      ∀ v, fromBytes payload = some v →
        (1 ≤ v.args.length ∧ v.args.length ≤ 256) ∧
        ∃ start : Nat → Nat, start 0 = 0 ∧ start v.leaseCount ≤ v.leaseBytes.length ∧
          v.leaseBytes = payload.drop (6 + v.leaseCount * 2 + v.args.length) ∧
          ∀ i < v.leaseCount, ∃ desc,
            leaseChecked m v i = some (v.lease i) ∧ v.lease i = some desc ∧
            leaseDataChecked m v i = some (v.leaseData i) ∧
            v.leaseData i = (if desc.kind.hasRequestData then
              some ((v.leaseBytes.drop (start i)).take desc.length) else none) ∧
            start (i + 1) = start i + (if desc.kind.hasRequestData then desc.length else 0) := by
  refine ⟨fromBytesChecked_eq hm payload, fun v hv => ?_⟩
  obtain ⟨hvalid, hbytes⟩ := fromBytes_valid hv
  have hwhole := whole_of_fromBytes hv
  rw [hwhole.descriptors] at hbytes
  refine ⟨⟨hwhole.args, hvalid.args_length⟩, v.dataOffset, rfl, hvalid.enough, hbytes, ?_⟩
  intro i hi
  obtain ⟨desc, hdesc⟩ := hvalid.described i hi
  refine ⟨desc, hwhole.leaseChecked hm i, hdesc, hwhole.leaseDataChecked hm hi, ?_, ?_⟩
  · rw [leaseData, hvalid.leaseRange hi hdesc]
    split <;> rfl
  · rw [dataOffset, hdesc]
    rfl

def twoLeases : List UInt8 := [7, 0, 1, 2, 2, 0, 2, 0, 1, 0x80, 9, 0xA0, 0xA1, 0xB0]

theorem accepted_readable_twoLeases :
    (2 ^ 32 ≤ 2 ^ 32 ∧ (fromBytes twoLeases).isSome = true) ∧
      fromBytesChecked (2 ^ 32) twoLeases = some (fromBytes twoLeases) :=
  ⟨⟨Nat.le_refl _, by decide⟩, (accepted_readable (2 ^ 32) (Nat.le_refl _) twoLeases).1⟩

end Safe

end Rcard.IpcRequestView
