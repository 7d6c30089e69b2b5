/-
The compaction of lease data in place.

The regions of the leases stand at the front of the buffer, in the order of the
descriptors.  The data of a `Read` lease comes from further back in the same
buffer.  The source takes the forward copy for safe because header, descriptors
and arguments precede the data.  But a `Write` lease takes room in the pool and
has no data in the request, so the pool can overtake the data.  `Undisturbed`
says for which requests it does no harm.
-/
import Rcard.Tunnel.Dispatch

namespace Rcard.HostProxy

open List Mem LeaseSource IpcRequestView

open Mem (Segment)

/-! ## What the call should be -/

def leaseLength (view : IpcRequestView) (i : Nat) : Nat :=
  ((view.lease i).map LeaseDescriptor.length).getD 0

/-- The bytes the region of lease `i` should have: its data, or zeros. -/
def regionBytes (view : IpcRequestView) (i : Nat) : List UInt8 :=
  (view.leaseData i).getD (replicate (leaseLength view i) 0)

def poolImage (view : IpcRequestView) (i : Nat) : List UInt8 :=
  (range i).flatMap (regionBytes view)

def declaredBefore (view : IpcRequestView) : Nat → Nat
  | 0 => 0
  | n + 1 => declaredBefore view n + leaseLength view n

def declaredLength (view : IpcRequestView) : Nat := declaredBefore view view.leaseCount

structure Faithful (view : IpcRequestView) (call : SendCall) : Prop where
  count : call.slots.length = view.leaseCount
  described : ∀ (i : Nat) (slot : LeaseSlot), call.slots[i]? = some slot →
    view.lease i = some { kind := slot.kind, length := slot.length }
  ordered : ∀ (i j : Nat) (slot slot' : LeaseSlot), i < j → call.slots[i]? = some slot →
    call.slots[j]? = some slot' → slot.offset + slot.length ≤ slot'.offset
  inside : ∀ slot ∈ call.slots, slot.offset + slot.length ≤ tunnelDataSize
  data : ∀ (i : Nat) (slot : LeaseSlot), call.slots[i]? = some slot →
    slot.kind.hasRequestData = true → view.leaseData i = some (call.region slot)
  zeroed : ∀ (i : Nat) (slot : LeaseSlot), call.slots[i]? = some slot →
    slot.kind.hasRequestData = false → call.region slot = replicate slot.length 0
  args : call.args = view.args

/-- No data byte of a lease lies under the pool in front of that lease, unless it
is what the pool has there. -/
def Undisturbed (data : Nat → UInt8) (view : IpcRequestView) : Prop :=
  ∀ i offset n, view.leaseRange i = some (offset, n) →
    ∀ p, leaseBase view + offset ≤ p → p < leaseBase view + offset + n →
      ∀ v, (poolImage view i)[p]? = some v → v = data p

/-! ## The loop as a gathering of segments -/

def descOf (view : IpcRequestView) (i : Nat) : LeaseDescriptor :=
  (view.lease i).getD { kind := .read, length := 0 }

/-- What `recordLease` records of a lease that is there. -/
def sourceOf (view : IpcRequestView) (i : Nat) : LeaseSource :=
  let desc := descOf view i
  if desc.kind.hasRequestData then
    { kind := desc.kind, length := desc.length
      srcOff := leaseBase view + view.dataOffset i, srcLen := desc.length }
  else { kind := desc.kind, length := desc.length, srcOff := 0, srcLen := 0 }

def LeaseSource.segment (l : LeaseSource) : Segment UInt8 :=
  if l.kind.hasRequestData then .copy l.srcOff l.length else .fill l.length 0

theorem LeaseSource.length_segment (l : LeaseSource) : l.segment.length = l.length := by
  rw [LeaseSource.segment]
  split <;> rfl

/-- The slots of leases that all fit, from position `poolEnd` on. -/
def slotsFrom (poolEnd : Nat) : List LeaseSource → List LeaseSlot
  | [] => []
  | l :: ls =>
    { kind := l.kind, offset := poolEnd, length := l.length } :: slotsFrom (poolEnd + l.length) ls

theorem compact_eq_gather {data : Nat → UInt8} {poolEnd : Nat} {ls : List LeaseSource}
    (hfit : poolEnd + size (ls.map LeaseSource.segment) ≤ leasePoolSize)
    (hsrc : ∀ l ∈ ls, l.kind.hasRequestData = true → l.srcLen = l.length) :
    compact data poolEnd ls =
      (gather data poolEnd (ls.map LeaseSource.segment), some (slotsFrom poolEnd ls)) := by
  induction ls generalizing data poolEnd with
  | nil => rfl
  | cons l ls ih =>
    rw [map_cons, size_cons, l.length_segment] at hfit
    have hmove : (if l.kind.hasRequestData then
        copyWithin data l.srcOff (min l.srcLen l.length) poolEnd
        else fill data poolEnd l.length 0) = l.segment.place data poolEnd := by
      rw [LeaseSource.segment]
      split
      · rename_i hdata
        rw [hsrc l mem_cons_self hdata, Nat.min_self]
        rfl
      · rfl
    have htail : compact (l.segment.place data poolEnd) (poolEnd + l.length) ls = _ :=
      ih (by omega) fun l' hl' => hsrc l' (mem_cons_of_mem l hl')
    rw [compact, if_neg (by omega), hmove]
    dsimp only
    rw [htail, map_cons, gather, l.length_segment]
    rfl

theorem getElem?_slotsFrom (poolEnd : Nat) (ls : List LeaseSource) (i : Nat) :
    (slotsFrom poolEnd ls)[i]? = ls[i]?.map fun l =>
      { kind := l.kind, offset := poolEnd + size ((ls.map LeaseSource.segment).take i)
        length := l.length } := by
  induction ls generalizing poolEnd i with
  | nil => rfl
  | cons l ls ih =>
    cases i with
    | zero => rfl
    | succ i =>
      rw [slotsFrom, getElem?_cons_succ, ih, getElem?_cons_succ, map_cons, take_succ_cons,
        size_cons, l.length_segment, Nat.add_assoc]

theorem length_slotsFrom (poolEnd : Nat) (ls : List LeaseSource) :
    (slotsFrom poolEnd ls).length = ls.length := by
  induction ls generalizing poolEnd with
  | nil => rfl
  | cons l ls ih => rw [slotsFrom, length_cons, ih, length_cons]

/-! ## The request behind the segments -/

section Parsed

variable {data : Nat → UInt8} {fetchLen : Nat} {header : FrameHeader} {view : IpcRequestView}

/-- An accepted request, and where its lease bytes are. -/
structure Parsed (data : Nat → UInt8) (view : IpcRequestView) : Prop where
  valid : view.Valid
  leaseBytes : view.leaseBytes = slice data (leaseBase view) view.leaseBytes.length

theorem parsed_of_parseRequest (h : parseRequest data fetchLen = some (header, view)) :
    Parsed data view := by
  rw [parseRequest] at h
  split at h
  · cases h
  · obtain ⟨hsize, h⟩ := Option.ite_none_left_eq_some.mp h
    obtain ⟨view', hview, h⟩ := Option.bind_eq_some_iff.mp h
    cases h
    obtain ⟨_, hbytes⟩ := Option.ite_none_left_eq_some.mp hview
    obtain ⟨hvalid, hdrop⟩ := fromBytes_valid hbytes
    refine ⟨hvalid, ?_⟩
    rw [slice_take data 0 (by omega), slice_drop, slice_drop] at hdrop
    grind [slice, leaseBase]

variable (hp : Parsed data view)
include hp

variable {i : Nat}

theorem Parsed.lease (hi : i < view.leaseCount) : view.lease i = some (descOf view i) := by
  obtain ⟨desc, hdesc⟩ := hp.valid.described i hi
  rw [descOf, hdesc, Option.getD_some]

theorem Parsed.leaseRange (hi : i < view.leaseCount) : view.leaseRange i =
    if (descOf view i).kind.hasRequestData then some (view.dataOffset i, (descOf view i).length)
    else none :=
  hp.valid.leaseRange hi (hp.lease hi)

theorem Parsed.recordLeases {count : Nat} (hcount : count ≤ view.leaseCount) :
    recordLeases view count = some ((range count).map (sourceOf view)) := by
  have hrecord : ∀ i < view.leaseCount, recordLease view i = some (sourceOf view i) := by
    intro i hi
    rw [recordLease, hp.lease hi, hp.leaseRange hi, sourceOf]
    dsimp only [Option.bind_eq_bind, Option.bind_some]
    split <;> rfl
  have hmap : ∀ is : List Nat, (∀ i ∈ is, i < view.leaseCount) →
      is.mapM (recordLease view) = some (is.map (sourceOf view)) := by
    intro is his
    induction is with
    | nil => rfl
    | cons i is ih =>
      grind
  exact hmap _ fun i hi => Nat.lt_of_lt_of_le (mem_range.mp hi) hcount

theorem Parsed.values_segment (hi : i < view.leaseCount) :
    (sourceOf view i).segment.values data = regionBytes view i := by
  have hlength : leaseLength view i = (descOf view i).length := by
    rw [leaseLength, hp.lease hi]
    rfl
  rw [regionBytes, leaseData, hp.leaseRange hi, hlength, sourceOf]
  by_cases hdata : (descOf view i).kind.hasRequestData = true
  · have hnext : view.dataOffset (i + 1) = view.dataOffset i + (descOf view i).length := by
      rw [dataOffset, hp.lease hi, Option.map_some, Option.getD_some, LeaseDescriptor.dataLength,
        if_pos hdata]
    have hle := Nat.le_trans (view.dataOffset_mono (Nat.succ_le_of_lt hi)) hp.valid.enough
    rw [hnext] at hle
    rw [if_pos hdata, if_pos hdata, LeaseSource.segment, if_pos hdata, hp.leaseBytes,
      Option.map_some]
    dsimp only
    rw [slice_drop, slice_take _ _ (by omega)]
    rfl
  · rw [if_neg hdata, if_neg hdata, LeaseSource.segment, if_neg hdata]
    rfl

theorem Parsed.leaseData (hi : i < view.leaseCount)
    (hdata : (descOf view i).kind.hasRequestData = true) :
    view.leaseData i = some (regionBytes view i) := by
  rw [regionBytes, IpcRequestView.leaseData, hp.leaseRange hi, if_pos hdata]
  rfl

theorem Parsed.regionBytes_zero (hi : i < view.leaseCount)
    (hdata : (descOf view i).kind.hasRequestData = false) :
    regionBytes view i = replicate (descOf view i).length 0 := by
  rw [regionBytes, IpcRequestView.leaseData, hp.leaseRange hi, if_neg (by simp [hdata]),
    leaseLength, hp.lease hi]
  rfl

end Parsed

/-! ## The call -/

section Call

variable {data : Nat → UInt8} {view : IpcRequestView}

def sources (view : IpcRequestView) : List LeaseSource :=
  (range view.leaseCount).map (sourceOf view)

def segments (view : IpcRequestView) : List (Segment UInt8) :=
  (sources view).map LeaseSource.segment

def callOf (data : Nat → UInt8) (seq : UInt16) (view : IpcRequestView) : SendCall :=
  { seq, target := view.taskId, opcode := opcode view.resourceKind view.method
    args := view.args.take maxMessage, data := gather data 0 (segments view)
    slots := slotsFrom 0 (sources view) }

variable {i : Nat}

theorem getElem?_segments_iff {s : Segment UInt8} :
    (segments view)[i]? = some s ↔ i < view.leaseCount ∧ (sourceOf view i).segment = s := by
  rw [segments, sources]
  by_cases hi : i < view.leaseCount
  · simp [hi]
  · simp [hi]

theorem length_sourceOf (view : IpcRequestView) (i : Nat) :
    (sourceOf view i).length = (descOf view i).length := by
  rw [sourceOf]
  split <;> rfl

theorem kind_sourceOf (view : IpcRequestView) (i : Nat) :
    (sourceOf view i).kind = (descOf view i).kind := by
  rw [sourceOf]
  split <;> rfl

theorem getElem?_slots_iff {seq : UInt16} {slot : LeaseSlot} :
    (callOf data seq view).slots[i]? = some slot ↔ i < view.leaseCount ∧
      { kind := (descOf view i).kind, offset := size ((segments view).take i)
        length := (descOf view i).length } = slot := by
  show (slotsFrom 0 (sources view))[i]? = some slot ↔ _
  rw [getElem?_slotsFrom, sources]
  by_cases hi : i < view.leaseCount
  · simp [hi, segments, sources, kind_sourceOf, length_sourceOf]
  · simp [hi]

theorem size_segments (hp : Parsed data view) : size (segments view) = declaredLength view := by
  have hsum : ∀ n ≤ view.leaseCount, size (((range n).map (sourceOf view)).map
      segment) = declaredBefore view n := by
    intro n hn
    induction n with
    | zero => rfl
    | succ n ih =>
      rw [range_succ, map_append, map_append, size_append, ih (by omega), declaredBefore,
        leaseLength, hp.lease (by omega)]
      show _ + (Segment.length _ + 0) = _
      rw [length_segment, length_sourceOf]
      rfl
  exact hsum _ (Nat.le_refl _)

theorem prepare_eq_send {fetchLen : Nat} {header : FrameHeader}
    (hparse : parseRequest data fetchLen = some (header, view))
    (hcount : view.leaseCount ≤ maxLeases) (htotal : declaredLength view ≤ leasePoolSize) :
    prepare data fetchLen = .send (callOf data header.seq view) := by
  have hp := parsed_of_parseRequest hparse
  have hsrc : ∀ l ∈ sources view, l.kind.hasRequestData = true → l.srcLen = l.length := by
    intro l hl hdata
    obtain ⟨i, hi, rfl⟩ := mem_map.mp hl
    rw [kind_sourceOf] at hdata
    rw [sourceOf, if_pos hdata]
  have hcompact : compact data 0 (sources view) =
      (gather data 0 (segments view), some (slotsFrom 0 (sources view))) := by
    refine compact_eq_gather ?_ hsrc
    rw [Nat.zero_add]
    exact Nat.le_trans (Nat.le_of_eq (size_segments hp)) htotal
  rw [prepare, hparse]
  dsimp only
  rw [prepareRequest, Nat.min_eq_left hcount, hp.recordLeases (Nat.le_refl _)]
  dsimp only
  rw [← sources, hcompact]
  rfl

def finalRegion (data : Nat → UInt8) (view : IpcRequestView) (i : Nat) : List UInt8 :=
  slice (gather data 0 (segments view)) (size ((segments view).take i)) (descOf view i).length

section

variable (hp : Parsed data view)
include hp

theorem regions_iff : Regions data (segments view) ↔
    ∀ i < view.leaseCount, finalRegion data view i = regionBytes view i := by
  have hlen : ∀ i, (sourceOf view i).segment.length = (descOf view i).length := fun i => by
    rw [length_segment, length_sourceOf]
  constructor
  · intro h i hi
    have hreg := h i _ (getElem?_segments_iff.mpr ⟨hi, rfl⟩)
    rw [hlen, hp.values_segment hi] at hreg
    exact hreg
  · intro h i s hs
    obtain ⟨hi, rfl⟩ := getElem?_segments_iff.mp hs
    rw [hlen, hp.values_segment hi]
    exact h i hi

/-- Order, room and arguments are right whatever the data. -/
theorem faithful_iff_regions (seq : UInt16) (htotal : declaredLength view ≤ leasePoolSize) :
    Faithful view (callOf data seq view) ↔ Regions data (segments view) := by
  rw [regions_iff hp]
  constructor
  · intro h i hi
    have hslot : (callOf data seq view).slots[i]? = some _ := getElem?_slots_iff.mpr ⟨hi, rfl⟩
    by_cases hdata : (descOf view i).kind.hasRequestData = true
    · have heq := h.data i _ hslot hdata
      rw [hp.leaseData hi hdata] at heq
      exact (Option.some.inj heq).symm
    · have hno : (descOf view i).kind.hasRequestData = false := Bool.eq_false_iff.mpr hdata
      rw [hp.regionBytes_zero hi hno]
      exact h.zeroed i _ hslot hno
  · intro h
    refine ⟨?_, ?_, ?_, ?_, ?_, ?_, ?_⟩
    · show (slotsFrom 0 (sources view)).length = view.leaseCount
      rw [length_slotsFrom, sources, length_map, length_range]
    · intro i slot hslot
      obtain ⟨hi, rfl⟩ := getElem?_slots_iff.mp hslot
      exact hp.lease hi
    · intro i j slot slot' hij hslot hslot'
      obtain ⟨hi, rfl⟩ := getElem?_slots_iff.mp hslot
      obtain ⟨hj, rfl⟩ := getElem?_slots_iff.mp hslot'
      have hseg : ((segments view).take j)[i]? = some (sourceOf view i).segment := by
        rw [getElem?_take_of_lt hij]
        exact getElem?_segments_iff.mpr ⟨hi, rfl⟩
      have hle := size_take_add hseg
      rw [take_take, Nat.min_eq_left (Nat.le_of_lt hij), length_segment, length_sourceOf] at hle
      exact hle
    · intro slot hmem
      obtain ⟨i, hslot⟩ := mem_iff_getElem?.mp hmem
      obtain ⟨hi, rfl⟩ := getElem?_slots_iff.mp hslot
      have hle := size_take_add (getElem?_segments_iff.mpr ⟨hi, rfl⟩)
      rw [length_segment, length_sourceOf, size_segments hp] at hle
      have hsize : tunnelDataSize = leasePoolSize + 278 := rfl
      dsimp only
      omega
    · intro i slot hslot hdata
      obtain ⟨hi, rfl⟩ := getElem?_slots_iff.mp hslot
      rw [hp.leaseData hi hdata, ← h i hi]
      rfl
    · intro i slot hslot hdata
      obtain ⟨hi, rfl⟩ := getElem?_slots_iff.mp hslot
      rw [← hp.regionBytes_zero hi hdata, ← h i hi]
      rfl
    · exact take_of_length_le hp.valid.args_length

theorem flatMap_values_take (hi : i ≤ view.leaseCount) :
    ((segments view).take i).flatMap (Segment.values data) = poolImage view i := by
  rw [segments, sources, ← map_take, ← map_take, take_range, Nat.min_eq_left hi, map_map,
    flatMap_map]
  apply flatMap_congr
  intro j hj
  exact hp.values_segment (Nat.lt_of_lt_of_le (mem_range.mp hj) hi)

theorem getElem?_segments_copy_iff {src n : Nat} :
    (segments view)[i]? = some (.copy src n) ↔
      ∃ offset, view.leaseRange i = some (offset, n) ∧ leaseBase view + offset = src := by
  by_cases hi : i < view.leaseCount
  · rw [getElem?_segments_iff, hp.leaseRange hi, sourceOf]
    by_cases hdata : (descOf view i).kind.hasRequestData = true
    · simp [hi, hdata, LeaseSource.segment, and_comm]
    · simp [hdata, LeaseSource.segment]
  · have hnone : view.leaseRange i = none := by
      rw [leaseRange, lease, if_pos (by omega)]
      rfl
    simp [getElem?_segments_iff, hi, hnone]

theorem untouched_iff : Untouched data (segments view) ↔ Undisturbed data view := by
  have hlt : ∀ {i src n : Nat}, (segments view)[i]? = some (.copy src n) → i < view.leaseCount :=
    fun h => (getElem?_segments_iff.mp h).1
  constructor
  · intro h i offset n hrange p hle hn v hv
    have hseg := (getElem?_segments_copy_iff hp).mpr ⟨offset, hrange, rfl⟩
    have himage := flatMap_values_take hp (Nat.le_of_lt (hlt hseg))
    have hp' : p < size ((segments view).take i) := by
      rw [← length_flatMap_values data, himage]
      exact (List.getElem?_eq_some_iff.mp hv).1
    have hval := h i _ n hseg p hle hn hp'
    rw [himage, hv] at hval
    exact Option.some.inj hval
  · intro h i src n hseg p hle hn hp'
    obtain ⟨offset, hrange, rfl⟩ := (getElem?_segments_copy_iff hp).mp hseg
    have himage := flatMap_values_take hp (Nat.le_of_lt (hlt hseg))
    rw [← length_flatMap_values data, himage] at hp'
    rw [himage, getElem?_eq_getElem hp']
    rw [h i offset n hrange p hle hn _ (getElem?_eq_getElem hp')]

end

/-- For a request that is accepted and fits, the call carries the request exactly
if the pool disturbs no data. -/
theorem prepare_faithful_iff {fetchLen : Nat} {header : FrameHeader}
    (hparse : parseRequest data fetchLen = some (header, view))
    (hcount : view.leaseCount ≤ maxLeases) (htotal : declaredLength view ≤ leasePoolSize) :
    ∃ call, prepare data fetchLen = .send call ∧ (Faithful view call ↔ Undisturbed data view) := by
  have hp := parsed_of_parseRequest hparse
  refine ⟨_, prepare_eq_send hparse hcount htotal, ?_⟩
  rw [faithful_iff_regions hp header.seq htotal, regions_iff_untouched, untouched_iff hp]

end Call

def bufferOf (frame : List UInt8) : Nat → UInt8 := write (fun _ => 0) 0 frame

/-- A `Read` lease and a `ReadWrite` lease of one byte each. -/
def twoReads : List UInt8 :=
  [1, 0, 0, 13, 0, 7, 0, 1, 2, 2, 0, 1, 0, 1, 0x80, 0xAA, 0x55, 0x66]

theorem prepare_faithful_iff_twoReads :
    ∃ header view, parseRequest (bufferOf twoReads) 18 = some (header, view) ∧
      view.leaseData 0 = some [0x55] ∧ view.leaseData 1 = some [0x66] ∧
      ∃ call, prepare (bufferOf twoReads) 18 = .send call ∧ Faithful view call := by
  refine ⟨_, _, rfl, by decide, by decide, ?_⟩
  obtain ⟨call, hcall, hiff⟩ :=
    @prepare_faithful_iff (bufferOf twoReads) _ 18 _ rfl (by decide) (by decide)
  refine ⟨call, hcall, hiff.mpr fun i offset n hrange p hle _ v hv => ?_⟩
  -- the pool in front of the second lease is one byte, and the data is behind 16
  match i with
  | 0 => cases hv
  | 1 =>
    have hlong : 1 ≤ p := Nat.le_trans (by decide) (Nat.le_trans (Nat.le_add_right 16 offset) hle)
    rw [getElem?_eq_none hlong] at hv
    cases hv
  | i + 2 => cases hrange

/-- A `Write` lease of 17 bytes, and then a `Read` lease of one byte. -/
def writeThenRead : List UInt8 :=
  [1, 0, 0, 12, 0, 7, 0, 1, 2, 2, 0, 0x11, 0x40, 1, 0, 0xAA, 0x55]

/-- The byte of the `Read` lease is the last of the request, at position 16.  The
zeros of the `Write` lease cover it, and the target gets a zero. -/
theorem write_lease_clears_read_lease :
    ∃ header view call, parseRequest (bufferOf writeThenRead) 17 = some (header, view) ∧
      view.leaseCount ≤ maxLeases ∧ declaredLength view ≤ leasePoolSize ∧
      prepare (bufferOf writeThenRead) 17 = .send call ∧
      view.leaseData 1 = some [0x55] ∧
      call.leases = [{ writable := true, bytes := List.replicate 17 0 },
        { writable := false, bytes := [0] }] :=
  ⟨_, _, _, rfl, by decide, by decide, rfl, by decide, by decide⟩

end Rcard.HostProxy
