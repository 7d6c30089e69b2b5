/-
The log ring (`firmware/sysmodule/log/src/ringbuf.rs`).

Frames lie one behind the other in a buffer of 4096 bytes, round its end.  A frame has a
header of ten bytes: the log id, the length of the data, and the number of the fragment.
A push makes room by evicting frames from the front, and reads their sizes back out of
the buffer.

`Holds` says which frames a ring holds.  They are always the longest suffix of the pushed
ones that fits.
-/
import Mathlib.Data.List.DropRight
import Mathlib.Data.List.GetD
import Rcard.Lib.Circle
import Rcard.Lib.Le
import Rcard.Lib.Window

namespace Rcard.Log

open List Circle Window

/-! ## The ring -/

structure LogRing where
  buf : Nat → UInt8
  head : Nat
  used : Nat
  count : Nat

structure LogChunk where
  id : UInt64
  idx : UInt8
  data : List UInt8 × List UInt8

structure Iter where
  offset : Nat
  remaining : Nat

namespace LogRing

def bufSize : Nat := 4096

def headerSize : Nat := 10

def new : LogRing := { buf := fun _ => 0, head := 0, used := 0, count := 0 }

def readAt (r : LogRing) (offset len : Nat) : List UInt8 :=
  read r.buf bufSize (offset % bufSize) len

def writeAt (r : LogRing) (offset : Nat) (src : List UInt8) : LogRing :=
  { r with buf := write r.buf bufSize (offset % bufSize) src }

/-! The fields of a header. -/

def hdrId (hdr : List UInt8) : UInt64 := UInt64.ofNat (leNat (hdr.take 8))
def hdrLen (hdr : List UInt8) : Nat := (hdr.getD 8 0).toNat
def hdrIdx (hdr : List UInt8) : UInt8 := hdr.getD 9 0

def evictOldest (r : LogRing) : LogRing :=
  if r.count = 0 then r
  else
    let frameSize := headerSize + hdrLen (r.readAt r.head headerSize)
    { r with
      head := (r.head + frameSize) % bufSize
      used := r.used - frameSize
      count := r.count - 1 }

/-- The loop of `push`, with at most `fuel` evictions.  An empty ring is left as it is by an
eviction, so `none` after as many evictions as there are frames is a loop that never ends. -/
def makeRoom (frameSize : Nat) : (fuel : Nat) → LogRing → Option LogRing
  | 0, r => if r.used + frameSize > bufSize then none else some r
  | fuel + 1, r =>
    if r.used + frameSize > bufSize then makeRoom frameSize fuel r.evictOldest else some r

def push (r : LogRing) (id : UInt64) (idx : UInt8) (data : List UInt8) : Option LogRing :=
  let dataLen := min data.length 255
  let frameSize := headerSize + dataLen
  if frameSize > bufSize then some r
  else do
    let r ← makeRoom frameSize r.count r
    let writePos := (r.head + r.used) % bufSize
    let r := r.writeAt writePos (leBytes 8 id.toNat ++ [UInt8.ofNat dataLen, idx])
    let r := r.writeAt ((writePos + headerSize) % bufSize) (data.take dataLen)
    return { r with used := r.used + frameSize, count := r.count + 1 }

/-- `Iter::next`. -/
def next (r : LogRing) (it : Iter) : Option (LogChunk × Iter) :=
  if it.remaining = 0 then none
  else
    let hdr := r.readAt it.offset headerSize
    let dataLen := hdrLen hdr
    let dataStart := (it.offset + headerSize) % bufSize
    let data :=
      if dataStart + dataLen ≤ bufSize then (Mem.slice r.buf dataStart dataLen, [])
      else (Mem.slice r.buf dataStart (bufSize - dataStart),
        Mem.slice r.buf 0 (dataLen - (bufSize - dataStart)))
    some ({ id := hdrId hdr, idx := hdrIdx hdr, data },
      { offset := (it.offset + headerSize + dataLen) % bufSize, remaining := it.remaining - 1 })

/-- The first `fuel` chunks of an iterator. -/
def collect (r : LogRing) : (fuel : Nat) → Iter → List LogChunk
  | 0, _ => []
  | fuel + 1, it =>
    match r.next it with
    | none => []
    | some (chunk, it') => chunk :: r.collect fuel it'

/-- All chunks of an iterator.  Each takes one off `remaining`. -/
def chunks (r : LogRing) (it : Iter) : List LogChunk := r.collect (it.remaining + 1) it

def iter (r : LogRing) : Iter := { offset := r.head, remaining := r.count }

/-- The loop of `iter_since` over the last `n` frames. -/
def findSince (r : LogRing) (id : UInt64) : (n offset : Nat) → Option Iter → Option Iter
  | 0, _, found => found
  | n + 1, offset, found =>
    let hdr := r.readAt offset headerSize
    let offset := (offset + (headerSize + hdrLen hdr)) % bufSize
    r.findSince id n offset (if hdrId hdr = id then some { offset, remaining := n } else found)

def iterSince (r : LogRing) (id : UInt64) : Iter :=
  if id = 0 then r.iter else (r.findSince id r.count r.head none).getD r.iter

end LogRing

/-! ## Frames -/

structure RingFrame where
  id : UInt64
  idx : UInt8
  data : List UInt8
  short : data.length ≤ 255

/-- What `push` keeps of its arguments. -/
def RingFrame.cut (id : UInt64) (idx : UInt8) (data : List UInt8) : RingFrame where
  id := id
  idx := idx
  data := data.take 255
  short := length_take_le _ _

namespace RingFrame

open LogRing (bufSize hdrId hdrLen hdrIdx)

def header (f : RingFrame) : List UInt8 :=
  leBytes 8 f.id.toNat ++ [UInt8.ofNat f.data.length, f.idx]

def bytes (f : RingFrame) : List UInt8 := f.header ++ f.data

def size (f : RingFrame) : Nat := LogRing.headerSize + f.data.length

def total (fs : List RingFrame) : Nat := Window.weight size fs

variable (f : RingFrame)

theorem length_header : f.header.length = LogRing.headerSize := by
  rfl

theorem length_bytes : f.bytes.length = f.size := by
  rw [bytes, length_append, length_header, size]

theorem size_le : f.size ≤ bufSize := by
  have hshort := f.short
  rw [size, LogRing.headerSize, bufSize]
  omega

theorem hdrId_append (rest : List UInt8) : hdrId (f.header ++ rest) = f.id := by
  rw [hdrId, header, append_assoc, take_left' (length_leBytes 8 _), leNat_leBytes f.id.toNat_lt]
  exact UInt64.ofNat_toNat

theorem hdrLen_append (rest : List UInt8) : hdrLen (f.header ++ rest) = f.data.length := by
  have hshort := f.short
  exact UInt8.toNat_ofNat_of_lt' (by rw [UInt8.size]; omega)

theorem hdrId_header : hdrId f.header = f.id := by simpa using f.hdrId_append []

theorem hdrLen_header : hdrLen f.header = f.data.length := by simpa using f.hdrLen_append []

theorem length_flatMap_bytes (fs : List RingFrame) : (fs.flatMap bytes).length = total fs := by
  induction fs with
  | nil => rfl
  | cons f fs ih =>
    rw [flatMap_cons, length_append, ih, length_bytes, total, total, weight_cons]

end RingFrame

/-- The chunk is the frame. -/
structure LogChunk.Shows (chunk : LogChunk) (f : RingFrame) : Prop where
  id : chunk.id = f.id
  idx : chunk.idx = f.idx
  data : chunk.data.1 ++ chunk.data.2 = f.data

/-! ## Reading frames -/

section Read

variable {r : LogRing} {offset : Nat} {f : RingFrame} {fs : List RingFrame}

open LogRing (bufSize hdrId hdrLen hdrIdx)

/-- The frames `fs` lie in the buffer from `offset` on. -/
structure LogRing.At (r : LogRing) (offset : Nat) (fs : List RingFrame) : Prop where
  fits : RingFrame.total fs ≤ bufSize
  bytes : slice r.buf bufSize offset (RingFrame.total fs) = fs.flatMap RingFrame.bytes

namespace LogRing.At

theorem split (h : r.At offset (f :: fs)) :
    slice r.buf bufSize offset LogRing.headerSize = f.header ∧
      slice r.buf bufSize (offset + LogRing.headerSize) f.data.length = f.data ∧
      r.At (offset + f.size) fs := by
  have hbytes := h.bytes
  have hfits := h.fits
  rw [RingFrame.total, weight_cons] at hbytes
  rw [slice_add] at hbytes
  obtain ⟨hfirst, hrest⟩ := append_inj hbytes (by rw [length_slice, RingFrame.length_bytes])
  rw [RingFrame.size, slice_add] at hfirst
  obtain ⟨hheader, hdata⟩ := append_inj hfirst (by rw [length_slice, RingFrame.length_header])
  exact ⟨hheader, hdata, Nat.le_trans (Nat.le_add_left _ _) hfits, hrest⟩

theorem mod (h : r.At offset fs) : r.At (offset % bufSize) fs :=
  ⟨h.fits, (slice_mod _ _ _ _).trans h.bytes⟩

theorem readAt_header (h : r.At offset (f :: fs)) :
    r.readAt offset LogRing.headerSize = f.header := by
  rw [LogRing.readAt, read_eq_slice _ (Nat.mod_lt _ (by decide)) (by decide), slice_mod, h.split.1]

theorem next (h : r.At offset (f :: fs)) {n : Nat} :
    ∃ chunk : LogChunk, chunk.Shows f ∧ r.next { offset, remaining := n + 1 } =
      some (chunk, { offset := (offset + LogRing.headerSize + f.data.length) % bufSize
                     remaining := n }) := by
  obtain ⟨_, hdata, _⟩ := h.split
  have hlen : f.data.length ≤ bufSize := Nat.le_trans f.short (by decide)
  have hstart : (offset + LogRing.headerSize) % bufSize < bufSize := Nat.mod_lt _ (by decide)
  rw [LogRing.next]
  dsimp only
  rw [h.readAt_header, f.hdrLen_header, f.hdrId_header]
  refine ⟨_, ⟨rfl, rfl, ?_⟩, rfl⟩
  -- The two slices of the source are the two pieces of a read.
  rw [← Circle.slice_mod, ← Circle.read_eq_slice _ hstart hlen, Circle.read] at hdata
  refine Eq.trans ?_ hdata
  split
  next hend =>
    rw [Nat.min_eq_right (by omega), Nat.sub_self]
    rfl
  next hend => rw [Nat.min_eq_left (by omega)]

theorem collect (h : r.At offset fs) :
    Forall₂ LogChunk.Shows (r.collect (fs.length + 1) { offset, remaining := fs.length })
      fs := by
  induction fs generalizing offset with
  | nil => exact .nil
  | cons f fs ih =>
    obtain ⟨chunk, hshows, hnext⟩ := h.next (n := fs.length)
    rw [LogRing.collect, length_cons, hnext]
    refine .cons hshows (ih ?_)
    have hrest := h.split.2.2.mod
    rwa [RingFrame.size, ← Nat.add_assoc] at hrest

theorem chunks (h : r.At offset fs) {n : Nat} (hn : n = fs.length) :
    Forall₂ LogChunk.Shows (r.chunks { offset, remaining := n }) fs := by
  subst hn
  exact h.collect

end LogRing.At

/-- The frames after the last one of log `id`, and all frames if there is none or if `id`
is 0. -/
def framesSince (id : UInt64) (fs : List RingFrame) : List RingFrame :=
  if id = 0 then fs else fs.rtakeWhile fun f => f.id ≠ id

theorem framesSince_of_forall {id : UInt64} (h : ∀ f ∈ fs, f.id ≠ id) : framesSince id fs = fs := by
  rw [framesSince]
  split
  · rfl
  · exact rtakeWhile_eq_self_iff.mpr fun f hf => by simpa using h f hf

theorem framesSince_append {id : UInt64} (hid : id ≠ 0) (before : List RingFrame) (hf : f.id = id)
    (h : ∀ g ∈ fs, g.id ≠ id) : framesSince id (before ++ f :: fs) = fs := by
  have hall : ∀ g ∈ fs.reverse, decide (g.id ≠ id) = true := by
    intro g hg
    simpa using h g (mem_reverse.mp hg)
  rw [framesSince, if_neg hid, rtakeWhile, reverse_append, reverse_cons, append_assoc,
    takeWhile_append_of_pos hall]
  simp [hf]

theorem framesSince_suffix (id : UInt64) (fs : List RingFrame) : framesSince id fs <:+ fs := by
  rw [framesSince]
  split
  · exact suffix_refl _
  · exact rtakeWhile_suffix _ _

theorem framesSince_append_of_mem {id : UInt64} (hid : id ≠ 0) (before : List RingFrame)
    (h : ∃ f ∈ fs, f.id = id) : framesSince id (before ++ fs) = framesSince id fs := by
  have hnot : ¬ (fs.reverse.takeWhile fun f => f.id ≠ id).length = fs.reverse.length := by
    intro hlen
    obtain ⟨f, hf, hfid⟩ := h
    have hall := takeWhile_eq_self_iff.mp (List.IsPrefix.eq_of_length ( takeWhile_prefix _) hlen) f
      (mem_reverse.mpr hf)
    exact (by simpa using hall : f.id ≠ id) hfid
  rw [framesSince, framesSince, if_neg hid, if_neg hid, rtakeWhile, rtakeWhile, reverse_append,
    takeWhile_append, if_neg hnot]

theorem forall_of_framesSince_eq {id : UInt64} (hid : id ≠ 0) (h : framesSince id fs = fs) :
    ∀ f ∈ fs, f.id ≠ id := by
  rw [framesSince, if_neg hid, rtakeWhile_eq_self_iff] at h
  intro f hf
  simpa using h f hf

theorem LogRing.At.findSince (h : r.At offset fs) (id : UInt64) (found : Option Iter) :
    r.findSince id fs.length offset found = found ∧ (∀ f ∈ fs, f.id ≠ id) ∨
      ∃ before f s offset', fs = before ++ f :: s ∧ f.id = id ∧ (∀ g ∈ s, g.id ≠ id) ∧
        r.findSince id fs.length offset found = some { offset := offset', remaining := s.length } ∧
        r.At offset' s := by
  induction fs generalizing offset found with
  | nil => exact .inl ⟨rfl, fun _ hf => absurd hf not_mem_nil⟩
  | cons f fs ih =>
    have hrest := h.split.2.2.mod
    rw [length_cons, LogRing.findSince, h.readAt_header, f.hdrLen_header, f.hdrId_header]
    rw [RingFrame.size] at hrest
    rcases ih hrest (if f.id = id then some ⟨_, fs.length⟩ else found) with ⟨hnot, hall⟩ | hlater
    · by_cases hid : f.id = id
      · rw [if_pos hid] at hnot ⊢
        exact .inr ⟨[], f, fs, _, rfl, hid, hall, hnot, hrest⟩
      grind
    grind

end Read

/-! ## Keeping frames -/

section Hold

variable {r : LogRing} {f : RingFrame} {fs : List RingFrame}

open LogRing (bufSize)

/-- The ring holds the frames `fs`, the oldest first. -/
structure LogRing.Holds (r : LogRing) (fs : List RingFrame) : Prop where
  count : r.count = fs.length
  used : r.used = RingFrame.total fs
  frames : r.At r.head fs

namespace LogRing.Holds

theorem new : LogRing.new.Holds [] := ⟨rfl, rfl, Nat.zero_le _, rfl⟩

theorem iterSince (h : r.Holds fs) (id : UInt64) :
    ∃ offset, r.iterSince id = { offset, remaining := (framesSince id fs).length } ∧
      r.At offset (framesSince id fs) := by
  have hiter : r.iter = { offset := r.head, remaining := fs.length } := by
    rw [LogRing.iter, h.count]
  rw [LogRing.iterSince]
  by_cases hid : id = 0
  · rw [if_pos hid, framesSince, if_pos hid]
    exact ⟨r.head, hiter, h.frames⟩
  · rw [if_neg hid, h.count]
    rcases h.frames.findSince id none with
      ⟨hnone, hall⟩ | ⟨before, f, s, offset, rfl, hf, hs, hsome, hat⟩
    · rw [hnone, framesSince_of_forall hall]
      exact ⟨r.head, hiter, h.frames⟩
    · rw [hsome, framesSince_append hid before hf hs]
      exact ⟨offset, rfl, hat⟩

theorem chunks_iterSince (h : r.Holds fs) (id : UInt64) :
    Forall₂ LogChunk.Shows (r.chunks (r.iterSince id)) (framesSince id fs) := by
  obtain ⟨offset, hiter, hat⟩ := h.iterSince id
  rw [hiter]
  exact hat.chunks rfl

theorem evictOldest (h : r.Holds (f :: fs)) : r.evictOldest.Holds fs := by
  have hcount := h.count
  have hused := h.used
  rw [length_cons] at hcount
  rw [RingFrame.total, weight_cons] at hused
  have hrest := h.frames.split.2.2.mod
  rw [LogRing.evictOldest, if_neg (by omega), h.frames.readAt_header, f.hdrLen_header]
  refine ⟨?_, ?_, hrest.fits, hrest.bytes⟩
  · show r.count - 1 = fs.length
    omega
  · show r.used - f.size = RingFrame.total fs
    rw [RingFrame.total]
    omega

theorem makeRoom (h : r.Holds fs) {need : Nat} (hneed : need ≤ bufSize) :
    ∃ r', LogRing.makeRoom need fs.length r = some r' ∧
      r'.Holds (Window.room RingFrame.size bufSize need fs) := by
  induction fs generalizing r with
  | nil =>
    refine ⟨r, ?_, h⟩
    have hused : r.used = 0 := h.used
    rw [length_nil, LogRing.makeRoom, if_neg (by omega)]
  | cons f fs ih =>
    rw [length_cons, LogRing.makeRoom, h.used, room, ← RingFrame.total]
    split
    · exact ih h.evictOldest
    · exact ⟨r, rfl, h⟩

/-- A frame written behind the others. -/
theorem append (h : r.Holds fs) (hfit : RingFrame.total fs + f.size ≤ bufSize) :
    LogRing.Holds { (r.writeAt ((r.head + r.used) % bufSize) f.header).writeAt
        (((r.head + r.used) % bufSize + LogRing.headerSize) % bufSize) f.data with
      used := r.used + f.size, count := r.count + 1 } (fs ++ [f]) := by
  have htotal : RingFrame.total (fs ++ [f]) =
      RingFrame.total fs + (LogRing.headerSize + f.data.length) := by
    simp [RingFrame.total, RingFrame.size]
  have hsize : f.size = LogRing.headerSize + f.data.length := rfl
  have hlen := f.length_header
  have hdata : ((r.head + RingFrame.total fs) % bufSize + LogRing.headerSize) % bufSize =
      (r.head + (RingFrame.total fs + LogRing.headerSize)) % bufSize := by
    rw [Nat.mod_add_mod, Nat.add_assoc]
  refine ⟨?_, ?_, ?_, ?_⟩
  · simp [h.count]
  · rw [htotal, h.used, hsize]
  · omega
  · dsimp only [LogRing.writeAt]
    rw [h.used, hdata, Nat.mod_mod, Nat.mod_mod, htotal, slice_add, slice_add, flatMap_append,
      flatMap_singleton]
    -- the frames that were there, the new header and the new data
    congr 1
    · rw [slice_write_behind _ (by omega) (by omega),
        slice_write_behind _ (Nat.le_refl _) (by omega), h.frames.bytes]
    congr 1
    · rw [slice_write_of_le _ (by omega) (by omega), ← slice_mod]
      exact slice_write _ (Nat.mod_lt _ (by decide)) (by omega)
    · rw [← slice_mod]
      exact slice_write _ (Nat.mod_lt _ (by decide)) (by omega)

theorem push (h : r.Holds fs) (id : UInt64) (idx : UInt8) (data : List UInt8) :
    ∃ r', r.push id idx data = some r' ∧ r'.Holds
      (Window.room RingFrame.size bufSize (RingFrame.cut id idx data).size fs ++
        [RingFrame.cut id idx data]) := by
  have hlen : (RingFrame.cut id idx data).data.length = min data.length 255 := by
    rw [RingFrame.cut, length_take, Nat.min_comm]
  have hsize : LogRing.headerSize + min data.length 255 = (RingFrame.cut id idx data).size := by
    rw [RingFrame.size, hlen]
  have hdata : data.take (min data.length 255) = (RingFrame.cut id idx data).data := by
    rw [Nat.min_comm, ← take_take, take_length]
    rfl
  have hle := (RingFrame.cut id idx data).size_le
  obtain ⟨r₁, hroom, hr₁⟩ := h.makeRoom hle
  have hfit := weight_room_le (w := RingFrame.size) hle fs
  refine ⟨_, ?_, hr₁.append hfit⟩
  rw [LogRing.push, hsize, if_neg (Nat.not_lt.mpr hle), h.count, hroom, hdata, ← hlen]
  rfl

end LogRing.Holds

end Hold

/-! ## Whole runs -/

/-- The arguments of a `push`. -/
structure Push where
  id : UInt64
  idx : UInt8
  data : List UInt8

def Push.frame (p : Push) : RingFrame := .cut p.id p.idx p.data

def LogRing.pushAll (r : LogRing) (ps : List Push) : Option LogRing :=
  ps.foldlM (fun r p => r.push p.id p.idx p.data) r

theorem LogRing.Holds.pushAll {r : LogRing} {pushed fs : List RingFrame} (h : r.Holds fs)
    (hfs : Window.Longest RingFrame.size LogRing.bufSize pushed fs) (ps : List Push) :
    ∃ r' fs', r.pushAll ps = some r' ∧ r'.Holds fs' ∧
      Window.Longest RingFrame.size LogRing.bufSize (pushed ++ ps.map Push.frame) fs' := by
  induction ps generalizing r pushed fs with
  | nil => exact ⟨r, fs, rfl, h, by simpa using hfs⟩
  | cons p ps ih =>
    obtain ⟨r₁, hpush, hr₁⟩ := h.push p.id p.idx p.data
    obtain ⟨r', fs', hrun, hr', hfs'⟩ := ih hr₁ (hfs.snoc (RingFrame.size_le p.frame))
    grind [LogRing.pushAll, Push.frame]

/-- Whatever is pushed, no push loops, and the ring shows the longest suffix of the pushed
frames that fits, whole or from behind the last frame of a log on. -/
theorem ring_shows_longest_suffix (ps : List Push) :
    ∃ r fs, LogRing.new.pushAll ps = some r ∧
      Window.Longest RingFrame.size LogRing.bufSize (ps.map Push.frame) fs ∧
      List.Forall₂ LogChunk.Shows (r.chunks r.iter) fs ∧
      ∀ id, List.Forall₂ LogChunk.Shows (r.chunks (r.iterSince id)) (framesSince id fs) := by
  obtain ⟨r, fs, hrun, hr, hfs⟩ := LogRing.Holds.new.pushAll longest_nil ps
  exact ⟨r, fs, hrun, hfs, hr.frames.chunks hr.count, hr.chunks_iterSince⟩

end Rcard.Log
