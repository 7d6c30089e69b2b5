/-
A log sink that polls the ring (`consume_since` in `sysmodule/log/src/server.rs`, and the
drain loops of `sysmodule/log_sink_storage` and `sysmodule/log_sink_usb`).

A sink asks for everything after the log id it saw last.  The ring answers with the frames
behind the last frame of that log.  All fragments of a stream have one log id, so a fragment
of the same stream that came in between is taken for seen, and so is what lies before it.

Calls of the log task and polls of one sink come in any order.  `pushed` and `next` are
ghosts: every frame pushed so far, and the number of frames up to the last one the sink got.
-/
import Rcard.Log.Device
import Rcard.Log.Ring

namespace Rcard.Log

open List RingFrame

open LogRing (bufSize hdrId hdrLen)

/-! ## The log task's side -/

/-- The entries of `consume_since` that fit a buffer of `bufLen` bytes, `offset` bytes of it
in use. -/
def fillBuf (bufLen : Nat) : (offset : Nat) → List LogChunk → List UInt8
  | _, [] => []
  | offset, chunk :: chunks =>
    let dataLen := chunk.data.1.length + chunk.data.2.length
    let entrySize := LogRing.headerSize + dataLen
    if offset + entrySize > bufLen then []
    else
      leBytes 8 chunk.id.toNat ++ [UInt8.ofNat dataLen, chunk.idx] ++ chunk.data.1 ++
        chunk.data.2 ++ fillBuf bufLen (offset + entrySize) chunks

def consumeSince (ring : LogRing) (sinceId : UInt64) (bufLen : Nat) : List UInt8 :=
  fillBuf bufLen 0 (ring.chunks (ring.iterSince sinceId))

def Action.pushTo (ring : LogRing) : Action → Option LogRing
  | .sendFrame _ _ => some ring
  | .push logId idx data => ring.push logId idx data

def Action.frames : Action → List RingFrame
  | .sendFrame _ _ => []
  | .push logId idx data => [.cut logId idx data]

/-! ## The sink's side -/

/-- The entries in what `consume_since` returned, with their ids. -/
def entries : (fuel : Nat) → List UInt8 → List (UInt64 × List UInt8)
  | 0, _ => []
  | fuel + 1, buf =>
    if buf.length < LogRing.headerSize then []
    else
      let size := LogRing.headerSize + hdrLen buf
      if buf.length < size then []
      else (hdrId buf, buf.take size) :: entries fuel (buf.drop size)

structure Sink where
  /-- `LAST_ID`. -/
  last : UInt64
  got : List (List UInt8)

def Sink.take (sink : Sink) (entry : UInt64 × List UInt8) : Sink :=
  { last := entry.1, got := sink.got ++ [entry.2] }

/-! ## Both -/

structure Feed where
  device : Device
  ring : LogRing
  sink : Sink
  pushed : List RingFrame
  next : Nat

def Feed.new : Feed :=
  { device := .new, ring := .new, sink := { last := 0, got := [] }, pushed := [], next := 0 }

inductive FeedEvent where
  | op (o : Op)
  /-- One call of `consume_since` by the sink. -/
  | poll

/-- What the sink's next call would return. -/
def Feed.answer (cap : Nat) (w : Feed) : List UInt8 := consumeSince w.ring w.sink.last cap

def Feed.poll (cap : Nat) (w : Feed) : Feed :=
  let buf := w.answer cap
  let es := entries buf.length buf
  let remaining := (w.ring.iterSince w.sink.last).remaining
  { w with
    sink := es.foldl Sink.take w.sink
    next := if es = [] then w.next else w.pushed.length - remaining + es.length }

def Feed.step (cap : Nat) (w : Feed) : FeedEvent → Option Feed
  | .op o => do
      let (device, actions) := w.device.step o
      let ring ← actions.foldlM Action.pushTo w.ring
      return { w with device, ring, pushed := w.pushed ++ actions.flatMap Action.frames }
  | .poll => some (w.poll cap)

def Feed.run (cap : Nat) (w : Feed) (es : List FeedEvent) : Option Feed :=
  es.foldlM (Feed.step cap) w

/-- The states in which the events of a run happen, and the last one. -/
def Feed.states (cap : Nat) : Feed → List FeedEvent → List Feed
  | w, [] => [w]
  | w, e :: es => w :: ((w.step cap e).map fun w' => w'.states cap es).getD []

/-- The states in which the sink calls. -/
def Feed.polled (cap : Nat) : Feed → List FeedEvent → List Feed
  | _, [] => []
  | w, .op o :: es => ((w.step cap (.op o)).map fun w' => w'.polled cap es).getD []
  | w, .poll :: es => w :: (w.poll cap).polled cap es

/-- Only frames up to the last one fetched were evicted. -/
def Feed.Kept (w : Feed) : Prop := w.pushed.length - w.ring.count ≤ w.next

/-- No frame after the last one fetched has its log id. -/
def Feed.Resumable (w : Feed) : Prop := ∀ f ∈ w.pushed.drop w.next, f.id ≠ w.sink.last

instance (w : Feed) : Decidable w.Kept := inferInstanceAs (Decidable (_ ≤ _))

instance (w : Feed) : Decidable w.Resumable := inferInstanceAs (Decidable (∀ _ ∈ _, _))

/-! ## Entries -/

section Entries

variable {cap : Nat} {fs : List RingFrame}

/-- The frames that fit, up to the first that does not. -/
def fitting (cap : Nat) : (offset : Nat) → List RingFrame → List RingFrame
  | _, [] => []
  | offset, f :: fs =>
    if offset + f.size > cap then [] else f :: fitting cap (offset + f.size) fs

theorem fitting_isPrefix (cap offset : Nat) (fs : List RingFrame) :
    fitting cap offset fs <+: fs := by
  induction fs generalizing offset with
  | nil => exact prefix_refl _
  | cons f fs ih =>
    grind [fitting]

theorem fitting_ne_nil (hfs : fs ≠ []) (hsize : ∀ f ∈ fs, f.size ≤ cap) :
    fitting cap 0 fs ≠ [] := by
  cases fs with
  | nil => exact absurd rfl hfs
  | cons f fs =>
    grind [fitting]

theorem fillBuf_eq {chunks : List LogChunk} (h : Forall₂ LogChunk.Shows chunks fs)
    (offset : Nat) :
    fillBuf cap offset chunks = (fitting cap offset fs).flatMap bytes := by
  induction h generalizing offset with
  | nil => rfl
  | @cons chunk f chunks fs hshows _ ih =>
    have hlen : chunk.data.1.length + chunk.data.2.length = f.data.length := by
      rw [← length_append, hshows.data]
    rw [fillBuf, fitting, hlen, ← size]
    split
    · rfl
    · rw [ih, flatMap_cons, hshows.id, hshows.idx, bytes, header, ← hshows.data]
      simp only [append_assoc]

theorem length_le_flatMap (fs : List RingFrame) : fs.length ≤ (fs.flatMap bytes).length := by
  rw [length_flatMap_bytes]
  induction fs with
  | nil => exact Nat.zero_le _
  | cons f fs ih =>
    rw [total, Window.weight_cons, size, LogRing.headerSize, length_cons]
    rw [total] at ih
    omega

theorem entries_flatMap (fs : List RingFrame) {fuel : Nat} (hfuel : fs.length ≤ fuel) :
    entries fuel (fs.flatMap bytes) = fs.map fun f => (f.id, f.bytes) := by
  induction fs generalizing fuel with
  | nil =>
    cases fuel with
    | zero => rfl
    | succ fuel => rfl
  | cons f fs ih =>
    rw [length_cons] at hfuel
    obtain ⟨fuel, rfl⟩ := Nat.exists_eq_add_one_of_ne_zero (show fuel ≠ 0 by omega)
    have hsplit : (f :: fs).flatMap bytes = f.header ++ (f.data ++ fs.flatMap bytes) := by
      rw [flatMap_cons, bytes, append_assoc]
    have hlen : ((f :: fs).flatMap bytes).length =
        LogRing.headerSize + f.data.length + (fs.flatMap bytes).length := by
      rw [flatMap_cons, length_append, length_bytes, size]
    have hid : hdrId ((f :: fs).flatMap bytes) = f.id := by rw [hsplit, f.hdrId_append]
    have hdata : hdrLen ((f :: fs).flatMap bytes) = f.data.length := by
      rw [hsplit, f.hdrLen_append]
    rw [entries, if_neg (by omega), hdata, hid]
    rw [if_neg (by omega), flatMap_cons, ← size, take_left' f.length_bytes,
      drop_left' f.length_bytes, ih (by omega), map_cons]

variable {w : Feed} {R : List RingFrame}

theorem answer_eq (h : w.ring.Holds R) :
    w.answer cap = (fitting cap 0 (framesSince w.sink.last R)).flatMap bytes :=
  fillBuf_eq (h.chunks_iterSince _) 0

theorem foldl_take (sink : Sink) (fs : List RingFrame) :
    (fs.map fun f => (f.id, f.bytes)).foldl Sink.take sink =
      { last := (fs.getLast?.map RingFrame.id).getD sink.last
        got := sink.got ++ fs.map bytes } := by
  induction fs generalizing sink with
  | nil => simp
  | cons f fs ih =>
    grind [Sink.take]

/-- What a call does, in terms of frames. -/
theorem poll_eq (h : w.ring.Holds R) : w.poll cap = { w with
      sink := { last := ((fitting cap 0 (framesSince w.sink.last R)).getLast?.map RingFrame.id).getD
                  w.sink.last
                got := w.sink.got ++
                  (fitting cap 0 (framesSince w.sink.last R)).map bytes }
      next := if fitting cap 0 (framesSince w.sink.last R) = [] then w.next
        else w.pushed.length - (framesSince w.sink.last R).length +
          (fitting cap 0 (framesSince w.sink.last R)).length } := by
  obtain ⟨offset, hiter, _⟩ := h.iterSince w.sink.last
  rw [Feed.poll, answer_eq h, entries_flatMap _ (length_le_flatMap _), foldl_take, hiter]
  simp only [map_eq_nil_iff, length_map]

end Entries

/-! ## Log ids -/

section Ids

variable {d : Device} {n : Nat}

def FeedEvent.begins : FeedEvent → Bool
  | op o => o.begins
  | poll => false

/-- Header, metadata, inline data and end tag. -/
def maxFragment : Nat := LogRing.headerSize + (metadataSize + maxInlineLogSize + 1)

/-- Log ids and stream ids are given out together. -/
structure Device.SameIds (d : Device) : Prop where
  next : d.state.nextLogId = d.state.nextStreamId
  same : ∀ h res, d.resources h = some res → res.metadata.logId = res.streamId

theorem Device.SameIds.step (h : d.SameIds) (op : Op) : (d.step op).1.SameIds := by
  have hnext : d.state.nextLogId + 1 = d.state.nextStreamId + 1 := by rw [h.next]
  cases op with
  | log head data => exact ⟨hnext, h.same⟩
  | start head =>
    refine ⟨hnext, forall_update h.same ?_⟩
    intro res hres
    cases hres
    exact h.next
  | write handle data =>
    rw [Device.step]
    cases hres : d.resources handle with
    | none => exact h
    | some res =>
      refine ⟨h.next, forall_update h.same ?_⟩
      intro res' hres'
      cases hres'
      exact h.same handle res hres
  | drop handle =>
    rw [Device.step]
    cases hres : d.resources handle with
    | none => exact h
    | some res =>
      refine ⟨h.next, forall_update h.same ?_⟩
      intro res' hres'
      cases hres'

theorem ofNat_add_one_ne_zero {k : Nat} (hk : k + 1 < 2 ^ 64) : UInt64.ofNat (k + 1) ≠ 0 := by
  intro h
  have htoNat := congrArg UInt64.toNat h
  rw [UInt64.toNat_ofNat', Nat.mod_eq_of_lt hk] at htoNat
  exact Nat.succ_ne_zero k htoNat

theorem size_cut_le {id : UInt64} {idx : UInt8} {data : List UInt8}
    (h : data.length ≤ metadataSize + maxInlineLogSize + 1) :
    (cut id idx data).size ≤ maxFragment := by
  grind [size, cut, maxFragment]

/-- What every pushed frame satisfies. -/
structure RingFrame.Fragment (f : RingFrame) : Prop where
  size : f.size ≤ maxFragment
  id : f.id ≠ 0

theorem fragment_step (hd : d.Numbered n) (hs : d.SameIds) {op : Op}
    (hlogs : (n + if op.begins then 1 else 0) < 2 ^ 64) :
    ∀ f ∈ (d.step op).2.flatMap Action.frames, f.Fragment := by
  have hnew : op.begins → d.state.nextLogId ≠ 0 := by
    intro hop
    rw [if_pos hop] at hlogs
    rw [hs.next, hd.next]
    exact ofNat_add_one_ne_zero hlogs
  have hold : ∀ h res, d.resources h = some res → res.metadata.logId ≠ 0 := by
    intro h res hres
    obtain ⟨k, hk, hid⟩ := hd.before h res hres
    rw [hs.same h res hres, hid]
    exact ofNat_add_one_ne_zero (by omega)
  have hinline : ∀ data : List UInt8, (data.take maxInlineLogSize).length ≤ maxInlineLogSize :=
    fun data => length_take_le _ _
  intro f hf
  cases op with
  | log head data =>
    obtain rfl : f = _ := mem_singleton.mp hf
    refine ⟨size_cut_le ?_, hnew rfl⟩
    have := hinline data
    rw [length_append, length_append]
    exact Nat.add_le_add_right (Nat.add_le_add_left this metadataSize) 1
  | start head =>
    obtain rfl : f = _ := mem_singleton.mp hf
    refine ⟨size_cut_le ?_, hnew rfl⟩
    rw [length_asBytes]
    omega
  | write handle data =>
    rw [Device.step] at hf
    cases hres : d.resources handle with
    | none =>
      rw [hres] at hf
      exact absurd hf not_mem_nil
    | some res =>
      rw [hres] at hf
      obtain rfl : f = _ := mem_singleton.mp hf
      have := hinline data
      exact ⟨size_cut_le (by omega), hold handle res hres⟩
  | drop handle =>
    rw [Device.step] at hf
    cases hres : d.resources handle with
    | none =>
      rw [hres] at hf
      exact absurd hf not_mem_nil
    | some res =>
      rw [hres] at hf
      obtain rfl : f = _ := mem_singleton.mp hf
      exact ⟨size_cut_le (by simp), hold handle res hres⟩

theorem pushTo_actions {ring : LogRing} {pushed R : List RingFrame} (h : ring.Holds R)
    (hR : R <:+ pushed) (actions : List Action) :
    ∃ ring' R', actions.foldlM Action.pushTo ring = some ring' ∧ ring'.Holds R' ∧
      R' <:+ pushed ++ actions.flatMap Action.frames := by
  induction actions generalizing ring pushed R with
  | nil => exact ⟨ring, R, rfl, h, by simpa using hR⟩
  | cons action actions ih =>
    cases action with
    | sendFrame id data => exact ih h hR
    | push id idx data =>
      obtain ⟨ring₁, hpush, h₁⟩ := h.push id idx data
      obtain ⟨ring', R', hrun, hring', hR'⟩ := ih h₁
        (Window.suffix_snoc_iff.mpr ((Window.room_suffix _ R).trans hR))
      grind [Action.pushTo, Action.frames]

end Ids

/-! ## Where a poll resumes -/

section Track

variable {cap n : Nat} {w : Feed} {R : List RingFrame}

/-- The ring holds the frames `R`, the newest of those pushed, and the sink's id is the id
of the last frame it got. -/
structure Feed.Tracks (n : Nat) (w : Feed) (R : List RingFrame) : Prop where
  numbered : w.device.Numbered n
  sameIds : w.device.SameIds
  holds : w.ring.Holds R
  suffix : R <:+ w.pushed
  fragments : ∀ f ∈ w.pushed, f.Fragment
  next_le : w.next ≤ w.pushed.length
  last : w.sink.last = ((w.pushed.take w.next).getLast?.map RingFrame.id).getD 0
  got_le : w.sink.got.length ≤ w.next

/-- What the ring has behind the sink's id. -/
def Feed.since (w : Feed) (R : List RingFrame) : List RingFrame := framesSince w.sink.last R

namespace Feed.Tracks

theorem new : Feed.new.Tracks 0 [] where
  numbered := ⟨rfl, nofun⟩
  sameIds := ⟨rfl, nofun⟩
  holds := .new
  suffix := suffix_refl _
  fragments := fun _ hf => absurd hf not_mem_nil
  next_le := Nat.le_refl _
  last := rfl
  got_le := Nat.le_refl _

section

variable (h : w.Tracks n R)
include h

variable (hkept : w.Kept)
include hkept

theorem drop_suffix : w.pushed.drop w.next <:+ R := by
  obtain ⟨evicted, hevicted⟩ := h.suffix
  have hlen := congrArg length hevicted
  rw [Feed.Kept, h.holds.count] at hkept
  rw [length_append] at hlen
  rw [← hevicted, drop_append, drop_eq_nil_of_le (by omega), nil_append]
  exact drop_suffix _ _

theorem since_of_resumable (hres : w.Resumable) : w.since R = w.pushed.drop w.next := by
  obtain ⟨s, hs⟩ := h.drop_suffix hkept
  rw [← hs]
  rcases eq_nil_or_concat' s with rfl | ⟨s, f, rfl⟩
  · exact framesSince_of_forall hres
  · -- The frame before the next one is the last one fetched.
    have htake : s ++ [f] <:+ w.pushed.take w.next := by
      have hsuffix := h.suffix
      rw [← hs, ← take_append_drop w.next w.pushed] at hsuffix
      obtain ⟨t, ht⟩ := hsuffix
      rw [← append_assoc] at ht
      exact ⟨t, (append_inj' ht (by simp)).1⟩
    obtain ⟨t, ht⟩ := htake
    have hlast : w.sink.last = f.id := by
      rw [h.last, ← ht, ← append_assoc, getLast?_concat]
      rfl
    have hmem : f ∈ t ++ (s ++ [f]) := by simp
    have hf : f ∈ w.pushed := mem_of_mem_take (ht ▸ hmem)
    rw [append_assoc]
    exact framesSince_append (hlast ▸ (h.fragments f hf).id) s hlast.symm hres

theorem since_of_not_resumable (hres : ¬ w.Resumable) :
    ∃ s, w.since R = w.pushed.drop s ∧ w.next < s ∧ s ≤ w.pushed.length := by
  obtain ⟨t, ht⟩ := h.drop_suffix hkept
  simp only [Feed.Resumable, not_forall, not_not] at hres
  obtain ⟨f, hf, hid⟩ := hres
  have hlast : w.sink.last ≠ 0 := hid ▸ (h.fragments f (List.mem_of_mem_drop hf)).id
  have hsince : w.since R = framesSince w.sink.last (w.pushed.drop w.next) := by
    rw [Feed.since, ← ht, framesSince_append_of_mem hlast t ⟨f, hf, hid⟩]
  have hsuffix := framesSince_suffix w.sink.last (w.pushed.drop w.next)
  have hlen := hsuffix.length_le
  have hlt : (framesSince w.sink.last (w.pushed.drop w.next)).length ≠
      (w.pushed.drop w.next).length := fun heq =>
    forall_of_framesSince_eq hlast (hsuffix.eq_of_length heq) f hf hid
  rw [List.length_drop] at hlen hlt
  refine ⟨_, hsince.trans (List.suffix_iff_eq_drop.mp (hsuffix.trans (List.drop_suffix _ _))),
    ?_, ?_⟩
  · omega
  · exact Nat.sub_le _ _

/-- A call gets frames from the one after the last fetched on, or from a later one. -/
theorem since_eq :
    ∃ s, w.since R = w.pushed.drop s ∧ w.next ≤ s ∧ s ≤ w.pushed.length ∧
      (s = w.next ↔ w.Resumable) := by
  by_cases hres : w.Resumable
  · exact ⟨w.next, h.since_of_resumable hkept hres, Nat.le_refl _, h.next_le,
      fun _ => hres, fun _ => rfl⟩
  · obtain ⟨s, hs, hlt, hle⟩ := h.since_of_not_resumable hkept hres
    grind

end

/-! ## One event -/

/-- All a call can do: nothing, or fetch the frames `fetched` that begin at `s`. -/
theorem poll_cases (cap : Nat) (h : w.Tracks n R) (hkept : w.Kept) :
    w.poll cap = w ∨ ∃ s fetched, w.next ≤ s ∧ (s = w.next ↔ w.Resumable) ∧ fetched ≠ [] ∧
      w.pushed.take (s + fetched.length) = w.pushed.take s ++ fetched ∧
      s + fetched.length ≤ w.pushed.length ∧
      w.poll cap = { w with
        sink := { last := (fetched.getLast?.map RingFrame.id).getD w.sink.last
                  got := w.sink.got ++ fetched.map bytes }
        next := s + fetched.length } := by
  obtain ⟨s, hs, hnext, hle, hiff⟩ := h.since_eq hkept
  obtain ⟨rest, hrest⟩ := fitting_isPrefix cap 0 (w.since R)
  have hlen := congrArg length hrest
  have hsince : (w.since R).length = w.pushed.length - s := by rw [hs, length_drop]
  rw [length_append] at hlen
  rw [poll_eq h.holds, ← Feed.since]
  by_cases hnil : fitting cap 0 (w.since R) = []
  · rw [hnil]
    exact .inl (by simp)
  · have hcount : w.pushed.length - (w.since R).length = s := by omega
    refine .inr ⟨s, _, hnext, hiff, hnil, ?_, by omega, by rw [if_neg hnil, hcount]⟩
    grind

theorem poll (h : w.Tracks n R) (hkept : w.Kept) : (w.poll cap).Tracks n R := by
  obtain heq | ⟨s, fetched, hnext, _, hne, htake, hle, heq⟩ := h.poll_cases cap hkept
  · rwa [heq]
  · have hgot := h.got_le
    rw [heq]
    refine ⟨h.numbered, h.sameIds, h.holds, h.suffix, h.fragments, hle, ?_, ?_⟩
    · obtain ⟨front, f, rfl⟩ := (eq_nil_or_concat' fetched).resolve_left hne
      grind
    · dsimp only
      rw [length_append, length_map]
      omega

theorem op (cap : Nat) (h : w.Tracks n R) {o : Op}
    (hlogs : (n + if o.begins then 1 else 0) < 2 ^ 64) :
    ∃ w' R', w.step cap (.op o) = some w' ∧ w'.Tracks (n + if o.begins then 1 else 0) R' ∧
      w'.sink = w.sink ∧ w'.next = w.next ∧ w.pushed <+: w'.pushed := by
  obtain ⟨ring, R', hrun, hring, hR'⟩ := pushTo_actions h.holds h.suffix (w.device.step o).2
  let w' : Feed := { w with device := (w.device.step o).1, ring
                            pushed := w.pushed ++ (w.device.step o).2.flatMap Action.frames }
  have hstep : w.step cap (.op o) = some w' := by grind [step]
  refine ⟨w', R', hstep, ⟨h.numbered.step o, h.sameIds.step o, hring, hR', ?_, ?_, ?_, h.got_le⟩,
    rfl, rfl, prefix_append _ _⟩
  · exact forall_mem_append.mpr ⟨h.fragments, fragment_step h.numbered h.sameIds hlogs⟩
  · show w.next ≤ (w.pushed ++ _).length
    rw [length_append]
    exact Nat.le_add_right_of_le h.next_le
  · show w.sink.last = (((w.pushed ++ _).take w.next).getLast?.map RingFrame.id).getD 0
    rw [take_append_of_le_length h.next_le]
    exact h.last

end Feed.Tracks

/-- The sink has the frames up to the last one fetched. -/
def Feed.Clean (w : Feed) : Prop := w.sink.got = (w.pushed.take w.next).map bytes

/-- A frame was passed over, or the next call that fetches passes one over. -/
def Feed.Gap (w : Feed) : Prop := w.sink.got.length < w.next ∨ ¬ w.Resumable

theorem Feed.Clean.poll (h : w.Tracks n R) (hkept : w.Kept) (hclean : w.Clean)
    (hres : w.Resumable) : (w.poll cap).Clean := by
  obtain heq | ⟨s, fetched, _, hiff, _, htake, _, heq⟩ := h.poll_cases cap hkept
  · rwa [heq]
  grind [Clean]

theorem Feed.Gap.poll (h : w.Tracks n R) (hkept : w.Kept) (hgap : w.Gap) : (w.poll cap).Gap := by
  obtain heq | ⟨s, fetched, hnext, hiff, _, _, _, heq⟩ := h.poll_cases cap hkept
  · rwa [heq]
  · have hgot := h.got_le
    grind [Gap]

variable {w' : Feed}

theorem Feed.Clean.op (h : w.Tracks n R) (hclean : w.Clean) (hsink : w'.sink = w.sink)
    (hnext : w'.next = w.next) (hpushed : w.pushed <+: w'.pushed) : w'.Clean := by
  obtain ⟨new, hnew⟩ := hpushed
  rw [Feed.Clean, hsink, hnext, ← hnew, take_append_of_le_length h.next_le]
  exact hclean

theorem Feed.Gap.op (h : w.Tracks n R) (hgap : w.Gap) (hsink : w'.sink = w.sink)
    (hnext : w'.next = w.next) (hpushed : w.pushed <+: w'.pushed) : w'.Gap := by
  obtain ⟨new, hnew⟩ := hpushed
  rw [Feed.Gap, Feed.Resumable, hsink, hnext, ← hnew, drop_append_of_le_length h.next_le]
  refine hgap.imp id (mt ?_)
  intro hall f hf
  exact hall f (mem_append_left _ hf)

/-! ## Whole runs -/

theorem Feed.Tracks.run (h : w.Tracks n R) {es : List FeedEvent}
    (hlogs : n + es.countP FeedEvent.begins < 2 ^ 64) (hkept : ∀ v ∈ w.states cap es, v.Kept) :
    ∃ w' n' R', w.run cap es = some w' ∧ w'.Tracks n' R' ∧ w'.Kept ∧
      (w.Clean → (∀ v ∈ w.polled cap es, v.Resumable) → w'.Clean) ∧
      (w.Gap ∨ (∃ v ∈ w.polled cap es, ¬ v.Resumable) → w'.Gap) := by
  induction es generalizing w n R with
  | nil =>
    refine ⟨w, n, R, rfl, h, hkept w mem_cons_self, fun hclean _ => hclean, ?_⟩
    rintro (hgap | ⟨v, hv, _⟩)
    · exact hgap
    · exact absurd hv not_mem_nil
  | cons e es ih =>
    rw [countP_cons] at hlogs
    obtain ⟨hw, hrest⟩ := forall_mem_cons.mp hkept
    cases e with
    | op o =>
      obtain ⟨w₁, R₁, hstep, h₁, hsink, hnext, hpushed⟩ :=
        h.op cap (o := o) (by rw [FeedEvent.begins] at hlogs; omega)
      rw [hstep] at hrest
      obtain ⟨w', n', R', hrun, h', hkept', hclean, hgap⟩ := ih h₁
        (by rw [FeedEvent.begins] at hlogs; omega) hrest
      refine ⟨w', n', R', ?_, h', hkept', ?_, ?_⟩
      · rw [Feed.run, foldlM_cons, hstep]
        exact hrun
      · intro hw hres
        rw [Feed.polled, hstep] at hres
        exact hclean (hw.op h hsink hnext hpushed) hres
      · intro hbad
        rw [Feed.polled, hstep] at hbad
        exact hgap (hbad.imp_left fun hw => hw.op h hsink hnext hpushed)
    | poll =>
      obtain ⟨w', n', R', hrun, h', hkept', hclean, hgap⟩ := ih (h.poll hw) (by omega) hrest
      refine ⟨w', n', R', hrun, h', hkept', ?_, ?_⟩
      · intro hcl hres
        obtain ⟨hres, hres'⟩ := forall_mem_cons.mp hres
        exact hclean (hcl.poll h hw hres) hres'
      · rintro (hgap' | ⟨v, hv, hres⟩)
        · exact hgap (.inl (hgap'.poll h hw))
        · rcases mem_cons.mp hv with rfl | hv
          · exact hgap (.inl (Feed.Gap.poll h hw (.inr hres)))
          · exact hgap (.inr ⟨v, hv, hres⟩)

theorem Feed.polled_snoc {es : List FeedEvent} (hrun : w.run cap es = some w') :
    w.polled cap (es ++ [.poll]) = w.polled cap es ++ [w'] := by
  induction es generalizing w with
  | nil =>
    cases hrun
    rfl
  | cons e es ih =>
    cases e with
    | op o =>
      obtain ⟨w₁, hstep, hrun⟩ := Option.bind_eq_some_iff.mp hrun
      rw [cons_append, Feed.polled, Feed.polled, hstep]
      exact ih hrun
    | poll =>
      exact congrArg _ (ih hrun)

theorem Feed.Tracks.since_eq_nil (h : w.Tracks n R) (hcap : maxFragment ≤ cap)
    (hanswer : w.answer cap = []) : w.since R = [] := by
  rw [answer_eq h.holds, ← Feed.since] at hanswer
  by_contra hne
  have hsize : ∀ f ∈ w.since R, f.size ≤ cap := fun f hf =>
    Nat.le_trans (h.fragments f (((framesSince_suffix _ _).trans h.suffix).mem hf)).size hcap
  have hlen := length_le_flatMap (fitting cap 0 (w.since R))
  rw [hanswer, length_nil, Nat.le_zero, length_eq_zero_iff] at hlen
  exact fitting_ne_nil hne hsize hlen

/-- Let the log task and a sink run in any order, the ring evict nothing the sink has yet to
fetch, and the sink stop when there is nothing more for it.  Then it got every fragment once
and in order exactly when, at each of its calls, no fragment after the last one fetched
belongs to that one's log.  The last call is the one that found nothing. -/
theorem sink_exact_iff {cap : Nat} (hcap : maxFragment ≤ cap) {es : List FeedEvent}
    (hlogs : es.countP FeedEvent.begins < 2 ^ 64) (hkept : ∀ w ∈ Feed.new.states cap es, w.Kept) :
    ∃ w, Feed.new.run cap es = some w ∧ (w.answer cap = [] →
      (w.sink.got = w.pushed.map RingFrame.bytes ↔
        ∀ v ∈ Feed.new.polled cap (es ++ [.poll]), v.Resumable)) := by
  obtain ⟨w, n, R, hrun, h, hkept', hclean, hgap⟩ := Feed.Tracks.new.run
    (by rwa [Nat.zero_add]) hkept
  refine ⟨w, hrun, fun hanswer => ⟨fun hexact => ?_, fun hres => ?_⟩⟩
  · by_contra hnot
    have hw : w.Gap := by
      simp only [not_forall, Feed.polled_snoc hrun] at hnot
      obtain ⟨v, hv, hbad⟩ := hnot
      rcases mem_append.mp hv with hv | hv
      · exact hgap (.inr ⟨v, hv, hbad⟩)
      · cases mem_singleton.mp hv
        exact .inr hbad
    have hlen := congrArg length hexact
    have hgot := h.got_le
    have hnext := h.next_le
    rw [length_map] at hlen
    rcases hw with hlt | hbad
    · omega
    · refine hbad fun f hf => absurd hf ?_
      rw [drop_eq_nil_of_le (by omega)]
      exact not_mem_nil
  · rw [Feed.polled_snoc hrun] at hres
    obtain ⟨hpolled, hlast⟩ := forall_mem_append.mp hres
    have hall := h.since_of_resumable hkept' (hlast w (mem_singleton_self w))
    rw [h.since_eq_nil hcap hanswer] at hall
    rw [hclean rfl hpolled, take_of_length_le (drop_eq_nil_iff.mp hall.symm)]

end Track

/-- A log in one call, fetched, and one that is written to and dropped before the next call. -/
def fetchedLogs : List FeedEvent :=
  [.op (.log sampleHead [0x05]), .poll, .poll, .op (.start sampleHead), .op (.write 0 [0x05]),
    .op (.drop 0), .poll]

theorem sink_exact_fetchedLogs : ∃ w, Feed.new.run 512 fetchedLogs = some w ∧
    w.answer 512 = [] ∧ w.sink.got = w.pushed.map RingFrame.bytes := by
  obtain ⟨w, hrun, hexact⟩ := sink_exact_iff (show maxFragment ≤ 512 by decide)
    (show fetchedLogs.countP FeedEvent.begins < 2 ^ 64 by decide) (by decide +kernel)
  have hdone : (Feed.new.run 512 fetchedLogs).map (Feed.answer 512) = some [] := by decide +kernel
  rw [hrun] at hdone
  have hanswer := Option.some.inj hdone
  exact ⟨w, hrun, hanswer, (hexact hanswer).mpr (by decide +kernel)⟩

/-- A log that is written to after its beginning was fetched. -/
def lostWrite : List FeedEvent :=
  [.op (.start sampleHead), .poll, .poll, .op (.write 0 [0x05]), .poll]

theorem sink_loses_write : (∀ w ∈ Feed.new.states 512 lostWrite, w.Kept) ∧
    ∃ w, Feed.new.run 512 lostWrite = some w ∧ w.answer 512 = [] ∧
      w.pushed.length = 2 ∧ w.sink.got = (w.pushed.take 1).map RingFrame.bytes := by
  refine ⟨by decide +kernel, ?_⟩
  have hrun : (Feed.new.run 512 lostWrite).map (fun w => decide (w.answer 512 = [] ∧
      w.pushed.length = 2 ∧ w.sink.got = (w.pushed.take 1).map bytes)) = some true := by
    decide +kernel
  obtain ⟨w, hw, h⟩ := Option.map_eq_some_iff.mp hrun
  exact ⟨w, hw, of_decide_eq_true h⟩

end Rcard.Log
