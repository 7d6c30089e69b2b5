/-
From the log task to the sink.

The task, the port and the reader do together what the journal does, as long as no log
is begun under the stream id of one that is still open.

`Registered` relates the task to a journal and `Shows` the reader.  Between them stands
the record that is open under each stream id.
-/
import Rcard.Lib.Index
import Rcard.Log.Journal

namespace Rcard.Log

open Function List Prod

/-! ## The reader -/

/-- The event of a log: its metadata and exactly its values. -/
def Delivers (L : Layout) (rec : Record) (event : Event) : Prop :=
  ∃ vs : List (Value L), Encodes L vs rec.payload ∧
    ∃ start, event = .structuredAt (rec.metadata.entry (vs.map Value.val) false) start

structure Reader.Shows (L : Layout) (view : UInt64 → Option Record) (done : List Record)
    (r : Reader) : Prop where
  idle : r.cobsBuf = []
  streams : ∀ id, Option.Rel (fun rec s => StreamState.Holds L rec.metadata rec.payload s) (view id)
    (r.streams.lookup id)
  sink : List.Forall₂ (Delivers L) done r.sink

section Reader

variable {L : Layout} {cobs : Cobs} {view : UInt64 → Option Record} {done : List Record}
  {r : Reader}
  {id : UInt64} {s : StreamState} {rec : Record} {l : List (Nat × UInt8)}

theorem Reader.Shows.lookup_of_none (h : r.Shows L view done) (hview : view id = none) :
    r.streams.lookup id = none := by
  have hrel := h.streams id
  rw [hview] at hrel
  cases hlookup : r.streams.lookup id with
  | none => rfl
  | some s =>
    rw [hlookup] at hrel
    cases hrel

theorem Reader.Shows.lookup_of_some (h : r.Shows L view done) (hview : view id = some rec) :
    ∃ s, r.streams.lookup id = some s ∧ s.Holds L rec.metadata rec.payload := by
  have hrel := h.streams id
  rw [hview] at hrel
  cases hlookup : r.streams.lookup id with
  | none =>
    rw [hlookup] at hrel
    cases hrel
  | some s =>
    rw [hlookup] at hrel
    cases hrel with
    | some hs => exact ⟨s, rfl, hs⟩

theorem Reader.Shows.insert (h : r.Shows L view done) (hs : s.Holds L rec.metadata rec.payload) :
    (r.store id (s, false)).clear.Shows L (update view id (some rec)) done := by
  refine ⟨rfl, fun id' => ?_, h.sink⟩
  show Option.Rel _ _ ((r.streams.insert id s).lookup id')
  by_cases heq : id' = id
  · rw [heq, update_self, AList.lookup_insert]
    exact .some hs
  · rw [update_of_ne heq, AList.lookup_insert_ne heq]
    exact h.streams id'

variable {vs : List (Value L)}

theorem Reader.Shows.erase (h : r.Shows L view done) (hs : s.Holds L rec.metadata rec.payload)
    (hencodes : Encodes L vs rec.payload) :
    (r.store id (s, true)).clear.Shows L (update view id none) (done ++ [rec]) := by
  refine ⟨rfl, fun id' => ?_, ?_⟩
  · show Option.Rel _ _ ((r.streams.erase id).lookup id')
    by_cases heq : id' = id
    · rw [heq, update_self, AList.lookup_erase]
      exact .none
    · rw [update_of_ne heq, AList.lookup_erase_ne heq]
      exact h.streams id'
  · show List.Forall₂ _ _ (r.sink ++ s.finish)
    rw [hs.finish, (hs.clean.inj hencodes.clean).2]
    exact rel_append h.sink (.cons ⟨vs, hencodes, s.start, rfl⟩ .nil)

/-! The frames of the four calls. -/

theorem Reader.Shows.start (h : r.Shows L view done) (hview : view id = none) (m : LogMetadata)
    (hl : l.map snd = cobs.encode (rawChunk id m.asBytes) ++ [0]) :
    ∃ r', r.bytes L cobs l = .ok r' ∧
      r'.Shows L (update view id (some { metadata := m, payload := [] })) done := by
  have hlen : m.asBytes.length = 29 := length_asBytes m
  obtain ⟨started, hbytes⟩ := bytes_fragment (L := L) h.idle (by omega) (by omega) hl
  obtain ⟨s, hfeed, hs⟩ :=
    feedData_start (L := L) (h.lookup_of_none hview) m started m.asBytes.length
  rw [hbytes, hfeed]
  exact ⟨_, rfl, h.insert hs⟩

theorem Reader.Shows.write {data rest : List UInt8} (h : r.Shows L view done)
    (hview : view id = some rec) (hpos : 0 < data.length) (hmax : data.length ≤ 255)
    (hencodes : Encodes L vs (rec.payload ++ data ++ rest))
    (hl : l.map snd = cobs.encode (rawChunk id data) ++ [0]) :
    ∃ r', r.bytes L cobs l = .ok r' ∧ r'.Shows L (update view id (some (rec.add data))) done := by
  obtain ⟨d, first, _, _, hclean, _⟩ := hencodes.clean.split
  obtain ⟨s, hlookup, hs⟩ := h.lookup_of_some hview
  obtain ⟨started, hbytes⟩ := bytes_fragment (L := L) h.idle hpos hmax hl
  obtain ⟨t, hfeed, ht⟩ := feedData_more hlookup hs hclean started data.length
  rw [hbytes, hfeed]
  exact ⟨_, rfl, h.insert ht⟩

theorem Reader.Shows.drop (h : r.Shows L view done) (hview : view id = some rec)
    (hencodes : Encodes L vs rec.payload)
    (hl : l.map snd = cobs.encode (rawChunk id [tagEndOfStream]) ++ [0]) :
    ∃ r', r.bytes L cobs l = .ok r' ∧ r'.Shows L (update view id none) (done ++ [rec]) := by
  obtain ⟨s, hlookup, hs⟩ := h.lookup_of_some hview
  obtain ⟨started, hbytes⟩ := bytes_fragment (L := L) h.idle (by decide) (by decide) hl
  have ht : StreamState.Holds L rec.metadata rec.payload
      { s with lastActivity := started, bytesSeen := s.bytesSeen + [tagEndOfStream].length } :=
    ⟨hs.pos, hs.metadata, hs.read, hs.clean⟩
  have hstate : s.decoder.state = .awaitingTag := by
    rw [(hs.clean.inj hencodes.clean).1]
    rfl
  rw [stream_of_some hlookup, feedData_end ht hstate] at hbytes
  exact ⟨_, hbytes, h.erase ht hencodes⟩

theorem Reader.Shows.log {payload : List UInt8} (h : r.Shows L view done) (hview : view id = none)
    (m : LogMetadata) (hencodes : Encodes L vs payload) (hmax : payload.length ≤ maxInlineLogSize)
    (hl : l.map snd = cobs.encode (rawChunk id (m.asBytes ++ payload ++ [tagEndOfStream])) ++ [0]) :
    ∃ r', r.bytes L cobs l = .ok r' ∧ r'.Shows L view (done ++ [{ metadata := m, payload }]) := by
  have hlen : (m.asBytes ++ payload ++ [tagEndOfStream]).length = 29 + payload.length + 1 := by
    rw [length_append, length_append]
    rfl
  rw [maxInlineLogSize] at hmax
  obtain ⟨started, hbytes⟩ := bytes_fragment (L := L) h.idle (by omega) (by omega) hl
  obtain ⟨s, hfeed, hs⟩ := feedData_whole (h.lookup_of_none hview) hencodes.clean rfl m started
    (m.asBytes ++ payload ++ [tagEndOfStream]).length
  have hsame : update view id none = view := by
    rw [← hview, update_eq_self]
  rw [hbytes, hfeed]
  refine ⟨_, rfl, ?_⟩
  rw [← hsame]
  exact h.erase hs hencodes

end Reader

/-! ## The log task -/

/-- The open resources are the open logs of the journal, each under a stream id of its own. -/
structure Registered (d : Device) (j : Journal) (view : UInt64 → Option Record) : Prop where
  ids : d.state =
    { nextStreamId := UInt64.ofNat (j.begun + 1), nextLogId := UInt64.ofNat (j.begun + 1) }
  handles : d.nextHandle = j.handles
  indexed : Indexed LogResource.streamId d.resources j.opened view

section Device

variable {L : Layout} {cobs : Cobs} {d : Device} {j : Journal} {view : UInt64 → Option Record}

theorem Registered.next_ids (h : Registered d j view) :
    ({ nextStreamId := d.state.nextStreamId + 1, nextLogId := d.state.nextLogId + 1 } : LogState) =
      { nextStreamId := UInt64.ofNat (j.begun + 1 + 1),
        nextLogId := UInt64.ofNat (j.begun + 1 + 1) } := by
  rw [h.ids, UInt64.ofNat_add (j.begun + 1) 1]
  rfl

theorem Registered.log (h : Registered d j view) (head : Head) (data : List UInt8) :
    Registered (d.log head data).1 (j.step (.log head data)) view :=
  ⟨h.next_ids, h.handles, h.indexed⟩

theorem Registered.start (h : Registered d j view)
    (hfresh : ∀ h res, d.resources h = some res → res.streamId ≠ d.state.nextStreamId)
    (head : Head) :
    Registered (d.start head).1 (j.step (.start head))
      (update view d.state.nextStreamId (some (j.record head []))) := by
  have hfree : d.resources j.handles = none :=
    h.indexed.entry_eq_none (j.unused _ (Nat.le_refl _))
  refine ⟨h.next_ids, congrArg (· + 1) h.handles, ?_⟩
  rw [Device.start, h.handles]
  exact h.indexed.insert (j.record head []) hfree hfresh

theorem Registered.write {handle : Nat} {res : LogResource} {rec : Record} (h : Registered d j view)
    (hres : d.resources handle = some res) (hrec : j.opened handle = some rec) (data : List UInt8) :
    Registered (d.write handle res data).1 (j.step (.write handle data))
      (update view res.streamId (some (rec.add data))) := by
  have hopened : (j.step (.write handle data)).opened =
      update j.opened handle (some (rec.add data)) :=
    congrArg (fun o : Option Record => update j.opened handle (o.map (.add data))) hrec
  refine ⟨h.ids, h.handles, ?_⟩
  rw [hopened]
  exact h.indexed.replace (rec.add data) hres rfl

theorem Registered.drop {handle : Nat} {res : LogResource} (h : Registered d j view)
    (hres : d.resources handle = some res) :
    Registered (d.drop handle res).1 (j.step (.drop handle)) (update view res.streamId none) :=
  ⟨h.ids, h.handles, h.indexed.remove hres⟩

end Device

/-! ## Delivery -/

def Linked (L : Layout) (d : Device) (j : Journal) (r : Reader) : Prop :=
  ∃ view, Registered d j view ∧ r.Shows L view j.done

section Delivery

variable {L : Layout} {cobs : Cobs} {d : Device} {j j' : Journal} {r : Reader}
  {l : List (Nat × UInt8)}

theorem Linked.log (h : Linked L d j r) {head : Head} {data : List UInt8}
    (hinline : data.length ≤ maxInlineLogSize) (hfresh : d.FreshFor (.log head data))
    (hvalid : (j.step (.log head data)).Valid L)
    (hl : l.map snd = (d.log head data).2.flatMap (Action.wire cobs)) :
    ∃ r', r.bytes L cobs l = .ok r' ∧
      Linked L (d.log head data).1 (j.step (.log head data)) r' := by
  obtain ⟨view, hreg, hshows⟩ := h
  obtain ⟨vs, hencodes⟩ := hvalid.done (j.record head data)
    (mem_append_right _ (mem_singleton_self _))
  obtain ⟨r', hbytes, hshows'⟩ :=
    hshows.log (hreg.indexed.view_eq_none hfresh) _ hencodes hinline
      (hl.trans (wire_log d head hinline))
  refine ⟨r', hbytes, view, hreg.log head data, ?_⟩
  rw [show d.state.nextLogId = UInt64.ofNat (j.begun + 1) by rw [hreg.ids]] at hshows'
  exact hshows'

theorem Linked.start (h : Linked L d j r) {head : Head} (hfresh : d.FreshFor (.start head))
    (hl : l.map snd = (d.start head).2.flatMap (Action.wire cobs)) :
    ∃ r', r.bytes L cobs l = .ok r' ∧ Linked L (d.start head).1 (j.step (.start head)) r' := by
  obtain ⟨view, hreg, hshows⟩ := h
  obtain ⟨r', hbytes, hshows'⟩ := hshows.start (hreg.indexed.view_eq_none hfresh) _
    (hl.trans (wire_start d head))
  refine ⟨r', hbytes, _, hreg.start hfresh head, ?_⟩
  rw [show d.state.nextLogId = UInt64.ofNat (j.begun + 1) by rw [hreg.ids]] at hshows'
  exact hshows'

variable {handle : Nat}

section

variable (h : Linked L d j r)
include h

theorem Linked.write {res : LogResource} {data : List UInt8} (hres : d.resources handle = some res)
    (hinline : data.length ≤ maxInlineLogSize) (hvalid : (j.step (.write handle data)).Valid L)
    (hl : l.map snd = (d.write handle res data).2.flatMap (Action.wire cobs)) :
    ∃ r', r.bytes L cobs l = .ok r' ∧
      Linked L (d.write handle res data).1 (j.step (.write handle data)) r' := by
  obtain ⟨view, hreg, hshows⟩ := h
  obtain ⟨rec, hrec, hview⟩ := hreg.indexed.value handle res hres
  have hadded : (j.step (.write handle data)).opened handle = some (rec.add data) := by
    have hself : (j.step (.write handle data)).opened handle =
      (j.opened handle).map (Record.add data) := update_self _ _ _
    rw [hself, hrec]
    rfl
  obtain ⟨vs, rest, hencodes⟩ := hvalid.opened handle _ hadded
  have hmax : data.length ≤ 128 := hinline
  rw [wire_write d hinline] at hl
  rcases Nat.eq_zero_or_pos data.length with hzero | hpos
  · -- No frame is sent, and the record does not change.
    obtain rfl := eq_nil_of_length_eq_zero hzero
    have hnil : l = [] := map_eq_nil_iff.mp hl
    have hsame : update view res.streamId (some (rec.add [])) = view := by
      rw [show rec.add [] = rec by rw [Record.add, append_nil], ← hview, update_eq_self]
    refine ⟨r, ?_, view, ?_, hshows⟩
    · rw [hnil]
      rfl
    · rw [← hsame]
      exact hreg.write hres hrec []
  · rw [sendFrame_of_le cobs _ hpos (by omega)] at hl
    obtain ⟨r', hbytes, hshows'⟩ := hshows.write hview hpos (by omega) hencodes hl
    exact ⟨r', hbytes, _, hreg.write hres hrec data, hshows'⟩

theorem Linked.drop {res : LogResource} (hres : d.resources handle = some res)
    (hvalid : (j.step (.drop handle)).Valid L)
    (hl : l.map snd = (d.drop handle res).2.flatMap (Action.wire cobs)) :
    ∃ r', r.bytes L cobs l = .ok r' ∧
      Linked L (d.drop handle res).1 (j.step (.drop handle)) r' := by
  obtain ⟨view, hreg, hshows⟩ := h
  obtain ⟨rec, hrec, hview⟩ := hreg.indexed.value handle res hres
  have hdone : (j.step (.drop handle)).done = j.done ++ [rec] := by
    show j.done ++ (j.opened handle).toList = _
    rw [hrec]
    rfl
  obtain ⟨vs, hencodes⟩ := hvalid.done rec (by
    rw [hdone]
    exact mem_append_right _ (mem_singleton_self _))
  obtain ⟨r', hbytes, hshows'⟩ := hshows.drop hview hencodes (hl.trans (wire_drop d))
  refine ⟨r', hbytes, _, hreg.drop hres, ?_⟩
  rw [hdone]
  exact hshows'

theorem Linked.not_opened (hres : d.resources handle = none) : j.opened handle = none := by
  obtain ⟨_, hreg, _⟩ := h
  exact hreg.indexed.absent handle hres

theorem Linked.step {op : Op} (hinline : op.Inline) (hfresh : d.FreshFor op)
    (hvalid : (j.step op).Valid L)
    (hl : l.map snd = (d.step op).2.flatMap (Action.wire cobs)) :
    ∃ r', r.bytes L cobs l = .ok r' ∧ Linked L (d.step op).1 (j.step op) r' := by
  cases op with
  | log head data => exact h.log hinline hfresh hvalid hl
  | start head => exact h.start hfresh hl
  | write handle data =>
    rw [Device.step] at hl ⊢
    cases hres : d.resources handle with
    | some res =>
      rw [hres] at hl
      exact h.write hres hinline hvalid hl
    | none =>
      rw [hres] at hl
      rw [map_eq_nil_iff.mp hl, Journal.write_of_none (h.not_opened hres)]
      exact ⟨r, rfl, h⟩
  | drop handle =>
    rw [Device.step] at hl ⊢
    cases hres : d.resources handle with
    | some res =>
      rw [hres] at hl
      exact h.drop hres hvalid hl
    | none =>
      rw [hres] at hl
      rw [map_eq_nil_iff.mp hl, Journal.drop_of_none (h.not_opened hres)]
      exact ⟨r, rfl, h⟩

theorem Linked.run {ops : List Op} (hinline : ∀ op ∈ ops, op.Inline) (hfresh : d.Fresh ops)
    (hvalid : (j.run ops).Valid L)
    (hl : l.map snd = (d.run ops).2.flatMap (Action.wire cobs)) :
    ∃ r', r.bytes L cobs l = .ok r' ∧ Linked L (d.run ops).1 (j.run ops) r' := by
  induction ops generalizing d j r l with
  | nil =>
    rw [map_eq_nil_iff.mp hl]
    exact ⟨r, rfl, h⟩
  | cons op ops ih =>
    obtain ⟨hfirst, hrest⟩ := hfresh
    rw [Device.run, flatMap_append] at hl
    obtain ⟨l₁, l₂, rfl, hl₁, hl₂⟩ := map_eq_append_iff.mp hl
    obtain ⟨r₁, hbytes₁, h₁⟩ := h.step (hinline op mem_cons_self) hfirst
      (Journal.Valid.of_run hvalid) hl₁
    obtain ⟨r₂, hbytes₂, h₂⟩ :=
      ih h₁ (fun op' hop => hinline op' (mem_cons_of_mem _ hop)) hrest
      hvalid hl₂
    rw [bytes_append, hbytes₁]
    exact ⟨r₂, hbytes₂, h₂⟩

end

theorem linked_new : Linked L .new .new .new :=
  ⟨fun _ => none, ⟨rfl, rfl, .empty⟩, rfl, fun _ => .none, .nil⟩

/-- Every log that was completed is emitted, once and in order, with its metadata and its
values. -/
theorem logs_delivered {ops : List Op} {inputs : List Input} (hinline : ∀ op ∈ ops, op.Inline)
    (hfresh : Device.new.Fresh ops) (hvalid : (Journal.new.run ops).Valid L)
    (hinputs : inputs.flatMap Input.bytes = (Device.new.run ops).2.flatMap (Action.wire cobs))
    (hunbroken : Reader.new.Unbroken L cobs inputs) :
    ∃ r, Reader.new.run L cobs inputs = .ok r ∧
      List.Forall₂ (Delivers L) (Journal.new.run ops).done r.sink := by
  rw [← map_snd_timed] at hinputs
  obtain ⟨r, hbytes, _, _, hshows⟩ := linked_new.run hinline hfresh hvalid hinputs
  rw [run_of_unbroken hunbroken]
  exact ⟨r, hbytes, hshows.sink⟩

end Delivery

/-- A log that is written in two parts, with another log in between. -/
def sampleOps : List Op :=
  [.start sampleHead, .write 0 [0x02], .log sampleHead [0x00], .write 0 [0x05], .drop 0]

theorem valid_sampleOps : (Journal.new.run sampleOps).Valid sampleLayout := by
  constructor
  · intro handle rec hrec
    rcases Nat.eq_zero_or_pos handle with rfl | hpos
    · cases hrec
    · rw [(Journal.new.run sampleOps).unused handle hpos] at hrec
      cases hrec
  · intro rec hrec
    rcases mem_pair.mp hrec with rfl | rfl
    · exact ⟨[⟨.unit, .unit⟩], rfl⟩
    · exact ⟨[⟨.u8 5, .u8 5⟩], rfl⟩

theorem sampleOps_delivered :
    ∃ r, Reader.new.run sampleLayout .standard [.sweep 0, .read 1
        ((Device.new.run sampleOps).2.flatMap (Action.wire .standard))] = .ok r ∧
      List.Forall₂ (Delivers sampleLayout) (Journal.new.run sampleOps).done r.sink := by
  refine logs_delivered (by decide) (fresh_of_countP_le (n := 0) ⟨rfl, nofun⟩ (by decide))
    valid_sampleOps ?_ ⟨rfl, wire_run_start_ne_nil _ _ _, fun _ _ => trivial⟩
  exact append_nil _

end Rcard.Log
