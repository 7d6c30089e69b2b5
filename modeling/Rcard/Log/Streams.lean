/-
Fragments that reach their streams.

Between the bytes on the port and the decoder of a stream stand the delimiters, the
encoding and the header of the fragment.  `bytes_fragment` takes them off.  What the
stream then holds is its metadata and the values of the payload so far.
-/
import Rcard.Log.Host
import Rcard.Log.RoundTrip

namespace Rcard.Log

open List Reader StreamState

/-! ## Bytes of a stream -/

section Streams

variable {L : Layout} {s s' : StreamState}

theorem feedByte_of_fed (hpos : s.metaPos = metadataSize) {byte : UInt8} {fed : Fed}
    (h : s.decoder.feedByte byte = .ok fed) (hgranted : ∀ r ∈ fed.requests, r.Granted L) :
    s.feedByte L byte = .ok ({ s with decoder := fed.decoder }.accept fed.result) := by
  have hfeed : s.decoder.feed [byte] = .ok
      { decoder := fed.decoder, count := 1, result := fed.result, requests := fed.requests } := by
    rw [Decoder.feed, h]
    obtain ⟨decoder, result, requests⟩ := fed
    cases result with
    | incomplete =>
      refine congrArg Except.ok ?_
      simp
    | done value => rfl
    | endOfStream => rfl
    | error e => rfl
  rw [feedByte, if_neg (by omega), hfeed]
  exact if_pos hgranted

theorem feedData_append {first : List UInt8} (h : s.feedData L first = .ok (s', false))
    (rest : List UInt8) : s.feedData L (first ++ rest) = s'.feedData L rest := by
  induction first generalizing s with
  | nil =>
    cases h
    rfl
  | cons byte first ih =>
    obtain ⟨⟨t, ended⟩, hbyte, hrest⟩ := exists_of_bind_eq_ok h
    rw [cons_append, feedData, hbyte]
    cases ended with
    | true => cases hrest
    | false => exact ih hrest

variable {data : List UInt8} {values : List OwnedValue}

/-- Values that are read go into the stream, and nothing ends it. -/
theorem feedData_of_run (hpos : s.metaPos = metadataSize) {ran : Ran}
    (h : s.decoder.run data = .ok ran) (hgranted : ∀ r ∈ ran.requests, r.Granted L)
    (hresults : ran.results = values.map .done) :
    s.feedData L data =
      .ok ({ s with decoder := ran.decoder, values := s.values ++ values }, false) := by
  induction data generalizing s ran values with
  | nil =>
    cases h
    rw [map_eq_nil_iff.mp hresults.symm, append_nil]
    rfl
  | cons byte data ih =>
    obtain ⟨fed, hfed, hmore⟩ := exists_of_bind_eq_ok h
    obtain ⟨tail, htail, rfl⟩ := exists_of_map_eq_ok hmore
    have hbyte := feedByte_of_fed hpos hfed fun r hr => hgranted r (mem_append_left _ hr)
    have htailGranted : ∀ r ∈ tail.requests, r.Granted L := fun r hr =>
      hgranted r (mem_append_right _ hr)
    have hall : fed.result.emitted ++ tail.results = values.map .done := hresults
    rw [feedData, hbyte]
    generalize hresult : fed.result = result at hall ⊢
    cases result with
    | incomplete =>
      have htaken := ih (s := { s with decoder := fed.decoder }) hpos htail htailGranted hall
      exact htaken
    | done value =>
      obtain ⟨first, rest, rfl, hfirst, hrest⟩ := map_eq_cons_iff.mp hall.symm
      cases hfirst
      have htaken := ih (s := { s with decoder := fed.decoder, values := s.values ++ [value] })
        hpos htail htailGranted hrest.symm
      rw [append_assoc] at htaken
      exact htaken
    | endOfStream | error e =>
      obtain ⟨first, rest, rfl, hfirst, hrest⟩ := map_eq_cons_iff.mp hall.symm
      cases hfirst

theorem feedData_metadata (hbuf : s.metaBuf = List.replicate metadataSize 0) (hpos : s.metaPos = 0)
    (m : LogMetadata) : s.feedData L m.asBytes = .ok
      ({ s with metaBuf := m.asBytes, metaPos := metadataSize, metadata := some m }, false) := by
  have hlen := length_asBytes m
  have hfill := Fill.fill_induct (n := metadataSize) (z := 0) (P := fun buf pos rest =>
    { s with metaBuf := buf, metaPos := pos }.feedData L rest = .ok
      ({ s with metaBuf := m.asBytes, metaPos := metadataSize, metadata := some m }, false))
    ?_ ?_ (Nat.le_of_eq hlen) (ne_nil_of_length_eq_add_one hlen)
  · rwa [← hbuf, ← hpos] at hfill
  · intro buf pos byte _ hlast hset
    rw [hlen, Nat.sub_self, replicate_zero, append_nil] at hset
    rw [feedData, feedByte, if_pos (show pos < metadataSize by omega)]
    rw [if_pos (hlast.trans hlen), hset, tryReadFromBytes_asBytes, hlast]
    rfl
  · intro buf pos byte rest _ hmore hrest
    rw [feedData, feedByte, if_pos (show pos < metadataSize by omega)]
    rw [if_neg (show pos + 1 ≠ metadataSize by omega)]
    exact hrest

/-! ## What a stream holds -/

/-- The decoder reads `payload` to these values, and asks for nothing it cannot get. -/
def Clean (L : Layout) (payload : List UInt8) (d : Decoder) (values : List OwnedValue) : Prop :=
  ∃ requests : List Request, (∀ r ∈ requests, r.Granted L) ∧
    Decoder.new.run payload = .ok { decoder := d, results := values.map .done, requests }

/-- `payload` is what the formatter writes for some values. -/
def Encodes (L : Layout) (vs : List (Value L)) (payload : List UInt8) : Prop :=
  payload = formatAll (vs.map Value.val)

theorem Encodes.clean {vs : List (Value L)} {payload : List UInt8} (h : Encodes L vs payload) :
    Clean L payload .new (vs.map Value.val) := by
  obtain ⟨requests, hgranted, hrun⟩ := run_formatAll vs
  refine ⟨requests, hgranted, ?_⟩
  rw [h, hrun, map_map]
  rfl

theorem Clean.inj {payload : List UInt8} {d d' : Decoder} {values' : List OwnedValue}
    (h : Clean L payload d values) (h' : Clean L payload d' values') :
    d = d' ∧ values = values' := by
  obtain ⟨_, _, hrun⟩ := h
  obtain ⟨_, _, hrun'⟩ := h'
  have hran := Except.ok.inj (hrun.symm.trans hrun')
  refine ⟨congrArg Ran.decoder hran, ?_⟩
  have hresults : values.map FeedResult.done = values'.map .done := congrArg Ran.results hran
  exact map_injective_iff.mpr (fun _ _ => FeedResult.done.inj) hresults

/-- A clean run can be cut at every byte. -/
theorem Clean.split {payload : List UInt8} {d : Decoder} (h : Clean L (payload ++ data) d values) :
    ∃ before first rest, values = first ++ rest ∧
      Clean L payload before first ∧ ∃ requests : List Request, (∀ r ∈ requests, r.Granted L) ∧
        before.run data = .ok { decoder := d, results := rest.map .done, requests } := by
  obtain ⟨requests, hgranted, hrun⟩ := h
  obtain ⟨ran, hran, hmore⟩ := exists_of_bind_eq_ok ((run_append _ payload data).symm.trans hrun)
  obtain ⟨tail, htail, hall⟩ := exists_of_map_eq_ok hmore
  have hdecoder : tail.decoder = d := congrArg Ran.decoder hall
  have hrequests : ran.requests ++ tail.requests = requests := congrArg Ran.requests hall
  have hresults : ran.results ++ tail.results = values.map .done := congrArg Ran.results hall
  obtain ⟨first, rest, rfl, hfirst, hrest⟩ := map_eq_append_iff.mp hresults.symm
  refine ⟨ran.decoder, first, rest, rfl, ⟨ran.requests, ?_, ?_⟩, tail.requests, ?_, ?_⟩
  · exact fun r hr => hgranted r (hrequests ▸ mem_append_left _ hr)
  · rw [hran, hfirst]
  · exact fun r hr => hgranted r (hrequests ▸ mem_append_right _ hr)
  · rw [htail, hrest, ← hdecoder]

/-- The stream has its metadata and this much of its payload. -/
structure StreamState.Holds (L : Layout) (m : LogMetadata) (payload : List UInt8)
    (s : StreamState) : Prop where
  pos : s.metaPos = metadataSize
  metadata : s.metadata = some m
  read : s.metaFailed = false
  clean : Clean L payload s.decoder s.values

variable {m : LogMetadata} {payload : List UInt8}

theorem StreamState.Holds.feedData {d : Decoder} (h : s.Holds L m payload)
    (hclean : Clean L (payload ++ data) d values) :
    ∃ t, s.feedData L data = .ok (t, false) ∧ t.Holds L m (payload ++ data) := by
  obtain ⟨before, first, rest, hvalues, hbefore, requests, hgranted, hrun⟩ := hclean.split
  obtain ⟨hdecoder, hfirst⟩ := h.clean.inj hbefore
  rw [← hdecoder] at hrun
  refine ⟨_, feedData_of_run h.pos hrun hgranted rfl, h.pos, h.metadata, h.read, ?_⟩
  grind

theorem StreamState.Holds.finish (h : s.Holds L m payload) :
    s.finish = [.structuredAt (m.entry s.values false) s.start] := by
  rw [StreamState.finish, h.read, StreamState.structured, h.metadata]
  rfl

/-- The end-of-stream tag where a tag is due. -/
theorem feedByte_endOfStream (hpos : s.metaPos = metadataSize)
    (hstate : s.decoder.state = .awaitingTag) : s.feedByte L tagEndOfStream = .ok (s, true) := by
  have hfed : s.decoder.feedByte tagEndOfStream = .ok
      { decoder := { state := .awaitingTag, stack := s.decoder.stack }
        result := .endOfStream } := by
    rw [Decoder.feedByte, hstate]
    rfl
  rw [← hstate] at hfed
  exact feedByte_of_fed hpos hfed fun _ hr => absurd hr not_mem_nil

end Streams

/-! ## Fragments -/

section Fragments

variable {L : Layout} {r : Reader}

theorem length_rawChunk (id : UInt64) (data : List UInt8) :
    (rawChunk id data).length = 10 + data.length := by
  rw [rawChunk, length_append]
  rfl

theorem processChunk_rawChunk {id : UInt64} {data : List UInt8} (hpos : 0 < data.length)
    (hmax : data.length ≤ 255) (started : Nat) : r.processChunk L (rawChunk id data) started =
      ((r.stream id started data.length).feedData L data).map (r.store id) := by
  have hlen := length_rawChunk id data
  have hid : leAt (rawChunk id data) 1 8 = id.toNat := leAt_packed (i := 1) rfl id.toNat_lt data
  have hlength : leAt (rawChunk id data) 9 1 = data.length :=
    leAt_packed (i := 2) rfl (show data.length < 256 by omega) data
  have hdata : (rawChunk id data).drop 10 = data := drop_left' rfl
  obtain ⟨body, hbody⟩ : ∃ body, rawChunk id data = typeLogFragment :: body := ⟨_, rfl⟩
  rw [hbody] at hlen hid hlength hdata ⊢
  rw [processChunk, if_pos rfl, if_neg (by omega), hid, hlength, UInt64.ofNat_toNat, hdata]
  rw [if_neg (by omega), take_length]

/-! The four fragments of a log: the metadata, a part of the payload, the end, and all of
these together. -/

section Stream

variable {id : UInt64} {s : StreamState} {m : LogMetadata} {payload : List UInt8}

theorem stream_of_none (h : r.streams.lookup id = none) (started length : Nat) :
    r.stream id started length =
      { StreamState.new started with lastActivity := started, bytesSeen := 0 + length } := by
  rw [stream, h]
  rfl

theorem stream_of_some (h : r.streams.lookup id = some s) (started length : Nat) :
    r.stream id started length =
      { s with lastActivity := started, bytesSeen := s.bytesSeen + length } := by
  rw [stream, h]
  rfl

theorem feedData_start (h : r.streams.lookup id = none) (m : LogMetadata) (started length : Nat) :
    ∃ t, (r.stream id started length).feedData L m.asBytes = .ok (t, false) ∧ t.Holds L m [] := by
  rw [stream_of_none h]
  exact ⟨_, feedData_metadata rfl rfl m, rfl, rfl, rfl, [], nofun, rfl⟩

theorem feedData_more {data : List UInt8} {d : Decoder} {values : List OwnedValue}
    (h : r.streams.lookup id = some s) (hs : s.Holds L m payload)
    (hclean : Clean L (payload ++ data) d values) (started length : Nat) :
    ∃ t, (r.stream id started length).feedData L data = .ok (t, false) ∧
      t.Holds L m (payload ++ data) := by
  rw [stream_of_some h]
  exact Holds.feedData ⟨hs.pos, hs.metadata, hs.read, hs.clean⟩ hclean

theorem feedData_end (hs : s.Holds L m payload) (hstate : s.decoder.state = .awaitingTag) :
    s.feedData L [tagEndOfStream] = .ok (s, true) := by
  rw [feedData, feedByte_endOfStream hs.pos hstate]
  rfl

theorem feedData_whole {d : Decoder} {values : List OwnedValue} (h : r.streams.lookup id = none)
    (hclean : Clean L payload d values) (hstate : d.state = .awaitingTag) (m : LogMetadata)
    (started length : Nat) : ∃ t, (r.stream id started length).feedData L
      (m.asBytes ++ payload ++ [tagEndOfStream]) = .ok (t, true) ∧ t.Holds L m payload := by
  obtain ⟨t₁, hmeta, ht₁⟩ := feedData_start (L := L) h m started length
  obtain ⟨t, hpayload, ht⟩ := ht₁.feedData (show Clean L ([] ++ payload) d values from hclean)
  refine ⟨t, ?_, ht⟩
  rw [append_assoc, feedData_append hmeta, feedData_append hpayload]
  refine feedData_end ht ?_
  rw [(ht.clean.inj hclean).1, hstate]

end Stream

variable {cobs : Cobs}

theorem bytes_append (first rest : List (Nat × UInt8)) : r.bytes L cobs (first ++ rest) =
    (r.bytes L cobs first).bind fun r => r.bytes L cobs rest := by
  induction first generalizing r with
  | nil => rfl
  | cons input first ih =>
    rw [cons_append, bytes, bytes]
    cases r.byte L cobs input.1 input.2 with
    | error panic => rfl
    | ok r => exact ih

theorem collect_eq (now : Nat) (byte : UInt8) (hlen : r.cobsBuf.length < 300) :
    r.collect now byte = { r with
      cobsBuf := r.cobsBuf ++ [byte]
      chunkStart := if r.cobsBuf = [] then some now else r.chunkStart } := by
  grind [collect]

variable {l : List (Nat × UInt8)}

theorem bytes_collect (hzero : 0 ∉ l.map Prod.snd) (hlen : r.cobsBuf.length + l.length ≤ 300)
    (hne : r.cobsBuf ≠ []) :
    r.bytes L cobs l = .ok { r with cobsBuf := r.cobsBuf ++ l.map Prod.snd } := by
  induction l generalizing r with
  | nil =>
    rw [map_nil, append_nil]
    rfl
  | cons input l ih =>
    obtain ⟨now, byte⟩ := input
    have hbyte : byte ≠ 0 := fun h => hzero (h ▸ mem_cons_self)
    have hrest : 0 ∉ l.map Prod.snd := fun h => hzero (mem_cons_of_mem _ h)
    rw [length_cons] at hlen
    have hcollect : r.byte L cobs now byte = .ok { r with cobsBuf := r.cobsBuf ++ [byte] } := by
      rw [Reader.byte, if_neg hbyte, collect_eq now byte (by omega), if_neg hne]
    have hmore := ih (r := { r with cobsBuf := r.cobsBuf ++ [byte] }) hrest
      (by rw [length_append, length_singleton]; omega) (by simp)
    rw [bytes, hcollect]
    rw [append_assoc] at hmore
    exact hmore

theorem bytes_encoded (hbuf : r.cobsBuf = []) (hne : l ≠ []) (hzero : 0 ∉ l.map Prod.snd)
    (hlen : l.length ≤ 300) : ∃ started, r.bytes L cobs l =
      .ok { r with cobsBuf := l.map Prod.snd, chunkStart := some started } := by
  obtain ⟨⟨started, byte⟩, rest, rfl⟩ := exists_cons_of_ne_nil hne
  have hbyte : byte ≠ 0 := fun h => hzero (h ▸ mem_cons_self)
  have hfirst : r.byte L cobs started byte =
      .ok { r with cobsBuf := [byte], chunkStart := some started } := by
    rw [Reader.byte, if_neg hbyte, collect_eq started byte (by rw [hbuf]; decide), hbuf]
    rfl
  refine ⟨started, ?_⟩
  rw [bytes, hfirst]
  refine bytes_collect (r := { r with cobsBuf := [byte], chunkStart := some started })
    (fun h => hzero (mem_cons_of_mem _ h)) ?_ (cons_ne_nil _ _)
  rw [length_cons] at hlen
  show 1 + rest.length ≤ 300
  omega

/-- The bytes up to a delimiter are one chunk. -/
theorem bytes_frame {raw : List UInt8} (hbuf : r.cobsBuf = [])
    (hlen : (cobs.encode raw).length ≤ 300) (hl : l.map Prod.snd = cobs.encode raw ++ [0]) :
    ∃ started, r.bytes L cobs l =
      ({ r with cobsBuf := cobs.encode raw, chunkStart := some started }.processChunk L raw
        started).map Reader.clear := by
  obtain ⟨encoded, last, rfl, hencoded, hlast⟩ := map_eq_append_iff.mp hl
  obtain ⟨⟨stop, zero⟩, rfl, hstop⟩ := map_eq_singleton_iff.mp hlast
  have hzero : zero = 0 := hstop
  have hne : encoded ≠ [] := by
    intro h
    rw [h] at hencoded
    exact cobs.encode_ne_nil raw hencoded.symm
  obtain ⟨started, hstarted⟩ := bytes_encoded (L := L) hbuf hne
    (by rw [hencoded]; exact cobs.zero_notMem_encode raw)
    (by rw [← length_map Prod.snd, hencoded]; exact hlen)
  refine ⟨started, ?_⟩
  rw [hencoded] at hstarted
  rw [bytes_append, hstarted]
  show ((byte L cobs _ stop zero).bind _) = _
  rw [byte, if_pos hzero, delimit, if_neg (cobs.encode_ne_nil raw), decodeChunk, cobs.decode_encode]
  show ((processChunk L _ raw started).map clear).bind Except.ok = _
  cases processChunk L _ raw started with
  | error panic => rfl
  | ok r => rfl

/-- A fragment goes to its stream. -/
theorem bytes_fragment {id : UInt64} {data : List UInt8} (hbuf : r.cobsBuf = [])
    (hpos : 0 < data.length) (hmax : data.length ≤ 255)
    (hl : l.map Prod.snd = cobs.encode (rawChunk id data) ++ [0]) :
    ∃ started, r.bytes L cobs l = ((r.stream id started data.length).feedData L data).map
      fun fed => (r.store id fed).clear := by
  have hlen : (cobs.encode (rawChunk id data)).length ≤ 300 := by
    have hencode := cobs.length_encode_le (rawChunk id data)
    rw [length_rawChunk] at hencode
    omega
  obtain ⟨started, hbytes⟩ := bytes_frame (L := L) hbuf hlen hl
  refine ⟨started, ?_⟩
  rw [hbytes, processChunk_rawChunk hpos hmax]
  show (((r.stream id started data.length).feedData L data).map _).map _ = _
  cases (r.stream id started data.length).feedData L data with
  | error panic => rfl
  | ok fed =>
    obtain ⟨s, ended⟩ := fed
    cases ended with
    | true => rfl
    | false => rfl

end Fragments

/-! ## Reads and sweeps -/

/-- The bytes of an input, with their times. -/
def Input.timed : Input → List (Nat × UInt8)
  | read now data => data.map (now, ·)
  | sweep _ => []

def Input.bytes : Input → List UInt8
  | read _ data => data
  | sweep _ => []

/-- The port stays open, and no sweep finds a stream that was idle for too long. -/
def Reader.Unbroken (L : Layout) (cobs : Cobs) (r : Reader) : List Input → Prop
  | [] => True
  | .read now data :: inputs =>
    data ≠ [] ∧ ∀ r', r.bytes L cobs (data.map (now, ·)) = .ok r' → r'.Unbroken L cobs inputs
  | .sweep now :: inputs => r.stale now = [] ∧ r.Unbroken L cobs inputs

section Inputs

variable {L : Layout} {cobs : Cobs} {r : Reader} {inputs : List Input}

theorem run_of_unbroken (h : r.Unbroken L cobs inputs) :
    r.run L cobs inputs = r.bytes L cobs (inputs.flatMap Input.timed) := by
  induction inputs generalizing r with
  | nil => rfl
  | cons input inputs ih =>
    rw [flatMap_cons]
    cases input with
    | read now data =>
      obtain ⟨hne, hrest⟩ := h
      rw [run, if_neg hne, bytes_append, Input.timed]
      cases hread : r.bytes L cobs (data.map (now, ·)) with
      | error panic => rfl
      | ok r' => exact ih (hrest r' hread)
    | sweep now =>
      obtain ⟨hstale, hrest⟩ := h
      have hsweep : r.sweep now = r := by
        rw [sweep, hstale]
        rfl
      rw [run, hsweep]
      exact ih hrest

theorem map_snd_timed (inputs : List Input) :
    (inputs.flatMap Input.timed).map Prod.snd = inputs.flatMap Input.bytes := by
  rw [map_flatMap]
  refine congrArg (List.flatMap · inputs) (funext fun input => ?_)
  cases input with
  | read now data => simp [Input.timed, Input.bytes]
  | sweep now => rfl

end Inputs

end Rcard.Log
