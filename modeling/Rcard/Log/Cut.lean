/-
A stream that ends in the middle of a value.

Dropping a log sends the end-of-stream tag, wherever the producer stopped.  The tag is
a tag only where the decoder awaits one.  Inside a varint, a string, a fixed-width
value or a stack dump it is a byte like any other, and the stream stays open.
-/
import Rcard.Log.Streams
import Rcard.Log.Total

namespace Rcard.Log

open List Prod

/-! ## What ends a stream -/

def Continues (step : Step) : Prop := ∀ fed, step = .ok fed → fed.result ≠ .endOfStream

theorem closed_continues : Closed Continues where
  error _ := nofun
  await _ _ _ fed h := by
    cases h
    exact FeedResult.noConfusion
  fail _ _ fed h := by
    cases h
    exact FeedResult.noConfusion
  done _ fed h := by
    cases h
    exact FeedResult.noConfusion

/-! ## The tag where it is not due -/

section Cut

variable {L : Layout}

/-- The tag has the bit of a varint that goes on, and as the length of a stack dump it
stays below `2 ^ 32`. -/
theorem granted_endOfStream (state : State) :
    ∀ r ∈ requestsFor (state.declared tagEndOfStream), r.Granted L := by
  cases hdeclared : state.declared tagEndOfStream with
  | none => exact nofun
  | some pair =>
    refine requestsFor_bounded.mpr ?_
    cases state with
    | readingVarint acc shift purpose =>
      rw [State.declared, if_pos (.inr (by decide))] at hdeclared
      cases hdeclared
    | readingStackDumpLength header lenBuf pos =>
      rw [State.declared] at hdeclared
      split at hdeclared
      · cases hdeclared
      · cases hdeclared
        have hlt := (UInt32.ofNat (leNat (lenBuf.set pos tagEndOfStream))).toNat_lt
        rw [L.byte, UInt64.toNat_ofNat', isizeMax]
        omega
    | _ => cases hdeclared

variable {vs : List (Value L)} {p rest : List UInt8}

theorem clean_of_cut (h : Encodes L vs (p ++ rest)) : ∃ d values, Clean L p d values ∧ d.Inv ∧
    ¬ d.state.Drained := by
  obtain ⟨d, values, more, _, hclean, requests, _, hrest⟩ := h.clean.split
  obtain ⟨_, _, hrun⟩ := id hclean
  refine ⟨d, values, hclean, (run_inv hrun).1, fun hdrained => ?_⟩
  cases rest with
  | nil =>
    have hd : d = .new := congrArg Ran.decoder (Except.ok.inj hrest)
    rw [hd] at hdrained
    exact hdrained
  | cons byte rest =>
    rw [Decoder.run, feedByte_drained hdrained] at hrest
    cases hrest

theorem feedByte_cut {s : StreamState} {m : LogMetadata} (hs : s.Holds L m p)
    (h : Encodes L vs (p ++ rest)) (hstate : s.decoder.state ≠ .awaitingTag) :
    ∃ t, s.feedByte L tagEndOfStream = .ok (t, false) := by
  obtain ⟨d, values, hclean, hinv, hdrained⟩ := clean_of_cut h
  obtain ⟨rfl, _⟩ := hclean.inj hs.clean
  obtain ⟨fed, hfed, _, _, hrequests, _⟩ := sound_feedByte hinv hdrained tagEndOfStream
  have hgranted : ∀ r ∈ fed.requests, r.Granted L := hrequests ▸ granted_endOfStream _
  -- only a tag ends a stream
  have hne := closed_continues.feedByte (fun htag => absurd htag hstate) fed hfed
  rw [feedByte_of_fed hs.pos hfed hgranted]
  cases hresult : fed.result with
  | incomplete => exact ⟨_, rfl⟩
  | done value => exact ⟨_, rfl⟩
  | endOfStream => exact absurd hresult hne
  | error e => exact ⟨_, rfl⟩

end Cut

/-! ## A dropped log -/

/-- Fragments of one stream, with the times of their chunks. -/
def Reader.fragments (L : Layout) (r : Reader) (id : UInt64) :
    List (Nat × List UInt8) → Except Panic Reader
  | [] => .ok r
  | (now, data) :: rest =>
    (r.processChunk L (rawChunk id data) now).bind fun r => r.fragments L id rest

/-- The stream is gone and its entry is out. -/
def Ended (id : UInt64) (entry : LogEntry) (before after : Reader) : Prop :=
  after.streams.lookup id = none ∧ ∃ start, after.sink = before.sink ++ [.structuredAt entry start]

section Drop

variable {L : Layout} {r : Reader} {id : UInt64} {m : LogMetadata}

theorem processChunk_start (h : r.streams.lookup id = none) (m : LogMetadata) (now : Nat) :
    ∃ r₁ s, r.processChunk L (rawChunk id m.asBytes) now = .ok r₁ ∧
      r₁.streams.lookup id = some s ∧ s.Holds L m [] := by
  have hlen : m.asBytes.length = 29 := length_asBytes m
  obtain ⟨s, hfeed, hs⟩ := feedData_start (L := L) h m now m.asBytes.length
  rw [processChunk_rawChunk (by omega) (by omega), hfeed]
  exact ⟨_, s, rfl, AList.lookup_insert _, hs⟩

theorem fragments_holds {vs : List (Value L)} {rest payload : List UInt8} {s : StreamState}
    {fragments : List (Nat × List UInt8)}
    (hsizes : ∀ f ∈ fragments, 0 < f.2.length ∧ f.2.length ≤ 255)
    (hencodes : Encodes L vs (payload ++ fragments.flatMap snd ++ rest))
    (h : r.streams.lookup id = some s) (hs : s.Holds L m payload) :
    ∃ r₁ s₁, r.fragments L id fragments = .ok r₁ ∧ r₁.streams.lookup id = some s₁ ∧
      s₁.Holds L m (payload ++ fragments.flatMap snd) := by
  induction fragments generalizing r payload s with
  | nil =>
    rw [flatMap_nil, append_nil]
    exact ⟨r, s, rfl, h, hs⟩
  | cons fragment fragments ih =>
    obtain ⟨now, data⟩ := fragment
    obtain ⟨hpos, hmax⟩ := hsizes (now, data) mem_cons_self
    rw [flatMap_cons, ← append_assoc] at hencodes ⊢
    obtain ⟨d, values, hclean, _⟩ := clean_of_cut
      (show Encodes L vs (payload ++ data ++ (fragments.flatMap snd ++ rest)) by
        rwa [← append_assoc])
    obtain ⟨t, hfeed, ht⟩ := feedData_more h hs hclean now data.length
    rw [Reader.fragments, processChunk_rawChunk hpos hmax, hfeed]
    exact ih (fun f hf => hsizes f (mem_cons_of_mem _ hf)) hencodes (AList.lookup_insert _) ht

/-- The tag that `drop` sends ends the stream exactly if the cut is where a tag is due. -/
theorem drop_ends_stream_iff {vs : List (Value L)} {p rest : List UInt8}
    (hcut : formatAll (vs.map Value.val) = p ++ rest) (hnew : r.streams.lookup id = none)
    {writes : List (Nat × List UInt8)} (hwrites : writes.flatMap Prod.snd = p)
    (hsizes : ∀ f ∈ writes, 0 < f.2.length ∧ f.2.length ≤ 255) (m : LogMetadata)
    (started now : Nat) : ∃ r₁ r₂ d values,
      r.fragments L id ((started, m.asBytes) :: writes) = .ok r₁ ∧
      r₁.processChunk L (rawChunk id [tagEndOfStream]) now = .ok r₂ ∧ Clean L p d values ∧
      (Ended id (m.entry values false) r₁ r₂ ↔ d.state = .awaitingTag) := by
  subst hwrites
  have hencodes : Encodes L vs ([] ++ writes.flatMap snd ++ rest) := hcut.symm
  obtain ⟨r₀, s₀, hstart, hlookup₀, hs₀⟩ := processChunk_start (L := L) hnew m started
  obtain ⟨r₁, s, hfragments, hlookup, hs⟩ := fragments_holds hsizes hencodes hlookup₀ hs₀
  have hread : r.fragments L id ((started, m.asBytes) :: writes) = .ok r₁ := by
    rw [Reader.fragments, hstart]
    exact hfragments
  have hchunk : r₁.processChunk L (rawChunk id [tagEndOfStream]) now = _ :=
    processChunk_rawChunk (by decide) (by decide) now
  rw [stream_of_some hlookup] at hchunk
  have ht : StreamState.Holds L m _ { s with
      lastActivity := now, bytesSeen := s.bytesSeen + [tagEndOfStream].length } :=
    ⟨hs.pos, hs.metadata, hs.read, hs.clean⟩
  by_cases hstate : s.decoder.state = .awaitingTag
  · rw [feedData_end ht hstate] at hchunk
    refine ⟨r₁, _, s.decoder, s.values, hread, hchunk, hs.clean,
      iff_of_true ⟨?_, s.start, ?_⟩ hstate⟩
    · exact AList.lookup_erase _ _
    · show r₁.sink ++ _ = _
      rw [ht.finish]
  · obtain ⟨t, hfed⟩ := feedByte_cut ht hencodes hstate
    rw [StreamState.feedData, hfed] at hchunk
    refine ⟨r₁, _, s.decoder, s.values, hread, hchunk, hs.clean, iff_of_false ?_ hstate⟩
    intro hended
    have hnone : (r₁.streams.insert id t).lookup id = none := hended.1
    rw [AList.lookup_insert] at hnone
    cases hnone

end Drop

def sampleMetadata : LogMetadata :=
  { level := .info, timestamp := 7, source := 2, generation := 0, logId := 1, logSpecies := 42 }

/-- A byte is written, and the log is dropped. -/
theorem drop_ends_stream_u8 : ∃ r₁ r₂ d values,
    Reader.new.fragments sampleLayout 1 [(0, sampleMetadata.asBytes), (1, [0x02, 0x05])] = .ok r₁ ∧
    r₁.processChunk sampleLayout (rawChunk 1 [tagEndOfStream]) 2 = .ok r₂ ∧
    Clean sampleLayout [0x02, 0x05] d values ∧
    (Ended 1 (sampleMetadata.entry values false) r₁ r₂ ↔ d.state = .awaitingTag) :=
  drop_ends_stream_iff
    (show formatAll ([⟨.u8 5, .u8 5⟩].map Value.val) = [0x02, 0x05] ++ [] from rfl)
    rfl rfl (by decide) sampleMetadata 0 2

/-- The byte is not written.  The tag of the end is taken for it. -/
theorem cut_u8_stays_open : formatAll [.u8 5] = [0x02] ++ [0x05] ∧ ∃ r₁ r₂ s,
    Reader.new.fragments sampleLayout 1 [(0, sampleMetadata.asBytes), (1, [0x02])] = .ok r₁ ∧
    r₁.processChunk sampleLayout (rawChunk 1 [tagEndOfStream]) 2 = .ok r₂ ∧
    r₂.streams.lookup 1 = some s ∧ s.values = [.u8 0xFF] ∧ r₂.sink = [] :=
  ⟨rfl, _, _, _, rfl, rfl, rfl, rfl, rfl⟩

end Rcard.Log
