/-
A decoder after an error or the end of a stream.

`feed_byte` takes the state before it looks at the byte, so an error leaves the decoder waiting
for a tag.  The frames of the containers that were open stay on the stack, though, and the next
value goes into the top one.  So the decoder is as new exactly if no container was open.
-/
import Rcard.Log.Streams

namespace Rcard.Log

/-- What `decode_values` returns after a call, from what the rest of the loop gives. -/
def FeedResult.collect (rest : Except Fault (List OwnedValue)) :
    FeedResult → Except Fault (List OwnedValue)
  | done value => rest.map (value :: ·)
  | endOfStream => .ok []
  | incomplete => rest
  | error _ => rest

/-- The loop of `decode_values`.  A call takes at least one byte of what remains, so the length
is enough fuel. -/
def Decoder.decodeFrom (d : Decoder) : (fuel : Nat) → List UInt8 → Except Fault (List OwnedValue)
  | 0, _ => .ok []
  | _ + 1, [] => .ok []
  | fuel + 1, byte :: bytes =>
    (d.feed (byte :: bytes)).bind fun call =>
      call.result.collect (call.decoder.decodeFrom fuel ((byte :: bytes).drop call.count))

def decodeValues (data : List UInt8) : Except Fault (List OwnedValue) :=
  Decoder.new.decodeFrom data.length data

/-! ## The state -/

/-- What a step leaves if it has a result. -/
def Tagged (step : Step) : Prop :=
  ∀ fed, step = .ok fed → fed.result ≠ .incomplete → fed.decoder.state = .awaitingTag

theorem closed_tagged : Closed Tagged where
  error _ := nofun
  await _ _ _ fed h hresult := by
    cases h
    exact absurd rfl hresult
  fail _ _ fed h _ := by
    cases h
    rfl
  done _ fed h _ := by
    cases h
    rfl

theorem tagged_feedByte (d : Decoder) (byte : UInt8) : Tagged (d.feedByte byte) := by
  refine closed_tagged.feedByte fun _ => closed_tagged.handleTag (fun fed h _ => ?_) byte
  cases h
  rfl

/-- An error or the end of the stream leaves the decoder waiting for a tag. -/
theorem state_of_feed {d : Decoder} {bytes : List UInt8} {call : Call}
    (h : d.feed bytes = .ok call) (hresult : call.result ≠ .incomplete) :
    call.decoder.state = .awaitingTag := by
  induction bytes generalizing d call with
  | nil =>
    cases h
    exact absurd rfl hresult
  | cons byte bytes ih =>
    obtain ⟨fed, hfed, hcall⟩ := exists_of_bind_eq_ok h
    split at hcall
    · obtain ⟨rest, hrest, rfl⟩ := exists_of_map_eq_ok hcall
      have hstate := ih hrest hresult
      exact hstate
    · cases hcall
      exact tagged_feedByte d byte fed hfed hresult

/-! ## The stack -/

/-- A unit comes out as a value only if no container is open. -/
theorem stack_of_unit {stack : List Frame} {value : OwnedValue} {fed : Fed}
    (h : completeValue stack value = .ok fed) (hdone : fed.result = .done .unit) :
    stack = [] ∧ value = .unit := by
  induction stack generalizing value with
  | nil =>
    cases h
    exact ⟨rfl, FeedResult.done.inj hdone⟩
  | cons frame stack ih => cases frame <;> grind [completeValue, await, awaitVarint]

theorem stack_of_same {d : Decoder} (hstate : d.state = .awaitingTag)
    (h : ∀ chunks, d.feedChunks chunks = Decoder.new.feedChunks chunks) : d.stack = [] := by
  have hunit := congrArg (Except.map Session.ran) (h [[tagUnit]])
  rw [feedChunks_run] at hunit
  have hran : d.run [tagUnit] = .ok ⟨.new, [.done .unit], []⟩ := hunit
  obtain ⟨fed, hfed, hran⟩ := exists_of_bind_eq_ok hran
  obtain ⟨ran, hnil, hafter⟩ := exists_of_map_eq_ok hran
  cases hnil
  have hresult : fed.result = .done .unit := by
    cases hr : fed.result <;> simp_all [Ran.after, FeedResult.emitted]
  rw [Decoder.feedByte, hstate] at hfed
  exact (stack_of_unit hfed hresult).1

/-! ## The callers -/

/-- Values that are read are what `decode_values` returns. -/
theorem decodeFrom_of_run {d : Decoder} {fuel : Nat} {data : List UInt8} {ran : Ran}
    {values : List OwnedValue} (hfuel : data.length ≤ fuel) (h : d.run data = .ok ran)
    (hresults : ran.results = values.map .done) : d.decodeFrom fuel data = .ok values := by
  induction fuel generalizing d data ran values with
  | zero =>
    rw [List.eq_nil_of_length_eq_zero (Nat.le_zero.mp hfuel)] at h
    cases h
    rw [List.map_eq_nil_iff.mp hresults.symm]
    rfl
  | succ fuel ih =>
    cases data with
    | nil =>
      cases h
      rw [List.map_eq_nil_iff.mp hresults.symm]
      rfl
    | cons byte bytes =>
      rw [run_feed] at h
      obtain ⟨call, hcall, hmore⟩ := exists_of_bind_eq_ok h
      obtain ⟨tail, htail, rfl⟩ := exists_of_map_eq_ok hmore
      have hlen := length_drop_feed hcall hfuel
      have hall : call.result.emitted ++ tail.results = values.map .done := hresults
      rw [Decoder.decodeFrom, hcall]
      show call.result.collect (call.decoder.decodeFrom fuel _) = _
      generalize hresult : call.result = result at hall ⊢
      cases result with
      | incomplete =>
        exact ih hlen htail hall
      | done value =>
        obtain ⟨first, rest, rfl, hfirst, hrest⟩ := List.map_eq_cons_iff.mp hall.symm
        cases hfirst
        rw [ih hlen htail hrest.symm]
        rfl
      | _ =>
        obtain ⟨first, rest, rfl, hfirst, hrest⟩ := List.map_eq_cons_iff.mp hall.symm
        cases hfirst

/-- A decoder that reported an error or the end of a stream is as new exactly if no container
is open, and both callers then return the values of whatever complete list comes next. -/
theorem recovers_iff (d : Decoder) (bytes : List UInt8) (call : Call)
    (hcall : d.feed bytes = .ok call)
    (hresult : call.result = .endOfStream ∨ ∃ e, call.result = .error e) :
    ((∀ chunks, call.decoder.feedChunks chunks = Decoder.new.feedChunks chunks) ↔
      call.decoder.stack = []) ∧
    (call.decoder.stack = [] → ∀ (L : Layout) (vs : List (Value L)),
      (∀ fuel, (formatAll (vs.map Value.val)).length ≤ fuel →
        call.decoder.decodeFrom fuel (formatAll (vs.map Value.val)) = .ok (vs.map Value.val)) ∧
      ∀ stream : StreamState, stream.metaPos = metadataSize → stream.decoder = call.decoder →
        stream.feedData L (formatAll (vs.map Value.val)) =
          .ok ({ stream with decoder := .new, values := stream.values ++ vs.map Value.val },
            false)) := by
  have hstate : call.decoder.state = .awaitingTag := by
    refine state_of_feed hcall ?_
    rintro hnone
    rcases hresult with hend | ⟨e, he⟩
    · cases hnone.symm.trans hend
    · cases hnone.symm.trans he
  have hnew : call.decoder.stack = [] → call.decoder = .new := by
    rintro hstack
    rcases hd : call.decoder with ⟨state, stack⟩
    rw [hd] at hstate hstack
    exact congr (congrArg Decoder.mk hstate) hstack
  refine ⟨⟨stack_of_same hstate, fun hstack chunks => by rw [hnew hstack]⟩, ?_⟩
  intro hstack L vs
  obtain ⟨requests, hgranted, hrun⟩ := run_formatAll vs
  have hvalues : (vs.map fun v => FeedResult.done v.val) = (vs.map Value.val).map .done := by simp
  refine ⟨fun fuel hfuel => ?_, fun stream hpos hdecoder => ?_⟩
  · rw [hnew hstack]
    exact decodeFrom_of_run hfuel hrun hvalues
  · rw [hnew hstack] at hdecoder
    exact feedData_of_run hpos (by rw [hdecoder]; exact hrun) hgranted hvalues

theorem recovers_iff_badTag : ∃ call, Decoder.new.feed [0xEE] = .ok call ∧
    (call.result = .endOfStream ∨ ∃ e, call.result = .error e) ∧
    ∀ chunks, call.decoder.feedChunks chunks = Decoder.new.feedChunks chunks :=
  ⟨_, rfl, .inr ⟨_, rfl⟩, (recovers_iff .new [0xEE] _ rfl (.inr ⟨_, rfl⟩)).1.mpr rfl⟩

/-- After an error inside an array the values that follow go into it. -/
theorem open_array_swallows : ∃ call, Decoder.new.feed [tagArray, 2, 0xEE] = .ok call ∧
    call.result = .error (.invalidTag 0xEE) ∧
    (¬∀ chunks, call.decoder.feedChunks chunks = Decoder.new.feedChunks chunks) ∧
    decodeValues ([tagArray, 2, 0xEE] ++ formatAll [.unit]) = .ok [] := by
  refine ⟨_, rfl, rfl, fun h => ?_, rfl⟩
  cases stack_of_same rfl h

end Rcard.Log
