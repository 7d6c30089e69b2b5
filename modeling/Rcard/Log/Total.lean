/-
The decoder on any input.

Only one step of the decoder can fault.  The length of a string is a varint of up to
128 bits, which is compared with zero before it is cut to 64 bits.  A length that is a
multiple of `2 ^ 64` leaves a string with no bytes to read, and the next byte
decrements that count.  All other counts are compared with zero after the cut.

Lengths are also what the decoder allocates for, as soon as it has read them.
-/
import Mathlib.Data.List.Induction
import Rcard.Log.Decoder

namespace Rcard.Log

open List Decoder State

/-! ## What the states keep -/

def Frame.remaining : Frame → UInt64
  | array remaining _ => remaining
  | slice remaining _ => remaining
  | tuple _ remaining _ => remaining
  | struct _ remaining _ _ => remaining

def VarintPurpose.Known : VarintPurpose → Prop
  | unsignedValue tag => tag = tagU16 ∨ tag = tagU32 ∨ tag = tagU64 ∨ tag = tagU128
  | signedValue tag => tag = tagI16 ∨ tag = tagI32 ∨ tag = tagI64 ∨ tag = tagI128
  | _ => True

def State.Inv : State → Prop
  | readingVarint _ _ purpose => purpose.Known
  | readingFixed buf expected got _ => buf.length = 8 ∧ got < expected ∧ expected ≤ 8
  | readingStackDumpHeader buf pos => buf.length = 72 ∧ pos < 72
  | readingStackDumpLength _ lenBuf pos => lenBuf.length = 4 ∧ pos < 4
  | readingStackDumpData _ _ remaining => remaining ≠ 0
  | _ => True

structure Decoder.Inv (d : Decoder) : Prop where
  state : d.state.Inv
  frames : ∀ frame ∈ d.stack, frame.remaining ≠ 0

/-- A string is read that has no bytes left. -/
def State.Drained : State → Prop
  | readingString _ remaining => remaining = 0
  | _ => False

/-! ## Lengths in the input -/

/-- What a varint of this purpose counts. -/
def VarintPurpose.counts : VarintPurpose → Option Elem
  | stringLength => some .byte
  | containerLength _ => some .value
  | tupleFieldCount _ => some .value
  | structFieldCount _ => some .field
  | _ => none

/-- The length that is complete with this byte. -/
def State.declared (state : State) (byte : UInt8) : Option (Elem × Nat) :=
  match state with
  | readingVarint acc shift purpose =>
    if shift ≥ 128 ∨ byte &&& 0x80 ≠ 0 then none
    else purpose.counts.map fun elem => (elem, (Varint.accumulate acc shift byte).toNat)
  | readingStackDumpLength _ lenBuf pos =>
    if pos + 1 < 4 then none
    else some (.byte, (UInt32.ofNat (leNat (lenBuf.set pos byte))).toNat)
  | _ => none

/-- What is allocated for a length.  Only strings are compared before the cut. -/
def requestsFor : Option (Elem × Nat) → List Request
  | none => []
  | some (.byte, n) => if n = 0 then [] else [⟨.byte, UInt64.ofNat n⟩]
  | some (elem, n) => if UInt64.ofNat n = 0 then [] else [⟨elem, UInt64.ofNat n⟩]

/-- A length that leaves a string with no bytes to read. -/
def Wraps (declared : Option (Elem × Nat)) : Prop :=
  ∃ n, declared = some (.byte, n) ∧ n ≠ 0 ∧ UInt64.ofNat n = 0

/-! ## One step -/

/-- The step does not fault.  It allocates for `declared` and for nothing else. -/
def Sound (depth : Nat) (declared : Option (Elem × Nat)) (step : Step) : Prop :=
  ∃ fed, step = .ok fed ∧ fed.decoder.Inv ∧ fed.decoder.stack.length ≤ depth ∧
    fed.requests = requestsFor declared ∧ (fed.decoder.state.Drained ↔ Wraps declared)

theorem not_wraps_none : ¬ Wraps none := nofun

theorem not_wraps_count {elem : Elem} {n : Nat} (h : elem ≠ .byte) : ¬ Wraps (some (elem, n)) := by
  rintro ⟨m, hm, _⟩
  exact h (congrArg Prod.fst (Option.some.inj hm))

theorem requestsFor_count {elem : Elem} {n : Nat} (h : elem ≠ .byte) :
    requestsFor (some (elem, n)) =
      if UInt64.ofNat n = 0 then [] else [⟨elem, UInt64.ofNat n⟩] := by
  cases elem with
  | byte => exact absurd rfl h
  | value => rfl
  | field => rfl

theorem exists_unsignedValue {tag : UInt8}
    (h : tag = tagU16 ∨ tag = tagU32 ∨ tag = tagU64 ∨ tag = tagU128) (raw : BitVec 128) :
    ∃ value, unsignedValue tag raw = some value := by
  rcases h with rfl | rfl | rfl | rfl
  · exact ⟨_, rfl⟩
  · exact ⟨_, rfl⟩
  · exact ⟨_, rfl⟩
  · exact ⟨_, rfl⟩

theorem exists_signedValue {tag : UInt8}
    (h : tag = tagI16 ∨ tag = tagI32 ∨ tag = tagI64 ∨ tag = tagI128) (raw : BitVec 128) :
    ∃ value, signedValue tag raw = some value := by
  rcases h with rfl | rfl | rfl | rfl
  · exact ⟨_, rfl⟩
  · exact ⟨_, rfl⟩
  · exact ⟨_, rfl⟩
  · exact ⟨_, rfl⟩

section Steps

variable {stack : List Frame} {depth : Nat}

theorem Sound.mono {declared : Option (Elem × Nat)} {step : Step} {depth' : Nat}
    (h : Sound depth declared step) (hle : depth ≤ depth') : Sound depth' declared step := by
  grind [Sound]

theorem asU64_eq (raw : BitVec 128) : asU64 raw = UInt64.ofNat raw.toNat := by
  apply UInt64.toNat_inj.mp
  exact BitVec.toNat_setWidth 64 raw

variable {state : State}

theorem sound_await (hframes : ∀ frame ∈ stack, frame.remaining ≠ 0) (hdepth : stack.length ≤ depth)
    (hstate : state.Inv) (hdrained : ¬ state.Drained) : Sound depth none (await stack state []) :=
  ⟨_, rfl, ⟨hstate, hframes⟩, hdepth, rfl, iff_of_false hdrained not_wraps_none⟩

theorem sound_decrement {remaining : UInt64} {last more : Step} (hne : remaining ≠ 0)
    (hlast : Sound depth none last) (hmore : remaining - 1 ≠ 0 → Sound depth none more) :
    Sound depth none (if remaining = 0 then .error .underflow
      else if remaining - 1 = 0 then last else more) := by
  rw [if_neg hne]
  exact iteInduction (fun _ => hlast) hmore

/-- A container whose length is not zero. -/
theorem sound_open {frame : Frame} {elem : Elem} {n : Nat}
    (hframes : ∀ frame ∈ stack, frame.remaining ≠ 0) (hframe : frame.remaining = UInt64.ofNat n)
    (hne : UInt64.ofNat n ≠ 0) (helem : elem ≠ .byte) (hstate : state.Inv)
    (hdrained : ¬ state.Drained) : Sound (stack.length + 1) (some (elem, n))
      (await (frame :: stack) state [⟨elem, UInt64.ofNat n⟩]) := by
  refine ⟨_, rfl, ⟨hstate, ?_⟩, Nat.le_refl _, ?_, iff_of_false hdrained (not_wraps_count helem)⟩
  · grind
  · rw [requestsFor_count helem, if_neg hne]

variable (hframes : ∀ frame ∈ stack, frame.remaining ≠ 0)
include hframes

theorem sound_fail (e : DecodeError) : Sound stack.length none (fail stack e) :=
  ⟨_, rfl, ⟨trivial, hframes⟩, Nat.le_refl _, rfl, iff_of_false id not_wraps_none⟩

theorem sound_awaitVarint {purpose : VarintPurpose} (hknown : purpose.Known) :
    Sound stack.length none (awaitVarint stack purpose) :=
  sound_await hframes (Nat.le_refl _) hknown id

theorem sound_completeValue (value : OwnedValue) :
    Sound stack.length none (completeValue stack value) := by
  induction stack generalizing value with
  | nil => exact ⟨_, rfl, ⟨trivial, nofun⟩, Nat.le_refl _, rfl, iff_of_false id not_wraps_none⟩
  | cons frame stack ih =>
    have hframe := hframes frame mem_cons_self
    have hstack : ∀ frame ∈ stack, frame.remaining ≠ 0 :=
      fun other hother => hframes other (mem_cons_of_mem frame hother)
    have hpop : ∀ value, Sound (frame :: stack).length none (completeValue stack value) :=
      fun value => (ih hstack value).mono (Nat.le_succ _)
    have hpush : ∀ {next : Frame}, next.remaining ≠ 0 →
        ∀ other ∈ next :: stack, other.remaining ≠ 0 := by grind
    cases frame with
    | array remaining children | slice remaining children | tuple typeId remaining fields =>
      exact sound_decrement hframe (hpop _) fun hmore =>
        sound_await (hpush hmore) (Nat.le_refl _) trivial id
    | struct typeId remaining currentFieldId fields =>
      refine sound_decrement hframe (hpop _) fun hmore => sound_awaitVarint ?_ trivial
      exact hpush hmore

theorem sound_handleTag (tag : UInt8) : Sound stack.length none (handleTag stack tag) := by
  refine iteInduction (fun _ => sound_completeValue hframes _) fun _ => ?_
  refine iteInduction (fun _ => sound_await hframes (Nat.le_refl _) trivial id) fun _ => ?_
  refine iteInduction (fun htag => sound_awaitVarint hframes htag) fun _ => ?_
  refine iteInduction (fun htag => sound_awaitVarint hframes htag) fun _ => ?_
  refine iteInduction (fun _ => sound_await hframes (Nat.le_refl _)
    ⟨rfl, by decide, by decide⟩ id) fun _ => ?_
  refine iteInduction (fun _ => sound_await hframes (Nat.le_refl _)
    ⟨rfl, by decide, by decide⟩ id) fun _ => ?_
  refine iteInduction (fun _ => sound_awaitVarint hframes trivial) fun _ => ?_
  refine iteInduction (fun _ => sound_awaitVarint hframes trivial) fun _ => ?_
  refine iteInduction (fun _ => sound_awaitVarint hframes trivial) fun _ => ?_
  refine iteInduction (fun _ => sound_awaitVarint hframes trivial) fun _ => ?_
  refine iteInduction (fun _ => sound_awaitVarint hframes trivial) fun _ => ?_
  refine iteInduction (fun _ => sound_await hframes (Nat.le_refl _)
    ⟨length_replicate, by decide⟩ id) fun _ => ?_
  refine iteInduction (fun _ => ?_) fun _ => sound_fail hframes _
  exact ⟨_, rfl, ⟨trivial, hframes⟩, Nat.le_refl _, rfl, iff_of_false id not_wraps_none⟩

theorem frames_setFieldId (fieldId : UInt64) :
    ∀ frame ∈ setFieldId fieldId stack, frame.remaining ≠ 0 := by
  rw [setFieldId.eq_def]
  split
  · rename_i typeId remaining current fields rest
    intro frame hframe
    rcases mem_cons.mp hframe with rfl | hframe
    · exact hframes (.struct typeId remaining current fields) mem_cons_self
    · exact hframes frame (mem_cons_of_mem _ hframe)
  · exact hframes

omit hframes in
theorem length_setFieldId (fieldId : UInt64) :
    (setFieldId fieldId stack).length = stack.length := by
  rw [setFieldId.eq_def]
  split <;> rfl

/-- A length of zero bytes. -/
theorem sound_noBytes (value : OwnedValue) :
    Sound (stack.length + 1) (some (.byte, 0)) (completeValue stack value) := by
  obtain ⟨fed, hstep, hinv, hdepth, hrequests, hfed⟩ := sound_completeValue hframes value
  refine ⟨fed, hstep, hinv, Nat.le_succ_of_le hdepth, hrequests, ?_⟩
  grind [Wraps]

/-- A container whose length is read. -/
theorem sound_count {elem : Elem} {raw : BitVec 128} {frame : Frame} {value : OwnedValue}
    (helem : elem ≠ .byte) (hframe : frame.remaining = asU64 raw) (hstate : state.Inv)
    (hdrained : ¬ state.Drained) :
    Sound (stack.length + 1) (some (elem, raw.toNat))
      (if asU64 raw = 0 then completeValue stack value
       else await (frame :: stack) state [⟨elem, asU64 raw⟩]) := by
  rw [asU64_eq] at ⊢
  by_cases hzero : UInt64.ofNat raw.toNat = 0
  · rw [if_pos hzero]
    obtain ⟨fed, hstep, hinv, hdepth, hrequests, hfed⟩ := sound_completeValue hframes value
    refine ⟨fed, hstep, hinv, Nat.le_succ_of_le hdepth, ?_, ?_⟩
    · rw [hrequests, requestsFor_count helem, if_pos hzero]
      rfl
    · exact iff_of_false (fun h => not_wraps_none (hfed.mp h)) (not_wraps_count helem)
  · rw [if_neg hzero]
    exact sound_open hframes hframe hzero helem hstate hdrained

theorem sound_stringLength (raw : BitVec 128) :
    Sound (stack.length + 1) (some (.byte, raw.toNat))
      (handleVarintComplete stack raw .stringLength) := by
  rw [handleVarintComplete]
  by_cases hzero : raw = 0
  · subst hzero
    exact sound_noBytes hframes _
  · have hne : raw.toNat ≠ 0 := fun h => hzero (BitVec.eq_of_toNat_eq h)
    rw [if_neg hzero, asU64_eq]
    refine ⟨_, rfl, ⟨trivial, hframes⟩, Nat.le_succ _, (if_neg hne).symm, ?_⟩
    grind [Drained, Wraps]

theorem sound_handleVarintComplete (raw : BitVec 128) {purpose : VarintPurpose}
    (hknown : purpose.Known) :
    Sound (stack.length + 1) (purpose.counts.map fun elem => (elem, raw.toNat))
      (handleVarintComplete stack raw purpose) := by
  have hcomplete : ∀ value, Sound (stack.length + 1) none (completeValue stack value) :=
    fun value => (sound_completeValue hframes value).mono (Nat.le_succ _)
  cases purpose with
  | unsignedValue tag =>
    obtain ⟨value, hvalue⟩ := exists_unsignedValue hknown raw
    rw [handleVarintComplete, hvalue]
    exact hcomplete value
  | signedValue tag =>
    obtain ⟨value, hvalue⟩ := exists_signedValue hknown raw
    rw [handleVarintComplete, hvalue]
    exact hcomplete value
  | charValue =>
    rw [handleVarintComplete]
    split
    · exact hcomplete _
    · exact (sound_fail hframes _).mono (Nat.le_succ _)
  | stringLength => exact sound_stringLength hframes raw
  | containerLength tag =>
    refine sound_count hframes (by decide) ?_ trivial id
    grind [Frame.remaining]
  | tupleTypeId | structTypeId =>
    refine Sound.mono ?_ (Nat.le_succ _)
    exact sound_awaitVarint hframes trivial
  | tupleFieldCount typeId | structFieldCount typeId =>
    exact sound_count hframes (by decide) rfl trivial id
  | structFieldId =>
    exact sound_await (frames_setFieldId hframes _)
      (by rw [length_setFieldId]; exact Nat.le_succ _) trivial id

end Steps

theorem sound_dumpLength {stack : List Frame} (hframes : ∀ frame ∈ stack, frame.remaining ≠ 0)
    (header : List UInt8) (remaining : UInt32) :
    Sound (stack.length + 1) (some (.byte, remaining.toNat))
      (if remaining = 0 then completeValue stack (.stackDump (stackDumpFromHeader header []))
       else await stack (.readingStackDumpData header [] remaining)
        [⟨.byte, remaining.toUInt64⟩]) := by
  by_cases hzero : remaining = 0
  · subst hzero
    exact sound_noBytes hframes _
  · have hne : remaining.toNat ≠ 0 := fun h => hzero (UInt32.toNat_inj.mp h)
    have hcount : remaining.toUInt64 = UInt64.ofNat remaining.toNat := by
      have hlt := remaining.toNat_lt
      apply UInt64.toNat_inj.mp
      rw [UInt32.toNat_toUInt64, UInt64.toNat_ofNat']
      omega
    rw [if_neg hzero]
    refine ⟨_, rfl, ⟨hzero, hframes⟩, Nat.le_succ _, ?_, iff_of_false id ?_⟩
    · rw [requestsFor, if_neg hne, hcount]
    · rintro ⟨n, hn, _, hwrap⟩
      cases hn
      have hnat := congrArg UInt64.toNat hwrap
      have hlt := remaining.toNat_lt
      rw [UInt64.toNat_ofNat'] at hnat
      have h0 : (0 : UInt64).toNat = 0 := rfl
      omega

variable {d : Decoder} {bytes : List UInt8} {ran : Ran}

/-- Every step from a state with bytes left to read. -/
theorem sound_feedByte (hinv : d.Inv) (hdrained : ¬ d.state.Drained) (byte : UInt8) :
    Sound (d.stack.length + 1) (d.state.declared byte) (d.feedByte byte) := by
  obtain ⟨state, stack⟩ := d
  obtain ⟨hstate, hframes⟩ := hinv
  have hcomplete : ∀ value, Sound (stack.length + 1) none (completeValue stack value) :=
    fun value => (sound_completeValue hframes value).mono (Nat.le_succ _)
  have hfail : ∀ e, Sound (stack.length + 1) none (fail stack e) :=
    fun e => (sound_fail hframes e).mono (Nat.le_succ _)
  have hawait : ∀ {state : State}, state.Inv → ¬ state.Drained →
      Sound (stack.length + 1) none (await stack state []) :=
    fun h hd => sound_await hframes (Nat.le_succ _) h hd
  cases state with
  | awaitingTag => exact (sound_handleTag hframes byte).mono (Nat.le_succ _)
  | readingSingleByte tag =>
    grind [declared, feedByte]
  | readingVarint acc shift purpose =>
    rw [feedByte, declared]
    dsimp only
    by_cases hover : shift ≥ 128
    · rw [if_pos hover, if_pos (.inl hover)]
      exact hfail _
    · by_cases hmore : byte &&& 0x80 ≠ 0
      · rw [if_neg hover, if_pos hmore, if_pos (.inr hmore)]
        exact hawait hstate id
      · rw [if_neg hover, if_neg hmore, if_neg (not_or.mpr ⟨hover, hmore⟩)]
        exact sound_handleVarintComplete hframes _ hstate
  | readingFixed buf expected got isF64 =>
    obtain ⟨hlen, hgot, hexpected⟩ := hstate
    rw [feedByte]
    dsimp only
    rw [if_neg (by omega)]
    refine iteInduction (fun hmore => hawait ⟨?_, hmore, hexpected⟩ id) fun _ => ?_
    · rw [length_set, hlen]
    · exact iteInduction (fun _ => hcomplete _) fun _ => hcomplete _
  | readingString buf remaining =>
    have hne : remaining ≠ 0 := hdrained
    rw [feedByte]
    dsimp only
    rw [if_neg hne]
    refine iteInduction (fun hmore => hawait trivial (UInt64.pos_iff_ne_zero.mp hmore)) fun _ => ?_
    split
    · exact hcomplete _
    · exact hfail _
  | readingStackDumpHeader buf pos =>
    obtain ⟨hlen, hpos⟩ := hstate
    rw [feedByte]
    dsimp only
    rw [if_neg (by omega)]
    refine iteInduction (fun hmore => hawait ⟨?_, hmore⟩ id) fun _ => ?_
    · rw [length_set, hlen]
    · exact hawait ⟨rfl, by decide⟩ id
  | readingStackDumpLength header lenBuf pos =>
    obtain ⟨hlen, hpos⟩ := hstate
    have hroom : ¬ lenBuf.length ≤ pos := by omega
    rw [feedByte, declared]
    dsimp only
    rw [if_neg hroom]
    by_cases hmore : pos + 1 < 4
    · rw [if_pos hmore, if_pos hmore]
      refine hawait ⟨?_, hmore⟩ id
      rw [length_set, hlen]
    · rw [if_neg hmore, if_neg hmore]
      exact sound_dumpLength hframes header _
  | readingStackDumpData header buf remaining =>
    have hne : remaining ≠ 0 := hstate
    rw [feedByte]
    dsimp only
    rw [if_neg hne]
    exact iteInduction (fun hmore => hawait (UInt32.pos_iff_ne_zero.mp hmore) id) fun _ =>
      hcomplete _

theorem feedByte_drained (h : d.state.Drained) (byte : UInt8) :
    d.feedByte byte = .error .underflow := by
  obtain ⟨state, stack⟩ := d
  cases state with
  | readingString buf remaining => exact if_pos h
  | _ => exact h.elim

theorem shift_lt_or_overflow {acc : BitVec 128} {shift : Nat} {purpose : VarintPurpose}
    (h : d.state = .readingVarint acc shift purpose) (byte : UInt8) :
    shift < 128 ∨ d.feedByte byte = fail d.stack .varintOverflow := by
  rcases Nat.lt_or_ge shift 128 with hlt | hge
  · exact .inl hlt
  · right
    rw [feedByte, h]
    exact if_pos hge

/-! ## Runs -/

theorem inv_new : Decoder.new.Inv := ⟨trivial, nofun⟩

theorem run_concat (h : d.run bytes = .ok ran) (byte : UInt8) :
    d.run (bytes ++ [byte]) = (ran.decoder.feedByte byte).map fun fed =>
      { decoder := fed.decoder, results := ran.results ++ fed.result.emitted
        requests := ran.requests ++ fed.requests } := by
  rw [run_append, h]
  show (ran.decoder.run [byte]).map _ = _
  rw [run]
  cases ran.decoder.feedByte byte with
  | error fault => rfl
  | ok fed =>
    refine congrArg Except.ok ?_
    simp [Ran.after]

theorem exists_of_run_concat {byte : UInt8} (h : d.run (bytes ++ [byte]) = .ok ran) :
    ∃ before fed, d.run bytes = .ok before ∧
      before.decoder.feedByte byte = .ok fed ∧ ran.decoder = fed.decoder ∧
      ran.requests = before.requests ++ fed.requests := by
  obtain ⟨before, hbefore, _⟩ := exists_of_bind_eq_ok ((run_append d bytes [byte]).symm.trans h)
  rw [run_concat hbefore] at h
  obtain ⟨fed, hfed, rfl⟩ := exists_of_map_eq_ok h
  exact ⟨before, fed, hbefore, hfed, rfl, rfl⟩

theorem sound_of_ok {byte : UInt8} {fed : Fed} (hinv : d.Inv) (h : d.feedByte byte = .ok fed) :
    fed.decoder.Inv ∧
      fed.decoder.stack.length ≤ d.stack.length + 1 ∧
      fed.requests = requestsFor (d.state.declared byte) ∧
      (fed.decoder.state.Drained ↔ Wraps (d.state.declared byte)) := by
  have hdrained : ¬ d.state.Drained := by
    intro hdrained
    rw [feedByte_drained hdrained] at h
    cases h
  obtain ⟨fed', hfed', hsound⟩ := sound_feedByte hinv hdrained byte
  cases h.symm.trans hfed'
  exact hsound

theorem run_inv (h : Decoder.new.run bytes = .ok ran) :
    ran.decoder.Inv ∧ ran.decoder.stack.length ≤ bytes.length := by
  induction bytes using List.reverseRecOn generalizing ran with
  | nil =>
    cases h
    exact ⟨inv_new, Nat.le_refl _⟩
  | append_singleton bytes byte ih =>
    obtain ⟨before, fed, hbefore, hfed, hdecoder, _⟩ := exists_of_run_concat h
    obtain ⟨hinv, hdepth⟩ := ih hbefore
    obtain ⟨hinv', hdepth', _⟩ := sound_of_ok hinv hfed
    grind

/-- The decoder after `before`, when `next` comes and then `rest`. -/
structure Reached (bytes before : List UInt8) (next : UInt8) (rest : List UInt8) (ran : Ran) :
    Prop where
  split : bytes = before ++ next :: rest
  run : Decoder.new.run before = .ok ran

/-- What follows in a run that reaches its end. -/
theorem Reached.exists_fed {before rest : List UInt8} {next : UInt8} {all : Ran}
    (h : Reached bytes before next rest ran) (hall : Decoder.new.run bytes = .ok all) :
    ∃ fed tail, ran.decoder.feedByte next = .ok fed ∧ fed.decoder.run rest = .ok tail ∧
      ∀ r ∈ fed.requests, r ∈ all.requests := by
  rw [h.split, run_append, h.run] at hall
  obtain ⟨more, hmore, rfl⟩ := exists_of_map_eq_ok hall
  obtain ⟨fed, hfed, htail⟩ := exists_of_bind_eq_ok hmore
  obtain ⟨tail, hrest, rfl⟩ := exists_of_map_eq_ok htail
  refine ⟨fed, tail, hfed, hrest, fun r hr => ?_⟩
  exact mem_append_right _ (mem_append_left _ hr)

/-! ## The condition -/

section Condition

variable (L : Layout) (c : Nat) (chunks : List (List UInt8))

/-- No panic, no underflow, and allocations of at most `c` bytes for each byte fed. -/
structure Total : Prop where
  returns : ∃ s, Decoder.new.feedChunks chunks = .ok s ∧ ∀ r ∈ s.requests, r.Granted L
  bounded : ∀ before next rest ran fed, Reached chunks.flatten before next rest ran →
    ran.decoder.feedByte next = .ok fed → ∀ r ∈ fed.requests, r.size L ≤ c * (before.length + 1)
  shifts : ∀ before next rest ran acc shift purpose, Reached chunks.flatten before next rest ran →
    ran.decoder.state = .readingVarint acc shift purpose →
      shift < 128 ∨ ran.decoder.feedByte next = fail ran.decoder.stack .varintOverflow
  depth : ∀ before next rest ran, Reached chunks.flatten before next rest ran →
    ran.decoder.stack.length ≤ before.length

/-- The input has a length that, cut to 64 bits, is no more than it may be. -/
structure Backed (fed : Nat) (elem : Elem) (n : Nat) (rest : List UInt8) : Prop where
  granted : (UInt64.ofNat n).toNat * L.size elem ≤ isizeMax
  bounded : (UInt64.ofNat n).toNat * L.size elem ≤ c * fed
  nonzero : elem = .byte → n ≠ 0 → UInt64.ofNat n = 0 → rest = []

variable {L c chunks}
variable {elem : Elem}

theorem bounded_ite {count : UInt64} {bound : Nat} {c : Prop} [Decidable c]
    (hzero : c → count = 0) : (∀ r ∈ if c then [] else [Request.mk elem count], r.size L ≤ bound) ↔
      count.toNat * L.size elem ≤ bound := by
  by_cases h : c
  · rw [if_pos h, hzero h]
    simp
  · rw [if_neg h]
    exact forall_mem_singleton

theorem requestsFor_bounded {n bound : Nat} :
    (∀ r ∈ requestsFor (some (elem, n)), r.size L ≤ bound) ↔
      (UInt64.ofNat n).toNat * L.size elem ≤ bound := by
  cases elem with
  | byte => exact bounded_ite fun h => congrArg UInt64.ofNat h
  | value => exact bounded_ite id
  | field => exact bounded_ite id

theorem Total.backed (h : Total L c chunks) {before rest : List UInt8} {next : UInt8} {ran : Ran}
    {n : Nat} (hr : Reached chunks.flatten before next rest ran)
    (hdeclared : ran.decoder.state.declared next = some (elem, n)) :
    Backed L c (before.length + 1) elem n rest := by
  obtain ⟨s, hs, hgranted⟩ := h.returns
  have hall : new.run chunks.flatten = .ok s.ran := by rw [← feedChunks_run, hs]; rfl
  obtain ⟨fed, tail, hfed, htail, hsub⟩ := hr.exists_fed hall
  obtain ⟨_, _, hrequests, hdrained⟩ := sound_of_ok (run_inv hr.run).1 hfed
  rw [hdeclared] at hrequests hdrained
  refine ⟨?_, ?_, ?_⟩
  · rw [← requestsFor_bounded, ← hrequests]
    exact fun r hmem => hgranted r (hsub r hmem)
  · rw [← requestsFor_bounded, ← hrequests]
    exact h.bounded before next rest ran fed hr hfed
  · rintro rfl hne hzero
    cases rest with
    | nil => rfl
    | cons byte rest =>
      rw [run, feedByte_drained (hdrained.mpr ⟨n, rfl, hne, hzero⟩)] at htail
      cases htail

theorem requests_of_backed {state : State} {next : UInt8} {fed : Nat} {rest : List UInt8}
    (h : ∀ elem n, state.declared next = some (elem, n) → Backed L c fed elem n rest) :
    (∀ r ∈ requestsFor (state.declared next), r.Granted L ∧ r.size L ≤ c * fed) ∧
      (Wraps (state.declared next) → rest = []) := by
  cases hdeclared : state.declared next with
  | none => exact ⟨nofun, fun hwraps => absurd hwraps not_wraps_none⟩
  | some pair =>
    obtain ⟨elem, n⟩ := pair
    have hbacked := h elem n hdeclared
    refine ⟨fun r hr => ⟨?_, ?_⟩, ?_⟩
    · exact requestsFor_bounded.mpr hbacked.granted r hr
    · exact requestsFor_bounded.mpr hbacked.bounded r hr
    · rintro ⟨m, hm, hne, hzero⟩
      obtain ⟨rfl, rfl⟩ := Prod.mk.inj (Option.some.inj hm)
      exact hbacked.nonzero rfl hne hzero

section Backed

variable (h : ∀ before next rest ran elem n, Reached chunks.flatten before next rest ran →
  ran.decoder.state.declared next = some (elem, n) → Backed L c (before.length + 1) elem n rest)

include h

-- The induction is on the bytes fed so far.
theorem run_of_backed {before rest : List UInt8} (hsplit : chunks.flatten = before ++ rest) :
    ∃ ran, Decoder.new.run before = .ok ran ∧ (∀ r ∈ ran.requests, r.Granted L) ∧
      (ran.decoder.state.Drained → rest = []) := by
  induction before using List.reverseRecOn generalizing rest with
  | nil => exact ⟨_, rfl, nofun, False.elim⟩
  | append_singleton before next ih =>
    have hsplit' : chunks.flatten = before ++ next :: rest := by
      rw [hsplit, append_assoc, singleton_append]
    obtain ⟨ran, hran, hgranted, hdrained⟩ := ih hsplit'
    obtain ⟨hrequests, hwraps⟩ := requests_of_backed fun elem n =>
      h before next rest ran elem n ⟨hsplit', hran⟩
    obtain ⟨fed, hfed, _, _, hfedRequests, hfedDrained⟩ :=
      sound_feedByte (run_inv hran).1 (fun hd => cons_ne_nil _ _ (hdrained hd)) next
    rw [run_concat hran, hfed]
    refine ⟨_, rfl, fun r hr => ?_, fun hd => hwraps (hfedDrained.mp hd)⟩
    grind

theorem total_of_backed : Total L c chunks where
  returns := by
    obtain ⟨ran, hran, hgranted, _⟩ := run_of_backed h (append_nil _).symm
    rw [← feedChunks_run] at hran
    obtain ⟨s, hs, rfl⟩ := exists_of_map_eq_ok hran
    exact ⟨s, hs, hgranted⟩
  bounded := by
    intro before next rest ran fed hr hfed
    obtain ⟨_, _, hrequests, _⟩ := sound_of_ok (run_inv hr.run).1 hfed
    rw [hrequests]
    exact fun r hmem =>
      ((requests_of_backed fun elem n => h before next rest ran elem n hr).1 r hmem).2
  shifts := fun _ next _ _ _ _ _ _ hstate => shift_lt_or_overflow hstate next
  depth := fun _ _ _ _ hr => (run_inv hr.run).2

end Backed

/-- The decoder is total on an input exactly if every length in it is backed. -/
theorem feedChunks_total_iff (L : Layout) (c : Nat) (chunks : List (List UInt8)) :
    Total L c chunks ↔ ∀ before next rest ran elem n, Reached chunks.flatten before next rest ran →
      ran.decoder.state.declared next = some (elem, n) →
        Backed L c (before.length + 1) elem n rest := by
  constructor
  · intro h before next rest ran elem n hr hdeclared
    exact h.backed hr hdeclared
  · exact total_of_backed

end Condition

/-- A string of length `2 ^ 64`, and one byte of it. -/
def wrappedString : List UInt8 :=
  [tagStr, 0x80, 0x80, 0x80, 0x80, 0x80, 0x80, 0x80, 0x80, 0x80, 0x02, 0x41]

/-- An array of length `2 ^ 64 - 1`. -/
def hugeArray : List UInt8 :=
  [tagArray, 0xFF, 0xFF, 0xFF, 0xFF, 0xFF, 0xFF, 0xFF, 0xFF, 0xFF, 0x01]

theorem hugeArray_requests : ∃ s, Decoder.new.feedChunks [hugeArray] = .ok s ∧
    ⟨.value, 0xFFFFFFFFFFFFFFFF⟩ ∈ s.requests :=
  ⟨_, rfl, mem_singleton_self _⟩

/-- The first underflows.  The second asks for more than `isize::MAX`. -/
theorem hostile_input_faults : Decoder.new.feedChunks [wrappedString] = .error .underflow ∧
    ∀ (L : Layout) (c : Nat), ¬ Total L c [wrappedString] ∧ ¬ Total L c [hugeArray] := by
  have hfault : new.feedChunks [wrappedString] = .error .underflow := rfl
  refine ⟨hfault, fun L c => ⟨?_, ?_⟩⟩
  · rintro ⟨⟨s, hs, _⟩, _, _, _⟩
    cases hfault.symm.trans hs
  · rintro ⟨⟨s, hs, hgranted⟩, _, _, _⟩
    obtain ⟨s', hs', hmem⟩ := hugeArray_requests
    cases hs'.symm.trans hs
    have hsize : 0xFFFFFFFFFFFFFFFF * L.size .value ≤ isizeMax := hgranted _ hmem
    have hpos := L.pos .value
    rw [isizeMax] at hsize
    omega

end Rcard.Log
