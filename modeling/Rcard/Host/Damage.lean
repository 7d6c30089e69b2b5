/-
Damaged frames on the links to the host (`host/serial/src/usart2.rs`,
`host/usb/src/fob_reader.rs`).

A chunk of the serial link and a transfer of the fob each carry one frame, but both are pushed
into a `FrameReader`, which does not know that.  What a truncated frame leaves in its buffer, or
an oversized one in its count of bytes to drop, is taken out of the next frames.  A chunk is
contained if a new reader is as new after it, and that is if it is made of whole frames.  Frames
get through after every chunk of a traffic if, and only if, the chunks of that traffic are
contained.
-/
import Rcard.Host.Responses
import Rcard.Tunnel.Framing

namespace Rcard

open List FrameHeader HostUsb

namespace FrameReader

variable {N : Nat} {r : FrameReader N}

/-- What is pushed for a chunk, or nothing where the reader is reset.  Bytes that do not fit are
gone. -/
def take (r : FrameReader N) : Option (List UInt8) → List Report × FrameReader N
  | some bytes => (r.push bytes).1.drain
  | none => r.reset.drain

def Contained (N : Nat) (bytes : List UInt8) : Prop :=
  ((new : FrameReader N).take (some bytes)).2 = new

/-- The reader after some chunks. -/
def after (r : FrameReader N) (inputs : List (Option (List UInt8))) : FrameReader N :=
  inputs.foldl (fun r input => (r.take input).2) r

theorem after_contained {inputs : List (Option (List UInt8))}
    (h : ∀ bytes, some bytes ∈ inputs → Contained N bytes) :
    (new : FrameReader N).after inputs = new := by
  induction inputs with
  | nil => rfl
  | cons input inputs ih =>
    have hfirst : ((new : FrameReader N).take input).2 = new := by
      cases input with
      | none => rfl
      | some bytes => exact h bytes mem_cons_self
    grind [after]

/-! ## A frame for a reader that is as new -/

theorem push_new (bytes : List UInt8) : ((new : FrameReader N).push bytes).1 =
    ⟨bytes.take N, 0, length_take_le N bytes⟩ := by
  have htake : bytes.take (min bytes.length (N - 0)) = bytes.take N := by
    rw [take_eq_take_iff]
    omega
  show (⟨[] ++ bytes.take (min bytes.length (N - 0)), 0, _⟩ : FrameReader N) = _
  simp only [htake, nil_append]

theorem drainFrom_of_none (h : r.nextFrame = .ok none) (fuel : Nat) :
    r.drainFrom fuel = ([], r) := by
  cases fuel with
  | zero => rfl
  | succ fuel => rw [drainFrom, h]

variable {bytes : List UInt8} {header : FrameHeader} {f : RawFrame} {reports : List Report}

theorem take_new_complete (hdecode : FrameHeader.decode bytes = .ok header)
    (hlen : header.frameSize = bytes.length) (hN : bytes.length ≤ N) :
    (new : FrameReader N).take (some bytes) =
      ([.frame { header, payload := bytes.drop headerSize }], new) := by
  have hsize : headerSize ≤ bytes.length := hlen ▸ Nat.le_add_right headerSize header.length.toNat
  have hnext : (⟨bytes, 0, hN⟩ : FrameReader N).nextFrame =
      .ok (some { header, payload := bytes.drop headerSize }) := by grind [nextFrame]
  have hconsumed : (⟨bytes, 0, hN⟩ : FrameReader N).consume header.frameSize = new := by
    rw [hlen, consume]
    congr 1
    exact drop_length
  have hall : bytes.take N = bytes := take_of_length_le hN
  simp only [take, push_new, hall, drain]
  rw [drainFrom, hnext]
  dsimp only
  rw [hconsumed, drainFrom_of_none rfl]

theorem take_new_frame (hf : f.WellFormed) (hsize : f.size ≤ N) :
    (new : FrameReader N).take (some f.bytes) = ([.frame f], new) := by
  have hpayload : f.bytes.drop headerSize = f.payload :=
    drop_left' (length_encode _)
  have hdecode : decode f.bytes = .ok f.header := decode_encode _ _
  rw [take_new_complete hdecode hf.frameSize hsize, hpayload]

/-! ## What is left in a reader -/

/-- Between two chunks nothing is complete, and there is nothing in the buffer while bytes are to
be dropped. -/
structure Idle (r : FrameReader N) : Prop where
  clear : r.skipRemaining ≠ 0 → r.buf = []
  drained : r.nextFrame = .ok none

/-- What the next step of the loop rests on. -/
theorem nextFrame_cases (r : FrameReader N) :
    r.nextFrame = .ok none ∨ (∃ e, r.nextFrame = .error (.header e)) ∨
    (r.skipRemaining = 0 ∧ headerSize ≤ r.buf.length ∧
      ∃ header, FrameHeader.decode r.buf = .ok header ∧
        ((header.frameSize > N ∧ r.nextFrame = .error (.oversized header.frameSize)) ∨
        (header.frameSize ≤ r.buf.length ∧ r.nextFrame = .ok (some
          { header, payload := (r.buf.take header.frameSize).drop headerSize })))) := by
  rw [nextFrame]
  split
  · exact .inl rfl
  split
  · exact .inl rfl
  cases decode r.buf with
  | error e => exact .inr (.inl ⟨e, rfl⟩)
  | ok header =>
    dsimp only
    split
    · next hover => exact .inr (.inr ⟨by omega, by omega, header, rfl, .inl ⟨hover, rfl⟩⟩)
    split
    · exact .inl rfl
    · exact .inr (.inr ⟨by omega, by omega, header, rfl, .inr ⟨by omega, rfl⟩⟩)

theorem idle_drainFrom {fuel : Nat} (hclear : r.skipRemaining ≠ 0 → r.buf = [])
    (hfuel : r.buf.length < fuel) : (r.drainFrom fuel).2.Idle := by
  induction fuel generalizing r with
  | zero => exact absurd hfuel (Nat.not_lt_zero _)
  | succ fuel ih =>
    rw [drainFrom]
    rcases r.nextFrame_cases with hnext | ⟨e, hnext⟩ | ⟨hskip, hlen, header, _, hmore⟩
    · rw [hnext]
      exact ⟨hclear, hnext⟩
    · rw [hnext]
      exact ⟨fun h => absurd rfl h, rfl⟩
    · rw [headerSize] at hlen
      rcases hmore with ⟨hover, hnext⟩ | ⟨_, hnext⟩
      · have hfits := r.fits
        grind [skipFrame]
      · rw [hnext]
        refine ih (fun hne => absurd hskip hne) ?_
        grind [consume, frameSize, headerSize]

theorem clear_push (hclear : r.skipRemaining ≠ 0 → r.buf = []) (data : List UInt8) :
    (r.push data).1.skipRemaining ≠ 0 → (r.push data).1.buf = [] := by
  rw [push]
  grind [append]

theorem idle_take (hclear : r.skipRemaining ≠ 0 → r.buf = []) (input : Option (List UInt8)) :
    (r.take input).2.Idle := by
  cases input with
  | some bytes => exact idle_drainFrom (clear_push hclear bytes) (Nat.lt_succ_self _)
  | none => exact idle_drainFrom (fun _ => rfl) (Nat.lt_succ_self _)

/-! ## The probe

A reader that is not as new does not hand on the next frame, if that is the shortest one. -/

def probe : RawFrame := .ofPayload .simple 0 []

theorem ne_three_of_u16FromLe {lo hi : UInt8} (h : u16FromLe lo hi = 0) : lo ≠ 3 ∧ hi ≠ 3 := by
  have hnat : (u16FromLe lo hi).toNat = 0 := congrArg UInt16.toNat h
  rw [u16FromLe_toNat] at hnat
  have hthree : (3 : UInt8).toNat = 3 := rfl
  constructor
  · rintro rfl
    omega
  · rintro rfl
    omega

theorem fields_of_decode {t s₀ s₁ l₀ l₁ : UInt8} {rest : List UInt8}
    (h : FrameHeader.decode (t :: s₀ :: s₁ :: l₀ :: l₁ :: rest) = .ok header) :
    header.seq = u16FromLe s₀ s₁ ∧ header.length = u16FromLe l₀ l₁ := by
  rw [decode] at h
  cases hfrom : FrameType.fromU8 t with
  | error e =>
    rw [hfrom] at h
    cases h
  | ok frameType =>
    rw [hfrom] at h
    cases h
    exact ⟨rfl, rfl⟩

/-- The type byte of the probe lands among the sequence number and the length. -/
theorem decode_before_probe {buf : List UInt8} (hne : buf ≠ []) (hlen : buf.length < headerSize)
    (h : FrameHeader.decode (buf ++ probe.bytes) = .ok header) (hseq : header.seq = 0)
    (hlength : header.length = 0) : False := by
  match buf, hne, hlen with
  | [_], _, _ => exact (ne_three_of_u16FromLe ((fields_of_decode h).1.symm.trans hseq)).1 rfl
  | [_, _], _, _ => exact (ne_three_of_u16FromLe ((fields_of_decode h).1.symm.trans hseq)).2 rfl
  | [_, _, _], _, _ =>
    exact (ne_three_of_u16FromLe ((fields_of_decode h).2.symm.trans hlength)).1 rfl
  | [_, _, _, _], _, _ =>
    exact (ne_three_of_u16FromLe ((fields_of_decode h).2.symm.trans hlength)).2 rfl

theorem nextFrame_of_drain (h : r.drain.1 = .frame f :: reports) : r.nextFrame = .ok (some f) := by
  rw [drain, drainFrom] at h
  grind

theorem length_push_of_skip (h : r.skipRemaining ≠ 0) (hbuf : r.buf = []) (data : List UInt8) :
    (r.push data).1.buf.length < data.length ∨ (r.push data).1.buf = [] := by
  rw [push]
  grind [append]

section

variable (hN : 2 * headerSize ≤ N)
include hN

/-- With nothing to drop, the probe goes behind what is there. -/
theorem buf_push_probe (hskip : r.skipRemaining = 0) :
    ∃ more, (r.push probe.bytes).1.buf = r.buf ++ more ∧
      (r.buf.length < headerSize → more = probe.bytes) := by
  rw [push, if_neg (by omega)]
  refine ⟨_, rfl, fun hlen => take_of_length_le ?_⟩
  show 5 ≤ min 5 (N - r.buf.length)
  rw [headerSize] at hN hlen
  omega

theorem eq_new_of_header (h : r.Idle) (hlen : headerSize ≤ (r.push probe.bytes).1.buf.length)
    (hdecode : FrameHeader.decode (r.push probe.bytes).1.buf = .ok header) (hseq : header.seq = 0)
    (hlength : header.length = 0) : r = new := by
  by_cases hskip : r.skipRemaining = 0
  · obtain ⟨more, hbuf, hmore⟩ := buf_push_probe hN hskip
    rw [hbuf] at hdecode
    by_cases hshort : r.buf.length < headerSize
    · rw [hmore hshort] at hdecode
      by_cases hne : r.buf = []
      · obtain ⟨buf, skipRemaining, fits⟩ := r
        cases hne
        cases hskip
        rfl
      · exact (decode_before_probe hne hshort hdecode hseq hlength).elim
    · -- The header was there before, for a frame that is complete.
      rw [decode_append (Nat.le_of_not_lt hshort)] at hdecode
      have hsize : header.frameSize = headerSize := by
        rw [frameSize, hlength]
        rfl
      have hnext := h.drained
      rw [nextFrame] at hnext
      grind
  · rcases length_push_of_skip hskip (h.clear hskip) probe.bytes with hless | hempty
    · exact absurd hlen (Nat.not_le.mpr hless)
    · rw [hempty] at hlen
      cases hlen

theorem eq_new_of_probe (h : r.Idle) (htake : (r.take (some probe.bytes)).1 = .frame f :: reports)
    (hseq : f.header.seq = 0) (hpayload : f.payload = []) : r = new := by
  have hnext := nextFrame_of_drain htake
  rcases (r.push probe.bytes).1.nextFrame_cases with
    hnone | ⟨e, herror⟩ | ⟨_, hlen, header, hdecode, ⟨_, herror⟩ | ⟨hsize, hsome⟩⟩
  · cases hnone.symm.trans hnext
  · cases herror.symm.trans hnext
  · cases herror.symm.trans hnext
  · cases hsome.symm.trans hnext
    refine eq_new_of_header hN h hlen hdecode hseq ?_
    have hzero := congrArg List.length hpayload
    rw [length_drop, length_take, Nat.min_eq_left hsize, frameSize,
      Nat.add_sub_cancel_left] at hzero
    exact UInt16.toNat.inj hzero

/-- A chunk is contained if the probe gets through after it. -/
theorem contained_of_probe
    (h : (((new : FrameReader N).after [some bytes]).take (some probe.bytes)).1 =
      .frame f :: reports) (hseq : f.header.seq = 0) (hpayload : f.payload = []) :
    Contained N bytes :=
  eq_new_of_probe hN (idle_take (fun hne => absurd rfl hne) (some bytes)) h hseq hpayload

end

/-! ## Whole frames -/

/-- Complete frames that fit, one behind the other, up to the end or to a bad header. -/
inductive Whole (N : Nat) : List UInt8 → Prop
  | nil : Whole N []
  | bad {bytes : List UInt8} {e : HeaderError} (hlen : headerSize ≤ bytes.length)
      (hdecode : FrameHeader.decode bytes = .error e) : Whole N bytes
  | frame {bytes : List UInt8} {header : FrameHeader}
      (hdecode : FrameHeader.decode bytes = .ok header) (hfits : header.frameSize ≤ N)
      (hall : header.frameSize ≤ bytes.length) (hrest : Whole N (bytes.drop header.frameSize)) :
      Whole N bytes

theorem whole_iff_of_short (h : bytes.length < headerSize) : Whole N bytes ↔ bytes = [] := by
  refine ⟨fun hwhole => ?_, fun hnil => hnil ▸ .nil⟩
  cases hwhole with
  | nil => rfl
  | bad hlen => exact absurd h (Nat.not_lt.mpr hlen)
  | frame _ _ hall => exact absurd (Nat.le_trans (Nat.le_add_right _ _) hall) (Nat.not_le.mpr h)

theorem whole_iff_of_decode (hlen : headerSize ≤ bytes.length)
    (hdecode : FrameHeader.decode bytes = .ok header) : Whole N bytes ↔
      header.frameSize ≤ N ∧ header.frameSize ≤ bytes.length ∧
        Whole N (bytes.drop header.frameSize) := by
  refine ⟨fun hwhole => ?_, fun ⟨hfits, hall, hrest⟩ => .frame hdecode hfits hall hrest⟩
  cases hwhole with
  | nil => cases hlen
  | bad _ herror => cases herror.symm.trans hdecode
  | frame hok hfits hall hrest =>
    cases hok.symm.trans hdecode
    exact ⟨hfits, hall, hrest⟩

theorem eq_new_iff (hskip : r.skipRemaining = 0) : r = new ↔ r.buf = [] := by
  obtain ⟨buf, skipRemaining, fits⟩ := r
  cases hskip
  refine ⟨fun h => congrArg FrameReader.buf h, ?_⟩
  rintro rfl
  rfl

theorem drainFrom_eq_new_iff {fuel : Nat} (hskip : r.skipRemaining = 0)
    (hfuel : r.buf.length < fuel) : (r.drainFrom fuel).2 = new ↔ Whole N r.buf := by
  induction fuel generalizing r with
  | zero => cases hfuel
  | succ fuel ih =>
    have hno : ¬ r.skipRemaining > 0 := by omega
    rw [drainFrom, nextFrame, if_neg hno]
    by_cases hshort : r.buf.length < headerSize
    · rw [if_pos hshort, whole_iff_of_short hshort]
      exact eq_new_iff hskip
    have hlen := Nat.le_of_not_lt hshort
    rw [if_neg hshort]
    cases hdecode : FrameHeader.decode r.buf with
    | error e => exact iff_of_true rfl (.bad hlen hdecode)
    | ok header =>
      dsimp only
      rw [whole_iff_of_decode hlen hdecode]
      by_cases hover : header.frameSize > N
      · -- what is left to drop is more than nothing
        have hfits := r.fits
        have hleft : header.frameSize - r.buf.length > 0 := by omega
        have hwait : (⟨[], header.frameSize - r.buf.length, Nat.zero_le N⟩ :
            FrameReader N).nextFrame = .ok none := by rw [nextFrame, if_pos hleft]
        rw [if_pos hover]
        refine iff_of_false (fun hnew => ?_) fun h => absurd h.1 (Nat.not_le.mpr hover)
        dsimp only at hnew
        rw [skipFrame, if_neg (by omega), drainFrom_of_none hwait] at hnew
        exact absurd (congrArg skipRemaining hnew) (Nat.pos_iff_ne_zero.mp hleft)
      rw [if_neg hover]
      by_cases hpart : r.buf.length < header.frameSize
      · rw [if_pos hpart]
        refine iff_of_false (fun hnew => ?_) fun h => absurd h.2.1 (Nat.not_le.mpr hpart)
        rw [(eq_new_iff hskip).mp hnew] at hlen
        cases hlen
      · rw [if_neg hpart]
        have hrest := @ih (r.consume header.frameSize) hskip (by
          grind [consume, frameSize, headerSize])
        exact hrest.trans
          ⟨fun h => ⟨Nat.le_of_not_lt hover, Nat.le_of_not_lt hpart, h⟩, fun h => h.2.2⟩

theorem contained_iff_whole : Contained N bytes ↔ Whole N (bytes.take N) := by
  rw [Contained, take, push_new]
  exact drainFrom_eq_new_iff rfl (Nat.lt_succ_self _)

/-- Where there is as much as the header says, only too much of it does harm. -/
theorem contained_iff (hN : headerSize ≤ N) (hlen : headerSize ≤ bytes.length)
    (hsize : ∀ header, FrameHeader.decode bytes = .ok header → header.frameSize = bytes.length) :
    Contained N bytes ↔ ∀ header, FrameHeader.decode bytes = .ok header → header.frameSize ≤ N := by
  have hlen' : headerSize ≤ (bytes.take N).length := by
    rw [length_take]
    omega
  have htake : FrameHeader.decode (bytes.take N) = FrameHeader.decode bytes := by
    rw [← decode_append hlen' (bytes.drop N), take_append_drop]
  rw [contained_iff_whole]
  cases hdecode : decode bytes with
  | error e => exact iff_of_true (.bad hlen' (htake.trans hdecode)) nofun
  | ok header =>
    have hbytes := hsize header hdecode
    rw [whole_iff_of_decode hlen' (htake.trans hdecode)]
    refine ⟨fun h header' h' => by cases h'; exact h.1, fun h => ?_⟩
    have hfits := h header rfl
    rw [take_of_length_le (hbytes ▸ hfits), hbytes, drop_length]
    exact ⟨hbytes ▸ hfits, Nat.le_refl _, .nil⟩

end FrameReader

/-! ## The serial link -/

/-- How much of the chunk was accepted is not looked at. -/
def processIpcReply (frameBytes : List UInt8) (reader : FrameReader 4096) :
    List Effect × FrameReader 4096 :=
  let (reports, reader) := (reader.push frameBytes).1.drain
  (reports.map FrameReader.Report.effect, reader)

/-- The reader of the port after some chunks. -/
def serialReader (chunks : List (List UInt8)) : FrameReader 4096 :=
  chunks.foldl (fun reader chunk => (processIpcReply chunk reader).2) .new

/-! ## The fob -/

/-- `frame` is a call of `dispatch_frame`. -/
inductive FobEvent where
  | crcMismatch
  | frame (f : RawFrame)
  | frameOversize (declaredSize : Nat)
  | badFrameHeader (e : ReaderError)
  deriving DecidableEq, Repr

def FobEvent.ofReport : FrameReader.Report → FobEvent
  | .frame f => .frame f
  | .oversized declaredSize => .frameOversize declaredSize
  | .badHeader e => .badFrameHeader (.header e)

/-- One round of the loop in `run`. -/
def readTransfer (buf : List UInt8) (reader : FrameReader 4096) :
    List FobEvent × FrameReader 4096 :=
  match HostUsb.unwrapFrame buf with
  | .ok frameBytes =>
    let (reports, reader) := (reader.push frameBytes).1.drain
    (reports.map .ofReport, reader)
  | .error _ =>
    let (reports, reader) := reader.reset.drain
    (.crcMismatch :: reports.map .ofReport, reader)

def fobReader (transfers : List (List UInt8)) : FrameReader 4096 :=
  transfers.foldl (fun reader buf => (readTransfer buf reader).2) .new

/-- The transfer is intact, and its frame does not fit the reader. -/
def Oversize (buf : List UInt8) : Prop :=
  ∃ bytes header, HostUsb.unwrapFrame buf = .ok bytes ∧
    FrameHeader.decode bytes = .ok header ∧ 4096 < header.frameSize

/-! ## Both readers as one -/

theorem processIpcReply_effects (frameBytes : List UInt8) (reader : FrameReader 4096) :
    (processIpcReply frameBytes reader).1 =
      (reader.take (some frameBytes)).1.map FrameReader.Report.effect := rfl

theorem serialReader_eq (chunks : List (List UInt8)) :
    serialReader chunks = FrameReader.new.after (chunks.map some) := by
  rw [FrameReader.after, foldl_map]
  rfl

theorem readTransfer_reader (buf : List UInt8) (reader : FrameReader 4096) :
    (readTransfer buf reader).2 = (reader.take (HostUsb.unwrapFrame buf).toOption).2 := by
  rw [readTransfer]
  cases unwrapFrame buf with
  | ok bytes => rfl
  | error e => rfl

theorem fobReader_eq (transfers : List (List UInt8)) : fobReader transfers =
    FrameReader.new.after (transfers.map fun buf => (HostUsb.unwrapFrame buf).toOption) := by
  rw [fobReader, FrameReader.after, foldl_map]
  congr 1
  funext reader buf
  exact readTransfer_reader buf reader

/-- A transfer that is accepted has as much as its header says. -/
theorem frameSize_of_unwrapFrame {buf bytes : List UInt8}
    (h : HostUsb.unwrapFrame buf = .ok bytes) : headerSize ≤ bytes.length ∧
      ∀ header, FrameHeader.decode bytes = .ok header → header.frameSize = bytes.length := by
  rw [unwrapFrame] at h
  split at h
  · cases h
  · next hshort =>
    have hlen : headerSize ≤ buf.length := by omega
    obtain ⟨t, s₀, s₁, l₀, l₁, rest, rfl⟩ := exists_fields hlen
    dsimp only at h
    split at h
    · cases h
    · next hsize =>
      split at h
      · cases h
      · have hall : headerSize + (u16FromLe l₀ l₁).toNat ≤
            (t :: s₀ :: s₁ :: l₀ :: l₁ :: rest).length := by grind
        have hbytes : (t :: s₀ :: s₁ :: l₀ :: l₁ :: rest).take
            (headerSize + (u16FromLe l₀ l₁).toNat) = bytes := Except.ok.inj h
        have hlength : bytes.length = headerSize + (u16FromLe l₀ l₁).toNat := by
          rw [← hbytes, length_take, Nat.min_eq_left hall]
        refine ⟨hlength ▸ Nat.le_add_right _ _, fun header hdecode => ?_⟩
        rw [← hbytes, Nat.add_comm] at hdecode
        rw [frameSize, (FrameReader.fields_of_decode hdecode).2, hlength]

theorem not_oversize_iff (buf : List UInt8) : ¬Oversize buf ↔
    ∀ bytes, HostUsb.unwrapFrame buf = .ok bytes → FrameReader.Contained 4096 bytes := by
  constructor
  · intro hfits bytes h
    obtain ⟨hlen, hsize⟩ := frameSize_of_unwrapFrame h
    rw [FrameReader.contained_iff (by decide) hlen hsize]
    intro header hdecode
    by_contra hover
    exact hfits ⟨bytes, header, h, hdecode, Nat.lt_of_not_le hover⟩
  · rintro hcontained ⟨bytes, header, h, hdecode, hover⟩
    obtain ⟨hlen, hsize⟩ := frameSize_of_unwrapFrame h
    have hfits := (FrameReader.contained_iff (by decide) hlen hsize).mp (hcontained bytes h)
    exact absurd (hfits header hdecode) (Nat.not_le.mpr hover)

theorem contained_of_serial {chunk : List UInt8}
    (h : (processIpcReply FrameReader.probe.bytes (serialReader [chunk])).1 =
      [FrameReader.Report.effect (.frame FrameReader.probe)]) :
    FrameReader.Contained 4096 chunk := by
  obtain ⟨report, hreports, heffect⟩ := map_eq_singleton_iff.mp h
  obtain ⟨f, rfl, hseq, hpayload⟩ := FrameReader.Report.eq_frame_of_effect heffect
  exact FrameReader.contained_of_probe (by decide) hreports hseq hpayload

theorem contained_of_fob {buf bytes transfer : List UInt8}
    (hbuf : HostUsb.unwrapFrame buf = .ok bytes)
    (htransfer : HostUsb.unwrapFrame transfer = .ok FrameReader.probe.bytes)
    (h : (readTransfer transfer (fobReader [buf])).1 = [.frame FrameReader.probe]) :
    FrameReader.Contained 4096 bytes := by
  rw [readTransfer, htransfer] at h
  obtain ⟨report, hreports, hevent⟩ := map_eq_singleton_iff.mp h
  have hreader : fobReader [buf] = FrameReader.new.after [some bytes] := by
    rw [fobReader_eq, map_singleton, hbuf]
    rfl
  rw [hreader] at hreports
  cases report with
  | oversized declaredSize => cases hevent
  | badHeader e => cases hevent
  | frame f =>
    cases hevent
    exact FrameReader.contained_of_probe (by decide) hreports rfl rfl

/-- After every traffic of these chunks a whole frame is handled as it is, exactly if each of them
is made of whole frames, up to a bad header if there is one; and likewise for the transfers of the
fob, of which only an oversized frame leaves something behind. -/
theorem damage_contained_iff (chunks transfers : List UInt8 → Prop) :
    ((∀ earlier, (∀ chunk ∈ earlier, chunks chunk) →
        ∀ f : RawFrame, f.WellFormed → f.size ≤ 4096 →
          (processIpcReply f.bytes (serialReader earlier)).1 =
            [FrameReader.Report.effect (.frame f)]) ↔
      ∀ chunk, chunks chunk → FrameReader.Whole 4096 (chunk.take 4096)) ∧
    ((∀ earlier, (∀ buf ∈ earlier, transfers buf) →
        ∀ (f : RawFrame) (buf : List UInt8), f.WellFormed → f.size ≤ 4096 →
          HostUsb.unwrapFrame buf = .ok f.bytes →
          (readTransfer buf (fobReader earlier)).1 = [.frame f]) ↔
      ∀ buf, transfers buf → ¬Oversize buf) := by
  refine ⟨⟨fun h chunk hchunk => ?_, fun h earlier hearlier f hf hsize => ?_⟩,
    ⟨fun h buf hbuf => ?_, fun h earlier hearlier f buf hf hsize hunwrap => ?_⟩⟩
  · exact FrameReader.contained_iff_whole.mp <| contained_of_serial
      (h [chunk] (by simpa using hchunk) FrameReader.probe (by decide) (by decide))
  · have hnew : serialReader earlier = .new := by
      rw [serialReader_eq]
      refine FrameReader.after_contained fun bytes hbytes =>
        FrameReader.contained_iff_whole.mpr (h bytes (hearlier bytes ?_))
      simpa using hbytes
    rw [hnew, processIpcReply_effects, FrameReader.take_new_frame hf hsize]
    rfl
  · rw [not_oversize_iff]
    intro bytes hbytes
    have hprobe := unwrapFrame_wrapFrame
      (show Consistent FrameReader.probe.bytes from ⟨by decide, rfl⟩)
    exact contained_of_fob hbytes hprobe
      (h [buf] (by simpa using hbuf) FrameReader.probe _ (by decide) (by decide) hprobe)
  · have hnew : fobReader earlier = .new := by
      rw [fobReader_eq]
      refine FrameReader.after_contained fun bytes hbytes => ?_
      obtain ⟨transfer, hmem, hbytes⟩ := mem_map.mp hbytes
      refine (not_oversize_iff transfer).mp (h transfer (hearlier transfer hmem)) bytes ?_
      cases hresult : unwrapFrame transfer with
      | error e =>
        rw [hresult] at hbytes
        cases hbytes
      | ok found =>
        rw [hresult] at hbytes
        cases hbytes
        rfl
    rw [hnew, readTransfer, hunwrap]
    exact congrArg (fun taken => taken.1.map FobEvent.ofReport)
      (FrameReader.take_new_frame hf hsize)

/-- A reply that is cut off takes the next frame with it. -/
theorem truncated_chunk_swallows :
    (RawFrame.ofPayload .simple 7 [opTunnelError, 1]).WellFormed ∧
    (processIpcReply (RawFrame.ofPayload .simple 7 [opTunnelError, 1]).bytes
      (serialReader [[2, 6, 0, 9, 0, 0]])).1 = [] := by
  decide

end Rcard
