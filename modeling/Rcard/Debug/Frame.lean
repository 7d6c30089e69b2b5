/-
The frames of the debug port (`host/serial/src/sifli_debug/frame.rs`, `protocol.rs`).

A frame is a start marker, the length of the payload in sixteen bits, two bytes that are not
looked at, and the payload.  `Frame.recv` is a read from a stream of which these bytes have
come so far; it is `none` while it waits.
-/
import Mathlib.Data.Nat.Bitwise
import Rcard.Lib.Le

namespace Rcard.SifliDebug

open List

def startMarker : List UInt8 := [0x7E, 0x79]

def channel : UInt8 := 0x10

def crc : UInt8 := 0x00

structure Frame where
  payload : List UInt8
  deriving DecidableEq, Repr

namespace Frame

/-- What `send` writes. -/
def bytes (f : Frame) : List UInt8 :=
  startMarker ++ (leBytes 2 f.payload.length ++ ([channel, crc] ++ f.payload))

/-- The noise before the start marker, and what is behind it. -/
def scan : (prev : Option UInt8) → (noise : List UInt8) → List UInt8 →
    Option (List UInt8 × List UInt8)
  | _, _, [] => none
  | prev, noise, b :: bytes =>
    if prev = some 0x7E ∧ b = 0x79 then
      some (if noise.getLast? = some 0x7E then noise.dropLast else noise, bytes)
    else scan (some b) (noise ++ prev.toList) bytes

/-- The noise, the frame, and what is behind it. -/
def recv (bytes : List UInt8) : Option (List UInt8 × Frame × List UInt8) :=
  match scan none [] bytes with
  | none => none
  | some (noise, rest) =>
    let len := leNat (rest.take 2)
    let body := rest.drop 4
    if rest.length < 4 ∨ body.length < len then none
    else some (noise, ⟨body.take len⟩, body.drop len)

/-- The noise less a first byte of a marker at its end. -/
def unmarked (noise : List UInt8) : List UInt8 :=
  if noise.getLast? = some 0x7E then noise.dropLast else noise

theorem length_bytes (f : Frame) : f.bytes.length = f.payload.length + 6 := by
  simp [bytes, startMarker]
  omega

theorem recv_startMarker (rest : List UInt8) :
    recv (startMarker ++ rest) =
      if rest.length < 4 ∨ (rest.drop 4).length < leNat (rest.take 2) then none
      else some ([], ⟨(rest.drop 4).take (leNat (rest.take 2))⟩,
        (rest.drop 4).drop (leNat (rest.take 2))) := rfl

variable {f : Frame}

theorem leNat_length (h : f.payload.length < 2 ^ 16) :
    leNat (leBytes 2 f.payload.length) = f.payload.length := leNat_leBytes h

/-- A start marker behind noise that has none is found.  If the noise ends in the first byte of a
marker, this byte is taken for the one that is read. -/
theorem scan_noise {prev : Option UInt8} {noise : List UInt8}
    (h : ¬ startMarker <:+: prev.toList ++ noise) (seen rest : List UInt8) :
    scan prev seen (noise ++ (startMarker ++ rest)) =
      some (unmarked (seen ++ (prev.toList ++ noise)), rest) := by
  induction noise generalizing prev seen with
  | nil =>
    rw [append_nil] at ⊢
    show scan prev seen (0x7E :: 0x79 :: rest) = _
    rw [scan, if_neg (by simp), scan]
    rfl
  | cons b noise ih =>
    have hrest : ¬ startMarker <:+: (some b).toList ++ noise := fun hinside =>
      h (hinside.trans (suffix_append prev.toList (b :: noise)).isInfix)
    have hnot : ¬(prev = some 0x7E ∧ b = 0x79) := by
      rintro ⟨rfl, rfl⟩
      exact h ( prefix_append startMarker noise).isInfix
    rw [cons_append, scan, if_neg hnot, ih hrest, append_assoc]
    rfl

theorem recv_noise {noise : List UInt8} (h : f.payload.length < 2 ^ 16)
    (hnoise : ¬ startMarker <:+: noise) (rest : List UInt8) :
    recv (noise ++ (f.bytes ++ rest)) = some (unmarked noise, f, rest) := by
  have hlen : (leBytes 2 f.payload.length ++ ([channel, crc] ++ f.payload) ++ rest).length =
      f.payload.length + rest.length + 4 := by
    simp
    omega
  have hbody : (leBytes 2 f.payload.length ++ ([channel, crc] ++ f.payload) ++ rest).drop 4 =
      f.payload ++ rest := rfl
  rw [recv, bytes, append_assoc startMarker, @scan_noise none noise hnoise]
  dsimp only
  rw [hlen, hbody, append_assoc, take_left' (length_leBytes _ _), leNat_length h, if_neg (by simp),
    take_left, drop_left]
  rfl

theorem recv_bytes (h : f.payload.length < 2 ^ 16) : recv f.bytes = some ([], f, []) := by
  have hrecv := @recv_noise f [] h (by decide) []
  rwa [append_nil] at hrecv

/-- Noise and frame are received as they were sent, unless the noise ends in the first byte of a
marker. -/
theorem recv_noise_iff {f : Frame} (h : f.payload.length < 2 ^ 16) {noise : List UInt8}
    (hnoise : ¬ startMarker <:+: noise) (rest : List UInt8) :
    recv (noise ++ (f.bytes ++ rest)) = some (noise, f, rest) ↔ noise.getLast? ≠ some 0x7E := by
  rw [recv_noise h hnoise, unmarked]
  split
  · next hlast =>
    refine iff_of_false (fun heq => ?_) (not_not_intro hlast)
    grind
  · next hlast => exact iff_of_true rfl hlast

theorem recv_noise_iff_text : recv ([0x68, 0x7E, 0x0A] ++ (bytes ⟨[0xD1]⟩ ++ [0x68])) =
    some ([0x68, 0x7E, 0x0A], ⟨[0xD1]⟩, [0x68]) :=
  (recv_noise_iff (by decide) (by decide) [0x68]).mpr (by decide)

/-- The last byte of the noise is lost. -/
theorem noise_byte_lost : ¬ startMarker <:+: [0x68, 0x7E] ∧
    recv ([0x68, 0x7E] ++ bytes ⟨[0xD1]⟩) = some ([0x68], ⟨[0xD1]⟩, []) := by decide

/-- Before its last byte a frame is not received. -/
theorem recv_take {n : Nat} (h : f.payload.length < 2 ^ 16) (hn : n < f.bytes.length) :
    recv (f.bytes.take n) = none := by
  rw [length_bytes] at hn
  rcases n with _ | _ | _ | _ | _ | _ | n
  -- Neither the marker nor the four bytes behind it are complete.
  iterate 6 rfl
  have htake : f.bytes.take (n + 6) =
      startMarker ++ (leBytes 2 f.payload.length ++ ([channel, crc] ++ f.payload.take n)) := rfl
  rw [htake, recv_startMarker, take_left' (length_leBytes _ _), leNat_length h]
  grind [leBytes]

end Frame

/-! ## Commands -/

inductive Command where
  | enter
  | exit
  | memRead (addr : UInt32) (count : UInt16)
  | memWrite (addr : UInt32) (data : List UInt32)
  deriving DecidableEq, Repr

/-- `ATSF32` -/
def atsf32 : List UInt8 := [0x41, 0x54, 0x53, 0x46, 0x33, 0x32]

namespace Command

def toPayload : Command → List UInt8
  | enter => atsf32 ++ [0x05, 0x21]
  | exit => atsf32 ++ [0x18, 0x21]
  | memRead addr count => [0x40, 0x72] ++ leBytes 4 addr.toNat ++ leBytes 2 count.toNat
  | memWrite addr data =>
    [0x40, 0x77] ++ leBytes 4 addr.toNat ++ leBytes 2 data.length ++
      data.flatMap fun word => leBytes 4 word.toNat

def toFrame (c : Command) : Frame := ⟨c.toPayload⟩

end Command

/-! ## Responses -/

inductive Response where
  | exit
  | enter
  | memRead (words : List UInt32)
  | memWrite
  deriving DecidableEq, Repr

inductive ProtocolError where
  | emptyPayload
  | payloadTooShort
  | unalignedReadData
  | unknownResponseCode (code : UInt8)
  | unexpectedResponse (expected : String)
  deriving DecidableEq, Repr

inductive Error where
  | io
  | protocol (e : ProtocolError)
  | timeout
  deriving DecidableEq, Repr

/-- `chunks_exact` by four. -/
def words : List UInt8 → List UInt32
  | a :: b :: c :: d :: bytes => UInt32.ofNat (leNat [a, b, c, d]) :: words bytes
  | _ => []

/-- The last byte of what was read is a checksum. -/
def Response.parse : List UInt8 → Except ProtocolError Response
  | [] => .error .emptyPayload
  | code :: body =>
    if code = 0xD0 then .ok .exit
    else if code = 0xD1 then .ok .enter
    else if code = 0xD3 then .ok .memWrite
    else if code = 0xD2 then
      if body.isEmpty then .error .payloadTooShort
      else if body.dropLast.length % 4 ≠ 0 then .error .unalignedReadData
      else .ok (.memRead (words body.dropLast))
    else .error (.unknownResponseCode code)

end Rcard.SifliDebug
