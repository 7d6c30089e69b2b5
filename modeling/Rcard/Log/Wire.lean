/-
What the log task sends to the host (`shared/log/src/metadata.rs`,
`shared/log/src/wire.rs`).

A log is a stream of bytes: its metadata, its values, and the end-of-stream tag.
The stream goes out in fragments, and each fragment is a chunk with a type, the id
of its stream and a length.
-/
import Rcard.Log.Format

namespace Rcard.Log

inductive LogLevel where
  | panic
  | error
  | warn
  | info
  | debug
  | trace
  deriving DecidableEq, Repr

/-- The discriminants, of `repr(u8)`. -/
def LogLevel.toU8 : LogLevel → UInt8
  | panic => 0
  | error => 1
  | warn => 2
  | info => 3
  | debug => 4
  | trace => 5

/-- `TryFromBytes`: only a discriminant is a level. -/
def LogLevel.tryFromByte (byte : UInt8) : Option LogLevel :=
  if byte = 0 then some panic
  else if byte = 1 then some error
  else if byte = 2 then some warn
  else if byte = 3 then some info
  else if byte = 4 then some debug
  else if byte = 5 then some trace
  else none

structure LogMetadata where
  level : LogLevel
  timestamp : UInt64
  source : UInt16
  generation : UInt16
  logId : UInt64
  logSpecies : UInt64
  deriving DecidableEq, Repr

/-- `size_of::<LogMetadata>()`; the structure is packed. -/
def metadataSize : Nat := 29

def LogMetadata.fields (m : LogMetadata) : List (Nat × Nat) :=
  [(1, m.level.toU8.toNat), (8, m.timestamp.toNat), (2, m.source.toNat), (2, m.generation.toNat),
    (8, m.logId.toNat), (8, m.logSpecies.toNat)]

def LogMetadata.asBytes (m : LogMetadata) : List UInt8 := packed m.fields

def LogMetadata.tryReadFromBytes (buf : List UInt8) : Option LogMetadata :=
  if buf.length = metadataSize then
    (LogLevel.tryFromByte (UInt8.ofNat (leAt buf 0 1))).map fun level =>
      { level
        timestamp := UInt64.ofNat (leAt buf 1 8)
        source := UInt16.ofNat (leAt buf 9 2)
        generation := UInt16.ofNat (leAt buf 11 2)
        logId := UInt64.ofNat (leAt buf 13 8)
        logSpecies := UInt64.ofNat (leAt buf 21 8) }
  else none

def typeLogFragment : UInt8 := 0x01
def typeIpcReply : UInt8 := 0x02

/-- A fragment before it is encoded. -/
def rawChunk (streamId : UInt64) (data : List UInt8) : List UInt8 :=
  packed [(1, typeLogFragment.toNat), (8, streamId.toNat), (1, data.length)] ++ data

theorem tryFromByte_toU8 (level : LogLevel) : LogLevel.tryFromByte level.toU8 = some level := by
  cases level <;> rfl

theorem length_asBytes (m : LogMetadata) : m.asBytes.length = metadataSize := rfl

theorem tryReadFromBytes_asBytes (m : LogMetadata) :
    LogMetadata.tryReadFromBytes m.asBytes = some m := by
  have hfield : ∀ {i count v : Nat}, m.fields[i]? = some (count, v) → v < leBound count →
      leAt m.asBytes (offset m.fields i) count = v := by
    intro i count v h hv
    have hpacked := leAt_packed h hv []
    rwa [List.append_nil] at hpacked
  have hlevel : leAt m.asBytes 0 1 = m.level.toU8.toNat := hfield (i := 0) rfl m.level.toU8.toNat_lt
  have htimestamp : leAt m.asBytes 1 8 = m.timestamp.toNat :=
    hfield (i := 1) rfl m.timestamp.toNat_lt
  have hsource : leAt m.asBytes 9 2 = m.source.toNat := hfield (i := 2) rfl m.source.toNat_lt
  have hgeneration : leAt m.asBytes 11 2 = m.generation.toNat :=
    hfield (i := 3) rfl m.generation.toNat_lt
  have hlogId : leAt m.asBytes 13 8 = m.logId.toNat := hfield (i := 4) rfl m.logId.toNat_lt
  have hlogSpecies : leAt m.asBytes 21 8 = m.logSpecies.toNat :=
    hfield (i := 5) rfl m.logSpecies.toNat_lt
  rw [LogMetadata.tryReadFromBytes, if_pos (length_asBytes m), hlevel, htimestamp, hsource,
    hgeneration, hlogId, hlogSpecies, UInt8.ofNat_toNat, tryFromByte_toU8, Option.map_some,
    UInt64.ofNat_toNat, UInt64.ofNat_toNat, UInt64.ofNat_toNat, UInt16.ofNat_toNat,
    UInt16.ofNat_toNat]

end Rcard.Log
