/-
Log values and the bytes the formatter writes for them (`shared/log/src/owned.rs`,
`shared/log/src/formatter/`).

A writer is modelled by what is written to it, so each method of the formatter is a
list of bytes.  A value begins with a tag.  Numbers of more than eight bits and all
lengths are varints, and the elements of a container follow its length.
-/
import Rcard.Lib.Le
import Rcard.Lib.Varint

namespace Rcard.Log

open Varint

/-! ## Values -/

/-- The registers and the stack of a task. -/
structure StackDump where
  sp : UInt32
  stackTop : UInt32
  lr : UInt32
  pc : UInt32
  /-- `r0` to `r12`. -/
  registers : Fin 13 → UInt32
  xpsr : UInt32
  stack : List UInt8

/-- `OwnedValue`.  A float is its bits. -/
inductive OwnedValue where
  | u8 (v : UInt8)
  | i8 (v : Int8)
  | u16 (v : UInt16)
  | i16 (v : Int16)
  | u32 (v : UInt32)
  | i32 (v : Int32)
  | u64 (v : UInt64)
  | i64 (v : Int64)
  | u128 (v : BitVec 128)
  | i128 (v : BitVec 128)
  | f32 (bits : UInt32)
  | f64 (bits : UInt64)
  | char (c : Char)
  | bool (b : Bool)
  | str (s : String)
  | unit
  | array (children : List OwnedValue)
  | slice (children : List OwnedValue)
  | tuple (typeId : UInt64) (fields : List OwnedValue)
  | struct (typeId : UInt64) (fields : List (UInt64 × OwnedValue))
  | stackDump (dump : StackDump)

/-! ## Tags -/

def tagUnit : UInt8 := 0x00
def tagBool : UInt8 := 0x01
def tagU8 : UInt8 := 0x02
def tagI8 : UInt8 := 0x03
def tagU16 : UInt8 := 0x04
def tagI16 : UInt8 := 0x05
def tagU32 : UInt8 := 0x06
def tagI32 : UInt8 := 0x07
def tagU64 : UInt8 := 0x08
def tagI64 : UInt8 := 0x09
def tagU128 : UInt8 := 0x0A
def tagI128 : UInt8 := 0x0B
def tagF32 : UInt8 := 0x0C
def tagF64 : UInt8 := 0x0D
def tagChar : UInt8 := 0x0E
def tagStr : UInt8 := 0x0F
def tagArray : UInt8 := 0x10
def tagSlice : UInt8 := 0x11
def tagTuple : UInt8 := 0x12
def tagStruct : UInt8 := 0x13
def tagStackDump : UInt8 := 0x14
def tagEndOfStream : UInt8 := 0xFF

/-! ## The formatter -/

/-- `encode_u64`.  Ten turns of its loop are enough for 64 bits. -/
def encodeU64 (value : UInt64) : List UInt8 := encode 10 value.toNat

def encodeU128 (value : BitVec 128) : List UInt8 := encode 19 value.toNat

def encodeI64 (value : Int64) : List UInt8 := encodeU64 ⟨zigzag value.toBitVec⟩

def encodeI128 (value : BitVec 128) : List UInt8 := encodeU128 (zigzag value)

def writeU8 (byte : UInt8) : List UInt8 := [tagU8, byte]
def writeI8 (byte : Int8) : List UInt8 := [tagI8, byte.toUInt8]
def writeU16 (word : UInt16) : List UInt8 := tagU16 :: encodeU64 word.toUInt64
def writeI16 (word : Int16) : List UInt8 := tagI16 :: encodeI64 word.toInt64
def writeU32 (dword : UInt32) : List UInt8 := tagU32 :: encodeU64 dword.toUInt64
def writeI32 (dword : Int32) : List UInt8 := tagI32 :: encodeI64 dword.toInt64
def writeU64 (qword : UInt64) : List UInt8 := tagU64 :: encodeU64 qword
def writeI64 (qword : Int64) : List UInt8 := tagI64 :: encodeI64 qword
def writeU128 (oword : BitVec 128) : List UInt8 := tagU128 :: encodeU128 oword
def writeI128 (oword : BitVec 128) : List UInt8 := tagI128 :: encodeI128 oword
def writeF32 (bits : UInt32) : List UInt8 := tagF32 :: leBytes 4 bits.toNat
def writeF64 (bits : UInt64) : List UInt8 := tagF64 :: leBytes 8 bits.toNat
def writeChar (c : Char) : List UInt8 := tagChar :: encodeU64 c.val.toUInt64
def writeBool (b : Bool) : List UInt8 := [tagBool, if b then 1 else 0]

/-- `as_bytes`. -/
def asBytes (s : String) : List UInt8 := s.toByteArray.data.toList

def writeStr (s : String) : List UInt8 :=
  tagStr :: encodeU64 (UInt64.ofNat (asBytes s).length) ++ asBytes s

def writeUnit : List UInt8 := [tagUnit]

/-- `write_array`, given what its items write. -/
def writeArray (n : Nat) (items : List UInt8) : List UInt8 :=
  tagArray :: encodeU64 (UInt64.ofNat n) ++ items

def writeSlice (len : Nat) (items : List UInt8) : List UInt8 :=
  tagSlice :: encodeU64 (UInt64.ofNat len) ++ items

/-- `with_tuple`, given what its closure writes. -/
def withTuple (typeId fieldCount : UInt64) (fields : List UInt8) : List UInt8 :=
  tagTuple :: encodeU64 typeId ++ encodeU64 fieldCount ++ fields

def withStruct (typeId fieldCount : UInt64) (fields : List UInt8) : List UInt8 :=
  tagStruct :: encodeU64 typeId ++ encodeU64 fieldCount ++ fields

def writeFieldId (fieldId : UInt64) : List UInt8 := encodeU64 fieldId

def writeStackDump (header stack : List UInt8) : List UInt8 :=
  tagStackDump :: header ++ leBytes 4 (UInt32.ofNat stack.length).toNat ++ stack

def writeEndOfStream : List UInt8 := [tagEndOfStream]

/-- The words `capture` stores, in their order. -/
def StackDump.words (dump : StackDump) : List UInt32 :=
  [dump.sp, dump.stackTop, dump.lr, dump.pc] ++ List.ofFn dump.registers ++ [dump.xpsr]

def StackDump.header (dump : StackDump) : List UInt8 :=
  dump.words.flatMap fun word => leBytes 4 word.toNat

mutual

/-- `Format::format`. -/
def OwnedValue.format : OwnedValue → List UInt8
  | .u8 v => writeU8 v
  | .i8 v => writeI8 v
  | .u16 v => writeU16 v
  | .i16 v => writeI16 v
  | .u32 v => writeU32 v
  | .i32 v => writeI32 v
  | .u64 v => writeU64 v
  | .i64 v => writeI64 v
  | .u128 v => writeU128 v
  | .i128 v => writeI128 v
  | .f32 bits => writeF32 bits
  | .f64 bits => writeF64 bits
  | .char c => writeChar c
  | .bool b => writeBool b
  | .str s => writeStr s
  | .unit => writeUnit
  | .array children => writeArray children.length (formatAll children)
  | .slice children => writeSlice children.length (formatAll children)
  | .tuple typeId fields => withTuple typeId (UInt64.ofNat fields.length) (formatAll fields)
  | .struct typeId fields => withStruct typeId (UInt64.ofNat fields.length) (formatFields fields)
  | .stackDump dump => writeStackDump dump.header dump.stack

def formatAll : List OwnedValue → List UInt8
  | [] => []
  | v :: vs => v.format ++ formatAll vs

def formatFields : List (UInt64 × OwnedValue) → List UInt8
  | [] => []
  | (fieldId, v) :: fields => writeFieldId fieldId ++ v.format ++ formatFields fields

end

end Rcard.Log
