/-
The codec of the host for values described by a schema (`host/ipc-runtime/src/value.rs`,
`encode.rs`, `decode.rs`).

A schema keeps the name of its type only where an error shows it.  An `IndexMap` is the list of
its entries.  The postcard errors that `decode` passes on are not distinguished.
-/
import Rcard.Lib.Postcard

namespace Rcard.IpcRuntime

open Postcard

open Postcard (Read)

inductive Width where
  | w8
  | w16
  | w32
  | w64
  | w128
  deriving DecidableEq, Repr

def Width.bits : Width → Nat
  | w8 => 8
  | w16 => 16
  | w32 => 32
  | w64 => 64
  | w128 => 128

inductive IpcValue where
  /-- `U8` to `U128` -/
  | uint (w : Width) (v : BitVec w.bits)
  /-- `I8` to `I128` -/
  | int (w : Width) (v : BitVec w.bits)
  | bool (b : Bool)
  | char (c : Char)
  | struct (fields : List (String × IpcValue))
  | tuple (items : List IpcValue)
  | enum (variant : String) (payload : List IpcValue)
  | some (inner : IpcValue)
  | none
  | ok (inner : IpcValue)
  | err (inner : IpcValue)
  | bytes (b : List UInt8)
  | unit
  deriving Repr

mutual

/-- `OwnedNamedType` with its `OwnedDataModelType`. -/
inductive Schema where
  | bool
  | uint (w : Width)
  | int (w : Width)
  | usize
  | isize
  | f32
  | f64
  | char
  | string
  | byteArray
  | option (inner : Schema)
  | unit
  | unitStruct
  | newtypeStruct (inner : Schema)
  | seq (inner : Schema)
  | tuple (elems : List Schema)
  | tupleStruct (elems : List Schema)
  | map (key val : Schema)
  | struct (fields : List (String × Schema))
  | enum (name : String) (variants : List (String × Variant))
  | schema

/-- `OwnedDataModelVariant` -/
inductive Variant where
  | unitVariant
  | newtypeVariant (inner : Schema)
  | tupleVariant (elems : List Schema)
  | structVariant (fields : List (String × Schema))

end

/-- `IndexMap::get` -/
def get {α : Type} (fields : List (String × α)) (name : String) : Option α :=
  (fields.find? (·.1 = name)).map (·.2)

/-- `IndexMap::insert` -/
def insert {α : Type} (fields : List (String × α)) (name : String) (v : α) : List (String × α) :=
  if fields.any (·.1 = name) then fields.map fun f => if f.1 = name then (name, v) else f
  else fields ++ [(name, v)]

/-! ## Encoding -/

def variantIndex (idx : Nat) : List UInt8 := varint (BitVec.ofNat 32 idx)

mutual

/-- Whatever its name, a variant has the index zero. -/
def serialize : IpcValue → List UInt8
  | .uint _ v => uint v
  | .int _ v => int v
  | .bool b => bool b
  | .char c => char c
  | .struct fields => serializeFields fields
  | .tuple items => serializeItems items
  | .enum _ payload => variantIndex 0 ++ serializeItems payload
  | .some inner => 1 :: serialize inner
  | .none => [0]
  | .ok inner => variantIndex 0 ++ serialize inner
  | .err inner => variantIndex 1 ++ serialize inner
  | .bytes b => bytes b
  | .unit => []

def serializeItems : List IpcValue → List UInt8
  | [] => []
  | v :: vs => serialize v ++ serializeItems vs

def serializeFields : List (String × IpcValue) → List UInt8
  | [] => []
  | (_, v) :: fields => serialize v ++ serializeFields fields

end

inductive EncodeError where
  | missingField (name : String)
  | unknownVariant (enumName variant : String) (available : List String)
  deriving DecidableEq, Repr

mutual

def resolveEnums : Schema → IpcValue → Except EncodeError IpcValue
  | .enum name variants, v =>
    match v with
    | .enum variant payload =>
      match variants.findIdx? (·.1 = variant) with
      | some idx => .ok (.enum (toString idx ++ ":" ++ variant) payload)
      | none => .error (.unknownVariant name variant (variants.map (·.1)))
    | v => .ok v
  | .option inner, v =>
    match v with
    | .some v => (resolveEnums inner v).map .some
    | .none => .ok .none
    | v => (resolveEnums inner v).map .some
  | .struct fields, v =>
    match v with
    | .struct values => (resolveFields fields values []).map .struct
    | v => .ok v
  | .tuple elems, v =>
    match v with
    | .tuple items => (resolveItems elems items).map .tuple
    | v => .ok v
  | _, v => .ok v

def resolveFields : List (String × Schema) → (values resolved : List (String × IpcValue)) →
    Except EncodeError (List (String × IpcValue))
  | [], _, resolved => .ok resolved
  | (name, s) :: fields, values, resolved =>
    match get values name with
    | none => .error (.missingField name)
    | some v => (resolveEnums s v).bind fun v' =>
      resolveFields fields values (insert resolved name v')

/-- `zip` ends with the shorter list. -/
def resolveItems : List Schema → List IpcValue → Except EncodeError (List IpcValue)
  | s :: elems, v :: items => (resolveEnums s v).bind fun v' =>
    (resolveItems elems items).map (v' :: ·)
  | _, _ => .ok []

end

def encode (s : Schema) (v : IpcValue) : Except EncodeError (List UInt8) :=
  (resolveEnums s v).map serialize

/-! ## Decoding -/

def takeVariantIndex : Read Nat := (takeVarint 32).map BitVec.toNat

def ofOption : Option IpcValue → IpcValue
  | some v => .some v
  | none => .none

mutual

/-- `ValueSeed`.  A sequence and a map become tuples. -/
def deserialize : Schema → Read IpcValue
  | .bool => takeBool.map .bool
  | .uint w => (takeUint w.bits).map (.uint w)
  | .int w => (takeInt w.bits).map (.int w)
  | .usize => (takeUint 64).map (.uint .w64)
  | .isize => (takeInt 64).map (.int .w64)
  | .f32 => .fail
  | .f64 => .fail
  | .char => takeChar.map .char
  | .string => .fail
  | .byteArray => takeBytes.map .bytes
  | .option inner => (takeOption (deserialize inner)).map ofOption
  | .unit => .done .unit
  | .unitStruct => .done .unit
  | .newtypeStruct inner => deserialize inner
  | .seq inner => (takeLength.andThen (deserialize inner).times).map .tuple
  | .tuple elems => (deserializeItems elems).map .tuple
  | .tupleStruct elems => (deserializeItems elems).map .tuple
  | .map key val =>
    (takeLength.andThen ((deserialize key).andThen fun k => (deserialize val).map fun v =>
        IpcValue.tuple [k, v]).times).map .tuple
  | .struct fields => (deserializeFields fields []).map .struct
  | .enum _ variants => takeVariantIndex.andThen (deserializeVariant variants)
  | .schema => .fail

def deserializeItems : List Schema → Read (List IpcValue)
  | [] => .done []
  | s :: elems => (deserialize s).andThen fun v => (deserializeItems elems).map (v :: ·)

def deserializeFields : List (String × Schema) → (read : List (String × IpcValue)) →
    Read (List (String × IpcValue))
  | [], read => .done read
  | (name, s) :: fields, read =>
    (deserialize s).andThen fun v => deserializeFields fields (insert read name v)

/-- `EnumSeed`, behind the index. -/
def deserializeVariant : List (String × Variant) → Nat → Read IpcValue
  | [], _ => .fail
  | (name, variant) :: _, 0 => (deserializePayload variant).map (.enum name)
  | _ :: variants, idx + 1 => deserializeVariant variants idx

/-- The fields of a struct variant are asked for as a tuple of no elements. -/
def deserializePayload : Variant → Read (List IpcValue)
  | .unitVariant => .done []
  | .newtypeVariant inner => (deserialize inner).map ([·])
  | .tupleVariant elems => deserializeItems elems
  | .structVariant [] => .done [.struct []]
  | .structVariant (_ :: _) => .fail

end

/-- The value of a generic enum as a `Result`, if it has the name of one. -/
def ofEnum (variant : String) : List IpcValue → IpcValue
  | [inner] =>
    if variant = "Ok" then .ok inner
    else if variant = "Err" then .err inner
    else .enum variant [inner]
  | payload => .enum variant payload

mutual

def canonicalizeResult : IpcValue → IpcValue
  | .enum variant payload => ofEnum variant (canonicalizeItems payload)
  | .struct fields => .struct (canonicalizeFields fields)
  | .tuple items => .tuple (canonicalizeItems items)
  | .some inner => .some (canonicalizeResult inner)
  | .ok inner => .ok (canonicalizeResult inner)
  | .err inner => .err (canonicalizeResult inner)
  | v => v

def canonicalizeItems : List IpcValue → List IpcValue
  | [] => []
  | v :: vs => canonicalizeResult v :: canonicalizeItems vs

def canonicalizeFields : List (String × IpcValue) → List (String × IpcValue)
  | [] => []
  | (name, v) :: fields => (name, canonicalizeResult v) :: canonicalizeFields fields

end

/-- With what is left of the bytes, which the code does not look at. -/
def decode (s : Schema) : Read IpcValue := (deserialize s).map canonicalizeResult

end Rcard.IpcRuntime
