/-
Values and the schemas that they fit.

`canonical` says which values a schema describes, and what such a value stands for: fields in
the order of the schema, `Some` around a bare value, `Ok` and `Err` for the variants of these
names.  It is not how the code looks at values.

The encoder resolves options, structs and tuples from the outside, and nothing else: the name
of a variant never reaches the wire, what is in a variant, a newtype or a tuple struct is
written as it is, and sequences and maps are written without their lengths.  `Direct` are the
values that are right on the wire as they are, and `Resolvable` those that the encoder gets
right.
-/
import Rcard.IpcRuntime.Codec

namespace Rcard.IpcRuntime

/-- A primitive value of this type.  No `Vec` is longer than `u64` can count. -/
def leaf : Schema → IpcValue → Bool
  | .bool, .bool _ => true
  | .uint w, .uint w' _ => w = w'
  | .int w, .int w' _ => w = w'
  | .usize, .uint w _ => w = .w64
  | .isize, .int w _ => w = .w64
  | .char, .char _ => true
  | .byteArray, .bytes b => b.length < 2 ^ 64
  | .unit, .unit => true
  | .unitStruct, .unit => true
  | _, _ => false

def mapAll (f : IpcValue → Option IpcValue) : List IpcValue → Option (List IpcValue)
  | [] => some []
  | v :: vs => (f v).bind fun v' => (mapAll f vs).map (v' :: ·)

def pairOf (f g : IpcValue → Option IpcValue) : IpcValue → Option IpcValue
  | .tuple [k, v] => (f k).bind fun k' => (g v).map fun v' => .tuple [k', v']
  | _ => none

mutual

/-- What the value stands for, if it has this shape. -/
def canonical : Schema → IpcValue → Option IpcValue
  | .option inner, v =>
    match v with
    | .none => some .none
    | .some v => (canonical inner v).map .some
    | v => (canonical inner v).map .some
  | .newtypeStruct inner, v => canonical inner v
  | .seq inner, v =>
    match v with
    | .tuple items => (mapAll (canonical inner) items).map .tuple
    | _ => none
  | .tuple elems, v =>
    match v with
    | .tuple items => (canonicalItems elems items).map .tuple
    | _ => none
  | .tupleStruct elems, v =>
    match v with
    | .tuple items => (canonicalItems elems items).map .tuple
    | _ => none
  | .map key val, v =>
    match v with
    | .tuple items => (mapAll (pairOf (canonical key) (canonical val)) items).map .tuple
    | _ => none
  | .struct fields, v =>
    match v with
    | .struct values =>
      if values.length = fields.length then (canonicalFields fields values).map .struct
      else none
    | _ => none
  | .enum _ variants, v =>
    match v with
    | .enum variant payload => (canonicalVariant variants variant payload).map (ofEnum variant)
    | .ok inner => (canonicalVariant variants "Ok" [inner]).map (ofEnum "Ok")
    | .err inner => (canonicalVariant variants "Err" [inner]).map (ofEnum "Err")
    | _ => none
  | s, v => if leaf s v then some v else none

def canonicalItems : List Schema → List IpcValue → Option (List IpcValue)
  | [], [] => some []
  | s :: elems, v :: items => (canonical s v).bind fun v' =>
    (canonicalItems elems items).map (v' :: ·)
  | _, _ => none

def canonicalFields : List (String × Schema) → (values : List (String × IpcValue)) →
    Option (List (String × IpcValue))
  | [], _ => some []
  | (name, s) :: fields, values =>
    match get values name with
    | none => none
    | some v => (canonical s v).bind fun v' =>
      (canonicalFields fields values).map ((name, v') :: ·)

def canonicalVariant : List (String × Variant) → (variant : String) → (payload : List IpcValue) →
    Option (List IpcValue)
  | [], _, _ => none
  | (name, ty) :: variants, variant, payload =>
    if name = variant then canonicalPayload ty payload
    else canonicalVariant variants variant payload

def canonicalPayload : Variant → List IpcValue → Option (List IpcValue)
  | .unitVariant, payload =>
    match payload with
    | [] => some []
    | _ => none
  | .newtypeVariant inner, payload =>
    match payload with
    | [v] => (canonical inner v).map ([·])
    | _ => none
  | .tupleVariant elems, payload => canonicalItems elems payload
  | .structVariant fields, payload =>
    match payload with
    | [.struct values] =>
      if values.length = fields.length then
        (canonicalFields fields values).map fun fields => [.struct fields]
      else none
    | _ => none

end

/-- What the codec is for: bytes come only from a value of the shape, and they are read back,
to the last, as what it stands for. -/
def Faithful (s : Schema) (v : IpcValue) : Prop :=
  ∀ b, encode s v = .ok b → ∃ w, canonical s v = some w ∧ decode s b = some (w, [])

/-! ## What the encoder gets right -/

mutual

/-- The bytes of the value as it is are those of this type. -/
def Direct : Schema → IpcValue → Prop
  | .option inner, v =>
    match v with
    | .none => True
    | .some v => Direct inner v
    | _ => False
  | .newtypeStruct inner, v => Direct inner v
  | .tuple elems, v =>
    match v with
    | .tuple items => DirectItems elems items
    | _ => False
  | .tupleStruct elems, v =>
    match v with
    | .tuple items => DirectItems elems items
    | _ => False
  | .struct fields, v =>
    match v with
    | .struct values => (fields.map (·.1)).Nodup ∧ DirectFields fields values
    | _ => False
  | .enum _ variants, v =>
    match v with
    | .enum variant payload => DirectVariant variants 0 variant payload
    | .ok inner => DirectVariant variants 0 "Ok" [inner]
    | .err inner => DirectVariant variants 1 "Err" [inner]
    | _ => False
  | s, v => leaf s v

def DirectItems : List Schema → List IpcValue → Prop
  | [], [] => True
  | s :: elems, v :: items => Direct s v ∧ DirectItems elems items
  | _, _ => False

/-- The fields are in the order of the schema. -/
def DirectFields : List (String × Schema) → List (String × IpcValue) → Prop
  | [], [] => True
  | (name, s) :: fields, (name', v) :: values =>
    name = name' ∧ Direct s v ∧ DirectFields fields values
  | _, _ => False

/-- The first variant of this name has this index. -/
def DirectVariant : List (String × Variant) → (idx : Nat) → (variant : String) →
    (payload : List IpcValue) → Prop
  | [], _, _, _ => False
  | (name, ty) :: _, 0, variant, payload => name = variant ∧ DirectPayload ty payload
  | (name, _) :: variants, idx + 1, variant, payload =>
    name ≠ variant ∧ DirectVariant variants idx variant payload

def DirectPayload : Variant → List IpcValue → Prop
  | .unitVariant, payload => payload = []
  | .newtypeVariant inner, payload =>
    match payload with
    | [v] => Direct inner v
    | _ => False
  | .tupleVariant elems, payload => DirectItems elems payload
  | .structVariant fields, payload => fields = [] ∧ payload = [.struct []]

end

mutual

def Resolvable : Schema → IpcValue → Prop
  | .option inner, v =>
    match v with
    | .none => True
    | .some v => Resolvable inner v
    | v => Resolvable inner v
  | .tuple elems, v =>
    match v with
    | .tuple items => ResolvableItems elems items
    | _ => False
  | .struct fields, v =>
    match v with
    | .struct values =>
      (fields.map (·.1)).Nodup ∧ values.length = fields.length ∧ ResolvableFields fields values
    | _ => False
  | s, v => Direct s v

def ResolvableItems : List Schema → List IpcValue → Prop
  | [], [] => True
  | s :: elems, v :: items => Resolvable s v ∧ ResolvableItems elems items
  | _, _ => False

def ResolvableFields : List (String × Schema) → (values : List (String × IpcValue)) → Prop
  | [], _ => True
  | (name, s) :: fields, values =>
    match get values name with
    | none => False
    | some v => Resolvable s v ∧ ResolvableFields fields values

end

/-! ## What the encoder refuses -/

mutual

/-- Somewhere that the encoder looks at, a field is missing or a variant is not known. -/
def Refused : Schema → IpcValue → Prop
  | .enum _ variants, v =>
    match v with
    | .enum variant _ => variant ∉ variants.map (·.1)
    | _ => False
  | .option inner, v =>
    match v with
    | .some v => Refused inner v
    | .none => False
    | v => Refused inner v
  | .struct fields, v =>
    match v with
    | .struct values => RefusedFields fields values
    | _ => False
  | .tuple elems, v =>
    match v with
    | .tuple items => RefusedItems elems items
    | _ => False
  | _, _ => False

def RefusedFields : List (String × Schema) → (values : List (String × IpcValue)) → Prop
  | [], _ => False
  | (name, s) :: fields, values =>
    match get values name with
    | none => True
    | some v => Refused s v ∨ RefusedFields fields values

def RefusedItems : List Schema → List IpcValue → Prop
  | s :: elems, v :: items => Refused s v ∨ RefusedItems elems items
  | _, _ => False

end

end Rcard.IpcRuntime
