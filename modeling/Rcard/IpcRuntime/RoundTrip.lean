/-
Round trips of the schema-driven codec.

A value that is right on the wire as it is, is read back as it is, but for `Ok` and `Err`,
which are read as variants of an enum and put back at the end.  The encoder brings the fields
of a struct into order and wraps bare values, and hands on the rest.
-/
import Mathlib.Data.List.Nodup
import Rcard.IpcRuntime.Shape

namespace Rcard.IpcRuntime

open List Postcard

open Postcard (Read Reads)

/-! ## Generic enums -/

mutual

/-- With `Ok` and `Err` as variants of an enum. -/
def generic : IpcValue → IpcValue
  | .enum variant payload => .enum variant (genericItems payload)
  | .struct fields => .struct (genericFields fields)
  | .tuple items => .tuple (genericItems items)
  | .some inner => .some (generic inner)
  | .ok inner => .enum "Ok" [generic inner]
  | .err inner => .enum "Err" [generic inner]
  | v => v

def genericItems : List IpcValue → List IpcValue
  | [] => []
  | v :: vs => generic v :: genericItems vs

def genericFields : List (String × IpcValue) → List (String × IpcValue)
  | [] => []
  | (name, v) :: fields => (name, generic v) :: genericFields fields

end

mutual

theorem canonicalizeResult_generic (v : IpcValue) :
    canonicalizeResult (generic v) = canonicalizeResult v := by
  cases v with
  | enum variant payload =>
    rw [generic, canonicalizeResult, canonicalizeResult, canonicalizeItems_generic payload]
  | struct fields =>
    rw [generic, canonicalizeResult, canonicalizeResult, canonicalizeFields_generic fields]
  | tuple items =>
    rw [generic, canonicalizeResult, canonicalizeResult, canonicalizeItems_generic items]
  | some inner =>
    rw [generic, canonicalizeResult, canonicalizeResult, canonicalizeResult_generic inner]
  | ok inner | err inner =>
    rw [generic, canonicalizeResult, canonicalizeResult, ← canonicalizeResult_generic inner]
    rfl
  | _ => rfl

theorem canonicalizeItems_generic (vs : List IpcValue) :
    canonicalizeItems (genericItems vs) = canonicalizeItems vs := by
  cases vs with
  | nil => rfl
  | cons v vs =>
    rw [genericItems, canonicalizeItems, canonicalizeItems, canonicalizeResult_generic v,
      canonicalizeItems_generic vs]

theorem canonicalizeFields_generic (fields : List (String × IpcValue)) :
    canonicalizeFields (genericFields fields) = canonicalizeFields fields := by
  cases fields with
  | nil => rfl
  | cons field fields =>
    obtain ⟨name, v⟩ := field
    rw [genericFields, canonicalizeFields, canonicalizeFields, canonicalizeResult_generic v,
      canonicalizeFields_generic fields]

end

/-! ## Values as they are -/

theorem Width.bits_spec (w : Width) : w.bits = 8 ∨ w.bits % 7 ≠ 0 := by
  cases w <;> decide

variable {s : Schema} {v : IpcValue} {name : String}

theorem reads_leaf (h : leaf s v) : Reads (deserialize s) (serialize v) v := by
  unfold leaf at h
  split at h
  · exact (reads_bool _).map IpcValue.bool
  · cases of_decide_eq_true h
    exact (reads_uint (Width.bits_spec _) _).map (IpcValue.uint _)
  · cases of_decide_eq_true h
    exact (reads_int (Width.bits_spec _) _).map (IpcValue.int _)
  · cases of_decide_eq_true h
    exact (reads_uint (Width.bits_spec .w64) _).map (IpcValue.uint .w64)
  · cases of_decide_eq_true h
    exact (reads_int (Width.bits_spec .w64) _).map (IpcValue.int .w64)
  · exact (reads_char _).map IpcValue.char
  · exact (reads_bytes (of_decide_eq_true h)).map IpcValue.bytes
  · exact .done IpcValue.unit
  · exact .done IpcValue.unit
  · cases h

/-- A primitive value is not changed by anything. -/
theorem leaf_fixed (h : leaf s v) :
    generic v = v ∧ canonicalizeResult v = v ∧ resolveEnums s v = .ok v := by
  unfold leaf at h
  split at h
  all_goals first
    | exact ⟨rfl, rfl, rfl⟩
    | cases h

theorem insert_of_notMem {α : Type} {fields : List (String × α)} (h : name ∉ fields.map (·.1))
    (v : α) : insert fields name v = fields ++ [(name, v)] := by
  grind [insert]

theorem reads_variantIndex {idx : Nat} (h : idx < 2 ^ 32) :
    Reads takeVariantIndex (variantIndex idx) idx := by
  have hread := (reads_varint (by decide) (BitVec.ofNat 32 idx)).map BitVec.toNat
  rwa [BitVec.toNat_ofNat, Nat.mod_eq_of_lt h] at hread

/-- One more name is taken, which is not one of those to come. -/
theorem notMem_append {α β : Type} {fields : List (String × α)} {read : List (String × β)} {v : β}
    (hname : name ∉ fields.map (·.1)) (hread : ∀ other ∈ fields.map (·.1), other ∉ read.map (·.1)) :
    ∀ other ∈ fields.map (·.1), other ∉ (read ++ [(name, v)]).map (·.1) := by
  grind

theorem get_cons_self {α : Type} (name : String) (v : α) (fields : List (String × α)) :
    get ((name, v) :: fields) name = some v := by
  simp [get]

theorem get_cons_of_ne {α : Type} {name' : String} (h : name' ≠ name) (v : α)
    (fields : List (String × α)) : get ((name', v) :: fields) name = get fields name := by
  simp [get, h]

/-- Entries in front of those of the schema are not looked at. -/
theorem canonicalFields_append (fields : List (String × Schema)) (name : String) (v : IpcValue)
    (values : List (String × IpcValue)) (h : name ∉ fields.map (·.1)) :
    canonicalFields fields ((name, v) :: values) = canonicalFields fields values := by
  induction fields with
  | nil => rfl
  | cons field fields ih =>
    obtain ⟨name', s⟩ := field
    have hne : name ≠ name' := fun hsame => h (hsame ▸ mem_cons_self)
    have hrest : name ∉ fields.map (·.1) := fun hmem => h (mem_cons_of_mem _ hmem)
    rw [canonicalFields, canonicalFields, get_cons_of_ne hne, ih hrest]

mutual

theorem direct_spec (s : Schema) (v : IpcValue) (h : Direct s v) :
    Reads (deserialize s) (serialize v) (generic v) ∧
      canonical s v = some (canonicalizeResult v) := by
  cases s with
  | option inner =>
    cases v with
    | none => exact ⟨(reads_none _).map ofOption, rfl⟩
    | some v =>
      obtain ⟨hread, hcanonical⟩ := direct_spec inner v h
      refine ⟨(reads_some hread).map ofOption, ?_⟩
      rw [canonical, hcanonical]
      rfl
    | _ => cases h
  | newtypeStruct inner => exact direct_spec inner v h
  | tuple elems | tupleStruct elems =>
    cases v with
    | tuple items =>
      obtain ⟨hread, hcanonical⟩ := directItems_spec elems items h
      refine ⟨hread.map IpcValue.tuple, ?_⟩
      rw [canonical, hcanonical]
      rfl
    | _ => cases h
  | struct fields =>
    cases v with
    | struct values =>
      obtain ⟨hread, hlen, hcanonical⟩ :=
        directFields_spec fields values [] h.2 h.1 (fun _ _ => not_mem_nil)
      refine ⟨hread.map IpcValue.struct, ?_⟩
      rw [canonical, if_pos hlen, hcanonical]
      rfl
    | _ => cases h
  | enum name variants =>
    cases v with
    | enum variant payload =>
      obtain ⟨hread, hcanonical⟩ := directVariant_spec variants 0 variant payload h
      refine ⟨(reads_variantIndex (by decide)).andThen hread, ?_⟩
      rw [canonical, hcanonical]
      rfl
    | ok inner =>
      obtain ⟨hread, hcanonical⟩ := directVariant_spec variants 0 "Ok" [inner] h
      rw [serializeItems, serializeItems, append_nil] at hread
      refine ⟨(reads_variantIndex (by decide)).andThen hread, ?_⟩
      rw [canonical, hcanonical]
      rfl
    | err inner =>
      obtain ⟨hread, hcanonical⟩ := directVariant_spec variants 1 "Err" [inner] h
      rw [serializeItems, serializeItems, append_nil] at hread
      refine ⟨(reads_variantIndex (by decide)).andThen hread, ?_⟩
      rw [canonical, hcanonical]
      rfl
    | _ => cases h
  | seq inner => cases h
  | map key val => cases h
  | _ =>
    obtain ⟨hgeneric, hresult, -⟩ := leaf_fixed h
    rw [hgeneric, hresult]
    exact ⟨reads_leaf h, if_pos h⟩

theorem directItems_spec (elems : List Schema) (items : List IpcValue)
    (h : DirectItems elems items) :
    Reads (deserializeItems elems) (serializeItems items) (genericItems items) ∧
      canonicalItems elems items = some (canonicalizeItems items) := by
  cases elems with
  | nil =>
    cases items with
    | nil => exact ⟨.done [], rfl⟩
    | cons v items => cases h
  | cons s elems =>
    cases items with
    | nil => cases h
    | cons v items =>
      obtain ⟨hread, hcanonical⟩ := direct_spec s v h.1
      obtain ⟨hreads, hcanonicals⟩ := directItems_spec elems items h.2
      refine ⟨hread.andThen (hreads.map (generic v :: ·)), ?_⟩
      rw [canonicalItems, hcanonical, hcanonicals]
      rfl

theorem directFields_spec (fields : List (String × Schema))
    (values read : List (String × IpcValue)) (h : DirectFields fields values)
    (hnames : (fields.map (·.1)).Nodup)
    (hread : ∀ name ∈ fields.map (·.1), name ∉ read.map (·.1)) :
    Reads (deserializeFields fields read) (serializeFields values)
        (read ++ genericFields values) ∧
      values.length = fields.length ∧
      canonicalFields fields values = some (canonicalizeFields values) := by
  cases fields with
  | nil =>
    cases values with
    | nil =>
      rw [genericFields, append_nil]
      exact ⟨.done read, rfl, rfl⟩
    | cons value values => cases h
  | cons field fields =>
    cases values with
    | nil => cases h
    | cons value values =>
      obtain ⟨name, s⟩ := field
      obtain ⟨name', v⟩ := value
      obtain ⟨rfl, hv, hrest⟩ := h
      obtain ⟨hname, hnames⟩ := nodup_cons.mp hnames
      have hnew : name ∉ read.map (·.1) := hread name mem_cons_self
      obtain ⟨hfirst, hcanonical⟩ := direct_spec s v hv
      obtain ⟨hreads, hlen, hcanonicals⟩ := directFields_spec fields values
        (read ++ [(name, generic v)]) hrest hnames
        (notMem_append hname fun other hother => hread other (mem_cons_of_mem _ hother))
      refine ⟨hfirst.andThen ?_, congrArg (· + 1) hlen, ?_⟩
      · rw [insert_of_notMem hnew, genericFields,
          append_cons read (name, generic v) (genericFields values)]
        exact hreads
      · rw [canonicalFields, get_cons_self]
        dsimp only
        rw [hcanonical, canonicalFields_append fields name v values hname, hcanonicals]
        rfl

theorem directVariant_spec (variants : List (String × Variant)) (idx : Nat) (variant : String)
    (payload : List IpcValue) (h : DirectVariant variants idx variant payload) :
    Reads (deserializeVariant variants idx) (serializeItems payload)
        (.enum variant (genericItems payload)) ∧
      canonicalVariant variants variant payload = some (canonicalizeItems payload) := by
  cases variants with
  | nil => cases h
  | cons first variants =>
    obtain ⟨name, ty⟩ := first
    cases idx with
    | zero =>
      obtain ⟨rfl, hpayload⟩ := h
      obtain ⟨hread, hcanonical⟩ := directPayload_spec ty payload hpayload
      refine ⟨hread.map (IpcValue.enum name), ?_⟩
      rw [canonicalVariant, if_pos rfl, hcanonical]
    | succ idx =>
      rw [canonicalVariant, if_neg h.1]
      exact directVariant_spec variants idx variant payload h.2

theorem directPayload_spec (ty : Variant) (payload : List IpcValue)
    (h : DirectPayload ty payload) :
    Reads (deserializePayload ty) (serializeItems payload) (genericItems payload) ∧
      canonicalPayload ty payload = some (canonicalizeItems payload) := by
  cases ty with
  | unitVariant =>
    cases h
    exact ⟨.done [], rfl⟩
  | newtypeVariant inner =>
    rcases payload with _ | ⟨v, _ | ⟨v', payload⟩⟩
    · cases h
    · obtain ⟨hread, hcanonical⟩ := direct_spec inner v h
      rw [serializeItems, serializeItems, append_nil, canonicalPayload, hcanonical]
      exact ⟨hread.map ([·]), rfl⟩
    · cases h
  | tupleVariant elems => exact directItems_spec elems payload h
  | structVariant fields =>
    obtain ⟨rfl, rfl⟩ := h
    exact ⟨.done _, rfl⟩

end

/-! ## Resolved values -/

/-- The encoder makes a value of it whose bytes are read back as what it stands for. -/
def Encodes (s : Schema) (v : IpcValue) : Prop :=
  ∃ r g, resolveEnums s v = .ok r ∧ Reads (deserialize s) (serialize r) g ∧
    canonical s v = some (canonicalizeResult g)

theorem encodes_of_direct {r : IpcValue} (h : Direct s v) (hresolve : resolveEnums s v = .ok r)
    (hserialize : serialize r = serialize v) : Encodes s v := by
  obtain ⟨hread, hcanonical⟩ := direct_spec s v h
  refine ⟨r, generic v, hresolve, ?_, ?_⟩
  · rwa [hserialize]
  · rwa [canonicalizeResult_generic]

/-- Only the first variant has the index that every variant is written with. -/
theorem encodes_enum {variants : List (String × Variant)} (h : Direct (.enum name variants) v) :
    Encodes (.enum name variants) v := by
  cases v with
  | enum variant payload =>
    have hfirst : variants.findIdx? (·.1 = variant) = some 0 := by
      cases variants with
      | nil => cases h
      | cons first variants =>
        obtain ⟨rfl, -⟩ := h
        simp [findIdx?_cons]
    refine encodes_of_direct (r := .enum (toString 0 ++ ":" ++ variant) payload) h ?_ rfl
    rw [resolveEnums, hfirst]
  | ok inner | err inner => exact encodes_of_direct h rfl rfl
  | _ => cases h

theorem encodes_some {inner : Schema} (h : Encodes inner v) {v' : IpcValue}
    (hresolve : resolveEnums (.option inner) v' = (resolveEnums inner v).map .some)
    (hcanonical : canonical (.option inner) v' = (canonical inner v).map .some) :
    Encodes (.option inner) v' := by
  obtain ⟨r, g, hr, hread, hg⟩ := h
  refine ⟨.some r, .some g, ?_, (reads_some hread).map ofOption, ?_⟩
  · rw [hresolve, hr]
    rfl
  · rw [hcanonical, hg]
    rfl

mutual

theorem encodes_of_resolvable (s : Schema) (v : IpcValue) (h : Resolvable s v) : Encodes s v := by
  cases s with
  | option inner =>
    cases v with
    | none => exact ⟨.none, .none, rfl, (reads_none _).map ofOption, rfl⟩
    | some v => exact encodes_some (encodes_of_resolvable inner v h) rfl rfl
    | _ => exact encodes_some (encodes_of_resolvable inner _ h) rfl rfl
  | tuple elems =>
    cases v with
    | tuple items =>
      obtain ⟨rs, gs, hrs, hread, hgs⟩ := encodesItems_of_resolvable elems items h
      refine ⟨.tuple rs, .tuple gs, ?_, hread.map IpcValue.tuple, ?_⟩
      · rw [resolveEnums, hrs]
        rfl
      · rw [canonical, hgs]
        rfl
    | _ => cases h
  | struct fields =>
    cases v with
    | struct values =>
      obtain ⟨hnames, hlen, hfields⟩ := h
      obtain ⟨rs, gs, hrs, hread, hgs⟩ :=
        encodesFields_of_resolvable fields values [] [] hfields hnames
          (fun _ _ => not_mem_nil) (fun _ _ => not_mem_nil)
      refine ⟨.struct rs, .struct gs, ?_, hread.map IpcValue.struct, ?_⟩
      · rw [resolveEnums, hrs]
        rfl
      · rw [canonical, if_pos hlen, hgs]
        rfl
    | _ => cases h
  | enum name variants => exact encodes_enum h
  | _ => exact encodes_of_direct h rfl rfl

theorem encodesItems_of_resolvable (elems : List Schema) (items : List IpcValue)
    (h : ResolvableItems elems items) :
    ∃ rs gs, resolveItems elems items = .ok rs ∧
      Reads (deserializeItems elems) (serializeItems rs) gs ∧
      canonicalItems elems items = some (canonicalizeItems gs) := by
  cases elems with
  | nil =>
    cases items with
    | nil => exact ⟨[], [], rfl, .done [], rfl⟩
    | cons v items => cases h
  | cons s elems =>
    cases items with
    | nil => cases h
    | cons v items =>
      obtain ⟨r, g, hr, hread, hg⟩ := encodes_of_resolvable s v h.1
      obtain ⟨rs, gs, hrs, hreads, hgs⟩ := encodesItems_of_resolvable elems items h.2
      refine ⟨r :: rs, g :: gs, ?_, hread.andThen (hreads.map (g :: ·)), ?_⟩
      · rw [resolveItems, hr, hrs]
        rfl
      · rw [canonicalItems, hg, hgs]
        rfl

/-- With the fields that are done on both sides. -/
theorem encodesFields_of_resolvable (fields : List (String × Schema))
    (values resolved read : List (String × IpcValue)) (h : ResolvableFields fields values)
    (hnames : (fields.map (·.1)).Nodup)
    (hresolved : ∀ name ∈ fields.map (·.1), name ∉ resolved.map (·.1))
    (hread : ∀ name ∈ fields.map (·.1), name ∉ read.map (·.1)) :
    ∃ rs gs, resolveFields fields values resolved = .ok (resolved ++ rs) ∧
      Reads (deserializeFields fields read) (serializeFields rs) (read ++ gs) ∧
      canonicalFields fields values = some (canonicalizeFields gs) := by
  cases fields with
  | nil =>
    refine ⟨[], [], ?_, ?_, rfl⟩
    · rw [resolveFields, append_nil]
    · rw [append_nil]
      exact .done read
  | cons field fields =>
    obtain ⟨name, s⟩ := field
    obtain ⟨hname, hnames⟩ := nodup_cons.mp hnames
    cases hget : get values name with
    | none =>
      rw [ResolvableFields, hget] at h
      cases h
    | some v =>
      rw [ResolvableFields, hget] at h
      obtain ⟨r, g, hr, hv, hg⟩ := encodes_of_resolvable s v h.1
      obtain ⟨rs, gs, hrs, hvs, hgs⟩ := encodesFields_of_resolvable fields values
        (resolved ++ [(name, r)]) (read ++ [(name, g)]) h.2 hnames
        (notMem_append hname fun other hother => hresolved other (mem_cons_of_mem _ hother))
        (notMem_append hname fun other hother => hread other (mem_cons_of_mem _ hother))
      rw [← append_cons] at hrs hvs
      refine ⟨(name, r) :: rs, (name, g) :: gs, ?_, ?_, ?_⟩
      · rw [resolveFields, hget]
        dsimp only
        rw [hr, ← hrs, ← insert_of_notMem (hresolved name mem_cons_self) r]
        rfl
      · refine hv.andThen ?_
        rw [insert_of_notMem (hread name mem_cons_self)]
        exact hvs
      · rw [canonicalFields, hget]
        dsimp only
        rw [hg, hgs]
        rfl

end

/-! ## Refused values -/

def Fails {α : Type} (x : Except EncodeError α) : Prop := ∃ e, x = .error e

theorem fails_map {α β : Type} {x : Except EncodeError α} {f : α → β} :
    Fails (x.map f) ↔ Fails x := by
  cases x with
  | error e => exact iff_of_true ⟨e, rfl⟩ ⟨e, rfl⟩
  | ok a => exact iff_of_false nofun nofun

theorem fails_bind {α β : Type} {x : Except EncodeError α} {f : α → Except EncodeError β}
    {p : Prop} (h : ∀ a, Fails (f a) ↔ p) : Fails (x.bind f) ↔ Fails x ∨ p := by
  cases x with
  | error e => exact iff_of_true ⟨e, rfl⟩ (.inl ⟨e, rfl⟩)
  | ok a => exact (h a).trans (or_iff_right nofun).symm

mutual

theorem fails_resolveEnums (s : Schema) (v : IpcValue) :
    Fails (resolveEnums s v) ↔ Refused s v := by
  cases s with
  | enum name variants =>
    cases v with
    | enum variant payload =>
      rw [resolveEnums, Refused]
      split
      · next idx hidx =>
        refine iff_of_false nofun (not_not.mpr ?_)
        obtain ⟨h, hname, -⟩ := findIdx?_eq_some_iff_getElem.mp hidx
        exact mem_map.mpr ⟨_, getElem_mem h, of_decide_eq_true hname⟩
      · next hnone =>
        refine iff_of_true ⟨_, rfl⟩ fun hmem => ?_
        obtain ⟨x, hx, hname⟩ := mem_map.mp hmem
        have := findIdx?_eq_none_iff.mp hnone x hx
        grind
    | _ => exact iff_of_false nofun id
  | option inner =>
    cases v with
    | none => exact iff_of_false nofun id
    | some v => exact fails_map.trans (fails_resolveEnums inner v)
    | _ => exact fails_map.trans (fails_resolveEnums inner _)
  | struct fields =>
    cases v with
    | struct values => exact fails_map.trans (fails_resolveFields fields values [])
    | _ => exact iff_of_false nofun id
  | tuple elems =>
    cases v with
    | tuple items => exact fails_map.trans (fails_resolveItems elems items)
    | _ => exact iff_of_false nofun id
  | _ => exact iff_of_false nofun id

theorem fails_resolveFields (fields : List (String × Schema))
    (values resolved : List (String × IpcValue)) :
    Fails (resolveFields fields values resolved) ↔ RefusedFields fields values := by
  cases fields with
  | nil => exact iff_of_false nofun id
  | cons field fields =>
    obtain ⟨name, s⟩ := field
    rw [resolveFields, RefusedFields]
    cases get values name with
    | none => exact iff_of_true ⟨_, rfl⟩ trivial
    | some v =>
      exact (fails_bind fun v' => fails_resolveFields fields values _).trans
        (or_congr_left (fails_resolveEnums s v))

theorem fails_resolveItems (elems : List Schema) (items : List IpcValue) :
    Fails (resolveItems elems items) ↔ RefusedItems elems items := by
  cases elems with
  | nil => exact iff_of_false nofun (by rw [RefusedItems]; exact id; nofun)
  | cons s elems =>
    cases items with
    | nil => exact iff_of_false nofun id
    | cons v items =>
      exact (fails_bind fun v' => fails_map.trans (fails_resolveItems elems items)).trans
        (or_congr_left (fails_resolveEnums s v))

end

/-! ## Round trips -/

theorem Encodes.decode (h : Encodes s v) :
    ∃ b w, encode s v = .ok b ∧ canonical s v = some w ∧ decode s b = some (w, []) := by
  obtain ⟨r, g, hr, hread, hg⟩ := h
  refine ⟨serialize r, canonicalizeResult g, ?_, hg, (hread.map canonicalizeResult).eq_some⟩
  rw [encode, hr]
  rfl

theorem ofEnum_name {variant variant' : String} {payload payload' : List IpcValue}
    (h : ofEnum variant payload = ofEnum variant' payload') : variant = variant' := by
  unfold ofEnum at h
  grind

/-- Every variant is read as the first. -/
theorem variant_of_faithful {name variant : String} {variants : List (String × Variant)}
    {payload : List IpcValue} (h : Faithful (.enum name variants) (.enum variant payload))
    (hok : ¬ Refused (.enum name variants) (.enum variant payload)) :
    (variants.map (·.1)).head? = some variant := by
  have hbytes : encode (.enum name variants) (.enum variant payload) =
      .ok (variantIndex 0 ++ serializeItems payload) := by
    rw [← fails_resolveEnums, resolveEnums] at hok
    rw [encode, resolveEnums]
    split at hok
    · rfl
    · exact absurd ⟨_, rfl⟩ hok
  obtain ⟨w, hw, hdecode⟩ := h _ hbytes
  obtain ⟨payload', -, rfl⟩ := Option.map_eq_some_iff.mp hw
  obtain ⟨⟨g, rest⟩, hread, heq⟩ := Option.map_eq_some_iff.mp hdecode
  rw [deserialize, Read.andThen, reads_variantIndex (by decide)] at hread
  cases variants with
  | nil => cases hread
  | cons first variants =>
    obtain ⟨⟨read, rest'⟩, -, hg⟩ := Option.map_eq_some_iff.mp hread
    cases hg
    rw [map_cons, head?_cons, ofEnum_name (Prod.mk.inj heq).1]

/-- The encoder refuses a value exactly if a field is missing or a variant is not known.  A value
that it refuses or resolves is treated faithfully, and two of the latter with the same bytes stand
for the same.  A value that is treated faithfully is refused or has the shape, and is then not of
another variant than the first. -/
theorem codec_faithful (s : Schema) (v : IpcValue) :
    ((∃ e, encode s v = .error e) ↔ Refused s v) ∧
    (Refused s v ∨ Resolvable s v → Faithful s v) ∧
    (∀ v', Resolvable s v → Resolvable s v' → encode s v' = encode s v →
      canonical s v' = canonical s v) ∧
    (Faithful s v → Refused s v ∨ (canonical s v).isSome ∧
      ∀ name variants variant payload, s = .enum name variants → v = .enum variant payload →
        (variants.map (·.1)).head? = some variant) := by
  have hrefused : (∃ e, encode s v = .error e) ↔ Refused s v :=
    fails_map.trans (fails_resolveEnums s v)
  refine ⟨hrefused, ?_, fun v' hv hv' hsame => ?_, fun hfaithful => ?_⟩
  · rintro (h | h) b hb
    · obtain ⟨e, he⟩ := hrefused.mpr h
      cases hb.symm.trans he
    · obtain ⟨b', w, hb', hw, hdecode⟩ := (encodes_of_resolvable s v h).decode
      cases hb.symm.trans hb'
      exact ⟨w, hw, hdecode⟩
  · obtain ⟨b, w, hb, hw, hdecode⟩ := (encodes_of_resolvable s v hv).decode
    obtain ⟨b', w', hb', hw', hdecode'⟩ := (encodes_of_resolvable s v' hv').decode
    grind
  · by_cases h : Refused s v
    · exact .inl h
    · refine .inr ⟨?_, ?_⟩
      · cases hb : encode s v with
        | error e => exact absurd (hrefused.mp ⟨e, hb⟩) h
        | ok b =>
          obtain ⟨w, hw, -⟩ := hfaithful b hb
          rw [hw]
          rfl
      · rintro name variants variant payload rfl rfl
        exact variant_of_faithful hfaithful h

/-- Inside an enum the fields are written as they come.  Equal ones are read back all the same. -/
theorem faithful_of_equal_fields :
    let s := .enum "E" [("A", .newtypeVariant (.struct [("a", .uint .w8), ("b", .uint .w8)]))]
    let v := .enum "A" [.struct [("b", .uint .w8 1), ("a", .uint .w8 1)]]
    Faithful s v ∧ ¬ Refused s v ∧ ¬ Resolvable s v := by
  refine ⟨fun b hb => ?_, fun h => h mem_cons_self, fun h => ?_⟩
  · cases hb
    exact ⟨_, rfl, rfl⟩
  · exact absurd h.2.2.1 (by decide)

/-- A log request: a struct with an optional level, and a target by name. -/
def request : Schema :=
  .struct [("level", .option (.uint .w8)), ("span", .tuple [.uint .w32, .char]),
    ("target", .enum "Target" [("Console", .newtypeVariant (.uint .w16)), ("Off", .unitVariant)])]

/-- In another order, and with a bare level. -/
def bareRequest : IpcValue :=
  .struct [("target", .enum "Console" [.uint .w16 300]), ("level", .uint .w8 7),
    ("span", .tuple [.uint .w32 5, .char 'x'])]

theorem resolvable_bareRequest : Resolvable request bareRequest :=
  ⟨by decide, rfl, rfl, ⟨rfl, rfl, trivial⟩, ⟨rfl, rfl⟩, trivial⟩

theorem codec_faithful_request :
    encode request bareRequest = .ok [1, 7, 5, 1, 120, 0, 0xAC, 2] ∧ Faithful request bareRequest :=
  ⟨rfl, (codec_faithful request bareRequest).2.1 (.inr resolvable_bareRequest)⟩

/-- The second variant is written and read as the first.  A tuple that is too short, a number
of another width and a field that the schema does not have are not refused. -/
theorem codec_unfaithful :
    ¬Faithful (.enum "E" [("A", .unitVariant), ("B", .unitVariant)]) (.enum "B" []) ∧
    encode (.enum "E" [("A", .unitVariant), ("B", .unitVariant)]) (.enum "A" []) =
      encode (.enum "E" [("A", .unitVariant), ("B", .unitVariant)]) (.enum "B" []) ∧
    ¬Faithful (.tuple [.uint .w8, .uint .w8]) (.tuple [.uint .w8 1]) ∧
    ¬Faithful (.uint .w8) (.uint .w16 300) ∧
    ¬Faithful (.struct [("a", .uint .w8)]) (.struct [("a", .uint .w8 1), ("b", .uint .w8 2)]) := by
  refine ⟨fun h => ?_, rfl, fun h => ?_, fun h => ?_, fun h => ?_⟩
  · obtain ⟨w, hw, hdecode⟩ := h [0] rfl
    cases hw
    have hname := (IpcValue.enum.inj (Prod.mk.inj (Option.some.inj hdecode)).1).1
    exact absurd hname (by decide)
  · obtain ⟨w, hw, -⟩ := h [1] rfl
    cases hw
  · obtain ⟨w, hw, -⟩ := h [0xAC, 2] rfl
    cases hw
  · obtain ⟨w, hw, -⟩ := h [1] rfl
    cases hw

end Rcard.IpcRuntime
