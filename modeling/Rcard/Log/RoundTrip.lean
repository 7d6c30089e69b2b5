/-
What the formatter wrote, the decoder reads.

`Reads` says that some bytes take the decoder from one state to the outcome of a
step.  The bytes of a value, read where a tag is due, have the outcome of completing
that value.  This holds with any frames below, so it can be used for the elements of
a container while its own frame is on the stack.
-/
import Rcard.Lib.Fill
import Rcard.Log.Decoder

namespace Rcard.Log

open List Varint Decoder OwnedValue Request StackDump

/-! ## Values that exist

A vector holds at most `isize::MAX` bytes.  A stack dump is written on the device,
where a length has 32 bits. -/

inductive OwnedValue.Fits (L : Layout) : OwnedValue → Prop where
  | u8 (v : UInt8) : Fits L (.u8 v)
  | i8 (v : Int8) : Fits L (.i8 v)
  | u16 (v : UInt16) : Fits L (.u16 v)
  | i16 (v : Int16) : Fits L (.i16 v)
  | u32 (v : UInt32) : Fits L (.u32 v)
  | i32 (v : Int32) : Fits L (.i32 v)
  | u64 (v : UInt64) : Fits L (.u64 v)
  | i64 (v : Int64) : Fits L (.i64 v)
  | u128 (v : BitVec 128) : Fits L (.u128 v)
  | i128 (v : BitVec 128) : Fits L (.i128 v)
  | f32 (bits : UInt32) : Fits L (.f32 bits)
  | f64 (bits : UInt64) : Fits L (.f64 bits)
  | char (c : Char) : Fits L (.char c)
  | bool (b : Bool) : Fits L (.bool b)
  | str (s : String) (h : (asBytes s).length ≤ isizeMax) : Fits L (.str s)
  | unit : Fits L .unit
  | array (children : List OwnedValue) (h : children.length * L.size .value ≤ isizeMax)
      (hall : ∀ child ∈ children, Fits L child) : Fits L (.array children)
  | slice (children : List OwnedValue) (h : children.length * L.size .value ≤ isizeMax)
      (hall : ∀ child ∈ children, Fits L child) : Fits L (.slice children)
  | tuple (typeId : UInt64) (fields : List OwnedValue)
      (h : fields.length * L.size .value ≤ isizeMax)
      (hall : ∀ field ∈ fields, Fits L field) : Fits L (.tuple typeId fields)
  | struct (typeId : UInt64) (fields : List (UInt64 × OwnedValue))
      (h : fields.length * L.size .field ≤ isizeMax)
      (hall : ∀ field ∈ fields, Fits L field.2) : Fits L (.struct typeId fields)
  | stackDump (dump : StackDump) (h : dump.stack.length < 0x100000000) : Fits L (.stackDump dump)

/-- A value that fits in memory. -/
structure Value (L : Layout) where
  val : OwnedValue
  fits : val.Fits L

/-! ## Reading -/

variable {L : Layout}

/-- Reading `bytes` has the outcome of `step`, and what is allocated before is granted. -/
def Reads (L : Layout) (d : Decoder) (bytes : List UInt8) (step : Step) : Prop :=
  ∃ requests : List Request, (∀ r ∈ requests, r.Granted L) ∧ d.run bytes = step.map fun fed =>
      { decoder := fed.decoder, results := fed.result.emitted,
        requests := requests ++ fed.requests }

/-- The bytes are those of a value, read where a tag is due. -/
abbrev ReadsValue (L : Layout) (stack : List Frame) (bytes : List UInt8) (v : OwnedValue) : Prop :=
  Reads L ⟨.awaitingTag, stack⟩ bytes (completeValue stack v)

variable {d : Decoder} {step : Step} {stack : List Frame}

theorem Reads.byte {byte : UInt8} (h : d.feedByte byte = step) : Reads L d [byte] step := by
  refine ⟨[], nofun, ?_⟩
  rw [run, h]
  cases step with
  | error fault => rfl
  | ok fed =>
    refine congrArg Except.ok ?_
    simp [Ran.after]

theorem Reads.append {bytes rest : List UInt8} {state : State} {requests : List Request}
    (h : Reads L d bytes (await stack state requests)) (hgranted : ∀ r ∈ requests, r.Granted L)
    (hrest : Reads L ⟨state, stack⟩ rest step) : Reads L d (bytes ++ rest) step := by
  obtain ⟨before, hbefore, hrun⟩ := h
  obtain ⟨after, hafter, hrun'⟩ := hrest
  refine ⟨before ++ requests ++ after, ?_, ?_⟩
  · grind
  · rw [run_append, hrun]
    show (run ⟨state, stack⟩ rest).map _ = _
    rw [hrun']
    cases step with
    | error fault => rfl
    | ok fed =>
      refine congrArg Except.ok ?_
      simp [Ran.after, FeedResult.emitted]

theorem Reads.cons {byte : UInt8} {rest : List UInt8} {state : State}
    (h : d.feedByte byte = await stack state []) (hrest : Reads L ⟨state, stack⟩ rest step) :
    Reads L d (byte :: rest) step :=
  Reads.append (Reads.byte h) nofun hrest

/-- Elements that are counted down, with `c` behind the last one. -/
theorem Reads.loop {α : Type} {f : α → List UInt8} {d : Nat → List α → Decoder}
    {c : List α → Step} (done : List α) {rest : List α} (hne : rest ≠ [])
    (hstep : ∀ x ∈ rest, ∀ k < rest.length, ∀ done, Reads L (d (k + 1) done) (f x)
      (if k = 0 then c (done ++ [x])
       else await (d k (done ++ [x])).stack (d k (done ++ [x])).state [])) :
    Reads L (d rest.length done) (rest.flatMap f) (c (done ++ rest)) := by
  induction rest generalizing done with
  | nil => exact absurd rfl hne
  | cons x rest ih =>
    have hfirst := hstep x mem_cons_self rest.length (Nat.lt_succ_self _) done
    rw [flatMap_cons]
    by_cases hlast : rest = []
    · subst hlast
      rw [flatMap_nil, append_nil]
      exact hfirst
    · rw [if_neg (mt length_eq_zero_iff.mp hlast)] at hfirst
      have hrest : Reads L (d rest.length (done ++ [x])) (rest.flatMap f) _ :=
        ih _ hlast fun y hy k hk => hstep y (mem_cons_of_mem x hy) k (Nat.lt_succ_of_lt hk)
      rw [append_assoc] at hrest
      exact hfirst.append nofun hrest

/-! ## Varints -/

theorem reads_encode {turns v : Nat} {purpose : VarintPurpose} (hpos : 0 < turns)
    (hturns : v < 128 ^ turns) (hv : v < 2 ^ 128) :
    Reads L ⟨.readingVarint 0 0 purpose, stack⟩ (encode turns v)
      (handleVarintComplete stack (BitVec.ofNat 128 v) purpose) := by
  refine encode_induct (P := fun acc shift bytes =>
    Reads L ⟨.readingVarint acc shift purpose, stack⟩ bytes
      (handleVarintComplete stack (BitVec.ofNat 128 v) purpose)) ?_ ?_ (by decide) hv hpos hturns
  · intro acc shift b hshift hlast _ hacc
    apply Reads.byte
    rw [feedByte]
    dsimp only
    rw [if_neg (Nat.not_le.mpr hshift), if_neg (not_not.mpr hlast), hacc]
  · intro acc shift b bs hshift hmore hrest
    refine Reads.cons ?_ hrest
    rw [feedByte]
    dsimp only
    rw [if_neg (Nat.not_le.mpr hshift), if_pos hmore]

theorem reads_encodeU64 (v : UInt64) (purpose : VarintPurpose) (stack : List Frame) :
    Reads L ⟨.readingVarint 0 0 purpose, stack⟩ (encodeU64 v)
      (handleVarintComplete stack (BitVec.ofNat 128 v.toNat) purpose) := by
  have hlt := v.toNat_lt
  exact reads_encode (by decide) (by omega) (by omega)

theorem reads_encodeU128 (v : BitVec 128) (purpose : VarintPurpose) (stack : List Frame) :
    Reads L ⟨.readingVarint 0 0 purpose, stack⟩ (encodeU128 v)
      (handleVarintComplete stack v purpose) := by
  have hlt := v.isLt
  have h : Reads L ⟨.readingVarint 0 0 purpose, stack⟩ (encodeU128 v)
      (handleVarintComplete stack (BitVec.ofNat 128 v.toNat) purpose) :=
    reads_encode (by decide) (by omega) hlt
  rwa [BitVec.ofNat_toNat, BitVec.setWidth_eq] at h

theorem asU64_ofNat (v : UInt64) : asU64 (BitVec.ofNat 128 v.toNat) = v := by
  rw [asU64, BitVec.setWidth_ofNat_of_le (by decide)]
  exact UInt64.ofNat_toNat

theorem asU32_ofNat (v : UInt32) :
    (⟨(BitVec.ofNat 128 v.toUInt64.toNat).setWidth 32⟩ : UInt32) = v := by
  rw [BitVec.setWidth_ofNat_of_le (by decide)]
  exact UInt32.ofNat_toNat

theorem asU16_ofNat (v : UInt16) :
    (⟨(BitVec.ofNat 128 v.toUInt64.toNat).setWidth 16⟩ : UInt16) = v := by
  rw [BitVec.setWidth_ofNat_of_le (by decide)]
  exact UInt16.ofNat_toNat

/-! ## Numbers -/

section Scalars

variable (stack : List Frame)

theorem reads_u8 (v : UInt8) : ReadsValue L stack (writeU8 v) (.u8 v) :=
  Reads.cons rfl (Reads.byte rfl)

theorem reads_i8 (v : Int8) : ReadsValue L stack (writeI8 v) (.i8 v) :=
  Reads.cons rfl (Reads.byte rfl)

theorem reads_bool (b : Bool) : ReadsValue L stack (writeBool b) (.bool b) := by
  refine Reads.cons rfl (Reads.byte ?_)
  cases b <;> rfl

theorem reads_unsigned {tag : UInt8} {v : UInt64} {value : OwnedValue}
    (htag : handleTag stack tag = awaitVarint stack (.unsignedValue tag))
    (hvalue : unsignedValue tag (BitVec.ofNat 128 v.toNat) = some value) :
    ReadsValue L stack (tag :: encodeU64 v) value := by
  refine Reads.cons htag ?_
  have h := reads_encodeU64 (L := L) v (.unsignedValue tag) stack
  rw [handleVarintComplete, hvalue] at h
  exact h

theorem reads_signed {tag : UInt8} {v : Int64} {value : OwnedValue}
    (htag : handleTag stack tag = awaitVarint stack (.signedValue tag))
    (hvalue : ∀ raw : BitVec 128, raw.setWidth 64 = zigzag v.toBitVec →
      signedValue tag raw = some value) :
    ReadsValue L stack (tag :: encodeI64 v) value := by
  refine Reads.cons htag ?_
  have h := reads_encodeU64 (L := L) ⟨zigzag v.toBitVec⟩ (.signedValue tag) stack
  have hraw : (BitVec.ofNat 128 (UInt64.toNat ⟨zigzag v.toBitVec⟩)).setWidth 64 =
      zigzag v.toBitVec := congrArg UInt64.toBitVec (asU64_ofNat ⟨zigzag v.toBitVec⟩)
  rw [handleVarintComplete, hvalue _ hraw] at h
  exact h

theorem reads_u16 (v : UInt16) : ReadsValue L stack (writeU16 v) (.u16 v) :=
  reads_unsigned stack rfl (congrArg (some ∘ u16) (asU16_ofNat v))

theorem reads_u32 (v : UInt32) : ReadsValue L stack (writeU32 v) (.u32 v) :=
  reads_unsigned stack rfl (congrArg (some ∘ u32) (asU32_ofNat v))

theorem reads_u64 (v : UInt64) : ReadsValue L stack (writeU64 v) (.u64 v) :=
  reads_unsigned stack rfl (congrArg (some ∘ u64) (asU64_ofNat v))

theorem reads_u128 (v : BitVec 128) : ReadsValue L stack (writeU128 v) (.u128 v) :=
  Reads.cons rfl (reads_encodeU128 v (.unsignedValue tagU128) stack)

theorem reads_i16 (v : Int16) : ReadsValue L stack (writeI16 v) (.i16 v) := by
  refine reads_signed stack rfl fun raw hraw => ?_
  show some (i16 (.ofBitVec ((unzigzag (raw.setWidth 64)).setWidth 16))) = _
  rw [hraw, unzigzag_zigzag, Int16.toBitVec_toInt64, setWidth_signExtend _ (by decide),
    Int16.ofBitVec_toBitVec]

theorem reads_i32 (v : Int32) : ReadsValue L stack (writeI32 v) (.i32 v) := by
  refine reads_signed stack rfl fun raw hraw => ?_
  show some (i32 (.ofBitVec ((unzigzag (raw.setWidth 64)).setWidth 32))) = _
  rw [hraw, unzigzag_zigzag, Int32.toBitVec_toInt64, setWidth_signExtend _ (by decide),
    Int32.ofBitVec_toBitVec]

theorem reads_i64 (v : Int64) : ReadsValue L stack (writeI64 v) (.i64 v) := by
  refine reads_signed stack rfl fun raw hraw => ?_
  show some (i64 (.ofBitVec (unzigzag (raw.setWidth 64)))) = _
  rw [hraw, unzigzag_zigzag, Int64.ofBitVec_toBitVec]

theorem reads_i128 (v : BitVec 128) : ReadsValue L stack (writeI128 v) (.i128 v) := by
  refine Reads.cons rfl ?_
  have h := reads_encodeU128 (L := L) (zigzag v) (.signedValue tagI128) stack
  rw [handleVarintComplete] at h
  have hvalue : signedValue tagI128 (zigzag v) = some (.i128 v) := by
    show some (i128 (unzigzag (zigzag v))) = _
    rw [unzigzag_zigzag]
  rw [hvalue] at h
  exact h

theorem reads_char (c : Char) : ReadsValue L stack (writeChar c) (.char c) := by
  refine Reads.cons rfl ?_
  have h := reads_encodeU64 (L := L) c.val.toUInt64 .charValue stack
  have hchar : charFromU32 c.val = some c := dif_pos c.valid
  rw [handleVarintComplete, asU32_ofNat, hchar] at h
  exact h

end Scalars

/-! ## Floats -/

theorem reads_fixed (stack : List Frame) (isF64 : Bool) {bytes : List UInt8} (hne : bytes ≠ [])
    (hle : bytes.length ≤ 8) :
    Reads L ⟨.readingFixed (replicate 8 0) bytes.length 0 isF64, stack⟩ bytes
      (let buf := bytes ++ replicate (8 - bytes.length) 0
       if isF64 then completeValue stack (.f64 (UInt64.ofNat (leNat buf)))
       else completeValue stack (.f32 (UInt32.ofNat (leNat (buf.take 4))))) := by
  refine Fill.fill_induct (P := fun buf pos rest =>
    Reads L ⟨.readingFixed buf bytes.length pos isF64, stack⟩ rest _) ?_ ?_ hle hne
  · intro buf pos b hlen hpos hset
    apply Reads.byte
    rw [feedByte]
    dsimp only
    rw [if_neg (by omega), if_neg (by omega), hset]
  · intro buf pos b rest hlen hpos hrest
    refine Reads.cons ?_ hrest
    rw [feedByte]
    dsimp only
    rw [if_neg (by omega), if_pos hpos]

theorem reads_f32 (stack : List Frame) (bits : UInt32) :
    ReadsValue L stack (writeF32 bits) (.f32 bits) := by
  have hlen : (leBytes 4 bits.toNat).length = 4 := length_leBytes 4 _
  have hvalue : leNat (leBytes 4 bits.toNat) = bits.toNat := leNat_leBytes bits.toNat_lt
  have h := reads_fixed (L := L) stack false (ne_nil_of_length_eq_add_one hlen) (by omega)
  simp only [take_left' hlen, hvalue, UInt32.ofNat_toNat] at h
  exact Reads.cons rfl h

theorem reads_f64 (stack : List Frame) (bits : UInt64) :
    ReadsValue L stack (writeF64 bits) (.f64 bits) := by
  have hlen : (leBytes 8 bits.toNat).length = 8 := length_leBytes 8 _
  have hvalue : leNat (leBytes 8 bits.toNat) = bits.toNat := leNat_leBytes bits.toNat_lt
  have h := reads_fixed (L := L) stack true (ne_nil_of_length_eq_add_one hlen) (by omega)
  rw [hlen] at h
  simp only [Nat.sub_self, replicate_zero, append_nil, hvalue, UInt64.ofNat_toNat] at h
  exact Reads.cons rfl h

/-! ## Counts -/

section Counts

variable {k : Nat}

theorem ofNat128_eq_zero_iff (hk : k < 2 ^ 128) : BitVec.ofNat 128 k = 0 ↔ k = 0 := by
  rw [← BitVec.toNat_inj, BitVec.toNat_ofNat, Nat.mod_eq_of_lt hk]
  rfl

theorem ofNat_eq_zero_iff (hk : k < 0x10000000000000000) : UInt64.ofNat k = 0 ↔ k = 0 := by
  rw [← UInt64.toNat_inj, UInt64.toNat_ofNat_of_lt' hk]
  rfl

theorem ofNat32_eq_zero_iff (hk : k < 0x100000000) : UInt32.ofNat k = 0 ↔ k = 0 := by
  rw [← UInt32.toNat_inj, UInt32.toNat_ofNat_of_lt' hk]
  rfl

theorem ofNat_succ_sub_one (k : Nat) : UInt64.ofNat (k + 1) - 1 = UInt64.ofNat k :=
  (UInt64.ofNat_sub (Nat.succ_pos k)).symm

theorem ofNat32_succ_sub_one (k : Nat) : UInt32.ofNat (k + 1) - 1 = UInt32.ofNat k :=
  (UInt32.ofNat_sub (Nat.succ_pos k)).symm

end Counts

/-! ## Strings -/

theorem stringFromUtf8_asBytes (s : String) : stringFromUtf8 (asBytes s) = some s := by
  exact dif_pos s.isValidUTF8

theorem lt_of_le_isizeMax {n : Nat} {elem : Elem} (h : n * L.size elem ≤ isizeMax) :
    n < 0x10000000000000000 := by
  have hle : n ≤ n * L.size elem := Nat.le_mul_of_pos_right n (L.pos elem)
  unfold isizeMax at h
  omega

theorem granted_ofNat {n : Nat} {elem : Elem} (h : n * L.size elem ≤ isizeMax) :
    ∀ r ∈ [(⟨elem, UInt64.ofNat n⟩ : Request)], r.Granted L := by
  intro r hr
  rw [mem_singleton.mp hr, Granted, size, UInt64.toNat_ofNat_of_lt' (lt_of_le_isizeMax h)]
  exact h

theorem reads_str (stack : List Frame) {s : String} (h : (asBytes s).length ≤ isizeMax) :
    ReadsValue L stack (writeStr s) (.str s) := by
  have hsize : (asBytes s).length * L.size .byte ≤ isizeMax := by rwa [L.byte, Nat.mul_one]
  have hlt := lt_of_le_isizeMax hsize
  have hlength := reads_encodeU64 (L := L) (UInt64.ofNat (asBytes s).length) .stringLength stack
  have hutf := stringFromUtf8_asBytes s
  rw [handleVarintComplete, asU64_ofNat, UInt64.toNat_ofNat_of_lt' hlt] at hlength
  refine Reads.cons rfl ?_
  by_cases hempty : asBytes s = []
  · rw [hempty] at hutf
    have hs : s = "" := Option.some.inj (hutf.symm.trans (stringFromUtf8_asBytes ""))
    subst hs
    exact hlength
  · rw [if_neg (mt (ofNat128_eq_zero_iff (by omega)).mp (mt length_eq_zero_iff.mp hempty))]
      at hlength
    have hbytes := Reads.loop (L := L) (f := fun b => [b])
      (d := fun k done => ⟨.readingString done (UInt64.ofNat k), stack⟩)
      (c := fun bytes => (stringFromUtf8 bytes).elim (fail stack .invalidUtf8) fun s =>
        completeValue stack (.str s))
      [] hempty fun b _ k hk done => Reads.byte (by
        cases hdecoded : stringFromUtf8 (done ++ [b]) <;>
          simp only [feedByte, ofNat_eq_zero_iff (Nat.lt_of_le_of_lt hk hlt), hdecoded,
            ofNat_eq_zero_iff (Nat.lt_trans hk hlt), Nat.succ_ne_zero, if_false, Option.elim,
            ofNat_succ_sub_one, UInt64.pos_iff_ne_zero, ite_not])
    rw [flatMap_singleton', nil_append, hutf] at hbytes
    exact hlength.append (granted_ofNat hsize) hbytes

/-! ## Containers -/

theorem formatAll_eq (vs : List OwnedValue) : formatAll vs = vs.flatMap OwnedValue.format := by
  induction vs with
  | nil => rfl
  | cons v vs ih => rw [formatAll, ih, flatMap_cons]

theorem formatFields_eq (fields : List (UInt64 × OwnedValue)) :
    formatFields fields = fields.flatMap fun f => encodeU64 f.1 ++ f.2.format := by
  induction fields with
  | nil => rfl
  | cons f fields ih => rw [formatFields, ih, flatMap_cons, writeFieldId]

theorem reads_container (frame : UInt64 → List OwnedValue → Frame)
    (close : List OwnedValue → OwnedValue) {purpose : VarintPurpose} {children : List OwnedValue}
    (hclose : ∀ remaining done v, remaining ≠ 0 → completeValue (frame remaining done :: stack) v =
      if remaining - 1 = 0 then completeValue stack (close (done ++ [v]))
      else await (frame (remaining - 1) (done ++ [v]) :: stack) .awaitingTag [])
    (hopen : ∀ raw, handleVarintComplete stack raw purpose =
      if asU64 raw = 0 then completeValue stack (close [])
      else await (frame (asU64 raw) [] :: stack) .awaitingTag [⟨.value, asU64 raw⟩])
    (hlen : children.length * L.size .value ≤ isizeMax)
    (hall : ∀ v ∈ children, ∀ stack, ReadsValue L stack v.format v) :
    Reads L ⟨.readingVarint 0 0 purpose, stack⟩
      (encodeU64 (UInt64.ofNat children.length) ++ formatAll children)
      (completeValue stack (close children)) := by
  have hlt := lt_of_le_isizeMax hlen
  have hlength := reads_encodeU64 (L := L) (UInt64.ofNat children.length) purpose stack
  rw [hopen, asU64_ofNat] at hlength
  by_cases hempty : children = []
  · subst hempty
    exact hlength
  · rw [if_neg (mt (ofNat_eq_zero_iff hlt).mp (mt length_eq_zero_iff.mp hempty))] at hlength
    have hrest := Reads.loop (L := L) (f := OwnedValue.format)
      (d := fun k done => ⟨.awaitingTag, frame (UInt64.ofNat k) done :: stack⟩)
      (c := fun vs => completeValue stack (close vs)) [] hempty fun v hv k hk done => by
        have hne := mt (ofNat_eq_zero_iff (Nat.lt_of_le_of_lt hk hlt)).mp (Nat.succ_ne_zero k)
        have hfirst := hall v hv (frame (UInt64.ofNat (k + 1)) done :: stack)
        rw [ReadsValue, hclose _ done v hne, ofNat_succ_sub_one] at hfirst
        simpa only [ofNat_eq_zero_iff (Nat.lt_trans hk hlt)] using hfirst
    rw [formatAll_eq]
    exact hlength.append (granted_ofNat hlen) hrest

theorem reads_struct {typeId : UInt64} {fields : List (UInt64 × OwnedValue)}
    (hlen : fields.length * L.size .field ≤ isizeMax)
    (hall : ∀ f ∈ fields, ∀ stack, ReadsValue L stack f.2.format f.2) :
    Reads L ⟨.readingVarint 0 0 (.structFieldCount typeId), stack⟩
      (encodeU64 (UInt64.ofNat fields.length) ++ formatFields fields)
      (completeValue stack (.struct typeId fields)) := by
  have hlt := lt_of_le_isizeMax hlen
  have hlength := reads_encodeU64 (L := L) (UInt64.ofNat fields.length)
    (.structFieldCount typeId) stack
  rw [handleVarintComplete, asU64_ofNat] at hlength
  by_cases hempty : fields = []
  · subst hempty
    exact hlength
  · rw [if_neg (mt (ofNat_eq_zero_iff hlt).mp (mt length_eq_zero_iff.mp hempty))] at hlength
    have hrest := Reads.loop (L := L) (f := fun f => encodeU64 f.1 ++ f.2.format)
      (d := fun k done => ⟨.readingVarint 0 0 .structFieldId,
        .struct typeId (UInt64.ofNat k) ((done.getLast?.map Prod.fst).getD 0) done :: stack⟩)
      (c := fun fields => completeValue stack (.struct typeId fields)) [] hempty
      fun f hf k hk done => by
        have hne := mt (ofNat_eq_zero_iff (Nat.lt_of_le_of_lt hk hlt)).mp (Nat.succ_ne_zero k)
        have hid := reads_encodeU64 (L := L) f.1 .structFieldId (.struct typeId
          (UInt64.ofNat (k + 1)) ((done.getLast?.map Prod.fst).getD 0) done :: stack)
        rw [handleVarintComplete, asU64_ofNat] at hid
        have hfirst := hall f hf (.struct typeId (UInt64.ofNat (k + 1)) f.1 done :: stack)
        rw [ReadsValue, completeValue, if_neg hne, ofNat_succ_sub_one] at hfirst
        rw [getLast?_concat]
        simp only [ofNat_eq_zero_iff (Nat.lt_trans hk hlt)] at hfirst
        exact hid.append (forall_mem_nil _) hfirst
    rw [formatFields_eq]
    exact hlength.append (granted_ofNat hlen) hrest

/-! ## Stack dumps -/

theorem u32At_words {words : List UInt32} {i : Nat} {word : UInt32} (h : words[i]? = some word) :
    u32At (words.flatMap fun word => leBytes 4 word.toNat) (4 * i) = word := by
  induction words generalizing i with
  | nil => cases h
  | cons first words ih =>
    have hlen : (leBytes 4 first.toNat).length = 4 := length_leBytes 4 _
    rw [flatMap_cons, u32At]
    cases i with
    | zero =>
      have hvalue : leNat (leBytes 4 first.toNat) = first.toNat := leNat_leBytes first.toNat_lt
      rw [drop_zero, take_left' hlen, hvalue, UInt32.ofNat_toNat]
      exact Option.some.inj h
    | succ i =>
      exact ih h

theorem stackDumpFromHeader_header (dump : StackDump) :
    stackDumpFromHeader dump.header dump.stack = dump := by
  have hregister : ∀ i : Fin 13, u32At dump.header (16 + i * 4) = dump.registers i := by
    intro i
    have hoff : 16 + i.val * 4 = 4 * (4 + i.val) := by omega
    have hword : dump.words[4 + i.val]? = some (dump.registers i) := by
      have hsub : 4 + i.val - [dump.sp, dump.stackTop, dump.lr, dump.pc].length = i.val :=
        Nat.add_sub_cancel_left 4 i.val
      rw [words, getElem?_append_left (by simp; omega), List.getElem?_append_right (by simp),
        List.getElem?_ofFn, dif_pos (by rw [hsub]; exact i.isLt)]
      exact congrArg (fun j => some (dump.registers j)) (Fin.ext hsub)
    rw [hoff]
    exact u32At_words hword
  have hat : ∀ {i : Nat} {word : UInt32}, dump.words[i]? = some word →
      u32At dump.header (4 * i) = word := u32At_words
  rw [stackDumpFromHeader, funext hregister]
  have h0 : u32At dump.header 0 = dump.sp := hat (i := 0) rfl
  have h1 : u32At dump.header 4 = dump.stackTop := hat (i := 1) rfl
  have h2 : u32At dump.header 8 = dump.lr := hat (i := 2) rfl
  have h3 : u32At dump.header 12 = dump.pc := hat (i := 3) rfl
  have h17 : u32At dump.header 68 = dump.xpsr := hat (i := 17) rfl
  rw [h0, h1, h2, h3, h17]

section

variable (stack : List Frame)

theorem reads_header {header : List UInt8} (hlen : header.length = 72) :
    Reads L ⟨.readingStackDumpHeader (replicate 72 0) 0, stack⟩ header
      (await stack (.readingStackDumpLength header (replicate 4 0) 0) []) := by
  refine Fill.fill_induct (P := fun buf pos rest =>
    Reads L ⟨.readingStackDumpHeader buf pos, stack⟩ rest _) ?_ ?_ (Nat.le_of_eq hlen)
    (ne_nil_of_length_eq_add_one hlen)
  · intro buf pos b hbuf hpos hset
    apply Reads.byte
    rw [hlen, replicate_zero, append_nil] at hset
    rw [feedByte]
    dsimp only
    rw [if_neg (by omega), if_neg (by omega), hset]
  · intro buf pos b rest hbuf hpos hrest
    refine Reads.cons ?_ hrest
    rw [feedByte]
    dsimp only
    rw [if_neg (by omega), if_pos (by omega)]

theorem reads_dumpLength (header : List UInt8) {lenBuf : List UInt8} (hlen : lenBuf.length = 4) :
    Reads L ⟨.readingStackDumpLength header (replicate 4 0) 0, stack⟩ lenBuf
      (let remaining := UInt32.ofNat (leNat lenBuf)
       if remaining = 0 then completeValue stack (.stackDump (stackDumpFromHeader header []))
       else
        await stack (.readingStackDumpData header [] remaining) [⟨.byte, remaining.toUInt64⟩]) := by
  refine Fill.fill_induct (P := fun buf pos rest =>
    Reads L ⟨.readingStackDumpLength header buf pos, stack⟩ rest _) ?_ ?_ (Nat.le_of_eq hlen)
    (ne_nil_of_length_eq_add_one hlen)
  · intro buf pos b hbuf hpos hset
    apply Reads.byte
    rw [hlen, replicate_zero, append_nil] at hset
    rw [feedByte]
    dsimp only
    rw [if_neg (by omega), if_neg (by omega), hset]
  · intro buf pos b rest hbuf hpos hrest
    refine Reads.cons ?_ hrest
    rw [feedByte]
    dsimp only
    rw [if_neg (by omega), if_pos (by omega)]

theorem reads_stackDump {dump : StackDump} (h : dump.stack.length < 0x100000000) :
    Reads L ⟨.awaitingTag, stack⟩ (writeStackDump dump.header dump.stack)
      (completeValue stack (.stackDump dump)) := by
  have hheader : dump.header.length = 72 := by
    rw [header]
    simp [words]
  have hnat : (UInt32.ofNat dump.stack.length).toNat = dump.stack.length :=
    UInt32.toNat_ofNat_of_lt' h
  have hvalue : leNat (leBytes 4 (UInt32.ofNat dump.stack.length).toNat) =
      (UInt32.ofNat dump.stack.length).toNat := leNat_leBytes (UInt32.toNat_lt _)
  have hlength := reads_dumpLength (L := L) stack dump.header
    (length_leBytes 4 (UInt32.ofNat dump.stack.length).toNat)
  rw [hvalue, UInt32.ofNat_toNat] at hlength
  rw [writeStackDump, append_assoc]
  refine Reads.cons rfl ((reads_header stack hheader).append nofun ?_)
  have hdump := stackDumpFromHeader_header dump
  by_cases hempty : dump.stack = []
  · have hzero : UInt32.ofNat dump.stack.length = 0 := by
      rw [hempty]
      rfl
    grind
  · have hbytes := Reads.loop (L := L) (f := fun b => [b])
      (d := fun k done => ⟨.readingStackDumpData dump.header done (UInt32.ofNat k), stack⟩)
      (c := fun bytes => completeValue stack (.stackDump (stackDumpFromHeader dump.header bytes)))
      [] hempty fun b _ k hk done => Reads.byte (by
        simp only [feedByte, ofNat32_eq_zero_iff (Nat.lt_of_le_of_lt hk h),
          ofNat32_eq_zero_iff (Nat.lt_trans hk h), Nat.succ_ne_zero, if_false, ofNat32_succ_sub_one,
          UInt32.pos_iff_ne_zero, ite_not])
    rw [flatMap_singleton', nil_append, hdump] at hbytes
    rw [if_neg (mt (ofNat32_eq_zero_iff h).mp (mt length_eq_zero_iff.mp hempty))] at hlength
    refine hlength.append (fun r hr => ?_) hbytes
    rw [mem_singleton.mp hr, Granted, size, L.byte, UInt32.toNat_toUInt64]
    unfold isizeMax
    omega

end

/-! ## Values -/

theorem reads_format {v : OwnedValue} (h : v.Fits L) (stack : List Frame) :
    ReadsValue L stack v.format v := by
  induction h generalizing stack with
  | u8 v => exact reads_u8 stack v
  | i8 v => exact reads_i8 stack v
  | u16 v => exact reads_u16 stack v
  | i16 v => exact reads_i16 stack v
  | u32 v => exact reads_u32 stack v
  | i32 v => exact reads_i32 stack v
  | u64 v => exact reads_u64 stack v
  | i64 v => exact reads_i64 stack v
  | u128 v => exact reads_u128 stack v
  | i128 v => exact reads_i128 stack v
  | f32 bits => exact reads_f32 stack bits
  | f64 bits => exact reads_f64 stack bits
  | char c => exact reads_char stack c
  | bool b => exact reads_bool stack b
  | str s hlen => exact reads_str stack hlen
  | unit => exact Reads.byte rfl
  | array children hlen hall ih =>
    exact Reads.cons rfl (reads_container .array .array
      (fun _ _ _ hne => if_neg hne) (fun _ => rfl) hlen ih)
  | slice children hlen hall ih =>
    exact Reads.cons rfl (reads_container .slice .slice
      (fun _ _ _ hne => if_neg hne) (fun _ => rfl) hlen ih)
  | tuple typeId fields hlen hall ih =>
    have hid := reads_encodeU64 (L := L) typeId .tupleTypeId stack
    rw [handleVarintComplete, asU64_ofNat] at hid
    rw [OwnedValue.format, withTuple, append_assoc]
    exact Reads.cons rfl (hid.append (forall_mem_nil _) (reads_container (.tuple typeId)
      (.tuple typeId) (fun _ _ _ hne => if_neg hne) (fun _ => rfl) hlen ih))
  | struct typeId fields hlen hall ih =>
    have hid := reads_encodeU64 (L := L) typeId .structTypeId stack
    rw [handleVarintComplete, asU64_ofNat] at hid
    rw [OwnedValue.format, withStruct, append_assoc]
    exact Reads.cons rfl (hid.append (forall_mem_nil _) (reads_struct hlen ih))
  | stackDump dump hlen => exact reads_stackDump stack hlen

theorem run_formatAll (vs : List (Value L)) :
    ∃ requests : List Request, (∀ r ∈ requests, r.Granted L) ∧
      Decoder.new.run (formatAll (vs.map Value.val)) =
        .ok { decoder := .new, results := vs.map fun v => .done v.val, requests } := by
  induction vs with
  | nil => exact ⟨[], nofun, rfl⟩
  | cons v vs ih =>
    obtain ⟨first, hfirst, hrun⟩ := reads_format v.fits []
    obtain ⟨rest, hrest, hruns⟩ := ih
    have hv : new.run v.val.format =
        .ok { decoder := .new, results := [.done v.val], requests := first ++ [] } := hrun
    refine ⟨first ++ [] ++ rest, fun r hr => ?_, ?_⟩
    · grind
    · rw [map_cons, formatAll, run_append, hv]
      show (new.run _).map _ = _
      rw [hruns]
      rfl

/-- However the bytes are divided, the calls give the values and then the end of
the stream. -/
theorem feedChunks_format {vs : List (Value L)} {chunks : List (List UInt8)}
    (h : chunks.flatten = formatAll (vs.map Value.val) ++ writeEndOfStream) :
    ∃ s, Decoder.new.feedChunks chunks = .ok s ∧ s.decoder = .new ∧
      (s.taken.flatMap fun t => t.result.emitted) =
        vs.map (fun v => .done v.val) ++ [.endOfStream] ∧
      s.taken.flatMap Taken.bytes = chunks.flatten ∧ ∀ r ∈ s.requests, r.Granted L := by
  obtain ⟨requests, hgranted, hrun⟩ := run_formatAll vs
  have hall : new.run chunks.flatten = .ok
      { decoder := .new, results := vs.map (fun v => .done v.val) ++ [.endOfStream]
        requests := requests ++ [] } := by
    rw [h, run_append, hrun]
    rfl
  rw [← feedChunks_run] at hall
  obtain ⟨s, hs, hran⟩ := exists_of_map_eq_ok hall
  refine ⟨s, hs, congrArg Ran.decoder hran, congrArg Ran.results hran, feedChunks_taken hs, ?_⟩
  have hrequests : s.requests = requests ++ [] := congrArg Ran.requests hran
  rw [hrequests, append_nil]
  exact hgranted

/-- The sizes of one compiler. -/
def sampleLayout : Layout where
  size
    | .byte => 1
    | .value => 104
    | .field => 112
  byte := rfl
  pos elem := by cases elem <;> decide

/-- A byte, and a pair of a flag and nothing. -/
def sampleValues : List (Value sampleLayout) :=
  [⟨.u8 5, .u8 5⟩, ⟨.tuple 300 [.bool true, .unit], .tuple _ _ (by decide) (by
    intro field hfield
    rcases mem_pair.mp hfield with rfl | rfl
    · exact .bool true
    · exact .unit)⟩]

theorem feedChunks_format_sample :
    ∃ s, Decoder.new.feedChunks
      [[0x02], [0x05, 0x12, 0xAC], [], [0x02, 0x02, 0x01, 0x01, 0x00, 0xFF]] = .ok s ∧
      (s.taken.flatMap fun t => t.result.emitted) =
        [.done (.u8 5), .done (.tuple 300 [.bool true, .unit]), .endOfStream] := by
  obtain ⟨s, hs, _, hresults, _⟩ := feedChunks_format
    (show [[0x02], [0x05, 0x12, 0xAC], [], [0x02, 0x02, 0x01, 0x01, 0x00, 0xFF]].flatten =
      formatAll (sampleValues.map Value.val) ++ writeEndOfStream from rfl)
  exact ⟨s, hs, hresults⟩

end Rcard.Log
