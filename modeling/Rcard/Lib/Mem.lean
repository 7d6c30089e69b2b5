/-
Buffers with overlapping copies.

A buffer is a function from positions to values.  `copyWithin` has the meaning
of a memory move: the values are those of the buffer before the copy, whether
or not the two ranges overlap.

`gather` collects segments of a buffer at its own front, one after the other.
Each segment is read when its turn comes, so a segment that lies under what was
collected before is read too late.  `regions_iff_untouched` says exactly when
every segment arrives as it was at the start.  `gatherBack` collects regions at
the end of the buffer, the last one first.
-/
import Mathlib.Data.List.Basic
import Mathlib.Data.List.Induction

namespace Rcard.Mem

open List Function

variable {α : Type}

section

variable (m : Nat → α)

def slice (start n : Nat) : List α := (range n).map fun i => m (start + i)

def write (start : Nat) (values : List α) : Nat → α := fun i =>
  if start ≤ i then (values[i - start]?).getD (m i) else m i

def copyWithin (src n dst : Nat) : Nat → α := fun i =>
  if dst ≤ i ∧ i < dst + n then m (src + (i - dst)) else m i

def fill (start n : Nat) (v : α) : Nat → α := fun i =>
  if start ≤ i ∧ i < start + n then v else m i

@[simp] theorem length_slice (start n : Nat) : (slice m start n).length = n := by
  simp [slice]

end

theorem slice_eq_iff {m m' : Nat → α} {start start' n : Nat} :
    slice m start n = slice m' start' n ↔ ∀ k < n, m (start + k) = m' (start' + k) := by
  simp [slice]

section

variable (m : Nat → α)

theorem slice_add (start n k : Nat) :
    slice m start (n + k) = slice m start n ++ slice m (start + n) k := by
  simp [slice, range_add, Nat.add_assoc]

theorem getElem?_slice (start : Nat) {n k : Nat} (h : k < n) :
    (slice m start n)[k]? = some (m (start + k)) := by
  simp [slice, h]

theorem slice_take (start : Nat) {n k : Nat} (h : k ≤ n) :
    (slice m start n).take k = slice m start k := by
  rw [slice, ← map_take, take_range, Nat.min_eq_left h, slice]

theorem slice_drop (start n k : Nat) : (slice m start n).drop k = slice m (start + k) (n - k) := by
  apply ext_getElem?
  grind [slice]

theorem write_apply_of_lt {start k : Nat} {values : List α} (h : k < values.length) :
    write m start values (start + k) = values[k] := by
  grind [write]

theorem slice_write (start : Nat) (values : List α) :
    slice (write m start values) start values.length = values := by
  apply ext_getElem (by simp)
  grind [slice, write]

theorem write_nil (start : Nat) : write m start [] = m := by
  funext i
  rw [write, getElem?_nil, Option.getD_none, ite_self]

theorem write_of_lt (values : List α) {start i : Nat} (h : i < start) :
    write m start values i = m i :=
  if_neg (by omega)

theorem write_of_ge {values : List α} {start i : Nat} (h : start + values.length ≤ i) :
    write m start values i = m i := by
  rw [write, if_pos (by omega), getElem?_eq_none (by omega), Option.getD_none]

theorem slice_write_of_disjoint {values : List α} {start a n : Nat}
    (h : a + n ≤ start ∨ start + values.length ≤ a) :
    slice (write m start values) a n = slice m a n := by
  refine slice_eq_iff.mpr fun k hk => ?_
  grind [write]

/-- Two writes one behind the other are one. -/
theorem write_append (start : Nat) {xs : List α} {k : Nat} (h : xs.length = k) (ys : List α) :
    write (write m start xs) (start + k) ys = write m start (xs ++ ys) := by
  grind [write]

theorem write_overwrite (start : Nat) {xs xs' : List α} (h : xs.length = xs'.length) (ys : List α) :
    write (write m start (xs ++ ys)) start xs' = write m start (xs' ++ ys) := by
  grind [write]

theorem write_set (start : Nat) {values : List α} {k : Nat} (h : k < values.length) (v : α) :
    write m start (values.set k v) = update (write m start values) (start + k) v := by
  grind [write]

/-- A part of what was written, read back. -/
theorem slice_write_part (start : Nat) {values : List α} {k n : Nat} (h : k + n ≤ values.length) :
    slice (write m start values) (start + k) n = (values.drop k).take n := by
  calc slice (write m start values) (start + k) n
      = ((slice (write m start values) start values.length).drop k).take n := by
        rw [slice_drop, slice_take _ _ (by omega)]
    _ = (values.drop k).take n := by rw [slice_write]

end

/-! ## Several writes -/

/-- The values of each item of a list, written at its position. -/
def writeAll {β : Type} (start : β → Nat) (values : β → List α) (m : Nat → α) (items : List β) :
    Nat → α :=
  items.foldl (fun m x => write m (start x) (values x)) m

section WriteAll

variable {β : Type} {start : β → Nat} {values : β → List α}

theorem writeAll_of_outside {items : List β} {m : Nat → α} {p : Nat}
    (h : ∀ x ∈ items, start x ≤ p → start x + (values x).length ≤ p) :
    writeAll start values m items p = m p := by
  induction items generalizing m with
  | nil => rfl
  | cons x items ih =>
    rw [writeAll, foldl_cons, ← writeAll]
    grind [write]

/-- Items that do not overlap are all read back. -/
theorem slice_writeAll {items : List β}
    (hapart : items.Pairwise fun x y => ∀ p, start x ≤ p → p < start x + (values x).length →
      start y ≤ p → start y + (values y).length ≤ p) {m : Nat → α} {x : β} (hx : x ∈ items) :
    slice (writeAll start values m items) (start x) (values x).length = values x := by
  induction items generalizing m with
  | nil => cases hx
  | cons y items ih =>
    obtain ⟨hfirst, hrest⟩ := pairwise_cons.mp hapart
    rcases mem_cons.mp hx with rfl | hx
    · -- later items leave its values alone
      calc slice (writeAll start values (write m (start x) (values x)) items) (start x)
            (values x).length
          = slice (write m (start x) (values x)) (start x) (values x).length := by
            refine slice_eq_iff.mpr fun k hk => ?_
            refine writeAll_of_outside fun y hy hle => ?_
            exact hfirst y hy _ (Nat.le_add_right _ _) (Nat.add_lt_add_left hk _) hle
        _ = values x := slice_write _ _ _
    · exact ih hrest hx

end WriteAll

/-! ## Gathering segments -/

/-- A piece to collect: values of the buffer, or one value repeated. -/
inductive Segment (α : Type) where
  | copy (src n : Nat)
  | fill (n : Nat) (v : α)

namespace Segment

def length : Segment α → Nat
  | copy _ n => n
  | fill n _ => n

def place (m : Nat → α) (cursor : Nat) : Segment α → Nat → α
  | copy src n => Mem.copyWithin m src n cursor
  | fill n v => Mem.fill m cursor n v

def values (m : Nat → α) : Segment α → List α
  | copy src n => slice m src n
  | fill n v => replicate n v

section

variable (m : Nat → α)

variable (s : Segment α)

theorem length_values : (s.values m).length = s.length := by
  cases s <;> simp [values, length]

theorem place_of_lt {cursor i : Nat} (h : i < cursor) : s.place m cursor i = m i := by
  cases s with
  | copy src n => exact if_neg (by omega)
  | fill n v => exact if_neg (by omega)

theorem place_of_ge {cursor i : Nat} (h : cursor + s.length ≤ i) : s.place m cursor i = m i := by
  cases s with
  | copy src n | fill n v => exact if_neg (by rw [length] at h; omega)

theorem slice_place (cursor : Nat) : slice (s.place m cursor) cursor s.length = s.values m := by
  cases s with
  | copy src n =>
    refine slice_eq_iff.mpr fun k hk => ?_
    rw [length] at hk
    rw [place, copyWithin, if_pos (by omega), Nat.add_sub_cancel_left]
  | fill n v =>
    rw [values, eq_replicate_iff]
    refine ⟨by simp [length], fun b hb => ?_⟩
    obtain ⟨k, hk, rfl⟩ := mem_map.mp hb
    rw [mem_range] at hk
    exact if_pos (by rw [length] at hk; omega)

end

end Segment

def size : List (Segment α) → Nat
  | [] => 0
  | s :: ss => s.length + size ss

@[simp] theorem size_nil : size ([] : List (Segment α)) = 0 := rfl

@[simp] theorem size_cons (s : Segment α) (ss : List (Segment α)) :
    size (s :: ss) = s.length + size ss := rfl

@[simp] theorem size_append (ss ts : List (Segment α)) : size (ss ++ ts) = size ss + size ts := by
  induction ss with
  | nil => simp
  | cons s ss ih => rw [cons_append, size_cons, ih, size_cons, Nat.add_assoc]

def gather (m : Nat → α) (cursor : Nat) : List (Segment α) → Nat → α
  | [] => m
  | s :: ss => gather (s.place m cursor) (cursor + s.length) ss

theorem gather_append (m : Nat → α) (cursor : Nat) (ss ts : List (Segment α)) :
    gather m cursor (ss ++ ts) = gather (gather m cursor ss) (cursor + size ss) ts := by
  induction ss generalizing m cursor with
  | nil => rfl
  | cons s ss ih => rw [cons_append, gather, gather, ih, size_cons, Nat.add_assoc]

theorem gather_of_ge (m : Nat → α) {cursor i : Nat} (ss : List (Segment α))
    (h : cursor + size ss ≤ i) : gather m cursor ss i = m i := by
  induction ss generalizing m cursor with
  | nil => rfl
  | cons s ss ih =>
    rw [size_cons] at h
    rw [gather, ih _ (by omega), s.place_of_ge m (by omega)]

/-- Every segment arrives as it was at the start. -/
def Regions (m : Nat → α) (ss : List (Segment α)) : Prop :=
  ∀ i s, ss[i]? = some s → slice (gather m 0 ss) (size (ss.take i)) s.length = s.values m

/-- No copied value lies under the segments before it, unless it is overwritten
by itself. -/
def Untouched (m : Nat → α) (ss : List (Segment α)) : Prop :=
  ∀ i src n, ss[i]? = some (.copy src n) → ∀ p, src ≤ p → p < src + n →
    p < size (ss.take i) → ((ss.take i).flatMap (Segment.values m))[p]? = some (m p)

theorem length_flatMap_values (m : Nat → α) (ss : List (Segment α)) :
    (ss.flatMap (Segment.values m)).length = size ss := by
  induction ss with
  | nil => rfl
  | cons s ss ih => rw [flatMap_cons, length_append, ih, s.length_values, size_cons]

section Snoc

variable {m : Nat → α} {ss : List (Segment α)} {s : Segment α}

theorem gather_snoc : gather m 0 (ss ++ [s]) = s.place (gather m 0 ss) (size ss) := by
  rw [gather_append, Nat.zero_add, gather, gather]

theorem size_take_add {i : Nat} {t : Segment α} (h : ss[i]? = some t) :
    size (ss.take i) + t.length ≤ size ss := by
  obtain ⟨hi, heq⟩ := List.getElem?_eq_some_iff.mp h
  have hsplit : ss = ss.take i ++ t :: ss.drop (i + 1) := by
    rw [← heq, getElem_cons_drop, take_append_drop]
  have hsize := congrArg size hsplit
  rw [size_append, size_cons] at hsize
  omega

theorem regions_snoc : Regions m (ss ++ [s]) ↔
    Regions m ss ∧ s.values (gather m 0 ss) = s.values m := by
  have hlast : slice (gather m 0 (ss ++ [s])) (size ss) s.length = s.values (gather m 0 ss) := by
    rw [gather_snoc, s.slice_place]
  have hold : ∀ i t, ss[i]? = some t →
      slice (gather m 0 (ss ++ [s])) (size (ss.take i)) t.length =
        slice (gather m 0 ss) (size (ss.take i)) t.length := by
    intro i t ht
    have hle := size_take_add ht
    refine slice_eq_iff.mpr fun k hk => ?_
    rw [gather_snoc, s.place_of_lt _ (by omega)]
  constructor
  · intro h
    refine ⟨fun i t ht => ?_, ?_⟩
    · have hi : i < ss.length := (List.getElem?_eq_some_iff.mp ht).1
      have hreg := h i t (by rw [getElem?_append_left hi, ht])
      grind
    · have hreg := h ss.length s (by simp)
      rw [take_left, hlast] at hreg
      exact hreg
  grind [Regions]

theorem untouched_snoc : Untouched m (ss ++ [s]) ↔
    Untouched m ss ∧ ∀ src n, s = .copy src n → ∀ p, src ≤ p → p < src + n →
      p < size ss → (ss.flatMap (Segment.values m))[p]? = some (m p) := by
  constructor
  · intro h
    refine ⟨fun i src n ht => ?_, fun src n hs => ?_⟩
    · have hi : i < ss.length := (List.getElem?_eq_some_iff.mp ht).1
      have hun := h i src n (by rw [getElem?_append_left hi, ht])
      rw [take_append_of_le_length (Nat.le_of_lt hi)] at hun
      exact hun
    · have hun := h ss.length src n (by simp [hs])
      rw [take_left] at hun
      exact hun
  grind [Untouched]

/-- The segments before stand at the front, one after the other. -/
theorem Regions.slice_gather (h : Regions m ss) :
    slice (gather m 0 ss) 0 (size ss) = ss.flatMap (Segment.values m) := by
  induction ss using reverseRecOn with
  | nil => rfl
  | append_singleton ss s ih =>
    obtain ⟨hreg, hs⟩ := regions_snoc.mp h
    have hpre : slice (gather m 0 (ss ++ [s])) 0 (size ss) = slice (gather m 0 ss) 0 (size ss) := by
      refine slice_eq_iff.mpr fun k hk => ?_
      rw [gather_snoc, s.place_of_lt _ (by omega)]
    rw [size_append, slice_add, hpre, ih hreg, Nat.zero_add, size_cons, size_nil, Nat.add_zero,
      gather_snoc, s.slice_place, hs]
    simp

/-- The next segment is still whole when its turn comes. -/
theorem Regions.values_gather_iff (h : Regions m ss) : s.values (gather m 0 ss) = s.values m ↔
    ∀ src n, s = .copy src n → ∀ p, src ≤ p → p < src + n →
      p < size ss → (ss.flatMap (Segment.values m))[p]? = some (m p) := by
  have hfront : ∀ p, p < size ss →
      (ss.flatMap (Segment.values m))[p]? = some (gather m 0 ss p) := by
    intro p hp
    rw [← h.slice_gather, getElem?_slice _ _ hp, Nat.zero_add]
  cases s with
  | fill n v => exact ⟨fun _ _ _ => nofun, fun _ => rfl⟩
  | copy src n =>
    constructor
    · rintro heq src' n' hs p hle hlt hp
      cases hs
      have hval := slice_eq_iff.mp heq (p - src) (by omega)
      rw [Nat.add_sub_cancel' hle] at hval
      rw [hfront p hp, hval]
    · intro hall
      refine slice_eq_iff.mpr fun k hk => ?_
      by_cases hp : src + k < size ss
      · grind
      · exact gather_of_ge m ss (by omega)

theorem regions_iff_untouched : Regions m ss ↔ Untouched m ss := by
  induction ss using reverseRecOn with
  | nil => exact ⟨fun _ _ _ _ h => absurd h (by simp), fun _ _ _ h => absurd h (by simp)⟩
  | append_singleton ss s ih =>
    rw [regions_snoc, untouched_snoc]
    constructor
    · rintro ⟨hreg, hs⟩
      exact ⟨ih.mp hreg, hreg.values_gather_iff.mp hs⟩
    · rintro ⟨hun, hs⟩
      exact ⟨ih.mpr hun, (ih.mpr hun).values_gather_iff.mpr hs⟩

end Snoc

/-! ## Gathering at the end -/

/-- Moves the regions, given as start and length, to below `cursor`.  The first of
the list comes last in the buffer. -/
def gatherBack (m : Nat → α) (cursor : Nat) : List (Nat × Nat) → Nat → α
  | [] => m
  | (src, n) :: rest => gatherBack (copyWithin m src n (cursor - n)) (cursor - n) rest

def totalLength : List (Nat × Nat) → Nat
  | [] => 0
  | (_, n) :: rest => n + totalLength rest

theorem totalLength_append (rs rs' : List (Nat × Nat)) :
    totalLength (rs ++ rs') = totalLength rs + totalLength rs' := by
  induction rs with
  | nil => rw [nil_append, totalLength, Nat.zero_add]
  | cons r rs ih => rw [cons_append, totalLength, ih, totalLength, Nat.add_assoc]

theorem totalLength_reverse (rs : List (Nat × Nat)) : totalLength rs.reverse = totalLength rs := by
  induction rs with
  | nil => rfl
  | cons r rs ih =>
    rw [reverse_cons, totalLength_append, ih, Nat.add_comm]
    rfl

/-- Every region lies below what has been collected when its turn comes. -/
def Below (cursor : Nat) : List (Nat × Nat) → Prop
  | [] => True
  | (src, n) :: rest => src + n ≤ cursor ∧ Below (cursor - n) rest

theorem Below.region_le {cursor : Nat} {rs : List (Nat × Nat)} (h : Below cursor rs) :
    ∀ r ∈ rs, r.1 + r.2 ≤ cursor := by
  induction rs generalizing cursor with
  | nil => exact fun r hr => absurd hr not_mem_nil
  | cons r₀ rest ih =>
    intro r hr
    rcases mem_cons.mp hr with rfl | hr
    · exact h.1
    · exact Nat.le_trans (ih h.2 r hr) (Nat.sub_le _ _)

theorem Below.totalLength_le {cursor : Nat} {rs : List (Nat × Nat)} (h : Below cursor rs) :
    totalLength rs ≤ cursor := by
  induction rs generalizing cursor with
  | nil => exact Nat.zero_le _
  | cons r rest ih =>
    have hfirst := h.1
    have hrest := ih h.2
    rw [totalLength]
    omega

section

variable (m : Nat → α)

theorem slice_copyWithin (src n dst : Nat) : slice (copyWithin m src n dst) dst n = slice m src n :=
  (Segment.copy src n).slice_place m dst

theorem gatherBack_of_ge {cursor i : Nat} {rs : List (Nat × Nat)} (hbelow : Below cursor rs)
    (h : cursor ≤ i) : gatherBack m cursor rs i = m i := by
  induction rs generalizing m cursor with
  | nil => rfl
  | cons r rest ih =>
    have hfirst := hbelow.1
    rw [gatherBack, ih _ hbelow.2 (by omega)]
    exact if_neg (by omega)

theorem slice_gatherBack {cursor : Nat} {rs : List (Nat × Nat)} (hbelow : Below cursor rs) :
    slice (gatherBack m cursor rs) (cursor - totalLength rs) (totalLength rs) =
      rs.reverse.flatMap fun r => slice m r.1 r.2 := by
  induction rs generalizing m cursor with
  | nil => rfl
  | cons r rest ih =>
    obtain ⟨src, n⟩ := r
    have htotal := hbelow.2.totalLength_le
    have hstart : cursor - (n + totalLength rest) = cursor - n - totalLength rest := by omega
    have hlast : cursor - n - totalLength rest + totalLength rest = cursor - n := by omega
    -- The copy leaves the regions still to come as they were.
    have hkeep : (rest.reverse.flatMap fun r => slice (copyWithin m src n (cursor - n)) r.1 r.2) =
        rest.reverse.flatMap fun r => slice m r.1 r.2 := by
      apply flatMap_congr
      intro r hr
      have hle := hbelow.2.region_le r (mem_reverse.mp hr)
      refine slice_eq_iff.mpr fun k hk => ?_
      rw [copyWithin, if_neg (by omega)]
    -- And the rest of the gathering leaves the copy alone.
    have hmoved : slice (gatherBack (copyWithin m src n (cursor - n)) (cursor - n) rest)
        (cursor - n) n = slice m src n := by
      rw [← slice_copyWithin m src n (cursor - n)]
      refine slice_eq_iff.mpr fun k hk => ?_
      rw [gatherBack_of_ge _ hbelow.2 (by omega)]
    rw [totalLength, gatherBack, hstart, Nat.add_comm n, slice_add, hlast, ih _ hbelow.2, hkeep,
      hmoved, reverse_cons]
    simp

end

/-! ## Copies in steps -/

section

variable (m : Nat → α)

theorem copyWithin_zero (src dst : Nat) : copyWithin m src 0 dst = m := by
  funext i
  exact if_neg (by omega)

theorem copyWithin_eq_write (src n dst : Nat) :
    copyWithin m src n dst = write m dst (slice m src n) := by
  grind [copyWithin, write, slice]

theorem copyWithin_one (src dst : Nat) : copyWithin m src 1 dst = update m dst (m src) := by
  grind [copyWithin]

theorem copyWithin_inside (src : Nat) {n dst i : Nat} (h : dst ≤ i ∧ i < dst + n) :
    copyWithin m src n dst i = m (src + (i - dst)) :=
  if_pos h

theorem copyWithin_outside (src : Nat) {n dst i : Nat} (h : ¬ (dst ≤ i ∧ i < dst + n)) :
    copyWithin m src n dst i = m i :=
  if_neg h

/-- From the front, a copy in two steps is one copy unless it moves up by less than its
length. -/
theorem copyWithin_front {src k n dst : Nat} (h : dst ≤ src ∨ src + (k + n) ≤ dst) :
    copyWithin (copyWithin m src k dst) (src + k) n (dst + k) = copyWithin m src (k + n) dst := by
  funext i
  by_cases hsecond : dst + k ≤ i ∧ i < dst + k + n
  · rw [copyWithin_inside _ _ hsecond, copyWithin_outside _ _ (by omega),
      copyWithin_inside _ _ (by omega), show src + k + (i - (dst + k)) = src + (i - dst) by omega]
  · rw [copyWithin_outside _ _ hsecond]
    by_cases hfirst : dst ≤ i ∧ i < dst + k
    · rw [copyWithin_inside _ _ hfirst, copyWithin_inside _ _ (by omega)]
    · rw [copyWithin_outside _ _ hfirst, copyWithin_outside _ _ (by omega)]

/-- From the back, a copy in two steps is one copy if it moves up. -/
theorem copyWithin_back {src n k dst : Nat} (h : src ≤ dst) :
    copyWithin (copyWithin m (src + n) k (dst + n)) src n dst = copyWithin m src (n + k) dst := by
  funext i
  by_cases hfirst : dst ≤ i ∧ i < dst + n
  · rw [copyWithin_inside _ _ hfirst, copyWithin_outside _ _ (by omega),
      copyWithin_inside _ _ (by omega)]
  · rw [copyWithin_outside _ _ hfirst]
    by_cases hsecond : dst + n ≤ i ∧ i < dst + n + k
    · rw [copyWithin_inside _ _ hsecond, copyWithin_inside _ _ (by omega),
        show src + n + (i - (dst + n)) = src + (i - dst) by omega]
    · rw [copyWithin_outside _ _ hsecond, copyWithin_outside _ _ (by omega)]

theorem fill_zero (start : Nat) (v : α) : fill m start 0 v = m := by
  funext i
  exact if_neg (by omega)

theorem fill_one (start : Nat) (v : α) : fill m start 1 v = update m start v := by
  grind [fill]

theorem fill_add (start k n : Nat) (v : α) :
    fill (fill m start k v) (start + k) n v = fill m start (k + n) v := by
  grind [fill]

theorem fill_eq_write (start n : Nat) (v : α) :
    fill m start n v = write m start (replicate n v) := by
  grind [fill, write]

end

end Rcard.Mem
