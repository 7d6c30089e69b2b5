/-
Runs of the compositor's heap.

The clients allocate, free what they hold and write inside of it, in any order.  `Sound` is
what holds in every state that such a run reaches: the blocks tile the region, no two free
ones touch, and the used ones are those that the clients hold.
-/
import Rcard.Memory.Blocks

namespace Rcard.Heap

open Function List Tile Option

open Word
open Tile (total spots free used Merged)

/-- A list has fewer nodes than this, so a walk that takes as many rounds goes in a circle. -/
def walkLimit : Nat := 2 ^ 29

/-- The memory, and the pointers that were handed out and are not freed yet. -/
structure State where
  mem : Ram
  live : Nat → Option Layout

inductive Event where
  | alloc (layout : Layout)
  | dealloc (ptr : Nat)
  /-- A client writes a byte of an allocation. -/
  | write (ptr offset : Nat) (b : UInt8)

/-- There is no step if the client may not do this, and none if the code does not return. -/
def State.step (inner : Nat) (s : State) : Event → Option State
  | .alloc layout => do
      let (m, ptr) ← Heap.alloc walkLimit inner s.mem layout
      return { mem := m
               live := if ptr = 0 then s.live else update s.live ptr (some layout) }
  | .dealloc ptr => do
      let _ ← s.live ptr
      let m ← Heap.dealloc walkLimit inner s.mem ptr
      return { mem := m, live := update s.live ptr none }
  | .write ptr offset b => do
      let layout ← s.live ptr
      if offset < layout.size then
        some { s with mem := update s.mem (ptr + offset) b }
      else none

def State.run (inner : Nat) : State → List Event → Option State
  | s, [] => some s
  | s, e :: es => (s.step inner e).bind fun s' => run inner s' es

/-- The heap right after `init`. -/
def State.start (inner : Nat) (m : Ram) (base len : Nat) : State :=
  { mem := init inner m base len, live := fun _ => none }

/-- What `init` asks of its caller.  The list head is still null. -/
structure Region (inner : Nat) (m : Ram) (base len : Nat) : Prop where
  notNull : 0 < base
  noWrap : base + len < 2 ^ 32
  apart : inner + 4 ≤ base ∨ base + len ≤ inner
  empty : load m inner = 0

def alignOffset (base : Nat) : Nat := (align - base % align) % align

/-- The size of the aligned region. -/
def regionSize (base len : Nat) : Nat := (len - alignOffset base) / align * align

/-- Where the aligned region starts.  For an empty one it does not matter. -/
def regionStart (base len : Nat) : Nat :=
  if regionSize base len = 0 then base else base + alignOffset base

/-- The pointers handed out are those to the payloads of the blocks. -/
structure Owns (live : Nat → Option Layout) (blocks : List (Nat × Nat)) : Prop where
  block : ∀ p layout, live p = some layout →
    ∃ a k, p = a + headerSize ∧ (a, k) ∈ blocks ∧ headerSize + layout.size ≤ k
  owner : ∀ a k, (a, k) ∈ blocks → (live (a + headerSize)).isSome

structure Sound (inner lo n : Nat) (s : State) (ts : List Tile) : Prop where
  laid : Laid s.mem inner lo ts
  size : total ts = n
  merged : Merged ts
  owns : Owns s.live (spots true lo ts)

section Owns

variable {live : Nat → Option Layout} {blocks blocks' : List (Nat × Nat)} {a k : Nat}

theorem Owns.add (h : Owns live blocks) {layout : Layout} (hsize : headerSize + layout.size ≤ k)
    (hnew : ∀ x, x ∈ blocks' ↔ x = (a, k) ∨ x ∈ blocks) :
    Owns (update live (a + headerSize) (some layout)) blocks' := by
  refine ⟨fun p l hp => ?_, fun b i hb => ?_⟩
  · by_cases heq : p = a + headerSize
    · subst heq
      rw [update_self] at hp
      cases hp
      exact ⟨a, k, rfl, (hnew _).mpr (.inl rfl), hsize⟩
    · rw [update_of_ne heq] at hp
      obtain ⟨b, i, hpb, hb, hle⟩ := h.block p l hp
      exact ⟨b, i, hpb, (hnew _).mpr (.inr hb), hle⟩
  · by_cases heq : b + headerSize = a + headerSize
    · rw [heq, update_self]
      rfl
    · rw [update_of_ne heq]
      rcases (hnew _).mp hb with hpair | hb
      · cases hpair
        exact absurd rfl heq
      · exact h.owner b i hb

theorem Owns.remove (h : Owns live blocks) (hnew : ∀ x, x ∈ blocks' ↔ x ∈ blocks ∧ x.1 ≠ a) :
    Owns (update live (a + headerSize) none) blocks' := by
  refine ⟨fun p l hp => ?_, fun b i hb => ?_⟩
  · by_cases heq : p = a + headerSize
    · subst heq
      rw [update_self] at hp
      cases hp
    · rw [update_of_ne heq] at hp
      obtain ⟨b, i, rfl, hb, hle⟩ := h.block p l hp
      exact ⟨b, i, rfl, (hnew _).mpr ⟨hb, fun hba => heq (by rw [← hba])⟩, hle⟩
  · obtain ⟨hold, hne⟩ := (hnew _).mp hb
    rw [update_of_ne fun heq => hne (Nat.add_right_cancel heq)]
    exact h.owner b i hold

end Owns

section Size

theorem Layout.size_le (layout : Layout) : layout.size ≤ isizeMax := by
  obtain ⟨k, hk⟩ := layout.isPow
  have hfits := layout.fits
  have hpos : 0 < layout.align := by rw [hk]; exact Nat.two_pow_pos k
  have hround := Nat.div_add_mod (layout.size + layout.align - 1) layout.align
  have hmod := Nat.mod_lt (layout.size + layout.align - 1) hpos
  rw [Nat.mul_comm] at hround
  omega

theorem blockSizeFor_eq {payload : Nat} (h : payload ≤ isizeMax) :
    blockSizeFor payload = (headerSize + max payload 1 + 7) / 8 * 8 := by
  rw [isizeMax] at h
  have hround : Align.alignUp 32 (4 + max payload 1) 8 = (4 + max payload 1 + 8 - 1) / 8 * 8 :=
    Align.alignUp_eq (k := 3) (by omega) (by omega)
  rw [blockSizeFor, headerSize, usizeMax, align, freeNodeSize, Nat.min_eq_left (by omega)]
  omega

end Size

variable {inner lo n : Nat} {s s' : State} {ts : List Tile}

/-! ## `init` -/

theorem init_eq (m : Ram) {base len : Nat} (hlen : len < 2 ^ 32) :
    init inner m base len =
      if regionSize base len = 0 then m
      else store (store (store m (base + alignOffset base) (regionSize base len))
        (base + alignOffset base + nextOffset) 0) inner (base + alignOffset base) := by
  have hmask (x : Nat) (hx : x < 2 ^ 32) : x &&& (2 ^ 32 - 8) = x / 8 * 8 :=
    Align.and_high_mask (k := 3) (by omega) hx
  rw [init, ← alignOffset, align, hmask _ (by omega), ← align, ← regionSize, freeNodeSize]
  by_cases hsmall : len ≤ alignOffset base
  · have hzero : regionSize base len = 0 := by rw [regionSize, align]; omega
    rw [if_pos hsmall, if_pos hzero]
  · rw [if_neg hsmall]
    by_cases hzero : regionSize base len = 0
    · rw [if_pos hzero, if_pos (by omega)]
    · have hbig : ¬ regionSize base len < 8 := by
        rw [regionSize, align] at hzero ⊢
        omega
      rw [if_neg hbig, if_neg hzero]

theorem owns_nothing : Owns (fun _ => none) [] := ⟨nofun, nofun⟩

variable {m : Ram} {layout : Layout}

theorem sound_start {base len : Nat} (h : Region inner m base len) :
    ∃ ts, Sound inner (regionStart base len) (regionSize base len)
      (State.start inner m base len) ts := by
  obtain ⟨hpos, hwrap, hapart, hempty⟩ := h
  rw [State.start, init_eq m (by omega), regionStart]
  by_cases hzero : regionSize base len = 0
  · rw [if_pos hzero, if_pos hzero]
    refine ⟨[], ⟨⟨trivial, hempty⟩, fun t ht => absurd ht not_mem_nil, ?_, hpos, ?_⟩,
      hzero.symm, isChain_nil, owns_nothing⟩
    · rw [Apart, total_nil]
      omega
    · rw [total_nil]
      omega
  · have hbound : alignOffset base + regionSize base len ≤ len ∧ 8 ≤ regionSize base len ∧
        regionSize base len % 8 = 0 := by
      rw [regionSize, align] at *
      omega
    rw [if_neg hzero, if_neg hzero]
    refine ⟨[free (regionSize base len)], ?_, rfl, isChain_singleton _, owns_nothing⟩
    generalize regionSize base len = size at *
    generalize alignOffset base = offset at *
    refine ⟨⟨⟨?_, fun _ => ?_, trivial⟩, ?_⟩, ?_, ?_, by omega, ?_⟩
    · show load _ (base + offset) = size
      rw [nextOffset, load_store_of_disjoint _ _ (by omega), load_store_of_disjoint _ _ (by omega),
        load_store _ _ (by omega)]
    · exact load_store _ _ (by omega)
    · show load _ (base + offset + 4) = 0
      rw [load_store_of_disjoint _ _ (by omega)]
      exact load_store _ _ (by omega)
    · intro t ht
      rw [mem_singleton.mp ht]
      exact hbound.2
    · rw [Apart, total_cons, total_nil]
      dsimp only
      omega
    · rw [total_cons, total_nil]
      dsimp only
      omega

/-! ## Steps -/

theorem Laid.rounds {pre us : List Tile} (h : Laid m inner lo (pre ++ us)) :
    (spots false lo pre).length < walkLimit := by
  have hlen := length_spots_le h false lo
  have hbound := h.bound
  rw [spots_append, length_append, freeNodeSize] at hlen
  rw [walkLimit]
  omega

/-- The used tile that a block carved out of a free one becomes. -/
theorem carve_spec {m s b : Nat} (hm : m ≤ s) (pre post : List Tile) (hb : b = lo + total pre)
    (hmerged : Merged (pre ++ ([free s] ++ post))) :
    total (carve m s) = s ∧ Merged (pre ++ (carve m s ++ post)) ∧
      ∃ k, m ≤ k ∧ k ≤ s ∧
        spots true lo (pre ++ (carve m s ++ post)) =
          spots true lo pre ++ (b, k) :: spots true (b + s) post := by
  subst hb
  have hpre := hmerged.append_left
  rw [carve]
  split
  · refine ⟨?_, hpre.around (Merged.cons_free hmerged.append_right) m, m, Nat.le_refl m, hm, ?_⟩
    · simp only [total_cons, total_nil]
      omega
    · rw [spots_append, cons_append, spots_cons_self _ (used m), singleton_append,
        spots_cons_of_ne _ (by simp), Nat.add_assoc _ m, Nat.add_sub_of_le hm]
  · refine ⟨rfl, hpre.around hmerged.append_right.append_right s, s, hm, Nat.le_refl s, ?_⟩
    rw [spots_append, singleton_append, spots_cons_self _ (used s)]

section

variable (h : Sound inner lo n s ts)
include h

/-- A free block is a multiple of eight bytes, so it is too small before rounding, too. -/
theorem Sound.too_small {layout : Layout}
    (hsmall : ∀ t ∈ ts, t.isUsed = false → t.size < blockSizeFor layout.size) :
    ∀ x ∈ spots false lo ts, x.2 < headerSize + layout.size := by
  intro x hx
  have hblock := blockSizeFor_eq layout.size_le
  rw [headerSize] at hblock ⊢
  obtain ⟨front, rest, rfl, _⟩ := exists_of_mem_spots hx
  have hlt := hsmall (free x.2) (by simp) rfl
  have hsize := h.laid.sized (free x.2) (by simp)
  simp only [align] at hsize
  dsimp only at hlt
  omega

theorem Sound.alloc (layout : Layout) :
    (Heap.alloc walkLimit inner s.mem layout = some (s.mem, 0) ∧
      (layout.align ≤ align → ∀ x ∈ spots false lo ts, x.2 < headerSize + layout.size)) ∨
    ∃ m a k ts', Heap.alloc walkLimit inner s.mem layout = some (m, a + headerSize) ∧
      headerSize + layout.size ≤ k ∧ (∃ x ∈ spots false lo ts, headerSize + layout.size ≤ x.2) ∧
      (a, k) ∈ spots true lo ts' ∧ (∀ x ∈ spots true lo ts, x.1 + x.2 ≤ a ∨ a + k ≤ x.1) ∧
      Sound inner lo n { mem := m, live := update s.live (a + headerSize) (some layout) } ts' := by
  rw [Heap.alloc]
  by_cases halign : align < layout.align
  · grind
  · rw [if_neg halign]
    have hblock := blockSizeFor_eq layout.size_le
    rw [headerSize] at hblock
    rcases first_fit (blockSizeFor layout.size) ts with
      hsmall | ⟨pre, k, post, rfl, hpre, hfit⟩
    · have hlaid := h.laid
      rw [← append_nil ts] at hlaid
      exact .inl ⟨allocFrom_full h.laid hsmall hlaid.rounds, fun _ => h.too_small hsmall⟩
    · obtain ⟨m, halloc, hlaid⟩ := allocFrom_fit h.laid hpre
        (by rw [freeNodeSize, align]; omega) hfit h.laid.rounds
      obtain ⟨htotal, hmerged, j, hle, hjk, hspots⟩ := carve_spec hfit pre post rfl h.merged
      have hbefore : spots true lo (pre ++ ([free k] ++ post)) =
          spots true lo pre ++ spots true (lo + total pre + k) post := by
        rw [spots_append, singleton_append, spots_cons_of_ne _ (by simp)]
      have hnew (x) : x ∈ spots true lo (pre ++ (carve (blockSizeFor layout.size) k ++ post)) ↔
          x = (lo + total pre, j) ∨ x ∈ spots true lo (pre ++ ([free k] ++ post)) := by
        rw [hspots, hbefore, mem_append, mem_append, mem_cons]
        exact or_left_comm
      have hheader : headerSize + layout.size ≤ j := by
        rw [headerSize]
        omega
      refine .inr ⟨m, lo + total pre, j, _, halloc, hheader, ⟨(lo + total pre, k), ?_, ?_⟩,
        (hnew _).mpr (.inl rfl), fun x hx => ?_, hlaid, ?_, hmerged, h.owns.add hheader hnew⟩
      · rw [spots_append, singleton_append, spots_cons_self _ (free k)]
        exact mem_append_right _ mem_cons_self
      · exact Nat.le_trans hheader hjk
      · rw [hbefore] at hx
        rcases mem_append.mp hx with hx | hx
        · exact .inl (spots_bounds hx).2
        · have hle := (spots_bounds hx).1
          exact .inr (by omega)
      · rw [← h.size]
        simp only [total_append, htotal, total_cons, total_nil, Nat.add_zero]

/-- The block of a pointer that a client holds. -/
theorem Sound.exists_block {p : Nat} (hlive : s.live p = some layout) :
    ∃ pre k post, ts = pre ++ ([used k] ++ post) ∧ p = lo + total pre + headerSize ∧
      headerSize + layout.size ≤ k := by
  obtain ⟨a, k, rfl, hmem, hle⟩ := h.owns.block p layout hlive
  obtain ⟨pre, post, rfl, rfl⟩ := exists_of_mem_spots hmem
  exact ⟨pre, k, post, rfl, rfl, hle⟩

theorem Sound.dealloc {p : Nat} (hlive : s.live p = some layout) :
    ∃ m ts', Heap.dealloc walkLimit inner s.mem p = some m ∧
      Sound inner lo n { mem := m, live := update s.live p none } ts' := by
  obtain ⟨pre, k, post, rfl, rfl, _⟩ := h.exists_block hlive
  have hk := (h.laid.sized (used k) (by simp)).1
  rw [freeNodeSize] at hk
  dsimp only at hk
  obtain ⟨m, ts', hdealloc, hlaid, htotal, hmerged, hspots⟩ :=
    h.laid.dealloc h.merged h.laid.rounds
  refine ⟨m, ts', hdealloc, hlaid, htotal.trans h.size, hmerged, h.owns.remove fun x => ?_⟩
  have hbefore : x ∈ spots true lo pre → x.1 < lo + total pre := fun hx => by
    have hpos := spots_size_pos (Sized.append.mp h.laid.sized).1 hx
    have hle := (spots_bounds hx).2
    omega
  have hbehind : x ∈ spots true (lo + total pre + k) post → lo + total pre < x.1 := fun hx => by
    have hle := (spots_bounds hx).1
    omega
  rw [hspots, spots_append, singleton_append, spots_cons_self _ (used k), mem_append, mem_append]
  grind

theorem Sound.write {p offset : Nat} (hlive : s.live p = some layout)
    (hoffset : offset < layout.size) (b : UInt8) :
    Sound inner lo n { s with mem := update s.mem (p + offset) b } ts := by
  obtain ⟨pre, k, post, rfl, rfl, hle⟩ := h.exists_block hlive
  exact ⟨h.laid.touch (by omega) (by omega) b, h.size, h.merged, h.owns⟩

theorem Sound.step {e : Event} (hs : s.step inner e = some s') :
    ∃ ts', Sound inner lo n s' ts' := by
  cases e with
  | alloc layout =>
    rw [State.step] at hs
    rcases h.alloc layout with ⟨halloc, _⟩ | ⟨m, a, k, ts', halloc, _, _, _, _, hsound⟩
    · rw [halloc] at hs
      cases hs
      exact ⟨ts, h⟩
    · rw [halloc] at hs
      cases hs
      refine ⟨ts', ?_⟩
      exact hsound
  | dealloc ptr =>
    obtain ⟨layout, hlive, hs⟩ := bind_eq_some_iff.mp hs
    obtain ⟨m, ts', hdealloc, hsound⟩ := h.dealloc hlive
    rw [hdealloc] at hs
    cases hs
    exact ⟨ts', hsound⟩
  | write ptr offset b =>
    obtain ⟨layout, hlive, hs⟩ := bind_eq_some_iff.mp hs
    split at hs
    · rename_i hoffset
      cases hs
      exact ⟨ts, h.write hlive hoffset b⟩
    · cases hs

end

theorem Sound.run {es : List Event} (h : Sound inner lo n s ts) (hs : s.run inner es = some s') :
    ∃ ts', Sound inner lo n s' ts' := by
  induction es generalizing s ts with
  | nil =>
    cases hs
    exact ⟨ts, h⟩
  | cons e es ih =>
    obtain ⟨mid, hmid, hs⟩ := bind_eq_some_iff.mp hs
    obtain ⟨ts', hsound⟩ := h.step hmid
    exact ih hsound hs

/-! ## What holds in every run -/

/-- The free list as the links in memory give it. -/
def FreeList (m : Ram) : (prev : Nat) → List (Nat × Nat) → Prop
  | prev, [] => load m prev = 0
  | prev, (a, k) :: rest =>
    a ≠ 0 ∧ load m prev = a ∧ load m a = k ∧ FreeList m (a + nextOffset) rest

theorem Holds.freeList {prev a : Nat} (h : Holds m prev a ts) (ha : 0 < a) :
    FreeList m prev (spots false a ts) := by
  induction ts generalizing prev a with
  | nil => exact h.2
  | cons t ts ih =>
    obtain ⟨⟨hsize, hlink, hrest⟩, hlast⟩ := h
    have htail := ih ⟨hrest, hlast⟩ (Nat.add_pos_left ha t.size)
    obtain ⟨k, kind⟩ := t
    cases kind with
    | true =>
      exact htail
    | false =>
      exact ⟨Nat.ne_of_gt ha, hlink rfl, hsize, htail⟩

theorem Laid.load_spot {kind : Bool} {x : Nat × Nat} (h : Laid m inner lo ts)
    (hx : x ∈ spots kind lo ts) : load m x.1 = x.2 := by
  obtain ⟨pre, post, rfl, hstart⟩ := exists_of_mem_spots hx
  rw [hstart]
  replace h : Laid m inner lo (pre ++ ([⟨x.2, kind⟩] ++ post)) := h
  exact (h.first rfl rfl).1

/-- The blocks of a state tile the region from `lo` on. -/
structure Tiled (inner lo n : Nat) (s : State) (ts : List Tile) : Prop where
  covers : total ts = n
  sizes : ∀ kind, ∀ x ∈ spots kind lo ts, 0 < x.2 ∧ load s.mem x.1 = x.2
  freeList : FreeList s.mem inner (spots false lo ts)
  /-- Sorted by address, without overlap, and no two next to each other. -/
  sorted : (spots false lo ts).Pairwise fun x y => x.1 + x.2 < y.1
  allocated : ∀ p, (s.live p).isSome ↔ ∃ a k, p = a + headerSize ∧ (a, k) ∈ spots true lo ts

theorem Sound.tiled (h : Sound inner lo n s ts) : Tiled inner lo n s ts := by
  refine ⟨h.size, fun kind x hx => ⟨spots_size_pos h.laid.sized hx, h.laid.load_spot hx⟩,
    h.laid.holds.freeList h.laid.pos, h.merged.apart (fun t ht => ?_) lo, fun p => ⟨?_, ?_⟩⟩
  · have hsize := (h.laid.sized t ht).1
    rw [freeNodeSize] at hsize
    omega
  · intro hp
    obtain ⟨layout, hlayout⟩ := isSome_iff_exists.mp hp
    obtain ⟨a, k, hpa, hmem, _⟩ := h.owns.block p layout hlayout
    exact ⟨a, k, hpa, hmem⟩
  · rintro ⟨a, k, rfl, hmem⟩
    exact h.owns.owner a k hmem

/-- With everything freed the free list is one block, or the region is empty. -/
theorem Sound.all_free (h : Sound inner lo n s ts) (hfreed : ∀ p, s.live p = none) :
    spots false lo ts = if n = 0 then [] else [(lo, n)] := by
  have hnone : spots true lo ts = [] := by
    rw [eq_nil_iff_forall_not_mem]
    rintro ⟨a, k⟩ hmem
    have howner := h.owns.owner a k hmem
    rw [hfreed] at howner
    cases howner
  have hsize := h.size
  rcases h.merged.eq_free hnone with rfl | heq
  · rw [total_nil] at hsize
    rw [if_pos hsize.symm]
    rfl
  · have hpos := (h.laid.sized (free (total ts)) (by rw [heq]; simp)).1
    rw [hsize] at heq
    subst heq
    rw [freeNodeSize] at hpos
    dsimp only at hpos
    rw [if_neg (by omega)]
    rfl

/-- In every run the blocks tile the region, `alloc` hands out blocks of its own that are
large enough unless there is none, and `dealloc` gives everything back. -/
theorem blocks_tile_region {m : Ram} {base len : Nat} (hregion : Region inner m base len)
    {es : List Event} (hrun : (State.start inner m base len).run inner es = some s) :
    ∃ ts, Tiled inner (regionStart base len) (regionSize base len) s ts ∧
      (∀ layout, ∃ m' p, alloc walkLimit inner s.mem layout = some (m', p) ∧
        (p ≠ 0 → ∃ a k, p = a + headerSize ∧ load m' a = k ∧ headerSize + layout.size ≤ k ∧
          regionStart base len ≤ a ∧ a + k ≤ regionStart base len + regionSize base len ∧
          ∀ x ∈ spots true (regionStart base len) ts, x.1 + x.2 ≤ a ∨ a + k ≤ x.1) ∧
        (p = 0 → layout.align ≤ align →
          ∀ x ∈ spots false (regionStart base len) ts, x.2 < headerSize + layout.size)) ∧
      (∀ p, (s.live p).isSome → ∃ m', dealloc walkLimit inner s.mem p = some m') ∧
      ((∀ p, s.live p = none) → spots false (regionStart base len) ts =
        if regionSize base len = 0 then [] else [(regionStart base len, regionSize base len)]) := by
  obtain ⟨ts₀, hstart⟩ := sound_start hregion
  obtain ⟨ts, h⟩ := hstart.run hrun
  refine ⟨ts, h.tiled, fun layout => ?_, fun p hp => ?_, h.all_free⟩
  · rcases h.alloc layout with
      ⟨halloc, hnull⟩ | ⟨m', a, k, ts', halloc, hsize, _, hmem, hapart, hafter⟩
    · exact ⟨s.mem, 0, halloc, fun hne => absurd rfl hne, fun _ => hnull⟩
    · obtain ⟨hlow, hhigh⟩ := spots_bounds hmem
      rw [hafter.size] at hhigh
      refine ⟨m', a + headerSize, halloc, fun _ => ?_, fun hzero => ?_⟩
      · exact ⟨a, k, rfl, hafter.laid.load_spot hmem, hsize, hlow, hhigh, hapart⟩
      · rw [headerSize] at hzero
        omega
  · obtain ⟨layout, hlayout⟩ := isSome_iff_exists.mp hp
    obtain ⟨m', _, hdealloc, _⟩ := h.dealloc hlayout
    exact ⟨m', hdealloc⟩

def fiveBytes : Layout :=
  { size := 5, align := 1, isPow := ⟨0, rfl⟩, fits := Nat.le_of_ble_eq_true rfl }

theorem small_region : Region 4 (fun _ => 0) 13 40 :=
  ⟨by decide, by decide, .inl (by decide), by decide⟩

/-- Two allocations, of which the first is written to and freed again. -/
def smallRun : List Event :=
  [.alloc fiveBytes, .alloc fiveBytes, .write 20 4 7, .dealloc 20]

theorem blocks_tile_small_region :
    ∃ s, (State.start 4 (fun _ => 0) 13 40).run 4 smallRun = some s ∧
      ∃ ts, Tiled 4 (regionStart 13 40) (regionSize 13 40) s ts := by
  have hruns : ∃ s, (State.start 4 (fun _ => 0) 13 40).run 4 smallRun = some s := ⟨_, rfl⟩
  obtain ⟨s, hrun⟩ := hruns
  obtain ⟨ts, htiled, _⟩ := blocks_tile_region small_region hrun
  exact ⟨s, hrun, ts, htiled⟩

/-! ## Alignment -/

theorem Sized.total_mod (h : Sized ts) : total ts % align = 0 := by
  induction ts with
  | nil => rfl
  | cons t ts ih =>
    obtain ⟨⟨_, hsize⟩, hrest⟩ := Sized.cons.mp h
    rw [total_cons, Nat.add_mod, hsize, ih hrest]
    rfl

theorem regionStart_mod {base len : Nat} (h : regionSize base len ≠ 0) :
    regionStart base len % align = 0 := by
  rw [regionStart, if_neg h, alignOffset, align]
  omega

theorem Sound.block_mod {base len : Nat} {x : Nat × Nat} {kind : Bool}
    (h : Sound inner (regionStart base len) (regionSize base len) s ts)
    (hx : x ∈ spots kind (regionStart base len) ts) : x.1 % align = 0 := by
  have hpos := spots_size_pos h.laid.sized hx
  have hsize := h.size
  obtain ⟨pre, post, rfl, hstart⟩ := exists_of_mem_spots hx
  rw [total_append, total_cons] at hsize
  dsimp only at hsize
  have hregion : regionStart base len % align = 0 := regionStart_mod (by omega)
  rw [hstart, Nat.add_mod, hregion, (Sized.append.mp h.laid.sized).1.total_mod]
  rfl

/-- A block is aligned to eight bytes and its payload lies four bytes behind, so in every run
`alloc` meets an alignment of up to four, and one of eight only where no block of the free list
is large enough. -/
theorem alloc_aligned_iff {m : Ram} {base len : Nat} (hregion : Region inner m base len)
    {es : List Event} (hrun : (State.start inner m base len).run inner es = some s)
    (layout : Layout) (halign : layout.align ≤ align) :
    ∃ blocks m' p, FreeList s.mem inner blocks ∧
      alloc walkLimit inner s.mem layout = some (m', p) ∧
      (p = 0 ∨ layout.align ∣ p ↔
        (∀ x ∈ blocks, x.2 < headerSize + layout.size) ∨ layout.align ≤ headerSize) := by
  obtain ⟨ts₀, hstart⟩ := sound_start hregion
  obtain ⟨ts, h⟩ := hstart.run hrun
  refine ⟨spots false (regionStart base len) ts, ?_⟩
  rcases h.alloc layout with
    ⟨halloc, hnull⟩ | ⟨m', a, k, ts', halloc, _, hlarge, hmem, _, hafter⟩
  · exact ⟨s.mem, 0, h.tiled.freeList, halloc, iff_of_true (.inl rfl) (.inl (hnull halign))⟩
  · refine ⟨m', a + headerSize, h.tiled.freeList, halloc, ?_⟩
    have hfits : ¬ ∀ x ∈ spots false (regionStart base len) ts, x.2 < headerSize + layout.size := by
      obtain ⟨x, hx, hle⟩ := hlarge
      exact fun hsmall => absurd (hsmall x hx) (Nat.not_lt.mpr hle)
    rw [or_iff_right hfits]
    have hmod : a % align = 0 := hafter.block_mod hmem
    obtain ⟨j, hj⟩ := layout.isPow
    rw [hj, align] at halign
    have hle : j ≤ 3 := (Nat.pow_le_pow_iff_right (by decide : 1 < 2)).mp halign
    rw [hj, headerSize]
    rw [align] at hmod
    obtain rfl | rfl | rfl | rfl : j = 0 ∨ j = 1 ∨ j = 2 ∨ j = 3 := by omega
    all_goals omega

theorem alloc_aligned_small_region :
    ∃ s, (State.start 4 (fun _ => 0) 13 40).run 4 smallRun = some s ∧
      ∃ blocks m' p, FreeList s.mem 4 blocks ∧
        alloc walkLimit 4 s.mem fiveBytes = some (m', p) ∧
        (p = 0 ∨ fiveBytes.align ∣ p ↔
          (∀ x ∈ blocks, x.2 < headerSize + fiveBytes.size) ∨ fiveBytes.align ≤ headerSize) := by
  have hruns : ∃ s, (State.start 4 (fun _ => 0) 13 40).run 4 smallRun = some s := ⟨_, rfl⟩
  obtain ⟨s, hrun⟩ := hruns
  exact ⟨s, hrun, alloc_aligned_iff small_region hrun fiveBytes (by decide)⟩

def eightAligned : Layout :=
  { size := 8, align := 8, isPow := ⟨3, rfl⟩, fits := Nat.le_of_ble_eq_true rfl }

theorem eight_not_aligned :
    Region 4 (fun _ => 0) 13 40 ∧ eightAligned.align ≤ align ∧
      ∃ m', alloc walkLimit 4 (State.start 4 (fun _ => 0) 13 40).mem eightAligned = some (m', 20) ∧
        ¬ (20 = 0 ∨ eightAligned.align ∣ 20) :=
  ⟨small_region, by decide, _, rfl, by decide⟩

end Rcard.Heap
