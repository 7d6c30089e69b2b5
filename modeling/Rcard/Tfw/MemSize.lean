/-
What a linked segment covers in the memory.

The size of a segment in the memory reaches to the end of the regions that the layout has in its
place, so that what follows the data there is zeroed.  The regions are looked for in the first
range of the place alone.  A segment that was linked through another mapping of the place gets no
more than its data, and where the regions end below the segment the difference wraps.
-/
import Rcard.Lib.Fallible
import Rcard.Tfw.Link

namespace Rcard.Tfw

open List Fallible OrdMap Places

variable {ranges : List PlaceRange} {layout : Layout} {host : Option (Nat × Nat)}

/-! ## Where a segment comes from -/

theorem paddr_lt {artifacts : List CompileArtifact} {segments : List Segment}
    (h : collectSegments artifacts = .ok segments) : ∀ s ∈ segments, s.paddr < 2 ^ 32 := by
  refine foldlM_keeps (P := fun segs => ∀ s ∈ segs, s.paddr < 2 ^ 32)
    (fun artifact _ _ _ hpast hstep => ?_) (forall_mem_nil _) h
  rw [pushArtifact] at hstep
  split at hstep
  · cases hstep
  · refine foldlM_keeps (P := fun segs => ∀ s ∈ segs, s.paddr < 2 ^ 32)
      (fun header _ _ _ hpast hstep => ?_) hpast hstep
    have hpaddr := header.pPaddr.toNat_lt
    grind [pushSegment]

theorem grouped_of_segments {segments : List Segment} {groups : Groups}
    (hlow : ∀ s ∈ segments, s.paddr < 2 ^ 32)
    (h : segments.foldlM (groupSegment ranges) [] = .ok groups) :
    ∀ name, ∀ s ∈ groupOf groups name,
      s.paddr < 2 ^ 32 ∧ findPlace ranges s.paddr = some name := by
  refine foldlM_keeps (P := fun groups : Groups => ∀ name, ∀ s ∈ groupOf groups name,
    s.paddr < 2 ^ 32 ∧ findPlace ranges s.paddr = some name)
    (fun s hs groups groups' hpast hstep => ?_) (fun _ _ hs => absurd hs not_mem_nil) h
  rw [groupSegment] at hstep
  split at hstep
  · cases hstep
  · next name hplace =>
    cases hstep
    intro name' t ht
    rw [groupOf, get?_insert] at ht
    split at ht
    · next heq =>
      rcases mem_append.mp ht with hold | hnew
      · exact heq ▸ hpast name t hold
      · rw [mem_singleton.mp hnew, ← heq]
        exact ⟨hlow s hs, hplace⟩
    · exact hpast name' t ht

/-- What the linker makes of the segments of a place. -/
structure Linked (ranges : List PlaceRange) (layout : Layout) (seg : BuilderSegment)
    (r first : PlaceRange) : Prop where
  range : findRange ranges seg.dest.toNat = some r
  searched : (ranges.find? fun r' => r'.name == r.name) = some first
  memSize : seg.memSize = UInt32.ofNat
    (sub64 (memEnd layout first (seg.dest.toNat + seg.data.length)) seg.dest.toNat)

theorem le_highest {segs : List Segment} {s : Segment} (hs : s ∈ segs) :
    s.stop ≤ highest segs := by
  rw [highest]
  rcases hmax : (segs.map Segment.stop).max? with _ | a
  · exact absurd (map_eq_nil_iff.mp (max?_eq_none_iff.mp hmax)) (ne_nil_of_mem hs)
  · exact (max?_eq_some_iff.mp hmax).2 _ (mem_map_of_mem hs)

theorem linked_packPlace {groups : Groups} {name : String} {st st' : Packing}
    (hgrouped : ∀ s ∈ groupOf groups name,
      s.paddr < 2 ^ 32 ∧ findPlace ranges s.paddr = some name)
    (h : packPlace ranges layout host groups st name = .ok st') :
    ∃ seg r first, st'.segments = st.segments ++ [seg] ∧ Linked ranges layout seg r first := by
  unfold packPlace at h
  dsimp only at h
  obtain ⟨_, -, h⟩ := except_bind_eq_ok.mp h
  split at h
  · next first range hfirst hrange =>
    have hmem := mem_of_head? hfirst
    obtain ⟨hlow, hplace⟩ := hgrouped first ((mem_insertionSort _).mp hmem)
    obtain ⟨r, hr, hrname⟩ := Option.map_eq_some_iff.mp hplace
    have hdest : (UInt32.ofNat first.paddr).toNat = first.paddr := UInt32.toNat_ofNat_of_lt' hlow
    have hstop := le_highest hmem
    rw [Segment.stop] at hstop
    split at h
    · cases h
      refine ⟨_, r, range, rfl, hdest.symm ▸ hr, hrname.symm ▸ hrange, ?_⟩
      dsimp only
      rw [mergeSegments, Mem.length_slice, hdest, Nat.add_sub_cancel' (by omega)]
    · cases h
  · cases h

theorem linked_segments {artifacts : List CompileArtifact} {config : AppConfig}
    {image : Option Place} {flashTimestamp : UInt64} {builder : PlacesBuilder}
    {placeLayouts : OrdMap String PlaceLayout}
    (h : linkImage artifacts config layout image flashTimestamp = .ok (builder, placeLayouts)) :
    ∀ seg ∈ builder.segments, ∃ r first, Linked (placeRanges config image) layout seg r first := by
  obtain ⟨segments, hsegments, h⟩ := except_bind_eq_ok.mp h
  split at h
  · cases h
  · obtain ⟨groups, hgroups, h⟩ := except_bind_eq_ok.mp h
    split at h
    · cases h
    · obtain ⟨st, hst, h⟩ := except_bind_eq_ok.mp h
      cases h
      have hgrouped := grouped_of_segments (paddr_lt hsegments) hgroups
      refine foldlM_keeps (P := fun st : Packing => ∀ seg ∈ st.segments,
        ∃ r first, Linked (placeRanges config image) layout seg r first) ?_ (forall_mem_nil _) hst
      intro name _ st st' hpast hstep
      obtain ⟨seg, r, first, hsegs, hlinked⟩ := linked_packPlace (hgrouped name) hstep
      rw [hsegs]
      exact forall_mem_append.mpr ⟨hpast, forall_mem_singleton.mpr ⟨r, first, hlinked⟩⟩

/-! ## How far it reaches -/

/-- The ends that the linker takes the last of: those of the regions that begin in the range,
or that of the data if there are none. -/
def ends (layout : Layout) (range : PlaceRange) (stop : Nat) : List Nat :=
  let inside := layout.placed.values.filter fun a =>
    decide (range.start ≤ a.base) && decide (a.base < range.stop)
  if inside = [] then [stop] else inside.map fun a => a.base + a.size

theorem memEnd_spec (hwidth : ∀ a ∈ layout.placed.values, a.base + a.size < 2 ^ 32)
    (range : PlaceRange) (stop : Nat) :
    memEnd layout range stop ∈ ends layout range stop ∧
      ∀ e ∈ ends layout range stop, e ≤ memEnd layout range stop := by
  rw [memEnd, ends]
  generalize hregions : (layout.placed.values.filter fun a =>
    decide (range.start ≤ a.base) && decide (a.base < range.stop)) = regions
  have hadd : ∀ a ∈ regions, add64 a.base a.size = a.base + a.size := fun a ha =>
    Nat.mod_eq_of_lt (Nat.lt_trans (hwidth a (mem_filter.mp (hregions ▸ ha)).1) (by decide))
  rw [map_congr_left hadd]
  split
  · next hnone => simp [hnone]
  · next hsome =>
    rcases hmax : (regions.map fun a => a.base + a.size).max? with _ | e
    · exact absurd (map_eq_nil_iff.mp (max?_eq_none_iff.mp hmax)) hsome
    · rw [hmax]
      exact max?_eq_some_iff.mp hmax

theorem lt_or_eq_of_mem_ends (hwidth : ∀ a ∈ layout.placed.values, a.base + a.size < 2 ^ 32)
    {range : PlaceRange} {stop e : Nat} (he : e ∈ ends layout range stop) :
    e < 2 ^ 32 ∨ e = stop := by
  rw [ends] at he
  split at he
  · exact .inr (mem_singleton.mp he)
  · obtain ⟨a, ha, rfl⟩ := mem_map.mp he
    exact .inl (hwidth a (mem_filter.mp ha).1)

/-- For the range of the segment and the first range of its place: the segment covers its data and
all regions of its place at or above its address, it ends in its range, and the difference that
its size is made of does not wrap. -/
structure CoversPlace (layout : Layout) (seg : BuilderSegment) (r first : PlaceRange) : Prop where
  data : seg.data.length ≤ seg.memSize.toNat
  regions : ∀ a ∈ layout.placed.values, 0 < a.size → seg.dest.toNat ≤ a.base → a.base < r.stop →
    a.base + a.size ≤ seg.dest.toNat + seg.memSize.toNat
  inside : seg.dest.toNat + seg.memSize.toNat ≤ r.stop
  noWrap : seg.dest.toNat ≤ memEnd layout first (seg.dest.toNat + seg.data.length)

/-- For data at an address: of the ends in the first range of its place one is not below the
address, all are in the range of the address, and no region there goes further. -/
@[mk_iff]
structure Straight (layout : Layout) (dest length : Nat) (r first : PlaceRange) : Prop where
  above : ∃ e ∈ ends layout first (dest + length), dest ≤ e
  reached : ∀ a ∈ layout.placed.values, 0 < a.size → dest ≤ a.base → a.base < r.stop →
    ∃ e ∈ ends layout first (dest + length), a.base + a.size ≤ e
  inside : ∀ e ∈ ends layout first (dest + length), e ≤ r.stop

instance (layout : Layout) (dest length : Nat) (r first : PlaceRange) :
    Decidable (Straight layout dest length r first) :=
  decidable_of_iff _ (straight_iff layout dest length r first).symm

theorem Linked.covers_iff {seg : BuilderSegment} {r first : PlaceRange}
    (h : Linked ranges layout seg r first)
    (hwidth : ∀ a ∈ layout.placed.values, a.base + a.size < 2 ^ 32) :
    CoversPlace layout seg r first ↔
      Straight layout seg.dest.toNat seg.data.length r first := by
  obtain ⟨hmem, hle⟩ := memEnd_spec hwidth first (seg.dest.toNat + seg.data.length)
  have hreach : seg.dest.toNat ≤ memEnd layout first (seg.dest.toNat + seg.data.length) →
      seg.dest.toNat + seg.memSize.toNat =
        memEnd layout first (seg.dest.toNat + seg.data.length) := by
    intro hwrap
    have hdest := seg.dest.toNat_lt
    have hfits := seg.fits
    have hlast := lt_or_eq_of_mem_ends hwidth hmem
    rw [h.memSize, UInt32.toNat_ofNat'] at hfits ⊢
    unfold sub64 at hfits ⊢
    omega
  refine ⟨fun hcovers => ?_, fun hstraight => ?_⟩
  · have hlast := hreach hcovers.noWrap
    refine ⟨⟨_, hmem, hcovers.noWrap⟩, fun a ha hpos hlow hhigh => ⟨_, hmem, ?_⟩, fun e he => ?_⟩
    · rw [← hlast]
      exact hcovers.regions a ha hpos hlow hhigh
    · exact Nat.le_trans (hle e he) (hlast ▸ hcovers.inside)
  · obtain ⟨e, he, habove⟩ := hstraight.above
    have hwrap := Nat.le_trans habove (hle e he)
    have hlast := hreach hwrap
    refine ⟨seg.fits, fun a ha hpos hlow hhigh => ?_, hlast ▸ hstraight.inside _ hmem, hwrap⟩
    obtain ⟨e, he, hend⟩ := hstraight.reached a ha hpos hlow hhigh
    rw [hlast]
    exact Nat.le_trans hend (hle e he)

namespace Image

/-- An ELF file with one segment behind the other, from offset 64 on. -/
def elf (loads : List (UInt32 × List UInt8)) : Elf where
  data := replicate 64 0 ++ (loads.map Prod.snd).flatten
  headers := loads.zipIdx.map fun p =>
    ⟨ptLoad, UInt32.ofNat (64 + ((loads.take p.2).map fun l => l.2.length).sum), p.1.1,
      UInt32.ofNat p.1.2.length⟩

def flash : Place := ⟨0x400, [⟨0x12000000, 0x400, true⟩], none, false, some "flash"⟩

def sram : Place := ⟨0x100, [⟨0x20000000, 0x100, true⟩], none, false, some "sram"⟩

def app (places : OrdMap String Place) : AppConfig where
  version := some "1.2.3"
  places
  filesystems := []
  bootloader := none
  kernel := []
  entries := []

def kernelAt (base size : Nat) : Layout := ⟨[(⟨"kernel", "code"⟩, ⟨base, size⟩)], [], []⟩

/-- Code in the flash in a longer region, and data in a memory that the layout has nothing in. -/
def files : List CompileArtifact :=
  [⟨"kernel", .ok (elf [(0x12000010, replicate 0x20 0xC0), (0x20000000, [1, 2, 3])])⟩]

def board : AppConfig := app [("flash", flash), ("sram", sram)]

/-- A flash with a second mapping below the first. -/
def aliased : Place :=
  ⟨0x40, [⟨0x62000000, 0x40, false⟩, ⟨0x12000000, 0x40, true⟩], none, false, some "flash"⟩

end Image

end Rcard.Tfw
