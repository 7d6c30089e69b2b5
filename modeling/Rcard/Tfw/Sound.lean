/-
The allocations of a layout are sound.

A later call starts from cursors it builds from what is placed.  They stand past every spot of
the places it uses (`tracked_start`), because a spot it would pass over belongs to the same
call, and between two calls no spot belongs to a call that still has regions to place.

At the end there are two boards: one whose tasks and kernel run from different places, and one
where they share a place that is executed through another mapping than the one its cursor is
kept in.  On the second the kernel is placed over the task.
-/
import Rcard.Tfw.Solve

namespace Rcard.Tfw

open List OrdMap Option PlaceCursor

open Fallible

variable {Phys : Type} {config : AppConfig} {reservations : Reservations}
  {spots : OrdMap RegionKey Spot} {P : RegionKey → RegionRequest → Prop}

/-! ## The cursors of a later call -/

def pastAll (allocs : List Allocation) (pc : PlaceCursor) : PlaceCursor :=
  allocs.foldl PlaceCursor.past pc

/-- Whether the cursor is moved by an allocation depends on its bounds alone. -/
def PlaceCursor.Sees (pc : PlaceCursor) (a : Allocation) : Prop :=
  pc.base ≤ a.base ∧ a.base < pc.endAddr

theorem past_spec (pc : PlaceCursor) (a : Allocation) :
    (pc.past a).base = pc.base ∧ (pc.past a).endAddr = pc.endAddr ∧
      pc.cursor ≤ (pc.past a).cursor ∧
      (pc.Sees a → add64 a.base a.size ≤ (pc.past a).cursor) ∧
      ((pc.past a).cursor = pc.cursor ∨ pc.Sees a ∧ (pc.past a).cursor = add64 a.base a.size) := by
  grind [past, Sees]

theorem pastAll_spec (allocs : List Allocation) (pc : PlaceCursor) :
    (pastAll allocs pc).base = pc.base ∧ (pastAll allocs pc).endAddr = pc.endAddr ∧
      pc.cursor ≤ (pastAll allocs pc).cursor ∧
      (∀ a ∈ allocs, pc.Sees a → add64 a.base a.size ≤ (pastAll allocs pc).cursor) ∧
      ∀ bound, pc.cursor ≤ bound → (∀ a ∈ allocs, pc.Sees a → add64 a.base a.size ≤ bound) →
        (pastAll allocs pc).cursor ≤ bound := by
  induction allocs generalizing pc with
  | nil => exact ⟨rfl, rfl, Nat.le_refl _, forall_mem_nil _, fun _ h _ => h⟩
  | cons a allocs ih =>
    obtain ⟨hbase, hend, hmono, hseen, hcursor⟩ := past_spec pc a
    obtain ⟨ihbase, ihend, ihmono, ihseen, ihbound⟩ := ih (pc.past a)
    have hsees : ∀ a', (pc.past a).Sees a' ↔ pc.Sees a' := by
      intro a'
      rw [Sees, Sees, hbase, hend]
    refine ⟨ihbase.trans hbase, ihend.trans hend, Nat.le_trans hmono ihmono, ?_, ?_⟩
    · grind [add64, pastAll]
    · intro bound hstart hall
      refine ihbound bound ?_ fun a' ha' h' =>
        hall a' (mem_cons_of_mem a ha') ((hsees a').mp h')
      grind

theorem get?_advanceCursorsPast (placed : OrdMap RegionKey Allocation) (cursors : CursorMap)
    (key : Nat) :
    (advanceCursorsPast placed cursors).get? key =
      (cursors.get? key).map (pastAll placed.values) := by
  unfold advanceCursorsPast pastAll
  generalize placed.values = allocs
  induction allocs generalizing cursors with
  | nil => exact map_id'.symm ▸ rfl
  | cons a allocs ih =>
    rw [foldl_cons, ih, get?_mapValues, Option.map_map]
    rfl

theorem get?_ensureCursor (reservations : Reservations) (place : Place) (cursors : CursorMap)
    (key : Nat) :
    (ensureCursor place cursors reservations).get? key =
      (cursors.get? key).or (if placeKey place = key then
        (resolveCpuAddress place false).map (.seed · place reservations) else none) := by
  unfold ensureCursor
  split
  · next hc => rw [hc, map_none, ite_self, or_none]
  · next c hc =>
      split
      · grind
      · next hnone =>
          rw [get?_insert]
          grind

/-- Seeding gives each place that a region uses a new cursor. -/
theorem get?_ensureCursors (hreg : Regular config) (memory : Memory Phys config)
    {place : Place} {c : Nat} (hplace : place ∈ config.used)
    (hc : resolveCpuAddress place false = some c) {regions : List Region}
    (hused : ∀ r ∈ regions, r.place ∈ config.used) {cursors : CursorMap}
    (hcursors : ∀ pc ∈ cursors.get? c, pc = .seed c place reservations)
    (hsome : (cursors.get? c).isSome = true ∨ ∃ r ∈ regions, r.place = place) :
    (regions.foldl (fun cursors r => ensureCursor r.place cursors reservations) cursors).get? c =
      some (.seed c place reservations) := by
  induction regions generalizing cursors with
  | nil =>
    rcases hsome with hsome | ⟨_, hr, _⟩
    · obtain ⟨pc, hpc⟩ := isSome_iff_exists.mp hsome
      rw [foldl_nil, hpc, hcursors pc hpc]
    · cases hr
  | cons r regions ih =>
    have hget := get?_ensureCursor reservations r.place cursors c
    refine ih (fun r' hr' => hused r' (mem_cons_of_mem r hr')) ?_ ?_
    · intro pc hpc
      rw [mem_def, hget, or_eq_some_iff] at hpc
      rcases hpc with hold | ⟨_, hnew⟩
      · exact hcursors pc hold
      · split at hnew
        · next hkey =>
            obtain ⟨d, hd, rfl⟩ := map_eq_some_iff.mp hnew
            rw [placeKey_eq hd] at hkey
            subst hkey
            rw [hreg.place_eq memory (hused r mem_cons_self) hplace hd hc]
        · cases hnew
    · grind [placeKey]

/-! ## The deferred regions -/

/-- What a call measures: no size that makes a sum wrap, and some content for each region that is
to be aligned, since one without is put at the cursor as it stands. -/
structure Measured (config : AppConfig) (pass : Pass) (measured : OrdMap RegionKey Nat) :
    Prop where
  small : ∀ q ∈ measured, q.2 ≤ 2 ^ 62
  filled : ∀ p ∈ config.requests, p.2.Deferred → pass.covers p.1 = true → p.2.align ≠ none →
    (measured.get? p.1).getD 0 ≠ 0

/-- The regions a call makes of the deferred requests it covers. -/
def RegionsFrom (config : AppConfig) (deferred : OrdMap RegionKey RegionRequest)
    (regions : List Region) : Prop :=
  ∀ r ∈ regions, ∃ request, (r.key, request) ∈ deferred ∧ r.Serves config request

section Deferred

variable {deferred : OrdMap RegionKey RegionRequest} {measured : OrdMap RegionKey Nat}
  {regions : List Region}
variable {p : RegionKey × RegionRequest}

theorem RegionsFrom.pushRegion (hpower : PowerAligned config) (hp : p ∈ deferred)
    (hasked : p ∈ config.requests) (hdeferred : p.2.Deferred)
    (h : RegionsFrom config deferred regions) {size : Nat} (hsize : size ≤ 2 ^ 62)
    (hfilled : p.2.align ≠ none → size ≠ 0) :
    RegionsFrom config deferred (pushRegion regions p size) := by
  unfold Tfw.pushRegion
  split
  · exact h
  · next place hplace =>
      split
      · exact h
      · next hmapped =>
          rw [Bool.not_eq_true', Bool.not_eq_false] at hmapped
          refine forall_mem_append.mpr ⟨h, forall_mem_singleton.mpr ?_⟩
          exact ⟨p.2, hp, serves_of_request hpower hasked hdeferred.1 hplace hmapped hsize
            (fun _ => hfilled) (k := 5) (by omega)⟩

theorem RegionsFrom.measureRegion (hpower : PowerAligned config)
    (hdeferred : ∀ q ∈ deferred, q ∈ config.requests ∧ q.2.Deferred) {pass : Pass}
    (hmeasured : Measured config pass measured) (hp : p ∈ deferred)
    (hcovers : pass.covers p.1 = true) {regions' : List Region}
    (h : RegionsFrom config deferred regions)
    (hstep : measureRegion measured regions p = .ok regions') :
    RegionsFrom config deferred regions' := by
  obtain ⟨hasked, hsized⟩ := hdeferred p hp
  have hfilled := hmeasured.filled p hasked hsized hcovers
  unfold Tfw.measureRegion at hstep
  split at hstep
  · next size hget =>
      cases hstep
      rw [hget, getD_some] at hfilled
      exact h.pushRegion hpower hp hasked hsized (hmeasured.small _ (mem_of_get? hget)) hfilled
  · next hget =>
      split at hstep
      · cases hstep
      · cases hstep
        rw [hget] at hfilled
        exact h.pushRegion hpower hp hasked hsized (Nat.zero_le _) hfilled

section

variable (hreg : Regular config)
include hreg

/-- An allocation that a place's cursor sees ends inside the place. -/
theorem seen_le (memory : Memory Phys config) (harranged : Arranged config reservations spots)
    {place : Place} {c : Nat} (hplace : place ∈ config.used)
    (hc : resolveCpuAddress place false = some c) {p : RegionKey × Spot} (hp : p ∈ spots)
    (hsees : (PlaceCursor.seed c place reservations).Sees p.2.alloc) :
    add64 p.2.alloc.base p.2.alloc.size ≤ c + place.room reservations := by
  obtain ⟨hlow, hhigh⟩ := hsees
  rw [seed_endAddr (hreg.small place hplace) hc] at hhigh
  replace hlow : c ≤ p.2.alloc.base := hlow
  have hvalid := harranged.valid p hp
  have hsmall := hreg.small _ hvalid.used
  have hroom := place.room_le reservations
  have hinside := hvalid.inside
  have hproom := p.2.place.room_le reservations
  obtain ⟨d, hd, hbase⟩ := hvalid.base_eq hsmall
  have hdlast := resolve_add_le hsmall hd
  have hsize : p.2.alloc.size = p.2.size := rfl
  rw [add64_of_lt (by omega)]
  rcases Nat.eq_zero_or_pos p.2.size with hzero | hpos
  · omega
  · -- the cell behind the address is in both places
    obtain ⟨hsame, hoffset⟩ := memory.place_eq hvalid.used hplace hsmall
      (hreg.small place hplace) hd hc (x := p.2.start) (y := p.2.alloc.base - c) (by omega)
      (by omega) (by omega)
    rw [hsame] at hinside
    omega

/-- A spot of a place that a later call uses has the address its cursor is kept in. -/
theorem resolve_execute_eq (harranged : Arranged config reservations spots)
    (hfresh : ∀ p ∈ spots, ∀ q ∈ deferred, phase p.1 p.2.request ≠ phase q.1 q.2)
    {q : RegionKey × RegionRequest} (hq : q ∈ deferred) (hasked : q ∈ config.requests)
    (hdeferred : q.2.Deferred) {p : RegionKey × Spot} (hp : p ∈ spots)
    (hplace : q.2.place = some p.2.place) :
    resolveCpuAddress p.2.place p.2.execute = resolveCpuAddress p.2.place false := by
  have hvalid := harranged.valid p hp
  rcases hexec : p.2.execute with _ | _
  · rfl
  · by_contra hne
    obtain ⟨hshared, hown, hexecute⟩ := hvalid.executes hexec
    exact hfresh p hp q hq (hreg.onePass _ hvalid.asked q hasked hshared hexecute hdeferred _
      hvalid.used hown hplace hne)

/-- The cursors a call starts with stand past every spot of the places it uses. -/
theorem tracked_start (memory : Memory Phys config) (harranged : Arranged config reservations spots)
    (hfresh : ∀ p ∈ spots, ∀ q ∈ deferred, phase p.1 p.2.request ≠ phase q.1 q.2)
    (hdeferred : ∀ q ∈ deferred, q ∈ config.requests ∧ q.2.Deferred)
    (hregions : RegionsFrom config deferred regions) :
    Tracked reservations (fun place => ∃ r ∈ regions, r.place = place) spots
      (advanceCursorsPast (spots.mapValues Spot.alloc)
        (regions.foldl (fun cursors r => ensureCursor r.place cursors reservations) [])) := by
  rintro _ c ⟨r, hr, rfl⟩ hc
  have hused : ∀ r ∈ regions, r.place ∈ config.used := by
    intro r hr
    obtain ⟨_, _, hserves⟩ := hregions r hr
    exact hserves.used
  have hsmall := hreg.small _ (hused r hr)
  have hseeded : (regions.foldl (fun cursors r => ensureCursor r.place cursors reservations)
      []).get? c = some (.seed c r.place reservations) :=
    get?_ensureCursors hreg memory (hused r hr) hc hused (fun _ h => nomatch h) (.inr ⟨r, hr, rfl⟩)
  rw [cursorOf, get?_advanceCursorsPast, placeKey_eq hc, hseeded, map_some]
  obtain ⟨hbase, hend, hlow, hseen, hbound⟩ :=
    pastAll_spec (spots.mapValues Spot.alloc).values (.seed c r.place reservations)
  refine ⟨hbase, hend.trans (seed_endAddr hsmall hc), hlow, ?_, ?_⟩
  · refine hbound _ (Nat.le_add_right c _) fun a ha hsees => ?_
    obtain ⟨p, hp, rfl⟩ := mem_values_mapValues.mp ha
    exact seen_le hreg memory harranged (hused r hr) hc hp hsees
  · intro p hp hplace hsize
    obtain ⟨request, hrequest, hserves⟩ := hregions r hr
    obtain ⟨hasked, hlinked⟩ := hdeferred _ hrequest
    have hvalid := harranged.valid p hp
    obtain ⟨d, hd, hpbase⟩ := hvalid.base_eq (hplace ▸ hsmall)
    rw [resolve_execute_eq hreg harranged hfresh hrequest hasked hlinked hp
      (hplace ▸ hserves.place), hplace, hc] at hd
    cases hd
    have hinside := hvalid.inside
    have hroom := r.place.room_le reservations
    have hlast := resolve_add_le hsmall hc
    rw [hplace] at hinside
    have hsees : (seed c r.place reservations).Sees p.2.alloc := by
      rw [Sees, seed_endAddr hsmall hc]
      exact ⟨hpbase ▸ Nat.le_add_right c _, by omega⟩
    have hpast := hseen _ (mem_values_mapValues.mpr ⟨p, hp, rfl⟩) hsees
    have hpsize : p.2.alloc.size = p.2.size := rfl
    rw [hpbase, add64_of_lt (by omega)] at hpast
    exact hpast

theorem Good.resolveRegions (memory : Memory Phys config)
    (hregions : ∀ r ∈ regions, ∃ request, r.Serves config request ∧ request.Deferred ∧
      P r.key request) {st st' : OrdMap RegionKey Allocation × CursorMap}
    (h : Good config reservations (fun place => ∃ r ∈ regions, r.place = place) P st.1 st.2)
    (hst : (regions.insertionSort Region.before).foldlM (Tfw.resolveRegion reservations) st =
      .ok st') :
    Good config reservations (fun place => ∃ r ∈ regions, r.place = place) P st'.1 st'.2 := by
  refine foldlM_keeps (P := fun st : OrdMap RegionKey Allocation × CursorMap =>
    Good config reservations (fun place => ∃ r ∈ regions, r.place = place) P st.1 st.2) ?_ h hst
  intro r hr st st' hgood hstep
  replace hr := (mem_insertionSort _).mp hr
  obtain ⟨request, hserves, hdeferred, hP⟩ := hregions r hr
  refine hgood.resolveRegion hreg memory ?_ hserves hdeferred ⟨r, hr, rfl⟩ hP hstep
  rintro _ ⟨r', hr', rfl⟩
  obtain ⟨_, hserves', _⟩ := hregions r' hr'
  exact hserves'.used

end

/-- What a call leaves in `deferred` is of another phase than what it places. -/
theorem phase_ne_of_covers {pass : Pass} {q : RegionKey × RegionRequest} (hp : p.2.Deferred)
    (hcovers : pass.covers p.1 = true) (hq : q.2.Deferred) (hnot : (!pass.covers q.1) = true) :
    phase p.1 p.2 ≠ phase q.1 q.2 := by
  rw [phase, phase, if_pos hp, if_pos hq, (covers_iff pass p.1).mp hcovers]
  intro heq
  rw [(covers_iff pass q.1).mpr (some.inj heq).symm] at hnot
  cases hnot

theorem Sound.resolvePass (hreg : Regular config) (hpower : PowerAligned config)
    (memory : Memory Phys config) {pass : Pass} (hmeasured : Measured config pass measured)
    {layout layout' : Layout} (h : Sound config reservations layout)
    (hcall : layout.resolvePass pass measured reservations = .ok layout') :
    Sound config reservations layout' := by
  obtain ⟨spots, hplaced, harranged, hfresh, hdeferred⟩ := h
  obtain ⟨_, hresolve, hok⟩ := except_bind_eq_ok.mp hcall
  cases hok
  obtain ⟨regions, hregions, hresolve⟩ := except_bind_eq_ok.mp hresolve
  obtain ⟨st, hst, hok⟩ := except_bind_eq_ok.mp hresolve
  cases hok
  have hcovered : ∀ q ∈ layout.deferred.filter fun p => pass.covers p.1,
      q ∈ layout.deferred ∧ pass.covers q.1 = true := fun q hq => mem_filter.mp hq
  have hleft : ∀ q ∈ layout.deferred.filter fun p => !pass.covers p.1,
      q ∈ layout.deferred ∧ (!pass.covers q.1) = true := fun q hq => mem_filter.mp hq
  have hfrom : RegionsFrom config (layout.deferred.filter fun p => pass.covers p.1) regions :=
    foldlM_keeps (P := RegionsFrom config (layout.deferred.filter fun p => pass.covers p.1))
      (fun p hp _ _ hfrom hstep => hfrom.measureRegion hpower
        (fun q hq => hdeferred q (hcovered q hq).1) hmeasured hp (hcovered p hp).2 hstep)
      (forall_mem_nil _) hregions
  have hstart := tracked_start hreg memory harranged
    (fun p hp q hq => hfresh p hp q (hcovered q hq).1)
    (fun q hq => hdeferred q (hcovered q hq).1) hfrom
  rw [hplaced] at hst
  -- the new spots are kept apart from what stays deferred, as the old ones were
  obtain ⟨spots', hplaced', harranged', _, hfresh'⟩ :=
    Good.resolveRegions (P := fun key request => ∀ q ∈ layout.deferred.filter fun p =>
        !pass.covers p.1, phase key request ≠ phase q.1 q.2) hreg memory
      (fun r hr => by
        obtain ⟨request, hrequest, hserves⟩ := hfrom r hr
        obtain ⟨hmem, hcovers⟩ := hcovered _ hrequest
        refine ⟨request, hserves, (hdeferred _ hmem).2, fun q hq => ?_⟩
        obtain ⟨hqmem, hnot⟩ := hleft q hq
        exact phase_ne_of_covers (p := (r.key, request)) (hdeferred _ hmem).2 hcovers
          (hdeferred q hqmem).2 hnot)
      ⟨spots, rfl, harranged, hstart, fun p hp q hq => hfresh p hp q (hleft q hq).1⟩ hst
  exact ⟨spots', hplaced', harranged', hfresh', fun q hq => hdeferred q (hleft q hq).1⟩

end Deferred

/-! ## Any order of the calls -/

theorem Pass.resolve_eq (pass : Pass) : pass.resolve = Layout.resolvePass pass := by
  cases pass <;> rfl

theorem layOut_sound (hreg : Regular config) (hpower : PowerAligned config)
    (memory : Memory Phys config) {calls : List (Pass × OrdMap RegionKey Nat)}
    (hmeasured : ∀ call ∈ calls, Measured config call.1 call.2) {layout : Layout}
    (h : layOut config reservations calls = .ok layout) : Sound config reservations layout := by
  obtain ⟨layout₀, hsolve, hcalls⟩ := except_bind_eq_ok.mp h
  exact foldlM_keeps (P := Sound config reservations) (fun call hcall _ _ hsound hstep => by
      rw [Pass.resolve_eq] at hstep
      exact hsound.resolvePass hreg hpower memory (hmeasured call hcall) hstep)
    (solve_sound hreg hpower memory hsolve) hcalls

/-- Two regions that some requests of a shared group stand for. -/
def AppConfig.Grouped (config : AppConfig) (key key' : RegionKey) : Prop :=
  ∃ r r', (key, r) ∈ config.requests ∧ (key', r') ∈ config.requests ∧ SameGroup r r'

/-- Whatever the later calls and their order, regions that are not of one shared group have no
byte of memory in common, and each lies inside its place, short of what is reserved there,
aligned, at an address of a mapping of the kind it asks for. -/
theorem allocations_sound (config : AppConfig) (reservations : Reservations)
    (memory : Memory Phys config) (hpower : PowerAligned config) (hreg : Regular config)
    (calls : List (Pass × OrdMap RegionKey Nat))
    (hmeasured : ∀ call ∈ calls, Measured config call.1 call.2) (layout : Layout)
    (h : layOut config reservations calls = .ok layout) :
    (∀ p ∈ layout.placed, ∀ q ∈ layout.placed, p.1 ≠ q.1 → ¬config.Grouped p.1 q.1 →
      ∀ i < p.2.size, ∀ j < q.2.size, memory.phys (p.2.base + i) ≠ memory.phys (q.2.base + j)) ∧
    ∀ p ∈ layout.placed, ∃ request place mapping start,
      Sits config reservations p.1 p.2 request place mapping start := by
  obtain ⟨spots, hplaced, harranged, _, _⟩ := layOut_sound hreg hpower memory hmeasured h
  rw [hplaced]
  constructor
  · rintro ⟨key, a⟩ hp ⟨key', b⟩ hq hne hgroup i hi j hj
    obtain ⟨s, hs, rfl⟩ := mem_mapValues.mp hp
    obtain ⟨t, ht, rfl⟩ := mem_mapValues.mp hq
    refine harranged.disjoint hreg.small memory hs ht hne (fun hsame => hgroup ?_) hi hj
    exact ⟨s.request, t.request, (harranged.valid _ hs).asked, (harranged.valid _ ht).asked, hsame⟩
  · rintro ⟨key, a⟩ hp
    obtain ⟨s, hs, rfl⟩ := mem_mapValues.mp hp
    have hvalid := harranged.valid _ hs
    obtain ⟨mapping, hsits⟩ := hvalid.sits (hreg.small _ hvalid.used)
    exact ⟨s.request, s.place, mapping, s.start, hsits⟩

/-! ## Two boards -/

namespace Board

def psram : Place :=
  ⟨0x100000, [⟨0x60000000, 0x100000, false⟩, ⟨0x10000000, 0x100000, true⟩], none, false,
    some "psram"⟩

def sram : Place := ⟨0x8000, [⟨0x20000000, 0x10000, true⟩], some 0x8000, false, some "sram"⟩

/-- A chip and an offset into it. -/
def phys (address : Nat) : Bool × Nat :=
  if address < 0x20000000 then (false, address - 0x10000000)
  else if address < 0x60000000 then (true, address - 0x20008000)
  else (false, address - 0x60000000)

def cell (place : Place) (x : Nat) : Bool × Nat := (decide (place = sram), x)

def Only (places : List Place) : Prop := ∀ place ∈ places, place = psram ∨ place = sram

instance (places : List Place) : Decidable (Only places) := List.decidableBAll _ _

theorem phys_psram {x : Nat} (hx : x < 0x100000) :
    phys (0x60000000 + x) = (false, x) ∧ phys (0x10000000 + x) = (false, x) := by
  grind [phys]

variable {places : List Place}

theorem shown (h : Only places) :
    ∀ place ∈ places, ∀ m ∈ place.mappings, place.Fits m → ∀ x < place.size,
      phys (m.address + place.start + x) = cell place x := by
  intro place hplace m hm _ x hx
  rcases h place hplace with rfl | rfl
  · simp only [psram, mem_cons, not_mem_nil, or_false] at hm
    rcases hm with rfl | rfl
    · exact (phys_psram hx).1
    · exact (phys_psram hx).2
  grind [phys, Place.start, sram, cell]

theorem apart (h : Only places) :
    ∀ p ∈ places, ∀ q ∈ places, ∀ x < p.size, ∀ y < q.size, cell p x = cell q y →
      p = q ∧ x = y := by
  intro p hp q hq x _ y _ hcell
  obtain ⟨hchip, hoffset⟩ := Prod.mk.inj hcell
  refine ⟨?_, hoffset⟩
  rcases h p hp with rfl | rfl <;> rcases h q hq with rfl | rfl
  · rfl
  · exact absurd hchip (by decide +kernel)
  · exact absurd hchip (by decide +kernel)
  · rfl

def memory (config : AppConfig) (h : Only config.used) : Memory (Bool × Nat) config :=
  ⟨phys, cell, shown h, apart h⟩

def code (place : Place) : RegionRequest := ⟨some place, none, none, none, true⟩

/-- Tasks run from the external memory, the kernel from the internal one. -/
def split : AppConfig where
  version := none
  places := [("psram", psram), ("sram", sram)]
  filesystems := []
  bootloader := none
  kernel := [("code", { code sram with align := some 0x800 }),
    ("stack", ⟨some sram, some 0x400, some 0x400, none, false⟩)]
  entries := [
    .mk "app" [("code", code psram), ("ring", ⟨some sram, some 0x100, none, some "log", false⟩)]
      [.mk "sink" [("ring", ⟨none, none, some 0x40, some "log", false⟩)] []]]

def splitCalls : List (Pass × OrdMap RegionKey Nat) :=
  [(.kernel, [(⟨"kernel", "code"⟩, 0x1234)]), (.tasks, [(⟨"app", "code"⟩, 0x4000)])]

def splitPlaced : OrdMap RegionKey Allocation :=
  [(⟨"app", "code"⟩, ⟨0x10000000, 0x4000⟩), (⟨"app", "ring"⟩, ⟨0x20008000, 0x100⟩),
    (⟨"kernel", "code"⟩, ⟨0x20008800, 0x1234⟩), (⟨"kernel", "stack"⟩, ⟨0x20008400, 0x400⟩),
    (⟨"sink", "ring"⟩, ⟨0x20008000, 0x100⟩)]

theorem split_only : Only split.used := by decide +kernel

theorem small_of_only (h : Only places) : ∀ place ∈ places, place.Small ∧ 0 < place.size := by
  intro place hplace
  rcases h place hplace with rfl | rfl
  · exact ⟨⟨by decide, by decide⟩, by decide⟩
  · exact ⟨⟨by decide, by decide⟩, by decide⟩

theorem split_regular : Regular split where
  small place hplace := (small_of_only split_only place hplace).1
  sizes := by decide +kernel
  nonempty place hplace := (small_of_only split_only place hplace).2
  grounded := by decide +kernel
  plain := by decide +kernel
  mapped := by decide +kernel
  onePass := by decide +kernel

theorem split_measured : ∀ call ∈ splitCalls, Measured split call.1 call.2 := by
  have hsmall : ∀ call ∈ splitCalls, ∀ q ∈ call.2, q.2 ≤ 2 ^ 62 := by decide
  have hfilled : ∀ call ∈ splitCalls, ∀ p ∈ split.requests, p.2.Deferred →
      call.1.covers p.1 = true → p.2.align ≠ none → (call.2.get? p.1).getD 0 ≠ 0 := by
    decide +kernel
  exact fun call hcall => ⟨hsmall call hcall, hfilled call hcall⟩

theorem allocations_sound_split : ∃ layout,
    layOut split [] splitCalls = .ok layout ∧ layout.placed = splitPlaced ∧
    (∀ p ∈ splitPlaced, ∀ q ∈ splitPlaced, p.1 ≠ q.1 → ¬split.Grouped p.1 q.1 →
      ∀ i < p.2.size, ∀ j < q.2.size, phys (p.2.base + i) ≠ phys (q.2.base + j)) ∧
    ∀ p ∈ splitPlaced, ∃ request place mapping start,
      Sits split [] p.1 p.2 request place mapping start := by
  have hrun : (layOut split [] splitCalls).toOption.map Layout.placed = some splitPlaced := by
    decide +kernel
  obtain ⟨layout, hlayout, hplaced⟩ := ok_of_toOption_map hrun
  refine ⟨layout, hlayout, hplaced, ?_⟩
  rw [← hplaced]
  exact allocations_sound split [] (memory split split_only)
    (by unfold PowerAligned; decide +kernel) split_regular splitCalls split_measured layout hlayout

/-- Tasks and kernel both run from the external memory. -/
def crowded : AppConfig where
  version := none
  places := [("psram", psram)]
  filesystems := []
  bootloader := none
  kernel := [("code", code psram)]
  entries := [.mk "app" [("code", code psram)] []]

def crowdedCalls : List (Pass × OrdMap RegionKey Nat) :=
  [(.tasks, [(⟨"app", "code"⟩, 0x4000)]), (.kernel, [(⟨"kernel", "code"⟩, 0x2000)])]

theorem crowded_only : Only crowded.used := by decide +kernel

def crowdedPlaced : OrdMap RegionKey Allocation :=
  [(⟨"app", "code"⟩, ⟨0x10000000, 0x4000⟩), (⟨"kernel", "code"⟩, ⟨0x10000000, 0x2000⟩)]

/-- The code of the task has an executable address, so the call for the kernel starts at the
bottom of the place again. -/
theorem kernel_code_over_task_code : ∃ layout,
    layOut crowded [] crowdedCalls = .ok layout ∧ PowerAligned crowded ∧
    ¬∀ p ∈ layout.placed, ∀ q ∈ layout.placed, p.1 ≠ q.1 → ¬crowded.Grouped p.1 q.1 →
      ∀ i < p.2.size, ∀ j < q.2.size, (memory crowded crowded_only).phys (p.2.base + i) ≠
        (memory crowded crowded_only).phys (q.2.base + j) := by
  have hrun : (layOut crowded [] crowdedCalls).toOption.map Layout.placed =
      some crowdedPlaced := by decide +kernel
  obtain ⟨layout, hlayout, hplaced⟩ := ok_of_toOption_map hrun
  have hunshared : ∀ p ∈ crowded.requests, p.2.shared = none := by decide +kernel
  refine ⟨layout, hlayout, by unfold PowerAligned; decide +kernel, fun hdisjoint => ?_⟩
  rw [hplaced] at hdisjoint
  refine hdisjoint (⟨"app", "code"⟩, ⟨0x10000000, 0x4000⟩) (by decide)
    (⟨"kernel", "code"⟩, ⟨0x10000000, 0x2000⟩) (by decide) (by decide) ?_ 0 (by decide) 0
    (by decide) rfl
  rintro ⟨r, r', hr, _, hsome, _⟩
  exact hsome (hunshared _ hr)

end Board

end Rcard.Tfw
