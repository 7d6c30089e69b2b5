/-
The cursors of the allocator.

While a call runs, the cursor of each place it uses stands past every spot of that place, so
what is allocated next is apart from all of them.  `Tracked` says so of all cursors, `Good`
adds that what is placed is the image of an arrangement of spots, and each way the source has
of placing a region keeps both.

`Regular` lists what a configuration has to avoid for that, `Regular.onePass` the one that is
about the cursors: a later call builds them from the allocations, and it sees an allocation
only at the address the cursor is kept in, so the spots of a place that are reached through
another mapping are passed over.
-/
import Rcard.Lib.Fallible
import Rcard.Tfw.Spots

namespace Rcard.Tfw

open Align Fallible OrdMap Option

instance (r : RegionRequest) : Decidable r.Deferred := inferInstanceAs (Decidable (_ ∧ _))

/-- The call that covers the owner of a region. -/
def passOf (key : RegionKey) : Pass :=
  if key.owner = "kernel" then .kernel
  else if key.owner = "bootloader" then .bootloader
  else .tasks

theorem covers_iff (pass : Pass) (key : RegionKey) :
    pass.covers key = true ↔ passOf key = pass := by
  unfold passOf
  cases pass with
  | tasks =>
    grind [Pass.covers]
  | kernel =>
    grind [Pass.covers]
  | bootloader =>
    grind [Pass.covers]

/-- The call that places a region, `none` for `solve`. -/
def phase (key : RegionKey) (request : RegionRequest) : Option Pass :=
  if request.Deferred then some (passOf key) else none

def PowerAligned (config : AppConfig) : Prop :=
  ∀ p ∈ config.requests, ∀ a ∈ p.2.align, ∃ k < 64, a = 2 ^ k

/-- What a configuration has to avoid, besides places that overlap. -/
structure Regular (config : AppConfig) : Prop where
  -- no sum wraps
  small : ∀ place ∈ config.used, place.Small
  sizes : ∀ p ∈ config.requests, ∀ n ∈ p.2.size, n ≤ 2 ^ 62
  -- an empty place can have the key of another
  nonempty : ∀ place ∈ config.used, 0 < place.size
  -- the allocator aligns addresses, not offsets
  grounded : ∀ p ∈ config.requests, ∀ place ∈ config.used, config.GoesTo p.2 place →
    ∀ c ∈ resolveCpuAddress place false, ∀ a ∈ p.2.align, a ∣ c
  -- shared groups are placed as if no member executed
  plain : ∀ p ∈ config.requests, p.2.shared ≠ none → p.2.execute = true →
    ∀ place ∈ config.used, config.GoesTo p.2 place →
      resolveCpuAddress place true = resolveCpuAddress place false
  -- a deferred region without content is placed even where nothing fits
  mapped : ∀ p ∈ config.requests, p.2.Deferred → ∀ place ∈ p.2.place,
    isCpuMapped place = true → (resolveCpuAddress place false).isSome = true
  -- the cursors of a later call pass over executable mappings
  onePass : ∀ p ∈ config.requests, ∀ q ∈ config.requests, p.2.shared = none →
    p.2.execute = true → q.2.Deferred → ∀ place ∈ config.used, p.2.place = some place →
      q.2.place = some place →
        resolveCpuAddress place true ≠ resolveCpuAddress place false → phase p.1 p.2 = phase q.1 q.2

variable {Phys : Type} {config : AppConfig} {reservations : Reservations}
variable {request : RegionRequest} {place : Place} {c : Nat} {spots' : OrdMap RegionKey Spot}
    {r : Region}

theorem mem_used {key : RegionKey} (hasked : (key, request) ∈ config.requests)
    (hplace : request.place = some place) (hmapped : isCpuMapped place = true) :
    place ∈ config.used :=
  List.mem_filter.mpr ⟨List.mem_filterMap.mpr ⟨_, hasked, hplace⟩, hmapped⟩

theorem placeKey_eq (h : resolveCpuAddress place false = some c) : placeKey place = c := by
  rw [placeKey, h, getD_some]

theorem Regular.place_eq (hreg : Regular config) (memory : Memory Phys config) {p q : Place}
    (hp : p ∈ config.used) (hq : q ∈ config.used) (hc : resolveCpuAddress p false = some c)
    (hd : resolveCpuAddress q false = some c) : p = q :=
  (memory.place_eq hp hq (hreg.small p hp) (hreg.small q hq) hc hd (hreg.nonempty p hp)
    (hreg.nonempty q hq) rfl).1

/-! ## Cursors -/

/-- A cursor that stands past every spot of its place. -/
structure PlaceCursor.Tracks (reservations : Reservations) (spots : OrdMap RegionKey Spot)
    (place : Place) (c : Nat) (pc : PlaceCursor) : Prop where
  base : pc.base = c
  endAddr : pc.endAddr = c + place.room reservations
  low : c ≤ pc.cursor
  high : pc.cursor ≤ c + place.room reservations
  past : ∀ p ∈ spots, p.2.place = place → p.2.size ≠ 0 → c + p.2.start + p.2.size ≤ pc.cursor

def Tracked (reservations : Reservations) (active : Place → Prop)
    (spots : OrdMap RegionKey Spot) (cursors : CursorMap) : Prop :=
  ∀ place c, active place → resolveCpuAddress place false = some c →
    (cursorOf reservations cursors place c).Tracks reservations spots place c

variable {spots : OrdMap RegionKey Spot} {cursors cursors' : CursorMap}
  {placed placed' : OrdMap RegionKey Allocation} {active : Place → Prop}

theorem PlaceCursor.Tracks.mono {pc : PlaceCursor} (h : pc.Tracks reservations spots place c)
    (hspots : ∀ p ∈ spots', p.2.place = place → p.2.size ≠ 0 → p ∈ spots) :
    pc.Tracks reservations spots' place c :=
  { h with past := fun p hp hplace hsize => h.past p (hspots p hp hplace hsize) hplace hsize }

/-- The cursor after a spot that starts at or after it. -/
theorem PlaceCursor.Tracks.advance {start size : Nat} {pc : PlaceCursor}
    (h : pc.Tracks reservations spots place c) (hcursor : pc.cursor ≤ c + start)
    (hroom : start + size ≤ place.room reservations)
    (hspots : ∀ p ∈ spots', p ∈ spots ∨ p.2.place = place ∧ p.2.start = start ∧ p.2.size = size) :
    PlaceCursor.Tracks reservations spots' place c { pc with cursor := c + start + size } where
  base := h.base
  endAddr := h.endAddr
  low := Nat.le_trans (Nat.le_add_right c start) (Nat.le_add_right _ size)
  high := Nat.add_assoc c start size ▸ Nat.add_le_add_left hroom c
  past p hp hplace hsize := by
    rcases hspots p hp with hold | ⟨_, hstart, hsize'⟩
    · have hpast := h.past p hold hplace hsize
      exact Nat.le_trans hpast (Nat.le_trans hcursor (Nat.le_add_right _ size))
    · rw [hstart, hsize']

theorem seed_endAddr (hsmall : place.Small) (hc : resolveCpuAddress place false = some c) :
    (PlaceCursor.seed c place reservations).endAddr = c + place.room reservations := by
  have hend := resolve_add_le hsmall hc
  exact add64_of_lt (by omega)

theorem cursorOf_insert (reservations : Reservations) (cursors : CursorMap) (key : Nat)
    (pc : PlaceCursor) (place : Place) (c : Nat) :
    cursorOf reservations (cursors.insert key pc) place c =
      if key = placeKey place then pc else cursorOf reservations cursors place c := by
  unfold cursorOf
  rw [get?_insert]
  split <;> rfl

/-- What `tryAllocate` gives when the cursor is in the place. -/
theorem tryAllocate_spec {size k : Nat} {e : Bool} {alloc : Allocation} (hsmall : place.Small)
    (hc : resolveCpuAddress place false = some c) (hsize : size ≤ 2 ^ 62) (hk : k < 64)
    (htracks : (cursorOf reservations cursors place c).Tracks reservations spots place c)
    (h : tryAllocate place size (2 ^ k) e cursors reservations = (some alloc, cursors')) :
    ∃ start, 2 ^ k ∣ c + start ∧ start + size ≤ place.room reservations ∧
      (cursorOf reservations cursors place c).cursor ≤ c + start ∧
      alloc = ⟨(resolveCpuAddress place e).getD 0 + start, size⟩ ∧
      cursors' = cursors.insert (placeKey place)
        { cursorOf reservations cursors place c with cursor := c + start + size } := by
  have hlow := htracks.low
  have hhigh := htracks.high
  have hend := htracks.endAddr
  have hroom := place.room_le reservations
  have hlast := resolve_add_le hsmall hc
  have hpow : 2 ^ k ≤ 2 ^ 63 := Nat.pow_le_pow_right (by omega) (by omega)
  obtain ⟨target, htarget⟩ := resolve_other hsmall hc e
  have htargetLast := resolve_add_le hsmall htarget
  unfold tryAllocate at h
  rw [hc] at h
  dsimp only at h
  generalize cursorOf reservations cursors place c = pc at *
  have hfit : pc.cursor + 2 ^ k ≤ 2 ^ 64 := by omega
  have hle := le_alignUp (Nat.le_of_lt hk) hfit
  have hlt := alignUp_lt (Nat.le_of_lt hk) hfit
  have hdvd := dvd_alignUp (Nat.le_of_lt hk) hfit
  generalize alignUp 64 pc.cursor (2 ^ k) = aligned at *
  rw [add64_of_lt (by omega)] at h
  split at h
  · cases h
  · next hnot =>
      cases h
      obtain ⟨start, rfl⟩ : ∃ start, aligned = c + start := ⟨aligned - c, by omega⟩
      refine ⟨start, hdvd, by omega, hle, ?_, rfl⟩
      grind [add64, sub64]

/-- The spot `tryAllocate` finds lies past the others of its place, and the cursors follow. -/
theorem Tracked.allocate (hreg : Regular config) (memory : Memory Phys config)
    (hactive : ∀ place, active place → place ∈ config.used)
    (h : Tracked reservations active spots cursors) {size align : Nat} {e : Bool}
    {alloc : Allocation} (hplace : active place) (hsize : size ≤ 2 ^ 62)
    (halign : ∃ k < 64, align = 2 ^ k)
    (halloc : tryAllocate place size align e cursors reservations = (some alloc, cursors')) :
    ∃ c start, resolveCpuAddress place false = some c ∧ align ∣ c + start ∧
      start + size ≤ place.room reservations ∧
      alloc = ⟨(resolveCpuAddress place e).getD 0 + start, size⟩ ∧
      (∀ p ∈ spots, p.2.place = place → p.2.size ≠ 0 → p.2.start + p.2.size ≤ start) ∧
      ∀ spots' : OrdMap RegionKey Spot,
        (∀ p ∈ spots', p ∈ spots ∨ p.2.place = place ∧ p.2.start = start ∧ p.2.size = size) →
          Tracked reservations active spots' cursors' := by
  obtain ⟨k, hk, rfl⟩ := halign
  have hused := hactive place hplace
  rcases hc : resolveCpuAddress place false with _ | c
  · rw [tryAllocate, hc] at halloc
    cases halloc
  · have htracks := h place c hplace hc
    obtain ⟨start, hdvd, hroom, hcursor, rfl, rfl⟩ :=
      tryAllocate_spec (hreg.small place hused) hc hsize hk htracks halloc
    refine ⟨c, start, rfl, hdvd, hroom, rfl, ?_, ?_⟩
    · intro p hp hpplace hpsize
      have hpast := htracks.past p hp hpplace hpsize
      omega
    · intro spots' hspots q d hq hd
      rw [cursorOf_insert]
      split
      · next hkey =>
          -- a place with this key is this place
          rw [placeKey_eq hc, placeKey_eq hd] at hkey
          subst hkey
          obtain rfl := hreg.place_eq memory hused (hactive q hq) hc hd
          exact htracks.advance hcursor hroom hspots
      · next hkey =>
          refine (h q d hq hd).mono fun p hp hpplace _ => ?_
          grind

/-! ## One region -/

/-- What is placed comes from an arrangement whose requests satisfy `P`, and the cursors
follow it. -/
def Good (config : AppConfig) (reservations : Reservations) (active : Place → Prop)
    (P : RegionKey → RegionRequest → Prop) (placed : OrdMap RegionKey Allocation)
    (cursors : CursorMap) : Prop :=
  ∃ spots : OrdMap RegionKey Spot, placed = spots.mapValues Spot.alloc ∧
    Arranged config reservations spots ∧ Tracked reservations active spots cursors ∧
    ∀ p ∈ spots, P p.1 p.2.request

variable {P : RegionKey → RegionRequest → Prop}

theorem Good.extend {Q : RegionKey × Spot → Prop} (harranged : Arranged config reservations spots)
    (hall : ∀ p ∈ spots, P p.1 p.2.request) (hspots : ∀ p ∈ spots', p ∈ spots ∨ Q p)
    (hvalid : ∀ p, Q p → p.2.Valid config reservations p.1)
    (hold : ∀ p ∈ spots, ∀ q, Q q → p.2.Apart q.2)
    (hnew : ∀ p q, Q p → Q q → p.1 ≠ q.1 → p.2.Apart q.2) (hP : ∀ p, Q p → P p.1 p.2.request)
    (htracked : Tracked reservations active spots' cursors) :
    Good config reservations active P (spots'.mapValues Spot.alloc) cursors := by
  refine ⟨spots', rfl, harranged.extend hspots hvalid hold hnew, htracked, fun p hp => ?_⟩
  rcases hspots p hp with hin | hq
  · exact hall p hin
  · exact hP p hq

/-- One spot more. -/
theorem Good.insert {key : RegionKey} {s : Spot}
    (harranged : Arranged config reservations spots) (hall : ∀ p ∈ spots, P p.1 p.2.request)
    (hvalid : s.Valid config reservations key) (hapart : ∀ p ∈ spots, p.2.Apart s)
    (hP : P key s.request) (htracked : Tracked reservations active (spots.insert key s) cursors) :
    Good config reservations active P ((spots.mapValues Spot.alloc).insert key s.alloc)
      cursors := by
  rw [← mapValues_insert]
  refine Good.extend (Q := fun p => p = (key, s)) harranged hall
    (fun p hp => (mem_insert hp).symm) ?_ ?_ ?_ ?_ htracked
  · rintro _ rfl
    exact hvalid
  · rintro p hp _ rfl
    exact hapart p hp
  · rintro _ _ rfl rfl hne
    exact absurd rfl hne
  · rintro _ rfl
    exact hP

/-- A region of a pass and the private request it was made from. -/
structure Region.Serves (config : AppConfig) (r : Region) (request : RegionRequest) :
    Prop where
  asked : (r.key, request) ∈ config.requests
  unshared : request.shared = none
  place : request.place = some r.place
  mapped : isCpuMapped r.place = true
  execute : r.execute = request.execute
  size : r.size ≤ 2 ^ 62
  power : ∃ k < 64, r.align = 2 ^ k
  align : ∀ a ∈ request.align, r.align = a
  filled : request.Deferred → request.align ≠ none → r.size ≠ 0

theorem Region.Serves.used (h : r.Serves config request) : r.place ∈ config.used :=
  mem_used h.asked h.place h.mapped

/-- The spot of a private region, given that it fits and is aligned. -/
theorem Region.Serves.valid (h : r.Serves config request) {start : Nat}
    (hc : resolveCpuAddress r.place false = some c)
    (hroom : start + r.size ≤ r.place.room reservations)
    (haligned : ∀ a ∈ request.align, a ∣ start) :
    Spot.Valid config reservations r.key ⟨request, r.place, start, r.size, r.execute⟩ where
  asked := h.asked
  used := h.used
  goes := .inl h.place
  sameKey p hp := by
    have hsome : some p = some r.place := hp.symm.trans h.place
    rw [some.inj hsome]
  resolved := ⟨c, hc⟩
  inside := hroom
  aligned := haligned
  mapping := by rw [h.execute]
  executes hexec := ⟨h.unshared, h.place, h.execute ▸ hexec⟩

theorem Good.allocateRegion (hreg : Regular config) (memory : Memory Phys config)
    (hactive : ∀ place, active place → place ∈ config.used)
    (h : Good config reservations active P placed cursors) (hserves : r.Serves config request)
    (hplace : active r.place) (hP : P r.key request)
    (halloc : allocateRegion reservations r placed cursors = .ok (placed', cursors')) :
    Good config reservations active P placed' cursors' := by
  obtain ⟨spots, rfl, harranged, htracked, hall⟩ := h
  unfold Tfw.allocateRegion at halloc
  split at halloc
  · cases halloc
  · next alloc _ htry =>
      cases halloc
      obtain ⟨c, start, hc, hdvd, hroom, rfl, hbelow, hnext⟩ :=
        htracked.allocate hreg memory hactive hplace hserves.size hserves.power htry
      have haligned : ∀ a ∈ request.align, a ∣ start := by
        intro a ha
        have hbase := hreg.grounded _ hserves.asked _ hserves.used (.inl hserves.place) c hc a ha
        rw [hserves.align a ha] at hdvd
        exact (Nat.dvd_add_right hbase).mp hdvd
      have hvalid := hserves.valid hc hroom haligned
      refine Good.insert (s := ⟨request, r.place, start, r.size, r.execute⟩) harranged hall hvalid
        (fun p hp hsame hpsize _ => .inr (.inl (hbelow p hp hsame hpsize))) hP ?_
      refine hnext _ fun p hp => ?_
      rcases mem_insert hp with rfl | hold
      · exact .inr ⟨rfl, rfl, rfl⟩
      · exact .inl hold

theorem emptyAllocation_spec (hsmall : r.place.Small)
    (hc : resolveCpuAddress r.place false = some c)
    (htracks : (cursorOf reservations cursors r.place c).Tracks reservations spots r.place c) :
    ∃ start, start ≤ r.place.room reservations ∧
      emptyAllocation r cursors = ⟨(resolveCpuAddress r.place r.execute).getD 0 + start, 0⟩ := by
  have hcursor : ((cursors.get? (placeKey r.place)).map PlaceCursor.cursor).getD c =
      (cursorOf reservations cursors r.place c).cursor := by
    unfold cursorOf
    cases cursors.get? (placeKey r.place) <;> rfl
  have hlow := htracks.low
  have hhigh := htracks.high
  have hroom := r.place.room_le reservations
  have hlast := resolve_add_le hsmall hc
  obtain ⟨target, htarget⟩ := resolve_other hsmall hc r.execute
  have htargetLast := resolve_add_le hsmall htarget
  refine ⟨(cursorOf reservations cursors r.place c).cursor - c, by omega, ?_⟩
  unfold emptyAllocation
  rw [hc, htarget]
  dsimp only [getD_some]
  rw [hcursor, sub64_of_le hlow (by omega), add64_of_lt (by omega)]

theorem Good.resolveRegion (hreg : Regular config) (memory : Memory Phys config)
    (hactive : ∀ place, active place → place ∈ config.used)
    {st st' : OrdMap RegionKey Allocation × CursorMap}
    (h : Good config reservations active P st.1 st.2) (hserves : r.Serves config request)
    (hdeferred : request.Deferred) (hplace : active r.place) (hP : P r.key request)
    (hstep : resolveRegion reservations st r = .ok st') :
    Good config reservations active P st'.1 st'.2 := by
  unfold Tfw.resolveRegion at hstep
  split at hstep
  · next hsize =>
      cases hstep
      obtain ⟨spots, hplaced, harranged, htracked, hall⟩ := h
      obtain ⟨c, hc⟩ := isSome_iff_exists.mp
        (hreg.mapped _ hserves.asked hdeferred _ hserves.place hserves.mapped)
      obtain ⟨start, hroom, hempty⟩ :=
        emptyAllocation_spec (hreg.small _ hserves.used) hc (htracked _ c hplace hc)
      have hvalid : Spot.Valid config reservations r.key
          ⟨request, r.place, start, r.size, r.execute⟩ :=
        hserves.valid hc (by omega) fun a ha =>
          absurd hsize (hserves.filled hdeferred (ne_none_iff_exists'.mpr ⟨a, ha⟩))
      have halloc : emptyAllocation r st.2 =
          Spot.alloc ⟨request, r.place, start, r.size, r.execute⟩ := by
        rw [hempty, Spot.alloc, hsize]
      rw [hplaced, halloc]
      refine Good.insert harranged hall hvalid (fun p _ _ _ hfull => absurd hsize hfull) hP ?_
      intro place d hplace' hd
      refine (htracked place d hplace' hd).mono fun p hp _ hfull => ?_
      rcases mem_insert hp with rfl | hold
      · exact absurd hsize hfull
      · exact hold
  · exact h.allocateRegion hreg memory hactive hserves hplace hP hstep

end Rcard.Tfw
