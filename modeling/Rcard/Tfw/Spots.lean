/-
Where regions lie in their places.

A spot is a range of a place, given by an offset into it, with the request it serves.  The
allocator never works with offsets alone: it keeps a cursor at one address of the place and
hands out addresses of another, and the same byte has an address in every mapping.  Here the
addresses are read as cells of a physical memory, and spots that are apart in their place are
shown to be apart in that memory.
-/
import Rcard.Tfw.Layout

namespace Rcard.Tfw

open Option List Place

theorem add64_of_lt {x y : Nat} (h : x + y < 2 ^ 64) : add64 x y = x + y := Nat.mod_eq_of_lt h

theorem sub64_of_le {x y : Nat} (hle : y ≤ x) (hx : x < 2 ^ 64) : sub64 x y = x - y := by
  grind [sub64]

/-! ## What a configuration asks for -/

/-- The CPU-mapped places that some region asks for. -/
def AppConfig.used (config : AppConfig) : List Place :=
  (config.requests.filterMap fun p => p.2.place).filter isCpuMapped

def SameGroup (r r' : RegionRequest) : Prop := r.shared ≠ none ∧ r.shared = r'.shared

instance (r r' : RegionRequest) : Decidable (SameGroup r r') :=
  inferInstanceAs (Decidable (_ ∧ _))

/-- A region goes to its own place; one of a shared group to the place a member names. -/
def AppConfig.GoesTo (config : AppConfig) (request : RegionRequest) (place : Place) : Prop :=
  request.place = some place ∨ ∃ p ∈ config.requests, SameGroup request p.2 ∧ p.2.place = some place

instance (config : AppConfig) (request : RegionRequest) (place : Place) :
    Decidable (config.GoesTo request place) :=
  inferInstanceAs (Decidable (_ ∨ _))

def Place.Fits (place : Place) (mapping : Mapping) : Prop :=
  place.start + place.size ≤ mapping.size

instance (place : Place) (mapping : Mapping) : Decidable (place.Fits mapping) :=
  inferInstanceAs (Decidable (_ ≤ _))

/-- The part of a place that regions may use. -/
def Place.room (reservations : Reservations) (place : Place) : Nat :=
  place.size - reserve place reservations

theorem Place.room_le (reservations : Reservations) (place : Place) :
    place.room reservations ≤ place.size := Nat.sub_le _ _

/-! ## Addresses -/

structure Place.Small (place : Place) : Prop where
  mappings : ∀ m ∈ place.mappings, m.address + m.size ≤ 2 ^ 62
  size : place.start + place.size ≤ 2 ^ 62

section Resolve

variable {place : Place} {e : Bool} {c : Nat}

theorem Place.Small.fits_iff (hsmall : place.Small) (m : Mapping) :
    place.fits m = true ↔ place.Fits m := by
  have hsize := hsmall.size
  rw [fits, decide_eq_true_iff, add64_of_lt (by omega), Fits]

theorem Place.Small.address_eq (hsmall : place.Small) {m : Mapping} (hm : m ∈ place.mappings)
    (hfits : place.Fits m) : add64 m.address place.start = m.address + place.start := by
  have hend := hsmall.mappings m hm
  unfold Fits at hfits
  exact add64_of_lt (by omega)

/-- The address a place resolves to, and that it is executable if that is asked for and
possible. -/
theorem resolve_spec (hsmall : place.Small) (h : resolveCpuAddress place e = some c) :
    ∃ m ∈ place.mappings, place.Fits m ∧ c = m.address + place.start ∧
      ((∃ m' ∈ place.mappings, place.Fits m' ∧ m'.execute = e) → m.execute = e) := by
  have hkept : ∀ m : Mapping, (!(if e then !m.execute else m.execute)) = (m.execute == e) := by
    intro m
    cases e <;> cases m.execute <;> rfl
  unfold resolveCpuAddress preferred at h
  simp only [hkept] at h
  split at h
  · next m hfind =>
      have hmem := mem_of_find?_eq_some hfind
      have hm := find?_some hfind
      rw [Bool.and_eq_true, beq_iff_eq, hsmall.fits_iff] at hm
      cases h
      exact ⟨m, hmem, hm.2, hsmall.address_eq hmem hm.2, fun _ => hm.1⟩
  · next hnone =>
      obtain ⟨m, hfind, rfl⟩ := map_eq_some_iff.mp h
      have hmem := mem_of_find?_eq_some hfind
      have hfits := (hsmall.fits_iff m).mp (find?_some hfind)
      refine ⟨m, hmem, hfits, hsmall.address_eq hmem hfits, ?_⟩
      rintro ⟨m', hmem', hfits', hexec⟩
      -- the first search would have found it
      have hlost := find?_eq_none.mp hnone m' hmem'
      rw [Bool.and_eq_true, beq_iff_eq, hsmall.fits_iff] at hlost
      exact absurd ⟨hexec, hfits'⟩ hlost

theorem resolve_of_fits {m : Mapping} (hm : m ∈ place.mappings) (hfits : place.fits m = true) :
    ∃ c, resolveCpuAddress place e = some c := by
  unfold resolveCpuAddress
  split
  · exact ⟨_, rfl⟩
  · obtain ⟨m', hfind⟩ := isSome_iff_exists.mp (find?_isSome.mpr ⟨m, hm, hfits⟩)
    exact ⟨_, by rw [hfind, map_some]⟩

theorem resolve_other (hsmall : place.Small) (h : resolveCpuAddress place e = some c)
    (e' : Bool) : ∃ c', resolveCpuAddress place e' = some c' := by
  obtain ⟨m, hm, hfits, _⟩ := resolve_spec hsmall h
  exact resolve_of_fits hm ((hsmall.fits_iff m).mpr hfits)

theorem resolve_add_le (hsmall : place.Small) (h : resolveCpuAddress place e = some c) :
    c + place.size ≤ 2 ^ 62 := by
  obtain ⟨m, hm, hfits, rfl, _⟩ := resolve_spec hsmall h
  have hend := hsmall.mappings m hm
  unfold Fits at hfits
  omega

end Resolve

/-! ## Physical memory -/

/-- A memory in which the used places lie apart.  `phys` is the cell behind an address and
`cell` the cell of a place at an offset; every mapping that a place fits in shows the place. -/
structure Memory (Phys : Type) (config : AppConfig) where
  phys : Nat → Phys
  cell : Place → Nat → Phys
  shown : ∀ place ∈ config.used, ∀ m ∈ place.mappings, place.Fits m → ∀ x < place.size,
    phys (m.address + place.start + x) = cell place x
  apart : ∀ p ∈ config.used, ∀ q ∈ config.used, ∀ x < p.size, ∀ y < q.size,
    cell p x = cell q y → p = q ∧ x = y

variable {Phys : Type} {config : AppConfig} {reservations : Reservations}

theorem Memory.phys_resolve (memory : Memory Phys config) {place : Place}
    (hused : place ∈ config.used) (hsmall : place.Small) {e : Bool} {c x : Nat}
    (h : resolveCpuAddress place e = some c) (hx : x < place.size) :
    memory.phys (c + x) = memory.cell place x := by
  obtain ⟨m, hm, hfits, rfl, _⟩ := resolve_spec hsmall h
  exact memory.shown place hused m hm hfits x hx

/-- An address that two places resolve to, counted from each. -/
theorem Memory.place_eq (memory : Memory Phys config) {p q : Place} (hp : p ∈ config.used)
    (hq : q ∈ config.used) (hpsmall : p.Small) (hqsmall : q.Small) {e e' : Bool}
    {c d x y : Nat} (hc : resolveCpuAddress p e = some c) (hd : resolveCpuAddress q e' = some d)
    (hx : x < p.size) (hy : y < q.size) (h : c + x = d + y) : p = q ∧ x = y := by
  refine memory.apart p hp q hq x hx y hy ?_
  rw [← memory.phys_resolve hp hpsmall hc hx, ← memory.phys_resolve hq hqsmall hd hy, h]

/-! ## Spots -/

/-- A request that only the linker sizes. -/
def RegionRequest.Deferred (r : RegionRequest) : Prop := r.shared = none ∧ r.size = none

/-- `execute` is the kind of mapping the region's address was taken from. -/
structure Spot where
  request : RegionRequest
  place : Place
  start : Nat
  size : Nat
  execute : Bool

def Spot.alloc (s : Spot) : Allocation :=
  ⟨(resolveCpuAddress s.place s.execute).getD 0 + s.start, s.size⟩

/-- Two spots share no byte, or are meant to. -/
def Spot.Apart (s t : Spot) : Prop :=
  s.place = t.place → s.size ≠ 0 → t.size ≠ 0 →
    SameGroup s.request t.request ∨ s.start + s.size ≤ t.start ∨ t.start + t.size ≤ s.start

theorem Spot.Apart.symm {s t : Spot} (h : s.Apart t) : t.Apart s := by
  intro hplace ht hs
  rcases h hplace.symm hs ht with ⟨hsome, hgroup⟩ | hbefore | hafter
  · exact .inl ⟨hgroup ▸ hsome, hgroup.symm⟩
  · exact .inr (.inr hbefore)
  · exact .inr (.inl hafter)

/-- What a spot owes to the request of the region at `key`. -/
structure Spot.Valid (config : AppConfig) (reservations : Reservations) (key : RegionKey)
    (s : Spot) : Prop where
  asked : (key, s.request) ∈ config.requests
  used : s.place ∈ config.used
  goes : config.GoesTo s.request s.place
  sameKey : ∀ p ∈ s.request.place, placeKey p = placeKey s.place
  resolved : ∃ c, resolveCpuAddress s.place false = some c
  inside : s.start + s.size ≤ s.place.room reservations
  aligned : ∀ a ∈ s.request.align, a ∣ s.start
  mapping : resolveCpuAddress s.place s.execute = resolveCpuAddress s.place s.request.execute
  executes : s.execute = true →
    s.request.shared = none ∧ s.request.place = some s.place ∧ s.request.execute = true

/-- An allocation read against a request: `start` bytes into the place, at an address of a
mapping of it. -/
structure Sits (config : AppConfig) (reservations : Reservations) (key : RegionKey)
    (alloc : Allocation) (request : RegionRequest) (place : Place) (mapping : Mapping)
    (start : Nat) : Prop where
  asked : (key, request) ∈ config.requests
  goes : config.GoesTo request place
  sameKey : ∀ p ∈ request.place, placeKey p = placeKey place
  mapped : mapping ∈ place.mappings
  fits : place.Fits mapping
  base : alloc.base = mapping.address + place.start + start
  inside : start + alloc.size ≤ place.size - reserve place reservations
  aligned : ∀ a ∈ request.align, a ∣ start
  executable : request.execute = true →
    (∃ m ∈ place.mappings, place.Fits m ∧ m.execute = true) → mapping.execute = true

namespace Spot.Valid

variable {key : RegionKey} {s : Spot}

variable (h : s.Valid config reservations key)
include h

variable (hsmall : s.place.Small)
include hsmall

theorem base_eq :
    ∃ c, resolveCpuAddress s.place s.execute = some c ∧ s.alloc.base = c + s.start := by
  obtain ⟨_, hfalse⟩ := h.resolved
  obtain ⟨c, hc⟩ := resolve_other hsmall hfalse s.execute
  exact ⟨c, hc, by rw [Spot.alloc, hc, getD_some]⟩

theorem sits :
    ∃ mapping, Sits config reservations key s.alloc s.request s.place mapping s.start := by
  obtain ⟨c, hc, hbase⟩ := h.base_eq hsmall
  obtain ⟨m, hm, hfits, rfl, hexec⟩ := resolve_spec hsmall (h.mapping ▸ hc)
  refine ⟨m, h.asked, h.goes, h.sameKey, hm, hfits, hbase, h.inside, h.aligned, ?_⟩
  intro hasked
  rw [hasked] at hexec
  exact hexec

theorem phys_eq (memory : Memory Phys config) {i : Nat} (hi : i < s.size) :
    memory.phys (s.alloc.base + i) = memory.cell s.place (s.start + i) := by
  obtain ⟨c, hc, hbase⟩ := h.base_eq hsmall
  have hlt : s.start + i < s.place.size := by
    have hinside := h.inside
    have hroom := s.place.room_le reservations
    omega
  rw [hbase, Nat.add_assoc, memory.phys_resolve h.used hsmall hc hlt]

end Spot.Valid

/-! ## Arrangements -/

structure Arranged (config : AppConfig) (reservations : Reservations)
    (spots : OrdMap RegionKey Spot) : Prop where
  valid : ∀ p ∈ spots, p.2.Valid config reservations p.1
  apart : ∀ p ∈ spots, ∀ q ∈ spots, p.1 ≠ q.1 → p.2.Apart q.2

namespace Arranged

variable {spots : OrdMap RegionKey Spot}

theorem nil : Arranged config reservations [] :=
  ⟨(fun _ h => nomatch h), (fun _ h => nomatch h)⟩

/-- Spots added to an arrangement: apart from those there and from each other. -/
theorem extend (h : Arranged config reservations spots) {spots' : OrdMap RegionKey Spot}
    {Q : RegionKey × Spot → Prop} (hspots : ∀ p ∈ spots', p ∈ spots ∨ Q p)
    (hvalid : ∀ p, Q p → p.2.Valid config reservations p.1)
    (hold : ∀ p ∈ spots, ∀ q, Q q → p.2.Apart q.2)
    (hnew : ∀ p q, Q p → Q q → p.1 ≠ q.1 → p.2.Apart q.2) :
    Arranged config reservations spots' := by
  constructor
  · intro p hp
    rcases hspots p hp with hin | hq
    · exact h.valid p hin
    · exact hvalid p hq
  · intro p hp q hq hne
    rcases hspots p hp with hp | hp <;> rcases hspots q hq with hq | hq
    · exact h.apart p hp q hq hne
    · exact hold p hp q hq
    · exact (hold q hq p hp).symm
    · exact hnew p q hp hq hne

/-- Apart in their places is apart in memory. -/
theorem disjoint (h : Arranged config reservations spots)
    (hsmall : ∀ place ∈ config.used, place.Small) (memory : Memory Phys config)
    {p q : RegionKey × Spot} (hp : p ∈ spots) (hq : q ∈ spots) (hne : p.1 ≠ q.1)
    (hgroup : ¬SameGroup p.2.request q.2.request) {i j : Nat} (hi : i < p.2.size)
    (hj : j < q.2.size) : memory.phys (p.2.alloc.base + i) ≠ memory.phys (q.2.alloc.base + j) := by
  have hpv := h.valid p hp
  have hqv := h.valid q hq
  rw [hpv.phys_eq (hsmall _ hpv.used) memory hi, hqv.phys_eq (hsmall _ hqv.used) memory hj]
  intro hcell
  have hpin := hpv.inside
  have hqin := hqv.inside
  have hproom := p.2.place.room_le reservations
  have hqroom := q.2.place.room_le reservations
  obtain ⟨hplace, hoffset⟩ := memory.apart _ hpv.used _ hqv.used _ (by omega) _ (by omega) hcell
  rcases h.apart p hp q hq hne hplace (by omega) (by omega) with hsame | hbefore | hafter
  · exact hgroup hsame
  · omega
  · omega

end Arranged
end Rcard.Tfw
