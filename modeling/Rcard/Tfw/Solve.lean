/-
What `solve` places.

`solve` first joins the requests of each shared group and places the group once for all its
members, then places the private regions that have a size, and leaves the others in
`deferred`.  Its layout is `Sound`: an arrangement of spots, none of which belongs to a call
that still has regions to place.
-/
import Rcard.Tfw.Cursors

namespace Rcard.Tfw

open List OrdMap Option Bool

open Fallible

variable {Phys : Type} {config : AppConfig} {reservations : Reservations}
  {P : RegionKey → RegionRequest → Prop}

/-! ## Shared groups -/

/-- A group and the requests it was collected from. -/
structure SharedGroup.Valid (config : AppConfig) (name : String) (g : SharedGroup) : Prop where
  place : ∀ place ∈ g.place, ∃ p ∈ config.requests, p.2.shared = some name ∧ p.2.place = some place
  size : ∀ n ∈ g.size, n ≤ 2 ^ 62
  align : ∀ a ∈ g.align, ∃ k < 64, a = 2 ^ k
  members : ∀ key ∈ g.members, ∃ request, (key, request) ∈ config.requests ∧
    request.shared = some name ∧ (∀ a ∈ request.align, g.align = some a) ∧
    ∀ p ∈ request.place, ∃ place ∈ g.place, placeKey place = placeKey p

theorem agree_spec {α : Type} {group field : String} {key : RegionKey} {same : α → α → Bool}
    {existing requested result : Option α}
    (h : agree group field key same existing requested = .ok result) :
    (∀ a ∈ existing, result = some a) ∧
      (∀ a ∈ requested, ∃ b ∈ result, b = a ∨ same b a = true) ∧
      ∀ a ∈ result, existing = some a ∨ requested = some a := by
  unfold agree at h
  split at h
  · cases h
    exact ⟨fun a ha => ha, (fun _ ha => nomatch ha), fun a ha => .inl ha⟩
  · grind
  grind

variable {name : String} {p : RegionKey × RegionRequest} {g : SharedGroup} {place : Place}

theorem SharedGroup.Valid.join (hreg : Regular config) (hpower : PowerAligned config)
    {entry entry' : SharedGroup} (h : entry.Valid config name) {key : RegionKey}
    {request : RegionRequest} (hasked : (key, request) ∈ config.requests)
    (hshared : request.shared = some name) (hjoin : entry.join name key request = .ok entry') :
    entry'.Valid config name := by
  obtain ⟨place, hplace, hjoin⟩ := except_bind_eq_ok.mp hjoin
  obtain ⟨size, hsize, hjoin⟩ := except_bind_eq_ok.mp hjoin
  obtain ⟨align, halign, hjoin⟩ := except_bind_eq_ok.mp hjoin
  cases hjoin
  obtain ⟨hplaceKept, hplaceNew, hplaceFrom⟩ := agree_spec hplace
  obtain ⟨_, _, hsizeFrom⟩ := agree_spec hsize
  obtain ⟨halignKept, halignNew, halignFrom⟩ := agree_spec halign
  constructor
  · intro p hp
    rcases hplaceFrom p hp with hold | hnew
    · exact h.place p hold
    · exact ⟨_, hasked, hshared, hnew⟩
  · intro n hn
    rcases hsizeFrom n hn with hold | hnew
    · exact h.size n hold
    · exact hreg.sizes _ hasked n hnew
  · intro a ha
    rcases halignFrom a ha with hold | hnew
    · exact h.align a hold
    · exact hpower _ hasked a hnew
  · intro k hk
    rcases mem_append.mp hk with hold | hnew
    · obtain ⟨r, hr, hrshared, hralign, hrplace⟩ := h.members k hold
      grind
    · rw [mem_singleton] at hnew
      subst hnew
      refine ⟨request, hasked, hshared, fun a ha => ?_, fun p hp => ?_⟩
      · obtain ⟨b, hb, heq | hsame⟩ := halignNew a ha
        · exact heq ▸ hb
        · exact beq_iff_eq.mp hsame ▸ hb
      grind

theorem SharedGroup.empty_valid (name : String) : SharedGroup.empty.Valid config name :=
  ⟨(fun _ h => nomatch h), (fun _ h => nomatch h), (fun _ h => nomatch h), (fun _ h => nomatch h)⟩

def GroupsValid (config : AppConfig) (groups : OrdMap String SharedGroup) : Prop :=
  ∀ p ∈ groups, p.2.Valid config p.1

theorem GroupsValid.joinShared (hreg : Regular config) (hpower : PowerAligned config)
    {groups groups' : OrdMap String SharedGroup} (h : GroupsValid config groups)
    (hp : p ∈ config.requests) (hjoin : joinShared groups p = .ok groups') :
    GroupsValid config groups' := by
  unfold Tfw.joinShared at hjoin
  split at hjoin
  · cases hjoin
    exact h
  · next name hshared =>
      obtain ⟨entry, hentry, hok⟩ := except_bind_eq_ok.mp hjoin
      cases hok
      have hold : ((groups.get? name).getD .empty).Valid config name := by
        rcases hget : groups.get? name with _ | g
        · exact SharedGroup.empty_valid name
        · exact h _ (mem_of_get? hget)
      intro q hq
      rcases mem_insert hq with rfl | hin
      · exact hold.join hreg hpower hp hshared hentry
      · exact h q hin

/-- The spot of a member of a group that is placed at `start`. -/
def MemberSpot (config : AppConfig) (name : String) (g : SharedGroup) (place : Place)
    (start size : Nat) (p : RegionKey × Spot) : Prop :=
  (p.1, p.2.request) ∈ config.requests ∧ p.2.request.shared = some name ∧
    (∀ a ∈ p.2.request.align, g.align = some a) ∧
    (∀ q ∈ p.2.request.place, placeKey q = placeKey place) ∧
    p.2 = ⟨p.2.request, place, start, size, false⟩

theorem MemberSpot.valid (hreg : Regular config) (hgroup : g.Valid config name)
    (hplace : g.place = some place) (hmapped : isCpuMapped place = true) {c start size : Nat}
    (hc : resolveCpuAddress place false = some c) (hdvd : g.align.getD 4 ∣ c + start)
    (hroom : start + size ≤ place.room reservations) {p : RegionKey × Spot}
    (h : MemberSpot config name g place start size p) : p.2.Valid config reservations p.1 := by
  obtain ⟨key, ⟨request, _, _, _, _⟩⟩ := p
  obtain ⟨hasked, hshared, halign, hkey, heq⟩ := h
  cases heq
  obtain ⟨q, hq, hqshared, hqplace⟩ := hgroup.place place hplace
  have hused : place ∈ config.used := mem_used hq hqplace hmapped
  have hgoes : config.GoesTo request place :=
    .inr ⟨q, hq, ⟨by rw [hshared]; exact some_ne_none name, by rw [hshared, hqshared]⟩, hqplace⟩
  refine ⟨hasked, hused, hgoes, hkey, ⟨c, hc⟩, hroom, ?_, ?_, (fun h => nomatch h)⟩
  · intro a ha
    have hbase := hreg.grounded _ hasked place hused hgoes c hc a ha
    rw [halign a ha] at hdvd
    exact (Nat.dvd_add_right hbase).mp hdvd
  · rcases hexec : request.execute with _ | _
    · rfl
    · refine (hreg.plain _ hasked ?_ hexec place hused hgoes).symm
      rw [hshared]
      exact some_ne_none name

theorem MemberSpot.sameGroup {start size : Nat} {p q : RegionKey × Spot}
    (hp : MemberSpot config name g place start size p)
    (hq : MemberSpot config name g place start size q) : SameGroup p.2.request q.2.request :=
  ⟨by rw [hp.2.1]; exact some_ne_none name, by rw [hp.2.1, hq.2.1]⟩

theorem SharedGroup.Valid.memberSpot (h : g.Valid config name) (hplace : g.place = some place)
    (start size : Nat) :
    ∀ key ∈ g.members, ∃ s : Spot,
      s.alloc = ⟨(resolveCpuAddress place false).getD 0 + start, size⟩ ∧
        MemberSpot config name g place start size (key, s) := by
  intro key hkey
  obtain ⟨request, hasked, hshared, halign, hrplace⟩ := h.members key hkey
  refine ⟨⟨request, place, start, size, false⟩, rfl, hasked, hshared, halign, fun r hr => ?_, rfl⟩
  grind

theorem SharedGroup.Valid.power (h : g.Valid config name) : ∃ k < 64, g.align.getD 4 = 2 ^ k := by
  rcases hg : g.align with _ | a
  · exact ⟨2, by omega, rfl⟩
  · exact h.align a hg

theorem Good.allocateShared (hreg : Regular config) (memory : Memory Phys config)
    {st st' : Solving} (h : Good config reservations (· ∈ config.used) P st.placed st.cursors)
    {p : String × SharedGroup} (hgroup : p.2.Valid config p.1)
    (hP : ∀ key request, request.shared ≠ none → P key request)
    (hstep : allocateShared reservations st p = .ok st') :
    Good config reservations (· ∈ config.used) P st'.placed st'.cursors := by
  unfold Tfw.allocateShared at hstep
  split at hstep
  · cases hstep
  · cases hstep
  · next place size hplace hsize =>
      split at hstep
      · cases hstep
        exact h
      · next hmapped =>
          rw [not_eq_true', not_eq_false] at hmapped
          split at hstep
          · cases hstep
          · next alloc cursors' htry =>
              cases hstep
              obtain ⟨spots, hplaced, harranged, htracked, hall⟩ := h
              obtain ⟨q, hq, hqshared, hqplace⟩ := hgroup.place place hplace
              obtain ⟨c, start, hc, hdvd, hroom, rfl, hbelow, hnext⟩ :=
                htracked.allocate hreg memory (fun _ hp => hp) (mem_used hq hqplace hmapped)
                  (hgroup.size size hsize) hgroup.power htry
              obtain ⟨spots', hfold, hspots⟩ :=
                exists_foldl_insert (hgroup.memberSpot hplace start size) spots
              rw [hplaced, hfold]
              refine Good.extend harranged hall hspots
                (fun p hp => hp.valid hreg hgroup hplace hmapped hc hdvd hroom) ?_ ?_ ?_ ?_
              · rintro p hp q ⟨_, _, _, _, heq⟩ hsame hpsize _
                rw [heq] at hsame ⊢
                exact .inr (.inl (hbelow p hp hsame hpsize))
              · exact fun p q hp hq _ _ _ _ => .inl (hp.sameGroup hq)
              · exact fun p hp => hP p.1 p.2.request (hp.sameGroup hp).1
              · refine hnext spots' fun p hp => (hspots p hp).imp_right ?_
                grind [MemberSpot]

/-! ## `solve` -/

/-- The layout between two calls.  No spot was placed by a call that still has regions to
place. -/
def Sound (config : AppConfig) (reservations : Reservations) (layout : Layout) : Prop :=
  ∃ spots : OrdMap RegionKey Spot, layout.placed = spots.mapValues Spot.alloc ∧
    Arranged config reservations spots ∧
    (∀ p ∈ spots, ∀ q ∈ layout.deferred, phase p.1 p.2.request ≠ phase q.1 q.2) ∧
    ∀ q ∈ layout.deferred, q ∈ config.requests ∧ q.2.Deferred

/-- The region of a private request with a size from elsewhere and a default alignment. -/
theorem serves_of_request (hpower : PowerAligned config) (hp : p ∈ config.requests)
    (hshared : p.2.shared = none) (hplace : p.2.place = some place)
    (hmapped : isCpuMapped place = true) {size : Nat} (hsize : size ≤ 2 ^ 62)
    (hfilled : p.2.Deferred → p.2.align ≠ none → size ≠ 0) {k : Nat} (hk : k < 64) :
    Region.Serves config ⟨p.1, size, p.2.align.getD (2 ^ k), place, p.2.execute⟩ p.2 := by
  refine ⟨hp, hshared, hplace, hmapped, rfl, hsize, ?_, ?_, hfilled⟩
  · rcases halign : p.2.align with _ | a
    · exact ⟨k, hk, rfl⟩
    · exact hpower p hp a halign
  · intro a ha
    show p.2.align.getD (2 ^ k) = a
    rw [ha, getD_some]

def FixedFrom (config : AppConfig) (regions : List Region) : Prop :=
  ∀ r ∈ regions, isCpuMapped r.place = true → ∃ request, r.Serves config request ∧ ¬request.Deferred

theorem FixedFrom.fixedRegion (hreg : Regular config) (hpower : PowerAligned config)
    (hp : p ∈ config.requests) {regions regions' : List Region} (h : FixedFrom config regions)
    (hstep : fixedRegion regions p = .ok regions') : FixedFrom config regions' := by
  unfold Tfw.fixedRegion at hstep
  split at hstep
  · next size hshared hsize =>
      split at hstep
      · cases hstep
      · next place hplace =>
          cases hstep
          intro r hr hmapped
          rcases mem_append.mp hr with hold | hnew
          · exact h r hold hmapped
          · rw [mem_singleton] at hnew
            subst hnew
            have hfixed : ¬p.2.Deferred := by
              intro hdeferred
              rw [hdeferred.2] at hsize
              cases hsize
            exact ⟨p.2, serves_of_request hpower hp hshared hplace hmapped
              (hreg.sizes p hp size hsize) (fun hdeferred => absurd hdeferred hfixed)
              (k := 2) (by omega), hfixed⟩
  · cases hstep
    exact h

/-- `solve` has placed only what is not deferred. -/
def Solving.Good (config : AppConfig) (reservations : Reservations) (st : Solving) : Prop :=
  Tfw.Good config reservations (· ∈ config.used) (fun _ r => ¬r.Deferred) st.placed st.cursors

theorem Solving.Good.allocateFixed (hreg : Regular config) (memory : Memory Phys config)
    {st st' : Solving} (h : st.Good config reservations) {r : Region}
    (hr : isCpuMapped r.place = true → ∃ request, r.Serves config request ∧ ¬request.Deferred)
    (hstep : allocateFixed reservations st r = .ok st') : st'.Good config reservations := by
  unfold Tfw.allocateFixed at hstep
  split at hstep
  · cases hstep
    exact h
  · next hmapped =>
      rw [not_eq_true', not_eq_false] at hmapped
      obtain ⟨request, hserves, hfixed⟩ := hr hmapped
      obtain ⟨⟨placed, cursors⟩, halloc, hok⟩ := except_bind_eq_ok.mp hstep
      cases hok
      exact h.allocateRegion hreg memory (fun _ hp => hp) hserves hserves.used hfixed halloc

/-- What `solve` defers leaves `placed` alone. -/
theorem deferRequest_spec {layout layout' : Layout}
    (hdeferred : ∀ q ∈ layout.deferred, q ∈ config.requests ∧ q.2.Deferred)
    (hp : p ∈ config.requests) (hstep : deferRequest layout p = .ok layout') :
    layout'.placed = layout.placed ∧
      ∀ q ∈ layout'.deferred, q ∈ config.requests ∧ q.2.Deferred := by
  unfold deferRequest at hstep
  split at hstep
  · next hshared hsize =>
      split at hstep
      · cases hstep
      · split at hstep
        · cases hstep
          refine ⟨rfl, fun q hq => ?_⟩
          rcases mem_insert hq with rfl | hold
          · exact ⟨hp, hshared, hsize⟩
          · exact hdeferred q hold
        · cases hstep
          exact ⟨rfl, hdeferred⟩
  · cases hstep
    exact ⟨rfl, hdeferred⟩

theorem Solving.Good.nil (hreg : Regular config) :
    Solving.Good config reservations ⟨[], [], []⟩ := by
  refine ⟨[], rfl, Arranged.nil, fun place c hused hc => ?_, (fun _ h => nomatch h)⟩
  exact ⟨rfl, seed_endAddr (hreg.small place hused) hc, Nat.le_refl c, Nat.le_add_right c _,
    (fun _ h => nomatch h)⟩

theorem solve_sound (hreg : Regular config) (hpower : PowerAligned config)
    (memory : Memory Phys config) {layout : Layout}
    (h : solve config reservations = .ok layout) : Sound config reservations layout := by
  obtain ⟨groups, hgroups, h⟩ := except_bind_eq_ok.mp h
  obtain ⟨st, hst, h⟩ := except_bind_eq_ok.mp h
  obtain ⟨fixed, hfixed, h⟩ := except_bind_eq_ok.mp h
  obtain ⟨st', hst', h⟩ := except_bind_eq_ok.mp h
  have hgroupsValid : GroupsValid config groups :=
    foldlM_keeps (P := GroupsValid config)
      (fun p hp _ _ hvalid hstep => hvalid.joinShared hreg hpower hp hstep)
      (forall_mem_nil _) hgroups
  have hfixedFrom : FixedFrom config fixed :=
    foldlM_keeps (P := FixedFrom config)
      (fun p hp _ _ hfrom hstep => hfrom.fixedRegion hreg hpower hp hstep)
      (forall_mem_nil _) hfixed
  have hshared : st.Good config reservations :=
    foldlM_keeps (P := Solving.Good config reservations)
      (fun p hp _ _ hgood hstep => Good.allocateShared hreg memory hgood (hgroupsValid p hp)
        (fun _ _ hgroup hdeferred => hgroup hdeferred.1) hstep)
      (Solving.Good.nil hreg) hst
  have hall : st'.Good config reservations :=
    foldlM_keeps (P := Solving.Good config reservations)
      (fun r hr _ _ hgood hstep => hgood.allocateFixed hreg memory
        (hfixedFrom r ((mem_insertionSort _).mp hr)) hstep)
      hshared hst'
  have hlayout : layout.placed = st'.placed ∧
      ∀ q ∈ layout.deferred, q ∈ config.requests ∧ q.2.Deferred :=
    foldlM_keeps (P := fun layout : Layout => layout.placed = st'.placed ∧
        ∀ q ∈ layout.deferred, q ∈ config.requests ∧ q.2.Deferred)
      (fun p hp _ _ hlayout hstep => by
        obtain ⟨hplaced, hdeferred⟩ := deferRequest_spec hlayout.2 hp hstep
        exact ⟨hplaced.trans hlayout.1, hdeferred⟩)
      ⟨rfl, forall_mem_nil _⟩ h
  obtain ⟨spots, hplaced, harranged, _, hspots⟩ := hall
  refine ⟨spots, hlayout.1.trans hplaced, harranged, fun p hp q hq => ?_, hlayout.2⟩
  grind [phase]

end Rcard.Tfw
