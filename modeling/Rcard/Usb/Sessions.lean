/-
Sessions of the USB bus.

An endpoint is opened with any handle number below the endpoint count that was not used in
the session: `open` does not ask whether it was issued, nor when.  An endpoint of an
earlier session acts on the tables by its endpoint number, and so on the session that is
current.

The sessions are separate as long as clients open only with handles that the session has
issued, and what an endpoint of an earlier session does finds nothing to act on: it is
dropped while no endpoint is open, transfers while no device is built, and stalls while no
bus is taken.
-/
import Mathlib.Data.List.Nodup
import Rcard.Usb.Bus

namespace Rcard.UsbBus

open List Option State

/-- The endpoint belongs to the session that is going on. -/
def Current (s : State) (ep : Endpoint) : Prop := s.usb.busTaken ∧ ep.session = s.session

instance (s : State) (ep : Endpoint) : Decidable (Current s ep) :=
  inferInstanceAs (Decidable (_ ∧ _))

/-- The endpoint whose turn it is is current, or there is nothing it could disturb. -/
def Allowed (s : State) : Event → Prop
  | .openEndpoint handle _ => s.usb.busTaken → handle.toNat < s.usb.handlesIssued
  | .write key _ _ => ∀ ep ∈ s.endpoint key, Current s ep ∨ s.usb.device = none
  | .read key _ => ∀ ep ∈ s.endpoint key, Current s ep ∨ s.usb.device = none
  | .setStall key _ => ∀ ep ∈ s.endpoint key, Current s ep ∨ s.usb.busTaken = false
  | .dropEndpoint key => ∀ ep ∈ s.endpoint key, Current s ep ∨ s.usb.endpointsOpened = 0
  | _ => True

instance (s : State) : (e : Event) → Decidable (Allowed s e)
  | .take _ _ _ => isTrue trivial
  | .takeEndpointHandle => isTrue trivial
  | .dropBus => isTrue trivial
  | .poll _ => isTrue trivial
  | .openEndpoint handle _ =>
    inferInstanceAs (Decidable (s.usb.busTaken → handle.toNat < s.usb.handlesIssued))
  | .write key _ _ =>
    inferInstanceAs (Decidable (∀ ep ∈ s.endpoint key, Current s ep ∨ s.usb.device = none))
  | .read key _ =>
    inferInstanceAs (Decidable (∀ ep ∈ s.endpoint key, Current s ep ∨ s.usb.device = none))
  | .setStall key _ =>
    inferInstanceAs (Decidable (∀ ep ∈ s.endpoint key, Current s ep ∨ s.usb.busTaken = false))
  | .dropEndpoint key =>
    inferInstanceAs (Decidable (∀ ep ∈ s.endpoint key, Current s ep ∨ s.usb.endpointsOpened = 0))

def Orderly : State → List Event → Prop
  | _, [] => True
  | s, e :: es => Allowed s e ∧ ∀ s' ∈ s.step e, Orderly s' es

instance decidableOrderly : (s : State) → (es : List Event) → Decidable (Orderly s es)
  | _, [] => isTrue trivial
  | s, e :: es =>
    have := fun s' => decidableOrderly s' es
    inferInstanceAs (Decidable (Allowed s e ∧ ∀ s' ∈ s.step e, Orderly s' es))

/-- What is known of the current session is what was opened in it and not dropped. -/
structure Isolated (s : State) : Prop where
  /-- The handle of every endpoint was issued in the session that opened it. -/
  issued : ∀ o ∈ s.openings, o.handle < o.issued
  once : (s.openings.map fun o => (o.session, o.handle)).Nodup
  table : ∀ d i c, s.usb.slots d i = some c ↔
    ∃ ep ∈ s.endpoints, Current s ep ∧ ep.config = c ∧ c.direction = d ∧ c.number = i + 1
  opened : s.usb.endpointsOpened = s.endpoints.countP fun ep => Current s ep
  traffic : ∀ r ∈ s.traffic, ∀ n, r.session = some n → r.endpoint.session = n

structure Inv (s : State) : Prop extends Isolated s where
  idle : s.usb.busTaken = false → s.usb = .new
  count : s.usb.handlesIssued ≤ s.usb.endpointCount ∧ s.usb.endpointCount < 2 ^ 8
  nodup : s.endpoints.Nodup
  fresh : ∀ ep ∈ s.endpoints, ep.key < s.nextKey
  numbered : ∀ ep ∈ s.endpoints, 1 ≤ ep.config.number
  past : ∀ ep ∈ s.endpoints, ep.session ≤ s.session
  pastOpenings : ∀ o ∈ s.openings, o.session ≤ s.session
  /-- No two endpoints of the session have one slot. -/
  alone : ∀ ep ∈ s.endpoints, ∀ ep' ∈ s.endpoints, Current s ep → Current s ep' →
    ep.config.direction = ep'.config.direction → ep.config.number = ep'.config.number → ep = ep'
  /-- The handles opened with in this session are marked. -/
  marked : ∀ o ∈ s.openings, s.usb.busTaken → o.session = s.session →
    o.handle < s.usb.handlesIssued ∧ s.usb.handlesConsumed.testBit (o.handle % 8)

theorem inv_start : Inv State.start := by
  refine ⟨⟨nofun, nodup_nil, fun d i c => ⟨nofun, ?_⟩, rfl, nofun⟩, fun _ => rfl, by decide,
    nodup_nil, nofun, nofun, nofun, nofun, nofun, nofun⟩
  rintro ⟨ep, hep, -⟩
  cases hep

section Step

variable {s : State}

/-- A change of the global record that leaves the tables alone and forgets no mark. -/
theorem Inv.setUsb (h : Inv s) {usb : UsbGlobal} (htaken : usb.busTaken = s.usb.busTaken)
    (hslots : usb.slots = s.usb.slots) (hopened : usb.endpointsOpened = s.usb.endpointsOpened)
    (hidle : usb.busTaken = false → usb = .new)
    (hcount : usb.handlesIssued ≤ usb.endpointCount ∧ usb.endpointCount < 2 ^ 8)
    (hissued : s.usb.handlesIssued ≤ usb.handlesIssued)
    (hconsumed : ∀ k, s.usb.handlesConsumed.testBit k → usb.handlesConsumed.testBit k) :
    Inv { s with usb } := by
  have hcurrent : ∀ ep, Current { s with usb } ep ↔ Current s ep := by
    intro ep
    rw [Current, Current, htaken]
  refine { h with
    table := ?_, opened := ?_, idle := hidle, count := hcount, alone := ?_, marked := ?_ }
  · simp only [hcurrent]
    rw [hslots]
    exact h.table
  · simp only [hcurrent]
    rw [hopened]
    exact h.opened
  · simp only [hcurrent]
    exact h.alone
  · intro o ho htaken' hsession
    obtain ⟨hlt, hbit⟩ := h.marked o ho (htaken ▸ htaken') hsession
    exact ⟨Nat.lt_of_lt_of_le hlt hissued, hconsumed _ hbit⟩

theorem Inv.poll (h : Inv s) (state : BusState) : Inv { s with usb := s.usb.poll state } := by
  refine h.setUsb rfl rfl rfl ?_ h.count (Nat.le_refl _) fun _ => id
  intro hfree
  rw [h.idle hfree]
  rfl

theorem Inv.takeEndpointHandle (h : Inv s) (htaken : s.usb.busTaken) :
    Inv { s with usb := s.usb.takeEndpointHandle.1 } := by
  rw [UsbGlobal.takeEndpointHandle]
  split
  · exact h
  · refine h.setUsb rfl rfl rfl ?_ ⟨by dsimp only; omega, h.count.2⟩ (Nat.le_succ _) fun _ => id
    intro hfree
    rw [htaken] at hfree
    cases hfree

/-- Without a session no endpoint is current. -/
theorem not_current {ep : Endpoint} (hfree : s.usb.busTaken = false) : ¬Current s ep := by
  rintro ⟨htaken, -⟩
  rw [hfree] at htaken
  cases htaken

/-- A session in which nothing was opened. -/
theorem Inv.clean (h : Inv s) {usb : UsbGlobal} {session : Nat}
    (hnone : ∀ ep ∈ s.endpoints, ¬Current { s with usb, session } ep)
    (hslots : ∀ d i, usb.slots d i = none) (hopened : usb.endpointsOpened = 0)
    (hidle : usb.busTaken = false → usb = .new)
    (hcount : usb.handlesIssued ≤ usb.endpointCount ∧ usb.endpointCount < 2 ^ 8)
    (hlater : s.session ≤ session)
    (hmarked : usb.busTaken → s.session < session) : Inv { s with usb, session } := by
  refine ⟨⟨h.issued, h.once, ?_, ?_, h.traffic⟩, hidle, hcount, h.nodup, h.fresh,
    h.numbered, fun ep hep => Nat.le_trans (h.past ep hep) hlater,
    fun o ho => Nat.le_trans (h.pastOpenings o ho) hlater,
    fun ep hep _ _ hcurrent => absurd hcurrent (hnone ep hep), ?_⟩
  · grind
  · grind
  · intro o ho htaken hsession
    have hpast := h.pastOpenings o ho
    have hlt := hmarked htaken
    dsimp only at hsession
    omega

theorem Inv.dropBus (h : Inv s) : Inv { s with usb := s.usb.reset } :=
  h.clean (fun _ _ => not_current rfl) (fun _ _ => rfl) rfl (fun _ => rfl)
    ⟨Nat.le_refl _, Nat.two_pow_pos 8⟩ (Nat.le_refl _) nofun

theorem Inv.take (h : Inv s) (blobLen : Nat) (valid : Bool) (endpoints : UInt8) :
    Inv (s.take blobLen valid endpoints) := by
  rw [State.take, UsbGlobal.take]
  split_ifs with htaken hlong hvalid
  · exact h
  · exact h
  · exact h
  · have hnew := h.idle (Bool.eq_false_iff.mpr htaken)
    rw [hnew]
    refine h.clean ?_ (fun _ _ => rfl) rfl nofun ⟨Nat.zero_le _, endpoints.toNat_lt⟩
      (Nat.le_succ _) fun _ => Nat.lt_succ_self _
    rintro ep hep ⟨-, hsession⟩
    have hpast := h.past ep hep
    dsimp only at hsession
    omega

/-- What an endpoint does to the hardware during a session is done by one of its own. -/
theorem Inv.record (h : Inv s) {ep : Endpoint} (hep : s.usb.busTaken → ep.session = s.session)
    (act : Act) : Inv (s.record ep act) := by
  refine { h with traffic := ?_ }
  intro r hr n hn
  rcases mem_append.mp hr with hr | hr
  · exact h.traffic r hr n hn
  grind

end Step

/-! ## Opening -/

theorem handleMask_eq (handleId : Nat) : UsbGlobal.handleMask handleId = 2 ^ (handleId % 8) := by
  rw [UsbGlobal.handleMask, Nat.one_shiftLeft]

theorem and_handleMask_eq_zero {consumed handleId : Nat}
    (h : consumed &&& UsbGlobal.handleMask handleId = 0) :
    consumed.testBit (handleId % 8) = false := by
  rw [handleMask_eq, Nat.and_two_pow] at h
  grind

theorem testBit_consume (usb : UsbGlobal) (handleId k : Nat) :
    (usb.consume handleId).handlesConsumed.testBit k =
      (usb.handlesConsumed.testBit k || decide (handleId % 8 = k)) := by
  rw [UsbGlobal.consume, handleMask_eq, Nat.testBit_or, Nat.testBit_two_pow]

/-- What a successful `open` found and what it left. -/
structure Opened (usb : UsbGlobal) (handle : Nat) (config : EndpointConfig) (usb' : UsbGlobal) :
    Prop where
  taken : usb.busTaken
  unmarked : usb.handlesConsumed.testBit (handle % 2 ^ 8 % 8) = false
  number : 1 ≤ config.number
  slot : usb.slots config.direction (config.number - 1) = none
  taken' : usb'.busTaken = usb.busTaken
  slots : usb'.slots = usb.slots.set config.direction (config.number - 1) (some config)
  opened : usb'.endpointsOpened = usb.endpointsOpened + 1
  endpointCount : usb'.endpointCount = usb.endpointCount
  handlesIssued : usb'.handlesIssued = usb.handlesIssued
  handlesConsumed : usb'.handlesConsumed = (usb.consume (handle % 2 ^ 8)).handlesConsumed

theorem UsbGlobal.openEndpoint_cases (usb : UsbGlobal) (handle : Nat) (config : EndpointConfig) :
    (∃ e, usb.openEndpoint handle config = (usb, .error e)) ∨
      (∃ e, usb.busTaken ∧
        usb.openEndpoint handle config = (usb.consume (handle % 2 ^ 8), .error e)) ∨
      ∃ usb', usb.openEndpoint handle config = (usb', .ok ()) ∧ Opened usb handle config usb' := by
  rw [UsbGlobal.openEndpoint]
  dsimp only
  split_ifs with htaken hcount hmask hnumber hslot hlast
  · exact .inl ⟨_, rfl⟩
  · exact .inl ⟨_, rfl⟩
  · exact .inl ⟨_, rfl⟩
  · exact .inr (.inl ⟨_, by simpa using htaken, rfl⟩)
  · exact .inr (.inl ⟨_, by simpa using htaken, rfl⟩)
  all_goals
    refine .inr (.inr ⟨_, rfl, ⟨by simpa using htaken, ?_, by omega, ?_, rfl, rfl, rfl, rfl, rfl,
      rfl⟩⟩)
    · exact and_handleMask_eq_zero (not_not.mp hmask)
    · exact not_isSome_iff_eq_none.mp hslot

section Open

variable {s : State} {usb : UsbGlobal} {config : EndpointConfig} {handle : Nat}

/-- No endpoint of the session has a slot that is free. -/
theorem Inv.slot_free (h : Inv s) (hslot : s.usb.slots config.direction (config.number - 1) = none)
    (hnumber : 1 ≤ config.number) {ep : Endpoint} (hep : ep ∈ s.endpoints) (hcurrent : Current s ep)
    (hdirection : ep.config.direction = config.direction) : ep.config.number ≠ config.number := by
  intro hsame
  have hfull := (h.table config.direction (config.number - 1) ep.config).mpr
    ⟨ep, hep, hcurrent, rfl, hdirection, by omega⟩
  rw [hslot] at hfull
  cases hfull

/-- A handle that was opened with in this session is marked. -/
theorem Inv.new_opening (h : Inv s) (hopen : Opened s.usb handle config usb)
    {o : Opening} (ho : o ∈ s.openings) :
    (o.session, o.handle) ≠ (s.session, handle) := by
  intro hsame
  obtain ⟨hsession, hhandle⟩ := Prod.mk.inj hsame
  have hmark := (h.marked o ho hopen.taken hsession).2
  have hunmarked := hopen.unmarked
  grind

theorem Inv.table_opening (h : Inv s) (hopen : Opened s.usb handle config usb) (d : Direction)
    (i : Nat) (c : EndpointConfig) :
    usb.slots d i = some c ↔
      ∃ ep ∈ s.endpoints ++ [⟨s.nextKey, config, s.session, handle⟩],
        Current s ep ∧ ep.config = c ∧ c.direction = d ∧ c.number = i + 1 := by
  have hnumber := hopen.number
  rw [hopen.slots, Slots.set]
  split
  · rename_i hplace
    obtain ⟨rfl, rfl⟩ := hplace
    constructor
    · intro hsame
      cases hsame
      exact ⟨_, mem_append_right _ (mem_singleton.mpr rfl), ⟨hopen.taken, rfl⟩, rfl, rfl, by omega⟩
    · rintro ⟨ep, hep, hcurrent, rfl, hdirection, hsame⟩
      rcases mem_append.mp hep with hep | hep
      · exact absurd (by omega) (h.slot_free hopen.slot hnumber hep hcurrent hdirection)
      · rw [mem_singleton.mp hep]
  · rw [h.table]
    grind

def opening (s : State) (usb : UsbGlobal) (handle : Nat) (config : EndpointConfig) : State :=
  { s with
    usb
    endpoints := s.endpoints ++ [⟨s.nextKey, config, s.session, handle⟩]
    nextKey := s.nextKey + 1
    openings := s.openings ++ [⟨s.session, handle, s.usb.handlesIssued⟩] }

theorem Inv.opening (h : Inv s) (hopen : Opened s.usb handle config usb)
    (hissued : handle < s.usb.handlesIssued) : Inv (opening s usb handle config) := by
  have hcurrent : ∀ ep, Current (UsbBus.opening s usb handle config) ep ↔ Current s ep := by
    intro ep
    rw [Current, Current, UsbBus.opening]
    dsimp only
    rw [hopen.taken']
  have hnew : Current s ⟨s.nextKey, config, s.session, handle⟩ := ⟨hopen.taken, rfl⟩
  have hnumber := hopen.number
  refine ⟨⟨?_, ?_, ?_, ?_, h.traffic⟩, ?_, ?_, ?_, ?_, ?_, ?_, ?_, ?_, ?_⟩
  · exact forall_mem_append.mpr ⟨h.issued, forall_mem_singleton.mpr hissued⟩
  · rw [UsbBus.opening, map_append]
    refine nodup_append.mpr ⟨h.once, nodup_singleton _, ?_⟩
    intro a ha b hb
    obtain ⟨o, ho, rfl⟩ := mem_map.mp ha
    rw [mem_singleton.mp hb]
    exact h.new_opening hopen ho
  · simp only [hcurrent]
    exact h.table_opening hopen
  · simp only [hcurrent]
    rw [UsbBus.opening, hopen.opened, h.opened, countP_append, countP_singleton,
      if_pos (decide_eq_true hnew)]
  · intro hfree
    have htaken := hopen.taken'
    rw [hopen.taken] at htaken
    exact absurd (hfree.symm.trans htaken) (by decide)
  · rw [UsbBus.opening, hopen.handlesIssued, hopen.endpointCount]
    exact h.count
  · refine nodup_append.mpr ⟨h.nodup, nodup_singleton _, ?_⟩
    intro a ha b hb hab
    have hfresh := h.fresh a ha
    rw [hab, mem_singleton.mp hb] at hfresh
    exact Nat.lt_irrefl _ hfresh
  · refine forall_mem_append.mpr ⟨fun ep hep => ?_, forall_mem_singleton.mpr ?_⟩
    · exact Nat.lt_succ_of_lt (h.fresh ep hep)
    · exact Nat.lt_succ_self _
  · exact forall_mem_append.mpr ⟨h.numbered, forall_mem_singleton.mpr hnumber⟩
  · exact forall_mem_append.mpr ⟨h.past, forall_mem_singleton.mpr (Nat.le_refl _)⟩
  · exact forall_mem_append.mpr ⟨h.pastOpenings, forall_mem_singleton.mpr (Nat.le_refl _)⟩
  · simp only [hcurrent]
    intro a ha b hb hacurrent hbcurrent hdirection hsame
    rcases mem_append.mp ha with ha | ha <;> rcases mem_append.mp hb with hb | hb
    · exact h.alone a ha b hb hacurrent hbcurrent hdirection hsame
    · rw [mem_singleton.mp hb] at hdirection hsame
      exact absurd hsame (h.slot_free hopen.slot hnumber ha hacurrent hdirection)
    · rw [mem_singleton.mp ha] at hdirection hsame
      exact absurd hsame.symm (h.slot_free hopen.slot hnumber hb hbcurrent hdirection.symm)
    · rw [mem_singleton.mp ha, mem_singleton.mp hb]
  · intro o ho htaken hsession
    rw [UsbBus.opening] at hsession ⊢
    dsimp only at hsession ⊢
    rw [hopen.handlesIssued, hopen.handlesConsumed, testBit_consume]
    rcases mem_append.mp ho with ho | ho
    · obtain ⟨hlt, hbit⟩ := h.marked o ho hopen.taken hsession
      exact ⟨hlt, by rw [hbit, Bool.true_or]⟩
    grind

theorem Inv.openEndpoint (h : Inv s) (handle : UInt32) (config : EndpointConfig)
    (hissued : s.usb.busTaken → handle.toNat < s.usb.handlesIssued) :
    Inv (s.openEndpoint handle config) := by
  rw [State.openEndpoint]
  rcases s.usb.openEndpoint_cases handle.toNat config with
    ⟨e, heq⟩ | ⟨e, htaken, heq⟩ | ⟨usb, heq, hopen⟩
  · rw [heq]
    exact h
  · rw [heq]
    refine h.setUsb rfl rfl rfl ?_ h.count (Nat.le_refl _) fun k hk => ?_
    · intro hfree
      exact absurd (htaken.symm.trans hfree) (by decide)
    · rw [testBit_consume, hk, Bool.true_or]
  · rw [heq]
    exact h.opening hopen (hissued hopen.taken)

end Open

/-! ## Dropping -/

section Drop

variable {s : State} {ep : Endpoint}

variable (h : Inv s)
include h

/-- With no endpoint open the tables are empty. -/
theorem Inv.empty (hopened : s.usb.endpointsOpened = 0) (d : Direction) (i : Nat) :
    s.usb.slots d i = none := by
  cases hslot : s.usb.slots d i with
  | none => rfl
  | some c =>
    obtain ⟨ep, hep, hcurrent, -⟩ := (h.table d i c).mp hslot
    have hnone := countP_eq_zero.mp (h.opened.symm.trans hopened) ep hep
    exact absurd (decide_eq_true hcurrent) hnone

/-- An endpoint that is dropped while none is open leaves everything as it is. -/
theorem Inv.dropEndpoint_idle (hopened : s.usb.endpointsOpened = 0) (config : EndpointConfig) :
    s.usb.dropEndpoint config = s.usb := by
  have hslots : s.usb.slots.set config.direction (config.number - 1) none = s.usb.slots := by
    funext d i
    rw [Slots.set]
    split
    · rw [h.empty hopened]
    · rfl
  rw [UsbGlobal.dropEndpoint, hslots, hopened, Nat.zero_sub, ← hopened]

theorem Inv.erase {usb : UsbGlobal} (htaken : usb.busTaken = s.usb.busTaken)
    (htable : ∀ d i c, usb.slots d i = some c ↔ ∃ ep' ∈ s.endpoints.erase ep,
      Current s ep' ∧ ep'.config = c ∧ c.direction = d ∧ c.number = i + 1)
    (hopened : usb.endpointsOpened = (s.endpoints.erase ep).countP fun ep' => Current s ep')
    (hidle : usb.busTaken = false → usb = .new)
    (hcount : usb.handlesIssued ≤ usb.endpointCount ∧ usb.endpointCount < 2 ^ 8)
    (hissued : usb.handlesIssued = s.usb.handlesIssued)
    (hconsumed : usb.handlesConsumed = s.usb.handlesConsumed) :
    Inv { s with usb, endpoints := s.endpoints.erase ep } := by
  have hcurrent : ∀ ep', Current { s with usb, endpoints := s.endpoints.erase ep } ep' ↔
      Current s ep' := by
    intro ep'
    rw [Current, Current, htaken]
  have hmem : ∀ ep' ∈ s.endpoints.erase ep, ep' ∈ s.endpoints := fun _ => mem_of_mem_erase
  refine ⟨⟨h.issued, h.once, ?_, ?_, h.traffic⟩, hidle, hcount, h.nodup.erase ep,
    fun ep' hep' => h.fresh ep' (hmem ep' hep'),
    fun ep' hep' => h.numbered ep' (hmem ep' hep'), fun ep' hep' => h.past ep' (hmem ep' hep'),
    h.pastOpenings, ?_, ?_⟩
  · simp only [hcurrent]
    exact htable
  · simp only [hcurrent]
    exact hopened
  · simp only [hcurrent]
    exact fun a ha b hb => h.alone a (hmem a ha) b (hmem b hb)
  · rw [htaken, hissued, hconsumed]
    exact h.marked

theorem Inv.dropEndpoint_current (hep : ep ∈ s.endpoints) (hcurrent : Current s ep) :
    Inv (s.dropEndpoint ep) := by
  have hnumber := h.numbered ep hep
  have hcount := (perm_cons_erase hep).countP_eq fun ep' => decide (Current s ep')
  rw [countP_cons, if_pos (decide_eq_true hcurrent), ← h.opened] at hcount
  refine h.erase rfl ?_ ?_ ?_ h.count rfl rfl
  · intro d i c
    change (if d = ep.config.direction ∧ i = ep.config.number - 1 then none
      else s.usb.slots d i) = some c ↔ _
    split
    · rename_i hplace
      refine ⟨nofun, ?_⟩
      rintro ⟨ep', hep', hcurrent', rfl, hdirection, hsame⟩
      obtain ⟨hne, hmem⟩ := h.nodup.mem_erase_iff.mp hep'
      exact absurd (h.alone ep' hmem ep hep hcurrent' hcurrent (hdirection.trans hplace.1)
        (by omega)) hne
    · rw [h.table]
      grind
  · rw [UsbGlobal.dropEndpoint]
    dsimp only
    omega
  · intro hfree
    exact absurd hcurrent (not_current hfree)

/-- With no endpoint open, a drop only removes the resource. -/
theorem Inv.dropEndpoint_stale (hopened : s.usb.endpointsOpened = 0) : Inv (s.dropEndpoint ep) := by
  have hnone := countP_eq_zero.mp (h.opened.symm.trans hopened)
  rw [dropEndpoint, h.dropEndpoint_idle hopened]
  refine h.erase rfl ?_ ?_ h.idle h.count rfl rfl
  · intro d i c
    rw [h.empty hopened]
    grind
  grind

end Drop

/-! ## Runs -/

section Run

variable {s s' : State}

/-- A transfer that the checks let through has a device, and so a session. -/
theorem transfer_ok {usb : UsbGlobal} {config : EndpointConfig} {d : Direction}
    (h : usb.transfer config d = .ok ()) : usb.device ≠ none := by
  intro hnone
  rw [UsbGlobal.transfer, hnone] at h
  split_ifs at h <;> cases h

theorem write_cases {ep : Endpoint} {data : List UInt8} {room : Bool}
    (h : s.write ep data room = some s') :
    s' = s ∨ s.usb.device ≠ none ∧ ∃ act, s' = s.record ep act := by
  rw [write] at h
  split at h
  · rename_i hok
    dsimp only at h
    split_ifs at h
    · cases h
      exact .inr ⟨transfer_ok hok, _, rfl⟩
    · cases h
      exact .inl rfl
  · cases h
    exact .inl rfl

theorem read_cases (s : State) (ep : Endpoint) (packet : Option (List UInt8)) :
    s.read ep packet = s ∨ s.usb.device ≠ none ∧ ∃ act, s.read ep packet = s.record ep act := by
  rw [read.eq_def]
  split
  · rename_i hok
    cases packet with
    | none => exact .inl rfl
    | some bytes =>
      dsimp only
      split
      · exact .inl rfl
      · exact .inr ⟨transfer_ok hok, _, rfl⟩
  · exact .inl rfl

theorem Inv.acts (h : Inv s) {ep : Endpoint} (hallowed : Current s ep ∨ s.usb.device = none)
    (hs : s' = s ∨ s.usb.device ≠ none ∧ ∃ act, s' = s.record ep act) : Inv s' := by
  rcases hs with rfl | ⟨hdevice, act, rfl⟩
  · exact h
  · exact h.record (fun _ => (hallowed.resolve_right hdevice).2) act

theorem Inv.step (h : Inv s) {e : Event} (hallowed : Allowed s e) (hs : s.step e = some s') :
    Inv s' := by
  cases e with
  | take blobLen valid endpoints =>
    cases hs
    exact h.take blobLen valid endpoints
  | takeEndpointHandle =>
    rw [State.step] at hs
    split at hs
    · cases hs
      exact h.takeEndpointHandle ‹_›
    · cases hs
  | dropBus =>
    rw [State.step] at hs
    split at hs
    · cases hs
      exact h.dropBus
    · cases hs
  | poll state =>
    cases hs
    exact h.poll state
  | openEndpoint handle config =>
    cases hs
    exact h.openEndpoint handle config hallowed
  | write key data room =>
    obtain ⟨ep, hep, hs⟩ := bind_eq_some_iff.mp hs
    exact h.acts (hallowed ep hep) (write_cases hs)
  | read key packet =>
    obtain ⟨ep, hep, rfl⟩ := map_eq_some_iff.mp hs
    exact h.acts (hallowed ep hep) (read_cases s ep packet)
  | setStall key stalled =>
    obtain ⟨ep, hep, rfl⟩ := map_eq_some_iff.mp hs
    refine h.record (fun htaken => ?_) _
    rcases hallowed ep hep with hcurrent | hfree
    · exact hcurrent.2
    · exact absurd (htaken.symm.trans hfree) (by decide)
  | dropEndpoint key =>
    obtain ⟨ep, hep, rfl⟩ := map_eq_some_iff.mp hs
    rcases hallowed ep hep with hcurrent | hopened
    · exact h.dropEndpoint_current (mem_of_find?_eq_some hep) hcurrent
    · exact h.dropEndpoint_stale hopened

theorem Inv.run (h : Inv s) {es : List Event} (ho : Orderly s es) (hs : s.run es = some s') :
    Inv s' := by
  induction es generalizing s with
  | nil =>
    cases hs
    exact h
  | cons e es ih =>
    obtain ⟨mid, hmid, hs⟩ := bind_eq_some_iff.mp hs
    exact ih (h.step ho.1 hmid) (ho.2 mid hmid) hs

end Run

/-- The endpoint that an event is asked of. -/
def Event.key : Event → Option Nat
  | .write key _ _ => some key
  | .read key _ => some key
  | .setStall key _ => some key
  | .dropEndpoint key => some key
  | _ => none

def State.trafficOf (s : State) (session : Nat) : List Traffic :=
  s.traffic.filter fun r => r.session = some session

/-- Without a device a transfer of an endpoint of an earlier session does nothing. -/
theorem idle_acts {s s' : State} {ep : Endpoint} (hstale : ¬Current s ep)
    (hallowed : Current s ep ∨ s.usb.device = none)
    (hs : s' = s ∨ s.usb.device ≠ none ∧ ∃ act, s' = s.record ep act) :
    s'.usb = s.usb ∧ s'.trafficOf s.session = s.trafficOf s.session := by
  grind

/-- What happens without a bus is in no session. -/
theorem trafficOf_record_free {s : State} (hfree : s.usb.busTaken = false) (ep : Endpoint)
    (act : Act) : (s.record ep act).trafficOf s.session = s.trafficOf s.session := by
  rw [trafficOf, record, filter_append, hfree]
  exact append_nil _

/-- In an orderly run, what the module knows of the session is what was opened in it, with
handles issued in it and each at most once, and an endpoint of an earlier session changes
neither the tables and counts nor the traffic. -/
theorem sessions_isolated {es : List Event} (horderly : Orderly .start es) {s : State}
    (hrun : State.run .start es = some s) :
    Isolated s ∧
      ∀ e key ep s', e.key = some key → s.endpoint key = some ep → ¬Current s ep → Allowed s e →
        s.step e = some s' → s'.usb = s.usb ∧ s'.trafficOf s.session = s.trafficOf s.session := by
  have h := inv_start.run horderly hrun
  refine ⟨h.toIsolated, ?_⟩
  intro e key ep s' hkey hep hstale hallowed hs
  cases e with
  | take _ _ _ => cases hkey
  | takeEndpointHandle => cases hkey
  | dropBus => cases hkey
  | poll _ => cases hkey
  | openEndpoint _ _ => cases hkey
  | write key data room =>
    cases hkey
    rw [step, hep] at hs
    exact idle_acts hstale (hallowed ep hep) (write_cases hs)
  | read key packet =>
    cases hkey
    rw [step, hep] at hs
    cases hs
    exact idle_acts hstale (hallowed ep hep) (read_cases s ep packet)
  | setStall key stalled =>
    cases hkey
    rw [step, hep] at hs
    cases hs
    have hfree := (hallowed ep hep).resolve_left hstale
    exact ⟨rfl, trafficOf_record_free hfree _ _⟩
  | dropEndpoint key =>
    cases hkey
    rw [step, hep] at hs
    cases hs
    have hopened := (hallowed ep hep).resolve_left hstale
    exact ⟨h.dropEndpoint_idle hopened ep.config, rfl⟩

def ep1In : EndpointConfig := { number := 1, direction := .dirIn, maxPacketSize := 64 }

/-- An endpoint of the first session is dropped before the second one opens its own. -/
def twoSessions : List Event :=
  [.take 0 true 1, .takeEndpointHandle, .openEndpoint 0 ep1In, .setStall 0 true, .dropBus,
    .take 0 true 1, .takeEndpointHandle, .dropEndpoint 0, .openEndpoint 0 ep1In]

theorem sessions_isolated_two : ∃ s, State.run .start twoSessions = some s ∧ Isolated s :=
  ⟨_, rfl, (sessions_isolated (by decide +kernel : Orderly .start twoSessions) rfl).1⟩

/-- An endpoint of the first session is dropped after the second one has opened its own. -/
def lateDrop : List Event :=
  [.take 0 true 1, .takeEndpointHandle, .openEndpoint 0 ep1In, .dropBus,
    .take 0 true 1, .takeEndpointHandle, .openEndpoint 0 ep1In]

/-- An endpoint is opened with a handle that was never issued, and a late drop takes the
slot and the count of the session that is current. -/
theorem sessions_mixed :
    (∃ s, State.run .start [.take 0 true 2, .openEndpoint 1 ep1In] = some s ∧
      s.openings = [⟨1, 1, 0⟩]) ∧
    ∃ s s', State.run .start lateDrop = some s ∧ s.step (.dropEndpoint 0) = some s' ∧
      s.usb.slots .dirIn 0 = some ep1In ∧ s.usb.endpointsOpened = 1 ∧
      s'.usb.slots .dirIn 0 = none ∧ s'.usb.endpointsOpened = 0 ∧
      s'.endpoints = [⟨1, ep1In, 2, 0⟩] :=
  ⟨⟨_, rfl, rfl⟩, _, _, rfl, rfl, rfl, rfl, rfl, rfl, rfl⟩

end Rcard.UsbBus
