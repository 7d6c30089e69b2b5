/-
Files and folders stay on their mount.

Whatever refers to a slot of the mount table acts on the mount that is there.  If the slot
is mounted again in the meantime, that is another mount.  As long as no mount takes a slot
that something still refers to, every call of littlefs is made on the mount that the file,
folder, iterator or name was made for.

An iterator finds its directory by the number of its opening.  That number comes round
after `2 ^ 32` openings, so a folder must not be opened under a number that an iterator has.
-/
import Mathlib.Data.List.Nodup
import Rcard.Fs.State

namespace Rcard.Fs

open List Function Option State FsState

/-! ## Conditions -/

/-- No open file or directory and no name refers to the slot. -/
def Unreferenced (s : State) (k : Nat) : Prop :=
  (∀ kind, ∀ j < maxOpen, (s.fs.slots kind j).occupied → (s.fs.slots kind j).fsId ≠ k) ∧
    ∀ i < maxRegistryEntries, (s.fs.registry i).fsId ≠ some k

instance (s : State) (k : Nat) : Decidable (Unreferenced s k) :=
  decidable_of_iff
    (((∀ j < maxOpen, (s.fs.slots .file j).occupied → (s.fs.slots .file j).fsId ≠ k) ∧
      ∀ j < maxOpen, (s.fs.slots .folder j).occupied → (s.fs.slots .folder j).fsId ≠ k) ∧
        ∀ i < maxRegistryEntries, (s.fs.registry i).fsId ≠ some k)
    (and_congr_left' ⟨fun h kind => kind.rec h.1 h.2, fun h => ⟨h .file, h .folder⟩⟩)

/-- No iterator has the number under which the next folder will be opened. -/
def Unnumbered (s : State) : Prop :=
  ∀ j ∈ s.fs.freeSlot .folder, ∀ it ∈ s.iterators, it.slot = j →
    it.generation ≠ State.nextGeneration (s.fs.slots .folder j) .folder

instance (s : State) : Decidable (Unnumbered s) :=
  inferInstanceAs (Decidable (∀ j ∈ s.fs.freeSlot .folder, ∀ it ∈ s.iterators, it.slot = j →
    it.generation ≠ State.nextGeneration (s.fs.slots .folder j) .folder))

def Allowed (s : State) : Event → Prop
  | .mount _ => ∀ k ∈ s.fs.allocate, Unreferenced s k
  | .autoMount _ _ => ∀ k ∈ s.fs.allocate, Unreferenced s k
  | .openIn .folder _ _ _ => Unnumbered s
  | .createFolder _ _ _ _ _ => Unnumbered s
  | _ => True

instance (s : State) : (e : Event) → Decidable (Allowed s e)
  | .mount _ | .autoMount _ _ =>
    inferInstanceAs (Decidable (∀ k ∈ s.fs.allocate, Unreferenced s k))
  | .openIn .folder _ _ _ | .createFolder _ _ _ _ _ => inferInstanceAs (Decidable (Unnumbered s))
  | .openIn .file _ _ _ | .register _ _ | .stat _ | .unmount _ | .openByName _ _ | .access _
  | .unlink _ | .drop _ | .iter _ | .next _ => isTrue trivial

def Orderly : State → List Event → Prop
  | _, [] => True
  | s, e :: es => Allowed s e ∧ ∀ s' ∈ s.step e, Orderly s' es

instance decidableOrderly : (s : State) → (es : List Event) → Decidable (Orderly s es)
  | _, [] => isTrue trivial
  | s, e :: es =>
    have := fun s' => decidableOrderly s' es
    inferInstanceAs (Decidable (Allowed s e ∧ ∀ s' ∈ s.step e, Orderly s' es))

/-- The call was made on the mount it was made for, with a state of that mount. -/
def Correct (c : Call) : Prop := c.via = some c.on ∧ ∀ m, c.state = some m → m = c.on

theorem correct_of_some {via state : Option Nat} {m : Nat} (hvia : via = some m)
    (hstate : state = some m) : Correct ⟨via, m, state⟩ :=
  ⟨hvia, fun _ h => some_inj.mp (h.symm.trans hstate)⟩

/-! ## The invariant -/

/-- What was made for a mount finds that mount in its slot, or none. -/
def Finds (fs : FsState) (fsId : Nat) (inst : Option Nat) : Prop :=
  ∀ m, fs.mounts fsId = some m → inst = some m

structure Inv (s : State) : Prop where
  systems : ∀ y ∈ s.systems, s.fs.mounts y.fsId = some y.inst
  distinct : s.systems.Nodup
  older : ∀ k m, s.fs.mounts k = some m → m < s.nextInst
  slots : ∀ kind j, (s.fs.slots kind j).occupied →
    j < maxOpen ∧ Finds s.fs (s.fs.slots kind j).fsId (s.fs.slots kind j).inst
  handles : ∀ h ∈ s.opened, (s.fs.slots h.kind h.slot).occupied ∧
    Finds s.fs (s.fs.slots h.kind h.slot).fsId h.inst
  refcount : ∀ kind j, (s.fs.slots kind j).occupied →
    (s.fs.slots kind j).refcount = s.opened.countP fun h => h.kind = kind ∧ h.slot = j
  bounded : ∀ kind, s.opened.countP (·.kind = kind) ≤ arenaSize + 1
  registry : ∀ i k, (s.fs.registry i).fsId = some k →
    i < maxRegistryEntries ∧ Finds s.fs k (s.fs.registry i).inst
  iterators : ∀ it ∈ s.iterators, (s.fs.slots .folder it.slot).occupied →
    (s.fs.slots .folder it.slot).generation = it.generation →
      (s.fs.slots .folder it.slot).fsId = it.fsId ∧ Finds s.fs it.fsId it.inst
  calls : ∀ c ∈ s.calls, Correct c

theorem inv_start : Inv State.start :=
  ⟨nofun, nodup_nil, nofun, nofun, nofun, nofun, fun _ => Nat.zero_le _, nofun, nofun, nofun⟩

section Mount

variable {s : State} {fs : FsState} {k fsId : Nat} {inst : Option Nat}

theorem mounts_setMount_self (fs : FsState) (k : Nat) (m : Option Nat) :
    (fs.setMount k m).mounts k = m := by
  dsimp only [setMount]
  rw [update_self]

theorem mounts_setMount_of_ne (fs : FsState) {k k' : Nat} (h : k' ≠ k) (m : Option Nat) :
    (fs.setMount k m).mounts k' = fs.mounts k' := by
  dsimp only [setMount]
  rw [update_of_ne h]

theorem Finds.setMount_of_ne (h : Finds fs fsId inst) (hne : fsId ≠ k) (m : Option Nat) :
    Finds (fs.setMount k m) fsId inst := by
  intro m' hm'
  rw [mounts_setMount_of_ne fs hne] at hm'
  exact h m' hm'

theorem Finds.unmount (h : Finds fs fsId inst) (k : Nat) :
    Finds (fs.setMount k none) fsId inst := by
  by_cases hk : fsId = k
  · intro m' hm'
    rw [hk, mounts_setMount_self] at hm'
    cases hm'
  · exact h.setMount_of_ne hk none

theorem allocate_none (h : s.fs.allocate = some k) : s.fs.mounts k = none := by
  have hfound := find?_some h
  exact isNone_iff_eq_none.mp hfound

/-- A mount that takes a slot nothing refers to. -/
theorem Inv.mounted (h : Inv s) (hk : s.fs.mounts k = none) (hfree : Unreferenced s k) :
    Inv { s with fs := s.fs.setMount k (some s.nextInst), nextInst := s.nextInst + 1 } := by
  refine ⟨?_, h.distinct, ?_, ?_, ?_, h.refcount, h.bounded, ?_, ?_, h.calls⟩
  · intro y hy
    have hmount := h.systems y hy
    have hne : y.fsId ≠ k := by
      rintro rfl
      rw [hk] at hmount
      cases hmount
    exact (mounts_setMount_of_ne s.fs hne _).trans hmount
  · intro k' m hm
    by_cases hk' : k' = k
    · rw [hk', mounts_setMount_self] at hm
      cases hm
      exact Nat.lt_succ_self _
    · rw [mounts_setMount_of_ne s.fs hk'] at hm
      exact Nat.lt_succ_of_lt (h.older k' m hm)
  · intro kind j hocc
    obtain ⟨hj, hfinds⟩ := h.slots kind j hocc
    exact ⟨hj, hfinds.setMount_of_ne (hfree.1 kind j hj hocc) _⟩
  · intro g hg
    obtain ⟨hocc, hfinds⟩ := h.handles g hg
    obtain ⟨hj, -⟩ := h.slots g.kind g.slot hocc
    exact ⟨hocc, hfinds.setMount_of_ne (hfree.1 g.kind g.slot hj hocc) _⟩
  · intro i k' hk'
    obtain ⟨hi, hfinds⟩ := h.registry i k' hk'
    refine ⟨hi, hfinds.setMount_of_ne ?_ _⟩
    rintro rfl
    exact hfree.2 i hi hk'
  · intro it hit hocc hgen
    obtain ⟨hfs, hfinds⟩ := h.iterators it hit hocc hgen
    obtain ⟨hj, -⟩ := h.slots .folder it.slot hocc
    exact ⟨hfs, hfinds.setMount_of_ne (hfs ▸ hfree.1 .folder it.slot hj hocc) _⟩

theorem Inv.call (h : Inv s) {c : Call} (hc : Correct c) : Inv (s.call c) := by
  refine { h with calls := ?_ }
  exact forall_mem_append.mpr ⟨h.calls, forall_mem_singleton.mpr hc⟩

/-- Adding a filesystem resource for the mount in a slot. -/
theorem Inv.addSystem (h : Inv s) {y : FileSystem} (hy : s.fs.mounts y.fsId = some y.inst)
    (hnew : y ∉ s.systems) : Inv { s with systems := s.systems ++ [y] } := by
  refine { h with systems := ?_, distinct := ?_ }
  · exact forall_mem_append.mpr ⟨h.systems, forall_mem_singleton.mpr hy⟩
  · refine nodup_append.mpr ⟨h.distinct, nodup_singleton y, ?_⟩
    intro a ha b hb hab
    rw [hab, mem_singleton.mp hb] at ha
    exact hnew ha

theorem Inv.mount (h : Inv s) (rcs : List Int) (hallowed : ∀ k ∈ s.fs.allocate, Unreferenced s k) :
    Inv (s.mount rcs) := by
  rw [State.mount, State.mounted]
  cases hk : s.fs.allocate with
  | none => exact h
  | some k =>
    dsimp only
    split
    · rename_i heq
      split at heq
      · cases heq
        have hmounted := h.mounted (allocate_none hk) (hallowed k hk)
        refine hmounted.addSystem (mounts_setMount_self _ _ _) ?_
        intro hmem
        have hold := h.older k _ (h.systems _ hmem)
        exact Nat.lt_irrefl _ hold
      · cases heq
    · exact h

theorem Inv.unmount (h : Inv s) {y : FileSystem} (hy : y ∈ s.systems) : Inv (s.unmount y) := by
  have hmount := h.systems y hy
  rw [State.unmount, hmount]
  have hcall : Inv (s.call ⟨some y.inst, y.inst, none⟩) := h.call ⟨rfl, nofun⟩
  refine ⟨?_, h.distinct.erase y, ?_, ?_, ?_, h.refcount, h.bounded, ?_, ?_, hcall.calls⟩
  · intro y' hy'
    obtain ⟨hne, hmem⟩ := h.distinct.mem_erase_iff.mp hy'
    have hmount' := h.systems y' hmem
    have hfs : y'.fsId ≠ y.fsId := by
      intro hsame
      rw [hsame, hmount] at hmount'
      exact hne (by cases y; cases y'; cases hsame; cases hmount'; rfl)
    exact (mounts_setMount_of_ne s.fs hfs none).trans hmount'
  · intro k m hm
    by_cases hk : k = y.fsId
    · rw [hk, mounts_setMount_self] at hm
      cases hm
    · exact h.older k m ((mounts_setMount_of_ne s.fs hk none).symm.trans hm)
  · exact fun kind j hocc => ⟨(h.slots kind j hocc).1, (h.slots kind j hocc).2.unmount _⟩
  · exact fun g hg => ⟨(h.handles g hg).1, (h.handles g hg).2.unmount _⟩
  · exact fun i k hk => ⟨(h.registry i k hk).1, (h.registry i k hk).2.unmount _⟩
  · exact fun it hit hocc hgen =>
      ⟨(h.iterators it hit hocc hgen).1, (h.iterators it hit hocc hgen).2.unmount _⟩

end Mount

section Register

variable {s : State}

theorem lookup_mem {name : List UInt8} {e : RegistryEntry} (h : s.fs.lookup name = some e) :
    ∃ i, s.fs.registry i = e := by
  obtain ⟨i, -, hi⟩ := mem_map.mp (mem_of_find?_eq_some h)
  exact ⟨i, hi⟩

theorem Inv.register (h : Inv s) (name : List UInt8) (fsId : Nat) :
    Inv { s with fs := s.fs.registerEntry name fsId } := by
  rw [registerEntry]
  split
  · exact h
  · split
    · rename_i i hi
      refine { h with registry := ?_ }
      intro i' k hk
      dsimp only at hk ⊢
      by_cases hi' : i' = i
      · grind [Finds]
      · rw [update_of_ne hi'] at hk ⊢
        exact h.registry i' k hk
    · exact h

theorem Inv.autoMount (h : Inv s) (name : List UInt8) (rc : Int)
    (hallowed : ∀ k ∈ s.fs.allocate, Unreferenced s k) : Inv (s.autoMount name rc) := by
  rw [State.autoMount, State.mounted]
  cases hk : s.fs.allocate with
  | none => exact h
  | some k =>
    dsimp only
    split
    · rename_i heq
      split at heq
      · cases heq
        exact (h.mounted (allocate_none hk) (hallowed k hk)).register name k
      · cases heq
    · exact h

end Register

/-! ## Slots -/

section Slots

variable {s : State} {kind : Kind} {j : Nat}

theorem slots_setSlot_self (fs : FsState) (kind : Kind) (j : Nat) (slot : Slot) :
    (fs.setSlot kind j slot).slots kind j = slot := if_pos ⟨rfl, rfl⟩

theorem slots_setSlot_of_ne (fs : FsState) {kind kind' : Kind} {j j' : Nat}
    (h : ¬(kind' = kind ∧ j' = j)) (slot : Slot) :
    (fs.setSlot kind j slot).slots kind' j' = fs.slots kind' j' := if_neg h

variable {slot : Slot} {via : Option Nat} {fsId : Nat}

/-- A change of one slot, together with the handles to it. -/
theorem Inv.setSlot (h : Inv s) {opened : List Handle}
    (hslot : slot.occupied → j < maxOpen ∧ Finds s.fs slot.fsId slot.inst ∧
      slot.refcount = opened.countP fun g => g.kind = kind ∧ g.slot = j)
    (hself : ∀ g ∈ opened, g.kind = kind ∧ g.slot = j → slot.occupied ∧ Finds s.fs slot.fsId g.inst)
    (hothers : ∀ g ∈ opened, ¬(g.kind = kind ∧ g.slot = j) → g ∈ s.opened)
    (hcounts : ∀ kind' j', ¬(kind' = kind ∧ j' = j) →
      (opened.countP fun g => g.kind = kind' ∧ g.slot = j') =
        s.opened.countP fun g => g.kind = kind' ∧ g.slot = j')
    (hbounded : ∀ kind', opened.countP (·.kind = kind') ≤ arenaSize + 1)
    (hiterators : ∀ it ∈ s.iterators, kind = .folder ∧ j = it.slot → slot.occupied →
      slot.generation = it.generation → slot.fsId = it.fsId ∧ Finds s.fs it.fsId it.inst) :
    Inv { s with fs := s.fs.setSlot kind j slot, opened } := by
  refine ⟨h.systems, h.distinct, h.older, ?_, ?_, ?_, hbounded, h.registry, ?_, h.calls⟩
  · intro kind' j' hocc
    by_cases hplace : kind' = kind ∧ j' = j
    · obtain ⟨rfl, rfl⟩ := hplace
      rw [slots_setSlot_self] at hocc ⊢
      exact ⟨(hslot hocc).1, (hslot hocc).2.1⟩
    · rw [slots_setSlot_of_ne s.fs hplace] at hocc ⊢
      exact h.slots kind' j' hocc
  · intro g hg
    by_cases hplace : g.kind = kind ∧ g.slot = j
    · obtain ⟨hocc, hfinds⟩ := hself g hg hplace
      rw [hplace.1, hplace.2, slots_setSlot_self]
      exact ⟨hocc, hfinds⟩
    · rw [slots_setSlot_of_ne s.fs hplace]
      exact h.handles g (hothers g hg hplace)
  · intro kind' j' hocc
    by_cases hplace : kind' = kind ∧ j' = j
    · grind [setSlot]
    · rw [slots_setSlot_of_ne s.fs hplace] at hocc ⊢
      dsimp only
      rw [hcounts kind' j' hplace]
      exact h.refcount kind' j' hocc
  · intro it hit hocc hgen
    by_cases hplace : Kind.folder = kind ∧ it.slot = j
    · obtain ⟨rfl, rfl⟩ := hplace
      rw [slots_setSlot_self] at hocc hgen ⊢
      exact hiterators it hit ⟨rfl, rfl⟩ hocc hgen
    · rw [slots_setSlot_of_ne s.fs hplace] at hocc hgen ⊢
      exact h.iterators it hit hocc hgen

theorem countP_le_room (s : State) (kind : Kind) (j : Nat) :
    (s.opened.countP fun g => g.kind = kind ∧ g.slot = j) ≤ s.opened.countP (·.kind = kind) := by
  refine countP_mono_left fun g _ hg => ?_
  exact decide_eq_true (of_decide_eq_true hg).1

/-- One more handle to a slot, and the slot as it is with it. -/
theorem Inv.addHandle (h : Inv s) (hroom : s.room kind) (hj : j < maxOpen) (hocc : slot.occupied)
    (hslot : Finds s.fs slot.fsId slot.inst) (hvia : Finds s.fs slot.fsId via)
    (hcount : slot.refcount = (s.opened.countP fun g => g.kind = kind ∧ g.slot = j) + 1)
    (hhandles : ∀ g ∈ s.opened, g.kind = kind ∧ g.slot = j → Finds s.fs slot.fsId g.inst)
    (hiterators : ∀ it ∈ s.iterators, kind = .folder ∧ j = it.slot →
      slot.generation = it.generation → slot.fsId = it.fsId ∧ Finds s.fs it.fsId it.inst) :
    Inv { s with fs := s.fs.setSlot kind j slot, opened := s.opened ++ [⟨kind, j, via⟩] } := by
  refine h.setSlot ?_ ?_ ?_ ?_ ?_ fun it hit hplace _ => hiterators it hit hplace
  · grind
  · grind
  · grind
  · grind
  · intro kind'
    rw [countP_append, countP_singleton]
    by_cases hkind : kind = kind'
    · subst hkind
      rw [if_pos (by simp)]
      exact Nat.succ_le_succ hroom
    · rw [if_neg (by simpa using hkind)]
      exact h.bounded kind'

theorem Inv.share (h : Inv s) (hroom : s.room kind) {path : List UInt8}
    (hj : s.fs.findExisting kind fsId path = some j) (hvia : Finds s.fs fsId via) :
    Inv (State.keep kind via (s.share kind j, .ok j)) := by
  have hfound := find?_some hj
  simp only [Bool.and_eq_true, decide_eq_true_eq] at hfound
  obtain ⟨⟨hocc, hfs⟩, -⟩ := hfound
  have hrefcount := h.refcount kind j hocc
  have hle := countP_le_room s kind j
  have hfour : s.opened.countP (·.kind = kind) ≤ 4 := hroom
  refine h.addHandle hroom (h.slots kind j hocc).1 hocc (h.slots kind j hocc).2 ?_ ?_ ?_ ?_
  · rw [← hfs] at hvia
    exact hvia
  · dsimp only [u8Max]
    omega
  · rintro g hg ⟨rfl, rfl⟩
    exact (h.handles g hg).2
  · rintro it hit ⟨rfl, rfl⟩ hgen
    exact h.iterators it hit hocc hgen

theorem freeSlot_spec (hj : s.fs.freeSlot kind = some j) :
    j < maxOpen ∧ (s.fs.slots kind j).occupied = false := by
  have hfound := find?_some hj
  exact ⟨mem_range.mp (mem_of_find?_eq_some hj), by simpa using hfound⟩

section

variable (h : Inv s)
include h

theorem Inv.no_handle (hfree : (s.fs.slots kind j).occupied = false) {g : Handle}
    (hg : g ∈ s.opened) : ¬(g.kind = kind ∧ g.slot = j) := by
  rintro ⟨rfl, rfl⟩
  rw [(h.handles g hg).1] at hfree
  cases hfree

/-- A slot that is free is changed and stays free. -/
theorem Inv.setFree (hfree : (s.fs.slots kind j).occupied = false) (hslot : slot.occupied = false) :
    Inv { s with fs := s.fs.setSlot kind j slot } := by
  have hnot : ¬slot.occupied := by rw [hslot]; exact Bool.false_ne_true
  exact h.setSlot (fun hocc => absurd hocc hnot)
    (fun g hg hplace => absurd hplace (h.no_handle hfree hg)) (fun g hg _ => hg)
    (fun _ _ _ => rfl) h.bounded fun _ _ _ hocc => absurd hocc hnot

/-- Under a new number no iterator finds the slot. -/
theorem Inv.openNew (hroom : s.room kind) (path : List UInt8) (rc : Int)
    (hvia : Finds s.fs fsId via) (hnumber : kind = .folder → Unnumbered s) :
    Inv (State.keep kind via (s.openNew kind fsId path via rc)) := by
  rw [State.openNew]
  cases hj : s.fs.freeSlot kind with
  | none => exact h
  | some j =>
    cases hm : s.fs.mounts fsId with
    | none => exact h
    | some m =>
      obtain ⟨hlt, hfree⟩ := freeSlot_spec hj
      have hinst := hvia m hm
      have hcall : Inv (s.call ⟨via, m, some m⟩) := h.call (correct_of_some hinst rfl)
      have hfinds : Finds s.fs fsId (some m) := fun m' hm' => hm.symm.trans hm'
      dsimp only
      split
      · refine hcall.addHandle hroom hlt rfl hfinds hvia ?_ ?_ ?_
        · symm
          refine Nat.succ_inj.mpr (countP_eq_zero.mpr fun g hg => ?_)
          rw [decide_eq_true_eq]
          exact h.no_handle hfree hg
        · exact fun g hg hplace => absurd hplace (h.no_handle hfree hg)
        · rintro it hit ⟨rfl, rfl⟩ hgen
          exact absurd hgen.symm (hnumber rfl it.slot hj it hit rfl)
      · exact hcall.setFree hfree hfree

theorem Inv.openSlot (hroom : s.room kind) (path : List UInt8) (rc : Int)
    (hvia : Finds s.fs fsId via) (hnumber : kind = .folder → Unnumbered s) :
    Inv (State.keep kind via (s.openSlot kind fsId path via rc)) := by
  rw [State.openSlot]
  cases hj : s.fs.findExisting kind fsId path with
  | none => exact h.openNew hroom path rc hvia hnumber
  | some j => exact h.share hroom hj hvia

theorem Inv.finds_system {y : FileSystem} (hy : y ∈ s.systems) :
    Finds s.fs y.fsId (some y.inst) := fun _ hm => (h.systems y hy).symm.trans hm

theorem Inv.openByName (hroom : s.room .file) (lease : List UInt8) (rc : Int) :
    Inv (s.openByName lease rc) := by
  rw [State.openByName]
  split
  · exact h
  · split
    · rename_i hlookup
      obtain ⟨i, hi⟩ := lookup_mem hlookup
      obtain ⟨-, hfinds⟩ := h.registry i _ (congrArg RegistryEntry.fsId hi)
      rw [hi] at hfinds
      exact h.openSlot hroom _ rc hfinds nofun
    · exact h

end

/-- Failing to open a folder writes its path and mount into a free slot, and nothing else. -/
structure SameSlots (s s' : State) : Prop where
  opened : s'.opened = s.opened
  systems : s'.systems = s.systems
  iterators : s'.iterators = s.iterators
  occupied : ∀ kind j, (s'.fs.slots kind j).occupied = (s.fs.slots kind j).occupied
  generation : ∀ kind j, (s'.fs.slots kind j).generation = (s.fs.slots kind j).generation

theorem SameSlots.refl (s : State) : SameSlots s s :=
  ⟨rfl, rfl, rfl, fun _ _ => rfl, fun _ _ => rfl⟩

theorem SameSlots.setSlot (c : Call) (hocc : slot.occupied = (s.fs.slots kind j).occupied)
    (hgen : slot.generation = (s.fs.slots kind j).generation) :
    SameSlots s { s.call c with fs := s.fs.setSlot kind j slot } := by
  refine ⟨rfl, rfl, rfl, ?_, ?_⟩ <;> intro kind' j' <;>
    by_cases hplace : kind' = kind ∧ j' = j
  · obtain ⟨rfl, rfl⟩ := hplace
    rw [slots_setSlot_self, hocc]
  · rw [slots_setSlot_of_ne s.fs hplace]
  · obtain ⟨rfl, rfl⟩ := hplace
    rw [slots_setSlot_self, hgen]
  · rw [slots_setSlot_of_ne s.fs hplace]

theorem sameSlots_of_openSlot {s' : State} {path : List UInt8} {rc : Int} {e : OpenError}
    (h : s.openSlot kind fsId path via rc = (s', .error e)) : SameSlots s s' := by
  rw [openSlot] at h
  cases hj : s.fs.findExisting kind fsId path with
  | some j =>
    rw [hj] at h
    cases h
  | none =>
    rw [hj] at h
    rw [openNew] at h
    cases hfree : s.fs.freeSlot kind with
    | none =>
      rw [hfree] at h
      cases h
      exact .refl s
    | some j =>
      rw [hfree] at h
      cases hm : s.fs.mounts fsId with
      | none =>
        rw [hm] at h
        cases h
        exact .refl s
      | some m =>
        rw [hm] at h
        dsimp only at h
        split at h
        · cases h
        · cases h
          exact .setSlot _ rfl rfl

theorem Unnumbered.of_sameSlots {s' : State} (h : Unnumbered s) (hs : SameSlots s s') :
    Unnumbered s' := by
  have hfree : s'.fs.freeSlot .folder = s.fs.freeSlot .folder := by
    rw [freeSlot, freeSlot]
    simp only [hs.occupied]
  intro j hj it hit hslot
  rw [hfree] at hj
  rw [hs.iterators] at hit
  have hne := h j hj it hit hslot
  rw [nextGeneration, hs.generation]
  exact hne

theorem Inv.createFolder (h : Inv s) (hroom : s.room .folder) {y : FileSystem}
    (hy : y ∈ s.systems) (lease : List UInt8) (rc rcMkdir rcOpen : Int) (hnumber : Unnumbered s) :
    Inv (s.createFolder y lease rc rcMkdir rcOpen) := by
  have hopen := h.openSlot hroom (leaseToCstr lease) rc (h.finds_system hy) fun _ => hnumber
  rw [State.createFolder]
  split
  · rename_i s' heq
    rw [heq] at hopen
    have hs := sameSlots_of_openSlot heq
    have hy' : y ∈ s'.systems := hs.systems ▸ hy
    have hinv : Inv s' := hopen
    rw [hinv.systems y hy']
    have hcall : Inv (s'.call ⟨some y.inst, y.inst, none⟩) := hinv.call ⟨rfl, nofun⟩
    dsimp only
    split
    · have hroom' : s'.room .folder := by
        rw [room, hs.opened]
        exact hroom
      have hnumber' : Unnumbered s' := hnumber.of_sameSlots hs
      exact hcall.openNew hroom' _ rcOpen (hcall.finds_system hy') fun _ => hnumber'
    · exact hcall
  · exact hopen

end Slots

/-! ## Handles and iterators -/

section Handles

variable {s : State} {g : Handle}

/-- The mount in the slot of an open handle is the one it was opened on. -/
theorem Inv.correct_handle (h : Inv s) (hg : g ∈ s.opened) {m : Nat}
    (hm : s.fs.mounts (s.fs.slots g.kind g.slot).fsId = some m) :
    g.inst = some m ∧ (s.fs.slots g.kind g.slot).inst = some m := by
  obtain ⟨hocc, hfinds⟩ := h.handles g hg
  exact ⟨hfinds m hm, (h.slots g.kind g.slot hocc).2 m hm⟩

theorem Inv.access (h : Inv s) (hg : g ∈ s.opened) : Inv (s.access g) := by
  rw [State.access]
  split
  · rename_i m hm
    obtain ⟨hinst, hstate⟩ := h.correct_handle hg hm
    exact h.call (correct_of_some hinst hstate)
  · exact h

theorem Inv.unlink (h : Inv s) (hg : g ∈ s.opened) : Inv (s.unlink g) := by
  obtain ⟨hocc, -⟩ := h.handles g hg
  refine h.setSlot ?_ ?_ (fun _ hg' _ => hg') (fun _ _ _ => rfl) h.bounded ?_
  · exact fun _ => ⟨(h.slots _ _ hocc).1, (h.slots _ _ hocc).2, h.refcount _ _ hocc⟩
  · rintro g' hg' ⟨hkind, hslot⟩
    obtain ⟨hocc', hfinds⟩ := h.handles g' hg'
    rw [hkind, hslot] at hocc' hfinds
    exact ⟨hocc', hfinds⟩
  · rintro it hit ⟨hkind, hslot⟩ hocc' hgen
    rw [hkind, hslot] at hocc' hgen ⊢
    exact h.iterators it hit hocc' hgen

theorem countP_erase_add (hg : g ∈ s.opened) (p : Handle → Bool) :
    s.opened.countP p = (s.opened.erase g).countP p + if p g then 1 else 0 := by
  rw [(perm_cons_erase hg).countP_eq p, countP_cons]

theorem countP_erase_of_ne (hg : g ∈ s.opened) {p : Handle → Bool} (hp : ¬p g) :
    (s.opened.erase g).countP p = s.opened.countP p := by
  rw [countP_erase_add hg, if_neg hp, Nat.add_zero]

/-- One handle fewer; the slot is free when there is none left. -/
theorem Inv.removeHandle (h : Inv s) (hg : g ∈ s.opened) {slot : Slot}
    (hfs : slot.fsId = (s.fs.slots g.kind g.slot).fsId)
    (hinst : slot.inst = (s.fs.slots g.kind g.slot).inst)
    (hgen : slot.generation = (s.fs.slots g.kind g.slot).generation)
    (hcount : slot.refcount = (s.fs.slots g.kind g.slot).refcount - 1)
    (hocc : slot.occupied ↔ slot.refcount ≠ 0) :
    Inv { s with
      fs := s.fs.setSlot g.kind g.slot slot, opened := s.opened.erase g } := by
  obtain ⟨hopen, -⟩ := h.handles g hg
  have hremaining : slot.refcount =
      (s.opened.erase g).countP fun g' => g'.kind = g.kind ∧ g'.slot = g.slot := by
    rw [hcount, h.refcount _ _ hopen, countP_erase_add hg, if_pos (by simp), Nat.add_sub_cancel]
  refine h.setSlot ?_ ?_ (fun _ hg' _ => mem_of_mem_erase hg') ?_ ?_ ?_
  · intro _
    rw [hfs, hinst]
    exact ⟨(h.slots _ _ hopen).1, (h.slots _ _ hopen).2, hremaining⟩
  · rintro g' hg' ⟨hkind, hslot⟩
    refine ⟨hocc.mpr ?_, ?_⟩
    · grind
    · obtain ⟨-, hfinds⟩ := h.handles g' (mem_of_mem_erase hg')
      rw [hkind, hslot] at hfinds
      rw [hfs]
      exact hfinds
  · intro kind' j' hplace
    refine countP_erase_of_ne hg ?_
    rw [decide_eq_true_eq]
    rintro ⟨rfl, rfl⟩
    exact hplace ⟨rfl, rfl⟩
  · intro kind'
    exact (erase_sublist.countP_le).trans (h.bounded kind')
  · rintro it hit ⟨hkind, hslot⟩ hocc' hgen'
    rw [hfs]
    rw [hgen] at hgen'
    rw [hkind, hslot] at hopen hgen' ⊢
    exact h.iterators it hit hopen hgen'

theorem Inv.drop (h : Inv s) (hg : g ∈ s.opened) : Inv (s.drop g) := by
  rw [State.drop]
  dsimp only
  split
  · rename_i hzero
    split
    · rename_i m hm
      obtain ⟨hinst, hstate⟩ := h.correct_handle hg hm
      have hclosed : Inv (s.call ⟨g.inst, m, (s.fs.slots g.kind g.slot).inst⟩) :=
        h.call (correct_of_some hinst hstate)
      split
      · have hremoved := hclosed.call (c := ⟨g.inst, m, none⟩) ⟨hinst, nofun⟩
        exact hremoved.removeHandle hg rfl rfl rfl rfl (by simp [hzero])
      · exact hclosed.removeHandle hg rfl rfl rfl rfl (by simp [hzero])
    · exact h.removeHandle hg rfl rfl rfl rfl (by simp [hzero])
  · rename_i hne
    refine h.removeHandle hg rfl rfl rfl rfl ?_
    exact ⟨fun _ => hne, fun _ => (h.handles g hg).1⟩

theorem Inv.iter (h : Inv s) (hg : g ∈ s.opened) (hkind : g.kind = .folder) : Inv (s.iter g) := by
  refine { h with iterators := ?_ }
  intro it hit hocc hgen
  rcases mem_append.mp hit with hit | hit
  · exact h.iterators it hit hocc hgen
  · rw [mem_singleton.mp hit]
    have hfinds := (h.handles g hg).2
    rw [hkind] at hfinds
    exact ⟨rfl, hfinds⟩

theorem Inv.next (h : Inv s) {it : FolderIterator} (hit : it ∈ s.iterators) : Inv (s.next it) := by
  rw [State.next]
  split
  · rename_i hfound
    rw [Bool.and_eq_true, decide_eq_true_eq] at hfound
    obtain ⟨hfs, hfinds⟩ := h.iterators it hit hfound.1 hfound.2
    split
    · rename_i m hm
      have hslot := (h.slots .folder it.slot hfound.1).2
      rw [hfs] at hslot
      exact h.call (correct_of_some (hfinds m hm) (hslot m hm))
    · exact h
  · exact h

end Handles

/-! ## Runs -/

theorem Inv.step {s s' : State} (h : Inv s) {e : Event} (hallowed : Allowed s e)
    (hstep : s.step e = some s') : Inv s' := by
  cases e with
  | mount rcs =>
    cases hstep
    exact h.mount rcs hallowed
  | autoMount name rc =>
    cases hstep
    exact h.autoMount name rc hallowed
  | register name fsId =>
    cases hstep
    exact h.register name fsId.toNat
  | stat y =>
    obtain ⟨hy, hstep⟩ := ite_none_right_eq_some.mp hstep
    rw [stat, h.systems y hy] at hstep
    cases hstep
    exact h.call ⟨rfl, nofun⟩
  | unmount y =>
    obtain ⟨hy, ⟨⟩⟩ := ite_none_right_eq_some.mp hstep
    exact h.unmount hy
  | openIn kind y lease rc =>
    obtain ⟨⟨hy, hroom⟩, ⟨⟩⟩ := ite_none_right_eq_some.mp hstep
    refine h.openSlot hroom (leaseToCstr lease) rc (h.finds_system hy) ?_
    rintro rfl
    exact hallowed
  | openByName lease rc =>
    obtain ⟨hroom, ⟨⟩⟩ := ite_none_right_eq_some.mp hstep
    exact h.openByName hroom lease rc
  | createFolder y lease rc rcMkdir rcOpen =>
    obtain ⟨⟨hy, hroom⟩, ⟨⟩⟩ := ite_none_right_eq_some.mp hstep
    exact h.createFolder hroom hy lease rc rcMkdir rcOpen hallowed
  | access g =>
    obtain ⟨hg, ⟨⟩⟩ := ite_none_right_eq_some.mp hstep
    exact h.access hg
  | unlink g =>
    obtain ⟨⟨hg, -⟩, ⟨⟩⟩ := ite_none_right_eq_some.mp hstep
    exact h.unlink hg
  | drop g =>
    obtain ⟨hg, ⟨⟩⟩ := ite_none_right_eq_some.mp hstep
    exact h.drop hg
  | iter g =>
    obtain ⟨⟨hg, hkind⟩, ⟨⟩⟩ := ite_none_right_eq_some.mp hstep
    exact h.iter hg hkind
  | next it =>
    obtain ⟨hit, ⟨⟩⟩ := ite_none_right_eq_some.mp hstep
    exact h.next hit

theorem Inv.run {s : State} (h : Inv s) {es : List Event} (hes : Orderly s es) {s' : State}
    (hrun : s.run es = some s') : Inv s' := by
  induction es generalizing s with
  | nil =>
    cases hrun
    exact h
  | cons e es ih =>
    obtain ⟨s₁, hstep, hrun⟩ := bind_eq_some_iff.mp hrun
    exact ih (h.step hes.1 hstep) (hes.2 s₁ hstep) hrun

/-- In every run in which no mount takes a slot that something refers to, each call of
littlefs is made on the mount that the resource or name was made for, with a file or
directory state of that mount. -/
theorem files_stay_on_mount {es : List Event} (horderly : Orderly .start es) {s : State}
    (hrun : State.run .start es = some s) : ∀ c ∈ s.calls, Correct c :=
  (inv_start.run horderly hrun).calls

/-- A file is closed before its filesystem is unmounted.  The next mount takes the slot, and
a folder is listed on it. -/
def remounted : List Event :=
  [.mount [0], .openIn .file ⟨0, 0⟩ [97] 0, .access ⟨.file, 0, some 0⟩,
    .drop ⟨.file, 0, some 0⟩, .unmount ⟨0, 0⟩, .mount [0, 0],
    .createFolder ⟨0, 1⟩ [98] (-2) 0 0, .iter ⟨.folder, 0, some 1⟩, .next ⟨0, 0, 1, some 1⟩]

theorem files_stay_remounted :
    ∃ s, State.run .start remounted = some s ∧
      s.calls = [⟨some 0, 0, some 0⟩, ⟨some 0, 0, some 0⟩, ⟨some 0, 0, some 0⟩, ⟨some 0, 0, none⟩,
        ⟨some 1, 1, some 1⟩, ⟨some 1, 1, none⟩, ⟨some 1, 1, some 1⟩, ⟨some 1, 1, some 1⟩] ∧
      ∀ c ∈ s.calls, Correct c :=
  ⟨_, rfl, rfl, files_stay_on_mount (by decide +kernel : Orderly .start remounted) rfl⟩

/-- The file of the first mount is still open when the second one takes its slot: reading and
closing it are calls on the second mount with the state of a file of the first. -/
theorem file_moves_to_next_mount :
    ∃ s, State.run .start
        [.mount [0], .openIn .file ⟨0, 0⟩ [97] 0, .unmount ⟨0, 0⟩, .mount [0],
          .access ⟨.file, 0, some 0⟩, .drop ⟨.file, 0, some 0⟩] = some s ∧
      s.calls = [⟨some 0, 0, some 0⟩, ⟨some 0, 0, none⟩, ⟨some 0, 1, some 0⟩, ⟨some 0, 1, some 0⟩] ∧
      ¬∀ c ∈ s.calls, Correct c :=
  ⟨_, rfl, rfl, fun h => absurd (h ⟨some 0, 1, some 0⟩ (by decide +kernel)).1 (by decide)⟩

end Rcard.Fs
