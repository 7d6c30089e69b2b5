/-
Handle keys.

Keys come from a linear congruential generator of full period, so the first
2^64 keys an arena issues are pairwise distinct, whatever the seed.  A handle
whose entry is gone is therefore gone for good.  The slot, the map entry and
the generation it used may be taken again, but its key is not.

The log of a run lists what happened to handles, most recent event first.  The
root of a handle is the allocation its chain of clones starts from, and a live
handle reads the value stored there.
-/
import Rcard.Lib.Lcg
import Rcard.Arena.Run

namespace Rcard.Arena

open Function List Option

open Select

variable {T : Type} {N : Nat}

/-! ## The generator -/

section

variable (key : UInt64)

theorem advanceKey_toNat :
    (advanceKey key).toNat =
      Lcg.lcg 6364136223846793005 1442695040888963407 (2 ^ 64) key.toNat := by
  rw [advanceKey, UInt64.toNat_add, UInt64.toNat_mul, Nat.mul_comm key.toNat]
  exact Nat.mod_add_mod _ _ _

theorem advanceKey_iterate_toNat (n : Nat) :
    (advanceKey^[n] key).toNat =
      (Lcg.lcg 6364136223846793005 1442695040888963407 (2 ^ 64))^[n] key.toNat := by
  induction n generalizing key with
  | zero => rfl
  | succ n ih => rw [iterate_succ_apply, ih, advanceKey_toNat, iterate_succ_apply]

theorem advanceKey_iterate_inj {m n : Nat} (hm : m < 2 ^ 64) (hn : n < 2 ^ 64)
    (h : advanceKey^[m] key = advanceKey^[n] key) : m = n := by
  refine Lcg.iterate_inj (a := 6364136223846793005) (c := 1442695040888963407) (k := 64)
    (by decide) (by decide) key.toNat_lt hm hn ?_
  rw [← advanceKey_iterate_toNat, ← advanceKey_iterate_toNat, h]

theorem advanceKey_ne : advanceKey key ≠ key := by
  grind [advanceKey]

end

/-! ## Logs -/

def Event.issues : Event T → Option RawHandle
  | .alloc key _ => some key
  | .clone _ key => some key
  | .write _ _ => none

def issued (log : List (Event T)) : List RawHandle := log.filterMap Event.issues

/-- One step of a run, with its event put in front of the log. -/
def record (p : Arena T N × List (Event T)) (op : Op T) : Arena T N × List (Event T) :=
  ((p.1.step op).1, (eventOf op (p.1.step op).2).toList ++ p.2)

def start (kind : UInt8) (hN : N ≤ 255) : Arena T N × List (Event T) := (new kind hN, [])

def history (kind : UInt8) (hN : N ≤ 255) (ops : List (Op T)) :
    Arena T N × List (Event T) :=
  ops.foldl record (start kind hN)

/-- The allocation at the start of the chain of clones behind `handle`. -/
def chainRoot : List (Event T) → RawHandle → Option RawHandle
  | [], _ => none
  | .alloc key _ :: log, handle => if key = handle then some key else chainRoot log handle
  | .clone source key :: log, handle =>
    if key = handle then chainRoot log source else chainRoot log handle
  | .write _ _ :: log, handle => chainRoot log handle

/-- The value the allocation `root` stored, with the writes made since through
handles of that root. -/
def storedAt : List (Event T) → RawHandle → Option T
  | [], _ => none
  | .alloc key value :: log, root => if key = root then some value else storedAt log root
  | .clone _ _ :: log, root => storedAt log root
  | .write handle f :: log, root =>
    if chainRoot log handle = some root then (storedAt log root).map f else storedAt log root

theorem issued_append (es : List (Event T)) (log : List (Event T)) :
    issued (es ++ log) = issued es ++ issued log := filterMap_append

theorem issued_suffix (p : Arena T N × List (Event T)) (ops : List (Op T)) :
    issued p.2 <:+ issued (ops.foldl record p).2 := by
  induction ops generalizing p with
  | nil => exact suffix_rfl
  | cons op ops ih =>
    refine List.IsSuffix.trans ?_ (ih (record p op))
    rw [record, issued_append]
    exact suffix_append _ _

variable {log : List (Event T)} {s : Arena T N} {e : Option (Event T)} {seed : UInt64}

theorem storedAt_alloc (hclean : ∀ handle f, Event.write handle f ∉ log) {root : RawHandle} {v : T}
    (h : storedAt log root = some v) : Event.alloc root v ∈ log := by
  induction log with
  | nil => exact absurd h (by simp [storedAt])
  | cons e log ih =>
    have hclean' : ∀ handle f, Event.write handle f ∉ log := fun handle f hmem =>
      hclean handle f (mem_cons_of_mem _ hmem)
    cases e with
    | alloc key value =>
      rw [storedAt] at h
      grind
    | clone source key => exact mem_cons_of_mem _ (ih hclean' h)
    | write handle f => exact absurd mem_cons_self (hclean handle f)

/-! ## Freshness -/

theorem Effect.issued_cases {s' : Arena T N} (h : Effect s s' e) :
    (issued e.toList = [] ∧ s'.nextKey = s.nextKey) ∨
      (issued e.toList = [s.nextKey] ∧ s'.nextKey = advanceKey s.nextKey) := by
  cases h with
  | relabel h => exact .inl ⟨rfl, h.nextKey⟩
  | release hinv hrel => exact .inl ⟨rfl, hrel.nextKey⟩
  | alloc hinv hrel hslot hentry value owner p | clone hinv hrel hp hk hentry newOwner p =>
    exact .inr ⟨rfl, congrArg advanceKey hrel.nextKey⟩
  | write hp f => exact .inl ⟨rfl, rfl⟩

/-- The keys in the log are the outputs of the generator so far, each once. -/
structure Ledger (seed : UInt64) (s : Arena T N) (log : List (Event T)) : Prop where
  nextKey : s.nextKey = advanceKey^[(issued log).length] seed
  output : ∀ key ∈ issued log, ∃ n < (issued log).length, key = advanceKey^[n] seed
  nodup : (issued log).Nodup

theorem Ledger.fresh (h : Ledger seed s log) (hlt : (issued log).length < 2 ^ 64) :
    s.nextKey ∉ issued log := by
  intro hmem
  obtain ⟨n, hn, heq⟩ := h.output _ hmem
  rw [h.nextKey] at heq
  exact absurd (advanceKey_iterate_inj seed hlt (hn.trans hlt) heq) (Nat.ne_of_gt hn)

theorem Ledger.step {s' : Arena T N} (h : Ledger seed s log) (he : Effect s s' e)
    (hle : (issued (e.toList ++ log)).length ≤ 2 ^ 64) : Ledger seed s' (e.toList ++ log) := by
  rw [issued_append] at hle
  rcases he.issued_cases with ⟨hnone, hkey⟩ | ⟨hsome, hkey⟩
  · have hissued : issued (e.toList ++ log) = issued log := by
      rw [issued_append, hnone, nil_append]
    exact ⟨by rw [hissued, hkey, h.nextKey], by rw [hissued]; exact h.output,
      by rw [hissued]; exact h.nodup⟩
  · have hissued : issued (e.toList ++ log) = s.nextKey :: issued log := by
      rw [issued_append, hsome, singleton_append]
    rw [hsome, singleton_append] at hle
    refine ⟨?_, ?_, ?_⟩
    · rw [hissued, hkey, h.nextKey, length_cons, iterate_succ_apply']
    · intro key hmem
      rw [hissued, mem_cons] at hmem
      rw [hissued]
      rcases hmem with rfl | hmem
      · exact ⟨_, Nat.lt_succ_self _, h.nextKey⟩
      · obtain ⟨n, hn, heq⟩ := h.output key hmem
        exact ⟨n, Nat.lt_succ_of_lt hn, heq⟩
    · rw [hissued, nodup_cons]
      exact ⟨h.fresh (Nat.lt_of_succ_le hle), h.nodup⟩

/-! ## Entries and their roots -/

def Live (s : Arena T N) (handle : RawHandle) : Prop :=
  ∃ j, (s.map j).occupied = true ∧ (s.map j).key = handle

/-- Live entries carry distinct issued keys, and each slot in use has a root of
its own, which is the root of every handle on it and stores its value. -/
structure Linked (s : Arena T N) (log : List (Event T)) : Prop where
  known : ∀ handle, s.Live handle → handle ∈ issued log
  distinct : ∀ j k, (s.map j).occupied = true → (s.map k).occupied = true →
    (s.map j).key = (s.map k).key → j = k
  roots : ∃ root : Fin N → RawHandle,
    (∀ i, (s.slots i).value.isSome = true →
      root i ∈ issued log ∧ storedAt log (root i) = (s.slots i).value) ∧
    (∀ i k, (s.slots i).value.isSome = true → (s.slots k).value.isSome = true →
      root i = root k → i = k) ∧
    (∀ i j, s.PointsTo i j → chainRoot log (s.map j).key = some (root i))

theorem Released.map_of_occupied {P : Fin N → Prop} {s' : Arena T N} (h : Released P s s')
    {j : Fin N} (hocc : (s'.map j).occupied = true) : s'.map j = s.map j := by
  by_cases hj : P j
  · rw [h.cleared j hj] at hocc
    exact absurd hocc (by simp [HandleEntry.cleared])
  · exact h.kept j hj

/-- An entry after a step was there before with the same key, or it carries the
key the step issued. -/
theorem Effect.entry_cases {s' : Arena T N} (h : Effect s s' e) {j : Fin N}
    (hocc : (s'.map j).occupied = true) :
    ((s.map j).occupied = true ∧ (s'.map j).key = (s.map j).key) ∨
      (issued e.toList = [s.nextKey] ∧ (s'.map j).key = s.nextKey) := by
  cases h with
  | relabel h => exact .inl ⟨(h.occupied j).symm.trans hocc, h.key j⟩
  | release hinv hrel =>
    have hmap := hrel.map_of_occupied hocc
    exact .inl ⟨hmap ▸ hocc, by rw [hmap]⟩
  | @alloc s₁ P i k hinv hrel hslot hentry value owner p =>
    by_cases hjk : j = k
    · subst hjk
      rw [allocAt_map_self]
      exact .inr ⟨rfl, hrel.nextKey⟩
    · rw [allocAt_map_of_ne hjk] at hocc ⊢
      have hmap := hrel.map_of_occupied hocc
      exact .inl ⟨hmap ▸ hocc, by rw [hmap]⟩
  | @clone s₁ P i k src hinv hrel hp hk hentry newOwner p =>
    by_cases hjk : j = k
    · subst hjk
      rw [cloneAt_map_self]
      exact .inr ⟨rfl, hrel.nextKey⟩
    · rw [cloneAt_map_of_ne hjk] at hocc ⊢
      have hmap := hrel.map_of_occupied hocc
      exact .inl ⟨hmap ▸ hocc, by rw [hmap]⟩
  | write hp f => exact .inl ⟨hocc, rfl⟩

theorem linked_new (kind : UInt8) (hN : N ≤ 255) : Linked (new kind hN : Arena T N) [] := by
  have hfree : ∀ j, ((new kind hN : Arena T N).map j).occupied ≠ true := fun j => by
    simp [new, HandleEntry.empty]
  refine ⟨fun h hlive => ?_, fun j k hj => absurd hj (hfree j),
    fun _ => 0, fun i hi => ?_, fun i k hi => ?_, fun i j hp => absurd hp.1 (hfree j)⟩
  · obtain ⟨j, hj, _⟩ := hlive
    exact absurd hj (hfree j)
  all_goals exact absurd hi (by simp [new, Slot.empty])

section LinkedStep

variable {s s' : Arena T N} {log : List (Event T)}

theorem Linked.relabelled (h : Linked s log) (hr : Relabelled s s') : Linked s' log := by
  obtain ⟨root, hstored, hinj, hchain⟩ := h.roots
  refine ⟨fun handle ⟨j, hj, hkey⟩ => ?_, fun j k hj hk hkey => ?_, root, ?_, ?_, ?_⟩
  · exact h.known handle ⟨j, (hr.occupied j).symm.trans hj, (hr.key j).symm.trans hkey⟩
  · rw [hr.occupied] at hj hk
    rw [hr.key, hr.key] at hkey
    exact h.distinct j k hj hk hkey
  · rw [hr.slots]
    exact hstored
  · rw [hr.slots]
    exact hinj
  · intro i j hp
    rw [hr.key]
    refine hchain i j ⟨(hr.occupied j).symm.trans hp.1, ?_, ?_⟩
    · rw [← hr.slot]
      exact hp.2.1
    · rw [← hr.generation, ← hr.slots]
      exact hp.2.2

theorem Released.value_eq {P : Fin N → Prop} (hr : Released P s s') {i : Fin N}
    (hv : (s'.slots i).value.isSome = true) : (s'.slots i).value = (s.slots i).value := by
  rcases hr.slot_cases i with hsame | hdrop
  · exact hsame.1
  · rw [hdrop.1] at hv
    exact absurd hv (by simp)

theorem Linked.released {P : Fin N → Prop} (h : Linked s log) (hs : s.Inv)
    (hr : Released P s s') : Linked s' log := by
  obtain ⟨root, hstored, hinj, hchain⟩ := h.roots
  have hvalue : ∀ i, (s'.slots i).value.isSome = true → (s.slots i).value.isSome = true :=
    fun i hi => by rw [← hr.value_eq hi]; exact hi
  refine ⟨fun handle ⟨j, hj, hkey⟩ => ?_, fun j k hj hk hkey => ?_, root, ?_, ?_, ?_⟩
  · have hmap := hr.map_of_occupied hj
    exact h.known handle ⟨j, hmap ▸ hj, hmap ▸ hkey⟩
  · have hmapj := hr.map_of_occupied hj
    have hmapk := hr.map_of_occupied hk
    rw [hmapj] at hj hkey
    rw [hmapk] at hk hkey
    exact h.distinct j k hj hk hkey
  · intro i hi
    rw [hr.value_eq hi]
    exact hstored i (hvalue i hi)
  · exact fun i k hi hk => hinj i k (hvalue i hi) (hvalue k hk)
  · intro i j hp
    have hmap := hr.map_of_occupied hp.1
    rw [hmap]
    exact hchain i j (hs.pointsTo_iff.mpr ⟨hmap ▸ hp.1, hmap ▸ hp.2.1⟩)

/-- Values that tell the used points apart still do after point `a` takes a value
that none of them has. -/
theorem eq_of_fresh_value {κ : Type} {f g : Fin N → κ} {used used' : Fin N → Prop} {a : Fin N}
    (hinj : ∀ x y, used x → used y → f x = f y → x = y)
    (hold : ∀ x, x ≠ a → used' x → used x ∧ g x = f x ∧ f x ≠ g a) :
    ∀ x y, used' x → used' y → g x = g y → x = y := by
  grind

section

variable (h : Linked s log)
include h

/-- Both insertions write one new entry, under a fresh key, over a free one. -/
theorem Linked.insert_entries {j : Fin N} {e : Event T} (hissues : e.issues = some s.nextKey)
    (hfresh : s.nextKey ∉ issued log) (hself : (s'.map j).key = s.nextKey)
    (hother : ∀ k, k ≠ j → s'.map k = s.map k) :
    (∀ handle, s'.Live handle → handle ∈ issued (e :: log)) ∧
      ∀ k m, (s'.map k).occupied = true → (s'.map m).occupied = true →
        (s'.map k).key = (s'.map m).key → k = m := by
  have hissued : issued (e :: log) = s.nextKey :: issued log := by
    rw [issued, filterMap_cons, hissues]
    rfl
  -- An old entry cannot carry the new key.
  have hold : ∀ k, k ≠ j → (s'.map k).occupied = true → (s'.map k).key ≠ s.nextKey := by
    intro k hk hocc heq
    rw [hother k hk] at hocc heq
    exact hfresh (h.known _ ⟨k, hocc, heq⟩)
  refine ⟨fun handle ⟨k, hocc, hkey⟩ => ?_,
    eq_of_fresh_value (a := j) h.distinct fun k hk hocc => ?_⟩
  · rw [hissued, mem_cons]
    by_cases hkj : k = j
    · subst hkj
      exact .inl (hkey.symm.trans hself)
    · rw [hother k hkj] at hocc hkey
      exact .inr (h.known handle ⟨k, hocc, hkey⟩)
  grind

theorem Linked.allocAt (hs : s.Inv) {i j : Fin N} (hfresh : s.nextKey ∉ issued log)
    (hslot : (s.slots i).value = none) (hentry : (s.map j).occupied = false) (value : T)
    (owner : UInt16) (p : Int8) :
    Linked (s.allocAt i j value owner p) (.alloc s.nextKey value :: log) := by
  obtain ⟨root, hstored, hinj, hchain⟩ := h.roots
  have hself : ((s.allocAt i j value owner p).map j).key = s.nextKey := by
    rw [allocAt_map_self]
    rfl
  obtain ⟨hknown, hdistinct⟩ := h.insert_entries (e := .alloc s.nextKey value) rfl hfresh hself
    (fun k hk => allocAt_map_of_ne hk value owner p)
  have hkeep : ∀ k, k ≠ i → ((s.allocAt i j value owner p).slots k).value.isSome = true →
      root k ∈ issued log ∧ root k ≠ s.nextKey := by
    intro k hk hv
    rw [allocAt_slots_of_ne hk] at hv
    have hmem := (hstored k hv).1
    exact ⟨hmem, fun heq => hfresh (heq ▸ hmem)⟩
  refine ⟨hknown, hdistinct, Function.update root i s.nextKey, ?_, ?_, ?_⟩
  · intro k hv
    by_cases hk : k = i
    · subst hk
      rw [update_self, allocAt_slots_self]
      exact ⟨mem_cons_self, by simp [storedAt]⟩
    · obtain ⟨hmem, hne⟩ := hkeep k hk hv
      rw [update_of_ne hk, storedAt, if_neg hne.symm]
      rw [allocAt_slots_of_ne hk] at hv ⊢
      exact ⟨mem_cons_of_mem _ hmem, (hstored k hv).2⟩
  · refine eq_of_fresh_value (a := i) hinj (fun x hx hv => ?_)
    have hne := (hkeep x hx hv).2
    rw [allocAt_slots_of_ne hx] at hv
    rw [update_self, update_of_ne hx]
    exact ⟨hv, rfl, hne⟩
  · intro k m hp
    by_cases hm : m = j
    · subst hm
      have hk : k = i := by
        have hslot' := hp.2.1
        rw [allocAt_map_self] at hslot'
        exact Fin.ext (hslot'.symm.trans (s.toNat_ofNat i))
      rw [hk, update_self, allocAt_map_self]
      exact if_pos rfl
    · rw [allocAt_map_of_ne hm]
      obtain ⟨hocc, hmslot, -⟩ := hp
      rw [allocAt_map_of_ne hm] at hocc hmslot
      have hk : k ≠ i := fun hki => hs.slot_ne_of_free hslot hocc (hki ▸ hmslot)
      have hne : s.nextKey ≠ (s.map m).key := fun heq =>
        hfresh (h.known _ ⟨m, hocc, heq.symm⟩)
      rw [update_of_ne hk, chainRoot, if_neg hne]
      exact hchain k m (hs.pointsTo_iff.mpr ⟨hocc, hmslot⟩)

theorem Linked.cloneAt (hs : s.Inv) {i j k : Fin N} {slot : UInt8} {generation : UInt32}
    (hfresh : s.nextKey ∉ issued log) (hp : s.PointsTo i k) (hslot : slot.toNat = i)
    (newOwner : UInt16) (p : Int8) :
    Linked (s.cloneAt slot generation j newOwner p) (.clone (s.map k).key s.nextKey :: log) := by
  obtain ⟨root, hstored, hinj, hchain⟩ := h.roots
  have hself : ((s.cloneAt slot generation j newOwner p).map j).key = s.nextKey := by
    rw [cloneAt_map_self]
    rfl
  obtain ⟨hknown, hdistinct⟩ := h.insert_entries (e := .clone (s.map k).key s.nextKey) rfl
    hfresh hself (fun k hk => cloneAt_map_of_ne hk slot generation newOwner p)
  have hvalue : ∀ k, ((s.cloneAt slot generation j newOwner p).slots k).value =
      (s.slots k).value := fun k => (cloneAt_slot hslot generation j newOwner p k).1
  refine ⟨hknown, hdistinct, root, ?_, ?_, ?_⟩
  · intro l hv
    rw [hvalue] at hv ⊢
    exact ⟨mem_cons_of_mem _ (hstored l hv).1, (hstored l hv).2⟩
  · intro l m hvl hvm
    rw [hvalue] at hvl hvm
    exact hinj l m hvl hvm
  · intro l m hpm
    by_cases hm : m = j
    · subst hm
      have hl : l = i := by
        have hslot' := hpm.2.1
        rw [cloneAt_map_self] at hslot'
        exact Fin.ext (hslot'.symm.trans hslot)
      rw [hl, cloneAt_map_self]
      exact (if_pos rfl).trans (hchain i k hp)
    · obtain ⟨hocc, hmslot, -⟩ := hpm
      rw [cloneAt_map_of_ne hm] at hocc hmslot ⊢
      have hne : s.nextKey ≠ (s.map m).key := fun heq =>
        hfresh (h.known _ ⟨m, hocc, heq.symm⟩)
      rw [chainRoot, if_neg hne]
      exact hchain l m (hs.pointsTo_iff.mpr ⟨hocc, hmslot⟩)

theorem Linked.write (hs : s.Inv) {i j : Fin N} (hp : s.PointsTo i j) (f : T → T) :
    Linked (s.setSlot i { (s.slots i) with value := (s.slots i).value.map f })
      (.write (s.map j).key f :: log) := by
  obtain ⟨root, hstored, hinj, hchain⟩ := h.roots
  have hvi := hs.value_of_pointsTo hp
  have hsome : ∀ k, ((s.setSlot i { (s.slots i) with value := (s.slots i).value.map f }).slots
      k).value.isSome = (s.slots k).value.isSome := by
    intro k
    by_cases hk : k = i
    · subst hk
      simp
    · rw [setSlot_slots_of_ne hk]
  refine ⟨h.known, h.distinct, root, ?_, ?_, ?_⟩
  · intro k hv
    rw [hsome] at hv
    refine ⟨(hstored k hv).1, ?_⟩
    rw [storedAt, hchain i j hp]
    by_cases hk : k = i
    · subst hk
      rw [if_pos rfl, (hstored k hv).2, setSlot_slots_self]
    · rw [if_neg fun heq => hk (hinj i k hvi hv (some.inj heq)).symm, setSlot_slots_of_ne hk]
      exact (hstored k hv).2
  · intro k m hvk hvm
    rw [hsome] at hvk hvm
    exact hinj k m hvk hvm
  · intro k m hpm
    exact hchain k m (hs.pointsTo_iff.mpr ⟨hpm.1, hpm.2.1⟩)

end

end LinkedStep

/-! ## Runs -/

structure Sound (seed : UInt64) (p : Arena T N × List (Event T)) : Prop where
  inv : p.1.Inv
  ledger : Ledger seed p.1 p.2
  linked : Linked p.1 p.2

theorem Sound.effect {s' : Arena T N} (h : Sound seed (s, log)) (he : Effect s s' e)
    (hle : (issued (e.toList ++ log)).length ≤ 2 ^ 64) : Sound seed (s', e.toList ++ log) := by
  obtain ⟨hs, hledger, hlinked⟩ := h
  refine ⟨he.inv hs, hledger.step he hle, ?_⟩
  -- A step that issues a key issues a fresh one.
  have hfresh : issued e.toList = [s.nextKey] → s.nextKey ∉ issued log := by
    intro hissued
    rw [issued_append, hissued, singleton_append] at hle
    exact hledger.fresh (Nat.lt_of_succ_le hle)
  cases he with
  | relabel hr => exact hlinked.relabelled hr
  | release hinv hrel => exact hlinked.released hs hrel
  | alloc hinv hrel hslot hentry value owner p =>
    have hf := hfresh rfl
    rw [← hrel.nextKey] at hf ⊢
    exact (hlinked.released hs hrel).allocAt hinv hf hslot hentry value owner p
  | @clone s₁ P i j k hinv hrel hp hk hentry newOwner p =>
    have hf := hfresh rfl
    rw [← hrel.nextKey] at hf ⊢
    have hmap := hrel.kept k hk
    rw [← hmap]
    have hp₁ : s₁.PointsTo i k := hinv.pointsTo_iff.mpr (by rw [hmap]; exact ⟨hp.1, hp.2.1⟩)
    exact (hlinked.released hs hrel).cloneAt hinv hf hp₁ hp₁.2.1 newOwner p
  | write hp f => exact hlinked.write hs hp f

theorem Sound.record {p : Arena T N × List (Event T)} (h : Sound seed p) (op : Op T)
    (hle : (issued (record p op).2).length ≤ 2 ^ 64) : Sound seed (record p op) :=
  Sound.effect h (step_effect h.inv op) hle

theorem Sound.run {p : Arena T N × List (Event T)} (h : Sound seed p) (ops : List (Op T))
    (hle : (issued (ops.foldl Arena.record p).2).length ≤ 2 ^ 64) :
    Sound seed (ops.foldl Arena.record p) := by
  induction ops generalizing p with
  | nil => exact h
  | cons op ops ih =>
    have hstep := (issued_suffix (Arena.record p op) ops).length_le.trans hle
    exact ih (h.record op hstep) hle

theorem sound_start (kind : UInt8) (hN : N ≤ 255) :
    Sound (new kind hN : Arena T N).nextKey (start kind hN : Arena T N × List (Event T)) :=
  ⟨inv_new kind hN, ⟨rfl, fun _ h => absurd h (by simp [issued, start]), nodup_nil⟩,
    linked_new kind hN⟩

/-! ## Handles that are gone -/

structure Rejected (s : Arena T N) (handle : RawHandle) : Prop where
  get : s.get handle = none
  getMut : ∀ f, s.getMut handle f = (s, none)
  getMutOwned : ∀ owner f, s.getMutOwned handle owner f = (s, none)
  cloneHandle : ∀ owner newOwner p,
    s.cloneHandle handle owner newOwner p = (s, .error .invalidHandle)
  prepareTransfer : ∀ owner target, s.prepareTransfer handle owner target = (s, false)
  acquire : ∀ acquirer p, s.acquire handle acquirer p = (s, false)

theorem rejected_of_not_live {handle : RawHandle} (h : ¬ s.Live handle) : s.Rejected handle := by
  have hnone : ∀ q : Fin N → Bool,
      (firstIdx fun j => (s.map j).occupied && ((s.map j).key == handle && q j)) = none := by
    intro q
    refine firstIdx_eq_none.mpr fun j => ?_
    by_contra hj
    simp only [Bool.not_eq_false, Bool.and_eq_true, beq_iff_eq] at hj
    exact h ⟨j, hj.1, hj.2.1⟩
  have hlookup : s.lookupEntry handle = none := by
    simp only [lookupEntry, Bool.and_assoc, hnone]
  have howned : ∀ owner, s.lookupOwnedEntry handle owner = none := by
    simp only [lookupOwnedEntry, Bool.and_assoc, hnone, implies_true]
  have hidle : ∀ owner, s.idleEntry handle owner = none := by
    simp only [idleEntry, Bool.and_assoc, hnone, implies_true]
  refine ⟨?_, fun f => ?_, fun owner f => ?_, fun owner newOwner p => ?_,
    fun owner target => ?_, fun acquirer p => ?_⟩
  · rw [Arena.get, lookup, hlookup]
    rfl
  · rw [Arena.getMut, lookup, hlookup]
    rfl
  · rw [Arena.getMutOwned, lookupOwned, howned]
    rfl
  · rw [Arena.cloneHandle, hidle]
  · rw [Arena.prepareTransfer, hidle]
  · simp only [Arena.acquire, Bool.and_assoc, hnone]

section Gone

variable {seed : UInt64} {p : Arena T N × List (Event T)}
variable {j : Fin N}

theorem Sound.live_record (h : Sound seed p) (op : Op T)
    (hle : (issued (Arena.record p op).2).length ≤ 2 ^ 64)
    (hocc : ((Arena.record p op).1.map j).occupied = true)
    (hold : ((Arena.record p op).1.map j).key ∈ issued p.2) :
    (p.1.map j).occupied = true ∧ ((Arena.record p op).1.map j).key = (p.1.map j).key := by
  rcases (step_effect h.inv op).entry_cases hocc with hkept | ⟨hissued, hkey⟩
  · exact hkept
  · refine absurd hold ?_
    rw [Arena.record, issued_append, hissued, singleton_append] at hle
    rw [Arena.record, hkey]
    exact h.ledger.fresh (Nat.lt_of_succ_le hle)

theorem Sound.dead_run (h : Sound seed p) (ops : List (Op T))
    (hle : (issued (ops.foldl Arena.record p).2).length ≤ 2 ^ 64) {handle : RawHandle}
    (hold : handle ∈ issued p.2) (hdead : ¬ p.1.Live handle) :
    ¬ (ops.foldl Arena.record p).1.Live handle := by
  induction ops generalizing p with
  | nil => exact hdead
  | cons op ops ih =>
    have hstep := (issued_suffix (Arena.record p op) ops).length_le.trans hle
    refine ih (h.record op hstep) hle ((issued_suffix p [op]).subset hold) ?_
    rintro ⟨j, hocc, hkey⟩
    have hwas := h.live_record op hstep hocc (hkey.symm ▸ hold)
    exact hdead ⟨j, hwas.1, hwas.2.symm.trans hkey⟩

def Gone (s s' : Arena T N) (j : Fin N) : Prop :=
  ¬ ((s'.map j).occupied = true ∧ (s'.map j).key = (s.map j).key)

/-- The operation takes entry `j` away: it removes the handle, it releases the
owner's handles, or it evicts the entry. -/
def Departs (s : Arena T N) (op : Op T) (j : Fin N) : Prop :=
  match op with
  | .remove handle => (s.map j).key = handle
  | .removeOwned handle owner => (s.map j).key = handle ∧ (s.map j).owner = owner
  | .tryDrop handle owner => (s.map j).key = handle ∧ (s.map j).owner = owner
  | .removeByOwner t => (s.map j).owner = t
  | op => Gone s (s.step op).1 j

theorem Released.gone {P : Fin N → Prop} {s s' : Arena T N} (h : Released P s s') (hj : P j) :
    Gone s s' j := by
  rintro ⟨hocc, -⟩
  rw [h.cleared j hj] at hocc
  exact absurd hocc (by simp [HandleEntry.cleared])

theorem DropCase.gone {Q : Fin N → Prop} {s s' : Arena T N} (h : DropCase s Q s') (hs : s.Inv)
    (hj : Q j) (huniq : ∀ k, Q k → k = j) : Gone s s' j := by
  cases h with
  | absent hno => exact absurd hj (hno j)
  | dropped hk hp => exact (releaseEntry_released hs hp).gone (huniq _ hk).symm

section

variable (h : Sound seed p)
include h

theorem Sound.gone {op : Op T} (hocc : (p.1.map j).occupied = true) (hdep : Departs p.1 op j) :
    Gone p.1 (p.1.step op).1 j := by
  have hs := h.inv
  have howned : ∀ handle owner, (p.1.map j).key = handle ∧ (p.1.map j).owner = owner →
      Gone p.1 (p.1.removeOwned handle owner).1 j := fun handle owner hj =>
    (removeOwned_cases hs handle owner).gone hs ⟨hocc, hj⟩ fun k hk =>
      h.linked.distinct k j hk.1 hocc (hk.2.1.trans hj.1.symm)
  cases op with
  | remove handle =>
    exact (remove_cases hs handle).gone hs ⟨hocc, hdep⟩ fun k hk =>
      h.linked.distinct k j hk.1 hocc (hk.2.trans hdep.symm)
  | removeOwned handle owner => exact howned handle owner hdep
  | tryDrop handle owner =>
    have hj := howned handle owner hdep
    rwa [← tryDrop_eq] at hj
  | removeByOwner t => exact (removeByOwner_released hs t).gone ⟨hocc, hdep⟩
  | _ => exact hdep

theorem Sound.dead_of_departs {op : Op T} (hle : (issued (Arena.record p op).2).length ≤ 2 ^ 64)
    (hocc : (p.1.map j).occupied = true) (hdep : Departs p.1 op j) :
    ¬ (Arena.record p op).1.Live (p.1.map j).key := by
  rintro ⟨k, hk, hkey⟩
  have hwas := h.live_record op hle hk (hkey.symm ▸ h.linked.known _ ⟨j, hocc, rfl⟩)
  have hkj := h.linked.distinct k j hwas.1 hocc (hwas.2.symm.trans hkey)
  subst hkj
  exact h.gone hocc hdep ⟨hk, hkey⟩

/-- `get` resolves a live key through its own entry, unless that is pending. -/
theorem Sound.get_entry (hocc : (p.1.map j).occupied = true) :
    p.1.get (p.1.map j).key =
      if (p.1.map j).pendingTo = none then (p.1.slotAt (p.1.map j).slot).value else none := by
  have huniq : ∀ k, ((p.1.map k).occupied && (p.1.map k).key == (p.1.map j).key
      && (p.1.map k).pendingTo.isNone && !p.1.stale (p.1.map k)) = true → k = j := by
    intro k hk
    simp only [Bool.and_eq_true, beq_iff_eq] at hk
    exact h.linked.distinct k j hk.1.1.1 hocc hk.1.1.2
  by_cases hidle : (p.1.map j).pendingTo = none
  · have hlookup : p.1.lookupEntry (p.1.map j).key = some j :=
      firstIdx_eq_some_of_unique (by simp [hocc, hidle, h.inv.not_stale hocc]) huniq
    rw [if_pos hidle, Arena.get, lookup, hlookup, map_some, bind_some]
  · have hlookup : p.1.lookupEntry (p.1.map j).key = none := by
      refine firstIdx_eq_none.mpr fun k => ?_
      by_contra hk
      rw [Bool.not_eq_false] at hk
      have hkj := huniq k hk
      subst hkj
      simp [hidle] at hk
    rw [if_neg hidle, Arena.get, lookup, hlookup]
    rfl

theorem Sound.get_eq (hocc : (p.1.map j).occupied = true) (hidle : (p.1.map j).pendingTo = none) :
    ∃ root v, chainRoot p.2 (p.1.map j).key = some root ∧ storedAt p.2 root = some v ∧
      p.1.get (p.1.map j).key = some v := by
  obtain ⟨i, hp, hv⟩ := h.inv.entry j hocc
  obtain ⟨root, hstored, -, hchain⟩ := h.linked.roots
  obtain ⟨v, hval⟩ := isSome_iff_exists.mp hv
  refine ⟨root i, v, hchain i j hp, (hstored i hv).2.trans hval, ?_⟩
  rw [h.get_entry hocc, if_pos hidle, slotAt_eq hp.2.1, hval]

end

end Gone

/-- In a run that issues at most 2^64 keys, no key is issued twice.  Once an
operation takes an entry away, every operation on its handle fails, from then
on and however the run goes on.  A live handle that is not pending reads the
value stored at the root of its chain of clones. -/
theorem handle_lifetime (kind : UInt8) (hN : N ≤ 255) (before after : List (Op T)) (op : Op T)
    (hkeys : (issued (history kind hN (before ++ op :: after) :
      Arena T N × List (Event T)).2).length ≤ 2 ^ 64) :
    let past : Arena T N × List (Event T) := history kind hN before
    let now : Arena T N × List (Event T) := history kind hN (before ++ op :: after)
    (issued now.2).Nodup ∧
    (∀ j, (past.1.map j).occupied = true → Departs past.1 op j →
      now.1.Rejected (past.1.map j).key) ∧
    (∀ j, (now.1.map j).occupied = true → (now.1.map j).pendingTo = none →
      ∃ root v, chainRoot now.2 (now.1.map j).key = some root ∧
        storedAt now.2 root = some v ∧ now.1.get (now.1.map j).key = some v ∧
        ((∀ handle f, Event.write handle f ∉ now.2) → Event.alloc root v ∈ now.2)) := by
  intro past now
  have hnow : now = after.foldl record (record past op) := by
    show history kind hN (before ++ op :: after) = _
    rw [history, foldl_append]
    rfl
  have hle : (issued now.2).length ≤ 2 ^ 64 := hkeys
  have hsound : Sound (new kind hN : Arena T N).nextKey now := (sound_start kind hN).run _ hle
  have hstep : (issued (record past op).2).length ≤ 2 ^ 64 := by
    rw [hnow] at hle
    exact (issued_suffix (record past op) after).length_le.trans hle
  have hpast : Sound (new kind hN : Arena T N).nextKey past :=
    (sound_start kind hN).run _ ((issued_suffix past [op]).length_le.trans hstep)
  refine ⟨hsound.ledger.nodup, fun j hocc hdep => ?_, fun j hocc hidle => ?_⟩
  · apply rejected_of_not_live
    rw [hnow] at hle ⊢
    have hold : (past.1.map j).key ∈ issued (record past op).2 :=
      (issued_suffix past [op]).subset (hpast.linked.known _ ⟨j, hocc, rfl⟩)
    exact (hpast.record op hstep).dead_run after hle hold (hpast.dead_of_departs hstep hocc hdep)
  · obtain ⟨root, v, hroot, hstored, hget⟩ := hsound.get_eq hocc hidle
    exact ⟨root, v, hroot, hstored, hget, fun hclean => storedAt_alloc hclean hstored⟩

/-- A slot and a map entry that are used twice.  The first handle stays dead. -/
theorem handle_lifetime_reused :
    let now : Arena Nat 1 × List (Event Nat) :=
      history 0 (by decide) ([.alloc 10 1 0] ++ .remove 1 :: [.alloc 20 2 0])
    (issued now.2).Nodup ∧ now.1.Rejected 1 ∧ now.1.get 7806831264735756412 = some 20 := by
  intro now
  have h := handle_lifetime (T := Nat) (N := 1) 0 (by decide) [.alloc 10 1 0] [.alloc 20 2 0]
    (.remove 1) (by decide)
  exact ⟨h.1, h.2.1 0 (by decide) rfl, by decide⟩

end Rcard.Arena
