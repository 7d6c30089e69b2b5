/-
Maps as lists of pairs in the order of their keys.

Most lemmas do not need the order: `get?` reads the first pair of a key, and `insert` puts a
new pair before every other pair of its key.
-/
import Mathlib.Init

namespace Rcard

open List

abbrev OrdMap (K V : Type) := List (K × V)

namespace OrdMap

variable {K V W : Type}

def keys (m : OrdMap K V) : List K := m.map Prod.fst

def values (m : OrdMap K V) : List V := m.map Prod.snd

def mapValues (f : V → W) (m : OrdMap K V) : OrdMap K W := m.map fun p => (p.1, f p.2)

variable {f : V → W} {m : OrdMap K V}

theorem mem_mapValues {key : K} {value : W} :
    (key, value) ∈ m.mapValues f ↔ ∃ v, (key, v) ∈ m ∧ f v = value := by
  constructor
  · intro h
    obtain ⟨⟨key', v⟩, hv, heq⟩ := mem_map.mp h
    cases heq
    exact ⟨v, hv, rfl⟩
  · rintro ⟨v, hv, rfl⟩
    exact mem_map.mpr ⟨(key, v), hv, rfl⟩

theorem mem_values_mapValues {value : W} :
    value ∈ (m.mapValues f).values ↔ ∃ p ∈ m, f p.2 = value := by
  rw [values, mapValues, map_map]
  exact mem_map

section Lookup

variable [DecidableEq K]

def get? (m : OrdMap K V) (key : K) : Option V := (m.find? fun p => p.1 = key).map Prod.snd

theorem get?_cons (key' : K) (value : V) (m : OrdMap K V) (key : K) :
    get? ((key', value) :: m) key = if key' = key then some value else m.get? key := by
  unfold get?
  by_cases h : key' = key
  · simp [h]
  · simp [h]

theorem mem_of_get? {m : OrdMap K V} {key : K} {value : V} (h : m.get? key = some value) :
    (key, value) ∈ m := by
  induction m with
  | nil => cases h
  | cons p m ih =>
    rw [get?_cons] at h
    grind

theorem get?_mapValues (f : V → W) (m : OrdMap K V) (key : K) :
    (m.mapValues f).get? key = (m.get? key).map f := by
  induction m with
  | nil => rfl
  | cons p m ih =>
    rw [get?_cons, mapValues, map_cons, get?_cons]
    split
    · rfl
    · exact ih

end Lookup

variable [LT K] [DecidableLT K] [DecidableEq K]

def insert (m : OrdMap K V) (key : K) (value : V) : OrdMap K V :=
  match m with
  | [] => [(key, value)]
  | (key', value') :: m =>
    if key < key' then (key, value) :: (key', value') :: m
    else if key = key' then (key, value) :: m
    else (key', value') :: insert m key value

theorem mem_insert {key : K} {value : V} {p : K × V} (h : p ∈ m.insert key value) :
    p = (key, value) ∨ p ∈ m := by
  induction m with
  | nil => exact .inl (mem_singleton.mp h)
  | cons q m ih =>
    unfold insert at h
    grind

theorem get?_insert (m : OrdMap K V) (key : K) (value : V) (key' : K) :
    (m.insert key value).get? key' = if key = key' then some value else m.get? key' := by
  induction m with
  | nil => exact get?_cons key value [] key'
  | cons q m ih =>
    grind [get?, insert]

theorem mapValues_insert (f : V → W) (m : OrdMap K V) (key : K) (value : V) :
    (m.insert key value).mapValues f = (m.mapValues f).insert key (f value) := by
  induction m with
  | nil => rfl
  | cons q m ih =>
    simp only [insert, mapValues, map_cons]
    split
    · rfl
    · split
      · rfl
      · exact congrArg _ ih

/-- One value put at several keys, as the image of values that depend on the key. -/
theorem exists_foldl_insert {w : W} {Q : K × V → Prop} {keys : List K}
    (h : ∀ key ∈ keys, ∃ v, f v = w ∧ Q (key, v)) (m : OrdMap K V) :
    ∃ m' : OrdMap K V, keys.foldl (fun n key => n.insert key w) (m.mapValues f) = m'.mapValues f ∧
      ∀ p ∈ m', p ∈ m ∨ Q p := by
  induction keys generalizing m with
  | nil => exact ⟨m, rfl, fun _ hp => .inl hp⟩
  | cons key keys ih =>
    obtain ⟨v, rfl, hv⟩ := h key mem_cons_self
    obtain ⟨m', hfold, hm'⟩ := ih (fun k hk => h k (mem_cons_of_mem key hk)) (m.insert key v)
    refine ⟨m', by rw [foldl_cons, ← mapValues_insert, hfold], fun p hp => ?_⟩
    rcases hm' p hp with hmem | hq
    · rcases mem_insert hmem with rfl | hold
      · exact .inr hv
      · exact .inl hold
    · exact .inr hq

end OrdMap
end Rcard
