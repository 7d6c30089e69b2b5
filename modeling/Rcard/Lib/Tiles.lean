/-
Tiles that follow each other without a gap, some free and some used.

A list of tiles laid from an address `a` on covers the bytes from `a` to `a + total`.
`spots` are the tiles of one kind with the addresses they get.
-/
import Mathlib.Data.List.Chain

namespace Rcard

open List

structure Tile where
  size : Nat
  isUsed : Bool
  deriving DecidableEq, Repr

namespace Tile

abbrev free (size : Nat) : Tile := ⟨size, false⟩

abbrev used (size : Nat) : Tile := ⟨size, true⟩

def total : List Tile → Nat
  | [] => 0
  | t :: ts => t.size + total ts

/-- The addresses and sizes of the tiles of a kind. -/
def spots (kind : Bool) : (a : Nat) → List Tile → List (Nat × Nat)
  | _, [] => []
  | a, t :: ts =>
    if t.isUsed = kind then (a, t.size) :: spots kind (a + t.size) ts
    else spots kind (a + t.size) ts

/-- No two free tiles are next to each other. -/
def Merged (ts : List Tile) : Prop := ts.IsChain fun t u => t.isUsed ∨ u.isUsed

variable {kind : Bool} {a b s : Nat} {ts us : List Tile}

@[simp] theorem total_nil : total [] = 0 := rfl

@[simp] theorem total_cons (t : Tile) (ts : List Tile) : total (t :: ts) = t.size + total ts := rfl

@[simp] theorem total_append (ts us : List Tile) : total (ts ++ us) = total ts + total us := by
  induction ts with
  | nil => simp
  | cons t ts ih => rw [cons_append, total_cons, ih, total_cons, Nat.add_assoc]

theorem spots_cons_self (a : Nat) (t : Tile) (ts : List Tile) :
    spots t.isUsed a (t :: ts) = (a, t.size) :: spots t.isUsed (a + t.size) ts :=
  if_pos rfl

theorem spots_cons_of_ne (a : Nat) {t : Tile} (h : t.isUsed ≠ kind) (ts : List Tile) :
    spots kind a (t :: ts) = spots kind (a + t.size) ts :=
  if_neg h

theorem spots_append (kind : Bool) (a : Nat) (ts us : List Tile) :
    spots kind a (ts ++ us) = spots kind a ts ++ spots kind (a + total ts) us := by
  induction ts generalizing a with
  | nil => rfl
  | cons t ts ih =>
    grind [spots, total]

theorem exists_of_mem_spots (h : (b, s) ∈ spots kind a ts) :
    ∃ pre post, ts = pre ++ ⟨s, kind⟩ :: post ∧ b = a + total pre := by
  induction ts generalizing a with
  | nil => cases h
  | cons t ts ih =>
    have hlater (h : (b, s) ∈ spots kind (a + t.size) ts) :
        ∃ pre post, t :: ts = pre ++ ⟨s, kind⟩ :: post ∧ b = a + total pre := by grind [total]
    rw [spots] at h
    split at h
    · rename_i hkind
      rcases mem_cons.mp h with heq | h
      · cases heq
        exact ⟨[], ts, by rw [← hkind]; rfl, rfl⟩
      · exact hlater h
    · exact hlater h

theorem spots_bounds (h : (b, s) ∈ spots kind a ts) : a ≤ b ∧ b + s ≤ a + total ts := by
  obtain ⟨pre, post, rfl, rfl⟩ := exists_of_mem_spots h
  simp only [total_append, total_cons]
  omega

/-- The size of a free tile at an end does not matter. -/
theorem Merged.cons_free {k k' : Nat} (h : Merged (free k :: ts)) : Merged (free k' :: ts) := by
  cases ts with
  | nil => exact isChain_singleton _
  | cons t ts => exact isChain_cons_cons.mpr (isChain_cons_cons.mp h)

theorem Merged.snoc_free {k k' : Nat} (h : Merged (ts ++ [free k])) : Merged (ts ++ [free k']) := by
  obtain ⟨hts, _, hlast⟩ := isChain_append.mp h
  refine isChain_append.mpr ⟨hts, isChain_singleton _, fun t ht u hu => ?_⟩
  cases hu
  exact hlast t ht (free k) rfl

theorem Merged.snoc_used (h : Merged ts) (k : Nat) : Merged (ts ++ [used k]) := by
  refine isChain_append.mpr ⟨h, isChain_singleton _, fun t _ u hu => ?_⟩
  cases hu
  exact .inr rfl

theorem Merged.used_cons (h : Merged ts) (k : Nat) : Merged (used k :: ts) := by
  cases ts with
  | nil => exact isChain_singleton _
  | cons t ts => exact isChain_cons_cons.mpr ⟨.inl rfl, h⟩

theorem Merged.append_left (h : Merged (ts ++ us)) : Merged ts := IsChain.left_of_append h

theorem Merged.append_right (h : Merged (ts ++ us)) : Merged us := IsChain.right_of_append h

/-- A used tile separates what stands around it. -/
theorem Merged.around (hts : Merged ts) (hus : Merged us) (k : Nat) : Merged (ts ++ used k :: us) :=
  isChain_split.mpr ⟨hts.snoc_used k, hus.used_cons k⟩

/-- Merged free tiles do not even touch. -/
theorem Merged.apart (h : Merged ts) (hpos : ∀ t ∈ ts, 0 < t.size) (a : Nat) :
    (spots false a ts).Pairwise fun x y => x.1 + x.2 < y.1 := by
  induction ts generalizing a with
  | nil => exact Pairwise.nil
  | cons t ts ih =>
    have htail := ih (isChain_cons.mp h).2 fun u hu => hpos u (mem_cons_of_mem t hu)
    rw [spots]
    split
    · rename_i hfree
      refine pairwise_cons.mpr ⟨fun x hx => ?_, htail _⟩
      rcases ts with _ | ⟨u, ts⟩
      · cases hx
      · -- the next tile is used and lies between
        have hnext : u.isUsed := by
          simpa [hfree] using (isChain_cons_cons.mp h).1
        have hbound := hpos u (by simp)
        rw [spots_cons_of_ne _ (by simp [hnext])] at hx
        have hle := (spots_bounds hx).1
        omega
    · exact htail _

/-- The first free tile of at least some size. -/
theorem first_fit (n : Nat) (ts : List Tile) :
    (∀ t ∈ ts, t.isUsed = false → t.size < n) ∨
      ∃ pre s post, ts = pre ++ ([free s] ++ post) ∧
        (∀ t ∈ pre, t.isUsed = false → t.size < n) ∧ n ≤ s := by
  induction ts with
  | nil => exact .inl nofun
  | cons t ts ih =>
    by_cases hfit : t.isUsed = false ∧ n ≤ t.size
    · obtain ⟨s, kind⟩ := t
      obtain ⟨rfl, hle⟩ := hfit
      exact .inr ⟨[], s, ts, rfl, nofun, hle⟩
    grind

/-- Without used tiles there is one free tile at most. -/
theorem Merged.eq_free (h : Merged ts) (hnone : spots true a ts = []) :
    ts = [] ∨ ts = [free (total ts)] := by
  rcases ts with _ | ⟨⟨s, _ | _⟩, _ | ⟨⟨k, _ | _⟩, ts⟩⟩
  · exact .inl rfl
  · exact .inr rfl
  · exact absurd (isChain_cons_cons.mp h).1 (by simp)
  · cases hnone
  · cases hnone
  · cases hnone
  · cases hnone

end Tile
end Rcard
