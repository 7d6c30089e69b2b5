/-
The blocks of the compositor's heap and the links between them.

`Holds` says that a memory holds a list of tiles: every tile starts with its size, and the
links run through the free tiles in order and end in null.  The operations change the
memory in a few places, and each change replaces a stretch of tiles by another of the same
length.  `Holds.replace` is the one argument about what such a change leaves alone.
-/
import Rcard.Lib.Tiles
import Rcard.Memory.Heap

namespace Rcard.Heap

open List Function Tile

open Word
open Tile (total spots free used Merged)

/-- The link that a walk holds behind a tile at `a`. -/
def linkAfter (prev a : Nat) (t : Tile) : Nat := if t.isUsed then prev else a + nextOffset

/-- The link behind the last of the tiles. -/
def lastLink : (prev a : Nat) → List Tile → Nat
  | prev, _, [] => prev
  | prev, a, t :: ts => lastLink (linkAfter prev a t) (a + t.size) ts

/-- The last free tile that a walk has passed. -/
def lastFree : (node a : Nat) → List Tile → Nat
  | node, _, [] => node
  | node, a, t :: ts => lastFree (if t.isUsed then node else a) (a + t.size) ts

def Threaded (m : Ram) : (prev a : Nat) → List Tile → Prop
  | _, _, [] => True
  | prev, a, t :: ts =>
    load m a = t.size ∧ (t.isUsed = false → load m prev = a) ∧
      Threaded m (linkAfter prev a t) (a + t.size) ts

def Holds (m : Ram) (prev a : Nat) (ts : List Tile) : Prop :=
  Threaded m prev a ts ∧ load m (lastLink prev a ts) = 0

def Sized (ts : List Tile) : Prop := ∀ t ∈ ts, freeNodeSize ≤ t.size ∧ t.size % align = 0

/-- A link does not overlap so many bytes from `a` on. -/
def Apart (prev a n : Nat) : Prop := prev + 4 ≤ a ∨ a + n ≤ prev

variable {m m' : Ram} {prev a : Nat} {ts us : List Tile} {t : Tile}

@[simp] theorem linkAfter_free (prev a s : Nat) : linkAfter prev a (free s) = a + 4 := rfl

@[simp] theorem linkAfter_used (prev a s : Nat) : linkAfter prev a (used s) = prev := rfl

theorem Sized.append : Sized (ts ++ us) ↔ Sized ts ∧ Sized us := forall_mem_append

theorem Sized.cons : Sized (t :: ts) ↔ (freeNodeSize ≤ t.size ∧ t.size % align = 0) ∧ Sized ts :=
  forall_mem_cons

theorem lastLink_append (prev a : Nat) (ts us : List Tile) :
    lastLink prev a (ts ++ us) = lastLink (lastLink prev a ts) (a + total ts) us := by
  induction ts generalizing prev a with
  | nil => rfl
  | cons t ts ih => rw [cons_append, lastLink, ih, lastLink, total_cons, Nat.add_assoc]

theorem Threaded.append : Threaded m prev a (ts ++ us) ↔
    Threaded m prev a ts ∧ Threaded m (lastLink prev a ts) (a + total ts) us := by
  induction ts generalizing prev a with
  | nil => exact ⟨fun h => ⟨trivial, h⟩, fun h => h.2⟩
  | cons t ts ih =>
    grind [Threaded, lastLink, total]

theorem Holds.append : Holds m prev a (ts ++ us) ↔
    Threaded m prev a ts ∧ Holds m (lastLink prev a ts) (a + total ts) us := by
  rw [Holds, Holds, Threaded.append, lastLink_append, and_assoc]

/-- Links are the one before the tiles and those inside of them. -/
theorem lastLink_cases (prev a : Nat) (hsized : Sized ts) :
    lastLink prev a ts = prev ∨
      a + 4 ≤ lastLink prev a ts ∧ lastLink prev a ts + 4 ≤ a + total ts := by
  induction ts generalizing prev a with
  | nil => exact .inl rfl
  | cons t ts ih =>
    obtain ⟨⟨hsize, _⟩, hrest⟩ := Sized.cons.mp hsized
    rw [freeNodeSize] at hsize
    rw [lastLink, total_cons]
    rcases ih (linkAfter prev a t) (a + t.size) hrest with heq | hin
    · rw [heq, linkAfter, nextOffset]
      split
      · exact .inl rfl
      · exact .inr ⟨by omega, by omega⟩
    · exact .inr ⟨by omega, by omega⟩

theorem Apart.lastLink {n : Nat} (h : Apart prev a (total ts + n)) (hsized : Sized ts) :
    Apart (Heap.lastLink prev a ts) (a + total ts) n := by
  rw [Apart] at h ⊢
  rcases lastLink_cases prev a hsized with heq | hin
  · omega
  · omega

theorem Apart.linkAfter (h : Apart prev a (total (t :: ts))) (hsize : freeNodeSize ≤ t.size) :
    Apart (Heap.linkAfter prev a t) (a + t.size) (total ts) := by
  rw [Apart, total_cons] at h
  rw [freeNodeSize] at hsize
  rw [Apart, Heap.linkAfter, nextOffset]
  split
  · omega
  · omega

/-- The last link is not among what the tiles and the links before it say. -/
theorem Threaded.frame (h : Threaded m prev a ts) (hsized : Sized ts)
    (hapart : Apart prev a (total ts))
    (hm : ∀ i, a ≤ i ∧ i < a + total ts ∨ prev ≤ i ∧ i < prev + 4 →
      i < lastLink prev a ts ∨ lastLink prev a ts + 4 ≤ i → m' i = m i) :
    Threaded m' prev a ts := by
  induction ts generalizing prev a with
  | nil => trivial
  | cons t ts ih =>
    obtain ⟨hhead, hlink, hrest⟩ := h
    obtain ⟨⟨hsize, _⟩, hsizes⟩ := Sized.cons.mp hsized
    have hnext := hapart.linkAfter hsize
    have hwhere := lastLink_cases (linkAfter prev a t) (a + t.size) hsizes
    rw [freeNodeSize] at hsize
    rw [lastLink, total_cons] at hm
    rw [Apart, total_cons] at hapart
    obtain ⟨s, kind⟩ := t
    dsimp only at *
    cases kind with
    | true =>
      rw [linkAfter_used] at *
      have hrest' : Threaded m' prev (a + s) ts :=
        ih hrest hsizes hnext fun i hi hlast => hm i (by omega) hlast
      refine ⟨?_, nofun, hrest'⟩
      rw [load_congr fun i _ _ => hm i (by omega) (by omega)]
      exact hhead
    | false =>
      rw [linkAfter_free] at *
      have hrest' : Threaded m' (a + 4) (a + s) ts :=
        ih hrest hsizes hnext fun i hi hlast => hm i (by omega) hlast
      refine ⟨?_, fun _ => ?_, hrest'⟩
      · rw [load_congr fun i _ _ => hm i (by omega) (by omega)]
        exact hhead
      · rw [load_congr fun i _ _ => hm i (by omega) (by omega)]
        exact hlink rfl

/-- Tiles behind a change are reached over another link that says the same. -/
theorem Holds.relink {prev' : Nat} (h : Holds m prev a ts) (hsized : Sized ts)
    (hm : ∀ i, a ≤ i → i < a + total ts → m' i = m i) (hlink : load m' prev' = load m prev) :
    Holds m' prev' a ts := by
  induction ts generalizing prev prev' a with
  | nil => exact ⟨trivial, hlink.trans h.2⟩
  | cons t ts ih =>
    obtain ⟨⟨hhead, hfirst, hrest⟩, hlast⟩ := h
    obtain ⟨⟨hsize, _⟩, hsizes⟩ := Sized.cons.mp hsized
    rw [freeNodeSize] at hsize
    rw [total_cons] at hm
    have hhead' : load m' a = load m a := load_congr fun i _ _ => hm i (by omega) (by omega)
    have hafter : load m' (linkAfter prev' a t) = load m (linkAfter prev a t) := by
      rw [linkAfter, linkAfter]
      split
      · exact hlink
      · rw [nextOffset]
        exact load_congr fun i _ _ => hm i (by omega) (by omega)
    obtain ⟨hrest', hlast'⟩ :=
      ih ⟨hrest, hlast⟩ hsizes (fun i _ _ => hm i (by omega) (by omega)) hafter
    exact ⟨⟨hhead'.trans hhead, fun hfree => hlink.trans (hfirst hfree), hrest'⟩, hlast'⟩

/-- A change that replaces some tiles by others.  It touches the tiles and the link to
them, and the link behind them stays what it was. -/
theorem Holds.replace {pre mid mid' post : List Tile}
    (h : Holds m prev a (pre ++ (mid ++ post))) (hsized : Sized (pre ++ (mid ++ post)))
    (hapart : Apart prev a (total (pre ++ (mid ++ post)))) (htotal : total mid' = total mid)
    (hm : ∀ i, i < a + total pre ∨ a + total pre + total mid ≤ i →
      i < lastLink prev a pre ∨ lastLink prev a pre + 4 ≤ i → m' i = m i)
    (hmid : Threaded m' (lastLink prev a pre) (a + total pre) mid')
    (hlink : load m' (lastLink (lastLink prev a pre) (a + total pre) mid') =
      load m (lastLink (lastLink prev a pre) (a + total pre) mid)) :
    Holds m' prev a (pre ++ (mid' ++ post)) := by
  obtain ⟨hpre, hrest⟩ := Holds.append.mp h
  obtain ⟨_, hpost⟩ := Holds.append.mp hrest
  obtain ⟨hspre, hsrest⟩ := Sized.append.mp hsized
  obtain ⟨hsmid, hspost⟩ := Sized.append.mp hsrest
  rw [total_append, total_append] at hapart
  have hbehind := (hapart.lastLink hspre)
  rw [Apart] at hapart hbehind
  refine Holds.append.mpr ⟨hpre.frame hspre ?_ fun i hi hlast => hm i (by omega) hlast, ?_⟩
  · rw [Apart]
    omega
  · refine Holds.append.mpr ⟨hmid, ?_⟩
    rw [htotal]
    exact hpost.relink hspost (fun i _ _ => hm i (by omega) (by omega)) hlink

/-- The tiles from `lo` on, with the list head at `inner`. -/
structure Laid (m : Ram) (inner lo : Nat) (ts : List Tile) : Prop where
  holds : Holds m inner lo ts
  sized : Sized ts
  apart : Apart inner lo (total ts)
  pos : 0 < lo
  bound : lo + total ts < 2 ^ 32

section Laid

variable {inner lo b link n s : Nat} {pre mid mid' post : List Tile}

variable (h : Laid m inner lo (pre ++ (mid ++ post)))
include h

variable (hb : b = lo + total pre)
include hb

variable (hl : link = lastLink inner lo pre)
include hl

theorem Laid.link_apart : Apart link b (total mid) := by
  have hapart := h.apart
  rw [total_append] at hapart
  replace hapart := hapart.lastLink (Sized.append.mp h.sized).1
  rw [Apart, total_append] at hapart
  rw [Apart]
  omega

theorem Laid.replace (htotal : total mid' = total mid) (hsized : Sized mid')
    (hm : ∀ i, i < b ∨ b + total mid ≤ i → i < link ∨ link + 4 ≤ i → m' i = m i)
    (hmid : Threaded m' link b mid')
    (hlink : load m' (lastLink link b mid') = load m (lastLink link b mid)) :
    Laid m' inner lo (pre ++ (mid' ++ post)) := by
  subst hb hl
  obtain ⟨hspre, hsrest⟩ := Sized.append.mp h.sized
  have hall : total (pre ++ (mid' ++ post)) = total (pre ++ (mid ++ post)) := by
    simp only [total_append, htotal]
  refine
    { holds := h.holds.replace h.sized h.apart htotal hm hmid hlink
      sized := Sized.append.mpr
        ⟨hspre, Sized.append.mpr ⟨hsized, (Sized.append.mp hsrest).2⟩⟩
      apart := ?_
      pos := h.pos
      bound := ?_ }
  · rw [hall]
    exact h.apart
  · rw [hall]
    exact h.bound

theorem Laid.first : Threaded m link b mid := by
  subst hb hl
  exact (Holds.append.mp (Holds.append.mp h.holds).2).1

end Laid

/-- A client may write in a used block behind its header. -/
theorem Laid.touch {m : Ram} {inner lo k i : Nat} {pre post : List Tile}
    (h : Laid m inner lo (pre ++ ([used k] ++ post))) (hlow : lo + total pre + headerSize ≤ i)
    (hhigh : i < lo + total pre + k) (v : UInt8) :
    Laid (update m i v) inner lo (pre ++ ([used k] ++ post)) := by
  have hapart := h.link_apart rfl rfl
  have hsize : load m (lo + total pre) = k := (h.first rfl rfl).1
  simp only [Apart, total_cons, headerSize] at hapart hlow
  refine h.replace rfl rfl rfl ?_ (fun j hj _ => ?_) ⟨?_, nofun, trivial⟩ ?_
  · exact (Sized.append.mp (Sized.append.mp h.sized).2).1
  · simp only [total_cons] at hj
    exact update_of_ne (by omega) _ _
  · rw [load_congr fun j _ _ => update_of_ne (by omega) _ _]
    exact hsize
  · exact load_congr fun j hj hj' => update_of_ne (by
      simp only [lastLink, linkAfter_used] at hj hj'
      omega) _ _

theorem spots_size_pos {kind : Bool} {x : Nat × Nat} (hsized : Sized ts)
    (h : x ∈ spots kind a ts) : 0 < x.2 := by
  obtain ⟨pre, post, rfl, _⟩ := exists_of_mem_spots h
  have hsize := (hsized ⟨x.2, kind⟩ (by simp)).1
  rw [freeNodeSize] at hsize
  dsimp only at hsize
  omega

/-! ## `alloc` -/

/-- A walk over the free tiles, one round for each.  It holds the last free tile that it has
passed and the link behind it. -/
theorem Threaded.walk {β : Type} {f : (rounds node prev : Nat) → β} (h : Threaded m prev a ts)
    (hstep : ∀ b s, (b, s) ∈ spots false a ts → ∀ r node prev, load m prev = b → load m b = s →
      f (r + 1) node prev = f r b (b + nextOffset)) (r node : Nat) :
    f ((spots false a ts).length + r + 1) node prev =
      f (r + 1) (lastFree node a ts) (lastLink prev a ts) := by
  induction ts generalizing prev a node with
  | nil => rw [spots, length_nil, Nat.zero_add, lastFree, lastLink]
  | cons t ts ih =>
    obtain ⟨hhead, hlink, hrest⟩ := h
    obtain ⟨s, kind⟩ := t
    cases kind with
    | true =>
      exact ih hrest hstep node
    | false =>
      rw [spots_cons_self a (free s)] at ⊢
      rw [length_cons, Nat.add_right_comm _ 1,
        hstep a s mem_cons_self _ node prev (hlink rfl) hhead]
      exact ih hrest (fun b s hspot => hstep b s (mem_cons_of_mem _ hspot)) a

theorem allocFrom_skip {n : Nat} (r : Nat) (h : Threaded m prev a ts) (ha : 0 < a)
    (hsmall : ∀ t ∈ ts, t.isUsed = false → t.size < n) :
    allocFrom n ((spots false a ts).length + r + 1) m prev =
      allocFrom n (r + 1) m (lastLink prev a ts) := by
  refine h.walk (f := fun rounds _ prev => allocFrom n rounds m prev) ?_ r 0
  intro b s hspot r _ prev hcur hsize
  obtain ⟨pre, post, rfl, rfl⟩ := exists_of_mem_spots hspot
  have hlt : s < n := hsmall (free s) (by simp) rfl
  rw [allocFrom, hcur, if_neg (by omega), if_neg (by omega)]

section Fit

variable {inner lo b link n s rounds : Nat} {pre post : List Tile}

/-- The front of a free block becomes an allocation, and the rest stays free. -/
theorem Laid.split (h : Laid m inner lo (pre ++ ([free s] ++ post))) (hb : b = lo + total pre)
    (hl : link = lastLink inner lo pre) (hn : freeNodeSize ≤ n ∧ n % align = 0)
    (hrest : freeNodeSize ≤ s - n) :
    Laid (store (store (store (store m (b + n) (s - n)) (b + n + nextOffset)
        (load m (b + nextOffset))) link (b + n)) b n)
      inner lo (pre ++ ([used n, free (s - n)] ++ post)) := by
  have hapart := h.link_apart hb hl
  have hbound := h.bound
  have hmod := (h.sized (free s) (by simp)).2
  simp only [total_append, total_cons, Apart, freeNodeSize, nextOffset] at *
  refine h.replace hb hl ?_ ?_ (fun i hi hlink => ?_) ⟨?_, nofun, ?_, fun _ => ?_, trivial⟩ ?_
  · simp only [total_cons]
    omega
  · intro t ht
    grind [freeNodeSize, align]
  · simp only [total_cons] at hi
    rw [store_of_outside _ _ (by omega), store_of_outside _ _ hlink,
      store_of_outside _ _ (by omega), store_of_outside _ _ (by omega)]
  · exact load_store _ _ (by omega)
  · show load _ (b + n) = s - n
    rw [load_store_of_disjoint _ _ (by omega), load_store_of_disjoint _ _ (by omega),
      load_store_of_disjoint _ _ (by omega), load_store _ _ (by omega)]
  · show load _ link = b + n
    rw [load_store_of_disjoint _ _ (by omega), load_store _ _ (by omega)]
  · show load _ (b + n + 4) = load m (b + 4)
    rw [load_store_of_disjoint _ _ (by omega), load_store_of_disjoint _ _ (by omega),
      load_store _ _ (load_lt m _)]

/-- A free block becomes an allocation as it is. -/
theorem Laid.take (h : Laid m inner lo (pre ++ ([free s] ++ post))) (hb : b = lo + total pre)
    (hl : link = lastLink inner lo pre) :
    Laid (store (store m link (load m (b + nextOffset))) b s) inner lo
      (pre ++ ([used s] ++ post)) := by
  have hapart := h.link_apart hb hl
  have hbound := h.bound
  have hsize := h.sized (free s) (by simp)
  simp only [total_append, total_cons, Apart, freeNodeSize, nextOffset] at *
  refine h.replace hb hl rfl ?_ (fun i hi hlink => ?_) ⟨?_, nofun, trivial⟩ ?_
  · intro t ht
    rw [mem_singleton.mp ht]
    exact hsize
  · simp only [total_cons] at hi
    rw [store_of_outside _ _ (by omega), store_of_outside _ _ hlink]
  · exact load_store _ _ (by omega)
  · show load _ link = load m (b + 4)
    rw [load_store_of_disjoint _ _ (by omega), load_store _ _ (load_lt m _)]

/-- What becomes of a free block of `s` bytes out of which `n` are taken. -/
def carve (n s : Nat) : List Tile :=
  if freeNodeSize ≤ s - n then [used n, free (s - n)] else [used s]

theorem allocFrom_fit (h : Laid m inner lo (pre ++ ([free s] ++ post)))
    (hsmall : ∀ t ∈ pre, t.isUsed = false → t.size < n)
    (hn : freeNodeSize ≤ n ∧ n % align = 0) (hfit : n ≤ s)
    (hrounds : (spots false lo pre).length < rounds) :
    ∃ m', allocFrom n rounds m inner = some (m', lo + total pre + headerSize) ∧
      Laid m' inner lo (pre ++ (carve n s ++ post)) := by
  obtain ⟨r, rfl⟩ := Nat.exists_eq_add_of_lt hrounds
  obtain ⟨hsize, hlink, _⟩ := h.first rfl rfl
  have hcur : load m (lastLink inner lo pre) = lo + total pre := hlink rfl
  have hpos := h.pos
  rw [allocFrom_skip r (Holds.append.mp h.holds).1 h.pos hsmall, allocFrom, hcur, hsize,
    if_neg (by omega), if_pos hfit, carve]
  by_cases hrest : freeNodeSize ≤ s - n
  · rw [if_pos hrest, if_pos hrest]
    exact ⟨_, rfl, h.split rfl rfl hn hrest⟩
  · rw [if_neg hrest, if_neg hrest]
    exact ⟨_, rfl, h.take rfl rfl⟩

theorem allocFrom_full {ts : List Tile} (h : Laid m inner lo ts)
    (hsmall : ∀ t ∈ ts, t.isUsed = false → t.size < n)
    (hrounds : (spots false lo ts).length < rounds) :
    allocFrom n rounds m inner = some (m, 0) := by
  obtain ⟨r, rfl⟩ := Nat.exists_eq_add_of_lt hrounds
  rw [allocFrom_skip r h.holds.1 h.pos hsmall, allocFrom, h.holds.2, if_pos rfl]

end Fit

/-! ## `dealloc` -/

theorem lastFree_append (node a : Nat) (ts us : List Tile) :
    lastFree node a (ts ++ us) = lastFree (lastFree node a ts) (a + total ts) us := by
  induction ts generalizing node a with
  | nil => rfl
  | cons t ts ih => rw [cons_append, lastFree, ih, lastFree, total_cons, Nat.add_assoc]

theorem lastFree_cases (node a : Nat) (ts : List Tile) : lastFree node a ts = node ∨
    ∃ pre s post, ts = pre ++ ([free s] ++ post) ∧ lastFree node a ts = a + total pre := by
  induction ts generalizing node a with
  | nil => exact .inl rfl
  | cons t ts ih =>
    rw [lastFree]
    rcases ih (if t.isUsed then node else a) (a + t.size) with heq | ⟨pre, s, post, rfl, heq⟩
    · obtain ⟨s, kind⟩ := t
      cases kind with
      | true => exact .inl heq
      | false => exact .inr ⟨[], s, ts, rfl, heq⟩
    · exact .inr ⟨t :: pre, s, post, rfl, by rw [heq, total_cons, Nat.add_assoc]⟩

/-- The next free tile, if there is one, is not before the tiles. -/
theorem Holds.load_link (h : Holds m prev a ts) : load m prev = 0 ∨ a ≤ load m prev := by
  induction ts generalizing a with
  | nil => exact .inl h.2
  | cons t ts ih =>
    obtain ⟨⟨_, hlink, hrest⟩, hlast⟩ := h
    obtain ⟨s, kind⟩ := t
    cases kind with
    | true => exact (ih ⟨hrest, hlast⟩).imp_right fun hle => Nat.le_trans (Nat.le_add_right a s) hle
    | false => exact .inr (Nat.le_of_eq (hlink rfl).symm)

section Release

variable {inner lo b link s k : Nat} {pre post : List Tile}

/-- The block enters the list in front of the free blocks behind it. -/
theorem Laid.insert (h : Laid m inner lo (pre ++ ([used s] ++ post))) (hb : b = lo + total pre)
    (hl : link = lastLink inner lo pre) :
    Laid (store (store (store m b s) (b + nextOffset) (load (store m b s) link)) link b) inner lo
      (pre ++ ([free s] ++ post)) := by
  have hapart := h.link_apart hb hl
  have hbound := h.bound
  have hsize := h.sized (used s) (by simp)
  simp only [total_append, total_cons, Apart, freeNodeSize, nextOffset] at *
  refine h.replace hb hl rfl ?_ (fun i hi hlink => ?_) ⟨?_, fun _ => ?_, trivial⟩ ?_
  · intro t ht
    rw [mem_singleton.mp ht]
    exact hsize
  · simp only [total_cons] at hi
    rw [store_of_outside _ _ hlink, store_of_outside _ _ (by omega),
      store_of_outside _ _ (by omega)]
  · show load _ b = s
    rw [load_store_of_disjoint _ _ (by omega), load_store_of_disjoint _ _ (by omega),
      load_store _ _ (by omega)]
  · exact load_store _ _ (by omega)
  · show load _ (b + 4) = load m link
    rw [load_store_of_disjoint _ _ (by omega), load_store _ _ (load_lt _ _),
      load_store_of_disjoint _ _ (by omega)]

/-- Two free blocks that touch become one. -/
theorem Laid.coalesce (h : Laid m inner lo (pre ++ ([free s, free k] ++ post)))
    (hb : b = lo + total pre) :
    Laid (Heap.coalesce m b (b + s)) inner lo (pre ++ ([free (s + k)] ++ post)) := by
  have hapart := h.link_apart hb rfl
  have hbound := h.bound
  have hs := h.sized (free s) (by simp)
  have hk := h.sized (free k) (by simp)
  obtain ⟨hsize, hlink, hsize', _⟩ := h.first hb rfl
  have hcur : load m (lastLink inner lo pre) = b := hlink rfl
  rw [Heap.coalesce, hsize, if_pos rfl, hsize']
  simp only [total_append, total_cons, Apart, freeNodeSize, align, nextOffset] at *
  refine h.replace hb rfl ?_ ?_ (fun i hi hlink => ?_) ⟨?_, fun _ => ?_, trivial⟩ ?_
  · simp only [total_cons]
    omega
  · intro t ht
    rw [mem_singleton.mp ht, freeNodeSize, align]
    dsimp only
    omega
  · simp only [total_cons] at hi
    rw [store_of_outside _ _ (by omega), store_of_outside _ _ (by omega)]
  · show load _ b = s + k
    rw [load_store_of_disjoint _ _ (by omega), load_store _ _ (by omega)]
  · rw [load_store_of_disjoint _ _ (by omega), load_store_of_disjoint _ _ (by omega)]
    exact hcur
  · show load _ (b + 4) = load m (b + s + 4)
    rw [load_store _ _ (load_lt _ _), load_store_of_disjoint _ _ (by omega)]

theorem coalesce_of_ne {node next : Nat} (h : node + load m node ≠ next) :
    Heap.coalesce m node next = m :=
  if_neg h

/-- The block is joined with the one behind it. -/
theorem Laid.joinNext (h : Laid m inner lo (pre ++ ([free s] ++ post)))
    (hb : b = lo + total pre) (hmerged : Merged post) :
    ∃ s' post', Laid
        (if load m (b + nextOffset) ≠ 0 then Heap.coalesce m b (load m (b + nextOffset)) else m)
        inner lo (pre ++ ([free s'] ++ post')) ∧
      s' + total post' = s + total post ∧ Merged (free s' :: post') ∧
      spots true (b + s') post' = spots true (b + s) post := by
  obtain ⟨hsize, _, _⟩ := h.first hb rfl
  have hsize : load m b = s := hsize
  have hsized := h.sized
  have hpos := h.pos
  have hrest : Holds m (b + 4) (b + s) post := by
    subst hb
    exact (Holds.append.mp (Holds.append.mp h.holds).2).2
  rcases post with _ | ⟨⟨k, kind⟩, post⟩
  · -- the last block
    have hnext : load m (b + nextOffset) = 0 := hrest.2
    rw [if_neg (not_not.mpr hnext)]
    exact ⟨s, [], h, rfl, isChain_singleton _, rfl⟩
  · have hk := hsized ⟨k, kind⟩ (by simp)
    cases kind with
    | true =>
      have hsame : (if load m (b + nextOffset) ≠ 0 then
          Heap.coalesce m b (load m (b + nextOffset)) else m) = m := by
        have hnext := Holds.load_link (a := b + s + k) ⟨hrest.1.2.2, hrest.2⟩
        rw [linkAfter_used] at hnext
        rw [nextOffset]
        split
        · refine coalesce_of_ne ?_
          simp only [freeNodeSize] at hk
          omega
        · rfl
      rw [hsame]
      exact ⟨s, used k :: post, h, rfl, isChain_cons_cons.mpr ⟨.inr rfl, hmerged⟩, rfl⟩
    | false =>
      have hnext : load m (b + nextOffset) = b + s := hrest.1.2.1 rfl
      rw [hnext, if_pos (by omega)]
      refine ⟨s + k, post, Laid.coalesce h hb, ?_, ?_, ?_⟩
      · rw [total_cons, Nat.add_assoc]
      · exact Merged.cons_free hmerged
      · rw [spots_cons_of_ne _ (by simp), Nat.add_assoc]

/-- The block is joined with the one in front of it. -/
theorem Laid.joinPrev (h : Laid m inner lo (pre ++ ([free s] ++ post)))
    (hb : b = lo + total pre) (hmerged : Merged pre) :
    ∃ pre' s', Laid
        (if lastFree 0 lo pre ≠ 0 then Heap.coalesce m (lastFree 0 lo pre) b else m)
        inner lo (pre' ++ ([free s'] ++ post)) ∧
      total pre' + s' = total pre + s ∧ Merged (pre' ++ [free s']) ∧
      spots true lo pre' = spots true lo pre := by
  rcases pre.eq_nil_or_concat' with rfl | ⟨front, ⟨k, kind⟩, rfl⟩
  · exact ⟨[], s, h, rfl, isChain_singleton _, rfl⟩
  · have hk := h.sized ⟨k, kind⟩ (by simp)
    have hpos := h.pos
    rw [total_append, total_cons, total_nil] at hb
    dsimp only at hb hk
    rw [lastFree_append]
    cases kind with
    | false =>
      have hnode : lastFree (lastFree 0 lo front) (lo + total front) [free k] = lo + total front :=
        rfl
      rw [hnode, if_pos (by omega), show b = lo + total front + k by omega]
      rw [append_assoc] at h
      refine ⟨front, k + s, Laid.coalesce h rfl, ?_, ?_, ?_⟩
      · simp only [total_append, total_cons, total_nil]
        omega
      · exact hmerged.snoc_free
      · rw [spots_append]
        exact (append_nil _).symm
    | true =>
      have hnode : lastFree (lastFree 0 lo front) (lo + total front) [used k] =
        lastFree 0 lo front := rfl
      rw [hnode]
      have hsame : (if lastFree 0 lo front ≠ 0 then
          Heap.coalesce m (lastFree 0 lo front) b else m) = m := by
        split
        · refine coalesce_of_ne ?_
          rcases lastFree_cases 0 lo front with hzero | ⟨pre, s', rest, rfl, heq⟩
          · contradiction
          · have hfirst : Laid m inner lo
                (pre ++ ([free s'] ++ (rest ++ ([used k, free s] ++ post)))) := by
              grind
            have hsize : load m (lo + total pre) = s' := (hfirst.first rfl rfl).1
            simp only [total_append, total_cons, freeNodeSize] at hb hk
            rw [heq]
            omega
        · rfl
      rw [hsame]
      refine ⟨front ++ [used k], s, h, rfl, ?_, rfl⟩
      rw [append_assoc]
      exact Merged.around hmerged.append_left (isChain_singleton _) k

theorem Laid.findLink_eq {rounds : Nat} (h : Laid m inner lo (pre ++ ([used s] ++ post)))
    (hb : b = lo + total pre) (hrounds : (spots false lo pre).length < rounds) :
    findLink b rounds m inner = some (lastLink inner lo pre) := by
  obtain ⟨r, rfl⟩ := Nat.exists_eq_add_of_lt hrounds
  obtain ⟨hpre, hrest⟩ := Holds.append.mp h.holds
  have hsize := (h.sized (used s) (by simp)).1
  have hnext := Holds.load_link (a := lo + total pre + s) ⟨hrest.1.2.2, hrest.2⟩
  rw [linkAfter_used] at hnext
  rw [freeNodeSize] at hsize
  dsimp only at hsize
  refine (hpre.walk (f := fun rounds _ prev => findLink b rounds m prev) ?_ r 0).trans ?_
  · intro c k hspot r _ prev hcur _
    have hbounds := spots_bounds hspot
    have hpos := h.pos
    rw [findLink, hcur, if_neg (by omega)]
  · rw [findLink, if_pos (by omega)]

theorem Laid.findPrev_eq {rounds : Nat} (h : Laid m inner lo (pre ++ ([free s] ++ post)))
    (hb : b = lo + total pre) (hrounds : (spots false lo pre).length < rounds) :
    findPrev b rounds m 0 (load m inner) = some (lastFree 0 lo pre) := by
  obtain ⟨r, rfl⟩ := Nat.exists_eq_add_of_lt hrounds
  have hcur : load m (lastLink inner lo pre) = b := (h.first hb rfl).2.1 rfl
  refine ((Holds.append.mp h.holds).1.walk
    (f := fun rounds node prev => findPrev b rounds m node (load m prev)) ?_ r 0).trans ?_
  · intro c k hspot r _ prev hfound _
    have hbounds := spots_bounds hspot
    have hpositive := spots_size_pos (Sized.append.mp h.sized).1 hspot
    have hpos := h.pos
    rw [findPrev, hfound, if_pos (by omega)]
  · rw [findPrev, hcur, if_neg (by simp)]

/-- `dealloc` of a used block ends, and the block is free and joined with its neighbours. -/
theorem Laid.dealloc {rounds : Nat} (h : Laid m inner lo (pre ++ ([used s] ++ post)))
    (hmerged : Merged (pre ++ ([used s] ++ post)))
    (hrounds : (spots false lo pre).length < rounds) :
    ∃ m' ts, Heap.dealloc rounds inner m (lo + total pre + headerSize) = some m' ∧
      Laid m' inner lo ts ∧ total ts = total (pre ++ ([used s] ++ post)) ∧ Merged ts ∧
      spots true lo ts = spots true lo pre ++ spots true (lo + total pre + s) post := by
  have hpremerged := hmerged.append_left
  have hpostmerged := hmerged.append_right.append_right
  have hsize : load m (lo + total pre) = s := (h.first rfl rfl).1
  have hinsert := h.insert rfl rfl
  obtain ⟨s₁, post₁, hnext, htotal₁, hmerged₁, hspots₁⟩ := hinsert.joinNext rfl hpostmerged
  obtain ⟨pre₁, s₂, hprev, htotal₂, hmerged₂, hspots₂⟩ := hnext.joinPrev rfl hpremerged
  refine ⟨_, pre₁ ++ ([free s₂] ++ post₁), ?_, hprev, ?_, ?_, ?_⟩
  · simp only [Heap.dealloc, Nat.add_sub_cancel, hsize, h.findLink_eq rfl hrounds,
      hnext.findPrev_eq rfl hrounds, Option.bind_eq_bind, Option.bind_some, Option.pure_def]
  · simp only [total_append, total_cons] at *
    omega
  · exact isChain_split.mpr ⟨hmerged₂, Merged.cons_free hmerged₁⟩
  · rw [spots_append, hspots₂, ← hspots₁, singleton_append, spots_cons_of_ne _ (by simp),
      show lo + total pre₁ + s₂ = lo + total pre + s₁ by omega]

theorem length_spots_le (h : Laid m inner lo ts) (kind : Bool) (a : Nat) :
    freeNodeSize * (spots kind a ts).length ≤ total ts := by
  have hsized := h.sized
  clear h
  induction ts generalizing a with
  | nil => exact Nat.le_refl 0
  | cons t ts ih =>
    obtain ⟨⟨hsize, _⟩, hsizes⟩ := Sized.cons.mp hsized
    have hrest := ih (a + t.size) hsizes
    grind [freeNodeSize, spots, total]

end Release

end Rcard.Heap
