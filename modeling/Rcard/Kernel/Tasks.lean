/-
What the kernel decides about its tasks: which of them is next, and what memory one may name.
-/
import Rcard.Lib.Search

namespace Rcard.Kernel

open List

/-- What the scan reads of a task: its priority and whether it is looked for. -/
structure Task where
  priority : UInt8
  wanted : Bool

variable (len previous : Nat) (tasks : Nat → Task)

/-- The position and the choice after some rounds of the loop. -/
def scan : Nat → Nat × Option Nat
  | 0 => (previous, none)
  | k + 1 =>
    let (pos, choice) := scan k
    let pos := if len ≤ pos + 1 then 0 else pos + 1
    if (tasks pos).wanted && choice.all fun b => (tasks pos).priority < (tasks b).priority then
      (pos, some pos)
    else (pos, choice)

def priorityScan : Option Nat := (scan len previous tasks len).2

/-- How many tasks the scan meets before `j`. -/
def ahead (j : Nat) : Nat := if previous < j then j - previous - 1 else len + j - previous - 1

/-- Of the wanted tasks among the first `k` the most important, and of equals the first. -/
def Best (k : Nat) : Option Nat → Prop
  | none => ∀ j < len, ahead len previous j < k → (tasks j).wanted = false
  | some i => i < len ∧ (tasks i).wanted ∧ ahead len previous i < k ∧
    ∀ j < len, (tasks j).wanted → ahead len previous j < k →
      (tasks i).priority ≤ (tasks j).priority ∧
      (ahead len previous j < ahead len previous i → (tasks i).priority < (tasks j).priority)

/-- The task is wanted and no wanted one is more important. -/
def Leads (i : Nat) : Prop :=
  i < len ∧ (tasks i).wanted ∧ ∀ j < len, (tasks j).wanted → (tasks i).priority ≤ (tasks j).priority

variable {len previous}

theorem best_scan (h : previous < len) {k : Nat} (hk : k ≤ len) :
    (scan len previous tasks k).1 =
        (if previous + k < len then previous + k else previous + k - len) ∧
      Best len previous tasks k (scan len previous tasks k).2 := by
  induction k with
  | zero => exact ⟨(if_pos h).symm, fun _ _ _ => by omega⟩
  | succ k ih =>
    have ih := ih (by omega)
    rw [scan]
    rcases hscan : scan len previous tasks k with ⟨pos, choice⟩
    rw [hscan] at ih
    generalize hnext : (if len ≤ pos + 1 then 0 else pos + 1) = next
    have hahead : ∀ j < len, ahead len previous j < k + 1 ↔
        ahead len previous j < k ∨ j = next := by grind [ahead]
    -- A task that is passed over is not wanted or not more important.
    cases choice with
    | none => cases hp : (tasks next).wanted <;> grind [Best]
    | some best =>
      by_cases hless : (tasks next).wanted ∧ (tasks next).priority < (tasks best).priority <;>
        grind [Best]

/-- The scan over the whole table. -/
theorem priorityScan_best (h : previous < len) :
    Best len previous tasks len (priorityScan len previous tasks) :=
  (best_scan tasks h (Nat.le_refl len)).2

theorem priorityScan_best_pair :
    Best 2 0 (fun _ => ⟨7, true⟩) 2 (priorityScan 2 0 fun _ => ⟨7, true⟩) :=
  priorityScan_best _ (by decide)

/-- Whatever the tasks do from one choice to the next, a task that leads at each of them gets
its turn, after at most as many others as the table has between the first choice and it. -/
theorem choices_fair {i m : Nat} {tables : Nat → Nat → Task} {turn : Nat → Nat}
    (hfirst : turn 0 < len) (hm : ahead len (turn 0) i ≤ m)
    (hturn : ∀ k ≤ m, priorityScan len (turn k) (tables k) = some (turn (k + 1)))
    (hleads : ∀ k ≤ m, Leads len (tables k) i) : ∃ k ≤ m, turn (k + 1) = i := by
  have hbest := (best_scan (tables 0) hfirst (Nat.le_refl len)).2
  rw [← priorityScan, hturn 0 (Nat.zero_le m)] at hbest
  obtain ⟨hlt, hwanted, -, hall⟩ := hbest
  obtain ⟨hi, hwanted', htop⟩ := hleads 0 (Nat.zero_le m)
  have hnearer : turn (0 + 1) = i ∨ ahead len (turn (0 + 1)) i < ahead len (turn 0) i := by
    grind [ahead]
  rcases hnearer with heq | hnear
  · exact ⟨0, Nat.zero_le m, heq⟩
  · cases m with
    | zero => omega
    | succ m =>
      obtain ⟨k, hk, heq⟩ := @choices_fair i m (fun k => tables (k + 1)) (fun k => turn (k + 1)) hlt
        (by omega) (fun k hk => hturn (k + 1) (by omega)) fun k hk => hleads (k + 1) (by omega)
      exact ⟨k + 1, by omega, heq⟩

theorem choices_fair_pair : ∃ k ≤ 1, (k + 1) % 2 = 0 :=
  @choices_fair 2 0 1 (fun _ _ => ⟨7, true⟩) (· % 2) (by decide) (by decide) (by decide) fun _ _ =>
    ⟨by decide, rfl, fun _ _ _ => UInt8.le_refl 7⟩

/-- A region of a task, with the verdict of `region_ok`. -/
structure Region where
  base : Nat
  endAddr : Nat
  ok : Bool
  deriving DecidableEq

def Region.contains (r : Region) (addr : Nat) : Bool := r.base ≤ addr && addr < r.endAddr

/-- The status of the region relative to the address. -/
def regionCompare (r : Region) (addr : Nat) : Ordering :=
  if addr < r.base then .gt
  else if r.endAddr ≤ addr then .lt
  else .eq

def scanAdjacent (endAddr : Nat) : Nat → List Region → Bool
  | _, [] => false
  | scanAddr, r :: rs =>
    if !r.contains scanAddr || !r.ok then false
    else endAddr ≤ r.endAddr || scanAdjacent endAddr r.endAddr rs

def canAccess (base len : Nat) (table : List Region) : Bool :=
  if len = 0 then true else
  match binarySearchBy (regionCompare · base) table with
  | none => false
  | some index =>
    match table.drop index with
    | [] => false
    | first :: rest =>
      if !first.ok then false
      else base + len ≤ first.endAddr || scanAdjacent (base + len) first.endAddr rest

/-- Regions in order without overlap; one that gives no access may be repeated. -/
def Ordered (table : List Region) : Prop :=
  (∀ r ∈ table, r.base < r.endAddr) ∧
    table.Pairwise fun r r' => r.endAddr ≤ r'.base ∨ r = r' ∧ r.ok = false

def Covers (table : List Region) (base stop : Nat) : Prop :=
  ∀ a, base ≤ a → a < stop → ∃ r ∈ table, r.contains a ∧ r.ok

theorem regionCompare_eq_iff {r : Region} {addr : Nat} :
    regionCompare r addr = .eq ↔ r.contains addr := by
  grind [regionCompare, Region.contains]

theorem Ordered.sorted {table : List Region} (h : Ordered table) (addr : Nat) :
    SearchSorted (regionCompare · addr) table := by
  refine h.2.imp_of_mem fun {r r'} hr hr' hrr' => ?_
  have := h.1 r hr
  have := h.1 r' hr'
  grind [regionCompare]

theorem scanAdjacent_iff {stop scanAddr : Nat} {rs : List Region} (h : Ordered rs)
    (hs : ∀ r ∈ rs, scanAddr < r.endAddr) (hlt : scanAddr < stop) :
    scanAdjacent stop scanAddr rs ↔ Covers rs scanAddr stop := by
  induction rs generalizing scanAddr with
  | nil => simpa [scanAdjacent, Covers] using ⟨scanAddr, Nat.le_refl _, hlt⟩
  | cons r rs ih =>
    obtain ⟨hr, hrs⟩ := pairwise_cons.mp h.2
    rw [scanAdjacent]
    split
    · -- No later region has the address.
      grind [Covers, Region.contains, Ordered]
    · have ih := @ih r.endAddr ⟨fun r' hr' => h.1 r' (.tail _ hr'), hrs⟩
      grind [Covers, Region.contains, Ordered]

/-- The regions before one that has the address are not needed from there on, unless they are
the same and give no access. -/
theorem covers_append_iff {before rest : List Region} {first : Region} {base stop : Nat}
    (h : Ordered (before ++ first :: rest)) (hin : first.contains base) :
    Covers (before ++ first :: rest) base stop ↔ Covers (first :: rest) base stop := by
  refine ⟨fun hcov a hbase hstop => ?_, fun hcov a hbase hstop => ?_⟩
  · obtain ⟨r, hr, ha⟩ := hcov a hbase hstop
    rcases mem_append.mp hr with hbefore | hrest
    · have hpair := (pairwise_append.mp h.2).2.2 r hbefore first mem_cons_self
      grind [Region.contains]
    · exact ⟨r, hrest, ha⟩
  · exact (hcov a hbase hstop).imp fun _ hr => ⟨mem_append_right _ hr.1, hr.2⟩

end Rcard.Kernel
