/-
One queue with several readers.

A reader has a cursor into the queue and wants some of the entries.  What it has not read
yet are the entries it wants from its cursor on, `pending`.  The lemmas say that the queue
with a cursor works as a queue of the reader's own: an entry put at the end is put at the
end of `pending`, an entry taken out of the queue is taken out of `pending`, and moving the
cursor past the next wanted entry takes the first of `pending`.
-/
import Mathlib.Data.List.Basic

namespace Rcard.Cursor

open List

variable {α : Type}

def pending (wants : α → Bool) (queue : List α) (cursor : Nat) : List α :=
  (queue.drop cursor).filter wants

/-- The cursor when entry `i` has been taken out. -/
def past (i cursor : Nat) : Nat := if i < cursor then cursor - 1 else cursor

variable {wants : α → Bool} {queue : List α} {cursor : Nat}

theorem past_le {i n : Nat} (hi : i < n) (hc : cursor ≤ n) : past i cursor ≤ n - 1 := by
  unfold past
  split <;> omega

@[simp] theorem past_zero (i : Nat) : past i 0 = 0 := rfl

theorem mem_pending {x : α} :
    x ∈ pending wants queue cursor ↔ ∃ i, cursor ≤ i ∧ queue[i]? = some x ∧ wants x = true := by
  rw [pending, mem_filter, mem_iff_getElem?]
  constructor
  · grind
  · rintro ⟨i, hle, hi, hx⟩
    refine ⟨⟨i - cursor, ?_⟩, hx⟩
    rwa [getElem?_drop, Nat.add_sub_cancel' hle]

theorem pending_append (hc : cursor ≤ queue.length) (x : α) :
    pending wants (queue ++ [x]) cursor =
      pending wants queue cursor ++ if wants x then [x] else [] := by
  grind [pending]

theorem mem_pending_of_getElem {i : Nat} {x : α} (hq : queue.Nodup) (hi : queue[i]? = some x) :
    x ∈ pending wants queue cursor ↔ cursor ≤ i ∧ wants x = true := by
  rw [mem_pending]
  constructor
  · rintro ⟨j, hle, hj, hx⟩
    obtain ⟨hilt, -⟩ := List.getElem?_eq_some_iff.mp hi
    rw [(getElem?_inj hilt hq).mp (hi.trans hj.symm)]
    exact ⟨hle, hx⟩
  · exact fun h => ⟨i, h.1, hi, h.2⟩

theorem pending_eraseIdx [DecidableEq α] {i : Nat} {x : α} (hq : queue.Nodup)
    (hi : queue[i]? = some x) :
    pending wants (queue.eraseIdx i) (past i cursor) = (pending wants queue cursor).erase x := by
  obtain ⟨hlt, hget⟩ := List.getElem?_eq_some_iff.mp hi
  have htake : (queue.take i).length = i := length_take_of_le (Nat.le_of_lt hlt)
  rw [eraseIdx_eq_take_drop_succ]
  by_cases hic : i < cursor
  · -- the reader is past the entry, so that it does not wait for it
    have hnot : x ∉ pending wants queue cursor := fun h =>
      absurd ((mem_pending_of_getElem hq hi).mp h).1 (by omega)
    rw [erase_of_not_mem hnot, past, if_pos hic, pending, drop_append, drop_of_length_le (by omega),
      nil_append, drop_drop]
    congr 2
    omega
  · have hle : cursor ≤ (queue.take i).length := by omega
    have hsplit : queue = queue.take i ++ x :: queue.drop (i + 1) := by
      rw [← hget, ← drop_eq_getElem_cons hlt, take_append_drop]
    have hnodup : (queue.take i ++ x :: queue.drop (i + 1)).Nodup := hsplit ▸ hq
    obtain ⟨-, hright, hdisj⟩ := nodup_append.mp hnodup
    have hfirst : x ∉ ((queue.take i).drop cursor).filter wants := fun h =>
      hdisj x (mem_of_mem_drop (mem_filter.mp h).1) x mem_cons_self rfl
    have hrest : x ∉ (queue.drop (i + 1)).filter wants := fun h =>
      (nodup_cons.mp hright).1 (mem_filter.mp h).1
    have hbefore : pending wants queue cursor = ((queue.take i).drop cursor).filter wants ++
        (x :: queue.drop (i + 1)).filter wants := by
      conv_lhs => rw [hsplit]
      rw [pending, drop_append_of_le_length hle, filter_append]
    rw [past, if_neg hic, pending, drop_append_of_le_length hle, filter_append, hbefore,
      erase_append_right _ hfirst]
    congr 1
    by_cases hx : wants x = true
    · rw [filter_cons_of_pos hx, erase_cons_head]
    · rw [filter_cons_of_neg hx, erase_of_not_mem hrest]

/-! ## The next entry -/

theorem filter_of_findIdx? {p : α → Bool} {l : List α} {k : Nat} (h : l.findIdx? p = some k) :
    ∃ x, l[k]? = some x ∧ p x = true ∧ l.filter p = x :: (l.drop (k + 1)).filter p := by
  induction l generalizing k with
  | nil => cases h
  | cons y l ih =>
    rw [findIdx?_cons] at h
    by_cases hy : p y = true
    · grind
    · rw [if_neg hy] at h
      obtain ⟨j, hj, rfl⟩ := Option.map_eq_some_iff.mp h
      grind

theorem pending_of_next {k : Nat} (h : (queue.drop cursor).findIdx? wants = some k) :
    ∃ x, queue[cursor + k]? = some x ∧ wants x = true ∧
      pending wants queue cursor = x :: pending wants queue (cursor + k + 1) := by
  obtain ⟨x, hget, hx, hfilter⟩ := filter_of_findIdx? h
  rw [getElem?_drop] at hget
  refine ⟨x, hget, hx, ?_⟩
  rw [pending, hfilter, drop_drop]
  rfl

theorem pending_of_none (h : (queue.drop cursor).findIdx? wants = none) :
    pending wants queue cursor = [] :=
  filter_eq_nil_iff.mpr fun x hx => by simp [findIdx?_eq_none_iff.mp h x hx]

end Rcard.Cursor
