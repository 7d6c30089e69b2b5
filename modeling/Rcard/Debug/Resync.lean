/-
Looking for a sentinel on the debug port (`host/serial/src/sifli_debug/tap.rs`).

`resync_on_sentinel` forwards what it reads and keeps a window of it.  The window is the longest
end of the bytes read that starts the sentinel, also where the sentinel overlaps itself, so it
is the whole sentinel as soon as the bytes end in one.
-/
import Rcard.Lib.Window

namespace Rcard.SifliDebug

open List

/-- The window without the bytes in front that do not start the sentinel. -/
def shrinkWindow (sentinel : List UInt8) : List UInt8 → List UInt8
  | [] => []
  | byte :: window =>
    if (byte :: window).isPrefixOf sentinel then byte :: window else shrinkWindow sentinel window

/-- The loop of `resync_on_sentinel`: what it reads and forwards, and what is left behind it.
There is an error, and nothing left, if the stream has ended. -/
def resyncLoop (sentinel : List UInt8) : (window input : List UInt8) →
    List UInt8 × Option (List UInt8)
  | _, [] => ([], none)
  | window, byte :: input =>
    let window := shrinkWindow sentinel (window ++ [byte])
    if window.length = sentinel.length then ([byte], some input)
    else
      let (forwarded, rest) := resyncLoop sentinel window input
      (byte :: forwarded, rest)

def resyncOnSentinel (sentinel input : List UInt8) : List UInt8 × Option (List UInt8) :=
  if sentinel.isEmpty then ([], some input) else resyncLoop sentinel [] input

/-- The longest end of `seen` that starts the sentinel. -/
structure Matched (sentinel seen window : List UInt8) : Prop where
  suffix : window <:+ seen
  starts : window <+: sentinel
  longest : ∀ s, s <:+ seen → s <+: sentinel → s <:+ window

/-- The bytes end in the sentinel, and no fewer of them do. -/
def EndsFirst (sentinel bytes : List UInt8) : Prop :=
  sentinel <:+ bytes ∧ ∀ p, p <+: bytes → sentinel <:+ p → p = bytes

variable {sentinel seen window : List UInt8}

theorem matched_shrinkWindow (sentinel bytes : List UInt8) :
    Matched sentinel bytes (shrinkWindow sentinel bytes) := by
  induction bytes with
  | nil => exact ⟨suffix_rfl, nil_prefix, fun _ hs _ => hs⟩
  | cons byte bytes ih =>
    rw [shrinkWindow]
    split
    next hstarts => exact ⟨suffix_rfl, isPrefixOf_iff_prefix.mp hstarts, fun _ hs _ => hs⟩
    next hnot =>
      refine ⟨ih.suffix.trans (suffix_cons byte bytes), ih.starts, fun s hs hstarts => ?_⟩
      rcases suffix_cons_iff.mp hs with rfl | hs
      · exact hnot.elim <| isPrefixOf_iff_prefix.mpr hstarts
      · exact ih.longest s hs hstarts

theorem Matched.snoc (h : Matched sentinel seen window) (byte : UInt8) :
    Matched sentinel (seen ++ [byte]) (shrinkWindow sentinel (window ++ [byte])) := by
  have hshrunk := matched_shrinkWindow sentinel (window ++ [byte])
  refine ⟨hshrunk.suffix.trans (Window.suffix_snoc_iff.mpr h.suffix), hshrunk.starts,
    fun s hs hstarts => hshrunk.longest s ?_ hstarts⟩
  rcases suffix_concat_iff.mp hs with rfl | ⟨init, rfl, hinit⟩
  · exact nil_suffix
  · have hinit : init <:+ window := h.longest init hinit ((prefix_append _ _).trans hstarts)
    exact Window.suffix_snoc_iff.mpr hinit

theorem Matched.complete_iff (h : Matched sentinel seen window) :
    window.length = sentinel.length ↔ sentinel <:+ seen := by
  constructor
  · intro hlen
    rw [← h.starts.eq_of_length hlen]
    exact h.suffix
  · intro hends
    exact Nat.le_antisymm h.starts.length_le (h.longest sentinel hends prefix_rfl).length_le

-- The induction is on what is left to read; the bytes seen hold no sentinel yet.
theorem resyncLoop_spec (h : Matched sentinel seen window) (hnot : ¬ sentinel <:+: seen)
    (input : List UInt8) :
    (∃ forwarded rest, resyncLoop sentinel window input = (forwarded, some rest) ∧
      input = forwarded ++ rest ∧ EndsFirst sentinel (seen ++ forwarded)) ∨
    resyncLoop sentinel window input = (input, none) ∧ ¬ sentinel <:+: seen ++ input := by
  induction input generalizing seen window with
  | nil => exact .inr ⟨rfl, by rwa [append_nil]⟩
  | cons byte input ih =>
    have hnext := h.snoc byte
    rw [resyncLoop]
    by_cases hends : sentinel <:+ seen ++ [byte]
    · rw [if_pos (hnext.complete_iff.mpr hends)]
      refine .inl ⟨[byte], input, rfl, rfl, hends, fun p hp hpends => ?_⟩
      rcases prefix_concat_iff.mp hp with heq | hp
      · exact heq
      · exact absurd (hpends.isInfix.trans hp.isInfix) hnot
    · have hnone : ¬ sentinel <:+: seen ++ [byte] := fun hinfix =>
        (infix_concat_iff.mp hinfix).elim hends hnot
      rw [if_neg (mt hnext.complete_iff.mp hends)]
      rcases ih hnext hnone with ⟨forwarded, rest, hloop, rfl, hfirst⟩ | ⟨hloop, hnever⟩
      · rw [hloop]
        refine .inl ⟨byte :: forwarded, rest, rfl, rfl, ?_⟩
        rwa [append_cons]
      · rw [hloop]
        exact .inr ⟨rfl, by rwa [append_cons]⟩

/-- `resync_on_sentinel` stops right behind the first sentinel in the stream, and fails only if
there is none.  Either way it has forwarded what it has read. -/
theorem resync_at_first (hne : sentinel ≠ []) (input : List UInt8) :
    (∃ forwarded rest, resyncOnSentinel sentinel input = (forwarded, some rest) ∧
      input = forwarded ++ rest ∧ EndsFirst sentinel forwarded) ∨
    resyncOnSentinel sentinel input = (input, none) ∧ ¬ sentinel <:+: input := by
  rw [resyncOnSentinel, if_neg (by simpa using hne)]
  exact resyncLoop_spec ⟨suffix_rfl, nil_prefix, fun _ hs _ => hs⟩ (mt infix_nil.mp hne) input

theorem resync_at_first_overlapping :
    ∃ forwarded rest, resyncOnSentinel [1, 1, 2] [1, 1, 1, 2, 3] = (forwarded, some rest) ∧
      [1, 1, 1, 2, 3] = forwarded ++ rest ∧ EndsFirst [1, 1, 2] forwarded :=
  (resync_at_first (by decide) _).resolve_right (by decide)

end Rcard.SifliDebug
