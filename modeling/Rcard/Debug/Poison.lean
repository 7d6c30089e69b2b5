/-
Poisoning a session (`DebugHandle::poison`, `request`).

A call compares its generation once, before it sends, and hears of a change only from the moment
that it subscribes, when its command is out.  A handle that is poisoned in between goes unnoticed:
the call takes the new generation for its own and waits for a frame.
-/
import Rcard.Debug.Handle

namespace Rcard.SifliDebug

open Function List Option

/-- The generation that a call still compares with the current one: `enter` the one that it
makes its request under, any other the one that it has subscribed at. -/
def Phase.held? : Phase → Option Nat
  | .drainLock gen | .draining gen | .receiverLock gen | .receiving gen => some gen
  | .writerLock | .sending _ | .sent => none

/-- The call waits for the receiver. -/
def Phase.locked : Phase → Bool
  | .drainLock _ | .receiverLock _ => true
  | _ => false

/-- The generation that a session passes on. -/
def Method.gen? : Method → Option Nat
  | .exit gen | .memRead gen _ _ | .memWrite gen _ _ => some gen
  | .enter | .memWriteNoResponse _ _ => none

theorem Method.respond_ne_timeout (m : Method) (payload : List UInt8) :
    (m.respond payload).map some ≠ .error .timeout := by
  rw [respond]
  split
  · rw [accept.eq_def]
    split <;> nofun
  · nofun

namespace Handle

variable {g h h' : Handle} {id : Nat} {method : Method} {phase phase' : Phase}

/-- The call holds a generation that is not the current one. -/
def Stale (h : Handle) (held : Option Nat) : Prop := ∃ gen, held = some gen ∧ gen ≠ h.poison

theorem not_stale_current {gen : Nat} (hgen : h.poison = gen) : ¬h.Stale (some gen) := by
  rintro ⟨_, ⟨⟩, hne⟩
  exact hne hgen.symm

/-! ## What a step does to the calls -/

theorem calls_setPhase :
    (g.setPhase id method phase).calls = update g.calls id (some ⟨method, phase⟩) := rfl

theorem calls_drop : (g.drop id).calls = update g.calls id none := rfl

/-- A call that goes on holds what it has held, unless that was current and is again.  One that
is new holds nothing or the current generation. -/
structure Tracks (h h' : Handle) : Prop where
  poison : h'.poison = h.poison
  next : h.next ≤ h'.next
  calls : ∀ j call', h'.calls j = some call' →
    (∃ call, h.calls j = some call ∧
      (call'.phase.held? = call.phase.held? ∨
        ¬h.Stale call.phase.held? ∧ ¬h.Stale call'.phase.held?)) ∨
    (h.next ≤ j ∧ ¬h.Stale call'.phase.held?)

/-- The same calls at the same generation, with what else there is changed. -/
def Like (g h : Handle) : Prop := g.poison = h.poison ∧ g.calls = h.calls ∧ h.next ≤ g.next

theorem like_self (h : Handle) : Like h h := ⟨rfl, rfl, Nat.le_refl _⟩

theorem tracks_like (hg : Like g h) : Tracks h g :=
  ⟨hg.1, hg.2.2, fun _ call' hcall => .inl ⟨call', hg.2.1 ▸ hcall, .inl rfl⟩⟩

theorem tracks_setPhase (hg : Like g h) (hcall : h.calls id = some ⟨method, phase⟩)
    (hheld : phase'.held? = phase.held? ∨ ¬h.Stale phase.held? ∧ ¬h.Stale phase'.held?) :
    Tracks h (g.setPhase id method phase') := by
  obtain ⟨hpoison, hcalls, hnext⟩ := hg
  refine ⟨hpoison, hnext, fun j call' hcall' => .inl ?_⟩
  by_cases hj : j = id
  · rw [hj, calls_setPhase, update_self] at hcall'
    cases hcall'
    exact ⟨⟨method, phase⟩, hj ▸ hcall, hheld⟩
  · rw [calls_setPhase, update_of_ne hj, hcalls] at hcall'
    exact ⟨call', hcall', .inl rfl⟩

theorem tracks_drop (hg : Like g h) (id : Nat) : Tracks h (g.drop id) := by
  obtain ⟨hpoison, hcalls, hnext⟩ := hg
  refine ⟨hpoison, hnext, fun j call' hcall' => .inl ⟨call', ?_, .inl rfl⟩⟩
  by_cases hj : j = id
  · rw [hj, calls_drop, update_self] at hcall'
    cases hcall'
  · rwa [calls_drop, update_of_ne hj, hcalls] at hcall'

theorem tracks_finish (hg : Like g h) (result : Except Error (Option Response)) :
    Tracks h (g.finish id method result) :=
  have ⟨hpoison, hnext, hcalls⟩ := tracks_drop hg id
  ⟨hpoison, hnext, hcalls⟩

theorem tracks_advance (hstep : h.advance id = some h') : Tracks h h' := by
  rw [advance] at hstep
  split at hstep
  · cases hstep
  · next hcall =>
    cases (ite_none_right_eq_some.mp hstep).2
    exact tracks_setPhase (like_self h) hcall (.inl rfl)
  · next gen hcall =>
    split at hstep <;> cases hstep
    · exact tracks_like (like_self h)
    · rw [request]
      split
      · refine tracks_finish ?_ _
        exact like_self h
      · next heq =>
        exact tracks_setPhase (like_self h) hcall
          (.inr ⟨not_stale_current (of_not_not heq), nofun⟩)
  · next hcall =>
    cases (ite_none_right_eq_some.mp hstep).2
    exact tracks_setPhase (like_self h) hcall (.inl rfl)
  · next hcall =>
    cases hstep
    rw [send]
    split
    · exact tracks_setPhase (like_self h) hcall (.inl rfl)
    · split
      · exact tracks_setPhase (like_self h) hcall (.inl rfl)
      · exact tracks_finish (like_self h) _
  · next hcall =>
    cases hstep
    exact tracks_setPhase (like_self h) hcall (.inr ⟨nofun, not_stale_current rfl⟩)
  · next hcall =>
    cases (ite_none_right_eq_some.mp hstep).2
    exact tracks_setPhase (like_self h) hcall (.inl rfl)
  · rw [receive] at hstep
    split at hstep
    · cases hstep
      exact tracks_finish (like_self h) _
    · split at hstep <;> cases hstep
      refine tracks_finish ?_ _
      exact like_self h

/-- A new call comes at the end. -/
theorem tracks_new (hheld : ¬h.Stale phase.held?) :
    Tracks h ({ h with next := h.next + 1 }.setPhase h.next method phase) := by
  refine ⟨rfl, Nat.le_succ _, fun j call' hcall' => ?_⟩
  by_cases hj : j = h.next
  · rw [hj, calls_setPhase, update_self] at hcall'
    cases hcall'
    exact .inr ⟨hj.ge, hheld⟩
  · rw [calls_setPhase, update_of_ne hj] at hcall'
    exact .inl ⟨call', hcall', .inl rfl⟩

theorem tracks_call (h : Handle) (method : Method) : Tracks h (h.call method) := by
  have hrequest (gen : Nat) :
      Tracks h ({ h with next := h.next + 1 }.request h.next method gen) := by
    rw [request]
    split
    · refine tracks_finish ?_ _
      exact ⟨rfl, rfl, Nat.le_succ _⟩
    · exact tracks_new nofun
  cases method with
  | enter => exact tracks_new (not_stale_current rfl)
  | memWriteNoResponse addr data => exact tracks_new nofun
  | exit gen | memRead gen addr count | memWrite gen addr data => exact hrequest gen

theorem tracks_step {e : Event} (he : e ≠ .poison) (hstep : h.step e = some h') : Tracks h h' := by
  cases e with
  | call method =>
    cases hstep
    exact tracks_call h method
  | advance id => exact tracks_advance hstep
  | fail id =>
    rw [step, fail] at hstep
    split at hstep <;> cases hstep <;> exact tracks_finish (like_self h) _
  | drop id =>
    cases hstep
    exact tracks_drop (like_self h) id
  | poison => exact absurd rfl he
  | ignore i =>
    cases hstep
    exact tracks_like (like_self h)
  | take | answer i payload | arrive =>
    obtain ⟨link, -, rfl⟩ := map_eq_some_iff.mp hstep
    exact tracks_like (like_self h)

/-! ## Whole runs -/

/-- No call holds more than there was. -/
def Known (h : Handle) : Prop :=
  ∀ j call, h.calls j = some call → ∀ gen, call.phase.held? = some gen → gen ≤ h.poison

theorem Known.step {e : Event} (hk : h.Known) (hstep : h.step e = some h') :
    h'.Known ∧ h.poison ≤ h'.poison := by
  by_cases he : e = .poison
  · cases he
    cases hstep
    exact ⟨fun j call hcall gen hgen => (hk j call hcall gen hgen).step, Nat.le_succ _⟩
  · have ⟨hpoison, _, hcalls⟩ := tracks_step he hstep
    refine ⟨fun j call' hcall' gen hgen => ?_, hpoison.ge⟩
    have hold := hcalls j call' hcall'
    grind [Known, Stale]

theorem Known.run {es : List Event} (hk : h.Known) (hrun : h.run es = some h') :
    h'.Known ∧ h.poison ≤ h'.poison := by
  induction es generalizing h with
  | nil =>
    cases hrun
    exact ⟨hk, Nat.le_refl _⟩
  | cons e es ih =>
    obtain ⟨g, hstep, hrest⟩ := bind_eq_some_iff.mp hrun
    obtain ⟨hg, hle⟩ := hk.step hstep
    exact ⟨(ih hg hrest).1, hle.trans (ih hg hrest).2⟩

/-- Until the next poison, a call is stale if it was. -/
theorem stale_of_run {es : List Event} (hes : Event.poison ∉ es) (hrun : h.run es = some h')
    (hid : id < h.next) {call' : Call} (hcall' : h'.calls id = some call') :
    ∃ call, h.calls id = some call ∧ (h'.Stale call'.phase.held? ↔ h.Stale call.phase.held?) := by
  induction es generalizing h with
  | nil =>
    cases hrun
    exact ⟨call', hcall', Iff.rfl⟩
  | cons e es ih =>
    obtain ⟨g, hstep, hrest⟩ := bind_eq_some_iff.mp hrun
    obtain ⟨he, hes⟩ := not_or.mp (mt mem_cons.mpr hes)
    obtain ⟨hpoison, hnext, hcalls⟩ := tracks_step (Ne.symm he) hstep
    obtain ⟨call, hcall, hiff⟩ := ih hes hrest (hid.trans_le hnext)
    have hold := hcalls id call hcall
    simp only [Stale, hpoison] at hold hiff ⊢
    grind

/-! ## Returning -/

/-- By its own steps, without a frame or anything that others do, the call returns `Timeout`. -/
inductive TimesOut (id : Nat) (method : Method) : Handle → Prop where
  | now {h g : Handle} : h.advance id = some g → g.calls id = none →
    g.returned = h.returned ++ [⟨id, method, .error .timeout⟩] → TimesOut id method h
  | later {h g : Handle} : h.advance id = some g → TimesOut id method g → TimesOut id method h

theorem TimesOut.of_finish (hreturned : g.returned = h.returned)
    (hstep : h.advance id = some (g.finish id method (.error .timeout))) : TimesOut id method h :=
  .now hstep (update_self _ _ _) (congrArg (· ++ _) hreturned)

theorem timesOut_draining {gen : Nat} (hcall : h.calls id = some ⟨method, .draining gen⟩)
    (hne : h.poison ≠ gen) : TimesOut id method h := by
  generalize hchannel : h.link.channel = channel
  induction channel generalizing h with
  | nil =>
    refine .of_finish (g := { h with receiver := none }) rfl ?_
    rw [advance, hcall]
    dsimp only
    rw [hchannel]
    exact congrArg some (if_pos hne)
  | cons frame channel ih =>
    refine .later (g := h.setLink (h.link.setChannel channel)) ?_ (ih hcall hne rfl)
    rw [advance, hcall]
    dsimp only
    rw [hchannel]

theorem timesOut_receiving {seen : Nat} (hcall : h.calls id = some ⟨method, .receiving seen⟩)
    (hne : h.poison ≠ seen) : TimesOut id method h := by
  refine .of_finish (g := h) rfl ?_
  rw [advance, hcall]
  exact if_pos hne

/-- A call that returns `Timeout` with its next step has noticed. -/
theorem stale_of_now {call : Call} (hcall : h.calls id = some call) (hstep : h.advance id = some g)
    (hdone : g.calls id = none)
    (hreturned : g.returned = h.returned ++ [⟨id, method, .error .timeout⟩]) :
    h.Stale call.phase.held? := by
  have hself (m : Method) (p : Phase) (f : Handle) : (f.setPhase id m p).calls id ≠ none := by
    rw [calls_setPhase, update_self]
    nofun
  have hresult {m : Method} {r : Except Error (Option Response)} {f : Handle}
      (hf : f.returned = h.returned)
      (hr : (f.finish id m r).returned = h.returned ++ [⟨id, method, .error .timeout⟩]) :
      r = .error .timeout :=
    congrArg Returned.result (cons.inj (append_cancel_left (hf ▸ hr))).1
  rw [advance, hcall] at hstep
  obtain ⟨m, phase⟩ := call
  cases phase with
  | drainLock gen | writerLock | receiverLock seen =>
    cases (ite_none_right_eq_some.mp hstep).2
    exact absurd hdone (hself _ _ _)
  | draining gen =>
    dsimp only at hstep
    split at hstep <;> cases hstep
    · exact absurd (hcall.symm.trans hdone) nofun
    · rw [request] at hdone
      split at hdone
      · next hne => exact ⟨gen, rfl, Ne.symm hne⟩
      · exact absurd hdone (hself _ _ _)
  | sending count =>
    dsimp only at hstep
    rw [send] at hstep
    split at hstep
    · cases hstep
      exact absurd hdone (hself _ _ _)
    · split at hstep <;> cases hstep
      · exact absurd hdone (hself _ _ _)
      · cases hresult rfl hreturned
  | sent =>
    cases hstep
    exact absurd hdone (hself _ _ _)
  | receiving seen =>
    dsimp only at hstep
    rw [receive] at hstep
    split at hstep
    · next hne => exact ⟨seen, rfl, Ne.symm hne⟩
    · split at hstep <;> cases hstep
      exact absurd (hresult rfl hreturned) (Method.respond_ne_timeout _ _)

/-- A call times out by itself exactly if it holds a generation that is not current, and does
not wait for a receiver that somebody else has. -/
theorem timesOut_iff {call : Call} (hcall : h.calls id = some call) :
    TimesOut id call.method h ↔
      h.Stale call.phase.held? ∧ (call.phase.locked → h.receiver = none) := by
  refine ⟨fun ht => ⟨?_, fun hlocked => ?_⟩, fun ⟨hstale, hfree⟩ => ?_⟩
  · generalize call.method = method at ht
    induction ht generalizing call with
    | now hstep hdone hreturned => exact stale_of_now hcall hstep hdone hreturned
    | @later h g hstep ht ih =>
      cases hcall' : g.calls id with
      | none =>
        have hnone : g.advance id = none := by rw [advance, hcall']
        cases ht <;> simp_all
      | some call' =>
        obtain ⟨hpoison, -, hcalls⟩ := tracks_advance hstep
        have hstale := ih hcall'
        have hold := hcalls id call' hcall'
        grind [Stale]
  · have hstep : ∃ g, h.advance id = some g := by cases ht <;> exact ⟨_, ‹_›⟩
    obtain ⟨g, hstep⟩ := hstep
    rw [advance, hcall] at hstep
    obtain ⟨method, phase⟩ := call
    cases phase with
    | drainLock gen | receiverLock seen => exact (ite_none_right_eq_some.mp hstep).1
    | _ => cases hlocked
  · obtain ⟨method, phase⟩ := call
    obtain ⟨gen, hheld, hne⟩ := hstale
    cases phase with
    | drainLock gen =>
      cases hheld
      refine .later (g := { h with receiver := some id }.setPhase id method (.draining gen)) ?_
        (timesOut_draining (update_self _ _ _) (Ne.symm hne))
      rw [advance, hcall]
      exact if_pos (hfree rfl)
    | receiverLock gen =>
      cases hheld
      refine .later (g := { h with receiver := some id }.setPhase id method (.receiving gen)) ?_
        (timesOut_receiving (update_self _ _ _) (Ne.symm hne))
      rw [advance, hcall]
      exact if_pos (hfree rfl)
    | draining gen =>
      cases hheld
      exact timesOut_draining hcall (Ne.symm hne)
    | receiving gen =>
      cases hheld
      exact timesOut_receiving hcall (Ne.symm hne)
    | _ => cases hheld

/-- A call of which the command is out. -/
def waiting : List Event := .call (.memRead 0 0 1) :: replicate 18 (.advance 0)

end Handle

end Rcard.SifliDebug
