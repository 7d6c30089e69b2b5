/-
Nobody sleeps on a full mailbox.

The bit the reactor posts says only that there is something to pull, however much that is.
A push posts to every subscriber, and a pull that leaves something posts again.  So a task
with something to read was posted to after the last time it read.

`World` adds one subscriber to the reactor: it takes the bit when it sees it set and then
pulls once.  In a run in which it goes on doing so, the notifications before a given one in
its box become fewer, and it is its turn at some time.
-/
import Rcard.Lib.Temporal
import Rcard.Reactor.Conservation

namespace Rcard.Reactor

open List Function

/-- There is a post to `t` after the last notification that `t` received. -/
def Posted (t : UInt16) (trace : List Event) : Prop :=
  ∃ before after, trace = before ++ .post t :: after ∧ ∀ e, .received t e ∉ after

section Posts

variable {cfg : Notifications} {o o₁ o' : Office} {t : UInt16}
variable {l : List Event} {reach : Prop}

theorem Posted.append_left (h : Posted t l) (l' : List Event) : Posted t (l' ++ l) := by
  grind [Posted]

theorem Posted.append_right {l' : List Event} (h : Posted t l) (hnone : ∀ e, .received t e ∉ l') :
    Posted t (l ++ l') := by
  grind [Posted]

theorem Posted.mem (h : Posted t l) : .post t ∈ l := by
  obtain ⟨before, after, rfl, -⟩ := h
  simp

/-- What is in the box of `t` was there before, with nothing received since, or `t` was
posted to. -/
def Woken (t : UInt16) (o o' : Office) : Prop :=
  ∃ events, o'.trace = o.trace ++ events ∧
    (o'.box t ≠ [] → (o.box t ≠ [] ∧ ∀ e, .received t e ∉ events) ∨ Posted t events)

theorem Woken.refl (o : Office) : Woken t o o :=
  ⟨[], (append_nil _).symm, fun h => .inl ⟨h, fun _ => not_mem_nil⟩⟩

theorem Woken.trans (h : Woken t o o₁) (h' : Woken t o₁ o') : Woken t o o' := by
  obtain ⟨l, htrace, hl⟩ := h
  obtain ⟨l', htrace', hl'⟩ := h'
  refine ⟨l ++ l', by rw [htrace', htrace, append_assoc], fun hbox => ?_⟩
  grind [Posted]

/-- Boxes that do not grow need no post. -/
theorem Woken.of_subset {events : List Event} (htrace : o'.trace = o.trace ++ events)
    (hnone : ∀ e, .received t e ∉ events) (hbox : o.box t = [] → o'.box t = []) :
    Woken t o o' :=
  ⟨events, htrace, fun hne => .inl ⟨fun hnil => hne (hbox hnil), hnone⟩⟩

theorem woken_removal (h : Removal cfg o o') : Woken t o o' := by
  have herase : ∀ e, o.box t = [] → (o.box t).erase e = [] := fun e hnil => by rw [hnil]; rfl
  cases h with
  | evict e hheld => exact .of_subset rfl (fun _ => by simp) (herase e)
  | release e hheld hbox =>
    exact .of_subset (append_nil _).symm (fun _ => not_mem_nil) (herase e)

theorem woken_removals (h : Relation.ReflTransGen (Removal cfg) o o') : Woken t o o' := by
  induction h with
  | refl => exact .refl o
  | tail _ hlast ih => exact ih.trans (woken_removal hlast)

theorem woken_deliver (o : Office) (e : Entry) :
    Woken t o ((o.deliver cfg e).postAll (cfg.groupSubscribers e.groupId)) := by
  refine ⟨.accepted e :: (cfg.groupSubscribers e.groupId).map .post, ?_, fun hbox => ?_⟩
  · show o.trace ++ [.accepted e] ++ _ = _
    rw [append_assoc]
    rfl
  · by_cases hsub : cfg.isSubscriber e.groupId t = true
    · obtain ⟨l, l', hsplit⟩ := append_of_mem (isSubscriber_iff.mp hsub)
      grind [Posted]
    · have hsame : o.box t ≠ [] := by
        have hbox' : o.box t ++ (if cfg.isSubscriber e.groupId t then [e] else []) ≠ [] := hbox
        rwa [if_neg hsub, append_nil] at hbox'
      exact .inl ⟨hsame, fun _ => by simp⟩

/-- A pull that leaves something posts at its end. -/
theorem Pulled.posted (h : Pulled cfg reach t o o') (hreach : reach) (hne : o'.box t ≠ []) :
    ∃ events, o'.trace = o.trace ++ events ∧ Posted t events := by
  cases h with
  | empty hroom hbox =>
    obtain ⟨events, htrace, hwoken⟩ := woken_removals (t := t) hroom
    grind
  | last e rest hbefore hbox hafter hdone => exact absurd (hdone hreach) hne
  | @more o₁ o₂ e rest hbefore hbox hafter =>
    obtain ⟨events, htrace⟩ := acts_trace (((acts_of_removals hbefore).tail
      (.receive _ t e rest hbox)).trans (acts_of_removals hafter))
    grind [Office.post, Posted]

theorem Pulled.woken {u : UInt16} (h : Pulled cfg reach u o o') (hreach : reach) :
    Woken t o o' := by
  by_cases htu : t = u
  · subst htu
    by_cases hnil : o'.box t = []
    · obtain ⟨events, htrace⟩ := acts_trace h.acts
      exact ⟨events, htrace, fun hne => absurd hnil hne⟩
    · obtain ⟨events, htrace, hposted⟩ := h.posted hreach hnil
      exact ⟨events, htrace, fun _ => .inr hposted⟩
  · -- another task's box is what changes
    have hreceive : ∀ {o₁ : Office} {e : Entry} {rest : List Entry},
        Woken t o₁ (o₁.receive u e rest) := fun {o₁ e rest} =>
      .of_subset rfl (fun e' => by simp [htu]) (update_of_ne htu ..).trans
    cases h with
    | empty hroom hbox => exact woken_removals hroom
    | last e rest hbefore hbox hafter hdone =>
      exact (woken_removals hbefore).trans (hreceive.trans (woken_removals hafter))
    | @more o₁ o₂ e rest hbefore hbox hafter =>
      have hpost : Woken t o₂ (o₂.post u) := .of_subset rfl (fun _ => by simp) fun hnil => hnil
      exact (woken_removals hbefore).trans (hreceive.trans ((woken_removals hafter).trans hpost))

theorem Served.woken (h : Served cfg reach o o') (hreach : reach) : Woken t o o' := by
  cases h with
  | idle => exact .refl o
  | accept e hroom hseq => exact (woken_removals hroom).trans (woken_deliver _ e)
  | @refuse o₁ e hroom hseq =>
    have hturn : Woken t o₁ (o₁.turnAway cfg e) :=
      .of_subset rfl (fun _ => by simp) fun hnil => hnil
    exact (woken_removals hroom).trans hturn
  | refresh e n hheld hkey hseq =>
    have hout : Woken t o { o.remove e with trace := o.trace ++ [.superseded e n] } :=
      .of_subset rfl (fun _ => by simp) fun hnil => by
        show (o.box t).erase e = []
        rw [hnil]
        rfl
    exact hout.trans (woken_deliver _ n)
  | pull u h => exact h.woken hreach

end Posts

/-! ## Runs without restarts -/

/-- The states of runs without restarts of subscribers. -/
inductive Reached (cfg : Notifications) (live : UInt16 → UInt8) : State → Prop
  | init : Reached cfg live (State.init live)
  | step {s : State} (h : Reached cfg live s) (call : Call) (hsteady : call.Steady cfg s) :
      Reached cfg live (s.step cfg call)

section Reach

variable {cfg : Notifications} {live : UInt16 → UInt8} {s : State}

theorem Reached.inv (h : Reached cfg live s) : s.Inv cfg := by
  induction h with
  | init => exact inv_init cfg live
  | step _ call _ ih => exact ih.step call

theorem Reached.posted (h : Reached cfg live s) (t : UInt16) (hne : s.pending cfg t ≠ []) :
    Posted t s.trace := by
  induction h with
  | init => exact absurd rfl hne
  | @step s hs call hsteady ih =>
    obtain ⟨events, htrace, hwoken⟩ := (step_spec hs.inv call).1.woken (t := t) hsteady
    have htrace' : (s.step cfg call).trace = s.trace ++ events := htrace
    rw [htrace']
    rcases hwoken hne with ⟨hbefore, hnone⟩ | hposted
    · exact (ih hbefore).append_right hnone
    · exact hposted.append_left _

end Reach

/-! ## A subscriber that pulls once for each bit -/

/-- `owes` says that the subscriber took the bit and has not pulled since. -/
structure World where
  state : State
  bit : Bool
  owes : Bool

/-- A post between the two states. -/
def postedTo (t : UInt16) (s s' : State) : Bool := .post t ∈ s'.trace.drop s.trace.length

inductive Move (cfg : Notifications) (t : UInt16) : World → World → Prop
  | call (w : World) (call : Call) (hsteady : call.Steady cfg w.state)
      (hother : ∀ generation, call ≠ .pull t generation) :
      Move cfg t w { w with
          state := w.state.step cfg call
          bit := w.bit || postedTo t w.state (w.state.step cfg call) }
  | take (w : World) (hbit : w.bit = true) (howes : w.owes = false) :
      Move cfg t w { w with bit := false, owes := true }
  | pull (w : World) (howes : w.owes = true) :
      Move cfg t w
        { state := w.state.step cfg (.pull t (w.state.live t))
          bit := w.bit || postedTo t w.state (w.state.step cfg (.pull t (w.state.live t)))
          owes := false }

/-- A run in which the subscriber takes the bit at some time after it is set, and pulls at
some time after that. -/
structure FairRun (cfg : Notifications) (live : UInt16 → UInt8) (t : UInt16) (w : Nat → World) :
    Prop where
  start : w 0 = { state := State.init live, bit := false, owes := false }
  move : ∀ n, Move cfg t (w n) (w (n + 1))
  takes : ∀ n, (w n).bit = true → ∃ m, n ≤ m ∧ (w m).owes = true
  pulls : ∀ n, (w n).owes = true → ∃ m, n ≤ m ∧ (w m).owes = false

/-- What the subscriber's pulls have returned before time `n`. -/
def pulled (cfg : Notifications) (t : UInt16) (w : Nat → World) : Nat → List Notification
  | 0 => []
  | n + 1 => pulled cfg t w n ++
    if (w n).owes && !(w (n + 1)).owes then
      ((w n).state.pull cfg t ((w n).state.live t)).2.toList
    else []

section Moves

variable {cfg : Notifications} {live : UInt16 → UInt8} {t : UInt16} {w w' : World}

theorem Move.reached (h : Move cfg t w w') (hw : Reached cfg live w.state) :
    Reached cfg live w'.state := by
  cases h with
  | call call hsteady hother => exact hw.step call hsteady
  | take hbit howes => exact hw
  | pull howes => exact hw.step (.pull t (w.state.live t)) rfl

theorem postedTo_of_mem {s s' : State} {events : List Event}
    (htrace : s'.trace = s.trace ++ events) (h : .post t ∈ events) : postedTo t s s' = true := by
  refine decide_eq_true ?_
  rwa [htrace, drop_left]

/-- While there is something to read, the bit is set or a pull is to come. -/
theorem Move.alert (h : Move cfg t w w') (hw : w.state.Inv cfg)
    (halert : w.state.pending cfg t ≠ [] → w.bit = true ∨ w.owes = true)
    (hne : w'.state.pending cfg t ≠ []) : w'.bit = true ∨ w'.owes = true := by
  cases h with
  | call call hsteady hother =>
    obtain ⟨events, htrace, hwoken⟩ := (step_spec hw call).1.woken (t := t) hsteady
    rcases hwoken hne with ⟨hbefore, -⟩ | hposted
    · exact (halert hbefore).imp_left fun hbit => by rw [hbit, Bool.true_or]
    · left
      rw [postedTo_of_mem htrace hposted.mem, Bool.or_true]
  | take hbit howes => exact .inr rfl
  | pull howes =>
    obtain ⟨events, htrace, hposted⟩ := (pull_spec hw t _).1.posted rfl hne
    have hbit : postedTo t w.state (w.state.step cfg (.pull t (w.state.live t))) = true :=
      postedTo_of_mem htrace hposted.mem
    left
    rw [hbit, Bool.or_true]

theorem Move.acts (h : Move cfg t w w') (hw : w.state.Inv cfg) :
    Relation.ReflTransGen (Act cfg) (w.state.office cfg) (w'.state.office cfg) := by
  cases h with
  | call call hsteady hother => exact (step_spec hw call).1.acts
  | take hbit howes => exact .refl
  | pull howes => exact (pull_spec hw t _).1.acts

theorem Move.pulled (h : Move cfg t w w') (hw : w.state.Inv cfg) (howes : w.owes = true)
    (hpaid : w'.owes = false) :
    Pulled cfg True t (w.state.office cfg) (w'.state.office cfg) := by
  cases h with
  | call call hsteady hother => exact absurd (howes.symm.trans hpaid) (by simp)
  | take hbit howes' => exact absurd (howes.symm.trans howes') (by simp)
  | pull _ =>
    have hpull := (pull_spec hw t (w.state.live t)).1
    rwa [eq_self] at hpull

/-- Only a pull of the subscriber gives it anything. -/
theorem Move.received (h : Move cfg t w w') :
    (receivedBy t w'.state.trace).map Entry.toNotification =
      (receivedBy t w.state.trace).map Entry.toNotification ++
        if w.owes && !w'.owes then (w.state.pull cfg t (w.state.live t)).2.toList else [] := by
  cases h with
  | call call hsteady hother =>
    have hnone : call.returns cfg w.state t = none := by
      cases call with
      | pull u generation =>
        have hne : u ≠ t := fun heq => hother generation (by rw [heq])
        exact if_neg hne
      | _ => rfl
    refine (step_received w.state call t).trans ?_
    rw [hnone, Bool.and_not_self]
    rfl
  | take hbit howes => simp [howes]
  | pull howes =>
    refine (step_received w.state (.pull t (w.state.live t)) t).trans ?_
    rw [Call.returns, if_pos rfl, howes]
    rfl

end Moves

/-! ## How many are ahead -/

def ahead (o : Office) (t : UInt16) (e : Entry) : Nat := (o.box t).countP fun x => x.seq < e.seq

section Ahead

variable {cfg : Notifications} {o o' : Office} {t : UInt16} {e : Entry}

theorem Act.next_le (h : Act cfg o o') : o.next ≤ o'.next := by
  cases h with
  | deliver | turnAway | supersede => exact Nat.le_succ _
  | _ => exact Nat.le_refl _

theorem acts_next_le (h : Relation.ReflTransGen (Act cfg) o o') : o.next ≤ o'.next := by
  induction h with
  | refl => exact Nat.le_refl _
  | tail _ hact ih => exact Nat.le_trans ih hact.next_le

theorem ahead_le_of_sublist (h : (o'.box t).Sublist (o.box t)) (he : e ∈ o'.box t) :
    e ∈ o.box t ∧ ahead o' t e ≤ ahead o t e :=
  ⟨h.mem he, h.countP_le⟩

theorem ahead_deliver {n : Entry} (hseq : e.seq < n.seq) (he : e ∈ (o.deliver cfg n).box t) :
    e ∈ o.box t ∧ ahead (o.deliver cfg n) t e = ahead o t e := by
  have hbox : (o.deliver cfg n).box t =
      o.box t ++ if cfg.isSubscriber n.groupId t then [n] else [] := rfl
  rw [hbox] at he
  unfold ahead
  rw [hbox]
  split at he
  · next hsub =>
    have hne : e ≠ n := fun heq => by
      rw [heq] at hseq
      omega
    refine ⟨(mem_append.mp he).resolve_right fun hlast => hne (mem_singleton.mp hlast), ?_⟩
    rw [if_pos hsub, countP_append, countP_singleton, if_neg (by simp; omega), Nat.add_zero]
  · next hsub =>
    rw [if_neg hsub, append_nil]
    exact ⟨by rwa [append_nil] at he, rfl⟩

/-- An old notification does not come back into a box, and none gets in before it. -/
theorem Act.ahead_le (h : Act cfg o o') (hseq : e.seq < o.next) (he : e ∈ o'.box t) :
    e ∈ o.box t ∧ ahead o' t e ≤ ahead o t e := by
  cases h with
  | deliver n hn =>
    grind [ahead, Office.deliver]
  | supersede old n hheld hkey hn =>
    obtain ⟨hmem, heq⟩ := ahead_deliver (hn ▸ hseq) he
    have hsub : ((o.box t).erase old).Sublist (o.box t) := erase_sublist
    exact ⟨hsub.mem hmem, Nat.le_trans (Nat.le_of_eq heq) hsub.countP_le⟩
  | receive u n rest hbox =>
    refine ahead_le_of_sublist ?_ he
    show (update o.box u rest t).Sublist (o.box t)
    grind
  | turnAway n hn | post u => exact ahead_le_of_sublist (List.Sublist.refl _) he
  | evict n hheld | release n hheld hbox => exact ahead_le_of_sublist erase_sublist he

theorem acts_ahead_le (h : Relation.ReflTransGen (Act cfg) o o') (hseq : e.seq < o.next)
    (he : e ∈ o'.box t) : e ∈ o.box t ∧ ahead o' t e ≤ ahead o t e := by
  induction h with
  | refl => exact ⟨he, Nat.le_refl _⟩
  | tail hchain hact ih =>
    obtain ⟨hmem, hle⟩ := hact.ahead_le (Nat.lt_of_lt_of_le hseq (acts_next_le hchain)) he
    obtain ⟨hmem', hle'⟩ := ih hmem
    exact ⟨hmem', Nat.le_trans hle hle'⟩

/-- A task that receives goes one further. -/
theorem ahead_receive_lt (ho : o.Sound cfg) {x : Entry} {rest : List Entry}
    (hbox : o.box t = x :: rest) (he : e ∈ (o.receive t x rest).box t) :
    e ∈ o.box t ∧ ahead (o.receive t x rest) t e < ahead o t e := by
  have hrest : (o.receive t x rest).box t = rest := update_self ..
  rw [hrest] at he
  have hsorted := ho.sorted.sublist (ho.box_sublist t)
  rw [hbox] at hsorted
  have hlt : x.seq < e.seq := rel_of_pairwise_cons hsorted he
  grind [ahead]

theorem Pulled.ahead_lt {reach : Prop} (h : Pulled cfg reach t o o') (ho : o.Sound cfg)
    (hdated : o.Dated) (hseq : e.seq < o.next) (he : e ∈ o'.box t) :
    ahead o' t e < ahead o t e := by
  have hreceived : ∀ {o₁ o₂ : Office} {x : Entry} {rest : List Entry},
      Relation.ReflTransGen (Removal cfg) o o₁ → o₁.box t = x :: rest →
      Relation.ReflTransGen (Removal cfg) (o₁.receive t x rest) o₂ → e ∈ o₂.box t →
      ahead o₂ t e < ahead o t e := by
    intro o₁ o₂ x rest hbefore hbox hafter hmem
    have hacts := acts_of_removals hbefore
    have hseq₁ : e.seq < o₁.next := Nat.lt_of_lt_of_le hseq (acts_next_le hacts)
    obtain ⟨hmem₁, hle⟩ := acts_ahead_le (acts_of_removals hafter) hseq₁ hmem
    obtain ⟨hmem₀, hlt⟩ := ahead_receive_lt (acts_sound hacts ho hdated).1 hbox hmem₁
    calc ahead o₂ t e
      _ ≤ ahead (o₁.receive t x rest) t e := hle
      _ < ahead o₁ t e := hlt
      _ ≤ ahead o t e := (acts_ahead_le hacts hseq hmem₀).2
  cases h with
  | empty hroom hbox =>
    obtain ⟨hmem, -⟩ := acts_ahead_le (acts_of_removals hroom) hseq he
    rw [hbox] at hmem
    cases hmem
  | last x rest hbefore hbox hafter hdone => exact hreceived hbefore hbox hafter he
  | @more o₁ o₂ x rest hbefore hbox hafter =>
    grind [ahead, Office.post]

end Ahead

/-! ## No wakeup is lost -/

section Runs

variable {cfg : Notifications} {live : UInt16 → UInt8} {t : UInt16} {w : Nat → World}

variable (h : FairRun cfg live t w)
include h

theorem FairRun.reached (n : Nat) : Reached cfg live (w n).state := by
  induction n with
  | zero =>
    rw [h.start]
    exact .init
  | succ n ih => exact (h.move n).reached ih

theorem FairRun.alert (n : Nat) (hne : (w n).state.pending cfg t ≠ []) :
    (w n).bit = true ∨ (w n).owes = true := by
  induction n with
  | zero =>
    rw [h.start] at hne
    exact absurd rfl hne
  | succ n ih => exact (h.move n).alert (h.reached n).inv ih hne

theorem FairRun.acts {n m : Nat} (hnm : n ≤ m) :
    Relation.ReflTransGen (Act cfg) ((w n).state.office cfg) ((w m).state.office cfg) := by
  induction m, hnm using Nat.le_induction with
  | base => exact .refl
  | succ m _ ih => exact ih.trans ((h.move m).acts (h.reached m).inv)

/-- From a time at which a pull is to come: after the pull fewer are ahead of `e`, if it is
still there. -/
theorem FairRun.advance {e : Entry} {n m : Nat} (hnm : n ≤ m) (he : e ∈ (w n).state.pending cfg t)
    (howes : (w m).owes = true) :
    ∃ k, n ≤ k ∧ (e ∈ (w k).state.pending cfg t →
      ahead ((w k).state.office cfg) t e < ahead ((w n).state.office cfg) t e) := by
  obtain ⟨m', hmm', hpaid⟩ := h.pulls m howes
  obtain ⟨k, hmk, -, hk, hk'⟩ := Temporal.exists_change (p := fun n => (w n).owes = true) hmm'
    howes (by simp [hpaid])
  have hnk : n ≤ k := Nat.le_trans hnm hmk
  refine ⟨k + 1, Nat.le_succ_of_le hnk, fun hmem => ?_⟩
  have hinv := (h.reached k).inv
  have hpulled := (h.move k).pulled hinv hk (Bool.eq_false_iff.mpr hk')
  -- the notification is old at time `n`, and so at time `k`
  have hsound := (h.reached n).inv.sound
  have hseq : e.seq < (w n).state.next := hsound.bound e ((hsound.box_sublist t).mem he)
  have hseq' : e.seq < (w k).state.next := Nat.lt_of_lt_of_le hseq (acts_next_le (h.acts hnk))
  have hmem' := (acts_ahead_le hpulled.acts hseq' hmem).1
  calc ahead ((w (k + 1)).state.office cfg) t e
    _ < ahead ((w k).state.office cfg) t e := hpulled.ahead_lt hinv.sound hinv.dated hseq' hmem
    _ ≤ ahead ((w n).state.office cfg) t e := (acts_ahead_le (h.acts hnk) hseq hmem').2

theorem FairRun.leaves (e : Entry) (n : Nat) : ∃ m, n ≤ m ∧ e ∉ (w m).state.pending cfg t := by
  refine Temporal.ends_of_rank (p := fun n => e ∈ (w n).state.pending cfg t)
    (fun n => ahead ((w n).state.office cfg) t e) (fun n he => ?_) n
  rcases h.alert n (ne_nil_of_mem he) with hbit | howes
  · obtain ⟨m, hnm, howes⟩ := h.takes n hbit
    exact h.advance hnm he howes
  · exact h.advance (Nat.le_refl n) he howes

end Runs

theorem FairRun.received {cfg : Notifications} {live : UInt16 → UInt8} {t : UInt16}
    {w : Nat → World} (h : FairRun cfg live t w) (n : Nat) :
    pulled cfg t w n = (receivedBy t (w n).state.trace).map Entry.toNotification := by
  induction n with
  | zero =>
    rw [h.start]
    rfl
  | succ n ih => rw [pulled, ih, (h.move n).received]

/-- A subscriber with something to read was posted to after it last received, in every run
without restarts.  A subscriber that pulls once for each bit it takes reads, at some time,
every notification that is not dropped or superseded: what it has received is what its pulls
returned. -/
theorem no_lost_wakeup (cfg : Notifications) (live : UInt16 → UInt8) (t : UInt16) :
    (∀ s, Reached cfg live s → ∀ e, t ∈ cfg.groupSubscribers e.groupId →
      s.Meets t e .queued → Posted t s.trace) ∧
    ∀ w, FairRun cfg live t w →
      (∀ n, pulled cfg t w n = (receivedBy t (w n).state.trace).map Entry.toNotification) ∧
      ∀ n e, .accepted e ∈ (w n).state.trace → t ∈ cfg.groupSubscribers e.groupId →
        ∃ m, n ≤ m ∧ ((w m).state.Meets t e .received ∨ (w m).state.Meets t e .dropped ∨
          (w m).state.Meets t e .superseded) := by
  refine ⟨fun s hs e ht hqueued => ?_, fun w hw => ⟨hw.received, fun n e hacc ht => ?_⟩⟩
  · have hmem := (queued_iff (isSubscriber_iff.mpr ht)).mp hqueued
    exact hs.posted t (ne_nil_of_mem hmem)
  · have hsub := isSubscriber_iff.mpr ht
    obtain ⟨m, hnm, hleft⟩ := hw.leaves e n
    obtain ⟨events, htrace⟩ := acts_trace (hw.acts hnm)
    have htrace' : (w m).state.trace = (w n).state.trace ++ events := htrace
    have hacc' : .accepted e ∈ (w m).state.trace := by
      rw [htrace']
      exact mem_append_left _ hacc
    obtain ⟨f, hf, -⟩ := fate_unique (hw.reached m).inv hacc' hsub
    refine ⟨m, hnm, ?_⟩
    cases f with
    | received => exact .inl hf
    | dropped => exact .inr (.inl hf)
    | superseded => exact .inr (.inr hf)
    | queued => exact absurd ((queued_iff hsub).mp hf) hleft

/-- Task 1 pushes to the one group, and task 2 subscribes to it. -/
def oneGroup : Notifications where
  groups := [⟨0, 10⟩]
  pushers := [(1, [0])]
  subscribers := [(2, [0])]
  nodup := List.nodup_singleton _

def onePushed : State := (State.init fun _ => 0).step oneGroup (.push 1 0 7 5 .reject)

/-- Task 1 pushes, task 2 takes the bit and pulls, and then only calls come that are refused. -/
def oneRead : Nat → World
  | 0 => ⟨State.init fun _ => 0, false, false⟩
  | 1 => ⟨onePushed, true, false⟩
  | 2 => ⟨onePushed, false, true⟩
  | _ + 3 => ⟨onePushed.step oneGroup (.pull 2 0), false, false⟩

theorem oneRead_fair : FairRun oneGroup (fun _ => 0) 2 oneRead := by
  refine ⟨rfl, fun n => ?_, fun n hbit => ?_, fun n howes => ?_⟩
  · match n with
    | 0 => exact Move.call (oneRead 0) (.push 1 0 7 5 .reject) trivial fun _ h => nomatch h
    | 1 => exact Move.take (oneRead 1) rfl rfl
    | 2 => exact Move.pull (oneRead 2) rfl
    | n + 3 =>
      exact Move.call (oneRead (n + 3)) (.push 9 0 7 5 .reject) trivial fun _ h => nomatch h
  · match n with
    | 0 => cases hbit
    | 1 => exact ⟨2, by decide, rfl⟩
    | 2 => cases hbit
    | _ + 3 => cases hbit
  · match n with
    | 0 => cases howes
    | 1 => cases howes
    | 2 => exact ⟨3, by decide, rfl⟩
    | _ + 3 => cases howes

theorem no_lost_wakeup_oneRead : pulled oneGroup 2 oneRead 3 = [⟨1, 0, 7, 5⟩] ∧
    ∃ m, 1 ≤ m ∧ ((oneRead m).state.Meets 2 ⟨⟨1, 0, 7, 5⟩, 0⟩ .received ∨
      (oneRead m).state.Meets 2 ⟨⟨1, 0, 7, 5⟩, 0⟩ .dropped ∨
      (oneRead m).state.Meets 2 ⟨⟨1, 0, 7, 5⟩, 0⟩ .superseded) := by
  obtain ⟨hpulled, hread⟩ := (no_lost_wakeup oneGroup (fun _ => 0) 2).2 oneRead oneRead_fair
  refine ⟨(hpulled 3).trans (by decide +kernel), ?_⟩
  exact hread 1 ⟨⟨1, 0, 7, 5⟩, 0⟩ (by decide +kernel) (by decide)

end Rcard.Reactor
