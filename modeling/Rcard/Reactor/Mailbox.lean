/-
What the reactor is for: a mailbox for every subscriber.

An `Office` holds notifications and has a box for each task, with what the task has to read,
in order.  A notification that comes in is put into the box of every subscriber of its group
or is turned away; one that is held may be evicted or superseded, which takes it out of all
boxes; it may go when it is in no box; and a task receives the first of its box.

For a subscriber the events about one notification are always one of a few short lists,
`Life`.  This is kept by every action, so that it holds at any time.
-/
import Rcard.Reactor.Basic
import Mathlib.Data.List.Count
import Mathlib.Data.List.Pairwise
import Mathlib.Logic.Relation

namespace Rcard.Reactor

open List Function

structure Office where
  held : List Entry
  box : UInt16 → List Entry
  trace : List Event
  next : Nat

namespace Office

variable (cfg : Notifications) (o : Office)

def deliver (e : Entry) : Office :=
  { held := o.held ++ [e]
    box := fun t => o.box t ++ if cfg.isSubscriber e.groupId t then [e] else []
    trace := o.trace ++ [.accepted e]
    next := o.next + 1 }

def turnAway (e : Entry) : Office :=
  { o with
    trace := o.trace ++ .accepted e :: (cfg.groupSubscribers e.groupId).map (.report e)
    next := o.next + 1 }

def remove (e : Entry) : Office :=
  { o with held := o.held.erase e, box := fun t => (o.box t).erase e }

def evict (e : Entry) : Office :=
  { o.remove e with
    trace := o.trace ++
      ((cfg.groupSubscribers e.groupId).filter fun t => e ∈ o.box t).map (.report e) }

def supersede (e n : Entry) : Office :=
  Office.deliver cfg { o.remove e with trace := o.trace ++ [.superseded e n] } n

def receive (t : UInt16) (e : Entry) (rest : List Entry) : Office :=
  { o with
    box := update o.box t rest
    trace := o.trace ++ [.received t e] }

def post (t : UInt16) : Office := { o with trace := o.trace ++ [.post t] }

end Office

/-- Sender, group and code are the same. -/
def Entry.SameKey (e n : Entry) : Prop :=
  e.senderIndex = n.senderIndex ∧ e.groupId = n.groupId ∧ e.code = n.code

inductive Act (cfg : Notifications) : Office → Office → Prop
  | deliver (o : Office) (e : Entry) (hseq : e.seq = o.next) : Act cfg o (o.deliver cfg e)
  | turnAway (o : Office) (e : Entry) (hseq : e.seq = o.next) : Act cfg o (o.turnAway cfg e)
  | evict (o : Office) (e : Entry) (hheld : e ∈ o.held) : Act cfg o (o.evict cfg e)
  | supersede (o : Office) (e n : Entry) (hheld : e ∈ o.held) (hkey : e.SameKey n)
      (hseq : n.seq = o.next) : Act cfg o (o.supersede cfg e n)
  | release (o : Office) (e : Entry) (hheld : e ∈ o.held) (hbox : ∀ t, e ∉ o.box t) :
      Act cfg o (o.remove e)
  | receive (o : Office) (t : UInt16) (e : Entry) (rest : List Entry)
      (hbox : o.box t = e :: rest) : Act cfg o (o.receive t e rest)
  | post (o : Office) (t : UInt16) : Act cfg o (o.post t)

/-! ## The events about one notification and one subscriber -/

def about (t : UInt16) (e : Entry) : Event → Bool
  | .accepted e' => e' = e
  | .superseded e' _ => e' = e
  | .received t' e' => t' = t ∧ e' = e
  | .report e' t' => e' = e ∧ t' = t
  | .post _ => false

/-- With whether it is held and whether it is in the subscriber's box. -/
inductive Life (t : UInt16) (e : Entry) : Prop → Prop → List Event → Prop
  | unknown : Life t e False False []
  | waiting : Life t e True True [.accepted e]
  | read : Life t e True False [.accepted e, .received t e]
  | released : Life t e False False [.accepted e, .received t e]
  | replaced (n : Entry) :
      Life t e False False [.accepted e, .received t e, .superseded e n]
  | dropped : Life t e False False [.accepted e, .report e t]
  | superseded (n : Entry) : Life t e False False [.accepted e, .superseded e n]

/-- What task `t` received, in order. -/
def receivedBy (t : UInt16) (trace : List Event) : List Entry :=
  trace.filterMap fun
    | .received t' e => if t' = t then some e else none
    | _ => none

structure Office.Sound (cfg : Notifications) (o : Office) : Prop where
  sorted : o.held.Pairwise fun a b => a.seq < b.seq
  bound : ∀ e ∈ o.held, e.seq < o.next
  box_sublist : ∀ t, (o.box t).Sublist o.held
  entitled : ∀ t, ∀ e ∈ o.box t, cfg.isSubscriber e.groupId t = true
  fresh : ∀ e, o.next ≤ e.seq → ∀ t, o.trace.filter (about t e) = []
  life : ∀ t e, cfg.isSubscriber e.groupId t = true →
    Life t e (e ∈ o.held) (e ∈ o.box t) (o.trace.filter (about t e))
  ordered : ∀ t, (receivedBy t o.trace).Pairwise fun a b => a.seq < b.seq
  earlier : ∀ t, ∀ e ∈ receivedBy t o.trace, e.seq < o.next ∧ ∀ e' ∈ o.box t, e.seq < e'.seq
  received : ∀ t, ∀ e ∈ receivedBy t o.trace, cfg.isSubscriber e.groupId t = true

/-- What superseded a notification is a later call's. -/
def Office.Dated (o : Office) : Prop := ∀ e n, .superseded e n ∈ o.trace →
  e.seq < n.seq ∧ e.SameKey n ∧ .accepted n ∈ o.trace

section Events

variable {t : UInt16} {e : Entry}

theorem Life.cast {held held' box box' : Prop} {l l' : List Event} (h : Life t e held box l)
    (hheld : held' ↔ held) (hbox : box' ↔ box) (hl : l' = l) : Life t e held' box' l' := by
  rwa [propext hheld, propext hbox, hl]

theorem filter_map_report {tasks : List UInt16} (h : tasks.Nodup) (e' : Entry) :
    (tasks.map (Event.report e')).filter (about t e) =
      if e' = e ∧ t ∈ tasks then [.report e t] else [] := by
  induction tasks with
  | nil => simp
  | cons u tasks ih =>
    grind [about]

theorem receivedBy_append (l l' : List Event) :
    receivedBy t (l ++ l') = receivedBy t l ++ receivedBy t l' := filterMap_append

theorem receivedBy_received (l : List Event) (t' : UInt16) :
    receivedBy t' (l ++ [.received t e]) = receivedBy t' l ++ if t = t' then [e] else [] := by
  grind [receivedBy]

theorem mem_receivedBy_received {l : List Event} {t' : UInt16} {e' : Entry}
    (h : e' ∈ receivedBy t' (l ++ [.received t e])) : e' ∈ receivedBy t' l ∨ t = t' ∧ e' = e := by
  grind [receivedBy]

theorem receivedBy_map_report (tasks : List UInt16) (e' : Entry) :
    receivedBy t (tasks.map (Event.report e')) = [] := by
  rw [receivedBy, filterMap_map, filterMap_eq_nil_iff]
  exact fun _ _ => rfl

theorem mem_receivedBy {trace : List Event} : e ∈ receivedBy t trace ↔ .received t e ∈ trace := by
  grind [receivedBy]

end Events

/-! ## Every action keeps the invariant -/

namespace Office.Sound

variable {cfg : Notifications} {o : Office}

theorem nodup (h : o.Sound cfg) : o.held.Nodup :=
  h.sorted.imp fun hlt heq => by
    rw [heq] at hlt
    omega

theorem box_nodup (h : o.Sound cfg) (t : UInt16) : (o.box t).Nodup :=
  h.nodup.sublist (h.box_sublist t)

variable {e : Entry} {t : UInt16} {rest : List Entry}

theorem not_mem_held (h : o.Sound cfg) (hseq : o.next ≤ e.seq) : e ∉ o.held :=
  fun hmem => absurd (h.bound e hmem) (by omega)

theorem not_mem_box (h : o.Sound cfg) (hheld : e ∉ o.held) (t : UInt16) : e ∉ o.box t :=
  fun hmem => hheld ((h.box_sublist t).mem hmem)

theorem ne_of_next_lt {e' : Entry} (hseq : e.seq = o.next) (hlt : o.next < e'.seq) : e ≠ e' :=
  fun heq => by
    rw [← heq, hseq] at hlt
    exact Nat.lt_irrefl _ hlt

section

variable (h : o.Sound cfg)
include h

/-- The trace grew by events that receive nothing, and what came into a box is new. -/
theorem silent (box : UInt16 → List Entry) (events : List Event) {next : Nat}
    (hnone : ∀ t, receivedBy t events = []) (hnext : o.next ≤ next)
    (hbox : ∀ t, ∀ e ∈ box t, e ∈ o.box t ∨ o.next ≤ e.seq) (t : UInt16) :
    (receivedBy t (o.trace ++ events)).Pairwise (fun a b => a.seq < b.seq) ∧
    (∀ e ∈ receivedBy t (o.trace ++ events), e.seq < next ∧ ∀ e' ∈ box t, e.seq < e'.seq) ∧
    ∀ e ∈ receivedBy t (o.trace ++ events), cfg.isSubscriber e.groupId t = true := by
  rw [receivedBy_append, hnone, append_nil]
  refine ⟨h.ordered t, fun e he => ?_, h.received t⟩
  obtain ⟨hlt, hbefore⟩ := h.earlier t e he
  grind

theorem remove (events : List Event) (hnone : ∀ t, receivedBy t events = [])
    (hother : ∀ t e', e' ≠ e → events.filter (about t e') = []) (hheld : e ∈ o.held)
    (hlife : ∀ t, cfg.isSubscriber e.groupId t = true →
      Life t e False False (o.trace.filter (about t e) ++ events.filter (about t e))) :
    Sound cfg { o.remove e with trace := o.trace ++ events } := by
  have hsilent := h.silent (fun t => (o.box t).erase e) events hnone (Nat.le_refl _)
    fun t e' he' => .inl (mem_of_mem_erase he')
  refine ⟨h.sorted.sublist erase_sublist, fun e' he' => h.bound e' (mem_of_mem_erase he'),
    fun t => (h.box_sublist t).erase e, fun t e' he' => h.entitled t e' (mem_of_mem_erase he'),
    fun e' hseq t => ?_, fun t e' hsub => ?_, fun t => (hsilent t).1, fun t => (hsilent t).2.1,
    fun t => (hsilent t).2.2⟩
  · have hne : e' ≠ e := fun heq => h.not_mem_held hseq (heq ▸ hheld)
    rw [filter_append, h.fresh e' hseq t, hother t e' hne, nil_append]
  · by_cases hne : e' = e
    · subst hne
      refine (hlife t hsub).cast (iff_false_intro h.nodup.not_mem_erase)
        (iff_false_intro (h.box_nodup t).not_mem_erase) (filter_append ..)
    · refine (h.life t e' hsub).cast (mem_erase_of_ne hne) (mem_erase_of_ne hne) ?_
      rw [filter_append, hother t e' hne, append_nil]

/-- What is held is in the box or was read. -/
theorem life_of_held (hheld : e ∈ o.held) (hsub : cfg.isSubscriber e.groupId t = true) :
    (e ∈ o.box t ∧ o.trace.filter (about t e) = [.accepted e]) ∨
    (e ∉ o.box t ∧ o.trace.filter (about t e) = [.accepted e, .received t e]) := by
  have hlife := h.life t e hsub
  generalize hl : o.trace.filter (about t e) = l at hlife
  generalize hH : (e ∈ o.held) = H at hlife
  generalize hB : (e ∈ o.box t) = B at hlife
  cases hlife with
  | waiting => exact .inl ⟨trivial, rfl⟩
  | read => exact .inr ⟨id, rfl⟩
  | _ => exact absurd hheld (by rw [hH]; exact id)

theorem deliver (hseq : e.seq = o.next) : (o.deliver cfg e).Sound cfg := by
  have hmem : ∀ {e' : Entry} {l : List Entry} {t : UInt16}, e' ≠ e →
      (e' ∈ l ++ (if cfg.isSubscriber e.groupId t then [e] else []) ↔ e' ∈ l) := by
    intro e' l t hne
    split <;> simp [hne]
  have hsilent := h.silent (o.deliver cfg e).box [.accepted e] (fun t => rfl) (Nat.le_succ _)
    fun t e' he' => by
      by_cases hne : e' = e
      · exact .inr (hne ▸ (Nat.le_of_eq hseq.symm))
      · exact .inl ((hmem hne).mp he')
  refine ⟨?_, fun e' he' => ?_, fun t => ?_, fun t e' he' => ?_, fun e' hle t => ?_,
    fun t e' hsub => ?_, fun t => (hsilent t).1, fun t => (hsilent t).2.1,
    fun t => (hsilent t).2.2⟩
  · refine pairwise_append.mpr ⟨h.sorted, pairwise_singleton _ _, fun a ha b hb => ?_⟩
    rw [mem_singleton.mp hb, hseq]
    exact h.bound a ha
  · rcases mem_append.mp he' with hold | hlast
    · exact Nat.lt_succ_of_lt (h.bound e' hold)
    · rw [mem_singleton.mp hlast, hseq]
      exact Nat.lt_succ_self _
  · refine (h.box_sublist t).append ?_
    split
    · exact List.Sublist.refl _
    · exact nil_sublist _
  · by_cases hne : e' = e
    · subst hne
      by_contra hsub
      refine h.not_mem_box (h.not_mem_held (Nat.le_of_eq hseq.symm)) t ?_
      have he'' : e' ∈ o.box t ++ if cfg.isSubscriber e'.groupId t then [e'] else [] := he'
      rwa [if_neg hsub, append_nil] at he''
    · exact h.entitled t e' ((hmem hne).mp he')
  · have hne : e ≠ e' := ne_of_next_lt hseq hle
    rw [show (o.deliver cfg e).trace = o.trace ++ [.accepted e] from rfl, filter_append,
      h.fresh e' (Nat.le_of_succ_le hle) t]
    simp [about, hne]
  · rw [show (o.deliver cfg e).trace = o.trace ++ [.accepted e] from rfl, filter_append]
    by_cases hne : e' = e
    · subst hne
      refine Life.waiting.cast (iff_true_intro ?_) (iff_true_intro ?_) ?_
      · exact mem_append_right _ (mem_singleton_self _)
      · grind [Office.deliver]
      · rw [h.fresh e' (Nat.le_of_eq hseq.symm) t]
        simp [about]
    · refine (h.life t e' hsub).cast ?_ (hmem hne) ?_
      · show e' ∈ o.held ++ [e] ↔ _
        simp [hne]
      · simp [about, Ne.symm hne]

theorem turnAway (hseq : e.seq = o.next) : (o.turnAway cfg e).Sound cfg := by
  have hfilter : ∀ t e', (Event.accepted e :: (cfg.groupSubscribers e.groupId).map
      (.report e)).filter (about t e') = if e = e' then
        .accepted e' :: (if t ∈ cfg.groupSubscribers e.groupId then [.report e' t] else [])
      else [] := by
    intro t e'
    rw [filter_cons, filter_map_report (groupSubscribers_nodup cfg _)]
    by_cases he : e = e'
    · simp [about, he]
    · simp [about, he]
  have hsilent := h.silent o.box
    (.accepted e :: (cfg.groupSubscribers e.groupId).map (.report e))
    (fun t => receivedBy_map_report _ _) (Nat.le_succ _) fun t e' he' => .inl he'
  refine ⟨h.sorted, fun e' he' => Nat.lt_succ_of_lt (h.bound e' he'), h.box_sublist, h.entitled,
    fun e' hle t => ?_, fun t e' hsub => ?_, fun t => (hsilent t).1, fun t => (hsilent t).2.1,
    fun t => (hsilent t).2.2⟩
  · have hne : e ≠ e' := ne_of_next_lt hseq hle
    refine (filter_append ..).trans ?_
    rw [h.fresh e' (Nat.le_of_succ_le hle) t, hfilter, if_neg hne, nil_append]
  · by_cases hne : e = e'
    · subst hne
      have hheld := h.not_mem_held (Nat.le_of_eq hseq.symm)
      refine Life.dropped.cast (iff_false_intro hheld) (iff_false_intro (h.not_mem_box hheld t)) ?_
      refine (filter_append ..).trans ?_
      rw [h.fresh e (Nat.le_of_eq hseq.symm) t, hfilter, if_pos rfl,
        if_pos (isSubscriber_iff.mp hsub), nil_append]
    · refine (h.life t e' hsub).cast Iff.rfl Iff.rfl ((filter_append ..).trans ?_)
      rw [hfilter, if_neg hne, append_nil]

theorem evict (hheld : e ∈ o.held) : (o.evict cfg e).Sound cfg := by
  have hnodup : ((cfg.groupSubscribers e.groupId).filter fun t => e ∈ o.box t).Nodup :=
    (groupSubscribers_nodup cfg _).filter _
  refine h.remove _ (fun t => receivedBy_map_report _ _) (fun t e' hne => ?_) hheld fun t hsub => ?_
  · rw [filter_map_report hnodup, if_neg fun hand => hne hand.1.symm]
  · rw [filter_map_report hnodup]
    rcases h.life_of_held hheld hsub with ⟨hbox, hl⟩ | ⟨hbox, hl⟩
    · have ht : t ∈ (cfg.groupSubscribers e.groupId).filter fun t => e ∈ o.box t :=
        mem_filter.mpr ⟨isSubscriber_iff.mp hsub, decide_eq_true hbox⟩
      rw [hl, if_pos ⟨rfl, ht⟩]
      exact .dropped
    · have ht : t ∉ (cfg.groupSubscribers e.groupId).filter fun t => e ∈ o.box t := fun hmem =>
        hbox (of_decide_eq_true (mem_filter.mp hmem).2)
      rw [hl, if_neg fun hand => ht hand.2]
      exact .released

theorem supersede {n : Entry} (hheld : e ∈ o.held) (hseq : n.seq = o.next) :
    (o.supersede cfg e n).Sound cfg := by
  refine deliver (h.remove _ (fun t => rfl) (fun t e' hne => ?_) hheld fun t hsub => ?_) hseq
  · simp [about, Ne.symm hne]
  · have hfilter : [Event.superseded e n].filter (about t e) = [.superseded e n] := by
      simp [about]
    rw [hfilter]
    rcases h.life_of_held hheld hsub with ⟨-, hl⟩ | ⟨-, hl⟩
    · rw [hl]
      exact .superseded n
    · rw [hl]
      exact .replaced n

theorem release (hheld : e ∈ o.held) (hbox : ∀ t, e ∉ o.box t) : (o.remove e).Sound cfg := by
  have hremove := h.remove [] (fun t => rfl) (fun t e' hne => rfl) hheld fun t hsub => by
      rcases h.life_of_held hheld hsub with ⟨hin, -⟩ | ⟨-, hl⟩
      · exact absurd hin (hbox t)
      · rw [hl]
        exact .released
  rwa [append_nil] at hremove

end

theorem receive_box_sublist (hbox : o.box t = e :: rest) (t' : UInt16) :
    ((o.receive t e rest).box t').Sublist (o.box t') := by
  show (update o.box t rest t').Sublist (o.box t')
  grind

theorem receive_life (h : o.Sound cfg) (hbox : o.box t = e :: rest) {t' : UInt16} {e' : Entry}
    (hsub : cfg.isSubscriber e'.groupId t' = true) :
    Life t' e' (e' ∈ o.held) (e' ∈ (o.receive t e rest).box t')
      ((o.receive t e rest).trace.filter (about t' e')) := by
  show Life t' e' _ (e' ∈ update o.box t rest t') ((o.trace ++ [Event.received t e]).filter _)
  rw [filter_append]
  by_cases hboth : t = t' ∧ e = e'
  · obtain ⟨rfl, rfl⟩ := hboth
    have hself : e ∈ o.box t := hbox ▸ mem_cons_self
    have hheld : e ∈ o.held := (h.box_sublist t).mem hself
    refine Life.read.cast (iff_true_intro hheld) (iff_false_intro ?_) ?_
    · rw [update_self]
      exact (nodup_cons.mp (hbox ▸ h.box_nodup t)).1
    · rcases h.life_of_held hheld hsub with ⟨-, hl⟩ | ⟨hout, -⟩
      · rw [hl]
        simp [about]
      · exact absurd hself hout
  · refine (h.life t' e' hsub).cast Iff.rfl ?_ ?_
    · grind
    · simp [about, hboth]

theorem receive (h : o.Sound cfg) (hbox : o.box t = e :: rest) :
    (o.receive t e rest).Sound cfg := by
  have hself : e ∈ o.box t := hbox ▸ mem_cons_self
  have hheld : e ∈ o.held := (h.box_sublist t).mem hself
  have hboxes := receive_box_sublist hbox
  refine ⟨h.sorted, h.bound, fun t' => (hboxes t').trans (h.box_sublist t'),
    fun t' e' he' => h.entitled t' e' ((hboxes t').mem he'), fun e' hseq t' => ?_,
    fun t' e' hsub => h.receive_life hbox hsub, fun t' => ?_, fun t' e' he' => ?_,
    fun t' e' he' => ?_⟩
  · have hne : e ≠ e' := fun heq => h.not_mem_held hseq (heq ▸ hheld)
    refine (filter_append ..).trans ?_
    rw [h.fresh e' hseq t']
    simp [about, hne]
  · refine (congrArg (List.Pairwise _) (receivedBy_received o.trace t')).mpr ?_
    refine pairwise_append.mpr ⟨h.ordered t', ?_, fun a ha b hb => ?_⟩
    · split <;> simp
    · split at hb
      · next ht =>
        subst ht
        rw [mem_singleton.mp hb]
        exact (h.earlier t a ha).2 e hself
      · cases hb
  · rcases mem_receivedBy_received he' with hold | ⟨rfl, rfl⟩
    · obtain ⟨hlt, hbefore⟩ := h.earlier t' e' hold
      exact ⟨hlt, fun b hb => hbefore b ((hboxes t').mem hb)⟩
    · -- What stays in the box stood behind what was read.
      refine ⟨h.bound e' hheld, fun b hb => ?_⟩
      have hsorted := h.sorted.sublist (h.box_sublist t)
      rw [hbox] at hsorted
      have hb' : b ∈ update o.box t rest t := hb
      rw [update_self] at hb'
      exact rel_of_pairwise_cons hsorted hb'
  · rcases mem_receivedBy_received he' with hold | ⟨rfl, rfl⟩
    · exact h.received t' e' hold
    · exact h.entitled t e' hself

theorem post (h : o.Sound cfg) (t : UInt16) : (o.post t).Sound cfg := by
  have hfilter : ∀ t' e', (o.trace ++ [Event.post t]).filter (about t' e') =
      o.trace.filter (about t' e') := fun t' e' => by simp [about]
  have hsilent := h.silent o.box [.post t] (fun t => rfl) (Nat.le_refl _) fun t e' he' => .inl he'
  refine ⟨h.sorted, h.bound, h.box_sublist, h.entitled, fun e' hseq t' => ?_, fun t' e' hsub => ?_,
    fun t => (hsilent t).1, fun t => (hsilent t).2.1, fun t => (hsilent t).2.2⟩
  · exact (hfilter t' e').trans (h.fresh e' hseq t')
  · exact (h.life t' e' hsub).cast Iff.rfl Iff.rfl (hfilter t' e')

end Office.Sound

section Runs

variable {cfg : Notifications} {o o' : Office}

theorem Act.sound (h : Act cfg o o') (ho : o.Sound cfg) : o'.Sound cfg := by
  cases h with
  | deliver e hseq => exact ho.deliver hseq
  | turnAway e hseq => exact ho.turnAway hseq
  | evict e hheld => exact ho.evict hheld
  | supersede e n hheld hkey hseq => exact ho.supersede hheld hseq
  | release e hheld hbox => exact ho.release hheld hbox
  | receive t e rest hbox => exact ho.receive hbox
  | post t => exact ho.post t

theorem Office.Dated.append (h : o.Dated) {events : List Event}
    (hnone : ∀ e n, .superseded e n ∉ events) (htrace : o'.trace = o.trace ++ events) :
    o'.Dated := by
  grind [Dated]

theorem Act.dated (h : Act cfg o o') (ho : o.Sound cfg) (hdated : o.Dated) : o'.Dated := by
  cases h with
  | deliver e hseq | turnAway e hseq | evict e hheld | receive t e rest hbox | post t =>
    exact hdated.append (fun _ _ => by simp) rfl
  | supersede e n hheld hkey hseq =>
    have htrace : (o.supersede cfg e n).trace = o.trace ++ [.superseded e n] ++ [.accepted n] :=
      rfl
    intro e' n' hmem
    rw [htrace] at hmem ⊢
    simp only [mem_append, mem_singleton, Event.superseded.injEq, reduceCtorEq, or_false] at hmem
    rcases hmem with hold | ⟨rfl, rfl⟩
    · obtain ⟨hlt, hkey', hacc⟩ := hdated e' n' hold
      exact ⟨hlt, hkey', by simp [hacc]⟩
    · exact ⟨hseq ▸ ho.bound e' hheld, hkey, by simp⟩
  | release e hheld hbox => exact hdated

/-- The part of the actions that makes room. -/
inductive Removal (cfg : Notifications) : Office → Office → Prop
  | evict (o : Office) (e : Entry) (hheld : e ∈ o.held) : Removal cfg o (o.evict cfg e)
  | release (o : Office) (e : Entry) (hheld : e ∈ o.held) (hbox : ∀ t, e ∉ o.box t) :
      Removal cfg o (o.remove e)

def Office.postAll (o : Office) (tasks : List UInt16) : Office :=
  { o with trace := o.trace ++ tasks.map .post }

/-- A pull of task `t`.  With `reach` its generation is the one that runs, so that a post
reaches it. -/
inductive Pulled (cfg : Notifications) (reach : Prop) (t : UInt16) (o : Office) : Office → Prop
  | empty {o₁ : Office} (hroom : Relation.ReflTransGen (Removal cfg) o o₁) (hbox : o.box t = []) :
      Pulled cfg reach t o o₁
  | last {o₁ o₂ : Office} (e : Entry) (rest : List Entry)
      (hbefore : Relation.ReflTransGen (Removal cfg) o o₁) (hbox : o₁.box t = e :: rest)
      (hafter : Relation.ReflTransGen (Removal cfg) (o₁.receive t e rest) o₂)
      (hdone : reach → o₂.box t = []) : Pulled cfg reach t o o₂
  | more {o₁ o₂ : Office} (e : Entry) (rest : List Entry)
      (hbefore : Relation.ReflTransGen (Removal cfg) o o₁) (hbox : o₁.box t = e :: rest)
      (hafter : Relation.ReflTransGen (Removal cfg) (o₁.receive t e rest) o₂) :
      Pulled cfg reach t o (o₂.post t)

/-- What a call of the reactor does to the mailboxes. -/
inductive Served (cfg : Notifications) (reach : Prop) (o : Office) : Office → Prop
  | idle : Served cfg reach o o
  | accept {o₁ : Office} (e : Entry) (hroom : Relation.ReflTransGen (Removal cfg) o o₁)
      (hseq : e.seq = o₁.next) :
      Served cfg reach o ((o₁.deliver cfg e).postAll (cfg.groupSubscribers e.groupId))
  | refuse {o₁ : Office} (e : Entry) (hroom : Relation.ReflTransGen (Removal cfg) o o₁)
      (hseq : e.seq = o₁.next) : Served cfg reach o (o₁.turnAway cfg e)
  | refresh (e n : Entry) (hheld : e ∈ o.held) (hkey : e.SameKey n) (hseq : n.seq = o.next) :
      Served cfg reach o ((o.supersede cfg e n).postAll (cfg.groupSubscribers n.groupId))
  | pull {o' : Office} (t : UInt16) (h : Pulled cfg reach t o o') : Served cfg reach o o'

theorem Removal.act (h : Removal cfg o o') : Act cfg o o' := by
  cases h with
  | evict e hheld => exact .evict o e hheld
  | release e hheld hbox => exact .release o e hheld hbox

theorem acts_of_removals (h : Relation.ReflTransGen (Removal cfg) o o') :
    Relation.ReflTransGen (Act cfg) o o' :=
  Relation.ReflTransGen.mono (fun _ _ => Removal.act) _ _ h

theorem acts_postAll (o : Office) (tasks : List UInt16) :
    Relation.ReflTransGen (Act cfg) o (o.postAll tasks) := by
  induction tasks generalizing o with
  | nil =>
    rw [Office.postAll, map_nil, append_nil]
  | cons t tasks ih =>
    have hnext : o.postAll (t :: tasks) = (o.post t).postAll tasks := by
      simp [Office.postAll, Office.post]
    rw [hnext]
    exact .head (.post o t) (ih _)

theorem Pulled.acts {reach : Prop} {t : UInt16} (h : Pulled cfg reach t o o') :
    Relation.ReflTransGen (Act cfg) o o' := by
  cases h with
  | empty hroom hbox => exact acts_of_removals hroom
  | last e rest hbefore hbox hafter hdone =>
    exact ((acts_of_removals hbefore).tail (.receive _ t e rest hbox)).trans
      (acts_of_removals hafter)
  | more e rest hbefore hbox hafter =>
    exact (((acts_of_removals hbefore).tail (.receive _ t e rest hbox)).trans
      (acts_of_removals hafter)).tail (.post _ t)

theorem Served.acts {reach : Prop} (h : Served cfg reach o o') :
    Relation.ReflTransGen (Act cfg) o o' := by
  cases h with
  | idle => exact .refl
  | accept e hroom hseq =>
    exact (acts_of_removals hroom).trans (.head (.deliver _ e hseq) (acts_postAll _ _))
  | refuse e hroom hseq => exact (acts_of_removals hroom).tail (.turnAway _ e hseq)
  | refresh e n hheld hkey hseq =>
    exact .head (.supersede o e n hheld hkey hseq) (acts_postAll _ _)
  | pull t h => exact h.acts

theorem acts_trace (h : Relation.ReflTransGen (Act cfg) o o') :
    ∃ events, o'.trace = o.trace ++ events := by
  induction h with
  | refl => exact ⟨[], (append_nil _).symm⟩
  | @tail o₁ o₂ _ hact ih =>
    have hlast : ∃ last, o₂.trace = o₁.trace ++ last := by
      cases hact with
      | supersede e n hheld hkey hseq => exact ⟨_, append_assoc _ _ _⟩
      | release e hheld hbox => exact ⟨[], (append_nil _).symm⟩
      | _ => exact ⟨_, rfl⟩
    grind

theorem acts_sound (h : Relation.ReflTransGen (Act cfg) o o') (ho : o.Sound cfg)
    (hdated : o.Dated) : o'.Sound cfg ∧ o'.Dated := by
  induction h with
  | refl => exact ⟨ho, hdated⟩
  | tail _ hact ih => exact ⟨hact.sound ih.1, hact.dated ih.1 ih.2⟩

end Runs

end Rcard.Reactor
