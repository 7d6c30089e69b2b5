/-
The queue with its cursors serves every subscriber as a mailbox does.

`State.office` is the mailboxes of a state: the box of a task is what it wants of the queue
from its cursor on.  Each call of the reactor does to them what `Served` lists, and so no
notification is lost on the way or read twice.
-/
import Rcard.Reactor.Mailbox

namespace Rcard.Reactor

open List Function Cursor Office

def wanted (cfg : Notifications) (t : UInt16) (e : Entry) : Bool := cfg.isSubscriber e.groupId t

namespace State

variable (cfg : Notifications) (s : State)

def pending (t : UInt16) : List Entry := Cursor.pending (wanted cfg t) s.queue (s.cursors t)

def office : Office :=
  { held := s.queue, box := s.pending cfg, trace := s.trace, next := s.next }

structure Shape : Prop where
  length : s.queue.length ≤ queueCapacity
  cursor : ∀ t, s.cursors t ≤ s.queue.length
  idle : ∀ t, t ∉ cfg.subscriberTasks → s.cursors t = 0

structure Inv : Prop where
  shape : s.Shape cfg
  sound : (s.office cfg).Sound cfg
  dated : (s.office cfg).Dated

end State

section Parts

variable {cfg : Notifications} {s : State} {reach : Prop}

theorem State.Inv.of_acts (h : s.Inv cfg) {s' : State} (hshape : s'.Shape cfg)
    (hacts : Relation.ReflTransGen (Act cfg) (s.office cfg) (s'.office cfg)) : s'.Inv cfg := by
  obtain ⟨hsound, hdated⟩ := acts_sound hacts h.sound h.dated
  exact ⟨hshape, hsound, hdated⟩

variable {e : Entry}

theorem remove_office (hshape : s.Shape cfg) (hq : s.queue.Nodup) {i : Nat}
    (hi : s.queue[i]? = some e) :
    (s.removeAndAdjustCursors cfg i).office cfg = (s.office cfg).remove e := by
  have hqueue : s.queue.eraseIdx i = s.queue.erase e := by
    obtain ⟨hlt, rfl⟩ := List.getElem?_eq_some_iff.mp hi
    exact (hq.erase_getElem i hlt).symm
  have hbox : (s.removeAndAdjustCursors cfg i).pending cfg =
      fun t => (s.pending cfg t).erase e := by
    funext t
    show pending _ (s.queue.eraseIdx i) (State.adjustCursors cfg i s.cursors t) = _
    rw [adjustCursors_apply hshape.idle]
    exact pending_eraseIdx hq hi
  show mk (s.queue.eraseIdx i) _ s.trace s.next = mk _ _ _ _
  rw [hqueue, hbox]
  rfl

theorem remove_shape (hshape : s.Shape cfg) {i : Nat} (hi : i < s.queue.length) :
    (s.removeAndAdjustCursors cfg i).Shape cfg := by
  have hlength : (s.queue.eraseIdx i).length = s.queue.length - 1 :=
    length_eraseIdx_of_lt hi
  refine ⟨?_, fun t => ?_, fun t ht => ?_⟩
  · show (s.queue.eraseIdx i).length ≤ _
    have := hshape.length
    omega
  · show State.adjustCursors cfg i s.cursors t ≤ (s.queue.eraseIdx i).length
    rw [adjustCursors_apply hshape.idle, hlength]
    exact past_le hi (hshape.cursor t)
  · show State.adjustCursors cfg i s.cursors t = 0
    rw [adjustCursors_apply hshape.idle, hshape.idle t ht, past_zero]

/-! ## Collection -/

theorem gc_cons {queue : List Entry} (hq : s.queue = e :: queue)
    (hall : (cfg.groupSubscribers e.groupId).all (fun t => 0 < s.cursors t) = true) :
    s.gc cfg = (s.removeAndAdjustCursors cfg 0).gc cfg := by
  simp only [State.gc, State.removeAndAdjustCursors, hq, eraseIdx_cons_zero]
  rw [State.gcLoop, if_pos hall]

theorem gc_stop {queue : List Entry} (hq : s.queue = e :: queue)
    (hall : ¬ (cfg.groupSubscribers e.groupId).all (fun t => 0 < s.cursors t) = true) :
    s.gc cfg = s := by
  simp only [State.gc, hq]
  rw [State.gcLoop, if_neg hall, ← hq]

/-- The head of the queue may go when it is in no box. -/
theorem not_pending_head (hq : s.queue.Nodup) (hhead : s.queue[0]? = some e)
    (hall : (cfg.groupSubscribers e.groupId).all (fun t => 0 < s.cursors t) = true) (t : UInt16) :
    e ∉ s.pending cfg t := by
  intro hmem
  obtain ⟨hle, hsub⟩ := (mem_pending_of_getElem hq hhead).mp hmem
  have hpos := all_eq_true.mp hall t (isSubscriber_iff.mp hsub)
  simp only [decide_eq_true_eq] at hpos
  omega

/-- Collection is a sequence of releases, none of which any subscriber sees. -/
theorem gc_spec (h : s.Inv cfg) :
    Relation.ReflTransGen (Removal cfg) (s.office cfg) ((s.gc cfg).office cfg) ∧
      (s.gc cfg).Shape cfg ∧ (s.gc cfg).pending cfg = s.pending cfg := by
  generalize hq : s.queue = queue
  induction queue generalizing s with
  | nil =>
    have hsame : s.gc cfg = s := by
      simp only [State.gc, hq]
      rw [State.gcLoop, ← hq]
    rw [hsame]
    exact ⟨.refl, h.shape, rfl⟩
  | cons e queue ih =>
    by_cases hall : (cfg.groupSubscribers e.groupId).all (fun t => 0 < s.cursors t) = true
    · have hhead : s.queue[0]? = some e := by rw [hq]; rfl
      have hnodup : s.queue.Nodup := h.sound.nodup
      have hheld : e ∈ (s.office cfg).held := mem_of_getElem? hhead
      have hbox := not_pending_head hnodup hhead hall
      have hoffice := remove_office h.shape hnodup hhead
      have hstep : Removal cfg (s.office cfg) ((s.removeAndAdjustCursors cfg 0).office cfg) := by
        rw [hoffice]
        exact .release _ e hheld hbox
      have hshape := remove_shape h.shape (i := 0) (by rw [hq]; exact Nat.succ_pos _)
      have hinv := h.of_acts hshape (.single hstep.act)
      obtain ⟨hchain, hshape', hpending⟩ := ih hinv (by
        show s.queue.eraseIdx 0 = queue
        rw [hq]
        rfl)
      rw [gc_cons hq hall]
      refine ⟨.head hstep hchain, hshape', hpending.trans ?_⟩
      have hboxes : (s.removeAndAdjustCursors cfg 0).pending cfg =
          fun t => (s.pending cfg t).erase e := congrArg box hoffice
      rw [hboxes]
      funext t
      exact erase_of_not_mem (hbox t)
    · rw [gc_stop hq hall]
      exact ⟨.refl, h.shape, rfl⟩

theorem State.Inv.gc (h : s.Inv cfg) : (s.gc cfg).Inv cfg :=
  h.of_acts (gc_spec h).2.1 (acts_of_removals (gc_spec h).1)

/-! ## Entry and eviction -/

theorem evict_spec (h : s.Inv cfg) {s' : State} {priority : UInt8} {strategy : OverflowStrategy}
    (hevict : s.evict cfg priority strategy = some s') :
    Removal cfg (s.office cfg) (s'.office cfg) ∧ s'.Shape cfg ∧
      s'.queue.length < queueCapacity := by
  obtain ⟨i, e, hi, rfl⟩ := evict_some hevict
  have hnodup : s.queue.Nodup := h.sound.nodup
  obtain ⟨hlt, -⟩ := List.getElem?_eq_some_iff.mp hi
  rw [reportEviction_eq]
  -- the report loop changes the trace only
  have hshape : State.Shape cfg { s with trace := s.trace ++
      ((cfg.groupSubscribers e.groupId).filter fun t => s.cursors t ≤ i).map (.report e) } :=
    ⟨h.shape.length, h.shape.cursor, h.shape.idle⟩
  refine ⟨?_, remove_shape hshape hlt, ?_⟩
  · rw [remove_office hshape hnodup hi]
    have hreports : ((cfg.groupSubscribers e.groupId).filter fun t => s.cursors t ≤ i) =
        (cfg.groupSubscribers e.groupId).filter fun t => e ∈ s.pending cfg t := by
      refine filter_congr fun t ht => decide_eq_decide.mpr ?_
      refine Iff.trans ?_ (mem_pending_of_getElem hnodup hi).symm
      exact (and_iff_left (isSubscriber_iff.mpr ht)).symm
    rw [hreports]
    exact .evict (s.office cfg) e (mem_of_getElem? hi)
  · show (s.queue.eraseIdx i).length < _
    have := h.shape.length
    rw [length_eraseIdx_of_lt hlt]
    omega

theorem accept_office (hshape : s.Shape cfg) (e : Entry) :
    (s.accept cfg e).office cfg =
      ((s.office cfg).deliver cfg e).postAll (cfg.groupSubscribers e.groupId) := by
  have hbox : (fun t => pending (wanted cfg t) (s.queue ++ [e]) (s.cursors t)) =
      ((s.office cfg).deliver cfg e).box :=
    funext fun t => pending_append (hshape.cursor t) e
  rw [State.accept, notifySubscribers_eq]
  show mk _ (fun t => pending (wanted cfg t) (s.queue ++ [e]) (s.cursors t)) _ _ = _
  rw [hbox]
  rfl

theorem accept_shape (hshape : s.Shape cfg) (hroom : s.queue.length < queueCapacity) (e : Entry) :
    (s.accept cfg e).Shape cfg := by
  rw [State.accept, notifySubscribers_eq]
  refine ⟨?_, fun t => ?_, hshape.idle⟩
  · show (s.queue ++ [e]).length ≤ _
    rw [length_append]
    exact hroom
  · show s.cursors t ≤ (s.queue ++ [e]).length
    rw [length_append]
    exact Nat.le_add_right_of_le (hshape.cursor t)

theorem turnAway_office (e : Entry) :
    (s.turnAway cfg e).office cfg = (s.office cfg).turnAway cfg e := by
  rw [turnAway_eq]
  rfl

theorem length_lt_of_not_full (hshape : s.Shape cfg) (h : s.isFull ≠ true) :
    s.queue.length < queueCapacity := by
  have hne : s.queue.length ≠ queueCapacity := fun heq => h (beq_iff_eq.mpr heq)
  exact Nat.lt_of_le_of_ne hshape.length hne

theorem enqueue_of_room (h : s.isFull ≠ true) (e : Entry) (strategy : OverflowStrategy) :
    s.enqueue cfg e strategy = (s.accept cfg e, .ok ()) := by
  simp only [State.enqueue, if_neg h]

theorem accepted_mem_accept (s : State) (e : Entry) : .accepted e ∈ (s.accept cfg e).trace := by
  rw [State.accept, notifySubscribers_eq]
  simp

theorem accepted_mem_enqueue (s : State) (e : Entry) (strategy : OverflowStrategy) :
    .accepted e ∈ (s.enqueue cfg e strategy).1.trace := by
  unfold State.enqueue
  generalize (if s.isFull then s.gc cfg else s) = s₁
  dsimp only
  split
  · split
    · exact accepted_mem_accept _ e
    · rw [turnAway_eq]
      simp
  · exact accepted_mem_accept _ e

/-- The end of a call that was validated: the notification is delivered or turned away,
after removals. -/
theorem enqueue_spec (h : s.Inv cfg) (hseq : e.seq = s.next) (strategy : OverflowStrategy) :
    Served cfg reach (s.office cfg) ((s.enqueue cfg e strategy).1.office cfg) ∧
      (s.enqueue cfg e strategy).1.Shape cfg := by
  -- collection first, if the queue is full
  obtain ⟨s₁, hs₁, hinv, hroom, hnext⟩ : ∃ s₁, (if s.isFull then s.gc cfg else s) = s₁ ∧
      s₁.Inv cfg ∧ Relation.ReflTransGen (Removal cfg) (s.office cfg) (s₁.office cfg) ∧
      s₁.next = s.next := by
    split
    · exact ⟨_, rfl, h.gc, (gc_spec h).1, rfl⟩
    · exact ⟨_, rfl, h, .refl, rfl⟩
  have hdelivered : ∀ s' : State, s'.Shape cfg → s'.next = s.next →
      s'.queue.length < queueCapacity →
      Relation.ReflTransGen (Removal cfg) (s.office cfg) (s'.office cfg) →
      Served cfg reach (s.office cfg) ((s'.accept cfg e).office cfg) ∧
        (s'.accept cfg e).Shape cfg := by
    intro s' hshape hnext' hlt hchain
    refine ⟨?_, accept_shape hshape hlt e⟩
    rw [accept_office hshape]
    exact .accept e hchain (hseq.trans hnext'.symm)
  simp only [State.enqueue, hs₁]
  split
  · next hfull =>
    split
    · next s₂ hevict =>
      obtain ⟨hremoval, hshape, hlt⟩ := evict_spec hinv hevict
      have hnext₂ : s₂.next = s.next := by
        obtain ⟨i, n, -, rfl⟩ := evict_some hevict
        rw [reportEviction_eq]
        exact hnext
      exact hdelivered s₂ hshape hnext₂ hlt (hroom.tail hremoval)
    · rw [turnAway_office]
      refine ⟨.refuse e hroom (hseq.trans hnext.symm), ?_⟩
      rw [turnAway_eq]
      exact ⟨hinv.shape.length, hinv.shape.cursor, hinv.shape.idle⟩
  · next hfull =>
    exact hdelivered s₁ hinv.shape hnext (length_lt_of_not_full hinv.shape hfull) hroom

end Parts

/-! ## The calls -/

section Calls

variable {cfg : Notifications} {s : State} {reach : Prop}

theorem push_spec (h : s.Inv cfg) (sender group : UInt16) (code : UInt32) (priority : UInt8)
    (strategy : OverflowStrategy) :
    Served cfg reach (s.office cfg)
        ((s.push cfg sender group code priority strategy).1.office cfg) ∧
      (s.push cfg sender group code priority strategy).1.Shape cfg := by
  unfold State.push
  split
  · exact ⟨.idle, h.shape⟩
  · exact enqueue_spec h rfl strategy

/-- A refresh that finds a match: the match goes out and the new notification in. -/
theorem refresh_of_match (h : s.Inv cfg) {i : Nat} {old : Entry} (hi : s.queue[i]? = some old)
    (n : Entry) (strategy : OverflowStrategy) :
    ((s.removeAndAdjustCursors cfg i).emit (.superseded old n)).enqueue cfg n strategy =
        (((s.removeAndAdjustCursors cfg i).emit (.superseded old n)).accept cfg n, .ok ()) ∧
      (((s.removeAndAdjustCursors cfg i).emit (.superseded old n)).accept cfg n).office cfg =
        ((s.office cfg).supersede cfg old n).postAll (cfg.groupSubscribers n.groupId) ∧
      (((s.removeAndAdjustCursors cfg i).emit (.superseded old n)).accept cfg n).Shape cfg := by
  obtain ⟨hlt, -⟩ := List.getElem?_eq_some_iff.mp hi
  have hshape := remove_shape h.shape hlt
  have hshape' : ((s.removeAndAdjustCursors cfg i).emit (.superseded old n)).Shape cfg :=
    ⟨hshape.length, hshape.cursor, hshape.idle⟩
  -- one entry less than the queue can have, so that there is room
  have hroom : (s.removeAndAdjustCursors cfg i).queue.length < queueCapacity := by
    have hle := h.shape.length
    have hlength : (s.queue.eraseIdx i).length = s.queue.length - 1 :=
      length_eraseIdx_of_lt hlt
    show (s.queue.eraseIdx i).length < _
    omega
  have hnotFull : ((s.removeAndAdjustCursors cfg i).emit (.superseded old n)).isFull ≠ true :=
    fun hfull => absurd (beq_iff_eq.mp hfull) (Nat.ne_of_lt hroom)
  refine ⟨enqueue_of_room hnotFull n strategy, ?_, accept_shape hshape' hroom n⟩
  rw [accept_office hshape']
  have hoffice : ((s.removeAndAdjustCursors cfg i).emit (.superseded old n)).office cfg =
      { (s.office cfg).remove old with trace := s.trace ++ [.superseded old n] } := by
    rw [← remove_office h.shape h.sound.nodup hi]
    rfl
  rw [hoffice]
  rfl

theorem refresh_spec (h : s.Inv cfg) (sender group : UInt16) (code : UInt32) (priority : UInt8)
    (strategy : OverflowStrategy) :
    Served cfg reach (s.office cfg)
        ((s.refresh cfg sender group code priority strategy).1.office cfg) ∧
      (s.refresh cfg sender group code priority strategy).1.Shape cfg := by
  unfold State.refresh
  split
  · exact ⟨.idle, h.shape⟩
  · split
    · exact enqueue_spec h rfl strategy
    · next i hfind =>
      split
      · exact ⟨.idle, h.shape⟩
      · next old hold =>
        obtain ⟨heq, hoffice, hshape⟩ := refresh_of_match h hold
          ⟨⟨sender, group, code, max priority old.priority⟩, s.next⟩ strategy
        rw [heq]
        refine ⟨?_, hshape⟩
        rw [hoffice]
        refine .refresh old _ (mem_of_getElem? hold) ?_ rfl
        obtain ⟨hlt, hmatch, -⟩ := findIdx?_eq_some_iff_getElem.mp hfind
        obtain ⟨-, rfl⟩ := List.getElem?_eq_some_iff.mp hold
        simp only [State.isMatch, Bool.and_eq_true, beq_iff_eq] at hmatch
        exact ⟨hmatch.1.1, hmatch.1.2, hmatch.2⟩

/-- The state of `pull` when it has moved the cursor. -/
theorem received_office (h : s.Inv cfg) {t : UInt16} {k : Nat} {e : Entry}
    (hfind : (s.queue.drop (s.cursors t)).findIdx? (wanted cfg t) = some k)
    (he : s.queue[s.cursors t + k]? = some e) {s' : State}
    (hs' : s' = { s with
      cursors := update s.cursors t ((s.cursors t + k + 1) % 256)
      trace := s.trace ++ [.received t e] }) :
    ∃ rest, s.pending cfg t = e :: rest ∧ s'.office cfg = (s.office cfg).receive t e rest ∧
      s'.Shape cfg := by
  obtain ⟨x, hx, hwanted, hpending⟩ := pending_of_next hfind
  cases hx.symm.trans he
  obtain ⟨hlt, -⟩ := List.getElem?_eq_some_iff.mp he
  have hmod : (s.cursors t + k + 1) % 256 = s.cursors t + k + 1 :=
    Nat.mod_eq_of_lt (Nat.lt_of_le_of_lt (Nat.le_trans hlt h.shape.length) (by decide))
  rw [hmod] at hs'
  subst hs'
  refine ⟨_, hpending, ?_, h.shape.length, fun u => ?_, fun u hu => ?_⟩
  · have hbox : (fun u => pending (wanted cfg u) s.queue
        (update s.cursors t (s.cursors t + k + 1) u)) =
        update (s.pending cfg) t (pending (wanted cfg t) s.queue (s.cursors t + k + 1)) := by
      grind [wanted, State.pending]
    show mk _ (fun u => pending (wanted cfg u) s.queue
      (update s.cursors t (s.cursors t + k + 1) u)) _ _ = _
    rw [hbox]
    rfl
  · show update s.cursors t (s.cursors t + k + 1) u ≤ s.queue.length
    by_cases hu : u = t
    · subst hu
      rw [update_self]
      exact hlt
    · rw [update_of_ne hu]
      exact h.shape.cursor u
  · show update s.cursors t (s.cursors t + k + 1) u = 0
    have hne : u ≠ t := fun heq => hu (heq ▸ mem_subscriberTasks hwanted)
    rw [update_of_ne hne]
    exact h.shape.idle u hu

theorem hasMoreFor_iff (t : UInt16) : s.hasMoreFor cfg t = true ↔ s.pending cfg t ≠ [] := by
  rw [State.hasMoreFor, State.pending, pending, Ne]
  simp [wanted]

theorem pull_spec (h : s.Inv cfg) (t : UInt16) (generation : UInt8) :
    Pulled cfg (generation = s.live t) t (s.office cfg)
        ((s.pull cfg t generation).1.office cfg) ∧
      (s.pull cfg t generation).1.Shape cfg := by
  obtain ⟨hbefore, hshape, hpending⟩ := gc_spec h
  have hinv := h.gc
  have hlive : (s.gc cfg).live = s.live := rfl
  unfold State.pull
  generalize s.gc cfg = s₁ at hbefore hshape hpending hinv hlive
  dsimp only
  split
  · next hnone =>
    refine ⟨.empty hbefore ?_, hshape⟩
    show s.pending cfg t = []
    rw [← hpending]
    exact pending_of_none hnone
  · next k hfind =>
    obtain ⟨e, he, -⟩ := pending_of_next hfind
    rw [he]
    dsimp only
    generalize hs₂ : ({ s₁ with
      cursors := update s₁.cursors t ((s₁.cursors t + k + 1) % 256)
      trace := s₁.trace ++ [.received t e] } : State) = s₂
    have hlive₂ : (s₂.gc cfg).live = s.live := by
      rw [← hlive, ← hs₂]
      rfl
    obtain ⟨rest, hbox, hoffice, hshape₂⟩ := received_office hinv hfind he hs₂.symm
    have hinv₂ : s₂.Inv cfg := hinv.of_acts hshape₂ (hoffice ▸ .single (.receive _ t e rest hbox))
    obtain ⟨hafter, hshape₃, -⟩ := gc_spec hinv₂
    rw [hoffice] at hafter
    generalize s₂.gc cfg = s₃ at hafter hshape₃ hlive₂
    split
    · by_cases hgen : generation = s₃.live t
      · rw [State.sysPost, if_pos hgen]
        exact ⟨.more e rest hbefore hbox hafter, hshape₃.length, hshape₃.cursor, hshape₃.idle⟩
      · rw [State.sysPost, if_neg hgen]
        rw [hlive₂] at hgen
        exact ⟨.last e rest hbefore hbox hafter fun hreach => absurd hreach hgen, hshape₃⟩
    · next hmore =>
      refine ⟨.last e rest hbefore hbox hafter fun _ => ?_, hshape₃⟩
      exact not_not.mp fun hne => hmore ((hasMoreFor_iff t).mpr hne)

/-- The caller runs in the generation it calls from, and no subscriber starts again. -/
def Call.Steady (cfg : Notifications) (s : State) : Call → Prop
  | .pull t generation => generation = s.live t
  | .restart t => t ∉ cfg.subscriberTasks
  | _ => True

theorem step_spec (h : s.Inv cfg) (call : Call) :
    Served cfg (call.Steady cfg s) (s.office cfg) ((s.step cfg call).office cfg) ∧
      (s.step cfg call).Shape cfg := by
  cases call with
  | push sender group code priority strategy => exact push_spec h ..
  | refresh sender group code priority strategy => exact refresh_spec h ..
  | pull t generation => exact ⟨.pull t (pull_spec h t generation).1, (pull_spec h t generation).2⟩
  | restart t => exact ⟨.idle, h.shape.length, h.shape.cursor, h.shape.idle⟩

theorem State.Inv.step (h : s.Inv cfg) (call : Call) : (s.step cfg call).Inv cfg :=
  h.of_acts (step_spec h call).2 (step_spec h call).1.acts

theorem inv_init (cfg : Notifications) (live : UInt16 → UInt8) : (State.init live).Inv cfg := by
  refine ⟨⟨Nat.zero_le _, fun _ => Nat.le_refl _, fun _ _ => rfl⟩,
    ⟨.nil, fun _ h => (nomatch h), fun _ => .slnil, fun _ _ h => (nomatch h), fun _ _ _ => rfl,
      fun t e _ => ?_, fun _ => .nil, fun _ _ h => (nomatch h), fun _ _ h => (nomatch h)⟩,
    fun _ _ h => nomatch h⟩
  exact Life.unknown.cast (iff_false_intro not_mem_nil) (iff_false_intro not_mem_nil) rfl

theorem State.Inv.run (h : s.Inv cfg) (calls : List Call) : (s.run cfg calls).Inv cfg := by
  induction calls generalizing s with
  | nil => exact h
  | cons call calls ih => exact ih (h.step call)

theorem step_accepts {sender group : UInt16} {priority : UInt8}
    (hvalid : cfg.validate sender group priority = .ok ()) (code : UInt32)
    (strategy : OverflowStrategy) :
    .accepted ⟨⟨sender, group, code, priority⟩, s.next⟩ ∈
        (s.step cfg (.push sender group code priority strategy)).trace ∧
      ∃ p, .accepted ⟨⟨sender, group, code, p⟩, s.next⟩ ∈
        (s.step cfg (.refresh sender group code priority strategy)).trace := by
  refine ⟨?_, ?_⟩
  · show _ ∈ (s.push cfg sender group code priority strategy).1.trace
    rw [State.push, hvalid]
    exact accepted_mem_enqueue s _ strategy
  · show ∃ p, _ ∈ (s.refresh cfg sender group code priority strategy).1.trace
    rw [State.refresh, hvalid]
    dsimp only
    split
    · exact ⟨priority, accepted_mem_enqueue s _ strategy⟩
    · next i hfind =>
      obtain ⟨hlt, -⟩ := findIdx?_eq_some_iff_getElem.mp hfind
      rw [getElem?_eq_getElem hlt]
      exact ⟨_, accepted_mem_enqueue _ _ strategy⟩

theorem refresh_ok_of_match (h : s.Inv cfg) {sender group : UInt16} {code : UInt32}
    (hmatch : ∃ e ∈ s.queue, State.isMatch sender group code e = true) (priority : UInt8)
    (strategy : OverflowStrategy) :
    (s.refresh cfg sender group code priority strategy).2 ≠ .error .queueFull := by
  unfold State.refresh
  split
  · next e hvalid =>
    intro heq
    cases heq
    -- `validate` has errors of its own only
    unfold Notifications.validate at hvalid
    grind
  · split
    · grind
    · split
      · exact fun heq => nomatch heq
      · next hold =>
        rw [(refresh_of_match h hold _ strategy).1]
        exact fun heq => nomatch heq

end Calls

/-! ## Conservation -/

inductive Fate where
  | received
  | dropped
  | superseded
  | queued

/-- What has become of notification `e` for task `t`. -/
def State.Meets (s : State) (t : UInt16) (e : Entry) : Fate → Prop
  | .received => s.trace.count (.received t e) = 1
  | .dropped => s.trace.count (.report e t) = 1
  | .superseded => ∃ before n after, s.trace = before ++ .superseded e n :: after ∧
      .received t e ∉ before ∧ e.seq < n.seq ∧ e.SameKey n ∧ .accepted n ∈ s.trace
  | .queued => ∃ i, s.cursors t ≤ i ∧ s.queue[i]? = some e

section Fates

variable {cfg : Notifications} {s : State} {t : UInt16} {e : Entry}

theorem received_iff : s.Meets t e .received ↔
    (s.trace.filter (about t e)).count (.received t e) = 1 := by
  rw [State.Meets, count_filter (by simp [about])]

theorem dropped_iff : s.Meets t e .dropped ↔
    (s.trace.filter (about t e)).count (.report e t) = 1 := by
  rw [State.Meets, count_filter (by simp [about])]

theorem queued_iff (hsub : cfg.isSubscriber e.groupId t = true) :
    s.Meets t e .queued ↔ e ∈ s.pending cfg t := by
  refine Iff.trans ?_ mem_pending.symm
  exact exists_congr fun i => and_congr_right fun _ => (and_iff_left hsub).symm

theorem superseded_iff (hdated : (s.office cfg).Dated) : s.Meets t e .superseded ↔
    ∃ before n after, s.trace.filter (about t e) = before ++ .superseded e n :: after ∧
      .received t e ∉ before := by
  constructor
  · grind [State.Meets, about]
  · rintro ⟨before, n, after, hfilter, hnot⟩
    obtain ⟨l₁, l₂, htrace, hl₁, hl₂⟩ := filter_eq_append_iff.mp hfilter
    obtain ⟨l₃, l₄, rfl, hl₃, -, -⟩ := filter_eq_cons_iff.mp hl₂
    have hmem : .superseded e n ∈ s.trace := by
      rw [htrace]
      simp
    obtain ⟨hlt, hkey, hacc⟩ := hdated e n hmem
    refine ⟨l₁ ++ l₃, n, l₄, by rw [htrace, append_assoc], fun hin => ?_, hlt, hkey, hacc⟩
    rcases mem_append.mp hin with hfirst | hsecond
    · exact hnot (hl₁ ▸ mem_filter.mpr ⟨hfirst, by simp [about]⟩)
    · exact hl₃ _ hsecond (by simp [about])

/-- The events about a notification tell its fate. -/
theorem fate_unique (h : s.Inv cfg) (hacc : .accepted e ∈ s.trace)
    (hsub : cfg.isSubscriber e.groupId t = true) : ∃! f, s.Meets t e f := by
  have hlife : Life t e (e ∈ s.queue) (e ∈ s.pending cfg t) (s.trace.filter (about t e)) :=
    h.sound.life t e hsub
  have hmem : .accepted e ∈ s.trace.filter (about t e) :=
    mem_filter.mpr ⟨hacc, by simp [about]⟩
  have hrec := received_iff (s := s) (t := t) (e := e)
  have hdrop := dropped_iff (s := s) (t := t) (e := e)
  have hqueue := queued_iff (s := s) hsub
  have hsup := superseded_iff (t := t) (e := e) h.dated
  generalize s.trace.filter (about t e) = l at hlife hmem hrec hdrop hsup
  generalize (e ∈ s.queue) = held at hlife
  generalize (e ∈ s.pending cfg t) = box at hlife hqueue
  have hnone : (∀ n, .superseded e n ∉ l) → ¬ s.Meets t e .superseded := fun hnot hmeets => by
    obtain ⟨before, n, after, rfl, -⟩ := hsup.mp hmeets
    exact hnot n (by simp)
  cases hlife with
  | unknown => cases hmem
  | waiting =>
    refine ⟨.queued, hqueue.mpr trivial, fun f hf => ?_⟩
    cases f with
    | received => exact absurd (hrec.mp hf) (by simp)
    | dropped => exact absurd (hdrop.mp hf) (by simp)
    | superseded => exact absurd hf (hnone (by simp))
    | queued => rfl
  | read | released =>
    refine ⟨.received, hrec.mpr (by simp), fun f hf => ?_⟩
    cases f with
    | received => rfl
    | dropped => exact absurd (hdrop.mp hf) (by simp)
    | superseded => exact absurd hf (hnone (by simp))
    | queued => exact (hqueue.mp hf).elim
  | replaced n =>
    refine ⟨.received, hrec.mpr (by simp), fun f hf => ?_⟩
    cases f with
    | received => rfl
    | dropped => exact absurd (hdrop.mp hf) (by simp)
    | superseded =>
      -- the receipt stands before the supersession
      obtain ⟨before, m, after, heq, hnot⟩ := hsup.mp hf
      rcases before with _ | ⟨a, _ | ⟨b, before⟩⟩
      · simp at heq
      · simp at heq
      grind
    | queued => exact (hqueue.mp hf).elim
  | dropped =>
    refine ⟨.dropped, hdrop.mpr (by simp), fun f hf => ?_⟩
    cases f with
    | received => exact absurd (hrec.mp hf) (by simp)
    | dropped => rfl
    | superseded => exact absurd hf (hnone (by simp))
    | queued => exact (hqueue.mp hf).elim
  | superseded n =>
    refine ⟨.superseded, hsup.mpr ⟨[.accepted e], n, [], rfl, by simp⟩, fun f hf => ?_⟩
    cases f with
    | received => exact absurd (hrec.mp hf) (by simp)
    | dropped => exact absurd (hdrop.mp hf) (by simp)
    | superseded => rfl
    | queued => exact (hqueue.mp hf).elim

end Fates

/-! ## What the pulls return -/

/-- What the call returns to task `t`. -/
def Call.returns (cfg : Notifications) (s : State) (t : UInt16) : Call → Option Notification
  | .pull u generation => if u = t then (s.pull cfg u generation).2 else none
  | _ => none

/-- What the pulls of task `t` return, in order. -/
def State.pulls (cfg : Notifications) (t : UInt16) : State → List Call → List Notification
  | _, [] => []
  | s, call :: calls => (call.returns cfg s t).toList ++ pulls cfg t (s.step cfg call) calls

/-- Nobody receives anything between the two states. -/
def Quiet (s s' : State) : Prop := ∀ t, receivedBy t s'.trace = receivedBy t s.trace

theorem quiet_append {s s' : State} {e : Event} (htrace : s'.trace = s.trace ++ [e])
    (he : ∀ t, receivedBy t [e] = []) : Quiet s s' := by
  intro t
  rw [htrace, receivedBy_append, he, append_nil]

theorem quiet_foldl {α : Type} {f : State → α → State} (hf : ∀ s a, Quiet s (f s a)) (l : List α)
    (s : State) : Quiet s (l.foldl f s) := by
  induction l generalizing s with
  | nil => exact fun _ => rfl
  | cons a l ih => exact fun t => (ih (f s a) t).trans (hf s a t)

theorem quiet_notifyTask (s : State) (u : UInt16) : Quiet s (s.notifyTask u) := by
  have hpost (generation : UInt8) (s' : State) (h : s.sysPost u generation = .ok s') :
      Quiet s s' := by
    rw [State.sysPost] at h
    split at h <;> cases h
    exact quiet_append rfl fun _ => rfl
  rw [State.notifyTask]
  split
  · exact hpost _ _ ‹_›
  · split
    · exact hpost _ _ ‹_›
    · exact fun _ => rfl

theorem quiet_accept (s : State) (n : Entry) : Quiet s (s.accept cfg n) := fun t =>
  (quiet_foldl quiet_notifyTask _ _ t).trans
    (quiet_append (e := .accepted n) rfl (fun _ => rfl) t)

theorem quiet_turnAway (s : State) (n : Entry) : Quiet s (s.turnAway cfg n) := fun t =>
  (quiet_foldl (fun _ _ => quiet_append rfl fun _ => rfl) _ _ t).trans
    (quiet_append (e := .accepted n) rfl (fun _ => rfl) t)

theorem quiet_evictAt (s : State) (i : Nat) : Quiet s (s.evictAt cfg i) := by
  rw [State.evictAt]
  split
  · exact fun _ => rfl
  · refine quiet_foldl (fun s u => ?_) _ s
    split
    · exact quiet_append rfl fun _ => rfl
    · exact fun _ => rfl

theorem quiet_enqueue (s : State) (n : Entry) (strategy : OverflowStrategy) :
    Quiet s (s.enqueue cfg n strategy).1 := by
  have hgc : Quiet s (if s.isFull then s.gc cfg else s) := by
    split <;> exact fun _ => rfl
  rw [State.enqueue]
  generalize (if s.isFull then s.gc cfg else s) = s₁ at hgc ⊢
  split
  · cases hevict : s₁.evict cfg n.priority strategy with
    | none => exact fun t => (quiet_turnAway s₁ n t).trans (hgc t)
    | some s₂ =>
      obtain ⟨i, rfl⟩ : ∃ i, s₁.evictAt cfg i = s₂ := by
        cases strategy with
        | reject => cases hevict
        | dropOldest | dropNewest => exact (Option.map_eq_some_iff.mp hevict).imp fun _ h => h.2
      exact fun t => ((quiet_accept _ n t).trans (quiet_evictAt s₁ i t)).trans (hgc t)
  · exact fun t => (quiet_accept s₁ n t).trans (hgc t)

/-- A pull returns what it records as received. -/
theorem pull_received (s : State) (u : UInt16) (generation : UInt8) (t : UInt16) :
    (receivedBy t (s.pull cfg u generation).1.trace).map Entry.toNotification =
      (receivedBy t s.trace).map Entry.toNotification ++
        ((Call.pull u generation).returns cfg s t).toList := by
  have hgc : (s.gc cfg).trace = s.trace := rfl
  rw [Call.returns]
  unfold State.pull
  generalize s.gc cfg = s₁ at hgc
  dsimp only
  split
  · simp [hgc]
  split
  · simp [hgc]
  · next k _ e _ =>
    -- the collection after the receipt and the post record nothing for it
    have hreceived (s₂ : State) (events : List Event) (hevents : receivedBy t events = [])
        (hs₂ : s₂.trace = s₁.trace ++ [.received u e] ++ events) :
        (receivedBy t s₂.trace).map Entry.toNotification =
          (receivedBy t s.trace).map Entry.toNotification ++
            (if u = t then some e.toNotification else none).toList := by
      rw [hs₂, hgc, receivedBy_append, hevents, append_nil, receivedBy_received, map_append]
      split <;> rfl
    split
    · split
      · next hpost =>
        rw [State.sysPost] at hpost
        split at hpost <;> cases hpost
        refine hreceived _ [.post u] rfl ?_
        rfl
      · refine hreceived _ [] rfl ?_
        exact (append_nil _).symm
    · refine hreceived _ [] rfl ?_
      exact (append_nil _).symm

theorem step_received (s : State) (call : Call) (t : UInt16) :
    (receivedBy t (s.step cfg call).trace).map Entry.toNotification =
      (receivedBy t s.trace).map Entry.toNotification ++ (call.returns cfg s t).toList := by
  have hquiet {s' : State} (h : Quiet s s') : (receivedBy t s'.trace).map Entry.toNotification =
      (receivedBy t s.trace).map Entry.toNotification ++ [] := by
    rw [h t, append_nil]
  cases call with
  | push sender group code priority strategy =>
    refine hquiet ?_
    rw [State.step, State.push]
    split
    · exact fun _ => rfl
    · exact quiet_enqueue s _ strategy
  | refresh sender group code priority strategy =>
    refine hquiet ?_
    rw [State.step, State.refresh]
    split
    · exact fun _ => rfl
    split
    · exact quiet_enqueue s _ strategy
    split
    · exact fun _ => rfl
    · next old _ =>
      refine fun t => (quiet_enqueue _ _ strategy t).trans ?_
      exact quiet_append (e := .superseded old _) rfl (fun _ => rfl) t
  | pull u generation => exact pull_received s u generation t
  | restart u => exact hquiet fun _ => rfl

theorem run_received (s : State) (calls : List Call) (t : UInt16) :
    (receivedBy t (s.run cfg calls).trace).map Entry.toNotification =
      (receivedBy t s.trace).map Entry.toNotification ++ s.pulls cfg t calls := by
  induction calls generalizing s with
  | nil => exact (append_nil _).symm
  | cons call calls ih =>
    refine (ih (s.step cfg call)).trans ?_
    rw [step_received, append_assoc]
    rfl

structure State.Conserved (cfg : Notifications) (s : State) : Prop where
  cursor : ∀ t, s.cursors t ≤ s.queue.length
  /-- A validated call brings in a notification with its own sender, group and code. -/
  accepts : ∀ sender group code priority strategy,
    cfg.validate sender group priority = .ok () →
    .accepted ⟨⟨sender, group, code, priority⟩, s.next⟩ ∈
        (s.step cfg (.push sender group code priority strategy)).trace ∧
      ∃ p, .accepted ⟨⟨sender, group, code, p⟩, s.next⟩ ∈
        (s.step cfg (.refresh sender group code priority strategy)).trace
  /-- It has one fate for each subscriber of its group. -/
  fate : ∀ e t, .accepted e ∈ s.trace → t ∈ cfg.groupSubscribers e.groupId → ∃! f, s.Meets t e f
  queue_order : s.queue.Pairwise fun a b => a.seq < b.seq
  received_order : ∀ t, (receivedBy t s.trace).Pairwise fun a b => a.seq < b.seq
  entitled : ∀ t e, .received t e ∈ s.trace → t ∈ cfg.groupSubscribers e.groupId
  /-- A refresh that finds a match is not turned away. -/
  replaces : ∀ sender group code priority strategy,
    (∃ e ∈ s.queue, State.isMatch sender group code e = true) →
    (s.refresh cfg sender group code priority strategy).2 ≠ .error .queueFull

/-- After every sequence of calls; and what the trace has as received by a task is what its
pulls returned. -/
theorem notifications_conserved (cfg : Notifications) (live : UInt16 → UInt8)
    (calls : List Call) :
    ((State.init live).run cfg calls).Conserved cfg ∧
      ∀ t, (State.init live).pulls cfg t calls =
        (receivedBy t ((State.init live).run cfg calls).trace).map Entry.toNotification := by
  have h := (inv_init cfg live).run calls
  refine ⟨?_, fun t => (run_received (State.init live) calls t).symm⟩
  exact
    { cursor := h.shape.cursor
      accepts := fun _ _ code _ strategy hvalid => step_accepts hvalid code strategy
      fate := fun e t hacc ht => fate_unique h hacc (isSubscriber_iff.mpr ht)
      queue_order := h.sound.sorted
      received_order := h.sound.ordered
      entitled := fun t e hmem =>
        isSubscriber_iff.mp (h.sound.received t e (mem_receivedBy.mpr hmem))
      replaces := fun _ _ _ priority strategy hmatch =>
        refresh_ok_of_match h hmatch priority strategy }

end Rcard.Reactor
