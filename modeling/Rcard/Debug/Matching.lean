/-
Responses and the calls that they are for.

A response does not say which command it answers.  A call that is dropped after its command
went out leaves the response behind, and the next call takes it for its own; `enter` removes
only what has arrived by then.  A call that is dropped in the middle of its frame leaves the
device with bytes that the next frame completes.

As long as a command goes out only when nothing of an earlier one is under way, every call that
succeeds returns the answer of the device to its own command.
-/
import Rcard.Debug.Handle

namespace Rcard.SifliDebug

open Function List Frame

/-! ## Conditions -/

/-- The command is out and the call wants the response. -/
def Phase.waits : Phase → Bool
  | .sent | .receiverLock _ | .receiving _ => true
  | _ => false

/-- Nothing of another call is on the wire, in the device or on the way back, and no other call
waits. -/
def Quiet (h : Handle) (id : Nat) : Prop :=
  (h.link.wire = [] ∧ h.link.taken = [] ∧ h.link.responses = [] ∧ h.link.channel = []) ∧
    ∀ j < h.next, j ≠ id → ∀ call ∈ h.calls j, call.phase.waits = false

instance (h : Handle) (id : Nat) : Decidable (Quiet h id) := inferInstanceAs (Decidable (_ ∧ _))

/-- The length of the frame is the length of its payload. -/
def Fits (method : Method) : Prop := method.payload.length < 2 ^ 16

instance (method : Method) : Decidable (Fits method) := inferInstanceAs (Decidable (_ < _))

/-- A condition on the first byte of a command. -/
def Allowed (h : Handle) : Event → Prop
  | .advance id => ∀ call ∈ h.calls id, call.phase = .sending 0 → Fits call.method ∧ Quiet h id
  | _ => True

instance (h : Handle) : (e : Event) → Decidable (Allowed h e)
  | .advance id =>
    inferInstanceAs (Decidable (∀ call ∈ h.calls id, call.phase = .sending 0 →
      Fits call.method ∧ Quiet h id))
  | .call _ | .fail _ | .drop _ | .poison | .take | .answer _ _ | .ignore _ | .arrive =>
    isTrue trivial

def Orderly : Handle → List Event → Prop
  | _, [] => True
  | h, e :: es => Allowed h e ∧ ∀ h' ∈ h.step e, Orderly h' es

instance decidableOrderly : (h : Handle) → (es : List Event) → Decidable (Orderly h es)
  | _, [] => isTrue trivial
  | h, e :: es =>
    have := fun h' => decidableOrderly h' es
    inferInstanceAs (Decidable (Allowed h e ∧ ∀ h' ∈ h.step e, Orderly h' es))

/-- What the call returns is made of the answer of the device to its command. -/
def Matches (answers : List Answer) (r : Returned) : Prop :=
  ∀ response, r.result = .ok (some response) →
    ∃ a ∈ answers, a.owner = some r.id ∧ a.command = r.method.payload ∧
      r.method.respond a.payload = .ok response

/-! ## The invariant -/

/-- The command is on its way, in part at least. -/
def Phase.began : Phase → Bool
  | .sending count => 0 < count
  | phase => phase.waits

def written (id : Nat) (payload : List UInt8) (count : Nat) : List (Nat × UInt8) :=
  (((Frame.mk payload).bytes.take count).map fun b => (id, b))

def Answer.isFor (a : Answer) (id : Nat) (payload : List UInt8) : Prop :=
  a.owner = some id ∧ a.command = payload

/-- All that is under way is of one call. -/
structure Link.Carries (l : Link) (id : Nat) (payload : List UInt8) : Prop where
  wire : ∃ count, l.wire = written id payload count
  taken : ∀ t ∈ l.taken, t = (some id, payload)
  responses : ∀ a ∈ l.responses ++ l.channel, a ∈ l.answers ∧ a.isFor id payload

/-- Where the call that is being sent, or that waits, is. -/
structure Call.Serves (call : Call) (wire : List (Nat × UInt8)) (id : Nat) (payload : List UInt8) :
    Prop where
  sends : call.method.payload = payload
  wire : ∀ count, call.phase = .sending count → count < (Frame.mk payload).bytes.length →
    wire = written id payload count

structure Current (calls : Nat → Option Call) (l : Link) (id : Nat) (payload : List UInt8) :
    Prop where
  fits : payload.length < 2 ^ 16
  carries : l.Carries id payload
  serves : ∀ j call, calls j = some call → call.phase.began → j = id ∧ call.Serves l.wire id payload

structure Inv (h : Handle) : Prop where
  fresh : ∀ j, h.next ≤ j → h.calls j = none
  writer : ∀ j call count, h.calls j = some call → call.phase = .sending count → h.writer = some j
  current : ∃ id payload, Current h.calls h.link id payload
  returned : ∀ r ∈ h.returned, Matches h.link.answers r

theorem inv_start : Inv Handle.start :=
  ⟨fun _ _ => rfl, nofun, ⟨0, [], ⟨by decide, ⟨⟨0, rfl⟩, nofun, nofun⟩, nofun⟩⟩, nofun⟩

theorem Inv.lt_next {h : Handle} (hi : Inv h) {id : Nat} {call : Call}
    (hcall : h.calls id = some call) : id < h.next := by
  by_contra hge
  rw [hi.fresh id (Nat.le_of_not_lt hge)] at hcall
  cases hcall

/-! ## Calls -/

section Calls

variable {h : Handle} {id : Nat} {method : Method}

/-- A call is in another phase, and the locks with it. -/
theorem Inv.setPhase (hi : Inv h) {phase : Phase} (writer receiver : Option Nat)
    (hid : id < h.next) (hself : ∀ count, phase = .sending count → writer = some id)
    (hothers : ∀ j, j ≠ id → h.writer = some j → writer = some j)
    (hbegan : phase.began → phase.waits ∧
      ∃ phase', h.calls id = some ⟨method, phase'⟩ ∧ phase'.began) :
    Inv ({ h with writer, receiver }.setPhase id method phase) := by
  obtain ⟨a, payload, hcurrent⟩ := hi.current
  refine ⟨?_, ?_, ⟨a, payload, hcurrent.fits, hcurrent.carries, ?_⟩, hi.returned⟩
  · intro j hj
    dsimp only [Handle.setPhase]
    rw [update_of_ne (Nat.ne_of_gt (Nat.lt_of_lt_of_le hid hj))]
    exact hi.fresh j hj
  · intro j call count hcall hphase
    dsimp only [Handle.setPhase] at hcall
    by_cases hj : j = id
    · grind [Handle.setPhase]
    · rw [update_of_ne hj] at hcall
      exact hothers j hj (hi.writer j call count hcall hphase)
  · intro j call hcall hphase
    dsimp only [Handle.setPhase] at hcall
    by_cases hj : j = id
    · rw [hj, update_self] at hcall
      cases hcall
      obtain ⟨hwaits, phase', hbefore, hbegan'⟩ := hbegan hphase
      obtain ⟨hself, hserves⟩ := hcurrent.serves id _ hbefore hbegan'
      refine ⟨hj.trans hself, hserves.sends, ?_⟩
      intro count hsending
      dsimp only at hsending
      rw [hsending] at hwaits
      cases hwaits
    · rw [update_of_ne hj] at hcall
      exact hcurrent.serves j call hcall hphase

theorem Inv.drop (hi : Inv h) (id : Nat) : Inv (h.drop id) := by
  have hkept : ∀ {j call}, (h.drop id).calls j = some call → j ≠ id ∧ h.calls j = some call := by
    intro j call hcall
    dsimp only [Handle.drop] at hcall
    by_cases hj : j = id
    · rw [hj, update_self] at hcall
      cases hcall
    · rw [update_of_ne hj] at hcall
      exact ⟨hj, hcall⟩
  obtain ⟨a, payload, hcurrent⟩ := hi.current
  refine ⟨?_, ?_, ⟨a, payload, hcurrent.fits, hcurrent.carries, ?_⟩, hi.returned⟩
  · intro j hj
    cases hcall : (h.drop id).calls j with
    | none => rfl
    | some call => exact (hkept hcall).2.symm.trans (hi.fresh j hj)
  · intro j call count hcall hphase
    obtain ⟨hj, hcall⟩ := hkept hcall
    have hwriter := hi.writer j call count hcall hphase
    grind [Handle.drop]
  · exact fun j call hcall => hcurrent.serves j call (hkept hcall).2

theorem Inv.finish (hi : Inv h) {result : Except Error (Option Response)}
    (hmatches : Matches h.link.answers ⟨id, method, result⟩) :
    Inv (h.finish id method result) := by
  have hdrop := hi.drop id
  refine ⟨hdrop.fresh, hdrop.writer, hdrop.current, ?_⟩
  exact forall_mem_append.mpr ⟨hdrop.returned, forall_mem_singleton.mpr hmatches⟩

theorem Inv.request (hi : Inv h) (hid : id < h.next) (gen : Nat) :
    Inv (h.request id method gen) := by
  rw [Handle.request]
  split
  · exact hi.finish nofun
  · exact hi.setPhase h.writer h.receiver hid nofun (fun _ _ hwriter => hwriter) nofun

theorem Inv.call (hi : Inv h) (method : Method) : Inv (h.call method) := by
  have hnext : Inv { h with next := h.next + 1 } :=
    ⟨fun j hj => hi.fresh j (Nat.le_of_succ_le hj), hi.writer, hi.current, hi.returned⟩
  have hid : h.next < h.next + 1 := Nat.lt_succ_self _
  cases method with
  | enter | memWriteNoResponse addr data =>
    exact hnext.setPhase h.writer h.receiver hid nofun (fun _ _ hw => hw) nofun
  | exit gen => exact hnext.request hid gen
  | memRead gen addr count => exact hnext.request hid gen
  | memWrite gen addr data => exact hnext.request hid gen

/-! ## Sending -/

variable {count : Nat} {h' : Handle}

theorem written_succ {payload : List UInt8} {b : UInt8}
    (hb : (Frame.mk payload).bytes[count]? = some b) :
    written id payload count ++ [(id, b)] = written id payload (count + 1) := by
  rw [written, written, take_add_one, hb, map_append]
  rfl

/-- Before the first byte nothing else is under way, so what follows is of this call alone. -/
theorem Inv.current_of_sending (hi : Inv h) (hcall : h.calls id = some ⟨method, .sending count⟩)
    (hallowed : Allowed h (.advance id)) (hcount : count < method.command.toFrame.bytes.length) :
    method.payload.length < 2 ^ 16 ∧ h.link.Carries id method.payload ∧
      h.link.wire = written id method.payload count ∧
      ∀ j call, h.calls j = some call → call.phase.began → j = id := by
  by_cases hzero : count = 0
  · subst hzero
    obtain ⟨hfits, ⟨hwire, htaken, hresponses, hchannel⟩, hothers⟩ := hallowed _ hcall rfl
    refine ⟨hfits, ⟨⟨0, hwire⟩, ?_, ?_⟩, hwire, ?_⟩
    · rw [htaken]
      exact nofun
    · rw [hresponses, hchannel]
      exact nofun
    · intro j call hj hbegan
      by_contra hne
      have hquiet := hothers j (hi.lt_next hj) hne call hj
      obtain ⟨method', phase⟩ := call
      cases phase with
      | sending count =>
        have hwriter := hi.writer j _ count hj rfl
        rw [hi.writer id _ 0 hcall rfl] at hwriter
        exact hne (Option.some.inj hwriter).symm
      | sent => cases hquiet
      | receiverLock seen => cases hquiet
      | receiving seen => cases hquiet
      | _ => cases hbegan
  · obtain ⟨a, payload, hcurrent⟩ := hi.current
    obtain ⟨rfl, hserves⟩ := hcurrent.serves id _ hcall (decide_eq_true (Nat.pos_of_ne_zero hzero))
    obtain rfl : method.payload = payload := hserves.sends
    exact ⟨hcurrent.fits, hcurrent.carries, hserves.wire count rfl hcount,
      fun j call hj hbegan => (hcurrent.serves j call hj hbegan).1⟩

theorem Inv.send (hi : Inv h) (hcall : h.calls id = some ⟨method, .sending count⟩)
    (hallowed : Allowed h (.advance id)) : Inv (h.send id method count) := by
  have hwriter := hi.writer id _ count hcall rfl
  rw [Handle.send]
  cases hb : method.command.toFrame.bytes[count]? with
  | some b =>
    obtain ⟨hfits, hcarries, hwire, halone⟩ :=
      hi.current_of_sending hcall hallowed (List.getElem?_eq_some_iff.mp hb).1
    have hwire' : h.link.wire ++ [(id, b)] = written id method.payload (count + 1) := by
      rw [hwire]
      exact written_succ hb
    refine ⟨?_, ?_, ⟨id, method.payload, hfits, ⟨⟨count + 1, hwire'⟩, hcarries.taken,
      hcarries.responses⟩, ?_⟩, hi.returned⟩
    all_goals dsimp only [Handle.setPhase]
    · intro j hj
      rw [update_of_ne (Nat.ne_of_gt (Nat.lt_of_lt_of_le (hi.lt_next hcall) hj))]
      exact hi.fresh j hj
    · intro j call count' hj hphase
      by_cases hne : j = id
      · rw [hne]
        exact hwriter
      · rw [update_of_ne hne] at hj
        exact hi.writer j call count' hj hphase
    · intro j call hj hbegan
      by_cases hne : j = id
      · rw [hne, update_self] at hj
        cases hj
        refine ⟨hne, rfl, ?_⟩
        intro count' hphase _
        cases hphase
        exact hwire'
      · rw [update_of_ne hne] at hj
        exact absurd (halone j call hj hbegan) hne
  | none =>
    have hpos : 0 < count := by
      have hlen := getElem?_eq_none_iff.mp hb
      rw [length_bytes] at hlen
      omega
    dsimp only
    split
    · refine hi.setPhase none h.receiver (hi.lt_next hcall) nofun ?_ fun _ =>
        ⟨rfl, _, hcall, decide_eq_true hpos⟩
      grind
    · exact hi.finish nofun

/-! ## Receiving -/

/-- Fewer frames are under way. -/
theorem Inv.setChannel (hi : Inv h) {channel : List Answer}
    (hsub : ∀ a ∈ channel, a ∈ h.link.channel) : Inv (h.setLink (h.link.setChannel channel)) := by
  obtain ⟨a, payload, hcurrent⟩ := hi.current
  refine ⟨hi.fresh, hi.writer, ⟨a, payload, hcurrent.fits, ⟨hcurrent.carries.wire,
    hcurrent.carries.taken, ?_⟩, hcurrent.serves⟩, hi.returned⟩
  intro b hb
  apply hcurrent.carries.responses b
  rcases mem_append.mp hb with hb | hb
  · exact mem_append_left _ hb
  · exact mem_append_right _ (hsub b hb)

theorem Inv.receive (hi : Inv h) {seen : Nat} (hcall : h.calls id = some ⟨method, .receiving seen⟩)
    (hstep : h.receive id method seen = some h') : Inv h' := by
  rw [Handle.receive] at hstep
  split at hstep
  · cases hstep
    exact hi.finish nofun
  · split at hstep
    · cases hstep
    · rename_i frame channel hchannel
      cases hstep
      obtain ⟨a, payload, hcurrent⟩ := hi.current
      obtain ⟨rfl, hserves⟩ := hcurrent.serves id _ hcall rfl
      have hframe : frame ∈ h.link.responses ++ h.link.channel := by
        rw [hchannel]
        exact mem_append_right _ mem_cons_self
      obtain ⟨hmem, howner, hcommand⟩ := hcurrent.carries.responses frame hframe
      have hrest : Inv (h.setLink (h.link.setChannel channel)) := by
        refine hi.setChannel fun b hb => ?_
        rw [hchannel]
        exact mem_cons_of_mem _ hb
      refine hrest.finish ?_
      intro response hresponse
      refine ⟨frame, hmem, howner, hcommand.trans hserves.sends.symm, ?_⟩
      cases hrespond : method.respond frame.payload with
      | error e =>
        rw [hrespond] at hresponse
        cases hresponse
      | ok r =>
        rw [hrespond] at hresponse
        cases hresponse
        rfl

theorem Inv.advance (hi : Inv h) (hallowed : Allowed h (.advance id))
    (hstep : h.advance id = some h') : Inv h' := by
  rw [Handle.advance] at hstep
  split at hstep
  · cases hstep
  · rename_i method gen hcall
    obtain ⟨-, ⟨⟩⟩ := Option.ite_none_right_eq_some.mp hstep
    exact hi.setPhase h.writer (some id) (hi.lt_next hcall) nofun (fun _ _ hw => hw) nofun
  · rename_i method gen hcall
    split at hstep
    · rename_i hchannel
      cases hstep
      refine hi.setChannel fun b hb => ?_
      rw [hchannel]
      exact mem_cons_of_mem _ hb
    · cases hstep
      have hreleased : Inv { h with receiver := none } :=
        ⟨hi.fresh, hi.writer, hi.current, hi.returned⟩
      exact hreleased.request (hi.lt_next hcall) gen
  · rename_i method hcall
    obtain ⟨hfree, ⟨⟩⟩ := Option.ite_none_right_eq_some.mp hstep
    refine hi.setPhase (some id) h.receiver (hi.lt_next hcall) (fun _ _ => rfl) ?_ nofun
    intro j _ hwriter
    rw [hfree] at hwriter
    cases hwriter
  · rename_i method count hcall
    cases hstep
    exact hi.send hcall hallowed
  · rename_i method hcall
    cases hstep
    exact hi.setPhase h.writer h.receiver (hi.lt_next hcall) nofun (fun _ _ hw => hw) fun _ =>
      ⟨rfl, _, hcall, rfl⟩
  · rename_i method seen hcall
    obtain ⟨-, ⟨⟩⟩ := Option.ite_none_right_eq_some.mp hstep
    exact hi.setPhase h.writer (some id) (hi.lt_next hcall) nofun (fun _ _ hw => hw) fun _ =>
      ⟨rfl, _, hcall, rfl⟩
  · rename_i method seen hcall
    exact hi.receive hcall hstep

theorem Inv.fail (hi : Inv h) (hstep : h.fail id = some h') : Inv h' := by
  rw [Handle.fail] at hstep
  split at hstep
  · cases hstep
    exact hi.finish nofun
  · cases hstep
    exact hi.finish nofun
  · cases hstep

end Calls

/-! ## The device -/

section Device

variable {l l' : Link} {calls : Nat → Option Call} {id : Nat} {payload : List UInt8}

theorem map_snd_written (count : Nat) :
    (written id payload count).map (·.2) = (Frame.mk payload).bytes.take count := by
  rw [written, map_map]
  exact map_id _

theorem owner_written {count : Nat} (hcount : 0 < count) :
    Link.owner (written id payload count) = some id := by
  obtain ⟨count, rfl⟩ := Nat.exists_eq_add_one_of_ne_zero (Nat.ne_of_gt hcount)
  refine if_pos (all_eq_true.mpr ?_)
  grind

theorem Current.take (hc : Current calls l id payload) (hl : l.take = some l') :
    Current calls l' id payload ∧ l'.answers = l.answers := by
  obtain ⟨count, hwire⟩ := hc.carries.wire
  have hfull : (Frame.mk payload).bytes.length ≤ count := by
    by_contra hlt
    rw [Link.take, hwire, map_snd_written, recv_take hc.fits (Nat.lt_of_not_le hlt)] at hl
    cases hl
  rw [Link.take, hwire, map_snd_written, take_of_length_le hfull, recv_bytes hc.fits, ← hwire] at hl
  dsimp only at hl
  rw [length_nil, Nat.sub_zero, drop_length, take_length] at hl
  cases hl
  refine ⟨⟨hc.fits, ⟨⟨0, rfl⟩, ?_, hc.carries.responses⟩, ?_⟩, rfl⟩
  · refine forall_mem_append.mpr ⟨hc.carries.taken, forall_mem_singleton.mpr ?_⟩
    rw [length_bytes] at hfull
    rw [hwire, owner_written]
    omega
  · intro j call hcall hbegan
    obtain ⟨hj, hserves⟩ := hc.serves j call hcall hbegan
    refine ⟨hj, hserves.sends, ?_⟩
    intro count' hphase hcount'
    -- A frame that is still being sent is not complete.
    have hpart := congrArg length (hserves.wire count' hphase hcount')
    grind [written]

theorem Inv.setLink {h : Handle} (hi : Inv h) (hanswers : ∀ a ∈ h.link.answers, a ∈ l.answers)
    (hcurrent : ∀ id payload, Current h.calls h.link id payload → Current h.calls l id payload) :
    Inv (h.setLink l) := by
  obtain ⟨a, payload, hc⟩ := hi.current
  refine ⟨hi.fresh, hi.writer, ⟨a, payload, hcurrent a payload hc⟩, ?_⟩
  intro r hr response hresponse
  obtain ⟨a, ha, hrest⟩ := hi.returned r hr response hresponse
  exact ⟨a, hanswers a ha, hrest⟩

section

variable (hc : Current calls l id payload)
include hc

theorem Current.answer {i : Nat} {response : List UInt8} (hl : l.answer i response = some l') :
    Current calls l' id payload ∧ ∀ a ∈ l.answers, a ∈ l'.answers := by
  rw [Link.answer] at hl
  split at hl
  · cases hl
  · rename_i owner command htaken
    cases hl
    have hown := hc.carries.taken _ (mem_of_getElem? htaken)
    cases hown
    refine ⟨⟨hc.fits, ⟨hc.carries.wire, ?_, ?_⟩, hc.serves⟩, fun a => mem_append_left _⟩
    · exact fun t ht => hc.carries.taken t (mem_of_mem_eraseIdx ht)
    · intro a ha
      have hold : ∀ a ∈ l.responses ++ l.channel,
          a ∈ l.answers ++ [⟨some id, payload, response⟩] ∧ a.isFor id payload := fun a ha =>
        ⟨mem_append_left _ (hc.carries.responses a ha).1, (hc.carries.responses a ha).2⟩
      grind [Answer.isFor]

theorem Current.ignore (i : Nat) : Current calls (l.ignore i) id payload :=
  ⟨hc.fits, ⟨hc.carries.wire, fun t ht => hc.carries.taken t (mem_of_mem_eraseIdx ht),
    hc.carries.responses⟩, hc.serves⟩

theorem Current.arrive (hl : l.arrive = some l') :
    Current calls l' id payload ∧ l'.answers = l.answers := by
  rw [Link.arrive] at hl
  split at hl
  · cases hl
    refine ⟨⟨hc.fits, ⟨hc.carries.wire, hc.carries.taken, ?_⟩, hc.serves⟩, rfl⟩
    intro a ha
    apply hc.carries.responses a
    grind
  · cases hl

end

end Device

/-! ## Runs -/

theorem Inv.step {h h' : Handle} (hi : Inv h) {e : Event} (hallowed : Allowed h e)
    (hstep : h.step e = some h') : Inv h' := by
  cases e with
  | call method =>
    cases hstep
    exact hi.call method
  | advance id => exact hi.advance hallowed hstep
  | fail id => exact hi.fail hstep
  | drop id =>
    cases hstep
    exact hi.drop id
  | poison =>
    cases hstep
    exact ⟨hi.fresh, hi.writer, hi.current, hi.returned⟩
  | take =>
    obtain ⟨l, hl, rfl⟩ := Option.map_eq_some_iff.mp hstep
    obtain ⟨a, payload, hc⟩ := hi.current
    have hanswers := (hc.take hl).2
    exact hi.setLink (fun a ha => hanswers ▸ ha) fun _ _ hc => (hc.take hl).1
  | answer i response =>
    obtain ⟨l, hl, rfl⟩ := Option.map_eq_some_iff.mp hstep
    obtain ⟨a, payload, hc⟩ := hi.current
    exact hi.setLink (hc.answer hl).2 fun _ _ hc => (hc.answer hl).1
  | ignore i =>
    cases hstep
    exact hi.setLink (fun _ ha => ha) fun _ _ hc => hc.ignore i
  | arrive =>
    obtain ⟨l, hl, rfl⟩ := Option.map_eq_some_iff.mp hstep
    obtain ⟨a, payload, hc⟩ := hi.current
    have hanswers := (hc.arrive hl).2
    exact hi.setLink (fun a ha => hanswers ▸ ha) fun _ _ hc => (hc.arrive hl).1

theorem Inv.run {h : Handle} (hi : Inv h) {es : List Event} (hes : Orderly h es) {h' : Handle}
    (hrun : h.run es = some h') : Inv h' := by
  induction es generalizing h with
  | nil =>
    cases hrun
    exact hi
  | cons e es ih =>
    obtain ⟨h₁, hstep, hrun⟩ := Option.bind_eq_some_iff.mp hrun
    exact ih (hi.step hes.1 hstep) (hes.2 h₁ hstep) hrun

/-- In every run in which a command goes out only when nothing of another one is under way,
each call that succeeds returns the answer of the device to its own command. -/
theorem responses_match {es : List Event} (horderly : Orderly .start es) {h : Handle}
    (hrun : Handle.run .start es = some h) : ∀ r ∈ h.returned, Matches h.link.answers r :=
  (inv_start.run horderly hrun).returned

/-- The device takes a command and answers it, and the answer arrives. -/
def served (payload : List UInt8) : List Event := [.take, .answer 0 payload, .arrive]

/-- A read is given up.  Its answer arrives before the next session, which removes it. -/
def givenUp : List Event :=
  .call (.memRead 0 0x1000 1) :: replicate 16 (.advance 0) ++ .drop 0 ::
    served [0xD2, 0x11, 0, 0, 0, 0] ++
  .call .enter :: replicate 19 (.advance 1) ++ served [0xD1] ++ replicate 3 (.advance 1)

theorem responses_match_givenUp :
    ∃ h, Handle.run .start givenUp = some h ∧
      h.returned = [⟨1, .enter, .ok (some .enter)⟩] ∧
      ∀ r ∈ h.returned, Matches h.link.answers r :=
  ⟨_, rfl, rfl, responses_match (by decide +kernel : Orderly .start givenUp) rfl⟩

/-- A read is given up after its command went out, and the next one follows in the same
session. -/
def lateAnswer : List Event :=
  .call (.memRead 0 0x1000 1) :: replicate 16 (.advance 0) ++ .drop 0 ::
  .call (.memRead 0 0x2000 1) :: replicate 16 (.advance 1) ++
    served [0xD2, 0x11, 0, 0, 0, 0] ++ replicate 3 (.advance 1)

/-- A write is given up after eight bytes of its frame, and the next one follows. -/
def brokenFrame : List Event :=
  .call (.memWrite 0 0x1000 [5]) :: replicate 9 (.advance 0) ++ .drop 0 ::
  .call (.memWrite 0 0x2000 [6]) :: replicate 20 (.advance 1) ++
    served [0xD3] ++ replicate 3 (.advance 1)

/-- The second read returns what was read at the address of the first.  The second write
succeeds although the device has not seen it, only a command of parts of both frames. -/
theorem response_of_another :
    (∃ h, Handle.run .start lateAnswer = some h ∧
      h.returned = [⟨1, .memRead 0 0x2000 1, .ok (some (.memRead [0x11]))⟩] ∧
      h.link.answers = [⟨some 0, (Command.memRead 0x1000 1).toPayload, [0xD2, 0x11, 0, 0, 0, 0]⟩]) ∧
    ∃ h, Handle.run .start brokenFrame = some h ∧
      h.returned = [⟨1, .memWrite 0 0x2000 [6], .ok (some .memWrite)⟩] ∧
      h.link.answers =
        [⟨none, [0x40, 0x77, 0x7E, 0x79, 0x0C, 0, 0x10, 0, 0x40, 0x77, 0, 0x20], [0xD3]⟩] :=
  ⟨⟨_, rfl, rfl, rfl⟩, _, rfl, rfl, rfl⟩

end Rcard.SifliDebug
