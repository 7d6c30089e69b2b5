/-
A stream id that comes round.

Stream ids come from a 64-bit counter.  If a log stays open while `2 ^ 64` others are
begun, the last of these has its id.  The reader then takes the metadata of the second
log for values of the first and emits one entry for the two of them.  When the first
one is dropped, its last byte is taken for metadata.
-/
import Rcard.Log.Delivery

namespace Rcard.Log

open List Journal

section Reader

variable {L : Layout} {cobs : Cobs} {view : UInt64 → Option Record} {done : List Record}
  {r : Reader}
  {id : UInt64} {rec : Record} {l : List (Nat × UInt8)}

/-- A log arrives on the stream of an open one that has no payload yet. -/
theorem Reader.Shows.reused {m : LogMetadata} {vs : List (Value L)} (h : r.Shows L view done)
    (hview : view id = some rec) (hempty : rec.payload = []) (hencodes : Encodes L vs m.asBytes)
    (hl : l.map Prod.snd = cobs.encode (rawChunk id (m.asBytes ++ [tagEndOfStream])) ++ [0]) :
    ∃ r', r.bytes L cobs l = .ok r' ∧
      r'.Shows L (Function.update view id none) (done ++ [{ rec with payload := m.asBytes }]) := by
  have hlen : (m.asBytes ++ [tagEndOfStream]).length = 30 := by
    rfl
  obtain ⟨s, hlookup, hs⟩ := h.lookup_of_some hview
  rw [hempty] at hs
  obtain ⟨started, hbytes⟩ := bytes_fragment (L := L) h.idle (by omega) (by omega) hl
  have hclean : Clean L ([] ++ m.asBytes) .new (vs.map Value.val) := hencodes.clean
  obtain ⟨t, hfeed, ht⟩ := feedData_more hlookup hs hclean started
    (m.asBytes ++ [tagEndOfStream]).length
  have hstate : t.decoder.state = .awaitingTag := by
    rw [(ht.clean.inj hencodes.clean).1]
    rfl
  rw [feedData_append hfeed, feedData_end ht hstate] at hbytes
  exact ⟨_, hbytes, h.erase ht hencodes⟩

/-- The end of a log whose stream is gone. -/
theorem Reader.Shows.orphaned (h : r.Shows L view done) (hview : view id = none)
    (hl : l.map Prod.snd = cobs.encode (rawChunk id [tagEndOfStream]) ++ [0]) :
    ∃ r', r.bytes L cobs l = .ok r' ∧ r'.sink = r.sink := by
  obtain ⟨started, hbytes⟩ := bytes_fragment (L := L) h.idle (by decide) (by decide) hl
  rw [stream_of_none (h.lookup_of_none hview)] at hbytes
  exact ⟨_, hbytes, rfl⟩

end Reader

/-! ## The run -/

/-- The metadata of this head is also the encoding of some values. -/
def quietHead : Head :=
  { sender := { taskIndex := 0, generation := 0 }, level := .panic, species := 0, timestamp := 0 }

def quietValues (L : Layout) : List (Value L) :=
  replicate 13 ⟨.unit, .unit⟩ ++ [⟨.bool false, .bool false⟩] ++ replicate 14 ⟨.unit, .unit⟩

theorem encodes_quietValues (L : Layout) :
    Encodes L (quietValues L) (quietHead.metadata 1).asBytes := rfl

def quietLogs (n : Nat) : List Op := replicate n (.log quietHead [])

theorem resources_quietLogs (d : Device) (n : Nat) :
    (d.run (quietLogs n)).1.resources = d.resources := by
  induction n generalizing d with
  | zero => rfl
  | succ n ih => exact ih (d.log quietHead []).1

/-- The journal after `n` logs that have no payload. -/
structure Journal.Quiet (j : Journal) (n : Nat) (j' : Journal) : Prop where
  begun : j'.begun = j.begun + n
  handles : j'.handles = j.handles
  opened : j'.opened = j.opened
  length : j'.done.length = j.done.length + n
  empty : (∀ rec ∈ j.done, rec.payload = []) → ∀ rec ∈ j'.done, rec.payload = []

theorem quiet_quietLogs (j : Journal) (n : Nat) : j.Quiet n (j.run (quietLogs n)) := by
  induction n generalizing j with
  | zero => exact ⟨rfl, rfl, rfl, rfl, id⟩
  | succ n ih =>
    have hrest := ih (j.step (.log quietHead []))
    have hlength : (j.step (.log quietHead [])).done.length = j.done.length + 1 :=
      length_append
    refine ⟨?_, hrest.handles, hrest.opened, ?_, fun h => hrest.empty ?_⟩
    · exact hrest.begun.trans (Nat.add_right_comm j.begun 1 n)
    · exact hrest.length.trans (by rw [hlength]; omega)
    · exact forall_mem_append.mpr ⟨h, forall_mem_singleton.mpr rfl⟩

/-- One log stays open, and the counter comes round. -/
def beforeReuse (n : Nat) : List Op := .start quietHead :: quietLogs n

def reuse (n : Nat) : List Op := beforeReuse n ++ [.log quietHead [], .drop 0]

section Run

variable {n : Nat}

theorem quiet_beforeReuse (n : Nat) :
    (Journal.new.step (.start quietHead)).Quiet n (Journal.new.run (beforeReuse n)) :=
  quiet_quietLogs _ n

theorem run_reuse (n : Nat) : Journal.new.run (reuse n) =
    ((Journal.new.run (beforeReuse n)).step (.log quietHead [])).step (.drop 0) :=
  Journal.run_append _ _ _

/-- The log that stays open. -/
def firstRecord : Record := { metadata := quietHead.metadata 1, payload := [] }

theorem opened_beforeReuse (n : Nat) :
    (Journal.new.run (beforeReuse n)).opened 0 = some firstRecord := by
  rw [(quiet_beforeReuse n).opened]
  rfl

theorem done_reuse (n : Nat) : (Journal.new.run (reuse n)).done =
    (Journal.new.run (beforeReuse n)).done ++
      [(Journal.new.run (beforeReuse n)).record quietHead []] ++ [firstRecord] := by
  have hopened : ((new.run (beforeReuse n)).step (.log quietHead [])).opened 0 =
      some firstRecord := opened_beforeReuse n
  rw [run_reuse]
  show _ ++ Option.toList _ = _
  rw [hopened]
  rfl

theorem not_opened_reuse (n h : Nat) : (Journal.new.run (reuse n)).opened h = none := by
  have hhandles : (new.run (reuse n)).handles = 1 := by
    rw [run_reuse]
    exact (quiet_beforeReuse n).handles
  rcases Nat.eq_zero_or_pos h with rfl | hpos
  · rw [run_reuse]
    rfl
  · exact (new.run (reuse n)).unused h (by omega)

theorem valid_reuse (L : Layout) (n : Nat) : (Journal.new.run (reuse n)).Valid L := by
  have hempty := (quiet_beforeReuse n).empty nofun
  constructor
  · intro h rec hrec
    rw [not_opened_reuse] at hrec
    cases hrec
  · intro rec hrec
    refine ⟨[], ?_⟩
    show rec.payload = []
    rw [done_reuse] at hrec
    rcases mem_append.mp hrec with hrec | hlast
    · rcases mem_append.mp hrec with hold | hnew
      · exact hempty rec hold
      · rw [mem_singleton.mp hnew]
        rfl
    · rw [mem_singleton.mp hlast]
      rfl

theorem resources_beforeReuse (n : Nat) : (Device.new.run (beforeReuse n)).1.resources 0 =
    some { metadata := quietHead.metadata 1, streamId := 1, idx := 1 } := by
  have h := resources_quietLogs (Device.new.start quietHead).1 n
  exact (congrFun h 0).trans rfl

theorem step_drop {d : Device} {handle : Nat} {res : LogResource}
    (h : d.resources handle = some res) : d.step (.drop handle) = d.drop handle res := by
  rw [Device.step, h]

theorem wire_last {d : Device} {res : LogResource} (cobs : Cobs)
    (hstate : d.state = { nextStreamId := 1, nextLogId := 1 }) (hres : d.resources 0 = some res)
    (hid : res.streamId = 1) :
    (d.run [.log quietHead [], .drop 0]).2.flatMap (Action.wire cobs) =
      cobs.encode (rawChunk 1 ((quietHead.metadata 1).asBytes ++ [tagEndOfStream])) ++ [0] ++
        (cobs.encode (rawChunk 1 [tagEndOfStream]) ++ [0]) := by
  have hkept : (d.step (.log quietHead [])).1.resources 0 = some res := hres
  have hlog : (d.step (.log quietHead [])).2.flatMap (Action.wire cobs) =
      cobs.encode (rawChunk 1 ((quietHead.metadata 1).asBytes ++ [tagEndOfStream])) ++ [0] := by
    rw [Device.step, wire_log d quietHead (Nat.zero_le _), hstate, append_nil]
  have hdrop : ((d.step (.log quietHead [])).1.step (.drop 0)).2.flatMap (Action.wire cobs) =
      cobs.encode (rawChunk 1 [tagEndOfStream]) ++ [0] := by
    rw [step_drop hkept, wire_drop, hid]
  rw [Device.run, Device.run, flatMap_append, flatMap_append, hlog, hdrop]
  exact congrArg _ (append_nil _)

theorem inline_reuse (n : Nat) : ∀ op ∈ reuse n, op.Inline := by
  intro op hop
  have hlog : (Op.log quietHead []).Inline := Nat.zero_le _
  rcases mem_append.mp hop with hbefore | hlast
  · rcases mem_cons.mp hbefore with rfl | hlogs
    · trivial
    · rw [eq_of_mem_replicate hlogs]
      exact hlog
  · rcases mem_pair.mp hlast with rfl | rfl
    · exact hlog
    · trivial

theorem fresh_beforeReuse (hn : n + 1 = 2 ^ 64) : Device.new.Fresh (beforeReuse n) := by
  refine fresh_of_countP_le (n := 0) ⟨rfl, nofun⟩ ?_
  have hlength : (beforeReuse n).length = n + 1 := by
    rw [beforeReuse, length_cons, quietLogs, length_replicate]
  grind

theorem state_of_registered {view : UInt64 → Option Record} (hn : n + 1 = 2 ^ 64)
    (h : Registered (Device.new.run (beforeReuse n)).1 (Journal.new.run (beforeReuse n)) view) :
    (Device.new.run (beforeReuse n)).1.state = { nextStreamId := 1, nextLogId := 1 } := by
  have hbegun : (new.run (beforeReuse n)).begun + 1 = 2 ^ 64 + 1 := by
    rw [(quiet_beforeReuse n).begun, ← hn]
    exact congrArg (· + 1) (Nat.add_comm 1 n)
  rw [h.ids, hbegun]
  rfl

/-- One entry for the two logs, and none for the first. -/
theorem bytes_reuse (L : Layout) (cobs : Cobs) (hn : n + 1 = 2 ^ 64) {l : List (Nat × UInt8)}
    (hl : l.map Prod.snd = (Device.new.run (reuse n)).2.flatMap (Action.wire cobs)) :
    ∃ r, Reader.new.bytes L cobs l = .ok r ∧ r.sink.length = n + 1 := by
  have hvalid : (new.run (beforeReuse n)).Valid L := by
    have hlast := valid_reuse L n
    rw [run_reuse] at hlast
    exact hlast.of_step.of_step
  rw [reuse, Device.run_append, flatMap_append] at hl
  obtain ⟨l₁, l', rfl, hl₁, hl'⟩ := map_eq_append_iff.mp hl
  obtain ⟨r₁, hbytes₁, view, hreg, hshows₁⟩ := linked_new.run
    (fun op hop => inline_reuse n op (mem_append_left _ hop)) (fresh_beforeReuse hn) hvalid hl₁
  rw [wire_last cobs (state_of_registered hn hreg) (resources_beforeReuse n) rfl] at hl'
  obtain ⟨l₂, l₃, rfl, hl₂, hl₃⟩ := map_eq_append_iff.mp hl'
  obtain ⟨rec, hrec, hview⟩ := hreg.indexed.value 0 _ (resources_beforeReuse n)
  have hempty : rec.payload = [] := by
    rw [← Option.some.inj ((opened_beforeReuse n).symm.trans hrec)]
    rfl
  obtain ⟨r₂, hbytes₂, hshows₂⟩ := hshows₁.reused hview hempty (encodes_quietValues L) hl₂
  obtain ⟨r₃, hbytes₃, hsink⟩ := hshows₂.orphaned (Function.update_self _ _ _) hl₃
  refine ⟨r₃, ?_, ?_⟩
  · rw [bytes_append, hbytes₁]
    show r₁.bytes L cobs (l₂ ++ l₃) = _
    rw [bytes_append, hbytes₂]
    exact hbytes₃
  · have hlength : (new.run (beforeReuse n)).done.length = 0 + n :=
      (quiet_beforeReuse n).length
    rw [hsink, ← hshows₂.sink.length_eq, length_append, hlength, Nat.zero_add]
    rfl

end Run

/-- `2 ^ 64 + 1` logs are completed, and the reader emits one entry less. -/
theorem not_delivered (L : Layout) (cobs : Cobs) : ∃ ops inputs, (∀ op ∈ ops, op.Inline) ∧
    (Journal.new.run ops).Valid L ∧ (∀ h, (Journal.new.run ops).opened h = none) ∧
    inputs.flatMap Input.bytes = (Device.new.run ops).2.flatMap (Action.wire cobs) ∧
    Reader.new.Unbroken L cobs inputs ∧ ∃ r, Reader.new.run L cobs inputs = .ok r ∧
      ¬ Forall₂ (Delivers L) (Journal.new.run ops).done r.sink := by
  obtain ⟨n, hn⟩ : ∃ n, n + 1 = 2 ^ 64 := ⟨2 ^ 64 - 1, rfl⟩
  let wire := (Device.new.run (reuse n)).2.flatMap (Action.wire cobs)
  have hunbroken : Reader.new.Unbroken L cobs [.read 0 wire] :=
    ⟨wire_run_start_ne_nil _ _ _, fun _ _ => trivial⟩
  have hbytes : [Input.read 0 wire].flatMap Input.bytes = wire := append_nil _
  obtain ⟨r, hrun, hlength⟩ := bytes_reuse L cobs hn ((map_snd_timed _).trans hbytes)
  refine ⟨reuse n, [.read 0 wire], inline_reuse n, valid_reuse L n, not_opened_reuse n, hbytes,
    hunbroken, r, (run_of_unbroken hunbroken).trans hrun, fun hall => ?_⟩
  have hdone : (new.run (reuse n)).done.length = 0 + n + 1 + 1 := by
    rw [done_reuse, length_append, length_append, (quiet_beforeReuse n).length]
    rfl
  have heq := hall.length_eq
  omega

theorem reused_stream_id : ∃ ops inputs, (∀ op ∈ ops, op.Inline) ∧
    (Journal.new.run ops).Valid sampleLayout ∧ (∀ h, (Journal.new.run ops).opened h = none) ∧
    inputs.flatMap Input.bytes = (Device.new.run ops).2.flatMap (Action.wire .standard) ∧
    Reader.new.Unbroken sampleLayout .standard inputs ∧
      ∃ r, Reader.new.run sampleLayout .standard inputs = .ok r ∧
        ¬ List.Forall₂ (Delivers sampleLayout) (Journal.new.run ops).done r.sink :=
  not_delivered sampleLayout .standard

end Rcard.Log
