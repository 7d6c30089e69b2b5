/-
The implicit protocol of a resource arena (`SharedArena::dispatch_implicit`).

Every resource answers seven method ids that no interface declares: destroy,
clone, the four steps of a two-phase transfer, and revoke.  Each acts for the
task that sent the message.  `Fate` says what one message can do to one entry.
An entry of another task changes in two ways only: the sender acquires a
transfer that was prepared for it, or a clone into a full map evicts the entry.

Payloads are decoded and replies are encoded by the postcard crate.  `Postcard`
holds the three functions used, and nothing is assumed of them.
-/
import Rcard.Arena.Keys

namespace Rcard

/-- The calls into the postcard crate.  `none` is a decoding error, or a result
that does not fit the reply buffer. -/
structure Postcard where
  takeHandle : List UInt8 → Option RawHandle
  takeHandleTask : List UInt8 → Option (RawHandle × UInt16)
  handleToSlice : RawHandle → Option (List UInt8)

/-- `reply_ok(data)` and `reply_error(code, data)`. -/
inductive Reply where
  | ok (data : List UInt8)
  | error (code : UInt32) (data : List UInt8)
  deriving DecidableEq, Repr

def malformedMessage : UInt32 := 1

/-- `ipc::Error`, as the byte a reply carries. -/
inductive Error where
  | serverDied
  | arenaFull
  | handleLost
  | transferFailed
  deriving DecidableEq, Repr

def Error.toByte : Error → UInt8
  | .serverDied => 0
  | .arenaFull => 1
  | .handleLost => 2
  | .transferFailed => 3

def implicitDestroyMethod : UInt8 := 0xFF
def cloneMethod : UInt8 := 0xFD
def prepareTransferMethod : UInt8 := 0xFC
def cancelTransferMethod : UInt8 := 0xFB
def acquireMethod : UInt8 := 0xFA
def tryDropMethod : UInt8 := 0xF9
def notifyDeadMethod : UInt8 := 0xF8
def revokeAllMethod : UInt8 := 0xF7

namespace Arena

open Select

variable {T : Type} {N : Nat}

/-- An arm that decodes its arguments first and refuses a malformed payload. -/
def withArgs {α : Type} (s : Arena T N) (args : Option α)
    (arm : α → Arena T N × Reply) : Arena T N × Option Reply :=
  match args with
  | none => (s, some (.error malformedMessage []))
  | some a => ((arm a).1, some (arm a).2)

/-- The reply to a clone.  An encoding failure is reported after the clone was
made. -/
def cloneReply (pc : Postcard) : Except CloneError RawHandle → Reply
  | .ok newHandle =>
    match pc.handleToSlice newHandle with
    | some bytes => .ok (0 :: bytes)
    | none => .error malformedMessage []
  | .error .invalidHandle => .ok [1, Error.handleLost.toByte]
  | .error .arenaFull => .ok [1, Error.arenaFull.toByte]
  -- `unreachable!()` in the source, and `clone_handle` does not return it.
  | .error .serverDied => .ok []

/-- `dispatch_implicit`.  The result is `none` for a method that is not
implicit, where the source hands the reply token back to its caller. -/
def dispatchImplicit (pc : Postcard) (s : Arena T N) (methodId : UInt8) (msg : List UInt8)
    (senderIndex : UInt16) (priorityFn : UInt16 → Int8) : Arena T N × Option Reply :=
  if methodId = implicitDestroyMethod then
    s.withArgs (pc.takeHandle msg) fun handle =>
      ((s.removeOwned handle senderIndex).1, .ok [])
  else if methodId = cloneMethod then
    s.withArgs (pc.takeHandleTask msg) fun (handle, newOwner) =>
      let r := s.cloneHandle handle senderIndex newOwner (priorityFn newOwner)
      (r.1, cloneReply pc r.2)
  else if methodId = prepareTransferMethod then
    s.withArgs (pc.takeHandleTask msg) fun (handle, target) =>
      let r := s.prepareTransfer handle senderIndex target
      (r.1, if r.2 then .ok [0] else .ok [1, Error.handleLost.toByte])
  else if methodId = cancelTransferMethod then
    s.withArgs (pc.takeHandle msg) fun handle =>
      ((s.cancelTransfer handle senderIndex).1, .ok [])
  else if methodId = acquireMethod then
    s.withArgs (pc.takeHandle msg) fun handle =>
      let r := s.acquire handle senderIndex (priorityFn senderIndex)
      (r.1, if r.2 then .ok [0] else .ok [1, Error.transferFailed.toByte])
  else if methodId = tryDropMethod then
    s.withArgs (pc.takeHandle msg) fun handle => ((s.tryDrop handle senderIndex).1, .ok [])
  else if methodId = revokeAllMethod then
    (s.removeByOwner senderIndex, some (.ok []))
  else (s, none)

/-! ## The operation behind a message -/

section

variable (T : Type) (pc : Postcard) (methodId : UInt8) (msg : List UInt8) (senderIndex : UInt16)
  (priorityFn : UInt16 → Int8)

/-- The arena operations a message amounts to: one, or none when the payload is
malformed or the method is not implicit. -/
def implicitOps : List (Op T) :=
  if methodId = implicitDestroyMethod then
    (pc.takeHandle msg).toList.map fun handle => .removeOwned handle senderIndex
  else if methodId = cloneMethod then
    (pc.takeHandleTask msg).toList.map fun (handle, newOwner) =>
      .cloneHandle handle senderIndex newOwner (priorityFn newOwner)
  else if methodId = prepareTransferMethod then
    (pc.takeHandleTask msg).toList.map fun (handle, target) =>
      .prepareTransfer handle senderIndex target
  else if methodId = cancelTransferMethod then
    (pc.takeHandle msg).toList.map fun handle => .cancelTransfer handle senderIndex
  else if methodId = acquireMethod then
    (pc.takeHandle msg).toList.map fun handle =>
      .acquire handle senderIndex (priorityFn senderIndex)
  else if methodId = tryDropMethod then
    (pc.takeHandle msg).toList.map fun handle => .tryDrop handle senderIndex
  else if methodId = revokeAllMethod then [.removeByOwner senderIndex]
  else []

/-- The operation a well-formed message asks for, with the method and the decoded
arguments it comes from. -/
inductive Asks : Op T → Prop
  | destroy {handle : RawHandle} (hargs : pc.takeHandle msg = some handle) :
      Asks (.removeOwned handle senderIndex)
  | clone {handle : RawHandle} {newOwner : UInt16} (hmethod : methodId = cloneMethod)
      (hargs : pc.takeHandleTask msg = some (handle, newOwner)) :
      Asks (.cloneHandle handle senderIndex newOwner (priorityFn newOwner))
  | prepareTransfer {handle : RawHandle} {target : UInt16}
      (hargs : pc.takeHandleTask msg = some (handle, target)) :
      Asks (.prepareTransfer handle senderIndex target)
  | cancelTransfer {handle : RawHandle} (hargs : pc.takeHandle msg = some handle) :
      Asks (.cancelTransfer handle senderIndex)
  | acquire {handle : RawHandle} (hmethod : methodId = acquireMethod)
      (hargs : pc.takeHandle msg = some handle) :
      Asks (.acquire handle senderIndex (priorityFn senderIndex))
  | tryDrop {handle : RawHandle} (hargs : pc.takeHandle msg = some handle) :
      Asks (.tryDrop handle senderIndex)
  | revokeAll : Asks (.removeByOwner senderIndex)

variable {T} in
theorem map_toList_cases {α : Type} {args : Option α} {op : α → Op T} {P : Op T → Prop}
    (h : ∀ a, args = some a → P (op a)) :
    args.toList.map op = [] ∨ ∃ o, args.toList.map op = [o] ∧ P o := by
  cases args with
  | none => exact .inl rfl
  | some a => exact .inr ⟨op a, rfl, h a rfl⟩

theorem implicitOps_cases : implicitOps T pc methodId msg senderIndex priorityFn = [] ∨
      ∃ op, implicitOps T pc methodId msg senderIndex priorityFn = [op] ∧
        Asks T pc methodId msg senderIndex priorityFn op := by
  rw [implicitOps]
  split
  · exact map_toList_cases fun _ hargs => .destroy hargs
  split
  · next hclone => exact map_toList_cases fun _ hargs => .clone hclone hargs
  split
  · exact map_toList_cases fun _ hargs => .prepareTransfer hargs
  split
  · exact map_toList_cases fun _ hargs => .cancelTransfer hargs
  split
  · next hacquire => exact map_toList_cases fun _ hargs => .acquire hacquire hargs
  split
  · exact map_toList_cases fun _ hargs => .tryDrop hargs
  split
  · exact .inr ⟨_, rfl, .revokeAll⟩
  · exact .inl rfl

end

section Message

variable {pc : Postcard} {s : Arena T N} {methodId : UInt8} {msg : List UInt8}
  {senderIndex : UInt16} {priorityFn : UInt16 → Int8}

theorem withArgs_run {α : Type} {args : Option α} {arm : α → Arena T N × Reply}
    {op : α → Op T} (h : ∀ a, (arm a).1 = (s.step (op a)).1) :
    (s.withArgs args arm).1 = s.run (args.toList.map op) := by
  cases args with
  | none => rfl
  | some a => exact h a

theorem ite_run {c : Prop} [Decidable c] {x y : Arena T N × Option Reply} {ops ops' : List (Op T)}
    (hx : x.1 = s.run ops) (hy : y.1 = s.run ops') :
    (if c then x else y).1 = s.run (if c then ops else ops') := by
  split
  · exact hx
  · exact hy

theorem dispatchImplicit_run :
    (dispatchImplicit pc s methodId msg senderIndex priorityFn).1 =
      s.run (implicitOps T pc methodId msg senderIndex priorityFn) := by
  refine ite_run (withArgs_run fun _ => rfl) ?_
  refine ite_run (withArgs_run fun _ => rfl) ?_
  refine ite_run (withArgs_run fun _ => rfl) ?_
  refine ite_run (withArgs_run fun _ => rfl) ?_
  refine ite_run (withArgs_run fun _ => rfl) ?_
  refine ite_run (withArgs_run fun _ => rfl) ?_
  exact ite_run rfl rfl

/-! ## What a message does to one entry -/

structure Kept (s s' : Arena T N) (j : Fin N) : Prop where
  entry : s'.map j = s.map j
  value : ∀ i : Fin N, (s.map j).slot.toNat = i → (s'.slots i).value = (s.slots i).value

/-- Entry `j` was pending for the sender and is the sender's now.  No other
entry changed. -/
structure Taken (s s' : Arena T N) (senderIndex : UInt16) (priorityFn : UInt16 → Int8)
    (j : Fin N) : Prop where
  pending : (s.map j).pendingTo = some senderIndex
  entry : s'.map j = { s.map j with
    owner := senderIndex, priority := priorityFn senderIndex, pendingTo := none }
  others : ∀ k, k ≠ j → s'.map k = s.map k

/-- The map was full and entry `j` made room for a clone of `handle`.  It lies
outside the cloned slot `i`, its priority is below `p`, and no other such entry
has a lower one.  No other entry changed. -/
structure Replaced (s s' : Arena T N) (handle : RawHandle) (owner newOwner : UInt16) (p : Int8)
    (j : Fin N) : Prop where
  full : ∀ k, (s.map k).occupied = true
  source : ∃ i k, s.idleEntry handle owner = some k ∧ s.PointsTo i k ∧ ¬ s.PointsTo i j ∧
    ∀ m, ¬ s.PointsTo i m → (s.map m).priority < p → (s.map j).priority ≤ (s.map m).priority
  below : (s.map j).priority < p
  entry : ∃ slot generation, s'.map j = newEntry s.nextKey slot generation newOwner p
  nextKey : s'.nextKey = advanceKey s.nextKey
  others : ∀ k, k ≠ j → s'.map k = s.map k

/-- What a message from `senderIndex` can do to an occupied entry. -/
inductive Fate (pc : Postcard) (s s' : Arena T N) (methodId : UInt8) (msg : List UInt8)
    (senderIndex : UInt16) (priorityFn : UInt16 → Int8) (j : Fin N) : Prop
  | kept (h : Kept s s' j)
  | released (howner : (s.map j).owner = senderIndex) (h : s'.map j = (s.map j).cleared)
  | marked (howner : (s.map j).owner = senderIndex) (pendingTo : Option UInt16)
      (h : s'.map j = { s.map j with pendingTo })
  | taken (hmethod : methodId = acquireMethod) (h : Taken s s' senderIndex priorityFn j)
  | replaced (hmethod : methodId = cloneMethod) (handle : RawHandle) (newOwner : UInt16)
      (hargs : pc.takeHandleTask msg = some (handle, newOwner))
      (h : Replaced s s' handle senderIndex newOwner (priorityFn newOwner) j)

theorem Kept.refl (s : Arena T N) (j : Fin N) : Kept s s j := ⟨rfl, fun _ _ => rfl⟩

variable {j : Fin N}

theorem Kept.setEntry {k : Fin N} (hj : j ≠ k) (e : HandleEntry) :
    Kept s (s.setEntry k e) j := ⟨setEntry_map_of_ne hj e, fun _ _ => rfl⟩

theorem Released.kept_entry {P : Fin N → Prop} {s' : Arena T N} (h : Released P s s')
    (hocc : (s.map j).occupied = true) (hj : ¬ P j) : Kept s s' j :=
  ⟨h.kept j hj, fun i hi => (h.slot_kept i j hj hocc hi).1⟩

theorem removeOwned_fate (hs : s.Inv) (handle : RawHandle) (hocc : (s.map j).occupied = true) :
    Fate pc s (s.removeOwned handle senderIndex).1 methodId msg senderIndex priorityFn j := by
  have hcase := removeOwned_cases hs handle senderIndex
  generalize (s.removeOwned handle senderIndex).1 = s' at hcase
  cases hcase with
  | absent => exact .kept (.refl s j)
  | @dropped i k hk hp =>
    have hrel := releaseEntry_released hs hp
    by_cases hj : j = k
    · exact .released (hj ▸ hk.2.2) (hrel.cleared j hj)
    · exact .kept (hrel.kept_entry hocc hj)

theorem removeByOwner_fate (hs : s.Inv) (hocc : (s.map j).occupied = true) :
    Fate pc s (s.removeByOwner senderIndex) methodId msg senderIndex priorityFn j := by
  have hrel := removeByOwner_released hs senderIndex
  by_cases hj : (s.map j).owner = senderIndex
  · exact .released hj (hrel.cleared j ⟨hocc, hj⟩)
  · exact .kept (hrel.kept_entry hocc fun h => hj h.2)

theorem prepareTransfer_fate (handle : RawHandle) (target : UInt16) (j : Fin N) :
    Fate pc s (s.prepareTransfer handle senderIndex target).1 methodId msg senderIndex
      priorityFn j := by
  unfold prepareTransfer
  cases hk : s.idleEntry handle senderIndex with
  | none => exact .kept (.refl s j)
  | some k =>
    dsimp only
    split
    · exact .kept (.refl s j)
    · by_cases hj : j = k
      · subst hj
        exact .marked (idleEntry_some hk).2.2.1 _ (setEntry_map_self _ _ _)
      · exact .kept (.setEntry hj _)

theorem cancelTransfer_fate (handle : RawHandle) (j : Fin N) :
    Fate pc s (s.cancelTransfer handle senderIndex).1 methodId msg senderIndex priorityFn j := by
  unfold cancelTransfer
  split
  · exact .kept (.refl s j)
  next k hk =>
    have hfound := firstIdx_some hk
    simp only [Bool.and_eq_true, beq_iff_eq] at hfound
    by_cases hj : j = k
    · subst hj
      exact .marked hfound.1.2 none (setEntry_map_self _ _ _)
    · exact .kept (.setEntry hj _)

theorem acquire_fate (handle : RawHandle) (hmethod : methodId = acquireMethod) (j : Fin N) :
    Fate pc s (s.acquire handle senderIndex (priorityFn senderIndex)).1 methodId msg senderIndex
      priorityFn j := by
  unfold acquire
  split
  · exact .kept (.refl s j)
  next k hk =>
    have hfound := firstIdx_some hk
    simp only [Bool.and_eq_true, beq_iff_eq] at hfound
    split
    · exact .kept (.refl s j)
    · by_cases hj : j = k
      · subst hj
        exact .taken hmethod ⟨hfound.2, setEntry_map_self _ _ _,
          fun m hm => setEntry_map_of_ne hm _⟩
      · exact .kept (.setEntry hj _)

theorem cloneAt_kept {i k : Fin N} {slot : UInt8} (hslot : slot.toNat = i) (hk : k ≠ j)
    (generation : UInt32) (newOwner : UInt16) (p : Int8) :
    Kept s (s.cloneAt slot generation j newOwner p) k :=
  ⟨cloneAt_map_of_ne hk slot generation newOwner p,
    fun m _ => (cloneAt_slot hslot generation j newOwner p m).1⟩

theorem Kept.trans {s₁ s₂ : Arena T N} (h₁ : Kept s s₁ j) (h₂ : Kept s₁ s₂ j) : Kept s s₂ j :=
  ⟨h₂.entry.trans h₁.entry, fun i hi =>
    (h₂.value i (by rw [h₁.entry]; exact hi)).trans (h₁.value i hi)⟩

theorem cloneHandle_fate (hs : s.Inv) (hmethod : methodId = cloneMethod) {handle : RawHandle}
    {newOwner : UInt16} (hargs : pc.takeHandleTask msg = some (handle, newOwner))
    (hocc : (s.map j).occupied = true) :
    Fate pc s (s.cloneHandle handle senderIndex newOwner (priorityFn newOwner)).1 methodId msg
      senderIndex priorityFn j := by
  have hcase := cloneHandle_cases hs handle senderIndex newOwner (priorityFn newOwner)
  generalize s.cloneHandle handle senderIndex newOwner (priorityFn newOwner) = r at hcase
  cases hcase with
  | invalidHandle => exact .kept (.refl s j)
  | arenaFull => exact .kept (.refl s j)
  | @placed i m k hsrc hp hentry =>
    refine .kept (cloneAt_kept hp.2.1 ?_ _ _ _)
    rintro rfl
    rw [freeEntry_some hentry] at hocc
    exact Bool.false_ne_true hocc
  | @evicted s₁ i m k hsrc hp hentries hvictim hinv hrel hne =>
    have hothers : ∀ l, l ≠ m → Kept s
        (s₁.cloneAt (s.map k).slot (s.map k).generation m newOwner (priorityFn newOwner)) l :=
      fun l hl => (hrel.kept_entry (hentries l) hl).trans (cloneAt_kept hp.2.1 hl _ _ _)
    by_cases hj : j = m
    · subst hj
      obtain ⟨⟨-, -, hbelow⟩, hmin⟩ := findEvictionVictim_some hvictim
      refine .replaced hmethod handle newOwner hargs ⟨hentries, ⟨i, k, hsrc, hp, hne, ?_⟩,
        hbelow, ⟨_, _, by rw [cloneAt_map_self, hrel.nextKey]⟩, congrArg advanceKey hrel.nextKey,
        fun l hl => (hothers l hl).entry⟩
      intro l hl hlow
      refine hmin l ⟨hentries l, fun hsame => hl ⟨hentries l, ?_, ?_⟩, hlow⟩
      · rw [hsame.1]
        exact hp.2.1
      · rw [hsame.2]
        exact hp.2.2
    · exact .kept (hothers j hj)

theorem dispatchImplicit_fate (hs : s.Inv) (hocc : (s.map j).occupied = true) :
    Fate pc s (dispatchImplicit pc s methodId msg senderIndex priorityFn).1 methodId msg
      senderIndex priorityFn j := by
  rw [dispatchImplicit_run]
  rcases implicitOps_cases T pc methodId msg senderIndex priorityFn with hnil | ⟨op, hop, hasks⟩
  · rw [hnil]
    exact .kept (.refl s j)
  · rw [hop]
    cases hasks with
    | destroy _ => exact removeOwned_fate hs _ hocc
    | clone hmethod hargs => exact cloneHandle_fate hs hmethod hargs hocc
    | prepareTransfer _ => exact prepareTransfer_fate _ _ j
    | cancelTransfer _ => exact cancelTransfer_fate _ j
    | acquire hmethod _ => exact acquire_fate _ hmethod j
    | tryDrop _ =>
      show Fate pc s (s.tryDrop _ senderIndex).1 methodId msg senderIndex priorityFn j
      rw [tryDrop_eq]
      exact removeOwned_fate hs _ hocc
    | revokeAll => exact removeByOwner_fate hs hocc

end Message

/-! ## Isolation -/

section Isolation

variable {pc : Postcard} {methodId : UInt8} {msg : List UInt8} {senderIndex : UInt16}
  {priorityFn : UInt16 → Int8} {seed : UInt64} {p p' : Arena T N × List (Event T)}

theorem Kept.get_eq (h : Sound seed p) (h' : Sound seed p') {j : Fin N} (hk : Kept p.1 p'.1 j)
    (hocc : (p.1.map j).occupied = true) :
    p'.1.get (p.1.map j).key = p.1.get (p.1.map j).key := by
  obtain ⟨i, hp, -⟩ := h.inv.entry j hocc
  have hget := h'.get_entry (j := j) (by rw [hk.entry]; exact hocc)
  rw [hk.entry, slotAt_eq hp.2.1, hk.value i hp.2.1] at hget
  rw [hget, h.get_entry hocc, slotAt_eq hp.2.1]

theorem Sound.unique_owner (h : Sound seed p) {handle : RawHandle} (hlive : p.1.Live handle) :
    ∃! owner, ∃ j, p.1.OwnedKey handle owner j := by
  obtain ⟨j, hocc, hkey⟩ := hlive
  refine ⟨(p.1.map j).owner, ⟨j, hocc, hkey, rfl⟩, ?_⟩
  rintro owner ⟨k, hk, hkkey, rfl⟩
  rw [h.linked.distinct k j hk hocc (hkkey.trans hkey.symm)]

/-- An entry that keeps its key under a message has kept its owner, or it was
pending for the sender. -/
theorem Fate.owner_eq {s s' : Arena T N} {j : Fin N}
    (h : Fate pc s s' methodId msg senderIndex priorityFn j)
    (hpending : (s.map j).pendingTo ≠ some senderIndex)
    (hfresh : s'.nextKey = advanceKey s.nextKey → s.nextKey ≠ (s.map j).key)
    (hkey : (s'.map j).key = (s.map j).key) : (s'.map j).owner = (s.map j).owner := by
  cases h with
  | kept h => rw [h.entry]
  | released howner h => rw [h]; rfl
  | marked howner pendingTo h => rw [h]
  | taken hmethod h => exact absurd h.pending hpending
  | replaced hmethod handle newOwner hargs h =>
    obtain ⟨slot, generation, hentry⟩ := h.entry
    rw [hentry] at hkey
    exact absurd hkey (hfresh h.nextKey)

theorem Sound.fresh_of_advance (h : Sound seed p) {op : Op T}
    (hle : (issued (Arena.record p op).2).length ≤ 2 ^ 64)
    (hnext : (p.1.step op).1.nextKey = advanceKey p.1.nextKey) : p.1.nextKey ∉ issued p.2 := by
  rcases (step_effect h.inv op).issued_cases with ⟨-, hsame⟩ | ⟨hissued, -⟩
  · exact absurd (hnext.symm.trans hsame) (advanceKey_ne _)
  · rw [Arena.record, issued_append, hissued, List.singleton_append] at hle
    exact h.ledger.fresh (Nat.lt_of_succ_le hle)

/-- A message makes at most one step, so the key it takes is new. -/
theorem Sound.fresh_of_message (h : Sound seed p)
    (hle : (issued ((implicitOps T pc methodId msg senderIndex priorityFn).foldl Arena.record
      p).2).length ≤ 2 ^ 64)
    (hnext : ((implicitOps T pc methodId msg senderIndex priorityFn).foldl Arena.record
      p).1.nextKey = advanceKey p.1.nextKey) : p.1.nextKey ∉ issued p.2 := by
  rcases implicitOps_cases T pc methodId msg senderIndex priorityFn with hnil | ⟨op, hop, -⟩
  · rw [hnil] at hnext
    exact absurd hnext.symm (advanceKey_ne _)
  · rw [hop] at hle hnext
    exact h.fresh_of_advance hle hnext

end Isolation

theorem foldl_record_fst (p : Arena T N × List (Event T)) (ops : List (Op T)) :
    (ops.foldl record p).1 = p.1.run ops := by
  induction ops generalizing p with
  | nil => rfl
  | cons op ops ih => exact ih (record p op)

/-- A message from one task leaves the entries of the others alone, in every
reachable state, except for a transfer the sender acquires and for the one
entry a clone may evict.  As long as the run and the message issue at most 2^64
keys, an entry left alone reads the same value, a handle prepared for `t` goes
to no one but `t`, and every live handle has exactly one owner. -/
theorem dispatchImplicit_isolated (pc : Postcard) (kind : UInt8) (hN : N ≤ 255)
    (ops : List (Op T)) (methodId : UInt8) (msg : List UInt8) (senderIndex : UInt16)
    (priorityFn : UInt16 → Int8) :
    let s : Arena T N := (history kind hN ops).1
    let s' := (dispatchImplicit pc s methodId msg senderIndex priorityFn).1
    let all := ops ++ implicitOps T pc methodId msg senderIndex priorityFn
    (∀ j, (s.map j).occupied = true → (s.map j).owner ≠ senderIndex →
      Kept s s' j ∨
      (methodId = acquireMethod ∧ Taken s s' senderIndex priorityFn j) ∨
      (methodId = cloneMethod ∧ ∃ handle newOwner,
        pc.takeHandleTask msg = some (handle, newOwner) ∧
          Replaced s s' handle senderIndex newOwner (priorityFn newOwner) j)) ∧
    ((issued (history kind hN all : Arena T N × List (Event T)).2).length ≤ 2 ^ 64 →
      (∀ j, (s.map j).occupied = true → Kept s s' j → s'.get (s.map j).key = s.get (s.map j).key) ∧
      (∀ j t, (s.map j).occupied = true → (s.map j).pendingTo = some t → senderIndex ≠ t →
        (s'.map j).key = (s.map j).key → (s'.map j).owner = (s.map j).owner) ∧
      (∀ handle, s'.Live handle → ∃! owner, ∃ j, s'.OwnedKey handle owner j)) := by
  intro s s' all
  have hs : s.Inv := by
    show ((history kind hN ops : Arena T N × List (Event T)).1).Inv
    rw [history, foldl_record_fst]
    exact (inv_new kind hN).run ops
  have hfate : ∀ j, (s.map j).occupied = true →
      Fate pc s s' methodId msg senderIndex priorityFn j := fun j => dispatchImplicit_fate hs
  refine ⟨fun j hocc howner => ?_, fun hle => ?_⟩
  · cases hfate j hocc with
    | kept h => exact .inl h
    | released h => exact absurd h howner
    | marked h => exact absurd h howner
    | taken hmethod h => exact .inr (.inl ⟨hmethod, h⟩)
    | replaced hmethod handle newOwner hargs h =>
      exact .inr (.inr ⟨hmethod, handle, newOwner, hargs, h⟩)
  have hafter := (sound_start (T := T) kind hN).run all hle
  have hall : (history kind hN all : Arena T N × List (Event T)) =
      (implicitOps T pc methodId msg senderIndex priorityFn).foldl record (history kind hN ops) :=
    List.foldl_append
  have hbefore := (sound_start (T := T) kind hN).run ops (by
    rw [hall] at hle
    exact (issued_suffix _ _).length_le.trans hle)
  have hs' : s' = (history kind hN all : Arena T N × List (Event T)).1 := by
    rw [hall, foldl_record_fst]
    exact dispatchImplicit_run
  refine ⟨fun j hocc hk => ?_, fun j t hocc hpending hne hkey => ?_, fun handle hlive => ?_⟩
  · rw [hs'] at hk ⊢
    exact hk.get_eq hbefore hafter hocc
  · refine (hfate j hocc).owner_eq ?_ (fun hnext heq => ?_) hkey
    · rw [hpending]
      exact fun h => hne (Option.some.inj h).symm
    · rw [hall] at hle
      rw [hs', hall] at hnext
      exact hbefore.fresh_of_message hle hnext (heq ▸ hbefore.linked.known _ ⟨j, hocc, rfl⟩)
  · rw [hs'] at hlive ⊢
    exact hafter.unique_owner hlive

/-! ## A codec -/

/-- The little-endian base-128 integers of postcard, with the bytes that follow. -/
def takeVarint : List UInt8 → Option (Nat × List UInt8)
  | [] => none
  | b :: bytes =>
    if b < 128 then some (b.toNat, bytes)
    else (takeVarint bytes).map fun (n, rest) => ((b.toNat - 128) + 128 * n, rest)

def putVarint : Nat → Nat → List UInt8
  | 0, _ => []
  | fuel + 1, n =>
    if n < 128 then [UInt8.ofNat n]
    else UInt8.ofNat (n % 128 + 128) :: putVarint fuel (n / 128)

def varintCodec : Postcard :=
  { takeHandle := fun bytes => do
      let (n, _) ← takeVarint bytes
      if n < 2 ^ 64 then some (UInt64.ofNat n) else none
    takeHandleTask := fun bytes => do
      let (n, rest) ← takeVarint bytes
      let (t, _) ← takeVarint rest
      if n < 2 ^ 64 ∧ t < 2 ^ 16 then some (UInt64.ofNat n, UInt16.ofNat t) else none
    handleToSlice := fun handle => some (putVarint 10 handle.toNat) }

/-- Task 1 destroys its handle, and the clone it made for task 2 still reads the
value. -/
theorem dispatchImplicit_isolated_clone :
    let s : Arena Nat 2 := (history 0 (by decide) [.alloc 10 1 0, .cloneHandle 1 1 2 0]).1
    let s' := (dispatchImplicit varintCodec s implicitDestroyMethod [1] 1 fun _ => 0).1
    (s'.map 0).occupied = false ∧ Kept s s' 1 ∧ s'.get (s.map 1).key = some 10 := by
  intro s s'
  have h := dispatchImplicit_isolated varintCodec 0 (by decide : 2 ≤ 255)
    [.alloc (10 : Nat) 1 0, .cloneHandle 1 1 2 0] implicitDestroyMethod [1] 1 fun _ => 0
  have hkept : Kept s s' 1 := by
    rcases h.1 1 (by decide) (by decide) with hkept | ⟨hmethod, -⟩ | ⟨hmethod, -⟩
    · exact hkept
    · exact absurd hmethod (by decide)
    · exact absurd hmethod (by decide)
  refine ⟨by decide, hkept, ?_⟩
  decide

end Arena
end Rcard
