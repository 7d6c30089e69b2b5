/-
What a method is given (`gen_peer_resolution`, `gen_reply`).

The receiver of a message is a value of the sender's, and so is one that a destructor takes, though
that one may be pending.  A peer is the value of any entry with the key, whoever owns it.
-/
import Rcard.Server.Dispatcher

namespace Rcard

open Option List

/-! ## Lookups -/

namespace Arena

variable {T : Type} {N : Nat} {x : Arena T N} {handle : RawHandle} {owner : UInt16} {value : T}

theorem getMutOwned_eq_some {f : T → T} (h : (x.getMutOwned handle owner f).2 = some value) :
    ∃ j, x.OwnedKey handle owner j ∧ (x.map j).pendingTo = none ∧
      (x.slotAt (x.map j).slot).value = some value := by
  rw [getMutOwned, lookupOwned] at h
  cases hj : x.lookupOwnedEntry handle owner with
  | none =>
    rw [hj] at h
    cases h
  | some j =>
    rw [hj] at h
    obtain ⟨hocc, hkey, howner, hidle⟩ := lookupOwnedEntry_some hj
    exact ⟨j, ⟨hocc, hkey, howner⟩, hidle, h⟩

theorem releaseEntry_eq_some {j : Fin N} (h : (x.releaseEntry j).2 = some value) :
    (x.slotAt (x.map j).slot).value = some value := by
  rw [releaseEntry] at h
  dsimp only at h
  split at h
  · cases h
  · split at h
    · exact h
    · cases h

theorem removeOwned_eq_some (h : (x.removeOwned handle owner).2 = some value) :
    ∃ j, x.OwnedKey handle owner j ∧ (x.slotAt (x.map j).slot).value = some value := by
  rw [removeOwned] at h
  cases hj : x.ownedEntry handle owner with
  | none =>
    rw [hj] at h
    cases h
  | some j =>
    rw [hj] at h
    exact ⟨j, ownedEntry_some hj, releaseEntry_eq_some h⟩

end Arena

namespace Ipc

/-- The method was not run, and the reply says so. -/
def Outcome.IsError {ι : Type} {sys : System ι} : Outcome sys → Prop
  | .replied (.error _ _) => True
  | .replied reply => ∃ error, reply = replyErr error
  | _ => False

namespace State

variable {ι : Type} {sys : System ι} {s : State sys}

/-- A peer is one of the parameters, with the value that its arena has under the key. -/
theorem mem_resolvePeers {args : List (Param ι × DynHandle)} {peers : List (Received sys)}
    (h : s.resolvePeers args = some peers) {r : Received sys} (hr : r ∈ peers) :
    ∃ arg, (Param.clone (some r.arena), arg) ∈ args ∧ arg.handle = r.key ∧
      (s.arenas r.arena).get r.key = some r.value := by
  induction args generalizing peers with
  | nil =>
    cases h
    cases hr
  | cons head args ih =>
    have hrest : ∀ {others : List (Received sys)}, s.resolvePeers args = some others →
        r ∈ others → ∃ arg, (Param.clone (some r.arena), arg) ∈ head :: args ∧
          arg.handle = r.key ∧ (s.arenas r.arena).get r.key = some r.value := by grind
    match head with
    | (.value, _) => exact hrest h hr
    | (.move _, _) => exact hrest h hr
    | (.clone none, _) => exact hrest h hr
    | (.clone (some peer), arg) =>
      rw [resolvePeers] at h
      cases hget : (s.arenas peer).get arg.handle with
      | none =>
        rw [hget] at h
        cases h
      | some value =>
        rw [hget] at h
        obtain ⟨others, hothers, rfl⟩ := map_eq_some_iff.mp h
        grind

/-- Every peer that is named is among those resolved, and all are if each key is found. -/
theorem resolvePeers_named {args : List (Param ι × DynHandle)} {peers : List (Received sys)}
    (h : s.resolvePeers args = some peers) {peer : ι} {arg : DynHandle}
    (harg : (Param.clone (some peer), arg) ∈ args) :
    ∃ value, (s.arenas peer).get arg.handle = some value ∧
      { arena := peer, key := arg.handle, value } ∈ peers := by
  induction args generalizing peers with
  | nil => cases harg
  | cons head args ih =>
    match head with
    | (.value, _) | (.move _, _) | (.clone none, _) =>
      exact ih h ((mem_cons.mp harg).resolve_left nofun)
    | (.clone (some peer'), arg') =>
      rw [resolvePeers] at h
      cases hget : (s.arenas peer').get arg'.handle with
      | none =>
        rw [hget] at h
        cases h
      | some value =>
        rw [hget] at h
        obtain ⟨others, hothers, rfl⟩ := map_eq_some_iff.mp h
        rcases mem_cons.mp harg with heq | harg
        · cases heq
          exact ⟨value, hget, mem_cons_self⟩
        · obtain ⟨v, hv, hmem⟩ := ih hothers harg
          exact ⟨v, hv, mem_cons_of_mem _ hmem⟩

theorem exists_resolvePeers {args : List (Param ι × DynHandle)}
    (h : ∀ peer arg, (Param.clone (some peer), arg) ∈ args →
      ∃ value, (s.arenas peer).get arg.handle = some value) :
    ∃ peers, s.resolvePeers args = some peers := by
  induction args with
  | nil => exact ⟨[], rfl⟩
  | cons head args ih =>
    have hrest := ih fun peer arg harg => h peer arg (mem_cons_of_mem _ harg)
    match head with
    | (.value, _) | (.move _, _) | (.clone none, _) => exact hrest
    | (.clone (some peer), arg) =>
      obtain ⟨value, hvalue⟩ := h peer arg mem_cons_self
      obtain ⟨peers, hpeers⟩ := hrest
      exact ⟨_, by rw [resolvePeers, hvalue, hpeers]; rfl⟩

variable [DecidableEq ι] {env : Nat → State sys → State sys} {own : ι} {sender : UInt16}
  {kind : MethodKind} {handle : RawHandle} {args : List (Param ι × DynHandle)} {leases : Bool}
  {peers : List (Received sys)} {inv : Invocation sys}

theorem check_eq_true {before moved : List Acquired} (h : (s.check env own before moved).2 = true) :
    (s.check env own before moved).1 = s ∧ ∀ x ∈ moved, x.flag = true := by
  induction moved generalizing before with
  | nil => exact ⟨rfl, nofun⟩
  | cons head rest ih =>
    grind [check]

theorem check_of_flags {before moved : List Acquired} (h : ∀ x ∈ moved, x.flag = true) :
    s.check env own before moved = (s, true) := by
  induction moved generalizing before with
  | nil => rfl
  | cons head rest ih =>
    rw [check, if_pos (h head mem_cons_self)]
    exact ih fun x hx => h x (mem_cons_of_mem _ hx)

/-- What a method finds under the key of its receiver, if it has one. -/
def receiver (s : State sys) (own : ι) (sender : UInt16) (kind : MethodKind) (handle : RawHandle) :
    Option (Option (Received sys)) :=
  match kind with
  | .constructor | .staticMessage => some none
  | .message => ((s.arenas own).getMutOwned handle sender id).2.map fun value =>
      some { arena := own, key := handle, value }
  | .destructor => ((s.arenas own).removeOwned handle sender).2.map fun value =>
      some { arena := own, key := handle, value }

theorem enter_eq : (s.enter own sender kind handle peers).2 =
    match s.receiver own sender kind handle with
    | none => .replied (replyErr .handleLost)
    | some receiver => .runs { receiver, peers } := by
  cases kind with
  | constructor | staticMessage => rfl
  | message =>
    rw [enter, receiver]
    cases ((s.arenas own).getMutOwned handle sender id).2 <;> rfl
  | destructor =>
    rw [enter, receiver]
    dsimp only
    cases ((s.arenas own).removeOwned handle sender).2 <;> rfl

omit [DecidableEq ι] in
/-- The receiver is in an entry of the sender's, and one that is not pending unless the method is a
destructor. -/
theorem receiver_owned {r : Received sys} (h : s.receiver own sender kind handle = some (some r)) :
    ∃ value j, r = { arena := own, key := handle, value } ∧
      (s.arenas own).OwnedKey handle sender j ∧
      ((s.arenas own).slotAt ((s.arenas own).map j).slot).value = some value ∧
      (kind ≠ .destructor → ((s.arenas own).map j).pendingTo = none) := by
  cases kind with
  | constructor | staticMessage => cases h
  | message =>
    obtain ⟨value, hvalue, heq⟩ := map_eq_some_iff.mp h
    cases heq
    obtain ⟨j, howned, hidle, hslot⟩ := Arena.getMutOwned_eq_some hvalue
    exact ⟨value, j, rfl, howned, hslot, fun _ => hidle⟩
  | destructor =>
    obtain ⟨value, hvalue, heq⟩ := map_eq_some_iff.mp h
    cases heq
    obtain ⟨j, howned, hslot⟩ := Arena.removeOwned_eq_some hvalue
    exact ⟨value, j, rfl, howned, hslot, fun hne => absurd rfl hne⟩

/-- Nothing stops the message before the method: the leases are bound, each key of a peer is found,
each handle that is moved is acquired, and the receiver is there. -/
structure Reaches (env : Nat → State sys → State sys) (s : State sys) (own : ι) (sender : UInt16)
    (kind : MethodKind) (handle : RawHandle) (args : List (Param ι × DynHandle)) (leases : Bool) :
    Prop where
  leases : leases = true
  peers : ∀ peer arg, (Param.clone (some peer), arg) ∈ args →
    ∃ value, (s.arenas peer).get arg.handle = some value
  moves : ∀ moved ∈ (s.acquire env own sender args).2, moved.flag = true
  receiver : ((s.acquire env own sender args).1.receiver own sender kind handle).isSome

theorem arm_of_reaches (h : Reaches env s own sender kind handle args leases) :
    ∃ inv, (s.arm env own sender kind handle args leases).2 = .runs inv := by
  obtain ⟨peers, hpeers⟩ := exists_resolvePeers h.peers
  obtain ⟨receiver, hreceiver⟩ := isSome_iff_exists.mp h.receiver
  refine ⟨{ receiver, peers }, ?_⟩
  rw [arm, h.leases, hpeers]
  dsimp only
  rw [check_of_flags h.moves, if_neg (by decide), if_pos rfl, enter_eq, hreceiver]

theorem arm_runs (h : (s.arm env own sender kind handle args leases).2 = .runs inv) :
    Reaches env s own sender kind handle args leases ∧ s.resolvePeers args = some inv.peers ∧
      (s.acquire env own sender args).1.receiver own sender kind handle = some inv.receiver := by
  rw [arm] at h
  split at h
  · cases h
  · next hleases =>
    cases hpeers : s.resolvePeers args with
    | none =>
      rw [hpeers] at h
      cases h
    | some peers =>
      rw [hpeers] at h
      dsimp only at h
      split at h
      · next hok =>
        obtain ⟨hsame, hflags⟩ := check_eq_true hok
        rw [hsame, enter_eq] at h
        split at h
        · cases h
        · next receiver hreceiver =>
          cases h
          refine ⟨⟨by simpa using hleases, fun peer arg harg => ?_, hflags, ?_⟩, rfl, hreceiver⟩
          · obtain ⟨value, hvalue, -⟩ := resolvePeers_named hpeers harg
            exact ⟨value, hvalue⟩
          · rw [hreceiver]
            rfl
      · cases h

/-- If the method is not run, the reply is an error. -/
theorem arm_cases (env : Nat → State sys → State sys) (s : State sys) (own : ι) (sender : UInt16)
    (kind : MethodKind) (handle : RawHandle) (args : List (Param ι × DynHandle)) (leases : Bool) :
    (∃ inv, (s.arm env own sender kind handle args leases).2 = .runs inv) ∨
      (s.arm env own sender kind handle args leases).2.IsError := by
  rw [arm]
  split
  · exact .inr trivial
  · split
    · exact .inr ⟨_, rfl⟩
    · dsimp only
      split
      · rw [enter_eq]
        split
        · exact .inr ⟨_, rfl⟩
        · exact .inl ⟨_, rfl⟩
      · exact .inr ⟨_, rfl⟩

/-! ## Ownership -/

/-- The sender owns the entry, or has cloned it for this call. -/
def Entitled (s : State sys) (own : ι) (sender : UInt16) (cloned : List (ι × RawHandle)) (a : ι)
    (j : Fin (sys.size a)) : Prop :=
  ((s.arenas a).map j).owner = sender ∨
    ((s.arenas a).map j).owner = sys.taskIndex own ∧ (a, ((s.arenas a).map j).key) ∈ cloned

/-- The arena has the value under the key, in an entry that is not pending and that the sender owns
or has cloned for this call. -/
def Grants (s : State sys) (own : ι) (sender : UInt16) (cloned : List (ι × RawHandle))
    (r : Received sys) : Prop :=
  ∃ j, ((s.arenas r.arena).map j).occupied = true ∧ ((s.arenas r.arena).map j).key = r.key ∧
    ((s.arenas r.arena).map j).pendingTo = none ∧
    ((s.arenas r.arena).slotAt ((s.arenas r.arena).map j).slot).value = some r.value ∧
    s.Entitled own sender cloned r.arena j

/-- What is found under the key of a peer is the sender's or was cloned for this call, and a
destructor is not called on a handle that is being moved. -/
structure Honest (env : Nat → State sys → State sys) (s : State sys) (own : ι) (sender : UInt16)
    (cloned : List (ι × RawHandle)) (kind : MethodKind) (handle : RawHandle)
    (args : List (Param ι × DynHandle)) : Prop where
  peers : ∀ peer arg value, (Param.clone (some peer), arg) ∈ args →
    (s.arenas peer).get arg.handle = some value →
      s.Grants own sender cloned { arena := peer, key := arg.handle, value }
  receiver : kind = .destructor → ∀ r,
    (s.acquire env own sender args).1.receiver own sender kind handle = some (some r) →
      (s.acquire env own sender args).1.Grants own sender cloned r

/-- The sender names a key under which no entry is its own, or cloned by it for this call. -/
def NamesForeign (env : Nat → State sys → State sys) (s : State sys) (own : ι) (sender : UInt16)
    (cloned : List (ι × RawHandle)) (kind : MethodKind) (handle : RawHandle)
    (args : List (Param ι × DynHandle)) : Prop :=
  ((kind = .message ∨ kind = .destructor) ∧
    ∀ j, ¬((s.acquire env own sender args).1.arenas own).OwnedKey handle sender j) ∨
  ∃ peer arg, (Param.clone (some peer), arg) ∈ args ∧ ∀ j,
    ((s.arenas peer).map j).occupied = true → ((s.arenas peer).map j).key = arg.handle →
      ¬s.Entitled own sender cloned peer j

variable {cloned : List (ι × RawHandle)}

/-- What the method is given is the sender's, or was cloned for this call. -/
def Granted (env : Nat → State sys → State sys) (s : State sys) (own : ι) (sender : UInt16)
    (cloned : List (ι × RawHandle)) (args : List (Param ι × DynHandle)) (inv : Invocation sys) :
    Prop :=
  (∀ r ∈ inv.peers, s.Grants own sender cloned r) ∧
    ∀ r, inv.receiver = some r → (s.acquire env own sender args).1.Grants own sender cloned r

theorem Honest.granted (hhonest : Honest env s own sender cloned kind handle args)
    (h : (s.arm env own sender kind handle args leases).2 = .runs inv) :
    Granted env s own sender cloned args inv := by
  obtain ⟨-, hpeers, hreceiver⟩ := arm_runs h
  refine ⟨fun r hr => ?_, fun r hr => ?_⟩
  · obtain ⟨arg, harg, hkey, hget⟩ := mem_resolvePeers hpeers hr
    rw [← hkey] at hget
    have hgrants := hhonest.peers r.arena arg r.value harg hget
    rwa [hkey] at hgrants
  · rw [hr] at hreceiver
    by_cases hkind : kind = .destructor
    · exact hhonest.receiver hkind r hreceiver
    · obtain ⟨value, j, rfl, howned, hslot, hidle⟩ := receiver_owned hreceiver
      exact ⟨j, howned.1, howned.2.1, hidle hkind, hslot, .inl howned.2.2⟩

theorem Granted.honest (h : (s.arm env own sender kind handle args leases).2 = .runs inv)
    (hgranted : Granted env s own sender cloned args inv) :
    Honest env s own sender cloned kind handle args := by
  obtain ⟨-, hpeers, hreceiver⟩ := arm_runs h
  refine ⟨fun peer arg value harg hget => ?_, fun _ r hr => ?_⟩
  · obtain ⟨v, hv, hmem⟩ := resolvePeers_named hpeers harg
    cases hget.symm.trans hv
    exact hgranted.1 _ hmem
  · exact hgranted.2 r (some.inj (hreceiver.symm.trans hr))

theorem Granted.not_namesForeign
    (h : (s.arm env own sender kind handle args leases).2 = .runs inv)
    (hgranted : Granted env s own sender cloned args inv) :
    ¬ NamesForeign env s own sender cloned kind handle args := by
  obtain ⟨-, hpeers, hreceiver⟩ := arm_runs h
  rintro (⟨hkind, hnone⟩ | ⟨peer, arg, harg, hforeign⟩)
  · have hsome : ∃ r, inv.receiver = some r := by
      rcases hkind with rfl | rfl
      all_goals
        obtain ⟨value, -, heq⟩ := map_eq_some_iff.mp hreceiver
        exact ⟨_, heq.symm⟩
    obtain ⟨r, hr⟩ := hsome
    rw [hr] at hreceiver
    obtain ⟨value, j, -, howned, -⟩ := receiver_owned hreceiver
    exact hnone j howned
  · obtain ⟨value, -, hmem⟩ := resolvePeers_named hpeers harg
    obtain ⟨j, hocc, hkey, -, -, hentitled⟩ := hgranted.1 _ hmem
    exact hforeign j hocc hkey hentitled

/-! ## Messages -/

variable {methods : UInt8 → Option (Method ι)} {methodId : UInt8} {data : List UInt8}

/-- The method of the interface that a message is for, and its arguments. -/
structure Invokes (s : State sys) (own : ι) (sender : UInt16) (methods : UInt8 → Option (Method ι))
    (methodId : UInt8) (data : List UInt8) (kind : MethodKind) (handle : RawHandle)
    (args : List (Param ι × DynHandle)) : Prop where
  declared : ((s.arenas own).dispatchImplicit sys.postcard methodId data sender
    (sys.priorityFn own)).2 = none
  method : ∃ m v, methods methodId = some m ∧ m.decode data = some (handle, v) ∧
    m.kind = kind ∧ m.params.zip v.toList = args

theorem dispatch_of_invokes (h : Invokes s own sender methods methodId data kind handle args) :
    s.dispatch env own sender methods methodId data leases =
      s.arm env own sender kind handle args leases := by
  obtain ⟨hdeclared, m, v, hmethod, hdecode, rfl, rfl⟩ := h
  grind [dispatch]

theorem dispatch_runs (h : (s.dispatch env own sender methods methodId data leases).2 = .runs inv) :
    ∃ kind handle args, Invokes s own sender methods methodId data kind handle args := by
  rw [dispatch] at h
  split at h
  · cases h
  · next hdeclared =>
    split at h
    · cases h
    · next m hmethod =>
      split at h
      · cases h
      · next handle v hdecode =>
        exact ⟨m.kind, handle, _, by rw [hdeclared], m, v, hmethod, hdecode, rfl, rfl⟩

/-- Task 1 has a handle to a file system, which it has cloned for the server. -/
def mounted : State fsSystem := fsState [.alloc 5 1 0, .cloneHandle 1 1 7 0]

def getIn : Method FsArena where
  kind := .constructor
  params := [.clone (some .fileSystem)]
  decode := fun data => (Arena.varintCodec.takeHandle data).map fun handle =>
    (0, Vector.replicate 1 { serverId := 7, kind := 0x12, handle })

def fileMethods (methodId : UInt8) : Option (Method FsArena) :=
  if methodId = 0 then some getIn else none

end State
end Ipc
end Rcard
