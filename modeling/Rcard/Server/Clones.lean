/-
Clones that are passed to a method (`gen_handle_transfer_stmts`, `gen_peer_resolution`).

The client has the source make an entry for the target, and the dispatcher of the target looks the
value up under the new key.  Nobody releases that entry.  Each call leaves one more entry in the
arena for every clone that found a free one, until there is none.
-/
import Rcard.Server.Client

namespace Rcard

open List

/-! ## Entries in use -/

namespace Arena

variable {T : Type} {N : Nat} {x y : Arena T N}

def occupied (x : Arena T N) : Nat := (Finset.univ.filter fun j => (x.map j).occupied = true).card

theorem occupied_congr (h : ∀ j, (y.map j).occupied = (x.map j).occupied) :
    y.occupied = x.occupied := by
  rw [occupied, occupied]
  simp only [h]

theorem occupied_insert {j : Fin N} (hother : ∀ k, k ≠ j → y.map k = x.map k)
    (hfree : (x.map j).occupied = false) (hused : (y.map j).occupied = true) :
    y.occupied = x.occupied + 1 := by
  have hinsert : (Finset.univ.filter fun k => (y.map k).occupied = true) =
      insert j (Finset.univ.filter fun k => (x.map k).occupied = true) := by grind
  grind [occupied]

/-- Every entry in use is the same afterwards. -/
def Retains (x y : Arena T N) : Prop := ∀ j, (x.map j).occupied = true → y.map j = x.map j

section Clone

variable {handle : RawHandle} {owner : UInt16}

/-- The owner has an entry under the key that is not pending, and its value is there. -/
def Cloneable (x : Arena T N) (handle : RawHandle) (owner : UInt16) : Prop :=
  ∃ k, x.idleEntry handle owner = some k ∧ x.stale (x.map k) = false

theorem cloneHandle_of_not_cloneable (h : ¬ x.Cloneable handle owner) (newOwner : UInt16)
    (priority : Int8) :
    x.cloneHandle handle owner newOwner priority = (x, .error .invalidHandle) := by
  rw [cloneHandle]
  split
  · rfl
  · next k hk =>
    have hstale : x.stale (x.map k) = true := by
      by_contra hfalse
      exact h ⟨k, hk, Bool.eq_false_of_not_eq_true hfalse⟩
    exact if_pos hstale

/-- A clone that can be made finds the arena full, takes a free entry, or takes one in use. -/
theorem cloneHandle_of_cloneable (h : x.Cloneable handle owner) (newOwner : UInt16)
    (priority : Int8) :
    let out := x.cloneHandle handle owner newOwner priority
    out = (x, .error .arenaFull) ∨
      out.2.isOk ∧ (out.1.occupied = x.occupied + 1 ∨
        out.1.occupied = x.occupied ∧ ¬ x.Retains out.1) := by
  obtain ⟨k, hk, hfresh⟩ := h
  rw [cloneHandle, hk]
  dsimp only
  rw [if_neg (by rw [hfresh]; exact Bool.false_ne_true)]
  split
  · exact .inl rfl
  · cases hfree : x.freeEntry with
    | some j =>
      rw [entryFor, hfree]
      refine .inr ⟨rfl, .inl (occupied_insert (j := j) (fun m hm => cloneAt_map_of_ne hm ..)
        (freeEntry_some hfree) ?_)⟩
      rw [cloneAt_map_self]
      rfl
    | none =>
      rw [entryFor, hfree]
      cases hvictim : x.findEvictionVictim priority
          (some ((x.map k).slot, (x.map k).generation)) with
      | none => exact .inl rfl
      | some victim =>
        refine .inr ⟨rfl, .inr ⟨occupied_congr fun m => ?_, fun hkept => ?_⟩⟩
        · dsimp only [Option.map_some]
          by_cases hm : m = victim
          · rw [hm, freeEntry_none hfree victim, cloneAt_map_self]
            rfl
          · rw [cloneAt_map_of_ne hm, releaseEntry_map_of_ne x hm]
        · -- the victim was an entry of another slot or generation
          have hsame := hkept victim (freeEntry_none hfree victim)
          dsimp only [Option.map_some] at hsame
          rw [cloneAt_map_self] at hsame
          refine (findEvictionVictim_some hvictim).1.2.1 ⟨?_, ?_⟩
          · rw [← hsame]
            rfl
          · rw [← hsame]
            rfl

end Clone

end Arena

namespace Ipc

/-- Nobody else does anything. -/
def idle {ι : Type} {sys : System ι} : Nat → State sys → State sys := fun _ s => s

namespace State

variable {ι : Type} [DecidableEq ι] {sys : System ι} {s t : State sys} {a b : ι}

def occupied (s : State sys) (a : ι) : Nat := (s.arenas a).occupied

section Send

variable {β : Type}
  {f : ∀ a, Arena (sys.Resource a) (sys.size a) → Arena (sys.Resource a) (sys.size a) × β}
  {arg : DynHandle}

theorem send_arenas_of_ne (h : a ≠ b)
    (g : Arena (sys.Resource b) (sys.size b) → Arena (sys.Resource b) (sys.size b) × β) :
    (s.send idle b g).1.arenas a = s.arenas a := by
  by_cases halive : (s.tick idle).alive b = true
  · rw [send_of_alive halive]
    exact set_arenas_of_ne _ h _
  · rw [send_of_dead halive]
    rfl

theorem sendTo_arenas_of_ne (h : sys.route arg.serverId arg.kind ≠ some a) :
    (s.sendTo idle arg f).1.arenas a = s.arenas a := by
  rw [sendTo]
  split
  · rfl
  · next b hroute =>
    refine send_arenas_of_ne (fun hab => h ?_) _
    rw [hroute, hab]

end Send

/-! ## Clones -/

/-- The clone reaches the arena, and the client has an entry there to clone. -/
def Finds (s : State sys) (client : UInt16) (arg : DynHandle) (a : ι) : Prop :=
  sys.route arg.serverId arg.kind = some a ∧ s.alive a = true ∧
    (s.arenas a).Cloneable arg.handle client

section Clones

variable {client target : UInt16} {arg : DynHandle} {args : List (Param ι × DynHandle)}

theorem cloneFor_eq (h : sys.route arg.serverId arg.kind = some a) (halive : s.alive a = true)
    (target : UInt16) :
    s.cloneFor idle client target arg =
      let out := (s.arenas a).cloneHandle arg.handle client target (sys.priorityFn a target)
      ((s.tick idle).set a out.1, out.2.map fun handle => { arg with handle }) := by
  rw [cloneFor, sendTo, h]
  dsimp only
  have harena : (s.tick idle).arenas a = s.arenas a := rfl
  rw [send_of_alive (show (s.tick idle).alive a = true from halive), harena]
  rcases (s.arenas a).cloneHandle arg.handle client target (sys.priorityFn a target) with
    ⟨x, error | handle⟩
  · rfl
  · rfl

theorem cloneFor_of_not_finds (h : ¬ s.Finds client arg a) (target : UInt16) :
    (s.cloneFor idle client target arg).1.arenas a = s.arenas a ∧
      ((s.cloneFor idle client target arg).2 = .error .arenaFull →
        sys.route arg.serverId arg.kind ≠ some a) := by
  by_cases hroute : sys.route arg.serverId arg.kind = some a
  · by_cases halive : s.alive a = true
    · rw [cloneFor_eq hroute halive target,
        Arena.cloneHandle_of_not_cloneable fun hclone => h ⟨hroute, halive, hclone⟩]
      exact ⟨set_arenas_self .., fun herror => nomatch herror⟩
    · rw [cloneFor, sendTo, hroute]
      dsimp only
      rw [send_of_dead (show (s.tick idle).alive a ≠ true from halive)]
      exact ⟨rfl, fun herror => nomatch herror⟩
  · refine ⟨?_, fun _ => hroute⟩
    rw [cloneFor]
    split <;> next heq =>
      rw [← congrArg Prod.fst heq]
      exact sendTo_arenas_of_ne hroute

theorem cloneFor_of_finds (h : s.Finds client arg a) (target : UInt16) :
    let out := s.cloneFor idle client target arg
    out.2 = .error .arenaFull ∧ out.1.occupied a = s.occupied a ∨
      (∃ copy, out.2 = .ok copy) ∧ (out.1.occupied a = s.occupied a + 1 ∨
        out.1.occupied a = s.occupied a ∧ ¬ (s.arenas a).Retains (out.1.arenas a)) := by
  obtain ⟨hroute, halive, hclone⟩ := h
  rw [cloneFor_eq hroute halive target]
  dsimp only [occupied]
  rw [set_arenas_self]
  rcases Arena.cloneHandle_of_cloneable hclone target (sys.priorityFn a target) with
    hfull | ⟨hok, hgrown⟩
  · rw [hfull]
    exact .inl ⟨rfl, rfl⟩
  · refine .inr ⟨?_, hgrown⟩
    cases hresult : ((s.arenas a).cloneHandle arg.handle client target
        (sys.priorityFn a target)).2 with
    | error =>
      rw [hresult] at hok
      cases hok
    | ok handle => exact ⟨_, rfl⟩

theorem occupied_cloneFor (s : State sys) (client target : UInt16) (arg : DynHandle) :
    s.occupied a ≤ (s.cloneFor idle client target arg).1.occupied a := by
  by_cases h : s.Finds client arg a
  · have := cloneFor_of_finds h target
    grind
  · exact Nat.le_of_eq (congrArg Arena.occupied (cloneFor_of_not_finds h target).1.symm)

/-- The clones that are made for a call, each with the state it is made in. -/
def made (s : State sys) (client target : UInt16) :
    List (Param ι × DynHandle) → List (State sys × DynHandle)
  | [] => []
  | (.clone _, arg) :: args =>
    (s, arg) ::
      match s.cloneFor idle client target arg with
      | (_, .error _) => []
      | (s, .ok _) => s.made client target args
  | _ :: args => s.made client target args

/-- What the client and the server see of the clones of a call, once they are made. -/
structure Cloned (s : State sys) (client target : UInt16) (args : List (Param ι × DynHandle))
    (a : ι) : Prop where
  count : (s.cloneAll idle client target args).1.occupied a = s.occupied a
  kept : ∀ x ∈ s.made client target args,
    (x.1.arenas a).Retains ((x.1.cloneFor idle client target x.2).1.arenas a)
  room : ∀ arg, (s.cloneAll idle client target args).2 = .error (arg, .arenaFull) →
    sys.route arg.serverId arg.kind ≠ some a

theorem occupied_cloneAll (s : State sys) (client target : UInt16)
    (args : List (Param ι × DynHandle)) :
    s.occupied a ≤ (s.cloneAll idle client target args).1.occupied a := by
  induction args generalizing s with
  | nil => exact Nat.le_refl _
  | cons head args ih =>
    match head with
    | (.value, _) => exact ih s
    | (.move _, _) => exact ih s
    | (.clone peer, arg) =>
      have hone := occupied_cloneFor (a := a) s client target arg
      grind [cloneAll]

theorem map_eq_error {ε α β : Type} {x : Except ε α} {f : α → β} {e : ε} :
    x.map f = .error e ↔ x = .error e := by
  cases x with
  | error => exact ⟨fun h => by cases h; rfl, fun h => by cases h; rfl⟩
  | ok => exact ⟨nofun, nofun⟩

theorem cloneAll_of_not_finds
    (h : ∀ x ∈ s.made client target args, ¬ x.1.Finds client x.2 a) :
    (s.cloneAll idle client target args).1.arenas a = s.arenas a ∧
      Cloned s client target args a := by
  induction args generalizing s with
  | nil => exact ⟨rfl, rfl, fun x hx => (nomatch hx), fun arg herror => nomatch herror⟩
  | cons head args ih =>
    match head with
    | (.value, _) | (.move _, _) =>
      obtain ⟨hsame, hcount, hkept, hroom⟩ := ih h
      exact ⟨hsame, hcount, hkept, fun arg herror => hroom arg (map_eq_error.mp herror)⟩
    | (.clone peer, arg) =>
      rw [made] at h
      obtain ⟨hsame, hroom⟩ := cloneFor_of_not_finds (h _ mem_cons_self) target
      have hfirst : (s.arenas a).Retains ((s.cloneFor idle client target arg).1.arenas a) :=
        fun j _ => by rw [hsame]
      rcases hclone : s.cloneFor idle client target arg with ⟨t, error | copy⟩
      · rw [hclone] at hsame hroom
        have hall : s.cloneAll idle client target ((.clone peer, arg) :: args) =
            (t, .error (arg, error)) := by rw [cloneAll, hclone]
        refine ⟨by rw [hall]; exact hsame, by rw [hall]; exact congrArg Arena.occupied hsame,
          fun x hx => ?_, fun arg' herror => ?_⟩
        · rw [made, hclone] at hx
          cases mem_singleton.mp hx
          exact hfirst
        · rw [hall] at herror
          cases herror
          exact hroom rfl
      · rw [hclone] at h hsame
        obtain ⟨hrest, hcount, hkept, hfull⟩ := ih fun x hx => h x (mem_cons_of_mem _ hx)
        have hall : (s.cloneAll idle client target ((.clone peer, arg) :: args)).1 =
            (t.cloneAll idle client target args).1 := by rw [cloneAll, hclone]
        refine ⟨by rw [hall, hrest]; exact hsame, ?_, fun x hx => ?_, fun arg' herror => ?_⟩
        · rw [hall, hcount]
          exact congrArg Arena.occupied hsame
        · rw [made, hclone] at hx
          rcases mem_cons.mp hx with rfl | hx
          · exact hfirst
          · exact hkept x hx
        · rw [cloneAll, hclone] at herror
          exact hfull arg' (map_eq_error.mp herror)

/-- A clone that finds an entry shows: in the number of entries, in an entry that is another, or
in the error. -/
theorem Cloned.not_finds (h : Cloned s client target args a) :
    ∀ x ∈ s.made client target args, ¬ x.1.Finds client x.2 a := by
  induction args generalizing s with
  | nil => exact fun x hx => nomatch hx
  | cons head args ih =>
    obtain ⟨hcount, hkept, hroom⟩ := h
    match head with
    | (.value, _) | (.move _, _) =>
      exact ih ⟨hcount, hkept, fun arg herror => hroom arg (map_eq_error.mpr herror)⟩
    | (.clone peer, arg) =>
      rw [made] at hkept ⊢
      rw [cloneAll] at hcount hroom
      have hone := occupied_cloneFor (a := a) s client target arg
      have hfirst := hkept _ mem_cons_self
      have hfinds := fun h : s.Finds client arg a => cloneFor_of_finds h target
      rcases hclone : s.cloneFor idle client target arg with ⟨t, error | copy⟩
      · rw [hclone] at hcount hroom hfirst hfinds
        intro x hx hlive
        cases mem_singleton.mp hx
        rcases hfinds hlive with ⟨herror, -⟩ | ⟨⟨_, hok⟩, -⟩
        · cases herror
          exact hroom arg rfl hlive.1
        · cases hok
      · rw [hclone] at hcount hroom hfirst hfinds hkept hone
        have hmono := occupied_cloneAll (a := a) t client target args
        dsimp only at hcount hmono hone
        intro x hx
        rcases mem_cons.mp hx with rfl | hx
        · intro hlive
          rcases hfinds hlive with ⟨herror, -⟩ | ⟨-, hgrown | ⟨-, hother⟩⟩
          · cases herror
          · dsimp only at hgrown
            omega
          · exact hother hfirst
        · exact ih ⟨by omega, fun y hy => hkept y (mem_cons_of_mem _ hy),
            fun arg' herror => hroom arg' (map_eq_error.mpr herror)⟩ x hx

end Clones

/-! ## The rest of the call -/

/-- No message about the handle goes to the arena. -/
def Apart (sys : System ι) (own a : ι) (dyn : Bool) (arg : DynHandle) : Prop :=
  sys.route arg.serverId arg.kind ≠ some a ∧ (dyn = false → a ≠ own)

variable {own : ι} {client target sender : UInt16} {args : List (Param ι × DynHandle)}

omit [DecidableEq ι] in
theorem foldl_arenas {α : Type} {f : State sys → α → State sys} {l : List α}
    (h : ∀ s, ∀ x ∈ l, (f s x).arenas a = s.arenas a) : (l.foldl f s).arenas a = s.arenas a := by
  induction l generalizing s with
  | nil => rfl
  | cons x l ih =>
    grind

theorem prepare_arenas {done moved : List DynHandle}
    (h : ∀ arg ∈ done ++ moved, sys.route arg.serverId arg.kind ≠ some a) :
    (s.prepare idle client target done moved).1.arenas a = s.arenas a := by
  induction moved generalizing s done with
  | nil => rfl
  | cons arg moved ih =>
    have harg := h arg (mem_append_right done mem_cons_self)
    rw [prepare]
    dsimp only
    split
    · refine (ih fun x hx => h x ?_).trans (sendTo_arenas_of_ne harg)
      rwa [append_cons]
    · refine (foldl_arenas fun s x hx => sendTo_arenas_of_ne (h x ?_)).trans
        ((foldl_arenas fun s x hx => sendTo_arenas_of_ne (h x ?_)).trans (sendTo_arenas_of_ne harg))
      · exact mem_append_right done (mem_cons_of_mem arg (mem_reverse.mp hx))
      · exact mem_append_left _ hx

theorem acquireOne_arenas {dyn : Bool} {arg : DynHandle} (h : Apart sys own a dyn arg) :
    (s.acquireOne idle own sender dyn arg).1.arenas a = s.arenas a := by
  rw [acquireOne]
  split
  · split
    · rfl
    · next b hroute =>
      refine send_arenas_of_ne (fun hab => h.1 ?_) _
      rw [hroute, hab]
  · next hdyn => exact set_arenas_of_ne _ (h.2 (Bool.eq_false_of_not_eq_true hdyn)) _

theorem acquire_arenas (h : ∀ dyn arg, (Param.move dyn, arg) ∈ args → Apart sys own a dyn arg) :
    (s.acquire idle own sender args).1.arenas a = s.arenas a := by
  induction args generalizing s with
  | nil => rfl
  | cons head args ih =>
    have hrest := fun dyn arg hmem => h dyn arg (mem_cons_of_mem head hmem)
    match head with
    | (.value, _) => exact ih hrest
    | (.clone _, _) => exact ih hrest
    | (.move dyn, arg) =>
      exact (ih hrest).trans (acquireOne_arenas (h dyn arg mem_cons_self))

theorem release_arenas {moved : Acquired} (h : Apart sys own a moved.dyn moved.arg) :
    (s.release idle own moved).arenas a = s.arenas a := by
  rw [release]
  split
  · split
    · rfl
    · next b hroute =>
      refine send_arenas_of_ne (fun hab => h.1 ?_) _
      rw [hroute, hab]
  · next hdyn => exact set_arenas_of_ne _ (h.2 (Bool.eq_false_of_not_eq_true hdyn)) _

theorem check_arenas {before moved : List Acquired}
    (h : ∀ x ∈ before ++ moved, Apart sys own a x.dyn x.arg) :
    (s.check idle own before moved).1.arenas a = s.arenas a := by
  induction moved generalizing before with
  | nil => rfl
  | cons x moved ih =>
    rw [check]
    split
    · refine ih fun y hy => h y ?_
      rwa [append_cons]
    · refine foldl_arenas fun s y hy => ?_
      split
      · exact release_arenas (h y (mem_append_left _ hy))
      · rfl

theorem enter_arenas {kind : MethodKind} {handle : RawHandle} {peers : List (Received sys)}
    (h : a = own → kind ≠ .destructor) :
    (s.enter own sender kind handle peers).1.arenas a = s.arenas a := by
  cases kind with
  | constructor | staticMessage => rfl
  | message =>
    rw [enter]
    split <;> rfl
  | destructor =>
    have hne : a ≠ own := fun hown => h hown rfl
    rw [enter]
    dsimp only
    split
    · exact set_arenas_of_ne _ hne _
    · exact set_arenas_of_ne _ hne _

theorem arm_arenas {kind : MethodKind} {handle : RawHandle} {leases : Bool}
    (hmoves : ∀ dyn arg, (Param.move dyn, arg) ∈ args → Apart sys own a dyn arg)
    (hkind : a = own → kind ≠ .destructor) :
    (s.arm idle own sender kind handle args leases).1.arenas a = s.arenas a := by
  have hcheck : ((s.acquire idle own sender args).1.check idle own []
      (s.acquire idle own sender args).2).1.arenas a = s.arenas a :=
    (check_arenas fun x hx => hmoves _ _ (mem_moves.mp (mem_acquire hx))).trans
      (acquire_arenas hmoves)
  rw [arm]
  split
  · rfl
  · split
    · rfl
    · dsimp only
      split
      · exact (enter_arenas hkind).trans hcheck
      · exact hcheck

/-- A call that does nothing to the arena but make clones in it: no handle of the arena is moved or
destroyed, and a method of the arena's own resource keeps the entries. -/
structure Aside (c : Call sys) (a : ι) : Prop where
  moves : ∀ dyn arg, (Param.move dyn, arg) ∈ c.args → Apart sys c.own a dyn arg
  kind : a = c.own → c.kind ≠ .destructor
  effect : a = c.own → ∀ inv x, (c.effect inv x).map = x.map

variable {c : Call sys}

theorem Aside.map_deliver (h : Aside c a)
    (hmoves : ∀ dyn arg, (Param.move dyn, arg) ∈ args → Apart sys c.own a dyn arg) :
    ((s.deliver idle c args).1.arenas a).map = (s.arenas a).map := by
  have harm : (s.arm idle c.own c.client c.kind c.handle args c.leases).1.arenas a = s.arenas a :=
    arm_arenas hmoves h.kind
  rw [deliver]
  split
  · exact congrArg Arena.map
      (acquire_arenas fun dyn arg hmem => hmoves dyn arg (mem_of_mem_take hmem))
  · split
    · next t inv heq =>
      rw [heq] at harm
      refine Eq.trans ?_ (congrArg Arena.map harm)
      by_cases hown : a = c.own
      · subst hown
        rw [set_arenas_self]
        exact h.effect rfl inv _
      · rw [set_arenas_of_ne _ hown]
    · next heq =>
      rw [heq] at harm
      exact congrArg Arena.map harm

theorem Aside.map_transfer (h : Aside c a)
    (hmoves : ∀ dyn arg, (Param.move dyn, arg) ∈ args → Apart sys c.own a dyn arg) :
    ((s.transfer idle c args).1.arenas a).map = (s.arenas a).map := by
  have hprepare : (s.prepare idle c.client c.target [] ((Ipc.moves args).map Prod.snd)).1.arenas a =
      s.arenas a := by
    refine prepare_arenas fun arg harg => ?_
    obtain ⟨⟨dyn, _⟩, hmem, rfl⟩ := mem_map.mp harg
    exact (hmoves dyn _ (mem_moves.mp hmem)).1
  rw [transfer]
  split
  · next heq =>
    rw [heq] at hprepare
    exact congrArg Arena.map hprepare
  · next t heq =>
    rw [heq] at hprepare
    dsimp only
    split
    · exact (h.map_deliver hmoves).trans (congrArg Arena.map hprepare)
    · exact congrArg Arena.map hprepare

/-- A call leaves the entries as its clones have left them. -/
theorem Aside.map_call (h : Aside c a) : ((s.call idle c).1.arenas a).map =
    ((s.cloneAll idle c.client c.target c.args).1.arenas a).map := by
  rw [call]
  split
  · next t arg error heq =>
    rw [heq]
    refine congrArg Arena.map (foldl_arenas fun s arg harg => ?_)
    obtain ⟨⟨dyn, _⟩, hmem, rfl⟩ := mem_map.mp (mem_reverse.mp harg)
    exact sendTo_arenas_of_ne (h.moves dyn _ (mem_moves.mp hmem)).1
  · next t args' heq =>
    rw [heq]
    refine h.map_transfer fun dyn arg hmem => h.moves dyn arg ?_
    have hresult : (s.cloneAll idle c.client c.target c.args).2 = .ok args' := by rw [heq]
    rw [← mem_moves, ← moves_cloneAll hresult, mem_moves]
    exact hmem

theorem transfer_ne_cloneFailed (arg : DynHandle) (error : CloneError) :
    (s.transfer idle c args).2 ≠ .cloneFailed arg error := by
  intro h
  rw [transfer] at h
  split at h
  · cases h
  · dsimp only at h
    split at h
    · rw [deliver] at h
      split at h
      · cases h
      · split at h <;> cases h
    · cases h

theorem call_cloneFailed_iff {arg : DynHandle} {error : CloneError} :
    (s.call idle c).2 = .cloneFailed arg error ↔
      (s.cloneAll idle c.client c.target c.args).2 = .error (arg, error) := by
  rw [call]
  split
  · next heq =>
    rw [heq]
    exact ⟨fun h => by cases h; rfl, fun h => by cases h; rfl⟩
  · next heq =>
    rw [heq]
    exact iff_of_false (transfer_ne_cloneFailed arg error) nofun

/-- The call has as many entries of the arena in use afterwards as before, and they are the same.
None of its clones takes the place of another entry or finds the arena full. -/
structure Harmless (s : State sys) (c : Call sys) (a : ι) : Prop where
  count : (s.call idle c).1.occupied a = s.occupied a
  entries : (s.arenas a).Retains ((s.call idle c).1.arenas a)
  clones : ∀ x ∈ s.made c.client c.target c.args,
    (x.1.arenas a).Retains ((x.1.cloneFor idle c.client c.target x.2).1.arenas a)
  room : ∀ arg, (s.call idle c).2 = .cloneFailed arg .arenaFull →
    sys.route arg.serverId arg.kind ≠ some a

theorem Aside.harmless_iff (h : Aside c a) : Harmless s c a ↔
    ∀ x ∈ s.made c.client c.target c.args, ¬ x.1.Finds c.client x.2 a := by
  have hmap := h.map_call (s := s)
  have hcount : (s.call idle c).1.occupied a =
      (s.cloneAll idle c.client c.target c.args).1.occupied a :=
    Arena.occupied_congr fun j => by rw [hmap]
  constructor
  · rintro ⟨hsame, -, hkept, hroom⟩
    exact Cloned.not_finds ⟨hcount.symm.trans hsame, hkept,
      fun arg herror => hroom arg (call_cloneFailed_iff.mpr herror)⟩
  · intro hnone
    obtain ⟨hsame, hcloned⟩ := cloneAll_of_not_finds hnone
    refine ⟨hcount.trans hcloned.count, fun j _ => ?_, hcloned.kept,
      fun arg herror => hcloned.room arg (call_cloneFailed_iff.mp herror)⟩
    rw [hmap, hsame]

/-! ## Sequences of calls -/

def run (s : State sys) (calls : List (Call sys)) : State sys :=
  calls.foldl (fun s c => (s.call idle c).1) s

/-- The calls of a sequence are harmless to an arena exactly if no clone that any of them makes
finds an entry there. -/
theorem calls_harmless_iff {calls : List (Call sys)} (h : ∀ c ∈ calls, Aside c a) :
    (∀ n c, calls[n]? = some c → Harmless (s.run (calls.take n)) c a) ↔
      ∀ n c, calls[n]? = some c →
        ∀ x ∈ (s.run (calls.take n)).made c.client c.target c.args,
          ¬ x.1.Finds c.client x.2 a := by
  refine forall_congr' fun n => forall_congr' fun c => forall_congr' fun hc => ?_
  exact (h c (mem_of_getElem? hc)).harmless_iff

/-! ## Files of a file system -/

/-- Task 1 has mounted a file system. -/
def oneMount : State fsSystem := fsState [.alloc 5 1 0]

/-- `get_in`, by task 1, of a file that there is not. -/
def openMissing (key : RawHandle) : Call fsSystem where
  client := 1
  own := .file
  kind := .constructor
  handle := 0
  args := [(.clone (some .fileSystem), { serverId := 7, kind := 0x12, handle := key })]
  leases := true
  dies := none
  effect := fun _ arena => arena

/-- Task 2 has a file open in it. -/
def oneFile : State fsSystem :=
  oneMount.set .file ((oneMount.arenas .file).run [.alloc (3 : Nat) 2 0])

/-- The clones fill the arena of file systems, and are harmless to that of files. -/
theorem calls_harmless_iff_files :
    (oneFile.run (List.replicate 4 (openMissing 1))).occupied .fileSystem = 4 ∧
    ∀ n c, (List.replicate 4 (openMissing 1))[n]? = some c →
      Harmless (oneFile.run ((List.replicate 4 (openMissing 1)).take n)) c .file := by
  have haside : ∀ c ∈ List.replicate 4 (openMissing 1), Aside c .file := by
    intro c hc
    rw [eq_of_mem_replicate hc]
    exact ⟨fun dyn arg hmem => (by cases mem_singleton.mp hmem), fun _ => nofun,
      fun _ inv x => rfl⟩
  refine ⟨by decide +kernel, (calls_harmless_iff haside).mpr fun n c hc x hx hfinds => ?_⟩
  rw [eq_of_mem_replicate (mem_of_getElem? hc)] at hx
  have harg : x.2 = { serverId := 7, kind := 0x12, handle := 1 } := by
    rw [openMissing, made] at hx
    rcases mem_cons.mp hx with rfl | hx
    · rfl
    · split at hx <;> cases hx
  have hroute := hfinds.1
  rw [harg] at hroute
  exact absurd hroute (by decide)

/-- Three calls take the three entries that are free, and the fourth finds the arena full. -/
theorem clones_fill_arena :
    (∀ n < 4, (oneMount.run (List.replicate n (openMissing 1))).occupied .fileSystem = n + 1) ∧
      ((oneMount.run (List.replicate 3 (openMissing 1))).call idle (openMissing 1)).2.cloneError =
        some .arenaFull := by
  decide +kernel

end State
end Ipc
end Rcard
