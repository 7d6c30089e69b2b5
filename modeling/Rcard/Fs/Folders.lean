/-
Listing folders (`FolderIterator` in `sysmodule/fs`).

The folders that are opened with one path share one directory state of littlefs, and so do all
their iterators: making an iterator does not rewind it, and every `next` moves it on for all.  What
the iterators read together is the directory, each entry once, so one of them reads all of it only
if the others read nothing.
-/
import Mathlib.Data.List.Basic
import Rcard.Fs.State

namespace Rcard.Fs

open List Function

/-- `lfs_info`. -/
structure LfsInfo where
  name : List UInt8
  size : UInt32
  type : UInt8
  deriving DecidableEq, Repr

inductive EntryType where
  | file
  | directory
  deriving DecidableEq, Repr

structure DirEntry where
  name : List UInt8
  size : UInt32
  entryType : EntryType
  deriving DecidableEq, Repr

/-- Of a name, up to its first zero, at most 31 bytes are returned. -/
def dirEntry (info : LfsInfo) : DirEntry where
  name := (info.name.takeWhile (· ≠ 0)).take 31
  size := info.size
  entryType := if info.type = 2 then .directory else .file

/-- `lfs_dir_t`: the entries of the directory, and the position of the next one. -/
structure LfsDir where
  entries : List LfsInfo
  pos : Nat

def LfsDir.read (d : LfsDir) : Option LfsInfo × LfsDir :=
  match d.entries[d.pos]? with
  | some info => (some info, { d with pos := d.pos + 1 })
  | none => (none, d)

def LfsDir.AtEnd (d : LfsDir) : Prop := d.entries.length ≤ d.pos

/-- The filesystem state with the `lfs_dir_t` of each directory slot. -/
structure Dirs where
  st : State
  dir : Nat → LfsDir

/-- What a `next` returned, by the iterator of this number. -/
structure Read where
  slot : Nat
  iterator : Nat
  entry : DirEntry
  deriving DecidableEq, Repr

inductive FolderEvent where
  /-- Anything else, with what is in the directory if one is opened. -/
  | other (e : Event) (listing : List LfsInfo)
  | next (i : Nat)

namespace Dirs

def next (d : Dirs) (it : FolderIterator) : Dirs × Option DirEntry :=
  let slot := d.st.fs.slots .folder it.slot
  if !slot.occupied || slot.generation ≠ it.generation then (d, none)
  else
    match d.st.fs.mounts it.fsId with
    | none => (d, none)
    | some _ =>
      let (info, dir) := (d.dir it.slot).read
      (⟨d.st.next it, update d.dir it.slot dir⟩, info.map dirEntry)

def generation (d : Dirs) (j : Nat) : Nat := (d.st.fs.slots .folder j).generation

/-- A directory is opened where the generation of its slot changes. -/
def step (d : Dirs) : FolderEvent → Option (Dirs × List Read)
  | .other e listing => do
    let st ← d.st.step e
    let same j := (st.fs.slots .folder j).generation = d.generation j
    return (⟨st, fun j => if same j then d.dir j else ⟨listing, 0⟩⟩, [])
  | .next i => do
    let it ← d.st.iterators[i]?
    let (d, entry) := d.next it
    return (d, entry.toList.map (⟨it.slot, i, ·⟩))

def run : Dirs → List FolderEvent → Option (Dirs × List Read)
  | d, [] => some (d, [])
  | d, e :: es => do
    let (d, reads) ← d.step e
    let (d, rest) ← run d es
    return (d, reads ++ rest)

/-- The folder of the iterator is open, on a filesystem that is mounted. -/
def Finds (d : Dirs) (it : FolderIterator) : Prop :=
  (d.st.fs.slots .folder it.slot).occupied = true ∧ d.generation it.slot = it.generation ∧
    (d.st.fs.mounts it.fsId).isSome = true

/-- If it is a `next` of another iterator on this slot that finds its folder, the directory is at
its end before. -/
def Leaves (d : Dirs) (j i : Nat) : FolderEvent → Prop
  | .other _ _ => True
  | .next k => ∀ it ∈ d.st.iterators[k]?, it.slot = j → d.Finds it → k = i ∨ (d.dir j).AtEnd

/-- The directory in this slot is left to the iterator of this number. -/
def LeftTo (j i : Nat) : Dirs → List FolderEvent → Prop
  | _, [] => True
  | d, e :: es =>
    match d.step e with
    | some (d', _) => d.Leaves j i e ∧ LeftTo j i d' es
    | none => True

/-- The directory in this slot is not opened again. -/
def StaysOpen (j : Nat) : Dirs → List FolderEvent → Prop
  | _, [] => True
  | d, e :: es =>
    match d.step e with
    | some (d', _) => d'.generation j = d.generation j ∧ StaysOpen j d' es
    | none => True

end Dirs

/-- What has been read of a directory. -/
def LfsDir.done (d : LfsDir) : List DirEntry := (d.entries.take d.pos).map dirEntry

theorem LfsDir.done_read (d : LfsDir) :
    d.read.2.entries = d.entries ∧ d.read.2.done = d.done ++ (d.read.1.map dirEntry).toList := by
  unfold LfsDir.read
  cases hinfo : d.entries[d.pos]? with
  | none => exact ⟨rfl, (append_nil _).symm⟩
  | some info =>
    refine ⟨rfl, ?_⟩
    rw [done, take_add_one, hinfo, map_append]
    rfl

/-- The entries that were read from one slot, by any iterator. -/
def readFrom (j : Nat) (reads : List Read) : List DirEntry :=
  (reads.filter (·.slot = j)).map (·.entry)

theorem readFrom_append (j : Nat) (a b : List Read) :
    readFrom j (a ++ b) = readFrom j a ++ readFrom j b := by
  rw [readFrom, filter_append, map_append]
  rfl

section Runs

variable {d d' : Dirs} {j : Nat} {reads : List Read}

/-- The directory in the slot is the same, and has moved on by what was read. -/
def Dirs.Reads (d d' : Dirs) (j : Nat) (reads : List Read) : Prop :=
  (d'.dir j).entries = (d.dir j).entries ∧ (d'.dir j).done = (d.dir j).done ++ readFrom j reads

theorem next_reads (d : Dirs) (it : FolderIterator) (i j : Nat) :
    d.Reads (d.next it).1 j ((d.next it).2.toList.map (⟨it.slot, i, ·⟩)) := by
  have hsame : (d.dir j).done = (d.dir j).done ++ readFrom j [] := (append_nil _).symm
  unfold Dirs.Reads Dirs.next
  dsimp only
  split
  · exact ⟨rfl, hsame⟩
  · split
    · exact ⟨rfl, hsame⟩
    · obtain ⟨hentries, hdone⟩ := (d.dir it.slot).done_read
      dsimp only
      by_cases hj : it.slot = j
      · subst hj
        rw [update_self]
        refine ⟨hentries, hdone.trans ?_⟩
        cases (d.dir it.slot).read.1 with
        | none => rfl
        | some info => simp [readFrom]
      · rw [update_of_ne (Ne.symm hj)]
        refine ⟨rfl, ?_⟩
        cases (d.dir it.slot).read.1 with
        | none => exact hsame
        | some info => simp [readFrom, hj]

theorem step_reads {e : FolderEvent} (h : d.step e = some (d', reads))
    (hsame : d'.generation j = d.generation j) : d.Reads d' j reads := by
  cases e with
  | other e listing =>
    obtain ⟨st, -, heq⟩ := Option.bind_eq_some_iff.mp h
    cases heq
    have hdir : (if (st.fs.slots .folder j).generation = d.generation j then d.dir j
      else ⟨listing, 0⟩) = d.dir j := if_pos hsame
    exact ⟨congrArg LfsDir.entries hdir, (congrArg LfsDir.done hdir).trans (append_nil _).symm⟩
  | next i =>
    obtain ⟨it, -, heq⟩ := Option.bind_eq_some_iff.mp h
    cases heq
    exact next_reads d it i j

theorem run_reads {es : List FolderEvent} (h : d.run es = some (d', reads))
    (hstays : Dirs.StaysOpen j d es) : d.Reads d' j reads := by
  induction es generalizing d reads with
  | nil =>
    cases h
    exact ⟨rfl, (append_nil _).symm⟩
  | cons e es ih =>
    obtain ⟨⟨d₁, reads₁⟩, hstep, hrest⟩ := Option.bind_eq_some_iff.mp h
    obtain ⟨⟨d₂, reads₂⟩, hrun, heq⟩ := Option.bind_eq_some_iff.mp hrest
    cases heq
    rw [Dirs.StaysOpen, hstep] at hstays
    obtain ⟨hsame, hstays⟩ := hstays
    obtain ⟨hentries₁, hdone₁⟩ := step_reads hstep hsame
    obtain ⟨hentries₂, hdone₂⟩ := ih hrun hstays
    exact ⟨hentries₂.trans hentries₁, by rw [hdone₂, hdone₁, readFrom_append, append_assoc]⟩

theorem next_isSome_iff (d : Dirs) (it : FolderIterator) :
    (d.next it).2.isSome ↔ d.Finds it ∧ ¬ (d.dir it.slot).AtEnd := by
  have hread : (d.dir it.slot).read.1.isSome ↔ ¬ (d.dir it.slot).AtEnd := by
    rw [LfsDir.AtEnd, ← getElem?_eq_none_iff, LfsDir.read]
    cases (d.dir it.slot).entries[(d.dir it.slot).pos]? <;> simp
  rw [← hread, Dirs.Finds, Dirs.generation, Dirs.next]
  dsimp only
  by_cases hslot : (d.st.fs.slots .folder it.slot).occupied = true ∧
      (d.st.fs.slots .folder it.slot).generation = it.generation
  · cases hmount : d.st.fs.mounts it.fsId <;> simp [hslot]
  · rw [if_pos (by simpa [imp_iff_or_not, or_comm] using hslot)]
    simp only [Option.isSome_none, Bool.false_eq_true, false_iff]
    exact fun h => hslot ⟨h.1.1, h.1.2.1⟩

theorem done_of_next_none {it : FolderIterator} (hfinds : d.Finds it) (h : (d.next it).2 = none) :
    (d.dir it.slot).done = (d.dir it.slot).entries.map dirEntry := by
  have hend : (d.dir it.slot).AtEnd := by
    by_contra hmore
    rw [← Option.not_isSome_iff_eq_none, next_isSome_iff] at h
    exact h ⟨hfinds, hmore⟩
  rw [LfsDir.done, take_of_length_le hend]

theorem step_leaves {e : FolderEvent} (h : d.step e = some (d', reads)) (i : Nat) :
    (∀ r ∈ reads, r.slot = j → r.iterator = i) ↔ d.Leaves j i e := by
  cases e with
  | other e listing =>
    obtain ⟨st, -, heq⟩ := Option.bind_eq_some_iff.mp h
    cases heq
    simp [Dirs.Leaves]
  | next k =>
    obtain ⟨it, hit, heq⟩ := Option.bind_eq_some_iff.mp h
    have hreads : reads = (d.next it).2.toList.map (⟨it.slot, k, ·⟩) :=
      (congrArg Prod.snd (Option.some.inj heq)).symm
    have hone : d.Leaves j i (.next k) ↔ (it.slot = j → (d.next it).2.isSome → k = i) := by
      rw [Dirs.Leaves, hit, next_isSome_iff]
      grind
    rw [hone, hreads]
    cases (d.next it).2 <;> simp

theorem run_leftTo {es : List FolderEvent} (h : d.run es = some (d', reads)) (i : Nat) :
    (∀ r ∈ reads, r.slot = j → r.iterator = i) ↔ Dirs.LeftTo j i d es := by
  induction es generalizing d reads with
  | nil =>
    cases h
    simp [Dirs.LeftTo]
  | cons e es ih =>
    obtain ⟨⟨d₁, reads₁⟩, hstep, hrest⟩ := Option.bind_eq_some_iff.mp h
    obtain ⟨⟨d₂, reads₂⟩, hrun, heq⟩ := Option.bind_eq_some_iff.mp hrest
    cases heq
    rw [Dirs.LeftTo, hstep]
    dsimp only
    rw [← step_leaves hstep, ← ih hrun, forall_mem_append]

/-- What is read from a slot is all of one iterator's only if no other reads from it. -/
theorem readFrom_filter_eq_iff (reads : List Read) (j i : Nat) :
    readFrom j (reads.filter (·.iterator = i)) = readFrom j reads ↔
      ∀ r ∈ reads, r.slot = j → r.iterator = i := by
  have hsub : (reads.filter (·.iterator = i)).filter (·.slot = j) <+ reads.filter (·.slot = j) :=
    filter_sublist.filter _
  constructor
  · intro heq r hr hslot
    have hlen := congrArg length heq
    rw [readFrom, readFrom, length_map, length_map] at hlen
    have hmem : r ∈ reads.filter (·.slot = j) := mem_filter.mpr ⟨hr, decide_eq_true hslot⟩
    rw [← hsub.eq_of_length hlen] at hmem
    exact of_decide_eq_true (mem_filter.mp (mem_filter.mp hmem).1).2
  · intro honly
    rw [readFrom, filter_filter, readFrom]
    refine congrArg _ (filter_congr fun r hr => ?_)
    by_cases hslot : r.slot = j
    · rw [decide_eq_true (honly r hr hslot), Bool.and_true]
    · rw [decide_eq_false hslot, Bool.false_and]

/-- From the opening of a directory on, whatever folders and iterators there are and however their
calls are interleaved, an iterator that comes to the end while the directory stays open has
returned every entry once, in order, exactly if the directory is at its end whenever another
iterator asks for the next. -/
theorem listing_complete_iff (es : List FolderEvent) (it : FolderIterator) (i : Nat)
    (hopened : (d.dir it.slot).pos = 0) (hrun : d.run es = some (d', reads))
    (hstays : Dirs.StaysOpen it.slot d es) (hfinds : d'.Finds it) (hend : (d'.next it).2 = none) :
    readFrom it.slot (reads.filter (·.iterator = i)) = (d.dir it.slot).entries.map dirEntry ↔
      Dirs.LeftTo it.slot i d es := by
  obtain ⟨hentries, hdone⟩ := run_reads hrun hstays
  have hall : readFrom it.slot reads = (d.dir it.slot).entries.map dirEntry := by
    rw [← hentries, ← done_of_next_none hfinds hend, hdone, LfsDir.done, hopened]
    rfl
  rw [← run_leftTo hrun, ← hall, readFrom_filter_eq_iff]

end Runs

/-- A folder is opened and two iterators are made. -/
def twoIterators : List FolderEvent :=
  [.other (.mount [0]) [], .other (.openIn .folder ⟨0, 0⟩ [97] 0) [⟨[98], 1, 1⟩, ⟨[99], 2, 1⟩],
    .other (.iter ⟨.folder, 0, some 0⟩) [], .other (.iter ⟨.folder, 0, some 0⟩) []]

def noDirs : Dirs := ⟨.start, fun _ => ⟨[], 0⟩⟩

theorem listing_complete_iff_alone : ∃ d reads d' reads',
    noDirs.run twoIterators = some (d, reads) ∧ d.run [.next 0, .next 0] = some (d', reads') ∧
      readFrom 0 (reads'.filter (·.iterator = 0)) = (d.dir 0).entries.map dirEntry := by
  refine ⟨_, _, _, _, rfl, rfl, ?_⟩
  refine (listing_complete_iff [.next 0, .next 0] ⟨0, 0, 1, some 0⟩ 0 ?_ rfl ?_ ?_ ?_).mpr ?_
  · rfl
  · exact ⟨rfl, rfl, trivial⟩
  · exact ⟨rfl, rfl, rfl⟩
  · rfl
  · exact ⟨fun _ _ _ _ => .inl rfl, fun _ _ _ _ => .inl rfl, trivial⟩

/-- Two iterators that take turns get one of the two entries each. -/
theorem iterators_share_entries : ∃ d reads,
    noDirs.run (twoIterators ++ [.next 0, .next 1]) = some (d, reads) ∧
      readFrom 0 (reads.filter (·.iterator = 0)) = [⟨[98], 1, .file⟩] ∧
      d.st.iterators.map (fun it => (d.next it).2) = [none, none] ∧
      (d.dir 0).entries.map dirEntry = [⟨[98], 1, .file⟩, ⟨[99], 2, .file⟩] :=
  ⟨_, _, rfl, rfl, rfl, rfl⟩

end Rcard.Fs
