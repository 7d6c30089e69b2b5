/-
Access to hibernated memory (`sysmodule/region_hibernation`, the supervisor's handlers for
it, and the kernel operations behind them).

The guard transfers a range in chunks.  For each chunk it asks the supervisor, which asks
the kernel and answers with the number of bytes copied, as four bytes in its reply.  The
guard takes the length of the reply for that number.  So each chunk counts as four bytes:
the first one that is longer ends the transfer, and one that is shorter is counted as more
than it is.
-/
import Mathlib.Data.Nat.Bitwise
import Rcard.Lib.Le
import Rcard.Lib.Mem

namespace Rcard.Hibernation

open List Mem

/-! ## The kernel -/

structure Region where
  base : Nat
  size : Nat
  active : Bool
  deriving DecidableEq, Repr

def Region.endAddr (r : Region) : Nat := (r.base + r.size) % 2 ^ 32

/-- The end of the span is computed with a check, unlike that of the region. -/
def Region.containsSpan (r : Region) (offset length : Nat) : Bool :=
  r.base ≤ offset && (length + offset < 2 ^ 32 && length + offset ≤ r.endAddr)

structure Machine where
  regions : List Region
  mem : Nat → UInt8

def Machine.hibernated (m : Machine) (addr len : Nat) : Bool :=
  m.regions.any fun r => r.active && r.containsSpan addr len

def codeNotHibernated : Nat := 1

/-- The bytes copied into a lease of `leaseLen` bytes, or the response code. -/
def readHibernatedRegion (m : Machine) (addr len leaseLen : Nat) : Except Nat (List UInt8) :=
  if m.hibernated addr len then .ok (slice m.mem addr (min len leaseLen))
  else .error codeNotHibernated

def writeHibernatedRegion (m : Machine) (addr len : Nat) (src : List UInt8) :
    Except Nat (Machine × Nat) :=
  let copyLen := min len src.length
  if m.hibernated addr len then
    .ok ({ m with mem := write m.mem addr (src.take copyLen) }, copyLen)
  else .error codeNotHibernated

/-! ## Leases -/

/-- `sys_borrow_write`: the lease afterwards.  It takes as much as there is room for. -/
def sysBorrowWrite (lease : List UInt8) (offset : Nat) (src : List UInt8) : Option (List UInt8) :=
  if offset ≤ lease.length then
    let copyLen := min src.length (lease.length - offset)
    some (lease.take offset ++ src.take copyLen ++ lease.drop (offset + copyLen))
  else none

def sysBorrowRead (lease : List UInt8) (offset len : Nat) : Option (List UInt8) :=
  if offset ≤ lease.length then some ((lease.drop offset).take len) else none

/-! ## The supervisor -/

structure Reply where
  code : Nat
  bytes : List UInt8
  deriving DecidableEq, Repr

def success : Nat := 0

/-- The task that the build names for this, if it does. -/
def aclCheckHibernation (peer : Option Nat) (sender : Nat) : Bool := peer = some sender

def readU32Pair (data : List UInt8) : Option (Nat × Nat) :=
  if 8 ≤ data.length then some (leAt data 0 4, leAt data 4 4) else none

def localLen : Nat := 256

def handleReadHibernated (peer : Option Nat) (m : Machine) (sender : Nat) (data : List UInt8)
    (lease : List UInt8) : Reply × List UInt8 :=
  if !aclCheckHibernation peer sender then (⟨0xFE, []⟩, lease)
  else
    match readU32Pair data with
    | none => (⟨0xFF, []⟩, lease)
    | some (addr, len) =>
      let n := min len localLen
      match readHibernatedRegion m addr len n with
      | .ok copied =>
        (⟨success, leBytes 4 copied.length⟩, (sysBorrowWrite lease 0 copied).getD lease)
      | .error rc => (⟨rc, []⟩, lease)

def handleWriteHibernated (peer : Option Nat) (m : Machine) (sender : Nat) (data : List UInt8)
    (lease : List UInt8) : Reply × Machine :=
  if !aclCheckHibernation peer sender then (⟨0xFE, []⟩, m)
  else
    match readU32Pair data with
    | none => (⟨0xFF, []⟩, m)
    | some (addr, len) =>
      let n := min len localLen
      match sysBorrowRead lease 0 n with
      | none => (⟨0xFF, []⟩, m)
      | some src =>
        match writeHibernatedRegion m addr src.length src with
        | .ok (m, copied) => (⟨success, leBytes 4 copied⟩, m)
        | .error rc => (⟨rc, []⟩, m)

/-! ## The guard -/

inductive RegionIoError where
  | notHibernated
  | supervisorRejected
  deriving DecidableEq, Repr

def RegionIoError.ofCode (rc : Nat) : RegionIoError :=
  if rc = 1 then .notHibernated else .supervisorRejected

def chunkSize : Nat := 240

def message (address len : Nat) : List UInt8 := leBytes 4 address ++ leBytes 4 len

/-- The length of the reply, and the destination after the supervisor has written to it.
The guard's task `self` is the one the supervisor accepts. -/
def supervisorRead (self : Nat) (m : Machine) (address len : Nat) (dest : List UInt8) :
    Except RegionIoError (Nat × List UInt8) :=
  let (reply, dest) := handleReadHibernated (some self) m self (message address len) dest
  if reply.code ≠ success then .error (.ofCode reply.code) else .ok (reply.bytes.length, dest)

def supervisorWrite (self : Nat) (m : Machine) (address : Nat) (src : List UInt8) :
    Except RegionIoError (Nat × Machine) :=
  let (reply, m) := handleWriteHibernated (some self) m self (message address src.length) src
  if reply.code ≠ success then .error (.ofCode reply.code) else .ok (reply.bytes.length, m)

theorem loop_progress {done total n : Nat} (hmore : done < total)
    (hlast : ¬n < min (total - done) chunkSize) : total - (done + n) < total - done := by
  rw [chunkSize] at hlast
  omega

/-- The loop of `read`, with the caller's buffer as it is so far. -/
def readFrom (self : Nat) (m : Machine) (address total : Nat) (buf scratch : List UInt8)
    (done : Nat) : Except RegionIoError (Nat × List UInt8) :=
  if _ : done < total then
    match supervisorRead self m (address + done) (min (total - done) chunkSize)
        (scratch.take (min (total - done) chunkSize)) with
    | .error e => .error e
    | .ok (n, front) =>
      let scratch := front ++ scratch.drop (min (total - done) chunkSize)
      match sysBorrowWrite buf done (scratch.take n) with
      | none => .error .supervisorRejected
      | some buf =>
        if _ : n < min (total - done) chunkSize then .ok (done + n, buf)
        else readFrom self m address total buf scratch (done + n)
  else .ok (done, buf)
termination_by total - done
decreasing_by apply loop_progress <;> assumption

/-- `HibernationGuard::read`: the count it returns and the buffer it leaves. -/
def read (self : Nat) (m : Machine) (address : Nat) (buf : List UInt8) :
    Except RegionIoError (Nat × List UInt8) :=
  readFrom self m address buf.length buf (replicate chunkSize 0) 0

/-- The loop of `write`. -/
def writeFrom (self : Nat) (m : Machine) (address : Nat) (data : List UInt8) (done : Nat) :
    Except RegionIoError (Nat × Machine) :=
  if _ : done < data.length then
    match sysBorrowRead data done (min (data.length - done) chunkSize) with
    | none => .error .supervisorRejected
    | some src =>
      match supervisorWrite self m (address + done) src with
      | .error e => .error e
      | .ok (n, m) =>
        if _ : n < min (data.length - done) chunkSize then .ok (done + n, m)
        else writeFrom self m address data (done + n)
  else .ok (done, m)
termination_by data.length - done
decreasing_by apply loop_progress <;> assumption

/-- `HibernationGuard::write`: the count it returns and the memory it leaves. -/
def write (self : Nat) (m : Machine) (address : Nat) (data : List UInt8) :
    Except RegionIoError (Nat × Machine) :=
  writeFrom self m address data 0

/-! ## One chunk -/

section Chunk

variable {self : Nat} {m : Machine} {address len : Nat}

theorem hibernated_chunk {chunk : Nat} (h : m.hibernated address len) (hle : chunk ≤ len) :
    m.hibernated address chunk := by
  obtain ⟨r, hr, hin⟩ := any_eq_true.mp h
  refine any_eq_true.mpr ⟨r, hr, ?_⟩
  grind [Region.containsSpan]

theorem lt_of_hibernated (h : m.hibernated address len) : len + address < 2 ^ 32 := by
  obtain ⟨r, hr, hin⟩ := any_eq_true.mp h
  simp only [Region.containsSpan, Bool.and_eq_true, decide_eq_true_eq] at hin
  omega

theorem readU32Pair_message (haddress : address < 2 ^ 32) (hlen : len < 2 ^ 32) :
    readU32Pair (message address len) = some (address, len) := by
  have hbound : leBound 4 = 2 ^ 32 := rfl
  rw [readU32Pair, if_pos (by simp [message]), leAt, leAt, message, drop_zero,
    take_left' (length_leBytes 4 address), leNat_leBytes (by rwa [hbound]),
    drop_left' (length_leBytes 4 address), take_of_length_le (by simp),
    leNat_leBytes (by rwa [hbound])]

/-- A lease takes a source of its own length. -/
theorem sysBorrowWrite_whole {lease src : List UInt8} (h : src.length = lease.length) :
    sysBorrowWrite lease 0 src = some src := by
  rw [sysBorrowWrite]
  simp [← h]

/-- A chunk that the guard reads: its bytes arrive, and the count is that of the reply. -/
theorem supervisorRead_eq (h : m.hibernated address len) (hlen : len ≤ localLen)
    {dest : List UInt8} (hdest : dest.length = len) :
    supervisorRead self m address len dest = .ok (4, slice m.mem address len) := by
  have hlt := lt_of_hibernated h
  have hcopied : readHibernatedRegion m address len (min len localLen) =
      .ok (slice m.mem address len) := by
    rw [readHibernatedRegion, if_pos h, Nat.min_eq_left hlen, Nat.min_self]
  rw [supervisorRead, handleReadHibernated, readU32Pair_message (by omega) (by omega)]
  simp [aclCheckHibernation, hcopied, sysBorrowWrite_whole, hdest]

theorem supervisorWrite_eq {src : List UInt8} (h : m.hibernated address src.length)
    (hlen : src.length ≤ localLen) :
    supervisorWrite self m address src =
      .ok (4, { m with mem := Mem.write m.mem address src }) := by
  have hlt := lt_of_hibernated h
  have hsrc : sysBorrowRead src 0 (min src.length localLen) = some src := by
    grind [sysBorrowRead]
  have hcopied : writeHibernatedRegion m address src.length src =
      .ok ({ m with mem := Mem.write m.mem address src }, src.length) := by
    rw [writeHibernatedRegion, if_pos h, Nat.min_self, take_length]
  rw [supervisorWrite, handleWriteHibernated, readU32Pair_message (by omega) (by omega)]
  simp [aclCheckHibernation, hsrc, hcopied]

end Chunk

/-! ## Whole transfers -/

section Transfer

variable (self : Nat) {m : Machine} {address : Nat} {buf data : List UInt8}

/-- A range that is not empty is read in one chunk and counted as four bytes, whatever its
length. -/
theorem read_eq (h : m.hibernated address buf.length) (hne : 0 < buf.length) :
    read self m address buf = (sysBorrowWrite buf 0 ((slice m.mem address
      (min buf.length chunkSize) ++ replicate (chunkSize - buf.length) 0).take 4)).elim
        (.error .supervisorRejected) fun buf => .ok (4, buf) := by
  have hread : supervisorRead self m (address + 0) (min buf.length chunkSize)
      ((replicate chunkSize 0).take (min buf.length chunkSize)) =
        .ok (4, slice m.mem address (min buf.length chunkSize)) := by
    refine supervisorRead_eq (hibernated_chunk h (Nat.min_le_left _ _)) ?_ (by simp)
    rw [chunkSize, localLen]
    omega
  have hscratch : (replicate chunkSize (0 : UInt8)).drop (min buf.length chunkSize) =
      replicate (chunkSize - buf.length) 0 := by
    rw [drop_replicate]
    congr 1
    omega
  rw [read, readFrom]
  grind [sysBorrowWrite, chunkSize, readFrom]

theorem write_eq (h : m.hibernated address data.length) (hne : 0 < data.length) :
    write self m address data =
      .ok (4, { m with mem := Mem.write m.mem address (data.take chunkSize) }) := by
  have hread : sysBorrowRead data 0 (min (data.length - 0) chunkSize) =
      some (data.take chunkSize) := by grind [sysBorrowRead]
  have hwrite : supervisorWrite self m (address + 0) (data.take chunkSize) =
      .ok (4, { m with mem := Mem.write m.mem address (data.take chunkSize) }) := by
    refine supervisorWrite_eq (hibernated_chunk h ?_) ?_
    · rw [length_take]
      exact Nat.min_le_right _ _
    · grind [chunkSize, localLen]
  grind [chunkSize, writeFrom, write]

/-- For a range in hibernated memory, `read` and `write` do and report what they should
exactly if the range is empty or has four bytes. -/
theorem io_complete_iff (buf data : List UInt8) {len : Nat} (h : m.hibernated address len)
    (hbuf : buf.length = len) (hdata : data.length = len) :
    (read self m address buf = .ok (len, Mem.slice m.mem address len) ↔ len = 0 ∨ len = 4) ∧
      (write self m address data = .ok (len, { m with mem := Mem.write m.mem address data }) ↔
        len = 0 ∨ len = 4) := by
  rcases Nat.eq_zero_or_pos len with hzero | hpos
  · subst hzero
    obtain rfl := length_eq_zero_iff.mp hbuf
    obtain rfl := length_eq_zero_iff.mp hdata
    refine ⟨iff_of_true ?_ (.inl rfl), iff_of_true ?_ (.inl rfl)⟩
    · rw [read, readFrom]
      rfl
    · rw [write, writeFrom, dif_neg (by decide), Mem.write_nil]
  · have hread := read_eq self (hbuf ▸ h) (hbuf ▸ hpos)
    have hwrite := write_eq self (hdata ▸ h) (hdata ▸ hpos)
    rw [hread, hwrite]
    constructor
    · constructor
      · intro heq
        cases hbuf' : sysBorrowWrite buf 0 ((Mem.slice m.mem address
          (min buf.length chunkSize) ++ replicate (chunkSize - buf.length) 0).take 4) with
        | none =>
          rw [hbuf'] at heq
          cases heq
        | some buf' =>
          exact .inr (Prod.mk.inj (Except.ok.inj heq)).1.symm
      · rintro (rfl | rfl)
        · omega
        · have hmin : min buf.length chunkSize = 4 := by rw [hbuf]; rfl
          rw [hmin, take_left' (Mem.length_slice _ _ _),
            sysBorrowWrite_whole (by rw [Mem.length_slice, hbuf])]
          rfl
    · constructor
      · intro heq
        exact .inr (Prod.mk.inj (Except.ok.inj heq)).1.symm
      · rintro (rfl | rfl)
        · omega
        · rw [take_of_length_le (by rw [chunkSize]; omega)]

def oneRegion : Machine := ⟨[⟨4096, 256, true⟩], fun _ => 7⟩

theorem oneRegion_hibernated {len : Nat} (h : len ≤ 100) : oneRegion.hibernated 4200 len := by
  refine any_eq_true.mpr ⟨⟨4096, 256, true⟩, mem_singleton.mpr rfl, ?_⟩
  simp only [Region.containsSpan, Region.endAddr]
  grind

theorem io_complete_four :
    read 3 oneRegion 4200 [0, 0, 0, 0] = .ok (4, [7, 7, 7, 7]) ∧
      write 3 oneRegion 4200 [1, 2, 3, 4] =
        .ok (4, { oneRegion with mem := Mem.write oneRegion.mem 4200 [1, 2, 3, 4] }) := by
  obtain ⟨hread, hwrite⟩ := io_complete_iff 3 [0, 0, 0, 0] [1, 2, 3, 4]
    (oneRegion_hibernated (by decide)) rfl rfl
  exact ⟨hread.mpr (.inr rfl), hwrite.mpr (.inr rfl)⟩

/-- A read of five bytes stops after four, and a write of five reports four. -/
theorem fifth_byte_missing :
    read 3 oneRegion 4200 [0, 0, 0, 0, 0] = .ok (4, [7, 7, 7, 7, 0]) ∧
      write 3 oneRegion 4200 [1, 2, 3, 4, 5] =
        .ok (4, { oneRegion with mem := Mem.write oneRegion.mem 4200 [1, 2, 3, 4, 5] }) :=
  ⟨read_eq 3 (oneRegion_hibernated (by decide)) (by decide),
    write_eq 3 (oneRegion_hibernated (by decide)) (by decide)⟩

end Transfer

end Rcard.Hibernation
