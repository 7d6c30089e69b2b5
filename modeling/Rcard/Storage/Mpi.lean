/-
The flash driver (`firmware/sysmodule/mpi/src/main.rs`).

`read`, `write` and `erase` check their range and then send commands to the chip.  The chip
takes as many low bytes of an address as the address width has.  A page program wraps
inside its page, and a block erase takes the whole block its address lies in.

Every wait for the hardware may time out, and the chip's status register reads as it likes:
`inTime` and `status` answer by the number of the question.  A poll loop on a hardware flag
is one such question.  A command has its effect when its last data was sent.

The width comes from the chip's own tables.  A chip that says it takes three bytes only is
driven with three, whatever capacity it states.
-/
import Mathlib.Data.Nat.Bitwise
import Rcard.Lib.Fallible
import Rcard.Lib.Le
import Rcard.Lib.Nor

namespace Rcard.Mpi

open List Mem Nor Fallible

/-! ## The chip -/

inductive AddrSize where
  | oneByte
  | twoBytes
  | threeBytes
  | fourBytes
  deriving DecidableEq

def AddrSize.bytes : AddrSize → Nat
  | oneByte => 1
  | twoBytes => 2
  | threeBytes => 3
  | fourBytes => 4

structure Command where
  opcode : UInt8
  /-- None for a command without address. -/
  addrSize : Option AddrSize
  address : Nat
  /-- Bytes of data that go with it. -/
  len : Nat
  deriving DecidableEq

/-- The address as the chip gets it. -/
def Command.sent (c : Command) : Nat :=
  match c.addrSize with
  | none => 0
  | some size => c.address % 256 ^ size.bytes

def cmdWriteEnable : UInt8 := 0x06
def cmdReadStatus1 : UInt8 := 0x05
def cmdPageProgram3b : UInt8 := 0x02
def cmdSectorErase4k3b : UInt8 := 0x20
def cmdBlockErase32k3b : UInt8 := 0x52
def cmdBlockErase64k3b : UInt8 := 0xD8
def cmdPageProgram4b : UInt8 := 0x12
def cmdSectorErase4k4b : UInt8 := 0x21
def cmdBlockErase32k4b : UInt8 := 0x5C
def cmdBlockErase64k4b : UInt8 := 0xDC

def pageSize : Nat := 256
def erase4k : Nat := 4096
def erase32k : Nat := 32 * 1024
def erase64k : Nat := 64 * 1024

/-- The block an erase command takes. -/
def blockSize (opcode : UInt8) : Option Nat :=
  if opcode = cmdSectorErase4k3b ∨ opcode = cmdSectorErase4k4b then some erase4k
  else if opcode = cmdBlockErase32k3b ∨ opcode = cmdBlockErase32k4b then some erase32k
  else if opcode = cmdBlockErase64k3b ∨ opcode = cmdBlockErase64k4b then some erase64k
  else none

def isPageProgram (opcode : UInt8) : Bool :=
  opcode = cmdPageProgram3b ∨ opcode = cmdPageProgram4b

structure Hw where
  flash : Nat → UInt8
  /-- What was sent, the oldest first. -/
  commands : List Command
  inTime : Nat → Bool
  status : Nat → UInt8
  asked : Nat

def Command.erases (c : Command) (flash : Nat → UInt8) : Nat → UInt8 :=
  match blockSize c.opcode with
  | some size => Nor.eraseBlock size flash c.sent
  | none => flash

def Command.programs (c : Command) (data : List UInt8) (flash : Nat → UInt8) : Nat → UInt8 :=
  if isPageProgram c.opcode then Nor.programPage pageSize flash c.sent (data.take c.len) else flash

/-- The chip reads, programs or erases the byte at `a`. -/
def Command.Touches (c : Command) (a : Nat) : Prop :=
  match blockSize c.opcode with
  | some size => a / size = c.sent / size
  | none =>
    if isPageProgram c.opcode then
      a / pageSize = c.sent / pageSize ∧
        (a % pageSize + pageSize - c.sent % pageSize) % pageSize < c.len
    else c.addrSize ≠ none ∧ c.sent ≤ a ∧ a < c.sent + c.len

/-! ## Registers -/

inductive MpiOperationError where
  | transferTimeout
  | rxFifoTimeout
  | txFifoTimeout
  | wipTimeout
  | writeEnableDidNotLatch
  | addressOutOfRange
  | lengthTooLarge
  | invalidAddressAlignment
  | invalidLengthAlignment
  deriving DecidableEq

abbrev Driver := Fallible Hw MpiOperationError

/-- A timeout becomes the operation error of its name. -/
def wait (timeout : MpiOperationError) : Driver Unit := fun hw =>
  (if hw.inTime hw.asked then .ok () else .error timeout, { hw with asked := hw.asked + 1 })

/-- The write to `cmdr1` that starts a command. -/
def issue (c : Command) : Driver Unit :=
  Fallible.change fun hw => { hw with commands := hw.commands ++ [c], flash := c.erases hw.flash }

def waitTransferComplete : Driver Unit := wait .transferTimeout
def waitRxReady : Driver Unit := wait .rxFifoTimeout
def waitTxReady : Driver Unit := wait .txFifoTimeout

def cmdOnly (instruction : UInt8) : Driver Unit := do
  issue { opcode := instruction, addrSize := none, address := 0, len := 0 }
  waitTransferComplete

def readStatus1 : Driver UInt8 := do
  issue { opcode := cmdReadStatus1, addrSize := none, address := 0, len := 1 }
  waitTransferComplete
  waitRxReady
  fun hw => (.ok (hw.status hw.asked), { hw with asked := hw.asked + 1 })

def writeEnable : Driver Unit := do
  cmdOnly cmdWriteEnable
  let sr ← readStatus1
  if sr &&& 0x02 = 0 then Fallible.fail .writeEnableDidNotLatch else pure ()

def pollWip : (polls : Nat) → Driver Unit
  | 0 => Fallible.fail .wipTimeout
  | polls + 1 => do
      let sr ← readStatus1
      if sr &&& 0x01 = 0 then pure () else pollWip polls

def maxWipPolls : Nat := 1000000

def waitWip : Driver Unit := pollWip maxWipPolls

/-! ## The driver -/

/-- The modes `resolve_read_mode` chooses from.  Their lanes and cycles are on the wire only. -/
inductive ResolvedReadMode where
  | singleStandard
  | dualOutput
  | dualIo
  | quadOutput
  | quadIo

def ResolvedReadMode.opcode3b : ResolvedReadMode → UInt8
  | singleStandard => 0x03
  | dualOutput => 0x3B
  | dualIo => 0xBB
  | quadOutput => 0x6B
  | quadIo => 0xEB

def ResolvedReadMode.opcode4b : ResolvedReadMode → UInt8
  | singleStandard => 0x13
  | dualOutput => 0x3C
  | dualIo => 0xBC
  | quadOutput => 0x6C
  | quadIo => 0xEC

structure MpiResource where
  addrSize : AddrSize
  capacityBytes : Nat
  readMode : ResolvedReadMode

inductive AddrBytesSupport where
  | threeOnly
  | threeOrFour
  | fourOnly
  | reserved

/-- The address width `init_sfdp` settles on. -/
def resolveAddrSize (capacityBytes : Nat) : AddrBytesSupport → Option AddrSize
  | .threeOnly => some .threeBytes
  | .fourOnly => some .fourBytes
  | .threeOrFour =>
    some (if capacityBytes > 16 * 1024 * 1024 then .fourBytes else .threeBytes)
  | .reserved => none

namespace MpiResource

variable (r : MpiResource)

def is4byte : Bool := r.addrSize = .fourBytes

def cmdRead : UInt8 := if r.is4byte then r.readMode.opcode4b else r.readMode.opcode3b
def cmdPageProgram : UInt8 := if r.is4byte then cmdPageProgram4b else cmdPageProgram3b
def cmdSectorErase4k : UInt8 := if r.is4byte then cmdSectorErase4k4b else cmdSectorErase4k3b
def cmdBlockErase32k : UInt8 := if r.is4byte then cmdBlockErase32k4b else cmdBlockErase32k3b
def cmdBlockErase64k : UInt8 := if r.is4byte then cmdBlockErase64k4b else cmdBlockErase64k3b

def cmdAddr (instruction : UInt8) (address : Nat) : Driver Unit := do
  issue { opcode := instruction, addrSize := some r.addrSize, address, len := 0 }
  waitTransferComplete

/-- The end of a range, if it is an address and the chip has it. -/
def rangeEnd (address len : Nat) : Driver Nat :=
  if 2 ^ 32 ≤ address + len then Fallible.fail .addressOutOfRange
  else if address + len > r.capacityBytes then Fallible.fail .addressOutOfRange
  else pure (address + len)

/-- The next word of a read, from byte `i` on. -/
def rxWord (c : Command) (i : Nat) : Driver UInt32 := fun hw =>
  (.ok (UInt32.ofNat (leNat (slice hw.flash (c.sent + i) 4))), hw)

/-- `buf` is the used part of the scratch buffer. -/
def receive (c : Command) : (fuel : Nat) → (buf : List UInt8) → Driver (List UInt8)
  | 0, buf => pure buf
  | fuel + 1, buf =>
    if buf.length < c.len then do
      waitRxReady
      let word ← rxWord c buf.length
      receive c fuel (buf ++ (leBytes 4 word.toNat).take (c.len - buf.length))
    else pure buf

/-- Returns what it writes to the lease. -/
def read (address len : Nat) : Driver (List UInt8) :=
  if len = 0 then pure []
  else if len > pageSize then Fallible.fail .lengthTooLarge
  else do
    let _ ← r.rangeEnd address len
    let c : Command := { opcode := r.cmdRead, addrSize := some r.addrSize, address, len }
    issue c
    let buf ← receive c len []
    waitTransferComplete
    return buf

/-- The words of a page program, the last one filled up with zeros. -/
def packWords : List UInt8 → List UInt32
  | [] => []
  | b₀ :: b₁ :: b₂ :: b₃ :: bytes => UInt32.ofNat (leNat [b₀, b₁, b₂, b₃]) :: packWords bytes
  | bytes => [UInt32.ofNat (leNat bytes)]

def sendWords : List UInt32 → Driver Unit
  | [] => pure ()
  | _ :: words => do
      waitTxReady
      sendWords words

def programChunk (addr : Nat) (data : List UInt8) : Driver Unit := do
  writeEnable
  let c : Command :=
    { opcode := r.cmdPageProgram, addrSize := some r.addrSize, address := addr, len := data.length }
  issue c
  sendWords (packWords data)
  Fallible.change fun hw =>
    { hw with flash := c.programs ((packWords data).flatMap fun w => leBytes 4 w.toNat) hw.flash }
  waitTransferComplete
  waitWip

/-- `data` is what is left of the lease. -/
def writeLoop : (fuel : Nat) → (addr : Nat) → (data : List UInt8) → Driver Unit
  | 0, _, _ => pure ()
  | fuel + 1, addr, data =>
    if 0 < data.length then do
      let pageRemaining := pageSize - addr % pageSize
      let chunk := min data.length pageRemaining
      r.programChunk addr (data.take chunk)
      writeLoop fuel (addr + chunk) (data.drop chunk)
    else pure ()

def write (address : Nat) (data : List UInt8) : Driver Unit :=
  if data.length = 0 then pure ()
  else do
    let _ ← r.rangeEnd address data.length
    r.writeLoop data.length address data

/-- The command for the next block, and its size. -/
def nextBlock (addr remaining : Nat) : UInt8 × Nat :=
  if addr % erase64k = 0 ∧ remaining ≥ erase64k then (r.cmdBlockErase64k, erase64k)
  else if addr % erase32k = 0 ∧ remaining ≥ erase32k then (r.cmdBlockErase32k, erase32k)
  else (r.cmdSectorErase4k, erase4k)

def eraseStep (addr : Nat) (cmd : UInt8) : Driver Unit := do
  writeEnable
  r.cmdAddr cmd addr
  waitWip

def eraseLoop (stop : Nat) : (fuel : Nat) → (addr : Nat) → Driver Unit
  | 0, _ => pure ()
  | fuel + 1, addr =>
    if addr < stop then do
      let (cmd, step) := r.nextBlock addr (stop - addr)
      r.eraseStep addr cmd
      eraseLoop stop fuel (addr + step)
    else pure ()

def erase (address length : Nat) : Driver Unit :=
  if address % erase4k ≠ 0 then Fallible.fail .invalidAddressAlignment
  else if length % erase4k ≠ 0 then Fallible.fail .invalidLengthAlignment
  else do
    let stop ← r.rangeEnd address length
    r.eraseLoop stop length address

end MpiResource

/-! ## Commands of a call -/

/-- The command leaves the flash alone. -/
structure Command.Plain (c : Command) : Prop where
  block : blockSize c.opcode = none
  program : isPageProgram c.opcode = false
  addrSize : c.addrSize = none

/-- A command of the driver that asks for bytes from `lo` to `hi` only, an erase whole blocks,
a program one page. -/
structure Command.Within (r : MpiResource) (lo hi : Nat) (c : Command) : Prop where
  width : c.addrSize = some r.addrSize
  lo : lo ≤ c.address
  hi : c.address + (blockSize c.opcode).getD c.len ≤ hi
  chip : c.address + (blockSize c.opcode).getD c.len ≤ r.capacityBytes
  block : ∀ size, blockSize c.opcode = some size → size ∣ c.address
  page : isPageProgram c.opcode → c.address % pageSize + c.len ≤ pageSize

/-- Between the two states only such commands were sent. -/
def Sends (r : MpiResource) (lo hi : Nat) (hw hw' : Hw) : Prop :=
  ∃ cs, hw'.commands = hw.commands ++ cs ∧ ∀ c ∈ cs, c.Plain ∨ c.Within r lo hi

theorem Command.Plain.not_touches {c : Command} (h : c.Plain) (a : Nat) : ¬ c.Touches a := by
  rw [Touches, h.block, h.program]
  exact fun hread => hread.1 h.addrSize

/-- Blocks and pages keep their place when the upper address bytes are cut off. -/
theorem Command.Within.touches {r : MpiResource} {lo hi a : Nat} {c : Command}
    (h : c.Within r lo hi) (ha : c.Touches a) :
    c.sent ≤ a ∧ a < c.sent + (blockSize c.opcode).getD c.len := by
  have hsent : c.sent = c.address % 256 ^ r.addrSize.bytes := by rw [sent, h.width]
  rw [Touches] at ha
  split at ha
  next size hsize =>
    have hblock := h.block size hsize
    rw [hsize, Option.getD_some]
    have hsizes : size = erase4k ∨ size = erase32k ∨ size = erase64k := by
      grind [blockSize]
    have hdvd : size ∣ c.sent := by
      rw [hsent]
      cases r.addrSize <;> rcases hsizes with rfl | rfl | rfl <;>
        simp only [erase4k, erase32k, erase64k, AddrSize.bytes] at hblock ⊢ <;> omega
    have hpos : 0 < size := by
      rcases hsizes with rfl | rfl | rfl <;> decide
    have := Nat.div_add_mod a size
    have := Nat.mod_lt a hpos
    have := Nat.div_mul_cancel hdvd
    grind
  next hnone =>
    rw [hnone, Option.getD_none]
    split at ha
    next hprogram =>
      have hpage := h.page hprogram
      have hmod : c.sent % pageSize = c.address % pageSize := by
        rw [hsent]
        cases r.addrSize <;> simp only [pageSize, AddrSize.bytes] <;> omega
      simp only [pageSize] at ha hpage hmod
      omega
    next => exact ha.2

def Quiet (hw hw' : Hw) : Prop :=
  hw'.flash = hw.flash ∧ ∃ cs, hw'.commands = hw.commands ++ cs ∧ ∀ c ∈ cs, c.Plain

section Calls

variable {r : MpiResource} {lo hi : Nat} {α : Type}

theorem Sends.refl (hw : Hw) : Sends r lo hi hw hw :=
  ⟨[], (append_nil _).symm, fun _ h => absurd h not_mem_nil⟩

theorem Sends.trans (a b c : Hw) (h : Sends r lo hi a b) (h' : Sends r lo hi b c) :
    Sends r lo hi a c := by
  grind [Sends]

theorem Sends.mono {lo' hi' : Nat} (hlo : lo' ≤ lo) (hhi : hi ≤ hi') (a b : Hw)
    (h : Sends r lo hi a b) : Sends r lo' hi' a b := by
  obtain ⟨cs, heq, hcs⟩ := h
  refine ⟨cs, heq, fun c hc => (hcs c hc).imp_right fun hin => ?_⟩
  exact { hin with lo := Nat.le_trans hlo hin.lo, hi := Nat.le_trans hin.hi hhi }

theorem Quiet.refl (hw : Hw) : Quiet hw hw :=
  ⟨rfl, [], (append_nil _).symm, fun _ h => absurd h not_mem_nil⟩

theorem Quiet.trans (a b c : Hw) (h : Quiet a b) (h' : Quiet b c) : Quiet a c := by
  grind [Quiet]

theorem Quiet.sends (hw hw' : Hw) (h : Quiet hw hw') : Sends r lo hi hw hw' := by
  obtain ⟨_, cs, hcs, hall⟩ := h
  exact ⟨cs, hcs, fun c hc => .inl (hall c hc)⟩

open Fallible (Keeps)

theorem Keeps.sends {x : Driver α} (h : Keeps Quiet x) : Keeps (Sends r lo hi) x :=
  h.mono Quiet.sends

theorem quiet_wait (e : MpiOperationError) : Keeps Quiet (wait e) := fun _ => Quiet.refl _

theorem quiet_issue {c : Command} (h : c.Plain) : Keeps Quiet (issue c) := fun hw =>
  ⟨by simp [issue, change, Command.erases, h.block], [c], rfl, fun c' hc => mem_singleton.mp hc ▸ h⟩

theorem sends_issue {c : Command} (h : c.Within r lo hi) : Keeps (Sends r lo hi) (issue c) :=
  fun _ => ⟨[c], rfl, fun _ hc => .inr (mem_singleton.mp hc ▸ h)⟩

/-- A command that is no erase. -/
theorem sends_issue_of_none {c : Command} (hblock : blockSize c.opcode = none)
    (hwidth : c.addrSize = some r.addrSize) (hlo : lo ≤ c.address) (hhi : c.address + c.len ≤ hi)
    (hchip : c.address + c.len ≤ r.capacityBytes)
    (hpage : isPageProgram c.opcode → c.address % pageSize + c.len ≤ pageSize) :
    Keeps (Sends r lo hi) (issue c) :=
  sends_issue ⟨hwidth, hlo, by rwa [hblock], by rwa [hblock],
    fun _ hsize => (nomatch hblock.symm.trans hsize), hpage⟩

theorem quiet_readStatus1 : Keeps Quiet readStatus1 :=
  .bind Quiet.trans (quiet_issue ⟨by decide, by decide, rfl⟩) fun _ =>
    .bind Quiet.trans (quiet_wait _) fun _ =>
      .bind Quiet.trans (quiet_wait _) fun _ _ => Quiet.refl _

theorem quiet_writeEnable : Keeps Quiet writeEnable := by
  refine .bind Quiet.trans (.bind Quiet.trans (quiet_issue ⟨by decide, by decide, rfl⟩)
    fun _ => quiet_wait _) fun _ => .bind Quiet.trans quiet_readStatus1 fun sr => ?_
  split
  · exact .fail Quiet.refl _
  · exact .pure Quiet.refl _

theorem quiet_pollWip (polls : Nat) : Keeps Quiet (pollWip polls) := by
  induction polls with
  | zero => exact .fail Quiet.refl _
  | succ polls ih =>
    refine .bind Quiet.trans quiet_readStatus1 fun sr => ?_
    split
    · exact .pure Quiet.refl _
    · exact ih

theorem quiet_sendWords (words : List UInt32) : Keeps Quiet (MpiResource.sendWords words) := by
  induction words with
  | nil => exact .pure Quiet.refl _
  | cons w words ih => exact .bind Quiet.trans (quiet_wait _) fun _ => ih

theorem quiet_receive (c : Command) (fuel : Nat) (buf : List UInt8) :
    Keeps Quiet (MpiResource.receive c fuel buf) := by
  induction fuel generalizing buf with
  | zero => exact .pure Quiet.refl _
  | succ fuel ih =>
    rw [MpiResource.receive]
    split
    · exact .bind Quiet.trans (quiet_wait _) fun _ =>
        .bind Quiet.trans (fun _ => Quiet.refl _) fun _ => ih _
    · exact .pure Quiet.refl _

variable {x : Driver α} {hw hw' : Hw} {a : α}

theorem flash_of_quiet (h : Keeps Quiet x) (hx : x hw = (.ok a, hw')) : hw'.flash = hw.flash := by
  have := (h hw).1
  rwa [hx] at this

end Calls

namespace MpiResource

section Opcodes

variable (r : MpiResource)

theorem blockSize_cmdRead : blockSize r.cmdRead = none := by
  rw [cmdRead]
  cases r.readMode <;> split <;> decide

theorem isPageProgram_cmdRead : isPageProgram r.cmdRead = false := by
  rw [cmdRead]
  cases r.readMode <;> split <;> decide

theorem blockSize_cmdPageProgram : blockSize r.cmdPageProgram = none := by
  rw [cmdPageProgram]
  split <;> decide

theorem isPageProgram_cmdPageProgram : isPageProgram r.cmdPageProgram = true := by
  rw [cmdPageProgram]
  split <;> decide

/-- The next block fits what is left, and lies at its own alignment. -/
theorem nextBlock_spec {addr remaining : Nat} (haddr : erase4k ∣ addr)
    (hremaining : erase4k ∣ remaining) (hpos : 0 < remaining) :
    blockSize (r.nextBlock addr remaining).1 = some (r.nextBlock addr remaining).2 ∧
      (r.nextBlock addr remaining).2 ∣ addr ∧ (r.nextBlock addr remaining).2 ≤ remaining ∧
      erase4k ∣ (r.nextBlock addr remaining).2 ∧ 0 < (r.nextBlock addr remaining).2 := by
  rw [nextBlock]
  split
  next h =>
    refine ⟨?_, Nat.dvd_of_mod_eq_zero h.1, h.2, ⟨16, rfl⟩, Nat.zero_lt_succ _⟩
    rw [cmdBlockErase64k]
    split <;> decide
  next =>
    split
    next h =>
      refine ⟨?_, Nat.dvd_of_mod_eq_zero h.1, h.2, ⟨8, rfl⟩, Nat.zero_lt_succ _⟩
      rw [cmdBlockErase32k]
      split <;> decide
    next =>
      refine ⟨?_, haddr, Nat.le_of_dvd hpos hremaining, Nat.dvd_refl _, Nat.zero_lt_succ _⟩
      rw [cmdSectorErase4k]
      split <;> decide

end Opcodes

section Range

variable {r : MpiResource} {address len : Nat} {hw hw' : Hw}

theorem rangeEnd_eq_ok {stop : Nat} (h : r.rangeEnd address len hw = (.ok stop, hw')) :
    stop = address + len ∧ hw' = hw ∧ address + len < 2 ^ 32 ∧ address + len ≤ r.capacityBytes := by
  rw [rangeEnd] at h
  split at h
  · cases h
  · split at h
    · cases h
    · cases h
      exact ⟨rfl, rfl, by omega, by omega⟩

theorem rangeEnd_eq_error {e : MpiOperationError}
    (h : r.rangeEnd address len hw = (.error e, hw')) : e = .addressOutOfRange ∧ hw' = hw := by
  rw [rangeEnd] at h
  split at h
  · cases h
    exact ⟨rfl, rfl⟩
  · split at h
    · cases h
      exact ⟨rfl, rfl⟩
    · cases h

theorem sends_rangeEnd {α : Type} {r : MpiResource} {lo hi address len : Nat} {f : Nat → Driver α}
    (h : address + len ≤ r.capacityBytes → Fallible.Keeps (Sends r lo hi) (f (address + len))) :
    Fallible.Keeps (Sends r lo hi) (r.rangeEnd address len >>= f) := by
  intro hw
  rcases hrange : r.rangeEnd address len hw with ⟨_ | stop, hw₁⟩
  · rw [bind_of_error hrange, (rangeEnd_eq_error hrange).2]
    exact Sends.refl hw
  · obtain ⟨rfl, rfl, _, hcap⟩ := rangeEnd_eq_ok hrange
    rw [bind_of_ok hrange]
    exact h hcap _

/-- Every address of the chip fits the address width. -/
def Reaches (r : MpiResource) : Prop := min r.capacityBytes (2 ^ 32) ≤ 256 ^ r.addrSize.bytes

theorem Reaches.sent_eq (h : r.Reaches) {c : Command} (hsize : c.addrSize = some r.addrSize)
    (hlt : c.address < 2 ^ 32) (hcap : c.address < r.capacityBytes) : c.sent = c.address := by
  rw [Command.sent, hsize]
  rw [Reaches] at h
  exact Nat.mod_eq_of_lt (by omega)

end Range

open Fallible (Keeps bind_eq_ok bind_eq_error)

/-! ## Erase -/

section Erase

variable {r : MpiResource} {addr stop fuel : Nat} {hw hw' : Hw}

theorem eraseStep_ok (hr : r.Reaches) {cmd : UInt8} {size : Nat}
    (hblock : blockSize cmd = some size) (hdvd : size ∣ addr) (hlt : addr < 2 ^ 32)
    (hcap : addr < r.capacityBytes)
    (h : r.eraseStep addr cmd hw = (.ok (), hw')) : hw'.flash = Nor.erase hw.flash addr size := by
  obtain ⟨_, hw₁, henable, h⟩ := bind_eq_ok.mp h
  obtain ⟨_, hw₂, hcmd, hwip⟩ := bind_eq_ok.mp h
  obtain ⟨_, hw₃, hissue, hwait⟩ := bind_eq_ok.mp hcmd
  cases hissue
  rw [flash_of_quiet (quiet_pollWip _) hwip, flash_of_quiet (quiet_wait _) hwait]
  show Command.erases _ hw₁.flash = _
  rw [Command.erases, hblock, hr.sent_eq rfl hlt hcap, flash_of_quiet quiet_writeEnable henable]
  exact eraseBlock_eq _ hdvd

theorem sends_eraseStep {cmd : UInt8} {size lo hi : Nat} (hblock : blockSize cmd = some size)
    (hdvd : size ∣ addr) (hlo : lo ≤ addr) (hhi : addr + size ≤ hi)
    (hchip : addr + size ≤ r.capacityBytes) (hcmd : isPageProgram cmd = false) :
    Keeps (Sends r lo hi) (r.eraseStep addr cmd) := by
  refine .bind Sends.trans (Keeps.sends quiet_writeEnable) fun _ => .bind Sends.trans
    (.bind Sends.trans (sends_issue ⟨rfl, hlo, ?_, ?_, ?_, ?_⟩) fun _ => Keeps.sends (quiet_wait _))
    fun _ => Keeps.sends (quiet_pollWip _)
  · rwa [hblock]
  · rwa [hblock]
  · intro size' hsize'
    rw [hblock] at hsize'
    cases hsize'
    exact hdvd
  · intro hprogram
    rw [hcmd] at hprogram
    cases hprogram

theorem eraseLoop_ok (hr : r.Reaches) (haddr : erase4k ∣ addr) (hstop : erase4k ∣ stop)
    (hle : addr ≤ stop) (hfuel : stop - addr ≤ fuel) (hlt : stop < 2 ^ 32)
    (hcap : stop ≤ r.capacityBytes) (h : r.eraseLoop stop fuel addr hw = (.ok (), hw')) :
    hw'.flash = Nor.erase hw.flash addr (stop - addr) := by
  induction fuel generalizing addr hw with
  | zero =>
    cases h
    rw [show stop - addr = 0 by omega, erase_zero]
  | succ fuel ih =>
    rw [eraseLoop] at h
    split at h
    next hmore =>
      obtain ⟨hblock, hdvd, hfit, hstep, hpos⟩ :=
        r.nextBlock_spec haddr (Nat.dvd_sub hstop haddr) (by omega)
      obtain ⟨_, hw₁, hfirst, hrest⟩ := bind_eq_ok.mp h
      rw [ih (Nat.dvd_add haddr hstep) (by omega) (by omega) hrest,
        eraseStep_ok hr hblock hdvd (by omega) (by omega) hfirst, erase_add]
      congr 1
      omega
    next hdone =>
      cases h
      rw [show stop - addr = 0 by omega, erase_zero]

theorem isPageProgram_of_blockSize {cmd : UInt8} {size : Nat} (h : blockSize cmd = some size) :
    isPageProgram cmd = false := by
  rw [isPageProgram, decide_eq_false_iff_not]
  rintro (rfl | rfl)
  · cases h
  · cases h

theorem sends_eraseLoop {lo : Nat} (haddr : erase4k ∣ addr) (hstop : erase4k ∣ stop)
    (hchip : stop ≤ r.capacityBytes) (hlo : lo ≤ addr) :
    Keeps (Sends r lo stop) (r.eraseLoop stop fuel addr) := by
  induction fuel generalizing addr with
  | zero => exact .pure Sends.refl _
  | succ fuel ih =>
    rw [eraseLoop]
    split
    next hmore =>
      obtain ⟨hblock, hdvd, hfit, hstep, hpos⟩ :=
        r.nextBlock_spec haddr (Nat.dvd_sub hstop haddr) (by omega)
      exact .bind Sends.trans (sends_eraseStep hblock hdvd hlo (by omega) (by omega)
        (isPageProgram_of_blockSize hblock)) fun _ => ih (Nat.dvd_add haddr hstep) (by omega)
    next => exact .pure Sends.refl _

end Erase

/-! ## Write -/

section Write

variable {r : MpiResource} {addr fuel : Nat} {data : List UInt8} {hw hw' : Hw}

theorem leBytes_packed {bytes : List UInt8} (h : bytes.length ≤ 4) :
    leBytes 4 (UInt32.ofNat (leNat bytes)).toNat =
      bytes ++ List.replicate (4 - bytes.length) 0 := by
  have hlt : leNat bytes < 2 ^ 32 := leNat_lt_of_le h
  rw [UInt32.toNat_ofNat_of_lt' hlt, leBytes_leNat h]

theorem exists_flatMap_packWords (data : List UInt8) :
    ∃ zeros, (packWords data).flatMap (fun w => leBytes 4 w.toNat) = data ++ zeros := by
  fun_induction packWords data with
  | case1 => exact ⟨[], rfl⟩
  | case2 b₀ b₁ b₂ b₃ bytes ih =>
    obtain ⟨zeros, hzeros⟩ := ih
    refine ⟨zeros, ?_⟩
    rw [flatMap_cons, hzeros, leBytes_packed (by simp)]
    rfl
  | case3 bytes hnil hshort =>
    refine ⟨List.replicate (4 - bytes.length) 0, ?_⟩
    rw [flatMap_singleton, leBytes_packed]
    rcases bytes with _ | ⟨b₀, _ | ⟨b₁, _ | ⟨b₂, _ | ⟨b₃, bytes⟩⟩⟩⟩
    · exact Nat.zero_le _
    · exact Nat.le_add_left 1 3
    · exact Nat.le_add_left 2 2
    · exact Nat.le_add_left 3 1
    · exact absurd rfl (hshort b₀ b₁ b₂ b₃ bytes)

theorem programChunk_ok (hr : r.Reaches) (hpage : addr % pageSize + data.length ≤ pageSize)
    (hlt : addr < 2 ^ 32) (hcap : addr < r.capacityBytes)
    (h : r.programChunk addr data hw = (.ok (), hw')) :
    hw'.flash = Nor.program hw.flash addr data := by
  obtain ⟨_, hw₁, henable, h⟩ := bind_eq_ok.mp h
  obtain ⟨_, hw₂, hissue, h⟩ := bind_eq_ok.mp h
  obtain ⟨_, hw₃, hsend, h⟩ := bind_eq_ok.mp h
  obtain ⟨_, hw₄, hburn, h⟩ := bind_eq_ok.mp h
  obtain ⟨_, hw₅, hwait, hwip⟩ := bind_eq_ok.mp h
  obtain ⟨zeros, hwords⟩ := exists_flatMap_packWords data
  cases hissue
  cases hburn
  rw [flash_of_quiet (quiet_pollWip _) hwip, flash_of_quiet (quiet_wait _) hwait]
  show Command.programs _ _ hw₃.flash = _
  rw [flash_of_quiet (quiet_sendWords _) hsend]
  show Command.programs _ _ (Command.erases _ hw₁.flash) = _
  rw [Command.programs, Command.erases, r.blockSize_cmdPageProgram,
    if_pos r.isPageProgram_cmdPageProgram, hr.sent_eq rfl hlt hcap,
    flash_of_quiet quiet_writeEnable henable, hwords, take_left]
  exact programPage_eq _ (by decide) hpage

theorem sends_programChunk {lo hi : Nat} (hpage : addr % pageSize + data.length ≤ pageSize)
    (hlo : lo ≤ addr) (hhi : addr + data.length ≤ hi)
    (hchip : addr + data.length ≤ r.capacityBytes) :
    Keeps (Sends r lo hi) (r.programChunk addr data) := by
  exact .bind Sends.trans (Keeps.sends quiet_writeEnable) fun _ => .bind Sends.trans
    (sends_issue_of_none r.blockSize_cmdPageProgram rfl hlo hhi hchip fun _ => hpage) fun _ =>
    .bind Sends.trans (Keeps.sends (quiet_sendWords _)) fun _ =>
    .bind Sends.trans (Sends.refl)
    fun _ => .bind Sends.trans (Keeps.sends (quiet_wait _)) fun _ => Keeps.sends (quiet_pollWip _)

theorem chunk_spec (addr : Nat) (data : List UInt8) :
    let chunk := min data.length (pageSize - addr % pageSize)
    addr % pageSize < pageSize ∧ (data.take chunk).length = chunk ∧
      (data.drop chunk).length = data.length - chunk := by
  refine ⟨Nat.mod_lt _ (by decide), ?_, length_drop⟩
  rw [length_take, Nat.min_eq_left (Nat.min_le_left _ _)]

theorem writeLoop_ok (hr : r.Reaches) (hfuel : data.length ≤ fuel)
    (hlt : addr + data.length < 2 ^ 32) (hcap : addr + data.length ≤ r.capacityBytes)
    (h : r.writeLoop fuel addr data hw = (.ok (), hw')) :
    hw'.flash = Nor.program hw.flash addr data := by
  induction fuel generalizing addr data hw with
  | zero =>
    cases h
    rw [length_eq_zero_iff.mp (Nat.le_zero.mp hfuel), program_nil]
  | succ fuel ih =>
    rw [writeLoop] at h
    split at h
    next hmore =>
      obtain ⟨_, hw₁, hfirst, hrest⟩ := bind_eq_ok.mp h
      obtain ⟨hmod, hlen, hdrop⟩ := chunk_spec addr data
      rw [ih (by omega) (by omega) (by omega) hrest,
        programChunk_ok hr (by omega) (by omega) (by omega) hfirst, program_append _ _ hlen,
        take_append_drop]
    next hdone =>
      cases h
      rw [length_eq_zero_iff.mp (Nat.le_zero.mp (Nat.not_lt.mp hdone)), program_nil]

theorem sends_writeLoop {lo hi : Nat} (hlo : lo ≤ addr) (hhi : addr + data.length ≤ hi)
    (hchip : addr + data.length ≤ r.capacityBytes) :
    Keeps (Sends r lo hi) (r.writeLoop fuel addr data) := by
  induction fuel generalizing addr data with
  | zero => exact .pure Sends.refl _
  | succ fuel ih =>
    rw [writeLoop]
    split
    next hmore =>
      obtain ⟨hmod, hlen, hdrop⟩ := chunk_spec addr data
      exact .bind Sends.trans (sends_programChunk (by omega) hlo (by omega) (by omega))
        fun _ => ih (by omega) (by omega) (by omega)
    next => exact .pure Sends.refl _

end Write

/-! ## Read -/

section Read

variable {r : MpiResource} {c : Command} {fuel : Nat} {buf out : List UInt8} {hw hw' : Hw}

theorem receive_ok {n : Nat} (hlen : n ≤ c.len) (hfuel : c.len - n ≤ fuel)
    (h : receive c fuel (slice hw.flash c.sent n) hw = (.ok out, hw')) :
    out = slice hw.flash c.sent c.len := by
  induction fuel generalizing n hw with
  | zero =>
    cases h
    rw [show n = c.len by omega]
  | succ fuel ih =>
    rw [receive, length_slice] at h
    split at h
    next hmore =>
      obtain ⟨_, hw₁, hwait, h⟩ := bind_eq_ok.mp h
      obtain ⟨word, hw₂, hword, h⟩ := bind_eq_ok.mp h
      have hflash := flash_of_quiet (quiet_wait _) hwait
      cases hword
      have hnext : slice hw.flash c.sent n ++ (leBytes 4 (UInt32.ofNat (leNat
          (slice hw₁.flash (c.sent + n) 4))).toNat).take (c.len - n) =
          slice hw₁.flash c.sent (n + min 4 (c.len - n)) := by
        rw [leBytes_packed (Nat.le_of_eq (length_slice _ _ _)), length_slice, replicate_zero,
          append_nil, hflash, slice_add,
          ← slice_take _ (c.sent + n) (Nat.min_le_left 4 (c.len - n))]
        congr 1
        rw [take_eq_take_iff, length_slice]
        omega
      rw [hnext] at h
      rw [ih (by omega) (by omega) h, hflash]
    next hdone =>
      cases h
      rw [show n = c.len by omega]

theorem read_ok (hr : r.Reaches) {address len : Nat} (h : r.read address len hw = (.ok out, hw')) :
    out = slice hw.flash address len ∧ hw'.flash = hw.flash := by
  rw [read] at h
  split at h
  next hzero =>
    cases h
    exact ⟨by rw [hzero]; rfl, rfl⟩
  next hpos =>
    split at h
    · cases h
    · obtain ⟨_, hw₁, hrange, h₁⟩ := bind_eq_ok.mp h
      obtain ⟨_, rfl, hlt, hcap⟩ := rangeEnd_eq_ok hrange
      obtain ⟨_, hw₂, hissue, h₂⟩ := bind_eq_ok.mp h₁
      obtain ⟨buf, hw₃, hreceive, h₃⟩ := bind_eq_ok.mp h₂
      obtain ⟨_, hw₄, hwait, h₄⟩ := bind_eq_ok.mp h₃
      cases hissue
      cases h₄
      have hbytes := receive_ok (n := 0) (Nat.zero_le _) (Nat.le_refl _) hreceive
      have hflash := flash_of_quiet (quiet_receive _ _ _) hreceive
      simp only [Command.erases, r.blockSize_cmdRead] at hbytes hflash
      rw [hr.sent_eq rfl (by dsimp only; omega) (by dsimp only; omega)] at hbytes
      exact ⟨hbytes, (flash_of_quiet (quiet_wait _) hwait).trans hflash⟩

theorem sends_read {address len lo hi : Nat} (hlo : lo ≤ address) (hhi : address + len ≤ hi) :
    Keeps (Sends r lo hi) (r.read address len) := by
  rw [read]
  split
  · exact .pure Sends.refl _
  · split
    · exact .fail Sends.refl _
    · exact sends_rangeEnd fun hchip => .bind Sends.trans
        (sends_issue_of_none r.blockSize_cmdRead rfl hlo hhi hchip
          fun hprogram => (nomatch r.isPageProgram_cmdRead.symm.trans hprogram)) fun _ =>
        .bind Sends.trans (Keeps.sends (quiet_receive _ _ _)) fun _ =>
        .bind Sends.trans (Keeps.sends (quiet_wait _)) fun _ => .pure Sends.refl _

end Read

/-! ## Calls -/

section Calls

variable {r : MpiResource} {hw hw' : Hw}

theorem erase_ok (hr : r.Reaches) {address length : Nat}
    (h : r.erase address length hw = (.ok (), hw')) :
    hw'.flash = Nor.erase hw.flash address length := by
  rw [erase] at h
  split at h
  · cases h
  next haddr =>
    split at h
    · cases h
    next hlength =>
      obtain ⟨_, hw₁, hrange, hloop⟩ := bind_eq_ok.mp h
      obtain ⟨rfl, rfl, hlt, hcap⟩ := rangeEnd_eq_ok hrange
      have haddr' := Nat.dvd_of_mod_eq_zero (not_not.mp haddr)
      have hlength' := Nat.dvd_of_mod_eq_zero (not_not.mp hlength)
      have hflash := eraseLoop_ok hr haddr' (Nat.dvd_add haddr' hlength') (by omega) (by omega) hlt
        hcap hloop
      rwa [Nat.add_sub_cancel_left] at hflash

theorem sends_erase (address length : Nat) :
    Keeps (Sends r address (address + length)) (r.erase address length) := by
  rw [erase]
  split
  · exact .fail Sends.refl _
  next haddr =>
    split
    · exact .fail Sends.refl _
    next hlength =>
      have haddr' := Nat.dvd_of_mod_eq_zero (not_not.mp haddr)
      have hlength' := Nat.dvd_of_mod_eq_zero (not_not.mp hlength)
      exact sends_rangeEnd fun hchip =>
        sends_eraseLoop haddr' (Nat.dvd_add haddr' hlength') hchip (Nat.le_refl _)

theorem write_ok (hr : r.Reaches) {address : Nat} {data : List UInt8}
    (h : r.write address data hw = (.ok (), hw')) :
    hw'.flash = Nor.program hw.flash address data := by
  rw [write] at h
  split at h
  next hzero =>
    cases h
    rw [length_eq_zero_iff.mp hzero, program_nil]
  next =>
    obtain ⟨_, hw₁, hrange, hloop⟩ := bind_eq_ok.mp h
    obtain ⟨_, rfl, hlt, hcap⟩ := rangeEnd_eq_ok hrange
    exact writeLoop_ok hr (Nat.le_refl _) hlt hcap hloop

theorem sends_write (address : Nat) (data : List UInt8) :
    Keeps (Sends r address (address + data.length)) (r.write address data) := by
  rw [write]
  split
  · exact .pure Sends.refl _
  · exact sends_rangeEnd fun hchip => sends_writeLoop (Nat.le_refl _) (Nat.le_refl _) hchip

end Calls

end MpiResource

/-! ## Rejected calls -/

section Rejected

open Fallible (Fails bind_eq_error)

def MpiOperationError.isRejection : MpiOperationError → Bool
  | addressOutOfRange => true
  | lengthTooLarge => true
  | invalidAddressAlignment => true
  | invalidLengthAlignment => true
  | _ => false

/-- The hardware fails, not the arguments. -/
abbrev HwFails {α : Type} (x : Driver α) : Prop := Fails (fun e => e.isRejection = false) x

theorem hwFails_wait {e : MpiOperationError} (h : e.isRejection = false) : HwFails (wait e) := by
  intro hw e' hw' heq
  rw [wait] at heq
  split at heq
  · cases heq
  · cases heq
    exact h

theorem hwFails_issue (c : Command) : HwFails (issue c) := fun _ _ _ h => nomatch h

theorem hwFails_readStatus1 : HwFails readStatus1 :=
  .bind (hwFails_issue _) fun _ => .bind (hwFails_wait rfl) fun _ => .bind (hwFails_wait rfl)
    fun _ _ _ _ h => nomatch h

theorem hwFails_writeEnable : HwFails writeEnable := by
  refine .bind (.bind (hwFails_issue _) fun _ => hwFails_wait rfl) fun _ =>
    .bind hwFails_readStatus1 fun sr => ?_
  split
  · exact .fail rfl
  · exact .pure _

theorem hwFails_pollWip (polls : Nat) : HwFails (pollWip polls) := by
  induction polls with
  | zero => exact .fail rfl
  | succ polls ih =>
    refine .bind hwFails_readStatus1 fun sr => ?_
    split
    · exact .pure _
    · exact ih

namespace MpiResource

variable {r : MpiResource}

theorem hwFails_sendWords (words : List UInt32) : HwFails (sendWords words) := by
  induction words with
  | nil => exact .pure _
  | cons w words ih => exact .bind (hwFails_wait rfl) fun _ => ih

theorem hwFails_receive (c : Command) (fuel : Nat) (buf : List UInt8) :
    HwFails (receive c fuel buf) := by
  induction fuel generalizing buf with
  | zero => exact .pure _
  | succ fuel ih =>
    rw [receive]
    split
    · exact .bind (hwFails_wait rfl) fun _ => .bind (fun _ _ _ h => nomatch h) fun _ => ih _
    · exact .pure _

theorem hwFails_writeLoop (fuel addr : Nat) (data : List UInt8) :
    HwFails (r.writeLoop fuel addr data) := by
  induction fuel generalizing addr data with
  | zero => exact .pure _
  | succ fuel ih =>
    rw [writeLoop]
    split
    · exact .bind (.bind hwFails_writeEnable fun _ => .bind (hwFails_issue _) fun _ =>
        .bind (hwFails_sendWords _) fun _ => .bind (fun _ _ _ h => nomatch h) fun _ =>
        .bind (hwFails_wait rfl) fun _ => hwFails_pollWip _) fun _ => ih _ _
    · exact .pure _

theorem hwFails_eraseLoop (stop fuel addr : Nat) : HwFails (r.eraseLoop stop fuel addr) := by
  induction fuel generalizing addr with
  | zero => exact .pure _
  | succ fuel ih =>
    rw [eraseLoop]
    split
    · exact .bind (.bind hwFails_writeEnable fun _ => .bind (.bind (hwFails_issue _) fun _ =>
        hwFails_wait rfl) fun _ => hwFails_pollWip _) fun _ => ih _
    · exact .pure _

variable {hw hw' : Hw} {e : MpiOperationError}

/-- A call that the checks reject leaves everything as it was. -/
theorem rejected_of_rangeEnd {α : Type} {address len : Nat} {f : Nat → Driver α}
    (hf : ∀ stop, HwFails (f stop)) (he : e.isRejection = true)
    (h : (r.rangeEnd address len >>= f) hw = (.error e, hw')) : hw' = hw := by
  rcases bind_eq_error.mp h with hrange | ⟨stop, hw₁, hrange, hrest⟩
  · exact (rangeEnd_eq_error hrange).2
  · have hfails : e.isRejection = false := hf stop hw₁ e hw' hrest
    rw [he] at hfails
    cases hfails

theorem erase_rejected {address length : Nat} (he : e.isRejection = true)
    (h : r.erase address length hw = (.error e, hw')) : hw' = hw := by
  rw [erase] at h
  split at h
  · cases h
    rfl
  · split at h
    · cases h
      rfl
    · exact rejected_of_rangeEnd (fun stop => hwFails_eraseLoop _ _ _) he h

theorem write_rejected {address : Nat} {data : List UInt8} (he : e.isRejection = true)
    (h : r.write address data hw = (.error e, hw')) : hw' = hw := by
  rw [write] at h
  split at h
  · cases h
  · exact rejected_of_rangeEnd (fun stop => hwFails_writeLoop _ _ _) he h

theorem read_rejected {address len : Nat} (he : e.isRejection = true)
    (h : r.read address len hw = (.error e, hw')) : hw' = hw := by
  rw [read] at h
  split at h
  · cases h
  · split at h
    · cases h
      rfl
    · exact rejected_of_rangeEnd (fun stop => .bind (hwFails_issue _) fun _ =>
        .bind (hwFails_receive _ _ _) fun _ => .bind (hwFails_wait rfl) fun _ => .pure _) he h

end MpiResource

end Rejected

/-! ## The driver as a whole -/

/-- What the three calls promise. -/
structure MpiResource.Faithful (r : MpiResource) : Prop where
  erase : ∀ {address length : Nat} {hw hw' : Hw}, r.erase address length hw = (.ok (), hw') →
    hw'.flash = Nor.erase hw.flash address length
  erase_sends : ∀ (address length : Nat) (hw : Hw),
    Sends r address (address + length) hw (r.erase address length hw).2
  write : ∀ {address : Nat} {data : List UInt8} {hw hw' : Hw},
    r.write address data hw = (.ok (), hw') → hw'.flash = Nor.program hw.flash address data
  write_sends : ∀ (address : Nat) (data : List UInt8) (hw : Hw),
    Sends r address (address + data.length) hw (r.write address data hw).2
  read : ∀ {address len : Nat} {buf : List UInt8} {hw hw' : Hw},
    r.read address len hw = (.ok buf, hw') → buf = slice hw.flash address len ∧ hw'.flash = hw.flash
  read_sends : ∀ (address len : Nat) (hw : Hw),
    Sends r address (address + len) hw (r.read address len hw).2
  rejected : ∀ {e : MpiOperationError} {hw hw' : Hw}, e.isRejection = true →
    (∀ {address length : Nat}, r.erase address length hw = (.error e, hw') → hw' = hw) ∧
    (∀ {address : Nat} {data : List UInt8}, r.write address data hw = (.error e, hw') → hw' = hw) ∧
    ∀ {address len : Nat}, r.read address len hw = (.error e, hw') → hw' = hw

/-- Hardware that is always in time. -/
def readyHw (flash : Nat → UInt8) : Hw :=
  { flash, commands := [], inTime := fun _ => true, status := fun _ => 0x02, asked := 0 }

theorem MpiResource.read_one (r : MpiResource) {address : Nat} (flash : Nat → UInt8)
    (hlt : address + 1 < 2 ^ 32) (hcap : address + 1 ≤ r.capacityBytes) :
    ∃ hw', r.read address 1 (readyHw flash) =
      (.ok [flash (address % 256 ^ r.addrSize.bytes)], hw') ∧
      hw'.commands = [⟨r.cmdRead, some r.addrSize, address, 1⟩] := by
  let c : Command := { opcode := r.cmdRead, addrSize := some r.addrSize, address, len := 1 }
  let hw₁ : Hw := { readyHw flash with commands := [c] }
  let hw₂ : Hw := { hw₁ with asked := 1 }
  have hrange : r.rangeEnd address 1 (readyHw flash) = (.ok (address + 1), readyHw flash) := by
    rw [rangeEnd, if_neg (by omega), if_neg (by omega)]
    rfl
  have hissue : issue c (readyHw flash) = (.ok (), hw₁) := by
    have hflash : c.erases flash = flash := by rw [Command.erases, r.blockSize_cmdRead]
    show (Except.ok (), { readyHw flash with commands := [c], flash := c.erases flash }) = _
    rw [hflash]
    rfl
  have hreceive : receive c 1 [] hw₁ = (.ok [flash (address % 256 ^ r.addrSize.bytes)], hw₂) := by
    have hword : leBytes 4 (UInt32.ofNat (leNat (slice flash (c.sent + 0) 4))).toNat =
        slice flash c.sent 4 := by
      rw [leBytes_packed (Nat.le_of_eq (length_slice _ _ _)), length_slice, replicate_zero,
        append_nil, Nat.add_zero]
    show (Except.ok ([] ++ (leBytes 4 (UInt32.ofNat (leNat
      (slice flash (c.sent + 0) 4))).toNat).take 1), hw₂) = _
    rw [hword]
    rfl
  rw [read, if_neg Nat.one_ne_zero, if_neg (by decide), bind_of_ok hrange, bind_of_ok hissue,
    bind_of_ok hreceive]
  exact ⟨_, rfl, rfl⟩

/-- The driver keeps its promises exactly for the chips whose addresses fit the width. -/
theorem driver_faithful_iff (r : MpiResource) : r.Faithful ↔ r.Reaches := by
  constructor
  · intro h
    by_contra hr
    rw [MpiResource.Reaches] at hr
    have hbytes : 256 ^ r.addrSize.bytes + 1 < 2 ^ 32 := by
      cases hsize : r.addrSize <;> rw [hsize] at hr <;> simp only [AddrSize.bytes] at hr ⊢ <;> omega
    -- The first address that does not fit is taken for 0.
    obtain ⟨hw', hread, -⟩ := r.read_one (fun i => if i = 0 then 1 else 0) hbytes (by omega)
    have hslice := (h.read hread).1
    simp [slice, readyHw] at hslice
  · intro hr
    exact
      { erase := fun h => r.erase_ok hr h
        erase_sends := r.sends_erase
        write := fun h => r.write_ok hr h
        write_sends := r.sends_write
        read := fun h => r.read_ok hr h
        read_sends := fun address len => r.sends_read (Nat.le_refl _) (Nat.le_refl _)
        rejected := fun he => ⟨r.erase_rejected he, r.write_rejected he, r.read_rejected he⟩ }

/-- A chip of 32 MiB that takes three address bytes only. -/
def wideChip : MpiResource :=
  { addrSize := .threeBytes, capacityBytes := 32 * 1024 * 1024, readMode := .singleStandard }

/-- Erasing the first sector of its upper half erases the first sector of the chip. -/
theorem erase_wraps :
    resolveAddrSize wideChip.capacityBytes .threeOnly = some wideChip.addrSize ∧
      (wideChip.erase 0x1000000 4096 (readyHw fun _ => 0x00)).1.isOk = true ∧
      (wideChip.erase 0x1000000 4096 (readyHw fun _ => 0x00)).2.flash 0 = 0xFF ∧
      (wideChip.erase 0x1000000 4096 (readyHw fun _ => 0x00)).2.flash 0x1000000 = 0x00 := by
  refine ⟨rfl, ?_, ?_, ?_⟩
  · decide +kernel
  · decide +kernel
  · decide +kernel

end Rcard.Mpi
