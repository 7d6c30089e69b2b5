/-
NOR flash.

Erasing sets bytes to `0xFF`.  Programming can only clear bits: a programmed byte is the
old one and the new one, bit by bit.  On erased bytes it is a write.
-/
import Rcard.Lib.Mem

namespace Rcard.Nor

def program (m : Nat → UInt8) (start : Nat) (values : List UInt8) : Nat → UInt8 := fun i =>
  if start ≤ i then m i &&& (values[i - start]?).getD 0xFF else m i

def erase (m : Nat → UInt8) (start n : Nat) : Nat → UInt8 := Mem.fill m start n 0xFF

variable (m : Nat → UInt8) {start n i : Nat} {values : List UInt8}

theorem and_ff (b : UInt8) : b &&& 0xFF = b := by
  apply UInt8.toBitVec_inj.mp
  exact BitVec.and_allOnes

theorem ff_and (b : UInt8) : 0xFF &&& b = b := by rw [UInt8.and_comm, and_ff]

theorem program_of_lt (values : List UInt8) (h : i < start) : program m start values i = m i :=
  if_neg (by omega)

theorem program_of_ge (h : start + values.length ≤ i) : program m start values i = m i := by
  rw [program, if_pos (by omega), List.getElem?_eq_none (by omega), Option.getD_none, and_ff]

theorem program_eq_write (h : ∀ k < values.length, m (start + k) = 0xFF) :
    program m start values = Mem.write m start values := by
  funext i
  by_cases hlt : i < start
  · rw [program_of_lt m values hlt, Mem.write_of_lt m values hlt]
  · by_cases hge : start + values.length ≤ i
    · rw [program_of_ge m hge, Mem.write_of_ge m hge]
    · have hi := h (i - start) (by omega)
      rw [show start + (i - start) = i by omega] at hi
      rw [program, Mem.write, if_pos (by omega), if_pos (by omega), hi,
        List.getElem?_eq_getElem (by omega), ff_and]

/-- Two programs one behind the other are one. -/
theorem program_append (start : Nat) {xs : List UInt8} {k : Nat} (h : xs.length = k)
    (ys : List UInt8) :
    program (program m start xs) (start + k) ys = program m start (xs ++ ys) := by
  subst h
  funext i
  by_cases hlt : i < start + xs.length
  · grind [program]
  · rw [program, if_pos (by omega), program_of_ge m (by omega), program, if_pos (by omega),
      List.getElem?_append_right (by omega), Nat.sub_sub]

theorem program_nil (start : Nat) : program m start [] = m := by
  funext i
  by_cases h : i < start
  · exact program_of_lt m [] h
  · exact program_of_ge m (by simpa using h)

theorem erase_of_mem (h : start ≤ i) (h' : i < start + n) : erase m start n i = 0xFF :=
  if_pos ⟨h, h'⟩

theorem erase_of_lt (n : Nat) (h : i < start) : erase m start n i = m i := if_neg (by omega)

theorem erase_of_ge (h : start + n ≤ i) : erase m start n i = m i := if_neg (by omega)

theorem erase_zero (start : Nat) : erase m start 0 = m := by
  funext i
  exact if_neg (by omega)

theorem erase_add (start n k : Nat) :
    erase (erase m start n) (start + n) k = erase m start (n + k) := by
  funext i
  by_cases hin : start ≤ i ∧ i < start + (n + k)
  · rw [erase_of_mem m hin.1 hin.2]
    by_cases hfirst : i < start + n
    · rw [erase_of_lt _ _ hfirst, erase_of_mem m hin.1 hfirst]
    · exact erase_of_mem _ (by omega) (by omega)
  · by_cases hlt : i < start
    · rw [erase_of_lt _ _ (by omega), erase_of_lt m _ hlt, erase_of_lt m _ hlt]
    · rw [erase_of_ge _ (by omega), erase_of_ge m (by omega), erase_of_ge m (by omega)]

/-! ## Commands of a chip -/

/-- A page program wraps inside its page. -/
def programPage (page : Nat) (m : Nat → UInt8) (addr : Nat) (values : List UInt8) : Nat → UInt8 :=
  fun i =>
    if i / page = addr / page then
      m i &&& (values[(i % page + page - addr % page) % page]?).getD 0xFF
    else m i

/-- A block erase takes the block its address lies in. -/
def eraseBlock (size : Nat) (m : Nat → UInt8) (addr : Nat) : Nat → UInt8 :=
  erase m (addr - addr % size) size

theorem programPage_eq {page addr : Nat} (hpage : 0 < page)
    (h : addr % page + values.length ≤ page) :
    programPage page m addr values = program m addr values := by
  funext i
  have haddr := Nat.div_add_mod addr page
  have hi := Nat.div_add_mod i page
  by_cases hin : addr ≤ i ∧ i < addr + values.length
  · have hsplit : i = page * (addr / page) + (addr % page + (i - addr)) := by omega
    have hlt : addr % page + (i - addr) < page := by omega
    have hdiv : i / page = addr / page := by
      rw [hsplit, Nat.mul_add_div hpage, Nat.div_eq_of_lt hlt, Nat.add_zero]
    have hmod : i % page = addr % page + (i - addr) := by
      rw [hsplit, Nat.mul_add_mod, Nat.mod_eq_of_lt hlt]
      omega
    have hindex : (i % page + page - addr % page) % page = i - addr := by
      rw [hmod, show addr % page + (i - addr) + page - addr % page = i - addr + page by omega,
        Nat.add_mod_right, Nat.mod_eq_of_lt (by omega)]
    rw [programPage, if_pos hdiv, hindex, program, if_pos hin.1]
  · have hprogram : program m addr values i = m i := by
      by_cases hlt : i < addr
      · exact program_of_lt m values hlt
      · exact program_of_ge m (by omega)
    rw [hprogram, programPage]
    split
    next hdiv =>
      rw [hdiv] at hi
      have hmod := Nat.mod_lt i hpage
      have hindex : values.length ≤ (i % page + page - addr % page) % page := by
        by_cases hlt : i < addr
        · rw [Nat.mod_eq_of_lt (by omega)]
          omega
        · rw [show i % page + page - addr % page = i - addr + page by omega, Nat.add_mod_right,
            Nat.mod_eq_of_lt (by omega)]
          omega
      rw [List.getElem?_eq_none hindex, Option.getD_none, and_ff]
    next => rfl

theorem eraseBlock_eq {size addr : Nat} (h : size ∣ addr) :
    eraseBlock size m addr = erase m addr size := by
  rw [eraseBlock, Nat.mod_eq_zero_of_dvd h, Nat.sub_zero]

end Rcard.Nor
