/-
The allocator of the compositor (`sysmodule/compositor/src/heap.rs`).

A first-fit free list that lives in the memory it hands out.  A block starts with its
size.  A free block holds the address of the next free block behind it.  The list is
sorted by address, and a block that is freed is joined with its neighbours.

The model works on a memory of bytes.  A pointer to a link is an address like any other:
that of the list head, which lies in a static outside the region, or that of the `next`
field of a free block.  A walk along the links need not end, so each loop takes a bound
on its rounds and answers `none` when it is used up.
-/
import Rcard.Lib.Align
import Rcard.Lib.Word

namespace Rcard.Heap

open Word

abbrev Ram := Nat → UInt8

def usizeMax : Nat := 2 ^ 32 - 1

def isizeMax : Nat := 2 ^ 31 - 1

/-- `ALIGN`. -/
def align : Nat := 8

/-- `size_of::<usize>()` on the 32-bit target. -/
def headerSize : Nat := 4

/-- `size_of::<FreeNode>()`: a size and a pointer, aligned to eight bytes. -/
def freeNodeSize : Nat := 8

/-- The offset of `next` in a `FreeNode`. -/
def nextOffset : Nat := 4

/-- `core::alloc::Layout`.  The size, rounded up to the alignment, fits an `isize`. -/
structure Layout where
  size : Nat
  align : Nat
  isPow : ∃ k, align = 2 ^ k
  fits : (size + align - 1) / align * align ≤ isizeMax

/-- `init` on the bytes from `base` to `base + len`, with the list head at `inner`. -/
def init (inner : Nat) (m : Ram) (base len : Nat) : Ram :=
  let offset := (align - base % align) % align
  if len ≤ offset then m
  else
    let aligned := base + offset
    let usable := (len - offset) &&& (2 ^ 32 - align)
    if usable < freeNodeSize then m
    else
      let m := store m aligned usable
      let m := store m (aligned + nextOffset) 0
      store m inner aligned

def blockSizeFor (payload : Nat) : Nat :=
  let raw := min (headerSize + max payload 1) usizeMax
  let rounded := Align.alignUp 32 raw align
  max rounded freeNodeSize

/-- The loop of `alloc`, at the link `prev`. -/
def allocFrom (total : Nat) : (rounds : Nat) → Ram → (prev : Nat) → Option (Ram × Nat)
  | 0, _, _ => none
  | rounds + 1, m, prev =>
    let cur := load m prev
    if cur = 0 then some (m, 0)
    else
      let curSize := load m cur
      if total ≤ curSize then
        let next := load m (cur + nextOffset)
        let remainder := curSize - total
        if freeNodeSize ≤ remainder then
          -- The front becomes the allocation, the tail a new free block.
          let leftover := cur + total
          let m := store m leftover remainder
          let m := store m (leftover + nextOffset) next
          let m := store m prev leftover
          let m := store m cur total
          some (m, cur + headerSize)
        else
          let m := store m prev next
          let m := store m cur curSize
          some (m, cur + headerSize)
      else allocFrom total rounds m (cur + nextOffset)

/-- `alloc`: the memory behind it and the pointer, zero for null. -/
def alloc (rounds inner : Nat) (m : Ram) (layout : Layout) : Option (Ram × Nat) :=
  if align < layout.align then some (m, 0)
  else allocFrom (blockSizeFor layout.size) rounds m inner

/-- The walk of `dealloc` to the link where the block belongs. -/
def findLink (block : Nat) : (rounds : Nat) → Ram → (prev : Nat) → Option Nat
  | 0, _, _ => none
  | rounds + 1, m, prev =>
    let cur := load m prev
    if cur = 0 ∨ block < cur then some prev
    else findLink block rounds m (cur + nextOffset)

/-- The walk of `dealloc` to the predecessor of the block in the list. -/
def findPrev (block : Nat) : (rounds : Nat) → Ram → (prevNode cur : Nat) → Option Nat
  | 0, _, _, _ => none
  | rounds + 1, m, prevNode, cur =>
    if cur ≠ 0 ∧ cur ≠ block then findPrev block rounds m cur (load m (cur + nextOffset))
    else some prevNode

/-- Join a free block with the next one in the list if they touch. -/
def coalesce (m : Ram) (node next : Nat) : Ram :=
  if node + load m node = next then
    let m := store m node (load m node + load m next)
    store m (node + nextOffset) (load m (next + nextOffset))
  else m

def dealloc (rounds inner : Nat) (m : Ram) (ptr : Nat) : Option Ram := do
  let block := ptr - headerSize
  let size := load m block
  let prev ← findLink block rounds m inner
  let m := store m block size
  let m := store m (block + nextOffset) (load m prev)
  let m := store m prev block
  let next := load m (block + nextOffset)
  let m := if next ≠ 0 then coalesce m block next else m
  let prevNode ← findPrev block rounds m 0 (load m inner)
  return if prevNode ≠ 0 then coalesce m prevNode block else m

end Rcard.Heap
