import PythonOS.Lib.Memory

/-!
# PythonOS.Libc.Malloc

The C heap (`libc/malloc.c`): a buddy allocator over a static region of 512 MiB.

Memory is a flat array of bytes and pointers are addresses in it, so the block
headers, the links of the free lists and the callers' data share one address
space. `base` is the address of `_heap`. The functions are called one at a time
(`heap_lock`).
-/

namespace PythonOS.Libc

open Lib Function

def heapSize : Nat := 512 * 1024 * 1024
def minOrder : Nat := 5
def maxOrder : Nat := 29
def numOrders : Nat := maxOrder - minOrder + 1
def magicFree : Nat := 0xFEEBDAED
def magicUsed : Nat := 0xC0FFEEEE

/-- `sizeof(block_header_t)`: two 32-bit fields and two pointers. -/
def headerSize : Nat := 24

/-- `NULL`. -/
def null : Nat := 0

/-! ### Block headers -/

/-- The fields of `block_header_t`. -/
inductive Field
  | magic | order | prevFree | nextFree
  deriving Repr, DecidableEq

namespace Field

def offset : Field → Nat
  | magic => 0
  | order => 4
  | prevFree => 8
  | nextFree => 16

def width : Field → Nat
  | magic | order => 4
  | prevFree | nextFree => 8

end Field

/-- Memory with the allocator's two static variables. -/
structure Heap where
  mem : Mem
  freeLists : Nat → Nat := fun _ => null
  heapInitialized : Bool := false

/-- `blk->f`. -/
def Heap.get (h : Heap) (blk : Nat) (f : Field) : Nat := h.mem.load (blk + f.offset) f.width

/-- `blk->f = v`. -/
def Heap.set (h : Heap) (blk : Nat) (f : Field) (v : Nat) : Heap :=
  { h with mem := h.mem.store (blk + f.offset) f.width v }

/-- The loop of `order_of`. -/
def orderOfLoop (s : Nat) : (fuel order : Nat) → Nat
  | 0, order => order
  | fuel + 1, order =>
    if 2 ^ order < s ∧ order ≤ maxOrder then orderOfLoop s fuel (order + 1) else order

/-- `order_of`: the addition is in `size_t`. The loop stops at `maxOrder + 1`
at the latest. -/
def orderOf (size : Nat) : Nat := orderOfLoop ((size + headerSize) % 2 ^ 64) numOrders minOrder

section

variable (base : Nat)

/-- `buddy_of`. -/
def buddyOf (blk order : Nat) : Nat :=
  let offset := blk - base
  let buddyOffset := offset ^^^ 2 ^ order
  if buddyOffset ≥ heapSize then null else base + buddyOffset

end

namespace Heap

/-- `free_list_add`. -/
def freeListAdd (h : Heap) (blk order : Nat) : Heap :=
  let idx := order - minOrder
  let h := h.set blk .prevFree null
  let h := h.set blk .nextFree (h.freeLists idx)
  let h := if h.freeLists idx ≠ null then h.set (h.freeLists idx) .prevFree blk else h
  { h with freeLists := update h.freeLists idx blk }

/-- `free_list_remove`. -/
def freeListRemove (h : Heap) (blk order : Nat) : Heap :=
  let idx := order - minOrder
  let h :=
    if h.get blk .prevFree ≠ null then
      h.set (h.get blk .prevFree) .nextFree (h.get blk .nextFree)
    else { h with freeLists := update h.freeLists idx (h.get blk .nextFree) }
  let h :=
    if h.get blk .nextFree ≠ null then
      h.set (h.get blk .nextFree) .prevFree (h.get blk .prevFree)
    else h
  (h.set blk .nextFree null).set blk .prevFree null

variable (base : Nat)

/-- `heap_init`. -/
def heapInit (h : Heap) : Heap :=
  let h := { h with freeLists := fun i => if i < numOrders then null else h.freeLists i }
  let h := h.set base .magic magicFree
  let h := h.set base .order maxOrder
  let h := h.set base .prevFree null
  let h := h.set base .nextFree null
  { h with
    freeLists := update h.freeLists (numOrders - 1) base
    heapInitialized := true }

/-- `if (!heap_initialized) heap_init();` -/
def ensureInit (h : Heap) : Heap := if h.heapInitialized then h else h.heapInit base

/-- The search of `malloc`: the first order from `o` on with a free block, among
the `n` orders up to `maxOrder`. -/
def findOrder (h : Heap) : (n o : Nat) → Option Nat
  | 0, _ => none
  | n + 1, o => if h.freeLists (o - minOrder) ≠ null then some o else h.findOrder n (o + 1)

/-- The split loop of `malloc`: `n` times, from order `need + n` down to `need`,
the upper half of `blk` becomes free. -/
def splitDown (h : Heap) (blk need : Nat) : (n : Nat) → Heap
  | 0 => h
  | n + 1 =>
    let found := need + n
    let buddy := blk + 2 ^ found
    let h := h.set buddy .magic magicFree
    let h := h.set buddy .order found
    let h := h.set buddy .nextFree null
    let h := h.set buddy .prevFree null
    (h.freeListAdd buddy found).splitDown blk need n

/-- `malloc`. -/
def malloc (h : Heap) (size : Nat) : Nat × Heap :=
  let h := h.ensureInit base
  if size = 0 then (null, h)
  else
    let need := orderOf size
    if need > maxOrder then (null, h)
    else
      match h.findOrder (maxOrder + 1 - need) need with
      | none => (null, h)
      | some found =>
        let blk := h.freeLists (found - minOrder)
        let h := h.freeListRemove blk found
        let h := h.splitDown blk need (found - need)
        let h := h.set blk .magic magicUsed
        let h := h.set blk .order need
        (blk + headerSize, h)

/-- The coalescing loop of `free`, for the `n` orders below `maxOrder`: the
block to put on a list, and its order. -/
def coalesce (h : Heap) : (n blk order : Nat) → Nat × Nat × Heap
  | 0, blk, order => (blk, order, h)
  | n + 1, blk, order =>
    let buddy := buddyOf base blk order
    if buddy = null ∨ h.get buddy .magic ≠ magicFree ∨ h.get buddy .order ≠ order then
      (blk, order, h)
    else
      let h := h.freeListRemove buddy order
      let blk := if buddy < blk then buddy else blk
      (h.set blk .order (order + 1)).coalesce n blk (order + 1)

/-- `free`. -/
def free (h : Heap) (ptr : Nat) : Heap :=
  if ptr = null then h
  else
    let blk := ptr - headerSize
    if h.get blk .magic ≠ magicUsed then h
    else
      let h := h.set blk .magic magicFree
      let order := h.get blk .order
      let (blk, order, h) := h.coalesce base (maxOrder - order) blk order
      (h.set blk .magic magicFree).freeListAdd blk order

/-- `calloc`: the product is in `size_t`. -/
def calloc (h : Heap) (n size : Nat) : Nat × Heap :=
  let total := n * size % 2 ^ 64
  let (ptr, h) := h.malloc base total
  if ptr ≠ null then (ptr, { h with mem := h.mem.write ptr (List.replicate total 0) })
  else (ptr, h)

/-- `realloc`. -/
def realloc (h : Heap) (ptr size : Nat) : Nat × Heap :=
  if ptr = null then h.malloc base size
  else if size = 0 then (null, h.free base ptr)
  else
    let oldUsable := 2 ^ h.get (ptr - headerSize) .order - headerSize
    if size ≤ oldUsable then (ptr, h)
    else
      let (newPtr, h) := h.malloc base size
      if newPtr = null then (null, h)
      else
        let h : Heap := { h with mem := h.mem.write newPtr (h.mem.read ptr oldUsable) }
        (newPtr, h.free base ptr)

end Heap

end PythonOS.Libc
