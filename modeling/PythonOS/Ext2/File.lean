import PythonOS.Ext2.Driver

/-!
# PythonOS.Ext2.File

File data (`kernel/fs/ext2.py`): the walk from a file block to the block that
holds it through direct, single- and double-indirect pointers, and reading,
writing and truncating.

The inode a function works on is a copy (`raw`) that it changes and its caller
writes back; functions that change it return it. Offsets are Python integers, so
they may be negative.
-/

namespace PythonOS.Ext2

open Lib Lib.Bytes

/-- `_ptrs_per_block`. -/
def ptrsPerBlock (s : Ext2FS) : Nat := s.blockSize / 4

/-- Entry `i` of an indirect block. -/
def readEntry (block i : Nat) : FS Nat := do
  let r ← readBlock block
  let blk ← load r
  unpack 4 blk (i * 4 : Nat)

/-- The data block that entry `i` of the indirect block `ind` gives, if there is one. -/
def followEntry (ind i : Nat) : FS Nat :=
  if ind = 0 then return 0 else readEntry ind i

/-- `_resolve_block`: the block that holds `fileBlock`, 0 for a hole. -/
def resolveBlock (raw : Bytes) (fileBlock : Int) : FS Nat := do
  let ppb := ptrsPerBlock (← get)
  if fileBlock < nDirBlocks then iBlockN raw fileBlock
  else
    let rel := (fileBlock - nDirBlocks).toNat
    if rel < ppb then do
      let ind ← iBlockN raw indBlock
      followEntry ind rel
    else
      let rel := rel - ppb
      if rel < ppb * ppb then do
        let dind ← iBlockN raw dindBlock
        let ind ← followEntry dind (rel / ppb)
        followEntry ind (rel % ppb)
      else throw (.notImplemented "triple-indirect blocks not supported")

/-- `i_blocks` counts the sectors of one more block. -/
def addBlock (raw : Bytes) : FS Bytes := do
  let n ← iBlocks raw
  setIBlocks raw (n + (← get).sectorsPerBlock : Nat)

/-- A new block, zeroed. -/
def allocZeroed : FS Nat := do
  let phys ← allocBlock
  let zero ← zeroBlock
  writeBlock phys (.bytes zero)
  return phys

/-- `_allocate_block_for`: the block that pointer `n` of the inode gives, a new
one if there is none. -/
def ensurePointer (raw : Bytes) (n : Int) : FS (Nat × Bytes) := do
  let phys ← iBlockN raw n
  if phys = 0 then do
    let phys ← allocZeroed
    let raw ← setIBlockN raw n phys
    let raw ← addBlock raw
    return (phys, raw)
  else return (phys, raw)

/-- `_allocate_block_for`: the block that entry `i` of the indirect block `ind`
gives, a new one if there is none. -/
def ensureEntry (raw : Bytes) (ind i : Nat) : FS (Nat × Bytes) := do
  let r ← readBlock ind
  let blk ← load r
  let phys ← unpack 4 blk (i * 4 : Nat)
  if phys = 0 then do
    let phys ← allocZeroed
    writeBack ind r fun blk => pack 4 blk (i * 4 : Nat) phys
    let raw ← addBlock raw
    return (phys, raw)
  else return (phys, raw)

/-- `_allocate_block_for`: the block for `fileBlock`, and the inode with it. -/
def allocateBlockFor (raw : Bytes) (fileBlock : Int) : FS (Nat × Bytes) := do
  let ppb := ptrsPerBlock (← get)
  if fileBlock < nDirBlocks then ensurePointer raw fileBlock
  else
    let rel := (fileBlock - nDirBlocks).toNat
    if rel < ppb then do
      let (ind, raw) ← ensurePointer raw indBlock
      ensureEntry raw ind rel
    else
      let rel := rel - ppb
      if rel < ppb * ppb then do
        let (dind, raw) ← ensurePointer raw dindBlock
        let (ind, raw) ← ensureEntry raw dind (rel / ppb)
        ensureEntry raw ind (rel % ppb)
      else throw (.notImplemented "triple-indirect blocks not supported")

/-! ### `_free_all_blocks` -/

/-- What the entries of an indirect block lead to, from entry `i` on, is freed by
`free`. -/
def freeEntries (free : Nat → FS Unit) (r : Ref) : (k i : Nat) → FS Unit
  | 0, _ => return ()
  | k + 1, i => do
    let blk ← load r
    let p ← unpack 4 blk (i * 4 : Nat)
    if p = 0 then freeEntries free r k (i + 1)
    else do
      free p
      freeEntries free r k (i + 1)

/-- What an indirect block leads to, and then the block. -/
def freeTree (free : Nat → FS Unit) (b : Nat) : FS Unit := do
  let r ← readBlock b
  freeEntries free r (ptrsPerBlock (← get)) 0
  freeBlock b

/-- An indirect block and its data blocks. -/
def freeIndirect : Nat → FS Unit := freeTree freeBlock

/-- A double-indirect block, its indirect blocks and their data blocks. -/
def freeDoubleIndirect : Nat → FS Unit := freeTree freeIndirect

/-- What pointer `n` of the inode leads to is freed by `free`. -/
def freePointer (raw : Bytes) (n : Int) (free : Nat → FS Unit) : FS Bytes := do
  let b ← iBlockN raw n
  if b = 0 then return raw
  else do
    free b
    setIBlockN raw n 0

/-- The direct blocks `n`, ..., `n + k - 1`. -/
def freeDirect : (k n : Nat) → Bytes → FS Bytes
  | 0, _, raw => return raw
  | k + 1, n, raw => do
    let raw ← freePointer raw n freeBlock
    freeDirect k (n + 1) raw

/-- `_free_all_blocks`. Triple-indirect blocks are skipped. -/
def freeAllBlocks (raw : Bytes) : FS Bytes := do
  let raw ← freeDirect nDirBlocks 0 raw
  let raw ← freePointer raw indBlock freeIndirect
  let raw ← freePointer raw dindBlock freeDoubleIndirect
  setIBlocks raw 0

/-! ### File size -/

/-- `_file_size`. -/
def fileSize (raw : Bytes) : Except Error Nat := do
  let size ← iSize raw
  let mode ← iMode raw
  if modeFormat mode = sIfReg then do
    let high ← unpack 4 raw 108
    return size ||| high <<< 32
  else return size

/-- `_set_file_size`. -/
def setFileSize (raw : Bytes) (size : Int) : Except Error Bytes := do
  let raw ← pack 4 raw 4 (size % 2 ^ 32)
  let mode ← iMode raw
  if modeFormat mode = sIfReg then pack 4 raw 108 (size / 2 ^ 32 % 2 ^ 32)
  else return raw

/-! ### Reading -/

/-- The part of a file block to read, of a hole if `phys` is 0. -/
def readPart (phys inBlk chunk : Nat) : FS Bytes :=
  if phys = 0 then return zeros chunk
  else do
    let r ← readBlock phys
    let blk ← load r
    return slice blk inBlk (inBlk + chunk)

/-- The bytes from `cur` to `stop`. The loop ends at `stop`, which is at most
`fuel` away. -/
def readLoop (raw : Bytes) (stop : Int) : (fuel : Nat) → Int → FS Bytes
  | 0, _ => return []
  | fuel + 1, cur =>
    if cur < stop then do
      let bs := (← get).blockSize
      let inBlk := (cur % bs).toNat
      let chunk := min (bs - inBlk) (stop - cur).toNat
      let phys ← resolveBlock raw (cur / bs)
      let part ← readPart phys inBlk chunk
      let rest ← readLoop raw stop fuel (cur + chunk)
      return part ++ rest
    else return []

/-- `_read_file_data`. -/
def readFileData (ino : Nat) (offset n : Int) : FS Bytes := do
  let raw ← readInode ino
  let size ← fileSize raw
  if offset ≥ size then return []
  else
    let stop := min (offset + n) size
    readLoop raw stop (stop - offset).toNat offset

/-! ### Writing -/

/-- The bytes of `data` from `di` on go to the file from `cur` on. -/
def writeLoop (data : Bytes) (stop : Int) : (fuel : Nat) → Int → (di : Nat) → Bytes → FS Bytes
  | 0, _, _, raw => return raw
  | fuel + 1, cur, di, raw =>
    if cur < stop then do
      let bs := (← get).blockSize
      let inBlk := (cur % bs).toNat
      let chunk := min (bs - inBlk) (stop - cur).toNat
      let (phys, raw) ← allocateBlockFor raw (cur / bs)
      let r ← readBlock phys
      writeBack phys r fun blk => .ok (splice blk inBlk (slice data di (di + chunk)))
      writeLoop data stop fuel (cur + chunk) (di + chunk) raw
    else return raw

/-- The size after a write that ends at `stop`. -/
def growTo (raw : Bytes) (stop : Int) : Except Error Bytes := do
  let size ← fileSize raw
  if stop > size then setFileSize raw stop else return raw

/-- `_write_file_data`. -/
def writeFileData (ino : Nat) (offset : Int) (data : Bytes) : FS Nat := do
  let raw ← readInode ino
  let raw ← writeLoop data (offset + data.length) data.length offset 0 raw
  let raw ← growTo raw (offset + data.length)
  writeInode ino raw
  return data.length

/-! ### Truncating -/

/-- Entry `i` of an indirect block is set to 0. -/
def clearEntry (ind i : Nat) : FS Unit := do
  let r ← readBlock ind
  writeBack ind r fun blk => pack 4 blk (i * 4 : Nat) 0

/-- The pointer to `fileBlock` is set to 0, in the inode or in its indirect block. -/
def clearPointer (raw : Bytes) (fileBlock : Int) : FS Bytes := do
  let ppb := ptrsPerBlock (← get)
  if fileBlock < nDirBlocks then setIBlockN raw fileBlock 0
  else
    let rel := (fileBlock - nDirBlocks).toNat
    if rel < ppb then do
      let ind ← iBlockN raw indBlock
      clearEntry ind rel
      return raw
    else do
      let rel := rel - ppb
      let dind ← iBlockN raw dindBlock
      let ind ← readEntry dind (rel / ppb)
      clearEntry ind (rel % ppb)
      return raw

/-- `i_blocks` counts the sectors of one block less. -/
def dropBlock (raw : Bytes) : FS Bytes := do
  let n ← iBlocks raw
  setIBlocks raw (max 0 ((n : Int) - (← get).sectorsPerBlock))

/-- One block past the new end. -/
def truncateBlock (raw : Bytes) (fileBlock : Int) : FS Bytes := do
  let phys ← resolveBlock raw fileBlock
  if phys = 0 then return raw
  else do
    freeBlock phys
    let raw ← clearPointer raw fileBlock
    dropBlock raw

/-- The blocks `fileBlock`, ..., `fileBlock + n - 1`. -/
def truncateBlocks : (n : Nat) → Int → Bytes → FS Bytes
  | 0, _, raw => return raw
  | n + 1, fileBlock, raw => do
    let raw ← truncateBlock raw fileBlock
    truncateBlocks n (fileBlock + 1) raw

/-- The tail of the block the new end lies in is zeroed. -/
def zeroTail (raw : Bytes) (size : Int) : FS Unit := do
  let bs := (← get).blockSize
  if size > 0 ∧ size % bs ≠ 0 then do
    let phys ← resolveBlock raw (size / bs)
    if phys = 0 then return ()
    else do
      let r ← readBlock phys
      let tail := (size % bs).toNat
      writeBack phys r fun blk => .ok (splice blk tail (zeros (bs - tail)))
  else return ()

/-- `(size + bs - 1) // bs`. -/
def blocksFor (size : Int) (bs : Nat) : Int := (size + bs - 1) / bs

/-- `_truncate_file` to less than the current size. -/
def shrinkFile (ino : Nat) (raw : Bytes) (curSize size : Int) : FS Unit := do
  let bs := (← get).blockSize
  let lastKept := blocksFor size bs
  let raw ← truncateBlocks (blocksFor curSize bs - lastKept).toNat lastKept raw
  zeroTail raw size
  let raw ← setFileSize raw size
  writeInode ino raw

/-- `_truncate_file`. -/
def truncateFile (ino : Nat) (size : Int) : FS Unit := do
  let raw ← readInode ino
  let curSize ← fileSize raw
  if size ≥ curSize then do
    let raw ← setFileSize raw size
    writeInode ino raw
  else shrinkFile ino raw curSize size

end PythonOS.Ext2
