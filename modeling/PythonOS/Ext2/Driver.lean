import Mathlib.Logic.Function.Basic
import PythonOS.Lib.Bytes
import PythonOS.Lib.Coro

/-!
# PythonOS.Ext2.Driver

The ext2 driver (`kernel/fs/ext2.py`) up to the inodes: mounting, block I/O with
its cache, bitmaps and group descriptors, inodes.

The functions are coroutines on the driver together with its device. A cached
block is a mutable `bytearray`: `readBlock` returns a reference to it, and writing
into it changes the cache before `writeBlock` brings it to the device and puts a
copy of its own in the cache.
-/

namespace PythonOS.Ext2

open Lib Lib.Bytes Function

/-- The exceptions of the driver. -/
inductive Error
  | struct
  | value (message : String)
  | os (message : String)
  | index
  | zeroDivision
  | notImplemented (message : String)
  | fileNotFound (name : String)
  | fileExists (name : String)
  | isADirectory
  | notADirectory
  deriving Repr, DecidableEq

def sectorSize : Nat := 512
def bgdSize : Nat := 32
def superMagic : Nat := 0xEF53
def rootIno : Nat := 2
def nDirBlocks : Nat := 12
def indBlock : Nat := 12
def dindBlock : Nat := 13

/-- `_Superblock`: the fields the driver uses, and the block itself. -/
structure Superblock where
  inodesCount : Nat := 0
  blocksCount : Nat := 0
  freeBlocksCount : Int := 0
  freeInodesCount : Int := 0
  firstDataBlock : Nat := 0
  logBlockSize : Nat := 0
  blocksPerGroup : Nat := 0
  inodesPerGroup : Nat := 0
  inodeSize : Nat := 0
  featureIncompat : Nat := 0
  featureRoCompat : Nat := 0
  raw : Bytes := []
  deriving DecidableEq

/-- A mutable buffer. -/
abbrev Ref := Nat

/-- The driver (`Ext2FS`), its device, and the buffers in use. -/
structure Ext2FS where
  dev : Nat → Bytes
  numSectors : Nat
  sb : Superblock := {}
  blockSize : Nat := 0
  sectorsPerBlock : Nat := 0
  bgdt : List Bytes := []
  bgdtBlock : Nat := 0
  blockCache : Nat → Option Ref := fun _ => none
  heap : Ref → Bytes := fun _ => []
  nextRef : Ref := 0

abbrev FS := Coro Error Ext2FS

/-! ### `struct` -/

/-- `struct.unpack_from` of one field. -/
def unpack (w : Nat) (b : Bytes) (off : Int) : Except Error Nat :=
  match unpackFrom w b off with
  | some v => .ok v
  | none => .error .struct

/-- `struct.pack_into` of one field. -/
def pack (w : Nat) (b : Bytes) (off v : Int) : Except Error Bytes :=
  match packInto w b off v with
  | some b => .ok b
  | none => .error .struct

/-- `divmod(a, b)`. -/
def divMod (a : Int) (b : Nat) : Except Error (Int × Nat) :=
  if b = 0 then .error .zeroDivision else .ok (a / b, (a % b).toNat)

/-- `xs[i]`; a negative index counts from the end. -/
def listIndex (len : Nat) (i : Int) : Except Error Nat :=
  let i := if i < 0 then i + len else i
  if 0 ≤ i ∧ i < len then .ok i.toNat else .error .index

/-! ### The device -/

/-- `read_sector`. -/
def readSector (lba : Nat) : FS Bytes := do
  Coro.yield
  let s ← get
  if lba < s.numSectors then return s.dev lba else throw .index

/-- The device takes a sector. -/
def putSector (lba : Nat) (data : Bytes) : FS Unit := do
  let s ← get
  if lba < s.numSectors then set { s with dev := update s.dev lba data }
  else throw .index

/-- `write_sector`. -/
def writeSector (lba : Nat) (data : Bytes) : FS Unit := do
  if data.length ≠ sectorSize then throw (.value "sector write must be 512 bytes")
  else do
    Coro.yield
    putSector lba data
    Coro.yield

/-! ### Buffers -/

/-- What a function is given to write: bytes, or a buffer that is read when its
bytes are needed. -/
inductive Buf
  | bytes (b : Bytes)
  | ref (r : Ref)

def load (r : Ref) : FS Bytes := do return (← get).heap r

def store (r : Ref) (b : Bytes) : FS Unit :=
  modify fun s => { s with heap := update s.heap r b }

def contents : Buf → FS Bytes
  | .bytes b => return b
  | .ref r => load r

/-- Put a new buffer in the cache. -/
def cacheBlock (blockNo : Nat) (b : Bytes) : FS Ref := do
  let s ← get
  set { s with
    heap := update s.heap s.nextRef b
    blockCache := update s.blockCache blockNo (some s.nextRef)
    nextRef := s.nextRef + 1 }
  return s.nextRef

/-! ### Block I/O -/

/-- `n` sectors from `lba` on. -/
def readSectors (lba : Nat) : (n : Nat) → FS Bytes
  | 0 => return []
  | n + 1 => do
    let sector ← readSector lba
    let rest ← readSectors (lba + 1) n
    return sector ++ rest

/-- `_read_block`. -/
def readBlock (blockNo : Nat) : FS Ref := do
  let s ← get
  match s.blockCache blockNo with
  | some r => return r
  | none => do
    let buf ← readSectors (blockNo * s.sectorsPerBlock) s.sectorsPerBlock
    cacheBlock blockNo buf

/-- The sectors `i`, ..., `i + n - 1` of a block go to the device. -/
def writeSectors (blockNo : Nat) (data : Buf) : (n i : Nat) → FS Unit
  | 0, _ => return ()
  | n + 1, i => do
    let b ← contents data
    let s ← get
    writeSector (blockNo * s.sectorsPerBlock + i)
      (slice b (i * sectorSize) ((i + 1) * sectorSize))
    writeSectors blockNo data n (i + 1)

/-- `_write_block`. -/
def writeBlock (blockNo : Nat) (data : Buf) : FS Unit := do
  let s ← get
  let b ← contents data
  if b.length ≠ s.blockSize then throw (.value "block write must be of the block size")
  else do
    writeSectors blockNo data s.sectorsPerBlock 0
    let b ← contents data
    let _ ← cacheBlock blockNo b

/-- Write into the buffer of a block, then write the block. -/
def writeBack (blockNo : Nat) (r : Ref) (f : Bytes → Except Error Bytes) : FS Unit := do
  let b ← load r
  let b ← f b
  store r b
  writeBlock blockNo (.ref r)

/-- `_zero_block`. -/
def zeroBlock : FS Bytes := do return zeros (← get).blockSize

/-! ### Mounting -/

namespace Superblock

/-- A field of revision 1, or its value for revision 0. -/
def revField (w : Nat) (blob : Bytes) (off : Int) (revLevel old : Nat) : Except Error Nat :=
  if 1 ≤ revLevel then unpack w blob off else .ok old

/-- `_Superblock.parse`. -/
def parse (blob : Bytes) : Except Error Superblock := do
  let inodesCount ← unpack 4 blob 0
  let blocksCount ← unpack 4 blob 4
  let freeBlocksCount ← unpack 4 blob 12
  let freeInodesCount ← unpack 4 blob 16
  let firstDataBlock ← unpack 4 blob 20
  let logBlockSize ← unpack 4 blob 24
  let blocksPerGroup ← unpack 4 blob 32
  let inodesPerGroup ← unpack 4 blob 40
  let magic ← unpack 2 blob 56
  if magic ≠ superMagic then throw (.value "bad ext2 magic")
  else do
    let revLevel ← unpack 4 blob 76
    let inodeSize ← revField 2 blob 88 revLevel 128
    let featureIncompat ← revField 4 blob 96 revLevel 0
    let featureRoCompat ← revField 4 blob 100 revLevel 0
    return {
      inodesCount, blocksCount, freeBlocksCount, freeInodesCount, firstDataBlock, logBlockSize,
      blocksPerGroup, inodesPerGroup, inodeSize, featureIncompat, featureRoCompat, raw := blob }

def blockSize (sb : Superblock) : Nat := 1024 <<< sb.logBlockSize

/-- `num_groups`. -/
def numGroups (sb : Superblock) : Nat :=
  (sb.blocksCount - sb.firstDataBlock + sb.blocksPerGroup - 1) / sb.blocksPerGroup

/-- `serialize_counters`. -/
def serializeCounters (sb : Superblock) : Except Error Superblock := do
  let raw ← pack 4 sb.raw 12 sb.freeBlocksCount
  let raw ← pack 4 raw 16 sb.freeInodesCount
  return { sb with raw }

end Superblock

/-- Feature bits other than those in `supported`. -/
def unsupported (features supported : Nat) : Bool := features &&& supported ≠ features

/-- `_read_superblock`. -/
def readSuperblock : FS Unit := do
  let sec0 ← readSector 2
  let sec1 ← readSector 3
  let sb ← Superblock.parse (sec0 ++ sec1)
  if unsupported sb.featureIncompat 0x2 then throw (.notImplemented "unsupported incompat features")
  else if unsupported sb.featureRoCompat 0x7 then
    throw (.notImplemented "unsupported ro_compat features")
  else if sb.blockSize < sectorSize ∨ sb.blockSize % sectorSize ≠ 0 then
    throw (.value "bad block size")
  else
    modify fun s => { s with
      sb, blockSize := sb.blockSize, sectorsPerBlock := sb.blockSize / sectorSize }

/-- The blocks `blockNo`, ..., `blockNo + n - 1`. -/
def readBlocks (blockNo : Nat) : (n : Nat) → FS Bytes
  | 0 => return []
  | n + 1 => do
    let r ← readBlock blockNo
    let b ← load r
    let rest ← readBlocks (blockNo + 1) n
    return b ++ rest

/-- `_read_bgdt`. -/
def readBgdt : FS Unit := do
  let s ← get
  let bgdtBlock := if s.blockSize = 1024 then s.sb.firstDataBlock + 1 else 1
  let ngroups := s.sb.numGroups
  let more := (ngroups * bgdSize + s.blockSize - 1) / s.blockSize - 1
  let full ← readBlocks bgdtBlock (1 + more)
  modify fun s => { s with
    bgdt := (List.range ngroups).map fun i => slice full (i * bgdSize) ((i + 1) * bgdSize)
    bgdtBlock }

/-- `mount`. -/
def mount : FS Unit := do
  readSuperblock
  readBgdt

/-! ### Group descriptors -/

structure Bgd where
  blockBitmap : Nat
  inodeBitmap : Nat
  inodeTable : Nat
  freeBlocks : Nat
  freeInodes : Nat
  usedDirs : Nat
  deriving Repr, DecidableEq

/-- The fields of a descriptor. -/
def Bgd.parse (d : Bytes) : Except Error Bgd := do
  let blockBitmap ← unpack 4 d 0
  let inodeBitmap ← unpack 4 d 4
  let inodeTable ← unpack 4 d 8
  let freeBlocks ← unpack 2 d 12
  let freeInodes ← unpack 2 d 14
  let usedDirs ← unpack 2 d 16
  return { blockBitmap, inodeBitmap, inodeTable, freeBlocks, freeInodes, usedDirs }

/-- `_bgd_get`. -/
def bgdGet (s : Ext2FS) (group : Int) : Except Error Bgd := do
  let g ← listIndex s.bgdt.length group
  Bgd.parse (s.bgdt.getD g [])

/-- The three counters of a descriptor. -/
def setCounters (d : Bytes) (freeBlocks freeInodes usedDirs : Int) : Except Error Bytes := do
  let d ← pack 2 d 12 freeBlocks
  let d ← pack 2 d 14 freeInodes
  pack 2 d 16 usedDirs

/-- `_bgd_set_counters`. -/
def bgdSetCounters (group freeBlocks freeInodes usedDirs : Int) : FS Unit := do
  let s ← get
  let g ← listIndex s.bgdt.length group
  let d ← setCounters (s.bgdt.getD g []) freeBlocks freeInodes usedDirs
  set { s with bgdt := s.bgdt.set g d }

/-- The blocks of the table from the `i`th on. -/
def flushBgdtFrom (full : Bytes) : (n i : Nat) → FS Unit
  | 0, _ => return ()
  | n + 1, i => do
    let s ← get
    let chunk := slice full (i * s.blockSize) ((i + 1) * s.blockSize)
    writeBlock (s.bgdtBlock + i) (.bytes (chunk ++ zeros (s.blockSize - chunk.length)))
    flushBgdtFrom full n (i + 1)

/-- `_flush_bgdt`. -/
def flushBgdt : FS Unit := do
  let s ← get
  let full := s.bgdt.flatten
  flushBgdtFrom full ((full.length + s.blockSize - 1) / s.blockSize) 0

/-- `_flush_superblock`: past the cache. -/
def flushSuperblock : FS Unit := do
  let s ← get
  let sb ← s.sb.serializeCounters
  set { s with sb }
  writeSector 2 (slice sb.raw 0 512)
  writeSector 3 (slice sb.raw 512 1024)

/-- The end of every allocation function: the counters of the group, those of the
superblock, and both go to the device. -/
def updateCounters (group freeBlocks freeInodes usedDirs : Int) (f : Superblock → Superblock) :
    FS Unit := do
  bgdSetCounters group freeBlocks freeInodes usedDirs
  modify fun s => { s with sb := f s.sb }
  flushBgdt
  flushSuperblock

/-! ### Bitmaps -/

/-- Bit `i` of a bitmap. -/
def bitAt (bm : Bytes) (i : Nat) : Bool := (bm.getD (i / 8) 0).toNat.testBit (i % 8)

/-- The search of `_alloc_in_bitmap` from byte `byteI` on, over `n` bytes. -/
def firstClear (bm : Bytes) (count : Nat) : (n byteI : Nat) → Except Error (Option Nat)
  | 0, _ => .ok none
  | n + 1, byteI =>
    match bm[byteI]? with
    | none => .error .index
    | some byte =>
      if byte = 0xFF then firstClear bm count n (byteI + 1)
      else
        -- the inner loop stops at the first index past the end
        let bits := (List.range 8).takeWhile fun bit => byteI * 8 + bit < count
        match bits.find? fun bit => !byte.toNat.testBit bit with
        | some bit => .ok (some (byteI * 8 + bit))
        | none => firstClear bm count n (byteI + 1)

/-- The bitmap with bit `i` set. -/
def setBit (bm : Bytes) (i : Nat) : Bytes :=
  bm.set (i / 8) (UInt8.ofNat ((bm.getD (i / 8) 0).toNat ||| 2 ^ (i % 8)))

/-- The bitmap with bit `i` cleared. -/
def clearBit (bm : Bytes) (i : Nat) : Bytes :=
  bm.set (i / 8) (UInt8.ofNat ((bm.getD (i / 8) 0).toNat &&& (0xFF - 2 ^ (i % 8))))

/-- `_alloc_in_bitmap`. -/
def allocInBitmap (bitmapBlock count : Nat) : FS Nat := do
  let r ← readBlock bitmapBlock
  let bm ← load r
  match ← firstClear bm count ((count + 7) / 8) 0 with
  | none => throw (.os "bitmap full")
  | some idx => do
    writeBack bitmapBlock r fun bm => .ok (setBit bm idx)
    return idx

/-- `_free_in_bitmap`: a bit that is clear already is tolerated. -/
def freeInBitmap (bitmapBlock idx : Nat) : FS Unit := do
  let r ← readBlock bitmapBlock
  let bm ← load r
  if bm.length ≤ idx / 8 then throw .index
  else if bitAt bm idx then writeBack bitmapBlock r fun bm => .ok (clearBit bm idx)
  else return ()

/-- The number of blocks of group `g`: the last one may be short. -/
def groupBlocks (sb : Superblock) (g : Nat) : Nat :=
  if g + 1 = sb.numGroups then sb.blocksCount - (sb.firstDataBlock + g * sb.blocksPerGroup)
  else sb.blocksPerGroup

/-- `_alloc_block` from group `g` on, over `n` groups. -/
def allocBlockFrom : (n g : Nat) → FS Nat
  | 0, _ => throw (.os "no free blocks")
  | n + 1, g => do
    let s ← get
    let d ← bgdGet s g
    if d.freeBlocks = 0 then allocBlockFrom n (g + 1)
    else do
      let idx ← allocInBitmap d.blockBitmap (groupBlocks s.sb g)
      updateCounters g (d.freeBlocks - 1) d.freeInodes d.usedDirs fun sb =>
        { sb with freeBlocksCount := sb.freeBlocksCount - 1 }
      return s.sb.firstDataBlock + g * s.sb.blocksPerGroup + idx

/-- `_alloc_block`. -/
def allocBlock : FS Nat := do allocBlockFrom (← get).sb.numGroups 0

/-- `_free_block`. -/
def freeBlock (blockNo : Nat) : FS Unit := do
  let s ← get
  let (g, idx) ← divMod (blockNo - s.sb.firstDataBlock) s.sb.blocksPerGroup
  let d ← bgdGet s g
  freeInBitmap d.blockBitmap idx
  updateCounters g (d.freeBlocks + 1) d.freeInodes d.usedDirs fun sb =>
    { sb with freeBlocksCount := sb.freeBlocksCount + 1 }

/-- `_alloc_inode` from group `g` on, over `n` groups. -/
def allocInodeFrom (isDir : Bool) : (n g : Nat) → FS Nat
  | 0, _ => throw (.os "no free inodes")
  | n + 1, g => do
    let s ← get
    let d ← bgdGet s g
    if d.freeInodes = 0 then allocInodeFrom isDir n (g + 1)
    else do
      let idx ← allocInBitmap d.inodeBitmap s.sb.inodesPerGroup
      updateCounters g d.freeBlocks (d.freeInodes - 1)
        (if isDir then d.usedDirs + 1 else d.usedDirs) fun sb =>
        { sb with freeInodesCount := sb.freeInodesCount - 1 }
      return g * s.sb.inodesPerGroup + idx + 1

/-- `_alloc_inode`. -/
def allocInode (isDir : Bool) : FS Nat := do allocInodeFrom isDir (← get).sb.numGroups 0

/-- `_free_inode`. -/
def freeInode (ino : Nat) (wasDir : Bool) : FS Unit := do
  let s ← get
  let (g, idx) ← divMod ((ino : Int) - 1) s.sb.inodesPerGroup
  let d ← bgdGet s g
  freeInBitmap d.inodeBitmap idx
  updateCounters g d.freeBlocks (d.freeInodes + 1)
    (if wasDir then (d.usedDirs : Int) - 1 else d.usedDirs) fun sb =>
    { sb with freeInodesCount := sb.freeInodesCount + 1 }

/-! ### Inodes -/

/-- `_inode_location`. -/
def inodeLocation (s : Ext2FS) (ino : Nat) : Except Error (Nat × Nat) := do
  let (g, idx) ← divMod ((ino : Int) - 1) s.sb.inodesPerGroup
  let d ← bgdGet s g
  let byteOff := idx * s.sb.inodeSize
  return (d.inodeTable + byteOff / s.blockSize, byteOff % s.blockSize)

/-- `_read_inode`. -/
def readInode (ino : Nat) : FS Bytes := do
  let s ← get
  let (block, off) ← inodeLocation s ino
  let r ← readBlock block
  let buf ← load r
  return slice buf off (off + s.sb.inodeSize)

/-- `_write_inode`. -/
def writeInode (ino : Nat) (raw : Bytes) : FS Unit := do
  let s ← get
  if raw.length ≠ s.sb.inodeSize then throw (.value "inode raw size mismatch")
  else do
    let (block, off) ← inodeLocation s ino
    let r ← readBlock block
    writeBack block r fun buf => .ok (splice buf off raw)

def iMode (raw : Bytes) : Except Error Nat := unpack 2 raw 0
def iSize (raw : Bytes) : Except Error Nat := unpack 4 raw 4
def iLinks (raw : Bytes) : Except Error Nat := unpack 2 raw 26
def iBlocks (raw : Bytes) : Except Error Nat := unpack 4 raw 28
def iBlockN (raw : Bytes) (n : Int) : Except Error Nat := unpack 4 raw (40 + n * 4)
def setIBlockN (raw : Bytes) (n : Int) (v : Nat) : Except Error Bytes := pack 4 raw (40 + n * 4) v
def setIMode (raw : Bytes) (mode : Nat) : Except Error Bytes := pack 2 raw 0 mode
def setILinks (raw : Bytes) (n : Int) : Except Error Bytes := pack 2 raw 26 n
def setIBlocks (raw : Bytes) (n : Int) : Except Error Bytes := pack 4 raw 28 n

/-- `i_mode & EXT2_S_IFMT`, by its values. -/
def modeFormat (mode : Nat) : Nat := mode &&& 0xF000

def sIfReg : Nat := 0x8000
def sIfDir : Nat := 0x4000
def sIfLnk : Nat := 0xA000

end PythonOS.Ext2
