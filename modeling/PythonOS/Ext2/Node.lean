import PythonOS.Ext2.File
import PythonOS.Lib.Utf8

/-!
# PythonOS.Ext2.Node

Directories (`kernel/fs/ext2.py`: `_read_dir_entries`, `_add_dir_entry`,
`_remove_dir_entry`) and the operations of `Ext2Node`. A node is its inode number.

A directory block is a chain of records, each with its length; the walks along it
are pure functions of the block, since nothing is awaited on the way. Every record
is at least one byte long, so a walk of the block's size in steps gets to the end.
-/

namespace PythonOS.Ext2

open Lib Lib.Bytes

/-- The fixed part of a directory record. -/
structure Dirent where
  ino : Nat
  recLen : Nat
  nameLen : Nat
  fileType : Nat
  deriving Repr, DecidableEq

/-- `struct.unpack_from("<IHBB", blk, off)`. -/
def dirent (blk : Bytes) (off : Nat) : Except Error Dirent := do
  let ino ← unpack 4 blk off
  let recLen ← unpack 2 blk (off + 4 : Nat)
  let nameLen ← unpack 1 blk (off + 6 : Nat)
  let fileType ← unpack 1 blk (off + 7 : Nat)
  return { ino, recLen, nameLen, fileType }

/-- The name of the record at `off`. -/
def nameAt (blk : Bytes) (off nameLen : Nat) : Bytes := slice blk (off + 8) (off + 8 + nameLen)

/-- An entry as it is listed: name, inode and type. -/
abbrev Entry := String × Nat × Nat

/-- `_read_dir_entries` in one block, from `off` on. -/
def scanBlock (bs : Nat) (blk : Bytes) : (fuel off : Nat) → Except Error (List Entry)
  | 0, _ => .ok []
  | fuel + 1, off =>
    if off < bs then do
      let e ← dirent blk off
      if e.recLen = 0 then return []
      else do
        let rest ← scanBlock bs blk fuel (off + e.recLen)
        if e.ino = 0 then return rest
        else return (Utf8.decode (nameAt blk off e.nameLen), e.ino, e.fileType) :: rest
    else .ok []

/-- The entries of the block `phys`, none for a hole. -/
def readDirBlock (phys : Nat) : FS (List Entry) :=
  if phys = 0 then return []
  else do
    let r ← readBlock phys
    let blk ← load r
    let bs := (← get).blockSize
    scanBlock bs blk bs 0

/-- The entries of the file blocks `fb`, ..., `fb + n - 1`. -/
def readDirBlocks (raw : Bytes) : (n fb : Nat) → FS (List Entry)
  | 0, _ => return []
  | n + 1, fb => do
    let phys ← resolveBlock raw fb
    let here ← readDirBlock phys
    let rest ← readDirBlocks raw n (fb + 1)
    return here ++ rest

/-- `_read_dir_entries`. -/
def readDirEntries (ino : Nat) : FS (List Entry) := do
  let raw ← readInode ino
  let size ← fileSize raw
  let bs := (← get).blockSize
  readDirBlocks raw ((size + bs - 1) / bs) 0

/-- `_dirent_size`. -/
def direntSize (nameLen : Nat) : Nat := (8 + nameLen + 3) / 4 * 4

/-! ### `_add_dir_entry` -/

/-- The part of a record that is in use. -/
def Dirent.actual (e : Dirent) : Nat := if e.ino = 0 then 0 else direntSize e.nameLen

/-- The first record from `off` on with `need` bytes to spare. -/
def findRoom (bs need : Nat) (blk : Bytes) : (fuel off : Nat) → Except Error (Option (Nat × Dirent))
  | 0, _ => .ok none
  | fuel + 1, off =>
    if off < bs then do
      let e ← dirent blk off
      if e.recLen = 0 then return none
      else if e.actual + need ≤ e.recLen then return some (off, e)
      else findRoom bs need blk fuel (off + e.recLen)
    else .ok none

/-- Write a record of `recLen` bytes at `off`, padded with zeros. -/
def putRecord (blk : Bytes) (off child recLen : Nat) (name : Bytes) (fileType : Nat) :
    Except Error Bytes := do
  let blk ← pack 4 blk off child
  let blk ← pack 2 blk (off + 4 : Nat) recLen
  let blk ← pack 1 blk (off + 6 : Nat) name.length
  let blk ← pack 1 blk (off + 7 : Nat) fileType
  let blk := splice blk (off + 8) name
  return splice blk (off + 8 + name.length) (zeros (recLen - (8 + name.length)))

/-- A record that is in use gives up what it does not need. -/
def shrinkRecord (blk : Bytes) (off : Nat) (e : Dirent) : Except Error Bytes :=
  if e.ino = 0 then .ok blk else pack 2 blk (off + 4 : Nat) e.actual

/-- The new record goes where the record at `off` has room for it. -/
def splitRecord (blk : Bytes) (off : Nat) (e : Dirent) (child : Nat) (name : Bytes)
    (fileType : Nat) : Except Error Bytes := do
  let blk ← shrinkRecord blk off e
  putRecord blk (off + e.actual) child (e.recLen - e.actual) name fileType

/-- Add the entry to the block `phys` if it has room. -/
def addToBlock (phys child : Nat) (name : Bytes) (fileType : Nat) : FS Bool :=
  if phys = 0 then return false
  else do
    let r ← readBlock phys
    let blk ← load r
    let bs := (← get).blockSize
    match ← findRoom bs (direntSize name.length) blk bs 0 with
    | none => return false
    | some (off, e) => do
      writeBack phys r fun blk => splitRecord blk off e child name fileType
      return true

/-- Add the entry to the first of the file blocks `fb`, ..., `fb + n - 1` that has
room. -/
def addToBlocks (raw : Bytes) (child : Nat) (name : Bytes) (fileType : Nat) :
    (n fb : Nat) → FS Bool
  | 0, _ => return false
  | n + 1, fb => do
    let phys ← resolveBlock raw fb
    let done ← addToBlock phys child name fileType
    if done then return true else addToBlocks raw child name fileType n (fb + 1)

/-- Append a block with the one entry. -/
def appendDirBlock (dirIno : Nat) (raw : Bytes) (size child : Nat) (name : Bytes)
    (fileType : Nat) : FS Unit := do
  let bs := (← get).blockSize
  let newFb := size / bs
  let (phys, raw) ← allocateBlockFor raw newFb
  let r ← readBlock phys
  writeBack phys r fun blk => putRecord blk 0 child bs name fileType
  let raw ← setFileSize raw ((newFb + 1) * bs : Nat)
  writeInode dirIno raw

/-- `_add_dir_entry`. -/
def addDirEntry (dirIno : Nat) (name : String) (child fileType : Nat) : FS Unit := do
  let nameB := Utf8.encode name
  if nameB.length = 0 ∨ nameB.length > 255 then throw (.value "bad name")
  else do
    let raw ← readInode dirIno
    let size ← fileSize raw
    let bs := (← get).blockSize
    let done ← addToBlocks raw child nameB fileType ((size + bs - 1) / bs) 0
    if done then return () else appendDirBlock dirIno raw size child nameB fileType

/-! ### `_remove_dir_entry` -/

/-- The record of a name from `off` on, and the one before it. -/
def findEntry (bs : Nat) (name : Bytes) (blk : Bytes) :
    (fuel off : Nat) → Option Nat → Except Error (Option (Nat × Option Nat × Dirent))
  | 0, _, _ => .ok none
  | fuel + 1, off, prev =>
    if off < bs then do
      let e ← dirent blk off
      if e.recLen = 0 then return none
      else if e.ino ≠ 0 ∧ e.nameLen = name.length ∧ nameAt blk off e.nameLen = name then
        return some (off, prev, e)
      else findEntry bs name blk fuel (off + e.recLen) (some off)
    else .ok none

/-- A record is merged into the one before it; the first one of a block only
loses its inode. -/
def dropRecord (blk : Bytes) (off : Nat) (prev : Option Nat) (e : Dirent) : Except Error Bytes :=
  match prev with
  | some p => do
    let before ← dirent blk p
    pack 2 blk (p + 4 : Nat) (before.recLen + e.recLen : Nat)
  | none => pack 4 blk off 0

/-- Remove the name from the block `phys` if it is there. -/
def removeFromBlock (phys : Nat) (name : Bytes) : FS (Option (Nat × Nat)) :=
  if phys = 0 then return none
  else do
    let r ← readBlock phys
    let blk ← load r
    let bs := (← get).blockSize
    match ← findEntry bs name blk bs 0 none with
    | none => return none
    | some (off, prev, e) => do
      writeBack phys r fun blk => dropRecord blk off prev e
      return some (e.ino, e.fileType)

/-- Remove the name from the first of the file blocks `fb`, ..., `fb + n - 1` that
has it. -/
def removeFromBlocks (raw : Bytes) (name : Bytes) : (n fb : Nat) → FS (Option (Nat × Nat))
  | 0, _ => return none
  | n + 1, fb => do
    let phys ← resolveBlock raw fb
    match ← removeFromBlock phys name with
    | some removed => return some removed
    | none => removeFromBlocks raw name n (fb + 1)

/-- `_remove_dir_entry`. -/
def removeDirEntry (dirIno : Nat) (name : String) : FS (Nat × Nat) := do
  let raw ← readInode dirIno
  let size ← fileSize raw
  let bs := (← get).blockSize
  match ← removeFromBlocks raw (Utf8.encode name) ((size + bs - 1) / bs) 0 with
  | some removed => return removed
  | none => throw (.fileNotFound name)

/-- `_dir_is_empty`. -/
def dirIsEmpty (dirIno : Nat) : FS Bool := do
  let entries ← readDirEntries dirIno
  return entries.all fun e => e.1 = "." ∨ e.1 = ".."

/-! ### Nodes -/

inductive InodeType
  | file | dir | symlink | device | pipe
  deriving Repr, DecidableEq

/-- `_inode_type_to_mode`. -/
def inodeTypeToMode (t : InodeType) (perm : Nat) : Nat :=
  match t with
  | .dir => sIfDir ||| perm &&& 0o7777
  | .symlink => sIfLnk ||| perm &&& 0o7777
  | _ => sIfReg ||| perm &&& 0o7777

/-- `_inode_type_to_filetype`. -/
def inodeTypeToFiletype : InodeType → Nat
  | .dir => 2
  | .symlink => 7
  | _ => 1

/-- The inode of a node, which has to be of a format. -/
def requireFormat (ino format : Nat) (otherwise : Error) : FS Bytes := do
  let raw ← readInode ino
  let mode ← iMode raw
  if modeFormat mode = format then return raw else throw otherwise

/-- `Ext2Node.read`. -/
def nodeRead (ino : Nat) (offset n : Int) : FS Bytes := do
  let raw ← readInode ino
  let mode ← iMode raw
  if modeFormat mode = sIfDir then throw .isADirectory
  else if modeFormat mode = sIfLnk then do
    let size ← fileSize raw
    if size ≤ 60 then
      let target := slice raw 40 (40 + size)
      let bound (i : Int) : Nat := sliceEnd target.length i
      return slice target (bound offset) (bound (offset + n))
    else readFileData ino offset n
  else readFileData ino offset n

/-- `Ext2Node.write`. -/
def nodeWrite (ino : Nat) (offset : Int) (data : Bytes) : FS Nat := do
  let _ ← requireFormat ino sIfReg .isADirectory
  writeFileData ino offset data

/-- `Ext2Node.truncate`. -/
def nodeTruncate (ino : Nat) (size : Int) : FS Unit := do
  let _ ← requireFormat ino sIfReg .isADirectory
  truncateFile ino size

/-- `Ext2Node.readdir`. -/
def nodeReaddir (ino : Nat) : FS (List String) := do
  let _ ← requireFormat ino sIfDir .notADirectory
  let entries ← readDirEntries ino
  return entries.map (·.1)

/-- The first entry of a name. -/
def findName (entries : List Entry) (name : String) : Option (Nat × Nat) :=
  (entries.find? (·.1 = name)).map (·.2)

/-- `Ext2Node.lookup`. -/
def nodeLookup (ino : Nat) (name : String) : FS Nat :=
  if name = "" ∨ name = "." then return ino
  else do
    let _ ← requireFormat ino sIfDir .notADirectory
    let entries ← readDirEntries ino
    match findName entries name with
    | some (child, _) => return child
    | none => throw (.fileNotFound name)

/-- `create`: the bytes of a new inode. -/
def newInode (inodeSize mode : Nat) : Except Error Bytes := do
  let raw ← setIMode (zeros inodeSize) mode
  let raw ← pack 4 raw 4 0
  let raw ← setILinks raw 1
  let raw ← setIBlocks raw 0
  let raw ← pack 4 raw 8 0
  let raw ← pack 4 raw 12 0
  pack 4 raw 16 0

/-- `create`: `.` and `..` of a new directory, and the links that they are. -/
def initDirectory (ino parent : Nat) : FS Unit := do
  addDirEntry ino "." ino 2
  addDirEntry ino ".." parent 2
  let raw ← readInode ino
  let raw ← setILinks raw 2
  writeInode ino raw
  let parentRaw ← readInode parent
  let links ← iLinks parentRaw
  let parentRaw ← setILinks parentRaw (links + 1 : Nat)
  writeInode parent parentRaw

/-- `Ext2Node.create`. -/
def nodeCreate (ino : Nat) (name : String) (type : InodeType) : FS Nat := do
  let _ ← requireFormat ino sIfDir .notADirectory
  let entries ← readDirEntries ino
  if (findName entries name).isSome then throw (.fileExists name)
  else do
    let isDir := type = .dir
    let newIno ← allocInode isDir
    let mode := inodeTypeToMode type (if isDir then 0o755 else 0o644)
    let newRaw ← newInode (← get).sb.inodeSize mode
    writeInode newIno newRaw
    if isDir then do
      initDirectory newIno ino
      addDirEntry ino name newIno (inodeTypeToFiletype type)
      return newIno
    else do
      addDirEntry ino name newIno (inodeTypeToFiletype type)
      return newIno

/-- `unlink`: the blocks of an inode and then the inode are freed. -/
def releaseInode (ino : Nat) (raw : Bytes) (wasDir : Bool) : FS Unit := do
  let _ ← freeAllBlocks raw
  writeInode ino (zeros (← get).sb.inodeSize)
  freeInode ino wasDir

/-- `unlink` of a directory, which has to be empty. -/
def unlinkDir (ino : Nat) (name : String) (target : Nat) (childRaw : Bytes) : FS Unit := do
  let empty ← dirIsEmpty target
  if !empty then throw (.os "directory not empty")
  else do
    let _ ← removeDirEntry ino name
    let parentRaw ← readInode ino
    let links ← iLinks parentRaw
    let parentRaw ← setILinks parentRaw (max 0 ((links : Int) - 1))
    writeInode ino parentRaw
    releaseInode target childRaw true

/-- `unlink` of anything else: it is freed with its last link. -/
def unlinkFile (ino : Nat) (name : String) (target : Nat) (childRaw : Bytes) : FS Unit := do
  let _ ← removeDirEntry ino name
  let links ← iLinks childRaw
  let childRaw ← setILinks childRaw (max 0 ((links : Int) - 1))
  if links ≤ 1 then releaseInode target childRaw false else writeInode target childRaw

/-- `Ext2Node.unlink`. -/
def nodeUnlink (ino : Nat) (name : String) : FS Unit := do
  let _ ← requireFormat ino sIfDir .notADirectory
  let entries ← readDirEntries ino
  match findName entries name with
  | none => throw (.fileNotFound name)
  | some (target, _) => do
    let childRaw ← readInode target
    let mode ← iMode childRaw
    if modeFormat mode = sIfDir then unlinkDir ino name target childRaw
    else unlinkFile ino name target childRaw

end PythonOS.Ext2
