import PythonOS.Ext2.Create
import PythonOS.Ext2.Image
import PythonOS.Lib.Runs

/-!
# PythonOS.Ext2.FileRuns

Runs of writes, truncates and reads on one regular file, next to the array of bytes
that the file stands for: an array that grows with zeros.
-/

namespace PythonOS.Ext2

open Lib List Option Coro Lib.Bytes

/-! ### The reference -/

/-- An array of bytes with at least `n` of them. -/
def padTo (a : Bytes) (n : Nat) : Bytes := a ++ zeros (n - a.length)

/-- Bytes are put into an array, which grows to take them. -/
def arrayWrite (a : Bytes) (offset : Nat) (data : Bytes) : Bytes :=
  splice (padTo a (offset + data.length)) offset data

/-- An array is cut or grows to `n` bytes. -/
def arrayTruncate (a : Bytes) (n : Nat) : Bytes := padTo (a.take n) n

/-- At most `n` bytes of an array. -/
def arrayRead (a : Bytes) (offset : Nat) (n : Int) : Bytes := (a.drop offset).take n.toNat

section Array

variable (a data : Bytes) (offset n x : Nat)

theorem length_padTo : (padTo a n).length = max a.length n := by
  rw [padTo, length_append, length_zeros]
  omega

theorem getD_padTo : (padTo a n).getD x 0 = a.getD x 0 := by
  unfold padTo
  rw [getD_eq_getElem?_getD, getD_eq_getElem?_getD]
  by_cases hx : x < a.length
  · rw [getElem?_append_left hx]
  · rw [getElem?_append_right (by omega), getElem?_eq_none (l := a) (by omega), zeros,
      getElem?_replicate]
    split <;> rfl

theorem length_arrayWrite :
    (arrayWrite a offset data).length = max a.length (offset + data.length) := by
  have hlen := length_padTo a (offset + data.length)
  rw [arrayWrite, length_splice (by omega), hlen]

/-- What was written, and what was there before. -/
theorem getD_arrayWrite : (arrayWrite a offset data).getD x 0 =
    overwrite (fun y => a.getD y 0) offset data 0 data.length x := by
  have hlen := length_padTo a (offset + data.length)
  rw [arrayWrite, getD_splice (by omega), getD_padTo, overwrite, Nat.zero_add]

theorem length_arrayTruncate : (arrayTruncate a n).length = n := by
  rw [arrayTruncate, length_padTo, length_take]
  omega

theorem getD_arrayTruncate : (arrayTruncate a n).getD x 0 = if x < n then a.getD x 0 else 0 := by
  rw [arrayTruncate, getD_padTo, getD_eq_getElem?_getD, getElem?_take]
  split
  · rw [getD_eq_getElem?_getD]
  · rfl

end Array

/-! ### Runs -/

inductive FileOp
  | write (offset : Nat) (data : Bytes)
  | truncate (size : Nat)
  | read (offset : Nat) (n : Int)

/-- The bytes that an operation touches end before `limit`. -/
def FileOp.EndsBefore (limit : Nat) : FileOp → Prop
  | .write offset data => offset + data.length ≤ limit
  | .truncate size => size ≤ limit
  | .read _ _ => True

instance (limit : Nat) : DecidablePred (FileOp.EndsBefore limit)
  | .write offset data => inferInstanceAs (Decidable (offset + data.length ≤ limit))
  | .truncate size => inferInstanceAs (Decidable (size ≤ limit))
  | .read _ _ => inferInstanceAs (Decidable True)

/-- The driver, and the array that one of its files stands for. -/
structure FileRun where
  fs : Ext2FS
  bytes : Bytes

/-- One operation on the file `ino` that returns. -/
def fileStep (ino : Nat) (s : FileRun) : FileOp → Option FileRun
  | .write offset data =>
    match (nodeWrite ino offset data).run s.fs with
    | (.ok _, fs) => some ⟨fs, arrayWrite s.bytes offset data⟩
    | (.error _, _) => none
  | .truncate size =>
    match (nodeTruncate ino size).run s.fs with
    | (.ok _, fs) => some ⟨fs, arrayTruncate s.bytes size⟩
    | (.error _, _) => none
  | .read offset n =>
    match (nodeRead ino offset n).run s.fs with
    | (.ok _, fs) => some ⟨fs, s.bytes⟩
    | (.error _, _) => none

/-- The size of the largest file. -/
def Layout.maxSize (L : Layout) : Nat := L.maxBlocks * L.blockSize

/-- **The invariant of a run**: the file holds the array, and zeros past its end. -/
structure FileInv (L : Layout) (M : Set Nat) (ino : Nat) (s : FileRun) : Prop where
  live : Live L M s.fs ino
  mode : modeFormat (leAt 2 ((vol L s.fs).inode ino) 0) = sIfReg
  size : sizeOf ((vol L s.fs).inode ino) = s.bytes.length
  le : s.bytes.length ≤ L.maxSize
  content : ∀ x, x / L.blockSize < L.maxBlocks → content L (vol L s.fs) ino x = s.bytes.getD x 0

section

variable {L : Layout} {M : Set Nat} {ino : Nat} {s s' : FileRun}

theorem FileInv.of_after {fs : Ext2FS} (h : FileInv L M ino s)
    (ha : Same L s.fs fs) : FileInv L M ino ⟨fs, s.bytes⟩ := by
  have hvol : vol L fs = vol L s.fs := ha.vol_eq
  exact ⟨h.live.of_after ha, by rw [hvol]; exact h.mode, by rw [hvol]; exact h.size, h.le,
    fun x hx => by rw [hvol]; exact h.content x hx⟩

/-- **A read** returns the bytes of the array. -/
theorem FileInv.read_wp [L.Ok] (h : FileInv L M ino s) (offset : Nat) (n : Int) :
    (nodeRead ino offset n).wlp
      (fun b fs => b = arrayRead s.bytes offset n ∧ Same L s.fs fs) s.fs := by
  have hraw := h.live.mounted.length_inode_ge h.live.hasInode
  refine wp_bind_ok (readInode_wp h.live.mounted h.live.hasInode) ?_
  rintro raw s1 ⟨rfl, ha1⟩
  simp only [wp_bind, wp_lift, iMode_eq hraw]
  rw [if_neg (by rw [h.mode]; decide), if_neg (by rw [h.mode]; decide)]
  have hread := readFileData_wp (h.live.of_after ha1) offset n
  rw [ha1.vol_eq] at hread
  refine wp_imp hread ?_
  rintro b s2 ⟨rfl, ha2⟩
  refine ⟨?_, ha1.still ha2⟩
  rw [h.size]
  have hpos := L.blockSize_pos
  have hle := h.le
  refine ext_getElem? fun i => ?_
  unfold arrayRead window
  rw [getElem?_map, getElem?_take, getElem?_drop]
  by_cases hi : i < min (offset + n.toNat) s.bytes.length - offset
  · have hlt : offset + i < s.bytes.length := by omega
    have hblock : (offset + i) / L.blockSize < L.maxBlocks := by
      rw [Nat.div_lt_iff_lt_mul hpos]
      exact Nat.lt_of_lt_of_le hlt hle
    rw [getElem?_range hi, if_pos (by omega), map_some, h.content _ hblock,
      getD_eq_getElem?_getD, getElem?_eq_getElem hlt, getD_some]
  · rw [getElem?_eq_none (by rw [length_range]; omega), map_none]
    split
    · rw [getElem?_eq_none (by omega)]
    · rfl

section

variable (hmax : L.maxSize < 2 ^ 64) (h : FileInv L M ino s)

include hmax h

theorem FileInv.write_wp [L.Ok]
    {offset : Nat} {data : Bytes} (hop : offset + data.length ≤ L.maxSize) :
    (nodeWrite ino offset data).wlp
      (fun _ fs => FileInv L M ino ⟨fs, arrayWrite s.bytes offset data⟩) s.fs := by
  refine wp_bind_ok (requireFormat_wp h.live.mounted h.live.hasInode sIfReg .isADirectory) ?_
  rintro - s1 ⟨-, -, ha1⟩
  have h1 := h.of_after ha1
  refine wp_imp (writeFileData_wp h1.live h1.mode offset data) ?_
  rintro - s2 ⟨-, hlive, ht, -, hsize, hcontent⟩
  have hlen := length_arrayWrite s.bytes data offset
  have hle := h.le
  refine ⟨hlive, by rw [ht.mode]; exact h1.mode, ?_, ?_, fun x hx => ?_⟩
  · rw [hsize (by omega), h1.size, hlen]
  · rw [hlen]
    omega
  · rw [hcontent x hx, getD_arrayWrite, overwrite, overwrite, h1.content x hx]

theorem FileInv.truncate_wp [L.Ok] {size : Nat} (hop : size ≤ L.maxSize) :
    (nodeTruncate ino size).wlp
      (fun _ fs => FileInv L M ino ⟨fs, arrayTruncate s.bytes size⟩) s.fs := by
  refine wp_bind_ok (requireFormat_wp h.live.mounted h.live.hasInode sIfReg .isADirectory) ?_
  rintro - s1 ⟨-, -, ha1⟩
  have h1 := h.of_after ha1
  refine wp_imp (truncateFile_wp h1.live h1.mode size) ?_
  rintro - s2 ⟨hlive, ht, -, hsize, hcontent⟩
  have hlen := length_arrayTruncate s.bytes size
  refine ⟨hlive, by rw [ht.mode]; exact h1.mode, by rw [hsize (by omega), hlen],
    by rw [hlen]; exact hop,
    fun x hx => ?_⟩
  rw [hcontent x hx, getD_arrayTruncate, h1.size, h1.content x hx]
  -- past the old end there were zeros already
  have hpast : s.bytes.length ≤ x → s.bytes.getD x 0 = 0 := fun hge => by
    rw [getD_eq_getElem?_getD, getElem?_eq_none hge, getD_none]
  by_cases hlt : x < size
  · rw [if_neg (by omega), if_pos hlt]
  · split
    · rfl
    · next hnot =>
      refine hpast ?_
      by_contra hc
      exact hnot ⟨by omega, div_lt_blocksFor (show x < s.bytes.length by omega), by
        show size < s.bytes.length
        omega⟩

/-- **One operation.** -/
theorem FileInv.step [L.Ok]
    {op : FileOp} (hop : op.EndsBefore L.maxSize) (hstep : fileStep ino s op = some s') :
    FileInv L M ino s' := by
  cases op with
  | write offset data =>
    simp only [fileStep] at hstep
    split at hstep
    · next hrun =>
      rw [← Option.some.inj hstep]
      have hinv := wp_of_run (h.write_wp hmax hop) hrun
      exact hinv
    · cases hstep
  | truncate size =>
    simp only [fileStep] at hstep
    split at hstep
    · next hrun =>
      rw [← Option.some.inj hstep]
      have hinv := wp_of_run (h.truncate_wp hmax hop) hrun
      exact hinv
    · cases hstep
  | read offset n =>
    simp only [fileStep] at hstep
    split at hstep
    · next hrun =>
      rw [← Option.some.inj hstep]
      exact h.of_after (wp_of_run (h.read_wp offset n) hrun).2
    · cases hstep

end

/-- A new file is the empty array. -/
theorem FileInv.of_created {s fs : Ext2FS} {dir : Nat} {D : List (List Record)} {name : String}
    (h : Created L M s dir D name .file ino fs) : FileInv L M ino ⟨fs, []⟩ := by
  obtain ⟨hblank, hleaf⟩ := h.file (by decide)
  have hmode : IsReg ((vol L fs).inode ino) := by
    rw [IsReg, h.mode]
    exact format_createMode .file
  refine ⟨⟨h.mounted, h.edited.own, h.used, .inl hmode⟩, hmode, hblank.sizeOf, Nat.zero_le _,
    fun x hx => ?_⟩
  rw [Ext2.content, hleaf _ (Layout.leaf_fileSlot hx) (Layout.fileSlot_fst _ _), getD_zeros]
  rfl

/-- The largest file of a volume with small blocks. -/
theorem maxSize_lt (h : L.blockSize ≤ 4096) : L.maxSize < 2 ^ 64 := by
  have hptrs : L.ptrsPerBlock ≤ 1024 := by
    unfold Layout.ptrsPerBlock
    omega
  have hmul : L.ptrsPerBlock * L.ptrsPerBlock ≤ 1024 * 1024 := Nat.mul_le_mul hptrs hptrs
  have hblocks : L.maxBlocks ≤ 12 + 1024 + 1024 * 1024 := by
    unfold Layout.maxBlocks
    omega
  exact Nat.lt_of_le_of_lt (Nat.mul_le_mul hblocks h) (by decide)

/-- **A file is an array of bytes.** Reading a file that `create` made, after any writes,
truncates and reads, returns what the array has there. -/
theorem file_refines_array (hL : L.Ok)
    (hbs : L.blockSize = 1024 ∨ L.blockSize = 2048 ∨ L.blockSize = 4096)
    {s₀ fs₀ : Ext2FS} {dir : Nat} (hdir : Live L M s₀ dir) {D : List (List Record)}
    (hD : Directory L (vol L s₀) dir D) {name : String}
    (hcreate : (nodeCreate dir name .file).run s₀ = (.ok ino, fs₀)) {ops : List FileOp}
    (hops : ∀ op ∈ ops, op.EndsBefore L.maxSize)
    (hrun : exec (fileStep ino) ⟨fs₀, []⟩ ops = some s') {offset : Nat} {n : Int} {b : Bytes}
    {fs : Ext2FS} (hread : (nodeRead ino offset n).run s'.fs = (.ok b, fs)) :
    b = arrayRead s'.bytes offset n := by
  have hmax : L.maxSize < 2 ^ 64 := maxSize_lt (by omega)
  have hcreated := wp_of_run (nodeCreate_wp hdir hD name .file) hcreate
  have hinv : FileInv L M ino s' := guarded_invariant (FileInv L M ino)
    (fun _ _ _ hi hop hstep => hi.step hmax hop hstep) (FileInv.of_created hcreated)
    (Guarded.of_forall hops) hrun
  exact (wp_of_run (hinv.read_wp offset n) hread).1

end

/-- A file of the empty volume: five bytes at 2000, cut to 2003 and grown again, read back
with the gap before them. -/
theorem file_refines_array_empty :
    ∃ s' b, exec (fileStep 11) ⟨((nodeCreate 2 "a" .file).run emptyImage.fs).2, []⟩
        [.write 2000 [1, 2, 3, 4, 5], .truncate 2003, .read 0 5000, .truncate 2005] = some s' ∧
      ((nodeRead 11 1998 10).run s'.fs).1 = .ok b ∧ b = arrayRead s'.bytes 1998 10 ∧
      b = [0, 0, 1, 2, 3, 0, 0] := by
  have hcreate : ((nodeCreate 2 "a" .file).run emptyImage.fs).1 = .ok 11 := by decide +kernel
  have hrun : (exec (fileStep 11) ⟨((nodeCreate 2 "a" .file).run emptyImage.fs).2, []⟩
      [.write 2000 [1, 2, 3, 4, 5], .truncate 2003, .read 0 5000, .truncate 2005]).map
        (fun s' => ((nodeRead 11 1998 10).run s'.fs).1) = some (.ok [0, 0, 1, 2, 3, 0, 0]) := by
    decide +kernel
  obtain ⟨s', hexec, hread⟩ := map_eq_some_iff.mp hrun
  refine ⟨s', _, hexec, hread, ?_, rfl⟩
  refine file_refines_array inferInstance (.inl rfl) emptyImage.live
    emptyImage.directory (run_eq_ok hcreate) ?_ hexec (run_eq_ok hread)
  decide

end PythonOS.Ext2
