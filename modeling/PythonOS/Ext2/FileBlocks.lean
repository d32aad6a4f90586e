import PythonOS.Ext2.BlockTree
import PythonOS.Ext2.File

/-!
# PythonOS.Ext2.FileBlocks

Specifications of the functions that find, allocate and free the blocks of a file.

They work on a copy of the inode, which goes to the device at the end. `work L s ino
raw` is the volume as it will be then; the specifications speak about it, so that
nothing has to be said about the inode that is still on the device.
-/

namespace PythonOS.Ext2

open Lib Function List Coro Lib.Bytes

namespace Layout

variable (L : Layout)

/-- The number of blocks that direct, single- and double-indirect pointers give a
file. -/
def maxBlocks : Nat := 12 + L.ptrsPerBlock + L.ptrsPerBlock * L.ptrsPerBlock

/-- The slot of a block of a file. -/
def fileSlot (ino fb : Nat) : Slot (Nat × Nat) :=
  if fb < 12 then ((ino, fb), [])
  else if fb - 12 < L.ptrsPerBlock then Slot.child ((ino, 12), []) (fb - 12)
  else Slot.child (Slot.child ((ino, 13), []) ((fb - 12 - L.ptrsPerBlock) / L.ptrsPerBlock))
    ((fb - 12 - L.ptrsPerBlock) % L.ptrsPerBlock)

variable {L}

theorem ptrsPerBlock_pos : 0 < L.ptrsPerBlock := by
  have h := L.four_mul_ptrsPerBlock
  have hpos := L.blockSize_pos
  omega

variable {ino : Nat}

theorem fileSlot_direct {fb : Nat} (h : fb < 12) : L.fileSlot ino fb = ((ino, fb), []) :=
  if_pos h

theorem fileSlot_indirect {r : Nat} (h : r < L.ptrsPerBlock) :
    L.fileSlot ino (r + 12) = Slot.child ((ino, 12), []) r := by
  unfold fileSlot
  rw [if_neg (by omega), Nat.add_sub_cancel, if_pos h]

theorem fileSlot_double {ino r : Nat} :
    L.fileSlot ino (r + L.ptrsPerBlock + 12) =
      Slot.child (Slot.child ((ino, 13), []) (r / L.ptrsPerBlock)) (r % L.ptrsPerBlock) := by
  unfold fileSlot
  rw [if_neg (by omega), Nat.add_sub_cancel, if_neg (by omega), Nat.add_sub_cancel]

/-- The three kinds of file blocks. -/
theorem fileBlock_cases (L : Layout) (fb : Nat) :
    fb < 12 ∨ (∃ r, r < L.ptrsPerBlock ∧ fb = r + 12) ∨ ∃ r, fb = r + L.ptrsPerBlock + 12 := by
  rcases Nat.lt_or_ge fb 12 with h | h
  · exact .inl h
  · rcases Nat.lt_or_ge (fb - 12) L.ptrsPerBlock with h' | h'
    · exact .inr (.inl ⟨fb - 12, h', by omega⟩)
    · exact .inr (.inr ⟨fb - 12 - L.ptrsPerBlock, by omega⟩)

theorem fileSlot_fst (ino fb : Nat) : (L.fileSlot ino fb).1.1 = ino := by
  unfold fileSlot
  split
  · rfl
  · split <;> rfl

theorem leaf_direct {n : Nat} (hn : n < 12) : L.shape.Leaf ((ino, n), []) :=
  ⟨Shape.valid_root _, by simp only [shape, length_nil]; omega⟩

theorem valid_indirect {n i : Nat} (hn : 12 ≤ n) (hi : i < L.ptrsPerBlock) :
    L.shape.Valid (Slot.child ((ino, n), []) i) :=
  Shape.valid_child.mpr ⟨Shape.valid_root _, by simp only [shape, length_nil]; omega, hi⟩

theorem valid_double {n i j : Nat} (hn : 13 ≤ n) (hi : i < L.ptrsPerBlock)
    (hj : j < L.ptrsPerBlock) : L.shape.Valid (Slot.child (Slot.child ((ino, n), []) i) j) := by
  refine Shape.valid_child.mpr ⟨valid_indirect (by omega) hi, ?_, hj⟩
  simp only [shape, Slot.child, nil_append, length_singleton]
  omega

/-- The block of a double-indirect file block and the entry in it. -/
theorem double_lt {r : Nat} (h : r < L.ptrsPerBlock * L.ptrsPerBlock) :
    r / L.ptrsPerBlock < L.ptrsPerBlock ∧ r % L.ptrsPerBlock < L.ptrsPerBlock :=
  ⟨Nat.div_lt_of_lt_mul h, Nat.mod_lt _ ptrsPerBlock_pos⟩

/-- The slot of a block of a file holds data. -/
theorem leaf_fileSlot {ino fb : Nat} (h : fb < L.maxBlocks) : L.shape.Leaf (L.fileSlot ino fb) := by
  unfold maxBlocks at h
  obtain hd | ⟨r, hr, rfl⟩ | ⟨r, rfl⟩ := L.fileBlock_cases fb
  · rw [fileSlot_direct hd]
    exact leaf_direct hd
  · rw [fileSlot_indirect hr]
    exact ⟨valid_indirect (Nat.le_refl _) hr, rfl⟩
  · obtain ⟨hi, hj⟩ := double_lt (L := L) (r := r) (by omega)
    rw [fileSlot_double]
    exact ⟨valid_double (Nat.le_refl _) hi hj, rfl⟩

/-- Different blocks of a file are in different slots. -/
theorem fileSlot_inj {fb fb' : Nat} (h : L.fileSlot ino fb = L.fileSlot ino fb') : fb = fb' := by
  obtain hd | ⟨r, hr, rfl⟩ | ⟨r, rfl⟩ := L.fileBlock_cases fb <;>
    obtain hd' | ⟨r', hr', rfl⟩ | ⟨r', rfl⟩ := L.fileBlock_cases fb'
  · rw [fileSlot_direct hd, fileSlot_direct hd'] at h
    simpa using h
  · rw [fileSlot_direct hd, fileSlot_indirect hr'] at h
    exact absurd h.symm (Slot.child_ne_root _ _ _)
  · rw [fileSlot_direct hd, fileSlot_double] at h
    exact absurd h.symm (Slot.child_ne_root _ _ _)
  · rw [fileSlot_indirect hr, fileSlot_direct hd'] at h
    exact absurd h (Slot.child_ne_root _ _ _)
  · rw [fileSlot_indirect hr, fileSlot_indirect hr'] at h
    rw [(Slot.child_inj h).2]
  · rw [fileSlot_indirect hr, fileSlot_double] at h
    exact absurd (congrArg (fun τ => τ.1.2) h) (by simp)
  · rw [fileSlot_double, fileSlot_direct hd'] at h
    exact absurd h (Slot.child_ne_root _ _ _)
  · rw [fileSlot_double, fileSlot_indirect hr'] at h
    exact absurd (congrArg (fun τ => τ.1.2) h) (by simp)
  · rw [fileSlot_double, fileSlot_double] at h
    obtain ⟨hind, hmod⟩ := Slot.child_inj h
    have heq := Nat.div_add_mod r L.ptrsPerBlock
    rw [(Slot.child_inj hind).2, hmod, Nat.div_add_mod] at heq
    rw [heq]

end Layout

/-- The volume with the copy of an inode that a function works on. -/
noncomputable def work (L : Layout) (s : Ext2FS) (ino : Nat) (raw : Bytes) : Volume :=
  (vol L s).setInode ino raw

/-- A function may work on a copy of the inode. -/
structure Work (L : Layout) (M : Set Nat) (s : Ext2FS) (ino : Nat) (raw : Bytes) : Prop where
  mounted : Mounted L s
  own : Own L M (work L s ino raw)
  inodeUsed : (vol L s).inodeUsed ino = true
  length : raw.length = L.inodeSize
  kind : hasBlocks raw

section

variable {L : Layout} {M : Set Nat} {s : Ext2FS} {ino : Nat} {raw : Bytes}

@[simp] theorem work_inode (L : Layout) (s : Ext2FS) (ino : Nat) (raw : Bytes) :
    (work L s ino raw).inode ino = raw := update_self ..

theorem work_inode_of_ne {x : Nat} (h : x ≠ ino) :
    (work L s ino raw).inode x = (vol L s).inode x := update_of_ne h ..

/-- The inode on the device is the copy. -/
theorem work_self : work L s ino ((vol L s).inode ino) = vol L s := by
  unfold work Volume.setInode
  rw [update_eq_self]

variable {s' : Ext2FS}

theorem work_of_vol {V : Volume} (h : vol L s' = V) :
    work L s' ino raw = V.setInode ino raw := by rw [work, h]

theorem work_congr (h : vol L s' = vol L s) : work L s' ino raw = work L s ino raw := by
  rw [work, h, work]

theorem After.work_eq (h : Same L s s') (ino : Nat) (raw : Bytes) :
    work L s' ino raw = work L s ino raw :=
  work_congr h.vol_eq

namespace Work

variable (h : Work L M s ino raw)

include h

theorem of_after {T : Set Nat} {s' : Ext2FS}
    (ha : After L s T (vol L s) s') : Work L M s' ino raw :=
  ⟨ha.mounted, by rw [work_congr ha.vol_eq]; exact h.own, by rw [ha.vol_eq]; exact h.inodeUsed,
    h.length, h.kind⟩

theorem holds : (work L s ino raw).Holds ino :=
  ⟨h.inodeUsed, by rw [work_inode]; exact h.kind⟩

/-- The copy may change, but not to another kind of file. -/
theorem holds_iff {s' : Ext2FS} {raw' : Bytes}
    (hinodeUsed : ∀ x, (vol L s').inodeUsed x = (vol L s).inodeUsed x)
    (hinode : ∀ x, (vol L s').inode x = (vol L s).inode x) (hkind : hasBlocks raw') (x : Nat) :
    (work L s' ino raw').Holds x ↔ (work L s ino raw).Holds x := by
  have hused : ∀ y, (work L s' ino raw').inodeUsed y = (work L s ino raw).inodeUsed y := hinodeUsed
  refine holds_congr hused (fun y (hy : y ≠ ino) => ?_) ?_ x
  · rw [work_inode_of_ne hy, work_inode_of_ne hy, hinode]
  · rw [work_inode, work_inode]
    exact iff_of_true hkind h.kind

theorem forest_root {n : Nat} (hn : n < 15) :
    (forest (work L s ino raw)).blockAt ((ino, n), []) = pointer raw n := by
  rw [Forest.blockAt_root, Ext2.forest_root h.holds hn, work_inode]

theorem length_ge [hL : L.Ok] : 128 ≤ raw.length :=
  h.length ▸ hL.inodeSize_ge

end Work

/-! ### Pointers of an inode -/

variable {n v i b : Nat} {raw' : Bytes} {T : Set Nat}

theorem iBlockN_eq (hraw : 128 ≤ raw.length) (hn : n < 15) :
    iBlockN raw n = .ok (pointer raw n) := by
  unfold iBlockN
  rw [unpack_eq ⟨by omega, by omega⟩, pointer]
  congr 2

theorem setIBlockN_error {e : Error} (hraw : 128 ≤ raw.length) (hn : n < 15)
    (h : setIBlockN raw n v = .error e) : e = .struct ∧ 256 ^ 4 ≤ v := by
  have hoff : (40 : Int) + (n : Int) * 4 = ((40 + n * 4 : Nat) : Int) := by omega
  rw [setIBlockN, hoff] at h
  exact pack_error rfl (by omega) h

theorem setIBlockN_ok (h : setIBlockN raw n v = .ok raw') :
    v < 256 ^ 4 ∧ raw' = putLe 4 raw (40 + n * 4) v := by
  obtain ⟨-, -, hv, rfl⟩ := pack_ok h (by omega)
  exact ⟨hv, by congr 1⟩

theorem pointer_putLe {m : Nat} (hraw : 128 ≤ raw.length) (hn : n < 15) (hv : v < 256 ^ 4) :
    pointer (putLe 4 raw (40 + n * 4) v) m = if m = n then v else pointer raw m := by
  unfold pointer
  split
  · next h => rw [h, leAt_putLe_self (by omega) hv]
  · next h => rw [leAt_putLe_of_disjoint (by omega) (by omega)]

theorem pointer_iBlocks {m : Nat} (hraw : 128 ≤ raw.length) :
    pointer (putLe 4 raw 28 v) m = pointer raw m :=
  leAt_putLe_of_disjoint (by omega) (by omega)

/-- A field that is a pointer or `i_blocks` is set. -/
theorem SameFields.of_putLe {off : Nat} (hoff : off = 28 ∨ 40 ≤ off ∧ off + 4 ≤ 100)
    (hraw : 128 ≤ raw.length) : SameFields raw (putLe 4 raw off v) :=
  ⟨length_putLe (by omega), fun _ _ _ => leAt_putLe_of_disjoint (by omega) (by omega)⟩

/-! ### `_resolve_block` -/

theorem ptrsPerBlock_eq (h : Tables L s) : ptrsPerBlock s = L.ptrsPerBlock := by
  rw [ptrsPerBlock, h.blockSize, Layout.ptrsPerBlock]

/-- Entry `i` of a block. -/
theorem unpack_entry {blk : Bytes} (hblk : blk.length = L.blockSize) (hi : i < L.ptrsPerBlock) :
    unpack 4 blk (i * 4 : Nat) = .ok (leAt 4 blk (i * 4)) := by
  have hwidth := L.four_mul_ptrsPerBlock
  rw [unpack_eq ⟨by omega, by omega⟩, Int.toNat_natCast]

theorem readEntryAt_wp [L.Ok] (h : Mounted L s) (hb : L.IsData b) (hi : i < L.ptrsPerBlock) :
    (readEntry b i).returns
      (fun e s' => e = leAt 4 ((vol L s).data b) (i * 4) ∧ Same L s s') s := by
  simp only [readEntry, wp_bind]
  refine wp_imp (readData_wp h hb) ?_
  rintro r s1 ⟨hafter, -, hheap⟩
  simp only [load_wp, hheap, wp_lift, unpack_entry (h.length_data hb) hi]
  exact ⟨trivial, hafter⟩

variable {σ : Slot (Nat × Nat)}

theorem readEntry_wp [L.Ok] (h : Work L M s ino raw) (hσ : L.shape.Valid (σ.child i))
    (hz : (forest (work L s ino raw)).blockAt σ ≠ 0) :
    (readEntry ((forest (work L s ino raw)).blockAt σ) i).returns
      (fun b s' => b = (forest (work L s ino raw)).blockAt (σ.child i) ∧ Same L s s') s := by
  obtain ⟨hσ', -, hi⟩ := Shape.valid_child.mp hσ
  refine wp_imp (readEntryAt_wp h.mounted (h.own.isData hσ' hz) hi) ?_
  rintro b s1 ⟨rfl, hafter⟩
  refine ⟨?_, hafter⟩
  rw [Forest.blockAt_child, follow_of_ne hz]
  rfl

theorem followEntry_wp [L.Ok] (h : Work L M s ino raw) (hσ : L.shape.Valid (σ.child i)) :
    (followEntry ((forest (work L s ino raw)).blockAt σ) i).returns
      (fun b s' => b = (forest (work L s ino raw)).blockAt (σ.child i) ∧ Same L s s') s := by
  unfold followEntry
  split
  · next hz => exact ⟨(Forest.blockAt_child_of_eq_zero hz i).symm, After.refl h.mounted⟩
  · next hz => exact readEntry_wp h hσ hz

/-- **`resolveBlock`** finds the block in the slot of the file block. -/
theorem resolveBlock_wp [L.Ok] (h : Work L M s ino raw) (fb : Nat) :
    (resolveBlock raw fb).wp (fun b s' => fb < L.maxBlocks ∧
        b = (forest (work L s ino raw)).blockAt (L.fileSlot ino fb) ∧ Same L s s')
      (fun _ s' => L.maxBlocks ≤ fb ∧ Same L s s') s := by
  have hraw := h.length_ge
  have hsame := After.refl h.mounted
  simp only [resolveBlock, wp_bind, wp_get, ptrsPerBlock_eq h.mounted.tables, nDirBlocks]
  unfold Layout.maxBlocks
  obtain hd | ⟨r, hr, rfl⟩ | ⟨r, rfl⟩ := L.fileBlock_cases fb
  · rw [if_pos (by omega), wp_lift, iBlockN_eq hraw (by omega), Layout.fileSlot_direct hd,
      h.forest_root (by omega)]
    exact ⟨by omega, rfl, hsame⟩
  · have hrel : (((r + 12 : Nat) : Int) - ((12 : Nat) : Int)).toNat = r := by omega
    simp only [hrel]
    rw [if_neg (by omega), if_pos hr, wp_bind, wp_lift, indBlock,
      iBlockN_eq hraw (by omega), Layout.fileSlot_indirect hr]
    rw [← h.forest_root (by omega)]
    refine wp_imp (followEntry_wp h (Layout.valid_indirect (Nat.le_refl _) hr)) ?_
    rintro b s1 ⟨rfl, hafter⟩
    exact ⟨by omega, rfl, hafter⟩
  · have hrel : (((r + L.ptrsPerBlock + 12 : Nat) : Int) - ((12 : Nat) : Int)).toNat =
        r + L.ptrsPerBlock := by omega
    simp only [hrel, Nat.add_sub_cancel]
    rw [if_neg (by omega), if_neg (by omega)]
    by_cases hlt : r < L.ptrsPerBlock * L.ptrsPerBlock
    · obtain ⟨hi, hj⟩ := Layout.double_lt hlt
      rw [if_pos hlt, wp_bind, wp_lift, dindBlock, iBlockN_eq hraw (by omega),
        Layout.fileSlot_double]
      rw [← h.forest_root (by omega)]
      refine wp_bind_ok (followEntry_wp h (Layout.valid_indirect (by omega) hi)) ?_
      rintro b s1 ⟨rfl, hafter⟩
      rw [← work_congr hafter.vol_eq]
      refine wp_imp (followEntry_wp (h.of_after hafter)
        (Layout.valid_double (Nat.le_refl _) hi hj)) ?_
      rintro b' s2 ⟨rfl, hafter'⟩
      exact ⟨by omega, rfl, hafter.still hafter'⟩
    · rw [if_neg hlt]
      exact ⟨by omega, hsame⟩

/-! ### `_allocate_block_for` -/

/-- A slot has a block, and only new blocks were added. -/
structure Ensured (L : Layout) (M : Set Nat) (s : Ext2FS) (ino : Nat) (raw : Bytes)
    (σ : Slot (Nat × Nat)) (r : Nat × Bytes) (s' : Ext2FS) : Prop where
  ready : Work L M s' ino r.2
  grown : Grown L M ino (work L s ino raw) (work L s' ino r.2)
  block : (forest (work L s' ino r.2)).blockAt σ = r.1
  ne_zero : r.1 ≠ 0
  disk : (vol L s').inode ino = (vol L s).inode ino
  exact : Exact L M (work L s ino raw) → Exact L M (work L s' ino r.2)
  steady : Steady L s s'

/-- What a function that raises may leave behind: the inode on the device is as it
was, but blocks may have been added to its copy. -/
structure Failed (L : Layout) (M : Set Nat) (s : Ext2FS) (ino : Nat) (raw : Bytes)
    (s' : Ext2FS) : Prop where
  mounted : Mounted L s'
  disk : (vol L s').inode ino = (vol L s).inode ino
  grown : ∃ raw', Grown L M ino (work L s ino raw) (work L s' ino raw')

/-- Why a slot gets no block: none is free, or a number does not fit its field. -/
def Refused (L : Layout) (s : Ext2FS) (raw : Bytes) (e : Error) (s' : Ext2FS) : Prop :=
  (Counts L (vol L s) → Synced L s → After L s ∅ (vol L s) s' ∧ ∀ b, ¬ L.Fresh (vol L s) b) ∨
  e = .struct ∧
    (256 ^ 4 ≤ leAt 4 raw 28 + L.sectorsPerBlock ∨ ∃ b, L.Fresh (vol L s) b ∧ 256 ^ 4 ≤ b)

/-- At most `k` blocks were taken for an inode. -/
structure Spent (L : Layout) (k : Nat) (s : Ext2FS) (raw : Bytes) (s' : Ext2FS)
    (raw' : Bytes) : Prop where
  free : (counters s).freeBlocks ≤ (counters s').freeBlocks + k
  blocks : leAt 4 raw' 28 ≤ leAt 4 raw 28 + k * L.sectorsPerBlock

namespace Spent

theorem refl (k : Nat) (s : Ext2FS) (raw : Bytes) : Spent L k s raw s raw :=
  ⟨by omega, Nat.le_add_right _ _⟩

theorem mono {k k' : Nat} {s' : Ext2FS} {raw' : Bytes} (h : Spent L k s raw s' raw')
    (hk : k ≤ k') : Spent L k' s raw s' raw' :=
  ⟨by have := h.free; omega,
    Nat.le_trans h.blocks (Nat.add_le_add_left (Nat.mul_le_mul_right _ hk) _)⟩

theorem trans {k k' : Nat} {s1 s2 : Ext2FS} {raw1 raw2 : Bytes} (h : Spent L k s raw s1 raw1)
    (h' : Spent L k' s1 raw1 s2 raw2) : Spent L (k + k') s raw s2 raw2 := by
  obtain ⟨hf, hb⟩ := h
  obtain ⟨hf', hb'⟩ := h'
  refine ⟨by omega, ?_⟩
  rw [Nat.add_mul]
  omega

end Spent

theorem Ensured.trans {s1 s2 : Ext2FS} {σ σ' : Slot (Nat × Nat)} {r r' : Nat × Bytes}
    (h : Ensured L M s ino raw σ r s1) (h' : Ensured L M s1 ino r.2 σ' r' s2) :
    Ensured L M s ino raw σ' r' s2 :=
  ⟨h'.ready, h.grown.trans h'.grown, h'.block, h'.ne_zero, h'.disk.trans h.disk,
    fun he => h'.exact (h.exact he), h.steady.trans h'.steady⟩

theorem Ensured.failed {s1 s2 : Ext2FS} {r : Nat × Bytes}
    (h : Ensured L M s ino raw σ r s1) (h' : Failed L M s1 ino r.2 s2) : Failed L M s ino raw s2 :=
  let ⟨raw', hg⟩ := h'.grown
  ⟨h'.mounted, h'.disk.trans h.disk, raw', h.grown.trans hg⟩

theorem iBlocks_eq (hraw : 128 ≤ raw.length) : iBlocks raw = .ok (leAt 4 raw 28) := by
  unfold iBlocks
  rw [unpack_eq ⟨by omega, by omega⟩]
  rfl

theorem addBlock_wp (h : Tables L s) (hraw : 128 ≤ raw.length) :
    (addBlock raw).wp
      (fun raw' s' => s' = s ∧ raw' = putLe 4 raw 28 (leAt 4 raw 28 + L.sectorsPerBlock) ∧
        leAt 4 raw 28 + L.sectorsPerBlock < 256 ^ 4)
      (fun e s' => s' = s ∧ e = .struct ∧ 256 ^ 4 ≤ leAt 4 raw 28 + L.sectorsPerBlock) s := by
  simp only [addBlock, wp_bind, wp_lift, wp_get, iBlocks_eq hraw, h.sectorsPerBlock, -Nat.reducePow]
  rcases pack_cases (w := 4) rfl 28 ((leAt 4 raw 28 + L.sectorsPerBlock : Nat) : Int)
    (show 28 + 4 ≤ raw.length by omega) with ⟨hv, hset⟩ | ⟨hv, hset⟩
  · rw [setIBlocks, show (28 : Int) = ((28 : Nat) : Int) from rfl, hset]
    exact ⟨trivial, rfl, hv.2⟩
  · rw [setIBlocks, show (28 : Int) = ((28 : Nat) : Int) from rfl, hset]
    exact ⟨trivial, rfl, by omega⟩

/-- A new block is counted. -/
theorem After.steady_addBlock (h : After L s T ((vol L s).addBlock L b) s')
    (hb : L.Fresh (vol L s) b) : Steady L s s' where
  synced := h.synced
  counts hc := by
    rw [h.vol_eq]
    exact (hc.takeBlock hb).congr (fun _ => rfl) (fun _ => rfl) rfl
  dirs g := by
    rw [h.counters_eq]
    refine (congrFun (Counts.group_add _ _ _ _ _).2.2 g).trans ?_
    simp [vol, volume]

theorem After.spent_addBlock (h : After L s T ((vol L s).addBlock L b) s')
    (hcount : leAt 4 raw' 28 = leAt 4 raw 28 + L.sectorsPerBlock) : Spent L 1 s raw s' raw' := by
  refine ⟨?_, by omega⟩
  have hfree : (counters s').freeBlocks = (counters s).freeBlocks + -1 :=
    congrArg Counters.freeBlocks h.counters_eq
  omega

theorem allocZeroed_wp [L.Ok] (h : Mounted L s) (ho : ∀ b, L.Fresh (vol L s) b → L.IsData b) :
    allocZeroed.wp (fun b s' => L.Fresh (vol L s) b ∧ After L s {b} ((vol L s).addBlock L b) s')
      (fun _ s' => AllocFailed L s s') s := by
  refine wp_bind_ok (allocBlock_wp h) ?_
  rintro b s1 ⟨hrange, hfree, hafter⟩
  simp only [zeroBlock, wp_bind, wp_get, wp_pure, hafter.mounted.tables.blockSize]
  refine wp_imp (writeData_wp hafter.mounted (ho b ⟨hrange, hfree⟩) (length_zeros _)) ?_
  rintro - s2 hafter'
  rw [hafter.vol_eq] at hafter'
  refine ⟨⟨hrange, hfree⟩, ?_⟩
  simpa [Volume.addBlock] using hafter.trans hafter'

/-- The slot `σ` of an inode has the block `v` instead of its own. -/
structure Put (L : Layout) (s : Ext2FS) (ino : Nat) (raw : Bytes) (σ : Slot (Nat × Nat)) (v : Nat)
    (raw' : Bytes) (s' : Ext2FS) : Prop where
  mounted : Mounted L s'
  blockAt : ∀ τ, L.shape.Valid τ → (forest (work L s' ino raw')).blockAt τ =
    if τ = σ then v else (forest (work L s ino raw)).blockAt τ
  inodeUsed : ∀ x, (vol L s').inodeUsed x = (vol L s).inodeUsed x
  inode : ∀ x, (vol L s').inode x = (vol L s).inode x
  fields : SameFields raw raw'
  tind : pointer raw' 14 = pointer raw 14
  data : ∀ τ, L.shape.Leaf τ → (forest (work L s ino raw)).blockAt τ ≠ 0 →
    (vol L s').data ((forest (work L s ino raw)).blockAt τ) =
      (vol L s).data ((forest (work L s ino raw)).blockAt τ)
  steady : Steady L s s'

theorem Put.other {v : Nat} (hp : Put L s ino raw σ v raw' s') (x : Nat) (hx : x ≠ ino) :
    (work L s' ino raw').inode x = (work L s ino raw).inode x := by
  rw [work_inode_of_ne hx, work_inode_of_ne hx, hp.inode]

namespace Work

variable {b : Nat} {s' : Ext2FS}

section

variable (h : Work L M s ino raw)

include h

/-- A free block of the device is free in the working volume. -/
theorem fresh (hb : L.Fresh (vol L s) b) : L.IsData b :=
  (h.own.fresh (V := work L s ino raw) hb).1

/-- The state after an allocation that raised. -/
theorem failed_of_alloc (hf : AllocFailed L s s') : Failed L M s ino raw s' := by
  rcases hf with ⟨ha, -⟩ | ⟨b, k, -, -, -, ha⟩
  · exact ⟨ha.mounted, by rw [ha.vol_eq], raw, by rw [work_congr ha.vol_eq]; exact .refl h.own⟩
  · refine ⟨ha.mounted, by rw [ha.vol_eq]; rfl, raw, ?_⟩
    rw [work_of_vol ha.vol_eq]
    refine Grown.of_unowned h.own (fun _ => rfl) (fun _ _ => rfl) (.refl _) (fun x hx => ?_)
      (fun _ _ => rfl) fun _ _ => rfl
    show ((vol L s).setUsed b true).used x = true
    rw [Volume.used_setUsed]
    split
    · rfl
    · exact hx

/-- A new block that no slot has yet, and `i_blocks` at will. -/
theorem grown_addBlock (hb : L.Fresh (vol L s) b) (hvol : vol L s' = (vol L s).addBlock L b) :
    Grown L M ino (work L s ino raw) (work L s' ino raw) := by
  rw [work_of_vol hvol]
  refine Grown.of_unowned h.own (fun _ => rfl) (fun _ _ => rfl) (.refl _) (fun x hx => ?_)
    (fun _ _ => rfl) fun x hx => ?_
  · show ((vol L s).setUsed b true).used x = true
    rw [Volume.used_setUsed]
    split
    · rfl
    · exact hx
  · show ((vol L s).setData b _).data x = _
    rw [Volume.data_setData, if_neg]
    · rfl
    · rintro rfl
      exact Own.not_taken_of_fresh (V := work L s ino raw) hb hx

section Put

variable {σ : Slot (Nat × Nat)} {raw' : Bytes} (hp : Put L s ino raw σ b raw' s')

include hp

/-- The inode is as ready as it was. -/
theorem of_put (hown : Own L M (work L s' ino raw')) : Work L M s' ino raw' :=
  ⟨hp.mounted, hown, (hp.inodeUsed ino).trans h.inodeUsed, hp.fields.1.trans h.length,
    (hasBlocks_congr hp.fields).mpr h.kind⟩

variable (hσ : L.shape.Valid σ) (hempty : (forest (work L s ino raw)).blockAt σ = 0)
  (hb : L.Fresh (vol L s) b) (hbz : b ≠ 0)
  (hused : ∀ x, (vol L s').used x = if x = b then true else (vol L s).used x)
  (hzero : (vol L s').data b = zeros L.blockSize)

include hσ hempty hb hbz hused hzero

theorem grown_of_put : Grown L M ino (work L s ino raw) (work L s' ino raw') := by
  refine Grown.of_assign h.own hp.inodeUsed hp.other ?_ hp.blockAt hσ hempty hb hbz hused hzero
    hp.data
  rw [work_inode, work_inode]
  exact hp.fields

/-- A slot of the inode got a new block, whichever way. -/
theorem ensured_of_put (hino : σ.1.1 = ino)
    (hcount : leAt 4 raw' 28 = leAt 4 raw 28 + L.sectorsPerBlock) :
    Ensured L M s ino raw σ (b, raw') s' := by
  have hgrown := h.grown_of_put hp hσ hempty hb hbz hused hzero
  have hready := h.of_put hp hgrown.own
  refine ⟨hready, hgrown, by rw [hp.blockAt σ hσ, if_pos rfl], hbz, hp.inode ino, fun he => ?_,
    hp.steady⟩
  refine he.assign h.own hp.blockAt hσ hp.inodeUsed
    (h.holds_iff hp.inodeUsed hp.inode hready.kind) ?_ ?_ hempty hb hbz hused ?_
  · rw [hino]
    exact hp.other
  · rw [hino, work_inode, work_inode, hp.tind]
  · rw [hino, work_inode, work_inode, hcount]

end Put

/-- Blocks of files are not the new one. -/
theorem ne_of_fresh (hb : L.Fresh (vol L s) b) {τ : Slot (Nat × Nat)}
    (hτ : L.shape.Valid τ) (hz : (forest (work L s ino raw)).blockAt τ ≠ 0) :
    (forest (work L s ino raw)).blockAt τ ≠ b := fun heq =>
  Own.not_taken_of_fresh (V := work L s ino raw) hb (heq ▸ h.own.owned.taken τ hτ hz)

end

end Work

theorem Volume.used_addBlock (V : Volume) (L : Layout) (b x : Nat) :
    (V.addBlock L b).used x = if x = b then true else V.used x :=
  Volume.used_takeBlock V L b x

theorem Volume.data_addBlock (V : Volume) (L : Layout) (b x : Nat) :
    (V.addBlock L b).data x = if x = b then zeros L.blockSize else V.data x :=
  Volume.data_setData ..

/-- `i_blocks` after a block was added. -/
theorem count_addBlock {raw1 : Bytes} (hraw : 128 ≤ raw.length) (hlen : raw1.length = raw.length)
    (hkeep : leAt 4 raw1 28 = leAt 4 raw 28)
    (hcount : leAt 4 raw1 28 + L.sectorsPerBlock < 256 ^ 4) :
    leAt 4 (putLe 4 raw1 28 (leAt 4 raw1 28 + L.sectorsPerBlock)) 28 =
      leAt 4 raw 28 + L.sectorsPerBlock := by
  rw [leAt_putLe_self (by omega) hcount, hkeep]

/-- **`ensurePointer`** gives the pointer a block. -/
theorem ensurePointer_wp [L.Ok] (h : Work L M s ino raw) (hn : n < 14) :
    (ensurePointer raw n).wp
      (fun r s' => Ensured L M s ino raw ((ino, n), []) r s' ∧ Spent L 1 s raw s' r.2 ∧
        ∀ m, m ≠ n ∨ pointer raw n ≠ 0 → pointer r.2 m = pointer raw m)
      (fun e s' => Failed L M s ino raw s' ∧ pointer raw n = 0 ∧ Refused L s raw e s') s := by
  have hraw := h.length_ge
  simp only [ensurePointer, wp_bind, wp_lift, iBlockN_eq hraw (show n < 15 by omega)]
  by_cases hz : pointer raw n = 0
  · rw [if_pos hz]
    refine wp_bind_of (allocZeroed_wp h.mounted fun b => h.fresh)
      (fun _ s' hf => ⟨h.failed_of_alloc hf, hz,
        .inl fun hc hs => hf.full hc h.mounted.tables hs⟩) ?_
    rintro b s1 ⟨hb, ha⟩
    have hfail : Failed L M s ino raw s1 :=
      ⟨ha.mounted, by rw [ha.vol_eq]; rfl, raw, h.grown_addBlock hb ha.vol_eq⟩
    simp only [wp_bind, wp_lift]
    cases hset : setIBlockN raw n b with
    | error e =>
      obtain ⟨rfl, hb4⟩ := setIBlockN_error hraw (by omega) hset
      exact ⟨hfail, hz, .inr ⟨rfl, .inr ⟨b, hb, hb4⟩⟩⟩
    | ok raw1 =>
      obtain ⟨hb4, rfl⟩ := setIBlockN_ok hset
      have hlen1 : (putLe 4 raw (40 + n * 4) b).length = raw.length := length_putLe (by omega)
      have hkeep : leAt 4 (putLe 4 raw (40 + n * 4) b) 28 = leAt 4 raw 28 :=
        leAt_putLe_of_disjoint (by omega) (by omega)
      refine wp_mono (addBlock_wp ha.mounted.tables (by omega)) ?_ ?_
      on_goal 2 =>
        rintro - s2 ⟨rfl, rfl, hcount⟩
        rw [hkeep] at hcount
        exact ⟨hfail, hz, .inr ⟨rfl, .inl hcount⟩⟩
      rintro raw2 s2 ⟨rfl, rfl, hcount⟩
      have hptr : ∀ m v, pointer (putLe 4 (putLe 4 raw (40 + n * 4) b) 28 v) m =
          if m = n then b else pointer raw m := by
        intro m v
        rw [pointer_iBlocks (by omega), pointer_putLe hraw (by omega) hb4]
      have hinode : ∀ x, (vol L s2).inode x = (vol L s).inode x := fun x => by rw [ha.vol_eq]; rfl
      have hinodeUsed : ∀ x, (vol L s2).inodeUsed x = (vol L s).inodeUsed x :=
        fun x => by rw [ha.vol_eq]; rfl
      have hfields : SameFields raw (putLe 4 (putLe 4 raw (40 + n * 4) b) 28
          (leAt 4 (putLe 4 raw (40 + n * 4) b) 28 + L.sectorsPerBlock)) :=
        (SameFields.of_putLe (.inr ⟨by omega, by omega⟩) hraw).trans
          (.of_putLe (.inl rfl) (by rw [hlen1]; exact hraw))
      have hcount' := count_addBlock hraw hlen1 hkeep hcount
      refine ⟨h.ensured_of_put ⟨ha.mounted, fun τ hτ => ?_, hinodeUsed, hinode, hfields,
          by rw [hptr, if_neg (by omega)], fun τ hτ hne => ?_, ha.steady_addBlock hb⟩
        (Shape.valid_root _) (by rw [h.forest_root (by omega), hz]) hb ((h.fresh hb).ne_zero)
        (fun x => by rw [ha.vol_eq, Volume.used_addBlock])
        (by rw [ha.vol_eq, Volume.data_addBlock, if_pos rfl]) rfl hcount',
        ha.spent_addBlock hcount', fun m hm => ?_⟩
      · refine h.own.blockAt_putPointer (work L s2 ino _) h.holds (show n < 15 by omega)
          (h.holds_iff hinodeUsed hinode ((hasBlocks_congr hfields).mpr h.kind))
          (fun x hx => by rw [work_inode_of_ne hx, work_inode_of_ne hx, hinode])
          (fun m _ => by rw [work_inode, work_inode, hptr]) (fun x hx => ?_)
          (.inr ⟨by rw [work_inode, hz], ?_⟩) hτ
        · show (vol L s2).data x = _
          rw [ha.vol_eq, Volume.data_addBlock, if_neg]
          · rfl
          · rintro rfl
            exact Own.not_taken_of_fresh (V := work L s ino raw) hb hx
        · show (vol L s2).data b = _
          rw [ha.vol_eq, Volume.data_addBlock, if_pos rfl]
      · rw [ha.vol_eq, Volume.data_addBlock, if_neg (h.ne_of_fresh hb hτ.1 hne)]
      · rw [hptr, if_neg (hm.resolve_right fun hne => hne hz)]
  · rw [if_neg hz]
    exact ⟨⟨h, .refl h.own, h.forest_root (by omega), hz, rfl, id, .refl L s⟩, .refl 1 s raw,
      fun _ _ => rfl⟩

section Entry

variable (h : Work L M s ino raw) (hσ : L.shape.Valid (σ.child i))
  (hz : (forest (work L s ino raw)).blockAt σ ≠ 0)

include h hσ hz

/-- Entry `i` of the block in `σ` was set to a new block. -/
theorem Work.blockAt_newEntry
    (hempty : (forest (work L s ino raw)).blockAt (σ.child i) = 0) (hb : L.Fresh (vol L s) b)
    (hb4 : b < 256 ^ 4) (hptr : ∀ m, pointer raw' m = pointer raw m) (hkind : hasBlocks raw')
    (hvol : vol L s' = ((vol L s).addBlock L b).setData ((forest (work L s ino raw)).blockAt σ)
      (putLe 4 ((vol L s).data ((forest (work L s ino raw)).blockAt σ)) (i * 4) b))
    {τ : Slot (Nat × Nat)} (hτ : L.shape.Valid τ) :
    (forest (work L s' ino raw')).blockAt τ =
      if τ = σ.child i then b else (forest (work L s ino raw)).blockAt τ := by
  have hσ' := (Shape.valid_child.mp hσ).1
  have hdata : ∀ x, (vol L s').data x = if x = (forest (work L s ino raw)).blockAt σ then
      putLe 4 ((vol L s).data x) (i * 4) b
      else if x = b then zeros L.blockSize else (vol L s).data x := by
    intro x
    rw [hvol, Volume.data_setData, Volume.data_addBlock]
    split
    · next hx => rw [hx]
    · rfl
  refine h.own.blockAt_putEntry (work L s' ino raw') hσ hz
    (h.mounted.length_data (h.own.isData hσ' hz)) hb4
    (h.holds_iff (fun x => by rw [hvol]; rfl) (fun x => by rw [hvol]; rfl) hkind)
    (fun x m _ => ?_) (fun x hx => ?_) (.inr ⟨hempty, ?_⟩) hτ
  · by_cases hx : x = ino
    · rw [hx, work_inode, work_inode, hptr]
    · rw [work_inode_of_ne hx, work_inode_of_ne hx, hvol]
      rfl
  · have hxb : x ≠ b := by
      rintro rfl
      exact Own.not_taken_of_fresh (V := work L s ino raw) hb hx
    show (vol L s').data x = _
    rw [hdata, if_neg hxb]
    rfl
  · show (vol L s').data b = _
    rw [hdata, if_neg (h.ne_of_fresh hb hσ' hz).symm, if_pos rfl]

/-- **`ensureEntry`** gives the entry of an indirect block a block. -/
theorem ensureEntry_wp [L.Ok] (hino : σ.1.1 = ino) :
    (ensureEntry raw ((forest (work L s ino raw)).blockAt σ) i).wp
      (fun r s' => Ensured L M s ino raw (σ.child i) r s' ∧ Spent L 1 s raw s' r.2 ∧
        ∀ m, pointer r.2 m = pointer raw m)
      (fun e s' => Failed L M s ino raw s' ∧ Refused L s raw e s') s := by
  obtain ⟨hσ', -, hi⟩ := Shape.valid_child.mp hσ
  have hi : i < L.ptrsPerBlock := hi
  have hraw := h.length_ge
  have hind := h.own.isData hσ' hz
  have hlen := h.mounted.length_data hind
  have hwidth := L.four_mul_ptrsPerBlock
  have hentry : (forest (work L s ino raw)).blockAt (σ.child i) =
      leAt 4 ((vol L s).data ((forest (work L s ino raw)).blockAt σ)) (i * 4) := by
    rw [Forest.blockAt_child, follow_of_ne hz]
    rfl
  refine wp_bind_ok (readData_wp h.mounted hind) ?_
  rintro r s1 ⟨ha1, hr, hheap⟩
  simp only [wp_bind, load_wp, hheap, wp_lift, unpack_entry hlen hi]
  rw [← hentry]
  have h1 := h.of_after ha1
  have hwork1 := ha1.work_eq ino raw
  by_cases hempty : (forest (work L s ino raw)).blockAt (σ.child i) = 0
  · rw [if_pos hempty]
    refine wp_bind_of (allocZeroed_wp ha1.mounted fun b => h1.fresh)
      (fun _ s' hf => ?_) ?_
    · obtain ⟨hm, hdisk, hgrown⟩ := h1.failed_of_alloc hf
      rw [hwork1] at hgrown
      rw [ha1.vol_eq] at hdisk
      refine ⟨⟨hm, hdisk, hgrown⟩, .inl fun hc hs => ?_⟩
      rw [← ha1.vol_eq] at hc
      obtain ⟨ha, hfull⟩ := hf.full hc h1.mounted.tables (ha1.synced hs)
      rw [ha1.vol_eq] at hfull
      exact ⟨ha1.still ha, hfull⟩
    · rintro b s2 ⟨hb, ha2⟩
      rw [ha1.vol_eq] at hb ha2
      have hne := h.ne_of_fresh hb hσ' hz
      have hdata2 : (vol L s2).data ((forest (work L s ino raw)).blockAt σ) =
          (vol L s).data ((forest (work L s ino raw)).blockAt σ) := by
        rw [ha2.vol_eq, Volume.data_addBlock, if_neg hne]
      have hsteady2 : Steady L s s2 := by
        have ha := ha1.trans ha2
        exact ha.steady_addBlock hb
      have hfail2 : Failed L M s ino raw s2 :=
        ⟨ha2.mounted, by rw [ha2.vol_eq]; rfl, raw, h.grown_addBlock hb ha2.vol_eq⟩
      refine wp_bind_of (writeBackData_wp ha2.mounted hind
        (ha2.held _ _ hind hne hr) fun d hd => ?_) ?_ ?_
      · rw [length_of_pack hd (by omega), hdata2, hlen]
      · rintro e s3 ⟨rfl, herr⟩
        rw [hdata2] at herr
        obtain ⟨rfl, hb4⟩ := pack_error hlen (by omega) herr
        exact ⟨hfail2, .inr ⟨rfl, .inr ⟨b, hb, hb4⟩⟩⟩
      · rintro - s3 ⟨d, hd, ha3⟩
        rw [hdata2] at hd
        obtain ⟨-, -, hb4, rfl⟩ := pack_ok hd (by omega)
        rw [Int.toNat_natCast] at hb4
        rw [Int.toNat_natCast, Int.toNat_natCast, ha2.vol_eq] at ha3
        have hvol := ha3.vol_eq
        have hsteady := hsteady2.trans (ha3.steady (fun x => by rw [ha2.vol_eq]; rfl)
          (fun x => by rw [ha2.vol_eq]; rfl) ha2.counters_eq.symm)
        have hused : ∀ x, (vol L s3).used x = if x = b then true else (vol L s).used x := by
          intro x
          rw [hvol]
          exact Volume.used_addBlock _ L _ _
        have hleaf : ∀ τ, L.shape.Leaf τ → (forest (work L s ino raw)).blockAt τ ≠ 0 →
            (vol L s3).data ((forest (work L s ino raw)).blockAt τ) =
              (vol L s).data ((forest (work L s ino raw)).blockAt τ) := by
          intro τ hτ hτz
          rw [hvol, Volume.data_setData, if_neg (h.own.leaf_ne hτ hτz hσ), Volume.data_addBlock,
            if_neg (h.ne_of_fresh hb hτ.1 hτz)]
        have hzero : (vol L s3).data b = zeros L.blockSize := by
          rw [hvol, Volume.data_setData, if_neg hne.symm, Volume.data_addBlock, if_pos rfl]
        have hput : ∀ raw', (∀ m, pointer raw' m = pointer raw m) → SameFields raw raw' →
            Put L s ino raw (σ.child i) b raw' s3 := fun raw' hp hf =>
          ⟨ha3.mounted, fun τ hτ => h.blockAt_newEntry hσ hz hempty hb hb4 hp
            ((hasBlocks_congr hf).mpr h.kind) hvol hτ, fun x => by rw [hvol]; rfl,
            fun x => by rw [hvol]; rfl, hf, hp 14, hleaf, hsteady⟩
        have hbz := (h.fresh hb).ne_zero
        have hfail3 : Failed L M s ino raw s3 :=
          ⟨ha3.mounted, by rw [hvol]; rfl, raw, h.grown_of_put (hput raw (fun _ => rfl) (.refl raw))
            hσ hempty hb hbz hused hzero⟩
        refine wp_bind_of (addBlock_wp ha3.mounted.tables hraw) ?_ ?_
        · rintro - s4 ⟨rfl, rfl, hcount⟩
          exact ⟨hfail3, .inr ⟨rfl, .inl hcount⟩⟩
        rintro raw1 s4 ⟨rfl, rfl, hcount⟩
        have hcount' := count_addBlock hraw rfl rfl hcount
        refine ⟨h.ensured_of_put
          (hput _ (fun m => pointer_iBlocks hraw) (.of_putLe (.inl rfl) hraw)) hσ hempty hb hbz
          hused hzero hino hcount', ?_, fun m => pointer_iBlocks hraw⟩
        have hspent := (ha1.trans ha2).spent_addBlock hcount'
        have hk : counters s4 = counters s2 := ha3.counters_eq.trans ha2.counters_eq.symm
        exact ⟨by rw [hk]; exact hspent.free, hspent.blocks⟩
  · rw [if_neg hempty]
    refine ⟨⟨h1, ?_, ?_, hempty, by rw [ha1.vol_eq], ?_,
      ha1.steady_self⟩, ⟨?_, Nat.le_add_right _ _⟩, fun _ => rfl⟩
    · rw [hwork1]
      exact .refl h.own
    · rw [hwork1]
    · rw [hwork1]
      exact id
    · have hk : counters s1 = counters s := ha1.counters_eq
      rw [hk]
      omega

end Entry

/-- Where `allocateBlockFor` raised: at once, at the pointer of the inode, or at an entry of
an indirect block, when the pointer is there already. -/
inductive Stopped (L : Layout) (M : Set Nat) (s : Ext2FS) (ino : Nat) (raw : Bytes) (fb : Nat) :
    Error → Ext2FS → Prop
  | past {e : Error} (hfb : L.maxBlocks ≤ fb) : Stopped L M s ino raw fb e s
  | root {e : Error} {s' : Ext2FS} (hfb : fb < L.maxBlocks)
      (hz : pointer raw (L.fileSlot ino fb).1.2 = 0) (h : Refused L s raw e s') :
      Stopped L M s ino raw fb e s'
  | entry {e : Error} {s₁ s' : Ext2FS} {σ : Slot (Nat × Nat)} {r : Nat × Bytes}
      (hfb : fb < L.maxBlocks) (he : Ensured L M s ino raw σ r s₁) (hs : Spent L 2 s raw s₁ r.2)
      (hz : pointer r.2 (L.fileSlot ino fb).1.2 ≠ 0)
      (hp : ∀ m, m ≠ (L.fileSlot ino fb).1.2 ∨ pointer raw (L.fileSlot ino fb).1.2 ≠ 0 →
        pointer r.2 m = pointer raw m)
      (h : Refused L s₁ r.2 e s') : Stopped L M s ino raw fb e s'

/-- There is room for `k` more blocks of an inode. -/
structure Room (L : Layout) (k : Nat) (s : Ext2FS) (raw : Bytes) : Prop where
  counts : Counts L (vol L s)
  synced : Synced L s
  free : k ≤ (counters s).freeBlocks
  blocks : leAt 4 raw 28 + k * L.sectorsPerBlock < 256 ^ 4
  fits : L.blocksCount ≤ 256 ^ 4

theorem Room.of_after {k : Nat} (h : Room L k s raw) (ha : After L s T (vol L s) s') :
    Room L k s' raw :=
  ⟨by rw [ha.vol_eq]; exact h.counts, ha.synced h.synced, by rw [ha.counters_eq]; exact h.free,
    h.blocks, h.fits⟩

/-- With room for a block, a slot gets one. -/
theorem Refused.not_room {e : Error} (h : Refused L s raw e s') : ¬ Room L 1 s raw := by
  rintro ⟨hc, hs, hfree, hblocks, hfits⟩
  rcases h with h | ⟨-, hlarge | ⟨b, hb, hlarge⟩⟩
  · have hzero := (hc.blocks.eq_zero_iff ()).mpr fun b hb => absurd hb ((h hc hs).2 b)
    have hfree' : 1 ≤ (vol L s).counters.freeBlocks := hfree
    omega
  · omega
  · exact absurd hb.1.2 (by omega)

/-- With room for three blocks, `allocateBlockFor` raises only past the double-indirect
range. -/
theorem Stopped.not_room {fb : Nat} {e : Error} (h : Stopped L M s ino raw fb e s')
    (hfb : fb < L.maxBlocks) : ¬ Room L 3 s raw := by
  rintro ⟨hc, hs, hfree, hblocks, hfits⟩
  cases h with
  | past hge => omega
  | root _ _ h => exact h.not_room ⟨hc, hs, by omega, by omega, hfits⟩
  | entry _ he hspent _ _ h =>
    have hf := hspent.free
    have hb := hspent.blocks
    exact h.not_room ⟨he.steady.counts hc, he.steady.synced hs, by omega, by omega, hfits⟩

/-- **`allocateBlockFor`** gives the file block a block. -/
theorem allocateBlockFor_wp [L.Ok] (h : Work L M s ino raw) (fb : Nat) :
    (allocateBlockFor raw fb).wp
      (fun r s' => fb < L.maxBlocks ∧ Ensured L M s ino raw (L.fileSlot ino fb) r s' ∧
        ∀ m, m ≠ (L.fileSlot ino fb).1.2 ∨ pointer raw (L.fileSlot ino fb).1.2 ≠ 0 →
          pointer r.2 m = pointer raw m)
      (fun e s' => Failed L M s ino raw s' ∧ Stopped L M s ino raw fb e s') s := by
  have hpast : L.maxBlocks ≤ fb → Stopped L M s ino raw fb (.notImplemented
    "triple-indirect blocks not supported") s := .past
  have hroot : ∀ e s', fb < L.maxBlocks → pointer raw (L.fileSlot ino fb).1.2 = 0 →
    Refused L s raw e s' → Stopped L M s ino raw fb e s' := fun _ _ => .root
  have hentry : ∀ {e s1 s' σ r}, fb < L.maxBlocks → Ensured L M s ino raw σ r s1 →
    Spent L 2 s raw s1 r.2 → pointer r.2 (L.fileSlot ino fb).1.2 ≠ 0 →
    (∀ m, m ≠ (L.fileSlot ino fb).1.2 ∨ pointer raw (L.fileSlot ino fb).1.2 ≠ 0 →
      pointer r.2 m = pointer raw m) → Refused L s1 r.2 e s' →
    Stopped L M s ino raw fb e s' := .entry
  simp only [allocateBlockFor, wp_bind, wp_get, ptrsPerBlock_eq h.mounted.tables, nDirBlocks]
  unfold Layout.maxBlocks at hpast hroot hentry ⊢
  obtain hd | ⟨r, hr, rfl⟩ | ⟨r, rfl⟩ := L.fileBlock_cases fb
  · rw [Layout.fileSlot_direct hd] at hroot ⊢
    rw [if_pos (by omega)]
    exact wp_mono (ensurePointer_wp h (by omega)) (fun _ _ he => ⟨by omega, he.1, he.2.2⟩)
      fun _ _ hf => ⟨hf.1, hroot _ _ (by omega) hf.2.1 hf.2.2⟩
  · have hrel : (((r + 12 : Nat) : Int) - ((12 : Nat) : Int)).toNat = r := by omega
    rw [Layout.fileSlot_indirect hr] at hroot hentry ⊢
    simp only [hrel]
    rw [if_neg (by omega), if_pos hr]
    refine wp_bind_of (ensurePointer_wp h (show indBlock < 14 by decide))
      (fun _ _ hf => ⟨hf.1, hroot _ _ (by omega) hf.2.1 hf.2.2⟩) ?_
    rintro ⟨ind, raw1⟩ s1 ⟨he1, hs1, hp1⟩
    obtain rfl : (forest (work L s1 ino raw1)).blockAt ((ino, indBlock), []) = ind := he1.block
    have hz1 : pointer raw1 12 ≠ 0 := by
      rw [← he1.ready.forest_root (by decide)]
      exact he1.ne_zero
    refine wp_mono (ensureEntry_wp he1.ready
      (Layout.valid_indirect (Nat.le_refl _) hr) he1.ne_zero rfl) ?_ fun _ _ hf =>
        ⟨he1.failed hf.1, hentry (by omega) he1 (hs1.mono (by decide)) hz1 hp1 hf.2⟩
    exact fun _ _ he2 => ⟨by omega, he1.trans he2.1, fun m hm => (he2.2.2 m).trans (hp1 m hm)⟩
  · have hrel : (((r + L.ptrsPerBlock + 12 : Nat) : Int) - ((12 : Nat) : Int)).toNat =
        r + L.ptrsPerBlock := by omega
    rw [Layout.fileSlot_double] at hroot hentry ⊢
    simp only [hrel, Nat.add_sub_cancel]
    rw [if_neg (by omega), if_neg (by omega)]
    by_cases hlt : r < L.ptrsPerBlock * L.ptrsPerBlock
    · obtain ⟨hi, hj⟩ := Layout.double_lt hlt
      rw [if_pos hlt]
      refine wp_bind_of (ensurePointer_wp h (show dindBlock < 14 by decide))
        (fun _ _ hf => ⟨hf.1, hroot _ _ (by omega) hf.2.1 hf.2.2⟩) ?_
      rintro ⟨dind, raw1⟩ s1 ⟨he1, hs1, hp1⟩
      obtain rfl : (forest (work L s1 ino raw1)).blockAt ((ino, dindBlock), []) = dind := he1.block
      have hz1 : pointer raw1 13 ≠ 0 := by
        rw [← he1.ready.forest_root (by decide)]
        exact he1.ne_zero
      refine wp_bind_of (ensureEntry_wp he1.ready (Layout.valid_indirect (by decide) hi)
        he1.ne_zero rfl) (fun _ _ hf => ⟨he1.failed hf.1,
          hentry (by omega) he1 (hs1.mono (by decide)) hz1 hp1 hf.2⟩) ?_
      rintro ⟨ind, raw2⟩ s2 ⟨he2, hs2, hp2⟩
      obtain rfl : (forest (work L s2 ino raw2)).blockAt
        (Slot.child ((ino, dindBlock), []) (r / L.ptrsPerBlock)) = ind := he2.block
      refine wp_mono (ensureEntry_wp he2.ready
        (Layout.valid_double (Nat.le_refl _) hi hj) he2.ne_zero rfl) ?_
        fun _ _ hf => ⟨he1.failed (he2.failed hf.1), hentry (by omega) (he1.trans he2)
          (hs1.trans hs2) (by rw [hp2]; exact hz1) (fun m hm => (hp2 m).trans (hp1 m hm)) hf.2⟩
      exact fun _ _ he3 => ⟨by omega, (he1.trans he2).trans he3.1,
        fun m hm => (he3.2.2 m).trans ((hp2 m).trans (hp1 m hm))⟩
    · rw [if_neg hlt]
      exact ⟨⟨h.mounted, rfl, raw, .refl h.own⟩, hpast (by omega)⟩

end

end PythonOS.Ext2
