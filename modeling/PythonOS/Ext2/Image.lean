import Mathlib.Data.Nat.Bitwise
import PythonOS.Ext2.Directory

/-!
# PythonOS.Ext2.Image

Images of volumes: `Image` says what a volume with one group is to hold, `Image.fs` is
the driver right after it has mounted a device that holds it, and `Image.volume_eq`
says that the volume on the device is the one described.
-/

namespace PythonOS.Ext2

open Lib List Lib.Bytes

/-- The bytes of a bitmap. -/
def bitmapBytes (n : Nat) (f : Nat → Bool) : Bytes :=
  (range n).map fun i => UInt8.ofNat (Nat.ofBits fun k : Fin 8 => f (8 * i + k))

theorem bitAt_bitmapBytes {n j : Nat} {f : Nat → Bool} (hj : j < 8 * n) :
    bitAt (bitmapBytes n f) j = f j := by
  have hdiv : j / 8 < n := by omega
  unfold bitAt bitmapBytes
  rw [getD_eq_getElem?_getD, getElem?_map, getElem?_range hdiv]
  simp only [Option.map_some, Option.getD_some, UInt8.toNat_ofNat']
  rw [Nat.mod_eq_of_lt (Nat.ofBits_lt_two_pow _),
    Nat.testBit_ofBits_lt _ _ (Nat.mod_lt _ (by decide))]
  congr 1
  exact Nat.div_add_mod j 8

/-- The bytes of an inode. -/
def inodeBytes (mode size links iBlocks : Nat) (ptr : Nat → Nat) : Bytes :=
  leBytes 2 mode ++ (zeros 2 ++ (leBytes 4 size ++ (zeros 18 ++ (leBytes 2 links ++
    (leBytes 4 iBlocks ++ (zeros 8 ++ ((range 15).flatMap (fun n => leBytes 4 (ptr n)) ++
      zeros 28)))))))

section Inode

variable {mode size links iBlocks : Nat} {ptr : Nat → Nat}

theorem length_inodeBytes : (inodeBytes mode size links iBlocks ptr).length = 128 := by
  simp only [inodeBytes, length_append, length_leBytes, length_zeros]
  simp [range, range.loop]

theorem leAt_skip {a c : Bytes} {n w k : Nat} (h : a.length = n) :
    leAt w (a ++ c) (n + k) = leAt w c k := by
  rw [← h, leAt_append_right]

theorem mode_inodeBytes (h : mode < 256 ^ 2) :
    leAt 2 (inodeBytes mode size links iBlocks ptr) 0 = mode := leAt_leBytes_append h _

theorem size_inodeBytes (h : size < 256 ^ 4) :
    leAt 4 (inodeBytes mode size links iBlocks ptr) 4 = size := by
  show leAt 4 _ (2 + (2 + 0)) = size
  rw [inodeBytes, leAt_skip (length_leBytes _ _), leAt_skip (length_zeros _), leAt_leBytes_append h]

theorem iBlocks_inodeBytes (h : iBlocks < 256 ^ 4) :
    leAt 4 (inodeBytes mode size links iBlocks ptr) 28 = iBlocks := by
  show leAt 4 _ (2 + (2 + (4 + (18 + (2 + 0))))) = iBlocks
  rw [inodeBytes, leAt_skip (length_leBytes _ _), leAt_skip (length_zeros _),
    leAt_skip (length_leBytes _ _), leAt_skip (length_zeros _), leAt_skip (length_leBytes _ _),
    leAt_leBytes_append h]

theorem pointer_inodeBytes {n : Nat} (hn : n < 15) (h : ptr n < 256 ^ 4) :
    pointer (inodeBytes mode size links iBlocks ptr) n = ptr n := by
  have hlen : ((range 15).flatMap fun n => leBytes 4 (ptr n)).length = 60 := by
    simp [range, range.loop]
  have hslice : slice ((range 15).flatMap (fun n => leBytes 4 (ptr n)) ++ zeros 28) (n * 4)
      (n * 4 + 4) = leBytes 4 (ptr n) := by
    rw [slice, take_append_of_le_length (by omega)]
    exact slice_flatMap (fun _ _ => length_leBytes _ _) hn
  rw [pointer, show 40 + n * 4 = 2 + (2 + (4 + (18 + (2 + (4 + (8 + n * 4))))))
    by omega, inodeBytes,
    leAt_skip (length_leBytes _ _), leAt_skip (length_zeros _), leAt_skip (length_leBytes _ _),
    leAt_skip (length_zeros _), leAt_skip (length_leBytes _ _), leAt_skip (length_leBytes _ _),
    leAt_skip (length_zeros _), leAt, hslice, leNat_leBytes_of_lt h]

end Inode

/-- Where indirect blocks are empty, a slot with a block is a pointer of an inode. -/
theorem slot_root {L : Layout} {V : Volume}
    (hempty : ∀ x n, V.Holds x → 12 ≤ n → n < 15 → pointer (V.inode x) n ≠ 0 →
      ∃ k, V.data (pointer (V.inode x) n) = zeros k) {τ : Slot (Nat × Nat)} (hτ : L.shape.Valid τ)
    (hz : (forest V).blockAt τ ≠ 0) :
    τ.2 = [] ∧ V.Holds τ.1.1 ∧ τ.1.2 < 15 ∧
      (forest V).blockAt τ = pointer (V.inode τ.1.1) τ.1.2 := by
  obtain ⟨⟨x, n⟩, path⟩ := τ
  have hroot : (forest V).root (x, n) ≠ 0 := fun h0 => hz (Forest.blockAt_of_root_eq_zero h0)
  obtain ⟨hx, hn⟩ : V.Holds x ∧ n < 15 := by
    by_contra hc
    exact hroot (if_neg hc)
  have hptr : (forest V).root (x, n) = pointer (V.inode x) n := forest_root hx hn
  cases path with
  | nil => exact ⟨rfl, hx, hn, by rw [Forest.blockAt_root, hptr]⟩
  | cons i path =>
    refine absurd ?_ hz
    have hlen : (i :: path).length ≤ n - 11 := hτ.1
    rw [length_cons] at hlen
    obtain ⟨k, hdata⟩ := hempty x n hx (by omega) hn (hptr ▸ hroot)
    show foldl _ (follow _ ((forest V).root (x, n)) i) path = 0
    rw [hptr, follow, forest_next, hdata, leAt_zeros, ite_self, foldl_follow_zero]

/-- What a volume with one group is to hold. -/
structure Image where
  logBlockSize : Nat
  blocksCount : Nat
  inodesPerGroup : Nat
  used : Nat → Bool
  inodeUsed : Nat → Bool
  inode : Nat → Bytes
  data : Nat → Bytes
  freeBlocks : Nat
  freeInodes : Nat
  usedDirs : Nat

namespace Image

variable (I : Image)

def sectorsPerBlock : Nat := 2 * 2 ^ I.logBlockSize

def blockSize : Nat := I.sectorsPerBlock * 512

def firstDataBlock : Nat := 2 / I.sectorsPerBlock

/-- The number of blocks of the inode table. -/
def tableBlocks : Nat := (I.inodesPerGroup * 128 + I.blockSize - 1) / I.blockSize

/-- Superblock, group descriptor, two bitmaps, inode table, data. -/
def layout : Layout where
  logBlockSize := I.logBlockSize
  firstDataBlock := I.firstDataBlock
  blocksCount := I.blocksCount
  blocksPerGroup := 8 * I.blockSize
  inodesPerGroup := I.inodesPerGroup
  inodeSize := 128
  bgdtBlock := I.firstDataBlock + 1
  blockBitmap _ := I.firstDataBlock + 2
  inodeBitmap _ := I.firstDataBlock + 3
  inodeTable _ := I.firstDataBlock + 4

def superBytes : Bytes :=
  leBytes 4 I.inodesPerGroup ++ (leBytes 4 I.blocksCount ++ (zeros 4 ++ (leBytes 4 I.freeBlocks ++
    (leBytes 4 I.freeInodes ++ (leBytes 4 I.firstDataBlock ++ (leBytes 4 I.logBlockSize ++
      (zeros 4 ++ (leBytes 4 (8 * I.blockSize) ++ (zeros 4 ++ (leBytes 4 I.inodesPerGroup ++
        (zeros 12 ++ (leBytes 2 superMagic ++ (zeros 18 ++ (leBytes 4 1 ++ (zeros 8 ++
          (leBytes 2 128 ++ zeros 934))))))))))))))))

def descriptor : Bytes :=
  leBytes 4 (I.firstDataBlock + 2) ++ (leBytes 4 (I.firstDataBlock + 3) ++
    (leBytes 4 (I.firstDataBlock + 4) ++ (leBytes 2 I.freeBlocks ++ (leBytes 2 I.freeInodes ++
      (leBytes 2 I.usedDirs ++ zeros 14)))))

/-- The blocks of the device. -/
def block (b : Nat) : Bytes :=
  if b = I.firstDataBlock then
    if I.logBlockSize = 0 then I.superBytes
    else zeros 1024 ++ (I.superBytes ++ zeros (I.blockSize - 2048))
  else if b = I.firstDataBlock + 1 then I.descriptor ++ zeros (I.blockSize - 32)
  else if b = I.firstDataBlock + 2 then
    bitmapBytes I.blockSize fun j => I.used (I.firstDataBlock + j)
  else if b = I.firstDataBlock + 3 then bitmapBytes I.blockSize fun j => I.inodeUsed (j + 1)
  else if b < I.firstDataBlock + 4 + I.tableBlocks then
    (range (I.blockSize / 128)).flatMap fun k =>
      I.inode ((b - (I.firstDataBlock + 4)) * (I.blockSize / 128) + k + 1)
  else I.data b

/-- The driver after `mount`. -/
def fs : Ext2FS where
  dev lba := slice (I.block (lba / I.sectorsPerBlock)) (lba % I.sectorsPerBlock * 512)
    ((lba % I.sectorsPerBlock + 1) * 512)
  numSectors := I.blocksCount * I.sectorsPerBlock
  sb := {
    inodesCount := I.inodesPerGroup
    blocksCount := I.blocksCount
    freeBlocksCount := I.freeBlocks
    freeInodesCount := I.freeInodes
    firstDataBlock := I.firstDataBlock
    logBlockSize := I.logBlockSize
    blocksPerGroup := 8 * I.blockSize
    inodesPerGroup := I.inodesPerGroup
    inodeSize := 128
    raw := I.superBytes }
  blockSize := I.blockSize
  sectorsPerBlock := I.sectorsPerBlock
  bgdt := [I.descriptor]
  bgdtBlock := I.firstDataBlock + 1

/-- The parts fit into one group. -/
structure Ok : Prop where
  inodes_pos : 0 < I.inodesPerGroup
  inodes_le : I.inodesPerGroup ≤ 8 * I.blockSize
  inodes_lt : I.inodesPerGroup < 256 ^ 4
  table_lt : I.firstDataBlock + 4 + I.tableBlocks ≤ I.blocksCount
  blocks_le : I.blocksCount ≤ I.firstDataBlock + 8 * I.blockSize
  length_inode : ∀ x, (I.inode x).length = 128
  length_data : ∀ b, (I.data b).length = I.blockSize

attribute [class] Ok

variable {I}

theorem blockSize_eq : I.blockSize = 1024 * 2 ^ I.logBlockSize := by
  unfold blockSize sectorsPerBlock
  omega

theorem dvd_blockSize : 128 ∣ I.blockSize := by
  rw [blockSize_eq]
  exact Dvd.dvd.mul_right (by decide) _

theorem blockSize_ge : 1024 ≤ I.blockSize := by
  rw [blockSize_eq]
  exact Nat.le_mul_of_pos_right _ (Nat.two_pow_pos _)

/-- Either the superblock has a block of its own, or half of block 0 at most. -/
theorem log_cases : I.firstDataBlock = 1 ∧ I.blockSize = 1024 ∨
    I.firstDataBlock = 0 ∧ 2048 ≤ I.blockSize := by
  rw [blockSize_eq]
  unfold firstDataBlock sectorsPerBlock
  rcases Nat.eq_zero_or_pos I.logBlockSize with h | h
  · rw [h]
    exact .inl ⟨rfl, rfl⟩
  · obtain ⟨k, hk⟩ : ∃ k, I.logBlockSize = k + 1 := ⟨I.logBlockSize - 1, by omega⟩
    have hpos := Nat.two_pow_pos k
    rw [hk, Nat.pow_succ]
    exact .inr ⟨Nat.div_eq_of_lt (by omega), by omega⟩

theorem firstDataBlock_le : I.firstDataBlock ≤ 1 := by
  rcases I.log_cases with h | h <;> omega

theorem numGroups_eq [h : I.Ok] : I.layout.numGroups = 1 := by
  have h1 := h.table_lt
  have h2 := h.blocks_le
  show (I.blocksCount - I.firstDataBlock + 8 * I.blockSize - 1) / (8 * I.blockSize) = 1
  rw [Nat.div_eq_iff (by omega)]
  omega

theorem lt_tableBlocks {i : Nat} (h : i * I.blockSize < I.inodesPerGroup * 128) :
    i < I.tableBlocks := by
  have hge := I.blockSize_ge
  unfold tableBlocks
  rw [Nat.lt_div_iff_mul_lt (by omega)]
  omega

/-- The area in block `n` of the group. -/
def areaAt : Nat → Area
  | 0 => .super
  | 1 => .bgdt 0
  | 2 => .blockBitmap 0
  | 3 => .inodeBitmap 0
  | i + 4 => .inodeTable 0 i

theorem block_areaAt (n : Nat) : I.layout.block (areaAt n) = I.firstDataBlock + n := by
  rcases n with _ | _ | _ | _ | i
  on_goal 5 => exact Nat.add_right_comm _ 4 i
  all_goals rfl

/-- The table of descriptors is one block. -/
theorem bgdt_zero [I.Ok] {i : Nat} (hi : I.layout.HasArea (.bgdt i)) : i = 0 := by
  have hge := I.blockSize_ge
  have hlt : i * I.blockSize < I.layout.numGroups * bgdSize := hi
  rw [numGroups_eq, bgdSize] at hlt
  by_contra h0
  have := Nat.le_mul_of_pos_left I.blockSize (Nat.pos_of_ne_zero h0)
  omega

theorem exists_areaAt [I.Ok] {a : Area} (ha : I.layout.HasArea a) :
    ∃ n < 4 + I.tableBlocks, a = areaAt n := by
  have hgroup : ∀ g, g < I.layout.numGroups → g = 0 := by
    rw [numGroups_eq]
    omega
  cases a with
  | super => exact ⟨0, by omega, rfl⟩
  | bgdt i =>
    obtain rfl := bgdt_zero ha
    exact ⟨1, by omega, rfl⟩
  | blockBitmap g =>
    obtain rfl := hgroup g ha
    exact ⟨2, by omega, rfl⟩
  | inodeBitmap g =>
    obtain rfl := hgroup g ha
    exact ⟨3, by omega, rfl⟩
  | inodeTable g i =>
    obtain rfl := hgroup g ha.1
    have hi := lt_tableBlocks ha.2
    exact ⟨i + 4, by omega, rfl⟩

instance layout_ok [h : I.Ok] : I.layout.Ok := by
  have hge := I.blockSize_ge
  have hlt := h.table_lt
  refine ⟨rfl, rfl, by show 0 < 8 * I.blockSize; omega, h.inodes_pos, Nat.le_refl _, h.inodes_le,
    ?_, Nat.le_refl _, dvd_blockSize, fun a ha => ?_, fun a a' ha ha' heq => ?_⟩
  · show I.layout.numGroups * I.inodesPerGroup < 256 ^ 4
    rw [numGroups_eq, Nat.one_mul]
    exact h.inodes_lt
  · obtain ⟨n, hn, rfl⟩ := exists_areaAt ha
    show I.firstDataBlock ≤ _ ∧ _ < I.blocksCount
    rw [block_areaAt]
    omega
  · obtain ⟨n, -, rfl⟩ := exists_areaAt ha
    obtain ⟨n', -, rfl⟩ := exists_areaAt ha'
    rw [block_areaAt, block_areaAt] at heq
    rw [Nat.add_left_cancel heq]

theorem length_superBytes : I.superBytes.length = 1024 := by
  simp only [superBytes, length_append, length_leBytes, length_zeros]

theorem length_descriptor : I.descriptor.length = 32 := by
  simp only [descriptor, length_append, length_leBytes, length_zeros]

theorem length_bitmapBytes (n : Nat) (f : Nat → Bool) : (bitmapBytes n f).length = n := by
  simp [bitmapBytes]

theorem length_block [h : I.Ok] (b : Nat) : (I.block b).length = I.blockSize := by
  have hge := I.blockSize_ge
  unfold block
  split
  · split
    · next hlog => rw [length_superBytes, blockSize_eq, hlog, Nat.pow_zero]
    · next hlog =>
      have hbs : 2048 ≤ I.blockSize := by
        rw [blockSize_eq]
        have := Nat.pow_le_pow_right (n := 2) (by decide) (Nat.pos_of_ne_zero hlog)
        omega
      simp only [length_append, length_zeros, length_superBytes]
      omega
  split
  · simp only [length_append, length_zeros, length_descriptor]
    omega
  split
  · exact length_bitmapBytes _ _
  split
  · exact length_bitmapBytes _ _
  split
  · obtain ⟨k, hk⟩ := I.dvd_blockSize
    simp only [length_flatMap, h.length_inode, map_const',
      sum_replicate_nat, length_range]
    omega
  · exact h.length_data b

theorem sectorsPerBlock_pos : 0 < I.sectorsPerBlock :=
  Nat.mul_pos (by decide) (Nat.two_pow_pos _)

variable [h : I.Ok]

/-- The device holds the blocks. -/
theorem blocks_eq (b : Nat) : blocks I.layout I.fs b = I.block b := by
  have hpos := I.sectorsPerBlock_pos
  show sectorsAt I.fs.dev (b * I.sectorsPerBlock) I.sectorsPerBlock = _
  rw [sectorsAt_slices (d := I.block b) (i := 0) fun k hk => ?_]
  · rw [Nat.zero_mul, Nat.zero_add, show I.sectorsPerBlock * 512 = I.blockSize from rfl,
      ← length_block b, slice_zero_length]
  · show slice (I.block ((b * I.sectorsPerBlock + k) / I.sectorsPerBlock))
      ((b * I.sectorsPerBlock + k) % I.sectorsPerBlock * 512)
      (((b * I.sectorsPerBlock + k) % I.sectorsPerBlock + 1) * 512) = _
    rw [Nat.mul_comm b, Nat.mul_add_div hpos, Nat.div_eq_of_lt hk, Nat.mul_add_mod,
      Nat.mod_eq_of_lt hk, Nat.add_zero, Nat.zero_add]

theorem mounted : Mounted I.layout I.fs := by
  have hfirst := I.firstDataBlock_le
  have hpos := I.sectorsPerBlock_pos
  refine ⟨⟨rfl, rfl, rfl, by simp [unsupported, fs], rfl, rfl, rfl, rfl, rfl,
    length_superBytes, rfl, ?_,
    fun g hg => ?_,
    Nat.le_refl _, fun lba hlba => ?_⟩, ⟨?_, ?_, ?_⟩⟩
  · rw [numGroups_eq]
    rfl
  · rw [numGroups_eq] at hg
    obtain rfl : g = 0 := by omega
    refine ⟨length_descriptor, ?_, ?_, ?_⟩
    · exact leAt_leBytes_append (by omega) _
    · show leAt 4 I.descriptor (4 + 0) = I.firstDataBlock + 3
      rw [descriptor, leAt_skip (length_leBytes _ _), leAt_leBytes_append (by omega)]
    · show leAt 4 I.descriptor (4 + (4 + 0)) = I.firstDataBlock + 4
      rw [descriptor, leAt_skip (length_leBytes _ _), leAt_skip (length_leBytes _ _),
        leAt_leBytes_append (by omega)]
  · have hmod := Nat.mod_lt lba hpos
    have hle : (lba % I.sectorsPerBlock + 1) * 512 ≤ I.blockSize :=
      Nat.mul_le_mul_right _ (by omega)
    show (slice _ _ _).length = 512
    rw [length_slice, length_block]
    omega
  · exact fun b r hr => absurd hr (by simp [fs])
  · exact fun b b' r hr => absurd hr (by simp [fs])
  · exact fun b r _ hr => absurd hr (by simp [fs])

/-! ### The volume of an image -/

variable (I) in
/-- The volume on the device. -/
noncomputable abbrev disk : Volume := vol I.layout I.fs

theorem hasArea_areaAt {n : Nat} (hn : n < 4 + I.tableBlocks) :
    I.layout.HasArea (areaAt n) := by
  have hnum := I.numGroups_eq
  have hge := I.blockSize_ge
  rcases n with _ | _ | _ | _ | i
  · trivial
  · show 0 * I.blockSize < I.layout.numGroups * bgdSize
    rw [hnum, bgdSize]
    omega
  · show 0 < I.layout.numGroups
    omega
  · show 0 < I.layout.numGroups
    omega
  · -- a block of the table holds an inode
    have hlt : i < I.tableBlocks := by omega
    unfold tableBlocks at hlt
    rw [Nat.lt_div_iff_mul_lt (by omega)] at hlt
    exact ⟨by omega, by show i * I.blockSize < I.inodesPerGroup * 128; omega⟩

theorem isData_iff (b : Nat) :
    I.layout.IsData b ↔ I.firstDataBlock + 4 + I.tableBlocks ≤ b ∧ b < I.blocksCount := by
  constructor
  · rintro ⟨hlo, hhi, hne⟩
    have hlo' : I.firstDataBlock ≤ b := hlo
    refine ⟨?_, hhi⟩
    by_contra hc
    refine hne (areaAt (b - I.firstDataBlock)) (hasArea_areaAt (by omega)) ?_
    rw [block_areaAt]
    omega
  · rintro ⟨hlo, hhi⟩
    refine ⟨by show I.firstDataBlock ≤ b; omega, hhi, fun a ha => ?_⟩
    obtain ⟨n, hn, rfl⟩ := exists_areaAt ha
    rw [block_areaAt]
    omega

variable {b x : Nat}

theorem vol_used (hb : I.layout.InRange b) : I.disk.used b = I.used b := by
  have hlo : I.firstDataBlock ≤ b := hb.1
  have hhi : b < I.blocksCount := hb.2
  have hle := h.blocks_le
  have hidx : I.layout.blockIndex b = b - I.firstDataBlock := Nat.mod_eq_of_lt (by
    show b - I.firstDataBlock < 8 * I.blockSize
    omega)
  rw [disk, vol, volume_used hb, blocks_eq]
  show bitAt (I.block (I.firstDataBlock + 2)) _ = _
  rw [block, if_neg (by omega), if_neg (by omega), if_pos rfl, hidx, bitAt_bitmapBytes (by omega),
    Nat.add_sub_cancel' hlo]

theorem hasInode_iff (x : Nat) : I.layout.HasInode x ↔ 1 ≤ x ∧ x ≤ I.inodesPerGroup := by
  show 1 ≤ x ∧ x ≤ I.layout.numGroups * I.inodesPerGroup ↔ _
  rw [numGroups_eq, Nat.one_mul]

theorem inodeIndex_eq (hx : I.layout.HasInode x) : I.layout.inodeIndex x = x - 1 := by
  obtain ⟨hlo, hhi⟩ := (hasInode_iff x).mp hx
  refine Nat.mod_eq_of_lt ?_
  show x - 1 < I.inodesPerGroup
  omega

theorem vol_inodeUsed (hx : I.layout.HasInode x) :
    I.disk.inodeUsed x = I.inodeUsed x := by
  obtain ⟨hlo, hhi⟩ := (hasInode_iff x).mp hx
  have hle := h.inodes_le
  rw [disk, vol, volume_inodeUsed hx, blocks_eq]
  show bitAt (I.block (I.firstDataBlock + 3)) _ = _
  rw [block, if_neg (by omega), if_neg (by omega), if_neg (by omega), if_pos rfl, inodeIndex_eq hx,
    bitAt_bitmapBytes (by omega), Nat.sub_add_cancel hlo]

omit h in
theorem block_table {i : Nat} (hi : i < I.tableBlocks) :
    I.block (I.firstDataBlock + 4 + i) = (range (I.blockSize / 128)).flatMap fun k =>
      I.inode (i * (I.blockSize / 128) + k + 1) := by
  rw [block, if_neg (by omega), if_neg (by omega), if_neg (by omega), if_neg (by omega),
    if_pos (by omega), Nat.add_sub_cancel_left]

theorem vol_inode (hx : I.layout.HasInode x) : I.disk.inode x = I.inode x := by
  obtain ⟨hlo, hhi⟩ := (hasInode_iff x).mp hx
  obtain ⟨n, hn⟩ := I.dvd_blockSize
  have hge := I.blockSize_ge
  have hdiv : I.layout.inodeOffset x / I.layout.blockSize = (x - 1) / n := by
    rw [Layout.inodeOffset, inodeIndex_eq hx]
    show (x - 1) * 128 / I.blockSize = _
    rw [hn, Nat.mul_comm, Nat.mul_div_mul_left _ _ (by decide)]
  have hmod : I.layout.inodeOffset x % I.layout.blockSize = (x - 1) % n * 128 := by
    rw [Layout.inodeOffset, inodeIndex_eq hx]
    show (x - 1) * 128 % I.blockSize = _
    rw [hn, Nat.mul_comm, Nat.mul_mod_mul_left, Nat.mul_comm]
  have hbn : I.blockSize / 128 = n := by rw [hn, Nat.mul_div_cancel_left _ (by decide)]
  have htable : (x - 1) / n < I.tableBlocks := lt_tableBlocks (by
    have := Nat.div_mul_le_self (x - 1) n
    rw [hn, show (x - 1) / n * (128 * n) = (x - 1) / n * n * 128 by ring]
    omega)
  rw [disk, vol, volume_inode hx, blocks_eq]
  show slice (I.block (I.firstDataBlock + 4 + I.layout.inodeOffset x / I.layout.blockSize)) _ _ = _
  rw [hdiv, hmod, block_table htable, hbn]
  show slice _ ((x - 1) % n * 128) ((x - 1) % n * 128 + 128) = _
  have hpos : 0 < n := by omega
  have hdm := Nat.div_add_mod (x - 1) n
  rw [slice_flatMap (fun i _ => h.length_inode _) (Nat.mod_lt _ hpos), Nat.mul_comm, hdm,
    Nat.sub_add_cancel hlo]

theorem vol_data (hb : I.layout.IsData b) : I.disk.data b = I.data b := by
  obtain ⟨hlo, -⟩ := (isData_iff b).mp hb
  rw [disk, vol, volume_data hb, blocks_eq, block, if_neg (by omega), if_neg (by omega),
    if_neg (by omega), if_neg (by omega), if_neg (by omega)]

/-! ### Ownership in an image -/

variable (I) in
/-- The blocks of the metadata. -/
def metaBlocks : Set Nat := { b | b < I.firstDataBlock + 4 + I.tableBlocks }

variable (I) in
/-- An inode in use with block numbers in it. -/
def Holds (x : Nat) : Prop :=
  (1 ≤ x ∧ x ≤ I.inodesPerGroup) ∧ I.inodeUsed x = true ∧ hasBlocks (I.inode x)

instance (x : Nat) : Decidable (I.Holds x) := inferInstanceAs (Decidable (_ ∧ _))

variable (I) in
/-- The pointers that are set: inode, position and block. -/
def pointers : List (Nat × Nat × Nat) :=
  ((range (I.inodesPerGroup + 1)).filter fun x => I.Holds x).flatMap fun x =>
    ((range 15).filter fun n => pointer (I.inode x) n ≠ 0).map fun n =>
      (x, n, pointer (I.inode x) n)

variable (I) in
/-- The pointers lead to different blocks in use, and indirect blocks are empty. -/
structure Sound : Prop where
  header : ∀ b < I.firstDataBlock + 4 + I.tableBlocks, I.firstDataBlock ≤ b → I.used b = true
  taken : ∀ q ∈ I.pointers, I.firstDataBlock + 4 + I.tableBlocks ≤ q.2.2 ∧
    q.2.2 < I.blocksCount ∧ I.used q.2.2 = true
  leaves : ∀ q ∈ I.pointers, 12 ≤ q.2.1 → I.data q.2.2 = zeros I.blockSize
  nodup : (I.pointers.map fun q => q.2.2).Nodup

variable (I) in
/-- No block is lost, and the inodes count their blocks. -/
structure Tight : Prop where
  used : ∀ b < I.blocksCount, I.firstDataBlock + 4 + I.tableBlocks ≤ b → I.used b = true →
    b ∈ I.pointers.map fun q => q.2.2
  iBlocks : ∀ x < I.inodesPerGroup + 1, 1 ≤ x → I.inodeUsed x = true →
    leAt 4 (I.inode x) 28 = (I.pointers.filter fun q => q.1 = x).length * I.sectorsPerBlock

theorem holds_iff (x : Nat) : I.disk.Holds x ↔ I.Holds x := by
  constructor
  · rintro ⟨hused, hkind⟩
    have hx := hasInode_of_used hused
    rw [vol_inodeUsed hx] at hused
    rw [vol_inode hx] at hkind
    exact ⟨(hasInode_iff x).mp hx, hused, hkind⟩
  · rintro ⟨hx, hused, hkind⟩
    have hx' := (hasInode_iff x).mpr hx
    exact ⟨by rw [vol_inodeUsed hx', hused], by rw [vol_inode hx']; exact hkind⟩

omit h in
theorem mem_pointers {n : Nat} : (x, n, b) ∈ I.pointers ↔
    I.Holds x ∧ n < 15 ∧ b ≠ 0 ∧ pointer (I.inode x) n = b := by
  simp only [pointers, mem_flatMap, mem_filter, mem_range, mem_map,
    decide_eq_true_eq, Prod.mk.injEq]
  constructor
  · rintro ⟨x', ⟨-, hx⟩, n', ⟨hn, hz⟩, rfl, rfl, rfl⟩
    exact ⟨hx, hn, hz, rfl⟩
  · rintro ⟨hx, hn, hz, rfl⟩
    exact ⟨x, ⟨by have := hx.1.2; omega, hx⟩, n, ⟨hn, hz⟩, rfl, rfl, rfl⟩

/-- A slot with a block is a pointer of an inode. -/
theorem slot_pointer (hs : I.Sound) {τ : Slot (Nat × Nat)}
    (hτ : I.layout.shape.Valid τ) (hz : (forest I.disk).blockAt τ ≠ 0) :
    τ.2 = [] ∧ (τ.1.1, τ.1.2, (forest I.disk).blockAt τ) ∈ I.pointers := by
  have hmem : ∀ {x n : Nat}, I.disk.Holds x → n < 15 →
      pointer (I.disk.inode x) n ≠ 0 →
      (x, n, pointer (I.disk.inode x) n) ∈ I.pointers := by
    intro x n hx hn hne
    rw [vol_inode (hasInode_of_used hx.1)] at hne ⊢
    exact mem_pointers.mpr ⟨(holds_iff x).mp hx, hn, hne, rfl⟩
  obtain ⟨hpath, hx, hn, heq⟩ := slot_root (fun x n hx h12 hn hne => by
    obtain ⟨hlo, hhi, -⟩ := hs.taken _ (hmem hx hn hne)
    rw [vol_data ((isData_iff _).mpr ⟨hlo, hhi⟩)]
    exact ⟨_, hs.leaves _ (hmem hx hn hne) h12⟩) hτ hz
  exact ⟨hpath, by rw [heq]; exact hmem hx hn (heq ▸ hz)⟩

theorem own (hs : I.Sound) : Own I.layout I.metaBlocks I.disk := by
  refine ⟨⟨fun τ hτ hz => ?_, fun τ τ' hτ hτ' hz heq => ?_⟩, fun b hb hr => ?_, fun a ha => ?_⟩
  · obtain ⟨hlo, hhi, hu⟩ := hs.taken _ (slot_pointer hs hτ hz).2
    refine ⟨(isData_iff _).mpr ⟨hlo, hhi⟩, Nat.not_lt_of_le hlo, ?_⟩
    rw [vol_used ⟨by show I.firstDataBlock ≤ _; omega, hhi⟩]
    exact hu
  · obtain ⟨hp, hmem⟩ := slot_pointer hs hτ hz
    obtain ⟨hp', hmem'⟩ := slot_pointer hs hτ' (heq ▸ hz)
    have hsame := inj_on_of_nodup_map hs.nodup hmem hmem' heq
    obtain ⟨⟨x, n⟩, p⟩ := τ
    obtain ⟨⟨x', n'⟩, p'⟩ := τ'
    simp only [Prod.mk.injEq] at hsame hp hp'
    rw [hp, hp', hsame.1, hsame.2.1]
  · rw [vol_used hr]
    exact hs.header b hb hr.1
  · by_contra hc
    have hdata : I.layout.IsData (I.layout.block a) := (isData_iff _).mpr
      ⟨Nat.le_of_not_lt hc, (layout_ok.area_lt a ha).2⟩
    exact hdata.2.2 a ha rfl

theorem blockAt_pointer {n : Nat} (hmem : (x, n, b) ∈ I.pointers) :
    (forest I.disk).blockAt ((x, n), []) = b := by
  obtain ⟨hx, hn, -, rfl⟩ := mem_pointers.mp hmem
  have hholds := (holds_iff x).mpr hx
  rw [Forest.blockAt_root, forest_root hholds hn, vol_inode (hasInode_of_used hholds.1)]

/-- The blocks of an inode are those its pointers lead to. -/
theorem mem_blocksOf (hs : I.Sound) (x b : Nat) :
    b ∈ blocksOf I.layout I.disk x ↔ ∃ n, (x, n, b) ∈ I.pointers := by
  constructor
  · rintro ⟨hz, τ, hτ, rfl, rfl⟩
    exact ⟨τ.1.2, (slot_pointer hs hτ hz).2⟩
  · rintro ⟨n, hmem⟩
    exact ⟨(mem_pointers.mp hmem).2.2.1, ((x, n), []), Shape.valid_root _, rfl,
      blockAt_pointer hmem⟩

theorem ncard_blocksOf (hs : I.Sound) (x : Nat) :
    (blocksOf I.layout I.disk x).ncard =
      (I.pointers.filter fun q => q.1 = x).length := by
  have hset : blocksOf I.layout I.disk x =
      ↑((I.pointers.filter fun q => q.1 = x).map fun q => q.2.2).toFinset := by
    ext b
    rw [mem_blocksOf hs, coe_toFinset]
    simp only [mem_map, mem_filter, decide_eq_true_eq, Set.mem_ofPred_eq]
    constructor
    · rintro ⟨n, hmem⟩
      exact ⟨(x, n, b), ⟨hmem, rfl⟩, rfl⟩
    · rintro ⟨⟨x', n, b'⟩, ⟨hmem, rfl⟩, rfl⟩
      exact ⟨n, hmem⟩
  have hnodup : ((I.pointers.filter fun q => q.1 = x).map fun q => q.2.2).Nodup :=
    hs.nodup.sublist (filter_sublist.map _)
  rw [hset, Set.ncard_coe_finset, toFinset_card_of_nodup hnodup, length_map]

theorem exact_used (ht : I.Tight) (hb : I.disk.used b = true) :
    b ∈ I.metaBlocks ∨ b ∈ Forest.reached I.layout.shape (forest I.disk) Set.univ := by
  have hr : I.layout.InRange b := by
    simp only [vol, volume, Bool.and_eq_true, decide_eq_true_eq] at hb
    exact hb.1
  rw [vol_used hr] at hb
  by_cases hlt : b < I.firstDataBlock + 4 + I.tableBlocks
  · exact .inl hlt
  · obtain ⟨⟨x, n, b'⟩, hmem, heq⟩ := mem_map.mp (ht.used b hr.2 (Nat.le_of_not_lt hlt) hb)
    subst heq
    exact .inr ⟨(mem_pointers.mp hmem).2.2.1, ((x, n), []), Shape.valid_root _, trivial,
      blockAt_pointer hmem⟩

theorem exact_iBlocks (hs : I.Sound) (ht : I.Tight)
    (hx : I.disk.inodeUsed x = true) :
    leAt 4 (I.disk.inode x) 28 =
      (blocksOf I.layout I.disk x).ncard * I.layout.sectorsPerBlock := by
  have hin := hasInode_of_used hx
  rw [vol_inodeUsed hin] at hx
  obtain ⟨hlo, hhi⟩ := (hasInode_iff x).mp hin
  rw [vol_inode hin, ncard_blocksOf hs]
  exact ht.iBlocks x (by omega) hlo hx

theorem exact (hs : I.Sound) (ht : I.Tight) (htind : ∀ q ∈ I.pointers, q.2.1 ≠ 14) :
    Exact I.layout I.metaBlocks I.disk := by
  refine ⟨fun b hb => exact_used ht hb, fun x hx => exact_iBlocks hs ht hx, fun x hx => ?_⟩
  rw [vol_inode (hasInode_of_used hx.1)]
  by_contra hne
  exact htind _ (mem_pointers.mpr ⟨(holds_iff x).mp hx, by decide, hne, rfl⟩) rfl

theorem inodeUsed_of_holds (hx : I.Holds x) :
    I.disk.inodeUsed x = true ∧ I.disk.inode x = I.inode x := by
  have hin := (hasInode_iff x).mpr hx.1
  exact ⟨by rw [vol_inodeUsed hin, hx.2.1], vol_inode hin⟩

theorem live (hs : I.Sound) (hx : I.Holds x) : Live I.layout I.metaBlocks I.fs x := by
  obtain ⟨hused, hinode⟩ := inodeUsed_of_holds hx
  exact ⟨mounted, own hs, hused, by rw [hinode]; exact hx.2.2⟩

/-- A directory of one block. -/
theorem directory (hs : I.Sound) {rs : List Record} (hmem : (x, 0, b) ∈ I.pointers)
    (hmode : IsDir (I.inode x))
    (hsize : leAt 4 (I.inode x) 4 = I.blockSize) (hdata : I.data b = encodeAll rs) :
    Directory I.layout I.disk x [rs] := by
  obtain ⟨hx, -, hz, -⟩ := mem_pointers.mp hmem
  obtain ⟨hlo, hhi, -⟩ := hs.taken _ hmem
  have hinode := (inodeUsed_of_holds hx).2
  refine ⟨by rw [hinode]; exact hmode, ?_, ?_, ?_, trivial⟩
  · rw [hinode, sizeOf, if_neg (by rw [hmode]; decide), hsize]
    show _ = 1 * I.blockSize
    omega
  · show 1 ≤ 12 + I.layout.ptrsPerBlock + I.layout.ptrsPerBlock * I.layout.ptrsPerBlock
    omega
  · rw [leafData, Layout.fileSlot_direct (by decide), blockAt_pointer hmem, if_neg hz,
      vol_data ((isData_iff b).mpr ⟨hlo, hhi⟩), hdata]

/-- What holds of the inodes in use. -/
theorem forall_used {P : Nat → Bytes → Prop}
    (hall : ∀ x < I.inodesPerGroup + 1, 1 ≤ x → I.inodeUsed x = true → P x (I.inode x)) (x : Nat)
    (hx : I.disk.inodeUsed x = true) : P x (I.disk.inode x) := by
  have hin := hasInode_of_used hx
  rw [vol_inodeUsed hin] at hx
  obtain ⟨hlo, hhi⟩ := (hasInode_iff x).mp hin
  rw [vol_inode hin]
  exact hall x (by omega) hlo hx

/-! ### The counters of an image -/

/-- The counters fit the descriptor, and count what is free. -/
structure Counted (I : Image) : Prop where
  blocks_lt : I.freeBlocks < 256 ^ 2
  inodes_lt : I.freeInodes < 256 ^ 2
  blocks : ((Finset.range I.blocksCount).filter fun b =>
    I.firstDataBlock ≤ b ∧ I.used b = false).card = I.freeBlocks
  inodes : ((Finset.range (I.inodesPerGroup + 1)).filter fun x =>
    1 ≤ x ∧ I.inodeUsed x = false).card = I.freeInodes

omit h in
theorem group_zero (hc : I.Counted) : ((counters I.fs).group 0).freeBlocks = I.freeBlocks ∧
    ((counters I.fs).group 0).freeInodes = I.freeInodes := by
  have h12 : leAt 2 I.descriptor (4 + (4 + (4 + 0))) = I.freeBlocks := by
    rw [descriptor, leAt_skip (length_leBytes _ _), leAt_skip (length_leBytes _ _),
      leAt_skip (length_leBytes _ _), leAt_leBytes_append hc.blocks_lt]
  have h14 : leAt 2 I.descriptor (4 + (4 + (4 + (2 + 0)))) = I.freeInodes := by
    rw [descriptor, leAt_skip (length_leBytes _ _), leAt_skip (length_leBytes _ _),
      leAt_skip (length_leBytes _ _), leAt_skip (length_leBytes _ _),
      leAt_leBytes_append hc.inodes_lt]
  exact ⟨congrArg Nat.cast h12, congrArg Nat.cast h14⟩

omit h in
theorem group_succ {g : Nat} (hg : g ≠ 0) : ((counters I.fs).group g).freeBlocks = 0 ∧
    ((counters I.fs).group g).freeInodes = 0 := by
  obtain ⟨k, rfl⟩ := Nat.exists_eq_succ_of_ne_zero hg
  exact ⟨rfl, rfl⟩

/-- A volume with one group counts the same in the group and in the superblock. -/
theorem tally_one {p : Nat → Prop} {group : Nat → Nat} {f : Nat → Int} {n : Nat} {S : Finset Nat}
    (hp : ∀ x, p x ↔ x ∈ S) (hcard : S.card = n) (hgroup : ∀ x, p x → group x = 0)
    (hzero : f 0 = n) (hsucc : ∀ g, g ≠ 0 → f g = 0) :
    Tally group p f ∧ Tally (fun _ => ()) p fun _ => (n : Int) := by
  have hset : { x | p x } = ↑S := Set.ext hp
  have hfin : { x | p x }.Finite := hset ▸ S.finite_toSet
  refine ⟨⟨hfin, fun g => ?_⟩, ⟨hfin, fun _ => ?_⟩⟩
  · by_cases hg : g = 0
    · have hall : { x | p x ∧ group x = g } = { x | p x } :=
        Set.ext fun x => ⟨fun hx => hx.1, fun hx => ⟨hx, by rw [hgroup x hx, hg]⟩⟩
      rw [hall, hset, Set.ncard_coe_finset, hcard, hg, hzero]
    · have hnone : { x | p x ∧ group x = g } = ∅ :=
        Set.eq_empty_of_forall_notMem fun x hx => hg (by rw [← hx.2, hgroup x hx.1])
      rw [hnone, Set.ncard_empty, hsucc g hg]
      rfl
  · have hall : { x | p x ∧ (() : Unit) = () } = { x | p x } :=
      Set.ext fun x => ⟨fun hx => hx.1, fun hx => ⟨hx, rfl⟩⟩
    rw [hall, hset, Set.ncard_coe_finset, hcard]

theorem counts (hc : I.Counted) : Counts I.layout I.disk := by
  have hnum := I.numGroups_eq
  have hblock : ∀ b, I.layout.Fresh I.disk b ↔
      b ∈ (Finset.range I.blocksCount).filter fun b => I.firstDataBlock ≤ b ∧ I.used b = false := by
    intro b
    rw [Finset.mem_filter, Finset.mem_range]
    constructor
    · rintro ⟨hr, hu⟩
      rw [vol_used hr] at hu
      exact ⟨hr.2, hr.1, hu⟩
    · rintro ⟨hlt, hle, hu⟩
      have hr : I.layout.InRange b := ⟨hle, hlt⟩
      exact ⟨hr, by rw [vol_used hr, hu]⟩
  have hinode : ∀ x, I.layout.FreshInode I.disk x ↔
      x ∈ (Finset.range (I.inodesPerGroup + 1)).filter fun x => 1 ≤ x ∧ I.inodeUsed x = false := by
    intro x
    rw [Finset.mem_filter, Finset.mem_range]
    constructor
    · rintro ⟨hx, hu⟩
      rw [vol_inodeUsed hx] at hu
      obtain ⟨hlo, hhi⟩ := (hasInode_iff x).mp hx
      exact ⟨by omega, hlo, hu⟩
    · rintro ⟨hlt, hle, hu⟩
      have hx := (I.hasInode_iff x).mpr ⟨hle, by omega⟩
      exact ⟨hx, by rw [vol_inodeUsed hx, hu]⟩
  have hgb : ∀ b, I.layout.Fresh I.disk b → I.layout.blockGroup b = 0 := fun b hb => by
    have := I.layout.blockGroup_lt hb.1
    omega
  have hgi : ∀ x, I.layout.FreshInode I.disk x → I.layout.inodeGroup x = 0 :=
    fun x hx => by
      have := I.layout.inodeGroup_lt hx.1
      omega
  obtain ⟨hgroupB, hallB⟩ := tally_one (f := fun g => ((counters I.fs).group g).freeBlocks) hblock
    hc.blocks hgb (group_zero hc).1 fun g hg => (group_succ hg).1
  obtain ⟨hgroupI, hallI⟩ := tally_one (f := fun g => ((counters I.fs).group g).freeInodes) hinode
    hc.inodes hgi (group_zero hc).2 fun g hg => (group_succ hg).2
  exact ⟨hallB, hallI, hgroupB, hgroupI⟩

/-- What is in memory is on the device. -/
theorem synced (hsuper : I.fs.dev 2 ++ I.fs.dev 3 = I.superBytes)
    (hparse : Superblock.parse I.superBytes = .ok I.fs.sb) : Synced I.layout I.fs := by
  refine ⟨hsuper, hparse, fun i hi => ?_⟩
  have hge := I.blockSize_ge
  obtain rfl := bgdt_zero hi
  refine ⟨zeros (I.blockSize - 32), ?_⟩
  have hflat : I.fs.bgdt.flatten = I.descriptor := by
    show [I.descriptor].flatten = _
    rw [flatten_cons, flatten_nil, append_nil]
  rw [blocks_eq, hflat]
  show I.block (I.firstDataBlock + 1) = slice I.descriptor (0 * I.blockSize)
      ((0 + 1) * I.blockSize) ++ _
  rw [block, if_neg (by omega), if_pos rfl, slice, take_of_length_le (by
    rw [length_descriptor]; omega), Nat.zero_mul, drop_zero]

end Image

/-! ### An empty volume -/

/-- `.` and `..` of the root, in a block of 1024 bytes. -/
def rootRecords : List Record :=
  [.fresh 2 2 [46] 12 (by decide) (by decide) (by decide) (by decide) (by decide) (by decide),
   .fresh 2 2 [46, 46] 1012 (by decide) (by decide) (by decide) (by decide) (by decide) (by decide)]

/-- A volume of 64 blocks of 1024 bytes and 16 inodes, with nothing but the root. -/
def emptyImage : Image where
  logBlockSize := 0
  blocksCount := 64
  inodesPerGroup := 16
  used b := b ≤ 7
  inodeUsed x := x ≤ 10
  inode x := if x = 2 then inodeBytes 0x41ed 1024 2 2 fun n => if n = 0 then 7 else 0 else zeros 128
  data b := if b = 7 then encodeAll rootRecords else zeros 1024
  freeBlocks := 56
  freeInodes := 6
  usedDirs := 1

namespace emptyImage

instance ok : emptyImage.Ok := by
  refine ⟨by decide, by decide, by decide, by decide, by decide, fun x => ?_, fun b => ?_⟩
  · show (if x = 2 then _ else _ : Bytes).length = 128
    split
    · exact length_inodeBytes
    · exact length_zeros _
  · show (if b = 7 then _ else _ : Bytes).length = 1024
    split
    · simp [rootRecords, Record.length_encode, Record.recLen, Record.fresh]
    · exact length_zeros _

theorem sound : emptyImage.Sound :=
  ⟨by decide +kernel, by decide +kernel, by decide +kernel, by decide +kernel⟩

theorem exact : Exact emptyImage.layout emptyImage.metaBlocks emptyImage.disk :=
  Image.exact sound ⟨by decide +kernel, by decide +kernel⟩ (by decide +kernel)

theorem live : Live emptyImage.layout emptyImage.metaBlocks emptyImage.fs 2 :=
  Image.live sound (by decide +kernel)

/-- The root of the empty volume. -/
theorem directory : Directory emptyImage.layout emptyImage.disk 2 [rootRecords] :=
  Image.directory sound (show (2, 0, 7) ∈ _ by decide +kernel) (by decide +kernel)
    (by decide +kernel) rfl

theorem counts : Counts emptyImage.layout emptyImage.disk :=
  Image.counts ⟨by decide, by decide, by decide +kernel, by decide +kernel⟩

theorem synced : Synced emptyImage.layout emptyImage.fs :=
  Image.synced (by decide +kernel) (by decide +kernel)

end emptyImage

/-- Where the counters are right, **`allocBlock`** raises exactly when no block is free. -/
theorem allocBlock_raises_iff {L : Layout} [L.Ok] {s : Ext2FS} (h : Mounted L s) (hs : Synced L s)
    (hc : Counts L (vol L s)) :
    (∃ e, (allocBlock.run s).1 = .error e) ↔ ∀ b, ¬ L.Fresh (vol L s) b := by
  have hwp := allocBlock_wp h
  constructor
  · intro ⟨e, hrun⟩
    exact ((Coro.wp_of_run_error hwp (Coro.run_eq_error hrun)).full hc h.tables hs).2
  · intro hfull
    cases hrun : (allocBlock.run s).1 with
    | error e => exact ⟨e, rfl⟩
    | ok b =>
      obtain ⟨hr, hfree, -⟩ := Coro.wp_of_run hwp (Coro.run_eq_ok hrun)
      exact absurd ⟨hr, hfree⟩ (hfull b)

theorem allocBlock_raises_iff_emptyImage : ¬ ∃ e, (allocBlock.run emptyImage.fs).1 = .error e := by
  rw [allocBlock_raises_iff Image.mounted emptyImage.synced emptyImage.counts]
  exact fun hfull => hfull 8 ⟨by decide, by decide +kernel⟩

/-! ### A volume with one entry -/

/-- `.`, `..` and `f`, in a block of 1024 bytes. -/
def entryRecords : List Record :=
  [.fresh 2 2 [46] 12 (by decide) (by decide) (by decide) (by decide) (by decide) (by decide),
   .fresh 2 2 [46, 46] 12 (by decide) (by decide) (by decide) (by decide) (by decide) (by decide),
   .fresh 11 0 [102] 1000 (by decide) (by decide) (by decide) (by decide) (by decide) (by decide)]

/-- The empty volume with an entry `f` for the inode 11, and the next `n` blocks in use. -/
def entryImage (raw : Bytes) (n : Nat) : Image where
  logBlockSize := 0
  blocksCount := 64
  inodesPerGroup := 16
  used b := b ≤ 7 + n
  inodeUsed x := x ≤ 11
  inode x :=
    if x = 2 then inodeBytes 0x41ed 1024 2 2 fun n => if n = 0 then 7 else 0
    else if x = 11 then raw
    else zeros 128
  data b := if b = 7 then encodeAll entryRecords else zeros 1024
  freeBlocks := 56 - n
  freeInodes := 5
  usedDirs := 1

theorem entryImage.ok {raw : Bytes} {n : Nat} (hraw : raw.length = 128) :
    (entryImage raw n).Ok := by
  -- the layout is that of the empty volume
  refine ⟨emptyImage.ok.inodes_pos, emptyImage.ok.inodes_le, emptyImage.ok.inodes_lt,
    emptyImage.ok.table_lt, emptyImage.ok.blocks_le, fun x => ?_, fun b => ?_⟩
  · show (if x = 2 then _ else if x = 11 then _ else _ : Bytes).length = 128
    split
    · exact length_inodeBytes
    · split
      · exact hraw
      · exact length_zeros _
  · have hsize : (entryImage raw n).blockSize = emptyImage.blockSize := rfl
    have hempty : emptyImage.blockSize = 1024 := by decide
    rw [hsize, hempty]
    show (if b = 7 then encodeAll entryRecords else zeros 1024).length = 1024
    split
    · decide +kernel
    · exact length_zeros _

end PythonOS.Ext2
