import PythonOS.Ext2.Bitmap

/-!
# PythonOS.Ext2.Volume

What an ext2 volume holds, apart from where it holds it: which blocks and inodes
are in use, the inodes, the data blocks, and the counters. `volume L (blocks L s)
(counters s)` is the volume of a driver; the specifications below say what the
allocation functions and the inode functions do to it.
-/

namespace PythonOS.Ext2

open Lib Function Lib.Bytes

/-- The counters of a group. -/
structure GroupCounters where
  freeBlocks : Int
  freeInodes : Int
  usedDirs : Int

/-- The counters of the superblock and of the groups. -/
structure Counters where
  freeBlocks : Int
  freeInodes : Int
  group : Nat → GroupCounters

/-- Add to the counters of group `g` and of the superblock. -/
def Counters.add (k : Counters) (g : Nat) (blocks inodes dirs : Int) : Counters where
  freeBlocks := k.freeBlocks + blocks
  freeInodes := k.freeInodes + inodes
  group := update k.group g
    ⟨(k.group g).freeBlocks + blocks, (k.group g).freeInodes + inodes, (k.group g).usedDirs + dirs⟩

/-- The counters fit their fields. -/
def Counters.Fits (k : Counters) (g : Nat) : Prop :=
  (0 ≤ k.freeBlocks ∧ k.freeBlocks < 2 ^ 32) ∧ (0 ≤ k.freeInodes ∧ k.freeInodes < 2 ^ 32) ∧
    (0 ≤ (k.group g).freeBlocks ∧ (k.group g).freeBlocks < 2 ^ 16) ∧
    (0 ≤ (k.group g).freeInodes ∧ (k.group g).freeInodes < 2 ^ 16) ∧
    (0 ≤ (k.group g).usedDirs ∧ (k.group g).usedDirs < 2 ^ 16)

structure Volume where
  used : Nat → Bool
  inodeUsed : Nat → Bool
  inode : Nat → Bytes
  data : Nat → Bytes
  counters : Counters

namespace Volume

variable (V : Volume)

def setUsed (b : Nat) (v : Bool) : Volume := { V with used := update V.used b v }

def setInodeUsed (ino : Nat) (v : Bool) : Volume :=
  { V with inodeUsed := update V.inodeUsed ino v }

def setInode (ino : Nat) (raw : Bytes) : Volume := { V with inode := update V.inode ino raw }

def setData (b : Nat) (d : Bytes) : Volume := { V with data := update V.data b d }

theorem used_setUsed (b x : Nat) (v : Bool) :
    (V.setUsed b v).used x = if x = b then v else V.used x := update_apply ..

theorem inodeUsed_setInodeUsed (ino x : Nat) (v : Bool) :
    (V.setInodeUsed ino v).inodeUsed x = if x = ino then v else V.inodeUsed x :=
  update_apply ..

theorem inode_setInode (ino x : Nat) (raw : Bytes) :
    (V.setInode ino raw).inode x = if x = ino then raw else V.inode x := update_apply ..

theorem data_setData (b x : Nat) (d : Bytes) :
    (V.setData b d).data x = if x = b then d else V.data x := update_apply ..

/-- Two volumes with the same observations. -/
theorem ext' {V W : Volume} (hu : ∀ b, V.used b = W.used b)
    (hi : ∀ ino, V.inodeUsed ino = W.inodeUsed ino) (hr : ∀ ino, V.inode ino = W.inode ino)
    (hd : ∀ b, V.data b = W.data b) (hk : V.counters = W.counters) : V = W := by
  obtain ⟨u, i, r, d, k⟩ := V
  obtain ⟨u', i', r', d', k'⟩ := W
  simp only [Volume.mk.injEq]
  exact ⟨funext hu, funext hi, funext hr, funext hd, hk⟩

end Volume

namespace Layout

variable (L : Layout)

/-- The blocks that have a bit in a bitmap. -/
def InRange (b : Nat) : Prop := L.firstDataBlock ≤ b ∧ b < L.blocksCount

instance (b : Nat) : Decidable (L.InRange b) := inferInstanceAs (Decidable (_ ∧ _))

/-- The inodes of the volume. -/
def HasInode (ino : Nat) : Prop := 1 ≤ ino ∧ ino ≤ L.inodesCount

instance (ino : Nat) : Decidable (L.HasInode ino) := inferInstanceAs (Decidable (_ ∧ _))

def blockGroup (b : Nat) : Nat := (b - L.firstDataBlock) / L.blocksPerGroup

def blockIndex (b : Nat) : Nat := (b - L.firstDataBlock) % L.blocksPerGroup

def inodeGroup (ino : Nat) : Nat := (ino - 1) / L.inodesPerGroup

def inodeIndex (ino : Nat) : Nat := (ino - 1) % L.inodesPerGroup

/-- The position of an inode in the table of its group. -/
def inodeOffset (ino : Nat) : Nat := L.inodeIndex ino * L.inodeSize

/-- The areas that the bit of a block, the bit of an inode and the inode lie in. -/
def blockArea (b : Nat) : Area := .blockBitmap (L.blockGroup b)

def inodeBitArea (ino : Nat) : Area := .inodeBitmap (L.inodeGroup ino)

def inodeArea (ino : Nat) : Area :=
  .inodeTable (L.inodeGroup ino) (L.inodeOffset ino / L.blockSize)

/-- A block of the superblock or of the group descriptors. -/
def IsHeader (b : Nat) : Prop :=
  b = L.superBlock ∨ ∃ i, L.HasArea (.bgdt i) ∧ b = L.bgdtBlock + i

variable {L}

theorem blockGroup_lt [hL : L.Ok] {b : Nat} (h : L.InRange b) : L.blockGroup b < L.numGroups := by
  have hpos := hL.blocksPerGroup_pos
  unfold blockGroup numGroups
  rw [Nat.div_lt_iff_lt_mul hpos]
  have hdiv := Nat.div_add_mod (L.blocksCount - L.firstDataBlock + L.blocksPerGroup - 1)
    L.blocksPerGroup
  have hmod := Nat.mod_lt (L.blocksCount - L.firstDataBlock + L.blocksPerGroup - 1) hpos
  obtain ⟨hlo, hhi⟩ := h
  rw [Nat.mul_comm]
  omega

variable {ino : Nat}

theorem inodeGroup_lt [hL : L.Ok] (h : L.HasInode ino) : L.inodeGroup ino < L.numGroups := by
  unfold inodeGroup
  rw [Nat.div_lt_iff_lt_mul hL.inodesPerGroup_pos]
  obtain ⟨hlo, hhi⟩ := h
  unfold inodesCount at hhi
  omega

theorem blockIndex_lt [hL : L.Ok] (b : Nat) : L.blockIndex b < L.blocksPerGroup :=
  Nat.mod_lt _ hL.blocksPerGroup_pos

theorem inodeIndex_lt [hL : L.Ok] (ino : Nat) : L.inodeIndex ino < L.inodesPerGroup :=
  Nat.mod_lt _ hL.inodesPerGroup_pos

/-- A block is known by its group and its index there. -/
theorem block_ext {b b' : Nat} (h : L.InRange b) (h' : L.InRange b')
    (hg : L.blockGroup b = L.blockGroup b') (hi : L.blockIndex b = L.blockIndex b') : b = b' := by
  have hb := Nat.div_add_mod (b - L.firstDataBlock) L.blocksPerGroup
  have hb' := Nat.div_add_mod (b' - L.firstDataBlock) L.blocksPerGroup
  unfold blockGroup at hg
  unfold blockIndex at hi
  rw [hg, hi, hb'] at hb
  obtain ⟨hlo, -⟩ := h
  obtain ⟨hlo', -⟩ := h'
  omega

theorem inode_ext {ino' : Nat} (h : L.HasInode ino) (h' : L.HasInode ino')
    (hg : L.inodeGroup ino = L.inodeGroup ino') (hi : L.inodeIndex ino = L.inodeIndex ino') :
    ino = ino' := by
  have hb := Nat.div_add_mod (ino - 1) L.inodesPerGroup
  have hb' := Nat.div_add_mod (ino' - 1) L.inodesPerGroup
  unfold inodeGroup at hg
  unfold inodeIndex at hi
  rw [hg, hi, hb'] at hb
  obtain ⟨hlo, -⟩ := h
  obtain ⟨hlo', -⟩ := h'
  omega

/-- The table of the group has the block of the inode. -/
theorem hasArea_inodeArea [hL : L.Ok] (h : L.HasInode ino) : L.HasArea (L.inodeArea ino) := by
  refine ⟨inodeGroup_lt h, ?_⟩
  have hidx := L.inodeIndex_lt ino
  have hle := Nat.div_mul_le_self (L.inodeOffset ino) L.blockSize
  have hmul : L.inodeOffset ino < L.inodesPerGroup * L.inodeSize :=
    Nat.mul_lt_mul_of_pos_right hidx (by have := hL.inodeSize_ge; omega)
  omega

/-- An inode lies in one block. -/
theorem inode_in_block [hL : L.Ok] (ino : Nat) :
    L.inodeOffset ino % L.blockSize + L.inodeSize ≤ L.blockSize := by
  obtain ⟨k, hk⟩ := hL.inodeSize_dvd
  have hpos := L.blockSize_pos
  have hmod := Nat.mod_lt (L.inodeOffset ino) hpos
  -- the remainder is a multiple of the inode size as well
  have hdvd : L.inodeSize ∣ L.inodeOffset ino % L.blockSize :=
    (Nat.dvd_mod_iff hL.inodeSize_dvd).mpr (Nat.dvd_mul_left _ _)
  obtain ⟨m, hm⟩ := hdvd
  rw [hm, hk] at hmod ⊢
  have hlt : m < k := Nat.lt_of_mul_lt_mul_left hmod
  calc L.inodeSize * m + L.inodeSize = L.inodeSize * (m + 1) := by ring
    _ ≤ L.inodeSize * k := Nat.mul_le_mul_left _ hlt

/-- Two inodes of one block lie apart in it. -/
theorem inodes_apart {x : Nat} (hx : L.HasInode x) (hi : L.HasInode ino)
    (harea : L.inodeArea x = L.inodeArea ino) (hne : x ≠ ino) :
    L.inodeOffset x % L.blockSize + L.inodeSize ≤ L.inodeOffset ino % L.blockSize ∨
      L.inodeOffset ino % L.blockSize + L.inodeSize ≤ L.inodeOffset x % L.blockSize := by
  obtain ⟨hg, hdiv⟩ := Area.inodeTable.inj harea
  have hidx : L.inodeIndex x ≠ L.inodeIndex ino := fun h => hne (inode_ext hx hi hg h)
  have hox := Nat.div_add_mod (L.inodeOffset x) L.blockSize
  have hoi := Nat.div_add_mod (L.inodeOffset ino) L.blockSize
  rw [hdiv] at hox
  -- the whole offsets are apart, and their quotients are the same
  have hapart : L.inodeOffset x + L.inodeSize ≤ L.inodeOffset ino ∨
      L.inodeOffset ino + L.inodeSize ≤ L.inodeOffset x := by
    unfold inodeOffset
    rcases Nat.lt_or_gt_of_ne hidx with hlt | hgt
    · left
      rw [← Nat.succ_mul]
      exact Nat.mul_le_mul_right _ hlt
    · right
      rw [← Nat.succ_mul]
      exact Nat.mul_le_mul_right _ hgt
  omega

theorem area_ne [hL : L.Ok] {a b : Area} (ha : L.HasArea a) (hb : L.HasArea b) (h : a ≠ b) :
    L.block a ≠ L.block b :=
  fun heq => h (hL.area_inj a b ha hb heq)

/-- Bitmaps and inode tables are no headers. -/
theorem not_isHeader [L.Ok] {a : Area} (ha : L.HasArea a) (hsuper : a ≠ .super)
    (hbgdt : ∀ i, a ≠ .bgdt i) : ¬ L.IsHeader (L.block a) := by
  rintro (h | ⟨i, hi, h⟩)
  · exact area_ne (b := .super) ha trivial hsuper h
  · exact area_ne ha hi (hbgdt i) h

theorem IsData.not_isHeader {b : Nat} (h : L.IsData b) : ¬ L.IsHeader b := by
  rintro (hb | ⟨i, hi, hb⟩)
  · exact h.ne_super hb
  · exact h.2.2 (.bgdt i) hi hb.symm

end Layout

namespace Volume

variable (V : Volume) (L : Layout)

/-- What the allocation functions do: a block or an inode is taken or given back, and
counted. -/
def takeBlock (b : Nat) : Volume :=
  { V.setUsed b true with counters := V.counters.add (L.blockGroup b) (-1) 0 0 }

def giveBlock (b : Nat) : Volume :=
  { V.setUsed b false with counters := V.counters.add (L.blockGroup b) 1 0 0 }

def takeInode (ino : Nat) (isDir : Bool) : Volume :=
  { V.setInodeUsed ino true with
    counters := V.counters.add (L.inodeGroup ino) 0 (-1) (if isDir then 1 else 0) }

def giveInode (ino : Nat) (wasDir : Bool) : Volume :=
  { V.setInodeUsed ino false with
    counters := V.counters.add (L.inodeGroup ino) 0 1 (if wasDir then -1 else 0) }

theorem used_takeBlock (b x : Nat) :
    (V.takeBlock L b).used x = if x = b then true else V.used x := used_setUsed ..

theorem used_giveBlock (b x : Nat) :
    (V.giveBlock L b).used x = if x = b then false else V.used x := used_setUsed ..

theorem inodeUsed_takeInode (ino x : Nat) (isDir : Bool) :
    (V.takeInode L ino isDir).inodeUsed x = if x = ino then true else V.inodeUsed x :=
  inodeUsed_setInodeUsed ..

end Volume

/-- The volume in the blocks `c`, with the counters `k`. -/
noncomputable def volume (L : Layout) (c : Nat → Bytes) (k : Counters) : Volume where
  used b := decide (L.InRange b) && bitAt (c (L.block (L.blockArea b))) (L.blockIndex b)
  inodeUsed ino :=
    decide (L.HasInode ino) && bitAt (c (L.block (L.inodeBitArea ino))) (L.inodeIndex ino)
  inode ino :=
    if L.HasInode ino then
      slice (c (L.block (L.inodeArea ino))) (L.inodeOffset ino % L.blockSize)
        (L.inodeOffset ino % L.blockSize + L.inodeSize)
    else []
  data b := open Classical in if L.IsData b then c b else []
  counters := k

section

variable {L : Layout} {c c' : Nat → Bytes} {k k' : Counters}

variable {b ino : Nat}

theorem volume_used (h : L.InRange b) :
    (volume L c k).used b = bitAt (c (L.block (L.blockArea b))) (L.blockIndex b) := by
  simp [volume, h]

theorem volume_inodeUsed (h : L.HasInode ino) :
    (volume L c k).inodeUsed ino = bitAt (c (L.block (L.inodeBitArea ino))) (L.inodeIndex ino) := by
  simp [volume, h]

theorem volume_inode (h : L.HasInode ino) :
    (volume L c k).inode ino = slice (c (L.block (L.inodeArea ino)))
      (L.inodeOffset ino % L.blockSize) (L.inodeOffset ino % L.blockSize + L.inodeSize) := by
  simp [volume, h]

theorem volume_data (h : L.IsData b) : (volume L c k).data b = c b := by
  simp [volume, h]

theorem used_congr (b : Nat)
    (h : L.InRange b → c' (L.block (L.blockArea b)) = c (L.block (L.blockArea b))) :
    (volume L c' k').used b = (volume L c k).used b := by
  by_cases hb : L.InRange b
  · rw [volume_used hb, volume_used hb, h hb]
  · simp [volume, hb]

theorem inodeUsed_congr (ino : Nat)
    (h : L.HasInode ino → c' (L.block (L.inodeBitArea ino)) = c (L.block (L.inodeBitArea ino))) :
    (volume L c' k').inodeUsed ino = (volume L c k).inodeUsed ino := by
  by_cases hi : L.HasInode ino
  · rw [volume_inodeUsed hi, volume_inodeUsed hi, h hi]
  · simp [volume, hi]

theorem inode_congr (ino : Nat)
    (h : L.HasInode ino → c' (L.block (L.inodeArea ino)) = c (L.block (L.inodeArea ino))) :
    (volume L c' k').inode ino = (volume L c k).inode ino := by
  by_cases hi : L.HasInode ino
  · rw [volume_inode hi, volume_inode hi, h hi]
  · simp [volume, hi]

theorem data_congr (b : Nat) (h : L.IsData b → c' b = c b) :
    (volume L c' k').data b = (volume L c k).data b := by
  by_cases hb : L.IsData b
  · rw [volume_data hb, volume_data hb, h hb]
  · simp [volume, hb]

/-- The volume does not depend on the headers. -/
theorem volume_congr [L.Ok] (h : ∀ b, ¬ L.IsHeader b → c' b = c b) :
    volume L c' k = volume L c k := by
  refine Volume.ext' (fun b => used_congr b fun hb => h _ ?_)
    (fun ino => inodeUsed_congr ino fun hi => h _ ?_) (fun ino => inode_congr ino fun hi => h _ ?_)
    (fun b => data_congr b fun hb => h _ hb.not_isHeader) rfl
  · exact L.not_isHeader (L.blockGroup_lt hb) (by simp [Layout.blockArea])
      (by simp [Layout.blockArea])
  · exact L.not_isHeader (L.inodeGroup_lt hi) (by simp [Layout.inodeBitArea])
      (by simp [Layout.inodeBitArea])
  · exact L.not_isHeader (L.hasArea_inodeArea hi) (by simp [Layout.inodeArea])
      (by simp [Layout.inodeArea])

section Update

variable [hL : L.Ok] {a : Area} (ha : L.HasArea a) (d : Bytes)

include ha

theorem used_update_area (hne : ∀ g, a ≠ .blockBitmap g) (b : Nat) :
    (volume L (update c (L.block a) d) k).used b = (volume L c k).used b :=
  used_congr b fun hb => update_of_ne
    (L.area_ne (a := L.blockArea b) (L.blockGroup_lt hb) ha fun h => hne _ h.symm) _ _

theorem inodeUsed_update_area (hne : ∀ g, a ≠ .inodeBitmap g) (ino : Nat) :
    (volume L (update c (L.block a) d) k).inodeUsed ino = (volume L c k).inodeUsed ino :=
  inodeUsed_congr ino fun hi => update_of_ne
    (L.area_ne (a := L.inodeBitArea ino) (L.inodeGroup_lt hi) ha fun h => hne _ h.symm) _ _

theorem inode_update_area (hne : ∀ g i, a ≠ .inodeTable g i) (ino : Nat) :
    (volume L (update c (L.block a) d) k).inode ino = (volume L c k).inode ino :=
  inode_congr ino fun hi => update_of_ne
    (L.area_ne (L.hasArea_inodeArea hi) ha fun h => hne _ _ h.symm) _ _

omit hL in
theorem data_update_area (b : Nat) :
    (volume L (update c (L.block a) d) k).data b = (volume L c k).data b :=
  data_congr b fun hb => update_of_ne (fun h => hb.2.2 a ha h.symm) _ _

end Update

/-- A data block is written. -/
theorem volume_update_data [L.Ok] (hb : L.IsData b) (d : Bytes) :
    volume L (update c b d) k = (volume L c k).setData b d := by
  have hne : ∀ {a}, L.HasArea a → L.block a ≠ b := fun ha => hb.2.2 _ ha
  refine Volume.ext' (fun x => used_congr (k := k) x fun hx => ?_)
    (fun ino => inodeUsed_congr (k := k) ino fun hi => ?_)
    (fun ino => inode_congr (k := k) ino fun hi => ?_) (fun x => ?_) rfl
  · exact update_of_ne (hne (a := L.blockArea x) (L.blockGroup_lt hx)) _ _
  · exact update_of_ne (hne (a := L.inodeBitArea ino) (L.inodeGroup_lt hi)) _ _
  · exact update_of_ne (hne (L.hasArea_inodeArea hi)) _ _
  · rw [Volume.data_setData]
    split
    · next hxb => rw [hxb, volume_data hb, update_self]
    · next hxb => exact data_congr x fun _ => update_of_ne hxb _ _

/-- One bit of a block bitmap changes. -/
theorem volume_update_blockBitmap [L.Ok] (hb : L.InRange b) {d : Bytes} {v : Bool}
    (hd : ∀ j, bitAt d j = if j = L.blockIndex b then v
      else bitAt (c (L.block (L.blockArea b))) j) :
    volume L (update c (L.block (L.blockArea b)) d) k = (volume L c k).setUsed b v := by
  have ha : L.HasArea (L.blockArea b) := L.blockGroup_lt hb
  refine Volume.ext' (fun x => ?_)
    (inodeUsed_update_area ha d (by simp [Layout.blockArea]))
    (inode_update_area ha d (by simp [Layout.blockArea])) (data_update_area ha d) rfl
  rw [Volume.used_setUsed]
  by_cases hx : L.InRange x
  · by_cases hgx : L.blockGroup x = L.blockGroup b
    · have harea : L.blockArea x = L.blockArea b := by rw [Layout.blockArea, hgx]; rfl
      have hiff : L.blockIndex x = L.blockIndex b ↔ x = b :=
        ⟨L.block_ext hx hb hgx, fun h => by rw [h]⟩
      rw [volume_used hx, volume_used hx, harea, update_self, hd]
      simp only [hiff]
    · rw [if_neg fun h => hgx (by rw [h])]
      refine used_congr x fun _ => update_of_ne ?_ _ _
      exact L.area_ne (a := L.blockArea x) (L.blockGroup_lt hx) ha
        (by simpa [Layout.blockArea] using hgx)
  · have hne : x ≠ b := fun h => hx (h ▸ hb)
    simp [volume, hx, hne]

/-- One bit of an inode bitmap changes. -/
theorem volume_update_inodeBitmap [L.Ok] (hino : L.HasInode ino) {d : Bytes} {v : Bool}
    (hd : ∀ j, bitAt d j = if j = L.inodeIndex ino then v
      else bitAt (c (L.block (L.inodeBitArea ino))) j) :
    volume L (update c (L.block (L.inodeBitArea ino)) d) k = (volume L c k).setInodeUsed ino v := by
  have ha : L.HasArea (L.inodeBitArea ino) := L.inodeGroup_lt hino
  refine Volume.ext' (used_update_area ha d (by simp [Layout.inodeBitArea])) (fun x => ?_)
    (inode_update_area ha d (by simp [Layout.inodeBitArea])) (data_update_area ha d) rfl
  rw [Volume.inodeUsed_setInodeUsed]
  by_cases hx : L.HasInode x
  · by_cases hgx : L.inodeGroup x = L.inodeGroup ino
    · have harea : L.inodeBitArea x = L.inodeBitArea ino := by rw [Layout.inodeBitArea, hgx]; rfl
      have hiff : L.inodeIndex x = L.inodeIndex ino ↔ x = ino :=
        ⟨L.inode_ext hx hino hgx, fun h => by rw [h]⟩
      rw [volume_inodeUsed hx, volume_inodeUsed hx, harea, update_self, hd]
      simp only [hiff]
    · rw [if_neg fun h => hgx (by rw [h])]
      refine inodeUsed_congr x fun _ => update_of_ne ?_ _ _
      exact L.area_ne (a := L.inodeBitArea x) (L.inodeGroup_lt hx) ha
        (by simpa [Layout.inodeBitArea] using hgx)
  · have hne : x ≠ ino := fun h => hx (h ▸ hino)
    simp [volume, hx, hne]

/-- An inode is written. -/
theorem volume_update_inode [L.Ok] (hino : L.HasInode ino) {raw : Bytes}
    (hraw : raw.length = L.inodeSize)
    (hlen : (c (L.block (L.inodeArea ino))).length = L.blockSize) :
    volume L (update c (L.block (L.inodeArea ino))
        (splice (c (L.block (L.inodeArea ino))) (L.inodeOffset ino % L.blockSize) raw)) k =
      (volume L c k).setInode ino raw := by
  have ha := L.hasArea_inodeArea hino
  have hfits := L.inode_in_block ino
  have hin : L.inodeOffset ino % L.blockSize + raw.length ≤
      (c (L.block (L.inodeArea ino))).length := by rw [hraw, hlen]; exact hfits
  refine Volume.ext' (used_update_area ha _ (by simp [Layout.inodeArea]))
    (inodeUsed_update_area ha _ (by simp [Layout.inodeArea])) (fun x => ?_)
    (data_update_area ha _) rfl
  rw [Volume.inode_setInode]
  by_cases hx : L.HasInode x
  · by_cases harea : L.inodeArea x = L.inodeArea ino
    · rw [volume_inode hx, harea, update_self]
      split
      · next hxi => rw [hxi, ← hraw, slice_splice_self hin]
      · next hxi =>
        rw [volume_inode hx, harea]
        refine slice_splice_of_disjoint hin ?_
        rw [hraw]
        exact L.inodes_apart hx hino harea hxi
    · rw [if_neg fun h => harea (by rw [h])]
      refine inode_congr x fun _ => update_of_ne ?_ _ _
      exact L.area_ne (L.hasArea_inodeArea hx) ha harea
  · have hne : x ≠ ino := fun h => hx (h ▸ hino)
    simp [volume, hx, hne]

end

end PythonOS.Ext2
