import PythonOS.Ext2.Driver

/-!
# PythonOS.Ext2.BlockIO

Specifications of the block layer: what `readBlock`, `writeBlock` and `writeBack`
do to the device and to the cache.

`Layout` says where the parts of a volume lie and `Layout.Ok` that they lie apart.
`Mounted L s` is the invariant of the driver between operations: its tables are
those of the layout and every cached block is what the device holds, except for
the block of the superblock, which is written past the cache.
-/

namespace PythonOS.Ext2

open Lib Function Coro Lib.Bytes

/-! ### Layout -/

/-- Where the parts of a volume lie. -/
structure Layout where
  logBlockSize : Nat
  firstDataBlock : Nat
  blocksCount : Nat
  blocksPerGroup : Nat
  inodesPerGroup : Nat
  inodeSize : Nat
  bgdtBlock : Nat
  blockBitmap : Nat → Nat
  inodeBitmap : Nat → Nat
  inodeTable : Nat → Nat

/-- A block that holds no file data. -/
inductive Area
  | super
  | bgdt (i : Nat)
  | blockBitmap (g : Nat)
  | inodeBitmap (g : Nat)
  | inodeTable (g i : Nat)
  deriving DecidableEq

namespace Layout

variable (L : Layout)

def sectorsPerBlock : Nat := 2 * 2 ^ L.logBlockSize

def blockSize : Nat := L.sectorsPerBlock * 512

def numGroups : Nat :=
  (L.blocksCount - L.firstDataBlock + L.blocksPerGroup - 1) / L.blocksPerGroup

def inodesCount : Nat := L.numGroups * L.inodesPerGroup

/-- The block with the sectors 2 and 3. -/
def superBlock : Nat := 2 / L.sectorsPerBlock

def block : Area → Nat
  | .super => L.superBlock
  | .bgdt i => L.bgdtBlock + i
  | .blockBitmap g => L.blockBitmap g
  | .inodeBitmap g => L.inodeBitmap g
  | .inodeTable g i => L.inodeTable g + i

/-- The areas the volume has. -/
def HasArea : Area → Prop
  | .super => True
  | .bgdt i => i * L.blockSize < L.numGroups * bgdSize
  | .blockBitmap g => g < L.numGroups
  | .inodeBitmap g => g < L.numGroups
  | .inodeTable g i => g < L.numGroups ∧ i * L.blockSize < L.inodesPerGroup * L.inodeSize

/-- The parts lie on the volume and apart from each other, and bitmaps and inodes
fit into their blocks. -/
structure Ok : Prop where
  firstDataBlock : L.firstDataBlock = L.superBlock
  bgdtBlock : L.bgdtBlock = L.firstDataBlock + 1
  blocksPerGroup_pos : 0 < L.blocksPerGroup
  inodesPerGroup_pos : 0 < L.inodesPerGroup
  blocksPerGroup_le : L.blocksPerGroup ≤ 8 * L.blockSize
  inodesPerGroup_le : L.inodesPerGroup ≤ 8 * L.blockSize
  inodesCount_lt : L.inodesCount < 256 ^ 4
  inodeSize_ge : 128 ≤ L.inodeSize
  inodeSize_dvd : L.inodeSize ∣ L.blockSize
  area_lt : ∀ a, L.HasArea a → L.firstDataBlock ≤ L.block a ∧ L.block a < L.blocksCount
  area_inj : ∀ a a', L.HasArea a → L.HasArea a' → L.block a = L.block a' → a = a'

-- the standing assumption of what follows
attribute [class] Ok

/-- A block that can hold file data. -/
def IsData (b : Nat) : Prop :=
  L.firstDataBlock ≤ b ∧ b < L.blocksCount ∧ ∀ a, L.HasArea a → L.block a ≠ b

theorem sectorsPerBlock_pos : 0 < L.sectorsPerBlock :=
  Nat.mul_pos (by decide) (Nat.two_pow_pos _)

theorem blockSize_pos : 0 < L.blockSize :=
  Nat.mul_pos L.sectorsPerBlock_pos (by decide)

theorem four_dvd_blockSize : 4 ∣ L.blockSize := Dvd.dvd.mul_left (by decide) _

variable {L}

theorem IsData.ne_super {b : Nat} (h : L.IsData b) : b ≠ L.superBlock :=
  fun heq => h.2.2 .super trivial heq.symm

theorem IsData.ne_zero [hL : L.Ok] {b : Nat} (h : L.IsData b) : b ≠ 0 := by
  have hle := h.1
  have hne := h.ne_super
  have hfirst := hL.firstDataBlock
  omega

/-- The sectors 2 and 3 are both in the block of the superblock. -/
theorem superBlock_sectors :
    L.superBlock * L.sectorsPerBlock ≤ 2 ∧ 3 < (L.superBlock + 1) * L.sectorsPerBlock := by
  unfold superBlock sectorsPerBlock
  generalize L.logBlockSize = log
  cases log with
  | zero => decide
  | succ k =>
    have hpos := Nat.two_pow_pos k
    have hdiv : 2 / (2 * 2 ^ (k + 1)) = 0 := Nat.div_eq_of_lt (by omega)
    simp only [hdiv]
    omega

end Layout

/-! ### The device in blocks -/

/-- `n` sectors from `lba` on. -/
def sectorsAt (dev : Nat → Bytes) (lba : Nat) : (n : Nat) → Bytes
  | 0 => []
  | n + 1 => dev lba ++ sectorsAt dev (lba + 1) n

variable {dev : Nat → Bytes} {s : Ext2FS}

theorem sectorsAt_congr {dev' : Nat → Bytes} {lba n : Nat}
    (h : ∀ i, lba ≤ i → i < lba + n → dev' i = dev i) :
    sectorsAt dev' lba n = sectorsAt dev lba n := by
  induction n generalizing lba with
  | zero => rfl
  | succ n ih =>
    rw [sectorsAt, sectorsAt, h lba (Nat.le_refl _) (by omega),
      ih fun i hi hi' => h i (by omega) (by omega)]

theorem length_sectorsAt {lba n : Nat} (h : ∀ i, lba ≤ i → i < lba + n → (dev i).length = 512) :
    (sectorsAt dev lba n).length = n * 512 := by
  induction n generalizing lba with
  | zero => simp [sectorsAt]
  | succ n ih =>
    rw [sectorsAt, List.length_append, h lba (Nat.le_refl _) (by omega),
      ih fun i hi hi' => h i (by omega) (by omega)]
    omega

/-- Sectors that hold consecutive slices of `d` hold a slice of `d`. -/
theorem sectorsAt_slices {d : Bytes} {lba n i : Nat}
    (h : ∀ k, k < n → dev (lba + k) = slice d ((i + k) * 512) ((i + k + 1) * 512)) :
    sectorsAt dev lba n = slice d (i * 512) ((i + n) * 512) := by
  induction n generalizing lba i with
  | zero => simp [sectorsAt, slice]
  | succ n ih =>
    have hfirst := h 0 (by omega)
    simp only [Nat.add_zero] at hfirst
    have hrest : sectorsAt dev (lba + 1) n = slice d ((i + 1) * 512) ((i + 1 + n) * 512) := by
      refine ih fun k hk => ?_
      have := h (k + 1) (by omega)
      rw [show lba + (k + 1) = lba + 1 + k by omega, show i + (k + 1) = i + 1 + k by omega] at this
      exact this
    rw [sectorsAt, hfirst, hrest]
    rw [slice_append_slice (by omega) (by omega), show i + 1 + n = i + (n + 1) by omega]

/-- The blocks of the device. -/
def blocks (L : Layout) (s : Ext2FS) (b : Nat) : Bytes :=
  sectorsAt s.dev (b * L.sectorsPerBlock) L.sectorsPerBlock

/-! ### The driver between operations -/

/-- The tables of the driver are those of the layout, and the device is as large
as it says. -/
structure Tables (L : Layout) (s : Ext2FS) : Prop where
  blockSize : s.blockSize = L.blockSize
  sectorsPerBlock : s.sectorsPerBlock = L.sectorsPerBlock
  logBlockSize : s.sb.logBlockSize = L.logBlockSize
  features : unsupported s.sb.featureIncompat 0x2 = false ∧
    unsupported s.sb.featureRoCompat 0x7 = false
  firstDataBlock : s.sb.firstDataBlock = L.firstDataBlock
  blocksCount : s.sb.blocksCount = L.blocksCount
  blocksPerGroup : s.sb.blocksPerGroup = L.blocksPerGroup
  inodesPerGroup : s.sb.inodesPerGroup = L.inodesPerGroup
  inodeSize : s.sb.inodeSize = L.inodeSize
  rawLength : s.sb.raw.length = 1024
  bgdtBlock : s.bgdtBlock = L.bgdtBlock
  bgdtLength : s.bgdt.length = L.numGroups
  descriptor : ∀ g, g < L.numGroups → (s.bgdt.getD g []).length = bgdSize ∧
    leAt 4 (s.bgdt.getD g []) 0 = L.blockBitmap g ∧
    leAt 4 (s.bgdt.getD g []) 4 = L.inodeBitmap g ∧
    leAt 4 (s.bgdt.getD g []) 8 = L.inodeTable g
  numSectors : L.blocksCount * L.sectorsPerBlock ≤ s.numSectors
  sectors : ∀ lba, lba < s.numSectors → (s.dev lba).length = 512

/-- Every cached block has a buffer of its own, which holds what the device holds
unless the block is stale. -/
structure Cached (L : Layout) (stale : Nat → Prop) (s : Ext2FS) : Prop where
  ref_lt : ∀ b r, s.blockCache b = some r → r < s.nextRef
  inj : ∀ b b' r, s.blockCache b = some r → s.blockCache b' = some r → b = b'
  coherent : ∀ b r, ¬ stale b → s.blockCache b = some r → s.heap r = blocks L s b

/-- **The invariant of the driver.** -/
structure Mounted (L : Layout) (s : Ext2FS) : Prop where
  tables : Tables L s
  cached : Cached L (· = L.superBlock) s

variable {L : Layout}

/-- A held buffer holds its block. -/
theorem Mounted.heap_eq (h : Mounted L s) {b : Nat} {r : Ref} (hr : s.blockCache b = some r)
    (hb : b ≠ L.superBlock) : s.heap r = blocks L s b :=
  h.cached.coherent b r hb hr

/-- The last sector of a block is on the device. -/
theorem Tables.block_on_device (h : Tables L s) {b : Nat} (hb : b < L.blocksCount) :
    (b + 1) * L.sectorsPerBlock ≤ s.numSectors :=
  Nat.le_trans (Nat.mul_le_mul_right _ hb) h.numSectors

theorem Tables.length_blocks (h : Tables L s) {b : Nat} (hb : b < L.blocksCount) :
    (blocks L s b).length = L.blockSize := by
  have hdev := h.block_on_device hb
  rw [Nat.add_mul] at hdev
  exact length_sectorsAt fun i _ hi => h.sectors i (by omega)

/-! ### Reading a block -/

section BlockIO

variable {L : Layout} {s : Ext2FS}

variable {E : Error → Ext2FS → Prop}

@[simp] theorem load_wp {r : Ref} {Q : Bytes → Ext2FS → Prop} :
    (load r).wp Q E s ↔ Q (s.heap r) s := .rfl

@[simp] theorem store_wp {r : Ref} {b : Bytes} {Q : Unit → Ext2FS → Prop} :
    (store r b).wp Q E s ↔ Q () { s with heap := update s.heap r b } := .rfl

theorem readSectors_wp {lba n : Nat} (h : lba + n ≤ s.numSectors) :
    (readSectors lba n).returns (fun b s' => b = sectorsAt s.dev lba n ∧ s' = s) s := by
  induction n generalizing lba with
  | zero => exact ⟨rfl, rfl⟩
  | succ n ih =>
    simp only [readSectors, readSector, wp_bind, wp_yield, wp_get]
    rw [if_pos (by omega), wp_pure]
    refine wp_imp (@ih (lba + 1) (by omega)) ?_
    rintro rest s' ⟨rfl, rfl⟩
    exact ⟨rfl, rfl⟩

/-- What a function that only reads leaves behind: more of the device may be
cached. -/
structure Reads (L : Layout) (s s' : Ext2FS) : Prop where
  mounted : Mounted L s'
  dev : s'.dev = s.dev
  sb : s'.sb = s.sb
  bgdt : s'.bgdt = s.bgdt
  held : ∀ b r, s.blockCache b = some r → s'.blockCache b = some r

theorem Reads.blocks_eq {s' : Ext2FS} (h : Reads L s s') : blocks L s' = blocks L s := by
  unfold blocks
  rw [h.dev]

theorem Tables.congr_cache (h : Tables L s) (cache : Nat → Option Ref) (heap : Ref → Bytes)
    (next : Ref) :
    Tables L { s with blockCache := cache, heap := heap, nextRef := next } :=
  { h with }

/-- A new buffer with the content of its block. -/
theorem Cached.cacheBlock {stale stale' : Nat → Prop} (h : Cached L stale s) (b : Nat) (d : Bytes)
    (hd : ¬ stale' b → d = blocks L s b) (hstale : ∀ x, x ≠ b → stale x → stale' x) :
    Cached L stale' { s with
      heap := update s.heap s.nextRef d
      blockCache := update s.blockCache b (some s.nextRef)
      nextRef := s.nextRef + 1 } := by
  refine ⟨fun x r hx => ?_, fun x y r hx hy => ?_, fun x r hx hr => ?_⟩
  · by_cases hxb : x = b
    · obtain rfl : s.nextRef = r := by simpa [hxb] using hx
      exact Nat.lt_succ_self _
    · have hold : s.blockCache x = some r := by simpa [hxb] using hx
      exact Nat.lt_succ_of_lt (h.ref_lt x r hold)
  · by_cases hxb : x = b
    · obtain rfl : s.nextRef = r := by simpa [hxb] using hx
      by_cases hyb : y = b
      · rw [hxb, hyb]
      · have hold : s.blockCache y = some s.nextRef := by simpa [hyb] using hy
        exact absurd (h.ref_lt y _ hold) (Nat.lt_irrefl _)
    · have hold : s.blockCache x = some r := by simpa [hxb] using hx
      by_cases hyb : y = b
      · obtain rfl : s.nextRef = r := by simpa [hyb] using hy
        exact absurd (h.ref_lt x _ hold) (Nat.lt_irrefl _)
      · exact h.inj x y r hold (by simpa [hyb] using hy)
  · by_cases hxb : x = b
    · obtain rfl : s.nextRef = r := by simpa [hxb] using hr
      rw [hxb] at hx ⊢
      show update s.heap s.nextRef d s.nextRef = blocks L s b
      rw [update_self, hd hx]
    · have hold : s.blockCache x = some r := by simpa [hxb] using hr
      have hne : r ≠ s.nextRef := Nat.ne_of_lt (h.ref_lt x r hold)
      show update s.heap s.nextRef d r = blocks L s x
      rw [update_of_ne hne]
      exact h.coherent x r (fun hs => hx (hstale x hxb hs)) hold

variable {b : Nat}

/-- **`readBlock`** returns the buffer of the block. -/
theorem readBlock_wp (h : Mounted L s) (hb : b < L.blocksCount) :
    (readBlock b).returns (fun r s' => Reads L s s' ∧ s'.blockCache b = some r) s := by
  simp only [readBlock, wp_bind, wp_get]
  cases hr : s.blockCache b with
  | some r => exact ⟨⟨h, rfl, rfl, rfl, fun _ _ hx => hx⟩, hr⟩
  | none =>
    rw [h.tables.sectorsPerBlock]
    have hdev := h.tables.block_on_device hb
    rw [Nat.add_mul, Nat.one_mul] at hdev
    refine wp_bind_ok (readSectors_wp hdev) ?_
    rintro d s' ⟨hd, rfl⟩
    refine ⟨⟨⟨h.tables.congr_cache _ _ _, ?_⟩, rfl, rfl, rfl, fun x r hx => ?_⟩, ?_⟩
    · exact h.cached.cacheBlock b d (fun _ => hd) fun _ _ hx => hx
    · have hxb : x ≠ b := by
        intro heq
        rw [heq, hr] at hx
        cases hx
      simpa [hxb] using hx
    · simp

/-- The content of the block that was read. -/
theorem readBlock_load_wp (h : Mounted L s) (hb : b < L.blocksCount) (hsuper : b ≠ L.superBlock) :
    (readBlock b).returns (fun r s' => Reads L s s' ∧ s'.blockCache b = some r ∧
      s'.heap r = blocks L s b) s := by
  refine wp_imp (readBlock_wp h hb) ?_
  rintro r s' ⟨hreads, hr⟩
  exact ⟨hreads, hr, by rw [hreads.mounted.heap_eq hr hsuper, hreads.blocks_eq]⟩

/-! ### Writing a block -/

/-- What a buffer holds. -/
def Buf.denote (s : Ext2FS) : Buf → Bytes
  | .bytes b => b
  | .ref r => s.heap r

variable {data : Buf} {d : Bytes}

@[simp] theorem contents_wp {Q : Bytes → Ext2FS → Prop} :
    (contents data).wp Q E s ↔ Q (data.denote s) s := by
  cases data <;> exact .rfl

theorem denote_congr_dev (data : Buf) (dev : Nat → Bytes) :
    data.denote { s with dev } = data.denote s := by
  cases data <;> rfl

/-- The device after a write of a sector. -/
theorem writeSector_wp {lba : Nat} (hd : d.length = sectorSize) (h : lba < s.numSectors) :
    (writeSector lba d).returns (fun _ s' => s' = { s with dev := update s.dev lba d }) s := by
  simp only [writeSector, putSector]
  rw [if_neg (by simpa using hd)]
  simp only [wp_bind, wp_yield, wp_get]
  rw [if_pos h]
  rfl

/-- The device with the sectors `base + i`, ..., `base + i + n - 1` from `d`. -/
def written (dev : Nat → Bytes) (base : Nat) (d : Bytes) (n i : Nat) : Nat → Bytes := fun lba =>
  if base + i ≤ lba ∧ lba < base + i + n then
    slice d ((lba - base) * sectorSize) ((lba - base + 1) * sectorSize)
  else dev lba

theorem written_succ (dev : Nat → Bytes) (base : Nat) (d : Bytes) (n i : Nat) :
    written (update dev (base + i) (slice d (i * sectorSize) ((i + 1) * sectorSize))) base
      d n (i + 1) = written dev base d (n + 1) i := by
  funext lba
  unfold written
  by_cases hfirst : lba = base + i
  · rw [if_neg (by omega), if_pos (by omega), hfirst, update_self, Nat.add_sub_cancel_left]
  · rw [update_of_ne hfirst]
    by_cases hin : base + i ≤ lba ∧ lba < base + i + (n + 1)
    · rw [if_pos (by omega), if_pos hin]
    · rw [if_neg (by omega), if_neg hin]

theorem writeSectors_wp {n i : Nat} (hd : (data.denote s).length = s.sectorsPerBlock * 512)
    (hin : i + n ≤ s.sectorsPerBlock) (hdev : (b + 1) * s.sectorsPerBlock ≤ s.numSectors) :
    (writeSectors b data n i).returns (fun _ s' => s' = { s with
        dev := written s.dev (b * s.sectorsPerBlock) (data.denote s) n i }) s := by
  induction n generalizing i s with
  | zero =>
    show s = { s with dev := written s.dev _ _ 0 i }
    have hnone : written s.dev (b * s.sectorsPerBlock) (data.denote s) 0 i = s.dev := by
      funext lba
      exact if_neg (by omega)
    rw [hnone]
  | succ n ih =>
    have hdev' := hdev
    rw [Nat.add_mul, Nat.one_mul] at hdev'
    simp only [writeSectors, wp_bind, contents_wp, wp_get]
    have hlen : (slice (data.denote s) (i * sectorSize) ((i + 1) * sectorSize)).length =
        sectorSize := by
      rw [length_slice, hd]
      simp only [sectorSize]
      omega
    refine wp_imp (writeSector_wp hlen (by omega)) ?_
    rintro - s' rfl
    refine wp_imp (ih ?_ (by simp only; omega) hdev) ?_
    · exact hd
    · rintro - s' rfl
      have hdev := written_succ s.dev (b * s.sectorsPerBlock) (data.denote s) n i
      exact congrArg (fun dev => { s with dev }) hdev

/-- The blocks of a device with one block written. -/
theorem sectorsAt_written {dev : Nat → Bytes} {spb b : Nat} (hd : d.length = spb * 512) (b' : Nat) :
    sectorsAt (written dev (b * spb) d spb 0) (b' * spb) spb =
      if b' = b then d else sectorsAt dev (b' * spb) spb := by
  split
  · next heq =>
    have hslices : sectorsAt (written dev (b * spb) d spb 0) (b * spb) spb =
        slice d (0 * 512) ((0 + spb) * 512) := by
      refine sectorsAt_slices fun k hk => ?_
      unfold written
      rw [if_pos (by omega), Nat.add_sub_cancel_left, Nat.zero_add]
      rfl
    rw [heq, hslices, Nat.zero_mul, Nat.zero_add, ← hd, slice_zero_length]
  · next hne =>
    refine sectorsAt_congr fun i hi hi' => if_neg ?_
    rcases Nat.lt_or_gt_of_ne hne with hlt | hgt
    · have := Nat.mul_le_mul_right spb hlt
      rw [Nat.succ_mul] at this
      omega
    · have := Nat.mul_le_mul_right spb hgt
      rw [Nat.succ_mul] at this
      omega

/-- What a write of the block `b` leaves behind. -/
structure Wrote (L : Layout) (s : Ext2FS) (b : Nat) (d : Bytes) (s' : Ext2FS) : Prop where
  mounted : Mounted L s'
  blocks_eq : blocks L s' = update (blocks L s) b d
  sb : s'.sb = s.sb
  bgdt : s'.bgdt = s.bgdt
  held : ∀ x r, x ≠ b → s.blockCache x = some r → s'.blockCache x = some r

/-- A read before the write. -/
theorem Reads.wrote {s1 s2 : Ext2FS} (h : Reads L s s1) (hw : Wrote L s1 b d s2) :
    Wrote L s b d s2 :=
  ⟨hw.mounted, by rw [hw.blocks_eq, h.blocks_eq], hw.sb.trans h.sb, hw.bgdt.trans h.bgdt,
    fun x r hx hr => hw.held x r hx (h.held x r hr)⟩

theorem Tables.congr_dev (h : Tables L s) {dev : Nat → Bytes}
    (hdev : ∀ lba, lba < s.numSectors → (dev lba).length = 512) : Tables L { s with dev } :=
  { h with sectors := hdev }

/-- **`writeBlock`**: the block may be stale before, and is not any more. -/
theorem writeBlock_wp (ht : Tables L s) (hb : b < L.blocksCount)
    (hc : Cached L (fun x => x = L.superBlock ∨ x = b) s) (hdata : data.denote s = d)
    (hd : d.length = L.blockSize) :
    (writeBlock b data).returns (fun _ s' => Wrote L s b d s') s := by
  simp only [writeBlock, wp_bind, wp_get, contents_wp]
  rw [if_neg (by rw [hdata, hd, ht.blockSize]; exact fun h => h rfl)]
  simp only [wp_bind, contents_wp]
  have hdev := ht.block_on_device hb
  rw [← ht.sectorsPerBlock] at hdev
  refine wp_imp (writeSectors_wp ?_ (by omega) hdev) ?_
  · rw [hdata, hd, ht.sectorsPerBlock, Layout.blockSize]
  rintro - s' rfl
  rw [denote_congr_dev, hdata]
  have hblocks : blocks L { s with
      dev := written s.dev (b * s.sectorsPerBlock) d s.sectorsPerBlock 0 } =
      update (blocks L s) b d := by
    funext b'
    show sectorsAt (written s.dev (b * s.sectorsPerBlock) d s.sectorsPerBlock 0) _ _ = _
    rw [ht.sectorsPerBlock, sectorsAt_written hd, update_apply]
    rfl
  refine ⟨⟨(ht.congr_dev fun lba hlba => ?_).congr_cache _ _ _, ?_⟩, hblocks, rfl, rfl, ?_⟩
  · -- every sector is an old one or a slice of `d`
    unfold written
    split
    · next hin =>
      rw [ht.sectorsPerBlock] at hin
      rw [ht.sectorsPerBlock, length_slice, hd, Layout.blockSize]
      simp only [sectorSize]
      omega
    · exact ht.sectors lba hlba
  · refine @Cached.cacheBlock L _ (fun x => x = L.superBlock ∨ x = b) _ ?_ b d (fun _ => ?_) ?_
    · refine ⟨hc.ref_lt, hc.inj, fun x r hx hr => ?_⟩
      rw [hblocks, update_of_ne fun heq => hx (.inr heq)]
      exact hc.coherent x r hx hr
    · rw [hblocks, update_self]
    · rintro x hxb (hx | hx)
      · exact hx
      · exact absurd hx hxb
  · intro x r hxb hr
    show update s.blockCache b _ x = some r
    rw [update_of_ne hxb]
    exact hr

/-- **`writeBack`** of a buffer that is held. -/
theorem writeBack_wp (h : Mounted L s) {r : Ref} (hb : b < L.blocksCount)
    (hsuper : b ≠ L.superBlock) (hr : s.blockCache b = some r) {f : Bytes → Except Error Bytes}
    (hf : ∀ d, f (blocks L s b) = .ok d → d.length = L.blockSize) :
    (writeBack b r f).wp (fun _ s' => ∃ d, f (blocks L s b) = .ok d ∧ Wrote L s b d s')
      (fun e s' => s' = s ∧ f (blocks L s b) = .error e) s := by
  simp only [writeBack, wp_bind, load_wp, store_wp, wp_lift]
  rw [h.heap_eq hr hsuper]
  cases hd : f (blocks L s b) with
  | error e => exact ⟨trivial, rfl⟩
  | ok d =>
    have hother : ∀ x q, x ≠ b → s.blockCache x = some q → q ≠ r := by
      intro x q hx hq heq
      exact hx (h.cached.inj x b r (heq ▸ hq) hr)
    have htables := h.tables.congr_cache s.blockCache (update s.heap r d) s.nextRef
    refine wp_mono (writeBlock_wp htables hb
      ⟨h.cached.ref_lt, h.cached.inj, fun x q hx hq => ?_⟩ (d := d) ?_ (hf d hd)) ?_
      fun _ _ hfalse => False.elim hfalse
    · have hne : q ≠ r := hother x q (fun heq => hx (.inr heq)) hq
      show update s.heap r d q = blocks L s x
      rw [update_of_ne hne]
      exact h.cached.coherent x q (fun heq => hx (.inl heq)) hq
    · exact update_self r d s.heap
    · rintro - s' hw
      exact ⟨d, rfl, hw.mounted, hw.blocks_eq, hw.sb, hw.bgdt, hw.held⟩

end BlockIO

end PythonOS.Ext2
