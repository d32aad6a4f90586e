import PythonOS.Ext2.Alloc

/-!
# PythonOS.Ext2.Mount

Mounting: a driver that starts with nothing but the device of another driver comes to
the same superblock, the same group descriptors and so the same volume, if what the other
one has in memory is on the device (`Synced`).
-/

namespace PythonOS.Ext2

open Lib List Option Coro Lib.Bytes

/-- A new driver for the device. -/
def Ext2FS.unmounted (s : Ext2FS) : Ext2FS := { dev := s.dev, numSectors := s.numSectors }

/-- A driver that has read the superblock. -/
def Ext2FS.opened (L : Layout) (s : Ext2FS) : Ext2FS :=
  { s.unmounted with
    sb := s.sb, blockSize := L.blockSize, sectorsPerBlock := L.sectorsPerBlock }

/-- A driver that knows the size of the blocks. -/
structure Opened (L : Layout) (s : Ext2FS) : Prop where
  sectorsPerBlock : s.sectorsPerBlock = L.sectorsPerBlock
  numSectors : L.blocksCount * L.sectorsPerBlock ≤ s.numSectors
  cached : Cached L (fun _ => False) s

/-- Only the cache differs. -/
def CacheOnly (s s' : Ext2FS) : Prop :=
  ∃ cache heap next, s' = { s with blockCache := cache, heap := heap, nextRef := next }

theorem CacheOnly.trans {s s1 s2 : Ext2FS} (h : CacheOnly s s1) (h' : CacheOnly s1 s2) :
    CacheOnly s s2 := by
  obtain ⟨_, _, _, rfl⟩ := h
  obtain ⟨cache, heap, next, rfl⟩ := h'
  exact ⟨cache, heap, next, rfl⟩

section

variable {L : Layout} {s : Ext2FS}

theorem openedRead_wp (h : Opened L s) {b : Nat} (hb : b < L.blocksCount) :
    (readBlock b).returns (fun r s' => Opened L s' ∧ s'.heap r = blocks L s b ∧
      CacheOnly s s') s := by
  simp only [readBlock, wp_bind, wp_get]
  cases hr : s.blockCache b with
  | some r => exact ⟨h, h.cached.coherent b r id hr, _, _, _, rfl⟩
  | none =>
    rw [h.sectorsPerBlock]
    have hdev := Nat.le_trans (Nat.mul_le_mul_right L.sectorsPerBlock hb) h.numSectors
    rw [Nat.succ_mul] at hdev
    refine wp_bind_ok (readSectors_wp hdev) ?_
    rintro d s' ⟨hd, rfl⟩
    refine ⟨⟨h.sectorsPerBlock, h.numSectors, ?_⟩, ?_, _, _, _, rfl⟩
    · exact h.cached.cacheBlock b d (fun _ => hd) fun _ _ hx => hx
    · exact (Function.update_self ..).trans hd

/-- **`readBlocks`** -/
theorem readBlocks_wp (h : Opened L s) {b n : Nat} (hb : b + n ≤ L.blocksCount) :
    (readBlocks b n).returns
      (fun d s' => d = (range n).flatMap (fun i => blocks L s (b + i)) ∧ Opened L s' ∧
        CacheOnly s s') s := by
  induction n generalizing s b with
  | zero => exact ⟨rfl, h, _, _, _, rfl⟩
  | succ n ih =>
    refine wp_bind_ok (openedRead_wp h (by omega)) ?_
    rintro r s1 ⟨h1, hheap, hc1⟩
    simp only [wp_bind, load_wp, hheap]
    refine wp_imp (ih h1 (b := b + 1) (by omega)) ?_
    rintro rest s2 ⟨rfl, h2, hc2⟩
    refine ⟨?_, h2, hc1.trans hc2⟩
    obtain ⟨_, _, _, rfl⟩ := hc1
    rw [range_succ_eq_map, flatMap_cons, flatMap_map, Nat.add_zero]
    refine congrArg _ (flatMap_congr fun i _ => ?_)
    show blocks L s (b + 1 + i) = blocks L s (b + (i + 1))
    rw [Nat.add_assoc, Nat.add_comm 1 i]

/-- A block holds whole descriptors. -/
theorem Layout.bgdSize_dvd (L : Layout) : bgdSize ∣ L.blockSize :=
  Dvd.dvd.mul_left (by decide) _

theorem flatten_eq_flatMap (l : List Bytes) :
    l.flatten = (range l.length).flatMap fun g => l.getD g [] := by
  have hmap : (range l.length).map (fun g => l.getD g []) = l := by
    refine ext_getElem (by simp) fun g hg hg' => ?_
    rw [getElem_map, getElem_range, getD_eq_getElem?_getD, getElem?_eq_getElem hg', getD_some]
  rw [flatMap_def, hmap]

/-- **The descriptors on the device** are those in memory. -/
theorem Synced.descriptors (ht : Tables L s) (hs : Synced L s) {n : Nat}
    (hn : n = (L.numGroups * bgdSize + L.blockSize - 1) / L.blockSize)
    (hlen : ∀ i, i < n → (blocks L s (L.bgdtBlock + i)).length = L.blockSize) :
    (range L.numGroups).map (fun g => slice
      ((range n).flatMap fun i => blocks L s (L.bgdtBlock + i)) (g * bgdSize)
        ((g + 1) * bgdSize)) = s.bgdt := by
  have hflat := length_bgdt ht
  refine ext_getElem (by rw [length_map, length_range, ht.bgdtLength]) fun g hg hg' => ?_
  rw [length_map, length_range] at hg
  rw [getElem_map, getElem_range]
  -- the block of the descriptor, and its place there
  obtain ⟨c, hc⟩ := L.bgdSize_dvd
  have hpos := L.blockSize_pos
  have hcpos : 0 < c := by
    rcases Nat.eq_zero_or_pos c with rfl | h
    · rw [hc] at hpos; simp at hpos
    · exact h
  have hdm := Nat.div_add_mod g c
  have hmod := Nat.mod_lt g hcpos
  generalize hi : g / c = i at hdm
  generalize ho : g % c = o at hdm hmod
  have hat : g * bgdSize = i * L.blockSize + o * bgdSize := by
    rw [← hdm, hc]
    ring
  have hle : o * bgdSize + bgdSize ≤ L.blockSize := by
    rw [hc, ← Nat.succ_mul, Nat.mul_comm bgdSize]
    exact Nat.mul_le_mul_right _ hmod
  have hend : g * bgdSize + bgdSize ≤ L.numGroups * bgdSize := by
    rw [← Nat.succ_mul]
    exact Nat.mul_le_mul_right _ hg
  have hin : i < n := by
    rw [hn, ← hasArea_bgdt_iff]
    show i * L.blockSize < L.numGroups * bgdSize
    have : 0 < bgdSize := by decide
    omega
  obtain ⟨rest, hrest⟩ := hs.table i (hasArea_bgdt_iff.mpr (hn ▸ hin))
  have hblock := slice_flatMap hlen hin
  calc slice ((range n).flatMap fun i => blocks L s (L.bgdtBlock + i)) (g * bgdSize)
        ((g + 1) * bgdSize)
      = slice (blocks L s (L.bgdtBlock + i)) (o * bgdSize) (o * bgdSize + bgdSize) := by
        rw [← hblock, slice_slice (by omega), Nat.succ_mul, hat, Nat.add_assoc]
    _ = slice (slice s.bgdt.flatten (i * L.blockSize) ((i + 1) * L.blockSize)) (o * bgdSize)
          (o * bgdSize + bgdSize) := by
        rw [hrest, slice_append_left]
        rw [length_slice, hflat, Nat.succ_mul]
        omega
    _ = slice s.bgdt.flatten (g * bgdSize) (g * bgdSize + bgdSize) := by
        rw [slice_slice (by rw [Nat.succ_mul]; omega), hat, Nat.add_assoc]
    _ = s.bgdt.getD g [] := by
        rw [flatten_eq_flatMap, ht.bgdtLength]
        exact slice_flatMap (fun i hi => (ht.descriptor i hi).1) hg
    _ = s.bgdt[g] := by
        rw [getD_eq_getElem?_getD, getElem?_eq_getElem hg', getD_some]

section

variable (h : Mounted L s) (hs : Synced L s)

include h hs

/-- The superblock is read and checked. -/
theorem readSuperblock_wp [hL : L.Ok] :
    readSuperblock.returns (fun _ s' => s' = s.opened L) s.unmounted := by
  have hsize : s.sb.blockSize = L.blockSize := by
    rw [Superblock.blockSize, h.tables.logBlockSize, Nat.shiftLeft_eq, Layout.blockSize,
      Layout.sectorsPerBlock]
    ring
  have hper : L.blockSize / sectorSize = L.sectorsPerBlock := Nat.mul_div_cancel _ (by decide)
  have hdvd : L.blockSize % sectorSize = 0 := Nat.mul_mod_left _ _
  have hge : ¬ (L.blockSize < sectorSize ∨ L.blockSize % sectorSize ≠ 0) := by
    have := Nat.le_mul_of_pos_left sectorSize L.sectorsPerBlock_pos
    have hbs : L.blockSize = L.sectorsPerBlock * sectorSize := rfl
    omega
  have hsectors : 3 < s.numSectors := by
    have hon := h.tables.block_on_device (hL.area_lt .super trivial).2
    have := L.superBlock_sectors.2
    have hblock : L.block .super = L.superBlock := rfl
    rw [hblock] at hon
    omega
  simp only [readSuperblock, readSector, wp_bind, wp_yield, wp_get, Ext2FS.unmounted]
  rw [if_pos (by omega)]
  simp only [wp_pure]
  rw [if_pos hsectors]
  simp only [wp_pure, wp_lift, hs.super, hs.parse, h.tables.features.1,
    h.tables.features.2, hsize, Bool.false_eq_true, if_false]
  rw [if_neg hge, wp_modify, hper]
  rfl

/-- **Mounting again** the device of a driver that has brought everything to it. -/
theorem mount_wp [hL : L.Ok] :
    mount.returns (fun _ s' => Mounted L s' ∧ s'.dev = s.dev ∧ s'.sb = s.sb ∧
      s'.bgdt = s.bgdt) s.unmounted := by
  refine wp_bind_ok (readSuperblock_wp h hs) ?_
  rintro - s1 rfl
  have hpos := L.blockSize_pos
  have hfirst := (hL.area_lt .super trivial).2
  have hgroups : 0 < L.numGroups := by
    have hdiv := hL.blocksPerGroup_pos
    have hblock : L.block .super = L.superBlock := rfl
    have := hL.firstDataBlock
    unfold Layout.numGroups
    rw [Nat.div_pos_iff]
    omega
  have htable : (if L.blockSize = 1024 then s.sb.firstDataBlock + 1 else 1) = L.bgdtBlock := by
    rw [hL.bgdtBlock, h.tables.firstDataBlock]
    split
    · rfl
    · next hne =>
      have hzero : L.firstDataBlock = 0 := by
        rw [hL.firstDataBlock, Layout.superBlock]
        refine Nat.div_eq_of_lt ?_
        rcases Nat.eq_zero_or_pos L.logBlockSize with hlog | hlog
        · refine absurd ?_ hne
          rw [Layout.blockSize, Layout.sectorsPerBlock, hlog]
          decide
        · have : 2 ^ 1 ≤ 2 ^ L.logBlockSize := Nat.pow_le_pow_right (by decide) hlog
          unfold Layout.sectorsPerBlock
          omega
      rw [hzero]
  generalize hn : (L.numGroups * bgdSize + L.blockSize - 1) / L.blockSize = n
  have hn1 : 1 ≤ n := by
    rw [← hn, Nat.one_le_div_iff hpos]
    have : 0 < L.numGroups * bgdSize := Nat.mul_pos hgroups (by decide)
    omega
  have hrange : ∀ i, i < n → L.bgdtBlock + i < L.blocksCount := fun i hi =>
    (hL.area_lt (.bgdt i) (hasArea_bgdt_iff.mpr (hn ▸ hi))).2
  simp only [readBgdt, wp_bind, wp_get, Ext2FS.opened, Ext2FS.unmounted,
    numGroups_eq h.tables, htable]
  rw [hn, Nat.add_sub_cancel' hn1]
  have hopen0 : Opened L (s.opened L) :=
    ⟨rfl, h.tables.numSectors, fun b r hr => absurd hr (some_ne_none r).symm,
      fun b b' r hr => absurd hr (some_ne_none r).symm,
      fun b r _ hr => absurd hr (some_ne_none r).symm⟩
  refine wp_imp (readBlocks_wp hopen0 ?_) ?_
  · have := hrange (n - 1) (by omega)
    omega
  · rintro full s2 ⟨rfl, hopen, cache, heap, next, rfl⟩
    have hbgdt := hs.descriptors h.tables hn.symm fun i hi => h.tables.length_blocks (hrange i hi)
    refine ⟨⟨?_, hopen.cached.ref_lt, hopen.cached.inj, fun b r _ =>
      hopen.cached.coherent b r id⟩, rfl,
      rfl, hbgdt⟩
    have hgroup : ∀ f : Nat → Bytes, (range L.numGroups).map f = s.bgdt →
        (∀ g, ((range L.numGroups).map f).getD g [] = s.bgdt.getD g []) := fun f hf g => by rw [hf]
    exact ⟨rfl, rfl, h.tables.logBlockSize, h.tables.features, h.tables.firstDataBlock,
      h.tables.blocksCount, h.tables.blocksPerGroup, h.tables.inodesPerGroup, h.tables.inodeSize,
      h.tables.rawLength, rfl, (congrArg List.length hbgdt).trans h.tables.bgdtLength,
      fun g hg => by
        have hd := h.tables.descriptor g hg
        rw [← hgroup _ hbgdt g] at hd
        exact hd,
      h.tables.numSectors, h.tables.sectors⟩

/-- **A volume survives mounting again.** -/
theorem remount_eq [L.Ok] :
    ∃ s', mount.run s.unmounted = (.ok (), s') ∧ Mounted L s' ∧ s'.dev = s.dev ∧ s'.sb = s.sb ∧
      s'.bgdt = s.bgdt ∧ vol L s' = vol L s := by
  obtain ⟨u, s', hrun, hm, hdev, hsb, hbgdt⟩ := Coro.returns_run (mount_wp h hs)
  refine ⟨s', hrun, hm, hdev, hsb, hbgdt, ?_⟩
  rw [vol, vol, counters_congr hsb hbgdt]
  unfold blocks
  rw [hdev]

end

end

end PythonOS.Ext2
