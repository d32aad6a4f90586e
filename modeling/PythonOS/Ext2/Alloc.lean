import Mathlib.Data.Set.Basic
import PythonOS.Ext2.Headers

/-!
# PythonOS.Ext2.Alloc

Specifications of the allocation and inode functions on the volume.

Every one of them is of the same form: started in a mounted state `s`, the function
ends in a state `s'` with `After L s T V s'`: mounted, with the volume `V`, and the
buffers of data blocks outside `T` that were held are still held. What it has changed
is on the device.
-/

namespace PythonOS.Ext2

open Lib Coro Lib.Bytes Function

/-- The volume on the device. -/
noncomputable def vol (L : Layout) (s : Ext2FS) : Volume := volume L (blocks L s) (counters s)

/-- What a function leaves behind, also one that raises. -/
structure Leaves (L : Layout) (s : Ext2FS) (T : Set Nat) (V : Volume) (s' : Ext2FS) : Prop where
  mounted : Mounted L s'
  vol_eq : vol L s' = V
  held : ∀ b r, L.IsData b → b ∉ T → s.blockCache b = some r → s'.blockCache b = some r

/-- What a function leaves behind that returns. -/
structure After (L : Layout) (s : Ext2FS) (T : Set Nat) (V : Volume) (s' : Ext2FS) : Prop extends
    Leaves L s T V s' where
  synced : Synced L s → Synced L s'

theorem After.trans {L : Layout} {s s1 s2 : Ext2FS} {T T' : Set Nat} {V V' : Volume}
    (h : After L s T V s1) (h' : After L s1 T' V' s2) : After L s (T ∪ T') V' s2 where
  mounted := h'.mounted
  vol_eq := h'.vol_eq
  held b r hb hT hr :=
    h'.held b r hb (fun hm => hT (.inr hm)) (h.held b r hb (fun hm => hT (.inl hm)) hr)
  synced hs := h'.synced (h.synced hs)

/-- Changes of no held buffer, one after the other. -/
theorem After.trans_empty {L : Layout} {s s1 s2 : Ext2FS} {V V' : Volume}
    (h : After L s ∅ V s1) (h' : After L s1 ∅ V' s2) : After L s ∅ V' s2 := by
  simpa using h.trans h'

section

variable {L : Layout} {s : Ext2FS}

/-- Nothing has changed. -/
abbrev Same (L : Layout) (s s' : Ext2FS) : Prop := After L s ∅ (vol L s) s'

theorem After.still {s1 s2 : Ext2FS} {V : Volume} (h : After L s ∅ V s1) (h' : Same L s1 s2) :
    After L s ∅ V s2 := by
  rw [Same, h.vol_eq] at h'
  exact h.trans_empty h'

theorem After.refl (h : Mounted L s) : Same L s s :=
  ⟨⟨h, rfl, fun _ _ _ _ hr => hr⟩, fun hs => hs⟩

variable {s' : Ext2FS}

/-- Only headers have changed. -/
theorem Quiet.vol_eq [L.Ok] (h : Quiet L s s') :
    vol L s' = { vol L s with counters := counters s' } :=
  volume_congr h.blocks_eq

theorem counters_congr (hsb : s'.sb = s.sb) (hbgdt : s'.bgdt = s.bgdt) :
    counters s' = counters s := by
  simp only [counters, hsb, hbgdt]

/-- Nothing has changed but the cache. -/
theorem Reads.after [L.Ok] (h : Mounted L s) (hr : Reads L s s') :
    Same L s s' where
  mounted := hr.mounted
  vol_eq := by rw [(Quiet.of_reads hr).vol_eq, counters_congr hr.sb hr.bgdt]; rfl
  held b r _ _ := hr.held b r
  synced hs := hs.congr h.tables hr.mounted.tables hr.sb hr.bgdt fun b _ => by rw [hr.blocks_eq]

/-- Nothing has changed but the cache, and then the counters. -/
theorem Reads.flushed [L.Ok] (h : Mounted L s) {s1 s2 : Ext2FS} {k : Counters}
    (hr : Reads L s s1) (hf : Flushed L s1 k s2) :
    After L s ∅ { vol L s with counters := k } s2 where
  mounted := hf.mounted
  vol_eq := by rw [hf.vol_eq, hf.counters_eq, (hr.after h).vol_eq]
  held b r hb _ hheld := hf.held b r hb.not_isHeader (hr.held b r hheld)
  synced hs := hf.synced ((hr.after h).synced hs)

variable {b : Nat}

/-- A block that is no header was written. -/
theorem Wrote.synced [L.Ok] (h : Mounted L s) (hb : ¬ L.IsHeader b) {d : Bytes}
    (hw : Wrote L s b d s') (hs : Synced L s) : Synced L s' := by
  refine hs.congr h.tables hw.mounted.tables hw.sb hw.bgdt fun x hx => ?_
  have hne : x ≠ b := fun heq => hb (heq ▸ hx)
  rw [hw.blocks_eq, update_of_ne hne]

/-! ### Bitmaps -/

theorem allocInBitmap_wp (h : Mounted L s) {b count : Nat} (hb : b < L.blocksCount)
    (hsuper : b ≠ L.superBlock) (hcount : count ≤ 8 * L.blockSize) :
    (allocInBitmap b count).wp (fun idx s' => idx < count ∧ bitAt (blocks L s b) idx = false ∧
        Wrote L s b (setBit (blocks L s b) idx) s')
      (fun _ s' => Reads L s s' ∧ ∀ j, j < count → bitAt (blocks L s b) j = true) s := by
  refine wp_bind_ok (readBlock_load_wp h hb hsuper) ?_
  rintro r s1 ⟨hreads, hr, hheap⟩
  simp only [wp_bind, load_wp, wp_lift, hheap]
  have hlen := h.tables.length_blocks hb
  obtain ⟨found, hfound, hspec, hnone⟩ :=
    @firstClear_spec (blocks L s b) count ((count + 7) / 8) 0 (by omega)
  rw [hfound]
  cases found with
  | none => exact ⟨hreads, fun j hj => hnone rfl j (by omega) (by omega) hj⟩
  | some idx =>
    obtain ⟨hidx, hclear⟩ := hspec idx rfl
    simp only [wp_bind, wp_pure]
    refine wp_mono (writeBack_wp hreads.mounted hb hsuper hr fun d hd => ?_) ?_ ?_
    · rw [← Except.ok.inj hd, length_setBit, hreads.blocks_eq, hlen]
    · rintro - s2 ⟨d, hd, hw⟩
      rw [hreads.blocks_eq] at hd
      cases hd
      exact ⟨hidx, hclear, hreads.wrote hw⟩
    · rintro e s2 ⟨-, herr⟩
      cases herr

theorem freeInBitmap_wp (h : Mounted L s) {b idx : Nat} (hb : b < L.blocksCount)
    (hsuper : b ≠ L.superBlock) (hidx : idx < 8 * L.blockSize) :
    (freeInBitmap b idx).returns (fun _ s' => Wrote L s b (clearBit (blocks L s b) idx) s' ∨
        Reads L s s' ∧ bitAt (blocks L s b) idx = false) s := by
  refine wp_bind_ok (readBlock_load_wp h hb hsuper) ?_
  rintro r s1 ⟨hreads, hr, hheap⟩
  have hlen := h.tables.length_blocks hb
  simp only [wp_bind, load_wp, hheap]
  rw [if_neg (by omega)]
  cases hbit : bitAt (blocks L s b) idx with
  | false => exact .inr ⟨hreads, rfl⟩
  | true =>
    refine wp_mono (writeBack_wp hreads.mounted hb hsuper hr fun d hd => ?_) ?_ ?_
    · rw [← Except.ok.inj hd, length_clearBit, hreads.blocks_eq, hlen]
    · rintro - s2 ⟨d, hd, hw⟩
      rw [hreads.blocks_eq] at hd
      cases hd
      exact .inl (hreads.wrote hw)
    · rintro e s2 ⟨-, herr⟩
      cases herr

/-! ### Data blocks -/

section

variable (h : Mounted L s) (hb : L.IsData b)

include h hb

theorem Mounted.length_data : ((vol L s).data b).length = L.blockSize := by
  rw [vol, volume_data hb]
  exact h.tables.length_blocks hb.2.1

theorem readData_wp [L.Ok] :
    (readBlock b).returns (fun r s' => Same L s s' ∧ s'.blockCache b = some r ∧
      s'.heap r = (vol L s).data b) s := by
  refine wp_imp (readBlock_load_wp h hb.2.1 hb.ne_super) ?_
  rintro r s' ⟨hreads, hr, hheap⟩
  exact ⟨hreads.after h, hr, by rw [hheap, vol, volume_data hb]⟩

/-- A data block was written. -/
theorem Wrote.after [L.Ok] {d : Bytes}
    (hw : Wrote L s b d s') : After L s {b} ((vol L s).setData b d) s' where
  mounted := hw.mounted
  vol_eq := by
    rw [vol, hw.blocks_eq, volume_update_data hb, counters_congr hw.sb hw.bgdt]
    rfl
  held x r _ hx := hw.held x r hx
  synced := hw.synced h hb.not_isHeader

theorem writeData_wp [L.Ok] {d : Bytes} (hd : d.length = L.blockSize) :
    (writeBlock b (.bytes d)).returns (fun _ s' => After L s {b} ((vol L s).setData b d) s') s := by
  refine wp_imp (writeBlock_wp h.tables hb.2.1 (h.cached.weaken fun _ hx => .inl hx) rfl hd)
    (fun _ s' hw => hw.after h hb)

theorem writeBackData_wp [L.Ok] {r : Ref}
    (hr : s.blockCache b = some r) {f : Bytes → Except Error Bytes}
    (hf : ∀ d, f ((vol L s).data b) = .ok d → d.length = L.blockSize) :
    (writeBack b r f).wp
      (fun _ s' => ∃ d, f ((vol L s).data b) = .ok d ∧ After L s {b} ((vol L s).setData b d) s')
      (fun e s' => s' = s ∧ f ((vol L s).data b) = .error e) s := by
  have hdata : (vol L s).data b = blocks L s b := volume_data hb
  rw [hdata] at hf ⊢
  refine wp_imp (writeBack_wp h hb.2.1 hb.ne_super hr hf) ?_
  rintro - s' ⟨d, hd, hw⟩
  exact ⟨d, hd, hw.after h hb⟩

end

/-! ### Allocation of blocks -/

theorem numGroups_eq (h : Tables L s) : s.sb.numGroups = L.numGroups := by
  unfold Superblock.numGroups Layout.numGroups
  rw [h.blocksCount, h.firstDataBlock, h.blocksPerGroup]

/-- The blocks of group `g`, the last of which may be short. -/
theorem groupBlocks_le [hL : L.Ok] (h : Tables L s) {g : Nat} (hg : g < L.numGroups) :
    groupBlocks s.sb g ≤ L.blocksPerGroup ∧
      L.firstDataBlock + g * L.blocksPerGroup + groupBlocks s.sb g ≤ L.blocksCount := by
  unfold groupBlocks
  rw [numGroups_eq h, h.blocksCount, h.firstDataBlock, h.blocksPerGroup]
  have hpos := hL.blocksPerGroup_pos
  set n := L.blocksCount - L.firstDataBlock + L.blocksPerGroup - 1 with hn
  have hdiv := Nat.div_add_mod n L.blocksPerGroup
  have hmod := Nat.mod_lt n hpos
  have hnum : n / L.blocksPerGroup = L.numGroups := rfl
  rw [hnum, Nat.mul_comm] at hdiv
  split
  · next hlast =>
    rw [← hlast, Nat.add_mul] at hdiv
    omega
  · next hlast =>
    have hle : (g + 2) * L.blocksPerGroup ≤ L.numGroups * L.blocksPerGroup :=
      Nat.mul_le_mul_right _ (by omega)
    rw [Nat.add_mul] at hle
    omega

theorem blockIndex_lt_groupBlocks [L.Ok] (h : Tables L s) (hb : L.InRange b) :
    L.blockIndex b < groupBlocks s.sb (L.blockGroup b) := by
  have hdiv := Nat.div_add_mod (b - L.firstDataBlock) L.blocksPerGroup
  unfold groupBlocks
  rw [h.blocksCount, h.firstDataBlock, h.blocksPerGroup]
  split
  · rw [Nat.mul_comm] at hdiv
    unfold Layout.blockIndex Layout.blockGroup
    obtain ⟨hlo, hhi⟩ := hb
    omega
  · exact L.blockIndex_lt b

/-- The block of a group and an index. -/
theorem group_index [hL : L.Ok] {g idx : Nat} (hidx : idx < L.blocksPerGroup) :
    L.blockGroup (L.firstDataBlock + g * L.blocksPerGroup + idx) = g ∧
      L.blockIndex (L.firstDataBlock + g * L.blocksPerGroup + idx) = idx := by
  have hsub : L.firstDataBlock + g * L.blocksPerGroup + idx - L.firstDataBlock =
      idx + g * L.blocksPerGroup := by omega
  unfold Layout.blockGroup Layout.blockIndex
  rw [hsub, Nat.add_mul_div_right _ _ hL.blocksPerGroup_pos, Nat.div_eq_of_lt hidx,
    Nat.add_mul_mod_self_right, Nat.mod_eq_of_lt hidx]
  exact ⟨by omega, rfl⟩

section Area

variable {a : Area} [hL : L.Ok] (h : Mounted L s) (ha : L.HasArea a) {d : Bytes} {s1 s2 : Ext2FS}
  {V : Volume} {k : Counters} (hw : Wrote L s (L.block a) d s1)
  (hV : ∀ k, volume L (update (blocks L s) (L.block a) d) k = { V with counters := k })

include ha hw hV

/-- A bitmap or an inode was written, and then perhaps headers. -/
theorem Wrote.leaves (hq : Quiet L s1 s2) :
    Leaves L s ∅ { V with counters := counters s2 } s2 where
  mounted := hq.mounted
  vol_eq := by rw [hq.vol_eq, vol, hw.blocks_eq, hV]
  held b r hb _ hr :=
    hq.held b r hb.not_isHeader (hw.held b r (fun heq => hb.2.2 a ha heq.symm) hr)

include h in
/-- A bitmap was written, and then the counters. -/
theorem Wrote.flushed (hn : ¬ L.IsHeader (L.block a)) (hf : Flushed L s1 k s2) :
    After L s ∅ { V with counters := k } s2 where
  toLeaves := hf.counters_eq ▸ hw.leaves ha hV hf.toQuiet
  synced hs := hf.synced (hw.synced h hn hs)

end Area

/-- No block is to be had: up to some group the counters say so, and the bitmap of that
group has no clear bit. -/
def NoBlock (L : Layout) (V : Volume) : Prop :=
  ∃ g ≤ L.numGroups, (∀ x < g, (V.counters.group x).freeBlocks = 0) ∧
    (g < L.numGroups → (V.counters.group g).freeBlocks ≠ 0 ∧
      ∀ b, L.InRange b → L.blockGroup b = g → V.used b = true)

/-- What an allocation leaves behind when it raises: nothing, or a block that is marked
and belongs to nobody, because a counter does not fit its field. -/
def AllocFailed (L : Layout) (s s' : Ext2FS) : Prop :=
  After L s ∅ (vol L s) s' ∧ NoBlock L (vol L s) ∨
    ∃ b k, L.InRange b ∧ (vol L s).used b = false ∧
      ¬ ((counters s).add (L.blockGroup b) (-1) 0 0).Fits (L.blockGroup b) ∧
      Leaves L s ∅ { (vol L s).setUsed b true with counters := k } s'

theorem allocBlockFrom_wp [hL : L.Ok] (h : Mounted L s) {n g : Nat} (hg : g + n = L.numGroups)
    (hbelow : ∀ x < g, ((counters s).group x).freeBlocks = 0) :
    (allocBlockFrom n g).wp (fun b s' => L.InRange b ∧ (vol L s).used b = false ∧
        After L s ∅ ((vol L s).takeBlock L b) s')
      (fun _ s' => AllocFailed L s s') s := by
  induction n generalizing g with
  | zero =>
    exact .inl ⟨After.refl h, g, by omega, hbelow, fun hlt => absurd hlt (by omega)⟩
  | succ n ih =>
    obtain ⟨d, hd, hbb, -, -, hcount⟩ := bgdGet_eq h.tables (g := g) (by omega)
    simp only [allocBlockFrom, wp_bind, wp_get, wp_lift, hd]
    rw [wp_ite]
    refine ⟨fun hzero => ih (by omega) fun x hx => ?_, fun hpos => ?_⟩
    · rcases Nat.lt_or_eq_of_le (Nat.le_of_lt_succ hx) with hlt | rfl
      · exact hbelow x hlt
      · rw [hcount]
        exact congrArg _ hzero
    have harea : L.HasArea (.blockBitmap g) := show g < L.numGroups by omega
    obtain ⟨hle, hlast⟩ := groupBlocks_le h.tables (g := g) (by omega)
    have hsuper : L.block (.blockBitmap g) ≠ L.superBlock :=
      L.area_ne (b := .super) harea trivial (by simp)
    have hbound := hL.blocksPerGroup_le
    rw [hbb]
    refine wp_bind_of (allocInBitmap_wp h (b := L.block (.blockBitmap g))
      (hL.area_lt _ harea).2 hsuper (by omega)) ?_ ?_
    · rintro - s' ⟨hr, hfull⟩
      refine .inl ⟨hr.after h, g, by omega, hbelow, fun _ => ⟨?_, fun b hb hgroup => ?_⟩⟩
      · show ((counters s).group g).freeBlocks ≠ 0
        rw [hcount]
        exact Int.natCast_ne_zero.mpr hpos
      · have hidx := blockIndex_lt_groupBlocks h.tables hb
        rw [hgroup] at hidx
        rw [vol, volume_used hb, Layout.blockArea, hgroup]
        exact hfull _ hidx
    · rintro idx s1 ⟨hidx, hclear, hw⟩
      obtain ⟨hgroup, hindex⟩ := @group_index L _ g idx (by omega)
      set b := L.firstDataBlock + g * L.blocksPerGroup + idx with hb
      have hrange : L.InRange b := by
        constructor <;> omega
      have hblock : L.blockArea b = .blockBitmap g := by rw [Layout.blockArea, hgroup]
      have hfree : (vol L s).used b = false := by
        rw [vol, volume_used hrange, hblock, hindex, hclear]
      have hV : ∀ k, volume L (update (blocks L s) (L.block (.blockBitmap g))
          (setBit (blocks L s (L.block (.blockBitmap g))) idx)) k =
          { (vol L s).setUsed b true with counters := k } := by
        intro k
        rw [← hblock]
        refine volume_update_blockBitmap hrange fun j => ?_
        rw [hblock, bitAt_setBit, hindex]
        · by_cases hj : j = idx <;> simp [hj]
        · rw [h.tables.length_blocks (hL.area_lt _ harea).2]
          omega
      have hsame : counters s1 = counters s := counters_congr hw.sb hw.bgdt
      have hnot := L.not_isHeader harea (by simp) (by simp)
      refine wp_bind_of (updateCounters_wp hw.mounted (g := g) (by omega)
        (k := (counters s).add g (-1) 0 0) ?_ ?_) ?_ ?_
      · rw [hsame, Counters.add, hcount]
        rfl
      · simp only [hw.sb]
        simp only [Counters.add, counters, add_zero]
        rfl
      · rintro - s2 ⟨-, hq, hfits⟩
        refine .inr ⟨_, counters s2, hrange, hfree, by rw [hgroup]; exact hfits, ?_⟩
        exact hw.leaves harea hV hq
      · rintro - s2 ⟨hf, -⟩
        rw [wp_pure, h.tables.firstDataBlock, h.tables.blocksPerGroup]
        refine ⟨hrange, hfree, ?_⟩
        rw [Volume.takeBlock, hgroup]
        exact hw.flushed h harea hV hnot hf

/-- **`allocBlock`** returns a block that was free, and marks and counts it. -/
theorem allocBlock_wp [L.Ok] (h : Mounted L s) :
    allocBlock.wp (fun b s' => L.InRange b ∧ (vol L s).used b = false ∧
        After L s ∅ ((vol L s).takeBlock L b) s')
      (fun _ s' => AllocFailed L s s') s := by
  simp only [allocBlock, wp_bind, wp_get, numGroups_eq h.tables]
  exact allocBlockFrom_wp h (by omega) fun x hx => absurd hx (by omega)

/-- Clearing a bit of a bitmap, set or not, and counting it. -/
theorem release_wp [hL : L.Ok] (h : Mounted L s) {a : Area} (ha : L.HasArea a)
    (hn : ¬ L.IsHeader (L.block a)) {idx g : Nat} (hidx : idx < 8 * L.blockSize) {V : Volume}
    (hV : ∀ d k, (∀ j, bitAt d j = if j = idx then false else bitAt (blocks L s (L.block a)) j) →
      volume L (update (blocks L s) (L.block a) d) k = { V with counters := k })
    (hg : g < L.numGroups) {fb fi ud : Int} {f : Superblock → Superblock} {k : Counters}
    (hk : k.group = update (counters s).group g ⟨fb, fi, ud⟩)
    (hf : f s.sb = { s.sb with freeBlocksCount := k.freeBlocks, freeInodesCount := k.freeInodes })
    {E : Error → Ext2FS → Prop} (hE : ∀ s', ¬ k.Fits g → E .struct s') :
    (freeInBitmap (L.block a) idx).wp (fun _ => (updateCounters g fb fi ud f).wp
      (fun _ s' => After L s ∅ { V with counters := k } s') E) E s := by
  have hlt := (hL.area_lt a ha).2
  have hlen := h.tables.length_blocks hlt
  refine wp_imp (freeInBitmap_wp h hlt (fun heq => hn (.inl heq)) hidx) ?_
  rintro - s1 (hw | ⟨hr, hclear⟩)
  · refine wp_mono (updateCounters_wp hw.mounted hg ?_ (by rw [hw.sb, hf])) ?_
      fun _ s2 hq => hq.1 ▸ hE s2 hq.2.2
    · rw [counters_congr hw.sb hw.bgdt, hk]
    rintro - s2 ⟨hf, -⟩
    refine hw.flushed h ha (fun k => hV _ k fun j => ?_) hn hf
    rw [bitAt_clearBit (by omega)]
    by_cases hj : j = idx <;> simp [hj]
  · refine wp_mono (updateCounters_wp hr.mounted hg ?_ (by rw [hr.sb, hf])) ?_
      fun _ s2 hq => hq.1 ▸ hE s2 hq.2.2
    · rw [counters_congr hr.sb hr.bgdt, hk]
    rintro - s2 ⟨hf, -⟩
    have hsame := hV (blocks L s (L.block a)) k fun j => by
      split
      · next hj => rw [hj, hclear]
      · rfl
    rw [update_eq_self] at hsame
    exact hsame ▸ hr.flushed h hf

/-- **`freeBlock`** clears the bit of the block, and counts it. -/
theorem freeBlock_wp [hL : L.Ok] (h : Mounted L s) (hb : L.InRange b) :
    (freeBlock b).wp (fun _ s' => After L s ∅ ((vol L s).giveBlock L b) s')
      (fun e _ => e = .struct ∧
        ¬ ((counters s).add (L.blockGroup b) 1 0 0).Fits (L.blockGroup b)) s := by
  have hg := L.blockGroup_lt hb
  have harea : L.HasArea (L.blockArea b) := hg
  have hdiv : divMod ((b : Int) - L.firstDataBlock) L.blocksPerGroup =
      .ok ((L.blockGroup b : Int), L.blockIndex b) := by
    have hcast : (b : Int) - L.firstDataBlock = ((b - L.firstDataBlock : Nat) : Int) := by
      have := hb.1
      omega
    unfold divMod
    rw [if_neg (by have := hL.blocksPerGroup_pos; omega), hcast]
    rfl
  obtain ⟨d, hd, hbb, -, -, hcount⟩ := bgdGet_eq h.tables hg
  simp only [freeBlock, wp_bind, wp_get, wp_lift, h.tables.firstDataBlock,
    h.tables.blocksPerGroup, hdiv, hd, hbb]
  have hindex := L.blockIndex_lt b
  have hbound := hL.blocksPerGroup_le
  refine release_wp h harea
    (L.not_isHeader harea (by simp [Layout.blockArea]) (by simp [Layout.blockArea])) (by omega)
    (fun d k hd => volume_update_blockBitmap hb hd) hg
    (k := (counters s).add (L.blockGroup b) 1 0 0) ?_ ?_ fun _ hk => ⟨rfl, hk⟩
  · rw [Counters.add, hcount]
    simp only [add_zero]
  · simp only [Counters.add, counters, add_zero]

/-! ### Inodes -/

/-- The inode of a group and an index. -/
theorem inode_group_index [hL : L.Ok] {g idx : Nat} (hidx : idx < L.inodesPerGroup) :
    L.inodeGroup (g * L.inodesPerGroup + idx + 1) = g ∧
      L.inodeIndex (g * L.inodesPerGroup + idx + 1) = idx := by
  have hsub : g * L.inodesPerGroup + idx + 1 - 1 = idx + g * L.inodesPerGroup := by omega
  unfold Layout.inodeGroup Layout.inodeIndex
  rw [hsub, Nat.add_mul_div_right _ _ hL.inodesPerGroup_pos, Nat.div_eq_of_lt hidx,
    Nat.add_mul_mod_self_right, Nat.mod_eq_of_lt hidx]
  exact ⟨by omega, rfl⟩

/-- No inode is to be had. -/
def NoInode (L : Layout) (V : Volume) : Prop :=
  ∃ g ≤ L.numGroups, (∀ x < g, (V.counters.group x).freeInodes = 0) ∧
    (g < L.numGroups → (V.counters.group g).freeInodes ≠ 0 ∧
      ∀ ino, L.HasInode ino → L.inodeGroup ino = g → V.inodeUsed ino = true)

/-- What an allocation of an inode leaves behind when it raises. -/
def AllocInodeFailed (L : Layout) (isDir : Bool) (s s' : Ext2FS) : Prop :=
  After L s ∅ (vol L s) s' ∧ NoInode L (vol L s) ∨
    ∃ ino k, L.HasInode ino ∧ (vol L s).inodeUsed ino = false ∧
      ¬ ((counters s).add (L.inodeGroup ino) 0 (-1) (if isDir then 1 else 0)).Fits
        (L.inodeGroup ino) ∧
      Leaves L s ∅ { (vol L s).setInodeUsed ino true with counters := k } s'

theorem allocInodeFrom_wp [hL : L.Ok] (h : Mounted L s) (isDir : Bool) {n g : Nat}
    (hg : g + n = L.numGroups) (hbelow : ∀ x < g, ((counters s).group x).freeInodes = 0) :
    (allocInodeFrom isDir n g).wp (fun ino s' => L.HasInode ino ∧ (vol L s).inodeUsed ino = false ∧
        After L s ∅ ((vol L s).takeInode L ino isDir) s')
      (fun _ s' => AllocInodeFailed L isDir s s') s := by
  induction n generalizing g with
  | zero =>
    exact .inl ⟨After.refl h, g, by omega, hbelow, fun hlt => absurd hlt (by omega)⟩
  | succ n ih =>
    obtain ⟨d, hd, -, hib, -, hcount⟩ := bgdGet_eq h.tables (g := g) (by omega)
    simp only [allocInodeFrom, wp_bind, wp_get, wp_lift, hd]
    rw [wp_ite]
    refine ⟨fun hzero => ih (by omega) fun x hx => ?_, fun hpos => ?_⟩
    · rcases Nat.lt_or_eq_of_le (Nat.le_of_lt_succ hx) with hlt | rfl
      · exact hbelow x hlt
      · rw [hcount]
        exact congrArg _ hzero
    have harea : L.HasArea (.inodeBitmap g) := show g < L.numGroups by omega
    have hsuper : L.block (.inodeBitmap g) ≠ L.superBlock :=
      L.area_ne (b := .super) harea trivial (by simp)
    have hbound := hL.inodesPerGroup_le
    rw [hib, h.tables.inodesPerGroup]
    refine wp_bind_of (allocInBitmap_wp h (b := L.block (.inodeBitmap g))
      (hL.area_lt _ harea).2 hsuper hbound) ?_ ?_
    · rintro - s' ⟨hr, hfull⟩
      refine .inl ⟨hr.after h, g, by omega, hbelow, fun _ => ⟨?_, fun ino hino hgroup => ?_⟩⟩
      · show ((counters s).group g).freeInodes ≠ 0
        rw [hcount]
        exact Int.natCast_ne_zero.mpr hpos
      · rw [vol, volume_inodeUsed hino, Layout.inodeBitArea, hgroup]
        exact hfull _ (L.inodeIndex_lt ino)
    rintro idx s1 ⟨hidx, hclear, hw⟩
    obtain ⟨hgroup, hindex⟩ := inode_group_index (g := g) hidx
    set ino := g * L.inodesPerGroup + idx + 1 with hno
    have hhas : L.HasInode ino := by
      have hle : (g + 1) * L.inodesPerGroup ≤ L.numGroups * L.inodesPerGroup :=
        Nat.mul_le_mul_right _ (by omega)
      rw [Nat.add_mul] at hle
      constructor
      · omega
      · unfold Layout.inodesCount
        omega
    have hblock : L.inodeBitArea ino = .inodeBitmap g := by
      rw [Layout.inodeBitArea, hgroup]
    have hfree : (vol L s).inodeUsed ino = false := by
      rw [vol, volume_inodeUsed hhas, hblock, hindex, hclear]
    have hV : ∀ k, volume L (update (blocks L s) (L.block (.inodeBitmap g))
        (setBit (blocks L s (L.block (.inodeBitmap g))) idx)) k =
        { (vol L s).setInodeUsed ino true with counters := k } := by
      intro k
      rw [← hblock]
      refine volume_update_inodeBitmap hhas fun j => ?_
      rw [hblock, bitAt_setBit, hindex]
      · by_cases hj : j = idx <;> simp [hj]
      · rw [h.tables.length_blocks (hL.area_lt _ harea).2]
        omega
    have hnot := L.not_isHeader harea (by simp) (by simp)
    refine wp_bind_of (updateCounters_wp hw.mounted (g := g) (by omega)
      (k := (counters s).add g 0 (-1) (if isDir then 1 else 0)) ?_ ?_) ?_ ?_
    · rw [counters_congr hw.sb hw.bgdt, Counters.add, hcount]
      cases isDir <;> simp only [add_zero, if_true, Bool.false_eq_true, if_false] <;> rfl
    · simp only [hw.sb]
      simp only [Counters.add, counters, add_zero]
      rfl
    · rintro - s2 ⟨-, hq, hfits⟩
      refine .inr ⟨_, counters s2, hhas, hfree, by rw [hgroup]; exact hfits, ?_⟩
      exact hw.leaves harea hV hq
    · rintro - s2 ⟨hf, -⟩
      refine ⟨hhas, hfree, ?_⟩
      rw [Volume.takeInode, hgroup]
      exact hw.flushed h harea hV hnot hf

/-- **`allocInode`** returns an inode that was free, and marks and counts it. -/
theorem allocInode_wp [L.Ok] (h : Mounted L s) (isDir : Bool) :
    (allocInode isDir).wp (fun ino s' => L.HasInode ino ∧ (vol L s).inodeUsed ino = false ∧
        After L s ∅ ((vol L s).takeInode L ino isDir) s')
      (fun _ s' => AllocInodeFailed L isDir s s') s := by
  simp only [allocInode, wp_bind, wp_get, numGroups_eq h.tables]
  exact allocInodeFrom_wp h isDir (by omega) fun x hx => absurd hx (by omega)

variable {ino : Nat}

theorem divMod_ino [hL : L.Ok] (hino : L.HasInode ino) :
    divMod ((ino : Int) - 1) L.inodesPerGroup =
      .ok ((L.inodeGroup ino : Int), L.inodeIndex ino) := by
  have hcast : (ino : Int) - 1 = ((ino - 1 : Nat) : Int) := by
    have := hino.1
    omega
  unfold divMod
  rw [if_neg (by have := hL.inodesPerGroup_pos; omega), hcast]
  rfl

/-- **`freeInode`** clears the bit of the inode, and counts it. -/
theorem freeInode_wp [hL : L.Ok] (h : Mounted L s) (hino : L.HasInode ino) (wasDir : Bool) :
    (freeInode ino wasDir).wp (fun _ s' => After L s ∅ ((vol L s).giveInode L ino wasDir) s')
      (fun _ _ => ¬ ((counters s).add (L.inodeGroup ino) 0 1 (if wasDir then -1 else 0)).Fits
        (L.inodeGroup ino)) s := by
  have hg := L.inodeGroup_lt hino
  have harea : L.HasArea (L.inodeBitArea ino) := hg
  obtain ⟨d, hd, -, hib, -, hcount⟩ := bgdGet_eq h.tables hg
  simp only [freeInode, wp_bind, wp_get, wp_lift, h.tables.inodesPerGroup, divMod_ino hino, hd, hib]
  have hindex := L.inodeIndex_lt ino
  have hbound := hL.inodesPerGroup_le
  refine release_wp h harea
    (L.not_isHeader harea (by simp [Layout.inodeBitArea]) (by simp [Layout.inodeBitArea]))
    (by omega) (fun d k hd => volume_update_inodeBitmap hino hd) hg
    (k := (counters s).add (L.inodeGroup ino) 0 1 (if wasDir then -1 else 0)) ?_ ?_ fun _ hk => hk
  · rw [Counters.add, hcount]
    cases wasDir
    · simp only [add_zero, Bool.false_eq_true, if_false]
    · rfl
  · simp only [Counters.add, counters, add_zero]

/-- Where an inode lies. -/
theorem inodeLocation_eq [L.Ok] (h : Tables L s) (hino : L.HasInode ino) :
    inodeLocation s ino = .ok (L.block (L.inodeArea ino), L.inodeOffset ino % L.blockSize) := by
  obtain ⟨d, hd, -, -, hit⟩ := bgdGet_eq h (L.inodeGroup_lt hino)
  simp only [inodeLocation, h.inodesPerGroup, divMod_ino hino, Bind.bind, Except.bind, hd, hit,
    h.inodeSize, h.blockSize, pure, Except.pure]
  rfl

theorem inodeArea_lt [hL : L.Ok] (hino : L.HasInode ino) :
    L.block (L.inodeArea ino) < L.blocksCount ∧ L.block (L.inodeArea ino) ≠ L.superBlock :=
  ⟨(hL.area_lt _ (L.hasArea_inodeArea hino)).2,
    L.area_ne (b := .super) (L.hasArea_inodeArea hino) trivial (by simp [Layout.inodeArea])⟩

section

variable (h : Mounted L s) (hino : L.HasInode ino)

include h hino

theorem Mounted.length_inode [L.Ok] : ((vol L s).inode ino).length = L.inodeSize := by
  rw [vol, volume_inode hino, length_slice, h.tables.length_blocks (inodeArea_lt hino).1]
  have := L.inode_in_block ino
  omega

/-- **`readInode`** returns the inode. -/
theorem readInode_wp [L.Ok] :
    (readInode ino).returns (fun raw s' => raw = (vol L s).inode ino ∧ Same L s s') s := by
  obtain ⟨hlt, hsuper⟩ := inodeArea_lt hino
  simp only [readInode, wp_bind, wp_get, wp_lift, inodeLocation_eq h.tables hino]
  refine wp_imp (readBlock_load_wp h hlt hsuper) ?_
  rintro r s1 ⟨hreads, hr, hheap⟩
  simp only [load_wp, wp_pure, hheap, h.tables.inodeSize]
  exact ⟨(volume_inode hino).symm, hreads.after h⟩

/-- **`writeInode`** replaces the inode. -/
theorem writeInode_wp [L.Ok] {raw : Bytes} (hraw : raw.length = L.inodeSize) :
    (writeInode ino raw).returns (fun _ s' => After L s ∅ ((vol L s).setInode ino raw) s') s := by
  obtain ⟨hlt, hsuper⟩ := inodeArea_lt hino
  have hlen := h.tables.length_blocks hlt
  have hfits := L.inode_in_block ino
  simp only [writeInode, wp_bind, wp_get]
  rw [if_neg (by rw [hraw, h.tables.inodeSize]; exact fun hne => hne rfl)]
  simp only [wp_bind, wp_lift, inodeLocation_eq h.tables hino]
  refine wp_imp (readBlock_load_wp h hlt hsuper) ?_
  rintro r s1 ⟨hreads, hr, hheap⟩
  refine wp_mono (writeBack_wp hreads.mounted hlt hsuper hr fun d hd => ?_) ?_ ?_
  · rw [← Except.ok.inj hd, hreads.blocks_eq, length_splice (by rw [hlen, hraw]; exact hfits), hlen]
  · rintro - s2 ⟨d, hd, hw⟩
    rw [hreads.blocks_eq] at hd
    cases hd
    have hw' := hreads.wrote hw
    have harea := L.hasArea_inodeArea hino
    have hleaves := hw'.leaves harea (V := (vol L s).setInode ino raw)
      (fun _ => volume_update_inode hino hraw hlen) (Quiet.refl hw.mounted)
    rw [counters_congr hw'.sb hw'.bgdt] at hleaves
    exact ⟨hleaves, hw'.synced h
      (L.not_isHeader harea (by simp [Layout.inodeArea]) (by simp [Layout.inodeArea]))⟩
  · rintro e s2 ⟨-, herr⟩
    cases herr

end

end

end PythonOS.Ext2
