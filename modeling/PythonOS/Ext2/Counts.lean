import PythonOS.Ext2.Alloc
import PythonOS.Lib.Tally

/-!
# PythonOS.Ext2.Counts

The counters of a volume are right if they count the bits that are clear. Then an
allocation raises exactly if there is nothing left to allocate.

`Steady L s s'` is what every function on files and directories does apart from what it
is for: what it changes is on the device, and the counters stay right.
-/

namespace PythonOS.Ext2

open Lib Lib.Bytes Function

namespace Layout

variable (L : Layout)

/-- A block that is free. -/
def Fresh (V : Volume) (b : Nat) : Prop := L.InRange b ∧ V.used b = false

/-- An inode that is free. -/
def FreshInode (V : Volume) (ino : Nat) : Prop := L.HasInode ino ∧ V.inodeUsed ino = false

end Layout

/-- The counters count what is free. -/
structure Counts (L : Layout) (V : Volume) : Prop where
  blocks : Tally (fun _ => ()) (L.Fresh V) fun _ => V.counters.freeBlocks
  inodes : Tally (fun _ => ()) (L.FreshInode V) fun _ => V.counters.freeInodes
  groupBlocks : Tally L.blockGroup (L.Fresh V) fun g => (V.counters.group g).freeBlocks
  groupInodes : Tally L.inodeGroup (L.FreshInode V) fun g => (V.counters.group g).freeInodes

namespace Counts

variable {L : Layout} {V V' : Volume}

/-- Nothing that is counted has changed. -/
theorem congr (h : Counts L V) (hused : ∀ b, V'.used b = V.used b)
    (hinode : ∀ ino, V'.inodeUsed ino = V.inodeUsed ino) (hk : V'.counters = V.counters) :
    Counts L V' := by
  have hb : ∀ b, L.Fresh V' b ↔ L.Fresh V b := fun b => by rw [Layout.Fresh, hused]; rfl
  have hi : ∀ ino, L.FreshInode V' ino ↔ L.FreshInode V ino := fun ino => by
    rw [Layout.FreshInode, hinode]
    rfl
  exact ⟨h.blocks.congr hb fun _ => by rw [hk], h.inodes.congr hi fun _ => by rw [hk],
    h.groupBlocks.congr hb fun _ => by rw [hk], h.groupInodes.congr hi fun _ => by rw [hk]⟩

/-- A counter of the groups after one of them was counted anew. -/
theorem group_add (k : Counters) (g : Nat) (blocks inodes dirs : Int) :
    (fun x => ((k.add g blocks inodes dirs).group x).freeBlocks) =
        update (fun x => (k.group x).freeBlocks) g ((k.group g).freeBlocks + blocks) ∧
      (fun x => ((k.add g blocks inodes dirs).group x).freeInodes) =
        update (fun x => (k.group x).freeInodes) g ((k.group g).freeInodes + inodes) ∧
      (fun x => ((k.add g blocks inodes dirs).group x).usedDirs) =
        update (fun x => (k.group x).usedDirs) g ((k.group g).usedDirs + dirs) := by
  refine ⟨funext fun x => ?_, funext fun x => ?_, funext fun x => ?_⟩ <;>
  · simp only [Counters.add, update_apply]
    split <;> rfl

section

variable (h : Counts L V)

include h

theorem takeBlock {b : Nat} (hb : L.Fresh V b) : Counts L (V.takeBlock L b) := by
  obtain ⟨hfb, hfi, -⟩ := group_add V.counters (L.blockGroup b) (-1) 0 0
  have hq : ∀ x, L.Fresh (V.takeBlock L b) x ↔ L.Fresh V x ∧ x ≠ b := by
    intro x
    simp only [Layout.Fresh, Volume.used_takeBlock]
    by_cases hx : x = b <;> simp [hx]
  refine ⟨h.blocks.drop hb hq (funext fun _ => ?_), h.inodes.congr (fun _ => .rfl) fun _ => ?_,
    h.groupBlocks.drop hb hq hfb, h.groupInodes.congr (fun _ => .rfl) fun g => ?_⟩
  · simp [Volume.takeBlock, Counters.add, Int.sub_eq_add_neg]
  · simp [Volume.takeBlock, Counters.add]
  · refine (congrFun hfi g).trans ?_
    simp

theorem giveBlock {b : Nat} (hb : L.InRange b) (hused : V.used b = true) :
    Counts L (V.giveBlock L b) := by
  obtain ⟨hfb, hfi, -⟩ := group_add V.counters (L.blockGroup b) 1 0 0
  have hq : ∀ x, L.Fresh (V.giveBlock L b) x ↔ L.Fresh V x ∨ x = b := by
    intro x
    simp only [Layout.Fresh, Volume.used_giveBlock]
    by_cases hx : x = b
    · simp [hx, hb]
    · simp [hx]
  have hnot : ¬ L.Fresh V b := fun hc => by simp [hc.2] at hused
  refine ⟨h.blocks.put hnot hq (funext fun _ => ?_), h.inodes.congr (fun _ => .rfl) fun _ => ?_,
    h.groupBlocks.put hnot hq hfb, h.groupInodes.congr (fun _ => .rfl) fun g => ?_⟩
  · simp [Volume.giveBlock, Counters.add]
  · simp [Volume.giveBlock, Counters.add]
  · refine (congrFun hfi g).trans ?_
    simp

theorem takeInode {ino : Nat} (hi : L.FreshInode V ino) (isDir : Bool) :
    Counts L (V.takeInode L ino isDir) := by
  obtain ⟨hfb, hfi, -⟩ := group_add V.counters (L.inodeGroup ino) 0 (-1) (if isDir then 1 else 0)
  have hq : ∀ x, L.FreshInode (V.takeInode L ino isDir) x ↔ L.FreshInode V x ∧ x ≠ ino := by
    intro x
    simp only [Layout.FreshInode, Volume.inodeUsed_takeInode]
    by_cases hx : x = ino <;> simp [hx]
  refine ⟨h.blocks.congr (fun _ => .rfl) fun _ => ?_, h.inodes.drop hi hq (funext fun _ => ?_),
    h.groupBlocks.congr (fun _ => .rfl) fun g => ?_, h.groupInodes.drop hi hq hfi⟩
  · simp [Volume.takeInode, Counters.add]
  · simp [Volume.takeInode, Counters.add, Int.sub_eq_add_neg]
  · refine (congrFun hfb g).trans ?_
    simp

/-- If the counters are right, `allocBlock` raises only if every block is in use. -/
theorem not_fresh_of_noBlock [L.Ok] (hno : NoBlock L V) (b : Nat) : ¬ L.Fresh V b := by
  obtain ⟨g, hg, hbelow, hlast⟩ := hno
  intro hb
  have hpos : 0 < (V.counters.group (L.blockGroup b)).freeBlocks := h.groupBlocks.pos hb
  rcases Nat.lt_or_ge (L.blockGroup b) g with hlt | hge
  · have := hbelow _ hlt
    omega
  · obtain ⟨hne, hfull⟩ := hlast (Nat.lt_of_le_of_lt hge (L.blockGroup_lt hb.1))
    refine hne ((h.groupBlocks.eq_zero_iff g).mpr fun x hx hxg => ?_)
    exact absurd (hfull x hx.1 hxg) (by simp [hx.2])

theorem not_freshInode_of_noInode [L.Ok] (hno : NoInode L V) (ino : Nat) :
    ¬ L.FreshInode V ino := by
  obtain ⟨g, hg, hbelow, hlast⟩ := hno
  intro hi
  have hpos : 0 < (V.counters.group (L.inodeGroup ino)).freeInodes := h.groupInodes.pos hi
  rcases Nat.lt_or_ge (L.inodeGroup ino) g with hlt | hge
  · have := hbelow _ hlt
    omega
  · obtain ⟨hne, hfull⟩ := hlast (Nat.lt_of_le_of_lt hge (L.inodeGroup_lt hi.1))
    refine hne ((h.groupInodes.eq_zero_iff g).mpr fun x hx hxg => ?_)
    exact absurd (hfull x hx.1 hxg) (by simp [hx.2])

end

end Counts

section

variable {L : Layout} {s : Ext2FS}

/-- Counters that were read from the device fit their fields. -/
theorem Synced.fits (h : Tables L s) (hs : Synced L s) (g : Nat) : (counters s).Fits g := by
  have hparse := hs.parse
  rw [Superblock.parse_eq h.rawLength] at hparse
  split at hparse
  · cases hparse
  · have hsb := Except.ok.inj hparse
    have hfb : s.sb.freeBlocksCount = leAt 4 s.sb.raw 12 := by rw [← hsb]
    have hfi : s.sb.freeInodesCount = leAt 4 s.sb.raw 16 := by rw [← hsb]
    have h12 := leAt_lt (w := 4) s.sb.raw 12
    have h16 := leAt_lt (w := 4) s.sb.raw 16
    have hg := fun off => leAt_lt (w := 2) (s.bgdt.getD g []) off
    have hg12 := hg 12
    have hg14 := hg 14
    have hg16 := hg 16
    simp only [Counters.Fits, counters, hfb, hfi]
    omega

/-- If the counters are right, a block that is free can be counted. -/
theorem Counts.fits_takeBlock (h : Counts L (vol L s)) {b : Nat}
    (hfits : (counters s).Fits (L.blockGroup b)) (hb : L.Fresh (vol L s) b) :
    ((counters s).add (L.blockGroup b) (-1) 0 0).Fits (L.blockGroup b) := by
  have htotal : 0 < (counters s).freeBlocks := h.blocks.pos hb
  have hgroup : 0 < ((counters s).group (L.blockGroup b)).freeBlocks := h.groupBlocks.pos hb
  simp only [Counters.Fits, Counters.add, update_self] at hfits ⊢
  omega

/-- If the counters are right, an allocation that raises leaves everything as it was, and
there is no free block. -/
theorem AllocFailed.full [L.Ok] {s' : Ext2FS} (hf : AllocFailed L s s')
    (hc : Counts L (vol L s)) (ht : Tables L s) (hs : Synced L s) :
    Same L s s' ∧ ∀ b, ¬ L.Fresh (vol L s) b := by
  rcases hf with ⟨hafter, hno⟩ | ⟨b, k, hb, hfree, hnot, -⟩
  · exact ⟨hafter, hc.not_fresh_of_noBlock hno⟩
  · exact absurd (hc.fits_takeBlock (hs.fits ht _) ⟨hb, hfree⟩) hnot

/-- What is changed is on the device, and the counters stay right; directories are not
counted. -/
structure Steady (L : Layout) (s s' : Ext2FS) : Prop where
  synced : Synced L s → Synced L s'
  counts : Counts L (vol L s) → Counts L (vol L s')
  dirs : ∀ g, ((counters s').group g).usedDirs = ((counters s).group g).usedDirs

namespace Steady

variable {s1 s2 : Ext2FS} {T : Set Nat} {V : Volume}

theorem refl (L : Layout) (s : Ext2FS) : Steady L s s := ⟨id, id, fun _ => rfl⟩

theorem trans (h : Steady L s s1) (h' : Steady L s1 s2) : Steady L s s2 :=
  ⟨fun hs => h'.synced (h.synced hs), fun hc => h'.counts (h.counts hc),
    fun g => (h'.dirs g).trans (h.dirs g)⟩

end Steady

namespace After

variable {s1 : Ext2FS} {T : Set Nat} {V : Volume}

theorem counters_eq (h : After L s T V s1) : counters s1 = V.counters := by
  rw [← h.vol_eq]
  rfl

/-- No bit and no counter has changed. -/
theorem steady (h : After L s T V s1) (hused : ∀ b, V.used b = (vol L s).used b)
    (hinode : ∀ ino, V.inodeUsed ino = (vol L s).inodeUsed ino) (hk : V.counters = counters s) :
    Steady L s s1 where
  synced := h.synced
  counts hc := by rw [h.vol_eq]; exact hc.congr hused hinode hk
  dirs g := by rw [h.counters_eq, hk]

/-- Nothing of the volume has changed. -/
theorem steady_self (h : After L s T (vol L s) s1) : Steady L s s1 :=
  h.steady (fun _ => rfl) (fun _ => rfl) rfl

theorem steady_giveBlock {b : Nat} (h : After L s T ((vol L s).giveBlock L b) s1)
    (hb : L.InRange b) (hused : (vol L s).used b = true) : Steady L s s1 where
  synced := h.synced
  counts hc := by rw [h.vol_eq]; exact hc.giveBlock hb hused
  dirs g := by
    rw [h.counters_eq]
    refine (congrFun (Counts.group_add _ _ _ _ _).2.2 g).trans ?_
    simp [vol, volume]

end After

end

end PythonOS.Ext2
