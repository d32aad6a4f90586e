import PythonOS.Ext2.Directory

/-!
# PythonOS.Ext2.Nodes

What `create` and `unlink` are made of, apart from the entries of directories: an inode
comes into use, its link count changes, and it is given back with its blocks.

`Edited L M S V V'` says that nothing outside the inodes `S` has changed.
-/

namespace PythonOS.Ext2

open Lib List Lib.Bytes

/-- Nothing was changed but the inodes `S` and their files. -/
structure Edited (L : Layout) (M : Set Nat) (S : Set Nat) (V V' : Volume) : Prop where
  own : Own L M V'
  inodeUsed : ∀ x, x ∉ S → V'.inodeUsed x = V.inodeUsed x
  inode : ∀ x, x ∉ S → V'.inode x = V.inode x
  leaf : ∀ τ, L.shape.Leaf τ → τ.1.1 ∉ S → leafData L V' τ = leafData L V τ
  exact : Exact L M V → Exact L M V'

namespace Edited

variable {L : Layout} {M S S' : Set Nat} {V V' V'' : Volume} {ino : Nat}

theorem mono (h : Edited L M S V V') (hS : S ⊆ S') : Edited L M S' V V' :=
  ⟨h.own, fun x hx => h.inodeUsed x fun hm => hx (hS hm),
    fun x hx => h.inode x fun hm => hx (hS hm),
    fun τ hτ hx => h.leaf τ hτ fun hm => hx (hS hm), h.exact⟩

theorem trans (h : Edited L M S V V') (h' : Edited L M S V' V'') : Edited L M S V V'' :=
  ⟨h'.own, fun x hx => (h'.inodeUsed x hx).trans (h.inodeUsed x hx),
    fun x hx => (h'.inode x hx).trans (h.inode x hx),
    fun τ hτ hx => (h'.leaf τ hτ hx).trans (h.leaf τ hτ hx), fun he => h'.exact (h.exact he)⟩

theorem directory {D : List (List Record)} (h : Edited L M S V V') (hx : ino ∉ S)
    (hd : Directory L V ino D) : Directory L V' ino D :=
  ⟨by rw [h.inode ino hx]; exact hd.mode, by rw [h.inode ino hx]; exact hd.size, hd.le,
    hd.tiled.congr fun k _ hk => h.leaf _ (Layout.leaf_fileSlot (by have := hd.le; omega))
      (by rw [Layout.fileSlot_fst]; exact hx)⟩

theorem live {s s' : Ext2FS} (h : Edited L M S (vol L s) (vol L s')) (hm : Mounted L s')
    (hx : ino ∉ S) (hi : Live L M s ino) : Live L M s' ino :=
  ⟨hm, h.own, (h.inodeUsed ino hx).trans hi.inodeUsed, by rw [h.inode ino hx]; exact hi.kind⟩

end Edited

variable {L : Layout}

theorem Touched.edited {M : Set Nat} {ino : Nat} {V V' : Volume} (h : Touched L M ino V V') :
    Edited L M {ino} V V' :=
  ⟨h.own, fun x _ => h.inodeUsed x, fun x hx => h.inode x hx, fun τ hτ hx => h.other τ hτ hx,
    h.exact⟩

/-- What reaches the device, and the counters: `dirs` says how the counts of directories
change. -/
structure Recounted (L : Layout) (s s' : Ext2FS) (dirs : Nat → Int) : Prop where
  synced : Synced L s → Synced L s'
  counts : Counts L (vol L s) → Counts L (vol L s')
  dirs : ∀ g, ((counters s').group g).usedDirs = ((counters s).group g).usedDirs + dirs g

theorem Recounted.steady {s s1 s2 : Ext2FS} {d : Nat → Int} (h : Recounted L s s1 d)
    (h' : Steady L s1 s2) : Recounted L s s2 d :=
  ⟨fun hs => h'.synced (h.synced hs), fun hc => h'.counts (h.counts hc),
    fun g => by rw [h'.dirs, h.dirs]⟩

theorem Recounted.of_steady {s s1 s2 : Ext2FS} {d : Nat → Int} (h : Steady L s s1)
    (h' : Recounted L s1 s2 d) : Recounted L s s2 d :=
  ⟨fun hs => h'.synced (h.synced hs), fun hc => h'.counts (h.counts hc),
    fun g => by rw [h'.dirs, h.dirs]⟩

section

variable {L : Layout} {M : Set Nat} {V : Volume} {ino : Nat}

/-- Every slot has the block that it had, so every file holds what it held. -/
theorem Own.edited (h : Own L M V) {S : Set Nat} (V' : Volume)
    (hat : ∀ τ, (forest V').blockAt τ = (forest V).blockAt τ) (hused : V'.used = V.used)
    (hdata : V'.data = V.data) (hinodeUsed : ∀ x, x ∉ S → V'.inodeUsed x = V.inodeUsed x)
    (hinode : ∀ x, x ∉ S → V'.inode x = V.inode x)
    (hexact : Exact L M V → ∀ x ∈ S, (V'.inodeUsed x = true →
      leAt 4 (V'.inode x) 28 = (blocksOf L V x).ncard * L.sectorsPerBlock) ∧
      (V'.Holds x → pointer (V'.inode x) 14 = 0)) :
    Edited L M S V V' ∧ ∀ τ, leafData L V' τ = leafData L V τ := by
  have hleaf : ∀ τ, leafData L V' τ = leafData L V τ := by
    intro τ
    rw [leafData, leafData, hat, hdata]
  have hreached : ∀ K, Forest.reached L.shape (forest V') K = Forest.reached L.shape (forest V) K :=
    fun K => Forest.reached_congr fun τ _ _ => hat τ
  refine ⟨⟨h.congr (fun τ _ => hat τ) fun b hb => by rw [hused, hb], hinodeUsed, hinode,
    fun τ _ _ => hleaf τ, fun he => ⟨fun b hb => ?_, fun x hx => ?_, fun x hx => ?_⟩⟩, hleaf⟩
  · rw [hreached]
    exact he.used b (by rw [← hused, hb])
  · rw [blocksOf, hreached, ← blocksOf]
    by_cases hxS : x ∈ S
    · exact (hexact he x hxS).1 hx
    · rw [hinode x hxS]
      exact he.iBlocks x (by rw [← hinodeUsed x hxS, hx])
  · by_cases hxS : x ∈ S
    · exact (hexact he x hxS).2 hx
    · rw [hinode x hxS]
      refine he.tind x ?_
      rwa [Volume.Holds, hinodeUsed x hxS, hinode x hxS] at hx

variable {V' : Volume} {raw : Bytes} {mode : Nat}

theorem blockAt_congr_root (hdata : V'.data = V.data)
    (hroot : ∀ x, ∀ n < 15, (V'.Holds x ∧ pointer (V'.inode x) n ≠ 0 ↔
      V.Holds x ∧ pointer (V.inode x) n ≠ 0) ∧
      (V.Holds x → pointer (V.inode x) n ≠ 0 → pointer (V'.inode x) n = pointer (V.inode x) n))
    (τ : Slot (Nat × Nat)) : (forest V').blockAt τ = (forest V).blockAt τ := by
  have hforest : forest V' = forest V := by
    have hr : (forest V').root = (forest V).root := by
      funext ⟨x, n⟩
      simp only [forest]
      by_cases hn : n < 15
      · obtain ⟨hiff, heq⟩ := hroot x n hn
        by_cases hv : V.Holds x ∧ pointer (V.inode x) n ≠ 0
        · rw [if_pos ⟨(hiff.mpr hv).1, hn⟩, if_pos ⟨hv.1, hn⟩, heq hv.1 hv.2]
        · have hv' := fun hc => hv (hiff.mp hc)
          split
          · next hc =>
            have hz : pointer (V'.inode x) n = 0 := by
              by_contra hne
              exact hv' ⟨hc.1, hne⟩
            rw [hz]
            split
            · next hc' =>
              by_contra hne
              exact hv ⟨hc'.1, fun hz' => hne hz'.symm⟩
            · rfl
          · split
            · next hc' =>
              by_contra hne
              exact hv ⟨hc'.1, fun hz' => hne hz'.symm⟩
            · rfl
      · rw [if_neg fun hc => hn hc.2, if_neg fun hc => hn hc.2]
    have hnext : (forest V').next = (forest V).next := by
      funext b i
      rw [forest_next, forest_next, hdata]
    calc forest V' = ⟨(forest V').root, (forest V').next⟩ := rfl
      _ = ⟨(forest V).root, (forest V).next⟩ := by rw [hr, hnext]
      _ = forest V := rfl
  rw [hforest]

/-! ### Link counts -/

theorem iLinks_eq (hraw : 128 ≤ raw.length) : iLinks raw = .ok (leAt 2 raw 26) := by
  unfold iLinks
  rw [unpack_eq ⟨by omega, by omega⟩]
  rfl

/-- The inode with another link count. -/
def setLinks (raw : Bytes) (v : Nat) : Bytes := putLe 2 raw 26 v

theorem setILinks_eq (hraw : 128 ≤ raw.length) {v : Int} (hlo : 0 ≤ v) (hv : v.toNat < 256 ^ 2) :
    setILinks raw v = .ok (setLinks raw v.toNat) := by
  unfold setILinks
  rw [pack_eq ⟨by omega, by omega⟩ ⟨hlo, hv⟩]
  rfl

section SetLinks

variable {raw : Bytes} (hraw : 128 ≤ raw.length) (v : Nat)

include hraw

theorem length_setLinks : (setLinks raw v).length = raw.length := length_putLe (by omega)

theorem links_setLinks (hv : v < 256 ^ 2) : leAt 2 (setLinks raw v) 26 = v :=
  leAt_putLe_self (by omega) hv

theorem leAt_setLinks {w off : Nat} (h : off + w ≤ 26 ∨ 28 ≤ off) :
    leAt w (setLinks raw v) off = leAt w raw off :=
  leAt_putLe_of_disjoint (by omega) h

theorem sizeOf_setLinks : sizeOf (setLinks raw v) = sizeOf raw := by
  unfold sizeOf
  rw [leAt_setLinks hraw v (.inl (by omega)), leAt_setLinks hraw v (.inl (by omega)),
    leAt_setLinks hraw v (.inr (by omega))]

theorem hasBlocks_setLinks : hasBlocks (setLinks raw v) ↔ hasBlocks raw := by
  unfold hasBlocks
  rw [leAt_setLinks hraw v (.inl (by omega)), sizeOf_setLinks hraw]

theorem pointer_setLinks (n : Nat) : pointer (setLinks raw v) n = pointer raw n :=
  leAt_setLinks hraw v (.inr (by omega))

end SetLinks

/-- The same blocks are in use, and in the same places. -/
structure SameBlocks (L : Layout) (V V' : Volume) : Prop where
  used : V'.used = V.used
  counters : V'.counters = V.counters
  inodeUsed : V'.inodeUsed = V.inodeUsed
  kind : ∀ x, hasBlocks (V'.inode x) ↔ hasBlocks (V.inode x)
  pointer : ∀ x n, pointer (V'.inode x) n = pointer (V.inode x) n
  blockAt : ∀ τ, L.shape.Valid τ → (forest V').blockAt τ = (forest V).blockAt τ

theorem Rewritten.sameBlocks (h : Rewritten L V V') : SameBlocks L V V' :=
  ⟨h.used, h.counters, h.inodeUsed, fun x => by rw [h.inode], fun x n => by rw [h.inode], h.blockAt⟩

namespace SameBlocks

variable {V' V'' : Volume}

theorem trans (h : SameBlocks L V V') (h' : SameBlocks L V' V'') : SameBlocks L V V'' :=
  ⟨h'.used.trans h.used, h'.counters.trans h.counters, h'.inodeUsed.trans h.inodeUsed,
    fun x => (h'.kind x).trans (h.kind x), fun x n => (h'.pointer x n).trans (h.pointer x n),
    fun τ hτ => (h'.blockAt τ hτ).trans (h.blockAt τ hτ)⟩

theorem holds_iff (h : SameBlocks L V V') (x : Nat) : V'.Holds x ↔ V.Holds x := by
  rw [Volume.Holds, h.inodeUsed, h.kind, Volume.Holds]

theorem reached (h : SameBlocks L V V') (K : Set (Nat × Nat)) :
    Forest.reached L.shape (forest V') K = Forest.reached L.shape (forest V) K :=
  Forest.reached_congr fun τ hτ _ => h.blockAt τ hτ

end SameBlocks

section

variable (hraw : 128 ≤ (V.inode ino).length) (v : Nat)

include hraw

/-- A link count changes. -/
theorem blockAt_setLinks (τ : Slot (Nat × Nat)) :
    (forest (V.setInode ino (setLinks (V.inode ino) v))).blockAt τ = (forest V).blockAt τ := by
  have hother : ∀ x, x ≠ ino →
      (V.setInode ino (setLinks (V.inode ino) v)).inode x = V.inode x := fun x hx => by
    rw [Volume.inode_setInode, if_neg hx]
  have hself : (V.setInode ino (setLinks (V.inode ino) v)).inode ino =
      setLinks (V.inode ino) v := by
    rw [Volume.inode_setInode, if_pos rfl]
  have hholds : ∀ x, (V.setInode ino (setLinks (V.inode ino) v)).Holds x ↔ V.Holds x :=
    holds_congr (fun _ => rfl) hother (by rw [hself]; exact hasBlocks_setLinks hraw v)
  have hdata : (V.setInode ino (setLinks (V.inode ino) v)).data = V.data := rfl
  refine blockAt_congr_root hdata (fun x n _ => ?_) τ
  have hptr : pointer ((V.setInode ino (setLinks (V.inode ino) v)).inode x) n =
      pointer (V.inode x) n := by
    by_cases hx : x = ino
    · rw [hx, hself, pointer_setLinks hraw]
    · rw [hother x hx]
  exact ⟨by rw [hholds, hptr], fun _ _ => hptr⟩

theorem sameBlocks_setLinks : SameBlocks L V (V.setInode ino (setLinks (V.inode ino) v)) := by
  refine ⟨rfl, rfl, rfl, fun x => ?_, fun x n => ?_, fun τ _ => blockAt_setLinks hraw v τ⟩
  · rw [Volume.inode_setInode]
    split
    · next hx => rw [hx, hasBlocks_setLinks hraw]
    · exact .rfl
  · rw [Volume.inode_setInode]
    split
    · next hx => rw [hx, pointer_setLinks hraw]
    · rfl

/-- **A link count changes**, and nothing else. -/
theorem Own.edited_setLinks (h : Own L M V) :
    Edited L M {ino} V (V.setInode ino (setLinks (V.inode ino) v)) ∧
      ∀ τ, leafData L (V.setInode ino (setLinks (V.inode ino) v)) τ = leafData L V τ := by
  refine h.edited _ (blockAt_setLinks hraw v) rfl rfl (fun _ _ => rfl)
    (fun x hx => by rw [Volume.inode_setInode, if_neg (show x ≠ ino from hx)]) ?_
  rintro he x rfl
  rw [Volume.inode_setInode, if_pos rfl, leAt_setLinks hraw v (.inr (by omega)),
    pointer_setLinks hraw]
  have hsame : SameBlocks L V (V.setInode x (setLinks (V.inode x) v)) := sameBlocks_setLinks hraw v
  exact ⟨fun hu => he.iBlocks x hu, fun hh => he.tind x ((hsame.holds_iff x).mp hh)⟩

end

/-! ### A new inode -/

/-- An inode with a mode and one link. -/
structure Blank (raw : Bytes) (mode : Nat) : Prop where
  mode_eq : leAt 2 raw 0 = mode
  links : leAt 2 raw 26 = 1
  size : leAt 4 raw 4 = 0
  sizeHigh : leAt 4 raw 108 = 0
  iBlocks : leAt 4 raw 28 = 0
  pointer : ∀ n, pointer raw n = 0

theorem Blank.sizeOf (h : Blank raw mode) : sizeOf raw = 0 := by
  unfold Ext2.sizeOf
  rw [h.size, h.sizeHigh]
  simp

/-- One field of an inode is set. -/
theorem pack_exists {n : Nat} (hlen : raw.length = n) (w off v : Nat) (hoff : off + w ≤ n)
    (hv : v < 256 ^ w) :
    ∃ raw', pack w raw off v = .ok raw' ∧ raw'.length = n ∧ leAt w raw' off = v ∧
      ∀ w' off', off' + w' ≤ off ∨ off + w ≤ off' → leAt w' raw' off' = leAt w' raw off' := by
  refine ⟨putLe w raw off v, ?_, (length_putLe (by omega)).trans hlen,
    leAt_putLe_self (by omega) hv, fun w' off' hd => leAt_putLe_of_disjoint (by omega) hd⟩
  rw [pack_eq ⟨by omega, by omega⟩ ⟨by omega, by rwa [Int.toNat_natCast]⟩]
  rfl

/-- **The inode that `create` makes.** -/
theorem newInode_ok {n : Nat} (hn : 128 ≤ n) (hmode : mode < 256 ^ 2) :
    ∃ raw, newInode n mode = .ok raw ∧ raw.length = n ∧ Blank raw mode := by
  obtain ⟨r1, e1, l1, f1, o1⟩ := pack_exists (length_zeros n) 2 0 mode (by omega) hmode
  obtain ⟨r2, e2, l2, f2, o2⟩ := pack_exists l1 4 4 0 (by omega) (by omega)
  obtain ⟨r3, e3, l3, f3, o3⟩ := pack_exists l2 2 26 1 (by omega) (by omega)
  obtain ⟨r4, e4, l4, f4, o4⟩ := pack_exists l3 4 28 0 (by omega) (by omega)
  obtain ⟨r5, e5, l5, f5, o5⟩ := pack_exists l4 4 8 0 (by omega) (by omega)
  obtain ⟨r6, e6, l6, f6, o6⟩ := pack_exists l5 4 12 0 (by omega) (by omega)
  obtain ⟨r7, e7, l7, f7, o7⟩ := pack_exists l6 4 16 0 (by omega) (by omega)
  refine ⟨r7, ?_, l7, ?_, ?_, ?_, ?_, ?_, fun m => ?_⟩
  · have e1' : setIMode (zeros n) mode = .ok r1 := e1
    have e2' : pack 4 r1 4 0 = .ok r2 := e2
    have e3' : setILinks r2 1 = .ok r3 := e3
    have e4' : setIBlocks r3 0 = .ok r4 := e4
    have e5' : pack 4 r4 8 0 = .ok r5 := e5
    have e6' : pack 4 r5 12 0 = .ok r6 := e6
    simp only [newInode, bind, Except.bind, e1', e2', e3', e4', e5', e6']
    exact e7
  · simp (disch := omega) only [o7, o6, o5, o4, o3, o2, f1]
  · simp (disch := omega) only [o7, o6, o5, o4, f3]
  · simp (disch := omega) only [o7, o6, o5, o4, o3, f2]
  · simp (disch := omega) only [o7, o6, o5, o4, o3, o2, o1, leAt_zeros]
  · simp (disch := omega) only [o7, o6, o5, f4]
  · simp (disch := omega) only [Ext2.pointer, o7, o6, o5, o4, o3, o2, o1, leAt_zeros]

/-- An inode comes into use. -/
def Volume.addInode (V : Volume) (L : Layout) (ino : Nat) (isDir : Bool) (raw : Bytes) : Volume :=
  (V.takeInode L ino isDir).setInode ino raw

/-- **A new inode** has no blocks, and nothing else changes. -/
theorem Own.edited_addInode (h : Own L M V) (hfree : V.inodeUsed ino = false) (isDir : Bool)
    (hraw : Blank raw mode) :
    Edited L M {ino} V (V.addInode L ino isDir raw) ∧
      ∀ τ, leafData L (V.addInode L ino isDir raw) τ =
        if τ.1.1 = ino then zeros L.blockSize else leafData L V τ := by
  have hself : (V.addInode L ino isDir raw).inode ino = raw := by
    rw [Volume.addInode, Volume.inode_setInode, if_pos rfl]
  have hother : ∀ x, x ≠ ino → (V.addInode L ino isDir raw).inode x = V.inode x := fun x hx => by
    rw [Volume.addInode, Volume.inode_setInode, if_neg hx]
    rfl
  have hused : ∀ x, x ≠ ino → (V.addInode L ino isDir raw).inodeUsed x = V.inodeUsed x := by
    intro x hx
    refine (Volume.inodeUsed_takeInode V L ino x isDir).trans ?_
    rw [if_neg hx]
  have hnot : ¬ V.Holds ino := fun hh => absurd hh.1 (by rw [hfree]; decide)
  have hat : ∀ τ, (forest (V.addInode L ino isDir raw)).blockAt τ = (forest V).blockAt τ :=
      blockAt_congr_root rfl fun x n _ => by
    by_cases hx : x = ino
    · subst hx
      rw [hself, hraw.pointer]
      exact ⟨by simp [hnot], fun hh => absurd hh hnot⟩
    · rw [Volume.Holds, hused x hx, hother x hx]
      exact ⟨.rfl, fun _ _ => rfl⟩
  obtain ⟨hedit, hleaf⟩ := h.edited (S := {ino}) _ hat rfl rfl hused hother (by
    rintro - x rfl
    rw [hself, hraw.iBlocks, hraw.pointer]
    refine ⟨fun _ => ?_, fun _ => rfl⟩
    have hempty : blocksOf L V x = ∅ := by
      refine Set.eq_empty_of_forall_notMem ?_
      rintro b ⟨hz, τ, -, hk, rfl⟩
      exact hz (blockAt_of_not_holds (by rwa [hk]))
    rw [hempty, Set.ncard_empty, Nat.zero_mul])
  refine ⟨hedit, fun τ => ?_⟩
  rw [hleaf]
  split
  · next hτ => rw [leafData, if_pos (blockAt_of_not_holds (by rwa [hτ]))]
  · rfl

/-! ### An inode is given back -/

/-- The pointers of an inode that `unlink` follows are block numbers, or there are none. -/
def Volume.Plain (V : Volume) (ino : Nat) : Prop :=
  V.Holds ino ∨ ∀ n < 14, pointer (V.inode ino) n = 0

theorem SameBlocks.plain (h : SameBlocks L V V') {x : Nat} (hx : V.Plain x) : V'.Plain x := by
  rw [Volume.Plain, h.holds_iff]
  refine hx.imp id fun hz n hn => ?_
  rw [h.pointer, hz n hn]

/-- An inode and the blocks that `freeAllBlocks` finds are given back. -/
def Volume.dropInode (V : Volume) (L : Layout) (ino : Nat) (wasDir : Bool) : Volume :=
  ((V.giveBlocks L (inodeBlocks L V.data (V.inode ino))).setInode ino (zeros L.inodeSize)).giveInode
    L ino wasDir

theorem inodeBlocks_congr {data : Nat → Bytes} {raw' : Bytes}
    (h : ∀ n < 14, pointer raw' n = pointer raw n) :
    inodeBlocks L data raw' = inodeBlocks L data raw :=
  flatMap_congr fun n hn => pointerBlocks_congr (h n (mem_range.mp hn))

theorem inodeBlocks_eq_nil {data : Nat → Bytes} (h : ∀ n < 14, pointer raw n = 0) :
    inodeBlocks L data raw = [] := by
  refine flatMap_eq_nil_iff.mpr fun n hn => ?_
  rw [pointerBlocks, if_pos (h n (mem_range.mp hn))]

section

variable (h : Own L M V) (hplain : V.Plain ino)

include h hplain

/-- The blocks that are freed are blocks of the inode. -/
theorem Own.slot_of_mem_inodeBlocks [L.Ok] {b : Nat} (hb : b ∈ inodeBlocks L V.data (V.inode ino)) :
    ∃ τ, L.shape.Valid τ ∧ τ.1.1 = ino ∧ (forest V).blockAt τ ≠ 0 ∧ (forest V).blockAt τ = b := by
  rcases hplain with hholds | hzero
  · obtain ⟨hz, τ, hτ, hk, rfl⟩ := (mem_inodeBlocks h hholds b).mp hb
    exact ⟨τ, hτ, hk.1, hz, rfl⟩
  · rw [inodeBlocks_eq_nil hzero] at hb
    cases hb

theorem Own.taken_of_mem_inodeBlocks [L.Ok] {b : Nat}
    (hb : b ∈ inodeBlocks L V.data (V.inode ino)) : Taken L M V b := by
  obtain ⟨τ, hτ, -, hz, rfl⟩ := h.slot_of_mem_inodeBlocks hplain hb
  exact h.owned.taken τ hτ hz

theorem nodup_inodeBlocks_of_plain [L.Ok] : (inodeBlocks L V.data (V.inode ino)).Nodup := by
  rcases hplain with hholds | hzero
  · exact nodup_inodeBlocks h hholds
  · rw [inodeBlocks_eq_nil hzero]
    exact nodup_nil

end

section Drop

variable (wasDir : Bool)

theorem inode_dropInode (x : Nat) : (V.dropInode L ino wasDir).inode x =
    if x = ino then zeros L.inodeSize else V.inode x := by
  refine (Volume.inode_setInode _ ino x _).trans ?_
  rw [Volume.inode_giveBlocks]

theorem inodeUsed_dropInode (x : Nat) : (V.dropInode L ino wasDir).inodeUsed x =
    if x = ino then false else V.inodeUsed x := by
  refine (Volume.inodeUsed_setInodeUsed ..).trans ?_
  split
  · rfl
  · exact congrFun (Volume.inodeUsed_giveBlocks V L _) x

theorem used_dropInode (b : Nat) : (V.dropInode L ino wasDir).used b = true ↔
    V.used b = true ∧ b ∉ inodeBlocks L V.data (V.inode ino) :=
  Volume.used_giveBlocks V L _ b

theorem data_dropInode : (V.dropInode L ino wasDir).data = V.data :=
  Volume.data_giveBlocks V L _

theorem usedDirs_dropInode (g : Nat) :
    ((V.dropInode L ino wasDir).counters.group g).usedDirs = (V.counters.group g).usedDirs +
      if wasDir ∧ L.inodeGroup ino = g then -1 else 0 := by
  have hadd := congrFun (Counts.group_add
    (V.giveBlocks L (inodeBlocks L V.data (V.inode ino))).counters
    (L.inodeGroup ino) 0 1 (if wasDir then -1 else 0)).2.2 g
  refine hadd.trans ?_
  rw [Function.update_apply]
  by_cases hg : g = L.inodeGroup ino
  · subst hg
    rw [if_pos rfl, Volume.usedDirs_giveBlocks]
    simp
  · rw [if_neg hg, Volume.usedDirs_giveBlocks, if_neg fun hc => hg hc.2.symm, Int.add_zero]

/-- **An inode goes**, with its blocks, and nothing else changes. -/
theorem Own.edited_dropInode [L.Ok] (h : Own L M V) (hplain : V.Plain ino) :
    Edited L M {ino} V (V.dropInode L ino wasDir) := by
  have hother : ∀ x, x ≠ ino → (V.dropInode L ino wasDir).inode x = V.inode x := fun x hx => by
    rw [inode_dropInode, if_neg hx]
  have hused : ∀ x, x ≠ ino → (V.dropInode L ino wasDir).inodeUsed x = V.inodeUsed x :=
    fun x hx => by rw [inodeUsed_dropInode, if_neg hx]
  have hgone : ∀ τ : Slot (Nat × Nat), τ.1.1 = ino →
      (forest (V.dropInode L ino wasDir)).blockAt τ = 0 := by
    intro τ hτ
    refine blockAt_of_not_holds fun hh => ?_
    rw [hτ, Volume.Holds, inodeUsed_dropInode, if_pos rfl] at hh
    exact absurd hh.1 (by decide)
  have hstays : ∀ τ : Slot (Nat × Nat), τ.1.1 ≠ ino →
      (forest (V.dropInode L ino wasDir)).blockAt τ = (forest V).blockAt τ := by
    rintro ⟨⟨x, n⟩, p⟩ hx
    have hholds : (V.dropInode L ino wasDir).Holds x ↔ V.Holds x := by
      rw [Volume.Holds, hused x hx, hother x hx]
      rfl
    have hroot : (forest (V.dropInode L ino wasDir)).root (x, n) = (forest V).root (x, n) := by
      simp only [forest, hholds, hother x hx]
    rw [Forest.blockAt, Forest.blockAt, hroot]
    rw [show (forest (V.dropInode L ino wasDir)).next = (forest V).next by
      funext b i
      rw [forest_next, forest_next, data_dropInode]]
  have hkeeps : ∀ τ, L.shape.Valid τ → τ.1.1 ≠ ino → (forest V).blockAt τ ≠ 0 →
      (forest V).blockAt τ ∉ inodeBlocks L V.data (V.inode ino) := by
    intro τ hτ hx hz hmem
    obtain ⟨σ, hσ, hi, -, heq⟩ := h.slot_of_mem_inodeBlocks hplain hmem
    rw [h.owned.inj τ σ hτ hσ hz heq.symm] at hx
    exact hx hi
  have hreached : ∀ x, x ≠ ino → blocksOf L (V.dropInode L ino wasDir) x = blocksOf L V x :=
    fun x hx => Forest.reached_congr fun τ _ hk => hstays τ fun hc => hx (Eq.trans (Eq.symm hk) hc)
  refine ⟨⟨h.owned.mono (fun τ hτ hz => ?_) fun τ hτ hz ht => ?_, fun b hb hr => ?_,
    h.areas⟩, hused,
    hother, fun τ hτ hx => ?_, fun he => ⟨fun b hb => ?_, fun x hx => ?_, fun x hx => ?_⟩⟩
  · exact hstays τ fun hx => hz (hgone τ hx)
  · have hx : τ.1.1 ≠ ino := fun hx => hz (hgone τ hx)
    rw [hstays τ hx] at hz ht ⊢
    exact ⟨ht.1, ht.2.1, (used_dropInode wasDir _).mpr ⟨ht.2.2, hkeeps τ hτ hx hz⟩⟩
  · refine (used_dropInode wasDir b).mpr ⟨h.metaUsed b hb hr, fun hmem => ?_⟩
    exact (h.taken_of_mem_inodeBlocks hplain hmem).2.1 hb
  · rw [leafData, leafData, hstays τ hx, data_dropInode]
  · obtain ⟨hub, hnot⟩ := (used_dropInode wasDir b).mp hb
    refine (he.used b hub).imp id ?_
    rintro ⟨hz, τ, hτ, -, rfl⟩
    have hx : τ.1.1 ≠ ino := by
      rintro rfl
      have hholds : V.Holds τ.1.1 := by
        by_contra hc
        exact hz (blockAt_of_not_holds hc)
      rcases Nat.lt_or_ge τ.1.2 14 with hlt | hge
      · exact hnot ((mem_inodeBlocks h hholds _).mpr ⟨hz, τ, hτ, ⟨rfl, hlt⟩, rfl⟩)
      · -- the triple-indirect pointer is not in use
        refine hz (Forest.blockAt_of_root_eq_zero ?_)
        show (if V.Holds τ.1.1 ∧ τ.1.2 < 15 then pointer (V.inode τ.1.1) τ.1.2 else 0) = 0
        split
        · next hc => rw [show τ.1.2 = 14 by omega, he.tind _ hholds]
        · rfl
    exact ⟨hz, τ, hτ, trivial, hstays τ hx⟩
  · rw [inodeUsed_dropInode] at hx
    split at hx
    · exact absurd hx (by decide)
    · next hne => rw [hother x hne, hreached x hne, he.iBlocks x hx]
  · rw [Volume.Holds, inodeUsed_dropInode] at hx
    split at hx
    · exact absurd hx.1 (by decide)
    · next hne =>
      rw [hother x hne] at hx ⊢
      exact he.tind x hx

end Drop

/-- **`releaseInode`** gives the inode and its blocks back; `raw` may be an old copy of
the inode, with the same pointers. -/
theorem releaseInode_wp [L.Ok] {s : Ext2FS} (h : Mounted L s) (ho : Own L M (vol L s))
    (hino : L.HasInode ino) (hplain : (vol L s).Plain ino) (hraw : 128 ≤ raw.length)
    (hptr : ∀ n < 14, pointer raw n = pointer ((vol L s).inode ino) n) (wasDir : Bool) :
    (releaseInode ino raw wasDir).wlp
      (fun _ s' => After L s ∅ ((vol L s).dropInode L ino wasDir) s') s := by
  have hok : ∀ m < 14, pointer raw m ≠ 0 → TreeOk L (vol L s).data (m - 11) (pointer raw m) := by
    intro m hm hz
    rw [hptr m hm] at hz ⊢
    rcases hplain with hholds | hzero
    · exact treeOk_pointer ho hholds (by omega) hz
    · exact absurd (hzero m hm) hz
  refine Coro.wp_bind_ok (freeAllBlocks_wp h hraw rfl hok) ?_
  rintro - s1 ha1
  simp only [Coro.wp_bind, Coro.wp_get, ha1.mounted.tables.inodeSize]
  refine Coro.wp_imp (writeInode_wp ha1.mounted hino (length_zeros _)) ?_
  rintro - s2 ha2
  refine Coro.wp_imp (freeInode_wp ha2.mounted hino wasDir) ?_
  intro _ s3 ha3
  rw [ha2.vol_eq, ha1.vol_eq, inodeBlocks_congr hptr] at ha3
  exact (ha1.trans_empty ha2).trans_empty ha3

end

end PythonOS.Ext2
