import PythonOS.Ext2.Sessions

/-!
# PythonOS.Ext2.UnlinkBlocks

Which blocks `unlink` frees. `unlink` follows the pointers of every inode, also of one
where they are no block numbers: `unlink_frees_iff` says when it frees what the inode has
and nothing else.

`Gains k m` bounds what `m` adds to the count of free blocks, whatever it is run on. It
serves where pointers lead anywhere.
-/

namespace PythonOS.Ext2

open Lib Function List Coro Lib.Bytes

/-! ### The count of free blocks -/

/-- If `m` returns, it has counted at least `k` blocks as free. -/
def Gains (k : Nat) {α : Type} (m : FS α) : Prop :=
  ∀ s, m.wlp (fun _ s' => s.sb.freeBlocksCount + k ≤ s'.sb.freeBlocksCount) s

namespace Gains

variable {α β : Type} {j k : Nat}

theorem pure (a : α) : Gains 0 (pure a : FS α) := fun _ => Int.le_of_eq (Int.add_zero _)

theorem throw (e : Error) : Gains k (throw e : FS α) := fun _ => trivial

theorem lift (x : Except Error α) : Gains 0 (liftM x : FS α) := by
  intro s
  cases x with
  | ok a => exact Int.le_of_eq (Int.add_zero _)
  | error e => trivial

theorem get : Gains 0 (MonadState.get : FS Ext2FS) := fun _ => Int.le_of_eq (Int.add_zero _)

theorem update {f : Ext2FS → Ext2FS}
    (hf : ∀ s, s.sb.freeBlocksCount + k ≤ (f s).sb.freeBlocksCount) :
    Gains k (modify f : FS PUnit) := fun s => hf s

theorem bind {m : FS α} {f : α → FS β} (hm : Gains j m) (hf : ∀ a, Gains k (f a)) :
    Gains (j + k) (m >>= f) := by
  intro s
  refine wp_bind_ok (hm s) fun a s1 h1 => ?_
  refine wp_imp (hf a s1) (fun _ s2 h2 => ?_)
  omega

/-- A function that counts nothing, and then the rest. -/
theorem after {m : FS α} {f : α → FS β} (hm : Gains 0 m) (hf : ∀ a, Gains k (f a)) :
    Gains k (m >>= f) := by
  have h := hm.bind hf
  rwa [Nat.zero_add] at h

theorem ite {c : Prop} [Decidable c] {m m' : FS α} (hm : Gains k m) (hm' : Gains k m') :
    Gains k (if c then m else m') := by
  split
  · exact hm
  · exact hm'

theorem load (r : Ref) : Gains 0 (load r) := .after .get fun _ => .pure _

theorem store (r : Ref) (b : Bytes) : Gains 0 (store r b) :=
  .update fun _ => Int.le_of_eq (Int.add_zero _)

theorem contents (data : Buf) : Gains 0 (contents data) := by
  cases data with
  | bytes b => exact .pure _
  | ref r => exact .load r

theorem cacheBlock (blockNo : Nat) (b : Bytes) : Gains 0 (cacheBlock blockNo b) :=
  fun _ => Int.le_of_eq (Int.add_zero _)

theorem yield : Gains 0 (Coro.yield : FS Unit) := fun _ => Int.le_of_eq (Int.add_zero _)

theorem readSectors (lba n : Nat) : Gains 0 (readSectors lba n) := by
  induction n generalizing lba with
  | zero => exact .pure _
  | succ n ih =>
    refine .after (.after .yield fun _ => .after .get fun _ =>
      .ite (.pure _) (.throw _)) fun _ => ?_
    exact .after (ih _) fun _ => .pure _

theorem readBlock (b : Nat) : Gains 0 (readBlock b) := by
  refine .after .get fun s => ?_
  split
  · exact .pure _
  · exact .after (.readSectors _ _) fun _ => .cacheBlock _ _

theorem writeSector (lba : Nat) (data : Bytes) : Gains 0 (writeSector lba data) := by
  refine .ite (.throw _) (.after .yield fun _ => .after ?_ fun _ => .yield)
  intro s
  simp only [putSector, wp_bind, wp_get]
  rw [wp_ite]
  exact ⟨fun _ => Int.le_of_eq (Int.add_zero _), fun _ => trivial⟩

theorem writeSectors (blockNo : Nat) (data : Buf) (n i : Nat) :
    Gains 0 (writeSectors blockNo data n i) := by
  induction n generalizing i with
  | zero => exact .pure _
  | succ n ih =>
    exact .after (.contents _) fun _ => .after .get fun _ => .after (.writeSector _ _) fun _ => ih _

theorem writeBlock (blockNo : Nat) (data : Buf) : Gains 0 (writeBlock blockNo data) :=
  .after .get fun _ => .after (.contents _) fun _ => .ite (.throw _)
    (.after (.writeSectors _ _ _ _) fun _ => .after (.contents _) fun _ =>
      .after (.cacheBlock _ _) fun _ => .pure _)

theorem writeBack (blockNo : Nat) (r : Ref) (f : Bytes → Except Error Bytes) :
    Gains 0 (writeBack blockNo r f) :=
  .after (.load _) fun _ => .after (.lift _) fun _ => .after (.store _ _) fun _ => .writeBlock _ _

theorem flushBgdtFrom (full : Bytes) (n i : Nat) : Gains 0 (flushBgdtFrom full n i) := by
  induction n generalizing i with
  | zero => exact .pure _
  | succ n ih => exact .after .get fun _ => .after (.writeBlock _ _) fun _ => ih _

theorem flushSuperblock : Gains 0 flushSuperblock := by
  intro s
  simp only [Ext2.flushSuperblock, wp_bind, wp_get, wp_lift]
  cases hsb : s.sb.serializeCounters with
  | error e => trivial
  | ok sb =>
    have hcount : sb.freeBlocksCount = s.sb.freeBlocksCount := by
      unfold Superblock.serializeCounters at hsb
      simp only [Bind.bind, Except.bind] at hsb
      split at hsb
      · cases hsb
      · split at hsb
        · cases hsb
        · rw [← Except.ok.inj hsb]
    have hrest : Gains 0 (do
        Ext2.writeSector 2 (slice sb.raw 0 512)
        Ext2.writeSector 3 (slice sb.raw 512 1024)) :=
      .after (.writeSector _ _) fun _ => .writeSector _ _
    have h := (wp_bind _ _).mp (hrest { s with sb })
    rw [hcount] at h
    exact h

theorem bgdSetCounters (g fb fi ud : Int) : Gains 0 (bgdSetCounters g fb fi ud) := by
  intro s
  simp only [Ext2.bgdSetCounters, wp_bind, wp_get, wp_lift]
  cases listIndex s.bgdt.length g with
  | error e => trivial
  | ok i =>
    dsimp only
    cases setCounters (s.bgdt.getD i []) fb fi ud with
    | error e => trivial
    | ok d => exact Int.le_of_eq (Int.add_zero _)

/-- The counters of a group, and those of the superblock. -/
theorem updateCounters (g fb fi ud : Int) {f : Superblock → Superblock}
    (hf : ∀ sb, sb.freeBlocksCount + k ≤ (f sb).freeBlocksCount) :
    Gains k (updateCounters g fb fi ud f) := by
  have hmodify : Gains k (modify fun s : Ext2FS => { s with sb := f s.sb } : FS PUnit) :=
    .update fun s => hf s.sb
  have hflush : Gains 0 (do flushBgdt; Ext2.flushSuperblock) :=
    .after (.after .get fun _ => .flushBgdtFrom _ _ _) fun _ => .flushSuperblock
  exact .after (.bgdSetCounters _ _ _ _) fun _ => hmodify.bind (k := 0) fun _ => hflush

theorem freeInBitmap (bitmapBlock idx : Nat) : Gains 0 (freeInBitmap bitmapBlock idx) :=
  .after (.readBlock _) fun _ => .after (.load _) fun _ => .ite (.throw _)
    (.ite (.writeBack _ _ _) (.pure _))

/-- A block that is freed is counted, free or not. -/
theorem freeBlock (b : Nat) : Gains 1 (freeBlock b) :=
  .after .get fun _ => .after (.lift _) fun _ => .after (.lift _) fun _ =>
    .after (.freeInBitmap _ _) fun _ => .updateCounters _ _ _ _ fun _ => Int.le_refl _

theorem freeInode (ino : Nat) (wasDir : Bool) : Gains 0 (freeInode ino wasDir) :=
  .after .get fun _ => .after (.lift _) fun _ => .after (.lift _) fun _ =>
    .after (.freeInBitmap _ _) fun _ => .updateCounters _ _ _ _ fun _ =>
      Int.le_of_eq (Int.add_zero _)

theorem writeInode (ino : Nat) (raw : Bytes) : Gains 0 (writeInode ino raw) :=
  .after .get fun _ => .ite (.throw _) (.after (.lift _) fun _ => .after (.readBlock _) fun _ =>
    .writeBack _ _ _)

theorem weaken {m : FS α} (h : Gains k m) : Gains 0 m := fun s =>
  wp_imp (h s) (fun _ _ hle => by omega)

theorem freeEntries {free : Nat → FS Unit} (hfree : ∀ p, Gains 0 (free p)) (r : Ref) (n i : Nat) :
    Gains 0 (freeEntries free r n i) := by
  induction n generalizing i with
  | zero => exact .pure _
  | succ n ih =>
    exact .after (.load _) fun _ => .after (.lift _) fun _ => .ite (ih _)
      (.after (hfree _) fun _ => ih _)

theorem freeTree {free : Nat → FS Unit} (hfree : ∀ p, Gains 0 (free p)) (b : Nat) :
    Gains 1 (freeTree free b) :=
  .after (.readBlock _) fun _ => .after .get fun _ => .after (.freeEntries hfree _ _ _) fun _ =>
    .freeBlock _

end Gains

section

variable {raw : Bytes} {s : Ext2FS}

/-- A pointer that is set is counted. -/
theorem freePointer_gains {free : Nat → FS Unit} (hfree : ∀ p, Gains 1 (free p))
    (hraw : 128 ≤ raw.length) {n : Nat} (hn : n < 15) :
    (freePointer raw n free).wlp
      (fun raw' s' => 128 ≤ raw'.length ∧ (∀ m, m ≠ n → pointer raw' m = pointer raw m) ∧
        s.sb.freeBlocksCount + (if pointer raw n = 0 then 0 else 1) ≤ s'.sb.freeBlocksCount) s := by
  simp only [freePointer, wp_bind, wp_lift, iBlockN_eq hraw hn]
  by_cases hz : pointer raw n = 0
  · rw [if_pos hz, if_pos hz]
    exact ⟨hraw, fun _ _ => rfl, by omega⟩
  · rw [if_neg hz, if_neg hz]
    refine wp_bind_ok (hfree _ s) fun _ s1 h1 => ?_
    cases hset : setIBlockN raw n 0 with
    | error e => trivial
    | ok raw' =>
      obtain ⟨-, rfl⟩ := setIBlockN_ok hset
      refine ⟨by rw [length_putLe (by omega)]; exact hraw, fun m hm => ?_, h1⟩
      rw [pointer_putLe hraw hn (by decide), if_neg hm]

theorem freeDirect_gains (hraw : 128 ≤ raw.length) {k n : Nat} (hn : n + k ≤ 12) :
    (freeDirect k n raw).wlp
      (fun raw' s' => 128 ≤ raw'.length ∧ (∀ m, n + k ≤ m → pointer raw' m = pointer raw m) ∧
        s.sb.freeBlocksCount ≤ s'.sb.freeBlocksCount ∧
        ∀ m, n ≤ m → m < n + k → pointer raw m ≠ 0 →
          s.sb.freeBlocksCount + 1 ≤ s'.sb.freeBlocksCount) s := by
  induction k generalizing s n raw with
  | zero => exact ⟨hraw, fun _ _ => rfl, Int.le_refl _, fun m h1 h2 => by omega⟩
  | succ k ih =>
    refine wp_bind_ok (freePointer_gains Gains.freeBlock hraw (n := n) (by omega)) ?_
    rintro raw1 s1 ⟨hraw1, hptr1, hle1⟩
    refine wp_imp (ih hraw1 (n := n + 1) (by omega)) ?_
    rintro raw2 s2 ⟨hraw2, hptr2, hle2, hset2⟩
    refine ⟨hraw2, fun m hm => by rw [hptr2 m (by omega), hptr1 m (by omega)], ?_, ?_⟩
    · split at hle1 <;> omega
    · intro m hlo hhi hz
      by_cases hmn : m = n
      · rw [← hmn, if_neg hz] at hle1
        omega
      · have := hset2 m (by omega) (by omega) (by rw [hptr1 m hmn]; exact hz)
        split at hle1 <;> omega

/-- **`freeAllBlocks`** counts at least one block, if there is a pointer to follow. -/
theorem freeAllBlocks_gains (hraw : 128 ≤ raw.length) {m : Nat} (hm : m < 14)
    (hz : pointer raw m ≠ 0) : (freeAllBlocks raw).wlp
      (fun _ s' => s.sb.freeBlocksCount + 1 ≤ s'.sb.freeBlocksCount) s := by
  refine wp_bind_ok (freeDirect_gains hraw (k := nDirBlocks) (n := 0) (by decide)) ?_
  rintro raw1 s1 ⟨hraw1, hptr1, hle1, hset1⟩
  refine wp_bind_ok (freePointer_gains (n := indBlock)
    (Gains.freeTree fun p => (Gains.freeBlock p).weaken) hraw1 (by decide)) ?_
  rintro raw2 s2 ⟨hraw2, hptr2, hle2⟩
  refine wp_bind_ok (freePointer_gains (n := dindBlock)
    (Gains.freeTree fun p => (Gains.freeTree (fun p => (Gains.freeBlock p).weaken) p).weaken) hraw2
    (by decide)) ?_
  rintro raw3 s3 ⟨-, -, hle3⟩
  have hcount : s.sb.freeBlocksCount + 1 ≤ s3.sb.freeBlocksCount := by
    have h12 : pointer raw1 indBlock = pointer raw indBlock := hptr1 _ (by decide)
    have h13 : pointer raw2 dindBlock = pointer raw dindBlock :=
      (hptr2 _ (by decide)).trans (hptr1 _ (by decide))
    rw [h13] at hle3
    have hcases : m < 12 ∨ m = indBlock ∨ m = dindBlock := by
      simp only [indBlock, dindBlock]
      omega
    rcases hcases with hlt | rfl | rfl
    · have := hset1 m (Nat.zero_le _) (by simpa [nDirBlocks] using hlt) hz
      split at hle2 <;> split at hle3 <;> omega
    · split at hle3 <;> omega
    · rw [if_neg hz] at hle3
      split at hle2 <;> omega
  cases setIBlocks raw3 0 with
  | error e => trivial
  | ok raw4 => exact hcount

/-- **`releaseInode`** counts at least one block, if there is a pointer to follow. -/
theorem releaseInode_gains (hraw : 128 ≤ raw.length) {m : Nat} (hm : m < 14)
    (hz : pointer raw m ≠ 0) (ino : Nat) (wasDir : Bool) : (releaseInode ino raw wasDir).wlp
      (fun _ s' => s.sb.freeBlocksCount + 1 ≤ s'.sb.freeBlocksCount) s := by
  refine wp_bind_ok (freeAllBlocks_gains hraw hm hz) fun _ s1 h1 => ?_
  have hrest : Gains 0 (do writeInode ino (zeros (← get).sb.inodeSize); freeInode ino wasDir) :=
    .after .get fun _ => .after (.writeInode _ _) fun _ => .freeInode _ _
  refine wp_imp (hrest s1) (fun _ s2 h2 => ?_)
  omega

end

/-! ### What is freed -/

/-- The blocks `S` are freed, and no others, and counted. -/
structure Frees (L : Layout) (V : Volume) (S : Set Nat) (V' : Volume) : Prop where
  used : ∀ b, V'.used b = true ↔ V.used b = true ∧ b ∉ S
  total : V'.counters.freeBlocks = V.counters.freeBlocks + S.ncard
  group : ∀ g, (V'.counters.group g).freeBlocks =
    (V.counters.group g).freeBlocks + { b | b ∈ S ∧ L.blockGroup b = g }.ncard

section

variable {L : Layout} {M : Set Nat} {V V' : Volume}

theorem Frees.of_eq (hused : V'.used = V.used) (hk : V'.counters = V.counters) :
    Frees L V ∅ V' := by
  exact ⟨fun b => by simp [hused], by simp [hk], fun g => by simp [hk]⟩

/-- Only one set of blocks in use is what was freed. -/
theorem Frees.iff_eq {S T : Set Nat} (h : Frees L V S V') (hS : ∀ b ∈ S, V.used b = true)
    (hT : ∀ b ∈ T, V.used b = true) : Frees L V T V' ↔ S = T := by
  constructor
  · intro h'
    ext b
    have hs := h.used b
    have ht := h'.used b
    tauto
  · rintro rfl
    exact h

theorem ncard_mem_list {bs : List Nat} (hnodup : bs.Nodup) : { b | b ∈ bs }.ncard = bs.length := by
  rw [← coe_toFinset, Set.ncard_coe_finset, toFinset_card_of_nodup hnodup]

theorem counters_giveBlocks (bs : List Nat) :
    (V.giveBlocks L bs).counters.freeBlocks = V.counters.freeBlocks + bs.length ∧
      ∀ g, ((V.giveBlocks L bs).counters.group g).freeBlocks =
        (V.counters.group g).freeBlocks + (bs.filter fun b => L.blockGroup b = g).length := by
  induction bs generalizing V with
  | nil => exact ⟨by simp [Volume.giveBlocks], fun g => by simp [Volume.giveBlocks]⟩
  | cons b bs ih =>
    obtain ⟨htotal, hgroup⟩ := ih (V := V.giveBlock L b)
    refine ⟨htotal.trans ?_, fun g => (hgroup g).trans ?_⟩
    · simp only [Volume.giveBlock, Counters.add, length_cons]
      omega
    · have hadd := congrFun (Counts.group_add V.counters (L.blockGroup b) 1 0 0).1 g
      rw [show ((V.giveBlock L b).counters.group g).freeBlocks = _ from hadd,
        update_apply, filter_cons]
      by_cases hg : L.blockGroup b = g
      · rw [if_pos hg.symm, if_pos (decide_eq_true hg), length_cons, hg]
        omega
      · rw [if_neg fun h => hg h.symm, if_neg (by simpa using hg)]

theorem Frees.dropInode {target : Nat} (wasDir : Bool)
    (hnodup : (inodeBlocks L V'.data (V'.inode target)).Nodup) (hs : SameBlocks L V V') :
    Frees L V { b | b ∈ inodeBlocks L V'.data (V'.inode target) }
      (V'.dropInode L target wasDir) := by
  obtain ⟨htotal, hgroup⟩ := counters_giveBlocks (L := L) (V := V')
    (inodeBlocks L V'.data (V'.inode target))
  refine ⟨fun b => by rw [used_dropInode, hs.used]; rfl, ?_, fun g => ?_⟩
  · rw [ncard_mem_list hnodup, ← hs.counters, ← htotal]
    exact Int.add_zero _
  · have hset : { b | b ∈ { b | b ∈ inodeBlocks L V'.data (V'.inode target) } ∧
        L.blockGroup b = g } =
        { b | b ∈ (inodeBlocks L V'.data (V'.inode target)).filter fun b =>
          L.blockGroup b = g } := by
      simp
    rw [hset, ncard_mem_list (hnodup.filter _), ← hs.counters, ← hgroup g]
    have hadd := congrFun (Counts.group_add
      (V'.giveBlocks L (inodeBlocks L V'.data (V'.inode target))).counters (L.inodeGroup target) 0 1
      (if wasDir then -1 else 0)).1 g
    refine hadd.trans ?_
    rw [update_apply]
    split
    · next hg => rw [hg, Int.add_zero]
    · rfl

end

/-! ### The last link -/

/-- The entry is the last link to the inode; to a directory that is its entry in the
parent. -/
def LastLink (raw : Bytes) (name : String) : Prop :=
  if modeFormat (leAt 2 raw 0) = sIfDir then ¬ (name = "." ∨ name = "..") else leAt 2 raw 26 ≤ 1

instance (raw : Bytes) (name : String) : Decidable (LastLink raw name) :=
  inferInstanceAs (Decidable (if modeFormat (leAt 2 raw 0) = sIfDir then _ else _))

/-- The blocks that are to be freed with the entry. -/
def lastBlocks (L : Layout) (V : Volume) (name : String) (target : Nat) : Set Nat :=
  { b | LastLink (V.inode target) name ∧ b ∈ blocksOf L V target }

/-- `unlink` gives the inode back. -/
def GivenBack (raw : Bytes) : Prop := modeFormat (leAt 2 raw 0) = sIfDir ∨ leAt 2 raw 26 ≤ 1

theorem LastLink.givenBack {raw : Bytes} {name : String} (h : LastLink raw name) :
    GivenBack raw := by
  unfold LastLink at h
  split at h
  · next hdir => exact .inl hdir
  · exact .inr h

/-- The pointers that `unlink` follows are those of the blocks to be freed. -/
def FollowsOwn (raw : Bytes) (name : String) : Prop :=
  GivenBack raw →
    if hasBlocks raw ∧ LastLink raw name then pointer raw 14 = 0 else ∀ n < 14, pointer raw n = 0

section

variable {L : Layout} {M : Set Nat} {s s' : Ext2FS} {ino target : Nat} {D : List (List Record)}
  {name : String}

/-- An inode that is given back goes with the blocks it had. -/
theorem Unlinked.dropped (h : Unlinked L M s ino D name target s')
    (hback : GivenBack ((vol L s).inode target)) :
    ∃ V wasDir, SameBlocks L (vol L s) V ∧ Own L M V ∧ vol L s' = V.dropInode L target wasDir := by
  rcases h with ⟨-, -, t, D', s1, s2, hrem, hr, ha⟩ | ⟨hmode, t, D', s1, hrem, hlast⟩
  · exact ⟨vol L s2, true, hrem.rewritten.sameBlocks.trans hr.sameBlocks, hr.edited.own, ha.vol_eq⟩
  · rw [if_pos (hback.resolve_left hmode)] at hlast
    exact ⟨vol L s1, false, hrem.rewritten.sameBlocks, hrem.live.own, hlast.vol_eq⟩

/-- An inode that has a link left keeps its blocks. -/
theorem Unlinked.kept (h : Unlinked L M s ino D name target s')
    (hback : ¬ GivenBack ((vol L s).inode target)) : Frees L (vol L s) ∅ (vol L s') := by
  rcases h with ⟨hmode, -⟩ | ⟨-, t, D', s1, hrem, hlast⟩
  · exact absurd (.inl hmode) hback
  · rw [if_neg fun hle => hback (.inr hle)] at hlast
    have hsame := hrem.rewritten.sameBlocks.trans hlast.sameBlocks
    exact .of_eq hsame.used hsame.counters

theorem lastBlocks_eq_empty {V : Volume}
    (h : ¬ (hasBlocks (V.inode target) ∧ LastLink (V.inode target) name)) :
    lastBlocks L V name target = ∅ := by
  refine Set.eq_empty_of_forall_notMem ?_
  rintro b ⟨hlast, hz, τ, -, hk, rfl⟩
  refine hz (blockAt_of_not_holds fun hh => h ⟨?_, hlast⟩)
  rw [← hk]
  exact hh.2

section

variable {V V₁ : Volume} [hL : L.Ok] (hs : SameBlocks L V V₁) (ho : Own L M V₁)

include hs ho

/-- `freeAllBlocks` finds every block of the inode exactly if there is no triple-indirect
one. -/
theorem inodeBlocks_eq_blocksOf_iff (hholds : V.Holds target) :
    { b | b ∈ inodeBlocks L V₁.data (V₁.inode target) } = blocksOf L V target ↔
      pointer (V.inode target) 14 = 0 := by
  have hmem : ∀ b, b ∈ inodeBlocks L V₁.data (V₁.inode target) ↔
      b ∈ Forest.reached L.shape (forest V) { κ | κ.1 = target ∧ κ.2 < 14 } := fun b => by
    rw [mem_inodeBlocks ho ((hs.holds_iff target).mpr hholds), hs.reached]
  have hroot : (forest V).blockAt ((target, 14), []) = pointer (V.inode target) 14 := by
    rw [Forest.blockAt_root, forest_root hholds (by decide)]
  constructor
  · intro hset
    by_contra hz
    rw [← hroot] at hz
    have hmine : (forest V).blockAt ((target, 14), []) ∈ blocksOf L V target :=
      ⟨hz, ((target, 14), []), Shape.valid_root _, rfl, rfl⟩
    rw [← hset] at hmine
    -- a block has one place
    obtain ⟨-, τ, hτ, hk, heq⟩ := (hmem _).mp hmine
    have hτ' := ho.owned.inj ((target, 14), []) τ (Shape.valid_root _) hτ
      (by rw [hs.blockAt _ (Shape.valid_root _)]; exact hz)
      (by rw [hs.blockAt _ (Shape.valid_root _), hs.blockAt _ hτ, heq])
    rw [← hτ'] at hk
    exact absurd hk.2 (Nat.lt_irrefl 14)
  · intro hz
    ext b
    rw [Set.mem_ofPred_eq, hmem]
    constructor
    · rintro ⟨hbz, τ, hτ, hk, heq⟩
      exact ⟨hbz, τ, hτ, hk.1, heq⟩
    · rintro ⟨hbz, ⟨⟨x, n⟩, p⟩, hτ, hk, heq⟩
      obtain rfl : x = target := hk
      refine ⟨hbz, ((x, n), p), hτ, ⟨rfl, ?_⟩, heq⟩
      by_contra hge
      have hge : 14 ≤ n := Nat.le_of_not_lt hge
      refine hbz (heq.symm.trans (Forest.blockAt_of_root_eq_zero ?_))
      show (if V.Holds x ∧ n < 15 then pointer (V.inode x) n else 0) = 0
      split
      · next hc => rw [show n = 14 by omega, hz]
      · rfl

theorem inodeBlocks_eq_empty_iff (hplain : V.Plain target) :
    { b | b ∈ inodeBlocks L V₁.data (V₁.inode target) } = ∅ ↔
      ∀ n < 14, pointer (V.inode target) n = 0 := by
  constructor
  · intro hset n hn
    by_contra hz
    have hholds : V.Holds target := hplain.resolve_right fun hzero => hz (hzero n hn)
    have hholds1 := (hs.holds_iff target).mpr hholds
    have hmine : pointer (V.inode target) n ∈
        { b | b ∈ inodeBlocks L V₁.data (V₁.inode target) } := by
      refine (mem_inodeBlocks ho hholds1 _).mpr
        ⟨hz, ((target, n), []), Shape.valid_root _, ⟨rfl, hn⟩, ?_⟩
      rw [Forest.blockAt_root, forest_root hholds1 (by omega), hs.pointer]
    rw [hset] at hmine
    exact hmine
  · intro hzero
    have hnil : inodeBlocks L V₁.data (V₁.inode target) = [] :=
      inodeBlocks_eq_nil fun n hn => by rw [hs.pointer, hzero n hn]
    simp [hnil]

/-- **The inode is given back**, with pointers that are block numbers or none. -/
theorem dropInode_frees_iff {wasDir : Bool} (hused : V.inodeUsed target = true)
    (hplain : V.Plain target) (hback : GivenBack (V.inode target)) :
    Frees L V (lastBlocks L V name target) (V₁.dropInode L target wasDir) ↔
      FollowsOwn (V.inode target) name := by
  have hplain1 := hs.plain hplain
  have hfrees := Frees.dropInode wasDir (nodup_inodeBlocks_of_plain ho hplain1) hs
  have hinuse : ∀ b ∈ { b | b ∈ inodeBlocks L V₁.data (V₁.inode target) }, V.used b = true :=
    fun b hb => by
      rw [← hs.used]
      exact (ho.taken_of_mem_inodeBlocks hplain1 hb).2.2
  by_cases hcase : hasBlocks (V.inode target) ∧ LastLink (V.inode target) name
  · have hall : lastBlocks L V name target = blocksOf L V target :=
      Set.ext fun b => ⟨fun hb => hb.2, fun hb => ⟨hcase.2, hb⟩⟩
    rw [hall, hfrees.iff_eq hinuse, inodeBlocks_eq_blocksOf_iff hs ho ⟨hused, hcase.1⟩]
    · simp only [FollowsOwn, hback, if_pos hcase, forall_const]
    · rintro b ⟨hz, τ, hτ, -, rfl⟩
      rw [← hs.used, ← hs.blockAt τ hτ] at *
      exact (ho.owned.taken τ hτ hz).2.2
  · rw [lastBlocks_eq_empty hcase, hfrees.iff_eq hinuse fun b hb => hb.elim,
      inodeBlocks_eq_empty_iff hs ho hplain]
    simp only [FollowsOwn, hback, if_neg hcase, forall_const]

end

/-- An inode whose pointers are no block numbers, with its last link: blocks are counted as
free that it does not have. -/
theorem unlinkFile_gains (name : String) [L.Ok] (h : Live L M s ino)
    (hd : Directory L (vol L s) ino D)
    (ht : L.HasInode target) (hlinks : leAt 2 ((vol L s).inode target) 26 ≤ 1) {m : Nat}
    (hm : m < 14) (hz : pointer ((vol L s).inode target) m ≠ 0) :
    (unlinkFile ino name target ((vol L s).inode target)).wlp
      (fun _ s' => (counters s).freeBlocks + 1 ≤ (counters s').freeBlocks) s := by
  refine wp_bind_ok (removed_wp h hd name) ?_
  rintro t s1 ⟨D', hrem⟩
  have hraw := h.mounted.length_inode_ge ht
  simp only [wp_bind, wp_lift, iLinks_eq hraw, setILinks_pred hraw]
  rw [if_pos hlinks]
  have hcount : counters s1 = counters s := hrem.rewritten.counters
  rw [← hcount]
  exact releaseInode_gains (by rw [length_setLinks hraw]; exact hraw) hm
    (by rw [pointer_setLinks hraw]; exact hz) target false

/-- `unlink` of such an inode. -/
theorem unlink_counts_foreign [L.Ok] (h : Live L M s ino) (hd : Directory L (vol L s) ino D)
    {e : RawEntry} (hfind : firstEntry D name = some e)
    (ht : L.HasInode e.2.1) (hmode : ¬ IsDir ((vol L s).inode e.2.1))
    (hlinks : leAt 2 ((vol L s).inode e.2.1) 26 ≤ 1) {m : Nat} (hm : m < 14)
    (hz : pointer ((vol L s).inode e.2.1) m ≠ 0)
    (hrun : (nodeUnlink ino name).run s = (.ok (), s')) :
    (counters s).freeBlocks + 1 ≤ (counters s').freeBlocks := by
  have hsame : ∀ e', firstEntry D name = some e' → e = e' :=
    fun e' he' => Option.some.inj (hfind.symm.trans he')
  have hspec : (nodeUnlink ino name).wlp
      (fun _ s' => (counters s).freeBlocks + 1 ≤ (counters s').freeBlocks) s := by
    refine nodeUnlink_found h hd name (fun e' he' => hsame e' he' ▸ ht) fun e' s1 he' ha => ?_
    obtain rfl := hsame e' he'
    have hd1 : Directory L (vol L s1) ino D := by rw [ha.vol_eq]; exact hd
    have hfile := unlinkFile_gains name (h.of_after ha) hd1 ht
      (by rw [ha.vol_eq]; exact hlinks) hm (by rw [ha.vol_eq]; exact hz)
    rw [ha.vol_eq, show counters s1 = counters s from ha.counters_eq] at hfile
    rw [if_neg hmode]
    exact hfile
  have hgain := wp_of_run hspec hrun
  exact hgain

/-- **What `unlink` frees** are the blocks of the inode with its last link, and no other,
exactly if the pointers that it follows are those of these blocks. -/
theorem unlink_frees_iff (hL : L.Ok) (h : Orderly L M s) (hd : Directory L (vol L s) ino D)
    (hino : (vol L s).inodeUsed ino = true)
    (hents : ∀ e ∈ dirEntries D, (vol L s).inodeUsed e.2.1 = true)
    (hrun : (nodeUnlink ino name).run s = (.ok (), s')) :
    ∃ e, (dirEntries D).find? (fun e => Utf8.decode e.1 = name) = some e ∧
      (Frees L (vol L s) (lastBlocks L (vol L s) name e.2.1) (vol L s') ↔
        FollowsOwn ((vol L s).inode e.2.1) name) := by
  have hlive : Live L M s ino := ⟨h.mounted, h.own, hino, .inr (.inl hd.mode)⟩
  have hused : ∀ e, firstEntry D name = some e →
      (vol L s).inodeUsed e.2.1 = true := fun e he => hents e (mem_of_find?_eq_some he)
  by_cases hplain : ∀ e, firstEntry D name = some e →
      GivenBack ((vol L s).inode e.2.1) → (vol L s).Plain e.2.1
  · have hlink : ∀ e, firstEntry D name = some e →
        Linkable L M s e.2.1 := fun e he =>
      ⟨hasInode_of_used (hused e he), fun hle => hplain e he (.inr hle), fun hdir => by
        obtain ⟨Dt, hdt, -⟩ := h.directory e.2.1 (hused e he) hdir
        exact ⟨⟨h.mounted, h.own, hused e he, .inr (.inl hdir)⟩, Dt, hdt⟩⟩
    obtain ⟨e, he, hu⟩ := wp_of_run (nodeUnlink_wp hlive hd name hlink) hrun
    refine ⟨e, he, ?_⟩
    by_cases hback : GivenBack ((vol L s).inode e.2.1)
    · obtain ⟨V₁, wasDir, hs, ho, hvol⟩ := hu.dropped hback
      rw [hvol]
      exact dropInode_frees_iff hs ho (hused e he) (hplain e he hback) hback
    · refine iff_of_true ?_ fun hc => absurd hc hback
      have hnone : lastBlocks L (vol L s) name e.2.1 = ∅ :=
        Set.eq_empty_of_forall_notMem fun b hb => hback hb.1.givenBack
      rw [hnone]
      exact hu.kept hback
  · -- the pointers that are followed are no block numbers
    push Not at hplain
    obtain ⟨e, hfind, hback, hnot⟩ := hplain
    have hkind : ¬ hasBlocks ((vol L s).inode e.2.1) := fun hk => hnot (.inl ⟨hused e hfind, hk⟩)
    have hmode : ¬ IsDir ((vol L s).inode e.2.1) := fun hm =>
      hkind (.inr (.inl hm))
    have hcase : ¬ (hasBlocks ((vol L s).inode e.2.1) ∧ LastLink ((vol L s).inode e.2.1) name) :=
      fun hc => hkind hc.1
    obtain ⟨n, hn, hz⟩ : ∃ n < 14, pointer ((vol L s).inode e.2.1) n ≠ 0 := by
      by_contra hzero
      push Not at hzero
      exact hnot (.inr hzero)
    refine ⟨e, hfind, iff_of_false (fun hf => ?_) fun hfollows => ?_⟩
    · have hgain := unlink_counts_foreign hlive hd hfind (hasInode_of_used (hused e hfind)) hmode
        (hback.resolve_left hmode) hn hz hrun
      have htotal := hf.total
      rw [lastBlocks_eq_empty hcase, Set.ncard_empty] at htotal
      have htotal : (counters s').freeBlocks = (counters s).freeBlocks + (0 : Nat) := htotal
      omega
    · have hzero := hfollows hback
      rw [if_neg hcase] at hzero
      exact hz (hzero n hn)

end

/-- The empty volume with a file of one block. -/
def fileImage : Image := entryImage (inodeBytes 0x81a4 3 1 2 fun n => if n = 0 then 8 else 0) 1

/-- The file goes. -/
theorem unlink_frees_iff_file :
    ((nodeUnlink 2 "f").run fileImage.fs).1 = .ok () ∧
    ∃ e, (dirEntries [entryRecords]).find? (fun e => Utf8.decode e.1 = "f") = some e ∧
      (Frees fileImage.layout (vol fileImage.layout fileImage.fs)
        (lastBlocks fileImage.layout (vol fileImage.layout fileImage.fs) "f" e.2.1)
        (vol fileImage.layout ((nodeUnlink 2 "f").run fileImage.fs).2) ↔
        FollowsOwn ((vol fileImage.layout fileImage.fs).inode e.2.1) "f") := by
  have hok : fileImage.Ok := entryImage.ok length_inodeBytes
  have hs : fileImage.Sound :=
    ⟨by decide +kernel, by decide +kernel, by decide +kernel, by decide +kernel⟩
  have hd : Directory fileImage.layout fileImage.disk 2 [entryRecords] :=
    Image.directory hs (show (2, 0, 7) ∈ _ by decide +kernel) (by decide +kernel)
      (by decide +kernel) rfl
  have hinv := Image.sessionInv hs hd (by decide +kernel) (by decide +kernel) (by decide +kernel)
  have hrun : ((nodeUnlink 2 "f").run fileImage.fs).1 = .ok () := by decide +kernel
  exact ⟨hrun, unlink_frees_iff inferInstance hinv.orderly hd (by decide +kernel)
    (by decide +kernel) (run_eq_ok hrun)⟩

/-- The empty volume with a device node, with the device number 7 where a file has the number
of its first block. -/
def deviceImage : Image := entryImage (inodeBytes 0x21a4 0 1 0 fun n => if n = 0 then 7 else 0) 0

/-- **`unlink` of a device node** frees a block that it does not have: here the one that
holds the root directory. -/
theorem unlink_device_frees_root :
    Orderly deviceImage.layout deviceImage.metaBlocks deviceImage.fs ∧
      Exact deviceImage.layout deviceImage.metaBlocks (vol deviceImage.layout deviceImage.fs) ∧
      Directory deviceImage.layout (vol deviceImage.layout deviceImage.fs) 2 [entryRecords] ∧
      ((nodeUnlink 2 "f").run deviceImage.fs).1 = .ok () ∧
      7 ∈ blocksOf deviceImage.layout (vol deviceImage.layout deviceImage.fs) 2 ∧
      (vol deviceImage.layout ((nodeUnlink 2 "f").run deviceImage.fs).2).used 7 = false ∧
      ¬ Frees deviceImage.layout (vol deviceImage.layout deviceImage.fs)
        (lastBlocks deviceImage.layout (vol deviceImage.layout deviceImage.fs) "f" 11)
        (vol deviceImage.layout ((nodeUnlink 2 "f").run deviceImage.fs).2) := by
  have hok : deviceImage.Ok := entryImage.ok length_inodeBytes
  have hs : deviceImage.Sound :=
    ⟨by decide +kernel, by decide +kernel, by decide +kernel, by decide +kernel⟩
  have hptr : (2, 0, 7) ∈ deviceImage.pointers := by decide +kernel
  have hd : Directory deviceImage.layout deviceImage.disk 2 [entryRecords] :=
    Image.directory hs hptr (by decide +kernel) (by decide +kernel) rfl
  have hinv := Image.sessionInv hs hd (by decide +kernel) (by decide +kernel) (by decide +kernel)
  have hfreed : (vol deviceImage.layout ((nodeUnlink 2 "f").run deviceImage.fs).2).used
      7 = false := by
    decide +kernel
  refine ⟨hinv.orderly, Image.exact hs ⟨by decide +kernel, by decide +kernel⟩ (by decide +kernel),
    hd, by decide +kernel, (Image.mem_blocksOf hs 2 7).mpr ⟨0, hptr⟩, hfreed, fun hf => ?_⟩
  -- the device node has no blocks
  have hkind : ¬ (hasBlocks (deviceImage.disk.inode 11) ∧
      LastLink (deviceImage.disk.inode 11) "f") := by
    decide +kernel
  rw [lastBlocks_eq_empty hkind] at hf
  have hkept := (hf.used 7).mpr ⟨by decide +kernel, fun hb => hb⟩
  rw [hfreed] at hkept
  exact absurd hkept (by decide)

end PythonOS.Ext2
