import PythonOS.Ext2.FileBlocks

/-!
# PythonOS.Ext2.FileRelease

Specifications of the functions that give back blocks: those past the new end when
a file is truncated, and all of them when its inode goes.

`truncateBlock` keeps the indirect blocks on the way and clears one entry;
`freeAllBlocks` leaves the pointers alone, as the inode is cleared after it.
-/

namespace PythonOS.Ext2

open Lib List Coro Lib.Bytes

section

variable {L : Layout} {M : Set Nat} {s : Ext2FS} {ino : Nat} {raw : Bytes}

/-! ### `_truncate_file`: the blocks past the new end -/

/-- The slots in `Σ` of an inode have given back their blocks. -/
structure Released (L : Layout) (M : Set Nat) (s : Ext2FS) (ino : Nat) (raw : Bytes)
    (S : Set (Slot (Nat × Nat))) (raw' : Bytes) (s' : Ext2FS) : Prop where
  ready : Work L M s' ino raw'
  inodeUsed : ∀ x, (vol L s').inodeUsed x = (vol L s).inodeUsed x
  inode : ∀ x, (vol L s').inode x = (vol L s).inode x
  fields : SameFields raw raw'
  cleared : ∀ τ ∈ S, L.shape.Valid τ → (forest (work L s' ino raw')).blockAt τ = 0
  kept : ∀ τ, L.shape.Valid τ → τ ∉ S →
    (forest (work L s' ino raw')).blockAt τ = (forest (work L s ino raw)).blockAt τ
  leaf : ∀ τ, L.shape.Leaf τ → τ ∉ S →
    leafData L (work L s' ino raw') τ = leafData L (work L s ino raw) τ
  exact : Exact L M (work L s ino raw) → Exact L M (work L s' ino raw')
  steady : Steady L s s'

namespace Released

variable {S S' : Set (Slot (Nat × Nat))} {raw' raw'' : Bytes} {s' s'' : Ext2FS}

theorem trans (h : Released L M s ino raw S raw' s')
    (h' : Released L M s' ino raw' S' raw'' s'') : Released L M s ino raw (S ∪ S') raw'' s'' := by
  refine ⟨h'.ready, fun x => (h'.inodeUsed x).trans (h.inodeUsed x),
    fun x => (h'.inode x).trans (h.inode x), h.fields.trans h'.fields, fun τ hτ hv => ?_,
    fun τ hv hτ => ?_, fun τ hv hτ => ?_, fun he => h'.exact (h.exact he),
    h.steady.trans h'.steady⟩
  · by_cases hm : τ ∈ S'
    · exact h'.cleared τ hm hv
    · rw [h'.kept τ hv hm, h.cleared τ (hτ.resolve_right hm) hv]
  · rw [h'.kept τ hv fun hm => hτ (.inr hm), h.kept τ hv fun hm => hτ (.inl hm)]
  · rw [h'.leaf τ hv fun hm => hτ (.inr hm), h.leaf τ hv fun hm => hτ (.inl hm)]

/-- Nothing happens to slots without a block. -/
theorem of_empty (h : Work L M s ino raw) (ha : Same L s s')
    (hS : ∀ τ ∈ S, (forest (work L s ino raw)).blockAt τ = 0) :
    Released L M s ino raw S raw s' := by
  have hwork := ha.work_eq ino raw
  refine ⟨h.of_after ha, fun x => by rw [ha.vol_eq], fun x => by rw [ha.vol_eq], .refl raw,
    fun τ hτ _ => ?_, fun τ _ _ => ?_, fun τ _ _ => ?_, fun he => ?_,
    ha.steady_self⟩
  · rw [hwork, hS τ hτ]
  · rw [hwork]
  · rw [hwork]
  · rwa [hwork]

end Released

/-- A slot of the inode gave back its block, whichever way. -/
theorem Work.released_of_put (h : Work L M s ino raw) {σ : Slot (Nat × Nat)} {s' : Ext2FS}
    {raw' : Bytes} (hp : Put L s ino raw σ 0 raw' s') (hσ : L.shape.Leaf σ) (hino : σ.1.1 = ino)
    (hz : (forest (work L s ino raw)).blockAt σ ≠ 0)
    (hused : ∀ x, (vol L s').used x =
      if x = (forest (work L s ino raw)).blockAt σ then false else (vol L s).used x)
    (hcount : leAt 4 raw' 28 = leAt 4 raw 28 - L.sectorsPerBlock) :
    Released L M s ino raw {σ} raw' s' := by
  have hown : Own L M (work L s' ino raw') := by
    refine h.own.put hp.blockAt hσ.1 (fun hne => absurd rfl hne) fun b hb hne => ?_
    exact (hused b).trans ((if_neg (hne hz)).trans hb)
  have hready := h.of_put hp hown
  refine ⟨hready, hp.inodeUsed, hp.inode, hp.fields, fun τ hτ hv => ?_, fun τ hv hτ => ?_,
    fun τ hv hτ => ?_, fun he => ?_, hp.steady⟩
  · rw [hp.blockAt τ hv, if_pos (show τ = σ from hτ)]
  · rw [hp.blockAt τ hv, if_neg (show τ ≠ σ from hτ)]
  · unfold leafData
    rw [hp.blockAt τ hv.1, if_neg (show τ ≠ σ from hτ)]
    split
    · rfl
    · next hne => exact hp.data τ hv hne
  · refine he.release h.own hp.blockAt hσ.1 hp.inodeUsed
      (h.holds_iff hp.inodeUsed hp.inode hready.kind) ?_ ?_ rfl hz hused ?_
    · rw [hino]
      exact hp.other
    · rw [hino, work_inode, work_inode, hp.tind]
    · rw [hino, work_inode, work_inode, hcount]

theorem dropBlock_wp (h : Tables L s) (hraw : 128 ≤ raw.length) :
    (dropBlock raw).returns
      (fun raw' s' => s' = s ∧ raw' = putLe 4 raw 28 (leAt 4 raw 28 - L.sectorsPerBlock)) s := by
  have hmax : max (0 : Int) ((leAt 4 raw 28 : Int) - L.sectorsPerBlock) =
      ((leAt 4 raw 28 - L.sectorsPerBlock : Nat) : Int) := by omega
  have hlt := leAt_lt (w := 4) raw 28
  simp only [dropBlock, wp_bind, wp_lift, wp_get, iBlocks_eq hraw, h.sectorsPerBlock, hmax]
  unfold setIBlocks
  rw [pack_eq ⟨by omega, by omega⟩ ⟨by omega, by omega⟩, Int.toNat_natCast]
  exact ⟨trivial, rfl⟩

/-- The entry of an indirect block is set to 0. -/
theorem clearEntry_wp [L.Ok] (h : Mounted L s) {ind i : Nat} (hind : L.IsData ind)
    (hi : i < L.ptrsPerBlock) :
    (clearEntry ind i).returns (fun _ s' => After L s {ind}
        ((vol L s).setData ind (putLe 4 ((vol L s).data ind) (i * 4) 0)) s') s := by
  have hwidth := L.four_mul_ptrsPerBlock
  have hlen := h.length_data hind
  have hpack : pack 4 ((vol L s).data ind) (i * 4 : Nat) 0 =
      .ok (putLe 4 ((vol L s).data ind) (i * 4) 0) := by
    rw [pack_eq ⟨by omega, by omega⟩ ⟨by omega, by decide⟩, Int.toNat_natCast]
    rfl
  refine wp_bind_ok (readData_wp h hind) ?_
  rintro r s1 ⟨ha1, hr, -⟩
  refine wp_mono (writeBackData_wp ha1.mounted hind hr fun d hd => ?_) ?_ ?_
  · rw [length_of_pack hd (by omega), ha1.vol_eq, hlen]
  · rintro - s2 ⟨d, hd, ha2⟩
    rw [ha1.vol_eq, hpack] at hd
    cases hd
    rw [ha1.vol_eq] at ha2
    simpa using ha1.trans ha2
  · rintro e s2 ⟨-, herr⟩
    rw [ha1.vol_eq, hpack] at herr
    cases herr

/-- `i_blocks` after a block was dropped. -/
theorem count_dropBlock {raw1 : Bytes} (hraw : 128 ≤ raw.length) (hlen : raw1.length = raw.length)
    (hkeep : leAt 4 raw1 28 = leAt 4 raw 28) :
    leAt 4 (putLe 4 raw1 28 (leAt 4 raw1 28 - L.sectorsPerBlock)) 28 =
      leAt 4 raw 28 - L.sectorsPerBlock := by
  have hlt := leAt_lt (w := 4) raw1 28
  rw [leAt_putLe_self (by omega) (by omega), hkeep]

namespace Work

/-- A direct block is given back. -/
theorem released_pointer [L.Ok] (h : Work L M s ino raw) {n : Nat} (hn : n < 12)
    (hz : pointer raw n ≠ 0) {s' : Ext2FS} (hm : Mounted L s')
    (hvol : vol L s' = (vol L s).giveBlock L (pointer raw n)) (hsteady : Steady L s s')
    {raw1 : Bytes} (hraw1 : raw1 = putLe 4 raw (40 + n * 4) 0) :
    Released L M s ino raw {((ino, n), [])}
      (putLe 4 raw1 28 (leAt 4 raw1 28 - L.sectorsPerBlock)) s' := by
  have hraw := h.length_ge
  have hroot := h.forest_root (n := n) (by omega)
  have hlen1 : raw1.length = raw.length := by rw [hraw1, length_putLe (by omega)]
  have hkeep : leAt 4 raw1 28 = leAt 4 raw 28 := by
    rw [hraw1, leAt_putLe_of_disjoint (by omega) (by omega)]
  have hptr : ∀ m v, pointer (putLe 4 raw1 28 v) m = if m = n then 0 else pointer raw m := by
    intro m v
    rw [pointer_iBlocks (by omega), hraw1, pointer_putLe hraw (by omega) (by decide)]
  have hfields : SameFields raw (putLe 4 raw1 28 (leAt 4 raw1 28 - L.sectorsPerBlock)) := by
    rw [hraw1]
    exact (SameFields.of_putLe (.inr ⟨by omega, by omega⟩) hraw).trans
      (.of_putLe (.inl rfl) (by rw [length_putLe (by omega)]; exact hraw))
  refine h.released_of_put ⟨hm, fun τ hτ => ?_, fun x => by rw [hvol]; rfl,
      fun x => by rw [hvol]; rfl, hfields, by rw [hptr, if_neg (by omega)],
      fun τ _ _ => by rw [hvol]; rfl, hsteady⟩
    (Layout.leaf_direct hn) rfl (by rwa [hroot])
    (fun x => by rw [hvol, Volume.used_giveBlock, hroot]) (count_dropBlock hraw hlen1 hkeep)
  · refine h.own.blockAt_putPointer (work L s' ino _) h.holds (show n < 15 by omega)
      (h.holds_iff (fun x => by rw [hvol]; rfl) (fun x => by rw [hvol]; rfl)
        ((hasBlocks_congr hfields).mpr h.kind))
      (fun x hx => by rw [work_inode_of_ne hx, work_inode_of_ne hx, hvol]; rfl)
      (fun m _ => by rw [work_inode, work_inode, hptr]) (fun x _ => ?_) (.inl hn) hτ
    show (vol L s').data x = _
    rw [hvol]
    rfl

/-- A block of an indirect block is given back. -/
theorem released_entry [L.Ok] (h : Work L M s ino raw) {σ : Slot (Nat × Nat)} {i : Nat}
    (hσ : L.shape.Leaf (σ.child i)) (hino : σ.1.1 = ino)
    (hz : (forest (work L s ino raw)).blockAt (σ.child i) ≠ 0) {s' : Ext2FS} (hm : Mounted L s')
    (hvol : vol L s' =
      ((vol L s).giveBlock L ((forest (work L s ino raw)).blockAt (σ.child i))).setData
        ((forest (work L s ino raw)).blockAt σ)
        (putLe 4 ((vol L s).data ((forest (work L s ino raw)).blockAt σ)) (i * 4) 0))
    (hsteady : Steady L s s') :
    Released L M s ino raw {σ.child i} (putLe 4 raw 28 (leAt 4 raw 28 - L.sectorsPerBlock)) s' := by
  have hraw := h.length_ge
  have hσ' := (Shape.valid_child.mp hσ.1).1
  have hσz : (forest (work L s ino raw)).blockAt σ ≠ 0 :=
    fun hc => hz (Forest.blockAt_child_of_eq_zero hc i)
  have hdata : ∀ x, (vol L s').data x = if x = (forest (work L s ino raw)).blockAt σ then
      putLe 4 ((vol L s).data x) (i * 4) 0 else (vol L s).data x := by
    intro x
    rw [hvol, Volume.data_setData]
    split
    · next hx => rw [hx]
    · rfl
  refine h.released_of_put ⟨hm, fun τ hτ => ?_, fun x => by rw [hvol]; rfl,
      fun x => by rw [hvol]; rfl, .of_putLe (.inl rfl) hraw, pointer_iBlocks hraw,
      fun τ hτ hτz => ?_, hsteady⟩
    hσ hino hz (fun x => by rw [hvol]; exact Volume.used_giveBlock _ L _ x)
    (count_dropBlock hraw rfl rfl)
  · refine h.own.blockAt_putEntry (work L s' ino _) hσ.1 hσz
      (h.mounted.length_data (h.own.isData hσ' hσz)) (by decide)
      (h.holds_iff (fun x => by rw [hvol]; rfl) (fun x => by rw [hvol]; rfl)
        ((hasBlocks_congr (.of_putLe (.inl rfl) hraw)).mpr h.kind))
      (fun x m _ => ?_) (fun x _ => hdata x) (.inl hσ) hτ
    by_cases hx : x = ino
    · rw [hx, work_inode, work_inode, pointer_iBlocks hraw]
    · rw [work_inode_of_ne hx, work_inode_of_ne hx, hvol]
      rfl
  · rw [hdata, if_neg (h.own.leaf_ne hτ hτz hσ.1)]

end Work

/-- **`truncateBlock`** gives back the block of a file block. -/
theorem truncateBlock_wp [L.Ok] (h : Work L M s ino raw) (fb : Nat) :
    (truncateBlock raw fb).wlp
      (fun raw' s' => fb < L.maxBlocks ∧ Released L M s ino raw {L.fileSlot ino fb} raw' s') s := by
  have hraw := h.length_ge
  refine wp_bind_ok (resolveBlock_wp h fb) ?_
  rintro b s1 ⟨hfb, rfl, ha1⟩
  by_cases hz : (forest (work L s ino raw)).blockAt (L.fileSlot ino fb) = 0
  · rw [if_pos hz]
    exact ⟨hfb, .of_empty h ha1 fun τ hτ => by rw [show τ = _ from hτ, hz]⟩
  rw [if_neg hz]
  have hleaf := @Layout.leaf_fileSlot L ino fb hfb
  have hdata := h.own.isData hleaf.1 hz
  refine wp_bind_ok (freeBlock_wp ha1.mounted ⟨hdata.1, hdata.2.1⟩) ?_
  rintro - s2 ha2
  rw [ha1.vol_eq] at ha2
  have hsteady : Steady L s s2 := (ha1.trans_empty ha2).steady_giveBlock ⟨hdata.1, hdata.2.1⟩
    (h.own.owned.taken _ hleaf.1 hz).2.2
  simp only [clearPointer, wp_bind, wp_get, ptrsPerBlock_eq ha2.mounted.tables, nDirBlocks]
  obtain hd | ⟨r, hr, rfl⟩ | ⟨r, rfl⟩ := L.fileBlock_cases fb
  · rw [Layout.fileSlot_direct hd] at hz ha2 ⊢
    rw [h.forest_root (by omega)] at hz ha2
    rw [if_pos (by omega), wp_lift]
    cases hset : setIBlockN raw fb 0 with
    | error e => exact trivial
    | ok raw1 =>
      obtain ⟨-, hraw1⟩ := setIBlockN_ok hset
      have hlen1 : raw1.length = raw.length := by rw [hraw1, length_putLe (by omega)]
      refine wp_imp (dropBlock_wp ha2.mounted.tables (by omega)) ?_
      rintro raw2 s3 ⟨rfl, rfl⟩
      exact ⟨hfb, h.released_pointer hd hz ha2.mounted ha2.vol_eq hsteady hraw1⟩
  · have hrel : (((r + 12 : Nat) : Int) - ((12 : Nat) : Int)).toNat = r := by omega
    rw [Layout.fileSlot_indirect hr] at hz ha2 hleaf ⊢
    have hindz : pointer raw 12 ≠ 0 := by
      rw [← h.forest_root (by omega)]
      exact fun hc => hz (Forest.blockAt_child_of_eq_zero hc r)
    have hind : L.IsData (pointer raw 12) := by
      rw [← h.forest_root (by omega)] at hindz ⊢
      exact h.own.isData (Shape.valid_root _) hindz
    simp only [hrel]
    rw [if_neg (by omega), if_pos hr]
    simp only [wp_bind, wp_lift, indBlock, iBlockN_eq hraw (show 12 < 15 by omega)]
    refine wp_imp (clearEntry_wp ha2.mounted hind hr) ?_
    rintro - s3 ha3
    have hsteady3 := hsteady.trans (ha3.steady (fun _ => rfl) (fun _ => rfl) rfl)
    rw [ha2.vol_eq, ← h.forest_root (by omega)] at ha3
    rw [wp_pure]
    refine wp_imp (dropBlock_wp ha3.mounted.tables hraw) ?_
    rintro raw2 s4 ⟨rfl, rfl⟩
    exact ⟨hfb, h.released_entry hleaf rfl hz ha3.mounted ha3.vol_eq hsteady3⟩
  · have hrel : (((r + L.ptrsPerBlock + 12 : Nat) : Int) - ((12 : Nat) : Int)).toNat =
        r + L.ptrsPerBlock := by omega
    rw [Layout.fileSlot_double] at hz ha2 hleaf ⊢
    obtain ⟨hvalid, -, hj⟩ := Shape.valid_child.mp hleaf.1
    obtain ⟨-, -, hi⟩ := Shape.valid_child.mp hvalid
    set ind := Slot.child ((ino, 13), []) (r / L.ptrsPerBlock)
    have hindz : (forest (work L s ino raw)).blockAt ind ≠ 0 :=
      fun hc => hz (Forest.blockAt_child_of_eq_zero hc _)
    have hdindz : pointer raw 13 ≠ 0 := by
      rw [← h.forest_root (by omega)]
      exact fun hc => hindz (Forest.blockAt_child_of_eq_zero hc _)
    have hentry : (forest (work L s ino raw)).blockAt ind =
        leAt 4 ((vol L s).data (pointer raw 13)) (r / L.ptrsPerBlock * 4) := by
      rw [Forest.blockAt_child, h.forest_root (by omega), follow_of_ne hdindz]
      rfl
    have hdind : L.IsData (pointer raw 13) := by
      rw [← h.forest_root (by omega)] at hdindz ⊢
      exact h.own.isData (Shape.valid_root _) hdindz
    simp only [hrel, Nat.add_sub_cancel]
    rw [if_neg (by omega), if_neg (by omega)]
    simp only [wp_bind, wp_lift, dindBlock, iBlockN_eq hraw (show 13 < 15 by omega)]
    refine wp_imp (readEntryAt_wp ha2.mounted hdind hi) ?_
    rintro b s3 ⟨rfl, ha3⟩
    have hsteady3 := hsteady.trans (ha3.steady (fun _ => rfl) (fun _ => rfl) rfl)
    rw [Same, ha2.vol_eq] at ha3
    rw [ha2.vol_eq]
    have hsame : ((vol L s).giveBlock L ((forest (work L s ino raw)).blockAt
        (Slot.child ind (r % L.ptrsPerBlock)))).data (pointer raw 13) =
          (vol L s).data (pointer raw 13) := rfl
    rw [hsame, ← hentry]
    refine wp_imp (clearEntry_wp ha3.mounted (h.own.isData hvalid hindz) hj) ?_
    rintro - s4 ha4
    have hsteady4 := hsteady3.trans (ha4.steady (fun _ => rfl) (fun _ => rfl) rfl)
    rw [ha3.vol_eq] at ha4
    rw [wp_pure]
    refine wp_imp (dropBlock_wp ha4.mounted.tables hraw) ?_
    rintro raw2 s5 ⟨rfl, rfl⟩
    exact ⟨hfb, h.released_entry hleaf rfl hz ha4.mounted ha4.vol_eq hsteady4⟩

/-- **`truncateBlocks`** gives back the blocks of a range of file blocks. -/
theorem truncateBlocks_wp [L.Ok] (h : Work L M s ino raw) (n fb : Nat) :
    (truncateBlocks n fb raw).wlp (fun raw' s' => Released L M s ino raw
        { τ | ∃ k, fb ≤ k ∧ k < fb + n ∧ τ = L.fileSlot ino k } raw' s') s := by
  induction n generalizing s raw fb with
  | zero =>
    refine .of_empty h (After.refl h.mounted) ?_
    rintro τ ⟨k, hlo, hhi, -⟩
    omega
  | succ n ih =>
    refine wp_bind_ok (truncateBlock_wp h fb) ?_
    rintro raw1 s1 ⟨-, hr⟩
    refine wp_imp (ih hr.ready (fb + 1)) ?_
    intro raw2 s2 hr'
    have hset : ({L.fileSlot ino fb} ∪
        { τ | ∃ k, fb + 1 ≤ k ∧ k < fb + 1 + n ∧ τ = L.fileSlot ino k } : Set _) =
        { τ | ∃ k, fb ≤ k ∧ k < fb + (n + 1) ∧ τ = L.fileSlot ino k } := by
      ext τ
      constructor
      · rintro (hτ | ⟨k, hlo, hhi, hτ⟩)
        · exact ⟨fb, Nat.le_refl _, by omega, hτ⟩
        · exact ⟨k, by omega, by omega, hτ⟩
      · rintro ⟨k, hlo, hhi, hτ⟩
        rcases Nat.eq_or_lt_of_le hlo with heq | hlt
        · exact .inl (by rw [heq]; exact hτ)
        · exact .inr ⟨k, hlt, by omega, hτ⟩
    exact hset ▸ hr.trans hr'

/-! ### `_free_all_blocks` -/

end

/-- The blocks `bs` are given back, one after the other. -/
def Volume.giveBlocks (V : Volume) (L : Layout) (bs : List Nat) : Volume :=
  bs.foldl (fun W b => W.giveBlock L b) V

namespace Volume

variable (V : Volume) (L : Layout) (bs : List Nat)

theorem giveBlocks_append (bs' : List Nat) :
    V.giveBlocks L (bs ++ bs') = (V.giveBlocks L bs).giveBlocks L bs' := foldl_append ..

theorem giveBlocks_keeps : (V.giveBlocks L bs).inodeUsed = V.inodeUsed ∧
    (V.giveBlocks L bs).inode = V.inode ∧ (V.giveBlocks L bs).data = V.data := by
  induction bs generalizing V with
  | nil => exact ⟨rfl, rfl, rfl⟩
  | cons b bs ih => exact ih (V.giveBlock L b)

@[simp] theorem inodeUsed_giveBlocks : (V.giveBlocks L bs).inodeUsed = V.inodeUsed :=
  (V.giveBlocks_keeps L bs).1

@[simp] theorem inode_giveBlocks : (V.giveBlocks L bs).inode = V.inode :=
  (V.giveBlocks_keeps L bs).2.1

@[simp] theorem data_giveBlocks : (V.giveBlocks L bs).data = V.data :=
  (V.giveBlocks_keeps L bs).2.2

theorem used_giveBlocks (x : Nat) :
    (V.giveBlocks L bs).used x = true ↔ V.used x = true ∧ x ∉ bs := by
  induction bs generalizing V with
  | nil => simp [giveBlocks]
  | cons b bs ih =>
    rw [giveBlocks, foldl_cons, ← giveBlocks, ih, used_giveBlock]
    by_cases hx : x = b <;> simp [hx]

theorem usedDirs_giveBlocks (g : Nat) :
    ((V.giveBlocks L bs).counters.group g).usedDirs = (V.counters.group g).usedDirs := by
  induction bs generalizing V with
  | nil => rfl
  | cons b bs ih =>
    refine (ih (V.giveBlock L b)).trans
      ((congrFun (Counts.group_add _ _ _ _ _).2.2 g).trans ?_)
    simp

end Volume

/-- What the entries `i`, ..., `i + k - 1` of a block lead to. -/
def entriesBlocks (S : Nat → List Nat) (blk : Bytes) (i k : Nat) : List Nat :=
  (range' i k).flatMap fun j =>
    if leAt 4 blk (j * 4) = 0 then [] else S (leAt 4 blk (j * 4))

/-- The blocks of a tree of `d` levels below block `b`, as they are freed. -/
def treeBlocks (L : Layout) (data : Nat → Bytes) : (d b : Nat) → List Nat
  | 0, b => [b]
  | d + 1, b => entriesBlocks (treeBlocks L data d) (data b) 0 L.ptrsPerBlock ++ [b]

/-- The blocks below pointer `n` of an inode. -/
def pointerBlocks (L : Layout) (data : Nat → Bytes) (raw : Bytes) (n : Nat) : List Nat :=
  if pointer raw n = 0 then [] else treeBlocks L data (n - 11) (pointer raw n)

/-- The blocks that `freeAllBlocks` frees: none below the triple-indirect pointer. -/
def inodeBlocks (L : Layout) (data : Nat → Bytes) (raw : Bytes) : List Nat :=
  (range 14).flatMap (pointerBlocks L data raw)

/-- All blocks of the tree can hold data. -/
def TreeOk (L : Layout) (data : Nat → Bytes) : (d b : Nat) → Prop
  | 0, b => L.IsData b
  | d + 1, b => L.IsData b ∧ ∀ j < L.ptrsPerBlock, leAt 4 (data b) (j * 4) ≠ 0 →
      TreeOk L data d (leAt 4 (data b) (j * 4))

/-- Free a tree of `d` levels. -/
def freeLevels : Nat → Nat → FS Unit
  | 0 => freeBlock
  | d + 1 => freeTree (freeLevels d)

section

variable {L : Layout} {s : Ext2FS}

theorem TreeOk.isData {data : Nat → Bytes} {d b : Nat} (h : TreeOk L data d b) : L.IsData b := by
  cases d with
  | zero => exact h
  | succ d => exact h.1

theorem entriesBlocks_succ (S : Nat → List Nat) (blk : Bytes) (i k : Nat) :
    entriesBlocks S blk i (k + 1) =
      (if leAt 4 blk (i * 4) = 0 then [] else S (leAt 4 blk (i * 4))) ++
        entriesBlocks S blk (i + 1) k := rfl

theorem mem_entriesBlocks {S : Nat → List Nat} {blk : Bytes} {i k x : Nat} :
    x ∈ entriesBlocks S blk i k ↔ ∃ j, i ≤ j ∧ j < i + k ∧ leAt 4 blk (j * 4) ≠ 0 ∧
      x ∈ S (leAt 4 blk (j * 4)) := by
  simp only [entriesBlocks, mem_flatMap, mem_range'_1]
  constructor
  · rintro ⟨j, ⟨hlo, hhi⟩, hx⟩
    split at hx
    · cases hx
    · next hz => exact ⟨j, hlo, hhi, hz, hx⟩
  · rintro ⟨j, hlo, hhi, hz, hx⟩
    exact ⟨j, ⟨hlo, hhi⟩, by rwa [if_neg hz]⟩

/-- The loop over the entries of an indirect block. -/
theorem freeEntries_wp {free : Nat → FS Unit} {S : Nat → List Nat}
    {data : Nat → Bytes} {P : Nat → Prop} {ind : Nat} {r : Ref} (hind : L.IsData ind)
    (hfree : ∀ s b, Mounted L s → (vol L s).data = data → P b →
      (free b).wlp (fun _ s' => After L s ∅ ((vol L s).giveBlocks L (S b)) s') s)
    (h : Mounted L s) (hr : s.blockCache ind = some r) (hdata : (vol L s).data = data)
    {k i : Nat} (hk : i + k ≤ L.ptrsPerBlock)
    (hP : ∀ j < L.ptrsPerBlock, leAt 4 (data ind) (j * 4) ≠ 0 → P (leAt 4 (data ind) (j * 4))) :
    (freeEntries free r k i).wlp
      (fun _ s' => After L s ∅ ((vol L s).giveBlocks L (entriesBlocks S (data ind) i k)) s') s := by
  induction k generalizing s i with
  | zero => exact After.refl h
  | succ k ih =>
    have hheap : s.heap r = data ind := by
      rw [h.heap_eq hr hind.ne_super, ← hdata, vol, volume_data hind]
    have hlen : (data ind).length = L.blockSize := hdata ▸ h.length_data hind
    simp only [freeEntries, wp_bind, load_wp, hheap, wp_lift,
      unpack_entry hlen (show i < L.ptrsPerBlock by omega)]
    rw [entriesBlocks_succ]
    by_cases hz : leAt 4 (data ind) (i * 4) = 0
    · rw [if_pos hz, if_pos hz, nil_append]
      exact ih h hr hdata (by omega)
    · rw [if_neg hz, if_neg hz, Volume.giveBlocks_append]
      refine wp_bind_ok (hfree s _ h hdata (hP i (by omega) hz)) ?_
      rintro - s1 ha1
      refine wp_imp (ih ha1.mounted (ha1.held _ _ hind (Set.notMem_empty _) hr)
        (by rw [ha1.vol_eq, Volume.data_giveBlocks, hdata]) (by omega)) ?_
      intro _ s2 ha2
      rw [ha1.vol_eq] at ha2
      exact ha1.trans_empty ha2

/-- **A tree is freed** with everything in it. -/
theorem freeLevels_wp [L.Ok] {data : Nat → Bytes} (d : Nat) {b : Nat} (h : Mounted L s)
    (hdata : (vol L s).data = data) (hb : TreeOk L data d b) :
    (freeLevels d b).wlp
      (fun _ s' => After L s ∅ ((vol L s).giveBlocks L (treeBlocks L data d b)) s') s := by
  induction d generalizing s b with
  | zero =>
    exact wp_imp (freeBlock_wp h ⟨hb.isData.1, hb.isData.2.1⟩) (fun _ _ ha => ha)
  | succ d ih =>
    refine wp_bind_ok (readData_wp h hb.1) ?_
    rintro r s1 ⟨ha1, hr, -⟩
    simp only [wp_bind, wp_get, ptrsPerBlock_eq ha1.mounted.tables]
    refine wp_imp (freeEntries_wp hb.1 (fun s2 x hm2 hd2 hx => ih hm2 hd2 hx)
      ha1.mounted hr (by rw [ha1.vol_eq, hdata]) (by omega) hb.2) ?_
    rintro - s2 ha2
    refine wp_imp (freeBlock_wp ha2.mounted ⟨hb.1.1, hb.1.2.1⟩) ?_
    intro _ s3 ha3
    rw [ha2.vol_eq, ha1.vol_eq] at ha3
    rw [treeBlocks, Volume.giveBlocks_append]
    exact (ha1.trans_empty ha2).trans_empty ha3

/-- The blocks of a tree are those its paths lead to. -/
theorem mem_treeBlocks [L.Ok] {V : Volume} {d b x : Nat} (hb : TreeOk L V.data d b) :
    x ∈ treeBlocks L V.data d b ↔ x ≠ 0 ∧ ∃ p : List Nat, p.length ≤ d ∧
      (∀ i ∈ p, i < L.ptrsPerBlock) ∧ p.foldl (follow (forest V).next) b = x := by
  induction d generalizing b with
  | zero =>
    rw [treeBlocks, mem_singleton]
    constructor
    · rintro rfl
      exact ⟨hb.isData.ne_zero, [], Nat.le_refl _, by simp, rfl⟩
    · rintro ⟨-, p, hp, -, rfl⟩
      obtain rfl : p = [] := length_eq_zero_iff.mp (Nat.le_zero.mp hp)
      rfl
  | succ d ih =>
    have hbz := hb.isData.ne_zero
    rw [treeBlocks, mem_append, mem_entriesBlocks, mem_singleton]
    constructor
    · rintro (⟨j, -, hj, hjz, hx⟩ | rfl)
      · rw [Nat.zero_add] at hj
        obtain ⟨hxz, p, hp, hall, hfold⟩ := (ih (hb.2 j hj hjz)).mp hx
        refine ⟨hxz, j :: p, by simpa using hp, ?_, ?_⟩
        · simpa using ⟨hj, hall⟩
        · rw [foldl_cons, follow_of_ne hbz]
          exact hfold
      · exact ⟨hbz, [], Nat.zero_le _, by simp, rfl⟩
    · rintro ⟨hxz, p, hp, hall, hfold⟩
      cases p with
      | nil => exact .inr hfold.symm
      | cons j p =>
        rw [foldl_cons, follow_of_ne hbz] at hfold
        have hjz : leAt 4 (V.data b) (j * 4) ≠ 0 := by
          intro hc
          rw [forest_next, hc, foldl_follow_zero] at hfold
          exact hxz hfold.symm
        have hj : j < L.ptrsPerBlock := hall j (by simp)
        refine .inl ⟨j, Nat.zero_le _, by omega, hjz,
          (ih (hb.2 j hj hjz)).mpr ⟨hxz, p, by simpa using hp, ?_, hfold⟩⟩
        exact fun i hi => hall i (by simp [hi])

/-- The block of a slot below another. -/
theorem blockAt_append (V : Volume) (k : Nat × Nat) (p q : List Nat) :
    (forest V).blockAt (k, p ++ q) = q.foldl (follow (forest V).next) ((forest V).blockAt (k, p)) :=
  foldl_append ..

section Tree

variable {V : Volume} {k : Nat × Nat}
  (hdata : ∀ p, L.shape.Valid (k, p) → (forest V).blockAt (k, p) ≠ 0 →
    L.IsData ((forest V).blockAt (k, p)))

include hdata

section

variable (d : Nat) {p : List Nat} (hp : L.shape.Valid (k, p))
  (hd : p.length + d ≤ L.shape.depth k) (hz : (forest V).blockAt (k, p) ≠ 0)

include hp hd hz

/-- The blocks below a slot. -/
theorem treeOk_blockAt :
    TreeOk L V.data d ((forest V).blockAt (k, p)) := by
  induction d generalizing p with
  | zero => exact hdata p hp hz
  | succ d ih =>
    refine ⟨hdata p hp hz, fun j hj hjz => ?_⟩
    have hchild : (forest V).blockAt (k, p ++ [j]) =
        leAt 4 (V.data ((forest V).blockAt (k, p))) (j * 4) := by
      rw [blockAt_append, foldl_cons, foldl_nil, follow_of_ne hz]
      rfl
    rw [← hchild] at hjz ⊢
    refine ih (Shape.valid_child.mpr ⟨hp, ?_, hj⟩) ?_ hjz
    · show p.length < L.shape.depth k
      omega
    · rw [length_append, length_singleton]
      omega

/-- If no block is reached twice, a tree has no block twice. -/
theorem nodup_treeBlocks [L.Ok]
    (hinj : ∀ p q, L.shape.Valid (k, p) → L.shape.Valid (k, q) → (forest V).blockAt (k, p) ≠ 0 →
      (forest V).blockAt (k, p) = (forest V).blockAt (k, q) → p = q) :
    (treeBlocks L V.data d ((forest V).blockAt (k, p))).Nodup := by
  induction d generalizing p with
  | zero => exact nodup_singleton _
  | succ d ih =>
    have hok := treeOk_blockAt hdata (d + 1) hp hd hz
    have hchild : ∀ j, leAt 4 (V.data ((forest V).blockAt (k, p))) (j * 4) =
        (forest V).blockAt (k, p ++ [j]) := by
      intro j
      rw [blockAt_append, foldl_cons, foldl_nil, follow_of_ne hz]
      rfl
    have hvalid : ∀ {j}, j < L.ptrsPerBlock → L.shape.Valid (k, p ++ [j]) := by
      intro j hj
      exact Shape.valid_child.mpr ⟨hp, show p.length < L.shape.depth k by omega, hj⟩
    -- a block below entry `j` has a path through `j`
    have hpath : ∀ {j x}, j < L.ptrsPerBlock → (forest V).blockAt (k, p ++ [j]) ≠ 0 →
        x ∈ treeBlocks L V.data d ((forest V).blockAt (k, p ++ [j])) → x ≠ 0 ∧
          ∃ q, L.shape.Valid (k, p ++ j :: q) ∧ (forest V).blockAt (k, p ++ j :: q) = x := by
      intro j x hj hjz hx
      have hokj := hok.2 j hj (by rwa [hchild])
      rw [hchild] at hokj
      obtain ⟨hxz, q, hq, hall, hfold⟩ := (mem_treeBlocks hokj).mp hx
      refine ⟨hxz, q, ⟨?_, ?_⟩, ?_⟩
      · simp only [length_append, length_cons]
        omega
      · intro i hi
        rcases mem_append.mp hi with hi | hi
        · exact hp.2 i hi
        · rcases mem_cons.mp hi with rfl | hi
          · exact hj
          · exact hall i hi
      · rw [append_cons, blockAt_append, hfold]
    refine nodup_append.mpr ⟨?_, nodup_singleton _, ?_⟩
    · refine nodup_flatMap.mpr ⟨fun j hj => ?_, ?_⟩
      · rw [hchild]
        split
        · exact nodup_nil
        · next hjz =>
          rw [mem_range'_1] at hj
          refine ih (hvalid (by omega)) ?_ hjz
          rw [length_append, length_singleton]
          omega
      · refine List.Pairwise.imp_of_mem (fun {i j} hi hj hij => ?_) (pairwise_lt_range' 1)
        rw [mem_range'_1] at hi hj
        simp only [Function.onFun, hchild]
        intro x hxi hxj
        split at hxi
        · cases hxi
        · next hiz =>
          split at hxj
          · cases hxj
          · next hjz =>
            obtain ⟨hxz, q, hq, hqx⟩ := hpath (by omega) hiz hxi
            obtain ⟨-, q', hq', hqx'⟩ := hpath (by omega) hjz hxj
            have heq := hinj _ _ hq hq' (by rwa [hqx]) (hqx.trans hqx'.symm)
            have := (List.cons.inj (append_cancel_left heq)).1
            omega
    · rintro x hx y hy rfl
      rw [mem_singleton] at hy
      obtain ⟨j, -, hj, hjz, hxj⟩ := mem_entriesBlocks.mp hx
      rw [hchild] at hjz hxj
      obtain ⟨hxz, q, hq, hqx⟩ := hpath (by omega) hjz hxj
      have heq := hinj _ _ hq hp (by rwa [hqx]) (hqx.trans hy)
      exact absurd (congrArg List.length heq) (by simp)

end

/-- The tree under a pointer. -/
theorem treeBlocks_root [L.Ok] (hz : (forest V).root k ≠ 0) :
    TreeOk L V.data (k.2 - 11) ((forest V).root k) ∧
      ∀ x, x ∈ treeBlocks L V.data (k.2 - 11) ((forest V).root k) ↔
        x ∈ Forest.reached L.shape (forest V) {k} := by
  have hok := treeOk_blockAt hdata (k.2 - 11) (Shape.valid_root k)
    (Nat.le_of_eq (Nat.zero_add _)) hz
  refine ⟨hok, fun x => ?_⟩
  rw [mem_treeBlocks (b := (forest V).root k) hok]
  constructor
  · rintro ⟨hxz, p, hp, hall, hfold⟩
    exact ⟨hxz, (k, p), ⟨hp, hall⟩, rfl, hfold⟩
  · rintro ⟨hxz, ⟨k', p⟩, ⟨hp, hall⟩, hk, hfold⟩
    obtain rfl : k' = k := hk
    exact ⟨hxz, p, hp, hall, hfold⟩

end Tree

section FreeAll

variable {raw : Bytes} {data : Nat → Bytes}

/-- **`freePointer`** frees what the pointer leads to. -/
theorem freePointer_wp [L.Ok] (h : Mounted L s) (hraw : 128 ≤ raw.length)
    (hdata : (vol L s).data = data) {n : Nat} (hn : n < 15)
    (hok : pointer raw n ≠ 0 → TreeOk L data (n - 11) (pointer raw n)) :
    (freePointer raw n (freeLevels (n - 11))).wlp (fun raw' s' => raw'.length = raw.length ∧
        (∀ m, m ≠ n → pointer raw' m = pointer raw m) ∧
        After L s ∅ ((vol L s).giveBlocks L (pointerBlocks L data raw n)) s') s := by
  simp only [freePointer, wp_bind, wp_lift, iBlockN_eq hraw hn, pointerBlocks]
  by_cases hz : pointer raw n = 0
  · rw [if_pos hz, if_pos hz]
    exact ⟨rfl, fun _ _ => rfl, After.refl h⟩
  · rw [if_neg hz, if_neg hz]
    refine wp_bind_ok (freeLevels_wp (n - 11) h hdata (hok hz)) ?_
    rintro - s1 ha
    cases hset : setIBlockN raw n 0 with
    | error e => exact trivial
    | ok raw' =>
      obtain ⟨-, rfl⟩ := setIBlockN_ok hset
      refine ⟨length_putLe (by omega), fun m hm => ?_, ha⟩
      rw [pointer_putLe hraw hn (by decide), if_neg hm]

theorem pointerBlocks_congr {raw' : Bytes} {n : Nat} (h : pointer raw' n = pointer raw n) :
    pointerBlocks L data raw' n = pointerBlocks L data raw n := by
  unfold pointerBlocks
  rw [h]

section

variable (h : Mounted L s) (hraw : 128 ≤ raw.length) (hdata : (vol L s).data = data)

include h hraw hdata

theorem freeDirect_wp [L.Ok] {k n : Nat} (hn : n + k ≤ 12)
    (hok : ∀ m, n ≤ m → m < 12 → pointer raw m ≠ 0 → L.IsData (pointer raw m)) :
    (freeDirect k n raw).wlp (fun raw' s' => raw'.length = raw.length ∧
        (∀ m, n + k ≤ m → pointer raw' m = pointer raw m) ∧
        After L s ∅ ((vol L s).giveBlocks L
          ((range' n k).flatMap (pointerBlocks L data raw))) s') s := by
  induction k generalizing s n raw with
  | zero => exact ⟨rfl, fun _ _ => rfl, After.refl h⟩
  | succ k ih =>
    have hfree := freePointer_wp h hraw hdata (n := n) (by omega)
    rw [show n - 11 = 0 by omega] at hfree
    refine wp_bind_ok (hfree (hok n (Nat.le_refl _) (by omega))) ?_
    rintro raw1 s1 ⟨hlen1, hptr1, ha1⟩
    refine wp_imp (ih ha1.mounted (by omega) (by rw [ha1.vol_eq]; simpa using hdata) (by omega)
      fun m hlo hm => by rw [hptr1 m (by omega)]; exact hok m (by omega) hm) ?_
    rintro raw2 s2 ⟨hlen2, hptr2, ha2⟩
    have hsame : (range' (n + 1) k).flatMap (pointerBlocks L data raw1) =
        (range' (n + 1) k).flatMap (pointerBlocks L data raw) := by
      refine flatMap_congr fun m hm => pointerBlocks_congr (hptr1 m ?_)
      rw [mem_range'_1] at hm
      omega
    rw [hsame, ha1.vol_eq] at ha2
    rw [range'_succ, flatMap_cons, Volume.giveBlocks_append]
    exact ⟨hlen2.trans hlen1, fun m hm => by rw [hptr2 m (by omega), hptr1 m (by omega)],
      ha1.trans_empty ha2⟩

/-- **`freeAllBlocks`** frees every block of the inode that is not under the
triple-indirect pointer. -/
theorem freeAllBlocks_wp [L.Ok]
    (hok : ∀ m < 14, pointer raw m ≠ 0 → TreeOk L data (m - 11) (pointer raw m)) :
    (freeAllBlocks raw).wlp
      (fun _ s' => After L s ∅ ((vol L s).giveBlocks L (inodeBlocks L data raw)) s') s := by
  refine wp_bind_ok (freeDirect_wp h hraw hdata (k := nDirBlocks) (n := 0)
    (Nat.le_refl _) fun m _ hm hz => ?_) ?_
  · have := hok m (by omega) hz
    rwa [show m - 11 = 0 by omega] at this
  rintro raw1 s1 ⟨hlen1, hptr1, ha1⟩
  have h12 : pointer raw1 indBlock = pointer raw indBlock := hptr1 _ (by decide)
  have hdata1 : (vol L s1).data = data := by rw [ha1.vol_eq, Volume.data_giveBlocks, hdata]
  refine wp_bind_ok (freePointer_wp ha1.mounted (by omega) hdata1 (n := indBlock)
    (by decide) (by rw [h12]; exact hok indBlock (by decide))) ?_
  rintro raw2 s2 ⟨hlen2, hptr2, ha2⟩
  have h13 : pointer raw2 dindBlock = pointer raw dindBlock :=
    (hptr2 _ (by decide)).trans (hptr1 _ (by decide))
  rw [ha1.vol_eq, pointerBlocks_congr h12] at ha2
  have hdata2 : (vol L s2).data = data := by
    rw [ha2.vol_eq, Volume.data_giveBlocks, Volume.data_giveBlocks, hdata]
  refine wp_bind_ok (freePointer_wp ha2.mounted (by omega) hdata2 (n := dindBlock)
    (by decide) (by rw [h13]; exact hok dindBlock (by decide))) ?_
  rintro raw3 s3 ⟨hlen3, -, ha3⟩
  rw [ha2.vol_eq, pointerBlocks_congr h13, ← Volume.giveBlocks_append,
    ← Volume.giveBlocks_append] at ha3
  have hlist : (range' 0 nDirBlocks).flatMap (pointerBlocks L data raw) ++
      (pointerBlocks L data raw indBlock ++ pointerBlocks L data raw dindBlock) =
      inodeBlocks L data raw := by
    rw [inodeBlocks, range_eq_range', show 14 = nDirBlocks + 2 from rfl, ← range'_append_1,
      flatMap_append]
    simp [range'_succ, nDirBlocks, indBlock, dindBlock]
  rw [hlist] at ha3
  cases setIBlocks raw3 0 with
  | error e => exact trivial
  | ok raw4 => exact (ha1.trans_empty ha2).trans_empty ha3

end

end FreeAll

/-! ### The blocks of an inode -/

section InodeBlocks

variable {M : Set Nat} {V : Volume} {ino : Nat} [hL : L.Ok] (h : Own L M V)
  (hino : V.Holds ino)

include h hino

theorem treeOk_pointer {n : Nat} (hn : n < 15) (hz : pointer (V.inode ino) n ≠ 0) :
    TreeOk L V.data (n - 11) (pointer (V.inode ino) n) := by
  have hroot := forest_root hino hn
  have hok := treeBlocks_root (k := (ino, n)) (fun p hp => h.isData hp) (by rwa [hroot])
  rw [← hroot]
  exact hok.1

theorem mem_pointerBlocks {n : Nat} (hn : n < 15) (x : Nat) :
    x ∈ pointerBlocks L V.data (V.inode ino) n ↔
      x ∈ Forest.reached L.shape (forest V) {(ino, n)} := by
  have hroot := forest_root hino hn
  unfold pointerBlocks
  split
  · next hz =>
    rw [hz] at hroot
    refine iff_of_false (by simp) ?_
    rintro ⟨hxz, ⟨k, p⟩, -, hk, rfl⟩
    obtain rfl : k = (ino, n) := hk
    exact hxz (Forest.blockAt_of_root_eq_zero hroot)
  · next hz =>
    have hok := treeBlocks_root (k := (ino, n)) (fun p hp => h.isData hp) (by rwa [hroot])
    rw [← hroot]
    exact hok.2 x

/-- The blocks that `freeAllBlocks` frees are those of the inode. -/
theorem mem_inodeBlocks (x : Nat) : x ∈ inodeBlocks L V.data (V.inode ino) ↔
    x ∈ Forest.reached L.shape (forest V) { κ | κ.1 = ino ∧ κ.2 < 14 } := by
  simp only [inodeBlocks, mem_flatMap, mem_range]
  constructor
  · rintro ⟨n, hn, hx⟩
    obtain ⟨hxz, τ, hτ, hk, heq⟩ := (mem_pointerBlocks h hino (by omega) x).mp hx
    exact ⟨hxz, τ, hτ, ⟨by rw [hk], by rw [hk]; exact hn⟩, heq⟩
  · rintro ⟨hxz, ⟨⟨i, n⟩, p⟩, hτ, ⟨hi, hn⟩, heq⟩
    obtain rfl : i = ino := hi
    exact ⟨n, hn, (mem_pointerBlocks h hino (Nat.lt_succ_of_lt hn) x).mpr ⟨hxz, _, hτ, rfl, heq⟩⟩

/-- No block of an inode is freed twice. -/
theorem nodup_inodeBlocks : (inodeBlocks L V.data (V.inode ino)).Nodup := by
  refine nodup_flatMap.mpr ⟨fun n hn => ?_, ?_⟩
  · rw [mem_range] at hn
    have hroot := forest_root (n := n) hino (by omega)
    unfold pointerBlocks
    split
    · exact nodup_nil
    · next hz =>
      have hnodup := nodup_treeBlocks (k := (ino, n)) (fun p hp => h.isData hp) (n - 11)
        (Shape.valid_root (ino, n)) (Nat.le_of_eq (Nat.zero_add _))
        (show (forest V).root (ino, n) ≠ 0 by rwa [hroot])
        fun p q hp hq hpz heq => (Prod.mk.inj (h.owned.inj _ _ hp hq hpz heq)).2
      rw [← hroot]
      exact hnodup
  · refine List.Pairwise.imp_of_mem (fun {n m} hn hm hnm => ?_) (pairwise_lt_range (n := 14))
    rw [mem_range] at hn hm
    intro x hxn hxm
    obtain ⟨hxz, τ, hτ, hk, heq⟩ := (mem_pointerBlocks h hino (by omega) x).mp hxn
    obtain ⟨-, τ', hτ', hk', heq'⟩ := (mem_pointerBlocks h hino (by omega) x).mp hxm
    obtain rfl := h.owned.inj τ τ' hτ hτ' (by rwa [heq]) (heq.trans heq'.symm)
    have := (Prod.mk.inj (hk.symm.trans hk')).2
    omega

end InodeBlocks

end

end PythonOS.Ext2
