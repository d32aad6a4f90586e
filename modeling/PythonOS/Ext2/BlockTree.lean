import PythonOS.Ext2.Counts
import PythonOS.Lib.Forest

/-!
# PythonOS.Ext2.BlockTree

Who owns a block of a volume.

The fifteen pointers of the inodes in use are the roots of a forest: twelve direct
ones, and three with one, two and three levels of indirect blocks below them. `Own`
says that no block is reached twice, and none that is free or holds metadata. `Exact`
says in addition that no block is lost, and that every inode counts its blocks.

`Grown` is what the allocation of blocks for a file may do to a volume: every block
stays where it is, and what files hold stays as it is.
-/

namespace PythonOS.Ext2

open Lib Lib.Bytes

/-- Pointer `n` of an inode. -/
def pointer (raw : Bytes) (n : Nat) : Nat := leAt 4 raw (40 + n * 4)

namespace Layout

variable (L : Layout)

def ptrsPerBlock : Nat := L.blockSize / 4

/-- The tree under pointer `n` of an inode. -/
def shape : Shape (Nat × Nat) where
  depth k := k.2 - 11
  width := L.ptrsPerBlock

theorem four_mul_ptrsPerBlock : 4 * L.ptrsPerBlock = L.blockSize :=
  Nat.mul_div_cancel' L.four_dvd_blockSize

end Layout

/-- The mode of an inode says that it is a regular file. -/
abbrev IsReg (raw : Bytes) : Prop := modeFormat (leAt 2 raw 0) = sIfReg

/-- The mode of an inode says that it is a directory. -/
abbrev IsDir (raw : Bytes) : Prop := modeFormat (leAt 2 raw 0) = sIfDir

/-- The size in an inode. -/
def sizeOf (raw : Bytes) : Nat :=
  leAt 4 raw 4 + if modeFormat (leAt 2 raw 0) = sIfReg then leAt 4 raw 108 * 2 ^ 32 else 0

/-- The pointers of an inode are block numbers. They are something else in a device node,
and in a symbolic link whose target lies in the inode. -/
def hasBlocks (raw : Bytes) : Prop :=
  modeFormat (leAt 2 raw 0) = sIfReg ∨ modeFormat (leAt 2 raw 0) = sIfDir ∨
    modeFormat (leAt 2 raw 0) = sIfLnk ∧ 60 < sizeOf raw

instance (raw : Bytes) : Decidable (hasBlocks raw) := inferInstanceAs (Decidable (_ ∨ _))

/-- An inode in use with block numbers in it. -/
def Volume.Holds (V : Volume) (ino : Nat) : Prop :=
  V.inodeUsed ino = true ∧ hasBlocks (V.inode ino)

instance (V : Volume) (ino : Nat) : Decidable (V.Holds ino) := inferInstanceAs (Decidable (_ ∧ _))

/-- The pointers of the inodes in use, and what they point to. -/
def forest (V : Volume) : Forest (Nat × Nat) where
  root k := if V.Holds k.1 ∧ k.2 < 15 then pointer (V.inode k.1) k.2 else 0
  next b i := leAt 4 (V.data b) (i * 4)

/-- A block that is in use, and not for metadata. -/
def Taken (L : Layout) (M : Set Nat) (V : Volume) (b : Nat) : Prop :=
  L.IsData b ∧ b ∉ M ∧ V.used b = true

/-- The blocks of an inode: those of its data and its indirect blocks. -/
def blocksOf (L : Layout) (V : Volume) (ino : Nat) : Set Nat :=
  Forest.reached L.shape (forest V) { k | k.1 = ino }

/-- Every block in use by a file is in use by that file only. `M` are the blocks
of the metadata. -/
structure Own (L : Layout) (M : Set Nat) (V : Volume) : Prop where
  owned : Forest.Owned L.shape (forest V) (Taken L M V)
  metaUsed : ∀ b ∈ M, L.InRange b → V.used b = true
  areas : ∀ a, L.HasArea a → L.block a ∈ M

/-- No block is lost, and the inodes count their blocks. -/
structure Exact (L : Layout) (M : Set Nat) (V : Volume) : Prop where
  used : ∀ b, V.used b = true → b ∈ M ∨ b ∈ Forest.reached L.shape (forest V) Set.univ
  iBlocks : ∀ ino, V.inodeUsed ino = true →
    leAt 4 (V.inode ino) 28 = (blocksOf L V ino).ncard * L.sectorsPerBlock
  tind : ∀ ino, V.Holds ino → pointer (V.inode ino) 14 = 0

/-- What a data block in a slot holds; a hole holds zeros. -/
def leafData (L : Layout) (V : Volume) (τ : Slot (Nat × Nat)) : Bytes :=
  if (forest V).blockAt τ = 0 then zeros L.blockSize else V.data ((forest V).blockAt τ)

namespace Volume

/-- A block comes into use, zeroed. -/
def addBlock (V : Volume) (L : Layout) (b : Nat) : Volume :=
  (V.takeBlock L b).setData b (zeros L.blockSize)

end Volume

section

variable {L : Layout} {M : Set Nat} {V V' : Volume}

theorem forest_root {ino n : Nat} (hino : V.Holds ino) (hn : n < 15) :
    (forest V).root (ino, n) = pointer (V.inode ino) n := if_pos ⟨hino, hn⟩

theorem forest_next (V : Volume) (b i : Nat) :
    (forest V).next b i = leAt 4 (V.data b) (i * 4) := rfl

/-- An inode without block numbers has no blocks. -/
theorem blockAt_of_not_holds {τ : Slot (Nat × Nat)} (h : ¬ V.Holds τ.1.1) :
    (forest V).blockAt τ = 0 :=
  Forest.blockAt_of_root_eq_zero (if_neg fun hc => h hc.1)

namespace Own

variable (h : Own L M V)

include h

theorem isData {τ : Slot (Nat × Nat)} (hτ : L.shape.Valid τ)
    (hz : (forest V).blockAt τ ≠ 0) : L.IsData ((forest V).blockAt τ) :=
  (h.owned.taken τ hτ hz).1

/-- A free block can hold data. -/
theorem fresh {b : Nat} (hb : L.Fresh V b) : L.IsData b ∧ b ∉ M := by
  have hM : b ∉ M := fun hm => absurd (h.metaUsed b hm hb.1) (by simp [hb.2])
  exact ⟨⟨hb.1.1, hb.1.2, fun a ha heq => hM (heq ▸ h.areas a ha)⟩, hM⟩

omit h in
theorem not_taken_of_fresh {b : Nat} (hb : L.Fresh V b) : ¬ Taken L M V b :=
  fun ht => absurd ht.2.2 (by simp [hb.2])

/-- **A pointer of an inode is set.** -/
theorem blockAt_putPointer (V' : Volume) {ino n v : Nat} (hino : V.Holds ino)
    (hn : n < 15) (hused : ∀ x, V'.Holds x ↔ V.Holds x)
    (hinode : ∀ x, x ≠ ino → V'.inode x = V.inode x)
    (hptr : ∀ m < 15, pointer (V'.inode ino) m = if m = n then v else pointer (V.inode ino) m)
    (hdata : ∀ b, Taken L M V b → V'.data b = V.data b)
    (hbelow : n < 12 ∨ pointer (V.inode ino) n = 0 ∧ V'.data v = zeros L.blockSize)
    {τ : Slot (Nat × Nat)} (hτ : L.shape.Valid τ) :
    (forest V').blockAt τ = if τ = ((ino, n), []) then v else (forest V).blockAt τ := by
  refine h.owned.blockAt_putRoot ?_ ?_ ?_ hτ
  · rintro ⟨x, m⟩
    simp only [forest, hused, Prod.mk.injEq]
    by_cases hx : x = ino
    · subst hx
      by_cases hm : m < 15
      · simp only [hino, hm, and_self, if_true, true_and]
        exact hptr m hm
      · have hne : m ≠ n := by omega
        simp [hm, hne]
    · simp only [hx, false_and, if_false]
      rw [hinode x hx]
  · intro b i hb
    rw [forest_next, forest_next, hdata b hb]
  · intro i hi
    rcases hbelow with hlt | ⟨hz, hzero⟩
    · have hdepth := (Shape.valid_child.mp hi).2.1
      simp only [List.length_nil, Layout.shape] at hdepth
      omega
    · refine ⟨?_, by rw [forest_root hino hn, hz, follow_zero]⟩
      rw [follow, forest_next, hzero, leAt_zeros, ite_self]

/-- **An entry of an indirect block is set.** -/
theorem blockAt_putEntry (V' : Volume) {σ : Slot (Nat × Nat)} {i v : Nat}
    (hσ : L.shape.Valid (σ.child i)) (hblock : (forest V).blockAt σ ≠ 0)
    (hlen : (V.data ((forest V).blockAt σ)).length = L.blockSize) (hv : v < 256 ^ 4)
    (hused : ∀ x, V'.Holds x ↔ V.Holds x)
    (hptr : ∀ x, ∀ m < 15, pointer (V'.inode x) m = pointer (V.inode x) m)
    (hdata : ∀ b, Taken L M V b → V'.data b =
      if b = (forest V).blockAt σ then putLe 4 (V.data b) (i * 4) v else V.data b)
    (hbelow : L.shape.Leaf (σ.child i) ∨
      (forest V).blockAt (σ.child i) = 0 ∧ V'.data v = zeros L.blockSize)
    {τ : Slot (Nat × Nat)} (hτ : L.shape.Valid τ) :
    (forest V').blockAt τ = if τ = σ.child i then v else (forest V).blockAt τ := by
  have hwidth := L.four_mul_ptrsPerBlock
  have hi : i < L.ptrsPerBlock := (Shape.valid_child.mp hσ).2.2
  refine h.owned.blockAt_putChild hσ hblock ?_ ?_ ?_ hτ
  · rintro ⟨x, m⟩
    simp only [forest, hused]
    by_cases hm : m < 15
    · simp only [hptr x m hm]
    · simp [hm]
  · intro b j hb hj
    rw [forest_next, forest_next, hdata b hb]
    by_cases hbσ : b = (forest V).blockAt σ
    · rw [← hbσ] at hlen
      rw [if_pos hbσ]
      by_cases hji : j = i
      · rw [if_pos ⟨hbσ, hji⟩, hji, leAt_putLe_self (by omega) hv]
      · rw [if_neg fun hc => hji hc.2, leAt_putLe_of_disjoint (by omega) (by omega)]
    · rw [if_neg hbσ, if_neg fun hc => hbσ hc.1]
  · intro j hj
    rcases hbelow with hleaf | ⟨hz, hzero⟩
    · exact absurd hj (hleaf.not_valid_child j)
    · refine ⟨?_, by rw [hz, follow_zero]⟩
      rw [follow, forest_next, hzero, leAt_zeros, ite_self]

/-- **Nothing is shared** when a slot gets a free block, or gives its block back. -/
theorem put {σ : Slot (Nat × Nat)} {v : Nat} (hput : ∀ τ, L.shape.Valid τ →
      (forest V').blockAt τ = if τ = σ then v else (forest V).blockAt τ)
    (hσ : L.shape.Valid σ) (hv : v ≠ 0 → L.Fresh V v ∧ V'.used v = true)
    (hused : ∀ b, V.used b = true → ((forest V).blockAt σ ≠ 0 → b ≠ (forest V).blockAt σ) →
      V'.used b = true) : Own L M V' := by
  refine ⟨h.owned.put hput hσ (fun hz => ?_) (fun b hb hz hne => ?_), fun b hb hr => ?_, h.areas⟩
  · obtain ⟨hfresh, hu⟩ := hv hz
    exact ⟨⟨(h.fresh hfresh).1, (h.fresh hfresh).2, hu⟩, not_taken_of_fresh hfresh⟩
  · exact ⟨hb.1, hb.2.1, hused b hb.2.2 fun _ => hne⟩
  · refine hused b (h.metaUsed b hb hr) fun hz heq => ?_
    exact (h.owned.taken σ hσ hz).2.1 (heq ▸ hb)

/-- The blocks of files do not change if no pointer does. -/
theorem congr (hat : ∀ τ, L.shape.Valid τ →
    (forest V').blockAt τ = (forest V).blockAt τ)
    (hused : ∀ b, V.used b = true → V'.used b = true) : Own L M V' :=
  ⟨h.owned.mono (fun τ hτ _ => hat τ hτ) fun _ _ _ ht => ⟨ht.1, ht.2.1, hused _ ht.2.2⟩,
    fun b hb hr => hused b (h.metaUsed b hb hr), h.areas⟩

theorem blocksOf_finite (ino : Nat) : (blocksOf L V ino).Finite := by
  refine (Set.finite_lt_nat L.blocksCount).subset ?_
  rintro b ⟨hz, τ, hτ, -, rfl⟩
  exact (h.isData hτ hz).2.1

end Own

/-! ### Exactness -/

namespace Exact

variable {σ : Slot (Nat × Nat)}

section Put

variable {v : Nat} (h : Exact L M V) (ho : Own L M V) (hput : ∀ τ, L.shape.Valid τ →
    (forest V').blockAt τ = if τ = σ then v else (forest V).blockAt τ) (hσ : L.shape.Valid σ)
  (hinodeUsed : ∀ x, V'.inodeUsed x = V.inodeUsed x) (hholds : ∀ x, V'.Holds x ↔ V.Holds x)
  (hinode : ∀ x, x ≠ σ.1.1 → V'.inode x = V.inode x)
  (htind : pointer (V'.inode σ.1.1) 14 = pointer (V.inode σ.1.1) 14)

include h hput hinodeUsed hholds hinode htind

/-- Only the inode of the slot has other blocks. -/
theorem put (hused : ∀ b, V'.used b = true →
      b ∈ M ∨ b ∈ Forest.reached L.shape (forest V') Set.univ)
    (hcount : V.inodeUsed σ.1.1 = true →
      leAt 4 (V'.inode σ.1.1) 28 = (blocksOf L V' σ.1.1).ncard * L.sectorsPerBlock) :
    Exact L M V' := by
  refine ⟨hused, fun ino hino => ?_, fun ino hino => ?_⟩
  · rw [hinodeUsed] at hino
    by_cases hi : ino = σ.1.1
    · subst hi
      exact hcount hino
    · rw [hinode ino hi, h.iBlocks ino hino, blocksOf, blocksOf,
        Forest.reached_put_of_notMem hput fun hk => hi hk.symm]
  · rw [hholds] at hino
    by_cases hi : ino = σ.1.1
    · rw [hi, htind, ← hi, h.tind ino hino]
    · rw [hinode ino hi, h.tind ino hino]

include ho hσ

/-- **Nothing is lost** when a slot gets a free block. -/
theorem assign (hempty : (forest V).blockAt σ = 0) (hv : L.Fresh V v) (hz : v ≠ 0)
    (hused : ∀ b, V'.used b = if b = v then true else V.used b)
    (hcount : leAt 4 (V'.inode σ.1.1) 28 = leAt 4 (V.inode σ.1.1) 28 + L.sectorsPerBlock) :
    Exact L M V' := by
  have hnew : ∀ K, v ∉ Forest.reached L.shape (forest V) K := by
    rintro K ⟨hvz, τ, hτ, -, rfl⟩
    exact Own.not_taken_of_fresh hv (ho.owned.taken τ hτ hvz)
  refine h.put hput hinodeUsed hholds hinode htind (fun b hb => ?_) fun hino => ?_
  · rw [Forest.reached_assign hput hσ (Set.mem_univ _) hempty hz]
    rw [hused] at hb
    split at hb
    · next hbv => exact .inr (.inl hbv)
    · exact (h.used b hb).imp id .inr
  · have hblocks : blocksOf L V' σ.1.1 = insert v (blocksOf L V σ.1.1) :=
      Forest.reached_assign hput hσ (show σ.1 ∈ { k | k.1 = σ.1.1 } from rfl) hempty hz
    have hmem : v ∉ blocksOf L V σ.1.1 := hnew _
    rw [hcount, h.iBlocks _ hino, hblocks,
      Set.ncard_insert_of_notMem hmem (ho.blocksOf_finite _), Nat.add_mul, Nat.one_mul]

/-- **Nothing is lost** when a slot gives its block back. -/
theorem release (hv : v = 0) (hz : (forest V).blockAt σ ≠ 0)
    (hused : ∀ b, V'.used b = if b = (forest V).blockAt σ then false else V.used b)
    (hcount : leAt 4 (V'.inode σ.1.1) 28 = leAt 4 (V.inode σ.1.1) 28 - L.sectorsPerBlock) :
    Exact L M V' := by
  subst hv
  have hmem : (forest V).blockAt σ ∈ blocksOf L V σ.1.1 := ⟨hz, σ, hσ, rfl, rfl⟩
  refine h.put hput hinodeUsed hholds hinode htind (fun b hb => ?_) fun hino => ?_
  · rw [ho.owned.reached_release hput hσ]
    rw [hused] at hb
    split at hb
    · cases hb
    · next hne => exact (h.used b hb).imp id fun hr => ⟨hr, hne⟩
  · have hblocks : blocksOf L V' σ.1.1 = blocksOf L V σ.1.1 \ {(forest V).blockAt σ} :=
      ho.owned.reached_release hput hσ
    rw [hcount, h.iBlocks _ hino, hblocks,
      ← Set.ncard_sdiff_singleton_add_one hmem (ho.blocksOf_finite _), Nat.add_mul, Nat.one_mul,
      Nat.add_sub_cancel]

end Put

/-- Exactness does not depend on what the data blocks hold. -/
theorem congr (h : Exact L M V)
    (hat : ∀ τ, L.shape.Valid τ → (forest V').blockAt τ = (forest V).blockAt τ)
    (hused : ∀ b, V'.used b = V.used b) (hinodeUsed : ∀ x, V'.inodeUsed x = V.inodeUsed x)
    (hholds : ∀ x, V'.Holds x ↔ V.Holds x)
    (hinode : ∀ x, leAt 4 (V'.inode x) 28 = leAt 4 (V.inode x) 28 ∧
      pointer (V'.inode x) 14 = pointer (V.inode x) 14) : Exact L M V' := by
  have hreached : ∀ K, Forest.reached L.shape (forest V') K = Forest.reached L.shape (forest V) K :=
    fun K => Forest.reached_congr fun τ hτ _ => hat τ hτ
  refine ⟨fun b hb => ?_, fun ino hino => ?_, fun ino hino => ?_⟩
  · rw [hreached]
    exact h.used b (by rw [← hused, hb])
  · rw [blocksOf, hreached, (hinode ino).1]
    exact h.iBlocks ino (by rw [← hinodeUsed, hino])
  · rw [(hinode ino).2]
    exact h.tind ino ((hholds ino).mp hino)

end Exact

/-! ### Growing a file -/

/-- Two inodes differ at most in their pointers and in `i_blocks`. -/
def SameFields (raw raw' : Bytes) : Prop :=
  raw'.length = raw.length ∧ ∀ w off,
    off + w ≤ 28 ∨ 32 ≤ off ∧ off + w ≤ 40 ∨ 100 ≤ off → leAt w raw' off = leAt w raw off

theorem sizeOf_congr {raw raw' : Bytes} (h : SameFields raw raw') : sizeOf raw' = sizeOf raw := by
  unfold sizeOf
  rw [h.2 4 4 (.inl (by omega)), h.2 2 0 (.inl (by omega)), h.2 4 108 (.inr (.inr (by omega)))]

theorem hasBlocks_congr {raw raw' : Bytes} (h : SameFields raw raw') :
    hasBlocks raw' ↔ hasBlocks raw := by
  unfold hasBlocks
  rw [h.2 2 0 (.inl (by omega)), sizeOf_congr h]

/-- The same inodes have block numbers. -/
theorem holds_congr {ino : Nat} (hused : ∀ x, V'.inodeUsed x = V.inodeUsed x)
    (hinode : ∀ x, x ≠ ino → V'.inode x = V.inode x)
    (hkind : hasBlocks (V'.inode ino) ↔ hasBlocks (V.inode ino)) (x : Nat) :
    V'.Holds x ↔ V.Holds x := by
  unfold Volume.Holds
  rw [hused]
  by_cases hx : x = ino
  · rw [hx, hkind]
  · rw [hinode x hx]

/-- Blocks were added to an inode. -/
structure Grown (L : Layout) (M : Set Nat) (ino : Nat) (V V' : Volume) : Prop where
  own : Own L M V'
  inodeUsed : ∀ x, V'.inodeUsed x = V.inodeUsed x
  inode : ∀ x, x ≠ ino → V'.inode x = V.inode x
  fields : SameFields (V.inode ino) (V'.inode ino)
  keeps : ∀ τ, L.shape.Valid τ → (forest V).blockAt τ ≠ 0 →
    (forest V').blockAt τ = (forest V).blockAt τ
  leaf : ∀ τ, L.shape.Leaf τ → leafData L V' τ = leafData L V τ

theorem SameFields.refl (raw : Bytes) : SameFields raw raw := ⟨rfl, fun _ _ _ => rfl⟩

theorem SameFields.trans {a b c : Bytes} (h : SameFields a b) (h' : SameFields b c) :
    SameFields a c :=
  ⟨h'.1.trans h.1, fun w off ho => (h'.2 w off ho).trans (h.2 w off ho)⟩

/-- The block of a data slot is not that of a slot with slots below it. -/
theorem Own.leaf_ne (h : Own L M V) {τ σ : Slot (Nat × Nat)} {i : Nat} (hτ : L.shape.Leaf τ)
    (hz : (forest V).blockAt τ ≠ 0) (hσ : L.shape.Valid (σ.child i)) :
    (forest V).blockAt τ ≠ (forest V).blockAt σ := by
  intro heq
  obtain rfl := h.owned.inj τ σ hτ.1 (Shape.valid_child.mp hσ).1 hz heq
  exact hτ.not_valid_child i hσ

namespace Grown

variable {ino : Nat}

theorem refl (h : Own L M V) : Grown L M ino V V :=
  ⟨h, fun _ => rfl, fun _ _ => rfl, .refl _, fun _ _ _ => rfl, fun _ _ => rfl⟩

theorem trans {V'' : Volume} (h : Grown L M ino V V') (h' : Grown L M ino V' V'') :
    Grown L M ino V V'' := by
  refine ⟨h'.own, fun x => (h'.inodeUsed x).trans (h.inodeUsed x),
    fun x hx => (h'.inode x hx).trans (h.inode x hx), h.fields.trans h'.fields, fun τ hτ hz => ?_,
    fun τ hτ => (h'.leaf τ hτ).trans (h.leaf τ hτ)⟩
  have heq := h.keeps τ hτ hz
  rw [h'.keeps τ hτ (heq ▸ hz), heq]

variable (h : Own L M V) (hinodeUsed : ∀ x, V'.inodeUsed x = V.inodeUsed x)
  (hinode : ∀ x, x ≠ ino → V'.inode x = V.inode x)
  (hfields : SameFields (V.inode ino) (V'.inode ino))

include h hinodeUsed hinode hfields

/-- Blocks that no file has may change. -/
theorem of_unowned (hused : ∀ b, V.used b = true → V'.used b = true)
    (hptr : ∀ n < 15, pointer (V'.inode ino) n = pointer (V.inode ino) n)
    (hdata : ∀ b, Taken L M V b → V'.data b = V.data b) : Grown L M ino V V' := by
  have hholds := holds_congr hinodeUsed hinode (hasBlocks_congr hfields)
  have hat : ∀ τ, L.shape.Valid τ → (forest V').blockAt τ = (forest V).blockAt τ := by
    refine fun τ hτ => Forest.blockAt_congr ?_ ?_ hτ
    · rintro ⟨x, n⟩
      simp only [forest, hholds]
      by_cases hn : n < 15
      · by_cases hx : x = ino
        · rw [hx, hptr n hn]
        · rw [hinode x hx]
      · simp [hn]
    · intro τ i hv hz
      rw [forest_next, forest_next, hdata _ (h.owned.taken τ (Shape.valid_child.mp hv).1 hz)]
  refine ⟨h.congr hat hused, hinodeUsed, hinode, hfields, fun τ hτ _ => hat τ hτ, fun τ hτ => ?_⟩
  unfold leafData
  rw [hat τ hτ.1]
  split
  · rfl
  · next hz => rw [hdata _ (h.owned.taken τ hτ.1 hz)]

/-- A slot got a free block, zeroed. -/
theorem of_assign {σ : Slot (Nat × Nat)} {v : Nat} (hput : ∀ τ, L.shape.Valid τ →
      (forest V').blockAt τ = if τ = σ then v else (forest V).blockAt τ)
    (hσ : L.shape.Valid σ) (hempty : (forest V).blockAt σ = 0) (hv : L.Fresh V v) (hz : v ≠ 0)
    (hused : ∀ b, V'.used b = if b = v then true else V.used b)
    (hzero : V'.data v = zeros L.blockSize)
    (hdata : ∀ τ, L.shape.Leaf τ → (forest V).blockAt τ ≠ 0 →
      V'.data ((forest V).blockAt τ) = V.data ((forest V).blockAt τ)) : Grown L M ino V V' := by
  have hother : ∀ τ, (forest V).blockAt τ ≠ 0 → τ ≠ σ := fun τ hτ heq => hτ (heq ▸ hempty)
  refine ⟨h.put hput hσ (fun _ => ⟨hv, by rw [hused, if_pos rfl]⟩) (fun b hb _ => ?_), hinodeUsed,
    hinode, hfields, fun τ hτ hne => by rw [hput τ hτ, if_neg (hother τ hne)], fun τ hτ => ?_⟩
  · rw [hused, hb, ite_self]
  · unfold leafData
    rw [hput τ hτ.1]
    by_cases heq : τ = σ
    · rw [if_pos heq, if_neg hz, hzero, heq, hempty, if_pos rfl]
    · rw [if_neg heq]
      split
      · rfl
      · next hne => exact hdata τ hτ hne

end Grown

/-! ### Writing data -/

section SetLeaf

variable {σ : Slot (Nat × Nat)} {d : Bytes}

section

variable (h : Own L M V) (hσ : L.shape.Leaf σ) (hz : (forest V).blockAt σ ≠ 0)

include h hσ hz

/-- Data blocks hold no pointers. -/
theorem Own.blockAt_setLeaf {τ : Slot (Nat × Nat)} (hτ : L.shape.Valid τ) :
    (forest (V.setData ((forest V).blockAt σ) d)).blockAt τ = (forest V).blockAt τ := by
  refine Forest.blockAt_congr (fun _ => by rfl) (fun τ i hv _ => ?_) hτ
  rw [forest_next, forest_next, Volume.data_setData, if_neg (h.leaf_ne hσ hz hv).symm]

theorem Own.setLeaf : Own L M (V.setData ((forest V).blockAt σ) d) :=
  h.congr (fun _ hτ => h.blockAt_setLeaf hσ hz hτ) fun _ hb => hb

end

theorem Exact.setLeaf (he : Exact L M V) (h : Own L M V) (hσ : L.shape.Leaf σ)
    (hz : (forest V).blockAt σ ≠ 0) : Exact L M (V.setData ((forest V).blockAt σ) d) :=
  he.congr (fun _ hτ => h.blockAt_setLeaf hσ hz hτ) (fun _ => rfl) (fun _ => rfl)
    (fun _ => .rfl) fun _ => ⟨rfl, rfl⟩

/-- **A write changes one block of one file.** -/
theorem Own.leafData_setLeaf (h : Own L M V) (hσ : L.shape.Leaf σ)
    (hz : (forest V).blockAt σ ≠ 0) {τ : Slot (Nat × Nat)} (hτ : L.shape.Leaf τ) :
    leafData L (V.setData ((forest V).blockAt σ) d) τ = if τ = σ then d else leafData L V τ := by
  unfold leafData
  rw [h.blockAt_setLeaf hσ hz hτ.1]
  by_cases heq : τ = σ
  · rw [heq, if_neg hz, if_pos rfl, Volume.data_setData, if_pos rfl]
  · split
    · rfl
    · next hτz =>
      rw [Volume.data_setData, if_neg fun hb => heq (h.owned.inj τ σ hτ.1 hσ.1 hτz hb)]

end SetLeaf

end

end PythonOS.Ext2
