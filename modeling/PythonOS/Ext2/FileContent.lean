import PythonOS.Ext2.FileRelease

/-!
# PythonOS.Ext2.FileContent

What a file holds, and what reading, writing and truncating do to it.

`content L V ino` is the file as an endless string of bytes: what is past the end of
the file counts, since a file that grows shows it. The specifications say how the
string changes, and `Touched` that nothing else does.
-/

namespace PythonOS.Ext2

open Lib Coro Lib.Bytes

/-! ### The size of a file -/

section Size

variable {raw : Bytes}

theorem iMode_eq (hraw : 128 ≤ raw.length) : iMode raw = .ok (leAt 2 raw 0) := by
  unfold iMode
  rw [unpack_eq ⟨by omega, by omega⟩]
  rfl

theorem fileSize_eq (hraw : 128 ≤ raw.length) : fileSize raw = .ok (sizeOf raw) := by
  have hsize : iSize raw = .ok (leAt 4 raw 4) := by
    unfold iSize
    rw [unpack_eq ⟨by omega, by omega⟩]
    rfl
  have hhigh : unpack 4 raw 108 = .ok (leAt 4 raw 108) := by
    rw [unpack_eq ⟨by omega, by omega⟩]
    rfl
  have hlt : leAt 4 raw 4 < 2 ^ 32 := leAt_lt (w := 4) raw 4
  simp only [fileSize, Bind.bind, Except.bind, hsize, iMode_eq hraw, sizeOf]
  split
  · simp only [hhigh, pure, Except.pure]
    rw [Nat.or_comm, Nat.shiftLeft_eq, Nat.mul_comm,
      ← Nat.two_pow_add_eq_or_of_lt hlt, Nat.add_comm]
  · rfl

/-- Two inodes that differ at most in their size. -/
structure Sized (raw raw' : Bytes) : Prop where
  length : raw'.length = raw.length
  fields : ∀ w off, off + w ≤ 4 ∨ 8 ≤ off ∧ off + w ≤ 108 → leAt w raw' off = leAt w raw off

theorem Sized.refl (raw : Bytes) : Sized raw raw := ⟨rfl, fun _ _ _ => rfl⟩

theorem Sized.mode {raw' : Bytes} (h : Sized raw raw') : leAt 2 raw' 0 = leAt 2 raw 0 :=
  h.fields 2 0 (.inl (by omega))

theorem Sized.pointer {raw' : Bytes} (h : Sized raw raw') {m : Nat} (hm : m < 15) :
    pointer raw' m = pointer raw m := h.fields 4 _ (.inr ⟨by omega, by omega⟩)

theorem Sized.iBlocks {raw' : Bytes} (h : Sized raw raw') : leAt 4 raw' 28 = leAt 4 raw 28 :=
  h.fields 4 28 (.inr ⟨by omega, by omega⟩)

/-- **`setFileSize`** sets the size, of a regular file in two halves. Any other file
has only the lower half. -/
theorem setFileSize_eq (hraw : 128 ≤ raw.length) (size : Nat) :
    ∃ raw', setFileSize raw size = .ok raw' ∧ Sized raw raw' ∧
      (IsReg raw → size < 2 ^ 64 → sizeOf raw' = size) ∧
      (¬ IsReg raw → sizeOf raw' = size % 2 ^ 32) := by
  have hlow : ((size : Int) % 2 ^ 32).toNat = size % 2 ^ 32 := by omega
  have hhigh : ((size : Int) / 2 ^ 32 % 2 ^ 32).toNat = size / 2 ^ 32 % 2 ^ 32 := by omega
  have hpack : pack 4 raw 4 ((size : Int) % 2 ^ 32) = .ok (putLe 4 raw 4 (size % 2 ^ 32)) := by
    rw [pack_eq ⟨by omega, by omega⟩ ⟨by omega, by omega⟩, hlow]
    rfl
  have hlow' : leAt 4 (putLe 4 raw 4 (size % 2 ^ 32)) 4 = size % 2 ^ 32 :=
    leAt_putLe_self (by omega) (by omega)
  set low := putLe 4 raw 4 (size % 2 ^ 32)
  have hlen : low.length = raw.length := length_putLe (by omega)
  have hmode : iMode low = .ok (leAt 2 raw 0) := by
    rw [iMode_eq (by omega), leAt_putLe_of_disjoint (by omega) (.inl (by omega))]
  have hsized : Sized raw low :=
    ⟨hlen, fun w off hoff => leAt_putLe_of_disjoint (by omega) (by omega)⟩
  by_cases hreg : IsReg raw
  · have hpack' : pack 4 low 108 ((size : Int) / 2 ^ 32 % 2 ^ 32) =
        .ok (putLe 4 low 108 (size / 2 ^ 32 % 2 ^ 32)) := by
      rw [pack_eq ⟨by omega, by omega⟩ ⟨by omega, by omega⟩, hhigh]
      rfl
    refine ⟨putLe 4 low 108 (size / 2 ^ 32 % 2 ^ 32), ?_,
      ⟨(length_putLe (by omega)).trans hlen, fun w off hoff => ?_⟩, fun _ hsize => ?_,
      fun hne => absurd hreg hne⟩
    · simp only [setFileSize, Bind.bind, Except.bind, hpack, hmode, hreg, if_true, hpack']
    · rw [leAt_putLe_of_disjoint (by omega) (by omega), hsized.fields w off hoff]
    · unfold sizeOf
      rw [leAt_putLe_of_disjoint (by omega) (.inl (by omega)), hlow',
        leAt_putLe_of_disjoint (by omega) (.inl (by omega)), hsized.mode, if_pos hreg,
        leAt_putLe_self (by omega) (by omega)]
      omega
  · refine ⟨_, ?_, hsized, fun hc => absurd hc hreg, fun _ => ?_⟩
    · simp only [setFileSize, Bind.bind, Except.bind, hpack, hmode, hreg, if_false]
      rfl
    · unfold sizeOf
      rw [hlow', hsized.mode, if_neg hreg, Nat.add_zero]

end Size

/-! ### Content -/

/-- A file as an endless string of bytes. -/
def content (L : Layout) (V : Volume) (ino o : Nat) : UInt8 :=
  (leafData L V (L.fileSlot ino (o / L.blockSize))).getD (o % L.blockSize) 0

/-- Nothing was changed but the inode `ino` and its file. -/
structure Touched (L : Layout) (M : Set Nat) (ino : Nat) (V V' : Volume) : Prop where
  own : Own L M V'
  inodeUsed : ∀ x, V'.inodeUsed x = V.inodeUsed x
  inode : ∀ x, x ≠ ino → V'.inode x = V.inode x
  fixed : ∀ w off, off + w ≤ 4 ∨ 8 ≤ off ∧ off + w ≤ 28 →
    leAt w (V'.inode ino) off = leAt w (V.inode ino) off
  other : ∀ τ, L.shape.Leaf τ → τ.1.1 ≠ ino → leafData L V' τ = leafData L V τ
  exact : Exact L M V → Exact L M V'

namespace Touched

variable {L : Layout} {M : Set Nat} {ino : Nat} {V V' V'' : Volume}

theorem refl (h : Own L M V) : Touched L M ino V V :=
  ⟨h, fun _ => rfl, fun _ _ => rfl, fun _ _ _ => rfl, fun _ _ _ => rfl, id⟩

theorem mode (h : Touched L M ino V V') : leAt 2 (V'.inode ino) 0 = leAt 2 (V.inode ino) 0 :=
  h.fixed 2 0 (.inl (by omega))

theorem trans (h : Touched L M ino V V') (h' : Touched L M ino V' V'') : Touched L M ino V V'' :=
  ⟨h'.own, fun x => (h'.inodeUsed x).trans (h.inodeUsed x),
    fun x hx => (h'.inode x hx).trans (h.inode x hx), fun w off ho =>
      (h'.fixed w off ho).trans (h.fixed w off ho),
    fun τ hτ hi => (h'.other τ hτ hi).trans (h.other τ hτ hi), fun he => h'.exact (h.exact he)⟩

end Touched

section

variable {L : Layout} {M : Set Nat} {s : Ext2FS} {ino : Nat} {raw : Bytes}

theorem content_congr {V V' : Volume} {o : Nat}
    (h : leafData L V' (L.fileSlot ino (o / L.blockSize)) =
      leafData L V (L.fileSlot ino (o / L.blockSize))) :
    content L V' ino o = content L V ino o := by
  rw [content, h, content]

/-- The bytes of one block. -/
theorem content_block {V : Volume} {o k : Nat} (hk : o % L.blockSize + k < L.blockSize) :
    content L V ino (o + k) =
      (leafData L V (L.fileSlot ino (o / L.blockSize))).getD (o % L.blockSize + k) 0 := by
  have hdiv : (o + k) / L.blockSize = o / L.blockSize := by
    rw [← Nat.div_add_mod o L.blockSize, Nat.add_assoc, Nat.mul_add_div L.blockSize_pos,
      Nat.div_eq_of_lt hk, Nat.add_zero, Nat.mul_add_div L.blockSize_pos,
      Nat.div_eq_of_lt (Nat.mod_lt _ L.blockSize_pos), Nat.add_zero]
  have hmod : (o + k) % L.blockSize = o % L.blockSize + k := by
    conv_lhs => rw [← Nat.div_add_mod o L.blockSize, Nat.add_assoc, Nat.mul_add_mod]
    exact Nat.mod_eq_of_lt hk
  rw [content, hdiv, hmod]

theorem Work.length_leafData (h : Work L M s ino raw) {τ : Slot (Nat × Nat)}
    (hτ : L.shape.Leaf τ) : (leafData L (work L s ino raw) τ).length = L.blockSize := by
  unfold leafData
  split
  · exact length_zeros _
  · next hz => exact h.mounted.length_data (h.own.isData hτ.1 hz)

/-- The inode of a file or a directory gets another size. -/
theorem Work.touched_sized (h : Work L M s ino raw) {raw' : Bytes} (hs : Sized raw raw')
    (hkind : IsReg raw ∨ IsDir raw) :
    Work L M s ino raw' ∧ Touched L M ino (work L s ino raw) (work L s ino raw') ∧
      ∀ τ, leafData L (work L s ino raw') τ = leafData L (work L s ino raw) τ := by
  have hkind' : hasBlocks raw' := by
    rw [IsReg, IsDir, ← hs.mode] at hkind
    exact hkind.imp id .inl
  have hholds : ∀ x, (work L s ino raw').Holds x ↔ (work L s ino raw).Holds x :=
    h.holds_iff (fun _ => rfl) (fun _ => rfl) hkind'
  have hat : ∀ τ, (forest (work L s ino raw')).blockAt τ =
      (forest (work L s ino raw)).blockAt τ := by
    have hforest : forest (work L s ino raw') = forest (work L s ino raw) := by
      have hroot : (forest (work L s ino raw')).root = (forest (work L s ino raw)).root := by
        funext ⟨x, n⟩
        simp only [forest, hholds]
        by_cases hn : n < 15
        · by_cases hx : x = ino
          · rw [hx, work_inode, work_inode, hs.pointer hn]
          · rw [work_inode_of_ne hx, work_inode_of_ne hx]
        · simp [hn]
      exact congrArg (fun root => Forest.mk root (forest (work L s ino raw)).next) hroot
    exact fun τ => by rw [hforest]
  have hown : Own L M (work L s ino raw') := h.own.congr (fun τ _ => hat τ) fun _ hb => hb
  have hleaf : ∀ τ, leafData L (work L s ino raw') τ = leafData L (work L s ino raw) τ := by
    intro τ
    unfold leafData
    rw [hat τ]
    rfl
  refine ⟨⟨h.mounted, hown, h.inodeUsed, hs.length.trans h.length, hkind'⟩, ⟨hown, fun _ => rfl,
    fun x hx => by rw [work_inode_of_ne hx, work_inode_of_ne hx],
    fun w off ho => by rw [work_inode, work_inode, hs.fields w off (by omega)], fun τ _ _ =>
      hleaf τ, fun he => ?_⟩, hleaf⟩
  refine he.congr (fun τ _ => hat τ) (fun _ => rfl) (fun _ => rfl) hholds fun x => ?_
  by_cases hx : x = ino
  · rw [hx, work_inode, work_inode, hs.iBlocks, hs.pointer (by omega)]
    exact ⟨rfl, rfl⟩
  · rw [work_inode_of_ne hx, work_inode_of_ne hx]
    exact ⟨rfl, rfl⟩

theorem toNat_mod_blockSize (n : Nat) :
    ((n : Int) % (L.blockSize : Int)).toNat = n % L.blockSize := by
  rw [← Int.natCast_mod, Int.toNat_natCast]

/-- What one pass of the loops reads or writes: the rest of a block, or of the string. -/
theorem chunk_spec {cur n chunk : Nat} (hpos : 0 < n)
    (h : min (L.blockSize - cur % L.blockSize) n = chunk) :
    chunk ≤ n ∧ 1 ≤ chunk ∧ cur % L.blockSize + chunk ≤ L.blockSize ∧
      ((cur + n : Nat) : Int) = ((cur + chunk + (n - chunk) : Nat) : Int) := by
  have hlt := Nat.mod_lt cur L.blockSize_pos
  omega

/-! ### Reading -/

/-- Part of a block of a file. -/
theorem readPart_wp [L.Ok] (h : Work L M s ino raw) {τ : Slot (Nat × Nat)}
    (hτ : L.shape.Leaf τ) {i n : Nat} (hin : i + n ≤ L.blockSize) :
    (readPart ((forest (work L s ino raw)).blockAt τ) i n).returns
      (fun b s' => b = slice (leafData L (work L s ino raw) τ) i (i + n) ∧ Same L s s') s := by
  unfold readPart leafData
  by_cases hz : (forest (work L s ino raw)).blockAt τ = 0
  · rw [if_pos hz, if_pos hz]
    refine ⟨?_, After.refl h.mounted⟩
    simp only [slice, zeros, List.take_replicate, List.drop_replicate]
    congr 1
    omega
  · rw [if_neg hz, if_neg hz]
    simp only [wp_bind]
    refine wp_imp (readData_wp h.mounted (h.own.isData hτ.1 hz)) ?_
    rintro r s1 ⟨ha, -, hheap⟩
    simp only [load_wp, wp_pure, hheap]
    exact ⟨rfl, ha⟩

/-- **`readLoop`** returns the bytes of the file. -/
theorem readLoop_wp [L.Ok] (h : Work L M s ino raw) {fuel cur n : Nat} (hn : n ≤ fuel) :
    (readLoop raw ((cur + n : Nat) : Int) fuel cur).wlp
      (fun b s' => b = window (content L (work L s ino raw) ino) cur n ∧ Same L s s') s := by
  induction fuel generalizing s cur n with
  | zero =>
    obtain rfl : n = 0 := by omega
    exact ⟨rfl, After.refl h.mounted⟩
  | succ fuel ih =>
    rcases Nat.eq_zero_or_pos n with rfl | hpos
    · simp only [readLoop]
      rw [if_neg (by omega)]
      exact ⟨rfl, After.refl h.mounted⟩
    have hrest : (((cur + n : Nat) : Int) - (cur : Int)).toNat = n := by omega
    simp only [readLoop]
    rw [if_pos (by omega)]
    simp only [wp_bind, wp_get, h.mounted.tables.blockSize, toNat_mod_blockSize, hrest]
    generalize hchunk : min (L.blockSize - cur % L.blockSize) n = chunk
    obtain ⟨hle, hone, hin, hstop⟩ := chunk_spec hpos hchunk
    refine wp_imp (resolveBlock_wp h _) ?_
    rintro phys s1 ⟨hfb, rfl, ha1⟩
    have h1 := h.of_after ha1
    have hwork1 := ha1.work_eq ino raw
    have hleaf := @Layout.leaf_fileSlot L ino _ hfb
    rw [← hwork1]
    refine wp_imp (readPart_wp h1 hleaf hin) ?_
    rintro part s2 ⟨hpart, ha2⟩
    have h2 := h1.of_after ha2
    rw [hstop, ← Nat.cast_add]
    refine wp_imp (ih h2 (by omega)) ?_
    rintro rest s3 ⟨rfl, ha3⟩
    refine ⟨?_, (ha1.still ha2).still ha3⟩
    have hwindow : part = window (content L (work L s1 ino raw) ino) cur chunk := by
      rw [hpart]
      refine slice_eq_window (by rw [h1.length_leafData hleaf]; exact hin) fun k hk => ?_
      exact (content_block (by omega)).symm
    rw [ha2.work_eq, hwindow, ← window_add]
    congr 1
    omega

/-! ### Writing -/

variable {σ : Slot (Nat × Nat)} {s' : Ext2FS}

theorem Ensured.touched {r : Nat × Bytes} (h : Ensured L M s ino raw σ r s') :
    Touched L M ino (work L s ino raw) (work L s' ino r.2) := by
  exact ⟨h.grown.own, h.grown.inodeUsed, h.grown.inode,
    fun w off ho => h.grown.fields.2 w off (by omega), fun τ hτ _ => h.grown.leaf τ hτ, h.exact⟩

theorem Ensured.grown_fields {r : Nat × Bytes}
    (h : Ensured L M s ino raw σ r s') : SameFields raw r.2 := by
  simpa only [work_inode] using h.grown.fields

/-- Nothing but what blocks of files hold has changed. -/
structure Rewritten (L : Layout) (V V' : Volume) : Prop where
  used : V'.used = V.used
  inodeUsed : V'.inodeUsed = V.inodeUsed
  inode : V'.inode = V.inode
  counters : V'.counters = V.counters
  blockAt : ∀ τ, L.shape.Valid τ → (forest V').blockAt τ = (forest V).blockAt τ

/-- The block in a data slot was written. -/
structure Stored (L : Layout) (M : Set Nat) (s : Ext2FS) (ino : Nat) (raw : Bytes)
    (σ : Slot (Nat × Nat)) (d : Bytes) (s' : Ext2FS) : Prop where
  ready : Work L M s' ino raw
  touched : Touched L M ino (work L s ino raw) (work L s' ino raw)
  disk : ∀ x, (vol L s').inode x = (vol L s).inode x
  leaf : ∀ τ, L.shape.Leaf τ → leafData L (work L s' ino raw) τ =
    if τ = σ then d else leafData L (work L s ino raw) τ
  steady : Steady L s s'
  rewritten : Rewritten L (work L s ino raw) (work L s' ino raw)

section

variable (h : Work L M s ino raw) (hσ : L.shape.Leaf σ) (hino : σ.1.1 = ino)
  (hz : (forest (work L s ino raw)).blockAt σ ≠ 0)

include h hσ hino hz

theorem Work.stored {d : Bytes} {T : Set Nat}
    (ha : After L s T ((vol L s).setData ((forest (work L s ino raw)).blockAt σ) d) s') :
    Stored L M s ino raw σ d s' := by
  have hwork : work L s' ino raw =
      (work L s ino raw).setData ((forest (work L s ino raw)).blockAt σ) d :=
    work_of_vol ha.vol_eq
  have hleaf : ∀ τ, L.shape.Leaf τ → leafData L (work L s' ino raw) τ =
      if τ = σ then d else leafData L (work L s ino raw) τ := by
    intro τ hτ
    rw [hwork, h.own.leafData_setLeaf hσ hz hτ]
  have hown : Own L M (work L s' ino raw) := by
    rw [hwork]
    exact h.own.setLeaf hσ hz
  refine ⟨⟨ha.mounted, hown, by rw [ha.vol_eq]; exact h.inodeUsed, h.length, h.kind⟩, ⟨hown,
    fun x => by rw [hwork]; rfl, fun x _ => by rw [hwork]; rfl,
    fun w off _ => by rw [hwork]; rfl, fun τ hτ hne => ?_, fun he => ?_⟩,
    fun x => by rw [ha.vol_eq]; rfl, hleaf, ha.steady (fun _ => rfl) (fun _ => rfl) rfl, ?_⟩
  · rw [hleaf τ hτ, if_neg]
    rintro rfl
    exact hne hino
  · rw [hwork]
    exact he.setLeaf h.own hσ hz
  · rw [hwork]
    exact ⟨rfl, rfl, rfl, rfl, fun τ hτ => h.own.blockAt_setLeaf hσ hz hτ⟩

variable [L.Ok] {f : Bytes → Except Error Bytes}
  (hf : ∀ d, f (leafData L (work L s ino raw) σ) = .ok d → d.length = L.blockSize)

include hf

/-- A block of a file that was read is changed and written. -/
theorem writeLeaf_wp {s1 : Ext2FS} {r : Ref} (ha1 : Same L s s1)
    (hr : s1.blockCache ((forest (work L s ino raw)).blockAt σ) = some r) :
    (writeBack ((forest (work L s ino raw)).blockAt σ) r f).wp
      (fun _ s' => ∃ d, f (leafData L (work L s ino raw) σ) = .ok d ∧ Stored L M s ino raw σ d s')
      (fun e s' => f (leafData L (work L s ino raw) σ) = .error e ∧ Same L s s') s1 := by
  have hleaf : leafData L (work L s ino raw) σ =
      (vol L s).data ((forest (work L s ino raw)).blockAt σ) := if_neg hz
  rw [hleaf, ← ha1.vol_eq] at hf
  refine wp_mono (writeBackData_wp ha1.mounted (h.own.isData hσ.1 hz) hr hf) ?_ ?_
  · rintro - s2 ⟨d, hd, ha2⟩
    rw [ha1.vol_eq, ← hleaf] at hd
    rw [ha1.vol_eq] at ha2
    exact ⟨d, hd, h.stored hσ hino hz (ha1.trans ha2)⟩
  · rintro e s2 ⟨rfl, he⟩
    rw [ha1.vol_eq, ← hleaf] at he
    exact ⟨he, ha1⟩

/-- A block of a file is read, changed and written. -/
theorem storeLeaf_wp {Q : Unit → Ext2FS → Prop} {E : Error → Ext2FS → Prop}
    (hQ : ∀ d s', f (leafData L (work L s ino raw) σ) = .ok d →
      Stored L M s ino raw σ d s' → Q () s')
    (hE : ∀ e s', f (leafData L (work L s ino raw) σ) = .error e → Same L s s' → E e s') :
    (readBlock ((forest (work L s ino raw)).blockAt σ)).wp
      (fun r s1 => (writeBack ((forest (work L s ino raw)).blockAt σ) r f).wp Q E s1) E s := by
  refine wp_imp (readData_wp h.mounted (h.own.isData hσ.1 hz)) ?_
  rintro r s1 ⟨ha1, hr, -⟩
  refine wp_mono (writeLeaf_wp h hσ hino hz hf ha1 hr) ?_ ?_
  · rintro - s2 ⟨d, hd, hst⟩
    exact hQ d s2 hd hst
  · rintro e s2 ⟨he, ha2⟩
    exact hE e s2 he ha2

end

/-- The string with `n` bytes of `data`, from `di` on, at `o`. -/
def overwrite (c : Nat → UInt8) (o : Nat) (data : Bytes) (di n x : Nat) : UInt8 :=
  if o ≤ x ∧ x < o + n then data.getD (di + (x - o)) 0 else c x

/-- Part of a block is replaced. -/
theorem content_splice {V V' : Volume} {o n : Nat} {d : Bytes}
    (hlen : (leafData L V (L.fileSlot ino (o / L.blockSize))).length = L.blockSize)
    (hin : o % L.blockSize + n ≤ L.blockSize) (hd : d.length = n)
    (hleaf : ∀ fb < L.maxBlocks, leafData L V' (L.fileSlot ino fb) =
      if L.fileSlot ino fb = L.fileSlot ino (o / L.blockSize) then
        splice (leafData L V (L.fileSlot ino (o / L.blockSize))) (o % L.blockSize) d
      else leafData L V (L.fileSlot ino fb)) {x : Nat} (hx : x / L.blockSize < L.maxBlocks) :
    content L V' ino x = overwrite (content L V ino) o d 0 n x := by
  have hpos := L.blockSize_pos
  have hox := Nat.div_add_mod x L.blockSize
  have ho := Nat.div_add_mod o L.blockSize
  rw [content, hleaf _ hx, overwrite, Nat.zero_add]
  by_cases hfb : x / L.blockSize = o / L.blockSize
  · rw [hfb, if_pos rfl, getD_splice (by omega), hd]
    rw [hfb] at hox
    by_cases hm : o % L.blockSize ≤ x % L.blockSize ∧ x % L.blockSize < o % L.blockSize + n
    · rw [if_pos hm, if_pos (by omega)]
      congr 1
      omega
    · rw [if_neg hm, if_neg (by omega), content, hfb]
  · rw [if_neg fun h => hfb (Layout.fileSlot_inj h), if_neg]
    · rfl
    · rintro ⟨hlo, hhi⟩
      refine hfb ?_
      refine Nat.le_antisymm ?_ (Nat.div_le_div_right hlo)
      rw [Nat.div_le_iff_le_mul_add_pred hpos]
      omega

/-- Writing a part and then the rest. -/
theorem overwrite_overwrite (c : Nat → UInt8) (o : Nat) (data : Bytes) (di k n : Nat) (x : Nat) :
    overwrite (overwrite c o data di k) (o + k) data (di + k) n x =
      overwrite c o data di (k + n) x := by
  unfold overwrite
  split
  · rw [if_pos (by omega)]
    congr 1
    omega
  · split
    · rw [if_pos (by omega)]
    · rw [if_neg (by omega)]

/-- The part of the data that goes to one block. -/
theorem overwrite_slice {c : Nat → UInt8} {o : Nat} {data : Bytes} {di k : Nat}
    (x : Nat) : overwrite c o (slice data di (di + k)) 0 k x = overwrite c o data di k x := by
  unfold overwrite
  split
  · rw [getD_slice, if_pos (by omega)]
    congr 1
    omega
  · rfl

/-- **`writeLoop`** writes the data, and nothing else. -/
theorem writeLoop_wp [L.Ok] {data : Bytes} (h : Work L M s ino raw) {fuel cur n di : Nat}
    (hn : n ≤ fuel) (hdi : di + n ≤ data.length) :
    (writeLoop data ((cur + n : Nat) : Int) fuel cur di raw).wlp
      (fun raw' s' => Work L M s' ino raw' ∧
        Touched L M ino (work L s ino raw) (work L s' ino raw') ∧ Steady L s s' ∧
        SameFields raw raw' ∧
        ∀ x, x / L.blockSize < L.maxBlocks → content L (work L s' ino raw') ino x =
          overwrite (content L (work L s ino raw) ino) cur data di n x) s := by
  have hnone : ∀ x, content L (work L s ino raw) ino x =
      overwrite (content L (work L s ino raw) ino) cur data di 0 x := by
    intro x
    rw [overwrite, if_neg (by omega)]
  induction fuel generalizing s raw cur n di with
  | zero =>
    obtain rfl : n = 0 := by omega
    exact ⟨h, .refl h.own, .refl L s, .refl raw, fun x _ => hnone x⟩
  | succ fuel ih =>
    rcases Nat.eq_zero_or_pos n with rfl | hpos
    · simp only [writeLoop]
      rw [if_neg (by omega)]
      exact ⟨h, .refl h.own, .refl L s, .refl raw, fun x _ => hnone x⟩
    have hrest : (((cur + n : Nat) : Int) - (cur : Int)).toNat = n := by omega
    simp only [writeLoop]
    rw [if_pos (by omega)]
    simp only [wp_bind, wp_get, h.mounted.tables.blockSize, toNat_mod_blockSize, hrest]
    generalize hchunk : min (L.blockSize - cur % L.blockSize) n = chunk
    obtain ⟨hle, hone, hin, hstop⟩ := chunk_spec hpos hchunk
    have hlen : (slice data di (di + chunk)).length = chunk := by
      rw [length_slice]
      omega
    refine wp_imp (allocateBlockFor_wp h _) ?_
    rintro ⟨phys, raw1⟩ s1 ⟨hfb, he, -⟩
    obtain rfl : (forest (work L s1 ino raw1)).blockAt
      (L.fileSlot ino (cur / L.blockSize)) = phys := he.block
    have hleaf := @Layout.leaf_fileSlot L ino _ hfb
    have hlen1 := he.ready.length_leafData hleaf
    refine storeLeaf_wp he.ready hleaf (Layout.fileSlot_fst _ _) he.ne_zero
      (fun d hd => ?_) (fun d s2 hd hst => ?_) fun _ _ _ _ => trivial
    · rw [← Except.ok.inj hd, length_splice (by rw [hlen, hlen1]; exact hin), hlen1]
    · cases hd
      rw [hstop, ← Nat.cast_add]
      refine wp_imp (ih hst.ready (by omega) (by omega) fun x => ?_) ?_
      · rw [overwrite, if_neg (by omega)]
      rintro raw2 s3 ⟨hw, ht, hs, hf, hc⟩
      refine ⟨hw, (he.touched.trans hst.touched).trans ht, (he.steady.trans hst.steady).trans hs,
        he.grown_fields.trans hf, fun x hx => ?_⟩
      rw [hc x hx]
      have hstep : ∀ y, y / L.blockSize < L.maxBlocks → content L (work L s2 ino raw1) ino y =
          overwrite (content L (work L s ino raw) ino) cur data di chunk y := by
        intro y hy
        rw [content_splice hlen1 hin hlen (fun fb hfb' =>
          hst.leaf _ (Layout.leaf_fileSlot hfb')) hy, overwrite_slice]
        unfold overwrite
        rw [content_congr (he.grown.leaf _ (Layout.leaf_fileSlot hy))]
      have hcongr : overwrite (content L (work L s2 ino raw1) ino) (cur + chunk) data
          (di + chunk) (n - chunk) x =
          overwrite (overwrite (content L (work L s ino raw) ino) cur data di chunk)
            (cur + chunk) data (di + chunk) (n - chunk) x := by
        unfold overwrite
        rw [hstep x hx]
        rfl
      rw [hcongr, overwrite_overwrite]
      congr 1
      omega

/-! ### Operations on a file -/

/-- The inode is in use and has blocks, on a volume that is in order. -/
structure Live (L : Layout) (M : Set Nat) (s : Ext2FS) (ino : Nat) : Prop where
  mounted : Mounted L s
  own : Own L M (vol L s)
  inodeUsed : (vol L s).inodeUsed ino = true
  kind : hasBlocks ((vol L s).inode ino)

theorem hasInode_of_used (h : (vol L s).inodeUsed ino = true) : L.HasInode ino := by
  simp only [vol, volume, Bool.and_eq_true, decide_eq_true_eq] at h
  exact h.1

namespace Live

theorem hasInode (h : Live L M s ino) : L.HasInode ino := hasInode_of_used h.inodeUsed

theorem ready [L.Ok] (h : Live L M s ino) : Work L M s ino ((vol L s).inode ino) :=
  ⟨h.mounted, by rw [work_self]; exact h.own, h.inodeUsed, h.mounted.length_inode h.hasInode,
    h.kind⟩

theorem of_after {T : Set Nat} {s' : Ext2FS} (h : Live L M s ino)
    (ha : After L s T (vol L s) s') : Live L M s' ino :=
  ⟨ha.mounted, by rw [ha.vol_eq]; exact h.own, by rw [ha.vol_eq]; exact h.inodeUsed,
    by rw [ha.vol_eq]; exact h.kind⟩

/-- A function of the file starts with its inode. -/
theorem readInode_bind [L.Ok] (h : Live L M s ino) {α : Type} {f : Bytes → Coro Error Ext2FS α}
    {Q : α → Ext2FS → Prop} {E : Error → Ext2FS → Prop}
    (hf : ∀ s1, Same L s s1 → Work L M s1 ino ((vol L s).inode ino) →
      work L s1 ino ((vol L s).inode ino) = vol L s → (f ((vol L s).inode ino)).wp Q E s1) :
    (readInode ino >>= f).wp Q E s := by
  refine wp_bind_ok (readInode_wp h.mounted h.hasInode) ?_
  rintro _ s1 ⟨rfl, ha⟩
  exact hf s1 ha (h.ready.of_after ha) (by rw [work_congr ha.vol_eq, work_self])

end Live

/-- The copy of the inode goes to the device. -/
theorem writeBackInode_wp [L.Ok] (h : Work L M s ino raw) :
    (writeInode ino raw).returns
      (fun _ s' => Live L M s' ino ∧ vol L s' = work L s ino raw ∧ Steady L s s') s := by
  refine wp_imp (writeInode_wp h.mounted (hasInode_of_used h.inodeUsed) h.length) ?_
  intro _ s' ha
  exact ⟨⟨ha.mounted, by rw [ha.vol_eq]; exact h.own, by rw [ha.vol_eq]; exact h.inodeUsed,
    by rw [ha.vol_eq]; exact h.holds.2⟩, ha.vol_eq, ha.steady (fun _ => rfl) (fun _ => rfl) rfl⟩

/-- What files hold is as before; blocks may have been lost. -/
structure Kept (L : Layout) (M : Set Nat) (s s' : Ext2FS) : Prop where
  mounted : Mounted L s'
  own : Own L M (vol L s')
  inodeUsed : ∀ x, (vol L s').inodeUsed x = (vol L s).inodeUsed x
  inode : ∀ x, (vol L s').inode x = (vol L s).inode x
  leaf : ∀ τ, L.shape.Leaf τ → leafData L (vol L s') τ = leafData L (vol L s) τ

theorem After.kept {T : Set Nat} (ho : Own L M (vol L s))
    (h : After L s T (vol L s) s') : Kept L M s s' :=
  ⟨h.mounted, by rw [h.vol_eq]; exact ho, fun _ => by rw [h.vol_eq], fun _ => by rw [h.vol_eq],
    fun _ _ => by rw [h.vol_eq]⟩

theorem Kept.live (h : Kept L M s s') (hi : Live L M s ino) : Live L M s' ino :=
  ⟨h.mounted, h.own, (h.inodeUsed ino).trans hi.inodeUsed, by rw [h.inode]; exact hi.kind⟩

/-- **Allocation that raised** has not changed any file: what it added hangs under
pointers that the inode on the device does not have. -/
theorem Failed.kept (h : Failed L M s ino ((vol L s).inode ino) s') : Kept L M s s' := by
  obtain ⟨raw', hg⟩ := h.grown
  rw [work_self] at hg
  have hinode : ∀ x, (vol L s').inode x = (vol L s).inode x := by
    intro x
    by_cases hx : x = ino
    · rw [hx, h.disk]
    · rw [← hg.inode x hx, work_inode_of_ne hx]
  have hused : ∀ x, (vol L s').inodeUsed x = (vol L s).inodeUsed x := hg.inodeUsed
  have hholds : ∀ x, (vol L s').Holds x ↔ (vol L s).Holds x := by
    intro x
    unfold Volume.Holds
    rw [hused, hinode]
  have hroot : ∀ k, (forest (vol L s')).root k = (forest (vol L s)).root k := by
    rintro ⟨x, n⟩
    simp only [forest, hholds, hinode]
  -- a slot is under a pointer that was 0 and still is, or is as in the copy
  have hat : ∀ τ, (forest (vol L s)).root τ.1 = 0 ∨
      (forest (vol L s')).blockAt τ = (forest (work L s' ino raw')).blockAt τ := by
    intro τ
    by_cases hz : (forest (vol L s)).root τ.1 = 0
    · exact .inl hz
    · right
      have hkeep := hg.keeps (τ.1, []) (Shape.valid_root _) hz
      rw [Forest.blockAt_root, Forest.blockAt_root] at hkeep
      rw [Forest.blockAt, Forest.blockAt, hroot, hkeep]
      rfl
  have hmono : ∀ τ, (forest (vol L s')).blockAt τ ≠ 0 →
      (forest (vol L s')).blockAt τ = (forest (work L s' ino raw')).blockAt τ := by
    intro τ hz
    refine (hat τ).resolve_left fun h0 => hz ?_
    exact Forest.blockAt_of_root_eq_zero ((hroot _).trans h0)
  refine ⟨h.mounted, ⟨hg.own.owned.mono (fun τ _ hz => hmono τ hz) fun _ _ _ ht => ht,
    hg.own.metaUsed, hg.own.areas⟩, hused, hinode, fun τ hτ => ?_⟩
  rcases hat τ with h0 | heq
  · rw [leafData, leafData, Forest.blockAt_of_root_eq_zero h0,
      Forest.blockAt_of_root_eq_zero ((hroot _).trans h0)]
    rfl
  · rw [← hg.leaf τ hτ, leafData, leafData, heq]
    rfl

/-- **`readFileData`** returns the bytes of the file. -/
theorem readFileData_wp [L.Ok] (h : Live L M s ino) (offset : Nat) (n : Int) :
    (readFileData ino offset n).wlp (fun b s' => b = window (content L (vol L s) ino) offset
          (min (offset + n.toNat) (sizeOf ((vol L s).inode ino)) - offset) ∧
        Same L s s') s := by
  refine h.readInode_bind fun s1 ha1 hw hwork => ?_
  simp only [wp_bind, wp_lift, fileSize_eq (hw.length_ge)]
  generalize hsize : sizeOf ((vol L s).inode ino) = size
  by_cases hoff : (offset : Int) ≥ size
  · rw [if_pos hoff, show min (offset + n.toNat) size - offset = 0 by omega]
    exact ⟨rfl, ha1⟩
  · rw [if_neg hoff]
    have hdone : ∀ k, k = min (offset + n.toNat) size - offset →
        min ((offset : Int) + n) size ≤ ((offset + k : Nat) : Int) := by omega
    generalize hk : min (offset + n.toNat) size - offset = k at hdone ⊢
    by_cases hneg : n < 0
    · -- the loop is not entered
      have hfuel : (min ((offset : Int) + n) size - offset).toNat = 0 := by omega
      obtain rfl : k = 0 := by omega
      simp only [hfuel, readLoop]
      exact ⟨rfl, ha1⟩
    · have hstop : min ((offset : Int) + n) size = ((offset + k : Nat) : Int) := by omega
      have hfuel : (((offset + k : Nat) : Int) - offset).toNat = k := by omega
      simp only [hstop, hfuel]
      refine wp_imp (readLoop_wp hw (Nat.le_refl _)) ?_
      rintro b s2 ⟨rfl, ha2⟩
      rw [hwork]
      exact ⟨rfl, ha1.still ha2⟩

/-- **`writeFileData`** writes the data and grows the file to its end. -/
theorem writeFileData_wp [L.Ok] (h : Live L M s ino)
    (hreg : IsReg ((vol L s).inode ino)) (offset : Nat) (data : Bytes) :
    (writeFileData ino offset data).wlp
      (fun n s' => n = data.length ∧ Live L M s' ino ∧ Touched L M ino (vol L s) (vol L s') ∧
        Steady L s s' ∧
        (offset + data.length < 2 ^ 64 → sizeOf ((vol L s').inode ino) =
            max (sizeOf ((vol L s).inode ino)) (offset + data.length)) ∧
        ∀ x, x / L.blockSize < L.maxBlocks → content L (vol L s') ino x =
          overwrite (content L (vol L s) ino) offset data 0 data.length x) s := by
  refine h.readInode_bind fun s1 ha1 hw hwork => ?_
  have hloop := @writeLoop_wp L M s1 ino _ _ data hw data.length offset data.length 0
    (Nat.le_refl _) (by omega)
  rw [hwork, Nat.cast_add] at hloop
  refine wp_bind_ok hloop ?_
  rintro raw1 s2 ⟨hw2, ht2, hs2, hf2, hc2⟩
  have hraw1 := hw2.length_ge
  have hmode : leAt 2 raw1 0 = leAt 2 ((vol L s).inode ino) 0 := hf2.2 2 0 (.inl (by omega))
  -- the inode that goes to the device
  have hgrow : ∃ raw2, growTo raw1 (offset + data.length) = .ok raw2 ∧ Sized raw1 raw2 ∧
      (IsReg raw1 → offset + data.length < 2 ^ 64 →
        sizeOf raw2 = max (sizeOf raw1) (offset + data.length)) := by
    simp only [growTo, Bind.bind, Except.bind, fileSize_eq hraw1]
    split
    · next hgt =>
      obtain ⟨raw2, hset, hsized, hsize, -⟩ := setFileSize_eq hraw1 (offset + data.length)
      exact ⟨raw2, hset, hsized, fun hm hlt => by omega⟩
    · next hle => exact ⟨raw1, rfl, .refl _, fun _ _ => by omega⟩
  obtain ⟨raw2, hgrow, hsized, hsize⟩ := hgrow
  obtain ⟨hw3, ht3, hl3⟩ := hw2.touched_sized hsized (.inl (by rw [IsReg, hmode, hreg]))
  simp only [wp_bind, wp_lift, hgrow]
  refine wp_imp (writeBackInode_wp hw3) ?_
  rintro - s3 ⟨hlive, hvol, hs3⟩
  rw [wp_pure, hvol]
  refine ⟨rfl, hlive, ht2.trans ht3, (ha1.steady_self.trans hs2).trans hs3, fun hlt => ?_,
    fun x hx => ?_⟩
  · rw [work_inode, hsize (by rw [IsReg, hmode]; exact hreg) hlt, sizeOf_congr hf2]
  · rw [content_congr (hl3 _), hc2 x hx]

/-! ### Truncating -/

/-- The number of blocks for `n` bytes. -/
def Layout.blocksFor (L : Layout) (n : Nat) : Nat := (n + L.blockSize - 1) / L.blockSize

theorem blocksFor_eq (n : Nat) : Ext2.blocksFor (n : Int) L.blockSize = (L.blocksFor n : Int) := by
  have hpos := L.blockSize_pos
  unfold Ext2.blocksFor Layout.blocksFor
  rw [show (n : Int) + L.blockSize - 1 = ((n + L.blockSize - 1 : Nat) : Int) by omega,
    ← Int.natCast_div]

/-- A byte before the end is in one of the blocks. -/
theorem div_lt_blocksFor {n x : Nat} (h : x < n) : x / L.blockSize < L.blocksFor n := by
  have hpos := L.blockSize_pos
  unfold Layout.blocksFor
  rw [Nat.div_lt_iff_lt_mul hpos]
  have hdiv := Nat.div_add_mod (n + L.blockSize - 1) L.blockSize
  have hmod := Nat.mod_lt (n + L.blockSize - 1) hpos
  rw [Nat.mul_comm]
  omega

/-- The only block with bytes before and past the end is that of the end. -/
theorem div_eq_of_lt_blocksFor {n x : Nat} (hx : n ≤ x) (h : x / L.blockSize < L.blocksFor n) :
    x / L.blockSize = n / L.blockSize ∧ n % L.blockSize ≠ 0 := by
  have hpos := L.blockSize_pos
  have hle : n / L.blockSize ≤ x / L.blockSize := Nat.div_le_div_right hx
  have hn := Nat.div_add_mod n L.blockSize
  have hmod := Nat.mod_lt n hpos
  have hlt : L.blocksFor n ≤ n / L.blockSize + if n % L.blockSize = 0 then 0 else 1 := by
    unfold Layout.blocksFor
    rw [Nat.div_le_iff_le_mul_add_pred hpos, Nat.mul_add]
    split <;> omega
  split at hlt
  · omega
  · next hne => exact ⟨by omega, hne⟩

theorem Released.touched {S : Set (Slot (Nat × Nat))} {raw' : Bytes}
    (h : Released L M s ino raw S raw' s') (hS : ∀ τ ∈ S, τ.1.1 = ino) :
    Touched L M ino (work L s ino raw) (work L s' ino raw') := by
  refine ⟨h.ready.own, h.inodeUsed, fun x hx => ?_, fun w off ho => ?_, fun τ hτ hne => ?_, h.exact⟩
  · rw [work_inode_of_ne hx, work_inode_of_ne hx, h.inode]
  · rw [work_inode, work_inode]
    exact h.fields.2 w off (by omega)
  · exact h.leaf τ hτ fun hm => hne (hS τ hm)

/-- **`zeroTail`** zeroes the rest of the block the end is in. -/
theorem zeroTail_wp [L.Ok] (h : Work L M s ino raw) (size : Nat) :
    (zeroTail raw size).wlp (fun _ s' => Work L M s' ino raw ∧
        Touched L M ino (work L s ino raw) (work L s' ino raw) ∧ Steady L s s' ∧
        ∀ x, x / L.blockSize < L.maxBlocks → content L (work L s' ino raw) ino x =
          if x / L.blockSize = size / L.blockSize ∧ size % L.blockSize ≠ 0 ∧ size ≤ x then 0
          else content L (work L s ino raw) ino x) s := by
  simp only [zeroTail, wp_bind, wp_get, h.mounted.tables.blockSize, toNat_mod_blockSize]
  by_cases htail : size % L.blockSize = 0
  · rw [if_neg (by rw [← Int.natCast_mod, htail]; simp)]
    exact ⟨h, .refl h.own, .refl L s, fun x _ => by rw [if_neg fun hc => hc.2.1 htail]⟩
  have hcond : (size : Int) > 0 ∧ (size : Int) % (L.blockSize : Int) ≠ 0 := by
    constructor
    · rcases Nat.eq_zero_or_pos size with hz | hpos
      · rw [hz, Nat.zero_mod] at htail
        exact absurd rfl htail
      · omega
    · exact_mod_cast htail
  rw [if_pos hcond, ← Int.natCast_div]
  refine wp_bind_ok (resolveBlock_wp h _) ?_
  rintro phys s1 ⟨hfb, rfl, ha1⟩
  have hleaf := @Layout.leaf_fileSlot L ino _ hfb
  have h1 := h.of_after ha1
  have hwork1 := ha1.work_eq ino raw
  rw [← hwork1]
  by_cases hz : (forest (work L s1 ino raw)).blockAt (L.fileSlot ino (size / L.blockSize)) = 0
  · -- a hole holds zeros already
    rw [if_pos hz]
    refine ⟨h1, .refl h1.own, ha1.steady_self, fun x _ => ?_⟩
    split
    · next hx => rw [content, hx.1, leafData, if_pos hz, getD_zeros]
    · rfl
  · rw [if_neg hz]
    have hlen := h1.length_leafData hleaf
    have hlt := Nat.mod_lt size L.blockSize_pos
    have hin : size % L.blockSize + (zeros (L.blockSize - size % L.blockSize)).length ≤
        L.blockSize := by
      rw [length_zeros]
      omega
    simp only [wp_bind]
    refine storeLeaf_wp h1 hleaf (Layout.fileSlot_fst _ _) hz (fun d hd => ?_)
      (fun d s2 hd hst => ?_) fun _ _ _ _ => trivial
    · rw [← Except.ok.inj hd, length_splice (by rw [hlen]; exact hin), hlen]
    · cases hd
      refine ⟨hst.ready, hst.touched, ha1.steady_self.trans hst.steady, fun x hx => ?_⟩
      rw [content_splice hlen hin rfl (fun fb hfb' =>
        hst.leaf _ (Layout.leaf_fileSlot hfb')) hx, overwrite, getD_zeros, length_zeros]
      have hs := Nat.div_add_mod size L.blockSize
      have hxs := Nat.div_add_mod x L.blockSize
      have hxlt := Nat.mod_lt x L.blockSize_pos
      by_cases hxb : x / L.blockSize = size / L.blockSize
      · rw [hxb] at hxs
        by_cases hle : size ≤ x
        · rw [if_pos (by omega), if_pos ⟨hxb, htail, hle⟩]
        · rw [if_neg (by omega), if_neg fun hc => hle hc.2.2]
      · rw [if_neg, if_neg fun hc => hxb hc.1]
        rintro ⟨hlo, hhi⟩
        refine hxb (Nat.le_antisymm ?_ (Nat.div_le_div_right hlo))
        rw [Nat.div_le_iff_le_mul_add_pred L.blockSize_pos]
        omega

/-- **`shrinkFile`** gives back the blocks past the new end and zeroes what is
left of the last one. -/
theorem shrinkFile_wp [L.Ok] (h : Work L M s ino raw) {curSize size : Nat}
    (hlt : size < curSize) (hreg : IsReg raw) :
    (shrinkFile ino raw curSize size).wlp
      (fun _ s' => Live L M s' ino ∧ Touched L M ino (work L s ino raw) (vol L s') ∧ Steady L s s' ∧
        (size < 2 ^ 64 → sizeOf ((vol L s').inode ino) = size) ∧
        ∀ x, x / L.blockSize < L.maxBlocks → content L (vol L s') ino x =
          if size ≤ x ∧ x / L.blockSize < L.blocksFor curSize then 0
          else content L (work L s ino raw) ino x) s := by
  simp only [shrinkFile, wp_bind, wp_get, h.mounted.tables.blockSize, blocksFor_eq]
  have hmono : L.blocksFor size ≤ L.blocksFor curSize :=
    Nat.div_le_div_right (by omega)
  refine wp_imp (truncateBlocks_wp h _ _) ?_
  intro raw1 s1 hr
  have ht1 := hr.touched (by
    rintro τ ⟨k, -, -, rfl⟩
    exact Layout.fileSlot_fst _ _)
  refine wp_imp (zeroTail_wp hr.ready size) ?_
  rintro - s2 ⟨hw2, ht2, hs2, hc2⟩
  obtain ⟨raw2, hset, hsized, hsize, -⟩ := setFileSize_eq hw2.length_ge size
  have hmode : IsReg raw1 := by
    rw [IsReg, hr.fields.2 2 0 (.inl (by omega)), hreg]
  obtain ⟨hw3, ht3, hl3⟩ := hw2.touched_sized hsized (.inl hmode)
  simp only [wp_lift, hset]
  refine wp_imp (writeBackInode_wp hw3) ?_
  rintro - s3 ⟨hlive, hvol, hs3⟩
  rw [hvol]
  refine ⟨hlive, (ht1.trans ht2).trans ht3, (hr.steady.trans hs2).trans hs3, fun hs => ?_,
    fun x hx => ?_⟩
  · rw [work_inode, hsize hmode hs]
  · rw [content_congr (hl3 _), hc2 x hx]
    have hleaf := @Layout.leaf_fileSlot L ino _ hx
    by_cases hge : size ≤ x
    · by_cases hkept : x / L.blockSize < L.blocksFor size
      · -- in the block of the new end
        obtain ⟨hdiv, htail⟩ := div_eq_of_lt_blocksFor hge hkept
        rw [if_pos ⟨hdiv, htail, hge⟩, if_pos ⟨hge, by omega⟩]
      · have hne : ¬ (x / L.blockSize = size / L.blockSize ∧ size % L.blockSize ≠ 0 ∧
            size ≤ x) := by
          rintro ⟨hdiv, htail, -⟩
          refine hkept (hdiv ▸ ?_)
          have hs := Nat.div_add_mod size L.blockSize
          exact Nat.lt_of_lt_of_le (Nat.lt_succ_self _) ((Nat.le_div_iff_mul_le L.blockSize_pos).mpr
            (by rw [Nat.succ_mul, Nat.mul_comm]; omega))
        rw [if_neg hne]
        by_cases hold : x / L.blockSize < L.blocksFor curSize
        · -- in a block that was given back
          have hz := hr.cleared (L.fileSlot ino (x / L.blockSize))
            ⟨x / L.blockSize, by omega, by omega, rfl⟩ hleaf.1
          rw [if_pos ⟨hge, hold⟩, content, leafData, if_pos hz, getD_zeros]
        · rw [if_neg fun hc => hold hc.2]
          refine content_congr (hr.leaf _ hleaf ?_)
          rintro ⟨k, -, hhi, heq⟩
          have := Layout.fileSlot_inj heq
          omega
    · rw [if_neg fun hc => hge hc.2.2, if_neg fun hc => hge hc.1]
      refine content_congr (hr.leaf _ hleaf ?_)
      rintro ⟨k, hlo, -, heq⟩
      have hk := Layout.fileSlot_inj heq
      have := div_lt_blocksFor (L := L) (n := size) (x := x) (by omega)
      omega

/-- **`truncateFile`** sets the size; a file that shrinks loses the rest. -/
theorem truncateFile_wp [L.Ok] (h : Live L M s ino)
    (hreg : IsReg ((vol L s).inode ino)) (size : Nat) :
    (truncateFile ino size).wlp
      (fun _ s' => Live L M s' ino ∧ Touched L M ino (vol L s) (vol L s') ∧ Steady L s s' ∧
        (size < 2 ^ 64 → sizeOf ((vol L s').inode ino) = size) ∧
        ∀ x, x / L.blockSize < L.maxBlocks → content L (vol L s') ino x =
          if size ≤ x ∧ x / L.blockSize < L.blocksFor (sizeOf ((vol L s).inode ino)) ∧
            size < sizeOf ((vol L s).inode ino) then 0
          else content L (vol L s) ino x) s := by
  refine h.readInode_bind fun s1 ha1 hw1 hwork1 => ?_
  simp only [wp_bind, wp_lift, fileSize_eq hw1.length_ge]
  by_cases hle : (size : Int) ≥ sizeOf ((vol L s).inode ino)
  · obtain ⟨raw2, hset, hsized, hsize, -⟩ := setFileSize_eq hw1.length_ge size
    obtain ⟨hw2, ht2, hl2⟩ := hw1.touched_sized hsized (.inl hreg)
    rw [hwork1] at ht2 hl2
    rw [if_pos hle]
    simp only [wp_bind, wp_lift, hset]
    refine wp_imp (writeBackInode_wp hw2) ?_
    rintro - s2 ⟨hlive, hvol, hs2⟩
    rw [hvol]
    refine ⟨hlive, ht2, ha1.steady_self.trans hs2, fun hs => by rw [work_inode, hsize hreg hs],
      fun x _ => ?_⟩
    rw [content_congr (hl2 _), if_neg]
    omega
  · rw [if_neg hle]
    have hlt : size < sizeOf ((vol L s).inode ino) := by omega
    refine wp_imp (shrinkFile_wp hw1 hlt hreg) ?_
    rintro - s2 ⟨hlive, ht, hs2, hsize, hc⟩
    rw [hwork1] at ht hc
    refine ⟨hlive, ht, ha1.steady_self.trans hs2, hsize, fun x hx => ?_⟩
    rw [hc x hx]
    simp only [hlt, and_true]

end

end PythonOS.Ext2
