import PythonOS.Ext2.Alloc
import PythonOS.Ext2.Node

/-!
# PythonOS.Ext2.Reading

Functions that only read, of whatever they are given: `Reading L m` says that `m`
changes no more than the cache, whether it returns or raises. No pointer has to lead to a
block of the volume for that.
-/

namespace PythonOS.Ext2

open Lib Coro

/-- `m` changes at most the cache. -/
def Reading (L : Layout) {α : Type} (m : FS α) : Prop :=
  ∀ s, Mounted L s → m.wp (fun _ s' => Reads L s s') (fun _ s' => Reads L s s') s

theorem Reads.refl {L : Layout} {s : Ext2FS} (h : Mounted L s) : Reads L s s :=
  ⟨h, rfl, rfl, rfl, fun _ _ hr => hr⟩

theorem Reads.trans {L : Layout} {s s1 s2 : Ext2FS} (h : Reads L s s1) (h' : Reads L s1 s2) :
    Reads L s s2 :=
  ⟨h'.mounted, h'.dev.trans h.dev, h'.sb.trans h.sb, h'.bgdt.trans h.bgdt,
    fun b r hr => h'.held b r (h.held b r hr)⟩

/-- Sectors that may not be there. -/
theorem readSectors_reads (lba n : Nat) (s : Ext2FS) :
    (readSectors lba n).wp (fun b s' => b = sectorsAt s.dev lba n ∧ s' = s) (fun _ s' => s' = s)
      s := by
  induction n generalizing lba with
  | zero => exact ⟨rfl, rfl⟩
  | succ n ih =>
    simp only [readSectors, readSector, wp_bind, wp_yield, wp_get]
    rw [wp_ite]
    refine ⟨fun _ => ?_, fun _ => rfl⟩
    rw [wp_pure]
    refine wp_imp (ih (lba + 1)) ?_
    rintro rest s' ⟨rfl, rfl⟩
    exact ⟨rfl, rfl⟩

namespace Reading

variable {L : Layout} {α β : Type}

/-! ### Rules -/

theorem pure (a : α) : Reading L (pure a : FS α) := fun _ h => Reads.refl h

theorem throw (e : Error) : Reading L (throw e : FS α) := fun _ h => Reads.refl h

theorem lift (x : Except Error α) : Reading L (liftM x : FS α) := by
  intro s h
  cases x <;> exact Reads.refl h

theorem get : Reading L (MonadState.get : FS Ext2FS) := fun _ h => Reads.refl h

theorem load (r : Ref) : Reading L (load r) := fun _ h => Reads.refl h

/-- Both parts read only, the second whatever the first returns. -/
theorem bind {m : FS α} {f : α → FS β} (hm : Reading L m) (hf : ∀ a, Reading L (f a)) :
    Reading L (m >>= f) := by
  intro s h
  refine wp_bind_ok (hm s h) fun a s1 hr => ?_
  exact wp_mono (hf a s1 hr.mounted) (fun _ _ hr' => hr.trans hr') fun _ _ hr' => hr.trans hr'

theorem ite {c : Prop} [Decidable c] {m m' : FS α} (hm : Reading L m) (hm' : Reading L m') :
    Reading L (if c then m else m') := by
  split
  · exact hm
  · exact hm'

/-- Any block can be read, if it is on the device. -/
theorem readBlock (b : Nat) : Reading L (readBlock b) := by
  intro s h
  simp only [Ext2.readBlock, wp_bind, wp_get]
  cases hr : s.blockCache b with
  | some r => exact Reads.refl h
  | none =>
    rw [h.tables.sectorsPerBlock]
    refine wp_bind_of (readSectors_reads _ _ s) (fun _ _ he => by rw [he]; exact Reads.refl h) ?_
    rintro d s' ⟨hd, rfl⟩
    refine ⟨⟨h.tables.congr_cache _ _ _, h.cached.cacheBlock b d (fun _ => hd) fun _ _ hx => hx⟩,
      rfl, rfl, rfl, fun x r hx => ?_⟩
    have hxb : x ≠ b := by
      intro heq
      rw [heq, hr] at hx
      cases hx
    simpa [hxb] using hx

/-! ### Inodes, files and directories

Pointers are followed without a look at where they lead. -/

theorem readInode (ino : Nat) : Reading L (readInode ino) :=
  .bind .get fun _ => .bind (.lift _) fun _ => .bind (.readBlock _) fun _ =>
    .bind (.load _) fun _ =>
    .pure _

theorem followEntry (ind i : Nat) : Reading L (followEntry ind i) :=
  .ite (.pure _) (.bind (.readBlock _) fun _ => .bind (.load _) fun _ => .lift _)

theorem resolveBlock (raw : Bytes) (fb : Int) : Reading L (resolveBlock raw fb) :=
  .bind .get fun _ => .ite (.lift _) (.ite (.bind (.lift _) fun _ => .followEntry _ _)
    (.ite (.bind (.lift _) fun _ => .bind (.followEntry _ _) fun _ => .followEntry _ _) (.throw _)))

theorem readLoop (raw : Bytes) (stop : Int) (fuel : Nat) (cur : Int) :
    Reading L (readLoop raw stop fuel cur) := by
  induction fuel generalizing cur with
  | zero => exact .pure _
  | succ fuel ih =>
    refine .ite (.bind .get fun _ => .bind (.resolveBlock _ _) fun _ => .bind ?_ fun _ =>
      .bind (ih _) fun _ => .pure _) (.pure _)
    exact .ite (.pure _) (.bind (.readBlock _) fun _ => .bind (.load _) fun _ => .pure _)

theorem readFileData (ino : Nat) (offset n : Int) : Reading L (readFileData ino offset n) :=
  .bind (.readInode _) fun _ => .bind (.lift _) fun _ => .ite (.pure _) (.readLoop _ _ _ _)

theorem readDirBlocks (raw : Bytes) (n fb : Nat) : Reading L (readDirBlocks raw n fb) := by
  induction n generalizing fb with
  | zero => exact .pure _
  | succ n ih =>
    refine .bind (.resolveBlock _ _) fun _ => .bind ?_ fun _ => .bind (ih _) fun _ => .pure _
    exact .ite (.pure _) (.bind (.readBlock _) fun _ => .bind (.load _) fun _ => .bind .get fun _ =>
      .lift _)

theorem readDirEntries (ino : Nat) : Reading L (readDirEntries ino) :=
  .bind (.readInode _) fun _ => .bind (.lift _) fun _ => .bind .get fun _ => .readDirBlocks _ _ _

theorem requireFormat (ino format : Nat) (e : Error) : Reading L (requireFormat ino format e) :=
  .bind (.readInode _) fun _ => .bind (.lift _) fun _ => .ite (.pure _) (.throw _)

/-! ### The methods of a node -/

theorem nodeRead (ino : Nat) (offset n : Int) : Reading L (nodeRead ino offset n) :=
  .bind (.readInode _) fun _ => .bind (.lift _) fun _ => .ite (.throw _)
    (.ite (.bind (.lift _) fun _ => .ite (.pure _) (.readFileData _ _ _)) (.readFileData _ _ _))

theorem nodeReaddir (ino : Nat) : Reading L (nodeReaddir ino) :=
  .bind (.requireFormat _ _ _) fun _ => .bind (.readDirEntries _) fun _ => .pure _

theorem nodeLookup (ino : Nat) (name : String) : Reading L (nodeLookup ino name) := by
  refine .ite (.pure _) (.bind (.requireFormat _ _ _) fun _ =>
    .bind (.readDirEntries _) fun es => ?_)
  split
  · exact .pure _
  · exact .throw _

end Reading

end PythonOS.Ext2
