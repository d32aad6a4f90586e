import PythonOS.Ext2.Create

/-!
# PythonOS.Ext2.Unlink

What `unlink` does: `nodeUnlink_wp`. The entry goes, the link counts change, and the inode
is given back, a directory at once and anything else with its last link.
-/

namespace PythonOS.Ext2

open Lib List Coro Lib.Bytes

/-- An entry of the name was removed from the directory `ino`, with the records `D`. -/
structure Removed (L : Layout) (M : Set Nat) (s : Ext2FS) (ino : Nat) (D : List (List Record))
    (name : String) (t : Nat × Nat) (D' : List (List Record)) (s' : Ext2FS) : Prop where
  live : Live L M s' ino
  touched : Touched L M ino (vol L s) (vol L s')
  steady : Steady L s s'
  rewritten : Rewritten L (vol L s) (vol L s')
  directory : Directory L (vol L s') ino D'
  perm : (dirEntries D).Perm ((Utf8.encode name, t) :: dirEntries D')

/-- `unlink` of the directory `target`. -/
def UnlinkedDir (L : Layout) (M : Set Nat) (s : Ext2FS) (ino : Nat) (D : List (List Record))
    (name : String) (target : Nat) (s' : Ext2FS) : Prop :=
  ∃ t D' s₁ s₂, Removed L M s ino D name t D' s₁ ∧
    Relinked L M s₁ ino (leAt 2 ((vol L s).inode ino) 26 - 1) s₂ ∧
    After L s₂ ∅ ((vol L s₂).dropInode L target true) s'

/-- `unlink` of an inode that is no directory. -/
def UnlinkedFile (L : Layout) (M : Set Nat) (s : Ext2FS) (ino : Nat) (D : List (List Record))
    (name : String) (target : Nat) (s' : Ext2FS) : Prop :=
  ∃ t D' s₁, Removed L M s ino D name t D' s₁ ∧
    if leAt 2 ((vol L s).inode target) 26 ≤ 1 then
      After L s₁ ∅ ((vol L s₁).dropInode L target false) s'
    else Relinked L M s₁ target (leAt 2 ((vol L s).inode target) 26 - 1) s'

/-- What an entry of a directory may lead to. -/
structure Linkable (L : Layout) (M : Set Nat) (s : Ext2FS) (x : Nat) : Prop where
  hasInode : L.HasInode x
  plain : leAt 2 ((vol L s).inode x) 26 ≤ 1 → (vol L s).Plain x
  directory : modeFormat (leAt 2 ((vol L s).inode x) 0) = sIfDir →
    Live L M s x ∧ ∃ D, Directory L (vol L s) x D

/-- What `unlink` of the first entry of a name does. -/
def Unlinked (L : Layout) (M : Set Nat) (s : Ext2FS) (ino : Nat) (D : List (List Record))
    (name : String) (target : Nat) (s' : Ext2FS) : Prop :=
  (modeFormat (leAt 2 ((vol L s).inode target) 0) = sIfDir ∧
    (∀ Dt, Directory L (vol L s) target Dt →
      ∀ e ∈ dirEntries Dt, Utf8.decode e.1 = "." ∨ Utf8.decode e.1 = "..") ∧
    UnlinkedDir L M s ino D name target s') ∨
  (modeFormat (leAt 2 ((vol L s).inode target) 0) ≠ sIfDir ∧
    UnlinkedFile L M s ino D name target s')

section

variable {L : Layout} {M : Set Nat} {s s' : Ext2FS} {ino target : Nat} {D : List (List Record)}

theorem setILinks_pred {raw : Bytes} (hraw : 128 ≤ raw.length) :
    setILinks raw (max 0 ((leAt 2 raw 26 : Int) - 1)) = .ok (setLinks raw (leAt 2 raw 26 - 1)) := by
  have hlt : leAt 2 raw 26 < 256 ^ 2 := leAt_lt raw 26
  have hnat : (max 0 ((leAt 2 raw 26 : Int) - 1)).toNat = leAt 2 raw 26 - 1 := by omega
  rw [setILinks_eq hraw (by omega) (by omega), hnat]

variable {name : String} {s₁ : Ext2FS}

theorem Removed.of_after {t : Nat × Nat} {D' : List (List Record)} (ha : Same L s s₁)
    (h : Removed L M s₁ ino D name t D' s') : Removed L M s ino D name t D' s' := by
  have ht := h.touched
  have hrw := h.rewritten
  rw [ha.vol_eq] at ht hrw
  exact ⟨h.live, ht, ha.steady_self.trans h.steady, hrw, h.directory, h.perm⟩

theorem UnlinkedDir.of_after (ha : Same L s s₁)
    (h : UnlinkedDir L M s₁ ino D name target s') : UnlinkedDir L M s ino D name target s' := by
  obtain ⟨t, D', s2, s3, hrem, hr, hdrop⟩ := h
  rw [ha.vol_eq] at hr
  exact ⟨t, D', s2, s3, hrem.of_after ha, hr, hdrop⟩

theorem UnlinkedFile.of_after (ha : Same L s s₁)
    (h : UnlinkedFile L M s₁ ino D name target s') : UnlinkedFile L M s ino D name target s' := by
  obtain ⟨t, D', s2, hrem, hdrop⟩ := h
  rw [ha.vol_eq] at hdrop
  exact ⟨t, D', s2, hrem.of_after ha, hdrop⟩

/-- The blocks of a directory have one listing. -/
theorem Directory.listed_eq {D' : List (List Record)} (hd' : Directory L (vol L s) ino D')
    [L.Ok] (h : Live L M s ino) (hd : Directory L (vol L s) ino D) :
    (dirEntries D').map RawEntry.listed = (dirEntries D).map RawEntry.listed := by
  obtain ⟨es, s1, hrun, rfl, -⟩ := returns_run (readDirEntries_wp h hd)
  exact (wp_of_run (readDirEntries_wp h hd') hrun).1.symm

section Live

variable [L.Ok] (h : Live L M s ino) (hd : Directory L (vol L s) ino D)

include h hd

/-- **`dirIsEmpty`** -/
theorem dirIsEmpty_wp :
    (dirIsEmpty ino).returns
      (fun b s' => (b = true ↔ ∀ e ∈ dirEntries D, Utf8.decode e.1 = "." ∨ Utf8.decode e.1 = "..") ∧
        Same L s s') s := by
  refine wp_bind_ok (readDirEntries_wp h hd) ?_
  rintro - s₁ ⟨rfl, ha⟩
  refine ⟨all_eq_true.trans ⟨fun hall e he => ?_, fun hall x hx => ?_⟩, ha⟩
  · exact of_decide_eq_true (hall _ (mem_map_of_mem he))
  · obtain ⟨e, he, rfl⟩ := mem_map.mp hx
    exact decide_eq_true (hall e he)

theorem removed_wp (name : String) :
    (removeDirEntry ino name).wlp (fun t s' => ∃ D', Removed L M s ino D name t D' s') s := by
  refine wp_imp (removeDirEntry_wp h hd name) ?_
  rintro t s' ⟨hlive, ht, hs, hrw, D', hd', hperm⟩
  exact ⟨D', hlive, ht, hs, hrw, hd', hperm⟩

/-- **`unlink` of a directory.** -/
theorem unlinkDir_wp (name : String) (ht : Live L M s target) {Dt : List (List Record)}
    (hdt : Directory L (vol L s) target Dt) :
    (unlinkDir ino name target ((vol L s).inode target)).wlp
      (fun _ s' => (∀ e ∈ dirEntries Dt, Utf8.decode e.1 = "." ∨ Utf8.decode e.1 = "..") ∧
        UnlinkedDir L M s ino D name target s') s := by
  simp only [unlinkDir]
  refine wp_bind_ok (dirIsEmpty_wp ht hdt) ?_
  rintro empty s₁ ⟨hempty, ha1⟩
  rw [wp_ite]
  refine ⟨fun _ => trivial, fun htrue => ?_⟩
  have hall := hempty.mp (by simpa using htrue)
  refine wp_bind_ok (removed_wp (h.of_after ha1) (by rw [ha1.vol_eq]; exact hd) name) ?_
  rintro t s2 ⟨D', hrem⟩
  replace hrem := hrem.of_after ha1
  have hinode := hrem.rewritten.inode
  refine wp_bind_ok (readInode_wp hrem.live.mounted h.hasInode) ?_
  rintro raw s3 ⟨rfl, ha3⟩
  have hraw := hrem.live.mounted.length_inode_ge h.hasInode
  have hlink := writeLinks_wp ha3.mounted (by rw [ha3.vol_eq]; exact hrem.live.own) h.hasInode
    (leAt 2 ((vol L s).inode ino) 26 - 1)
  rw [ha3.vol_eq] at hlink
  simp only [wp_bind, wp_lift, iLinks_eq hraw, setILinks_pred hraw]
  rw [hinode] at hlink ⊢
  refine wp_imp hlink ?_
  rintro - s4 hr4
  replace hrem : Removed L M s ino D name t D' s3 := by
    have hvol := ha3.vol_eq
    exact ⟨hrem.live.of_after ha3, hvol ▸ hrem.touched, hrem.steady.trans ha3.steady_self,
      hvol ▸ hrem.rewritten, hvol ▸ hrem.directory, hrem.perm⟩
  have hplain : (vol L s4).Plain target := hr4.sameBlocks.plain
    (hrem.rewritten.sameBlocks.plain (.inl ⟨ht.inodeUsed, ht.kind⟩))
  refine wp_imp (releaseInode_wp hr4.mounted hr4.edited.own ht.hasInode hplain
    (ht.mounted.length_inode_ge ht.hasInode) (fun n _ => ?_) true) ?_
  · rw [hr4.sameBlocks.pointer, hrem.rewritten.inode]
  · intro _ s5 ha5
    exact ⟨hall, t, D', s3, s4, hrem, hr4, ha5⟩

/-- **`unlink` of anything else.** -/
theorem unlinkFile_wp (name : String) (ht : L.HasInode target)
    (hplain : leAt 2 ((vol L s).inode target) 26 ≤ 1 → (vol L s).Plain target) :
    (unlinkFile ino name target ((vol L s).inode target)).wlp
      (fun _ s' => UnlinkedFile L M s ino D name target s') s := by
  refine wp_bind_ok (removed_wp h hd name) ?_
  rintro t s₁ ⟨D', hrem⟩
  have hinode := hrem.rewritten.inode
  have hraw := h.mounted.length_inode_ge ht
  simp only [wp_bind, wp_lift, iLinks_eq hraw, setILinks_pred hraw]
  rw [wp_ite]
  refine ⟨fun hle => ?_, fun hgt => ?_⟩
  · refine wp_imp (releaseInode_wp hrem.live.mounted hrem.live.own ht
      (hrem.rewritten.sameBlocks.plain (hplain hle)) (by rw [length_setLinks hraw]; exact hraw)
        (fun n _ => ?_) false)
      ?_
    · rw [pointer_setLinks hraw, hinode]
    · intro _ s2 ha2
      exact ⟨t, D', s₁, hrem, by rw [if_pos hle]; exact ha2⟩
  · have hlink := writeLinks_wp hrem.live.mounted hrem.live.own ht
      (leAt 2 ((vol L s).inode target) 26 - 1)
    rw [hinode] at hlink
    refine wp_imp hlink ?_
    intro _ s2 hr2
    exact ⟨t, D', s₁, hrem, by rw [if_neg hgt]; exact hr2⟩

/-- `unlink` up to where it has found the inode of the first entry of the name. -/
theorem nodeUnlink_found (name : String)
    (htarget : ∀ e, firstEntry D name = some e → L.HasInode e.2.1)
    {Q : Unit → Ext2FS → Prop}
    (hfound : ∀ e s₁, firstEntry D name = some e → Same L s s₁ →
      (if IsDir ((vol L s).inode e.2.1) then
        unlinkDir ino name e.2.1 ((vol L s).inode e.2.1)
      else unlinkFile ino name e.2.1 ((vol L s).inode e.2.1)).wlp Q s₁) :
    (nodeUnlink ino name).wlp Q s := by
  refine wp_bind_ok (requireFormat_wp h.mounted h.hasInode sIfDir .notADirectory) ?_
  rintro - s₁ ⟨-, -, ha1⟩
  refine wp_bind_ok (readDirEntries_wp (h.of_after ha1) (by rw [ha1.vol_eq]; exact hd)) ?_
  rintro - s2 ⟨rfl, ha2⟩
  have ha := ha1.still ha2
  rw [findName_listed]
  cases hfind : firstEntry D name with
  | none => trivial
  | some e =>
    have hread := readInode_wp ha.mounted (htarget e hfind)
    rw [ha.vol_eq] at hread
    refine wp_bind_ok hread ?_
    rintro raw s3 ⟨rfl, ha3⟩
    have hraw := h.mounted.length_inode_ge (htarget e hfind)
    simp only [wp_bind, wp_lift, iMode_eq hraw]
    exact hfound e s3 hfind (ha.still ha3)

/-- **`unlink`** -/
theorem nodeUnlink_wp (name : String) (htarget : ∀ e, firstEntry D name = some e →
      Linkable L M s e.2.1) :
    (nodeUnlink ino name).wlp (fun _ s' => ∃ e, firstEntry D name = some e ∧
        Unlinked L M s ino D name e.2.1 s') s := by
  refine nodeUnlink_found h hd name (fun e he => (htarget e he).hasInode) ?_
  intro e s₁ hfind ha
  have hlink := htarget e hfind
  have h1 := h.of_after ha
  have hd1 : Directory L (vol L s₁) ino D := by rw [ha.vol_eq]; exact hd
  refine wp_ite.mpr ⟨fun hdir => ?_, fun hdir => ?_⟩
  · obtain ⟨ht, Dt, hdt⟩ := hlink.directory hdir
    have hdt1 : Directory L (vol L s₁) e.2.1 Dt := by rw [ha.vol_eq]; exact hdt
    have hspec := unlinkDir_wp h1 hd1 name (ht.of_after ha) hdt1
    rw [ha.vol_eq] at hspec
    refine wp_imp hspec ?_
    rintro - s' ⟨hall, hun⟩
    refine ⟨e, hfind, .inl ⟨hdir, fun Dt' hdt' => ?_, hun.of_after ha⟩⟩
    intro x hx
    have hlisted := mem_map_of_mem (f := RawEntry.listed) hx
    rw [hdt'.listed_eq ht hdt] at hlisted
    obtain ⟨y, hy, heq⟩ := mem_map.mp hlisted
    rw [← show Utf8.decode y.1 = Utf8.decode x.1 from congrArg Prod.fst heq]
    exact hall y hy
  · have hspec := unlinkFile_wp h1 hd1 name hlink.hasInode
      (by rw [ha.vol_eq]; exact hlink.plain)
    rw [ha.vol_eq] at hspec
    refine wp_imp hspec ?_
    intro _ s' hun
    exact ⟨e, hfind, .inr ⟨hdir, hun.of_after ha⟩⟩

end Live

/-- Nothing is unlinked from what is no directory. -/
theorem nodeUnlink_not_dir [L.Ok] (h : Mounted L s) (hino : L.HasInode ino)
    (hmode : ¬ IsDir ((vol L s).inode ino)) :
    (nodeUnlink ino name).wp (fun _ _ => False) (fun _ s' => Same L s s') s := by
  refine wp_bind_of (requireFormat_wp h hino sIfDir .notADirectory)
    (fun _ _ hf => hf.2) ?_
  rintro - s₁ ⟨-, hdir, -⟩
  exact absurd hdir hmode

end

end PythonOS.Ext2
