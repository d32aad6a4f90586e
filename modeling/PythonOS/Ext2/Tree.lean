import PythonOS.Ext2.Sessions
import PythonOS.Lib.DirGraph

/-!
# PythonOS.Ext2.Tree

The directory tree of a volume. A volume shows a directory graph (`Shows`), and `create` and
`unlink` are the operations of directory graphs, so that what these keep holds of the
volume after any calls: `tree_after_session`.

Two names break it. `unlink` of `.` and `..` takes them for entries of other directories.
-/

namespace PythonOS.Ext2

open Lib Function List Option Coro Lib.Bytes

/-! ### Entries as a map -/

/-- A listing of a map from names to inodes. -/
def IsMap (es : List RawEntry) (f : Bytes → Option Nat) : Prop :=
  (es.map fun e => e.1).Nodup ∧ ∀ n y, f n = some y ↔ ∃ t, (n, y, t) ∈ es

namespace IsMap

variable {es es' : List RawEntry} {f : Bytes → Option Nat}

theorem perm (h : IsMap es f) (hp : es'.Perm es) : IsMap es' f :=
  ⟨(hp.map _).nodup_iff.mpr h.1, fun n y => (h.2 n y).trans (exists_congr fun _ => hp.symm.mem_iff)⟩

theorem congr (h : IsMap es f) {g : Bytes → Option Nat} (hg : ∀ n, g n = f n) : IsMap es g := by
  obtain rfl : g = f := funext hg
  exact h

theorem eq_none_iff (h : IsMap es f) (n : Bytes) : f n = none ↔ ∀ e ∈ es, e.1 ≠ n := by
  rw [eq_none_iff_forall_ne_some]
  constructor
  · rintro hn ⟨m, y, t⟩ hm rfl
    exact hn y ((h.2 m y).mpr ⟨t, hm⟩)
  · intro hn y hy
    obtain ⟨t, hm⟩ := (h.2 n y).mp hy
    exact hn _ hm rfl

theorem cons (h : IsMap es f) {n : Bytes} (hn : f n = none) (y t : Nat) :
    IsMap ((n, y, t) :: es) fun m => if m = n then some y else f m := by
  have hnot := (h.eq_none_iff n).mp hn
  refine ⟨nodup_cons.mpr ⟨fun hc => ?_, h.1⟩, fun m w => ?_⟩
  · obtain ⟨e, he, heq⟩ := mem_map.mp hc
    exact hnot e he heq
  · by_cases hm : m = n
    · subst hm
      simp only [if_pos, Option.some.injEq, mem_cons, Prod.mk.injEq, true_and]
      constructor
      · rintro rfl
        exact ⟨t, .inl ⟨rfl, rfl⟩⟩
      · rintro ⟨t', ⟨rfl, -⟩ | hmem⟩
        · rfl
        · exact absurd rfl (hnot _ hmem)
    · simp only [hm, if_false, h.2, mem_cons, Prod.mk.injEq, false_and, false_or]

theorem tail {n : Bytes} {t : Nat × Nat} (h : IsMap ((n, t) :: es) f) :
    IsMap es fun m => if m = n then none else f m := by
  obtain ⟨hnot, hnodup⟩ := nodup_cons.mp h.1
  refine ⟨hnodup, fun m w => ?_⟩
  by_cases hm : m = n
  · subst hm
    simp only [if_pos, reduceCtorEq, false_iff, not_exists]
    intro t' hmem
    exact hnot (mem_map.mpr ⟨_, hmem, rfl⟩)
  · simp only [hm, if_false, h.2, mem_cons, Prod.mk.injEq, false_and, false_or]

theorem nil : IsMap [] fun _ => none := ⟨nodup_nil, by simp⟩

end IsMap

/-! ### The graph of a volume -/

instance : DirGraph.Dots Bytes := ⟨Utf8.encode ".", Utf8.encode "..", by decide⟩

open DirGraph.Dots (dot dotdot)

/-- **The volume shows a graph**: its inodes, their link counts, and the entries of its
directories. -/
structure Shows (L : Layout) (V : Volume) (G : DirGraph Nat Bytes) : Prop where
  alloc : ∀ x, x ∈ G.alloc ↔ V.inodeUsed x = true
  dirs : ∀ x, x ∈ G.dirs ↔ V.inodeUsed x = true ∧ modeFormat (leAt 2 (V.inode x) 0) = sIfDir
  links : ∀ x ∈ G.alloc, G.links x = leAt 2 (V.inode x) 26
  ents : ∀ x ∈ G.dirs, ∃ D, Directory L V x D ∧ IsMap (dirEntries D) (G.ents x)

/-- **A volume with a tree**: every entry leads to an inode in use, the directories are all
reached from the root, the link counts are right, and so are the counts of directories. -/
def DirTree (L : Layout) (V : Volume) : Prop :=
  ∃ G, Shows L V G ∧ G.Ok rootIno ∧
    Tally L.inodeGroup (· ∈ G.dirs) fun g => (V.counters.group g).usedDirs

section

variable {L : Layout} {M : Set Nat} {s s' : Ext2FS} {G : DirGraph Nat Bytes} {x ino : Nat}
  {name : String} {type : InodeType} {D : List (List Record)}

/-- A name that is not listed is not in the map. -/
theorem IsMap.eq_none_of_unlisted {f : Bytes → Option Nat} (h : IsMap (dirEntries D) f)
    (hn : ¬ Listed D name) : f (Utf8.encode name) = none :=
  (h.eq_none_iff _).mpr fun e he hc => hn ⟨e, he, by rw [hc, Utf8.decode_encode]⟩

/-! ### `create` -/

section Created

variable {new : Nat} (hc : Created L M s ino D name type new s') (hshow : Shows L (vol L s) G)
  (hi : Live L M s ino)

include hc

theorem Created.isDir_iff : IsDir ((vol L s').inode new) ↔ type = .dir := by
  rw [IsDir, hc.mode, format_createMode]
  cases type <;> simp <;> decide

include hshow hi

theorem Created.used_iff (z : Nat) : (vol L s').inodeUsed z = true ↔ z = new ∨ z ∈ G.alloc := by
  rw [hshow.alloc]
  by_cases hz : z = new
  · simp [hz, hc.used]
  · by_cases hzi : z = ino
    · simp [hzi, hc.parentLive.inodeUsed, hi.inodeUsed]
    · rw [hc.edited.inodeUsed z (by simp [hz, hzi])]
      simp [hz]

/-- The directories that there were. -/
theorem Created.dirs_iff (hd : Directory L (vol L s) ino D) {z : Nat} (hz : z ≠ new) :
    (vol L s').inodeUsed z = true ∧ IsDir ((vol L s').inode z) ↔
      z ∈ G.dirs := by
  rw [hshow.dirs]
  by_cases hzi : z = ino
  · obtain ⟨D', hD', -⟩ := hc.entry
    subst hzi
    exact iff_of_true ⟨hc.parentLive.inodeUsed, hD'.mode⟩ ⟨hi.inodeUsed, hd.mode⟩
  · have hnot : z ∉ ({ino, new} : Set Nat) := by simp [hz, hzi]
    rw [hc.edited.inodeUsed z hnot, hc.edited.inode z hnot]

/-- The entries of the directories that there were. -/
theorem Created.ents (hd : Directory L (vol L s) ino D) (hmap : IsMap (dirEntries D) (G.ents ino))
    (hfits : (D.length + 1) * L.blockSize < 2 ^ 32) {z : Nat} (hz : z ∈ G.dirs) :
    ∃ D', Directory L (vol L s') z D' ∧ IsMap (dirEntries D') fun m =>
      if z = ino ∧ m = Utf8.encode name then some new else G.ents z m := by
  by_cases hzi : z = ino
  · subst hzi
    obtain ⟨D', hD', hperm | ⟨-, hwrap, -⟩⟩ := hc.entry
    · refine ⟨D', hD', ?_⟩
      have hcons := hmap.cons (hmap.eq_none_of_unlisted hc.unlisted) new (inodeTypeToFiletype type)
      simpa only [true_and] using hcons.perm hperm
    · omega
  · obtain ⟨Dz, hDz, hmapz⟩ := hshow.ents z hz
    have hne : z ≠ new := by
      rintro rfl
      have := ((hshow.dirs z).mp hz).1
      exact absurd (this.symm.trans hc.fresh.2) (by decide)
    refine ⟨Dz, hc.edited.directory (by simp [hzi, hne]) hDz, ?_⟩
    simpa only [hzi, false_and, if_false] using hmapz

theorem Created.links_eq {z : Nat} (hz : z ∈ G.alloc) :
    leAt 2 ((vol L s').inode z) 26 =
      if z = ino then G.links ino + if type = .dir then 1 else 0 else G.links z := by
  by_cases hzi : z = ino
  · subst hzi
    rw [if_pos rfl, hc.parentLinks, hshow.links z hz]
  · have hne : z ≠ new := by
      rintro rfl
      exact absurd (((hshow.alloc z).mp hz).symm.trans hc.fresh.2) (by decide)
    rw [if_neg hzi, hc.edited.inode z (by simp [hzi, hne]), hshow.links z hz]

end Created

/-! ### `unlink` -/

section Removed

variable {t : Nat × Nat} {D' : List (List Record)} {s₁ : Ext2FS}

/-- The entry that was removed. -/
theorem Removed.isMap (hrem : Removed L M s ino D name t D' s₁)
    (hmap : IsMap (dirEntries D) (G.ents ino)) :
    G.ents ino (Utf8.encode name) = some t.1 ∧
      IsMap (dirEntries D') fun m => if m = Utf8.encode name then none else G.ents ino m := by
  have hmap' := hmap.perm hrem.perm.symm
  exact ⟨(hmap'.2 _ _).mpr ⟨_, mem_cons_self ..⟩, hmap'.tail⟩

end Removed

/-- What `unlink` leaves of the directories, where `V'` differs from `V` in the directory `ino`
and in the inode `x`. -/
theorem ents_of_edited {V V' : Volume} {S : Set Nat} (he : Edited L M S V V')
    (hS : ∀ z, z ∈ S → z = ino ∨ z = x) (hshow : Shows L V G) {D' : List (List Record)}
    (hd' : Directory L V' ino D')
    (hmap' : IsMap (dirEntries D') fun m => if m = Utf8.encode name then none else G.ents ino m)
    {z : Nat} (hz : z ∈ G.dirs) (hzx : z ≠ x ∨ z = ino) :
    ∃ D'', Directory L V' z D'' ∧ IsMap (dirEntries D'') fun m =>
      if z = ino ∧ m = Utf8.encode name then none else G.ents z m := by
  by_cases hzi : z = ino
  · subst hzi
    exact ⟨D', hd', by simpa only [true_and] using hmap'⟩
  · obtain ⟨Dz, hDz, hmapz⟩ := hshow.ents z hz
    have hnot : z ∉ S := fun hc => (hS z hc).elim hzi (hzx.resolve_right hzi)
    exact ⟨Dz, he.directory hnot hDz, by simpa only [hzi, false_and, if_false] using hmapz⟩

/-! ### The graph after a call -/

section Graph

variable (hshow : Shows L (vol L s) G) (hok : G.Ok rootIno)
  (hdirs : Tally L.inodeGroup (· ∈ G.dirs) fun g => ((vol L s).counters.group g).usedDirs)
  (hmap : IsMap (dirEntries D) (G.ents ino))

include hshow hok hdirs hmap

/-- **`create` adds a node** to the graph. -/
theorem Created.dirTree (hc : Created L M s ino D name type x s') (hi : Live L M s ino)
    (hd : Directory L (vol L s) ino D)
    (hfits : (D.length + 1) * L.blockSize < 2 ^ 32) : DirTree L (vol L s') := by
  have hino : ino ∈ G.dirs := (hshow.dirs ino).mpr ⟨hi.inodeUsed, hd.mode⟩
  have hnone := hmap.eq_none_of_unlisted hc.unlisted
  have hfresh : x ∉ G.alloc := fun hx => by
    rw [hshow.alloc, hc.fresh.2] at hx
    exact absurd hx (by decide)
  have hxdir : x ∉ G.dirs := fun hx => hfresh (hok.dirs_alloc hx)
  have hcount := hc.recounted.dirs
  by_cases hdir : type = .dir
  · refine ⟨G.addDir ino (Utf8.encode name) x, ⟨fun z => ?_, fun z => ?_,
      fun z hz => ?_, fun z hz => ?_⟩, hok.addDir hino hnone hfresh, ?_⟩
    · exact (hc.used_iff hshow hi z).symm
    · by_cases hz : z = x
      · subst hz
        exact iff_of_true (.inl rfl) ⟨hc.used, hc.isDir_iff.mpr hdir⟩
      · rw [hc.dirs_iff hshow hi hd hz]
        exact ⟨fun h => h.resolve_left hz, .inr⟩
    · show (if z = x then 2 else if z = ino then G.links ino + 1 else G.links z) = _
      by_cases hzx : z = x
      · rw [if_pos hzx, hzx, hc.links, if_pos hdir]
      · rw [if_neg hzx, hc.links_eq hshow hi (hz.resolve_left hzx), if_pos hdir]
    · by_cases hzx : z = x
      · subst hzx
        obtain ⟨D0, hD0, hperm⟩ := hc.directory hdir
        have hdots := (IsMap.nil.cons rfl z 2).cons (n := dotdot)
          (if_neg DirGraph.Dots.ne.symm) ino 2
        refine ⟨D0, hD0, (hdots.perm hperm).congr fun m => ?_⟩
        simp only [DirGraph.addDir, if_true]
        by_cases hm : m = dot
        · rw [if_pos hm, if_neg (hm ▸ DirGraph.Dots.ne), if_pos hm]
        · rw [if_neg hm, if_neg hm]
      · obtain ⟨D', hD', hmap'⟩ := hc.ents hshow hi hd hmap hfits (hz.resolve_left hzx)
        refine ⟨D', hD', ?_⟩
        simpa only [DirGraph.addDir, if_neg hzx] using hmap'
    · refine hdirs.put hxdir (fun z => or_comm) (funext fun g => ?_)
      rw [update_apply]
      refine (hcount g).trans ?_
      by_cases hg : g = L.inodeGroup x
      · subst hg
        rw [if_pos ⟨hdir, rfl⟩, if_pos rfl]
        rfl
      · rw [if_neg fun h => hg h.2.symm, if_neg hg, Int.add_zero]
        rfl
  · refine ⟨G.addFile ino (Utf8.encode name) x, ⟨fun z => ?_, fun z => ?_, fun z hz => ?_,
      fun z hz => ?_⟩, hok.addFile hino hnone hfresh, ?_⟩
    · exact (hc.used_iff hshow hi z).symm
    · by_cases hz : z = x
      · subst hz
        exact iff_of_false hxdir fun h => hdir (hc.isDir_iff.mp h.2)
      · exact (hc.dirs_iff hshow hi hd hz).symm
    · show (if z = x then 1 else G.links z) = _
      by_cases hzx : z = x
      · rw [if_pos hzx, hzx, hc.links, if_neg hdir]
      · rw [if_neg hzx, hc.links_eq hshow hi (hz.resolve_left hzx), if_neg hdir, Nat.add_zero]
        split
        · next hzi => rw [hzi]
        · rfl
    · exact hc.ents hshow hi hd hmap hfits hz
    · refine hdirs.congr (fun _ => .rfl) fun g => (hcount g).trans ?_
      rw [if_neg fun h => hdir h.1, Int.add_zero]
      rfl

/-- **`unlink` of a directory** removes it from the graph. -/
theorem UnlinkedDir.dirTree [L.Ok] (hu : UnlinkedDir L M s ino D name x s') (hi : Live L M s ino)
    (hplain : (vol L s).Plain x)
    (hname : DirGraph.Named (Utf8.encode name))
    (hentry : G.ents ino (Utf8.encode name) = some x) (hx : x ∈ G.dirs)
    (hempty : ∀ m, DirGraph.Named m → G.ents x m = none) :
    DirTree L (vol L s') := by
  obtain ⟨t, D', s₁, s2, hrem, hr, ha⟩ := hu
  have hm1 := hrem.live.mounted
  have hino := hi.hasInode
  have hne : ino ≠ x := by
    rintro rfl
    rw [hempty _ hname] at hentry
    cases hentry
  have hinode := hrem.rewritten.inode
  have hdrop : Edited L M {x} (vol L s2) (vol L s') := by
    rw [ha.vol_eq]
    exact hr.edited.own.edited_dropInode true
      (hr.sameBlocks.plain (hrem.rewritten.sameBlocks.plain hplain))
  have hedit : Edited L M {ino, x} (vol L s) (vol L s') :=
    (hrem.touched.edited.mono (by simp)).trans ((hr.edited.mono (by simp)).trans
      (hdrop.mono (by simp)))
  have hused : ∀ z, (vol L s').inodeUsed z = true ↔ z ∈ G.alloc ∧ z ≠ x := by
    intro z
    rw [ha.vol_eq, inodeUsed_dropInode, hr.inodeUsed, hrem.rewritten.inodeUsed, hshow.alloc]
    by_cases hz : z = x <;> simp [hz]
  have hmode : ∀ z, z ≠ x → leAt 2 ((vol L s').inode z) 0 = leAt 2 ((vol L s).inode z) 0 := by
    intro z hz
    rw [hdrop.inode z hz, hr.leAt_eq hm1 hino z (.inl (by omega)), hinode]
  have hlinks : leAt 2 ((vol L s').inode ino) 26 = leAt 2 ((vol L s).inode ino) 26 - 1 := by
    have hlt : leAt 2 ((vol L s).inode ino) 26 < 256 ^ 2 := leAt_lt _ _
    rw [hdrop.inode ino hne, hr.inode, links_setLinks (hm1.length_inode_ge hino) _ (by omega)]
  have hd' : Directory L (vol L s') ino D' :=
    hdrop.directory hne (hr.directory hm1 hino hrem.directory)
  refine ⟨G.removeDir ino (Utf8.encode name) x,
    ⟨fun z => (hused z).symm, fun z => ?_, fun z hz => ?_,
    fun z hz => ?_⟩, hok.removeDir hentry hname hx hempty, ?_⟩
  · rw [hused]
    constructor
    · rintro ⟨hz, hzx⟩
      rw [hmode z hzx]
      exact ⟨⟨hok.dirs_alloc hz, hzx⟩, ((hshow.dirs z).mp hz).2⟩
    · rintro ⟨⟨hz, hzx⟩, hdir⟩
      rw [hmode z hzx] at hdir
      exact ⟨(hshow.dirs z).mpr ⟨(hshow.alloc z).mp hz, hdir⟩, hzx⟩
  · obtain ⟨hz, hzx⟩ := hz
    show (if z = ino then G.links ino - 1 else G.links z) = _
    by_cases hzi : z = ino
    · rw [if_pos hzi, hzi, hlinks, hshow.links ino (hzi ▸ hz)]
    · rw [if_neg hzi, hedit.inode z (by simp [hzi, hzx]), hshow.links z hz]
  · obtain ⟨hz, hzx⟩ := hz
    have hzx : z ≠ x := hzx
    obtain ⟨D'', hD'', hmap''⟩ := ents_of_edited hedit (fun z hz => hz) hshow hd'
      (hrem.isMap hmap).2 hz (.inl hzx)
    refine ⟨D'', hD'', hmap''.congr fun m => ?_⟩
    simp only [DirGraph.removeDir, hzx, false_or]
  · refine hdirs.drop hx (fun z => .rfl) (funext fun g => ?_)
    rw [update_apply, ha.vol_eq, usedDirs_dropInode]
    have hsame : ((vol L s2).counters.group g).usedDirs = ((vol L s).counters.group g).usedDirs :=
      (hr.steady.dirs g).trans (hrem.steady.dirs g)
    rw [hsame]
    by_cases hg : g = L.inodeGroup x
    · subst hg
      rw [if_pos ⟨rfl, rfl⟩, if_pos rfl, Int.sub_eq_add_neg]
    · rw [if_neg fun h => hg h.2.symm, if_neg hg, Int.add_zero]

/-- **`unlink` of a file** removes the entry from the graph, and the file with the last
one. -/
theorem UnlinkedFile.dirTree [L.Ok] (hu : UnlinkedFile L M s ino D name x s')
    (hplain : (vol L s).Plain x)
    (hentry : G.ents ino (Utf8.encode name) = some x) (hx : x ∉ G.dirs) : DirTree L (vol L s') := by
  obtain ⟨t, D', s₁, hrem, hlast⟩ := hu
  have hm1 := hrem.live.mounted
  have hxused : (vol L s).inodeUsed x = true := (hshow.alloc x).mp (hok.ents_alloc hentry)
  have hlinksx : G.links x = leAt 2 ((vol L s).inode x) 26 := hshow.links x (hok.ents_alloc hentry)
  have hino : ino ∈ G.dirs := hok.ents_dir hentry
  have hne : ino ≠ x := fun hc => hx (hc ▸ hino)
  have hinode := hrem.rewritten.inode
  -- what becomes of the file, with its last link or not
  have hleft : Edited L M {x} (vol L s₁) (vol L s') ∧
      (∀ z, (vol L s').inodeUsed z = true ↔ z ∈ (G.removeFile ino (Utf8.encode name) x).alloc) ∧
      ((vol L s').inodeUsed x = true →
        modeFormat (leAt 2 ((vol L s').inode x) 0) = modeFormat (leAt 2 ((vol L s).inode x) 0) ∧
        leAt 2 ((vol L s').inode x) 26 = leAt 2 ((vol L s).inode x) 26 - 1) ∧
      ∀ g, ((vol L s').counters.group g).usedDirs = ((vol L s₁).counters.group g).usedDirs := by
    rw [← hlinksx] at hlast
    simp only [DirGraph.removeFile]
    split at hlast
    · next hle =>
      rw [hlast.vol_eq]
      refine ⟨hrem.live.own.edited_dropInode false (hrem.rewritten.sameBlocks.plain hplain),
        fun z => ?_, fun hc => ?_, fun g => ?_⟩
      · rw [inodeUsed_dropInode, hrem.rewritten.inodeUsed, if_pos hle, Set.mem_sdiff, hshow.alloc]
        by_cases hz : z = x <;> simp [hz]
      · rw [inodeUsed_dropInode, if_pos rfl] at hc
        exact absurd hc (by decide)
      · rw [usedDirs_dropInode, if_neg (by simp), Int.add_zero]
    · next hgt =>
      have hin := hasInode_of_used hxused
      refine ⟨hlast.edited, fun z => ?_, fun _ => ⟨?_, ?_⟩, hlast.steady.dirs⟩
      · rw [hlast.inodeUsed, hrem.rewritten.inodeUsed, if_neg hgt, hshow.alloc]
      · rw [hlast.leAt_eq hm1 hin x (.inl (by omega)), hinode]
      · have hlt : leAt 2 ((vol L s).inode x) 26 < 256 ^ 2 := leAt_lt _ _
        rw [hlast.inode, links_setLinks (hm1.length_inode_ge hin) _ (by omega), hlinksx]
  obtain ⟨hedit2, hused, hfile, hcount⟩ := hleft
  have hedit : Edited L M {ino, x} (vol L s) (vol L s') :=
    (hrem.touched.edited.mono (by simp)).trans (hedit2.mono (by simp))
  have hinode' : ∀ z, z ≠ x → (vol L s').inode z = (vol L s).inode z := fun z hz => by
    rw [hedit2.inode z hz, hinode]
  have hd' : Directory L (vol L s') ino D' := hedit2.directory hne hrem.directory
  refine ⟨G.removeFile ino (Utf8.encode name) x, ⟨fun z => (hused z).symm, fun z => ?_,
    fun z hz => ?_, fun z hz => ?_⟩, hok.removeFile hentry hx, ?_⟩
  · show z ∈ G.dirs ↔ _
    by_cases hzx : z = x
    · subst hzx
      refine iff_of_false hx fun hc => hx ((hshow.dirs z).mpr ⟨hxused, ?_⟩)
      rw [← (hfile hc.1).1]
      exact hc.2
    · rw [hinode' z hzx, hedit2.inodeUsed z hzx, hrem.rewritten.inodeUsed, hshow.dirs]
  · show (if z = x then G.links x - 1 else G.links z) = _
    by_cases hzx : z = x
    · subst hzx
      rw [if_pos rfl, (hfile ((hused z).mpr hz)).2, hlinksx]
    · have hold : z ∈ G.alloc := by
        rw [hshow.alloc, ← hrem.rewritten.inodeUsed, ← hedit2.inodeUsed z hzx]
        exact (hused z).mpr hz
      rw [if_neg hzx, hinode' z hzx, hshow.links z hold]
  · exact ents_of_edited hedit (fun z hz => hz) hshow hd' (hrem.isMap hmap).2 hz
      (.inl fun hc => hx (hc ▸ hz))
  · exact hdirs.congr (fun _ => .rfl) fun g => (hcount g).trans (hrem.steady.dirs g)

end Graph

/-! ### One call -/

theorem create_dirTree [L.Ok] (h : Orderly L M s) (hx : IsNode L (vol L s) ino)
    (ht : DirTree L (vol L s))
    (hfits : ∀ D, Directory L (vol L s) ino D → (D.length + 1) * L.blockSize < 2 ^ 32) :
    (nodeCreate ino name type).wlp (fun _ s' => DirTree L (vol L s')) s := by
  by_cases hmode : IsDir ((vol L s).inode ino)
  · obtain ⟨hi, -⟩ := h.live_dir hx hmode
    obtain ⟨G, hshow, hok, hdirs⟩ := ht
    obtain ⟨D, hd, hmap⟩ := hshow.ents ino ((hshow.dirs ino).mpr ⟨hi.inodeUsed, hmode⟩)
    refine wp_imp (nodeCreate_wp hi hd name type) ?_
    intro y s' hc
    exact hc.dirTree hshow hok hdirs hmap hi hd (hfits D hd)
  · exact wp_imp (nodeCreate_not_dir h.mounted hx.1 hmode) (fun _ _ hf => hf.elim)

/-- The name that `unlink` is given is on the device as it is listed. -/
def SameName (L : Layout) (s : Ext2FS) (ino : Nat) (name : String) : Prop :=
  ∀ D, Directory L (vol L s) ino D → ∀ e ∈ dirEntries D, Utf8.decode e.1 = name →
    e.1 = Utf8.encode name

theorem named_encode (hdot : name ≠ ".") (hdotdot : name ≠ "..") :
    DirGraph.Named (Utf8.encode name) :=
  ⟨fun hc => hdot (Utf8.encode_injective hc), fun hc => hdotdot (Utf8.encode_injective hc)⟩

theorem not_named_of_decode {n : Bytes} (h : Utf8.decode n = "." ∨ Utf8.decode n = "..") :
    ¬ DirGraph.Named n := by
  rintro ⟨hdot, hdotdot⟩
  rcases h with h | h
  · exact hdot (Utf8.eq_encode_of_ascii (by simp) h)
  · exact hdotdot (Utf8.eq_encode_of_ascii (by simp) h)

theorem unlink_dirTree [L.Ok] (h : Orderly L M s) (hx : IsNode L (vol L s) ino)
    (ht : DirTree L (vol L s)) (hdot : name ≠ ".") (hdotdot : name ≠ "..")
    (hrel : Releasable L s ino name) (hsame : SameName L s ino name) :
    (nodeUnlink ino name).wlp (fun _ s' => DirTree L (vol L s')) s := by
  by_cases hmode : IsDir ((vol L s).inode ino)
  · obtain ⟨hi, -⟩ := h.live_dir hx hmode
    obtain ⟨G, hshow, hok, hdirs⟩ := ht
    obtain ⟨D, hd, hmap⟩ := hshow.ents ino ((hshow.dirs ino).mpr ⟨hi.inodeUsed, hmode⟩)
    -- the entry that is found is that of the name
    have hfound : ∀ e, firstEntry D name = some e →
        G.ents ino (Utf8.encode name) = some e.2.1 ∧ (vol L s).inodeUsed e.2.1 = true ∧
          (vol L s).Plain e.2.1 := by
      intro e hfind
      have he := mem_of_find?_eq_some hfind
      have hname : Utf8.decode e.1 = name := by simpa using find?_some hfind
      have hent : G.ents ino (Utf8.encode name) = some e.2.1 := by
        rw [← hsame D hd e he hname]
        exact (hmap.2 e.1 e.2.1).mpr ⟨e.2.2, he⟩
      have hused := (hshow.alloc _).mp (hok.ents_alloc hent)
      exact ⟨hent, hused, hrel D hd e he hname hused⟩
    refine wp_imp (nodeUnlink_wp hi hd name fun e hfind => ?_) ?_
    · obtain ⟨-, hused, hplain⟩ := hfound e hfind
      refine ⟨hasInode_of_used hused, fun _ => hplain, fun hdir => ?_⟩
      obtain ⟨Dt, hdt, -⟩ := h.directory _ hused hdir
      exact ⟨⟨h.mounted, h.own, hused, .inr (.inl hdir)⟩, Dt, hdt⟩
    · rintro - s' ⟨e, hfind, hu⟩
      obtain ⟨hent, hused, hplain⟩ := hfound e hfind
      rcases hu with ⟨hdir, hall, hu⟩ | ⟨hdir, hu⟩
      · have htarget : e.2.1 ∈ G.dirs := (hshow.dirs _).mpr ⟨hused, hdir⟩
        refine hu.dirTree hshow hok hdirs hmap hi hplain (named_encode hdot hdotdot) hent htarget ?_
        intro m hm
        obtain ⟨Dt, hdt, hmapt⟩ := hshow.ents _ htarget
        refine (hmapt.eq_none_iff m).mpr fun e' he' hc => ?_
        exact not_named_of_decode (hall Dt hdt e' he') (hc ▸ hm)
      · exact hu.dirTree hshow hok hdirs hmap hplain hent
          fun hc => hdir ((hshow.dirs _).mp hc).2
  · exact wp_imp (nodeUnlink_not_dir h.mounted hx.1 hmode) (fun _ _ hf => hf.elim)

end

/-! ### Runs -/

/-- The calls that change the tree, and `lookup`, which gives the nodes. -/
inductive TreeOp
  | lookup (node : Nat) (name : String)
  | create (node : Nat) (name : String) (type : InodeType)
  | unlink (node : Nat) (name : String)

def TreeOp.nodeOp : TreeOp → NodeOp
  | .lookup node name => .lookup node name
  | .create node name type => .create node name type
  | .unlink node name => .unlink node name

/-- A call, where one that raises changes nothing. -/
def Session.attempt (s : Session) (op : TreeOp) : Option Session :=
  some ((s.step op.nodeOp).getD s)

/-- What keeps a tree: a directory stays below 4 GiB, and neither `.` nor `..` is unlinked, nor
a name that is listed otherwise than it is on the device, nor what cannot be given back. -/
def TreeOp.Keeps (L : Layout) (s : Session) : TreeOp → Prop
  | .lookup _ _ => True
  | .create node _ _ => ∀ ino ∈ s.nodes[node]?, ∀ D, Directory L (vol L s.fs) ino D →
      (D.length + 1) * L.blockSize < 2 ^ 32
  | .unlink node name => name ≠ "." ∧ name ≠ ".." ∧ ∀ ino ∈ s.nodes[node]?,
      Releasable L s.fs ino name ∧ SameName L s.fs ino name

section

variable {L : Layout} {M : Set Nat} {s s' : Session}

theorem Session.call_dirTree {α : Type} {m : FS α} {f : List Nat → α → List Nat}
    (hspec : m.wlp (fun _ fs => DirTree L (vol L fs)) s.fs)
    (hcall : s.call m f = some s') : DirTree L (vol L s'.fs) := by
  obtain ⟨a, hrun, -⟩ := Session.call_eq_some hcall
  have ht := wp_of_run hspec hrun
  exact ht

theorem Reading.dirTree {α : Type} {s : Ext2FS} [L.Ok] (h : Mounted L s) {m : FS α}
    (hm : Reading L m) (ht : DirTree L (vol L s)) : m.wlp (fun _ s' => DirTree L (vol L s')) s :=
  wp_imp (hm s h) (fun _ _ hr => by rw [(hr.after h).vol_eq]; exact ht)

theorem TreeOp.nonNeg (op : TreeOp) : op.nodeOp.NonNeg := by
  cases op <;> trivial

theorem TreeOp.Keeps.releases {op : TreeOp} (h : op.Keeps L s) : op.nodeOp.Releases L s := by
  cases op with
  | lookup node name => trivial
  | create node name type => trivial
  | unlink node name => exact fun ino hino => (h.2.2 ino hino).1

/-- **One call that returns.** -/
theorem Session.Inv.step_dirTree [L.Ok] (h : s.Inv L M) (ht : DirTree L (vol L s.fs)) {op : TreeOp}
    (hkeep : op.Keeps L s) (hstep : s.step op.nodeOp = some s') :
    s'.Inv L M ∧ DirTree L (vol L s'.fs) := by
  refine ⟨(h.step op.nonNeg hkeep.releases hstep).1, ?_⟩
  obtain ⟨ino, hino, hcall⟩ := bind_eq_some_iff.mp hstep
  have hnode : IsNode L (vol L s.fs) ino := h.nodes ino (mem_of_getElem? hino)
  cases op with
  | lookup node name =>
    exact call_dirTree (Reading.dirTree h.orderly.mounted (.nodeLookup ino name) ht) hcall
  | create node name type =>
    exact call_dirTree (create_dirTree h.orderly hnode ht (hkeep ino hino)) hcall
  | unlink node name =>
    obtain ⟨hdot, hdotdot, hrest⟩ := hkeep
    obtain ⟨hrel, hsame⟩ := hrest ino hino
    exact call_dirTree (unlink_dirTree h.orderly hnode ht hdot hdotdot hrel hsame) hcall

/-- **The tree after any calls** of `create` and `unlink` that keep it, where calls that raise
change nothing. -/
theorem tree_after_session (hL : L.Ok) (h : s.Inv L M) (ht : DirTree L (vol L s.fs))
    {ops : List TreeOp} (hops : Guarded Session.attempt (fun t op => op.Keeps L t) s ops)
    (hrun : exec Session.attempt s ops = some s') : DirTree L (vol L s'.fs) := by
  have hinv : s'.Inv L M ∧ DirTree L (vol L s'.fs) := by
    refine guarded_invariant (fun t : Session => t.Inv L M ∧
      DirTree L (vol L t.fs)) ?_ ⟨h, ht⟩ hops hrun
    rintro t op t' ⟨hi, htree⟩ hkeep hattempt
    cases hattempt
    cases hstep : t.step op.nodeOp with
    | none => exact ⟨hi, htree⟩
    | some t₁ => exact hi.step_dirTree htree hkeep hstep
  exact hinv.2

end

/-- The graph of the empty volume. -/
noncomputable def emptyGraph : DirGraph Nat Bytes where
  alloc := { x | (vol emptyImage.layout emptyImage.fs).inodeUsed x = true }
  dirs := {2}
  links x := leAt 2 ((vol emptyImage.layout emptyImage.fs).inode x) 26
  ents x n := if x = 2 ∧ (n = dot ∨ n = dotdot) then some 2 else none

theorem emptyGraph.ents_eq {x y : Nat} {n : Bytes} (h : emptyGraph.ents x n = some y) :
    x = 2 ∧ y = 2 ∧ (n = dot ∨ n = dotdot) := by
  simp only [emptyGraph] at h
  split at h
  · next hc => exact ⟨hc.1, (Option.some.inj h).symm, hc.2⟩
  · cases h

theorem emptyGraph.not_child (x y : Nat) : ¬ emptyGraph.Child x y := by
  rintro ⟨n, ⟨hdot, hdotdot⟩, h⟩
  exact (emptyGraph.ents_eq h).2.2.elim hdot hdotdot

theorem emptyGraph.ok : emptyGraph.Ok rootIno := by
  have hself : ∀ {n}, n = dot ∨ n = dotdot → emptyGraph.ents 2 n = some 2 :=
    fun hn => if_pos ⟨rfl, hn⟩
  have hused : emptyImage.disk.inodeUsed 2 = true :=
    emptyImage.live.inodeUsed
  have hnone : ∀ x, emptyGraph.subdirs x = ∅ := fun x =>
    Set.eq_empty_of_forall_notMem fun y hy => emptyGraph.not_child x y hy.2
  refine ⟨?_, fun x hx => ?_, rfl, fun h => (ents_eq h).1, fun h => ?_, fun hx => ?_, fun hx => ?_,
    fun _ hn _ h _ => ?_, fun hn h => ?_, fun {x} hx => ?_, fun {x} hx hxd => ?_, fun {x} hx => ?_⟩
  · refine (Set.toFinite {(2, dot), (2, dotdot)}).subset fun p hp => ?_
    obtain ⟨y, hy⟩ := isSome_iff_exists.mp hp
    obtain ⟨h1, -, h2 | h2⟩ := ents_eq hy
    · exact .inl (Prod.ext h1 h2)
    · exact .inr (Prod.ext h1 h2)
  · obtain rfl : x = 2 := hx
    exact hused
  · rw [(ents_eq h).2.1]
    exact hused
  · obtain rfl := hx
    exact hself (.inl rfl)
  · obtain rfl := hx
    exact ⟨2, rfl, hself (.inr rfl), .inr ⟨rfl, rfl⟩⟩
  · exact absurd ⟨_, hn, h⟩ (not_child _ _)
  · exact not_child _ _ ⟨_, hn, h⟩
  · obtain rfl : x = 2 := hx
    rw [hnone, Set.ncard_empty]
    decide +kernel
  · have hrefs : emptyGraph.refs x = ∅ := by
      refine Set.eq_empty_of_forall_notMem fun p hp => hxd ?_
      exact (ents_eq hp).2.1
    rw [hrefs, Set.ncard_empty]
    exact Image.forall_used (P := fun x raw => x ≠ 2 → leAt 2 raw 26 = 0)
      (by decide +kernel) x hx hxd
  · obtain rfl : x = 2 := hx
    exact .refl

theorem emptyImage.dirTree : DirTree emptyImage.layout emptyImage.disk := by
  refine ⟨emptyGraph, ⟨fun x => .rfl, fun x => ?_, fun x _ => rfl, fun x hx => ?_⟩,
    emptyGraph.ok, ?_⟩
  · constructor
    · rintro rfl
      exact ⟨emptyImage.live.inodeUsed, emptyImage.directory.mode⟩
    · rintro ⟨hused, hmode⟩
      exact Image.forall_used (P := fun x raw => IsDir raw → x = 2)
        (by decide +kernel) x hused hmode
  · obtain rfl : x = 2 := hx
    refine ⟨[rootRecords], emptyImage.directory, ?_⟩
    have hdots := (IsMap.nil.cons rfl 2 2).cons (n := dot) (if_neg DirGraph.Dots.ne) 2 2
    refine hdots.congr fun m => ?_
    simp only [emptyGraph, true_and]
    by_cases h1 : m = dot
    · rw [if_pos (.inl h1), if_pos h1]
    · by_cases h2 : m = dotdot
      · rw [if_pos (.inr h2), if_neg h1, if_pos h2]
      · rw [if_neg (not_or.mpr ⟨h1, h2⟩), if_neg h1, if_neg h2]
  · refine (Image.tally_one (n := 1) (S := {2}) (fun x => ?_) rfl (fun x hx => ?_) ?_ ?_).1
    · rw [Finset.mem_singleton]
      rfl
    · obtain rfl : x = 2 := hx
      decide
    · decide +kernel
    · intro g hg
      obtain ⟨k, rfl⟩ := Nat.exists_eq_succ_of_ne_zero hg
      rfl

/-- Where the pointers of every inode are block numbers, they stay so, whatever is called. -/
theorem Session.Inv.attempt {L : Layout} {M : Set Nat} {s s' : Session} [L.Ok] (h : s.Inv L M)
    (hp : AllPlain (vol L s.fs)) {op : TreeOp} (hop : s.attempt op = some s') :
    s'.Inv L M ∧ AllPlain (vol L s'.fs) := by
  cases hop
  cases hstep : s.step op.nodeOp with
  | none => exact ⟨h, hp⟩
  | some s₁ =>
    obtain ⟨h1, hadv⟩ := h.step op.nonNeg (hp.releases _) hstep
    exact ⟨h1, hadv.plain hp⟩

theorem emptyImage.allPlain : AllPlain emptyImage.disk :=
  .of_fileOrDir (Image.forall_used (by decide +kernel))

/-- A directory comes and goes. -/
theorem tree_after_session_dir : ∃ s', exec Session.attempt ⟨emptyImage.fs, [2]⟩
      [.create 0 "d" .dir, .unlink 0 "d"] = some s' ∧
    DirTree emptyImage.layout (vol emptyImage.layout s'.fs) := by
  obtain ⟨s', hs'⟩ := isSome_iff_exists.mp (show (exec Session.attempt ⟨emptyImage.fs, [2]⟩
    [.create 0 "d" .dir, .unlink 0 "d"]).isSome by rfl)
  refine ⟨s', hs', tree_after_session inferInstance emptyImage.sessionInv emptyImage.dirTree ?_ hs'⟩
  refine ⟨fun ino hino D hd => ?_, fun t ht => ⟨⟨by decide, by decide, fun ino _ => ⟨?_, ?_⟩⟩,
    fun _ _ => trivial⟩⟩
  · obtain rfl : 2 = ino := Option.some.inj hino
    have hsize : sizeOf (emptyImage.disk.inode 2) = 1024 := by decide +kernel
    have hbs : emptyImage.layout.blockSize = 1024 := by decide
    have hlen := hd.size
    rw [hsize, hbs] at hlen
    rw [hbs]
    omega
  · obtain ⟨-, hp⟩ := emptyImage.sessionInv.attempt emptyImage.allPlain ht
    exact fun D hd e he _ hused => hp _ hused
  · exact fun D hd e he hname => Utf8.eq_encode_of_ascii (by simp) hname

/-- **`unlink` of `.`** in an empty directory frees its inode, which has an entry in the
parent. -/
theorem unlink_dot_dangles : ∃ s', exec Session.attempt ⟨emptyImage.fs, [2]⟩
      [.create 0 "d" .dir, .unlink 1 "."] = some s' ∧
    ((nodeLookup 2 "d").run s'.fs).1 = .ok 11 ∧
    (vol emptyImage.layout s'.fs).inodeUsed 11 = false ∧
    ¬ DirTree emptyImage.layout (vol emptyImage.layout s'.fs) := by
  have hrun : (exec Session.attempt ⟨emptyImage.fs, [2]⟩
      [.create 0 "d" .dir, .unlink 1 "."]).map (fun s' : Session =>
        decide (((nodeLookup 2 "d").run s'.fs).1 = .ok 11 ∧
          (vol emptyImage.layout s'.fs).inodeUsed 11 = false ∧
          (vol emptyImage.layout s'.fs).inodeUsed 2 = true ∧
          modeFormat (leAt 2 ((vol emptyImage.layout s'.fs).inode 2) 0) = sIfDir)) = some true := by
    decide +kernel
  obtain ⟨s', hs', hleft⟩ := map_eq_some_iff.mp hrun
  obtain ⟨hlookup, hfree, hroot, hmode⟩ := of_decide_eq_true hleft
  refine ⟨s', hs', hlookup, hfree, fun ht => ?_⟩
  obtain ⟨s₁, hs₁, hrest⟩ := exec_cons_eq_some.mp hs'
  obtain ⟨h₁, hp₁⟩ := emptyImage.sessionInv.attempt emptyImage.allPlain hs₁
  obtain ⟨s₂, hs₂, hnil⟩ := exec_cons_eq_some.mp hrest
  obtain ⟨h₂, -⟩ := h₁.attempt hp₁ hs₂
  obtain rfl : s₂ = s' := by simpa using hnil
  -- the entry of the root leads to an inode that is not in use
  obtain ⟨G, hshow, hok, -⟩ := ht
  obtain ⟨D, hd, hmap⟩ := hshow.ents 2 ((hshow.dirs 2).mpr ⟨hroot, hmode⟩)
  have hlive : Live emptyImage.layout emptyImage.metaBlocks s₂.fs 2 :=
    ⟨h₂.orderly.mounted, h₂.orderly.own, hroot, .inr (.inl hmode)⟩
  obtain ⟨-, e, hfind, he⟩ := wp_of_run (nodeLookup_wp hlive hd (by decide))
    (run_eq_ok hlookup)
  have hent : G.ents 2 e.1 = some e.2.1 :=
    (hmap.2 e.1 e.2.1).mpr ⟨e.2.2, mem_of_find?_eq_some hfind⟩
  have hused := (hshow.alloc _).mp (hok.ents_alloc hent)
  rw [he, hfree] at hused
  exact absurd hused (by decide)

end PythonOS.Ext2
