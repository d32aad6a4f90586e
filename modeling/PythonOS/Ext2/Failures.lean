import PythonOS.Ext2.Create
import PythonOS.Ext2.Image

/-!
# PythonOS.Ext2.Failures

What an operation leaves behind when it raises.
-/

namespace PythonOS.Ext2

open Lib Lib.Bytes

section

variable {L : Layout} {M : Set Nat} {s s' : Ext2FS} {ino : Nat} {D : List (List Record)}
  {name : String} {type : InodeType}

/-! ### `create` -/

/-- The file system is as it was: what is allocated, the counters, the link counts, and
the records of every directory. -/
structure AsBefore (L : Layout) (s s' : Ext2FS) : Prop where
  used : (vol L s').used = (vol L s).used
  inodeUsed : (vol L s').inodeUsed = (vol L s).inodeUsed
  counters : (vol L s').counters = (vol L s).counters
  links : ∀ x, leAt 2 ((vol L s').inode x) 26 = leAt 2 ((vol L s).inode x) 26
  listings : ∀ x D, Directory L (vol L s) x D → Directory L (vol L s') x D

theorem AsBefore.of_vol_eq (h : vol L s' = vol L s) : AsBefore L s s' :=
  ⟨by rw [h], by rw [h], by rw [h], fun _ => by rw [h], fun _ _ hd => by rw [h]; exact hd⟩

/-- **When `create` raises**, everything is as it was exactly if no inode had been
allocated: the parent is no directory, the name is there already, or no inode is free. -/
theorem create_raises_unchanged_iff (hL : L.Ok) (h : Mounted L s) (hino : L.HasInode ino)
    (hc : Counts L (vol L s))
    (hdir : modeFormat (leAt 2 ((vol L s).inode ino) 0) = sIfDir →
      Live L M s ino ∧ Directory L (vol L s) ino D) {e : Error}
    (hrun : (nodeCreate ino name type).run s = (.error e, s')) :
    AsBefore L s s' ↔ modeFormat (leAt 2 ((vol L s).inode ino) 0) ≠ sIfDir ∨ Listed D name ∨
      ∀ x, ¬ L.FreshInode (vol L s) x := by
  by_cases hmode : IsDir ((vol L s).inode ino)
  · obtain ⟨hlive, hD⟩ := hdir hmode
    have hraised := Coro.wp_of_run_error (nodeCreate_wp hlive hD name type) hrun
    rcases hraised with ⟨ha, hcause⟩ | ⟨hunlisted, x, hx, hused⟩
    · refine iff_of_true (.of_vol_eq ha.vol_eq) (.inr ?_)
      exact hcause.imp id fun hno => hc.not_freshInode_of_noInode hno
    · -- the inode that was allocated is in use now
      refine iff_of_false (fun hsame => ?_) ?_
      · rw [hsame.inodeUsed, hx.2] at hused
        exact absurd hused (by decide)
      · rintro (hm | hl | hno)
        · exact hm hmode
        · exact hunlisted hl
        · exact hno x hx
  · have ha := Coro.wp_of_run_error (nodeCreate_not_dir h hino hmode) hrun
    exact iff_of_true (.of_vol_eq ha.vol_eq) (.inl hmode)

end

/-- A name that is there already. -/
theorem create_raises_unchanged_iff_exists :
    ((nodeCreate 2 "." .file).run emptyImage.fs).1 = .error (.fileExists ".") ∧
      (AsBefore emptyImage.layout emptyImage.fs ((nodeCreate 2 "." .file).run emptyImage.fs).2 ↔
        modeFormat (leAt 2 ((vol emptyImage.layout emptyImage.fs).inode 2) 0) ≠ sIfDir ∨
          Listed [rootRecords] "." ∨
          ∀ x, ¬ emptyImage.layout.FreshInode (vol emptyImage.layout emptyImage.fs) x) := by
  have hrun : ((nodeCreate 2 "." .file).run emptyImage.fs).1 = .error (.fileExists ".") := by
    decide +kernel
  exact ⟨hrun, create_raises_unchanged_iff inferInstance emptyImage.live.mounted
    emptyImage.live.hasInode emptyImage.counts (fun _ => ⟨emptyImage.live, emptyImage.directory⟩)
    (Coro.run_eq_error hrun)⟩

/-- **`create` of a file without a name** raises, and the inode that it had allocated is
gone. -/
theorem create_empty_name_leaks :
    ((nodeCreate 2 "" .file).run emptyImage.fs).1 = .error (.value "bad name") ∧
      (counters emptyImage.fs).freeInodes = 6 ∧
      (counters ((nodeCreate 2 "" .file).run emptyImage.fs).2).freeInodes = 5 ∧
      ¬ AsBefore emptyImage.layout emptyImage.fs ((nodeCreate 2 "" .file).run emptyImage.fs).2 := by
  have hbefore : (counters emptyImage.fs).freeInodes = 6 := by decide +kernel
  have hafter : (counters ((nodeCreate 2 "" .file).run emptyImage.fs).2).freeInodes = 5 := by
    decide +kernel
  refine ⟨by decide +kernel, hbefore, hafter, fun hsame => ?_⟩
  have hcount : (counters ((nodeCreate 2 "" .file).run emptyImage.fs).2).freeInodes =
      (counters emptyImage.fs).freeInodes := congrArg Counters.freeInodes hsame.counters
  rw [hbefore, hafter] at hcount
  exact absurd hcount (by decide)

end PythonOS.Ext2
