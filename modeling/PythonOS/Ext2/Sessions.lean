import PythonOS.Ext2.Mount
import PythonOS.Ext2.Reading
import PythonOS.Ext2.Unlink
import PythonOS.Ext2.Image
import PythonOS.Lib.Runs

/-!
# PythonOS.Ext2.Sessions

Runs of operations on the nodes of a volume. A session has the nodes that it got from the
root by `lookup` and `create`; the inode of a node may be gone by now, or be another one.

`Orderly` holds between the operations of a session: no block is shared, and every
directory in use is one. What else the operations keep is in `Advance`: no block is lost
(`blocks_accounted`), and everything is on the device (`remount_after_session`).
-/

namespace PythonOS.Ext2

open Lib List Option Coro Lib.Bytes

/-! ### Sessions -/

/-- The operations; `node` is the position of a node in the session. -/
inductive NodeOp
  | lookup (node : Nat) (name : String)
  | readdir (node : Nat)
  | read (node : Nat) (offset n : Int)
  | create (node : Nat) (name : String) (type : InodeType)
  | write (node : Nat) (offset : Int) (data : Bytes)
  | truncate (node : Nat) (size : Int)
  | unlink (node : Nat) (name : String)

def NodeOp.node : NodeOp → Nat
  | .lookup node _ => node
  | .readdir node => node
  | .read node _ _ => node
  | .create node _ _ => node
  | .write node _ _ => node
  | .truncate node _ => node
  | .unlink node _ => node

/-- The driver and the nodes, by their inodes. -/
structure Session where
  fs : Ext2FS
  nodes : List Nat

namespace Session

/-- A call that returns; `f` is what becomes of the nodes. -/
def call {α : Type} (s : Session) (m : FS α) (f : List Nat → α → List Nat) : Option Session :=
  match m.run s.fs with
  | (.ok a, fs) => some ⟨fs, f s.nodes a⟩
  | (.error _, _) => none

/-- One operation that returns. -/
def step (s : Session) (op : NodeOp) : Option Session :=
  s.nodes[op.node]?.bind fun ino =>
    match op with
    | .lookup _ name => s.call (nodeLookup ino name) fun nodes x => nodes ++ [x]
    | .readdir _ => s.call (nodeReaddir ino) fun nodes _ => nodes
    | .read _ offset n => s.call (nodeRead ino offset n) fun nodes _ => nodes
    | .create _ name type => s.call (nodeCreate ino name type) fun nodes x => nodes ++ [x]
    | .write _ offset data => s.call (nodeWrite ino offset data) fun nodes _ => nodes
    | .truncate _ size => s.call (nodeTruncate ino size) fun nodes _ => nodes
    | .unlink _ name => s.call (nodeUnlink ino name) fun nodes _ => nodes

theorem call_eq_some {α : Type} {s s' : Session} {m : FS α} {f : List Nat → α → List Nat}
    (h : s.call m f = some s') : ∃ a, m.run s.fs = (.ok a, s'.fs) ∧ s'.nodes = f s.nodes a := by
  unfold call at h
  split at h <;> cases h
  next a fs hrun => exact ⟨a, hrun, rfl⟩

end Session

/-! ### Order -/

/-- An inode that a node may have: one in use, or one that was given back. -/
def IsNode (L : Layout) (V : Volume) (x : Nat) : Prop :=
  L.HasInode x ∧ (V.inodeUsed x = true ∨ V.inode x = zeros L.inodeSize)

/-- **The invariant between operations.** -/
structure Orderly (L : Layout) (M : Set Nat) (s : Ext2FS) : Prop where
  mounted : Mounted L s
  own : Own L M (vol L s)
  directory : ∀ x, (vol L s).inodeUsed x = true →
    modeFormat (leAt 2 ((vol L s).inode x) 0) = sIfDir →
    ∃ D, Directory L (vol L s) x D ∧ ∀ e ∈ dirEntries D, IsNode L (vol L s) e.2.1

/-- The pointers of every inode in use are block numbers, or there are none. -/
def AllPlain (V : Volume) : Prop := ∀ x, V.inodeUsed x = true → V.Plain x

/-- What an operation that returns keeps. -/
structure Advance (L : Layout) (M : Set Nat) (s s' : Ext2FS) : Prop where
  orderly : Orderly L M s'
  node : ∀ x, IsNode L (vol L s) x → IsNode L (vol L s') x
  exact : Exact L M (vol L s) → Exact L M (vol L s')
  synced : Synced L s → Synced L s'
  plain : AllPlain (vol L s) → AllPlain (vol L s')

section

variable {L : Layout} {M : Set Nat} {s s' : Ext2FS} {x ino : Nat}

theorem IsNode.used {V : Volume} (h : IsNode L V x) (hmode : leAt 2 (V.inode x) 0 ≠ 0) :
    V.inodeUsed x = true := by
  refine h.2.resolve_right fun hz => hmode ?_
  rw [hz, leAt_zeros]

variable (h : Orderly L M s)

include h

namespace Orderly

theorem live_reg (hx : IsNode L (vol L s) x)
    (hmode : modeFormat (leAt 2 ((vol L s).inode x) 0) = sIfReg) : Live L M s x :=
  ⟨h.mounted, h.own, hx.used fun hz => absurd (hz ▸ hmode) (by decide), .inl hmode⟩

theorem live_dir (hx : IsNode L (vol L s) x)
    (hmode : modeFormat (leAt 2 ((vol L s).inode x) 0) = sIfDir) :
    Live L M s x ∧ ∃ D, Directory L (vol L s) x D ∧ ∀ e ∈ dirEntries D,
      IsNode L (vol L s) e.2.1 := by
  have hused := hx.used fun hz => absurd (hz ▸ hmode) (by decide)
  exact ⟨⟨h.mounted, h.own, hused, .inr (.inl hmode)⟩, h.directory x hused hmode⟩

end Orderly

theorem Advance.of_after {T : Set Nat} (ha : After L s T (vol L s) s') :
    Advance L M s s' := by
  have hvol : vol L s' = vol L s := ha.vol_eq
  refine ⟨⟨ha.mounted, by rw [hvol]; exact h.own, fun x hu hm => ?_⟩, fun x hx =>
    by rw [hvol]; exact hx,
    fun he => by rw [hvol]; exact he, ha.synced, fun hp => by rw [hvol]; exact hp⟩
  rw [hvol] at hu hm ⊢
  exact h.directory x hu hm

/-- **The step rule**: what is to be shown of an operation are the inodes that it edits. -/
theorem Advance.of_edited {S : Set Nat} (hm : Mounted L s')
    (he : Edited L M S (vol L s) (vol L s')) (hsync : Synced L s → Synced L s')
    (hnode : ∀ x ∈ S, IsNode L (vol L s) x → IsNode L (vol L s') x)
    (hdir : ∀ x ∈ S, (vol L s').inodeUsed x = true →
      modeFormat (leAt 2 ((vol L s').inode x) 0) = sIfDir → ∃ D, Directory L (vol L s') x D ∧
        ∀ e ∈ dirEntries D, IsNode L (vol L s) e.2.1 ∨ IsNode L (vol L s') e.2.1)
    (hplain : ∀ x ∈ S, (vol L s').inodeUsed x = true → AllPlain (vol L s) → (vol L s').Plain x) :
    Advance L M s s' := by
  have hnode' : ∀ x, IsNode L (vol L s) x → IsNode L (vol L s') x := by
    intro x hx
    by_cases hxS : x ∈ S
    · exact hnode x hxS hx
    · rw [IsNode, he.inodeUsed x hxS, he.inode x hxS]
      exact hx
  refine ⟨⟨hm, he.own, fun x hu hmode => ?_⟩, hnode', he.exact, hsync, fun hp x hu => ?_⟩
  · by_cases hxS : x ∈ S
    · obtain ⟨D, hD, hents⟩ := hdir x hxS hu hmode
      exact ⟨D, hD, fun e hmem => (hents e hmem).elim (hnode' _) id⟩
    · rw [he.inodeUsed x hxS] at hu
      rw [he.inode x hxS] at hmode
      obtain ⟨D, hD, hents⟩ := h.directory x hu hmode
      exact ⟨D, he.directory hxS hD, fun e hmem => hnode' _ (hents e hmem)⟩
  · by_cases hxS : x ∈ S
    · exact hplain x hxS hu hp
    · rw [Volume.Plain, Volume.Holds, he.inodeUsed x hxS, he.inode x hxS]
      exact hp x (by rw [← he.inodeUsed x hxS, hu])

/-! ### One operation -/

/-- A file was touched. -/
theorem Advance.of_touched (hl : Live L M s' x)
    (hmode : modeFormat (leAt 2 ((vol L s).inode x) 0) = sIfReg)
    (ht : Touched L M x (vol L s) (vol L s')) (hs : Steady L s s') : Advance L M s s' := by
  refine Advance.of_edited h hl.mounted ht.edited hs.synced ?_ ?_ ?_
  · rintro y rfl -
    exact ⟨hl.hasInode, .inl hl.inodeUsed⟩
  · rintro y rfl - hdir
    rw [ht.mode, hmode] at hdir
    exact absurd hdir (by decide)
  · rintro y rfl - -
    exact .inl ⟨hl.inodeUsed, hl.kind⟩

theorem write_advance [L.Ok] (hx : IsNode L (vol L s) x) (offset : Nat)
    (data : Bytes) : (nodeWrite x offset data).wlp (fun _ s' => Advance L M s s') s := by
  refine wp_bind_ok (requireFormat_wp h.mounted hx.1 sIfReg .isADirectory) ?_
  rintro - s1 ⟨-, hmode, ha⟩
  have hl := (h.live_reg hx hmode).of_after ha
  refine wp_imp (writeFileData_wp hl (by rw [ha.vol_eq]; exact hmode) offset data) ?_
  rintro - s2 ⟨-, hl2, ht, hs, -, -⟩
  rw [ha.vol_eq] at ht
  exact Advance.of_touched h hl2 hmode ht (ha.steady_self.trans hs)

theorem truncate_advance [L.Ok] (hx : IsNode L (vol L s) x) (size : Nat) :
    (nodeTruncate x size).wlp (fun _ s' => Advance L M s s') s := by
  refine wp_bind_ok (requireFormat_wp h.mounted hx.1 sIfReg .isADirectory) ?_
  rintro - s1 ⟨-, hmode, ha⟩
  have hl := (h.live_reg hx hmode).of_after ha
  refine wp_imp (truncateFile_wp hl (by rw [ha.vol_eq]; exact hmode) size) ?_
  rintro - s2 ⟨hl2, ht, hs, -, -⟩
  rw [ha.vol_eq] at ht
  exact Advance.of_touched h hl2 hmode ht (ha.steady_self.trans hs)

variable {D : List (List Record)}

theorem Created.advance {name : String}
    {type : InodeType} (hents : ∀ e ∈ dirEntries D, IsNode L (vol L s) e.2.1)
    (hi : Live L M s ino) (hc : Created L M s ino D name type x s') :
    Advance L M s s' ∧ IsNode L (vol L s') x := by
  have hnew : IsNode L (vol L s') x := ⟨hc.fresh.1, .inl hc.used⟩
  have hparent : IsNode L (vol L s') ino := ⟨hc.parentLive.hasInode, .inl hc.parentLive.inodeUsed⟩
  refine ⟨Advance.of_edited h hc.mounted hc.edited hc.recounted.synced ?_ ?_ ?_, hnew⟩
  · rintro y (rfl | rfl) -
    · exact hparent
    · exact hnew
  · rintro y (rfl | rfl) - hmode
    · obtain ⟨D', hD', hperm | ⟨rfl, -⟩⟩ := hc.entry
      · refine ⟨D', hD', fun e he => ?_⟩
        rcases mem_cons.mp (hperm.subset he) with rfl | hold
        · exact .inr hnew
        · exact .inl (hents e hold)
      · exact ⟨[], hD', fun e he => absurd he (by simp [dirEntries])⟩
    · have hdir : type = .dir := by
        rw [hc.mode, format_createMode] at hmode
        cases type <;> simp_all <;> exact absurd hmode (by decide)
      obtain ⟨D0, hD0, hperm⟩ := hc.directory hdir
      refine ⟨D0, hD0, fun e he => .inr ?_⟩
      have hmem := hperm.subset he
      simp only [mem_cons, not_mem_nil, or_false] at hmem
      rcases hmem with rfl | rfl
      · exact hparent
      · exact hnew
  · rintro y (rfl | rfl) - -
    · exact .inl ⟨hc.parentLive.inodeUsed, hc.parentLive.kind⟩
    · by_cases hdir : type = .dir
      · refine .inl ⟨hc.used, .inr (.inl ?_)⟩
        rw [hc.mode, format_createMode, hdir]
      · exact .inr fun n _ => (hc.file hdir).1.pointer n

omit h in
/-- The directory `ino` is left with the records `D'`, some of those it had. -/
theorem left_entries {D D' : List (List Record)} {e0 : RawEntry}
    (hents : ∀ e ∈ dirEntries D, IsNode L (vol L s) e.2.1)
    (hperm : (dirEntries D).Perm (e0 :: dirEntries D')) :
    ∀ e ∈ dirEntries D', IsNode L (vol L s) e.2.1 :=
  fun e he => hents e (hperm.symm.subset (mem_cons_of_mem _ he))

/-- An inode was given back at the end of an `unlink`. -/
theorem Advance.of_drop [L.Ok] {D' : List (List Record)} {target : Nat}
    {wasDir : Bool} {s1 : Ext2FS} (htarget : L.HasInode target) (hplain : (vol L s1).Plain target)
    (he1 : Edited L M {ino, target} (vol L s) (vol L s1)) (hi1 : Live L M s1 ino)
    (hd1 : Directory L (vol L s1) ino D') (hents : ∀ e ∈ dirEntries D', IsNode L (vol L s) e.2.1)
    (hsync : Synced L s → Synced L s1)
    (ha : After L s1 ∅ ((vol L s1).dropInode L target wasDir) s') : Advance L M s s' := by
  have hdrop : Edited L M {target} (vol L s1) (vol L s') := by
    rw [ha.vol_eq]
    exact he1.own.edited_dropInode wasDir hplain
  have hgone : (vol L s').inodeUsed target = false := by
    rw [ha.vol_eq, inodeUsed_dropInode, if_pos rfl]
  have hnode : IsNode L (vol L s') target :=
    ⟨htarget, .inr (by rw [ha.vol_eq, inode_dropInode, if_pos rfl])⟩
  refine Advance.of_edited h ha.mounted (he1.trans (hdrop.mono (by simp)))
    (fun hs => ha.synced (hsync hs)) ?_ ?_ ?_
  · rintro y (rfl | rfl) hy
    · by_cases heq : y = target
      · exact heq ▸ hnode
      · exact ⟨hy.1, .inl (by rw [hdrop.inodeUsed y heq]; exact hi1.inodeUsed)⟩
    · exact hnode
  · rintro y (rfl | rfl) hu -
    · have hne : y ≠ target := fun heq => by
        rw [heq, hgone] at hu
        exact absurd hu (by decide)
      exact ⟨D', hdrop.directory hne hd1, fun e he => .inl (hents e he)⟩
    · rw [hgone] at hu
      exact absurd hu (by decide)
  · rintro y (rfl | rfl) hu -
    · have hne : y ≠ target := fun heq => by
        rw [heq, hgone] at hu
        exact absurd hu (by decide)
      exact .inl ⟨hu, by rw [hdrop.inode y hne]; exact hi1.kind⟩
    · rw [hgone] at hu
      exact absurd hu (by decide)

theorem Unlinked.advance [L.Ok] {name : String}
    {target : Nat} (hi : Live L M s ino) (hd : Directory L (vol L s) ino D)
    (hents : ∀ e ∈ dirEntries D, IsNode L (vol L s) e.2.1) (ht : IsNode L (vol L s) target)
    (hplain : (vol L s).Plain target) (hu : Unlinked L M s ino D name target s') :
    Advance L M s s' := by
  rcases hu with ⟨-, -, t, D', s1, s2, hrem, hr, ha⟩ | ⟨hmode, t, D', s1, hrem, hlast⟩
  · have hino := hi.hasInode
    have hm1 := hrem.live.mounted
    have he1 : Edited L M {ino, target} (vol L s) (vol L s1) := hrem.touched.edited.mono (by simp)
    have he2 : Edited L M {ino, target} (vol L s1) (vol L s2) := hr.edited.mono (by simp)
    exact Advance.of_drop h ht.1 (hr.sameBlocks.plain (hrem.rewritten.sameBlocks.plain hplain))
      (he1.trans he2) (hr.live hm1 hino hrem.live) (hr.directory hm1 hino hrem.directory)
      (left_entries hents hrem.perm) (fun hs => hr.steady.synced (hrem.steady.synced hs)) ha
  · have hm1 := hrem.live.mounted
    have he1 : Edited L M {ino, target} (vol L s) (vol L s1) := hrem.touched.edited.mono (by simp)
    split at hlast
    · exact Advance.of_drop h ht.1 (hrem.rewritten.sameBlocks.plain hplain) he1 hrem.live
        hrem.directory
        (left_entries hents hrem.perm) hrem.steady.synced hlast
    · next hlinks =>
      -- the inode has links left, so it is in use
      have hused : (vol L s).inodeUsed target = true := by
        refine ht.2.resolve_right fun hz => hlinks ?_
        rw [hz, leAt_zeros]
        omega
      have hinode := hrem.rewritten.inode
      have hused' : (vol L s').inodeUsed target = true := by
        rw [hlast.inodeUsed, hrem.rewritten.inodeUsed, hused]
      have hlive := hlast.live hm1 ht.1 hrem.live
      have he2 : Edited L M {ino, target} (vol L s1) (vol L s') := hlast.edited.mono (by simp)
      refine Advance.of_edited h hlast.mounted (he1.trans he2)
        (fun hs => hlast.steady.synced (hrem.steady.synced hs)) ?_ ?_ ?_
      · rintro y (rfl | rfl) hy
        · exact ⟨hy.1, .inl hlive.inodeUsed⟩
        · exact ⟨hy.1, .inl hused'⟩
      · rintro y (rfl | rfl) - hdir
        · exact ⟨D', hlast.directory hm1 ht.1 hrem.directory,
            fun e he => .inl (left_entries hents hrem.perm e he)⟩
        · rw [hlast.leAt_eq hm1 ht.1 y (.inl (by omega)), hinode] at hdir
          exact absurd hdir hmode
      · rintro y (rfl | rfl) - -
        · exact .inl ⟨hlive.inodeUsed, hlive.kind⟩
        · exact hlast.sameBlocks.plain (hrem.rewritten.sameBlocks.plain hplain)

/-- The inodes that `name` leads to can be given back. -/
def Releasable (L : Layout) (s : Ext2FS) (ino : Nat) (name : String) : Prop :=
  ∀ D, Directory L (vol L s) ino D → ∀ e ∈ dirEntries D, Utf8.decode e.1 = name →
    (vol L s).inodeUsed e.2.1 = true → (vol L s).Plain e.2.1

theorem unlink_advance [L.Ok] (hx : IsNode L (vol L s) ino)
    (name : String) (hrel : Releasable L s ino name) :
    (nodeUnlink ino name).wlp (fun _ s' => Advance L M s s') s := by
  by_cases hmode : IsDir ((vol L s).inode ino)
  · obtain ⟨hi, D, hd, hents⟩ := h.live_dir hx hmode
    have hplain : ∀ e, firstEntry D name = some e →
        IsNode L (vol L s) e.2.1 ∧ (vol L s).Plain e.2.1 := by
      intro e hfind
      have he := mem_of_find?_eq_some hfind
      refine ⟨hents e he, ?_⟩
      rcases (hents e he).2 with hused | hz
      · exact hrel D hd e he (by simpa using find?_some hfind) hused
      · exact .inr fun n _ => by rw [hz, pointer, leAt_zeros]
    refine wp_imp (nodeUnlink_wp hi hd name fun e hfind =>
      ⟨(hplain e hfind).1.1, fun _ => (hplain e hfind).2, fun hdir => ?_⟩) ?_
    · obtain ⟨ht, Dt, hdt, -⟩ := h.live_dir (hplain e hfind).1 hdir
      exact ⟨ht, Dt, hdt⟩
    · rintro - s' ⟨e, hfind, hu⟩
      obtain ⟨hnode, hpl⟩ := hplain e hfind
      exact hu.advance h hi hd hents hnode hpl
  · exact wp_imp (nodeUnlink_not_dir h.mounted hx.1 hmode) (fun _ _ hf => hf.elim)

theorem Reading.advance {α : Type} [L.Ok] {m : FS α} (hm : Reading L m) :
    m.wlp (fun _ s' => Advance L M s s') s :=
  wp_imp (hm s h.mounted) (fun _ _ hr => .of_after h (hr.after h.mounted))

omit h in
/-- **`lookup`** in a directory returns the inode of the first entry of the name. -/
theorem nodeLookup_wp [L.Ok] (h : Live L M s ino)
    (hd : Directory L (vol L s) ino D) {name : String} (hname : ¬ (name = "" ∨ name = ".")) :
    (nodeLookup ino name).wlp (fun y s' => Same L s s' ∧ ∃ e,
        firstEntry D name = some e ∧ e.2.1 = y) s := by
  simp only [nodeLookup]
  rw [if_neg hname]
  refine wp_bind_ok (requireFormat_wp h.mounted h.hasInode sIfDir .notADirectory) ?_
  rintro - s1 ⟨-, hmode, ha1⟩
  refine wp_bind_ok (readDirEntries_wp (h.of_after ha1) (by rw [ha1.vol_eq]; exact hd)) ?_
  rintro - s2 ⟨rfl, ha2⟩
  rw [findName_listed]
  cases hfind : firstEntry D name with
  | none => trivial
  | some e => exact ⟨ha1.still ha2, e, rfl, rfl⟩

/-- A node that `lookup` returns. -/
theorem lookup_advance [L.Ok] (hx : IsNode L (vol L s) ino) (name : String) :
    (nodeLookup ino name).wlp (fun y s' => Advance L M s s' ∧ IsNode L (vol L s') y) s := by
  by_cases hname : name = "" ∨ name = "."
  · simp only [nodeLookup]
    rw [if_pos hname]
    exact ⟨.of_after h (.refl h.mounted), hx⟩
  · by_cases hmode : IsDir ((vol L s).inode ino)
    · obtain ⟨hi, D, hd, hents⟩ := h.live_dir hx hmode
      refine wp_imp (nodeLookup_wp hi hd hname) ?_
      rintro y s' ⟨ha, e, hfind, rfl⟩
      have hadv : Advance L M s s' := .of_after h ha
      exact ⟨hadv, hadv.node _ (hents e (mem_of_find?_eq_some hfind))⟩
    · simp only [nodeLookup]
      rw [if_neg hname]
      refine wp_bind_ok (requireFormat_wp h.mounted hx.1 sIfDir .notADirectory) ?_
      rintro - s1 ⟨-, hdir, -⟩
      exact absurd hdir hmode

theorem create_advance [L.Ok] (hx : IsNode L (vol L s) ino)
    (name : String) (type : InodeType) :
    (nodeCreate ino name type).wlp (fun y s' => Advance L M s s' ∧ IsNode L (vol L s') y) s := by
  by_cases hmode : IsDir ((vol L s).inode ino)
  · obtain ⟨hi, D, hd, hents⟩ := h.live_dir hx hmode
    refine wp_imp (nodeCreate_wp hi hd name type) ?_
    intro y s' hc
    exact hc.advance h hents hi
  · exact wp_imp (nodeCreate_not_dir h.mounted hx.1 hmode) (fun _ _ hf => hf.elim)

end

/-! ### Runs -/

/-- **The invariant of a session.** -/
structure Session.Inv (L : Layout) (M : Set Nat) (s : Session) : Prop where
  orderly : Orderly L M s.fs
  nodes : ∀ x ∈ s.nodes, IsNode L (vol L s.fs) x

/-- No negative offset or size to write at. -/
def NodeOp.NonNeg : NodeOp → Prop
  | .write _ offset _ => 0 ≤ offset
  | .truncate _ size => 0 ≤ size
  | _ => True

instance : DecidablePred NodeOp.NonNeg
  | .write _ offset _ => inferInstanceAs (Decidable (0 ≤ offset))
  | .truncate _ size => inferInstanceAs (Decidable (0 ≤ size))
  | .lookup _ _ => inferInstanceAs (Decidable True)
  | .readdir _ => inferInstanceAs (Decidable True)
  | .read _ _ _ => inferInstanceAs (Decidable True)
  | .create _ _ _ => inferInstanceAs (Decidable True)
  | .unlink _ _ => inferInstanceAs (Decidable True)

/-- What is unlinked can be given back. -/
def NodeOp.Releases (L : Layout) (s : Session) : NodeOp → Prop
  | .unlink node name => ∀ ino ∈ s.nodes[node]?, Releasable L s.fs ino name
  | _ => True

section

variable {L : Layout} {M : Set Nat} {s s' : Session}

theorem Session.Inv.call {α : Type} (h : s.Inv L M) {m : FS α} {f : List Nat → α → List Nat}
    (hspec : m.wlp (fun a fs => Advance L M s.fs fs ∧ ∀ x ∈ f s.nodes a, x ∈ s.nodes ∨
      IsNode L (vol L fs) x) s.fs) (hcall : s.call m f = some s') :
    s'.Inv L M ∧ Advance L M s.fs s'.fs := by
  obtain ⟨a, hrun, hnodes⟩ := Session.call_eq_some hcall
  obtain ⟨hadv, hf⟩ := wp_of_run hspec hrun
  refine ⟨⟨hadv.orderly, fun x hx => ?_⟩, hadv⟩
  rw [hnodes] at hx
  exact (hf x hx).elim (fun hold => hadv.node x (h.nodes x hold)) id

/-- **One operation.** -/
theorem Session.Inv.step [L.Ok] (h : s.Inv L M) {op : NodeOp} (hop : op.NonNeg)
    (hrel : op.Releases L s) (hstep : s.step op = some s') :
    s'.Inv L M ∧ Advance L M s.fs s'.fs := by
  obtain ⟨ino, hino, hcall⟩ := bind_eq_some_iff.mp hstep
  have hnode : IsNode L (vol L s.fs) ino := h.nodes ino (mem_of_getElem? hino)
  -- the nodes of the session, and those with one more
  have hsame : ∀ {α : Type} {m : FS α}, m.wlp (fun _ fs => Advance L M s.fs fs) s.fs →
      m.wlp (fun _ fs => Advance L M s.fs fs ∧ ∀ x ∈ s.nodes, x ∈ s.nodes ∨
        IsNode L (vol L fs) x) s.fs :=
    fun hspec => wp_imp hspec (fun _ _ ha => ⟨ha, fun _ hx => .inl hx⟩)
  have hmore : ∀ {m : FS Nat}, m.wlp (fun y fs => Advance L M s.fs fs ∧
      IsNode L (vol L fs) y) s.fs →
      m.wlp (fun y fs => Advance L M s.fs fs ∧ ∀ x ∈ s.nodes ++ [y], x ∈ s.nodes ∨
        IsNode L (vol L fs) x) s.fs := by
    refine fun hspec => wp_imp hspec (fun y fs ha => ⟨ha.1, fun x hx => ?_⟩)
    rcases mem_append.mp hx with hold | hnew
    · exact .inl hold
    · exact .inr (mem_singleton.mp hnew ▸ ha.2)
  cases op with
  | lookup node name => exact h.call (hmore (lookup_advance h.orderly hnode name)) hcall
  | readdir node => exact h.call (hsame (Reading.advance h.orderly (.nodeReaddir ino))) hcall
  | read node offset n =>
    exact h.call (hsame (Reading.advance h.orderly (.nodeRead ino offset n))) hcall
  | create node name type => exact h.call (hmore (create_advance h.orderly hnode name type)) hcall
  | write node offset data =>
    obtain ⟨k, rfl⟩ := Int.eq_ofNat_of_zero_le hop
    exact h.call (hsame (write_advance h.orderly hnode k data)) hcall
  | truncate node size =>
    obtain ⟨k, rfl⟩ := Int.eq_ofNat_of_zero_le hop
    exact h.call (hsame (truncate_advance h.orderly hnode k)) hcall
  | unlink node name =>
    exact h.call (hsame (unlink_advance h.orderly hnode name (hrel ino hino))) hcall

theorem AllPlain.releases (h : AllPlain (vol L s.fs)) (op : NodeOp) : op.Releases L s := by
  cases op with
  | unlink node name => exact fun _ _ _ _ e _ _ hused => h _ hused
  | _ => trivial

/-- A volume with no directory but the root. -/
theorem Image.sessionInv {I : Image} [I.Ok] (hs : I.Sound) {rs : List Record}
    (hd : Directory I.layout I.disk 2 [rs])
    (honly : ∀ x < I.inodesPerGroup + 1, 1 ≤ x → I.inodeUsed x = true →
      IsDir (I.inode x) → x = 2)
    (hents : ∀ e ∈ entries rs, (1 ≤ e.2.1 ∧ e.2.1 ≤ I.inodesPerGroup) ∧ I.inodeUsed e.2.1 = true)
    (htwo : I.Holds 2) : Session.Inv I.layout I.metaBlocks ⟨I.fs, [2]⟩ := by
  have hnode : ∀ x, 1 ≤ x ∧ x ≤ I.inodesPerGroup → I.inodeUsed x = true →
      IsNode I.layout I.disk x := by
    intro x hx hu
    have hin := (Image.hasInode_iff x).mpr hx
    exact ⟨hin, .inl (by rw [Image.vol_inodeUsed hin, hu])⟩
  refine ⟨⟨Image.mounted, Image.own hs, fun x hx hmode => ?_⟩, fun x hx => ?_⟩
  · obtain rfl : x = 2 := Image.forall_used (P := fun x raw =>
      IsDir raw → x = 2) honly x hx hmode
    refine ⟨[rs], hd, fun e he => ?_⟩
    rw [dirEntries, flatMap_singleton] at he
    obtain ⟨hin, hu⟩ := hents e he
    exact hnode _ hin hu
  · rw [mem_singleton.mp hx]
    exact hnode 2 htwo.1 htwo.2.1

theorem emptyImage.sessionInv :
    Session.Inv emptyImage.layout emptyImage.metaBlocks ⟨emptyImage.fs, [2]⟩ :=
  Image.sessionInv emptyImage.sound emptyImage.directory (by decide +kernel)
    (by decide +kernel) (by decide +kernel)

/-! ### No block is lost -/

/-- The bitmaps say what files have, no block is in two places, and the inodes count their
blocks. -/
structure Accounted (L : Layout) (M : Set Nat) (V : Volume) : Prop where
  used_iff : ∀ b, L.InRange b →
    (V.used b = true ↔ b ∈ M ∨ b ∈ Forest.reached L.shape (forest V) Set.univ)
  inj : ∀ τ τ', L.shape.Valid τ → L.shape.Valid τ' → (forest V).blockAt τ ≠ 0 →
    (forest V).blockAt τ = (forest V).blockAt τ' → τ = τ'
  iBlocks : ∀ ino, V.inodeUsed ino = true →
    leAt 4 (V.inode ino) 28 = (blocksOf L V ino).ncard * L.sectorsPerBlock

theorem Accounted.of_own {V : Volume} (ho : Own L M V)
    (hused : ∀ b, V.used b = true → b ∈ M ∨ b ∈ Forest.reached L.shape (forest V) Set.univ)
    (hcount : ∀ ino, V.inodeUsed ino = true →
      leAt 4 (V.inode ino) 28 = (blocksOf L V ino).ncard * L.sectorsPerBlock) :
    Accounted L M V := by
  refine ⟨fun b hb => ⟨hused b, ?_⟩, ho.owned.inj, hcount⟩
  rintro (hm | ⟨hz, τ, hτ, -, rfl⟩)
  · exact ho.metaUsed b hm hb
  · exact (ho.owned.taken τ hτ hz).2.2

/-- The inode of a file or a directory, or one that holds nothing. -/
def FileOrDir (raw : Bytes) : Prop :=
  modeFormat (leAt 2 raw 0) = sIfReg ∨ modeFormat (leAt 2 raw 0) = sIfDir ∨
    ∀ n < 15, pointer raw n = 0

instance (raw : Bytes) : Decidable (FileOrDir raw) := inferInstanceAs (Decidable (_ ∨ _))

theorem AllPlain.of_fileOrDir {V : Volume} (h : ∀ x, V.inodeUsed x = true → FileOrDir (V.inode x)) :
    AllPlain V := by
  intro x hx
  rcases h x hx with hreg | hdir | hz
  · exact .inl ⟨hx, .inl hreg⟩
  · exact .inl ⟨hx, .inr (.inl hdir)⟩
  · exact .inr fun n hn => hz n (by omega)

/-- **Blocks are accounted for.** On a volume of files and directories without
triple-indirect blocks, after any operations that return and do not write at a negative
offset. -/
theorem blocks_accounted (hL : L.Ok) (h : s.Inv L M) (hexact : Exact L M (vol L s.fs))
    (hkinds : ∀ x, (vol L s.fs).inodeUsed x = true → FileOrDir ((vol L s.fs).inode x))
    {ops : List NodeOp} (hops : ∀ op ∈ ops, op.NonNeg) (hrun : exec Session.step s ops = some s') :
    Accounted L M (vol L s'.fs) := by
  have hinv : s'.Inv L M ∧ Exact L M (vol L s'.fs) ∧ AllPlain (vol L s'.fs) := by
    refine guarded_invariant
      (fun t : Session => t.Inv L M ∧ Exact L M (vol L t.fs) ∧ AllPlain (vol L t.fs)) ?_
      ⟨h, hexact, .of_fileOrDir hkinds⟩ (Guarded.of_forall hops) hrun
    rintro t op t' ⟨ht, he, hp⟩ hop hstep
    obtain ⟨ht', hadv⟩ := ht.step hop (hp.releases op) hstep
    exact ⟨ht', hadv.exact he, hadv.plain hp⟩
  exact .of_own hinv.1.orderly.own hinv.2.1.used hinv.2.1.iBlocks

/-- A file comes, is written, is cut and goes. -/
theorem blocks_accounted_file : ∃ s', exec Session.step ⟨emptyImage.fs, [2]⟩
      [.create 0 "a" .file, .write 1 0 [1, 2, 3], .truncate 1 1, .unlink 0 "a"] = some s' ∧
    Accounted emptyImage.layout emptyImage.metaBlocks (vol emptyImage.layout s'.fs) := by
  have hrun : (exec Session.step ⟨emptyImage.fs, [2]⟩ [.create 0 "a" .file, .write 1 0 [1, 2, 3],
      .truncate 1 1, .unlink 0 "a"]).isSome := by
    decide +kernel
  obtain ⟨s', hs'⟩ := isSome_iff_exists.mp hrun
  exact ⟨s', hs', blocks_accounted inferInstance emptyImage.sessionInv
    emptyImage.exact (Image.forall_used (by decide +kernel)) (by decide) hs'⟩

/-- A file that is nothing but a hole, with a triple-indirect block. -/
def sparseImage : Image :=
  entryImage (inodeBytes 0x81a4 67383297 1 2 fun n => if n = 14 then 8 else 0) 1

/-- Of the first 16 inodes, those in use have the block `b` and no other. -/
def Volume.OnlyBlock (V : Volume) (b : Nat) : Prop :=
  ∀ x < 17, ∀ n < 15, V.Holds x → pointer (V.inode x) n = if n = 0 then b else 0

instance (V : Volume) (b : Nat) : Decidable (V.OnlyBlock b) :=
  inferInstanceAs (Decidable (∀ x < 17, _))

/-- **The triple-indirect block is lost** when the file is unlinked. -/
theorem unlink_loses_tripleIndirect :
    Session.Inv sparseImage.layout sparseImage.metaBlocks ⟨sparseImage.fs, [2]⟩ ∧
      (∀ x, (vol sparseImage.layout sparseImage.fs).inodeUsed x = true →
        FileOrDir ((vol sparseImage.layout sparseImage.fs).inode x)) ∧
      Accounted sparseImage.layout sparseImage.metaBlocks (vol sparseImage.layout sparseImage.fs) ∧
      ∃ s', exec Session.step ⟨sparseImage.fs, [2]⟩ [.unlink 0 "f"] = some s' ∧
        ¬ Accounted sparseImage.layout sparseImage.metaBlocks (vol sparseImage.layout s'.fs) := by
  have hok : sparseImage.Ok := entryImage.ok length_inodeBytes
  have hs : sparseImage.Sound :=
    ⟨by decide +kernel, by decide +kernel, by decide +kernel, by decide +kernel⟩
  have ht : sparseImage.Tight := ⟨by decide +kernel, by decide +kernel⟩
  have hd : Directory sparseImage.layout sparseImage.disk 2 [entryRecords] :=
    Image.directory hs (show (2, 0, 7) ∈ _ by decide +kernel) (by decide +kernel)
      (by decide +kernel) rfl
  have hacc : Accounted sparseImage.layout sparseImage.metaBlocks
      sparseImage.disk := by
    refine .of_own (Image.own hs) (fun b => Image.exact_used ht)
      (fun x => Image.exact_iBlocks hs ht)
  have hrun : (exec Session.step ⟨sparseImage.fs, [2]⟩ [.unlink 0 "f"]).map (fun s' : Session =>
      (vol sparseImage.layout s'.fs).used 8 && decide
        ((vol sparseImage.layout s'.fs).OnlyBlock 7)) =
      true := by
    decide +kernel
  obtain ⟨s', hs', hleft⟩ := map_eq_some_iff.mp hrun
  obtain ⟨hused, honly⟩ := Bool.and_eq_true_iff.mp hleft
  have honly := of_decide_eq_true honly
  refine ⟨Image.sessionInv hs hd (by decide +kernel) (by decide +kernel) (by decide +kernel),
    Image.forall_used (by decide +kernel), hacc, s', hs', fun hacc' => ?_⟩
  -- the block 8 is in use, and the only pointer left leads to the block 7
  have hlt : ∀ x, (vol sparseImage.layout s'.fs).Holds x → x < 17 := fun x hx =>
    Nat.lt_succ_of_le ((Image.hasInode_iff x).mp (hasInode_of_used hx.1)).2
  rcases (hacc'.used_iff 8 (by decide)).mp hused with hmeta | ⟨hz, τ, hτ, -, hblock⟩
  · have hlow : ¬ 8 < sparseImage.firstDataBlock + 4 + sparseImage.tableBlocks := by decide +kernel
    exact hlow hmeta
  · obtain ⟨-, hx, hn, heq⟩ := slot_root (fun x n hx h12 hn hne => by
      rw [honly x (hlt x hx) n hn hx, if_neg (by omega)] at hne
      exact absurd rfl hne) hτ (hblock ▸ hz)
    rw [hblock, honly _ (hlt _ hx) _ hn hx] at heq
    split at heq <;> exact absurd heq (by decide)

/-! ### Everything is on the device -/

/-- **Mounting again** after any operations that return, do not write at a negative offset,
and unlink only files, directories and what has no blocks. `Mounted` says of both drivers, the
one before and the new one, that a block they hold in the cache is the block on the device; so
both see the same files. -/
theorem remount_after_session (hL : L.Ok) (h : s.Inv L M) (hsync : Synced L s.fs)
    {ops : List NodeOp}
    (hops : Guarded Session.step (fun t op => op.NonNeg ∧ op.Releases L t) s ops)
    (hrun : exec Session.step s ops = some s') :
    Mounted L s'.fs ∧ ∃ fs, mount.run s'.fs.unmounted = (.ok (), fs) ∧ Mounted L fs ∧
      fs.sb = s'.fs.sb ∧ fs.bgdt = s'.fs.bgdt ∧ vol L fs = vol L s'.fs := by
  have hinv : s'.Inv L M ∧ Synced L s'.fs := by
    refine guarded_invariant (fun t : Session => t.Inv L M ∧ Synced L t.fs) ?_ ⟨h, hsync⟩ hops hrun
    rintro t op t' ⟨ht, hs⟩ ⟨hop, hrel⟩ hstep
    obtain ⟨ht', hadv⟩ := ht.step hop hrel hstep
    exact ⟨ht', hadv.synced hs⟩
  obtain ⟨fs, hmount, hm, -, hsb, hbgdt, hvol⟩ := remount_eq hinv.1.orderly.mounted hinv.2
  exact ⟨hinv.1.orderly.mounted, fs, hmount, hm, hsb, hbgdt, hvol⟩

/-- A file is written, and another one goes. -/
theorem remount_after_session_files :
    ∃ s', exec Session.step ⟨emptyImage.fs, [2]⟩ [.create 0 "a" .file, .write 1 0 [1, 2, 3],
        .create 0 "b" .dir, .unlink 0 "b"] = some s' ∧
      Mounted emptyImage.layout s'.fs ∧ ∃ fs, mount.run s'.fs.unmounted = (.ok (), fs) ∧
        Mounted emptyImage.layout fs ∧ fs.sb = s'.fs.sb ∧ fs.bgdt = s'.fs.bgdt ∧
        vol emptyImage.layout fs = vol emptyImage.layout s'.fs := by
  have hrun : (exec Session.step ⟨emptyImage.fs, [2]⟩ [.create 0 "a" .file, .write 1 0 [1, 2, 3],
      .create 0 "b" .dir, .unlink 0 "b"]).isSome := by
    decide +kernel
  obtain ⟨s', hs'⟩ := isSome_iff_exists.mp hrun
  refine ⟨s', hs', remount_after_session inferInstance emptyImage.sessionInv
    emptyImage.synced ?_ hs'⟩
  refine Guarded.of_invariant
    (fun t : Session => t.Inv emptyImage.layout emptyImage.metaBlocks ∧
      AllPlain (vol emptyImage.layout t.fs)) ?_ (fun t op ht hop => ⟨hop, ht.2.releases op⟩)
    ⟨emptyImage.sessionInv, .of_fileOrDir (Image.forall_used (by decide +kernel))⟩
    (by decide)
  rintro t op t' ⟨ht, hp⟩ hop hstep
  obtain ⟨ht', hadv⟩ := ht.step hop (hp.releases op) hstep
  exact ⟨ht', hadv.plain hp⟩

/-- **A write before the start of a file** changes the descriptors of the groups on the
device only: block −3 of a file is its `i_blocks`. -/
theorem write_negative_not_remounted :
    ∃ s', exec Session.step ⟨emptyImage.fs, [2]⟩ [.create 0 "a" .file, .write 1 0 [1],
        .write 1 (-3060) [0, 0]] = some s' ∧
      (mount.run s'.fs.unmounted).1 = .ok () ∧
      (mount.run s'.fs.unmounted).2.bgdt ≠ s'.fs.bgdt := by
  have hrun : (exec Session.step ⟨emptyImage.fs, [2]⟩ [.create 0 "a" .file, .write 1 0 [1],
      .write 1 (-3060) [0, 0]]).map (fun s' : Session =>
        decide ((mount.run s'.fs.unmounted).1 = .ok () ∧
          (mount.run s'.fs.unmounted).2.bgdt ≠ s'.fs.bgdt)) = true := by
    decide +kernel
  obtain ⟨s', hs', hleft⟩ := map_eq_some_iff.mp hrun
  exact ⟨s', hs', of_decide_eq_true hleft⟩

end

end PythonOS.Ext2
