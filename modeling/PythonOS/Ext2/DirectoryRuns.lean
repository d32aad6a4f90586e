import PythonOS.Ext2.Image
import PythonOS.Lib.Runs

/-!
# PythonOS.Ext2.DirectoryRuns

Runs of additions and removals on one directory, next to the map from names to
inodes and types that the directory stands for.

`directory_refines_map` holds as long as the directory stays below 4 GiB. At 4 GiB
the size that is stored is 0: see `PythonOS.Ext2.DirectoryWrap`.
-/

namespace PythonOS.Ext2

open Lib Function List Option

inductive DirOp
  | add (name : String) (child : UInt32) (fileType : UInt8)
  | remove (name : String)

/-- What a directory stands for: the inode and the type of a name. -/
abbrev NameMap := Bytes → Option (Nat × Nat)

/-- The driver, and the map of one of its directories. -/
structure DirRun where
  fs : Ext2FS
  names : NameMap

/-- One operation on the directory `dir`. Names are added once, for an inode; an
operation that raises is not an operation on the map. -/
def dirStep (dir : Nat) (s : DirRun) : DirOp → Option DirRun
  | .add name child fileType =>
    if child = 0 ∨ (s.names (Utf8.encode name)).isSome then none
    else match (addDirEntry dir name child.toNat fileType.toNat).run s.fs with
      | (.ok _, fs) => some ⟨fs, update s.names (Utf8.encode name)
          (some (child.toNat, fileType.toNat))⟩
      | (.error _, fs) => some ⟨fs, s.names⟩
  | .remove name =>
    match (removeDirEntry dir name).run s.fs with
      | (.ok _, fs) => some ⟨fs, update s.names (Utf8.encode name) none⟩
      | (.error _, fs) => some ⟨fs, s.names⟩

/-- The entries are those of the map, each of them once. -/
structure Lists (es : List RawEntry) (names : NameMap) : Prop where
  nodup : (es.map Prod.fst).Nodup
  mem_iff : ∀ e, e ∈ es ↔ names e.1 = some e.2

namespace Lists

variable {es es' : List RawEntry} {names : NameMap}

theorem perm (h : Lists es names) (hp : es'.Perm es) : Lists es' names :=
  ⟨(hp.map _).nodup_iff.mpr h.nodup, fun e => hp.mem_iff.trans (h.mem_iff e)⟩

/-- An entry with a new name. -/
theorem insert (h : Lists es names) {e : RawEntry} (hnew : names e.1 = none) :
    Lists (e :: es) (update names e.1 (some e.2)) := by
  have hname : ∀ x ∈ es, x.1 ≠ e.1 := by
    intro x hx heq
    have := (h.mem_iff x).mp hx
    rw [heq, hnew] at this
    cases this
  refine ⟨?_, fun x => ?_⟩
  · rw [map_cons, nodup_cons]
    refine ⟨fun hmem => ?_, h.nodup⟩
    obtain ⟨x, hx, heq⟩ := mem_map.mp hmem
    exact hname x hx heq
  · rw [mem_cons]
    by_cases hx : x.1 = e.1
    · rw [hx, update_self]
      constructor
      · rintro (rfl | hmem)
        · rfl
        · exact absurd hx (hname x hmem)
      · intro heq
        exact .inl (Prod.ext hx (Option.some.inj heq).symm)
    · rw [update_of_ne hx, ← h.mem_iff]
      refine ⟨fun hmem => hmem.resolve_left fun heq => hx (by rw [heq]), .inr⟩

/-- The entry of a name is taken away. -/
theorem erase {e : RawEntry} (h : Lists (e :: es) names) :
    names e.1 = some e.2 ∧ Lists es (update names e.1 none) := by
  have hnodup := h.nodup
  rw [map_cons, nodup_cons] at hnodup
  refine ⟨(h.mem_iff e).mp (mem_cons_self ..), hnodup.2, fun x => ?_⟩
  by_cases hx : x.1 = e.1
  · rw [hx, update_self]
    refine ⟨fun hmem => absurd (mem_map.mpr ⟨x, hmem, hx⟩) hnodup.1, fun hc => ?_⟩
    cases hc
  · rw [update_of_ne hx, ← h.mem_iff, mem_cons]
    exact ⟨.inr, fun hmem => hmem.resolve_left fun heq => hx (by rw [heq])⟩

/-- A name that no entry has. -/
theorem eq_none (h : Lists es names) {n : Bytes} (hn : ∀ e ∈ es, e.1 ≠ n) : names n = none := by
  by_contra hc
  obtain ⟨t, ht⟩ := ne_none_iff_exists'.mp hc
  exact hn (n, t) ((h.mem_iff (n, t)).mpr ht) rfl

end Lists

/-- The map that entries make. -/
def nameMap (es : List RawEntry) : NameMap := fun n => (es.find? fun e => e.1 = n).map Prod.snd

/-- Entries with different names are those of their map. -/
theorem lists_nameMap {es : List RawEntry} (h : (es.map Prod.fst).Nodup) :
    Lists es (nameMap es) := by
  unfold nameMap
  refine ⟨h, fun e => ⟨fun he => ?_, fun he => ?_⟩⟩
  · cases hfind : es.find? fun x => x.1 = e.1 with
    | none => exact absurd (decide_eq_true rfl) (find?_eq_none.mp hfind e he)
    | some x =>
      have hx := find?_some hfind
      rw [map_some, inj_on_of_nodup_map h (mem_of_find?_eq_some hfind) he (of_decide_eq_true hx)]
  · obtain ⟨x, hfind, hx⟩ := map_eq_some_iff.mp he
    have hname := find?_some hfind
    simp only [decide_eq_true_eq] at hname
    have hmem := mem_of_find?_eq_some hfind
    rwa [show x = e from Prod.ext hname hx] at hmem

/-- **The invariant of a run**: `dir` is a directory of a volume in order, and the
map is what it lists. -/
def DirInv (L : Layout) (M : Set Nat) (dir : Nat) (s : DirRun) : Prop :=
  Live L M s.fs dir ∧ ∃ D, Directory L (vol L s.fs) dir D ∧ Lists (dirEntries D) s.names

/-- An addition that may append a block keeps the directory below 4 GiB. -/
def Below (L : Layout) (dir : Nat) (s : DirRun) : DirOp → Prop
  | .add _ _ _ => sizeOf ((vol L s.fs).inode dir) + L.blockSize < 2 ^ 32
  | .remove _ => True

/-- The records of a block fill it, and each of them has room for its name. -/
def Tiles (L : Layout) (rs : List Record) : Prop :=
  (∀ r ∈ rs, 0 < r.recLen ∧ 4 ∣ r.recLen ∧ 8 + r.name.length ≤ r.recLen) ∧
    (rs.map Record.recLen).sum = L.blockSize

section

variable {L : Layout} {M : Set Nat} {dir : Nat} {s s' : DirRun}

theorem sum_recLen (rs : List Record) : (rs.map Record.recLen).sum = (encodeAll rs).length := by
  induction rs with
  | nil => rfl
  | cons r rs ih =>
    rw [map_cons, sum_cons, ih, encodeAll_cons, length_append, r.length_encode]

theorem Tiled.tiles {V : Volume} {fb : Nat} {D : List (List Record)} (h : Tiled L V dir fb D)
    (hlen : ∀ k, fb ≤ k → k < fb + D.length →
      (leafData L V (L.fileSlot dir k)).length = L.blockSize) :
    ∀ rs ∈ D, Tiles L rs := by
  induction D generalizing fb with
  | nil => simp
  | cons rs D ih =>
    rw [length_cons] at hlen
    refine forall_mem_cons.mpr ⟨⟨fun r _ => ⟨?_, r.aligned, Nat.le_add_right _ _⟩, ?_⟩,
      ih h.2 fun k hk hk' => hlen k (by omega) (by omega)⟩
    · unfold Record.recLen
      omega
    · rw [sum_recLen, ← h.1, hlen fb (Nat.le_refl _) (by omega)]

/-- **One operation.** -/
theorem DirInv.step [L.Ok] (h : DirInv L M dir s) {op : DirOp} (hop : Below L dir s op)
    (hstep : dirStep dir s op = some s') : DirInv L M dir s' := by
  obtain ⟨hlive, D, hD, hlists⟩ := h
  cases op with
  | add name child fileType =>
    simp only [dirStep] at hstep
    split at hstep
    · cases hstep
    next hnew =>
    simp only [not_or, not_isSome_iff_eq_none] at hnew
    have hchild : child.toNat ≠ 0 := fun hz => hnew.1 (UInt32.toNat_inj.mp hz)
    have hspec := @addDirEntry_wp L M s.fs dir D hlive hD _ name _ _ hchild
      (by simpa using child.toNat_lt) (by simpa using fileType.toNat_lt)
    split at hstep
    · next fs hrun =>
      obtain ⟨-, hlive', -, -, D', hD', -, hperm | ⟨-, hbig, -⟩⟩ := Coro.wp_of_run hspec hrun
      · cases hstep
        exact ⟨hlive', D', hD', (hlists.insert hnew.2).perm hperm⟩
      · -- there is no such directory below 4 GiB
        have hsize : D.length * L.blockSize + L.blockSize < 2 ^ 32 := hD.size ▸ hop
        rw [Nat.succ_mul] at hbig
        omega
    · next fs hrun =>
      have hk := (Coro.wp_of_run_error hspec hrun).1
      cases hstep
      exact ⟨hk.live hlive, D, hk.directory hD, hlists⟩
  | remove name =>
    have hspec := removeDirEntry_wp hlive hD name
    simp only [dirStep] at hstep
    split at hstep
    · next t fs hrun =>
      obtain ⟨hlive', -, -, -, D', hD', hperm⟩ := Coro.wp_of_run hspec hrun
      cases hstep
      exact ⟨hlive', D', hD', (hlists.perm hperm.symm).erase.2⟩
    · next fs hrun =>
      have hk := (Coro.wp_of_run_error hspec hrun).1.kept hlive.own
      cases hstep
      exact ⟨hk.live hlive, D, hk.directory hD, hlists⟩

/-- **A directory is the map of its names.** Its blocks are tiled by their records, it
lists the entries of the map, and a name of the map can be removed. -/
theorem directory_refines_map (hL : L.Ok) (h : DirInv L M dir s) {ops : List DirOp}
    (hbelow : Guarded (dirStep dir) (Below L dir) s ops)
    (hrun : exec (dirStep dir) s ops = some s') :
    ∃ D, Directory L (vol L s'.fs) dir D ∧ (∀ rs ∈ D, Tiles L rs) ∧ Lists (dirEntries D) s'.names ∧
      (∃ fs, (readDirEntries dir).run s'.fs = (.ok ((dirEntries D).map RawEntry.listed), fs)) ∧
      ∀ name t, s'.names (Utf8.encode name) = some t → L.blockSize < 2 ^ 16 →
        ∃ fs, (removeDirEntry dir name).run s'.fs = (.ok t, fs) := by
  obtain ⟨hlive, D, hD, hlists⟩ := guarded_invariant (DirInv L M dir)
    (fun _ _ _ hi hc hs => hi.step hc hs) h hbelow hrun
  have hle := hD.le
  refine ⟨D, hD, hD.tiled.tiles fun k _ hk => ?_, hlists, ?_, fun name t ht hsmall => ?_⟩
  · have hlen := hlive.ready.length_leafData (@Layout.leaf_fileSlot L dir k (by omega))
    rwa [work_self] at hlen
  · obtain ⟨es, fs, hread, rfl, -⟩ := Coro.returns_run (readDirEntries_wp hlive hD)
    exact ⟨fs, hread⟩
  · have hspec := removeDirEntry_wp hlive hD name
    unfold Coro.wp at hspec
    generalize (removeDirEntry dir name).run s'.fs = res at hspec
    obtain ⟨r, fs⟩ := res
    cases r with
    | error e =>
      rcases hspec.2 with ⟨-, hnone⟩ | hbig
      · exact absurd rfl (hnone (Utf8.encode name, t) ((hlists.mem_iff _).mpr ht))
      · omega
    | ok t' =>
      obtain ⟨-, -, -, -, D', -, hperm⟩ := hspec
      have ht' := (hlists.perm hperm.symm).erase.1
      rw [ht] at ht'
      exact ⟨fs, by rw [Option.some.inj ht']⟩

end

/-- The root of the empty volume, with a file. -/
theorem directory_refines_map_file : ∃ s' : DirRun,
    exec (dirStep 2) ⟨emptyImage.fs, nameMap (dirEntries [rootRecords])⟩ [.add "f" 11 1] = some s' ∧
      s'.names [102] = some (11, 1) ∧
      ∃ D, Directory emptyImage.layout (vol emptyImage.layout s'.fs) 2 D ∧
        (∀ rs ∈ D, Tiles emptyImage.layout rs) ∧ Lists (dirEntries D) s'.names := by
  have hrun : (exec (dirStep 2) ⟨emptyImage.fs, nameMap (dirEntries [rootRecords])⟩
      [.add "f" 11 1]).map (fun s' : DirRun => s'.names [102]) = some (some (11, 1)) := by
    decide +kernel
  have hsize : sizeOf (emptyImage.disk.inode 2) +
      emptyImage.layout.blockSize < 2 ^ 32 := by
    decide
  obtain ⟨s', hexec, hname⟩ := map_eq_some_iff.mp hrun
  have hinv : DirInv emptyImage.layout emptyImage.metaBlocks 2
      ⟨emptyImage.fs, nameMap (dirEntries [rootRecords])⟩ :=
    ⟨emptyImage.live, _, emptyImage.directory, lists_nameMap (by decide)⟩
  have hbelow : Guarded (dirStep 2) (Below emptyImage.layout 2)
      ⟨emptyImage.fs, nameMap (dirEntries [rootRecords])⟩ [.add "f" 11 1] :=
    ⟨hsize, fun _ _ => trivial⟩
  obtain ⟨D, hD, htiles, hlists, -⟩ := directory_refines_map inferInstance hinv
    hbelow hexec
  exact ⟨s', hexec, hname, D, hD, htiles, hlists⟩

end PythonOS.Ext2
