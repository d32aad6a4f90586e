import Mathlib.Order.Interval.Finset.Nat
import PythonOS.Ext2.DirectoryRuns

/-!
# PythonOS.Ext2.DirectoryWrap

A directory that grows to 4 GiB. The size of a directory has 32 bits, so the block that
would make it 4 GiB large makes it empty.

A block has room for a limited number of names of 255 bytes. `addDirEntry_wraps` is about
any directory that has that many in every block and one block less than 4 GiB; `wrapImage`
is a volume with such a directory.
-/

namespace PythonOS.Ext2

open Lib Function List Lib.Bytes

/-- The number of entries whose name is as long as it can be. -/
def longNames (es : List RawEntry) : Nat := es.countP fun e => e.1.length = 255

section

variable {L : Layout} {M : Set Nat} {s : Ext2FS} {ino : Nat} {D : List (List Record)}

theorem longNames_entries_le (rs : List Record) :
    longNames (entries rs) * 264 ≤ (encodeAll rs).length := by
  induction rs with
  | nil => exact Nat.le_refl _
  | cons r rs ih =>
    have hlong : r.name.length = 255 → 264 ≤ r.recLen := by
      intro hname
      have haligned := r.aligned
      unfold Record.recLen
      omega
    rw [entries_cons, encodeAll_cons, length_append, r.length_encode]
    unfold longNames at ih ⊢
    split
    · exact Nat.le_trans ih (Nat.le_add_left _ _)
    · rw [countP_cons, Nat.add_mul, Nat.add_comm]
      refine Nat.add_le_add ?_ ih
      split
      · next hname => exact hlong (of_decide_eq_true hname)
      · rw [Nat.zero_mul]
        exact Nat.zero_le _

/-- A directory has room for a limited number of long names. -/
theorem Directory.longNames_le [L.Ok] (h : Live L M s ino) (hd : Directory L (vol L s) ino D) :
    longNames (dirEntries D) ≤ D.length * (L.blockSize / 264) := by
  have hle := hd.le
  have htiles := hd.tiled.tiles fun k _ hk => by
    have hlen := h.ready.length_leafData (@Layout.leaf_fileSlot L ino k (by omega))
    rwa [work_self] at hlen
  clear hd hle
  induction D with
  | nil => exact Nat.zero_le _
  | cons rs D ih =>
    have hblock := longNames_entries_le rs
    rw [← sum_recLen, (htiles rs (mem_cons_self ..)).2] at hblock
    have hrest := ih fun rs' hrs' => htiles rs' (mem_cons_of_mem _ hrs')
    have hfirst : longNames (entries rs) ≤ L.blockSize / 264 :=
      (Nat.le_div_iff_mul_le (by decide)).mpr hblock
    rw [length_cons, Nat.succ_mul]
    simp only [longNames, dirEntries, flatMap_cons, countP_append] at hrest hfirst ⊢
    omega

variable [L.Ok] {name : String}
  (hfull : longNames (dirEntries D) = D.length * (L.blockSize / 264))
  (hlast : (D.length + 1) * L.blockSize = 2 ^ 32) (hmax : D.length < L.maxBlocks)
  (hsmall : L.blockSize < 256 ^ 2) (hname : (Utf8.encode name).length = 255)

include hfull hlast hmax hsmall hname

/-- **A directory that is full and one block below 4 GiB** is empty after another name was
added. -/
theorem addDirEntry_wraps (h : Live L M s ino) (hd : Directory L (vol L s) ino D)
    (hroom : Room L 3 s ((vol L s).inode ino)) {child fileType : Nat}
    (hz : child ≠ 0) (hchild : child < 256 ^ 4) (htype : fileType < 256 ^ 1) :
    (addDirEntry ino name child fileType).returns
      (fun _ s' => Live L M s' ino ∧ Directory L (vol L s') ino []) s := by
  refine Coro.wp_mono (addDirEntry_wp h hd hz hchild htype) ?_ ?_
  · rintro - s' ⟨-, hlive, -, -, D', hD', -, hperm | ⟨rfl, -, -⟩⟩
    · -- there is no room for the new name in a directory below 4 GiB
      have hsize : D'.length * L.blockSize < 2 ^ 32 := by
        rw [← hD'.size, sizeOf, if_neg (by rw [hD'.mode]; decide), Nat.add_zero]
        exact leAt_lt (w := 4) _ _
      have hlen : D'.length ≤ D.length := by
        rw [← hlast] at hsize
        exact Nat.le_of_lt_succ (Nat.lt_of_mul_lt_mul_right hsize)
      have hcount : longNames (dirEntries D') = longNames (dirEntries D) + 1 := by
        unfold longNames
        rw [hperm.countP_eq, countP_cons_of_pos (by simp only [hname, decide_true])]
      have hroom' := hD'.longNames_le hlive
      have hmono := Nat.mul_le_mul_right (L.blockSize / 264) hlen
      omega
    · exact ⟨hlive, hD'⟩
  · rintro - s' ⟨-, hno⟩
    exact hno ⟨by omega, by omega⟩ hmax hsmall hroom

/-- The name that was added is not listed, nor is any other. -/
theorem dirStep_wraps {s : DirRun} (h : Live L M s.fs ino)
    (hd : Directory L (vol L s.fs) ino D) (hroom : Room L 3 s.fs ((vol L s.fs).inode ino))
    (hnew : s.names (Utf8.encode name) = none) (child : UInt32) (fileType : UInt8)
    (hz : child ≠ 0) :
    ∃ s', exec (dirStep ino) s [.add name child fileType] = some s' ∧
      s'.names (Utf8.encode name) = some (child.toNat, fileType.toNat) ∧
      (∃ fs, (readDirEntries ino).run s'.fs = (.ok [], fs)) ∧
      ¬ ∃ D, Directory L (vol L s'.fs) ino D ∧ Lists (dirEntries D) s'.names := by
  obtain ⟨u, fs, hrun, hlive, hdir⟩ := Coro.returns_run (addDirEntry_wraps hfull hlast hmax
    hsmall hname h hd hroom (fun hc => hz (UInt32.toNat_inj.mp hc)) (by simpa using child.toNat_lt)
    (by simpa using fileType.toNat_lt))
  refine ⟨⟨fs, update s.names (Utf8.encode name)
    (some (child.toNat, fileType.toNat))⟩, ?_, update_self .., ?_, ?_⟩
  · have hstep : dirStep ino s (.add name child fileType) = some ⟨fs, update s.names
        (Utf8.encode name) (some (child.toNat, fileType.toNat))⟩ := by
      simp only [dirStep, hnew, hrun, hz, Option.isSome_none, Bool.false_eq_true, or_self, if_false]
    rw [exec, hstep]
    rfl
  · obtain ⟨es, fs', hread, rfl, -⟩ := Coro.returns_run (readDirEntries_wp hlive hdir)
    exact ⟨fs', hread⟩
  · rintro ⟨D', hD', hl⟩
    have hsize := hD'.size.symm.trans hdir.size
    rw [length_nil, Nat.zero_mul] at hsize
    obtain rfl : D' = [] := length_eq_zero_iff.mp
      ((Nat.mul_eq_zero.mp hsize).resolve_right L.blockSize_pos.ne')
    have hmem := (hl.mem_iff (Utf8.encode name, child.toNat, fileType.toNat)).mpr
      (update_self ..)
    exact absurd hmem not_mem_nil

end

/-! ### A volume with such a directory -/

/-- A name of 255 letters, different for every `i` below `16 ^ 6`. -/
def wrapName (i : Nat) : Bytes :=
  ((range 6).map fun d => UInt8.ofNat (97 + i / 16 ^ d % 16)) ++ replicate 249 113

theorem length_wrapName (i : Nat) : (wrapName i).length = 255 := by
  rw [wrapName, length_append, length_map, length_range, length_replicate]

theorem wrapIno_lt : 11 < 256 ^ 4 := by decide

/-- A record of 264 bytes and four times `x` more. -/
def wrapRecord (i : Nat) (x : Fin 9) : Record :=
  .fresh 11 1 (wrapName i) (264 + 4 * x) wrapIno_lt (by decide)
    (by rw [length_wrapName]; decide) (by rw [length_wrapName]; omega) (by omega) (by omega)

theorem recLen_wrapRecord (i : Nat) (x : Fin 9) : (wrapRecord i x).recLen = 264 + 4 * x := by
  unfold Record.recLen wrapRecord Record.fresh
  rw [length_zeros, length_wrapName]
  omega

/-- `.` and `..` of the root. -/
def wrapDots : List Record := entryRecords.take 2

/-- The records of block `k`: 124 names, and in the first block `.` and `..`. -/
def wrapBlock (k : Nat) : List Record :=
  (if k = 0 then wrapDots else []) ++
    ((range 123).map (fun j => wrapRecord (k * 124 + j) 0) ++
      [wrapRecord (k * 124 + 123) (if k = 0 then 2 else 8)])

theorem length_wrapBlock (k : Nat) : (encodeAll (wrapBlock k)).length = 32768 := by
  have hrow : (encodeAll ((range 123).map fun j => wrapRecord (k * 124 + j) 0)).length =
      123 * 264 := by
    rw [← sum_recLen, map_map]
    have hconst : (Record.recLen ∘ fun j => wrapRecord (k * 124 + j) 0) = fun _ => 264 :=
      funext fun j => recLen_wrapRecord _ _
    rw [hconst, map_const', sum_replicate_nat, length_range]
  have hdots : (encodeAll wrapDots).length = 24 := by decide
  rw [wrapBlock, encodeAll_append, encodeAll_append, length_append, length_append, hrow,
    encodeAll_cons, encodeAll_nil, append_nil, Record.length_encode, recLen_wrapRecord]
  by_cases hk : k = 0
  · rw [if_pos hk, if_pos hk, hdots]
    rfl
  · rw [if_neg hk, if_neg hk]
    rfl

/-- The names of block `k`. -/
theorem names_wrapBlock (k : Nat) : (entries (wrapBlock k)).map Prod.fst =
    (if k = 0 then [[46], [46, 46]] else []) ++
      (range 124).map fun j => wrapName (k * 124 + j) := by
  have hrow : ∀ n x, (entries ((range n).map fun j => wrapRecord (k * 124 + j) x)).map
      Prod.fst = (range n).map fun j => wrapName (k * 124 + j) := by
    intro n x
    have hall : ((range n).map fun j => wrapRecord (k * 124 + j) x).filter (·.ino ≠ 0) =
        (range n).map fun j => wrapRecord (k * 124 + j) x :=
      filter_eq_self.mpr fun r hr => by
        obtain ⟨j, -, rfl⟩ := mem_map.mp hr
        rfl
    rw [entries, hall, map_map, map_map]
    rfl
  have hlast : ∀ x, (entries [wrapRecord (k * 124 + 123) x]).map Prod.fst =
      [wrapName (k * 124 + 123)] := fun _ => rfl
  have hdots : (entries (if k = 0 then wrapDots else [])).map Prod.fst =
      if k = 0 then [[46], [46, 46]] else [] := by
    split <;> rfl
  rw [wrapBlock, entries_append, entries_append, map_append, map_append, hdots, hrow,
    hlast, range_succ, map_append]
  rfl

theorem longNames_wrapBlock (k : Nat) : longNames (entries (wrapBlock k)) = 124 := by
  have hmap : longNames (entries (wrapBlock k)) =
      ((entries (wrapBlock k)).map Prod.fst).countP fun n => n.length = 255 := by
    rw [countP_map]
    rfl
  have hrow : ((range 124).map fun j => wrapName (k * 124 + j)).countP
      (fun n => n.length = 255) = 124 := by
    rw [countP_eq_length.mpr]
    · simp
    · intro n hn
      obtain ⟨j, -, rfl⟩ := mem_map.mp hn
      exact decide_eq_true (length_wrapName _)
  rw [hmap, names_wrapBlock, countP_append, hrow]
  split <;> rfl

theorem wrapName_inj {i j : Nat} (hi : i < 16 ^ 6) (hj : j < 16 ^ 6) (h : wrapName i = wrapName j) :
    i = j := by
  have hdigits := append_inj_left h (by simp)
  have hdigit : ∀ d, d < 6 → i / 16 ^ d % 16 = j / 16 ^ d % 16 := by
    intro d hd
    have hget := congrArg (fun l => l[d]?) hdigits
    simp only [getElem?_map, getElem?_range hd, Option.map_some, Option.some.injEq] at hget
    have hnat := congrArg UInt8.toNat hget
    simp only [UInt8.toNat_ofNat'] at hnat
    omega
  have h0 := hdigit 0 (by decide)
  have h1 := hdigit 1 (by decide)
  have h2 := hdigit 2 (by decide)
  have h3 := hdigit 3 (by decide)
  have h4 := hdigit 4 (by decide)
  have h5 := hdigit 5 (by decide)
  simp only [Nat.reducePow] at h0 h1 h2 h3 h4 h5 hi hj
  omega

/-- One block less than 4 GiB. It is not to be computed with. -/
@[irreducible] def wrapCount : Nat := 131071

/-- The records of the directory. -/
def wrapDir : List (List Record) := (range wrapCount).map wrapBlock

theorem length_wrapDir : wrapDir.length = wrapCount := by
  rw [wrapDir, length_map, length_range]

theorem longNames_wrapDir : longNames (dirEntries wrapDir) = wrapCount * 124 := by
  have hcount : ∀ n, longNames (dirEntries ((range n).map wrapBlock)) = n * 124 := by
    intro n
    induction n with
    | zero => rfl
    | succ n ih =>
      have hblock := longNames_wrapBlock n
      unfold longNames at hblock
      unfold longNames dirEntries at ih ⊢
      rw [range_succ, map_append, flatMap_append, countP_append, ih,
        map_singleton, flatMap_singleton, hblock, Nat.succ_mul]
  exact hcount wrapCount

theorem mem_names_wrapBlock {k : Nat} {n : Bytes} (h : n ∈ (entries (wrapBlock k)).map Prod.fst) :
    (k = 0 ∧ n.length ≠ 255) ∨ ∃ j, j < 124 ∧ n = wrapName (k * 124 + j) := by
  rw [names_wrapBlock, mem_append] at h
  rcases h with h | h
  · split at h
    · next hk =>
      simp only [mem_cons, not_mem_nil, or_false] at h
      rcases h with rfl | rfl <;> exact .inl ⟨hk, by decide⟩
    · exact absurd h not_mem_nil
  · obtain ⟨j, hj, rfl⟩ := mem_map.mp h
    exact .inr ⟨j, mem_range.mp hj, rfl⟩

/-- Names are different if their blocks or their positions are. -/
theorem wrapName_inj_of_lt {k k' j j' : Nat} (hk : k < wrapCount) (hk' : k' < wrapCount)
    (hj : j < 124) (hj' : j' < 124) (h : wrapName (k * 124 + j) = wrapName (k' * 124 + j')) :
    k = k' ∧ j = j' := by
  unfold wrapCount at hk hk'
  have hinj := wrapName_inj (by omega) (by omega) h
  omega

theorem nodup_wrapDir : ((dirEntries wrapDir).map Prod.fst).Nodup := by
  rw [dirEntries, wrapDir, flatMap_map, map_flatMap, nodup_flatMap]
  constructor
  · intro k hk
    have hk := mem_range.mp hk
    rw [names_wrapBlock, nodup_append]
    refine ⟨by split <;> decide, ?_, fun a ha b hb hab => ?_⟩
    · refine List.Nodup.map_on (fun j hj j' hj' h => ?_) nodup_range
      exact (wrapName_inj_of_lt hk hk (mem_range.mp hj) (mem_range.mp hj') h).2
    · -- the names of the first part are short
      obtain ⟨j, -, rfl⟩ := mem_map.mp hb
      have hlen := congrArg List.length hab
      rw [length_wrapName] at hlen
      split at ha
      · simp only [mem_cons, not_mem_nil, or_false] at ha
        rcases ha with rfl | rfl <;> exact absurd hlen (by decide)
      · exact not_mem_nil ha
  · refine pairwise_lt_range.imp_of_mem fun {k k'} hk hk' hlt => ?_
    intro n hn hn'
    have hk := mem_range.mp hk
    have hk' := mem_range.mp hk'
    rcases mem_names_wrapBlock hn' with ⟨hz, -⟩ | ⟨j', hj', rfl⟩
    · omega
    · rcases mem_names_wrapBlock hn with ⟨-, hlen⟩ | ⟨j, hj, heq⟩
      · exact hlen (length_wrapName _)
      · exact absurd (wrapName_inj_of_lt hk' hk hj' hj heq).1 (by omega)

/-- The block numbers in an indirect block. -/
def pointerBlock (f : Nat → Nat) : Bytes := (range 8192).flatMap fun i => leBytes 4 (f i)

theorem length_pointerBlock (f : Nat → Nat) : (pointerBlock f).length = 32768 := by
  have hlen : ∀ n, ((range n).flatMap fun i => leBytes 4 (f i)).length = n * 4 := by
    intro n
    induction n with
    | zero => rfl
    | succ n ih => rw [range_succ, flatMap_append, length_append, ih,
        flatMap_singleton, length_leBytes, Nat.succ_mul]
  exact hlen 8192

theorem leAt_pointerBlock {f : Nat → Nat} {i : Nat} (hi : i < 8192) (hf : f i < 256 ^ 4) :
    leAt 4 (pointerBlock f) (i * 4) = f i := by
  rw [leAt, pointerBlock, slice_flatMap (fun _ _ => length_leBytes _ _) hi, leNat_leBytes_of_lt hf]

/-- The block of block `k` of the directory, and 0 past its end. -/
def wrapPlace (k : Nat) : Nat := if k < wrapCount then k + 22 else 0

/-- What the data blocks hold. -/
def wrapData (b : Nat) : Bytes :=
  if b = 5 then pointerBlock fun i => wrapPlace (i + 12)
  else if b = 6 then pointerBlock fun i => if i < 15 then i + 7 else 0
  else if b < 22 then pointerBlock fun i => wrapPlace ((b - 7) * 8192 + i + 8192 + 12)
  else if b < 131093 then encodeAll (wrapBlock (b - 22))
  else zeros 32768

/-- A volume of 131096 blocks of 32 KiB. The blocks 5, ..., 21 are the indirect blocks of
the root, the next ones are its data, and the last three are free. -/
def wrapImage : Image where
  logBlockSize := 5
  blocksCount := 131096
  inodesPerGroup := 16
  used b := b < 131093
  inodeUsed x := x ≤ 11
  inode x :=
    if x = 2 then
      inodeBytes 0x41ed 4294934528 2 8389632 fun n =>
        if n < 12 then n + 22 else if n = 12 then 5 else if n = 13 then 6 else 0
    else zeros 128
  data := wrapData
  freeBlocks := 3
  freeInodes := 5
  usedDirs := 1

namespace wrapImage

instance ok : wrapImage.Ok := by
  refine ⟨by decide, by decide, by decide, by decide, by decide, fun x => ?_, fun b => ?_⟩
  · show (if x = 2 then _ else _ : Bytes).length = 128
    split
    · exact length_inodeBytes
    · exact length_zeros _
  · show (wrapData b).length = 32768
    unfold wrapData
    split
    · exact length_pointerBlock _
    split
    · exact length_pointerBlock _
    split
    · exact length_pointerBlock _
    split
    · exact length_wrapBlock _
    · exact length_zeros _

theorem ptrsPerBlock_eq : wrapImage.layout.ptrsPerBlock = 8192 := rfl

theorem isData {b : Nat} (hlo : 5 ≤ b) (hhi : b < 131096) : wrapImage.layout.IsData b :=
  (Image.isData_iff b).mpr ⟨hlo, hhi⟩

theorem holds_iff (x : Nat) : wrapImage.disk.Holds x ↔ x = 2 := by
  rw [Image.holds_iff]
  constructor
  · rintro ⟨-, -, hkind⟩
    by_contra hx
    have hinode : wrapImage.inode x = zeros 128 := if_neg hx
    rw [hinode] at hkind
    exact absurd hkind (by decide)
  · rintro rfl
    decide +kernel

theorem inode_root : wrapImage.disk.inode 2 = wrapImage.inode 2 :=
  Image.vol_inode (by decide)

/-- The block in each slot. -/
def place (τ : Slot (Nat × Nat)) : Nat :=
  if τ.1.1 = 2 then
    match τ.2 with
    | [] => if τ.1.2 < 12 then τ.1.2 + 22 else if τ.1.2 = 12 then 5 else if τ.1.2 = 13 then 6 else 0
    | [i] => if τ.1.2 = 12 then wrapPlace (i + 12) else if τ.1.2 = 13 ∧ i < 15 then i + 7 else 0
    | [i, j] => if τ.1.2 = 13 then wrapPlace (i * 8192 + j + 8192 + 12) else 0
    | _ => 0
  else 0

theorem wrapPlace_lt (k : Nat) : wrapPlace k < 256 ^ 4 := by
  unfold wrapPlace wrapCount
  split
  · omega
  · decide

theorem root_eq (k : Nat × Nat) : (forest wrapImage.disk).root k = place (k, []) := by
  obtain ⟨x, n⟩ := k
  simp only [forest, holds_iff, place]
  by_cases hx : x = 2
  · subst hx
    by_cases hn : n < 15
    · rw [if_pos ⟨rfl, hn⟩, inode_root, if_pos rfl]
      show pointer (inodeBytes _ _ _ _ _) n = _
      rw [pointer_inodeBytes hn]
      split
      · omega
      · split
        · decide
        · split <;> decide
    · rw [if_neg fun hc => hn hc.2, if_pos rfl, if_neg (by omega), if_neg (by omega),
        if_neg (by omega)]
  · rw [if_neg fun hc => hx hc.1, if_neg hx]

theorem next_eq {b i : Nat} (hlo : 5 ≤ b) (hhi : b < 131096) :
    (forest wrapImage.disk).next b i = leAt 4 (wrapData b) (i * 4) := by
  rw [forest_next, Image.vol_data (isData hlo hhi)]
  rfl

theorem wrapData_indirect {i : Nat} (hi : i < 15) : wrapData (i + 7) =
    pointerBlock fun j => wrapPlace (i * 8192 + j + 8192 + 12) := by
  rw [wrapData, if_neg (by omega), if_neg (by omega), if_pos (by omega), Nat.add_sub_cancel]

theorem wrapData_leaf {k : Nat} (hk : k < wrapCount) :
    wrapData (k + 22) = encodeAll (wrapBlock k) := by
  unfold wrapCount at hk
  rw [wrapData, if_neg (by omega), if_neg (by omega), if_neg (by omega), if_pos (by omega),
    Nat.add_sub_cancel]

theorem blockAt_eq {τ : Slot (Nat × Nat)} (hτ : wrapImage.layout.shape.Valid τ) :
    (forest wrapImage.disk).blockAt τ = place τ := by
  refine Forest.blockAt_unique root_eq (fun τ i hchild => ?_) hτ
  obtain ⟨⟨x, n⟩, path⟩ := τ
  obtain ⟨⟨-, hpath⟩, hlen, hwidth⟩ := Shape.valid_child.mp hchild
  have hi : i < 8192 := hwidth
  have hlen : path.length < n - 11 := hlen
  unfold place Slot.child
  dsimp only
  by_cases hx : x = 2
  swap
  · rw [if_neg hx, if_neg hx, follow_zero]
  rw [if_pos hx, if_pos hx]
  match path, hlen, hpath with
  | [], hlen, _ =>
    rw [length_nil] at hlen
    simp only [nil_append]
    rw [if_neg (by omega)]
    by_cases h12 : n = 12
    · rw [if_pos h12, if_pos h12, follow_of_ne (by decide), next_eq (by decide) (by decide),
        wrapData, if_pos rfl]
      exact leAt_pointerBlock (f := fun i => wrapPlace (i + 12)) hi (wrapPlace_lt _)
    · rw [if_neg h12, if_neg h12]
      by_cases h13 : n = 13
      · rw [if_pos h13, follow_of_ne (by decide), next_eq (by decide) (by decide), wrapData,
          if_neg (by decide), if_pos rfl, leAt_pointerBlock hi (by split <;> omega)]
        simp only [h13, true_and]
      · rw [if_neg h13, if_neg fun hc => h13 hc.1, follow_zero]
  | [i0], hlen, hpath =>
    simp only [singleton_append]
    rw [length_singleton] at hlen
    rw [if_neg (by omega)]
    by_cases h13 : n = 13
    · rw [if_pos h13]
      by_cases hlt : i0 < 15
      · rw [if_pos ⟨h13, hlt⟩, follow_of_ne (by omega), next_eq (by omega) (by omega),
          wrapData_indirect hlt]
        exact leAt_pointerBlock (f := fun j => wrapPlace (i0 * 8192 + j + 8192 + 12)) hi
          (wrapPlace_lt _)
      · rw [if_neg fun hc => hlt hc.2, follow_zero, wrapPlace, if_neg]
        unfold wrapCount
        omega
    · rw [if_neg fun hc => h13 hc.1, if_neg h13, follow_zero]
  | [i0, i1], hlen, _ =>
    simp only [length_cons, length_nil] at hlen
    simp only [cons_append, nil_append]
    rw [if_neg (by omega), follow_zero]
  | _ :: _ :: _ :: _, _, _ => exact follow_zero _ _

/-- The slot of each block. -/
def slotOf (b : Nat) : Slot (Nat × Nat) :=
  if b = 5 then ((2, 12), [])
  else if b = 6 then ((2, 13), [])
  else if b < 22 then ((2, 13), [b - 7])
  else wrapImage.layout.fileSlot 2 (b - 22)

/-- A slot with a block: its block is in use, and in no other slot. -/
theorem place_cases {τ : Slot (Nat × Nat)} (hτ : wrapImage.layout.shape.Valid τ)
    (hz : place τ ≠ 0) : 5 ≤ place τ ∧ place τ < 131093 ∧ slotOf (place τ) = τ := by
  obtain ⟨⟨x, n⟩, path⟩ := τ
  obtain ⟨-, hpath⟩ := hτ
  unfold place at hz ⊢
  dsimp only at hz ⊢
  by_cases hx : x = 2
  swap
  · exact absurd (if_neg hx) hz
  subst hx
  rw [if_pos rfl] at hz ⊢
  have hwrap : ∀ {k}, wrapPlace k ≠ 0 → k < wrapCount ∧ wrapPlace k = k + 22 := by
    intro k hk
    unfold wrapPlace at hk ⊢
    by_cases hlt : k < wrapCount
    · exact ⟨hlt, if_pos hlt⟩
    · exact absurd (if_neg hlt) hk
  have hslot : ∀ k, slotOf (k + 22) = wrapImage.layout.fileSlot 2 k := by
    intro k
    rw [slotOf, if_neg (by omega), if_neg (by omega), if_neg (by omega), Nat.add_sub_cancel]
  match path, hpath, hz with
  | [], _, hz =>
    dsimp only at hz ⊢
    by_cases hn : n < 12
    · rw [if_pos hn, hslot, Layout.fileSlot_direct hn]
      exact ⟨by omega, by omega, rfl⟩
    rw [if_neg hn] at hz ⊢
    by_cases h12 : n = 12
    · rw [if_pos h12, h12]
      exact ⟨by decide, by decide, rfl⟩
    rw [if_neg h12] at hz ⊢
    by_cases h13 : n = 13
    · rw [if_pos h13, h13]
      exact ⟨by decide, by decide, rfl⟩
    · exact absurd (if_neg h13) hz
  | [i], hpath, hz =>
    have hi : i < wrapImage.layout.ptrsPerBlock := hpath i (mem_singleton_self _)
    dsimp only at hz ⊢
    by_cases h12 : n = 12
    · rw [if_pos h12] at hz ⊢
      obtain ⟨hlt, heq⟩ := hwrap hz
      unfold wrapCount at hlt
      rw [heq, hslot, Layout.fileSlot_indirect hi, h12]
      exact ⟨by omega, by omega, rfl⟩
    rw [if_neg h12] at hz ⊢
    by_cases h13 : n = 13 ∧ i < 15
    · rw [if_pos h13, slotOf, if_neg (by omega), if_neg (by omega), if_pos (by omega),
        Nat.add_sub_cancel, h13.1]
      exact ⟨by omega, by omega, rfl⟩
    · exact absurd (if_neg h13) hz
  | [i, j], hpath, hz =>
    have hj : j < 8192 := hpath j (mem_cons_of_mem _ (mem_singleton_self _))
    dsimp only at hz ⊢
    by_cases h13 : n = 13
    · rw [if_pos h13] at hz ⊢
      obtain ⟨hlt, heq⟩ := hwrap hz
      unfold wrapCount at hlt
      have hdouble := @Layout.fileSlot_double wrapImage.layout 2 (i * 8192 + j)
      rw [ptrsPerBlock_eq, show (i * 8192 + j) / 8192 = i by omega,
        show (i * 8192 + j) % 8192 = j by omega] at hdouble
      rw [heq, hslot, hdouble, h13]
      exact ⟨by omega, Nat.add_lt_add_right hlt 22, rfl⟩
    · exact absurd (if_neg h13) hz
  | _ :: _ :: _ :: _, _, hz => exact absurd rfl hz

theorem own : Own wrapImage.layout wrapImage.metaBlocks wrapImage.disk := by
  refine ⟨⟨fun τ hτ hz => ?_, fun τ τ' hτ hτ' hz heq => ?_⟩, fun b hb hr => ?_, fun a ha => ?_⟩
  · rw [blockAt_eq hτ] at hz ⊢
    obtain ⟨hlo, hhi, -⟩ := place_cases hτ hz
    have hdata : wrapImage.layout.IsData (place τ) := isData hlo (by omega)
    refine ⟨hdata, Nat.not_lt_of_le hlo, ?_⟩
    rw [Image.vol_used ⟨hdata.1, hdata.2.1⟩]
    exact decide_eq_true hhi
  · rw [blockAt_eq hτ] at hz heq
    rw [blockAt_eq hτ'] at heq
    rw [← (place_cases hτ hz).2.2, ← (place_cases hτ' (heq ▸ hz)).2.2, heq]
  · have hb : b < 5 := hb
    rw [Image.vol_used hr]
    exact decide_eq_true (by omega)
  · by_contra hc
    have hdata : wrapImage.layout.IsData (wrapImage.layout.block a) := (Image.isData_iff _).mpr
      ⟨Nat.le_of_not_lt hc, (Image.layout_ok.area_lt a ha).2⟩
    exact hdata.2.2 a ha rfl

theorem live : Live wrapImage.layout wrapImage.metaBlocks wrapImage.fs 2 :=
  ⟨Image.mounted, own, ((holds_iff 2).mpr rfl).1, ((holds_iff 2).mpr rfl).2⟩

theorem place_fileSlot {k : Nat} (hk : k < wrapCount) :
    place (wrapImage.layout.fileSlot 2 k) = k + 22 := by
  obtain hd | ⟨r, hr, rfl⟩ | ⟨r, rfl⟩ := wrapImage.layout.fileBlock_cases k
  · rw [Layout.fileSlot_direct hd]
    simp only [place, if_true, hd]
  · rw [Layout.fileSlot_indirect hr]
    show wrapPlace (r + 12) = _
    exact if_pos hk
  · rw [ptrsPerBlock_eq] at hk
    rw [Layout.fileSlot_double, ptrsPerBlock_eq]
    simp only [place, Slot.child, nil_append, cons_append, if_true, Nat.div_add_mod']
    exact if_pos hk

theorem directory : Directory wrapImage.layout wrapImage.disk 2 wrapDir := by
  have hinode : wrapImage.disk.inode 2 = inodeBytes 0x41ed 4294934528 2 8389632
      fun n => if n < 12 then n + 22 else if n = 12 then 5 else if n = 13 then 6 else 0 :=
    inode_root
  have hmode : modeFormat (leAt 2 (wrapImage.disk.inode 2) 0) = sIfDir := by
    rw [hinode, mode_inodeBytes (by decide)]
    decide
  have hmax : wrapCount ≤ wrapImage.layout.maxBlocks := by
    unfold Layout.maxBlocks wrapCount
    rw [ptrsPerBlock_eq]
    decide
  refine ⟨hmode, ?_, by rw [length_wrapDir]; exact hmax, ?_⟩
  · rw [sizeOf, if_neg (by rw [hmode]; decide), hinode, size_inodeBytes (by decide), length_wrapDir,
      show wrapImage.layout.blockSize = 32768 from rfl]
    unfold wrapCount
    omega
  · have htiled : ∀ n, n ≤ wrapCount → Tiled wrapImage.layout wrapImage.disk 2 0
        ((range n).map wrapBlock) := by
      intro n hn
      induction n with
      | zero => trivial
      | succ n ih =>
        have hvalid := (@Layout.leaf_fileSlot wrapImage.layout 2 n (by omega)).1
        have hlt := hn
        unfold wrapCount at hlt
        rw [range_succ, map_append, tiled_append]
        refine ⟨ih (by omega), ?_, trivial⟩
        have hdata := Image.vol_data (isData (b := n + 22) (by omega) (by omega))
        rw [length_map, length_range, Nat.zero_add, leafData, blockAt_eq hvalid,
          place_fileSlot hn, if_neg (Nat.succ_ne_zero _), hdata]
        exact wrapData_leaf hn
    exact htiled wrapCount (Nat.le_refl _)

theorem counts : Counts wrapImage.layout wrapImage.disk := by
  refine Image.counts ⟨by decide, by decide, ?_, by decide +kernel⟩
  have hfree : ((Finset.range wrapImage.blocksCount).filter fun b =>
      wrapImage.firstDataBlock ≤ b ∧ wrapImage.used b = false) = Finset.Ico 131093 131096 := by
    ext b
    rw [Finset.mem_filter, Finset.mem_range, Finset.mem_Ico]
    show b < 131096 ∧ 0 ≤ b ∧ decide (b < 131093) = false ↔ _
    rw [decide_eq_false_iff_not]
    omega
  rw [hfree, Nat.card_Ico]
  rfl

theorem synced : Synced wrapImage.layout wrapImage.fs :=
  Image.synced (by decide +kernel) (by decide +kernel)

theorem room : Room wrapImage.layout 3 wrapImage.fs (wrapImage.disk.inode 2) where
  counts := counts
  synced := synced
  free := by
    show ((3 : Nat) : Int) ≤ ((3 : Nat) : Int)
    omega
  blocks := by
    rw [inode_root]
    show leAt 4 (inodeBytes _ _ _ 8389632 _) 28 + 3 * 64 < _
    rw [iBlocks_inodeBytes (by decide)]
    decide
  fits := by decide

/-- A name that the directory does not have. -/
@[irreducible] def newName : String := String.ofList (replicate 255 'z')

theorem encode_newName : Utf8.encode newName = replicate 255 122 := by decide +kernel

theorem newName_not_listed {e : RawEntry} (he : e ∈ dirEntries wrapDir) :
    e.1 ≠ Utf8.encode newName := by
  intro heq
  obtain ⟨rs, hrs, he⟩ := mem_flatMap.mp he
  obtain ⟨k, -, rfl⟩ := mem_map.mp hrs
  have hmem := mem_names_wrapBlock (mem_map.mpr ⟨e, he, rfl⟩)
  rw [heq, encode_newName] at hmem
  rcases hmem with ⟨-, hlen⟩ | ⟨j, -, hname⟩
  · exact hlen (length_replicate ..)
  · -- the first letter is another one
    have hhead := congrArg head? hname
    have hfirst : (wrapName (k * 124 + j)).head? =
        some (UInt8.ofNat (97 + (k * 124 + j) / 16 ^ 0 % 16)) := rfl
    rw [hfirst, show (replicate 255 (122 : UInt8)).head? = some 122 from rfl] at hhead
    have hnat := congrArg UInt8.toNat (Option.some.inj hhead)
    rw [UInt8.toNat_ofNat'] at hnat
    have h122 : (122 : UInt8).toNat = 122 := rfl
    omega

end wrapImage

/-- **A directory of 4 GiB less one block**: after another name was added it lists
nothing. -/
theorem directory_wraps : ∃ s s' : DirRun, DirInv wrapImage.layout wrapImage.metaBlocks 2 s ∧
    exec (dirStep 2) s [.add wrapImage.newName 11 1] = some s' ∧
    s'.names (Utf8.encode wrapImage.newName) = some (11, 1) ∧
    (∃ fs, (readDirEntries 2).run s'.fs = (.ok [], fs)) ∧
    ¬ ∃ D, Directory wrapImage.layout (vol wrapImage.layout s'.fs) 2 D ∧
      Lists (dirEntries D) s'.names := by
  have hlists := lists_nameMap nodup_wrapDir
  have hbs : wrapImage.layout.blockSize = 32768 := rfl
  obtain ⟨s', hexec, hname, hread, hnone⟩ :=
    dirStep_wraps (s := ⟨wrapImage.fs, nameMap (dirEntries wrapDir)⟩)
    (by rw [longNames_wrapDir, length_wrapDir, hbs])
    (by
      rw [length_wrapDir, hbs]
      unfold wrapCount
      omega)
    (by
      rw [length_wrapDir, Layout.maxBlocks, wrapImage.ptrsPerBlock_eq]
      unfold wrapCount
      omega)
    (by decide) (by rw [wrapImage.encode_newName, length_replicate])
    wrapImage.live wrapImage.directory wrapImage.room
    (hlists.eq_none fun _ he => wrapImage.newName_not_listed he) 11 1 (by decide)
  exact ⟨⟨wrapImage.fs, nameMap (dirEntries wrapDir)⟩, s',
    ⟨wrapImage.live, wrapDir, wrapImage.directory, hlists⟩, hexec, hname, hread, hnone⟩

end PythonOS.Ext2
