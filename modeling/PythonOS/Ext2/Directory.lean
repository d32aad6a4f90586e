import PythonOS.Ext2.DirBlock
import PythonOS.Ext2.FileContent

/-!
# PythonOS.Ext2.Directory

Directories: `Directory L V ino D` says that the blocks of the directory `ino` are
tiled by the lists of records `D`, and the specifications of `readDirEntries`,
`addDirEntry` and `removeDirEntry` say how the lists change.

A block of a directory is never a hole, since a record is not all zeros.
-/

namespace PythonOS.Ext2

open Lib List Coro Lib.Bytes

/-- The file blocks from `fb` on are tiled by the lists of records. -/
def Tiled (L : Layout) (V : Volume) (ino : Nat) : Nat → List (List Record) → Prop
  | _, [] => True
  | fb, rs :: D => leafData L V (L.fileSlot ino fb) = encodeAll rs ∧ Tiled L V ino (fb + 1) D

/-- The entries of all blocks. -/
def dirEntries (D : List (List Record)) : List RawEntry := D.flatMap entries

/-- The first entry of a name. -/
abbrev firstEntry (D : List (List Record)) (name : String) : Option RawEntry :=
  (dirEntries D).find? fun e => Utf8.decode e.1 = name

/-- **A directory** and its records. -/
structure Directory (L : Layout) (V : Volume) (ino : Nat) (D : List (List Record)) : Prop where
  mode : modeFormat (leAt 2 (V.inode ino) 0) = sIfDir
  size : sizeOf (V.inode ino) = D.length * L.blockSize
  le : D.length ≤ L.maxBlocks
  tiled : Tiled L V ino 0 D

/-- What `addDirEntry` is given. -/
structure NewEntry where
  ino : Nat
  fileType : Nat
  name : Bytes
  ino_ne : ino ≠ 0
  ino_lt : ino < 256 ^ 4
  fileType_lt : fileType < 256 ^ 1
  name_lt : name.length < 256 ^ 1

def NewEntry.entry (e : NewEntry) : RawEntry := (e.name, e.ino, e.fileType)

/-- A record of `len` bytes for the entry. -/
def NewEntry.record (e : NewEntry) (len : Nat) (hlen : direntSize e.name.length ≤ len)
    (hlt : len < 256 ^ 2) (hdvd : 4 ∣ len) : Record :=
  .fresh e.ino e.fileType e.name len e.ino_lt e.fileType_lt e.name_lt
    (Nat.le_trans (le_direntSize _) hlen) hlt hdvd

section

variable (e : NewEntry) {len : Nat} (hlen : direntSize e.name.length ≤ len) (hlt : len < 256 ^ 2)
  (hdvd : 4 ∣ len)

theorem NewEntry.recLen_record : (e.record len hlen hlt hdvd).recLen = len := by
  have hle := le_direntSize e.name.length
  simp only [Record.recLen, NewEntry.record, Record.fresh, length_zeros]
  omega

theorem NewEntry.pad_record :
    (e.record len hlen hlt hdvd).pad = zeros (e.record len hlen hlt hdvd).pad.length := by
  simp only [NewEntry.record, Record.fresh, length_zeros]

end

section

variable {L : Layout} {V V' : Volume} {ino : Nat}

theorem tiled_append {fb : Nat} {D D' : List (List Record)} :
    Tiled L V ino fb (D ++ D') ↔ Tiled L V ino fb D ∧ Tiled L V ino (fb + D.length) D' := by
  induction D generalizing fb with
  | nil => simp [Tiled]
  | cons rs D ih =>
    rw [cons_append, Tiled, ih, Tiled, and_assoc, length_cons, Nat.add_right_comm, Nat.add_assoc fb]

theorem Tiled.congr {fb : Nat} {D : List (List Record)} (h : Tiled L V ino fb D)
    (hleaf : ∀ k, fb ≤ k → k < fb + D.length →
      leafData L V' (L.fileSlot ino k) = leafData L V (L.fileSlot ino k)) :
    Tiled L V' ino fb D := by
  induction D generalizing fb with
  | nil => trivial
  | cons rs D ih =>
    simp only [length_cons] at hleaf
    exact ⟨by rw [hleaf fb (Nat.le_refl _) (by omega), h.1],
      ih h.2 fun k hk hlt => hleaf k (by omega) (by omega)⟩

/-- A record is not all zeros. -/
theorem encodeAll_ne_zeros {rs : List Record} {n : Nat} (hn : 0 < n) : encodeAll rs ≠ zeros n := by
  cases rs with
  | nil =>
    intro h
    have hlen := congrArg List.length h
    simp only [encodeAll_nil, length_nil, length_zeros] at hlen
    omega
  | cons r rs =>
    intro h
    have hle : leAt 2 (encodeAll (r :: rs)) 4 = r.recLen := by
      have hfield := leAt_append_right 2 (leBytes 4 r.ino) (leBytes 2 r.recLen ++
        (leBytes 1 r.name.length ++ (leBytes 1 r.fileType ++ (r.name ++ r.pad) ++ encodeAll rs))) 0
      rw [leAt_leBytes_append (show r.recLen < 256 ^ 2 from r.recLen_lt), length_leBytes] at hfield
      rw [encodeAll_cons, Record.encode]
      simpa only [append_assoc] using hfield
    rw [h, leAt_zeros] at hle
    simp only [Record.recLen] at hle
    omega

/-- A block of a directory is not a hole. -/
theorem blockAt_ne_zero_of_tiled {fb : Nat} {rs : List Record}
    (h : leafData L V (L.fileSlot ino fb) = encodeAll rs) :
    (forest V).blockAt (L.fileSlot ino fb) ≠ 0 := by
  intro hz
  rw [leafData, if_pos hz] at h
  exact encodeAll_ne_zeros L.blockSize_pos h.symm

end

section Walks

variable {L : Layout} {M : Set Nat} {s : Ext2FS} {ino : Nat} {raw : Bytes}

theorem Stored.of_after {σ : Slot (Nat × Nat)} {d : Bytes} {s1 s' : Ext2FS}
    (ha : Same L s s1) (h : Stored L M s1 ino raw σ d s') : Stored L M s ino raw σ d s' := by
  have hwork := ha.work_eq ino raw
  exact ⟨h.ready, hwork ▸ h.touched, fun x => (h.disk x).trans (by rw [ha.vol_eq]),
    hwork ▸ h.leaf, ha.steady_self.trans h.steady, hwork ▸ h.rewritten⟩

section Block

variable {fb : Nat} {rs : List Record}

/-- What the removal of a name leaves of a block. -/
theorem dropRecord_found {name : Bytes} {r1 r2 : List Record} {r : Record} {prev : Option Nat}
    (hr : r.Named name)
    (hprev : r1 = [] ∧ prev = none ∨ ∃ r0 q, r1 = r0 ++ [q] ∧ prev = some (encodeAll r0).length) :
    (∃ rs', dropRecord (encodeAll (r1 ++ r :: r2)) (encodeAll r1).length prev r.dirent =
        .ok (encodeAll rs') ∧ (encodeAll rs').length = (encodeAll (r1 ++ r :: r2)).length ∧
        (entries (r1 ++ r :: r2)).Perm (r.entry :: entries rs')) ∨
      256 ^ 2 ≤ (encodeAll (r1 ++ r :: r2)).length ∧
        ∃ e, dropRecord (encodeAll (r1 ++ r :: r2)) (encodeAll r1).length prev r.dirent =
          .error e := by
  rcases hprev with ⟨rfl, rfl⟩ | ⟨r0, q, rfl, rfl⟩
  · refine .inl ⟨r.kill :: r2, dropRecord_none, ?_, ?_⟩
    · rfl
    · rw [nil_append, entries_kill hr.1]
  · have hsplit : r0 ++ [q] ++ r :: r2 = r0 ++ q :: r :: r2 := by simp
    have henc : encodeAll (r0 ++ q :: r :: r2) =
        encodeAll r0 ++ (q.encode ++ (r.encode ++ encodeAll r2)) := by simp
    rw [hsplit]
    by_cases hfits : q.recLen + r.recLen < 256 ^ 2
    · refine .inl ⟨r0 ++ q.absorb r hfits :: r2, ?_, ?_, entries_absorb hr.1 hfits⟩
      · rw [henc, dropRecord_some hfits]
        simp
      · simp only [encodeAll_append, encodeAll_cons, length_append, Record.length_encode]
        simp only [Record.recLen, Record.absorb, length_append, r.length_encode]
        omega
    · -- the merged record would be longer than its length field can say
      refine .inr ⟨?_, .struct, ?_⟩
      · rw [henc]
        simp only [length_append, Record.length_encode]
        omega
      · rw [henc]
        simp only [dropRecord, Bind.bind, Except.bind, dirent_eq, Record.dirent]
        unfold pack packInto
        rw [if_neg fun hc => hfits (by have hlt := hc.2; rwa [Int.toNat_natCast] at hlt)]

variable (h : Work L M s ino raw) (hfb : fb < L.maxBlocks)
  (hrs : leafData L (work L s ino raw) (L.fileSlot ino fb) = encodeAll rs)

include h hfb hrs

/-- A block of a directory is read. -/
theorem readLeaf_wp [L.Ok] :
    (readBlock ((forest (work L s ino raw)).blockAt (L.fileSlot ino fb))).returns
      (fun r s' => Same L s s' ∧
        s'.blockCache ((forest (work L s ino raw)).blockAt (L.fileSlot ino fb)) = some r ∧
        s'.heap r = encodeAll rs) s := by
  have hz := blockAt_ne_zero_of_tiled hrs
  refine wp_imp (readData_wp h.mounted (h.own.isData (Layout.leaf_fileSlot hfb).1 hz)) ?_
  rintro r s1 ⟨ha, hr, hheap⟩
  rw [leafData, if_neg hz] at hrs
  exact ⟨ha, hr, hheap.trans hrs⟩

theorem Work.length_encodeAll : (encodeAll rs).length = L.blockSize := by
  rw [← hrs, h.length_leafData (Layout.leaf_fileSlot hfb)]

theorem readDirBlock_wp [L.Ok] :
    (readDirBlock ((forest (work L s ino raw)).blockAt (L.fileSlot ino fb))).returns
      (fun es s' => es = (entries rs).map RawEntry.listed ∧ Same L s s') s := by
  have hlen := h.length_encodeAll hfb hrs
  unfold readDirBlock
  rw [if_neg (blockAt_ne_zero_of_tiled hrs)]
  refine wp_bind_ok (readLeaf_wp h hfb hrs) ?_
  rintro r s1 ⟨ha, -, hheap⟩
  have hscan := @scanBlock_eq rs [] _ (hlen ▸ length_le_encodeAll rs)
  rw [nil_append, length_nil, hlen] at hscan
  simp only [wp_bind, load_wp, wp_get, hheap, ha.mounted.tables.blockSize, hscan, wp_lift]
  exact ⟨trivial, ha⟩

/-- **A block takes a new entry** if it has room. -/
theorem addToBlock_wp [L.Ok] (e : NewEntry) :
    (addToBlock ((forest (work L s ino raw)).blockAt (L.fileSlot ino fb)) e.ino e.name
      e.fileType).returns
      (fun done s' => done = false ∧ Same L s s' ∨
        done = true ∧ ∃ rs', (entries rs').Perm (e.entry :: entries rs) ∧
          Stored L M s ino raw (L.fileSlot ino fb) (encodeAll rs') s') s := by
  have hlen := h.length_encodeAll hfb hrs
  have hz := blockAt_ne_zero_of_tiled hrs
  unfold addToBlock
  rw [if_neg hz]
  refine wp_bind_ok (readLeaf_wp h hfb hrs) ?_
  rintro r s1 ⟨ha, hr, hheap⟩
  have hroom := @findRoom_eq rs [] _ (hlen ▸ length_le_encodeAll rs)
    (direntSize e.name.length)
  simp only [nil_append, length_nil, hlen, Nat.zero_add] at hroom
  simp only [wp_bind, load_wp, wp_get, hheap, ha.mounted.tables.blockSize, wp_lift]
  rcases hroom with hnone | ⟨r1, q, r2, rfl, hfits, hsome⟩
  · rw [hnone]
    exact .inl ⟨rfl, ha⟩
  rw [hsome]
  -- the new record takes what is left of the old one
  have hactual : 4 ∣ q.dirent.actual := by
    unfold Dirent.actual
    split
    · exact Nat.dvd_zero _
    · exact Nat.dvd_mul_left _ _
  have hdvd : 4 ∣ q.recLen - q.dirent.actual := Nat.dvd_sub q.aligned hactual
  have hlt : q.recLen - q.dirent.actual < 256 ^ 2 :=
    Nat.lt_of_le_of_lt (Nat.sub_le _ _) q.recLen_lt
  have hnew := e.recLen_record (by omega) hlt hdvd
  have hpad := e.pad_record (by omega) hlt hdvd
  generalize hnewr : e.record (q.recLen - q.dirent.actual) (by omega) hlt hdvd = new at hnew hpad
  have hino : new.ino = e.ino := by rw [← hnewr]; rfl
  have hname : new.name = e.name := by rw [← hnewr]; rfl
  have htype : new.fileType = e.fileType := by rw [← hnewr]; rfl
  have hsplit := splitRecord_eq (a := encodeAll r1) (c := encodeAll r2) (r := q) (q := new) hpad
    (by omega)
  rw [hino, hname, htype, ← encodeAll_cons, ← encodeAll_append, ← encodeAll_append,
    ← encodeAll_append, ← hrs] at hsplit
  simp only [wp_bind]
  have hlen' : (encodeAll (r1 ++ (q.split new ++ r2))).length = L.blockSize := by
    rw [← hlen]
    simp only [encodeAll_append, encodeAll_cons, length_append, q.length_encode]
    rw [length_encodeAll_split (r := q) (q := new) (by omega)]
  refine wp_mono (writeLeaf_wp h (Layout.leaf_fileSlot hfb) (Layout.fileSlot_fst _ _) hz
    (fun d hd => ?_) ha hr) ?_ ?_
  · rw [hsplit] at hd
    rw [← Except.ok.inj hd, hlen']
  · rintro - s2 ⟨d, hd, hst⟩
    rw [hsplit] at hd
    cases hd
    refine .inr ⟨rfl, _, ?_, hst⟩
    have hperm : (entries (r1 ++ (q.split new ++ r2))).Perm
        (new.entry :: entries (r1 ++ q :: r2)) :=
      entries_split (hino ▸ e.ino_ne)
    rwa [show new.entry = e.entry by rw [← hnewr]; rfl] at hperm
  · rintro err s2 ⟨herr, -⟩
    rw [hsplit] at herr
    cases herr

/-- **A block loses a name** if it has it. -/
theorem removeFromBlock_wp [L.Ok] (name : Bytes) :
    (removeFromBlock ((forest (work L s ino raw)).blockAt (L.fileSlot ino fb)) name).wp
      (fun res s' => (res = none ∧ (∀ e ∈ entries rs, e.1 ≠ name) ∧ Same L s s') ∨
        ∃ t rs', res = some t ∧ (entries rs).Perm ((name, t) :: entries rs') ∧
          Stored L M s ino raw (L.fileSlot ino fb) (encodeAll rs') s')
      (fun _ s' => 256 ^ 2 ≤ L.blockSize ∧ Same L s s') s := by
  have hlen := h.length_encodeAll hfb hrs
  have hz := blockAt_ne_zero_of_tiled hrs
  unfold removeFromBlock
  rw [if_neg hz]
  refine wp_bind_ok (readLeaf_wp h hfb hrs) ?_
  rintro b s1 ⟨ha, hb, hheap⟩
  have hfind := @findEntry_eq rs [] _ (hlen ▸ length_le_encodeAll rs) name none
  simp only [nil_append, length_nil, hlen, Nat.zero_add] at hfind
  simp only [wp_bind, load_wp, wp_get, hheap, ha.mounted.tables.blockSize, wp_lift]
  rcases hfind with ⟨hall, hnone⟩ | ⟨r1, r, r2, prev, rfl, -, hr, hsome, hprev⟩
  · rw [hnone]
    refine .inl ⟨rfl, fun e he heq => ?_, ha⟩
    obtain ⟨r, hr, rfl⟩ := mem_map.mp he
    obtain ⟨hmem, hino⟩ := mem_filter.mp hr
    exact hall r hmem ⟨by simpa using hino, heq⟩
  rw [hsome]
  simp only [wp_bind]
  have hdrop := @dropRecord_found name r1 r2 r prev hr hprev
  rw [hlen] at hdrop
  refine wp_mono (writeLeaf_wp h (Layout.leaf_fileSlot hfb) (Layout.fileSlot_fst _ _) hz
    (fun d hd => ?_) ha hb) ?_ ?_
  · rw [hrs] at hd
    rcases hdrop with ⟨rs', hok, hlen', -⟩ | ⟨-, e, herr⟩
    · rw [hok] at hd
      rw [← Except.ok.inj hd, hlen']
    · rw [herr] at hd
      cases hd
  · rintro - s2 ⟨d, hd, hst⟩
    rw [hrs] at hd
    rcases hdrop with ⟨rs', hok, -, hperm⟩ | ⟨-, e, herr⟩
    · rw [hok] at hd
      cases hd
      refine .inr ⟨_, rs', rfl, ?_, hst⟩
      rw [← hr.2]
      exact hperm
    · rw [herr] at hd
      cases hd
  · rintro e s2 ⟨herr, ha2⟩
    rw [hrs] at herr
    rcases hdrop with ⟨rs', hok, -, -⟩ | ⟨hbig, -⟩
    · rw [hok] at herr
      cases herr
    · exact ⟨hbig, ha2⟩

end Block

section Blocks

variable {D : List (List Record)} {fb : Nat}

theorem readDirBlocks_wp [L.Ok] (h : Work L M s ino raw)
    (hD : Tiled L (work L s ino raw) ino fb D) (hfb : fb + D.length ≤ L.maxBlocks) :
    (readDirBlocks raw D.length fb).returns
      (fun es s' => es = (dirEntries D).map RawEntry.listed ∧ Same L s s') s := by
  induction D generalizing s fb with
  | nil => exact ⟨rfl, After.refl h.mounted⟩
  | cons rs D ih =>
    rw [length_cons] at hfb
    refine wp_bind_of (resolveBlock_wp h fb) (fun _ _ he => by omega) ?_
    rintro phys s1 ⟨hlt, rfl, ha1⟩
    have hwork1 := ha1.work_eq ino raw
    rw [← hwork1] at hD ⊢
    have h1 := h.of_after ha1
    refine wp_bind_ok (readDirBlock_wp h1 hlt hD.1) ?_
    rintro here s2 ⟨rfl, ha2⟩
    have hwork2 := ha2.work_eq ino raw
    refine wp_bind_ok (ih (h1.of_after ha2) (hwork2 ▸ hD.2) (by omega)) ?_
    rintro rest s3 ⟨rfl, ha3⟩
    refine ⟨?_, (ha1.still ha2).still ha3⟩
    simp only [dirEntries, flatMap_cons, map_append]

/-- One of the blocks was written. -/
def StoredIn (L : Layout) (M : Set Nat) (s : Ext2FS) (ino : Nat) (raw : Bytes) (fb : Nat)
    (D : List (List Record)) (rs rs' : List Record) (s' : Ext2FS) : Prop :=
  ∃ D₁ D₂, D = D₁ ++ rs :: D₂ ∧
    Stored L M s ino raw (L.fileSlot ino (fb + D₁.length)) (encodeAll rs') s'

theorem StoredIn.of_after {rs rs' : List Record} {s1 s' : Ext2FS} (ha : Same L s s1)
    (h : StoredIn L M s1 ino raw fb D rs rs' s') : StoredIn L M s ino raw fb D rs rs' s' := by
  obtain ⟨D1, D2, hD, hst⟩ := h
  exact ⟨D1, D2, hD, hst.of_after ha⟩

theorem StoredIn.cons {rs0 rs rs' : List Record} {s1 s' : Ext2FS}
    (ha : Same L s s1) (h : StoredIn L M s1 ino raw (fb + 1) D rs rs' s') :
    StoredIn L M s ino raw fb (rs0 :: D) rs rs' s' := by
  obtain ⟨D1, D2, rfl, hst⟩ := h.of_after ha
  refine ⟨rs0 :: D1, D2, rfl, ?_⟩
  rwa [length_cons, Nat.add_comm D1.length, ← Nat.add_assoc]

/-- The blocks after one of them was written. -/
theorem StoredIn.tiled {rs rs' : List Record} {s' : Ext2FS}
    (h : StoredIn L M s ino raw 0 D rs rs' s') (hD : Tiled L (work L s ino raw) ino 0 D)
    (hle : D.length ≤ L.maxBlocks) :
    ∃ D', Tiled L (work L s' ino raw) ino 0 D' ∧ D'.length = D.length ∧
      (∀ e, (entries rs').Perm (e :: entries rs) → (dirEntries D').Perm (e :: dirEntries D)) ∧
      ∀ e, (entries rs).Perm (e :: entries rs') → (dirEntries D).Perm (e :: dirEntries D') := by
  obtain ⟨D1, D2, rfl, hst⟩ := h
  rw [Nat.zero_add] at hst
  simp only [length_append, length_cons] at hle
  obtain ⟨hD1, -, hD2⟩ := tiled_append.mp hD
  have hother : ∀ k, k < L.maxBlocks → k ≠ D1.length →
      leafData L (work L s' ino raw) (L.fileSlot ino k) =
        leafData L (work L s ino raw) (L.fileSlot ino k) := by
    intro k hk hne
    rw [hst.leaf _ (Layout.leaf_fileSlot hk), if_neg fun heq => hne (Layout.fileSlot_inj heq)]
  have hgather : ∀ (rs rs' : List Record) e, (entries rs').Perm (e :: entries rs) →
      (dirEntries (D1 ++ rs' :: D2)).Perm (e :: dirEntries (D1 ++ rs :: D2)) := by
    intro rs rs' e hperm
    simp only [dirEntries, flatMap_append, flatMap_cons]
    exact ((hperm.append_right _).append_left _).trans perm_middle
  refine ⟨D1 ++ rs' :: D2, tiled_append.mpr ⟨?_, ?_, ?_⟩, by simp, hgather rs rs', hgather rs' rs⟩
  · exact hD1.congr fun k _ hk => hother k (by omega) (by omega)
  · rw [Nat.zero_add, hst.leaf _ (Layout.leaf_fileSlot (by omega)), if_pos rfl]
  · exact hD2.congr fun k hk hk' => hother k (by omega) (by omega)

section

variable (h : Work L M s ino raw) (hD : Tiled L (work L s ino raw) ino fb D)
  (hfb : fb + D.length ≤ L.maxBlocks)

include h hD hfb

theorem addToBlocks_wp [L.Ok] (e : NewEntry) :
    (addToBlocks raw e.ino e.name e.fileType D.length fb).returns
      (fun done s' => done = false ∧ Same L s s' ∨
        done = true ∧ ∃ rs rs', (entries rs').Perm (e.entry :: entries rs) ∧
          StoredIn L M s ino raw fb D rs rs' s') s := by
  induction D generalizing s fb with
  | nil => exact .inl ⟨rfl, After.refl h.mounted⟩
  | cons rs D ih =>
    rw [length_cons] at hfb
    refine wp_bind_of (resolveBlock_wp h fb) (fun _ _ he => by omega) ?_
    rintro phys s1 ⟨hlt, rfl, ha1⟩
    have hwork1 := ha1.work_eq ino raw
    rw [← hwork1] at hD ⊢
    have h1 := h.of_after ha1
    refine wp_bind_ok (addToBlock_wp h1 hlt hD.1 e) ?_
    rintro done s2 (⟨rfl, ha2⟩ | ⟨rfl, rs', hperm, hst⟩)
    · have hwork2 := ha2.work_eq ino raw
      have ha := ha1.still ha2
      refine wp_imp (ih (h.of_after ha) (hwork2 ▸ hD.2) (by omega)) ?_
      rintro done s3 (⟨rfl, ha3⟩ | ⟨rfl, rs1, rs', hperm, hst⟩)
      · exact .inl ⟨rfl, ha.still ha3⟩
      · exact .inr ⟨rfl, rs1, rs', hperm, hst.cons ha⟩
    · exact .inr ⟨rfl, rs, rs', hperm, [], D, rfl, hst.of_after ha1⟩

theorem removeFromBlocks_wp [L.Ok] (name : Bytes) :
    (removeFromBlocks raw name D.length fb).wp
      (fun res s' => (res = none ∧ (∀ e ∈ dirEntries D, e.1 ≠ name) ∧ Same L s s') ∨
        ∃ t rs rs', res = some t ∧ (entries rs).Perm ((name, t) :: entries rs') ∧
          StoredIn L M s ino raw fb D rs rs' s')
      (fun _ s' => 256 ^ 2 ≤ L.blockSize ∧ Same L s s') s := by
  induction D generalizing s fb with
  | nil => exact .inl ⟨rfl, by simp [dirEntries], After.refl h.mounted⟩
  | cons rs D ih =>
    rw [length_cons] at hfb
    refine wp_bind_of (resolveBlock_wp h fb) (fun _ _ he => by omega) ?_
    rintro phys s1 ⟨hlt, rfl, ha1⟩
    have hwork1 := ha1.work_eq ino raw
    rw [← hwork1] at hD ⊢
    have h1 := h.of_after ha1
    refine wp_bind_of (removeFromBlock_wp h1 hlt hD.1 name) ?_ ?_
    · rintro e s2 ⟨hbig, ha2⟩
      exact ⟨hbig, ha1.still ha2⟩
    rintro res s2 (⟨rfl, hnone, ha2⟩ | ⟨t, rs', rfl, hperm, hst⟩)
    · have hwork2 := ha2.work_eq ino raw
      have ha := ha1.still ha2
      refine wp_mono (ih (h.of_after ha) (hwork2 ▸ hD.2) (by omega)) ?_ ?_
      · rintro res s3 (⟨rfl, hrest, ha3⟩ | ⟨t, rs1, rs', rfl, hperm, hst⟩)
        · refine .inl ⟨rfl, fun e he => ?_, ha.still ha3⟩
          rw [dirEntries, flatMap_cons, mem_append] at he
          exact he.elim (hnone e) (hrest e)
        · exact .inr ⟨t, rs1, rs', rfl, hperm, hst.cons ha⟩
      · rintro e s3 ⟨hbig, ha3⟩
        exact ⟨hbig, ha.still ha3⟩
    · exact .inr ⟨t, rs, rs', rfl, hperm, [], D, rfl, hst.of_after ha1⟩

end

end Blocks

/-! ### Operations -/

section Operations

variable {D : List (List Record)}

theorem Directory.blocks_eq {V : Volume} (hd : Directory L V ino D) :
    (sizeOf (V.inode ino) + L.blockSize - 1) / L.blockSize = D.length := by
  have hpos := L.blockSize_pos
  rw [hd.size, Nat.add_sub_assoc (by omega), Nat.mul_comm, Nat.mul_add_div hpos,
    Nat.div_eq_of_lt (by omega), Nat.add_zero]

/-- **`readDirEntries`** lists the entries. -/
theorem readDirEntries_wp [L.Ok] (h : Live L M s ino) (hd : Directory L (vol L s) ino D) :
    (readDirEntries ino).returns
      (fun es s' => es = (dirEntries D).map RawEntry.listed ∧ Same L s s') s := by
  refine h.readInode_bind fun s1 ha1 hw hwork => ?_
  simp only [wp_bind, wp_lift, wp_get, fileSize_eq hw.length_ge,
    ha1.mounted.tables.blockSize, hd.blocks_eq]
  refine wp_imp (readDirBlocks_wp hw (by rw [hwork]; exact hd.tiled)
    (by rw [Nat.zero_add]; exact hd.le)) ?_
  rintro es s2 ⟨rfl, ha2⟩
  exact ⟨rfl, ha1.still ha2⟩

/-- What a function leaves of the volume when it works on the inode on the device. -/
theorem Stored.finish {σ : Slot (Nat × Nat)} {d : Bytes} {s' : Ext2FS}
    (h : Stored L M s ino ((vol L s).inode ino) σ d s') :
    Live L M s' ino ∧ Touched L M ino (vol L s) (vol L s') ∧
      work L s' ino ((vol L s).inode ino) = vol L s' := by
  have hself : work L s' ino ((vol L s).inode ino) = vol L s' := by rw [← h.disk, work_self]
  have ht := h.touched
  rw [work_self, hself] at ht
  have hkind := h.ready.holds.2
  rw [hself] at hkind
  exact ⟨⟨h.ready.mounted, ht.own, h.ready.inodeUsed, hkind⟩, ht, hself⟩

/-- A directory with one block changed. -/
theorem StoredIn.directory {rs rs' : List Record} {s' : Ext2FS}
    (h : StoredIn L M s ino ((vol L s).inode ino) 0 D rs rs' s')
    (hd : Directory L (vol L s) ino D) :
    Live L M s' ino ∧ Touched L M ino (vol L s) (vol L s') ∧ Steady L s s' ∧
      Rewritten L (vol L s) (vol L s') ∧ ∃ D', Directory L (vol L s') ino D' ∧
        D'.length = D.length ∧
        (∀ e, (entries rs').Perm (e :: entries rs) → (dirEntries D').Perm (e :: dirEntries D)) ∧
        ∀ e, (entries rs).Perm (e :: entries rs') → (dirEntries D).Perm (e :: dirEntries D') := by
  obtain ⟨D', hD', hlen, hins, hdel⟩ := h.tiled (by rw [work_self]; exact hd.tiled) hd.le
  obtain ⟨D1, D2, -, hst⟩ := h
  obtain ⟨hlive, ht, hself⟩ := hst.finish
  have hinode : (vol L s').inode ino = (vol L s).inode ino := hst.disk ino
  have hrw := hst.rewritten
  rw [hself, work_self] at hrw
  rw [hself] at hD'
  exact ⟨hlive, ht, hst.steady, hrw, D',
    ⟨by rw [hinode]; exact hd.mode, by rw [hinode, hd.size, hlen],
    hlen ▸ hd.le, hD'⟩, hlen, hins, hdel⟩

/-- A directory that nothing was done to. -/
theorem Kept.directory {s' : Ext2FS} (h : Kept L M s s') (hd : Directory L (vol L s) ino D) :
    Directory L (vol L s') ino D :=
  ⟨by rw [h.inode]; exact hd.mode, by rw [h.inode]; exact hd.size, hd.le,
    hd.tiled.congr fun k _ hk => h.leaf _ (Layout.leaf_fileSlot (by have := hd.le; omega))⟩

/-- The size of a directory is a multiple of the block size below 4 GiB, and so is the
next one, or it is 4 GiB. -/
theorem Directory.next_size {V : Volume} (hd : Directory L V ino D) :
    ((D.length + 1) * L.blockSize) % 2 ^ 32 =
      if (D.length + 1) * L.blockSize < 2 ^ 32 then (D.length + 1) * L.blockSize else 0 := by
  split
  · next hlt => exact Nat.mod_eq_of_lt hlt
  · next hge =>
    have hsize : D.length * L.blockSize < 2 ^ 32 := by
      rw [← hd.size, sizeOf, if_neg (by rw [hd.mode]; decide), Nat.add_zero]
      exact leAt_lt (w := 4) _ _
    have hpow : L.blockSize = 2 ^ (L.logBlockSize + 10) := by
      rw [Layout.blockSize, Layout.sectorsPerBlock, Nat.pow_add, Nat.mul_comm 2, Nat.mul_assoc]
    rcases Nat.le_total (L.logBlockSize + 10) 32 with hle | hle
    · -- a multiple of the block size between 4 GiB and 4 GiB plus a block
      obtain ⟨k, hk⟩ : L.blockSize ∣ 2 ^ 32 := hpow ▸ Nat.pow_dvd_pow 2 hle
      have hk' : k ≤ D.length + 1 := by
        by_contra hc
        have := Nat.mul_le_mul_left L.blockSize (show D.length + 2 ≤ k by omega)
        rw [← hk, Nat.mul_comm, Nat.add_mul] at this
        rw [Nat.add_mul] at hge
        omega
      have hlt' : D.length < k := by
        by_contra hc
        have := Nat.mul_le_mul_left L.blockSize (show k ≤ D.length by omega)
        rw [← hk, Nat.mul_comm] at this
        omega
      obtain rfl : k = D.length + 1 := by omega
      rw [Nat.mul_comm, ← hk, Nat.mod_self]
    · exact Nat.mod_eq_zero_of_dvd
        (Nat.dvd_mul_left_of_dvd (hpow ▸ Nat.pow_dvd_pow 2 hle) _)

/-- What adding an entry does to a directory. A directory that reaches 4 GiB is
empty afterwards, since only the lower half of its size is stored. -/
def Entered (L : Layout) (M : Set Nat) (s : Ext2FS) (ino : Nat) (D : List (List Record))
    (e : RawEntry) (s' : Ext2FS) : Prop :=
  Live L M s' ino ∧ Touched L M ino (vol L s) (vol L s') ∧ Steady L s s' ∧
    ∃ D', Directory L (vol L s') ino D' ∧ D'.length ≤ D.length + 1 ∧
      ((dirEntries D').Perm (e :: dirEntries D) ∨
        D' = [] ∧ 2 ^ 32 ≤ (D.length + 1) * L.blockSize ∧ L.blockSize < 256 ^ 2)

/-- Why a directory cannot grow: it is as large as it can be, its blocks are too large for
a record, or there is no room for another block. -/
def NoMore (L : Layout) (s : Ext2FS) (ino : Nat) (D : List (List Record)) : Prop :=
  D.length < L.maxBlocks → L.blockSize < 256 ^ 2 → ¬ Room L 3 s ((vol L s).inode ino)

theorem putRecord_error {blk : Bytes} {off child : Nat} {name : Bytes} {fileType len : Nat}
    (hlen : 256 ^ 2 ≤ len) : ∃ e, putRecord blk off child len name fileType = .error e := by
  unfold putRecord
  cases h1 : pack 4 blk off child with
  | error e => exact ⟨e, rfl⟩
  | ok blk1 =>
    have h2 : pack 2 blk1 (off + 4 : Nat) len = .error .struct := by
      unfold pack packInto
      rw [if_neg fun hc => absurd hc.2 (by omega)]
    exact ⟨.struct, by simp only [Bind.bind, Except.bind, h2]⟩

section

variable (h : Live L M s ino) (hd : Directory L (vol L s) ino D)

include h hd

/-- **A block is appended** with the new entry. -/
theorem appendDirBlock_wp [L.Ok] (e : NewEntry) :
    (appendDirBlock ino ((vol L s).inode ino) (D.length * L.blockSize) e.ino e.name e.fileType).wp
      (fun _ s' => Entered L M s ino D e.entry s')
      (fun _ s' => Kept L M s s' ∧ NoMore L s ino D) s := by
  have hpos := L.blockSize_pos
  have hw := h.ready
  simp only [appendDirBlock, wp_bind, wp_get, h.mounted.tables.blockSize, Nat.mul_div_cancel _ hpos]
  refine wp_mono (allocateBlockFor_wp hw D.length) ?_ fun _ _ hf =>
    ⟨hf.1.kept, fun hfb _ => hf.2.not_room hfb⟩
  rintro ⟨phys, raw1⟩ s1 ⟨hfb, he, -⟩
  obtain rfl : (forest (work L s1 ino raw1)).blockAt (L.fileSlot ino D.length) = phys := he.block
  have hleaf : L.shape.Leaf (L.fileSlot ino D.length) := Layout.leaf_fileSlot hfb
  have hlen1 := he.ready.length_leafData hleaf
  set old := leafData L (work L s1 ino raw1) (L.fileSlot ino D.length)
  have hfailed : ∀ s', Same L s1 s' → Kept L M s s' := fun s' ha =>
    Failed.kept ⟨ha.mounted, by rw [ha.vol_eq]; exact he.disk, raw1,
      by rw [work_congr ha.vol_eq]; exact he.grown⟩
  by_cases hbig : L.blockSize < 256 ^ 2
  · have hneed : direntSize e.name.length ≤ L.blockSize := by
      have hname := e.name_lt
      have hmin : 512 ≤ L.blockSize :=
        Nat.le_mul_of_pos_left 512 L.sectorsPerBlock_pos
      unfold direntSize
      omega
    have hrec := e.recLen_record hneed hbig L.four_dvd_blockSize
    have hpad := e.pad_record hneed hbig L.four_dvd_blockSize
    set new := e.record L.blockSize hneed hbig L.four_dvd_blockSize
    have hput := @putRecord_eq old 0 _ hpad (by rw [hrec, hlen1, Nat.zero_add])
    have hsplice : splice old 0 new.encode = encodeAll [new] := by
      have hmid := splice_append_mid (a := []) (b := old) (c := []) (d := new.encode)
        (by rw [Record.length_encode, hrec, hlen1])
      simpa using hmid
    rw [hrec, hsplice] at hput
    refine storeLeaf_wp he.ready hleaf (Layout.fileSlot_fst _ _) he.ne_zero (fun d hd => ?_)
      (fun d s2 hd' hst => ?_) fun err s2 herr _ => ?_
    · rw [← Except.ok.inj (hput.symm.trans hd), encodeAll_cons, encodeAll_nil, append_nil,
        Record.length_encode, hrec]
    · obtain rfl := Except.ok.inj (hput.symm.trans hd')
      have hmode : leAt 2 raw1 0 = leAt 2 ((vol L s).inode ino) 0 :=
        he.grown_fields.2 2 0 (.inl (by omega))
      have hdir : IsDir raw1 := by rw [IsDir, hmode]; exact hd.mode
      obtain ⟨raw2, hset, hsized, -, hsize⟩ := setFileSize_eq hst.ready.length_ge
        ((D.length + 1) * L.blockSize)
      obtain ⟨hw3, ht3, hl3⟩ := hst.ready.touched_sized hsized (.inr hdir)
      simp only [wp_lift, hset]
      refine wp_imp (writeBackInode_wp hw3) ?_
      rintro - s3 ⟨hlive, hvol, hs3⟩
      have ht := (he.touched.trans hst.touched).trans ht3
      rw [work_self, ← hvol] at ht
      refine ⟨hlive, ht, (he.steady.trans hst.steady).trans hs3, ?_⟩
      have hmode' : IsDir ((vol L s3).inode ino) := by
        rw [IsDir, ht.mode]; exact hd.mode
      have hsize' : sizeOf ((vol L s3).inode ino) =
          ((D.length + 1) * L.blockSize) % 2 ^ 32 := by
        rw [hvol, work_inode, hsize (by rw [IsReg, hdir]; decide)]
      rw [hd.next_size] at hsize'
      have hleaf' : ∀ k, k < L.maxBlocks → leafData L (vol L s3) (L.fileSlot ino k) =
          if k = D.length then encodeAll [new] else leafData L (vol L s) (L.fileSlot ino k) := by
        intro k hk
        rw [hvol, hl3, hst.leaf _ (Layout.leaf_fileSlot hk)]
        by_cases hkD : k = D.length
        · rw [if_pos (by rw [hkD]), if_pos hkD]
        · rw [if_neg fun heq => hkD (Layout.fileSlot_inj heq), if_neg hkD,
            he.grown.leaf _ (Layout.leaf_fileSlot hk), work_self]
      split at hsize'
      · refine ⟨D ++ [[new]], ⟨hmode', by simpa using hsize', by simpa using hfb,
          tiled_append.mpr ⟨?_, ?_, trivial⟩⟩,
          by simp, .inl ?_⟩
        · exact hd.tiled.congr fun k _ hk => by rw [hleaf' k (by omega), if_neg (by omega)]
        · rw [Nat.zero_add, hleaf' _ hfb, if_pos rfl]
        · rw [dirEntries, flatMap_append, flatMap_singleton, entries_cons,
            if_neg (show new.ino ≠ 0 from e.ino_ne)]
          exact perm_append_singleton ..
      · next hge =>
        exact ⟨[], ⟨hmode', by simpa using hsize', Nat.zero_le _, trivial⟩, Nat.zero_le _,
          .inr ⟨rfl, by omega, hbig⟩⟩
    · exact absurd (hput.symm.trans herr) (by simp)
  · -- the length of the record does not fit its field
    obtain ⟨err, hput⟩ := @putRecord_error old 0 e.ino e.name e.fileType _
      (Nat.le_of_not_lt hbig)
    refine storeLeaf_wp he.ready hleaf (Layout.fileSlot_fst _ _) he.ne_zero (fun d hd => ?_)
      (fun d s2 hd' _ => ?_) fun _ s2 _ ha =>
        ⟨hfailed s2 ha, fun _ hsmall => absurd hsmall hbig⟩
    · exact absurd (hput.symm.trans hd) (by simp)
    · exact absurd (hput.symm.trans hd') (by simp)

/-- **`addDirEntry`** adds the entry, or raises and leaves every file as it was. -/
theorem addDirEntry_wp [L.Ok]
    {name : String} {child fileType : Nat} (hz : child ≠ 0) (hchild : child < 256 ^ 4)
    (htype : fileType < 256 ^ 1) :
    (addDirEntry ino name child fileType).wp
      (fun _ s' => (Utf8.encode name).length ∈ Set.Icc 1 255 ∧
        Entered L M s ino D (Utf8.encode name, child, fileType) s')
      (fun _ s' => Kept L M s s' ∧
        ((Utf8.encode name).length ∈ Set.Icc 1 255 → NoMore L s ino D)) s := by
  simp only [addDirEntry]
  by_cases hbad : (Utf8.encode name).length = 0 ∨ (Utf8.encode name).length > 255
  · rw [if_pos hbad]
    exact ⟨(After.refl h.mounted).kept h.own, fun hmem => absurd hbad (by
      have := hmem.1
      have := hmem.2
      omega)⟩
  rw [if_neg hbad]
  have hmem : (Utf8.encode name).length ∈ Set.Icc 1 255 := ⟨by omega, by omega⟩
  refine h.readInode_bind fun s1 ha1 hw hwork => ?_
  simp only [wp_bind, wp_lift, wp_get, fileSize_eq hw.length_ge,
    ha1.mounted.tables.blockSize, hd.blocks_eq]
  refine wp_imp (addToBlocks_wp hw (by rw [hwork]; exact hd.tiled)
    (by rw [Nat.zero_add]; exact hd.le)
    ⟨child, fileType, Utf8.encode name, hz, hchild, htype, by omega⟩) ?_
  rintro done s2 (⟨rfl, ha2⟩ | ⟨rfl, rs, rs', hperm, hst⟩)
  · rw [if_neg (by simp), hd.size]
    have ha := ha1.still ha2
    have happ := appendDirBlock_wp (h.of_after ha) (D := D) (by rw [ha.vol_eq]; exact hd)
      ⟨child, fileType, Utf8.encode name, hz, hchild, htype, by omega⟩
    rw [ha.vol_eq] at happ
    refine wp_mono happ ?_ ?_
    · rintro - s3 ⟨hlive, ht, hs3, hD'⟩
      rw [ha.vol_eq] at ht
      exact ⟨hmem, hlive, ht, ha.steady_self.trans hs3, hD'⟩
    · rintro - s3 ⟨hk, hfull⟩
      refine ⟨⟨hk.mounted, hk.own, fun x => by rw [hk.inodeUsed, ha.vol_eq],
        fun x => by rw [hk.inode, ha.vol_eq], fun τ hτ => by rw [hk.leaf τ hτ, ha.vol_eq]⟩,
        fun _ hlt hbs hroom => hfull hlt hbs ?_⟩
      rw [ha.vol_eq]
      exact hroom.of_after ha
  · obtain ⟨hlive, ht, hs, -, D', hD', hlen, hins, -⟩ := (hst.of_after ha1).directory hd
    exact ⟨hmem, hlive, ht, hs, D', hD', by omega, .inl (hins _ hperm)⟩

/-- **`removeDirEntry`** removes an entry of the name, or raises and changes
nothing. Records are not merged to more than 64 KiB. -/
theorem removeDirEntry_wp [L.Ok] (name : String) :
    (removeDirEntry ino name).wp
      (fun t s' => Live L M s' ino ∧ Touched L M ino (vol L s) (vol L s') ∧ Steady L s s' ∧
        Rewritten L (vol L s) (vol L s') ∧ ∃ D', Directory L (vol L s') ino D' ∧
          (dirEntries D).Perm ((Utf8.encode name, t) :: dirEntries D'))
      (fun err s' => Same L s s' ∧
        (err = .fileNotFound name ∧ (∀ e ∈ dirEntries D, e.1 ≠ Utf8.encode name) ∨
          256 ^ 2 ≤ L.blockSize)) s := by
  refine h.readInode_bind fun s1 ha1 hw hwork => ?_
  simp only [wp_bind, wp_lift, wp_get, fileSize_eq hw.length_ge,
    ha1.mounted.tables.blockSize, hd.blocks_eq]
  refine wp_mono (removeFromBlocks_wp hw (by rw [hwork]; exact hd.tiled)
    (by rw [Nat.zero_add]; exact hd.le) (Utf8.encode name)) ?_ ?_
  · rintro res s2 (⟨rfl, hnone, ha2⟩ | ⟨t, rs, rs', rfl, hperm, hst⟩)
    · exact ⟨ha1.still ha2, .inl ⟨rfl, hnone⟩⟩
    · obtain ⟨hlive, ht, hs, hrw, D', hD', -, -, hdel⟩ := (hst.of_after ha1).directory hd
      exact ⟨hlive, ht, hs, hrw, D', hD', hdel _ hperm⟩
  · rintro err s2 ⟨hbig, ha2⟩
    exact ⟨ha1.still ha2, .inr hbig⟩

end

end Operations

end Walks

end PythonOS.Ext2
