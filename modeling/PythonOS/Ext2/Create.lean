import PythonOS.Ext2.Nodes

/-!
# PythonOS.Ext2.Create

What `create` does: `nodeCreate_wp`. A call that returns made an inode and an entry for
it (`Created`); a call that raises has changed nothing, or it has left the inode that it
had allocated (`CreateRaised`).
-/

namespace PythonOS.Ext2

open Lib List Coro Lib.Bytes

section

variable {L : Layout} {M : Set Nat} {s : Ext2FS} {ino : Nat}

theorem Mounted.length_inode_ge [hL : L.Ok] (h : Mounted L s) (hino : L.HasInode ino) :
    128 ≤ ((vol L s).inode ino).length := by
  rw [h.length_inode hino]
  exact hL.inodeSize_ge

/-- **`requireFormat`** returns the inode if it has the format. -/
theorem requireFormat_wp [L.Ok] (h : Mounted L s) (hino : L.HasInode ino) (format : Nat)
    (e : Error) :
    (requireFormat ino format e).wp (fun raw s' => raw = (vol L s).inode ino ∧
        modeFormat (leAt 2 ((vol L s).inode ino) 0) = format ∧ Same L s s')
      (fun _ s' => modeFormat (leAt 2 ((vol L s).inode ino) 0) ≠ format ∧ Same L s s') s := by
  refine wp_bind_ok (readInode_wp h hino) ?_
  rintro raw s1 ⟨rfl, ha⟩
  simp only [wp_bind, wp_lift, iMode_eq (h.length_inode_ge hino)]
  rw [wp_ite]
  exact ⟨fun hf => ⟨rfl, hf, ha⟩, fun hf => ⟨hf, ha⟩⟩

theorem findName_listed (D : List (List Record)) (name : String) :
    findName ((dirEntries D).map RawEntry.listed) name = (firstEntry D name).map Prod.snd := by
  unfold findName
  rw [find?_map, Option.map_map]
  rfl

/-- The listing has the name. -/
def Listed (D : List (List Record)) (name : String) : Prop :=
  ∃ e ∈ dirEntries D, Utf8.decode e.1 = name

theorem findName_isSome (D : List (List Record)) (name : String) :
    (findName ((dirEntries D).map RawEntry.listed) name).isSome ↔ Listed D name := by
  rw [findName_listed, Option.isSome_map, find?_isSome]
  simp [Listed]

/-! ### Link counts -/

/-- The link count of `ino` was set to `v`. -/
structure Relinked (L : Layout) (M : Set Nat) (s : Ext2FS) (ino v : Nat) (s' : Ext2FS) : Prop where
  mounted : Mounted L s'
  edited : Edited L M {ino} (vol L s) (vol L s')
  inodeUsed : ∀ x, (vol L s').inodeUsed x = (vol L s).inodeUsed x
  inode : (vol L s').inode ino = setLinks ((vol L s).inode ino) v
  leaf : ∀ τ, leafData L (vol L s') τ = leafData L (vol L s) τ
  sameBlocks : SameBlocks L (vol L s) (vol L s')
  steady : Steady L s s'

/-- The link count of an inode is written. -/
theorem writeLinks_wp [L.Ok] (h : Mounted L s) (ho : Own L M (vol L s))
    (hino : L.HasInode ino) (v : Nat) :
    (writeInode ino (setLinks ((vol L s).inode ino) v)).returns
      (fun _ s' => Relinked L M s ino v s') s := by
  have hraw := h.length_inode_ge hino
  refine wp_imp (writeInode_wp h hino ((length_setLinks hraw v).trans (h.length_inode hino))) ?_
  intro _ s' ha
  obtain ⟨hedit, hleaf⟩ := Own.edited_setLinks hraw v ho
  refine ⟨ha.mounted, by rw [ha.vol_eq]; exact hedit, fun x => by rw [ha.vol_eq]; rfl, ?_,
    fun τ => by rw [ha.vol_eq]; exact hleaf τ, by rw [ha.vol_eq]; exact sameBlocks_setLinks hraw v,
    ha.steady (fun _ => rfl) (fun _ => rfl) rfl⟩
  rw [ha.vol_eq, Volume.inode_setInode, if_pos rfl]

namespace Relinked

variable {v : Nat} {s' : Ext2FS}

section

variable (h : Relinked L M s ino v s') (hm : Mounted L s) (hino : L.HasInode ino)

include h hm hino

theorem leAt_eq [L.Ok] (x : Nat) {w off : Nat} (hoff : off + w ≤ 26 ∨ 28 ≤ off) :
    leAt w ((vol L s').inode x) off = leAt w ((vol L s).inode x) off := by
  by_cases hx : x = ino
  · rw [hx, h.inode, leAt_setLinks (hm.length_inode_ge hino) v hoff]
  · rw [h.edited.inode x hx]

theorem live [L.Ok] {x : Nat} (hx : Live L M s x) : Live L M s' x := by
  refine ⟨h.mounted, h.edited.own, (h.inodeUsed x).trans hx.inodeUsed, ?_⟩
  by_cases hxi : x = ino
  · subst hxi
    rw [h.inode, hasBlocks_setLinks (hm.length_inode_ge hino)]
    exact hx.kind
  · rw [h.edited.inode x hxi]
    exact hx.kind

theorem directory [L.Ok] {x : Nat} {D : List (List Record)} (hd : Directory L (vol L s) x D) :
    Directory L (vol L s') x D := by
  refine ⟨?_, ?_, hd.le, hd.tiled.congr fun k _ _ => h.leaf _⟩
  · rw [h.leAt_eq hm hino x (.inl (by omega))]
    exact hd.mode
  · rw [← hd.size, sizeOf, sizeOf, h.leAt_eq hm hino x (.inl (by omega)),
      h.leAt_eq hm hino x (.inl (by omega)), h.leAt_eq hm hino x (.inr (by omega))]

end

end Relinked

/-! ### A new directory -/

/-- A new directory got its two entries, and its parent another link. -/
structure Initialized (L : Layout) (M : Set Nat) (s : Ext2FS) (ino parent : Nat) (s' : Ext2FS) :
    Prop where
  mounted : Mounted L s'
  edited : Edited L M {parent, ino} (vol L s) (vol L s')
  steady : Steady L s s'
  inodeUsed : ∀ x, (vol L s').inodeUsed x = (vol L s).inodeUsed x
  parentFits : leAt 2 ((vol L s).inode parent) 26 + 1 < 256 ^ 2
  parentInode : (vol L s').inode parent =
    setLinks ((vol L s).inode parent) (leAt 2 ((vol L s).inode parent) 26 + 1)
  parentLive : Live L M s' parent
  parentDir : ∀ D, Directory L (vol L s) parent D → Directory L (vol L s') parent D
  mode : leAt 2 ((vol L s').inode ino) 0 = leAt 2 ((vol L s).inode ino) 0
  links : leAt 2 ((vol L s').inode ino) 26 = 2
  directory : ∃ D, Directory L (vol L s') ino D ∧
    (dirEntries D).Perm [(Utf8.encode "..", parent, 2), (Utf8.encode ".", ino, 2)]

/-- **`initDirectory`** -/
theorem initDirectory_wp [hL : L.Ok] {parent : Nat} (h : Live L M s ino)
    (hd : Directory L (vol L s) ino []) (hp : Live L M s parent) (hne : parent ≠ ino) :
    (initDirectory ino parent).wp (fun _ s' => Initialized L M s ino parent s')
      (fun _ s' => ∀ x, (vol L s').inodeUsed x = (vol L s).inodeUsed x) s := by
  have hlt : ∀ {x}, L.HasInode x → x ≠ 0 ∧ x < 256 ^ 4 := fun {x} hx => by
    have := hL.inodesCount_lt
    have hle := hx.2
    exact ⟨by have := hx.1; omega, by omega⟩
  have hsingle : parent ∉ ({ino} : Set Nat) := hne
  simp only [initDirectory]
  -- the entry of the directory itself
  refine wp_bind_of (addDirEntry_wp h hd (hlt h.hasInode).1 (hlt h.hasInode).2 (by decide))
    (fun _ _ hk => hk.1.inodeUsed) ?_
  rintro - s1 ⟨-, h1, ht1, hs1, D1, hd1, hlen1, hperm1 | ⟨-, hbig, hsmall⟩⟩
  swap
  · rw [length_nil, Nat.zero_add, Nat.one_mul] at hbig
    omega
  have hp1 := ht1.edited.live h1.mounted hsingle hp
  -- the entry of the parent
  refine wp_bind_of (addDirEntry_wp h1 hd1 (hlt hp.hasInode).1 (hlt hp.hasInode).2 (by decide))
    (fun _ _ hk x => (hk.1.inodeUsed x).trans (ht1.inodeUsed x)) ?_
  rintro - s2 ⟨-, h2, ht2, hs2, D2, hd2, hlen2, hperm2 | ⟨-, hbig, hsmall⟩⟩
  swap
  · have := Nat.mul_le_mul_right L.blockSize (show D1.length + 1 ≤ 2 by simpa using hlen1)
    omega
  have hp2 := ht2.edited.live h2.mounted hsingle hp1
  have ht := ht1.trans ht2
  have hraw2 := h2.mounted.length_inode_ge h2.hasInode
  -- the links of the directory
  refine wp_bind_ok (readInode_wp h2.mounted h2.hasInode) ?_
  rintro raw s3 ⟨rfl, ha3⟩
  simp only [wp_bind, wp_lift, setILinks_eq hraw2 (show (0 : Int) ≤ 2 by decide)
    (show (2 : Int).toNat < 256 ^ 2 by decide)]
  have hwrite3 := writeLinks_wp ha3.mounted (by rw [ha3.vol_eq]; exact h2.own) h2.hasInode 2
  rw [ha3.vol_eq] at hwrite3
  refine wp_imp hwrite3 ?_
  rintro - s4 hr4
  have hp3 := hp2.of_after ha3
  have hused4 : ∀ x, (vol L s4).inodeUsed x = (vol L s).inodeUsed x := fun x => by
    rw [hr4.inodeUsed, ha3.vol_eq, ht.inodeUsed]
  have hp4 := hr4.live ha3.mounted h2.hasInode hp3
  have hd4 : Directory L (vol L s4) ino D2 :=
    hr4.directory ha3.mounted h2.hasInode (by rw [ha3.vol_eq]; exact hd2)
  have hraw4 := hp4.mounted.length_inode_ge hp4.hasInode
  have hsame : (vol L s4).inode parent = (vol L s).inode parent := by
    rw [hr4.edited.inode _ hsingle, ha3.vol_eq, ht.inode _ hne]
  -- the links of the parent
  refine wp_imp (readInode_wp hr4.mounted hp.hasInode) ?_
  rintro raw s5 ⟨rfl, ha5⟩
  simp only [iLinks_eq hraw4]
  by_cases hfits : leAt 2 ((vol L s4).inode parent) 26 + 1 < 256 ^ 2
  · simp only [setILinks_eq hraw4 (Int.natCast_nonneg _)
      (show ((leAt 2 ((vol L s4).inode parent) 26 + 1 : Nat) : Int).toNat < 256 ^ 2 from hfits),
      Int.toNat_natCast]
    have hwrite5 := writeLinks_wp ha5.mounted (by rw [ha5.vol_eq]; exact hp4.own) hp.hasInode
      (leAt 2 ((vol L s4).inode parent) 26 + 1)
    rw [ha5.vol_eq] at hwrite5
    refine wp_imp hwrite5 ?_
    rintro - s6 hr6
    have he1 : Edited L M {parent, ino} (vol L s) (vol L s2) := ht.edited.mono (by simp)
    have he2 : Edited L M {parent, ino} (vol L s3) (vol L s4) := hr4.edited.mono (by simp)
    have he3 : Edited L M {parent, ino} (vol L s5) (vol L s6) := hr6.edited.mono (by simp)
    rw [ha3.vol_eq] at he2
    rw [ha5.vol_eq] at he3
    refine ⟨hr6.mounted, (he1.trans he2).trans he3, ?_, fun x => ?_, hsame ▸ hfits, ?_, ?_,
      fun D hD => ?_,
      ?_, ?_, D2, ?_, ?_⟩
    · exact ((((hs1.trans hs2).trans ha3.steady_self).trans hr4.steady).trans
        ha5.steady_self).trans hr6.steady
    · rw [hr6.inodeUsed, ha5.vol_eq, hused4]
    · rw [hr6.inode, ha5.vol_eq, hsame]
    · exact hr6.live ha5.mounted hp.hasInode (hp4.of_after ha5)
    · refine hr6.directory ha5.mounted hp.hasInode ?_
      rw [ha5.vol_eq]
      refine hr4.directory ha3.mounted h2.hasInode ?_
      rw [ha3.vol_eq]
      exact ht.edited.directory hsingle hD
    · rw [hr6.leAt_eq ha5.mounted hp.hasInode ino (.inl (by omega)), ha5.vol_eq,
        hr4.leAt_eq ha3.mounted h2.hasInode ino (.inl (by omega)), ha3.vol_eq, ht.mode]
    · rw [hr6.edited.inode ino hne.symm, ha5.vol_eq, hr4.inode, ha3.vol_eq,
        links_setLinks hraw2 2 (by decide)]
    · refine hr6.directory ha5.mounted hp.hasInode ?_
      rw [ha5.vol_eq]
      exact hd4
    · refine hperm2.trans (List.Perm.cons _ ?_)
      simpa [dirEntries] using hperm1
  · -- the link count of the parent does not fit its field
    have herr : setILinks ((vol L s4).inode parent)
        ((leAt 2 ((vol L s4).inode parent) 26 + 1 : Nat) : Int) = .error .struct := by
      unfold setILinks pack packInto
      rw [if_neg fun hc => hfits (by have := hc.2; rwa [Int.toNat_natCast] at this)]
    simp only [herr]
    intro x
    rw [ha5.vol_eq, hused4]

/-! ### `create` -/

/-- The mode that `create` gives an inode. -/
def createMode (type : InodeType) : Nat :=
  inodeTypeToMode type (if type = .dir then 0o755 else 0o644)

theorem createMode_lt (type : InodeType) : createMode type < 256 ^ 2 := by
  cases type <;> decide

theorem format_createMode (type : InodeType) : modeFormat (createMode type) =
    match type with
    | .dir => sIfDir
    | .symlink => sIfLnk
    | _ => sIfReg := by
  cases type <;> decide

/-- `create` made the inode `new` and its entry. -/
structure Created (L : Layout) (M : Set Nat) (s : Ext2FS) (ino : Nat) (D : List (List Record))
    (name : String) (type : InodeType) (new : Nat) (s' : Ext2FS) : Prop where
  fresh : L.FreshInode (vol L s) new
  unlisted : ¬ Listed D name
  nameLen : (Utf8.encode name).length ∈ Set.Icc 1 255
  mounted : Mounted L s'
  edited : Edited L M {ino, new} (vol L s) (vol L s')
  recounted : Recounted L s s' fun g => if type = .dir ∧ L.inodeGroup new = g then 1 else 0
  used : (vol L s').inodeUsed new = true
  mode : leAt 2 ((vol L s').inode new) 0 = createMode type
  links : leAt 2 ((vol L s').inode new) 26 = if type = .dir then 2 else 1
  file : type ≠ .dir → Blank ((vol L s').inode new) (createMode type) ∧
    ∀ τ, L.shape.Leaf τ → τ.1.1 = new → leafData L (vol L s') τ = zeros L.blockSize
  directory : type = .dir → ∃ D₀, Directory L (vol L s') new D₀ ∧
    (dirEntries D₀).Perm [(Utf8.encode "..", ino, 2), (Utf8.encode ".", new, 2)]
  parentLive : Live L M s' ino
  parentLinks : leAt 2 ((vol L s').inode ino) 26 =
    leAt 2 ((vol L s).inode ino) 26 + if type = .dir then 1 else 0
  entry : ∃ D', Directory L (vol L s') ino D' ∧
    ((dirEntries D').Perm ((Utf8.encode name, new, inodeTypeToFiletype type) :: dirEntries D) ∨
      D' = [] ∧ 2 ^ 32 ≤ (D.length + 1) * L.blockSize ∧ L.blockSize < 256 ^ 2)

/-- What `create` leaves behind when it raises: everything as it was, or an inode that
was allocated. -/
def CreateRaised (L : Layout) (s : Ext2FS) (D : List (List Record)) (name : String)
    (s' : Ext2FS) : Prop :=
  After L s ∅ (vol L s) s' ∧ (Listed D name ∨ NoInode L (vol L s)) ∨
    ¬ Listed D name ∧ ∃ x, L.FreshInode (vol L s) x ∧ (vol L s').inodeUsed x = true

/-- The inode is there, without an entry. -/
structure Born (L : Layout) (M : Set Nat) (s : Ext2FS) (new : Nat) (type : InodeType)
    (s' : Ext2FS) : Prop where
  mounted : Mounted L s'
  edited : Edited L M {new} (vol L s) (vol L s')
  recounted : Recounted L s s' fun g => if type = .dir ∧ L.inodeGroup new = g then 1 else 0
  inodeUsed : (vol L s').inodeUsed new = true
  blank : Blank ((vol L s').inode new) (createMode type)
  leaf : ∀ τ, τ.1.1 = new → leafData L (vol L s') τ = zeros L.blockSize

theorem After.born (ho : Own L M (vol L s)) {new : Nat} {type : InodeType} {s1 s2 : Ext2FS}
    {raw : Bytes} (hfresh : L.FreshInode (vol L s) new) (hraw : Blank raw (createMode type))
    (ha1 : After L s ∅ ((vol L s).takeInode L new (decide (type = .dir))) s1)
    (ha2 : After L s1 ∅ ((vol L s1).setInode new raw) s2) : Born L M s new type s2 := by
  rw [ha1.vol_eq] at ha2
  have hvol : vol L s2 = (vol L s).addInode L new (decide (type = .dir)) raw := ha2.vol_eq
  obtain ⟨hedit, hleaf⟩ := ho.edited_addInode hfresh.2 (decide (type = .dir)) hraw
  have hself : ((vol L s).addInode L new (decide (type = .dir)) raw).inodeUsed new = true := by
    refine (Volume.inodeUsed_takeInode (vol L s) L new new (decide (type = .dir))).trans ?_
    rw [if_pos rfl]
  have hinode : ((vol L s).addInode L new (decide (type = .dir)) raw).inode new = raw := by
    rw [Volume.addInode, Volume.inode_setInode, if_pos rfl]
  refine ⟨ha2.mounted, by rw [hvol]; exact hedit, ⟨(ha1.trans_empty ha2).synced, fun hc => ?_,
    fun g => ?_⟩, by rw [hvol, hself], by rw [hvol, hinode]; exact hraw,
    fun τ hτ => by rw [hvol, hleaf, if_pos hτ]⟩
  · rw [hvol]
    exact (hc.takeInode hfresh _).congr (fun _ => rfl) (fun _ => rfl) rfl
  · rw [ha2.counters_eq]
    refine (congrFun (Counts.group_add _ _ _ _ _).2.2 g).trans ?_
    rw [Function.update_apply]
    by_cases hg : g = L.inodeGroup new
    · simp [hg, vol, volume]
    · rw [if_neg hg, if_neg fun hc => hg hc.2.symm, Int.add_zero]
      rfl

/-- **`create`** -/
theorem nodeCreate_wp [hL : L.Ok] (h : Live L M s ino) {D : List (List Record)}
    (hd : Directory L (vol L s) ino D) (name : String) (type : InodeType) :
    (nodeCreate ino name type).wp (fun new s' => Created L M s ino D name type new s')
      (fun _ s' => CreateRaised L s D name s') s := by
  refine wp_bind_of (requireFormat_wp h.mounted h.hasInode sIfDir .notADirectory)
    (fun _ _ hf => absurd hd.mode hf.1) ?_
  rintro - s1 ⟨-, -, ha1⟩
  refine wp_bind_ok (readDirEntries_wp (h.of_after ha1) (by rw [ha1.vol_eq]; exact hd)) ?_
  rintro - s2 ⟨rfl, ha2⟩
  have ha := ha1.still ha2
  rw [wp_ite]
  refine ⟨fun hsome => .inl ⟨ha, .inl ((findName_isSome D name).mp hsome)⟩, fun hnone => ?_⟩
  have hunlisted : ¬ Listed D name := fun hl => hnone ((findName_isSome D name).mpr hl)
  have h2 := h.of_after ha
  -- from here on the new inode is what is left when something raises
  have hraised : ∀ {x s'}, L.FreshInode (vol L s) x → (vol L s').inodeUsed x = true →
      CreateRaised L s D name s' := fun hx hs' => .inr ⟨hunlisted, _, hx, hs'⟩
  refine wp_bind_of (allocInode_wp h2.mounted (decide (type = .dir))) ?_ ?_
  · rintro - s' (⟨ha', hno⟩ | ⟨x, k, hx, hfree, -, hleaves⟩)
    · rw [ha.vol_eq] at hno
      exact .inl ⟨ha.still ha', .inr hno⟩
    · rw [ha.vol_eq] at hfree
      refine hraised ⟨hx, hfree⟩ ?_
      rw [hleaves.vol_eq]
      exact (Volume.inodeUsed_setInodeUsed (vol L s2) x x true).trans (if_pos rfl)
  rintro new s3 ⟨hhas, hfree, ha3⟩
  have hfresh : L.FreshInode (vol L s) new := ⟨hhas, by rw [← ha.vol_eq]; exact hfree⟩
  have hne : ino ≠ new := by
    rintro rfl
    exact absurd (h.inodeUsed.symm.trans hfresh.2) (by decide)
  have hsingle : ino ∉ ({new} : Set Nat) := hne
  have hbounds : new ≠ 0 ∧ new < 256 ^ 4 := by
    have := hL.inodesCount_lt
    have hle := hhas.2
    exact ⟨by have := hhas.1; omega, by omega⟩
  obtain ⟨raw, hraw, hlen, hblank⟩ := newInode_ok (n := L.inodeSize) hL.inodeSize_ge
    (createMode_lt type)
  simp only [wp_bind, wp_get, wp_lift, ha3.mounted.tables.inodeSize]
  rw [show newInode L.inodeSize (inodeTypeToMode type
    (if type = .dir then 0o755 else 0o644)) = .ok raw
    from hraw]
  refine wp_imp (writeInode_wp ha3.mounted hhas hlen) ?_
  rintro - s4 ha4
  have hborn : Born L M s2 new type s4 :=
    After.born h2.own (by rw [ha.vol_eq]; exact hfresh) hblank ha3 ha4
  have hedit := hborn.edited
  rw [ha.vol_eq] at hedit
  have hp4 : Live L M s4 ino := hedit.live hborn.mounted hsingle h
  have hd4 : Directory L (vol L s4) ino D := hedit.directory hsingle hd
  have hinode4 : (vol L s4).inode ino = (vol L s).inode ino := hedit.inode ino hsingle
  have hcount := Recounted.of_steady ha.steady_self hborn.recounted
  have hfile : inodeTypeToFiletype type < 256 ^ 1 := by cases type <;> decide
  rw [wp_ite]
  refine ⟨fun hdir => ?_, fun hdir => ?_⟩
  · -- a directory gets its entries first
    have hmode4 : IsDir ((vol L s4).inode new) := by
      rw [IsDir, hborn.blank.mode_eq, format_createMode, hdir]
    have hnew4 : Live L M s4 new := ⟨hborn.mounted, hedit.own, hborn.inodeUsed, .inr (.inl hmode4)⟩
    have hempty : Directory L (vol L s4) new [] :=
      ⟨hmode4, by rw [hborn.blank.sizeOf, length_nil, Nat.zero_mul], Nat.zero_le _, trivial⟩
    refine wp_bind_of (initDirectory_wp hnew4 hempty hp4 hne)
      (fun _ s' hused => hraised hfresh ((hused new).trans hborn.inodeUsed)) ?_
    rintro - s5 hi
    have hused5 : (vol L s5).inodeUsed new = true := (hi.inodeUsed new).trans hborn.inodeUsed
    refine wp_bind_of (addDirEntry_wp hi.parentLive (hi.parentDir D hd4) hbounds.1 hbounds.2
      hfile) (fun _ s' hk => hraised hfresh ((hk.1.inodeUsed new).trans hused5)) ?_
    rintro - s6 ⟨hname, hp6, ht6, hs6, D', hd6, -, hentry⟩
    obtain ⟨D0, hd0, hperm0⟩ := hi.directory
    have hnew6 : (vol L s6).inode new = (vol L s5).inode new := ht6.inode new hne.symm
    have he1 : Edited L M {ino, new} (vol L s) (vol L s4) := hedit.mono (by simp)
    have he2 : Edited L M {ino, new} (vol L s5) (vol L s6) := ht6.edited.mono (by simp)
    have hd0' : Directory L (vol L s6) new D0 := ht6.edited.directory (Ne.symm hne) hd0
    have hmode6 : leAt 2 ((vol L s6).inode new) 0 = createMode type := by
      rw [hnew6, hi.mode, hborn.blank.mode_eq]
    refine ⟨hfresh, hunlisted, hname, hp6.mounted, (he1.trans hi.edited).trans he2,
      (hcount.steady hi.steady).steady hs6, (ht6.inodeUsed new).trans hused5, hmode6, ?_,
      fun hc => absurd hdir hc, fun _ => ⟨D0, hd0', hperm0⟩, hp6, ?_, D', hd6, hentry⟩
    · rw [hnew6, hi.links, if_pos hdir]
    · rw [ht6.fixed 2 26 (.inr ⟨by omega, by omega⟩), hi.parentInode,
        links_setLinks (hp4.mounted.length_inode_ge hp4.hasInode) _ hi.parentFits, hinode4,
        if_pos hdir]
  · refine wp_bind_of (addDirEntry_wp hp4 hd4 hbounds.1 hbounds.2 hfile)
      (fun _ s' hk => hraised hfresh ((hk.1.inodeUsed new).trans hborn.inodeUsed)) ?_
    rintro - s5 ⟨hname, hp5, ht5, hs5, D', hd5, -, hentry⟩
    have hnew5 : (vol L s5).inode new = (vol L s4).inode new := ht5.inode new hne.symm
    have he1 : Edited L M {ino, new} (vol L s) (vol L s4) := hedit.mono (by simp)
    have he2 : Edited L M {ino, new} (vol L s4) (vol L s5) := ht5.edited.mono (by simp)
    refine ⟨hfresh, hunlisted, hname, hp5.mounted, he1.trans he2, hcount.steady hs5,
      (ht5.inodeUsed new).trans hborn.inodeUsed, by rw [hnew5, hborn.blank.mode_eq],
      by rw [hnew5, hborn.blank.links, if_neg hdir], fun _ =>
        ⟨by rw [hnew5]; exact hborn.blank, ?_⟩,
      fun hc => absurd hc hdir, hp5, ?_, D', hd5, hentry⟩
    · intro τ hτ hi
      rw [ht5.other τ hτ (by rw [hi]; exact hne.symm), hborn.leaf τ hi]
    · rw [ht5.fixed 2 26 (.inr ⟨by omega, by omega⟩), hinode4, if_neg hdir, Nat.add_zero]

/-- Nothing is created in what is no directory. -/
theorem nodeCreate_not_dir [L.Ok] (h : Mounted L s) (hino : L.HasInode ino)
    {name : String} {type : InodeType} (hmode : ¬ IsDir ((vol L s).inode ino)) :
    (nodeCreate ino name type).wp (fun _ _ => False) (fun _ s' => Same L s s') s := by
  refine wp_bind_of (requireFormat_wp h hino sIfDir .notADirectory)
    (fun _ _ hf => hf.2) ?_
  rintro - s1 ⟨-, hdir, -⟩
  exact absurd hdir hmode

end

end PythonOS.Ext2
