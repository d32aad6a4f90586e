import Mathlib.Data.List.Sort
import PythonOS.Vfs.Tmpfs

/-!
# PythonOS.Vfs.Mounts

The mount table of the virtual file system (`kernel/fs/vfs.py`), path resolution
through it, its two synchronous counterparts, and `readdir` with the mounts below
a directory.

The mount of a path is chosen by comparing texts, longest mount point first, while
the rest of the path is cut into parts. `VFS.byComponents_iff_spelled` says for
which spellings of a path and of the mount points this is the choice by components.
-/

namespace PythonOS.Vfs

open Lib List Option Lib.Paths

/-! ### Nodes and file systems -/

/-- The nodes of the file systems other than tmpfs. As on the disk, `.` is the node itself. -/
class Backend (ν : Type) where
  lookup : ν → Text → Except Error ν
  readdir : ν → Except Error (List Text)
  lookup_dot : ∀ node, lookup node ['.'] = .ok node

inductive FSNode (ν : Type)
  | tmpfs (node : NodeRef)
  | other (node : ν)
  deriving DecidableEq

/-- A mounted file system: a `TmpFS`, or one without the synchronous helpers, which is
given by its root (`NodeFS`, `Ext2FS`). -/
inductive Filesystem (ν : Type)
  | tmpFS (root : NodeRef)
  | nodeFS (root : FSNode ν)

variable {ν : Type}

def Filesystem.root : Filesystem ν → FSNode ν
  | .tmpFS root => .tmpfs root
  | .nodeFS root => root

namespace FSNode

variable [Backend ν]

def lookup (h : Nodes) (node : FSNode ν) (name : Text) : Except Error (FSNode ν) :=
  match node with
  | .tmpfs n => (TmpfsNode.lookup h n name).map .tmpfs
  | .other n => (Backend.lookup n name).map .other

def readdir (h : Nodes) (node : FSNode ν) : Except Error (List Text) :=
  match node with
  | .tmpfs n => (h n).readdir
  | .other n => Backend.readdir n

/-- `for part in rel_parts: node = await node.lookup(part)`. -/
def walk (h : Nodes) (node : FSNode ν) : List Text → Except Error (FSNode ν)
  | [] => .ok node
  | part :: parts =>
    match node.lookup h part with
    | .error e => .error e
    | .ok kid => walk h kid parts

theorem lookup_dot (h : Nodes) (node : FSNode ν) : node.lookup h ['.'] = .ok node := by
  cases node with
  | tmpfs n => rfl
  | other n =>
    dsimp only [lookup]
    rw [Backend.lookup_dot]
    rfl

/-- A walk passes over `.`. -/
theorem walk_filter_dot (h : Nodes) (node : FSNode ν) (parts : List Text) :
    node.walk h parts = node.walk h (parts.filter (· ≠ ['.'])) := by
  induction parts generalizing node with
  | nil => rfl
  | cons part parts ih =>
    by_cases hdot : part = ['.']
    · subst hdot
      have hstep : node.walk h (['.'] :: parts) = node.walk h parts := by
        conv_lhs => unfold walk
        rw [lookup_dot]
      rw [hstep, ih]
      rfl
    · rw [filter_cons_of_pos (by simpa using hdot)]
      unfold walk
      cases node.lookup h part with
      | error e => rfl
      | ok kid => exact ih kid

/-- A walk that starts in tmpfs stays there. -/
theorem walk_tmpfs (h : Nodes) (node : NodeRef) (parts : List Text) :
    (FSNode.tmpfs node : FSNode ν).walk h parts = (lookups h node parts).map .tmpfs := by
  induction parts generalizing node with
  | nil => rfl
  | cons part parts ih =>
    unfold walk lookups
    dsimp only [lookup]
    cases TmpfsNode.lookup h node part with
    | error e => rfl
    | ok kid => exact ih kid

end FSNode

/-! ### The mount table -/

/-- `path.rstrip("/") or "/"`. -/
def normMount (path : Text) : Text :=
  if rstrip path = [] then ['/'] else rstrip path

/-- The order of the table. -/
def LongerFirst (m n : Text × Filesystem ν) : Prop := n.1.length ≤ m.1.length

instance : DecidableRel (@LongerFirst ν) := fun m n =>
  inferInstanceAs (Decidable (n.1.length ≤ m.1.length))

/-- The mounts of a `VFS`. -/
structure VFS (ν : Type) where
  mounts : List (Text × Filesystem ν) := []
  /-- A mount point is stored without trailing slashes. -/
  normal : ∀ m ∈ mounts, normMount m.1 = m.1
  sorted : mounts.Pairwise LongerFirst
  distinct : (mounts.map Prod.fst).Nodup

theorem rstrip_rstrip (s : Text) : rstrip (rstrip s) = rstrip s :=
  rdropWhile_idempotent _ _

theorem normMount_normMount (path : Text) : normMount (normMount path) = normMount path := by
  unfold normMount
  by_cases h : rstrip path = []
  · rw [if_pos h]
    rfl
  · rw [if_neg h, rstrip_rstrip, if_neg h]

namespace VFS

/-- `VFS()`. -/
def empty : VFS ν where
  normal := by simp
  sorted := List.Pairwise.nil
  distinct := nodup_nil

/-- `VFS.mount`. -/
def mount (v : VFS ν) (path : Text) (fs : Filesystem ν) : VFS ν where
  mounts := ((v.mounts.filter (·.1 ≠ normMount path)) ++ [(normMount path, fs)]).insertionSort
    LongerFirst
  normal := by
    intro m hm
    rw [mem_insertionSort, mem_append, mem_singleton] at hm
    rcases hm with hm | rfl
    · exact v.normal m (mem_filter.1 hm).1
    · exact normMount_normMount path
  sorted := by
    have : Std.Total (@LongerFirst ν) := ⟨fun m n => Nat.le_total n.1.length m.1.length⟩
    have : IsTrans _ (@LongerFirst ν) := ⟨fun _ _ _ hmn hno => Nat.le_trans hno hmn⟩
    exact pairwise_insertionSort _ _
  distinct := by
    have hperm := (perm_insertionSort LongerFirst
      ((v.mounts.filter (·.1 ≠ normMount path)) ++ [(normMount path, fs)])).map Prod.fst
    rw [hperm.nodup_iff, map_append, nodup_append]
    refine ⟨v.distinct.sublist (filter_sublist.map _), nodup_singleton _, ?_⟩
    intro p hp q hq
    obtain ⟨m, hm, rfl⟩ := mem_map.1 hp
    obtain rfl := mem_singleton.1 hq
    simpa using (mem_filter.1 hm).2

/-! ### Resolution -/

/-- What is left of a path below a mount point, in parts; `none` where the mount does not
match. -/
def relParts (s mp : Text) : Option (List Text) :=
  if mp = ['/'] then some (parts (s.drop 1))
  else if s = mp then some []
  else if (mp ++ ['/']).isPrefixOf s then some (parts (s.drop (mp.length + 1)))
  else none

/-- What is left of a path below a mount point, as the text the synchronous helpers of a
file system get. -/
def rel (s mp : Text) : Option Text :=
  if mp = ['/'] then some s
  else if s = mp then some ['/']
  else if (mp ++ ['/']).isPrefixOf s then some ('/' :: s.drop (mp.length + 1))
  else none

/-- `"/" + path.strip("/")`. -/
def normPath (path : Text) : Text := '/' :: strip path

/-- The loop of `_resolve`. -/
def resolveIn [Backend ν] (h : Nodes) (path : Text) :
    List (Text × Filesystem ν) → Except Error (FSNode ν)
  | [] => .error (.noFilesystem path)
  | (mp, fs) :: rest =>
    match relParts (normPath path) mp with
    | some parts => fs.root.walk h parts
    | none => resolveIn h path rest

/-- `VFS._resolve`. -/
def resolve [Backend ν] (v : VFS ν) (h : Nodes) (path : Text) : Except Error (FSNode ν) :=
  resolveIn h path v.mounts

/-- The loop of `read_sync` and `isdir_sync`: the helper of the first file system that
matches, or the default. -/
def syncIn {α : Type} (helper : NodeRef → Text → α) (default : α) (s : Text) :
    List (Text × Filesystem ν) → α
  | [] => default
  | (mp, fs) :: rest =>
    match rel s mp with
    | some r =>
      match fs with
      | .tmpFS root => helper root r
      | .nodeFS _ => default
    | none => syncIn helper default s rest

/-- `VFS.read_sync`. -/
def readSync (v : VFS ν) (h : Nodes) (path : Text) : Option Bytes :=
  syncIn (TmpFS.readSync h) none (normPath path) v.mounts

/-- `VFS.isdir_sync`. -/
def isdirSync (v : VFS ν) (h : Nodes) (path : Text) : Bool :=
  syncIn (TmpFS.isdirSync h) false (normPath path) v.mounts

/-- `readdir`: the text before the name of a child. -/
def childPrefix (path : Text) : Text :=
  if normPath path = ['/'] then ['/'] else normPath path ++ ['/']

/-- The loop of `readdir` over the mounts; `seen` is the set of the entries. -/
def addMounts (path : Text) : List (Text × Filesystem ν) → List Text → List Text
  | [], entries => entries
  | (mp, _) :: rest, entries =>
    if mp = ['/'] ∨ mp = normPath path then addMounts path rest entries
    else if ¬ (childPrefix path).isPrefixOf mp then addMounts path rest entries
    else
      let child := mp.drop (childPrefix path).length
      if '/' ∈ child then addMounts path rest entries
      else if child ∈ entries then addMounts path rest entries
      else addMounts path rest (entries ++ [child])

/-- `VFS.readdir`. -/
def readdir [Backend ν] (v : VFS ν) (h : Nodes) (path : Text) : Except Error (List Text) := do
  let node ← v.resolve h path
  let entries ← node.readdir h
  return addMounts path v.mounts entries

/-! ### The mount a resolution starts at -/

/-- The first mount that matches a path, with the parts left. -/
def locate (v : VFS ν) (path : Text) : Option ((Text × Filesystem ν) × List Text) :=
  v.mounts.findSome? fun m => (relParts (normPath path) m.1).map (m, ·)

theorem resolve_eq [Backend ν] (v : VFS ν) (h : Nodes) (path : Text) :
    v.resolve h path = match v.locate path with
      | none => .error (.noFilesystem path)
      | some (m, parts) => m.2.root.walk h parts := by
  unfold resolve locate
  induction v.mounts with
  | nil => rfl
  | cons m ms ih =>
    rw [findSome?_cons]
    unfold resolveIn
    cases relParts (normPath path) m.1 with
    | none => exact ih
    | some parts => rfl

variable {mp s path name : Text}

theorem rel_parts (hs : s.head? = some '/') : relParts s mp = (rel s mp).map parts := by
  unfold relParts rel
  by_cases hroot : mp = ['/']
  · rw [if_pos hroot, if_pos hroot]
    cases s with
    | nil => cases hs
    | cons c t =>
      obtain rfl : c = '/' := by simpa using hs
      simp
  · rw [if_neg hroot, if_neg hroot]
    by_cases heq : s = mp
    · rw [if_pos heq, if_pos heq]
      rfl
    · rw [if_neg heq, if_neg heq]
      split
      · simp
      · rfl

/-- A mount point matches a normalised path, as texts. -/
def Matches (s mp : Text) : Prop := mp = ['/'] ∨ s = mp ∨ mp ++ ['/'] <+: s

theorem relParts_isSome (s mp : Text) : (relParts s mp).isSome ↔ Matches s mp := by
  unfold relParts Matches
  by_cases hroot : mp = ['/']
  · simp [hroot]
  · by_cases heq : s = mp
    · rw [heq] at *
      simp [hroot]
    · by_cases hpre : mp ++ ['/'] <+: s <;> simp [hroot, heq, hpre]

variable {left : List Text}

/-- The parts of a path are those of a mount point that matches and then the parts left. -/
theorem parts_of_relParts (hs : s.head? = some '/') (h : relParts s mp = some left) :
    parts s = parts mp ++ left := by
  unfold relParts at h
  split at h
  · next hroot =>
    subst hroot
    cases h
    cases s with
    | nil => cases hs
    | cons c t =>
      obtain rfl : c = '/' := by simpa using hs
      simp
  · split at h
    · next heq =>
      cases h
      rw [heq, append_nil]
    · split at h <;> cases h
      next hpre =>
        obtain ⟨t, rfl⟩ := isPrefixOf_iff_prefix.1 hpre
        rw [append_assoc, singleton_append, parts_append_slash]
        simp

theorem relParts_ne_nil (hs : s.head? = some '/') (h : relParts s mp = some left) :
    ∀ p ∈ left, p ≠ [] := by
  intro p hp
  have hmem : p ∈ parts s := by
    rw [parts_of_relParts hs h]
    exact mem_append_right _ hp
  exact (of_mem_parts hmem).2

theorem normPath_head (path : Text) : (normPath path).head? = some '/' := rfl

theorem components_normPath (path : Text) : components (normPath path) = components path := by
  unfold normPath
  rw [components_slash, components_strip]

theorem components_of_relParts (h : relParts (normPath path) mp = some left) :
    components path = components mp ++ left.filter (· ≠ ['.']) := by
  rw [← components_normPath]
  unfold components
  rw [parts_of_relParts (normPath_head path) h, filter_append]

theorem components_of_matches (h : Matches (normPath path) mp) :
    components mp <+: components path := by
  obtain ⟨left, hleft⟩ := isSome_iff_exists.1 ((relParts_isSome _ _).2 h)
  exact ⟨_, (components_of_relParts hleft).symm⟩

theorem Matches.isPrefix (hs : s.head? = some '/') (h : Matches s mp) : mp <+: s := by
  rcases h with rfl | rfl | h
  · cases s with
    | nil => cases hs
    | cons c t =>
      obtain rfl : c = '/' := by simpa using hs
      exact ⟨t, rfl⟩
  · exact prefix_rfl
  · exact (prefix_append mp ['/']).trans h

/-- Of two mount points that match one path, the components of the shorter text are the
first components of the other. -/
theorem Matches.components_prefix {mq : Text} (hs : s.head? = some '/') (hp : Matches s mp)
    (hq : Matches s mq) (hlen : mp.length ≤ mq.length) : components mp <+: components mq := by
  obtain ⟨t, ht⟩ := prefix_of_prefix_length_le (hp.isPrefix hs) (hq.isPrefix hs) hlen
  rcases hp with rfl | heq | ⟨u, hu⟩
  · exact nil_prefix
  · obtain ⟨w, hw⟩ := hq.isPrefix hs
    have hnil : t = [] := by
      have hlens := congrArg List.length hw
      rw [← ht, heq] at hlens
      simp only [length_append] at hlens
      exact eq_nil_of_length_eq_zero (by omega)
    have hmq : mp = mq := by simpa [hnil] using ht
    exact hmq ▸ prefix_rfl
  · obtain ⟨w, hw⟩ := hq.isPrefix hs
    cases t with
    | nil =>
      have hmq : mp = mq := by simpa using ht
      exact hmq ▸ prefix_rfl
    | cons c t =>
      -- the text goes on with a slash after the shorter mount point
      have hc : c = '/' := by
        rw [← ht, ← hu] at hw
        simp only [append_assoc, append_cancel_left_eq, cons_append,
          nil_append, List.cons.injEq] at hw
        exact hw.1
      rw [← ht, hc, components_append_slash]
      exact prefix_append _ _

variable {m : Text × Filesystem ν} {v : VFS ν} {path : Text}

/-- The first mount that matches is a longest text that does. -/
theorem locate_some (h : v.locate path = some (m, left)) : m ∈ v.mounts ∧
      relParts (normPath path) m.1 = some left ∧
      ∀ n ∈ v.mounts, Matches (normPath path) n.1 → n.1.length ≤ m.1.length := by
  unfold locate at h
  obtain ⟨l1, n, l2, hmounts, hn, hnone⟩ := findSome?_eq_some_iff.1 h
  obtain ⟨left', hleft, heq⟩ := map_eq_some_iff.1 hn
  obtain ⟨rfl, rfl⟩ := Prod.mk.inj heq
  refine ⟨hmounts ▸ mem_append_right _ mem_cons_self, hleft, ?_⟩
  intro k hk hmatch
  have hsorted := v.sorted
  rw [hmounts] at hk hsorted
  rcases mem_append.1 hk with hk | hk
  · have hknone := map_eq_none_iff.1 (hnone k hk)
    rw [← relParts_isSome, hknone] at hmatch
    cases hmatch
  · rcases mem_cons.1 hk with rfl | hk
    · exact Nat.le_refl _
    · exact (pairwise_cons.1 (pairwise_append.1 hsorted).2.1).1 k hk

theorem locate_none (h : v.locate path = none) : ∀ n ∈ v.mounts, ¬ Matches (normPath path) n.1 := by
  intro n hn hmatch
  unfold locate at h
  have hnone := map_eq_none_iff.1 (findSome?_eq_none_iff.1 h n hn)
  rw [← relParts_isSome, hnone] at hmatch
  cases hmatch

/-! ### Resolution by components -/

/-- The mount whose components are the longest list that the path starts with; no other mount has
the same components. -/
structure Longest (v : VFS ν) (path : Text) (m : Text × Filesystem ν) : Prop where
  mounted : m ∈ v.mounts
  starts : components m.1 <+: components path
  longest : ∀ n ∈ v.mounts, n ≠ m → components n.1 <+: components path →
    (components n.1).length < (components m.1).length

/-- Resolution starts at the mount with the longest matching list of components, and looks
up the rest of the components in order; it fails where no mount matches. -/
def StartsAtLongest [Backend ν] (v : VFS ν) (path : Text) : Prop :=
  match v.locate path with
  | none => ∀ n ∈ v.mounts, ¬ components n.1 <+: components path
  | some (m, _) => v.Longest path m ∧ ∀ h, v.resolve h path =
      m.2.root.walk h ((components path).drop (components m.1).length)

theorem resolve_of_locate [Backend ν] (hloc : v.locate path = some (m, left)) (h : Nodes) :
    v.resolve h path = m.2.root.walk h ((components path).drop (components m.1).length) := by
  have hrel := (locate_some hloc).2.1
  rw [resolve_eq, hloc, components_of_relParts hrel, drop_left]
  exact FSNode.walk_filter_dot h _ left

theorem startsAtLongest_iff [Backend ν] (v : VFS ν) (path : Text) :
    v.StartsAtLongest path ↔ ((∃ m ∈ v.mounts, components m.1 <+: components path) →
      ∃ m, v.Longest path m ∧ Matches (normPath path) m.1) := by
  unfold StartsAtLongest
  cases hloc : v.locate path with
  | none =>
    have hnone := locate_none hloc
    constructor
    · rintro hno ⟨m, hm, hstarts⟩
      exact absurd hstarts (hno m hm)
    · intro hex n hn hstarts
      obtain ⟨m, hm, hmatch⟩ := hex ⟨n, hn, hstarts⟩
      exact hnone m hm.mounted hmatch
  | some found =>
    obtain ⟨m, left⟩ := found
    obtain ⟨hmem, hrel, hlen⟩ := locate_some hloc
    have hmatch : Matches (normPath path) m.1 := by
      rw [← relParts_isSome, hrel]
      rfl
    constructor
    · intro hstart _
      exact ⟨m, hstart.1, hmatch⟩
    · intro hex
      obtain ⟨n, hn, hnmatch⟩ := hex ⟨m, hmem, components_of_matches hmatch⟩
      have hpre := hnmatch.components_prefix (normPath_head path) hmatch
        (hlen n hn.mounted hnmatch)
      obtain rfl : m = n := by
        by_contra hne
        have hlt := hn.longest m hmem hne (components_of_matches hmatch)
        exact absurd hpre.length_le (Nat.not_le_of_lt hlt)
      exact ⟨hn, resolve_of_locate hloc⟩

/-! ### The synchronous lookups -/

/-- The content of the file that a resolution found. -/
def content (h : Nodes) : Except Error (FSNode ν) → Option Bytes
  | .ok (.tmpfs node) => if (h node).inodeType ≠ .file then none else some (h node).data
  | _ => none

/-- A resolution found a directory. -/
def isDirectory (h : Nodes) : Except Error (FSNode ν) → Bool
  | .ok (.tmpfs node) => (h node).inodeType = .dir
  | _ => false

/-- On a tmpfs mount the synchronous lookups find what the resolution finds. -/
def SyncAgrees [Backend ν] (v : VFS ν) (path : Text) : Prop :=
  ∀ m left root, v.locate path = some (m, left) → m.2 = .tmpFS root → ∀ h,
    v.readSync h path = content h (v.resolve h path) ∧
      v.isdirSync h path = isDirectory h (v.resolve h path)

variable {root : NodeRef}

/-- The synchronous loop takes the mount that the resolution starts at. -/
theorem syncIn_of_locate {α : Type} (helper : NodeRef → Text → α) (default : α)
    (hloc : v.locate path = some (m, left)) (hroot : m.2 = .tmpFS root) :
    ∃ r, parts r = left ∧ syncIn helper default (normPath path) v.mounts = helper root r := by
  unfold locate at hloc
  generalize v.mounts = ms at hloc ⊢
  induction ms with
  | nil => cases hloc
  | cons n ms ih =>
    obtain ⟨mp, fs⟩ := n
    rw [findSome?_cons] at hloc
    unfold syncIn
    rw [rel_parts (normPath_head path)] at hloc
    cases hrel : rel (normPath path) mp with
    | none =>
      rw [hrel] at hloc
      exact ih hloc
    | some r =>
      rw [hrel] at hloc
      cases hloc
      dsimp only at hroot
      rw [hroot]
      exact ⟨r, rfl, rfl⟩

theorem parts_normalised (r : Text) : parts ('/' :: strip r) = parts r := by
  rw [parts_slash, parts_strip]

section

variable (hloc : v.locate path = some (m, left)) (hroot : m.2 = .tmpFS root) (h : Nodes)

include hloc hroot h

theorem readSync_of_locate :
    v.readSync h path = match descend h root left with
      | none => none
      | some node => if (h node).inodeType ≠ .file then none else some (h node).data := by
  obtain ⟨r, hr, hsync⟩ := syncIn_of_locate (TmpFS.readSync h) none hloc hroot
  unfold readSync
  rw [hsync]
  dsimp only [TmpFS.readSync]
  rewrite [parts_normalised, hr]
  rfl

theorem isdirSync_of_locate :
    v.isdirSync h path = match descend h root left with
      | none => false
      | some node => decide ((h node).inodeType = .dir) := by
  obtain ⟨r, hr, hsync⟩ := syncIn_of_locate (TmpFS.isdirSync h) false hloc hroot
  unfold isdirSync
  rw [hsync]
  dsimp only [TmpFS.isdirSync]
  rewrite [parts_normalised, hr]
  rfl

theorem resolve_tmpFS [Backend ν] : v.resolve h path = (lookups h root left).map .tmpfs := by
  rw [resolve_eq, hloc]
  dsimp only
  rw [hroot]
  exact FSNode.walk_tmpfs h root left

end

/-- On a tmpfs mount the synchronous lookups agree with the resolution, whatever the file
system holds, exactly where the rest of the path has no `.`. -/
theorem syncAgrees_iff [Backend ν] (v : VFS ν) (path : Text) :
    v.SyncAgrees path ↔ ∀ m left root, v.locate path = some (m, left) → m.2 = .tmpFS root →
      ['.'] ∉ left := by
  constructor
  · intro hagree m left root hloc hroot hdot
    -- a chain of directories along the path, which only the resolution goes down
    have hisdir := (hagree m left root hloc hroot (chain root (left.filter (· ≠ ['.'])))).2
    have hne := relParts_ne_nil (normPath_head path) (locate_some hloc).2.1
    rw [isdirSync_of_locate hloc hroot, resolve_tmpFS hloc hroot,
      descend_chain_of_dot root root (by simp) hdot, lookups_chain root hne] at hisdir
    cases hisdir
  · intro hno m left root hloc hroot h
    have hne := relParts_ne_nil (normPath_head path) (locate_some hloc).2.1
    have hdots := hno m left root hloc hroot
    have hwalk : descend h root left = (lookups h root left).toOption :=
      descend_eq_lookups h root fun p hp => ⟨hne p hp, fun heq => hdots (heq ▸ hp)⟩
    rw [readSync_of_locate hloc hroot, isdirSync_of_locate hloc hroot,
      resolve_tmpFS hloc hroot, hwalk]
    cases lookups h root left with
    | error e => exact ⟨rfl, rfl⟩
    | ok node => exact ⟨rfl, rfl⟩

/-! ### Listings -/

/-- A mount point is the text of a path, a slash and a name. -/
structure IsChild (path mp name : Text) : Prop where
  not_root : mp ≠ ['/']
  not_self : mp ≠ normPath path
  spelled : mp = childPrefix path ++ name
  slash : '/' ∉ name

theorem IsChild.unique {name' : Text} (h : IsChild path mp name) (h' : IsChild path mp name') :
    name = name' :=
  append_cancel_left (h.spelled.symm.trans h'.spelled)

/-- One mount adds at most its own name. -/
theorem addMounts_cons (path : Text) (m : Text × Filesystem ν) (ms : List (Text × Filesystem ν))
    (entries : List Text) :
    (addMounts path (m :: ms) entries = addMounts path ms entries ∧
      ∀ name, IsChild path m.1 name → name ∈ entries) ∨
    ∃ child, IsChild path m.1 child ∧ child ∉ entries ∧
      addMounts path (m :: ms) entries = addMounts path ms (entries ++ [child]) := by
  obtain ⟨mp, fs⟩ := m
  by_cases hself : mp = ['/'] ∨ mp = normPath path
  · left
    refine ⟨by simp [addMounts, hself], ?_⟩
    intro name hchild
    rcases hself with h | h
    · exact absurd h hchild.not_root
    · exact absurd h hchild.not_self
  · by_cases hpre : childPrefix path <+: mp
    · obtain ⟨child, rfl⟩ := hpre
      by_cases hslash : '/' ∈ child
      · left
        refine ⟨by simp [addMounts, hself, hslash], ?_⟩
        intro name hchild
        obtain rfl := append_cancel_left hchild.spelled
        exact absurd hslash hchild.slash
      · obtain ⟨hroot, hnorm⟩ := not_or.1 hself
        have hchild : IsChild path (childPrefix path ++ child) child := ⟨hroot, hnorm, rfl, hslash⟩
        by_cases hmem : child ∈ entries
        · left
          refine ⟨by simp [addMounts, hself, hslash, hmem], ?_⟩
          intro name hname
          rw [hname.unique hchild]
          exact hmem
        · right
          exact ⟨child, hchild, hmem, by simp [addMounts, hself, hslash, hmem]⟩
    · left
      refine ⟨by simp [addMounts, hself, hpre], ?_⟩
      intro name hchild
      exact absurd ⟨name, hchild.spelled.symm⟩ hpre

/-- The loop adds each name once, and only names that are not there yet. -/
theorem addMounts_spec (path : Text) (ms : List (Text × Filesystem ν)) (entries : List Text) :
    ∃ extras, addMounts path ms entries = entries ++ extras ∧ extras.Nodup ∧
      ∀ name, name ∈ extras ↔ name ∉ entries ∧ ∃ m ∈ ms, IsChild path m.1 name := by
  induction ms generalizing entries with
  | nil => exact ⟨[], (append_nil _).symm, nodup_nil, by simp⟩
  | cons m ms ih =>
    rcases addMounts_cons path m ms entries with ⟨hstep, hno⟩ | ⟨child, hchild, hnew, hstep⟩
    · obtain ⟨extras, hadd, hnodup, hmem⟩ := ih entries
      refine ⟨extras, hstep.trans hadd, hnodup, ?_⟩
      intro name
      rw [hmem name]
      constructor
      · rintro ⟨hfresh, n, hn, hname⟩
        exact ⟨hfresh, n, mem_cons_of_mem _ hn, hname⟩
      · rintro ⟨hfresh, n, hn, hname⟩
        rcases mem_cons.1 hn with rfl | hn
        · exact absurd (hno name hname) hfresh
        · exact ⟨hfresh, n, hn, hname⟩
    · obtain ⟨extras, hadd, hnodup, hmem⟩ := ih (entries ++ [child])
      refine ⟨child :: extras, ?_, nodup_cons.2 ⟨?_, hnodup⟩, ?_⟩
      · rw [hstep, hadd, append_assoc, singleton_append]
      · intro hin
        exact ((hmem child).1 hin).1 (by simp)
      · intro name
        rw [mem_cons, hmem name]
        constructor
        · rintro (rfl | ⟨hfresh, n, hn, hname⟩)
          · exact ⟨hnew, m, mem_cons_self, hchild⟩
          · exact ⟨fun h => hfresh (mem_append_left _ h), n, mem_cons_of_mem _ hn, hname⟩
        · rintro ⟨hfresh, n, hn, hname⟩
          by_cases heq : name = child
          · exact .inl heq
          · right
            refine ⟨by simp [hfresh, heq], ?_⟩
            rcases mem_cons.1 hn with rfl | hn
            · exact absurd (hname.unique hchild) heq
            · exact ⟨n, hn, hname⟩

/-- A listing is the node's own entries and then, each once, the names of the mounts
immediately below the path that are not among them. -/
def ListsChildMounts [Backend ν] (v : VFS ν) (path : Text) : Prop :=
  ∀ h node own, v.resolve h path = .ok node → node.readdir h = .ok own →
    ∃ extras, v.readdir h path = .ok (own ++ extras) ∧ extras.Nodup ∧
      ∀ name, name ∈ extras ↔
        name ∉ own ∧ ∃ m ∈ v.mounts, components m.1 = components path ++ [name]

theorem readdir_eq [Backend ν] {h : Nodes} {node : FSNode ν}
    {own : List Text} (hnode : v.resolve h path = .ok node) (hown : node.readdir h = .ok own) :
    v.readdir h path = .ok (addMounts path v.mounts own) := by
  unfold readdir
  rw [hnode]
  dsimp only [bind, Except.bind]
  rw [hown]
  rfl

theorem components_childPrefix (path name : Text) :
    components (childPrefix path ++ name) = components path ++ components name := by
  unfold childPrefix
  by_cases hroot : normPath path = ['/']
  · rw [if_pos hroot, singleton_append, components_slash, ← components_normPath path, hroot]
    rfl
  · rw [if_neg hroot, append_assoc, singleton_append, components_append_slash, components_normPath]

/-- The text of a mount point does not end in the text before a child's name. -/
theorem IsChild.name_ne_nil (hm : m ∈ v.mounts) (h : IsChild path m.1 name) : name ≠ [] := by
  rintro rfl
  have hspelled := h.spelled
  rw [append_nil] at hspelled
  have hnorm := v.normal m hm
  unfold childPrefix at hspelled
  split at hspelled
  · exact h.not_root hspelled
  · unfold normMount rstrip at hnorm
    rw [hspelled, rdropWhile_concat_pos _ _ _ (by decide)] at hnorm
    have hlen := congrArg List.length hnorm
    have hle := ( rdropWhile_prefix (· = '/') (normPath path)).length_le
    split at hlen
    · simp [normPath] at hlen
    · rw [length_append, length_singleton] at hlen
      omega

/-- The components of a child, unless its name is `.`. -/
theorem IsChild.components (hm : m ∈ v.mounts) (h : IsChild path m.1 name) (hdot : name ≠ ['.']) :
    components m.1 = components path ++ [name] := by
  rw [h.spelled, components_childPrefix, components_of_not_mem h.slash (h.name_ne_nil hm) hdot]

theorem isChild_of_spelled (h : mp = childPrefix path ++ name) (hne : name ≠ [])
    (hslash : '/' ∉ name) : IsChild path mp name := by
  have hpos : 0 < name.length := length_pos_iff.2 hne
  have hprefix : (normPath path).length ≤ (childPrefix path).length := by
    unfold childPrefix
    split
    · next hroot => rw [hroot]
    · simp
  have hlen : (normPath path).length < mp.length := by
    rw [h, length_append]
    omega
  refine ⟨?_, ?_, h, hslash⟩
  · intro hroot
    rw [hroot] at hlen
    simp [normPath] at hlen
  · intro hself
    rw [hself] at hlen
    exact Nat.lt_irrefl _ hlen

/-- The mounts immediately below a path that its node does not list are spelled as the path
and their name, and none of them is spelled with a last part `.`. -/
def ChildrenSpelled [Backend ν] (v : VFS ν) (path : Text) : Prop :=
  ∀ h node own, v.resolve h path = .ok node → node.readdir h = .ok own →
    (∀ m ∈ v.mounts, ∀ name, components m.1 = components path ++ [name] → name ∉ own →
      ∃ n ∈ v.mounts, n.1 = childPrefix path ++ name) ∧
    ((∃ n ∈ v.mounts, n.1 = childPrefix path ++ ['.']) → ['.'] ∈ own)

theorem listsChildMounts_iff [Backend ν] (v : VFS ν) (path : Text) :
    v.ListsChildMounts path ↔ v.ChildrenSpelled path := by
  constructor
  · intro hlists h node own hnode hown
    obtain ⟨extras, hlist, -, hmem⟩ := hlists h node own hnode hown
    obtain ⟨added, hadded, -, hchild⟩ := addMounts_spec path v.mounts own
    rw [readdir_eq hnode hown, hadded] at hlist
    obtain rfl := append_cancel_left (Except.ok.inj hlist)
    constructor
    · intro m hm name hcomp hfresh
      obtain ⟨-, n, hn, hname⟩ := (hchild name).1 ((hmem name).2 ⟨hfresh, m, hm, hcomp⟩)
      exact ⟨n, hn, hname.spelled⟩
    · rintro ⟨n, hn, hspelled⟩
      by_contra hfresh
      have hdot : ['.'] ∈ added :=
        (hchild _).2 ⟨hfresh, n, hn, isChild_of_spelled hspelled (by decide) (by decide)⟩
      obtain ⟨-, m, -, hcomp⟩ := (hmem _).1 hdot
      -- no list of components has a `.`
      have hin : ['.'] ∈ components m.1 := by
        rw [hcomp]
        exact mem_append_right _ (mem_singleton_self _)
      exact (mem_components.1 hin).2 rfl
  · intro hspelled h node own hnode hown
    obtain ⟨hchildren, hdot⟩ := hspelled h node own hnode hown
    obtain ⟨added, hadded, hnodup, hmem⟩ := addMounts_spec path v.mounts own
    refine ⟨added, by rw [readdir_eq hnode hown, hadded], hnodup, ?_⟩
    intro name
    rw [hmem name]
    constructor
    · rintro ⟨hfresh, n, hn, hname⟩
      have hne : name ≠ ['.'] := by
        rintro rfl
        exact hfresh (hdot ⟨n, hn, hname.spelled⟩)
      exact ⟨hfresh, n, hn, hname.components hn hne⟩
    · rintro ⟨hfresh, m, hm, hcomp⟩
      obtain ⟨n, hn, hspelling⟩ := hchildren m hm name hcomp hfresh
      have hin : name ∈ components m.1 := by
        rw [hcomp]
        exact mem_append_right _ (mem_singleton_self _)
      obtain ⟨hslash, hne⟩ := of_mem_parts (mem_components.1 hin).1
      exact ⟨hfresh, n, hn, isChild_of_spelled hspelling hne hslash⟩

/-! ### All of it -/

/-- What a path finds depends on its components only. -/
structure ByComponents [Backend ν] (v : VFS ν) (path : Text) : Prop where
  start : v.StartsAtLongest path
  sync : v.SyncAgrees path
  listing : v.ListsChildMounts path

/-- The path and the mount points are spelled alike: the mount that the components choose
matches as a text, on a tmpfs mount no `.` is left, and the mounts immediately below are the
texts that extend the path's. -/
structure Spelled [Backend ν] (v : VFS ν) (path : Text) : Prop where
  start : (∃ m ∈ v.mounts, components m.1 <+: components path) →
    ∃ m, v.Longest path m ∧ Matches (normPath path) m.1
  sync : ∀ m left root, v.locate path = some (m, left) → m.2 = .tmpFS root → ['.'] ∉ left
  listing : v.ChildrenSpelled path

theorem byComponents_iff_spelled [Backend ν] (v : VFS ν) (path : Text) :
    v.ByComponents path ↔ v.Spelled path := by
  constructor
  · rintro ⟨hstart, hsync, hlisting⟩
    exact ⟨(v.startsAtLongest_iff path).1 hstart, (v.syncAgrees_iff path).1 hsync,
      (v.listsChildMounts_iff path).1 hlisting⟩
  · rintro ⟨hstart, hsync, hlisting⟩
    exact ⟨(v.startsAtLongest_iff path).2 hstart, (v.syncAgrees_iff path).2 hsync,
      (v.listsChildMounts_iff path).2 hlisting⟩

/-! ### A doubled slash -/

/-- A disk with an empty root directory. -/
instance : Backend Unit where
  lookup _ name := if name = ['.'] then .ok () else .error (.fileNotFound name)
  readdir _ := .ok []
  lookup_dot _ := rfl

/-- `/` and `/a/b`, both tmpfs, and the disk at `/disk`. -/
def threeMounts : VFS Unit :=
  ((empty.mount ['/'] (.tmpFS 0)).mount ['/', 'a', '/', 'b'] (.tmpFS 1)).mount
    ['/', 'd', 'i', 's', 'k'] (.nodeFS (.other ()))

/-- The file system at `/a/b` has a file `f`, the root file system has nothing. -/
def oneFile : Nodes := fun node =>
  match node with
  | 1 => { inodeType := .dir, children := [(['f'], 2)], leaf := fun h => absurd rfl h }
  | 2 => { inodeType := .file }
  | _ => { inodeType := .dir }

/-- `/a/b/f` is found and `/a//b/f` is not. -/
theorem doubled_slash_not_found :
    threeMounts.resolve oneFile ['/', 'a', '/', 'b', '/', 'f'] = .ok (.tmpfs 2) ∧
    threeMounts.resolve oneFile ['/', 'a', '/', '/', 'b', '/', 'f'] = .error (.fileNotFound ['a']) ∧
    ¬ threeMounts.ByComponents ['/', 'a', '/', '/', 'b', '/', 'f'] := by
  refine ⟨rfl, rfl, ?_⟩
  intro hby
  have hstart : threeMounts.Longest ['/', 'a', '/', '/', 'b', '/', 'f'] (['/'], .tmpFS 0) :=
    hby.start.1
  have hmem : (['/', 'a', '/', 'b'], .tmpFS 1) ∈ threeMounts.mounts :=
    mem_cons_of_mem _ mem_cons_self
  have hlong := hstart.longest _ hmem (by simp) ⟨[['f']], rfl⟩
  exact absurd hlong (by decide)

end VFS

end PythonOS.Vfs
