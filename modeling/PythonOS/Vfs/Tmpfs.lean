import PythonOS.Ext2.Node
import PythonOS.Lib.Dict
import PythonOS.Lib.Paths

/-!
# PythonOS.Vfs.Tmpfs

The in-memory file system (`kernel/fs/tmpfs.py`): its nodes, the asynchronous
`lookup` and `readdir` of a node, and the synchronous walks `read_sync` and
`isdir_sync` of the whole file system.
-/

namespace PythonOS.Vfs

open Lib List Lib.Paths
open Ext2 (InodeType)

/-- What a path operation raises. -/
inductive Error
  | fileNotFound (name : Text)
  /-- `FileNotFoundError(f"No filesystem mounted for {path!r}")` -/
  | noFilesystem (path : Text)
  | isADirectory
  | notADirectory
  | os
  deriving Repr, DecidableEq

/-- A node object. -/
abbrev NodeRef := Nat

/-- `TmpfsNode`. Only directories get children: `create` refuses the others. -/
structure TmpfsNode where
  inodeType : InodeType
  data : Bytes := []
  children : Dict Text NodeRef := []
  leaf : inodeType ≠ .dir → children = [] := by intro; rfl

/-- The node objects of all in-memory file systems. -/
abbrev Nodes := NodeRef → TmpfsNode

namespace TmpfsNode

/-- `TmpfsNode.lookup`. -/
def lookup (h : Nodes) (node : NodeRef) (name : Text) : Except Error NodeRef :=
  if name = ['.'] ∨ name = [] then return node
  else match Dict.get? (h node).children name with
    | some kid => return kid
    | none => throw (.fileNotFound name)

/-- `TmpfsNode.readdir`. -/
def readdir (node : TmpfsNode) : Except Error (List Text) :=
  if node.inodeType ≠ .dir then throw .notADirectory
  else return [['.'], ['.', '.']] ++ Dict.keys node.children

end TmpfsNode

/-- The loop of `read_sync` and `isdir_sync`: down the directories, `none` where it
returns early. -/
def descend (h : Nodes) (node : NodeRef) : List Text → Option NodeRef
  | [] => some node
  | part :: parts =>
    if (h node).inodeType ≠ .dir then none
    else match Dict.get? (h node).children part with
      | none => none
      | some kid => descend h kid parts

namespace TmpFS

/-- `TmpFS.read_sync`. -/
def readSync (h : Nodes) (root : NodeRef) (path : Text) : Option Bytes :=
  let s := '/' :: strip path
  match descend h root (parts s) with
  | none => none
  | some node => if (h node).inodeType ≠ .file then none else some (h node).data

/-- `TmpFS.isdir_sync`. -/
def isdirSync (h : Nodes) (root : NodeRef) (path : Text) : Bool :=
  let s := '/' :: strip path
  match descend h root (parts s) with
  | none => false
  | some node => (h node).inodeType = .dir

end TmpFS

/-- Looking up names one after the other, from a node. -/
def lookups (h : Nodes) (node : NodeRef) : List Text → Except Error NodeRef
  | [] => .ok node
  | part :: parts =>
    match TmpfsNode.lookup h node part with
    | .error e => .error e
    | .ok kid => lookups h kid parts

/-- Away from `.` the two walks agree: a node that is no directory has no children, so
`lookup` fails where the synchronous walk stops. -/
theorem descend_eq_lookups (h : Nodes) (node : NodeRef) {parts : List Text}
    (hparts : ∀ p ∈ parts, p ≠ [] ∧ p ≠ ['.']) :
    descend h node parts = (lookups h node parts).toOption := by
  induction parts generalizing node with
  | nil => rfl
  | cons part parts ih =>
    obtain ⟨hne, hdot⟩ := hparts part mem_cons_self
    have hrest : ∀ p ∈ parts, p ≠ [] ∧ p ≠ ['.'] :=
      fun p hp => hparts p (mem_cons_of_mem _ hp)
    have hname : ¬ (part = ['.'] ∨ part = []) := by simp [hne, hdot]
    unfold descend lookups TmpfsNode.lookup
    rw [if_neg hname]
    by_cases hdir : (h node).inodeType = .dir
    · rw [if_neg (by simp [hdir])]
      cases Dict.get? (h node).children part with
      | none => rfl
      | some kid => exact ih kid hrest
    · rw [if_pos hdir, (h node).leaf hdir]
      rfl

/-! ### A chain of directories -/

/-- Directories one below the other, with the given names, from a node on. -/
def chain (root : NodeRef) (names : List Text) : Nodes := fun node =>
  { inodeType := .dir
    children := ((names[node - root]?).map (·, node + 1)).toList
    leaf := fun h => absurd rfl h }

/-- The asynchronous walk goes down the whole chain and passes over `.`. -/
theorem lookups_chain_from (root : NodeRef) (names : List Text) (k : Nat) {parts : List Text}
    (hne : ∀ p ∈ parts, p ≠ []) (hparts : parts.filter (· ≠ ['.']) = names.drop k)
    (hk : k ≤ names.length) :
    lookups (chain root names) (root + k) parts = .ok (root + names.length) := by
  induction parts generalizing k with
  | nil =>
    have hlen : names.length ≤ k := drop_eq_nil_iff.1 hparts.symm
    rw [Nat.le_antisymm hlen hk]
    rfl
  | cons part parts ih =>
    have hrest : ∀ p ∈ parts, p ≠ [] := fun p hp => hne p (mem_cons_of_mem _ hp)
    unfold lookups TmpfsNode.lookup
    by_cases hdot : part = ['.']
    · rw [if_pos (.inl hdot)]
      rw [filter_cons_of_neg (by simp [hdot])] at hparts
      exact ih k hrest hparts hk
    · have hname : ¬ (part = ['.'] ∨ part = []) := by simp [hdot, hne part mem_cons_self]
      rw [filter_cons_of_pos (by simpa using hdot)] at hparts
      have hlt : k < names.length := by
        by_contra hge
        rw [drop_eq_nil_of_le (Nat.le_of_not_lt hge)] at hparts
        cases hparts
      rw [drop_eq_getElem_cons hlt] at hparts
      obtain ⟨hhead, htail⟩ := List.cons.inj hparts
      have hkid : Dict.get? (chain root names (root + k)).children part = some (root + k + 1) := by
        simp [chain, hlt, hhead, Dict.get?]
      rw [if_neg hname, hkid]
      exact ih (k + 1) hrest htail hlt

theorem lookups_chain (root : NodeRef) {parts : List Text} (hne : ∀ p ∈ parts, p ≠ []) :
    lookups (chain root (parts.filter (· ≠ ['.']))) root parts =
      .ok (root + (parts.filter (· ≠ ['.'])).length) :=
  lookups_chain_from root _ 0 hne rfl (Nat.zero_le _)

/-- The synchronous walk looks for a child named `.`, and the chain has none. -/
theorem descend_chain_of_dot (root node : NodeRef) {names parts : List Text}
    (hnames : ['.'] ∉ names) (hdot : ['.'] ∈ parts) :
    descend (chain root names) node parts = none := by
  induction parts generalizing node with
  | nil => cases hdot
  | cons part parts ih =>
    unfold descend
    rw [if_neg (by simp [chain])]
    cases hkid : Dict.get? (chain root names node).children part with
    | none => rfl
    | some kid =>
      rcases mem_cons.1 hdot with rfl | hdot
      · -- the name of the child would be among the names of the chain
        dsimp only [chain] at hkid
        cases hget : names[node - root]? with
        | none =>
          rw [hget] at hkid
          cases hkid
        | some name =>
          have hmem : name ∈ names := mem_of_getElem? hget
          have hne : name ≠ ['.'] := fun heq => hnames (heq ▸ hmem)
          rw [hget] at hkid
          simp [Dict.get?, hne] at hkid
      · exact ih kid hdot

end PythonOS.Vfs
