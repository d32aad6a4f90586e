import Mathlib.Logic.Function.Basic
import Mathlib.Data.List.Basic
import Mathlib.Data.List.Nodup

/-!
# PythonOS.Lib.DoublyLinked

Intrusive doubly linked lists.

The links are two functions from nodes to nodes, `next` and `prev`; the node
`0` is the null pointer. `Linked next prev p xs` says that the nodes `xs` are
chained in this order, the first one pointing back to `p`. Pushing a node in
front and taking out any node are each a few updates of the two functions, and
the chain afterwards is `b :: xs` or `xs.erase b`.
-/

namespace PythonOS.Lib

open Function List

/-- `xs` is chained by `next` and `prev`; its first node points back to `p`. -/
def Linked (next prev : Nat → Nat) : Nat → List Nat → Prop
  | _, [] => True
  | p, x :: xs => prev x = p ∧ next x = xs.head?.getD 0 ∧ Linked next prev x xs

namespace Linked

variable {next prev next' prev' : Nat → Nat} {p b : Nat} {xs : List Nat}

/-- Only the links of the nodes on the chain matter. -/
theorem congr (hn : ∀ x ∈ xs, next' x = next x) (hp : ∀ x ∈ xs, prev' x = prev x)
    (h : Linked next prev p xs) : Linked next' prev' p xs := by
  induction xs generalizing p with
  | nil => trivial
  | cons x xs ih =>
    obtain ⟨hprev, hnext, hrest⟩ := h
    refine ⟨?_, ?_, ih ?_ ?_ hrest⟩
    · rw [hp x mem_cons_self, hprev]
    · rw [hn x mem_cons_self, hnext]
    · exact fun y hy => hn y (mem_cons_of_mem x hy)
    · exact fun y hy => hp y (mem_cons_of_mem x hy)

section

variable (h : Linked next prev p xs)

include h

/-- A node's successor is the null pointer or on the chain. -/
theorem next_mem (hb : b ∈ xs) : next b = 0 ∨ next b ∈ xs := by
  induction xs generalizing p with
  | nil => cases hb
  | cons x xs ih =>
    obtain ⟨-, hnext, hrest⟩ := h
    rcases mem_cons.mp hb with rfl | hb
    · rw [hnext]
      cases xs with
      | nil => exact .inl rfl
      | cons y ys => exact .inr (by simp)
    · rcases ih hrest hb with h0 | hmem
      · exact .inl h0
      · exact .inr (mem_cons_of_mem x hmem)

/-- A node's predecessor is `p`, when it is the first, or on the chain. -/
theorem prev_mem (hb : b ∈ xs) : prev b = p ∨ prev b ∈ xs := by
  induction xs generalizing p with
  | nil => cases hb
  | cons x xs ih =>
    obtain ⟨hprev, -, hrest⟩ := h
    rcases mem_cons.mp hb with rfl | hb
    · exact .inl hprev
    · rcases ih hrest hb with hx | hmem
      · exact .inr (by simp [hx])
      · exact .inr (mem_cons_of_mem x hmem)

theorem prev_ne (hnd : (p :: xs).Nodup) (hb : b ∈ xs) : prev b ≠ b := by
  induction xs generalizing p with
  | nil => cases hb
  | cons x xs ih =>
    obtain ⟨hprev, -, hrest⟩ := h
    obtain ⟨hpx, hndx⟩ := nodup_cons.mp hnd
    rcases mem_cons.mp hb with rfl | hb
    · rintro heq
      exact hpx (by simp [← hprev, heq])
    · exact ih hrest hndx hb

/-- Pushing `b`: its links are set, and the old head points back to it. -/
theorem push (hnext : next' b = xs.head?.getD 0) (hprev : prev' b = 0)
    (hback : ∀ x ∈ xs.head?, prev' x = b) (hn : ∀ x ∈ xs, next' x = next x)
    (hp : ∀ x ∈ xs.tail, prev' x = prev x) : Linked next' prev' 0 (b :: xs) := by
  refine ⟨hprev, hnext, ?_⟩
  cases xs with
  | nil => trivial
  | cons x xs =>
    obtain ⟨-, hx, hrest⟩ := h
    refine ⟨hback x (by simp), ?_, hrest.congr ?_ hp⟩
    · rw [hn x mem_cons_self, hx]
    · exact fun y hy => hn y (mem_cons_of_mem x hy)

/-- Taking `b` out: its neighbours are linked to each other. The list's own
head pointer stands in for the predecessor of its first node. -/
theorem erase (hnd : (p :: xs).Nodup) (h0 : 0 ∉ xs) (hb : b ∈ xs) :
    Linked (update next (prev b) (next b)) (update prev (next b) (prev b)) p (xs.erase b) ∧
      (xs.erase b).head?.getD 0 = if prev b = p then next b else xs.head?.getD 0 := by
  induction xs generalizing p with
  | nil => cases hb
  | cons x xs ih =>
    obtain ⟨hprev, hnext, hrest⟩ := h
    have hpx : p ∉ x :: xs := (nodup_cons.mp hnd).1
    have hndx : (x :: xs).Nodup := (nodup_cons.mp hnd).2
    have hx0 : x ≠ 0 := fun h => h0 (by simp [h])
    have h0' : 0 ∉ xs := fun h => h0 (mem_cons_of_mem x h)
    by_cases hbx : b = x
    · -- the first node: its successor comes to point back to `p`
      subst hbx
      rw [erase_cons_head, hprev, hnext, if_pos rfl]
      refine ⟨?_, rfl⟩
      cases xs with
      | nil => trivial
      | cons y ys =>
        obtain ⟨-, hy, hys⟩ := hrest
        have hpy : y ≠ p := fun h => hpx (by simp [h])
        refine ⟨by simp, by simpa [update_of_ne hpy] using hy, ?_⟩
        refine hys.congr (fun z hz => ?_) fun z hz => ?_
        · have hzp : z ≠ p := fun h => hpx (by simp [← h, hz])
          exact update_of_ne hzp ..
        · have hzy : z ≠ y := by
            rintro rfl
            exact (nodup_cons.mp (nodup_cons.mp hndx).2).1 hz
          simpa using update_of_ne hzy ..
    · have hbxs : b ∈ xs := (mem_cons.mp hb).resolve_left hbx
      obtain ⟨hlink, hhead⟩ := ih hrest hndx h0' hbxs
      rw [erase_cons_tail (by simpa using Ne.symm hbx)]
      have hpb : prev b ≠ p := by
        intro h
        rcases prev_mem hrest hbxs with hx | hmem
        · exact hpx (by simp [← h, hx])
        · exact hpx (by simp [← h, hmem])
      refine ⟨⟨?_, ?_, hlink⟩, by simp [hpb]⟩
      · have hne : x ≠ next b := by
          intro h
          rcases next_mem hrest hbxs with h0b | hmem
          · exact hx0 (h.trans h0b)
          · exact (nodup_cons.mp hndx).1 (h ▸ hmem)
        rw [update_of_ne hne, hprev]
      · rw [hhead]
        by_cases hpb' : prev b = x
        · simp [hpb']
        · rw [if_neg hpb', update_of_ne (Ne.symm hpb'), hnext]

end

end Linked

end PythonOS.Lib
