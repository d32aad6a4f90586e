import Mathlib.Data.Set.Card

/-!
# PythonOS.Lib.Forest

Trees of pointers in a store of blocks, and who owns a block.

A block holds the numbers of other blocks, and 0 stands for no block. Under every
key hangs a tree of at most `depth` levels below its root, and a **slot** is a
position in it: the key, and the entries to follow. `blockAt` is the block in a
slot.

`Owned` says that the blocks in slots are taken and that no block is in two slots.
The two `blockAt_put` lemmas say that writing one pointer changes one slot, which
is where `Owned` is needed; `Owned.put` that the blocks stay owned.
-/

namespace PythonOS.Lib

open List

/-- A position in a tree: the key and the entries to follow. -/
abbrev Slot (κ : Type) := κ × List Nat

namespace Slot

variable {κ : Type}

def child (τ : Slot κ) (i : Nat) : Slot κ := (τ.1, τ.2 ++ [i])

@[simp] theorem child_fst (τ : Slot κ) (i : Nat) : (τ.child i).1 = τ.1 := rfl

theorem child_inj {τ τ' : Slot κ} {i i' : Nat} (h : τ.child i = τ'.child i') : τ = τ' ∧ i = i' := by
  obtain ⟨k, p⟩ := τ
  simp only [child, Prod.mk.injEq] at h
  obtain ⟨hp, hi⟩ := append_inj' h.2 rfl
  exact ⟨by rw [h.1, hp], by simpa using hi⟩

theorem child_ne_root (τ : Slot κ) (i : Nat) (k : κ) : τ.child i ≠ (k, []) := by
  intro h
  have := congrArg (fun τ => τ.2.length) h
  simp [child] at this

/-- Slots from the root down. -/
theorem down {P : Slot κ → Prop} (root : ∀ k, P (k, [])) (step : ∀ τ i, P τ → P (τ.child i))
    (τ : Slot κ) : P τ := by
  obtain ⟨k, p⟩ := τ
  induction p using reverseRecOn with
  | nil => exact root k
  | append_singleton p i ih => exact step (k, p) i ih

end Slot

/-- How deep the tree of a key is, and how many entries a block has. -/
structure Shape (κ : Type) where
  depth : κ → Nat
  width : Nat

/-- The roots, and the entries of the blocks. -/
structure Forest (κ : Type) where
  root : κ → Nat
  next : Nat → Nat → Nat

/-- The entry `i` of block `b`, none if there is no block. -/
def follow (next : Nat → Nat → Nat) (b i : Nat) : Nat := if b = 0 then 0 else next b i

@[simp] theorem follow_zero (next : Nat → Nat → Nat) (i : Nat) : follow next 0 i = 0 := if_pos rfl

theorem follow_of_ne {next : Nat → Nat → Nat} {b : Nat} (h : b ≠ 0) (i : Nat) :
    follow next b i = next b i := if_neg h

theorem foldl_follow_zero (next : Nat → Nat → Nat) (p : List Nat) :
    p.foldl (follow next) 0 = 0 := by
  induction p with
  | nil => rfl
  | cons i p ih => rw [foldl_cons, follow_zero, ih]

section

variable {κ : Type}

namespace Shape

/-- The slots there are. -/
def Valid (S : Shape κ) (τ : Slot κ) : Prop := τ.2.length ≤ S.depth τ.1 ∧ ∀ i ∈ τ.2, i < S.width

variable {S : Shape κ}

theorem valid_root (k : κ) : S.Valid (k, []) := ⟨Nat.zero_le _, by simp⟩

theorem valid_child {τ : Slot κ} {i : Nat} :
    S.Valid (τ.child i) ↔ S.Valid τ ∧ τ.2.length < S.depth τ.1 ∧ i < S.width := by
  unfold Valid Slot.child
  simp only [length_append, length_singleton, mem_append, mem_singleton]
  constructor
  · rintro ⟨hlen, hall⟩
    exact ⟨⟨by omega, fun j hj => hall j (.inl hj)⟩, by omega, hall i (.inr rfl)⟩
  · rintro ⟨⟨-, hall⟩, hlen, hi⟩
    refine ⟨hlen, fun j hj => ?_⟩
    rcases hj with hj | rfl
    · exact hall j hj
    · exact hi

/-- A slot with no slots below it. -/
def Leaf (S : Shape κ) (τ : Slot κ) : Prop := S.Valid τ ∧ τ.2.length = S.depth τ.1

theorem Leaf.not_valid_child {τ : Slot κ} (h : S.Leaf τ) (i : Nat) : ¬ S.Valid (τ.child i) := by
  intro hc
  have hlt := (valid_child.mp hc).2.1
  have heq := h.2
  omega

end Shape

namespace Forest

def blockAt (F : Forest κ) (τ : Slot κ) : Nat := τ.2.foldl (follow F.next) (F.root τ.1)

variable {S : Shape κ} {F F' : Forest κ} {Taken Taken' : Nat → Prop}

@[simp] theorem blockAt_root (F : Forest κ) (k : κ) : F.blockAt (k, []) = F.root k := rfl

theorem blockAt_child (F : Forest κ) (τ : Slot κ) (i : Nat) :
    F.blockAt (τ.child i) = follow F.next (F.blockAt τ) i := by
  simp [blockAt, Slot.child]

variable {τ : Slot κ}

theorem blockAt_child_of_eq_zero (h : F.blockAt τ = 0) (i : Nat) :
    F.blockAt (τ.child i) = 0 := by rw [blockAt_child, h, follow_zero]

/-- Nothing hangs under a root that is 0. -/
theorem blockAt_of_root_eq_zero (h : F.root τ.1 = 0) : F.blockAt τ = 0 := by
  rw [blockAt, h, foldl_follow_zero]

/-- The blocks in slots are determined level by level. -/
theorem blockAt_unique {G : Slot κ → Nat} (hroot : ∀ k, F.root k = G (k, []))
    (hstep : ∀ τ i, S.Valid (τ.child i) → follow F.next (G τ) i = G (τ.child i)) :
    S.Valid τ → F.blockAt τ = G τ := by
  refine Slot.down (P := fun τ => S.Valid τ → F.blockAt τ = G τ) (fun k _ => hroot k) ?_ τ
  intro τ i ih hv
  rw [blockAt_child, ih (Shape.valid_child.mp hv).1, hstep τ i hv]

/-- The blocks in slots are taken, and no block is in two slots. -/
structure Owned (S : Shape κ) (F : Forest κ) (Taken : Nat → Prop) : Prop where
  taken : ∀ τ, S.Valid τ → F.blockAt τ ≠ 0 → Taken (F.blockAt τ)
  inj : ∀ τ τ', S.Valid τ → S.Valid τ' → F.blockAt τ ≠ 0 → F.blockAt τ = F.blockAt τ' → τ = τ'

/-- A change that no slot sees. -/
theorem blockAt_congr (hroot : ∀ k, F'.root k = F.root k)
    (hnext : ∀ τ i, S.Valid (τ.child i) → F.blockAt τ ≠ 0 →
      F'.next (F.blockAt τ) i = F.next (F.blockAt τ) i) (hτ : S.Valid τ) :
    F'.blockAt τ = F.blockAt τ := by
  refine blockAt_unique hroot (fun τ i hv => ?_) hτ
  rw [blockAt_child]
  by_cases hz : F.blockAt τ = 0
  · rw [hz, follow_zero, follow_zero]
  · rw [follow_of_ne hz, follow_of_ne hz, hnext τ i hv hz]

/-- **A new root changes one slot**, if nothing is below the old and the new one. -/
theorem Owned.blockAt_putRoot (h : Owned S F Taken) {k : κ} {v : Nat} [DecidableEq κ]
    (hroot : ∀ x, F'.root x = if x = k then v else F.root x)
    (hnext : ∀ b i, Taken b → F'.next b i = F.next b i)
    (hbelow : ∀ i, S.Valid (Slot.child (k, []) i) →
      follow F'.next v i = 0 ∧ follow F.next (F.root k) i = 0)
    (hτ : S.Valid τ) : F'.blockAt τ = if τ = (k, []) then v else F.blockAt τ := by
  refine blockAt_unique (G := fun τ => if τ = (k, []) then v else F.blockAt τ) ?_ ?_ hτ
  · intro x
    rw [hroot]
    by_cases hx : x = k <;> simp [hx]
  · intro τ i hv
    rw [if_neg (Slot.child_ne_root τ i k), blockAt_child]
    by_cases hk : τ = (k, [])
    · subst hk
      rw [if_pos rfl, (hbelow i hv).1, blockAt_root, (hbelow i hv).2]
    · rw [if_neg hk]
      by_cases hz : F.blockAt τ = 0
      · rw [hz, follow_zero, follow_zero]
      · rw [follow_of_ne hz, follow_of_ne hz, hnext _ _ (h.taken τ (Shape.valid_child.mp hv).1 hz)]

/-- **A new entry changes one slot**, if nothing is below the old and the new one. -/
theorem Owned.blockAt_putChild (h : Owned S F Taken) {σ : Slot κ} {i v : Nat} [DecidableEq κ]
    (hσ : S.Valid (σ.child i)) (hblock : F.blockAt σ ≠ 0) (hroot : ∀ k, F'.root k = F.root k)
    (hnext : ∀ b j, Taken b → j < S.width →
      F'.next b j = if b = F.blockAt σ ∧ j = i then v else F.next b j)
    (hbelow : ∀ j, S.Valid ((σ.child i).child j) →
      follow F'.next v j = 0 ∧ follow F.next (F.blockAt (σ.child i)) j = 0)
    (hτ : S.Valid τ) : F'.blockAt τ = if τ = σ.child i then v else F.blockAt τ := by
  have hσ' := (Shape.valid_child.mp hσ).1
  refine blockAt_unique (G := fun τ => if τ = σ.child i then v else F.blockAt τ) ?_ ?_ hτ
  · intro k
    rw [if_neg (Slot.child_ne_root σ i k).symm, hroot, blockAt_root]
  · intro τ j hv
    obtain ⟨hτ, -, hj⟩ := Shape.valid_child.mp hv
    by_cases hk : τ = σ.child i
    · -- below the slot itself
      have hne : τ.child j ≠ σ.child i := by
        intro heq
        have hlen := congrArg (fun τ => τ.2.length) ((Slot.child_inj heq).1.symm.trans hk)
        simp [Slot.child] at hlen
      rw [if_neg hne, if_pos hk, blockAt_child]
      subst hk
      rw [(hbelow j hv).1, (hbelow j hv).2]
    · rw [if_neg hk]
      by_cases hz : F.blockAt τ = 0
      · have hne : τ.child j ≠ σ.child i := by
          intro heq
          rw [(Slot.child_inj heq).1] at hz
          exact hblock hz
        rw [if_neg hne, blockAt_child, hz, follow_zero, follow_zero]
      · -- the entry is the new one only if the block is that of `σ`, so the slot is
        rw [follow_of_ne hz, hnext _ _ (h.taken τ hτ hz) hj, blockAt_child, follow_of_ne hz]
        by_cases heq : τ.child j = σ.child i
        · obtain ⟨rfl, rfl⟩ := Slot.child_inj heq
          rw [if_pos ⟨rfl, rfl⟩, if_pos rfl]
        · rw [if_neg heq, if_neg]
          rintro ⟨hb, rfl⟩
          exact heq (by rw [h.inj τ σ hτ hσ' hz hb])

/-- **Blocks stay owned** when a slot gets a block that was not taken, or none. -/
theorem Owned.put (h : Owned S F Taken) {σ : Slot κ} {v : Nat} [DecidableEq κ]
    (hput : ∀ τ, S.Valid τ → F'.blockAt τ = if τ = σ then v else F.blockAt τ)
    (hσ : S.Valid σ) (hv : v ≠ 0 → Taken' v ∧ ¬ Taken v)
    (hTaken : ∀ b, Taken b → b ≠ 0 → b ≠ F.blockAt σ → Taken' b) : Owned S F' Taken' := by
  have hother : ∀ τ, S.Valid τ → τ ≠ σ → F.blockAt τ ≠ 0 → F.blockAt τ ≠ F.blockAt σ :=
    fun τ hτ hne hz heq => hne (h.inj τ σ hτ hσ hz heq)
  constructor
  · intro τ hτ
    rw [hput τ hτ]
    split
    · exact fun hz => (hv hz).1
    · next hne =>
      exact fun hz => hTaken _ (h.taken τ hτ hz) hz (hother τ hτ hne hz)
  · intro τ τ' hτ hτ'
    rw [hput τ hτ, hput τ' hτ']
    split
    · next heq =>
      intro hz hb
      split at hb
      · next heq' => rw [heq, heq']
      · exact absurd (h.taken τ' hτ' (hb ▸ hz)) (hb ▸ (hv hz).2)
    · intro hz hb
      split at hb
      · exact absurd (h.taken τ hτ hz) (hb ▸ (hv (hb ▸ hz)).2)
      · exact h.inj τ τ' hτ hτ' hz hb

/-- Fewer blocks in slots, and more blocks taken. -/
theorem Owned.mono (h : Owned S F Taken)
    (hF : ∀ τ, S.Valid τ → F'.blockAt τ ≠ 0 → F'.blockAt τ = F.blockAt τ)
    (hTaken : ∀ τ, S.Valid τ → F'.blockAt τ ≠ 0 → Taken (F'.blockAt τ) → Taken' (F'.blockAt τ)) :
    Owned S F' Taken' := by
  constructor
  · intro τ hτ hz
    have heq := hF τ hτ hz
    exact hTaken τ hτ hz (heq ▸ h.taken τ hτ (heq ▸ hz))
  · intro τ τ' hτ hτ' hz hb
    have hz' : F'.blockAt τ' ≠ 0 := hb ▸ hz
    have heq := hF τ hτ hz
    exact h.inj τ τ' hτ hτ' (heq ▸ hz) (by rw [← heq, hb, hF τ' hτ' hz'])

/-! ### Counting -/

/-- The blocks in the slots of some keys. -/
def reached (S : Shape κ) (F : Forest κ) (K : Set κ) : Set Nat :=
  { b | b ≠ 0 ∧ ∃ τ, S.Valid τ ∧ τ.1 ∈ K ∧ F.blockAt τ = b }

theorem reached_congr {K : Set κ} (h : ∀ τ, S.Valid τ → τ.1 ∈ K → F'.blockAt τ = F.blockAt τ) :
    reached S F' K = reached S F K := by
  ext b
  refine and_congr_right fun _ => exists_congr fun τ => and_congr_right fun hτ => ?_
  exact and_congr_right fun hk => by rw [h τ hτ hk]

section

variable [DecidableEq κ] {σ : Slot κ} {v : Nat} {K : Set κ}

section

variable (hput : ∀ τ, S.Valid τ → F'.blockAt τ = if τ = σ then v else F.blockAt τ)

include hput

theorem reached_put_of_notMem (hK : σ.1 ∉ K) : reached S F' K = reached S F K :=
  reached_congr fun τ hτ hk => by rw [hput τ hτ, if_neg fun heq => hK (by rwa [heq] at hk)]

theorem reached_assign (hσ : S.Valid σ) (hK : σ.1 ∈ K) (hempty : F.blockAt σ = 0) (hv : v ≠ 0) :
    reached S F' K = insert v (reached S F K) := by
  ext b
  constructor
  · rintro ⟨hb, τ, hτ, hk, rfl⟩
    rw [hput τ hτ] at hb ⊢
    split at hb
    · next heq => exact .inl (if_pos heq)
    · next hne =>
      rw [if_neg hne]
      exact .inr ⟨hb, τ, hτ, hk, rfl⟩
  · rintro (rfl | ⟨hb, τ, hτ, hk, rfl⟩)
    · exact ⟨hv, σ, hσ, hK, by rw [hput σ hσ, if_pos rfl]⟩
    · refine ⟨hb, τ, hτ, hk, ?_⟩
      rw [hput τ hτ, if_neg]
      rintro rfl
      exact hb hempty

end

theorem Owned.reached_release (h : Owned S F Taken)
    (hput : ∀ τ, S.Valid τ → F'.blockAt τ = if τ = σ then 0 else F.blockAt τ) (hσ : S.Valid σ) :
    reached S F' K = reached S F K \ {F.blockAt σ} := by
  ext b
  constructor
  · rintro ⟨hb, τ, hτ, hk, rfl⟩
    rw [hput τ hτ] at hb ⊢
    split at hb
    · exact absurd rfl hb
    · next hne =>
      rw [if_neg hne]
      exact ⟨⟨hb, τ, hτ, hk, rfl⟩, fun heq => hne (h.inj τ σ hτ hσ hb heq)⟩
  · rintro ⟨⟨hb, τ, hτ, hk, rfl⟩, hne⟩
    refine ⟨hb, τ, hτ, hk, ?_⟩
    rw [hput τ hτ, if_neg]
    rintro rfl
    exact hne rfl

end

end Forest

end

end PythonOS.Lib
