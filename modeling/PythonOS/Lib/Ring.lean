import Mathlib.Data.Nat.ModEq
import Mathlib.Logic.Function.Basic

/-!
# PythonOS.Lib.Ring

A ring of `n` cells between a producer and a consumer, each with an index that is counted
modulo `2 ^ 16` and used modulo `n`. `RingBuffer.Holds` relates the ring to the queue it stands for:
as long as `n` divides `2 ^ 16` and no more than `n` entries are in it, neither index has to
be longer.
-/

namespace PythonOS.Lib

open Function List

/-- The cells and the two indices. -/
structure RingBuffer (α : Type*) where
  cells : Nat → α
  head : Nat := 0
  tail : Nat := 0

namespace RingBuffer

variable {α : Type*} {n : Nat} {r : RingBuffer α} {q : List α} {a : α}

/-- The producer writes the next cell. -/
def push (n : Nat) (r : RingBuffer α) (a : α) : RingBuffer α :=
  { r with cells := update r.cells (r.tail % n) a, tail := (r.tail + 1) % 2 ^ 16 }

/-- The cell the consumer is at. -/
def front (n : Nat) (r : RingBuffer α) : α := r.cells (r.head % n)

/-- The consumer goes on to the next cell. -/
def advance (r : RingBuffer α) : RingBuffer α := { r with head := (r.head + 1) % 2 ^ 16 }

/-- The entries between the two indices, oldest first. -/
def toList (n : Nat) (r : RingBuffer α) : List α :=
  (range ((r.tail + 2 ^ 16 - r.head) % 2 ^ 16)).map fun i => r.cells ((r.head + i) % n)

/-- The ring stands for the queue `q`, whose first entry was the `k`-th to be written. -/
def Holds (n : Nat) (r : RingBuffer α) (q : List α) : Prop :=
  q.length ≤ n ∧ ∃ k, r.head = k % 2 ^ 16 ∧ r.tail = (k + q.length) % 2 ^ 16 ∧
    ∀ i x, q[i]? = some x → r.cells ((k + i) % n) = x

theorem holds_empty (cells : Nat → α) : Holds n { cells } [] :=
  ⟨Nat.zero_le _, 0, rfl, rfl, by simp⟩

theorem Holds.push (h : Holds n r q) (hn : n ∣ 2 ^ 16) (hq : q.length < n) (a : α) :
    Holds n (r.push n a) (q ++ [a]) := by
  obtain ⟨-, k, hhead, htail, hcells⟩ := h
  refine ⟨by rw [length_append]; exact hq, k, hhead, ?_, fun i x hx => ?_⟩
  · show (r.tail + 1) % 2 ^ 16 = _
    rw [htail, Nat.mod_add_mod, length_append]
    rfl
  · show update r.cells (r.tail % n) a ((k + i) % n) = x
    rw [htail, Nat.mod_mod_of_dvd _ hn]
    rcases Nat.lt_trichotomy i q.length with hi | rfl | hi
    · rw [getElem?_append_left hi] at hx
      rw [update_of_ne, hcells i x hx]
      -- two entries of one turn have different cells
      intro heq
      have hmod : i % n = q.length % n := Nat.ModEq.add_left_cancel' k heq
      rw [Nat.mod_eq_of_lt hq, Nat.mod_eq_of_lt (Nat.lt_trans hi hq)] at hmod
      omega
    · rw [update_self]
      simpa using hx
    · rw [getElem?_eq_none (by simp; omega)] at hx
      cases hx

/-- The front of the ring is that of the queue. -/
theorem Holds.front (h : Holds n r (a :: q)) (hn : n ∣ 2 ^ 16) : r.front n = a := by
  obtain ⟨-, k, hhead, -, hcells⟩ := h
  rw [RingBuffer.front, hhead, Nat.mod_mod_of_dvd _ hn]
  exact hcells 0 a rfl

theorem Holds.advance (h : Holds n r (a :: q)) : Holds n r.advance q := by
  obtain ⟨hlen, k, hhead, htail, hcells⟩ := h
  rw [length_cons] at hlen htail
  refine ⟨Nat.le_of_succ_le hlen, k + 1, ?_, ?_, fun i x hx => ?_⟩
  · show (r.head + 1) % 2 ^ 16 = _
    rw [hhead, Nat.mod_add_mod]
  · show r.tail = _
    rw [htail, Nat.add_right_comm, Nat.add_assoc]
  · rw [Nat.add_assoc, Nat.add_comm 1]
    exact hcells (i + 1) x hx

/-- The two indices agree only when nothing is in the ring. -/
theorem Holds.head_eq_iff (h : Holds n r q) (hn : n < 2 ^ 16) : r.head = r.tail ↔ q = [] := by
  obtain ⟨hlen, k, hhead, htail, -⟩ := h
  rw [hhead, htail, ← length_eq_zero_iff]
  omega

theorem Holds.toList_eq (h : Holds n r q) (hn : n ∣ 2 ^ 16) (hlt : n < 2 ^ 16) :
    r.toList n = q := by
  obtain ⟨hlen, k, hhead, htail, hcells⟩ := h
  have hcount : (r.tail + 2 ^ 16 - r.head) % 2 ^ 16 = q.length := by omega
  refine ext_getElem? fun i => ?_
  rw [RingBuffer.toList, hcount, getElem?_map, hhead]
  by_cases hi : i < q.length
  · have hcell := hcells i q[i] (getElem?_eq_getElem hi)
    rw [getElem?_range hi, getElem?_eq_getElem hi, Option.map_some, ← hcell,
      ← Nat.mod_mod_of_dvd (k % 2 ^ 16 + i) hn, Nat.mod_add_mod, Nat.mod_mod_of_dvd _ hn]
  · rw [getElem?_eq_none (by simpa using hi), getElem?_eq_none (by simpa using hi)]
    rfl

end RingBuffer

end PythonOS.Lib
