import PythonOS.Lib.Bytes

/-!
# PythonOS.Lib.Memory

Flat byte-addressed memory with little-endian loads and stores.

A store of one field leaves every field that does not overlap it alone
(`load_write_of_disjoint`); everything about the separation of objects in
memory comes down to that and to arithmetic on addresses.
-/

namespace PythonOS.Lib

open List Option

/-- Memory: the byte at every address. -/
def Mem := Nat → UInt8

namespace Mem

/-- The `n` bytes at `a`. -/
def read (m : Mem) (a n : Nat) : Bytes := (range n).map fun i => m (a + i)

/-- Put the bytes `bs` at `a`. -/
def write (m : Mem) (a : Nat) (bs : Bytes) : Mem := fun x =>
  if a ≤ x then (bs[x - a]?).getD (m x) else m x

/-- The `n`-byte little-endian integer at `a`. -/
def load (m : Mem) (a n : Nat) : Nat := Bytes.leNat (m.read a n)

/-- Put the `n`-byte little-endian integer `v` at `a`. -/
def store (m : Mem) (a n v : Nat) : Mem := m.write a (Bytes.leBytes n v)

variable {m m' : Mem} {a b n k v : Nat} {bs : Bytes}

@[simp] theorem length_read (m : Mem) (a n : Nat) : (m.read a n).length = n := by
  simp [read]

theorem read_congr (h : ∀ x, a ≤ x → x < a + n → m' x = m x) : m'.read a n = m.read a n := by
  refine map_congr_left fun i hi => h (a + i) (Nat.le_add_right a i) ?_
  have hin : i < n := mem_range.mp hi
  omega

theorem write_of_lt {x : Nat} (h : x < a) : m.write a bs x = m x := by
  rw [write, if_neg (by omega)]

theorem write_of_ge {x : Nat} (h : a + bs.length ≤ x) : m.write a bs x = m x := by
  rw [write, if_pos (by omega), getElem?_eq_none (by omega), getD_none]

theorem read_write_self (m : Mem) (a : Nat) (bs : Bytes) :
    (m.write a bs).read a bs.length = bs := by
  refine ext_getElem (by simp) fun i hi hi' => ?_
  simp only [read, getElem_map, getElem_range, write]
  rw [if_pos (Nat.le_add_right a i), Nat.add_sub_cancel_left, getElem?_eq_getElem hi', getD_some]

theorem read_write_of_disjoint (h : b + n ≤ a ∨ a + bs.length ≤ b) :
    (m.write a bs).read b n = m.read b n := by
  refine read_congr fun x hge hlt => ?_
  rcases h with h | h
  · exact write_of_lt (by omega)
  · exact write_of_ge (by omega)

theorem load_write_of_disjoint (h : b + n ≤ a ∨ a + bs.length ≤ b) :
    (m.write a bs).load b n = m.load b n := by
  rw [load, load, read_write_of_disjoint h]

theorem load_store_self (h : v < 256 ^ n) : (m.store a n v).load a n = v := by
  have hread := read_write_self m a (Bytes.leBytes n v)
  rw [Bytes.length_leBytes] at hread
  rw [load, store, hread, Bytes.leNat_leBytes_of_lt h]

theorem load_store_of_disjoint (h : b + n ≤ a ∨ a + k ≤ b) :
    (m.store a k v).load b n = m.load b n :=
  load_write_of_disjoint (by simpa using h)

theorem load_lt (m : Mem) (a n : Nat) : m.load a n < 256 ^ n := by
  have h := Bytes.leNat_lt (m.read a n)
  rwa [length_read] at h

end Mem

end PythonOS.Lib
