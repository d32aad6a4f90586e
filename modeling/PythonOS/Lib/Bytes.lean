import Mathlib.Data.List.Basic
import Mathlib.Data.List.GetD
import Mathlib.Tactic.Ring

/-!
# PythonOS.Lib.Bytes

Byte strings, Python slices, and the two integer encodings every wire and disk
format here is built from.
-/

namespace PythonOS.Lib

open List

/-- A byte string (`bytes`, `bytearray`). -/
abbrev Bytes := List UInt8

namespace Bytes

/-- The slice `b[i:j]` for non-negative bounds. -/
def slice (b : Bytes) (i j : Nat) : Bytes := (b.take j).drop i

/-- How many elements the slice `b[:n]` keeps, for any integer `n`: a negative
bound counts from the end. -/
def sliceEnd (len : Nat) (n : Int) : Nat :=
  if 0 ≤ n then min n.toNat len else len - (-n).toNat

/-- Big-endian value of a byte string. -/
def beNat (b : Bytes) : Nat := b.foldl (fun acc x => acc * 256 + x.toNat) 0

/-- Little-endian value of a byte string. -/
def leNat : Bytes → Nat
  | [] => 0
  | b :: bs => b.toNat + 256 * leNat bs

/-- The `n` low-order bytes of `v`, least significant first. -/
def leBytes : (n v : Nat) → Bytes
  | 0, _ => []
  | n + 1, v => UInt8.ofNat v :: leBytes n (v / 256)

@[simp] theorem length_leBytes (n v : Nat) : (leBytes n v).length = n := by
  induction n generalizing v with
  | zero => rfl
  | succ n ih => simp [leBytes, ih]

theorem leNat_leBytes (n v : Nat) : leNat (leBytes n v) = v % 256 ^ n := by
  induction n generalizing v with
  | zero => simp [leBytes, leNat, Nat.mod_one]
  | succ n ih =>
    show (UInt8.ofNat v).toNat + 256 * leNat (leBytes n (v / 256)) = v % 256 ^ (n + 1)
    have hlow : (UInt8.ofNat v).toNat = v % 256 := UInt8.toNat_ofNat'
    rw [ih, hlow, Nat.pow_succ', Nat.mod_mul]

variable {v off i w : Nat}

theorem leNat_leBytes_of_lt {n : Nat} (h : v < 256 ^ n) : leNat (leBytes n v) = v := by
  rw [leNat_leBytes, Nat.mod_eq_of_lt h]

theorem leBytes_leNat (bs : Bytes) : leBytes bs.length (leNat bs) = bs := by
  induction bs with
  | nil => rfl
  | cons b bs ih =>
    have hb := b.toNat_lt
    have hhead : UInt8.ofNat (b.toNat + 256 * leNat bs) = b := by
      apply UInt8.toNat_inj.mp
      rw [UInt8.toNat_ofNat']
      omega
    have hdiv : (b.toNat + 256 * leNat bs) / 256 = leNat bs := by omega
    rw [length_cons, leNat, leBytes, hhead, hdiv, ih]

theorem leNat_lt (bs : Bytes) : leNat bs < 256 ^ bs.length := by
  induction bs with
  | nil => simp [leNat]
  | cons b bs ih =>
    have hb : b.toNat < 256 := b.toNat_lt
    simp only [leNat, length_cons, Nat.pow_succ']
    omega

/-- The `n` low-order bytes of `v`, most significant first. -/
def beBytes : (n v : Nat) → Bytes
  | 0, _ => []
  | n + 1, v => beBytes n (v / 256) ++ [UInt8.ofNat v]

@[simp] theorem length_beBytes (n v : Nat) : (beBytes n v).length = n := by
  induction n generalizing v with
  | zero => rfl
  | succ n ih => simp [beBytes, ih]

theorem beNat_concat (b : Bytes) (x : UInt8) : beNat (b ++ [x]) = beNat b * 256 + x.toNat := by
  simp [beNat]

theorem beNat_beBytes (n v : Nat) : beNat (beBytes n v) = v % 256 ^ n := by
  induction n generalizing v with
  | zero => simp [beBytes, beNat, Nat.mod_one]
  | succ n ih =>
    have hlow : (UInt8.ofNat v).toNat = v % 256 := UInt8.toNat_ofNat'
    rw [beBytes, beNat_concat, ih, hlow, Nat.pow_succ', Nat.mod_mul, Nat.mul_comm, Nat.add_comm]

theorem beNat_beBytes_of_lt {n v : Nat} (h : v < 256 ^ n) : beNat (beBytes n v) = v := by
  rw [beNat_beBytes, Nat.mod_eq_of_lt h]

/-! ### Writing into a buffer -/

/-- `b[off:off+len(d)] = d`. -/
def splice (b : Bytes) (off : Nat) (d : Bytes) : Bytes :=
  b.take off ++ d ++ b.drop (off + d.length)

/-- `b"\x00" * n`. -/
def zeros (n : Nat) : Bytes := replicate n 0

@[simp] theorem length_zeros (n : Nat) : (zeros n).length = n := length_replicate

theorem length_slice (b : Bytes) (i j : Nat) : (slice b i j).length = min j b.length - i := by
  simp [slice]

variable {b d : Bytes}

theorem length_splice (h : off + d.length ≤ b.length) : (splice b off d).length = b.length := by
  simp only [splice, length_append, length_take, length_drop]
  omega

theorem getElem?_slice (b : Bytes) (i j k : Nat) :
    (slice b i j)[k]? = if i + k < j then b[i + k]? else none := by
  simp only [slice, getElem?_drop, getElem?_take]

theorem getElem?_splice (h : off + d.length ≤ b.length) (k : Nat) :
    (splice b off d)[k]? = if off ≤ k ∧ k < off + d.length then d[k - off]? else b[k]? := by
  have hoff : min off b.length = off := by omega
  simp only [splice, append_assoc]
  rcases Nat.lt_or_ge k off with hlt | hge
  · rw [getElem?_append_left (by simp only [length_take]; omega), if_neg (by omega)]
    exact getElem?_take_of_lt hlt
  · rw [getElem?_append_right (by simp only [length_take]; omega)]
    simp only [length_take, hoff]
    rcases Nat.lt_or_ge k (off + d.length) with hin | hout
    · rw [getElem?_append_left (by omega), if_pos ⟨hge, hin⟩]
    · rw [getElem?_append_right (by omega), if_neg (by omega), getElem?_drop]
      congr 1
      omega

variable {b : Bytes}

/-- Adjacent slices make up a slice. -/
theorem slice_append_slice {i j k : Nat} (hij : i ≤ j) (hjk : j ≤ k) :
    slice b i j ++ slice b j k = slice b i k := by
  have htake : b.take j = (b.take k).take j := by rw [take_take, Nat.min_eq_left hjk]
  unfold slice
  rw [htake]
  conv_rhs => rw [← take_append_drop j (b.take k), drop_append]
  rcases Nat.le_total j (b.take k).length with hle | hge
  · rw [length_take, Nat.min_eq_left hle, Nat.sub_eq_zero_of_le hij, drop_zero]
  · rw [drop_eq_nil_of_le hge, drop_nil]

theorem slice_zero_length (b : Bytes) : slice b 0 b.length = b := by
  simp [slice]

theorem slice_splice_self {b d : Bytes} {off : Nat} (h : off + d.length ≤ b.length) :
    slice (splice b off d) off (off + d.length) = d := by
  apply ext_getElem?
  intro k
  rw [getElem?_slice, getElem?_splice h]
  split
  · next hk =>
    rw [if_pos ⟨by omega, hk⟩]
    congr 1
    omega
  · next hk => exact (getElem?_eq_none (by omega)).symm

theorem slice_splice_of_disjoint {j : Nat} (h : off + d.length ≤ b.length)
    (hij : j ≤ off ∨ off + d.length ≤ i) : slice (splice b off d) i j = slice b i j := by
  apply ext_getElem?
  intro k
  rw [getElem?_slice, getElem?_slice, getElem?_splice h]
  split
  · rw [if_neg (by omega)]
  · rfl

theorem getD_slice (b : Bytes) (i j k : Nat) :
    (slice b i j).getD k 0 = if i + k < j then b.getD (i + k) 0 else 0 := by
  simp only [getD_eq_getElem?_getD, getElem?_slice]
  split <;> rfl

theorem getD_splice (h : off + d.length ≤ b.length) (k : Nat) :
    (splice b off d).getD k 0 =
      if off ≤ k ∧ k < off + d.length then d.getD (k - off) 0 else b.getD k 0 := by
  simp only [getD_eq_getElem?_getD, getElem?_splice h]
  split <;> rfl

theorem getD_zeros (n k : Nat) : (zeros n).getD k 0 = 0 := by
  rw [zeros, getD_eq_getElem?_getD, getElem?_replicate]
  split <;> rfl

/-- The `n` bytes from `o` on of an endless string of bytes. -/
def window (c : Nat → UInt8) (o n : Nat) : Bytes := (range n).map fun i => c (o + i)

theorem window_add (c : Nat → UInt8) (o n m : Nat) :
    window c o (n + m) = window c o n ++ window c (o + n) m := by
  simp only [window, range_add, map_append, map_map, Nat.add_assoc]
  rfl

/-- A slice that lies in a string of bytes. -/
theorem slice_eq_window {n : Nat} (h : i + n ≤ b.length) {c : Nat → UInt8} {o : Nat}
    (hc : ∀ k < n, b.getD (i + k) 0 = c (o + k)) : slice b i (i + n) = window c o n := by
  apply ext_getElem
  · rw [length_slice, window, length_map, length_range]
    omega
  · intro k hk hk'
    have hkn : k < n := by simpa [window] using hk'
    have hlen : (slice b i (i + n)).getD k 0 = b.getD (i + k) 0 := by
      rw [getD_slice, if_pos (by omega)]
    rw [hc k hkn, getD_eq_getElem _ _ hk] at hlen
    rw [hlen]
    simp [window]

theorem slice_append_right (a b : Bytes) (i j : Nat) :
    slice (a ++ b) (a.length + i) (a.length + j) = slice b i j := by
  unfold slice
  rw [take_length_add_append, drop_length_add_append]

/-- The `k`th of pieces of the same length. -/
theorem slice_flatMap {n k : Nat} {f : Nat → Bytes} (hf : ∀ i, i < n → (f i).length = w)
    (hk : k < n) : slice ((range n).flatMap f) (k * w) (k * w + w) = f k := by
  have hlen : ∀ m, m ≤ n → ((range m).flatMap f).length = m * w := by
    intro m hm
    induction m with
    | zero => simp
    | succ m ih =>
      rw [range_succ, flatMap_append, length_append, ih (by omega),
        flatMap_singleton, hf m hm, Nat.succ_mul]
  have hsplit : ∃ rest, (range n).flatMap f = (range k).flatMap f ++ (f k ++ rest) := by
    obtain ⟨m, rfl⟩ : ∃ m, n = k + 1 + m := ⟨n - (k + 1), by omega⟩
    refine ⟨((range m).map (k + 1 + ·)).flatMap f, ?_⟩
    rw [range_add, flatMap_append, range_succ, flatMap_append, flatMap_singleton, append_assoc]
  obtain ⟨rest, hrest⟩ := hsplit
  have hslice := slice_append_right ((range k).flatMap f) (f k ++ rest) 0 w
  rw [hlen k (by omega), Nat.add_zero] at hslice
  rw [hrest, hslice, slice, drop_zero, ← hf k hk, take_left]

theorem slice_slice {j k l : Nat} (h : i + l ≤ j) :
    slice (slice b i j) k l = slice b (i + k) (i + l) := by
  refine ext_getElem? fun n => ?_
  simp only [getElem?_slice]
  by_cases hn : k + n < l
  · rw [if_pos hn, if_pos (by omega), if_pos (by omega), Nat.add_assoc]
  · rw [if_neg hn, if_neg (by omega)]

theorem slice_drop (b : Bytes) (k i j : Nat) : slice (b.drop k) i j = slice b (k + i) (k + j) := by
  unfold slice
  rw [take_drop, drop_drop]

theorem getD_drop (b : Bytes) (k i : Nat) : (b.drop k).getD i 0 = b.getD (k + i) 0 := by
  rw [getD_eq_getElem?_getD, getD_eq_getElem?_getD, getElem?_drop]

theorem drop_slice (b : Bytes) (i j k : Nat) : (slice b i j).drop k = slice b (i + k) j := by
  unfold slice
  rw [drop_drop]

theorem slice_append_left {a : Bytes} (b : Bytes) {j : Nat} (h : j ≤ a.length) :
    slice (a ++ b) i j = slice a i j := by
  rw [slice, slice, take_append_of_le_length h]

/-- The part in the middle. -/
theorem slice_append_mid {a b : Bytes} (c : Bytes) {i j : Nat} (ha : a.length = i)
    (hb : i + b.length = j) : slice (a ++ (b ++ c)) i j = b := by
  subst ha hb
  have hmid := slice_append_right a (b ++ c) 0 b.length
  rw [Nat.add_zero] at hmid
  rw [hmid, slice_append_left c (Nat.le_refl _), slice_zero_length]

/-- A part in the middle is replaced. -/
theorem splice_append_mid {a c : Bytes} (h : d.length = b.length) :
    splice (a ++ (b ++ c)) a.length d = a ++ (d ++ c) := by
  unfold splice
  rw [take_left, h, append_assoc, drop_length_add_append, drop_left]

/-- Two writes next to each other are one. -/
theorem splice_splice {e : Bytes} (h : off + d.length ≤ b.length) :
    splice (splice b off d) (off + d.length) e = splice b off (d ++ e) := by
  have htake : (b.take off ++ d).length = off + d.length := by
    rw [length_append, length_take]
    omega
  have hleft : (splice b off d).take (off + d.length) = b.take off ++ d := take_left' htake
  have hright : (splice b off d).drop (off + d.length + e.length) =
      b.drop (off + d.length + e.length) := by
    unfold splice
    rw [← htake, drop_length_add_append, drop_drop, htake]
  conv_lhs => rw [splice, hleft, hright]
  simp only [splice, length_append, append_assoc, Nat.add_assoc]

/-! ### Fields

`struct.unpack_from` and `struct.pack_into` of one little-endian field. -/

/-- The field of `w` bytes at `off`. -/
def leAt (w : Nat) (b : Bytes) (off : Nat) : Nat := leNat (slice b off (off + w))

/-- The buffer with the field of `w` bytes at `off` set. -/
def putLe (w : Nat) (b : Bytes) (off v : Nat) : Bytes := splice b off (leBytes w v)

/-- Where a field of `w` bytes at `off` starts; a negative offset counts from the
end. -/
def fieldStart (len w : Nat) (off : Int) : Option Nat :=
  let start := if off < 0 then off + len else off
  if 0 ≤ start ∧ start + w ≤ len then some start.toNat else none

/-- `struct.unpack_from` of one field. -/
def unpackFrom (w : Nat) (b : Bytes) (off : Int) : Option Nat :=
  (fieldStart b.length w off).map (leAt w b)

/-- `struct.pack_into` of one field. -/
def packInto (w : Nat) (b : Bytes) (off v : Int) : Option Bytes :=
  if 0 ≤ v ∧ v.toNat < 256 ^ w then (fieldStart b.length w off).map (putLe w b · v.toNat) else none

theorem leAt_lt (b : Bytes) (off : Nat) : leAt w b off < 256 ^ w := by
  refine lt_of_lt_of_le (leNat_lt _) (Nat.pow_le_pow_right (by decide) ?_)
  rw [length_slice]
  omega

theorem length_putLe (h : off + w ≤ b.length) : (putLe w b off v).length = b.length :=
  length_splice (by simpa using h)

theorem leAt_putLe_self (h : off + w ≤ b.length) (hv : v < 256 ^ w) :
    leAt w (putLe w b off v) off = v := by
  have hself := @slice_splice_self b (leBytes w v) off (by simpa using h)
  rw [length_leBytes] at hself
  rw [leAt, putLe, hself, leNat_leBytes_of_lt hv]

theorem leAt_putLe_of_disjoint {w' off' : Nat} (h : off + w ≤ b.length)
    (hd : off' + w' ≤ off ∨ off + w ≤ off') : leAt w' (putLe w b off v) off' = leAt w' b off' := by
  rw [leAt, putLe, slice_splice_of_disjoint (by simpa using h) (by simpa using hd), leAt]

theorem fieldStart_ofNat {len : Nat} (h : off + w ≤ len) :
    fieldStart len w (off : Int) = some off := by
  unfold fieldStart
  have hneg : ¬ (off : Int) < 0 := by omega
  simp only [hneg, if_false]
  rw [if_pos (by omega), Int.toNat_natCast]

theorem unpackFrom_ofNat (h : off + w ≤ b.length) :
    unpackFrom w b (off : Int) = some (leAt w b off) := by
  rw [unpackFrom, fieldStart_ofNat h]
  rfl

theorem packInto_ofNat (h : off + w ≤ b.length) (hv : v < 256 ^ w) :
    packInto w b (off : Int) (v : Int) = some (putLe w b off v) := by
  rw [packInto, if_pos ⟨by omega, by rwa [Int.toNat_natCast]⟩, fieldStart_ofNat h]
  simp

theorem leAt_append_right (w : Nat) (a b : Bytes) (k : Nat) :
    leAt w (a ++ b) (a.length + k) = leAt w b k := by
  rw [leAt, Nat.add_assoc, slice_append_right, leAt]

theorem leAt_leBytes_append (h : v < 256 ^ w) (c : Bytes) : leAt w (leBytes w v ++ c) 0 = v := by
  have hslice : slice (leBytes w v ++ c) 0 (0 + w) = leBytes w v := by
    unfold slice
    rw [Nat.zero_add, take_left' (length_leBytes w v), drop_zero]
  rw [leAt, hslice, leNat_leBytes_of_lt h]

theorem leAt_zeros (w n off : Nat) : leAt w (zeros n) off = 0 := by
  have hzero : ∀ m, leNat (replicate m 0) = 0 := by
    intro m
    induction m with
    | zero => rfl
    | succ m ih => simp [replicate_succ, leNat, ih]
  simp only [leAt, slice, zeros, take_replicate, drop_replicate]
  exact hzero _

end Bytes

end PythonOS.Lib
