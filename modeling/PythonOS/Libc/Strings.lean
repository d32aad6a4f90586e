import Mathlib.Algebra.Group.Nat.Defs
import Mathlib.Data.Nat.Find
import Mathlib.Logic.Function.Basic

/-!
# PythonOS.Libc.Strings

The functions of `libc/string.c` that copy at most `n` elements, on strings of
`char` and of `wchar_t`.

The source is a string, so the loops see its terminator; the destination is all
of memory from a pointer on, so a store past the end of an object shows in the
result. A count that is decremented at zero wraps to `2 ^ 64 - 1`.

`bounded_copies_iff` says when each function leaves what the C standard
prescribes.
-/

namespace PythonOS.Libc

open Function

/-- The elements from a pointer on, one of which is a terminator. -/
structure CString (α : Type) [OfNat α 0] where
  elem : Nat → α
  terminated : ∃ i, elem i = 0

section

variable {α : Type} [OfNat α 0] [DecidableEq α]

/-- `strlen` and `wcslen`. -/
def CString.len (s : CString α) : Nat := Nat.find s.terminated

/-- `while (n--) *d++ = 0;` from the element `i` on. -/
def fill (dst : Nat → α) : (n i : Nat) → Nat → α
  | 0, _ => dst
  | n + 1, i => fill (update dst i 0) n (i + 1)

/-- `while (n && (*d++ = *src++)) n--;`: the count, the number of elements written and the
destination. -/
def strncpyLoop (src dst : Nat → α) : (n i : Nat) → Nat × Nat × (Nat → α)
  | 0, i => (0, i, dst)
  | n + 1, i =>
    if src i ≠ 0 then strncpyLoop src (update dst i (src i)) n (i + 1)
    else (n + 1, i + 1, update dst i (src i))

/-- `strncpy`. -/
def strncpy (dst : Nat → α) (src : CString α) (n : Nat) : Nat → α :=
  let (n, i, dst) := strncpyLoop src.elem dst n 0
  fill dst n i

/-- `while (n-- && (*d++ = *src++)) {}` with `d` at the element `m + i`. -/
def wcsLoop (src : Nat → α) (m : Nat) (dst : Nat → α) : (n i : Nat) → Nat × Nat × (Nat → α)
  | 0, i => (2 ^ 64 - 1, i, dst)
  | n + 1, i =>
    if src i ≠ 0 then wcsLoop src m (update dst (m + i) (src i)) n (i + 1)
    else (n, i + 1, update dst (m + i) (src i))

/-- `wcsncpy`. -/
def wcsncpy (dst : Nat → α) (src : CString α) (n : Nat) : Nat → α :=
  let (n, i, dst) := wcsLoop src.elem 0 dst n 0
  fill dst n i

/-- `while (n-- && *src) *d++ = *src++;` -/
def strncatLoop (src : Nat → α) (m : Nat) (dst : Nat → α) : (n i : Nat) → Nat × (Nat → α)
  | 0, i => (i, dst)
  | n + 1, i =>
    if src i ≠ 0 then strncatLoop src m (update dst (m + i) (src i)) n (i + 1) else (i, dst)

/-- `strncat`. -/
def strncat (dst src : CString α) (n : Nat) : Nat → α :=
  let (i, d) := strncatLoop src.elem dst.len dst.elem n 0
  update d (dst.len + i) 0

/-- `wcsncat`. -/
def wcsncat (dst src : CString α) (n : Nat) : Nat → α :=
  let (_, i, d) := wcsLoop src.elem dst.len dst.elem n 0
  update d (dst.len + i) 0

/-- What the standard prescribes for `strncpy`: the first `n` elements are those of the string and
then terminators, and nothing else changes. -/
def paddedCopy (dst : Nat → α) (src : CString α) (n : Nat) : Nat → α := fun x =>
  if x < n then if x < src.len then src.elem x else 0 else dst x

/-- What it prescribes for `strncat`: at most `n` elements of the string and one terminator. -/
def appended (dst src : CString α) (n : Nat) : Nat → α := fun x =>
  if x < dst.len then dst.elem x
  else if x < dst.len + min n src.len then src.elem (x - dst.len)
  else if x = dst.len + min n src.len then 0 else dst.elem x

/-! ### What the loops leave -/

/-- The elements from `m + i` to `m + k` are those of `src` from `i` to `k`. -/
def copied (src : Nat → α) (m : Nat) (dst : Nat → α) (i k : Nat) : Nat → α := fun x =>
  if m + i ≤ x ∧ x < m + k then src (x - m) else dst x

section

omit [OfNat α 0] [DecidableEq α]

theorem copied_self (src : Nat → α) (m : Nat) (dst : Nat → α) (i : Nat) :
    copied src m dst i i = dst :=
  funext fun _ => if_neg (by omega)

theorem copied_update (src : Nat → α) (m : Nat) (dst : Nat → α) {i k : Nat} (h : i < k) :
    copied src m (update dst (m + i) (src i)) (i + 1) k = copied src m dst i k := by
  funext x
  unfold copied
  by_cases hx : x = m + i
  · subst hx
    rw [if_neg (by omega), if_pos (by omega), update_self, Nat.add_sub_cancel_left]
  · rw [update_of_ne hx]
    exact if_congr (by omega) rfl rfl

end

theorem CString.elem_len (s : CString α) : s.elem s.len = 0 := Nat.find_spec s.terminated

theorem CString.elem_ne (s : CString α) {i : Nat} (h : i < s.len) : s.elem i ≠ 0 :=
  Nat.find_min s.terminated h

omit [DecidableEq α] in
theorem fill_eq (dst : Nat → α) (n i : Nat) :
    fill dst n i = copied (fun _ => 0) 0 dst i (i + n) := by
  induction n generalizing dst i with
  | zero => exact (copied_self ..).symm
  | succ n ih =>
    rw [fill, ih, ← copied_update _ _ dst (show i < i + (n + 1) by omega), Nat.zero_add,
      Nat.add_right_comm, Nat.add_assoc]

variable (src : CString α) (m : Nat) (dst : Nat → α)

theorem strncpyLoop_eq (n i : Nat) (hi : i ≤ src.len) :
    strncpyLoop src.elem dst n i =
      if i + n ≤ src.len then (0, i + n, copied src.elem 0 dst i (i + n))
      else (i + n - src.len, src.len + 1, copied src.elem 0 dst i (src.len + 1)) := by
  induction n generalizing dst i with
  | zero => rw [if_pos (by omega), Nat.add_zero, copied_self, strncpyLoop]
  | succ n ih =>
    rw [strncpyLoop, ← copied_update _ _ _ (show i < i + (n + 1) by omega),
      ← copied_update _ _ _ (show i < src.len + 1 by omega), Nat.zero_add]
    rcases Nat.lt_or_eq_of_le hi with hlt | rfl
    · rw [if_pos (src.elem_ne hlt), ih _ (i + 1) hlt, Nat.add_right_comm, Nat.add_assoc]
    · rw [if_neg (not_not_intro src.elem_len), if_neg (by omega), copied_self,
        Nat.add_sub_cancel_left]

theorem wcsLoop_eq (n i : Nat) (hi : i ≤ src.len) :
    wcsLoop src.elem m dst n i =
      if i + n ≤ src.len then (2 ^ 64 - 1, i + n, copied src.elem m dst i (i + n))
      else (i + n - src.len - 1, src.len + 1, copied src.elem m dst i (src.len + 1)) := by
  induction n generalizing dst i with
  | zero => rw [if_pos (by omega), Nat.add_zero, copied_self, wcsLoop]
  | succ n ih =>
    rw [wcsLoop, ← copied_update _ _ _ (show i < i + (n + 1) by omega),
      ← copied_update _ _ _ (show i < src.len + 1 by omega)]
    rcases Nat.lt_or_eq_of_le hi with hlt | rfl
    · rw [if_pos (src.elem_ne hlt), ih _ (i + 1) hlt, Nat.add_right_comm, Nat.add_assoc]
    · rw [if_neg (not_not_intro src.elem_len), if_neg (by omega), copied_self,
        Nat.add_sub_cancel_left, Nat.add_sub_cancel]

theorem strncatLoop_eq (n i : Nat) (hi : i ≤ src.len) :
    strncatLoop src.elem m dst n i =
      (min (i + n) src.len, copied src.elem m dst i (min (i + n) src.len)) := by
  induction n generalizing dst i with
  | zero => rw [Nat.add_zero, Nat.min_eq_left hi, copied_self, strncatLoop]
  | succ n ih =>
    rw [strncatLoop]
    rcases Nat.lt_or_eq_of_le hi with hlt | rfl
    · rw [if_pos (src.elem_ne hlt), ih _ (i + 1) hlt, Nat.add_right_comm, Nat.add_assoc,
        copied_update _ _ _ (by omega)]
    · rw [if_neg (not_not_intro src.elem_len), Nat.min_eq_right (by omega), copied_self]

/-! ### When they leave what is prescribed -/

section

variable {v : α} (hv : v ≠ 0) (n : Nat)

include hv

/-- A short string is padded with one terminator too many. -/
theorem strncpy_iff : (∀ dst, strncpy dst src n = paddedCopy dst src n) ↔ n ≤ src.len := by
  constructor
  · intro h
    by_contra hlt
    have hend := congrFun (h fun _ => v) n
    rw [strncpy, strncpyLoop_eq src _ n 0 (Nat.zero_le _), if_neg (by omega), paddedCopy,
      if_neg (Nat.lt_irrefl n)] at hend
    simp only [fill_eq] at hend
    rw [copied, if_pos (by omega)] at hend
    exact hv hend.symm
  · intro h dst
    rw [strncpy, strncpyLoop_eq src dst n 0 (Nat.zero_le _), if_pos (by omega)]
    funext x
    simp only [fill, copied, paddedCopy]
    split_ifs <;> first | rfl | omega

/-- When the count runs out in the first loop, the second one starts from the wrapped count. -/
theorem wcsncpy_iff : (∀ dst, wcsncpy dst src n = paddedCopy dst src n) ↔ src.len < n := by
  constructor
  · intro h
    by_contra hle
    have hend := congrFun (h fun _ => v) n
    rw [wcsncpy, wcsLoop_eq src _ _ n 0 (Nat.zero_le _), if_pos (by omega), paddedCopy,
      if_neg (Nat.lt_irrefl n)] at hend
    simp only [fill_eq] at hend
    rw [copied, if_pos (by omega)] at hend
    exact hv hend.symm
  · intro h dst
    rw [wcsncpy, wcsLoop_eq src 0 dst n 0 (Nat.zero_le _), if_neg (by omega)]
    funext x
    simp only [fill_eq, copied, paddedCopy]
    by_cases hx : x = src.len
    · subst hx
      rw [if_neg (by omega), if_pos (by omega), if_pos h, if_neg (Nat.lt_irrefl _)]
      exact src.elem_len
    · split_ifs <;> first | rfl | omega

omit hv in
theorem strncat_eq (dst : CString α) : strncat dst src n = appended dst src n := by
  rw [strncat, strncatLoop_eq src dst.len dst.elem n 0 (Nat.zero_le _)]
  funext x
  simp only [update_apply, copied, appended]
  split_ifs <;> first | rfl | omega

/-- The terminator of the string is copied, and another one is put after it. -/
theorem wcsncat_iff : (∀ dst, wcsncat dst src n = appended dst src n) ↔ n ≤ src.len := by
  constructor
  · intro h
    by_contra hlt
    have hdst : ∃ i, (fun x : Nat => if x = 0 then 0 else v) i = 0 := ⟨0, rfl⟩
    have hlen : CString.len ⟨_, hdst⟩ = 0 := (Nat.find_eq_zero hdst).mpr rfl
    have hend := congrFun (h ⟨_, hdst⟩) (src.len + 1)
    rw [wcsncat, wcsLoop_eq src _ _ n 0 (Nat.zero_le _), if_neg (by omega), appended, hlen,
      if_neg (by omega), if_neg (by omega), if_neg (by omega)] at hend
    simp only [Nat.zero_add, update_self, Nat.succ_ne_zero, if_false] at hend
    exact hv hend.symm
  · intro h dst
    rw [wcsncat, wcsLoop_eq src _ _ n 0 (Nat.zero_le _), if_pos (by omega)]
    funext x
    simp only [update_apply, copied, appended]
    split_ifs <;> first | rfl | omega

end

end

/-- When the functions leave the destination as prescribed, whatever was in it: `strncpy` when the
string has at least `n` elements, `wcsncpy` when it has less, `strncat` always, `wcsncat` when the
string has at least `n`. -/
theorem bounded_copies_iff (src : CString UInt8) (wsrc : CString Int32) (n : Nat) :
    ((∀ dst, strncpy dst src n = paddedCopy dst src n) ↔ n ≤ src.len) ∧
    ((∀ dst, wcsncpy dst wsrc n = paddedCopy dst wsrc n) ↔ wsrc.len < n) ∧
    (∀ dst, strncat dst src n = appended dst src n) ∧
    ((∀ dst, wcsncat dst wsrc n = appended dst wsrc n) ↔ n ≤ wsrc.len) :=
  ⟨strncpy_iff src (show (1 : UInt8) ≠ 0 by decide) n,
    wcsncpy_iff wsrc (show (1 : Int32) ≠ 0 by decide) n, strncat_eq src n,
    wcsncat_iff wsrc (show (1 : Int32) ≠ 0 by decide) n⟩

/-- `strncpy` of the empty string with a count of one stores a second terminator. -/
theorem strncpy_stores_past : ∃ (dst : Nat → UInt8) (src : CString UInt8),
    src.len = 0 ∧ dst 1 = 1 ∧ paddedCopy dst src 1 1 = 1 ∧ strncpy dst src 1 1 = 0 :=
  ⟨fun _ => 1, ⟨fun _ => 0, 0, rfl⟩, (Nat.find_eq_zero _).mpr rfl, rfl, rfl, rfl⟩

end PythonOS.Libc
