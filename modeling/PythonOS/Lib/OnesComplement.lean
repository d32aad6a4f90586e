import PythonOS.Lib.Bytes

/-!
# PythonOS.Lib.OnesComplement

The 16-bit one's complement sum of byte strings.

A sum of words is folded by adding the carries back in until 16 bits are left.
The folded sum is congruent to the sum modulo `2 ^ 16 - 1`, and is zero only
when the sum is (`foldCarry_lt`, `foldCarry_mod`, `foldCarry_pos`). Hence a
string whose checksum field holds the complement of the folded sum of the rest
folds to all ones: `foldCarry_complement`.
-/

namespace PythonOS.Lib.OnesComplement

open Lib List

/-- The 16-bit big-endian words of a string of even length. -/
def words : Bytes → List Nat
  | a :: b :: rest => (a.toNat * 256 + b.toNat) :: words rest
  | _ => []

/-- A zero byte is added to a string of odd length. -/
def padEven (b : Bytes) : Bytes := if b.length % 2 = 1 then b ++ [0] else b

/-- The sum of the words. -/
def wordSum (b : Bytes) : Nat := (words (padEven b)).sum

/-- `while s >> 16: s = (s & 0xFFFF) + (s >> 16)`. -/
def foldCarry (s : Nat) : Nat :=
  if s >>> 16 = 0 then s else foldCarry ((s &&& 0xFFFF) + (s >>> 16))
termination_by s
decreasing_by
  rw [show 0xFFFF = 2 ^ 16 - 1 from rfl, Nat.and_two_pow_sub_one_eq_mod]
  omega

/-! ### Sums of concatenated strings -/

theorem words_append {a : Bytes} (b : Bytes) (h : a.length % 2 = 0) :
    words (a ++ b) = words a ++ words b := by
  induction a using words.induct with
  | case1 x y rest ih =>
    rw [length_cons, length_cons] at h
    rw [cons_append, cons_append, words, words, ih (by omega), cons_append]
  | case2 a hne =>
    match a, h, hne with
    | [], _, _ => rfl
    | [x], h, _ => exact absurd h Nat.one_ne_zero
    | x :: y :: rest, _, hne => exact absurd rfl (hne x y rest)

/-- A string of even length in front leaves the words of the rest alone. -/
theorem wordSum_append {a : Bytes} (b : Bytes) (h : a.length % 2 = 0) :
    wordSum (a ++ b) = wordSum a + wordSum b := by
  have ha : padEven a = a := if_neg (by omega)
  have hab : padEven (a ++ b) = a ++ padEven b := by
    unfold padEven
    rw [length_append, Nat.add_mod, h, Nat.zero_add, Nat.mod_mod]
    split
    · rw [append_assoc]
    · rfl
  rw [wordSum, wordSum, wordSum, hab, ha, words_append _ h, sum_append]

theorem wordSum_beBytes_two {v : Nat} (h : v < 2 ^ 16) : wordSum (Bytes.beBytes 2 v) = v := by
  have hhigh : (UInt8.ofNat (v / 256)).toNat = v / 256 := by
    rw [UInt8.toNat_ofNat', Nat.mod_eq_of_lt (by omega)]
  have hlow : (UInt8.ofNat v).toNat = v % 256 := UInt8.toNat_ofNat'
  have hpad : padEven (Bytes.beBytes 2 v) = [UInt8.ofNat (v / 256), UInt8.ofNat v] :=
    if_neg (by rw [Bytes.length_beBytes]; decide)
  rw [wordSum, hpad]
  show (UInt8.ofNat (v / 256)).toNat * 256 + (UInt8.ofNat v).toNat + 0 = v
  omega

/-! ### Folding -/

theorem foldCarry_eq (s : Nat) :
    foldCarry s = if s < 2 ^ 16 then s else foldCarry (s % 2 ^ 16 + s / 2 ^ 16) := by
  rw [foldCarry, Nat.shiftRight_eq_div_pow, show 0xFFFF = 2 ^ 16 - 1 from rfl,
    Nat.and_two_pow_sub_one_eq_mod]
  by_cases h : s < 2 ^ 16
  · rw [if_pos h, if_pos (Nat.div_eq_of_lt h)]
  · rw [if_neg h, if_neg (by omega)]

/-- What folding keeps: the class modulo `2 ^ 16 - 1`, and being positive. -/
theorem foldCarry_spec (s : Nat) :
    foldCarry s < 2 ^ 16 ∧ foldCarry s % 0xFFFF = s % 0xFFFF ∧ (0 < s → 0 < foldCarry s) := by
  induction s using Nat.strong_induction_on with
  | _ s ih =>
    rw [foldCarry_eq]
    by_cases h : s < 2 ^ 16
    · rw [if_pos h]
      exact ⟨h, rfl, id⟩
    · rw [if_neg h]
      obtain ⟨hlt, hmod, hpos⟩ := ih (s % 2 ^ 16 + s / 2 ^ 16) (by omega)
      refine ⟨hlt, ?_, fun _ => hpos (by omega)⟩
      -- `s = q * 2 ^ 16 + r` and `2 ^ 16` is one modulo `2 ^ 16 - 1`
      have hs : s = s % 2 ^ 16 + s / 2 ^ 16 + 0xFFFF * (s / 2 ^ 16) := by omega
      rw [hmod]
      conv_rhs => rw [hs]
      rw [Nat.add_mul_mod_self_left]

/-- **Checksum.** With the complement of its folded sum added, a sum folds to all ones. -/
theorem foldCarry_complement (s : Nat) : foldCarry (s + (0xFFFF - foldCarry s)) = 0xFFFF := by
  obtain ⟨hlt, hmod, hpos⟩ := foldCarry_spec s
  obtain ⟨hlt', hmod', hpos'⟩ := foldCarry_spec (s + (0xFFFF - foldCarry s))
  have hsum : 0 < s + (0xFFFF - foldCarry s) := by
    rcases Nat.eq_zero_or_pos s with rfl | hs
    · rw [foldCarry_eq 0, if_pos (by decide)]
      decide
    · omega
  omega

end PythonOS.Lib.OnesComplement
