import Mathlib.Data.List.TakeWhile
import PythonOS.Ext2.BlockIO

/-!
# PythonOS.Ext2.Bitmap

Bits of bitmaps, and the search for a clear one.
-/

namespace PythonOS.Ext2

open Lib List

theorem testBit_mask {i j : Nat} (hi : i < 8) (hj : j < 8) :
    (0xFF - 2 ^ i : Nat).testBit j = decide (j ≠ i) := by
  have hall : ∀ i < 8, ∀ j < 8, (0xFF - 2 ^ i : Nat).testBit j = decide (j ≠ i) := by decide
  exact hall i hi j hj

theorem toNat_ofNat_or {a i : Nat} (ha : a < 256) (hi : i < 8) :
    (UInt8.ofNat (a ||| 2 ^ i)).toNat = a ||| 2 ^ i := by
  have hpow : 2 ^ i < 2 ^ 8 := Nat.pow_lt_pow_right (by decide) hi
  have hlt : a ||| 2 ^ i < 2 ^ 8 := Nat.or_lt_two_pow ha hpow
  rw [UInt8.toNat_ofNat', Nat.mod_eq_of_lt hlt]

theorem toNat_ofNat_and {a m : Nat} (ha : a < 256) : (UInt8.ofNat (a &&& m)).toNat = a &&& m := by
  have hle : a &&& m ≤ a := Nat.and_le_left
  rw [UInt8.toNat_ofNat', Nat.mod_eq_of_lt (by omega)]

section Bit

variable {bm : Bytes} {i : Nat} (hi : i / 8 < bm.length) (j : Nat)

include hi

/-- A bitmap with one byte replaced. -/
theorem bitAt_set (byte : UInt8) :
    bitAt (bm.set (i / 8) byte) j =
      if j / 8 = i / 8 then byte.toNat.testBit (j % 8) else bitAt bm j := by
  unfold bitAt
  rw [getD_eq_getElem?_getD, getD_eq_getElem?_getD, getElem?_set]
  by_cases hj : j / 8 = i / 8
  · rw [if_pos hj, if_pos hj.symm, if_pos hi]
    rfl
  · rw [if_neg hj, if_neg fun h => hj h.symm]

theorem bitAt_setBit : bitAt (setBit bm i) j = (decide (j = i) || bitAt bm j) := by
  rw [setBit, bitAt_set hi, toNat_ofNat_or (UInt8.toNat_lt _) (by omega)]
  split
  · next hbyte =>
    rw [Nat.testBit_or, Nat.testBit_two_pow, Bool.or_comm]
    have hiff : (i % 8 = j % 8) ↔ j = i := by omega
    simp only [bitAt, hbyte, hiff]
  · next hbyte =>
    have hne : j ≠ i := fun h => hbyte (by rw [h])
    simp [hne]

theorem bitAt_clearBit : bitAt (clearBit bm i) j = (decide (j ≠ i) && bitAt bm j) := by
  rw [clearBit, bitAt_set hi, toNat_ofNat_and (UInt8.toNat_lt _)]
  split
  · next hbyte =>
    rw [Nat.testBit_and, testBit_mask (by omega) (by omega), Bool.and_comm]
    have hiff : (j % 8 ≠ i % 8) ↔ j ≠ i := by omega
    simp only [bitAt, hbyte, hiff]
  · next hbyte =>
    have hne : j ≠ i := fun h => hbyte (by rw [h])
    simp [hne]

end Bit

@[simp] theorem length_setBit (bm : Bytes) (i : Nat) : (setBit bm i).length = bm.length :=
  length_set

@[simp] theorem length_clearBit (bm : Bytes) (i : Nat) : (clearBit bm i).length = bm.length :=
  length_set

/-- `takeWhile` keeps all that has the property if what comes earlier has it too. -/
theorem mem_takeWhile_of_pairwise {p : Nat → Bool} {l : List Nat} (hl : l.Pairwise (· < ·))
    (hp : ∀ x y, x < y → p y = true → p x = true) {x : Nat} (hx : x ∈ l) (hpx : p x = true) :
    x ∈ l.takeWhile p := by
  induction l with
  | nil => cases hx
  | cons y ys ih =>
    obtain ⟨hy, hys⟩ := pairwise_cons.mp hl
    rcases mem_cons.mp hx with rfl | hmem
    · simp [hpx]
    · have hpy := hp y x (hy x hmem) hpx
      rw [takeWhile_cons, if_pos hpy]
      exact mem_cons_of_mem _ (ih hys hmem)

/-- The search looks only inside the bitmap, and what it finds is clear; if it finds
nothing, nothing is. -/
theorem firstClear_spec {bm : Bytes} {count n byteI : Nat} (h : byteI + n ≤ bm.length) :
    ∃ found, firstClear bm count n byteI = .ok found ∧
      (∀ idx, found = some idx → idx < count ∧ bitAt bm idx = false) ∧
      (found = none → ∀ j, byteI * 8 ≤ j → j < (byteI + n) * 8 → j < count →
        bitAt bm j = true) := by
  induction n generalizing byteI with
  | zero =>
    exact ⟨none, rfl, fun _ hidx => absurd hidx (by simp), fun _ j hlo hhi => by omega⟩
  | succ n ih =>
    have hbyte : bm[byteI]? = some (bm.getD byteI 0) := by
      rw [getD_eq_getElem?_getD, getElem?_eq_getElem (by omega)]
      rfl
    obtain ⟨found, hfound, hclear, hnone⟩ := @ih (byteI + 1) (by omega)
    -- a byte without a clear bit is passed over
    have hskip : (∀ bit, bit < 8 → byteI * 8 + bit < count →
        (bm.getD byteI 0).toNat.testBit bit = true) → found = none →
        ∀ j, byteI * 8 ≤ j → j < (byteI + (n + 1)) * 8 → j < count → bitAt bm j = true := by
      intro hset hf j hlo hhi hj
      by_cases hlt : j < (byteI + 1) * 8
      · rw [bitAt, show j / 8 = byteI by omega]
        exact hset _ (by omega) (by omega)
      · exact hnone hf j (by omega) (by omega) hj
    rw [firstClear]
    simp only [hbyte]
    split
    · next hfull =>
      refine ⟨found, hfound, hclear, hskip fun bit hbit _ => ?_⟩
      rw [hfull]
      exact (by decide : ∀ b < 8, (UInt8.toNat 255).testBit b = true) bit hbit
    · split
      · next bit hfind =>
        refine ⟨_, rfl, fun idx hidx => ?_, fun hc => absurd hc (by simp)⟩
        obtain rfl : byteI * 8 + bit = idx := Option.some.inj hidx
        have hmem := mem_of_find?_eq_some hfind
        have hlt := mem_range.mp (( takeWhile_prefix _).subset hmem)
        have hcount := mem_takeWhile_imp hmem
        have hclear := find?_some hfind
        refine ⟨of_decide_eq_true hcount, ?_⟩
        rw [bitAt, show (byteI * 8 + bit) / 8 = byteI by omega,
          show (byteI * 8 + bit) % 8 = bit by omega]
        simpa using hclear
      · next hfind =>
        refine ⟨found, hfound, hclear, hskip fun bit hbit hcount => ?_⟩
        have hmem := mem_takeWhile_of_pairwise (p := fun bit => byteI * 8 + bit < count)
          pairwise_lt_range (fun x y hxy hy => by simp only [decide_eq_true_eq] at hy ⊢; omega)
          (mem_range.mpr hbit) (decide_eq_true hcount)
        simpa using find?_eq_none.mp hfind bit hmem

end PythonOS.Ext2
