import Mathlib.Data.Int.Log
import Mathlib.Data.Rat.Floor
import PythonOS.Lib.Dict

/-!
# PythonOS.Lib.PyValue

Python's numbers and what a JSON text decodes to.

An integer has any size; a float is a rational number on the grid of binary64,
an infinity or not a number. Operations that round (`+` on floats, `/` on
integers) round to nearest, ties to even (`binary64`).
-/

namespace PythonOS.Lib

/-- The exceptions the modelled programs can raise. -/
inductive PyExc
  | valueError (message : String)
  | keyError (key : String)
  | typeError
  | zeroDivisionError
  | overflowError
  deriving Repr, DecidableEq

/-- `round(q)`: to the nearest integer, ties to the even one. -/
def roundHalfEven (q : ℚ) : Int :=
  let f := ⌊q⌋
  let r := q - f
  if r < 1 / 2 then f
  else if 1 / 2 < r then f + 1
  else if f % 2 = 0 then f
  else f + 1

/-- The binary64 number nearest to `q` (53 significant bits, exponent at least
-1074), with the exponent range unbounded above. -/
def binary64 (q : ℚ) : ℚ :=
  let e : Int := max (Int.log 2 |q| - 52) (-1074)
  roundHalfEven (q / 2 ^ e) * 2 ^ e

/-- A multiple of the smallest positive binary64 number, as every float is. -/
def OnGrid (q : ℚ) : Prop := ∃ n : Int, q = n * 2 ^ (-1074 : Int)

theorem onGrid_binary64 (q : ℚ) : OnGrid (binary64 q) := by
  have hexp := le_max_right (Int.log 2 |q| - 52) (-1074)
  unfold binary64
  generalize max (Int.log 2 |q| - 52) (-1074) = e at hexp ⊢
  obtain ⟨k, hk⟩ := Int.eq_ofNat_of_zero_le (show 0 ≤ e - -1074 by omega)
  refine ⟨roundHalfEven (q / 2 ^ e) * 2 ^ k, ?_⟩
  have hpow : (2 : ℚ) ^ e = 2 ^ k * 2 ^ (-1074 : Int) := by
    rw [← zpow_natCast, ← zpow_add₀ (by norm_num)]
    congr 1
    omega
  push_cast
  rw [mul_assoc, ← hpow]

/-- A Python `float`. -/
inductive PyFloat
  | nan
  | inf (neg : Bool)
  | fin (q : ℚ) (grid : OnGrid q)
  deriving DecidableEq

/-- The float nearest to `q`. -/
def PyFloat.near (q : ℚ) : PyFloat := .fin (binary64 q) (onGrid_binary64 q)

/-- A Python `int` or `float`. -/
inductive PyNum
  | int (i : Int)
  | float (f : PyFloat)
  deriving DecidableEq

namespace PyNum

/-- The value of a finite number. -/
def toRat? : PyNum → Option ℚ
  | .int i => some i
  | .float (.fin q _) => some q
  | .float _ => none

/-- `lo <= v <= hi and math.isfinite(v)` for finite bounds. -/
def inRange (v : PyNum) (lo hi : ℚ) : Bool :=
  match v.toRat? with
  | some q => lo ≤ q && q ≤ hi
  | none => false

/-- `v < w` where both are finite. -/
def lt (v w : PyNum) : Bool :=
  match v.toRat?, w.toRat? with
  | some p, some q => p < q
  | _, _ => false

/-- `v + i`. -/
def addInt (v : PyNum) (i : Int) : PyNum :=
  match v with
  | .int j => .int (j + i)
  | .float (.fin q _) => .float (.near (q + i))
  | .float f => .float f

/-- `max(lo, min(hi, v))` for integers `lo ≤ hi`: the bounds are returned as they
are, also for an equal `v`, and `hi` for not a number. -/
def clamp (lo hi : Int) (v : PyNum) : PyNum :=
  match v with
  | .float .nan => .int hi
  | .float (.inf neg) => .int (if neg then lo else hi)
  | .int i => if i < hi then (if lo < i then .int i else .int lo) else .int hi
  | .float (.fin q _) => if q < hi then (if lo < q then v else .int lo) else .int hi

/-- `round(v)`. -/
def round : PyNum → Except PyExc Int
  | .int i => .ok i
  | .float (.fin q _) => .ok (roundHalfEven q)
  | .float .nan => .error (.valueError "cannot convert float NaN to integer")
  | .float (.inf _) => .error .overflowError

end PyNum

/-- `a / b`. -/
def trueDiv (a b : Int) : Except PyExc PyNum :=
  if b = 0 then .error .zeroDivisionError
  else
    if 2 ^ 1024 ≤ |binary64 ((a : ℚ) / b)| then .error .overflowError
    else .ok (.float (.near ((a : ℚ) / b)))

namespace PyNum

/-- `i * v` for a finite `v`. -/
def mulInt (i : Int) : PyNum → PyNum
  | .int j => .int (i * j)
  | .float (.fin q _) => .float (.near (i * q))
  | .float f => .float f

/-- `v - w`, where integers are exact as floats. -/
def sub (v w : PyNum) : PyNum :=
  match v, w with
  | .int i, .int j => .int (i - j)
  | _, _ =>
    match v.toRat?, w.toRat? with
    | some p, some q => .float (.near (p - q))
    | _, _ => .float .nan

/-- `v / w`, where integers are exact as floats. -/
def div (v w : PyNum) : Except PyExc PyNum :=
  match v, w with
  | .int i, .int j => trueDiv i j
  | _, _ =>
    match v.toRat?, w.toRat? with
    | some p, some q =>
      if q = 0 then .error .zeroDivisionError else .ok (.float (.near (p / q)))
    | _, _ => .ok (.float .nan)

/-- `int(v)`. -/
def trunc : PyNum → Except PyExc Int
  | .int i => .ok i
  | .float (.fin q _) => .ok (if 0 ≤ q then ⌊q⌋ else ⌈q⌉)
  | .float .nan => .error (.valueError "cannot convert float NaN to integer")
  | .float (.inf _) => .error .overflowError

end PyNum

/-- What a JSON text decodes to. -/
inductive Json
  | null
  | bool (b : Bool)
  | num (n : PyNum)
  | str (s : String)
  | arr (items : List Json)
  | obj (fields : List (String × Json))

namespace Json

/-- `bool(v)`. -/
def truthy : Json → Bool
  | null => false
  | bool b => b
  | num n => n.toRat? != some 0
  | str s => s != ""
  | arr items => !items.isEmpty
  | obj fields => !fields.isEmpty

/-- `v == i`. -/
def eqInt (v : Json) (i : Int) : Bool :=
  match v with
  | bool b => (if b then 1 else 0) == i
  | num n => n.toRat? == some (i : ℚ)
  | _ => false

end Json

/-! ### Ranges -/

theorem roundHalfEven_mem {q : ℚ} {lo hi : Int} (hlo : (lo : ℚ) ≤ q) (hhi : q ≤ hi) :
    lo ≤ roundHalfEven q ∧ roundHalfEven q ≤ hi := by
  have hfloor : lo ≤ ⌊q⌋ := Int.le_floor.mpr hlo
  have hle : (⌊q⌋ : ℚ) ≤ q := Int.floor_le q
  -- rounding up only happens strictly above an integer, which `hi` then exceeds
  have hup : 0 < q - ⌊q⌋ → ⌊q⌋ + 1 ≤ hi := by
    intro hpos
    have hlt : (⌊q⌋ : ℚ) < hi := by linarith
    exact Int.add_one_le_iff.mpr (by exact_mod_cast hlt)
  have hfhi : ⌊q⌋ ≤ hi := by exact_mod_cast hle.trans hhi
  unfold roundHalfEven
  dsimp only
  split_ifs with h1 h2 h3
  · exact ⟨hfloor, hfhi⟩
  · exact ⟨by omega, hup (by linarith)⟩
  · exact ⟨hfloor, hfhi⟩
  · exact ⟨by omega, hup (by linarith)⟩

theorem abs_roundHalfEven_sub_le (q : ℚ) : |(roundHalfEven q : ℚ) - q| ≤ 1 := by
  have hle : (⌊q⌋ : ℚ) ≤ q := Int.floor_le q
  have hlt : q < ⌊q⌋ + 1 := Int.lt_floor_add_one q
  unfold roundHalfEven
  dsimp only
  split_ifs
  all_goals
    push_cast
    rw [abs_le]
    constructor <;> linarith

/-- Rounding moves a number by one unit in the last place at most. -/
theorem abs_binary64_sub_le (q : ℚ) :
    |binary64 q - q| ≤ 2 ^ max (Int.log 2 |q| - 52) (-1074) := by
  unfold binary64
  generalize max (Int.log 2 |q| - 52) (-1074) = e
  have hpos : (0 : ℚ) < 2 ^ e := zpow_pos (by norm_num) e
  have hround := abs_roundHalfEven_sub_le (q / 2 ^ e)
  have hscale : (roundHalfEven (q / 2 ^ e) : ℚ) * 2 ^ e - q =
      (roundHalfEven (q / 2 ^ e) - q / 2 ^ e) * 2 ^ e := by
    rw [sub_mul, div_mul_cancel₀ q hpos.ne']
  rw [hscale, abs_mul, abs_of_pos hpos]
  calc |(roundHalfEven (q / 2 ^ e) : ℚ) - q / 2 ^ e| * 2 ^ e ≤ 1 * 2 ^ e :=
        mul_le_mul_of_nonneg_right hround hpos.le
    _ = 2 ^ e := one_mul _

/-- The unit in the last place is at most a half of the number, or tiny. -/
theorem abs_binary64_sub_le_half (q : ℚ) : |binary64 q - q| ≤ |q| / 2 + 1 := by
  refine (abs_binary64_sub_le q).trans ?_
  rcases le_total (Int.log 2 |q| - 52) (-1074) with h | h
  · rw [max_eq_right h]
    have htiny : (2 : ℚ) ^ (-1074 : Int) ≤ 1 := zpow_le_one_of_nonpos₀ (by norm_num) (by norm_num)
    have habs := abs_nonneg q
    linarith
  · rw [max_eq_left h]
    by_cases hq : q = 0
    · subst hq
      simp only [abs_zero, Int.log_zero_right, zero_div, zero_add]
      exact zpow_le_one_of_nonpos₀ (by norm_num) (by norm_num)
    · have hlog : (2 : ℚ) ^ Int.log 2 |q| ≤ |q| := by
        exact_mod_cast Int.zpow_log_le_self (b := 2) (by norm_num) (abs_pos.mpr hq)
      have hshift : (2 : ℚ) ^ (Int.log 2 |q| - 52) ≤ 2 ^ Int.log 2 |q| / 2 := by
        rw [zpow_sub₀ (by norm_num)]
        have hpos : (0 : ℚ) < 2 ^ Int.log 2 |q| := zpow_pos (by norm_num) _
        exact div_le_div_of_nonneg_left hpos.le (by norm_num) (by norm_num)
      linarith

/-- A quotient of a number that is not too large is a float. -/
theorem trueDiv_isOk {a b : Int} (hb : 0 < b) (ha : |a| ≤ 2 ^ 1010) :
    ∃ f, trueDiv a b = .ok (.float f) := by
  have hquot : |(a : ℚ) / b| ≤ 2 ^ 1010 := by
    have hb1 : (1 : ℚ) ≤ |(b : ℚ)| := by
      rw [abs_of_pos (by exact_mod_cast hb)]
      exact_mod_cast hb
    have ha' : |(a : ℚ)| ≤ 2 ^ 1010 := by exact_mod_cast ha
    rw [abs_div]
    exact (div_le_self (abs_nonneg _) hb1).trans ha'
  have hnear := abs_binary64_sub_le_half ((a : ℚ) / b)
  have hsmall : |binary64 ((a : ℚ) / b)| ≤ |binary64 ((a : ℚ) / b) - a / b| + |(a : ℚ) / b| := by
    simpa using abs_add_le (binary64 ((a : ℚ) / b) - a / b) (a / b)
  have hlt : ¬ 2 ^ 1024 ≤ |binary64 ((a : ℚ) / b)| := by
    have hone : (1 : ℚ) ≤ 2 ^ 1010 := one_le_pow₀ (by norm_num)
    rw [show 1024 = 1010 + 14 from rfl, pow_add]
    generalize (2 : ℚ) ^ 1010 = p at hquot hone ⊢
    linarith
  refine ⟨.near ((a : ℚ) / b), ?_⟩
  unfold trueDiv
  rw [if_neg hb.ne', if_neg hlt]

/-- A quotient beyond the largest float cannot be formed. -/
theorem trueDiv_overflow {a b : Int} (hb : 0 < b) (ha : (2 ^ 1026 : ℚ) ≤ (a : ℚ) / b) :
    trueDiv a b = .error .overflowError := by
  have hpos : (0 : ℚ) ≤ (a : ℚ) / b := le_trans (by positivity) ha
  have hnear := abs_binary64_sub_le_half ((a : ℚ) / b)
  rw [abs_of_nonneg hpos] at hnear
  have hlow := (abs_le.mp hnear).1
  have hbig : (2 : ℚ) ^ 1024 ≤ |binary64 ((a : ℚ) / b)| := by
    have hone : (1 : ℚ) ≤ 2 ^ 1024 := one_le_pow₀ (by norm_num)
    rw [show 1026 = 1024 + 2 from rfl, pow_add] at ha
    generalize (2 : ℚ) ^ 1024 = p at ha hone ⊢
    refine le_trans ?_ (le_abs_self _)
    linarith
  unfold trueDiv
  rw [if_neg hb.ne', if_pos hbig]

namespace PyNum

theorem clamp_mem (lo hi : Int) (h : lo ≤ hi) (v : PyNum) :
    (clamp lo hi v).inRange lo hi = true := by
  cases v with
  | int i =>
    simp only [clamp]
    split_ifs with h1 h2
    · simp [inRange, toRat?]
      omega
    · simp [inRange, toRat?, h]
    · simp [inRange, toRat?, h]
  | float f =>
    cases f with
    | nan => simp [clamp, inRange, toRat?, h]
    | inf neg => cases neg <;> simp [clamp, inRange, toRat?, h]
    | fin q grid =>
      simp only [clamp]
      split_ifs with h1 h2
      · simp only [inRange, toRat?, Bool.and_eq_true, decide_eq_true_eq]
        exact ⟨h2.le, h1.le⟩
      · simp [inRange, toRat?, h]
      · simp [inRange, toRat?, h]

theorem round_mem {v : PyNum} {lo hi : Int} (h : v.inRange lo hi = true) :
    ∃ i, v.round = .ok i ∧ lo ≤ i ∧ i ≤ hi := by
  cases v with
  | int i =>
    simp only [inRange, toRat?, Bool.and_eq_true, decide_eq_true_eq] at h
    exact ⟨i, rfl, by exact_mod_cast h.1, by exact_mod_cast h.2⟩
  | float f =>
    cases f with
    | nan => exact absurd h (by simp [inRange, toRat?])
    | inf neg => exact absurd h (by simp [inRange, toRat?])
    | fin q grid =>
      simp only [inRange, toRat?, Bool.and_eq_true, decide_eq_true_eq] at h
      exact ⟨_, rfl, roundHalfEven_mem h.1 h.2⟩

end PyNum

end PythonOS.Lib
