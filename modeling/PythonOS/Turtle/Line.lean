import Mathlib.Data.List.Chain
import Mathlib.Tactic.Ring

/-!
# PythonOS.Turtle.Line

The lines of the turtle. A window without a host surface is drawn on pixel by pixel, with
an error term that is moved by both differences. The proof counts what is left to go in each
direction, `p` and `q`: the error is `b * p - a * q + a - b`, and `b * p - a * q` stays within
half of the larger difference.
-/

namespace PythonOS.Turtle

open List

/-- The fields of a window that `_line_op` reads. -/
structure Window where
  closed : Bool
  hostBacked : Bool
  handle : Int

/-- What `_line_op` asks for. -/
inductive Effect
  | surfaceLine (handle x0 y0 x1 y1 rgb : Int)
  | fillRect (x y w h color : Int)
  | dirty
  deriving DecidableEq, Repr

/-- The `while` loop: the pixels that are filled, if it ends within `fuel` rounds. -/
def lineLoop (x1 y1 dx dy sx sy : Int) : Nat → Int → Int → Int → Option (List (Int × Int))
  | 0, _, _, _ => none
  | fuel + 1, x0, y0, err =>
    if x0 = x1 ∧ y0 = y1 then some [(x0, y0)]
    else
      let e2 := 2 * err
      let x := if e2 ≥ dy then x0 + sx else x0
      let err := if e2 ≥ dy then err + dy else err
      let y := if e2 ≤ dx then y0 + sy else y0
      let err := if e2 ≤ dx then err + dx else err
      (lineLoop x1 y1 dx dy sx sy fuel x y err).map ((x0, y0) :: ·)

/-- `_line_op`. -/
def lineOp (win : Option Window) (x0 y0 x1 y1 color : Int) (fuel : Nat) : Option (List Effect) :=
  match win with
  | none => some []
  | some win =>
    if win.closed then some []
    else if win.hostBacked then
      -- `(color & 0xFFFFFF) | 0xFF000000`
      some [.surfaceLine win.handle x0 y0 x1 y1 (color % 0x1000000 + 0xFF000000), .dirty]
    else
      let dx := ((x1 - x0).natAbs : Int)
      let sx := if x0 < x1 then 1 else -1
      let dy := -((y1 - y0).natAbs : Int)
      let sy := if y0 < y1 then 1 else -1
      (lineLoop x1 y1 dx dy sx sy fuel x0 y0 (dx + dy)).map fun pixels =>
        pixels.map (fun p => .fillRect p.1 p.2 1 1 color) ++ [.dirty]

/-- The pixels of a line of `n` steps to `(x1, y1)` with `p` and `q` left to go at its start. -/
structure Drawn (x1 y1 a b sx sy p q : Int) (n : Nat) (pixels : List (Int × Int)) : Prop where
  length : pixels.length = n + 1
  head : pixels.head? = some (x1 - sx * p, y1 - sy * q)
  last : pixels.getLast? = some (x1, y1)
  nodup : pixels.Nodup
  chain : pixels.IsChain fun r r' => (r'.1 - r.1).natAbs ≤ 1 ∧ (r'.2 - r.2).natAbs ≤ 1
  near : ∀ r ∈ pixels, ∃ p q : Int, r = (x1 - sx * p, y1 - sy * q) ∧
    (b ≤ a → p ≤ n) ∧ (a ≤ b → q ≤ n) ∧ 2 * (b * p - a * q).natAbs ≤ max a b

/-- A multiple of `c` within half of `c` is zero. -/
theorem eq_zero_of_near {c z : Int} (hc : 0 < c) (h : 2 * (c * z).natAbs ≤ c) : z = 0 := by
  by_contra hz
  have hle : c.natAbs * 1 ≤ c.natAbs * z.natAbs := Nat.mul_le_mul_left _ (Int.natAbs_pos.mpr hz)
  rw [Int.natAbs_mul] at h
  omega

section

variable {x1 y1 a b sx sy p q : Int}

/-- One round of the loop away from the end. -/
theorem lineLoop_round (hne : ¬ (x1 - sx * p = x1 ∧ y1 - sy * q = y1)) {e p' q' : Int}
    (he : e = b * p - a * q + a - b) (hp : p' = if 2 * e ≥ -b then p - 1 else p)
    (hq : q' = if 2 * e ≤ a then q - 1 else q) (fuel : Nat) :
    lineLoop x1 y1 a (-b) sx sy (fuel + 1) (x1 - sx * p) (y1 - sy * q) e =
      (lineLoop x1 y1 a (-b) sx sy fuel (x1 - sx * p') (y1 - sy * q')
        (b * p' - a * q' + a - b)).map ((x1 - sx * p, y1 - sy * q) :: ·) := by
  rw [lineLoop, if_neg hne, hp, hq]
  dsimp only
  congr 2
  · split <;> ring
  · split <;> ring
  · rw [he]
    split <;> split <;> ring

variable (h : 2 * (b * p - a * q).natAbs ≤ max a b)

include h

/-- When the longer direction is done, so is the other one. -/
theorem left_eq_zero (ha : 0 ≤ a) (hb : 0 ≤ b) (hn : (b ≤ a → p = 0) ∧ (a ≤ b → q = 0)) :
    p = 0 ∧ q = 0 := by
  rcases Int.lt_trichotomy a b with hlt | heq | hlt
  · obtain rfl : q = 0 := hn.2 hlt.le
    rw [Int.mul_zero] at h
    exact ⟨eq_zero_of_near (c := b) (by omega) (by omega), rfl⟩
  · exact ⟨hn.1 heq.ge, hn.2 heq.le⟩
  · obtain rfl : p = 0 := hn.1 hlt.le
    rw [Int.mul_zero] at h
    exact ⟨rfl, eq_zero_of_near (c := a) (by omega) (by omega)⟩

/-- **The loop** draws the rest of a line from every place that is near enough. -/
theorem lineLoop_drawn (hsx : sx = 1 ∨ sx = -1) (hsy : sy = 1 ∨ sy = -1) (ha : 0 ≤ a) (hb : 0 ≤ b)
    {n : Nat} (hn : (b ≤ a → p = n) ∧ (a ≤ b → q = n)) :
    ∃ pixels, (∀ k, lineLoop x1 y1 a (-b) sx sy (n + 1 + k) (x1 - sx * p) (y1 - sy * q)
      (b * p - a * q + a - b) = some pixels) ∧ Drawn x1 y1 a b sx sy p q n pixels := by
  induction n generalizing p q with
  | zero =>
    obtain ⟨rfl, rfl⟩ := left_eq_zero h ha hb hn
    refine ⟨[(x1, y1)], fun k => ?_, rfl, by simp, rfl, by simp, .singleton _,
      fun r hr => ?_⟩
    · rw [Nat.add_right_comm, lineLoop, if_pos (by simp)]
      simp
    · exact ⟨0, 0, by simpa using hr, by simp, by simp, h⟩
  | succ n ih =>
    have hne : ¬ (x1 - sx * p = x1 ∧ y1 - sy * q = y1) := by
      rcases hsx with rfl | rfl <;> rcases hsy with rfl | rfl <;> omega
    obtain ⟨e, he⟩ : ∃ e, e = b * p - a * q + a - b := ⟨_, rfl⟩
    -- what is left after this round
    obtain ⟨p', hp⟩ : ∃ p', p' = if 2 * e ≥ -b then p - 1 else p := ⟨_, rfl⟩
    obtain ⟨q', hq⟩ : ∃ q', q' = if 2 * e ≤ a then q - 1 else q := ⟨_, rfl⟩
    have hbp : b * p' = if 2 * e ≥ -b then b * p - b else b * p := by
      rw [hp]
      split <;> ring
    have haq : a * q' = if 2 * e ≤ a then a * q - a else a * q := by
      rw [hq]
      split <;> ring
    obtain ⟨pixels, hrun, hd⟩ := ih (p := p') (q := q') (by omega) (by omega)
    refine ⟨(x1 - sx * p, y1 - sy * q) :: pixels, fun k => ?_, ?_, rfl, ?_, ?_, ?_, fun r hr => ?_⟩
    · rw [← he, Nat.add_right_comm _ 1, lineLoop_round hne he hp hq, hrun]
      rfl
    · rw [List.length_cons, hd.length]
    · rw [getLast?_cons, hd.last]
      rfl
    · refine nodup_cons.mpr ⟨fun hmem => ?_, hd.nodup⟩
      obtain ⟨p2, q2, heq, hp2, hq2, -⟩ := hd.near _ hmem
      obtain ⟨hx, hy⟩ := Prod.mk.inj heq
      rcases hsx with rfl | rfl <;> rcases hsy with rfl | rfl <;> omega
    · refine isChain_cons.mpr ⟨fun r hr => ?_, hd.chain⟩
      rw [hd.head] at hr
      cases hr
      rcases hsx with rfl | rfl <;> rcases hsy with rfl | rfl <;> omega
    · rcases mem_cons.mp hr with rfl | hr
      · exact ⟨p, q, rfl, by omega, by omega, h⟩
      · obtain ⟨p2, q2, heq, hp2, hq2, hnear⟩ := hd.near r hr
        exact ⟨p2, q2, heq, by omega, by omega, hnear⟩

end

/-- **A line on a window without a host surface**, for all ends: the loop ends, the pixels are as
many as the larger difference and one more, from the one end to the other, neighbours are next to
each other, and each is at most half a pixel off the line along the shorter direction. -/
theorem line_pixels (handle x0 y0 x1 y1 color : Int) : ∃ pixels : List (Int × Int),
    (∀ k, lineOp (some ⟨false, false, handle⟩) x0 y0 x1 y1 color
      (max (x1 - x0).natAbs (y1 - y0).natAbs + 1 + k) =
        some (pixels.map (fun p => .fillRect p.1 p.2 1 1 color) ++ [.dirty])) ∧
    pixels.length = max (x1 - x0).natAbs (y1 - y0).natAbs + 1 ∧ pixels.Nodup ∧
    pixels.head? = some (x0, y0) ∧ pixels.getLast? = some (x1, y1) ∧
    (pixels.IsChain fun p p' => (p'.1 - p.1).natAbs ≤ 1 ∧ (p'.2 - p.2).natAbs ≤ 1) ∧
    ∀ p ∈ pixels, 2 * ((p.2 - y0) * (x1 - x0) - (y1 - y0) * (p.1 - x0)).natAbs ≤
      max (x1 - x0).natAbs (y1 - y0).natAbs := by
  obtain ⟨sx, hsx⟩ : ∃ sx : Int, sx = if x0 < x1 then 1 else -1 := ⟨_, rfl⟩
  obtain ⟨sy, hsy⟩ : ∃ sy : Int, sy = if y0 < y1 then 1 else -1 := ⟨_, rfl⟩
  obtain ⟨a, ha⟩ : ∃ a : Nat, a = (x1 - x0).natAbs := ⟨_, rfl⟩
  obtain ⟨b, hb⟩ : ∃ b : Nat, b = (y1 - y0).natAbs := ⟨_, rfl⟩
  have hx : x1 - x0 = sx * a := by
    rw [hsx]
    split <;> omega
  have hy : y1 - y0 = sy * b := by
    rw [hsy]
    split <;> omega
  have hzero : (b * a - a * b : Int) = 0 := by ring
  obtain ⟨pixels, hrun, hd⟩ := @lineLoop_drawn x1 y1 a b sx sy a b (by rw [hzero]; omega)
    (by omega) (by omega) (by omega) (by omega) (max a b) (by omega)
  rw [hzero, Int.zero_add, ← hx, ← hy, sub_sub_cancel, sub_sub_cancel] at hrun
  have hhead := hd.head
  rw [← hx, ← hy, sub_sub_cancel, sub_sub_cancel] at hhead
  rw [← ha, ← hb]
  refine ⟨pixels, fun k => ?_, hd.length, hd.nodup, hhead, hd.last, hd.chain, fun r hr => ?_⟩
  · simp only [lineOp, ← ha, ← hb, ← hsx, ← hsy, Bool.false_eq_true, if_false, ← Int.sub_eq_add_neg,
      hrun, Option.map_some]
  · obtain ⟨p, q, rfl, -, -, hnear⟩ := hd.near r hr
    have hoff : (y1 - sy * q - y0) * (x1 - x0) - (y1 - y0) * (x1 - sx * p - x0) =
        sx * sy * (b * p - a * q) := by
      rw [sub_right_comm, hy, sub_right_comm, hx]
      ring
    have hsign : (sx * sy * (b * p - a * q)).natAbs = (b * p - a * q).natAbs := by
      rw [hsx, hsy]
      split <;> split <;> omega
    rw [hoff, hsign]
    omega

end PythonOS.Turtle
