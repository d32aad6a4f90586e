import Mathlib.Data.List.Induction
import Mathlib.Logic.Function.Basic
import PythonOS.Lib.Runs

/-!
# PythonOS.Display.Console

The text console on the framebuffer. `write` keeps the screen and the buffer of lines side by side:
it draws each character and edits the line, and redraws everything only when it scrolls.

A backspace blanks the cell before the cursor but takes the *last* character off the line, so the
two agree as long as backspaces come at the end of a line (`AtEnd`).
-/

namespace PythonOS.Display

open Lib List Function

/-- The cells by row and column. One filled with the background looks like a space. -/
abbrev Screen := Nat × Nat → Char

structure Console where
  cols : Nat
  rows : Nat
  cx : Nat := 0
  cy : Nat := 0
  lines : List (List Char)
  screen : Screen := fun _ => ' '

namespace Console

/-- `__init__`: the margin is four pixels, a glyph eight by eight. -/
def init (width height : Nat) : Console where
  cols := (width - 8) / 8
  rows := (height - 8) / 8
  lines := replicate ((height - 8) / 8) []

/-- `_redraw` fills the screen and draws every line. -/
def redraw (c : Console) : Console :=
  let drawLine (s : Screen) (line : List Char × Nat) : Screen :=
    line.1.zipIdx.foldl (fun s ch => update s (line.2, ch.2) ch.1) s
  { c with screen := c.lines.zipIdx.foldl drawLine fun _ => ' ' }

def scroll (c : Console) : Console := redraw { c with lines := c.lines.drop 1 ++ [[]] }

def newline (c : Console) : Console :=
  let c := { c with cx := 0, cy := c.cy + 1 }
  if c.rows ≤ c.cy then { c.scroll with cy := c.rows - 1 } else c

/-- One character of `write`; `none` is an `IndexError`. -/
def put (c : Console) (ch : Char) : Option Console := do
  if ch = '\n' then return c.newline
  else if ch = '\r' then return { c with cx := 0 }
  else if ch = '\x08' then
    if 0 < c.cx then
      let line ← c.lines[c.cy]?
      return { c with
        cx := c.cx - 1
        screen := update c.screen (c.cy, c.cx - 1) ' '
        lines := c.lines.set c.cy line.dropLast }
    else return c
  else
    let line ← c.lines[c.cy]?
    let c := { c with
      cx := c.cx + 1
      screen := update c.screen (c.cy, c.cx) ch
      lines := c.lines.set c.cy (if c.cx < line.length
        then line.take c.cx ++ ch :: line.drop (c.cx + 1) else line ++ [ch]) }
    return if c.cols ≤ c.cx then c.newline else c

/-- The cursor is inside, no line is too long, and the screen shows the lines. -/
structure Consistent (c : Console) : Prop where
  cx_lt : c.cx < c.cols
  cy_lt : c.cy < c.rows
  lines_le : ∀ line ∈ c.lines, line.length ≤ c.cols
  screen_eq : c.screen = c.redraw.screen

/-- A backspace is typed at the end of a line. -/
def AtEnd (c : Console) (ch : Char) : Prop :=
  ch = '\x08' → 0 < c.cx → c.lines[c.cy]?.map length = some c.cx

instance (c : Console) (ch : Char) : Decidable (c.AtEnd ch) :=
  inferInstanceAs (Decidable (_ → _ → _))

/-! ### Cells -/

def cells (lines : List (List Char)) : Screen := fun p => ((lines[p.1]?.getD [])[p.2]?).getD ' '

theorem getElem?_concat {α : Type} (l : List α) (a : α) (i : Nat) :
    (l ++ [a])[i]? = if i = l.length then some a else l[i]? := by
  rw [getElem?_append]
  grind

theorem drawLine_eq (cs : List Char) (s : Screen) (row : Nat) (p : Nat × Nat) :
    cs.zipIdx.foldl (fun s ch => update s (row, ch.2) ch.1) s p =
      if p.1 = row then cs[p.2]?.getD (s p) else s p := by
  induction cs using reverseRecOn with
  | nil => simp
  | append_singleton cs ch ih =>
    simp only [zipIdx_append, foldl_append, zipIdx_cons, zipIdx_nil, foldl_cons, foldl_nil,
      Nat.zero_add, update_apply, ih, getElem?_concat, Prod.ext_iff]
    by_cases hx : p.2 = cs.length <;> simp [hx]

theorem screen_redraw (c : Console) : c.redraw.screen = cells c.lines := by
  funext p
  simp only [redraw, cells]
  induction c.lines using reverseRecOn with
  | nil => rfl
  | append_singleton lines line ih =>
    simp only [zipIdx_append, foldl_append, zipIdx_cons, zipIdx_nil, foldl_cons, foldl_nil,
      Nat.zero_add, drawLine_eq, ih, getElem?_concat]
    by_cases hrow : p.1 = lines.length <;> simp [hrow]

/-! ### Writing -/

/-- The screen shows the lines, none of which is too long, and the cursor is in one or at its
end. -/
structure Inv (c : Console) : Prop where
  length_lines : c.lines.length = c.rows
  cy_lt : c.cy < c.rows
  cx_le : ∀ line ∈ c.lines[c.cy]?, c.cx ≤ line.length
  lines_le : ∀ line ∈ c.lines, line.length ≤ c.cols
  screen_eq : c.screen = cells c.lines

variable {c : Console}

theorem Inv.newline (h : Inv c) (hcols : 0 < c.cols) :
    Inv c.newline ∧ c.newline.cx < c.newline.cols := by
  have hcy := h.cy_lt
  have hlen := h.length_lines
  simp only [Console.newline]
  split
  · refine ⟨⟨?_, ?_, fun _ _ => Nat.zero_le _, fun line hline => ?_, screen_redraw _⟩, hcols⟩
    · simp [scroll, redraw]
      omega
    · exact Nat.sub_one_lt_of_lt hcy
    · rcases mem_append.mp hline with hline | hline
      · exact h.lines_le line (mem_of_mem_drop hline)
      · simp_all
  · next hrow =>
    exact ⟨⟨hlen, Nat.lt_of_not_le hrow, fun _ _ => Nat.zero_le _, h.lines_le, h.screen_eq⟩, hcols⟩

/-- The line of the cursor and the screen get another character at `x`. -/
theorem Inv.edit (h : Inv c) {old l : List Char} {x k : Nat} {a : Char}
    (hline : c.lines[c.cy]? = some old) (hlen : l.length ≤ c.cols) (hk : k ≤ l.length)
    (hcell : ∀ y, l[y]?.getD ' ' = if y = x then a else old[y]?.getD ' ') :
    Inv { c with
      cx := k
      screen := update c.screen (c.cy, x) a
      lines := c.lines.set c.cy l } := by
  obtain ⟨hlt, rfl⟩ := List.getElem?_eq_some_iff.mp hline
  refine ⟨by simp [h.length_lines], h.cy_lt, fun l' hl => ?_, fun l' hl => ?_, funext fun p => ?_⟩
  · simp [hlt] at hl
    rwa [← hl]
  · rcases mem_or_eq_of_mem_set hl with hl | rfl
    · exact h.lines_le l' hl
    · exact hlen
  · simp only [h.screen_eq, cells, update_apply, getElem?_set, Prod.ext_iff]
    by_cases hrow : p.1 = c.cy
    · simp [hrow, hlt, hcell]
    · simp [hrow, Ne.symm hrow]

/-- **One character** is written without an exception, and the screen still shows the lines. -/
theorem Inv.put (h : Inv c) (hcx : c.cx < c.cols) {ch : Char} (hend : c.AtEnd ch) :
    ∃ c', c.put ch = some c' ∧ Inv c' ∧ c'.cx < c'.cols := by
  have hcols := Nat.zero_lt_of_lt hcx
  obtain ⟨line, hline⟩ : ∃ line, c.lines[c.cy]? = some line :=
    ⟨_, getElem?_eq_getElem (h.length_lines ▸ h.cy_lt)⟩
  have hle := h.cx_le line hline
  have hlen := h.lines_le line (mem_of_getElem? hline)
  simp only [Console.put, hline]
  split
  · exact ⟨_, rfl, h.newline hcols⟩
  split
  · exact ⟨_, rfl, ⟨h.length_lines, h.cy_lt, fun _ _ => Nat.zero_le _, h.lines_le, h.screen_eq⟩,
      hcols⟩
  split
  · next hch =>
    split
    · next hpos =>
      have heq := hend hch hpos
      rw [hline] at heq
      have heq : line.length = c.cx := Option.some.inj heq
      have hdrop : line.dropLast.length = c.cx - 1 := by simp [heq]
      refine ⟨_, rfl, h.edit hline (by omega) (by omega) fun x => ?_,
        Nat.lt_of_le_of_lt (Nat.sub_le _ _) hcx⟩
      rw [getElem?_dropLast]
      grind
    · exact ⟨_, rfl, h, hcx⟩
  · -- appending is overwriting at the end
    have hput : (if c.cx < line.length then line.take c.cx ++ ch :: line.drop (c.cx + 1)
        else line ++ [ch]) = line.take c.cx ++ ch :: line.drop (c.cx + 1) := by
      split
      · rfl
      · rw [take_of_length_le (by omega), drop_of_length_le (by omega)]
    have hedit := h.edit (x := c.cx) (k := c.cx + 1) (a := ch)
      (l := line.take c.cx ++ ch :: line.drop (c.cx + 1)) hline (by simp; omega) (by simp; omega)
      (by grind)
    refine ⟨_, rfl, ?_⟩
    rw [hput]
    split
    · exact hedit.newline hcols
    · next hlt => exact ⟨hedit, Nat.lt_of_not_le hlt⟩

theorem inv_init {width height : Nat} (hheight : 16 ≤ height) : Inv (init width height) := by
  refine ⟨length_replicate, Nat.div_pos (by omega) (by decide), fun _ _ => Nat.zero_le _,
    fun line hline => ?_, funext fun p => ?_⟩
  · simp [eq_of_mem_replicate hline]
  · simp only [cells, init, getElem?_replicate]
    split <;> rfl

/-- **Whatever is written**, if backspaces come at the end of a line and there is room for one
character, the screen is what a redraw would show. -/
theorem write_consistent {width height : Nat} (hwidth : 16 ≤ width) (hheight : 16 ≤ height)
    {text : List Char} (h : Guarded put AtEnd (init width height) text) :
    ∃ c, exec put (init width height) text = some c ∧ c.Consistent := by
  have hrun : ∀ {c : Console}, Inv c → c.cx < c.cols → Guarded put AtEnd c text →
      ∃ c', exec put c text = some c' ∧ Inv c' ∧ c'.cx < c'.cols := by
    clear h
    induction text with
    | nil => exact fun hi hcx _ => ⟨_, rfl, hi, hcx⟩
    | cons ch text ih =>
      intro c hi hcx hg
      obtain ⟨c₁, hput, hi₁, hcx₁⟩ := hi.put hcx hg.1
      rw [exec_cons, hput]
      exact ih hi₁ hcx₁ (hg.2 c₁ hput)
  obtain ⟨c, hexec, hi, hcx⟩ := hrun (inv_init hheight) (Nat.div_pos (by omega) (by decide)) h
  exact ⟨c, hexec, hcx, hi.cy_lt, hi.lines_le, by rw [hi.screen_eq, screen_redraw]⟩

theorem write_consistent_erased :
    ∃ c, exec put (init 640 480) "ab\x08\rc\nd".toList = some c ∧ c.Consistent :=
  write_consistent (by decide) (by decide)
    (.of_guardedBy (fun _ _ h => of_decide_eq_true h) (by decide +kernel))

/-- **A backspace after a carriage return**: the first cell is blank, but a redraw would show what
was in it. -/
theorem backspace_after_return :
    ∃ c, exec put (init 32 24) "ab\rx\x08".toList = some c ∧ ¬ c.Consistent := by
  refine ⟨_, rfl, fun h => ?_⟩
  have hcell := congrFun (h.screen_eq.trans (screen_redraw _)) (0, 0)
  revert hcell
  decide +kernel

end Console

end PythonOS.Display
