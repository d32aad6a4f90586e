import Mathlib.Data.List.DropRight

/-!
# PythonOS.Lib.Paths

Slash-separated paths: stripping, splitting, and the parts of a path. A text is
the list of its characters, as a Python `str` is a sequence of code points.
-/

namespace PythonOS.Lib

open List

abbrev Text := List Char

namespace Paths

/-- `s.rstrip("/")`. -/
def rstrip (s : Text) : Text := s.rdropWhile (· = '/')

/-- `s.strip("/")`. -/
def strip (s : Text) : Text := rstrip (s.dropWhile (· = '/'))

/-- `[p for p in s.split("/") if p]`. -/
def parts (s : Text) : List Text := (s.splitOn '/').filter (· ≠ [])

/-- The parts of a path other than `.`: what the path means. -/
def components (s : Text) : List Text := (parts s).filter (· ≠ ['.'])

/-! ### Parts -/

@[simp] theorem parts_nil : parts [] = [] := rfl

theorem parts_append_slash (s t : Text) : parts (s ++ '/' :: t) = parts s ++ parts t := by
  unfold parts
  rw [splitOn_append_cons_self, filter_append]

@[simp] theorem parts_slash (t : Text) : parts ('/' :: t) = parts t := by
  have h := parts_append_slash [] t
  simpa using h

theorem parts_snoc_slash (s : Text) : parts (s ++ ['/']) = parts s := by
  rw [parts_append_slash, parts_nil, append_nil]

/-- A text without a slash is its own part. -/
theorem parts_of_not_mem {s : Text} (hs : '/' ∉ s) (hne : s ≠ []) : parts s = [s] := by
  unfold parts
  rw [splitOn_eq_singleton hs]
  simp [hne]

theorem parts_rstrip (s : Text) : parts (rstrip s) = parts s := by
  induction s using reverseRecOn with
  | nil => rfl
  | append_singleton s c ih =>
    unfold rstrip
    by_cases hc : c = '/'
    · subst hc
      rw [rdropWhile_concat_pos _ _ _ (by decide), parts_snoc_slash]
      exact ih
    · rw [rdropWhile_concat_neg _ _ _ (by simpa using hc)]

theorem parts_dropWhile (s : Text) : parts (s.dropWhile (· = '/')) = parts s := by
  induction s with
  | nil => rfl
  | cons c s ih =>
    by_cases hc : c = '/'
    · subst hc
      rw [dropWhile_cons_of_pos (by decide), parts_slash]
      exact ih
    · rw [dropWhile_cons_of_neg (by simpa using hc)]

theorem parts_strip (s : Text) : parts (strip s) = parts s := by
  unfold strip
  rw [parts_rstrip, parts_dropWhile]

theorem not_mem_of_mem_splitOn {s p : Text} (h : p ∈ s.splitOn '/') : '/' ∉ p := by
  induction s generalizing p with
  | nil =>
    rw [splitOn_nil, mem_singleton] at h
    subst h
    exact not_mem_nil
  | cons c s ih =>
    rw [splitOn_cons_eq_if_modifyHead] at h
    split at h
    · rcases mem_cons.1 h with rfl | h
      · exact not_mem_nil
      · exact ih h
    · next hc =>
      cases hs : s.splitOn '/' with
      | nil =>
        rw [hs] at h
        exact absurd h not_mem_nil
      | cons q qs =>
        rw [hs] at h ih
        rcases mem_cons.1 h with rfl | h
        · have hq := ih mem_cons_self
          have hne : c ≠ '/' := by simpa using hc
          simpa [hq] using hne.symm
        · exact ih (mem_cons_of_mem _ h)

theorem of_mem_parts {s p : Text} (h : p ∈ parts s) : '/' ∉ p ∧ p ≠ [] := by
  obtain ⟨hmem, hne⟩ := mem_filter.1 h
  exact ⟨not_mem_of_mem_splitOn hmem, by simpa using hne⟩

/-! ### Components -/

theorem components_append_slash (s t : Text) :
    components (s ++ '/' :: t) = components s ++ components t := by
  unfold components
  rw [parts_append_slash, filter_append]

theorem components_slash (t : Text) : components ('/' :: t) = components t := by
  unfold components
  rw [parts_slash]

theorem mem_components {s p : Text} : p ∈ components s ↔ p ∈ parts s ∧ p ≠ ['.'] := by
  simp [components]

theorem components_of_not_mem {s : Text} (hs : '/' ∉ s) (hne : s ≠ []) (hdot : s ≠ ['.']) :
    components s = [s] := by
  unfold components
  rw [parts_of_not_mem hs hne]
  simp [hdot]

theorem components_strip (s : Text) : components (strip s) = components s := by
  unfold components
  rw [parts_strip]

end Paths

end PythonOS.Lib
