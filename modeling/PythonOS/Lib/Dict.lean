import Mathlib.Data.List.Nodup
import Mathlib.Data.List.Perm.Basic

/-!
# PythonOS.Lib.Dict

Insertion-ordered dictionaries, as Python's `dict`: assigning to a key that is
present keeps its position, a new key goes to the end. A dictionary is a list
of pairs; `Dict.Wf` (no key twice) is what every operation keeps.
-/

namespace PythonOS.Lib

open List

/-- An insertion-ordered dictionary. -/
abbrev Dict (κ ν : Type*) := List (κ × ν)

namespace Dict

variable {κ ν : Type*} [DecidableEq κ]

/-- `d.get(k)`. -/
def get? (d : Dict κ ν) (k : κ) : Option ν :=
  match d with
  | [] => none
  | (k', v) :: rest => if k' = k then some v else get? rest k

/-- `k in d`. -/
def contains (d : Dict κ ν) (k : κ) : Bool := (get? d k).isSome

/-- `d[k] = v`. -/
def set (d : Dict κ ν) (k : κ) (v : ν) : Dict κ ν :=
  match d with
  | [] => [(k, v)]
  | (k', v') :: rest => if k' = k then (k', v) :: rest else (k', v') :: set rest k v

/-- `d.pop(k, None)`, also `del d[k]` when the key is present. -/
def erase (d : Dict κ ν) (k : κ) : Dict κ ν :=
  match d with
  | [] => []
  | (k', v') :: rest => if k' = k then rest else (k', v') :: erase rest k

/-- `list(d)`. -/
def keys (d : Dict κ ν) : List κ := map Prod.fst d

/-- `list(d.values())`. -/
def values (d : Dict κ ν) : List ν := map Prod.snd d

/-- No key stands twice. -/
def Wf (d : Dict κ ν) : Prop := (keys d).Nodup

@[simp] theorem get?_nil (k : κ) : get? ([] : Dict κ ν) k = none := rfl

theorem get?_cons (k k' : κ) (v : ν) (d : Dict κ ν) :
    get? ((k', v) :: d) k = if k' = k then some v else get? d k := rfl

@[simp] theorem get?_set_self (d : Dict κ ν) (k : κ) (v : ν) : get? (set d k v) k = some v := by
  induction d with
  | nil => simp [set, get?]
  | cons p d ih =>
    obtain ⟨k', v'⟩ := p
    by_cases h : k' = k
    · simp [set, get?, h]
    · simp [set, get?, h, ih]

theorem get?_set_of_ne (d : Dict κ ν) {k j : κ} (v : ν) (h : j ≠ k) :
    get? (set d k v) j = get? d j := by
  induction d with
  | nil => simp [set, get?, Ne.symm h]
  | cons p d ih =>
    obtain ⟨k', v'⟩ := p
    by_cases hk : k' = k
    · subst hk
      simp [set, get?, Ne.symm h]
    · by_cases hj : k' = j
      · subst hj
        simp [set, get?, hk]
      · simp [set, get?, hk, hj, ih]

theorem get?_set (d : Dict κ ν) (k j : κ) (v : ν) :
    get? (set d k v) j = if j = k then some v else get? d j := by
  by_cases h : j = k
  · subst h; simp
  · simp [h, get?_set_of_ne d v h]

theorem get?_erase_of_ne (d : Dict κ ν) {k j : κ} (h : j ≠ k) : get? (erase d k) j = get? d j := by
  induction d with
  | nil => rfl
  | cons p d ih =>
    obtain ⟨k', v'⟩ := p
    by_cases hk : k' = k
    · subst hk
      simp [erase, get?, Ne.symm h]
    · by_cases hj : k' = j
      · subst hj
        simp [erase, get?, hk]
      · simp [erase, get?, hk, hj, ih]

variable {d : Dict κ ν} {k : κ}

/-- A key outside the key list reads `none`. -/
theorem get?_eq_none_iff : get? d k = none ↔ k ∉ keys d := by
  induction d with
  | nil => simp [keys]
  | cons p d ih =>
    obtain ⟨k', v'⟩ := p
    by_cases hk : k' = k
    · subst hk; simp [get?, keys]
    · simp only [get?, if_neg hk, ih, keys, map_cons, mem_cons, not_or]
      exact ⟨fun h => ⟨fun e => hk e.symm, h⟩, fun h => h.2⟩

theorem mem_of_get? {v : ν} (h : get? d k = some v) : (k, v) ∈ d := by
  induction d with
  | nil => simp at h
  | cons p d ih =>
    obtain ⟨k', v'⟩ := p
    by_cases hk : k' = k
    · subst hk
      obtain rfl : v' = v := by simpa [get?] using h
      exact mem_cons_self ..
    · rw [get?_cons, if_neg hk] at h
      exact mem_cons_of_mem _ (ih h)

/-- In a well-formed dictionary membership is lookup. -/
theorem get?_of_mem (hwf : Wf d) {v : ν} (h : (k, v) ∈ d) : get? d k = some v := by
  induction d with
  | nil => simp at h
  | cons p d ih =>
    obtain ⟨k', v'⟩ := p
    obtain ⟨hnot, hnd⟩ := nodup_cons.mp hwf
    rcases mem_cons.mp h with he | hm
    · obtain ⟨rfl, rfl⟩ := Prod.mk.inj he
      simp [get?]
    · have hne : k' ≠ k := by
        rintro rfl
        exact hnot (mem_map.mpr ⟨(k', v), hm, rfl⟩)
      rw [get?_cons, if_neg hne]
      exact ih hnd hm

/-- What stands in `set d k v` is the new pair or an old one under another key. -/
theorem mem_set {v : ν} {p : κ × ν} (h : p ∈ set d k v) : p = (k, v) ∨ p ∈ d := by
  induction d with
  | nil => simpa [set] using h
  | cons q d ih =>
    obtain ⟨k', v'⟩ := q
    by_cases hk : k' = k
    · subst hk
      simp only [set, if_pos] at h
      rcases mem_cons.mp h with h | h
      · exact .inl h
      · exact .inr (mem_cons_of_mem _ h)
    · simp only [set, if_neg hk] at h
      rcases mem_cons.mp h with h | h
      · exact .inr (h ▸ mem_cons_self ..)
      · rcases ih h with h | h
        · exact .inl h
        · exact .inr (mem_cons_of_mem _ h)

theorem mem_erase {p : κ × ν} (h : p ∈ erase d k) : p ∈ d := by
  induction d with
  | nil => simp [erase] at h
  | cons q d ih =>
    obtain ⟨k', v'⟩ := q
    by_cases hk : k' = k
    · subst hk
      simp only [erase, if_pos] at h
      exact mem_cons_of_mem _ h
    · simp only [erase, if_neg hk] at h
      rcases mem_cons.mp h with h | h
      · exact h ▸ mem_cons_self ..
      · exact mem_cons_of_mem _ (ih h)

theorem keys_set_of_mem (v : ν) (h : k ∈ keys d) : keys (set d k v) = keys d := by
  induction d with
  | nil => simp [keys] at h
  | cons q d ih =>
    obtain ⟨k', v'⟩ := q
    by_cases hk : k' = k
    · simp [set, hk, keys]
    · have hmem : k ∈ keys d := by
        simpa [keys, Ne.symm hk] using h
      simpa [set, hk, keys] using ih hmem

theorem keys_set_of_not_mem (v : ν) (h : k ∉ keys d) : keys (set d k v) = keys d ++ [k] := by
  induction d with
  | nil => simp [set, keys]
  | cons q d ih =>
    obtain ⟨k', v'⟩ := q
    simp only [keys, map_cons, mem_cons, not_or] at h
    have hk : k' ≠ k := fun e => h.1 e.symm
    simpa [set, hk, keys] using ih h.2

theorem keys_erase_sublist (d : Dict κ ν) (k : κ) : (keys (erase d k)).Sublist (keys d) := by
  induction d with
  | nil => simp [erase, keys]
  | cons q d ih =>
    obtain ⟨k', v'⟩ := q
    by_cases hk : k' = k
    · simp [erase, hk, keys]
    · simpa [erase, hk, keys] using ih

/-- A key that is taken out is gone. -/
theorem get?_erase_self (hwf : Wf d) (k : κ) : get? (erase d k) k = none := by
  induction d with
  | nil => rfl
  | cons q d ih =>
    obtain ⟨k', v'⟩ := q
    obtain ⟨hnot, hnd⟩ := nodup_cons.mp hwf
    by_cases hk : k' = k
    · subst hk
      rw [erase, if_pos rfl]
      exact get?_eq_none_iff.mpr hnot
    · rw [erase, if_neg hk, get?_cons, if_neg hk]
      exact ih hnd

/-- What is still found after a key is taken out. -/
theorem get?_erase_eq_some (hwf : Wf d) {j : κ} {v : ν} :
    get? (erase d k) j = some v ↔ j ≠ k ∧ get? d j = some v := by
  by_cases hj : j = k
  · subst hj
    simp [get?_erase_self hwf]
  · simp [get?_erase_of_ne _ hj, hj]

theorem erase_of_not_mem (h : k ∉ keys d) : erase d k = d := by
  induction d with
  | nil => rfl
  | cons q d ih =>
    simp only [keys, map_cons, mem_cons, not_or] at h
    rw [erase, if_neg (Ne.symm h.1), ih h.2]

theorem mem_keys_of_get? {v : ν} (h : get? d k = some v) : k ∈ keys d :=
  mem_map.mpr ⟨(k, v), mem_of_get? h, rfl⟩

/-- The values with one of them in front. -/
theorem values_perm_erase {v : ν} (h : get? d k = some v) :
    (values d).Perm (v :: values (erase d k)) := by
  induction d with
  | nil => cases h
  | cons q d ih =>
    obtain ⟨k', v'⟩ := q
    by_cases hk : k' = k
    · rw [get?_cons, if_pos hk] at h
      cases h
      rw [erase, if_pos hk]
      exact List.Perm.refl _
    · rw [get?_cons, if_neg hk] at h
      rw [erase, if_neg hk]
      exact ((ih h).cons v').trans (List.Perm.swap v v' _)

theorem values_set_perm (d : Dict κ ν) (k : κ) (v : ν) :
    (values (set d k v)).Perm (v :: values (erase d k)) := by
  induction d with
  | nil => exact List.Perm.refl _
  | cons q d ih =>
    obtain ⟨k', v'⟩ := q
    by_cases hk : k' = k
    · rw [set, if_pos hk, erase, if_pos hk]
      exact List.Perm.refl _
    · rw [set, if_neg hk, erase, if_neg hk]
      exact (ih.cons v').trans (List.Perm.swap v v' _)

omit [DecidableEq κ] in
theorem wf_nil : Wf ([] : Dict κ ν) := nodup_nil

theorem Wf.set (h : Wf d) (k : κ) (v : ν) : Wf (d.set k v) := by
  unfold Wf
  by_cases hk : k ∈ keys d
  · rw [keys_set_of_mem v hk]
    exact h
  · rw [keys_set_of_not_mem v hk]
    exact nodup_append.mpr ⟨h, by simp, by
      intro a ha b hb
      obtain rfl := mem_singleton.mp hb
      exact fun e => hk (e ▸ ha)⟩

theorem Wf.erase (h : Wf d) (k : κ) : Wf (d.erase k) :=
  h.sublist (keys_erase_sublist d k)

end Dict

end PythonOS.Lib
