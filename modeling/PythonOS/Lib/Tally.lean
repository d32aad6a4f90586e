import Mathlib.Data.Set.Card

/-!
# PythonOS.Lib.Tally

Counters: `f` has for every group the number of things of that group with a property.
-/

namespace PythonOS.Lib

open Function

/-- `f` counts what has the property `p`, group by group. -/
structure Tally {α γ : Type} (group : α → γ) (p : α → Prop) (f : γ → Int) : Prop where
  finite : { x | p x }.Finite
  count : ∀ g, f g = { x | p x ∧ group x = g }.ncard

namespace Tally

variable {α γ : Type} {group : α → γ} {p q : α → Prop} {f f' : γ → Int} {a : α}

/-- The groups of things with other groups are as they were. -/
theorem group_congr (hpq : ∀ x, x ≠ a → (q x ↔ p x)) {g : γ} (hg : g ≠ group a) :
    { x | q x ∧ group x = g } = { x | p x ∧ group x = g } := by
  refine Set.ext fun x => ?_
  by_cases hx : x = a
  · subst hx
    exact ⟨fun hc => absurd hc.2.symm hg, fun hc => absurd hc.2.symm hg⟩
  · exact and_congr_left fun _ => hpq x hx

variable (h : Tally group p f)

include h

theorem congr (hq : ∀ x, q x ↔ p x) (hf : ∀ g, f' g = f g) :
    Tally group q f' := by
  obtain rfl : q = p := funext fun x => propext (hq x)
  obtain rfl : f' = f := funext hf
  exact h

theorem finite_group (g : γ) : { x | p x ∧ group x = g }.Finite :=
  h.finite.subset fun _ hx => hx.1

theorem pos (ha : p a) : 0 < f (group a) := by
  have := (Set.ncard_pos (h.finite_group (group a))).mpr ⟨a, ha, rfl⟩
  rw [h.count]
  omega

/-- A counter is 0 exactly if its group has nothing. -/
theorem eq_zero_iff (g : γ) : f g = 0 ↔ ∀ x, p x → group x ≠ g := by
  constructor
  · rintro hz x hx rfl
    exact absurd (h.pos hx) (by omega)
  · intro hnone
    rw [h.count, Nat.cast_eq_zero, Set.ncard_eq_zero (h.finite_group g)]
    exact Set.eq_empty_of_forall_notMem fun x hx => hnone x hx.1 hx.2

variable [DecidableEq γ]

/-- One thing less. -/
theorem drop (ha : p a) (hq : ∀ x, q x ↔ p x ∧ x ≠ a)
    (hf : f' = update f (group a) (f (group a) - 1)) : Tally group q f' := by
  refine ⟨h.finite.subset fun x hx => ((hq x).mp hx).1, fun g => ?_⟩
  subst hf
  by_cases hg : g = group a
  · subst hg
    have hset : { x | q x ∧ group x = group a } = { x | p x ∧ group x = group a } \ {a} := by
      refine Set.ext fun x => ?_
      exact ⟨fun hx => ⟨⟨((hq x).mp hx.1).1, hx.2⟩, ((hq x).mp hx.1).2⟩,
        fun hx => ⟨(hq x).mpr ⟨hx.1.1, hx.2⟩, hx.1.2⟩⟩
    have hmem : a ∈ { x | p x ∧ group x = group a } := ⟨ha, rfl⟩
    have hpos := (Set.ncard_pos (h.finite_group (group a))).mpr ⟨a, hmem⟩
    rw [update_self, hset, Set.ncard_sdiff_singleton_of_mem hmem, h.count]
    omega
  · have hset := group_congr (fun x hx => (hq x).trans (and_iff_left hx)) hg
    rw [update_of_ne hg, h.count, hset]

/-- One thing more. -/
theorem put (ha : ¬ p a) (hq : ∀ x, q x ↔ p x ∨ x = a)
    (hf : f' = update f (group a) (f (group a) + 1)) : Tally group q f' := by
  refine ⟨(h.finite.insert a).subset fun x hx => ((hq x).mp hx).symm, fun g => ?_⟩
  subst hf
  by_cases hg : g = group a
  · subst hg
    have hset : { x | q x ∧ group x = group a } = insert a { x | p x ∧ group x = group a } := by
      refine Set.ext fun x => ⟨fun hx => ?_, ?_⟩
      · exact ((hq x).mp hx.1).symm.imp_right fun hp => ⟨hp, hx.2⟩
      · rintro (rfl | hx)
        · exact ⟨(hq x).mpr (.inr rfl), rfl⟩
        · exact ⟨(hq x).mpr (.inl hx.1), hx.2⟩
    rw [update_self, hset,
      Set.ncard_insert_of_notMem (fun hc => ha hc.1) (h.finite_group _), h.count]
    omega
  · have hset := group_congr (fun x hx => (hq x).trans (or_iff_left hx)) hg
    rw [update_of_ne hg, h.count, hset]

end Tally

end PythonOS.Lib
