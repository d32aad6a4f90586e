import Mathlib.Data.List.Basic

/-!
# PythonOS.Lib.Runs

Runs of a **partial step function**: `step s a` is the state an action `a`
leads to, or `none` when `a` is not possible in `s`. Every state machine of
this development is of that shape, so the two induction rules are proved here
once.

* `exec step s as` runs a list of actions from left to right;
* `Guarded step cond s as` says that every action of the run meets `cond` in
  the state it is taken from;
* `exec_invariant` / `guarded_invariant` lift a one-step fact to a whole run.
-/

namespace PythonOS.Lib

open List Option

variable {σ α : Type*}

/-- Run a list of actions, stopping at the first one that is not possible. -/
def exec (step : σ → α → Option σ) : σ → List α → Option σ
  | s, [] => some s
  | s, a :: as => (step s a).bind fun s' => exec step s' as

@[simp] theorem exec_nil (step : σ → α → Option σ) (s : σ) : exec step s [] = some s := rfl

theorem exec_cons (step : σ → α → Option σ) (s : σ) (a : α) (as : List α) :
    exec step s (a :: as) = (step s a).bind fun s' => exec step s' as := rfl

variable {step : σ → α → Option σ}

/-- Invert a run of `a :: as`: the first step succeeds and the rest runs on. -/
theorem exec_cons_eq_some {s t : σ} {a : α} {as : List α} :
    exec step s (a :: as) = some t ↔ ∃ s', step s a = some s' ∧ exec step s' as = some t := by
  rw [exec_cons, bind_eq_some_iff]

theorem exec_append (step : σ → α → Option σ) (s : σ) (as bs : List α) :
    exec step s (as ++ bs) = (exec step s as).bind fun s' => exec step s' bs := by
  induction as generalizing s with
  | nil => rfl
  | cons a as ih =>
    rw [cons_append, exec_cons, exec_cons, bind_assoc]
    cases step s a with
    | none => rfl
    | some s' => exact ih s'

/-- Every action of the run meets `cond` in the state it is taken from. -/
def Guarded (step : σ → α → Option σ) (cond : σ → α → Prop) : σ → List α → Prop
  | _, [] => True
  | s, a :: as => cond s a ∧ ∀ s', step s a = some s' → Guarded step cond s' as

variable {cond cond' : σ → α → Prop}

theorem Guarded.mono (himp : ∀ s a, cond s a → cond' s a) {as : List α} {s : σ}
    (h : Guarded step cond s as) : Guarded step cond' s as := by
  induction as generalizing s with
  | nil => trivial
  | cons a as ih => exact ⟨himp s a h.1, fun s' hstep => ih (h.2 s' hstep)⟩

theorem Guarded.of_forall {cond : α → Prop} {as : List α}
    (h : ∀ a ∈ as, cond a) {s : σ} : Guarded step (fun _ a => cond a) s as := by
  induction as generalizing s with
  | nil => trivial
  | cons a as ih =>
    exact ⟨h a (mem_cons_self ..), fun s' _ => ih fun b hb => h b (mem_cons_of_mem _ hb)⟩

/-- A test of the guard along a run. -/
def guardedBy (step : σ → α → Option σ) (check : σ → α → Bool) : σ → List α → Bool
  | _, [] => true
  | s, a :: as =>
    check s a && match step s a with
      | none => true
      | some s' => guardedBy step check s' as

theorem Guarded.of_guardedBy {check : σ → α → Bool} (himp : ∀ s a, check s a = true → cond s a)
    {as : List α} {s : σ} (h : guardedBy step check s as = true) : Guarded step cond s as := by
  induction as generalizing s with
  | nil => trivial
  | cons a as ih =>
    obtain ⟨hcheck, hrest⟩ := Bool.and_eq_true_iff.mp h
    refine ⟨himp s a hcheck, fun s' hstep => ih ?_⟩
    rw [hstep] at hrest
    exact hrest

/-- **Invariant rule for guarded runs.** The step lemma may use the guard. -/
theorem guarded_invariant (Inv : σ → Prop)
    (keep : ∀ s a s', Inv s → cond s a → step s a = some s' → Inv s') :
    ∀ {as : List α} {s t : σ}, Inv s → Guarded step cond s as →
      exec step s as = some t → Inv t := by
  intro as
  induction as with
  | nil =>
    intro s t hs _ h
    obtain rfl : s = t := by simpa using h
    exact hs
  | cons a as ih =>
    intro s t hs hg h
    obtain ⟨s', hstep, hrest⟩ := exec_cons_eq_some.mp h
    exact ih (keep s a s' hs hg.1 hstep) (hg.2 s' hstep) hrest

/-- **Invariant rule.** What holds at the start and is kept by every step holds
wherever a run ends. -/
theorem exec_invariant (Inv : σ → Prop)
    (keep : ∀ s a s', Inv s → step s a = some s' → Inv s') {as : List α} {s t : σ} (hs : Inv s)
    (h : exec step s as = some t) : Inv t :=
  guarded_invariant Inv (fun s a s' hinv (_ : True) hstep => keep s a s' hinv hstep) hs
    (Guarded.of_forall fun _ _ => trivial) h

/-- An invariant of the guarded actions gives a stronger guard. -/
theorem Guarded.of_guarded_invariant (Inv : σ → Prop)
    (keep : ∀ s a s', Inv s → cond s a → step s a = some s' → Inv s')
    (himp : ∀ s a, Inv s → cond s a → cond' s a) :
    ∀ {as : List α} {s : σ}, Inv s → Guarded step cond s as → Guarded step cond' s as := by
  intro as
  induction as with
  | nil => exact fun _ _ => trivial
  | cons a as ih =>
    intro s hs h
    exact ⟨himp s a hs h.1, fun s' hstep => ih (keep s a s' hs h.1 hstep) (h.2 s' hstep)⟩

/-- The same with a guard that does not look at the state. -/
theorem Guarded.of_invariant {cond : α → Prop} (Inv : σ → Prop)
    (keep : ∀ s a s', Inv s → cond a → step s a = some s' → Inv s')
    (himp : ∀ s a, Inv s → cond a → cond' s a) {as : List α} {s : σ} (hs : Inv s)
    (h : ∀ a ∈ as, cond a) : Guarded step cond' s as :=
  .of_guarded_invariant Inv keep himp hs (.of_forall h)

/-- **Guards that decide.** If a guarded action keeps the good states, any other one leads to the
bad states, and these are never left, a run from a good state ends in a good one exactly if it is
guarded. -/
theorem guarded_iff {G B : σ → Prop} (apart : ∀ {s}, G s → ¬ B s)
    (keep : ∀ {s a s'}, G s → cond s a → step s a = some s' → G s')
    (fall : ∀ {s a s'}, G s → ¬ cond s a → step s a = some s' → B s')
    (stay : ∀ s a s', B s → step s a = some s' → B s') {as : List α} {s t : σ} (hs : G s)
    (hrun : exec step s as = some t) : Guarded step cond s as ↔ G t := by
  induction as generalizing s with
  | nil =>
    cases hrun
    exact ⟨fun _ => hs, fun _ => trivial⟩
  | cons a as ih =>
    obtain ⟨s', hstep, hrest⟩ := exec_cons_eq_some.mp hrun
    by_cases hc : cond s a
    · rw [← ih (keep hs hc hstep) hrest]
      refine ⟨fun h => h.2 s' hstep, fun h => ⟨hc, fun s'' hstep' => ?_⟩⟩
      cases hstep.symm.trans hstep'
      exact h
    · exact ⟨fun h => absurd h.1 hc,
        fun ht => absurd (exec_invariant B stay (fall hs hc hstep) hrest) (apart ht)⟩

end PythonOS.Lib
