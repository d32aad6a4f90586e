import PythonOS.Lib.PyState

/-!
# PythonOS.Lib.Coro

Coroutines on a shared state: `async def` functions with state and exceptions.

A coroutine is a tree of what it does next: read the state, write it, raise an
exception, or `pause`, which is a point where other tasks may run. `Coro.run`
runs one alone, where a pause does nothing; an exception leaves the state as it
is when it is raised.

`Coro.wp m Q E s` is the weakest precondition of running alone: started in `s`,
`m` returns with `Q` or raises with `E`. Its rules follow the constructors of a
`do` block; `Coro.wp_bind_of` brings in the specification of a function that is
called.
-/

namespace PythonOS.Lib

/-- A coroutine on a state `σ` that may raise an `ε`. -/
inductive Coro (ε σ α : Type) : Type
  | ret (a : α)
  | raise (e : ε)
  | get (k : σ → Coro ε σ α)
  | set (s : σ) (k : Coro ε σ α)
  | pause (k : Coro ε σ α)

namespace Coro

variable {ε σ α β : Type}

def bind : Coro ε σ α → (α → Coro ε σ β) → Coro ε σ β
  | ret a, f => f a
  | raise e, _ => raise e
  | get k, f => get fun s => (k s).bind f
  | set s k, f => set s (k.bind f)
  | pause k, f => pause (k.bind f)

instance : Monad (Coro ε σ) where
  pure := ret
  bind := bind

instance : MonadStateOf σ (Coro ε σ) where
  get := get ret
  set s := set s (ret ⟨⟩)
  modifyGet f := get fun s => set (f s).2 (ret (f s).1)

instance : MonadLift (Except ε) (Coro ε σ) where
  monadLift x := match x with
    | .ok a => ret a
    | .error e => raise e

/-- An exception is caught with the state as it is when it is raised. -/
def tryCatch : Coro ε σ α → (ε → Coro ε σ α) → Coro ε σ α
  | ret a, _ => ret a
  | raise e, f => f e
  | get k, f => get fun s => (k s).tryCatch f
  | set s k, f => set s (k.tryCatch f)
  | pause k, f => pause (k.tryCatch f)

instance : MonadExceptOf ε (Coro ε σ) where
  throw := raise
  tryCatch := tryCatch

/-- `await` of something that may suspend the task. -/
def yield : Coro ε σ Unit := pause (ret ())

/-- Run a coroutine alone. -/
def run : Coro ε σ α → σ → Except ε α × σ
  | ret a, s => (.ok a, s)
  | raise e, s => (.error e, s)
  | get k, s => (k s).run s
  | set s k, _ => k.run s
  | pause k, s => k.run s

/-- Run alone from `s`, `m` returns with `Q` or raises with `E`. -/
def wp (m : Coro ε σ α) (Q : α → σ → Prop) (E : ε → σ → Prop) (s : σ) : Prop :=
  match m.run s with
  | (.ok a, s') => Q a s'
  | (.error e, s') => E e s'

/-- Run alone from `s`, `m` returns, with `Q`. -/
abbrev returns (m : Coro ε σ α) (Q : α → σ → Prop) (s : σ) : Prop := m.wp Q (fun _ _ => False) s

/-- Run alone from `s`, `m` has `Q` if it returns. -/
abbrev wlp (m : Coro ε σ α) (Q : α → σ → Prop) (s : σ) : Prop := m.wp Q (fun _ _ => True) s

theorem run_bind (m : Coro ε σ α) (f : α → Coro ε σ β) (s : σ) :
    (m >>= f).run s = match m.run s with
      | (.ok a, s') => (f a).run s'
      | (.error e, s') => (.error e, s') := by
  induction m generalizing s with
  | ret a => rfl
  | raise e => rfl
  | get k ih => exact ih s s
  | set s' k ih => exact ih s'
  | pause k ih => exact ih s

section Rules

variable {Q Q' : α → σ → Prop} {E E' : ε → σ → Prop} {s : σ}

@[simp] theorem wp_pure (a : α) : (pure a : Coro ε σ α).wp Q E s ↔ Q a s := .rfl

@[simp] theorem wp_throw (e : ε) : (throw e : Coro ε σ α).wp Q E s ↔ E e s := .rfl

@[simp] theorem wp_bind (m : Coro ε σ α) (f : α → Coro ε σ β) {Q : β → σ → Prop} :
    (m >>= f).wp Q E s ↔ m.wp (fun a s' => (f a).wp Q E s') E s := by
  unfold wp
  rw [run_bind]
  rcases m.run s with ⟨r, s'⟩
  cases r with
  | ok a => rfl
  | error e => rfl

@[simp] theorem wp_get {Q : σ → σ → Prop} :
    (MonadState.get : Coro ε σ σ).wp Q E s ↔ Q s s := .rfl

@[simp] theorem wp_set (s' : σ) {Q : PUnit → σ → Prop} :
    (MonadStateOf.set s' : Coro ε σ PUnit).wp Q E s ↔ Q ⟨⟩ s' := .rfl

@[simp] theorem wp_modify (f : σ → σ) {Q : PUnit → σ → Prop} :
    (modify f : Coro ε σ PUnit).wp Q E s ↔ Q ⟨⟩ (f s) := .rfl

@[simp] theorem wp_yield {Q : Unit → σ → Prop} :
    (yield : Coro ε σ Unit).wp Q E s ↔ Q () s := .rfl

/-- A function without state. -/
@[simp] theorem wp_lift (x : Except ε α) :
    (liftM x : Coro ε σ α).wp Q E s ↔ match x with
      | .ok a => Q a s
      | .error e => E e s := by
  cases x <;> rfl

theorem wp_ite {c : Prop} [Decidable c] {m m' : Coro ε σ α} :
    (if c then m else m').wp Q E s ↔ (c → m.wp Q E s) ∧ (¬ c → m'.wp Q E s) := by
  rw [apply_ite (wp · Q E s)]
  exact ite_prop_iff_and

variable {m : Coro ε σ α}

/-- **Consequence.** -/
theorem wp_mono (h : m.wp Q E s) (hQ : ∀ a s', Q a s' → Q' a s')
    (hE : ∀ e s', E e s' → E' e s') : m.wp Q' E' s := by
  unfold wp at h ⊢
  split at h
  · exact hQ _ _ h
  · exact hE _ _ h

/-- Consequence with exceptions that need no thought. -/
theorem wp_imp [hE : Allows E E'] (h : m.wp Q E s) (hQ : ∀ a s', Q a s' → Q' a s') :
    m.wp Q' E' s := wp_mono h hQ hE.imp

section

variable {f : α → Coro ε σ β} {Q : β → σ → Prop} {P : α → σ → Prop} {E0 : ε → σ → Prop}
  (h : m.wp P E0 s)

include h

/-- **Calls.** The specification of a function that is called, and then the rest. -/
theorem wp_bind_of (hE : ∀ e s', E0 e s' → E e s') (hf : ∀ a s', P a s' → (f a).wp Q E s') :
    (m >>= f).wp Q E s :=
  (wp_bind m f).mpr (wp_mono h hf hE)

/-- A call whose exceptions need no thought: it cannot raise, or whatever it raises is allowed. -/
theorem wp_bind_ok [hE : Allows E0 E] (hf : ∀ a s', P a s' → (f a).wp Q E s') :
    (m >>= f).wp Q E s :=
  wp_bind_of h hE.imp hf

end

theorem returns_run (h : m.returns Q s) : ∃ a s', m.run s = (.ok a, s') ∧ Q a s' := by
  unfold returns wp at h
  split at h
  · next a s' hrun => exact ⟨a, s', hrun, h⟩
  · exact h.elim

theorem run_eq_ok {a : α} (h : (m.run s).1 = .ok a) :
    m.run s = (.ok a, (m.run s).2) := Prod.ext h rfl

/-- A coroutine with a specification that leaves out exceptions returns. -/
theorem wp_of_run {a : α} {s' : σ} (h : m.wp Q E s) (hrun : m.run s = (.ok a, s')) : Q a s' := by
  unfold wp at h
  rw [hrun] at h
  exact h

theorem wp_of_run_error {e : ε} {s' : σ} (h : m.wp Q E s)
    (hrun : m.run s = (.error e, s')) : E e s' := by
  unfold wp at h
  rw [hrun] at h
  exact h

theorem run_eq_error {e : ε} (h : (m.run s).1 = .error e) :
    m.run s = (.error e, (m.run s).2) := Prod.ext h rfl

end Rules

end Coro

end PythonOS.Lib
