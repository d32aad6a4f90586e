import Mathlib.Logic.Basic

/-!
# PythonOS.Lib.PyState

Functions with state and exceptions, as Python has them: an exception leaves
the state as it is when it is raised.

`wp m Q E s` is the weakest precondition: run from `s`, the function `m` returns
with `Q` or raises with `E`. Its rules follow the constructors of a `do` block,
so a function is verified by rewriting with them; `wp_mono` brings in the
specification of a function that is called.
-/

namespace PythonOS.Lib

/-- A function on a state `σ` that may raise an `ε`. -/
abbrev PyState (ε σ : Type) := ExceptT ε (StateM σ)

variable {ε σ α β : Type}

/-- Run from `s`, `m` returns with `Q` or raises with `E`. -/
def wp (m : PyState ε σ α) (Q : α → σ → Prop) (E : ε → σ → Prop) (s : σ) : Prop :=
  match m.run.run s with
  | (.ok a, s') => Q a s'
  | (.error e, s') => E e s'

/-- Run from `s`, `m` returns, with `Q`. -/
abbrev returns (m : PyState ε σ α) (Q : α → σ → Prop) (s : σ) : Prop := wp m Q (fun _ _ => False) s

/-- Exceptions that need no thought: there are none, all are allowed, or the same ones as before. -/
class Allows (E E' : ε → σ → Prop) : Prop where
  imp : ∀ e s, E e s → E' e s

section

variable (E : ε → σ → Prop)

instance : Allows (fun _ _ => False) E := ⟨fun _ _ h => h.elim⟩

instance : Allows E fun _ _ => True := ⟨fun _ _ _ => trivial⟩

instance : Allows E E := ⟨fun _ _ h => h⟩

end

/-- `if c: m`. -/
def onlyIf (c : Prop) [Decidable c] (m : PyState ε σ Unit) : PyState ε σ Unit :=
  if c then m else pure ()

namespace PyState

variable {Q Q' : α → σ → Prop} {E E' : ε → σ → Prop} {s : σ}

@[simp] theorem wp_pure (a : α) : wp (pure a : PyState ε σ α) Q E s ↔ Q a s := .rfl

@[simp] theorem wp_throw (e : ε) : wp (throw e : PyState ε σ α) Q E s ↔ E e s := .rfl

@[simp] theorem wp_bind (m : PyState ε σ α) (f : α → PyState ε σ β) {Q : β → σ → Prop} :
    wp (m >>= f) Q E s ↔ wp m (fun a s' => wp (f a) Q E s') E s := by
  have hrun : (m >>= f).run.run s =
      (fun p => StateT.run (ExceptT.bindCont f p.1) p.2) (m.run.run s) := rfl
  unfold wp
  rw [hrun]
  rcases m.run.run s with ⟨r, s'⟩
  cases r with
  | ok a => rfl
  | error e => rfl

@[simp] theorem wp_get {Q : σ → σ → Prop} : wp (get : PyState ε σ σ) Q E s ↔ Q s s := .rfl

@[simp] theorem wp_set (s' : σ) {Q : PUnit → σ → Prop} :
    wp (set s' : PyState ε σ PUnit) Q E s ↔ Q ⟨⟩ s' := .rfl

@[simp] theorem wp_modify (f : σ → σ) {Q : PUnit → σ → Prop} :
    wp (modify f : PyState ε σ PUnit) Q E s ↔ Q ⟨⟩ (f s) := .rfl

/-- A function without state. -/
@[simp] theorem wp_liftExcept (x : Except ε α) :
    wp (liftM x : PyState ε σ α) Q E s ↔ match x with
      | .ok a => Q a s
      | .error e => E e s := by
  cases x <;> rfl

/-- An exception is caught with the state as it is when it is raised. -/
@[simp] theorem wp_tryCatch (m : PyState ε σ α) (f : ε → PyState ε σ α) :
    wp (tryCatch m f) Q E s ↔ wp m Q (fun e s' => wp (f e) Q E s') s := by
  have hrun : (tryCatch m f).run.run s = match m.run.run s with
      | (.ok a, s') => (.ok a, s')
      | (.error e, s') => (f e).run.run s' := by
    rcases hm : m.run.run s with ⟨r, s'⟩
    have hm' : m s = (r, s') := hm
    simp only [tryCatch, tryCatchThe, MonadExceptOf.tryCatch, ExceptT.tryCatch, ExceptT.run,
      ExceptT.mk, StateT.run, bind, StateT.bind, hm']
    cases r with
    | ok a => rfl
    | error e => rfl
  unfold wp
  rw [hrun]
  rcases m.run.run s with ⟨r, s'⟩
  cases r with
  | ok a => rfl
  | error e => rfl

theorem wp_ite {c : Prop} [Decidable c] {m m' : PyState ε σ α} :
    wp (if c then m else m') Q E s ↔ (c → wp m Q E s) ∧ (¬ c → wp m' Q E s) := by
  rw [apply_ite (wp · Q E s)]
  exact ite_prop_iff_and

theorem wp_onlyIf {c : Prop} [Decidable c] {m : PyState ε σ Unit} {Q : Unit → σ → Prop} :
    wp (onlyIf c m) Q E s ↔ (c → wp m Q E s) ∧ (¬ c → Q () s) := wp_ite

/-- **Consequence.** -/
theorem wp_mono {m : PyState ε σ α} (h : wp m Q E s) (hQ : ∀ a s', Q a s' → Q' a s')
    (hE : ∀ e s', E e s' → E' e s') : wp m Q' E' s := by
  unfold wp at h ⊢
  split at h
  · exact hQ _ _ h
  · exact hE _ _ h

/-- Consequence with exceptions that need no thought. -/
theorem wp_imp {m : PyState ε σ α} [hE : Allows E E'] (h : wp m Q E s)
    (hQ : ∀ a s', Q a s' → Q' a s') : wp m Q' E' s := wp_mono h hQ hE.imp

/-- What holds however `m` ends holds of the state it leaves. -/
theorem wp_state {m : PyState ε σ α} {P : σ → Prop} (h : wp m (fun _ => P) (fun _ => P) s) :
    P (m.run.run s).2 := by
  unfold wp at h
  rcases hm : m.run.run s with ⟨r, s'⟩
  rw [hm] at h
  cases r with
  | ok a => exact h
  | error e => exact h

end PyState

open PyState

/-! ### Invariants

`Keeps Inv m`: whether `m` returns or raises, `Inv` holds afterwards if it held
before. -/

def Keeps (Inv : σ → Prop) (m : PyState ε σ α) : Prop :=
  ∀ s, Inv s → wp m (fun _ => Inv) (fun _ => Inv) s

/-- Run from `s`, `m` leaves a state with `Inv`. -/
abbrev KeepsFrom (Inv : σ → Prop) (s : σ) (m : PyState ε σ α) : Prop :=
  wp m (fun _ => Inv) (fun _ => Inv) s

variable {Inv : σ → Prop}

/-- A function that keeps the invariant from `s`, and then one that always does. -/
theorem KeepsFrom.bind {m : PyState ε σ α} {f : α → PyState ε σ β} {s : σ}
    (hm : KeepsFrom Inv s m) (hf : ∀ a, Keeps Inv (f a)) : KeepsFrom Inv s (m >>= f) := by
  rw [KeepsFrom, wp_bind]
  exact wp_imp hm hf

theorem KeepsFrom.get {f : σ → PyState ε σ β} {s : σ} (hf : KeepsFrom Inv s (f s)) :
    KeepsFrom Inv s (get >>= f) := hf

/-- What is computed before the first write. -/
theorem KeepsFrom.lift {x : Except ε α} {f : α → PyState ε σ β} {s : σ} (hs : Inv s)
    (hf : ∀ a, x = .ok a → KeepsFrom Inv s (f a)) :
    KeepsFrom Inv s ((liftM x : PyState ε σ α) >>= f) := by
  cases x with
  | ok a => exact hf a rfl
  | error e => exact hs

theorem keeps_pure (a : α) : Keeps Inv (pure a : PyState ε σ α) := fun _ hs => hs

theorem keeps_throw (e : ε) : Keeps Inv (throw e : PyState ε σ α) := fun _ hs => hs

theorem keeps_set {s : σ} (h : Inv s) : Keeps Inv (set s : PyState ε σ PUnit) := fun _ _ => h

theorem keeps_modify {f : σ → σ} (h : ∀ s, Inv s → Inv (f s)) :
    Keeps Inv (modify f : PyState ε σ PUnit) := fun s hs => h s hs

/-- What is read from the state meets the invariant. -/
theorem keeps_get_bind {f : σ → PyState ε σ α} (hf : ∀ s, Inv s → Keeps Inv (f s)) :
    Keeps Inv (get >>= f) := by
  intro s hs
  exact hf s hs s hs

theorem keeps_lift_bind {x : Except ε α} {f : α → PyState ε σ β}
    (hf : ∀ a, x = .ok a → Keeps Inv (f a)) : Keeps Inv ((liftM x : PyState ε σ α) >>= f) := by
  intro s hs
  cases x with
  | ok a => exact hf a rfl s hs
  | error e => exact hs

theorem keeps_ite {c : Prop} [Decidable c] {m m' : PyState ε σ α} (h : c → Keeps Inv m)
    (h' : ¬ c → Keeps Inv m') : Keeps Inv (if c then m else m') := by
  intro s hs
  exact wp_ite.mpr ⟨fun hc => h hc s hs, fun hc => h' hc s hs⟩

theorem keeps_onlyIf {c : Prop} [Decidable c] {m : PyState ε σ Unit} (h : c → Keeps Inv m) :
    Keeps Inv (onlyIf c m) := keeps_ite h fun _ => keeps_pure _

namespace Keeps

variable {m : PyState ε σ α}

theorem bind {f : α → PyState ε σ β} (hm : Keeps Inv m)
    (hf : ∀ a, Keeps Inv (f a)) : Keeps Inv (m >>= f) := by
  intro s hs
  rw [PyState.wp_bind]
  exact wp_imp (hm s hs) hf

/-- A function that keeps an invariant, and then one that uses it. -/
theorem wp_bind {f : α → PyState ε σ β} {Q : β → σ → Prop}
    {E : ε → σ → Prop} {s : σ} (hm : Keeps Inv m) (hs : Inv s) (hE : ∀ e s', Inv s' → E e s')
    (hf : ∀ a s', Inv s' → wp (f a) Q E s') : wp (m >>= f) Q E s := by
  rw [PyState.wp_bind]
  exact wp_mono (hm s hs) hf hE

theorem tryCatch {f : ε → PyState ε σ α} (hm : Keeps Inv m)
    (hf : ∀ e, Keeps Inv (f e)) : Keeps Inv (MonadExcept.tryCatch m f) := by
  intro s hs
  rw [wp_tryCatch]
  exact wp_mono (hm s hs) (fun _ _ hs' => hs') fun e s' hs' => hf e s' hs'

theorem forM {f : β → PyState ε σ PUnit} (h : ∀ b, Keeps Inv (f b)) (bs : List β) :
    Keeps Inv (bs.forM f) := by
  induction bs with
  | nil => exact keeps_pure _
  | cons b bs ih => exact (h b).bind fun _ => ih

/-- The state after running `m`. -/
theorem run (h : Keeps Inv m) {s : σ} (hs : Inv s) :
    Inv (m.run.run s).2 := wp_state (h s hs)

end Keeps

end PythonOS.Lib
