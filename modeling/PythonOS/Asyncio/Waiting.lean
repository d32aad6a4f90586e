import PythonOS.Asyncio.Loop

/-!
# PythonOS.Asyncio.Waiting

Primitives that tasks wait on, under every interleaving of the event loop.

`Lock`, `Semaphore` and `Queue` have one shape. A blocking operation looks at
the primitive's state; when it cannot go on it creates a future, appends it to a
list of the primitive and awaits it, and when it can it acts on the state.
Acting, like the operations that never block, may wake one list: the first
future of the list that is not done is resolved. `Primitive` says what differs.

The world is the loop, one primitive, and tasks whose other doings (await or
resolve futures, cancel tasks, start tasks, yield) are actions of their own, so
that a run of `World.step` is a run of an arbitrary program. Client code has no
reference to the futures of the primitive.
-/

namespace PythonOS.Asyncio

open Option Function

/-- Where a coroutine stands with respect to the primitive's code. -/
inductive Stand (ω : Type)
  /-- Running client code, or suspended in it. -/
  | outside
  /-- Suspended at `await fut` in the blocking operation `o`. -/
  | waiting (o : ω) (f : FutId)
  | ended
  deriving Repr, DecidableEq

/-- A primitive with state `σ`, blocking operations `ω`, other operations `ν` and lists of waiting
futures `κ`. -/
structure Primitive (σ ω ν κ : Type) where
  init : σ
  /-- The list a blocking operation waits in. -/
  queue : ω → κ
  /-- The test before the wait. -/
  blocked : ω → σ → Bool
  /-- Whether the test is made again after the wait: `while` or `if`. -/
  again : Bool
  /-- What a blocking operation does once it may, and the list it wakes. -/
  act : ω → σ → σ × Option κ
  /-- What another operation does, and the list it wakes. -/
  call : ν → σ → σ × Option κ
  /-- Whom a wakeup resolves, given which futures are done, and the list afterwards. -/
  pick : (FutId → Bool) → List FutId → Option FutId × List FutId

/-- The loop, the primitive's state and lists, and the futures the primitive has created. -/
structure World (σ ω κ : Type) where
  loop : Loop Unit (Stand ω) := {}
  state : σ
  waiters : κ → List FutId := fun _ => []
  mine : FutId → Bool := fun _ => false
  running : Running := .nothing

/-- What can happen next. -/
inductive Event (ω ν : Type)
  /-- The loop pops the first handle and starts it. -/
  | runReady
  /-- The running task calls a blocking operation. -/
  | block (o : ω)
  /-- The running task or callback calls another operation. -/
  | call (n : ν)
  /-- The running task awaits a future that is not the primitive's. -/
  | await (f : FutId)
  /-- The running task yields `None`. -/
  | yieldNone
  /-- The running task's coroutine ends. -/
  | finish (y : Except Exc Unit)
  | endCallback
  | createFuture
  | createTask
  | setResult (f : FutId)
  | setException (f : FutId) (e : Exc)
  | cancel (f : FutId)
  | addDoneCallback (f : FutId) (n : Nat)
  | callSoon (n : Nat)

/-- What client code does without calling the primitive. -/
def Event.ofClient {ω ν : Type} : Event ω ν → Bool
  | .runReady | .block _ | .call _ => false
  | _ => true

namespace World

variable {σ ω ν κ : Type} [DecidableEq κ] (P : Primitive σ ω ν κ)

/-- Give control to the coroutine of `t`, standing outside the primitive's code. -/
def enter (w : World σ ω κ) (t : FutId) : World σ ω κ :=
  { w with loop := w.loop.setCoro t .outside, running := .task t }

/-- Replace one list of waiting futures. -/
def setWaiters (w : World σ ω κ) (k : κ) (ws : List FutId) : World σ ω κ :=
  { w with waiters := update w.waiters k ws }

/-- Wake the list `k`. -/
def wake (w : World σ ω κ) (k : κ) : World σ ω κ :=
  match P.pick w.loop.done (w.waiters k) with
  | (none, ws) => w.setWaiters k ws
  | (some f, ws) => { w.setWaiters k ws with loop := w.loop.finish f (.result ()) }

/-- Go on with the state and the wakeup an operation has left. -/
def apply (w : World σ ω κ) (out : σ × Option κ) : World σ ω κ :=
  match out.2 with
  | none => { w with state := out.1 }
  | some k => { w with state := out.1 }.wake P k

/-- The blocking operation `o` of task `t` from where it may go on to its return. -/
def complete (w : World σ ω κ) (t : FutId) (o : ω) : World σ ω κ :=
  (w.apply P (P.act o w.state)).enter t

/-- Create a future, append it to the list and await it. -/
def park (w : World σ ω κ) (t : FutId) (o : ω) : Option (World σ ω κ) :=
  let (f, l) := w.loop.createFuture
  ((l.setCoro t (.waiting o f)).stepEnd t (.future f)).map fun l' =>
    { w with
      loop := l', waiters := update w.waiters (P.queue o) (w.waiters (P.queue o) ++ [f])
      mine := update w.mine f true, running := .nothing }

/-- The blocking operation `o` of task `t` from its test on, to its return or its suspension. -/
def begin (w : World σ ω κ) (t : FutId) (o : ω) : Option (World σ ω κ) :=
  if P.blocked o w.state then w.park P t o else some (w.complete P t o)

/-- `except CancelledError`: take the future out of the list and raise again. -/
def abandon (w : World σ ω κ) (t : FutId) (o : ω) (f : FutId) : World σ ω κ :=
  (w.setWaiters (P.queue o) ((w.waiters (P.queue o)).erase f)).enter t

/-- The blocking operation `o` from `await fut` on, when its task is resumed with `exc`. -/
def resume (w : World σ ω κ) (t : FutId) (o : ω) (f : FutId) (exc : Option Exc) :
    Option (World σ ω κ) :=
  match exc with
  | some .cancelledError => some (w.abandon P t o f)
  | some _ => some (w.enter t)
  | none =>
    -- `Future.__await__` after its yield
    if w.loop.done f then
      match w.loop.result f with
      | .ok _ => if P.again then w.begin P t o else some (w.complete P t o)
      | .error .cancelledError => some (w.abandon P t o f)
      | .error _ => some (w.enter t)
    else some (w.enter t)

/-- `Task._step(exc)` of task `t` up to the coroutine's next action. -/
def resumeTask (w : World σ ω κ) (t : FutId) (exc : Option Exc) : Option (World σ ω κ) :=
  match w.loop.coroOf t, w.loop.stepBegin t exc with
  | some c, some (exc', l) =>
    match c with
    | .outside => some { w with loop := l, running := .task t }
    | .waiting o f => { w with loop := l }.resume P t o f exc'
    | .ended => some { w with loop := l }
  | _, _ => none

/-- `Task._wakeup(f)`: the exception `f.result()` raises, if any. -/
def wakeupExc (w : World σ ω κ) (f : FutId) : Option Exc :=
  match w.loop.result f with
  | .ok _ => none
  | .error e => some e

/-- Start a handle. -/
def start (w : World σ ω κ) : Handle → Option (World σ ω κ)
  | .step t => w.resumeTask P t none
  | .done (.wakeup t) f => w.resumeTask P t (w.wakeupExc f)
  | .done (.client _) _ => some { w with running := .callback }
  | .client _ => some { w with running := .callback }

/-- A future or task that client code can refer to. -/
def known (w : World σ ω κ) (f : FutId) : Bool := decide (f < w.loop.nextId) && !w.mine f

/-- One action; `none` when it is not possible. -/
def step (w : World σ ω κ) : Event ω ν → Option (World σ ω κ)
  | .runReady =>
    match w.running, w.loop.ready with
    | .nothing, h :: rest => { w with loop := { w.loop with ready := rest } }.start P h
    | _, _ => none
  | .block o =>
    match w.running with
    | .task t => w.begin P t o
    | _ => none
  | .call n =>
    match w.running with
    | .nothing => none
    | _ => some (w.apply P (P.call n w.state))
  | .await f =>
    match w.running with
    | .task t =>
      if w.known f ∧ ¬ w.loop.done f then
        (w.loop.stepEnd t (.future f)).map fun l => { w with loop := l, running := .nothing }
      else none
    | _ => none
  | .yieldNone =>
    match w.running with
    | .task t =>
      (w.loop.stepEnd t .bare).map fun l => { w with loop := l, running := .nothing }
    | _ => none
  | .finish y =>
    match w.running with
    | .task t =>
      let l := w.loop.setCoro t .ended
      let y' : Yield Unit := match y with
        | .ok v => .returned v
        | .error .cancelledError => .cancelled
        | .error e => .raised e
      some { w with loop := (l.stepEnd t y').getD l, running := .nothing }
    | _ => none
  | .endCallback =>
    match w.running with
    | .callback => some { w with running := .nothing }
    | _ => none
  | .createFuture => some { w with loop := w.loop.createFuture.2 }
  | .createTask => some { w with loop := (w.loop.createTask .outside).2 }
  | .setResult f =>
    if w.known f then (w.loop.setResult f ()).map fun l => { w with loop := l } else none
  | .setException f e =>
    if w.known f then (w.loop.setException f e).map fun l => { w with loop := l } else none
  | .cancel f =>
    if w.known f then some { w with loop := w.loop.cancel (w.loop.nextId + 1) f } else none
  | .addDoneCallback f n =>
    if w.known f then some { w with loop := w.loop.addDoneCallback f (.client n) } else none
  | .callSoon n => some { w with loop := w.loop.callSoon (.client n) }

/-! ### The primitive's state along a run -/

variable {P} {w w' : World σ ω κ} {t f : FutId} {o : ω} {exc : Option Exc}

@[simp] theorem apply_state {out : σ × Option κ} : (w.apply P out).state = out.1 := by
  unfold apply
  cases out.2 with
  | none => rfl
  | some k =>
    simp only [wake]
    split <;> rfl

@[simp] theorem complete_state : (w.complete P t o).state = (P.act o w.state).1 := apply_state

theorem park_state (h : w.park P t o = some w') : w'.state = w.state := by
  obtain ⟨l, -, rfl⟩ := map_eq_some_iff.mp h
  rfl

/-- What `begin` does to the state: nothing, or the operation, which then was not blocked. -/
theorem begin_state (h : w.begin P t o = some w') :
    w'.state = w.state ∨ P.blocked o w.state = false ∧ w'.state = (P.act o w.state).1 := by
  unfold begin at h
  cases hb : P.blocked o w.state with
  | true =>
    rw [hb, if_pos rfl] at h
    exact .inl (park_state h)
  | false =>
    rw [hb, if_neg Bool.false_ne_true] at h
    cases h
    exact .inr ⟨rfl, complete_state⟩

/-- The same for a task that is resumed, if the test is made again. -/
theorem resumeTask_state (hagain : P.again = true) (h : w.resumeTask P t exc = some w') :
    w'.state = w.state ∨ ∃ o, P.blocked o w.state = false ∧ w'.state = (P.act o w.state).1 := by
  unfold resumeTask at h
  split at h
  · next c exc' l _ _ =>
    cases c with
    | outside =>
      cases h
      exact .inl rfl
    | ended =>
      cases h
      exact .inl rfl
    | waiting o f =>
      simp only [resume, hagain, if_true] at h
      split at h
      · cases h
        exact .inl rfl
      · cases h
        exact .inl rfl
      · split at h
        · split at h
          · rcases begin_state h with hs | hs
            · exact .inl hs
            · exact .inr ⟨o, hs⟩
          · cases h
            exact .inl rfl
          · cases h
            exact .inl rfl
        · cases h
          exact .inl rfl
  · cases h

/-- A property of the state that the operations keep when they are not blocked holds along every
run, if the test is made again after a wait. -/
theorem step_state (hagain : P.again = true) {I : σ → Prop}
    (hact : ∀ o s, P.blocked o s = false → I s → I (P.act o s).1)
    (hcall : ∀ n s, I s → I (P.call n s).1) {e : Event ω ν} (hI : I w.state)
    (h : w.step P e = some w') : I w'.state := by
  have hresume : ∀ (v : World σ ω κ) (t : FutId) (exc : Option Exc), v.state = w.state →
      v.resumeTask P t exc = some w' → I w'.state := by
    intro v t exc hv hr
    rcases resumeTask_state hagain hr with hs | ⟨o, hb, hs⟩
    · rw [hs, hv]
      exact hI
    · rw [hv] at hb hs
      rw [hs]
      exact hact o _ hb hI
  cases e with
  | runReady =>
    simp only [step] at h
    split at h
    · next hd rest _ _ =>
      cases hd with
      | step t => exact hresume { w with loop := { w.loop with ready := rest } } _ _ rfl h
      | done cb f =>
        cases cb with
        | wakeup t =>
          exact hresume { w with loop := { w.loop with ready := rest } } _ _ rfl h
        | client n =>
          cases h
          exact hI
      | client n =>
        cases h
        exact hI
    · cases h
  | block o =>
    simp only [step] at h
    split at h
    · rcases begin_state h with hs | ⟨hb, hs⟩
      · rw [hs]
        exact hI
      · rw [hs]
        exact hact o _ hb hI
    · cases h
  | call n =>
    simp only [step] at h
    split at h <;> cases h
    rw [apply_state]
    exact hcall n _ hI
  | finish y =>
    simp only [step] at h
    split at h <;> cases h
    exact hI
  | await _ | yieldNone | endCallback | createFuture | createTask | setResult _
  | setException _ _ | cancel _ | addDoneCallback _ _ | callSoon _ =>
    -- client code does not touch the state
    have hs : w'.state = w.state := by grind [step, map_eq_some_iff]
    rwa [hs]

end World

end PythonOS.Asyncio
