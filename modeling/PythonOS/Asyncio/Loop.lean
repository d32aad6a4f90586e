import Mathlib.Logic.Function.Basic
import PythonOS.Lib.Runs

/-!
# PythonOS.Asyncio.Loop

The core of the bare-metal `asyncio`: futures (`futures.py`), tasks
(`tasks.py`) and the ready queue (`events.py`).

A task is a future with a coroutine. What the coroutine does is not part of the
loop: `stepBegin` is `Task._step` up to the point where the coroutine is
resumed, `stepEnd` is the rest of `_step` once the coroutine has yielded or
ended, and between the two the client of the loop acts. `γ` says where a
coroutine stands, `β` is the type of results.
-/

namespace PythonOS.Asyncio

/-- Index of a `Future` object; tasks are futures. -/
abbrev FutId := Nat

/-- The exceptions that travel through futures. -/
inductive Exc
  | cancelledError | invalidStateError | runtimeError | user (n : Nat)
  deriving Repr, DecidableEq

/-- `_PENDING`, `_CANCELLED`, and the two ways of being `_FINISHED`. -/
inductive FutState (β : Type)
  | pending
  | cancelled
  | result (v : β)
  | exception (e : Exc)
  deriving Repr, DecidableEq

/-- A done callback: a task's `_wakeup`, or one of the client's functions. -/
inductive Callback
  | wakeup (t : FutId)
  | client (n : Nat)
  deriving Repr, DecidableEq

/-- An entry of the ready queue. -/
inductive Handle
  /-- `task._step`, scheduled with `call_soon`. -/
  | step (t : FutId)
  /-- A done callback, with the future it was registered on. -/
  | done (cb : Callback) (f : FutId)
  /-- Any other function of the client (a timer, an interrupt handler). -/
  | client (n : Nat)
  deriving Repr, DecidableEq

/-- `Future`. -/
structure Future (β : Type) where
  state : FutState β := .pending
  callbacks : List Callback := []

/-- What a `Task` has besides its future. -/
structure TaskRec (γ : Type) where
  coro : γ
  futWaiter : Option FutId := none
  mustCancel : Bool := false

/-- The event loop with all its objects. -/
structure Loop (β γ : Type) where
  futs : FutId → Future β := fun _ => {}
  tasks : FutId → Option (TaskRec γ) := fun _ => none
  nextId : FutId := 0
  ready : List Handle := []

/-- What the loop is executing. -/
inductive Running
  | nothing
  | task (t : FutId)
  | callback
  deriving Repr, DecidableEq

/-- What `coro.send` / `coro.throw` comes back with. -/
inductive Yield (β : Type)
  | returned (v : β)
  | cancelled
  | raised (e : Exc)
  | future (f : FutId)
  | bare

namespace Loop

variable {β γ : Type}

/-- `fut.done()`. -/
def done (l : Loop β γ) (f : FutId) : Bool :=
  match (l.futs f).state with
  | .pending => false
  | _ => true

/-- `fut.result()`: the value, or the exception it raises. -/
def result (l : Loop β γ) (f : FutId) : Except Exc β :=
  match (l.futs f).state with
  | .pending => .error .invalidStateError
  | .cancelled => .error .cancelledError
  | .result v => .ok v
  | .exception e => .error e

/-- `call_soon`. -/
def callSoon (l : Loop β γ) (h : Handle) : Loop β γ := { l with ready := l.ready ++ [h] }

/-- `create_future`. -/
def createFuture (l : Loop β γ) : FutId × Loop β γ :=
  (l.nextId, { l with futs := Function.update l.futs l.nextId {}, nextId := l.nextId + 1 })

/-- Put a pending future into a final state and schedule its callbacks. -/
def finish (l : Loop β γ) (f : FutId) (st : FutState β) : Loop β γ :=
  { l with
    futs := Function.update l.futs f { state := st }
    ready := l.ready ++ (l.futs f).callbacks.map fun cb => .done cb f }

/-- `set_result`; `none` is `InvalidStateError`. -/
def setResult (l : Loop β γ) (f : FutId) (v : β) : Option (Loop β γ) :=
  if l.done f then none else some (l.finish f (.result v))

/-- `set_exception`; `none` is `InvalidStateError`. -/
def setException (l : Loop β γ) (f : FutId) (e : Exc) : Option (Loop β γ) :=
  if l.done f then none else some (l.finish f (.exception e))

/-- `Future.cancel`. -/
def cancelFuture (l : Loop β γ) (f : FutId) : Loop β γ :=
  if l.done f then l else l.finish f .cancelled

/-- `add_done_callback`. -/
def addDoneCallback (l : Loop β γ) (f : FutId) (cb : Callback) : Loop β γ :=
  if l.done f then l.callSoon (.done cb f)
  else
    { l with
      futs := Function.update l.futs f { l.futs f with callbacks := (l.futs f).callbacks ++ [cb] } }

/-- Replace the record of task `t`. -/
def setTask (l : Loop β γ) (t : FutId) (r : TaskRec γ) : Loop β γ :=
  { l with tasks := Function.update l.tasks t (some r) }

/-- `cancel` of whatever object `f` is. A task passes the request on to the
future it waits for, which may be a task again; `fuel` bounds that chain. -/
def cancel (l : Loop β γ) : (fuel : Nat) → FutId → Loop β γ
  | 0, _ => l
  | fuel + 1, f =>
    match l.tasks f with
    | none => l.cancelFuture f
    | some r =>
      let l' := l.setTask f { r with mustCancel := true }
      match r.futWaiter with
      | none => l'
      | some g => l'.cancel fuel g

/-- `create_task`. -/
def createTask (l : Loop β γ) (coro : γ) : FutId × Loop β γ :=
  let (t, l') := l.createFuture
  (t, (l'.setTask t { coro }).callSoon (.step t))

/-- `Task._step` up to resuming the coroutine: the exception to throw into it. -/
def stepBegin (l : Loop β γ) (t : FutId) (exc : Option Exc) : Option (Option Exc × Loop β γ) :=
  match l.tasks t with
  | none => none
  | some r =>
    let exc' := if r.mustCancel then some .cancelledError else exc
    some (exc', l.setTask t { r with futWaiter := none, mustCancel := false })

/-- `Task._step` from the coroutine's answer on. -/
def stepEnd (l : Loop β γ) (t : FutId) (y : Yield β) : Option (Loop β γ) :=
  match y with
  | .returned v => l.setResult t v
  | .cancelled => some (l.cancelFuture t)
  | .raised e => l.setException t e
  | .future f =>
    match l.tasks t with
    | none => none
    | some r => some ((l.setTask t { r with futWaiter := some f }).addDoneCallback f (.wakeup t))
  | .bare => some (l.callSoon (.step t))

/-- Where the coroutine of task `t` stands. -/
def coroOf (l : Loop β γ) (t : FutId) : Option γ := (l.tasks t).map TaskRec.coro

/-- Move the coroutine of task `t`. -/
def setCoro (l : Loop β γ) (t : FutId) (c : γ) : Loop β γ :=
  match l.tasks t with
  | none => l
  | some r => l.setTask t { r with coro := c }

/-! ### What the operations do to the tasks -/

variable {l l' : Loop β γ} {t f : FutId}

theorem tasks_setTask {u : FutId} {r v : TaskRec γ} :
    (l.setTask t r).tasks u = some v ↔ u = t ∧ v = r ∨ u ≠ t ∧ l.tasks u = some v := by
  by_cases hu : u = t
  · subst hu
    simp [setTask, eq_comm]
  · simp [setTask, hu]

theorem ne_of_tasks {r : TaskRec γ} (hf : l.tasks f = none) (ht : l.tasks t = some r) : f ≠ t := by
  rintro rfl
  rw [hf] at ht
  cases ht

/-- What is between the loops before and after every part of a cancellation is between those
before and after the whole. -/
theorem cancel_induction {R : Loop β γ → Loop β γ → Prop} (refl : ∀ l, R l l)
    (trans : ∀ {l l' l''}, R l l' → R l' l'' → R l l'') (future : ∀ l f, R l (l.cancelFuture f))
    (task : ∀ l f r, l.tasks f = some r → R l (l.setTask f { r with mustCancel := true }))
    (fuel : Nat) (l : Loop β γ) (f : FutId) : R l (l.cancel fuel f) := by
  induction fuel generalizing l f with
  | zero => exact refl l
  | succ fuel ih =>
    unfold cancel
    cases ht : l.tasks f with
    | none => exact future l f
    | some r =>
      dsimp only
      split
      · exact task l f r ht
      · exact trans (task l f r ht) (ih _ _)

end Loop

end PythonOS.Asyncio
