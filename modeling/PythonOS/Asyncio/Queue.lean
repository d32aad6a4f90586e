import PythonOS.Asyncio.Waiting

/-!
# PythonOS.Asyncio.Queue

`asyncio.Queue` (`queues.py`) as a primitive that tasks wait on.

The state keeps what has happened beside the queue itself: the items of the
puts that went through, the items the gets returned, and the exceptions
`put_nowait` and `get_nowait` raised inside `put` and `get`. `queue_faithful`:
in every run what was put is what was got followed by what is in the queue, a
positive `maxsize` is never exceeded, and the last of the three is empty.
-/

namespace PythonOS.Asyncio

open Lib List

/-- The exceptions of `queues.py`. -/
inductive QueueError
  | queueEmpty | queueFull
  deriving Repr, DecidableEq

/-- `Queue` without its two lists of futures. -/
structure Queue (α : Type) where
  maxsize : Int := 0
  items : List α := []
  deriving Repr, DecidableEq

namespace Queue

variable {α : Type}

def empty (q : Queue α) : Bool := q.items.isEmpty

def full (q : Queue α) : Bool := decide (0 < q.maxsize) && decide (q.maxsize ≤ q.items.length)

/-- `put_nowait` up to `_wakeup_getter`. -/
def putNowait (q : Queue α) (item : α) : Except QueueError (Queue α) :=
  if q.full then .error .queueFull else .ok { q with items := q.items ++ [item] }

/-- `get_nowait`; between the `pop` and the `return` it calls `_wakeup_putter`. -/
def getNowait (q : Queue α) : Except QueueError (α × Queue α) :=
  match q.items with
  | [] => .error .queueEmpty
  | item :: items => .ok (item, { q with items })

/-- A queue and what has happened at it. -/
structure History (α : Type) where
  queue : Queue α
  put : List α := []
  got : List α := []
  raised : List QueueError := []
  deriving Repr, DecidableEq

/-- `put` and `get`. -/
inductive Blocking (α : Type)
  | put (item : α)
  | get
  deriving Repr, DecidableEq

/-- `put_nowait` and `get_nowait`. -/
inductive Direct (α : Type)
  | putNowait (item : α)
  | getNowait
  deriving Repr, DecidableEq

/-- `_getters` and `_putters`. -/
inductive Side
  | getters | putters
  deriving Repr, DecidableEq

namespace History

/-- `put_nowait` with what it leaves in the history; `caught` says what an exception leaves. -/
def putNowait (h : History α) (item : α) (caught : QueueError → List QueueError) :
    History α × Option Side :=
  match h.queue.putNowait item with
  | .ok queue => ({ h with queue, put := h.put ++ [item] }, some .getters)
  | .error e => ({ h with raised := h.raised ++ caught e }, none)

/-- The same for `get_nowait`. -/
def getNowait (h : History α) (caught : QueueError → List QueueError) :
    History α × Option Side :=
  match h.queue.getNowait with
  | .ok (item, queue) => ({ h with queue, got := h.got ++ [item] }, some .putters)
  | .error e => ({ h with raised := h.raised ++ caught e }, none)

end History

/-- `_wakeup_getter` and `_wakeup_putter`: futures leave the list until one was not done. -/
def pick (done : FutId → Bool) (futs : List FutId) : Option FutId × List FutId :=
  match futs.dropWhile done with
  | [] => (none, [])
  | f :: rest => (some f, rest)

/-- `Queue(maxsize)`. An exception `put_nowait` raises to its caller is the caller's; one that it
raises inside `put` is kept in the history. -/
def primitive (α : Type) (maxsize : Int) : Primitive (History α) (Blocking α) (Direct α) Side where
  init := { queue := { maxsize } }
  queue
    | .put _ => .putters
    | .get => .getters
  blocked
    | .put _, h => h.queue.full
    | .get, h => h.queue.empty
  again := true
  act
    | .put item, h => h.putNowait item fun e => [e]
    | .get, h => h.getNowait fun e => [e]
  call
    | .putNowait item, h => h.putNowait item fun _ => []
    | .getNowait, h => h.getNowait fun _ => []
  pick := pick

/-- What was put is what was got and then what is there; the bound holds; `put` and `get` have
raised neither exception. -/
structure History.Faithful (maxsize : Int) (h : History α) : Prop where
  maxsize_eq : h.queue.maxsize = maxsize
  order : h.put = h.got ++ h.queue.items
  bound : 0 < maxsize → h.queue.items.length ≤ maxsize
  raised : h.raised = []

namespace History.Faithful

variable {maxsize : Int} {h : History α} {caught : QueueError → List QueueError}

/-- `put_nowait`, of a queue that is not full or with its exception passed on. -/
theorem putNowait (hf : h.Faithful maxsize) (item : α)
    (hraise : h.queue.full = true → caught .queueFull = []) :
    (h.putNowait item caught).1.Faithful maxsize := by
  unfold History.putNowait Queue.putNowait
  by_cases hfull : h.queue.full = true
  · rw [if_pos hfull]
    refine ⟨hf.maxsize_eq, hf.order, hf.bound, ?_⟩
    show h.raised ++ caught .queueFull = []
    rw [hf.raised, hraise hfull]
    rfl
  · rw [if_neg hfull]
    refine ⟨hf.maxsize_eq, ?_, fun hpos => ?_, hf.raised⟩
    · rw [hf.order, append_assoc]
    · have hroom : ¬ (0 < maxsize ∧ maxsize ≤ h.queue.items.length) := by
        intro hc
        refine hfull ?_
        unfold full
        rw [hf.maxsize_eq, decide_eq_true hc.1, decide_eq_true hc.2]
        rfl
      rw [length_append, length_singleton]
      omega

/-- `get_nowait`, of a queue that is not empty or with its exception passed on. -/
theorem getNowait (hf : h.Faithful maxsize)
    (hraise : h.queue.empty = true → caught .queueEmpty = []) :
    (h.getNowait caught).1.Faithful maxsize := by
  unfold History.getNowait Queue.getNowait
  cases hitems : h.queue.items with
  | nil =>
    refine ⟨hf.maxsize_eq, hf.order, hf.bound, ?_⟩
    show h.raised ++ caught .queueEmpty = []
    rw [hf.raised, hraise (by simp [empty, hitems])]
    rfl
  | cons item items =>
    refine ⟨hf.maxsize_eq, ?_, fun hpos => ?_, hf.raised⟩
    · rw [hf.order, hitems, append_assoc]
      rfl
    · show (items.length : Int) ≤ maxsize
      have hbound := hf.bound hpos
      rw [hitems, length_cons] at hbound
      omega

end History.Faithful

/-- In every run of tasks and callbacks on a queue, items come out in the order they went in and
none is lost or got twice, a positive `maxsize` is kept, and neither `put` raises `QueueFull` nor
`get` `QueueEmpty`. -/
theorem queue_faithful (maxsize : Int) (events : List (Event (Blocking α) (Direct α)))
    (w : World (History α) (Blocking α) Side)
    (hrun : exec (World.step (primitive α maxsize)) { state := (primitive α maxsize).init } events =
      some w) :
    w.state.put = w.state.got ++ w.state.queue.items ∧
      (0 < maxsize → w.state.queue.items.length ≤ maxsize) ∧ w.state.raised = [] := by
  have hfaithful : w.state.Faithful maxsize := by
    refine exec_invariant (fun w => w.state.Faithful maxsize) ?_ ?_ hrun
    · intro w e w' hw hstep
      refine World.step_state rfl ?_ ?_ hw hstep
      · intro o h hfree hf
        cases o with
        | put item => exact hf.putNowait item fun hfull => absurd (hfree.symm.trans hfull) (by simp)
        | get => exact hf.getNowait fun hempty => absurd (hfree.symm.trans hempty) (by simp)
      · intro n h hf
        cases n with
        | putNowait item => exact hf.putNowait item fun _ => rfl
        | getNowait => exact hf.getNowait fun _ => rfl
    · exact ⟨rfl, rfl, fun hpos => Int.le_of_lt hpos, rfl⟩
  exact ⟨hfaithful.order, hfaithful.bound, hfaithful.raised⟩

/-- A consumer waits, a producer fills a queue of one and waits, and both go on. -/
def exchange : List (Event (Blocking Nat) (Direct Nat)) :=
  [.createTask, .createTask, .runReady, .block .get, .runReady, .block (.put 1), .block (.put 2),
    .runReady, .yieldNone, .runReady]

theorem queue_faithful_exchange : ∃ w : World (History Nat) (Blocking Nat) Side,
    exec (World.step (primitive Nat 1)) { state := (primitive Nat 1).init } exchange = some w ∧
      w.state.put = [1, 2] ∧ w.state.got = [1] ∧
      w.state.put = w.state.got ++ w.state.queue.items := by
  refine ⟨_, rfl, rfl, rfl, ?_⟩
  exact (queue_faithful 1 exchange _ rfl).1

end Queue

end PythonOS.Asyncio
