import Mathlib.Data.List.Count
import PythonOS.Asyncio.Loop

/-!
# PythonOS.Asyncio.Sources

What is going to resume a task.

A task is resumed by a handle in the ready queue, its own `_step` or its
`_wakeup`, or will be once a future it is parked on is done. The loop's
operations move a task from one to the other and never double it: `Scheduled`
says that every task has at most one such source, that the running one has
none, and that nothing but tasks has any.
-/

namespace PythonOS.Asyncio

open Function List Option

/-- The handle resumes task `t`. -/
def Handle.resumes (t : FutId) : Handle → Bool
  | .step u => decide (u = t)
  | .done (.wakeup u) _ => decide (u = t)
  | _ => false

/-- The task that is running. -/
def Running.task? : Running → Option FutId
  | .task t => some t
  | _ => none

namespace Loop

variable {β γ : Type}

/-- Handles in the ready queue that resume task `t`. -/
def queued (l : Loop β γ) (t : FutId) : Nat := l.ready.countP (·.resumes t)

/-- Callbacks of the future `g` that resume task `t`. -/
def parked (l : Loop β γ) (t g : FutId) : Nat := (l.futs g).callbacks.count (.wakeup t)

/-- Nothing is going to resume task `t`. -/
def Unscheduled (l : Loop β γ) (t : FutId) : Prop := l.queued t = 0 ∧ ∀ g, l.parked t g = 0

/-- No task has two sources: two handles, a handle and a callback, or two callbacks. -/
def Once (l : Loop β γ) : Prop :=
  ∀ t g g', g ≠ g' → l.queued t + l.parked t g + l.parked t g' ≤ 1

/-- Tasks have at most one source each, the running task `u` has none, and only tasks have any. -/
structure Scheduled (l : Loop β γ) (u : Option FutId) : Prop where
  once : l.Once
  exist : ∀ t, l.tasks t = none → l.Unscheduled t
  tasksLt : ∀ t r, l.tasks t = some r → t < l.nextId
  idle : ∀ t, u = some t → l.Unscheduled t ∧ ∃ r, l.tasks t = some r

variable {l l' : Loop β γ} {u : Option FutId} {t f : FutId}

/-! ### What the operations do to the sources -/

theorem queued_callSoon (h : Handle) :
    (l.callSoon h).queued t = l.queued t + if h.resumes t then 1 else 0 := by
  simp [queued, callSoon, countP_append, countP_cons]

theorem queued_finish (st : FutState β) : (l.finish f st).queued t = l.queued t + l.parked t f := by
  unfold queued finish parked
  rw [countP_append, countP_map, List.count]
  congr 2
  funext cb
  cases cb with
  | wakeup u =>
    by_cases hu : u = t
    · simp [Handle.resumes, hu]
    · simp [Handle.resumes, hu, beq_eq_false_iff_ne.mpr (fun h => hu (Callback.wakeup.inj h))]
  | client n => rfl

theorem parked_finish (st : FutState β) (g : FutId) :
    (l.finish f st).parked t g = if g = f then 0 else l.parked t g := by
  unfold parked finish
  by_cases hg : g = f
  · subst hg
    simp
  · simp [hg]

theorem parked_createFuture (g : FutId) :
    l.createFuture.2.parked t g = if g = l.nextId then 0 else l.parked t g := by
  unfold parked createFuture
  by_cases hg : g = l.nextId
  · subst hg
    simp
  · simp [hg]

/-- The callback joins those of `f`, which is not done. -/
theorem parked_addDoneCallback (hf : l.done f = false) (cb : Callback) (g : FutId) :
    (l.addDoneCallback f cb).parked t g =
      l.parked t g + if g = f ∧ cb = .wakeup t then 1 else 0 := by
  unfold parked addDoneCallback
  rw [hf, if_neg Bool.false_ne_true]
  by_cases hg : g = f
  · subst hg
    dsimp only
    rw [update_self, count_append, count_singleton]
    simp
  · simp [hg]

theorem queued_addDoneCallback (hf : l.done f = false) (cb : Callback) :
    (l.addDoneCallback f cb).queued t = l.queued t := by
  unfold queued addDoneCallback
  rw [hf, if_neg Bool.false_ne_true]

theorem addDoneCallback_frame (hf : l.done f = false) (cb : Callback) :
    (l.addDoneCallback f cb).tasks = l.tasks ∧ (l.addDoneCallback f cb).nextId = l.nextId := by
  unfold addDoneCallback
  rw [hf]
  exact ⟨rfl, rfl⟩

/-! ### They keep `Scheduled` -/

namespace Scheduled

section

variable (h : l.Scheduled u)

include h

/-- A change that adds no source and leaves it alone which objects are tasks. -/
theorem of_sources (hqueued : ∀ t, l'.queued t = l.queued t)
    (hparked : ∀ t g, l'.parked t g ≤ l.parked t g) (hnext : l.nextId ≤ l'.nextId)
    (htasks : ∀ t, l'.tasks t = none ↔ l.tasks t = none) : l'.Scheduled u := by
  have hun : ∀ t, l.Unscheduled t → l'.Unscheduled t := by
    intro t ht
    exact ⟨(hqueued t).trans ht.1, fun g => Nat.le_zero.mp (ht.2 g ▸ hparked t g)⟩
  have hsome : ∀ t, (∃ r, l'.tasks t = some r) ↔ ∃ r, l.tasks t = some r := by
    intro t
    rw [← ne_none_iff_exists', ← ne_none_iff_exists', Ne, Ne, htasks]
  constructor
  · intro t g g' hne
    rw [hqueued]
    have hold := h.once t g g' hne
    have hg := hparked t g
    have hg' := hparked t g'
    omega
  · intro t ht
    exact hun t (h.exist t ((htasks t).mp ht))
  · intro t r hr
    obtain ⟨r', hr'⟩ := (hsome t).mp ⟨r, hr⟩
    exact Nat.lt_of_lt_of_le (h.tasksLt t r' hr') hnext
  · intro t ht
    obtain ⟨hu, hr⟩ := h.idle t ht
    exact ⟨hun t hu, (hsome t).mpr hr⟩

theorem fresh : l.tasks l.nextId = none := by
  cases ht : l.tasks l.nextId with
  | none => rfl
  | some r => exact absurd (h.tasksLt _ r ht) (Nat.lt_irrefl _)

theorem setTask {r : TaskRec γ} (ht : l.tasks t = some r) (r' : TaskRec γ) :
    (l.setTask t r').Scheduled u := by
  refine h.of_sources (fun _ => rfl) (fun _ _ => Nat.le_refl _) (Nat.le_refl _) fun v => ?_
  by_cases hv : v = t
  · subst hv
    simp [Loop.setTask, ht]
  · simp [Loop.setTask, update_of_ne hv]

theorem setCoro (t : FutId) (c : γ) : (l.setCoro t c).Scheduled u := by
  unfold Loop.setCoro
  cases ht : l.tasks t with
  | none => exact h
  | some r => exact h.setTask ht _

/-- A handle that resumes no task. -/
theorem callSoon {hd : Handle} (hno : ∀ t, hd.resumes t = false) : (l.callSoon hd).Scheduled u := by
  refine h.of_sources (fun t => ?_) (fun _ _ => Nat.le_refl _) (Nat.le_refl _) fun _ => .rfl
  rw [queued_callSoon, hno, if_neg Bool.false_ne_true]
  rfl

end

/-- The running task's own handle; it is then no longer running. -/
theorem callSoon_step (h : l.Scheduled (some t)) : (l.callSoon (.step t)).Scheduled none := by
  obtain ⟨⟨hq, hp⟩, r, hr⟩ := h.idle t rfl
  have hqueued : ∀ v, (l.callSoon (.step t)).queued v = l.queued v + if t = v then 1 else 0 := by
    intro v
    rw [queued_callSoon]
    simp [Handle.resumes]
  refine ⟨fun v g g' hne => ?_, fun v hv => ?_, h.tasksLt, fun v hv => by cases hv⟩
  · rw [hqueued]
    by_cases htv : t = v
    · subst htv
      have hpg : (l.callSoon (.step t)).parked t g = 0 := hp g
      have hpg' : (l.callSoon (.step t)).parked t g' = 0 := hp g'
      rw [if_pos rfl]
      omega
    · rw [if_neg htv]
      exact h.once v g g' hne
  · refine ⟨?_, (h.exist v hv).2⟩
    rw [hqueued, (h.exist v hv).1, if_neg (ne_of_tasks hv hr).symm]

section

variable (h : l.Scheduled u)

include h

theorem createFuture : l.createFuture.2.Scheduled u := by
  refine h.of_sources (fun _ => rfl) (fun t g => ?_) (Nat.le_succ _) fun _ => .rfl
  rw [parked_createFuture]
  split
  · exact Nat.zero_le _
  · exact Nat.le_refl _

/-- The sources on a future that gets done move to the ready queue. -/
theorem finish (f : FutId) (st : FutState β) : (l.finish f st).Scheduled u := by
  have hun : ∀ t, l.Unscheduled t → (l.finish f st).Unscheduled t := by
    intro t ht
    refine ⟨?_, fun g => ?_⟩
    · rw [queued_finish, ht.1, ht.2 f]
    · rw [parked_finish, ht.2 g, ite_self]
  refine ⟨fun t g g' hne => ?_, fun t ht => hun t (h.exist t ht), h.tasksLt,
    fun t ht => ⟨hun t (h.idle t ht).1, (h.idle t ht).2⟩⟩
  rw [queued_finish, parked_finish, parked_finish]
  have hgg' := h.once t g g' hne
  by_cases hg : g = f
  · subst hg
    rw [if_pos rfl, if_neg (Ne.symm hne)]
    omega
  · have hgf := h.once t g f hg
    rw [if_neg hg]
    by_cases hg' : g' = f
    · subst hg'
      rw [if_pos rfl]
      omega
    · have hgf' := h.once t g' f hg'
      rw [if_neg hg']
      omega

theorem cancelFuture (f : FutId) : (l.cancelFuture f).Scheduled u := by
  unfold Loop.cancelFuture
  split
  · exact h
  · exact h.finish f _

theorem cancel (fuel : Nat) (f : FutId) : (l.cancel fuel f).Scheduled u :=
  cancel_induction (R := fun l l' => l.Scheduled u → l'.Scheduled u) (fun _ h => h)
    (fun h1 h2 h => h2 (h1 h)) (fun _ f h => h.cancelFuture f) (fun _ _ _ ht h => h.setTask ht _)
    fuel l f h

/-- One of the client's callbacks. -/
theorem addDoneCallback (f : FutId) (n : Nat) : (l.addDoneCallback f (.client n)).Scheduled u := by
  cases hf : l.done f with
  | true =>
    unfold Loop.addDoneCallback
    rw [hf, if_pos rfl]
    exact h.callSoon fun _ => rfl
  | false =>
    obtain ⟨htasks, hnext⟩ := addDoneCallback_frame hf (.client n)
    refine h.of_sources (fun t => queued_addDoneCallback hf _) (fun t g => ?_)
      (Nat.le_of_eq hnext.symm) fun t => by rw [htasks]
    rw [parked_addDoneCallback hf, if_neg (fun hc => by cases hc.2)]
    exact Nat.le_refl _

end

/-- The running task parks on a future that is not done. -/
theorem addWakeup (h : l.Scheduled (some t)) (hf : l.done f = false) :
    (l.addDoneCallback f (.wakeup t)).Scheduled none := by
  obtain ⟨⟨hq, hp⟩, r, hr⟩ := h.idle t rfl
  obtain ⟨htasks, hnext⟩ := addDoneCallback_frame hf (.wakeup t)
  refine ⟨fun v g g' hne => ?_, fun v hv => ?_, fun v s hs => ?_, fun v hv => by cases hv⟩
  · rw [queued_addDoneCallback hf, parked_addDoneCallback hf, parked_addDoneCallback hf]
    by_cases htv : t = v
    · subst htv
      rw [hq, hp, hp]
      by_cases hg : g = f
      · have hg' : g' ≠ f := fun hg' => hne (hg.trans hg'.symm)
        simp [hg, hg']
      · simp only [hg, false_and, if_false]
        split <;> omega
    · have hcb : ∀ g, ¬ (g = f ∧ Callback.wakeup t = Callback.wakeup v) :=
        fun g hc => htv (Callback.wakeup.inj hc.2)
      rw [if_neg (hcb g), if_neg (hcb g')]
      exact h.once v g g' hne
  · rw [htasks] at hv
    refine ⟨?_, fun g => ?_⟩
    · rw [queued_addDoneCallback hf]
      exact (h.exist v hv).1
    · rw [parked_addDoneCallback hf, (h.exist v hv).2 g,
        if_neg fun hc => ne_of_tasks hv hr (Callback.wakeup.inj hc.2).symm]
  · rw [htasks] at hs
    rw [hnext]
    exact h.tasksLt v s hs

theorem createTask (h : l.Scheduled u) (c : γ) : (l.createTask c).2.Scheduled u := by
  have hnone := h.fresh
  have hfresh : ∀ v, u = some v → v ≠ l.nextId := by
    intro v hv
    obtain ⟨-, r, hr⟩ := h.idle v hv
    exact (ne_of_tasks hnone hr).symm
  have h1 : l.createFuture.2.Scheduled u := h.createFuture
  -- the loop with the new task's record
  set l2 : Loop β γ := l.createFuture.2.setTask l.nextId { coro := c } with hl2
  have hun : ∀ v, l.createFuture.2.Unscheduled v → l2.Unscheduled v := fun _ hv => hv
  have hnew : l2.Unscheduled l.nextId := hun _ (h1.exist _ hnone)
  have h2 : l2.Scheduled (some l.nextId) := by
    refine ⟨h1.once, fun v hv => ?_, fun v r hr => ?_, fun v hv => ?_⟩
    · by_cases hvn : v = l.nextId
      · subst hvn
        simp [hl2, Loop.setTask] at hv
      · refine hun v (h1.exist v ?_)
        simpa [hl2, Loop.setTask, update_of_ne hvn] using hv
    · rcases tasks_setTask.mp hr with ⟨rfl, -⟩ | ⟨-, hr⟩
      · exact Nat.lt_succ_self _
      · exact h1.tasksLt v r hr
    · cases hv
      exact ⟨hnew, { coro := c }, by simp [hl2, Loop.setTask]⟩
  have h3 := h2.callSoon_step
  refine ⟨h3.once, h3.exist, h3.tasksLt, fun v hv => ?_⟩
  obtain ⟨hv1, r, hr⟩ := h1.idle v hv
  have hne := hfresh v hv
  refine ⟨⟨?_, (hun v hv1).2⟩, r, ?_⟩
  · show (l2.callSoon (.step l.nextId)).queued v = 0
    rw [queued_callSoon, (hun v hv1).1]
    simp [Handle.resumes, Ne.symm hne]
  · exact tasks_setTask.mpr (.inr ⟨hne, hr⟩)

section

variable {hd : Handle} {rest : List Handle} (h : l.Scheduled none)
  (hready : l.ready = hd :: rest)

include h hready

/-- The loop pops a handle that resumes no task. -/
theorem pop (hno : ∀ t, hd.resumes t = false) : { l with ready := rest }.Scheduled none := by
  refine h.of_sources (fun t => ?_) (fun _ _ => Nat.le_refl _) (Nat.le_refl _) fun _ => .rfl
  unfold queued
  rw [hready, countP_cons_of_neg (by simp [hno])]

/-- The loop pops a handle of task `t`, which has no other source then. -/
theorem pop_task (ht : hd.resumes t = true) :
    { l with ready := rest }.Scheduled (some t) := by
  have hqueued : ∀ v, l.queued v = { l with ready := rest }.queued v +
      if hd.resumes v then 1 else 0 := by
    intro v
    unfold queued
    rw [hready, countP_cons]
  have hparked : ∀ v g, { l with ready := rest }.parked v g = l.parked v g := fun _ _ => rfl
  refine ⟨fun v g g' hne => ?_, fun v hv => ?_, h.tasksLt, fun v hv => ?_⟩
  · have hold := h.once v g g' hne
    have hq := hqueued v
    rw [hparked, hparked]
    omega
  · have hq := hqueued v
    rw [(h.exist v hv).1] at hq
    exact ⟨by omega, (h.exist v hv).2⟩
  · cases hv
    have hq := hqueued t
    rw [ht, if_pos rfl] at hq
    refine ⟨⟨?_, fun g => ?_⟩, ?_⟩
    · have hold := h.once t 0 1 (by decide)
      omega
    · have hold := h.once t g (g + 1) (Nat.ne_of_lt (Nat.lt_succ_self g))
      rw [hparked]
      omega
    · cases htask : l.tasks t with
      | none =>
        have hzero := (h.exist t htask).1
        omega
      | some r => exact ⟨r, rfl⟩

end

end Scheduled

end Loop

end PythonOS.Asyncio
