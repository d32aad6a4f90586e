import PythonOS.Asyncio.Sources
import PythonOS.Asyncio.Wakeups

/-!
# PythonOS.Asyncio.Ledger

`release`, `put_nowait` and `get_nowait` resolve the future of one waiter and
leave the resource free until that waiter's task is resumed. Until then the
handle in the ready queue stands for it: `Ledger` says that as long as anybody
waits, no more of the resource is free than there are handles of woken waiters.

A woken task that is resumed with `CancelledError` leaves without taking the
resource and without waking anybody in its place: `cancelled_after_wakeup` is
such a run for each of the three primitives. `wakeups_not_lost` is the property
for the runs in which no woken waiter is resumed that way.
-/

namespace PythonOS.Asyncio

open Lib Function List Option

namespace World

variable {σ ω ν κ : Type} [DecidableEq κ] {P : Primitive σ ω ν κ}
variable {l l' l'' : Loop Unit (Stand ω)} {t f : FutId} {o : ω} {k : κ}

/-! ### Waiting tasks and their handles -/

/-- Somebody waits in the list `k` who has not been woken. -/
def PendingIn (P : Primitive σ ω ν κ) (l : Loop Unit (Stand ω)) (k : κ) : Prop :=
  ∃ t o f, Waits l t o f ∧ P.queue o = k ∧ l.done f = false

/-- How many woken waiters of the list `k` are about to be resumed. -/
def woken (P : Primitive σ ω ν κ) (l : Loop Unit (Stand ω)) (k : κ) : Nat :=
  l.ready.countP (wokenBy P l k)

theorem wokenBy_iff {h : Handle} : wokenBy P l k h = true ↔
    ∃ t o f, h = .done (.wakeup t) f ∧ Waits l t o f ∧ P.queue o = k ∧
      (l.futs f).state = .result () := by
  constructor
  · intro hw
    unfold wokenBy at hw
    split at hw
    · next t f =>
      split at hw
      · next o g hcoro =>
        obtain ⟨hk, rfl, hres⟩ := of_decide_eq_true hw
        obtain ⟨r, hr, hc⟩ := map_eq_some_iff.mp hcoro
        exact ⟨t, o, g, rfl, ⟨r, hr, hc⟩, hk, hres⟩
      · cases hw
    · cases hw
  · intro hw
    obtain ⟨t, o, f, rfl, ⟨r, hr, hc⟩, hk, hres⟩ := hw
    have hcoro : l.coroOf t = some (.waiting o f) := map_eq_some_iff.mpr ⟨r, hr, hc⟩
    simp [wokenBy, hcoro, hk, hres]

theorem Waits.inj {o' : ω} {f' : FutId} (h : Waits l t o f) (h' : Waits l t o' f') :
    o = o' ∧ f = f' := by
  obtain ⟨r, hr, hc⟩ := h
  obtain ⟨r', hr', hc'⟩ := h'
  rw [hr] at hr'
  cases hr'
  rw [hc] at hc'
  cases hc'
  exact ⟨rfl, rfl⟩

theorem Eager.waits (h : Eager l t o f) : Waits l t o f := by
  obtain ⟨r, hr, hc, -⟩ := h
  exact ⟨r, hr, hc⟩

/-- Woken waiters stay so when the ready queue grows and what makes them so stays. -/
theorem woken_le {new : List Handle} (hready : l'.ready = l.ready ++ new)
    (h : ∀ t o f, Waits l t o f → (l.futs f).state = .result () →
      Waits l' t o f ∧ (l'.futs f).state = .result ()) (k : κ) :
    woken P l k + new.countP (wokenBy P l' k) ≤ woken P l' k := by
  unfold woken
  rw [hready, countP_append]
  refine Nat.add_le_add_right (countP_mono_left ?_) _
  intro hd _ hw
  obtain ⟨t, o, f, rfl, hwaits, hk, hres⟩ := wokenBy_iff.mp hw
  obtain ⟨hwaits', hres'⟩ := h t o f hwaits hres
  exact wokenBy_iff.mpr ⟨t, o, f, rfl, hwaits', hk, hres'⟩

/-- Each waiting task has its future; pending, with the task's callback and in its list, or done,
with the task's handle in the ready queue. What stands in the lists and is pending is somebody's.
In a list somebody waits in, no more can go on than have been woken, up to one in the list
`slack`. -/
structure Ledger (P : Primitive σ ω ν κ) (atMost : κ → σ → Nat → Prop) (w : World σ ω κ)
    (slack : Option κ) : Prop where
  mineFut : ∀ f, w.mine f = true → f < w.loop.nextId ∧ w.loop.tasks f = none
  listedMine : ∀ k, ∀ f ∈ w.waiters k, w.mine f = true
  waits : ∀ t o f, Waits w.loop t o f → w.mine f = true ∧
    (w.loop.done f = false ∧ (w.loop.futs f).callbacks = [.wakeup t] ∧ f ∈ w.waiters (P.queue o) ∨
      w.loop.done f = true ∧ Handle.done (.wakeup t) f ∈ w.loop.ready)
  listed : ∀ k, ∀ f ∈ w.waiters k, w.loop.done f = false →
    ∃ t o, Waits w.loop t o f ∧ P.queue o = k
  outside : ∀ t, w.running = .task t → ∀ o f, ¬ Waits w.loop t o f
  credit : ∀ k, PendingIn P w.loop k →
    atMost k w.state (woken P w.loop k + if slack = some k then 1 else 0)

/-! ### Operations of the loop that leave the primitive alone -/

/-- From `l` to `l'` waiting tasks stay where they are and may be cancelled, futures of the
primitive stay as they are or are cancelled, and handles are only added. -/
structure Calm (mine : FutId → Bool) (l l' : Loop Unit (Stand ω)) : Prop where
  nextId : l.nextId ≤ l'.nextId
  waits : ∀ t o f, Waits l' t o f ↔ Waits l t o f
  eager : ∀ t o f, Eager l' t o f → Eager l t o f
  noTask : ∀ f, f < l.nextId → l.tasks f = none → l'.tasks f = none
  futs : ∀ f, mine f = true → l'.futs f = l.futs f ∨
    l.done f = false ∧ (l'.futs f).state = .cancelled ∧
      ∀ cb ∈ (l.futs f).callbacks, Handle.done cb f ∈ l'.ready
  ready : ∃ new, l'.ready = l.ready ++ new

theorem done_eq_of_futs {g : FutId} (h : l'.futs g = l.futs g) : l'.done g = l.done g := by
  unfold Loop.done
  rw [h]

theorem done_of_state {g : FutId} {st : FutState Unit} (h : (l.futs g).state = st)
    (hst : st ≠ .pending) : l.done g = true := by
  unfold Loop.done
  rw [h]
  cases st with
  | pending => exact absurd rfl hst
  | cancelled => rfl
  | result v => rfl
  | exception e => rfl

theorem ne_of_true_of_false {p : FutId → Bool} {g : FutId} (hg : p g = true) (hf : p f = false) :
    g ≠ f := by
  rintro rfl
  cases hg.symm.trans hf

namespace Calm

variable {mine : FutId → Bool}

theorem refl (l : Loop Unit (Stand ω)) : Calm mine l l :=
  ⟨Nat.le_refl _, fun _ _ _ => .rfl, fun _ _ _ h => h, fun _ _ h => h, fun _ _ => .inl rfl,
    [], (append_nil _).symm⟩

theorem trans (h1 : Calm mine l l') (h2 : Calm mine l' l'') : Calm mine l l'' where
  nextId := Nat.le_trans h1.nextId h2.nextId
  waits t o f := (h2.waits t o f).trans (h1.waits t o f)
  eager t o f h := h1.eager t o f (h2.eager t o f h)
  noTask f hlt h := h2.noTask f (Nat.lt_of_lt_of_le hlt h1.nextId) (h1.noTask f hlt h)
  futs f hf := by
    obtain ⟨new, hnew⟩ := h2.ready
    rcases h1.futs f hf with heq | ⟨hpend, hcan, hcbs⟩
    · rcases h2.futs f hf with heq' | ⟨hpend', hcan', hcbs'⟩
      · exact .inl (heq'.trans heq)
      · rw [heq] at hcbs'
        rw [done_eq_of_futs heq] at hpend'
        exact .inr ⟨hpend', hcan', hcbs'⟩
    · rcases h2.futs f hf with heq' | ⟨hpend', -, -⟩
      · refine .inr ⟨hpend, by rw [heq']; exact hcan, fun cb hcb => ?_⟩
        rw [hnew]
        exact mem_append_left _ (hcbs cb hcb)
      · rw [done_of_state hcan (by simp)] at hpend'
        cases hpend'
  ready := by
    obtain ⟨new, hnew⟩ := h1.ready
    obtain ⟨new', hnew'⟩ := h2.ready
    exact ⟨new ++ new', by rw [hnew', hnew, append_assoc]⟩

/-- A change to the ready queue and to futures that are not the primitive's. -/
theorem of_futs (hnext : l'.nextId = l.nextId) (htasks : l'.tasks = l.tasks)
    (hfuts : ∀ f, mine f = true → l'.futs f = l.futs f)
    (hready : ∃ new, l'.ready = l.ready ++ new) :
    Calm mine l l' where
  nextId := Nat.le_of_eq hnext.symm
  waits t o f := by
    unfold Waits
    rw [htasks]
  eager t o f h := by
    unfold Eager at h ⊢
    rwa [htasks] at h
  noTask f _ h := by
    rw [htasks]
    exact h
  futs f hf := .inl (hfuts f hf)
  ready := hready

theorem callSoon (h : Handle) : Calm mine l (l.callSoon h) :=
  of_futs rfl rfl (fun _ _ => rfl) ⟨[h], rfl⟩

/-- A future that is not the primitive's, or a cancellation of a pending one. -/
theorem finish {st : FutState Unit}
    (h : mine f = false ∨ l.done f = false ∧ st = .cancelled) : Calm mine l (l.finish f st) where
  nextId := Nat.le_refl _
  waits _ _ _ := .rfl
  eager _ _ _ h := h
  noTask _ _ h := h
  futs g hg := by
    by_cases hgf : g = f
    · subst hgf
      rcases h with h | ⟨hpend, rfl⟩
      · rw [h] at hg
        cases hg
      · refine .inr ⟨hpend, by simp [Loop.finish], fun cb hcb => ?_⟩
        exact mem_append_right _ (mem_map.mpr ⟨cb, hcb, rfl⟩)
    · exact .inl (update_of_ne hgf ..)
  ready := ⟨_, rfl⟩

theorem cancelFuture (f : FutId) : Calm mine l (l.cancelFuture f) := by
  unfold Loop.cancelFuture
  cases hf : l.done f with
  | true => exact refl l
  | false => exact finish (.inr ⟨hf, rfl⟩)

theorem createFuture (hfresh : mine l.nextId = false) : Calm mine l l.createFuture.2 where
  nextId := Nat.le_succ _
  waits _ _ _ := .rfl
  eager _ _ _ h := h
  noTask _ _ h := h
  futs _ hg := .inl (update_of_ne (ne_of_true_of_false hg hfresh) ..)
  ready := ⟨[], (append_nil _).symm⟩

/-- A callback on a future that is not the primitive's. -/
theorem addDoneCallback (hf : mine f = false) (cb : Callback) :
    Calm mine l (l.addDoneCallback f cb) := by
  unfold Loop.addDoneCallback
  split
  · exact callSoon _
  · exact of_futs rfl rfl (fun _ hg => update_of_ne (ne_of_true_of_false hg hf) ..)
      ⟨[], (append_nil _).symm⟩

/-- A change to the record of a task that stays where it is, or moves outside the primitive's
code. -/
theorem setTask {r r' : TaskRec (Stand ω)} (ht : l.tasks t = some r)
    (hc : ∀ o f, r'.coro = .waiting o f ↔ r.coro = .waiting o f)
    (hm : ∀ o f, r'.coro = .waiting o f → r'.mustCancel = false → r.mustCancel = false) :
    Calm mine l (l.setTask t r') where
  nextId := Nat.le_refl _
  waits u o f := by
    unfold Waits Loop.setTask
    by_cases hu : u = t
    · subst hu
      simp [ht, hc]
    · simp [update_of_ne hu]
  eager u o f h := by
    obtain ⟨v, hv, hcoro, hmust⟩ := h
    rcases Loop.tasks_setTask.mp hv with ⟨rfl, rfl⟩ | ⟨-, hv⟩
    · exact ⟨r, ht, (hc o f).mp hcoro, hm o f hcoro hmust⟩
    · exact ⟨v, hv, hcoro, hmust⟩
  noTask _ _ h := (update_of_ne (Loop.ne_of_tasks h ht) ..).trans h
  futs _ _ := .inl rfl
  ready := ⟨[], (append_nil _).symm⟩

theorem cancel (fuel : Nat) (f : FutId) : Calm mine l (l.cancel fuel f) :=
  Loop.cancel_induction refl trans (fun _ => cancelFuture)
    (fun _ _ _ ht => setTask ht (fun _ _ => .rfl) fun _ _ _ h => by cases h) fuel l f

theorem createTask (hnone : l.tasks l.nextId = none) (hfresh : mine l.nextId = false) :
    Calm mine l (l.createTask .outside).2 where
  nextId := Nat.le_succ _
  waits u o f := by
    unfold Waits
    by_cases hu : u = l.nextId
    · subst hu
      simp [Loop.createTask, Loop.callSoon, Loop.setTask, Loop.createFuture, hnone]
    · simp [Loop.createTask, Loop.callSoon, Loop.setTask, Loop.createFuture, update_of_ne hu]
  eager u o f h := by
    obtain ⟨v, hv, hcoro, hmust⟩ := h
    rcases Loop.tasks_setTask.mp hv with ⟨-, rfl⟩ | ⟨-, hv⟩
    · cases hcoro
    · exact ⟨v, hv, hcoro, hmust⟩
  noTask g hlt h := by
    have hne : g ≠ l.nextId := Nat.ne_of_lt hlt
    simpa [Loop.createTask, Loop.callSoon, Loop.setTask, Loop.createFuture,
      update_of_ne hne] using h
  futs _ hg := .inl (update_of_ne (ne_of_true_of_false hg hfresh) ..)
  ready := ⟨_, rfl⟩

end Calm

variable {atMost : κ → σ → Nat → Prop} {w w' : World σ ω κ} {slack : Option κ}

/-- The ledger stays balanced under what leaves the primitive alone. -/
theorem Ledger.of_calm [hP : Lawful P atMost] (h : Ledger P atMost w slack)
    (hcalm : Calm w.mine w.loop w'.loop) (hstate : w'.state = w.state)
    (hwaiters : w'.waiters = w.waiters) (hmine : w'.mine = w.mine)
    (houtside : ∀ t, w'.running = .task t → ∀ o f, ¬ Waits w.loop t o f) :
    Ledger P atMost w' slack := by
  obtain ⟨new, hnew⟩ := hcalm.ready
  have hpend : ∀ f, w.mine f = true → w'.loop.done f = false →
      w'.loop.futs f = w.loop.futs f ∧ w.loop.done f = false := by
    intro f hf hd
    rcases hcalm.futs f hf with heq | ⟨-, hcan, -⟩
    · exact ⟨heq, (done_eq_of_futs heq).symm.trans hd⟩
    · rw [done_of_state hcan (by simp)] at hd
      cases hd
  constructor
  · intro f hf
    rw [hmine] at hf
    obtain ⟨hlt, hnone⟩ := h.mineFut f hf
    exact ⟨Nat.lt_of_lt_of_le hlt hcalm.nextId, hcalm.noTask f hlt hnone⟩
  · intro k f hf
    rw [hwaiters] at hf
    rw [hmine]
    exact h.listedMine k f hf
  · intro t o f hw
    obtain ⟨hf, hcase⟩ := h.waits t o f ((hcalm.waits t o f).mp hw)
    refine ⟨by rw [hmine]; exact hf, ?_⟩
    rw [hwaiters, hnew]
    rcases hcase with ⟨hd, hcbs, hmem⟩ | ⟨hd, hmem⟩
    · rcases hcalm.futs f hf with heq | ⟨-, hcan, hmoved⟩
      · refine .inl ⟨(done_eq_of_futs heq).trans hd, ?_, hmem⟩
        rw [heq]
        exact hcbs
      · refine .inr ⟨done_of_state hcan (by simp), ?_⟩
        rw [← hnew]
        refine hmoved _ ?_
        rw [hcbs]
        exact mem_singleton_self _
    · rcases hcalm.futs f hf with heq | ⟨hd', -, -⟩
      · exact .inr ⟨(done_eq_of_futs heq).trans hd, mem_append_left _ hmem⟩
      · rw [hd] at hd'
        cases hd'
  · intro k f hf hd
    rw [hwaiters] at hf
    obtain ⟨t, o, hw, hk⟩ := h.listed k f hf (hpend f (h.listedMine k f hf) hd).2
    exact ⟨t, o, (hcalm.waits t o f).mpr hw, hk⟩
  · intro t ht o f hw
    exact houtside t ht o f ((hcalm.waits t o f).mp hw)
  · intro k hk
    rw [hstate]
    have hk' : PendingIn P w.loop k := by
      obtain ⟨t, o, f, hw, hq, hd⟩ := hk
      have hw' := (hcalm.waits t o f).mp hw
      exact ⟨t, o, f, hw', hq, (hpend f (h.waits t o f hw').1 hd).2⟩
    have hle := Nat.le_of_add_right_le (woken_le (P := P) hnew ?_ k)
    · exact hP.mono (Nat.add_le_add_right hle _) (h.credit k hk')
    intro t o f hw hres
    refine ⟨(hcalm.waits t o f).mpr hw, ?_⟩
    rcases hcalm.futs f (h.waits t o f hw).1 with heq | ⟨hd, -, -⟩
    · rw [heq]
      exact hres
    · rw [done_of_state hres (by simp)] at hd
      cases hd

theorem Ledger.credit_none (h : Ledger P atMost w none) (hk : PendingIn P w.loop k) :
    atMost k w.state (woken P w.loop k) := by
  have hcredit := h.credit k hk
  exact hcredit

/-! ### Taking a handle out of the ready queue -/

variable {rest : List Handle} {hd : Handle}

/-- A handle that resumes no waiting task. -/
theorem Ledger.pop (h : Ledger P atMost w slack) (hready : w.loop.ready = hd :: rest)
    (hother : ∀ t o f, Waits w.loop t o f → hd ≠ .done (.wakeup t) f) :
    Ledger P atMost { w with loop := { w.loop with ready := rest } } slack := by
  refine ⟨h.mineFut, h.listedMine, fun t o f hw => ?_, h.listed, h.outside, fun k hk => ?_⟩
  · obtain ⟨hf, hcase⟩ := h.waits t o f hw
    refine ⟨hf, hcase.imp_right fun hc => ⟨hc.1, ?_⟩⟩
    have hmem := hc.2
    rw [hready] at hmem
    exact (mem_cons.mp hmem).resolve_left fun heq => hother t o f hw heq.symm
  · have hcount : woken P w.loop k = woken P { w.loop with ready := rest } k := by
      have hno : ¬ wokenBy P w.loop k hd = true := by
        intro hw
        obtain ⟨t, o, f, heq, hwaits, -⟩ := wokenBy_iff.mp hw
        exact hother t o f hwaits heq
      unfold woken
      rw [hready, countP_cons_of_neg hno]
      rfl
    have hcredit := h.credit k hk
    rw [hcount] at hcredit
    exact hcredit

/-- The only handle that resumes a waiting task is the one of its future, which is done. -/
theorem Ledger.waiting_handle (h : Ledger P atMost w slack) {u : Option FutId}
    (hs : w.loop.Scheduled u) (hw : Waits w.loop t o f)
    (hready : w.loop.ready = hd :: rest) (hres : hd.resumes t = true) :
    hd = .done (.wakeup t) f ∧ w.loop.done f = true ∧ ∀ hd' ∈ rest, hd'.resumes t = false := by
  have hqueued : w.loop.queued t = rest.countP (·.resumes t) + 1 := by
    unfold Loop.queued
    rw [hready, countP_cons_of_pos hres]
  have honce := hs.once t f (f + 1) (Nat.ne_of_lt (Nat.lt_succ_self f))
  have hzero : rest.countP (·.resumes t) = 0 := by omega
  have hrest : ∀ hd' ∈ rest, hd'.resumes t = false := by
    intro hd' hmem
    simpa using countP_eq_zero.mp hzero hd' hmem
  obtain ⟨-, ⟨-, hcbs, -⟩ | ⟨hdone, hmem⟩⟩ := h.waits t o f hw
  · have hparked : w.loop.parked t f = 1 := by
      unfold Loop.parked
      rw [hcbs]
      exact count_singleton_self
    omega
  · rw [hready] at hmem
    rcases mem_cons.mp hmem with heq | hmem
    · exact ⟨heq.symm, hdone, hrest⟩
    · have hfalse := hrest _ hmem
      simp [Handle.resumes] at hfalse

/-- The world in which task `t` has been given control outside the primitive's code. -/
def left (w : World σ ω κ) (t : FutId) (r : TaskRec (Stand ω)) (rest : List Handle) :
    World σ ω κ :=
  { w with
    loop := { w.loop with ready := rest }.setTask t
      { r with coro := .outside, futWaiter := none, mustCancel := false }
    running := .task t }

variable {r : TaskRec (Stand ω)}

/-- A waiting task leaves: if it had been woken, its share is now the slack of its list. -/
theorem Ledger.leave [hP : Lawful P atMost] (h : Ledger P atMost w none)
    (hs : w.loop.Scheduled none)
    (ht : w.loop.tasks t = some r) (hc : r.coro = .waiting o f)
    (hready : w.loop.ready = hd :: rest)
    (hres : hd.resumes t = true)
    (hslack : (w.loop.futs f).state = .result () → slack = some (P.queue o)) :
    Ledger P atMost (w.left t r rest) slack := by
  have hwaits : Waits w.loop t o f := ⟨r, ht, hc⟩
  obtain ⟨rfl, hdone, hrest⟩ := h.waiting_handle hs hwaits hready hres
  -- the other waiting tasks are those from before
  have hiff : ∀ t' o' f', Waits (w.left t r rest).loop t' o' f' ↔
      t' ≠ t ∧ Waits w.loop t' o' f' := by
    intro t' o' f'
    unfold Waits left Loop.setTask
    by_cases htt : t' = t
    · subst htt
      simp
    · simp [htt]
  refine ⟨fun g hg => ?_, h.listedMine, fun t' o' f' hw => ?_, fun k g hg hd => ?_,
    fun t' ht' o' f' hw => ?_, fun k hk => ?_⟩
  · obtain ⟨hlt, hnone⟩ := h.mineFut g hg
    exact ⟨hlt, (update_of_ne (Loop.ne_of_tasks hnone ht) ..).trans hnone⟩
  · obtain ⟨hne, hw⟩ := (hiff t' o' f').mp hw
    obtain ⟨hf, hcase⟩ := h.waits t' o' f' hw
    refine ⟨hf, hcase.imp_right fun hc => ⟨hc.1, ?_⟩⟩
    have hmem := hc.2
    rw [hready] at hmem
    refine (mem_cons.mp hmem).resolve_left fun heq => hne ?_
    cases heq
    rfl
  · obtain ⟨t', o', hw, hk⟩ := h.listed k g hg hd
    refine ⟨t', o', (hiff t' o' g).mpr ⟨?_, hw⟩, hk⟩
    intro heq
    subst heq
    obtain ⟨-, rfl⟩ := hw.inj hwaits
    exact absurd (hd.symm.trans hdone) Bool.false_ne_true
  · cases ht'
    exact ((hiff t o' f').mp hw).1 rfl
  · have hk' : PendingIn P w.loop k := by
      obtain ⟨t', o', f', hw, hq, hd⟩ := hk
      exact ⟨t', o', f', ((hiff t' o' f').mp hw).2, hq, hd⟩
    -- the handle that is gone counted in its list if the task had been woken
    have hcount : woken P w.loop k = woken P (w.left t r rest).loop k +
        if wokenBy P w.loop k (.done (.wakeup t) f) = true then 1 else 0 := by
      unfold woken
      rw [hready, countP_cons]
      congr 1
      refine countP_congr fun hd' hmem => ?_
      rw [wokenBy_iff, wokenBy_iff]
      constructor
      · rintro ⟨t', o', f', rfl, hw, hq, hst⟩
        refine ⟨t', o', f', rfl, (hiff t' o' f').mpr ⟨?_, hw⟩, hq, hst⟩
        intro heq
        subst heq
        have hfalse := hrest _ hmem
        simp [Handle.resumes] at hfalse
      · rintro ⟨t', o', f', rfl, hw, hq, hst⟩
        exact ⟨t', o', f', rfl, ((hiff t' o' f').mp hw).2, hq, hst⟩
    have hcredit := h.credit_none hk'
    rw [hcount] at hcredit
    by_cases hcounted : wokenBy P w.loop k (.done (.wakeup t) f) = true
    · obtain ⟨t', o', f', heq, hw, hq, hst⟩ := wokenBy_iff.mp hcounted
      cases heq
      obtain ⟨rfl, -⟩ := hw.inj hwaits
      rw [if_pos hcounted] at hcredit
      rw [if_pos ((hslack hst).trans (congrArg some hq))]
      exact hcredit
    · rw [if_neg hcounted, Nat.add_zero] at hcredit
      exact hP.mono (Nat.le_add_right ..) hcredit

/-! ### The operations of the primitive -/

/-- A list loses members. -/
theorem mem_of_mem_update {v : κ → List FutId} {ws : List FutId} {k' : κ} {g : FutId}
    (hsub : ∀ g ∈ ws, g ∈ v k) (hg : g ∈ update v k ws k') : g ∈ v k' := by
  by_cases hk : k' = k
  · subst hk
    rw [update_self] at hg
    exact hsub g hg
  · rwa [update_of_ne hk] at hg

/-- A wakeup makes up for the slack of its list. -/
theorem Ledger.wake [hP : Lawful P atMost] (h : Ledger P atMost w (some k)) :
    Ledger P atMost (w.wake P k) none := by
  unfold World.wake
  cases hpick : P.pick w.loop.done (w.waiters k) with
  | mk x ws =>
    have hsub := hP.pick_subset hpick
    cases x with
    | none =>
      -- nobody waits in the list
      have hall := hP.pick_none hpick
      have hnobody : ∀ t o f, Waits w.loop t o f → w.loop.done f = false → P.queue o ≠ k := by
        intro t o f hw hd hk
        obtain ⟨-, ⟨-, -, hmem⟩ | ⟨hd', -⟩⟩ := h.waits t o f hw
        · rw [hk] at hmem
          exact absurd (hd.symm.trans (hall f hmem)) Bool.false_ne_true
        · exact absurd (hd.symm.trans hd') Bool.false_ne_true
      refine ⟨h.mineFut, fun k' g hg => h.listedMine k' g (mem_of_mem_update hsub hg),
        fun t o f hw => ?_, fun k' g hg hd =>
          h.listed k' g (mem_of_mem_update hsub hg) hd, h.outside,
        fun k' hk' => ?_⟩
      · obtain ⟨hf, hcase⟩ := h.waits t o f hw
        refine ⟨hf, hcase.imp_left fun hc => ⟨hc.1, hc.2.1, ?_⟩⟩
        show f ∈ update w.waiters k ws (P.queue o)
        rw [update_of_ne (hnobody t o f hw hc.1)]
        exact hc.2.2
      · have hne : some k ≠ some k' := by
          intro heq
          cases heq
          obtain ⟨t, o, f, hw, hq, hd⟩ := hk'
          exact hnobody t o f hw hd hq
        have hcredit := h.credit k' hk'
        rw [if_neg hne] at hcredit
        exact hcredit
    | some f =>
      obtain ⟨hmem, hd, hkeep⟩ := hP.pick_some hpick
      obtain ⟨t, o, hw, hq⟩ := h.listed k f hmem hd
      obtain ⟨-, ⟨-, hcbs, -⟩ | ⟨hd', -⟩⟩ := h.waits t o f hw
      · have hready : (w.loop.finish f (.result ())).ready =
            w.loop.ready ++ [.done (.wakeup t) f] := by
          unfold Loop.finish
          rw [hcbs]
          rfl
        have hself : ((w.loop.finish f (.result ())).futs f).state = .result () := by
          simp [Loop.finish]
        have hother : ∀ g, g ≠ f → (w.loop.finish f (.result ())).futs g = w.loop.futs g :=
          fun g hg => update_of_ne hg ..
        have hpending : ∀ g, (w.loop.finish f (.result ())).done g = false →
            g ≠ f ∧ w.loop.done g = false := by
          intro g hg
          have hne := (ne_of_true_of_false (done_of_state hself (by simp)) hg).symm
          exact ⟨hne, (done_eq_of_futs (hother g hne)).symm.trans hg⟩
        refine ⟨h.mineFut, fun k' g hg => h.listedMine k' g (mem_of_mem_update hsub hg),
          fun t' o' f' hw' => ?_, fun k' g hg hd => ?_, h.outside, fun k' hk' => ?_⟩
        · obtain ⟨hf', hcase⟩ := h.waits t' o' f' hw'
          refine ⟨hf', ?_⟩
          rw [hready]
          by_cases hff : f' = f
          · subst hff
            refine .inr ⟨done_of_state hself (by simp), ?_⟩
            rcases hcase with ⟨-, hcbs', -⟩ | ⟨hd', -⟩
            · rw [hcbs] at hcbs'
              cases hcbs'
              exact mem_append_right _ (mem_singleton_self _)
            · exact absurd (hd.symm.trans hd') Bool.false_ne_true
          · rw [hother f' hff]
            have hdone' := done_eq_of_futs (hother f' hff)
            rcases hcase with ⟨hd', hcbs', hmem'⟩ | ⟨hd', hmem'⟩
            · refine .inl ⟨hdone'.trans hd', hcbs', ?_⟩
              show f' ∈ update w.waiters k ws (P.queue o')
              by_cases hk' : P.queue o' = k
              · rw [hk', update_self]
                rw [hk'] at hmem'
                exact hkeep f' hmem' hd' hff
              · rw [update_of_ne hk']
                exact hmem'
            · exact .inr ⟨hdone'.trans hd', mem_append_left _ hmem'⟩
        · exact h.listed k' g (mem_of_mem_update hsub hg) (hpending g hd).2
        · have hold : PendingIn P w.loop k' := by
            obtain ⟨t', o', f', hw', hq', hd'⟩ := hk'
            exact ⟨t', o', f', hw', hq', (hpending f' hd').2⟩
          -- the handles that counted before count, and the new one counts in the list `k`
          have hstill : ∀ t' o' f', Waits w.loop t' o' f' → (w.loop.futs f').state = .result () →
              Waits w.loop t' o' f' ∧
                ((w.loop.finish f (.result ())).futs f').state = .result () := by
            intro t' o' f' hw' hst
            by_cases hff : f' = f
            · exact ⟨hw', hff ▸ hself⟩
            · exact ⟨hw', (congrArg _ (hother f' hff)).trans hst⟩
          have hnew : (if some k = some k' then 1 else 0) ≤
              countP (wokenBy P (w.loop.finish f (.result ())) k') [.done (.wakeup t) f] := by
            split
            · next heq =>
              cases heq
              have hcounts : wokenBy P (w.loop.finish f (.result ())) k
                  (.done (.wakeup t) f) = true :=
                wokenBy_iff.mpr ⟨t, o, f, rfl, hw, hq, hself⟩
              rw [countP_cons_of_pos hcounts]
              exact Nat.le_add_left ..
            · exact Nat.zero_le _
          exact hP.mono (Nat.le_trans (Nat.add_le_add_left hnew _) (woken_le hready hstill k'))
            (h.credit k' hold)
      · exact absurd (hd.symm.trans hd') Bool.false_ne_true

/-- A new state in which each list has at most the slack `slack` more. -/
theorem Ledger.setState (h : Ledger P atMost w slack) {s : σ} {slack' : Option κ}
    (hs : ∀ k n, atMost k w.state (n + if slack = some k then 1 else 0) →
      atMost k s (n + if slack' = some k then 1 else 0)) :
    Ledger P atMost { w with state := s } slack' :=
  ⟨h.mineFut, h.listedMine, h.waits, h.listed, h.outside, fun k hk => hs k _ (h.credit k hk)⟩

/-- The state and the wakeup an operation has left, with the wakeup's list as slack. -/
theorem Ledger.apply [Lawful P atMost] {out : σ × Option κ}
    (h : Ledger P atMost { w with state := out.1 } out.2) :
    Ledger P atMost (w.apply P out) none := by
  unfold World.apply
  cases hout : out.2 with
  | none =>
    rw [hout] at h
    exact h
  | some k =>
    rw [hout] at h
    exact h.wake

theorem scheduled_apply {u : Option FutId} (h : w.loop.Scheduled u) (out : σ × Option κ) :
    (w.apply P out).loop.Scheduled u := by
  unfold World.apply World.wake
  split
  · exact h
  · split
    · exact h
    · exact h.finish _ _

theorem apply_running (out : σ × Option κ) : (w.apply P out).running = w.running := by
  unfold World.apply World.wake
  split
  · rfl
  · split <;> rfl

/-- The running task is put outside the primitive's code, where it stands already. -/
theorem Ledger.enter [Lawful P atMost] (h : Ledger P atMost w slack)
    (hrun : w.running = .task t) : Ledger P atMost (w.enter t) slack := by
  have hout := h.outside t hrun
  refine h.of_calm ?_ rfl rfl rfl fun u hu => ?_
  · show Calm w.mine w.loop (w.loop.setCoro t .outside)
    unfold Loop.setCoro
    cases ht : w.loop.tasks t with
    | none => exact Calm.refl _
    | some r =>
      refine Calm.setTask ht (fun o f => ⟨fun hc => ?_, fun hc => ?_⟩) fun o f hc => ?_
      · cases hc
      · exact absurd ⟨r, ht, hc⟩ (hout o f)
      · cases hc
  · cases hu
    exact hout

theorem enter_apply (out : σ × Option κ) : (w.apply P out).enter t = (w.enter t).apply P out := by
  have hcoro : ∀ (l : Loop Unit (Stand ω)) (g : FutId) (st : FutState Unit),
      (l.finish g st).setCoro t .outside = (l.setCoro t .outside).finish g st := by
    intro l g st
    unfold Loop.setCoro
    cases htask : l.tasks t with
    | none =>
      have hsame : (l.finish g st).tasks t = none := htask
      rw [hsame]
    | some r =>
      have hsame : (l.finish g st).tasks t = some r := htask
      rw [hsame]
      rfl
  have hdone : (w.loop.setCoro t .outside).done = w.loop.done := by
    unfold Loop.setCoro
    split <;> rfl
  unfold World.apply
  split
  · rfl
  · unfold World.wake enter
    dsimp only
    rw [hdone]
    split
    · rfl
    · dsimp only [setWaiters]
      rw [hcoro]

/-- The world in which task `t` has just parked. -/
def parkedAt (P : Primitive σ ω ν κ) (w : World σ ω κ) (t : FutId) (o : ω)
    (r : TaskRec (Stand ω)) : World σ ω κ :=
  { w with
    loop := (w.loop.createFuture.2.setTask t
      { r with coro := .waiting o w.loop.nextId, futWaiter := some w.loop.nextId }).addDoneCallback
        w.loop.nextId (.wakeup t)
    waiters := update w.waiters (P.queue o) (w.waiters (P.queue o) ++ [w.loop.nextId])
    mine := update w.mine w.loop.nextId true
    running := .nothing }

theorem park_eq (ht : w.loop.tasks t = some r) : w.park P t o = some (w.parkedAt P t o r) := by
  simp [park, parkedAt, Loop.setCoro, Loop.createFuture, Loop.stepEnd, Loop.setTask, ht]

theorem park_enter : (w.enter t).park P t o = w.park P t o := by
  cases ht : w.loop.tasks t with
  | none => simp [park, enter, Loop.setCoro, Loop.createFuture, Loop.stepEnd, ht]
  | some r => simp [park, enter, Loop.setCoro, Loop.createFuture, Loop.stepEnd, Loop.setTask, ht]

theorem createFuture_done (l : Loop Unit (Stand ω)) (t : FutId) (r : TaskRec (Stand ω)) :
    (l.createFuture.2.setTask t r).done l.nextId = false := by
  simp [Loop.done, Loop.createFuture, Loop.setTask]

theorem scheduled_parkedAt (hs : w.loop.Scheduled (some t))
    (ht : w.loop.tasks t = some r) : (w.parkedAt P t o r).loop.Scheduled none := by
  refine Loop.Scheduled.addWakeup ?_ (createFuture_done ..)
  exact hs.createFuture.setTask (t := t) (r := r) ht _

theorem parkedAt_loop : (w.parkedAt P t o r).loop =
    { futs := update w.loop.futs w.loop.nextId { callbacks := [.wakeup t] }
      tasks := update w.loop.tasks t
        (some { r with coro := .waiting o w.loop.nextId, futWaiter := some w.loop.nextId })
      nextId := w.loop.nextId + 1
      ready := w.loop.ready } := by
  unfold parkedAt Loop.addDoneCallback
  rw [createFuture_done, if_neg Bool.false_ne_true]
  simp [Loop.createFuture, Loop.setTask]

/-- A task that starts to wait does so when nobody of its list could go on. -/
theorem Ledger.park [hP : Lawful P atMost] (h : Ledger P atMost w none)
    (hs : w.loop.Scheduled (some t)) (hrun : w.running = .task t)
    (hb : P.blocked o w.state = true) (ht : w.loop.tasks t = some r) :
    Ledger P atMost (w.parkedAt P t o r) none := by
  have htlt := hs.tasksLt t r ht
  have hout := h.outside t hrun
  set n := w.loop.nextId with hn
  have hloop := parkedAt_loop (w := w) (P := P) (t := t) (o := o) (r := r)
  -- who waits now: `t`, and those from before
  have hiff : ∀ t' o' f', Waits (w.parkedAt P t o r).loop t' o' f' ↔
      t' = t ∧ o' = o ∧ f' = n ∨ Waits w.loop t' o' f' := by
    intro t' o' f'
    rw [hloop]
    by_cases htt : t' = t
    · subst htt
      constructor
      · rintro ⟨r', hr', hc'⟩
        dsimp only at hr'
        rw [update_self] at hr'
        cases hr'
        cases hc'
        exact .inl ⟨rfl, rfl, rfl⟩
      · rintro (⟨-, rfl, rfl⟩ | hw)
        · exact ⟨_, update_self .., rfl⟩
        · exact absurd hw (hout o' f')
    · unfold Waits
      simp [htt]
  have hmine : ∀ f, w.mine f = true → f ≠ n := fun f hf => Nat.ne_of_lt (h.mineFut f hf).1
  have hfuts : ∀ f, w.mine f = true → (w.parkedAt P t o r).loop.futs f = w.loop.futs f := by
    intro f hf
    rw [hloop]
    exact update_of_ne (hmine f hf) ..
  have hready : (w.parkedAt P t o r).loop.ready = w.loop.ready := by rw [hloop]
  have hlisted : ∀ k f, f ∈ (w.parkedAt P t o r).waiters k ↔
      f = n ∧ k = P.queue o ∨ f ∈ w.waiters k := by
    intro k f
    show f ∈ update w.waiters (P.queue o) (w.waiters (P.queue o) ++ [n]) k ↔ _
    by_cases hk : k = P.queue o
    · subst hk
      rw [update_self, mem_append, mem_singleton, or_comm, and_iff_left rfl]
    · rw [update_of_ne hk, or_iff_right fun hc => hk hc.2]
  have hmine' : ∀ f, w.mine f = true → (w.parkedAt P t o r).mine f = true := by
    intro f hf
    show update w.mine n true f = true
    rw [update_of_ne (hmine f hf)]
    exact hf
  refine ⟨fun f hf => ?_, fun k f hf => ?_, fun t' o' f' hw => ?_, fun k f hf hd => ?_,
    (fun t' ht' => by cases ht'), fun k hk => ?_⟩
  · rw [hloop]
    by_cases hfn : f = n
    · subst hfn
      refine ⟨Nat.lt_succ_self _, ?_⟩
      dsimp only
      rw [update_of_ne (Nat.ne_of_gt htlt)]
      exact hs.fresh
    · have hf' : w.mine f = true := by
        have hf' : update w.mine n true f = true := hf
        rwa [update_of_ne hfn] at hf'
      obtain ⟨hlt, hnone⟩ := h.mineFut f hf'
      exact ⟨Nat.lt_succ_of_lt hlt, (update_of_ne (Loop.ne_of_tasks hnone ht) ..).trans hnone⟩
  · rcases (hlisted k f).mp hf with ⟨rfl, -⟩ | hf
    · exact update_self ..
    · exact hmine' f (h.listedMine k f hf)
  · rcases (hiff t' o' f').mp hw with ⟨rfl, rfl, rfl⟩ | hw
    · refine ⟨update_self .., .inl ⟨?_, ?_, ?_⟩⟩
      · rw [hloop]
        simp [Loop.done, hn]
      · rw [hloop]
        simp [hn]
      · exact (hlisted _ _).mpr (.inl ⟨rfl, rfl⟩)
    · obtain ⟨hf, hcase⟩ := h.waits t' o' f' hw
      refine ⟨hmine' f' hf, ?_⟩
      rw [hfuts f' hf, hready, done_eq_of_futs (hfuts f' hf)]
      exact hcase.imp_left fun hc => ⟨hc.1, hc.2.1, (hlisted _ _).mpr (.inr hc.2.2)⟩
  · rcases (hlisted k f).mp hf with ⟨rfl, rfl⟩ | hf
    · exact ⟨t, o, (hiff t o n).mpr (.inl ⟨rfl, rfl, rfl⟩), rfl⟩
    · rw [done_eq_of_futs (hfuts f (h.listedMine k f hf))] at hd
      obtain ⟨t', o', hw, hq⟩ := h.listed k f hf hd
      exact ⟨t', o', (hiff t' o' f).mpr (.inr hw), hq⟩
  · by_cases hkq : k = P.queue o
    · subst hkq
      exact hP.mono (Nat.zero_le _) (hP.blocked_le hb)
    · have hold : PendingIn P w.loop k := by
        obtain ⟨t', o', f', hw, hq, hd⟩ := hk
        rcases (hiff t' o' f').mp hw with ⟨rfl, rfl, rfl⟩ | hw
        · exact absurd hq.symm hkq
        · exact ⟨t', o', f', hw, hq, (done_eq_of_futs
            (hfuts f' (h.waits t' o' f' hw).1)).symm.trans hd⟩
      have hcount : woken P w.loop k ≤ woken P (w.parkedAt P t o r).loop k := by
        have hready' : (w.parkedAt P t o r).loop.ready = w.loop.ready ++ [] := by
          rw [hready, append_nil]
        refine Nat.le_of_add_right_le (woken_le hready' ?_ k)
        intro t' o' f' hw hst
        refine ⟨(hiff t' o' f').mpr (.inr hw), ?_⟩
        rw [hfuts f' (h.waits t' o' f' hw).1]
        exact hst
      exact hP.mono hcount (h.credit_none hold)

/-! ### Whole steps -/

/-- Tasks have one source each, and the ledger is balanced. -/
structure Balanced (P : Primitive σ ω ν κ) (atMost : κ → σ → Nat → Prop) (w : World σ ω κ) :
    Prop where
  scheduled : w.loop.Scheduled w.running.task?
  ledger : Ledger P atMost w none

theorem Balanced.scheduled_of (h : Balanced P atMost w) {running : Running}
    (hrun : w.running = running) : w.loop.Scheduled running.task? :=
  hrun ▸ h.scheduled

section

variable (h : Ledger P atMost (w.enter t) slack)
  (hslack : slack = none ∨ slack = some (P.queue o)) (hs : (w.enter t).loop.Scheduled (some t))

include h hslack hs

/-- The running task `t` goes through `o`; `slack` is its share if it has just been woken. -/
theorem complete_balanced [hP : Lawful P atMost]
    (hb : P.again = true → P.blocked o w.state = false) :
    Balanced P atMost (w.complete P t o) := by
  rw [complete, enter_apply]
  constructor
  · rw [apply_running]
    exact scheduled_apply hs _
  · refine Ledger.apply (h.setState fun k n hn => ?_)
    rcases hslack with rfl | rfl
    · exact hP.act_le hb hn
    · by_cases hk : P.queue o = k
      · subst hk
        rw [if_pos rfl] at hn
        exact hP.mono (Nat.le_add_right ..) (hP.act_takes hb hn)
      · rw [if_neg (fun heq => hk (Option.some.inj heq))] at hn
        exact hP.act_le hb hn

theorem begin_balanced [hP : Lawful P atMost] (hb : w.begin P t o = some w') :
    Balanced P atMost w' := by
  unfold begin at hb
  cases hblocked : P.blocked o w.state with
  | false =>
    rw [hblocked, if_neg Bool.false_ne_true] at hb
    cases hb
    exact complete_balanced h hslack hs fun _ => hblocked
  | true =>
    rw [hblocked, if_pos rfl] at hb
    obtain ⟨-, r, hr⟩ := hs.idle t rfl
    rw [← park_enter, park_eq hr] at hb
    cases hb
    -- with nothing free there is no slack either
    have hnone : Ledger P atMost (w.enter t) none := by
      refine h.setState fun k n hn => ?_
      rcases hslack with rfl | rfl
      · exact hn
      · by_cases hk : P.queue o = k
        · subst hk
          exact hP.mono (Nat.zero_le _) (hP.blocked_le hblocked)
        · rw [if_neg (fun heq => hk (Option.some.inj heq))] at hn
          exact hn
    exact ⟨scheduled_parkedAt hs hr, hnone.park hs rfl hblocked hr⟩

end

/-! ### Resuming a task -/

/-- A future that is done leaves a list. -/
theorem Ledger.erase (h : Ledger P atMost w slack) (hd : w.loop.done f = true) :
    Ledger P atMost (w.setWaiters k ((w.waiters k).erase f)) slack := by
  have hsub : ∀ k' g, g ∈ update w.waiters k ((w.waiters k).erase f) k' →
      g ∈ w.waiters k' := fun _ _ => mem_of_mem_update fun _ => mem_of_mem_erase
  refine ⟨h.mineFut, fun k' g hg => h.listedMine k' g (hsub k' g hg), fun t o g hw => ?_,
    fun k' g hg => h.listed k' g (hsub k' g hg), h.outside, h.credit⟩
  obtain ⟨hg, hcase⟩ := h.waits t o g hw
  refine ⟨hg, hcase.imp_left fun hc => ⟨hc.1, hc.2.1, ?_⟩⟩
  obtain ⟨hpend, -, hmem⟩ := hc
  show g ∈ update w.waiters k ((w.waiters k).erase f) (P.queue o)
  by_cases hk : P.queue o = k
  · rw [hk] at hmem
    rw [hk, update_self]
    exact (mem_erase_of_ne (ne_of_true_of_false hd hpend).symm).mpr hmem
  · rw [update_of_ne hk]
    exact hmem

theorem resumes_inj {t' : FutId} (h : hd.resumes t = true)
    (h' : hd.resumes t' = true) : t = t' := by
  cases hd with
  | step u => exact (of_decide_eq_true h).symm.trans (of_decide_eq_true h')
  | done cb f =>
    cases cb with
    | wakeup u => exact (of_decide_eq_true h).symm.trans (of_decide_eq_true h')
    | client n => cases h
  | client n => cases h

section

variable (h : Balanced P atMost w) (hrun : w.running = .nothing)
  (hready : w.loop.ready = hd :: rest) (hres : hd.resumes t = true)

include h hrun hready hres

/-- A task that does not wait is given control. -/
theorem resume_client [Lawful P atMost]
    (ht : w.loop.tasks t = some r) (hout : ∀ o f, r.coro ≠ .waiting o f) {running : Running}
    (hrun' : running = .nothing ∨ running = .task t) :
    Balanced P atMost { w with
      loop := { w.loop with ready := rest }.setTask t
        { r with futWaiter := none, mustCancel := false }
      running } := by
  have hnot : ∀ o f, ¬ Waits w.loop t o f := by
    rintro o f ⟨r', hr', hc⟩
    rw [ht] at hr'
    cases hr'
    exact hout o f hc
  have hs : w.loop.Scheduled none := h.scheduled_of hrun
  constructor
  · have hs' := (hs.pop_task hready hres).setTask (t := t) ht
      { r with futWaiter := none, mustCancel := false }
    rcases hrun' with rfl | rfl
    · exact ⟨hs'.once, hs'.exist, hs'.tasksLt, fun _ hu => by cases hu⟩
    · exact hs'
  · have hpop := h.ledger.pop hready fun t' o f hw heq => by
      have htt : t = t' := resumes_inj hres (by rw [heq]; simp [Handle.resumes])
      subst htt
      exact hnot o f hw
    refine hpop.of_calm (Calm.setTask (t := t) ht (fun _ _ => .rfl) fun o f hc => ?_) rfl rfl rfl ?_
    · exact absurd hc (hout o f)
    intro u hu
    rcases hrun' with rfl | rfl
    · cases hu
    · cases hu
      exact hnot

/-- A waiting task is resumed; if shares count, without `CancelledError` if it had been woken. -/
theorem resume_waiting [Lawful P atMost] (ht : w.loop.tasks t = some r) (hc : r.coro = .waiting o f)
    (hgoes : (∀ k s n, atMost k s n) ∨
      ((w.loop.futs f).state = .result () → r.mustCancel = false))
    (hw' : { w with
        loop := { w.loop with ready := rest }.setTask t
          { r with futWaiter := none, mustCancel := false } }.resume P t o f
      (if r.mustCancel then some .cancelledError else w.wakeupExc f) = some w') :
    Balanced P atMost w' := by
  have hs : w.loop.Scheduled none := h.scheduled_of hrun
  obtain ⟨-, hdone, -⟩ := h.ledger.waiting_handle hs ⟨r, ht, hc⟩ hready hres
  set w0 : World σ ω κ := { w with
    loop := { w.loop with ready := rest }.setTask t
      { r with futWaiter := none, mustCancel := false } } with hw0
  have henter : w0.enter t = w.left t r rest := by
    simp [hw0, enter, left, Loop.setCoro, Loop.setTask]
  have hs1 : (w.left t r rest).loop.Scheduled (some t) :=
    (hs.pop_task hready hres).setTask (t := t) ht _
  have hleave : Ledger P atMost (w.left t r rest) (some (P.queue o)) :=
    h.ledger.leave hs ht hc hready hres fun _ => rfl
  have hfut : w0.loop.futs f = w.loop.futs f := rfl
  have habandon : w0.abandon P t o f = (w.left t r rest).setWaiters (P.queue o)
      (((w.left t r rest).waiters (P.queue o)).erase f) := by
    rw [← henter]
    rfl
  cases hexc : (if r.mustCancel then some Exc.cancelledError else w.wakeupExc f) with
  | none =>
    -- woken: the task goes on with its share
    have hdone0 : w0.loop.done f = true := hdone
    obtain ⟨v, hresult⟩ : ∃ v, w0.loop.result f = .ok v := by
      have hnone : w.wakeupExc f = none := by
        split at hexc
        · cases hexc
        · exact hexc
      unfold wakeupExc at hnone
      split at hnone
      · next v hok => exact ⟨v, hok⟩
      · cases hnone
    rw [hexc] at hw'
    simp only [resume, hdone0, hresult, if_true] at hw'
    split at hw'
    · exact begin_balanced (henter ▸ hleave) (.inr rfl) (henter ▸ hs1) hw'
    · next hagain =>
      cases hw'
      exact complete_balanced (henter ▸ hleave) (.inr rfl) (henter ▸ hs1) fun ha => absurd ha hagain
  | some e =>
    have hledger : Ledger P atMost (w.left t r rest) none := by
      rcases hgoes with hall | hgoes
      · exact hleave.setState fun k _ _ => hall k _ _
      · refine h.ledger.leave hs ht hc hready hres fun hst => ?_
        simp [hgoes hst, wakeupExc, Loop.result, hst] at hexc
    rw [hexc] at hw'
    simp only [resume] at hw'
    split at hw'
    · cases hw'
      rw [habandon]
      exact ⟨hs1, hledger.erase hdone⟩
    · cases hw'
      rw [henter]
      exact ⟨hs1, hledger⟩
    · next heq => cases heq

/-- The loop resumes task `t` with its first handle. -/
theorem resumeTask_balanced [Lawful P atMost] {exc : Option Exc}
    (hexc : ∀ f, hd = .done (.wakeup t) f → exc = w.wakeupExc f)
    (hgoes : (∀ k s n, atMost k s n) ∨
      ∀ f k, hd = .done (.wakeup t) f → wokenBy P w.loop k hd = true →
        ∀ r, w.loop.tasks t = some r → r.mustCancel = false)
    (hw' : { w with loop := { w.loop with ready := rest } }.resumeTask P t exc = some w') :
    Balanced P atMost w' := by
  have hs : w.loop.Scheduled none := h.scheduled_of hrun
  obtain ⟨-, r, ht⟩ := (hs.pop_task hready hres).idle t rfl
  have ht : w.loop.tasks t = some r := ht
  simp only [resumeTask, Loop.coroOf, Loop.stepBegin, ht, map_some] at hw'
  obtain ⟨c, futWaiter, mustCancel⟩ := r
  cases c with
  | outside =>
    cases hw'
    exact resume_client h hrun hready hres ht (by simp) (.inr rfl)
  | ended =>
    cases hw'
    exact resume_client h hrun hready hres ht (by simp) (.inl hrun)
  | waiting o f =>
    have hwaits : Waits w.loop t o f := ⟨_, ht, rfl⟩
    obtain ⟨heq, -, -⟩ := h.ledger.waiting_handle hs hwaits hready hres
    rw [hexc f heq] at hw'
    refine resume_waiting h hrun hready hres ht rfl (hgoes.imp_right fun hgoes hst => ?_) hw'
    exact hgoes f (P.queue o) heq (wokenBy_iff.mpr ⟨t, o, f, heq, hwaits, rfl, hst⟩) _ ht

end

theorem Balanced.fresh (h : Balanced P atMost w) :
    w.loop.tasks w.loop.nextId = none ∧ w.mine w.loop.nextId = false := by
  refine ⟨h.scheduled.fresh, ?_⟩
  cases hm : w.mine w.loop.nextId with
  | false => rfl
  | true => exact absurd (h.ledger.mineFut _ hm).1 (Nat.lt_irrefl _)

omit [DecidableEq κ] in
theorem known_iff : w.known f = true ↔ f < w.loop.nextId ∧ w.mine f = false := by
  simp [known]

/-- From `w` to `w'` the primitive is left alone, and the running task may give control back. -/
def Aside (w w' : World σ ω κ) : Prop :=
  ∃ l running, Calm w.mine w.loop l ∧ l.Scheduled running.task? ∧
    (running = w.running ∨ running = .nothing) ∧ w' = { w with loop := l, running }

/-- The coroutine of the running task ends. -/
theorem Balanced.finish (h : Balanced P atMost w) (hrun : w.running = .task t) (y : Yield Unit)
    (hy : ∀ f, y ≠ .future f) (hy' : y ≠ .bare) : w.Aside { w with
      loop := ((w.loop.setCoro t .ended).stepEnd t y).getD (w.loop.setCoro t .ended)
      running := .nothing } := by
  have hs := h.scheduled_of hrun
  obtain ⟨-, r, ht⟩ := hs.idle t rfl
  have hout := h.ledger.outside t hrun
  have hmine : w.mine t = false :=
    Bool.eq_false_iff.mpr fun hm => Loop.ne_of_tasks (h.ledger.mineFut t hm).2 ht rfl
  have hended : Calm w.mine w.loop (w.loop.setCoro t .ended) := by
    unfold Loop.setCoro
    rw [ht]
    refine Calm.setTask ht (fun o f => ⟨fun hc => ?_, fun hc => ?_⟩) fun o f hc => ?_
    · cases hc
    · exact absurd ⟨r, ht, hc⟩ (hout o f)
    · cases hc
  have hs1 : (w.loop.setCoro t .ended).Scheduled none := by
    have hs1 := hs.setCoro t .ended
    exact ⟨hs1.once, hs1.exist, hs1.tasksLt, fun _ hu => by cases hu⟩
  cases y with
  | returned _ | cancelled | raised _ =>
    simp only [Loop.stepEnd, Loop.setResult, Loop.cancelFuture, Loop.setException, getD_some]
    split
    · exact ⟨_, .nothing, hended, hs1, .inr rfl, rfl⟩
    · exact ⟨_, .nothing, hended.trans (Calm.finish (.inl hmine)), hs1.finish t _, .inr rfl, rfl⟩
  | future f => exact absurd rfl (hy f)
  | bare => exact absurd rfl hy'

/-- What client code does without calling the primitive leaves the primitive alone. -/
theorem Balanced.client (h : Balanced P atMost w) {e : Event ω ν} (he : e.ofClient = true)
    (hstep : w.step P e = some w') : w.Aside w' := by
  cases e with
  | runReady | block o | call n => cases he
  | await f =>
    simp only [step] at hstep
    split at hstep
    · next t hrun =>
      have hs := h.scheduled_of hrun
      obtain ⟨-, r, ht⟩ := hs.idle t rfl
      split at hstep
      · next hcond =>
        obtain ⟨hknown, hpend⟩ := hcond
        obtain ⟨-, hmine⟩ := known_iff.mp hknown
        have hpend : w.loop.done f = false := by simpa using hpend
        simp only [Loop.stepEnd, ht, map_some] at hstep
        cases hstep
        have hwaiter : Calm w.mine w.loop (w.loop.setTask t { r with futWaiter := some f }) :=
          Calm.setTask ht (fun _ _ => .rfl) fun _ _ _ h => h
        exact ⟨_, .nothing, hwaiter.trans (Calm.addDoneCallback hmine _),
          (hs.setTask ht _).addWakeup hpend, .inr rfl, rfl⟩
      · cases hstep
    · cases hstep
  | yieldNone =>
    simp only [step] at hstep
    split at hstep <;> cases hstep
    next t hrun =>
      exact ⟨_, .nothing, Calm.callSoon _, (h.scheduled_of hrun).callSoon_step, .inr rfl, rfl⟩
  | finish y =>
    simp only [step] at hstep
    split at hstep <;> cases hstep
    next t hrun =>
      cases y with
      | ok v => exact h.finish hrun _ (by simp) (by simp)
      | error e => cases e <;> exact h.finish hrun _ (by simp) (by simp)
  | endCallback =>
    simp only [step] at hstep
    split at hstep <;> cases hstep
    next hrun =>
      have hs : w.loop.Scheduled Running.callback.task? := h.scheduled_of hrun
      exact ⟨_, .nothing, Calm.refl _, hs, .inr rfl, rfl⟩
  | createFuture =>
    cases hstep
    exact ⟨_, w.running, Calm.createFuture h.fresh.2, h.scheduled.createFuture, .inl rfl, rfl⟩
  | createTask =>
    cases hstep
    exact ⟨_, w.running, Calm.createTask h.fresh.1 h.fresh.2, h.scheduled.createTask _,
      .inl rfl, rfl⟩
  | setResult f =>
    obtain ⟨hknown, -, rfl⟩ := by simpa [step, Loop.setResult] using hstep
    exact ⟨_, w.running, Calm.finish (.inl (known_iff.mp hknown).2), h.scheduled.finish f _,
      .inl rfl, rfl⟩
  | setException f e =>
    obtain ⟨hknown, -, rfl⟩ := by simpa [step, Loop.setException] using hstep
    exact ⟨_, w.running, Calm.finish (.inl (known_iff.mp hknown).2), h.scheduled.finish f _,
      .inl rfl, rfl⟩
  | cancel f =>
    simp only [step] at hstep
    split at hstep <;> cases hstep
    exact ⟨_, w.running, Calm.cancel _ _, h.scheduled.cancel _ f, .inl rfl, rfl⟩
  | addDoneCallback f n =>
    simp only [step] at hstep
    split at hstep <;> cases hstep
    next hknown =>
      exact ⟨_, w.running, Calm.addDoneCallback (known_iff.mp hknown).2 _,
        h.scheduled.addDoneCallback f n,
        .inl rfl, rfl⟩
  | callSoon n =>
    cases hstep
    exact ⟨_, w.running, Calm.callSoon _, h.scheduled.callSoon fun _ => rfl, .inl rfl, rfl⟩

/-- Every action keeps the balance, if a woken waiter whose turn it is has not been cancelled or
shares do not count. -/
theorem step_balanced [hP : Lawful P atMost] (w : World σ ω κ) (e : Event ω ν) (w' : World σ ω κ)
    (h : Balanced P atMost w) (hok : (∀ k s n, atMost k s n) ∨ WokenGoesOn P w e)
    (hstep : w.step P e = some w') : Balanced P atMost w' := by
  by_cases he : e.ofClient = true
  · obtain ⟨l, running, hcalm, hs, hrun, rfl⟩ := h.client he hstep
    refine ⟨hs, h.ledger.of_calm hcalm rfl rfl rfl ?_⟩
    rcases hrun with rfl | rfl
    · exact h.ledger.outside
    · exact fun _ hu => by cases hu
  cases e with
  | runReady =>
    simp only [step] at hstep
    split at hstep
    · next hd rest hrun hready =>
      have hs := h.scheduled_of hrun
      have hclient : (∀ t, hd.resumes t = false) →
          Balanced P atMost
            { w with loop := { w.loop with ready := rest }, running := .callback } := by
        intro hno
        refine ⟨hs.pop hready hno, ?_⟩
        have hpop := h.ledger.pop hready fun t o f _ heq => by
          have hfalse := hno t
          rw [heq] at hfalse
          simp [Handle.resumes] at hfalse
        exact ⟨hpop.mineFut, hpop.listedMine, hpop.waits, hpop.listed,
          (fun _ hu => by cases hu), hpop.credit⟩
      have hguard : ∀ t, (∀ k s n, atMost k s n) ∨ ∀ f k, hd = .done (.wakeup t) f →
          wokenBy P w.loop k hd = true → ∀ r, w.loop.tasks t = some r → r.mustCancel = false := by
        refine fun t => hok.imp_right fun hok f k heq hwoken => ?_
        subst heq
        exact hok t f k (by rw [hready]; rfl) hwoken
      cases hd with
      | step t =>
        exact resumeTask_balanced h hrun hready (t := t) (by simp [Handle.resumes])
          (fun f heq => by cases heq) (hguard t) hstep
      | done cb f =>
        cases cb with
        | wakeup t =>
          refine resumeTask_balanced h hrun hready (t := t)
            (by simp [Handle.resumes]) (fun g heq => ?_) (hguard t) hstep
          cases heq
          rfl
        | client n =>
          cases hstep
          exact hclient fun _ => rfl
      | client n =>
        cases hstep
        exact hclient fun _ => rfl
    · cases hstep
  | block o =>
    simp only [step] at hstep
    split at hstep
    · next t hrun =>
      exact begin_balanced (h.ledger.enter hrun) (.inl rfl)
        ((h.scheduled_of hrun).setCoro t .outside) hstep
    · cases hstep
  | call n =>
    simp only [step] at hstep
    split at hstep <;> cases hstep
    constructor
    · rw [apply_running]
      exact scheduled_apply h.scheduled _
    · exact Ledger.apply (h.ledger.setState fun k m hm => hP.call_le hm)
  | _ => exact absurd rfl he

/-! ### Whole runs -/

theorem balanced_init (s : σ) : Balanced P atMost { state := s } := by
  have hnone : ∀ t o f, ¬ Waits ({} : Loop Unit (Stand ω)) t o f := by
    rintro t o f ⟨r, hr, -⟩
    cases hr
  have hun : ∀ t, ({} : Loop Unit (Stand ω)).Unscheduled t := fun _ => ⟨rfl, fun _ => rfl⟩
  constructor
  · refine ⟨fun t g g' _ => ?_, fun t _ => hun t, (fun t r hr => by cases hr),
      fun t ht => by cases ht⟩
    exact Nat.zero_le 1
  · refine ⟨(fun f hf => by cases hf), (fun k f hf => by cases hf),
      fun t o f hw => absurd hw (hnone t o f), (fun k f hf => by cases hf),
      (fun t ht => by cases ht), fun k hk => ?_⟩
    obtain ⟨t, o, f, hw, -⟩ := hk
    exact absurd hw (hnone t o f)

/-- With the books balanced, nobody waits for what is free without a wakeup on its way. -/
theorem Balanced.not_lost (hfree : ∀ o s, atMost (P.queue o) s 0 → P.blocked o s = true)
    (h : Balanced P atMost w) : ¬ LostWakeup P w := by
  rintro ⟨t, r, o, f, ht, hc, -, hd, hgo, hnone⟩
  have hcredit := h.ledger.credit_none ⟨t, o, f, ⟨r, ht, hc⟩, rfl, hd⟩
  have hzero : woken P w.loop (P.queue o) = 0 := by
    refine countP_eq_zero.mpr fun hd hmem => ?_
    rw [hnone hd hmem]
    exact Bool.false_ne_true
  rw [hzero] at hcredit
  rw [hfree o _ hcredit] at hgo
  cases hgo

theorem not_lost_of_run (hP : Lawful P atMost)
    (hfree : ∀ o s, atMost (P.queue o) s 0 → P.blocked o s = true) {s : σ}
    {events : List (Event ω ν)} (hok : Guarded (step P) (WokenGoesOn P) { state := s } events)
    (hrun : exec (step P) { state := s } events = some w) : ¬ LostWakeup P w := by
  refine (guarded_invariant (Balanced P atMost) ?_ (balanced_init s) hok hrun).not_lost hfree
  exact fun w e w' h hok => step_balanced w e w' h (.inr hok)

/-- All but the shares is in order in every run. -/
theorem balanced_of_run (hP : Lawful P atMost) {s : σ} {events : List (Event ω ν)}
    (hrun : exec (step P) { state := s } events = some w) : Balanced P (fun _ _ _ => True) w := by
  have hP' : Lawful P fun _ _ _ => True := hP.trivial rfl
  refine exec_invariant (Balanced P fun _ _ _ => True) ?_ (balanced_init s) hrun
  exact fun w e w' h => step_balanced w e w' h (.inl fun _ _ _ => trivial)

/-- No wakeup of a lock, a semaphore or a queue is lost in the runs in which every woken waiter
goes on when its turn comes. -/
theorem wakeups_not_lost (α : Type) (value : Nat) (maxsize : Int) :
    (∀ events w, Guarded (step lock) (WokenGoesOn lock) { state := lock.init } events →
      exec (step lock) { state := lock.init } events = some w → ¬ LostWakeup lock w) ∧
    (∀ events w, Guarded (step (semaphore value)) (WokenGoesOn (semaphore value))
        { state := (semaphore value).init } events →
      exec (step (semaphore value)) { state := (semaphore value).init } events = some w →
      ¬ LostWakeup (semaphore value) w) ∧
    ∀ events w,
      Guarded (step (Queue.primitive α maxsize)) (WokenGoesOn (Queue.primitive α maxsize))
        { state := (Queue.primitive α maxsize).init } events →
      exec (step (Queue.primitive α maxsize)) { state := (Queue.primitive α maxsize).init } events =
        some w →
      ¬ LostWakeup (Queue.primitive α maxsize) w :=
  ⟨fun _ _ => not_lost_of_run lock_lawful fun _ _ h => h.resolve_right (Nat.not_succ_le_zero 0),
    fun _ _ => not_lost_of_run (semaphore_lawful value) fun _ _ h => decide_eq_true h,
    fun _ _ => not_lost_of_run (Queue.lawful maxsize) fun _ _ => Queue.blocked_iff.mpr⟩

/-- One task takes the only unit, two wait for it; it is given back, which wakes the first of
them; `last` follows. -/
def contend {ω ν : Type} (take : ω) (give : ν) (last : List (Event ω ν)) : List (Event ω ν) :=
  [.createTask, .createTask, .createTask, .runReady, .block take, .yieldNone, .runReady,
    .block take, .runReady, .block take, .runReady, .call give] ++ last

/-- Two consumers wait, and an item wakes the first of them; `last` follows. -/
def twoConsumers (last : List (Event (Queue.Blocking Nat) (Queue.Direct Nat))) :
    List (Event (Queue.Blocking Nat) (Queue.Direct Nat)) :=
  [.createTask, .createTask, .createTask, .runReady, .block .get, .runReady, .block .get,
    .runReady, .call (.putNowait 7)] ++ last

/-- No task whose wakeup is about to run has been cancelled. -/
def noneCancelled (w : World σ ω κ) : Event ω ν → Bool
  | .runReady =>
    match w.loop.ready.head? with
    | some (.done (.wakeup t) _) =>
      match w.loop.tasks t with
      | some r => !r.mustCancel
      | none => true
    | _ => true
  | _ => true

theorem wokenGoesOn_of_noneCancelled (w : World σ ω κ) (e : Event ω ν)
    (h : noneCancelled w e = true) : WokenGoesOn P w e := by
  cases e with
  | runReady =>
    intro t f k hhead _ r ht
    simpa [noneCancelled, hhead, ht] using h
  | _ => trivial

theorem wakeups_not_lost_contend :
    ∃ w, exec (step lock) { state := lock.init } (contend () () [.yieldNone, .runReady]) = some w ∧
      w.state = true ∧ ¬ LostWakeup lock w := by
  have hok : guardedBy (step lock) noneCancelled { state := lock.init }
      (contend () () [.yieldNone, .runReady]) = true := by decide
  exact ⟨_, rfl, rfl, (wakeups_not_lost Nat 1 0).1 _ _
    (Guarded.of_guardedBy wokenGoesOn_of_noneCancelled hok) rfl⟩

/-- The first waiter is cancelled between the wakeup and its turn: the second waits on, with the
resource free and nobody to wake it. -/
theorem cancelled_after_wakeup :
    (∃ w, exec (step lock) { state := lock.init }
        (contend () () [.cancel 1, .yieldNone, .runReady]) = some w ∧ LostWakeup lock w) ∧
      (∃ w, exec (step (semaphore 1)) { state := (semaphore 1).init }
        (contend () () [.cancel 1, .yieldNone, .runReady]) = some w ∧ LostWakeup (semaphore 1) w) ∧
      ∃ w, exec (step (Queue.primitive Nat 0)) { state := (Queue.primitive Nat 0).init }
        (twoConsumers [.cancel 0, .yieldNone, .runReady]) = some w ∧
          LostWakeup (Queue.primitive Nat 0) w := by
  refine ⟨⟨_, rfl, ?_⟩, ⟨_, rfl, ?_⟩, ⟨_, rfl, ?_⟩⟩
  · exact ⟨2, _, (), 4, rfl, rfl, rfl, rfl, rfl, by decide⟩
  · exact ⟨2, _, (), 4, rfl, rfl, rfl, rfl, rfl, by decide⟩
  · exact ⟨1, _, .get, 4, rfl, rfl, rfl, rfl, rfl, by decide⟩

/-- No task has two resumes, and every waiter has one: the callback of its future, which is in its
list, or a handle. -/
theorem waiters_resumed (hP : Lawful P atMost) {s : σ} {events : List (Event ω ν)}
    (hrun : exec (step P) { state := s } events = some w) : w.loop.Once ∧
    ∀ t o f, Waits w.loop t o f →
      f ∈ w.waiters (P.queue o) ∧ (w.loop.futs f).callbacks = [.wakeup t] ∨
        .done (.wakeup t) f ∈ w.loop.ready := by
  have h := balanced_of_run hP hrun
  refine ⟨h.scheduled.once, fun t o f hw => ?_⟩
  exact (h.ledger.waits t o f hw).2.imp (fun hc => ⟨hc.2.2, hc.2.1⟩) And.right

/-- The first of two waiters is woken and then cancelled. -/
theorem waiters_resumed_contend :
    ∃ w, exec (step lock) { state := lock.init } (contend () () [.cancel 1]) = some w ∧
      w.loop.Once := by
  have hruns : (exec (step lock) { state := lock.init } (contend () () [.cancel 1])).isSome := rfl
  obtain ⟨w, hrun⟩ := isSome_iff_exists.mp hruns
  exact ⟨w, hrun, (waiters_resumed lock_lawful hrun).1⟩

end World

end PythonOS.Asyncio
