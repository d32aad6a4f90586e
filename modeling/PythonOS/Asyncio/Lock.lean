import PythonOS.Asyncio.Ledger

/-!
# PythonOS.Asyncio.Lock

`asyncio.Lock` (`locks.py`) under every interleaving of the event loop.

`heldLock` is the lock together with the tasks between their `acquire` and
their `release`, and a run of `LockWorld.step` is a run of an arbitrary program
whose tasks call the two in matched pairs. Handles leave the ready queue in
order; callbacks of timers and interrupts may enter it at any time.

`release` clears the flag and resolves the first waiting future, but the waiter
sets the flag only when its task is resumed. `acquire` in between finds the
flag clear. `mutualExclusion_of_noBarging` is mutual exclusion for the runs in
which no `acquire` falls into that gap; `barging_two_holders` is a run in which
one does.
-/

namespace PythonOS.Asyncio

open Lib Function List Option World

/-- `Lock` with the list of the tasks whose `acquire` has returned and whose `release` has not been
called. Both operations are told which task calls them. -/
def heldLock : Primitive (Bool × List FutId) FutId FutId Unit where
  init := (lock.init, [])
  queue _ := ()
  blocked _ s := lock.blocked () s.1
  again := lock.again
  act t s := (((lock.act () s.1).1, t :: s.2), (lock.act () s.1).2)
  call t s := (((lock.call () s.1).1, s.2.erase t), (lock.call () s.1).2)
  pick := lock.pick

/-- The loop, the lock, and the tasks that use it. -/
abbrev LockWorld := World (Bool × List FutId) FutId Unit

namespace LockWorld

/-- Task `t` is between its `acquire` returning and its `release`. -/
def Holds (w : LockWorld) (t : FutId) : Prop := t ∈ w.state.2

instance (w : LockWorld) (t : FutId) : Decidable (w.Holds t) :=
  inferInstanceAs (Decidable (_ ∈ _))

/-- `acquire` is only called by a task whose pairs are closed and `release` by one whose `acquire`
has returned, and a task ends only with its pairs closed. -/
def matched (w : LockWorld) : Event FutId FutId → Bool
  | .block t => decide (w.running = .task t ∧ ¬ w.Holds t)
  | .call t => decide (w.running = .task t ∧ w.Holds t)
  | .finish _ => decide (∀ t ∈ w.running.task?, ¬ w.Holds t)
  | _ => true

/-- One action; `none` when it is not possible. -/
def step (w : LockWorld) (e : Event FutId FutId) : Option LockWorld :=
  if matched w e then World.step heldLock w e else none

/-- Task `t` is suspended in `acquire`, its future has been resolved by a `release`, and no
cancellation is going to overtake its resumption. -/
def Woken (w : LockWorld) (t : FutId) : Prop :=
  ∃ o f, Eager w.loop t o f ∧ (w.loop.futs f).state = .result ()

/-- At most one task is between its `acquire` and its `release`. -/
def MutualExclusion (w : LockWorld) : Prop := ∀ t t', w.Holds t → w.Holds t' → t = t'

/-- An `acquire` that finds the flag clear does so while no woken waiter is still to be resumed. -/
def NoBarging (w : LockWorld) : Event FutId FutId → Prop
  | .block _ => w.state.1 = false → ∀ t, ¬ w.Woken t
  | _ => True

theorem heldLock_lawful : Lawful heldLock fun _ _ _ => True := lock_lawful.trivial rfl

/-! ### Steps that bring nobody closer to the lock -/

/-- Whoever waits or is woken afterwards did and was before. -/
structure Fades (w w' : LockWorld) : Prop where
  waits : ∀ t o f, Waits w'.loop t o f → Waits w.loop t o f
  woken : ∀ t, w'.Woken t → w.Woken t

variable {w w' : LockWorld} {t : FutId}

theorem Fades.of_calm (h : Balanced heldLock (fun _ _ _ => True) w)
    (hcalm : Calm w.mine w.loop w'.loop) : Fades w w' where
  waits t o f := (hcalm.waits t o f).mp
  woken t hw := by
    obtain ⟨o, f, heager, hres⟩ := hw
    have heager := hcalm.eager t o f heager
    obtain ⟨hmine, -⟩ := h.ledger.waits t o f heager.waits
    rcases hcalm.futs f hmine with heq | ⟨-, hcan, -⟩
    · exact ⟨o, f, heager, by rw [← heq]; exact hres⟩
    · cases hres.symm.trans hcan

/-- Only records of tasks that do not wait have changed. -/
theorem Fades.of_tasks (hfuts : w'.loop.futs = w.loop.futs)
    (htasks : ∀ t r o f, w'.loop.tasks t = some r → r.coro = .waiting o f →
      w.loop.tasks t = some r) : Fades w w' where
  waits t o f hw := by
    obtain ⟨r, hr, hc⟩ := hw
    exact ⟨r, htasks t r o f hr hc, hc⟩
  woken t hw := by
    obtain ⟨o, f, ⟨r, hr, hc, hmust⟩, hres⟩ := hw
    rw [hfuts] at hres
    exact ⟨o, f, ⟨r, htasks t r o f hr hc, hc, hmust⟩, hres⟩

theorem Fades.setTask {r : TaskRec (Stand FutId)} (hfuts : w'.loop.futs = w.loop.futs)
    (htasks : w'.loop.tasks = update w.loop.tasks t (some r))
    (hr : ∀ o f, r.coro ≠ .waiting o f) : Fades w w' := by
  refine Fades.of_tasks hfuts fun u v o f hv hc => ?_
  rw [htasks] at hv
  by_cases hu : u = t
  · subst hu
    rw [update_self] at hv
    cases hv
    exact absurd hc (hr o f)
  · rwa [update_of_ne hu] at hv

/-! ### The invariant -/

/-- A task that waits has called `acquire` itself and does not hold the lock; the flag is set
while a task holds the lock; and at most one task holds the lock or is about to. -/
structure Inv (w : LockWorld) : Prop where
  balanced : Balanced heldLock (fun _ _ _ => True) w
  waiter : ∀ t o f, Waits w.loop t o f → o = t ∧ ¬ w.Holds t
  nodup : w.state.2.Nodup
  one : ∀ t t', w.Holds t ∨ w.Woken t → w.Holds t' ∨ w.Woken t' → t = t'
  flag : ∀ t, w.Holds t → w.state.1 = true

theorem inv_init : Inv { state := heldLock.init } where
  balanced := balanced_init _
  waiter _ _ _ h := by
    obtain ⟨_, h, _⟩ := h
    cases h
  nodup := nodup_nil
  one _ _ h := by
    rcases h with h | ⟨_, _, ⟨_, h, _⟩, _⟩ <;> cases h
  flag _ h := by cases h

section

variable (hinv : Inv w) (hb : Balanced heldLock (fun _ _ _ => True) w') (hf : Fades w w')

include hinv hb hf

theorem Inv.of_fades (hstate : w'.state = w.state) : Inv w' := by
  have hholds : ∀ t, w'.Holds t ↔ w.Holds t := fun t => by rw [Holds, hstate, Holds]
  refine ⟨hb, fun t o f hw => ?_, hstate ▸ hinv.nodup, fun t t' h h' => ?_, fun t h => ?_⟩
  · rw [hholds]
    exact hinv.waiter t o f (hf.waits t o f hw)
  · exact hinv.one t t' (h.imp (hholds t).mp (hf.woken t)) (h'.imp (hholds t').mp (hf.woken t'))
  · rw [hstate]
    exact hinv.flag t ((hholds t).mp h)

/-- Task `t` gets the lock, and nobody else holds it or is about to. -/
theorem Inv.grant (hstate : w'.state = (true, t :: w.state.2)) (hrun : w'.running = .task t)
    (hnot : ¬ w.Holds t) (halone : ∀ u, w.Holds u ∨ w.Woken u → u = t) : Inv w' := by
  have hholds : ∀ u, w'.Holds u ↔ u = t ∨ w.Holds u := fun u => by
    rw [Holds, hstate, mem_cons, Holds]
  have honly : ∀ u, w'.Holds u ∨ w'.Woken u → u = t := by
    rintro u (h | h)
    · exact ((hholds u).mp h).elim id fun h => halone u (.inl h)
    · exact halone u (.inr (hf.woken u h))
  refine ⟨hb, fun u o f hw => ?_, ?_, fun u u' h h' => ?_, fun u _ => by rw [hstate]⟩
  · obtain ⟨ho, hu⟩ := hinv.waiter u o f (hf.waits u o f hw)
    refine ⟨ho, fun h => ?_⟩
    rcases (hholds u).mp h with rfl | h
    · exact hb.ledger.outside u hrun o f hw
    · exact hu h
  · rw [hstate]
    exact nodup_cons.mpr ⟨hnot, hinv.nodup⟩
  · exact (honly u h).trans (honly u' h').symm

end

/-! ### What the actions do -/

/-- A resumed task comes to hold the lock only if it had been woken. -/
theorem resumeTask_spec {exc : Option Exc} (h : w.resumeTask heldLock t exc = some w') :
    Fades w w' ∧ (w'.state = w.state ∨ ∃ o f, Eager w.loop t o f ∧
      (w.loop.futs f).state = .result () ∧ w'.running = .task t ∧
      w'.state = (true, o :: w.state.2)) := by
  cases ht : w.loop.tasks t with
  | none => simp [resumeTask, Loop.coroOf, ht] at h
  | some r =>
    simp only [resumeTask, Loop.coroOf, Loop.stepBegin, ht, map_some] at h
    obtain ⟨c, futWaiter, mustCancel⟩ := r
    cases c with
    | outside | ended =>
      cases h
      exact ⟨Fades.setTask rfl rfl (by simp), .inl rfl⟩
    | waiting o f =>
      -- however `acquire` ends, its task stands outside afterwards
      have hout : ∀ ws st, Fades w ({ w with
          loop := w.loop.setTask t { coro := .waiting o f }
          waiters := ws, state := st }.enter t) := by
        intro ws st
        refine Fades.setTask (t := t) (r := { coro := .outside }) ?_ ?_ (by simp)
        · simp [enter, Loop.setCoro, Loop.setTask]
        · simp [enter, Loop.setCoro, Loop.setTask]
      simp only [resume] at h
      split at h
      · cases h
        exact ⟨hout _ _, .inl rfl⟩
      · cases h
        exact ⟨hout w.waiters w.state, .inl rfl⟩
      · next hexc =>
        split at h
        · split at h
          · next v hok =>
            cases h
            have hmust : mustCancel = false := by
              cases mustCancel with
              | false => rfl
              | true => cases hexc
            have hres : (w.loop.futs f).state = .result () := by
              simp only [Loop.result, Loop.setTask] at hok
              split at hok <;> simp_all
            exact ⟨hout w.waiters (true, o :: w.state.2),
              .inr ⟨o, f, ⟨_, ht, rfl, hmust⟩, hres, rfl, rfl⟩⟩
          · cases h
            exact ⟨hout _ _, .inl rfl⟩
          · cases h
            exact ⟨hout w.waiters w.state, .inl rfl⟩
        · cases h
          exact ⟨hout w.waiters w.state, .inl rfl⟩

section

variable (hinv : Inv w) (hb : Balanced heldLock (fun _ _ _ => True) w')

include hinv hb

theorem runReady_inv (h : World.step heldLock w .runReady = some w') : Inv w' := by
  simp only [World.step] at h
  split at h
  · next hd rest _ _ =>
    have hresume : ∀ t exc, { w with loop := { w.loop with ready := rest } }.resumeTask heldLock t
        exc = some w' → Inv w' := by
      intro t exc h
      obtain ⟨hfades, hstate⟩ := resumeTask_spec h
      have hf : Fades w w' := ⟨hfades.waits, hfades.woken⟩
      rcases hstate with hstate | ⟨o, f, heager, hres, hrun, hstate⟩
      · exact hinv.of_fades hb hf hstate
      · have hwoken : w.Woken t := ⟨o, f, heager, hres⟩
        obtain ⟨rfl, hnot⟩ := hinv.waiter t o f heager.waits
        exact hinv.grant hb hf hstate hrun hnot fun u hu => hinv.one u o hu (.inr hwoken)
    cases hd with
    | step t => exact hresume t _ h
    | done cb f =>
      cases cb with
      | wakeup t => exact hresume t _ h
      | client n =>
        cases h
        exact hinv.of_fades hb ⟨fun _ _ _ h => h, fun _ h => h⟩ rfl
    | client n =>
      cases h
      exact hinv.of_fades hb ⟨fun _ _ _ h => h, fun _ h => h⟩ rfl
  · cases h

/-- `acquire` of the running task: it waits on a new future, or takes the lock that nobody holds
or is about to hold. -/
theorem acquire_inv (hrun : w.running = .task t) (hnot : ¬ w.Holds t)
    (hfree : w.state.1 = false → ∀ u, ¬ w.Woken u) (h : w.begin heldLock t t = some w') :
    Inv w' := by
  obtain ⟨-, r, ht⟩ := (hinv.balanced.scheduled_of hrun).idle t rfl
  cases hlk : w.state.1 with
  | false =>
    have hblocked : heldLock.blocked t w.state = false := hlk
    rw [begin, hblocked, if_neg Bool.false_ne_true] at h
    cases h
    have hf : Fades w (w.complete heldLock t t) := by
      refine Fades.setTask (t := t) (r := { r with coro := .outside }) ?_ ?_ (by simp)
      · simp [complete, World.apply, heldLock, lock, enter, Loop.setCoro, Loop.setTask, ht]
      · simp [complete, World.apply, heldLock, lock, enter, Loop.setCoro, Loop.setTask, ht]
    refine hinv.grant hb hf rfl rfl hnot fun u hu => ?_
    rcases hu with hu | hu
    · cases hlk.symm.trans (hinv.flag u hu)
    · exact absurd hu (hfree hlk u)
  | true =>
    have hblocked : heldLock.blocked t w.state = true := hlk
    rw [begin, hblocked, if_pos rfl, park_eq ht] at h
    cases h
    have hwoken : ∀ u, Woken (w.parkedAt heldLock t t r) u → w.Woken u := by
      rintro u ⟨o, f, ⟨v, hv, hc, hmust⟩, hres⟩
      rw [parkedAt_loop] at hv hres
      dsimp only at hv hres
      by_cases hut : u = t
      · -- the new future is pending
        subst hut
        rw [update_self] at hv
        cases hv
        cases hc
        rw [update_self] at hres
        cases hres
      · rw [update_of_ne hut] at hv
        have hmine := (hinv.balanced.ledger.waits u o f ⟨v, hv, hc⟩).1
        have hne := Nat.ne_of_lt (hinv.balanced.ledger.mineFut f hmine).1
        rw [update_of_ne hne] at hres
        exact ⟨o, f, ⟨v, hv, hc, hmust⟩, hres⟩
    refine ⟨hb, fun u o f hw => ?_, hinv.nodup, fun u u' hu hu' => ?_, hinv.flag⟩
    · obtain ⟨v, hv, hc⟩ := hw
      rw [parkedAt_loop] at hv
      dsimp only at hv
      by_cases hut : u = t
      · subst hut
        rw [update_self] at hv
        cases hv
        cases hc
        exact ⟨rfl, hnot⟩
      · rw [update_of_ne hut] at hv
        exact hinv.waiter u o f ⟨v, hv, hc⟩
    · exact hinv.one u u' (hu.imp_right (hwoken u)) (hu'.imp_right (hwoken u'))

/-- `release` of the task that holds the lock: whoever is woken then waits on the future that is
resolved, and only one task does. -/
theorem release_inv (hrun : w.running = .task t) (hholds : w.Holds t)
    (h : w.apply heldLock (heldLock.call t w.state) = w') : Inv w' := by
  have hnone : ∀ u, u ∉ w.state.2.erase t := by
    intro u hu
    obtain rfl : u = t := hinv.one u t (.inl (mem_of_mem_erase hu)) (.inl hholds)
    exact hinv.nodup.not_mem_erase hu
  have hasleep : ∀ u, ¬ w.Woken u := by
    intro u hu
    obtain rfl : u = t := hinv.one u t (.inr hu) (.inl hholds)
    obtain ⟨o, f, heager, -⟩ := hu
    exact hinv.balanced.ledger.outside u hrun o f heager.waits
  have hcall : heldLock.call t w.state = ((false, w.state.2.erase t), some ()) := by
    simp [heldLock, lock, hinv.flag t hholds]
  rw [hcall] at h
  have hstate : w'.state = (false, w.state.2.erase t) := by rw [← h, apply_state]
  have hlost : ∀ u, ¬ w'.Holds u := by
    intro u hu
    rw [Holds, hstate] at hu
    exact hnone u hu
  have hsettled : w'.loop.tasks = w.loop.tasks ∧
      ∀ u u', w'.Woken u → w'.Woken u' → u = u' := by
    simp only [World.apply, wake] at h
    split at h
    · subst h
      exact ⟨rfl, fun u u' hu => absurd hu (hasleep u)⟩
    · next f ws hpick =>
      subst h
      obtain ⟨-, hpend, -⟩ := heldLock_lawful.pick_some hpick
      have hcbs : ∀ u o g, Eager w.loop u o g →
          ((w.loop.finish f (.result ())).futs g).state = .result () →
          (w.loop.futs f).callbacks = [.wakeup u] := by
        intro u o g heager hres
        by_cases hg : g = f
        · subst hg
          obtain ⟨-, ⟨-, hcbs, -⟩ | ⟨hdone, -⟩⟩ := hinv.balanced.ledger.waits u o g heager.waits
          · exact hcbs
          · cases hpend.symm.trans hdone
        · refine absurd ⟨o, g, heager, ?_⟩ (hasleep u)
          simpa [Loop.finish, update_of_ne hg] using hres
      refine ⟨rfl, ?_⟩
      rintro u u' ⟨o, g, heager, hres⟩ ⟨o', g', heager', hres'⟩
      have heq := (hcbs u o g heager hres).symm.trans (hcbs u' o' g' heager' hres')
      cases heq
      rfl
  refine ⟨hb, fun u o f hw => ?_, ?_, fun u u' hu hu' => ?_, fun u hu => absurd hu (hlost u)⟩
  · obtain ⟨r, hr, hc⟩ := hw
    rw [hsettled.1] at hr
    exact ⟨(hinv.waiter u o f ⟨r, hr, hc⟩).1, hlost u⟩
  · rw [hstate]
    exact hinv.nodup.erase t
  · exact hsettled.2 u u' (hu.resolve_left (hlost u)) (hu'.resolve_left (hlost u'))

end

/-- Every action keeps the invariant, an `acquire` under `NoBarging`. -/
theorem step_inv (w : LockWorld) (e : Event FutId FutId) (w' : LockWorld) (hinv : Inv w)
    (hok : NoBarging w e) (hstep : w.step e = some w') : Inv w' := by
  have hlawful := heldLock_lawful
  unfold step at hstep
  split at hstep
  · next hmatched =>
    have hb := step_balanced w e w' hinv.balanced (.inl fun _ _ _ => trivial) hstep
    by_cases he : e.ofClient = true
    · obtain ⟨l, running, hcalm, -, -, rfl⟩ := hinv.balanced.client he hstep
      exact hinv.of_fades hb (Fades.of_calm hinv.balanced hcalm) rfl
    cases e with
    | runReady => exact runReady_inv hinv hb hstep
    | block t =>
      obtain ⟨hrun, hnot⟩ := of_decide_eq_true hmatched
      simp only [World.step, hrun] at hstep
      exact acquire_inv hinv hb hrun hnot hok hstep
    | call t =>
      obtain ⟨hrun, hholds⟩ := of_decide_eq_true hmatched
      simp only [World.step, hrun] at hstep
      exact release_inv hinv hb hrun hholds (Option.some.inj hstep)
    | _ => exact absurd rfl he
  · cases hstep

/-- **Mutual exclusion.** In every run in which no `acquire` finds the flag clear while a woken
waiter is still to be resumed, at most one task is between its `acquire` and its `release`. -/
theorem mutualExclusion_of_noBarging (acts : List (Event FutId FutId)) (w : LockWorld)
    (hok : Guarded step NoBarging { state := heldLock.init } acts)
    (hrun : exec step { state := heldLock.init } acts = some w) : w.MutualExclusion := by
  have hinv := guarded_invariant Inv step_inv inv_init hok hrun
  intro t t' ht ht'
  exact hinv.one t t' (.inl ht) (.inl ht')

/-- Task 0 takes the lock, task 1 waits for it; task 0 gives it back, which wakes task 1; `last`
follows. -/
def handover (last : List (Event FutId FutId)) : List (Event FutId FutId) :=
  [.createTask, .createTask, .runReady, .block 0, .yieldNone, .runReady, .block 1, .runReady,
    .call 0] ++ last

/-- An `acquire` that finds the flag clear does so while no future of the lock exists. -/
def noneWaits (w : LockWorld) : Event FutId FutId → Bool
  | .block _ => w.state.1 || (List.range w.loop.nextId).all fun f => !w.mine f
  | _ => true

theorem noBarging_of_noneWaits {e : Event FutId FutId} (hinv : Inv w)
    (h : noneWaits w e = true) : NoBarging w e := by
  cases e with
  | block t =>
    intro hfree u hu
    obtain ⟨o, f, heager, -⟩ := hu
    have hmine := (hinv.balanced.ledger.waits u o f heager.waits).1
    have hlt := (hinv.balanced.ledger.mineFut f hmine).1
    have hnone : ∀ g, g < w.loop.nextId → w.mine g = false := by simpa [noneWaits, hfree] using h
    cases hmine.symm.trans (hnone f hlt)
  | _ => trivial

theorem mutualExclusion_of_noBarging_handover :
    ∃ w, exec step { state := heldLock.init } (handover [.yieldNone, .runReady]) = some w ∧
      w.Holds 1 ∧ w.MutualExclusion := by
  have hnone : Guarded step (fun w e => noneWaits w e = true) { state := heldLock.init }
      (handover [.yieldNone, .runReady]) := .of_guardedBy (fun _ _ h => h) (by decide)
  have hok : Guarded step NoBarging { state := heldLock.init } (handover [.yieldNone, .runReady]) :=
    .of_guarded_invariant Inv
      (fun w e w' hinv h => step_inv w e w' hinv (noBarging_of_noneWaits hinv h))
      (fun _ _ => noBarging_of_noneWaits) inv_init hnone
  have hruns : (exec step { state := heldLock.init } (handover [.yieldNone, .runReady])).any
      fun w => w.Holds 1 := by decide
  obtain ⟨w, hrun, hholds⟩ := (any_eq_true _ _).mp hruns
  exact ⟨w, hrun, of_decide_eq_true hholds, mutualExclusion_of_noBarging _ w hok hrun⟩

/-- The holder acquires again before the waiter it woke is resumed: the waiter then sets the flag
and returns too. -/
theorem barging_two_holders :
    ∃ w, exec step { state := heldLock.init } (handover [.block 0, .yieldNone, .runReady]) =
      some w ∧ ¬ w.MutualExclusion := by
  refine ⟨_, rfl, fun h => ?_⟩
  exact absurd (h 0 1 (by decide) (by decide)) (by decide)

end LockWorld

end PythonOS.Asyncio
