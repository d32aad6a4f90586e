import Mathlib.Data.List.TakeWhile
import PythonOS.Asyncio.Queue

/-!
# PythonOS.Asyncio.Wakeups

`Lock` and `Semaphore` (`locks.py`) beside `Queue`, and when a wakeup of one of
them is lost: an uncancelled task waits for something that is free, and nobody
of its list is about to be resumed after a wakeup.

The three follow one rule. An operation that makes room for one more waiter
wakes the list, and a waiter that goes on takes the room of one (`Lawful`).
-/

namespace PythonOS.Asyncio

open List

/-! ### The primitives -/

/-- `Lock`: the flag; `acquire` does not look at it again after its wait. `release` raises
`RuntimeError` when the flag is clear. -/
def lock : Primitive Bool Unit Unit Unit where
  init := false
  queue _ := ()
  blocked _ locked := locked
  again := false
  act _ _ := (true, none)
  call _ locked := if locked then (false, some ()) else (locked, none)
  pick done futs :=
    match futs.find? fun f => !done f with
    | none => (none, futs)
    | some f => (some f, futs.erase f)

/-- `Semaphore(value)`: a woken future stays in the list. -/
def semaphore (value : Nat) : Primitive Nat Unit Unit Unit where
  init := value
  queue _ := ()
  blocked _ value := decide (value ≤ 0)
  again := true
  act _ value := (value - 1, none)
  call _ value := (value + 1, some ())
  pick done futs := (futs.find? fun f => !done f, futs)

namespace World

variable {σ ω ν κ : Type} [DecidableEq κ] {P : Primitive σ ω ν κ}

/-! ### The property -/

/-- Task `t` is suspended in the operation `o` on the future `f`. -/
def Waits (l : Loop Unit (Stand ω)) (t : FutId) (o : ω) (f : FutId) : Prop :=
  ∃ r, l.tasks t = some r ∧ r.coro = .waiting o f

/-- Task `t` is suspended there and no cancellation is going to overtake its resumption. -/
def Eager (l : Loop Unit (Stand ω)) (t : FutId) (o : ω) (f : FutId) : Prop :=
  ∃ r, l.tasks t = some r ∧ r.coro = .waiting o f ∧ r.mustCancel = false

/-- The handle resumes a task that waits in the list `k` and has been woken. -/
def wokenBy (P : Primitive σ ω ν κ) (l : Loop Unit (Stand ω)) (k : κ) : Handle → Bool
  | .done (.wakeup t) f =>
    match l.coroOf t with
    | some (.waiting o g) =>
      decide (P.queue o = k ∧ g = f ∧ (l.futs f).state = .result ())
    | _ => false
  | _ => false

/-- An uncancelled task waits for what is free, and nobody in its list is about to be resumed
after a wakeup. -/
def LostWakeup (P : Primitive σ ω ν κ) (w : World σ ω κ) : Prop :=
  ∃ t r o f, w.loop.tasks t = some r ∧ r.coro = .waiting o f ∧ r.mustCancel = false ∧
    w.loop.done f = false ∧ P.blocked o w.state = false ∧
    ∀ h ∈ w.loop.ready, wokenBy P w.loop (P.queue o) h = false

/-- A woken waiter whose turn it is has not been cancelled. -/
def WokenGoesOn (P : Primitive σ ω ν κ) (w : World σ ω κ) : Event ω ν → Prop
  | .runReady =>
    ∀ t f k, w.loop.ready.head? = some (.done (.wakeup t) f) →
      wokenBy P w.loop k (.done (.wakeup t) f) = true →
      ∀ r, w.loop.tasks t = some r → r.mustCancel = false
  | _ => True

/-! ### What the three have in common -/

/-- `atMost k s n` says that in the state `s` at most `n` waiters of the list `k` could go on. An
operation wakes a list when it makes room for one more in it, and a blocking operation that goes
on takes the room of one. -/
structure Lawful (P : Primitive σ ω ν κ) (atMost : κ → σ → Nat → Prop) : Prop where
  mono : ∀ {k s n m}, n ≤ m → atMost k s n → atMost k s m
  blocked_le : ∀ {o s}, P.blocked o s = true → atMost (P.queue o) s 0
  act_takes : ∀ {o s n}, (P.again = true → P.blocked o s = false) →
    atMost (P.queue o) s (n + 1) → atMost (P.queue o) (P.act o s).1 n
  act_le : ∀ {o s k n}, (P.again = true → P.blocked o s = false) → atMost k s n →
    atMost k (P.act o s).1 (n + if (P.act o s).2 = some k then 1 else 0)
  call_le : ∀ {c s k n}, atMost k s n →
    atMost k (P.call c s).1 (n + if (P.call c s).2 = some k then 1 else 0)
  pick_none : ∀ {done futs rest}, P.pick done futs = (none, rest) → ∀ f ∈ futs, done f = true
  pick_some : ∀ {done futs f rest}, P.pick done futs = (some f, rest) →
    f ∈ futs ∧ done f = false ∧ ∀ g ∈ futs, done g = false → g ≠ f → g ∈ rest
  pick_subset : ∀ {done futs x rest}, P.pick done futs = (x, rest) → ∀ f ∈ rest, f ∈ futs

attribute [class] Lawful

/-- With nothing said about how many could go on, only the choice of the waiter matters. -/
theorem Lawful.trivial {σ' ω' ν' : Type} {P' : Primitive σ' ω' ν' κ}
    {atMost : κ → σ → Nat → Prop} (h : Lawful P atMost) (hpick : P'.pick = P.pick) :
    Lawful P' fun _ _ _ => True where
  mono _ _ := .intro
  blocked_le _ := .intro
  act_takes _ _ := .intro
  act_le _ _ := .intro
  call_le _ := .intro
  pick_none := hpick ▸ h.pick_none
  pick_some := hpick ▸ h.pick_some
  pick_subset := hpick ▸ h.pick_subset

theorem find_not_some {done : FutId → Bool} {futs : List FutId} {f : FutId}
    (h : (futs.find? fun f => !done f) = some f) : f ∈ futs ∧ done f = false := by
  refine ⟨mem_of_find?_eq_some h, ?_⟩
  have hf := find?_some h
  simpa using hf

theorem find_not_none {done : FutId → Bool} {futs : List FutId}
    (h : (futs.find? fun f => !done f) = none) : ∀ f ∈ futs, done f = true := by
  intro f hf
  have hno := find?_eq_none.mp h f hf
  simpa using hno

theorem lock_lawful : Lawful lock fun _ locked n => locked = true ∨ 1 ≤ n where
  mono hle h := h.imp_right fun h => Nat.le_trans h hle
  blocked_le := .inl
  act_takes _ _ := .inl rfl
  act_le _ _ := .inl rfl
  call_le {c s k n} h := by
    cases s with
    | false => exact .inr (h.resolve_left Bool.false_ne_true)
    | true => exact .inr (Nat.le_add_left _ _)
  pick_none {done futs rest} h := by
    simp only [lock] at h
    split at h
    · next hfind => exact find_not_none hfind
    · cases h
  pick_some {done futs f rest} h := by
    simp only [lock] at h
    split at h <;> cases h
    next hfind =>
      obtain ⟨hmem, hdone⟩ := find_not_some hfind
      exact ⟨hmem, hdone, fun g hg _ hne => (mem_erase_of_ne hne).mpr hg⟩
  pick_subset {done futs x rest} h f hf := by
    simp only [lock] at h
    split at h
    · cases h
      exact hf
    · cases h
      exact mem_of_mem_erase hf

theorem semaphore_lawful (value : Nat) : Lawful (semaphore value) fun _ value n => value ≤ n where
  mono hle h := Nat.le_trans h hle
  blocked_le h := of_decide_eq_true h
  act_takes {o s n} _ h := by
    show s - 1 ≤ n
    omega
  act_le {o s k n} _ h := Nat.le_trans (Nat.sub_le ..) (Nat.le_trans h (Nat.le_add_right ..))
  call_le {c s k n} h := Nat.succ_le_succ h
  pick_none {done futs rest} h := find_not_none (Prod.mk.inj h).1
  pick_some {done futs f rest} h := by
    obtain ⟨hfind, hrest⟩ := Prod.mk.inj h
    obtain ⟨hmem, hdone⟩ := find_not_some hfind
    exact ⟨hmem, hdone, fun g hg _ _ => hrest ▸ hg⟩
  pick_subset {done futs x rest} h f hf := (Prod.mk.inj h).2 ▸ hf

end World

namespace Queue

variable {α : Type}

/-- Getters can go on as long as there are items, putters as long as there is room. -/
def atMost : Side → History α → Nat → Prop
  | .getters, h, n => h.queue.items.length ≤ n
  | .putters, h, n => 0 < h.queue.maxsize ∧ h.queue.maxsize ≤ h.queue.items.length + n

theorem full_iff {q : Queue α} : q.full = true ↔ 0 < q.maxsize ∧ q.maxsize ≤ q.items.length := by
  simp [full]

section

variable {h : History α} {caught : QueueError → List QueueError} {k : Side} {n : Nat}
  (hn : atMost k h n)

include hn

/-- What `put_nowait` does to the room on both sides. -/
theorem putNowait_atMost {item : α} :
    atMost k (h.putNowait item caught).1
      (n + if (h.putNowait item caught).2 = some k then 1 else 0) := by
  unfold History.putNowait putNowait
  by_cases hfull : h.queue.full = true
  · rw [if_pos hfull]
    cases k with
    | getters => exact hn
    | putters => exact hn
  · rw [if_neg hfull]
    cases k with
    | getters =>
      show (h.queue.items ++ [item]).length ≤ n + 1
      rw [length_append, length_singleton]
      exact Nat.succ_le_succ hn
    | putters =>
      obtain ⟨hpos, hle⟩ := hn
      refine ⟨hpos, ?_⟩
      show h.queue.maxsize ≤ ((h.queue.items ++ [item]).length : Int) + n
      rw [length_append, length_singleton]
      omega

/-- The same for `get_nowait`. -/
theorem getNowait_atMost :
    atMost k (h.getNowait caught).1 (n + if (h.getNowait caught).2 = some k then 1 else 0) := by
  unfold History.getNowait getNowait
  cases hitems : h.queue.items with
  | nil =>
    cases k with
    | getters => exact hn
    | putters => exact hn
  | cons item items =>
    cases k with
    | getters =>
      have hlen : h.queue.items.length ≤ n := hn
      rw [hitems, length_cons] at hlen
      show items.length ≤ n
      omega
    | putters =>
      obtain ⟨hpos, hle⟩ := hn
      rw [hitems, length_cons] at hle
      refine ⟨hpos, ?_⟩
      show h.queue.maxsize ≤ (items.length : Int) + ((n + 1 : Nat) : Int)
      omega

end

theorem blocked_iff {maxsize : Int} {o : Blocking α} {h : History α} :
    (primitive α maxsize).blocked o h = true ↔ atMost ((primitive α maxsize).queue o) h 0 := by
  cases o with
  | put item =>
    show h.queue.full = true ↔ _
    rw [full_iff]
    simp [atMost, primitive]
  | get => simp [primitive, atMost, empty]

theorem lawful (maxsize : Int) : World.Lawful (primitive α maxsize) atMost where
  mono {k s n m} hle h := by
    cases k with
    | getters => exact Nat.le_trans h hle
    | putters => exact ⟨h.1, by have := h.2; omega⟩
  blocked_le := blocked_iff.mp
  act_takes {o h n} hfree hn := by
    have hunblocked := hfree rfl
    cases o with
    | put item =>
      have hfull : ¬ h.queue.full = true := by
        intro hfull
        cases hunblocked.symm.trans hfull
      obtain ⟨hpos, hle⟩ := hn
      show atMost .putters (h.putNowait item _).1 n
      unfold History.putNowait putNowait
      rw [if_neg hfull]
      refine ⟨hpos, ?_⟩
      show h.queue.maxsize ≤ ((h.queue.items ++ [item]).length : Int) + n
      rw [length_append, length_singleton]
      omega
    | get =>
      have hlen : h.queue.items.length ≤ n + 1 := hn
      show atMost .getters (h.getNowait _).1 n
      unfold History.getNowait getNowait
      cases hitems : h.queue.items with
      | nil =>
        show h.queue.items.length ≤ n
        rw [hitems]
        exact Nat.zero_le _
      | cons item items =>
        rw [hitems, length_cons] at hlen
        exact Nat.le_of_succ_le_succ hlen
  act_le {o h k n} _ hn := by
    cases o with
    | put item => exact putNowait_atMost hn
    | get => exact getNowait_atMost hn
  call_le {c h k n} hn := by
    cases c with
    | putNowait item => exact putNowait_atMost hn
    | getNowait => exact getNowait_atMost hn
  pick_none {done futs rest} h := by
    simp only [primitive, pick] at h
    split at h
    · next hdrop => exact dropWhile_eq_nil_iff.mp hdrop
    · cases h
  pick_some {done futs f rest} h := by
    simp only [primitive, pick] at h
    split at h <;> cases h
    next hdrop =>
      have hsplit : futs = futs.takeWhile done ++ f :: rest := by
        rw [← hdrop, takeWhile_append_dropWhile]
      have hdone : done f = false := by
        have hhead := head?_dropWhile_not done futs
        rw [hdrop] at hhead
        simpa using hhead
      refine ⟨?_, hdone, fun g hg hgdone hne => ?_⟩
      · rw [hsplit]
        simp
      · rw [hsplit] at hg
        rcases mem_append.mp hg with hg | hg
        · rw [mem_takeWhile_imp hg] at hgdone
          cases hgdone
        · exact (mem_cons.mp hg).resolve_left hne
  pick_subset {done futs x rest} h f hf := by
    simp only [primitive, pick] at h
    split at h
    · cases h
      cases hf
    · next g gs hdrop =>
      cases h
      refine (dropWhile_sublist done).subset ?_
      rw [hdrop]
      exact mem_cons_of_mem _ hf

end Queue

end PythonOS.Asyncio
