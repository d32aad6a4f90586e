import Mathlib.Logic.Function.Basic
import PythonOS.Lib.Runs

/-!
# PythonOS.Boot.Kthread

The cooperative kernel threads of `kthread.c`. A thread runs until it calls the scheduler, so
what happens between two calls is left out, and a run is any sequence of calls.

The boot thread has slot 0 and no trampoline. It never ends, so whenever another thread is
current some thread is runnable, and the thread that ends is left for good.
-/

namespace PythonOS.Boot

open Lib Function

/-- `kthread_state_t`. -/
inductive KthreadState
  | unused
  | runnable
  | running
  | zombie
  deriving Repr, DecidableEq

/-- The states in `threads`, `current_thread` and `initialized`. -/
structure Kthreads where
  state : Nat → KthreadState := fun _ => .unused
  current : Option Nat := none
  initialized : Bool := false

/-- What the current thread does: it calls `kthread_create`, with an entry or with `NULL`, it
calls `kthread_yield`, or its entry returns. -/
inductive KthreadEvent
  | create (entry : Bool)
  | yield
  | exit
  deriving Repr, DecidableEq

namespace Kthreads

def kthreadMax : Nat := 8

/-- `kthread_init`. -/
def init (k : Kthreads) : Kthreads :=
  if k.initialized then k
  else { state := update (fun _ => .unused) 0 .running, current := some 0, initialized := true }

/-- `kthread_create`: the slot, if there is one. -/
def create (k : Kthreads) (entry : Bool) : Option Nat × Kthreads :=
  if entry then
    let k := k.init
    match (List.range' 1 (kthreadMax - 1)).find? fun i =>
        k.state i = .unused ∨ k.state i = .zombie with
    | some i => (some i, { k with state := update k.state i .runnable })
    | none => (none, k)
  else (none, k)

/-- The loop of `kthread_pick_next` over `n` offsets. -/
def pickFrom (k : Kthreads) (start : Nat) : (n offset : Nat) → Nat
  | 0, _ => start
  | n + 1, offset =>
    if k.state ((start + offset) % kthreadMax) = .runnable then (start + offset) % kthreadMax
    else k.pickFrom start n (offset + 1)

/-- `kthread_pick_next`. -/
def pickNext (k : Kthreads) (current : Nat) : Nat := k.pickFrom current kthreadMax 1

/-- The state of the thread that is left, and then that of the next one. -/
def switch (k : Kthreads) (previous next : Nat) : Kthreads :=
  let state := if k.state previous = .running then update k.state previous .runnable else k.state
  { k with state := update state next .running, current := some next }

/-- `kthread_yield`. -/
def yield (k : Kthreads) : Kthreads :=
  match k.initialized, k.current with
  | true, some previous =>
    if k.pickNext previous = previous then k else k.switch previous (k.pickNext previous)
  | _, _ => k

/-- The end of `kthread_trampoline`, by which the boot thread was not started. -/
def exit (k : Kthreads) : Option Kthreads :=
  match k.current with
  | some (i + 1) => some { k with state := update k.state (i + 1) .zombie }.yield
  | _ => none

def step (k : Kthreads) : KthreadEvent → Option Kthreads
  | .create entry => some (k.create entry).2
  | .yield => some k.yield
  | .exit => k.exit

/-- The events that call `kthread_yield`. -/
def yields : KthreadEvent → Bool
  | .create _ => false
  | .yield | .exit => true

/-- Exactly one thread is marked running, and it is the current one. -/
def OneRunning (k : Kthreads) : Prop :=
  k.initialized = true → ∃ c, k.current = some c ∧ ∀ i, k.state i = .running ↔ i = c

/-- When the current thread `i` ends it is a zombie, and it stays one and is not scheduled in any
run from there on, unless its slot is given to a new thread on the way. -/
def Buried (k : Kthreads) : Prop :=
  ∀ i k₁ evs k', k.current = some i → step k .exit = some k₁ → exec step k₁ evs = some k' →
    k'.state i = .zombie ∧ k'.current ≠ some i ∨
      ∃ pre entry post k₂, evs = pre ++ .create entry :: post ∧ exec step k₁ pre = some k₂ ∧
        (k₂.create entry).1 = some i

/-- A new thread gets no slot of a thread that has not ended. -/
def FreshSlot (k : Kthreads) : Prop :=
  ∀ entry i, (k.create entry).1 = some i → k.state i = .unused ∨ k.state i = .zombie

/-- A runnable thread becomes current within `kthreadMax` yields, whoever makes them. -/
def Fair (k : Kthreads) : Prop :=
  ∀ t evs k', k.state t = .runnable → exec step k evs = some k' →
    kthreadMax ≤ evs.countP yields →
    ∃ pre k'', pre <+: evs ∧ pre.countP yields ≤ kthreadMax ∧ exec step k pre = some k'' ∧
      k''.current = some t

/-- How many places `t` is behind `c`. -/
def behind (c t : Nat) : Nat := (t + kthreadMax - c) % kthreadMax

variable {k k' : Kthreads} {c t : Nat}

/-- Thread `c` is current and no other one is marked running, and the boot thread has not
ended. -/
structure Sole (k : Kthreads) (c : Nat) : Prop where
  initialized : k.initialized = true
  current : k.current = some c
  lt : c < kthreadMax
  running : ∀ i, k.state i = .running → i = c
  self : k.state c ≠ .runnable
  boot : k.state 0 = .running ∨ k.state 0 = .runnable
  unused : ∀ i, kthreadMax ≤ i → k.state i = .unused

/-- Thread `c` runs. -/
structure Inv (k : Kthreads) (c : Nat) : Prop extends Sole k c where
  runs : k.state c = .running

theorem Sole.lt_of_runnable (h : Sole k c) (ht : k.state t = .runnable) : t < kthreadMax :=
  Nat.lt_of_not_le fun hle => by simp [h.unused t hle] at ht

theorem Sole.behind_pos (h : Sole k c) (ht : k.state t = .runnable) : 1 ≤ behind c t := by
  have hc := h.lt
  have ht8 := h.lt_of_runnable ht
  have hne : t ≠ c := fun heq => h.self (heq ▸ ht)
  unfold behind kthreadMax at *
  omega

theorem inv_init : Inv (init {}) 0 := by
  refine ⟨⟨rfl, rfl, by decide, ?_, by decide, by decide, ?_⟩, rfl⟩ <;> intro i hi
  · by_contra hne
    simp [init, hne] at hi
  · have hne : i ≠ 0 := fun h0 => absurd (h0 ▸ hi) (by decide)
    simp [init, hne]

/-! ### `kthread_create` -/

/-- A new thread changes the state of its slot only, and that slot was free. -/
theorem Inv.create (h : Inv k c) (entry : Bool) : Inv (k.create entry).2 c ∧
    ∀ i, if (k.create entry).1 = some i then k.state i = .unused ∨ k.state i = .zombie
      else (k.create entry).2.state i = k.state i := by
  unfold Kthreads.create
  rw [show k.init = k from if_pos h.initialized]
  dsimp only
  split
  · split
    · next i hfind =>
      have hmem := List.mem_range'_1.mp (List.mem_of_find?_eq_some hfind)
      have hfree : k.state i = .unused ∨ k.state i = .zombie := by
        simpa using List.find?_some hfind
      have hlt : i < kthreadMax := hmem.2
      have hstate := update_apply k.state i KthreadState.runnable
      obtain ⟨⟨hinit, hcur, hlt, hrun, hself, hboot, hunused⟩, hruns⟩ := h
      refine ⟨⟨⟨hinit, hcur, hlt, ?_, ?_, ?_, ?_⟩, ?_⟩, ?_⟩ <;> grind
    · exact ⟨h, fun _ => rfl⟩
  · exact ⟨h, fun _ => rfl⟩

/-! ### `kthread_yield` -/

/-- The loop stops at the first runnable thread, so no later than at the one at distance `d`. -/
theorem pickFrom_spec {d : Nat} (hd : k.state ((c + d) % kthreadMax) = .runnable) :
    ∀ {n o : Nat}, o ≤ d → d < o + n → ∃ d', o ≤ d' ∧ d' ≤ d ∧
      k.pickFrom c n o = (c + d') % kthreadMax ∧
      k.state ((c + d') % kthreadMax) = .runnable := by
  intro n
  induction n with
  | zero =>
    intro o hlo hhi
    omega
  | succ n ih =>
    intro o hlo hhi
    unfold pickFrom
    split
    · next hrun => exact ⟨o, Nat.le_refl _, hlo, rfl, hrun⟩
    · next hrun =>
      have hne : o ≠ d := by
        rintro rfl
        exact hrun hd
      obtain ⟨d', hlo', hrest⟩ := ih (o := o + 1) (by omega) (by omega)
      exact ⟨d', by omega, hrest⟩

/-- With another thread runnable, the next one is runnable and no further behind. -/
theorem pickNext_spec (hc : c < kthreadMax) (ht : t < kthreadMax) (hne : t ≠ c)
    (hrun : k.state t = .runnable) :
    k.state (k.pickNext c) = .runnable ∧ behind c (k.pickNext c) ≤ behind c t := by
  unfold behind kthreadMax at *
  have hd : (c + (t + 8 - c) % 8) % 8 = t := by omega
  obtain ⟨d', hlo, hhi, heq, hrun'⟩ := pickFrom_spec (k := k) (c := c)
    (d := (t + 8 - c) % 8) (n := 8) (o := 1) (by rw [kthreadMax, hd]; exact hrun) (by omega)
    (by omega)
  have hnext : k.pickNext c = (c + d') % 8 := heq
  rw [hnext]
  exact ⟨hrun', by omega⟩

theorem pickFrom_none (hno : ∀ t, k.state t ≠ .runnable) (start n offset : Nat) :
    k.pickFrom start n offset = start := by
  induction n generalizing offset with
  | zero => rfl
  | succ n ih => rw [pickFrom, if_neg (hno _), ih]

theorem switch_state (k : Kthreads) (c n i : Nat) : (k.switch c n).state i =
    if i = n then .running else if i = c ∧ k.state c = .running then .runnable else k.state i := by
  unfold switch
  grind [update_apply]

/-- **One yield**, with some thread runnable: what has ended stays so, and every runnable thread
is scheduled or comes nearer. -/
theorem Sole.yield (h : Sole k c) (hsome : ∃ t, k.state t = .runnable) :
    ∃ n, Inv k.yield n ∧ (∀ i, k.state i = .zombie → k.yield.state i = .zombie) ∧
      ∀ t, k.state t = .runnable → n = t ∨
        k.yield.state t = .runnable ∧ behind n t < behind c t := by
  have hne : ∀ t, k.state t = .runnable → t ≠ c := fun t ht heq => h.self (heq ▸ ht)
  have hpick : ∀ t, k.state t = .runnable → k.state (k.pickNext c) = .runnable ∧
      behind c (k.pickNext c) ≤ behind c t :=
    fun t ht => pickNext_spec h.lt (h.lt_of_runnable ht) (hne t ht) ht
  obtain ⟨t, ht⟩ := hsome
  have hn := (hpick t ht).1
  have hn8 := h.lt_of_runnable hn
  have heq : k.yield = k.switch c (k.pickNext c) := by
    simp [Kthreads.yield, h.initialized, h.current, hne _ hn]
  have hstate := switch_state k c (k.pickNext c)
  rw [← heq] at hstate
  obtain ⟨hinit, hcur, hlt, hrun, hself, hboot, hunused⟩ := h
  refine ⟨k.pickNext c, ⟨⟨by rw [heq]; exact hinit, by rw [heq]; rfl, hn8, ?_, ?_, ?_, ?_⟩, ?_⟩, ?_,
    fun t ht => ?_⟩
  iterate 6 grind
  refine (Classical.em (k.pickNext c = t)).imp_right fun hnt => ⟨by grind, ?_⟩
  have hle := (hpick t ht).2
  have ht8 : t < kthreadMax := by grind
  have hcn := hne _ hn
  unfold behind kthreadMax at *
  omega

/-- **One step.** What has ended, now or before, stays so unless its slot is given away. -/
theorem Inv.step {e : KthreadEvent} (h : Inv k c) (hstep : step k e = some k') :
    ∃ n, Inv k' n ∧ (∀ i, k.state i = .zombie ∨ e = .exit ∧ i = c → k'.state i = .zombie ∨
        ∃ entry, e = .create entry ∧ (k.create entry).1 = some i) ∧
      ∀ t, k.state t = .runnable → n = t ∨ k'.state t = .runnable ∧
        if yields e then behind n t < behind c t else n = c := by
  cases e with
  | create entry =>
    cases hstep
    obtain ⟨hinv, hframe⟩ := h.create entry
    refine ⟨c, hinv, fun i hi => ?_, fun t ht => .inr ⟨?_, rfl⟩⟩
    · by_cases heq : (k.create entry).1 = some i
      · exact .inr ⟨entry, rfl, heq⟩
      · have hsame := hframe i
        rw [if_neg heq] at hsame
        exact .inl (hsame.trans (hi.resolve_right nofun))
    · have hsame := hframe t
      split at hsame
      · simp [ht] at hsame
      · exact hsame.trans ht
  | yield =>
    cases hstep
    by_cases hsome : ∃ t, k.state t = .runnable
    · obtain ⟨n, hinv, hz, hr⟩ := h.yield hsome
      exact ⟨n, hinv, fun i hi => .inl (hz i (hi.resolve_right nofun)), hr⟩
    · have hno : ∀ t, k.state t ≠ .runnable := fun t ht => hsome ⟨t, ht⟩
      have heq : k.yield = k := by
        simp [Kthreads.yield, h.initialized, h.current, pickNext, pickFrom_none hno]
      rw [heq]
      exact ⟨c, h, fun i hi => .inl (hi.resolve_right nofun), fun t ht => absurd ht (hno t)⟩
  | exit =>
    simp only [Kthreads.step, exit] at hstep
    split at hstep <;> cases hstep
    next i hcur =>
    obtain rfl : i + 1 = c := Option.some.inj (hcur.symm.trans h.current)
    have hboot : k.state 0 = .runnable :=
      h.boot.resolve_left fun h0 => absurd (h.running 0 h0) (by omega)
    have hstate : ∀ j, { k with state := update k.state (i + 1) .zombie }.state j =
        if j = i + 1 then .zombie else k.state j := fun j => update_apply ..
    have hsole : Sole { k with state := update k.state (i + 1) .zombie } (i + 1) := by
      obtain ⟨⟨hinit, hcur, hlt, hrun, hself, -, hunused⟩, -⟩ := h
      refine ⟨hinit, hcur, hlt, ?_, ?_, .inr hboot, ?_⟩ <;> grind
    obtain ⟨n, hinv, hz, hr⟩ := hsole.yield ⟨0, hboot⟩
    refine ⟨n, hinv, fun j hj => .inl (hz j ?_), fun t ht => hr t ?_⟩
    · grind
    · have hne : t ≠ i + 1 := fun heq => h.self (heq ▸ ht)
      rw [hstate, if_neg hne, ht]

/-! ### Runs -/

variable {evs : List KthreadEvent}

theorem run_inv (hrun : exec step {} evs = some k) :
    k = {} ∨ ∃ c, Inv k c := by
  refine exec_invariant (fun k => k = {} ∨ ∃ c, Inv k c) ?_ (.inl rfl) hrun
  rintro k e k' (rfl | ⟨c, h⟩) hstep
  · cases e with
    | create entry =>
      cases hstep
      cases entry with
      | false => exact .inl rfl
      | true => exact .inr ⟨0, (inv_init.create true).1⟩
    | yield =>
      cases hstep
      exact .inl rfl
    | exit => cases hstep
  · obtain ⟨n, hinv, -⟩ := h.step hstep
    exact .inr ⟨n, hinv⟩

/-- A thread that is `d` places behind is scheduled within `d` yields. -/
theorem Inv.scheduled (h : Inv k c) (ht : k.state t = .runnable)
    (hrun : exec Kthreads.step k evs = some k') (hcount : behind c t ≤ evs.countP yields) :
    ∃ pre k'', pre <+: evs ∧ pre.countP yields ≤ behind c t ∧
      exec Kthreads.step k pre = some k'' ∧ k''.current = some t := by
  induction evs generalizing k c with
  | nil => exact absurd hcount (Nat.not_le.mpr (h.behind_pos ht))
  | cons e evs ih =>
    obtain ⟨k1, hstep, hrest⟩ := exec_cons_eq_some.mp hrun
    obtain ⟨n, hinv, -, hr⟩ := h.step hstep
    have hpos := h.behind_pos ht
    rcases hr t ht with rfl | ⟨ht', hle⟩
    · refine ⟨[e], k1, ⟨evs, rfl⟩, ?_, exec_cons_eq_some.mpr ⟨k1, hstep, rfl⟩, hinv.current⟩
      exact Nat.le_trans List.countP_le_length hpos
    · rw [List.countP_cons] at hcount
      obtain ⟨pre, k'', ⟨post, rfl⟩, hpre, hexec, hcur⟩ := ih hinv ht' hrest (by grind)
      refine ⟨e :: pre, k'', ⟨post, rfl⟩, ?_, exec_cons_eq_some.mpr ⟨k1, hstep, hexec⟩, hcur⟩
      rw [List.countP_cons]
      grind

/-- A zombie stays one, and is not scheduled, as long as no creation returns its slot. -/
theorem Inv.buried {i : Nat} (h : Inv k c) (hz : k.state i = .zombie)
    (hrun : exec Kthreads.step k evs = some k') :
    k'.state i = .zombie ∧ k'.current ≠ some i ∨
      ∃ pre entry post k₂, evs = pre ++ .create entry :: post ∧
        exec Kthreads.step k pre = some k₂ ∧ (k₂.create entry).1 = some i := by
  induction evs generalizing k c with
  | nil =>
    cases hrun
    refine .inl ⟨hz, fun hcur => ?_⟩
    cases hcur.symm.trans h.current
    cases hz.symm.trans h.runs
  | cons e evs ih =>
    obtain ⟨k₁, hstep, hrest⟩ := exec_cons_eq_some.mp hrun
    obtain ⟨n, hinv, hburied, -⟩ := h.step hstep
    rcases hburied i (.inl hz) with hz' | ⟨entry, rfl, hslot⟩
    · refine (ih hinv hz' hrest).imp_right ?_
      rintro ⟨pre, entry, post, k₂, rfl, hpre, hslot⟩
      exact ⟨e :: pre, entry, post, k₂, rfl, exec_cons_eq_some.mpr ⟨k₁, hstep, hpre⟩, hslot⟩
    · exact .inr ⟨[], entry, evs, k, rfl, rfl, hslot⟩

/-- **The scheduler**, after every run: one thread runs, a thread that has ended is left alone
until its slot is reused, a new thread gets a free slot, and nobody starves. -/
theorem scheduled_fairly (hrun : exec step {} evs = some k) :
    k.OneRunning ∧ k.Buried ∧ k.FreshSlot ∧ k.Fair := by
  obtain rfl | ⟨c, h⟩ := run_inv hrun
  · refine ⟨?_, ?_, fun _ _ _ => .inl rfl, ?_⟩
    · intro hinit
      cases hinit
    · intro _ _ _ _ hcur
      cases hcur
    · intro _ _ _ ht
      cases ht
  · refine ⟨fun _ => ⟨c, h.current, fun i => ⟨h.running i, fun hi => hi ▸ h.runs⟩⟩,
      fun i k₁ evs k' hcur hstep hexec => ?_, fun entry i hslot => ?_,
      fun t evs k' ht hexec hcount => ?_⟩
    · obtain ⟨n, hinv, hburied, -⟩ := h.step hstep
      cases hcur.symm.trans h.current
      exact hinv.buried ((hburied _ (.inr ⟨rfl, rfl⟩)).resolve_right nofun) hexec
    · have hfree := (h.create entry).2 i
      rwa [if_pos hslot] at hfree
    · have hlt : behind c t ≤ kthreadMax := Nat.le_of_lt (Nat.mod_lt _ (by decide))
      obtain ⟨pre, k'', hpre, hle, hrest⟩ := h.scheduled ht hexec (Nat.le_trans hlt hcount)
      exact ⟨pre, k'', hpre, Nat.le_trans hle hlt, hrest⟩

/-- Two threads, one of which ends. -/
theorem scheduled_fairly_two : ∃ k,
    exec step {} [.create true, .create true, .yield, .exit] = some k ∧
      k.OneRunning ∧ k.Buried ∧ k.FreshSlot ∧ k.Fair :=
  (Option.isSome_iff_exists.mp rfl).imp fun _ hrun => ⟨hrun, scheduled_fairly hrun⟩

end Kthreads

end PythonOS.Boot
