import PythonOS.Boot.Smp
import PythonOS.Lib.Runs

/-!
# PythonOS.Libc.Pthread

Waiting for jobs: `smp_join_worker` (`smp.c`, `smp_arm64.c`) and the threads of
`pthread.c` on top of it, under every interleaving of callers and CPUs. A caller
is in one place of one of the functions at a time; what a lock covers is one
step.

A join waits until `mailbox_done` of the job's CPU is the job's number and then
reads `mailbox_result`. Once the CPU has finished another job neither is about
the first one any more: `second_job_hides_first` is a run in which
`pthread_join` of a finished thread spins forever. `joins_return_results` is the
property for a job whose CPU has not been given another one.
-/

namespace PythonOS.Libc.Pthread

open Boot Function List Option Lib

/-- `MAX_PTHREADS`. -/
def maxPthreads : Nat := 16

/-- What is submitted: some function, or `pthread_worker_entry` with a record. -/
inductive Job
  | plain (n : Nat)
  | thread (i : Nat)
  deriving Repr, DecidableEq

/-- `pthread_record_t`, with the number of the thread's job in the log. The thread's id is the
index of the record. -/
structure Record where
  inUse : Bool := false
  detached : Bool := false
  done : Bool := false
  workerHandle : Nat := 0
  retval : UInt64 := 0
  job : Option Nat := none
  deriving Repr, DecidableEq

/-- What a call returns. -/
inductive Answer
  | value (v : UInt64)
  | tid (i : Nat)
  | failed | einval | eagain
  deriving Repr, DecidableEq

/-- Where a caller is; `j` is the job it means, `thread` the record if it is in `pthread_join`. -/
inductive Caller
  | idle
  /-- In the loop of `smp_join_worker`. -/
  | joining (j handle : Nat) (thread : Option Nat)
  /-- Before it reads the result. -/
  | leaving (j handle : Nat) (thread : Option Nat)
  /-- In `pthread_join`, before it gives the record back. -/
  | clearing (i : Nat) (v : UInt64)
  /-- In `pthread_create`, before `smp_submit_worker`. -/
  | creating (i : Nat) (detached : Bool)
  /-- In `pthread_create`, before it writes `worker_handle`. -/
  | publishing (i : Nat) (detached : Bool) (handle : Nat)
  | returned (a : Answer)
  deriving Repr, DecidableEq

structure World where
  smp : Smp Job
  records : Nat → Record := fun _ => {}
  callers : Nat → Caller := fun _ => .idle

/-- What can happen next; `p` is a caller. -/
inductive Event
  /-- `smp_submit_worker` of some function. -/
  | submit (n : Nat)
  /-- `smp_join_worker` of the handle of the `j`-th job. -/
  | join (p j : Nat)
  /-- One test of the loop in `smp_join_worker`. -/
  | poll (p : Nat)
  /-- Read `mailbox_result`. -/
  | read (p : Nat)
  /-- `pthread_join` of the thread with record `i`, to the loop in `smp_join_worker`. -/
  | pthreadJoin (p i : Nat)
  /-- The rest of `pthread_join`. -/
  | clear (p : Nat)
  /-- `pthread_create` to the end of its first locked part. -/
  | pthreadCreate (p : Nat) (detached : Bool)
  /-- `pthread_create` submits the job. -/
  | launch (p : Nat)
  /-- The rest of `pthread_create`. -/
  | publish (p : Nat)
  | pthreadDetach (i : Nat)
  /-- A call has returned, and its caller is free for another. -/
  | next (p : Nat)
  /-- A step of the loop of CPU `c`. -/
  | ap (c : Nat) (a : Smp.ApStep)
  deriving Repr, DecidableEq

namespace World

/-- Move the caller `p`. -/
def move (w : World) (p : Nat) (c : Caller) : World :=
  { w with callers := update w.callers p c }

/-- Replace the record `i`. -/
def setRecord (w : World) (i : Nat) (r : Record) : World :=
  { w with records := update w.records i r }

/-- The start of `smp_join_worker`. -/
def startJoin (w : World) (p j handle : Nat) (thread : Option Nat) : World :=
  match w.smp.handleParts handle with
  | none => w.move p (.returned (if thread.isSome then .einval else .failed))
  | some _ => w.move p (.joining j handle thread)

/-- The locked part of `pthread_worker_entry`, when the thread's function has returned `v`. -/
def retire (w : World) (job : Job) (v : UInt64) : World :=
  match job with
  | .plain _ => w
  | .thread i =>
    let r := w.records i
    w.setRecord i { r with retval := v, done := true, inUse := r.inUse && !r.detached }

/-- One step; `none` when it is not possible. -/
def step (w : World) : Event → Option World
  | .submit n => (w.smp.submitWorker (.plain n)).map fun out => { w with smp := out.2 }
  | .join p j =>
    match w.callers p, w.smp.log[j]? with
    | .idle, some e => some (w.startJoin p j e.handle none)
    | _, _ => none
  | .poll p =>
    match w.callers p with
    | .joining j handle thread =>
      match w.smp.handleParts handle with
      | none => none
      | some (i, seq) =>
        if (w.smp.cpus i).mailboxDone ≠ seq then some w
        else some (w.move p (.leaving j handle thread))
    | _ => none
  | .read p =>
    match w.callers p with
    | .leaving _ handle thread =>
      match w.smp.handleParts handle with
      | none => none
      | some (i, _) =>
        match thread with
        | none => some (w.move p (.returned (.value (w.smp.cpus i).mailboxResult)))
        | some k => some (w.move p (.clearing k (w.smp.cpus i).mailboxResult))
    | _ => none
  | .pthreadJoin p i =>
    match w.callers p with
    | .idle =>
      if i < maxPthreads ∧ (w.records i).inUse ∧ ¬ (w.records i).detached then
        some (w.startJoin p ((w.records i).job.getD 0) (w.records i).workerHandle (some i))
      else some (w.move p (.returned .einval))
    | _ => none
  | .clear p =>
    match w.callers p with
    | .clearing i v =>
      some ((w.setRecord i { w.records i with inUse := false }).move p (.returned (.value v)))
    | _ => none
  | .pthreadCreate p detached =>
    match w.callers p with
    | .idle =>
      match (range maxPthreads).find? fun i => !(w.records i).inUse with
      | none => some (w.move p (.returned .eagain))
      | some i => some ((w.setRecord i { inUse := true, detached }).move p (.creating i detached))
    | _ => none
  | .launch p =>
    match w.callers p with
    | .creating i detached =>
      match w.smp.submitWorker (.thread i) with
      | none =>
        some ((w.setRecord i { w.records i with inUse := false }).move p (.returned .eagain))
      | some (handle, smp) =>
        some (({ w with smp }.setRecord i { w.records i with job := some w.smp.log.length }).move
          p (.publishing i detached handle))
    | _ => none
  | .publish p =>
    match w.callers p with
    | .publishing i detached handle =>
      if detached then some (w.move p (.returned (.tid i)))
      else
        some ((w.setRecord i { w.records i with workerHandle := handle }).move p
          (.returned (.tid i)))
    | _ => none
  | .pthreadDetach i =>
    if i < maxPthreads ∧ (w.records i).inUse then
      if (w.records i).done then some (w.setRecord i { w.records i with inUse := false })
      else some (w.setRecord i { w.records i with detached := true })
    else some w
  | .next p =>
    match w.callers p with
    | .returned _ => some (w.move p .idle)
    | _ => none
  | .ap c a =>
    (w.smp.apStep c a).map fun smp =>
      match a, (w.smp.cpus c).loop with
      | .ret v, .running _ job => { w with smp }.retire job v
      | _, _ => { w with smp }

/-- `count` CPUs with empty mailboxes. -/
def start (count : Nat) (isBsp online ready : Nat → Bool) : World :=
  { smp :=
      { cpus := fun i => { isBsp := isBsp i, online := online i, runtimeReady := ready i }
        count } }

/-- The caller is in a function that is going to write to the record `i`. -/
def Inside (i : Nat) : Caller → Prop
  | .joining _ _ thread => thread = some i
  | .leaving _ _ thread => thread = some i
  | .clearing k _ => k = i
  | .creating k _ => k = i
  | .publishing k detached _ => k = i ∧ detached = false
  | _ => False

/-- A thread is joined or detached once its `pthread_create` has returned and while nobody else
joins it. -/
def Orderly (w : World) : Event → Prop
  | .pthreadJoin _ i => ∀ q, ¬ Inside i (w.callers q)
  | .pthreadDetach i => ∀ q, ¬ Inside i (w.callers q)
  | _ => True

/-! ### The invariant -/

/-- The caller is in `pthread_create` of a thread that can be joined. -/
def Creates (i : Nat) : Caller → Prop
  | .creating k _ => k = i
  | .publishing k detached _ => k = i ∧ detached = false
  | _ => False

/-- The record `i` is that of a thread that can be joined, whose job is the `j`-th. -/
def Joinable (w : World) (i j : Nat) : Prop :=
  (w.records i).inUse = true ∧ (w.records i).detached = false ∧ (w.records i).job = some j

/-- What holds of a caller in its place. -/
def CallerOk (w : World) : Caller → Prop
  | .joining j handle thread =>
    ∃ e, w.smp.log[j]? = some e ∧ handle = e.handle ∧ ∀ i, thread = some i → w.Joinable i j
  | .leaving j handle thread =>
    ∃ e, w.smp.log[j]? = some e ∧ handle = e.handle ∧ e.finished = true ∧
      ∀ i, thread = some i → w.Joinable i j
  | .clearing i _ => ∃ j e, w.smp.log[j]? = some e ∧ e.finished = true ∧ w.Joinable i j
  | .creating i detached =>
    (w.records i).inUse = true ∧ (w.records i).job = none ∧ (w.records i).detached = detached
  | .publishing i detached handle =>
    detached = false → ∃ j e, w.smp.log[j]? = some e ∧ e.fn = .thread i ∧ handle = e.handle ∧
      w.Joinable i j
  | _ => True

/-- Callers are where they should be and do not share a record; a record in use is being created,
is detached, or has the handle of its job; a job that has not returned is that of its record. -/
structure Inv (w : World) : Prop where
  smp : w.smp.Ok
  caller : ∀ p, w.CallerOk (w.callers p)
  alone : ∀ p q i, Inside i (w.callers p) → Inside i (w.callers q) → p = q
  thread : ∀ i, (w.records i).inUse = true → (∃ p, Creates i (w.callers p)) ∨
    (w.records i).detached = true ∨ ∃ j e, (w.records i).job = some j ∧ w.smp.log[j]? = some e ∧
      (w.records i).workerHandle = e.handle
  retired : ∀ i, (w.records i).done = true →
    ∃ j e, (w.records i).job = some j ∧ w.smp.log[j]? = some e ∧ e.value ≠ none
  unretired : ∀ (j : Nat) (e : Entry Job) (i : Nat), w.smp.log[j]? = some e → e.fn = .thread i →
    e.value = none →
    (w.records i).inUse = true ∧ (w.records i).job = some j

variable {w w' : World} {p i j : Nat} {c : Caller}

/-- The record a caller is inside of is in use, and once its thread has a job it is not detached. -/
theorem CallerOk.inside (h : w.CallerOk c) (hin : Inside i c) :
    (w.records i).inUse = true ∧ ((w.records i).job ≠ none → (w.records i).detached = false) := by
  cases c with
  | joining j handle thread =>
    obtain ⟨_, -, -, hj⟩ := h
    exact ⟨(hj i hin).1, fun _ => (hj i hin).2.1⟩
  | leaving j handle thread =>
    obtain ⟨_, -, -, -, hj⟩ := h
    exact ⟨(hj i hin).1, fun _ => (hj i hin).2.1⟩
  | clearing k v =>
    cases hin
    obtain ⟨_, _, -, -, hj⟩ := h
    exact ⟨hj.1, fun _ => hj.2.1⟩
  | creating k detached =>
    cases hin
    exact ⟨h.1, fun hjob => absurd h.2.1 hjob⟩
  | publishing k detached handle =>
    obtain ⟨rfl, hd⟩ := hin
    obtain ⟨_, _, -, -, -, hj⟩ := h hd
    exact ⟨hj.1, fun _ => hj.2.1⟩
  | idle => exact hin.elim
  | returned a => exact hin.elim

/-- A caller stays where it should be if the log only grows and the records it is inside of keep
what it relies on. -/
theorem CallerOk.mono (h : w.CallerOk c) (hlog : Smp.LogLe w.smp.log w'.smp.log)
    (hrec : ∀ i, Inside i c → (w'.records i).inUse = (w.records i).inUse ∧
      (w'.records i).detached = (w.records i).detached ∧ (w'.records i).job = (w.records i).job) :
    w'.CallerOk c := by
  have hjoin : ∀ {i j}, Inside i c → w.Joinable i j → w'.Joinable i j := by
    intro i j hin hj
    obtain ⟨hu, hd, hb⟩ := hrec i hin
    exact ⟨hu.trans hj.1, hd.trans hj.2.1, hb.trans hj.2.2⟩
  cases c with
  | joining j handle thread =>
    obtain ⟨e, he, rfl, hj⟩ := h
    obtain ⟨e', he', hh, -, -, -⟩ := hlog j e he
    exact ⟨e', he', hh.symm, fun i hi => hjoin hi (hj i hi)⟩
  | leaving j handle thread =>
    obtain ⟨e, he, rfl, hfin, hj⟩ := h
    obtain ⟨e', he', hh, -, -, hf⟩ := hlog j e he
    exact ⟨e', he', hh.symm, hf hfin, fun i hi => hjoin hi (hj i hi)⟩
  | clearing k v =>
    obtain ⟨j, e, he, hfin, hj⟩ := h
    obtain ⟨e', he', -, -, -, hf⟩ := hlog j e he
    exact ⟨j, e', he', hf hfin, hjoin rfl hj⟩
  | creating k detached =>
    obtain ⟨hu, hb, hd⟩ := h
    obtain ⟨hu', hd', hb'⟩ := hrec k rfl
    exact ⟨hu'.trans hu, hb'.trans hb, hd'.trans hd⟩
  | publishing k detached handle =>
    intro hd
    obtain ⟨j, e, he, hfn, rfl, hj⟩ := h hd
    obtain ⟨e', he', hh, hf, -, -⟩ := hlog j e he
    exact ⟨j, e', he', hf.trans hfn, hh.symm, hjoin ⟨rfl, hd⟩ hj⟩
  | idle => trivial
  | returned a => trivial

theorem Creates.inside (h : Creates i c) : Inside i c := by
  cases c with
  | creating k detached => exact h
  | publishing k detached handle => exact h
  | _ => exact h.elim

/-- Jobs of threads other than `i` that have not returned are not new. -/
def Known (i : Nat) (old new : List (Entry Job)) : Prop :=
  ∀ (j : Nat) (e : Entry Job) (k : Nat), k ≠ i → e.fn = .thread k → new[j]? = some e →
    e.value = none → ∃ e', old[j]? = some e' ∧ e'.fn = e.fn ∧ e'.value = none

theorem Known.refl (i : Nat) (log : List (Entry Job)) : Known i log log :=
  fun _ e _ _ _ he hv => ⟨e, he, rfl, hv⟩

variable {smp : Smp Job} {e : Entry Job} {thread : Option Nat} {seq : UInt32} {v : UInt64}
  {handle : Nat}

section

variable (h : Inv w)

include h

/-- The jobs of a record are in the log after the change as they were before it. -/
theorem Inv.thread_mono (hlog : Smp.LogLe w.smp.log smp.log) {k : Nat}
    (hk : (w.records k).inUse = true) : (∃ q, Creates k (w.callers q)) ∨
      (w.records k).detached = true ∨ ∃ j e, (w.records k).job = some j ∧ smp.log[j]? = some e ∧
        (w.records k).workerHandle = e.handle := by
  refine (h.thread k hk).imp_right fun hk' => hk'.imp_right ?_
  rintro ⟨j, e, hj, he, hh⟩
  obtain ⟨e', he', hh', -, -, -⟩ := hlog j e he
  exact ⟨j, e', hj, he', hh.trans hh'.symm⟩

theorem Inv.retired_mono (hlog : Smp.LogLe w.smp.log smp.log)
    {k : Nat} (hd : (w.records k).done = true) :
    ∃ j e, (w.records k).job = some j ∧ smp.log[j]? = some e ∧ e.value ≠ none := by
  obtain ⟨j, e, hj, he, hv⟩ := h.retired k hd
  obtain ⟨e', he', -, -, hv', -⟩ := hlog j e he
  exact ⟨j, e', hj, he', hv' hv⟩

section

variable (hsmp : smp.Ok) (hlog : Smp.LogLe w.smp.log smp.log)

include hsmp hlog

section Record

variable {r : Record} (hknown : Known i w.smp.log smp.log)
  (hretired : r.done = true → ∃ j e, r.job = some j ∧ smp.log[j]? = some e ∧ e.value ≠ none)
  (hunretired : ∀ (j : Nat) (e : Entry Job), smp.log[j]? = some e → e.fn = .thread i →
    e.value = none → r.inUse = true ∧ r.job = some j)

include hknown hretired hunretired

/-- A change of the mailboxes and of the record `i`, with `p` moving to `c`, where it meets nobody;
the others inside the record do not notice. -/
theorem Inv.change
    (hkeep : ∀ q, q ≠ p → Inside i (w.callers q) → r.inUse = (w.records i).inUse ∧
      r.detached = (w.records i).detached ∧ r.job = (w.records i).job)
    (hin : ∀ k, Inside k c → ∀ q, q ≠ p → ¬ Inside k (w.callers q))
    (hcreates : ∀ k, k ≠ i → Creates k (w.callers p) → Creates k c)
    (hw' : w' = ({ w with smp }.setRecord i r).move p c) (hc : w'.CallerOk c)
    (hthread : r.inUse = true → (∃ q, Creates i (w'.callers q)) ∨ r.detached = true ∨
      ∃ j e, r.job = some j ∧ smp.log[j]? = some e ∧ r.workerHandle = e.handle) : Inv w' := by
  have hrec : ∀ k, k ≠ i → w'.records k = w.records k := by
    intro k hk
    rw [hw']
    exact update_of_ne hk ..
  have hreci : w'.records i = r := by
    rw [hw']
    exact update_self ..
  have hcall : ∀ q, q ≠ p → w'.callers q = w.callers q := by
    intro q hq
    rw [hw']
    exact update_of_ne hq ..
  have hcallp : w'.callers p = c := by
    rw [hw']
    exact update_self ..
  have hlog' : w'.smp = smp := by
    rw [hw']
    rfl
  refine ⟨by rw [hlog']; exact hsmp, fun q => ?_, fun q q' k hq hq' => ?_, fun k hk => ?_,
    fun k hd => ?_, fun j e k he hfn hv => ?_⟩
  · by_cases hqp : q = p
    · rw [hqp, hcallp]
      exact hc
    · rw [hcall q hqp]
      refine (h.caller q).mono (by rw [hlog']; exact hlog) fun k hk => ?_
      by_cases hki : k = i
      · subst hki
        rw [hreci]
        exact hkeep q hqp hk
      · rw [hrec k hki]
        exact ⟨rfl, rfl, rfl⟩
  · by_cases hqp : q = p
    · by_cases hqp' : q' = p
      · exact hqp.trans hqp'.symm
      · rw [hqp, hcallp] at hq
        rw [hcall q' hqp'] at hq'
        exact absurd hq' (hin k hq q' hqp')
    · by_cases hqp' : q' = p
      · rw [hqp', hcallp] at hq'
        rw [hcall q hqp] at hq
        exact absurd hq (hin k hq' q hqp)
      · rw [hcall q hqp] at hq
        rw [hcall q' hqp'] at hq'
        exact h.alone q q' k hq hq'
  · rw [hlog']
    by_cases hki : k = i
    · rw [hki, hreci] at hk ⊢
      exact hthread hk
    · rw [hrec k hki] at hk ⊢
      refine (h.thread_mono hlog hk).imp_left fun hex => ?_
      obtain ⟨q, hq⟩ := hex
      refine ⟨q, ?_⟩
      by_cases hqp : q = p
      · rw [hqp] at hq ⊢
        rw [hcallp]
        exact hcreates k hki hq
      · rw [hcall q hqp]
        exact hq
  · rw [hlog']
    by_cases hki : k = i
    · rw [hki, hreci] at hd ⊢
      exact hretired hd
    · rw [hrec k hki] at hd ⊢
      exact h.retired_mono hlog hd
  · rw [hlog'] at he
    by_cases hki : k = i
    · rw [hki] at hfn
      rw [hki, hreci]
      exact hunretired j e he hfn hv
    · rw [hrec k hki]
      obtain ⟨e', he', hf', hv'⟩ := hknown j e k hki hfn he hv
      exact h.unretired j e' k he' (hf'.trans hfn) hv'

/-- A change of the mailboxes and of the record `i` that callers inside it do not notice. -/
theorem Inv.record
    (hkeep : ∀ q, Inside i (w.callers q) → r.inUse = (w.records i).inUse ∧
      r.detached = (w.records i).detached ∧ r.job = (w.records i).job)
    (hthread : r.inUse = true → (w.records i).inUse = true ∧
      (r.detached = true ∨ r.detached = (w.records i).detached ∧ r.job = (w.records i).job ∧
        r.workerHandle = (w.records i).workerHandle)) :
    Inv ({ w with smp }.setRecord i r) := by
  have hsame : { w with smp }.setRecord i r =
      ({ w with smp }.setRecord i r).move 0 (w.callers 0) := by
    simp [move, setRecord]
  refine h.change (p := 0) (c := w.callers 0) hsmp hlog hknown hretired hunretired
    (fun q _ => hkeep q) (fun k hk q hq hk' => hq (h.alone q 0 k hk' hk)) (fun k _ hk => hk)
    hsame ?_ fun hu => ?_
  · refine (h.caller 0).mono hlog fun k hk => ?_
    by_cases hki : k = i
    · subst hki
      have hreci : ({ w with smp }.setRecord k r).records k = r := update_self ..
      rw [hreci]
      exact hkeep 0 hk
    · have hrec : ({ w with smp }.setRecord i r).records k = w.records k :=
        update_of_ne hki ..
      rw [hrec]
      exact ⟨rfl, rfl, rfl⟩
  · obtain ⟨hu', hd | ⟨hd, hj, hh⟩⟩ := hthread hu
    · exact .inr (.inl hd)
    · rw [hd, hj, hh]
      exact h.thread_mono hlog hu'

end Record

/-- A change of the mailboxes alone. -/
theorem Inv.setSmp (hknown : ∀ i, Known i w.smp.log smp.log) :
    Inv { w with smp } := by
  have hinv := h.record (i := 0) (r := w.records 0) hsmp hlog (hknown 0)
    (h.retired_mono hlog)
    (fun j e he hfn hv => by
      obtain ⟨e', he', hf', hv'⟩ := hknown 1 j e 0 (by decide) hfn he hv
      exact h.unretired j e' 0 he' (hf'.trans hfn) hv')
    (fun _ _ => ⟨rfl, rfl, rfl⟩) (fun hu => ⟨hu, .inr ⟨rfl, rfl, rfl⟩⟩)
  have hsame : ({ w with smp } : World).setRecord 0 (w.records 0) = { w with smp } := by
    simp [setRecord]
  rw [hsame] at hinv
  exact hinv

end

/-- A caller moves to a place that suits it and where it meets nobody. -/
theorem Inv.move (hc : w.CallerOk c) (hin : ∀ i, Inside i c → ∀ q, q ≠ p → ¬ Inside i (w.callers q))
    (hcreates : ∀ k, ¬ Creates k (w.callers p)) : Inv (w.move p c) := by
  have hsame : w.move p c = (({ w with } : World).setRecord 0 (w.records 0)).move p c := by
    simp [setRecord]
  refine h.change (i := 0) h.smp (Smp.LogLe.refl _) (Known.refl _ _) (h.retired 0)
    (fun j e => h.unretired j e 0) (fun _ _ _ => ⟨rfl, rfl, rfl⟩)
    hin (fun k _ hk => absurd hk (hcreates k)) hsame hc fun hu => ?_
  refine (h.thread 0 hu).imp_left fun hex => ?_
  obtain ⟨q, hq⟩ := hex
  refine ⟨q, ?_⟩
  have hqp : q ≠ p := by
    intro hqp
    rw [hqp] at hq
    exact hcreates 0 hq
  have hcall : (w.move p c).callers q = w.callers q := update_of_ne hqp ..
  rw [hcall]
  exact hq

/-- A caller that creates nothing returns. -/
theorem Inv.answer (hcreates : ∀ k, ¬ Creates k (w.callers p)) (a : Answer) :
    Inv (w.move p (.returned a)) :=
  h.move trivial (fun _ hin => hin.elim) hcreates

/-! ### Steps -/

theorem Inv.caller_at (hp : w.callers p = c) : w.CallerOk c := hp ▸ h.caller p

/-- Nobody is inside a record that is not in use. -/
theorem Inv.nobody (hu : (w.records i).inUse = false) (q : Nat) : ¬ Inside i (w.callers q) := by
  intro hin
  rw [((h.caller q).inside hin).1] at hu
  cases hu

theorem startJoin_inv (hidle : w.callers p = .idle) (he : w.smp.log[j]? = some e)
    (hthread : ∀ i, thread = some i → w.Joinable i j ∧ ∀ q, ¬ Inside i (w.callers q)) :
    Inv (w.startJoin p j e.handle thread) := by
  have hcreates : ∀ k, ¬ Creates k (w.callers p) := by
    rw [hidle]
    exact fun _ hk => hk
  unfold startJoin
  cases w.smp.handleParts e.handle with
  | none => exact h.answer hcreates _
  | some parts =>
    refine h.move ⟨e, he, rfl, fun i hi => (hthread i hi).1⟩ (fun i hin q _ => ?_) hcreates
    exact (hthread i hin).2 q

/-- A caller that sees `mailbox_done` equal to its job's number sees a finished job. -/
theorem finished_of_done (he : w.smp.log[j]? = some e) {c : Nat}
    (hparts : w.smp.handleParts e.handle = some (c, seq))
    (hdone : (w.smp.cpus c).mailboxDone = seq) :
    e.finished = true := by
  by_cases hlast : (w.smp.cpus e.cpu).last = some j
  · have hholds := h.smp.holds he hlast
    rw [hholds.parts (h.smp.old j e he).1] at hparts
    cases hparts
    cases hfin : e.finished with
    | true => rfl
    | false => exact absurd hdone (hholds.unfinished hfin).1
  · exact ((h.smp.old _ _ he).2.resolve_left hlast).1

theorem retire_inv {c : Nat} {job : Job}
    (hloop : (w.smp.cpus c).loop = .running seq job) (hs : w.smp.apStep c (.ret v) = some smp) :
    Inv ({ w with smp }.retire job v) := by
  obtain ⟨hlog, hrest⟩ := Smp.apStep_log hs
  have hok := Smp.apStep_ok h.smp hs
  cases job with
  | plain n => exact h.setSmp hok hlog fun _ j e _ _ _ => hrest j e
  | thread i =>
    -- the job that returns is the one of the record
    obtain ⟨j, e, hlast, he, hh, hfin, -, hfn, hvalue⟩ := h.smp.at_stage hloop nofun
    obtain ⟨hused, hjob⟩ := h.unretired j e i he hfn.symm hvalue
    have hreturned : ∃ e', smp.log[j]? = some e' ∧ e'.value ≠ none := by
      have hsmp : smp.log = w.smp.log.modify j fun e => { e with value := some v } := by
        simp only [Smp.apStep, hloop, Smp.note, hlast] at hs
        cases hs
        rfl
      refine ⟨{ e with value := some v }, ?_, some_ne_none _⟩
      rw [hsmp, getElem?_modify_eq, he]
      rfl
    refine h.record hok hlog (fun j e _ _ _ => hrest j e) (fun _ => ?_)
      (fun j' e' he' hfn' hv' => ?_) (fun q hin => ?_) fun hu => ?_
    · obtain ⟨e1, he1, hv1⟩ := hreturned
      exact ⟨j, e1, hjob, he1, hv1⟩
    · obtain ⟨e0, he0, hf0, hv0⟩ := hrest j' e' he' hv'
      obtain ⟨-, hjob'⟩ := h.unretired j' e0 i he0 (hf0.trans hfn') hv0
      obtain ⟨e1, he1, hv1⟩ := hreturned
      have hjj : j' = j := Option.some.inj (hjob'.symm.trans hjob)
      rw [hjj, he1] at he'
      cases he'
      exact absurd hv' hv1
    · refine ⟨?_, rfl, rfl⟩
      have hnot : (w.records i).detached = false :=
        ((h.caller q).inside hin).2 (by rw [hjob]; exact some_ne_none _)
      rw [hnot, hused]
      rfl
    · exact ⟨hused, .inr ⟨rfl, rfl, rfl⟩⟩

/-- The record of a job that has returned may be given back. -/
theorem Inv.giveBack (hnobody : ∀ q, ¬ Inside i (w.callers q))
    (hreturned : ∀ (j : Nat) (e : Entry Job), w.smp.log[j]? = some e → e.fn = .thread i →
      (w.records i).job = some j → e.value ≠ none) :
    Inv (w.setRecord i { w.records i with inUse := false }) :=
  h.record h.smp (Smp.LogLe.refl _) (Known.refl _ _) (h.retired i)
    (fun j e he hfn hv => absurd hv (hreturned j e he hfn (h.unretired j e i he hfn hv).2))
    (fun q hin => absurd hin (hnobody q)) fun hu => by cases hu

theorem clear_inv (hp : w.callers p = .clearing i v) :
    Inv ((w.setRecord i { w.records i with inUse := false }).move p (.returned (.value v))) := by
  obtain ⟨j, e, he, hfin, hj⟩ := h.caller_at hp
  have hmoved : Inv (w.move p (.returned (.value v))) :=
    h.answer (by rw [hp]; exact fun _ hk => hk) _
  refine hmoved.giveBack (i := i) (fun q hin => ?_) fun j' e' he' _ hj' => ?_
  · by_cases hq : q = p
    · subst hq
      have hself : (w.move q (.returned (.value v))).callers q = .returned (.value v) :=
        update_self ..
      rw [hself] at hin
      exact hin
    · have hother : (w.move p (.returned (.value v))).callers q = w.callers q :=
        update_of_ne hq ..
      rw [hother] at hin
      exact hq (h.alone q p i hin (by rw [hp]; exact rfl))
  · have hjj : j' = j := Option.some.inj (hj'.symm.trans hj.2.2)
    have he'' : w.smp.log[j']? = some e' := he'
    rw [hjj, he] at he''
    cases he''
    exact h.smp.valued j e he hfin

theorem create_inv (hp : w.callers p = .idle) (hu : (w.records i).inUse = false) (detached : Bool) :
    Inv ((w.setRecord i { inUse := true, detached }).move p (.creating i detached)) := by
  refine h.change (p := p) (c := .creating i detached) h.smp (Smp.LogLe.refl _)
    (Known.refl _ _) (fun hd => by cases hd) (fun j e he hfn hv => ?_)
    (fun q _ hin => absurd hin (h.nobody hu q))
    (fun k hk q _ => hk ▸ h.nobody hu q) (fun k _ hk => ?_) rfl ?_
    (fun _ => .inl ⟨p, by simp [move, Creates]⟩)
  · rw [(h.unretired j e i he hfn hv).1] at hu
    cases hu
  · rw [hp] at hk
    exact hk.elim
  · show (update w.records i { inUse := true, detached } i).inUse = true ∧
      (update w.records i { inUse := true, detached } i).job = none ∧
        (update w.records i { inUse := true, detached } i).detached = detached
    rw [update_self]
    exact ⟨rfl, rfl, rfl⟩

/-- Others are not inside the record of a caller in `pthread_create`. -/
theorem Inv.others (hin : Inside i (w.callers p)) (q : Nat) (hq : q ≠ p) :
    ¬ Inside i (w.callers q) := fun hin' => hq (h.alone q p i hin' hin)

theorem launch_fail_inv {detached : Bool} (hp : w.callers p = .creating i detached) :
    Inv ((w.setRecord i { w.records i with inUse := false }).move p (.returned .eagain)) := by
  obtain ⟨-, hjob, -⟩ := h.caller_at hp
  refine h.change (p := p) (c := .returned .eagain)
    (r := { w.records i with inUse := false }) h.smp (Smp.LogLe.refl _)
    (Known.refl _ _) (h.retired i) (fun j e he hfn hv => ?_)
    (fun q hq hin => absurd hin (h.others (by rw [hp]; exact rfl) q hq)) (fun k hk => hk.elim)
    (fun k hk hcr => ?_) rfl trivial fun hu => by cases hu
  · have hjob' := (h.unretired j e i he hfn hv).2
    rw [hjob] at hjob'
    cases hjob'
  · rw [hp] at hcr
    exact absurd hcr.symm hk

theorem launch_inv {detached : Bool} (hp : w.callers p = .creating i detached)
    (hs : w.smp.submitWorker (.thread i) = some (handle, smp)) :
    Inv (({ w with smp }.setRecord i { w.records i with job := some w.smp.log.length }).move p
      (.publishing i detached handle)) := by
  obtain ⟨hused, hjob, hdet⟩ := h.caller_at hp
  obtain ⟨e0, hhandle, hfn0, hv0, hlog, hnew, hbefore⟩ := Smp.submitWorker_log hs
  have hothers : ∀ q, q ≠ p → ¬ Inside i (w.callers q) := h.others (by rw [hp]; exact rfl)
  refine h.change (p := p) (c := .publishing i detached handle) (Smp.submitWorker_ok h.smp hs)
    hlog (fun j e k hk hfn he hv => ?_) (fun hd => ?_) (fun j e he hfn hv => ?_)
    (fun q hq hin => absurd hin (hothers q hq)) (fun k hk => hk.1 ▸ hothers) (fun k hk hcr => ?_)
    rfl (fun hd => ?_) fun _ => ?_
  · rcases hbefore j e he with ⟨-, rfl⟩ | he
    · exact absurd (Job.thread.inj (hfn.symm.trans hfn0)) hk
    · exact ⟨e, he, rfl, hv⟩
  · obtain ⟨j, -, hj, -⟩ := h.retired i hd
    rw [hjob] at hj
    cases hj
  · rcases hbefore j e he with ⟨rfl, -⟩ | he
    · exact ⟨hused, rfl⟩
    · have hjob' := (h.unretired j e i he hfn hv).2
      rw [hjob] at hjob'
      cases hjob'
  · rw [hp] at hcr
    exact absurd hcr.symm hk
  · refine ⟨w.smp.log.length, e0, hnew, hfn0, hhandle.symm, ?_⟩
    unfold Joinable move setRecord
    dsimp only
    rw [update_self]
    exact ⟨hused, hdet.trans hd, rfl⟩
  · cases detached with
    | true => exact .inr (.inl hdet)
    | false => exact .inl ⟨p, by simp [move, Creates]⟩

theorem publish_inv (hp : w.callers p = .publishing i false handle) :
    Inv ((w.setRecord i { w.records i with workerHandle := handle }).move p
      (.returned (.tid i))) := by
  obtain ⟨j, e, he, hfn, rfl, hj⟩ := h.caller_at hp rfl
  refine h.change (p := p) (c := .returned (.tid i))
    (r := { w.records i with workerHandle := e.handle }) h.smp (Smp.LogLe.refl _)
    (Known.refl _ _) (h.retired i) (fun j e he hfn hv => h.unretired j e i he hfn hv)
    (fun _ _ _ => ⟨rfl, rfl, rfl⟩) (fun k hk => hk.elim) (fun k hk hcr => ?_) rfl trivial
    fun _ => .inr (.inr ⟨j, e, hj.2.2, he, rfl⟩)
  rw [hp] at hcr
  exact absurd hcr.1.symm hk

theorem detach_inv (hnobody : ∀ q, ¬ Inside i (w.callers q)) (hu : (w.records i).inUse = true) :
    Inv (w.setRecord i { w.records i with detached := true }) :=
  h.record h.smp (Smp.LogLe.refl _) (Known.refl _ _) (h.retired i)
    (fun j e he hfn hv => h.unretired j e i he hfn hv)
    (fun q hin => absurd hin (hnobody q)) fun _ => ⟨hu, .inl rfl⟩

end

/-- Every step of an orderly run keeps the invariant. -/
theorem step_inv (w : World) (a : Event) (w' : World) (h : Inv w) (hok : Orderly w a)
    (hs : w.step a = some w') : Inv w' := by
  cases a with
  | submit n =>
    obtain ⟨⟨handle, smp⟩, hsub, rfl⟩ := map_eq_some_iff.mp hs
    obtain ⟨e0, -, hfn0, -, hlog, -, hbefore⟩ := Smp.submitWorker_log hsub
    refine h.setSmp (Smp.submitWorker_ok h.smp hsub) hlog fun _ j e k _ hfn he hv => ?_
    rcases hbefore j e he with ⟨-, rfl⟩ | he
    · cases hfn.symm.trans hfn0
    · exact ⟨e, he, rfl, hv⟩
  | join p j =>
    simp only [step] at hs
    split at hs <;> cases hs
    next e hp he => exact startJoin_inv h hp he fun i hi => by cases hi
  | poll p =>
    simp only [step] at hs
    split at hs
    · next j handle thread hp =>
      split at hs
      · cases hs
      · next c seq hparts =>
        split at hs
        · cases hs
          exact h
        · next hdone =>
          cases hs
          obtain ⟨e, he, rfl, hj⟩ := h.caller_at hp
          refine h.move ⟨e, he, rfl, ?_, hj⟩ (fun i hin => ?_) fun k hk => ?_
          · exact finished_of_done h he hparts (by simpa using hdone)
          · exact h.others (by rw [hp]; exact hin)
          · rw [hp] at hk
            exact hk
    · cases hs
  | read p =>
    simp only [step] at hs
    split at hs
    · next j handle thread hp =>
      obtain ⟨e, he, rfl, hfin, hj⟩ := h.caller_at hp
      have hcreates : ∀ k, ¬ Creates k (w.callers p) := by
        rw [hp]
        exact fun _ hk => hk
      split at hs
      · cases hs
      · split at hs
        · cases hs
          exact h.answer hcreates _
        · next k =>
          cases hs
          refine h.move ⟨j, e, he, hfin, hj k rfl⟩ (fun i hin => ?_) hcreates
          cases hin
          exact h.others (by rw [hp]; exact rfl)
    · cases hs
  | pthreadJoin p i =>
    simp only [step] at hs
    split at hs
    · next hp =>
      split at hs
      · next hcond =>
        cases hs
        obtain ⟨-, hu, hd⟩ := hcond
        have hd : (w.records i).detached = false := by simpa using hd
        rcases h.thread i hu with ⟨q, hq⟩ | hdet | ⟨j, e, hj, he, hh⟩
        · exact absurd hq.inside (hok q)
        · rw [hd] at hdet
          cases hdet
        · rw [hj, hh]
          refine startJoin_inv h hp he fun k hk => ?_
          cases hk
          exact ⟨⟨hu, hd, hj⟩, hok⟩
      · cases hs
        exact h.answer (by rw [hp]; exact fun _ hk => hk) _
    · cases hs
  | clear p =>
    simp only [step] at hs
    split at hs <;> cases hs
    next i v hp => exact clear_inv h hp
  | pthreadCreate p detached =>
    simp only [step] at hs
    split at hs
    · next hp =>
      split at hs
      · cases hs
        exact h.answer (by rw [hp]; exact fun _ hk => hk) _
      · next i hfind =>
        cases hs
        have hfree := find?_some hfind
        exact create_inv h hp (by simpa using hfree) detached
    · cases hs
  | launch p =>
    simp only [step] at hs
    split at hs
    · next i detached hp =>
      split at hs
      · cases hs
        exact launch_fail_inv h hp
      · next handle smp hsub =>
        cases hs
        exact launch_inv h hp hsub
    · cases hs
  | publish p =>
    simp only [step] at hs
    split at hs
    · next i detached handle hp =>
      cases detached with
      | true =>
        cases hs
        exact h.answer (by rw [hp]; exact fun _ hk => Bool.false_ne_true hk.2.symm) _
      | false =>
        cases hs
        exact publish_inv h hp
    · cases hs
  | pthreadDetach i =>
    simp only [step] at hs
    split at hs
    · next hcond =>
      split at hs
      · next hdone =>
        cases hs
        refine h.giveBack hok fun j e he _ hj => ?_
        obtain ⟨j', e', hj', he', hv⟩ := h.retired i hdone
        have hjj : j' = j := Option.some.inj (hj'.symm.trans hj)
        rw [hjj, he] at he'
        cases he'
        exact hv
      · cases hs
        exact detach_inv h hok hcond.2
    · cases hs
      exact h
  | next p =>
    simp only [step] at hs
    split at hs <;> cases hs
    next a hp =>
      refine h.move trivial (fun _ hin => hin.elim) fun k hk => ?_
      rw [hp] at hk
      exact hk
  | ap c a =>
    obtain ⟨smp, hap, rfl⟩ := map_eq_some_iff.mp hs
    obtain ⟨hlog, hrest⟩ := Smp.apStep_log hap
    split
    · next v seq job hloop => exact retire_inv h hloop hap
    · exact h.setSmp (Smp.apStep_ok h.smp hap) hlog fun _ j e _ _ _ => hrest j e

theorem inv_start (count : Nat) (isBsp online ready : Nat → Bool) :
    Inv (start count isBsp online ready) :=
  ⟨Smp.ok_empty _ _ fun _ => ⟨rfl, rfl, rfl⟩, fun _ => trivial, fun _ _ _ hin => hin.elim,
    (fun _ hu => by cases hu), (fun _ hd => by cases hd), fun _ _ _ he => by cases he⟩

/-! ### Joining a job whose CPU has no later one -/

/-- What a caller goes on with when it has read the result. -/
def afterRead (thread : Option Nat) (v : UInt64) : Caller :=
  match thread with
  | none => .returned (.value v)
  | some k => .clearing k v

section

variable (h : Inv w) (he : w.smp.log[j]? = some e) (hlatest : w.smp.Latest e.cpu j)
  (hfin : e.finished = true)

include h he hlatest hfin

/-- The mailbox of the CPU says that the job is done and has its result. -/
theorem Inv.mailbox :
    w.smp.handleParts e.handle = some (e.cpu, (w.smp.cpus e.cpu).mailboxDone) ∧
      e.value = some (w.smp.cpus e.cpu).mailboxResult := by
  have hholds := h.smp.holds he (h.smp.last_of_latest he hlatest)
  obtain ⟨hdone, -, hvalue⟩ := hholds.finished hfin
  refine ⟨?_, hvalue⟩
  rw [hdone]
  exact hholds.parts (h.smp.old j e he).1

theorem poll_finished (hp : w.callers p = .joining j e.handle thread) :
    w.step (.poll p) = some (w.move p (.leaving j e.handle thread)) := by
  simp only [step, hp, (h.mailbox he hlatest hfin).1, ne_eq, not_true_eq_false, if_false]

theorem read_finished (hp : w.callers p = .leaving j e.handle thread) (hv : e.value = some v) :
    w.step (.read p) = some (w.move p (afterRead thread v)) := by
  obtain ⟨hparts, hvalue⟩ := h.mailbox he hlatest hfin
  have hres : (w.smp.cpus e.cpu).mailboxResult = v := Option.some.inj (hvalue.symm.trans hv)
  cases thread with
  | none =>
    simp only [step, hp, hparts, hres]
    rfl
  | some k =>
    simp only [step, hp, hparts, hres]
    rfl

theorem join_thread (hv : e.value = some v) (hi : i < maxPthreads) (hj : w.Joinable i j)
    (hnobody : ∀ q, ¬ Inside i (w.callers q)) (hp : w.callers p = .idle) :
    (exec step w [.pthreadJoin p i, .poll p, .read p, .clear p]).map (·.callers p) =
      some (.returned (.value v)) := by
  -- the record has the handle of its job
  have hhandle : (w.records i).workerHandle = e.handle := by
    rcases h.thread i hj.1 with ⟨q, hq⟩ | hdet | ⟨j', e', hj', he', hh⟩
    · exact absurd hq.inside (hnobody q)
    · rw [hj.2.1] at hdet
      cases hdet
    · have hjj : j' = j := Option.some.inj (hj'.symm.trans hj.2.2)
      rw [hjj, he] at he'
      cases he'
      exact hh
  have hstart : w.step (.pthreadJoin p i) = some (w.move p (.joining j e.handle (some i))) := by
    simp only [step, hp, hj.1, hj.2.1, hj.2.2, hhandle, hi, startJoin,
      (h.mailbox he hlatest hfin).1]
    rfl
  have h1 : Inv (w.move p (.joining j e.handle (some i))) :=
    step_inv w (.pthreadJoin p i) _ h hnobody hstart
  have hp1 : (w.move p (.joining j e.handle (some i))).callers p = .joining j e.handle (some i) :=
    update_self ..
  have hpoll := poll_finished h1 he hlatest hfin hp1
  have h2 := step_inv _ (.poll p) _ h1 trivial hpoll
  have hread := read_finished h2 he hlatest hfin (p := p) (update_self ..) hv
  rw [exec_cons, hstart, bind_some, exec_cons, hpoll, bind_some, exec_cons, hread,
    bind_some, exec_cons]
  simp [step, move, setRecord, afterRead]

end

/-- In every run in which threads are joined and detached in order, for every job whose CPU has not
been given another one: a finished job is reported as finished with its result, a caller that waits
for it goes on at its next look, what a join returns is its result and only once it has finished,
and `pthread_join` of its thread, if it can be joined, returns it. -/
theorem joins_return_results {count : Nat} {isBsp online ready : Nat → Bool} {events : List Event}
    (hok : Guarded step Orderly (start count isBsp online ready) events)
    (hrun : exec step (start count isBsp online ready) events = some w) {e : Entry Job}
    (he : w.smp.log[j]? = some e) (hlatest : w.smp.Latest e.cpu j) :
    (e.finished = true → w.smp.workerDone e.handle = true ∧
      e.value = some (w.smp.workerResult e.handle)) ∧
    (∀ p thread, w.callers p = .joining j e.handle thread → e.finished = true →
      w.step (.poll p) = some (w.move p (.leaving j e.handle thread))) ∧
    (∀ p thread, w.callers p = .leaving j e.handle thread → e.finished = true ∧
      ∃ v, e.value = some v ∧ w.step (.read p) = some (w.move p (afterRead thread v))) ∧
    ∀ p i, e.finished = true → i < maxPthreads → w.Joinable i j →
      (∀ q, ¬ Inside i (w.callers q)) → w.callers p = .idle →
      ∃ v, e.value = some v ∧
        (exec step w [.pthreadJoin p i, .poll p, .read p, .clear p]).map (·.callers p) =
          some (.returned (.value v)) := by
  have h : Inv w := guarded_invariant Inv step_inv (inv_start ..) hok hrun
  refine ⟨fun hfin => ?_, fun p thread hp hfin => poll_finished h he hlatest hfin hp,
    fun p thread hp => ?_, fun p i hfin hi hj hnobody hp => ?_⟩
  · obtain ⟨hparts, hvalue⟩ := h.mailbox he hlatest hfin
    unfold Smp.workerDone Smp.workerResult
    rw [hparts]
    exact ⟨decide_eq_true rfl, by rw [hvalue]; simp⟩
  · obtain ⟨e', he', -, hfin, -⟩ := h.caller_at hp
    rw [he] at he'
    cases he'
    obtain ⟨-, hvalue⟩ := h.mailbox he hlatest hfin
    exact ⟨hfin, _, hvalue, read_finished h he hlatest hfin hp hvalue⟩
  · obtain ⟨-, hvalue⟩ := h.mailbox he hlatest hfin
    exact ⟨_, hvalue, join_thread h he hlatest hfin hvalue hi hj hnobody hp⟩

/-- One boot processor and one other. -/
def twoCpus : World := start 2 (fun i => decide (i = 0)) (fun _ => true) fun _ => true

/-- A caller creates a thread, and CPU 1 runs it to `v`. -/
def runThread (v : UInt64) : List Event :=
  [.pthreadCreate 0 false, .launch 0, .publish 0, .next 0, .ap 1 .look, .ap 1 .fetch,
    .ap 1 (.ret v), .ap 1 .store, .ap 1 .finish]

theorem orderly_runThread (v : UInt64) (w : World) : Guarded step Orderly w (runThread v) := by
  have hall : Guarded step (fun _ a => ∀ w : World, Orderly w a) w (runThread v) := by
    refine Guarded.of_forall fun a ha w => ?_
    simp only [runThread, mem_cons, not_mem_nil, or_false] at ha
    rcases ha with rfl | rfl | rfl | rfl | rfl | rfl | rfl | rfl | rfl <;> trivial
  exact hall.mono fun w _ h => h w

theorem joins_return_results_one : ∃ w, exec step twoCpus (runThread 5) = some w ∧
    (exec step w [.pthreadJoin 0 0, .poll 0, .read 0, .clear 0]).map (·.callers 0) =
      some (.returned (.value 5)) := by
  set e : Entry Job :=
    { cpu := 1, seq := 1, fn := .thread 0, value := some 5, finished := true } with he
  have hend : (exec step twoCpus (runThread 5)).map
      (fun w => (w.smp.log, w.callers 0, w.records 0)) =
        some ([e], .idle, { inUse := true, done := true, workerHandle := e.handle, retval := 5,
                            job := some 0 }) := by
    decide +kernel
  obtain ⟨w, hrun, hw⟩ := map_eq_some_iff.mp hend
  simp only [Prod.mk.injEq] at hw
  obtain ⟨hlog, hidle, hrecord⟩ := hw
  have hjob : w.smp.log[0]? = some e := by
    rw [hlog]
    rfl
  have hlatest : w.smp.Latest e.cpu 0 := by
    intro j' e' he' _
    have hlt := (List.getElem?_eq_some_iff.mp he').1
    rw [hlog] at hlt
    exact Nat.le_of_lt_succ hlt
  have hnobody : ∀ q, ¬ Inside 0 (w.callers q) := by
    have hcallers : (exec step twoCpus (runThread 5)).map (·.callers) = some fun _ => .idle := by
      show some (update (update (update (update (fun _ => Caller.idle) 0 _) 0 _) 0 _) 0 .idle) = _
      simp
    rw [hrun, map_some, Option.some.injEq] at hcallers
    intro q hin
    rw [hcallers] at hin
    exact hin
  have hthread : w.Joinable 0 0 := by
    unfold Joinable
    rw [hrecord]
    exact ⟨rfl, rfl, rfl⟩
  obtain ⟨v, hv, hjoin⟩ := (joins_return_results (orderly_runThread 5 _) hrun hjob hlatest).2.2.2
    0 0 rfl (by decide) hthread hnobody hidle
  cases hv
  exact ⟨w, hrun, hjoin⟩

/-- A caller whose job's number the CPU does not show stays in the loop. -/
theorem poll_spins {c : Nat} (hp : w.callers p = .joining j handle thread)
    (hparts : w.smp.handleParts handle = some (c, seq)) (hdone : (w.smp.cpus c).mailboxDone ≠ seq)
    (n : Nat) : exec step w (replicate n (.poll p)) = some w := by
  have hstep : w.step (.poll p) = some w := by
    simp only [step, hp, hparts]
    exact if_pos hdone
  induction n with
  | zero => rfl
  | succ n ih =>
    rw [replicate_succ, exec_cons, hstep]
    exact ih

/-- Two threads one after the other on the same CPU: the first has finished with 5 and can be
joined, but is not reported as finished, and `pthread_join` of it spins forever. -/
theorem second_job_hides_first : ∃ w e,
    exec step twoCpus (runThread 5 ++ runThread 6 ++ [.pthreadJoin 0 0]) = some w ∧
      w.smp.log[0]? = some e ∧ e.finished = true ∧ e.value = some 5 ∧ w.Joinable 0 0 ∧
      w.smp.workerDone e.handle = false ∧ w.callers 0 = .joining 0 e.handle (some 0) ∧
      ∀ n, exec step w (replicate n (.poll 0)) = some w := by
  set e : Entry Job :=
    { cpu := 1, seq := 1, fn := .thread 0, value := some 5, finished := true } with he
  have hend : (exec step twoCpus (runThread 5 ++ runThread 6 ++ [.pthreadJoin 0 0])).map
      (fun w => (w.smp.log[0]?, w.records 0, w.callers 0)) =
        some (some e,
          { inUse := true, done := true, workerHandle := e.handle, retval := 5, job := some 0 },
          .joining 0 e.handle (some 0)) := by
    decide +kernel
  have hmailbox : (exec step twoCpus (runThread 5 ++ runThread 6 ++ [.pthreadJoin 0 0])).map
      (fun w => (w.smp.handleParts e.handle, (w.smp.cpus 1).mailboxDone,
        w.smp.workerDone e.handle)) = some (some (1, 1), 2, false) := by
    decide +kernel
  obtain ⟨w, hrun, hw⟩ := map_eq_some_iff.mp hend
  simp only [Prod.mk.injEq] at hw
  obtain ⟨hlog, hrecord, hcaller⟩ := hw
  rw [hrun, map_some, Option.some.injEq] at hmailbox
  simp only [Prod.mk.injEq] at hmailbox
  obtain ⟨hparts, hdone, hreported⟩ := hmailbox
  refine ⟨w, e, hrun, hlog, rfl, rfl, ?_, hreported, hcaller, ?_⟩
  · unfold Joinable
    rw [hrecord]
    exact ⟨rfl, rfl, rfl⟩
  · refine poll_spins hcaller hparts ?_
    rw [hdone]
    decide

end World

end PythonOS.Libc.Pthread
