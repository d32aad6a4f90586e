import Mathlib.Logic.Function.Basic
import Mathlib.Data.List.Basic

/-!
# PythonOS.Boot.Smp

Jobs on the application processors (`smp.c`, `smp_arm64.c`): each CPU has one
mailbox, a job is put into the mailbox of the first CPU whose last job is done,
and a handle names the CPU and the sequence number of the job.

The log is not part of the code: it keeps every job ever submitted, what it
returned and whether its CPU has finished it. `Ok` relates the mailbox of a CPU
to the last job in the log that is the CPU's; about the jobs before it the
mailbox says nothing.
-/

namespace PythonOS.Boot

open Function List Option

/-- Where `smp_ap_idle_loop` of a CPU stands; `fn` stands for the function with its argument. -/
inductive ApLoop (κ : Type)
  | idle
  /-- A new sequence number has been seen. -/
  | fetching (seq : UInt32)
  | running (seq : UInt32) (fn : κ)
  | returned (seq : UInt32) (result : UInt64)
  /-- The result has been stored. -/
  | stored (seq : UInt32)
  deriving Repr, DecidableEq

/-- `smp_cpu_t`, with the local state of its loop and the number of its last job in the log. -/
structure Cpu (κ : Type) where
  isBsp : Bool := false
  online : Bool := true
  runtimeReady : Bool := true
  mailboxSeq : UInt32 := 0
  mailboxDone : UInt32 := 0
  mailboxFn : Option κ := none
  mailboxResult : UInt64 := 0
  loop : ApLoop κ := .idle
  last : Option Nat := none
  deriving Repr, DecidableEq

/-- A job that was submitted: where, under which number, what it has returned, and whether its CPU
has finished it. -/
structure Entry (κ : Type) where
  cpu : Nat
  seq : UInt32
  fn : κ
  value : Option UInt64 := none
  finished : Bool := false
  deriving Repr, DecidableEq

/-- `cpus`, `cpu_count`, and the log. -/
structure Smp (κ : Type) where
  cpus : Nat → Cpu κ
  count : Nat
  log : List (Entry κ) := []

/-- `smp_make_handle`. -/
def makeHandle (index : Nat) (seq : UInt32) : Nat := index <<< 32 ||| seq.toNat

/-- The handle `smp_submit_worker` gave for the job. -/
def Entry.handle {κ : Type} (e : Entry κ) : Nat := makeHandle e.cpu e.seq

/-- The sequence number after `seq`: zero is skipped. -/
def nextSeq (seq : UInt32) : UInt32 := if seq + 1 = 0 then 1 else seq + 1

namespace Smp

variable {κ : Type}

/-- `smp_handle_parts`. -/
def handleParts (s : Smp κ) (handle : Nat) : Option (Nat × UInt32) :=
  let i := handle >>> 32
  let seq := UInt32.ofNat handle
  if s.count ≤ i ∨ seq = 0 then none else some (i, seq)

/-- A CPU that `smp_submit_worker` gives a job to. -/
def free (c : Cpu κ) : Bool :=
  !c.isBsp && c.online && c.runtimeReady && decide (c.mailboxSeq = c.mailboxDone)

/-- `smp_submit_worker` of a function: the handle, unless no CPU is free. The lock makes it one
step for other submitters; a CPU looks at the other fields only once the sequence number has
changed, which is the last write. -/
def submitWorker (s : Smp κ) (fn : κ) : Option (Nat × Smp κ) :=
  match (range s.count).find? fun i => free (s.cpus i) with
  | none => none
  | some i =>
    let seq := nextSeq (s.cpus i).mailboxSeq
    some (makeHandle i seq, { s with
        cpus := update s.cpus i
          { s.cpus i with mailboxFn := some fn, mailboxSeq := seq, last := some s.log.length }
        log := s.log ++ [{ cpu := i, seq, fn }] })

/-- `smp_worker_done`. -/
def workerDone (s : Smp κ) (handle : Nat) : Bool :=
  match s.handleParts handle with
  | none => false
  | some (i, seq) => decide ((s.cpus i).mailboxDone = seq)

/-- `smp_worker_result`. -/
def workerResult (s : Smp κ) (handle : Nat) : UInt64 :=
  match s.handleParts handle with
  | none => 0
  | some (i, seq) => if (s.cpus i).mailboxDone ≠ seq then 0 else (s.cpus i).mailboxResult

/-- What the loop of a CPU does next. -/
inductive ApStep
  /-- Compare `mailbox_seq` and `mailbox_done`. -/
  | look
  /-- Read the function and its argument. -/
  | fetch
  /-- The function returns. -/
  | ret (result : UInt64)
  /-- Write `mailbox_result`. -/
  | store
  /-- Write `mailbox_done`. -/
  | finish
  deriving Repr, DecidableEq

/-- Change the CPU's last job in the log. -/
def note (s : Smp κ) (i : Nat) (f : Entry κ → Entry κ) : List (Entry κ) :=
  match (s.cpus i).last with
  | none => s.log
  | some j => s.log.modify j f

/-- Replace the record of a CPU. -/
def setCpu (s : Smp κ) (i : Nat) (c : Cpu κ) : Smp κ :=
  { s with cpus := update s.cpus i c }

/-- One step of the loop of CPU `i`. -/
def apStep (s : Smp κ) (i : Nat) (a : ApStep) : Option (Smp κ) :=
  match a, (s.cpus i).loop with
  | .look, .idle =>
    if (s.cpus i).mailboxSeq ≠ (s.cpus i).mailboxDone then
      some (s.setCpu i { s.cpus i with loop := .fetching (s.cpus i).mailboxSeq })
    else none
  | .fetch, .fetching seq =>
    match (s.cpus i).mailboxFn with
    | some fn => some (s.setCpu i { s.cpus i with loop := .running seq fn })
    | none => some (s.setCpu i { s.cpus i with loop := .returned seq 0 })
  | .ret result, .running seq _ =>
    some { s.setCpu i { s.cpus i with loop := .returned seq result } with
      log := s.note i fun e => { e with value := some result } }
  | .store, .returned seq result =>
    some (s.setCpu i { s.cpus i with mailboxResult := result, loop := .stored seq })
  | .finish, .stored seq =>
    some { s.setCpu i { s.cpus i with mailboxDone := seq, loop := .idle } with
      log := s.note i fun e => { e with finished := true } }
  | _, _ => none

/-- No job after the `j`-th was given to the CPU `i`. -/
def Latest (s : Smp κ) (i j : Nat) : Prop :=
  ∀ (j' : Nat) (e : Entry κ), s.log[j']? = some e → e.cpu = i → j' ≤ j

/-! ### The mailbox and the log -/

/-- How far the loop is with a job that is not finished. -/
def Stage (c : Cpu κ) (e : Entry κ) : ApLoop κ → Prop
  | .idle => e.value = none
  | .fetching seq => seq = c.mailboxSeq ∧ e.value = none
  | .running seq fn => seq = c.mailboxSeq ∧ fn = e.fn ∧ e.value = none
  | .returned seq result => seq = c.mailboxSeq ∧ e.value = some result
  | .stored seq => seq = c.mailboxSeq ∧ e.value = some c.mailboxResult

/-- The mailbox of a CPU whose last job is `e`. -/
structure Holds (i : Nat) (c : Cpu κ) (e : Entry κ) : Prop where
  cpu : e.cpu = i
  seq : e.seq = c.mailboxSeq
  nonzero : c.mailboxSeq ≠ 0
  finished : e.finished = true →
    c.mailboxDone = c.mailboxSeq ∧ c.loop = .idle ∧ e.value = some c.mailboxResult
  unfinished : e.finished = false →
    c.mailboxDone ≠ c.mailboxSeq ∧ c.mailboxFn = some e.fn ∧ Stage c e c.loop

/-- Every mailbox holds its CPU's last job, and all other jobs in the log are finished. -/
structure Ok (s : Smp κ) : Prop where
  fresh : ∀ i, (s.cpus i).last = none →
    (s.cpus i).mailboxSeq = (s.cpus i).mailboxDone ∧ (s.cpus i).loop = .idle
  held : ∀ i j, (s.cpus i).last = some j → ∃ e, s.log[j]? = some e ∧ Holds i (s.cpus i) e
  valued : ∀ (j : Nat) (e : Entry κ), s.log[j]? = some e → e.finished = true → e.value ≠ none
  old : ∀ j e, s.log[j]? = some e → e.cpu < s.count ∧
    ((s.cpus e.cpu).last = some j ∨
      e.finished = true ∧ ∃ j', (s.cpus e.cpu).last = some j' ∧ j < j')

variable {s s' : Smp κ} {i j : Nat} {e : Entry κ}

theorem nextSeq_ne_zero (seq : UInt32) : nextSeq seq ≠ 0 := by
  unfold nextSeq
  split
  · decide
  · assumption

theorem nextSeq_ne (seq : UInt32) : nextSeq seq ≠ seq := by
  unfold nextSeq
  split
  · next h =>
    intro heq
    rw [← heq] at h
    exact absurd h (by decide)
  · intro heq
    have hnat := congrArg UInt32.toNat heq
    rw [UInt32.toNat_add] at hnat
    have hone : (1 : UInt32).toNat = 1 := rfl
    omega

/-- A handle names its CPU and its sequence number. -/
theorem handleParts_makeHandle {seq : UInt32} (hi : i < s.count) (hseq : seq ≠ 0) :
    s.handleParts (makeHandle i seq) = some (i, seq) := by
  have hlt : seq.toNat < 2 ^ 32 := seq.toNat_lt
  have hadd : makeHandle i seq = i * 2 ^ 32 + seq.toNat := by
    unfold makeHandle
    rw [← Nat.shiftLeft_add_eq_or_of_lt hlt, Nat.shiftLeft_eq]
  have hindex : makeHandle i seq >>> 32 = i := by
    omega
  have hlow : UInt32.ofNat (makeHandle i seq) = seq := by
    refine UInt32.toNat_inj.mp ?_
    rw [UInt32.toNat_ofNat', hadd]
    omega
  unfold handleParts
  rw [hindex, hlow, if_neg]
  rintro (hge | hzero)
  · omega
  · exact hseq hzero

/-- The last job of a CPU in the log is the one its mailbox holds. -/
theorem Ok.last_of_latest (h : s.Ok) (he : s.log[j]? = some e) (hlatest : s.Latest e.cpu j) :
    (s.cpus e.cpu).last = some j := by
  rcases (h.old j e he).2 with hlast | ⟨-, j', hlast, hlt⟩
  · exact hlast
  · obtain ⟨e', he', hholds⟩ := h.held e.cpu j' hlast
    exact absurd (hlatest j' e' he' hholds.cpu) (Nat.not_le.mpr hlt)

theorem Ok.holds (h : s.Ok) (he : s.log[j]? = some e) (hlast : (s.cpus e.cpu).last = some j) :
    Holds e.cpu (s.cpus e.cpu) e := by
  obtain ⟨e', he', hholds⟩ := h.held e.cpu j hlast
  rw [he] at he'
  cases he'
  exact hholds

theorem Holds.parts (h : Holds i (s.cpus i) e) (hi : i < s.count) :
    s.handleParts e.handle = some (i, (s.cpus i).mailboxSeq) := by
  unfold Entry.handle
  rw [h.cpu, h.seq]
  exact handleParts_makeHandle hi h.nonzero

/-! ### Steps -/

/-- A change to one CPU and its last job. -/
theorem Ok.update (h : s.Ok) {c : Cpu κ} {f : Entry κ → Entry κ}
    (hlast : (s.cpus i).last = some j) (he : s.log[j]? = some e) (hc : c.last = some j)
    (hholds : Holds i c (f e)) :
    Ok { s with cpus := update s.cpus i c, log := s.log.modify j f } := by
  have hj : (s.log.modify j f)[j]? = some (f e) := by
    rw [getElem?_modify_eq, he]
    rfl
  have hother : ∀ j', j' ≠ j → (s.log.modify j f)[j']? = s.log[j']? := by
    intro j' hne
    simp [Ne.symm hne]
  have hcpu : ∀ i', i' ≠ i → Function.update s.cpus i c i' = s.cpus i' :=
    fun i' hne => update_of_ne hne ..
  have hei : e.cpu = i := by
    obtain ⟨e', he', hh⟩ := h.held i j hlast
    rw [he] at he'
    cases he'
    exact hh.cpu
  refine ⟨fun i' hnone => ?_, fun i' j' hl => ?_, fun j' e' he' hfin => ?_, fun j' e' he' => ?_⟩
  · dsimp only at hnone ⊢
    by_cases hi : i' = i
    · subst hi
      rw [update_self, hc] at hnone
      cases hnone
    · rw [hcpu i' hi] at hnone ⊢
      exact h.fresh i' hnone
  · dsimp only at hl ⊢
    by_cases hi : i' = i
    · subst hi
      rw [update_self, hc] at hl
      cases hl
      rw [update_self]
      exact ⟨f e, hj, hholds⟩
    · rw [hcpu i' hi] at hl ⊢
      obtain ⟨e', he', hh⟩ := h.held i' j' hl
      have hne : j' ≠ j := by
        intro heq
        subst heq
        rw [he] at he'
        cases he'
        exact hi (hh.cpu.symm.trans hei)
      exact ⟨e', (hother j' hne).trans he', hh⟩
  · by_cases hne : j' = j
    · subst hne
      rw [hj] at he'
      cases he'
      rw [(hholds.finished hfin).2.2]
      exact some_ne_none _
    · rw [hother j' hne] at he'
      exact h.valued j' e' he' hfin
  · dsimp only at he' ⊢
    by_cases hne : j' = j
    · subst hne
      rw [hj] at he'
      cases he'
      rw [hholds.cpu, update_self]
      exact ⟨by rw [← hei]; exact (h.old j' e he).1, .inl hc⟩
    · rw [hother j' hne] at he'
      obtain ⟨hlt, hcase⟩ := h.old j' e' he'
      refine ⟨hlt, ?_⟩
      by_cases hi : e'.cpu = i
      · rw [hi] at hcase ⊢
        rw [update_self, hc]
        rw [hlast] at hcase
        exact hcase
      · rw [hcpu _ hi]
        exact hcase

/-- A step of a CPU with its last job, if it is not finished. -/
theorem Ok.busy (h : s.Ok) (hne : (s.cpus i).mailboxSeq ≠ (s.cpus i).mailboxDone) :
    ∃ j e, (s.cpus i).last = some j ∧ s.log[j]? = some e ∧ Holds i (s.cpus i) e ∧
      e.finished = false := by
  cases hlast : (s.cpus i).last with
  | none => exact absurd (h.fresh i hlast).1 hne
  | some j =>
    obtain ⟨e, he, hholds⟩ := h.held i j hlast
    refine ⟨j, e, rfl, he, hholds, ?_⟩
    cases hfin : e.finished with
    | false => rfl
    | true => exact absurd (hholds.finished hfin).1.symm hne

theorem Ok.busy_of_loop (h : s.Ok) (hloop : (s.cpus i).loop ≠ .idle) :
    ∃ j e, (s.cpus i).last = some j ∧ s.log[j]? = some e ∧ Holds i (s.cpus i) e ∧
      e.finished = false := by
  refine h.busy fun heq => ?_
  cases hlast : (s.cpus i).last with
  | none => exact hloop (h.fresh i hlast).2
  | some j =>
    obtain ⟨e, he, hholds⟩ := h.held i j hlast
    cases hfin : e.finished with
    | false => exact (hholds.unfinished hfin).1 heq.symm
    | true => exact hloop (hholds.finished hfin).2.1

/-- A change to one CPU that leaves the log alone. -/
theorem Ok.setCpu (h : s.Ok) {c : Cpu κ} (hlast : (s.cpus i).last = some j)
    (he : s.log[j]? = some e) (hc : c.last = some j) (hholds : Holds i c e) :
    (s.setCpu i c).Ok := by
  have hok := h.update (f := id) hlast he hc hholds
  have hid : s.log.modify j id = s.log := modify_id ..
  rw [hid] at hok
  exact hok

/-- A loop that is with a job is with the last one. -/
theorem Ok.at_stage (h : s.Ok) {l : ApLoop κ} (hloop : (s.cpus i).loop = l) (hl : l ≠ .idle) :
    ∃ j e, (s.cpus i).last = some j ∧ s.log[j]? = some e ∧ Holds i (s.cpus i) e ∧
      e.finished = false ∧ Stage (s.cpus i) e l := by
  obtain ⟨j, e, hlast, he, hh, hfin⟩ := h.busy_of_loop (hloop ▸ hl)
  exact ⟨j, e, hlast, he, hh, hfin, hloop ▸ (hh.unfinished hfin).2.2⟩

/-- The loop goes on with a job. -/
theorem Holds.advance {c : Cpu κ} (h : Holds i c e) (hfin : e.finished = false) {l : ApLoop κ}
    {r : UInt64} (hl : Stage { c with loop := l, mailboxResult := r } e l) :
    Holds i { c with loop := l, mailboxResult := r } e := by
  obtain ⟨hdone, hfn, -⟩ := h.unfinished hfin
  refine ⟨h.cpu, h.seq, h.nonzero, fun hf => ?_, fun _ => ⟨hdone, hfn, hl⟩⟩
  rw [hfin] at hf
  cases hf

theorem note_eq (hlast : (s.cpus i).last = some j) (f : Entry κ → Entry κ) :
    s.note i f = s.log.modify j f := by
  unfold note
  rw [hlast]

theorem apStep_ok (h : s.Ok) {a : ApStep} (hs : s.apStep i a = some s') : s'.Ok := by
  unfold apStep at hs
  split at hs
  · next hloop =>
    split at hs <;> cases hs
    next hne =>
      obtain ⟨j, e, hlast, he, hh, hfin⟩ := h.busy hne
      have hstage := (hh.unfinished hfin).2.2
      rw [hloop] at hstage
      exact h.setCpu hlast he hlast (hh.advance hfin ⟨rfl, hstage⟩)
  · next seq hloop =>
    obtain ⟨j, e, hlast, he, hh, hfin, hstage⟩ := h.at_stage hloop nofun
    rw [(hh.unfinished hfin).2.1] at hs
    cases hs
    exact h.setCpu hlast he hlast (hh.advance hfin ⟨hstage.1, rfl, hstage.2⟩)
  · next result seq fn hloop =>
    obtain ⟨j, e, hlast, he, hh, hfin, hstage⟩ := h.at_stage hloop nofun
    obtain ⟨hdone, hfn, -⟩ := hh.unfinished hfin
    rw [note_eq hlast] at hs
    cases hs
    refine h.update hlast he hlast ⟨hh.cpu, hh.seq, hh.nonzero, fun hf => ?_, fun _ => ?_⟩
    · rw [show e.finished = true from hf] at hfin
      cases hfin
    · exact ⟨hdone, hfn, hstage.1, rfl⟩
  · next seq result hloop =>
    obtain ⟨j, e, hlast, he, hh, hfin, hstage⟩ := h.at_stage hloop nofun
    cases hs
    exact h.setCpu hlast he hlast (hh.advance hfin hstage)
  · next seq hloop =>
    obtain ⟨j, e, hlast, he, hh, hfin, hstage⟩ := h.at_stage hloop nofun
    rw [note_eq hlast] at hs
    cases hs
    refine h.update hlast he hlast ⟨hh.cpu, hh.seq, hh.nonzero, fun _ => ?_,
      (fun hf => by cases hf)⟩
    exact ⟨hstage.1, rfl, hstage.2⟩
  · cases hs

/-- What `smp_submit_worker` does: a CPU whose mailbox is free gets the job. -/
theorem submitWorker_some {fn : κ} {handle : Nat} (hs : s.submitWorker fn = some (handle, s')) :
    ∃ i, i < s.count ∧ (s.cpus i).mailboxSeq = (s.cpus i).mailboxDone ∧
      handle = makeHandle i (nextSeq (s.cpus i).mailboxSeq) ∧
      s' = { s with
        cpus := update s.cpus i { s.cpus i with
            mailboxFn := some fn, mailboxSeq := nextSeq (s.cpus i).mailboxSeq
            last := some s.log.length }
        log := s.log ++ [{ cpu := i, seq := nextSeq (s.cpus i).mailboxSeq, fn }] } := by
  unfold submitWorker at hs
  split at hs <;> cases hs
  next i hfind =>
    have hfree := find?_some hfind
    have hmem := mem_of_find?_eq_some hfind
    simp only [free, Bool.and_eq_true, decide_eq_true_eq] at hfree
    exact ⟨i, mem_range.mp hmem, hfree.2, rfl, rfl⟩

theorem submitWorker_ok (h : s.Ok) {fn : κ} {handle : Nat}
    (hs : s.submitWorker fn = some (handle, s')) : s'.Ok := by
  obtain ⟨i, hi, hfree, -, rfl⟩ := submitWorker_some hs
  set e0 : Entry κ := { cpu := i, seq := nextSeq (s.cpus i).mailboxSeq, fn } with he0
  set c : Cpu κ := { s.cpus i with
    mailboxFn := some fn, mailboxSeq := nextSeq (s.cpus i).mailboxSeq
    last := some s.log.length } with hc
  have hnew : (s.log ++ [e0])[s.log.length]? = some e0 := by
    rw [getElem?_append_right (Nat.le_refl _), Nat.sub_self]
    rfl
  have hold : ∀ {j : Nat} {e : Entry κ}, s.log[j]? = some e → (s.log ++ [e0])[j]? = some e := by
    intro j e he
    rw [getElem?_append_left (List.getElem?_eq_some_iff.mp he).1]
    exact he
  -- the CPU's job before is finished
  have hidle : (s.cpus i).loop = .idle := by
    by_contra hloop
    obtain ⟨j, e, hlast, he, hh, hfin⟩ := h.busy_of_loop hloop
    exact (hh.unfinished hfin).1 hfree.symm
  have hholds : Holds i c e0 := by
    refine ⟨rfl, rfl, nextSeq_ne_zero _, (fun hf => by cases hf), fun _ => ⟨?_, rfl, ?_⟩⟩
    · rw [← hfree]
      exact (nextSeq_ne _).symm
    · rw [hidle]
      exact rfl
  refine ⟨fun i' hnone => ?_, fun i' j hl => ?_, fun j e he hfin => ?_, fun j e he => ?_⟩
  · dsimp only at hnone ⊢
    by_cases hii : i' = i
    · subst hii
      rw [update_self] at hnone
      cases hnone
    · rw [update_of_ne hii] at hnone ⊢
      exact h.fresh i' hnone
  · dsimp only at hl ⊢
    by_cases hii : i' = i
    · subst hii
      rw [update_self] at hl ⊢
      cases hl
      exact ⟨e0, hnew, hholds⟩
    · rw [update_of_ne hii] at hl ⊢
      obtain ⟨e, he, hh⟩ := h.held i' j hl
      exact ⟨e, hold he, hh⟩
  · rcases mem_append.mp (mem_of_getElem? he) with hmem | hmem
    · obtain ⟨j', hj'⟩ := mem_iff_getElem?.mp hmem
      exact h.valued j' e hj' hfin
    · rw [mem_singleton.mp hmem] at hfin
      cases hfin
  · dsimp only at he ⊢
    rcases Nat.lt_or_ge j s.log.length with hlt | hge
    · rw [getElem?_append_left hlt] at he
      obtain ⟨hcount, hcase⟩ := h.old j e he
      refine ⟨hcount, ?_⟩
      by_cases hei : e.cpu = i
      · rw [hei, update_self]
        refine .inr ⟨?_, s.log.length, rfl, hlt⟩
        by_contra hunfin
        have hfin : e.finished = false := by simpa using hunfin
        have hlast := hcase.resolve_right fun hf => hunfin hf.1
        have hh := h.holds he hlast
        rw [hei] at hh
        exact (hh.unfinished hfin).1 hfree.symm
      · rw [update_of_ne hei]
        exact hcase
    · have hje : j = s.log.length := by
        have hlen := (List.getElem?_eq_some_iff.mp he).1
        rw [length_append, length_singleton] at hlen
        omega
      subst hje
      rw [hnew] at he
      cases he
      refine ⟨hi, .inl ?_⟩
      rw [update_self]

theorem ok_empty (cpus : Nat → Cpu κ) (count : Nat)
    (h : ∀ i, (cpus i).mailboxSeq = (cpus i).mailboxDone ∧ (cpus i).loop = .idle ∧
      (cpus i).last = none) : Ok { cpus, count } := by
  refine ⟨fun i _ => ⟨(h i).1, (h i).2.1⟩, fun i j hl => ?_, (fun j e he => by cases he),
    (fun j e he => by cases he)⟩
  rw [(h i).2.2] at hl
  cases hl

/-! ### How the log grows -/

/-- Jobs stay in the log where they are, and what is known of them stays so. -/
def LogLe (log log' : List (Entry κ)) : Prop :=
  ∀ (j : Nat) (e : Entry κ), log[j]? = some e → ∃ e', log'[j]? = some e' ∧
    e'.handle = e.handle ∧ e'.fn = e.fn ∧ (e.value ≠ none → e'.value ≠ none) ∧
    (e.finished = true → e'.finished = true)

theorem LogLe.refl (log : List (Entry κ)) : LogLe log log :=
  fun _ e he => ⟨e, he, rfl, rfl, id, id⟩

theorem logLe_modify {log : List (Entry κ)} {f : Entry κ → Entry κ} {j : Nat}
    (hf : ∀ e, (f e).handle = e.handle ∧ (f e).fn = e.fn ∧ (e.value ≠ none → (f e).value ≠ none) ∧
      (e.finished = true → (f e).finished = true)) : LogLe log (log.modify j f) := by
  intro k e he
  by_cases hk : j = k
  · refine ⟨f e, ?_, hf e⟩
    rw [getElem?_modify, he]
    simp [hk]
  · rw [getElem?_modify, he]
    simp [hk]

/-- The jobs that have not returned: with a step of a CPU none is added, and one whose function
returns is gone. -/
theorem apStep_log {a : ApStep} (hs : s.apStep i a = some s') :
    LogLe s.log s'.log ∧ ∀ (j : Nat) (e : Entry κ), s'.log[j]? = some e → e.value = none →
      ∃ e', s.log[j]? = some e' ∧ e'.fn = e.fn ∧ e'.value = none := by
  have hsame : s'.log = s.log → LogLe s.log s'.log ∧ ∀ (j : Nat) (e : Entry κ),
      s'.log[j]? = some e → e.value = none →
        ∃ e', s.log[j]? = some e' ∧ e'.fn = e.fn ∧ e'.value = none := by
    intro hlog
    rw [hlog]
    exact ⟨LogLe.refl _, fun j e he hv => ⟨e, he, rfl, hv⟩⟩
  unfold apStep at hs
  split at hs
  · split at hs <;> cases hs
    exact hsame rfl
  · split at hs
    · cases hs
      exact hsame rfl
    · cases hs
      exact hsame rfl
  · next result seq fn hloop =>
    cases hlast : (s.cpus i).last with
    | none =>
      simp only [note, hlast] at hs
      cases hs
      exact hsame rfl
    | some k =>
      rw [note_eq hlast] at hs
      cases hs
      refine ⟨logLe_modify fun e => ⟨rfl, rfl, (fun _ => some_ne_none _), id⟩,
        fun j e he hv => ?_⟩
      rw [getElem?_modify] at he
      obtain ⟨e', he', heq⟩ := map_eq_some_iff.mp he
      refine ⟨e', he', ?_⟩
      split at heq
      · rw [← heq] at hv
        cases hv
      · rw [heq]
        exact ⟨rfl, hv⟩
  · cases hs
    exact hsame rfl
  · next seq hloop =>
    cases hlast : (s.cpus i).last with
    | none =>
      simp only [note, hlast] at hs
      cases hs
      exact hsame rfl
    | some k =>
      rw [note_eq hlast] at hs
      cases hs
      refine ⟨logLe_modify fun e => ⟨rfl, rfl, id, fun _ => rfl⟩, fun j e he hv => ?_⟩
      rw [getElem?_modify] at he
      obtain ⟨e', he', heq⟩ := map_eq_some_iff.mp he
      refine ⟨e', he', ?_⟩
      split at heq
      · rw [← heq] at hv ⊢
        exact ⟨rfl, hv⟩
      · rw [heq]
        exact ⟨rfl, hv⟩
  · cases hs

theorem logLe_append (log new : List (Entry κ)) : LogLe log (log ++ new) := by
  intro j e he
  refine ⟨e, ?_, rfl, rfl, id, id⟩
  rw [getElem?_append_left (List.getElem?_eq_some_iff.mp he).1]
  exact he

/-- A submission adds the job at the end. -/
theorem submitWorker_log {fn : κ} {handle : Nat} (hs : s.submitWorker fn = some (handle, s')) :
    ∃ e, e.handle = handle ∧ e.fn = fn ∧ e.value = none ∧ LogLe s.log s'.log ∧
      s'.log[s.log.length]? = some e ∧
      ∀ j e', s'.log[j]? = some e' → j = s.log.length ∧ e' = e ∨ s.log[j]? = some e' := by
  obtain ⟨e, hlog, hnew⟩ : ∃ e, s'.log = s.log ++ [e] ∧ e.handle = handle ∧ e.fn = fn ∧
      e.value = none := by
    obtain ⟨i, -, -, rfl, rfl⟩ := submitWorker_some hs
    exact ⟨_, rfl, rfl, rfl, rfl⟩
  rw [hlog]
  refine ⟨e, hnew.1, hnew.2.1, hnew.2.2, logLe_append _ _, List.getElem?_concat_length,
    fun j e' he => ?_⟩
  rcases Nat.lt_trichotomy j s.log.length with hlt | rfl | hgt
  · exact .inr (by rwa [getElem?_append_left hlt] at he)
  · exact .inl ⟨rfl, (Option.some.inj (List.getElem?_concat_length.symm.trans he)).symm⟩
  · rw [getElem?_eq_none (by simp; omega)] at he
    cases he

end Smp

end PythonOS.Boot
