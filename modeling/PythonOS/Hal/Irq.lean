import PythonOS.Lib.Ring

/-!
# PythonOS.Hal.Irq

The queue between the interrupt handlers and the event loop (`hal.c`): `queue_interrupt` writes
the cell at the head, `py_drain_interrupts` takes at most 64 records from the tail with
interrupts masked, so the two never overlap.

The indices go round after 256 and one cell stays free, so the ring is the one of `RingBuffer`
with its indices taken modulo 256 and at most 255 entries.
-/

namespace PythonOS.Hal

open Lib List

/-- `pending_irq_t`. -/
structure PendingIrq where
  vector : UInt64
  errorCode : UInt64
  rip : UInt64
  cs : UInt64
  rflags : UInt64
  rsp : UInt64
  deriving Repr, DecidableEq

/-- The ring and its counter. `accepted`, `drained` and `drops` are history. -/
structure IrqQueue where
  cells : Nat → PendingIrq
  head : Nat := 0
  tail : Nat := 0
  dropped : UInt32 := 0
  accepted : List PendingIrq := []
  drained : List PendingIrq := []
  drops : Nat := 0

inductive IrqEvent
  | interrupt (irq : PendingIrq)
  | drain

namespace IrqQueue

def pendingIrqCap : Nat := 256
def pendingIrqDrainMax : Nat := 64

/-- `queue_interrupt`. -/
def queueInterrupt (s : IrqQueue) (irq : PendingIrq) : IrqQueue :=
  if (s.head + 1) % pendingIrqCap = s.tail then
    { s with dropped := s.dropped + 1, drops := s.drops + 1 }
  else
    { s with
      cells := Function.update s.cells s.head irq
      head := (s.head + 1) % pendingIrqCap
      accepted := s.accepted ++ [irq] }

/-- The loop of `py_drain_interrupts`, which fills `local`, for at most `n` records. -/
def drainFrom (s : IrqQueue) : Nat → IrqQueue
  | 0 => s
  | n + 1 =>
    if s.tail = s.head then s
    else
      drainFrom { s with
        tail := (s.tail + 1) % pendingIrqCap
        drained := s.drained ++ [s.cells s.tail] } n

def step (s : IrqQueue) : IrqEvent → IrqQueue
  | .interrupt irq => s.queueInterrupt irq
  | .drain => s.drainFrom pendingIrqDrainMax

def run (s : IrqQueue) (evs : List IrqEvent) : IrqQueue := evs.foldl step s

/-- The records in the ring. -/
def pending (s : IrqQueue) : List PendingIrq :=
  (range ((s.head + pendingIrqCap - s.tail) % pendingIrqCap)).map fun i =>
    s.cells ((s.tail + i) % pendingIrqCap)

/-- What was drained and what is still in the ring are the interrupts accepted, in order, the
counter is the number of drops modulo `2 ^ 32`, the next drain delivers the first 64 records of
the ring, or all if there are fewer, and the next interrupt is accepted unless the ring holds
255 records. -/
structure Faithful (s : IrqQueue) : Prop where
  order : s.drained ++ s.pending = s.accepted
  drain : (s.step .drain).drained = s.drained ++ s.pending.take 64 ∧
    (s.step .drain).accepted = s.accepted ∧ (s.step .drain).drops = s.drops
  counted : s.dropped.toNat = s.drops % 2 ^ 32
  next : ∀ irq, (s.queueInterrupt irq).accepted = s.accepted ++ [irq] ∧
      (s.queueInterrupt irq).drops = s.drops ∨
    s.pending.length = 255 ∧ (s.queueInterrupt irq).accepted = s.accepted ∧
      (s.queueInterrupt irq).drops = s.drops + 1

/-- The ring holds `q`. -/
structure Inv (s : IrqQueue) (q : List PendingIrq) : Prop where
  ring : ∃ r : RingBuffer PendingIrq, r.cells = s.cells ∧ s.tail = r.head % 256 ∧
    s.head = r.tail % 256 ∧ r.Holds 256 q
  length_lt : q.length < 256
  order : s.drained ++ q = s.accepted
  counted : s.dropped.toNat = s.drops % 2 ^ 32

variable {s : IrqQueue} {q : List PendingIrq}

theorem inv_empty (cells : Nat → PendingIrq) : Inv { cells } [] :=
  ⟨⟨{ cells }, rfl, rfl, rfl, RingBuffer.holds_empty _⟩, by decide, rfl, rfl⟩

/-- Both indices from the position of the first record. -/
theorem Inv.indices (h : Inv s q) : ∃ k, s.tail = k % 256 ∧ s.head = (k + q.length) % 256 ∧
    ∀ i x, q[i]? = some x → s.cells ((k + i) % 256) = x := by
  obtain ⟨r, hcells, htail, hhead, -, k, hk, hk', hq⟩ := h.ring
  exact ⟨k, by omega, by omega, hcells ▸ hq⟩

theorem Inv.pending_eq (h : Inv s q) : s.pending = q := by
  obtain ⟨k, htail, hhead, hcells⟩ := h.indices
  have hlen := h.length_lt
  have hcount : (s.head + 256 - s.tail) % 256 = q.length := by omega
  refine ext_getElem? fun i => ?_
  rw [pending, pendingIrqCap, hcount, getElem?_map, htail]
  by_cases hi : i < q.length
  · rw [getElem?_range hi, getElem?_eq_getElem hi, Option.map_some, Nat.mod_add_mod,
      hcells i q[i] (getElem?_eq_getElem hi)]
  · rw [getElem?_eq_none (by simpa using hi), getElem?_eq_none (by simpa using hi)]
    rfl

/-- A record is dropped exactly if there are 255 in the ring. -/
theorem Inv.full_iff (h : Inv s q) : (s.head + 1) % pendingIrqCap = s.tail ↔ q.length = 255 := by
  obtain ⟨k, htail, hhead, -⟩ := h.indices
  have hlen := h.length_lt
  rw [pendingIrqCap]
  omega

theorem Inv.queueInterrupt (h : Inv s q) (irq : PendingIrq) :
    ∃ q', Inv (s.queueInterrupt irq) q' := by
  unfold IrqQueue.queueInterrupt
  split
  · refine ⟨q, h.ring, h.length_lt, h.order, ?_⟩
    simp [h.counted]
  · next hroom =>
    have hlt : q.length < 255 := by
      have := h.length_lt
      have := mt h.full_iff.mpr hroom
      omega
    obtain ⟨r, hcells, htail, hhead, hr⟩ := h.ring
    refine ⟨q ++ [irq], ⟨r.push 256 irq, ?_, htail, ?_, hr.push (by decide) (by omega) irq⟩,
      by rw [length_append]; exact Nat.succ_lt_succ hlt, ?_, h.counted⟩
    · rw [hhead, ← hcells]
      rfl
    · show (s.head + 1) % 256 = (r.tail + 1) % 2 ^ 16 % 256
      omega
    · rw [← append_assoc, h.order]

/-- **The drain loop** takes the first `n` records, or all of them. -/
theorem Inv.drainFrom (h : Inv s q) (n : Nat) :
    Inv (s.drainFrom n) (q.drop n) ∧ (s.drainFrom n).drained = s.drained ++ q.take n ∧
      (s.drainFrom n).accepted = s.accepted ∧ (s.drainFrom n).drops = s.drops := by
  induction n generalizing s q with
  | zero => exact ⟨h, (append_nil _).symm, rfl, rfl⟩
  | succ n ih =>
    obtain ⟨k, hk, hk', hq⟩ := h.indices
    have hlen := h.length_lt
    unfold IrqQueue.drainFrom
    cases q with
    | nil =>
      rw [if_pos (hk.trans hk'.symm)]
      exact ⟨h, (append_nil _).symm, rfl, rfl⟩
    | cons irq q =>
      rw [length_cons] at hk' hlen
      rw [if_neg (by omega)]
      have hirq : s.cells s.tail = irq := hk ▸ hq 0 irq rfl
      rw [hirq]
      obtain ⟨r, hcells, htail, hhead, hr⟩ := h.ring
      have hinv : Inv { s with
          tail := (s.tail + 1) % pendingIrqCap, drained := s.drained ++ [irq] } q := by
        refine ⟨⟨r.advance, hcells, ?_, hhead, hr.advance⟩, Nat.lt_of_succ_lt hlen, ?_, h.counted⟩
        · show (s.tail + 1) % 256 = (r.head + 1) % 2 ^ 16 % 256
          omega
        · rw [← h.order, append_assoc]
          rfl
      obtain ⟨hleft, hdrained, hkept⟩ := ih hinv
      refine ⟨hleft, ?_, hkept⟩
      rw [hdrained, append_assoc]
      rfl

theorem run_inv (cells : Nat → PendingIrq) (evs : List IrqEvent) :
    ∃ q, Inv (run { cells } evs) q := by
  refine foldlRecOn (motive := fun s => ∃ q, Inv s q) evs step ⟨[], inv_empty cells⟩ ?_
  rintro s ⟨q, h⟩ e -
  cases e with
  | interrupt irq => exact h.queueInterrupt irq
  | drain => exact ⟨_, (h.drainFrom _).1⟩

/-- **No interrupt is lost, repeated or moved** by any interleaving of interrupts and drains, and
every drain delivers what has waited longest. -/
theorem run_faithful (cells : Nat → PendingIrq) (evs : List IrqEvent) :
    (run { cells } evs).Faithful := by
  obtain ⟨q, h⟩ := run_inv cells evs
  refine ⟨h.pending_eq.symm ▸ h.order, h.pending_eq.symm ▸ (h.drainFrom _).2, h.counted,
    fun irq => ?_⟩
  rw [h.pending_eq, ← h.full_iff]
  unfold queueInterrupt
  split
  · next hfull => exact .inr ⟨hfull, rfl, rfl⟩
  · exact .inl ⟨rfl, rfl⟩

theorem interrupts_only (s : IrqQueue) (irq : PendingIrq) (n : Nat) :
    (s.run (replicate n (.interrupt irq))).drained = s.drained ∧
      (s.run (replicate n (.interrupt irq))).accepted.length +
        (s.run (replicate n (.interrupt irq))).drops = s.accepted.length + s.drops + n := by
  induction n generalizing s with
  | zero => exact ⟨rfl, rfl⟩
  | succ n ih =>
    rw [replicate_succ, run, foldl_cons, ← run, (ih _).1, (ih _).2, step, queueInterrupt]
    split
    · exact ⟨rfl, by dsimp only; omega⟩
    · exact ⟨rfl, by simp only [length_append, length_singleton]; omega⟩

/-- The counter has 32 bits. -/
theorem counter_wraps : ∃ irq : PendingIrq,
    (run { cells := fun _ => irq } (replicate (2 ^ 32 + 255) (.interrupt irq))).dropped.toNat <
      (run { cells := fun _ => irq } (replicate (2 ^ 32 + 255) (.interrupt irq))).drops := by
  refine ⟨⟨0x21, 0, 0, 0, 0, 0⟩, ?_⟩
  generalize (⟨0x21, 0, 0, 0, 0, 0⟩ : PendingIrq) = irq
  obtain ⟨hdrained, hcount⟩ := interrupts_only { cells := fun _ => irq } irq (2 ^ 32 + 255)
  obtain ⟨q, h⟩ := run_inv (fun _ => irq) (replicate (2 ^ 32 + 255) (.interrupt irq))
  rw [← h.order, hdrained, nil_append] at hcount
  have hlen := h.length_lt
  have hlt := (run { cells := fun _ => irq }
    (replicate (2 ^ 32 + 255) (.interrupt irq))).dropped.toNat_lt
  simp only [length_nil] at hcount
  omega

end IrqQueue

end PythonOS.Hal
