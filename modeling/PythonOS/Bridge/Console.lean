import PythonOS.Lib.Bytes
import PythonOS.Lib.Ring
import PythonOS.Lib.Runs

/-!
# PythonOS.Bridge.Console

Reception on the virtio console (`virtio_console.py`): a device that takes receive buffers from
the available ring, fills them in any order and after any delay, and `read_bytes`, whose loops
are taken one test at a time so that the device can act in between.

`_poll_rx_once` gives a descriptor back to the device in the same branch that copies its bytes,
and that branch is not taken for a buffer of length 0. `reception_iff` says that no byte is lost
or repeated, and that no descriptor is lost exactly when no such buffer has been polled.
-/

namespace PythonOS.Bridge

open Lib Lib.Bytes Function List Option

/-- The receive queue, the driver and the device. Descriptor `i` stands for the buffer
`_rx_bufs[i]` for ever. `call` is the `read_bytes` in progress: the number of bytes, and whether
there is a timeout. `owned` are the descriptors the device has taken. The rest is history: the
answers of `read_bytes`, what the device has filled in, and the entries polled. -/
structure Console where
  avail : RingBuffer Nat := { cells := fun _ => 0 }
  used : RingBuffer (Nat × Nat) := { cells := fun _ => (0, 0) }
  bufs : Nat → Nat → UInt8 := fun _ _ => 0
  rxPending : Bytes := []
  call : Option (Nat × Bool) := none
  owned : List Nat := []
  results : List (Option Bytes) := []
  completed : Bytes := []
  polled : List (Nat × Nat) := []

namespace Console

def queueSize : Nat := 16
def bufSize : Nat := 4096

/-- `_prime_rx`. -/
def primeRx : Console :=
  (range queueSize).foldl (fun c i => { c with avail := c.avail.push queueSize i }) {}

/-- What can happen: the device takes the next descriptor, the device fills one it has taken,
`read_bytes` is called, it makes the next test of its loops, and it times out. -/
inductive Event
  | fetch
  | complete (i : Nat) (data : Bytes)
  | read (n : Nat) (timed : Bool)
  | poll
  | expire
  deriving Repr, DecidableEq

/-- `_poll_rx_once` after its loop. -/
def pollRxOnce (c : Console) : Console :=
  let (descId, length) := c.used.front queueSize
  let c := { c with used := c.used.advance, polled := c.polled ++ [(descId, length)] }
  if descId < queueSize ∧ length ≠ 0 then
    { c with
      rxPending := c.rxPending ++ window (c.bufs descId) 0 length
      avail := c.avail.push queueSize descId }
  else c

/-- One event; `none` when it is not possible. -/
def step (c : Console) : Event → Option Console
  | .fetch =>
    if c.avail.head = c.avail.tail then none
    else some { c with owned := c.avail.front queueSize :: c.owned, avail := c.avail.advance }
  | .complete i data =>
    if i ∈ c.owned ∧ data.length ≤ bufSize then
      some { c with
        bufs := update c.bufs i fun k => data.getD k (c.bufs i k)
        used := c.used.push queueSize (i, data.length)
        owned := c.owned.erase i
        completed := c.completed ++ data }
    else none
  | .read n timed => if c.call.isSome then none else some { c with call := some (n, timed) }
  | .poll =>
    match c.call with
    | none => none
    | some (n, _) =>
      if c.rxPending.length < n then
        if c.used.tail = c.used.head then some c else some c.pollRxOnce
      else
        some { c with
          rxPending := c.rxPending.drop n
          results := c.results ++ [some (c.rxPending.take n)]
          call := none }
  | .expire =>
    match c.call with
    | some (n, true) =>
      if c.rxPending.length < n ∧ c.used.tail = c.used.head then
        some { c with results := c.results ++ [none], call := none }
      else none
    | _ => none

/-- The bytes `read_bytes` has returned. -/
def returned (c : Console) : Bytes := c.results.flatMap fun r => r.getD []

/-- The bytes of an entry of the used ring. -/
def bytesOf (c : Console) (e : Nat × Nat) : Bytes := window (c.bufs e.1) 0 e.2

/-- Every descriptor is available to the device, taken by it, or waits in the used ring. -/
def AllBack (c : Console) : Prop :=
  (c.avail.toList queueSize ++ c.owned ++ (c.used.toList queueSize).map Prod.fst).Perm
    (range queueSize)

/-- The descriptors of the buffers of length 0 that were polled. -/
def lost (c : Console) : List Nat := (c.polled.filter fun e => e.2 = 0).map Prod.fst

/-- `qa` and `qu` are the contents of the rings. -/
structure Inv (c : Console) (qa : List Nat) (qu : List (Nat × Nat)) : Prop where
  avail : c.avail.Holds queueSize qa
  used : c.used.Holds queueSize qu
  perm : (qa ++ c.owned ++ qu.map Prod.fst ++ c.lost).Perm (range queueSize)
  bytes : c.returned ++ c.rxPending ++ qu.flatMap c.bytesOf = c.completed

variable {c c' : Console} {qa : List Nat} {qu : List (Nat × Nat)}

theorem size_dvd : queueSize ∣ 2 ^ 16 := by decide

theorem Inv.length_eq (h : Inv c qa qu) :
    qa.length + c.owned.length + qu.length + c.lost.length = queueSize := by
  have hlen := h.perm.length_eq
  simpa only [length_append, length_map, length_range] using hlen

theorem Inv.lt_of_used (h : Inv c qa qu) {e : Nat × Nat} (he : e ∈ qu) : e.1 < queueSize := by
  refine mem_range.mp (h.perm.mem_iff.mp ?_)
  simp only [mem_append]
  exact .inl (.inr (mem_map_of_mem he))

theorem Inv.prime : Inv primeRx (range queueSize) [] := by
  have hpush : ∀ n, n ≤ queueSize → ((range n).foldl (fun (c : Console) i =>
      { c with avail := c.avail.push queueSize i }) {}).avail.Holds queueSize (range n) := by
    intro n hn
    induction n with
    | zero => exact RingBuffer.holds_empty _
    | succ n ih =>
      rw [range_succ, foldl_append]
      exact (ih (Nat.le_of_succ_le hn)).push size_dvd (by rw [length_range]; exact hn) n
  exact ⟨hpush _ (Nat.le_refl _), RingBuffer.holds_empty _, by decide, rfl⟩

theorem Inv.fetch {a : Nat} (h : Inv c (a :: qa) qu) :
    Inv { c with owned := a :: c.owned, avail := c.avail.advance } qa qu := by
  refine ⟨h.avail.advance, h.used, List.Perm.trans ?_ h.perm, h.bytes⟩
  exact ((perm_middle.append_right _).append_right _)

/-- A buffer that the device owns is no other entry's. -/
theorem Inv.complete {i : Nat} {data : Bytes} (h : Inv c qa qu) (hi : i ∈ c.owned) :
    Inv { c with
      bufs := update c.bufs i fun k => data.getD k (c.bufs i k)
      used := c.used.push queueSize (i, data.length)
      owned := c.owned.erase i
      completed := c.completed ++ data } qa (qu ++ [(i, data.length)]) := by
  have hlen := h.length_eq
  have howned := length_pos_of_mem hi
  have hnodup : (qa ++ c.owned ++ qu.map Prod.fst).Nodup :=
    (h.perm.nodup_iff.mpr nodup_range).sublist (sublist_append_left ..)
  have hother : ∀ e ∈ qu, e.1 ≠ i := by
    intro e he heq
    exact (nodup_append.mp hnodup).2.2 i (mem_append_right _ hi) e.1
      (mem_map_of_mem he) heq.symm
  refine ⟨h.avail, h.used.push size_dvd (by omega) _, List.Perm.trans ?_ h.perm, ?_⟩
  · rw [perm_iff_count]
    intro x
    have herase := (perm_cons_erase hi).count_eq x
    simp only [map_append, count_append, map_cons, map_nil, count_cons, count_nil] at herase ⊢
    simp only [lost]
    omega
  · have hnew : window (fun k => data.getD k (c.bufs i k)) 0 data.length = data := by
      refine ext_getElem (by simp [window]) fun k hk hk' => ?_
      simp [window, hk']
    have hold : qu.flatMap (fun e => window (update c.bufs i
        (fun k => data.getD k (c.bufs i k)) e.1) 0 e.2) = qu.flatMap c.bytesOf := by
      refine flatMap_congr fun e he => ?_
      rw [update_of_ne (hother e he)]
      rfl
    show c.returned ++ c.rxPending ++ (qu ++ [(i, data.length)]).flatMap _ = c.completed ++ data
    rw [← h.bytes, flatMap_append, flatMap_singleton, append_assoc _ _ data]
    simp only [bytesOf, update_self]
    rw [hnew]
    exact congrArg (fun l => _ ++ (l ++ data)) hold

theorem Inv.pollRxOnce {e : Nat × Nat} (h : Inv c qa (e :: qu)) :
    ∃ qa', Inv c.pollRxOnce qa' qu := by
  obtain ⟨i, len⟩ := e
  have hlt := h.lt_of_used (mem_cons_self ..)
  have hlen := h.length_eq
  rw [length_cons] at hlen
  unfold Console.pollRxOnce
  rw [h.used.front size_dvd]
  dsimp only
  by_cases hz : len = 0
  · -- the descriptor is in neither ring now
    refine ⟨qa, ?_⟩
    rw [if_neg fun hc => hc.2 hz]
    refine ⟨h.avail, h.used.advance, List.Perm.trans ?_ h.perm, ?_⟩
    · rw [perm_iff_count]
      intro x
      simp only [lost, filter_append, map_append, count_append, map_cons,
        count_cons, hz, decide_true, filter_cons_of_pos, filter_nil, map_nil,
        count_nil]
      omega
    · rw [← h.bytes, flatMap_cons, bytesOf, hz]
      rfl
  · refine ⟨qa ++ [i], ?_⟩
    rw [if_pos ⟨hlt, hz⟩]
    refine ⟨h.avail.push size_dvd (by omega) i, h.used.advance, List.Perm.trans ?_ h.perm, ?_⟩
    · rw [perm_iff_count]
      intro x
      simp only [lost, filter_append, map_append, count_append, map_cons,
        count_cons, hz, decide_false, filter_cons_of_neg, filter_nil, map_nil,
        count_nil, Bool.false_eq_true, not_false_iff]
      omega
    · rw [← h.bytes, flatMap_cons]
      simp only [append_assoc]
      rfl

theorem step_inv (c : Console) (e : Event) (c' : Console) (h : ∃ qa qu, Inv c qa qu)
    (hstep : c.step e = some c') : ∃ qa qu, Inv c' qa qu := by
  obtain ⟨qa, qu, h⟩ := h
  cases e with
  | fetch =>
    simp only [step] at hstep
    split at hstep <;> cases hstep
    next hne =>
      cases qa with
      | nil => exact absurd ((h.avail.head_eq_iff (by decide)).mpr rfl) hne
      | cons a qa =>
        rw [h.avail.front size_dvd]
        exact ⟨qa, qu, h.fetch⟩
  | complete i data =>
    obtain ⟨hi, rfl⟩ := ite_some_none_eq_some.mp hstep
    exact ⟨qa, _, h.complete hi.1⟩
  | read n timed =>
    simp only [step] at hstep
    split at hstep <;> cases hstep
    exact ⟨qa, qu, h.avail, h.used, h.perm, h.bytes⟩
  | poll =>
    simp only [step] at hstep
    split at hstep
    · cases hstep
    · next n _ _ =>
      split at hstep
      · split at hstep
        · cases hstep
          exact ⟨qa, qu, h⟩
        · next hne =>
          cases hstep
          cases qu with
          | nil => exact absurd ((h.used.head_eq_iff (by decide)).mpr rfl).symm hne
          | cons e qu =>
            obtain ⟨qa', h'⟩ := h.pollRxOnce
            exact ⟨qa', qu, h'⟩
      · cases hstep
        refine ⟨qa, qu, h.avail, h.used, h.perm, ?_⟩
        rw [← h.bytes]
        simp only [returned, flatMap_append, flatMap_singleton, getD_some]
        rw [append_assoc (c.results.flatMap _), take_append_drop]
        rfl
  | expire =>
    simp only [step] at hstep
    split at hstep
    · obtain ⟨-, rfl⟩ := ite_some_none_eq_some.mp hstep
      refine ⟨qa, qu, h.avail, h.used, h.perm, ?_⟩
      rw [← h.bytes]
      simp only [returned, flatMap_append, flatMap_singleton, getD_none, append_nil]
      rfl
    · cases hstep

/-- **Reception.** Whatever the device and the reader have done, the bytes returned, the bytes
pending and those waiting in the used ring are the completed buffers in used-ring order; a
`read_bytes` that needs more bytes takes the first entry of the used ring; and every descriptor is
back if and only if no buffer of length 0 has been polled. -/
theorem reception_iff {events : List Event} (hrun : exec step primeRx events = some c) :
    c.returned ++ c.rxPending ++ (c.used.toList queueSize).flatMap c.bytesOf = c.completed ∧
      (∀ n timed e rest, c.call = some (n, timed) → c.rxPending.length < n →
        c.used.toList queueSize = e :: rest → ∃ c', c.step .poll = some c' ∧
          c'.polled = c.polled ++ [e] ∧ c'.used.toList queueSize = rest) ∧
      (c.AllBack ↔ ∀ e ∈ c.polled, e.2 ≠ 0) := by
  obtain ⟨qa, qu, h⟩ := exec_invariant (fun c => ∃ qa qu, Inv c qa qu) step_inv
    ⟨_, _, Inv.prime⟩ hrun
  have hlost : (∀ e ∈ c.polled, e.2 ≠ 0) ↔ c.lost = [] := by
    simp [lost, filter_eq_nil_iff]
  rw [AllBack, h.used.toList_eq size_dvd (by decide), h.avail.toList_eq size_dvd (by decide), hlost]
  refine ⟨h.bytes, fun n timed e rest hcall hlen hlist => ?_, fun hall => ?_, fun hnil => ?_⟩
  · subst hlist
    obtain ⟨i, len⟩ := e
    obtain ⟨qa', h'⟩ := h.pollRxOnce
    have hne : c.used.tail ≠ c.used.head := by
      intro heq
      cases (h.used.head_eq_iff (by decide)).mp heq.symm
    refine ⟨c.pollRxOnce, ?_, ?_, h'.used.toList_eq size_dvd (by decide)⟩
    · simp only [step, hcall, if_pos hlen, if_neg hne]
    · unfold Console.pollRxOnce
      rw [h.used.front size_dvd]
      dsimp only
      split <;> rfl
  · have hlen := hall.length_eq
    have hall' := h.perm.length_eq
    rw [length_append] at hall'
    exact length_eq_zero_iff.mp (by omega)
  · have hperm := h.perm
    rwa [hnil, append_nil] at hperm

/-- Two bytes arrive and are read, and a read that times out finds none. -/
theorem reception_two_bytes : ∃ c, exec step primeRx
      [.fetch, .complete 0 [104, 105], .read 2 false, .poll, .poll, .read 1 true,
        .expire] = some c ∧
    c.returned ++ c.rxPending ++ (c.used.toList queueSize).flatMap c.bytesOf = c.completed ∧
      (c.AllBack ↔ ∀ e ∈ c.polled, e.2 ≠ 0) :=
  (isSome_iff_exists.mp rfl).imp fun _ hrun =>
    have h := reception_iff hrun
    ⟨hrun, h.1, h.2.2⟩

/-- An empty buffer is not given back. -/
theorem empty_buffer_not_back : ∃ c, exec step primeRx
    [.fetch, .complete 0 [], .read 1 false, .poll] = some c ∧ ¬ c.AllBack :=
  ⟨_, rfl, fun h => absurd h.length_eq (by decide)⟩

end Console

end PythonOS.Bridge
