import Mathlib.Logic.Function.Basic
import PythonOS.Lib.Bytes
import PythonOS.Lib.Dict

/-!
# PythonOS.Sound.VirtioSnd

`write_pcm` of the virtio sound driver (`virtio_snd.py`), once the device has been probed. The
device is not modelled: before each call it has left anything in the used ring, heads that are
not in flight and heads it has returned before included. `slots_partitioned` says that the pool
of transmit slots stays whole whatever it does.
-/

namespace PythonOS.Sound

open Lib Function

def queueSize : Nat := 16
def txPeriodBytes : Nat := 48000
def txPeriods : Nat := queueSize / 3

/-- The DMA buffers of a slot. -/
inductive Buf
  | header (slot : Nat)
  | data (slot : Nat)
  | status (slot : Nat)

/-- A descriptor. -/
structure Desc where
  addr : Buf
  length : Nat
  flags : Nat
  next : Nat

/-- The used ring as a call finds it: the index, and the head in each cell. -/
structure Used where
  idx : UInt16
  heads : Nat → Nat

/-- `VirtioMmioSound`: the transmit queue, the buffers and the pool of slots. -/
structure Snd where
  desc : Nat → Desc
  availRing : Nat → Nat
  availIdx : UInt16 := 0
  lastUsed : UInt16 := 0
  headers : Nat → Nat
  buffers : Nat → Nat → UInt8
  txFree : List Nat := List.range txPeriods
  txInflight : Dict Nat Nat := []
  bytesConsumed : Nat := 0
  txSubmitted : Nat := 0
  txReclaimed : Nat := 0
  txBackpressure : Nat := 0
  txHighWater : Nat := 0

namespace Snd

variable {s : Snd} {u : Used}

/-- One round of the loop that reclaims slots. -/
def reclaimOne (s : Snd) (u : Used) : Snd :=
  let head := u.heads (s.lastUsed.toNat % queueSize)
  let s := { s with lastUsed := s.lastUsed + 1 }
  match s.txInflight.get? head with
  | none => s
  | some slot =>
    { s with
      txInflight := s.txInflight.erase head
      txFree := s.txFree ++ [slot]
      txReclaimed := s.txReclaimed + 1 }

theorem reclaimOne_lastUsed : (s.reclaimOne u).lastUsed = s.lastUsed + 1 := by
  unfold reclaimOne
  dsimp only
  split <;> rfl

/-- The loop. The index has come round to that of the device after fewer than `2 ^ 16` rounds. -/
def reclaim (s : Snd) (u : Used) : Snd :=
  if s.lastUsed = u.idx then s else (s.reclaimOne u).reclaim u
termination_by (u.idx - s.lastUsed).toNat
decreasing_by
  rename_i hne
  have hlast := s.lastUsed.toNat_lt
  have hidx := u.idx.toNat_lt
  rw [← UInt16.toNat_inj] at hne
  rw [reclaimOne_lastUsed, UInt16.toNat_sub, UInt16.toNat_sub, UInt16.toNat_add, UInt16.toNat_one]
  omega

/-- A free slot is filled with the first `n` bytes and handed to the device. -/
def submit (s : Snd) (slot n : Nat) (pcm : Bytes) : Snd :=
  let (d0, d1, d2) := (slot * 3, slot * 3 + 1, slot * 3 + 2)
  let desc := update s.desc d0 ⟨.header slot, 4, 1, d1⟩
  let desc := update desc d1 ⟨.data slot, n, 1, d2⟩
  let txInflight := s.txInflight.set d0 slot
  { s with
    txFree := s.txFree.dropLast
    buffers := update s.buffers slot fun i =>
      if i < n then pcm.getD i 0 else s.buffers slot i
    headers := update s.headers slot 0
    desc := update desc d2 ⟨.status slot, 8, 2, 0⟩
    txInflight
    txSubmitted := s.txSubmitted + 1
    txHighWater := max s.txHighWater txInflight.length
    availRing := update s.availRing (s.availIdx.toNat % queueSize) d0
    availIdx := s.availIdx + 1
    bytesConsumed := s.bytesConsumed + n }

/-- `write_pcm`. -/
def writePcm (s : Snd) (u : Used) (pcm : Bytes) : Nat × Snd :=
  let s := s.reclaim u
  let n := min pcm.length txPeriodBytes
  if n = 0 then (0, s)
  else
    match s.txFree.getLast? with
    | none => (0, { s with txBackpressure := s.txBackpressure + 1 })
    | some slot => (n, s.submit slot n pcm)

/-- Calls in a row, each with the used ring it finds. -/
def run (s : Snd) (calls : List (Used × Bytes)) : Snd :=
  calls.foldl (fun s c => (s.writePcm c.1 c.2).2) s

/-- Every slot is free or in flight, under the head of its own descriptors, and the counters
agree. -/
structure Inv (s : Snd) : Prop where
  perm : (s.txFree ++ s.txInflight.values).Perm (List.range txPeriods)
  heads : ∀ p ∈ s.txInflight, p.1 = p.2 * 3
  count : s.txSubmitted = s.txReclaimed + s.txInflight.length

/-- The buffer, the header and the descriptors of a slot are the same. -/
def Untouched (s s' : Snd) (slot : Nat) : Prop :=
  s'.buffers slot = s.buffers slot ∧ s'.headers slot = s.headers slot ∧
    ∀ k < 3, s'.desc (slot * 3 + k) = s.desc (slot * 3 + k)

/-- The slot has just been made available with the first `n` bytes of `pcm`. -/
def Submitted (s s' : Snd) (slot n : Nat) (pcm : Bytes) : Prop :=
  Bytes.window (s'.buffers slot) 0 n = pcm.take n ∧ n ≤ pcm.length ∧
    s'.desc (slot * 3 + 1) = ⟨.data slot, n, 1, slot * 3 + 2⟩ ∧
    s'.availRing (s.availIdx.toNat % queueSize) = slot * 3 ∧ s'.availIdx = s.availIdx + 1 ∧
    s'.txInflight.get? (slot * 3) = some slot

/-- Reclaiming writes nothing that the device sees. -/
theorem reclaim_untouched (s : Snd) (u : Used) :
    (∀ slot, s.Untouched (s.reclaim u) slot) ∧ (s.reclaim u).availIdx = s.availIdx := by
  induction s using Snd.reclaim.induct u with
  | case1 s heq =>
    rw [reclaim, if_pos heq]
    exact ⟨fun _ => ⟨rfl, rfl, fun _ _ => rfl⟩, rfl⟩
  | case2 s hne ih =>
    have hone : (s.reclaimOne u).buffers = s.buffers ∧ (s.reclaimOne u).headers = s.headers ∧
        (s.reclaimOne u).desc = s.desc ∧ (s.reclaimOne u).availIdx = s.availIdx := by
      unfold reclaimOne
      dsimp only
      split <;> exact ⟨rfl, rfl, rfl, rfl⟩
    rw [reclaim, if_neg hne]
    simp only [Untouched, hone] at ih ⊢
    exact ih

theorem Inv.reclaimOne (h : s.Inv) : (s.reclaimOne u).Inv := by
  unfold Snd.reclaimOne
  dsimp only
  split
  · exact ⟨h.perm, h.heads, h.count⟩
  · next slot hget =>
    have hvalues := Dict.values_perm_erase hget
    have hlen := hvalues.length_eq
    simp only [Dict.values, List.length_map, List.length_cons] at hlen
    refine ⟨?_, fun p hp => h.heads p (Dict.mem_erase hp), ?_⟩
    · rw [List.append_assoc]
      exact (hvalues.symm.append_left _).trans h.perm
    · have := h.count
      simp only
      omega

theorem Inv.reclaim (h : s.Inv) : (s.reclaim u).Inv := by
  induction s using Snd.reclaim.induct u with
  | case1 s heq => rwa [Snd.reclaim, if_pos heq]
  | case2 s hne ih =>
    rw [Snd.reclaim, if_neg hne]
    exact ih h.reclaimOne

/-- A free slot has no entry in `_tx_inflight`. -/
theorem Inv.not_inflight (h : s.Inv) {slot : Nat} (hfree : slot ∈ s.txFree) :
    slot * 3 ∉ s.txInflight.keys := by
  intro hkey
  obtain ⟨⟨key, slot'⟩, hmem, heq⟩ := List.mem_map.mp hkey
  obtain rfl : slot' = slot := by
    have hhead := h.heads _ hmem
    simp only at hhead heq
    omega
  have hnodup := h.perm.nodup_iff.mpr List.nodup_range
  exact (List.nodup_append.mp hnodup).2.2 _ hfree _ (List.mem_map_of_mem hmem) rfl

theorem Inv.submit (h : s.Inv) {slot : Nat} (hlast : s.txFree.getLast? = some slot) (n : Nat)
    (pcm : Bytes) : (s.submit slot n pcm).Inv := by
  have hfree := List.mem_of_getLast? hlast
  have hset := Dict.values_set_perm s.txInflight (slot * 3) slot
  rw [Dict.erase_of_not_mem (h.not_inflight hfree)] at hset
  have hlen := hset.length_eq
  simp only [Dict.values, List.length_map, List.length_cons] at hlen
  refine ⟨?_, fun p hp => ?_, ?_⟩
  · refine ((hset.append_left _).trans ?_).trans h.perm
    show (s.txFree.dropLast ++ _).Perm _
    rw [← List.dropLast_append_getLast? slot hlast, List.append_assoc, List.dropLast_concat]
    exact .refl _
  · rcases Dict.mem_set hp with rfl | hp
    · rfl
    · exact h.heads p hp
  · have := h.count
    show s.txSubmitted + 1 = s.txReclaimed + (s.txInflight.set (slot * 3) slot).length
    omega

theorem submit_untouched {slot slot' n : Nat} {p : Bytes} (hne : slot' ≠ slot) :
    s.Untouched (s.submit slot n p) slot' := by
  refine ⟨update_of_ne hne .., update_of_ne hne .., fun k hk => ?_⟩
  simp only [submit]
  rw [update_of_ne (by omega), update_of_ne (by omega), update_of_ne (by omega)]

theorem submit_submitted (slot : Nat) {n : Nat} {pcm : Bytes} (hn : n ≤ pcm.length) :
    s.Submitted (s.submit slot n pcm) slot n pcm := by
  refine ⟨?_, hn, ?_, update_self .., rfl, by simp [submit]⟩
  · refine List.ext_getElem (by simp [Bytes.window, hn]) fun i hi hi' => ?_
    have hlt : i < n := by simpa [Bytes.window] using hi
    simp [Bytes.window, submit, hlt, List.getElem?_eq_getElem (Nat.lt_of_lt_of_le hlt hn)]
  · simp only [submit]
    rw [update_of_ne (by omega), update_self]

/-- A call submits nothing and changes nothing that the device sees, or it submits a free slot. -/
theorem writePcm_cases (s : Snd) (u : Used) (pcm : Bytes) :
    (∃ b, s.writePcm u pcm = (0, { s.reclaim u with txBackpressure := b })) ∨
      ∃ slot n, (s.reclaim u).txFree.getLast? = some slot ∧ n ≤ pcm.length ∧
        s.writePcm u pcm = (n, (s.reclaim u).submit slot n pcm) := by
  unfold writePcm
  dsimp only
  split
  · exact .inl ⟨_, rfl⟩
  · split
    · exact .inl ⟨_, rfl⟩
    · next slot hlast => exact .inr ⟨slot, _, hlast, Nat.min_le_left .., rfl⟩

theorem Inv.writePcm (h : s.Inv) (pcm : Bytes) : (s.writePcm u pcm).2.Inv := by
  have hr : (s.reclaim u).Inv := h.reclaim
  rcases s.writePcm_cases u pcm with ⟨b, heq⟩ | ⟨slot, n, hlast, -, heq⟩
  · rw [heq]
    exact ⟨hr.perm, hr.heads, hr.count⟩
  · rw [heq]
    exact hr.submit hlast n pcm

/-- **The pool of slots.** After any calls and whatever the device has left in the used ring, the
slots are partitioned into free ones and ones in flight, and their number is what was submitted
and not reclaimed. The next call changes no slot that is not free once it has reclaimed, and
returns the number of leading bytes in the slot it submits, or 0 if it submits none. -/
theorem slots_partitioned (desc : Nat → Desc) (availRing headers : Nat → Nat)
    (buffers : Nat → Nat → UInt8) (calls : List (Used × Bytes)) (u : Used) (pcm : Bytes) :
    let s := run { desc, availRing, headers, buffers } calls
    let s' := (s.writePcm u pcm).2
    (s.txFree ++ s.txInflight.values).Perm (List.range txPeriods) ∧
      s.txSubmitted = s.txReclaimed + s.txInflight.length ∧
      (∀ slot, slot ∉ (s.reclaim u).txFree → s.Untouched s' slot) ∧
      ((s.writePcm u pcm).1 = 0 ∧ s'.availIdx = s.availIdx ∧ (∀ slot, s.Untouched s' slot) ∨
        ∃ slot ∈ (s.reclaim u).txFree, s.Submitted s' slot (s.writePcm u pcm).1 pcm) := by
  intro s
  have hinv : s.Inv := by
    refine List.foldlRecOn calls _ ⟨List.Perm.refl _, ?_, rfl⟩ fun s hs c _ => hs.writePcm c.2
    exact fun p hp => absurd hp List.not_mem_nil
  obtain ⟨hsame, hidx⟩ := reclaim_untouched s u
  refine ⟨hinv.perm, hinv.count, ?_⟩
  rcases s.writePcm_cases u pcm with ⟨b, heq⟩ | ⟨slot, n, hlast, hn, heq⟩
  · rw [heq]
    exact ⟨fun slot _ => hsame slot, .inl ⟨rfl, hidx, hsame⟩⟩
  · rw [heq]
    have hfree := List.mem_of_getLast? hlast
    refine ⟨fun slot' hslot' => ?_, .inr ⟨slot, hfree, ?_⟩⟩
    · have hne : slot' ≠ slot := by
        rintro rfl
        exact hslot' hfree
      have hother := submit_untouched (s := s.reclaim u) (n := n) (p := pcm) hne
      have hold := hsame slot'
      exact ⟨hother.1.trans hold.1, hother.2.1.trans hold.2.1,
        fun k hk => (hother.2.2 k hk).trans (hold.2.2 k hk)⟩
    · have hnew := submit_submitted (s := s.reclaim u) slot hn
      rwa [Submitted, hidx] at hnew

end Snd

end PythonOS.Sound
