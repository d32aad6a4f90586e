import PythonOS.Block.Virtio
import PythonOS.Sound.VirtioSnd

/-!
# PythonOS.Drivers.Dma

What the drivers take from `dma_alloc`, which never gives memory back, once they are
initialised: the two block drivers, the console, the two network drivers and the sound driver.

A block request and a console write allocate before they wait for the device, so what the device
does is no part of it: of `Block.Driver` it matters only which calls it refuses
(`taken_block_eq_zero_iff`). `bounded_iff` says for every class of operations whether runs of it
stay within some bound.
-/

namespace PythonOS.Drivers

open Lib Sound Block

/-- The bytes `dma_alloc` has given out, the network driver's buffers and free transmit
descriptors, what it has offered for receiving, and the sound driver. -/
structure Machine where
  allocated : Nat
  bufSize : Nat
  txBufs : List Nat
  txFree : List Nat
  rxBufs : List Nat
  rxAvail : List Nat
  snd : Snd

/-- An operation. `used` are the descriptors that the network device has returned by then, and
`u` is the sound device's used ring. -/
inductive Op
  | block (d : Driver) (op : BlkOp)
  | writeBytes (data : Bytes)
  | send (frame : Bytes) (used : List Nat)
  | recv (desc : Nat)
  | writePcm (u : Used) (pcm : Bytes)

namespace Machine

def dmaAlloc (m : Machine) (size : Nat) : Machine := { m with allocated := m.allocated + size }

/-- The buffers of one block request: header, sector and status. -/
def submit (m : Machine) : Machine := ((m.dmaAlloc 16).dmaAlloc 512).dmaAlloc 4

/-- `read_sector` and `write_sector`; data of a wrong length raises. -/
def request (m : Machine) (d : Driver) : BlkOp → Machine
  | .read _ => m.submit
  | .write _ data => if (d.payload data).isNone then m else m.submit

/-- `write_bytes` of the console. -/
def writeBytes (m : Machine) (data : Bytes) : Machine :=
  if data.isEmpty then m else m.dmaAlloc data.length

/-- `_reclaim_tx`. -/
def reclaimTx (m : Machine) (used : List Nat) : Machine :=
  used.foldl (fun m idx =>
    if idx ∈ m.txBufs ∧ idx ∉ m.txFree then { m with txFree := m.txFree ++ [idx] } else m) m

/-- `send_nowait`, with a header of 10 bytes. -/
def sendNowait (m : Machine) (frame : Bytes) (used : List Nat) : Machine :=
  if 10 + frame.length > m.bufSize then m
  else
    let m := m.reclaimTx used
    { m with txFree := m.txFree.dropLast }

/-- `recv_nowait` when the device has filled the buffer of the descriptor. -/
def recvNowait (m : Machine) (desc : Nat) : Machine :=
  if desc ∈ m.rxBufs then { m with rxAvail := m.rxAvail ++ [desc] } else m

def step (m : Machine) : Op → Machine
  | .block d op => m.request d op
  | .writeBytes data => m.writeBytes data
  | .send frame used => m.sendNowait frame used
  | .recv desc => m.recvNowait desc
  | .writePcm u pcm => { m with snd := (m.snd.writePcm u pcm).2 }

def run (m : Machine) (ops : List Op) : Machine := ops.foldl step m

/-- The bytes an operation takes: those of a block request that is not refused, and those written
to the console. -/
def taken : Op → Nat
  | .block _ (.read _) => 532
  | .block d (.write _ data) => if (d.payload data).isNone then 0 else 532
  | .writeBytes data => data.length
  | _ => 0

/-- A block request takes memory if and only if the driver does not refuse the call. -/
theorem taken_block_eq_zero_iff (d : Driver) (w : BlkWorld) (op : BlkOp) :
    taken (.block d op) = 0 ↔ ((d.begin w op).calls w.next).out = some .valueError := by
  have hmade : ∀ payload, ((d.check (d.submit w op payload) w.next).calls w.next).out ≠
      some .valueError := by
    intro payload
    unfold Driver.check
    dsimp only
    split <;> simp [Driver.submit]
  cases op with
  | read lba => simpa [taken, Driver.begin] using hmade none
  | write lba data =>
    cases hdata : d.payload data with
    | none => simp [taken, Driver.begin, hdata]
    | some buf => simpa [taken, Driver.begin, hdata] using hmade (some buf)

/-- The free transmit descriptors are different ones, and each has a buffer. -/
def TxOk (m : Machine) : Prop := m.txFree.Nodup ∧ m.txFree ⊆ m.txBufs

/-- `n` more bytes are given out, and the transmit descriptors stay in order. -/
structure Takes (m : Machine) (n : Nat) (m' : Machine) : Prop where
  allocated : m'.allocated = m.allocated + n
  tx : m.TxOk → m'.TxOk

theorem reclaimTx_takes (m : Machine) (used : List Nat) : m.Takes 0 (m.reclaimTx used) := by
  induction used generalizing m with
  | nil => exact ⟨rfl, id⟩
  | cons idx used ih =>
    rw [reclaimTx, List.foldl_cons, ← reclaimTx]
    split
    · next hidx =>
      obtain ⟨halloc, htx⟩ := ih { m with txFree := m.txFree ++ [idx] }
      refine ⟨halloc, fun h => htx ⟨h.1.append (List.nodup_singleton idx) ?_, ?_⟩⟩
      · simpa using hidx.2
      · simpa using ⟨h.2, hidx.1⟩
    · exact ih m

theorem step_takes (m : Machine) (o : Op) : m.Takes (taken o) (m.step o) := by
  cases o with
  | block d op =>
    cases op with
    | read lba => exact ⟨rfl, id⟩
    | write lba data =>
      simp only [step, request, taken]
      split <;> exact ⟨rfl, id⟩
  | writeBytes data =>
    cases data with
    | nil => exact ⟨rfl, id⟩
    | cons b data => exact ⟨rfl, id⟩
  | send frame used =>
    rw [step, sendNowait]
    split
    · exact ⟨rfl, id⟩
    · obtain ⟨halloc, htx⟩ := reclaimTx_takes m used
      have hsub := List.dropLast_sublist (m.reclaimTx used).txFree
      exact ⟨halloc, fun h => ⟨(htx h).1.sublist hsub, fun i hi => (htx h).2 (hsub.subset hi)⟩⟩
  | recv desc =>
    rw [step, recvNowait]
    split <;> exact ⟨rfl, id⟩
  | writePcm u pcm => exact ⟨rfl, id⟩

/-- A run takes what its operations take, and every frame finds a buffer allocated before. -/
theorem run_takes (m : Machine) (ops : List Op) : m.Takes (ops.map taken).sum (m.run ops) := by
  induction ops generalizing m with
  | nil => exact ⟨rfl, id⟩
  | cons o ops ih =>
    obtain ⟨halloc, htx⟩ := step_takes m o
    obtain ⟨hrest, htx'⟩ := ih (m.step o)
    refine ⟨?_, fun h => htx' (htx h)⟩
    rw [run, List.foldl_cons, ← run, hrest, halloc, List.map_cons, List.sum_cons, Nat.add_assoc]

/-- **Bounded memory.** The runs of operations of a class `C` stay within a bound if and only if
none of the class takes memory. -/
theorem bounded_iff (m : Machine) (C : Op → Prop) :
    (∃ bound, ∀ ops, (∀ o ∈ ops, C o) → (m.run ops).allocated ≤ bound) ↔
      ∀ o, C o → taken o = 0 := by
  constructor
  · rintro ⟨bound, hbound⟩ o ho
    by_contra htakes
    have hle := hbound (List.replicate (bound + 1) o) fun o' ho' => by
      rwa [List.eq_of_mem_replicate ho']
    rw [(run_takes ..).allocated, List.map_replicate, List.sum_replicate_nat] at hle
    have hge := Nat.le_mul_of_pos_right (bound + 1) (Nat.pos_of_ne_zero htakes)
    omega
  · intro hno
    refine ⟨m.allocated, fun ops hops => ?_⟩
    have hzero : (ops.map taken).sum = 0 :=
      List.sum_eq_zero_iff_forall_eq_nat.mpr fun x hx => by
        obtain ⟨o, ho, rfl⟩ := List.mem_map.mp hx
        exact hno o (hops o ho)
    rw [(run_takes ..).allocated, hzero, Nat.add_zero]

/-- Each sector that is read takes 532 bytes for good, so no bound holds for long. -/
theorem reads_take : ∃ m : Machine, m.allocated = 0 ∧ ∀ bound,
    bound < (m.run (List.replicate (bound + 1) (.block mmio (.read 0)))).allocated := by
  refine ⟨⟨0, 1526, [], [], [], [],
    { desc := fun i => ⟨.header i, 0, 0, 0⟩, availRing := id, headers := id,
      buffers := fun _ _ => 0 }⟩,
    rfl, fun bound => ?_⟩
  rw [(run_takes ..).allocated, List.map_replicate, List.sum_replicate_nat]
  show bound < 0 + (bound + 1) * 532
  omega

end Machine

end PythonOS.Drivers
