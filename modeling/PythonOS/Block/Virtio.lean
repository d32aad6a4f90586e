import PythonOS.Lib.Bytes
import PythonOS.Lib.Runs
import Mathlib.Logic.Function.Basic

/-!
# PythonOS.Block.Virtio

The two virtio block drivers, `virtio_blk.py` (MMIO) and `virtio_blk_pci.py`, with any number of
tasks in `read_sector` and `write_sector` and a device that takes requests from the available
ring and completes them in any order and after any delay.

A call fills three DMA buffers and three descriptors, pushes the head on the available ring and
waits until the used index is one more than `_last_used` was when the call was made. It looks
neither at the entry of the used ring nor at the status byte. When calls follow one another
each has its own request (`ownRequest_of_exclusive`), and it returns whatever the status is
(`check_returned`): that calls return for accepted requests only is up to the device
(`returnsAccepted_of_answersOk`). Two calls at once wait for the same index, and after a timeout
of the PCI driver the index is one ahead for ever (`returns_before_completion`).

The two drivers are one definition with parameters, `Driver`; what differs is that the PCI
driver keeps its indices in 16 bits, gives up after 5000 rounds, stamps the status byte before
the request and pads short data. The two bytes of the available index are written as one.
-/

namespace PythonOS.Block

open Lib Lib.Bytes Function List Option

/-- A DMA buffer of the call `k`: request header, data or status. -/
inductive Buf
  | hdr (k : Nat)
  | data (k : Nat)
  | stat (k : Nat)
  deriving Repr, DecidableEq

/-- A descriptor. -/
structure Desc where
  addr : Buf
  len : Nat
  flags : Nat
  next : Nat
  deriving Repr, DecidableEq

def vringDescFNext : Nat := 1
def vringDescFWrite : Nat := 2

/-- The two calls. -/
inductive BlkOp
  | read (lba : Nat)
  | write (lba : Nat) (data : Bytes)
  deriving Repr, DecidableEq

def BlkOp.isRead : BlkOp → Bool
  | .read _ => true
  | .write _ _ => false

/-- What the drivers do differently. `payload` is the 512 bytes that `write_sector` puts into the
buffer, or none when it raises `ValueError`. -/
structure Driver where
  queueSize : Nat
  masked : Bool
  prestamp : Option UInt8
  spinLimit : Option Nat
  payload : Bytes → Option Bytes

/-- `VirtioMmioBlk`. -/
def mmio : Driver where
  queueSize := 16
  masked := false
  prestamp := none
  spinLimit := none
  payload data := if data.length ≠ 512 then none else some data

/-- `VirtioPciBlk`, with the queue size it has negotiated. -/
def pci (queueSize : Nat) : Driver where
  queueSize
  masked := true
  prestamp := some 0xFF
  spinLimit := some 5000
  payload data :=
    if 512 < data.length then none
    else some ((data ++ zeros (512 - data.length)).take 512)

/-- How a call ends. A write returns no data. -/
inductive Outcome
  | returned (data : Bytes)
  | timeoutError
  | valueError
  deriving Repr, DecidableEq

/-- A call of `read_sector` or `write_sector`. -/
structure BlkCall where
  op : BlkOp
  target : Nat := 0
  spins : Nat := 0
  out : Option Outcome := none
  deriving Repr, DecidableEq

/-- A request that the device has taken from the available ring. -/
structure Chain where
  head : Nat
  hdr : Buf
  data : Buf
  stat : Buf
  deriving Repr, DecidableEq

/-- The driver's fields, the queue, the DMA buffers, the device and the calls. `produced` is what
the device made of the request of a call: the data, and the status byte if it wrote one. -/
structure BlkWorld where
  nextDesc : Nat := 0
  availIdx : Nat := 0
  lastUsed : Nat := 0
  descs : Nat → Option Desc := fun _ => none
  availRing : Nat → Nat := fun _ => 0
  availShown : Nat := 0
  usedRing : Nat → Nat × Nat := fun _ => (0, 0)
  usedIdx : Nat := 0
  dataMem : Nat → Bytes
  statMem : Nat → UInt8
  devAvail : Nat := 0
  fetched : List Chain := []
  calls : Nat → BlkCall := fun _ => { op := .read 0 }
  next : Nat := 0
  produced : Nat → Option (Bytes × Option UInt8) := fun _ => none

/-- What can happen: a task makes a call, a waiting call wakes up, the device takes the next
request, and the device completes one it has taken. -/
inductive BlkEvent
  | call (op : BlkOp)
  | poll (k : Nat)
  | fetch
  | complete (n : Nat) (data : Bytes) (status : Option UInt8)
  deriving Repr, DecidableEq

/-- The 512 bytes of a buffer, read as 128 little-endian words and taken apart again. -/
def copyOut (buf : Bytes) : Bytes :=
  (range 128).flatMap fun i => leBytes 4 (leAt 4 buf (4 * i))

namespace Driver

variable (d : Driver)

/-- An index field after an update. -/
def keep (v : Nat) : Nat := if d.masked then v % 2 ^ 16 else v

/-- The index behind a descriptor's. -/
def bump (i : Nat) : Nat := (i + 1) % d.queueSize

/-- Building the request of call `k` and making it available. -/
def submit (w : BlkWorld) (op : BlkOp) (payload : Option Bytes) : BlkWorld :=
  let k := w.next
  let d0 := w.nextDesc
  let d1 := d.bump d0
  let d2 := d.bump d1
  let dataFlags := if op.isRead then vringDescFNext ||| vringDescFWrite else vringDescFNext
  let descs := update w.descs d0 (some ⟨.hdr k, 16, vringDescFNext, d1⟩)
  let descs := update descs d1 (some ⟨.data k, 512, dataFlags, d2⟩)
  let descs := update descs d2 (some ⟨.stat k, 1, vringDescFWrite, 0⟩)
  let availIdx := d.keep (w.availIdx + 1)
  { w with
    nextDesc := d.bump d2
    descs
    availRing := update w.availRing (w.availIdx % d.queueSize) d0
    availIdx
    availShown := availIdx % 2 ^ 16
    dataMem := match payload with
      | none => w.dataMem
      | some data => update w.dataMem k data
    statMem := match d.prestamp with
      | none => w.statMem
      | some s => update w.statMem k s
    calls := update w.calls k { op, target := (w.lastUsed + 1) % 2 ^ 16 }
    next := k + 1 }

/-- The test of the waiting loop; when it succeeds the call pops the used ring and returns. -/
def check (w : BlkWorld) (k : Nat) : BlkWorld :=
  let c := w.calls k
  if w.usedIdx = c.target then
    let data := if c.op.isRead then copyOut (w.dataMem k) else []
    { w with
      lastUsed := d.keep (w.lastUsed + 1)
      calls := update w.calls k { c with out := some (.returned data) } }
  else w

/-- A call raises. -/
def fail (w : BlkWorld) (k : Nat) (o : Outcome) : BlkWorld :=
  { w with calls := update w.calls k { w.calls k with out := some o } }

/-- The call, up to its first suspension. -/
def begin (w : BlkWorld) (op : BlkOp) : BlkWorld :=
  match op with
  | .read lba => d.check (d.submit w (.read lba) none) w.next
  | .write lba data =>
    match d.payload data with
    | none =>
      { w with
        calls := update w.calls w.next { op, out := some .valueError }
        next := w.next + 1 }
    | some buf => d.check (d.submit w (.write lba data) (some buf)) w.next

/-- The next round of the waiting loop. -/
def round (w : BlkWorld) (k : Nat) : BlkWorld :=
  let c := { w.calls k with spins := (w.calls k).spins + 1 }
  let w := { w with calls := update w.calls k c }
  match d.spinLimit with
  | none => d.check w k
  | some limit => if limit < c.spins then fail w k .timeoutError else d.check w k

/-- The device reads the chain of the next head. -/
def fetch (w : BlkWorld) : Option BlkWorld := do
  if w.devAvail = w.availShown then none
  else
    let head := w.availRing (w.devAvail % d.queueSize)
    let hdr ← w.descs head
    let data ← w.descs hdr.next
    let stat ← w.descs data.next
    some
      { w with
        devAvail := (w.devAvail + 1) % 2 ^ 16
        fetched := w.fetched ++ [⟨head, hdr.addr, data.addr, stat.addr⟩] }

/-- The device completes a request it has taken: it writes the data of a read and, perhaps, the
status byte, and shows the head in the used ring. -/
def complete (w : BlkWorld) (c : Chain) (data : Bytes) (status : Option UInt8) : BlkWorld :=
  let isRead := match c.hdr with
    | .hdr k => (w.calls k).op.isRead
    | _ => false
  { w with
    dataMem := match c.data with
      | .data k => if isRead then update w.dataMem k data else w.dataMem
      | _ => w.dataMem
    statMem := match c.stat, status with
      | .stat k, some s => update w.statMem k s
      | _, _ => w.statMem
    usedRing := update w.usedRing (w.usedIdx % d.queueSize) (c.head, 512)
    usedIdx := (w.usedIdx + 1) % 2 ^ 16
    produced := match c.hdr with
      | .hdr k => update w.produced k (some (data, status))
      | _ => w.produced }

/-- One event. -/
def step (w : BlkWorld) : BlkEvent → Option BlkWorld
  | .call op => some (d.begin w op)
  | .poll k => if k < w.next ∧ (w.calls k).out = none then some (d.round w k) else none
  | .fetch => d.fetch w
  | .complete n data status =>
    match w.fetched[n]? with
    | none => none
    | some c =>
      if data.length = 512 then
        some (d.complete { w with fetched := w.fetched.eraseIdx n } c data status)
      else none

end Driver

/-- A queue that has just been set up; the DMA buffers hold what they hold. -/
def start (dataMem : Nat → Bytes) (statMem : Nat → UInt8) : BlkWorld := { dataMem, statMem }

/-! ### The properties -/

namespace BlkWorld

/-- A call that has returned normally has had its request completed, and a read returned the data
of that request. -/
def OwnRequest (w : BlkWorld) (k : Nat) : Prop :=
  ∀ data, (w.calls k).out = some (.returned data) →
    ∃ made status, w.produced k = some (made, status) ∧
      ((w.calls k).op.isRead = true → data = made)

/-- The status byte for success, `VIRTIO_BLK_S_OK`. -/
def statusOk : UInt8 := 0

/-- The device has completed the request of the call with status OK. -/
def Accepted (w : BlkWorld) (k : Nat) : Prop := ∃ made, w.produced k = some (made, some statusOk)

/-- The call has returned normally. -/
def Returned (w : BlkWorld) (k : Nat) : Prop := ∃ data, (w.calls k).out = some (.returned data)

/-- `_write_block` has returned normally: every sector of the block was written by a call that
returned. -/
def WroteBlock (w : BlkWorld) (block sectorsPerBlock : Nat) (data : Bytes) : Prop :=
  ∀ s < sectorsPerBlock, ∃ k < w.next, w.Returned k ∧
    (w.calls k).op = .write (block * sectorsPerBlock + s) (slice data (s * 512) ((s + 1) * 512))

/-- Calls return normally only when the device has completed their requests with status OK, and so
for the sectors of a block. -/
def ReturnsAccepted (w : BlkWorld) : Prop :=
  (∀ k < w.next, w.Returned k → w.Accepted k) ∧
    ∀ block sectorsPerBlock data, w.WroteBlock block sectorsPerBlock data →
      ∀ s < sectorsPerBlock, ∃ k < w.next, w.Accepted k ∧
        (w.calls k).op =
          .write (block * sectorsPerBlock + s) (slice data (s * 512) ((s + 1) * 512))

/-- No call is out: each has returned normally, or was refused before it made a request. -/
def Quiet (w : BlkWorld) : Prop :=
  ∀ k < w.next, w.Returned k ∨ (w.calls k).out = some .valueError

/-- A call is made only when no other is out and none has timed out. -/
def Exclusive (w : BlkWorld) : BlkEvent → Prop
  | .call _ => w.Quiet
  | _ => True

/-- The status with which the device completes a request is one of `P`. -/
def Answers (P : Option UInt8 → Prop) : BlkEvent → Prop
  | .complete _ _ status => P status
  | _ => True

instance {P : Option UInt8 → Prop} [DecidablePred P] : (e : BlkEvent) → Decidable (Answers P e)
  | .complete _ _ status => inferInstanceAs (Decidable (P status))
  | .call _ | .poll _ | .fetch => isTrue trivial

end BlkWorld

/-! ### Words -/

theorem copyOut_eq {buf : Bytes} (h : buf.length = 512) : copyOut buf = buf := by
  have hprefix : ∀ n ≤ 128, (range n).flatMap
      (fun i => leBytes 4 (leAt 4 buf (4 * i))) = buf.take (4 * n) := by
    intro n hn
    induction n with
    | zero => rfl
    | succ n ih =>
      have hlen : (slice buf (4 * n) (4 * n + 4)).length = 4 := by
        rw [length_slice]
        omega
      have hword : leBytes 4 (leAt 4 buf (4 * n)) =
          slice buf (4 * n) (4 * n + 4) := by
        have hle := leBytes_leNat (slice buf (4 * n) (4 * n + 4))
        rwa [hlen] at hle
      have hjoin := @slice_append_slice buf 0 (4 * n) (4 * n + 4) (by omega) (by omega)
      rw [range_succ, flatMap_append, ih (by omega), flatMap_singleton, hword]
      exact hjoin
  have hall := hprefix 128 le_rfl
  rw [copyOut, hall]
  exact take_of_length_le (by omega)

/-! ### The invariant -/

namespace BlkWorld

variable {P : Option UInt8 → Prop}

/-- The call is over, and it had its own request if it returned normally: `OwnRequest`, with a
status of `P`. -/
def Finished (P : Option UInt8 → Prop) (w : BlkWorld) (k : Nat) : Prop :=
  (w.Returned k ∨ (w.calls k).out = some .valueError) ∧
    ∀ data, (w.calls k).out = some (.returned data) → ∃ made status,
      w.produced k = some (made, status) ∧ P status ∧ ((w.calls k).op.isRead = true → data = made)

theorem Finished.congr {w w' : BlkWorld} {k : Nat} (h : w.Finished P k)
    (hcall : w'.calls k = w.calls k) (hmade : w'.produced k = w.produced k) : w'.Finished P k := by
  unfold Finished Returned at h ⊢
  rw [hcall, hmade]
  exact h

theorem Finished.out_ne {w : BlkWorld} {k : Nat} (h : w.Finished P k) :
    (w.calls k).out ≠ none ∧ (w.calls k).out ≠ some .timeoutError := by
  rcases h.1 with ⟨data, hout⟩ | hout
  · rw [hout]
    exact ⟨fun h => (by cases h), fun h => by cases h⟩
  · rw [hout]
    exact ⟨fun h => (by cases h), fun h => by cases h⟩

/-- All requests are completed and popped. -/
structure Idle (P : Option UInt8 → Prop) (w : BlkWorld) : Prop where
  fetched : w.fetched = []
  devAvail : w.devAvail = w.lastUsed % 2 ^ 16
  usedIdx : w.usedIdx = w.lastUsed % 2 ^ 16
  availShown : w.availShown = w.lastUsed % 2 ^ 16
  availIdx : w.availIdx % 2 ^ 16 = w.lastUsed % 2 ^ 16
  finished : ∀ k < w.next, w.Finished P k

/-- The request of call `k` is in the available ring. -/
def Waiting (q : Nat) (w : BlkWorld) (k : Nat) : Prop :=
  w.fetched = [] ∧ w.devAvail = w.lastUsed % 2 ^ 16 ∧ w.usedIdx = w.lastUsed % 2 ^ 16 ∧
    ∃ hdr data stat, w.descs (w.availRing (w.devAvail % q)) = some hdr ∧
      w.descs hdr.next = some data ∧ w.descs data.next = some stat ∧
      hdr.addr = .hdr k ∧ data.addr = .data k ∧ stat.addr = .stat k

/-- The device has the request. -/
def Taken (w : BlkWorld) (k : Nat) : Prop :=
  w.devAvail = w.availShown ∧ w.usedIdx = w.lastUsed % 2 ^ 16 ∧
    ∃ head, w.fetched = [⟨head, .hdr k, .data k, .stat k⟩]

/-- The device has completed the request. -/
def Completed (P : Option UInt8 → Prop) (w : BlkWorld) (k : Nat) : Prop :=
  w.fetched = [] ∧ w.devAvail = w.availShown ∧ w.usedIdx = (w.lastUsed + 1) % 2 ^ 16 ∧
    ∃ made status, w.produced k = some (made, status) ∧ P status ∧ made.length = 512 ∧
      ((w.calls k).op.isRead = true → w.dataMem k = made)

/-- The request of the last call, and of no other, is not popped yet. -/
structure Busy (P : Option UInt8 → Prop) (q : Nat) (w : BlkWorld) (k : Nat) : Prop where
  last : w.next = k + 1
  out : (w.calls k).out = none ∨ (w.calls k).out = some .timeoutError
  target : (w.calls k).target = (w.lastUsed + 1) % 2 ^ 16
  availShown : w.availShown = (w.lastUsed + 1) % 2 ^ 16
  availIdx : w.availIdx % 2 ^ 16 = (w.lastUsed + 1) % 2 ^ 16
  finished : ∀ j < k, w.Finished P j
  stage : w.Waiting q k ∨ w.Taken k ∨ w.Completed P k

/-- At most one request is under way, and the device has completed requests with a status of `P`
only. -/
structure Inv (P : Option UInt8 → Prop) (q : Nat) (w : BlkWorld) : Prop where
  nextDesc : w.nextDesc < q
  phase : w.Idle P ∨ ∃ k, w.Busy P q k

theorem start_inv {q : Nat} (hq : 0 < q) (dataMem : Nat → Bytes) (statMem : Nat → UInt8) :
    (start dataMem statMem).Inv P q where
  nextDesc := hq
  phase := .inl ⟨rfl, rfl, rfl, rfl, rfl, fun _ h => absurd h (Nat.not_lt_zero _)⟩

theorem Inv.answered {q : Nat} {w : BlkWorld} (h : w.Inv P q) {k : Nat} (hk : k < w.next)
    {data : Bytes} (hout : (w.calls k).out = some (.returned data)) : ∃ made status,
      w.produced k = some (made, status) ∧ P status ∧
        ((w.calls k).op.isRead = true → data = made) := by
  rcases h.phase with hidle | ⟨j, hbusy⟩
  · exact (hidle.finished k hk).2 data hout
  · by_cases hkj : k < j
    · exact (hbusy.finished k hkj).2 data hout
    · have hlast := hbusy.last
      obtain rfl : k = j := by omega
      rcases hbusy.out with hout' | hout' <;> cases hout'.symm.trans hout

theorem succ_mod_ne (n : Nat) : (n + 1) % 2 ^ 16 ≠ n % 2 ^ 16 := by omega

end BlkWorld

namespace Driver

open BlkWorld

variable (d : Driver)

theorem keep_mod (v : Nat) : d.keep v % 2 ^ 16 = v % 2 ^ 16 := by
  unfold keep
  split
  · exact Nat.mod_mod _ _
  · rfl

/-- Three descriptors in a row are different ones. -/
theorem bump_ne (hq : 3 ≤ d.queueSize) {i : Nat} (hi : i < d.queueSize) :
    d.bump i ≠ i ∧ d.bump (d.bump i) ≠ i ∧ d.bump (d.bump i) ≠ d.bump i ∧
      d.bump (d.bump (d.bump i)) < d.queueSize := by
  have hstep : ∀ {j}, j < d.queueSize → d.bump j = if j + 1 = d.queueSize then 0 else j + 1 := by
    intro j hj
    unfold bump
    split
    · next h => rw [h, Nat.mod_self]
    · exact Nat.mod_eq_of_lt (by omega)
  have hlt : ∀ j, d.bump j < d.queueSize := fun j => Nat.mod_lt _ (by omega)
  refine ⟨?_, ?_, ?_, hlt _⟩
  · rw [hstep hi]
    split <;> omega
  · rw [hstep (hlt i), hstep hi]
    split <;> split <;> omega
  · rw [hstep (hlt i), hstep hi]
    split <;> split <;> omega

variable {d} {w w' : BlkWorld} {P : Option UInt8 → Prop}

/-! #### A call is made -/

/-- The request of a new call, made while the queue is idle, waits in the available ring. -/
theorem submit_busy (hq : 3 ≤ d.queueSize) (hdvd : d.queueSize ∣ 2 ^ 16)
    (hnext : w.nextDesc < d.queueSize) (h : w.Idle P) (op : BlkOp) (payload : Option Bytes) :
    (d.submit w op payload).Busy P d.queueSize w.next := by
  obtain ⟨hne1, hne2, hne3, -⟩ := d.bump_ne hq hnext
  have hslot : w.devAvail % d.queueSize = w.availIdx % d.queueSize := by
    rw [h.devAvail, ← h.availIdx, Nat.mod_mod_of_dvd _ hdvd]
  have hidx : d.keep (w.availIdx + 1) % 2 ^ 16 = (w.lastUsed + 1) % 2 ^ 16 := by
    rw [keep_mod, Nat.add_mod, h.availIdx, ← Nat.add_mod]
  have hcall : (d.submit w op payload).calls w.next =
      { op, target := (w.lastUsed + 1) % 2 ^ 16 } := by
    dsimp only [submit]
    rw [update_self]
  refine ⟨rfl, ?_, ?_, hidx, hidx, fun j hj => ?_, .inl ?_⟩
  · rw [hcall]
    exact .inl rfl
  · rw [hcall]
    rfl
  · refine (h.finished j hj).congr ?_ rfl
    dsimp only [submit]
    rw [update_of_ne (Nat.ne_of_lt hj)]
  · refine ⟨h.fetched, h.devAvail, h.usedIdx, ?_⟩
    dsimp only [submit]
    rw [hslot, update_self]
    refine ⟨⟨.hdr w.next, 16, vringDescFNext, d.bump w.nextDesc⟩, ⟨.data w.next, 512,
        if op.isRead then vringDescFNext ||| vringDescFWrite else vringDescFNext,
        d.bump (d.bump w.nextDesc)⟩,
      ⟨.stat w.next, 1, vringDescFWrite, 0⟩, ?_, ?_, ?_, rfl, rfl, rfl⟩
    · rw [update_of_ne hne2.symm, update_of_ne hne1.symm, update_self]
    · rw [update_of_ne hne3.symm, update_self]
    · rw [update_self]

/-- The first test of the loop fails: the used index has not moved. -/
theorem check_submit (h : w.Idle P) (op : BlkOp) (payload : Option Bytes) :
    d.check (d.submit w op payload) w.next = d.submit w op payload := by
  have hcall : ((d.submit w op payload).calls w.next).target = (w.lastUsed + 1) % 2 ^ 16 := by
    dsimp only [submit]
    rw [update_self]
  refine if_neg ?_
  rw [hcall]
  show ¬ w.usedIdx = _
  rw [h.usedIdx]
  exact (succ_mod_ne w.lastUsed).symm

/-- A call that is refused makes no request. -/
theorem refuse_idle (h : w.Idle P) (op : BlkOp) :
    Idle P { w with
      calls := update w.calls w.next { op, out := some .valueError }
      next := w.next + 1 } := by
  refine ⟨h.fetched, h.devAvail, h.usedIdx, h.availShown, h.availIdx, fun j hj => ?_⟩
  rcases Nat.lt_succ_iff_lt_or_eq.mp hj with hj | rfl
  · refine (h.finished j hj).congr ?_ rfl
    dsimp only
    rw [update_of_ne (Nat.ne_of_lt hj)]
  · unfold Finished Returned
    dsimp only
    rw [update_self]
    exact ⟨.inr rfl, fun data hout => by cases hout⟩

theorem begin_inv (hq : 3 ≤ d.queueSize) (hdvd : d.queueSize ∣ 2 ^ 16)
    (hnext : w.nextDesc < d.queueSize) (h : w.Idle P) (op : BlkOp) :
    (d.begin w op).Inv P d.queueSize := by
  have hsubmit : ∀ op payload,
      (d.check (d.submit w op payload) w.next).Inv P d.queueSize := by
    intro op payload
    rw [check_submit h]
    exact ⟨(d.bump_ne hq hnext).2.2.2, .inr ⟨w.next, submit_busy hq hdvd hnext h op payload⟩⟩
  cases op with
  | read lba => exact hsubmit _ _
  | write lba data =>
    dsimp only [begin]
    cases d.payload data with
    | none => exact ⟨hnext, .inl (refuse_idle h _)⟩
    | some buf => exact hsubmit _ _

/-! #### A call looks again -/

/-- Another count of the rounds, or the end of the wait. -/
theorem busy_setCall {q k : Nat} (h : w.Busy P q k) {c : BlkCall} (hop : c.op = (w.calls k).op)
    (htarget : c.target = (w.calls k).target)
    (hout : c.out = none ∨ c.out = some .timeoutError) :
    Busy P q { w with calls := update w.calls k c } k := by
  have hself : update w.calls k c k = c := by rw [update_self]
  refine ⟨h.last, ?_, ?_, h.availShown, h.availIdx, fun j hj => ?_, ?_⟩
  · dsimp only
    rw [hself]
    exact hout
  · dsimp only
    rw [hself, htarget, h.target]
  · refine (h.finished j hj).congr ?_ rfl
    dsimp only
    rw [update_of_ne (Nat.ne_of_lt hj)]
  · rcases h.stage with hw | ht | hc
    · exact .inl hw
    · exact .inr (.inl ht)
    · obtain ⟨hf, hd, hu, made, status, hmade, hP, hlen, hdata⟩ := hc
      refine .inr (.inr ⟨hf, hd, hu, made, status, hmade, hP, hlen, ?_⟩)
      dsimp only
      rw [hself, hop]
      exact hdata

/-- The test of the loop: it succeeds when the request of the call is completed, and not before. -/
theorem check_inv {k : Nat} (hnext : w.nextDesc < d.queueSize) (h : w.Busy P d.queueSize k) :
    (d.check w k).Inv P d.queueSize := by
  by_cases hidx : w.usedIdx = (w.calls k).target
  · have hdone : w.Completed P k := by
      rw [h.target] at hidx
      rcases h.stage with hw | ht | hc
      · exact absurd (hidx.symm.trans hw.2.2.1) (succ_mod_ne _)
      · exact absurd (hidx.symm.trans ht.2.1) (succ_mod_ne _)
      · exact hc
    obtain ⟨hf, hd, hu, made, status, hmade, hP, hlen, hdata⟩ := hdone
    have hcheck : d.check w k =
        { w with
          lastUsed := d.keep (w.lastUsed + 1)
          calls := update w.calls k { w.calls k with out := some (.returned
                (if (w.calls k).op.isRead then copyOut (w.dataMem k) else [])) } } := if_pos hidx
    rw [hcheck]
    refine ⟨hnext, .inl ⟨hf, ?_, ?_, ?_, ?_, fun j hj => ?_⟩⟩
    · rw [hd, h.availShown, keep_mod]
    · rw [hu, keep_mod]
    · rw [h.availShown, keep_mod]
    · rw [h.availIdx, keep_mod]
    · have hlast := h.last
      rw [hlast] at hj
      rcases Nat.lt_succ_iff_lt_or_eq.mp hj with hj | rfl
      · refine (h.finished j hj).congr ?_ rfl
        dsimp only
        rw [update_of_ne (Nat.ne_of_lt hj)]
      · unfold Finished Returned
        dsimp only
        rw [update_self]
        refine ⟨.inl ⟨_, rfl⟩, fun data hout => ⟨made, status, hmade, hP, fun hread => ?_⟩⟩
        cases hout
        rw [if_pos hread, hdata hread, copyOut_eq hlen]
  · have hcheck : d.check w k = w := if_neg hidx
    rw [hcheck]
    exact ⟨hnext, .inr ⟨k, h⟩⟩

/-- The test succeeds once the request is completed, whatever the device made of it. -/
theorem check_returned {k : Nat} (h : w.Busy P d.queueSize k) (hdone : w.Completed P k) :
    (d.check w k).Returned k := by
  have hidx : w.usedIdx = (w.calls k).target := hdone.2.2.1.trans h.target.symm
  refine ⟨if (w.calls k).op.isRead then copyOut (w.dataMem k) else [], ?_⟩
  dsimp only [check]
  rw [if_pos hidx]
  dsimp only
  rw [update_self]

theorem round_inv {k : Nat} (hnext : w.nextDesc < d.queueSize) (h : w.Busy P d.queueSize k)
    (hout : (w.calls k).out = none) : (d.round w k).Inv P d.queueSize := by
  let c := { w.calls k with spins := (w.calls k).spins + 1 }
  have hcounted : Busy P d.queueSize { w with calls := update w.calls k c } k :=
    busy_setCall h rfl rfl (.inl hout)
  unfold round
  dsimp only
  split
  · exact check_inv hnext hcounted
  · split
    · refine ⟨hnext, .inr ⟨k, ?_⟩⟩
      exact busy_setCall hcounted rfl rfl (.inr rfl)
    · exact check_inv hnext hcounted

/-! #### The device -/

/-- The device takes the request of the call that waits. -/
theorem fetch_inv (h : w.Inv P d.queueSize) (hstep : d.fetch w = some w') :
    w'.Inv P d.queueSize := by
  unfold fetch at hstep
  split at hstep
  · cases hstep
  · next hne =>
    rcases h.phase with hidle | ⟨k, hbusy⟩
    · exact absurd (hidle.devAvail.trans hidle.availShown.symm) hne
    · rcases hbusy.stage with hw | ht | hc
      · obtain ⟨hf, hd, hu, hdr, data, stat, hhdr, hdata, hstat, hhdr', hdata', hstat'⟩ := hw
        simp only [hhdr, hdata, hstat, bind_eq_bind, bind_some, hhdr', hdata', hstat'] at hstep
        cases hstep
        refine ⟨h.nextDesc, .inr ⟨k, hbusy.last, hbusy.out, hbusy.target, hbusy.availShown,
          hbusy.availIdx, hbusy.finished, .inr (.inl ⟨?_, hu,
            w.availRing (w.devAvail % d.queueSize), ?_⟩)⟩⟩
        · rw [hd, hbusy.availShown, Nat.mod_add_mod]
        · rw [hf, nil_append]
      · exact absurd ht.1 hne
      · exact absurd hc.2.1 hne

/-- The only request the device has is that of the call that waits. -/
theorem complete_inv (h : w.Inv P d.queueSize) {n : Nat} {c : Chain} (hc : w.fetched[n]? = some c)
    {data : Bytes} (hlen : data.length = 512) {status : Option UInt8} (hP : P status) :
    (d.complete { w with fetched := w.fetched.eraseIdx n } c data status).Inv P d.queueSize := by
  have hnone : w.fetched ≠ [] := by
    intro hnil
    rw [hnil] at hc
    cases hc
  rcases h.phase with hidle | ⟨k, hbusy⟩
  · exact absurd hidle.fetched hnone
  · rcases hbusy.stage with hw | ht | hcd
    · exact absurd hw.1 hnone
    · obtain ⟨hd, hu, head, hf⟩ := ht
      rw [hf] at hc
      obtain ⟨rfl, rfl⟩ : n = 0 ∧ c = ⟨head, .hdr k, .data k, .stat k⟩ := by
        cases n with
        | zero => exact ⟨rfl, (some_inj.mp hc).symm⟩
        | succ n => cases hc
      refine ⟨h.nextDesc, .inr ⟨k, hbusy.last, hbusy.out, hbusy.target, hbusy.availShown,
        hbusy.availIdx, fun j hj => ?_, .inr (.inr ⟨?_, hd, ?_, data, status, ?_, hP, hlen, ?_⟩)⟩⟩
      · refine (hbusy.finished j hj).congr rfl ?_
        dsimp only [complete]
        rw [update_of_ne (Nat.ne_of_lt hj)]
      · rw [hf]
        rfl
      · show (w.usedIdx + 1) % 2 ^ 16 = (w.lastUsed + 1) % 2 ^ 16
        rw [hu, Nat.mod_add_mod]
      · dsimp only [complete]
        rw [update_self]
      · intro hread
        have hread : (w.calls k).op.isRead = true := hread
        dsimp only [complete]
        rw [if_pos hread, update_self]
    · exact absurd hcd.1 hnone

/-! ### Runs -/

theorem step_inv (hq : 3 ≤ d.queueSize) (hdvd : d.queueSize ∣ 2 ^ 16) (w : BlkWorld)
    (e : BlkEvent) (w' : BlkWorld) (h : w.Inv P d.queueSize) (hex : w.Exclusive e ∧ Answers P e)
    (hstep : d.step w e = some w') : w'.Inv P d.queueSize := by
  cases e with
  | call op =>
    cases hstep
    have hidle : w.Idle P := by
      rcases h.phase with hidle | ⟨k, hbusy⟩
      · exact hidle
      · have hk : k < w.next := hbusy.last ▸ Nat.lt_succ_self k
        rcases hex.1 k hk with ⟨data, hout⟩ | hout <;>
          rcases hbusy.out with hout' | hout' <;> cases hout'.symm.trans hout
    exact begin_inv hq hdvd h.nextDesc hidle op
  | poll k =>
    simp only [step] at hstep
    split at hstep <;> cases hstep
    next hk =>
      rcases h.phase with hidle | ⟨j, hbusy⟩
      · exact absurd hk.2 (hidle.finished k hk.1).out_ne.1
      · by_cases hkj : k < j
        · exact absurd hk.2 (hbusy.finished k hkj).out_ne.1
        · have hlast := hbusy.last
          obtain rfl : k = j := by omega
          exact round_inv h.nextDesc hbusy hk.2
  | fetch => exact fetch_inv h hstep
  | complete n data status =>
    simp only [step] at hstep
    cases hc : w.fetched[n]? with
    | none =>
      rw [hc] at hstep
      cases hstep
    | some c =>
      rw [hc] at hstep
      dsimp only at hstep
      split at hstep <;> cases hstep
      next hlen => exact complete_inv h hc hlen hex.2

/-- **Whose data.** When every call is made after the calls before it have returned, each call that
returns normally returns after its own request was completed, and a read with the data of that
request. -/
theorem ownRequest_of_exclusive (d : Driver) (hq : 3 ≤ d.queueSize) (hdvd : d.queueSize ∣ 2 ^ 16)
    (dataMem : Nat → Bytes) (statMem : Nat → UInt8) (evs : List BlkEvent) (w : BlkWorld)
    (hguard : Guarded d.step Exclusive (start dataMem statMem) evs)
    (hrun : exec d.step (start dataMem statMem) evs = some w) :
    ∀ k < w.next, w.OwnRequest k := by
  -- the statuses do not matter here: they are of `fun _ => True`
  have hinv := guarded_invariant (Inv (fun _ => True) d.queueSize) (step_inv hq hdvd)
    (start_inv (by omega) dataMem statMem) (hguard.mono fun _ e h => ⟨h, by cases e <;> trivial⟩)
    hrun
  intro k hk data hout
  obtain ⟨made, status, hmade, -, hdata⟩ := hinv.answered hk hout
  exact ⟨made, status, hmade, hdata⟩

end Driver

namespace BlkWorld

/-- `Quiet` as a test. -/
def quietBy (w : BlkWorld) : Bool :=
  (range w.next).all fun k =>
    match (w.calls k).out with
    | some (.returned _) => true
    | some .valueError => true
    | _ => false

/-- `Exclusive` as a test. -/
def exclusiveBy (w : BlkWorld) : BlkEvent → Bool
  | .call _ => w.quietBy
  | _ => true

theorem exclusive_of_exclusiveBy (w : BlkWorld) (e : BlkEvent) (h : w.exclusiveBy e = true) :
    w.Exclusive e := by
  cases e with
  | call op =>
    intro k hk
    have hcall := all_eq_true.mp h k (mem_range.mpr hk)
    split at hcall
    · next data hout => exact .inl ⟨data, hout⟩
    · next hout => exact .inr hout
    · cases hcall
  | poll k => trivial
  | fetch => trivial
  | complete n data status => trivial

/-- The call has returned although its request is not completed. -/
def returnedEarly (w : BlkWorld) (k : Nat) : Bool :=
  match (w.calls k).out with
  | some (.returned _) => (w.produced k).isNone
  | _ => false

theorem not_ownRequest_of_returnedEarly {w : BlkWorld} {k : Nat} (h : w.returnedEarly k = true) :
    ¬ w.OwnRequest k := by
  intro hown
  unfold returnedEarly at h
  split at h
  · next data hout =>
    obtain ⟨made, status, hmade, -⟩ := hown data hout
    rw [hmade] at h
    cases h
  · cases h

end BlkWorld

namespace Driver

open BlkWorld

/-- The device reads and completes the one request it is given. -/
def served (data : Bytes) (status : Option UInt8) : List BlkEvent :=
  [.fetch, .complete 0 data status]

/-- All buffers hold zeros. -/
def zeroed : BlkWorld := start (fun _ => zeros 512) fun _ => 0

/-- A read and then a write. -/
def oneByOne : List BlkEvent :=
  .call (.read 7) :: served (replicate 512 1) (some 0) ++ [.poll 0] ++
    .call (.write 7 (zeros 512)) :: served (zeros 512) (some 0) ++ [.poll 1]

theorem ownRequest_of_exclusive_oneByOne :
    ∃ w, exec mmio.step zeroed oneByOne = some w ∧ ∀ k < w.next, w.OwnRequest k := by
  have hsome : (exec mmio.step zeroed oneByOne).isSome = true := by decide +kernel
  obtain ⟨w, hrun⟩ := isSome_iff_exists.mp hsome
  refine ⟨w, hrun, ownRequest_of_exclusive mmio (by decide) (by decide) _ _ oneByOne w ?_ hrun⟩
  exact Guarded.of_guardedBy exclusive_of_exclusiveBy (by decide +kernel)

/-- Rounds of a call whose request is not completed only count. -/
theorem polls_eq {d : Driver} {w : BlkWorld} {k limit : Nat}
    (hlimit : d.spinLimit = some limit) (n : Nat)
    (hk : k < w.next) (hout : (w.calls k).out = none) (hidx : w.usedIdx ≠ (w.calls k).target)
    (hspins : (w.calls k).spins + n ≤ limit) :
    exec d.step w (replicate n (.poll k)) = some { w with
        calls := update w.calls k { w.calls k with spins := (w.calls k).spins + n } } := by
  induction n generalizing w with
  | zero => simp
  | succ n ih =>
    let w1 : BlkWorld := { w with
      calls := update w.calls k { w.calls k with spins := (w.calls k).spins + 1 } }
    have hcall : w1.calls k = { w.calls k with spins := (w.calls k).spins + 1 } := by
      dsimp only [w1]
      rw [update_self]
    have hstep : d.step w (.poll k) = some w1 := by
      have hround : d.round w k = w1 := by
        have hcheck : d.check w1 k = w1 := by
          refine if_neg ?_
          rw [hcall]
          exact hidx
        unfold round
        rw [hlimit]
        exact (if_neg (show ¬ limit < (w.calls k).spins + 1 by omega)).trans hcheck
      rw [← hround]
      exact if_pos ⟨hk, hout⟩
    have hspins1 : (w1.calls k).spins + n ≤ limit := by
      rw [hcall]
      show (w.calls k).spins + 1 + n ≤ limit
      omega
    have hrest := ih (w := w1) hk (by rw [hcall]; exact hout) (by rw [hcall]; exact hidx) hspins1
    rw [replicate_succ, exec_cons, hstep, bind_some, hrest, hcall]
    rw [update_idem, Nat.add_assoc, Nat.add_comm 1 n]

/-- The PCI driver after a read that has waited for as long as it may. -/
def patient : BlkWorld :=
  let w := (pci 16).begin zeroed (.read 1)
  { w with calls := update w.calls 0 { w.calls 0 with spins := 5000 } }

theorem patient_run : exec (pci 16).step zeroed (.call (.read 1) :: replicate 5000 (.poll 0)) =
    some patient := by
  have hcall : (pci 16).step zeroed (.call (.read 1)) =
      some ((pci 16).begin zeroed (.read 1)) := rfl
  rw [exec_cons, hcall, bind_some,
    polls_eq rfl 5000 (by decide) (by decide) (by decide) (by decide)]
  rfl

/-- Two reads at once wait for the same index: the second returns when the first is completed. And
after a timeout of the PCI driver, the late completion is taken for that of the next call. -/
theorem returns_before_completion :
    (exec mmio.step zeroed ([.call (.read 1), .call (.read 2), .fetch, .fetch,
        .complete 0 (replicate 512 1) (some 0), .poll 1])).map (fun w => w.returnedEarly 1) =
      some true ∧
    (exec (pci 16).step zeroed (.call (.read 1) :: replicate 5000 (.poll 0) ++
        .poll 0 :: served (replicate 512 1) (some 0) ++ [.call (.read 2)])).map
        (fun w => ((w.calls 0).out, w.returnedEarly 1)) =
      some (some .timeoutError, true) ∧
    ∀ w : BlkWorld, w.returnedEarly 1 = true → ¬ w.OwnRequest 1 := by
  refine ⟨?_, ?_, fun w => not_ownRequest_of_returnedEarly⟩
  · decide +kernel
  · rw [append_assoc, exec_append, patient_run]
    decide +kernel

/-- **The status byte.** When every call is made after the calls before it have returned and the
device completes requests with status OK only, calls return normally only for requests that were
completed so, and so for the sectors of a block. The drivers do not look at the byte. -/
theorem returnsAccepted_of_answersOk (d : Driver) (hq : 3 ≤ d.queueSize)
    (hdvd : d.queueSize ∣ 2 ^ 16) (dataMem : Nat → Bytes) (statMem : Nat → UInt8)
    (evs : List BlkEvent) (w : BlkWorld)
    (hguard : Guarded d.step (fun w e => w.Exclusive e ∧ Answers (· = some statusOk) e)
      (start dataMem statMem) evs)
    (hrun : exec d.step (start dataMem statMem) evs = some w) : w.ReturnsAccepted := by
  have hinv := guarded_invariant (Inv (· = some statusOk) d.queueSize) (step_inv hq hdvd)
    (start_inv (by omega) dataMem statMem) hguard hrun
  have hacc : ∀ k < w.next, w.Returned k → w.Accepted k := by
    intro k hk hret
    obtain ⟨data, hout⟩ := hret
    obtain ⟨made, status, hmade, rfl, -⟩ := hinv.answered hk hout
    exact ⟨made, hmade⟩
  refine ⟨hacc, fun block spb data hwrote s hs => ?_⟩
  obtain ⟨k, hk, hret, hop⟩ := hwrote s hs
  exact ⟨k, hk, hacc k hk hret, hop⟩

theorem returnsAccepted_of_answersOk_oneByOne :
    ∃ w, exec mmio.step zeroed oneByOne = some w ∧ w.ReturnsAccepted := by
  have hsome : (exec mmio.step zeroed oneByOne).isSome = true := by decide +kernel
  obtain ⟨w, hrun⟩ := isSome_iff_exists.mp hsome
  refine ⟨w, hrun, returnsAccepted_of_answersOk mmio (by decide) (by decide) _ _ oneByOne w ?_
    hrun⟩
  have hguard : guardedBy mmio.step (fun w e => w.exclusiveBy e &&
      decide (Answers (· = some statusOk) e)) zeroed oneByOne = true := by decide +kernel
  refine Guarded.of_guardedBy (fun w e h => ?_) hguard
  rw [Bool.and_eq_true, decide_eq_true_iff] at h
  exact ⟨exclusive_of_exclusiveBy w e h.1, h.2⟩

/-- With either driver a read whose request fails with an I/O error returns data, and a write whose
status byte the device leaves alone returns. -/
theorem failed_request_returns :
    (exec mmio.step zeroed (.call (.read 1) :: served (zeros 512) (some 1) ++
        [.poll 0])).map (fun w => ((w.calls 0).out, (w.produced 0).map Prod.snd)) =
      some (some (.returned (zeros 512)), some (some 1)) ∧
    (exec (pci 16).step zeroed (.call (.write 1 [5]) :: served (zeros 512) none ++
        [.poll 0])).map (fun w => ((w.calls 0).out, (w.produced 0).map Prod.snd, w.statMem 0)) =
      some (some (.returned []), some none, 0xFF) := by
  refine ⟨?_, ?_⟩
  · decide +kernel
  · decide +kernel

end Driver

end PythonOS.Block
