import PythonOS.Lib.Runs
import PythonOS.Libc.MallocCorrect

/-!
# PythonOS.Libc.HeapRuns

Programs that use the C heap: any sequence of `malloc`, `calloc`, `realloc` and
`free` with pointers they own, and of writes into the areas they own.

`heapOk_of_run`: as long as no size wraps, the region stays a buddy tiling, each
block in use or on the free list of its order, without free buddies; with
nothing in use it is one block again. `good_iff_requestFits`: what a call
returns has room for what was asked for exactly when the request plus the
header fits in `size_t` or no block is found.
-/

namespace PythonOS.Libc

open Lib List Lib.Buddy

/-- The heap and the pointers the program owns. -/
structure World where
  heap : Heap
  live : List Nat := []

/-- What a program does with the heap. -/
inductive Call
  | malloc (size : Nat)
  | calloc (n size : Nat)
  | realloc (ptr size : Nat)
  | free (ptr : Nat)
  /-- Write bytes into an area, `i` bytes from its start. -/
  | store (ptr i : Nat) (bs : Bytes)

namespace World

/-- Before the first call. -/
def start (m : Mem) : World := { heap := { mem := m } }

/-- The number of bytes a call asks for. -/
def request : Call → Nat
  | .malloc size => size
  | .calloc n size => n * size
  | .realloc _ size => size
  | _ => 0

section

variable (base : Nat)

/-- The arguments are of their C types and the pointers are null or owned. -/
def valid (w : World) : Call → Prop
  | .malloc size => size < 2 ^ 64
  | .calloc n size => n < 2 ^ 64 ∧ size < 2 ^ 64
  | .realloc ptr size => size < 2 ^ 64 ∧ (ptr = null ∨ ptr ∈ w.live)
  | .free ptr => ptr = null ∨ ptr ∈ w.live
  | .store ptr i bs =>
    ptr ∈ w.live ∧ headerSize + i + bs.length ≤ 2 ^ w.heap.get (ptr - headerSize) .order

instance (w : World) : (c : Call) → Decidable (w.valid c)
  | .malloc _ => inferInstanceAs (Decidable (_ < _))
  | .calloc _ _ => inferInstanceAs (Decidable (_ ∧ _))
  | .realloc _ _ => inferInstanceAs (Decidable (_ ∧ _))
  | .free _ => inferInstanceAs (Decidable (_ ∨ _))
  | .store _ _ _ => inferInstanceAs (Decidable (_ ∧ _))

/-- The pointer a call returns (null for those that return nothing), and the
heap after it. -/
def result (w : World) : Call → Nat × Heap
  | .malloc size => w.heap.malloc base size
  | .calloc n size => w.heap.calloc base n size
  | .realloc ptr size => w.heap.realloc base ptr size
  | .free ptr => (null, w.heap.free base ptr)
  | .store ptr i bs => (null, { w.heap with mem := w.heap.mem.write (ptr + i) bs })

/-- The pointer a call gives up: `free`'s, and `realloc`'s unless it fails. -/
def released (q : Nat) : Call → Nat
  | .free ptr => ptr
  | .realloc ptr size => if size = 0 ∨ q ≠ null then ptr else null
  | _ => null

/-- The heap and the owned pointers after a call. -/
def after (w : World) (c : Call) : World :=
  let (q, h) := w.result base c
  let kept := w.live.erase (released q c)
  { heap := h, live := if q = null then kept else kept ++ [q] }

/-- One call. -/
def step (w : World) (c : Call) : Option World := if w.valid c then some (w.after base c) else none

/-- The size with its header fits in `size_t`, and so does `calloc`'s product. -/
def NoWrap (_ : World) (c : Call) : Prop := request c + headerSize < 2 ^ 64

/-- The request does not wrap, or the wrapped one finds no block. -/
def RequestFits (w : World) (c : Call) : Prop :=
  request c + headerSize < 2 ^ 64 ∨ ¬ Meetable (w.heap.ensureInit base) (request c % 2 ^ 64)

/-! ### What a heap in order is -/

/-- The C heap in order, with the pointers `live` in use. -/
structure HeapOk (base : Nat) (h : Heap) (live : List Nat) (L : Layout) (lists : Nat → List Nat) :
    Prop where
  /-- The blocks are aligned powers of two that partition the region. -/
  tiling : Tiling minOrder maxOrder L
  /-- Every header says what its block is. -/
  headers : ∀ a b, L a = some b →
    h.get (base + a) .magic = blockMagic b.isFree ∧ h.get (base + a) .order = b.order
  chained : ∀ o, minOrder ≤ o → o ≤ maxOrder → FreeList h o (lists o)
  /-- Only blocks are on the lists. -/
  listed : ∀ o, minOrder ≤ o → o ≤ maxOrder → ∀ x ∈ lists o, ∃ a, x = base + a ∧ (L a).isSome
  /-- A block is allocated and on no list, or not allocated and on the list of
  its order only. -/
  block : ∀ a b, L a = some b →
    (b.isFree = false ∧ base + a + headerSize ∈ live ∧
      ∀ o, minOrder ≤ o → o ≤ maxOrder → base + a ∉ lists o) ∨
    (b.isFree = true ∧ base + a + headerSize ∉ live ∧
      ∀ o, minOrder ≤ o → o ≤ maxOrder → (base + a ∈ lists o ↔ o = b.order))
  /-- Every pointer in use is that of a block. -/
  owned : ∀ p ∈ live, ∃ a, p = base + a + headerSize ∧ (L a).isSome
  nodup : live.Nodup
  /-- Allocations lie inside the region. -/
  inside : ∀ p ∈ live, base + headerSize ≤ p ∧
    p - headerSize + 2 ^ h.get (p - headerSize) .order ≤ base + heapSize
  /-- Allocations do not overlap. -/
  apart : ∀ p ∈ live, ∀ q ∈ live, p < q →
    p - headerSize + 2 ^ h.get (p - headerSize) .order ≤ q - headerSize
  /-- No two buddies are both on a list. -/
  noBuddies : ∀ a o, minOrder ≤ o → o < maxOrder → base + a ∈ lists o →
    base + buddy a o ∉ lists o
  /-- With nothing allocated there is one free block, as after `heap_init`. -/
  empty : live = [] → (∀ i, i < numOrders → h.freeLists i = (h.heapInit base).freeLists i) ∧
    ∀ f, h.get base f = (h.heapInit base).get base f

end

/-! ### The invariant of runs -/

variable {base : Nat}

/-- The owned pointers are those of the used blocks. -/
def Owned (base : Nat) (live : List Nat) (L : Layout) : Prop :=
  ∀ p, p ∈ live ↔ ∃ a o, p = base + a + headerSize ∧ L a = some ⟨o, false⟩

/-- The heap, initialised if it is not yet, is in order and its used blocks are
the pointers the program owns. -/
structure Inv (base : Nat) (w : World) (L : Layout) : Prop where
  heap : HeapInv base (w.heap.ensureInit base) L
  live : Owned base w.live L
  nodup : w.live.Nodup
  unused : w.heap.heapInitialized = false → w.live = []

variable {h : Heap}

theorem ensureInit_of_init (hi : h.heapInitialized = true) : h.ensureInit base = h := by
  rw [Heap.ensureInit, if_pos hi]

variable {L : Layout}

variable {live : List Nat} {a size o : Nat}

theorem Inv.of_heap (hi : HeapInv base h L) (hlive : Owned base live L) (hnd : live.Nodup) :
    Inv base { heap := h, live := live } L := by
  refine ⟨?_, hlive, hnd, fun hno => ?_⟩
  · rw [ensureInit_of_init hi.init]
    exact hi
  · exact absurd (hi.init.symm.trans hno) (by simp)

variable {w : World}

theorem Inv.null_not_live (hi : Inv base w L) : null ∉ w.live := by
  intro hp
  obtain ⟨a, o, heq, -⟩ := (hi.live null).mp hp
  simp [null, headerSize] at heq

/-- A program that owns a pointer runs on an initialised heap. -/
theorem Inv.heap_of_live (hi : Inv base w L) {p : Nat} (hp : p ∈ w.live) :
    HeapInv base w.heap L := by
  have hinit : w.heap.heapInitialized = true := by
    cases h : w.heap.heapInitialized with
    | true => rfl
    | false =>
      rw [hi.unused h] at hp
      cases hp
  have hheap := hi.heap
  rwa [ensureInit_of_init hinit] at hheap

/-- The pointers owned after a block has been taken. -/
theorem live_alloc {L L' : Layout} {h' : Heap} (hlive : Owned base live L)
    (hnd : live.Nodup) (hal : Allocated base L size h' a L') :
    Owned base (live ++ [base + a + headerSize]) L' ∧
      (live ++ [base + a + headerSize]).Nodup := by
  refine ⟨fun p => ?_, ?_⟩
  · rw [mem_append, mem_singleton, hlive p]
    constructor
    · rintro (⟨c, o, rfl, hc⟩ | rfl)
      · have hca : c ≠ a := by
          rintro rfl
          exact hal.fresh o hc
        exact ⟨c, o, rfl, (hal.others c o hca).mpr hc⟩
      · exact ⟨a, _, rfl, hal.block⟩
    · rintro ⟨c, o, rfl, hc⟩
      by_cases hca : c = a
      · exact .inr (by rw [hca])
      · exact .inl ⟨c, o, rfl, (hal.others c o hca).mp hc⟩
  · refine nodup_append.mpr ⟨hnd, nodup_singleton _, ?_⟩
    intro p hp r hr heq
    obtain ⟨c, o, hc, hL⟩ := (hlive p).mp hp
    have hpq : p = base + a + headerSize := heq.trans (mem_singleton.mp hr)
    obtain rfl : c = a := by omega
    exact hal.fresh o hL

/-- The pointers owned after a block has been given up. -/
theorem live_free {L L' : Layout} (hlive : Owned base live L) (hnd : live.Nodup)
    (hused : ∀ x j, L' x = some ⟨j, false⟩ ↔ x ≠ a ∧ L x = some ⟨j, false⟩) :
    Owned base (live.erase (base + a + headerSize)) L' := by
  intro p
  rw [hnd.mem_erase_iff, hlive p]
  constructor
  · rintro ⟨hne, c, o, rfl, hc⟩
    exact ⟨c, o, rfl, (hused c o).mpr ⟨by omega, hc⟩⟩
  · rintro ⟨c, o, rfl, hc⟩
    obtain ⟨hca, hL⟩ := (hused c o).mp hc
    exact ⟨by omega, c, o, rfl, hL⟩

/-- Writing into the area of a used block. -/
theorem write_spec (hi : HeapInv base h L) {i : Nat} {d : Bytes} (ha : L a = some ⟨o, false⟩)
    (hfit : headerSize + i + d.length ≤ 2 ^ o) :
    HeapInv base { h with mem := h.mem.write (base + a + headerSize + i) d } L := by
  have hsame : ∀ {c b}, L c = some b → ∀ f,
      Heap.get { h with mem := h.mem.write (base + a + headerSize + i) d } (base + c) f =
        h.get (base + c) f := by
    intro c b hc f
    refine Mem.load_write_of_disjoint ?_
    have hf : f.offset + f.width ≤ headerSize := by cases f <;> decide
    rcases Nat.lt_trichotomy c a with hlt | rfl | hgt
    · omega
    · omega
    · have hend := hi.rep.tiling.disjoint ha hc hgt
      simp only at hend
      omega
  refine ⟨hi.rep.congr rfl (fun c k hc => ⟨hsame hc _, hsame hc _⟩) fun hc hnot => ?_,
    hi.noBuddies, hi.init⟩
  rw [hsame hc, hsame hc]
  exact hi.rep.header hc hnot

variable (hb : HeapBase base)

include hb

theorem inv_start (m : Mem) : Inv base (start m) (single maxOrder) := by
  refine ⟨heapInit_inv hb _, fun p => ?_, nodup_nil, fun _ => rfl⟩
  constructor
  · intro hp
    exact absurd hp (by simp [start])
  · rintro ⟨a, o, -, ha⟩
    rw [single] at ha
    split at ha <;> cases ha

/-! ### One call -/

omit hb in
theorem ptr_ne_null (a : Nat) : base + a + headerSize ≠ null := by
  simp [null, headerSize]

/-- `calloc` is `malloc` of the product and a write. -/
theorem calloc_spec (hi : HeapInv base (h.ensureInit base) L) (n size : Nat) :
    (¬ Meetable (h.ensureInit base) (n * size % 2 ^ 64) ∧
        h.calloc base n size = (null, h.ensureInit base)) ∨
      (Meetable (h.ensureInit base) (n * size % 2 ^ 64) ∧
        ∃ h' a L', Allocated base L (n * size % 2 ^ 64) h' a L' ∧
          h.calloc base n size = (base + a + headerSize, { h' with
            mem := h'.mem.write (base + a + headerSize) (replicate (n * size % 2 ^ 64) 0) })) := by
  rcases malloc_spec hb hi (n * size % 2 ^ 64) with ⟨hno, heq⟩ | ⟨hmeet, h', a, L', heq, hal⟩
  · refine .inl ⟨hno, ?_⟩
    simp only [Heap.calloc, heq, ne_eq, not_true_eq_false, if_false]
  · refine .inr ⟨hmeet, h', a, L', hal, ?_⟩
    simp only [Heap.calloc, heq, ne_eq, ptr_ne_null, not_false_eq_true, if_true]

/-- `realloc` of an owned pointer: it frees, keeps the block, finds no other, or
moves the contents. -/
theorem realloc_spec (hi : HeapInv base h L) (ha : L a = some ⟨o, false⟩) (size : Nat) :
    (size = 0 ∧ h.realloc base (base + a + headerSize) size =
        (null, h.free base (base + a + headerSize))) ∨
      (size ≠ 0 ∧ size ≤ 2 ^ o - headerSize ∧
        h.realloc base (base + a + headerSize) size = (base + a + headerSize, h)) ∨
      (2 ^ o - headerSize < size ∧ ¬ Meetable h size ∧
        h.realloc base (base + a + headerSize) size = (null, h)) ∨
      (2 ^ o - headerSize < size ∧ Meetable h size ∧ ∃ h' a' L', Allocated base L size h' a' L' ∧
          h.realloc base (base + a + headerSize) size = (base + a' + headerSize, Heap.free base
            { h' with mem := (h'.mem.write (base + a' + headerSize)
                (h'.mem.read (base + a + headerSize) (2 ^ o - headerSize))) }
            (base + a + headerSize))) := by
  have horder : h.get (base + a) .order = o := (hi.rep.header ha id).2
  have hinit : h.ensureInit base = h := ensureInit_of_init hi.init
  have hi' : HeapInv base (h.ensureInit base) L := by rwa [hinit]
  unfold Heap.realloc
  simp only [if_neg (show base + a + headerSize ≠ null from ptr_ne_null a),
    Nat.add_sub_cancel, horder]
  by_cases h0 : size = 0
  · exact .inl ⟨h0, by rw [if_pos h0]⟩
  · rw [if_neg h0]
    by_cases hle : size ≤ 2 ^ o - headerSize
    · exact .inr (.inl ⟨h0, hle, by rw [if_pos hle]⟩)
    · rw [if_neg hle]
      have hlt := Nat.not_le.mp hle
      rcases malloc_spec hb hi' size with ⟨hno, heq⟩ | ⟨hmeet, h', a', L', heq, hal⟩
      · rw [hinit] at hno heq
        exact .inr (.inr (.inl ⟨hlt, hno, by simp [heq]⟩))
      · rw [hinit] at hmeet
        refine .inr (.inr (.inr ⟨hlt, hmeet, h', a', L', hal, ?_⟩))
        simp [heq, ptr_ne_null]

variable {c : Call}

omit hb in
theorem Inv.erase_null (hi : Inv base w L) : w.live.erase null = w.live :=
  List.erase_of_not_mem hi.null_not_live

theorem malloc_inv (hi : Inv base w L) (size : Nat) :
    ∃ L', Inv base (w.after base (.malloc size)) L' := by
  unfold after result
  rcases malloc_spec hb hi.heap size with ⟨-, heq⟩ | ⟨-, h', a, L', heq, hal⟩
  · simp only [heq, released, hi.erase_null, if_true]
    exact ⟨L, Inv.of_heap hi.heap hi.live hi.nodup⟩
  · simp only [heq, released, hi.erase_null, ptr_ne_null, if_false]
    obtain ⟨hlive, hnd⟩ := live_alloc hi.live hi.nodup hal
    exact ⟨L', Inv.of_heap hal.inv hlive hnd⟩

/-- `realloc` of an owned pointer keeps the invariant. -/
theorem realloc_inv (hi : Inv base w L) {ptr : Nat} (hp : ptr ∈ w.live)
    (hok : w.RequestFits base (.realloc ptr size)) (hsize : size < 2 ^ 64) :
    ∃ L', Inv base (w.after base (.realloc ptr size)) L' := by
  obtain ⟨a, o, rfl, ha⟩ := (hi.live ptr).mp hp
  have hheap := hi.heap_of_live hp
  unfold after result
  rcases realloc_spec hb hheap ha size with ⟨rfl, heq⟩ | ⟨h0, -, heq⟩ | ⟨hlt, -, heq⟩ |
    ⟨hlt, hmeet, h', a', L', hal, heq⟩
  · -- size 0 frees
    obtain ⟨L', hL', hused⟩ := free_spec hb hheap ha
    simp only [heq, released, true_or, if_true]
    exact ⟨L', Inv.of_heap hL' (live_free hi.live hi.nodup hused) (hi.nodup.erase _)⟩
  · -- the block is large enough
    simp only [heq, released, ptr_ne_null, ne_eq, not_false_eq_true, or_true, if_true, if_false]
    refine ⟨L, Inv.of_heap hheap (fun p => ?_) ?_⟩
    · rw [← hi.live p, mem_append, mem_singleton, hi.nodup.mem_erase_iff]
      constructor
      · rintro (⟨-, hlive⟩ | rfl)
        · exact hlive
        · exact hp
      · intro hlive
        by_cases hpq : p = base + a + headerSize
        · exact .inr hpq
        · exact .inl ⟨hpq, hlive⟩
    · refine nodup_append.mpr ⟨hi.nodup.erase _, nodup_singleton _, ?_⟩
      intro p hpe q hq heq'
      exact (hi.nodup.mem_erase_iff.mp hpe).1 (heq'.trans (mem_singleton.mp hq))
  · -- no other block: nothing changes
    have h0 : size ≠ 0 := by omega
    simp only [heq, released, h0, ne_eq, not_true_eq_false, or_self, if_false, if_true,
      hi.erase_null]
    exact ⟨L, Inv.of_heap hheap hi.live hi.nodup⟩
  · -- the contents move to a larger block
    have hinit : w.heap.ensureInit base = w.heap := ensureInit_of_init hheap.init
    have hnowrap : size + headerSize < 2 ^ 64 := by
      refine hok.resolve_right (not_not.mpr ?_)
      rw [hinit]
      simpa only [request, Nat.mod_eq_of_lt hsize] using hmeet
    have hfits := orderOf_fits hal.order_le hnowrap
    have haa : a ≠ a' := by
      rintro rfl
      exact hal.fresh o ha
    have hw := write_spec hal.inv hal.block (i := 0)
      (d := h'.mem.read (base + a + headerSize) (2 ^ o - headerSize))
      (by rw [Mem.length_read]; omega)
    obtain ⟨L'', hL'', hused⟩ := free_spec hb hw ((hal.others a o haa).mpr ha)
    obtain ⟨hlive, hnd⟩ := live_alloc hi.live hi.nodup hal
    simp only [heq, released, ptr_ne_null, ne_eq, not_false_eq_true, or_true, if_true, if_false]
    have hperm : w.live.erase (base + a + headerSize) ++ [base + a' + headerSize] =
        (w.live ++ [base + a' + headerSize]).erase (base + a + headerSize) := by
      rw [erase_append_left _ hp]
    rw [hperm]
    exact ⟨L'', Inv.of_heap hL'' (live_free hlive hnd hused) (hnd.erase _)⟩

/-- Every call keeps the invariant, if its request does not wrap or finds no
block. -/
theorem step_inv (w : World) (c : Call) (w' : World) (hinv : ∃ L, Inv base w L)
    (hok : w.RequestFits base c) (hstep : w.step base c = some w') : ∃ L', Inv base w' L' := by
  obtain ⟨L, hi⟩ := hinv
  obtain ⟨hv, rfl⟩ := Option.ite_some_none_eq_some.mp hstep
  cases c with
  | malloc size => exact malloc_inv hb hi size
  | calloc n size =>
    unfold after result
    rcases calloc_spec hb hi.heap n size with ⟨-, heq⟩ | ⟨hmeet, h', a, L', hal, heq⟩
    · simp only [released, heq, hi.erase_null, if_true]
      exact ⟨L, Inv.of_heap hi.heap hi.live hi.nodup⟩
    · simp only [released, heq, hi.erase_null, ptr_ne_null, if_false]
      -- the product did not wrap, so the block has room for what is cleared
      have hnowrap : n * size + headerSize < 2 ^ 64 := hok.resolve_right (not_not.mpr hmeet)
      have hmod : n * size % 2 ^ 64 = n * size := Nat.mod_eq_of_lt (by omega)
      have hfits := orderOf_fits hal.order_le (by rw [hmod]; exact hnowrap)
      obtain ⟨hlive, hnd⟩ := live_alloc hi.live hi.nodup hal
      refine ⟨L', Inv.of_heap ?_ hlive hnd⟩
      exact write_spec hal.inv hal.block (i := 0) (by rw [length_replicate]; omega)
  | realloc ptr size =>
    rcases hv.2 with rfl | hp
    · have hnull : w.after base (.realloc null size) = w.after base (.malloc size) := by
        simp only [after, result, released, ite_self, Heap.realloc, if_true]
        rfl
      rw [hnull]
      exact malloc_inv hb hi size
    · exact realloc_inv hb hi hp hok hv.1
  | free ptr =>
    simp only [after, result, released, if_true]
    rcases hv with rfl | hp
    · rw [hi.erase_null]
      exact ⟨L, hi⟩
    · obtain ⟨a, o, rfl, ha⟩ := (hi.live ptr).mp hp
      obtain ⟨L', hL', hused⟩ := free_spec hb (hi.heap_of_live hp) ha
      exact ⟨L', Inv.of_heap hL' (live_free hi.live hi.nodup hused) (hi.nodup.erase _)⟩
  | store ptr i bs =>
    obtain ⟨hp, hfit⟩ := hv
    obtain ⟨a, o, rfl, ha⟩ := (hi.live ptr).mp hp
    have hheap := hi.heap_of_live hp
    rw [Nat.add_sub_cancel, (hheap.rep.header ha id).2] at hfit
    simp only [after, result, released, hi.erase_null, if_true]
    exact ⟨L, Inv.of_heap (write_spec hheap ha hfit) hi.live hi.nodup⟩

/-! ### Heaps in order -/

omit hb in
/-- With one free block, the last list holds it and the others are empty. -/
theorem freeList_single (hi : HeapInv base h (single maxOrder)) (hlo : minOrder ≤ o)
    (hhi : o ≤ maxOrder) : FreeList h o (if o = maxOrder then [base] else []) := by
  obtain ⟨xs, hxs, hmem⟩ := hi.rep.list o hlo hhi
  have hsub : ∀ x ∈ xs, x = base ∧ o = maxOrder := by
    intro x hx
    obtain ⟨a, rfl, ha⟩ := (hmem x).mp hx
    rw [single] at ha
    split at ha
    · next h0 => exact ⟨by rw [h0]; rfl, by simpa using ha.symm⟩
    · cases ha
  by_cases ho : o = maxOrder
  · subst ho
    have hin : base ∈ xs := (hmem base).mpr ⟨0, rfl, rfl⟩
    have hxs1 : xs = [base] := by
      by_contra hne
      rcases (hxs.nodup.ne_singleton_iff base).mp hne with h0 | ⟨y, hy, hyne⟩
      · rw [h0] at hin
        cases hin
      · exact hyne (hsub y hy).1
    rw [if_pos rfl, ← hxs1]
    exact hxs
  · have hxs0 : xs = [] := eq_nil_iff_forall_not_mem.mpr fun x hx => ho (hsub x hx).2
    rw [if_neg ho, ← hxs0]
    exact hxs

/-- The lists and the root's header when there is one free block. -/
theorem empty_eq (hi : HeapInv base h (single maxOrder)) :
    (∀ i, i < numOrders → h.freeLists i = (h.heapInit base).freeLists i) ∧
      ∀ f, h.get base f = (h.heapInit base).get base f := by
  have hlast := freeList_single hi (by decide) (Nat.le_refl maxOrder)
  refine ⟨fun i hlt => ?_, fun f => ?_⟩
  · have hlo : minOrder ≤ i + minOrder := Nat.le_add_left ..
    have hhi : i + minOrder ≤ maxOrder := by
      have hn : numOrders + minOrder = maxOrder + 1 := rfl
      omega
    have hleft := (freeList_single hi hlo hhi).head
    have hright := (freeList_single (heapInit_inv hb h) hlo hhi).head
    rw [Nat.add_sub_cancel] at hleft hright
    rw [hleft, hright]
  · rw [heapInit_get hb]
    have hroot : single maxOrder 0 = some ⟨maxOrder, true⟩ := rfl
    cases f with
    | magic => exact (hi.rep.header hroot id).1
    | order => exact (hi.rep.header hroot id).2
    | prevFree => exact hlast.linked.1
    | nextFree => exact hlast.linked.2.1

theorem heapOk_of_inv (hi : Inv base w L) (hinit : w.heap.heapInitialized = true) :
    ∃ lists, HeapOk base w.heap w.live L lists := by
  have hheap : HeapInv base w.heap L := by
    have h := hi.heap
    rwa [ensureInit_of_init hinit] at h
  have ht := hheap.rep.tiling
  choose! lists hlists hmem using hheap.rep.list
  have husedIff : ∀ a b, L a = some b → (base + a + headerSize ∈ w.live ↔ b.isFree = false) := by
    intro a b ha
    rw [hi.live]
    constructor
    · rintro ⟨c, o, heq, hc⟩
      obtain rfl : a = c := by omega
      rw [ha] at hc
      rw [Option.some.inj hc]
    · intro hf
      exact ⟨a, b.order, rfl, by rw [ha, ← hf]⟩
  have hlisted : ∀ o, minOrder ≤ o → o ≤ maxOrder → ∀ a b, L a = some b →
      (base + a ∈ lists o ↔ b = ⟨o, true⟩) := by
    intro o hlo hhi a b ha
    rw [hmem o hlo hhi]
    constructor
    · rintro ⟨c, heq, hc⟩
      obtain rfl : a = c := by omega
      rw [ha] at hc
      exact Option.some.inj hc
    · rintro rfl
      exact ⟨a, rfl, ha⟩
  have hlive : ∀ p ∈ w.live, ∃ a o, p = base + a + headerSize ∧ L a = some ⟨o, false⟩ ∧
      p - headerSize = base + a ∧ w.heap.get (p - headerSize) .order = o := by
    intro p hp
    obtain ⟨a, o, rfl, ha⟩ := (hi.live p).mp hp
    refine ⟨a, o, rfl, ha, Nat.add_sub_cancel .., ?_⟩
    exact (hheap.rep.header ha id).2
  refine ⟨lists, ht, fun a b ha => hheap.rep.header ha id, hlists, ?_, ?_, ?_, hi.nodup, ?_, ?_,
    ?_, ?_⟩
  · intro o hlo hhi x hx
    obtain ⟨a, rfl, ha⟩ := (hmem o hlo hhi x).mp hx
    exact ⟨a, rfl, by rw [ha]; rfl⟩
  · intro a b ha
    cases hf : b.isFree with
    | false =>
      refine .inl ⟨rfl, (husedIff a b ha).mpr hf, fun o hlo hhi hin => ?_⟩
      rw [(hlisted o hlo hhi a b ha).mp hin] at hf
      cases hf
    | true =>
      refine .inr ⟨rfl, fun hin => ?_, fun o hlo hhi => ?_⟩
      · rw [(husedIff a b ha).mp hin] at hf
        cases hf
      · rw [hlisted o hlo hhi a b ha]
        constructor
        · rintro rfl
          rfl
        · rintro rfl
          rw [← hf]
  · intro p hp
    obtain ⟨a, o, rfl, ha, -⟩ := hlive p hp
    exact ⟨a, rfl, by rw [ha]; rfl⟩
  · intro p hp
    obtain ⟨a, o, rfl, ha, hsub, horder⟩ := hlive p hp
    have hin : a + 2 ^ o ≤ 2 ^ maxOrder := ht.inside ha
    have hsize : heapSize = 2 ^ maxOrder := by decide
    rw [horder, hsub]
    omega
  · intro p hp q hq hlt
    obtain ⟨a, o, rfl, ha, hsub, horder⟩ := hlive p hp
    obtain ⟨c, k, rfl, hc, hsub', -⟩ := hlive q hq
    have hdis : a + 2 ^ o ≤ c := ht.disjoint ha hc (by omega)
    rw [horder, hsub, hsub']
    omega
  · intro a o hlo hhi ha hbud
    obtain ⟨c, hceq, hc⟩ := (hmem o hlo (Nat.le_of_lt hhi) _).mp ha
    obtain ⟨d, hdeq, hd⟩ := (hmem o hlo (Nat.le_of_lt hhi) _).mp hbud
    obtain rfl : a = c := by omega
    obtain rfl : buddy a o = d := by omega
    exact hheap.noBuddies a o hhi hc hd
  · intro hempty
    -- nothing is used, so the tiling is the initial one
    have hall : ∀ a b, L a = some b → b.isFree = true := by
      intro a b ha
      cases hf : b.isFree with
      | true => rfl
      | false =>
        have hin := (husedIff a b ha).mpr hf
        rw [hempty] at hin
        cases hin
    have hL : L = single maxOrder := ht.single_of_all_free hheap.noBuddies hall
    rw [hL] at hheap
    exact empty_eq hb hheap

/-- **The C heap stays in order.** In every run of calls with owned pointers
whose sizes do not wrap, the heap is untouched or in order. -/
theorem heapOk_of_run (m : Mem) (calls : List Call) (w : World)
    (hok : Guarded (step base) NoWrap (start m) calls)
    (hrun : exec (step base) (start m) calls = some w) :
    (w.heap.heapInitialized = false ∧ w.live = []) ∨
      ∃ L lists, HeapOk base w.heap w.live L lists := by
  have hok' : Guarded (step base) (RequestFits base) (start m) calls :=
    hok.mono fun _ _ hno => .inl hno
  obtain ⟨L, hi⟩ := guarded_invariant (fun w => ∃ L, Inv base w L) (step_inv hb)
    ⟨_, inv_start hb m⟩ hok' hrun
  cases hinit : w.heap.heapInitialized with
  | false => exact .inl ⟨rfl, hi.unused hinit⟩
  | true => exact .inr ⟨L, heapOk_of_inv hb hi hinit⟩

omit hb in
theorem heapOk_of_run_malloc_free :
    HeapBase 32 ∧ (exec (step 32) (start fun _ => 0) [.malloc 100, .free 56]).isSome ∧
      ∀ w, exec (step 32) (start fun _ => 0) [.malloc 100, .free 56] = some w →
        (w.heap.heapInitialized = false ∧ w.live = []) ∨
          ∃ L lists, HeapOk 32 w.heap w.live L lists := by
  have hb : HeapBase 32 := ⟨by decide, by decide, by decide⟩
  refine ⟨hb, by decide, fun w hrun => ?_⟩
  exact heapOk_of_run hb (fun _ => 0) [.malloc 100, .free 56] w (.of_forall (by decide)) hrun

/-! ### Room for the request -/

/-- The header before `p` is that of a block in use inside the region, with
room for `size` bytes from `p` on. -/
def Reserved (base : Nat) (h : Heap) (p size : Nat) : Prop :=
  ∃ a o, p = base + a + headerSize ∧ h.get (base + a) .magic = magicUsed ∧
    h.get (base + a) .order = o ∧ o ≤ maxOrder ∧ a + 2 ^ o ≤ heapSize ∧ headerSize + size ≤ 2 ^ o

/-- No free block has room for the request and a header, nor, for `realloc`,
has the present one. -/
def CannotMeet (base : Nat) (w : World) (c : Call) : Prop :=
  (∀ o, minOrder ≤ o → o ≤ maxOrder → headerSize + request c ≤ 2 ^ o →
    (w.heap.ensureInit base).freeLists (o - minOrder) = null) ∧
  match c with
  | .realloc ptr size =>
    ptr ≠ null → 2 ^ w.heap.get (ptr - headerSize) .order < headerSize + size
  | _ => True

/-- The calls that return a pointer. -/
def allocates : Call → Bool
  | .malloc _ | .calloc _ _ | .realloc _ _ => true
  | _ => false

/-- A returned pointer has room for the request, and a request that cannot be
met returns null. -/
def Good (base : Nat) (w : World) (c : Call) : Prop :=
  ((w.result base c).1 ≠ null → Reserved base (w.result base c).2 (w.result base c).1 (request c)) ∧
    (CannotMeet base w c → (w.result base c).1 = null)

omit hb in
theorem Reserved.fits {p n : Nat} (hr : Reserved base h p n) : n + headerSize < 2 ^ 64 := by
  obtain ⟨a, o, -, -, -, ho, -, hfit⟩ := hr
  have hpow : 2 ^ o ≤ 2 ^ maxOrder := Nat.pow_le_pow_right (by decide) ho
  have hmax : 2 ^ maxOrder < 2 ^ 64 := by decide
  omega

omit hb in
/-- A used block of a heap in order is reserved for what fits in it. -/
theorem reserved_of_block (hi : HeapInv base h L) (ha : L a = some ⟨o, false⟩)
    (hfit : headerSize + size ≤ 2 ^ o) : Reserved base h (base + a + headerSize) size := by
  obtain ⟨hmagic, horder⟩ := hi.rep.header ha id
  have hsize : heapSize = 2 ^ maxOrder := by decide
  exact ⟨a, o, rfl, hmagic, horder, hi.rep.tiling.order_le ha,
    by rw [hsize]; exact hi.rep.tiling.inside ha, hfit⟩

omit hb in
/-- A request that `malloc` finds a block for can be met, unless it wrapped. -/
theorem not_cannotMeet (hmeet : Meetable (w.heap.ensureInit base) (request c))
    (hnowrap : request c + headerSize < 2 ^ 64) : ¬ CannotMeet base w c := by
  rintro ⟨hnone, -⟩
  obtain ⟨-, o, hle, hmax, hne⟩ := hmeet
  have hfits := orderOf_fits (Nat.le_trans hle hmax) hnowrap
  have hpow : 2 ^ orderOf (request c) ≤ 2 ^ o := Nat.pow_le_pow_right (by decide) hle
  exact hne (hnone o (Nat.le_trans (minOrder_le_orderOf _) hle) hmax (by omega))

omit hb in
theorem good_of_null (h : (w.result base c).1 = null) : Good base w c :=
  ⟨fun hne => absurd h hne, fun _ => h⟩

omit hb in
theorem good_of_reserved {q : Nat} {h' : Heap} (heq : w.result base c = (q, h'))
    (hres : Reserved base h' q (request c)) (hno : ¬ CannotMeet base w c) : Good base w c := by
  rw [Good, heq]
  exact ⟨fun _ => hres, fun hcm => absurd hcm hno⟩

/-- A request for which there is a block is not answered with null. -/
theorem result_ne_null (hi : Inv base w L) (hv : w.valid c) (hc : allocates c = true)
    (hmeet : Meetable (w.heap.ensureInit base) (request c % 2 ^ 64)) :
    (w.result base c).1 ≠ null := by
  have hmalloc : ∀ size, Meetable (w.heap.ensureInit base) size →
      (w.heap.malloc base size).1 ≠ null := by
    intro size hm
    rcases malloc_spec hb hi.heap size with ⟨hno, -⟩ | ⟨-, h', a, L', heq, -⟩
    · exact absurd hm hno
    · rw [heq]
      exact ptr_ne_null a
  cases c with
  | malloc size =>
    rw [request, Nat.mod_eq_of_lt hv] at hmeet
    exact hmalloc size hmeet
  | calloc n size =>
    rcases calloc_spec hb hi.heap n size with ⟨hno, -⟩ | ⟨-, h', a, L', -, heq⟩
    · exact absurd hmeet hno
    · rw [result, heq]
      exact ptr_ne_null a
  | realloc ptr size =>
    rw [request, Nat.mod_eq_of_lt hv.1] at hmeet
    rcases hv.2 with rfl | hp
    · exact hmalloc size hmeet
    · have hheap := hi.heap_of_live hp
      rw [ensureInit_of_init hheap.init] at hmeet
      obtain ⟨a, o, rfl, ha⟩ := (hi.live ptr).mp hp
      rw [result]
      rcases realloc_spec hb hheap ha size with ⟨h0, -⟩ | ⟨-, -, heq⟩ | ⟨-, hno, -⟩ |
        ⟨-, -, h', a', L', -, heq⟩
      · exact absurd h0 hmeet.1
      · rw [heq]
        exact ptr_ne_null a
      · exact absurd hmeet hno
      · rw [heq]
        exact ptr_ne_null a'
  | free ptr => exact absurd hc (by simp [allocates])
  | store ptr i bs => exact absurd hc (by simp [allocates])

theorem malloc_good (hi : Inv base w L) (hres : w.result base c = w.heap.malloc base (request c))
    (hlt : request c < 2 ^ 64) (hok : w.RequestFits base c) : Good base w c := by
  rcases malloc_spec hb hi.heap (request c) with ⟨-, heq⟩ | ⟨hmeet, h', a, L', heq, hal⟩
  · exact good_of_null (by rw [hres, heq])
  · have hnowrap : request c + headerSize < 2 ^ 64 := by
      refine hok.resolve_right (not_not.mpr ?_)
      rwa [Nat.mod_eq_of_lt hlt]
    have hfits := orderOf_fits hal.order_le hnowrap
    refine good_of_reserved (hres.trans heq) ?_ (not_cannotMeet hmeet hnowrap)
    exact reserved_of_block hal.inv hal.block (by omega)

theorem calloc_good (hi : Inv base w L) {n : Nat} (hok : w.RequestFits base (.calloc n size)) :
    Good base w (.calloc n size) := by
  rcases calloc_spec hb hi.heap n size with ⟨-, heq⟩ | ⟨hmeet, h', a, L', hal, heq⟩
  · exact good_of_null (by rw [result, heq])
  · have hnowrap : n * size + headerSize < 2 ^ 64 := hok.resolve_right (not_not.mpr hmeet)
    have hmod : n * size % 2 ^ 64 = n * size := Nat.mod_eq_of_lt (by omega)
    rw [hmod] at hmeet hal heq
    have hfits := orderOf_fits hal.order_le hnowrap
    have hw := write_spec hal.inv hal.block (i := 0) (d := replicate (n * size) 0)
      (by rw [length_replicate]; omega)
    refine good_of_reserved heq ?_ (not_cannotMeet hmeet hnowrap)
    exact reserved_of_block hw hal.block (by simp only [request]; omega)

theorem realloc_good (hi : Inv base w L) {ptr : Nat} (hp : ptr ∈ w.live) (hlt : size < 2 ^ 64)
    (hok : w.RequestFits base (.realloc ptr size)) : Good base w (.realloc ptr size) := by
  have hheap := hi.heap_of_live hp
  have hinit : w.heap.ensureInit base = w.heap := ensureInit_of_init hheap.init
  obtain ⟨a, o, rfl, ha⟩ := (hi.live ptr).mp hp
  rcases realloc_spec hb hheap ha size with ⟨-, heq⟩ | ⟨-, hle, heq⟩ | ⟨-, -, heq⟩ |
    ⟨hgt, hmeet, h', a', L', hal, heq⟩
  · exact good_of_null (by rw [result, heq])
  · -- the present block has room
    have hmin : 2 ^ minOrder ≤ 2 ^ o := Nat.pow_le_pow_right (by decide)
      (hheap.rep.tiling.order_ge ha)
    have hhdr : headerSize ≤ 2 ^ minOrder := by decide
    have hfit : headerSize + size ≤ 2 ^ o := by omega
    refine good_of_reserved heq (reserved_of_block hheap ha hfit) fun hcm => ?_
    have hno := hcm.2 (ptr_ne_null a)
    rw [Nat.add_sub_cancel, (hheap.rep.header ha id).2] at hno
    simp only at hno
    omega
  · exact good_of_null (by rw [result, heq])
  · have hmeet' : Meetable (w.heap.ensureInit base)
        (request (.realloc (base + a + headerSize) size)) := by
      rw [hinit]
      exact hmeet
    have hnowrap : size + headerSize < 2 ^ 64 := by
      refine hok.resolve_right (not_not.mpr ?_)
      rwa [request, Nat.mod_eq_of_lt hlt]
    have hfits := orderOf_fits hal.order_le hnowrap
    have haa : a ≠ a' := by
      rintro rfl
      exact hal.fresh o ha
    have hw := write_spec hal.inv hal.block (i := 0)
      (d := h'.mem.read (base + a + headerSize) (2 ^ o - headerSize))
      (by rw [Mem.length_read]; omega)
    obtain ⟨L'', hL'', hused⟩ := free_spec hb hw ((hal.others a o haa).mpr ha)
    refine good_of_reserved heq ?_ (not_cannotMeet hmeet' hnowrap)
    exact reserved_of_block hL'' ((hused a' _).mpr ⟨haa.symm, hal.block⟩)
      (by simp only [request]; omega)

/-- **Room for the request.** After any run in which every call met the
condition, what `malloc`, `calloc` or `realloc` returns has room for the request
exactly if the request and a header fit in `size_t` or the wrapped request finds
no block. -/
theorem good_iff_requestFits (m : Mem) (calls : List Call) (w : World)
    (hok : Guarded (step base) (RequestFits base) (start m) calls)
    (hrun : exec (step base) (start m) calls = some w) (c : Call) (hv : w.valid c)
    (hc : allocates c = true) : Good base w c ↔ w.RequestFits base c := by
  obtain ⟨L, hi⟩ := guarded_invariant (fun w => ∃ L, Inv base w L) (step_inv hb)
    ⟨_, inv_start hb m⟩ hok hrun
  constructor
  · intro hgood
    by_cases hmeet : Meetable (w.heap.ensureInit base) (request c % 2 ^ 64)
    · exact .inl (hgood.1 (result_ne_null hb hi hv hc hmeet)).fits
    · exact .inr hmeet
  · intro hfits
    cases c with
    | malloc size => exact malloc_good hb hi rfl hv hfits
    | calloc n size => exact calloc_good hb hi hfits
    | realloc ptr size =>
      rcases hv.2 with rfl | hp
      · exact malloc_good hb hi (by rfl) hv.1 hfits
      · exact realloc_good hb hi hp hv.1 hfits
    | free ptr => exact absurd hc (by simp [allocates])
    | store ptr i bs => exact absurd hc (by simp [allocates])

/-- Two blocks are taken and the first is given back. -/
def threeCalls : List Call := [.malloc 100, .calloc 2 20, .free 56]

omit hb in
theorem good_iff_requestFits_three_calls :
    HeapBase 32 ∧ ∃ w, exec (step 32) (start fun _ => 0) threeCalls = some w ∧ w.live.length = 1 ∧
      (Good 32 w (.malloc 100) ↔ w.RequestFits 32 (.malloc 100)) := by
  have hb : HeapBase 32 := ⟨by decide, by decide, by decide⟩
  have hlive : (exec (step 32) (start fun _ => 0) threeCalls).map (·.live.length) = some 1 := by
    decide +kernel
  obtain ⟨w, hrun, hw⟩ := Option.map_eq_some_iff.mp hlive
  have hno : Guarded (step 32) NoWrap (start fun _ => 0) threeCalls := .of_forall (by decide)
  have hok : Guarded (step 32) (RequestFits 32) (start fun _ => 0) threeCalls :=
    hno.mono fun _ _ hno => .inl hno
  exact ⟨hb, w, hrun, hw,
    good_iff_requestFits hb (fun _ => 0) threeCalls w hok hrun _ (by decide : 100 < 2 ^ 64) rfl⟩

omit hb in
/-- `malloc(SIZE_MAX)` as the first call: the addition wraps to 23, so a block
of 32 bytes is returned. -/
theorem malloc_max_not_good : ¬ Good 32 (start fun _ => 0) (.malloc (2 ^ 64 - 1)) := by
  have hb : HeapBase 32 := ⟨by decide, by decide, by decide⟩
  intro hgood
  have hne := result_ne_null hb (inv_start hb fun _ => 0) (c := .malloc (2 ^ 64 - 1))
    (by decide) rfl ⟨by decide, maxOrder, by decide, by decide, by decide⟩
  have hfits := (hgood.1 hne).fits
  simp only [request, headerSize] at hfits
  omega

end World

end PythonOS.Libc
