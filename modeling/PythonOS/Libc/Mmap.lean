import Mathlib.Data.List.Pairwise
import Mathlib.Data.List.Perm.Basic
import PythonOS.Lib.Memory
import PythonOS.Lib.Runs

/-!
# PythonOS.Libc.Mmap

`mmap` and `munmap` of `syscalls.c`: anonymous mappings cut out of areas that
`calloc` returns, in a table of 128 records. Unmapping the middle of a mapping
splits its record in two that share the backing area.

The allocator is the environment: `calloc` may return any area that is apart
from the ones in use, or null, and `free` of anything but such an area is noted
in `badFree`. `mappings_sound`: in every run the records are disjoint and inside
areas in use, an area is in use exactly as long as a record refers to it, every
`free` frees an area in use, and a call that fails changes neither the records
nor the areas nor their bytes.
-/

namespace PythonOS.Libc.Mmap

open Lib List Option

/-- `MMAP_MAX_RECORDS`. -/
def maxRecords : Nat := 128

/-- `MMAP_PAGE_SIZE`. -/
def pageSize : Nat := 4096

/-- `sizeof(void *)`. -/
def pointerSize : Nat := 8

/-- The range of `size_t` and `uintptr_t`. -/
def wordRange : Nat := 2 ^ 64

/-- `mmap_record_t`. -/
structure Record where
  used : Bool := false
  addr : Nat := 0
  raw : Nat := 0
  length : Nat := 0
  deriving Repr, DecidableEq

/-- An area `calloc` has returned. -/
structure Area where
  base : Nat
  size : Nat
  deriving Repr, DecidableEq

/-- What a call returns: a value, or -1 with the `errno` it has set. When `calloc` fails, `mmap`
sets none, and neither does `calloc`. -/
inductive Outcome
  | ok (value : Nat)
  | einval | enomem | callocFailed
  deriving Repr, DecidableEq

def Outcome.failed : Outcome → Bool
  | .ok _ => false
  | _ => true

/-- The table, the areas in use, memory, and whether `free` was ever given something else. -/
structure State where
  records : List Record := replicate maxRecords {}
  areas : List Area := []
  mem : Mem
  badFree : Bool := false

/-! ### The code -/

/-- `mmap_range_end`. -/
def rangeEnd (start length : Nat) : Option Nat :=
  let value := (start + length) % wordRange
  if value < start then none else some value

/-- `mmap_page_align`: the mask clears the bits below the page size. -/
def pageAlign (length : Nat) : Nat := (length + pageSize - 1) % wordRange / pageSize * pageSize

/-- `mmap_record_contains`. -/
def Record.contains (r : Record) (start stop : Nat) : Bool :=
  r.used && decide (r.addr ≤ start) && decide (stop ≤ (r.addr + r.length) % wordRange)

/-- `mmap_range_is_mapped`. -/
def rangeIsMapped (records : List Record) (start length : Nat) : Bool :=
  match rangeEnd start length with
  | none => false
  | some stop => records.any (·.contains start stop)

/-- `mmap_alloc_record`: `none` when the table is full. -/
def allocRecord (records : List Record) (addr raw length : Nat) : Option (List Record) :=
  match records with
  | [] => none
  | r :: rest =>
    if r.used then (allocRecord rest addr raw length).map (r :: ·)
    else some ({ used := true, addr, raw, length } :: rest)

/-- `mmap_raw_still_mapped`. -/
def rawStillMapped (records : List Record) (raw : Nat) : Bool :=
  records.any fun r => r.used && decide (r.raw = raw)

namespace State

/-- `calloc` returns the area `a`. -/
def calloc (s : State) (a : Area) : State :=
  { s with areas := a :: s.areas, mem := s.mem.write a.base (Bytes.zeros a.size) }

/-- `free`. -/
def free (s : State) (raw : Nat) : State :=
  if s.areas.any fun a => decide (a.base = raw) then
    { s with areas := s.areas.filter fun a => decide (a.base ≠ raw) }
  else { s with badFree := true }

/-- What `mmap` asks `calloc` for. -/
def total (mapLength : Nat) : Nat := (mapLength + pageSize + pointerSize) % wordRange

/-- Where in the area at `raw` the mapping starts: the first page boundary with room for a
pointer before it. -/
def aligned (raw : Nat) : Nat :=
  (raw + pointerSize + pageSize - 1) % wordRange / pageSize * pageSize

/-- `mmap`; `fixed` says whether `flags` has `MAP_FIXED`, `raw` is what `calloc` returns if it
is called (zero is null). -/
def mmap (s : State) (addr length : Nat) (fixed : Bool) (raw : Nat) : State × Outcome :=
  if length = 0 then (s, .einval)
  else
    let mapLength := pageAlign length
    if mapLength < length then (s, .einval)
    else if fixed ∧ addr ≠ 0 then
      if rangeIsMapped s.records addr mapLength then
        ({ s with mem := s.mem.write addr (Bytes.zeros mapLength) }, .ok addr)
      else (s, .einval)
    else if fixed then (s, .einval)
    else if total mapLength < mapLength then (s, .einval)
    else if raw = 0 then (s, .callocFailed)
    else
      let s := s.calloc ⟨raw, total mapLength⟩
      let s := { s with mem := s.mem.store (aligned raw - pointerSize) pointerSize raw }
      match allocRecord s.records (aligned raw) raw mapLength with
      | some records => ({ s with records }, .ok (aligned raw))
      | none => (s.free raw, .enomem)

/-- `munmap` in the record number `i`, which contains the range from `target` to `stop`. -/
def unmapIn (s : State) (i : Nat) (r : Record) (target stop : Nat) : State × Outcome :=
  let last := (r.addr + r.length) % wordRange
  if target = r.addr ∧ stop = last then
    let records := s.records.set i { r with used := false }
    let s := { s with records }
    if rawStillMapped records r.raw then (s, .ok 0) else (s.free r.raw, .ok 0)
  else if target = r.addr then
    ({ s with records := s.records.set i { r with addr := stop, length := last - stop } }, .ok 0)
  else if stop = last then
    ({ s with records := s.records.set i { r with length := target - r.addr } }, .ok 0)
  else
    match allocRecord s.records stop r.raw (last - stop) with
    | none => (s, .enomem)
    | some records =>
      ({ s with records := records.set i { r with length := target - r.addr } }, .ok 0)

/-- `munmap`. -/
def munmap (s : State) (addr length : Nat) : State × Outcome :=
  if addr = 0 ∨ length = 0 then (s, .einval)
  else
    let unmapLength := pageAlign length
    if unmapLength < length then (s, .einval)
    else
      match rangeEnd addr unmapLength with
      | none => (s, .einval)
      | some stop =>
        match s.records.findIdx? (·.contains addr stop) with
        | none => (s, .einval)
        | some i => s.unmapIn i (s.records.getD i {}) addr stop

end State

/-- A call with its arguments, and for `mmap` the answer of `calloc`. -/
inductive Call
  | mmap (addr length : UInt64) (fixed : Bool) (raw : UInt64)
  | munmap (addr length : UInt64)

namespace State

/-- Two ranges have no address in common. -/
def Apart (a n b m : Nat) : Prop := a + n ≤ b ∨ b + m ≤ a

instance (a n b m : Nat) : Decidable (Apart a n b m) := inferInstanceAs (Decidable (_ ∨ _))

/-- What `calloc` may return for `size` bytes: null, or an area inside memory apart from those in
use. -/
def MayReturn (s : State) (raw size : Nat) : Prop :=
  raw ≠ 0 → raw + size ≤ wordRange ∧ ∀ a ∈ s.areas, Apart a.base a.size raw size

instance (s : State) (raw size : Nat) : Decidable (s.MayReturn raw size) :=
  inferInstanceAs (Decidable (_ → _))

/-- The state after a call and what it returns. -/
def result (s : State) : Call → State × Outcome
  | .mmap addr length fixed raw => s.mmap addr.toNat length.toNat fixed raw.toNat
  | .munmap addr length => s.munmap addr.toNat length.toNat

/-- One call; not possible if `calloc` gives an answer it may not give. -/
def step (s : State) (c : Call) : Option State :=
  match c with
  | .mmap _ length _ raw =>
    if s.MayReturn raw.toNat (total (pageAlign length.toNat)) then some (s.result c).1 else none
  | .munmap .. => some (s.result c).1

/-- The records in use. -/
def live (s : State) : List Record := s.records.filter (·.used)

/-! ### The property -/

/-- The mapping of `r` lies in the area `a`, which goes on after it. -/
def Inside (r : Record) (a : Area) : Prop := a.base ≤ r.addr ∧ r.addr + r.length < a.base + a.size

/-- Mappings are disjoint and in areas in use; the areas in use are those of mappings; nothing
else was ever freed. -/
structure Sound (s : State) : Prop where
  disjoint : s.live.Pairwise fun r r' => Apart r.addr r.length r'.addr r'.length
  inside : ∀ r ∈ s.live, ∃ a ∈ s.areas, r.raw = a.base ∧ Inside r a
  owned : ∀ a ∈ s.areas, ∃ r ∈ s.live, r.raw = a.base
  freed : s.badFree = false

/-- Records, areas and the bytes of the areas are the same. -/
def Unchanged (s s' : State) : Prop :=
  s'.records = s.records ∧ s'.areas = s.areas ∧
    ∀ a ∈ s.areas, s'.mem.read a.base a.size = s.mem.read a.base a.size

/-! ### Records and areas -/

/-- What holds of the records in use, in whatever order they stand, and the areas in use. -/
structure Tidy (live : List Record) (areas : List Area) : Prop where
  disjoint : live.Pairwise fun r r' => Apart r.addr r.length r'.addr r'.length
  positive : ∀ r ∈ live, 0 < r.length
  inside : ∀ r ∈ live, ∃ a ∈ areas, r.raw = a.base ∧ Inside r a
  owned : ∀ a ∈ areas, ∃ r ∈ live, r.raw = a.base
  fits : ∀ a ∈ areas, 0 < a.size ∧ a.base + a.size ≤ wordRange
  apart : areas.Pairwise fun a b => Apart a.base a.size b.base b.size

namespace Tidy

variable {live others : List Record} {areas : List Area} {r r' r1 r2 : Record}

theorem nil : Tidy [] [] :=
  ⟨List.Pairwise.nil, by simp, by simp, by simp, by simp, List.Pairwise.nil⟩

theorem perm (h : Tidy live areas) (hp : others.Perm live) : Tidy others areas where
  disjoint := by
    refine (hp.pairwise_iff ?_).mpr h.disjoint
    intro r r' hr
    exact hr.symm
  positive r hr := h.positive r (hp.mem_iff.mp hr)
  inside r hr := h.inside r (hp.mem_iff.mp hr)
  owned a ha := by
    obtain ⟨r, hr, hraw⟩ := h.owned a ha
    exact ⟨r, hp.mem_iff.mpr hr, hraw⟩
  fits := h.fits
  apart := h.apart

/-- The end of a mapping does not wrap. -/
theorem stop_lt (h : Tidy live areas) (hr : r ∈ live) : r.addr + r.length < wordRange := by
  obtain ⟨a, ha, -, -, hstop⟩ := h.inside r hr
  exact Nat.lt_of_lt_of_le hstop (h.fits a ha).2

/-- Areas in use are told apart by where they start. -/
theorem base_inj (h : Tidy live areas) {a b : Area} (ha : a ∈ areas) (hb : b ∈ areas)
    (hbase : a.base = b.base) : a = b := by
  by_contra hne
  have hsize := (h.fits a ha).1
  have hsize' := (h.fits b hb).1
  have hsymm : Std.Symm fun a b : Area => Apart a.base a.size b.base b.size :=
    ⟨fun _ _ hab => Or.symm hab⟩
  rcases h.apart.forall ha hb hne with hle | hle <;> omega

/-- One more mapping, in an area in use and apart from the others. -/
theorem add (h : Tidy live areas) {a : Area} (ha : a ∈ areas) (hraw : r.raw = a.base)
    (hin : Inside r a) (hpos : 0 < r.length)
    (hapart : ∀ x ∈ live, Apart r.addr r.length x.addr x.length) : Tidy (r :: live) areas where
  disjoint := pairwise_cons.mpr ⟨hapart, h.disjoint⟩
  positive x hx := by
    rcases mem_cons.mp hx with rfl | hx
    · exact hpos
    · exact h.positive x hx
  inside x hx := by
    rcases mem_cons.mp hx with rfl | hx
    · exact ⟨a, ha, hraw, hin⟩
    · exact h.inside x hx
  owned b hb := by
    obtain ⟨x, hx, hbase⟩ := h.owned b hb
    exact ⟨x, mem_cons_of_mem _ hx, hbase⟩
  fits := h.fits
  apart := h.apart

section

variable (h : Tidy (r :: others) areas)

include h

/-- A piece of a mapping in its place. -/
theorem shrink (hraw : r'.raw = r.raw) (hstart : r.addr ≤ r'.addr)
    (hstop : r'.addr + r'.length ≤ r.addr + r.length) (hpos : 0 < r'.length) :
    Tidy (r' :: others) areas where
  disjoint := by
    obtain ⟨hr, hothers⟩ := pairwise_cons.mp h.disjoint
    refine pairwise_cons.mpr ⟨fun x hx => ?_, hothers⟩
    rcases hr x hx with hle | hle
    · exact .inl (Nat.le_trans hstop hle)
    · exact .inr (Nat.le_trans hle hstart)
  positive x hx := by
    rcases mem_cons.mp hx with rfl | hx
    · exact hpos
    · exact h.positive x (mem_cons_of_mem _ hx)
  inside x hx := by
    rcases mem_cons.mp hx with rfl | hx
    · obtain ⟨a, ha, hbase, hlo, hhi⟩ := h.inside r (mem_cons_self ..)
      exact ⟨a, ha, hraw.trans hbase, Nat.le_trans hlo hstart, Nat.lt_of_le_of_lt hstop hhi⟩
    · exact h.inside x (mem_cons_of_mem _ hx)
  owned a ha := by
    obtain ⟨x, hx, hbase⟩ := h.owned a ha
    rcases mem_cons.mp hx with rfl | hx
    · exact ⟨r', mem_cons_self .., hraw.trans hbase⟩
    · exact ⟨x, mem_cons_of_mem _ hx, hbase⟩
  fits := h.fits
  apart := h.apart

/-- Two pieces of a mapping in its place. -/
theorem split (h1 : r1.raw = r.raw) (h2 : r2.raw = r.raw)
    (hstart : r.addr ≤ r1.addr) (hmid : r1.addr + r1.length ≤ r2.addr)
    (hstop : r2.addr + r2.length ≤ r.addr + r.length) (hpos1 : 0 < r1.length)
    (hpos2 : 0 < r2.length) : Tidy (r1 :: r2 :: others) areas := by
  have hright : Tidy (r2 :: others) areas := h.shrink h2 (by omega) hstop hpos2
  obtain ⟨a, ha, hbase, hlo, hhi⟩ := h.inside r (mem_cons_self ..)
  refine hright.add ha (h1.trans hbase) ⟨by omega, by omega⟩ hpos1 fun x hx => ?_
  rcases mem_cons.mp hx with rfl | hx
  · exact .inl hmid
  · rcases (pairwise_cons.mp h.disjoint).1 x hx with hle | hle
    · exact .inl (by omega)
    · exact .inr (by omega)

/-- A mapping goes, and its area has another one. -/
theorem dropOne (hr : r' ∈ others) (hraw : r'.raw = r.raw) :
    Tidy others areas where
  disjoint := (pairwise_cons.mp h.disjoint).2
  positive x hx := h.positive x (mem_cons_of_mem _ hx)
  inside x hx := h.inside x (mem_cons_of_mem _ hx)
  owned a ha := by
    obtain ⟨x, hx, hbase⟩ := h.owned a ha
    rcases mem_cons.mp hx with rfl | hx
    · exact ⟨r', hr, hraw.trans hbase⟩
    · exact ⟨x, hx, hbase⟩
  fits := h.fits
  apart := h.apart

/-- The last mapping of an area goes, and the area with it. -/
theorem dropLast (hlast : ∀ x ∈ others, x.raw ≠ r.raw) :
    Tidy others (areas.filter fun a => decide (a.base ≠ r.raw)) where
  disjoint := (pairwise_cons.mp h.disjoint).2
  positive x hx := h.positive x (mem_cons_of_mem _ hx)
  inside x hx := by
    obtain ⟨a, ha, hbase, hin⟩ := h.inside x (mem_cons_of_mem _ hx)
    refine ⟨a, mem_filter.mpr ⟨ha, decide_eq_true ?_⟩, hbase, hin⟩
    rw [← hbase]
    exact hlast x hx
  owned a ha := by
    obtain ⟨ha, hne⟩ := mem_filter.mp ha
    obtain ⟨x, hx, hbase⟩ := h.owned a ha
    rcases mem_cons.mp hx with rfl | hx
    · exact absurd hbase.symm (of_decide_eq_true hne)
    · exact ⟨x, hx, hbase⟩
  fits a ha := h.fits a (mem_filter.mp ha).1
  apart := h.apart.filter _

end

/-- A new area with a mapping in it. -/
theorem newArea (h : Tidy live areas) {a : Area} (hraw : r.raw = a.base) (hin : Inside r a)
    (hpos : 0 < r.length) (hfits : a.base + a.size ≤ wordRange)
    (hapart : ∀ b ∈ areas, Apart b.base b.size a.base a.size) :
    Tidy (r :: live) (a :: areas) where
  disjoint := by
    refine pairwise_cons.mpr ⟨fun x hx => ?_, h.disjoint⟩
    obtain ⟨b, hb, -, hlo, hhi⟩ := h.inside x hx
    obtain ⟨hlo', hhi'⟩ := hin
    rcases hapart b hb with hle | hle
    · exact .inr (by omega)
    · exact .inl (by omega)
  positive x hx := by
    rcases mem_cons.mp hx with rfl | hx
    · exact hpos
    · exact h.positive x hx
  inside x hx := by
    rcases mem_cons.mp hx with rfl | hx
    · exact ⟨a, mem_cons_self .., hraw, hin⟩
    · obtain ⟨b, hb, hrest⟩ := h.inside x hx
      exact ⟨b, mem_cons_of_mem _ hb, hrest⟩
  owned b hb := by
    rcases mem_cons.mp hb with rfl | hb
    · exact ⟨r, mem_cons_self .., hraw⟩
    · obtain ⟨x, hx, hbase⟩ := h.owned b hb
      exact ⟨x, mem_cons_of_mem _ hx, hbase⟩
  fits b hb := by
    rcases mem_cons.mp hb with rfl | hb
    · obtain ⟨hlo, hhi⟩ := hin
      exact ⟨by omega, hfits⟩
    · exact h.fits b hb
  apart := pairwise_cons.mpr ⟨fun b hb => (hapart b hb).symm, h.apart⟩

end Tidy

/-! ### The table -/

/-- A record in use stands beside others, which stay when it is replaced. -/
theorem filter_set {rs : List Record} : ∀ {i : Nat} {r : Record}, rs[i]? = some r → r.used = true →
    ∃ others, (rs.filter (·.used)).Perm (r :: others) ∧ ∀ r' : Record,
      ((rs.set i r').filter (·.used)).Perm (if r'.used then r' :: others else others) := by
  induction rs with
  | nil =>
    intro i r h
    cases h
  | cons x rs ih =>
    intro i r h hused
    cases i with
    | zero =>
      cases h
      refine ⟨rs.filter (·.used), ?_, fun r' => ?_⟩
      · rw [filter_cons_of_pos hused]
      · rw [set_cons_zero]
        by_cases hr' : r'.used
        · rw [if_pos hr', filter_cons_of_pos hr']
        · rw [if_neg hr', filter_cons_of_neg hr']
    | succ i =>
      obtain ⟨others, hperm, hset⟩ := ih h hused
      by_cases hx : x.used
      · refine ⟨x :: others, ?_, fun r' => ?_⟩
        · rw [filter_cons_of_pos hx]
          exact (hperm.cons x).trans (List.Perm.swap r x others)
        · rw [set_cons_succ, filter_cons_of_pos hx]
          refine ((hset r').cons x).trans ?_
          by_cases hr' : r'.used
          · rw [if_pos hr', if_pos hr']
            exact List.Perm.swap r' x others
          · rw [if_neg hr', if_neg hr']
      · refine ⟨others, ?_, fun r' => ?_⟩
        · rw [filter_cons_of_neg hx]
          exact hperm
        · rw [set_cons_succ, filter_cons_of_neg hx]
          exact hset r'

variable {addr length raw mapLength : Nat}

/-- A new record is added to those in use, which keep their places. -/
theorem allocRecord_some {rs rs' : List Record} (h : allocRecord rs addr raw length = some rs') :
    (rs'.filter (·.used)).Perm ({ used := true, addr, raw, length } :: rs.filter (·.used)) ∧
      ∀ (i : Nat) (r : Record), rs[i]? = some r → r.used = true → rs'[i]? = some r := by
  induction rs generalizing rs' with
  | nil => cases h
  | cons x rs ih =>
    unfold allocRecord at h
    by_cases hx : x.used
    · rw [if_pos hx] at h
      obtain ⟨rest, hrest, rfl⟩ := map_eq_some_iff.mp h
      obtain ⟨hperm, hkeep⟩ := ih hrest
      constructor
      · rw [filter_cons_of_pos hx, filter_cons_of_pos hx]
        exact (hperm.cons x).trans (List.Perm.swap _ x _)
      · intro i r hi hused
        cases i with
        | zero => exact hi
        | succ i => exact hkeep i r hi hused
    · rw [if_neg hx] at h
      cases h
      constructor
      · rw [filter_cons_of_pos rfl, filter_cons_of_neg hx]
      · intro i r hi hused
        cases i with
        | zero =>
          cases hi
          exact absurd hused hx
        | succ i => exact hi

theorem contains_iff {r : Record} {start stop : Nat} (h : r.addr + r.length < wordRange) :
    r.contains start stop = true ↔ r.used = true ∧ r.addr ≤ start ∧ stop ≤ r.addr + r.length := by
  rw [Record.contains, Nat.mod_eq_of_lt h]
  simp [and_assoc]

/-! ### Arithmetic of the calls -/

theorem pageAlign_lt (length : Nat) : pageAlign length < wordRange := by
  refine Nat.lt_of_le_of_lt (Nat.div_mul_le_self ..) (Nat.mod_lt _ ?_)
  unfold wordRange
  omega

theorem total_eq (hlt : mapLength < wordRange) (hge : mapLength ≤ total mapLength) :
    total mapLength = mapLength + pageSize + pointerSize := by
  unfold total wordRange pageSize pointerSize at *
  omega

/-- The mapping starts after a pointer's room in the area and ends before the area does. -/
theorem aligned_spec (h : raw + (mapLength + pageSize + pointerSize) ≤ wordRange) :
    raw + pointerSize ≤ aligned raw ∧
      aligned raw + mapLength < raw + (mapLength + pageSize + pointerSize) := by
  unfold aligned
  rw [Nat.mod_eq_of_lt (by unfold pageSize pointerSize at *; omega)]
  unfold pageSize pointerSize at *
  omega

/-- A range that `mmap_range_end` accepts does not wrap. -/
theorem rangeEnd_eq {start stop : Nat} (hs : start < wordRange) (hl : length < wordRange)
    (h : rangeEnd start length = some stop) : stop = start + length := by
  unfold rangeEnd at h
  dsimp only at h
  split at h <;> cases h
  next hge =>
    rcases Nat.lt_or_ge (start + length) wordRange with hlt | hge'
    · exact Nat.mod_eq_of_lt hlt
    · have hmod : (start + length) % wordRange = start + length - wordRange := by
        rw [Nat.mod_eq_sub_mod hge', Nat.mod_eq_of_lt (by omega)]
      omega

/-! ### `munmap` -/

variable {s s' : State} {r : Record} {i target stop : Nat}

theorem free_of_mem {a : Area} (ha : a ∈ s.areas) (hraw : raw = a.base) :
    s.free raw = { s with areas := s.areas.filter fun b => decide (b.base ≠ raw) } :=
  if_pos (any_eq_true.mpr ⟨a, ha, decide_eq_true hraw.symm⟩)

/-- What a call keeps: records and areas in order, nothing else freed, no new area that overlaps
one in use, and nothing changed when it fails. -/
structure Keeps (s s' : State) (o : Outcome) : Prop where
  tidy : Tidy s'.live s'.areas
  badFree : s'.badFree = s.badFree
  areas : ∀ a ∈ s'.areas, a ∈ s.areas ∨ ∀ b ∈ s.areas, Apart b.base b.size a.base a.size
  unchanged : o.failed = true → Unchanged s s'

theorem Keeps.refl (h : Tidy s.live s.areas) (o : Outcome) : Keeps s s o :=
  ⟨h, rfl, fun _ ha => .inl ha, fun _ => ⟨rfl, rfl, fun _ _ => rfl⟩⟩

/-- A change of the table by a call that does not fail. -/
theorem Keeps.of_records {records : List Record} {v : Nat}
    (h : Tidy (records.filter (·.used)) s.areas) : Keeps s { s with records } (.ok v) :=
  ⟨h, rfl, fun _ ha => .inl ha, fun hf => absurd hf Bool.false_ne_true⟩

theorem rawStillMapped_iff {records : List Record} :
    rawStillMapped records raw = true ↔ ∃ x ∈ records.filter (·.used), x.raw = raw := by
  simp [rawStillMapped, and_assoc]

section

variable (h : Tidy s.live s.areas)

include h

theorem unmapIn_keeps (hi : s.records[i]? = some r)
    (hc : r.contains target stop = true) (hlt : target < stop) :
    Keeps s (s.unmapIn i r target stop).1 (s.unmapIn i r target stop).2 := by
  have hused : r.used = true := by
    rw [Record.contains, Bool.and_eq_true, Bool.and_eq_true] at hc
    exact hc.1.1
  have hmem : r ∈ s.live := mem_filter.mpr ⟨mem_of_getElem? hi, hused⟩
  have hend := h.stop_lt hmem
  obtain ⟨-, hstart, hstop⟩ := (contains_iff hend).mp hc
  obtain ⟨others, hperm, hset⟩ := filter_set hi hused
  have hall : Tidy (r :: others) s.areas := h.perm hperm.symm
  unfold unmapIn
  rw [Nat.mod_eq_of_lt hend]
  by_cases hwhole : target = r.addr ∧ stop = r.addr + r.length
  · rw [if_pos hwhole]
    have hrest : ((s.records.set i { r with used := false }).filter (·.used)).Perm others :=
      hset { r with used := false }
    by_cases hmapped : rawStillMapped (s.records.set i { r with used := false }) r.raw = true
    · rw [if_pos hmapped]
      obtain ⟨x, hx, hraw⟩ := rawStillMapped_iff.mp hmapped
      exact .of_records ((hall.dropOne (hrest.mem_iff.mp hx) hraw).perm hrest)
    · rw [if_neg hmapped]
      have hlast : ∀ x ∈ others, x.raw ≠ r.raw := fun x hx hraw =>
        hmapped (rawStillMapped_iff.mpr ⟨x, hrest.mem_iff.mpr hx, hraw⟩)
      obtain ⟨a, ha, hbase, -⟩ := h.inside r hmem
      have hfree := free_of_mem
        (s := { s with records := s.records.set i { r with used := false } }) ha hbase
      rw [hfree]
      exact ⟨(hall.dropLast hlast).perm hrest, rfl, fun b hb => .inl (mem_filter.mp hb).1,
        fun hf => absurd hf Bool.false_ne_true⟩
  · rw [if_neg hwhole]
    by_cases hfront : target = r.addr
    · rw [if_pos hfront]
      have hr' := hset { r with addr := stop, length := r.addr + r.length - stop }
      rw [if_pos hused] at hr'
      refine .of_records ((hall.shrink ?_ ?_ ?_ ?_).perm hr')
      · rfl
      · show r.addr ≤ stop
        omega
      · show stop + (r.addr + r.length - stop) ≤ r.addr + r.length
        omega
      · show 0 < r.addr + r.length - stop
        omega
    · rw [if_neg hfront]
      have hleft := hset { r with length := target - r.addr }
      rw [if_pos hused] at hleft
      by_cases hback : stop = r.addr + r.length
      · rw [if_pos hback]
        refine .of_records ((hall.shrink ?_ ?_ ?_ ?_).perm hleft)
        · rfl
        · exact Nat.le_refl _
        · show r.addr + (target - r.addr) ≤ r.addr + r.length
          omega
        · show 0 < target - r.addr
          omega
      · rw [if_neg hback]
        cases halloc : allocRecord s.records stop r.raw (r.addr + r.length - stop) with
        | none => exact Keeps.refl h _
        | some records =>
          obtain ⟨hnew, hkeep⟩ := allocRecord_some halloc
          obtain ⟨others', hperm', hset'⟩ := filter_set (hkeep i r hi hused) hused
          have hboth := hset' { r with length := target - r.addr }
          rw [if_pos hused] at hboth
          -- beside the record itself stand the right piece and the records from before
          have hrest : others'.Perm
              ({ used := true, addr := stop, raw := r.raw,
                 length := r.addr + r.length - stop } :: others) := by
            refine List.Perm.cons_inv (a := r) ?_
            refine hperm'.symm.trans (hnew.trans ?_)
            exact (hperm.cons _).trans (List.Perm.swap _ _ _)
          refine .of_records (Tidy.perm ?_ (hboth.trans (hrest.cons _)))
          refine hall.split rfl rfl (Nat.le_refl _) ?_ ?_ ?_ ?_
          · show r.addr + (target - r.addr) ≤ stop
            omega
          · show stop + (r.addr + r.length - stop) ≤ r.addr + r.length
            omega
          · show 0 < target - r.addr
            omega
          · show 0 < r.addr + r.length - stop
            omega

theorem munmap_keeps (ha : addr < wordRange) :
    Keeps s (s.munmap addr length).1 (s.munmap addr length).2 := by
  unfold munmap
  by_cases hargs : addr = 0 ∨ length = 0
  · rw [if_pos hargs]
    exact Keeps.refl h _
  · rw [if_neg hargs]
    by_cases hwrap : pageAlign length < length
    · rw [if_pos hwrap]
      exact Keeps.refl h _
    · rw [if_neg hwrap]
      cases hstop : rangeEnd addr (pageAlign length) with
      | none => exact Keeps.refl h _
      | some stop =>
        have hend := rangeEnd_eq ha (pageAlign_lt length) hstop
        dsimp only
        cases hfind : s.records.findIdx? (·.contains addr stop) with
        | none => exact Keeps.refl h _
        | some i =>
          obtain ⟨hilt, hcontains, -⟩ := findIdx?_eq_some_iff_getElem.mp hfind
          have hget : s.records[i]? = some s.records[i] := getElem?_eq_getElem hilt
          have hgetD : s.records.getD i {} = s.records[i] := getD_eq_getElem _ _ hilt
          dsimp only
          rw [hgetD]
          exact unmapIn_keeps h hget hcontains (by omega)

/-! ### `mmap` -/

omit h in
/-- Taking an area that was not in use and giving it back leaves the areas as they were. -/
theorem filter_areas_new {areas : List Area} {a : Area} (hsize : 0 < a.size)
    (hfits : ∀ b ∈ areas, 0 < b.size) (hapart : ∀ b ∈ areas, Apart b.base b.size a.base a.size) :
    ((a :: areas).filter fun b => decide (b.base ≠ a.base)) = areas := by
  rw [filter_cons_of_neg (by simp)]
  refine filter_eq_self.mpr fun b hb => decide_eq_true fun hbase => ?_
  have hpos := hfits b hb
  rcases hapart b hb with hle | hle <;> omega

/-- The part of `mmap` from `calloc` on. -/
theorem newMapping_keeps (hpos : 0 < mapLength)
    (hfits : raw + (mapLength + pageSize + pointerSize) ≤ wordRange) (hapart : ∀ a ∈ s.areas,
      Apart a.base a.size raw (mapLength + pageSize + pointerSize)) :
    let taken := s.calloc ⟨raw, mapLength + pageSize + pointerSize⟩
    let stored := { taken with
      mem := taken.mem.store (aligned raw - pointerSize) pointerSize raw }
    match allocRecord stored.records (aligned raw) raw mapLength with
    | some records => Keeps s { stored with records } (.ok (aligned raw))
    | none => Keeps s (stored.free raw) .enomem := by
  intro taken stored
  obtain ⟨hlow, hhigh⟩ := aligned_spec hfits
  cases halloc : allocRecord stored.records (aligned raw) raw mapLength with
  | some records =>
    obtain ⟨hnew, -⟩ := allocRecord_some halloc
    refine ⟨?_, rfl, fun a ha => ?_, fun hf => absurd hf Bool.false_ne_true⟩
    · refine Tidy.perm ?_ hnew
      exact h.newArea rfl ⟨by dsimp only; omega, hhigh⟩ hpos hfits hapart
    · rcases mem_cons.mp ha with rfl | ha
      · exact .inr hapart
      · exact .inl ha
  | none =>
    have hfree : stored.free raw = { stored with areas := s.areas } := by
      refine (free_of_mem (s := stored) (a := ⟨raw, _⟩) (mem_cons_self ..) rfl).trans ?_
      refine congrArg (fun areas => { stored with areas }) ?_
      exact filter_areas_new (a := ⟨raw, _⟩) (by dsimp only; omega)
        (fun b hb => (h.fits b hb).1) hapart
    rw [hfree]
    refine ⟨h, rfl, fun _ ha => .inl ha, fun _ => ⟨rfl, rfl, ?_⟩⟩
    · intro a ha
      -- the zeros and the pointer stand in the area that was given back
      have hap := hapart a ha
      have hstore : a.base + a.size ≤ aligned raw - pointerSize ∨
          aligned raw - pointerSize + (Bytes.leBytes pointerSize raw).length ≤ a.base := by
        rw [Bytes.length_leBytes]
        rcases hap with hle | hle <;> omega
      refine (Mem.read_write_of_disjoint hstore).trans (Mem.read_write_of_disjoint ?_)
      rw [Bytes.length_zeros]
      exact hap

theorem mmap_keeps {fixed : Bool}
    (hanswer : s.MayReturn raw (total (pageAlign length))) :
    Keeps s (s.mmap addr length fixed raw).1 (s.mmap addr length fixed raw).2 := by
  unfold mmap
  by_cases hlength : length = 0
  · rw [if_pos hlength]
    exact Keeps.refl h _
  · rw [if_neg hlength]
    dsimp only
    by_cases hwrap : pageAlign length < length
    · rw [if_pos hwrap]
      exact Keeps.refl h _
    · rw [if_neg hwrap]
      by_cases hfixed : fixed = true ∧ addr ≠ 0
      · rw [if_pos hfixed]
        by_cases hmapped : rangeIsMapped s.records addr (pageAlign length) = true
        · rw [if_pos hmapped]
          exact ⟨h, rfl, fun _ ha => .inl ha, fun hf => absurd hf Bool.false_ne_true⟩
        · rw [if_neg hmapped]
          exact Keeps.refl h _
      · rw [if_neg hfixed]
        by_cases hnull : fixed = true
        · rw [if_pos hnull]
          exact Keeps.refl h _
        · rw [if_neg hnull]
          by_cases htotal : total (pageAlign length) < pageAlign length
          · rw [if_pos htotal]
            exact Keeps.refl h _
          · rw [if_neg htotal]
            by_cases hraw : raw = 0
            · rw [if_pos hraw]
              exact Keeps.refl h _
            · rw [if_neg hraw]
              obtain ⟨hfits, hapart⟩ := hanswer hraw
              have hsize := total_eq (pageAlign_lt length) (Nat.le_of_not_lt htotal)
              rw [hsize] at hfits hapart ⊢
              have hkeeps := newMapping_keeps h (by omega) hfits hapart
              dsimp only at hkeeps
              cases halloc : allocRecord (s.calloc ⟨raw, pageAlign length + pageSize +
                  pointerSize⟩).records (aligned raw) raw (pageAlign length) with
              | some records =>
                rw [halloc] at hkeeps
                exact hkeeps
              | none =>
                rw [halloc] at hkeeps
                exact hkeeps

/-! ### Runs -/

theorem step_keeps {c : Call} (hs : s.step c = some s') :
    Keeps s s' (s.result c).2 := by
  cases c with
  | mmap addr length fixed raw =>
    unfold step at hs
    dsimp only at hs
    split at hs <;> cases hs
    next hanswer => exact mmap_keeps h hanswer
  | munmap addr length =>
    cases hs
    exact munmap_keeps h addr.toNat_lt

end

theorem run_tidy {m : Mem} {calls : List Call} (hrun : exec step { mem := m } calls = some s) :
    Tidy s.live s.areas ∧ s.badFree = false := by
  refine exec_invariant (fun s : State => Tidy s.live s.areas ∧ s.badFree = false) ?_ ?_ hrun
  · intro s c s' hinv hstep
    have hkeeps := step_keeps hinv.1 hstep
    exact ⟨hkeeps.tidy, hkeeps.badFree.trans hinv.2⟩
  · refine ⟨?_, rfl⟩
    show Tidy ((replicate maxRecords {}).filter (·.used)) []
    rw [filter_eq_nil_iff.mpr]
    · exact Tidy.nil
    · intro r hr
      rw [eq_of_mem_replicate hr]
      exact Bool.false_ne_true

theorem Tidy.sound (h : Tidy s.live s.areas) (hbad : s.badFree = false) : s.Sound :=
  ⟨h.disjoint, h.inside, h.owned, hbad⟩

/-- Along every run of `mmap` and `munmap` the mappings are disjoint and in areas in use, a call
gives an area back exactly when no mapping of it is left, and a call that fails changes nothing. -/
theorem mappings_sound {m : Mem} {calls : List Call}
    (hrun : exec step { mem := m } calls = some s) :
    s.Sound ∧ ∀ (c : Call) (s' : State), s.step c = some s' →
      s'.Sound ∧ ((s.result c).2.failed = true → Unchanged s s') ∧
      ∀ a ∈ s.areas, (a ∉ s'.areas ↔ ∀ r ∈ s'.live, r.raw ≠ a.base) := by
  obtain ⟨htidy, hbad⟩ := run_tidy hrun
  refine ⟨htidy.sound hbad, fun c s' hstep => ?_⟩
  have hkeeps := step_keeps htidy hstep
  refine ⟨hkeeps.tidy.sound (hkeeps.badFree.trans hbad), hkeeps.unchanged, fun a ha => ?_⟩
  constructor
  · intro hgone r hr hraw
    -- an area in use at the same base is the same one or apart from it
    obtain ⟨b, hb, hbase, -⟩ := hkeeps.tidy.inside r hr
    rcases hkeeps.areas b hb with hold | hnew
    · have hab : a = b := htidy.base_inj ha hold (hraw.symm.trans hbase)
      exact hgone (hab ▸ hb)
    · have hsize := (htidy.fits a ha).1
      have hsize' := (hkeeps.tidy.fits b hb).1
      rcases hnew a ha with hle | hle <;> omega
  · intro hnone hin
    obtain ⟨r, hr, hraw⟩ := hkeeps.tidy.owned a hin
    exact hnone r hr hraw

/-- Map three pages and unmap the middle one. -/
def splitCalls : List Call := [.mmap 0 12288 false 0x100000, .munmap 0x102000 4096]

theorem mappings_sound_split : ∃ s : State, exec step { mem := fun _ => 0 } splitCalls = some s ∧
      s.live.map (fun r => (r.addr, r.length)) = [(0x101000, 0x1000), (0x103000, 0x1000)] ∧
      s.Sound := by
  have hlive : (exec step { mem := fun _ => 0 } splitCalls).map
      (fun s => s.live.map fun r => (r.addr, r.length)) =
        some [(0x101000, 0x1000), (0x103000, 0x1000)] := by
    decide +kernel
  obtain ⟨s, hs, hpieces⟩ := map_eq_some_iff.mp hlive
  exact ⟨s, hs, hpieces, (mappings_sound hs).1⟩

end State

end PythonOS.Libc.Mmap
