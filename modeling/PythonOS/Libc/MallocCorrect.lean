import PythonOS.Libc.HeapRep

/-!
# PythonOS.Libc.MallocCorrect

Each function of `malloc.c` on a heap that is in order (`HeapInv`): what it
returns, and which blocks are in use afterwards.
-/

namespace PythonOS.Libc

open Lib Function List Lib.Buddy

/-! ### `order_of` -/

theorem orderOfLoop_spec (s : Nat) (fuel order : Nat) (hfuel : fuel + order = maxOrder + 1) :
    order ≤ orderOfLoop s fuel order ∧ orderOfLoop s fuel order ≤ maxOrder + 1 ∧
      (orderOfLoop s fuel order ≤ maxOrder → s ≤ 2 ^ orderOfLoop s fuel order) := by
  induction fuel generalizing order with
  | zero =>
    simp only [orderOfLoop]
    exact ⟨Nat.le_refl _, by omega, by omega⟩
  | succ fuel ih =>
    simp only [orderOfLoop]
    split
    · obtain ⟨hle, hmax, hfit⟩ := ih (order + 1) (by omega)
      exact ⟨by omega, hmax, hfit⟩
    · next hstop =>
      refine ⟨Nat.le_refl _, by omega, fun hle => ?_⟩
      exact Nat.not_lt.mp fun hlt => hstop ⟨hlt, hle⟩

theorem minOrder_le_orderOf (size : Nat) : minOrder ≤ orderOf size :=
  (orderOfLoop_spec _ numOrders minOrder rfl).1

/-- A block of the computed order holds the header and the requested bytes, if
adding the two did not wrap. -/
theorem orderOf_fits {size : Nat} (hle : orderOf size ≤ maxOrder)
    (hnowrap : size + headerSize < 2 ^ 64) : size + headerSize ≤ 2 ^ orderOf size := by
  have h := (orderOfLoop_spec ((size + headerSize) % 2 ^ 64) numOrders minOrder rfl).2.2 hle
  rwa [orderOf, Nat.mod_eq_of_lt hnowrap] at *

namespace Heap

/-! ### The search -/

theorem findOrder_some {h : Heap} {n o k : Nat} (hf : h.findOrder n o = some k) :
    o ≤ k ∧ k < o + n ∧ h.freeLists (k - minOrder) ≠ null := by
  induction n generalizing o with
  | zero => exact absurd hf (by simp [findOrder])
  | succ n ih =>
    rw [findOrder] at hf
    split at hf
    · next hne =>
      cases hf
      exact ⟨Nat.le_refl _, by omega, hne⟩
    · obtain ⟨hle, hlt, hne⟩ := ih hf
      exact ⟨by omega, by omega, hne⟩

theorem findOrder_none {h : Heap} {n o : Nat} (hf : h.findOrder n o = none) :
    ∀ k, o ≤ k → k < o + n → h.freeLists (k - minOrder) = null := by
  induction n generalizing o with
  | zero => exact fun k hle hlt => absurd hlt (by omega)
  | succ n ih =>
    rw [findOrder] at hf
    split at hf
    · cases hf
    · next heq =>
      intro k hle hlt
      rcases Nat.eq_or_lt_of_le hle with rfl | hlt'
      · exact not_not.mp heq
      · exact ih hf k hlt' (by omega)

/-! ### The static flag -/

@[simp] theorem freeListAdd_heapInitialized (h : Heap) (blk o : Nat) :
    (h.freeListAdd blk o).heapInitialized = h.heapInitialized := by
  simp only [freeListAdd]
  split <;> rfl

@[simp] theorem freeListRemove_heapInitialized (h : Heap) (blk o : Nat) :
    (h.freeListRemove blk o).heapInitialized = h.heapInitialized := by
  simp only [freeListRemove, set_heapInitialized]
  split <;> split <;> rfl

@[simp] theorem splitDown_heapInitialized (h : Heap) (blk need n : Nat) :
    (h.splitDown blk need n).heapInitialized = h.heapInitialized := by
  induction n generalizing h with
  | zero => rfl
  | succ n ih => simp [splitDown, ih]

@[simp] theorem coalesce_heapInitialized (base : Nat) (h : Heap) (n blk o : Nat) :
    (h.coalesce base n blk o).2.2.heapInitialized = h.heapInitialized := by
  induction n generalizing h blk o with
  | zero => rfl
  | succ n ih =>
    simp only [coalesce]
    split
    · rfl
    · simp [ih]

end Heap

/-- A heap in order: no block is being worked on, and no two buddies are free. -/
structure HeapInv (base : Nat) (h : Heap) (L : Layout) : Prop where
  rep : Rep base h L fun _ => False
  noBuddies : NoFreeBuddies maxOrder L
  init : h.heapInitialized = true

section

variable {base : Nat} (hb : HeapBase base)

include hb

/-! ### `heap_init` -/

theorem heapInit_get (h : Heap) (f : Field) :
    (h.heapInit base).get base f = match f with
      | .magic => magicFree
      | .order => maxOrder
      | .prevFree => 0
      | .nextFree => 0 := by
  have hal := hb.aligned
  show ((((Heap.set _ base .magic magicFree).set base .order maxOrder).set base .prevFree
    null).set base .nextFree null).get base f = _
  rw [Heap.get_set hal hal (by decide), Heap.get_set hal hal (by decide),
    Heap.get_set hal hal (by decide), Heap.get_set hal hal (by decide)]
  cases f <;> simp [null]

theorem heapInit_inv (h : Heap) : HeapInv base (h.heapInit base) (single maxOrder) := by
  have hsingle : ∀ {a b}, single maxOrder a = some b → a = 0 ∧ b = ⟨maxOrder, true⟩ := by
    intro a b hab
    rw [single] at hab
    split at hab
    · next ha => exact ⟨ha, (Option.some.inj hab).symm⟩
    · cases hab
  refine ⟨⟨tiling_single (by decide), @fun a b hab _ => ?_, fun o hlo hhi => ?_⟩, ?_, rfl⟩
  · obtain ⟨rfl, rfl⟩ := hsingle hab
    exact ⟨heapInit_get hb h .magic, heapInit_get hb h .order⟩
  · by_cases ho : o = maxOrder
    · subst ho
      refine ⟨[base], ⟨rfl, ⟨heapInit_get hb h .prevFree, heapInit_get hb h .nextFree, trivial⟩,
        nodup_singleton _⟩, fun x => ?_⟩
      rw [mem_singleton]
      constructor
      · rintro rfl
        exact ⟨0, rfl, rfl⟩
      · rintro ⟨a, rfl, ha⟩
        rw [(hsingle ha).1]
        rfl
    · refine ⟨[], ⟨?_, trivial, nodup_nil⟩, fun x => ?_⟩
      · have hne : o - minOrder ≠ numOrders - 1 := by
          have : minOrder = 5 := rfl
          have : maxOrder = 29 := rfl
          have : numOrders = 25 := rfl
          omega
        have hlt : o - minOrder < numOrders := by
          have : minOrder = 5 := rfl
          have : maxOrder = 29 := rfl
          have : numOrders = 25 := rfl
          omega
        show update _ _ _ _ = 0
        rw [update_of_ne hne]
        exact if_pos hlt
      · simp only [not_mem_nil, false_iff, not_exists, not_and]
        rintro a - ha
        exact ho (congrArg Block.order (hsingle ha).2)
  · intro a o ho ha
    exact absurd (congrArg Block.order (hsingle ha).2) (Nat.ne_of_lt ho)

/-! ### `malloc` -/

variable {L : Layout} {h : Heap}

/-- One round of the split loop: the upper half of the block goes on its list. -/
theorem split_rep {a k : Nat} (hr : Rep base h L (· = a))
    (hnb : NoFreeBuddies maxOrder L) (ha : L a = some ⟨k + 1, false⟩) (hlo : minOrder ≤ k) :
    ∃ L', Rep base (((((h.set (base + a + 2 ^ k) .magic magicFree).set (base + a + 2 ^ k) .order
          k).set (base + a + 2 ^ k) .nextFree null).set (base + a + 2 ^ k) .prevFree
          null).freeListAdd (base + a + 2 ^ k) k) L' (· = a) ∧
      NoFreeBuddies maxOrder L' ∧ L' a = some ⟨k, false⟩ ∧
      ∀ x j, x ≠ a → (L' x = some ⟨j, false⟩ ↔ L x = some ⟨j, false⟩) := by
  have hpos : 0 < 2 ^ k := Nat.two_pow_pos k
  set c := a + 2 ^ k with hc
  have hca : c ≠ a := by omega
  have hcL : L c = none := by
    cases hLc : L c with
    | none => rfl
    | some b =>
      have hdis := hr.tiling.disjoint ha hLc (by omega)
      rw [Nat.pow_succ] at hdis
      omega
  -- first only redraw the layout: two used halves
  set L1 := update (update L a (some ⟨k, false⟩)) c (some ⟨k, false⟩) with hL1
  have ht1 : Tiling minOrder maxOrder L1 := hr.tiling.split ha hlo false false
  have hL1a : L1 a = some ⟨k, false⟩ := by
    rw [hL1, update_of_ne (Ne.symm hca), update_self]
  have hL1c : L1 c = some ⟨k, false⟩ := update_self ..
  have hL1x : ∀ x, x ≠ a → x ≠ c → L1 x = L x := fun x hxa hxc => by
    rw [hL1, update_of_ne hxc, update_of_ne hxa]
  have hfree : ∀ x j, L1 x = some ⟨j, true⟩ ↔ L x = some ⟨j, true⟩ := by
    intro x j
    by_cases hxa : x = a
    · rw [hxa, hL1a, ha]
      simp
    · by_cases hxc : x = c
      · rw [hxc, hL1c, hcL]
        simp
      · rw [hL1x x hxa hxc]
  have hr1 : Rep base h L1 fun x => x = a ∨ x = c := by
    refine hr.relayout ht1 hfree fun x b hx hnot => ?_
    obtain ⟨hxa, hxc⟩ := not_or.mp hnot
    exact ⟨by rw [← hL1x x hxa hxc, hx], hxa⟩
  -- then write the new header
  have hk : k < 256 ^ Field.width .order := by
    have hle : k + 1 ≤ 29 := hr.tiling.order_le ha
    exact Nat.lt_of_lt_of_le (by omega) (by decide : 29 ≤ 256 ^ Field.width .order)
  have hr2 := ((((hr1.set hb hL1c (f := .magic) (v := magicFree) (by decide)).set hb hL1c
    (f := .order) (v := k) hk).set hb hL1c (f := .nextFree) (v := null) (by decide)).set hb hL1c
    (f := .prevFree) (v := null) (by decide))
  have hal := (Rep.addr hb ht1 hL1c).1
  rw [show base + a + 2 ^ k = base + c by omega]
  have hr3 := hr2.add hb hL1c
    (by
      rw [Heap.get_set hal hal (by decide), Heap.get_set hal hal (by decide),
        Heap.get_set hal hal hk, Heap.get_set hal hal (by decide)]
      simp)
    (by
      rw [Heap.get_set hal hal (by decide), Heap.get_set hal hal (by decide),
        Heap.get_set hal hal hk]
      simp)
  have hL2a : update L1 c (some ⟨k, true⟩) a = some ⟨k, false⟩ := by
    rw [update_of_ne (Ne.symm hca), hL1a]
  refine ⟨update L1 c (some ⟨k, true⟩), ?_, ?_, hL2a, fun x j hxa => ?_⟩
  · refine hr3.mono ?_
    rintro x ⟨hx, hxc⟩
    simpa [hxc] using hx
  · refine hnb.insert (c := c) (o := k) (fun x j hx => ?_) ?_
    · by_cases hxc : x = c
      · subst hxc
        exact .inr ⟨rfl, by simpa using hx.symm⟩
      · rw [update_of_ne hxc] at hx
        exact .inl ((hfree x j).mp hx)
    · have hal' : 2 ^ (k + 1) ∣ a := hr.tiling.aligned ha
      have hbc : buddy c k = a := by rw [hc, ← buddy_of_dvd hal', buddy_buddy]
      rw [hbc, hL2a]
      simp
  · by_cases hxc : x = c
    · rw [hxc, update_self, hcL]
      simp
    · rw [update_of_ne hxc, hL1x x hxa hxc]

/-- The split loop leaves a used block of order `need`. -/
theorem splitDown_rep {a need n : Nat} (hlo : minOrder ≤ need)
    (hr : Rep base h L (· = a)) (hnb : NoFreeBuddies maxOrder L)
    (ha : L a = some ⟨need + n, false⟩) :
    ∃ L', Rep base (h.splitDown (base + a) need n) L' (· = a) ∧ NoFreeBuddies maxOrder L' ∧
      L' a = some ⟨need, false⟩ ∧
      ∀ x j, x ≠ a → (L' x = some ⟨j, false⟩ ↔ L x = some ⟨j, false⟩) := by
  induction n generalizing h L with
  | zero => exact ⟨L, hr, hnb, ha, fun _ _ _ => .rfl⟩
  | succ n ih =>
    obtain ⟨L1, hr1, hnb1, ha1, hused1⟩ := split_rep hb (k := need + n) hr hnb ha
      (Nat.le_trans hlo (Nat.le_add_right need n))
    obtain ⟨L2, hr2, hnb2, ha2, hused2⟩ := ih hr1 hnb1 ha1
    exact ⟨L2, hr2, hnb2, ha2, fun x j hx => (hused2 x j hx).trans (hused1 x j hx)⟩

/-- A request that `malloc` finds a block for. -/
def Meetable (h : Heap) (size : Nat) : Prop :=
  size ≠ 0 ∧ ∃ o, orderOf size ≤ o ∧ o ≤ maxOrder ∧ h.freeLists (o - minOrder) ≠ null

/-- What a successful `malloc` has done: the block at offset `a`, which was not
in use, is now in use with the order of the request, and the other blocks in
use are as they were. -/
structure Allocated (base : Nat) (L : Layout) (size : Nat) (h' : Heap) (a : Nat)
    (L' : Layout) : Prop where
  inv : HeapInv base h' L'
  order_le : orderOf size ≤ maxOrder
  block : L' a = some ⟨orderOf size, false⟩
  fresh : ∀ j, L a ≠ some ⟨j, false⟩
  others : ∀ x j, x ≠ a → (L' x = some ⟨j, false⟩ ↔ L x = some ⟨j, false⟩)

/-- Taking a free block of order `found`, splitting it and marking it used. -/
theorem take_spec (hi : HeapInv base h L) {size found a : Nat}
    (ha : L a = some ⟨found, true⟩) (hge : orderOf size ≤ found) :
    ∃ L', Allocated base L size
      (((((h.freeListRemove (base + a) found).splitDown (base + a) (orderOf size)
        (found - orderOf size)).set (base + a) .magic magicUsed).set (base + a) .order
        (orderOf size))) a L' := by
  have hmax : found ≤ maxOrder := hi.rep.tiling.order_le ha
  obtain ⟨hr1, -⟩ := hi.rep.remove hb ha
  have hnb1 : NoFreeBuddies maxOrder (update L a (some ⟨found, false⟩)) := by
    refine hi.noBuddies.of_subset fun x k hx => ?_
    by_cases hxa : x = a
    · subst hxa
      rw [update_self] at hx
      cases hx
    · rwa [update_of_ne hxa] at hx
  have ha1 : update L a (some ⟨found, false⟩) a =
      some ⟨orderOf size + (found - orderOf size), false⟩ := by
    rw [update_self, Nat.add_sub_cancel' hge]
  obtain ⟨L', hr2, hnb2, ha2, hused⟩ := splitDown_rep hb (minOrder_le_orderOf size)
    (hr1.mono (by simp)) hnb1 ha1
  have hv : orderOf size < 256 ^ Field.width .order :=
    Nat.lt_of_le_of_lt (Nat.le_trans hge hmax) (by decide)
  have hr3 := (hr2.set hb ha2 (f := .magic) (v := magicUsed) (by decide)).set hb ha2
    (f := .order) (v := orderOf size) hv
  have hal := (Rep.addr hb hr2.tiling ha2).1
  refine ⟨L', ⟨?_, hnb2, by simp [hi.init]⟩, Nat.le_trans hge hmax, ha2, fun j hj => ?_,
    fun x j hxa => ?_⟩
  · refine hr3.plug ha2 ?_ ?_ (by simp)
    · rw [Heap.get_set hal hal hv, Heap.get_set hal hal (by decide)]
      simp [blockMagic]
    · rw [Heap.get_set hal hal hv]
      simp
  · rw [ha] at hj
    cases hj
  · rw [hused x j hxa, update_of_ne hxa]

theorem malloc_spec (hi : HeapInv base (h.ensureInit base) L) (size : Nat) :
    (¬ Meetable (h.ensureInit base) size ∧ h.malloc base size = (null, h.ensureInit base)) ∨
      (Meetable (h.ensureInit base) size ∧
        ∃ h' a L', h.malloc base size = (base + a + headerSize, h') ∧
          Allocated base L size h' a L') := by
  have hlo := minOrder_le_orderOf size
  unfold Heap.malloc
  by_cases h0 : size = 0
  · rw [if_pos h0]
    exact .inl ⟨fun hm => hm.1 h0, rfl⟩
  · rw [if_neg h0]
    by_cases hbig : orderOf size > maxOrder
    · rw [if_pos hbig]
      refine .inl ⟨?_, rfl⟩
      rintro ⟨-, o, hle, hmax, -⟩
      omega
    · rw [if_neg hbig]
      cases hf : (h.ensureInit base).findOrder (maxOrder + 1 - orderOf size) (orderOf size) with
      | none =>
        refine .inl ⟨?_, rfl⟩
        rintro ⟨-, o, hle, hmax, hne⟩
        exact hne (Heap.findOrder_none hf o hle (by omega))
      | some found =>
        obtain ⟨hge, hlt, hne⟩ := Heap.findOrder_some hf
        have hmax : found ≤ maxOrder := by omega
        refine .inr ⟨⟨h0, found, hge, hmax, hne⟩, ?_⟩
        rcases hi.rep.head_cases (o := found) (by omega) hmax with hnull | ⟨a, hhead, ha⟩
        · exact absurd hnull hne
        · obtain ⟨L', hL'⟩ := take_spec hb hi ha hge
          exact ⟨_, a, L', by simp only [hhead], hL'⟩

/-! ### `free` -/

omit hb in
theorem buddyOf_eq (ht : Tiling minOrder maxOrder L) {a : Nat} {b : Block}
    (ha : L a = some b) (ho : b.order < maxOrder) :
    buddyOf base (base + a) b.order = base + buddy a b.order := by
  have hin := ht.buddy_inside ha ho
  have hpos : 0 < 2 ^ b.order := Nat.two_pow_pos _
  have hsize : heapSize = 2 ^ maxOrder := by decide
  have hlt : buddy a b.order < heapSize := by omega
  rw [buddyOf, Nat.add_sub_cancel_left]
  exact if_neg (Nat.not_le.mpr hlt)

/-- The state of the coalescing loop: the block at `a` is out of step, everything
else is in order. -/
structure Freeing (base : Nat) (h : Heap) (L : Layout) (a o : Nat) : Prop where
  rep : Rep base h L (· = a)
  noBuddies : NoFreeBuddies maxOrder L
  block : L a = some ⟨o, false⟩
  order : h.get (base + a) .order = o

/-- One round of the coalescing loop: the buddy leaves its list and the two
blocks become one. -/
theorem merge_spec {a o : Nat} (hs : Freeing base h L a o)
    (ho : o < maxOrder) (hbuddy : L (buddy a o) = some ⟨o, true⟩) :
    ∃ L', Freeing base ((h.freeListRemove (base + buddy a o) o).set (base + min (buddy a o) a)
        .order (o + 1)) L' (min (buddy a o) a) (o + 1) ∧
      ∀ x j, x ≠ min (buddy a o) a ∧ L' x = some ⟨j, false⟩ ↔ x ≠ a ∧ L x = some ⟨j, false⟩ := by
  have haligned : 2 ^ o ∣ a := hs.rep.tiling.aligned hs.block
  obtain ⟨hdvd, hpair⟩ := buddy_pair haligned
  set lo := min (buddy a o) a with hlo
  -- both halves are used once the buddy has left its list
  obtain ⟨hr1, -⟩ := hs.rep.remove hb hbuddy
  set L1 := update L (buddy a o) (some ⟨o, false⟩) with hL1
  have hhalf : ∀ x, x = a ∨ x = buddy a o → L1 x = some ⟨o, false⟩ := by
    intro x hx
    by_cases hxb : x = buddy a o
    · rw [hxb, hL1, update_self]
    · rw [hL1, update_of_ne hxb, hx.resolve_right hxb, hs.block]
  have hsame : ∀ x, x = a ∨ x = buddy a o ↔ x = lo ∨ x = lo + 2 ^ o := by
    rcases hpair with ⟨hl, hu⟩ | ⟨hl, hu⟩ <;> rw [hl] <;> omega
  set L2 := update (update L1 (lo + 2 ^ o) none) lo (some ⟨o + 1, false⟩) with hL2
  have ht2 : Tiling minOrder maxOrder L2 :=
    hr1.tiling.merge (hhalf lo ((hsame lo).mpr (.inl rfl)))
      (hhalf _ ((hsame _).mpr (.inr rfl))) hdvd ho false
  have hL2lo : L2 lo = some ⟨o + 1, false⟩ := update_self ..
  have hL2hi : L2 (lo + 2 ^ o) = none := by
    rw [hL2, update_of_ne (by omega), update_self]
  have hL2x : ∀ x, x ≠ lo → x ≠ lo + 2 ^ o → L2 x = L x := by
    intro x hxl hxu
    have hxb : x ≠ buddy a o := fun hx => ((hsame x).mp (.inr hx)).elim hxl hxu
    rw [hL2, update_of_ne hxl, update_of_ne hxu, hL1, update_of_ne hxb]
  have hfree : ∀ x j, L2 x = some ⟨j, true⟩ ↔ L1 x = some ⟨j, true⟩ := by
    intro x j
    by_cases hxl : x = lo
    · rw [hxl, hL2lo, hhalf lo ((hsame lo).mpr (.inl rfl))]
      simp
    · by_cases hxu : x = lo + 2 ^ o
      · rw [hxu, hL2hi, hhalf _ ((hsame _).mpr (.inr rfl))]
        simp
      · rw [hL2, update_of_ne hxl, update_of_ne hxu]
  have hr2 : Rep base (h.freeListRemove (base + buddy a o) o) L2 (· = lo) := by
    refine hr1.relayout ht2 hfree fun x b hx hxl => ?_
    have hxu : x ≠ lo + 2 ^ o := by
      rintro rfl
      rw [hL2hi] at hx
      cases hx
    refine ⟨?_, fun hxab => ((hsame x).mp hxab).elim hxl hxu⟩
    rw [← hx, hL2, update_of_ne hxl, update_of_ne hxu]
  have hv : o + 1 < 256 ^ Field.width .order :=
    Nat.lt_of_le_of_lt ho (by decide)
  have hal := (Rep.addr hb ht2 hL2lo).1
  refine ⟨L2, ⟨(hr2.set hb hL2lo hv).mono (by simp), ?_, hL2lo, ?_⟩, fun x j => ?_⟩
  · refine hs.noBuddies.of_subset fun x j hx => ?_
    have hx1 := (hfree x j).mp hx
    by_cases hxb : x = buddy a o
    · rw [hhalf x (.inr hxb)] at hx1
      cases hx1
    · rwa [hL1, update_of_ne hxb] at hx1
  · rw [Heap.get_set hal hal hv]
    simp
  · by_cases hxs : x = a ∨ x = buddy a o
    · -- neither half is a used block apart from the one being freed
      have hleft : ¬ (x ≠ lo ∧ L2 x = some ⟨j, false⟩) := by
        rintro ⟨hxl, hx⟩
        rw [((hsame x).mp hxs).resolve_left hxl, hL2hi] at hx
        cases hx
      have hright : ¬ (x ≠ a ∧ L x = some ⟨j, false⟩) := by
        rintro ⟨hxa, hx⟩
        rw [hxs.resolve_left hxa, hbuddy] at hx
        cases hx
      exact iff_of_false hleft hright
    · have hxl := not_or.mp fun hx => hxs ((hsame x).mpr hx)
      rw [hL2x x hxl.1 hxl.2]
      exact ⟨fun hx => ⟨fun hxa => hxs (.inl hxa), hx.2⟩, fun hx => ⟨hxl.1, hx.2⟩⟩

/-- The coalescing loop ends with a block whose buddy is not a free block of the
same order. -/
theorem coalesce_spec {a o n : Nat} (hs : Freeing base h L a o) (hn : o + n = maxOrder) :
    ∃ a' o' h' L', h.coalesce base n (base + a) o = (base + a', o', h') ∧
      Freeing base h' L' a' o' ∧ L' (buddy a' o') ≠ some ⟨o', true⟩ ∧
      ∀ x j, x ≠ a' ∧ L' x = some ⟨j, false⟩ ↔ x ≠ a ∧ L x = some ⟨j, false⟩ := by
  induction n generalizing h L a o with
  | zero =>
    refine ⟨a, o, h, L, rfl, hs, fun hfree => ?_, fun _ _ => .rfl⟩
    -- the whole region has no buddy
    obtain rfl : o = maxOrder := hn
    have hin := hs.rep.tiling.inside hs.block
    have hin' := hs.rep.tiling.inside hfree
    simp only at hin hin'
    have heq : buddy a maxOrder = a := by omega
    rw [heq, hs.block] at hfree
    cases hfree
  | succ n ih =>
    have ho : o < maxOrder := by omega
    have hbo : buddyOf base (base + a) o = base + buddy a o :=
      buddyOf_eq hs.rep.tiling hs.block ho
    obtain ⟨b, hLb, hble⟩ := hs.rep.tiling.buddy_block hs.block ho
    have hne : buddy a o ≠ a := buddy_ne (hs.rep.tiling.aligned hs.block)
    obtain ⟨hmagic, horder⟩ := hs.rep.header hLb hne
    have hnull : base + buddy a o ≠ null := by
      have hpos := hb.pos
      simp only [null]
      omega
    simp only [Heap.coalesce, hbo]
    by_cases hfree : b = ⟨o, true⟩
    · subst hfree
      have hgo : ¬ (base + buddy a o = null ∨ h.get (base + buddy a o) .magic ≠ magicFree ∨
          h.get (base + buddy a o) .order ≠ o) := by
        simp [hnull, hmagic, horder, blockMagic]
      have hmin : (if base + buddy a o < base + a then base + buddy a o else base + a) =
          base + min (buddy a o) a := by
        split <;> omega
      rw [if_neg hgo, hmin]
      obtain ⟨L1, hs1, hused1⟩ := merge_spec hb hs ho hLb
      obtain ⟨a', o', h', L', heq, hs', hnb', hused'⟩ := ih hs1 (by omega)
      exact ⟨a', o', h', L', heq, hs', hnb', fun x j => (hused' x j).trans (hused1 x j)⟩
    · have hstop : base + buddy a o = null ∨ h.get (base + buddy a o) .magic ≠ magicFree ∨
          h.get (base + buddy a o) .order ≠ o := by
        by_contra hcon
        simp only [not_or, not_not] at hcon
        have hf := eq_true_of_blockMagic (hmagic.symm.trans hcon.2.1)
        have ho' := horder.symm.trans hcon.2.2
        exact hfree (by rw [← hf, ← ho'])
      rw [if_pos hstop]
      refine ⟨a, o, h, L, rfl, hs, fun hL => ?_, fun _ _ => .rfl⟩
      rw [hLb] at hL
      exact hfree (Option.some.inj hL)

/-- `free` of a block in use: it is in use no more, all others still are. -/
theorem free_spec (hi : HeapInv base h L) {a o : Nat} (ha : L a = some ⟨o, false⟩) :
    ∃ L', HeapInv base (h.free base (base + a + headerSize)) L' ∧
      ∀ x j, L' x = some ⟨j, false⟩ ↔ x ≠ a ∧ L x = some ⟨j, false⟩ := by
  obtain ⟨hal, -, -⟩ := Rep.addr hb hi.rep.tiling ha
  obtain ⟨hmagic, horder⟩ := hi.rep.header ha id
  have hs : Freeing base (h.set (base + a) .magic magicFree) L a o := by
    refine ⟨(hi.rep.set hb ha (by decide)).mono (by simp), hi.noBuddies, ha, ?_⟩
    rw [Heap.get_set hal hal (by decide)]
    simpa using horder
  have hle : o ≤ maxOrder := hi.rep.tiling.order_le ha
  obtain ⟨a', o', h', L', heq, hs', hnb', hused⟩ :=
    coalesce_spec hb (n := maxOrder - o) hs (by omega)
  have hfree : h.free base (base + a + headerSize) =
      (h'.set (base + a') .magic magicFree).freeListAdd (base + a') o' := by
    have hptr : base + a + headerSize ≠ null := by simp [null, headerSize]
    have hused : h.get (base + a) .magic = magicUsed := by simpa [blockMagic] using hmagic
    simp only [Heap.free, if_neg hptr, Nat.add_sub_cancel, hused, ne_eq, not_true_eq_false,
      if_false, hs.order, heq]
  have hal' := (Rep.addr hb hs'.rep.tiling hs'.block).1
  have hr := (hs'.rep.set hb hs'.block (f := .magic) (v := magicFree) (by decide)).add hb hs'.block
    (by rw [Heap.get_set hal' hal' (by decide)]; simp)
    (by rw [Heap.get_set hal' hal' (by decide)]; simpa using hs'.order)
  refine ⟨update L' a' (some ⟨o', true⟩), ⟨?_, ?_, ?_⟩, fun x j => ?_⟩
  · rw [hfree]
    exact hr.mono (by simp)
  · refine hs'.noBuddies.insert (c := a') (o := o') (fun x k hx => ?_) ?_
    · by_cases hxa : x = a'
      · subst hxa
        exact .inr ⟨rfl, by simpa using hx.symm⟩
      · rw [update_of_ne hxa] at hx
        exact .inl hx
    · rw [update_of_ne (buddy_ne (hs'.rep.tiling.aligned hs'.block))]
      exact hnb'
  · have hinit : h'.heapInitialized = true := by
      have := Heap.coalesce_heapInitialized base (h.set (base + a) .magic magicFree)
        (maxOrder - o) (base + a) o
      rw [heq] at this
      simpa [hi.init] using this
    rw [hfree]
    simpa using hinit
  · rw [← hused x j]
    by_cases hxa : x = a' <;> simp [hxa]

end

end PythonOS.Libc
