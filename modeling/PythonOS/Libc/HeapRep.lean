import PythonOS.Lib.Buddy
import PythonOS.Lib.DoublyLinked
import PythonOS.Libc.Malloc

/-!
# PythonOS.Libc.HeapRep

What the bytes of the C heap stand for: a buddy tiling of the region, with a
header at the start of every block and the free blocks of each order chained
into that order's list.

`Rep base h L hole` relates memory to a layout. While `malloc` and `free` work
on a block its header is out of step with the layout; the blocks for which that
is allowed are the `hole`. Each field write and each list operation of
`malloc.c` is one lemma about `Rep`, and the loops are inductions over them.
-/

namespace PythonOS.Libc

open Lib Function List Lib.Buddy

/-! ### Header fields

Block addresses are multiples of 32, so the fields of two headers never
overlap. -/

namespace Heap

variable {h : Heap} {x y v : Nat}

theorem get_set (hx : x % 32 = 0) (hy : y % 32 = 0) {g : Field} (hv : v < 256 ^ g.width)
    (f : Field) : (h.set x g v).get y f = if y = x ∧ f = g then v else h.get y f := by
  by_cases hyx : y = x
  · subst hyx
    by_cases hfg : f = g
    · subst hfg
      rw [if_pos ⟨rfl, rfl⟩]
      exact Mem.load_store_self hv
    · rw [if_neg fun hand => hfg hand.2]
      refine Mem.load_store_of_disjoint ?_
      cases f <;> cases g <;> simp [Field.offset, Field.width] at hfg ⊢
  · rw [if_neg fun hand => hyx hand.1]
    refine Mem.load_store_of_disjoint ?_
    have hf : f.offset + f.width ≤ 24 := by cases f <;> decide
    have hg : g.offset + g.width ≤ 24 := by cases g <;> decide
    omega

@[simp] theorem set_freeLists (f : Field) : (h.set x f v).freeLists = h.freeLists := rfl

@[simp] theorem set_heapInitialized (f : Field) :
    (h.set x f v).heapInitialized = h.heapInitialized := rfl

theorem get_ptr_lt (h : Heap) (x : Nat) : h.get x .nextFree < 2 ^ 64 ∧ h.get x .prevFree < 2 ^ 64 :=
  ⟨Mem.load_lt _ _ 8, Mem.load_lt _ _ 8⟩

/-- The header fields after `free_list_add`. -/
theorem freeListAdd_get {blk o : Nat} (hb : blk % 32 = 0) (hblk : blk < 2 ^ 64)
    (hhead : h.freeLists (o - minOrder) % 32 = 0) (hlt : h.freeLists (o - minOrder) < 2 ^ 64)
    (hne : blk ≠ h.freeLists (o - minOrder)) (hy : y % 32 = 0) (hy0 : y ≠ 0) (f : Field) :
    (h.freeListAdd blk o).get y f = match f with
      | .magic => h.get y .magic
      | .order => h.get y .order
      | .prevFree =>
        if y = blk then 0 else if y = h.freeLists (o - minOrder) then blk else h.get y .prevFree
      | .nextFree => if y = blk then h.freeLists (o - minOrder) else h.get y .nextFree := by
  have hget : (h.freeListAdd blk o).get y f =
      (if h.freeLists (o - minOrder) ≠ null then
        ((h.set blk .prevFree null).set blk .nextFree (h.freeLists (o - minOrder))).set
          (h.freeLists (o - minOrder)) .prevFree blk
      else (h.set blk .prevFree null).set blk .nextFree (h.freeLists (o - minOrder))).get y f := by
    rfl
  rw [hget]
  have h0 : null < 256 ^ Field.width .prevFree := by decide
  split
  · rw [get_set hhead hy hblk, get_set hb hy hlt, get_set hb hy h0]
    cases f <;> simp [null]
    split_ifs <;> simp_all
  · next hnull =>
    have hnull : h.freeLists (o - minOrder) = 0 := not_not.mp hnull
    rw [get_set hb hy hlt, get_set hb hy h0, hnull]
    cases f <;> simp [null, hy0]

/-- The header fields after `free_list_remove`. -/
theorem freeListRemove_get {blk o : Nat} (hb : blk % 32 = 0) (hblk0 : blk ≠ 0)
    (hp : h.get blk .prevFree % 32 = 0) (hn : h.get blk .nextFree % 32 = 0)
    (hpb : h.get blk .prevFree ≠ blk) (hy : y % 32 = 0) (hy0 : y ≠ 0)
    (f : Field) :
    (h.freeListRemove blk o).get y f = match f with
      | .magic => h.get y .magic
      | .order => h.get y .order
      | .prevFree =>
        if y = blk then 0 else if y = h.get blk .nextFree then h.get blk .prevFree
        else h.get y .prevFree
      | .nextFree =>
        if y = blk then 0 else if y = h.get blk .prevFree then h.get blk .nextFree
        else h.get y .nextFree := by
  have h0 : null < 256 ^ Field.width .prevFree := by decide
  have h0' : null < 256 ^ Field.width .nextFree := by decide
  obtain ⟨hnlt, hplt⟩ := h.get_ptr_lt blk
  set p := h.get blk .prevFree with hpdef
  set n := h.get blk .nextFree with hndef
  -- after the first `if`: the predecessor's link, or the list's head
  set h1 : Heap := if p ≠ null then h.set p .nextFree n
    else { h with freeLists := update h.freeLists (o - minOrder) n } with hh1
  have hget1 : ∀ z, z % 32 = 0 → z ≠ 0 → ∀ f, h1.get z f =
      if z = p ∧ f = .nextFree then n else h.get z f := by
    intro z hz hz0 f
    rw [hh1]
    split
    · exact get_set hp hz hnlt f
    · next hnull =>
      rw [if_neg fun hand => hz0 (hand.1.trans (not_not.mp hnull))]
      rfl
  have hn1 : h1.get blk .nextFree = n := by
    rw [hget1 blk hb hblk0, if_neg fun hand => hpb hand.1.symm]
  have hp1 : h1.get blk .prevFree = p := by
    rw [hget1 blk hb hblk0, if_neg fun hand => hpb hand.1.symm]
  set h2 : Heap := if n ≠ null then h1.set n .prevFree p else h1 with hh2
  have hget2 : ∀ f, h2.get y f = if y = n ∧ f = .prevFree then p else h1.get y f := by
    intro f
    rw [hh2]
    split
    · exact get_set hn hy hplt f
    · next hnull => rw [if_neg fun hand => hy0 (hand.1.trans (not_not.mp hnull))]
  have heq : h.freeListRemove blk o = (h2.set blk .nextFree null).set blk .prevFree null := by
    show ((if h1.get blk .nextFree ≠ null then
      h1.set (h1.get blk .nextFree) .prevFree (h1.get blk .prevFree) else h1).set blk .nextFree
        null).set blk .prevFree null = _
    rw [hn1, hp1]
  rw [heq, get_set hb hy h0, get_set hb hy h0', hget2, hget1 y hy hy0]
  cases f <;> simp [null]

theorem freeListRemove_freeLists {blk o : Nat} (i : Nat) :
    (h.freeListRemove blk o).freeLists i =
      if i = o - minOrder ∧ h.get blk .prevFree = null then h.get blk .nextFree
      else h.freeLists i := by
  have hlast : ∀ h' : Heap, ∀ n p : Nat,
      (((if n ≠ null then h'.set n .prevFree p else h').set blk .nextFree null).set blk
        .prevFree null).freeLists i = h'.freeLists i := by
    intro h' n p
    split <;> rfl
  rw [freeListRemove, hlast]
  by_cases hp : h.get blk .prevFree = null
  · rw [if_neg (by simpa using hp)]
    by_cases hi : i = o - minOrder
    · simp [hi, hp]
    · simp [hi]
  · rw [if_pos hp, if_neg fun hand => hp hand.2, set_freeLists]

end Heap

/-! ### The representation -/

/-- Where the linker may put `_heap`. -/
structure HeapBase (base : Nat) : Prop where
  pos : 0 < base
  aligned : base % 32 = 0
  fits : base + 2 ^ maxOrder ≤ 2 ^ 64

/-- `xs` are the blocks on the free list of order `o`, from its head on. -/
structure FreeList (h : Heap) (o : Nat) (xs : List Nat) : Prop where
  head : h.freeLists (o - minOrder) = xs.head?.getD 0
  linked : Linked (h.get · .nextFree) (h.get · .prevFree) 0 xs
  nodup : xs.Nodup

/-- The magic number of a free or used block. -/
def blockMagic (isFree : Bool) : Nat := if isFree then magicFree else magicUsed

theorem eq_true_of_blockMagic {f : Bool} (h : blockMagic f = magicFree) : f = true := by
  cases f with
  | false => exact absurd h (by decide)
  | true => rfl

/-- The heap `h` holds the blocks of `L`. -/
structure Rep (base : Nat) (h : Heap) (L : Layout) (hole : Nat → Prop) : Prop where
  tiling : Tiling minOrder maxOrder L
  header : ∀ {a b}, L a = some b → ¬ hole a →
    h.get (base + a) .magic = blockMagic b.isFree ∧ h.get (base + a) .order = b.order
  list : ∀ o, minOrder ≤ o → o ≤ maxOrder →
    ∃ xs, FreeList h o xs ∧ ∀ x, x ∈ xs ↔ ∃ a, x = base + a ∧ L a = some ⟨o, true⟩

namespace Rep

variable {base : Nat} {h h' : Heap} {L L' : Layout} {hole hole' : Nat → Prop} {a o : Nat}

/-- Blocks start at proper addresses. -/
theorem addr (hb : HeapBase base) (ht : Tiling minOrder maxOrder L) {b : Block}
    (ha : L a = some b) : (base + a) % 32 = 0 ∧ base + a ≠ 0 ∧ base + a < 2 ^ 64 := by
  have hdvd : 2 ^ minOrder ∣ a := (pow_dvd_pow 2 (ht.order_ge ha)).trans (ht.aligned ha)
  have h32 : a % 32 = 0 := Nat.mod_eq_zero_of_dvd hdvd
  have hin := ht.inside ha
  have hpos : 0 < 2 ^ b.order := Nat.two_pow_pos _
  have hal := hb.aligned
  have hbpos := hb.pos
  have hfit := hb.fits
  exact ⟨by omega, by omega, by omega⟩

/-- Memory changes that leave the list links of free blocks and the headers
outside the hole alone. -/
theorem congr (hr : Rep base h L hole) (hlists : h'.freeLists = h.freeLists)
    (hlinks : ∀ a o, L a = some ⟨o, true⟩ →
      h'.get (base + a) .nextFree = h.get (base + a) .nextFree ∧
      h'.get (base + a) .prevFree = h.get (base + a) .prevFree)
    (hhdr : ∀ {a b}, L a = some b → ¬ hole' a → h'.get (base + a) .magic = blockMagic b.isFree ∧
      h'.get (base + a) .order = b.order) : Rep base h' L hole' := by
  refine ⟨hr.tiling, hhdr, fun o hlo hhi => ?_⟩
  obtain ⟨xs, hxs, hmem⟩ := hr.list o hlo hhi
  refine ⟨xs, ⟨?_, ?_, hxs.nodup⟩, hmem⟩
  · rw [hlists, hxs.head]
  · refine hxs.linked.congr (fun x hx => ?_) fun x hx => ?_
    · obtain ⟨a, rfl, ha⟩ := (hmem x).mp hx
      exact (hlinks a o ha).1
    · obtain ⟨a, rfl, ha⟩ := (hmem x).mp hx
      exact (hlinks a o ha).2

/-- Writing a field of a block that is on no list. -/
theorem set (hb : HeapBase base) (hr : Rep base h L hole) (ha : L a = some ⟨o, false⟩)
    {f : Field} {v : Nat} (hv : v < 256 ^ f.width) :
    Rep base (h.set (base + a) f v) L fun x => hole x ∨ x = a := by
  have haddr := addr hb hr.tiling ha
  have hother : ∀ c b, L c = some b → c ≠ a → ∀ g,
      (h.set (base + a) f v).get (base + c) g = h.get (base + c) g := by
    intro c b hc hne g
    rw [Heap.get_set haddr.1 (addr hb hr.tiling hc).1 hv, if_neg]
    omega
  refine hr.congr rfl (fun c k hc => ?_) fun hc hhole => ?_
  · have hne : c ≠ a := by
      rintro rfl
      rw [ha] at hc
      cases hc
    exact ⟨hother c _ hc hne _, hother c _ hc hne _⟩
  · obtain ⟨hnot, hne⟩ := not_or.mp hhole
    rw [hother _ _ hc hne, hother _ _ hc hne]
    exact hr.header hc hnot

section

variable (hr : Rep base h L hole)

include hr

theorem mono (hsub : ∀ x, hole x → hole' x) : Rep base h L hole' :=
  ⟨hr.tiling, fun hc hnot => hr.header hc fun hh => hnot (hsub _ hh), hr.list⟩

/-- A block whose header is right need not be in the hole. -/
theorem plug {b : Block} (ha : L a = some b)
    (hmagic : h.get (base + a) .magic = blockMagic b.isFree)
    (horder : h.get (base + a) .order = b.order) (hsub : ∀ x, hole x → x = a ∨ hole' x) :
    Rep base h L hole' := by
  refine hr.congr rfl (fun _ _ _ => ⟨rfl, rfl⟩) @fun c d hc hnot => ?_
  by_cases hca : c = a
  · subst hca
    rw [ha] at hc
    cases hc
    exact ⟨hmagic, horder⟩
  · exact hr.header hc fun hhole => (hsub c hhole).elim hca hnot

/-- Redrawing the blocks that are on no list. -/
theorem relayout (ht : Tiling minOrder maxOrder L')
    (hfree : ∀ x k, L' x = some ⟨k, true⟩ ↔ L x = some ⟨k, true⟩)
    (hold : ∀ x b, L' x = some b → ¬ hole' x → L x = some b ∧ ¬ hole x) : Rep base h L' hole' := by
  refine ⟨ht, @fun c b hc hnot => ?_, fun o hlo hhi => ?_⟩
  · obtain ⟨hL, hh⟩ := hold c b hc hnot
    exact hr.header hL hh
  · obtain ⟨xs, hxs, hmem⟩ := hr.list o hlo hhi
    refine ⟨xs, hxs, fun x => (hmem x).trans ?_⟩
    simp only [hfree]

/-- The head of a free list is null or a block of the list's order. -/
theorem head_cases (hlo : minOrder ≤ o) (hhi : o ≤ maxOrder) :
    h.freeLists (o - minOrder) = 0 ∨
      ∃ c, h.freeLists (o - minOrder) = base + c ∧ L c = some ⟨o, true⟩ := by
  obtain ⟨xs, hxs, hmem⟩ := hr.list o hlo hhi
  rw [hxs.head]
  cases xs with
  | nil => exact .inl rfl
  | cons x xs => exact .inr ((hmem x).mp mem_cons_self)

/-- Marking a block of order `o` leaves the list of another order as it is. -/
theorem list_other {k : Nat} {f f' : Bool} (ha : L a = some ⟨o, f⟩)
    (hko : k ≠ o) (hlo : minOrder ≤ k) (hhi : k ≤ maxOrder)
    (hhead : h'.freeLists (k - minOrder) = h.freeLists (k - minOrder))
    (hlinks : ∀ {c}, L c = some ⟨k, true⟩ →
      h'.get (base + c) .nextFree = h.get (base + c) .nextFree ∧
      h'.get (base + c) .prevFree = h.get (base + c) .prevFree) :
    ∃ xs, FreeList h' k xs ∧
      ∀ x, x ∈ xs ↔ ∃ c, x = base + c ∧ update L a (some ⟨o, f'⟩) c = some ⟨k, true⟩ := by
  obtain ⟨xs, hxs, hmem⟩ := hr.list k hlo hhi
  refine ⟨xs, ⟨hhead.trans hxs.head, ?_, hxs.nodup⟩, fun x => (hmem x).trans ?_⟩
  · refine hxs.linked.congr (fun x hx => ?_) fun x hx => ?_
    · obtain ⟨c, rfl, hLc⟩ := (hmem x).mp hx
      exact (hlinks hLc).1
    · obtain ⟨c, rfl, hLc⟩ := (hmem x).mp hx
      exact (hlinks hLc).2
  · refine exists_congr fun c => and_congr_right fun _ => ?_
    by_cases hca : c = a
    · subst hca
      rw [update_self, ha]
      simp [Ne.symm hko]
    · rw [update_of_ne hca]

end

/-- `free_list_add` of a block that is on no list and has the header of a free
block. -/
theorem add (hb : HeapBase base) (hr : Rep base h L hole) (ha : L a = some ⟨o, false⟩)
    (hmagic : h.get (base + a) .magic = magicFree) (horder : h.get (base + a) .order = o) :
    Rep base (h.freeListAdd (base + a) o) (update L a (some ⟨o, true⟩))
      fun x => hole x ∧ x ≠ a := by
  have hlo : minOrder ≤ o := hr.tiling.order_ge ha
  have hhi : o ≤ maxOrder := hr.tiling.order_le ha
  obtain ⟨hal, -, hlt⟩ := addr hb hr.tiling ha
  have hfreeNe : ∀ {c k}, L c = some ⟨k, true⟩ → c ≠ a := by
    rintro c k hc rfl
    rw [ha] at hc
    cases hc
  have hhead : h.freeLists (o - minOrder) % 32 = 0 ∧ h.freeLists (o - minOrder) < 2 ^ 64 ∧
      base + a ≠ h.freeLists (o - minOrder) := by
    rcases hr.head_cases hlo hhi with h0 | ⟨c, hc, hLc⟩
    · have hpos := hb.pos
      rw [h0]
      exact ⟨rfl, by omega, by omega⟩
    · have hne := hfreeNe hLc
      rw [hc]
      exact ⟨(addr hb hr.tiling hLc).1, (addr hb hr.tiling hLc).2.2, by omega⟩
  have hget : ∀ {c b}, L c = some b → ∀ f, (h.freeListAdd (base + a) o).get (base + c) f = _ :=
    fun hc f => Heap.freeListAdd_get hal hlt hhead.1 hhead.2.1 hhead.2.2
      (addr hb hr.tiling hc).1 (addr hb hr.tiling hc).2.1 f
  refine ⟨hr.tiling.mark ha true, @fun c b hc hnot => ?_, fun k hklo hkhi => ?_⟩
  · by_cases hca : c = a
    · subst hca
      rw [update_self] at hc
      cases hc
      rw [hget ha .magic, hget ha .order]
      exact ⟨hmagic, horder⟩
    · rw [update_of_ne hca] at hc
      rw [hget hc .magic, hget hc .order]
      exact hr.header hc fun hh => hnot ⟨hh, hca⟩
  · by_cases hko : k = o
    · -- the list the block is pushed on
      subst hko
      obtain ⟨xs, hxs, hmem⟩ := hr.list k hklo hkhi
      have hnotin : base + a ∉ xs := by
        intro hx
        obtain ⟨c, hc, hLc⟩ := (hmem _).mp hx
        exact hfreeNe hLc (by omega)
      refine ⟨(base + a) :: xs, ⟨?_, ?_, nodup_cons.mpr ⟨hnotin, hxs.nodup⟩⟩, fun x => ?_⟩
      · exact update_self ..
      · refine hxs.linked.push ?_ ?_ (fun x hx => ?_) (fun x hx => ?_) fun x hx => ?_
        · rw [hget ha .nextFree]
          simp [hxs.head]
        · rw [hget ha .prevFree]
          simp
        · have hxs' : x ∈ xs := mem_of_mem_head? hx
          obtain ⟨c, rfl, hLc⟩ := (hmem x).mp hxs'
          have hx0 : xs.head?.getD 0 = base + c := by
            rw [Option.mem_def.mp hx]
            rfl
          rw [hget hLc .prevFree]
          simp [hxs.head, hx0, hfreeNe hLc]
        · obtain ⟨c, rfl, hLc⟩ := (hmem x).mp hx
          rw [hget hLc .nextFree]
          simp [hfreeNe hLc]
        · have hxs' : x ∈ xs := mem_of_mem_tail hx
          obtain ⟨c, rfl, hLc⟩ := (hmem x).mp hxs'
          have hnothead : base + c ≠ xs.head?.getD 0 := by
            cases xs with
            | nil => cases hx
            | cons y ys =>
              rintro rfl
              exact (nodup_cons.mp hxs.nodup).1 hx
          rw [hget hLc .prevFree]
          simp [hfreeNe hLc, hxs.head, hnothead]
      · rw [mem_cons, hmem]
        constructor
        · rintro (rfl | ⟨c, rfl, hLc⟩)
          · exact ⟨a, rfl, update_self ..⟩
          · exact ⟨c, rfl, by rw [update_of_ne (hfreeNe hLc), hLc]⟩
        · rintro ⟨c, rfl, hc⟩
          by_cases hca : c = a
          · exact .inl (by rw [hca])
          · rw [update_of_ne hca] at hc
            exact .inr ⟨c, rfl, hc⟩
    · -- another list: neither the block nor the head of its list is on it
      have hoff : ∀ {c}, L c = some ⟨k, true⟩ → base + c ≠ h.freeLists (o - minOrder) := by
        intro c hLc heq
        rcases hr.head_cases hlo hhi with h0 | ⟨d, hd, hLd⟩
        · exact (addr hb hr.tiling hLc).2.1 (heq.trans h0)
        · obtain rfl : c = d := by omega
          rw [hLc] at hLd
          exact hko (by simpa using hLd)
      refine hr.list_other ha hko hklo hkhi ?_ fun hLc => ?_
      · have hidx : k - minOrder ≠ o - minOrder := by omega
        show update _ _ _ _ = _
        rw [update_of_ne hidx]
        split <;> rfl
      · rw [hget hLc .nextFree, hget hLc .prevFree]
        simp [hfreeNe hLc, hoff hLc]

/-- `free_list_remove` of a free block. -/
theorem remove (hb : HeapBase base) (hr : Rep base h L hole) (ha : L a = some ⟨o, true⟩) :
    Rep base (h.freeListRemove (base + a) o) (update L a (some ⟨o, false⟩))
      (fun x => hole x ∨ x = a) ∧
    ∀ {c b}, L c = some b →
      (h.freeListRemove (base + a) o).get (base + c) .magic = h.get (base + c) .magic ∧
      (h.freeListRemove (base + a) o).get (base + c) .order = h.get (base + c) .order := by
  have hlo : minOrder ≤ o := hr.tiling.order_ge ha
  have hhi : o ≤ maxOrder := hr.tiling.order_le ha
  obtain ⟨hal, ha0, hlt⟩ := addr hb hr.tiling ha
  obtain ⟨xs, hxs, hmem⟩ := hr.list o hlo hhi
  have hin : base + a ∈ xs := (hmem _).mpr ⟨a, rfl, ha⟩
  have hzero : 0 ∉ xs := by
    intro hx
    obtain ⟨c, hc, hLc⟩ := (hmem 0).mp hx
    exact (addr hb hr.tiling hLc).2.1 hc.symm
  have hnd : (0 :: xs).Nodup := nodup_cons.mpr ⟨hzero, hxs.nodup⟩
  -- both neighbours are null or blocks on the same list
  have hp := hxs.linked.prev_mem hin
  have hn := hxs.linked.next_mem hin
  have hmod : ∀ x, x = 0 ∨ x ∈ xs → x % 32 = 0 := by
    rintro x (rfl | hx)
    · rfl
    · obtain ⟨c, rfl, hLc⟩ := (hmem x).mp hx
      exact (addr hb hr.tiling hLc).1
  obtain ⟨hlinked, hhead⟩ := hxs.linked.erase hnd hzero hin
  have hpb : h.get (base + a) .prevFree ≠ base + a := hxs.linked.prev_ne hnd hin
  have hget : ∀ {c b}, L c = some b → ∀ f, (h.freeListRemove (base + a) o).get (base + c) f = _ :=
    fun hc f => Heap.freeListRemove_get hal ha0 (hmod _ hp) (hmod _ hn) hpb
      (addr hb hr.tiling hc).1 (addr hb hr.tiling hc).2.1 f
  refine ⟨⟨hr.tiling.mark ha false, @fun c b hc hnot => ?_, fun k hklo hkhi => ?_⟩,
    fun hc => ⟨hget hc .magic, hget hc .order⟩⟩
  · obtain ⟨hnh, hca⟩ := not_or.mp hnot
    rw [update_of_ne hca] at hc
    rw [hget hc .magic, hget hc .order]
    exact hr.header hc hnh
  · by_cases hko : k = o
    · -- the list the block is taken from
      subst hko
      refine ⟨xs.erase (base + a), ⟨?_, ?_, hxs.nodup.erase _⟩, fun x => ?_⟩
      · rw [hhead, Heap.freeListRemove_freeLists, hxs.head]
        simp [null]
      · refine hlinked.congr (fun x hx => ?_) fun x hx => ?_
        · obtain ⟨hxa, hx⟩ := hxs.nodup.mem_erase_iff.mp hx
          obtain ⟨c, rfl, hLc⟩ := (hmem x).mp hx
          rw [hget hLc .nextFree]
          simp only [if_neg hxa, update_apply]
        · obtain ⟨hxa, hx⟩ := hxs.nodup.mem_erase_iff.mp hx
          obtain ⟨c, rfl, hLc⟩ := (hmem x).mp hx
          rw [hget hLc .prevFree]
          simp only [if_neg hxa, update_apply]
      · rw [hxs.nodup.mem_erase_iff, hmem]
        constructor
        · rintro ⟨hxa, c, rfl, hLc⟩
          exact ⟨c, rfl, by rw [update_of_ne (by omega), hLc]⟩
        · rintro ⟨c, rfl, hc⟩
          by_cases hca : c = a
          · subst hca
            rw [update_self] at hc
            cases hc
          · rw [update_of_ne hca] at hc
            exact ⟨by omega, c, rfl, hc⟩
    · -- another list shares no block with this one
      have hapart : ∀ {c}, L c = some ⟨k, true⟩ → base + c ∉ xs := by
        intro c hLc hx
        obtain ⟨d, hd, hLd⟩ := (hmem _).mp hx
        obtain rfl : c = d := by omega
        rw [hLc] at hLd
        exact hko (by simpa using hLd)
      have hneq : ∀ {c}, L c = some ⟨k, true⟩ → ∀ x, x = 0 ∨ x ∈ xs → base + c ≠ x := by
        rintro c hLc x (rfl | hx) heq
        · exact (addr hb hr.tiling hLc).2.1 heq
        · exact hapart hLc (heq ▸ hx)
      refine hr.list_other ha hko hklo hkhi ?_ fun hLc => ?_
      · have hidx : k - minOrder ≠ o - minOrder := by omega
        rw [Heap.freeListRemove_freeLists, if_neg fun hand => hidx hand.1]
      · rw [hget hLc .nextFree, hget hLc .prevFree]
        simp only [if_neg (hneq hLc _ (.inr hin)), if_neg (hneq hLc _ hp),
          if_neg (hneq hLc _ hn), and_self]

end Rep

end PythonOS.Libc
