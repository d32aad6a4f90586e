import Mathlib.Algebra.Order.Ring.Nat
import Mathlib.Data.Nat.Bitwise
import Mathlib.Logic.Function.Basic
import Mathlib.Tactic.Ring

/-!
# PythonOS.Lib.Buddy

The buddy system: a region of `2 ^ hi` units tiled by blocks whose sizes are
powers of two (at least `2 ^ lo`), each aligned to its own size.

* `Layout` gives the block that starts at an offset; `Tiling` says that the
  blocks are aligned, do not overlap and cover the region;
* `Tiling.split`, `Tiling.merge` and `Tiling.mark` are the three changes an
  allocator makes;
* `Tiling.buddy_block`: where a block's buddy would start, a block does start,
  and it is not larger;
* `Tiling.single_of_all_free`: a tiling by free blocks without two free buddies
  is one block.
-/

namespace PythonOS.Lib.Buddy

open Function

/-- A block of `2 ^ order` units. -/
structure Block where
  order : Nat
  isFree : Bool
  deriving Repr, DecidableEq

/-- The block that starts at each offset. -/
abbrev Layout := Nat → Option Block

/-- Offset of the other half of the block that `a` is one half of. -/
def buddy (a o : Nat) : Nat := a ^^^ 2 ^ o

/-- The blocks of `L` partition the offsets below `2 ^ hi`. -/
structure Tiling (lo hi : Nat) (L : Layout) : Prop where
  order_ge : ∀ {a b}, L a = some b → lo ≤ b.order
  order_le : ∀ {a b}, L a = some b → b.order ≤ hi
  aligned : ∀ {a b}, L a = some b → 2 ^ b.order ∣ a
  inside : ∀ {a b}, L a = some b → a + 2 ^ b.order ≤ 2 ^ hi
  cover : ∀ x, x < 2 ^ hi → ∃ a b, L a = some b ∧ a ≤ x ∧ x < a + 2 ^ b.order
  disjoint : ∀ {a a' b b'}, L a = some b → L a' = some b' → a < a' → a + 2 ^ b.order ≤ a'

/-- No two free blocks are the halves of one block. -/
def NoFreeBuddies (hi : Nat) (L : Layout) : Prop :=
  ∀ a o, o < hi → L a = some ⟨o, true⟩ → L (buddy a o) ≠ some ⟨o, true⟩

/-- One free block. -/
def single (hi : Nat) : Layout := fun a => if a = 0 then some ⟨hi, true⟩ else none

/-! ### Buddies -/

theorem buddy_of_dvd {a o : Nat} (h : 2 ^ (o + 1) ∣ a) : buddy a o = a + 2 ^ o := by
  obtain ⟨q, rfl⟩ := h
  rw [buddy, Nat.pow_succ, Nat.mul_assoc, Nat.mul_comm (2 ^ o)]
  have hx : (2 * q) ^^^ 1 = 2 * q + 1 := Nat.xor_one_of_even (even_two_mul q)
  have hshift := Nat.shiftLeft_xor_distrib (a := 2 * q) (b := 1) (i := o)
  rw [Nat.shiftLeft_eq, Nat.shiftLeft_eq, Nat.shiftLeft_eq, hx, Nat.one_mul] at hshift
  rw [← hshift]
  ring

theorem buddy_buddy (a o : Nat) : buddy (buddy a o) o = a := by
  rw [buddy, buddy, Nat.xor_assoc, Nat.xor_self, Nat.xor_zero]

section Pair

variable {a o : Nat} (h : 2 ^ o ∣ a)

include h

theorem buddy_of_not_dvd (hn : ¬ 2 ^ (o + 1) ∣ a) :
    buddy a o + 2 ^ o = a ∧ 2 ^ (o + 1) ∣ buddy a o := by
  obtain ⟨q, rfl⟩ := h
  obtain ⟨k, rfl⟩ : Odd q := by
    rw [← Nat.not_even_iff_odd, even_iff_two_dvd]
    rintro ⟨k, rfl⟩
    exact hn ⟨k, by ring⟩
  have hlow : buddy (2 ^ (o + 1) * k) o = 2 ^ (o + 1) * k + 2 ^ o := buddy_of_dvd ⟨k, rfl⟩
  have hback : buddy (2 ^ o * (2 * k + 1)) o = 2 ^ (o + 1) * k := by
    have heq : 2 ^ o * (2 * k + 1) = 2 ^ (o + 1) * k + 2 ^ o := by ring
    rw [heq, ← hlow, buddy, buddy, Nat.xor_assoc, Nat.xor_self, Nat.xor_zero]
  rw [hback]
  exact ⟨by ring, k, rfl⟩

/-- The two halves lie in one block of twice the size. -/
theorem buddy_cell :
    ∃ r, 2 ^ (o + 1) ∣ r ∧ r ≤ a ∧ r ≤ buddy a o ∧
      a + 2 ^ o ≤ r + 2 ^ (o + 1) ∧ buddy a o + 2 ^ o ≤ r + 2 ^ (o + 1) := by
  by_cases hd : 2 ^ (o + 1) ∣ a
  · have hb := buddy_of_dvd hd
    exact ⟨a, hd, by omega, by omega, by omega, by omega⟩
  · obtain ⟨hb, hd'⟩ := buddy_of_not_dvd h hd
    exact ⟨buddy a o, hd', by omega, by omega, by omega, by omega⟩

/-- The lower half is aligned to the whole block and the upper half follows it. -/
theorem buddy_pair :
    2 ^ (o + 1) ∣ min (buddy a o) a ∧ (min (buddy a o) a = a ∧ buddy a o = a + 2 ^ o ∨
        min (buddy a o) a = buddy a o ∧ a = buddy a o + 2 ^ o) := by
  by_cases hd : 2 ^ (o + 1) ∣ a
  · have hb := buddy_of_dvd hd
    have hmin : min (buddy a o) a = a := by omega
    exact ⟨by rw [hmin]; exact hd, .inl ⟨hmin, hb⟩⟩
  · obtain ⟨hb, hd'⟩ := buddy_of_not_dvd h hd
    have hmin : min (buddy a o) a = buddy a o := by omega
    exact ⟨by rw [hmin]; exact hd', .inr ⟨hmin, hb.symm⟩⟩

theorem buddy_ne : buddy a o ≠ a := by
  rcases (buddy_pair h).2 with ⟨-, hb⟩ | ⟨-, hb⟩ <;> omega

theorem dvd_buddy : 2 ^ o ∣ buddy a o := by
  have hpow : (2 : Nat) ^ o ∣ 2 ^ (o + 1) := pow_dvd_pow 2 (Nat.le_succ o)
  by_cases hd : 2 ^ (o + 1) ∣ a
  · rw [buddy_of_dvd hd]
    exact Nat.dvd_add h (dvd_refl _)
  · exact hpow.trans (buddy_of_not_dvd h hd).2

end Pair

namespace Tiling

variable {lo hi : Nat} {L : Layout} {a o : Nat} {b : Block}

section

variable (ht : Tiling lo hi L) (h : L a = some b)

include ht h

/-- Two blocks with a common unit are the same. -/
theorem eq_of_overlap {a' : Nat} {b' : Block}
    (h' : L a' = some b') {x : Nat} (hx : a ≤ x ∧ x < a + 2 ^ b.order)
    (hx' : a' ≤ x ∧ x < a' + 2 ^ b'.order) : a = a' := by
  rcases Nat.lt_trichotomy a a' with hlt | heq | hgt
  · have := ht.disjoint h h' hlt
    omega
  · exact heq
  · have := ht.disjoint h' h hgt
    omega

/-- The buddy of a block that is not the whole region lies in the region. -/
theorem buddy_inside (ho : b.order < hi) : buddy a b.order + 2 ^ b.order ≤ 2 ^ hi := by
  obtain ⟨r, hr, hra, -, -, hbr⟩ := buddy_cell (ht.aligned h)
  have hin := ht.inside h
  have hdvd : 2 ^ (b.order + 1) ∣ 2 ^ hi := pow_dvd_pow 2 ho
  have hle : r + 2 ^ (b.order + 1) ≤ 2 ^ hi := by
    refine Nat.le_of_lt_add_of_dvd ?_ (Nat.dvd_add hr (dvd_refl _)) hdvd
    omega
  omega

/-- **Where a block's buddy would start, a block starts, and it is not larger.** -/
theorem buddy_block (ho : b.order < hi) :
    ∃ b', L (buddy a b.order) = some b' ∧ b'.order ≤ b.order := by
  have hal := ht.aligned h
  have hin := ht.buddy_inside h ho
  obtain ⟨a', b', h', hle, hlt⟩ := ht.cover (buddy a b.order) (by omega)
  have hal' := ht.aligned h'
  by_cases hord : b'.order ≤ b.order
  · -- both offsets are multiples of the smaller size, so they agree
    have hdvd : 2 ^ b'.order ∣ buddy a b.order := (pow_dvd_pow 2 hord).trans (dvd_buddy hal)
    have heq : buddy a b.order = a' :=
      Nat.le_antisymm (Nat.le_of_lt_add_of_dvd hlt hdvd hal') hle
    exact ⟨b', heq ▸ h', hord⟩
  · -- a larger block would contain both halves
    obtain ⟨r, hr, hra, hrb, har, hbr⟩ := buddy_cell hal
    have hpow : 2 ^ (b.order + 1) ∣ 2 ^ b'.order := pow_dvd_pow 2 (by omega)
    have hlow : a' ≤ r := Nat.le_of_lt_add_of_dvd (by omega) (hpow.trans hal') hr
    have hhigh : r + 2 ^ (b.order + 1) ≤ a' + 2 ^ b'.order := by
      refine Nat.le_of_lt_add_of_dvd ?_ (Nat.dvd_add hr (dvd_refl _))
        (Nat.dvd_add (hpow.trans hal') hpow)
      omega
    have heq : a = a' := ht.eq_of_overlap h h' ⟨Nat.le_refl a, by omega⟩ ⟨by omega, by omega⟩
    subst heq
    rw [h] at h'
    exact absurd (congrArg Block.order (Option.some.inj h')) (by omega)

end

/-! ### The changes an allocator makes -/

/-- Changing what a block is used for. -/
theorem mark (ht : Tiling lo hi L) (h : L a = some b) (f : Bool) :
    Tiling lo hi (update L a (some { b with isFree := f })) := by
  -- every block of the new layout is a block of the old one, up to its use
  have hold : ∀ {x c}, update L a (some { b with isFree := f }) x = some c →
      ∃ c', L x = some c' ∧ c'.order = c.order := by
    intro x c hx
    by_cases hxa : x = a
    · subst hxa
      rw [update_self] at hx
      cases hx
      exact ⟨b, h, rfl⟩
    · rw [update_of_ne hxa] at hx
      exact ⟨c, hx, rfl⟩
  refine ⟨fun hx => ?_, fun hx => ?_, fun hx => ?_, fun hx => ?_, fun x hx => ?_,
    fun hx hx' hlt => ?_⟩
  · obtain ⟨c', hc', ho⟩ := hold hx
    exact ho ▸ ht.order_ge hc'
  · obtain ⟨c', hc', ho⟩ := hold hx
    exact ho ▸ ht.order_le hc'
  · obtain ⟨c', hc', ho⟩ := hold hx
    exact ho ▸ ht.aligned hc'
  · obtain ⟨c', hc', ho⟩ := hold hx
    exact ho ▸ ht.inside hc'
  · obtain ⟨a', c, hc, hle, hlt⟩ := ht.cover x hx
    by_cases ha : a' = a
    · subst ha
      rw [h] at hc
      cases hc
      exact ⟨a', { b with isFree := f }, update_self .., hle, hlt⟩
    · exact ⟨a', c, by rw [update_of_ne ha, hc], hle, hlt⟩
  · obtain ⟨c, hc, ho⟩ := hold hx
    obtain ⟨c', hc', -⟩ := hold hx'
    exact ho ▸ ht.disjoint hc hc' hlt

/-- Splitting a block into its two halves. -/
theorem split (ht : Tiling lo hi L) {f : Bool} (h : L a = some ⟨o + 1, f⟩) (hlo : lo ≤ o)
    (f1 f2 : Bool) :
    Tiling lo hi (update (update L a (some ⟨o, f1⟩)) (a + 2 ^ o) (some ⟨o, f2⟩)) := by
  have hin : a + 2 ^ (o + 1) ≤ 2 ^ hi := ht.inside h
  have hal : 2 ^ (o + 1) ∣ a := ht.aligned h
  have hole : o + 1 ≤ hi := ht.order_le h
  have hdvd : 2 ^ o ∣ a := (pow_dvd_pow 2 (Nat.le_succ o)).trans hal
  set L' := update (update L a (some ⟨o, f1⟩)) (a + 2 ^ o) (some ⟨o, f2⟩) with hL'
  have hhalf : ∀ {x c}, L' x = some c →
      (c.order = o ∧ (x = a ∨ x = a + 2 ^ o)) ∨ (x ≠ a ∧ L x = some c) := by
    intro x c hx
    by_cases hxu : x = a + 2 ^ o
    · subst hxu
      rw [hL', update_self] at hx
      exact .inl ⟨(Option.some.inj hx) ▸ rfl, .inr rfl⟩
    · rw [hL', update_of_ne hxu] at hx
      by_cases hxa : x = a
      · subst hxa
        rw [update_self] at hx
        exact .inl ⟨(Option.some.inj hx) ▸ rfl, .inl rfl⟩
      · rw [update_of_ne hxa] at hx
        exact .inr ⟨hxa, hx⟩
  refine ⟨fun hx => ?_, fun hx => ?_, fun hx => ?_, fun hx => ?_, fun x hx => ?_,
    @fun x x' _ _ hx hx' hlt => ?_⟩
  · rcases hhalf hx with ⟨ho, -⟩ | ⟨-, hx⟩
    · exact ho ▸ hlo
    · exact ht.order_ge hx
  · rcases hhalf hx with ⟨ho, -⟩ | ⟨-, hx⟩
    · omega
    · exact ht.order_le hx
  · rcases hhalf hx with ⟨ho, rfl | rfl⟩ | ⟨-, hx⟩
    · exact ho ▸ hdvd
    · rw [ho]
      exact Nat.dvd_add hdvd (dvd_refl _)
    · exact ht.aligned hx
  · rcases hhalf hx with ⟨ho, rfl | rfl⟩ | ⟨-, hx⟩
    · rw [ho]
      omega
    · rw [ho]
      omega
    · exact ht.inside hx
  · obtain ⟨c, d, hc, hle, hlt⟩ := ht.cover x hx
    by_cases hca : c = a
    · subst hca
      rw [h] at hc
      cases hc
      by_cases hhi : x < c + 2 ^ o
      · refine ⟨c, ⟨o, f1⟩, ?_, hle, hhi⟩
        rw [hL', update_of_ne (by omega), update_self]
      · refine ⟨c + 2 ^ o, ⟨o, f2⟩, update_self .., by omega, ?_⟩
        simp only at hlt ⊢
        omega
    · refine ⟨c, d, ?_, hle, hlt⟩
      have hcu : c ≠ a + 2 ^ o := by
        intro hcu
        refine hca (ht.eq_of_overlap hc h (x := c) ⟨Nat.le_refl c, by omega⟩ ⟨by omega, ?_⟩)
        simp only
        omega
      rw [hL', update_of_ne hcu, update_of_ne hca, hc]
  · rcases hhalf hx with ⟨ho, hxe⟩ | ⟨hxa, hxL⟩
    · rw [ho]
      rcases hhalf hx' with ⟨-, hxe'⟩ | ⟨-, hxL'⟩
      · omega
      · have hge := ht.disjoint h hxL' (by omega)
        simp only at hge
        omega
    · rcases hhalf hx' with ⟨-, hxe'⟩ | ⟨-, hxL'⟩
      · -- a block before the right half is before the whole block
        rcases Nat.lt_trichotomy x a with hbefore | rfl | hafter
        · have hle := ht.disjoint hxL h hbefore
          omega
        · exact absurd rfl hxa
        · have hge := ht.disjoint h hxL hafter
          simp only at hge
          omega
      · exact ht.disjoint hxL hxL' hlt

/-- Joining two halves. -/
theorem merge (ht : Tiling lo hi L) {f1 f2 : Bool} (h : L a = some ⟨o, f1⟩)
    (h' : L (a + 2 ^ o) = some ⟨o, f2⟩) (hal : 2 ^ (o + 1) ∣ a) (hhi : o < hi) (f : Bool) :
    Tiling lo hi (update (update L (a + 2 ^ o) none) a (some ⟨o + 1, f⟩)) := by
  have hin : a + 2 ^ o + 2 ^ o ≤ 2 ^ hi := ht.inside h'
  set L' := update (update L (a + 2 ^ o) none) a (some ⟨o + 1, f⟩) with hL'
  have hwhole : ∀ {x c}, L' x = some c →
      (c.order = o + 1 ∧ x = a) ∨ (x ≠ a ∧ x ≠ a + 2 ^ o ∧ L x = some c) := by
    intro x c hx
    by_cases hxa : x = a
    · subst hxa
      rw [hL', update_self] at hx
      exact .inl ⟨(Option.some.inj hx) ▸ rfl, rfl⟩
    · rw [hL', update_of_ne hxa] at hx
      by_cases hxu : x = a + 2 ^ o
      · subst hxu
        rw [update_self] at hx
        cases hx
      · rw [update_of_ne hxu] at hx
        exact .inr ⟨hxa, hxu, hx⟩
  refine ⟨fun hx => ?_, fun hx => ?_, fun hx => ?_, fun hx => ?_, fun x hx => ?_,
    @fun x x' _ _ hx hx' hlt => ?_⟩
  · rcases hwhole hx with ⟨ho, -⟩ | ⟨-, -, hxL⟩
    · have hlo : lo ≤ o := ht.order_ge h
      omega
    · exact ht.order_ge hxL
  · rcases hwhole hx with ⟨ho, -⟩ | ⟨-, -, hxL⟩
    · omega
    · exact ht.order_le hxL
  · rcases hwhole hx with ⟨ho, rfl⟩ | ⟨-, -, hxL⟩
    · exact ho ▸ hal
    · exact ht.aligned hxL
  · rcases hwhole hx with ⟨ho, rfl⟩ | ⟨-, -, hxL⟩
    · rw [ho]
      omega
    · exact ht.inside hxL
  · obtain ⟨c, d, hc, hle, hlt⟩ := ht.cover x hx
    by_cases hca : c = a
    · subst hca
      rw [h] at hc
      cases hc
      refine ⟨c, ⟨o + 1, f⟩, update_self .., hle, ?_⟩
      simp only at hlt ⊢
      omega
    · by_cases hcu : c = a + 2 ^ o
      · subst hcu
        rw [h'] at hc
        cases hc
        refine ⟨a, ⟨o + 1, f⟩, update_self .., by omega, ?_⟩
        simp only at hlt ⊢
        omega
      · exact ⟨c, d, by rw [hL', update_of_ne hca, update_of_ne hcu, hc], hle, hlt⟩
  · rcases hwhole hx with ⟨ho, rfl⟩ | ⟨hxa, hxu, hxL⟩
    · rw [ho]
      rcases hwhole hx' with ⟨-, rfl⟩ | ⟨-, hxu', hxL'⟩
      · omega
      · have hge := ht.disjoint h hxL' hlt
        simp only at hge
        have hge' := ht.disjoint h' hxL' (by omega)
        simp only at hge'
        omega
    · rcases hwhole hx' with ⟨-, rfl⟩ | ⟨-, -, hxL'⟩
      · exact ht.disjoint hxL h hlt
      · exact ht.disjoint hxL hxL' hlt

/-! ### Free buddies -/

end Tiling

/-- At most one block becomes free, and its buddy is not free. -/
theorem NoFreeBuddies.insert {hi c o : Nat} {L L' : Layout} (hnb : NoFreeBuddies hi L)
    (hsub : ∀ x k, L' x = some ⟨k, true⟩ → L x = some ⟨k, true⟩ ∨ (x = c ∧ k = o))
    (hc : L' (buddy c o) ≠ some ⟨o, true⟩) : NoFreeBuddies hi L' := by
  intro x k hk hx hb
  rcases hsub x k hx with hx' | ⟨rfl, rfl⟩
  · rcases hsub _ k hb with hb' | ⟨hbc, rfl⟩
    · exact hnb x k hk hx' hb'
    · rw [← hbc, buddy_buddy] at hc
      exact hc hx
  · exact hc hb

/-- No block becomes free. -/
theorem NoFreeBuddies.of_subset {hi : Nat} {L L' : Layout} (hnb : NoFreeBuddies hi L)
    (hsub : ∀ x k, L' x = some ⟨k, true⟩ → L x = some ⟨k, true⟩) : NoFreeBuddies hi L' :=
  fun x k hk hx hb => hnb x k hk (hsub x k hx) (hsub _ k hb)

namespace Tiling

variable {lo hi : Nat} {L : Layout} {a o : Nat} {b : Block}

/-! ### The empty heap -/

/-- **A tiling by free blocks without free buddies is one block.** -/
theorem single_of_all_free (ht : Tiling lo hi L) (hnb : NoFreeBuddies hi L)
    (hfree : ∀ a b, L a = some b → b.isFree = true) : L = single hi := by
  -- the smallest block would have a free buddy of its own size
  obtain ⟨a0, b0, h0, -⟩ := ht.cover 0 (Nat.two_pow_pos hi)
  have hex : ∃ n, ∃ a b, L a = some b ∧ b.order = n := ⟨b0.order, a0, b0, h0, rfl⟩
  classical
  obtain ⟨a, b, h, ho⟩ := Nat.find_spec hex
  have hmin : ∀ a' b', L a' = some b' → b.order ≤ b'.order := by
    intro a' b' h'
    rw [ho]
    exact Nat.find_min' hex ⟨a', b', h', rfl⟩
  have hwhole : b.order = hi := by
    by_contra hne
    have hlt : b.order < hi := Nat.lt_of_le_of_ne (ht.order_le h) hne
    obtain ⟨b', h', hle⟩ := ht.buddy_block h hlt
    have heq : b'.order = b.order := Nat.le_antisymm hle (hmin _ b' h')
    refine hnb a b.order hlt ?_ ?_
    · rw [h, ← hfree a b h]
    · rw [h', ← heq, ← hfree _ b' h']
  have hall : ∀ a' b', L a' = some b' → a' = 0 ∧ b' = ⟨hi, true⟩ := by
    intro a' b' h'
    have hord : b'.order = hi := Nat.le_antisymm (ht.order_le h') (hwhole ▸ hmin a' b' h')
    have hin := ht.inside h'
    rw [hord] at hin
    exact ⟨by omega, by rw [← hord, ← hfree a' b' h']⟩
  funext x
  by_cases hx : x = 0
  · subst hx
    obtain ⟨rfl, rfl⟩ := hall a0 b0 h0
    rw [h0]
    rfl
  · rw [single, if_neg hx]
    cases hL : L x with
    | none => rfl
    | some c => exact absurd (hall x c hL).1 hx

end Tiling

theorem tiling_single {lo hi : Nat} (h : lo ≤ hi) : Tiling lo hi (single hi) := by
  have hall : ∀ {a b}, single hi a = some b → a = 0 ∧ b = ⟨hi, true⟩ := by
    intro a b hab
    rw [single] at hab
    split at hab
    · next ha => exact ⟨ha, (Option.some.inj hab).symm⟩
    · cases hab
  refine ⟨fun hx => ?_, fun hx => ?_, fun hx => ?_, fun hx => ?_, fun x hx => ?_,
    fun hx hx' hlt => ?_⟩
  · obtain ⟨rfl, rfl⟩ := hall hx
    exact h
  · obtain ⟨rfl, rfl⟩ := hall hx
    exact Nat.le_refl hi
  · obtain ⟨rfl, rfl⟩ := hall hx
    exact Nat.dvd_zero _
  · obtain ⟨rfl, rfl⟩ := hall hx
    simp
  · exact ⟨0, ⟨hi, true⟩, rfl, Nat.zero_le x, by simpa using hx⟩
  · obtain ⟨rfl, rfl⟩ := hall hx'
    omega

end PythonOS.Lib.Buddy
