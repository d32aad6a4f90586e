import PythonOS.Ext2.Volume

/-!
# PythonOS.Ext2.Headers

The superblock and the group descriptors: what the driver keeps of them in memory,
what the device holds, and the functions that change them.

`Synced L s` says that the device holds what the driver has in memory. Every function
that returns keeps it; one that raises between two of its writes may not.
-/

namespace PythonOS.Ext2

open Lib Function List Option Coro Lib.Bytes

/-! ### Fields -/

variable {b : Bytes} {off : Int} {w : Nat}

theorem unpack_eq (h : 0 ≤ off ∧ off + w ≤ b.length) :
    unpack w b off = .ok (leAt w b off.toNat) := by
  obtain ⟨n, rfl⟩ := Int.eq_ofNat_of_zero_le h.1
  unfold unpack
  rw [unpackFrom_ofNat (by omega)]
  rfl

theorem pack_eq {v : Int} (h : 0 ≤ off ∧ off + w ≤ b.length) (hv : 0 ≤ v ∧ v.toNat < 256 ^ w) :
    pack w b off v = .ok (putLe w b off.toNat v.toNat) := by
  obtain ⟨n, rfl⟩ := Int.eq_ofNat_of_zero_le h.1
  obtain ⟨m, rfl⟩ := Int.eq_ofNat_of_zero_le hv.1
  unfold pack
  rw [packInto_ofNat (by omega) (by simpa using hv.2)]
  rfl

/-- A field that was written lies in the buffer. -/
theorem pack_ok {b' : Bytes} {v : Int} (h : pack w b off v = .ok b') (hoff : 0 ≤ off) :
    off + w ≤ b.length ∧ 0 ≤ v ∧ v.toNat < 256 ^ w ∧ b' = putLe w b off.toNat v.toNat := by
  have hok := h
  unfold pack packInto at h
  by_cases hv : 0 ≤ v ∧ v.toNat < 256 ^ w
  · cases hstart : fieldStart b.length w off with
    | none => exact absurd h (by simp [hstart])
    | some start =>
      have hin : off + w ≤ b.length := by
        unfold fieldStart at hstart
        by_contra hne
        rw [if_neg (by omega)] at hstart
        cases hstart
      rw [pack_eq ⟨hoff, hin⟩ hv] at hok
      exact ⟨hin, hv.1, hv.2, (Except.ok.inj hok).symm⟩
  · rw [if_neg hv] at h
    cases h

/-- A field of the buffer is written exactly if the value fits. -/
theorem pack_cases {n : Nat} (hlen : b.length = n) (off : Nat) (v : Int) (h : off + w ≤ n) :
    (0 ≤ v ∧ v.toNat < 256 ^ w) ∧ pack w b off v = .ok (putLe w b off v.toNat) ∨
      ¬ (0 ≤ v ∧ v.toNat < 256 ^ w) ∧ pack w b off v = .error .struct := by
  by_cases hv : 0 ≤ v ∧ v.toNat < 256 ^ w
  · exact .inl ⟨hv, by rw [pack_eq ⟨by omega, by omega⟩ hv, Int.toNat_natCast]⟩
  · exact .inr ⟨hv, by unfold pack packInto; rw [if_neg hv]⟩

theorem pack_error {n off v : Nat} {e : Error} (hlen : b.length = n) (hoff : off + w ≤ n)
    (h : pack w b off v = .error e) : e = .struct ∧ 256 ^ w ≤ v := by
  rcases pack_cases hlen off v hoff with ⟨-, hok⟩ | ⟨hv, herr⟩
  · rw [hok] at h
    cases h
  · rw [herr] at h
    exact ⟨(Except.error.inj h).symm, by omega⟩

theorem length_of_pack {b' : Bytes} {v : Int} (h : pack w b off v = .ok b') (hoff : 0 ≤ off) :
    b'.length = b.length := by
  obtain ⟨hin, -, -, rfl⟩ := pack_ok h hoff
  exact length_putLe (by omega)

/-- The counters that the driver has in memory. -/
def counters (s : Ext2FS) : Counters where
  freeBlocks := s.sb.freeBlocksCount
  freeInodes := s.sb.freeInodesCount
  group g := ⟨leAt 2 (s.bgdt.getD g []) 12, leAt 2 (s.bgdt.getD g []) 14,
    leAt 2 (s.bgdt.getD g []) 16⟩

section

variable {L : Layout} {s : Ext2FS}

/-! ### Group descriptors -/

variable {g : Nat}

theorem listIndex_group (h : Tables L s) (hg : g < L.numGroups) :
    listIndex s.bgdt.length (g : Int) = .ok g := by
  unfold listIndex
  rw [h.bgdtLength]
  simp only [show ¬ (g : Int) < 0 by omega, if_false]
  rw [if_pos (by omega), Int.toNat_natCast]

/-- The descriptor of a group says where the parts of the group lie, and has its counters. -/
theorem bgdGet_eq (h : Tables L s) (hg : g < L.numGroups) :
    ∃ d, bgdGet s g = .ok d ∧ d.blockBitmap = L.blockBitmap g ∧
      d.inodeBitmap = L.inodeBitmap g ∧ d.inodeTable = L.inodeTable g ∧
      (counters s).group g = ⟨d.freeBlocks, d.freeInodes, d.usedDirs⟩ := by
  obtain ⟨hlen, hbb, hib, hit⟩ := h.descriptor g hg
  have hindex := listIndex_group h hg
  have hparse : ∀ w off : Nat, off + w ≤ 32 →
      unpack w (s.bgdt.getD g []) (off : Int) = .ok (leAt w (s.bgdt.getD g []) off) := by
    intro w off hoff
    rw [unpack_eq ⟨by omega, by rw [hlen]; simp only [bgdSize]; omega⟩, Int.toNat_natCast]
  refine ⟨⟨leAt 4 (s.bgdt.getD g []) 0, leAt 4 (s.bgdt.getD g []) 4, leAt 4 (s.bgdt.getD g []) 8,
    leAt 2 (s.bgdt.getD g []) 12, leAt 2 (s.bgdt.getD g []) 14, leAt 2 (s.bgdt.getD g []) 16⟩,
    ?_, hbb, hib, hit, rfl⟩
  have h0 := hparse 4 0 (by omega)
  have h4 := hparse 4 4 (by omega)
  have h8 := hparse 4 8 (by omega)
  have h12 := hparse 2 12 (by omega)
  have h14 := hparse 2 14 (by omega)
  have h16 := hparse 2 16 (by omega)
  simp only [Nat.cast_ofNat, Nat.cast_zero] at h0 h4 h8 h12 h14 h16
  simp only [bgdGet, hindex, Bgd.parse, Bind.bind, Except.bind, h0, h4, h8, h12, h14, h16, pure,
    Except.pure]

/-! ### What the device holds -/

/-- The device holds the superblock and the descriptors of the driver. -/
structure Synced (L : Layout) (s : Ext2FS) : Prop where
  super : s.dev 2 ++ s.dev 3 = s.sb.raw
  parse : Superblock.parse s.sb.raw = .ok s.sb
  table : ∀ i, L.HasArea (.bgdt i) → ∃ rest, blocks L s (L.bgdtBlock + i) =
    slice s.bgdt.flatten (i * L.blockSize) ((i + 1) * L.blockSize) ++ rest

/-- A sector of a block. -/
theorem slice_sectorsAt {dev : Nat → Bytes} {lba n k : Nat}
    (h : ∀ i, lba ≤ i → i < lba + n → (dev i).length = 512) (hk : k < n) :
    slice (sectorsAt dev lba n) (k * 512) ((k + 1) * 512) = dev (lba + k) := by
  induction n generalizing lba k with
  | zero => omega
  | succ n ih =>
    have hlen := h lba (Nat.le_refl _) (by omega)
    rw [sectorsAt]
    cases k with
    | zero =>
      rw [Nat.zero_mul, Nat.zero_add, Nat.one_mul, ← hlen, slice, take_left, drop_zero,
        Nat.add_zero]
    | succ k =>
      have hslice := slice_append_right (dev lba) (sectorsAt dev (lba + 1) n) (k * 512)
        ((k + 1) * 512)
      rw [hlen] at hslice
      rw [show (k + 1) * 512 = 512 + k * 512 by omega,
        show (k + 1 + 1) * 512 = 512 + (k + 1) * 512 by omega, hslice,
        ih (fun i hi hi' => h i (by omega) (by omega)) (by omega)]
      congr 1
      omega

variable {s' : Ext2FS} {raw d : Bytes} {sb : Superblock}

/-- The sectors of the superblock are those of its block. -/
theorem dev_super [hL : L.Ok] (h : Tables L s) (h' : Tables L s')
    (hblocks : blocks L s' L.superBlock = blocks L s L.superBlock) {lba : Nat}
    (hlba : lba = 2 ∨ lba = 3) : s'.dev lba = s.dev lba := by
  obtain ⟨hlo, hhi⟩ := L.superBlock_sectors
  rw [Nat.add_mul, Nat.one_mul] at hhi
  have hlt := (hL.area_lt .super trivial).2
  have hon := h.block_on_device hlt
  have hon' := h'.block_on_device hlt
  rw [Nat.add_mul, Nat.one_mul] at hon hon'
  have hblock : L.block .super = L.superBlock := rfl
  rw [hblock] at hon hon'
  set k := L.superBlock * L.sectorsPerBlock
  have e := @slice_sectorsAt s.dev k L.sectorsPerBlock (lba - k)
    (fun i _ hi => h.sectors i (by omega)) (by omega)
  have e' := @slice_sectorsAt s'.dev k L.sectorsPerBlock (lba - k)
    (fun i _ hi => h'.sectors i (by omega)) (by omega)
  rw [Nat.add_sub_cancel' (by omega)] at e e'
  have hsec : sectorsAt s'.dev k L.sectorsPerBlock = sectorsAt s.dev k L.sectorsPerBlock := hblocks
  rw [← e, ← e', hsec]

/-- Nothing of the headers has changed. -/
theorem Synced.congr [L.Ok] (h : Synced L s) (ht : Tables L s) (ht' : Tables L s')
    (hsb : s'.sb = s.sb) (hbgdt : s'.bgdt = s.bgdt)
    (hblocks : ∀ b, L.IsHeader b → blocks L s' b = blocks L s b) : Synced L s' := by
  have hsuper := hblocks L.superBlock (.inl rfl)
  refine ⟨?_, by rw [hsb]; exact h.parse, fun i hi => ?_⟩
  · rw [dev_super ht ht' hsuper (.inl rfl), dev_super ht ht' hsuper (.inr rfl), hsb, h.super]
  · obtain ⟨rest, hrest⟩ := h.table i hi
    exact ⟨rest, by rw [hblocks _ (.inr ⟨i, hi, rfl⟩), hrest, hbgdt]⟩

/-! ### The superblock -/

/-- The superblock in a block of 1024 bytes. -/
theorem Superblock.parse_eq (h : raw.length = 1024) :
    Superblock.parse raw = if leAt 2 raw 56 ≠ superMagic then .error (.value "bad ext2 magic")
      else .ok {
        inodesCount := leAt 4 raw 0
        blocksCount := leAt 4 raw 4
        freeBlocksCount := leAt 4 raw 12
        freeInodesCount := leAt 4 raw 16
        firstDataBlock := leAt 4 raw 20
        logBlockSize := leAt 4 raw 24
        blocksPerGroup := leAt 4 raw 32
        inodesPerGroup := leAt 4 raw 40
        inodeSize := if 1 ≤ leAt 4 raw 76 then leAt 2 raw 88 else 128
        featureIncompat := if 1 ≤ leAt 4 raw 76 then leAt 4 raw 96 else 0
        featureRoCompat := if 1 ≤ leAt 4 raw 76 then leAt 4 raw 100 else 0
        raw } := by
  have hu : ∀ w off : Nat, off + w ≤ 1024 → unpack w raw (off : Int) = .ok (leAt w raw off) := by
    intro w off hoff
    rw [unpack_eq ⟨by omega, by omega⟩, Int.toNat_natCast]
  have hrev : ∀ w off rev old : Nat, off + w ≤ 1024 → Superblock.revField w raw off rev old =
      .ok (if 1 ≤ rev then leAt w raw off else old) := by
    intro w off rev old hoff
    unfold Superblock.revField
    split
    · exact hu w off hoff
    · rfl
  have h0 := hu 4 0 (by omega)
  have h4 := hu 4 4 (by omega)
  have h12 := hu 4 12 (by omega)
  have h16 := hu 4 16 (by omega)
  have h20 := hu 4 20 (by omega)
  have h24 := hu 4 24 (by omega)
  have h32 := hu 4 32 (by omega)
  have h40 := hu 4 40 (by omega)
  have h56 := hu 2 56 (by omega)
  have h76 := hu 4 76 (by omega)
  have h88 := fun rev => hrev 2 88 rev 128 (by omega)
  have h96 := fun rev => hrev 4 96 rev 0 (by omega)
  have h100 := fun rev => hrev 4 100 rev 0 (by omega)
  simp only [Nat.cast_ofNat, Nat.cast_zero] at h0 h4 h12 h16 h20 h24 h32 h40 h56 h76 h88 h96 h100
  simp only [Superblock.parse, Bind.bind, Except.bind, h0, h4, h12, h16, h20, h24, h32,
    h40, h56, h76,
    h88, h96, h100]
  rfl

/-- Counters are all that `serializeCounters` changes. -/
theorem Superblock.parse_counters {fb fi : Nat} (hraw : raw.length = 1024)
    (h : Superblock.parse raw = .ok sb) (hfb : fb < 256 ^ 4) (hfi : fi < 256 ^ 4) :
    Superblock.parse (putLe 4 (putLe 4 raw 12 fb) 16 fi) = .ok { sb with
      freeBlocksCount := fb, freeInodesCount := fi, raw := putLe 4 (putLe 4 raw 12 fb) 16 fi } := by
  have hlen : (putLe 4 raw 12 fb).length = 1024 := by rw [length_putLe (by omega), hraw]
  have hat : ∀ w off, off + w ≤ 12 ∨ 20 ≤ off →
      leAt w (putLe 4 (putLe 4 raw 12 fb) 16 fi) off = leAt w raw off := by
    intro w off hoff
    rw [leAt_putLe_of_disjoint (by omega) (by omega), leAt_putLe_of_disjoint (by omega) (by omega)]
  have h12 : leAt 4 (putLe 4 (putLe 4 raw 12 fb) 16 fi) 12 = fb := by
    rw [leAt_putLe_of_disjoint (by omega) (by omega), leAt_putLe_self (by omega) hfb]
  have h16 : leAt 4 (putLe 4 (putLe 4 raw 12 fb) 16 fi) 16 = fi :=
    leAt_putLe_self (by omega) hfi
  rw [Superblock.parse_eq hraw] at h
  rw [Superblock.parse_eq (by rw [length_putLe (by omega), hlen]), hat 2 56 (by omega)]
  split at h <;> cases h
  next hmagic =>
    rw [if_neg hmagic, h12, h16, hat 4 0 (by omega), hat 4 4 (by omega), hat 4 20 (by omega),
      hat 4 24 (by omega), hat 4 32 (by omega), hat 4 40 (by omega), hat 4 76 (by omega),
      hat 2 88 (by omega), hat 4 96 (by omega), hat 4 100 (by omega)]

/-- A counter fits a field of `w` bytes. -/
def FitsField (w : Nat) (v : Int) : Prop := 0 ≤ v ∧ v.toNat < 256 ^ w

theorem fitsField_two {v : Int} : FitsField 2 v ↔ 0 ≤ v ∧ v < 2 ^ 16 := by
  unfold FitsField
  omega

theorem fitsField_four {v : Int} : FitsField 4 v ↔ 0 ≤ v ∧ v < 2 ^ 32 := by
  unfold FitsField
  omega

/-- The block of the superblock with its counters in it. -/
def Superblock.counted (sb : Superblock) : Bytes :=
  putLe 4 (putLe 4 sb.raw 12 sb.freeBlocksCount.toNat) 16 sb.freeInodesCount.toNat

theorem Superblock.length_counted (h : sb.raw.length = 1024) : sb.counted.length = 1024 := by
  have hlen : (putLe 4 sb.raw 12 sb.freeBlocksCount.toNat).length = 1024 := by
    rw [length_putLe (by omega), h]
  rw [counted, length_putLe (by omega), hlen]

/-- `serializeCounters` raises exactly if a counter does not fit. -/
theorem serializeCounters_eq (hraw : sb.raw.length = 1024) :
    FitsField 4 sb.freeBlocksCount ∧ FitsField 4 sb.freeInodesCount ∧
      sb.serializeCounters = .ok { sb with raw := sb.counted } ∨
    ¬ (FitsField 4 sb.freeBlocksCount ∧ FitsField 4 sb.freeInodesCount) ∧
      sb.serializeCounters = .error .struct := by
  unfold Superblock.serializeCounters
  rcases pack_cases (w := 4) hraw 12 sb.freeBlocksCount (by omega) with
    ⟨hfb, h1⟩ | ⟨hfb, h1⟩ <;> simp only [Nat.cast_ofNat] at h1
  · have hlen : (putLe 4 sb.raw 12 sb.freeBlocksCount.toNat).length = 1024 := by
      rw [length_putLe (by omega), hraw]
    rcases pack_cases (w := 4) hlen 16 sb.freeInodesCount (by omega) with
      ⟨hfi, h2⟩ | ⟨hfi, h2⟩ <;> simp only [Nat.cast_ofNat] at h2
    · refine .inl ⟨hfb, hfi, ?_⟩
      simp only [Bind.bind, Except.bind, h1, h2, pure, Except.pure, Superblock.counted]
    · refine .inr ⟨fun hc => hfi hc.2, ?_⟩
      simp only [Bind.bind, Except.bind, h1, h2]
  · refine .inr ⟨fun hc => hfb hc.1, ?_⟩
    simp only [Bind.bind, Except.bind, h1]

/-! ### Writing the headers -/

/-- Only headers have changed. -/
structure Quiet (L : Layout) (s s' : Ext2FS) : Prop where
  mounted : Mounted L s'
  blocks_eq : ∀ b, ¬ L.IsHeader b → blocks L s' b = blocks L s b
  held : ∀ b r, ¬ L.IsHeader b → s.blockCache b = some r → s'.blockCache b = some r

namespace Quiet

theorem refl (h : Mounted L s) : Quiet L s s := ⟨h, fun _ _ => rfl, fun _ _ _ hr => hr⟩

theorem trans {s1 s2 : Ext2FS} (h : Quiet L s s1) (h' : Quiet L s1 s2) : Quiet L s s2 :=
  ⟨h'.mounted, fun b hb => by rw [h'.blocks_eq b hb, h.blocks_eq b hb],
    fun b r hb hr => h'.held b r hb (h.held b r hb hr)⟩

theorem of_reads {s' : Ext2FS} (h : Reads L s s') : Quiet L s s' :=
  ⟨h.mounted, fun b _ => by rw [h.blocks_eq], fun b r _ hr => h.held b r hr⟩

end Quiet

/-- Descriptors that keep their block numbers. -/
theorem Mounted.congr_bgdt (h : Mounted L s) (hd : d.length = (s.bgdt.getD g []).length ∧
      ∀ off, off + 4 ≤ 12 → leAt 4 d off = leAt 4 (s.bgdt.getD g []) off) :
    Mounted L { s with bgdt := s.bgdt.set g d } := by
  have hlen := h.tables.bgdtLength
  refine ⟨{ h.tables with bgdtLength := (length_set).trans hlen, descriptor := ?_ },
    h.cached.ref_lt, h.cached.inj, h.cached.coherent⟩
  intro x hx
  simp only [getD_eq_getElem?_getD, getElem?_set] at hd ⊢
  have hold := h.tables.descriptor x hx
  by_cases hgx : g = x
  · subst hgx
    rw [if_pos rfl, if_pos (by omega), getD_some, hd.1, hd.2 0 (by omega),
      hd.2 4 (by omega), hd.2 8 (by omega)]
    exact hold
  · rw [if_neg hgx]
    exact hold

/-- Counters of the superblock. -/
theorem Mounted.congr_sb (h : Mounted L s) (fb fi : Int) (hraw : raw.length = 1024) :
    Mounted L { s with
      sb := { s.sb with freeBlocksCount := fb, freeInodesCount := fi, raw } } := by
  exact ⟨{ h.tables with rawLength := hraw }, h.cached.ref_lt, h.cached.inj, h.cached.coherent⟩

/-- The counters of a group are set exactly if they fit. -/
theorem setCounters_eq (hlen : d.length = bgdSize) (fb fi ud : Int) :
    (∃ d', setCounters d fb fi ud = .ok d' ∧ d'.length = bgdSize ∧
      (∀ off, off + 4 ≤ 12 → leAt 4 d' off = leAt 4 d off) ∧
      (FitsField 2 fb ∧ FitsField 2 fi ∧ FitsField 2 ud) ∧
      leAt 2 d' 12 = fb.toNat ∧ leAt 2 d' 14 = fi.toNat ∧ leAt 2 d' 16 = ud.toNat) ∨
    setCounters d fb fi ud = .error .struct ∧
      ¬ (FitsField 2 fb ∧ FitsField 2 fi ∧ FitsField 2 ud) := by
  have hset : ∀ {raw : Bytes} (off v : Nat), raw.length = bgdSize → off + 2 ≤ bgdSize →
      (putLe 2 raw off v).length = bgdSize := by
    intro raw off v hlen hoff
    rw [length_putLe (by omega), hlen]
  have h32 : bgdSize = 32 := rfl
  rcases pack_cases (w := 2) hlen 12 fb (by decide) with ⟨hfb, h1⟩ | ⟨hfb, h1⟩ <;>
    simp only [Nat.cast_ofNat] at h1
  · have hl1 := hset 12 fb.toNat hlen (by decide)
    rcases pack_cases (w := 2) hl1 14 fi (by decide) with ⟨hfi, h2⟩ | ⟨hfi, h2⟩ <;>
      simp only [Nat.cast_ofNat] at h2
    · have hl2 := hset 14 fi.toNat hl1 (by decide)
      rcases pack_cases (w := 2) hl2 16 ud (by decide) with ⟨hud, h3⟩ | ⟨hud, h3⟩ <;>
        simp only [Nat.cast_ofNat] at h3
      · refine .inl ⟨_, ?_, hset 16 ud.toNat hl2 (by decide), fun off hoff => ?_,
          ⟨hfb, hfi, hud⟩, ?_, ?_,
          ?_⟩
        · simp only [setCounters, Bind.bind, Except.bind, h1, h2, h3]
        · rw [leAt_putLe_of_disjoint (by omega) (by omega),
            leAt_putLe_of_disjoint (by omega) (by omega),
            leAt_putLe_of_disjoint (by omega) (by omega)]
        · rw [leAt_putLe_of_disjoint (by omega) (by omega),
            leAt_putLe_of_disjoint (by omega) (by omega), leAt_putLe_self (by omega) hfb.2]
        · rw [leAt_putLe_of_disjoint (by omega) (by omega), leAt_putLe_self (by omega) hfi.2]
        · exact leAt_putLe_self (by omega) hud.2
      · refine .inr ⟨?_, fun hc => hud hc.2.2⟩
        simp only [setCounters, Bind.bind, Except.bind, h1, h2, h3]
    · refine .inr ⟨?_, fun hc => hfi hc.2.1⟩
      simp only [setCounters, Bind.bind, Except.bind, h1, h2]
  · refine .inr ⟨?_, fun hc => hfb hc.1⟩
    simp only [setCounters, Bind.bind, Except.bind, h1]

/-- The descriptor of another group is not touched. -/
theorem getD_set_bgdt {bgdt : List Bytes} (hg : g < bgdt.length) (x : Nat) :
    (bgdt.set g d).getD x [] = if x = g then d else bgdt.getD x [] := by
  simp only [getD_eq_getElem?_getD, getElem?_set]
  by_cases hx : g = x
  · subst hx
    rw [if_pos rfl, if_pos hg, if_pos rfl, getD_some]
  · rw [if_neg hx, if_neg (Ne.symm hx)]

/-- **`bgdSetCounters`** sets the counters of the group in memory, exactly if they fit. -/
theorem bgdSetCounters_wp (h : Mounted L s) (hg : g < L.numGroups) (fb fi ud : Int) :
    (bgdSetCounters g fb fi ud).wp
      (fun _ s' => (FitsField 2 fb ∧ FitsField 2 fi ∧ FitsField 2 ud) ∧ Mounted L s' ∧
        (∃ bgdt, s' = { s with bgdt }) ∧
        (counters s').group = update (counters s).group g ⟨fb, fi, ud⟩)
      (fun e s' => e = .struct ∧ s' = s ∧
        ¬ (FitsField 2 fb ∧ FitsField 2 fi ∧ FitsField 2 ud)) s := by
  simp only [bgdSetCounters, wp_bind, wp_get, wp_lift, wp_set, listIndex_group h.tables hg]
  have hlen : (s.bgdt.getD g []).length = bgdSize := (h.tables.descriptor g hg).1
  rcases setCounters_eq hlen fb fi ud with ⟨d, hd, hdlen, hkeep, hfits, h12, h14, h16⟩ |
    ⟨he, hfits⟩
  · rw [hd]
    refine ⟨hfits, h.congr_bgdt ⟨hdlen.trans hlen.symm, hkeep⟩, ⟨_, rfl⟩, funext fun x => ?_⟩
    have hx := getD_set_bgdt (d := d) (h.tables.bgdtLength.symm ▸ hg) x
    simp only [counters, hx, update_apply]
    split
    · rw [h12, h14, h16, Int.toNat_of_nonneg hfits.1.1, Int.toNat_of_nonneg hfits.2.1.1,
        Int.toNat_of_nonneg hfits.2.2.1]
    · rfl
  · rw [he]
    exact ⟨rfl, trivial, hfits⟩

/-- A write of a header block. -/
theorem Quiet.of_wrote {b : Nat} (hb : L.IsHeader b) (h : Wrote L s b d s') : Quiet L s s' := by
  have hne : ∀ {x}, ¬ L.IsHeader x → x ≠ b := fun hx heq => hx (heq ▸ hb)
  refine ⟨h.mounted, fun x hx => ?_, fun x r hx hr => h.held x r (hne hx) hr⟩
  rw [h.blocks_eq, update_of_ne (hne hx)]

theorem Cached.weaken {stale stale' : Nat → Prop} (h : Cached L stale s)
    (himp : ∀ b, stale b → stale' b) : Cached L stale' s :=
  ⟨h.ref_lt, h.inj, fun b r hb => h.coherent b r fun hs => hb (himp b hs)⟩

theorem length_bgdt (h : Tables L s) : s.bgdt.flatten.length = L.numGroups * bgdSize := by
  have hall : ∀ d ∈ s.bgdt, d.length = bgdSize := by
    intro d hd
    obtain ⟨g, hg, rfl⟩ := mem_iff_getElem.mp hd
    have := (h.descriptor g (by rw [← h.bgdtLength]; exact hg)).1
    rwa [getD_eq_getElem?_getD, getElem?_eq_getElem hg] at this
  rw [length_flatten, map_congr_left hall, map_const', sum_replicate_nat, h.bgdtLength]

/-- The blocks `i`, ..., `i + n - 1` of the table were written, and nothing else. -/
structure TableWritten (L : Layout) (s : Ext2FS) (full : Bytes) (n i : Nat) (s' : Ext2FS) :
    Prop where
  quiet : Quiet L s s'
  sb : s'.sb = s.sb
  bgdt : s'.bgdt = s.bgdt
  table : ∀ j, i ≤ j → j < i + n → ∃ rest, blocks L s' (L.bgdtBlock + j) =
    slice full (j * L.blockSize) ((j + 1) * L.blockSize) ++ rest
  others : ∀ b, (∀ j, i ≤ j → j < i + n → b ≠ L.bgdtBlock + j) → blocks L s' b = blocks L s b

/-- The first of the blocks is written, and then the others. -/
theorem TableWritten.cons {full rest : Bytes} {n i : Nat} {s1 s2 : Ext2FS}
    (hi : L.HasArea (.bgdt i))
    (hw : Wrote L s (L.bgdtBlock + i)
      (slice full (i * L.blockSize) ((i + 1) * L.blockSize) ++ rest) s1)
    (h : TableWritten L s1 full n (i + 1) s2) : TableWritten L s full (n + 1) i s2 where
  quiet := (Quiet.of_wrote (.inr ⟨i, hi, rfl⟩) hw).trans h.quiet
  sb := h.sb.trans hw.sb
  bgdt := h.bgdt.trans hw.bgdt
  table j hlo hhi := by
    rcases Nat.eq_or_lt_of_le hlo with rfl | hlt
    · refine ⟨rest, ?_⟩
      rw [h.others _ fun j hj _ => by omega, hw.blocks_eq, update_self]
    · exact h.table j hlt (by omega)
  others b hb := by
    rw [h.others b fun j hj hj' => hb j (by omega) (by omega), hw.blocks_eq,
      update_of_ne (hb i (Nat.le_refl _) (by omega))]

theorem flushBgdtFrom_wp [hL : L.Ok] (h : Mounted L s) {full : Bytes} {n i : Nat}
    (hn : ∀ j, i ≤ j → j < i + n → L.HasArea (.bgdt j)) :
    (flushBgdtFrom full n i).returns (fun _ s' => TableWritten L s full n i s') s := by
  induction n generalizing i s with
  | zero => exact ⟨Quiet.refl h, rfl, rfl, fun j _ hj => by omega, fun _ _ => rfl⟩
  | succ n ih =>
    simp only [flushBgdtFrom, wp_bind, wp_get, h.tables.blockSize, h.tables.bgdtBlock]
    have harea : L.HasArea (.bgdt i) := hn i (Nat.le_refl _) (by omega)
    have hlt : L.bgdtBlock + i < L.blocksCount := (hL.area_lt _ harea).2
    have hchunk := length_slice full (i * L.blockSize) ((i + 1) * L.blockSize)
    have hlen : (slice full (i * L.blockSize) ((i + 1) * L.blockSize)).length ≤ L.blockSize := by
      rw [hchunk, Nat.add_mul]
      omega
    refine wp_imp (writeBlock_wp h.tables hlt (h.cached.weaken fun b hb => .inl hb) rfl ?_) ?_
    · show (_ ++ zeros _).length = _
      rw [length_append, length_zeros]
      omega
    · rintro - s1 hw
      exact wp_imp (ih hw.mounted fun j hj hj' => hn j (by omega) (by omega))
        (fun _ s2 hs2 => .cons harea hw hs2)

/-- The table takes so many blocks. -/
theorem hasArea_bgdt_iff {i : Nat} : L.HasArea (.bgdt i) ↔
    i < (L.numGroups * bgdSize + L.blockSize - 1) / L.blockSize := by
  have hpos := L.blockSize_pos
  rw [Nat.lt_div_iff_mul_lt hpos]
  show i * L.blockSize < L.numGroups * bgdSize ↔ _
  omega

/-- **`flushBgdt`** brings the table to the device. -/
theorem flushBgdt_wp [L.Ok] (h : Mounted L s) :
    flushBgdt.returns (fun _ s' => Quiet L s s' ∧ s'.sb = s.sb ∧ s'.bgdt = s.bgdt ∧
        (∀ i, L.HasArea (.bgdt i) → ∃ rest, blocks L s' (L.bgdtBlock + i) =
          slice s.bgdt.flatten (i * L.blockSize) ((i + 1) * L.blockSize) ++ rest)) s := by
  simp only [flushBgdt, wp_bind, wp_get, h.tables.blockSize, length_bgdt h.tables]
  refine wp_imp (flushBgdtFrom_wp h fun j _ hj => ?_) ?_
  · rw [Nat.zero_add] at hj
    exact hasArea_bgdt_iff.mpr hj
  · rintro - s' hw
    refine ⟨hw.quiet, hw.sb, hw.bgdt, fun i hi => hw.table i (Nat.zero_le _) ?_⟩
    rw [Nat.zero_add]
    exact hasArea_bgdt_iff.mp hi

/-- A write of the sector 2 or 3, past the cache. -/
theorem writeSuper_wp (h : Mounted L s) (hdev : 4 ≤ s.numSectors) {lba : Nat}
    (hlba : lba = 2 ∨ lba = 3) (hd : d.length = 512) :
    (writeSector lba d).returns (fun _ s' => s' = { s with dev := update s.dev lba d } ∧
      Quiet L s s' ∧ ∀ b, b ≠ L.superBlock → blocks L s' b = blocks L s b) s := by
  refine wp_imp (writeSector_wp hd (by omega)) ?_
  rintro - s' rfl
  have hblocks : ∀ b, b ≠ L.superBlock →
      blocks L { s with dev := update s.dev lba d } b = blocks L s b := by
    intro b hb
    refine sectorsAt_congr fun i hi hi' => update_of_ne ?_ _ _
    obtain ⟨hlo, hhi⟩ := L.superBlock_sectors
    rcases Nat.lt_or_gt_of_ne hb with hlt | hgt
    · have := Nat.mul_le_mul_right L.sectorsPerBlock hlt
      rw [Nat.succ_mul] at this
      omega
    · have hle := Nat.mul_le_mul_right L.sectorsPerBlock (Nat.succ_le_of_lt hgt)
      rw [Nat.succ_mul] at hle hhi
      omega
  refine ⟨rfl, ⟨⟨h.tables.congr_dev fun i hi => ?_, h.cached.ref_lt, h.cached.inj,
    fun b r hb hr => ?_⟩, fun b hb => hblocks b fun heq => hb (.inl heq), fun _ _ _ hr => hr⟩,
    hblocks⟩
  · by_cases hil : i = lba
    · rw [hil, update_self, hd]
    · rw [update_of_ne hil]
      exact h.tables.sectors i hi
  · rw [hblocks b hb]
    exact h.cached.coherent b r hb hr

/-- The superblock is of two sectors. -/
theorem slice_halves (h : raw.length = 1024) : slice raw 0 512 ++ slice raw 512 1024 = raw := by
  rw [slice_append_slice (by omega) (by omega)]
  unfold slice
  rw [drop_zero, take_of_length_le (by omega)]

/-- **`flushSuperblock`** brings the superblock to the device, exactly if its counters
fit. -/
theorem flushSuperblock_wp [hL : L.Ok] (h : Mounted L s) :
    flushSuperblock.wp
      (fun _ s' => FitsField 4 s.sb.freeBlocksCount ∧ FitsField 4 s.sb.freeInodesCount ∧
        Quiet L s s' ∧ s'.bgdt = s.bgdt ∧ s'.dev 2 ++ s'.dev 3 = s'.sb.raw ∧
        s'.sb = { s.sb with raw := s.sb.counted } ∧
        ∀ b, b ≠ L.superBlock → blocks L s' b = blocks L s b)
      (fun e s' => e = .struct ∧ s' = s ∧
        ¬ (FitsField 4 s.sb.freeBlocksCount ∧ FitsField 4 s.sb.freeInodesCount)) s := by
  simp only [flushSuperblock, wp_bind, wp_get, wp_lift]
  rcases serializeCounters_eq h.tables.rawLength with ⟨hfb, hfi, hsb⟩ | ⟨hnot, hsb⟩
  · rw [hsb]
    have hraw := Superblock.length_counted h.tables.rawLength
    generalize s.sb.counted = raw at hraw ⊢
    have hm : Mounted L { s with sb := { s.sb with raw } } := h.congr_sb _ _ hraw
    have hdev : 4 ≤ s.numSectors :=
      Nat.le_trans L.superBlock_sectors.2 (h.tables.block_on_device (hL.area_lt .super trivial).2)
    have hlen : ∀ i j, j ≤ 1024 → j - i = 512 → (slice raw i j).length = 512 := by
      intro i j hj hij
      rw [length_slice, hraw]
      omega
    simp only [wp_set]
    refine wp_imp (writeSuper_wp hm hdev (.inl rfl) (hlen 0 512 (by omega) (by omega))) ?_
    rintro - s1 ⟨rfl, hq1, hb1⟩
    refine wp_imp (writeSuper_wp hq1.mounted hdev (.inr rfl)
      (hlen 512 1024 (by omega) (by omega))) ?_
    rintro - s2 ⟨rfl, hq2, hb2⟩
    refine ⟨hfb, hfi, ⟨hq2.mounted, (hq1.trans hq2).blocks_eq, (hq1.trans hq2).held⟩, rfl, ?_, rfl,
      fun b hb => (hb2 b hb).trans (hb1 b hb)⟩
    exact slice_halves hraw
  · rw [hsb]
    exact ⟨rfl, trivial, hnot⟩

/-- Only headers have changed, the counters are `k` now, and the device holds them. -/
structure Flushed (L : Layout) (s : Ext2FS) (k : Counters) (s' : Ext2FS) : Prop extends
    Quiet L s s' where
  counters_eq : counters s' = k
  synced : Synced L s → Synced L s'

theorem fits_iff {k : Counters} : k.Fits g ↔
    (FitsField 4 k.freeBlocks ∧ FitsField 4 k.freeInodes) ∧ FitsField 2 (k.group g).freeBlocks ∧
      FitsField 2 (k.group g).freeInodes ∧ FitsField 2 (k.group g).usedDirs := by
  simp only [fitsField_two, fitsField_four, Counters.Fits]
  tauto

/-- **`updateCounters`** sets the counters and brings the headers to the device, exactly if
the counters fit. -/
theorem updateCounters_wp [hL : L.Ok] (h : Mounted L s) (hg : g < L.numGroups)
    {fb fi ud : Int} {f : Superblock → Superblock} {k : Counters}
    (hk : k.group = update (counters s).group g ⟨fb, fi, ud⟩)
    (hf : f s.sb = { s.sb with freeBlocksCount := k.freeBlocks, freeInodesCount := k.freeInodes }) :
    (updateCounters g fb fi ud f).wp (fun _ s' => Flushed L s k s' ∧ k.Fits g)
      (fun e s' => e = .struct ∧ Quiet L s s' ∧ ¬ k.Fits g) s := by
  have hkg : k.group g = ⟨fb, fi, ud⟩ := by rw [hk, update_self]
  rw [fits_iff, hkg]
  refine wp_bind_of (bgdSetCounters_wp h hg fb fi ud) ?_ ?_
  · rintro - s' ⟨rfl, rfl, hnot⟩
    exact ⟨rfl, Quiet.refl h, fun hc => hnot hc.2⟩
  rintro - s1 ⟨hfits, hm1, ⟨bgdt, rfl⟩, hgroup⟩
  simp only [wp_bind, wp_modify, hf]
  have hm := hm1.congr_sb k.freeBlocks k.freeInodes hm1.tables.rawLength
  refine wp_imp (flushBgdt_wp hm) ?_
  rintro - s3 ⟨hq3, hsb3, hbgdt3, htable⟩
  have hq : Quiet L s s3 := ⟨hq3.mounted, hq3.blocks_eq, hq3.held⟩
  refine wp_mono (flushSuperblock_wp hq3.mounted) ?_ ?_
  · rintro - s4 ⟨hfb, hfi, hq4, hbgdt4, hsuper, hsb4, hblocks⟩
    rw [hsb3] at hfb hfi hsb4
    refine ⟨⟨hq.trans hq4, ?_, fun hsync => ⟨hsuper, ?_, fun i hi => ?_⟩⟩, ⟨hfb, hfi⟩, hfits⟩
    · have hgroup' : (counters s4).group = k.group := by
        rw [hk, ← hgroup]
        simp only [counters, hbgdt4, hbgdt3]
      obtain ⟨kfb, kfi, kg⟩ := k
      simp only [Counters.mk.injEq, counters, hsb4] at hgroup' ⊢
      exact ⟨trivial, trivial, hgroup'⟩
    · rw [hsb4]
      have hparse := Superblock.parse_counters h.tables.rawLength hsync.parse hfb.2 hfi.2
      rw [Int.toNat_of_nonneg hfb.1, Int.toNat_of_nonneg hfi.1] at hparse
      exact hparse
    · obtain ⟨rest, hrest⟩ := htable i hi
      have hne : L.bgdtBlock + i ≠ L.superBlock :=
        fun heq => absurd (hL.area_inj (.bgdt i) .super hi trivial heq) (by simp)
      exact ⟨rest, by rw [hblocks _ hne, hrest, hbgdt4, hbgdt3]⟩
  · rintro - s4 ⟨rfl, rfl, hnot⟩
    rw [hsb3] at hnot
    exact ⟨rfl, hq, fun hc => hnot hc.1⟩

end

end PythonOS.Ext2
