import Mathlib.Data.Set.Card
import Mathlib.Logic.Relation

/-!
# PythonOS.Lib.DirGraph

Directory graphs with link counts: nodes, some of which are directories, and the entries of
the directories, which have names. Two names are special, those of the entry of a
directory for itself and of that for its parent.

`DirGraph.Ok` says that the directories are a tree and that the link counts are right. It
is kept by adding and removing a node under any other name.
-/

namespace PythonOS.Lib

open Option Relation

/-- The nodes that there are, the directories, link counts, and entries. -/
structure DirGraph (ι ν : Type) where
  alloc : Set ι
  dirs : Set ι
  links : ι → Nat
  ents : ι → ν → Option ι

namespace DirGraph

/-- The names of the entry of a directory for itself and of that for its parent. -/
class Dots (ν : Type) where
  dot : ν
  dotdot : ν
  ne : dot ≠ dotdot

open Dots (dot dotdot)

variable {ι ν : Type} [Dots ν]

/-- Any other name of an entry. -/
def Named (n : ν) : Prop := n ≠ dot ∧ n ≠ dotdot

/-- `y` has an entry in `x`. -/
def Child (G : DirGraph ι ν) (x y : ι) : Prop :=
  ∃ n, Named n ∧ G.ents x n = some y

/-- The subdirectories of `x`. -/
def subdirs (G : DirGraph ι ν) (x : ι) : Set ι :=
  { y | y ∈ G.dirs ∧ G.Child x y }

/-- The entries for `y`: directory and name. -/
def refs (G : DirGraph ι ν) (y : ι) : Set (ι × ν) := { p | G.ents p.1 p.2 = some y }

/-- **The directories are a tree, and the link counts are right.** -/
structure Ok (G : DirGraph ι ν) (root : ι) : Prop where
  finite : { p : ι × ν | (G.ents p.1 p.2).isSome }.Finite
  dirs_alloc : G.dirs ⊆ G.alloc
  root_mem : root ∈ G.dirs
  ents_dir : ∀ {x n y}, G.ents x n = some y → x ∈ G.dirs
  ents_alloc : ∀ {x n y}, G.ents x n = some y → y ∈ G.alloc
  self : ∀ {x}, x ∈ G.dirs → G.ents x dot = some x
  parent : ∀ {x}, x ∈ G.dirs → ∃ p ∈ G.dirs, G.ents x dotdot = some p ∧
    (G.Child p x ∨ x = root ∧ p = root)
  one_parent : ∀ {y x n z m}, y ∈ G.dirs → Named n → Named m →
    G.ents x n = some y → G.ents z m = some y → x = z ∧ n = m
  root_top : ∀ {x n}, Named n → G.ents x n ≠ some root
  dir_links : ∀ {x}, x ∈ G.dirs → G.links x = 2 + (G.subdirs x).ncard
  file_links : ∀ {x}, x ∈ G.alloc → x ∉ G.dirs → G.links x = (G.refs x).ncard
  reach : ∀ {x}, x ∈ G.dirs → ReflTransGen (fun p q => q ∈ G.subdirs p) root x

variable {G : DirGraph ι ν} {root x y : ι} {n : ν}

namespace Ok

variable (h : G.Ok root)

include h

theorem refs_finite (y : ι) : (G.refs y).Finite :=
  h.finite.subset fun p hp => by
    show (G.ents p.1 p.2).isSome
    rw [show G.ents p.1 p.2 = some y from hp]
    rfl

theorem subdirs_finite (x : ι) : (G.subdirs x).Finite := by
  refine ((h.finite.image fun p => G.ents p.1 p.2).preimage (some_injective ι).injOn).subset ?_
  rintro y ⟨-, n, -, hy⟩
  exact ⟨(x, n), by show (G.ents x n).isSome; rw [hy]; rfl, hy⟩

/-- A name that is not in a directory is an ordinary one. -/
theorem named_of_none (hx : x ∈ G.dirs) (hn : G.ents x n = none) : Named n := by
  obtain ⟨p, -, hp, -⟩ := h.parent hx
  refine ⟨?_, ?_⟩
  · rintro rfl
    rw [h.self hx] at hn
    cases hn
  · rintro rfl
    rw [hp] at hn
    cases hn

/-- Entries for what is no directory have ordinary names. -/
theorem named_of_file (hxy : G.ents x n = some y) (hy : y ∉ G.dirs) : Named n := by
  have hx := h.ents_dir hxy
  obtain ⟨p, hp, hpx, -⟩ := h.parent hx
  refine ⟨?_, ?_⟩
  · rintro rfl
    rw [h.self hx] at hxy
    exact hy (Option.some.inj hxy ▸ hx)
  · rintro rfl
    rw [hpx] at hxy
    exact hy (Option.some.inj hxy ▸ hp)

theorem no_entry (hy : y ∉ G.alloc) (x : ι) (n : ν) : G.ents x n ≠ some y :=
  fun hc => hy (h.ents_alloc hc)

end Ok

variable [DecidableEq ι] {G' : DirGraph ι ν} {d : Bool}

/-! ### A node comes -/

section

variable (h : G.Ok root) (hx : x ∈ G.dirs) (hn : G.ents x n = none) (hy : y ∉ G.alloc)

include h hx hn hy

/-- What comes with a new node `y`: its entry in `x`, and if `d` says that it is a directory
those of its own. -/
theorem Ok.grow (halloc : G'.alloc = insert y G.alloc)
    (hdirs : ∀ z, z ∈ G'.dirs ↔ z ∈ G.dirs ∨ d ∧ z = y)
    (hlinks : ∀ z, G'.links z =
      if z = y then 1 + d.toNat else if z = x then G.links x + d.toNat else G.links z)
    (hents : ∀ {z m w}, G'.ents z m = some w ↔ G.ents z m = some w ∨ (z = x ∧ m = n ∧ w = y) ∨
      d ∧ z = y ∧ (m = dot ∧ w = y ∨ m = dotdot ∧ w = x)) : G'.Ok root := by
  have hydir : y ∉ G.dirs := fun hc => hy (h.dirs_alloc hc)
  have hnamed := h.named_of_none hx hn
  have hold : ∀ {z m w}, G.ents z m = some w → G'.ents z m = some w := fun hw => hents.mpr (.inl hw)
  have hentry : G'.ents x n = some y := hents.mpr (.inr (.inl ⟨rfl, rfl, rfl⟩))
  have hnew : ∀ {z m w}, Named m → G'.ents z m = some w →
      G.ents z m = some w ∨ z = x ∧ m = n ∧ w = y := by
    intro z m w hm hw
    rcases hents.mp hw with hc | hc | ⟨-, -, ⟨hc, -⟩ | ⟨hc, -⟩⟩
    · exact .inl hc
    · exact .inr hc
    · exact absurd hc hm.1
    · exact absurd hc hm.2
  -- what had an entry is no new directory
  have hdir : ∀ {z m w}, G.ents z m = some w → w ∈ G'.dirs → w ∈ G.dirs := fun hw hc =>
    ((hdirs _).mp hc).resolve_right fun hc => h.no_entry hy _ _ (hc.2 ▸ hw)
  have hsub : ∀ z, G'.subdirs z = G.subdirs z ∪
      { w | d ∧ z = x ∧ w = y } := by
    intro z
    ext w
    constructor
    · rintro ⟨hw, m, hm, hzw⟩
      rcases hnew hm hzw with hzw | ⟨hz, -, rfl⟩
      · exact .inl ⟨hdir hzw hw, m, hm, hzw⟩
      · exact .inr ⟨(((hdirs _).mp hw).resolve_left hydir).1, hz, rfl⟩
    · rintro (⟨hw, m, hm, hzw⟩ | ⟨hd, rfl, rfl⟩)
      · exact ⟨(hdirs _).mpr (.inl hw), m, hm, hold hzw⟩
      · exact ⟨(hdirs _).mpr (.inr ⟨hd, rfl⟩), n, hnamed, hentry⟩
  have hreach : ∀ {z}, z ∈ G.dirs →
      ReflTransGen (fun p q => q ∈ G'.subdirs p) root z := fun hz =>
    ReflTransGen.mono (fun p q (hw : q ∈ G.subdirs p) => by
      rw [hsub]; exact .inl hw) root _ (h.reach hz)
  refine ⟨?_, fun z hz => ?_, (hdirs _).mpr (.inl h.root_mem), fun hz => ?_, fun hz => ?_,
    fun hz => ?_, fun hz => ?_, fun hw hm hm' hz hz' => ?_, fun hm hz => ?_, fun {z} hz => ?_,
    fun {z} hz hzd => ?_, fun hz => ?_⟩
  · refine (((h.finite.insert (x, n)).insert (y, dot)).insert (y, dotdot)).subset fun p hp => ?_
    obtain ⟨w, hw⟩ := isSome_iff_exists.mp hp
    rcases hents.mp hw with hw | ⟨h1, h2, -⟩ | ⟨-, h1, ⟨h2, -⟩ | ⟨h2, -⟩⟩
    · exact .inr (.inr (.inr (by show (G.ents p.1 p.2).isSome; rw [hw]; rfl)))
    · exact .inr (.inr (.inl (Prod.ext h1 h2)))
    · exact .inr (.inl (Prod.ext h1 h2))
    · exact .inl (Prod.ext h1 h2)
  · rw [halloc]
    exact ((hdirs z).mp hz).symm.imp And.right fun hz => h.dirs_alloc hz
  · rcases hents.mp hz with hz | ⟨rfl, -, -⟩ | ⟨hd, rfl, -⟩
    · exact (hdirs _).mpr (.inl (h.ents_dir hz))
    · exact (hdirs _).mpr (.inl hx)
    · exact (hdirs _).mpr (.inr ⟨hd, rfl⟩)
  · rw [halloc]
    rcases hents.mp hz with hz | ⟨-, -, rfl⟩ | ⟨-, -, ⟨-, rfl⟩ | ⟨-, rfl⟩⟩
    · exact .inr (h.ents_alloc hz)
    · exact .inl rfl
    · exact .inl rfl
    · exact .inr (h.dirs_alloc hx)
  · rcases (hdirs _).mp hz with hz | ⟨hd, rfl⟩
    · exact hold (h.self hz)
    · exact hents.mpr (.inr (.inr ⟨hd, rfl, .inl ⟨rfl, rfl⟩⟩))
  · rcases (hdirs _).mp hz with hz | ⟨hd, rfl⟩
    · obtain ⟨p, hp, hzp, hchild⟩ := h.parent hz
      refine ⟨p, (hdirs _).mpr (.inl hp), hold hzp, hchild.imp ?_ id⟩
      rintro ⟨m, hm, hpz⟩
      exact ⟨m, hm, hold hpz⟩
    · exact ⟨x, (hdirs _).mpr (.inl hx), hents.mpr (.inr (.inr ⟨hd, rfl, .inr ⟨rfl, rfl⟩⟩)),
        .inl ⟨n, hnamed, hentry⟩⟩
  · rcases hnew hm hz with hz | ⟨rfl, rfl, rfl⟩
    · rcases hnew hm' hz' with hz' | ⟨-, -, rfl⟩
      · exact h.one_parent (hdir hz hw) hm hm' hz hz'
      · exact absurd hz (h.no_entry hy _ _)
    · rcases hnew hm' hz' with hz' | ⟨rfl, rfl, -⟩
      · exact absurd hz' (h.no_entry hy _ _)
      · exact ⟨rfl, rfl⟩
  · rcases hnew hm hz with hz | ⟨-, -, rfl⟩
    · exact h.root_top hm hz
    · exact hydir h.root_mem
  · rw [hlinks, hsub]
    rcases (hdirs _).mp hz with hz | ⟨hd, rfl⟩
    · rw [if_neg fun hc : z = y => hydir (hc ▸ hz)]
      by_cases hzx : z = x
      · subst hzx
        have hnot : y ∉ G.subdirs z := fun hc => hydir hc.1
        cases d <;> simp [h.dir_links hx, Set.ncard_insert_of_notMem hnot (h.subdirs_finite z),
          Nat.add_assoc]
      · simp [hzx, h.dir_links hz]
    · have hnone : G.subdirs z = ∅ := Set.eq_empty_of_forall_notMem fun w hw =>
        hydir (hw.2.elim fun _ hm => h.ents_dir hm.2)
      have hzx : z ≠ x := fun hc => hydir (hc ▸ hx)
      simp [hnone, hd, hzx]
  · rw [hlinks]
    split
    · next hzy =>
      -- the new entry is the only one
      subst hzy
      have hd : d = false := Bool.eq_false_iff.mpr fun hd => hzd ((hdirs _).mpr (.inr ⟨hd, rfl⟩))
      have hrefs : G'.refs z = {(x, n)} := by
        ext ⟨w, m⟩
        show G'.ents w m = some z ↔ _
        simp [hents, hd, h.no_entry hy]
      rw [hrefs, Set.ncard_singleton, hd]
      rfl
    · next hzy =>
      have hzd : z ∉ G.dirs := fun hc => hzd ((hdirs _).mpr (.inl hc))
      have hzx : z ≠ x := fun hc => hzd (hc ▸ hx)
      have hrefs : G'.refs z = G.refs z := by
        ext ⟨w, m⟩
        show G'.ents w m = some z ↔ G.ents w m = some z
        simp [hents, hzy, hzx]
      rw [if_neg hzx, hrefs, ← h.file_links ((halloc ▸ hz).resolve_left hzy) hzd]
  · rcases (hdirs _).mp hz with hz | ⟨hd, rfl⟩
    · exact hreach hz
    · exact (hreach hx).tail (by rw [hsub]; exact .inr ⟨hd, rfl, rfl⟩)

variable [DecidableEq ν]

/-- A new node `y` that is no directory, with an entry in `x`. -/
def addFile (G : DirGraph ι ν) (x : ι) (n : ν) (y : ι) : DirGraph ι ν where
  alloc := insert y G.alloc
  dirs := G.dirs
  links z := if z = y then 1 else G.links z
  ents z m := if z = x ∧ m = n then some y else G.ents z m

theorem Ok.addFile : (G.addFile x n y).Ok root := by
  refine h.grow (d := false) hx hn hy rfl (by simp [DirGraph.addFile])
    (fun z => ?_) fun {z m w} => ?_
  · by_cases hzx : z = x <;> simp [DirGraph.addFile, hzx]
  · by_cases hc : z = x ∧ m = n
    · simp [DirGraph.addFile, hc, hn, eq_comm]
    · simp [DirGraph.addFile, hc, ← and_assoc]

/-- A new directory `y` with an entry in `x`. -/
def addDir (G : DirGraph ι ν) (x : ι) (n : ν) (y : ι) : DirGraph ι ν where
  alloc := insert y G.alloc
  dirs := insert y G.dirs
  links z := if z = y then 2 else if z = x then G.links x + 1 else G.links z
  ents z m :=
    if z = y then if m = dot then some y else if m = dotdot then some x else none
    else if z = x ∧ m = n then some y
    else G.ents z m

theorem Ok.addDir : (G.addDir x n y).Ok root := by
  have hydir : y ∉ G.dirs := fun hc => hy (h.dirs_alloc hc)
  refine h.grow (d := true) hx hn hy rfl (fun z => ?_) (fun _ => rfl) fun {z m w} => ?_
  · simp [DirGraph.addDir, or_comm]
  · have hnone : G.ents y m ≠ some w := fun hc => hydir (h.ents_dir hc)
    have hdots : (dot : ν) ≠ dotdot := Dots.ne
    simp only [DirGraph.addDir]
    grind

end

/-! ### An entry goes -/

variable (h : G.Ok root) (hxy : G.ents x n = some y)

include h hxy

/-- What goes with the entry for `y` in `x`: `y` with the last one, and a directory with its
own entries. -/
theorem Ok.shrink (hn : Named n) (hd : d = true ↔ y ∈ G.dirs)
    (hempty : ∀ m, Named m → G.ents y m = none)
    (halloc : ∀ {z}, z ∈ G'.alloc ↔ z ∈ G.alloc ∧ (z = y → d = false ∧ 1 < G.links y))
    (hdirs : G'.dirs = G.dirs \ {y})
    (hlinks : ∀ z, G'.links z = if z = (if d then x else y) then G.links z - 1 else G.links z)
    (hents : ∀ {z m w}, G'.ents z m = some w ↔
      G.ents z m = some w ∧ ¬ (z = x ∧ m = n) ∧ (d → z ≠ y)) : G'.Ok root := by
  have hchildless : ∀ {m w}, Named m → G.ents y m ≠ some w := fun hm => by
    rw [hempty _ hm]
    exact (by simp)
  have hyroot : y ≠ root := by
    rintro rfl
    exact h.root_top hn hxy
  -- ordinary entries for other nodes stay
  have hkeep : ∀ {z m w}, Named m → w ≠ y →
      (G'.ents z m = some w ↔ G.ents z m = some w) := by
    intro z m w hm hw
    rw [hents, and_iff_left_of_imp]
    refine fun hz => ⟨?_, ?_⟩
    · rintro ⟨rfl, rfl⟩
      rw [hxy] at hz
      exact hw (Option.some.inj hz).symm
    · rintro - rfl
      exact hchildless hm hz
  -- no entry that is left is for a directory `y`
  have hgone : ∀ {z m}, d → G'.ents z m ≠ some y := by
    intro z m hdir hz
    obtain ⟨hz, hnot, hzy⟩ := hents.mp hz
    have hzd := h.ents_dir hz
    by_cases hm : Named m
    · exact hnot (h.one_parent (hd.mp hdir) hm hn hz hxy)
    · obtain ⟨p, hp, hzp, hchild⟩ := h.parent hzd
      by_cases hdot : m = dot
      · rw [hdot, h.self hzd] at hz
        exact hzy hdir (Option.some.inj hz)
      · have hdd : m = dotdot := by
          by_contra hc
          exact hm ⟨hdot, hc⟩
        rw [hdd, hzp] at hz
        cases hz
        rcases hchild with ⟨k, hk, hpz⟩ | ⟨-, hroot⟩
        · exact hchildless hk hpz
        · exact hyroot hroot
  have hspecial : ∀ {z m w}, z ≠ y → ¬ Named m → G.ents z m = some w →
      G'.ents z m = some w := by
    intro z m w hzy hm hz
    exact hents.mpr ⟨hz, fun hc => hm (hc.2 ▸ hn), fun _ => hzy⟩
  have hsub : ∀ z, G'.subdirs z = G.subdirs z \ {y} := by
    intro z
    ext w
    constructor
    · rintro ⟨hw, m, hm, hzw⟩
      rw [hdirs] at hw
      exact ⟨⟨hw.1, m, hm, (hkeep hm hw.2).mp hzw⟩, hw.2⟩
    · rintro ⟨⟨hw, m, hm, hzw⟩, hwy⟩
      exact ⟨hdirs ▸ ⟨hw, hwy⟩, m, hm, (hkeep hm hwy).mpr hzw⟩
  have hrefs : ∀ {z}, z ∉ G.dirs → G'.refs z = G.refs z \ {(x, n)} := by
    intro z hz
    ext ⟨w, m⟩
    refine hents.trans (and_congr_right fun hw => ?_)
    simp only [Set.mem_singleton_iff, Prod.mk.injEq]
    refine and_iff_left fun _ hwy => ?_
    exact hchildless (h.named_of_file hw hz) (hwy ▸ hw)
  have hdir : ∀ {z}, z ∈ G'.dirs → z ∈ G.dirs ∧ z ≠ y := fun hz => by rwa [hdirs] at hz
  refine ⟨h.finite.subset fun p hp => ?_, fun z hz => ?_,
    by rw [hdirs]; exact ⟨h.root_mem, hyroot.symm⟩,
    fun {z m w} hz => ?_, fun {z m w} hz => halloc.mpr ⟨h.ents_alloc (hents.mp hz).1, ?_⟩,
    fun hz => hspecial (hdir hz).2 (fun hc => hc.1 rfl) (h.self (hdir hz).1), fun {z} hz => ?_,
    fun hw hm hm' hz hz' => h.one_parent (hdir hw).1 hm hm' (hents.mp hz).1 (hents.mp hz').1,
    fun hm hz => h.root_top hm (hents.mp hz).1, fun {z} hz => ?_, fun {z} hz hzd => ?_,
    fun {z} hz => ?_⟩
  · obtain ⟨w, hw⟩ := isSome_iff_exists.mp hp
    show (G.ents p.1 p.2).isSome
    rw [(hents.mp hw).1]
    rfl
  · exact halloc.mpr ⟨h.dirs_alloc (hdir hz).1, fun hc => absurd hc (hdir hz).2⟩
  · obtain ⟨hz, -, hzy⟩ := hents.mp hz
    rw [hdirs]
    refine ⟨h.ents_dir hz, ?_⟩
    rintro rfl
    exact hzy (hd.mpr (h.ents_dir hz)) rfl
  · -- an entry that is left is one more than the one that goes
    rintro rfl
    have hfile : d = false := Bool.eq_false_iff.mpr fun hdir => hgone hdir hz
    have hw : w ∉ G.dirs := fun hc => by simp [hfile] at hd; exact hd hc
    have hleft : (z, m) ∈ G.refs w \ {(x, n)} := hrefs hw ▸ hz
    have hpos := (Set.ncard_pos (h.refs_finite w).sdiff).mpr ⟨_, hleft⟩
    rw [Set.ncard_sdiff_singleton_of_mem (show (x, n) ∈ G.refs w from hxy),
      ← h.file_links (h.ents_alloc hxy) hw] at hpos
    exact ⟨hfile, by omega⟩
  · obtain ⟨p, hp, hzp, hchild⟩ := h.parent (hdir hz).1
    have hzp' := hspecial (hdir hz).2 (fun hc => hc.2 rfl) hzp
    refine ⟨p, ?_, hzp', hchild.imp ?_ id⟩
    · rw [hdirs]
      refine ⟨hp, ?_⟩
      rintro rfl
      exact hgone (hd.mpr hp) hzp'
    · rintro ⟨m, hm, hpz⟩
      exact ⟨m, hm, (hkeep hm (hdir hz).2).mpr hpz⟩
  · obtain ⟨hz, hzy⟩ := hdir hz
    rw [hlinks, hsub, h.dir_links hz]
    by_cases hmem : y ∈ G.subdirs z
    · have hpos := (Set.ncard_pos (h.subdirs_finite z)).mpr ⟨y, hmem⟩
      obtain ⟨hyd, m, hm, hzy⟩ := id hmem
      rw [Set.ncard_sdiff_singleton_of_mem hmem, hd.mpr hyd]
      simp only [(h.one_parent hyd hm hn hzy hxy).1, if_true] at hpos ⊢
      omega
    · rw [Set.sdiff_singleton_eq_self hmem, if_neg]
      split
      · next hyd =>
        rintro rfl
        exact hmem ⟨hd.mp hyd, n, hn, hxy⟩
      · exact hzy
  · obtain ⟨hz, hlast⟩ := halloc.mp hz
    have hzd : z ∉ G.dirs := by
      intro hc
      rcases eq_or_ne z y with rfl | hzy
      · exact absurd (hd.mpr hc) (by simp [(hlast rfl).1])
      · exact hzd (hdirs ▸ ⟨hc, hzy⟩)
    rw [hlinks, hrefs hzd, h.file_links hz hzd]
    by_cases hzy : z = y
    · subst hzy
      rw [(hlast rfl).1, Set.ncard_sdiff_singleton_of_mem (show (x, n) ∈ G.refs z from hxy)]
      exact if_pos rfl
    · have hnot : (x, n) ∉ G.refs z := fun hc => hzy (Option.some.inj (hc.symm.trans hxy))
      rw [Set.sdiff_singleton_eq_self hnot, if_neg]
      split
      · exact fun hc => hzd (hc ▸ h.ents_dir hxy)
      · exact hzy
  · -- no path goes through `y`, which has no children
    have hall : ∀ w, ReflTransGen (fun p q => q ∈ G.subdirs p) root w → w = y ∨
        ReflTransGen (fun p q => q ∈ G'.subdirs p) root w := by
      intro w hw
      induction hw with
      | refl => exact .inr .refl
      | @tail b c _ hbc ih =>
        rcases ih with rfl | hb
        · obtain ⟨-, m, hm, hc⟩ := hbc
          exact absurd hc (hchildless hm)
        · by_cases hcy : c = y
          · exact .inl hcy
          · exact .inr (hb.tail (by rw [hsub]; exact ⟨hbc, hcy⟩))
    exact (hall z (h.reach (hdir hz).1)).resolve_left (hdir hz).2

variable [DecidableEq ν]

/-- The entry for `y`, which is no directory, goes, and `y` with the last one. -/
def removeFile (G : DirGraph ι ν) (x : ι) (n : ν) (y : ι) : DirGraph ι ν where
  alloc := if G.links y ≤ 1 then G.alloc \ {y} else G.alloc
  dirs := G.dirs
  links z := if z = y then G.links y - 1 else G.links z
  ents z m := if z = x ∧ m = n then none else G.ents z m

theorem Ok.removeFile (hy : y ∉ G.dirs) : (G.removeFile x n y).Ok root := by
  refine h.shrink (d := false) hxy (h.named_of_file hxy hy) (by simp [hy])
    (fun m _ => ?_) (fun {z} => ?_) (Set.sdiff_singleton_eq_self hy).symm
    (fun z => ?_) fun {z m w} => ?_
  · rw [eq_none_iff_forall_ne_some]
    exact fun w hw => hy (h.ents_dir hw)
  · by_cases hle : G.links y ≤ 1
    · simp [DirGraph.removeFile, hle, Nat.not_lt_of_le hle]
    · simp [DirGraph.removeFile, hle, Nat.lt_of_not_le hle]
  · by_cases hzy : z = y <;> simp [DirGraph.removeFile, hzy]
  · by_cases hc : z = x ∧ m = n <;> simp [DirGraph.removeFile, hc]

/-- The directory `y` goes, with its entry in `x`. -/
def removeDir (G : DirGraph ι ν) (x : ι) (n : ν) (y : ι) : DirGraph ι ν where
  alloc := G.alloc \ {y}
  dirs := G.dirs \ {y}
  links z := if z = x then G.links x - 1 else G.links z
  ents z m := if z = y ∨ z = x ∧ m = n then none else G.ents z m

theorem Ok.removeDir (hn : Named n) (hy : y ∈ G.dirs)
    (hempty : ∀ m, Named m → G.ents y m = none) : (G.removeDir x n y).Ok root := by
  refine h.shrink (d := true) hxy hn (by simp [hy]) hempty (by simp [DirGraph.removeDir]) rfl
    (fun z => ?_) fun {z m w} => ?_
  · by_cases hzx : z = x <;> simp [DirGraph.removeDir, hzx]
  · simp only [DirGraph.removeDir]
    grind

end DirGraph

end PythonOS.Lib
