import PythonOS.Ext2.Alloc
import PythonOS.Ext2.Node

/-!
# PythonOS.Ext2.DirBlock

Directory blocks as lists of records.

`Record` is a record with everything that makes it well-formed; a block that is
`encodeAll` of a list of records is tiled by them, with nothing in between or left
over. The walks of the driver along a block are then functions of the list, and its
changes are edits of the list: a record is split, merged into the one before it, or
loses its inode.
-/

namespace PythonOS.Ext2

open Lib List Lib.Bytes

/-- A directory record: its fixed part, its name, and the bytes up to the next
record. -/
structure Record where
  ino : Nat
  fileType : Nat
  name : Bytes
  pad : Bytes
  ino_lt : ino < 256 ^ 4
  fileType_lt : fileType < 256 ^ 1
  name_lt : name.length < 256 ^ 1
  recLen_lt : 8 + name.length + pad.length < 256 ^ 2
  aligned : 4 ∣ 8 + name.length + pad.length

/-- A name with an inode and a type. -/
abbrev RawEntry := Bytes × Nat × Nat

namespace Record

def recLen (r : Record) : Nat := 8 + r.name.length + r.pad.length

def dirent (r : Record) : Dirent := ⟨r.ino, r.recLen, r.name.length, r.fileType⟩

def encode (r : Record) : Bytes :=
  leBytes 4 r.ino ++ (leBytes 2 r.recLen ++ (leBytes 1 r.name.length ++
    (leBytes 1 r.fileType ++ (r.name ++ r.pad))))

theorem length_encode (r : Record) : r.encode.length = r.recLen := by
  simp only [encode, length_append, length_leBytes, recLen]
  omega

/-- A record field by field, with what follows it. -/
theorem encode_append (r : Record) (c : Bytes) : r.encode ++ c =
    leBytes 4 r.ino ++ (leBytes 2 r.recLen ++ (leBytes 1 r.name.length ++
      (leBytes 1 r.fileType ++ (r.name ++ (r.pad ++ c))))) := by
  simp only [encode, append_assoc]

def entry (r : Record) : RawEntry := (r.name, r.ino, r.fileType)

end Record

/-- The bytes of a block. -/
def encodeAll (rs : List Record) : Bytes := rs.flatMap Record.encode

/-- The entries of a block: records without an inode are not in use. -/
def entries (rs : List Record) : List RawEntry := (rs.filter (·.ino ≠ 0)).map Record.entry

/-- An entry as it is listed. -/
def RawEntry.listed (e : RawEntry) : Entry := (Utf8.decode e.1, e.2)

@[simp] theorem encodeAll_nil : encodeAll [] = [] := rfl

@[simp] theorem encodeAll_cons (r : Record) (rs : List Record) :
    encodeAll (r :: rs) = r.encode ++ encodeAll rs := rfl

@[simp] theorem encodeAll_append (rs rs' : List Record) :
    encodeAll (rs ++ rs') = encodeAll rs ++ encodeAll rs' := flatMap_append ..

@[simp] theorem entries_append (rs rs' : List Record) :
    entries (rs ++ rs') = entries rs ++ entries rs' := by simp [entries]

theorem entries_cons (r : Record) (rs : List Record) :
    entries (r :: rs) = if r.ino = 0 then entries rs else r.entry :: entries rs := by
  unfold entries
  by_cases h : r.ino = 0 <;> simp [h]

/-- There are no more records than bytes. -/
theorem length_le_encodeAll (rs : List Record) : rs.length ≤ (encodeAll rs).length := by
  induction rs with
  | nil => exact Nat.le_refl _
  | cons r rs ih =>
    rw [encodeAll_cons, length_append, r.length_encode, Record.recLen, length_cons]
    omega

theorem length_encodeAll_cons (a : Bytes) (r : Record) (rs : List Record) :
    a.length + (encodeAll (r :: rs)).length = a.length + r.recLen + (encodeAll rs).length := by
  rw [encodeAll_cons, length_append, r.length_encode, Nat.add_assoc]

/-! ### Reading a record -/

/-- A field that is followed by others. -/
theorem unpack_field {a c : Bytes} {w v : Nat} (hv : v < 256 ^ w) {off : Nat}
    (hoff : off = a.length) : unpack w (a ++ (leBytes w v ++ c)) (off : Nat) = .ok v := by
  subst hoff
  have hleAt := leAt_append_right w a (leBytes w v ++ c) 0
  rw [leAt_leBytes_append hv, Nat.add_zero] at hleAt
  rw [unpack_eq ⟨by omega, by simp only [length_append, length_leBytes]; omega⟩,
    Int.toNat_natCast, hleAt]

section

variable (a c : Bytes) (r : Record)

theorem dirent_eq : dirent (a ++ (r.encode ++ c)) a.length = .ok r.dirent := by
  have e0 : unpack 4 (a ++ (r.encode ++ c)) a.length = .ok r.ino := by
    exact unpack_field r.ino_lt rfl
  have e1 : unpack 2 (a ++ (r.encode ++ c)) (a.length + 4 : Nat) = .ok r.recLen := by
    rw [r.encode_append, ← append_assoc]
    exact unpack_field r.recLen_lt (by simp)
  have e2 : unpack 1 (a ++ (r.encode ++ c)) (a.length + 6 : Nat) = .ok r.name.length := by
    rw [r.encode_append, ← append_assoc, ← append_assoc]
    exact unpack_field r.name_lt (by simp)
  have e3 : unpack 1 (a ++ (r.encode ++ c)) (a.length + 7 : Nat) = .ok r.fileType := by
    rw [r.encode_append, ← append_assoc, ← append_assoc, ← append_assoc]
    exact unpack_field r.fileType_lt (by simp)
  simp only [dirent, bind, Except.bind, e0, e1, e2, e3, pure, Except.pure, Record.dirent]

theorem nameAt_eq : nameAt (a ++ (r.encode ++ c)) a.length r.name.length = r.name := by
  rw [nameAt, r.encode_append, ← append_assoc, ← append_assoc, ← append_assoc, ← append_assoc]
  exact slice_append_mid _ (by simp) (by simp)

end

/-! ### Walks along a block -/

/-- A walk stands at a record: where it goes on, that it is inside the block, and that the record
does not end it. -/
theorem walk_cons (a : Bytes) (r : Record) (rs : List Record) :
    (a ++ r.encode).length = a.length + r.recLen ∧
      a.length < (a ++ encodeAll (r :: rs)).length ∧ ¬ r.dirent.recLen = 0 := by
  have hlen : (a ++ r.encode).length = a.length + r.recLen := by
    rw [length_append, r.length_encode]
  refine ⟨hlen, ?_, ?_⟩
  · rw [encodeAll_cons, ← append_assoc, length_append, hlen, Record.recLen]
    omega
  · simp only [Record.dirent, Record.recLen]
    omega

section Walk

variable {rs : List Record} {a : Bytes} {fuel : Nat} (hfuel : rs.length ≤ fuel)

include hfuel

/-- **`scanBlock`** lists the entries of the block. -/
theorem scanBlock_eq :
    scanBlock (a ++ encodeAll rs).length (a ++ encodeAll rs) fuel a.length =
      .ok ((entries rs).map RawEntry.listed) := by
  induction rs generalizing a fuel with
  | nil =>
    cases fuel with
    | zero => rfl
    | succ fuel =>
      rw [scanBlock, if_neg (by simp)]
      rfl
  | cons r rs ih =>
    obtain ⟨fuel, rfl⟩ : ∃ k, fuel = k + 1 := ⟨fuel - 1, by simp at hfuel; omega⟩
    obtain ⟨hlen, hlt, hz⟩ := walk_cons a r rs
    have hrest := @ih (a ++ r.encode) fuel (by simpa using hfuel)
    rw [append_assoc, hlen] at hrest
    rw [scanBlock, if_pos hlt, encodeAll_cons]
    simp only [bind, Except.bind, dirent_eq]
    rw [if_neg hz]
    simp only [Record.dirent]
    rw [hrest, entries_cons]
    by_cases hz : r.ino = 0
    · simp only [hz, if_true]
      rfl
    · simp only [hz, if_false, nameAt_eq]
      rfl

/-- **`findRoom`** finds a record with room, if it finds one. -/
theorem findRoom_eq {need : Nat} :
    findRoom (a ++ encodeAll rs).length need (a ++ encodeAll rs) fuel a.length = .ok none ∨
      ∃ r1 r r2, rs = r1 ++ r :: r2 ∧ r.dirent.actual + need ≤ r.recLen ∧
        findRoom (a ++ encodeAll rs).length need (a ++ encodeAll rs) fuel a.length =
          .ok (some (a.length + (encodeAll r1).length, r.dirent)) := by
  induction rs generalizing a fuel with
  | nil =>
    left
    cases fuel with
    | zero => rfl
    | succ fuel => rw [findRoom, if_neg (by simp)]
  | cons r rs ih =>
    obtain ⟨fuel, rfl⟩ : ∃ k, fuel = k + 1 := ⟨fuel - 1, by simp at hfuel; omega⟩
    obtain ⟨hlen, hlt, hz⟩ := walk_cons a r rs
    rw [findRoom, if_pos hlt, encodeAll_cons]
    simp only [bind, Except.bind, dirent_eq]
    rw [if_neg hz]
    by_cases hroom : r.dirent.actual + need ≤ r.dirent.recLen
    · rw [if_pos hroom]
      exact .inr ⟨[], r, rs, rfl, hroom, rfl⟩
    · rw [if_neg hroom]
      have hrest := @ih (a ++ r.encode) fuel (by simpa using hfuel)
      rw [append_assoc, hlen] at hrest
      rcases hrest with hnone | ⟨r1, r', r2, hrs, hfits, hsome⟩
      · exact .inl hnone
      · refine .inr ⟨r :: r1, r', r2, by rw [hrs]; rfl, hfits, ?_⟩
        rw [length_encodeAll_cons]
        exact hsome

/-- The record `findEntry` looks for. -/
def Record.Named (r : Record) (name : Bytes) : Prop := r.ino ≠ 0 ∧ r.name = name

/-- **`findEntry`** finds the first record of the name, and the one before it. -/
theorem findEntry_eq {name : Bytes} {prev : Option Nat} :
    (∀ r ∈ rs, ¬ r.Named name) ∧
      findEntry (a ++ encodeAll rs).length name (a ++ encodeAll rs) fuel a.length prev = .ok none ∨
    ∃ r1 r r2 prev', rs = r1 ++ r :: r2 ∧ (∀ q ∈ r1, ¬ q.Named name) ∧ r.Named name ∧
      findEntry (a ++ encodeAll rs).length name (a ++ encodeAll rs) fuel a.length prev =
        .ok (some (a.length + (encodeAll r1).length, prev', r.dirent)) ∧
      (r1 = [] ∧ prev' = prev ∨
        ∃ r0 q, r1 = r0 ++ [q] ∧ prev' = some (a.length + (encodeAll r0).length)) := by
  induction rs generalizing a fuel prev with
  | nil =>
    left
    refine ⟨by simp, ?_⟩
    cases fuel with
    | zero => rfl
    | succ fuel => rw [findEntry, if_neg (by simp)]
  | cons r rs ih =>
    obtain ⟨fuel, rfl⟩ : ∃ k, fuel = k + 1 := ⟨fuel - 1, by simp at hfuel; omega⟩
    obtain ⟨hlen, hlt, hz⟩ := walk_cons a r rs
    rw [findEntry, if_pos hlt, encodeAll_cons]
    simp only [bind, Except.bind, dirent_eq]
    rw [if_neg hz]
    by_cases hnamed : r.Named name
    · rw [if_pos ⟨hnamed.1, by rw [← hnamed.2]; rfl, by
        rw [← hnamed.2]
        exact nameAt_eq a _ r⟩]
      exact .inr ⟨[], r, rs, prev, rfl, by simp, hnamed, rfl, .inl ⟨rfl, rfl⟩⟩
    · rw [if_neg fun hc => hnamed ⟨hc.1, by
        have hname : nameAt (a ++ (r.encode ++ encodeAll rs)) a.length r.name.length =
            name := hc.2.2
        rwa [nameAt_eq] at hname⟩]
      have hrest := @ih (a ++ r.encode) fuel (by simpa using hfuel) (some a.length)
      rw [append_assoc, hlen] at hrest
      rcases hrest with ⟨hall, hnone⟩ | ⟨r1, r', r2, prev', hrs, hall, hr', hsome, hprev⟩
      · refine .inl ⟨fun q hq => ?_, hnone⟩
        rcases mem_cons.mp hq with rfl | hq
        · exact hnamed
        · exact hall q hq
      · refine .inr ⟨r :: r1, r', r2, prev', by rw [hrs]; rfl, fun q hq => ?_, hr', ?_, .inr ?_⟩
        · rcases mem_cons.mp hq with rfl | hq
          · exact hnamed
          · exact hall q hq
        · rw [length_encodeAll_cons]
          exact hsome
        · rcases hprev with ⟨rfl, rfl⟩ | ⟨r0, q, rfl, rfl⟩
          · exact ⟨[], r, rfl, by simp⟩
          · refine ⟨r :: r0, q, rfl, ?_⟩
            rw [length_encodeAll_cons]

end Walk

/-! ### Edits -/

theorem direntSize_le {n len : Nat} (hlen : 8 + n ≤ len) (hdvd : 4 ∣ len) : direntSize n ≤ len := by
  unfold direntSize
  omega

theorem le_direntSize (n : Nat) : 8 + n ≤ direntSize n := by
  unfold direntSize
  omega

namespace Record

variable (r q : Record)

theorem direntSize_le_recLen : direntSize r.name.length ≤ r.recLen :=
  direntSize_le (Nat.le_add_right _ _) r.aligned

theorem length_shrink_pad : 8 + r.name.length +
    (r.pad.take (direntSize r.name.length - (8 + r.name.length))).length =
      direntSize r.name.length := by
  have hle := r.direntSize_le_recLen
  have hge := le_direntSize r.name.length
  rw [recLen] at hle
  rw [length_take]
  omega

/-- The record without the bytes it does not need. -/
def shrink : Record where
  ino := r.ino
  fileType := r.fileType
  name := r.name
  pad := r.pad.take (direntSize r.name.length - (8 + r.name.length))
  ino_lt := r.ino_lt
  fileType_lt := r.fileType_lt
  name_lt := r.name_lt
  recLen_lt := by
    rw [length_shrink_pad]
    exact Nat.lt_of_le_of_lt r.direntSize_le_recLen r.recLen_lt
  aligned := by
    rw [length_shrink_pad]
    exact Nat.dvd_mul_left _ _

theorem recLen_shrink : r.shrink.recLen = direntSize r.name.length := r.length_shrink_pad

/-- The record that is not in use any more. -/
def kill : Record where
  ino := 0
  fileType := r.fileType
  name := r.name
  pad := r.pad
  ino_lt := by decide
  fileType_lt := r.fileType_lt
  name_lt := r.name_lt
  recLen_lt := r.recLen_lt
  aligned := r.aligned

/-- The record with the one after it merged into it. -/
def absorb (h : r.recLen + q.recLen < 256 ^ 2) : Record where
  ino := r.ino
  fileType := r.fileType
  name := r.name
  pad := r.pad ++ q.encode
  ino_lt := r.ino_lt
  fileType_lt := r.fileType_lt
  name_lt := r.name_lt
  recLen_lt := by
    rw [length_append, q.length_encode, ← Nat.add_assoc]
    exact h
  aligned := by
    rw [length_append, q.length_encode, ← Nat.add_assoc]
    exact Nat.dvd_add r.aligned q.aligned

/-- A new record of `len` bytes. -/
def fresh (child fileType : Nat) (name : Bytes) (len : Nat) (hchild : child < 256 ^ 4)
    (htype : fileType < 256 ^ 1) (hname : name.length < 256 ^ 1) (hlen : 8 + name.length ≤ len)
    (hlt : len < 256 ^ 2) (hdvd : 4 ∣ len) : Record where
  ino := child
  fileType := fileType
  name := name
  pad := zeros (len - (8 + name.length))
  ino_lt := hchild
  fileType_lt := htype
  name_lt := hname
  recLen_lt := by
    rw [length_zeros, Nat.add_sub_cancel' hlen]
    exact hlt
  aligned := by
    rw [length_zeros, Nat.add_sub_cancel' hlen]
    exact hdvd

/-- The records that a record is split into to make room for `q`. -/
def split : List Record := if r.ino = 0 then [q] else [r.shrink, q]

end Record

theorem length_encodeAll_split {r q : Record} (h : r.dirent.actual + q.recLen = r.recLen) :
    (encodeAll (r.split q)).length = r.recLen := by
  unfold Record.split
  split
  · next hz =>
    have hzero : r.dirent.actual = 0 := if_pos hz
    simp only [encodeAll_cons, encodeAll_nil, append_nil, q.length_encode]
    omega
  · next hz =>
    have hsize : r.dirent.actual = direntSize r.name.length := if_neg hz
    simp only [encodeAll_cons, encodeAll_nil, append_nil, length_append,
      q.length_encode, r.shrink.length_encode, r.recLen_shrink]
    omega

/-- The bytes of a field replace it. -/
theorem pack_field {blk : Bytes} {w off v : Nat} (hoff : off + w ≤ blk.length) (hv : v < 256 ^ w) :
    pack w blk (off : Nat) v = .ok (splice blk off (leBytes w v)) := by
  rw [pack_eq ⟨by omega, by omega⟩ ⟨by omega, by simpa using hv⟩, Int.toNat_natCast,
    Int.toNat_natCast]
  rfl

/-- **`putRecord`** writes the record. -/
theorem putRecord_eq {blk : Bytes} {off : Nat} {q : Record} (hpad : q.pad = zeros q.pad.length)
    (hoff : off + q.recLen ≤ blk.length) :
    putRecord blk off q.ino q.recLen q.name q.fileType = .ok (splice blk off q.encode) := by
  have hrec : q.recLen = 8 + q.name.length + q.pad.length := rfl
  have hsub : q.recLen - (8 + q.name.length) = q.pad.length := by omega
  have hlen : ∀ d : Bytes, d.length ≤ q.recLen → (splice blk off d).length = blk.length :=
    fun d hd => length_splice (by omega)
  -- each write goes on where the one before it ended
  have hnext : ∀ d e : Bytes, ∀ k, d.length = k → k + e.length ≤ q.recLen →
      splice (splice blk off d) (off + k) e = splice blk off (d ++ e) := by
    rintro d e k rfl hle
    exact splice_splice (by omega)
  have h1 := hlen (leBytes 4 q.ino) (by rw [length_leBytes]; omega)
  have h2 := hlen (leBytes 4 q.ino ++ leBytes 2 q.recLen)
    (by simp only [length_append, length_leBytes]; omega)
  have h3 := hlen (leBytes 4 q.ino ++ leBytes 2 q.recLen ++ leBytes 1 q.name.length)
    (by simp only [length_append, length_leBytes]; omega)
  unfold putRecord
  simp only [bind, Except.bind]
  rw [pack_field (by omega) q.ino_lt]
  dsimp only
  rw [pack_field (by omega) (show q.recLen < 256 ^ 2 from q.recLen_lt),
    hnext _ _ 4 (length_leBytes _ _) (by rw [length_leBytes]; omega)]
  dsimp only
  rw [pack_field (by omega) q.name_lt, hnext _ _ 6 (by simp) (by rw [length_leBytes]; omega)]
  dsimp only
  rw [pack_field (by omega) q.fileType_lt, hnext _ _ 7 (by simp) (by rw [length_leBytes]; omega)]
  dsimp only
  rw [hnext _ _ 8 (by simp) (by omega), Nat.add_assoc off,
    hnext _ _ (8 + q.name.length) (by simp; omega) (by rw [length_zeros]; omega), hsub, ← hpad]
  simp only [Record.encode, append_assoc, pure, Except.pure]

section

variable {a c : Bytes} {r q : Record}

/-- **`splitRecord`** splits the record. -/
theorem splitRecord_eq (hpad : q.pad = zeros q.pad.length)
    (hlen : r.dirent.actual + q.recLen = r.recLen) :
    splitRecord (a ++ (r.encode ++ c)) a.length r.dirent q.ino q.name q.fileType =
      .ok (a ++ (encodeAll (r.split q) ++ c)) := by
  have hrec : r.dirent.recLen - r.dirent.actual = q.recLen := by
    show r.recLen - _ = _
    omega
  unfold splitRecord shrinkRecord
  rw [hrec]
  by_cases hz : r.ino = 0
  · have hactual : r.dirent.actual = 0 := if_pos hz
    rw [hactual, Nat.zero_add] at hlen
    rw [if_pos (show r.dirent.ino = 0 from hz), hactual, Record.split, if_pos hz]
    simp only [bind, Except.bind, Nat.add_zero]
    rw [putRecord_eq hpad (by simp only [length_append, r.length_encode]; omega),
      splice_append_mid (by rw [q.length_encode, r.length_encode, hlen])]
    simp
  · have hactual : r.dirent.actual = direntSize r.name.length := if_neg hz
    have hshort : r.shrink.recLen < 256 ^ 2 := r.shrink.recLen_lt
    rw [hactual] at hlen ⊢
    rw [if_neg (show ¬ r.dirent.ino = 0 from hz), Record.split, if_neg hz, ← r.recLen_shrink]
    rw [← r.recLen_shrink] at hlen
    set n := direntSize r.name.length - (8 + r.name.length) with hn
    -- the length of the record becomes that of the shrunk one
    have hpack : pack 2 (a ++ (r.encode ++ c)) (a.length + 4 : Nat) r.shrink.recLen =
        .ok ((a ++ r.shrink.encode) ++ (r.pad.drop n ++ c)) := by
      rw [pack_field (by simp only [length_append, r.length_encode, Record.recLen]; omega) hshort]
      rw [r.encode_append, ← append_assoc]
      rw [show a.length + 4 = (a ++ leBytes 4 r.ino).length by simp, splice_append_mid (by simp)]
      have hsplit := take_append_drop n r.pad
      conv_lhs => rw [← hsplit]
      simp only [Record.encode, Record.shrink, append_assoc, Record.recLen, hn]
    have hdrop : (r.pad.drop n).length = q.recLen := by
      have hlen' : r.shrink.recLen + q.recLen = 8 + r.name.length + r.pad.length := hlen
      have hge := le_direntSize r.name.length
      rw [r.recLen_shrink] at hlen'
      rw [length_drop]
      omega
    simp only [bind, Except.bind, hpack]
    rw [show a.length + r.shrink.recLen = (a ++ r.shrink.encode).length by
      rw [length_append, r.shrink.length_encode]]
    rw [putRecord_eq hpad (by simp only [length_append] at hdrop ⊢; omega),
      splice_append_mid (by rw [q.length_encode, hdrop])]
    simp

/-- **`dropRecord`** merges a record into the one before it. -/
theorem dropRecord_some {off : Nat} (h : r.recLen + q.recLen < 256 ^ 2) :
    dropRecord (a ++ (r.encode ++ (q.encode ++ c))) off (some a.length) q.dirent =
      .ok (a ++ ((r.absorb q h).encode ++ c)) := by
  simp only [dropRecord, bind, Except.bind, dirent_eq, Record.dirent]
  rw [pack_field (by simp only [length_append, r.length_encode, Record.recLen]; omega) h]
  rw [r.encode_append, ← append_assoc]
  rw [show a.length + 4 = (a ++ leBytes 4 r.ino).length by simp, splice_append_mid (by simp)]
  have hrec : (r.absorb q h).recLen = r.recLen + q.recLen := by
    simp only [Record.recLen, Record.absorb, length_append, q.length_encode]
    omega
  conv_rhs => rw [Record.encode, hrec]
  simp only [Record.absorb, append_assoc]

/-- **`dropRecord`** clears the inode of the first record. -/
theorem dropRecord_none {e : Dirent} :
    dropRecord (r.encode ++ c) 0 none e = .ok (r.kill.encode ++ c) := by
  unfold dropRecord
  have hpack := @pack_field (r.encode ++ c) 4 0 0
    (by simp only [length_append, r.length_encode, Record.recLen]; omega) (by decide)
  have hmid := splice_append_mid (a := []) (b := leBytes 4 r.ino) (d := leBytes 4 0)
    (c := leBytes 2 r.recLen ++ (leBytes 1 r.name.length ++ (leBytes 1 r.fileType ++
      (r.name ++ (r.pad ++ c))))) (by simp)
  rw [nil_append, nil_append, length_nil] at hmid
  rw [r.encode_append, hmid] at hpack
  rw [r.encode_append]
  simp only [Nat.cast_zero] at hpack
  rw [Nat.cast_zero, hpack]
  simp only [Record.encode, Record.kill, append_assoc, Record.recLen]

/-! ### Edits and entries -/

variable {r1 r2 : List Record}

/-- A record that is split keeps its entry, and there is a new one. -/
theorem entries_split (hq : q.ino ≠ 0) :
    (entries (r1 ++ (r.split q ++ r2))).Perm (q.entry :: entries (r1 ++ r :: r2)) := by
  have hsplit : (entries (r.split q ++ r2)).Perm (q.entry :: entries (r :: r2)) := by
    unfold Record.split
    by_cases hz : r.ino = 0
    · rw [if_pos hz, entries_cons r, if_pos hz, singleton_append, entries_cons, if_neg hq]
    · rw [if_neg hz, entries_cons r, if_neg hz, cons_append, singleton_append,
        entries_cons, if_neg (show r.shrink.ino ≠ 0 from hz), entries_cons, if_neg hq]
      exact List.Perm.swap ..
  rw [entries_append r1 (r.split q ++ r2), entries_append r1 (r :: r2)]
  exact (hsplit.append_left _).trans perm_middle

/-- A record that is merged into the one before it takes its entry along. -/
theorem entries_absorb (hq : q.ino ≠ 0) (h : r.recLen + q.recLen < 256 ^ 2) :
    (entries (r1 ++ r :: q :: r2)).Perm (q.entry :: entries (r1 ++ r.absorb q h :: r2)) := by
  have hmerge : (entries (r :: q :: r2)).Perm (q.entry :: entries (r.absorb q h :: r2)) := by
    rw [entries_cons r, entries_cons q, if_neg hq, entries_cons (r.absorb q h)]
    by_cases hz : r.ino = 0
    · rw [if_pos hz, if_pos (show (r.absorb q h).ino = 0 from hz)]
    · rw [if_neg hz, if_neg (show (r.absorb q h).ino ≠ 0 from hz)]
      exact List.Perm.swap ..
  rw [entries_append, entries_append]
  exact (hmerge.append_left _).trans perm_middle

/-- A record that is not in use any more has no entry. -/
theorem entries_kill (hr : r.ino ≠ 0) : entries (r :: r2) = r.entry :: entries (r.kill :: r2) := by
  rw [entries_cons r, if_neg hr, entries_cons r.kill, if_pos (show r.kill.ino = 0 from rfl)]

end

end PythonOS.Ext2
