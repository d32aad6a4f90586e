import PythonOS.Lib.Bytes

/-!
# PythonOS.Lib.Utf8

`str.encode("utf-8")` and `bytes.decode("utf-8", errors="replace")`.

Decoding puts one U+FFFD in place of every maximal part of the input that is the
start of a character but not a whole one, and of every other byte that starts no
character. `decode_encode`: what was encoded decodes to itself.
-/

namespace PythonOS.Lib.Utf8

open List Bytes

open String (utf8EncodeChar)

/-- `s.encode("utf-8")`. -/
def encode (s : String) : Bytes := s.toList.flatMap utf8EncodeChar

/-- U+FFFD. -/
def replacement : Char := Char.ofNat 0xFFFD

/-- The range of a byte that continues a character. -/
def continues (b : UInt8) : Bool := 0x80 ≤ b.toNat && b.toNat ≤ 0xBF

/-- The range of the byte after the first one `x` of three or four: no overlong
form, no surrogate, nothing above U+10FFFF. -/
def continuesFirst (x : Nat) (b : UInt8) : Bool :=
  if x = 0xE0 then 0xA0 ≤ b.toNat && b.toNat ≤ 0xBF
  else if x = 0xED then 0x80 ≤ b.toNat && b.toNat ≤ 0x9F
  else if x = 0xF0 then 0x90 ≤ b.toNat && b.toNat ≤ 0xBF
  else if x = 0xF4 then 0x80 ≤ b.toNat && b.toNat ≤ 0x8F
  else continues b

/-- The character at the front of `b :: rest`, and how much of `rest` it takes. -/
def decodeChar (b : UInt8) (rest : Bytes) : Char × Nat :=
  let x := b.toNat
  if x < 0x80 then (Char.ofNat x, 0)
  else if 0xC2 ≤ x ∧ x ≤ 0xDF then
    match rest with
    | b₁ :: _ =>
      if continues b₁ then (Char.ofNat (x % 32 * 64 + b₁.toNat % 64), 1) else (replacement, 0)
    | [] => (replacement, 0)
  else if 0xE0 ≤ x ∧ x ≤ 0xEF then
    match rest with
    | b₁ :: b₂ :: _ =>
      if continuesFirst x b₁ then
        if continues b₂ then
          (Char.ofNat (x % 16 * 4096 + b₁.toNat % 64 * 64 + b₂.toNat % 64), 2)
        else (replacement, 1)
      else (replacement, 0)
    | [b₁] => (replacement, if continuesFirst x b₁ then 1 else 0)
    | [] => (replacement, 0)
  else if 0xF0 ≤ x ∧ x ≤ 0xF4 then
    match rest with
    | b₁ :: b₂ :: b₃ :: _ =>
      if continuesFirst x b₁ then
        if continues b₂ then
          if continues b₃ then
            (Char.ofNat (x % 8 * 262144 + b₁.toNat % 64 * 4096 + b₂.toNat % 64 * 64 +
              b₃.toNat % 64), 3)
          else (replacement, 2)
        else (replacement, 1)
      else (replacement, 0)
    | [b₁, b₂] =>
      (replacement, if continuesFirst x b₁ then (if continues b₂ then 2 else 1) else 0)
    | [b₁] => (replacement, if continuesFirst x b₁ then 1 else 0)
    | [] => (replacement, 0)
  else (replacement, 0)

/-- The characters of a byte string, at most `n` of them. -/
def decodeList : (n : Nat) → Bytes → List Char
  | 0, _ => []
  | _ + 1, [] => []
  | n + 1, b :: rest =>
    let d := decodeChar b rest
    d.1 :: decodeList n (rest.drop d.2)

/-- `b.decode("utf-8", errors="replace")`: every character takes a byte at least. -/
def decode (b : Bytes) : String := String.ofList (decodeList b.length b)

private theorem toNat_ofNat_of_lt {v : Nat} (h : v < 256) : (UInt8.ofNat v).toNat = v :=
  UInt8.toNat_ofNat_of_lt' h

private theorem toNat_tail (v : Nat) : (UInt8.ofNat (v % 64 + 128)).toNat = v % 64 + 128 :=
  toNat_ofNat_of_lt (by omega)

private theorem continues_tail (v : Nat) : continues (UInt8.ofNat (v % 64 + 128)) = true := by
  simp only [continues, toNat_tail, Bool.and_eq_true, decide_eq_true_eq]
  omega

/-- A decoded character is the one that was encoded, and takes just its bytes. -/
theorem decodeChar_utf8EncodeChar (c : Char) (rest : Bytes) :
    ∃ b bs, utf8EncodeChar c = b :: bs ∧ decodeChar b (bs ++ rest) = (c, bs.length) := by
  have hrange : c.val.toNat < 0xD800 ∨ (0xDFFF < c.val.toNat ∧ c.val.toNat < 0x110000) := c.valid
  have hself : Char.ofNat c.val.toNat = c := Char.ofNat_toNat c
  unfold utf8EncodeChar
  dsimp only
  generalize c.val.toNat = v at hrange hself ⊢
  split_ifs with h1 h2 h3
  · refine ⟨_, [], rfl, ?_⟩
    have hb := toNat_ofNat_of_lt (v := v) (by omega)
    simp only [decodeChar, hb, if_pos (Nat.lt_succ_of_le h1), hself, length_nil]
  · refine ⟨_, [_], rfl, ?_⟩
    have hb := toNat_ofNat_of_lt (v := v / 64 % 32 + 192) (by omega)
    have hval : (v / 64 % 32 + 192) % 32 * 64 + (v % 64 + 128) % 64 = v := by omega
    simp only [decodeChar, cons_append, nil_append, hb, toNat_tail, hval, continues_tail, hself]
    rw [if_neg (by omega), if_pos (by omega)]
    simp
  · refine ⟨_, [_, _], rfl, ?_⟩
    have hb := toNat_ofNat_of_lt (v := v / 4096 % 16 + 224) (by omega)
    have hval : (v / 4096 % 16 + 224) % 16 * 4096 + (v / 64 % 64 + 128) % 64 * 64 +
        (v % 64 + 128) % 64 = v := by omega
    have hfirst :
        continuesFirst (v / 4096 % 16 + 224) (UInt8.ofNat (v / 64 % 64 + 128)) = true := by
      unfold continuesFirst continues
      split_ifs <;> simp only [toNat_tail, Bool.and_eq_true, decide_eq_true_eq] <;> omega
    simp only [decodeChar, cons_append, nil_append, hb, toNat_tail, hval, continues_tail, hfirst,
      hself]
    rw [if_neg (by omega), if_neg (by omega), if_pos (by omega)]
    simp
  · refine ⟨_, [_, _, _], rfl, ?_⟩
    have hb := toNat_ofNat_of_lt (v := v / 262144 % 8 + 240) (by omega)
    have hval : (v / 262144 % 8 + 240) % 8 * 262144 + (v / 4096 % 64 + 128) % 64 * 4096 +
        (v / 64 % 64 + 128) % 64 * 64 + (v % 64 + 128) % 64 = v := by omega
    have hfirst : continuesFirst (v / 262144 % 8 + 240) (UInt8.ofNat (v / 4096 % 64 + 128)) =
        true := by
      unfold continuesFirst continues
      split_ifs <;> simp only [toNat_tail, Bool.and_eq_true, decide_eq_true_eq] <;> omega
    simp only [decodeChar, cons_append, nil_append, hb, toNat_tail, hval, continues_tail, hfirst,
      hself]
    rw [if_neg (by omega), if_neg (by omega), if_neg (by omega), if_pos (by omega)]
    simp

theorem decodeList_encode (cs : List Char) (n : Nat) (h : (cs.flatMap utf8EncodeChar).length ≤ n) :
    decodeList n (cs.flatMap utf8EncodeChar) = cs := by
  induction cs generalizing n with
  | nil => cases n <;> rfl
  | cons c cs ih =>
    obtain ⟨b, bs, hbs, hdec⟩ := decodeChar_utf8EncodeChar c (cs.flatMap utf8EncodeChar)
    rw [flatMap_cons, hbs] at h ⊢
    cases n with
    | zero => cases h
    | succ n =>
      have hn : (cs.flatMap utf8EncodeChar).length ≤ n := by
        simp only [cons_append, length_cons, length_append] at h
        omega
      rw [cons_append, decodeList]
      simp only [hdec]
      rw [drop_left, ih n hn]

/-- **Round trip.** -/
theorem decode_encode (s : String) : decode (encode s) = s := by
  rw [decode, encode, decodeList_encode _ _ (Nat.le_refl _), String.ofList_toList]

theorem encode_injective {s t : String} (h : encode s = encode t) : s = t := by
  rw [← decode_encode s, h, decode_encode]

/-! ### ASCII -/

theorem toNat_charOfNat {v : Nat} (h : v < 0xD800 ∨ 0xDFFF < v ∧ v < 0x110000) :
    (Char.ofNat v).toNat = v := by
  have hv : Nat.isValidChar v := h
  unfold Char.ofNat
  rw [dif_pos hv]
  rfl

/-- A character below U+0080 is decoded from one byte. -/
theorem decodeChar_ascii {b : UInt8} {rest : Bytes} (h : (decodeChar b rest).1.toNat < 0x80) :
    b.toNat < 0x80 ∧ decodeChar b rest = (Char.ofNat b.toNat, 0) := by
  by_cases hb : b.toNat < 0x80
  · exact ⟨hb, if_pos hb⟩
  · exfalso
    have hrep : ¬ replacement.toNat < 0x80 := by decide
    unfold decodeChar at h
    dsimp only at h
    split_ifs at h with h2 h3 h4
    all_goals try (split at h <;> try split_ifs at h with hf)
    all_goals try exact hrep h
    · rw [toNat_charOfNat (by omega)] at h
      omega
    · rename_i b1 b2 _ _
      set v := b.toNat % 16 * 4096 + b1.toNat % 64 * 64 + b2.toNat % 64
      have hv : 0x800 ≤ v ∧ (v < 0xD800 ∨ 0xDFFF < v ∧ v < 0x110000) := by
        unfold continuesFirst continues at hf
        split_ifs at hf <;> simp only [Bool.and_eq_true, decide_eq_true_eq] at hf <;> omega
      rw [toNat_charOfNat hv.2] at h
      omega
    · rename_i b1 b2 b3 _ _ _
      set v := b.toNat % 8 * 262144 + b1.toNat % 64 * 4096 + b2.toNat % 64 * 64 + b3.toNat % 64
      have hv : 0x10000 ≤ v ∧ v < 0x110000 := by
        unfold continuesFirst continues at hf
        split_ifs at hf <;> simp only [Bool.and_eq_true, decide_eq_true_eq] at hf <;> omega
      rw [toNat_charOfNat (by omega)] at h
      omega

theorem encode_decodeList {n : Nat} {b : Bytes} (hn : b.length ≤ n)
    (h : ∀ c ∈ decodeList n b, c.toNat < 0x80) : (decodeList n b).flatMap utf8EncodeChar = b := by
  induction n generalizing b with
  | zero =>
    obtain rfl := eq_nil_of_length_eq_zero (Nat.le_zero.mp hn)
    rfl
  | succ n ih =>
    cases b with
    | nil => rfl
    | cons x rest =>
      rw [length_cons] at hn
      obtain ⟨hx, hd⟩ := decodeChar_ascii (h _ (mem_cons_self ..))
      have hlist : decodeList (n + 1) (x :: rest) = Char.ofNat x.toNat :: decodeList n rest := by
        rw [decodeList]
        simp only [hd, drop_zero]
      rw [hlist] at h ⊢
      rw [flatMap_cons, ih (by omega) fun c hc => h c (mem_cons_of_mem _ hc)]
      have hc : (Char.ofNat x.toNat).val.toNat = x.toNat := toNat_charOfNat (by omega)
      simp only [utf8EncodeChar, hc]
      rw [if_pos (Nat.le_of_lt_succ hx), UInt8.ofNat_toNat]
      rfl

/-- **Only one byte string is decoded to a string of ASCII characters.** -/
theorem eq_encode_of_ascii {b : Bytes} {s : String} (hs : ∀ c ∈ s.toList, c.toNat < 0x80)
    (h : decode b = s) : b = encode s := by
  subst h
  rw [decode, encode, String.toList_ofList]
  rw [decode, String.toList_ofList] at hs
  exact (encode_decodeList (Nat.le_refl _) hs).symm

end PythonOS.Lib.Utf8
