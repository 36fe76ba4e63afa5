import Mathlib.Data.List.TakeWhile
import Mathlib.Tactic.Common
import Asm8080.Text.Utf8

/-!
# Decoding what was encoded

Decoding the bytes of a text gives the text back. The first byte of a character says how many bytes
follow it, all of which continue the character, and the bytes are neither an overlong form nor that
of a surrogate, so that they are accepted; their low bits make up the code of the character.

## Main definitions

* `Asm8080.Utf8.Encodes` — bytes that are accepted as those of a character.

## Main results

* `Asm8080.Utf8.encodes_utf8EncodeChar` — the bytes of a character are accepted as such.
* `Asm8080.Utf8.decode_encode` — the bytes of a text are decoded to the text.
-/

set_option autoImplicit false

namespace Asm8080.Utf8

/-! ## Bytes as numbers -/

/-- The width of a character by its first byte. -/
lemma width?_eq (b : UInt8) :
    width? b = if b.toNat < 0x80 then some 1 else if b.toNat < 0xC2 then none
      else if b.toNat < 0xE0 then some 2 else if b.toNat < 0xF0 then some 3
      else if b.toNat < 0xF5 then some 4 else none := by
  simp only [width?, UInt8.lt_iff_toNat_lt]
  rfl

/-- The bytes that continue a character. -/
lemma isContinuation_iff {b : UInt8} :
    isContinuation b = true ↔ 0x80 ≤ b.toNat ∧ b.toNat < 0xC0 := by
  simp only [isContinuation, Bool.and_eq_true, decide_eq_true_eq, UInt8.le_iff_toNat_le,
    UInt8.lt_iff_toNat_lt]
  rfl

/-- The bytes that may follow the first one of a character. -/
lemma mayFollow_iff {first second : UInt8} :
    mayFollow first second = true ↔ (0x80 ≤ second.toNat ∧ second.toNat < 0xC0) ∧
      (first.toNat = 0xE0 → 0xA0 ≤ second.toNat) ∧ (first.toNat = 0xED → second.toNat < 0xA0) ∧
      (first.toNat = 0xF0 → 0x90 ≤ second.toNat) ∧ (first.toNat = 0xF4 → second.toNat < 0x90) := by
  have htoNat : ∀ n : UInt8, first = n ↔ first.toNat = n.toNat :=
    fun n => UInt8.toNat_inj.symm
  rw [mayFollow, Bool.and_eq_true, isContinuation_iff, and_congr_right_iff]
  intro _
  simp only [htoNat, UInt8.reduceToNat]
  split_ifs with hE0 hED hF0 hF4
  · simp only [decide_eq_true_eq, UInt8.le_iff_toNat_le, UInt8.reduceToNat]
    omega
  · simp only [decide_eq_true_eq, UInt8.lt_iff_toNat_lt, UInt8.reduceToNat]
    omega
  · simp only [decide_eq_true_eq, UInt8.le_iff_toNat_le, UInt8.reduceToNat]
    omega
  · simp only [decide_eq_true_eq, UInt8.lt_iff_toNat_lt, UInt8.reduceToNat]
    omega
  · exact iff_of_true rfl (by omega)

/-! ## One character -/

/-- Bytes that are accepted as those of a character: the first one tells how many follow it, they
all continue the character, and together they make up its code. -/
structure Encodes (c : Char) (first : UInt8) (more : List UInt8) : Prop where
  width : width? first = some (more.length + 1)
  second : ∀ b ∈ more.head?, mayFollow first b = true
  tail : ∀ b ∈ more.tail, isContinuation b = true
  code : codeOf first more = c.toNat

/-- All bytes after the first fit the character. -/
lemma Encodes.fitting_eq {c : Char} {first : UInt8} {more : List UInt8} (h : Encodes c first more)
    (rest : List UInt8) : fitting first more.length (more ++ rest) = more.length := by
  rw [fitting, List.take_left]
  cases more with
  | nil => rfl
  | cons second tail =>
    have hall : tail.takeWhile isContinuation = tail :=
      List.takeWhile_eq_self_iff.2 h.tail
    simp only [h.second second rfl, if_true, hall, List.length_cons, Nat.add_comm]

/-- **The bytes of a character are decoded to the character.** -/
lemma Encodes.decodeFrom_eq {c : Char} {first : UInt8} {more : List UInt8}
    (h : Encodes c first more) (position : Nat) (done : List Char) (rest : List UInt8) :
    decodeFrom position done (first :: more ++ rest) =
      decodeFrom (position + (more.length + 1)) (c :: done) rest := by
  rw [List.cons_append, decodeFrom, h.width]
  simp only [Nat.add_sub_cancel, h.fitting_eq, if_true, List.take_left, List.drop_left, h.code,
    Char.ofNat_toNat]

/-- The code of a character is no surrogate, and in the range of codes. -/
lemma toNat_valid (c : Char) : c.toNat < 0xD800 ∨ 0xDFFF < c.toNat ∧ c.toNat < 0x110000 := c.valid

/-- A byte that is given by a number. -/
lemma toNat_ofNat {n : Nat} (h : n < 256) : (UInt8.ofNat n).toNat = n := by
  rw [UInt8.toNat_ofNat', Nat.mod_eq_of_lt h]

/-- A byte that continues a character with six bits of a number. -/
lemma toNat_continuation (n : Nat) : (UInt8.ofNat (n % 64 + 128)).toNat = n % 64 + 128 :=
  toNat_ofNat (by omega)

/-- Such a byte is accepted. -/
lemma isContinuation_continuation (n : Nat) :
    isContinuation (UInt8.ofNat (n % 64 + 128)) = true := by
  rw [isContinuation_iff, toNat_continuation]
  omega

/-- A character of one byte. -/
lemma encodes_one {c : Char} (h : c.toNat ≤ 0x7F) : Encodes c (UInt8.ofNat c.toNat) [] where
  width := by
    rw [width?_eq, toNat_ofNat (by omega), if_pos (by omega)]
    rfl
  second := by simp
  tail := by simp
  code := toNat_ofNat (by omega)

/-- A character of two bytes. -/
lemma encodes_two {c : Char} (h : 0x7F < c.toNat) (h' : c.toNat ≤ 0x7FF) :
    Encodes c (UInt8.ofNat (c.toNat / 64 % 32 + 192)) [UInt8.ofNat (c.toNat % 64 + 128)] where
  width := by
    rw [width?_eq, toNat_ofNat (by omega), if_neg (by omega), if_neg (by omega),
      if_pos (by omega)]
    rfl
  second := by
    rintro _ ⟨⟩
    rw [mayFollow_iff, toNat_ofNat (n := c.toNat / 64 % 32 + 192) (by omega), toNat_continuation]
    omega
  tail := by simp
  code := by
    simp only [codeOf, List.length_singleton, List.foldl_cons, List.foldl_nil, toNat_continuation]
    rw [toNat_ofNat (n := c.toNat / 64 % 32 + 192) (by omega)]
    omega

/-- A character of three bytes. -/
lemma encodes_three {c : Char} (h : 0x7FF < c.toNat) (h' : c.toNat ≤ 0xFFFF) :
    Encodes c (UInt8.ofNat (c.toNat / 4096 % 16 + 224))
      [UInt8.ofNat (c.toNat / 64 % 64 + 128), UInt8.ofNat (c.toNat % 64 + 128)] where
  width := by
    rw [width?_eq, toNat_ofNat (by omega), if_neg (by omega), if_neg (by omega),
      if_neg (by omega), if_pos (by omega)]
    rfl
  second := by
    have hvalid := toNat_valid c
    rintro _ ⟨⟩
    rw [mayFollow_iff, toNat_ofNat (n := c.toNat / 4096 % 16 + 224) (by omega), toNat_continuation]
    -- after `E0` the code is at least 800H, and after `ED` it is below the surrogates
    omega
  tail := by
    rw [List.tail_cons, List.forall_mem_singleton]
    exact isContinuation_continuation _
  code := by
    simp only [codeOf, List.length_cons, List.length_nil, List.foldl_cons, List.foldl_nil,
      toNat_continuation]
    rw [toNat_ofNat (n := c.toNat / 4096 % 16 + 224) (by omega)]
    omega

/-- A character of four bytes. -/
lemma encodes_four {c : Char} (h : 0xFFFF < c.toNat) :
    Encodes c (UInt8.ofNat (c.toNat / 262144 % 8 + 240))
      [UInt8.ofNat (c.toNat / 4096 % 64 + 128), UInt8.ofNat (c.toNat / 64 % 64 + 128),
        UInt8.ofNat (c.toNat % 64 + 128)] where
  width := by
    have hvalid := toNat_valid c
    rw [width?_eq, toNat_ofNat (by omega), if_neg (by omega), if_neg (by omega),
      if_neg (by omega), if_neg (by omega), if_pos (by omega)]
    rfl
  second := by
    have hvalid := toNat_valid c
    rintro _ ⟨⟩
    rw [mayFollow_iff, toNat_ofNat (n := c.toNat / 262144 % 8 + 240) (by omega),
      toNat_continuation]
    -- after `F0` the code is at least 10000H, and after `F4` it is below 110000H
    omega
  tail := by
    rw [List.tail_cons, List.forall_mem_cons, List.forall_mem_singleton]
    exact ⟨isContinuation_continuation _, isContinuation_continuation _⟩
  code := by
    have hvalid := toNat_valid c
    simp only [codeOf, List.length_cons, List.length_nil, List.foldl_cons, List.foldl_nil,
      toNat_continuation]
    rw [toNat_ofNat (n := c.toNat / 262144 % 8 + 240) (by omega)]
    omega

/-- **The bytes of a character are accepted as such.**

**Proof sketch.** By the width of the character. The bounds on its code, and that it is no
surrogate, are what the second byte is checked for. -/
lemma encodes_utf8EncodeChar (c : Char) :
    ∃ first more, String.utf8EncodeChar c = first :: more ∧ Encodes c first more := by
  unfold String.utf8EncodeChar
  dsimp only
  split_ifs with hone htwo hthree
  · exact ⟨_, _, rfl, encodes_one hone⟩
  · exact ⟨_, _, rfl, encodes_two (Nat.lt_of_not_le hone) htwo⟩
  · exact ⟨_, _, rfl, encodes_three (Nat.lt_of_not_le htwo) hthree⟩
  · exact ⟨_, _, rfl, encodes_four (Nat.lt_of_not_le hthree)⟩

/-- The bytes of characters are decoded one after another. -/
lemma decodeFrom_flatMap (position : Nat) (done cs : List Char) :
    decodeFrom position done (cs.flatMap String.utf8EncodeChar) = .ok (done.reverse ++ cs) := by
  induction cs generalizing position done with
  | nil =>
    rw [List.flatMap_nil, decodeFrom, List.append_nil]
  | cons c cs ih =>
    obtain ⟨first, more, hbytes, hencodes⟩ := encodes_utf8EncodeChar c
    rw [List.flatMap_cons, hbytes, hencodes.decodeFrom_eq, ih]
    simp

/-- **The bytes of a text are decoded to the text.** -/
lemma decode_encode (s : String) : decode (encode s) = .ok s.toList :=
  decodeFrom_flatMap 0 [] s.toList

end Asm8080.Utf8
