import Asm8080.Proofs.Text.Utf8
import Asm8080.Text.Unstyled

/-!
# Texts that can be encoded

A text can be encoded exactly when it holds no stray byte, and what the system hands over decodes to
such a text exactly when it is UTF-8. Leaving out styling leaves out characters only, and so makes
no difference to that.

## Main definitions

* `Asm8080.Glyph.IsText` — a text that holds no stray byte.
* `Asm8080.RawText.IsText` — raw text that is UTF-8.

## Main results

* `Asm8080.Glyph.encode_eq_ok_iff` — which texts can be encoded, and to what.
* `Asm8080.RawText.isText_glyphs_iff` — raw text decodes to a text without stray bytes exactly when
  it is UTF-8.
* `Asm8080.Text.isText_unstyled_iff` — leaving out styling keeps the stray bytes.
-/

set_option autoImplicit false

namespace Asm8080

namespace Glyph

/-! ## Texts without stray bytes -/

/-- The text holds no stray byte. -/
def IsText (gs : List Glyph) : Prop := ∀ g ∈ gs, g.char?.isSome = true

/-- Two texts together hold no stray byte if neither does. -/
@[simp] lemma isText_append_iff {gs gs' : List Glyph} :
    IsText (gs ++ gs') ↔ IsText gs ∧ IsText gs' := by
  simp only [IsText, List.mem_append, or_imp, forall_and]

/-- Characters are no stray bytes. -/
lemma isText_map_char (cs : List Char) : IsText (cs.map char) := by
  intro g hg
  obtain ⟨c, -, rfl⟩ := List.mem_map.1 hg
  rfl

/-- A text of characters holds no stray byte. -/
@[simp] lemma isText_ofText (s : String) : IsText (ofText s) := isText_map_char s.toList

/-- A text without stray bytes is made of characters. -/
lemma isText_iff_exists_ofText {gs : List Glyph} : IsText gs ↔ ∃ text, gs = ofText text := by
  constructor
  · intro h
    induction gs with
    | nil => exact ⟨"", rfl⟩
    | cons g gs ih =>
      obtain ⟨text, rfl⟩ := ih fun g' hg' => h g' (List.mem_cons_of_mem _ hg')
      cases g with
      | char c => exact ⟨String.ofList (c :: text.toList), by simp [ofText]⟩
      | stray byte => cases h (stray byte) List.mem_cons_self
  · rintro ⟨text, rfl⟩
    exact isText_ofText text

/-- No text of characters begins with a stray byte. -/
lemma stray_cons_ne_map (byte : UInt8) (gs : List Glyph) (cs : List Char) :
    stray byte :: gs ≠ cs.map char := by
  cases cs <;> simp

/-! ## Encoding -/

/-- The characters of a text are found exactly when it is made of them. -/
lemma charsFrom_eq_ok_iff {position : Nat} {done cs : List Char} {gs : List Glyph} :
    charsFrom position done gs = .ok cs ↔
      ∃ more, cs = done.reverse ++ more ∧ gs = more.map char := by
  induction gs generalizing position done with
  | nil => simp [charsFrom, eq_comm]
  | cons g gs ih =>
    cases g with
    | stray byte =>
      refine iff_of_false (by simp [charsFrom]) ?_
      rintro ⟨more, -, hmore⟩
      exact stray_cons_ne_map byte gs more hmore
    | char c =>
      rw [charsFrom, ih]
      constructor
      · rintro ⟨more, rfl, rfl⟩
        exact ⟨c :: more, by simp, rfl⟩
      · rintro ⟨_ | ⟨c', more⟩, rfl, hmore⟩
        · cases hmore
        · cases hmore
          exact ⟨more, by simp, rfl⟩

/-- The characters of a text are found exactly when it is made of them. -/
lemma chars_eq_ok_iff {gs : List Glyph} {cs : List Char} :
    chars gs = .ok cs ↔ gs = cs.map char := by
  simp [chars, charsFrom_eq_ok_iff]

/-- **Which texts can be encoded**: those of characters, to the bytes of these. -/
lemma encode_eq_ok_iff {gs : List Glyph} {bytes : List UInt8} :
    encode gs = .ok bytes ↔ ∃ text, gs = ofText text ∧ bytes = Utf8.encode text := by
  unfold encode
  constructor
  · intro h
    cases hchars : chars gs with
    | error fault => simp [hchars, Except.map] at h
    | ok cs =>
      rw [hchars] at h
      cases h
      exact ⟨String.ofList cs, by rw [ofText, String.toList_ofList, chars_eq_ok_iff.1 hchars], rfl⟩
  · rintro ⟨text, rfl, rfl⟩
    have hchars : chars (ofText text) = .ok text.toList := chars_eq_ok_iff.2 rfl
    simp only [hchars, Except.map, String.ofList_toList]

/-- A text of characters can be encoded. -/
lemma encode_ofText (text : String) : encode (ofText text) = .ok (Utf8.encode text) :=
  encode_eq_ok_iff.2 ⟨text, rfl, rfl⟩

/-- The characters of a text are found exactly when it holds no stray byte. -/
lemma exists_chars_iff {gs : List Glyph} : (∃ cs, chars gs = .ok cs) ↔ IsText gs := by
  rw [isText_iff_exists_ofText]
  constructor
  · rintro ⟨cs, hcs⟩
    exact ⟨String.ofList cs, by rw [ofText, String.toList_ofList, chars_eq_ok_iff.1 hcs]⟩
  · rintro ⟨text, rfl⟩
    exact ⟨text.toList, chars_eq_ok_iff.2 rfl⟩

/-- A text cannot be encoded exactly when it holds a stray byte. -/
lemma exists_encode_eq_error_iff {gs : List Glyph} :
    (∃ fault, encode gs = .error fault) ↔ ¬IsText gs := by
  rw [← exists_chars_iff, encode]
  cases chars gs <;> simp [Except.map]

/-! ## Decoding -/

/-- Bytes are decoded to characters exactly when no stray byte is found in them. -/
lemma decodeFrom_eq_ok_iff {bytes : List UInt8} {position : Nat} {done cs : List Char} :
    Utf8.decodeFrom position done bytes = .ok cs ↔
      ∃ more, cs = done.reverse ++ more ∧ decode bytes = more.map char := by
  fun_induction decode bytes generalizing position done with
  | case1 => simp [Utf8.decodeFrom, eq_comm]
  | case2 first rest hwidth ih =>
    rw [Utf8.decodeFrom, hwidth]
    refine iff_of_false (by simp) ?_
    rintro ⟨more, -, hmore⟩
    exact stray_cons_ne_map first _ more hmore
  | case3 first rest width hwidth hfits ih =>
    rw [Utf8.decodeFrom, hwidth]
    simp only [hfits, if_true, ih]
    constructor
    · rintro ⟨more, rfl, hmore⟩
      refine ⟨Char.ofNat (Utf8.codeOf first (rest.take (width - 1))) :: more, by simp, ?_⟩
      rw [List.map_cons, hmore]
    · rintro ⟨_ | ⟨c, more⟩, rfl, hmore⟩
      · cases hmore
      · obtain ⟨hc, htail⟩ := List.cons.inj hmore
        cases hc
        exact ⟨more, by simp, htail⟩
  | case4 first rest width hwidth hfits ih =>
    rw [Utf8.decodeFrom, hwidth]
    refine iff_of_false ?_ ?_
    · simp only [hfits, if_false]
      split <;> simp
    · rintro ⟨more, -, hmore⟩
      exact stray_cons_ne_map first _ more hmore

/-- Bytes are decoded to characters exactly when no stray byte is found in them. -/
lemma decode_eq_map_iff {bytes : List UInt8} {cs : List Char} :
    decode bytes = cs.map char ↔ Utf8.decode bytes = .ok cs := by
  simp [Utf8.decode, decodeFrom_eq_ok_iff]

end Glyph

/-! ## Raw text -/

namespace RawText

/-- The bytes are UTF-8. -/
def IsText (r : RawText) : Prop := ∃ cs, Utf8.decode r.bytes = .ok cs

/-- **Raw text that is UTF-8** decodes to a text without stray bytes, and no other raw text does. -/
lemma isText_glyphs_iff {r : RawText} : Glyph.IsText r.glyphs ↔ r.IsText := by
  rw [Glyph.isText_iff_exists_ofText, IsText]
  constructor
  · rintro ⟨text, htext⟩
    exact ⟨text.toList, Glyph.decode_eq_map_iff.1 htext⟩
  · rintro ⟨cs, hcs⟩
    exact ⟨String.ofList cs, by
      rw [Glyph.ofText, String.toList_ofList]
      exact Glyph.decode_eq_map_iff.2 hcs⟩

end RawText

/-! ## Styling -/

namespace Text

/-- Leaving out styling from a text keeps the stray bytes, and what was before it. -/
lemma isText_unstyledFrom_iff {done gs : List Glyph} :
    Glyph.IsText (unstyledFrom done gs) ↔ Glyph.IsText done ∧ Glyph.IsText gs := by
  fun_induction unstyledFrom done gs with
  | case1 done => simp [Glyph.IsText]
  | case2 done g gs rest hdrop ih =>
    obtain ⟨front, hfront, -, hchars⟩ := append_of_dropSequence?_eq_some hdrop
    have hsequence : Glyph.IsText front := hchars
    rw [ih, hfront, Glyph.isText_append_iff, and_iff_right hsequence]
  | case3 done g gs hdrop ih =>
    rw [ih]
    simp only [Glyph.IsText, List.forall_mem_cons]
    tauto

/-- **Leaving out styling** keeps the stray bytes of a text. -/
lemma isText_unstyled_iff {gs : List Glyph} : Glyph.IsText (unstyled gs) ↔ Glyph.IsText gs := by
  rw [unstyled, isText_unstyledFrom_iff, and_iff_right]
  simp [Glyph.IsText]

end Text

end Asm8080
