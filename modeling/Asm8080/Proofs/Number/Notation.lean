import Asm8080.Proofs.Text.Written
import Asm8080.Proofs.Token.Lexing

/-!
# The notations of numbers in options and settings

A number may be given in three notations: decimal with an optional sign, hexadecimal after the mark
`0x` or `0X`, and hexadecimal with an optional sign before the letter `H` or `h`. The reader looks
for the mark and the letter and leaves the rest to the reader of integers, which takes a sign and a
mark of its own. So it accepts a few texts in no notation, and it refuses decimal numbers with more
digits than may be read; it decides every other plain text by the three notations. What is written
in assembler notation is read back by it and by the tokenizer.

## Main definitions

* `Asm8080.Integer.IsNumber` — a text is a number in one of the three notations.
* `Asm8080.Integer.IsStray` — a text that is accepted as a number but is in no notation.
* `Asm8080.Integer.IsOverlong` — a decimal number with more digits than may be read.
* `Asm8080.Hex.ReadsBack` — a text is read back as a number, by the tokenizer and by the reader.

## Main results

* `Asm8080.Integer.readNumber_eq_ok_iff` — which plain texts are accepted, and as which number.
* `Asm8080.Integer.IsStray.not_isNumber` — what is accepted beside the notations is in none of them.
* `Asm8080.Integer.readNumber_notations` — how the reader and the three notations compare.
* `Asm8080.Hex.literal_readsBack` — what is written in assembler notation is read back.
-/

set_option autoImplicit false

namespace Asm8080

namespace Integer

variable {cs : List Char} {n : Int}

/-! ## The notations -/

/-- **A number in one of three notations**: decimal digits after an optional sign, the mark and
hexadecimal digits, or hexadecimal digits after an optional sign and the letter H. -/
inductive IsNumber : List Char → Int → Prop
  | decimal {cs : List Char} {n : Int} (h : Signed (Numeral .decimal) cs n) : IsNumber cs n
  | marked {cs : List Char} {n : Nat} (h : Marked cs n) : IsNumber cs n
  | suffixed {cs : List Char} {c : Char} {n : Int} (h : Signed (Numeral .hexadecimal) cs n)
      (hc : c ∈ ['h', 'H']) : IsNumber (cs ++ [c]) n

/-- A text with a sign or a mark too many: a sign after the mark, a second mark after the mark, or
a sign and the mark before hexadecimal digits that the letter H follows. -/
inductive IsStray : List Char → Int → Prop
  | sign {x s : Char} {cs : List Char} {n : Int} (hx : x ∈ ['x', 'X']) (hs : s ∈ ['+', '-'])
      (h : Signed Hexadecimal (s :: cs) n) : IsStray ('0' :: x :: s :: cs) n
  | mark {x : Char} {cs : List Char} {n : Nat} (hx : x ∈ ['x', 'X']) (h : Marked cs n) :
      IsStray ('0' :: x :: cs) n
  | both {s c : Char} {cs : List Char} {n : Int} (hs : s ∈ ['+', '-'])
      (h : Signed Marked (s :: cs) n) (hc : c ∈ ['h', 'H']) : IsStray (s :: cs ++ [c]) n

/-- A decimal number with more digits than may be read. -/
def IsOverlong (cs : List Char) : Prop := ∃ n, Signed LongDecimal cs n

/-- A text ends with the letter H. -/
def HasSuffix (cs : List Char) : Prop := ∃ c ∈ ['h', 'H'], ∃ front, cs = front ++ [c]

/-! ## Marks and suffixes -/

/-- What is signed in one way is signed in another, if that says less of the absolute value. -/
lemma Signed.imp {P Q : List Char → Nat → Prop} (hPQ : ∀ ds m, P ds m → Q ds m)
    (h : Signed P cs n) : Signed Q cs n := by
  cases h with
  | unsigned h => exact .unsigned (hPQ _ _ h)
  | plus h => exact .plus (hPQ _ _ h)
  | minus h => exact .minus (hPQ _ _ h)

/-- A signed numeral is made of signs and digits. -/
lemma Signed.isSome_digit? {radix : Radix} (h : Signed (Numeral radix) cs n) :
    ∀ c ∈ cs, c ∈ ['+', '-'] ∨ (radix.digit? c).isSome = true := by
  cases h with
  | unsigned h => exact fun c hc => .inr (h.isSome_digit? c hc)
  | plus h => exact List.forall_mem_cons.2 ⟨.inl (by simp), fun c hc => .inr (h.isSome_digit? c hc)⟩
  | minus h =>
    exact List.forall_mem_cons.2 ⟨.inl (by simp), fun c hc => .inr (h.isSome_digit? c hc)⟩

/-- The letters of marks and suffixes are neither signs nor digits. -/
lemma ne_digit_of_letter {c : Char} (hc : c ∈ ['x', 'X', 'h', 'H']) (radix : Radix) :
    c ∉ ['+', '-'] ∧ radix.digit? c = none := by
  have hall : (['x', 'X', 'h', 'H'].all fun c =>
      decide (c ∉ ['+', '-'] ∧ radix.digit? c = none)) = true := by
    cases radix <;> rfl
  exact of_decide_eq_true (List.all_eq_true.1 hall c hc)

/-- No letter of a mark or a suffix stands in a signed numeral. -/
lemma Signed.notMem_letter {radix : Radix} (h : Signed (Numeral radix) cs n) {c : Char}
    (hc : c ∈ ['x', 'X', 'h', 'H']) : c ∉ cs := by
  intro hmem
  obtain ⟨hsign, hdigit⟩ := ne_digit_of_letter hc radix
  rcases h.isSome_digit? c hmem with hmem | hsome
  · exact hsign hmem
  · simp [hdigit] at hsome

/-- The letter of a mark is one of four letters. -/
lemma letter_of_mark {x : Char} (hx : x ∈ ['x', 'X']) : x ∈ ['x', 'X', 'h', 'H'] :=
  List.mem_append_left ['h', 'H'] hx

/-- The letter of a suffix is one of four letters. -/
lemma letter_of_suffix {c : Char} (hc : c ∈ ['h', 'H']) : c ∈ ['x', 'X', 'h', 'H'] :=
  List.mem_append_right ['x', 'X'] hc

/-- A signed numeral does not begin with the mark. -/
lemma Signed.not_hasMark {radix : Radix} (h : Signed (Numeral radix) cs n) : ¬HasMark cs := by
  rintro ⟨x, hx, rest, rfl⟩
  exact h.notMem_letter (letter_of_mark hx) (by simp)

/-- A signed numeral does not end with the letter H. -/
lemma Signed.not_hasSuffix {radix : Radix} (h : Signed (Numeral radix) cs n) : ¬HasSuffix cs := by
  rintro ⟨c, hc, front, rfl⟩
  exact h.notMem_letter (letter_of_suffix hc) (by simp)

/-- A signed numeral and the letter H do not begin with the mark. -/
lemma Signed.not_hasMark_append {radix : Radix} (h : Signed (Numeral radix) cs n) {c : Char}
    (hc : c ∈ ['h', 'H']) : ¬HasMark (cs ++ [c]) := by
  rintro ⟨x, hx, rest, hcs⟩
  have hmem : x ∈ cs ++ [c] := by simp [hcs]
  rcases List.mem_append.1 hmem with hmem | hmem
  · exact h.notMem_letter (letter_of_mark hx) hmem
  · obtain rfl := List.mem_singleton.1 hmem
    have hdisjoint : List.Disjoint ['x', 'X'] ['h', 'H'] := by simp
    exact hdisjoint hx hc

/-- An overlong number is a decimal number. -/
lemma IsOverlong.exists_signed (h : IsOverlong cs) : ∃ n, Signed (Numeral .decimal) cs n := by
  obtain ⟨n, h⟩ := h
  exact ⟨n, h.imp fun _ _ h => h.1⟩

/-! ## The notation of a text -/

/-- A text that begins with the mark is a number if digits follow. -/
lemma isNumber_marked_iff {x : Char} (hx : x ∈ ['x', 'X']) :
    IsNumber ('0' :: x :: cs) n ↔ ∃ m : Nat, Numeral .hexadecimal cs m ∧ n = m := by
  have hmark : HasMark ('0' :: x :: cs) := ⟨x, hx, cs, rfl⟩
  constructor
  · intro h
    generalize hbody : '0' :: x :: cs = body at h hmark
    cases h with
    | decimal h => exact absurd hmark h.not_hasMark
    | @marked _ m h =>
      obtain ⟨-, h⟩ := h
      cases hbody
      exact ⟨m, h, rfl⟩
    | suffixed h hc => exact absurd hmark (h.not_hasMark_append hc)
  · rintro ⟨m, h, rfl⟩
    exact .marked ⟨hx, h⟩

/-- A text that ends with the letter H and does not begin with the mark is a number if a signed
numeral stands before the letter. -/
lemma isNumber_suffixed_iff {c : Char} (hc : c ∈ ['h', 'H']) (hmark : ¬HasMark (cs ++ [c])) :
    IsNumber (cs ++ [c]) n ↔ Signed (Numeral .hexadecimal) cs n := by
  have hsuffix : HasSuffix (cs ++ [c]) := ⟨c, hc, cs, rfl⟩
  constructor
  · intro h
    generalize hbody : cs ++ [c] = body at h hmark hsuffix
    cases h with
    | decimal h => exact absurd hsuffix h.not_hasSuffix
    | marked h => exact absurd h.hasMark hmark
    | suffixed h _ =>
      obtain ⟨rfl, -⟩ := List.append_inj' hbody rfl
      exact h
  · exact fun h => .suffixed h hc

/-- Any other text is a number if it is a signed numeral. -/
lemma isNumber_decimal_iff (hmark : ¬HasMark cs) (hsuffix : ¬HasSuffix cs) :
    IsNumber cs n ↔ Signed (Numeral .decimal) cs n := by
  constructor
  · intro h
    cases h with
    | decimal h => exact h
    | marked h => exact absurd h.hasMark hmark
    | suffixed h hc => exact absurd ⟨_, hc, _, rfl⟩ hsuffix
  · exact .decimal

/-! ## Beside the notations -/

/-- What the reader of integers takes after the mark is a numeral or has something too much. -/
lemma signed_marked_iff {x : Char} (hx : x ∈ ['x', 'X']) :
    Signed Hexadecimal cs n ↔
      (∃ m : Nat, Numeral .hexadecimal cs m ∧ n = m) ∨ IsStray ('0' :: x :: cs) n := by
  constructor
  · intro h
    cases h with
    | @unsigned _ m h =>
      rcases h with h | h
      · exact .inl ⟨m, h, rfl⟩
      · exact .inr (.mark hx h)
    | plus h => exact .inr (.sign hx (by simp) (.plus h))
    | minus h => exact .inr (.sign hx (by simp) (.minus h))
  · rintro (⟨m, h, rfl⟩ | h)
    · exact .unsigned (.inl h)
    · generalize hbody : '0' :: x :: cs = body at h
      cases h with
      | sign _ _ h =>
        cases hbody
        exact h
      | mark _ h =>
        cases hbody
        exact .unsigned (.inr h)
      | both hs _ _ =>
        obtain ⟨rfl, -⟩ := List.cons.inj hbody
        exact absurd hs (by decide)

/-- What the reader of integers takes before the letter H is a signed numeral or has something too
much, if the mark does not stand in front. -/
lemma signed_suffixed_iff {c : Char} (hc : c ∈ ['h', 'H']) (hmark : ¬HasMark (cs ++ [c])) :
    Signed Hexadecimal cs n ↔
      Signed (Numeral .hexadecimal) cs n ∨ IsStray (cs ++ [c]) n := by
  constructor
  · intro h
    cases h with
    | unsigned h =>
      rcases h with h | ⟨hx, -⟩
      · exact .inl (.unsigned h)
      · exact absurd ⟨_, hx, _, rfl⟩ hmark
    | plus h =>
      rcases h with h | h
      · exact .inl (.plus h)
      · exact .inr (.both (by simp) (.plus h) hc)
    | minus h =>
      rcases h with h | h
      · exact .inl (.minus h)
      · exact .inr (.both (by simp) (.minus h) hc)
  · rintro (h | h)
    · exact h.imp fun _ _ => .inl
    · generalize hbody : cs ++ [c] = body at h hmark
      cases h with
      | sign hx _ _ => exact absurd ⟨_, hx, _, rfl⟩ hmark
      | mark hx _ => exact absurd ⟨_, hx, _, rfl⟩ hmark
      | both _ h _ =>
        obtain ⟨rfl, -⟩ := List.append_inj' hbody rfl
        exact h.imp fun _ _ => .inr

/-- A text with something too much begins with the mark or ends with the letter H. -/
lemma IsStray.hasMark_or_hasSuffix (h : IsStray cs n) : HasMark cs ∨ HasSuffix cs := by
  cases h with
  | sign hx _ _ => exact .inl ⟨_, hx, _, rfl⟩
  | mark hx _ => exact .inl ⟨_, hx, _, rfl⟩
  | both _ _ hc => exact .inr ⟨_, hc, _, rfl⟩

/-- The letter of the mark stands in a signed number with the mark. -/
lemma Signed.exists_letter (h : Signed Marked cs n) : ∃ x ∈ ['x', 'X'], x ∈ cs := by
  obtain ⟨m, hm, -⟩ := (signed_iff unsigned_marked).1 h
  obtain ⟨x, hx, rest, hrest⟩ := hm.hasMark
  exact ⟨x, hx, mem_of_mem_takeSign (by simp [hrest])⟩

/-- **What is accepted beside the notations** is a number in none of them. -/
lemma IsStray.not_isNumber (h : IsStray cs n) (m : Int) : ¬IsNumber cs m := by
  intro hm
  cases h with
  | @sign x s cs _ hx hs _ =>
    obtain ⟨k, hk, -⟩ := (isNumber_marked_iff hx).1 hm
    obtain ⟨hplus, hminus⟩ := ne_sign_of_isSome (hk.isSome_digit? s List.mem_cons_self)
    rcases List.mem_pair.1 hs with rfl | rfl
    · exact hplus rfl
    · exact hminus rfl
  | mark hx h =>
    obtain ⟨k, hk, -⟩ := (isNumber_marked_iff hx).1 hm
    exact (Signed.unsigned hk).not_hasMark h.hasMark
  | @both s c cs _ hs h hc =>
    have hmark : ¬HasMark (s :: cs ++ [c]) := by
      rintro ⟨x, -, rest, hbody⟩
      obtain ⟨rfl, -⟩ := List.cons.inj hbody
      exact absurd hs (by decide)
    obtain ⟨x, hx, hmem⟩ := h.exists_letter
    exact ((isNumber_suffixed_iff hc hmark).1 hm).notMem_letter (letter_of_mark hx) hmem

/-- A number with few enough digits is one that is not overlong. -/
lemma signed_shortDecimal_iff :
    Signed ShortDecimal cs n ↔ Signed (Numeral .decimal) cs n ∧ ¬IsOverlong cs := by
  constructor
  · intro h
    refine ⟨h.imp fun _ _ h => h.1, ?_⟩
    rintro ⟨k, hlong⟩
    obtain ⟨m, hm, -⟩ := (signed_iff unsigned_shortDecimal).1 h
    obtain ⟨l, hl, -⟩ := (signed_iff unsigned_longDecimal).1 hlong
    exact Nat.not_lt.2 hm.2 hl.2
  · rintro ⟨h, hshort⟩
    obtain ⟨m, hm, hn⟩ := (signed_iff (unsigned_numeral .decimal)).1 h
    refine (signed_iff unsigned_shortDecimal).2 ⟨m, ⟨hm, Nat.not_lt.1 fun hlong => ?_⟩, hn⟩
    exact hshort ⟨n, (signed_iff unsigned_longDecimal).2 ⟨m, ⟨hm, hlong⟩, hn⟩⟩

/-! ## Reading -/

/-- After the mark, an integer in base 16 is read. -/
lemma readNumber_of_mark {text : String} {x : Char} (hx : x ∈ ['x', 'X'])
    (htext : Text.stripChars text.toList = '0' :: x :: cs) :
    readNumber text = read 16 (String.ofList cs) := by
  rcases List.mem_pair.1 hx with rfl | rfl <;> simp only [readNumber, htext]

/-- Without the mark, the last character decides on the base. -/
lemma readNumber_of_not_hasMark {text : String} (htext : Text.stripChars text.toList = cs)
    (hmark : ¬HasMark cs) :
    readNumber text =
      if cs.getLast? = some 'h' ∨ cs.getLast? = some 'H' then read 16 (String.ofList cs.dropLast)
      else read 10 (String.ofList cs) := by
  unfold readNumber
  rw [htext]
  split
  · exact absurd ⟨'x', by simp, _, rfl⟩ hmark
  · exact absurd ⟨'X', by simp, _, rfl⟩ hmark
  · rfl

/-- Before the letter H, an integer in base 16 is read. -/
lemma readNumber_of_suffix {text : String} {c : Char} (hc : c ∈ ['h', 'H'])
    (htext : Text.stripChars text.toList = cs ++ [c]) (hmark : ¬HasMark (cs ++ [c])) :
    readNumber text = read 16 (String.ofList cs) := by
  rw [readNumber_of_not_hasMark htext hmark, List.getLast?_concat, List.dropLast_concat, if_pos]
  simpa using hc

/-- Otherwise an integer in base 10 is read. -/
lemma readNumber_of_decimal {text : String} (htext : Text.stripChars text.toList = cs)
    (hmark : ¬HasMark cs) (hsuffix : ¬HasSuffix cs) :
    readNumber text = read 10 (String.ofList cs) := by
  rw [readNumber_of_not_hasMark htext hmark, if_neg]
  rintro (hlast | hlast)
  · exact hsuffix ⟨'h', by simp, List.getLast?_eq_some_iff.1 hlast⟩
  · exact hsuffix ⟨'H', by simp, List.getLast?_eq_some_iff.1 hlast⟩

/-- **Which plain texts are accepted**: numbers in the three notations that are not overlong, and
what has a sign or a mark too many. -/
lemma readNumber_eq_ok_iff {text : String} (htext : Text.stripChars text.toList = cs)
    (hcs : ∀ c ∈ cs, Plain c) :
    readNumber text = .ok n ↔ IsNumber cs n ∧ ¬IsOverlong cs ∨ IsStray cs n := by
  by_cases hmark : HasMark cs
  · obtain ⟨x, hx, rest, rfl⟩ := id hmark
    have hshort : ¬IsOverlong ('0' :: x :: rest) := fun h =>
      h.exists_signed.elim fun _ h => h.not_hasMark hmark
    rw [readNumber_of_mark hx htext, read_hexadecimal_iff fun c hc => hcs c (by simp [hc]),
      signed_marked_iff hx, isNumber_marked_iff hx, and_iff_left hshort]
  · by_cases hsuffix : HasSuffix cs
    · obtain ⟨c, hc, front, rfl⟩ := id hsuffix
      have hshort : ¬IsOverlong (front ++ [c]) := fun h =>
        h.exists_signed.elim fun _ h => h.not_hasSuffix hsuffix
      rw [readNumber_of_suffix hc htext hmark,
        read_hexadecimal_iff fun c hc => hcs c (by simp [hc]), signed_suffixed_iff hc hmark,
        isNumber_suffixed_iff hc hmark, and_iff_left hshort]
    · have hstray : ¬IsStray cs n := fun h => h.hasMark_or_hasSuffix.elim hmark hsuffix
      rw [readNumber_of_decimal htext hmark hsuffix, read_decimal_iff hcs, signed_shortDecimal_iff,
        isNumber_decimal_iff hmark hsuffix, or_iff_left hstray]

/-- An overlong number is refused. -/
lemma readNumber_of_isOverlong {text : String} (htext : Text.stripChars text.toList = cs)
    (hcs : ∀ c ∈ cs, Plain c) (h : IsOverlong cs) :
    readNumber text = .error (.tooLongToRead (takeSign cs).2.length) := by
  obtain ⟨n, hlong⟩ := id h
  obtain ⟨m, hm⟩ := h.exists_signed
  rw [readNumber_of_decimal htext hm.not_hasMark hm.not_hasSuffix, read_of_longDecimal hcs hlong]

end Integer

/-- White space is taken off both ends of a text. -/
lemma Text.stripChars_of_blanks {before body after : String}
    (hbefore : ∀ c ∈ before.toList, c ∈ asciiBlanks) (hafter : ∀ c ∈ after.toList, c ∈ asciiBlanks)
    (hbody : ∀ c ∈ body.toList, Integer.Plain c) :
    stripChars (before ++ body ++ after).toList = body.toList := by
  have hblank : ∀ c ∈ asciiBlanks, isBlank c = true := List.all_eq_true.1 rfl
  rw [String.toList_append, String.toList_append, List.append_assoc]
  exact stripChars_append (fun c hc => hblank c (hbefore c hc)) (fun c hc => hblank c (hafter c hc))
    (fun c hc => (hbody c (List.mem_of_head? hc)).isBlank)
    (fun c hc => (hbody c (List.mem_of_getLast? hc)).isBlank)

namespace Integer

/-- **The reader of numbers and the three notations**, on every plain text with ASCII white space
around it. A text is accepted as a number exactly when it is that number in one of the notations and
is not overlong, or is a stray; every other text is refused. An overlong text is a number and is
refused, and a stray is a number in no notation and is accepted: these two are where the reader and
the notations part. -/
theorem readNumber_notations {before body after : String}
    (hbefore : ∀ c ∈ before.toList, c ∈ Text.asciiBlanks)
    (hafter : ∀ c ∈ after.toList, c ∈ Text.asciiBlanks) (hbody : ∀ c ∈ body.toList, Plain c) :
    (∀ n, readNumber (before ++ body ++ after) = .ok n ↔
        IsNumber body.toList n ∧ ¬IsOverlong body.toList ∨ IsStray body.toList n) ∧
      ((∀ n, ¬IsNumber body.toList n ∧ ¬IsStray body.toList n) →
        ∃ fault, readNumber (before ++ body ++ after) = .error fault) ∧
      (IsOverlong body.toList → (∃ n, IsNumber body.toList n) ∧
        ∃ count, readNumber (before ++ body ++ after) = .error (.tooLongToRead count)) ∧
      ∀ n, IsStray body.toList n → ∀ m, ¬IsNumber body.toList m := by
  have htext := Text.stripChars_of_blanks hbefore hafter hbody
  have hread : ∀ n, readNumber (before ++ body ++ after) = .ok n ↔
      IsNumber body.toList n ∧ ¬IsOverlong body.toList ∨ IsStray body.toList n :=
    fun n => readNumber_eq_ok_iff htext hbody
  refine ⟨hread, fun hnone => ?_, fun hlong => ?_, fun n h => h.not_isNumber⟩
  · cases hresult : readNumber (before ++ body ++ after) with
    | error fault => exact ⟨fault, rfl⟩
    | ok n =>
      rcases (hread n).1 hresult with ⟨h, -⟩ | h
      · exact absurd h (hnone n).1
      · exact absurd h (hnone n).2
  · obtain ⟨n, h⟩ := hlong.exists_signed
    exact ⟨⟨n, .decimal h⟩, _, readNumber_of_isOverlong htext hbody hlong⟩

/-- A signed number with the suffix is accepted, and so is a stray: a sign after the mark. -/
theorem readNumber_notations_signed :
    (∀ c ∈ " ".toList, c ∈ Text.asciiBlanks) ∧ (∀ c ∈ "\n".toList, c ∈ Text.asciiBlanks) ∧
      (∀ c ∈ "-0ffH".toList, Plain c) ∧ (∀ c ∈ "0X+0x5".toList, Plain c) ∧
      readNumber " -0ffH\n" = .ok (-255) ∧ readNumber " 0X+0x5\n" = .ok 5 ∧
      ∀ m, ¬IsNumber "0X+0x5".toList m := by
  have hbefore : ∀ c ∈ " ".toList, c ∈ Text.asciiBlanks := by simp [Text.asciiBlanks]
  have hafter : ∀ c ∈ "\n".toList, c ∈ Text.asciiBlanks := by simp [Text.asciiBlanks]
  have hplain : ∀ c ∈ "-0ffH".toList, Plain c := by simp [Plain, Text.asciiBlanks]
  have hplain' : ∀ c ∈ "0X+0x5".toList, Plain c := by simp [Plain, Text.asciiBlanks]
  have hnumber : IsNumber "-0ffH".toList (-255) ∧ ¬IsOverlong "-0ffH".toList := by
    have hchars : "-0ffH".toList = ['-', '0', 'f', 'f'] ++ ['H'] := by decide
    rw [hchars]
    refine ⟨.suffixed (.minus (by decide)) (by simp), fun h => ?_⟩
    obtain ⟨n, h⟩ := h.exists_signed
    exact h.not_hasSuffix ⟨'H', by simp, _, rfl⟩
  have hstray : IsStray "0X+0x5".toList 5 := by
    have hchars : "0X+0x5".toList = ['0', 'X', '+', '0', 'x', '5'] := by decide
    rw [hchars]
    exact .sign (by simp) (by simp) (.plus (.inr ⟨by simp, by decide⟩))
  obtain ⟨hread, -⟩ := readNumber_notations hbefore hafter hplain
  obtain ⟨hread', -, -, hnone⟩ := readNumber_notations hbefore hafter hplain'
  exact ⟨hbefore, hafter, hplain, hplain', (hread (-255)).2 (.inl hnumber),
    (hread' 5).2 (.inr hstray), hnone 5 hstray⟩

/-- The number one with as many zeros in front as digits may be read is overlong. -/
lemma longDecimal_one {k : Nat} (hk : digitLimit ≤ k) :
    LongDecimal (List.replicate k '0' ++ ['1']) 1 := by
  have hzeros : ofDigits 10 (List.replicate k 0) = 0 := by
    clear hk
    induction k with
    | zero => rfl
    | succ k ih => rw [List.replicate_succ', ofDigits, List.foldl_append, ← ofDigits, ih]; rfl
  have hvalues : (List.replicate k '0' ++ ['1']).filterMap Radix.decimal.digit? =
      List.replicate k 0 ++ [1] := by
    rw [List.filterMap_append, List.filterMap_replicate_of_some (by decide : _ = some 0)]
    rfl
  refine ⟨numeral_iff.2 ⟨by simp, fun c hc => ?_, ?_⟩, ?_⟩
  · rcases List.mem_append.1 hc with hc | hc
    · rw [List.eq_of_mem_replicate hc]
      rfl
    · rw [List.mem_singleton.1 hc]
      rfl
  · rw [hvalues, ofDigits, List.foldl_append, ← ofDigits]
    exact (congrArg (fun n => n * 10 + 1) hzeros).symm
  · rw [List.length_append, List.length_replicate, List.length_singleton]
    omega

/-- **Where the reader and the notations part**: a plain text with two marks is accepted, though it
is a number in no notation, and the number one in 4301 decimal digits is refused. -/
theorem readNumber_beside_notations :
    ((∀ c ∈ "0x0x10".toList, Plain c) ∧ readNumber "0x0x10" = .ok 16 ∧
        ∀ n, ¬IsNumber "0x0x10".toList n) ∧
      (∀ c ∈ List.replicate 4300 '0' ++ ['1'], Plain c) ∧
        IsNumber (List.replicate 4300 '0' ++ ['1']) 1 ∧
        ∃ count, readNumber (String.ofList (List.replicate 4300 '0' ++ ['1'])) =
          .error (.tooLongToRead count) := by
  refine ⟨⟨by simp [Plain, Text.asciiBlanks], by decide +kernel, ?_⟩, ?_⟩
  · have hchars : "0x0x10".toList = ['0', 'x', '0', 'x', '1', '0'] := by decide
    have hstray : IsStray ['0', 'x', '0', 'x', '1', '0'] (16 : Nat) :=
      .mark (by simp) ⟨by simp, by decide⟩
    rw [hchars]
    exact hstray.not_isNumber
  · have hlong := longDecimal_one (show digitLimit ≤ 4300 by decide)
    have hplain : ∀ c ∈ List.replicate 4300 '0' ++ ['1'], Plain c := by
      refine List.forall_mem_append.2 ⟨fun c hc => ?_, List.forall_mem_singleton.2 (by decide)⟩
      rw [List.eq_of_mem_replicate hc]
      decide
    -- the list is not to be written out
    generalize List.replicate 4300 '0' ++ ['1'] = cs at hlong hplain ⊢
    have htext : Text.stripChars (String.ofList cs).toList = cs := by
      rw [String.toList_ofList]
      exact Text.stripChars_eq_self (fun c hc => (hplain c (List.mem_of_head? hc)).isBlank)
        (fun c hc => (hplain c (List.mem_of_getLast? hc)).isBlank)
    exact ⟨hplain, .decimal (.unsigned hlong.1), _,
      readNumber_of_isOverlong htext hplain ⟨1, .unsigned hlong⟩⟩

end Integer

namespace Hex

/-- Assembler notation consists of plain characters. -/
lemma plain_of_mem_literal (width value : Nat) :
    ∀ c ∈ (literal width value).toList, Integer.Plain c := by
  obtain ⟨d, ds, hchars, -, hdigits, -⟩ := exists_literal width value
  rw [hchars, ← List.cons_append]
  exact List.forall_mem_append.2 ⟨fun c hc => Integer.plain_of_isDigit (hdigits c hc),
    List.forall_mem_singleton.2 (by decide)⟩

/-- Assembler notation is a number with the suffix, and is never overlong. -/
lemma isNumber_literal (width value : Nat) :
    Integer.IsNumber (literal width value).toList value ∧
      ¬Integer.IsOverlong (literal width value).toList := by
  obtain ⟨d, ds, hchars, -, hdigits, hvalue⟩ := exists_literal width value
  rw [hchars, ← List.cons_append]
  constructor
  · rw [← hvalue]
    exact .suffixed (.unsigned (Integer.numeral_of_isDigit (by simp) hdigits)) (by simp)
  · intro hlong
    obtain ⟨n, h⟩ := hlong.exists_signed
    exact h.not_hasSuffix ⟨'H', by simp, d :: ds, rfl⟩

/-- **A text is read back as a number**: it is one number token in base 16, with the number modulo
65536 as its value, and no token that a word stands for; with ASCII white space around it, it is
read as the number itself. -/
structure ReadsBack (text : String) (value : Nat) : Prop where
  token : ∀ file, ∃ ts, tokenize text file = .ok ts ∧
    ts.map Token.kind = [.number (value % 0x10000) .hexadecimal, .eof] ∧
    ∀ t ∈ ts, ∀ word, t.kind ≠ .ofName word
  number : ∀ before after : String, (∀ c ∈ before.toList, c ∈ Text.asciiBlanks) →
    (∀ c ∈ after.toList, c ∈ Text.asciiBlanks) →
    Integer.readNumber (before ++ text ++ after) = .ok (value : Int)

/-- Assembler notation is one number token, and no token that a word stands for. -/
lemma exists_tokenize_literal (width value : Nat) (file : String) :
    ∃ ts, tokenize (literal width value) file = .ok ts ∧
      ts.map Token.kind = [.number (value % 0x10000) .hexadecimal, .eof] ∧
      ∀ t ∈ ts, ∀ word, t.kind ≠ .ofName word := by
  have hlexes : Lexes ((literal width value).toList ++ [])
      [.number (value % 0x10000) .hexadecimal] [] :=
    Lexes.hexLiteral width value (by simp [Lexes.Ends])
  rw [List.append_nil] at hlexes
  obtain ⟨ts, t, htokens, hkinds, hend⟩ := hlexes.tokenize file
  have hall : (ts ++ [t]).map Token.kind = [.number (value % 0x10000) .hexadecimal, .eof] := by
    rw [List.map_append, hkinds, List.map_singleton, hend]
    rfl
  refine ⟨ts ++ [t], htokens, hall, fun u hu word hword => ?_⟩
  have hnames := Token.Kind.ofName_eq_iff.1 hword.symm
  have hmem := List.mem_map_of_mem (f := Token.kind) hu
  rw [hall] at hmem
  -- a word stands for neither a number nor the end of the text
  rcases List.mem_pair.1 hmem with hkind | hkind <;> rw [hkind] at hnames <;> cases hnames

/-- Assembler notation is read back in every width. -/
lemma readsBack_literal (width value : Nat) : ReadsBack (literal width value) value where
  token := exists_tokenize_literal width value
  number before after hbefore hafter := by
    have hplain := plain_of_mem_literal width value
    have htext := Text.stripChars_of_blanks hbefore hafter hplain
    exact (Integer.readNumber_eq_ok_iff htext hplain).2 (.inl (isNumber_literal width value))

/-- A text is written for a width exactly when that fits in a machine word and is not negative. -/
lemma literalIn_eq_ok_iff {width value : Int} {text : String} :
    literalIn width value = .ok text ↔
      (0 ≤ width ∧ width < 0x8000000000000000) ∧ text = literal width.toNat value := by
  unfold literalIn placesOf
  split_ifs with hnegative hword
  · exact iff_of_false (by simp [Except.map]) (by omega)
  · simp only [Except.map, Except.ok.injEq, eq_comm (a := text)]
    exact (and_iff_right ⟨by omega, hword⟩).symm
  · exact iff_of_false (by simp [Except.map]) (by omega)

/-- **What is written in assembler notation is read back.** For every number, a text is written
exactly when the width is not negative and fits in a machine word, and every text that is written is
read back as the number; so is assembler notation in any number of places. -/
theorem literal_readsBack (value : Nat) :
    (∀ width : Int, ((∃ text, literalIn width value = .ok text) ↔
        0 ≤ width ∧ width < 0x8000000000000000) ∧
      ∀ text, literalIn width value = .ok text → ReadsBack text value) ∧
    ∀ places : Nat, ReadsBack (literal places value) value := by
  refine ⟨fun width => ⟨?_, fun text htext => ?_⟩, fun places => readsBack_literal places value⟩
  · simp only [literalIn_eq_ok_iff, exists_and_left, exists_eq, and_true]
  · obtain ⟨-, rfl⟩ := literalIn_eq_ok_iff.1 htext
    exact readsBack_literal width.toNat value

/-- A number of five digits in width 2, which begins with a letter: it gets a zero in front, and its
token has the lower four digits. -/
theorem literal_readsBack_letter :
    (∀ c ∈ "\t ".toList, c ∈ Text.asciiBlanks) ∧ (∀ c ∈ "\r\n".toList, c ∈ Text.asciiBlanks) ∧
      literalIn 2 (0xDEB0D : Nat) = .ok "0DEB0DH" ∧
      (∃ ts, tokenize "0DEB0DH" "rom.asm" = .ok ts ∧
        ts.map Token.kind = [.number 0xEB0D .hexadecimal, .eof] ∧
        ∀ t ∈ ts, ∀ word, t.kind ≠ .ofName word) ∧
      Integer.readNumber "\t 0DEB0DH\r\n" = .ok 0xDEB0D := by
  have hbefore : ∀ c ∈ "\t ".toList, c ∈ Text.asciiBlanks := by simp [Text.asciiBlanks]
  have hafter : ∀ c ∈ "\r\n".toList, c ∈ Text.asciiBlanks := by simp [Text.asciiBlanks]
  have hwritten : literalIn 2 (0xDEB0D : Nat) = .ok "0DEB0DH" := by decide +kernel
  have hback := ((literal_readsBack 0xDEB0D).1 2).2 "0DEB0DH" hwritten
  exact ⟨hbefore, hafter, hwritten, hback.token "rom.asm", hback.number _ _ hbefore hafter⟩

end Hex

end Asm8080
