import Mathlib.Data.List.TakeWhile
import Asm8080.Number.Integer
import Asm8080.Proofs.Token.Vocabulary

/-!
# Which texts are integers

In base 10 an integer is a sign, which may be missing, and digits; in base 16 the mark `0x` or `0X`
may stand before the digits. The integer that is read is the positional value of the digits, with
its sign. This is what the reader accepts of texts without white space, underscores and characters
beyond ASCII, and the limit on the number of decimal digits is the only exception.

## Main definitions

* `Asm8080.Integer.Plain` — an ASCII character that is neither white space nor an underscore.
* `Asm8080.Integer.Numeral` — digits of a base that denote a number.
* `Asm8080.Integer.Marked` — hexadecimal digits after the mark of their base.
* `Asm8080.Integer.Signed` — what denotes a number, with a sign in front that may be missing.

## Main results

* `Asm8080.Integer.read_hexadecimal_iff` — which plain texts are integers in base 16.
* `Asm8080.Integer.read_decimal_iff` — which plain texts are integers in base 10.
* `Asm8080.Integer.read_of_longDecimal` — which are refused for their length.
-/

set_option autoImplicit false

namespace Asm8080

namespace Text

/-- The white space among the ASCII characters. -/
def asciiBlanks : List Char :=
  ['\t', '\n', '\x0b', '\x0c', '\r', '\x1c', '\x1d', '\x1e', '\x1f', ' ']

/-- An ASCII character is blank exactly when it is one of ten. -/
lemma isBlank_iff_of_ascii {c : Char} (h : c.toNat < 128) :
    isBlank c = true ↔ c ∈ asciiBlanks :=
  ascii_elim (P := fun c => isBlank c = true ↔ c ∈ asciiBlanks) (by decide +kernel) h

end Text

namespace Integer

/-! ## The grammar -/

/-- An ASCII character that is neither white space nor an underscore. -/
def Plain (c : Char) : Prop := c.toNat < 128 ∧ c ∉ Text.asciiBlanks ∧ c ≠ '_'

/-- Whether a character is plain is decided by looking at it. -/
instance (c : Char) : Decidable (Plain c) := inferInstanceAs (Decidable (_ ∧ _ ∧ _))

/-- Digits of a base, at least one, whose positional value is a number. -/
def Numeral (radix : Radix) (cs : List Char) (n : Nat) : Prop :=
  cs ≠ [] ∧ ∃ values, List.Forall₂ radix.IsDigit cs values ∧
    n = Nat.ofDigits radix.base values.reverse

/-- The mark of base 16 and hexadecimal digits that denote a number. -/
inductive Marked : List Char → Nat → Prop
  | intro {x : Char} {cs : List Char} {n : Nat} (hx : x ∈ ['x', 'X'])
      (h : Numeral .hexadecimal cs n) : Marked ('0' :: x :: cs) n

/-- A text begins with the mark of base 16. -/
def HasMark (cs : List Char) : Prop := ∃ x ∈ ['x', 'X'], ∃ rest, cs = '0' :: x :: rest

/-- Hexadecimal digits that denote a number, after the mark of their base or without it. -/
def Hexadecimal (cs : List Char) (n : Nat) : Prop := Numeral .hexadecimal cs n ∨ Marked cs n

/-- Decimal digits that denote a number, no more of them than may be read. -/
def ShortDecimal (cs : List Char) (n : Nat) : Prop :=
  Numeral .decimal cs n ∧ cs.length ≤ digitLimit

/-- Decimal digits that denote a number, more of them than may be read. -/
def LongDecimal (cs : List Char) (n : Nat) : Prop :=
  Numeral .decimal cs n ∧ digitLimit < cs.length

/-- **An optional sign** and what denotes the absolute value. -/
inductive Signed (P : List Char → Nat → Prop) : List Char → Int → Prop
  | unsigned {cs : List Char} {n : Nat} (h : P cs n) : Signed P cs n
  | plus {cs : List Char} {n : Nat} (h : P cs n) : Signed P ('+' :: cs) n
  | minus {cs : List Char} {n : Nat} (h : P cs n) : Signed P ('-' :: cs) (-n)

/-! ## Numerals -/

/-- The value of digits is what the reader computes of them. -/
lemma numeral_iff {radix : Radix} {cs : List Char} {n : Nat} :
    Numeral radix cs n ↔ cs ≠ [] ∧ (∀ c ∈ cs, (radix.digit? c).isSome = true) ∧
      n = ofDigits radix.base (cs.filterMap radix.digit?) := by
  simp only [Numeral, Lexeme.forall₂_isDigit_iff, Option.isNone_eq_false_iff, ofDigits_eq]
  refine and_congr_right fun _ => ⟨?_, ?_⟩
  · rintro ⟨values, ⟨hall, rfl⟩, rfl⟩
    exact ⟨hall, rfl⟩
  · rintro ⟨hall, rfl⟩
    exact ⟨_, ⟨hall, rfl⟩, rfl⟩

/-- Whether digits denote a number is decided by computing their value. -/
instance (radix : Radix) (cs : List Char) (n : Nat) : Decidable (Numeral radix cs n) :=
  decidable_of_iff (cs ≠ [] ∧ (cs.all fun c => (radix.digit? c).isSome) = true ∧
    n = ofDigits radix.base (cs.filterMap radix.digit?)) (by rw [numeral_iff, List.all_eq_true])

/-- The characters of a numeral have a value in the base. -/
lemma Numeral.isSome_digit? {radix : Radix} {cs : List Char} {n : Nat} (h : Numeral radix cs n) :
    ∀ c ∈ cs, (radix.digit? c).isSome = true :=
  (numeral_iff.1 h).2.1

/-- What denotes numbers does not begin with a sign. -/
def Unsigned (P : List Char → Nat → Prop) : Prop :=
  ∀ cs n, P cs n → ∀ c ∈ cs.head?, c ≠ '+' ∧ c ≠ '-'

/-- A digit is no sign. -/
lemma ne_sign_of_isSome {radix : Radix} {c : Char} (h : (radix.digit? c).isSome = true) :
    c ≠ '+' ∧ c ≠ '-' := by
  constructor
  · rintro rfl
    cases radix <;> cases h
  · rintro rfl
    cases radix <;> cases h

/-- A numeral does not begin with a sign. -/
lemma unsigned_numeral (radix : Radix) : Unsigned (Numeral radix) := fun _ _ h c hc =>
  ne_sign_of_isSome (h.isSome_digit? c (List.mem_of_head? hc))

/-- Decimal digits do not begin with a sign, if they may be read. -/
lemma unsigned_shortDecimal : Unsigned ShortDecimal := fun cs n h =>
  unsigned_numeral .decimal cs n h.1

/-- Too many of them do not either. -/
lemma unsigned_longDecimal : Unsigned LongDecimal := fun cs n h =>
  unsigned_numeral .decimal cs n h.1

/-- The mark and the digits after it do not begin with a sign. -/
lemma unsigned_marked : Unsigned Marked := by
  rintro _ _ ⟨-, -⟩ _ ⟨⟩
  decide

/-- Hexadecimal digits do not begin with a sign, whether the mark is there or not. -/
lemma unsigned_hexadecimal : Unsigned Hexadecimal := fun cs n h =>
  h.elim (unsigned_numeral .hexadecimal cs n) (unsigned_marked cs n)

/-! ## Signs -/

/-- What does not begin with a sign is left as it is. -/
lemma takeSign_of_unsigned {cs : List Char} (h : ∀ c ∈ cs.head?, c ≠ '+' ∧ c ≠ '-') :
    takeSign cs = (false, cs) := by
  cases cs with
  | nil => rfl
  | cons c cs =>
    obtain ⟨hplus, hminus⟩ := h c rfl
    simp [takeSign, hplus, hminus]

/-- **A sign is taken off** exactly where the grammar has one. -/
lemma signed_iff {P : List Char → Nat → Prop} (hP : Unsigned P) {cs : List Char} {n : Int} :
    Signed P cs n ↔ ∃ m : Nat, P (takeSign cs).2 m ∧
      n = if (takeSign cs).1 then -(m : Int) else m := by
  constructor
  · rintro (@⟨_, m, h⟩ | @⟨_, m, h⟩ | @⟨_, m, h⟩)
    · rw [takeSign_of_unsigned (hP _ _ h)]
      exact ⟨m, h, rfl⟩
    · exact ⟨m, h, rfl⟩
    · exact ⟨m, h, rfl⟩
  · rintro ⟨m, h, rfl⟩
    by_cases hsign : ∃ c ∈ cs.head?, c = '+' ∨ c = '-'
    · obtain ⟨c, hc, rfl | rfl⟩ := hsign
      · obtain ⟨rest, rfl⟩ := List.head?_eq_some_iff.1 hc
        exact .plus h
      · obtain ⟨rest, rfl⟩ := List.head?_eq_some_iff.1 hc
        exact .minus h
    · have hcs : takeSign cs = (false, cs) := takeSign_of_unsigned fun c hc => by
        simpa using fun h => hsign ⟨c, hc, h⟩
      rw [hcs] at h ⊢
      exact .unsigned h

/-- What is left after the sign is a part of the text. -/
lemma mem_of_mem_takeSign {cs : List Char} {c : Char} (h : c ∈ (takeSign cs).2) : c ∈ cs := by
  unfold takeSign at h
  split at h
  · exact List.mem_cons_of_mem _ h
  · exact List.mem_cons_of_mem _ h
  · exact h

/-! ## Marks -/

/-- An ASCII character has a value as a digit only if it is an ASCII letter or digit, and the one
with value zero is `0`. -/
lemma value_of_ascii {c : Char} (h : c.toNat < 128) :
    (¬(c.isDigit = true ∨ c.isAlpha = true) → (decimalDigit? c).or (letterDigit? c) = none) ∧
      (decimalDigit? c = some 0 ↔ c = '0') :=
  ascii_elim (P := fun c =>
    (¬(c.isDigit = true ∨ c.isAlpha = true) → (decimalDigit? c).or (letterDigit? c) = none) ∧
      (decimalDigit? c = some 0 ↔ c = '0')) (by decide +kernel) h

/-- The mark of base 16 in plain text is a zero and a letter. -/
lemma isMark_iff {z x : Char} (hz : z.toNat < 128) :
    isMark z x = true ↔ z = '0' ∧ x ∈ ['x', 'X'] := by
  simp [isMark, (value_of_ascii hz).2]

/-- The mark is looked for in the first two characters, if no underscore follows them. -/
lemma takeMark_cons_cons {z x : Char} {cs : List Char} (h : '_' ∉ cs) :
    takeMark 16 (z :: x :: cs) = if isMark z x then cs else z :: x :: cs :=
  takeMark.eq_2 _ _ _ fun _ hcs => h (hcs ▸ List.mem_cons_self)

/-- In base 10 no mark is looked for. -/
lemma takeMark_ten (cs : List Char) : takeMark 10 cs = cs :=
  takeMark.eq_3 _ _ (by simp) (by simp)

/-- What begins with the mark and digits begins with the mark. -/
lemma Marked.hasMark {cs : List Char} {n : Nat} (h : Marked cs n) : HasMark cs := by
  obtain ⟨hx, -⟩ := h
  exact ⟨_, hx, _, rfl⟩

/-- **A mark is taken off** exactly where the grammar has one. -/
lemma numeral_takeMark_iff {cs : List Char} (hcs : ∀ c ∈ cs, Plain c) {n : Nat} :
    Numeral .hexadecimal (takeMark 16 cs) n ↔ Hexadecimal cs n := by
  unfold Hexadecimal
  by_cases hmark : HasMark cs
  · obtain ⟨x, hx, rest, rfl⟩ := hmark
    have hrest : '_' ∉ rest := fun h => (hcs '_' (by simp [h])).2.2 rfl
    rw [takeMark_cons_cons hrest, if_pos ((isMark_iff (by decide)).2 ⟨rfl, hx⟩)]
    constructor
    · exact fun h => .inr ⟨hx, h⟩
    · rintro (h | ⟨-, h⟩)
      · -- the letter of the mark is no digit
        have hdigit := h.isSome_digit? x (by simp)
        rcases List.mem_pair.1 hx with rfl | rfl <;> cases hdigit
      · exact h
  · have hkeep : takeMark 16 cs = cs := by
      rcases cs with _ | ⟨z, _ | ⟨x, rest⟩⟩
      · rfl
      · rfl
      · have hrest : '_' ∉ rest := fun h => (hcs '_' (by simp [h])).2.2 rfl
        rw [takeMark_cons_cons hrest, if_neg]
        intro h
        obtain ⟨rfl, hx⟩ := (isMark_iff (hcs z List.mem_cons_self).1).1 h
        exact hmark ⟨x, hx, rest, rfl⟩
    rw [hkeep]
    exact (or_iff_left fun h => hmark h.hasMark).symm

/-- What is left after the mark is a part of the text. -/
lemma mem_of_mem_takeMark {base : Nat} {cs : List Char} {c : Char} (h : c ∈ takeMark base cs) :
    c ∈ cs := by
  revert h
  fun_cases takeMark base cs with
  | case1 z x rest hmark | case3 z x rest hbare hmark => exact fun h => by simp [h]
  | case2 | case4 | case5 => exact id

/-! ## Reading -/

/-- A plain character has the same value as a digit of an integer and of a literal. -/
lemma Plain.digit? {c : Char} (h : Plain c) (radix : Radix) :
    Integer.digit? radix.base c = radix.digit? c := by
  unfold Radix.digit?
  split_ifs with hplain
  · rfl
  · rw [Integer.digit?, (value_of_ascii h.1).1 hplain, Option.filter_none]

/-- A plain character is no white space. -/
lemma Plain.isBlank {c : Char} (h : Plain c) : Text.isBlank c = false :=
  Bool.eq_false_iff.2 (mt (Text.isBlank_iff_of_ascii h.1).1 h.2.1)

/-- A plain character is not taken for white space around an integer. -/
lemma Plain.isMargin {c : Char} (h : Plain c) : Integer.isMargin c = false := by
  rw [Integer.isMargin, h.isBlank, Bool.false_and]

/-- No underscore is misplaced where there is none. -/
lemma underscoresMisplaced_of_notMem {cs : List Char} (h : '_' ∉ cs) :
    underscoresMisplaced cs = false := by
  have hhead : cs.head? ≠ some '_' := fun hc => h (List.mem_of_head? hc)
  have hlast : cs.getLast? ≠ some '_' := fun hc => h (List.mem_of_getLast? hc)
  have hpair : ('_', '_') ∉ cs.zip cs.tail := fun hp => h (List.of_mem_zip hp).1
  simp [underscoresMisplaced, hhead, hlast, hpair]

/-- What is left of a text after its sign and its mark. -/
def magnitude (base : Nat) (cs : List Char) : List Char := takeMark base (takeSign cs).2

/-- Nothing is added to a text by taking its sign and its mark off. -/
lemma mem_of_mem_magnitude {base : Nat} {cs : List Char} {c : Char} (h : c ∈ magnitude base cs) :
    c ∈ cs :=
  mem_of_mem_takeSign (mem_of_mem_takeMark h)

/-- A plain text has no white space in front. -/
lemma dropWhile_isMargin {cs : List Char} (hcs : ∀ c ∈ cs, Plain c) :
    cs.dropWhile isMargin = cs := by
  cases cs with
  | nil => rfl
  | cons c cs =>
    exact List.dropWhile_cons_of_neg (by simp [(hcs c List.mem_cons_self).isMargin])

/-- A plain character stands in a run of digits exactly when it is a digit. -/
lemma Plain.inRun_iff {c : Char} (h : Plain c) (radix : Radix) :
    (c == '_' || (Integer.digit? radix.base c).isSome) = true ↔
      (radix.digit? c).isSome = true := by
  rw [h.digit?, beq_eq_false_iff_ne.2 h.2.2, Bool.false_or]

/-- A plain text that is digits after its sign and its mark is read as their value, with the sign,
unless they are decimal and too many. -/
lemma read_of_digits (radix : Radix) {cs : List Char} (hcs : ∀ c ∈ cs, Plain c)
    (hne : magnitude radix.base cs ≠ [])
    (hall : ∀ c ∈ magnitude radix.base cs, (radix.digit? c).isSome = true) :
    read radix.base (String.ofList cs) =
      if radix = .decimal ∧ (magnitude radix.base cs).length > digitLimit then
        .error (.tooLongToRead (magnitude radix.base cs).length)
      else
        let n := ofDigits radix.base ((magnitude radix.base cs).filterMap radix.digit?)
        .ok (if (takeSign cs).1 then -n else n) := by
  have hbase : (radix.base == 10) = decide (radix = .decimal) := by cases radix <;> rfl
  simp only [read, String.toList_ofList, dropWhile_isMargin hcs, hbase]
  rw [← magnitude]
  have hbody : ∀ c ∈ magnitude radix.base cs, Plain c := fun c hc => hcs c (mem_of_mem_magnitude hc)
  generalize magnitude radix.base cs = body at hne hall hbody ⊢
  have hrun : ∀ c ∈ body, (c == '_' || (Integer.digit? radix.base c).isSome) = true :=
    fun c hc => ((hbody c hc).inRun_iff radix).2 (hall c hc)
  have hvalues : body.filterMap (Integer.digit? radix.base) = body.filterMap radix.digit? :=
    List.filterMap_congr fun c hc => (hbody c hc).digit? radix
  have hlength : (body.filterMap radix.digit?).length = body.length :=
    (Lexeme.forall₂_isDigit_iff.2 ⟨by simpa using hall, rfl⟩).length_eq.symm
  have hsome : (body.filterMap radix.digit?).isEmpty = false := by
    rwa [Bool.eq_false_iff, ne_eq, List.isEmpty_iff_length_eq_zero, hlength,
      List.length_eq_zero_iff]
  have hnone : underscoresMisplaced body = false :=
    underscoresMisplaced_of_notMem fun h => (hbody '_' h).2.2 rfl
  rw [List.takeWhile_eq_self_iff.2 hrun, List.dropWhile_eq_nil_iff.2 hrun, hvalues, hlength, hsome,
    hnone]
  simp

/-- A plain text that is read is digits after its sign and its mark, and nothing else. -/
lemma digits_of_read (radix : Radix) {cs : List Char} (hcs : ∀ c ∈ cs, Plain c) {n : Int}
    (h : read radix.base (String.ofList cs) = .ok n) :
    magnitude radix.base cs ≠ [] ∧
      ∀ c ∈ magnitude radix.base cs, (radix.digit? c).isSome = true := by
  simp only [read, String.toList_ofList, dropWhile_isMargin hcs] at h
  rw [← magnitude] at h
  have hbody : ∀ c ∈ magnitude radix.base cs, Plain c := fun c hc => hcs c (mem_of_mem_magnitude hc)
  generalize magnitude radix.base cs = body at hbody h ⊢
  generalize (if (takeSign cs).1 then _ else _ : Int) = value at h
  split_ifs at h with hsome hlimit hrest
  -- what follows the run would have to be white space
  have hnil : body.dropWhile (fun c => c == '_' || (Integer.digit? radix.base c).isSome) = [] := by
    refine List.eq_nil_iff_forall_not_mem.2 fun c hc => ?_
    have hplain := hbody c ((List.dropWhile_suffix _).subset hc)
    have hmargin : isMargin c = true := List.all_eq_true.1 (by simpa using hrest) c hc
    exact Bool.false_ne_true (hplain.isMargin.symm.trans hmargin)
  constructor
  · rintro rfl
    exact hsome rfl
  · intro c hc
    exact ((hbody c hc).inRun_iff radix).1 (List.dropWhile_eq_nil_iff.1 hnil c hc)

/-- **Which plain texts are read**: the reader takes digits as far as they go, and in a plain text
nothing may follow them. -/
lemma read_eq_ok_iff (radix : Radix) {cs : List Char} (hcs : ∀ c ∈ cs, Plain c) {n : Int} :
    read radix.base (String.ofList cs) = .ok n ↔
      ∃ m : Nat, Numeral radix (magnitude radix.base cs) m ∧
        (radix = .decimal → (magnitude radix.base cs).length ≤ digitLimit) ∧
        n = if (takeSign cs).1 then -(m : Int) else m := by
  constructor
  · intro h
    obtain ⟨hne, hall⟩ := digits_of_read radix hcs h
    rw [read_of_digits radix hcs hne hall] at h
    by_cases hlimit : radix = .decimal ∧ digitLimit < (magnitude radix.base cs).length
    · rw [if_pos hlimit] at h
      cases h
    · rw [if_neg hlimit] at h
      cases h
      refine ⟨_, numeral_iff.2 ⟨hne, hall, rfl⟩, fun hr => ?_, rfl⟩
      exact Nat.not_lt.1 fun hlong => hlimit ⟨hr, hlong⟩
  · rintro ⟨m, hm, hlimit, rfl⟩
    obtain ⟨hne, hall, rfl⟩ := numeral_iff.1 hm
    rw [read_of_digits radix hcs hne hall, if_neg]
    rintro ⟨hr, hlong⟩
    exact Nat.not_lt.2 (hlimit hr) hlong

/-- **Integers in base 16** among plain texts: digits, with or without the mark, after a sign or
without one. -/
lemma read_hexadecimal_iff {cs : List Char} (hcs : ∀ c ∈ cs, Plain c) {n : Int} :
    read 16 (String.ofList cs) = .ok n ↔ Signed Hexadecimal cs n := by
  rw [signed_iff unsigned_hexadecimal]
  refine (read_eq_ok_iff .hexadecimal hcs).trans (exists_congr fun m => ?_)
  rw [← numeral_takeMark_iff fun c hc => hcs c (mem_of_mem_takeSign hc)]
  simp [magnitude, Radix.base]

/-- **Integers in base 10** among plain texts: digits, not too many, after a sign or without one. -/
lemma read_decimal_iff {cs : List Char} (hcs : ∀ c ∈ cs, Plain c) {n : Int} :
    read 10 (String.ofList cs) = .ok n ↔ Signed ShortDecimal cs n := by
  rw [signed_iff unsigned_shortDecimal]
  refine (read_eq_ok_iff .decimal hcs).trans (exists_congr fun m => ?_)
  simp [magnitude, Radix.base, takeMark_ten, ShortDecimal, and_assoc]

/-- **Too many digits** after a sign or without one are refused in base 10. -/
lemma read_of_longDecimal {cs : List Char} (hcs : ∀ c ∈ cs, Plain c) {n : Int}
    (h : Signed LongDecimal cs n) :
    read 10 (String.ofList cs) = .error (.tooLongToRead (takeSign cs).2.length) := by
  obtain ⟨m, ⟨hm, hlong⟩, -⟩ := (signed_iff unsigned_longDecimal).1 h
  have hbody : magnitude Radix.decimal.base cs = (takeSign cs).2 := takeMark_ten _
  obtain ⟨hne, hall, -⟩ := numeral_iff.1 hm
  rw [← hbody] at hne hall hlong ⊢
  exact (read_of_digits .decimal hcs hne hall).trans (if_pos ⟨rfl, hlong⟩)

end Integer

end Asm8080
