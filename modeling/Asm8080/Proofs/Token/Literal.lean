import Mathlib.Tactic.Common
import Asm8080.Token.Lexeme

/-!
# Numbers in assembler notation

A number that is written in hexadecimal, in any width, is read back as the same number modulo 65536:
the digits denote it, the zeros in front of them change nothing, and the first character is a
decimal digit, so that the literal is no name. A number that is written in decimal, without a
suffix, is read back too, unless it has too many digits.

## Main definitions

* `Asm8080.Hex.char` — the character of a hexadecimal digit.
* `Asm8080.Hex.valueOf` — the number that hexadecimal digits denote.

## Main results

* `Asm8080.Radix.ofDigits_toDigits` — the digits of a number denote it, in every base.
* `Asm8080.Hex.exists_literal` — the form of a number in assembler notation.
* `Asm8080.Lexeme.number_of_hex` — how such a form is read.
* `Asm8080.Lexeme.number_toDigits` — how a number without a suffix is read.
-/

set_option autoImplicit false

namespace Asm8080.Hex

/-! ## Digits -/

/-- The character of a hexadecimal digit. -/
def char (d : Nat) : Char := (Nat.digitChar d).toUpper

/-- A character is a hexadecimal digit. -/
def IsDigit (c : Char) : Prop := ∃ d < 16, c = char d

/-- What is true of sixteen characters is true of every hexadecimal digit. -/
lemma IsDigit.elim {P : Char → Prop} (h : ∀ d < 16, P (char d)) {c : Char} (hc : IsDigit c) :
    P c := by
  obtain ⟨d, hd, rfl⟩ := hc
  exact h d hd

/-- Hexadecimal digits continue names and numbers. -/
lemma IsDigit.isNameChar {c : Char} (h : IsDigit c) : isNameChar c = true :=
  h.elim (P := fun c => Asm8080.isNameChar c = true) (by decide)

/-- A hexadecimal digit that is no letter is a decimal digit. -/
lemma IsDigit.isDigit {c : Char} (h : IsDigit c) (ha : c.isAlpha = false) : c.isDigit = true :=
  h.elim (P := fun c => c.isAlpha = false → c.isDigit = true) (by decide) ha

end Asm8080.Hex

/-! ## Numbers in a base -/

namespace Asm8080.Radix

/-- Every base has a digit other than zero. -/
lemma one_lt_base (radix : Radix) : 1 < radix.base := by
  cases radix <;> decide

/-- The digits of a number are one digit, or those of a smaller number and one more. -/
lemma toDigits_induction (radix : Radix) {P : Nat → List Char → Prop}
    (hone : ∀ d < radix.base, P d [Nat.digitChar d])
    (hmore : ∀ n cs, ∀ d < radix.base, P n cs →
      P (n * radix.base + d) (cs ++ [Nat.digitChar d])) (n : Nat) :
    P n (Nat.toDigits radix.base n) := by
  have hbase := radix.one_lt_base
  induction n using Nat.strongRecOn with
  | ind n ih =>
    by_cases hn : n < radix.base
    · rw [Nat.toDigits_of_lt_base hn]
      exact hone n hn
    · have hsmaller : n / radix.base < n := Nat.div_lt_self (by omega) hbase
      have hlast := hmore _ _ _ (Nat.mod_lt n (by omega)) (ih _ hsmaller)
      rwa [Nat.div_add_mod', ← Nat.toDigits_of_base_le hbase (Nat.le_of_not_lt hn)] at hlast

/-- The digits of a number are digits of the base. -/
lemma exists_of_mem_toDigits (radix : Radix) (n : Nat) :
    ∀ c ∈ Nat.toDigits radix.base n, ∃ d < radix.base, c = Nat.digitChar d := by
  refine radix.toDigits_induction (P := fun _ cs => ∀ c ∈ cs, ∃ d < radix.base, c = d.digitChar)
    (fun d hd => List.forall_mem_singleton.2 ⟨d, hd, rfl⟩) (fun n cs d hd ih => ?_) n
  exact List.forall_mem_append.2 ⟨ih, List.forall_mem_singleton.2 ⟨d, hd, rfl⟩⟩

/-- **The digits of a number denote it**, in every form of the digits that has their values. -/
lemma ofDigits_toDigits (radix : Radix) {f : Char → Char}
    (hf : ∀ d < radix.base, radix.digit? (f (Nat.digitChar d)) = some d) (n : Nat) :
    Integer.ofDigits radix.base (((Nat.toDigits radix.base n).map f).filterMap radix.digit?) =
      n := by
  refine radix.toDigits_induction
    (P := fun n cs => Integer.ofDigits radix.base ((cs.map f).filterMap radix.digit?) = n)
    (fun d hd => ?_) (fun n cs d hd ih => ?_) n
  · simp [Integer.ofDigits, hf d hd]
  · rw [List.map_append, List.filterMap_append, Integer.ofDigits, List.foldl_append,
      ← Integer.ofDigits, ih]
    simp [hf d hd]

end Asm8080.Radix

namespace Asm8080.Hex

/-- The value of a hexadecimal digit. -/
lemma digit?_char : ∀ d < 16, Radix.hexadecimal.digit? (char d) = some d := by decide

/-- Every hexadecimal digit has a value. -/
lemma IsDigit.isSome_digit? {c : Char} (h : IsDigit c) :
    (Radix.hexadecimal.digit? c).isSome = true := by
  obtain ⟨d, hd, rfl⟩ := h
  rw [digit?_char d hd, Option.isSome_some]

/-! ## Values -/

/-- The number that hexadecimal digits denote. -/
def valueOf (cs : List Char) : Nat :=
  Integer.ofDigits Radix.hexadecimal.base (cs.filterMap Radix.hexadecimal.digit?)

/-- Zeros in front of digits change nothing. -/
lemma valueOf_replicate_append (k : Nat) (cs : List Char) :
    valueOf (List.replicate k '0' ++ cs) = valueOf cs := by
  induction k with
  | zero => rfl
  | succ k ih =>
    have hzero : Radix.hexadecimal.digit? '0' = some 0 := by decide
    rw [← ih, List.replicate_succ, List.cons_append, valueOf, valueOf, List.filterMap_cons, hzero]
    simp [Integer.ofDigits]

/-- The digits of a number are hexadecimal digits. -/
lemma isDigit_of_mem_digits {n : Nat} {c : Char} (h : c ∈ digits n) : IsDigit c := by
  obtain ⟨c, hc, rfl⟩ := List.mem_map.1 h
  obtain ⟨d, hd, rfl⟩ := Radix.exists_of_mem_toDigits .hexadecimal n c hc
  exact ⟨d, hd, rfl⟩

/-- **The digits of a number denote it.** -/
lemma valueOf_digits (n : Nat) : valueOf (digits n) = n :=
  Radix.ofDigits_toDigits .hexadecimal digit?_char n

/-! ## Literals -/

/-- The characters of a number in some width are zeros and the digits of the number. -/
lemma paddedChars_natCast (width n : Nat) :
    paddedChars width n = List.replicate (width - (digits n).length) '0' ++ digits n := by
  have hn : ¬(n : Int) < 0 := by omega
  simp [paddedChars, hn]

/-- Every number has a digit. -/
lemma digits_ne_nil (n : Nat) : digits n ≠ [] := by
  simp [digits]

/-- **A number in assembler notation** is a decimal digit, further hexadecimal digits and `H`. Its
digits denote the number. -/
lemma exists_literal (width n : Nat) :
    ∃ c cs, (literal width n).toList = c :: (cs ++ ['H']) ∧ c.isDigit = true ∧
      (∀ x ∈ c :: cs, IsDigit x) ∧ valueOf (c :: cs) = n := by
  have hzero : IsDigit '0' := ⟨0, by decide, by decide⟩
  have hdigits : ∀ x ∈ paddedChars width n, IsDigit x := by
    intro x hx
    rw [paddedChars_natCast, List.mem_append] at hx
    rcases hx with hx | hx
    · exact (List.eq_of_mem_replicate hx) ▸ hzero
    · exact isDigit_of_mem_digits hx
  have hvalue : valueOf (paddedChars width n) = n := by
    rw [paddedChars_natCast, valueOf_replicate_append, valueOf_digits]
  cases hcs : paddedChars width n with
  | nil =>
    rw [paddedChars_natCast, List.append_eq_nil_iff] at hcs
    exact absurd hcs.2 (digits_ne_nil n)
  | cons c cs =>
    rw [hcs] at hdigits hvalue
    unfold literal
    simp only [hcs, List.cons_append, List.headD_cons]
    cases ha : c.isAlpha with
    | false =>
      refine ⟨c, cs, by simp, ?_, hdigits, hvalue⟩
      exact (hdigits c (by simp)).isDigit ha
    | true =>
      refine ⟨'0', c :: cs, by simp, by decide, ?_, ?_⟩
      · exact List.forall_mem_cons.2 ⟨hzero, hdigits⟩
      · rw [← hvalue]
        exact valueOf_replicate_append 1 (c :: cs)

end Asm8080.Hex

namespace Asm8080.Lexeme

/-- Hexadecimal digits and `H` are read as the number that the digits denote. -/
lemma number_of_hex {cs : List Char} (h : ∀ c ∈ cs, Hex.IsDigit c) :
    number (cs ++ ['H']) = .ok (Hex.valueOf cs % 0x10000, .hexadecimal) := by
  have hsplit : splitRadix (cs ++ ['H']) = (.hexadecimal, cs) := by
    have hsuffix : Radix.ofSuffix? 'H' = some .hexadecimal := by decide
    simp [splitRadix, hsuffix]
  have hnone : cs.findIdx? (fun c => (Radix.hexadecimal.digit? c).isNone) = none := by
    rw [List.findIdx?_eq_none_iff]
    intro c hc
    rw [Option.isNone_eq_false_iff]
    exact (h c hc).isSome_digit?
  simp [number, hsplit, hnone, Hex.valueOf]

/-- A digit is no suffix. -/
lemma ofSuffix?_digitChar : ∀ d < 10, Radix.ofSuffix? (Nat.digitChar d) = none := by decide

/-- The value of a decimal digit. -/
lemma digit?_digitChar : ∀ d < 10, Radix.decimal.digit? (Nat.digitChar d) = some d := by decide

/-- **A number without a suffix is decimal**, and is read as itself modulo 65536 unless it has too
many digits. -/
lemma number_toDigits {n : Nat} (h : (Nat.toDigits 10 n).length ≤ Integer.digitLimit) :
    number (Nat.toDigits 10 n) = .ok (n % 0x10000, .decimal) := by
  have hdigit := Radix.exists_of_mem_toDigits .decimal n
  have hvalue : Integer.ofDigits Radix.decimal.base
      (((Nat.toDigits 10 n).map id).filterMap Radix.decimal.digit?) = n :=
    Radix.ofDigits_toDigits .decimal (f := id) digit?_digitChar n
  rw [List.map_id] at hvalue
  have hsplit : splitRadix (Nat.toDigits 10 n) = (.decimal, Nat.toDigits 10 n) := by
    cases hlast : (Nat.toDigits 10 n).getLast? with
    | none => simp [splitRadix, hlast]
    | some c =>
      obtain ⟨d, hd, rfl⟩ := hdigit c (List.mem_of_getLast? hlast)
      simp [splitRadix, hlast, ofSuffix?_digitChar d hd]
  have hnone : (Nat.toDigits 10 n).findIdx? (fun c => (Radix.decimal.digit? c).isNone) = none := by
    rw [List.findIdx?_eq_none_iff]
    intro c hc
    obtain ⟨d, hd, rfl⟩ := hdigit c hc
    rw [digit?_digitChar d hd, Option.isNone_some]
  have hlimit : ¬(Nat.toDigits 10 n).length > Integer.digitLimit := Nat.not_lt.2 h
  simp only [number, hsplit, hnone, hlimit, and_false, if_false]
  rw [hvalue]

end Asm8080.Lexeme
