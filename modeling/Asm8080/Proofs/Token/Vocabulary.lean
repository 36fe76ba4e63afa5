import Mathlib.Data.List.Forall2
import Mathlib.Data.List.Nodup
import Mathlib.Data.Nat.Digits.Defs
import Asm8080.Proofs.Token.Literal

/-!
# What words and literals stand for

A word is a keyword, a mnemonic or a register if that has its spelling in upper case, and an
identifier otherwise; no spelling is reserved twice. The last character of a number literal selects
its base if it is a suffix, and the characters before the suffix are digits of the base. Their
positional value, modulo 65536, is the value of the literal.

## Main definitions

* `Asm8080.reservedWords` — the spellings of keywords, mnemonics and registers.
* `Asm8080.Token.Kind.Names` — what a word stands for.
* `Asm8080.Radix.IsDigit`, `Asm8080.Radix.suffixes` — the digits of a base, and the letters that
  select it.
* `Asm8080.Lexeme.Written` — a literal is written in a base with digits of certain values.
* `Asm8080.Lexeme.Denotes` — the value and the base of a literal.

## Main results

* `Asm8080.Token.Kind.ofName_eq_iff` — a word is classified as what it stands for.
* `Asm8080.Lexeme.number_eq_ok_iff` — a literal is read as the value that it denotes.
* `Asm8080.Lexeme.number_eq_tooManyDigits_iff` — a literal is read as too long exactly when it is
  decimal with more digits than can be converted.
-/

set_option autoImplicit false

namespace Asm8080

/-! ## Words -/

/-- The spellings of keywords, mnemonics and registers, in upper case. -/
def reservedWords : List String :=
  Keyword.all.map Keyword.name ++ (Mnemonic.all.map Mnemonic.name ++ Register.all.map Register.name)

/-- No spelling is reserved twice. -/
lemma nodup_reservedWords : reservedWords.Nodup := by
  decide +kernel

/-- The item with a name is found in a list of items with different names. -/
lemma find?_name_eq_some_iff {α : Type} {items : List α} {name : α → String}
    (hmem : ∀ a, a ∈ items) (hnodup : (items.map name).Nodup) {s : String} {a : α} :
    items.find? (fun a => name a == s) = some a ↔ s = name a := by
  constructor
  · intro h
    have hname : name a = s := by simpa using List.find?_some h
    exact hname.symm
  · rintro rfl
    cases h : items.find? (fun b => name b == name a) with
    | none => simpa using List.find?_eq_none.1 h a (hmem a)
    | some b =>
      have hname : name b = name a := by simpa using List.find?_some h
      rw [List.inj_on_of_nodup_map hnodup (hmem b) (hmem a) hname]

/-- Every keyword is in the list of all. -/
lemma Keyword.mem_all (k : Keyword) : k ∈ all := by
  cases k <;> decide

/-- Every mnemonic is in the list of all. -/
lemma Mnemonic.mem_all (m : Mnemonic) : m ∈ all := by
  cases m <;> decide

/-- Every register is in the list of all. -/
lemma Register.mem_all (r : Register) : r ∈ all := by
  cases r <;> decide

/-- The keyword with a spelling. -/
lemma Keyword.ofName?_eq_some_iff {s : String} {k : Keyword} : ofName? s = some k ↔ s = k.name :=
  find?_name_eq_some_iff mem_all (List.nodup_append.1 nodup_reservedWords).1

/-- The mnemonic with a spelling. -/
lemma Mnemonic.ofName?_eq_some_iff {s : String} {m : Mnemonic} : ofName? s = some m ↔ s = m.name :=
  find?_name_eq_some_iff mem_all
    (List.nodup_append.1 (List.nodup_append.1 nodup_reservedWords).2.1).1

/-- The register with a spelling. -/
lemma Register.ofName?_eq_some_iff {s : String} {r : Register} : ofName? s = some r ↔ s = r.name :=
  find?_name_eq_some_iff mem_all
    (List.nodup_append.1 (List.nodup_append.1 nodup_reservedWords).2.1).2.1

namespace Token.Kind

/-- **What a word stands for**, whatever the case of its letters. -/
inductive Names (word : String) : Kind → Prop
  | keyword {k : Keyword} (h : Text.upper word = k.name) : Names word (.keyword k)
  | mnemonic {m : Mnemonic} (h : Text.upper word = m.name) : Names word (.mnemonic m)
  | register {r : Register} (h : Text.upper word = r.name) : Names word (.register r)
  | identifier (h : Text.upper word ∉ reservedWords) : Names word (.identifier word)

/-- A word is reserved exactly when its spelling is that of a keyword, a mnemonic or a register. -/
lemma mem_reservedWords_iff {s : String} :
    s ∈ reservedWords ↔ (∃ k : Keyword, s = k.name) ∨ (∃ m : Mnemonic, s = m.name) ∨
      ∃ r : Register, s = r.name := by
  simp only [reservedWords, List.mem_append, List.mem_map, Keyword.mem_all, Mnemonic.mem_all,
    Register.mem_all, true_and, eq_comm]

/-- No keyword is a mnemonic or a register, and no mnemonic is a register. -/
lemma reservedWords_disjoint (k : Keyword) (m : Mnemonic) (r : Register) :
    m.name ≠ k.name ∧ r.name ≠ k.name ∧ r.name ≠ m.name := by
  obtain ⟨-, hrest, hkeyword⟩ := List.nodup_append.1 nodup_reservedWords
  obtain ⟨-, -, hmnemonic⟩ := List.nodup_append.1 hrest
  have hk := List.mem_map_of_mem (f := Keyword.name) k.mem_all
  have hm := List.mem_map_of_mem (f := Mnemonic.name) m.mem_all
  have hr := List.mem_map_of_mem (f := Register.name) r.mem_all
  exact ⟨(hkeyword _ hk _ (List.mem_append_left _ hm)).symm,
    (hkeyword _ hk _ (List.mem_append_right _ hr)).symm, (hmnemonic _ hm _ hr).symm⟩

/-- **A word is classified as what it stands for.** -/
lemma ofName_eq_iff {word : String} {kind : Kind} : ofName word = kind ↔ Names word kind := by
  have hnone : ∀ {α : Type} {o : Option α}, (∀ a, o ≠ some a) → o = none :=
    fun h => Option.eq_none_iff_forall_ne_some.2 h
  constructor
  · rintro rfl
    simp only [ofName]
    rcases hk : Keyword.ofName? (Text.upper word) with _ | k
    · rcases hm : Mnemonic.ofName? (Text.upper word) with _ | m
      · rcases hr : Register.ofName? (Text.upper word) with _ | r
        · refine .identifier fun hmem => ?_
          rcases mem_reservedWords_iff.1 hmem with ⟨k, h⟩ | ⟨m, h⟩ | ⟨r, h⟩
          · rw [Keyword.ofName?_eq_some_iff.2 h] at hk
            cases hk
          · rw [Mnemonic.ofName?_eq_some_iff.2 h] at hm
            cases hm
          · rw [Register.ofName?_eq_some_iff.2 h] at hr
            cases hr
        · exact .register (Register.ofName?_eq_some_iff.1 hr)
      · exact .mnemonic (Mnemonic.ofName?_eq_some_iff.1 hm)
    · exact .keyword (Keyword.ofName?_eq_some_iff.1 hk)
  · intro h
    cases h with
    | keyword h => simp only [ofName, Keyword.ofName?_eq_some_iff.2 h]
    | @mnemonic m h =>
      have hk : Keyword.ofName? (Text.upper word) = none := hnone fun k hk =>
        (reservedWords_disjoint k m .a).1 (h ▸ Keyword.ofName?_eq_some_iff.1 hk)
      simp only [ofName, hk, Mnemonic.ofName?_eq_some_iff.2 h]
    | @register r h =>
      have hk : Keyword.ofName? (Text.upper word) = none := hnone fun k hk =>
        (reservedWords_disjoint k .nop r).2.1 (h ▸ Keyword.ofName?_eq_some_iff.1 hk)
      have hm : Mnemonic.ofName? (Text.upper word) = none := hnone fun m hm =>
        (reservedWords_disjoint .org m r).2.2 (h ▸ Mnemonic.ofName?_eq_some_iff.1 hm)
      simp only [ofName, hk, hm, Register.ofName?_eq_some_iff.2 h]
    | identifier h =>
      rw [mem_reservedWords_iff, not_or, not_or, not_exists, not_exists, not_exists] at h
      have hk := hnone fun k hk => h.1 k (Keyword.ofName?_eq_some_iff.1 hk)
      have hm := hnone fun m hm => h.2.1 m (Mnemonic.ofName?_eq_some_iff.1 hm)
      have hr := hnone fun r hr => h.2.2 r (Register.ofName?_eq_some_iff.1 hr)
      simp only [ofName, hk, hm, hr]

end Token.Kind

/-! ## Digits -/

/-- A character is the digit of a base with a value below the base, in either case. -/
def Radix.IsDigit (radix : Radix) (c : Char) (value : Nat) : Prop :=
  value < radix.base ∧ (c = Nat.digitChar value ∨ c = (Nat.digitChar value).toUpper)

instance (radix : Radix) (c : Char) (value : Nat) : Decidable (radix.IsDigit c value) :=
  inferInstanceAs (Decidable (_ ∧ _))

/-- Name characters are ASCII characters. -/
lemma toNat_lt_of_isNameChar {c : Char} (h : isNameChar c = true) : c.toNat < 128 := by
  have hbelow : ∀ b : Char, c.val ≤ b.val → b.toNat < 128 → c.toNat < 128 :=
    fun b hc hb => Nat.lt_of_le_of_lt (UInt32.le_iff_toNat_le.1 hc) hb
  simp only [isNameChar, Bool.or_eq_true, beq_iff_eq] at h
  rcases h with (halpha | hdigit) | rfl
  · rcases Bool.or_eq_true_iff.1 halpha with hupper | hlower
    · exact hbelow 'Z' (of_decide_eq_true hupper).2 (by decide)
    · exact hbelow 'z' (of_decide_eq_true (Bool.and_eq_true_iff.1 hlower).2) (by decide)
  · exact hbelow '9' (of_decide_eq_true (Bool.and_eq_true_iff.1 hdigit).2) (by decide)
  · decide

/-- What is true of each ASCII character in turn is true of all of them. -/
lemma ascii_elim {P : Char → Prop} (h : ∀ n < 128, P (Char.ofNat n)) {c : Char}
    (hc : c.toNat < 128) : P c := by
  rw [← Char.ofNat_toNat c]
  exact h c.toNat hc

/-- What is true of the ASCII characters is true of every name character. -/
lemma isNameChar_elim {P : Char → Prop} (h : ∀ n < 128, P (Char.ofNat n)) {c : Char}
    (hc : isNameChar c = true) : P c :=
  ascii_elim h (toNat_lt_of_isNameChar hc)

/-- **The digits of a base** are the characters that have a value in it. -/
lemma Radix.digit?_eq_some_iff {radix : Radix} {c : Char} {value : Nat} :
    radix.digit? c = some value ↔ radix.IsDigit c value := by
  constructor
  · intro h
    have hname : isNameChar c = true := by
      unfold digit? at h
      split at h
      · simp only [isNameChar, Bool.or_eq_true]
        tauto
      · cases h
    have hall : ∀ n < 128, ∀ value ∈ radix.digit? (Char.ofNat n),
        radix.IsDigit (Char.ofNat n) value := by
      cases radix <;> decide +kernel
    exact isNameChar_elim (P := fun c => ∀ value ∈ radix.digit? c, radix.IsDigit c value) hall
      hname value h
  · rintro ⟨hlt, hc⟩
    have hall : ∀ value < radix.base, radix.digit? (Nat.digitChar value) = some value ∧
        radix.digit? (Nat.digitChar value).toUpper = some value := by
      cases radix <;> decide +kernel
    rcases hc with rfl | rfl
    · exact (hall value hlt).1
    · exact (hall value hlt).2

/-- The number that digits denote is their positional value. -/
lemma Integer.ofDigits_eq (base : Nat) (values : List Nat) :
    Integer.ofDigits base values = Nat.ofDigits base values.reverse := by
  rw [Integer.ofDigits, Nat.ofDigits_eq_foldr, List.foldr_reverse]
  congr 1
  funext n d
  rw [Nat.mul_comm, Nat.add_comm, Nat.cast_id]

/-! ## Suffixes -/

/-- The letters that select a base at the end of a literal. -/
def Radix.suffixes : Radix → List Char
  | binary => ['N', 'n']
  | octal => ['O', 'o', 'Q', 'q']
  | decimal => ['D', 'd']
  | hexadecimal => ['H', 'h']

/-- **The suffixes of a base** are the letters that select it. -/
lemma Radix.ofSuffix?_eq_some_iff {c : Char} {radix : Radix} :
    ofSuffix? c = some radix ↔ c ∈ radix.suffixes := by
  constructor
  · intro h
    by_cases hascii : c.toNat < 128
    · exact ascii_elim (P := fun c => ofSuffix? c = some radix → c ∈ radix.suffixes)
        (by cases radix <;> decide +kernel) hascii h
    · have hupper : c.toUpper = c :=
        dif_neg fun hlower => hascii (Nat.lt_of_le_of_lt hlower.2 (by decide))
      rw [ofSuffix?, hupper] at h
      split at h <;> cases h <;> decide
  · intro h
    have hall : (radix.suffixes.all fun c => decide (ofSuffix? c = some radix)) = true := by
      cases radix <;> rfl
    exact of_decide_eq_true (List.all_eq_true.1 hall c h)

/-- A letter that selects no base is none of the suffixes. -/
lemma Radix.ofSuffix?_eq_none_iff {c : Char} :
    ofSuffix? c = none ↔ ∀ radix : Radix, c ∉ radix.suffixes := by
  simp only [← ofSuffix?_eq_some_iff, Option.eq_none_iff_forall_ne_some, ne_eq]

namespace Lexeme

/-! ## Number literals -/

/-- The base and the digits of a number literal: its last character selects the base if it is a
suffix, and is then no digit; without a suffix the literal is decimal. -/
def HasParts (literal : List Char) (radix : Radix) (digits : List Char) : Prop :=
  (∃ c ∈ radix.suffixes, literal = digits ++ [c]) ∨
    ((∀ c ∈ literal.getLast?, ∀ r : Radix, c ∉ r.suffixes) ∧ radix = .decimal ∧ digits = literal)

/-- A number literal is written in a base with digits of certain values. -/
def Written (literal : List Char) (radix : Radix) (values : List Nat) : Prop :=
  ∃ digits, HasParts literal radix digits ∧ List.Forall₂ radix.IsDigit digits values

/-- **The value of a number literal** is the positional value of its digits modulo 65536. A decimal
literal has at most as many digits as can be converted. -/
def Denotes (literal : List Char) (value : Nat) (radix : Radix) : Prop :=
  ∃ values, Written literal radix values ∧
    (radix = .decimal → values.length ≤ Integer.digitLimit) ∧
    value = Nat.ofDigits radix.base values.reverse % 0x10000

/-- A literal is split into its base and its digits. -/
lemma splitRadix_eq_iff {literal digits : List Char} {radix : Radix} :
    splitRadix literal = (radix, digits) ↔ HasParts literal radix digits := by
  rcases List.eq_nil_or_concat literal with rfl | ⟨front, c, rfl⟩
  · constructor
    · rintro ⟨⟩
      exact .inr ⟨by simp, rfl, rfl⟩
    · rintro (⟨c, -, h⟩ | ⟨-, rfl, rfl⟩)
      · simp at h
      · rfl
  · rw [List.concat_eq_append]
    cases hc : Radix.ofSuffix? c with
    | none =>
      have hsplit : splitRadix (front ++ [c]) = (.decimal, front ++ [c]) := by
        simp [splitRadix, hc]
      rw [hsplit]
      constructor
      · rintro ⟨⟩
        exact .inr ⟨by simpa using Radix.ofSuffix?_eq_none_iff.1 hc, rfl, rfl⟩
      · rintro (⟨c', hc', h⟩ | ⟨-, rfl, rfl⟩)
        · obtain ⟨-, ⟨⟩⟩ := List.append_inj' h rfl
          exact absurd hc' (Radix.ofSuffix?_eq_none_iff.1 hc radix)
        · rfl
    | some r =>
      have hsplit : splitRadix (front ++ [c]) = (r, front) := by
        simp [splitRadix, hc]
      rw [hsplit]
      constructor
      · rintro ⟨⟩
        exact .inl ⟨c, Radix.ofSuffix?_eq_some_iff.1 hc, rfl⟩
      · rintro (⟨c', hc', h⟩ | ⟨h, -⟩)
        · obtain ⟨rfl, ⟨⟩⟩ := List.append_inj' h rfl
          cases hc.symm.trans (Radix.ofSuffix?_eq_some_iff.2 hc')
          rfl
        · exact absurd (Radix.ofSuffix?_eq_some_iff.1 hc) (h c (by simp) r)

/-- Characters are digits of a base exactly when each has a value in it. -/
lemma forall₂_isDigit_iff {radix : Radix} {digits : List Char} {values : List Nat} :
    List.Forall₂ radix.IsDigit digits values ↔
      (∀ c ∈ digits, (radix.digit? c).isNone = false) ∧
        digits.filterMap radix.digit? = values := by
  induction digits generalizing values with
  | nil =>
    rw [List.forall₂_nil_left_iff]
    exact ⟨fun h => ⟨by simp, h.symm⟩, fun h => h.2.symm⟩
  | cons c digits ih =>
    rw [List.forall₂_cons_left_iff, List.forall_mem_cons]
    constructor
    · rintro ⟨d, values, hd, hvalues, rfl⟩
      obtain ⟨hall, rfl⟩ := ih.1 hvalues
      have hc := Radix.digit?_eq_some_iff.2 hd
      exact ⟨⟨by simp [hc], hall⟩, by rw [List.filterMap_cons, hc]⟩
    · rintro ⟨⟨hc, hall⟩, rfl⟩
      obtain ⟨d, hd⟩ := Option.isSome_iff_exists.1 (Option.isNone_eq_false_iff.1 hc)
      exact ⟨d, _, Radix.digit?_eq_some_iff.1 hd, ih.2 ⟨hall, rfl⟩, by rw [List.filterMap_cons, hd]⟩

/-- A literal that is written in a base is read as its value, unless it is decimal and too long. -/
lemma number_of_written {literal : List Char} {radix : Radix} {values : List Nat}
    (h : Written literal radix values) :
    number literal =
      if radix = .decimal ∧ values.length > Integer.digitLimit then
        .error (.tooManyDigits values.length literal.length)
      else .ok (Nat.ofDigits radix.base values.reverse % 0x10000, radix) := by
  obtain ⟨digits, hparts, hdigits⟩ := h
  obtain ⟨hall, rfl⟩ := forall₂_isDigit_iff.1 hdigits
  have hnone : digits.findIdx? (fun c => (radix.digit? c).isNone) = none :=
    List.findIdx?_eq_none_iff.2 hall
  rw [number, splitRadix_eq_iff.2 hparts, ← hdigits.length_eq, ← Integer.ofDigits_eq]
  simp only [hnone]

/-- A literal is written in its base, or one of its characters is at fault. -/
lemma exists_written_or_fault (literal : List Char) :
    (∃ radix values, Written literal radix values) ∨
      ∃ cause offset consumed, number literal = .error (.fault cause offset consumed) := by
  obtain ⟨⟨radix, digits⟩, hsplit⟩ : ∃ parts, splitRadix literal = parts := ⟨_, rfl⟩
  cases hfind : digits.findIdx? (fun c => (radix.digit? c).isNone) with
  | none =>
    refine .inl ⟨radix, _, digits, splitRadix_eq_iff.1 hsplit, forall₂_isDigit_iff.2 ⟨?_, rfl⟩⟩
    exact List.findIdx?_eq_none_iff.1 hfind
  | some offset =>
    right
    rw [number, hsplit]
    simp only [hfind]
    exact ⟨_, _, _, rfl⟩

/-- **A number literal is read as the value that it denotes.** -/
lemma number_eq_ok_iff {literal : List Char} {value : Nat} {radix : Radix} :
    number literal = .ok (value, radix) ↔ Denotes literal value radix := by
  constructor
  · intro h
    rcases exists_written_or_fault literal with ⟨r, values, hw⟩ | ⟨_, _, _, hfault⟩
    · rw [number_of_written hw] at h
      split_ifs at h with hlimit
      cases h
      refine ⟨values, hw, fun hr => ?_, rfl⟩
      by_contra hlong
      exact hlimit ⟨hr, by omega⟩
    · rw [hfault] at h
      cases h
  · rintro ⟨values, hw, hlimit, rfl⟩
    rw [number_of_written hw, if_neg]
    rintro ⟨hr, hlong⟩
    have := hlimit hr
    omega

/-- **A number literal is too long** exactly when it is decimal and has more digits than can be
converted. -/
lemma number_eq_tooManyDigits_iff {literal : List Char} {count consumed : Nat} :
    number literal = .error (.tooManyDigits count consumed) ↔
      consumed = literal.length ∧ ∃ values, Written literal .decimal values ∧
        count = values.length ∧ Integer.digitLimit < values.length := by
  constructor
  · intro h
    rcases exists_written_or_fault literal with ⟨r, values, hw⟩ | ⟨_, _, _, hfault⟩
    · rw [number_of_written hw] at h
      split_ifs at h with hlong
      obtain ⟨rfl, hlong⟩ := hlong
      cases h
      exact ⟨rfl, values, hw, rfl, hlong⟩
    · rw [hfault] at h
      cases h
  · rintro ⟨rfl, values, hw, rfl, hlong⟩
    rw [number_of_written hw, if_pos ⟨rfl, hlong⟩]

end Lexeme

end Asm8080
