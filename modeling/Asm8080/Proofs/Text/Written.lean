import Mathlib.Algebra.Group.Nat.Defs
import Mathlib.Data.List.Basic
import Asm8080.Proofs.Number.Integer
import Asm8080.Proofs.Text.Lines
import Asm8080.Text.Blank
import Asm8080.Text.Columns

/-!
# Reading back what was written

Lines that are joined to a text are found again when it is split, at line feeds or at all line
breaks, if no line has a break of its own. Words that stand in columns are found again between the
blanks. A number that is written in hexadecimal is read back as the number, whatever the width.

## Main definitions

* `Asm8080.OneLine` — a text holds no line feed.

## Main results

* `Asm8080.Text.feedLines_joinLines` — splitting joined lines at line feeds.
* `Asm8080.Text.splitLines_joinLines` — splitting joined lines at all line breaks.
* `Asm8080.Text.stripChars_append` — a text with white space around it.
* `Asm8080.Text.words_append` — the words of a text that begins with a word.
* `Asm8080.Hex.valueOf_paddedChars` — the value of a number in hexadecimal.
* `Asm8080.Integer.read_hex` — how hexadecimal digits are read as an integer.
-/

set_option autoImplicit false

namespace Asm8080

/-! ## Texts without a line feed -/

/-- A text holds no line feed. -/
def OneLine (s : String) : Prop := '\n' ∉ s.toList

/-- Whether a text holds a line feed is decided by going through it. -/
instance (s : String) : Decidable (OneLine s) := inferInstanceAs (Decidable (_ ∉ _))

namespace OneLine

/-- Two texts without a line feed make up one. -/
lemma append {s t : String} (hs : OneLine s) (ht : OneLine t) : OneLine (s ++ t) := by
  simp only [OneLine, String.toList_append, List.mem_append, not_or]
  exact ⟨hs, ht⟩

/-- Characters other than a line feed make up a text without one. -/
lemma ofList {cs : List Char} (h : ∀ c ∈ cs, c ≠ '\n') : OneLine (String.ofList cs) := by
  rw [OneLine, String.toList_ofList]
  exact fun hmem => h _ hmem rfl

/-- Texts without a line feed make up one, with a text without a line feed between them. -/
lemma intercalate {sep : String} {ss : List String} (hsep : OneLine sep)
    (hss : ∀ s ∈ ss, OneLine s) : OneLine (String.intercalate sep ss) := by
  rw [OneLine, String.toList_intercalate]
  induction ss with
  | nil => simp [List.intercalate]
  | cons s ss ih =>
    obtain ⟨hs, hss⟩ := List.forall_mem_cons.1 hss
    cases ss with
    | nil => simpa [List.intercalate, OneLine] using hs
    | cons s' ss =>
      rw [List.map_cons, List.map_cons, List.intercalate_cons_cons, List.mem_append,
        List.mem_append, not_or, not_or]
      exact ⟨⟨hs, hsep⟩, ih hss⟩

/-- Spaces are no line feeds. -/
lemma spaces (n : Nat) : OneLine (String.ofList (List.replicate n ' ')) := by
  refine ofList fun c hc => ?_
  rw [List.eq_of_mem_replicate hc]
  decide

/-- A hexadecimal digit is no line feed. -/
lemma ne_of_isDigit {c : Char} (h : Hex.IsDigit c) : c ≠ '\n' :=
  h.elim (P := fun c => c ≠ '\n') (by decide)

/-- A number in hexadecimal holds no line feed. -/
lemma padded (width : Nat) (n : Int) : OneLine (Hex.padded width n) := by
  refine ofList fun c hc => ?_
  simp only [Hex.paddedChars, List.mem_append] at hc
  rcases hc with (hc | hc) | hc
  · split at hc
    · rw [List.mem_singleton.1 hc]
      decide
    · exact absurd hc List.not_mem_nil
  · rw [List.eq_of_mem_replicate hc]
    decide
  · exact ne_of_isDigit (Hex.isDigit_of_mem_digits hc)

/-- A number in assembler notation holds no line feed. -/
lemma literal (width n : Nat) : OneLine (Hex.literal width n) := by
  obtain ⟨c, cs, hliteral, -, hdigits, -⟩ := Hex.exists_literal width n
  rw [OneLine, hliteral, ← List.cons_append, List.mem_append, not_or]
  exact ⟨fun hmem => ne_of_isDigit (hdigits _ hmem) rfl, by decide⟩

/-- A natural number in decimal holds no line feed. -/
lemma nat (n : Nat) : OneLine (toString n) := by
  rw [Nat.toString_eq_ofList_toDigits]
  refine ofList fun c hc => ?_
  have hdigit := Nat.isDigit_of_mem_toDigits (by decide) (by decide) hc
  rintro rfl
  cases hdigit

/-- An integer in decimal holds no line feed. -/
lemma int (n : Int) : OneLine (toString n) := by
  cases n with
  | ofNat n => exact nat n
  | negSucc n => exact append (s := "-") (by decide) (nat (n + 1))

end OneLine

/-! ## Lines -/

/-- Lines joined to a text, each with its line feed. -/
lemma toList_joinLines (lines : List String) :
    (if lines.isEmpty then "" else Text.joinLines lines).toList =
      lines.flatMap fun line => line.toList ++ ['\n'] := by
  induction lines with
  | nil => rfl
  | cons line lines ih =>
    cases lines with
    | nil => simp [Text.joinLines]
    | cons line' lines =>
      simp only [List.isEmpty_cons, Bool.false_eq_true, if_false, Text.joinLines,
        String.toList_append, String.toList_intercalate, List.map_cons,
        List.intercalate_cons_cons] at ih ⊢
      rw [List.append_assoc, ih, List.flatMap_cons]
      rfl

namespace Text

/-- One line or more joined to a text. -/
lemma toList_joinLines_cons (line : String) (lines : List String) :
    (joinLines (line :: lines)).toList =
      (line :: lines).flatMap fun line => line.toList ++ ['\n'] := by
  rw [← toList_joinLines]
  rfl

/-- **Splitting joined lines at line feeds** gives the lines, and nothing after the last line
feed. -/
lemma feedLines_joinLines {lines : List String} (hne : lines ≠ []) (h : ∀ l ∈ lines, OneLine l) :
    feedLines (joinLines lines).toList = lines.map String.toList ++ [[]] := by
  obtain ⟨line, rest, rfl⟩ := List.exists_cons_of_ne_nil hne
  rw [toList_joinLines_cons]
  generalize line :: rest = lines at h
  induction lines with
  | nil => rfl
  | cons line lines ih =>
    obtain ⟨hline, hlines⟩ := List.forall_mem_cons.1 h
    rw [List.flatMap_cons, List.append_assoc, List.singleton_append, feedLines_append hline,
      ih hlines, List.map_cons, List.cons_append]

/-- A line without a line break is passed over. -/
lemma splitLinesFrom_line {cs : List Char} (h : ∀ c ∈ cs, isLineBreak c = false)
    (line rest : List Char) :
    splitLinesFrom line (cs ++ '\n' :: rest) =
      String.ofList (line.reverse ++ cs) :: splitLinesFrom [] rest := by
  induction cs generalizing line with
  | nil =>
    rw [List.nil_append, splitLinesFrom_cons (fun h => absurd h (by decide)), if_pos (by decide),
      List.append_nil]
  | cons c cs ih =>
    obtain ⟨hc, hcs⟩ := List.forall_mem_cons.1 h
    have hreturn : c ≠ '\r' := by
      rintro rfl
      cases hc
    rw [List.cons_append, splitLinesFrom_cons (fun h => absurd h hreturn), hc,
      if_neg Bool.false_ne_true, ih hcs, List.reverse_cons, List.append_assoc,
      List.singleton_append]

/-- **Splitting joined lines at all line breaks** gives the lines. -/
lemma splitLines_joinLines {line : String} {lines : List String}
    (h : ∀ l ∈ line :: lines, ∀ c ∈ l.toList, isLineBreak c = false) :
    splitLines (joinLines (line :: lines)) = line :: lines := by
  rw [splitLines, toList_joinLines_cons]
  generalize line :: lines = lines at h
  induction lines with
  | nil => rfl
  | cons line lines ih =>
    obtain ⟨hline, hlines⟩ := List.forall_mem_cons.1 h
    rw [List.flatMap_cons, List.append_assoc, List.singleton_append, splitLinesFrom_line hline,
      ih hlines, List.reverse_nil, List.nil_append, String.ofList_toList]

/-- The lines at all breaks hold no line feed. -/
lemma oneLine_of_mem_splitLines {s line : String} (h : line ∈ splitLines s) : OneLine line := by
  have hfrom : ∀ begun cs : List Char, '\n' ∉ begun → ∀ l ∈ splitLinesFrom begun cs, OneLine l := by
    intro begun cs
    have hbegun : ∀ ds : List Char, '\n' ∉ ds → OneLine (String.ofList ds.reverse) := by
      intro ds hds
      rwa [OneLine, String.toList_ofList, List.mem_reverse]
    fun_induction splitLinesFrom begun cs with
    | case1 => exact fun _ l hl => absurd hl List.not_mem_nil
    | case2 line hline =>
      exact fun hfeed => List.forall_mem_singleton.2 (hbegun line hfeed)
    | case3 line cs ih | case4 line c cs hpair hbreak ih =>
      exact fun hfeed => List.forall_mem_cons.2 ⟨hbegun line hfeed, ih List.not_mem_nil⟩
    | case5 line c cs hpair hbreak ih =>
      intro hfeed
      have hc : '\n' ≠ c := by
        rintro rfl
        exact hbreak rfl
      exact ih (List.not_mem_cons_of_ne_of_not_mem hc hfeed)
  exact hfrom [] s.toList List.not_mem_nil line h

/-- What is left of a text without a line feed has none. -/
lemma oneLine_strip {s : String} (h : OneLine s) : OneLine (strip s) := by
  refine OneLine.ofList fun c hc => ?_
  have hinner := (List.dropWhile_suffix _).subset (List.mem_reverse.1 hc)
  have houter := (List.dropWhile_suffix _).subset (List.mem_reverse.1 hinner)
  exact ne_of_mem_of_not_mem houter h

/-- **White space around a text** is taken off. -/
lemma stripChars_append {before cs after : List Char} (hbefore : ∀ c ∈ before, isBlank c = true)
    (hafter : ∀ c ∈ after, isBlank c = true) (hhead : ∀ c ∈ cs.head?, isBlank c = false)
    (hlast : ∀ c ∈ cs.getLast?, isBlank c = false) :
    stripChars (before ++ (cs ++ after)) = cs := by
  -- blanks go up to a list that is empty or begins with something else
  have hdrop : ∀ {blanks ds : List Char}, (∀ c ∈ blanks, isBlank c = true) →
      (∀ c ∈ ds.head?, isBlank c = false) → (blanks ++ ds).dropWhile isBlank = ds := by
    intro blanks ds hblanks hds
    rw [List.dropWhile_append_of_pos hblanks]
    cases ds with
    | nil => rfl
    | cons d ds => exact List.dropWhile_cons_of_neg (by simp [hds d rfl])
  have hback : ((cs ++ after).reverse.dropWhile isBlank).reverse = cs := by
    rw [List.reverse_append, hdrop (by simpa using hafter) (by rwa [List.head?_reverse]),
      List.reverse_reverse]
  cases cs with
  | nil =>
    have hnil : (before ++ after).dropWhile isBlank = [] :=
      List.dropWhile_eq_nil_iff.2 (List.forall_mem_append.2 ⟨hbefore, hafter⟩)
    rw [stripChars, List.nil_append, hnil]
    rfl
  | cons c cs => rw [stripChars, hdrop hbefore (by simpa using hhead), hback]

/-- A text without white space at its ends is left as it is. -/
lemma stripChars_eq_self {cs : List Char} (hhead : ∀ c ∈ cs.head?, isBlank c = false)
    (hlast : ∀ c ∈ cs.getLast?, isBlank c = false) : stripChars cs = cs := by
  have hstrip := stripChars_append (List.forall_mem_nil _) (List.forall_mem_nil _) hhead hlast
  rwa [List.nil_append, List.append_nil] at hstrip

/-! ## Words -/

/-- A space is blank. -/
lemma isBlank_space : ∀ c ∈ " ".toList, isBlank c = true := List.forall_mem_singleton.2 rfl

/-- Blanks in front of a text add no word. -/
lemma words_blank_append {blanks : String} (hblanks : ∀ c ∈ blanks.toList, isBlank c = true)
    (rest : String) : words (blanks ++ rest) = words rest := by
  rw [words, words, String.toList_append]
  congr 1
  generalize blanks.toList = bs at hblanks
  induction bs with
  | nil => rfl
  | cons c cs ih =>
    obtain ⟨hc, hcs⟩ := List.forall_mem_cons.1 hblanks
    rw [List.cons_append, List.splitOnP_cons_eq_if_modifyHead, if_pos hc, ← ih hcs]
    rfl

/-- **A word in front of a text** that goes on with a blank, if at all. -/
lemma words_append {word rest : String} (hne : word ≠ "")
    (hword : ∀ c ∈ word.toList, isBlank c = false)
    (hrest : ∀ c ∈ rest.toList.head?, isBlank c = true) :
    words (word ++ rest) = word :: words rest := by
  rw [words, words, String.toList_append]
  cases hchars : rest.toList with
  | nil => simp [List.splitOnP_eq_singleton hword, hne]
  | cons c cs =>
    have hc : isBlank c = true := hrest c (by simp [hchars])
    rw [List.splitOnP_append_cons_of_forall_mem hword c hc, List.splitOnP_cons_eq_if_modifyHead,
      if_pos hc]
    simp [hne]

/-- A word and blanks after it in front of a text. -/
lemma words_cons {word blanks : String} (hne : word ≠ "")
    (hword : ∀ c ∈ word.toList, isBlank c = false) (hsome : blanks ≠ "")
    (hblanks : ∀ c ∈ blanks.toList, isBlank c = true) (rest : String) :
    words (word ++ (blanks ++ rest)) = word :: words rest := by
  rw [words_append hne hword, words_blank_append hblanks]
  obtain ⟨c, cs, hchars⟩ := List.exists_cons_of_ne_nil (mt String.toList_eq_nil_iff.1 hsome)
  rw [String.toList_append, hchars]
  rintro _ ⟨⟩
  exact hblanks c (by simp [hchars])

/-- A word is one word. -/
lemma words_of_word {word : String} (hne : word ≠ "")
    (hword : ∀ c ∈ word.toList, isBlank c = false) : words word = [word] := by
  rw [← String.append_empty (s := word), words_append hne hword (by simp)]
  simp [words]

/-- Blanks have no word. -/
lemma words_of_blank {blanks : String} (h : ∀ c ∈ blanks.toList, isBlank c = true) :
    words blanks = [] := by
  rw [← String.append_empty (s := blanks), words_blank_append h]
  rfl

end Text

/-! ## Numbers -/

namespace Hex

/-- Zero is a hexadecimal digit. -/
lemma isDigit_zero : IsDigit '0' := ⟨0, by decide, by decide⟩

/-- A number in hexadecimal, in some width, consists of digits. -/
lemma isDigit_of_mem_paddedChars {width n : Nat} {c : Char} (h : c ∈ paddedChars width n) :
    IsDigit c := by
  rw [paddedChars_natCast, List.mem_append] at h
  rcases h with h | h
  · rw [List.eq_of_mem_replicate h]
    exact isDigit_zero
  · exact isDigit_of_mem_digits h

/-- **The value of a number in hexadecimal**, in some width, is the number. -/
lemma valueOf_paddedChars (width n : Nat) : valueOf (paddedChars width n) = n := by
  rw [paddedChars_natCast, valueOf_replicate_append, valueOf_digits]

/-- A number in hexadecimal has at least one digit. -/
lemma paddedChars_ne_nil (width n : Nat) : paddedChars width n ≠ [] := by
  rw [paddedChars_natCast]
  exact List.append_ne_nil_of_right_ne_nil _ (digits_ne_nil n)

/-- A number below a power of 16 has at most as many digits as the power says. -/
lemma length_digits_le {width n : Nat} (hpos : 0 < width) (h : n < 16 ^ width) :
    (digits n).length ≤ width := by
  rw [digits, List.length_map]
  exact (Nat.length_toDigits_le_iff (by decide) hpos).2 h

/-- **The width of a number in hexadecimal** that is small enough for it. -/
lemma length_paddedChars {width n : Nat} (hpos : 0 < width) (h : n < 16 ^ width) :
    (paddedChars width n).length = width := by
  have := length_digits_le hpos h
  rw [paddedChars_natCast, List.length_append, List.length_replicate]
  omega

end Hex

namespace Integer

/-- A hexadecimal digit is plain. -/
lemma plain_of_isDigit {c : Char} (h : Hex.IsDigit c) : Plain c :=
  h.elim (P := Plain) (by decide)

/-- Hexadecimal digits denote their value. -/
lemma numeral_of_isDigit {cs : List Char} (hne : cs ≠ []) (h : ∀ c ∈ cs, Hex.IsDigit c) :
    Numeral .hexadecimal cs (Hex.valueOf cs) :=
  numeral_iff.2 ⟨hne, fun c hc => (h c hc).isSome_digit?, rfl⟩

/-- **Hexadecimal digits are read as their value.** -/
lemma read_hex {cs : List Char} (hne : cs ≠ []) (h : ∀ c ∈ cs, Hex.IsDigit c) :
    read 16 (String.ofList cs) = .ok (Hex.valueOf cs) :=
  (read_hexadecimal_iff fun c hc => plain_of_isDigit (h c hc)).2
    (.unsigned (.inl (numeral_of_isDigit hne h)))

end Integer

end Asm8080
