import Mathlib.Data.List.TakeWhile
import Asm8080.Proofs.Token.Lexing
import Asm8080.Proofs.Token.Vocabulary

/-!
# The lexical grammar

Source text is a sequence of lexemes: runs of separators, comments, line feeds, names, number
literals, character literals and punctuation. Names and numbers are taken as long as name characters
follow, and a comment extends to the end of its line. A text is tokenized exactly when it can be
divided in this way, and then there is one token for each lexeme other than separators and comments,
at the line and column where the lexeme begins, and an end mark after the last one.

## Main definitions

* `Asm8080.Fragment` — a stretch of source text and the kind of token that it is, if it is one.
* `Asm8080.WordRun` — a run of name characters that what follows does not continue.
* `Asm8080.Fragment.IsLexeme` — the lexemes of the language.
* `Asm8080.Divides` — a text is divided into lexemes and what is left after them.
* `Asm8080.Fragment.tokens` — the tokens of fragments, at their places.
* `Asm8080.Cursor.after` — the position in a text after its first characters.

## Main results

* `Asm8080.Lexeme.isLexeme_of_read`, `Asm8080.Lexeme.read_of_isLexeme` — the lexemes that are tokens
  are those that are read.
* `Asm8080.Cursor.readAllFrom_lexeme`, `Asm8080.Cursor.readAllFrom_divides` — what one lexeme adds
  to the tokens, and what a sequence of them adds.
* `Asm8080.exists_divides` — every text is divided into lexemes up to where none can be read.
* `Asm8080.tokenize_eq_ok_iff_divides` — a text is tokenized exactly when it is divided to its end.
-/

set_option autoImplicit false

namespace Asm8080

/-! ## The grammar -/

/-- A stretch of source text, and the kind of token that it is; separators and comments are none. -/
structure Fragment where
  chars : List Char
  kind : Option Token.Kind

/-- A character of a name: an ASCII letter or digit, or an underscore. -/
def IsWordChar (c : Char) : Prop := c.isAlpha = true ∨ c.isDigit = true ∨ c = '_'

/-- A run of name characters that the text `rest` does not continue. -/
structure WordRun (cs rest : List Char) : Prop where
  word : ∀ c ∈ cs, IsWordChar c
  ends : ∀ c ∈ rest.head?, ¬IsWordChar c

/-- **The lexemes of the language**: a fragment is a lexeme before the text `rest`. -/
inductive Fragment.IsLexeme : Fragment → List Char → Prop
  | separators {cs rest : List Char} (hne : cs ≠ []) (hcs : ∀ c ∈ cs, c ∈ [' ', '\t', '\r']) :
      IsLexeme ⟨cs, none⟩ rest
  | comment {body rest : List Char} (hbody : '\n' ∉ body) (hrest : ∀ c ∈ rest.head?, c = '\n') :
      IsLexeme ⟨';' :: body, none⟩ rest
  | newline {rest : List Char} : IsLexeme ⟨['\n'], some .newline⟩ rest
  | name {c : Char} {tail rest : List Char} {kind : Token.Kind}
      (hc : c.isAlpha = true ∨ c = '_') (htail : WordRun tail rest)
      (hkind : Token.Kind.Names (String.ofList (c :: tail)) kind) :
      IsLexeme ⟨c :: tail, some kind⟩ rest
  | number {c : Char} {tail rest : List Char} {value : Nat} {radix : Radix}
      (hc : c.isDigit = true) (htail : WordRun tail rest)
      (hvalue : Lexeme.Denotes (c :: tail) value radix) :
      IsLexeme ⟨c :: tail, some (.number value radix)⟩ rest
  | char {c : Char} {rest : List Char} (hline : c ≠ '\n') (hwidth : c.toNat ≤ 0xFF) :
      IsLexeme ⟨['\'', c, '\''], some (.char c)⟩ rest
  | punctuation {p : Punctuation} {rest : List Char} :
      IsLexeme ⟨[p.char], some (.punctuation p)⟩ rest

/-- A text is divided into lexemes and the text `rest` after them. -/
inductive Divides : List Char → List Fragment → List Char → Prop
  | nil {rest : List Char} : Divides rest [] rest
  | cons {f : Fragment} {cs rest : List Char} {fs : List Fragment} (hf : f.IsLexeme cs)
      (hfs : Divides cs fs rest) : Divides (f.chars ++ cs) (f :: fs) rest

/-! ## Places -/

/-- The number of the line on which a text ends. -/
def lineAfter (cs : List Char) : Nat := 1 + cs.count '\n'

/-- The characters of a text after its last line feed. -/
def lastLine (cs : List Char) : List Char := (cs.reverse.takeWhile (· != '\n')).reverse

/-- The number of the next character on the line on which a text ends. -/
def columnAfter (cs : List Char) : Nat := 1 + (lastLine cs).length

/-- The token of a kind that comes right after the text `before`. -/
def tokenAfter (file : String) (before : List Char) (kind : Token.Kind) : Token :=
  ⟨kind, file, lineAfter before, columnAfter before⟩

/-- The tokens of fragments that come after the text `before`. -/
def Fragment.tokens (file : String) (before : List Char) : List Fragment → List Token
  | [] => []
  | f :: fs =>
    (f.kind.map (tokenAfter file before)).toList ++ tokens file (before ++ f.chars) fs

/-! ## Positions -/

/-- No line feed leaves the line. -/
lemma lineAfter_append {cs : List Char} (h : '\n' ∉ cs) (before : List Char) :
    lineAfter (before ++ cs) = lineAfter before := by
  rw [lineAfter, lineAfter, List.count_append, List.count_eq_zero.2 h, Nat.add_zero]

/-- Characters that are no line feed come after the last one. -/
lemma lastLine_append {cs : List Char} (h : '\n' ∉ cs) (before : List Char) :
    lastLine (before ++ cs) = lastLine before ++ cs := by
  have hcs : ∀ c ∈ cs.reverse, (c != '\n') = true := by
    intro c hc
    rw [bne_iff_ne]
    rintro rfl
    exact h (List.mem_reverse.1 hc)
  rw [lastLine, lastLine, List.reverse_append, List.takeWhile_append_of_pos hcs,
    List.reverse_append, List.reverse_reverse]

/-- A line feed begins a line. -/
lemma lastLine_newline (before : List Char) : lastLine (before ++ ['\n']) = [] := by
  simp [lastLine]

namespace Cursor

/-- The position in a text after the characters `before`, where the characters `rest` are ahead. -/
def after (before rest : List Char) : Cursor :=
  ⟨rest, lineAfter before, columnAfter before, lastLine before ++ rest⟩

/-- The first position is that after no characters. -/
lemma start_eq_after (source : List Char) : start source = after [] source := rfl

/-- Moving over characters of one line. -/
lemma skip_after {cs : List Char} (h : '\n' ∉ cs) (before rest : List Char) :
    (after before (cs ++ rest)).skip cs.length = after (before ++ cs) rest := by
  simp only [skip, after, List.drop_left, lineAfter_append h, columnAfter, lastLine_append h,
    List.length_append, List.append_assoc, Nat.add_assoc]

/-- Moving over a line feed. -/
lemma nextLine_after (before rest : List Char) :
    (after before ('\n' :: rest)).nextLine = after (before ++ ['\n']) rest := by
  simp [nextLine, after, columnAfter, lastLine_newline, lineAfter, List.count_append, Nat.add_assoc]

/-- The token at a position. -/
lemma token_after (before rest : List Char) (file : String) (kind : Token.Kind) :
    (after before rest).token file kind = tokenAfter file before kind := rfl

end Cursor

/-! ## Classes of characters -/

/-- The reader knows the separators. -/
lemma isSeparator_iff {c : Char} : isSeparator c = true ↔ c ∈ [' ', '\t', '\r'] := by
  simp [isSeparator, or_assoc]

/-- The reader knows the characters that begin a name. -/
lemma isNameStart_iff {c : Char} : isNameStart c = true ↔ c.isAlpha = true ∨ c = '_' := by
  simp [isNameStart]

/-- The reader knows the characters of names. -/
lemma isNameChar_iff {c : Char} : isNameChar c = true ↔ IsWordChar c := by
  simp [isNameChar, IsWordChar, or_assoc]

/-- The reader takes all name characters that come next. -/
lemma wordRun_iff {cs rest : List Char} :
    WordRun cs rest ↔ (∀ c ∈ cs, isNameChar c = true) ∧ Lexes.Ends rest := by
  simp only [isNameChar_iff, Lexes.Ends, ← Bool.not_eq_true]
  exact ⟨fun h => ⟨h.word, h.ends⟩, fun h => ⟨h.1, h.2⟩⟩

/-! ## One lexeme -/

/-- Every text begins with a run of characters of a class that cannot be extended. -/
lemma exists_run (p : Char → Bool) (cs : List Char) :
    ∃ run rest, cs = run ++ rest ∧ (∀ c ∈ run, p c = true) ∧ ∀ c ∈ rest.head?, p c = false := by
  refine ⟨cs.takeWhile p, cs.dropWhile p, List.takeWhile_append_dropWhile.symm,
    fun c hc => List.mem_takeWhile_imp hc, fun c hc => ?_⟩
  have hhead := List.head?_dropWhile_not p cs
  rwa [Option.mem_def.1 hc] at hhead

/-- Every text begins with a line, up to a line feed or the end. -/
lemma exists_line (cs : List Char) :
    ∃ line rest, cs = line ++ rest ∧ cs.takeWhile (· != '\n') = line ∧ '\n' ∉ line ∧
      ∀ c ∈ rest.head?, c = '\n' := by
  obtain ⟨line, rest, rfl, hline, hrest⟩ := exists_run (· != '\n') cs
  refine ⟨line, rest, rfl, takeWhile_run hline hrest, ?_, ?_⟩
  · exact fun hmem => bne_iff_ne.1 (hline _ hmem) rfl
  · exact fun c hc => bne_eq_false_iff_eq.1 (hrest c hc)

namespace Fragment.IsLexeme

/-- A lexeme that is a token is a line feed, or holds none. -/
lemma newline_or_notMem {cs rest : List Char} {kind : Token.Kind}
    (h : IsLexeme ⟨cs, some kind⟩ rest) :
    (cs = ['\n'] ∧ kind = .newline) ∨ ('\n' ∉ cs ∧ kind ≠ .newline) := by
  have hword : ∀ {c : Char} {tail : List Char}, isNameChar c = true → WordRun tail rest →
      '\n' ∉ c :: tail := by
    intro c tail hc htail hmem
    have hall : ∀ d ∈ c :: tail, isNameChar d = true :=
      List.forall_mem_cons.2 ⟨hc, (wordRun_iff.1 htail).1⟩
    cases hall _ hmem
  cases h with
  | newline => exact .inl ⟨rfl, rfl⟩
  | name hc htail hkind =>
    refine .inr ⟨hword (Lexes.isNameChar_of_isNameStart (isNameStart_iff.2 hc)) htail, ?_⟩
    rintro rfl
    cases hkind
  | number hc htail => exact .inr ⟨hword (Lexes.isNameChar_of_isDigit hc) htail, by simp⟩
  | char hline => exact .inr ⟨by simpa using hline.symm, by simp⟩
  | @punctuation p => exact .inr ⟨by cases p <;> decide, by simp⟩

/-- A lexeme has at least one character. -/
lemma ne_nil {f : Fragment} {rest : List Char} (h : f.IsLexeme rest) : f.chars ≠ [] := by
  cases h with
  | separators hne => exact hne
  | _ => exact List.cons_ne_nil _ _

/-- No lexeme is an end mark. -/
lemma ne_eof {cs rest : List Char} {kind : Token.Kind} (h : IsLexeme ⟨cs, some kind⟩ rest) :
    kind ≠ .eof := by
  rintro rfl
  cases h with
  | name _ _ hname => cases hname

/-- A lexeme that is a token begins neither with a separator nor with a comment. -/
lemma not_ignored {c : Char} {tail rest : List Char} {kind : Token.Kind}
    (h : IsLexeme ⟨c :: tail, some kind⟩ rest) : isSeparator c = false ∧ c ≠ ';' := by
  cases h with
  | newline => decide
  | name hc =>
    exact (Lexes.plain_of_isNameChar (Lexes.isNameChar_of_isNameStart (isNameStart_iff.2 hc))).2
  | number hc => exact (Lexes.plain_of_isNameChar (Lexes.isNameChar_of_isDigit hc)).2
  | char => decide
  | @punctuation p => cases p <;> decide

end Fragment.IsLexeme

namespace Lexeme

/-- A character literal. -/
lemma character_eq_ok_iff {cs : List Char} {l : Lexeme} :
    character cs = .ok l ↔
      ∃ c rest, cs = c :: '\'' :: rest ∧ c ≠ '\n' ∧ c.toNat ≤ 0xFF ∧ l = ⟨.char c, 2⟩ := by
  constructor
  · intro h
    rcases cs with _ | ⟨c, _ | ⟨d, rest⟩⟩
    · cases h
    · simp only [character] at h
      split_ifs at h
    · simp only [character] at h
      split_ifs at h with hline hd hwidth
      cases h
      exact ⟨c, rest, by rw [hd], hline, Nat.le_of_not_lt hwidth, rfl⟩
  · rintro ⟨c, rest, rfl, hline, hwidth, rfl⟩
    have hwidth : ¬c.toNat > 0xFF := Nat.not_lt.2 hwidth
    simp only [character, hline, if_false, if_true, hwidth]

/-- The punctuation mark of a character. -/
lemma ofChar?_eq_some_iff {c : Char} {p : Punctuation} :
    Punctuation.ofChar? c = some p ↔ c = p.char := by
  constructor
  · intro h
    have hchar : p.char = c := by simpa using List.find?_some h
    exact hchar.symm
  · rintro rfl
    cases p <;> rfl

/-- A digit begins no name. -/
lemma isNameStart_of_isDigit {c : Char} (h : c.isDigit = true) : isNameStart c = false :=
  isNameChar_elim (P := fun c => c.isDigit = true → isNameStart c = false) (by decide +kernel)
    (Lexes.isNameChar_of_isDigit h) h

/-- A number literal is read where a digit is. -/
lemma read_of_isDigit {c : Char} {tail rest : List Char} (hc : c.isDigit = true)
    (htail : WordRun tail rest) :
    read c (tail ++ rest) =
      match number (c :: tail) with
      | .ok (value, radix) => .ok ⟨.number value radix, tail.length⟩
      | .error m => .error m := by
  obtain ⟨hline, -⟩ := Lexes.plain_of_isNameChar (Lexes.isNameChar_of_isDigit hc)
  obtain ⟨htail, hrest⟩ := wordRun_iff.1 htail
  cases hnumber : number (c :: tail) <;>
    simp only [read, hline, if_false, isNameStart_of_isDigit hc, Bool.false_eq_true, hc, if_true,
      Lexes.takeWhile_isNameChar htail hrest, hnumber]

/-- **What is read at a character is a lexeme of the language.** -/
lemma isLexeme_of_read {c : Char} {cs : List Char} {l : Lexeme} (h : read c cs = .ok l) :
    Fragment.IsLexeme ⟨c :: cs.take l.more, some l.kind⟩ (cs.drop l.more) := by
  obtain ⟨tail, rest, hcs, htail, hrest⟩ := exists_run isNameChar cs
  have hword : WordRun tail rest := wordRun_iff.2 ⟨htail, hrest⟩
  have hrun : cs.takeWhile isNameChar = tail := hcs ▸ Lexes.takeWhile_isNameChar htail hrest
  have htake : cs.take tail.length = tail := by rw [hcs, List.take_left]
  have hdrop : cs.drop tail.length = rest := by rw [hcs, List.drop_left]
  simp only [read, hrun] at h
  split_ifs at h with hline hstart hdigit hquote
  · cases h
    rw [hline]
    exact .newline
  · cases h
    simp only [htake, hdrop]
    exact .name (isNameStart_iff.1 hstart) hword (Token.Kind.ofName_eq_iff.1 rfl)
  · rcases hnumber : number (c :: tail) with m | ⟨value, radix⟩
    · simp only [hnumber] at h
      cases h
    · simp only [hnumber] at h
      cases h
      simp only [htake, hdrop]
      exact .number hdigit hword (number_eq_ok_iff.1 hnumber)
  · obtain ⟨d, rest, rfl, hline, hwidth, rfl⟩ := character_eq_ok_iff.1 h
    rw [hquote]
    exact .char hline hwidth
  · rcases hp : Punctuation.ofChar? c with _ | p
    · simp only [hp] at h
      cases h
    · simp only [hp] at h
      cases h
      rw [ofChar?_eq_some_iff.1 hp]
      exact .punctuation

/-- **A lexeme that is a token is read.** -/
lemma read_of_isLexeme {c : Char} {tail rest : List Char} {kind : Token.Kind}
    (h : Fragment.IsLexeme ⟨c :: tail, some kind⟩ rest) :
    read c (tail ++ rest) = .ok ⟨kind, tail.length⟩ := by
  cases h with
  | newline => rfl
  | name hc htail hkind =>
    have hc := isNameStart_iff.2 hc
    obtain ⟨hline, -⟩ := Lexes.plain_of_isNameChar (Lexes.isNameChar_of_isNameStart hc)
    obtain ⟨htail, hrest⟩ := wordRun_iff.1 htail
    simp only [read, hline, if_false, hc, if_true, Lexes.takeWhile_isNameChar htail hrest,
      Token.Kind.ofName_eq_iff.2 hkind]
  | number hc htail hvalue => rw [read_of_isDigit hc htail, number_eq_ok_iff.2 hvalue]
  | @char c _ hline hwidth =>
    have hread : read '\'' (c :: '\'' :: rest) = character (c :: '\'' :: rest) := rfl
    exact hread.trans (character_eq_ok_iff.2 ⟨c, rest, rfl, hline, hwidth, rfl⟩)
  | @punctuation p => cases p <;> rfl

/-- Why no lexeme can be read at a character: a character literal is at fault, or a number literal,
or no lexeme begins with the character. -/
lemma cases_of_read_error {c : Char} {cs : List Char} {m : Misread}
    (h : read c cs = .error m) :
    (c = '\'' ∧ character cs = .error m) ∨
      (c.isDigit = true ∧ ∃ tail rest, cs = tail ++ rest ∧ WordRun tail rest ∧
        number (c :: tail) = .error m) ∨
      (c ≠ '\n' ∧ isNameStart c = false ∧ c.isDigit = false ∧ c ≠ '\'' ∧
        Punctuation.ofChar? c = none ∧ m = .fault (.unexpectedCharacter c) 0 0) := by
  obtain ⟨tail, rest, rfl, htail, hrest⟩ := exists_run isNameChar cs
  have hword : WordRun tail rest := wordRun_iff.2 ⟨htail, hrest⟩
  by_cases hdigit : c.isDigit = true
  · rw [read_of_isDigit hdigit hword] at h
    rcases hnumber : number (c :: tail) with m' | ⟨value, radix⟩
    · simp only [hnumber] at h
      cases h
      exact .inr (.inl ⟨hdigit, tail, rest, rfl, hword, hnumber⟩)
    · simp only [hnumber] at h
      cases h
  · unfold read at h
    split_ifs at h with hline hstart hquote
    · exact .inl ⟨hquote, h⟩
    · cases hp : Punctuation.ofChar? c with
      | none =>
        simp only [hp] at h
        cases h
        exact .inr (.inr ⟨hline, Bool.eq_false_iff.2 hstart, Bool.eq_false_iff.2 hdigit, hquote,
          rfl, rfl⟩)
      | some p =>
        simp only [hp] at h
        cases h

end Lexeme

/-! ## One step of reading -/

namespace Cursor

/-- All separators that come next are passed over, and the comment after them. -/
lemma skipIgnored_run {cs rest : List Char} (hcs : ∀ c ∈ cs, isSeparator c = true)
    (hrest : ∀ c ∈ rest.head?, isSeparator c = false) (before : List Char) :
    (after before (cs ++ rest)).skipIgnored =
      (after (before ++ cs) rest).skip (commentLength rest) := by
  have hline : '\n' ∉ cs := fun hmem => by cases hcs _ hmem
  have hahead : (after before (cs ++ rest)).rest = cs ++ rest := rfl
  rw [skipIgnored, hahead, takeWhile_run hcs hrest, skip_after hline]
  rfl

/-- Separators are passed over. -/
lemma skipIgnored_separators {cs : List Char} (hcs : ∀ c ∈ cs, isSeparator c = true)
    (before rest : List Char) :
    (after before (cs ++ rest)).skipIgnored = (after (before ++ cs) rest).skipIgnored := by
  obtain ⟨run, rest, rfl, hrun, hrest⟩ := exists_run isSeparator rest
  have hall : ∀ c ∈ cs ++ run, isSeparator c = true := List.forall_mem_append.2 ⟨hcs, hrun⟩
  rw [← List.append_assoc, skipIgnored_run hall hrest, skipIgnored_run hrun hrest,
    List.append_assoc]

/-- A comment is passed over up to the end of its line. -/
lemma skipIgnored_comment {body rest : List Char} (hbody : '\n' ∉ body)
    (hrest : ∀ c ∈ rest.head?, c = '\n') (before : List Char) :
    (after before (';' :: body ++ rest)).skipIgnored = after (before ++ ';' :: body) rest := by
  have hline : '\n' ∉ ';' :: body := List.not_mem_cons_of_ne_of_not_mem (by decide) hbody
  have hrun : (body ++ rest).takeWhile (· != '\n') = body :=
    takeWhile_run (fun c hc => bne_iff_ne.2 (ne_of_mem_of_not_mem hc hbody))
      (fun c hc => bne_eq_false_iff_eq.2 (hrest c hc))
  have hlength : commentLength (';' :: body ++ rest) = (';' :: body).length := by
    rw [List.cons_append, commentLength, hrun]
  have hskip : (after before ([] ++ (';' :: body ++ rest))).skipIgnored = _ :=
    skipIgnored_run (by simp) (by simp [isSeparator]) before
  rw [hlength, List.append_nil, skip_after hline] at hskip
  exact hskip

/-- The position after a lexeme that is a token. -/
lemma past_after {c : Char} {tail rest : List Char} {kind : Token.Kind}
    (h : Fragment.IsLexeme ⟨c :: tail, some kind⟩ rest) (before : List Char) :
    (after before (c :: tail ++ rest)).past ⟨kind, tail.length⟩ =
      after (before ++ c :: tail) rest := by
  rcases h.newline_or_notMem with ⟨hcs, rfl⟩ | ⟨hcs, hkind⟩
  · cases hcs
    exact nextLine_after before rest
  · rw [past, if_neg hkind]
    exact skip_after hcs before rest

/-- **One lexeme** adds the token that it is, if it is one. -/
lemma readAllFrom_lexeme {f : Fragment} {rest : List Char} (h : f.IsLexeme rest) (file : String)
    (done : List Token) (before : List Char) :
    readAllFrom file done (after before (f.chars ++ rest)) =
      readAllFrom file ((f.kind.map (tokenAfter file before)).toList ++ done)
        (after (before ++ f.chars) rest) := by
  cases f with | mk cs kind =>
  cases kind with
  | none =>
    refine readAllFrom_congr ?_ file done
    cases h with
    | separators hne hcs =>
      exact skipIgnored_separators (fun c hc => isSeparator_iff.2 (hcs c hc)) before rest
    | comment hbody hrest =>
      rw [skipIgnored_comment hbody hrest, skipIgnored_eq_self]
      intro c hc
      rw [hrest c hc]
      decide
  | some kind =>
    obtain ⟨c, tail, rfl⟩ := List.exists_cons_of_ne_nil h.ne_nil
    obtain ⟨hsep, hcomment⟩ := h.not_ignored
    have hahead : (after before (c :: tail ++ rest)).rest = c :: (tail ++ rest) := rfl
    rw [readAllFrom_cons hahead hsep hcomment, Lexeme.read_of_isLexeme h]
    exact congrArg _ (past_after h before)

end Cursor

/-- A text begins with a lexeme, or with a character at which none can be read. -/
lemma exists_lexeme_or_misread (c : Char) (cs : List Char) :
    (∃ (f : Fragment) (rest : List Char), c :: cs = f.chars ++ rest ∧ f.IsLexeme rest) ∨
      (isSeparator c = false ∧ c ≠ ';' ∧ ∃ m, Lexeme.read c cs = .error m) := by
  by_cases hsep : isSeparator c = true
  · refine .inl ⟨⟨[c], none⟩, cs, rfl, .separators (by simp) ?_⟩
    exact List.forall_mem_singleton.2 (isSeparator_iff.1 hsep)
  by_cases hcomment : c = ';'
  · obtain ⟨body, rest, rfl, -, hbody, hrest⟩ := exists_line cs
    exact .inl ⟨⟨';' :: body, none⟩, rest, by rw [hcomment]; rfl, .comment hbody hrest⟩
  cases hread : Lexeme.read c cs with
  | error m => exact .inr ⟨Bool.eq_false_iff.2 hsep, hcomment, m, rfl⟩
  | ok l =>
    refine .inl ⟨_, _, ?_, Lexeme.isLexeme_of_read hread⟩
    rw [List.cons_append, List.take_append_drop]

/-! ## The whole text -/

namespace Cursor

/-- **Lexemes are read one after another.** -/
lemma readAllFrom_divides {cs rest : List Char} {fs : List Fragment} (h : Divides cs fs rest)
    (file : String) (done : List Token) (before : List Char) :
    readAllFrom file done (after before cs) =
      readAllFrom file ((Fragment.tokens file before fs).reverse ++ done)
        (after (before ++ fs.flatMap Fragment.chars) rest) := by
  induction h generalizing done before with
  | nil => simp [Fragment.tokens]
  | @cons f cs rest fs hf hfs ih =>
    rw [readAllFrom_lexeme hf, ih]
    simp only [Fragment.tokens, List.flatMap_cons, List.reverse_append, List.append_assoc]
    cases f.kind <;> rfl

end Cursor

/-- The characters of a text are those of its lexemes and what is left. -/
lemma Divides.eq_append {cs rest : List Char} {fs : List Fragment} (h : Divides cs fs rest) :
    cs = fs.flatMap Fragment.chars ++ rest := by
  induction h with
  | nil => rfl
  | cons _ _ ih => rw [List.flatMap_cons, List.append_assoc, ← ih]

/-- No lexeme begins a text: it is at its end, or at a character where none can be read. -/
def Stuck (rest : List Char) : Prop :=
  ∀ c cs, rest = c :: cs → isSeparator c = false ∧ c ≠ ';' ∧ ∃ m, Lexeme.read c cs = .error m

/-- Every text is divided into lexemes and a rest with which no lexeme begins. -/
lemma exists_divides (cs : List Char) : ∃ fs rest, Divides cs fs rest ∧ Stuck rest := by
  match cs with
  | [] => exact ⟨[], [], .nil, fun _ _ h => by cases h⟩
  | c :: cs =>
    rcases exists_lexeme_or_misread c cs with ⟨f, tail, hcs, hf⟩ | hstuck
    · have hshorter : tail.length < (c :: cs).length := by
        have := List.length_pos_of_ne_nil hf.ne_nil
        rw [hcs, List.length_append]
        omega
      obtain ⟨fs, rest, hfs, hrest⟩ := exists_divides tail
      exact ⟨f :: fs, rest, hcs ▸ .cons hf hfs, hrest⟩
    · exact ⟨[], c :: cs, .nil, fun _ _ h => by cases h; exact hstuck⟩
termination_by cs.length
decreasing_by exact hshorter

/-- A text that is divided into lexemes to its end is tokenized. -/
lemma tokenize_of_divides {source : String} {fs : List Fragment}
    (h : Divides source.toList fs []) (file : String) :
    tokenize source file =
      .ok (Fragment.tokens file [] fs ++ [tokenAfter file source.toList .eof]) := by
  have hchars : fs.flatMap Fragment.chars = source.toList := by rw [h.eq_append, List.append_nil]
  rw [tokenize, Cursor.readAll, Cursor.start_eq_after, Cursor.readAllFrom_divides h,
    Cursor.readAllFrom_nil rfl, Cursor.token_after, List.nil_append, hchars, List.append_nil,
    List.reverse_reverse]

/-- A text in which no lexeme can be read after the first ones is not tokenized. -/
lemma tokenize_of_misread {source : String} {fs : List Fragment} {c : Char} {cs : List Char}
    {m : Misread} (h : Divides source.toList fs (c :: cs)) (hsep : isSeparator c = false)
    (hcomment : c ≠ ';') (hm : Lexeme.read c cs = .error m) (file : String) :
    tokenize source file =
      .error ((Cursor.after (fs.flatMap Fragment.chars) (c :: cs)).failure file m) := by
  rw [tokenize, Cursor.readAll, Cursor.start_eq_after, Cursor.readAllFrom_divides h,
    Cursor.readAllFrom_cons rfl hsep hcomment, hm, List.nil_append]

/-- A text is divided into lexemes to its end and tokenized, or up to a character at which no lexeme
can be read, and that is the failure. -/
lemma tokenize_eq_ok_or_error (source file : String) :
    (∃ fs, Divides source.toList fs [] ∧ tokenize source file =
        .ok (Fragment.tokens file [] fs ++ [tokenAfter file source.toList .eof])) ∨
      ∃ fs c cs m, Divides source.toList fs (c :: cs) ∧ Lexeme.read c cs = .error m ∧
        tokenize source file =
          .error ((Cursor.after (fs.flatMap Fragment.chars) (c :: cs)).failure file m) := by
  obtain ⟨fs, rest, hfs, hstuck⟩ := exists_divides source.toList
  cases rest with
  | nil => exact .inl ⟨fs, hfs, tokenize_of_divides hfs file⟩
  | cons c cs =>
    obtain ⟨hsep, hcomment, m, hm⟩ := hstuck c cs rfl
    exact .inr ⟨fs, c, cs, m, hfs, hm, tokenize_of_misread hfs hsep hcomment hm file⟩

/-- A text that is tokenized is divided into lexemes to its end. -/
lemma exists_divides_of_tokenize {source file : String} {tokens : List Token}
    (h : tokenize source file = .ok tokens) :
    ∃ fs, Divides source.toList fs [] ∧
      tokens = Fragment.tokens file [] fs ++ [tokenAfter file source.toList .eof] := by
  rcases tokenize_eq_ok_or_error source file with ⟨fs, hfs, hok⟩ | ⟨_, _, _, _, -, -, herror⟩
  · cases h.symm.trans hok
    exact ⟨fs, hfs, rfl⟩
  · cases h.symm.trans herror

/-- **A text is tokenized exactly when it is divided into lexemes.** The tokens are then those of
the lexemes in their order, each at the place where its lexeme begins, and an end mark.

**Proof sketch.** A text is divided into lexemes up to where none can be read (`exists_divides`).
Reading passes over these lexemes and adds their tokens (`Cursor.readAllFrom_divides`), so it comes
to the end of the text exactly when the division does. -/
theorem tokenize_eq_ok_iff_divides (source file : String) (tokens : List Token) :
    tokenize source file = .ok tokens ↔
      ∃ fs, Divides source.toList fs [] ∧
        tokens = Fragment.tokens file [] fs ++ [tokenAfter file source.toList .eof] := by
  constructor
  · exact exists_divides_of_tokenize
  · rintro ⟨fs, hfs, rfl⟩
    exact tokenize_of_divides hfs file

-- Reserved words and the letters of bases may be in lower case; any other word stays as it is.
example : (tokenize "go: mvi a,0ffh\n dw 101n xor 17q-9d" "go.asm").map
    (List.map fun t : Token => (t.kind, t.line, t.column)) =
      .ok [(.identifier "go", 1, 1), (.punctuation .colon, 1, 3), (.mnemonic .mvi, 1, 5),
        (.register .a, 1, 9), (.punctuation .comma, 1, 10), (.number 255 .hexadecimal, 1, 11),
        (.newline, 1, 15), (.keyword .dw, 2, 2), (.number 5 .binary, 2, 5), (.keyword .xor, 2, 10),
        (.number 15 .octal, 2, 14), (.punctuation .minus, 2, 17), (.number 9 .decimal, 2, 18),
        (.eof, 2, 20)] := by
  decide +kernel

/-! ## The end mark -/

/-- A list of tokens has an end mark as its last token, and nowhere else. -/
def EndMarked : List Token → Prop
  | [] => False
  | t :: ts => if t.kind = .eof then ts = [] else EndMarked ts

/-- An end mark after tokens that are none. -/
lemma endMarked_append {ts : List Token} (hts : ∀ t ∈ ts, t.kind ≠ .eof) {t : Token}
    (ht : t.kind = .eof) : EndMarked (ts ++ [t]) := by
  induction ts with
  | nil => simp [EndMarked, ht]
  | cons t' ts ih =>
    obtain ⟨ht', hts⟩ := List.forall_mem_cons.1 hts
    simp only [List.cons_append, EndMarked, ht', if_false]
    exact ih hts

/-- No token of a lexeme is an end mark. -/
lemma Divides.ne_eof {cs rest : List Char} {fs : List Fragment} (h : Divides cs fs rest)
    (file : String) (before : List Char) :
    ∀ t ∈ Fragment.tokens file before fs, t.kind ≠ .eof := by
  induction h generalizing before with
  | nil => exact fun t ht => absurd ht List.not_mem_nil
  | @cons f cs rest fs hf _ ih =>
    refine List.forall_mem_append.2 ⟨fun t ht => ?_, ih (before ++ f.chars)⟩
    obtain ⟨kind, hkind, rfl⟩ := Option.map_eq_some_iff.1 (Option.mem_toList.1 ht)
    cases f with | mk chars kind' =>
    obtain rfl : kind' = some kind := hkind
    exact hf.ne_eof

/-- The tokens of a text have an end mark. -/
lemma endMarked_of_tokenize {source file : String} {tokens : List Token}
    (h : tokenize source file = .ok tokens) : EndMarked tokens := by
  obtain ⟨fs, hfs, rfl⟩ := exists_divides_of_tokenize h
  exact endMarked_append (hfs.ne_eof file []) rfl

end Asm8080
