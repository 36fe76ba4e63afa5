import Asm8080.Proofs.Token.Grammar

/-!
# Texts joined by a line feed

No lexeme extends over a line feed, and none depends on what comes after the end of its line. So two
texts with a line feed between them are divided into lexemes exactly when each of them is, and the
tokens are those of the first text, a line end, and those of the second one on later lines.

## Main definitions

* `Asm8080.Token.down` — a token some lines further down.

## Main results

* `Asm8080.Fragment.IsLexeme.of_head` — a lexeme depends on the next character only, and not on
  whether it is a line feed or the end of the text.
* `Asm8080.divides_newline_iff` — how texts joined by a line feed are divided.
* `Asm8080.Fragment.tokens_newline` — the tokens on later lines are those of a text of its own,
  moved down.
-/

set_option autoImplicit false

namespace Asm8080

/-! ## Lexemes -/

namespace Fragment.IsLexeme

/-- A lexeme depends on the next character only, and a line feed ends it as the end of the text
does. -/
lemma of_head {f : Fragment} {rest rest' : List Char} (h : f.IsLexeme rest)
    (hrest : ∀ c ∈ rest'.head?, c ∈ rest.head? ∨ c = '\n') : f.IsLexeme rest' := by
  have hrun : ∀ {tail : List Char}, WordRun tail rest → WordRun tail rest' := by
    intro tail htail
    refine ⟨htail.word, fun c hc => ?_⟩
    rcases hrest c hc with hc | rfl
    · exact htail.ends c hc
    · simp [IsWordChar]
  cases h with
  | separators hne hcs => exact .separators hne hcs
  | comment hbody hend =>
    refine .comment hbody fun c hc => ?_
    rcases hrest c hc with hc | rfl
    · exact hend c hc
    · rfl
  | newline => exact .newline
  | name hc htail hkind => exact .name hc (hrun htail) hkind
  | number hc htail hvalue => exact .number hc (hrun htail) hvalue
  | char hline hwidth => exact .char hline hwidth
  | punctuation => exact .punctuation

/-- A lexeme before the end of a text is one before a line feed. -/
lemma newline_iff {f : Fragment} {cs cs' : List Char} :
    f.IsLexeme (cs ++ '\n' :: cs') ↔ f.IsLexeme cs := by
  constructor
  · intro h
    refine h.of_head fun c hc => .inl ?_
    rw [List.head?_append, Option.mem_def.1 hc]
    rfl
  · intro h
    refine h.of_head fun c hc => ?_
    cases cs with
    | nil => exact .inr (Option.some.inj hc).symm
    | cons d cs => exact .inl hc

/-- A lexeme is a line feed, or holds none. -/
lemma eq_newline_or_notMem {f : Fragment} {rest : List Char} (h : f.IsLexeme rest) :
    f = ⟨['\n'], some .newline⟩ ∨ '\n' ∉ f.chars := by
  obtain ⟨cs, kind⟩ := f
  cases kind with
  | some kind =>
    rcases h.newline_or_notMem with ⟨rfl, rfl⟩ | ⟨hcs, -⟩
    · exact .inl rfl
    · exact .inr hcs
  | none =>
    cases h with
    | separators hne hcs =>
      refine .inr fun hmem => ?_
      simpa using hcs _ hmem
    | comment hbody => exact .inr (List.not_mem_cons_of_ne_of_not_mem (by decide) hbody)

end Fragment.IsLexeme

/-! ## Divisions -/

namespace Divides

/-- A division may be continued where it ends. -/
lemma append {cs mid rest : List Char} {fs fs' : List Fragment} (h : Divides cs fs mid)
    (h' : Divides mid fs' rest) : Divides cs (fs ++ fs') rest := by
  induction h with
  | nil => exact h'
  | cons hf _ ih => exact .cons hf (ih h')

/-- A text is divided in the same way before a line feed. -/
lemma before_newline {cs rest : List Char} {fs : List Fragment} (h : Divides cs fs rest)
    (cs' : List Char) : Divides (cs ++ '\n' :: cs') fs (rest ++ '\n' :: cs') := by
  induction h with
  | nil => exact .nil
  | cons hf _ ih =>
    rw [List.append_assoc]
    exact .cons (Fragment.IsLexeme.newline_iff.2 hf) ih

end Divides

/-- The first part of a text that is joined by a line feed ends before the line feed, or else the
line feed is in it. -/
lemma split_at_newline {cs cs' part tail : List Char} (h : cs ++ '\n' :: cs' = part ++ tail) :
    (∃ bs, cs = part ++ bs ∧ tail = bs ++ '\n' :: cs') ∨
      ∃ as, part = cs ++ '\n' :: as ∧ cs' = as ++ tail := by
  rcases List.append_eq_append_iff.1 h with ⟨as, hpart, htail⟩ | hbs
  · cases as with
    | nil =>
      rw [List.append_nil] at hpart
      exact .inl ⟨[], by rw [hpart, List.append_nil], htail.symm⟩
    | cons a as =>
      obtain ⟨rfl, rfl⟩ := List.cons.inj htail
      exact .inr ⟨as, hpart, rfl⟩
  · exact .inl hbs

/-- **Texts joined by a line feed** are divided into lexemes exactly when each of them is.

**Proof sketch.** From left to right by induction on the division. The first lexeme is the line feed
between the texts, or else it is a lexeme of the first text: a lexeme that holds a line feed is one,
and no other can begin before the line feed and end after it. -/
lemma divides_newline_iff {cs cs' : List Char} {fs : List Fragment} :
    Divides (cs ++ '\n' :: cs') fs [] ↔
      ∃ fs₁ fs₂, fs = fs₁ ++ ⟨['\n'], some .newline⟩ :: fs₂ ∧ Divides cs fs₁ [] ∧
        Divides cs' fs₂ [] := by
  constructor
  · intro h
    generalize htext : cs ++ '\n' :: cs' = text at h
    generalize hrest : ([] : List Char) = rest at h
    induction h generalizing cs with
    | nil =>
      subst hrest
      simp at htext
    | @cons f tail rest fs hf hfs ih =>
      subst hrest
      rcases split_at_newline htext with ⟨bs, rfl, rfl⟩ | ⟨as, hchars, rfl⟩
      · obtain ⟨fs₁, fs₂, rfl, hfs₁, hfs₂⟩ := ih rfl rfl
        exact ⟨f :: fs₁, fs₂, rfl, .cons (Fragment.IsLexeme.newline_iff.1 hf) hfs₁, hfs₂⟩
      · rcases hf.eq_newline_or_notMem with rfl | hline
        · obtain ⟨rfl, rfl⟩ : cs = [] ∧ as = [] := by
            have hlength := congrArg List.length hchars
            simp only [List.length_append, List.length_cons, List.length_nil] at hlength
            exact ⟨List.eq_nil_of_length_eq_zero (by omega),
              List.eq_nil_of_length_eq_zero (by omega)⟩
          exact ⟨[], fs, rfl, .nil, hfs⟩
        · rw [hchars] at hline
          simp at hline
  · rintro ⟨fs₁, fs₂, rfl, hfs₁, hfs₂⟩
    have hnewline : Divides ('\n' :: cs') (⟨['\n'], some .newline⟩ :: fs₂) [] :=
      .cons .newline hfs₂
    exact (hfs₁.before_newline cs').append hnewline

/-! ## Places -/

/-- A token some lines further down. -/
def Token.down (lines : Nat) (t : Token) : Token := { t with line := t.line + lines }

/-- The last line does not depend on what is before a line feed. -/
lemma lastLine_append_newline (cs before : List Char) :
    lastLine (cs ++ '\n' :: before) = lastLine before := by
  have hstop : ∀ xs ys : List Char, (xs ++ '\n' :: ys).takeWhile (· != '\n') =
      xs.takeWhile (· != '\n') := by
    intro xs ys
    induction xs with
    | nil => rfl
    | cons x xs ih => simp only [List.cons_append, List.takeWhile_cons, ih]
  rw [lastLine, lastLine, List.reverse_append, List.reverse_cons, List.append_assoc,
    List.singleton_append, hstop]

/-- A place after a line feed is a place in what follows the line feed, on a later line. -/
lemma tokenAfter_newline (file : String) (cs before : List Char) (kind : Token.Kind) :
    tokenAfter file (cs ++ '\n' :: before) kind =
      (tokenAfter file before kind).down (lineAfter cs) := by
  have hline : lineAfter (cs ++ '\n' :: before) = lineAfter before + lineAfter cs := by
    simp only [lineAfter, List.count_append, List.count_cons_self]
    omega
  simp only [tokenAfter, Token.down, columnAfter, hline, lastLine_append_newline]

namespace Fragment

/-- The tokens of fragments after others come after theirs. -/
lemma tokens_append (file : String) (before : List Char) (fs fs' : List Fragment) :
    tokens file before (fs ++ fs') =
      tokens file before fs ++ tokens file (before ++ fs.flatMap chars) fs' := by
  induction fs generalizing before with
  | nil => simp [tokens]
  | cons f fs ih => simp [tokens, ih]

/-- **The tokens after a line feed** are those of a text of its own, moved down. -/
lemma tokens_newline (file : String) (cs before : List Char) (fs : List Fragment) :
    tokens file (cs ++ '\n' :: before) fs =
      (tokens file before fs).map (Token.down (lineAfter cs)) := by
  induction fs generalizing before with
  | nil => rfl
  | cons f fs ih =>
    have hrest := ih (before ++ f.chars)
    rw [tokens, tokens, List.append_assoc, List.cons_append, hrest, List.map_append]
    cases f.kind <;> simp [tokenAfter_newline]

/-- **The tokens of texts joined by a line feed**, with the end mark: those of the first text, a
line end, and those of the second one moved down. -/
lemma tokens_join {cs : List Char} {fs : List Fragment} (h : Divides cs fs []) (file : String)
    (cs' : List Char) (fs' : List Fragment) :
    tokens file [] (fs ++ ⟨['\n'], some .newline⟩ :: fs') ++
        [tokenAfter file (cs ++ '\n' :: cs') .eof] =
      tokens file [] fs ++ tokenAfter file cs .newline ::
        (tokens file [] fs' ++ [tokenAfter file cs' .eof]).map (Token.down (lineAfter cs)) := by
  have hchars : fs.flatMap chars = cs := by rw [h.eq_append, List.append_nil]
  rw [tokens_append, List.nil_append, hchars, tokens, tokens_newline, tokenAfter_newline]
  simp

end Fragment

end Asm8080
