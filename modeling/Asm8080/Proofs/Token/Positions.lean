import Asm8080.Proofs.Text.Lines
import Asm8080.Proofs.Token.Joining

/-!
# Places in a source text

A position in a text has a line and a column, which follow from the characters before it: the line
feeds among them, and what comes after the last one. Reading goes from one such position to another,
whether it comes to a token or to a fault, and never leaves the line of a fault. So tokens stand
where their lexemes begin, each after the one before, and a fault is on the line that is shown for
it.

## Main definitions

* `Asm8080.IsPlace` — the line of a position, where it begins, and the column of the position.
* `Asm8080.Cursor.IsAt` — a cursor is at a position, with the line and the column of the position.
* `Asm8080.Token.Before` — the order of tokens by line and column.
* `Asm8080.Failure.PointsInto` — a failure points at a character and shows the line it is on.
* `Asm8080.Cursor.Draws` — the ways in which one token is drawn at a position.

## Main results

* `Asm8080.Cursor.isAt_after` — the position after given characters.
* `Asm8080.Cursor.pairwise_readAll` — the tokens of a text come one after another.
* `Asm8080.Lexeme.read_error_on_line` — a fault is on the line where reading stops.
* `Asm8080.Cursor.exists_draws` — one token is drawn after separators and comments.
-/

set_option autoImplicit false

namespace Asm8080

/-! ## Lines and columns -/

/-- **The place of a position.** The position `pos` of the text `source` is on the line that begins
at the position `start`: at the start of the text or after a line feed, and no line feed is between
the two. The number of the line is that of the line feeds before it, the column is the distance from
the start of the line, both counted from 1. -/
structure IsPlace (source : List Char) (pos start line column : Nat) : Prop where
  inside : pos ≤ source.length
  start_le : start ≤ pos
  begins : start = 0 ∨ source[start - 1]? = some '\n'
  unbroken : '\n' ∉ (source.take pos).drop start
  line_eq : line = 1 + (source.take pos).count '\n'
  column_eq : column = pos - start + 1

/-- A cursor is at the position `pos` of a text, on the line that begins at the position `start`. -/
structure Cursor.IsAt (source : List Char) (pos start : Nat) (c : Cursor) : Prop
    extends IsPlace source pos start c.line c.column where
  rest_eq : c.rest = source.drop pos
  lineStart_eq : c.lineStart = source.drop start

/-- The position at which the last line of a text begins. -/
def lineStartAfter (cs : List Char) : Nat := cs.length - (lastLine cs).length

/-- A text is its last line after lines that end in line feeds. -/
lemma exists_eq_append_lastLine (cs : List Char) :
    ∃ lines, cs = lines ++ lastLine cs ∧ lineStartAfter cs = lines.length ∧
      (∀ c ∈ lines.getLast?, c = '\n') ∧ '\n' ∉ lastLine cs := by
  obtain ⟨line, rest, hcs, htake, hline, hrest⟩ := exists_line cs.reverse
  have hparts : cs = rest.reverse ++ line.reverse := by
    rw [← List.reverse_append, ← hcs, List.reverse_reverse]
  rw [lineStartAfter, lastLine, htake]
  refine ⟨rest.reverse, hparts, ?_, ?_, ?_⟩
  · rw [hparts, List.length_append, Nat.add_sub_cancel]
  · rwa [List.getLast?_reverse]
  · rwa [List.mem_reverse]

/-- The place after the characters `before`. -/
lemma isPlace_after (before rest : List Char) :
    IsPlace (before ++ rest) before.length (lineStartAfter before) (lineAfter before)
      (columnAfter before) := by
  obtain ⟨lines, hbefore, hstart, hlines, hlast⟩ := exists_eq_append_lastLine before
  have hlength : before.length = lines.length + (lastLine before).length := by
    rw [← List.length_append, ← hbefore]
  have htake : (before ++ rest).take before.length = before := List.take_left
  have hdrop : before.drop lines.length = lastLine before := by
    nth_rewrite 1 [hbefore]
    exact List.drop_left
  refine ⟨by simp, by omega, ?_, ?_, ?_, ?_⟩
  · rw [hstart]
    cases hc : lines.getLast? with
    | none =>
      rw [List.getLast?_eq_none_iff.1 hc]
      exact .inl rfl
    | some c =>
      -- the line feed that ends the line above
      rw [hlines c hc, List.getLast?_eq_getElem?] at hc
      have hlt : lines.length - 1 < lines.length := (List.getElem?_eq_some_iff.1 hc).1
      rw [hbefore, List.append_assoc, List.getElem?_append_left hlt]
      exact .inr hc
  · rwa [htake, hstart, hdrop]
  · rw [htake, lineAfter]
  · rw [columnAfter, hstart]
    omega

/-- **The position after given characters** is described by what a cursor holds there. -/
lemma Cursor.isAt_after (before rest : List Char) :
    (after before rest).IsAt (before ++ rest) before.length (lineStartAfter before) := by
  obtain ⟨lines, hbefore, hstart, -, -⟩ := exists_eq_append_lastLine before
  refine ⟨isPlace_after before rest, by simp [after], ?_⟩
  rw [hstart]
  nth_rewrite 2 [hbefore]
  rw [List.append_assoc, List.drop_left]
  rfl

/-- The line between line feeds on which a position is. -/
lemma feedLine_after (before rest : List Char) :
    (Text.feedLines (before ++ rest))[before.count '\n']? =
      some (lastLine before ++ rest.takeWhile (· != '\n')) := by
  induction before using Text.feedLines_induction with
  | last l hl =>
    have hlast : lastLine l = l := lastLine_append hl []
    obtain ⟨line, rest, rfl, htake, hline, hrest⟩ := exists_line rest
    have hjoined : '\n' ∉ l ++ line := by simp [hl, hline]
    rw [hlast, htake, List.count_eq_zero.2 hl, ← List.append_assoc]
    cases rest with
    | nil => rw [List.append_nil, Text.feedLines_of_notMem hjoined, List.getElem?_cons_zero]
    | cons c rest =>
      rw [hrest c rfl, Text.feedLines_append hjoined, List.getElem?_cons_zero]
  | cons l before hl ih =>
    rw [List.append_assoc, List.cons_append, Text.feedLines_append hl, lastLine_append_newline,
      List.count_append, List.count_eq_zero.2 hl, List.count_cons_self, Nat.zero_add,
      List.getElem?_cons_succ, ih]

/-! ## The order of tokens -/

/-- A token comes before another one: on an earlier line, or further left on the same line. -/
def Token.Before (t t' : Token) : Prop :=
  t.line < t'.line ∨ t.line = t'.line ∧ t.column < t'.column

/-- What comes after more characters comes later. -/
lemma tokenAfter_before {cs : List Char} (hcs : cs ≠ []) (file : String) (before : List Char)
    (kind kind' : Token.Kind) :
    (tokenAfter file before kind).Before (tokenAfter file (before ++ cs) kind') := by
  by_cases hline : '\n' ∈ cs
  · left
    have hcount := List.count_pos_iff.2 hline
    simp only [tokenAfter, lineAfter, List.count_append]
    omega
  · right
    have hlength := List.length_pos_of_ne_nil hcs
    simp only [tokenAfter, lineAfter_append hline, columnAfter, lastLine_append hline,
      List.length_append, true_and]
    omega

/-- The tokens of fragments and one after them come after the characters before the first one. -/
lemma Fragment.exists_of_mem_tokens {file : String} {before : List Char} {fs : List Fragment}
    {kind : Token.Kind} {t : Token}
    (h : t ∈ tokens file before fs ++ [tokenAfter file (before ++ fs.flatMap chars) kind]) :
    ∃ more kind', t = tokenAfter file (before ++ more) kind' := by
  induction fs generalizing before with
  | nil => exact ⟨_, _, List.mem_singleton.1 h⟩
  | cons f fs ih =>
    rw [tokens, List.append_assoc, List.mem_append, List.flatMap_cons, ← List.append_assoc] at h
    rcases h with h | h
    · obtain ⟨kind', -, rfl⟩ := Option.map_eq_some_iff.1 (Option.mem_toList.1 h)
      exact ⟨[], kind', by rw [List.append_nil]⟩
    · obtain ⟨more, kind', rfl⟩ := ih h
      exact ⟨f.chars ++ more, kind', by rw [List.append_assoc]⟩

/-- The tokens of lexemes come one after another, and before one that comes after all of them. -/
lemma Divides.pairwise_before {cs rest : List Char} {fs : List Fragment} (h : Divides cs fs rest)
    (file : String) (before : List Char) (kind : Token.Kind) :
    (Fragment.tokens file before fs ++
      [tokenAfter file (before ++ fs.flatMap Fragment.chars) kind]).Pairwise Token.Before := by
  induction h generalizing before with
  | nil => exact List.pairwise_singleton _ _
  | @cons f cs rest fs hf _ ih =>
    have ih := ih (before ++ f.chars)
    rw [Fragment.tokens, List.append_assoc, List.flatMap_cons, ← List.append_assoc before]
    cases f.kind with
    | none => exact ih
    | some kind' =>
      refine List.pairwise_cons.2 ⟨fun t ht => ?_, ih⟩
      obtain ⟨more, kind'', rfl⟩ := Fragment.exists_of_mem_tokens ht
      rw [List.append_assoc]
      exact tokenAfter_before (List.append_ne_nil_of_left_ne_nil hf.ne_nil more) file before _ _

/-- **The tokens of a text come one after another**, up to the end or the first failure. -/
lemma Cursor.pairwise_readAll (source : List Char) (file : String) :
    ((start source).readAll file).tokens.Pairwise Token.Before := by
  obtain ⟨fs, rest, hfs, hstuck⟩ := exists_divides source
  have hpairwise := hfs.pairwise_before file [] .eof
  rw [readAll, start_eq_after, readAllFrom_divides hfs, List.append_nil]
  cases rest with
  | nil =>
    rw [readAllFrom_nil rfl, List.reverse_reverse]
    exact hpairwise
  | cons c cs =>
    obtain ⟨hsep, hcomment, m, hm⟩ := hstuck c cs rfl
    rw [readAllFrom_cons rfl hsep hcomment, hm, List.reverse_reverse]
    exact (List.pairwise_append.1 hpairwise).1

/-! ## Faults -/

/-- The distance from the first character at which a fault is shown. -/
def Misread.offset : Misread → Nat
  | fault _ offset _ => offset
  | tooManyDigits _ _ => 0

namespace Lexeme

/-- A number literal at fault is read to its end, and the fault is in it. -/
lemma number_error {literal : List Char} {m : Misread} (hne : literal ≠ [])
    (h : number literal = .error m) :
    m.consumed = literal.length ∧ m.offset < literal.length := by
  obtain ⟨⟨radix, digits⟩, hsplit⟩ : ∃ parts, splitRadix literal = parts := ⟨_, rfl⟩
  have hdigits : digits.length ≤ literal.length := by
    unfold splitRadix at hsplit
    split at hsplit <;> cases hsplit
    · rw [List.length_dropLast]
      omega
    · exact Nat.le_refl _
  rw [number, hsplit] at h
  cases hoffset : digits.findIdx? (fun c => (radix.digit? c).isNone) with
  | some offset =>
    simp only [hoffset] at h
    cases h
    have hlt : offset < digits.length := (List.findIdx?_eq_some_iff_getElem.1 hoffset).1
    exact ⟨rfl, by simp only [Misread.offset]; omega⟩
  | none =>
    simp only [hoffset] at h
    split_ifs at h
    cases h
    exact ⟨rfl, List.length_pos_of_ne_nil hne⟩

/-- A character literal at fault is read up to the end of the line at most, and the fault is
there. -/
lemma character_error {cs : List Char} {m : Misread} (h : character cs = .error m) :
    ∃ run rest, '\'' :: cs = run ++ rest ∧ '\n' ∉ run ∧ m.consumed ≤ run.length ∧
      m.offset < run.length := by
  have hquote : '\n' ∉ ['\''] := by decide
  cases cs with
  | nil =>
    cases h
    exact ⟨['\''], [], rfl, hquote, Nat.le_refl 1, Nat.zero_lt_one⟩
  | cons c cs =>
    by_cases hc : c = '\n'
    · simp only [character, hc, if_true] at h
      cases h
      exact ⟨['\''], c :: cs, rfl, hquote, Nat.le_refl 1, Nat.zero_lt_one⟩
    · have hone : '\n' ∉ ['\'', c] := by simpa using Ne.symm hc
      simp only [character, hc, if_false] at h
      cases cs with
      | nil =>
        cases h
        exact ⟨['\'', c], [], rfl, hone, Nat.le_refl 2, Nat.zero_lt_two⟩
      | cons d rest =>
        simp only at h
        split_ifs at h with hd hwide hline
        · cases h
          refine ⟨['\'', c, d], rest, rfl, ?_, Nat.le_refl 3, by simp [Misread.offset]⟩
          simpa [hd] using Ne.symm hc
        · cases h
          exact ⟨['\'', c], d :: rest, rfl, hone, Nat.le_refl 2, Nat.zero_lt_two⟩
        · cases h
          refine ⟨['\'', c, d], rest, rfl, ?_, Nat.le_succ 2, Nat.lt_succ_self 2⟩
          simpa using ⟨Ne.symm hc, Ne.symm hline⟩

/-- **A fault is on the line where reading stops**: no line feed comes before the fault or before
the position at which reading stops. -/
lemma read_error_on_line {c : Char} {cs : List Char} {m : Misread} (h : read c cs = .error m) :
    ∃ run rest, c :: cs = run ++ rest ∧ '\n' ∉ run ∧ m.consumed ≤ run.length ∧
      m.offset < run.length := by
  rcases cases_of_read_error h with ⟨rfl, hchar⟩ | ⟨hdigit, tail, rest, rfl, htail, hnumber⟩ |
    ⟨hline, -, -, -, -, rfl⟩
  · exact character_error hchar
  · obtain ⟨hconsumed, hoffset⟩ := number_error (List.cons_ne_nil _ _) hnumber
    refine ⟨c :: tail, rest, rfl, ?_, Nat.le_of_eq hconsumed, hoffset⟩
    have hall : ∀ d ∈ c :: tail, isNameChar d = true :=
      List.forall_mem_cons.2 ⟨Lexes.isNameChar_of_isDigit hdigit, (wordRun_iff.1 htail).1⟩
    intro hmem
    cases hall _ hmem
  · exact ⟨[c], cs, rfl, by simpa using Ne.symm hline, Nat.zero_le _, Nat.zero_lt_one⟩

end Lexeme

/-- **A failure points at a character of the source**: the text that is shown is the line with the
number that is given, between line feeds, and the line has a character at the column. Only the
failure to convert a number with too many digits has no place. -/
inductive Failure.PointsInto (source : List Char) (file : String) : Failure → Prop
  | fault {cause : LexFault} {line column : Nat} {text : List Char}
      (hline : (Text.feedLines source)[line]? = some text) (hcolumn : column < text.length) :
      PointsInto source file (.diagnostic ⟨.lex cause,
        some ⟨file, (line + 1 : Nat), (column + 1 : Nat)⟩, some (String.ofList text)⟩)
  | tooManyDigits {count : Nat} : PointsInto source file (.integer (.tooLongToRead count))

/-- The failure where no lexeme can be read points at a character. -/
lemma Cursor.pointsInto_failure {c : Char} {cs : List Char} {m : Misread}
    (h : Lexeme.read c cs = .error m) (file : String) (before : List Char) :
    ((after before (c :: cs)).failure file m).PointsInto (before ++ c :: cs) file := by
  cases m with
  | tooManyDigits count consumed => exact .tooManyDigits
  | fault cause offset consumed =>
    obtain ⟨run, rest, hcs, hrun, -, hoffset⟩ := Lexeme.read_error_on_line h
    obtain ⟨-, -, -, -, hlast⟩ := exists_eq_append_lastLine before
    have hplain : ∀ {l : List Char}, '\n' ∉ l → ∀ d ∈ l, (d != '\n') = true :=
      fun hl d hd => bne_iff_ne.2 (ne_of_mem_of_not_mem hd hl)
    have htext : (lastLine before ++ c :: cs).takeWhile (· != '\n') =
        lastLine before ++ (c :: cs).takeWhile (· != '\n') :=
      List.takeWhile_append_of_pos (hplain hlast)
    have hlength : offset < ((c :: cs).takeWhile (· != '\n')).length := by
      rw [hcs, List.takeWhile_append_of_pos (hplain hrun), List.length_append]
      exact Nat.lt_add_right _ hoffset
    have hcolumn : (lastLine before).length + offset <
        (lastLine before ++ (c :: cs).takeWhile (· != '\n')).length := by
      rw [List.length_append]
      omega
    have hfailure : (after before (c :: cs)).failure file (.fault cause offset consumed) =
        .diagnostic ⟨.lex cause, some ⟨file, (before.count '\n' + 1 : Nat),
          ((lastLine before).length + offset + 1 : Nat)⟩,
          some (String.ofList (lastLine before ++ (c :: cs).takeWhile (· != '\n')))⟩ := by
      simp only [failure, currentLine, after, htext, lineAfter, columnAfter]
      congr 4 <;> omega
    rw [hfailure]
    exact .fault (feedLine_after before (c :: cs)) hcolumn

/-! ## One token -/

namespace Cursor

/-- **The ways in which one token is drawn** after the characters `here`, where separators and
comments have been passed over: an end mark at the end of the text, the token of a lexeme, which is
passed, or a failure where no lexeme can be read, after which reading has come a bit further. -/
inductive Draws (file : String) (here : List Char) :
    List Char → Cursor × Except Failure Token → Prop
  | finish : Draws file here [] (after here [], .ok (tokenAfter file here .eof))
  | token {lexeme rest : List Char} {kind : Token.Kind}
      (h : Fragment.IsLexeme ⟨lexeme, some kind⟩ rest) :
      Draws file here (lexeme ++ rest)
        (after (here ++ lexeme) rest, .ok (tokenAfter file here kind))
  | fault {c : Char} {cs read rest : List Char} {m : Misread} (hm : Lexeme.read c cs = .error m)
      (hread : c :: cs = read ++ rest) :
      Draws file here (c :: cs)
        (after (here ++ read) rest, .error ((after here (c :: cs)).failure file m))

/-- Moving on within a line. -/
lemma skip_after_of_le {run : List Char} (hrun : '\n' ∉ run) {n : Nat} (hn : n ≤ run.length)
    (before rest : List Char) :
    (after before (run ++ rest)).skip n = after (before ++ run.take n) (run.drop n ++ rest) := by
  have htake : '\n' ∉ run.take n := fun hmem => hrun (List.mem_of_mem_take hmem)
  have hskip := skip_after htake before (run.drop n ++ rest)
  rwa [← List.append_assoc, List.take_append_drop, List.length_take_of_le hn] at hskip

/-- Separators and comments are passed over, up to something else. -/
lemma exists_skipIgnored (before cs : List Char) :
    ∃ fs rest, Divides cs fs rest ∧ (∀ f ∈ fs, f.kind = none) ∧
      (after before cs).skipIgnored = after (before ++ fs.flatMap Fragment.chars) rest := by
  induction cs generalizing before with
  | nil => exact ⟨[], [], .nil, by simp, by rw [skipIgnored_eq_self (by simp [after])]; simp⟩
  | cons c cs ih =>
    by_cases hsep : isSeparator c = true
    · obtain ⟨fs, rest, hfs, hnone, hskip⟩ := ih (before ++ [c])
      have hlexeme : Fragment.IsLexeme ⟨[c], none⟩ cs :=
        .separators (by simp) (List.forall_mem_singleton.2 (isSeparator_iff.1 hsep))
      refine ⟨⟨[c], none⟩ :: fs, rest, .cons hlexeme hfs, List.forall_mem_cons.2 ⟨rfl, hnone⟩, ?_⟩
      have hpass := skipIgnored_separators (List.forall_mem_singleton.2 hsep) before cs
      rw [List.flatMap_cons, ← List.append_assoc]
      exact hpass.trans hskip
    by_cases hcomment : c = ';'
    · obtain ⟨body, rest, rfl, -, hbody, hrest⟩ := exists_line cs
      subst hcomment
      refine ⟨[⟨';' :: body, none⟩], rest, .cons (.comment hbody hrest) .nil, by simp, ?_⟩
      rw [List.flatMap_singleton]
      exact skipIgnored_comment hbody hrest before
    · refine ⟨[], c :: cs, .nil, by simp, ?_⟩
      rw [skipIgnored_eq_self (by simp [after, hsep, hcomment]), List.flatMap_nil, List.append_nil]

/-- **One token is drawn after separators and comments.** -/
lemma exists_draws (file : String) (before cs : List Char) :
    ∃ fs here rest, Divides cs fs rest ∧ (∀ f ∈ fs, f.kind = none) ∧
      before ++ cs = here ++ rest ∧ Draws file here rest ((after before cs).next file) := by
  obtain ⟨fs, rest, hfs, hnone, hskip⟩ := exists_skipIgnored before cs
  have hsource : before ++ cs = before ++ fs.flatMap Fragment.chars ++ rest := by
    rw [List.append_assoc, ← hfs.eq_append]
  refine ⟨fs, _, rest, hfs, hnone, hsource, ?_⟩
  generalize before ++ fs.flatMap Fragment.chars = here at hskip
  have hahead : (after here rest).rest = rest := rfl
  rw [next, hskip]
  simp only [hahead]
  cases rest with
  | nil => exact .finish
  | cons c cs =>
    cases hread : Lexeme.read c cs with
    | ok l =>
      have hlexeme := Lexeme.isLexeme_of_read hread
      have hl := Lexeme.read_of_isLexeme hlexeme
      rw [List.take_append_drop, hread] at hl
      have hpast := past_after hlexeme here
      rw [← Except.ok.inj hl, List.cons_append, List.take_append_drop] at hpast
      have hdraws : Draws file here (c :: cs.take l.more ++ cs.drop l.more) _ := .token hlexeme
      rw [List.cons_append, List.take_append_drop] at hdraws
      simp only [hread, hpast]
      exact hdraws
    | error m =>
      obtain ⟨run, rest, hcs, hrun, hconsumed, -⟩ := Lexeme.read_error_on_line hread
      have hstop := skip_after_of_le hrun hconsumed here rest
      rw [← hcs] at hstop
      simp only [hread, hstop]
      refine .fault hread ?_
      rw [hcs, ← List.append_assoc, List.take_append_drop]

end Cursor

/-- **A token is drawn from a source** at the position `pos`. From the position `c` on, only
separators and comments come before it. An end mark is drawn at the end of the source, any other
token with a lexeme that begins at `pos`. The token has the line and the column of `pos`, and the
position afterwards is the one after the lexeme. -/
structure Token.DrawnAt (source : List Char) (file : String) (c c' : Cursor) (t : Token)
    (pos : Nat) : Prop where
  file_eq : t.file = file
  place : ∃ start, IsPlace source pos start t.line t.column
  ignored : ∃ fs, Divides c.rest fs (source.drop pos) ∧ ∀ f ∈ fs, f.kind = none
  lexeme : (t.kind = .eof ∧ pos = source.length ∧ ∃ start, c'.IsAt source pos start) ∨
    ∃ lexeme rest start, source.drop pos = lexeme ++ rest ∧
      Fragment.IsLexeme ⟨lexeme, some t.kind⟩ rest ∧ c'.IsAt source (pos + lexeme.length) start

namespace Cursor

variable {file : String} {before cs : List Char} {c : Cursor}

/-- Drawing a token leads from one position in a text to another. -/
lemma exists_next_eq_after (file : String) (before cs : List Char) :
    ∃ before' cs', before ++ cs = before' ++ cs' ∧
      ((after before cs).next file).1 = after before' cs' := by
  obtain ⟨fs, here, rest, -, -, hsource, hdraws⟩ := exists_draws file before cs
  rw [hsource]
  generalize (after before cs).next file = drawn at hdraws
  cases hdraws with
  | finish => exact ⟨here, [], rfl, rfl⟩
  | token => exact ⟨_, _, (List.append_assoc _ _ _).symm, rfl⟩
  | fault _ hread => exact ⟨_, _, by rw [hread, List.append_assoc], rfl⟩

/-- **A token that is drawn stands where its lexeme begins.** -/
lemma exists_drawnAt {t : Token} (h : (after before cs).next file = (c, .ok t)) :
    ∃ pos, t.DrawnAt (before ++ cs) file (after before cs) c pos := by
  obtain ⟨fs, here, rest, hfs, hnone, hsource, hdraws⟩ := exists_draws file before cs
  rw [h] at hdraws
  rw [hsource]
  have hignored : Divides cs fs ((here ++ rest).drop here.length) := by rwa [List.drop_left]
  cases hdraws with
  | finish =>
    refine ⟨here.length, rfl, ⟨_, isPlace_after here []⟩, ⟨fs, hignored, hnone⟩, .inl ⟨rfl, ?_, ?_⟩⟩
    · rw [List.append_nil]
    · exact ⟨_, isAt_after here []⟩
  | @token lexeme rest kind hlexeme =>
    have hat := isAt_after (here ++ lexeme) rest
    rw [List.append_assoc, List.length_append] at hat
    exact ⟨here.length, rfl, ⟨_, isPlace_after here _⟩, ⟨fs, hignored, hnone⟩,
      .inr ⟨lexeme, rest, _, List.drop_left, hlexeme, hat⟩⟩

/-- **A failure to draw a token points at a character.** -/
lemma pointsInto_of_next {f : Failure} (h : (after before cs).next file = (c, .error f)) :
    f.PointsInto (before ++ cs) file := by
  obtain ⟨fs, here, rest, -, -, hsource, hdraws⟩ := exists_draws file before cs
  rw [h] at hdraws
  rw [hsource]
  cases hdraws with
  | fault hm => exact pointsInto_failure hm file here

end Cursor

end Asm8080
