import Asm8080.Proofs.Assembly.Retexting
import Asm8080.Proofs.Token.Tracking

/-!
# Line ends

A line ends with a line feed. A carriage return before the line feed is a separator, or the last
character of a comment, so it makes no difference whether lines end with a line feed or with a
carriage return and a line feed. Only the columns of line ends are affected, and with them the
columns of some diagnostics, which say that something is missing at the end of a line. A character
literal that the end of the line cuts off is a fault either way, though not the same one.

## Main definitions

* `Asm8080.Returned` — a text with a carriage return before some of its line feeds.
* `Asm8080.Text.withReturns` — a text with a carriage return before each of its line feeds.

## Main results

* `Asm8080.tracks_returned` — such texts are read side by side.
* `Asm8080.Workbench.agrees_of_returned` — such texts are assembled alike.
* `Asm8080.Workbench.assemble_withReturns` — the same for a carriage return before each line feed.
-/

set_option autoImplicit false

namespace Asm8080

/-- No character literal has too many digits: it has a fault with a place. -/
lemma Lexeme.exists_fault_of_character {cs : List Char} {m : Misread}
    (hm : character cs = .error m) : ∃ cause offset consumed, m = .fault cause offset consumed := by
  revert hm
  fun_cases character cs with
  | case5 => rintro ⟨⟩
  | _ =>
    rintro ⟨⟩
    exact ⟨_, _, _, rfl⟩

/-! ## Carriage returns before line feeds -/

/-- A text with a carriage return before some of its line feeds. -/
inductive Returned : List Char → List Char → Prop
  | nil : Returned [] []
  | char (c : Char) {cs cs' : List Char} (h : Returned cs cs') : Returned (c :: cs) (c :: cs')
  | feed {cs cs' : List Char} (h : Returned cs cs') : Returned ('\n' :: cs) ('\r' :: '\n' :: cs')

namespace Returned

variable {c : Char} {cs cs' rest : List Char}

/-- No carriage return is put before a character that is no line feed. -/
lemma of_ne (hc : c ≠ '\n') (h : Returned (c :: cs) cs') :
    ∃ tail', cs' = c :: tail' ∧ Returned cs tail' := by
  cases h with
  | char _ h => exact ⟨_, rfl, h⟩
  | feed => exact absurd rfl hc

/-- No carriage return is put before any of several characters that are no line feeds. -/
lemma of_run {xs : List Char} (hxs : '\n' ∉ xs) (h : Returned (xs ++ rest) cs') :
    ∃ rest', cs' = xs ++ rest' ∧ Returned rest rest' := by
  induction xs generalizing cs' with
  | nil => exact ⟨cs', rfl, h⟩
  | cons x xs ih =>
    obtain ⟨hx, hxs⟩ := List.ne_and_not_mem_of_not_mem_cons hxs
    obtain ⟨tail', rfl, htail⟩ := of_ne (Ne.symm hx) h
    obtain ⟨rest', rfl, hrest⟩ := ih hxs htail
    exact ⟨rest', rfl, hrest⟩

/-- The texts begin with the same character, or a carriage return is put before a line feed. -/
lemma head (h : Returned cs cs') : ∀ c ∈ cs'.head?, c ∈ cs.head? ∨ c = '\r' := by
  cases h with
  | nil => exact fun c hc => .inl hc
  | char => exact fun c hc => .inl hc
  | feed =>
    rintro _ ⟨⟩
    exact .inr rfl

/-- A word that ends before the one text ends before the other. -/
lemma wordRun (h : Returned rest cs') {tail : List Char} (htail : WordRun tail rest) :
    WordRun tail cs' := by
  refine ⟨htail.word, fun c hc => ?_⟩
  rcases h.head c hc with hc | rfl
  · exact htail.ends c hc
  · simp [IsWordChar]

/-- What follows a quote that begins no literal has a fault either way. -/
lemma character {m : Misread} (h : Returned cs cs') (hm : Lexeme.character cs = .error m) :
    ∃ cause offset consumed cause' offset' consumed', m = .fault cause offset consumed ∧
      Lexeme.character cs' = .error (.fault cause' offset' consumed') := by
  obtain ⟨cause, offset, consumed, rfl⟩ := Lexeme.exists_fault_of_character hm
  cases hm' : Lexeme.character cs' with
  | error m' =>
    obtain ⟨cause', offset', consumed', rfl⟩ := Lexeme.exists_fault_of_character hm'
    exact ⟨_, _, _, _, _, _, rfl, rfl⟩
  | ok l =>
    -- a literal in the second text is one in the first, since it holds no line feed
    obtain ⟨c, rest', rfl, hline, hwidth, rfl⟩ := Lexeme.character_eq_ok_iff.1 hm'
    cases h with
    | char _ h =>
      cases h with
      | char _ h =>
        cases hm.symm.trans (Lexeme.character_eq_ok_iff.2 ⟨c, _, rfl, hline, hwidth, rfl⟩)

/-- A lexeme is the same before the other text, unless it is a comment. -/
lemma isLexeme (h : Returned rest cs') {f : Fragment} (hf : f.IsLexeme rest) :
    f.IsLexeme cs' ∨ ∃ body, f = ⟨';' :: body, none⟩ ∧ '\n' ∉ body ∧
      ∀ c ∈ rest.head?, c = '\n' := by
  cases hf with
  | separators hne hcs => exact .inl (.separators hne hcs)
  | comment hbody hend => exact .inr ⟨_, rfl, hbody, hend⟩
  | newline => exact .inl .newline
  | name hc htail hkind => exact .inl (.name hc (h.wordRun htail) hkind)
  | number hc htail hvalue => exact .inl (.number hc (h.wordRun htail) hvalue)
  | char hline hwidth => exact .inl (.char hline hwidth)
  | punctuation => exact .inl .punctuation

/-- A lexeme other than a line feed is answered by itself. A comment takes the carriage return that
is put before the line feed after it. -/
lemma lexeme {f : Fragment} (hf : f.IsLexeme rest) (hchars : '\n' ∉ f.chars)
    (h : Returned (f.chars ++ rest) cs') :
    ∃ (f' : Fragment) (rest' : List Char), cs' = f'.chars ++ rest' ∧ f'.IsLexeme rest' ∧
      f.kind = f'.kind ∧ '\n' ∉ f'.chars ∧ Returned rest rest' ∧
      (f'.chars = f.chars ∨ rest.head? = some '\n') := by
  obtain ⟨rest', rfl, hrest⟩ := of_run hchars h
  rcases hrest.isLexeme hf with hf' | ⟨body, rfl, hbody, hend⟩
  · exact ⟨f, rest', rfl, hf', rfl, hchars, hrest, .inl rfl⟩
  · cases hrest with
    | nil => exact ⟨_, [], rfl, .comment hbody hend, rfl, hchars, .nil, .inl rfl⟩
    | char c hrest =>
      exact ⟨_, _, rfl, .comment hbody hend, rfl, hchars, .char c hrest, .inl rfl⟩
    | @feed cs tail' hrest =>
      refine ⟨⟨';' :: (body ++ ['\r']), none⟩, '\n' :: tail', by simp, .comment ?_ (by simp), rfl,
        ?_, .char _ hrest, .inr rfl⟩
      · simpa using hbody
      · simpa using hbody

/-- **Where no lexeme can be read**, none can be read in the other text, and there is the same
fault, or another one, of a character literal. -/
lemma misread {m : Misread} (hm : Lexeme.read c cs = .error m) (h : Returned (c :: cs) cs') :
    ∃ tail' m', cs' = c :: tail' ∧ Lexeme.read c tail' = .error m' ∧
      (m = m' ∨ ∃ cause offset consumed cause' offset' consumed',
        m = .fault cause offset consumed ∧ m' = .fault cause' offset' consumed') := by
  have hline : c ≠ '\n' := by
    rintro rfl
    cases hm
  obtain ⟨tail', rfl, htail⟩ := of_ne hline h
  rcases Lexeme.cases_of_read_error hm with ⟨rfl, hliteral⟩ |
    ⟨hdigit, tail, rest, rfl, hrun, hnumber⟩ | ⟨-, hstart, hdigit, hquote, hmark, rfl⟩
  · obtain ⟨_, _, _, _, _, _, rfl, hread⟩ := htail.character hliteral
    exact ⟨_, _, rfl, hread, .inr ⟨_, _, _, _, _, _, rfl, rfl⟩⟩
  · obtain ⟨hword, -⟩ := wordRun_iff.1 hrun
    have hfree : '\n' ∉ tail := fun hmem => by cases hword _ hmem
    obtain ⟨rest', rfl, hrest⟩ := htail.of_run hfree
    have hread := Lexeme.read_of_isDigit hdigit (hrest.wordRun hrun)
    rw [hnumber] at hread
    exact ⟨_, m, rfl, hread, .inl rfl⟩
  · refine ⟨_, _, rfl, ?_, .inl rfl⟩
    simp only [Lexeme.read, hline, hstart, hdigit, hquote, hmark, if_false, Bool.false_eq_true]

/-- **A line feed** is answered by a line feed, or by a separator and a line feed. After it, both
positions are at the beginning of a line. -/
lemma newline {P : Prop} {before before' : List Char} (h : Returned ('\n' :: rest) cs')
    (hend : EndNear P before before') (keepCase : Bool) :
    ∃ fs' rest', Divides cs' fs' rest' ∧ Returned rest rest' ∧
      EndNear True (before ++ ['\n']) (before' ++ fs'.flatMap Fragment.chars) ∧
      ∀ file, List.Forall₂ (Token.Follows keepCase False) [tokenAfter file before .newline]
        (Fragment.tokens file before' fs') := by
  have htoken : ∀ {before'}, EndNear False before before' → ∀ file,
      Token.Follows keepCase False (tokenAfter file before .newline)
        (tokenAfter file before' .newline) :=
    fun hend file => .inr ⟨rfl, hend.alike (.inl rfl) file⟩
  cases h with
  | @char _ _ rest' hrest =>
    refine ⟨[⟨['\n'], some .newline⟩], rest', .cons .newline .nil, hrest, hend.newline,
      fun file => ?_⟩
    exact .cons (htoken (hend.mono False.elim) file) .nil
  | @feed _ rest' hrest =>
    have hreturn : Fragment.IsLexeme ⟨['\r'], none⟩ ('\n' :: rest') :=
      .separators (by simp) (by simp)
    have hright : EndNear False before (before' ++ ['\r']) := hend.right (by decide)
    refine ⟨[⟨['\r'], none⟩, ⟨['\n'], some .newline⟩], rest',
      .cons hreturn (.cons .newline .nil), hrest, ?_, fun file => ?_⟩
    · have hnext := hright.newline
      rwa [List.append_assoc] at hnext
    · exact .cons (htoken hright file) .nil

end Returned

/-! ## Reading both texts -/

/-- **Texts with carriage returns before line feeds are read side by side.** As long as no line feed
comes next, both positions are in the same column.

**Proof sketch.** By cases on the lexeme. A line feed is answered by a line feed, or by a separator
and a line feed; a comment is answered by one that may hold a carriage return more, and then a line
feed comes next; every other lexeme is answered by itself. -/
lemma tracks_returned (keepCase : Bool) :
    Tracks keepCase False fun before cs before' cs' =>
      Returned cs cs' ∧ EndNear (cs.head? ≠ some '\n') before before' where
  finish := by
    rintro before before' cs' ⟨hcs, hend⟩
    cases hcs
    exact ⟨rfl, hend.mono fun _ => by simp⟩
  lexeme := by
    rintro f before rest before' cs' hf ⟨hcs, hend⟩
    rcases hf.eq_newline_or_notMem with rfl | hchars
    · obtain ⟨fs', rest', hfs', hrest, hnext, htokens⟩ := hcs.newline hend keepCase
      exact ⟨fs', rest', hfs', ⟨hrest, hnext.mono fun _ => trivial⟩, htokens⟩
    · obtain ⟨f', rest', rfl, hf', hkind, hchars', hrest, hsame⟩ := hcs.lexeme hf hchars
      obtain ⟨c, tail, htail⟩ := List.exists_cons_of_ne_nil hf.ne_nil
      have hahead : (f.chars ++ rest).head? ≠ some '\n' := by
        rw [htail]
        rintro ⟨⟩
        exact hchars (htail ▸ List.mem_cons_self)
      have hstart : EndNear True before before' := hend.mono fun _ => hahead
      refine ⟨[f'], rest', .cons hf' .nil, ⟨hrest, ?_⟩, fun file => ?_⟩
      · rw [List.flatMap_singleton]
        rcases hsame with hsame | hfeed
        · rw [hsame]
          exact (hstart.append hchars).mono fun _ => trivial
        · -- the comment took a carriage return, so a line feed is ahead and the column is free
          refine ⟨?_, fun hnone => absurd hfeed hnone⟩
          rw [lineAfter_append hchars, lineAfter_append hchars', hend.line]
      · refine hstart.forall₂_tokens ?_ file
        rw [hkind]
        cases f'.kind with
        | none => exact .none
        | some kind => exact .some (.inl rfl)
  misread := by
    rintro c before cs before' cs' m hsep hcomment hm ⟨hcs, hend⟩
    have hnear : EndNear False before before' := hend.mono False.elim
    obtain ⟨tail', m', rfl, hm', hsame⟩ := hcs.misread hm
    refine ⟨c, tail', m', rfl, hsep, hcomment, hm', fun file => ?_⟩
    rcases hsame with rfl | ⟨_, _, _, _, _, _, rfl, rfl⟩
    · exact hnear.misread_alike _ _ m file
    · exact hnear.failure_alike _ _ _ _ False.elim _ _ file

/-! ## Assembling both texts -/

/-- The characters of a text with a carriage return before each line feed. -/
def Text.withReturns (s : String) : String :=
  String.ofList (s.toList.flatMap fun c => if c = '\n' then ['\r', '\n'] else [c])

/-- A text with a carriage return before each line feed. -/
lemma returned_withReturns (s : String) : Returned s.toList (Text.withReturns s).toList := by
  rw [Text.withReturns, String.toList_ofList]
  induction s.toList with
  | nil => exact .nil
  | cons c cs ih =>
    rw [List.flatMap_cons]
    split_ifs with hc
    · rw [hc]
      exact .feed ih
    · exact .char c ih

namespace Workbench

/-- **Texts with carriage returns before line feeds are assembled alike.** -/
lemma agrees_of_returned (w : Workbench) {source source' : String}
    (h : Returned source.toList source'.toList) (file : String) :
    Run.Agrees False (w.assemble source file) (w.assemble source' file) :=
  agrees_of_tokenize w
    ((tracks_returned w.settings.keepCase).matched_tokenize ⟨h, rfl, fun _ => rfl⟩ file)

/-- **Lines may end with a line feed or with a carriage return and a line feed.** A text is
assembled as it is with a carriage return before each line feed: to the same image, with the same
addresses and the same symbols; or both texts fail, with diagnostics of the same kind on the same
line.

**Proof sketch.** The carriage return is a separator or the end of a comment, so that the tokens of
the texts correspond (`tracks_returned`); only the columns of line ends differ. -/
theorem assemble_withReturns (w : Workbench) (source file : String) :
    Run.Agrees False (w.assemble source file) (w.assemble (Text.withReturns source) file) :=
  w.agrees_of_returned (returned_withReturns source) file

end Workbench

end Asm8080
