import Asm8080.Proofs.Assembly.Names

/-!
# Reserved words are never bound

No name of an assembled program is a reserved word. A line that would bind one, because it begins
with a reserved word and a colon or the directive `DB`, `DW` or `EQU`, is a mistake of grammar. Only
the colon is looked for on purpose. With a directive after it, the reserved word begins a statement,
and each kind of statement meets the directive in its own way: as something that begins no
expression or no operand, or as more than the statement should have.

## Main definitions

* `Asm8080.Token.Kind.binders` — the tokens that bind the name before them.
* `Asm8080.BindsReserved` — a text begins with a reserved word that would be bound.

## Main results

* `Asm8080.Line.read_of_reserved` — a line that would bind a reserved word is a mistake.
* `Asm8080.Line.readAllFrom_append` — lines are read one after another.
* `Asm8080.Statement.readSource_of_bindsReserved` — a text fails on its first line of this kind.
* `Asm8080.Workbench.reservedWords_unbound` — reserved words are never bound.
-/

set_option autoImplicit false

namespace Asm8080

open Statement (Context)

/-! ## Lines that would bind a reserved word -/

/-- The tokens that bind the name before them. -/
def Token.Kind.binders : List Token.Kind :=
  [.punctuation .colon, .keyword .db, .keyword .dw, .keyword .equ]

/-- **A text begins with a reserved word that would be bound**: after separators there is a reserved
word, in any letter case, and then a colon or the directive `DB`, `DW` or `EQU`. -/
inductive BindsReserved : List Char → Prop
  | colon {indent word gap rest : List Char}
      (hindent : ∀ c ∈ indent, c ∈ [' ', '\t', '\r'])
      (hword : Text.upper (String.ofList word) ∈ reservedWords)
      (hgap : ∀ c ∈ gap, c ∈ [' ', '\t', '\r']) :
      BindsReserved (indent ++ (word ++ (gap ++ ':' :: rest)))
  | directive {indent word gap mark rest : List Char}
      (hindent : ∀ c ∈ indent, c ∈ [' ', '\t', '\r'])
      (hword : Text.upper (String.ofList word) ∈ reservedWords)
      (hgap : ∀ c ∈ gap, c ∈ [' ', '\t', '\r']) (hne : gap ≠ [])
      (hmark : Text.upper (String.ofList mark) ∈ ["DB", "DW", "EQU"])
      (hends : ∀ c ∈ rest.head?, ¬IsWordChar c) :
      BindsReserved (indent ++ (word ++ (gap ++ (mark ++ rest))))

/-! ## One line -/

namespace Line

variable {ctx : Context} {ending t u : Token} {ts : List Token}

/-- A token that binds a name begins no expression and ends no line. -/
lemma plain_of_binder {kind : Token.Kind} (h : kind ∈ Token.Kind.binders) :
    kind.startsExpression = false ∧ kind.isLineEnd = false := by
  have hall : ∀ kind ∈ Token.Kind.binders,
      kind.startsExpression = false ∧ kind.isLineEnd = false := by decide
  exact hall kind h

/-- No expression begins with a token that binds a name. -/
lemma readExpression_of_binder (hu : u.kind ∈ Token.Kind.binders) :
    readExpression ctx ending (u :: ts) = .error (ctx.fault u (.expectedExpression u.kind)) := by
  obtain ⟨hstarts, hend⟩ := plain_of_binder hu
  simp only [readExpression, List.headD_cons, hstarts, hend, Bool.false_eq_true, if_false]

/-- No operand begins with a token that binds a name. -/
lemma readOperands_of_binder (hu : u.kind ∈ Token.Kind.binders) (m : Mnemonic) (left : Nat) :
    readOperands ctx ending m (left + 1) (left + 1) (u :: ts) =
      .error (ctx.fault u (.unexpectedInOperand u.kind)) := by
  have hoperand : ∀ count, readOperand ctx ending m 0 count (u :: ts) =
      .error (ctx.fault u (.unexpectedInOperand u.kind)) := by
    intro count
    obtain ⟨hstarts, hend⟩ := plain_of_binder hu
    simp only [Token.Kind.binders, List.mem_cons, List.not_mem_nil, or_false] at hu
    rcases hu with hu | hu | hu | hu <;>
      simp only [hu] at hstarts hend <;>
      simp only [readOperand, List.headD_cons, hu, hstarts, hend, Bool.false_eq_true, if_false]
  simp only [readOperands, Nat.sub_self, readComma, if_true, bind, Except.bind, hoperand]

/-- A mnemonic that takes no operands has a row of the table of its own. -/
lemma exists_select?_nil {m : Mnemonic} (h : Encoding.operandCount m = 0) :
    ∃ encoding, Encoding.select? m [] = some encoding := by
  have hall : ∀ m ∈ Mnemonic.all, Encoding.operandCount m = 0 →
      (Encoding.select? m []).isSome = true := by decide +kernel
  exact Option.isSome_iff_exists.1 (hall m m.mem_all h)

/-- An instruction before a token that binds a name: either the token is taken for an operand, or it
is left over. -/
lemma readInstruction_of_binder (hu : u.kind ∈ Token.Kind.binders) (m : Mnemonic) :
    (∃ s, readInstruction ctx ending t m (u :: ts) = .ok (s, u :: ts)) ∨
      readInstruction ctx ending t m (u :: ts) =
        .error (ctx.fault u (.unexpectedInOperand u.kind)) := by
  cases hcount : Encoding.operandCount m with
  | zero =>
    obtain ⟨encoding, hencoding⟩ := exists_select?_nil hcount
    refine .inl ⟨ctx.statement t (.instruction encoding []), ?_⟩
    simp only [readInstruction, hcount, readOperands, bind, Except.bind, List.map_nil, hencoding]
    rfl
  | succ left =>
    right
    simp only [readInstruction, hcount, readOperands_of_binder hu, bind, Except.bind]

/-- **A statement that begins with a reserved word** before a token that binds a name is a mistake,
or leaves that token over. -/
lemma readStatement_of_reserved (ht : t.kind.isReserved = true)
    (hu : u.kind ∈ Token.Kind.binders) :
    (∃ s, readStatement ctx ending t (u :: ts) = .ok (s, u :: ts)) ∨
      ∃ place ∈ [t, u], ∃ fault,
        readStatement ctx ending t (u :: ts) = .error (ctx.fault place fault) := by
  have hfirst : t ∈ [t, u] := List.mem_cons_self
  have hsecond : u ∈ [t, u] := List.mem_cons_of_mem _ List.mem_cons_self
  cases hkind : t.kind with
  | mnemonic m =>
    simp only [readStatement, hkind]
    rcases readInstruction_of_binder hu m with h | h
    · exact .inl h
    · exact .inr ⟨u, hsecond, _, h⟩
  | register r => exact .inr ⟨t, hfirst, .unexpected t.kind, by simp only [readStatement, hkind]⟩
  | keyword k =>
    right
    cases k with
    | org | db | dw =>
      refine ⟨u, hsecond, .expectedExpression u.kind, ?_⟩
      simp only [readStatement, hkind, readExpression_of_binder hu, bind, Except.bind]
    | equ => exact ⟨t, hfirst, .equateWithoutName, by simp only [readStatement, hkind]⟩
    | mod | shl | shr | and | or | xor | not =>
      exact ⟨t, hfirst, .unexpected t.kind, by simp only [readStatement, hkind]⟩
  | newline | eof | identifier | number | char | punctuation =>
    rw [hkind] at ht
    cases ht

/-- A reserved word before a token that binds a name is no statement. -/
lemma readRest_of_reserved (ht : t.kind.isReserved = true) (hu : u.kind ∈ Token.Kind.binders) :
    ∃ place ∈ [t, u], ∃ fault,
      readRest ctx ending (t :: u :: ts) = .error (ctx.fault place fault) := by
  rcases @readStatement_of_reserved ctx ending t u ts ht hu with
    ⟨s, hs⟩ | ⟨place, hplace, fault, hfault⟩
  · have hparen : u.kind ≠ .punctuation .rparen := by
      rintro hparen
      rw [hparen] at hu
      exact absurd hu (by decide)
    refine ⟨u, List.mem_cons_of_mem _ List.mem_cons_self, .afterStatement u.kind, ?_⟩
    simp only [readRest, hs, bind, Except.bind, expectEnd, hparen, if_false]
  · refine ⟨place, hplace, fault, ?_⟩
    simp only [readRest, hfault, bind, Except.bind]

/-- **A line that would bind a reserved word** is a mistake at one of its first two tokens. -/
lemma read_of_reserved (ht : t.kind.isReserved = true) (hu : u.kind ∈ Token.Kind.binders) :
    ∃ place ∈ [t, u], ∃ fault,
      read ctx ⟨t :: u :: ts, ending⟩ = .error (ctx.fault place fault) := by
  by_cases hcolon : u.kind = .punctuation .colon
  · refine ⟨t, List.mem_cons_self, .reservedLabel (t.kind.spelling?.getD ""), ?_⟩
    cases hkind : t.kind with
    | identifier name =>
      rw [hkind] at ht
      cases ht
    | _ =>
      rw [hkind] at ht
      simp only [read, hcolon, if_true, hkind, ht]
  · simp only [read, hcolon, if_false]
    exact readRest_of_reserved ht hu

/-! ## One line after another -/

/-- **Lines are read one after another**: the statements of the first ones are at hand when the next
ones are read. -/
lemma readAllFrom_append (done : List Statement) (first second : List Line) :
    readAllFrom ctx done (first ++ second) =
      (readAllFrom ctx done first).bind fun ss => readAllFrom ctx ss.reverse second := by
  induction first generalizing done with
  | nil => simp [readAllFrom, Except.bind]
  | cons line first ih =>
    rw [List.cons_append, readAllFrom, readAllFrom]
    cases line.read ctx with
    | error f => rfl
    | ok ss => exact ih _

/-- The lines up to a line end do not depend on what follows it. -/
lemma exists_split_append {ts : List Token} (hts : ∀ t ∈ ts, t.kind ≠ .eof) {newline : Token}
    (hnewline : newline.kind = .newline) (ending : Token) :
    ∃ lines, ∀ us, split ending (ts ++ newline :: us) = lines ++ split ending us := by
  have hfrom : ∀ (ts line : List Token), (∀ t ∈ ts, t.kind ≠ .eof) →
      ∃ lines, ∀ us, splitFrom ending line (ts ++ newline :: us) = lines ++ split ending us := by
    intro ts
    induction ts with
    | nil =>
      intro line _
      refine ⟨[⟨line.reverse, newline⟩], fun us => ?_⟩
      simp only [List.nil_append, splitFrom, hnewline]
      rfl
    | cons t ts ih =>
      intro line hts
      obtain ⟨ht, hts⟩ := List.forall_mem_cons.1 hts
      by_cases hline : t.kind = .newline
      · obtain ⟨lines, hlines⟩ := ih [] hts
        refine ⟨⟨line.reverse, t⟩ :: lines, fun us => ?_⟩
        simp only [List.cons_append, splitFrom, hline, hlines us]
      · obtain ⟨lines, hlines⟩ := ih (t :: line) hts
        have hplain : ∀ u ∈ [t], u.kind.isLineEnd = false :=
          List.forall_mem_singleton.2 (by simp only [Token.Kind.isLineEnd])
        refine ⟨lines, fun us => ?_⟩
        rw [List.cons_append, ← List.singleton_append,
          splitFrom_append_of_plain ending hplain line, ← hlines us]
        rfl
  exact hfrom ts [] hts

/-- The first line goes on from the tokens with which it has begun. -/
lemma exists_splitFrom_eq_cons (ending : Token) (line ts : List Token) :
    ∃ rest last lines, splitFrom ending line ts = ⟨line.reverse ++ rest, last⟩ :: lines := by
  induction ts generalizing line with
  | nil => exact ⟨[], ending, [], by rw [splitFrom, List.append_nil]⟩
  | cons t ts ih =>
    by_cases hend : t.kind.isLineEnd = true
    · rw [splitFrom]
      cases hkind : t.kind with
      | newline => exact ⟨[], t, splitFrom ending [] ts, by rw [List.append_nil]⟩
      | eof => exact ⟨[], t, [], by rw [List.append_nil]⟩
      | _ =>
        rw [hkind] at hend
        cases hend
    · have hplain : ∀ u ∈ [t], u.kind.isLineEnd = false :=
        List.forall_mem_singleton.2 (Bool.eq_false_iff.2 hend)
      obtain ⟨rest, last, lines, hlines⟩ := ih (t :: line)
      refine ⟨t :: rest, last, lines, ?_⟩
      rw [← List.singleton_append, splitFrom_append_of_plain ending hplain]
      simpa using hlines

/-- The lines of tokens that begin with a reserved word that would be bound cannot be read. -/
lemma readAllFrom_split_of_reserved (ht : t.kind.isReserved = true)
    (hu : u.kind ∈ Token.Kind.binders) (done : List Statement) :
    ∃ place ∈ [t, u], ∃ fault,
      readAllFrom ctx done (split ending (t :: u :: ts)) = .error (ctx.fault place fault) := by
  have hreserved : t.kind.isLineEnd = false := by
    cases hkind : t.kind with
    | newline | eof =>
      rw [hkind] at ht
      cases ht
    | _ => rfl
  have hplain : ∀ v ∈ [t, u], v.kind.isLineEnd = false :=
    List.forall_mem_cons.2 ⟨hreserved, List.forall_mem_singleton.2 (plain_of_binder hu).2⟩
  obtain ⟨rest, last, lines, hlines⟩ := exists_splitFrom_eq_cons ending [u, t] ts
  have hsplit : split ending (t :: u :: ts) = ⟨t :: u :: rest, last⟩ :: lines :=
    (splitFrom_append_of_plain ending hplain [] ts).trans hlines
  obtain ⟨place, hplace, fault, hfault⟩ := @read_of_reserved ctx last t u rest ht hu
  refine ⟨place, hplace, fault, ?_⟩
  rw [hsplit, readAllFrom, hfault]
  rfl

end Line

/-! ## The text of a line -/

/-- A reserved word consists of letters. -/
lemma isAlpha_of_mem_reservedWords {word : String} (h : word ∈ reservedWords) :
    word.toList ≠ [] ∧ ∀ c ∈ word.toList, c.isAlpha = true := by
  have hall : (reservedWords.all fun word =>
      !word.toList.isEmpty && word.toList.all Char.isAlpha) = true := by decide +kernel
  have hword := List.all_eq_true.1 hall word h
  rw [Bool.and_eq_true, List.all_eq_true] at hword
  exact ⟨by simpa using hword.1, hword.2⟩

/-- Both forms of a letter are letters. -/
lemma caseless_isAlpha : Caseless Char.isAlpha := by decide

/-- A reserved word, in any letter case, is a lexeme of the kind that it stands for. -/
lemma Fragment.isLexeme_of_reserved {cs rest : List Char} {kind : Token.Kind}
    (hcs : Text.upper (String.ofList cs) ∈ reservedWords)
    (hkind : Token.Kind.Names (String.ofList cs) kind) (hends : ∀ c ∈ rest.head?, ¬IsWordChar c) :
    IsLexeme ⟨cs, some kind⟩ rest := by
  obtain ⟨hne, halpha⟩ := isAlpha_of_mem_reservedWords hcs
  simp only [Text.upper, String.toList_ofList, ne_eq, List.map_eq_nil_iff, List.forall_mem_map,
    caseless_isAlpha.toUpper_eq] at hne halpha
  obtain ⟨c, tail, rfl⟩ := List.exists_cons_of_ne_nil hne
  obtain ⟨hc, htail⟩ := List.forall_mem_cons.1 halpha
  exact .name (.inl hc) ⟨fun d hd => .inl (htail d hd), hends⟩ hkind

/-- What a reserved word stands for. -/
lemma Token.Kind.exists_names_of_reserved {word : String}
    (h : Text.upper word ∈ reservedWords) : ∃ kind, Names word kind ∧ kind.isReserved = true := by
  rcases mem_reservedWords_iff.1 h with ⟨k, hk⟩ | ⟨m, hm⟩ | ⟨r, hr⟩
  · exact ⟨_, .keyword hk, rfl⟩
  · exact ⟨_, .mnemonic hm, rfl⟩
  · exact ⟨_, .register hr, rfl⟩

/-- What a directive that binds a name stands for. -/
lemma Token.Kind.exists_names_of_directive {word : String}
    (h : Text.upper word ∈ ["DB", "DW", "EQU"]) : ∃ kind ∈ binders, Names word kind := by
  simp only [List.mem_cons, List.not_mem_nil, or_false] at h
  rcases h with h | h | h
  · exact ⟨.keyword .db, by decide, .keyword h⟩
  · exact ⟨.keyword .dw, by decide, .keyword h⟩
  · exact ⟨.keyword .equ, by decide, .keyword h⟩

/-- Separators are divided into lexemes that are no tokens. -/
lemma exists_divides_separators {cs : List Char} (hcs : ∀ c ∈ cs, c ∈ [' ', '\t', '\r'])
    (rest : List Char) :
    ∃ fs, Divides (cs ++ rest) fs rest ∧ fs.flatMap Fragment.chars = cs ∧
      ∀ file before, Fragment.tokens file before fs = [] := by
  by_cases hne : cs = []
  · subst hne
    exact ⟨[], .nil, rfl, fun _ _ => rfl⟩
  · exact ⟨[⟨cs, none⟩], .cons (.separators hne hcs) .nil, by simp, fun _ _ => rfl⟩

/-- No separator continues a word, and the colon does not either. -/
lemma not_isWordChar {c : Char} (hc : c ∈ [' ', '\t', '\r', ':']) : ¬IsWordChar c := by
  rw [← isNameChar_iff, Bool.not_eq_true]
  simp only [List.mem_cons, List.not_mem_nil, or_false] at hc
  rcases hc with rfl | rfl | rfl | rfl <;> decide

/-- Fragments are, besides separators, a reserved word and what binds it, on one line. -/
def Fragment.AreReserved (fs : List Fragment) : Prop :=
  ∀ file before, ∃ t u, tokens file before fs = [t, u] ∧ t.kind.isReserved = true ∧
    u.kind ∈ Token.Kind.binders ∧ ∀ v ∈ [t, u], v.file = file ∧ v.line = lineAfter before

/-- A reserved word and what binds it, with separators before each, are two tokens on one line. -/
lemma exists_divides_pair {indent word gap mark rest : List Char} {kind binder : Token.Kind}
    (hindent : ∀ c ∈ indent, c ∈ [' ', '\t', '\r']) (hgap : ∀ c ∈ gap, c ∈ [' ', '\t', '\r'])
    (hword : Fragment.IsLexeme ⟨word, some kind⟩ (gap ++ (mark ++ rest)))
    (hkind : kind.isReserved = true) (hmark : Fragment.IsLexeme ⟨mark, some binder⟩ rest)
    (hbinder : binder ∈ Token.Kind.binders) :
    ∃ fs, Divides (indent ++ (word ++ (gap ++ (mark ++ rest)))) fs rest ∧
      Fragment.AreReserved fs := by
  obtain ⟨fs₁, hfs₁, hchars₁, htokens₁⟩ :=
    exists_divides_separators hindent (word ++ (gap ++ (mark ++ rest)))
  obtain ⟨fs₂, hfs₂, hchars₂, htokens₂⟩ := exists_divides_separators hgap (mark ++ rest)
  have hfeed : ∀ {cs : List Char}, (∀ c ∈ cs, c ∈ [' ', '\t', '\r']) → '\n' ∉ cs :=
    fun hcs hmem => by simpa using hcs _ hmem
  have hfeedWord : '\n' ∉ word := by
    rcases hword.newline_or_notMem with ⟨-, rfl⟩ | ⟨h, -⟩
    · cases hkind
    · exact h
  refine ⟨fs₁ ++ ⟨word, some kind⟩ :: (fs₂ ++ [⟨mark, some binder⟩]),
    hfs₁.append (.cons hword (hfs₂.append (.cons hmark .nil))), fun file before => ?_⟩
  refine ⟨tokenAfter file (before ++ indent) kind,
    tokenAfter file (before ++ (indent ++ (word ++ gap))) binder, ?_, hkind, hbinder, ?_⟩
  · simp [Fragment.tokens_append, Fragment.tokens, htokens₁, htokens₂, hchars₁, hchars₂]
  · refine List.forall_mem_cons.2 ⟨⟨rfl, lineAfter_append (hfeed hindent) before⟩, ?_⟩
    refine List.forall_mem_singleton.2 ⟨rfl, lineAfter_append ?_ before⟩
    simp [hfeed hindent, hfeedWord, hfeed hgap]

/-- **A text that would bind a reserved word** begins with the reserved word and what binds it. -/
lemma BindsReserved.exists_divides {line : List Char} (h : BindsReserved line) :
    ∃ fs rest, Divides line fs rest ∧ Fragment.AreReserved fs := by
  cases h with
  | @colon indent word gap rest hindent hword hgap =>
    obtain ⟨kind, hkind, hreserved⟩ := Token.Kind.exists_names_of_reserved hword
    have hends : ∀ c ∈ (gap ++ ':' :: rest).head?, ¬IsWordChar c := by
      intro c hc
      cases gap with
      | nil =>
        obtain rfl := Option.some.inj hc
        exact not_isWordChar (by decide)
      | cons d gap =>
        obtain rfl := Option.some.inj hc
        exact not_isWordChar (List.mem_append_left [':'] (hgap d List.mem_cons_self))
    have hcolon : Fragment.IsLexeme ⟨[':'], some (.punctuation .colon)⟩ rest :=
      .punctuation (p := .colon)
    obtain ⟨fs, hfs, hreserved⟩ := exists_divides_pair hindent hgap
      (Fragment.isLexeme_of_reserved hword hkind hends) hreserved hcolon (by decide)
    exact ⟨fs, rest, hfs, hreserved⟩
  | @directive indent word gap mark rest hindent hword hgap hne hmark hrest =>
    obtain ⟨kind, hkind, hreserved⟩ := Token.Kind.exists_names_of_reserved hword
    obtain ⟨binder, hbinder, hnames⟩ := Token.Kind.exists_names_of_directive hmark
    have hends : ∀ c ∈ (gap ++ (mark ++ rest)).head?, ¬IsWordChar c := by
      intro c hc
      obtain ⟨d, gap, rfl⟩ := List.exists_cons_of_ne_nil hne
      obtain rfl := Option.some.inj hc
      exact not_isWordChar (List.mem_append_left [':'] (hgap d List.mem_cons_self))
    have hmark : Text.upper (String.ofList mark) ∈ reservedWords :=
      (by decide +kernel : ∀ w ∈ ["DB", "DW", "EQU"], w ∈ reservedWords) _ hmark
    obtain ⟨fs, hfs, hreserved⟩ := exists_divides_pair hindent hgap
      (Fragment.isLexeme_of_reserved hword hkind hends) hreserved
      (Fragment.isLexeme_of_reserved hmark hnames hrest) hbinder
    exact ⟨fs, rest, hfs, hreserved⟩

/-! ## The lines above -/

/-- The lines above a line: no text at all, or a text that ends with a line feed. -/
def Above (earlier : String) : Prop :=
  earlier.toList = [] ∨ ∃ front, earlier.toList = front ++ ['\n']

/-- If a text is tokenized, whatever follows its first lexemes is divided into lexemes too. -/
lemma exists_divides_rest {source file : String} {tokens : List Token}
    (h : tokenize source file = .ok tokens) {fs : List Fragment} {rest : List Char}
    (hfs : Divides source.toList fs rest) : ∃ fs', Divides rest fs' [] := by
  obtain ⟨fs', rest', hfs', hstuck⟩ := exists_divides rest
  cases rest' with
  | nil => exact ⟨fs', hfs'⟩
  | cons c cs =>
    obtain ⟨hsep, hcomment, m, hm⟩ := hstuck c cs rfl
    rw [tokenize_of_misread (hfs.append hfs') hsep hcomment hm file] at h
    cases h

/-- No text is divided into no lexemes. -/
lemma Divides.eq_nil {fs : List Fragment} (h : Divides [] fs []) : fs = [] := by
  cases fs with
  | nil => rfl
  | cons f fs =>
    generalize hcs : ([] : List Char) = cs at h
    cases h with
    | cons hf _ => exact absurd (List.append_eq_nil_iff.1 hcs.symm).1 hf.ne_nil

/-- The lines above a line have the same lexemes with the line below them. -/
lemma Above.divides {earlier : String} (habove : Above earlier) {fs : List Fragment}
    (hfs : Divides earlier.toList fs []) (cs : List Char) :
    Divides (earlier.toList ++ cs) fs cs := by
  rcases habove with hnil | ⟨front, hfront⟩
  · rw [hnil] at hfs ⊢
    rw [hfs.eq_nil]
    exact .nil
  · rw [hfront] at hfs ⊢
    obtain ⟨fs₁, fs₂, rfl, hfs₁, hfs₂⟩ := divides_newline_iff.1 hfs
    rw [hfs₂.eq_nil, List.append_assoc]
    exact (hfs₁.before_newline cs).append (.cons .newline .nil)

/-- The lines above a line are the same lines with the line below them. -/
lemma Above.exists_lines {earlier : String} (habove : Above earlier) {fs : List Fragment}
    (hfs : Divides earlier.toList fs []) (file : String) (ending : Token) :
    ∃ lines, ∀ us, Line.split ending (Fragment.tokens file [] fs ++ us) =
      lines ++ Line.split ending us := by
  rcases habove with hnil | ⟨front, hfront⟩
  · rw [hnil] at hfs
    rw [hfs.eq_nil]
    exact ⟨[], fun us => rfl⟩
  · rw [hfront] at hfs
    obtain ⟨fs₁, fs₂, rfl, hfs₁, hfs₂⟩ := divides_newline_iff.1 hfs
    obtain ⟨lines, hlines⟩ := Line.exists_split_append (hfs₁.ne_eof file [])
      (rfl : (tokenAfter file ([] ++ fs₁.flatMap Fragment.chars) .newline).kind = .newline) ending
    refine ⟨lines, fun us => ?_⟩
    rw [hfs₂.eq_nil, Fragment.tokens_append, List.append_assoc]
    exact hlines us

/-- **The tokens of a text with a line that would bind a reserved word**: those of the lines above,
the reserved word and what binds it, and others. -/
lemma exists_tokens_of_bindsReserved {earlier line file : String} {tokens : List Token}
    (htokens : tokenize (earlier ++ line) file = .ok tokens) (habove : Above earlier)
    {fs : List Fragment} (hfs : Divides earlier.toList fs [])
    (hline : BindsReserved line.toList) :
    ∃ t u more, tokens = Fragment.tokens file [] fs ++ t :: u :: more ∧
      t.kind.isReserved = true ∧ u.kind ∈ Token.Kind.binders ∧
      ∀ v ∈ [t, u], v.file = file ∧ v.line = lineAfter earlier.toList := by
  obtain ⟨fs₂, rest, hfs₂, hreserved⟩ := hline.exists_divides
  have hfront : Divides (earlier ++ line).toList (fs ++ fs₂) rest := by
    rw [String.toList_append]
    exact (habove.divides hfs line.toList).append hfs₂
  obtain ⟨fs₃, hfs₃⟩ := exists_divides_rest htokens hfront
  have hchars : fs.flatMap Fragment.chars = earlier.toList := by
    rw [hfs.eq_append, List.append_nil]
  obtain ⟨t, u, htu, ht, hu, hplaces⟩ := hreserved file earlier.toList
  have hdivided := tokenize_of_divides (hfront.append hfs₃) file
  simp only [Fragment.tokens_append, List.nil_append, hchars, htu, List.append_assoc,
    List.cons_append] at hdivided
  exact ⟨t, u, _, Except.ok.inj (htokens.symm.trans hdivided), ht, hu, hplaces⟩

namespace Statement

variable {earlier line file : String} {keepCase : Bool}

/-- **A text fails on a line that would bind a reserved word**, if the lines above it can be read.
The mistake is one of grammar.

**Proof sketch.** The lines above are read as they are on their own, since they end with a line
feed. The line below them begins with the reserved word and what binds it, and is a mistake at one
of the two (`Line.read_of_reserved`). -/
lemma readSource_of_bindsReserved {tokens : List Token}
    (htokens : tokenize (earlier ++ line) file = .ok tokens) (habove : Above earlier)
    {ss : List Statement} (hearlier : readSource earlier file keepCase = .ok ss)
    (hline : BindsReserved line.toList) :
    ∃ fault location text, readSource (earlier ++ line) file keepCase =
        .error (.diagnostic ⟨.grammar fault, some location, text⟩) ∧
      location.file = file ∧ location.line = (1 + earlier.toList.count '\n' : Nat) := by
  let ctx := Context.ofSource (some (earlier ++ line)) keepCase
  let mark := Expr.endMark file tokens
  obtain ⟨fs, hfs, hprogram⟩ := readSource_eq_ok_iff.1 hearlier
  obtain ⟨t, u, more, hmore, ht, hu, hplaces⟩ :=
    exists_tokens_of_bindsReserved htokens habove hfs hline
  obtain ⟨lines, hlines⟩ := habove.exists_lines hfs file mark
  -- the lines above are read in the same way where their text is part of a longer one
  have hdone : ∃ done, Line.readAllFrom ctx [] lines = .ok done := by
    obtain ⟨ss', hss', -⟩ := relocates_id.program ctx hprogram rfl
    rw [List.map_id] at hss'
    have hread := Line.readAll_split_of_program hss' mark
    rw [hlines, Line.readAll, Line.readAllFrom_append] at hread
    obtain ⟨done, hdone, -⟩ := bind_eq_ok_iff.1 hread
    exact ⟨done, hdone⟩
  obtain ⟨done, hdone⟩ := hdone
  obtain ⟨place, hplace, fault, hfault⟩ :=
    @Line.readAllFrom_split_of_reserved ctx mark t u more ht hu done.reverse
  obtain ⟨hfile, hnumber⟩ := hplaces place hplace
  refine ⟨fault, place.location, ctx.lineText place.line, ?_, hfile, congrArg Nat.cast hnumber⟩
  calc readSource (earlier ++ line) file keepCase
      = Line.readAllFrom ctx [] (Line.split mark tokens) := by
        simp only [readSource, htokens]
        rfl
    _ = Line.readAllFrom ctx done.reverse (Line.split mark (t :: u :: more)) := by
        rw [hmore, hlines, Line.readAllFrom_append, hdone]
        rfl
    _ = .error (ctx.fault place fault) := hfault

end Statement

/-! ## Reserved words are never bound -/

namespace Workbench

/-- **Reserved words are never bound.** The names that are bound and used in what is read from a
source text have the shape of a name, are reserved in no letter case, and are in upper case unless
names keep their case. So are the names in the symbol table of every text that is assembled. And
in a text that is tokenized, a line that begins with a reserved word and a colon, `DB`, `DW` or
`EQU` is where reading fails with a mistake of grammar, if the lines above it can be read.

**Proof sketch.** Every name comes from an identifier of the text (`Program.namedBy`), and no
reserved word is one. What begins with a reserved word is followed through the statements that can
begin so (`Line.readStatement_of_reserved`), none of which goes on with what binds a name. -/
theorem reservedWords_unbound (source file : String) :
    (∀ keepCase ss, Statement.readSource source file keepCase = .ok ss →
      ∀ n ∈ labelNames ss, LabelName keepCase n) ∧
    (∀ (w : Workbench) (code : List UInt8), (w.assemble source file).outcome = .ok code →
      ∀ p ∈ (w.assemble source file).workbench.symbols.toList,
        LabelName w.settings.keepCase p.1) ∧
    ∀ keepCase tokens ss earlier line, tokenize source file = .ok tokens →
      source = earlier ++ line → Above earlier → BindsReserved line.toList →
      Statement.readSource earlier file keepCase = .ok ss →
      ∃ fault location text, Statement.readSource source file keepCase =
          .error (.diagnostic ⟨.grammar fault, some location, text⟩) ∧
        location.file = file ∧ location.line = (1 + earlier.toList.count '\n' : Nat) := by
  refine ⟨fun keepCase ss h => Statement.labelName_of_readSource h,
    fun w code h => labelName_of_assemble h, ?_⟩
  rintro keepCase tokens ss earlier line htokens rfl habove hline hearlier
  exact Statement.readSource_of_bindsReserved htokens habove hearlier hline

/-- A text with names that resemble reserved words. -/
def resemblingText : String := "start: MVI a,end_1-movs\nend_1 EQU 5\nmovs EQU 2\n"

/-- The line above a line that would bind a reserved word. -/
def reservedAbove : String := "start: NOP\n"

/-- A line that would bind a mnemonic in lower case. -/
def reservedLine : String := " mov\tDb 5 ; data\n"

/-- The line would bind the mnemonic. -/
lemma bindsReserved_reservedLine : BindsReserved reservedLine.toList := by
  have hline : reservedLine.toList =
      [' '] ++ (['m', 'o', 'v'] ++ (['\t'] ++ (['D', 'b'] ++ " 5 ; data\n".toList))) := by decide
  have hrest : ∀ c ∈ " 5 ; data\n".toList.head?, ¬IsWordChar c := by
    rintro c ⟨⟩
    exact not_isWordChar (by decide)
  rw [hline]
  exact .directive (List.forall_mem_singleton.2 (by decide)) (by decide +kernel)
    (List.forall_mem_singleton.2 (by decide)) (by decide) (by decide) hrest

/-- The names of the first text are those of labels, and the second text fails on its second
line. -/
theorem reservedWords_unbound_sample :
    (∃ ss, Statement.readSource resemblingText "names.asm" false = .ok ss ∧
      labelNames ss = ["START", "END_1", "MOVS", "END_1", "MOVS"] ∧
      ∀ n ∈ labelNames ss, LabelName false n) ∧
    (∃ code, (padding.assemble resemblingText "names.asm").outcome = .ok code ∧
      ∀ p ∈ (padding.assemble resemblingText "names.asm").workbench.symbols.toList,
        LabelName false p.1) ∧
    ∃ fault location text, Statement.readSource (reservedAbove ++ reservedLine) "names.asm" false =
        .error (.diagnostic ⟨.grammar fault, some location, text⟩) ∧
      location.file = "names.asm" ∧ location.line = 2 := by
  let read := fun text => (Statement.readSource text "names.asm" false).toOption.getD []
  have hfirst : (Statement.readSource resemblingText "names.asm" false = .ok (read resemblingText) ∧
        labelNames (read resemblingText) = ["START", "END_1", "MOVS", "END_1", "MOVS"]) ∧
      (padding.assemble resemblingText "names.asm").outcome =
        .ok [0x3E, 3, 0xAA, 0xAA, 0xAA, 0xAA, 0xAA, 0xAA] := by decide +kernel
  have hsecond : tokenize (reservedAbove ++ reservedLine) "names.asm" =
        .ok ((tokenize (reservedAbove ++ reservedLine) "names.asm").toOption.getD []) ∧
      Statement.readSource reservedAbove "names.asm" false = .ok (read reservedAbove) := by
    decide +kernel
  obtain ⟨hnames, hsymbols, -⟩ := reservedWords_unbound resemblingText "names.asm"
  obtain ⟨-, -, hfails⟩ := reservedWords_unbound (reservedAbove ++ reservedLine) "names.asm"
  have habove : Above reservedAbove := .inr ⟨"start: NOP".toList, by decide⟩
  exact ⟨⟨_, hfirst.1.1, hfirst.1.2, hnames false _ hfirst.1.1⟩,
    ⟨_, hfirst.2, hsymbols padding _ hfirst.2⟩,
    hfails false _ _ reservedAbove reservedLine hsecond.1 rfl habove bindsReserved_reservedLine
      hsecond.2⟩

end Workbench

end Asm8080
