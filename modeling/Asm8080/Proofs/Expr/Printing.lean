import Asm8080.Proofs.Assembly.Names
import Asm8080.Proofs.Statement.Joining

/-!
# Expressions read back from their text

An expression is written with every operation in parentheses. Read back, the text gives the same
tree: each operation is an atom in its parentheses, so that no operator next to it can take it
apart, and spaces keep word operators apart from names. Only the places of the nodes are those in
the text.

What can be written are words in decimal, printable characters other than those that quotes escape,
and names that are not reserved.

## Main definitions

* `Asm8080.Expr.SameTree` — expressions that differ in the places of their nodes only.
* `Asm8080.Expr.Writable` — expressions whose parts can be written and read back.
* `Asm8080.Expr.tokenKinds` — the tokens of the text of an expression.

## Main results

* `Asm8080.Expr.lexes_text` — the text of an expression is read as its tokens.
* `Asm8080.Expr.exists_derives_of_tokenKinds` — the tokens of an expression derive the same tree.
* `Asm8080.Expr.evaluate_relocate` — the value of an expression does not depend on places.
* `Asm8080.Expr.readAt_tokenize_text` — an expression is read back from its text.
-/

set_option autoImplicit false

namespace Asm8080

/-! ## Places do not matter -/

/-- A failure without its place. -/
def Failure.unplaced : Failure → Failure
  | diagnostic d => .diagnostic { d with location := none }
  | f => f

/-- Two computations in two steps end alike, up to places, if their steps do. -/
lemma mapError_unplaced_bind {α β : Type} {x y : Except Failure α} {k m : α → Except Failure β}
    (h : x.mapError Failure.unplaced = y.mapError Failure.unplaced)
    (hk : ∀ a, (k a).mapError Failure.unplaced = (m a).mapError Failure.unplaced) :
    (x >>= k).mapError Failure.unplaced = (y >>= m).mapError Failure.unplaced := by
  cases x with
  | error f =>
    cases y with
    | error g =>
      injection h with h
      exact congrArg Except.error h
    | ok b => cases h
  | ok a =>
    cases y with
    | error g => cases h
    | ok b =>
      cases h
      exact hk a

namespace Expr

/-- Expressions are the same tree: they differ in the places of their nodes only. -/
def SameTree (e e' : Expr) : Prop :=
  ∀ l : Location, e.relocate (fun _ => l) = e'.relocate (fun _ => l)

/-- The value of an operation does not depend on its place. -/
lemma mapError_apply (op : BinaryOp) (l l' : Location) (sourceLine : Option String) (a b : Nat) :
    (op.apply l sourceLine a b).mapError Failure.unplaced =
      (op.apply l' sourceLine a b).mapError Failure.unplaced := by
  cases op with
  | div | mod =>
    simp only [BinaryOp.apply]
    split <;> rfl
  | _ => rfl

/-- **The value of an expression does not depend on places**, and neither does its fault, but for
the place of it. -/
lemma evaluate_relocate (g : Location → Location) (symbols : SymbolTable) (address : Int)
    (sourceLine : Option String) (e : Expr) :
    ((e.relocate g).evaluate symbols address sourceLine).mapError Failure.unplaced =
      (e.evaluate symbols address sourceLine).mapError Failure.unplaced := by
  induction e with
  | literal | char | here => rfl
  | label l name =>
    simp only [relocate, evaluate, resolve]
    split <;> rfl
  | complement l operand ih => exact mapError_unplaced_bind ih fun _ => rfl
  | binary l op left right ihl ihr =>
    refine mapError_unplaced_bind ihl fun a => mapError_unplaced_bind ihr fun b => ?_
    exact mapError_apply op (g l) l sourceLine a b

/-- The same tree has the same value, or the same fault but for its place. -/
lemma SameTree.evaluate_eq {e e' : Expr} (h : e.SameTree e') (symbols : SymbolTable) (address : Int)
    (sourceLine : Option String) :
    (e.evaluate symbols address sourceLine).mapError Failure.unplaced =
      (e'.evaluate symbols address sourceLine).mapError Failure.unplaced := by
  rw [← evaluate_relocate (fun _ => e.location), h, evaluate_relocate]

/-! ## Expressions that can be written -/

/-- A character that stands for itself in quotes: printable ASCII, and neither a quote nor what
escapes one. -/
def IsPlainChar (c : Char) : Prop :=
  0x20 ≤ c.toNat ∧ c.toNat ≤ 0x7E ∧ c ≠ '\'' ∧ c ≠ '\\'

instance (c : Char) : Decidable (IsPlainChar c) := inferInstanceAs (Decidable (_ ∧ _))

/-- **An expression that can be written and read back**: its literals are words, its characters
stand for themselves, and its labels are names that are not reserved. -/
def Writable : Expr → Prop
  | literal _ value => 0 ≤ value ∧ value ≤ 0xFFFF
  | char _ c => IsPlainChar c
  | label _ name => IsName name ∧ Text.upper name ∉ reservedWords
  | here _ => True
  | complement _ operand => operand.Writable
  | binary _ _ left right => left.Writable ∧ right.Writable

/-! ## Tokens -/

end Expr

/-- The token of an operator. -/
def BinaryOp.tokenKind : BinaryOp → Token.Kind
  | add => .punctuation .plus
  | sub => .punctuation .minus
  | mul => .punctuation .star
  | div => .punctuation .slash
  | mod => .keyword .mod
  | shl => .keyword .shl
  | shr => .keyword .shr
  | and => .keyword .and
  | or => .keyword .or
  | xor => .keyword .xor

/-- The level of an operator. -/
def BinaryOp.level : BinaryOp → Expr.Level
  | or | xor => .disjunction
  | and => .conjunction
  | add | sub => .sum
  | mul | div | mod | shl | shr => .product

/-- The token of an operator stands for it at its level. -/
lemma BinaryOp.mem_operators (op : BinaryOp) : (op.tokenKind, op) ∈ op.level.operators := by
  cases op <;> decide

/-- An operator is read as its token. -/
lemma BinaryOp.lexes_symbol (op : BinaryOp) {rest : List Char} (hends : Lexes.Ends rest) :
    Lexes (op.symbol.toList ++ rest) [op.tokenKind] rest := by
  cases op with
  | add => exact Lexes.punctuation .plus rest
  | sub => exact Lexes.punctuation .minus rest
  | mul => exact Lexes.punctuation .star rest
  | div => exact Lexes.punctuation .slash rest
  | mod | shl | shr | and | or | xor => exact Lexes.name rfl hends

namespace Expr

/-- The tokens of the text of an expression. -/
def tokenKinds : Expr → List Token.Kind
  | literal _ value => [.number value.toNat .decimal]
  | char _ c => [.char c]
  | label _ name => [.identifier name]
  | here _ => [.punctuation .dollar]
  | complement _ operand =>
    .punctuation .lparen :: .keyword .not :: (operand.tokenKinds ++ [.punctuation .rparen])
  | binary _ op left right =>
    .punctuation .lparen ::
      (left.tokenKinds ++ op.tokenKind :: (right.tokenKinds ++ [.punctuation .rparen]))

/-- A character that stands for itself is written in quotes as it is. -/
lemma quoteChar_of_isPlainChar {c : Char} (h : IsPlainChar c) :
    (Text.quoteChar c).toList = ['\'', c, '\''] :=
  ascii_elim (P := fun c => IsPlainChar c → (Text.quoteChar c).toList = ['\'', c, '\''])
    (by decide +kernel) (Nat.lt_of_le_of_lt h.2.1 (by decide)) h

/-- A character in quotes is read as its token. -/
lemma lexes_quoteChar {c : Char} (h : IsPlainChar c) (rest : List Char) :
    Lexes ((Text.quoteChar c).toList ++ rest) [.char c] rest := by
  have hlexeme : Fragment.IsLexeme ⟨['\'', c, '\''], some (.char c)⟩ rest := by
    refine .char ?_ (Nat.le_trans h.2.1 (by decide))
    rintro rfl
    exact absurd h.1 (by decide)
  have hread := Lexeme.read_of_isLexeme hlexeme
  rw [quoteChar_of_isPlainChar h]
  exact Lexes.lexeme rfl (by decide) hread (by simp)

/-- A word of name characters has the shape of a name. -/
lemma isName_iff {name : String} : IsName name ↔ Lexes.isWord name = true := by
  unfold IsName Lexes.isWord
  cases name.toList with
  | nil => simp
  | cons c tail =>
    simp only [List.cons.injEq, Bool.and_eq_true, List.all_eq_true, isNameStart_iff, isNameChar_iff]
    constructor
    · rintro ⟨c, tail, ⟨rfl, rfl⟩, hname⟩
      exact hname
    · exact fun hname => ⟨c, tail, ⟨rfl, rfl⟩, hname⟩

/-- A name that is not reserved is read as an identifier. -/
lemma lexes_label {name : String} (hname : IsName name) (h : Text.upper name ∉ reservedWords)
    {rest : List Char} (hends : Lexes.Ends rest) :
    Lexes (name.toList ++ rest) [.identifier name] rest := by
  have hpiece := Lexes.name (isName_iff.1 hname) hends
  rwa [Token.Kind.ofName_eq_iff.2 (.identifier h)] at hpiece

/-- **The text of an expression is read as its tokens.**

**Proof sketch.** Induction on the expression. The text of an operation is a sequence of pieces, and
what follows each of them ends it: a space after a name or an operator, a parenthesis after the last
operand. -/
lemma lexes_text {e : Expr} (h : e.Writable) {rest : List Char} (hends : Lexes.Ends rest) :
    Lexes (e.text.toList ++ rest) e.tokenKinds rest := by
  induction e generalizing rest with
  | literal l value =>
    obtain ⟨n, rfl⟩ := Int.eq_ofNat_of_zero_le h.1
    have hn : n < 0x10000 := by
      have := h.2
      omega
    exact Lexes.decimal hn hends
  | char l c => exact lexes_quoteChar h rest
  | label l name => exact lexes_label h.1 h.2 hends
  | here l => simpa [text, tokenKinds, Punctuation.char] using Lexes.punctuation .dollar rest
  | complement l operand ih =>
    have hclose : Lexes.Ends (')' :: rest) := Lexes.ends_cons rfl rest
    have hnot : Lexes ("NOT".toList ++ ' ' :: (operand.text.toList ++ ')' :: rest))
        [.keyword .not] (' ' :: (operand.text.toList ++ ')' :: rest)) :=
      Lexes.name rfl (Lexes.ends_cons rfl _)
    have hpieces := (Lexes.punctuation .lparen _).append (hnot.append
      ((Lexes.separator rfl _).append ((ih h hclose).append (Lexes.punctuation .rparen rest))))
    simpa [text, complementSymbol, tokenKinds, Punctuation.char] using hpieces
  | binary l op left right ihl ihr =>
    have hclose : Lexes.Ends (')' :: rest) := Lexes.ends_cons rfl rest
    have hspace : ∀ cs, Lexes.Ends (' ' :: cs) := Lexes.ends_cons rfl
    have hright := (ihr h.2 hclose).append (Lexes.punctuation .rparen rest)
    have hop := (op.lexes_symbol (hspace _)).append ((Lexes.separator rfl _).append hright)
    have hleft := (ihl h.1 (hspace _)).append ((Lexes.separator rfl _).append hop)
    have hpieces := (Lexes.punctuation .lparen _).append hleft
    simpa [text, tokenKinds, Punctuation.char] using hpieces

/-! ## Trees -/

/-- **The tokens of an expression derive the same tree**, as an atom.

**Proof sketch.** Induction on the expression. An operation is in parentheses; inside them, its
operands are atoms, which are operands of every level. -/
lemma exists_derives_of_tokenKinds {e : Expr} (h : e.Writable) {ts : List Token}
    (hts : ts.map Token.kind = e.tokenKinds) :
    ∃ e', Derives true .atom ts e' ∧ e'.SameTree e := by
  induction e generalizing ts with
  | literal l value =>
    obtain ⟨t, rfl, ht⟩ := List.map_eq_singleton_iff.1 hts
    have hvalue : ((Word.ofInt (value.toNat : Int) : Nat) : Int) = value := by
      obtain ⟨hlower, hupper⟩ := h
      unfold Word.ofInt Word.count
      omega
    exact ⟨_, .number ht, fun _ => by rw [hvalue]; rfl⟩
  | char l c =>
    obtain ⟨t, rfl, ht⟩ := List.map_eq_singleton_iff.1 hts
    exact ⟨_, .char ht, fun _ => rfl⟩
  | label l name =>
    obtain ⟨t, rfl, ht⟩ := List.map_eq_singleton_iff.1 hts
    exact ⟨_, .label ht, fun _ => rfl⟩
  | here l =>
    obtain ⟨t, rfl, ht⟩ := List.map_eq_singleton_iff.1 hts
    exact ⟨_, .here ht, fun _ => rfl⟩
  | complement l operand ih =>
    obtain ⟨lparen, us, rfl, hlparen, hus⟩ := List.map_eq_cons_iff.1 hts
    obtain ⟨not, vs, rfl, hnot, hvs⟩ := List.map_eq_cons_iff.1 hus
    obtain ⟨inside, close, rfl, hinside, hclose⟩ := List.map_eq_append_iff.1 hvs
    obtain ⟨rparen, rfl, hrparen⟩ := List.map_eq_singleton_iff.1 hclose
    obtain ⟨operand', hoperand, hsame⟩ := ih h hinside
    -- a complement of an atom stands in the parentheses
    have hcomplement :
        Derives true .complement (not :: inside) (.complement not.location operand') :=
      .complement hnot (hoperand.operand_of_atom .conjunction)
    have hexpression : Derives true (.binary .conjunction) _ _ := .of_operand hcomplement
    refine ⟨_, .parentheses hlparen hexpression.of_level hrparen, fun l' => ?_⟩
    simp only [relocate, hsame l']
  | binary l op left right ihl ihr =>
    obtain ⟨lparen, us, rfl, hlparen, hus⟩ := List.map_eq_cons_iff.1 hts
    obtain ⟨first, vs, rfl, hfirst, hvs⟩ := List.map_eq_append_iff.1 hus
    obtain ⟨operator, ws, rfl, hoperator, hws⟩ := List.map_eq_cons_iff.1 hvs
    obtain ⟨second, close, rfl, hsecond, hclose⟩ := List.map_eq_append_iff.1 hws
    obtain ⟨rparen, rfl, hrparen⟩ := List.map_eq_singleton_iff.1 hclose
    obtain ⟨left', hleft, hsameLeft⟩ := ihl h.1 hfirst
    obtain ⟨right', hright, hsameRight⟩ := ihr h.2 hsecond
    -- one operation of the level of the operator stands in the parentheses
    have hchain := @Derives.chain true op.level first left' [⟨operator, op, second, right'⟩]
      (hleft.operand_of_atom op.level)
      (List.forall_mem_singleton.2 (by rw [hoperator]; exact op.mem_operators))
      (List.forall_mem_singleton.2 (hright.operand_of_atom op.level))
    refine ⟨.binary operator.location op left' right', ?_, fun l' => ?_⟩
    · simpa [Step.span, Step.join] using Derives.parentheses hlparen hchain.of_level hrparen
    · simp only [relocate, hsameLeft l', hsameRight l']

/-- **An expression is read back from its text.** The text of an expression that can be written is
tokenized. With names that keep their case, an expression is read from all tokens before the end
mark, and it is the same tree. So it has the same value, or the same fault but for its place, under
every table and at every address.

**Proof sketch.** The text is read as the tokens of the expression (`lexes_text`), and these derive
the same tree (`exists_derives_of_tokenKinds`), which is what the reader of expressions takes off
the front (`read_eq_ok_iff`). -/
theorem readAt_tokenize_text {e : Expr} (h : e.Writable) (file : String)
    (sourceLine : Option String) :
    ∃ (ts : List Token) (t : Token) (e' : Expr), tokenize e.text file = .ok (ts ++ [t]) ∧
      (∀ t ∈ ts, t.kind ≠ .eof) ∧ t.kind = .eof ∧
      readAt (ts ++ [t]) 0 true sourceLine = (.ok e', (ts.length : Int)) ∧ e'.SameTree e ∧
      ∀ (symbols : SymbolTable) (address : Int) (sourceLine : Option String),
        (e'.evaluate symbols address sourceLine).mapError Failure.unplaced =
          (e.evaluate symbols address sourceLine).mapError Failure.unplaced := by
  have hlexes : Lexes e.text.toList e.tokenKinds [] := by
    have hnil : Lexes.Ends [] := fun _ hch => by cases hch
    simpa using lexes_text h hnil
  obtain ⟨ts, t, htokens, hkinds, ht⟩ := hlexes.tokenize file
  obtain ⟨e', hderives, hsame⟩ := exists_derives_of_tokenKinds h hkinds
  have hexpression := hderives.of_atom
  refine ⟨ts, t, e', htokens, fun t ht heof => ?_, ht, ?_, hsame, hsame.evaluate_eq⟩
  · have hline := hexpression.isLineEnd_eq_false t ht
    rw [heof] at hline
    cases hline
  · refine readAt_eq_ok_iff.2 ⟨ts ++ [t], rfl, [t], ⟨ts, rfl, hexpression, ?_⟩, by simp⟩
    exact ends_of_operator?_eq_none (fun level => by rw [ht]; cases level <;> rfl) []

/-- An expression with operators of all levels, a character and names that look like operators. -/
def writtenSample : Expr :=
  let l : Location := ⟨"sample.asm", 1, 1⟩
  .binary l .mul
    (.complement l (.binary l .or (.label l "MODE") (.char l '"')))
    (.binary l .sub (.binary l .shl (.literal l 0xFFFF) (.here l)) (.label l "nota"))

/-- The sample is read back from its text, in which `*` has a disjunction to its left. -/
theorem readAt_tokenize_writtenSample :
    writtenSample.Writable ∧
      writtenSample.text = "((NOT (MODE OR '\"')) * ((65535 SHL $) - nota))" ∧
      ∃ ts t e', tokenize writtenSample.text "text.asm" = .ok (ts ++ [t]) ∧
        readAt (ts ++ [t]) 0 true none = (.ok e', (ts.length : Int)) ∧
        e'.SameTree writtenSample := by
  have hquote : IsPlainChar '"' := by decide
  have hwritable : writtenSample.Writable :=
    ⟨⟨⟨isName_iff.2 rfl, by decide +kernel⟩, hquote⟩, ⟨⟨by decide, by decide⟩, trivial⟩,
      isName_iff.2 rfl, by decide +kernel⟩
  obtain ⟨ts, t, e', htokens, -, -, hread, hsame, -⟩ :=
    readAt_tokenize_text hwritable "text.asm" none
  exact ⟨hwritable, by decide +kernel, ts, t, e', htokens, hread, hsame⟩

end Expr

end Asm8080
