import Asm8080.Proofs.Statement.Grammar
import Asm8080.Proofs.Text.Lines
import Asm8080.Proofs.Token.Joining

/-!
# The source line of a statement

Every statement, and every diagnostic of reading statements, has a place in the source text and
shows the line that is found under its line number. All tokens that reading a line looks at, up to
the one that ends it, are on one line of the text, so the place and the line belong together. But
the number counts line feeds, and the line is looked up among the lines at all line breaks: what is
shown is the line itself only as long as no other line break comes before its end.

## Main definitions

* `Asm8080.Expr.Within`, `Asm8080.Expr.Rule.Stays` — reading an expression leaves tokens with a
  property, or is stuck at one.
* `Asm8080.OnLine` — a computation that answers with what is on one source line.
* `Asm8080.Line.LiesOn` — a line of tokens that are on one line of a text.
* `Asm8080.Displays` — what is shown for a place in a text.

## Main results

* `Asm8080.Line.onLine_read` — reading a line whose tokens are on one source line.
* `Asm8080.Line.exists_liesOn_of_mem_split` — the tokens of each line are on one line of the text.
* `Asm8080.Statement.readSource_displays` — what is shown with statements and diagnostics.
-/

set_option autoImplicit false

namespace Asm8080

/-! ## Where an expression is stuck -/

namespace Expr

variable {P : Token → Prop} {n : Nat}

/-- Reading leaves tokens with a property, or is stuck at one. -/
def Within (P : Token → Prop) {q : Expr × List Token → Prop} (x : Except Stuck (Subtype q)) :
    Prop :=
  (∀ p, x = .ok p → ∀ t ∈ p.val.2, P t) ∧ ∀ stuck, x = .error stuck → P stuck.token

/-- A rule that stays within tokens with a property. -/
def Rule.Stays (P : Token → Prop) (rule : Rule n) : Prop :=
  ∀ ts bound, (∀ t ∈ ts, P t) → Within P (rule ts bound)

namespace Within

variable {q : Expr × List Token → Prop}

/-- What is left has the property. -/
lemma ok {p : Subtype q} (h : ∀ t ∈ p.val.2, P t) : Within P (.ok p : Except Stuck (Subtype q)) :=
  ⟨by rintro _ ⟨⟩; exact h, by rintro _ ⟨⟩⟩

/-- The token at which reading is stuck has the property. -/
lemma error {stuck : Stuck} (h : P stuck.token) :
    Within P (.error stuck : Except Stuck (Subtype q)) :=
  ⟨by rintro _ ⟨⟩, by rintro _ ⟨⟩; exact h⟩

end Within

/-- Reading more operands stays within the tokens. -/
lemma within_readTail {level : Level} {operand : Rule n} (hoperand : operand.Stays P) (left : Expr)
    (ts : List Token) (bound : ts.length ≤ n) (hts : ∀ t ∈ ts, P t) :
    Within P (readTail level operand left ts bound) := by
  fun_induction readTail level operand left ts bound with
  | case1 => exact .ok hts
  | case2 => exact .ok hts
  | case3 left t rest bound op hop stuck hstuck =>
    exact .error ((hoperand _ _ (List.forall_mem_cons.1 hts).2).2 stuck hstuck)
  | case4 left t rest bound op hop right after shorter hright stuck hstuck _ ih =>
    exact .error ((ih ((hoperand _ _ (List.forall_mem_cons.1 hts).2).1 _ hright)).2 stuck hstuck)
  | case5 left t rest bound op hop right after shorter hright p le hp _ ih =>
    exact .ok ((ih ((hoperand _ _ (List.forall_mem_cons.1 hts).2).1 _ hright)).1 _ hp)

/-- So does reading operands with operators between them. -/
lemma stays_binaryRule {level : Level} {operand : Rule n} (hoperand : operand.Stays P) :
    (binaryRule level operand).Stays P := by
  intro ts bound hts
  obtain ⟨hok, herror⟩ := hoperand ts bound hts
  unfold binaryRule
  rcases hleft : operand ts bound with stuck | ⟨⟨left, rest⟩, shorter⟩
  · exact .error (herror stuck hleft)
  · have hle := Nat.le_trans (Nat.le_of_lt shorter) bound
    obtain ⟨hok, herror⟩ := @within_readTail _ _ level _ hoperand left rest hle (hok _ hleft)
    rcases htail : readTail level operand left rest hle with stuck | ⟨p, le⟩
    · simp only [htail]
      exact .error (herror stuck htail)
    · simp only [htail]
      exact .ok (hok _ htail)

/-- So does reading an operand after complements. -/
lemma stays_complementRule {operand : Rule n} (hoperand : operand.Stays P) :
    (complementRule operand).Stays P := by
  intro ts
  induction ts with
  | nil =>
    intro bound hts
    exact hoperand [] bound hts
  | cons t rest ih =>
    intro bound hts
    obtain ⟨hok, herror⟩ := ih (Nat.le_of_succ_le bound) (List.forall_mem_cons.1 hts).2
    unfold complementRule
    split_ifs with hnot
    · rcases he : complementRule operand rest (Nat.le_of_succ_le bound) with
        stuck | ⟨⟨e, after⟩, shorter⟩
      · exact .error (herror stuck he)
      · exact .ok (hok _ he)
    · exact hoperand _ bound hts

/-- So does reading an atom, if what reads expressions in parentheses does. -/
lemma stays_atomRule {ctx : Context} (hending : P ctx.ending)
    {inner : (ts : List Token) → ts.length < n → Except Stuck (Prefixed ts)}
    (hinner : ∀ ts bound, (∀ t ∈ ts, P t) → Within P (inner ts bound)) :
    (atomRule ctx inner).Stays P := by
  intro ts bound hts
  cases ts with
  | nil => exact .error hending
  | cons t rest =>
    obtain ⟨ht, hrest⟩ := List.forall_mem_cons.1 hts
    obtain ⟨hok, herror⟩ := hinner rest bound hrest
    cases hkind : t.kind with
    | number | char | identifier =>
      simp only [atomRule, hkind]
      exact .ok hrest
    | punctuation p =>
      cases p with
      | dollar =>
        simp only [atomRule, hkind]
        exact .ok hrest
      | lparen =>
        simp only [atomRule, hkind]
        rcases he : inner rest bound with stuck | ⟨⟨e, _ | ⟨close, after⟩⟩, shorter⟩
        · exact .error (herror stuck he)
        · exact .error hending
        · obtain ⟨hclose, hafter⟩ := List.forall_mem_cons.1 (hok _ he)
          dsimp only
          split_ifs
          · exact .ok hafter
          · exact .error hclose
      | _ =>
        simp only [atomRule, hkind]
        exact .error ht
    | _ =>
      simp only [atomRule, hkind]
      exact .error ht

/-- **An expression is read** off tokens with a property; if it cannot be, the token at which it is
stuck has the property too. -/
lemma within_readShorter {ctx : Context} (hending : P ctx.ending) (ts : List Token)
    (hts : ∀ t ∈ ts, P t) : Within P (readShorter ctx ts) := by
  rw [readShorter]
  exact stays_binaryRule (stays_binaryRule (stays_complementRule (stays_binaryRule
    (stays_binaryRule (stays_atomRule hending fun us _ => within_readShorter hending us)))))
    ts (Nat.le_refl _) hts
termination_by ts.length

/-- The same for an expression that is read without a proof that tokens are used up. -/
lemma within_read {ctx : Context} (hending : P ctx.ending) {ts : List Token}
    (hts : ∀ t ∈ ts, P t) :
    (∀ p, read ctx ts = .ok p → ∀ t ∈ p.2, P t) ∧
      ∀ stuck, read ctx ts = .error stuck → P stuck.token := by
  obtain ⟨hok, herror⟩ := within_readShorter hending ts hts
  unfold read
  cases hread : readShorter ctx ts with
  | ok p => exact ⟨by rintro _ ⟨⟩; exact hok p hread, by rintro _ ⟨⟩⟩
  | error stuck => exact ⟨by rintro _ ⟨⟩, by rintro _ ⟨⟩; exact herror stuck hread⟩

end Expr

/-! ## Reading a line -/

open Statement (Context)

/-- A computation on a source line: its result has a property, or it fails with a diagnostic on that
line, which shows the line of that number. -/
def OnLine (ctx : Context) (number : Nat) {α : Type} (Q : α → Prop) (x : Except Failure α) : Prop :=
  (∀ a, x = .ok a → Q a) ∧ ∀ f, x = .error f → ∃ cause location,
    f = .diagnostic ⟨cause, some location, ctx.lineText number⟩ ∧ location.line = number

namespace OnLine

variable {ctx : Context} {number : Nat} {α β : Type} {Q : α → Prop} {R : β → Prop}

/-- A result. -/
lemma ok {a : α} (h : Q a) : OnLine ctx number Q (.ok a) :=
  ⟨by rintro _ ⟨⟩; exact h, by rintro _ ⟨⟩⟩

/-- A diagnostic on the line. -/
lemma diagnostic {location : Location} (h : location.line = number) (cause : Cause) :
    OnLine ctx number Q (.error (.diagnostic ⟨cause, some location, ctx.lineText number⟩)) := by
  refine ⟨by rintro _ ⟨⟩, ?_⟩
  rintro _ ⟨⟩
  exact ⟨cause, location, rfl, h⟩

/-- A fault at a token of the line. -/
lemma fault {t : Token} (ht : t.line = number) (f : GrammarFault) :
    OnLine ctx number Q (.error (ctx.fault t f)) := by
  subst ht
  exact .diagnostic rfl _

/-- A fault of an operand at a token of the line. -/
lemma operandFault {t : Token} (ht : t.line = number) (m : Mnemonic) (f : OperandFault) :
    OnLine ctx number Q (.error (ctx.operandFault t m f)) := by
  subst ht
  exact .diagnostic rfl _

/-- A failure that is passed on. -/
lemma rethrow {x : Except Failure α} (hx : OnLine ctx number Q x) {f : Failure}
    (h : x = .error f) : OnLine ctx number R (.error f) := by
  refine ⟨by rintro _ ⟨⟩, ?_⟩
  rintro _ ⟨⟩
  exact hx.2 f h

/-- A computation in two steps. -/
lemma bind {x : Except Failure α} {f : α → Except Failure β} (hx : OnLine ctx number Q x)
    (hf : ∀ a, Q a → OnLine ctx number R (f a)) : OnLine ctx number R (x >>= f) := by
  cases x with
  | error e => exact hx.rethrow rfl
  | ok a => exact hf a (hx.1 a rfl)

end OnLine

/-- A lexeme without a line feed is a token that ends no line, if it is one. -/
lemma Fragment.IsLexeme.isLineEnd_eq_false {f : Fragment} {rest : List Char} (h : f.IsLexeme rest)
    (hchars : '\n' ∉ f.chars) : ∀ kind ∈ f.kind, kind.isLineEnd = false := by
  cases h with
  | separators | comment =>
    rintro _ ⟨⟩
  | newline => exact absurd List.mem_cons_self hchars
  | name _ _ hkind =>
    rintro _ ⟨⟩
    cases hkind <;> rfl
  | number | char | punctuation =>
    rintro _ ⟨⟩
    rfl

namespace Line

variable {ctx : Context} {number : Nat} {ending : Token}

/-- A statement on a source line, with the line of that number. -/
structure Stamped (ctx : Context) (number : Nat) (s : Statement) : Prop where
  line : s.location.line = number
  text : s.text = (ctx.lineText number).getD ""

/-- A statement at a token of the line. -/
lemma stamped_statement {t : Token} (ht : t.line = number) (action : Action) :
    Stamped ctx number (ctx.statement t action) :=
  ⟨congrArg Nat.cast ht, by rw [← ht]; rfl⟩

/-- The next token, or the one that ends the line. -/
lemma line_headD (hending : ending.line = number) {ts : List Token}
    (hts : ∀ t ∈ ts, t.line = number) : (ts.headD ending).line = number := by
  cases ts with
  | nil => exact hending
  | cons t ts => exact hts t List.mem_cons_self

/-- The tokens after the next one. -/
lemma line_tail {ts : List Token} (hts : ∀ t ∈ ts, t.line = number) :
    ∀ t ∈ ts.tail, t.line = number :=
  fun t ht => hts t (List.mem_of_mem_tail ht)

/-- Reading an expression. -/
lemma onLine_readExpression (hending : ending.line = number) {ts : List Token}
    (hts : ∀ t ∈ ts, t.line = number) :
    OnLine ctx number (fun p => ∀ t ∈ p.2, t.line = number) (readExpression ctx ending ts) := by
  have hfirst := line_headD hending hts
  obtain ⟨hok, herror⟩ := Expr.within_read (P := fun t => t.line = number)
    (show (⟨ctx.keepCase, ending⟩ : Expr.Context).ending.line = number from hending) hts
  fun_cases readExpression ctx ending ts with
  | case1 first hstarts p hread => exact .ok (hok p hread)
  | case2 first hstarts stuck hread =>
    rw [show first.line = number from hfirst]
    exact .diagnostic (congrArg Nat.cast (herror stuck hread)) _
  | case3 | case4 => exact .fault hfirst _

/-- Reading an operand. -/
lemma onLine_readOperand (hending : ending.line = number) (m : Mnemonic) (index count : Nat)
    {ts : List Token} (hts : ∀ t ∈ ts, t.line = number) :
    OnLine ctx number (fun p => ∀ t ∈ p.2, t.line = number)
      (readOperand ctx ending m index count ts) := by
  have hfirst := line_headD hending hts
  have hexpression : OnLine ctx number _ (readExpression ctx ending ts) :=
    onLine_readExpression hending hts
  fun_cases readOperand ctx ending m index count ts with
  | case1 => exact .ok (line_tail hts)
  | case3 first haccepts e rest hread => exact .ok (hexpression.1 _ hread)
  | case4 first haccepts f hread => exact hexpression.rethrow hread
  | case2 | case5 | case6 => exact .operandFault hfirst _ _
  | case7 => exact .fault hfirst _

/-- Reading a comma before an operand. -/
lemma onLine_readComma (hending : ending.line = number) (m : Mnemonic) (index count : Nat)
    {ts : List Token} (hts : ∀ t ∈ ts, t.line = number) :
    OnLine ctx number (fun ts => ∀ t ∈ ts, t.line = number)
      (readComma ctx ending m index count ts) := by
  have hfirst := line_headD hending hts
  fun_cases readComma ctx ending m index count ts with
  | case1 => exact .ok hts
  | case2 => exact .operandFault hfirst _ _
  | case3 => exact .ok (line_tail hts)
  | case4 => exact .fault hfirst _

/-- Reading operands. -/
lemma onLine_readOperands (hending : ending.line = number) (m : Mnemonic) (count left : Nat)
    {ts : List Token} (hts : ∀ t ∈ ts, t.line = number) :
    OnLine ctx number (fun p => ∀ t ∈ p.2, t.line = number)
      (readOperands ctx ending m count left ts) := by
  induction left generalizing ts with
  | zero => exact .ok hts
  | succ left ih =>
    rw [readOperands]
    refine (onLine_readComma hending m _ count hts).bind fun ts hts => ?_
    refine (onLine_readOperand hending m _ count hts).bind ?_
    rintro ⟨operand, ts⟩ hts
    refine (ih hts).bind ?_
    rintro ⟨operands, ts⟩ hts
    exact .ok hts

/-- A statement on the line, and tokens of the line that are left. -/
def Begins (ctx : Context) (number : Nat) (p : Statement × List Token) : Prop :=
  Stamped ctx number p.1 ∧ ∀ t ∈ p.2, t.line = number

/-- Reading a statement that ends with an expression. -/
lemma onLine_readExpression_bind (hending : ending.line = number) {t : Token}
    (ht : t.line = number) {ts : List Token} (hts : ∀ t ∈ ts, t.line = number)
    (action : Expr → Action) :
    OnLine ctx number (Begins ctx number) (readExpression ctx ending ts >>= fun p =>
      pure (ctx.statement t (action p.1), p.2)) := by
  refine (onLine_readExpression hending hts).bind fun p hp => ?_
  exact .ok ⟨stamped_statement ht _, hp⟩

/-- Reading an instruction. -/
lemma onLine_readInstruction (hending : ending.line = number) {t : Token} (ht : t.line = number)
    (m : Mnemonic) {ts : List Token} (hts : ∀ t ∈ ts, t.line = number) :
    OnLine ctx number (Begins ctx number) (readInstruction ctx ending t m ts) := by
  rw [readInstruction]
  refine (onLine_readOperands hending m _ _ hts).bind ?_
  rintro ⟨operands, rest⟩ hrest
  simp only
  split
  · exact .ok ⟨stamped_statement ht _, hrest⟩
  · exact .operandFault ht _ _

/-- Reading a directive with a name in front. -/
lemma onLine_readNamed (hending : ending.line = number) {t : Token} (ht : t.line = number)
    (name : String) {ts : List Token} (hts : ∀ t ∈ ts, t.line = number) :
    OnLine ctx number (Begins ctx number) (readNamed ctx ending t name ts) := by
  have hfirst := line_headD hending hts
  fun_cases readNamed ctx ending t name ts with
  | case1 | case2 => exact onLine_readExpression_bind hending ht (line_tail hts) _
  | case3 => exact .fault hfirst _
  | case4 => exact .fault ht _

/-- Reading a statement. -/
lemma onLine_readStatement (hending : ending.line = number) {t : Token} (ht : t.line = number)
    {ts : List Token} (hts : ∀ t ∈ ts, t.line = number) :
    OnLine ctx number (Begins ctx number) (readStatement ctx ending t ts) := by
  unfold readStatement
  split
  · exact onLine_readInstruction hending ht _ hts
  · exact onLine_readExpression_bind hending ht hts _
  · exact onLine_readExpression_bind hending ht hts _
  · exact onLine_readExpression_bind hending ht hts _
  · exact onLine_readNamed hending ht _ hts
  · exact .fault ht _
  · exact .fault ht _

/-- Reading what comes after a label. -/
lemma onLine_readRest (hending : ending.line = number) {ts : List Token}
    (hts : ∀ t ∈ ts, t.line = number) :
    OnLine ctx number (fun ss => ∀ s ∈ ss, Stamped ctx number s) (readRest ctx ending ts) := by
  have hend : ∀ rest : List Token, (∀ t ∈ rest, t.line = number) →
      OnLine ctx number (fun _ => True) (expectEnd ctx rest) := by
    intro rest hrest
    fun_cases expectEnd ctx rest with
    | case1 => exact .ok trivial
    | case2 t rest | case3 t rest => exact .fault (List.forall_mem_cons.1 hrest).1 _
  cases ts with
  | nil => exact .ok (by simp)
  | cons t ts =>
    obtain ⟨ht, hts⟩ := List.forall_mem_cons.1 hts
    refine (onLine_readStatement hending ht hts).bind ?_
    rintro ⟨s, rest⟩ ⟨hs, hrest⟩
    refine (hend rest hrest).bind fun _ _ => .ok ?_
    exact List.forall_mem_singleton.2 hs

/-- **Reading a line** whose tokens are all on one source line: its statements are on that line,
with the line of that number, and so is a diagnostic. -/
lemma onLine_read {line : Line} (hending : line.ending.line = number)
    (hts : ∀ t ∈ line.tokens, t.line = number) :
    OnLine ctx number (fun ss => ∀ s ∈ ss, Stamped ctx number s) (line.read ctx) := by
  have hrest : OnLine ctx number _ (readRest ctx line.ending line.tokens) :=
    onLine_readRest hending hts
  fun_cases read ctx line with
  | case1 t colon ts htokens hcolon name hname =>
    rw [htokens] at hts
    obtain ⟨ht, hts⟩ := List.forall_mem_cons.1 hts
    refine (onLine_readRest hending (List.forall_mem_cons.1 hts).2).bind fun ss hss => .ok ?_
    exact List.forall_mem_cons.2 ⟨stamped_statement ht _, hss⟩
  | case2 t colon ts htokens => exact .fault (hts t (by simp [htokens])) _
  | case3 | case4 | case5 => exact hrest

/-! ## The lines of a text -/

/-- The tokens of a line are on the line with index `n` of a text, which has a character if there is
such a token. -/
structure LiesOn (source : List Char) (n : Nat) (line : Line) : Prop where
  ending : line.ending.line = n + 1
  tokens : ∀ t ∈ line.tokens, t.line = n + 1
  nonempty : line.tokens ≠ [] → ∃ l, (Text.feedLines source)[n]? = some l ∧ l ≠ []

/-- The tokens of a line that has begun, in reverse, and the token after them that ends it. -/
lemma liesOn_reverse {source before : List Char} {line : List Token}
    (hline : ∀ t ∈ line, t.line = lineAfter before)
    (hne : line ≠ [] → ∃ l, (Text.feedLines source)[before.count '\n']? = some l ∧ l ≠ [])
    (file : String) (kind : Token.Kind) :
    LiesOn source (before.count '\n') ⟨line.reverse, tokenAfter file before kind⟩ where
  ending := Nat.add_comm _ _
  tokens t ht := (hline t (List.mem_reverse.1 ht)).trans (Nat.add_comm _ _)
  nonempty h := hne fun hnil => h (by rw [hnil]; rfl)

/-- **The tokens of each line are on one line of the text.** The text `before` has been read, and
the tokens of `line` begin the next line, in reverse.

**Proof sketch.** Induction on the lexemes. A line feed ends the line; every other lexeme leaves the
number of the line as it is, and has a character on it. -/
lemma exists_liesOn_of_mem_splitFrom {cs rest : List Char} {fs : List Fragment}
    (h : Divides cs fs rest) (file : String) (ending : Token) (before : List Char)
    (line : List Token) (hline : ∀ t ∈ line, t.line = lineAfter before)
    (hne : line ≠ [] →
      ∃ l, (Text.feedLines (before ++ cs))[before.count '\n']? = some l ∧ l ≠ []) :
    ∀ found ∈ splitFrom ending line (Fragment.tokens file before fs ++
        [tokenAfter file (before ++ fs.flatMap Fragment.chars) .eof]),
      ∃ n, found.LiesOn (before ++ cs) n := by
  induction h generalizing before line with
  | nil =>
    intro found hfound
    obtain rfl : found = ⟨line.reverse, tokenAfter file before .eof⟩ := by
      simpa [Fragment.tokens, splitFrom, tokenAfter] using hfound
    exact ⟨_, liesOn_reverse hline hne file .eof⟩
  | @cons f cs rest fs hf _ ih =>
    rw [List.flatMap_cons, Fragment.tokens, ← List.append_assoc before, ← List.append_assoc before]
    rw [← List.append_assoc] at hne
    rcases hf.eq_newline_or_notMem with rfl | hchars
    · intro found hfound
      rcases List.mem_cons.1 hfound with rfl | hfound
      · exact ⟨_, liesOn_reverse hline hne file .newline⟩
      · exact ih (before ++ ['\n']) [] (by simp) (by simp) found hfound
    · have hcount : (before ++ f.chars).count '\n' = before.count '\n' := by
        rw [List.count_append, List.count_eq_zero.2 hchars, Nat.add_zero]
      have hafter := lineAfter_append hchars before
      cases hkind : f.kind with
      | none =>
        exact ih (before ++ f.chars) line (by rwa [hafter]) (by rwa [hcount])
      | some kind =>
        obtain ⟨c, tail, htail⟩ := List.exists_cons_of_ne_nil hf.ne_nil
        have hc : c ≠ '\n' := fun hc => hchars (by rw [htail, hc]; exact List.mem_cons_self)
        have hsplit : ∀ ts, splitFrom ending line (tokenAfter file before kind :: ts) =
            splitFrom ending (tokenAfter file before kind :: line) ts := by
          exact splitFrom_append_of_plain ending
            (List.forall_mem_singleton.2 (hf.isLineEnd_eq_false hchars kind hkind)) line
        rw [Option.map_some, Option.toList_some, List.singleton_append, List.cons_append, hsplit]
        refine ih (before ++ f.chars) _ ?_ fun _ => ?_
        · rw [hafter]
          exact List.forall_mem_cons.2 ⟨rfl, hline⟩
        · rw [hcount, List.append_assoc, htail, List.cons_append]
          exact Text.exists_feedLine hc before (tail ++ cs)

/-- The lines of the tokens of a text. -/
lemma exists_liesOn_of_mem_split {source file : String} {tokens : List Token}
    (h : tokenize source file = .ok tokens) (ending : Token) :
    ∀ line ∈ split ending tokens, ∃ n, line.LiesOn source.toList n := by
  obtain ⟨fs, hfs, rfl⟩ := exists_divides_of_tokenize h
  have hchars : fs.flatMap Fragment.chars = source.toList := by
    rw [hfs.eq_append, List.append_nil]
  have hlines := exists_liesOn_of_mem_splitFrom hfs file ending [] [] (by simp) (by simp)
  rwa [List.nil_append, List.nil_append, hchars] at hlines

end Line

/-! ## Reading a text -/

/-- What is shown for a place in a text: what has the number of its line among the lines at all
breaks, which is a part of its line, or of a line above, as `Text.Shown` says. While the lines above
have no line break inside, it is the line, less a carriage return at its end, exactly when the line
has none either. -/
def Displays (source : String) (location : Location) (text : String) : Prop :=
  ∃ (n : Nat) (line : List Char), location.line = n + 1 ∧
    (Text.feedLines source.toList)[n]? = some line ∧
    (Text.splitLines source)[n]? = some text ∧
    Text.Shown (Text.feedLines source.toList) n text ∧
    ((∀ k < n, ∀ l ∈ (Text.feedLines source.toList)[k]?, Text.Plain l) →
      (text = String.ofList (Text.dropReturn line) ↔ Text.Plain line))

/-- Statements with what is shown for their places, or a diagnostic with what is shown for its
place. -/
def Located (source : String) (x : Except Failure (List Statement)) : Prop :=
  (∀ ss, x = .ok ss → ∀ s ∈ ss, Displays source s.location s.text) ∧
    ∀ f, x = .error f → ∃ cause location text,
      f = .diagnostic ⟨cause, some location, some text⟩ ∧ Displays source location text

namespace Line

variable {source : String} (keepCase : Bool)

/-- A line that is not empty is found among the lines of the source text. -/
lemma exists_lineText {n : Nat} {line : List Char}
    (hline : (Text.feedLines source.toList)[n]? = some line) (hne : line ≠ []) :
    ∃ text, (Context.ofSource (some source) keepCase).lineText (n + 1) = some text ∧
      ∀ location : Location, location.line = n + 1 → Displays source location text := by
  obtain ⟨text, htext, hshown⟩ := Text.exists_shown hline hne
  refine ⟨text, ?_, fun location hlocation => ?_⟩
  · simpa [Context.ofSource, Context.lineText, Text.splitLines] using htext
  · exact ⟨n, line, hlocation, hline, htext, hshown, hshown.eq_iff_plain hline⟩

/-- Reading a line of a text. -/
lemma located_read {n : Nat} {line : Line} (h : line.LiesOn source.toList n) :
    Located source (line.read (Context.ofSource (some source) keepCase)) := by
  by_cases htokens : line.tokens = []
  · have hread : line.read (Context.ofSource (some source) keepCase) = .ok [] := by
      simp only [read, htokens, readRest]
    rw [hread]
    exact ⟨by rintro _ ⟨⟩; simp, by rintro _ ⟨⟩⟩
  · obtain ⟨l, hline, hne⟩ := h.nonempty htokens
    obtain ⟨text, htext, hdisplays⟩ := exists_lineText keepCase hline hne
    have hread : OnLine (Context.ofSource (some source) keepCase) (n + 1) _
        (line.read (Context.ofSource (some source) keepCase)) := onLine_read h.ending h.tokens
    obtain ⟨hok, herror⟩ := hread
    rw [htext] at herror
    refine ⟨fun ss hss s hs => ?_, fun f hf => ?_⟩
    · obtain ⟨hnumber, hshown⟩ := hok ss hss s hs
      rw [htext] at hshown
      rw [hshown]
      exact hdisplays _ hnumber
    · obtain ⟨cause, location, rfl, hnumber⟩ := herror f hf
      exact ⟨cause, location, text, rfl, hdisplays location hnumber⟩

/-- Reading the lines of a text one after another. -/
lemma located_readAllFrom {done : List Statement} {lines : List Line}
    (hlines : ∀ line ∈ lines, ∃ n, line.LiesOn source.toList n)
    (hdone : ∀ s ∈ done, Displays source s.location s.text) :
    Located source (readAllFrom (Context.ofSource (some source) keepCase) done lines) := by
  induction lines generalizing done with
  | nil =>
    refine ⟨?_, by rintro _ ⟨⟩⟩
    rintro _ ⟨⟩ s hs
    exact hdone s (List.mem_reverse.1 hs)
  | cons line lines ih =>
    obtain ⟨⟨n, hline⟩, hlines⟩ := List.forall_mem_cons.1 hlines
    obtain ⟨hok, herror⟩ := located_read keepCase hline
    rw [readAllFrom]
    cases hread : line.read (Context.ofSource (some source) keepCase) with
    | error f =>
      refine ⟨by rintro _ ⟨⟩, ?_⟩
      rintro _ ⟨⟩
      exact herror f hread
    | ok ss =>
      refine ih hlines fun s hs => ?_
      rcases List.mem_append.1 hs with hs | hs
      · exact hok ss hread s (List.mem_reverse.1 hs)
      · exact hdone s hs

end Line

namespace Statement

/-- **What is shown with statements and diagnostics.** For any source text, every statement that is
read, and every diagnostic of a text that is tokenized but cannot be read, has a place on a line of
the text. What is shown there is the line, less a carriage return at its end, if neither the line
nor a line above has another line break inside; the part of the line before its first line break, if
the lines above have none; and else the part of the lines above whose number, counting their parts,
is that of the line.

**Proof sketch.** The tokens of a line lie on one line of the text
(`Line.exists_liesOn_of_mem_split`), and whatever reading the line answers is at one of them and
shows the line of their number (`Line.onLine_read`). What is found under that number among the lines
at all breaks is said by `Text.exists_shown`. -/
theorem readSource_displays (source file : String) (keepCase : Bool) :
    (∀ ss, readSource source file keepCase = .ok ss →
      ∀ s ∈ ss, Displays source s.location s.text) ∧
    ∀ f, readSource source file keepCase = .error f →
      tokenize source file = .error f ∨ ∃ cause location text,
        f = .diagnostic ⟨cause, some location, some text⟩ ∧
          Displays source location text := by
  cases htokens : tokenize source file with
  | error f =>
    simp only [readSource, htokens]
    exact ⟨by rintro _ ⟨⟩, by rintro _ ⟨⟩; exact .inl rfl⟩
  | ok tokens =>
    have hread : readSource source file keepCase =
        Line.readAllFrom (Context.ofSource (some source) keepCase) []
          (Line.split (Expr.endMark file tokens) tokens) := by
      simp only [readSource, htokens]
      rfl
    have hlocated : Located source (readSource source file keepCase) := by
      rw [hread]
      exact Line.located_readAllFrom keepCase (Line.exists_liesOn_of_mem_split htokens _) (by simp)
    exact ⟨hlocated.1, fun f hf => .inr (hlocated.2 f hf)⟩

/-- A text with a form feed in a comment. -/
def pagedText : String := "NOP ; a\x0cb\nHLT\n"

/-- A text with a form feed in a comment and a mistake below it. -/
def pagedMistake : String := "NOP ; a\x0cb\nMVI A\n"

/-- After a form feed in a comment the statement on the second line is shown with the end of the
comment, and a mistake there too. -/
theorem readSource_pagedText :
    (readSource pagedText "paged.asm" false).map (List.map fun s => (s.location.line, s.text)) =
        .ok [(1, "NOP ; a"), (2, "b")] ∧
      (Text.feedLines pagedText.toList).map (fun line => String.ofList (Text.dropReturn line)) =
        ["NOP ; a\x0cb", "HLT", ""] ∧
      (readSource pagedMistake "paged.asm" false).map (fun _ => ()) =
        .error (.diagnostic ⟨.operand "MVI" (.wrongCount 2) (Encoding.summary .mvi),
          some ⟨"paged.asm", 2, 6⟩, some "b"⟩) := by
  decide +kernel

/-- What is shown for the texts with a form feed. -/
theorem displays_pagedText :
    (∃ ss, readSource pagedText "paged.asm" false = .ok ss ∧ ss.length = 2 ∧
      ∀ s ∈ ss, Displays pagedText s.location s.text) ∧
    ∃ f, readSource pagedMistake "paged.asm" false = .error f ∧
      (tokenize pagedMistake "paged.asm" = .error f ∨ ∃ cause location text,
        f = .diagnostic ⟨cause, some location, some text⟩ ∧
          Displays pagedMistake location text) := by
  have hok : readSource pagedText "paged.asm" false =
      .ok ((readSource pagedText "paged.asm" false).toOption.getD []) := by decide +kernel
  have hfault : readSource pagedMistake "paged.asm" false =
      .error (.diagnostic ⟨.operand "MVI" (.wrongCount 2) (Encoding.summary .mvi),
        some ⟨"paged.asm", 2, 6⟩, some "b"⟩) := by decide +kernel
  exact ⟨⟨_, hok, by decide +kernel, (readSource_displays pagedText "paged.asm" false).1 _ hok⟩,
    _, hfault, (readSource_displays pagedMistake "paged.asm" false).2 _ hfault⟩

end Statement

end Asm8080
