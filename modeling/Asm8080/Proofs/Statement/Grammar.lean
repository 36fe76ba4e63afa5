import Asm8080.Proofs.Expr.Grammar
import Asm8080.Proofs.Fallible
import Asm8080.Proofs.Instruction.Table
import Asm8080.Proofs.Token.Grammar
import Asm8080.Statement.Line

/-!
# The grammar of lines

A program is a sequence of lines, each up to a line end or the end mark. A line is an optional label
declaration, which is an identifier and a colon, and then nothing or one statement:

* `ORG` expression
* (`DB` | `DW`) expression
* identifier (`DB` | `DW` | `EQU`) expression
* mnemonic operands

where the operands, with commas between them, are registers and expressions in a form that the
instruction table has for the mnemonic. The reader of lines accepts exactly this grammar and returns
the statements of the lines in their order.

## Main definitions

* `Asm8080.Operand.Derives`, `Asm8080.Operand.Listed` — the tokens of an operand, and of operands
  with commas between them.
* `Asm8080.Operand.Fills` — the form that an operand has.
* `Asm8080.Statement.Derives` — the tokens of a statement.
* `Asm8080.Line.Derives` — the tokens of a line and its statements.
* `Asm8080.Program` — the tokens of a program and its statements.

## Main results

* `Asm8080.Line.readStatement_eq_ok_iff`, `Asm8080.Line.read_eq_ok_iff` — a statement and a line are
  read exactly when their tokens are those of one.
* `Asm8080.Line.readAll_split_eq_ok_iff` — the same for the lines of a list of tokens.
* `Asm8080.Statement.readTokens_eq_ok_iff_program` — the tokens of a text are read as the statements
  of a program.
-/

set_option autoImplicit false

namespace Asm8080

open Statement (Context)

/-! ## The grammar -/

/-- The tokens of an operand: a register, or an expression. -/
inductive Operand.Derives (keepCase : Bool) : List Token → Operand → Prop
  | register {t : Token} {r : Register} (ht : t.kind = .register r) :
      Derives keepCase [t] (.register r)
  | expression {ts : List Token} {e : Expr}
      (he : Expr.Derives keepCase (.binary .disjunction) ts e) :
      Derives keepCase ts (.expression e)

/-- The tokens of operands that follow another: a comma comes before each. -/
inductive Operand.Further (keepCase : Bool) : List Token → List Operand → Prop
  | nil : Further keepCase [] []
  | cons {comma : Token} {ts us : List Token} {o : Operand} {os : List Operand}
      (hcomma : comma.kind = .punctuation .comma) (ho : o.Derives keepCase ts)
      (hos : Further keepCase us os) : Further keepCase (comma :: (ts ++ us)) (o :: os)

/-- The tokens of operands, with commas between them. -/
inductive Operand.Listed (keepCase : Bool) : List Token → List Operand → Prop
  | nil : Listed keepCase [] []
  | cons {ts us : List Token} {o : Operand} {os : List Operand}
      (ho : o.Derives keepCase ts) (hos : Further keepCase us os) :
      Listed keepCase (ts ++ us) (o :: os)

/-- An operand has the form of a slot: it is the register of the slot, or an expression where the
slot is for a value. -/
inductive Operand.Fills : Slot → Operand → Prop
  | register {r : Register} : Fills (.register r) (.register r)
  | value {kind : Immediate} {e : Expr} : Fills (.value kind) (.expression e)

/-- The directive for data of a width. -/
def Width.directive : Width → Keyword
  | byte => .db
  | word => .dw

/-- **The tokens of a statement.** An instruction carries the row of the instruction table whose
form its operands have. -/
inductive Statement.Derives (ctx : Context) : List Token → Statement → Prop
  | origin {t : Token} {ts : List Token} {e : Expr} (ht : t.kind = .keyword .org)
      (he : Expr.Derives ctx.keepCase (.binary .disjunction) ts e) :
      Derives ctx (t :: ts) (ctx.statement t (.origin e))
  | data {t : Token} {width : Width} {ts : List Token} {e : Expr}
      (ht : t.kind = .keyword width.directive)
      (he : Expr.Derives ctx.keepCase (.binary .disjunction) ts e) :
      Derives ctx (t :: ts) (ctx.statement t (.data none width e))
  | namedData {t directive : Token} {name : String} {width : Width} {ts : List Token} {e : Expr}
      (ht : t.kind = .identifier name) (hdirective : directive.kind = .keyword width.directive)
      (he : Expr.Derives ctx.keepCase (.binary .disjunction) ts e) :
      Derives ctx (t :: directive :: ts)
        (ctx.statement t (.data (some (ctx.labelName name)) width e))
  | equate {t directive : Token} {name : String} {ts : List Token} {e : Expr}
      (ht : t.kind = .identifier name) (hdirective : directive.kind = .keyword .equ)
      (he : Expr.Derives ctx.keepCase (.binary .disjunction) ts e) :
      Derives ctx (t :: directive :: ts) (ctx.statement t (.equate (ctx.labelName name) e))
  | instruction {t : Token} {encoding : Encoding} {ts : List Token} {operands : List Operand}
      (ht : t.kind = .mnemonic encoding.mnemonic) (htable : encoding ∈ Encoding.table)
      (hoperands : Operand.Listed ctx.keepCase ts operands)
      (hcount : operands.length = Encoding.operandCount encoding.mnemonic)
      (hform : List.Forall₂ Operand.Fills encoding.slots operands) :
      Derives ctx (t :: ts) (ctx.statement t (.instruction encoding operands))

/-- The tokens of a line after its label: nothing, or one statement. -/
inductive Line.Body (ctx : Context) : List Token → List Statement → Prop
  | nil : Body ctx [] []
  | statement {ts : List Token} {s : Statement} (hs : s.Derives ctx ts) : Body ctx ts [s]

/-- **The tokens of a line**, which may begin with a label declaration. -/
inductive Line.Derives (ctx : Context) : List Token → List Statement → Prop
  | unlabelled {ts : List Token} {ss : List Statement} (hss : Body ctx ts ss) : Derives ctx ts ss
  | labelled {t colon : Token} {name : String} {ts : List Token} {ss : List Statement}
      (ht : t.kind = .identifier name) (hcolon : colon.kind = .punctuation .colon)
      (hss : Body ctx ts ss) :
      Derives ctx (t :: colon :: ts) (ctx.statement t (.label (ctx.labelName name)) :: ss)

/-- **The tokens of a program** are those of its lines, with line ends between them and an end mark
after the last one; its statements are those of the lines in their order. -/
inductive Program (ctx : Context) : List Token → List Statement → Prop
  | last {ts : List Token} {ss : List Statement} {mark : Token} (hline : Line.Derives ctx ts ss)
      (hmark : mark.kind = .eof) : Program ctx (ts ++ [mark]) ss
  | cons {ts rest : List Token} {ss ss' : List Statement} {newline : Token}
      (hline : Line.Derives ctx ts ss) (hnewline : newline.kind = .newline)
      (hrest : Program ctx rest ss') : Program ctx (ts ++ newline :: rest) (ss ++ ss')

/-! ## Operands -/

/-- A row takes operands exactly when they have the form of its slots. -/
lemma Encoding.takes_iff {e : Encoding} {operands : List Operand} :
    e.Takes operands ↔ List.Forall₂ Operand.Fills e.slots operands := by
  have hfits : ∀ slot o, fits slot (Operand.register? o) = true ↔ Operand.Fills slot o := by
    intro slot o
    constructor
    · intro h
      cases slot with
      | register r =>
        cases o with
        | register r' =>
          obtain rfl : r = r' := of_decide_eq_true h
          exact .register
        | expression e => cases h
      | value kind =>
        cases o with
        | register r => cases h
        | expression e => exact .value
    · rintro (_ | _)
      · exact decide_eq_true rfl
      · rfl
  simp only [Takes, hfits]

/-- The slot that takes an operand after others. -/
lemma Encoding.Takes.exists_slot {e : Encoding} {done os : List Operand} {o : Operand}
    (h : e.Takes (done ++ o :: os)) :
    ∃ slot, e.slots[done.length]? = some slot ∧ fits slot o.register? = true := by
  have hlength : done.length < e.slots.length := by
    rw [h.length_eq, List.length_append, List.length_cons]
    omega
  refine ⟨e.slots[done.length], List.getElem?_eq_getElem hlength, ?_⟩
  simpa using h.get hlength (by simp)

namespace Line

variable {ctx : Context} {ending : Token}

/-- An expression is read off the tokens of a line exactly when they begin with it. -/
lemma readExpression_eq_ok_iff {ts : List Token} {e : Expr} {rest : List Token} :
    readExpression ctx ending ts = .ok (e, rest) ↔
      Expr.Begins ctx.keepCase (.binary .disjunction) ts e rest := by
  rw [← @Expr.read_eq_ok_iff ⟨ctx.keepCase, ending⟩]
  constructor
  · fun_cases readExpression ctx ending ts with
    | case1 first hstarts result hread =>
      rintro ⟨⟩
      exact hread
    | case2 | case3 | case4 => rintro ⟨⟩
  · intro h
    obtain ⟨used, rfl, hused, -⟩ := Expr.read_eq_ok_iff.1 h
    obtain ⟨t, us, rfl, hstarts, -⟩ := hused.exists_cons
    simp only [readExpression, List.cons_append, List.headD_cons, hstarts, if_true]
    rw [← List.cons_append, h]

/-- An operand is read off the tokens of a line exactly when they begin with a register or an
expression and the mnemonic can take that here. -/
lemma readOperand_eq_ok_iff (hending : ending.kind.isLineEnd = true) {m : Mnemonic}
    {index count : Nat} {ts : List Token} {o : Operand} {rest : List Token} :
    readOperand ctx ending m index count ts = .ok (o, rest) ↔
      (∃ t r, ts = t :: rest ∧ t.kind = .register r ∧ o = .register r ∧
        Encoding.acceptsRegister m index = true) ∨
      ∃ e, o = .expression e ∧ Expr.Begins ctx.keepCase (.binary .disjunction) ts e rest ∧
        Encoding.acceptsValue m index = true := by
  constructor
  · fun_cases readOperand ctx ending m index count ts with
    | case1 first r hkind haccepts =>
      rintro ⟨⟩
      cases ts with
      | nil =>
        -- a line does not end with a register
        have hregister : ending.kind = .register r := hkind
        rw [hregister] at hending
        cases hending
      | cons t ts => exact .inl ⟨t, r, rfl, hkind, rfl, haccepts⟩
    | case3 first haccepts e rest hread =>
      rintro ⟨⟩
      exact .inr ⟨e, rfl, readExpression_eq_ok_iff.1 hread, haccepts⟩
    | case2 | case4 | case5 | case6 | case7 => rintro ⟨⟩
  · rintro (⟨t, r, rfl, ht, rfl, haccepts⟩ | ⟨e, rfl, hbegins, haccepts⟩)
    · simp [readOperand, ht, haccepts]
    · have hread : readExpression ctx ending ts = .ok (e, rest) :=
        readExpression_eq_ok_iff.2 hbegins
      obtain ⟨used, rfl, hused, -⟩ := hbegins
      obtain ⟨t, us, rfl, hstarts, -⟩ := hused.exists_cons
      fun_cases readOperand ctx ending m index count (t :: us ++ rest) with
      | case1 first r hkind | case2 first r hkind =>
        have hregister : t.kind = .register r := hkind
        rw [hregister] at hstarts
        cases hstarts
      | case3 first haccepts e' rest' hread' =>
        cases hread.symm.trans hread'
        rfl
      | case4 first haccepts f hread' => cases hread.symm.trans hread'
      | case5 first hrefused => exact absurd haccepts hrefused
      | case6 first hregister hstarts' | case7 first hregister hstarts' =>
        exact absurd hstarts hstarts'

/-- An operand that is read consists of the tokens before the rest. -/
lemma derives_of_readOperand (hending : ending.kind.isLineEnd = true) {m : Mnemonic}
    {index count : Nat} {ts : List Token} {o : Operand} {rest : List Token}
    (h : readOperand ctx ending m index count ts = .ok (o, rest)) :
    ∃ used, ts = used ++ rest ∧ o.Derives ctx.keepCase used := by
  rcases (readOperand_eq_ok_iff hending).1 h with ⟨t, r, rfl, ht, rfl, -⟩ | ⟨e, rfl, hbegins, -⟩
  · exact ⟨[t], rfl, .register ht⟩
  · obtain ⟨used, rfl, hused, -⟩ := hbegins
    exact ⟨used, rfl, .expression hused⟩

/-- The comma before an operand other than the first. -/
lemma readComma_eq_ok_iff (hending : ending.kind.isLineEnd = true) {m : Mnemonic}
    {index : Nat} (hindex : index ≠ 0) {count : Nat} {ts rest : List Token} :
    readComma ctx ending m index count ts = .ok rest ↔
      ∃ comma, ts = comma :: rest ∧ comma.kind = .punctuation .comma := by
  unfold readComma
  rw [if_neg hindex]
  cases ts with
  | nil => simp [hending]
  | cons t ts =>
    by_cases ht : t.kind = .punctuation .comma
    · simp [ht, Token.Kind.isLineEnd]
    · simp only [List.headD_cons, ht, if_false, List.cons.injEq]
      constructor
      · intro h
        split at h <;> cases h
      · rintro ⟨comma, ⟨rfl, -⟩, hcomma⟩
        exact absurd hcomma ht

/-- **Operands after the first one** consist of the tokens before the rest, with a comma before
each.

**Proof sketch.** Induction on the number of operands that are left. It is less than the number of
all operands, so a comma is read first. -/
lemma further_of_readOperands (hending : ending.kind.isLineEnd = true) {m : Mnemonic}
    {count left : Nat} (hleft : left < count) {ts : List Token} {os : List Operand}
    {rest : List Token} (h : readOperands ctx ending m count left ts = .ok (os, rest)) :
    ∃ used, ts = used ++ rest ∧ Operand.Further ctx.keepCase used os ∧ os.length = left := by
  induction left generalizing ts os with
  | zero =>
    cases h
    exact ⟨[], rfl, .nil, rfl⟩
  | succ left ih =>
    simp only [readOperands, bind_eq_ok_iff] at h
    obtain ⟨ts₁, hread, ⟨o, ts₂⟩, ho, ⟨os, ts₃⟩, hos, h⟩ := h
    cases h
    obtain ⟨comma, rfl, hcomma⟩ := (readComma_eq_ok_iff hending (by omega)).1 hread
    obtain ⟨used, rfl, hused⟩ := derives_of_readOperand hending ho
    obtain ⟨more, rfl, hmore, rfl⟩ := ih (by omega) hos
    exact ⟨comma :: (used ++ more), by simp, .cons hcomma hused hmore, rfl⟩

/-- All operands consist of the tokens before the rest, with commas between them. -/
lemma listed_of_readOperands (hending : ending.kind.isLineEnd = true) {m : Mnemonic}
    {count : Nat} {ts : List Token} {os : List Operand} {rest : List Token}
    (h : readOperands ctx ending m count count ts = .ok (os, rest)) :
    ∃ used, ts = used ++ rest ∧ Operand.Listed ctx.keepCase used os ∧ os.length = count := by
  cases count with
  | zero =>
    cases h
    exact ⟨[], rfl, .nil, rfl⟩
  | succ left =>
    simp only [readOperands, bind_eq_ok_iff, readComma, Nat.sub_self, if_true] at h
    obtain ⟨ts₁, hcomma, ⟨o, ts₂⟩, ho, ⟨os, ts₃⟩, hos, h⟩ := h
    cases h
    cases hcomma
    obtain ⟨used, rfl, hused⟩ := derives_of_readOperand hending ho
    obtain ⟨more, rfl, hmore, rfl⟩ := further_of_readOperands hending (Nat.lt_succ_self _) hos
    exact ⟨used ++ more, by simp, .cons hused hmore, rfl⟩

/-- An operand that a row takes in a position is read there, if it ends before the rest. -/
lemma readOperand_of_derives (hending : ending.kind.isLineEnd = true) {encoding : Encoding}
    (htable : encoding ∈ Encoding.table) {index : Nat} {slot : Slot}
    (hslot : encoding.slots[index]? = some slot) {o : Operand}
    (hfits : Encoding.fits slot o.register? = true) {used : List Token}
    (hused : o.Derives ctx.keepCase used) {rest : List Token}
    (hrest : Expr.Ends (.binary .disjunction) rest) (count : Nat) :
    readOperand ctx ending encoding.mnemonic index count (used ++ rest) = .ok (o, rest) := by
  have haccepts := Encoding.accepts_slot htable hslot
  rw [readOperand_eq_ok_iff hending]
  cases hused with
  | @register t r ht =>
    cases slot with
    | register r' => exact .inl ⟨t, r, rfl, ht, rfl, haccepts⟩
    | value kind => cases hfits
  | @expression _ e he =>
    cases slot with
    | register r => cases hfits
    | value kind => exact .inr ⟨e, rfl, ⟨used, rfl, he, hrest⟩, haccepts⟩

/-- An expression ends before a comma, and before the end of the tokens. -/
lemma ends_of_further {keepCase : Bool} {ts : List Token} {os : List Operand}
    (h : Operand.Further keepCase ts os) (stratum : Expr.Stratum) : Expr.Ends stratum ts := by
  cases h with
  | nil => simp [Expr.Ends]
  | cons hcomma _ _ =>
    exact Expr.ends_of_operator?_eq_none (fun level => by rw [hcomma]; cases level <;> rfl) _

/-- Operands are read after those of `done` if the comma before them is, and those after the first
one are. -/
lemma readOperands_of_cons (hending : ending.kind.isLineEnd = true) {encoding : Encoding}
    (htable : encoding ∈ Encoding.table) (done : List Operand) {os : List Operand} {o : Operand}
    {ts used us : List Token} (hcomma : readComma ctx ending encoding.mnemonic done.length
      encoding.slots.length ts = .ok (used ++ us))
    (ho : o.Derives ctx.keepCase used) (hos : Operand.Further ctx.keepCase us os)
    (htakes : encoding.Takes (done ++ o :: os))
    (hread : readOperands ctx ending encoding.mnemonic encoding.slots.length os.length us =
      .ok (os, [])) :
    readOperands ctx ending encoding.mnemonic encoding.slots.length (o :: os).length ts =
      .ok (o :: os, []) := by
  obtain ⟨slot, hslot, hfits⟩ := htakes.exists_slot
  have hindex : encoding.slots.length - (os.length + 1) = done.length := by
    rw [htakes.length_eq, List.length_append, List.length_cons]
    omega
  have hoperand := readOperand_of_derives hending htable hslot hfits ho
    (ends_of_further hos _) encoding.slots.length
  rw [List.length_cons, readOperands]
  simp only [hindex, bind_eq_ok_iff]
  exact ⟨_, hcomma, _, hoperand, _, hread, rfl⟩

/-- **Operands are read after those of `done`** if a row takes all of them. -/
lemma readOperands_of_further (hending : ending.kind.isLineEnd = true) {encoding : Encoding}
    (htable : encoding ∈ Encoding.table) (done : List Operand) {ts : List Token}
    {os : List Operand} (h : Operand.Further ctx.keepCase ts os) (hdone : done.length ≠ 0)
    (htakes : encoding.Takes (done ++ os)) :
    readOperands ctx ending encoding.mnemonic encoding.slots.length os.length ts =
      .ok (os, []) := by
  induction h generalizing done with
  | nil => rfl
  | @cons comma ts us o os hcomma ho hos ih =>
    have hread := ih (done ++ [o]) (by simp) (by simpa using htakes)
    exact readOperands_of_cons hending htable done
      ((readComma_eq_ok_iff hending hdone).2 ⟨comma, rfl, hcomma⟩) ho hos htakes hread

/-- **Operands are read** if a row takes them. -/
lemma readOperands_of_listed (hending : ending.kind.isLineEnd = true) {encoding : Encoding}
    (htable : encoding ∈ Encoding.table) {ts : List Token} {os : List Operand}
    (h : Operand.Listed ctx.keepCase ts os) (htakes : encoding.Takes os) :
    readOperands ctx ending encoding.mnemonic encoding.slots.length os.length ts =
      .ok (os, []) := by
  cases h with
  | nil => rfl
  | @cons _ _ o _ ho hos =>
    have hread := readOperands_of_further hending htable [o] hos (by simp) htakes
    exact readOperands_of_cons hending htable [] rfl ho hos htakes hread

/-! ## Statements -/

/-- **An instruction is read** as the row whose form its operands have. -/
lemma readInstruction_eq_ok_iff (hending : ending.kind.isLineEnd = true) {t : Token} {m : Mnemonic}
    (ht : t.kind = .mnemonic m) {ts : List Token} {s : Statement} :
    readInstruction ctx ending t m ts = .ok (s, []) ↔ s.Derives ctx (t :: ts) := by
  constructor
  · intro h
    simp only [readInstruction, bind_eq_ok_iff] at h
    obtain ⟨⟨operands, rest⟩, hread, h⟩ := h
    cases hselect : Encoding.select? m (operands.map Operand.register?) with
    | none =>
      simp only [hselect] at h
      cases h
    | some encoding =>
      simp only [hselect] at h
      cases h
      obtain ⟨htable, rfl, htakes⟩ := Encoding.select?_eq_some hselect
      obtain ⟨used, rfl, hlisted, hcount⟩ := listed_of_readOperands hending hread
      rw [List.append_nil]
      exact .instruction ht htable hlisted hcount (Encoding.takes_iff.1 htakes)
  · intro h
    cases h with
    | instruction ht' htable hlisted _ hform =>
      obtain rfl := Token.Kind.mnemonic.inj (ht.symm.trans ht')
      have htakes := Encoding.takes_iff.2 hform
      have hread := readOperands_of_listed hending htable hlisted htakes
      rw [← htakes.length_eq] at hread
      simp only [readInstruction, Encoding.operandCount_eq htable, bind_eq_ok_iff]
      refine ⟨_, hread, ?_⟩
      simp only [htakes.select?_eq htable]
      rfl
    | origin ht' | data ht' | namedData ht' | equate ht' => cases ht.symm.trans ht'

/-- A statement whose expression is all that is left on the line. -/
lemma readExpression_bind_eq_ok_iff (action : Expr → Action) {t : Token} {ts : List Token}
    {s : Statement} :
    (do
      let (e, rest) ← readExpression ctx ending ts
      return (ctx.statement t (action e), rest)) = Except.ok (s, ([] : List Token)) ↔
      ∃ e, Expr.Derives ctx.keepCase (.binary .disjunction) ts e ∧
        s = ctx.statement t (action e) := by
  rw [bind_eq_ok_iff]
  constructor
  · rintro ⟨⟨e, rest⟩, hread, h⟩
    cases h
    exact ⟨e, Expr.begins_nil_iff.1 (readExpression_eq_ok_iff.1 hread), rfl⟩
  · rintro ⟨e, he, rfl⟩
    exact ⟨(e, []), readExpression_eq_ok_iff.2 (Expr.begins_nil_iff.2 he), rfl⟩

/-- The statements that begin with a name. -/
lemma derives_identifier_iff {t : Token} {name : String} (ht : t.kind = .identifier name)
    {ts : List Token} {s : Statement} :
    s.Derives ctx (t :: ts) ↔ ∃ directive us e, ts = directive :: us ∧
      Expr.Derives ctx.keepCase (.binary .disjunction) us e ∧
      ((∃ width : Width, directive.kind = .keyword width.directive ∧
          s = ctx.statement t (.data (some (ctx.labelName name)) width e)) ∨
        (directive.kind = .keyword .equ ∧
          s = ctx.statement t (.equate (ctx.labelName name) e))) := by
  constructor
  · intro h
    cases h with
    | namedData ht' hdirective he =>
      cases ht.symm.trans ht'
      exact ⟨_, _, _, rfl, he, .inl ⟨_, hdirective, rfl⟩⟩
    | equate ht' hdirective he =>
      cases ht.symm.trans ht'
      exact ⟨_, _, _, rfl, he, .inr ⟨hdirective, rfl⟩⟩
    | origin ht' | data ht' | instruction ht' => cases ht.symm.trans ht'
  · rintro ⟨directive, us, e, rfl, he, ⟨width, hdirective, rfl⟩ | ⟨hdirective, rfl⟩⟩
    · exact .namedData ht hdirective he
    · exact .equate ht hdirective he

/-- The keywords of data directives. -/
lemma widthOf?_eq_some_iff {kind : Token.Kind} {width : Width} :
    widthOf? kind = some width ↔ kind = .keyword width.directive := by
  constructor
  · intro h
    unfold widthOf? at h
    split at h <;> cases h <;> rfl
  · rintro rfl
    cases width <;> rfl

/-- A line whose first token is no line end is not empty. -/
lemma exists_cons_of_headD (hending : ending.kind.isLineEnd = true) {ts : List Token}
    (h : (ts.headD ending).kind.isLineEnd = false) : ∃ t us, ts = t :: us := by
  cases ts with
  | nil =>
    rw [List.headD_nil, hending] at h
    cases h
  | cons t us => exact ⟨t, us, rfl⟩

/-- **A directive after a name is read** exactly when its tokens are those of one. -/
lemma readNamed_eq_ok_iff (hending : ending.kind.isLineEnd = true) {t : Token} {name : String}
    (ht : t.kind = .identifier name) {ts : List Token} {s : Statement} :
    readNamed ctx ending t name ts = .ok (s, []) ↔ s.Derives ctx (t :: ts) := by
  rw [derives_identifier_iff ht]
  constructor
  · fun_cases readNamed ctx ending t name ts with
    | case1 directive width hwidth =>
      intro h
      obtain ⟨e, he, rfl⟩ :=
        (readExpression_bind_eq_ok_iff (.data (some (ctx.labelName name)) width)).1 h
      have hdirective := widthOf?_eq_some_iff.1 hwidth
      obtain ⟨directive, us, rfl⟩ := exists_cons_of_headD hending (by rw [hdirective]; rfl)
      exact ⟨directive, us, e, rfl, he, .inl ⟨width, hdirective, rfl⟩⟩
    | case2 directive hwidth hequ =>
      intro h
      obtain ⟨e, he, rfl⟩ := (readExpression_bind_eq_ok_iff (.equate (ctx.labelName name))).1 h
      obtain ⟨directive, us, rfl⟩ := exists_cons_of_headD hending (by rw [hequ]; rfl)
      exact ⟨directive, us, e, rfl, he, .inr ⟨hequ, rfl⟩⟩
    | case3 | case4 => rintro ⟨⟩
  · rintro ⟨directive, us, e, rfl, he, ⟨width, hdirective, rfl⟩ | ⟨hequ, rfl⟩⟩
    · simp only [readNamed, List.headD_cons, List.tail_cons, widthOf?_eq_some_iff.2 hdirective]
      exact (readExpression_bind_eq_ok_iff _).2 ⟨e, he, rfl⟩
    · simp only [readNamed, List.headD_cons, List.tail_cons, hequ, if_true]
      exact (readExpression_bind_eq_ok_iff _).2 ⟨e, he, rfl⟩

/-- The statements that begin with a keyword. -/
lemma derives_keyword_iff {t : Token} {k : Keyword} (ht : t.kind = .keyword k) {ts : List Token}
    {s : Statement} :
    s.Derives ctx (t :: ts) ↔ ∃ e, Expr.Derives ctx.keepCase (.binary .disjunction) ts e ∧
      ((k = .org ∧ s = ctx.statement t (.origin e)) ∨
        (k = .db ∧ s = ctx.statement t (.data none .byte e)) ∨
        (k = .dw ∧ s = ctx.statement t (.data none .word e))) := by
  constructor
  · intro h
    cases h with
    | origin ht' he =>
      cases ht.symm.trans ht'
      exact ⟨_, he, .inl ⟨rfl, rfl⟩⟩
    | @data _ width _ _ ht' he =>
      cases ht.symm.trans ht'
      cases width with
      | byte => exact ⟨_, he, .inr (.inl ⟨rfl, rfl⟩)⟩
      | word => exact ⟨_, he, .inr (.inr ⟨rfl, rfl⟩)⟩
    | namedData ht' | equate ht' | instruction ht' => cases ht.symm.trans ht'
  · rintro ⟨e, he, ⟨rfl, rfl⟩ | ⟨rfl, rfl⟩ | ⟨rfl, rfl⟩⟩
    · exact .origin ht he
    · exact .data ht he
    · exact .data ht he

/-- **A statement is read** exactly when its tokens are those of one. -/
lemma readStatement_eq_ok_iff (hending : ending.kind.isLineEnd = true) {t : Token}
    {ts : List Token} {s : Statement} :
    readStatement ctx ending t ts = .ok (s, []) ↔ s.Derives ctx (t :: ts) := by
  fun_cases readStatement ctx ending t ts with
  | case1 m ht => exact readInstruction_eq_ok_iff hending ht
  | case2 ht =>
    refine (readExpression_bind_eq_ok_iff .origin).trans ?_
    simp [derives_keyword_iff ht]
  | case3 ht =>
    refine (readExpression_bind_eq_ok_iff (.data none .byte)).trans ?_
    simp [derives_keyword_iff ht]
  | case4 ht =>
    refine (readExpression_bind_eq_ok_iff (.data none .word)).trans ?_
    simp [derives_keyword_iff ht]
  | case5 name ht => exact readNamed_eq_ok_iff hending ht
  | case6 ht => simp [derives_keyword_iff ht]
  | case7 hmnemonic horg hdb hdw hidentifier hequ =>
    simp only [reduceCtorEq, false_iff]
    intro h
    cases h with
    | origin ht => exact horg ht
    | @data _ width _ _ ht =>
      cases width with
      | byte => exact hdb ht
      | word => exact hdw ht
    | namedData ht | equate ht => exact hidentifier _ ht
    | instruction ht => exact hmnemonic _ ht

/-! ## Lines -/

/-- **What comes after a label is read** exactly when it is nothing or a statement. -/
lemma readRest_eq_ok_iff (hending : ending.kind.isLineEnd = true) {ts : List Token}
    {ss : List Statement} : readRest ctx ending ts = .ok ss ↔ Body ctx ts ss := by
  cases ts with
  | nil =>
    constructor
    · rintro ⟨⟩
      exact .nil
    · intro h
      cases h with
      | nil => rfl
      | statement hs => cases hs
  | cons t ts =>
    simp only [readRest, bind_eq_ok_iff]
    constructor
    · rintro ⟨⟨s, rest⟩, hs, _, hend, h⟩
      cases h
      cases rest with
      | nil => exact .statement ((readStatement_eq_ok_iff hending).1 hs)
      | cons t' rest =>
        unfold expectEnd at hend
        simp only at hend
        split at hend <;> cases hend
    · intro h
      cases h with
      | statement hs => exact ⟨_, (readStatement_eq_ok_iff hending).2 hs, (), rfl, rfl⟩

/-- Operands do not begin with a colon. -/
lemma ne_colon_of_listed {keepCase : Bool} {ts : List Token} {os : List Operand}
    (h : Operand.Listed keepCase ts os) : ∀ t ∈ ts.head?, t.kind ≠ .punctuation .colon := by
  cases h with
  | nil => simp
  | cons ho _ =>
    cases ho with
    | register ht => simp [ht]
    | expression he =>
      obtain ⟨t, us, rfl, hstarts, -⟩ := he.exists_cons
      rintro _ ⟨⟩ hcolon
      rw [hcolon] at hstarts
      cases hstarts

/-- The second token of a statement is no colon. -/
lemma ne_colon_of_derives {t t' : Token} {ts : List Token} {s : Statement}
    (h : s.Derives ctx (t :: t' :: ts)) : t'.kind ≠ .punctuation .colon := by
  intro hcolon
  have hexpr : ∀ {e : Expr}, ¬Expr.Derives ctx.keepCase (.binary .disjunction) (t' :: ts) e := by
    intro e he
    obtain ⟨_, _, ⟨⟩, hstarts, -⟩ := he.exists_cons
    rw [hcolon] at hstarts
    cases hstarts
  cases h with
  | origin _ he | data _ he => exact hexpr he
  | namedData _ hdirective | equate _ hdirective => cases hcolon.symm.trans hdirective
  | instruction _ _ hoperands => exact ne_colon_of_listed hoperands t' rfl hcolon

/-- A line that begins with a label declaration goes on with nothing or a statement. -/
lemma derives_labelled_iff {t colon : Token} {name : String} (ht : t.kind = .identifier name)
    (hcolon : colon.kind = .punctuation .colon) {ts : List Token} {ss : List Statement} :
    Derives ctx (t :: colon :: ts) ss ↔
      ∃ ss', Body ctx ts ss' ∧ ss = ctx.statement t (.label (ctx.labelName name)) :: ss' := by
  constructor
  · intro h
    cases h with
    | unlabelled hss =>
      cases hss with
      | statement hs => exact absurd hcolon (ne_colon_of_derives hs)
    | labelled ht' _ hss =>
      cases ht.symm.trans ht'
      exact ⟨_, hss, rfl⟩
  · rintro ⟨ss', hss, rfl⟩
    exact .labelled ht hcolon hss

/-- A line that does not begin with a label declaration is nothing or a statement. -/
lemma derives_unlabelled_iff {ts : List Token} (h : ∀ t colon us name, ts = t :: colon :: us →
      t.kind = .identifier name → colon.kind ≠ .punctuation .colon) {ss : List Statement} :
    Derives ctx ts ss ↔ Body ctx ts ss := by
  constructor
  · intro hss
    cases hss with
    | unlabelled hss => exact hss
    | labelled ht hcolon _ => exact absurd hcolon (h _ _ _ _ rfl ht)
  · exact .unlabelled

/-- **A line is read** exactly when its tokens are those of one. -/
lemma read_eq_ok_iff {line : Line} (hending : line.ending.kind.isLineEnd = true)
    {ss : List Statement} : line.read ctx = .ok ss ↔ Derives ctx line.tokens ss := by
  -- without a name before a colon, the whole line is at most one statement
  have hplain : (∀ t colon us name, line.tokens = t :: colon :: us → t.kind = .identifier name →
      colon.kind ≠ .punctuation .colon) →
        (readRest ctx line.ending line.tokens = .ok ss ↔ Derives ctx line.tokens ss) := by
    intro hname
    rw [derives_unlabelled_iff hname, readRest_eq_ok_iff hending]
  fun_cases read ctx line with
  | case1 t colon ts htokens hcolon name ht =>
    rw [htokens, derives_labelled_iff ht hcolon, bind_eq_ok_iff]
    simp only [readRest_eq_ok_iff hending]
    refine exists_congr fun ss' => and_congr_right fun _ => ?_
    exact ⟨fun h => (Except.ok.inj h).symm, fun h => congrArg Except.ok h.symm⟩
  | case2 t colon ts htokens hcolon hname =>
    rw [derives_unlabelled_iff]
    · simp only [reduceCtorEq, false_iff]
      intro h
      rw [htokens] at h
      cases h with
      | statement hs => exact ne_colon_of_derives hs hcolon
    · intro t' colon' us name htokens' ht
      cases htokens.symm.trans htokens'
      exact absurd ht (hname name)
  | case3 t colon ts htokens hcolon hname =>
    refine hplain fun t' colon' us name htokens' ht => ?_
    cases htokens.symm.trans htokens'
    exact absurd ht (hname name)
  | case4 t colon ts htokens hcolon =>
    refine hplain fun t' colon' us name htokens' _ => ?_
    cases htokens.symm.trans htokens'
    exact hcolon
  | case5 hshort => exact hplain fun t colon us name htokens _ => absurd htokens (hshort t colon us)

end Line

/-! ## Lines hold no line end -/

/-- Operands extend over no line end. -/
lemma Operand.Derives.isLineEnd_eq_false {keepCase : Bool} {ts : List Token} {o : Operand}
    (h : o.Derives keepCase ts) : ∀ t ∈ ts, t.kind.isLineEnd = false := by
  cases h with
  | register ht => exact List.forall_mem_singleton.2 (by rw [ht]; rfl)
  | expression he => exact he.isLineEnd_eq_false

/-- Operands with commas before them extend over no line end. -/
lemma Operand.Further.isLineEnd_eq_false {keepCase : Bool} {ts : List Token} {os : List Operand}
    (h : Further keepCase ts os) : ∀ t ∈ ts, t.kind.isLineEnd = false := by
  induction h with
  | nil => simp
  | cons hcomma ho _ ih =>
    refine List.forall_mem_cons.2 ⟨by rw [hcomma]; rfl, ?_⟩
    exact List.forall_mem_append.2 ⟨ho.isLineEnd_eq_false, ih⟩

/-- A statement extends over no line end. -/
lemma Statement.Derives.isLineEnd_eq_false {ctx : Context} {ts : List Token} {s : Statement}
    (h : s.Derives ctx ts) : ∀ t ∈ ts, t.kind.isLineEnd = false := by
  cases h with
  | origin ht he | data ht he =>
    exact List.forall_mem_cons.2 ⟨by rw [ht]; rfl, he.isLineEnd_eq_false⟩
  | namedData ht hdirective he | equate ht hdirective he =>
    refine List.forall_mem_cons.2 ⟨by rw [ht]; rfl, ?_⟩
    exact List.forall_mem_cons.2 ⟨by rw [hdirective]; rfl, he.isLineEnd_eq_false⟩
  | instruction ht _ hoperands =>
    refine List.forall_mem_cons.2 ⟨by rw [ht]; rfl, ?_⟩
    cases hoperands with
    | nil => simp
    | cons ho hos =>
      exact List.forall_mem_append.2 ⟨ho.isLineEnd_eq_false, hos.isLineEnd_eq_false⟩

namespace Line

variable {ctx : Context}

/-- A line extends over no line end. -/
lemma Derives.isLineEnd_eq_false {ts : List Token} {ss : List Statement}
    (h : Line.Derives ctx ts ss) : ∀ t ∈ ts, t.kind.isLineEnd = false := by
  have hbody : ∀ {ts : List Token} {ss : List Statement}, Body ctx ts ss →
      ∀ t ∈ ts, t.kind.isLineEnd = false := by
    intro ts ss hss
    cases hss with
    | nil => simp
    | statement hs => exact hs.isLineEnd_eq_false
  cases h with
  | unlabelled hss => exact hbody hss
  | labelled ht hcolon hss =>
    refine List.forall_mem_cons.2 ⟨by rw [ht]; rfl, List.forall_mem_cons.2 ⟨?_, hbody hss⟩⟩
    rw [hcolon]
    rfl

/-! ## Programs -/

/-- Statements that were read before come first. -/
lemma readAllFrom_eq_ok_iff {done : List Statement} {lines : List Line} {ss : List Statement} :
    readAllFrom ctx done lines = .ok ss ↔
      ∃ ss', readAll ctx lines = .ok ss' ∧ ss = done.reverse ++ ss' := by
  induction lines generalizing done ss with
  | nil => simp [readAll, readAllFrom, eq_comm]
  | cons line lines ih =>
    simp only [readAll, readAllFrom, bind_eq_ok_iff]
    constructor
    · rintro ⟨first, hfirst, hrest⟩
      obtain ⟨rest, hlines, rfl⟩ := ih.1 hrest
      exact ⟨first ++ rest, ⟨first, hfirst, ih.2 ⟨rest, hlines, by simp⟩⟩, by simp⟩
    · rintro ⟨_, ⟨first, hfirst, hrest⟩, rfl⟩
      obtain ⟨rest, hlines, rfl⟩ := ih.1 hrest
      exact ⟨first, hfirst, ih.2 ⟨rest, hlines, by simp⟩⟩

/-- The statements of lines are those of the first line and then those of the others. -/
lemma readAll_cons_eq_ok_iff {line : Line} {lines : List Line} {ss : List Statement} :
    readAll ctx (line :: lines) = .ok ss ↔
      ∃ first rest, line.read ctx = .ok first ∧ readAll ctx lines = .ok rest ∧
        ss = first ++ rest := by
  simp only [readAll, readAllFrom, bind_eq_ok_iff, List.append_nil]
  refine exists_congr fun first => ?_
  rw [readAllFrom_eq_ok_iff, List.reverse_reverse]
  simp only [readAll]
  exact ⟨fun ⟨hfirst, rest, hrest⟩ => ⟨rest, hfirst, hrest⟩,
    fun ⟨rest, hfirst, hrest⟩ => ⟨hfirst, rest, hrest⟩⟩

/-- Tokens that end no line are part of the line that has begun. -/
lemma splitFrom_append_of_plain (ending : Token) {ts : List Token}
    (hts : ∀ t ∈ ts, t.kind.isLineEnd = false) (line rest : List Token) :
    splitFrom ending line (ts ++ rest) = splitFrom ending (ts.reverse ++ line) rest := by
  induction ts generalizing line with
  | nil => rfl
  | cons t ts ih =>
    obtain ⟨ht, hts⟩ := List.forall_mem_cons.1 hts
    rw [List.reverse_cons, List.append_assoc]
    refine Eq.trans ?_ (ih hts (t :: line))
    cases hkind : t.kind with
    | newline | eof =>
      rw [hkind] at ht
      cases ht
    | _ => simp only [List.cons_append, splitFrom, hkind]

/-- The lines of a program are read as its statements. -/
lemma readAll_split_of_program {ts : List Token} {ss : List Statement} (h : Program ctx ts ss)
    (ending : Token) : readAll ctx (split ending ts) = .ok ss := by
  unfold split
  induction h with
  | @last ts ss mark hline hmark =>
    rw [splitFrom_append_of_plain ending hline.isLineEnd_eq_false, splitFrom]
    simp only [hmark, List.append_nil, List.reverse_reverse]
    refine readAll_cons_eq_ok_iff.2 ⟨ss, [], (read_eq_ok_iff ?_).2 hline, rfl, by simp⟩
    simp [hmark, Token.Kind.isLineEnd]
  | @cons ts rest ss ss' newline hline hnewline _ ih =>
    rw [splitFrom_append_of_plain ending hline.isLineEnd_eq_false, splitFrom]
    simp only [hnewline, List.append_nil, List.reverse_reverse]
    refine readAll_cons_eq_ok_iff.2 ⟨ss, ss', (read_eq_ok_iff ?_).2 hline, ih, rfl⟩
    simp [hnewline, Token.Kind.isLineEnd]

/-- Tokens with an end mark that are read as lines are a program.

**Proof sketch.** Induction on the tokens, where the tokens of `line` are those of the line that has
begun, in reverse. -/
lemma program_of_readAll_splitFrom {ending : Token} {line ts : List Token} (hts : EndMarked ts)
    {ss : List Statement} (h : readAll ctx (splitFrom ending line ts) = .ok ss) :
    Program ctx (line.reverse ++ ts) ss := by
  induction ts generalizing line ss with
  | nil => cases hts
  | cons t ts ih =>
    cases ht : t.kind with
    | newline =>
      simp only [splitFrom, ht] at h
      obtain ⟨first, rest, hfirst, hrest, rfl⟩ := readAll_cons_eq_ok_iff.1 h
      have hmarked : EndMarked ts := by simpa [EndMarked, ht] using hts
      exact .cons ((read_eq_ok_iff (by simp [ht, Token.Kind.isLineEnd])).1 hfirst) ht
        (ih hmarked hrest)
    | eof =>
      simp only [splitFrom, ht] at h
      obtain ⟨first, rest, hfirst, hrest, rfl⟩ := readAll_cons_eq_ok_iff.1 h
      obtain rfl : ts = [] := by simpa [EndMarked, ht] using hts
      cases hrest
      rw [List.reverse_nil, List.append_nil]
      exact .last ((read_eq_ok_iff (by simp [ht, Token.Kind.isLineEnd])).1 hfirst) ht
    | _ =>
      simp only [splitFrom, ht] at h
      have hmarked : EndMarked ts := by simpa [EndMarked, ht] using hts
      have hprogram := ih hmarked h
      rwa [List.reverse_cons, List.append_assoc] at hprogram

/-- **The lines of tokens are read** exactly when the tokens are a program. -/
lemma readAll_split_eq_ok_iff {ts : List Token} (hts : EndMarked ts) (ending : Token)
    {ss : List Statement} : readAll ctx (split ending ts) = .ok ss ↔ Program ctx ts ss :=
  ⟨program_of_readAll_splitFrom hts, fun h => readAll_split_of_program h ending⟩

end Line

namespace Statement

/-- What reading statements depends on, given the source text that is shown with them. -/
def Context.ofSource (source : Option String) (keepCase : Bool) : Context :=
  ⟨((source.map Text.splitLines).getD []).toArray, keepCase⟩

/-- **The reader of statements accepts exactly the grammar of lines.** The tokens of any text are
read as statements exactly when they are a program with these statements.

**Proof sketch.** Each function of the reader accepts what the grammar derives, from operands
(`Line.listed_of_readOperands`, `Line.readOperands_of_listed`) to statements
(`Line.readStatement_eq_ok_iff`) and lines (`Line.read_eq_ok_iff`). The tokens of a line hold no
line end, so that the lines of the grammar are those into which tokens are split. -/
theorem readTokens_eq_ok_iff_program {text name : String} {tokens : List Token}
    (h : tokenize text name = .ok tokens) (file : String) (source : Option String)
    (keepCase : Bool) (ss : List Statement) :
    readTokens tokens file source keepCase = .ok ss ↔
      Program (Context.ofSource source keepCase) tokens ss :=
  Line.readAll_split_eq_ok_iff (endMarked_of_tokenize h) (Expr.endMark file tokens)

/-- A text with a label, an instruction, an empty line and a directive. -/
def sampleText : String := "loop: MVI a, 1+2 ; load\n\nsize EQU $\n"

/-- The tokens of the sample. -/
def sampleTokens : List Token := (tokenize sampleText "sample.asm").toOption.getD []

/-- The statements of the sample. -/
def sampleStatements : List Statement :=
  let place : Nat → Nat → Location := fun line column => ⟨"sample.asm", line, column⟩
  let sum := .binary (place 1 15) .add (.literal (place 1 14) 1) (.literal (place 1 16) 2)
  [⟨place 1 1, "loop: MVI a, 1+2 ; load", .label "LOOP"⟩,
    ⟨place 1 7, "loop: MVI a, 1+2 ; load",
      .instruction ⟨.mvi, [.register .a, .value .byte], 0x3E⟩ [.register .a, .expression sum]⟩,
    ⟨place 3 1, "size EQU $", .equate "SIZE" (.here (place 3 10))⟩]

/-- The tokens of the sample are a program with its statements. -/
theorem program_sample :
    tokenize sampleText "sample.asm" = .ok sampleTokens ∧
      Program (Context.ofSource (some sampleText) false) sampleTokens sampleStatements :=
  have htokens : tokenize sampleText "sample.asm" = .ok sampleTokens := by decide +kernel
  ⟨htokens, (readTokens_eq_ok_iff_program htokens "sample.asm" (some sampleText) false _).1
    (by decide +kernel)⟩

end Statement

end Asm8080
