import Asm8080.Expr.Reading
import Asm8080.Statement.Basic
import Asm8080.Text.Lines
import Asm8080.Token.Cursor

/-!
# Reading lines

A program is read line by line. A line is the tokens between two line ends: an optional label
declaration, then nothing or one statement. Operands are checked against the instruction table as
they are read.

## Main definitions

* `Asm8080.Line` — the tokens of a line and the token that ends it.
* `Asm8080.Line.split` — the lines of a list of tokens.
* `Asm8080.Line.read` — the statements of a line.
* `Asm8080.Statement.readTokens`, `Asm8080.Statement.readSource` — the statements of a program.
-/

set_option autoImplicit false

namespace Asm8080

/-- The tokens of a line and the token that ends it. -/
structure Line where
  tokens : List Token
  ending : Token
deriving DecidableEq

namespace Line

/-- The lines of a list of tokens, the first of which has begun with the tokens of `line`, in
reverse. If the list lacks an end mark, `ending` ends the last line. -/
def splitFrom (ending : Token) (line : List Token) : List Token → List Line
  | [] => [⟨line.reverse, ending⟩]
  | t :: ts =>
    match t.kind with
    | .newline => ⟨line.reverse, t⟩ :: splitFrom ending [] ts
    | .eof => [⟨line.reverse, t⟩]
    | _ => splitFrom ending (t :: line) ts

/-- The lines of a list of tokens. -/
def split (ending : Token) (ts : List Token) : List Line := splitFrom ending [] ts

end Line

/-- What reading a statement depends on. -/
structure Statement.Context where
  /-- The lines of the source text. -/
  lines : Array String
  /-- Whether label names keep their case. -/
  keepCase : Bool

namespace Statement.Context

/-- The source line with a number, counted from 1. -/
def lineText (ctx : Context) (number : Nat) : Option String :=
  if number = 0 then none else ctx.lines[number - 1]?

/-- The name that a label goes by. -/
def labelName (ctx : Context) (name : String) : String :=
  if ctx.keepCase then name else Text.upper name

/-- A statement at a token. -/
def statement (ctx : Context) (t : Token) (action : Action) : Statement :=
  ⟨t.location, (ctx.lineText t.line).getD "", action⟩

/-- The failure for a fault at a token. -/
def fault (ctx : Context) (t : Token) (f : GrammarFault) : Failure :=
  .diagnostic ⟨.grammar f, some t.location, ctx.lineText t.line⟩

/-- The failure for a fault of an operand of `m` at a token. -/
def operandFault (ctx : Context) (t : Token) (m : Mnemonic) (f : OperandFault) : Failure :=
  .diagnostic ⟨.operand m.name f (Encoding.summary m), some t.location, ctx.lineText t.line⟩

end Statement.Context

namespace Line

open Statement (Context)

/-- Read an expression off tokens that `ending` follows. Diagnostics show the line of its first
token. -/
def readExpression (ctx : Context) (ending : Token) (ts : List Token) :
    Except Failure (Expr × List Token) :=
  let first := ts.headD ending
  if first.kind.startsExpression then
    match Expr.read ⟨ctx.keepCase, ending⟩ ts with
    | .ok result => .ok result
    | .error stuck => .error (stuck.failure (ctx.lineText first.line))
  else if first.kind.isLineEnd then .error (ctx.fault first .missingExpression)
  else .error (ctx.fault first (.expectedExpression first.kind))

/-! ## Instructions -/

/-- Read operand `index` of the `count` operands of `m`. -/
def readOperand (ctx : Context) (ending : Token) (m : Mnemonic) (index count : Nat)
    (ts : List Token) : Except Failure (Operand × List Token) :=
  let first := ts.headD ending
  match first.kind with
  | .register r =>
    if Encoding.acceptsRegister m index then .ok (.register r, ts.tail)
    else .error (ctx.operandFault first m (.notRegister index r))
  | kind =>
    if kind.startsExpression then
      if Encoding.acceptsValue m index then
        match readExpression ctx ending ts with
        | .ok (e, rest) => .ok (.expression e, rest)
        | .error f => .error f
      else .error (ctx.operandFault first m (.notExpression index))
    else if kind.isLineEnd then .error (ctx.operandFault first m (.wrongCount count))
    else .error (ctx.fault first (.unexpectedInOperand kind))

/-- Read the comma before operand `index` of `m`, if it is not the first. -/
def readComma (ctx : Context) (ending : Token) (m : Mnemonic) (index count : Nat)
    (ts : List Token) : Except Failure (List Token) :=
  if index = 0 then .ok ts
  else
    let first := ts.headD ending
    if first.kind.isLineEnd then .error (ctx.operandFault first m (.wrongCount count))
    else if first.kind = .punctuation .comma then .ok ts.tail
    else .error (ctx.fault first (.missingComma first.kind))

/-- Read the last `left` of the `count` operands of `m`. -/
def readOperands (ctx : Context) (ending : Token) (m : Mnemonic) (count : Nat) :
    (left : Nat) → List Token → Except Failure (List Operand × List Token)
  | 0, ts => .ok ([], ts)
  | left + 1, ts => do
    let index := count - (left + 1)
    let ts ← readComma ctx ending m index count ts
    let (operand, ts) ← readOperand ctx ending m index count ts
    let (operands, ts) ← readOperands ctx ending m count left ts
    return (operand :: operands, ts)

/-- Read the instruction whose mnemonic `m` is the token `t`. -/
def readInstruction (ctx : Context) (ending t : Token) (m : Mnemonic) (ts : List Token) :
    Except Failure (Statement × List Token) := do
  let count := Encoding.operandCount m
  let (operands, rest) ← readOperands ctx ending m count count ts
  let shape := operands.map Operand.register?
  match Encoding.select? m shape with
  | some encoding => return (ctx.statement t (.instruction encoding operands), rest)
  | none => throw (ctx.operandFault t m (.noSuchForm shape))

/-! ## Statements -/

/-- The width of a data directive. -/
def widthOf? : Token.Kind → Option Width
  | .keyword .db => some .byte
  | .keyword .dw => some .word
  | _ => none

/-- Read the directive that follows the name `name`, which is the token `t`. -/
def readNamed (ctx : Context) (ending t : Token) (name : String) (ts : List Token) :
    Except Failure (Statement × List Token) :=
  let directive := ts.headD ending
  match widthOf? directive.kind with
  | some width => do
    let (e, rest) ← readExpression ctx ending ts.tail
    return (ctx.statement t (.data (some (ctx.labelName name)) width e), rest)
  | none =>
    if directive.kind = .keyword .equ then do
      let (e, rest) ← readExpression ctx ending ts.tail
      return (ctx.statement t (.equate (ctx.labelName name) e), rest)
    else if directive.kind.isLineEnd then .error (ctx.fault directive (.missingColon name))
    else .error (ctx.fault t (.unknownStatement name))

/-- Read the statement that begins with the token `t`. -/
def readStatement (ctx : Context) (ending t : Token) (ts : List Token) :
    Except Failure (Statement × List Token) :=
  match t.kind with
  | .mnemonic m => readInstruction ctx ending t m ts
  | .keyword .org => do
    let (e, rest) ← readExpression ctx ending ts
    return (ctx.statement t (.origin e), rest)
  | .keyword .db => do
    let (e, rest) ← readExpression ctx ending ts
    return (ctx.statement t (.data none .byte e), rest)
  | .keyword .dw => do
    let (e, rest) ← readExpression ctx ending ts
    return (ctx.statement t (.data none .word e), rest)
  | .identifier name => readNamed ctx ending t name ts
  | .keyword .equ => .error (ctx.fault t .equateWithoutName)
  | kind => .error (ctx.fault t (.unexpected kind))

/-- Check that no token is left on the line. -/
def expectEnd (ctx : Context) (ts : List Token) : Except Failure Unit :=
  match ts with
  | [] => .ok ()
  | t :: _ =>
    if t.kind = .punctuation .rparen then .error (ctx.fault t .unbalancedParenthesis)
    else .error (ctx.fault t (.afterStatement t.kind))

/-- Read nothing or one statement up to the end of the line. -/
def readRest (ctx : Context) (ending : Token) (ts : List Token) :
    Except Failure (List Statement) :=
  match ts with
  | [] => .ok []
  | t :: ts => do
    let (s, rest) ← readStatement ctx ending t ts
    expectEnd ctx rest
    return [s]

/-- The statements of a line: a label declaration, then nothing or one statement. -/
def read (ctx : Context) (line : Line) : Except Failure (List Statement) :=
  match line.tokens with
  | t :: colon :: ts =>
    if colon.kind = .punctuation .colon then
      match t.kind with
      | .identifier name => do
        let rest ← readRest ctx line.ending ts
        return ctx.statement t (.label (ctx.labelName name)) :: rest
      | kind =>
        if kind.isReserved then
          .error (ctx.fault t (.reservedLabel (kind.spelling?.getD "")))
        else readRest ctx line.ending line.tokens
    else readRest ctx line.ending line.tokens
  | tokens => readRest ctx line.ending tokens

/-- The statements of lines, after those of `done` in reverse. -/
def readAllFrom (ctx : Context) (done : List Statement) :
    List Line → Except Failure (List Statement)
  | [] => .ok done.reverse
  | line :: lines => do
    let statements ← line.read ctx
    readAllFrom ctx (statements.reverse ++ done) lines

/-- The statements of lines. -/
def readAll (ctx : Context) (lines : List Line) : Except Failure (List Statement) :=
  readAllFrom ctx [] lines

end Line

namespace Statement

/-- The statements of a list of tokens. The lines of the source text, if there is one, are shown in
diagnostics and kept with the statements. -/
def readTokens (tokens : List Token) (file : String) (source : Option String) (keepCase : Bool) :
    Except Failure (List Statement) :=
  Line.readAll ⟨((source.map Text.splitLines).getD []).toArray, keepCase⟩
    (Line.split (Expr.endMark file tokens) tokens)

/-- The statements of a source text. -/
def readSource (source file : String) (keepCase : Bool) : Except Failure (List Statement) := do
  let tokens ← tokenize source file
  readTokens tokens file (some source) keepCase

end Statement

end Asm8080
