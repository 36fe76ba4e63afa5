import Asm8080.Expr.Evaluation

/-!
# Reading expressions

Expressions are read from tokens in six levels, from the loosest to the tightest: `OR` and `XOR`;
`AND`; `NOT`; sums; products, which include `MOD` and the shifts; and atoms. The operators of one
level group to the left, and `NOT` takes all that is tighter. Reading takes exactly the tokens of
one expression and returns the rest.

## Main definitions

* `Asm8080.Expr.Level` — the levels with two operands, and the operators of each.
* `Asm8080.Expr.Stuck` — a token at which no expression can go on.
* `Asm8080.Expr.Rule` — a way to read an expression; there is one for each level.
* `Asm8080.Expr.read` — read an expression off the front of a token list.
* `Asm8080.Expr.readAt` — read an expression from a position of a token list.
* `Asm8080.Expr.evaluateTokens` — read an expression that is all there is, and evaluate it.

## Implementation notes

There is no limit to how deep expressions may be nested: reading and evaluating go as deep as the
tokens do. A program that runs on a stack of a given size gives up on expressions that are nested
more deeply than the stack allows; nothing here stands for that.
-/

set_option autoImplicit false

namespace Asm8080.Expr

/-! ## Operators -/

/-- The levels of operators with two operands, from the loosest to the tightest. -/
inductive Level where
  | disjunction | conjunction | sum | product
deriving DecidableEq

/-- The operator of a level that a token stands for. -/
def Level.operator? : Level → Token.Kind → Option BinaryOp
  | disjunction, .keyword .or => some .or
  | disjunction, .keyword .xor => some .xor
  | conjunction, .keyword .and => some .and
  | sum, .punctuation .plus => some .add
  | sum, .punctuation .minus => some .sub
  | product, .punctuation .star => some .mul
  | product, .punctuation .slash => some .div
  | product, .keyword .mod => some .mod
  | product, .keyword .shl => some .shl
  | product, .keyword .shr => some .shr
  | _, _ => none

/-! ## Rules -/

/-- What reading an expression depends on. -/
structure Context where
  /-- Whether label names keep their case; otherwise they are put in upper case. -/
  keepCase : Bool
  /-- The token that is seen when there is none. -/
  ending : Token

/-- The name that a label goes by. -/
def Context.labelName (ctx : Context) (name : String) : String :=
  if ctx.keepCase then name else Text.upper name

/-- The token at which no expression can go on, why, and the tokens from it on. -/
structure Stuck where
  fault : GrammarFault
  token : Token
  rest : List Token
deriving DecidableEq

/-- An expression and the tokens after it, of which there are fewer than in `ts`. -/
abbrev Prefixed (ts : List Token) := { p : Expr × List Token // p.2.length < ts.length }

/-- A rule reads an expression off the front of any list of at most `n` tokens. -/
abbrev Rule (n : Nat) := (ts : List Token) → ts.length ≤ n → Except Stuck (Prefixed ts)

variable {n : Nat}

/-- Read more operands after `left`, for as long as operators of a level come between them. -/
def readTail (level : Level) (operand : Rule n) (left : Expr) (ts : List Token)
    (bound : ts.length ≤ n) : Except Stuck { p : Expr × List Token // p.2.length ≤ ts.length } :=
  match ts with
  | [] => .ok ⟨(left, []), Nat.le_refl _⟩
  | t :: rest =>
    match level.operator? t.kind with
    | none => .ok ⟨(left, t :: rest), Nat.le_refl _⟩
    | some op =>
      match operand rest (Nat.le_of_succ_le bound) with
      | .error stuck => .error stuck
      | .ok ⟨(right, after), shorter⟩ =>
        match readTail level operand (.binary t.location op left right) after
          (Nat.le_trans (Nat.le_of_lt shorter) (Nat.le_of_succ_le bound)) with
        | .error stuck => .error stuck
        | .ok ⟨p, le⟩ => .ok ⟨p, Nat.le_succ_of_le (Nat.le_trans le (Nat.le_of_lt shorter))⟩
termination_by ts.length
decreasing_by exact Nat.lt_succ_of_lt shorter

/-- Operands with operators of a level between them. -/
def binaryRule (level : Level) (operand : Rule n) : Rule n := fun ts bound =>
  match operand ts bound with
  | .error stuck => .error stuck
  | .ok ⟨(left, rest), shorter⟩ =>
    match readTail level operand left rest (Nat.le_trans (Nat.le_of_lt shorter) bound) with
    | .error stuck => .error stuck
    | .ok ⟨p, le⟩ => .ok ⟨p, Nat.lt_of_le_of_lt le shorter⟩

/-- An operand after any number of complements. -/
def complementRule (operand : Rule n) : Rule n
  | [], bound => operand [] bound
  | t :: rest, bound =>
    if t.kind = .keyword .not then
      match complementRule operand rest (Nat.le_of_succ_le bound) with
      | .error stuck => .error stuck
      | .ok ⟨(e, after), shorter⟩ =>
        .ok ⟨(.complement t.location e, after), Nat.lt_succ_of_lt shorter⟩
    else operand (t :: rest) bound

/-- A literal, a label, the current address, or what `inner` reads, in parentheses. -/
def atomRule (ctx : Context)
    (inner : (ts : List Token) → ts.length < n → Except Stuck (Prefixed ts)) : Rule n
  | [], _ => .error ⟨.missingOperand, ctx.ending, []⟩
  | t :: rest, bound =>
    match t.kind with
    | .number value _ => .ok ⟨(.literal t.location (Word.ofInt value), rest), Nat.lt_succ_self _⟩
    | .char c => .ok ⟨(.char t.location c, rest), Nat.lt_succ_self _⟩
    | .punctuation .dollar => .ok ⟨(.here t.location, rest), Nat.lt_succ_self _⟩
    | .identifier name =>
      .ok ⟨(.label t.location (ctx.labelName name), rest), Nat.lt_succ_self _⟩
    | .punctuation .lparen =>
      match inner rest bound with
      | .error stuck => .error stuck
      | .ok ⟨(_, []), _⟩ => .error ⟨.unclosedParenthesis, ctx.ending, []⟩
      | .ok ⟨(e, close :: after), shorter⟩ =>
        if close.kind = .punctuation .rparen then
          .ok ⟨(e, after), Nat.lt_succ_of_lt (Nat.lt_of_succ_lt shorter)⟩
        else .error ⟨.unclosedParenthesis, close, close :: after⟩
    | .punctuation .rparen => .error ⟨.unbalancedParenthesis, t, t :: rest⟩
    | .newline => .error ⟨.missingOperand, t, t :: rest⟩
    | .eof => .error ⟨.missingOperand, t, t :: rest⟩
    | kind => .error ⟨.expectedValue kind, t, t :: rest⟩

/-- An expression whose parentheses hold what `inner` reads. Complements bind looser than sums and
tighter than conjunctions. -/
def expressionRule (ctx : Context)
    (inner : (ts : List Token) → ts.length < n → Except Stuck (Prefixed ts)) : Rule n :=
  binaryRule .disjunction (binaryRule .conjunction (complementRule
    (binaryRule .sum (binaryRule .product (atomRule ctx inner)))))

/-! ## Expressions -/

/-- Read one expression, with a proof that tokens are used up. -/
def readShorter (ctx : Context) (ts : List Token) : Except Stuck (Prefixed ts) :=
  expressionRule ctx (fun rest _ => readShorter ctx rest) ts (Nat.le_refl _)
termination_by ts.length

/-- Read one expression off the front of a list of tokens. -/
def read (ctx : Context) (ts : List Token) : Except Stuck (Expr × List Token) :=
  match readShorter ctx ts with
  | .ok p => .ok p.val
  | .error stuck => .error stuck

/-! ## Token lists -/

/-- The end mark that is seen after a list of tokens: it stands at the last of them. -/
def endMark (file : String) (ts : List Token) : Token :=
  match ts.getLast? with
  | some t => ⟨.eof, t.file, t.line, t.column⟩
  | none => ⟨.eof, file, 1, 1⟩

/-- A diagnostic for a token at which no expression can go on. -/
def Stuck.failure (stuck : Stuck) (sourceLine : Option String) : Failure :=
  .diagnostic ⟨.grammar stuck.fault, some stuck.token.location, sourceLine⟩

/-- The tokens that are seen from a position on. From a negative position, which counts back from
the end, the tokens up to the end are seen, and then all of them. -/
def ahead? (ts : List Token) (position : Int) : Option (List Token) :=
  if 0 ≤ position then some (ts.drop position.toNat)
  else (Index.place? ts.length position).map fun place => ts.drop place ++ ts

/-- Read one expression from a position of a token list. The second part of the result is the
position where reading ended or failed. -/
def readAt (ts : List Token) (position : Int) (keepCase : Bool) (sourceLine : Option String) :
    Except Failure Expr × Int :=
  match ahead? ts position with
  | none => (.error (.positionOutOfRange position), position)
  | some ahead =>
    let past (rest : List Token) : Int := position + (ahead.length - rest.length : Nat)
    match read ⟨keepCase, endMark unnamedFile ts⟩ ahead with
    | .ok (e, rest) => (.ok e, past rest)
    | .error stuck => (.error (stuck.failure sourceLine), past stuck.rest)

/-- The value of the expression that a token list consists of. Nothing but the end of a line may
follow it. -/
def evaluateTokens (ts : List Token) (symbols : SymbolTable) (address : Int) :
    Except Failure Nat :=
  let ending := endMark unnamedFile ts
  match read ⟨false, ending⟩ ts with
  | .error stuck => .error (stuck.failure none)
  | .ok (e, rest) =>
    let trailing := rest.headD ending
    if trailing.kind.isLineEnd then e.evaluate symbols address none
    else
      .error (.diagnostic ⟨.grammar (.afterExpression trailing.kind), some trailing.location, none⟩)

end Asm8080.Expr
