import Asm8080.Diagnostic.Basic

/-!
# Expressions

Operand expressions as trees. Each node has the place of the token that it comes from, which for an
operation is its operator.

## Main definitions

* `Asm8080.BinaryOp` — operators with two operands. The one operator with one operand, `NOT`, is a
  kind of expression.
* `Asm8080.Expr` — expressions.
* `Asm8080.Expr.text` — an expression in full parentheses.
* `Asm8080.Expr.labels` — the labels that an expression names.
-/

set_option autoImplicit false

namespace Asm8080

/-- Operators with two operands. -/
inductive BinaryOp where
  | add | sub | mul | div | mod | shl | shr | and | or | xor
deriving DecidableEq

namespace BinaryOp

/-- The operators. -/
def all : List BinaryOp := [add, sub, mul, div, mod, shl, shr, and, or, xor]

/-- The spelling of an operator. -/
def symbol : BinaryOp → String
  | add => "+" | sub => "-" | mul => "*" | div => "/" | mod => "MOD" | shl => "SHL"
  | shr => "SHR" | and => "AND" | or => "OR" | xor => "XOR"

/-- The operator with a spelling. -/
def ofSymbol? (s : String) : Option BinaryOp := all.find? fun op => op.symbol == s

/-- An operator is found by its spelling. -/
theorem ofSymbol?_symbol (op : BinaryOp) : ofSymbol? op.symbol = some op := by
  cases op <;> decide

end BinaryOp

/-- Expressions. -/
inductive Expr where
  | literal (location : Location) (value : Int)
  | char (location : Location) (c : Char)
  | label (location : Location) (name : String)
  /-- The address of the statement that holds the expression. -/
  | here (location : Location)
  /-- The operand with every bit inverted. -/
  | complement (location : Location) (operand : Expr)
  | binary (location : Location) (op : BinaryOp) (left right : Expr)
deriving DecidableEq

namespace Expr

/-- The place of an expression. -/
def location : Expr → Location
  | literal l _ | char l _ | label l _ | here l | complement l _ | binary l _ _ _ => l

/-- The spelling of the operator with one operand. -/
def complementSymbol : String := "NOT"

/-- An expression with every operation in parentheses. -/
def text : Expr → String
  | literal _ value => toString value
  | char _ c => Text.quoteChar c
  | label _ name => name
  | here _ => "$"
  | complement _ operand => "(" ++ complementSymbol ++ " " ++ operand.text ++ ")"
  | binary _ op left right => "(" ++ left.text ++ " " ++ op.symbol ++ " " ++ right.text ++ ")"

/-- The labels that an expression names, from left to right. -/
def labels : Expr → List String
  | label _ name => [name]
  | literal _ _ | char _ _ | here _ => []
  | complement _ operand => operand.labels
  | binary _ _ left right => left.labels ++ right.labels

/-- The labels that an expression names, each once, sorted. -/
def labelSet (e : Expr) : List String :=
  e.labels.eraseDups.mergeSort (fun a b => decide (a ≤ b))

end Expr

end Asm8080
