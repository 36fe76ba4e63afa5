import Asm8080.Expr.Basic
import Asm8080.Instruction.Encoding

/-!
# Statements

What the lines of a program say, in the order of the source. An instruction carries the row of the
instruction table that its operands select, so that its size is known before any value is.

## Main definitions

* `Asm8080.Operand` — an operand of an instruction.
* `Asm8080.Action` — what a statement does.
* `Asm8080.Statement` — an action, its place and its source line.
-/

set_option autoImplicit false

namespace Asm8080

/-- An operand of an instruction. -/
inductive Operand where
  | register (r : Register)
  | expression (e : Expr)
deriving DecidableEq

namespace Operand

/-- The register of an operand that is one. -/
def register? : Operand → Option Register
  | register r => some r
  | expression _ => none

/-- The expression of an operand that is one. -/
def expression? : Operand → Option Expr
  | register _ => none
  | expression e => some e

end Operand

/-- The width of a data directive. -/
inductive Width where
  | byte | word
deriving DecidableEq

/-- The number of bytes of a data directive. -/
def Width.size : Width → Nat
  | byte => 1 | word => 2

/-- What a statement does. -/
inductive Action where
  /-- Bind a name to the current address. -/
  | label (name : String)
  /-- Move the current address. -/
  | origin (e : Expr)
  /-- Place a byte or a word, and bind a name to its address. -/
  | data (name : Option String) (width : Width) (e : Expr)
  /-- Bind a name to a value. -/
  | equate (name : String) (e : Expr)
  /-- Place an instruction. -/
  | instruction (encoding : Encoding) (operands : List Operand)
deriving DecidableEq

/-- A statement, its place and its source line. -/
structure Statement where
  location : Location
  text : String
  action : Action
deriving DecidableEq

/-- The expression among operands. -/
def Operand.expressionOf (operands : List Operand) : Option Expr :=
  operands.findSome? Operand.expression?

/-- The number of bytes that an action places. -/
def Action.size : Action → Nat
  | .data _ width _ => width.size
  | .instruction encoding _ => encoding.size
  | .label _ | .origin _ | .equate _ _ => 0

end Asm8080
