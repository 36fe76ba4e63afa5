import Asm8080.Expr.Basic
import Asm8080.Symbol.Table

/-!
# The value of an expression

Expressions denote words. Operands are evaluated from left to right before their operator is
applied, and the first failure is reported: a label that is not bound, or a division by zero.

## Main definitions

* `Asm8080.BinaryOp.apply` — the value of an operation on two words.
* `Asm8080.Expr.evaluate` — the value of an expression.
-/

set_option autoImplicit false

namespace Asm8080

/-- The value of an operation on two words. Sums, differences and products are reduced; a shift by
sixteen or more leaves nothing. -/
def BinaryOp.apply (op : BinaryOp) (location : Location) (sourceLine : Option String)
    (left right : Nat) : Except Failure Nat :=
  match op with
  | add => .ok (Word.ofInt (left + right))
  | sub => .ok (Word.ofInt ((left : Int) - right))
  | mul => .ok (Word.ofInt (left * right))
  | div =>
    if right = 0 then .error (.diagnostic ⟨.divisionByZero op.symbol, some location, sourceLine⟩)
    else .ok (left / right)
  | mod =>
    if right = 0 then .error (.diagnostic ⟨.divisionByZero op.symbol, some location, sourceLine⟩)
    else .ok (left % right)
  | shl => .ok (if right < 16 then Word.ofInt (left <<< right) else 0)
  | shr => .ok (if right < 16 then left >>> right else 0)
  | and => .ok (left &&& right)
  | or => .ok (left ||| right)
  | xor => .ok (left ^^^ right)

namespace Expr

/-- The word that a label is bound to. -/
def resolve (symbols : SymbolTable) (sourceLine : Option String) (location : Location)
    (name : String) : Except Failure Nat :=
  match symbols.lookup name with
  | some value => .ok value
  | none =>
    .error (.diagnostic
      ⟨.undefinedLabel name (.anywhere (symbols.similar name)), some location, sourceLine⟩)

/-- The value of an expression in a statement at the address `address`. Diagnostics show
`sourceLine`. -/
def evaluate (symbols : SymbolTable) (address : Int) (sourceLine : Option String) :
    Expr → Except Failure Nat
  | literal _ value => .ok (Word.ofInt value)
  | char _ c => .ok (Word.ofInt c.toNat)
  | label l name => resolve symbols sourceLine l name
  | here _ => .ok (Word.ofInt address)
  | complement _ operand => do
    let value ← operand.evaluate symbols address sourceLine
    return Word.complement value
  | binary l op left right => do
    let a ← left.evaluate symbols address sourceLine
    let b ← right.evaluate symbols address sourceLine
    op.apply l sourceLine a b

end Expr

end Asm8080
