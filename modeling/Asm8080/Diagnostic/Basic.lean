import Asm8080.Diagnostic.Report
import Asm8080.Number.Index
import Asm8080.Number.Integer
import Asm8080.Token.Basic

/-!
# Diagnostics

What can be wrong with a program. Each kind of fault is a type of its own, with the facts that the
message states; the wording is in one place for each kind. A diagnostic adds where the fault is and
the source line to show.

A failure is a diagnostic, or one of the few conditions that no diagnostic describes: an integer
that cannot be converted, a byte, an address or a position out of range, or a tree that has no
meaning or no text.

## Main definitions

* `Asm8080.LexFault`, `Asm8080.GrammarFault`, `Asm8080.OperandFault` — faults of tokens, of
  statements and expressions, and of instruction operands.
* `Asm8080.Cause` — everything a diagnostic can be about.
* `Asm8080.Diagnostic` — a cause at a place, and `Asm8080.Diagnostic.report` — what it shows.
* `Asm8080.Failure` — why an assembly failed.
-/

set_option autoImplicit false

namespace Asm8080

/-! ## Faults of tokens -/

/-- Why characters form no token. -/
inductive LexFault where
  | unexpectedCharacter (c : Char)
  | invalidDigit (digit : Char) (radix : Radix) (literal : String)
  | unterminatedCharacter
  | missingClosingQuote
  | characterTooWide (c : Char)
deriving DecidableEq

/-- The wording of a fault of a token. -/
def LexFault.message : LexFault → String
  | unexpectedCharacter c => "unexpected character " ++ Text.quoteChar c
  | invalidDigit digit radix literal =>
    "invalid digit " ++ Text.quoteChar digit ++ " in base-" ++ toString radix.base ++
      " literal '" ++ literal ++ "'"
  | unterminatedCharacter => "unterminated character literal"
  | missingClosingQuote => "expected closing quote for character literal"
  | characterTooWide c => "character " ++ Text.quoteChar c ++ " does not fit in a byte"

/-! ## Faults of statements and expressions -/

/-- Why tokens form no statement or expression. -/
inductive GrammarFault where
  | unclosedParenthesis
  | unbalancedParenthesis
  | missingOperand
  | expectedValue (found : Token.Kind)
  | afterExpression (found : Token.Kind)
  | reservedLabel (word : String)
  | equateWithoutName
  | unexpected (found : Token.Kind)
  | missingColon (label : String)
  | unknownStatement (word : String)
  | afterStatement (found : Token.Kind)
  | missingExpression
  | expectedExpression (found : Token.Kind)
  | missingComma (found : Token.Kind)
  | unexpectedInOperand (found : Token.Kind)
deriving DecidableEq

/-- The wording of a fault of a statement or expression. -/
def GrammarFault.message : GrammarFault → String
  | unclosedParenthesis => "expected ')' to close expression"
  | unbalancedParenthesis => "unbalanced ')'"
  | missingOperand => "missing operand at end of expression"
  | expectedValue found => "expected value, got '" ++ found.mention ++ "'"
  | afterExpression found => "unexpected '" ++ found.mention ++ "' after expression"
  | reservedLabel word => "'" ++ word ++ "' is a reserved word and cannot be used as a label"
  | equateWithoutName => "EQU requires a name"
  | unexpected found => "unexpected " ++ found.describe
  | missingColon label => "expected ':' after label '" ++ label ++ "'"
  | unknownStatement word => "unknown instruction or directive '" ++ word ++ "'"
  | afterStatement found => "unexpected " ++ found.describe ++ " at end of statement"
  | missingExpression => "missing expression"
  | expectedExpression found => "expected expression, got " ++ found.describe
  | missingComma found => "expected ',' between operands, got " ++ found.describe
  | unexpectedInOperand found => "unexpected " ++ found.describe ++ " in operand"

/-! ## Faults of operands -/

/-- Why an instruction or a data directive does not take an operand. Positions count from 0; in a
shape `none` stands for an expression. -/
inductive OperandFault where
  | wrongCount (expected : Nat)
  | notRegister (index : Nat) (register : Register)
  | notExpression (index : Nat)
  | noSuchForm (shape : List (Option Register))
  | tooWide (value : Nat)
  | noSuchVector (value : Nat)
deriving DecidableEq

/-- The wording of a fault of an operand of `mnemonic`. -/
def OperandFault.message (mnemonic : String) : OperandFault → String
  | wrongCount expected =>
    mnemonic ++ " expects " ++ toString expected ++
      (if expected = 1 then " operand" else " operands")
  | notRegister index register =>
    mnemonic ++ " operand " ++ toString (index + 1) ++ " must be an expression, got register " ++
      register.name
  | notExpression index => mnemonic ++ " operand " ++ toString (index + 1) ++ " must be a register"
  | noSuchForm shape =>
    "invalid operands for " ++ mnemonic ++ ": " ++
      String.intercalate "," (shape.map fun o => (o.map Register.name).getD "expression")
  | tooWide value => "value $" ++ Hex.padded 4 value ++ " does not fit in a byte"
  | noSuchVector value => "restart vector must be 0-7, got " ++ toString value

/-! ## Diagnostics -/

/-- Why a label is missing. -/
inductive Missing where
  /-- It is declared nowhere; these names are similar. -/
  | anywhere (similar : List String)
  /-- It is not declared above the directive that needs its value at once. -/
  | above (directive : String)
deriving DecidableEq

/-- What a diagnostic is about. -/
inductive Cause where
  | lex (fault : LexFault)
  | grammar (fault : GrammarFault)
  | operand (mnemonic : String) (fault : OperandFault) (forms : List String)
  | duplicateLabel (label : String) (first : Option Location)
  | undefinedLabel (label : String) (missing : Missing)
  | divisionByZero (operator : String)
  | addressOverflow (address : Int)
deriving DecidableEq

/-- A cause, its place, and the source line to show. -/
structure Diagnostic where
  cause : Cause
  location : Option Location
  sourceLine : Option String
deriving DecidableEq

/-- What a diagnostic shows. -/
def Diagnostic.report (d : Diagnostic) : Report :=
  match d.cause with
  | .lex fault => ⟨fault.message, d.location, none, d.sourceLine⟩
  | .grammar fault => ⟨fault.message, d.location, none, d.sourceLine⟩
  | .operand mnemonic fault forms =>
    Report.operand mnemonic (fault.message mnemonic) d.location d.sourceLine forms
  | .duplicateLabel label first => Report.duplicateLabel label d.location first d.sourceLine
  | .undefinedLabel label (.anywhere similar) =>
    Report.undefinedLabel label d.location none d.sourceLine similar
  | .undefinedLabel label (.above directive) =>
    Report.undefinedLabel label d.location
      (some (directive ++ " is evaluated in pass 1; '" ++ label ++ "' must be declared above it"))
      d.sourceLine []
  | .divisionByZero operator => Report.divisionByZero operator d.location d.sourceLine
  | .addressOverflow address => Report.addressOverflow address d.location d.sourceLine

/-! ## Failures -/

/-- Why an assembly, or a step of one, failed. -/
inductive Failure where
  | diagnostic (d : Diagnostic)
  | integer (fault : Integer.Fault)
  /-- A tree applies an operator that has no meaning, or none at all. -/
  | unknownOperator (symbol : Option String)
  /-- A node of a tree lacks a part that its kind calls for. -/
  | incompleteTree
  /-- A code of a tree is not that of a character. -/
  | codeOutOfRange
  /-- A value to be stored as a byte is not in 0 to 255. -/
  | byteOutOfRange
  /-- The fill byte of an image is not in 0 to 255. -/
  | fillOutOfRange
  /-- An address is outside the image. -/
  | addressOutOfRange (address : Int)
  /-- A position is before the first token. -/
  | positionOutOfRange (position : Int)
deriving DecidableEq

/-- The text of a failure. -/
def Failure.message : Failure → String
  | diagnostic d => d.report.text
  | integer fault => fault.message
  | unknownOperator symbol => "unknown operator " ++ symbol.elim "None" Text.quote
  | incompleteTree => "incomplete expression tree"
  | codeOutOfRange => "chr() arg not in range(0x110000)"
  | byteOutOfRange => "bytes must be in range(0, 256)"
  | fillOutOfRange => "byte must be in range(0, 256)"
  | addressOutOfRange address => Index.refusal "bytearray " address
  | positionOutOfRange position => Index.refusal "list " position

end Asm8080
