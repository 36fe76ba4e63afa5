import Asm8080.Number.Hex
import Asm8080.Source.Location

/-!
# Reports

A report is what a diagnostic shows: a message, the place it is about, the source line with a mark
under the column, and a hint. This module lays reports out as text and words the reports whose parts
are names, places and numbers.

## Main definitions

* `Asm8080.Report` — the parts of a report, and `Asm8080.Report.text` — its layout.
-/

set_option autoImplicit false

namespace Asm8080

/-- The parts of a report. -/
structure Report where
  message : String
  location : Option Location := none
  hint : Option String := none
  sourceLine : Option String := none
deriving DecidableEq

namespace Report

/-- The first line of a report. -/
def heading (r : Report) : String :=
  match r.location with
  | some l => l.text ++ ": error: " ++ r.message
  | none => "error: " ++ r.message

/-- The source line, indented by four, and a mark under its column if that is positive. Without a
place there is no context. -/
def context (r : Report) : List String :=
  match r.sourceLine, r.location with
  | some line, some l =>
    let mark := String.ofList (List.replicate (4 + l.column - 1).toNat ' ') ++ "^"
    ("    " ++ line) :: (if l.column > 0 then [mark] else [])
  | _, _ => []

/-- The hint line; an empty hint is none. -/
def hintLines (r : Report) : List String :=
  match r.hint with
  | some h => if h = "" then [] else ["hint: " ++ h]
  | none => []

/-- The whole report. -/
def text (r : Report) : String :=
  String.intercalate "\n" (r.heading :: r.context ++ r.hintLines)

/-! ## Reports from their parts -/

/-- An operand that an instruction does not take, with the forms that it takes. -/
def operand (mnemonic message : String) (location : Option Location) (sourceLine : Option String)
    (forms : List String) : Report where
  message := message
  location := location
  sourceLine := sourceLine
  hint := if forms.isEmpty then none
    else some (mnemonic ++ " accepts: " ++ String.intercalate ", " forms)

/-- A label that is declared twice. -/
def duplicateLabel (label : String) (location first : Option Location)
    (sourceLine : Option String) : Report where
  message := "duplicate label '" ++ label ++ "'"
  location := location
  sourceLine := sourceLine
  hint := first.map fun l => "'" ++ label ++ "' was first declared at " ++ l.text

/-- The hint that offers at most three similar names. -/
def suggestion (similar : List String) : Option String :=
  if similar.isEmpty then none
  else
    some ("did you mean " ++
      String.intercalate ", " ((similar.take 3).map fun s => "'" ++ s ++ "'") ++ "?")

/-- A label that is not declared. Without a hint of its own it offers similar names. -/
def undefinedLabel (label : String) (location : Option Location) (hint : Option String)
    (sourceLine : Option String) (similar : List String) : Report where
  message := "undefined label '" ++ label ++ "'"
  location := location
  sourceLine := sourceLine
  hint :=
    if hint.getD "" = "" then (suggestion similar).or hint else hint

/-- A division by zero. -/
def divisionByZero (operator : String) (location : Option Location)
    (sourceLine : Option String) : Report where
  message := "division by zero in '" ++ operator ++ "'"
  location := location
  sourceLine := sourceLine

/-- An address outside the address space. -/
def addressOverflow (address : Int) (location : Option Location)
    (sourceLine : Option String) : Report where
  message := "address $" ++ Hex.text address ++ " is outside the 16-bit address space"
  location := location
  sourceLine := sourceLine
  hint := some "the highest usable address is $FFFF"

end Report

end Asm8080
