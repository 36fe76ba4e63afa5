/-!
# Source locations

A position in source text: a file name, a line and a column, both counted from 1.

## Main definitions

* `Asm8080.Location` — a position, and `Asm8080.Location.text` — its form in messages.
-/

set_option autoImplicit false

namespace Asm8080

/-- A position in source text. -/
structure Location where
  file : String
  line : Int
  column : Int
deriving DecidableEq

/-- A position in messages: `file:line:column`. -/
def Location.text (l : Location) : String :=
  l.file ++ ":" ++ toString l.line ++ ":" ++ toString l.column

/-- The name that stands for the file of a text that comes from none. -/
def unnamedFile : String := "<input>"

end Asm8080
