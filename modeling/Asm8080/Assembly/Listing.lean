import Asm8080.Assembly.Emission
import Asm8080.Text.Blank
import Asm8080.Text.Columns

/-!
# Listings

A listing describes a finished assembly. It has a row for each statement that places bytes and for
each origin, then the symbols.

## Main definitions

* `Asm8080.Listing.text` — the listing of rows and symbols.
-/

set_option autoImplicit false

namespace Asm8080

namespace Listing

/-- A line of `n` equal characters. -/
def rule (c : Char) (n : Nat) : String := String.ofList (List.replicate n c)

/-- The line of a row. -/
def rowText (row : Row) : String :=
  (row.address.elim "    " fun a => Hex.padded 4 a) ++ "  " ++
    Text.padRight 8 (Hex.bytes row.code) ++ "  " ++
    Text.padLeft 4 (toString row.line) ++ "  " ++ Text.strip row.text

/-- The line of a symbol. -/
def symbolText (symbol : String × Nat) : String :=
  Text.padRight 20 symbol.1 ++ " = " ++ Hex.padded 4 symbol.2 ++ "H"

/-- The lines above the rows. -/
def heading : List String :=
  ["Intel 8080 Assembler Listing", rule '=' 60, "", "Addr  Code      Line  Source", rule '-' 60]

/-- The listing of rows and of symbols, which are sorted by name. -/
def text (rows : List Row) (symbols : SymbolTable) : String :=
  Text.joinLines (heading ++ rows.map rowText ++ ["", "Symbol Table", rule '-' 30] ++
    symbols.sorted.map symbolText)

end Listing

end Asm8080
