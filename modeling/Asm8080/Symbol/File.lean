import Asm8080.Number.Integer
import Asm8080.Symbol.Table
import Asm8080.Text.Columns
import Asm8080.Text.Lines

/-!
# Symbol files

A symbol file lists names with their values, one to a line, such as `LOOP 0103H`. Lines that are
blank or begin with `#` say nothing. Reading one gives names for addresses; the first name of an
address stays.

## Main definitions

* `Asm8080.SymbolFile.text` — the symbol file of a symbol table.
* `Asm8080.SymbolFile.read` — the names for addresses in the text of a symbol file.
-/

set_option autoImplicit false

namespace Asm8080.SymbolFile

/-! ## Writing -/

/-- The line of a symbol. -/
def line (symbol : String × Nat) : String := symbol.1 ++ " " ++ Hex.padded 4 symbol.2 ++ "H"

/-- The symbol file of a symbol table, sorted by name. -/
def text (symbols : SymbolTable) : String :=
  Text.joinLines ("# Symbol table" :: symbols.sorted.map line)

/-! ## Reading -/

/-- Why a text is no symbol file. -/
inductive Fault where
  /-- A line is not a name and a value. -/
  | malformed (file : String) (number : Nat) (line : String)
  /-- A value is not a number. -/
  | integer (fault : Integer.Fault)
deriving DecidableEq

/-- The wording of a fault of a symbol file. -/
def Fault.message : Fault → String
  | malformed file number line =>
    file ++ ":" ++ toString number ++ ": expected 'NAME VALUEH', got " ++ Text.quote line
  | integer fault => fault.message

/-- The digits of a value, which the letter H follows. -/
def valueDigits? (word : String) : Option String :=
  match word.toList.reverse with
  | 'H' :: digits | 'h' :: digits => some (String.ofList digits.reverse)
  | _ => none

/-- The address and the name on a line, `none` for a line that says nothing. -/
def readLine (file : String) (number : Nat) (line : String) :
    Except Fault (Option (Int × String)) :=
  let line := Text.strip line
  if line = "" || line.front = '#' then .ok none
  else
    match Text.words line with
    | [name, value] =>
      match valueDigits? value with
      | none => .error (.malformed file number line)
      | some digits =>
        match Integer.read 16 digits with
        | .ok address => .ok (some (address, name))
        | .error fault => .error (.integer fault)
    | _ => .error (.malformed file number line)

/-- Add a name for an address that has none. -/
def addFirst (names : List (Int × String)) (entry : Int × String) : List (Int × String) :=
  if names.any (fun other => other.1 == entry.1) then names else names ++ [entry]

/-- The names for addresses on lines, which are numbered from `number`, after those in `names`. -/
def readLines (file : String) (number : Nat) (names : List (Int × String)) :
    List String → Except Fault (List (Int × String))
  | [] => .ok names
  | line :: lines =>
    match readLine file number line with
    | .error fault => .error fault
    | .ok entry => readLines file (number + 1) (entry.elim names (addFirst names)) lines

/-- The names for addresses in the text of a symbol file, in the order of the lines. -/
def read (file text : String) : Except Fault (List (Int × String)) :=
  readLines file 1 [] (Text.splitLines text)

end Asm8080.SymbolFile
