import Asm8080.Diagnostic.Basic
import Asm8080.Number.Word
import Asm8080.Text.EditDistance

/-!
# Symbol tables

A symbol table binds names to words, each name once. It keeps the order in which names were bound
and suggests names that resemble a given one.

## Main definitions

* `Asm8080.Symbol` — a bound name, and `Asm8080.SymbolTable` — the bound names.
* `Asm8080.SymbolTable.define` — bind a name, or report that it is bound.
* `Asm8080.SymbolTable.lookup` — the word that a name is bound to.
* `Asm8080.SymbolTable.similar` — bound names that resemble a name.
-/

set_option autoImplicit false

namespace Asm8080

/-- A bound name. It is a constant if its value was given, not taken from its place. -/
structure Symbol where
  name : String
  value : Nat
  location : Option Location
  constant : Bool
deriving DecidableEq

/-- The bound names, in the order in which they were bound. -/
structure SymbolTable where
  symbols : List Symbol
deriving DecidableEq

namespace SymbolTable

/-- The table that binds no name. -/
def empty : SymbolTable := ⟨[]⟩

/-- The symbol with a name. -/
def get? (t : SymbolTable) (name : String) : Option Symbol :=
  t.symbols.find? (fun s => s.name == name)

/-- The word that a name is bound to. -/
def lookup (t : SymbolTable) (name : String) : Option Nat := (t.get? name).map Symbol.value

/-- Whether a name is bound. -/
def contains (t : SymbolTable) (name : String) : Bool := (t.get? name).isSome

/-- The number of bound names. -/
def size (t : SymbolTable) : Nat := t.symbols.length

/-- Bind a name to an integer modulo 65536. A name that is bound already is reported at `location`,
with the place where it was bound. -/
def define (t : SymbolTable) (name : String) (value : Int) (location : Option Location)
    (constant : Bool) (sourceLine : Option String) : Except Failure SymbolTable :=
  match t.get? name with
  | some s => .error (.diagnostic ⟨.duplicateLabel name s.location, location, sourceLine⟩)
  | none => .ok ⟨t.symbols ++ [⟨name, Word.ofInt value, location, constant⟩]⟩

/-- The names with their words, in the order in which they were bound. -/
def toList (t : SymbolTable) : List (String × Nat) := t.symbols.map fun s => (s.name, s.value)

/-- The names with their words, sorted by name. -/
def sorted (t : SymbolTable) : List (String × Nat) :=
  t.toList.mergeSort (fun a b => decide (a.1 ≤ b.1))

/-- Whether two names differ only in case, or have nearly equal lengths and at most two edits
between them. -/
def resembles (a b : String) : Bool :=
  Text.lower a == Text.lower b ||
    (b.length ≤ a.length + 1 && a.length ≤ b.length + 1 &&
      Text.editDistance (Text.lower a) (Text.lower b) ≤ 2)

/-- The first three bound names that resemble a name. -/
def similar (t : SymbolTable) (name : String) : List String :=
  ((t.symbols.map Symbol.name).filter (resembles name)).take 3

end SymbolTable

end Asm8080
