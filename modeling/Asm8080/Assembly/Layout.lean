import Asm8080.Event
import Asm8080.Expr.Evaluation
import Asm8080.Statement.Basic

/-!
# Layout

The first pass over a program gives each statement an address and each name a value. Instructions
and data take up their size, whatever their values are. The values of origins and equates are needed
at once, so they may name only labels that are bound above them.

## Main definitions

* `Asm8080.Layout` — how far the pass has come: addresses, symbols and the next address.
* `Asm8080.Layout.step` — the effect of one statement, which may fail.
* `Asm8080.Layout.run` — the effect of statements up to the first failure.
-/

set_option autoImplicit false

namespace Asm8080

/-- How far the first pass has come. -/
structure Layout where
  /-- The address of the next statement. -/
  cursor : Nat := 0
  /-- The addresses of the statements so far. -/
  addresses : Array Nat := #[]
  /-- The names bound so far. -/
  symbols : SymbolTable := .empty
  /-- What happened so far. -/
  events : Array Event := #[]
deriving DecidableEq

namespace Layout

/-- The symbols with a name bound to the next address, which must be in the address space. -/
def bindHere (l : Layout) (s : Statement) (name : String) : Except Failure SymbolTable :=
  if l.cursor ≥ Word.count then
    .error (.diagnostic ⟨.addressOverflow l.cursor, some s.location, some s.text⟩)
  else l.symbols.define name l.cursor (some s.location) false (some s.text)

/-- The next address after `size` bytes, which must all be in the address space. -/
def advance (l : Layout) (s : Statement) (size : Nat) : Except Failure Nat :=
  if l.cursor + size > Word.count then
    .error (.diagnostic
      ⟨.addressOverflow (max l.cursor Word.count : Nat), some s.location, some s.text⟩)
  else .ok (l.cursor + size)

/-- The value of an expression that a directive needs at once. The least of its labels that are not
bound is reported. -/
def evaluateNow (l : Layout) (s : Statement) (directive : String) (e : Expr) :
    Except Failure Nat :=
  match e.labelSet.find? (fun name => !l.symbols.contains name) with
  | some name =>
    .error (.diagnostic
      ⟨.undefinedLabel name (.above directive), some s.location, some s.text⟩)
  | none => e.evaluate l.symbols l.cursor (some s.text)

/-- The effect of one statement. Its address is recorded first; a name of data is bound before the
data is placed. -/
def step (l : Layout) (s : Statement) : Layout × Option Failure :=
  let l := { l with addresses := l.addresses.push l.cursor }
  match s.action with
  | .label name =>
    match l.bindHere s name with
    | .ok symbols => ({ l with symbols := symbols }, none)
    | .error f => (l, some f)
  | .origin e =>
    match l.evaluateNow s "ORG" e with
    | .ok value =>
      ({ l with cursor := value, events := l.events.push (.origin value s.location.line) }, none)
    | .error f => (l, some f)
  | .equate name e =>
    match l.evaluateNow s "EQU" e with
    | .ok value =>
      match l.symbols.define name value (some s.location) true (some s.text) with
      | .ok symbols => ({ l with symbols := symbols }, none)
      | .error f => (l, some f)
    | .error f => (l, some f)
  | .data name width _ =>
    match name.elim (.ok l.symbols) (l.bindHere s) with
    | .ok symbols =>
      match l.advance s width.size with
      | .ok cursor => ({ l with symbols := symbols, cursor := cursor }, none)
      | .error f => ({ l with symbols := symbols }, some f)
    | .error f => (l, some f)
  | .instruction encoding _ =>
    match l.advance s encoding.size with
    | .ok cursor => ({ l with cursor := cursor }, none)
    | .error f => (l, some f)

/-- The effect of statements up to the first failure. -/
def run (l : Layout) : List Statement → Layout × Option Failure
  | [] => (l, none)
  | s :: statements =>
    match l.step s with
    | (l, none) => l.run statements
    | (l, some f) => (l, some f)

/-- The layout of a program. -/
def ofStatements (statements : List Statement) : Layout × Option Failure :=
  run {} statements

end Layout

end Asm8080
