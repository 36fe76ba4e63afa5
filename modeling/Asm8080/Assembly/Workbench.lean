import Asm8080.Assembly.Listing
import Asm8080.Settings
import Asm8080.Statement.Line
import Asm8080.Symbol.File

/-!
# Assembling programs

A workbench assembles one program after another and keeps what the last one left: its statements,
addresses, symbols, image and listing rows. Each program starts from nothing. A program that cannot
be read leaves the workbench as it was; one that fails later leaves as much as was done.

## Main definitions

* `Asm8080.Workbench` — settings, and what the last program left.
* `Asm8080.Workbench.assemble` — assemble a program.
* `Asm8080.assemble` — the image of a program, from a fresh workbench.
-/

set_option autoImplicit false

namespace Asm8080

/-- Settings, and what the last program left. -/
structure Workbench where
  settings : Settings
  statements : List Statement := []
  addresses : Array Nat := #[]
  symbols : SymbolTable := .empty
  image : Image
  rows : Array Row := #[]

/-- What an assembly gives: the workbench after it, what happened, and the image or the failure. -/
structure Run where
  workbench : Workbench
  events : List Event
  outcome : Except Failure (List UInt8)

namespace Workbench

/-- A workbench that has assembled no program. -/
def new (settings : Settings) : Except Failure Workbench := do
  let image ← Image.blank? settings.fillByte
  return { settings := settings, image := image }

/-- The bytes of the image, padded to the size in the settings. -/
def code (w : Workbench) : List UInt8 := w.image.toBytes w.settings.imageSize

/-- The listing of the last program. -/
def listing (w : Workbench) : String := Listing.text w.rows.toList w.symbols

/-- The symbol file of the last program. -/
def symbolFile (w : Workbench) : String := SymbolFile.text w.symbols

/-- Assemble statements: place them, then emit them into a new image. -/
def generate (w : Workbench) (statements : List Statement) : Run :=
  let w := { w with symbols := .empty }
  match Image.blank? w.settings.fillByte with
  | .error f => ⟨w, [], .error f⟩
  | .ok image =>
    match Layout.ofStatements statements with
    | (layout, placing) =>
      let w := { w with image := image, rows := #[], addresses := layout.addresses,
                        symbols := layout.symbols }
      match placing with
      | some f => ⟨w, layout.events.toList, .error f⟩
      | none =>
        match Emission.run w.symbols { image := image } (statements.zip w.addresses.toList) with
        | (emission, emitting) =>
          let w := { w with image := emission.image, rows := emission.rows }
          let events := layout.events.toList ++ [.placed w.symbols.size] ++ emission.events.toList
          match emitting with
          | some f => ⟨w, events, .error f⟩
          | none => ⟨w, events ++ [.emitted w.image.highWater], .ok w.code⟩

/-- Assemble a source text. -/
def assemble (w : Workbench) (source file : String) : Run :=
  match Statement.readSource source file w.settings.keepCase with
  | .error f => ⟨w, [], .error f⟩
  | .ok statements =>
    let run := { w with statements := statements }.generate statements
    let done := match run.outcome with
      | .ok code => [.generated file code.length]
      | .error _ => []
    { run with events := .parsed file statements.length :: run.events ++ done }

end Workbench

/-- The image of a source text, from a fresh workbench. -/
def assemble (source file : String) (settings : Settings) : Except Failure (List UInt8) := do
  let w ← Workbench.new settings
  (w.assemble source file).outcome

end Asm8080
