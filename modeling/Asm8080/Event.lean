import Asm8080.Number.Hex

/-!
# Events

What a run reports about its progress. Each kind of event has a level and a wording.

## Main definitions

* `Asm8080.Level` — how important an event is.
* `Asm8080.Event` — the events, with `Asm8080.Event.level` and `Asm8080.Event.message`.
-/

set_option autoImplicit false

namespace Asm8080

/-- How important an event is. -/
inductive Level where
  | debug | info | warning
deriving DecidableEq

/-- The name of a level. -/
def Level.name : Level → String
  | debug => "DEBUG" | info => "INFO" | warning => "WARNING"

/-- What a run reports. -/
inductive Event where
  | assembling (path : String)
  | parsed (file : String) (statements : Nat)
  | origin (address : Nat) (line : Int)
  | placed (symbols : Nat)
  | patched (address : Int) (old new : UInt8)
  | emitted (bytes : Nat)
  | generated (file : String) (bytes : Nat)
  | wroteImage (bytes : Nat) (path : String)
  | wroteListing (path : String)
  | wroteSymbols (path : String)
  | assembled (bytes symbols : Nat)
  | loaded (path : String) (bytes : Nat)
  | ignored (bytes : Nat)
  | undecoded (problem : String)
  | wroteText (path : String)
deriving DecidableEq

namespace Event

/-- The level of an event. -/
def level : Event → Level
  | wroteImage _ _ | wroteListing _ | wroteSymbols _ | wroteText _ => .info
  | ignored _ => .warning
  | _ => .debug

/-- The wording of an event. -/
def message : Event → String
  | assembling path => "assembling " ++ path
  | parsed file statements => file ++ ": parsed " ++ toString statements ++ " statements"
  | origin address line => "ORG $" ++ Hex.padded 4 address ++ " (line " ++ toString line ++ ")"
  | placed symbols => "pass 1 complete: " ++ toString symbols ++ " symbols"
  | patched address old new =>
    "patching $" ++ Hex.padded 4 address ++ ": $" ++ Hex.byte old ++ " -> $" ++ Hex.byte new
  | emitted bytes => "pass 2 complete: " ++ toString bytes ++ " bytes"
  | generated file bytes => file ++ ": generated " ++ toString bytes ++ " bytes"
  | wroteImage bytes path => "Wrote " ++ toString bytes ++ " bytes to " ++ path
  | wroteListing path => "Wrote listing to " ++ path
  | wroteSymbols path => "Wrote symbols to " ++ path
  | assembled bytes symbols =>
    "Assembly complete: " ++ toString bytes ++ " bytes, " ++ toString symbols ++ " symbols"
  | loaded path bytes => "Input file: " ++ path ++ " (" ++ toString bytes ++ " bytes)"
  | ignored bytes =>
    "input runs past $FFFF; ignoring the last " ++ toString bytes ++ " bytes"
  | undecoded problem => problem ++ "; emitting DB"
  | wroteText path => "Output written to: " ++ path

/-- An event with the name of its level. -/
def line (e : Event) : String := e.level.name ++ ": " ++ e.message

end Event

end Asm8080
