import Asm8080.Assembly.Workbench
import Asm8080.Disassembly.Stream
import Asm8080.Files.Tree
import Asm8080.Text.Unstyled

/-!
# What a command does

A command first reads and computes, then writes its files one after another. What it will write is a
plan; whatever goes wrong before there is a plan leaves every file as it was. Events go to the error
output, and so does the trouble that ends a command. What a command shows is text without styling;
events and files are as they are. A text that cannot be encoded ends a command when it is written or
shown, except on the error output, where stray bytes are shown by their codes.

## Main definitions

* `Asm8080.Trouble` — why a command fails, with its wording and its exit.
* `Asm8080.Plan` — what a command writes, and `Asm8080.FileTree.perform` — writing it.
* `Asm8080.Outcome` — what a command shows and leaves.
* `Asm8080.Outcome.ofPreparation` — the outcome of carrying out what a command has prepared.
-/

set_option autoImplicit false

namespace Asm8080

/-! ## Trouble -/

/-- How a command ends. -/
inductive Exit where
  | success
  | buildError
  | invalidArguments
  | internalError
deriving DecidableEq

/-- The exit code of a command. -/
def Exit.code : Exit → Nat
  | success => 0
  | buildError => 1
  | invalidArguments => 2
  | internalError => 3

/-- Why a command does not take the value of an option. -/
inductive ParameterFault where
  | notNumber (text : String)
  | numberOutOfRange (limit : Nat) (value : String)
  | notAddress (text : String)
  | addressOutOfRange
  | pastEnd (bytes : Nat) (start : Int)
deriving DecidableEq

/-- The wording of a fault of an option. -/
def ParameterFault.message : ParameterFault → String
  | notNumber text => "invalid number '" ++ text ++ "'"
  | numberOutOfRange limit value => "must be 0-" ++ toString limit ++ ", got " ++ value
  | notAddress text => "invalid address '" ++ text ++ "'"
  | addressOutOfRange => "must be 0-65535 (0x0000-0xFFFF)"
  | pastEnd bytes start =>
    toString bytes ++ " bytes at " ++ Hex.literal 4 start ++ " run past 0FFFFH"

/-- Why a command fails. -/
inductive Trouble where
  | assembly (failure : Failure)
  | disassembly (fault : DisassemblyFault)
  | parameter (fault : ParameterFault)
  | text (fault : TextFault)
  | symbolFile (fault : SymbolFile.Fault)
  | integer (fault : Integer.Fault)
deriving DecidableEq

namespace Trouble

/-- How a command ends that fails. -/
def exit : Trouble → Exit
  | assembly (.diagnostic _) | disassembly (.undecodable _) => .buildError
  | parameter _ | text (.file ⟨.missing, _⟩) | text (.file ⟨.isDirectory, _⟩) => .invalidArguments
  | _ => .internalError

/-- The wording of trouble. -/
def message : Trouble → String
  | assembly failure => failure.message
  | disassembly fault => fault.message
  | parameter fault => fault.message
  | text fault => fault.message
  | symbolFile fault => fault.message
  | integer fault => fault.message

/-- The diagnostic that ends a command. -/
def diagnostic (t : Trouble) : String :=
  let heading := match t, t.exit with
    | assembly _, .buildError => "Assembly error: "
    | _, .buildError => "Disassembly error: "
    | _, .internalError => "Internal error: "
    | _, _ => "Error: "
  heading ++ t.message

end Trouble

/-! ## Plans -/

/-- What a file is to hold: bytes, or a text that is encoded once the file is open. -/
inductive Contents where
  | bytes (bytes : List UInt8)
  | text (text : List Glyph)

/-- A file to write, and the event of having written it. -/
structure Write where
  path : Path
  contents : Contents
  event : Event

/-- What a command writes, and the events after that. -/
structure Plan where
  output : List Glyph
  writes : List Write
  closing : List Event

/-- What a command comes to before it writes. -/
structure Preparation where
  events : List Event
  result : Except Trouble Plan

/-- Write a file. If it cannot be written, the tree that is left is returned with the fault. -/
def FileTree.store (t : FileTree) (w : Write) : Except (FileTree × TextFault) FileTree :=
  match w.contents with
  | .bytes bytes => (t.write w.path bytes).mapError fun fault => (t, .file fault)
  | .text text => t.writeText w.path text

/-- Write files one after another, up to the first that cannot be written. -/
def FileTree.perform (t : FileTree) : List Write → FileTree × List Event × Option TextFault
  | [] => (t, [], none)
  | w :: writes =>
    match t.store w with
    | .error (left, fault) => (left, [], some fault)
    | .ok t =>
      let (last, events, fault) := t.perform writes
      (last, w.event :: events, fault)

/-! ## Outcomes -/

/-- What a command shows and leaves. -/
structure Outcome where
  exit : Exit
  output : String
  errorOutput : String
  files : FileTree

namespace Outcome

/-- The line of an event: every event with its level if verbose, else only warnings. -/
def eventLine? (verbose : Bool) (e : Event) : Option String :=
  if verbose then some e.line else if e.level = .warning then some e.message else none

/-- The error output for events and the trouble after them. -/
def errorText (verbose : Bool) (events : List Event) (trouble : Option Trouble) : String :=
  let lines := events.filterMap (eventLine? verbose) ++
    (trouble.map fun t => Glyph.shown (Text.unstyled (Glyph.ofText t.diagnostic))).toList
  String.join (lines.map (· ++ "\n"))

/-- The outcome of trouble. -/
def failed (verbose : Bool) (files : FileTree) (events : List Event) (t : Trouble) : Outcome :=
  ⟨t.exit, "", errorText verbose events (some t), files⟩

/-- The outcome of carrying out what a command has prepared. -/
def ofPreparation (verbose : Bool) (files : FileTree) (p : Preparation) : Outcome :=
  match p.result with
  | .error t => failed verbose files p.events t
  | .ok plan =>
    match files.perform plan.writes with
    | (files, events, some fault) => failed verbose files (p.events ++ events) (.text fault)
    | (files, events, none) =>
      match Glyph.chars (Text.unstyled plan.output) with
      | .error fault => failed verbose files (p.events ++ events) (.text (.unencodable fault))
      | .ok cs =>
        ⟨.success, String.ofList cs,
          errorText verbose (p.events ++ events ++ plan.closing) none, files⟩

end Outcome

end Asm8080
