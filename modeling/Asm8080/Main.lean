import Asm8080.Command.Assemble
import Asm8080.Command.Disassemble

/-!
# The program

`asm8080 asm` and `asm8080 dis` run the assembler and the disassembler command on the files of the
system. The part of the file system that a command line names is read into a file tree, the command
is run on the tree, and the files that it changed are written back.

## Main definitions

* `Asm8080.Program.snapshot` — the part of the file system that texts name.
* `Asm8080.Program.finish` — show the outcome of a command and write its files.
-/

set_option autoImplicit false

namespace Asm8080.Program

/-- A place as the system knows it. -/
def textOf (place : Place) : String := "/" ++ String.intercalate "/" (place.map RawText.shown)

/-- What the system has at a place. -/
def probe (place : Place) : IO (Option Entry) := do
  let path := (← IO.currentDir) / textOf place
  if ← path.isDir then return some .directory
  else if ← path.pathExists then return some (.file (← IO.FS.readBinFile path).toList)
  else return none

/-- The places on the way from a place to where steps lead. -/
def placesFrom (place : Place) : List RawText → List Place
  | [] => [place]
  | step :: steps =>
    let next := if step = "" || step = "." then place
      else if step = ".." then place.dropLast
      else place ++ [step]
    place :: placesFrom next steps

/-- The places on the way to what texts name. -/
def placesOf (working : Place) (texts : List RawText) : List Place :=
  (texts.flatMap fun text =>
    placesFrom (if Path.startsAtRoot text then [] else working) (Path.components text)).eraseDups

/-- The part of the file system that texts name. -/
def snapshot (texts : List RawText) : IO FileTree := do
  let current ← IO.currentDir
  let working := (Path.ofText (RawText.ofText current.toString)).parts
  let entries ← (placesOf working texts).filterMapM fun place => do
    return (← probe place).map fun entry => (place, entry)
  return ⟨working, entries⟩

/-- The variables that commands look at. -/
def environment : IO Environment := do
  let names := ["I8080_FILL_BYTE", "I8080_IMAGE_SIZE", "I8080_CASE_SENSITIVE_LABELS",
    "I8080_DIS_START", "I8080_DIS_STRICT"]
  names.filterMapM fun name => do return (← IO.getEnv name).map fun value => (name, .ofText value)

/-- Write the files that differ between two trees. -/
def store (before after : FileTree) : IO Unit := do
  for (place, entry) in after.entries do
    if before.entry? place != some entry then
      match entry with
      | .file bytes => IO.FS.writeBinFile (textOf place) (ByteArray.mk bytes.toArray)
      | .directory => pure ()

/-- Show the outcome of a command and write its files. -/
def finish (before : FileTree) (result : Except UsageFault Outcome) : IO UInt32 := do
  match result with
  | .error fault =>
    IO.eprintln ("Error: " ++ fault.message)
    return 2
  | .ok outcome =>
    store before outcome.files
    IO.print outcome.output
    IO.eprint outcome.errorOutput
    return UInt32.ofNat outcome.exit.code

/-- The texts on a command line that may name files. -/
def named {κ : Type} (switches : List (Switch κ)) (line : List RawText) : List RawText :=
  match Arguments.parse switches line with
  | .ok a => a.words ++ a.given.map Prod.snd
  | .error _ => []

/-- Run the assembler command. -/
def assemble (line : List RawText) : IO UInt32 := do
  let texts := named AssembleCommand.switches line
  let images := texts.map fun text => ((Path.ofText text).withSuffix ".bin").raw
  let files ← snapshot (texts ++ images)
  finish files (AssembleCommand.run line (← environment) files)

/-- Run the disassembler command. -/
def disassemble (line : List RawText) : IO UInt32 := do
  let files ← snapshot (named DisassembleCommand.switches line)
  finish files (DisassembleCommand.run line (← environment) files)

end Asm8080.Program

/-- Run the command that the first word names. -/
def main (line : List String) : IO UInt32 := do
  match line with
  | "asm" :: rest => Asm8080.Program.assemble (rest.map .ofText)
  | "dis" :: rest => Asm8080.Program.disassemble (rest.map .ofText)
  | _ =>
    IO.eprintln "Usage: asm8080 asm|dis [OPTIONS] INPUT_FILE"
    return 2
