import Asm8080.Command.Arguments
import Asm8080.Command.Outcome

/-!
# The assembler command

`i8080asm` assembles a source file into an image. It can write a listing and a symbol file too; the
image is written last.

## Main definitions

* `Asm8080.Workbench.assembleFile` — assemble a file.
* `Asm8080.AssembleCommand.Options` — what the command line asks for.
* `Asm8080.AssembleCommand.prepare` — what the command comes to before it writes.
* `Asm8080.AssembleCommand.run` — the command.
-/

set_option autoImplicit false

namespace Asm8080

/-- Assemble a file. -/
def Workbench.assembleFile (w : Workbench) (files : FileTree) (path : Path) :
    Except TextFault Run :=
  (files.readText path).map fun source => w.assemble source path.text

namespace AssembleCommand

/-! ## Options -/

/-- The options of the command. -/
inductive Key where
  | output | listing | symbols | fill | size | caseSensitive | verbose | version | help
deriving DecidableEq

/-- How the options are spelled. -/
def switches : List (Switch Key) := [
  ⟨.output, some 'o', "--output", true⟩,
  ⟨.listing, some 'l', "--listing", true⟩,
  ⟨.symbols, some 's', "--symbols", true⟩,
  ⟨.fill, none, "--fill", true⟩,
  ⟨.size, none, "--size", true⟩,
  ⟨.caseSensitive, none, "--case-sensitive", false⟩,
  ⟨.verbose, some 'v', "--verbose", false⟩,
  ⟨.version, none, "--version", false⟩,
  ⟨.help, none, "--help", false⟩]

/-- What an option says by itself, without a file. -/
def answer : Key → Option String
  | .version => some "i8080asm, version 1.0.0\n"
  | .help =>
    some (Switch.help "i8080asm" "Assemble Intel 8080 source code into a raw ROM image."
      switches)
  | _ => none

/-- What the command line asks for. -/
structure Options where
  input : Path
  output : Option Path
  listing : Option Path
  symbols : Option Path
  fill : Option String
  size : Option String
  caseSensitive : Bool
  verbose : Bool
deriving DecidableEq

/-- Check the value of an option: a file to write must not be a directory. -/
def checkValue (files : FileTree) (key : Key) (value : RawText) : Except UsageFault Unit :=
  match key with
  | .output | .listing | .symbols =>
    if files.isDirectory value then .error (.invalidValue "FILE" value.shown) else .ok ()
  | _ => .ok ()

/-- What a command line asks for. -/
def Options.ofArguments (files : FileTree) (a : Arguments Key) : Except UsageFault Options := do
  a.check (checkValue files)
  let input ← a.input files.isFile
  return {
    input := Path.ofText input
    output := (a.value? .output).map Path.ofText
    listing := (a.value? .listing).map Path.ofText
    symbols := (a.value? .symbols).map Path.ofText
    fill := (a.value? .fill).map RawText.shown
    size := (a.value? .size).map RawText.shown
    caseSensitive := a.has .caseSensitive
    verbose := a.has .verbose }

/-- The file for the image: as given, or beside the source file. -/
def Options.image (o : Options) : Path := o.output.getD (o.input.withSuffix ".bin")

/-! ## Settings -/

/-- The number in a text, from 0 to `limit`. -/
def readNumber (limit : Nat) (text : String) : Except Trouble Int :=
  match Integer.readNumber text with
  | .error _ => .error (.parameter (.notNumber text))
  | .ok value =>
    if 0 ≤ value ∧ value ≤ limit then .ok value
    else
      match Integer.write value with
      | .ok shown => .error (.parameter (.numberOutOfRange limit shown))
      | .error fault => .error (.integer fault)

/-- The settings in an environment, changed as the options say. -/
def Options.settings (o : Options) (env : Environment) : Except Trouble Settings := do
  let base := Settings.ofEnvironment env
  let fillByte ← o.fill.elim (.ok base.fillByte) (readNumber 0xFF)
  let imageSize ← o.size.elim (.ok base.imageSize) fun text => some <$> readNumber 0x10000 text
  return ⟨fillByte, imageSize, base.keepCase || o.caseSensitive⟩

/-! ## The command -/

/-- What the command writes after a successful assembly. -/
def planOf (o : Options) (w : Workbench) (code : List UInt8) : Plan where
  output := []
  writes :=
    (o.listing.map fun p => ⟨p, .text (Glyph.ofText w.listing), .wroteListing p.text⟩).toList ++
    (o.symbols.map fun p => ⟨p, .text (Glyph.ofText w.symbolFile), .wroteSymbols p.text⟩).toList ++
    [⟨o.image, .bytes code, .wroteImage code.length o.image.text⟩]
  closing := [.assembled code.length w.symbols.size]

/-- What an assembly of the source file comes to. -/
def assembleWith (o : Options) (files : FileTree) (w : Workbench) : Preparation :=
  let opening := Event.assembling o.input.text
  match w.assembleFile files o.input with
  | .error fault => ⟨[opening], .error (.text fault)⟩
  | .ok run =>
    ⟨opening :: run.events,
      match run.outcome with
      | .error failure => .error (.assembly failure)
      | .ok code => .ok (planOf o run.workbench code)⟩

/-- What the command comes to before it writes. -/
def prepare (o : Options) (env : Environment) (files : FileTree) : Preparation :=
  match o.settings env with
  | .error trouble => ⟨[], .error trouble⟩
  | .ok settings =>
    match Workbench.new settings with
    | .error failure => ⟨[], .error (.assembly failure)⟩
    | .ok w => assembleWith o files w

/-- The command. An option that says something by itself comes before every check of values. -/
def run (line : List RawText) (env : Environment) (files : FileTree) :
    Except UsageFault Outcome := do
  let a ← Arguments.parse switches line
  if let some text := a.answer? answer then return ⟨.success, text, "", files⟩
  let o ← Options.ofArguments files a
  return Outcome.ofPreparation o.verbose files (prepare o env files)

end AssembleCommand

end Asm8080
