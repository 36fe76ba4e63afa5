import Asm8080.Command.Arguments
import Asm8080.Command.Outcome

/-!
# The disassembler command

`i8080dis` turns an image into source text that assembles to the image again, and prints it or
writes it to a file. The text begins with the name of the image, so that it cannot be encoded if
that name is not UTF-8.

## Main definitions

* `Asm8080.DisassembleCommand.Options` — what the command line asks for.
* `Asm8080.DisassembleCommand.prepare` — what the command comes to before it writes.
* `Asm8080.DisassembleCommand.run` — the command.

## Implementation notes

* The output goes to no terminal, so that it is shown without styling, and encodes strictly: a stray
  byte ends the command, as it does in a file. In a locale that lets stray bytes through on output
  (the C locale does) a disassembly that is printed would show them.
* Numbers on the command line are read from the text as it is shown. A word with a stray byte is
  shown with a backslash in it, and so is no number.
* The file that is written is closed without a fault: the disk does not run full.
-/

set_option autoImplicit false

namespace Asm8080.DisassembleCommand

/-! ## Options -/

/-- The options of the command. -/
inductive Key where
  | output | address | count | symbols | noBytes | strict | verbose | version | help
deriving DecidableEq

/-- How the options are spelled. -/
def switches : List (Switch Key) := [
  ⟨.output, some 'o', "--output", true⟩,
  ⟨.address, some 'a', "--address", true⟩,
  ⟨.count, some 'c', "--count", true⟩,
  ⟨.symbols, some 's', "--symbols", true⟩,
  ⟨.noBytes, none, "--no-bytes", false⟩,
  ⟨.strict, none, "--strict", false⟩,
  ⟨.verbose, some 'v', "--verbose", false⟩,
  ⟨.version, none, "--version", false⟩,
  ⟨.help, none, "--help", false⟩]

/-- What an option says by itself, without a file. -/
def answer : Key → Option String
  | .version => some "i8080dis, version 1.0.0\n"
  | .help =>
    some (Switch.help "i8080dis" "Disassemble an Intel 8080 ROM image into assembler source."
      switches)
  | _ => none

/-- What the command line asks for. -/
structure Options where
  input : Path
  output : Option Path
  address : Option String
  count : Option Int
  symbols : Option Path
  noBytes : Bool
  strict : Bool
  verbose : Bool
deriving DecidableEq

/-- The number of records in a text. -/
def readCount (text : String) : Except UsageFault Int :=
  (Integer.read 10 text).mapError fun _ => .invalidValue "--count" text

/-- Check the value of an option: a file to write must not be a directory, a file to read must be
there, and a count must be a number. -/
def checkValue (files : FileTree) (key : Key) (value : RawText) : Except UsageFault Unit :=
  match key with
  | .output =>
    if files.isDirectory value then .error (.invalidValue "--output" value.shown) else .ok ()
  | .symbols =>
    if files.isFile value then .ok () else .error (.invalidValue "--symbols" value.shown)
  | .count => (readCount value.shown).map fun _ => ()
  | _ => .ok ()

/-- What a command line asks for. -/
def Options.ofArguments (files : FileTree) (a : Arguments Key) : Except UsageFault Options := do
  a.check (checkValue files)
  let input ← a.input files.isFile
  return {
    input := Path.ofText input
    output := (a.value? .output).map Path.ofText
    address := (a.value? .address).map RawText.shown
    count := (a.value? .count).bind fun text => (readCount text.shown).toOption
    symbols := (a.value? .symbols).map Path.ofText
    noBytes := a.has .noBytes
    strict := a.has .strict
    verbose := a.has .verbose }

/-! ## Settings -/

/-- The settings in an environment, changed as the options say. -/
def Options.settings (o : Options) (env : Environment) : Except Trouble DisassemblySettings := do
  let base := DisassemblySettings.ofEnvironment env
  let start ← o.address.elim (.ok base.start) fun text =>
    (Integer.readNumber text).mapError fun _ => .parameter (.notAddress text)
  if isAddress start then
    return ⟨start, base.showBytes && !o.noBytes, base.strict || o.strict⟩
  else throw (.parameter .addressOutOfRange)

/-! ## The command -/

/-- The disassembler, with the names in the symbol file. -/
def disassembler (o : Options) (settings : DisassemblySettings) (files : FileTree) :
    Except Trouble Disassembler :=
  let plain : Disassembler := { strict := settings.strict }
  match o.symbols with
  | none => .ok plain
  | some path =>
    match files.readText path with
    | .error fault => .error (.text fault)
    | .ok text =>
      match SymbolFile.read path.text text with
      | .error fault => .error (.symbolFile fault)
      | .ok names => .ok (plain.addNames names)

/-- The comment above a disassembly, from the end of the name of the image on. -/
def heading (settings : DisassemblySettings) (size : Nat) : String :=
  Text.joinLines [
    "",
    "; Size: " ++ toString size ++ " bytes",
    "; Base address: " ++ Hex.literal 4 settings.start,
    ""]

/-- A disassembly with the comment above it, which shows the name of the image as it is. -/
def textOf (o : Options) (settings : DisassemblySettings) (size : Nat) (body : String) :
    List Glyph :=
  Glyph.ofText "; Disassembly of " ++ o.input.name.glyphs ++
    Glyph.ofText (heading settings size ++ body)

/-- What the command writes: a file, or its output. -/
def planOf (o : Options) (text : List Glyph) : Plan :=
  match o.output with
  | some path => ⟨[], [⟨path, .text text, .wroteText path.text⟩], []⟩
  | none => ⟨text, [], []⟩

/-- What a disassembly of the data comes to. -/
def disassembleWith (o : Options) (settings : DisassemblySettings) (data : List UInt8)
    (d : Disassembler) : List Event × Except Trouble Plan :=
  let s := d.disassemble data settings.start o.count
  (s.events,
    match s.text settings.start settings.showBytes with
    | .error fault => .error (.disassembly fault)
    | .ok body => .ok (planOf o (textOf o settings data.length body)))

/-- What the command comes to before it writes. -/
def prepare (o : Options) (env : Environment) (files : FileTree) : Preparation :=
  match o.settings env with
  | .error trouble => ⟨[], .error trouble⟩
  | .ok settings =>
    match files.read o.input with
    | .error fault => ⟨[], .error (.text (.file fault))⟩
    | .ok data =>
      let opening := Event.loaded o.input.text data.length
      if settings.start + data.length > 0x10000 then
        ⟨[opening], .error (.parameter (.pastEnd data.length settings.start))⟩
      else
        match disassembler o settings files with
        | .error trouble => ⟨[opening], .error trouble⟩
        | .ok d =>
          let (events, result) := disassembleWith o settings data d
          ⟨opening :: events, result⟩

/-- The command. An option that says something by itself comes before every check of values. -/
def run (line : List RawText) (env : Environment) (files : FileTree) :
    Except UsageFault Outcome := do
  let a ← Arguments.parse switches line
  if let some text := a.answer? answer then return ⟨.success, text, "", files⟩
  let o ← Options.ofArguments files a
  return Outcome.ofPreparation o.verbose files (prepare o env files)

end Asm8080.DisassembleCommand
