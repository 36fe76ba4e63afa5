import Asm8080.Text.Columns
import Asm8080.Text.Raw

/-!
# Command lines

A command line is a list of words: options, values of options, and positional words. A long option
is spelled `--name`, with its value as the next word or as `--name=value`. Short options are spelled
by a letter after a dash; several of them may share a dash, and the value of the last one is the
rest of the word or the next word. After the word `--` every word is positional. Words are bytes,
which need not be UTF-8.

## Main definitions

* `Asm8080.Switch` — an option that a command knows, and `Asm8080.Switch.help` — how a command with
  given options is used.
* `Asm8080.UsageFault` — what is wrong with a command line.
* `Asm8080.Arguments` — a command line taken apart, and `Asm8080.Arguments.parse`.
* `Asm8080.Arguments.answer?` — what an option says by itself, such as the version.
-/

set_option autoImplicit false

namespace Asm8080

/-- An option that a command knows by the key `key`. -/
structure Switch (κ : Type) where
  key : κ
  short : Option Char
  long : String
  takesValue : Bool

/-- How an option is spelled on a command line. -/
def Switch.usage {κ : Type} (s : Switch κ) : String :=
  (s.short.map fun c => String.ofList ['-', c, ',', ' ']).getD "" ++ s.long ++
    (if s.takesValue then " VALUE" else "")

/-- How a command is used: what it does, and its options. -/
def Switch.help {κ : Type} (command purpose : String) (switches : List (Switch κ)) : String :=
  Text.joinLines (["Usage: " ++ command ++ " [OPTIONS] INPUT_FILE", "", "  " ++ purpose, "",
    "Options:"] ++ switches.map fun s => "  " ++ s.usage)

/-- What is wrong with a command line. -/
inductive UsageFault where
  | unknownOption (name : String)
  | missingValue (name : String)
  | unexpectedValue (name : String)
  | invalidValue (name value : String)
  | missingInput
  | extraArgument (word : String)
deriving DecidableEq

/-- The wording of a fault of a command line. -/
def UsageFault.message : UsageFault → String
  | unknownOption name => "No such option: " ++ name
  | missingValue name => "Option '" ++ name ++ "' requires an argument."
  | unexpectedValue name => "Option '" ++ name ++ "' does not take a value."
  | invalidValue name value => "Invalid value for '" ++ name ++ "': '" ++ value ++ "'."
  | missingInput => "Missing argument 'INPUT_FILE'."
  | extraArgument word => "Got unexpected extra argument (" ++ word ++ ")"

/-- A command line taken apart: options with their values, in order, and positional words. The value
of an option that takes none is empty. -/
structure Arguments (κ : Type) where
  given : List (κ × RawText)
  words : List RawText

namespace Arguments

variable {κ : Type}

/-- What a word of options says: options with their values, and an option whose value is the next
word. -/
structure Word (κ : Type) where
  given : List (κ × RawText)
  open? : Option (Switch κ)

/-- The byte before an option. -/
def dash : UInt8 := 0x2D

/-- The byte before the value of a long option. -/
def equals : UInt8 := 0x3D

/-- The options in the letters after a dash. -/
def readShort (switches : List (Switch κ)) : List UInt8 → Except UsageFault (Word κ)
  | [] => .ok ⟨[], none⟩
  | b :: bs =>
    match switches.find? (fun s => s.short.any fun c => c.toNat == b.toNat) with
    | none => .error (.unknownOption ("-" ++ Glyph.shown ((Glyph.decode (b :: bs)).take 1)))
    | some s =>
      if s.takesValue then
        if bs.isEmpty then .ok ⟨[], some s⟩ else .ok ⟨[(s.key, ⟨bs⟩)], none⟩
      else
        match readShort switches bs with
        | .ok word => .ok { word with given := (s.key, "") :: word.given }
        | .error fault => .error fault

/-- The option with a long spelling, and the value after the sign `=`. -/
def readLong (switches : List (Switch κ)) (name : RawText) (value : Option RawText) :
    Except UsageFault (Word κ) :=
  match switches.find? (fun s => (s.long : RawText) == name) with
  | none => .error (.unknownOption name.shown)
  | some s =>
    match value with
    | some v => if s.takesValue then .ok ⟨[(s.key, v)], none⟩ else .error (.unexpectedValue s.long)
    | none => if s.takesValue then .ok ⟨[], some s⟩ else .ok ⟨[(s.key, "")], none⟩

/-- The parts of a word before and after its first sign `=`. -/
def splitValue (word : RawText) : RawText × Option RawText :=
  match word.bytes.span (· != equals) with
  | (name, []) => (⟨name⟩, none)
  | (name, _ :: value) => (⟨name⟩, some ⟨value⟩)

/-- What a word says; `none` if it is positional. -/
def readWord (switches : List (Switch κ)) (word : RawText) : Option (Except UsageFault (Word κ)) :=
  match word.bytes with
  | first :: second :: bs =>
    if first ≠ dash then none
    else if second = dash then
      let (name, value) := splitValue word
      some (readLong switches name value)
    else some (readShort switches (second :: bs))
  | _ => none

/-- Take a command line apart, after the words in `done`. -/
def parseFrom (switches : List (Switch κ)) (done : Arguments κ) :
    List RawText → Except UsageFault (Arguments κ)
  | [] => .ok done
  | word :: rest =>
    if word = "--" then .ok { done with words := done.words ++ rest }
    else
      match readWord switches word with
      | none => parseFrom switches { done with words := done.words ++ [word] } rest
      | some (.error fault) => .error fault
      | some (.ok ⟨given, none⟩) =>
        parseFrom switches { done with given := done.given ++ given } rest
      | some (.ok ⟨given, some s⟩) =>
        match rest with
        | [] => .error (.missingValue s.long)
        | value :: rest =>
          parseFrom switches { done with given := done.given ++ given ++ [(s.key, value)] } rest

/-- Take a command line apart. -/
def parse (switches : List (Switch κ)) (line : List RawText) : Except UsageFault (Arguments κ) :=
  parseFrom switches ⟨[], []⟩ line

/-- The first answer that a given option has. -/
def answer? (a : Arguments κ) (answer : κ → Option String) : Option String :=
  a.given.findSome? fun option => answer option.1

variable [BEq κ]

/-- The last value given for an option. -/
def value? (a : Arguments κ) (key : κ) : Option RawText := a.given.reverse.lookup key

/-- Whether an option is given. -/
def has (a : Arguments κ) (key : κ) : Bool := (a.value? key).isSome

/-- Check the value of each given option, in the order in which the options first occur. -/
def check (a : Arguments κ) (valid : κ → RawText → Except UsageFault Unit) :
    Except UsageFault Unit :=
  (a.given.map Prod.fst).eraseDups.forM fun key => valid key ((a.value? key).getD "")

/-- The one positional word, which must satisfy a condition. -/
def input (a : Arguments κ) (valid : RawText → Bool) : Except UsageFault RawText :=
  match a.words with
  | [] => .error .missingInput
  | word :: extra =>
    if valid word then
      match extra with
      | [] => .ok word
      | other :: _ => .error (.extraArgument other.shown)
    else .error (.invalidValue "INPUT_FILE" word.shown)

end Arguments

end Asm8080
