import Asm8080.Number.Integer
import Asm8080.Text.Case
import Asm8080.Text.Raw

/-!
# Settings

The settings of an assembly and of a disassembly, and how environment variables set them. A variable
that is empty, is not a number where one is needed, or is out of range leaves the default.

## Main definitions

* `Asm8080.Settings` — the settings of an assembly, and `Asm8080.Settings.fault?` — their check.
* `Asm8080.DisassemblySettings` — the settings of a disassembly.
* `Asm8080.Environment` — variables and their values.
-/

set_option autoImplicit false

namespace Asm8080

/-! ## Settings of an assembly -/

/-- The settings of an assembly. -/
structure Settings where
  /-- The value of every byte of the image that is not written. -/
  fillByte : Int := 0
  /-- The least size of the image. -/
  imageSize : Option Int := none
  /-- Whether label names keep their case. -/
  keepCase : Bool := false
deriving DecidableEq

/-- What is wrong with settings. -/
inductive Settings.Fault where
  | fillByte (value : Int)
  | imageSize (value : Int)
deriving DecidableEq

namespace Settings

/-- The wording of a fault of settings. -/
def Fault.message : Fault → String
  | fillByte value => "fill byte must be 0-255, got " ++ toString value
  | imageSize value => "image size must be 0-65536, got " ++ toString value

/-- Whether a number is a fill byte. -/
def isFillByte (n : Int) : Bool := 0 ≤ n && n ≤ 0xFF

/-- Whether a number is an image size. -/
def isImageSize (n : Int) : Bool := 0 ≤ n && n ≤ 0x10000

/-- The first thing that is wrong with settings. -/
def fault? (s : Settings) : Option Fault :=
  if !isFillByte s.fillByte then some (.fillByte s.fillByte)
  else
    match s.imageSize with
    | none => none
    | some n => if isImageSize n then none else some (.imageSize n)

end Settings

/-! ## Settings of a disassembly -/

/-- The settings of a disassembly. -/
structure DisassemblySettings where
  /-- The address of the first byte. -/
  start : Int := 0
  /-- Whether lines show addresses and bytes. -/
  showBytes : Bool := true
  /-- Whether the first byte that begins no instruction is an error. -/
  strict : Bool := false
deriving DecidableEq

/-! ## Environment variables -/

/-- Variables and their values. -/
abbrev Environment := List (String × RawText)

namespace Environment

/-- The value of a variable that is set and not empty. -/
def value? (env : Environment) (name : String) : Option String :=
  ((env.lookup name).map RawText.shown).filter (· ≠ "")

/-- The number that a variable holds, if it satisfies a condition. -/
def number? (env : Environment) (name : String) (valid : Int → Bool) : Option Int :=
  (env.value? name).bind fun text => (Integer.readNumber text).toOption.filter valid

/-- Whether a variable says yes, `none` if it is not set. -/
def switch? (env : Environment) (name : String) : Option Bool :=
  (env.value? name).map fun text =>
    ["1", "true", "yes", "on"].contains (Text.lower (Text.strip text))

end Environment

/-- The settings of an assembly in an environment. -/
def Settings.ofEnvironment (env : Environment) : Settings where
  fillByte := (env.number? "I8080_FILL_BYTE" isFillByte).getD 0
  imageSize := env.number? "I8080_IMAGE_SIZE" isImageSize
  keepCase := (env.switch? "I8080_CASE_SENSITIVE_LABELS").getD false

/-- Whether a number is an address. -/
def isAddress (n : Int) : Bool := 0 ≤ n && n ≤ 0xFFFF

/-- The settings of a disassembly in an environment. -/
def DisassemblySettings.ofEnvironment (env : Environment) : DisassemblySettings where
  start := (env.number? "I8080_DIS_START" isAddress).getD 0
  strict := (env.switch? "I8080_DIS_STRICT").getD false

end Asm8080
