import Asm8080.Text.Blank
import Asm8080.Text.Quoted

/-!
# Integers as text

Reading an integer of any size from text: white space at both ends, an optional sign, for base 16 an
optional `0x`, and digits with at most one underscore between two of them. A decimal digit of any
script counts as its value. Base 10 is bounded to 4300 digits, in reading and in writing.

## Main definitions

* `Asm8080.Integer.read` — the integer that a text denotes in base 10 or 16, or why there is none.
* `Asm8080.Integer.write` — the decimal text of an integer.
* `Asm8080.Integer.Fault` — why a text is no integer, or an integer has no text.
-/

set_option autoImplicit false

namespace Asm8080.Integer

/-- Why a conversion between text and integer failed. -/
inductive Fault where
  /-- The text does not denote an integer in this base. -/
  | malformed (base : Nat) (text : String)
  /-- A decimal text has more digits than may be read. -/
  | tooLongToRead (digits : Nat)
  /-- An integer has more decimal digits than may be written. -/
  | tooLongToWrite
deriving DecidableEq

/-- The greatest number of decimal digits in a conversion. -/
def digitLimit : Nat := 4300

/-- The wording of a fault; of the text that was read at most 200 characters are shown. -/
def Fault.message : Fault → String
  | .malformed base text =>
    "invalid literal for int() with base " ++ toString base ++ ": " ++
      String.ofList ((Text.quote text).toList.take 200)
  | .tooLongToRead digits =>
    "Exceeds the limit (" ++ toString digitLimit ++
      " digits) for integer string conversion: value has " ++ toString digits ++
      " digits; use sys.set_int_max_str_digits() to increase the limit"
  | .tooLongToWrite =>
    "Exceeds the limit (" ++ toString digitLimit ++ " digits) for integer string conversion; " ++
      "use sys.set_int_max_str_digits() to increase the limit"

/-! ## Digits -/

/-- The code points of the digit zero in every script that writes decimal numbers; the digits one to
nine follow each of them. -/
def zeros : List Nat := [
  0x30, 0x660, 0x6F0, 0x7C0, 0x966, 0x9E6, 0xA66, 0xAE6, 0xB66, 0xBE6, 0xC66, 0xCE6, 0xD66, 0xDE6,
  0xE50, 0xED0, 0xF20, 0x1040, 0x1090, 0x17E0, 0x1810, 0x1946, 0x19D0, 0x1A80, 0x1A90, 0x1B50,
  0x1BB0, 0x1C40, 0x1C50, 0xA620, 0xA8D0, 0xA900, 0xA9D0, 0xA9F0, 0xAA50, 0xABF0, 0xFF10, 0x104A0,
  0x10D30, 0x11066, 0x110F0, 0x11136, 0x111D0, 0x112F0, 0x11450, 0x114D0, 0x11650, 0x116C0, 0x11730,
  0x118E0, 0x11950, 0x11C50, 0x11D50, 0x11DA0, 0x16A60, 0x16AC0, 0x16B50, 0x1D7CE, 0x1D7D8, 0x1D7E2,
  0x1D7EC, 0x1D7F6, 0x1E140, 0x1E2F0, 0x1E950, 0x1FBF0]

/-- The value of a decimal digit of any script. -/
def decimalDigit? (c : Char) : Option Nat :=
  (zeros.find? (fun z => z ≤ c.toNat && c.toNat < z + 10)).map (c.toNat - ·)

/-- The value of a letter as a digit: ten for `a`, fifteen for `f`. -/
def letterDigit? (c : Char) : Option Nat :=
  if 'a' ≤ c ∧ c ≤ 'z' then some (c.toNat - 'a'.toNat + 10)
  else if 'A' ≤ c ∧ c ≤ 'Z' then some (c.toNat - 'A'.toNat + 10)
  else none

/-- The value of a digit below `base`. -/
def digit? (base : Nat) (c : Char) : Option Nat :=
  ((decimalDigit? c).or (letterDigit? c)).filter (· < base)

/-- The number that digit values denote, most significant first. -/
def ofDigits (base : Nat) (ds : List Nat) : Nat := ds.foldl (fun n d => n * base + d) 0

/-! ## Reading -/

/-- White space around an integer. The record separators are white space elsewhere but not here. -/
def isMargin (c : Char) : Bool := Text.isBlank c && !(0x1C ≤ c.toNat && c.toNat ≤ 0x1F)

/-- Whether a run of digits and underscores has an underscore at an end or next to another. -/
def underscoresMisplaced (run : List Char) : Bool :=
  run.head? == some '_' || run.getLast? == some '_' || (run.zip run.tail).contains ('_', '_')

/-- Take the sign off the front: whether the number is negative, and the rest. -/
def takeSign : List Char → Bool × List Char
  | '+' :: cs => (false, cs)
  | '-' :: cs => (true, cs)
  | cs => (false, cs)

/-- Whether two characters are the mark of base 16: a digit zero of any script, and the letter. -/
def isMark (zero letter : Char) : Bool :=
  decimalDigit? zero == some 0 && (letter == 'x' || letter == 'X')

/-- Take the mark of base 16 off the front, with the one underscore that may follow it. -/
def takeMark (base : Nat) (cs : List Char) : List Char :=
  match base, cs with
  | 16, z :: x :: '_' :: rest => if isMark z x then rest else cs
  | 16, z :: x :: rest => if isMark z x then rest else cs
  | _, cs => cs

/-- The integer that a text denotes in base 10 or 16. Of two faults, misplaced underscores come
before the number of digits, and that before what follows the digits. -/
def read (base : Nat) (text : String) : Except Fault Int :=
  let (negative, unsigned) := takeSign (text.toList.dropWhile isMargin)
  let body := takeMark base unsigned
  let inRun := fun c => c == '_' || (digit? base c).isSome
  let run := body.takeWhile inRun
  let ds := run.filterMap (digit? base)
  if ds.isEmpty || underscoresMisplaced run then .error (.malformed base text)
  else if base == 10 && ds.length > digitLimit then .error (.tooLongToRead ds.length)
  else if !(body.dropWhile inRun).all isMargin then .error (.malformed base text)
  else
    let n := ofDigits base ds
    .ok (if negative then -n else n)

/-! ## Writing -/

/-- The decimal text of an integer, if it has no more digits than may be written. -/
def write (n : Int) : Except Fault String :=
  if (toString n.natAbs).length > digitLimit then .error .tooLongToWrite else .ok (toString n)

/-! ## Numbers in options and settings -/

/-- A number given by a user: `0x` and hexadecimal digits, hexadecimal digits and `H`, or decimal
digits, with white space around it. -/
def readNumber (text : String) : Except Fault Int :=
  match Text.stripChars text.toList with
  | '0' :: 'x' :: cs => read 16 (String.ofList cs)
  | '0' :: 'X' :: cs => read 16 (String.ofList cs)
  | cs =>
    if cs.getLast? = some 'h' ∨ cs.getLast? = some 'H' then read 16 (String.ofList cs.dropLast)
    else read 10 (String.ofList cs)

end Asm8080.Integer
