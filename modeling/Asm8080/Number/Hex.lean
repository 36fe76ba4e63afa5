/-!
# Hexadecimal text

Addresses and bytes are written in upper case hexadecimal, padded with zeros to a width. A minus
sign comes first and counts toward the width. Assembler notation ends in `H` and must not begin with
a letter, because a word that begins with a letter is a name.

## Main definitions

* `Asm8080.Hex.padded` — a number in at least a given number of places.
* `Asm8080.Hex.literal` — the same in assembler notation, such as `3EH` or `0C3A0H`.
* `Asm8080.Hex.literalIn` — the same for a width that may be no number of places.
-/

set_option autoImplicit false

namespace Asm8080.Hex

/-- The upper case hexadecimal digits of a natural number. -/
def digits (n : Nat) : List Char := (Nat.toDigits 16 n).map Char.toUpper

/-- The characters of a number in hexadecimal, in at least `width` places. -/
def paddedChars (width : Nat) (value : Int) : List Char :=
  let sign := if value < 0 then ['-'] else []
  let ds := digits value.natAbs
  sign ++ List.replicate (width - sign.length - ds.length) '0' ++ ds

/-- A number in hexadecimal, in at least `width` places. -/
def padded (width : Nat) (value : Int) : String := String.ofList (paddedChars width value)

/-- A number in hexadecimal, without padding. -/
def text (value : Int) : String := padded 0 value

/-- A byte as two hexadecimal digits. -/
def byte (b : UInt8) : String := padded 2 b.toNat

/-- Bytes as pairs of hexadecimal digits with a space between two bytes. -/
def bytes (bs : List UInt8) : String := String.intercalate " " (bs.map byte)

/-- Assembler notation: hexadecimal in at least `width` places, then `H`, with a zero in front if it
would begin with a letter. -/
def literal (width : Nat) (value : Int) : String :=
  let cs := paddedChars width value ++ ['H']
  String.ofList (if (cs.headD '0').isAlpha then '0' :: cs else cs)

/-! ## Widths -/

/-- Why an integer is no number of places. -/
inductive WidthFault where
  | negative (width : Int)
  | tooLarge
deriving DecidableEq

/-- The wording of a fault of a width. -/
def WidthFault.message : WidthFault → String
  | negative width =>
    "Invalid format specifier '0" ++ toString width ++ "X' for object of type 'int'"
  | tooLarge => "Too many decimal digits in format string"

/-- The number of places that an integer stands for, which fits in a machine word. -/
def placesOf (width : Int) : Except WidthFault Nat :=
  if width < 0 then .error (.negative width)
  else if width < 0x8000000000000000 then .ok width.toNat
  else .error .tooLarge

/-- Assembler notation in at least `width` places. -/
def literalIn (width value : Int) : Except WidthFault String :=
  (placesOf width).map fun places => literal places value

end Asm8080.Hex
