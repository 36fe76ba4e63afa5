import Asm8080.Text.Printable

/-!
# Quoted text

Diagnostics show a piece of input in quotes, so that its ends and its invisible characters can be
seen. The quote is `'` unless the text holds one and holds no `"`. A backslash stands before the
quote and before another backslash; a character that is not printable is written by name or by code.

## Main definitions

* `Asm8080.Text.quote` — the quoted form of a text.
-/

set_option autoImplicit false

namespace Asm8080.Text

/-- The code `n` as at least `width` hexadecimal digits in lower case. -/
def lowerHex (width n : Nat) : List Char :=
  let ds := Nat.toDigits 16 n
  List.replicate (width - ds.length) '0' ++ ds

/-- A character that is not printable, written by its code in two, four or eight digits. -/
def escapeCode (n : Nat) : List Char :=
  if n < 0x100 then '\\' :: 'x' :: lowerHex 2 n
  else if n < 0x10000 then '\\' :: 'u' :: lowerHex 4 n
  else '\\' :: 'U' :: lowerHex 8 n

/-- The form of one character inside the quotes `mark`. -/
def escape (mark c : Char) : List Char :=
  if c = mark ∨ c = '\\' then ['\\', c]
  else if c = '\n' then ['\\', 'n']
  else if c = '\r' then ['\\', 'r']
  else if c = '\t' then ['\\', 't']
  else if isPrintable c then [c]
  else escapeCode c.toNat

/-- The quote for a text: `'`, or `"` if the text holds the first and not the second. -/
def quoteMark (cs : List Char) : Char :=
  if cs.contains '\'' && !cs.contains '"' then '"' else '\''

/-- A text in quotes. -/
def quoteChars (cs : List Char) : String :=
  let mark := quoteMark cs
  String.ofList (mark :: cs.flatMap (escape mark) ++ [mark])

/-- A text in quotes. -/
def quote (s : String) : String := quoteChars s.toList

/-- One character in quotes. -/
def quoteChar (c : Char) : String := quoteChars [c]

end Asm8080.Text
