/-!
# Line breaks

Two notions of a line. Source text and symbol files are split at every line break that a text
editor honours. A text file is first brought to one form, in which only a line feed ends a line.

## Main definitions

* `Asm8080.Text.splitLines` — the lines of a text, at ten line break characters and CR LF.
* `Asm8080.Text.unifyNewlines` — CR LF and lone CR written as LF.
-/

set_option autoImplicit false

namespace Asm8080.Text

/-- The characters that end a line. -/
def isLineBreak (c : Char) : Bool :=
  let n := c.toNat
  (0x0A ≤ n && n ≤ 0x0D) || (0x1C ≤ n && n ≤ 0x1E) || n == 0x85 || n == 0x2028 || n == 0x2029

/-- The lines of a text whose first line has begun with the characters of `line`, in reverse. A
break at the very end opens no further line. -/
def splitLinesFrom (line : List Char) : List Char → List String
  | [] => if line.isEmpty then [] else [String.ofList line.reverse]
  | '\r' :: '\n' :: cs => String.ofList line.reverse :: splitLinesFrom [] cs
  | c :: cs =>
    if isLineBreak c then String.ofList line.reverse :: splitLinesFrom [] cs
    else splitLinesFrom (c :: line) cs

/-- The lines of a text, without their line breaks; CR LF is one break. -/
def splitLines (s : String) : List String := splitLinesFrom [] s.toList

/-- The text with every CR LF and every lone CR replaced by LF. -/
def unifyNewlines : List Char → List Char
  | [] => []
  | '\r' :: '\n' :: cs => '\n' :: unifyNewlines cs
  | '\r' :: cs => '\n' :: unifyNewlines cs
  | c :: cs => c :: unifyNewlines cs

end Asm8080.Text
