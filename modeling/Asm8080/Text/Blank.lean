/-!
# White space

The white space that separates words in text files and option values, and the two operations on it:
cutting it off both ends of a text and splitting a text into words.

## Main definitions

* `Asm8080.Text.isBlank` — the class of white space characters.
* `Asm8080.Text.strip` — a text without the white space at its ends.
* `Asm8080.Text.words` — the maximal runs of other characters.
-/

set_option autoImplicit false

namespace Asm8080.Text

/-- White space: the control characters that move the print position or separate records, the
spaces of every width, and the line and paragraph separators. -/
def isBlank (c : Char) : Bool :=
  let n := c.toNat
  (0x09 ≤ n && n ≤ 0x0D) || (0x1C ≤ n && n ≤ 0x20) || n == 0x85 || n == 0xA0 || n == 0x1680 ||
    (0x2000 ≤ n && n ≤ 0x200A) || n == 0x2028 || n == 0x2029 || n == 0x202F || n == 0x205F ||
    n == 0x3000

/-- The characters from the first to the last one that is not blank. -/
def stripChars (cs : List Char) : List Char :=
  ((cs.dropWhile isBlank).reverse.dropWhile isBlank).reverse

/-- A text without the white space at its ends. -/
def strip (s : String) : String := String.ofList (stripChars s.toList)

/-- The words of a text: its maximal runs of characters that are not blank. -/
def words (s : String) : List String :=
  ((s.toList.splitOnP isBlank).filter (fun w => !w.isEmpty)).map String.ofList

end Asm8080.Text
