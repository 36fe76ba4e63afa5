/-!
# Columns and lines

Texts filled up to a width, and lines joined to a text.

## Main definitions

* `Asm8080.Text.padRight`, `Asm8080.Text.padLeft` — a text filled up with spaces.
* `Asm8080.Text.joinLines` — lines as one text.
-/

set_option autoImplicit false

namespace Asm8080.Text

/-- A text filled up with spaces on the right. -/
def padRight (width : Nat) (s : String) : String :=
  s ++ String.ofList (List.replicate (width - s.length) ' ')

/-- A text filled up with spaces on the left. -/
def padLeft (width : Nat) (s : String) : String :=
  String.ofList (List.replicate (width - s.length) ' ') ++ s

/-- Lines as one text, each ended by a line feed. -/
def joinLines (lines : List String) : String := String.intercalate "\n" lines ++ "\n"

end Asm8080.Text
