/-!
# Letter case

Names are compared without regard to case. Reserved words and label names are ASCII, so folding
them upward changes ASCII letters only; the search for similar names also folds the Latin-1 letters
downward, since symbol names that do not come from source text may hold them.

## Main definitions

* `Asm8080.Text.upper` — ASCII letters in upper case.
* `Asm8080.Text.lower` — ASCII and Latin-1 letters in lower case.
-/

set_option autoImplicit false

namespace Asm8080.Text

/-- A text with its ASCII letters in upper case. -/
def upper (s : String) : String := String.ofList (s.toList.map Char.toUpper)

/-- The lower case form of an ASCII or Latin-1 capital; the multiplication sign among the Latin-1
capitals is not a letter. -/
def lowerChar (c : Char) : Char :=
  if 0xC0 ≤ c.toNat ∧ c.toNat ≤ 0xDE ∧ c.toNat ≠ 0xD7 then Char.ofNat (c.toNat + 0x20)
  else c.toLower

/-- A text with its ASCII and Latin-1 letters in lower case. -/
def lower (s : String) : String := String.ofList (s.toList.map lowerChar)

end Asm8080.Text
