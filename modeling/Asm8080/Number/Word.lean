/-!
# 16-bit words

Values and addresses are numbers below 65536. Arithmetic is done on integers of any size and then
reduced.

## Main definitions

* `Asm8080.Word.ofInt` — an integer modulo 65536.
* `Asm8080.Word.complement` — the sixteen bits of a word, inverted.
-/

set_option autoImplicit false

namespace Asm8080.Word

/-- The number of words, which is the size of the address space. -/
def count : Nat := 0x10000

/-- An integer modulo 65536. -/
def ofInt (n : Int) : Nat := (n % count).toNat

/-- The sixteen bits of a word, inverted. -/
def complement (n : Nat) : Nat := count - 1 - n

/-- An integer modulo 65536 is a word. -/
theorem ofInt_lt (n : Int) : ofInt n < count := by
  unfold ofInt count
  omega

end Asm8080.Word
