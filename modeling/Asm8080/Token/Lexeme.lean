import Asm8080.Diagnostic.Basic

/-!
# Lexemes

How characters form tokens. A lexeme is read off the front of a list of characters: a line feed, a
name, a number, a character literal or a punctuation mark. Names and numbers extend as far as name
characters do. The base of a number comes from its last letter.

## Main definitions

* `Asm8080.Lexeme` — a token kind and how far it extends.
* `Asm8080.Misread` — why no lexeme begins here, where the fault is, and how far it was read.
* `Asm8080.Lexeme.read` — the lexeme that begins with a character.
-/

set_option autoImplicit false

namespace Asm8080

/-! ## Character classes -/

/-- A character that separates tokens on a line: a space, a tab or a carriage return. -/
def isSeparator (c : Char) : Bool := c == ' ' || c == '\t' || c == '\r'

/-- A character that can begin a name. -/
def isNameStart (c : Char) : Bool := c.isAlpha || c == '_'

/-- A character that can continue a name or a number. -/
def isNameChar (c : Char) : Bool := c.isAlpha || c.isDigit || c == '_'

/-- The value of a digit of a number literal, if it is one in the given base. -/
def Radix.digit? (radix : Radix) (c : Char) : Option Nat :=
  if c.isDigit ∨ c.isAlpha then Integer.digit? radix.base c else none

/-! ## Lexemes -/

/-- A token kind and the number of characters of its lexeme after the first. -/
structure Lexeme where
  kind : Token.Kind
  more : Nat
deriving DecidableEq

/-- Why no lexeme begins at a character, and the number of characters that were read. -/
inductive Misread where
  /-- A fault at a distance from the first character. -/
  | fault (cause : LexFault) (offset consumed : Nat)
  /-- A decimal literal with more digits than can be converted. -/
  | tooManyDigits (count consumed : Nat)
deriving DecidableEq

/-- The number of characters that were read before the fault was found. -/
def Misread.consumed : Misread → Nat
  | fault _ _ consumed => consumed
  | tooManyDigits _ consumed => consumed

namespace Lexeme

/-- The base of a number literal and its digits. A letter at the end selects the base. -/
def splitRadix (literal : List Char) : Radix × List Char :=
  match literal.getLast?.bind Radix.ofSuffix? with
  | some radix => (radix, literal.dropLast)
  | none => (.decimal, literal)

/-- The value of a number literal, modulo 65536, with its base. The first character that is no digit
of the base is at fault. -/
def number (literal : List Char) : Except Misread (Nat × Radix) :=
  let (radix, digits) := splitRadix literal
  match digits.findIdx? (fun c => (radix.digit? c).isNone) with
  | some offset =>
    .error (.fault (.invalidDigit (digits.getD offset '0') radix (String.ofList literal)) offset
      literal.length)
  | none =>
    if radix = .decimal ∧ digits.length > Integer.digitLimit then
      .error (.tooManyDigits digits.length literal.length)
    else .ok (Integer.ofDigits radix.base (digits.filterMap radix.digit?) % 0x10000, radix)

/-- The character literal whose opening quote is followed by these characters: one character other
than a line feed, with a code below 256, and a closing quote. -/
def character : List Char → Except Misread Lexeme
  | [] => .error (.fault .unterminatedCharacter 0 1)
  | c :: cs =>
    if c = '\n' then .error (.fault .unterminatedCharacter 0 1)
    else
      match cs with
      | [] => .error (.fault .unterminatedCharacter 0 2)
      | d :: _ =>
        if d = '\'' then
          if c.toNat > 0xFF then .error (.fault (.characterTooWide c) 1 3) else .ok ⟨.char c, 2⟩
        else if d = '\n' then .error (.fault .unterminatedCharacter 0 2)
        else .error (.fault .missingClosingQuote 2 2)

/-- The lexeme that begins with `c` and may extend into `cs`. -/
def read (c : Char) (cs : List Char) : Except Misread Lexeme :=
  if c = '\n' then .ok ⟨.newline, 0⟩
  else if isNameStart c then
    let tail := cs.takeWhile isNameChar
    .ok ⟨Token.Kind.ofName (String.ofList (c :: tail)), tail.length⟩
  else if c.isDigit then
    let tail := cs.takeWhile isNameChar
    match number (c :: tail) with
    | .ok (value, radix) => .ok ⟨.number value radix, tail.length⟩
    | .error m => .error m
  else if c = '\'' then character cs
  else
    match Punctuation.ofChar? c with
    | some p => .ok ⟨.punctuation p, 0⟩
    | none => .error (.fault (.unexpectedCharacter c) 0 0)

end Lexeme

end Asm8080
