import Asm8080.Text.Quoted
import Asm8080.Text.Utf8

/-!
# Text from the system

The words of a command line, the values of variables and the names of files come from the system as
bytes. They are meant as UTF-8, but nothing makes sure of that: a byte that is part of no character
is kept as it is. Such a byte can be shown by its code, and the name that holds it leads to its file
like any other name; but a text that holds it cannot be encoded.

## Main definitions

* `Asm8080.Glyph` — a character, or a byte that is part of none.
* `Asm8080.Glyph.decode` — what bytes decode to.
* `Asm8080.Glyph.chars`, `Asm8080.Glyph.encode` — the characters and the bytes of a text that holds
  no such byte.
* `Asm8080.RawText` — text as the system hands it over.

## Implementation notes

A byte `b` that is part of no character stands for the code `0xDC00 + b`, a surrogate, wherever a
code is asked for. No character has such a code, so that the two cannot be confused.
-/

set_option autoImplicit false

namespace Asm8080

/-! ## Glyphs -/

/-- A character, or a byte that is part of none. -/
inductive Glyph where
  | char (c : Char)
  | stray (byte : UInt8)
deriving DecidableEq

/-- Bytes that cannot be encoded: where they begin, how many they are, the first of them. -/
structure EncodingFault where
  position : Nat
  count : Nat
  byte : UInt8
deriving DecidableEq

namespace Glyph

/-- The glyphs of a text. -/
def ofText (s : String) : List Glyph := s.toList.map char

/-- The character that a glyph is. -/
def char? : Glyph → Option Char
  | char c => some c
  | stray _ => none

/-- The code that a stray byte is written by. -/
def strayCode (byte : UInt8) : List Char := Text.escapeCode (0xDC00 + byte.toNat)

/-- A text as it is shown, with the codes of stray bytes. -/
def shown (gs : List Glyph) : String :=
  String.ofList (gs.flatMap fun
    | char c => [c]
    | stray byte => strayCode byte)

/-- A text in quotes. -/
def quoted (gs : List Glyph) : String :=
  let mark := Text.quoteMark (gs.filterMap char?)
  String.ofList (mark :: (gs.flatMap fun
    | char c => Text.escape mark c
    | stray byte => strayCode byte) ++ [mark])

/-- What bytes decode to: the characters in them, and the bytes between these. -/
def decode (bytes : List UInt8) : List Glyph :=
  match bytes with
  | [] => []
  | first :: rest =>
    match Utf8.width? first with
    | none => stray first :: decode rest
    | some width =>
      if Utf8.fitting first (width - 1) rest = width - 1 then
        char (Char.ofNat (Utf8.codeOf first (rest.take (width - 1)))) ::
          decode (rest.drop (width - 1))
      else stray first :: decode rest
termination_by bytes.length
decreasing_by
  all_goals simp only [List.length_drop, List.length_cons]
  all_goals omega

/-- The characters of a text from `position` on, after those in `done`, which are in reverse. -/
def charsFrom (position : Nat) (done : List Char) : List Glyph → Except EncodingFault (List Char)
  | [] => .ok done.reverse
  | char c :: gs => charsFrom (position + 1) (c :: done) gs
  | stray byte :: gs =>
    .error ⟨position, 1 + (gs.takeWhile fun g => g.char?.isNone).length, byte⟩

/-- The characters of a text, or the first stray bytes in it. -/
def chars (gs : List Glyph) : Except EncodingFault (List Char) := charsFrom 0 [] gs

/-- The bytes of a text. -/
def encode (gs : List Glyph) : Except EncodingFault (List UInt8) :=
  (chars gs).map fun cs => Utf8.encode (String.ofList cs)

end Glyph

/-- The wording of a fault: one byte is shown, several are given by their positions. -/
def EncodingFault.message (f : EncodingFault) : String :=
  let place :=
    if f.count = 1 then
      "character '" ++ String.ofList (Glyph.strayCode f.byte) ++ "' in position " ++
        toString f.position
    else
      "characters in position " ++ toString f.position ++ "-" ++
        toString (f.position + f.count - 1)
  "'utf-8' codec can't encode " ++ place ++ ": surrogates not allowed"

/-! ## Raw text -/

/-- Text as the system hands it over: bytes that are meant as UTF-8, and need not be. -/
structure RawText where
  bytes : List UInt8
deriving DecidableEq

namespace RawText

/-- A text as the system has it. -/
@[coe] def ofText (s : String) : RawText := ⟨Utf8.encode s⟩

instance : Coe String RawText := ⟨ofText⟩

instance : Append RawText := ⟨fun r r' => ⟨r.bytes ++ r'.bytes⟩⟩

/-- What the bytes decode to. -/
def glyphs (r : RawText) : List Glyph := Glyph.decode r.bytes

/-- The text as it is shown. -/
def shown (r : RawText) : String := Glyph.shown r.glyphs

/-- The text in quotes. -/
def quoted (r : RawText) : String := Glyph.quoted r.glyphs

end RawText

end Asm8080
