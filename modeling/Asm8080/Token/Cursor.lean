import Asm8080.Token.Lexeme

/-!
# Reading tokens

A cursor is a position in source text. It moves over separators and comments to the next lexeme and
past it, one token at a time, and counts lines and columns on the way. When a lexeme is at fault the
cursor stays where reading stopped.

## Main definitions

* `Asm8080.Cursor` — a position: the characters ahead, the line and column, and the current line.
* `Asm8080.Cursor.next` — the next token or the failure, and the position after it.
* `Asm8080.Cursor.readAll` — all tokens up to the end of the source or the first failure.
* `Asm8080.tokenize` — the tokens of a source text.
-/

set_option autoImplicit false

namespace Asm8080

/-- A position in source text. -/
structure Cursor where
  /-- The characters that have not been read. -/
  rest : List Char
  /-- The number of the current line, from 1. -/
  line : Nat
  /-- The number of the next character on the current line, from 1. -/
  column : Nat
  /-- The source from the first character of the current line on. -/
  lineStart : List Char
deriving DecidableEq

namespace Cursor

/-- The position before the first character. -/
def start (source : List Char) : Cursor := ⟨source, 1, 1, source⟩

/-- The text of the current line. -/
def currentLine (c : Cursor) : String := String.ofList (c.lineStart.takeWhile (· != '\n'))

/-- The position `n` characters on, on the same line. -/
def skip (c : Cursor) (n : Nat) : Cursor :=
  { c with rest := c.rest.drop n, column := c.column + n }

/-- The position after the line feed that comes next. -/
def nextLine (c : Cursor) : Cursor := ⟨c.rest.tail, c.line + 1, 1, c.rest.tail⟩

/-- The number of characters of the comment at the front, which ends before the line feed. -/
def commentLength : List Char → Nat
  | ';' :: cs => (';' :: cs.takeWhile (· != '\n')).length
  | _ => 0

/-- The position after the separators and the comment that come next. -/
def skipIgnored (c : Cursor) : Cursor :=
  let c := c.skip (c.rest.takeWhile isSeparator).length
  c.skip (commentLength c.rest)

/-- The position after a lexeme. -/
def past (c : Cursor) (l : Lexeme) : Cursor :=
  if l.kind = .newline then c.nextLine else c.skip (l.more + 1)

/-- The token of a kind at a position. -/
def token (c : Cursor) (file : String) (kind : Token.Kind) : Token := ⟨kind, file, c.line, c.column⟩

/-- The failure for a lexeme at fault at position `c`. -/
def failure (c : Cursor) (file : String) : Misread → Failure
  | .fault cause offset _ =>
    .diagnostic ⟨.lex cause, some ⟨file, c.line, c.column + offset⟩, some c.currentLine⟩
  | .tooManyDigits count _ => .integer (.tooLongToRead count)

/-- The next token and the position after it. At the end of the source it is an end mark, as often
as it is asked for. -/
def next (c : Cursor) (file : String) : Cursor × Except Failure Token :=
  let c := c.skipIgnored
  match c.rest with
  | [] => (c, .ok (c.token file .eof))
  | ch :: cs =>
    match Lexeme.read ch cs with
    | .ok l => (c.past l, .ok (c.token file l.kind))
    | .error m => (c.skip m.consumed, .error (c.failure file m))

end Cursor

/-! ## All tokens -/

/-- What reading to the end gives: the tokens, the failure that stopped it, the last position. -/
structure Reading where
  tokens : List Token
  failure : Option Failure
  cursor : Cursor
deriving DecidableEq

namespace Cursor

/-- Moving on never adds characters ahead. -/
theorem length_rest_skip (c : Cursor) (n : Nat) : (c.skip n).rest.length ≤ c.rest.length := by
  simp only [skip, List.length_drop]
  omega

/-- Separators and comments are taken off the characters ahead. -/
theorem length_rest_skipIgnored (c : Cursor) : c.skipIgnored.rest.length ≤ c.rest.length := by
  unfold skipIgnored
  exact Nat.le_trans (length_rest_skip _ _) (length_rest_skip _ _)

/-- A lexeme takes at least one character off the characters ahead. -/
theorem length_rest_past (c : Cursor) (l : Lexeme) (h : c.rest ≠ []) :
    (c.past l).rest.length < c.rest.length := by
  cases hr : c.rest with
  | nil => exact absurd hr h
  | cons ch cs =>
    unfold past
    split
    · simp only [nextLine, hr, List.tail_cons, List.length_cons]
      omega
    · simp only [skip, hr, List.length_drop, List.length_cons]
      omega

/-- Read on from a position, after the tokens of `done` in reverse. -/
def readAllFrom (file : String) (done : List Token) (c : Cursor) : Reading :=
  match h : c.skipIgnored.rest with
  | [] => ⟨(c.skipIgnored.token file .eof :: done).reverse, none, c.skipIgnored⟩
  | ch :: cs =>
    have ahead : c.skipIgnored.rest ≠ [] := by simp [h]
    match Lexeme.read ch cs with
    | .ok l => readAllFrom file (c.skipIgnored.token file l.kind :: done) (c.skipIgnored.past l)
    | .error m =>
      ⟨done.reverse, some (c.skipIgnored.failure file m), c.skipIgnored.skip m.consumed⟩
termination_by c.rest.length
decreasing_by
  have past := length_rest_past c.skipIgnored l ahead
  have ignored := length_rest_skipIgnored c
  omega

/-- All tokens from a position on, the last one an end mark, or those before the first failure. -/
def readAll (c : Cursor) (file : String) : Reading := readAllFrom file [] c

end Cursor

/-- The tokens of a source text, or the first failure. -/
def tokenize (source file : String) : Except Failure (List Token) :=
  let reading := (Cursor.start source.toList).readAll file
  match reading.failure with
  | some f => .error f
  | none => .ok reading.tokens

end Asm8080
