import Asm8080.Token.Cursor

/-!
# Readers that share a position

A tokenizer holds a source text and one position in it. Any number of readers draw tokens from it.
A reader begins at the start of the source when its first token is asked for, which moves the shared
position there; afterwards it goes on from the shared position, wherever another reader has left it.
A reader is finished after an end mark or a failure.

## Main definitions

* `Asm8080.Tokenizer` — the source, its file name and the shared position.
* `Asm8080.Reader` — how far a reader has come.
* `Asm8080.Tokenizer.step` — the next token of a reader.
* `Asm8080.Tokenizer.drain` — all remaining tokens of a reader.
-/

set_option autoImplicit false

namespace Asm8080

/-- A source text with one position that its readers share. -/
structure Tokenizer where
  source : List Char
  file : String
  cursor : Cursor
deriving DecidableEq

/-- How far a reader has come. -/
inductive Reader where
  /-- No token has been asked for. -/
  | fresh
  /-- The last token was not an end mark. -/
  | reading
  /-- The last token was an end mark, or there was a failure. -/
  | finished
deriving DecidableEq

namespace Tokenizer

/-- A tokenizer at the start of its source. -/
def ofSource (source file : String) : Tokenizer :=
  ⟨source.toList, file, Cursor.start source.toList⟩

/-- The position from which a reader goes on. -/
def cursorFor (t : Tokenizer) : Reader → Cursor
  | .fresh => Cursor.start t.source
  | _ => t.cursor

/-- The text of the line at the shared position. -/
def currentLine (t : Tokenizer) : String := t.cursor.currentLine

/-- The next token of a reader, `none` if it is finished. -/
def step (t : Tokenizer) (r : Reader) : Tokenizer × Reader × Option (Except Failure Token) :=
  match r with
  | .finished => (t, .finished, none)
  | _ =>
    match (t.cursorFor r).next t.file with
    | (c, .ok token) =>
      ({ t with cursor := c }, if token.kind = .eof then .finished else .reading, some (.ok token))
    | (c, .error f) => ({ t with cursor := c }, .finished, some (.error f))

/-- All remaining tokens of a reader, or the failure that it meets. -/
def drain (t : Tokenizer) (r : Reader) : Tokenizer × Except Failure (List Token) :=
  match r with
  | .finished => (t, .ok [])
  | _ =>
    let reading := (t.cursorFor r).readAll t.file
    ({ t with cursor := reading.cursor },
      match reading.failure with
      | some f => .error f
      | none => .ok reading.tokens)

end Tokenizer

end Asm8080
