import Asm8080.Instruction.Mnemonic
import Asm8080.Instruction.Register
import Asm8080.Number.Hex
import Asm8080.Source.Location
import Asm8080.Text.Quoted

/-!
# Tokens

The words of assembly language. A name is a reserved word, which is a keyword, a mnemonic or a
register, or else an identifier, which keeps its spelling. Numbers and character literals carry
their value.

## Main definitions

* `Asm8080.Radix`, `Asm8080.Keyword`, `Asm8080.Punctuation` — the parts of the vocabulary.
* `Asm8080.Token.Kind` — what a token is, and `Asm8080.Token` — a token at its place.
* `Asm8080.Token.Kind.describe` — a token in messages.
-/

set_option autoImplicit false

namespace Asm8080

/-! ## Number bases -/

/-- The bases of number literals. -/
inductive Radix where
  | binary | octal | decimal | hexadecimal
deriving DecidableEq

namespace Radix

/-- The base as a number. -/
def base : Radix → Nat
  | binary => 2 | octal => 8 | decimal => 10 | hexadecimal => 16

/-- The base that a suffix letter of a literal selects. -/
def ofSuffix? (c : Char) : Option Radix :=
  match c.toUpper with
  | 'H' => some hexadecimal
  | 'O' => some octal
  | 'Q' => some octal
  | 'N' => some binary
  | 'D' => some decimal
  | _ => none

end Radix

/-! ## Reserved words and punctuation -/

/-- The reserved words that are neither mnemonics nor registers: directives and word operators. -/
inductive Keyword where
  | org | db | dw | equ | mod | shl | shr | and | or | xor | not
deriving DecidableEq

namespace Keyword

/-- Every keyword. -/
def all : List Keyword := [org, db, dw, equ, mod, shl, shr, and, or, xor, not]

/-- The spelling of a keyword, in upper case. -/
def name : Keyword → String
  | org => "ORG" | db => "DB" | dw => "DW" | equ => "EQU" | mod => "MOD" | shl => "SHL"
  | shr => "SHR" | and => "AND" | or => "OR" | xor => "XOR" | not => "NOT"

/-- The keyword with an upper case spelling. -/
def ofName? (s : String) : Option Keyword := all.find? (fun k => k.name == s)

end Keyword

/-- The single character operators and delimiters. -/
inductive Punctuation where
  | plus | minus | star | slash | comma | colon | lparen | rparen | dollar
deriving DecidableEq

namespace Punctuation

/-- Every operator and delimiter. -/
def all : List Punctuation := [plus, minus, star, slash, comma, colon, lparen, rparen, dollar]

/-- The character of an operator or delimiter. -/
def char : Punctuation → Char
  | plus => '+' | minus => '-' | star => '*' | slash => '/' | comma => ','
  | colon => ':' | lparen => '(' | rparen => ')' | dollar => '$'

/-- The operator or delimiter with a character. -/
def ofChar? (c : Char) : Option Punctuation := all.find? (fun p => p.char == c)

/-- The class of an operator or delimiter in token summaries. -/
def category : Punctuation → String
  | plus => "PLUS" | minus => "MINUS" | star => "STAR" | slash => "SLASH" | comma => "COMMA"
  | colon => "COLON" | lparen => "LPAREN" | rparen => "RPAREN" | dollar => "DOLLAR"

end Punctuation

/-! ## Tokens -/

/-- What a token is, with its value. -/
inductive Token.Kind where
  | newline
  | eof
  | identifier (name : String)
  | mnemonic (m : Mnemonic)
  | register (r : Register)
  | keyword (k : Keyword)
  | number (value : Nat) (radix : Radix)
  | char (c : Char)
  | punctuation (p : Punctuation)
deriving DecidableEq

/-- A token at its place in a file. -/
structure Token where
  kind : Token.Kind
  file : String
  line : Nat
  column : Nat
deriving DecidableEq

/-- What the name `word` stands for. -/
def Token.Kind.ofName (word : String) : Token.Kind :=
  let name := Text.upper word
  match Keyword.ofName? name with
  | some k => .keyword k
  | none =>
    match Mnemonic.ofName? name with
    | some m => .mnemonic m
    | none =>
      match Register.ofName? name with
      | some r => .register r
      | none => .identifier word

namespace Token.Kind

/-- The class of a token in token summaries. -/
def category : Kind → String
  | newline => "NEWLINE"
  | eof => "EOF"
  | identifier _ => "IDENTIFIER"
  | mnemonic _ => "MNEMONIC"
  | register _ => "REGISTER"
  | keyword k => k.name
  | number _ _ => "NUMBER"
  | char _ => "CHAR"
  | punctuation p => p.category

/-- The spelling of a token that stands for itself; reserved words are in upper case. -/
def spelling? : Kind → Option String
  | identifier name => some name
  | mnemonic m => some m.name
  | register r => some r.name
  | keyword k => some k.name
  | punctuation p => some (String.singleton p.char)
  | newline | eof | number _ _ | char _ => none

/-- The number that a token carries. -/
def value? : Kind → Option Nat
  | number value _ => some value
  | char c => some c.toNat
  | _ => none

/-- The base in which a number was written. -/
def base? : Kind → Option Nat
  | number _ radix => some radix.base
  | _ => none

/-- Whether a token ends a line. -/
def isLineEnd : Kind → Bool
  | newline | eof => true
  | _ => false

/-- Whether a token is a reserved word. -/
def isReserved : Kind → Bool
  | mnemonic _ | register _ | keyword _ => true
  | _ => false

/-- Whether an expression can begin with a token. -/
def startsExpression : Kind → Bool
  | number _ _ | char _ | identifier _ => true
  | keyword .not | punctuation .dollar | punctuation .lparen => true
  | _ => false

/-- A token in messages. -/
def describe : Kind → String
  | newline => "end of line"
  | eof => "end of file"
  | number value _ => toString value
  | char c => toString c.toNat
  | kind => "'" ++ (kind.spelling?.getD "") ++ "'"

/-- A token in messages that quote its value; a token without one, or with value zero, is named by
its class. -/
def mention (kind : Kind) : String :=
  match kind.spelling?, kind.value? with
  | some s, _ => s
  | none, some 0 => kind.category
  | none, some n => toString n
  | none, none => kind.category

end Token.Kind

namespace Token

/-- The place of a token. -/
def location (t : Token) : Location := ⟨t.file, t.line, t.column⟩

/-- A token in one line: its class, its value and its place. -/
def summary (t : Token) : String :=
  let value := match t.kind.spelling?, t.kind.value? with
    | some s, _ => ", " ++ Text.quote s
    | none, some n => ", $" ++ Hex.text n
    | none, none => ""
  "Token(" ++ t.kind.category ++ value ++ ", " ++ toString t.line ++ ":" ++ toString t.column ++ ")"

end Token

end Asm8080
