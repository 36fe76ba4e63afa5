import Asm8080.Instruction.Encoding
import Asm8080.Number.Hex
import Asm8080.Text.Columns

/-!
# Disassembled instructions

A record is one line of a disassembly: an instruction with its operands, or a byte that begins no
instruction. Its text is what the assembler reads back as the same bytes.

## Main definitions

* `Asm8080.Problem` — why a byte begins no instruction, and `Asm8080.DecodeError` — where.
* `Asm8080.Argument` — an operand with its value.
* `Asm8080.Record` — a record, `Asm8080.Record.text` and `Asm8080.Record.line` — its text without
  and with address and bytes.
* `Asm8080.readArguments?` — the operands of an instruction from the bytes after its opcode.
-/

set_option autoImplicit false

namespace Asm8080

/-! ## Bytes that begin no instruction -/

/-- Why a byte begins no instruction. -/
inductive Problem where
  /-- No instruction has the opcode. -/
  | undocumented
  /-- The instruction is longer than the data. -/
  | truncated (mnemonic : Mnemonic) (needed : Nat) (available : Int)
  /-- The byte belongs to a truncated instruction. -/
  | operand
deriving DecidableEq

/-- The wording of a problem with a byte. -/
def Problem.message (byte : UInt8) : Problem → String
  | undocumented => "undocumented opcode " ++ Hex.literal 2 byte.toNat
  | truncated mnemonic needed available =>
    "truncated " ++ mnemonic.name ++ ": needs " ++ toString needed ++ " bytes, " ++
      toString available ++ " available"
  | operand => "operand of truncated instruction"

/-- A problem with a byte at an address. -/
structure DecodeError where
  address : Int
  byte : UInt8
  problem : Problem
deriving DecidableEq

namespace DecodeError

/-- The wording of a problem, without the address. -/
def message (e : DecodeError) : String := e.problem.message e.byte

/-- A message with the address in front. -/
def textAt (address : Int) (message : String) : String :=
  "$" ++ Hex.padded 4 address ++ ": " ++ message

/-- The wording of a problem, with the address. -/
def text (e : DecodeError) : String := textAt e.address e.message

end DecodeError

/-! ## Operands -/

/-- An operand with its value. -/
inductive Argument where
  | register (r : Register)
  | byte (b : UInt8)
  | word (value : Nat)
  | vector (number : Nat)
deriving DecidableEq

/-- An operand in assembler notation. -/
def Argument.text : Argument → String
  | register r => r.name
  | byte b => Hex.literal 2 b.toNat
  | word value => Hex.literal 4 value
  | vector number => toString number

/-- The operand in a slot, from the bytes after the opcode and the restart number in it. -/
def readArgument? (vector : Option Nat) (bytes : List UInt8) : Slot → Option Argument
  | .register r => some (.register r)
  | .value .vector => vector.map .vector
  | .value .byte => bytes.head?.map .byte
  | .value .word =>
    match bytes with
    | low :: high :: _ => some (.word (low.toNat ||| high.toNat <<< 8))
    | _ => none

/-- The operands of an instruction, from the bytes after the opcode and the restart number in it. -/
def readArguments? (e : Encoding) (vector : Option Nat) (bytes : List UInt8) :
    Option (List Argument) :=
  e.slots.mapM (readArgument? vector bytes)

/-! ## Records -/

/-- What a record is about. -/
inductive Record.Content where
  /-- An instruction, with the name for the address among its operands. -/
  | instruction (encoding : Encoding) (arguments : List Argument) (name : Option String)
  /-- A byte that begins no instruction. -/
  | data (problem : Problem)
deriving DecidableEq

/-- One line of a disassembly. -/
structure Record where
  address : Int
  opcode : UInt8
  content : Record.Content
  /-- The bytes that the record was read from. -/
  bytes : List UInt8
deriving DecidableEq

namespace Record

/-- The mnemonic of the instruction, or the directive that places the byte. -/
def mnemonic (r : Record) : String :=
  match r.content with
  | .instruction encoding _ _ => encoding.mnemonic.name
  | .data _ => "DB"

/-- The operands in assembler notation. -/
def operands (r : Record) : List String :=
  match r.content with
  | .instruction _ arguments _ => arguments.map Argument.text
  | .data _ => [Hex.literal 2 r.opcode.toNat]

/-- The number of bytes that the record takes up. -/
def size (r : Record) : Nat :=
  match r.content with
  | .instruction encoding _ _ => encoding.size
  | .data _ => 1

/-- The problem with the byte, if it begins no instruction. -/
def error? (r : Record) : Option DecodeError :=
  match r.content with
  | .instruction _ _ _ => none
  | .data problem => some ⟨r.address, r.opcode, problem⟩

/-- The remark on a record: the name for an address, or the problem. -/
def comment (r : Record) : String :=
  match r.content with
  | .instruction _ _ name => name.getD ""
  | .data problem => problem.message r.opcode

/-- A record in assembler notation. -/
def text (r : Record) : String :=
  if r.operands.isEmpty then r.mnemonic
  else r.mnemonic ++ " " ++ String.intercalate ", " r.operands

/-- A record in assembler notation, with address, bytes and remark in a comment. -/
def line (r : Record) : String :=
  let shown := Text.padRight 20 r.text ++ "; " ++ Hex.padded 4 r.address ++ ": " ++
    Hex.bytes r.bytes
  if r.comment = "" then shown else Text.padRight 40 shown ++ " " ++ r.comment

end Record

end Asm8080
