import Asm8080.Disassembly.Record
import Asm8080.Event
import Asm8080.Number.Index

/-!
# Disassembly

Bytes are decoded one instruction after another, from the first byte on. A byte that begins no
instruction becomes a record of its own, or ends a strict disassembly. The bytes of an instruction
that the data cuts short are records of their own too, since they are no opcodes.

## Main definitions

* `Asm8080.Disassembler` — names for addresses, and whether to be strict.
* `Asm8080.Disassembler.decodeOne` — the record at an offset of the data.
* `Asm8080.Disassembler.disassemble` — the records of the data.
* `Asm8080.Disassembly.text` — a disassembly as source text.
-/

set_option autoImplicit false

namespace Asm8080

/-- Names for addresses, the latest first, and whether the first byte that begins no instruction is
an error. -/
structure Disassembler where
  names : List (Int × String) := []
  strict : Bool := false
deriving DecidableEq

/-- Why data is not disassembled. -/
inductive DisassemblyFault where
  | startOutOfRange (start : Int)
  | offsetBeyondEnd (offset : Int) (length : Nat)
  | offsetOutOfRange (offset : Int)
  | undecodable (error : DecodeError)
deriving DecidableEq

/-- The text of a fault of a disassembly. -/
def DisassemblyFault.message : DisassemblyFault → String
  | startOutOfRange start => "start address $" ++ Hex.text start ++ " is outside 0-$FFFF"
  | offsetBeyondEnd offset length =>
    "Offset " ++ toString offset ++ " beyond data length " ++ toString length
  | offsetOutOfRange offset => Index.refusal "" offset
  | undecodable error => error.text

/-- The records of some data, what happened, and the fault that ended it. -/
structure Disassembly where
  records : List Record
  events : List Event
  fault : Option DisassemblyFault
deriving DecidableEq

namespace Disassembler

/-! ## Names -/

/-- Name an address; an earlier name of it is forgotten. -/
def addName (d : Disassembler) (address : Int) (name : String) : Disassembler :=
  { d with names := (address, name) :: d.names }

/-- Name addresses, one after another. -/
def addNames (d : Disassembler) (names : List (Int × String)) : Disassembler :=
  names.foldl (fun d entry => d.addName entry.1 entry.2) d

/-- The name for the word among operands. -/
def nameFor (d : Disassembler) (arguments : List Argument) : Option String :=
  arguments.findSome? fun
    | .word value => d.names.lookup (value : Int)
    | _ => none

/-! ## One record -/

/-- The record for a byte that begins no instruction; an error if the disassembler is strict. -/
def refuse (d : Disassembler) (address : Int) (byte : UInt8) (problem : Problem) :
    Except DecodeError Record :=
  if d.strict then .error ⟨address, byte, problem⟩ else .ok ⟨address, byte, .data problem, [byte]⟩

/-- The record of an instruction. -/
def accept (d : Disassembler) (address : Int) (opcode : UInt8) (e : Encoding)
    (arguments : List Argument) (bytes : List UInt8) : Record :=
  ⟨address, opcode, .instruction e arguments (d.nameFor arguments), bytes⟩

/-- The record of the instruction with an opcode and the bytes after it. -/
def decodeFront (d : Disassembler) (address : Int) (opcode : UInt8) (rest : List UInt8) :
    Except DecodeError Record :=
  match Encoding.decode? opcode with
  | none => d.refuse address opcode .undocumented
  | some (e, vector) =>
    match readArguments? e vector rest with
    | none => d.refuse address opcode (.truncated e.mnemonic e.size (rest.length + 1))
    | some arguments =>
      .ok (d.accept address opcode e arguments (opcode :: rest.take (e.size - 1)))

/-- The place of an offset, where a negative offset counts back from the end of the data. -/
def placeOf (length : Nat) (offset : Int) : Int := if offset < 0 then length + offset else offset

/-- The bytes from one offset up to another. -/
def slice (data : List UInt8) (first last : Int) : List UInt8 :=
  let start := (placeOf data.length first).toNat
  (data.drop start).take ((placeOf data.length last).toNat - start)

/-- The record at a negative offset. The end of the instruction is an offset too, and counts from
the front if it is not negative. -/
def decodeBack (d : Disassembler) (data : List UInt8) (address offset : Int) :
    Except DisassemblyFault Record :=
  match data.drop (placeOf data.length offset).toNat with
  | [] => .error (.offsetOutOfRange offset)
  | opcode :: _ =>
    match Encoding.decode? opcode with
    | none => (d.refuse address opcode .undocumented).mapError .undecodable
    | some (e, vector) =>
      if offset + e.size > data.length then
        (d.refuse address opcode
          (.truncated e.mnemonic e.size (data.length - offset))).mapError .undecodable
      else
        let bytes := slice data offset (offset + e.size)
        match readArguments? e vector bytes.tail with
        | none => .error (.offsetOutOfRange offset)
        | some arguments => .ok (d.accept address opcode e arguments bytes)

/-- The record at an offset of the data. -/
def decodeOne (d : Disassembler) (data : List UInt8) (address offset : Int) :
    Except DisassemblyFault Record :=
  if offset < 0 then
    if placeOf data.length offset < 0 then .error (.offsetOutOfRange offset)
    else d.decodeBack data address offset
  else
    match data.drop offset.toNat with
    | [] => .error (.offsetBeyondEnd offset data.length)
    | opcode :: rest => (d.decodeFront address opcode rest).mapError .undecodable

/-! ## All records -/

/-- Whether a record is the first byte of an instruction that the data cuts short. -/
def isCut (r : Record) : Bool :=
  match r.content with
  | .data (.truncated _ _ _) => true
  | _ => false

/-- The records of data at an address, after those in `done`; `cut` says that the data is what is
left of an instruction cut short. At most `count` records are read in all. -/
def scan (d : Disassembler) (count : Option Int) (done : Array Record) (address : Nat)
    (cut : Bool) : List UInt8 → List Record × Option DecodeError
  | [] => (done.toList, none)
  | byte :: rest =>
    if count.any (fun n => n ≤ (done.size : Int)) then (done.toList, none)
    else
      let next := if cut then d.refuse address byte .operand else d.decodeFront address byte rest
      match next with
      | .error e => (done.toList, some e)
      | .ok r =>
        d.scan count (done.push r) (address + r.size) (cut || isCut r) (rest.drop (r.size - 1))
termination_by data => data.length

/-- The event of a record that is no instruction. -/
def event? (r : Record) : Option Event := r.error?.map fun e => .undecoded e.text

/-- The records of data at an address. Data past the end of the address space is ignored. -/
def disassemble (d : Disassembler) (data : List UInt8) (start : Int) (count : Option Int) :
    Disassembly :=
  if 0 ≤ start ∧ start < 0x10000 then
    let limit := 0x10000 - start.toNat
    let excess := data.length - limit
    let (records, error) := d.scan count #[] start.toNat false (data.take limit)
    { records := records
      events := (if excess = 0 then [] else [.ignored excess]) ++ records.filterMap event?
      fault := error.map .undecodable }
  else ⟨[], [], some (.startOutOfRange start)⟩

end Disassembler

namespace Disassembly

/-- The lines of a disassembly. An origin comes first unless the data is at address 0. -/
def lines (s : Disassembly) (start : Int) (showBytes : Bool) : List String :=
  (if start = 0 then [] else ["ORG " ++ Hex.literal 4 start]) ++
    s.records.map (if showBytes then Record.line else Record.text)

/-- A disassembly as source text. -/
def text (s : Disassembly) (start : Int) (showBytes : Bool) : Except DisassemblyFault String :=
  match s.fault with
  | some fault => .error fault
  | none =>
    let lines := s.lines start showBytes
    .ok (if lines.isEmpty then "" else Text.joinLines lines)

end Disassembly

end Asm8080
