import Asm8080.Text.Case

/-!
# Registers and operand slots

An operand of an 8080 instruction is a register, fixed by its name, or a value, given by an
expression. A register pair goes by the name of its high register.

## Main definitions

* `Asm8080.Register` — the register and register pair names.
* `Asm8080.Immediate` — the three ways in which a value is encoded.
* `Asm8080.Slot` — what an operand position of an instruction takes.
-/

set_option autoImplicit false

namespace Asm8080

/-- The register and register pair names. `m` is the byte that the pair `h` points at. -/
inductive Register where
  | a | b | c | d | e | h | l | m | sp | psw
deriving DecidableEq

namespace Register

/-- Every register name. -/
def all : List Register := [a, b, c, d, e, h, l, m, sp, psw]

/-- The name of a register in source text. -/
def name : Register → String
  | a => "A" | b => "B" | c => "C" | d => "D" | e => "E"
  | h => "H" | l => "L" | m => "M" | sp => "SP" | psw => "PSW"

/-- The register with an upper case name. -/
def ofName? (s : String) : Option Register := all.find? (fun r => r.name == s)

end Register

/-- How an instruction encodes the value of an expression. -/
inductive Immediate where
  /-- One byte after the opcode. -/
  | byte
  /-- Two bytes after the opcode, low byte first. -/
  | word
  /-- A restart number from 0 to 7 inside the opcode. -/
  | vector
deriving DecidableEq

namespace Immediate

/-- The name of an immediate in messages. -/
def name : Immediate → String
  | byte => "byte" | word => "word" | vector => "vector"

/-- The number of bytes that an immediate adds to the opcode. -/
def size : Immediate → Nat
  | byte => 1 | word => 2 | vector => 0

/-- The immediate with a name. -/
def ofName? (s : String) : Option Immediate :=
  [byte, word, vector].find? (fun i => i.name == s)

end Immediate

/-- What one operand position takes: a certain register, or a value. -/
inductive Slot where
  | register (r : Register)
  | value (i : Immediate)
deriving DecidableEq

namespace Slot

/-- The name of a slot in messages. -/
def name : Slot → String
  | register r => r.name
  | value i => i.name

/-- The immediate of a slot that takes a value. -/
def immediate? : Slot → Option Immediate
  | register _ => none
  | value i => some i

/-- Whether the slot takes a register. -/
def isRegister : Slot → Bool
  | register _ => true
  | value _ => false

/-- The number of bytes that the slot adds to the opcode. -/
def size : Slot → Nat
  | register _ => 0
  | value i => i.size

/-- The slot with a name: an upper case register name or the name of an immediate. -/
def ofName? (s : String) : Option Slot :=
  ((Register.ofName? s).map register).or ((Immediate.ofName? s).map value)

end Slot

end Asm8080
