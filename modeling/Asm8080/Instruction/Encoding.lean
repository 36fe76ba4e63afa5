import Asm8080.Instruction.Mnemonic
import Asm8080.Instruction.Register
import Asm8080.Number.Hex

/-!
# The instruction table

The documented 8080 instruction set as one table. A row gives a mnemonic, what each of its operand
positions takes, and the opcode with any register codes merged in. The assembler picks a row by
mnemonic and operand shape; the disassembler picks the first row that has an opcode. `MOV M,M` is a
row of its own, with the opcode of `HLT`, which comes first: that byte always decodes as `HLT`.

## Main definitions

* `Asm8080.Encoding` — a row, and `Asm8080.Encoding.table` — all of them.
* `Asm8080.Encoding.select?` — the row for a mnemonic and an operand shape.
* `Asm8080.Encoding.decode?` — the row for an opcode, with the restart number that it holds.
* `Asm8080.Encoding.summary` — the accepted operand forms of a mnemonic, for messages.
-/

set_option autoImplicit false

namespace Asm8080

/-- One instruction of the 8080: a mnemonic with its operand slots and its opcode. The opcode of a
restart is the one for restart 0. -/
structure Encoding where
  mnemonic : Mnemonic
  slots : List Slot
  opcode : UInt8
deriving DecidableEq

namespace Encoding

/-! ## The table -/

/-- Instructions without operands. -/
def plain : List (Mnemonic × UInt8) := [
  (.nop, 0x00), (.rlc, 0x07), (.rrc, 0x0F), (.ral, 0x17), (.rar, 0x1F),
  (.daa, 0x27), (.cma, 0x2F), (.stc, 0x37), (.cmc, 0x3F), (.hlt, 0x76),
  (.rnz, 0xC0), (.rz, 0xC8), (.ret, 0xC9), (.rnc, 0xD0), (.rc, 0xD8),
  (.rpo, 0xE0), (.rpe, 0xE8), (.rp, 0xF0), (.rm, 0xF8),
  (.xthl, 0xE3), (.pchl, 0xE9), (.xchg, 0xEB), (.sphl, 0xF9),
  (.di, 0xF3), (.ei, 0xFB)]

/-- Instructions with an address or a 16-bit value. -/
def withWord : List (Mnemonic × UInt8) := [
  (.shld, 0x22), (.lhld, 0x2A), (.sta, 0x32), (.lda, 0x3A),
  (.jnz, 0xC2), (.jmp, 0xC3), (.jz, 0xCA), (.jnc, 0xD2), (.jc, 0xDA),
  (.jpo, 0xE2), (.jpe, 0xEA), (.jp, 0xF2), (.jm, 0xFA),
  (.cnz, 0xC4), (.cz, 0xCC), (.call, 0xCD), (.cnc, 0xD4), (.cc, 0xDC),
  (.cpo, 0xE4), (.cpe, 0xEC), (.cp, 0xF4), (.cm, 0xFC)]

/-- Instructions with an 8-bit value or a port number. -/
def withByte : List (Mnemonic × UInt8) := [
  (.adi, 0xC6), (.aci, 0xCE), (.sui, 0xD6), (.sbi, 0xDE),
  (.ani, 0xE6), (.xri, 0xEE), (.ori, 0xF6), (.cpi, 0xFE),
  (.outPort, 0xD3), (.inPort, 0xDB)]

/-- Operations of the accumulator with a register, whose code is in the low bits. -/
def arithmetic : List (Mnemonic × UInt8) := [
  (.add, 0x80), (.adc, 0x88), (.sub, 0x90), (.sbb, 0x98),
  (.ana, 0xA0), (.xra, 0xA8), (.ora, 0xB0), (.cmp, 0xB8)]

/-- The 8-bit registers with their codes. -/
def registerCodes : List (Register × UInt8) := [
  (.b, 0), (.c, 1), (.d, 2), (.e, 3), (.h, 4), (.l, 5), (.m, 6), (.a, 7)]

/-- The register pairs with their codes. -/
def pairCodes : List (Register × UInt8) := [(.b, 0), (.d, 1), (.h, 2), (.sp, 3)]

/-- The register pairs of `PUSH` and `POP` with their codes. -/
def stackCodes : List (Register × UInt8) := [(.b, 0), (.d, 1), (.h, 2), (.psw, 3)]

/-- The register pairs of `STAX` and `LDAX` with their codes. -/
def indirectCodes : List (Register × UInt8) := [(.b, 0), (.d, 1)]

/-- An opcode with a register code in bits 3 to 5. -/
def atBit3 (base code : UInt8) : UInt8 := base ||| (code <<< 3)

/-- An opcode with a register pair code in bits 4 and 5. -/
def atBit4 (base code : UInt8) : UInt8 := base ||| (code <<< 4)

/-- The moves between registers, `01 ddd sss`. The code of `M` twice is that of `HLT`. -/
def moves : List Encoding :=
  registerCodes.flatMap fun (dst, d) =>
    registerCodes.map fun (src, s) =>
      ⟨.mov, [.register dst, .register src], atBit3 0x40 d ||| s⟩

/-- The instructions with one 8-bit register. -/
def registerRows : List Encoding :=
  registerCodes.flatMap fun (r, code) =>
    [⟨.mvi, [.register r, .value .byte], atBit3 0x06 code⟩,
      ⟨.inr, [.register r], atBit3 0x04 code⟩,
      ⟨.dcr, [.register r], atBit3 0x05 code⟩] ++
    arithmetic.map fun (m, base) => ⟨m, [.register r], base ||| code⟩

/-- The instructions with a register pair. -/
def pairRows : List Encoding :=
  pairCodes.flatMap fun (r, code) =>
    [⟨.lxi, [.register r, .value .word], atBit4 0x01 code⟩,
      ⟨.inx, [.register r], atBit4 0x03 code⟩,
      ⟨.dad, [.register r], atBit4 0x09 code⟩,
      ⟨.dcx, [.register r], atBit4 0x0B code⟩]

/-- `POP` and `PUSH`. -/
def stackRows : List Encoding :=
  stackCodes.flatMap fun (r, code) =>
    [⟨.pop, [.register r], atBit4 0xC1 code⟩,
      ⟨.push, [.register r], atBit4 0xC5 code⟩]

/-- `STAX` and `LDAX`. -/
def indirectRows : List Encoding :=
  indirectCodes.flatMap fun (r, code) =>
    [⟨.stax, [.register r], atBit4 0x02 code⟩,
      ⟨.ldax, [.register r], atBit4 0x0A code⟩]

/-- The documented instruction set. -/
def table : List Encoding :=
  plain.map (fun (m, op) => ⟨m, [], op⟩) ++
  withWord.map (fun (m, op) => ⟨m, [.value .word], op⟩) ++
  withByte.map (fun (m, op) => ⟨m, [.value .byte], op⟩) ++
  moves ++ registerRows ++ pairRows ++ stackRows ++ indirectRows ++
  [⟨.rst, [.value .vector], 0xC7⟩]

/-! ## Properties of a row -/

/-- The number of bytes of an instruction. -/
def size (e : Encoding) : Nat := 1 + e.slots.foldr (fun slot n => slot.size + n) 0

/-- The immediate of an instruction that takes a value. -/
def immediate? (e : Encoding) : Option Immediate := e.slots.findSome? Slot.immediate?

/-- A list of operand slots in messages. -/
def formText (slots : List Slot) : String :=
  if slots.isEmpty then "(none)" else String.intercalate "," (slots.map Slot.name)

/-- A row in words. -/
def text (e : Encoding) : String :=
  "InstructionInfo(" ++ e.mnemonic.name ++ " " ++ formText e.slots ++ ", opcode=$" ++
    Hex.padded 2 e.opcode.toNat ++ ", size=" ++ toString e.size ++ ")"

/-! ## Choosing a row by mnemonic and operands -/

/-- The rows of a mnemonic, in table order. -/
def rows (m : Mnemonic) : List Encoding := table.filter (fun e => e.mnemonic = m)

/-- The operand forms of a mnemonic, in table order. -/
def forms (m : Mnemonic) : List (List Slot) := (rows m).map Encoding.slots

/-- The row with a mnemonic and exactly these slots. -/
def find? (m : Mnemonic) (slots : List Slot) : Option Encoding :=
  table.find? (fun e => e.mnemonic = m && e.slots = slots)

/-- The number of operands of a mnemonic. -/
def operandCount (m : Mnemonic) : Nat := ((forms m).headD []).length

/-- Whether operand position `index` of a mnemonic can take a register. -/
def acceptsRegister (m : Mnemonic) (index : Nat) : Bool :=
  (forms m).any fun slots => slots[index]?.any Slot.isRegister

/-- Whether operand position `index` of a mnemonic can take a value. -/
def acceptsValue (m : Mnemonic) (index : Nat) : Bool :=
  (forms m).any fun slots => slots[index]?.any (fun s => !s.isRegister)

/-- Whether a slot takes an operand: a register takes itself, `none` stands for an expression. -/
def fits (slot : Slot) (operand : Option Register) : Bool :=
  match slot, operand with
  | .register r, some r' => r = r'
  | .value _, none => true
  | _, _ => false

/-- The row of a mnemonic whose slots take the operands; `none` stands for an expression. -/
def select? (m : Mnemonic) (shape : List (Option Register)) : Option Encoding :=
  (rows m).find? fun e =>
    e.slots.length = shape.length && (e.slots.zip shape).all (fun (slot, o) => fits slot o)

/-! ## Choosing a row by opcode -/

/-- The opcodes of a row, each with the restart number that it holds. -/
def opcodes (e : Encoding) : List (UInt8 × Option Nat) :=
  if e.immediate? = some .vector then
    (List.range 8).map fun v => (atBit3 e.opcode (UInt8.ofNat v), some v)
  else [(e.opcode, none)]

/-- The instruction that an opcode begins, with its restart number. Twelve opcodes begin none. -/
def decode? (op : UInt8) : Option (Encoding × Option Nat) :=
  table.findSome? fun e => (e.opcodes.find? (fun o => o.1 = op)).map fun o => (e, o.2)

/-! ## Accepted forms in messages -/

/-- The values that a form takes, position by position; `none` for a register. -/
def pattern (slots : List Slot) : List (Option Immediate) := slots.map Slot.immediate?

/-- The forms with one pattern as one text: the registers of a position are joined by `|`. -/
def summarize (key : List (Option Immediate)) (group : List (List Slot)) : String :=
  if key.isEmpty then "(none)"
  else
    String.intercalate "," (key.mapIdx fun index kind =>
      match kind with
      | some i => i.name
      | none =>
        String.intercalate "|"
          ((group.filterMap fun slots => slots[index]?.map Slot.name).eraseDups))

/-- The accepted operand forms of a mnemonic, one text for each pattern. -/
def summary (m : Mnemonic) : List String :=
  let all := forms m
  (all.map pattern).eraseDups.map fun key =>
    summarize key (all.filter fun slots => pattern slots == key)

end Encoding

end Asm8080
