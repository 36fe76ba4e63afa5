import Asm8080.Assembly.Image
import Asm8080.Assembly.Layout

/-!
# Emission

The second pass evaluates the expressions of instructions and data, now that every name has its
value, and writes their bytes into an image. Words are stored low byte first. A value fits in a byte
if it is at most 255, or if it stands for a number from -128 to -1.

## Main definitions

* `Asm8080.Statement.encode` — the bytes of a statement.
* `Asm8080.Row` — the bytes of one statement in the listing.
* `Asm8080.Emission` — how far the pass has come.
* `Asm8080.Emission.step`, `Asm8080.Emission.run` — the effect of one statement, and of all.
-/

set_option autoImplicit false

namespace Asm8080

/-! ## The bytes of a statement -/

/-- Numbers as bytes. -/
def packBytes (ns : List Nat) : Except Failure (List UInt8) :=
  if ns.all (· < 0x100) then .ok (ns.map UInt8.ofNat) else .error .byteOutOfRange

/-- A word as a byte, for the operand `e` of `mnemonic`. -/
def byteOf (mnemonic : String) (text : String) (e : Expr) (value : Nat) : Except Failure Nat :=
  if value ≤ 0xFF then .ok value
  else if value ≥ 0xFF80 then .ok (value &&& 0xFF)
  else .error (.diagnostic ⟨.operand mnemonic (.tooWide value) [], some e.location, some text⟩)

/-- The bytes of a data directive. -/
def encodeData (symbols : SymbolTable) (address : Nat) (text : String) (width : Width) (e : Expr) :
    Except Failure (List UInt8) := do
  let value ← e.evaluate symbols address (some text)
  match width with
  | .byte =>
    let b ← byteOf "DB" text e value
    packBytes [b]
  | .word => packBytes [value &&& 0xFF, value >>> 8]

/-- The bytes of an instruction with the value of its operand `e`. -/
def encodeValue (text : String) (encoding : Encoding) (kind : Immediate) (e : Expr) (value : Nat) :
    Except Failure (List UInt8) := do
  let opcode := encoding.opcode.toNat
  match kind with
  | .vector =>
    if value > 7 then
      throw (.diagnostic ⟨.operand encoding.mnemonic.name (.noSuchVector value) [],
        some e.location, some text⟩)
    else packBytes [opcode ||| (value <<< 3)]
  | .byte =>
    let b ← byteOf encoding.mnemonic.name text e value
    packBytes [opcode, b]
  | .word => packBytes [opcode, value &&& 0xFF, value >>> 8]

/-- The bytes of an instruction. -/
def encodeInstruction (symbols : SymbolTable) (address : Nat) (text : String) (encoding : Encoding)
    (operands : List Operand) : Except Failure (List UInt8) :=
  match encoding.immediate?, Operand.expressionOf operands with
  | some kind, some e => do
    let value ← e.evaluate symbols address (some text)
    encodeValue text encoding kind e value
  | _, _ => packBytes [encoding.opcode.toNat]

/-- The bytes of a statement at an address; `none` for a statement that places none. -/
def Statement.encode (symbols : SymbolTable) (address : Nat) (s : Statement) :
    Except Failure (Option (List UInt8)) :=
  match s.action with
  | .data _ width e => some <$> encodeData symbols address s.text width e
  | .instruction encoding operands =>
    some <$> encodeInstruction symbols address s.text encoding operands
  | .label _ | .origin _ | .equate _ _ => .ok none

/-! ## Writing the image -/

/-- A row of the listing: a statement with its bytes and their address, or an origin. -/
structure Row where
  address : Option Nat
  code : List UInt8
  line : Int
  text : String
deriving DecidableEq

/-- How far the second pass has come. -/
structure Emission where
  image : Image
  rows : Array Row := #[]
  events : Array Event := #[]

namespace Emission

/-- The effect of one statement at its address. -/
def step (symbols : SymbolTable) (m : Emission) (s : Statement) (address : Nat) :
    Emission × Option Failure :=
  match s.encode symbols address with
  | .error f => (m, some f)
  | .ok (some code) =>
    match m.image.writeAll address code with
    | .error f => (m, some f)
    | .ok (image, events) =>
      (⟨image, m.rows.push ⟨some address, code, s.location.line, s.text⟩,
        m.events ++ events.toArray⟩, none)
  | .ok none =>
    match s.action with
    | .origin _ => ({ m with rows := m.rows.push ⟨none, [], s.location.line, s.text⟩ }, none)
    | _ => (m, none)

/-- The effect of statements with their addresses, up to the first failure. -/
def run (symbols : SymbolTable) (m : Emission) :
    List (Statement × Nat) → Emission × Option Failure
  | [] => (m, none)
  | (s, address) :: rest =>
    match m.step symbols s address with
    | (m, none) => m.run symbols rest
    | (m, some f) => (m, some f)

end Emission

end Asm8080
