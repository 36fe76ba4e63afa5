import Std.Data.TreeMap
import Asm8080.Event
import Asm8080.Diagnostic.Basic
import Asm8080.Number.Word

/-!
# ROM images

An image holds a byte for each of the 65536 addresses. A byte that was never written is the fill
byte; of two bytes written to one address the later one stays. A negative address counts back from
the end of the address space.

## Main definitions

* `Asm8080.Image` — an image, and `Asm8080.Image.blank?` — the image without a written byte.
* `Asm8080.Image.get?`, `Asm8080.Image.write` — read and write a byte.
* `Asm8080.Image.toBytes` — the bytes from address 0 through the highest that was written.
-/

set_option autoImplicit false

namespace Asm8080

/-- A byte for each address, of which some are written. -/
structure Image where
  fill : UInt8
  /-- The bytes that are written. -/
  written : Std.TreeMap Nat UInt8
  /-- One more than the highest address that was written. -/
  highWater : Nat

namespace Image

/-- The image without a written byte. -/
def blank? (fill : Int) : Except Failure Image :=
  if 0 ≤ fill ∧ fill ≤ 0xFF then .ok ⟨UInt8.ofNat fill.toNat, ∅, 0⟩ else .error .fillOutOfRange

/-- The place of an address. -/
def place? (address : Int) : Option Nat := Index.place? Word.count address

/-- The byte at a place. -/
def byte (i : Image) (place : Nat) : UInt8 := i.written.getD place i.fill

/-- The byte at an address, and whether it was written. -/
def get? (i : Image) (address : Int) : Except Failure (UInt8 × Bool) :=
  match place? address with
  | none => .error (.addressOutOfRange address)
  | some place => .ok (i.byte place, i.written.contains place)

/-- Write an integer modulo 256 at an address. -/
def write (i : Image) (address value : Int) : Except Failure Image :=
  match place? address with
  | none => .error (.addressOutOfRange address)
  | some place =>
    .ok { i with
      written := i.written.insert place (UInt8.ofNat (value % 0x100).toNat)
      highWater := max i.highWater (address + 1).toNat }

/-- The event of writing a byte at an address that was written before. -/
def patch? (i : Image) (address : Int) (new : UInt8) : Option Event :=
  match place? address with
  | none => none
  | some place => i.written[place]?.map fun old => .patched address old new

/-- Write bytes from an address on, with the events of bytes that were written before. -/
def writeAll (i : Image) (address : Nat) : List UInt8 → Except Failure (Image × List Event)
  | [] => .ok (i, [])
  | b :: bs => do
    let next ← i.write address b.toNat
    let (last, events) ← next.writeAll (address + 1) bs
    return (last, (i.patch? address b).toList ++ events)

/-- The bytes from address 0 through the highest that was written, and at least `least` of them. -/
def toBytes (i : Image) (least : Option Int) : List UInt8 :=
  let size := min Word.count (max i.highWater (least.getD 0).toNat)
  (List.range size).map i.byte

end Image

end Asm8080
