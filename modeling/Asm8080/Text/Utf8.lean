/-!
# UTF-8

Text files hold UTF-8. Decoding is strict: a byte sequence that encodes no character is a fault,
which names the bytes at fault and what is wrong with them.

## Main definitions

* `Asm8080.Utf8.decode` — the characters that bytes encode, or the first fault.
* `Asm8080.Utf8.encode` — the bytes of a text.
* `Asm8080.Utf8.Fault.message` — the wording of a fault.
-/

set_option autoImplicit false

namespace Asm8080.Utf8

/-- What is wrong with a byte sequence. -/
inductive Reason where
  /-- A byte that begins no character. -/
  | invalidStart
  /-- A byte that cannot follow the bytes before it. -/
  | invalidContinuation
  /-- The input ends inside a character. -/
  | unexpectedEnd
deriving DecidableEq

/-- Bytes that encode no character: where they begin, how many they are, the first of them. -/
structure Fault where
  position : Nat
  count : Nat
  byte : UInt8
  reason : Reason
deriving DecidableEq

/-- The wording of a reason. -/
def Reason.message : Reason → String
  | .invalidStart => "invalid start byte"
  | .invalidContinuation => "invalid continuation byte"
  | .unexpectedEnd => "unexpected end of data"

/-- The wording of a fault: one byte is shown, several are given by their positions. -/
def Fault.message (f : Fault) : String :=
  let place :=
    if f.count = 1 then
      let ds := Nat.toDigits 16 f.byte.toNat
      "byte 0x" ++ String.ofList (List.replicate (2 - ds.length) '0' ++ ds) ++ " in position " ++
        toString f.position
    else
      "bytes in position " ++ toString f.position ++ "-" ++ toString (f.position + f.count - 1)
  "'utf-8' codec can't decode " ++ place ++ ": " ++ f.reason.message

/-! ## Decoding -/

/-- A byte that continues a character. -/
def isContinuation (b : UInt8) : Bool := 0x80 ≤ b && b < 0xC0

/-- The number of bytes of the character that `b` begins. -/
def width? (b : UInt8) : Option Nat :=
  if b < 0x80 then some 1
  else if b < 0xC2 then none
  else if b < 0xE0 then some 2
  else if b < 0xF0 then some 3
  else if b < 0xF5 then some 4
  else none

/-- Whether `second` may follow the first byte of a character: it continues it, and the two do not
begin an overlong form, a surrogate, or a code beyond the last character. -/
def mayFollow (first second : UInt8) : Bool :=
  isContinuation second &&
    (if first = 0xE0 then 0xA0 ≤ second
      else if first = 0xED then second < 0xA0
      else if first = 0xF0 then 0x90 ≤ second
      else if first = 0xF4 then second < 0x90
      else true)

/-- The number of bytes after the first, out of `rest`, that fit the character begun by `first`; at
most `wanted` are looked at. -/
def fitting (first : UInt8) (wanted : Nat) (rest : List UInt8) : Nat :=
  match rest.take wanted with
  | [] => 0
  | second :: more =>
    if mayFollow first second then 1 + (more.takeWhile isContinuation).length else 0

/-- The code that the bytes of one character encode. -/
def codeOf (first : UInt8) (rest : List UInt8) : Nat :=
  let lead := match rest.length with
    | 0 => first.toNat
    | 1 => first.toNat % 0x20
    | 2 => first.toNat % 0x10
    | _ => first.toNat % 0x08
  rest.foldl (fun n b => n * 0x40 + b.toNat % 0x40) lead

/-- Decode the bytes from `position` on, after the characters of `done` in reverse. -/
def decodeFrom (position : Nat) (done : List Char) (bytes : List UInt8) :
    Except Fault (List Char) :=
  match bytes with
  | [] => .ok done.reverse
  | first :: rest =>
    match width? first with
    | none => .error ⟨position, 1, first, .invalidStart⟩
    | some width =>
      let good := fitting first (width - 1) rest
      if good = width - 1 then
        decodeFrom (position + width) (Char.ofNat (codeOf first (rest.take (width - 1))) :: done)
          (rest.drop (width - 1))
      else if rest.length = good then .error ⟨position, good + 1, first, .unexpectedEnd⟩
      else .error ⟨position, good + 1, first, .invalidContinuation⟩
termination_by bytes.length
decreasing_by
  simp only [List.length_drop, List.length_cons]
  omega

/-- The characters that bytes encode. -/
def decode (bytes : List UInt8) : Except Fault (List Char) := decodeFrom 0 [] bytes

/-! ## Encoding -/

/-- The bytes of a text. -/
def encode (s : String) : List UInt8 := s.toList.flatMap String.utf8EncodeChar

end Asm8080.Utf8
