import Asm8080.Text.Raw

/-!
# Paths

A path names a file by the directories that lead to it. Paths are kept without the parts that lead
nowhere, so that `./a//b` is shown as `a/b`; a step to the parent directory stays. The parts are
bytes, which need not be UTF-8.

## Main definitions

* `Asm8080.Path.components` — the parts of a text between slashes.
* `Asm8080.Path` — a path, `Asm8080.Path.ofText` and `Asm8080.Path.raw` — from and to what the
  system calls it, and `Asm8080.Path.text` — as it is shown.
* `Asm8080.Path.withSuffix` — a path with another suffix.
-/

set_option autoImplicit false

namespace Asm8080

/-- The parts that lead to a file, from the root or from the working directory. -/
structure Path where
  absolute : Bool
  parts : List RawText
deriving DecidableEq

namespace Path

/-- The byte between the parts of a path. -/
def slash : UInt8 := 0x2F

/-- The byte before the suffix of a file name. -/
def dot : UInt8 := 0x2E

/-- The parts of a text between slashes, the first of which has begun with the bytes of `part`, in
reverse. -/
def componentsFrom (part : List UInt8) : List UInt8 → List RawText
  | [] => [⟨part.reverse⟩]
  | b :: bs =>
    if b = slash then ⟨part.reverse⟩ :: componentsFrom [] bs else componentsFrom (b :: part) bs

/-- The parts of a text between slashes. -/
def components (text : RawText) : List RawText := componentsFrom [] text.bytes

/-- Whether a text begins at the root. -/
def startsAtRoot (text : RawText) : Bool := text.bytes.head? == some slash

/-- The path that a text names. -/
def ofText (text : RawText) : Path :=
  ⟨startsAtRoot text, (components text).filter fun part => part != "" && part != "."⟩

/-- What the system calls a path. -/
def raw (p : Path) : RawText :=
  let names : RawText := ⟨List.intercalate [slash] (p.parts.map RawText.bytes)⟩
  if p.absolute then "/" ++ names else if p.parts.isEmpty then "." else names

/-- A path as it is shown. -/
def text (p : Path) : String := p.raw.shown

/-- The last part of a path. -/
def name (p : Path) : RawText := p.parts.getLast?.getD ""

/-- A file name without its suffix, which is a dot and what follows it. A dot that begins or ends
the name begins no suffix. -/
def stem (name : RawText) : RawText :=
  match name.bytes.reverse.span (· != dot) with
  | (_ :: _, _ :: b :: rest) => ⟨(b :: rest).reverse⟩
  | _ => name

/-- A path whose file name has the suffix `suffix`. -/
def withSuffix (p : Path) (suffix : RawText) : Path :=
  { p with parts := p.parts.dropLast ++ [stem p.name ++ suffix] }

end Path

end Asm8080
