/-!
# Indices

An index names a place in a sequence. Indices from 0 count from the front; a negative index counts
back from the end, so that −1 names the last place.

## Main definitions

* `Asm8080.Index.place?` — the place that an index names.
* `Asm8080.Index.refusal` — why an index names no place.
-/

set_option autoImplicit false

namespace Asm8080.Index

/-- The place that an index names in a sequence of `length` items. -/
def place? (length : Nat) (index : Int) : Option Nat :=
  if 0 ≤ index ∧ index < length then some index.toNat
  else if -length ≤ index ∧ index < 0 then some (index + length).toNat
  else none

/-- The place that an index names is in the sequence. -/
theorem place?_lt {length n : Nat} {index : Int} (h : place? length index = some n) :
    n < length := by
  unfold place? at h
  split at h
  · obtain rfl := Option.some.inj h
    omega
  · split at h
    · obtain rfl := Option.some.inj h
      omega
    · contradiction

/-- Whether an index fits in a machine word, which has 64 bits and a sign. -/
def fitsWord (index : Int) : Bool :=
  -0x8000000000000000 ≤ index && index < 0x8000000000000000

/-- The wording for an index that names no place in a sequence of the kind `sequence`. -/
def refusal (sequence : String) (index : Int) : String :=
  if fitsWord index then sequence ++ "index out of range"
  else "cannot fit 'int' into an index-sized integer"

end Asm8080.Index
