/-!
# Edit distance

The number of insertions, deletions and replacements of single characters that turn one text into
another, computed row by row: row `i` holds the distances from the first `i` characters of one text
to every beginning of the other, and the next row needs only this one.

## Main definitions

* `Asm8080.Text.distanceRow` — the next row of distances.
* `Asm8080.Text.editDistance` — the distance of two texts.
-/

set_option autoImplicit false

namespace Asm8080.Text

/-- The entries of the next row after its first entry `left`. The list `row` is the rest of the
current row from the entry above `left` on, and `c` is the character that the new row adds. -/
def distanceRow (c : Char) (left : Nat) : List Nat → List Char → List Nat
  | diagonal :: above :: row, d :: ds =>
    let entry := if c = d then diagonal else 1 + min (min diagonal above) left
    entry :: distanceRow c entry (above :: row) ds
  | _, _ => []

/-- The last row: the distances of all of `s` to every beginning of `t`, from row `i` on. -/
def distanceRows (t : List Char) : (i : Nat) → (row : List Nat) → (s : List Char) → List Nat
  | _, row, [] => row
  | i, row, c :: s => distanceRows t (i + 1) ((i + 1) :: distanceRow c (i + 1) row t) s

/-- The edit distance of two lists of characters; rows run along the shorter one. -/
def editDistanceChars (s t : List Char) : Nat :=
  let (s, t) := if s.length < t.length then (t, s) else (s, t)
  (distanceRows t 0 (List.range (t.length + 1)) s).getLastD 0

/-- The edit distance of two texts. -/
def editDistance (s t : String) : Nat := editDistanceChars s.toList t.toList

end Asm8080.Text
