import Mathlib.Data.List.Infix
import Mathlib.Order.MinMax
import Mathlib.Tactic.Common
import Asm8080.Text.EditDistance

/-!
# The edit distance is the Levenshtein distance

The Levenshtein distance is defined by recursion on the first characters of two texts. The edit
distance is computed from rows, along the shorter text, and a row takes the entry on the diagonal
where two characters agree. None of this matters to the result.

The two go through the texts in opposite directions: the recursion takes characters off the front,
and the rows add them at the end. Both are related to sequences of edits, which can be read from
either end.

## Main definitions

* `Asm8080.Text.levenshtein` — the Levenshtein distance.
* `Asm8080.Text.Edits` — a number of edits that turn one text into another.

## Main results

* `Asm8080.Text.edits_levenshtein`, `Asm8080.Text.Edits.levenshtein_le` — the Levenshtein distance
  is the least number of edits.
* `Asm8080.Text.distanceRow_eq`, `Asm8080.Text.distanceRows_eq` — what one row holds, and the last
  one.
* `Asm8080.Text.editDistance_eq_levenshtein` — the edit distance is the Levenshtein distance.
-/

set_option autoImplicit false

namespace Asm8080.Text

/-! ## The distance and the edits -/

/-- **The Levenshtein distance** of two texts: the length of the other one if one is empty, and
otherwise the least of what a deletion, an insertion and a replacement of first characters lead to,
where a replacement by the same character is free. -/
def levenshtein : List Char → List Char → Nat
  | [], t => t.length
  | c :: s, [] => (c :: s).length
  | c :: s, d :: t =>
    min (levenshtein s (d :: t) + 1)
      (min (levenshtein (c :: s) t + 1) (levenshtein s t + if c = d then 0 else 1))
termination_by s t => s.length + t.length

/-- A text is turned into another one, from the first character to the last, with a number of edits.
To keep a character is to replace it by itself. -/
inductive Edits : List Char → List Char → Nat → Prop
  | done : Edits [] [] 0
  | delete {s t : List Char} {n : Nat} (c : Char) (h : Edits s t n) : Edits (c :: s) t (n + 1)
  | insert {s t : List Char} {n : Nat} (d : Char) (h : Edits s t n) : Edits s (d :: t) (n + 1)
  | replace {s t : List Char} {n : Nat} (c d : Char) (h : Edits s t n) :
      Edits (c :: s) (d :: t) (n + if c = d then 0 else 1)

/-- The distance from the empty text. -/
lemma levenshtein_nil_left (t : List Char) : levenshtein [] t = t.length := by
  rw [levenshtein]

/-- The distance to the empty text. -/
lemma levenshtein_nil_right (s : List Char) : levenshtein s [] = s.length := by
  cases s with
  | nil => rw [levenshtein]
  | cons c s => rw [levenshtein]

/-- The distance of two texts that are not empty. -/
lemma levenshtein_cons_cons (c d : Char) (s t : List Char) :
    levenshtein (c :: s) (d :: t) =
      min (levenshtein s (d :: t) + 1)
        (min (levenshtein (c :: s) t + 1) (levenshtein s t + if c = d then 0 else 1)) := by
  rw [levenshtein]

/-! ## The least number of edits -/

/-- A text is made from nothing by inserting its characters. -/
lemma edits_nil_left (t : List Char) : Edits [] t t.length := by
  induction t with
  | nil => exact .done
  | cons d t ih => exact .insert d ih

/-- A text is undone by deleting its characters. -/
lemma edits_nil_right (s : List Char) : Edits s [] s.length := by
  induction s with
  | nil => exact .done
  | cons c s ih => exact .delete c ih

/-- **As many edits as the Levenshtein distance** turn one text into the other. -/
lemma edits_levenshtein (s t : List Char) : Edits s t (levenshtein s t) := by
  fun_induction levenshtein s t with
  | case1 t => exact edits_nil_left t
  | case2 c s => exact edits_nil_right (c :: s)
  | case3 c s d t ihDelete ihInsert ihReplace =>
    -- the least of three numbers is one of them
    rcases min_choice (levenshtein s (d :: t) + 1) (min (levenshtein (c :: s) t + 1)
      (levenshtein s t + if c = d then 0 else 1)) with h | h
    · rw [h]
      exact .delete c ihDelete
    · rw [h]
      rcases min_choice (levenshtein (c :: s) t + 1)
        (levenshtein s t + if c = d then 0 else 1) with h | h
      · rw [h]
        exact .insert d ihInsert
      · rw [h]
        exact .replace c d ihReplace

/-- The distance from a text with one more character in front. -/
lemma levenshtein_delete (c : Char) (s t : List Char) :
    levenshtein (c :: s) t ≤ levenshtein s t + 1 := by
  cases t with
  | nil => simp only [levenshtein_nil_right, List.length_cons, le_refl]
  | cons d t =>
    rw [levenshtein_cons_cons]
    exact min_le_left _ _

/-- The distance to a text with one more character in front. -/
lemma levenshtein_insert (d : Char) (s t : List Char) :
    levenshtein s (d :: t) ≤ levenshtein s t + 1 := by
  cases s with
  | nil => simp only [levenshtein_nil_left, List.length_cons, le_refl]
  | cons c s =>
    rw [levenshtein_cons_cons]
    exact (min_le_right _ _).trans (min_le_left _ _)

/-- The distance of texts with one more character in front of both. -/
lemma levenshtein_replace (c d : Char) (s t : List Char) :
    levenshtein (c :: s) (d :: t) ≤ levenshtein s t + if c = d then 0 else 1 := by
  rw [levenshtein_cons_cons]
  exact (min_le_right _ _).trans (min_le_right _ _)

namespace Edits

/-- **No fewer edits than the Levenshtein distance** turn one text into the other. -/
lemma levenshtein_le {s t : List Char} {n : Nat} (h : Edits s t n) : levenshtein s t ≤ n := by
  induction h with
  | done => rw [levenshtein_nil_left, List.length_nil]
  | delete c _ ih => exact (levenshtein_delete c _ _).trans (Nat.add_le_add_right ih 1)
  | insert d _ ih => exact (levenshtein_insert d _ _).trans (Nat.add_le_add_right ih 1)
  | replace c d _ ih => exact (levenshtein_replace c d _ _).trans (Nat.add_le_add_right ih _)

/-- Edits of two texts, one after the other. -/
lemma append {s t s' t' : List Char} {m n : Nat} (h : Edits s t m) (h' : Edits s' t' n) :
    Edits (s ++ s') (t ++ t') (m + n) := by
  induction h with
  | done => rwa [Nat.zero_add]
  | delete c _ ih =>
    rw [Nat.add_right_comm]
    exact .delete c ih
  | insert d _ ih =>
    rw [Nat.add_right_comm]
    exact .insert d ih
  | replace c d _ ih =>
    rw [Nat.add_right_comm]
    exact .replace c d ih

/-- Edits can be read from the end of the texts. -/
lemma reverse {s t : List Char} {n : Nat} (h : Edits s t n) : Edits s.reverse t.reverse n := by
  induction h with
  | done => exact .done
  | delete c _ ih => simpa using ih.append (delete c done)
  | insert d _ ih => simpa using ih.append (insert d done)
  | replace c d _ ih => simpa using ih.append (replace c d done)

/-- Edits can be undone. -/
lemma symm {s t : List Char} {n : Nat} (h : Edits s t n) : Edits t s n := by
  induction h with
  | done => exact .done
  | delete c _ ih => exact .insert c ih
  | insert d _ ih => exact .delete d ih
  | replace c d _ ih =>
    simp only [eq_comm (a := c)]
    exact .replace d c ih

/-- Without the first character of the first text, one more edit is enough. -/
lemma exists_of_cons {c : Char} {s t : List Char} {n : Nat} (h : Edits (c :: s) t n) :
    ∃ m ≤ n + 1, Edits s t m := by
  generalize hs : c :: s = s' at h
  induction h with
  | done => cases hs
  | @delete _ _ n _ h =>
    cases hs
    exact ⟨n, by omega, h⟩
  | @insert _ _ n d _ ih =>
    -- the character goes later, after what is inserted here
    obtain ⟨m, hm, h⟩ := ih hs
    exact ⟨m + 1, by omega, .insert d h⟩
  | @replace _ _ n _ d h =>
    cases hs
    exact ⟨n + 1, by omega, .insert d h⟩

end Edits

/-- **The distance is symmetric.** -/
lemma levenshtein_comm (s t : List Char) : levenshtein s t = levenshtein t s :=
  le_antisymm (edits_levenshtein t s).symm.levenshtein_le
    (edits_levenshtein s t).symm.levenshtein_le

/-- **The distance can be computed from the end of the texts.** -/
lemma levenshtein_reverse (s t : List Char) :
    levenshtein s.reverse t.reverse = levenshtein s t := by
  refine le_antisymm (edits_levenshtein s t).reverse.levenshtein_le ?_
  have h := (edits_levenshtein s.reverse t.reverse).reverse
  rw [List.reverse_reverse, List.reverse_reverse] at h
  exact h.levenshtein_le

/-- **Neighbouring distances differ by one at most**: from a text with one character fewer. -/
lemma levenshtein_le_cons_left (c : Char) (s t : List Char) :
    levenshtein s t ≤ levenshtein (c :: s) t + 1 := by
  obtain ⟨m, hm, h⟩ := (edits_levenshtein (c :: s) t).exists_of_cons
  exact h.levenshtein_le.trans hm

/-- **Neighbouring distances differ by one at most**: to a text with one character fewer. -/
lemma levenshtein_le_cons_right (d : Char) (s t : List Char) :
    levenshtein s t ≤ levenshtein s (d :: t) + 1 := by
  rw [levenshtein_comm s t, levenshtein_comm s (d :: t)]
  exact levenshtein_le_cons_left d t s

/-- **The same character in front of both texts** does not change the distance: neither a deletion
nor an insertion leads to less. -/
lemma levenshtein_cons_self (c : Char) (s t : List Char) :
    levenshtein (c :: s) (c :: t) = levenshtein s t := by
  have hdelete := levenshtein_le_cons_right c s t
  have hinsert := levenshtein_le_cons_left c s t
  rw [levenshtein_cons_cons, if_pos rfl]
  omega

/-! ## Rows -/

/-- **The entry of a row**: from the entries on its diagonal, above it and to its left. -/
lemma levenshtein_concat (c d : Char) (s t : List Char) :
    levenshtein (s ++ [c]) (t ++ [d]) =
      if c = d then levenshtein s t
      else
        1 + min (min (levenshtein s t) (levenshtein s (t ++ [d]))) (levenshtein (s ++ [c]) t) := by
  rw [← levenshtein_reverse, ← levenshtein_reverse s t, ← levenshtein_reverse s (t ++ [d]),
    ← levenshtein_reverse (s ++ [c]) t, List.reverse_concat, List.reverse_concat]
  split_ifs with h
  · rw [h, levenshtein_cons_self]
  · rw [levenshtein_cons_cons, if_neg h]
    omega

/-- **What one row holds.** Let the current row hold the distances of `s` to the beginnings of a
text, from the beginning `before` on. Then the new entries are those of `s` and one more character.

**Proof sketch.** Induction on the rest of the text. The entry after `before` and one more character
follows from three others (`levenshtein_concat`), and becomes the one to the left of the next. -/
lemma distanceRow_eq (c : Char) (s before rest : List Char) :
    levenshtein (s ++ [c]) before :: distanceRow c (levenshtein (s ++ [c]) before)
        (rest.inits.map fun more => levenshtein s (before ++ more)) rest =
      rest.inits.map fun more => levenshtein (s ++ [c]) (before ++ more) := by
  induction rest generalizing before with
  | nil => simp [distanceRow]
  | cons d rest ih =>
    have hnext := ih (before ++ [d])
    rw [levenshtein_concat] at hnext
    cases rest with
    | nil => simpa [distanceRow] using hnext
    | cons e rest => simpa [distanceRow, Function.comp_def] using hnext

/-- **What the last row holds**: the distances of the whole text, if the row before the characters
`rest` holds those of the characters `done`. -/
lemma distanceRows_eq (t done rest : List Char) :
    distanceRows t done.length (t.inits.map (levenshtein done)) rest =
      t.inits.map (levenshtein (done ++ rest)) := by
  induction rest generalizing done with
  | nil => rw [distanceRows, List.append_nil]
  | cons c rest ih =>
    have hrow := distanceRow_eq c done [] t
    have hnext := ih (done ++ [c])
    simp only [levenshtein_nil_right, List.length_append, List.length_singleton,
      List.nil_append] at hrow hnext
    rw [distanceRows, hrow, hnext, List.append_assoc, List.singleton_append]

/-- The first row holds the lengths of the beginnings of a text. -/
lemma range_eq_map_inits (t : List Char) :
    List.range (t.length + 1) = t.inits.map (levenshtein []) := by
  induction t with
  | nil => simp [levenshtein_nil_left]
  | cons d t ih =>
    rw [List.length_cons, List.range_succ_eq_map, ih]
    simp [levenshtein_nil_left]

/-- The last beginning of a text is the text. -/
lemma getLast?_inits (t : List Char) : t.inits.getLast? = some t := by
  induction t with
  | nil => rfl
  | cons d t ih => simp [List.getLast?_cons, ih]

/-- **The last entry of the last row** is the distance, in whichever order the texts are taken. -/
lemma getLastD_distanceRows (s t : List Char) :
    (distanceRows t 0 (List.range (t.length + 1)) s).getLastD 0 = levenshtein s t := by
  have hrows := distanceRows_eq t [] s
  rw [List.length_nil, List.nil_append] at hrows
  rw [range_eq_map_inits, hrows, List.getLastD_eq_getLast?, List.getLast?_map, getLast?_inits,
    Option.map_some, Option.getD_some]

/-- **The edit distance is the Levenshtein distance.** The rows may run along either text: the last
entry is the same.

**Proof sketch.** Each row holds the distances of a beginning of one text to every beginning of the
other (`distanceRow_eq`, `distanceRows_eq`). That the recursion may be turned around
(`levenshtein_reverse`), that the texts may be exchanged (`levenshtein_comm`) and that equal
characters cost nothing (`levenshtein_cons_self`) all follow from edits. -/
theorem editDistance_eq_levenshtein (s t : String) :
    editDistance s t = levenshtein s.toList t.toList ∧
      (distanceRows t.toList 0 (List.range (t.toList.length + 1)) s.toList).getLastD 0 =
        editDistance s t ∧
      (distanceRows s.toList 0 (List.range (s.toList.length + 1)) t.toList).getLastD 0 =
        editDistance s t := by
  have hdistance : editDistance s t = levenshtein s.toList t.toList := by
    unfold editDistance editDistanceChars
    by_cases h : s.toList.length < t.toList.length
    · simp only [h, if_true, getLastD_distanceRows]
      exact levenshtein_comm t.toList s.toList
    · simp only [h, if_false, getLastD_distanceRows]
  rw [hdistance, getLastD_distanceRows, getLastD_distanceRows]
  exact ⟨rfl, rfl, levenshtein_comm t.toList s.toList⟩

/-- Two replacements and an insertion. -/
example : editDistance "kitten" "sitting" = 3 := by decide +kernel

end Asm8080.Text
