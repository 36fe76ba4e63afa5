import Mathlib.Tactic.Common
import Asm8080.Symbol.File

/-!
# Which texts are symbol files

A text is read as a symbol file exactly when each of its lines is blank, is a comment, or is a name
and a value. One other line is enough for the whole text to be refused.

## Main definitions

* `Asm8080.SymbolFile.IsLine` — a line that may stand in a symbol file.

## Main results

* `Asm8080.SymbolFile.exists_readLine_iff` — which lines are read.
* `Asm8080.SymbolFile.exists_read_iff` — which texts are read.
-/

set_option autoImplicit false

namespace Asm8080.SymbolFile

/-- A line that may stand in a symbol file: apart from white space at its ends it is empty, begins
with `#`, or is two words, the second of which is a hexadecimal number that the letter H follows. -/
def IsLine (line : String) : Prop :=
  Text.strip line = "" ∨ (Text.strip line).front = '#' ∨
    ∃ name digits address, (Text.words (Text.strip line) = [name, digits ++ "H"] ∨
      Text.words (Text.strip line) = [name, digits ++ "h"]) ∧ Integer.read 16 digits = .ok address

/-- The digits of a value are what comes before the letter H. -/
lemma valueDigits?_eq_some_iff {word digits : String} :
    valueDigits? word = some digits ↔ word = digits ++ "H" ∨ word = digits ++ "h" := by
  have hword : ∀ c : Char, word = digits ++ String.ofList [c] ↔
      word.toList.reverse = c :: digits.toList.reverse := fun c => by
    rw [← String.toList_inj, String.toList_append, String.toList_ofList, List.reverse_eq_iff,
      List.reverse_cons, List.reverse_reverse]
  rw [show "H" = String.ofList ['H'] from rfl, show "h" = String.ofList ['h'] from rfl, hword,
    hword]
  constructor
  · fun_cases valueDigits? word with
    | case1 cs hcs =>
      rintro ⟨⟩
      exact .inl (by rw [hcs, String.toList_ofList, List.reverse_reverse])
    | case2 cs hcs =>
      rintro ⟨⟩
      exact .inr (by rw [hcs, String.toList_ofList, List.reverse_reverse])
    | case3 => rintro ⟨⟩
  · rintro (h | h) <;> rw [valueDigits?, h] <;>
      simp only [List.reverse_reverse, String.ofList_toList]

/-- **Which lines are read.** -/
lemma exists_readLine_iff {file line : String} {number : Nat} :
    (∃ entry, readLine file number line = .ok entry) ↔ IsLine line := by
  unfold IsLine
  constructor
  · rintro ⟨entry, h⟩
    revert h
    fun_cases readLine file number line with
    | case1 text hsilent =>
      rintro -
      rcases Bool.or_eq_true_iff.1 hsilent with h | h
      · exact .inl (of_decide_eq_true h)
      · exact .inr (.inl (of_decide_eq_true h))
    | case3 text hloud name value hwords digits hdigits address haddress =>
      rintro -
      refine .inr (.inr ⟨name, digits, address, ?_, haddress⟩)
      rcases valueDigits?_eq_some_iff.1 hdigits with rfl | rfl
      · exact .inl hwords
      · exact .inr hwords
    | case2 | case4 | case5 => rintro ⟨⟩
  · intro h
    simp only [readLine]
    generalize Text.strip line = text at h ⊢
    by_cases hsilent : (decide (text = "") || decide (text.front = '#')) = true
    · exact ⟨none, if_pos hsilent⟩
    · rw [if_neg hsilent]
      simp only [Bool.or_eq_true, decide_eq_true_eq, not_or] at hsilent
      obtain ⟨name, digits, address, hwords, haddress⟩ :=
        (h.resolve_left hsilent.1).resolve_left hsilent.2
      obtain ⟨value, hvalue, hdigits⟩ :
          ∃ value, Text.words text = [name, value] ∧ valueDigits? value = some digits := by
        rcases hwords with h | h
        · exact ⟨_, h, valueDigits?_eq_some_iff.2 (.inl rfl)⟩
        · exact ⟨_, h, valueDigits?_eq_some_iff.2 (.inr rfl)⟩
      exact ⟨some (address, name), by simp only [hvalue, hdigits, haddress]⟩

/-- Lines are read exactly when each of them may stand in a symbol file. -/
lemma exists_readLines_iff {file : String} {number : Nat} {names : List (Int × String)}
    {lines : List String} :
    (∃ all, readLines file number names lines = .ok all) ↔ ∀ line ∈ lines, IsLine line := by
  induction lines generalizing number names with
  | nil => exact iff_of_true ⟨names, rfl⟩ (by simp)
  | cons line lines ih =>
    rw [List.forall_mem_cons, ← @exists_readLine_iff file line number, readLines]
    cases hline : readLine file number line with
    | error fault => simp
    | ok entry => simp [ih]

/-- **Which texts are read**: those with no line that may not stand in a symbol file. -/
lemma exists_read_iff {file text : String} :
    (∃ names, read file text = .ok names) ↔ ∀ line ∈ Text.splitLines text, IsLine line :=
  exists_readLines_iff

end Asm8080.SymbolFile
