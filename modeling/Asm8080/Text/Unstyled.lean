import Asm8080.Text.Raw

/-!
# Text without styling

A terminal takes some characters as commands to set colours and styles: an escape character, an
opening bracket, any number of digits, semicolons and question marks, and a letter. What a command
shows may hold such sequences, because it shows pieces of its input. Output that goes to no terminal
is shown without them.

Sequences are taken out from left to right, and what is left is not looked at again: a sequence that
comes together only when another one is taken out stays.

## Main definitions

* `Asm8080.Text.dropSequence?` — what follows a sequence.
* `Asm8080.Text.unstyled` — a text without the sequences in it.
-/

set_option autoImplicit false

namespace Asm8080.Text

/-- The character that begins a sequence. -/
def escapeMark : Char := '\x1b'

/-- A character that may stand between the bracket and the letter of a sequence. -/
def isParameter (c : Char) : Bool := c.isDigit || c == ';' || c == '?'

/-- What follows the sequence that a text begins with. -/
def dropSequence? : List Glyph → Option (List Glyph)
  | .char mark :: .char '[' :: gs =>
    match gs.dropWhile (fun g => g.char?.any isParameter) with
    | .char c :: rest => if mark = escapeMark ∧ c.isAlpha then some rest else none
    | _ => none
  | _ => none

/-- A sequence is made of characters, and there is at least one of them. -/
theorem append_of_dropSequence?_eq_some {gs rest : List Glyph} (h : dropSequence? gs = some rest) :
    ∃ front, gs = front ++ rest ∧ front ≠ [] ∧ ∀ g ∈ front, g.char?.isSome = true := by
  revert h
  fun_cases dropSequence? gs with
  | case1 mark gs c after hdrop hmark =>
    intro h
    obtain rfl := Option.some.inj h
    refine ⟨.char mark :: .char '[' :: (gs.takeWhile fun g => g.char?.any isParameter) ++ [.char c],
      ?_, by simp, ?_⟩
    · simp [← hdrop]
    · intro g hg
      simp only [List.cons_append, List.mem_cons, List.mem_append, List.not_mem_nil, or_false] at hg
      rcases hg with rfl | rfl | hg | rfl
      · rfl
      · rfl
      · have hparameter := List.all_eq_true.1 (List.all_takeWhile) g hg
        cases g with
        | char c => rfl
        | stray byte => cases hparameter
      · rfl
  | case2 | case3 | case4 =>
    intro h
    cases h

/-- What follows a sequence is shorter than the text. -/
theorem length_of_dropSequence?_eq_some {gs rest : List Glyph} (h : dropSequence? gs = some rest) :
    rest.length < gs.length := by
  obtain ⟨front, rfl, hfront, -⟩ := append_of_dropSequence?_eq_some h
  have := List.length_pos_iff.2 hfront
  simp only [List.length_append]
  omega

/-- The glyphs outside the sequences, after those in `done`, which are in reverse. -/
def unstyledFrom (done : List Glyph) : List Glyph → List Glyph
  | [] => done.reverse
  | g :: gs =>
    match _h : dropSequence? (g :: gs) with
    | some rest => unstyledFrom done rest
    | none => unstyledFrom (g :: done) gs
termination_by gs => gs.length
decreasing_by
  · exact length_of_dropSequence?_eq_some ‹_›
  · exact Nat.lt_succ_self _

/-- A text without the sequences that set colours and styles. -/
def unstyled (gs : List Glyph) : List Glyph := unstyledFrom [] gs

end Asm8080.Text
