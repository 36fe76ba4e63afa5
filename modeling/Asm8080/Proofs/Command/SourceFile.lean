import Asm8080.Command.Assemble
import Asm8080.Proofs.Assembly.LineEnds
import Asm8080.Proofs.Files.Tree
import Asm8080.Proofs.Text.Utf8

/-!
# Source files

A source file is read as a text in which every line ends with a line feed: a carriage return and a
line feed are read as a line feed, and so is a carriage return alone. Source text that does not come
from a file is taken as it is, and there a carriage return alone ends no line. So a file is
assembled as its text is with each carriage return alone written as a line feed, and as the text
itself if every carriage return comes before a line feed.

## Main definitions

* `Asm8080.Text.feedReturns` — a text with each lone carriage return written as a line feed.

## Main results

* `Asm8080.Text.returned_unifyNewlines` — what is read from a file differs from such a text in
  carriage returns before line feeds only.
* `Asm8080.FileTree.readText_write` — the text of a file that was written.
* `Asm8080.Workbench.assembleFile_write` — assembling a file, and assembling its text.
-/

set_option autoImplicit false

namespace Asm8080

/-! ## Line ends in files -/

namespace Text

/-- The text with every carriage return that no line feed follows replaced by a line feed. -/
def feedReturns : List Char → List Char
  | [] => []
  | '\r' :: '\n' :: cs => '\r' :: '\n' :: feedReturns cs
  | '\r' :: cs => '\n' :: feedReturns cs
  | c :: cs => c :: feedReturns cs

/-- What is read from a file, with carriage returns before some of its line feeds, is the text of
the file with lone carriage returns written as line feeds. -/
lemma returned_unifyNewlines (cs : List Char) : Returned (unifyNewlines cs) (feedReturns cs) := by
  fun_induction unifyNewlines cs with
  | case1 => exact .nil
  | case2 cs ih =>
    rw [feedReturns]
    exact .feed ih
  | case3 cs hcs ih =>
    rw [feedReturns]
    · exact .char '\n' ih
    · exact hcs
  | case4 c cs hpair hlone ih =>
    rw [feedReturns]
    · exact .char c ih
    · exact hpair
    · exact hlone

/-- A text without a lone carriage return is left as it is. -/
lemma feedReturns_eq_self {cs : List Char}
    (h : ∀ i, cs[i]? = some '\r' → cs[i + 1]? = some '\n') : feedReturns cs = cs := by
  fun_induction feedReturns cs with
  | case1 => rfl
  | case2 cs ih =>
    rw [ih fun i hi => h (i + 2) hi]
  | case3 cs hcs ih =>
    -- the first character is a carriage return, so the next one is a line feed
    have hfeed : cs[0]? = some '\n' := h 0 rfl
    obtain ⟨rest, rfl⟩ : ∃ rest, cs = '\n' :: rest := by
      cases cs with
      | nil => exact absurd hfeed (by simp)
      | cons c rest => exact ⟨rest, by rw [Option.some.inj hfeed]⟩
    exact absurd rfl (hcs rest)
  | case4 c cs hpair hlone ih =>
    rw [ih fun i hi => h (i + 1) hi]

end Text

/-- **The text of a file that was written** is what was written, with every line ended by a line
feed. -/
lemma FileTree.readText_write {files files' : FileTree} {path : Path} {text : String}
    (h : files.write path (Utf8.encode text) = .ok files') :
    files'.readText path = .ok (String.ofList (Text.unifyNewlines text.toList)) := by
  simp only [readText, read_write h, textOf, Utf8.decode_encode, Except.map, Except.mapError]

namespace Workbench

/-- **Assembling a file and assembling its text.** Write a text to a file and assemble the file. It
is assembled as the text is with each lone carriage return written as a line feed, under the name of
the file: to the same image, or with a failure of the same kind on the same line. If every carriage
return of the text is followed by a line feed, that is the text itself.

**Proof sketch.** The file is decoded to the text that was encoded (`Utf8.decode_encode`). What is
read is that text with its line ends unified, and the other text has a carriage return before some
of these line ends (`Text.returned_unifyNewlines`), which makes no difference
(`agrees_of_returned`). -/
theorem assembleFile_write (w : Workbench) {files files' : FileTree} {path : Path} {text : String}
    (h : files.write path (Utf8.encode text) = .ok files') :
    ∃ run, w.assembleFile files' path = .ok run ∧
      run.Agrees False (w.assemble (String.ofList (Text.feedReturns text.toList)) path.text) ∧
      ((∀ i, text.toList[i]? = some '\r' → text.toList[i + 1]? = some '\n') →
        run.Agrees False (w.assemble text path.text)) := by
  have hagrees : Run.Agrees False
      (w.assemble (String.ofList (Text.unifyNewlines text.toList)) path.text)
      (w.assemble (String.ofList (Text.feedReturns text.toList)) path.text) := by
    refine w.agrees_of_returned ?_ path.text
    rw [String.toList_ofList, String.toList_ofList]
    exact Text.returned_unifyNewlines text.toList
  refine ⟨_, by rw [assembleFile, FileTree.readText_write h]; rfl, hagrees, fun hreturns => ?_⟩
  rwa [Text.feedReturns_eq_self hreturns, String.ofList_toList] at hagrees

/-- A directory without files. -/
def emptyDirectory : FileTree := ⟨[], []⟩

/-- A text with a carriage return before its line feed, and a comment that is not in ASCII. -/
def pairedText : String := "GO: MVI A,7 ; é\r\n JMP GO"

/-- The file of `pairedText` can be written, and is assembled as `pairedText` is. -/
theorem assembleFile_pairedText :
    ∃ files' run,
      emptyDirectory.write (Path.ofText "go.asm") (Utf8.encode pairedText) = .ok files' ∧
      padding.assembleFile files' (Path.ofText "go.asm") = .ok run ∧
      run.Agrees False (padding.assemble pairedText "go.asm") ∧
      (padding.assemble pairedText "go.asm").outcome =
        .ok [0x3E, 0x07, 0xC3, 0x00, 0x00, 0xAA, 0xAA, 0xAA] := by
  obtain ⟨files', hwrite⟩ : ∃ files',
      emptyDirectory.write (Path.ofText "go.asm") (Utf8.encode pairedText) = .ok files' :=
    ⟨_, rfl⟩
  obtain ⟨run, hrun, -, hpaired⟩ := padding.assembleFile_write hwrite
  have hreturns : ∀ i < pairedText.toList.length,
      pairedText.toList[i]? = some '\r' → pairedText.toList[i + 1]? = some '\n' := by
    decide +kernel
  have hname : (Path.ofText "go.asm").text = "go.asm" := by decide +kernel
  rw [hname] at hpaired
  refine ⟨files', run, hwrite, hrun, hpaired fun i hi => ?_, by decide +kernel⟩
  exact hreturns i (List.getElem?_eq_some_iff.mp hi).1 hi

/-- Two instructions with a lone carriage return between them. -/
def loneReturnText : String := "NOP\rNOP\n"

/-- The file of `loneReturnText` is assembled, as two lines. Not so `loneReturnText` itself, where
the second instruction is on the line of the first. -/
theorem assembleFile_loneReturnText :
    ∃ files', emptyDirectory.write (Path.ofText "rom.asm") (Utf8.encode loneReturnText) =
        .ok files' ∧
      (padding.assembleFile files' (Path.ofText "rom.asm")).map Run.outcome =
        .ok (.ok [0x00, 0x00, 0xAA, 0xAA, 0xAA, 0xAA, 0xAA, 0xAA]) ∧
      (padding.assemble loneReturnText "rom.asm").outcome =
        .error (.diagnostic ⟨.grammar (.afterStatement (.mnemonic .nop)), some ⟨"rom.asm", 1, 5⟩,
          some "NOP"⟩) :=
  ⟨_, rfl, by decide +kernel⟩

end Workbench

end Asm8080
