import Asm8080.Proofs.Statement.Alike
import Asm8080.Proofs.Token.Joining

/-!
# Reading two texts side by side

Two texts are tokenized side by side. A relation between the positions in the two texts says how far
reading has come in each of them. If every lexeme of the first text is answered by lexemes of the
second one, so that the tokens correspond and the positions after them are related again, and if
reading cannot go on in either text where it cannot in the other, then the tokens of the texts
correspond, or both texts have a fault of the same kind near the same place.

## Main definitions

* `Asm8080.EndNear` — texts that end on the same line, and in the same column if that is asked for.
* `Asm8080.Tracks` — a relation between positions in two texts that reading keeps.

## Main results

* `Asm8080.Tracks.divides` — the lexemes of the first text are answered one after another.
* `Asm8080.Tracks.matched_tokenize` — the tokens of texts that are tracked.
-/

set_option autoImplicit false

namespace Asm8080

/-! ## Positions -/

/-- Texts that end on the same line, and in the same column if `P` holds. -/
structure EndNear (P : Prop) (before before' : List Char) : Prop where
  line : lineAfter before = lineAfter before'
  column : P → columnAfter before = columnAfter before'

namespace EndNear

variable {P : Prop} {before before' : List Char}

/-- Texts stay near when the same characters of one line are added. -/
lemma append {cs : List Char} (h : EndNear P before before') (hcs : '\n' ∉ cs) :
    EndNear P (before ++ cs) (before' ++ cs) := by
  refine ⟨?_, fun hP => ?_⟩
  · rw [lineAfter_append hcs, lineAfter_append hcs, h.line]
  · have hcolumn := h.column hP
    unfold columnAfter at hcolumn ⊢
    rw [lastLine_append hcs, lastLine_append hcs, List.length_append, List.length_append]
    omega

/-- After a line feed it does not matter in which columns the lines ended. -/
lemma newline (h : EndNear P before before') :
    EndNear True (before ++ ['\n']) (before' ++ ['\n']) := by
  have hline := h.line
  refine ⟨?_, fun _ => ?_⟩
  · simp only [lineAfter, List.count_append] at hline ⊢
    omega
  · rw [columnAfter, columnAfter, lastLine_newline, lastLine_newline]

/-- Texts stay on one line when characters of one line are added to the second. -/
lemma right {cs : List Char} (h : EndNear P before before') (hcs : '\n' ∉ cs) :
    EndNear False before (before' ++ cs) :=
  ⟨by rw [lineAfter_append hcs, h.line], False.elim⟩

/-- The columns may be forgotten. -/
lemma mono {Q : Prop} (h : EndNear P before before') (hQ : Q → P) : EndNear Q before before' :=
  ⟨h.line, fun hq => h.column (hQ hq)⟩

/-- Places on the lines on which the texts end. -/
lemma near (h : EndNear P before before') (file : String) {column column' : Int}
    (hcolumn : P → column = column') :
    Location.Near P ⟨file, lineAfter before, column⟩ ⟨file, lineAfter before', column'⟩ :=
  ⟨rfl, congrArg Nat.cast h.line, hcolumn⟩

/-- The tokens after the texts. -/
lemma alike {keepCase : Bool} (h : EndNear P before before') {kind kind' : Token.Kind}
    (hkind : kind.Alike keepCase kind') (file : String) :
    (tokenAfter file before kind).Alike keepCase P (tokenAfter file before' kind') :=
  ⟨hkind, h.near file fun hP => congrArg Nat.cast (h.column hP)⟩

/-- Faults after the texts. -/
lemma failure_alike (h : EndNear P before before') (cs cs' : List Char) (cause cause' : LexFault)
    {offset offset' : Nat}
    (hoffset : P → columnAfter before + offset = columnAfter before' + offset')
    (consumed consumed' : Nat) (file : String) :
    ((Cursor.after before cs).failure file (.fault cause offset consumed)).Alike P
      ((Cursor.after before' cs').failure file (.fault cause' offset' consumed')) := by
  refine .diagnostic ?_ (.some (h.near file fun hP => ?_))
  · rfl
  · exact_mod_cast hoffset hP

/-- The same fault after the texts. -/
lemma misread_alike (h : EndNear P before before') (cs cs' : List Char) (m : Misread)
    (file : String) :
    ((Cursor.after before cs).failure file m).Alike P
      ((Cursor.after before' cs').failure file m) := by
  cases m with
  | fault cause offset consumed =>
    exact h.failure_alike cs cs' cause cause (fun hP => congrArg (· + offset) (h.column hP))
      consumed consumed file
  | tooManyDigits => exact .refl _

/-- A lexeme that is answered by one lexeme after texts that end at the same place. -/
lemma forall₂_tokens {keepCase : Bool} (h : EndNear True before before') {f f' : Fragment}
    (hkind : Option.Rel (Token.Kind.Alike keepCase) f.kind f'.kind) (file : String) :
    List.Forall₂ (Token.Follows keepCase P) (f.kind.map (tokenAfter file before)).toList
      (Fragment.tokens file before' [f']) := by
  rw [Fragment.tokens, Fragment.tokens, List.append_nil]
  generalize f.kind = kind at hkind
  generalize f'.kind = kind' at hkind
  cases hkind with
  | none => exact .nil
  | some hkind => exact .cons (.inl (h.alike hkind file)) .nil

end EndNear

/-! ## Relations between positions -/

/-- A relation between positions in two texts, each given by the characters before it and those
ahead, that reading keeps. -/
structure Tracks (keepCase : Bool) (P : Prop)
    (R : List Char → List Char → List Char → List Char → Prop) : Prop where
  /-- The texts end together. -/
  finish : ∀ {before before' cs' : List Char}, R before [] before' cs' →
    cs' = [] ∧ EndNear True before before'
  /-- Each lexeme of the first text is answered by lexemes of the second one. -/
  lexeme : ∀ {f : Fragment} {before rest before' cs' : List Char}, f.IsLexeme rest →
    R before (f.chars ++ rest) before' cs' → ∃ fs' rest', Divides cs' fs' rest' ∧
      R (before ++ f.chars) rest (before' ++ fs'.flatMap Fragment.chars) rest' ∧
      ∀ file, List.Forall₂ (Token.Follows keepCase P) (f.kind.map (tokenAfter file before)).toList
        (Fragment.tokens file before' fs')
  /-- A character at which no lexeme can be read is answered by one. -/
  misread : ∀ {c : Char} {before cs before' cs' : List Char} {m : Misread},
    isSeparator c = false → c ≠ ';' → Lexeme.read c cs = .error m →
    R before (c :: cs) before' cs' → ∃ c' tail' m', cs' = c' :: tail' ∧
      isSeparator c' = false ∧ c' ≠ ';' ∧ Lexeme.read c' tail' = .error m' ∧
      ∀ file, ((Cursor.after before (c :: cs)).failure file m).Alike P
        ((Cursor.after before' cs').failure file m')

namespace Tracks

variable {keepCase : Bool} {P : Prop} {R : List Char → List Char → List Char → List Char → Prop}

/-- **The lexemes of the first text are answered** one after another. -/
lemma divides (hR : Tracks keepCase P R) {cs rest : List Char} {fs : List Fragment}
    (h : Divides cs fs rest) {before before' cs' : List Char} (hpos : R before cs before' cs')
    (file : String) :
    ∃ fs' rest', Divides cs' fs' rest' ∧
      R (before ++ fs.flatMap Fragment.chars) rest (before' ++ fs'.flatMap Fragment.chars) rest' ∧
      List.Forall₂ (Token.Follows keepCase P) (Fragment.tokens file before fs)
        (Fragment.tokens file before' fs') := by
  induction h generalizing before before' cs' with
  | nil => exact ⟨[], cs', .nil, by simpa using hpos, .nil⟩
  | @cons f cs rest fs hf _ ih =>
    obtain ⟨fs₁, rest₁, hfs₁, hpos₁, htokens₁⟩ := hR.lexeme hf hpos
    obtain ⟨fs₂, rest₂, hfs₂, hpos₂, htokens₂⟩ := ih hpos₁
    refine ⟨fs₁ ++ fs₂, rest₂, hfs₁.append hfs₂, ?_, ?_⟩
    · rwa [List.flatMap_cons, List.flatMap_append, ← List.append_assoc, ← List.append_assoc]
    · rw [Fragment.tokens, Fragment.tokens_append]
      exact List.rel_append (htokens₁ file) htokens₂

/-- **The tokens of texts that are tracked** correspond, or both texts have a fault.

**Proof sketch.** The first text is divided into lexemes up to where none can be read. They are
answered by lexemes of the second text, and where the first text ends or has a fault, so does the
second one. -/
lemma matched_tokenize (hR : Tracks keepCase P R) {source source' : String}
    (h : R [] source.toList [] source'.toList) (file : String) :
    Matched P (List.Forall₂ (Token.Follows keepCase P)) (tokenize source file)
      (tokenize source' file) := by
  obtain ⟨fs, rest, hfs, hstuck⟩ := exists_divides source.toList
  obtain ⟨fs', rest', hfs', hpos, htokens⟩ := hR.divides hfs h file
  rw [List.nil_append, List.nil_append] at hpos
  cases rest with
  | nil =>
    obtain ⟨rfl, hend⟩ := hR.finish hpos
    have hchars := hfs.eq_append
    have hchars' := hfs'.eq_append
    rw [List.append_nil] at hchars hchars'
    rw [← hchars, ← hchars'] at hend
    rw [tokenize_of_divides hfs, tokenize_of_divides hfs']
    exact .ok (List.rel_append htokens (.cons (.inl (hend.alike (.inl rfl) file)) .nil))
  | cons c cs =>
    obtain ⟨hsep, hcomment, m, hm⟩ := hstuck c cs rfl
    obtain ⟨c', cs', m', rfl, hsep', hcomment', hm', hfailure⟩ := hR.misread hsep hcomment hm hpos
    rw [tokenize_of_misread hfs hsep hcomment hm, tokenize_of_misread hfs' hsep' hcomment' hm']
    exact .error (hfailure file)

end Tracks

end Asm8080
