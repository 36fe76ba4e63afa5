import Asm8080.Proofs.Assembly.Retexting
import Asm8080.Proofs.Token.Tracking

/-!
# Letter case

Unless label names keep their case, it does not matter in which case the letters of a program are
written: those of mnemonics, registers, directives, operators, labels, digits, number suffixes and
comments. Only the letter in a character literal stands for itself.

## Main definitions

* `Asm8080.SameLetters` — texts that differ only in the case of ASCII letters.
* `Asm8080.Recased` — a text with letters outside character literals in another case.

## Main results

* `Asm8080.Lexeme.number_sameLetters` — number literals in another case.
* `Asm8080.Recased.lexeme` — the lexemes of a text in another case.
* `Asm8080.Workbench.assemble_recased` — a text in another case is assembled alike.
-/

set_option autoImplicit false

namespace Asm8080

/-! ## Letters -/

/-- Texts that differ only in the case of ASCII letters. -/
def SameLetters (cs cs' : List Char) : Prop := cs.map Char.toUpper = cs'.map Char.toUpper

/-- **A text with letters in another case**, except in character literals. A comment extends to the
end of its line, and quotes in it begin no literal. A quote that begins no literal either cannot be
read, so that what follows it is not divided into literals and other text. -/
inductive Recased : List Char → List Char → Prop
  | nil : Recased [] []
  | literal {c : Char} {cs cs' : List Char} (hc : c ≠ '\n') (h : Recased cs cs') :
      Recased ('\'' :: c :: '\'' :: cs) ('\'' :: c :: '\'' :: cs')
  | quote {cs cs' : List Char} (hopen : ∀ c rest, cs = c :: '\'' :: rest → c = '\n')
      (h : SameLetters cs cs') : Recased ('\'' :: cs) ('\'' :: cs')
  | comment {body body' cs cs' : List Char} (hbody : '\n' ∉ body)
      (hend : ∀ c ∈ cs.head?, c = '\n') (h : SameLetters body body') (hcs : Recased cs cs') :
      Recased (';' :: body ++ cs) (';' :: body' ++ cs')
  | other {c c' : Char} {cs cs' : List Char} (hquote : c ≠ '\'') (hcomment : c ≠ ';')
      (hc : c.toUpper = c'.toUpper) (h : Recased cs cs') : Recased (c :: cs) (c' :: cs')

/-- A character is its own upper case form, or it is one of the 26 lower case letters. -/
lemma toUpper_cases (c : Char) :
    c.toUpper = c ∨ ∃ k < 26, c = Char.ofNat (97 + k) ∧ c.toUpper = Char.ofNat (65 + k) := by
  by_cases hascii : c.toNat < 128
  · refine ascii_elim (P := fun c => c.toUpper = c ∨
      ∃ k < 26, c = Char.ofNat (97 + k) ∧ c.toUpper = Char.ofNat (65 + k)) ?_ hascii
    decide +kernel
  · exact .inl (dif_neg fun hlower => hascii (Nat.lt_of_le_of_lt hlower.2 (by decide)))

/-- A function has the same value for the upper and the lower case form of each letter. -/
def Caseless {α : Type} (f : Char → α) : Prop :=
  ∀ k < 26, f (Char.ofNat (65 + k)) = f (Char.ofNat (97 + k))

instance {α : Type} [DecidableEq α] (f : Char → α) : Decidable (Caseless f) :=
  inferInstanceAs (Decidable (∀ k < 26, _))

namespace Caseless

variable {α : Type} {f : Char → α}

/-- The value for the upper case form of a character. -/
lemma toUpper_eq (hf : Caseless f) (c : Char) : f c.toUpper = f c := by
  rcases toUpper_cases c with h | ⟨k, hk, rfl, hupper⟩
  · rw [h]
  · rw [hupper, hf k hk]

/-- The values for two forms of one letter. -/
lemma apply_eq (hf : Caseless f) {c c' : Char} (h : c.toUpper = c'.toUpper) : f c = f c' := by
  rw [← hf.toUpper_eq c, h, hf.toUpper_eq]

/-- The values for the characters of a text in another case. -/
lemma map_eq (hf : Caseless f) {cs cs' : List Char} (h : SameLetters cs cs') :
    cs.map f = cs'.map f := by
  have hmap : ∀ xs : List Char, xs.map f = (xs.map Char.toUpper).map f := by
    intro xs
    rw [List.map_map]
    exact List.map_congr_left fun c _ => (hf.toUpper_eq c).symm
  rw [hmap cs, hmap cs', h]

/-- The characters of a text are in a class if those of the text in another case are. -/
lemma forall_mem {p : Char → Bool} (hp : Caseless p) {cs cs' : List Char} (h : SameLetters cs cs')
    (hcs : ∀ c ∈ cs, p c = true) : ∀ c ∈ cs', p c = true := by
  have hall : ∀ b ∈ cs'.map p, b = true := by
    rw [← hp.map_eq h]
    exact List.forall_mem_map.2 hcs
  exact List.forall_mem_map.1 hall

/-- A character that is no letter has one form only. -/
lemma eq_iff {x : Char} (hx : Caseless fun c => c == x) {c c' : Char}
    (h : c.toUpper = c'.toUpper) : c = x ↔ c' = x := by
  have hbeq : (c == x) = (c' == x) := hx.apply_eq h
  rw [← beq_iff_eq, hbeq, beq_iff_eq]

end Caseless

/-- The line feed is no letter. -/
lemma caseless_feed : Caseless fun c => c == '\n' := by decide

/-- The quote is no letter. -/
lemma caseless_quote : Caseless fun c => c == '\'' := by decide

/-- The semicolon is no letter. -/
lemma caseless_semicolon : Caseless fun c => c == ';' := by decide

/-- Both forms of a letter separate tokens, or neither does. -/
lemma caseless_isSeparator : Caseless isSeparator := by decide

/-- Both forms of a letter begin a name. -/
lemma caseless_isNameStart : Caseless isNameStart := by decide

/-- Both forms of a letter continue a name. -/
lemma caseless_isNameChar : Caseless isNameChar := by decide

/-- Neither form of a letter is a decimal digit. -/
lemma caseless_isDigit : Caseless Char.isDigit := by decide

/-- Neither form of a letter is a punctuation mark. -/
lemma caseless_ofChar? : Caseless Punctuation.ofChar? := by decide

/-- Both forms of a letter select the same base. -/
lemma caseless_ofSuffix? : Caseless Radix.ofSuffix? := by decide

/-- Both forms of a letter have the same value as a digit. -/
lemma caseless_digit? (radix : Radix) : Caseless radix.digit? := by
  have hforms : ∀ value < 16, ∀ k < 26,
      (Char.ofNat (65 + k) = Nat.digitChar value ∨
        Char.ofNat (65 + k) = (Nat.digitChar value).toUpper ↔
      Char.ofNat (97 + k) = Nat.digitChar value ∨
        Char.ofNat (97 + k) = (Nat.digitChar value).toUpper) := by
    decide +kernel
  have hbase : radix.base ≤ 16 := by cases radix <;> decide
  intro k hk
  ext value
  rw [Radix.digit?_eq_some_iff, Radix.digit?_eq_some_iff]
  exact and_congr_right fun hvalue => hforms value (Nat.lt_of_lt_of_le hvalue hbase) k hk

namespace SameLetters

variable {cs cs' : List Char} (h : SameLetters cs cs')

include h

/-- The first characters of such texts. -/
lemma cons_left {c : Char} {tail : List Char} (hcs : cs = c :: tail) :
    ∃ c' tail', cs' = c' :: tail' ∧ c.toUpper = c'.toUpper ∧ SameLetters tail tail' := by
  subst hcs
  obtain ⟨c', tail', rfl, hc, htail⟩ := List.map_eq_cons_iff.1 h.symm
  exact ⟨c', tail', rfl, hc.symm, htail.symm⟩

/-- Such texts have the same length. -/
lemma length_eq : cs.length = cs'.length := by
  simpa using congrArg List.length h

/-- Such texts end on the same line, in the same column. -/
lemma endNear (P : Prop) : EndNear P cs cs' := by
  have hfeed := caseless_feed.map_eq h
  have hcount : ∀ xs : List Char, xs.count '\n' =
      (xs.map fun c => c == '\n').count true := by
    intro xs
    rw [List.count, List.count, List.countP_map]
    congr
    funext c
    simp
  have hlast : ∀ xs : List Char, (lastLine xs).length =
      ((xs.map fun c => c == '\n').reverse.takeWhile fun b => !b).length := by
    intro xs
    rw [lastLine, List.length_reverse, ← List.map_reverse, List.takeWhile_map, List.length_map]
    rfl
  refine ⟨?_, fun _ => ?_⟩
  · rw [lineAfter, lineAfter, hcount, hcount, hfeed]
  · rw [columnAfter, columnAfter, hlast, hlast, hfeed]

end SameLetters

/-! ## Words and literals -/

/-- **Words in another case** are the same reserved word, or names that differ only in case. -/
lemma Token.Kind.alike_ofName {cs cs' : List Char} (h : SameLetters cs cs') :
    (ofName (String.ofList cs)).Alike false (ofName (String.ofList cs')) := by
  have hupper : Text.upper (String.ofList cs) = Text.upper (String.ofList cs') := by
    rw [Text.upper, Text.upper, String.toList_ofList, String.toList_ofList, h]
  simp only [ofName, hupper]
  rcases Keyword.ofName? (Text.upper (String.ofList cs')) with _ | k
  · rcases Mnemonic.ofName? (Text.upper (String.ofList cs')) with _ | m
    · rcases Register.ofName? (Text.upper (String.ofList cs')) with _ | r
      · exact .inr ⟨rfl, _, _, hupper, rfl, rfl⟩
      · exact .inl rfl
    · exact .inl rfl
  · exact .inl rfl

namespace Lexeme

variable {cs cs' : List Char}

/-- Number literals in another case have the same base, and digits in another case. -/
lemma splitRadix_sameLetters (h : SameLetters cs cs') :
    (splitRadix cs).1 = (splitRadix cs').1 ∧
      SameLetters (splitRadix cs).2 (splitRadix cs').2 := by
  have hlast : ∀ xs : List Char, xs.getLast?.bind Radix.ofSuffix? =
      (xs.map Radix.ofSuffix?).getLast?.join := by
    intro xs
    rw [List.getLast?_map]
    cases xs.getLast? <;> rfl
  have hsuffix : cs.getLast?.bind Radix.ofSuffix? = cs'.getLast?.bind Radix.ofSuffix? := by
    rw [hlast, hlast, caseless_ofSuffix?.map_eq h]
  unfold splitRadix
  rw [hsuffix]
  split
  · refine ⟨rfl, ?_⟩
    simp only [SameLetters, List.map_dropLast]
    rw [h]
  · exact ⟨rfl, h⟩

/-- **Number literals in another case** have the same value, or a fault at the same distance. -/
lemma number_sameLetters (h : SameLetters cs cs') :
    number cs = number cs' ∨ ∃ cause cause' offset consumed,
      number cs = .error (.fault cause offset consumed) ∧
        number cs' = .error (.fault cause' offset consumed) := by
  obtain ⟨hradix, hdigits⟩ := splitRadix_sameLetters h
  rcases hsplit : splitRadix cs with ⟨radix, digits⟩
  rcases hsplit' : splitRadix cs' with ⟨radix', digits'⟩
  rw [hsplit, hsplit'] at hradix hdigits
  obtain rfl : radix = radix' := hradix
  have hvalues : digits.map radix.digit? = digits'.map radix.digit? :=
    (caseless_digit? radix).map_eq hdigits
  have hfind : ∀ xs : List Char, xs.findIdx? (fun c => (radix.digit? c).isNone) =
      (xs.map radix.digit?).findIdx? Option.isNone := by
    intro xs
    rw [List.findIdx?_map]
    rfl
  have hfilter : ∀ xs : List Char, xs.filterMap radix.digit? =
      (xs.map radix.digit?).filterMap id := by
    intro xs
    rw [List.filterMap_map]
    rfl
  have hlength : digits.length = digits'.length := hdigits.length_eq
  unfold number
  simp only [hsplit, hsplit', hfind, hfilter, hvalues, hlength, h.length_eq]
  split
  · exact .inr ⟨_, _, _, _, rfl, rfl⟩
  · exact .inl rfl

/-- What follows a quote that begins no literal has a fault at the same distance in another case. -/
lemma character_sameLetters (h : SameLetters cs cs')
    (hopen : ∀ c rest, cs = c :: '\'' :: rest → c = '\n') :
    ∃ cause offset consumed, character cs = .error (.fault cause offset consumed) ∧
      character cs' = .error (.fault cause offset consumed) := by
  cases cs with
  | nil =>
    obtain rfl := List.eq_nil_of_length_eq_zero h.length_eq.symm
    exact ⟨_, _, _, rfl, rfl⟩
  | cons c cs =>
    obtain ⟨c', cs', rfl, hc, htail⟩ := h.cons_left rfl
    have hfeed : c = '\n' ↔ c' = '\n' := caseless_feed.eq_iff hc
    cases cs with
    | nil =>
      obtain rfl := List.eq_nil_of_length_eq_zero htail.length_eq.symm
      simp only [character, hfeed]
      split <;> exact ⟨_, _, _, rfl, rfl⟩
    | cons d cs =>
      obtain ⟨d', cs', rfl, hd, -⟩ := htail.cons_left rfl
      have hquote : d = '\'' ↔ d' = '\'' := caseless_quote.eq_iff hd
      have hfeed' : d = '\n' ↔ d' = '\n' := caseless_feed.eq_iff hd
      simp only [character, hfeed, hquote, hfeed']
      by_cases hline : c' = '\n'
      · simp only [hline, if_true]
        exact ⟨_, _, _, rfl, rfl⟩
      · have hnone : d' ≠ '\'' := fun hq => hline (hfeed.1 (hopen c cs (by rw [hquote.2 hq])))
        simp only [hline, hnone, if_false]
        split <;> exact ⟨_, _, _, rfl, rfl⟩

end Lexeme

/-! ## Texts in another case -/

namespace Recased

variable {c : Char} {cs cs' rest : List Char}

/-- A character that begins neither a literal nor a comment. -/
lemma of_other (h : Recased (c :: cs) cs') (hquote : c ≠ '\'') (hcomment : c ≠ ';') :
    ∃ c' tail', cs' = c' :: tail' ∧ c.toUpper = c'.toUpper ∧ Recased cs tail' := by
  generalize htext : c :: cs = text at h
  cases h with
  | nil => cases htext
  | literal | quote => exact absurd (List.cons.inj htext).1 hquote
  | comment => exact absurd (List.cons.inj htext).1 hcomment
  | other _ _ hc h =>
    obtain ⟨rfl, rfl⟩ := List.cons.inj htext
    exact ⟨_, _, rfl, hc, h⟩

/-- Characters that begin neither a literal nor a comment. -/
lemma of_run {xs : List Char} (hxs : ∀ c ∈ xs, c ≠ '\'' ∧ c ≠ ';') (h : Recased (xs ++ rest) cs') :
    ∃ xs' rest', cs' = xs' ++ rest' ∧ SameLetters xs xs' ∧ Recased rest rest' := by
  induction xs generalizing cs' with
  | nil => exact ⟨[], cs', rfl, rfl, h⟩
  | cons x xs ih =>
    obtain ⟨⟨hquote, hcomment⟩, hxs⟩ := List.forall_mem_cons.1 hxs
    obtain ⟨x', tail', rfl, hx, htail⟩ := of_other h hquote hcomment
    obtain ⟨xs', rest', rfl, hletters, hrest⟩ := ih hxs htail
    exact ⟨x' :: xs', rest', rfl, congrArg₂ List.cons hx hletters, hrest⟩

/-- Characters that begin neither a literal nor a comment may be in another case. -/
lemma append {xs xs' : List Char} (hxs : (xs.all fun c => c != '\'' && c != ';') = true)
    (h : SameLetters xs xs') (hcs : Recased cs cs') : Recased (xs ++ cs) (xs' ++ cs') := by
  induction xs generalizing xs' with
  | nil =>
    obtain rfl := List.eq_nil_of_length_eq_zero h.length_eq.symm
    exact hcs
  | cons x xs ih =>
    rw [List.all_cons, Bool.and_eq_true, Bool.and_eq_true, bne_iff_ne, bne_iff_ne] at hxs
    obtain ⟨x', xs', rfl, hx, hletters⟩ := h.cons_left rfl
    exact .other hxs.1.1 hxs.1.2 hx (ih hxs.2 hletters)

/-- The texts begin with forms of one letter. -/
lemma head (h : Recased cs cs') : ∀ c' ∈ cs'.head?, ∃ c ∈ cs.head?, c.toUpper = c'.toUpper := by
  cases h with
  | nil => exact fun c' hc' => absurd hc' (by simp)
  | other _ _ hc h =>
    rintro _ ⟨⟩
    exact ⟨_, rfl, hc⟩
  | _ =>
    rintro _ ⟨⟩
    exact ⟨_, rfl, rfl⟩

/-- A comment in another case, which ends where the comment does. -/
lemma of_comment {body : List Char} (hbody : '\n' ∉ body) (hend : ∀ c ∈ rest.head?, c = '\n')
    (h : Recased (';' :: body ++ rest) cs') :
    ∃ body' rest', cs' = ';' :: body' ++ rest' ∧ SameLetters body body' ∧ '\n' ∉ body' ∧
      (∀ c ∈ rest'.head?, c = '\n') ∧ Recased rest rest' := by
  have hrun : ∀ {xs ys : List Char}, '\n' ∉ xs → (∀ c ∈ ys.head?, c = '\n') →
      (xs ++ ys).takeWhile (· != '\n') = xs := by
    intro xs ys hxs hys
    exact takeWhile_run (fun c hc => bne_iff_ne.2 (ne_of_mem_of_not_mem hc hxs))
      fun c hc => bne_eq_false_iff_eq.2 (hys c hc)
  generalize htext : ';' :: body ++ rest = text at h
  cases h with
  | nil => cases htext
  | literal | quote => exact absurd (List.cons.inj htext).1 (by decide)
  | @comment body₁ body' cs₁ rest' hbody₁ hend₁ hletters hrest =>
    have htail : body ++ rest = body₁ ++ cs₁ := (List.cons.inj htext).2
    -- both comments extend to the first line feed
    obtain rfl : body = body₁ := by rw [← hrun hbody hend, htail, hrun hbody₁ hend₁]
    obtain rfl := List.append_cancel_left htail
    refine ⟨body', rest', rfl, hletters, fun hmem => ?_, fun c' hc' => ?_, hrest⟩
    · have hmem' : true ∈ body'.map fun c => c == '\n' := List.mem_map.2 ⟨_, hmem, rfl⟩
      rw [← caseless_feed.map_eq hletters] at hmem'
      obtain ⟨c, hc, hline⟩ := List.mem_map.1 hmem'
      exact hbody (beq_iff_eq.1 hline ▸ hc)
    · obtain ⟨c, hc, hupper⟩ := hrest.head c' hc'
      exact (caseless_feed.eq_iff hupper).1 (hend c hc)
  | other _ hcomment => exact absurd (List.cons.inj htext).1.symm hcomment

/-- A quote begins a literal, which is the same in both texts, or it begins none. -/
lemma of_quote (h : Recased ('\'' :: cs) cs') :
    (∃ c rest rest', cs = c :: '\'' :: rest ∧ c ≠ '\n' ∧ cs' = '\'' :: c :: '\'' :: rest' ∧
        Recased rest rest') ∨
      ((∀ c rest, cs = c :: '\'' :: rest → c = '\n') ∧
        ∃ tail', cs' = '\'' :: tail' ∧ SameLetters cs tail') := by
  generalize htext : '\'' :: cs = text at h
  cases h with
  | nil => cases htext
  | literal hc h =>
    obtain ⟨-, rfl⟩ := List.cons.inj htext
    exact .inl ⟨_, _, _, rfl, hc, rfl, h⟩
  | quote hopen h =>
    obtain ⟨-, rfl⟩ := List.cons.inj htext
    exact .inr ⟨hopen, _, rfl, h⟩
  | comment => exact absurd (List.cons.inj htext).1 (by decide)
  | other hquote => exact absurd (List.cons.inj htext).1.symm hquote

/-- A word in another case, which ends where the word does. -/
lemma of_word {tail : List Char} (hc : isNameChar c = true) (htail : WordRun tail rest)
    (h : Recased (c :: tail ++ rest) cs') :
    ∃ c' tail' rest', cs' = c' :: tail' ++ rest' ∧ c.toUpper = c'.toUpper ∧
      SameLetters (c :: tail) (c' :: tail') ∧ WordRun tail' rest' ∧ Recased rest rest' := by
  obtain ⟨hword, hends⟩ := wordRun_iff.1 htail
  have hplain : ∀ d ∈ c :: tail, d ≠ '\'' ∧ d ≠ ';' := by
    have hall : ∀ d ∈ c :: tail, isNameChar d = true := List.forall_mem_cons.2 ⟨hc, hword⟩
    intro d hd
    refine ⟨?_, (Lexes.plain_of_isNameChar (hall d hd)).2.2⟩
    rintro rfl
    cases hall _ hd
  obtain ⟨xs', rest', rfl, hletters, hrest⟩ := of_run hplain h
  obtain ⟨c', tail', rfl, hupper, htails⟩ := hletters.cons_left rfl
  refine ⟨c', tail', rest', rfl, hupper, hletters, wordRun_iff.2 ⟨?_, fun d' hd' => ?_⟩, hrest⟩
  · exact caseless_isNameChar.forall_mem htails hword
  · obtain ⟨d, hd, hupper⟩ := hrest.head d' hd'
    rw [← caseless_isNameChar.apply_eq hupper]
    exact hends d hd

/-- **A lexeme in another case** is a lexeme, and a token that is alike.

**Proof sketch.** One case for each kind of lexeme. Outside literals and comments each character is
changed by itself, so that a run of characters of one class corresponds to a run of the same length
(`of_run`, `of_word`), and every class that the grammar asks for holds both forms of a letter or
none (`Caseless`). A line feed and a punctuation mark have one form. A word is compared with the
reserved words in upper case (`alike_ofName`), and a number has the same digits
(`number_sameLetters`). A comment corresponds as a whole (`of_comment`), and a character literal is
kept as it is (`of_quote`). -/
lemma lexeme {f : Fragment} (hf : f.IsLexeme rest) (h : Recased (f.chars ++ rest) cs') :
    ∃ (f' : Fragment) (rest' : List Char), cs' = f'.chars ++ rest' ∧ f'.IsLexeme rest' ∧
      SameLetters f.chars f'.chars ∧ Recased rest rest' ∧
      Option.Rel (Token.Kind.Alike false) f.kind f'.kind := by
  cases hf with
  | @separators cs _ hne hcs =>
    have hsep : ∀ c ∈ cs, isSeparator c = true := fun c hc => isSeparator_iff.2 (hcs c hc)
    have hplain : ∀ c ∈ cs, c ≠ '\'' ∧ c ≠ ';' := by
      intro c hc
      constructor <;> rintro rfl <;> cases hsep _ hc
    obtain ⟨xs', rest', rfl, hletters, hrest⟩ := of_run hplain h
    refine ⟨⟨xs', none⟩, rest', rfl, .separators ?_ ?_, hletters, hrest, .none⟩
    · rintro rfl
      exact hne (List.eq_nil_of_length_eq_zero hletters.length_eq)
    · exact fun c hc => isSeparator_iff.1 (caseless_isSeparator.forall_mem hletters hsep c hc)
  | comment hbody hend =>
    obtain ⟨body', rest', rfl, hletters, hbody', hend', hrest⟩ := of_comment hbody hend h
    exact ⟨⟨';' :: body', none⟩, rest', rfl, .comment hbody' hend',
      congrArg (List.cons ';') hletters, hrest, .none⟩
  | newline =>
    obtain ⟨c', rest', rfl, hc, hrest⟩ := of_other h (by decide) (by decide)
    obtain rfl := (caseless_feed.eq_iff hc).1 rfl
    exact ⟨_, rest', rfl, .newline, rfl, hrest, .some (.inl rfl)⟩
  | @name c tail _ kind hc htail hkind =>
    have hstart := isNameStart_iff.2 hc
    obtain ⟨c', tail', rest', rfl, hupper, hletters, htail', hrest⟩ :=
      of_word (Lexes.isNameChar_of_isNameStart hstart) htail h
    refine ⟨⟨c' :: tail', some _⟩, rest', rfl,
      .name (isNameStart_iff.1 ?_) htail' (Token.Kind.ofName_eq_iff.1 rfl), hletters, hrest,
      .some ?_⟩
    · rwa [← caseless_isNameStart.apply_eq hupper]
    · rw [← Token.Kind.ofName_eq_iff.2 hkind]
      exact Token.Kind.alike_ofName hletters
  | @number c tail _ value radix hc htail hvalue =>
    obtain ⟨c', tail', rest', rfl, hupper, hletters, htail', hrest⟩ :=
      of_word (Lexes.isNameChar_of_isDigit hc) htail h
    have hnumber : Lexeme.number (c' :: tail') = .ok (value, radix) := by
      rw [← Lexeme.number_eq_ok_iff] at hvalue
      rcases Lexeme.number_sameLetters hletters with heq | ⟨_, _, _, _, hfault, -⟩
      · rw [← heq, hvalue]
      · cases hvalue.symm.trans hfault
    refine ⟨⟨c' :: tail', some (.number value radix)⟩, rest', rfl,
      .number ?_ htail' (Lexeme.number_eq_ok_iff.1 hnumber), hletters, hrest, .some (.inl rfl)⟩
    rwa [← caseless_isDigit.apply_eq hupper]
  | @char c _ hline hwidth =>
    rcases of_quote h with ⟨_, _, rest', ⟨⟩, -, rfl, hrest⟩ | ⟨hopen, -⟩
    · exact ⟨_, rest', rfl, .char hline hwidth, rfl, hrest, .some (.inl rfl)⟩
    · exact absurd (hopen c rest rfl) hline
  | @punctuation p =>
    obtain ⟨c', rest', rfl, hc, hrest⟩ :=
      of_other h (by cases p <;> decide) (by cases p <;> decide)
    have hmark : Punctuation.ofChar? c' = some p := by
      rw [← caseless_ofChar?.apply_eq hc]
      exact Lexeme.ofChar?_eq_some_iff.2 rfl
    obtain rfl := Lexeme.ofChar?_eq_some_iff.1 hmark
    exact ⟨_, rest', rfl, .punctuation, rfl, hrest, .some (.inl rfl)⟩

/-- **Where no lexeme can be read**, none can be read in another case. The same number has too many
digits, or a fault is at the same distance. -/
lemma misread {m : Misread} (hsep : isSeparator c = false) (hcomment : c ≠ ';')
    (hm : Lexeme.read c cs = .error m) (h : Recased (c :: cs) cs') :
    ∃ c' tail' m', cs' = c' :: tail' ∧ isSeparator c' = false ∧ c' ≠ ';' ∧
      Lexeme.read c' tail' = .error m' ∧
      (m = m' ∨ ∃ cause cause' offset consumed,
        m = .fault cause offset consumed ∧ m' = .fault cause' offset consumed) := by
  have hplain : ∀ {c' : Char}, c.toUpper = c'.toUpper → isSeparator c' = false ∧ c' ≠ ';' := by
    intro c' hc
    rw [← caseless_isSeparator.apply_eq hc]
    exact ⟨hsep, mt (caseless_semicolon.eq_iff hc).2 hcomment⟩
  rcases Lexeme.cases_of_read_error hm with ⟨rfl, hliteral⟩ |
    ⟨hdigit, tail, rest, rfl, hrun, hnumber⟩ | ⟨hline, hstart, hdigit, hquote, hmark, rfl⟩
  · rcases of_quote h with ⟨d, rest, rest', rfl, -, rfl, -⟩ | ⟨hopen, tail', rfl, hletters⟩
    · exact ⟨_, _, m, rfl, rfl, by decide, hliteral, .inl rfl⟩
    · obtain ⟨cause, offset, consumed, hx, hy⟩ := Lexeme.character_sameLetters hletters hopen
      cases hliteral.symm.trans hx
      exact ⟨_, _, _, rfl, rfl, by decide, hy, .inl rfl⟩
  · obtain ⟨c', tail', rest', rfl, hupper, hletters, hrun', -⟩ :=
      of_word (Lexes.isNameChar_of_isDigit hdigit) hrun h
    obtain ⟨hsep', hcomment'⟩ := hplain hupper
    rw [caseless_isDigit.apply_eq hupper] at hdigit
    have hread := Lexeme.read_of_isDigit hdigit hrun'
    rcases Lexeme.number_sameLetters hletters with heq | ⟨_, _, _, _, hx, hy⟩
    · rw [← heq, hnumber] at hread
      exact ⟨_, _, m, rfl, hsep', hcomment', hread, .inl rfl⟩
    · rw [hy] at hread
      cases hnumber.symm.trans hx
      exact ⟨_, _, _, rfl, hsep', hcomment', hread, .inr ⟨_, _, _, _, rfl, rfl⟩⟩
  · obtain ⟨c', tail', rfl, hupper, -⟩ := of_other h hquote hcomment
    obtain ⟨hsep', hcomment'⟩ := hplain hupper
    refine ⟨c', tail', .fault (.unexpectedCharacter c') 0 0, rfl, hsep', hcomment', ?_,
      .inr ⟨_, _, _, _, rfl, rfl⟩⟩
    rw [caseless_isNameStart.apply_eq hupper] at hstart
    rw [caseless_isDigit.apply_eq hupper] at hdigit
    rw [caseless_ofChar?.apply_eq hupper] at hmark
    rw [Ne, caseless_feed.eq_iff hupper] at hline
    rw [Ne, caseless_quote.eq_iff hupper] at hquote
    simp only [Lexeme.read, hline, hstart, hdigit, hquote, hmark, if_false, Bool.false_eq_true]

end Recased

/-- **Texts in another case are read side by side.** -/
lemma tracks_recased :
    Tracks false True fun before cs before' cs' => SameLetters before before' ∧ Recased cs cs' where
  finish := by
    rintro before before' cs' ⟨hbefore, hcs⟩
    cases hcs
    exact ⟨rfl, hbefore.endNear True⟩
  lexeme := by
    rintro f before rest before' cs' hf ⟨hbefore, hcs⟩
    obtain ⟨f', rest', rfl, hf', hletters, hrest, hkind⟩ := hcs.lexeme hf
    refine ⟨[f'], rest', .cons hf' .nil, ⟨?_, hrest⟩, fun file => ?_⟩
    · rw [List.flatMap_singleton, SameLetters, List.map_append, List.map_append, hbefore, hletters]
    · exact (hbefore.endNear True).forall₂_tokens hkind file
  misread := by
    rintro c before cs before' cs' m hsep hcomment hm ⟨hbefore, hcs⟩
    obtain ⟨c', tail', m', rfl, hsep', hcomment', hm', halike⟩ := hcs.misread hsep hcomment hm
    refine ⟨c', tail', m', rfl, hsep', hcomment', hm', fun file => ?_⟩
    have hend := hbefore.endNear True
    rcases halike with rfl | ⟨cause, cause', offset, consumed, rfl, rfl⟩
    · exact hend.misread_alike _ _ m file
    · exact hend.failure_alike _ _ cause cause'
        (fun _ => congrArg (· + offset) (hend.column trivial)) _ _ file

namespace Workbench

/-- **Letter case does not matter** outside character literals, unless label names keep their case.
If a text is changed only in the case of ASCII letters outside its character literals, it is
assembled to the same image, with the same addresses and the same symbols, which have the same
names, values and places; or it fails as before, with a diagnostic of the same kind at the same
place.

**Proof sketch.** The lexemes of the texts have the same places, and each is a token that is alike
(`Recased.lexeme`): names are compared with the reserved words in upper case, and digits and number
suffixes have the same meaning in both cases. Where no lexeme can be read in one text, none can be
read in the other (`Recased.misread`). So the tokens correspond, and texts whose tokens correspond
are assembled alike (`agrees_of_tokenize`). -/
theorem assemble_recased (w : Workbench) (hcase : w.settings.keepCase = false)
    {source source' : String} (h : Recased source.toList source'.toList) (file : String) :
    Run.Agrees True (w.assemble source file) (w.assemble source' file) := by
  refine agrees_of_tokenize w ?_
  rw [hcase]
  exact tracks_recased.matched_tokenize ⟨rfl, h⟩ file

/-- A text in lower case, with a literal, and a quote in a comment. -/
def lowerText : String := "go: mvi b,0ffh\n db 'g' ; don't\n jmp go\n"

/-- The same text with other letters in upper case. -/
def mixedText : String := "Go: MVI b,0fFH\n dB 'g' ; DON't\n jMP gO\n"

/-- The texts differ in the case of letters outside the literal, and are assembled alike. -/
theorem assemble_mixedText :
    Recased lowerText.toList mixedText.toList ∧
      (padding.assemble lowerText "go.asm").outcome =
        .ok [0x06, 0xFF, 0x67, 0xC3, 0x00, 0x00, 0xAA, 0xAA] ∧
      Run.Agrees True (padding.assemble lowerText "go.asm")
        (padding.assemble mixedText "go.asm") := by
  have hlower : lowerText.toList = "go: mvi b,0ffh\n db ".toList ++ '\'' :: 'g' :: '\'' ::
      (" ".toList ++ ((';' :: " don't".toList) ++ ('\n' :: (" jmp go\n".toList ++ [])))) := by
    decide +kernel
  have hmixed : mixedText.toList = "Go: MVI b,0fFH\n dB ".toList ++ '\'' :: 'g' :: '\'' ::
      (" ".toList ++ ((';' :: " DON't".toList) ++ ('\n' :: (" jMP gO\n".toList ++ [])))) := by
    decide +kernel
  have hrecased : Recased lowerText.toList mixedText.toList := by
    rw [hlower, hmixed]
    refine .append (by decide +kernel) ?_ (.literal (by decide)
      (.append (by decide +kernel) rfl (.comment (by decide +kernel) (by simp) ?_
        (.other (by decide) (by decide) rfl (.append (by decide +kernel) ?_ .nil)))))
    all_goals
      unfold SameLetters
      decide +kernel
  exact ⟨hrecased, by decide +kernel, assemble_recased padding rfl hrecased "go.asm"⟩

end Workbench

end Asm8080
