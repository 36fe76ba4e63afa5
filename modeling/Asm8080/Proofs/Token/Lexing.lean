import Mathlib.Tactic.Common
import Asm8080.Proofs.Token.Literal
import Asm8080.Token.Cursor

/-!
# Lexing piece by piece

What is read from source text depends on the characters ahead only, apart from the places of the
tokens. So a text can be read in pieces: each piece adds its tokens and leaves the characters after
it.

## Main definitions

* `Asm8080.Lexes` — characters begin with tokens of certain kinds, after which others are left.

## Main results

* `Asm8080.Lexes.append` — pieces are read one after another.
* `Asm8080.Lexes.separator`, `Asm8080.Lexes.comment`, `Asm8080.Lexes.word`, `Asm8080.Lexes.number`,
  `Asm8080.Lexes.newline` — the pieces that there are.
* `Asm8080.Lexes.tokenize` — the tokens of a text that is read to its end.
-/

set_option autoImplicit false

namespace Asm8080

namespace Cursor

/-- Reading on depends on the position after separators and a comment. -/
lemma readAllFrom_eq (file : String) (done : List Token) (c : Cursor) :
    readAllFrom file done c =
      match c.skipIgnored.rest with
      | [] => ⟨(c.skipIgnored.token file .eof :: done).reverse, none, c.skipIgnored⟩
      | ch :: cs =>
        match Lexeme.read ch cs with
        | .ok l => readAllFrom file (c.skipIgnored.token file l.kind :: done) (c.skipIgnored.past l)
        | .error m =>
          ⟨done.reverse, some (c.skipIgnored.failure file m), c.skipIgnored.skip m.consumed⟩ := by
  fun_cases readAllFrom file done c with
  | case1 h => rw [h]
  | case2 ch cs h ahead l hread => simp only [h, hread]
  | case3 ch cs h ahead m hread => simp only [h, hread]

/-- Reading on from two positions is the same if separators and a comment lead to the same one. -/
lemma readAllFrom_congr {c c' : Cursor} (h : c.skipIgnored = c'.skipIgnored) (file : String)
    (done : List Token) : readAllFrom file done c = readAllFrom file done c' := by
  rw [readAllFrom_eq, readAllFrom_eq file done c', h]

/-- Moving on in two parts. -/
lemma skip_skip (c : Cursor) (m n : Nat) : (c.skip m).skip n = c.skip (m + n) := by
  simp only [skip, List.drop_drop, Nat.add_assoc]

/-- A position is left where it is if no separator and no comment comes next. -/
lemma skipIgnored_eq_self {c : Cursor}
    (h : ∀ ch ∈ c.rest.head?, isSeparator ch = false ∧ ch ≠ ';') : c.skipIgnored = c := by
  have hzero : c.skip 0 = c := rfl
  unfold skipIgnored
  cases hr : c.rest with
  | nil => simp only [List.takeWhile_nil, List.length_nil, hzero, hr, commentLength]
  | cons ch cs =>
    obtain ⟨hsep, hcomment⟩ := h ch (by simp [hr])
    have hlen : commentLength (ch :: cs) = 0 :=
      commentLength.eq_2 _ fun cs' heq => hcomment (List.cons.inj heq).1
    simp only [List.takeWhile_cons, hsep, Bool.false_eq_true, if_false, List.length_nil, hzero, hr,
      hlen]

/-- Reading on where a lexeme is expected next. -/
lemma readAllFrom_cons {c : Cursor} {ch : Char} {cs : List Char} (hc : c.rest = ch :: cs)
    (hsep : isSeparator ch = false) (hcomment : ch ≠ ';') (file : String) (done : List Token) :
    readAllFrom file done c =
      match Lexeme.read ch cs with
      | .ok l => readAllFrom file (c.token file l.kind :: done) (c.past l)
      | .error m => ⟨done.reverse, some (c.failure file m), c.skip m.consumed⟩ := by
  have hself : c.skipIgnored = c := skipIgnored_eq_self (by simp [hc, hsep, hcomment])
  rw [readAllFrom_eq, hself, hc]

/-- Reading on at the end of the source. -/
lemma readAllFrom_nil {c : Cursor} (hc : c.rest = []) (file : String) (done : List Token) :
    readAllFrom file done c = ⟨done.reverse ++ [c.token file .eof], none, c⟩ := by
  have hself : c.skipIgnored = c := skipIgnored_eq_self (by simp [hc])
  rw [readAllFrom_eq, hself, hc, List.reverse_cons]

end Cursor

/-! ## Pieces -/

/-- A run of characters of a class is taken up to a character that is not in the class. -/
lemma takeWhile_run {p : Char → Bool} {run rest : List Char} (hrun : ∀ ch ∈ run, p ch = true)
    (hrest : ∀ ch ∈ rest.head?, p ch = false) : (run ++ rest).takeWhile p = run := by
  rw [List.takeWhile_append_of_pos hrun]
  cases rest with
  | nil => simp
  | cons ch cs => simp [hrest ch (by simp)]

/-- The characters `cs` begin with tokens of the kinds `ks`, after which the characters `rest` are
left: reading on from a position before `cs` adds such tokens and goes on before `rest`. -/
def Lexes (cs : List Char) (ks : List Token.Kind) (rest : List Char) : Prop :=
  ∀ (file : String) (c : Cursor), c.rest = cs →
    ∃ (ts : List Token) (c' : Cursor), ts.map Token.kind = ks ∧ c'.rest = rest ∧
      ∀ done, Cursor.readAllFrom file done c = Cursor.readAllFrom file (ts.reverse ++ done) c'

namespace Lexes

variable {cs rest rest' : List Char} {ks ks' : List Token.Kind}

/-- Nothing is read before the first token. -/
lemma refl (cs : List Char) : Lexes cs [] cs :=
  fun _ c hc => ⟨[], c, rfl, hc, fun _ => rfl⟩

/-- **Pieces are read one after another.** -/
lemma append (h : Lexes cs ks rest) (h' : Lexes rest ks' rest') :
    Lexes cs (ks ++ ks') rest' := by
  intro file c hc
  obtain ⟨ts, c₁, rfl, hc₁, hread⟩ := h file c hc
  obtain ⟨ts', c₂, rfl, hc₂, hread'⟩ := h' file c₁ hc₁
  refine ⟨ts ++ ts', c₂, List.map_append, hc₂, fun done => ?_⟩
  rw [hread, hread', List.reverse_append, List.append_assoc]

/-- A separator is no token. -/
lemma separator {ch : Char} (hch : isSeparator ch = true) (cs : List Char) :
    Lexes (ch :: cs) [] cs := by
  intro file c hc
  refine ⟨[], c.skip 1, rfl, by simp [Cursor.skip, hc], Cursor.readAllFrom_congr ?_ file⟩
  have hrest : (c.skip 1).rest = cs := by simp [Cursor.skip, hc]
  unfold Cursor.skipIgnored
  simp only [hc, hrest, List.takeWhile_cons, hch, if_true, List.length_cons, Cursor.skip_skip,
    Nat.add_comm]

/-- Spaces are no tokens. -/
lemma spaces (n : Nat) (cs : List Char) : Lexes (List.replicate n ' ' ++ cs) [] cs := by
  induction n with
  | zero => exact refl cs
  | succ n ih => exact (separator rfl _).append ih

/-- A comment up to the end of the line is no token. -/
lemma comment {body : List Char} (hbody : '\n' ∉ body) (cs : List Char) :
    Lexes (';' :: (body ++ '\n' :: cs)) [] ('\n' :: cs) := by
  intro file c hc
  have htake : (body ++ '\n' :: cs).takeWhile (· != '\n') = body :=
    takeWhile_run (fun ch hch => bne_iff_ne.2 (ne_of_mem_of_not_mem hch hbody)) (by simp)
  have hrest : (c.skip (body.length + 1)).rest = '\n' :: cs := by
    simp [Cursor.skip, hc]
  refine ⟨[], c.skip (body.length + 1), rfl, hrest, Cursor.readAllFrom_congr ?_ file⟩
  have hself : (c.skip (body.length + 1)).skipIgnored = c.skip (body.length + 1) :=
    Cursor.skipIgnored_eq_self (by simp [hrest, isSeparator])
  rw [hself, Cursor.skipIgnored]
  have hzero : c.skip 0 = c := rfl
  have hnone : (c.rest.takeWhile isSeparator).length = 0 := by simp [hc, isSeparator]
  rw [hnone, hzero, hc, Cursor.commentLength, htake, List.length_cons]

/-- One lexeme that is no line end. -/
lemma lexeme {ch : Char} {kind : Token.Kind} {more : Nat} (hsep : isSeparator ch = false)
    (hcomment : ch ≠ ';') (hread : Lexeme.read ch cs = .ok ⟨kind, more⟩) (hkind : kind ≠ .newline) :
    Lexes (ch :: cs) [kind] (cs.drop more) := by
  intro file c hc
  refine ⟨[c.token file kind], c.skip (more + 1), rfl, by simp [Cursor.skip, hc], fun done => ?_⟩
  rw [Cursor.readAllFrom_cons hc hsep hcomment, hread]
  simp only [Cursor.past, hkind, if_false]
  rfl

/-- The end of a line. -/
lemma newline (cs : List Char) : Lexes ('\n' :: cs) [.newline] cs := by
  intro file c hc
  refine ⟨[c.token file .newline], c.nextLine, rfl, by simp [Cursor.nextLine, hc], fun done => ?_⟩
  exact Cursor.readAllFrom_cons hc rfl (by decide) file done

/-- A character ends names and numbers. -/
def Ends (cs : List Char) : Prop := ∀ ch ∈ cs.head?, isNameChar ch = false

/-- A character that continues no name ends names and numbers. -/
lemma ends_cons {ch : Char} (h : isNameChar ch = false) (cs : List Char) : Ends (ch :: cs) := by
  simpa [Ends] using h

/-- Name characters are taken up to a character that ends them. -/
lemma takeWhile_isNameChar {tail : List Char} (htail : ∀ ch ∈ tail, isNameChar ch = true)
    (hends : Ends rest) : (tail ++ rest).takeWhile isNameChar = tail :=
  takeWhile_run htail hends

/-- A name character begins neither a line end nor what is ignored. -/
lemma plain_of_isNameChar {ch : Char} (h : isNameChar ch = true) :
    ch ≠ '\n' ∧ isSeparator ch = false ∧ ch ≠ ';' := by
  refine ⟨?_, ?_, ?_⟩
  · rintro rfl
    cases h
  · by_contra hsep
    simp only [isSeparator, Bool.not_eq_false, Bool.or_eq_true, beq_iff_eq] at hsep
    rcases hsep with (rfl | rfl) | rfl <;> cases h
  · rintro rfl
    cases h

/-- What begins a name can continue it. -/
lemma isNameChar_of_isNameStart {ch : Char} (h : isNameStart ch = true) : isNameChar ch = true := by
  simp only [isNameStart, isNameChar, Bool.or_eq_true] at h ⊢
  tauto

/-- A decimal digit continues names and numbers. -/
lemma isNameChar_of_isDigit {ch : Char} (h : ch.isDigit = true) : isNameChar ch = true := by
  simp only [isNameChar, h, Bool.or_true, Bool.true_or]

/-- No name is a line end. -/
lemma ofName_ne_newline (word : String) : Token.Kind.ofName word ≠ .newline := by
  fun_cases Token.Kind.ofName word with
  | _ => simp

/-- A word of name characters. -/
lemma word {ch : Char} {tail : List Char} (hch : isNameStart ch = true)
    (htail : ∀ ch ∈ tail, isNameChar ch = true) (hends : Ends rest) :
    Lexes (ch :: (tail ++ rest)) [Token.Kind.ofName (String.ofList (ch :: tail))] rest := by
  obtain ⟨hline, hsep, hcomment⟩ := plain_of_isNameChar (isNameChar_of_isNameStart hch)
  have hread : Lexeme.read ch (tail ++ rest) =
      .ok ⟨Token.Kind.ofName (String.ofList (ch :: tail)), tail.length⟩ := by
    simp only [Lexeme.read, hline, if_false, hch, if_true, takeWhile_isNameChar htail hends]
  have hpiece := lexeme hsep hcomment hread (ofName_ne_newline _)
  rwa [List.drop_left] at hpiece

/-- Whether a text is a word of name characters. -/
def isWord (name : String) : Bool :=
  match name.toList with
  | [] => false
  | ch :: tail => isNameStart ch && tail.all isNameChar

/-- A text that is a word. -/
lemma name {name : String} (h : isWord name = true) (hends : Ends rest) :
    Lexes (name.toList ++ rest) [Token.Kind.ofName name] rest := by
  unfold isWord at h
  cases hname : name.toList with
  | nil =>
    simp only [hname] at h
    cases h
  | cons ch tail =>
    simp only [hname, Bool.and_eq_true, List.all_eq_true] at h
    have hpiece := word h.1 h.2 hends
    rwa [← hname, String.ofList_toList] at hpiece

/-- A number literal. -/
lemma number {ch : Char} {tail : List Char} (hch : ch.isDigit = true)
    (hstart : isNameStart ch = false) (htail : ∀ ch ∈ tail, isNameChar ch = true)
    (hends : Ends rest) {value : Nat} {radix : Radix}
    (hnumber : Lexeme.number (ch :: tail) = .ok (value, radix)) :
    Lexes (ch :: (tail ++ rest)) [.number value radix] rest := by
  obtain ⟨hline, hsep, hcomment⟩ := plain_of_isNameChar (isNameChar_of_isDigit hch)
  have hread : Lexeme.read ch (tail ++ rest) = .ok ⟨.number value radix, tail.length⟩ := by
    simp only [Lexeme.read, hline, if_false, hstart, Bool.false_eq_true, hch, if_true,
      takeWhile_isNameChar htail hends, hnumber]
  have hpiece := lexeme hsep hcomment hread (by simp)
  rwa [List.drop_left] at hpiece

/-- A punctuation mark. -/
lemma punctuation (p : Punctuation) (cs : List Char) :
    Lexes (p.char :: cs) [.punctuation p] cs := by
  have hread : Lexeme.read p.char cs = .ok ⟨.punctuation p, 0⟩ := by cases p <;> rfl
  have hplain : isSeparator p.char = false ∧ p.char ≠ ';' := by cases p <;> decide
  exact lexeme hplain.1 hplain.2 hread (by simp)

/-! ## Numbers -/

/-- **A number in assembler notation** is read as the number modulo 65536. -/
lemma hexLiteral (width n : Nat) (hends : Ends rest) :
    Lexes ((Hex.literal width n).toList ++ rest) [.number (n % 0x10000) .hexadecimal] rest := by
  obtain ⟨c, cs, hliteral, hc, hdigits, hvalue⟩ := Hex.exists_literal width n
  have hstart : isNameStart c = false :=
    (hdigits c (by simp)).elim (P := fun c => c.isDigit = true → isNameStart c = false)
      (by decide) hc
  have hnumber := Lexeme.number_of_hex hdigits
  rw [hvalue, List.cons_append] at hnumber
  have htail : ∀ ch ∈ cs ++ ['H'], isNameChar ch = true := by
    intro ch hch
    rcases List.mem_append.1 hch with hch | hch
    · exact (hdigits ch (List.mem_cons_of_mem _ hch)).isNameChar
    · obtain rfl := List.mem_singleton.1 hch
      rfl
  rw [hliteral, List.cons_append]
  exact number hc hstart htail hends hnumber

/-- **A word in decimal** is read as itself. -/
lemma decimal {n : Nat} (hn : n < 0x10000) (hends : Ends rest) :
    Lexes ((toString n).toList ++ rest) [.number n .decimal] rest := by
  have hdigits : ∀ c ∈ Nat.toDigits 10 n, c.isDigit = true ∧ isNameStart c = false := by
    have hall : ∀ d < 10, (Nat.digitChar d).isDigit = true ∧ isNameStart d.digitChar = false := by
      decide
    intro c hc
    obtain ⟨d, hd, rfl⟩ := Radix.exists_of_mem_toDigits .decimal n c hc
    exact hall d hd
  have hlength : (Nat.toDigits 10 n).length ≤ 5 :=
    (Nat.length_toDigits_le_iff (by decide) (by decide)).2 (by omega)
  have hnumber := Lexeme.number_toDigits (Nat.le_trans hlength (by decide))
  have htext : (toString n).toList = Nat.toDigits 10 n := Nat.toList_repr
  rw [htext]
  cases hchars : Nat.toDigits 10 n with
  | nil => exact absurd hchars Nat.toDigits_ne_nil
  | cons c cs =>
    rw [hchars] at hdigits hnumber
    obtain ⟨⟨hc, hstart⟩, hcs⟩ := List.forall_mem_cons.1 hdigits
    rw [Nat.mod_eq_of_lt hn] at hnumber
    exact number hc hstart (fun d hd => isNameChar_of_isDigit (hcs d hd).1) hends hnumber

/-! ## The whole text -/

/-- **The tokens of a text** that is read to its end, with the end mark last. -/
lemma tokenize {source : String} (h : Lexes source.toList ks []) (file : String) :
    ∃ ts t, Asm8080.tokenize source file = .ok (ts ++ [t]) ∧ ts.map Token.kind = ks ∧
      t.kind = .eof := by
  obtain ⟨ts, c, hks, hc, hread⟩ := h file (Cursor.start source.toList) rfl
  refine ⟨ts, c.token file .eof, ?_, hks, rfl⟩
  rw [Asm8080.tokenize, Cursor.readAll, hread, Cursor.readAllFrom_nil hc, List.append_nil,
    List.reverse_reverse]

end Lexes

end Asm8080
