import Mathlib.Data.List.TakeWhile
import Asm8080.Text.Lines

/-!
# Two notions of a line

Places in a source text count line feeds only, and the text that is shown for a place is looked up
among the lines at all line breaks. The two agree as long as no line has another line break inside;
a carriage return before the line feed is no harm, since the two are one break. From the first line
on that has one, the text that is shown is a part of the line, and later a part of a line above.

## Main definitions

* `Asm8080.Text.feedLines` — the lines between line feeds.
* `Asm8080.Text.Plain` — a line without a line break, but for a carriage return at its end.
* `Asm8080.Text.pieces` — the parts of a line between the line breaks in it.
* `Asm8080.Text.Shown` — what is shown for a line: the line, a part of it, or a part of one above.

## Main results

* `Asm8080.Text.splitLinesFrom_append` — the lines at all breaks are the pieces of the lines between
  line feeds.
* `Asm8080.Text.exists_shown` — what is found among the lines at all breaks under the number of a
  line between line feeds.
-/

set_option autoImplicit false

namespace Asm8080.Text

/-! ## Lines between line feeds -/

/-- The lines between line feeds. -/
def feedLines (cs : List Char) : List (List Char) := cs.splitOn '\n'

/-- A text without a line feed is one line. -/
lemma feedLines_of_notMem {l : List Char} (h : '\n' ∉ l) : feedLines l = [l] :=
  List.splitOnP_eq_singleton fun _ hc => beq_false_of_ne (ne_of_mem_of_not_mem hc h)

/-- The line up to the first line feed comes first. -/
lemma feedLines_append {l : List Char} (h : '\n' ∉ l) (rest : List Char) :
    feedLines (l ++ '\n' :: rest) = l :: feedLines rest :=
  List.splitOnP_append_cons_of_forall_mem
    (fun _ hc => beq_false_of_ne (ne_of_mem_of_not_mem hc h)) '\n' rfl rest

/-- Induction on the lines of a text. -/
lemma feedLines_induction {P : List Char → Prop} (last : ∀ l, '\n' ∉ l → P l)
    (cons : ∀ l rest, '\n' ∉ l → P rest → P (l ++ '\n' :: rest)) (cs : List Char) : P cs := by
  induction hlength : cs.length using Nat.strongRecOn generalizing cs with
  | _ n ih =>
    by_cases h : '\n' ∈ cs
    · obtain ⟨l, rest, rfl, hl⟩ := List.eq_append_cons_of_mem h
      have hshorter : rest.length < n := by
        rw [← hlength, List.length_append, List.length_cons]
        omega
      exact cons l rest hl (ih _ hshorter rest rfl)
    · exact last cs h

/-- A character that is no line feed is on the line whose number is that of the line feeds before
it. -/
lemma exists_feedLine {c : Char} (hc : c ≠ '\n') (before after : List Char) :
    ∃ line, (feedLines (before ++ c :: after))[before.count '\n']? = some line ∧ line ≠ [] := by
  unfold feedLines List.splitOn
  induction before with
  | nil =>
    obtain ⟨first, lines, hlines⟩ := List.exists_cons_of_ne_nil
      (List.splitOnP_ne_nil (· == '\n') after)
    simp [List.splitOnP_cons_eq_if_modifyHead, hc, hlines]
  | cons d before ih =>
    obtain ⟨line, hline, hne⟩ := ih
    rw [List.cons_append, List.splitOnP_cons_eq_if_modifyHead]
    by_cases hd : d = '\n'
    · simp [hd, hline, hne]
    · simp only [beq_iff_eq, hd, if_false, List.count_cons_of_ne hd, List.getElem?_modifyHead,
        hline]
      split
      · exact ⟨d :: line, rfl, List.cons_ne_nil _ _⟩
      · exact ⟨line, rfl, hne⟩

/-! ## Pieces of a line -/

/-- A line less one carriage return at its end. -/
def dropReturn (line : List Char) : List Char :=
  if line.getLast? = some '\r' then line.dropLast else line

/-- A line without a line break, but for a carriage return at its end. -/
def Plain (line : List Char) : Prop := ∀ c ∈ dropReturn line, isLineBreak c = false

instance (line : List Char) : Decidable (Plain line) :=
  inferInstanceAs (Decidable (∀ c ∈ dropReturn line, isLineBreak c = false))

/-- The parts of a line between the line breaks in it. -/
def pieces (line : List Char) : List String :=
  ((dropReturn line).splitOnP isLineBreak).map String.ofList

/-- The part of a line before the first line break in it. -/
def beforeBreak (line : List Char) : List Char := line.takeWhile fun c => !isLineBreak c

/-- A character stays on a line, unless it is a carriage return at the end. -/
lemma dropReturn_cons {c : Char} {l : List Char} (h : c = '\r' → l ≠ []) :
    dropReturn (c :: l) = c :: dropReturn l := by
  cases l with
  | nil => simpa [dropReturn] using h
  | cons d l =>
    simp only [dropReturn, List.getLast?_cons_cons, List.dropLast_cons_cons]
    split <;> rfl

/-- What comes before the first line break of a text is on its first line. -/
lemma beforeBreak_append (l rest : List Char) :
    beforeBreak (l ++ '\n' :: rest) = beforeBreak l := by
  have hfeed : ('\n' :: rest).takeWhile (fun c => !isLineBreak c) = [] :=
    List.takeWhile_cons_of_neg (by decide)
  rw [beforeBreak, beforeBreak, List.takeWhile_append, hfeed]
  split_ifs with hlength
  · rw [List.append_nil, (List.takeWhile_prefix _).eq_of_length hlength]
  · rfl

/-- What a character adds to the lines, unless it is the first half of CR LF. -/
lemma splitLinesFrom_cons {c : Char} {cs : List Char} (h : c = '\r' → cs.head? ≠ some '\n')
    (line : List Char) :
    splitLinesFrom line (c :: cs) =
      if isLineBreak c then String.ofList line.reverse :: splitLinesFrom [] cs
      else splitLinesFrom (c :: line) cs := by
  rw [splitLinesFrom]
  rintro cs' rfl rfl
  exact h rfl rfl

/-- CR LF is one line break. -/
lemma splitLinesFrom_return (line rest : List Char) :
    splitLinesFrom line ('\r' :: '\n' :: rest) =
      String.ofList line.reverse :: splitLinesFrom [] rest := by
  rw [splitLinesFrom]

/-- **The line up to the first line feed comes first, in pieces.** The characters of `line` have
been read before. -/
lemma splitLinesFrom_append {l : List Char} (h : '\n' ∉ l) (line rest : List Char) :
    splitLinesFrom line (l ++ '\n' :: rest) =
      ((dropReturn l).splitOnPPrepend isLineBreak line).map String.ofList ++
        splitLinesFrom [] rest := by
  induction l generalizing line with
  | nil =>
    rw [List.nil_append, splitLinesFrom_cons (by simp)]
    rfl
  | cons c l ih =>
    have hl : '\n' ∉ l := fun hmem => h (List.mem_cons_of_mem c hmem)
    by_cases hend : c = '\r' ∧ l = []
    · obtain ⟨rfl, rfl⟩ := hend
      exact splitLinesFrom_return line rest
    · have hreturn : c = '\r' → l ≠ [] := fun hc hnil => hend ⟨hc, hnil⟩
      have hfeed : c = '\r' → (l ++ '\n' :: rest).head? ≠ some '\n' := by
        intro hc
        obtain ⟨d, l, rfl⟩ := List.exists_cons_of_ne_nil (hreturn hc)
        have hd : d ≠ '\n' := ne_of_mem_of_not_mem List.mem_cons_self hl
        simpa using hd
      rw [List.cons_append, splitLinesFrom_cons hfeed, dropReturn_cons hreturn,
        List.splitOnPPrepend_cons_eq_if, ih hl, ih hl]
      split <;> rfl

/-- The first line at any break is the part before the first one. -/
lemma head?_splitLinesFrom {line cs : List Char} (h : line ++ cs ≠ []) :
    (splitLinesFrom line cs).head? = some (String.ofList (line.reverse ++ beforeBreak cs)) := by
  induction cs generalizing line with
  | nil =>
    have hline : line ≠ [] := by simpa using h
    simp [splitLinesFrom, hline, beforeBreak]
  | cons c cs ih =>
    by_cases hend : c = '\r' ∧ cs.head? = some '\n'
    · obtain ⟨rfl, hhead⟩ := hend
      obtain ⟨rest, rfl⟩ := List.head?_eq_some_iff.1 hhead
      rw [splitLinesFrom_return]
      simp [beforeBreak, isLineBreak]
    · rw [splitLinesFrom_cons fun hc hhead => hend ⟨hc, hhead⟩]
      split_ifs with hc
      · simp [beforeBreak, hc]
      · rw [ih (by simp)]
        simp [beforeBreak, hc]

/-! ## What is shown for a line -/

/-- A plain line is what comes before its first line break. -/
lemma Plain.beforeBreak_eq {line : List Char} (h : Plain line) :
    beforeBreak line = dropReturn line := by
  have hall : ∀ c ∈ dropReturn line, (!isLineBreak c) = true := by simpa [Plain] using h
  unfold dropReturn at hall ⊢
  by_cases hreturn : line.getLast? = some '\r'
  · rw [if_pos hreturn] at hall ⊢
    obtain ⟨init, rfl⟩ := List.getLast?_eq_some_iff.1 hreturn
    rw [List.dropLast_concat] at hall ⊢
    rw [beforeBreak, List.takeWhile_append_of_pos hall, List.takeWhile_cons_of_neg (by decide),
      List.append_nil]
  · rw [if_neg hreturn] at hall ⊢
    exact List.takeWhile_eq_self_iff.2 hall

/-- What comes before the first line break of a line that is not plain is not the line. -/
lemma ofList_beforeBreak_ne {line : List Char} (h : ¬Plain line) :
    String.ofList (beforeBreak line) ≠ String.ofList (dropReturn line) := by
  intro heq
  have hsame : beforeBreak line = dropReturn line := String.ofList_injective heq
  refine h fun c hc => ?_
  have := List.mem_takeWhile_imp (hsame ▸ hc : c ∈ beforeBreak line)
  simpa using this

/-- A plain line is in one piece. -/
lemma Plain.pieces_eq {line : List Char} (h : Plain line) :
    pieces line = [String.ofList (dropReturn line)] := by
  rw [pieces, List.splitOnP_eq_singleton h, List.map_singleton]

/-- A line that is not plain is in two pieces or more. -/
lemma two_le_length_pieces {line : List Char} (h : ¬Plain line) : 2 ≤ (pieces line).length := by
  obtain ⟨c, hc, hbreak⟩ : ∃ c ∈ dropReturn line, isLineBreak c = true := by simpa [Plain] using h
  obtain ⟨xs, ys, hsplit, -⟩ := List.eq_append_cons_of_mem hc
  have hxs := List.length_pos_iff.2 (List.splitOnP_ne_nil isLineBreak xs)
  have hys := List.length_pos_iff.2 (List.splitOnP_ne_nil isLineBreak ys)
  rw [pieces, hsplit, List.splitOnP_append_cons _ _ hbreak, List.length_map, List.length_append]
  omega

/-- Every line is in one piece or more. -/
lemma length_pieces_pos (line : List Char) : 0 < (pieces line).length := by
  rw [pieces, List.length_map]
  exact List.length_pos_iff.2 (List.splitOnP_ne_nil _ _)

/-- **What is shown for the line with index `n`**, among the lines between line feeds. -/
inductive Shown (lines : List (List Char)) (n : Nat) : String → Prop
  /-- The line, if neither it nor a line above has a line break inside. -/
  | own {line : List Char} (hline : lines[n]? = some line)
      (hplain : ∀ k ≤ n, ∀ l ∈ lines[k]?, Plain l) : Shown lines n (String.ofList (dropReturn line))
  /-- The part before the first line break inside the line, if the lines above have none. -/
  | cut {line : List Char} (hline : lines[n]? = some line) (hbreak : ¬Plain line)
      (hplain : ∀ k < n, ∀ l ∈ lines[k]?, Plain l) :
      Shown lines n (String.ofList (beforeBreak line))
  /-- The piece with index `n` of the lines above, if one of these has a line break inside. -/
  | above {j : Nat} {broken : List Char} {text : String} (hn : n < lines.length)
      (hj : j < n) (hbroken : lines[j]? = some broken) (hbreak : ¬Plain broken)
      (htext : ((lines.take n).flatMap pieces)[n]? = some text) : Shown lines n text

/-- While the lines above are plain, what is shown for a line is the line exactly when it is plain
too. -/
lemma Shown.eq_iff_plain {lines : List (List Char)} {n : Nat} {text : String} {line : List Char}
    (h : Shown lines n text) (hline : lines[n]? = some line)
    (habove : ∀ k < n, ∀ l ∈ lines[k]?, Plain l) :
    text = String.ofList (dropReturn line) ↔ Plain line := by
  cases h with
  | own hown hplain =>
    cases hown.symm.trans hline
    exact iff_of_true rfl (hplain n (Nat.le_refl n) line hline)
  | cut hown hbreak =>
    cases hown.symm.trans hline
    exact iff_of_false (ofList_beforeBreak_ne hbreak) hbreak
  | above _ hj hbroken hbreak => exact absurd (habove _ hj _ hbroken) hbreak

/-- Lines are in at least as many pieces as there are lines. -/
lemma length_le_length_flatMap_pieces (lines : List (List Char)) :
    lines.length ≤ (lines.flatMap pieces).length := by
  induction lines with
  | nil => exact Nat.le_refl _
  | cons l lines ih =>
    have hpos := length_pieces_pos l
    rw [List.flatMap_cons, List.length_append, List.length_cons]
    omega

/-- Lines of which one has a line break inside are in more pieces than there are lines. -/
lemma length_lt_length_flatMap_pieces {lines : List (List Char)} {broken : List Char}
    (hmem : broken ∈ lines) (hbreak : ¬Plain broken) :
    lines.length < (lines.flatMap pieces).length := by
  induction lines with
  | nil => cases hmem
  | cons l lines ih =>
    rw [List.flatMap_cons, List.length_append, List.length_cons]
    rcases List.mem_cons.1 hmem with rfl | hmem
    · have htwo := two_le_length_pieces hbreak
      have hle := length_le_length_flatMap_pieces lines
      omega
    · have hpos := length_pieces_pos l
      have hlt := ih hmem
      omega

/-- **The pieces of the lines above a line** come first among the lines at all breaks. -/
lemma isPrefix_flatMap_pieces {cs : List Char} {n : Nat} (hn : n < (feedLines cs).length) :
    ((feedLines cs).take n).flatMap pieces <+: splitLinesFrom [] cs := by
  induction cs using feedLines_induction generalizing n with
  | last l hl =>
    obtain rfl : n = 0 := by
      rw [feedLines_of_notMem hl, List.length_singleton] at hn
      omega
    exact List.nil_prefix
  | cons l rest hl ih =>
    have hsplit : splitLinesFrom [] (l ++ '\n' :: rest) = pieces l ++ splitLinesFrom [] rest :=
      splitLinesFrom_append hl [] rest
    rw [feedLines_append hl] at hn ⊢
    cases n with
    | zero => exact List.nil_prefix
    | succ n =>
      rw [List.take_succ_cons, List.flatMap_cons, hsplit]
      exact (List.prefix_append_right_inj _).2 (ih (Nat.lt_of_succ_lt_succ hn))

/-- What is found under the number of the first line, if it has a character. -/
lemma splitLinesFrom_getElem?_zero {cs line : List Char} (hline : (feedLines cs)[0]? = some line)
    (hne : line ≠ []) : (splitLinesFrom [] cs)[0]? = some (String.ofList (beforeBreak line)) := by
  have hfirst : cs ≠ [] ∧ beforeBreak cs = beforeBreak line := by
    induction cs using feedLines_induction with
    | last l hl =>
      rw [feedLines_of_notMem hl] at hline
      cases hline
      exact ⟨hne, rfl⟩
    | cons l rest hl _ =>
      rw [feedLines_append hl] at hline
      cases hline
      exact ⟨by simp, beforeBreak_append _ rest⟩
  rw [← List.head?_eq_getElem?, head?_splitLinesFrom (by simpa using hfirst.1), hfirst.2]
  rfl

/-- What is found under the number of a line below plain lines, if it has a character: plain lines
shift nothing. -/
lemma splitLinesFrom_getElem?_of_plain {cs : List Char} {n : Nat} {line : List Char}
    (hline : (feedLines cs)[n]? = some line) (hne : line ≠ [])
    (hplain : ∀ k < n, ∀ l ∈ (feedLines cs)[k]?, Plain l) :
    (splitLinesFrom [] cs)[n]? = some (String.ofList (beforeBreak line)) := by
  induction cs using feedLines_induction generalizing n with
  | last l hl =>
    cases n with
    | zero => exact splitLinesFrom_getElem?_zero hline hne
    | succ n => simp [feedLines_of_notMem hl] at hline
  | cons l rest hl ih =>
    cases n with
    | zero => exact splitLinesFrom_getElem?_zero hline hne
    | succ n =>
      have hsplit : splitLinesFrom [] (l ++ '\n' :: rest) = pieces l ++ splitLinesFrom [] rest :=
        splitLinesFrom_append hl [] rest
      rw [feedLines_append hl] at hline hplain
      have hpieces := (hplain 0 (Nat.succ_pos n) l rfl).pieces_eq
      rw [hsplit, hpieces]
      exact ih hline fun k hk => hplain (k + 1) (Nat.succ_lt_succ hk)

/-- **What is found under the number of a line**, if the line has a character.

**Proof sketch.** Below plain lines it is what comes before the first line break, which is all of
the line if that is plain too. A line above that is not plain makes two lines or more at any break,
so that there are more pieces above than lines, and what is found is one of these pieces
(`isPrefix_flatMap_pieces`). -/
lemma exists_shown {cs : List Char} {n : Nat} {line : List Char}
    (hline : (feedLines cs)[n]? = some line) (hne : line ≠ []) :
    ∃ text, (splitLinesFrom [] cs)[n]? = some text ∧ Shown (feedLines cs) n text := by
  by_cases hplain : ∀ k < n, ∀ l ∈ (feedLines cs)[k]?, Plain l
  · refine ⟨_, splitLinesFrom_getElem?_of_plain hline hne hplain, ?_⟩
    by_cases hown : Plain line
    · rw [hown.beforeBreak_eq]
      refine .own hline fun k hk l hl => ?_
      rcases Nat.lt_or_eq_of_le hk with hk | rfl
      · exact hplain k hk l hl
      · cases hline.symm.trans hl
        exact hown
    · exact .cut hline hown hplain
  · simp only [not_forall] at hplain
    obtain ⟨j, hj, broken, hbroken, hbreak⟩ := hplain
    have hn : n < (feedLines cs).length := (List.getElem?_eq_some_iff.1 hline).1
    have hmem : broken ∈ (feedLines cs).take n := by
      refine List.mem_of_getElem? (i := j) ?_
      rwa [List.getElem?_take_of_lt hj]
    have hlength := length_lt_length_flatMap_pieces hmem hbreak
    rw [List.length_take, Nat.min_eq_left (Nat.le_of_lt hn)] at hlength
    exact ⟨_, List.prefix_iff_getElem?.1 (isPrefix_flatMap_pieces hn) n hlength,
      .above hn hj hbroken hbreak (List.getElem?_eq_getElem hlength)⟩

end Asm8080.Text
