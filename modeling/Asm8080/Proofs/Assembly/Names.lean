import Asm8080.Proofs.Assembly.LetterCase
import Asm8080.Proofs.Statement.Joining

/-!
# The names that a program can have

A name comes from an identifier of the source text, so it is a letter or an underscore, followed by
letters, digits and underscores, and it is no reserved word. Unless names keep their case, its
letters are in upper case. What is known of identifiers is carried through the grammar, tree by tree
and line by line, and from the statements into the symbol table.

## Main definitions

* `Asm8080.IsName` — the shape of a name.
* `Asm8080.LabelName` — the names that labels can have.
* `Asm8080.NamedBy` — a name is what an identifier among tokens is called.

## Main results

* `Asm8080.Divides.labelName` — identifiers of a source text give such names.
* `Asm8080.Program.namedBy` — every name in a program comes from an identifier among its tokens.
* `Asm8080.Statement.labelName_of_readSource` — every name in what is read is the name of a label.
* `Asm8080.Workbench.labelName_of_assemble` — so is every name in the symbol table.
-/

set_option autoImplicit false

namespace Asm8080

open Statement (Context)

/-! ## Names -/

/-- The shape of a name: a letter or an underscore, and then letters, digits and underscores. -/
def IsName (name : String) : Prop :=
  ∃ c tail, name.toList = c :: tail ∧ (c.isAlpha = true ∨ c = '_') ∧ ∀ d ∈ tail, IsWordChar d

/-- **The names that labels can have.** They have the shape of a name and are reserved in no letter
case. Unless names keep their case, they are in upper case. -/
structure LabelName (keepCase : Bool) (name : String) : Prop where
  shape : IsName name
  unreserved : Text.upper name ∉ reservedWords
  folded : keepCase = false → Text.upper name = name

/-- The characters of a name are name characters. -/
lemma IsName.isNameChar {name : String} (h : IsName name) :
    ∀ c ∈ name.toList, isNameChar c = true := by
  obtain ⟨c, tail, hname, hc, htail⟩ := h
  rw [hname]
  exact List.forall_mem_cons.2 ⟨Lexes.isNameChar_of_isNameStart (isNameStart_iff.2 hc),
    fun d hd => isNameChar_iff.2 (htail d hd)⟩

/-- A name in upper case has the shape of a name. -/
lemma IsName.upper {name : String} (h : IsName name) : IsName (Text.upper name) := by
  obtain ⟨c, tail, hname, hc, htail⟩ := h
  refine ⟨c.toUpper, tail.map Char.toUpper, ?_, ?_, ?_⟩
  · rw [Text.upper, String.toList_ofList, hname, List.map_cons]
  · rw [← isNameStart_iff, caseless_isNameStart.toUpper_eq]
    exact isNameStart_iff.2 hc
  · refine List.forall_mem_map.2 fun d hd => ?_
    rw [← isNameChar_iff, caseless_isNameChar.toUpper_eq]
    exact isNameChar_iff.2 (htail d hd)

/-- Letters that are in upper case stay as they are. -/
lemma Text.upper_upper (s : String) : Text.upper (Text.upper s) = Text.upper s := by
  have hupper : ∀ c : Char, c.toUpper.toUpper = c.toUpper := by
    intro c
    rcases toUpper_cases c with h | ⟨k, hk, rfl, hupper⟩
    · rw [h, h]
    · rw [hupper]
      exact (by decide : ∀ k < 26, (Char.ofNat (65 + k)).toUpper = Char.ofNat (65 + k)) k hk
  simp only [Text.upper, String.toList_ofList, List.map_map, Function.comp_def, hupper]

/-- What an identifier is called has the properties of a name. -/
lemma LabelName.of_identifier {name : String} (hname : IsName name)
    (hunreserved : Text.upper name ∉ reservedWords) (keepCase : Bool) :
    LabelName keepCase (if keepCase then name else Text.upper name) := by
  cases keepCase with
  | true => exact ⟨hname, hunreserved, by simp⟩
  | false =>
    refine ⟨hname.upper, ?_, fun _ => Text.upper_upper name⟩
    rw [if_neg (by decide), Text.upper_upper]
    exact hunreserved

/-- **The identifiers of a source text** have the shape of a name and are not reserved. -/
lemma Divides.labelName {cs rest : List Char} {fs : List Fragment} (h : Divides cs fs rest)
    (file : String) (before : List Char) (keepCase : Bool) :
    ∀ t ∈ Fragment.tokens file before fs, ∀ name, t.kind = .identifier name →
      LabelName keepCase (if keepCase then name else Text.upper name) := by
  induction h generalizing before with
  | nil => exact fun t ht => absurd ht List.not_mem_nil
  | @cons f cs rest fs hf _ ih =>
    refine List.forall_mem_append.2 ⟨fun t ht name hname => ?_, ih (before ++ f.chars)⟩
    obtain ⟨kind, hkind, rfl⟩ := Option.map_eq_some_iff.1 (Option.mem_toList.1 ht)
    obtain rfl : kind = .identifier name := hname
    cases hf with
    | @name c tail _ _ hc htail hnames =>
      cases hkind
      cases hnames with
      | identifier hunreserved =>
        exact .of_identifier ⟨c, tail, String.toList_ofList, hc, htail.word⟩ hunreserved keepCase
    | _ => cases hkind

/-! ## Names in the grammar -/

/-- A name is what one of the tokens, an identifier, is called. -/
def NamedBy (keepCase : Bool) (ts : List Token) (n : String) : Prop :=
  ∃ t ∈ ts, ∃ name, t.kind = .identifier name ∧ n = if keepCase then name else Text.upper name

/-- What is named by some tokens is named by more. -/
lemma NamedBy.mono {keepCase : Bool} {ts us : List Token} (h : ∀ t ∈ ts, t ∈ us) {n : String}
    (hn : NamedBy keepCase ts n) : NamedBy keepCase us n := by
  obtain ⟨t, ht, hname⟩ := hn
  exact ⟨t, h t ht, hname⟩

/-- The labels of operands that are joined from the left are those of the operands. -/
lemma Expr.mem_labels_foldl {steps : List Expr.Step} {e : Expr} {n : String}
    (h : n ∈ (steps.foldl Expr.Step.join e).labels) :
    n ∈ e.labels ∨ ∃ s ∈ steps, n ∈ s.operand.labels := by
  induction steps generalizing e with
  | nil => exact .inl h
  | cons s steps ih =>
    rcases ih h with hn | ⟨s', hs', hn⟩
    · rcases List.mem_append.1 hn with hn | hn
      · exact .inl hn
      · exact .inr ⟨s, List.mem_cons_self, hn⟩
    · exact .inr ⟨s', List.mem_cons_of_mem _ hs', hn⟩

/-- **The labels of an expression** come from identifiers among its tokens. -/
lemma Expr.Derives.namedBy {keepCase : Bool} {stratum : Expr.Stratum} {ts : List Token} {e : Expr}
    (h : Expr.Derives keepCase stratum ts e) : ∀ n ∈ e.labels, NamedBy keepCase ts n := by
  induction h with
  | @chain level ts e steps _ _ _ ihfirst ihsteps =>
    intro n hn
    rcases mem_labels_foldl hn with hn | ⟨s, hs, hn⟩
    · exact (ihfirst n hn).mono fun t ht => List.mem_append_left _ ht
    · refine (ihsteps s hs n hn).mono fun t ht => List.mem_append_right _ ?_
      exact List.mem_flatMap.2 ⟨s, hs, List.mem_cons_of_mem _ ht⟩
  | complement _ _ ih => exact fun n hn => (ih n hn).mono fun t ht => List.mem_cons_of_mem _ ht
  | plain _ ih => exact ih
  | number | char | here => exact fun n hn => absurd hn List.not_mem_nil
  | @label t name ht =>
    intro n hn
    exact ⟨t, List.mem_cons_self, name, ht, List.mem_singleton.1 hn⟩
  | parentheses _ _ _ ih =>
    exact fun n hn =>
      (ih n hn).mono fun t ht => List.mem_cons_of_mem _ (List.mem_append_left _ ht)

/-- The labels of an operand come from identifiers among its tokens. -/
lemma Operand.Derives.namedBy {keepCase : Bool} {ts : List Token} {e : Expr}
    (h : Derives keepCase ts (.expression e)) : ∀ n ∈ e.labels, NamedBy keepCase ts n := by
  cases h with
  | expression he => exact he.namedBy

/-- The labels of operands with commas before them come from identifiers among the tokens. -/
lemma Operand.Further.namedBy {keepCase : Bool} {ts : List Token} {os : List Operand}
    (h : Further keepCase ts os) :
    ∀ e, .expression e ∈ os → ∀ n ∈ e.labels, NamedBy keepCase ts n := by
  induction h with
  | nil => exact fun e he => absurd he List.not_mem_nil
  | @cons comma ts us o os _ ho _ ih =>
    intro e he n hn
    rcases List.mem_cons.1 he with rfl | he
    · exact (ho.namedBy n hn).mono fun t ht =>
        List.mem_cons_of_mem _ (List.mem_append_left _ ht)
    · exact (ih e he n hn).mono fun t ht => List.mem_cons_of_mem _ (List.mem_append_right _ ht)

/-- The labels of operands come from identifiers among the tokens. -/
lemma Operand.Listed.namedBy {keepCase : Bool} {ts : List Token} {os : List Operand}
    (h : Listed keepCase ts os) :
    ∀ e, .expression e ∈ os → ∀ n ∈ e.labels, NamedBy keepCase ts n := by
  cases h with
  | nil => exact fun e he => absurd he List.not_mem_nil
  | cons ho hos =>
    intro e he n hn
    rcases List.mem_cons.1 he with rfl | he
    · exact (ho.namedBy n hn).mono fun t ht => List.mem_append_left _ ht
    · exact (hos.namedBy e he n hn).mono fun t ht => List.mem_append_right _ ht

/-- A name in an action is bound by it, or is a label of one of its expressions. -/
lemma Action.mem_labelNames_cases {a : Action} {n : String} (h : n ∈ a.labelNames) :
    n ∈ a.names ∨ ∃ e ∈ a.expressions, n ∈ e.labels := by
  rcases List.mem_append.1 h with hn | hn
  · exact .inl hn
  · exact .inr (List.mem_flatMap.1 hn)

variable {ctx : Context}

/-- The names in a statement come from identifiers among its tokens. -/
lemma Statement.Derives.namedBy {ts : List Token} {s : Statement} (h : s.Derives ctx ts) :
    ∀ n ∈ s.action.labelNames, NamedBy ctx.keepCase ts n := by
  intro n hn
  cases h with
  | origin _ he | data _ he =>
    rcases Action.mem_labelNames_cases hn with hbound | ⟨e, hmem, hused⟩
    · exact absurd hbound List.not_mem_nil
    · rw [List.mem_singleton.1 hmem] at hused
      exact (he.namedBy n hused).mono fun t ht => List.mem_cons_of_mem _ ht
  | @namedData t directive name width ts e ht _ he | @equate t directive name ts e ht _ he =>
    rcases Action.mem_labelNames_cases hn with hbound | ⟨e, hmem, hused⟩
    · exact ⟨t, List.mem_cons_self, name, ht, List.mem_singleton.1 hbound⟩
    · rw [List.mem_singleton.1 hmem] at hused
      exact (he.namedBy n hused).mono fun t ht =>
        List.mem_cons_of_mem _ (List.mem_cons_of_mem _ ht)
  | instruction _ _ hoperands _ _ =>
    rcases Action.mem_labelNames_cases hn with hbound | ⟨e, hmem, hused⟩
    · exact absurd hbound List.not_mem_nil
    · obtain ⟨o, ho, hoe⟩ := List.mem_filterMap.1 hmem
      cases o with
      | register r => cases hoe
      | expression e' =>
        cases hoe
        exact (hoperands.namedBy e ho n hused).mono fun t ht => List.mem_cons_of_mem _ ht

/-- The names in the statements of a line come from identifiers among its tokens. -/
lemma Line.Derives.namedBy {ts : List Token} {ss : List Statement} (h : Line.Derives ctx ts ss) :
    ∀ n ∈ labelNames ss, NamedBy ctx.keepCase ts n := by
  have hbody : ∀ {ts : List Token} {ss : List Statement}, Line.Body ctx ts ss →
      ∀ n ∈ labelNames ss, NamedBy ctx.keepCase ts n := by
    intro ts ss hss n hn
    cases hss with
    | nil => exact absurd hn List.not_mem_nil
    | statement hs => exact hs.namedBy n (by simpa [labelNames] using hn)
  cases h with
  | unlabelled hss => exact hbody hss
  | @labelled t colon name ts ss ht _ hss =>
    intro n hn
    rcases List.mem_append.1 hn with hn | hn
    · exact ⟨t, List.mem_cons_self, name, ht, List.mem_singleton.1 hn⟩
    · exact (hbody hss n hn).mono fun t ht => List.mem_cons_of_mem _ (List.mem_cons_of_mem _ ht)

/-- **The names in a program** come from identifiers among its tokens. -/
lemma Program.namedBy {ts : List Token} {ss : List Statement} (h : Program ctx ts ss) :
    ∀ n ∈ labelNames ss, NamedBy ctx.keepCase ts n := by
  induction h with
  | last hline _ => exact fun n hn => (hline.namedBy n hn).mono fun t ht =>
      List.mem_append_left _ ht
  | cons hline _ _ ih =>
    intro n hn
    rw [labelNames, List.flatMap_append] at hn
    rcases List.mem_append.1 hn with hn | hn
    · exact (hline.namedBy n hn).mono fun t ht => List.mem_append_left _ ht
    · exact (ih n hn).mono fun t ht => List.mem_append_right _ (List.mem_cons_of_mem _ ht)

/-! ## Names in source text and in the symbol table -/

/-- **The names in what is read from a source text**, bound or used, are names of labels. -/
lemma Statement.labelName_of_readSource {source file : String} {keepCase : Bool}
    {ss : List Statement} (h : readSource source file keepCase = .ok ss) :
    ∀ n ∈ labelNames ss, LabelName keepCase n := by
  intro n hn
  obtain ⟨fs, hfs, hprogram⟩ := readSource_eq_ok_iff.1 h
  obtain ⟨t, ht, name, hname, rfl⟩ := hprogram.namedBy n hn
  rcases List.mem_append.1 ht with ht | ht
  · exact hfs.labelName file [] keepCase t ht name hname
  · obtain rfl := List.mem_singleton.1 ht
    cases hname

/-- The names of a table are those of its entries. -/
lemma SymbolTable.map_fst_toList (t : SymbolTable) : t.toList.map Prod.fst = t.names := by
  simp [toList, names]

namespace Workbench

variable {w : Workbench} {source file : String} {code : List UInt8}

/-- The symbols of an assembled program are those of the first pass. -/
lemma exists_layout_of_generate {ss : List Statement} (h : (w.generate ss).outcome = .ok code) :
    ∃ l, Layout.ofStatements ss = (l, none) ∧ (w.generate ss).workbench.symbols = l.symbols := by
  cases hblank : Image.blank? w.settings.fillByte with
  | error f =>
    simp only [generate, hblank] at h
    cases h
  | ok image =>
    rcases hl : Layout.ofStatements ss with ⟨l, _ | f⟩
    · refine ⟨l, rfl, ?_⟩
      simp only [generate, hblank, hl]
      split <;> rfl
    · simp only [generate, hblank, hl] at h
      cases h

/-- A successful assembly has read the text and assembled its statements. -/
lemma exists_read_of_assemble (h : (w.assemble source file).outcome = .ok code) :
    ∃ ss, Statement.readSource source file w.settings.keepCase = .ok ss ∧
      ({ w with statements := ss }.generate ss).outcome = .ok code ∧
      (w.assemble source file).workbench = ({ w with statements := ss }.generate ss).workbench := by
  cases hread : Statement.readSource source file w.settings.keepCase with
  | error f =>
    rw [assemble_of_unread hread] at h
    cases h
  | ok ss =>
    obtain ⟨houtcome, hworkbench⟩ := assemble_of_read hread
    exact ⟨ss, rfl, houtcome ▸ h, hworkbench⟩

/-- **The names in the symbol table** of an assembled program are names of labels. -/
lemma labelName_of_assemble (h : (w.assemble source file).outcome = .ok code) :
    ∀ p ∈ (w.assemble source file).workbench.symbols.toList,
      LabelName w.settings.keepCase p.1 := by
  obtain ⟨ss, hread, hcode, hworkbench⟩ := exists_read_of_assemble h
  obtain ⟨l, hl, hsymbols⟩ := exists_layout_of_generate hcode
  intro p hp
  have hname : p.1 ∈ l.symbols.names := by
    rw [hworkbench, hsymbols] at hp
    rw [← SymbolTable.map_fst_toList]
    exact List.mem_map_of_mem hp
  rw [Layout.names_of_run hl] at hname
  exact Statement.labelName_of_readSource hread p.1 (mem_labelNames_of_mem_boundNames hname)

end Workbench

end Asm8080
