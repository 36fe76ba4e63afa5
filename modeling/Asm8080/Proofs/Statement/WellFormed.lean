import Asm8080.Proofs.Statement.Grammar

/-!
# Statements that come from source text

An instruction of the grammar carries a row of the instruction table that takes its operands, and
what is read from source text is a program of the grammar.

## Main definitions

* `Asm8080.Statement.WellFormed` — an instruction carries a row of the table that takes its
  operands.

## Main results

* `Asm8080.Program.forall_mem` — what holds of the statements of the grammar holds of a program.
* `Asm8080.Program.wellFormed` — every statement of a program is well formed.
* `Asm8080.Statement.wellFormed_of_readSource` — every statement of a source text is well formed.
-/

set_option autoImplicit false

namespace Asm8080

/-- An instruction carries a row of the instruction table that takes its operands. -/
def Statement.WellFormed (s : Statement) : Prop :=
  match s.action with
  | .instruction encoding operands => encoding ∈ Encoding.table ∧ encoding.Takes operands
  | .label _ | .origin _ | .data _ _ _ | .equate _ _ => True

/-- Whether an action places an instruction. -/
def Action.isInstruction : Action → Bool
  | instruction _ _ => true
  | label _ | origin _ | data _ _ _ | equate _ _ => false

/-- An action that places an instruction has a row and operands. -/
lemma Action.exists_of_isInstruction {a : Action} (h : a.isInstruction = true) :
    ∃ encoding operands, a = .instruction encoding operands := by
  cases a with
  | instruction encoding operands => exact ⟨encoding, operands, rfl⟩
  | label | origin | data | equate => cases h

/-! ## Statements of the grammar -/

section Grammar

variable {ctx : Statement.Context} {ts : List Token}

/-- A statement of the grammar is well formed. -/
lemma Statement.Derives.wellFormed {s : Statement} (h : s.Derives ctx ts) : s.WellFormed := by
  cases h with
  | instruction _ htable _ _ hform => exact ⟨htable, Encoding.takes_iff.2 hform⟩
  | origin | data | namedData | equate => trivial

/-- What holds of every statement of the grammar and of every label declaration holds of the
statements of a line. -/
lemma Line.Derives.forall_mem {P : Statement → Prop}
    (hstatement : ∀ {ts : List Token} {s : Statement}, s.Derives ctx ts → P s)
    (hlabel : ∀ t name, P (ctx.statement t (.label name))) {ss : List Statement}
    (h : Line.Derives ctx ts ss) : ∀ s ∈ ss, P s := by
  have hbody : ∀ {ts : List Token} {ss : List Statement}, Line.Body ctx ts ss →
      ∀ s ∈ ss, P s := by
    intro ts ss hss
    cases hss with
    | nil => exact fun s hs => absurd hs List.not_mem_nil
    | statement hs => exact List.forall_mem_singleton.2 (hstatement hs)
  cases h with
  | unlabelled hss => exact hbody hss
  | labelled _ _ hss => exact List.forall_mem_cons.2 ⟨hlabel _ _, hbody hss⟩

/-- **What holds of every statement of the grammar** and of every label declaration holds of the
statements of a program. -/
lemma Program.forall_mem {P : Statement → Prop}
    (hstatement : ∀ {ts : List Token} {s : Statement}, s.Derives ctx ts → P s)
    (hlabel : ∀ t name, P (ctx.statement t (.label name))) {ss : List Statement}
    (h : Program ctx ts ss) : ∀ s ∈ ss, P s := by
  induction h with
  | last hline _ => exact hline.forall_mem hstatement hlabel
  | cons hline _ _ ih =>
    exact List.forall_mem_append.2 ⟨hline.forall_mem hstatement hlabel, ih⟩

/-- The statements of a program are well formed. -/
lemma Program.wellFormed {ss : List Statement} (h : Program ctx ts ss) :
    ∀ s ∈ ss, s.WellFormed :=
  h.forall_mem Statement.Derives.wellFormed fun _ _ => trivial

end Grammar

/-! ## Statements of a source text -/

namespace Statement

/-- **The statements of a source text** are well formed. -/
lemma wellFormed_of_readSource {source file : String} {keepCase : Bool} {ss : List Statement}
    (h : readSource source file keepCase = .ok ss) : ∀ s ∈ ss, s.WellFormed := by
  obtain ⟨tokens, htokens, h⟩ := bind_eq_ok_iff.1 h
  exact ((Line.readAll_split_eq_ok_iff (endMarked_of_tokenize htokens) _).1 h).wellFormed

/-- The statements of a source text, or none if it cannot be read, are well formed. -/
lemma wellFormed_of_mem_readSource {source file : String} {keepCase : Bool} :
    ∀ s ∈ (readSource source file keepCase).toOption.getD [], s.WellFormed := by
  cases h : readSource source file keepCase with
  | error f => exact fun s hs => absurd hs List.not_mem_nil
  | ok ss => exact wellFormed_of_readSource h

end Statement

end Asm8080
