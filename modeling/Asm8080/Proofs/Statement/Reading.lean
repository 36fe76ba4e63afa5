import Asm8080.Proofs.Statement.Grammar

/-!
# Reading lines of known tokens

What a line says depends on the kinds of its tokens, apart from the places in it. This module reads
the lines that a disassembler writes: an instruction or a directive, with operands that are
registers and number literals.

## Main definitions

* `Asm8080.Line.Reads` — tokens of certain kinds are those of a statement with a property.
* `Asm8080.Slot.Reads` — an operand is read in a slot with a value.

## Main results

* `Asm8080.Line.reads_instruction`, `Asm8080.Line.reads_data`, `Asm8080.Line.reads_origin` — the
  statements of the three sorts of lines.
* `Asm8080.Statement.exists_readSource` — the statements of a text that consists of such lines.
-/

set_option autoImplicit false

namespace Asm8080

/-! ## Operands -/

namespace Slot

/-- The kind of token in a slot of an instruction with a value. -/
def tokenKind (value : Nat) : Slot → Token.Kind
  | register r => .register r
  | .value .vector => .number value .decimal
  | .value .byte | .value .word => .number value .hexadecimal

/-- The operand that is read in a slot of an instruction with a value. -/
def Reads (value : Nat) : Slot → Operand → Prop
  | register r, o => o = .register r
  | .value _, o => ∃ l, o = .expression (.literal l (Word.ofInt value))

/-- The kinds of tokens in slots from position `index` on, with commas between positions. -/
def tokenKinds (value : Nat) : Nat → List Slot → List Token.Kind
  | _, [] => []
  | index, slot :: slots =>
    (if index = 0 then [] else [.punctuation .comma]) ++
      slot.tokenKind value :: tokenKinds value (index + 1) slots

end Slot

namespace Line

open Statement (Context)

variable {keepCase : Bool} {value : Nat}

/-- A number literal is an expression. -/
lemma derives_number {t : Token} {radix : Radix} (h : t.kind = .number value radix) :
    Expr.Derives keepCase (.binary .disjunction) [t] (.literal t.location (Word.ofInt value)) :=
  .of_atom (.number h)

/-- The token of a slot is that of the operand that is read in it. -/
lemma exists_operand {slot : Slot} {t : Token} (ht : t.kind = slot.tokenKind value) :
    ∃ o : Operand, o.Derives keepCase [t] ∧ slot.Reads value o := by
  cases slot with
  | register r => exact ⟨.register r, .register ht, rfl⟩
  | value kind =>
    obtain ⟨radix, hradix⟩ : ∃ radix, t.kind = .number value radix := by
      cases kind with
      | vector => exact ⟨_, ht⟩
      | byte | word => exact ⟨_, ht⟩
    exact ⟨_, .expression (derives_number hradix), t.location, rfl⟩

/-- The tokens of slots after the first one are those of operands with commas before them. -/
lemma exists_further {slots : List Slot} {index : Nat} (hindex : index ≠ 0) {ts : List Token}
    (hts : ts.map Token.kind = Slot.tokenKinds value index slots) :
    ∃ operands, Operand.Further keepCase ts operands ∧
      List.Forall₂ (Slot.Reads value) slots operands := by
  induction slots generalizing index ts with
  | nil =>
    obtain rfl := List.map_eq_nil_iff.1 hts
    exact ⟨[], .nil, .nil⟩
  | cons slot slots ih =>
    rw [Slot.tokenKinds, if_neg hindex, List.singleton_append] at hts
    obtain ⟨comma, ts, rfl, hcomma, hts⟩ := List.map_eq_cons_iff.1 hts
    obtain ⟨t, ts, rfl, ht, hts⟩ := List.map_eq_cons_iff.1 hts
    obtain ⟨o, ho, hreads⟩ := exists_operand ht
    obtain ⟨operands, hoperands, hall⟩ := ih (Nat.succ_ne_zero index) hts
    exact ⟨o :: operands, .cons hcomma ho hoperands, .cons hreads hall⟩

/-- **The tokens of slots** are those of operands with commas between them. -/
lemma exists_listed {slots : List Slot} {ts : List Token}
    (hts : ts.map Token.kind = Slot.tokenKinds value 0 slots) :
    ∃ operands, Operand.Listed keepCase ts operands ∧
      List.Forall₂ (Slot.Reads value) slots operands := by
  cases slots with
  | nil =>
    obtain rfl := List.map_eq_nil_iff.1 hts
    exact ⟨[], .nil, .nil⟩
  | cons slot slots =>
    obtain ⟨t, ts, rfl, ht, hts⟩ := List.map_eq_cons_iff.1 hts
    obtain ⟨o, ho, hreads⟩ := exists_operand ht
    obtain ⟨operands, hoperands, hall⟩ := exists_further (Nat.succ_ne_zero 0) hts
    exact ⟨o :: operands, .cons ho hoperands, .cons hreads hall⟩

/-- Operands that are read in slots have their form. -/
lemma fills_of_reads {slots : List Slot} {operands : List Operand}
    (h : List.Forall₂ (Slot.Reads value) slots operands) :
    List.Forall₂ Operand.Fills slots operands := by
  refine h.imp fun slot o ho => ?_
  cases slot with
  | register r =>
    obtain rfl : o = .register r := ho
    exact .register
  | value kind =>
    obtain ⟨l, rfl⟩ := ho
    exact .value

/-! ## Lines -/

/-- Tokens of the kinds `ks` are those of a statement, which has the property `P`. -/
def Reads (ks : List Token.Kind) (P : Statement → Prop) : Prop :=
  ∀ (ctx : Context) (ts : List Token), ts.map Token.kind = ks → ∃ s, s.Derives ctx ts ∧ P s

/-- **The line of an instruction** with the tokens of a row and a value is read as that row, with
the value as its operand. -/
lemma reads_instruction {e : Encoding} (h : e ∈ Encoding.table) (value : Nat) :
    Reads (.mnemonic e.mnemonic :: Slot.tokenKinds value 0 e.slots) fun s =>
      ∃ operands, s.action = .instruction e operands ∧
        List.Forall₂ (Slot.Reads value) e.slots operands := by
  intro ctx ts hts
  obtain ⟨t, ts, rfl, ht, hts⟩ := List.map_eq_cons_iff.1 hts
  obtain ⟨operands, hlisted, hreads⟩ := exists_listed hts
  have hcount : operands.length = Encoding.operandCount e.mnemonic := by
    rw [Encoding.operandCount_eq h, hreads.length_eq]
  exact ⟨_, .instruction ht h hlisted hcount (fills_of_reads hreads), operands, rfl, hreads⟩

/-- The line of a byte is read as data. -/
lemma reads_data (value : Nat) (radix : Radix) :
    Reads [.keyword .db, .number value radix] fun s =>
      ∃ l, s.action = .data none .byte (.literal l (Word.ofInt value)) := by
  intro ctx ts hts
  obtain ⟨t, ts, rfl, ht, hts⟩ := List.map_eq_cons_iff.1 hts
  obtain ⟨t', rfl, ht'⟩ := List.map_eq_singleton_iff.1 hts
  have ht : t.kind = .keyword (Width.directive .byte) := ht
  exact ⟨_, .data ht (derives_number ht'), t'.location, rfl⟩

/-- The line of an origin is read as one. -/
lemma reads_origin (value : Nat) (radix : Radix) :
    Reads [.keyword .org, .number value radix] fun s =>
      ∃ l, s.action = .origin (.literal l (Word.ofInt value)) := by
  intro ctx ts hts
  obtain ⟨t, ts, rfl, ht, hts⟩ := List.map_eq_cons_iff.1 hts
  obtain ⟨t', rfl, ht'⟩ := List.map_eq_singleton_iff.1 hts
  exact ⟨_, .origin ht (derives_number ht'), t'.location, rfl⟩

end Line

/-! ## Programs -/

namespace Statement

/-- **Tokens of lines that can be read**, each with a line end, and an end mark are a program with
one statement for each line. -/
lemma exists_program {kss : List (List Token.Kind)} {Ps : List (Statement → Prop)}
    (h : List.Forall₂ Line.Reads kss Ps) {ts : List Token}
    (hts : ts.map Token.kind = kss.flatMap fun ks => ks ++ [.newline]) {t : Token}
    (ht : t.kind = .eof) (ctx : Context) :
    ∃ ss, Program ctx (ts ++ [t]) ss ∧ List.Forall₂ (fun P s => P s) Ps ss := by
  induction h generalizing ts with
  | nil =>
    obtain rfl := List.map_eq_nil_iff.1 hts
    exact ⟨[], .last (.unlabelled .nil) ht, .nil⟩
  | @cons ks P kss Ps hks _ ih =>
    rw [List.flatMap_cons, List.append_assoc] at hts
    obtain ⟨first, tail, rfl, hfirst, htail⟩ := List.map_eq_append_iff.1 hts
    obtain ⟨newline, rest, rfl, hnewline, hrest⟩ := List.map_eq_cons_iff.1 htail
    obtain ⟨s, hs, hP⟩ := hks ctx first hfirst
    obtain ⟨ss, hss, hPs⟩ := ih hrest
    refine ⟨s :: ss, ?_, .cons hP hPs⟩
    rw [List.append_assoc, List.cons_append]
    exact .cons (.unlabelled (.statement hs)) hnewline hss

/-- **A text of lines that can be read** is read as one statement for each line. -/
lemma exists_readSource {kss : List (List Token.Kind)} {Ps : List (Statement → Prop)}
    (h : List.Forall₂ Line.Reads kss Ps) {source : String}
    (hsource : Lexes source.toList (kss.flatMap fun ks => ks ++ [.newline]) []) (file : String)
    (keepCase : Bool) :
    ∃ ss, readSource source file keepCase = .ok ss ∧ List.Forall₂ (fun P s => P s) Ps ss := by
  obtain ⟨ts, t, htokens, hts, ht⟩ := hsource.tokenize file
  obtain ⟨ss, hss, hPs⟩ := exists_program h hts ht (Context.ofSource (some source) keepCase)
  exact ⟨ss, bind_eq_ok_iff.2 ⟨_, htokens, Line.readAll_split_of_program hss _⟩, hPs⟩

end Statement

end Asm8080
