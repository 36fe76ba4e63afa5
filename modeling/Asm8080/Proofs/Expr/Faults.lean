import Asm8080.Expr.Tree
import Asm8080.Proofs.Symbol.Table

/-!
# The first fault of an expression

Evaluation goes through an expression from left to right, operands before their operator. An
expression is at fault by itself if it is a label that is not bound, or a division whose right
operand denotes zero. If no part of an expression is at fault, it evaluates to the number of the
word that it denotes in 16-bit machine arithmetic; otherwise it fails with the diagnostic of the
first part that is.

This is shown for trees put together from parts, as long as every node has the parts that its kind
calls for. The code of a character may then be any integer, as the number of a literal may be.

## Main definitions

* `Asm8080.SymbolTable.Built` — the tables that result from binding names.
* `Asm8080.Expr.postorder` — the parts of an expression in the order in which they are evaluated.
* `Asm8080.Expr.fault?` — the diagnostic for an expression that is at fault by itself.
* `Asm8080.Expr.firstFault?` — that of the first part that is at fault.
* `Asm8080.Tree.Represents` — a tree has the parts of an expression.

## Main results

* `Asm8080.Expr.evaluate_of_firstFault?_eq_none`, `Asm8080.Expr.evaluate_of_firstFault?_eq_some` —
  evaluation without a fault, and with one.
* `Asm8080.Tree.evaluate_word_or_firstFault` — the same for trees, as one statement.
-/

set_option autoImplicit false

namespace Asm8080

/-! ## Tables -/

/-- The tables that result from binding names one after another. -/
inductive SymbolTable.Built : SymbolTable → Prop
  | empty : Built empty
  | define {t t' : SymbolTable} {name : String} {value : Int} {location : Option Location}
      {constant : Bool} {sourceLine : Option String} (ht : Built t)
      (h : t.define name value location constant sourceLine = .ok t') : Built t'

/-- Names are only ever bound to words. -/
lemma SymbolTable.Built.inRange {t : SymbolTable} (h : t.Built) : t.InRange := by
  induction h with
  | empty => exact inRange_empty
  | @define t _ name value location constant _ _ h ih =>
    obtain ⟨-, rfl⟩ := define_eq_ok_iff.1 h
    exact ih.append (List.forall_mem_singleton.2 (Word.ofInt_lt value))

/-! ## Faults -/

/-- An operation denotes a word unless it divides by zero. -/
lemma BinaryOp.isSome_meaning_iff {op : BinaryOp} {a b : BitVec 16} :
    (op.meaning a b).isSome = true ↔ ¬((op = .div ∨ op = .mod) ∧ b = 0) := by
  cases op with
  | div | mod => by_cases h : b = 0 <;> simp [meaning, h]
  | _ => simp [meaning]

/-- A division by zero fails. -/
lemma BinaryOp.apply_zero {op : BinaryOp} (h : op = .div ∨ op = .mod) (location : Location)
    (sourceLine : Option String) (a : Nat) :
    op.apply location sourceLine a 0 =
      .error (.diagnostic ⟨.divisionByZero op.symbol, some location, sourceLine⟩) := by
  rcases h with rfl | rfl <;> rfl

namespace Expr

/-- An expression and all its parts in the order in which they are evaluated: operands from left to
right, and every operation after its operands. -/
def postorder : Expr → List Expr
  | literal l value => [literal l value]
  | char l c => [char l c]
  | label l name => [label l name]
  | here l => [here l]
  | complement l operand => operand.postorder ++ [complement l operand]
  | binary l op left right => left.postorder ++ (right.postorder ++ [binary l op left right])

/-- The diagnostic for an expression that is at fault by itself: a label that the table does not
bind, or a division whose right operand denotes zero. -/
def fault? (t : SymbolTable) (here : BitVec 16) (sourceLine : Option String) :
    Expr → Option Diagnostic
  | label l name =>
    if name ∈ t.names then none
    else some ⟨.undefinedLabel name (.anywhere (t.similar name)), some l, sourceLine⟩
  | binary l op _ right =>
    if (op = .div ∨ op = .mod) ∧ right.meaning t.assignment here = some 0 then
      some ⟨.divisionByZero op.symbol, some l, sourceLine⟩
    else none
  | literal _ _ | char _ _ | .here _ | complement _ _ => none

/-- The diagnostic for the first part of an expression that is at fault by itself. -/
def firstFault? (t : SymbolTable) (here : BitVec 16) (sourceLine : Option String) (e : Expr) :
    Option Diagnostic :=
  e.postorder.findSome? (fault? t here sourceLine)

section

variable {t : SymbolTable} {here : BitVec 16} {sourceLine : Option String}

/-- A complement is not at fault by itself. -/
lemma firstFault?_complement (l : Location) (operand : Expr) :
    (complement l operand).firstFault? t here sourceLine =
      operand.firstFault? t here sourceLine := by
  simp [firstFault?, postorder, List.findSome?_append, fault?]

/-- The first fault of an operation is that of its left operand, or else of its right operand, or
else its own. -/
lemma firstFault?_binary (l : Location) (op : BinaryOp) (left right : Expr) :
    (binary l op left right).firstFault? t here sourceLine =
      (left.firstFault? t here sourceLine).or ((right.firstFault? t here sourceLine).or
        ((binary l op left right).fault? t here sourceLine)) := by
  simp [firstFault?, postorder, List.findSome?_append]

/-! ## Evaluation -/

variable {address : Int}

/-- **Without a fault**, an expression evaluates to the number of the word that it denotes.

**Proof sketch.** Induction on the expression. The operands of an operation have no fault, so they
denote words; the operation denotes one too, since it does not divide by zero. -/
lemma evaluate_of_firstFault?_eq_none (ht : t.InRange) {e : Expr}
    (h : e.firstFault? t (BitVec.ofInt 16 address) sourceLine = none) :
    ∃ w, e.meaning t.assignment (BitVec.ofInt 16 address) = some w ∧
      e.evaluate t address sourceLine = .ok w.toNat := by
  -- a word that is denoted is also what evaluation gives
  suffices hmeaning : ∃ w, e.meaning t.assignment (BitVec.ofInt 16 address) = some w by
    obtain ⟨w, hw⟩ := hmeaning
    exact ⟨w, hw, (evaluate_eq_ok_iff ht).2 ⟨w, hw, rfl⟩⟩
  induction e with
  | literal | char | here => exact ⟨_, rfl⟩
  | label l name =>
    have hbound : name ∈ t.names := by
      by_contra hname
      simp [firstFault?, postorder, fault?, hname] at h
    exact Option.isSome_iff_exists.1 (SymbolTable.isSome_assignment_iff.2 hbound)
  | complement l operand ih =>
    rw [firstFault?_complement] at h
    obtain ⟨w, hw⟩ := ih h
    exact ⟨~~~w, by rw [meaning, hw]; rfl⟩
  | binary l op left right ihl ihr =>
    rw [firstFault?_binary, Option.or_eq_none_iff, Option.or_eq_none_iff] at h
    obtain ⟨hleft, hright, hown⟩ := h
    obtain ⟨a, ha⟩ := ihl hleft
    obtain ⟨b, hb⟩ := ihr hright
    have hsome : (op.meaning a b).isSome = true := by
      rw [BinaryOp.isSome_meaning_iff]
      rintro ⟨hop, rfl⟩
      simp [fault?, hop, hb] at hown
    obtain ⟨w, hw⟩ := Option.isSome_iff_exists.1 hsome
    exact ⟨w, by rw [meaning, ha, hb]; exact hw⟩

/-- **With a fault**, evaluation fails with the diagnostic for the first part that is at fault.

**Proof sketch.** Induction on the expression. Evaluation of an operation fails where its left
operand does; if that has no fault, it fails where the right operand does; if neither has one, the
operation itself divides by zero. -/
lemma evaluate_of_firstFault?_eq_some (ht : t.InRange) {e : Expr} {d : Diagnostic}
    (h : e.firstFault? t (BitVec.ofInt 16 address) sourceLine = some d) :
    e.evaluate t address sourceLine = .error (.diagnostic d) := by
  induction e with
  | literal | char | here => cases h
  | label l name =>
    by_cases hname : name ∈ t.names
    · simp [firstFault?, postorder, fault?, hname] at h
    · have hlookup : t.lookup name = none := by
        simpa [SymbolTable.assignment] using SymbolTable.assignment_eq_none hname
      obtain rfl : _ = d := by simpa [firstFault?, postorder, fault?, hname] using h
      rw [evaluate, resolve, hlookup]
  | complement l operand ih =>
    rw [firstFault?_complement] at h
    rw [evaluate, ih h]
    rfl
  | binary l op left right ihl ihr =>
    rw [firstFault?_binary] at h
    rw [evaluate]
    cases hleft : left.firstFault? t (BitVec.ofInt 16 address) sourceLine with
    | some d' =>
      rw [hleft, Option.some_or] at h
      rw [ihl (hleft.trans h)]
      rfl
    | none =>
      obtain ⟨a, -, ha⟩ := evaluate_of_firstFault?_eq_none ht hleft
      rw [hleft, Option.none_or] at h
      rw [ha]
      cases hright : right.firstFault? t (BitVec.ofInt 16 address) sourceLine with
      | some d' =>
        rw [hright, Option.some_or] at h
        rw [ihr (hright.trans h)]
        rfl
      | none =>
        obtain ⟨b, hb, hvalue⟩ := evaluate_of_firstFault?_eq_none ht hright
        rw [hright, Option.none_or, fault?] at h
        rw [hvalue]
        split_ifs at h with hzero
        cases h
        obtain rfl : b = 0 := Option.some.inj (hb.symm.trans hzero.2)
        exact BinaryOp.apply_zero hzero.1 l sourceLine a.toNat

end

end Expr

/-! ## Trees -/

namespace Tree

/-- **A tree has the parts of an expression**: every node has the number, the name, the operator and
the children that its kind calls for, and nothing else. The code of a character is a number like any
other. -/
inductive Represents : Tree → Expr → Prop
  | literal {l : Location} {n : Int} :
      Represents (leaf .literal l (some (.number n))) (.literal l n)
  | code {l : Location} {n : Int} : Represents (leaf .char l (some (.number n))) (.literal l n)
  | char {l : Location} {c : Char} :
      Represents (leaf .char l (some (.number c.toNat))) (.char l c)
  | label {l : Location} {name : String} :
      Represents (leaf .label l (some (.name name))) (.label l name)
  | here {l : Location} : Represents (leaf .here l none) (.here l)
  | complement {l : Location} {operand : Tree} {e : Expr} (h : Represents operand e) :
      Represents (node ⟨.unary, l, none, some Expr.complementSymbol⟩ operand absent)
        (.complement l e)
  | binary {l : Location} {op : BinaryOp} {left right : Tree} {a b : Expr}
      (hleft : Represents left a) (hright : Represents right b) :
      Represents (node ⟨.binary, l, none, some op.symbol⟩ left right) (.binary l op a b)

/-- The tree of an expression has its parts. -/
lemma represents_ofExpr (e : Expr) : (ofExpr e).Represents e := by
  induction e with
  | literal => exact .literal
  | char => exact .char
  | label => exact .label
  | here => exact .here
  | complement _ _ ih => exact .complement ih
  | binary _ _ _ _ ihl ihr => exact .binary ihl ihr

/-- A tree has the value of the expression whose parts it has. -/
lemma Represents.evaluate_eq {tree : Tree} {e : Expr} (h : tree.Represents e) (t : SymbolTable)
    (address : Int) (sourceLine : Option String) :
    tree.evaluate t address sourceLine = e.evaluate t address sourceLine := by
  induction h with
  | literal | code | char | label | here => rfl
  | complement _ ih => simp only [evaluate, ih, Expr.evaluate]
  | binary _ _ ihl ihr =>
    simp only [evaluate, ihl, ihr, Expr.evaluate, applySymbol, Option.bind_some,
      BinaryOp.ofSymbol?_symbol]

/-- **Evaluation computes 16-bit machine arithmetic, or reports the first fault.** Let a tree have
the parts of an expression, and let a table result from binding names. If no part of the expression
is at fault, the tree evaluates to the number of the word that the expression denotes, where labels
stand for their words in the table and `$` for the address modulo 65536. Otherwise evaluation fails
with the diagnostic for the first part that is at fault, in the order in which operands come before
their operator.

**Proof sketch.** The tree is evaluated as the expression is (`Represents.evaluate_eq`). Either no
part is at fault (`Expr.evaluate_of_firstFault?_eq_none`), or a first one is
(`Expr.evaluate_of_firstFault?_eq_some`). -/
theorem evaluate_word_or_firstFault {tree : Tree} {e : Expr} (h : tree.Represents e)
    {t : SymbolTable} (ht : t.Built) (address : Int) (sourceLine : Option String) :
    tree.evaluate t address sourceLine = e.evaluate t address sourceLine ∧
    (∀ value, tree.evaluate t address sourceLine = .ok value ↔
      (∀ n ∈ e.postorder, n.fault? t (BitVec.ofInt 16 address) sourceLine = none) ∧
        ∃ w, e.meaning t.assignment (BitVec.ofInt 16 address) = some w ∧ w.toNat = value) ∧
    (∀ value, tree.evaluate t address sourceLine = .ok value → value ≤ 0xFFFF) ∧
    ∀ f, tree.evaluate t address sourceLine = .error f ↔
      ∃ before n after d, e.postorder = before ++ n :: after ∧
        (∀ m ∈ before, m.fault? t (BitVec.ofInt 16 address) sourceLine = none) ∧
        n.fault? t (BitVec.ofInt 16 address) sourceLine = some d ∧ f = .diagnostic d := by
  have hr := ht.inRange
  have hsome : ∀ d, e.firstFault? t (BitVec.ofInt 16 address) sourceLine = some d ↔
      ∃ before n after, e.postorder = before ++ n :: after ∧
        n.fault? t (BitVec.ofInt 16 address) sourceLine = some d ∧
        ∀ m ∈ before, m.fault? t (BitVec.ofInt 16 address) sourceLine = none :=
    fun d => List.findSome?_eq_some_iff
  have hnone : e.firstFault? t (BitVec.ofInt 16 address) sourceLine = none ↔
      ∀ n ∈ e.postorder, n.fault? t (BitVec.ofInt 16 address) sourceLine = none :=
    List.findSome?_eq_none_iff
  rw [h.evaluate_eq]
  refine ⟨rfl, fun value => ⟨fun hvalue => ⟨?_, (Expr.evaluate_eq_ok_iff hr).1 hvalue⟩, ?_⟩,
    fun value hvalue => ?_, fun f => ⟨fun hf => ?_, ?_⟩⟩
  · cases hfault : e.firstFault? t (BitVec.ofInt 16 address) sourceLine with
    | none => exact hnone.1 hfault
    | some d => cases hvalue.symm.trans (Expr.evaluate_of_firstFault?_eq_some hr hfault)
  · rintro ⟨-, hw⟩
    exact (Expr.evaluate_eq_ok_iff hr).2 hw
  · obtain ⟨w, -, rfl⟩ := (Expr.evaluate_eq_ok_iff hr).1 hvalue
    exact Nat.le_of_lt_succ w.isLt
  · cases hfault : e.firstFault? t (BitVec.ofInt 16 address) sourceLine with
    | none =>
      obtain ⟨w, -, hw⟩ := Expr.evaluate_of_firstFault?_eq_none hr hfault
      cases hf.symm.trans hw
    | some d =>
      obtain ⟨before, n, after, hsplit, hn, hbefore⟩ := (hsome d).1 hfault
      cases hf.symm.trans (Expr.evaluate_of_firstFault?_eq_some hr hfault)
      exact ⟨before, n, after, d, hsplit, hbefore, hn, rfl⟩
  · rintro ⟨before, n, after, d, hsplit, hbefore, hn, rfl⟩
    exact Expr.evaluate_of_firstFault?_eq_some hr
      ((hsome d).2 ⟨before, n, after, hsplit, hn, hbefore⟩)

/-- A table with one name. -/
def sampleTable : SymbolTable := ⟨[⟨"BASE", 0xF000, none, true⟩]⟩

/-- The difference of a label from itself. -/
def sampleDivisor : Expr :=
  .binary ⟨"sample.asm", 1, 8⟩ .sub (.label ⟨"sample.asm", 1, 4⟩ "BASE")
    (.label ⟨"sample.asm", 1, 10⟩ "BASE")

/-- An operation with two faults: its left operand divides by zero, its right operand is a label
that is not bound. -/
def sampleExpr : Expr :=
  .binary ⟨"sample.asm", 1, 16⟩ .add
    (.binary ⟨"sample.asm", 1, 3⟩ .div (.literal ⟨"sample.asm", 1, 1⟩ 0x10007) sampleDivisor)
    (.label ⟨"sample.asm", 1, 18⟩ "AWAY")

/-- The operation with two faults as a tree, with a code in the place of its literal. -/
def sampleTree : Tree :=
  node ⟨.binary, ⟨"sample.asm", 1, 16⟩, none, some "+"⟩
    (node ⟨.binary, ⟨"sample.asm", 1, 3⟩, none, some "/"⟩
      (leaf .char ⟨"sample.asm", 1, 1⟩ (some (.number 0x10007))) (ofExpr sampleDivisor))
    (leaf .label ⟨"sample.asm", 1, 18⟩ (some (.name "AWAY")))

/-- Of the two faults of the sample, the division comes first. -/
theorem evaluate_sampleTree :
    sampleTree.Represents sampleExpr ∧ sampleTable.Built ∧
      sampleTree.evaluate sampleTable 0x10000 none =
        .error (.diagnostic ⟨.divisionByZero "/", some ⟨"sample.asm", 1, 3⟩, none⟩) := by
  have htree : sampleTree.Represents sampleExpr :=
    @Represents.binary _ .add _ _ _ _
      (@Represents.binary _ .div _ _ _ _ .code (represents_ofExpr sampleDivisor)) .label
  have htable : SymbolTable.empty.define "BASE" (-0x1000) none true none = .ok sampleTable := by
    decide +kernel
  obtain ⟨-, -, -, hfails⟩ := evaluate_word_or_firstFault htree (.define .empty htable) 0x10000 none
  exact ⟨htree, .define .empty htable, (hfails _).2 ⟨sampleExpr.postorder.take 4, _,
    sampleExpr.postorder.drop 5, _, rfl, by decide +kernel, by decide +kernel, rfl⟩⟩

end Tree

end Asm8080
