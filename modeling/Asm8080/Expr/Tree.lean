import Asm8080.Expr.Evaluation

/-!
# Trees put together from parts

An expression that was read from source text has the operands that its operators take. A tree that
was put together from parts may be anything: any node may have a value, an operator and two
children, or lack them. A node means what its kind says, and parts that its kind does not call for
have no meaning; still they are parts of the tree, and labels below them are labels of the tree.

Every expression is such a tree, with the same text and the same value.

## Main definitions

* `Asm8080.Tree` — trees, and `Asm8080.Tree.ofExpr` — the tree of an expression.
* `Asm8080.Tree.nodes` — the nodes of a tree, each before its children.
* `Asm8080.Tree.text`, `Asm8080.Tree.labels`, `Asm8080.Tree.evaluate` — as for expressions.

## Main results

* `Asm8080.Tree.text_ofExpr`, `Asm8080.Tree.labels_ofExpr`, `Asm8080.Tree.evaluate_ofExpr` — the
  tree of an expression has the text, the labels and the value of the expression.
-/

set_option autoImplicit false

namespace Asm8080

/-- The kinds of nodes. -/
inductive NodeKind where
  | literal | char | label | here | unary | binary
deriving DecidableEq

/-- What a node can hold: the number of a literal, the code of a character, the name of a label. -/
inductive NodeValue where
  | number (n : Int)
  | name (s : String)
deriving DecidableEq

/-- The shown form of what a node holds. -/
def NodeValue.text : NodeValue → String
  | number n => toString n
  | name s => s

/-- A node without its children. -/
structure Node where
  kind : NodeKind
  location : Location
  value : Option NodeValue
  operator : Option String
deriving DecidableEq

/-- Trees. A child may be missing. -/
inductive Tree where
  | absent
  | node (head : Node) (left right : Tree)
deriving DecidableEq, Inhabited

namespace Tree

/-! ## Trees of expressions -/

/-- A tree without children. -/
def leaf (kind : NodeKind) (location : Location) (value : Option NodeValue) : Tree :=
  node ⟨kind, location, value, none⟩ absent absent

/-- The tree of an expression. -/
def ofExpr : Expr → Tree
  | .literal l n => leaf .literal l (some (.number n))
  | .char l c => leaf .char l (some (.number c.toNat))
  | .label l name => leaf .label l (some (.name name))
  | .here l => leaf .here l none
  | .complement l e => node ⟨.unary, l, none, some Expr.complementSymbol⟩ (ofExpr e) absent
  | .binary l op a b => node ⟨.binary, l, none, some op.symbol⟩ (ofExpr a) (ofExpr b)

/-! ## Nodes and labels -/

/-- The nodes of a tree, each before its children. -/
def nodes : Tree → List Node
  | absent => []
  | node head left right => head :: (left.nodes ++ right.nodes)

/-- The labels that a tree names, from left to right. What is below a label is not looked at. -/
def labels : Tree → List String
  | absent => []
  | node head left right =>
    match head.kind, head.value with
    | .label, some (.name s) => [s]
    | .label, _ => []
    | _, _ => left.labels ++ right.labels

/-- The labels that a tree names, each once, sorted. -/
def labelSet (t : Tree) : List String :=
  t.labels.eraseDups.mergeSort (fun a b => decide (a ≤ b))

/-! ## Text -/

/-- The character with a code, in quotes. A code that is kept for pairs of units is escaped. -/
def charText (code : Int) : Except Failure String :=
  if 0 ≤ code ∧ code < 0x110000 then
    .ok (if 0xD800 ≤ code ∧ code < 0xE000 then
        String.ofList ('\'' :: Text.escapeCode code.toNat ++ ['\''])
      else Text.quoteChar (Char.ofNat code.toNat))
  else .error .codeOutOfRange

/-- What stands for a part that is missing. -/
def missingText : String := "None"

/-- A tree with every operation in parentheses. -/
def text : Tree → Except Failure String
  | absent => .ok missingText
  | node head left right =>
    match head.kind with
    | .literal | .label => .ok (head.value.elim missingText NodeValue.text)
    | .char =>
      match head.value with
      | some (.number code) => charText code
      | _ => .error .incompleteTree
    | .here => .ok "$"
    | .unary => do
      let operand ← left.text
      return "(" ++ head.operator.getD missingText ++ " " ++ operand ++ ")"
    | .binary => do
      let a ← left.text
      let b ← right.text
      return "(" ++ a ++ " " ++ head.operator.getD missingText ++ " " ++ b ++ ")"

/-! ## Value -/

/-- The value of the operation with a spelling on two words. -/
def applySymbol (symbol : Option String) (location : Location) (sourceLine : Option String)
    (left right : Nat) : Except Failure Nat :=
  match symbol.bind BinaryOp.ofSymbol? with
  | some op => op.apply location sourceLine left right
  | none => .error (.unknownOperator symbol)

/-- The value of a tree in a statement at the address `address`. Every operator with one operand is
the complement. -/
def evaluate (symbols : SymbolTable) (address : Int) (sourceLine : Option String) :
    Tree → Except Failure Nat
  | absent => .error .incompleteTree
  | node head left right =>
    match head.kind, head.value with
    | .literal, some (.number n) | .char, some (.number n) => .ok (Word.ofInt n)
    | .label, some (.name s) => Expr.resolve symbols sourceLine head.location s
    | .literal, _ | .char, _ | .label, _ => .error .incompleteTree
    | .here, _ => .ok (Word.ofInt address)
    | .unary, _ => do
      let value ← left.evaluate symbols address sourceLine
      return Word.complement value
    | .binary, _ => do
      let a ← left.evaluate symbols address sourceLine
      let b ← right.evaluate symbols address sourceLine
      applySymbol head.operator head.location sourceLine a b

/-! ## Expressions as trees -/

/-- The code of a character is shown as the character in quotes. -/
theorem charText_toNat (c : Char) : charText c.toNat = .ok (Text.quoteChar c) := by
  have valid := c.valid
  simp only [UInt32.isValidChar, Nat.isValidChar] at valid
  have bound : c.toNat < 0x110000 := by simp only [Char.toNat]; omega
  have gap : ¬(0xD800 ≤ c.toNat ∧ c.toNat < 0xE000) := by simp only [Char.toNat]; omega
  have inside : 0 ≤ (c.toNat : Int) ∧ (c.toNat : Int) < 0x110000 := by omega
  have outside : ¬(0xD800 ≤ (c.toNat : Int) ∧ (c.toNat : Int) < 0xE000) := by omega
  simp only [charText, inside, outside, and_self, if_true, if_false, Int.toNat_natCast,
    Char.ofNat_toNat]

/-- The tree of an expression has the text of the expression. -/
theorem text_ofExpr (e : Expr) : (ofExpr e).text = .ok e.text := by
  induction e with
  | literal | label | here => rfl
  | char l c => exact charText_toNat c
  | complement l e ih => simp only [ofExpr, text, ih, Expr.text]; rfl
  | binary l op a b iha ihb => simp only [ofExpr, text, iha, ihb, Expr.text]; rfl

/-- The tree of an expression names the labels of the expression. -/
theorem labels_ofExpr (e : Expr) : (ofExpr e).labels = e.labels := by
  induction e with
  | literal | char | label | here => rfl
  | complement l e ih => simp only [ofExpr, labels, ih, Expr.labels, List.append_nil]
  | binary l op a b iha ihb => simp only [ofExpr, labels, iha, ihb, Expr.labels]

/-- The tree of an expression has the value of the expression, or fails as it does. -/
theorem evaluate_ofExpr (symbols : SymbolTable) (address : Int) (sourceLine : Option String)
    (e : Expr) :
    (ofExpr e).evaluate symbols address sourceLine = e.evaluate symbols address sourceLine := by
  induction e with
  | literal | char | label | here => rfl
  | complement l e ih => simp only [ofExpr, evaluate, ih, Expr.evaluate]
  | binary l op a b iha ihb =>
    simp only [ofExpr, evaluate, iha, ihb, Expr.evaluate, applySymbol, Option.bind_some,
      BinaryOp.ofSymbol?_symbol]

end Tree

end Asm8080
