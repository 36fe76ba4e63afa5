import Asm8080.Expr.Evaluation
import Asm8080.Proofs.Fallible

/-!
# The meaning of an expression

Expressions denote 16-bit words. The meaning of an expression is given by 16-bit machine arithmetic
under an assignment of words to names; it is undefined if a name has no word, or if a divisor is
zero. Evaluation in a symbol table is shown to compute it, whatever the table holds besides the
names of the expression.

## Main definitions

* `Asm8080.Assignment` — words for some names, and `Asm8080.SymbolTable.assignment` — those of a
  symbol table.
* `Asm8080.BinaryOp.meaning`, `Asm8080.Expr.meaning` — the word that an operation or an expression
  denotes.

## Main results

* `Asm8080.Expr.toOption_evaluate` — evaluation in a symbol table computes the meaning of an
  expression under the assignment of the table.
* `Asm8080.Expr.meaning_congr` — the meaning depends only on the labels of the expression.
-/

set_option autoImplicit false

namespace Asm8080

/-- Words for some names. -/
abbrev Assignment := String → Option (BitVec 16)

/-- The word that an operation denotes. Shifts by sixteen or more leave nothing. -/
def BinaryOp.meaning (op : BinaryOp) (a b : BitVec 16) : Option (BitVec 16) :=
  match op with
  | add => some (a + b)
  | sub => some (a - b)
  | mul => some (a * b)
  | div => if b = 0 then none else some (a / b)
  | mod => if b = 0 then none else some (a % b)
  | shl => some (a <<< b)
  | shr => some (a >>> b)
  | and => some (a &&& b)
  | or => some (a ||| b)
  | xor => some (a ^^^ b)

/-- The word that an expression denotes in a statement at the address `here`. -/
def Expr.meaning (σ : Assignment) (here : BitVec 16) : Expr → Option (BitVec 16)
  | literal _ value => some (BitVec.ofInt 16 value)
  | char _ c => some (BitVec.ofNat 16 c.toNat)
  | label _ name => σ name
  | .here _ => some here
  | complement _ operand => (operand.meaning σ here).map (~~~ ·)
  | binary _ op left right =>
    (left.meaning σ here).bind fun a => (right.meaning σ here).bind fun b => op.meaning a b

/-! ## Words as numbers -/

/-- An integer modulo 65536 is the number of its 16-bit word. -/
lemma toNat_ofInt_sixteen (n : Int) : (BitVec.ofInt 16 n).toNat = Word.ofInt n := by
  rw [BitVec.toNat_ofInt]
  rfl

/-- A number modulo 65536 is the number of its 16-bit word. -/
lemma toNat_ofNat_sixteen (n : Nat) : (BitVec.ofNat 16 n).toNat = Word.ofInt n := by
  rw [BitVec.toNat_ofNat]
  unfold Word.ofInt Word.count
  omega

/-- A word below 65536 is the number of its 16-bit word. -/
lemma toNat_ofNat_of_lt {n : Nat} (h : n < Word.count) : (BitVec.ofNat 16 n).toNat = n := by
  rw [BitVec.toNat_ofNat]
  exact Nat.mod_eq_of_lt h

/-- A natural number below 65536 is unchanged modulo 65536. -/
lemma Word.ofInt_of_lt {n : Nat} (h : n < Word.count) : Word.ofInt n = n := by
  rw [← toNat_ofNat_sixteen, toNat_ofNat_of_lt h]

/-- Inverting the bits of a word subtracts it from 65535. -/
lemma toNat_not_sixteen (a : BitVec 16) : (~~~ a).toNat = Word.complement a.toNat := by
  rw [BitVec.toNat_not]
  rfl

namespace BinaryOp

/-- The sum of two words, as a number. -/
lemma toNat_add_sixteen (a b : BitVec 16) : (a + b).toNat = Word.ofInt (a.toNat + b.toNat) := by
  rw [BitVec.toNat_add]
  unfold Word.ofInt Word.count
  omega

/-- The difference of two words, as a number. -/
lemma toNat_sub_sixteen (a b : BitVec 16) :
    (a - b).toNat = Word.ofInt ((a.toNat : Int) - b.toNat) := by
  have ha := a.isLt
  have hb := b.isLt
  rw [BitVec.toNat_sub]
  unfold Word.ofInt Word.count
  omega

/-- The product of two words, as a number. -/
lemma toNat_mul_sixteen (a b : BitVec 16) : (a * b).toNat = Word.ofInt (a.toNat * b.toNat) := by
  rw [BitVec.toNat_mul, ← Int.natCast_mul]
  unfold Word.ofInt Word.count
  omega

/-- A shift to the left, as a number. -/
lemma toNat_shl_sixteen (a b : BitVec 16) :
    (a <<< b).toNat = if b.toNat < 16 then Word.ofInt (a.toNat <<< b.toNat) else 0 := by
  rw [BitVec.shiftLeft_eq', BitVec.toNat_shiftLeft]
  split_ifs with h
  · show _ = Word.ofInt ((a.toNat <<< b.toNat : Nat) : Int)
    unfold Word.ofInt Word.count
    omega
  · obtain ⟨k, hk⟩ : ∃ k, b.toNat = 16 + k := ⟨b.toNat - 16, by omega⟩
    rw [hk, Nat.shiftLeft_eq, Nat.pow_add, Nat.mul_left_comm]
    exact Nat.mul_mod_right _ _

/-- A shift to the right, as a number. -/
lemma toNat_shr_sixteen (a b : BitVec 16) :
    (a >>> b).toNat = if b.toNat < 16 then a.toNat >>> b.toNat else 0 := by
  rw [BitVec.ushiftRight_eq', BitVec.toNat_ushiftRight]
  split_ifs with h
  · rfl
  · have ha := a.isLt
    have hb : 2 ^ 16 ≤ 2 ^ b.toNat := Nat.pow_le_pow_right (by decide) (by omega)
    rw [Nat.shiftRight_eq_div_pow]
    exact Nat.div_eq_of_lt (Nat.lt_of_lt_of_le ha hb)

/-- A word is zero when its number is. -/
lemma eq_zero_iff_toNat (b : BitVec 16) : b = 0 ↔ b.toNat = 0 := by
  rw [← BitVec.toNat_inj]
  rfl

/-- **Applying an operator** to the numbers of two words gives the number of the word that the
operation denotes, or fails where it denotes none. -/
lemma toOption_apply (op : BinaryOp) (location : Location) (sourceLine : Option String)
    (a b : BitVec 16) :
    (op.apply location sourceLine a.toNat b.toNat).toOption =
      (op.meaning a b).map BitVec.toNat := by
  have hz := eq_zero_iff_toNat b
  cases op with
  | add => exact congrArg some (toNat_add_sixteen a b).symm
  | sub => exact congrArg some (toNat_sub_sixteen a b).symm
  | mul => exact congrArg some (toNat_mul_sixteen a b).symm
  | div =>
    by_cases h : b = 0
    · simp only [apply, meaning, h, if_true]
      rfl
    · simp only [apply, meaning, mt hz.2 h, h, if_false, Option.map_some, BitVec.toNat_udiv]
      rfl
  | mod =>
    by_cases h : b = 0
    · simp only [apply, meaning, h, if_true]
      rfl
    · simp only [apply, meaning, mt hz.2 h, h, if_false, Option.map_some, BitVec.toNat_umod]
      rfl
  | shl => exact congrArg some (toNat_shl_sixteen a b).symm
  | shr => exact congrArg some (toNat_shr_sixteen a b).symm
  | and => exact congrArg some (BitVec.toNat_and a b).symm
  | or => exact congrArg some (BitVec.toNat_or a b).symm
  | xor => exact congrArg some (BitVec.toNat_xor a b).symm

end BinaryOp

/-! ## Symbol tables as assignments -/

namespace SymbolTable

/-- The words of a symbol table. -/
def assignment (t : SymbolTable) : Assignment := fun name => (t.lookup name).map (BitVec.ofNat 16)

/-- Every name of the table is bound to a word. -/
def InRange (t : SymbolTable) : Prop := ∀ s ∈ t.symbols, s.value < Word.count

/-- What a table in range gives for a name is a word. -/
lemma InRange.lookup_lt {t : SymbolTable} (h : t.InRange) {name : String} {value : Nat}
    (hl : t.lookup name = some value) : value < Word.count := by
  obtain ⟨s, hs, rfl⟩ := Option.map_eq_some_iff.1 hl
  exact h s (List.mem_of_find?_eq_some hs)

/-- In a table in range, the assignment of a name carries its value. -/
lemma InRange.map_assignment {t : SymbolTable} (h : t.InRange) (name : String) :
    (t.assignment name).map BitVec.toNat = t.lookup name := by
  unfold assignment
  cases hl : t.lookup name with
  | none => rfl
  | some value => exact congrArg some (toNat_ofNat_of_lt (h.lookup_lt hl))

/-- A name is assigned a word exactly when it is bound. -/
lemma isSome_assignment (t : SymbolTable) (name : String) :
    (t.assignment name).isSome = t.contains name := by
  simp only [assignment, lookup, contains, Option.isSome_map]

/-- The table that binds no name is in range. -/
lemma inRange_empty : empty.InRange := by
  intro s hs
  exact absurd hs List.not_mem_nil

end SymbolTable

/-! ## Evaluation computes the meaning -/

namespace Expr

/-- **Evaluation computes the meaning**: in a table in range, an expression evaluates to the number
of the word that it denotes, and fails where it denotes none.

**Proof sketch.** Induction on the expression. A leaf gives its word directly. For an operation,
the operands evaluate to the numbers of their words by the induction hypotheses, and
`BinaryOp.toOption_apply` combines them. -/
lemma toOption_evaluate {t : SymbolTable} (h : t.InRange) (address : Int)
    (sourceLine : Option String) (e : Expr) :
    (e.evaluate t address sourceLine).toOption =
      (e.meaning t.assignment (BitVec.ofInt 16 address)).map BitVec.toNat := by
  induction e with
  | literal l value => exact congrArg some (toNat_ofInt_sixteen value).symm
  | char l c => exact congrArg some (toNat_ofNat_sixteen c.toNat).symm
  | label l name =>
    rw [meaning, h.map_assignment, evaluate, resolve]
    cases t.lookup name <;> rfl
  | here l => exact congrArg some (toNat_ofInt_sixteen address).symm
  | complement l operand ih =>
    rw [evaluate, toOption_bind, ih, meaning]
    cases operand.meaning t.assignment (BitVec.ofInt 16 address) with
    | none => rfl
    | some a => exact congrArg some (toNat_not_sixteen a).symm
  | binary l op left right ihl ihr =>
    rw [evaluate, toOption_bind, ihl, meaning]
    cases left.meaning t.assignment (BitVec.ofInt 16 address) with
    | none => rfl
    | some a =>
      rw [Option.map_some, Option.bind_some, Option.bind_some, toOption_bind, ihr]
      cases right.meaning t.assignment (BitVec.ofInt 16 address) with
      | none => rfl
      | some b => exact op.toOption_apply l sourceLine a b

/-- An expression evaluates to a number exactly when it denotes the word of that number. -/
lemma evaluate_eq_ok_iff {t : SymbolTable} (h : t.InRange) {address : Int}
    {sourceLine : Option String} {e : Expr} {value : Nat} :
    e.evaluate t address sourceLine = .ok value ↔
      ∃ v, e.meaning t.assignment (BitVec.ofInt 16 address) = some v ∧ v.toNat = value := by
  rw [eq_ok_iff_toOption, toOption_evaluate h, Option.map_eq_some_iff]

/-- The meaning of an expression depends only on the words of its labels. -/
lemma meaning_congr {σ τ : Assignment} {here : BitVec 16} {e : Expr}
    (h : ∀ name ∈ e.labels, σ name = τ name) : e.meaning σ here = e.meaning τ here := by
  induction e with
  | literal | char | here => rfl
  | label l name => exact h name (by simp [labels])
  | complement l operand ih => rw [meaning, meaning, ih h]
  | binary l op left right ihl ihr =>
    rw [meaning, meaning, ihl fun n hn => h n (List.mem_append_left _ hn),
      ihr fun n hn => h n (List.mem_append_right _ hn)]

end Expr

end Asm8080
