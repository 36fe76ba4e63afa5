import Mathlib.Tactic.Common
import Asm8080.Expr.Reading
import Asm8080.Token.Cursor

/-!
# The grammar of expressions

Expressions have a stratified grammar, from the loosest to the tightest stratum:

* disjunction: conjunction ((`OR` | `XOR`) conjunction)*
* conjunction: complement (`AND` complement)*
* complement: `NOT` complement | sum
* sum: product ((`+` | `-`) product)*
* product: atom ((`*` | `/` | `MOD` | `SHL` | `SHR`) atom)*
* atom: number | character | `$` | identifier | `(` disjunction `)`

where the operands of a binary stratum are joined from the left. The reader of expressions accepts
exactly this grammar. It takes the longest expression that there is, in the sense that no binary
operator follows it, and that makes its result the only one.

## Main definitions

* `Asm8080.Expr.Level.operators` — the operators of each binary stratum.
* `Asm8080.Expr.Derives` — the tokens of a stratum and the tree that they derive.
* `Asm8080.Expr.Begins` — a list of tokens begins with an expression that no operator continues.
* `Asm8080.Expr.StandsAt` — an expression stands between two positions of a token list.

## Main results

* `Asm8080.Expr.read_eq_ok_iff` — the reader takes the expression off the front of a token list.
* `Asm8080.Expr.readAt_eq_ok_iff_standsAt` — the same from any position of a token list, where the
  expression and its end are unique.
-/

set_option autoImplicit false

namespace Asm8080.Expr

/-! ## The grammar -/

/-- The strata of the grammar. -/
inductive Stratum where
  | binary (level : Level)
  | complement
  | atom
deriving DecidableEq

/-- The stratum of the operands of a level. -/
def Level.operand : Level → Stratum
  | disjunction => .binary .conjunction
  | conjunction => .complement
  | sum => .binary .product
  | product => .atom

/-- The binary operators of a level, with the tokens that stand for them. -/
def Level.operators : Level → List (Token.Kind × BinaryOp)
  | disjunction => [(.keyword .or, .or), (.keyword .xor, .xor)]
  | conjunction => [(.keyword .and, .and)]
  | sum => [(.punctuation .plus, .add), (.punctuation .minus, .sub)]
  | product =>
    [(.punctuation .star, .mul), (.punctuation .slash, .div), (.keyword .mod, .mod),
      (.keyword .shl, .shl), (.keyword .shr, .shr)]

/-- A token stands for a binary operator of some level. -/
def IsOperator (t : Token) : Prop :=
  ∃ (level : Level) (op : BinaryOp), (t.kind, op) ∈ level.operators

/-- A binary operator and the operand to its right. -/
structure Step where
  /-- The token of the operator. -/
  token : Token
  op : BinaryOp
  /-- The tokens of the operand. -/
  tokens : List Token
  operand : Expr

/-- The tokens of an operator and its right operand. -/
def Step.span (s : Step) : List Token := s.token :: s.tokens

/-- The operation on what stands to the left of an operator. -/
def Step.join (left : Expr) (s : Step) : Expr := .binary s.token.location s.op left s.operand

/-- **The grammar of expressions**: the tokens form an expression of a stratum with a tree, whose
nodes stand where their atoms and operators do. -/
inductive Derives (keepCase : Bool) : Stratum → List Token → Expr → Prop
  | chain {level : Level} {ts : List Token} {e : Expr} {steps : List Step}
      (first : Derives keepCase level.operand ts e)
      (operators : ∀ s ∈ steps, (s.token.kind, s.op) ∈ level.operators)
      (operands : ∀ s ∈ steps, Derives keepCase level.operand s.tokens s.operand) :
      Derives keepCase (.binary level) (ts ++ steps.flatMap Step.span) (steps.foldl Step.join e)
  | complement {t : Token} {ts : List Token} {e : Expr} (ht : t.kind = .keyword .not)
      (operand : Derives keepCase .complement ts e) :
      Derives keepCase .complement (t :: ts) (.complement t.location e)
  | plain {ts : List Token} {e : Expr} (operand : Derives keepCase (.binary .sum) ts e) :
      Derives keepCase .complement ts e
  | number {t : Token} {value : Nat} {radix : Radix} (ht : t.kind = .number value radix) :
      Derives keepCase .atom [t] (.literal t.location (Word.ofInt value))
  | char {t : Token} {c : Char} (ht : t.kind = .char c) :
      Derives keepCase .atom [t] (.char t.location c)
  | here {t : Token} (ht : t.kind = .punctuation .dollar) :
      Derives keepCase .atom [t] (.here t.location)
  | label {t : Token} {name : String} (ht : t.kind = .identifier name) :
      Derives keepCase .atom [t]
        (.label t.location (if keepCase then name else Text.upper name))
  | parentheses {t t' : Token} {ts : List Token} {e : Expr} (ht : t.kind = .punctuation .lparen)
      (inner : Derives keepCase (.binary .disjunction) ts e)
      (ht' : t'.kind = .punctuation .rparen) :
      Derives keepCase .atom (t :: (ts ++ [t'])) e

/-- An operand of a level is an expression of the level. -/
lemma Derives.of_operand {keepCase : Bool} {level : Level} {ts : List Token} {e : Expr}
    (h : Derives keepCase level.operand ts e) : Derives keepCase (.binary level) ts e := by
  have hchain := @Derives.chain keepCase level ts e [] h (by simp) (by simp)
  rwa [List.flatMap_nil, List.append_nil] at hchain

/-- An expression of a level is an expression. -/
lemma Derives.of_level {keepCase : Bool} {level : Level} {ts : List Token} {e : Expr}
    (h : Derives keepCase (.binary level) ts e) :
    Derives keepCase (.binary .disjunction) ts e := by
  have hconjunction : Derives keepCase (.binary .conjunction) ts e →
      Derives keepCase (.binary .disjunction) ts e := fun h => .of_operand h
  have hsum : Derives keepCase (.binary .sum) ts e →
      Derives keepCase (.binary .disjunction) ts e :=
    fun h => hconjunction (.of_operand (.plain h))
  cases level with
  | disjunction => exact h
  | conjunction => exact hconjunction h
  | sum => exact hsum h
  | product => exact hsum (.of_operand h)

/-- An atom is an operand of every level. -/
lemma Derives.operand_of_atom {keepCase : Bool} {ts : List Token} {e : Expr}
    (h : Derives keepCase .atom ts e) (level : Level) : Derives keepCase level.operand ts e := by
  have hproduct : Derives keepCase (.binary .product) ts e := .of_operand h
  have hcomplement : Derives keepCase .complement ts e := .plain (.of_operand hproduct)
  cases level with
  | disjunction => exact .of_operand hcomplement
  | conjunction => exact hcomplement
  | sum => exact hproduct
  | product => exact h

/-- An atom is an expression. -/
lemma Derives.of_atom {keepCase : Bool} {ts : List Token} {e : Expr}
    (h : Derives keepCase .atom ts e) : Derives keepCase (.binary .disjunction) ts e :=
  .of_operand (h.operand_of_atom .disjunction)

/-- The reader knows the operators of a level. -/
lemma Level.operator?_eq_some_iff {level : Level} {kind : Token.Kind} {op : BinaryOp} :
    level.operator? kind = some op ↔ (kind, op) ∈ level.operators := by
  constructor
  · intro h
    unfold operator? at h
    split at h <;> cases h <;> decide
  · intro h
    have hall : ∀ p ∈ level.operators, level.operator? p.1 = some p.2 := by
      cases level <;> decide
    exact hall (kind, op) h

/-- A token is no operator exactly when no level knows it as one. -/
lemma not_isOperator_iff {t : Token} :
    ¬IsOperator t ↔ ∀ level : Level, level.operator? t.kind = none := by
  simp only [IsOperator, ← Level.operator?_eq_some_iff, not_exists,
    Option.eq_none_iff_forall_ne_some]

/-! ## Where an expression ends -/

/-- The levels whose operators would continue an expression of a stratum. -/
def Stratum.levels : Stratum → List Level
  | binary .disjunction => [.disjunction, .conjunction, .sum, .product]
  | binary .conjunction => [.conjunction, .sum, .product]
  | binary .sum => [.sum, .product]
  | binary .product => [.product]
  | complement => [.sum, .product]
  | atom => []

/-- An expression of a stratum ends before the tokens `rest`: the next one does not continue it. -/
def Ends (stratum : Stratum) (rest : List Token) : Prop :=
  ∀ t ∈ rest.head?, ∀ level ∈ stratum.levels, level.operator? t.kind = none

/-- A list of tokens begins with an expression of a stratum that ends before the tokens `rest`. -/
def Begins (keepCase : Bool) (stratum : Stratum) (ts : List Token) (e : Expr) (rest : List Token) :
    Prop :=
  ∃ used, ts = used ++ rest ∧ Derives keepCase stratum used e ∧ Ends stratum rest

/-- Besides the operators of a level, those of its operands continue an expression. -/
lemma levels_binary (level : Level) :
    (Stratum.binary level).levels = level :: level.operand.levels := by
  cases level <;> rfl

/-- An expression of a level ends where an operand does and no operator of the level follows. -/
lemma ends_binary_cons {level : Level} {t : Token} {ts : List Token} :
    Ends (.binary level) (t :: ts) ↔
      level.operator? t.kind = none ∧ Ends level.operand (t :: ts) := by
  simp [Ends, levels_binary]

/-- An operand of a level ends where an expression of the level does. -/
lemma Ends.operand {level : Level} {rest : List Token} (h : Ends (.binary level) rest) :
    Ends level.operand rest := by
  intro t ht l hl
  exact h t ht l (by simp [levels_binary, hl])

/-- An operator of a level ends the operand before it. -/
lemma ends_operand_of_operator {level : Level} {t : Token} {op : BinaryOp}
    (h : (t.kind, op) ∈ level.operators) (ts : List Token) : Ends level.operand (t :: ts) := by
  have hlevels : ∀ p ∈ level.operators, ∀ l ∈ level.operand.levels, l.operator? p.1 = none := by
    cases level <;> decide
  simpa [Ends] using hlevels _ h

/-- A token that is no operator ends every expression. -/
lemma ends_of_operator?_eq_none {stratum : Stratum} {t : Token}
    (ht : ∀ level : Level, level.operator? t.kind = none) (rest : List Token) :
    Ends stratum (t :: rest) := by
  intro t' ht' level _
  obtain rfl := Option.some.inj ht'
  exact ht level

/-- Every expression ends before a closing parenthesis. -/
lemma ends_of_rparen {stratum : Stratum} {t : Token} (ht : t.kind = .punctuation .rparen)
    (rest : List Token) : Ends stratum (t :: rest) :=
  ends_of_operator?_eq_none (fun level => by rw [ht]; cases level <;> rfl) rest

/-- Every token ends an atom. -/
lemma ends_atom (rest : List Token) : Ends .atom rest :=
  fun _ _ _ hlevel => absurd hlevel List.not_mem_nil

/-! ## Rules -/

variable {n : Nat} {keepCase : Bool}

/-- A rule reads the expressions of a stratum: its results are the expressions that lists of tokens
begin with. -/
def Rule.Reads (keepCase : Bool) (stratum : Stratum) (rule : Rule n) : Prop :=
  ∀ (ts : List Token) (bound : ts.length ≤ n) (e : Expr) (rest : List Token),
    (∃ shorter, rule ts bound = .ok ⟨(e, rest), shorter⟩) ↔ Begins keepCase stratum ts e rest

/-- An operator of a level, and an operand of it. -/
def Step.Follows (keepCase : Bool) (level : Level) (s : Step) : Prop :=
  (s.token.kind, s.op) ∈ level.operators ∧ Derives keepCase level.operand s.tokens s.operand

section Level

variable {level : Level} {operand : Rule n} (hoperand : Rule.Reads keepCase level.operand operand)

/-- A step ends the operand before it, and so does what follows the last step. -/
lemma ends_operand_of_steps {steps : List Step} (hsteps : ∀ s ∈ steps, s.Follows keepCase level)
    {rest : List Token} (hrest : Ends (.binary level) rest) :
    Ends level.operand (steps.flatMap Step.span ++ rest) := by
  cases steps with
  | nil => exact hrest.operand
  | cons s steps => exact ends_operand_of_operator (hsteps s (by simp)).1 _

include hoperand in
/-- What is read after an operand consists of steps, which are joined from the left. -/
lemma exists_steps_of_readTail {left e : Expr} {ts rest : List Token} {bound : ts.length ≤ n}
    {le : rest.length ≤ ts.length} (hts : Ends level.operand ts)
    (h : readTail level operand left ts bound = .ok ⟨(e, rest), le⟩) :
    ∃ steps : List Step, (∀ s ∈ steps, s.Follows keepCase level) ∧
      ts = steps.flatMap Step.span ++ rest ∧ e = steps.foldl Step.join left ∧
      Ends (.binary level) rest := by
  fun_induction readTail level operand left ts bound with
  | case1 left bound =>
    cases h
    exact ⟨[], by simp, rfl, rfl, by simp [Ends]⟩
  | case2 left t ts bound hnone =>
    cases h
    exact ⟨[], by simp, rfl, rfl, ends_binary_cons.2 ⟨hnone, hts⟩⟩
  | case3 => cases h
  | case4 => cases h
  | case5 left t ts _ op hop right after shorter hright p le' htail _ ih =>
    cases h
    obtain ⟨used, rfl, hused, hafter⟩ := (hoperand _ _ _ _).1 ⟨shorter, hright⟩
    obtain ⟨steps, hsteps, rfl, rfl, hrest⟩ := ih hafter htail
    have hfirst : Step.Follows keepCase level ⟨t, op, used, right⟩ :=
      ⟨Level.operator?_eq_some_iff.1 hop, hused⟩
    exact ⟨⟨t, op, used, right⟩ :: steps, List.forall_mem_cons.2 ⟨hfirst, hsteps⟩,
      by simp [Step.span], rfl, hrest⟩

include hoperand in
/-- Steps after an operand are read to their end. -/
lemma exists_readTail {steps : List Step} (hsteps : ∀ s ∈ steps, s.Follows keepCase level)
    (left : Expr) {ts rest : List Token} (hts : ts = steps.flatMap Step.span ++ rest)
    (hrest : Ends (.binary level) rest) (bound : ts.length ≤ n) :
    ∃ le, readTail level operand left ts bound =
      .ok ⟨(steps.foldl Step.join left, rest), le⟩ := by
  induction steps generalizing left ts with
  | nil =>
    obtain rfl : ts = rest := hts
    refine ⟨Nat.le_refl _, ?_⟩
    cases ts with
    | nil => rw [readTail, List.foldl_nil]
    | cons t ts =>
      rw [readTail]
      simp only [(ends_binary_cons.1 hrest).1, List.foldl_nil]
  | cons s steps ih =>
    obtain ⟨⟨hop, hs⟩, hsteps⟩ := List.forall_mem_cons.1 hsteps
    obtain rfl : ts = s.token :: (s.tokens ++ (steps.flatMap Step.span ++ rest)) := by
      simpa [Step.span] using hts
    obtain ⟨shorter, hright⟩ := (hoperand _ (Nat.le_of_succ_le bound) _ _).2
      ⟨s.tokens, rfl, hs, ends_operand_of_steps hsteps hrest⟩
    obtain ⟨le, htail⟩ := ih hsteps (s.join left) rfl
      (Nat.le_trans (Nat.le_of_lt shorter) (Nat.le_of_succ_le bound))
    refine ⟨Nat.le_succ_of_le (Nat.le_trans le (Nat.le_of_lt shorter)), ?_⟩
    rw [Step.join] at htail
    rw [readTail]
    simp only [Level.operator?_eq_some_iff.2 hop, hright, htail]
    rfl

include hoperand in
/-- **A binary rule reads a binary stratum.** -/
lemma reads_binaryRule : Rule.Reads keepCase (.binary level) (binaryRule level operand) := by
  intro ts bound e rest
  constructor
  · rintro ⟨shorter, h⟩
    rcases hleft : operand ts bound with stuck | ⟨⟨left, after⟩, hshorter⟩
    · simp only [binaryRule, hleft] at h
      cases h
    · obtain ⟨used, rfl, hused, hafter⟩ := (hoperand _ _ _ _).1 ⟨_, hleft⟩
      rcases htail : readTail level operand left after
        (Nat.le_trans (Nat.le_of_lt hshorter) bound) with stuck | ⟨p, le⟩
      · simp only [binaryRule, hleft, htail] at h
        cases h
      · simp only [binaryRule, hleft, htail] at h
        cases h
        obtain ⟨steps, hsteps, rfl, rfl, hrest⟩ :=
          exists_steps_of_readTail hoperand hafter htail
        refine ⟨used ++ steps.flatMap Step.span, by simp, ?_, hrest⟩
        exact .chain hused (fun s hs => (hsteps s hs).1) (fun s hs => (hsteps s hs).2)
  · rintro ⟨used, hts, hused, hrest⟩
    cases hused with
    | @chain _ first left steps hfirst hops hoperands =>
      have hsteps : ∀ s ∈ steps, s.Follows keepCase level := fun s hs => ⟨hops s hs, hoperands s hs⟩
      rw [List.append_assoc] at hts
      obtain ⟨shorter, hleft⟩ := (hoperand ts bound _ _).2
        ⟨first, hts, hfirst, ends_operand_of_steps hsteps hrest⟩
      obtain ⟨le, htail⟩ := exists_readTail hoperand hsteps left rfl hrest
        (Nat.le_trans (Nat.le_of_lt shorter) bound)
      refine ⟨Nat.lt_of_le_of_lt le shorter, ?_⟩
      simp only [binaryRule, hleft, htail]

end Level

/-- Whether an expression of a stratum can begin with a complement. -/
def Stratum.beginsWithNot : Stratum → Bool
  | binary .disjunction | binary .conjunction | complement => true
  | binary .sum | binary .product | atom => false

/-- An expression has a first token, which is one that can begin an expression. -/
lemma Derives.exists_cons {stratum : Stratum} {ts : List Token} {e : Expr}
    (h : Derives keepCase stratum ts e) :
    ∃ t us, ts = t :: us ∧ t.kind.startsExpression = true ∧
      (t.kind = .keyword .not → stratum.beginsWithNot = true) := by
  induction h with
  | @chain level _ _ steps _ _ _ ih _ =>
    obtain ⟨t, us, rfl, hstarts, hnot⟩ := ih
    refine ⟨t, us ++ steps.flatMap Step.span, rfl, hstarts, fun ht => ?_⟩
    cases level with
    | disjunction | conjunction => rfl
    | sum | product => exact hnot ht
  | complement ht => exact ⟨_, _, rfl, by rw [ht]; rfl, fun _ => rfl⟩
  | plain _ ih =>
    obtain ⟨t, us, rfl, hstarts, -⟩ := ih
    exact ⟨t, us, rfl, hstarts, fun _ => rfl⟩
  | number ht | char ht | here ht | label ht =>
    exact ⟨_, _, rfl, by rw [ht]; rfl, fun hnot => by rw [ht] at hnot; cases hnot⟩
  | parentheses ht =>
    exact ⟨_, _, rfl, by rw [ht]; rfl, fun hnot => by rw [ht] at hnot; cases hnot⟩

/-- No operator is a line end. -/
lemma isLineEnd_of_mem_operators {level : Level} {kind : Token.Kind} {op : BinaryOp}
    (h : (kind, op) ∈ level.operators) : kind.isLineEnd = false := by
  have hall : ∀ p ∈ level.operators, p.1.isLineEnd = false := by cases level <;> decide
  exact hall (kind, op) h

/-- An expression extends over no line end. -/
lemma Derives.isLineEnd_eq_false {stratum : Stratum} {ts : List Token} {e : Expr}
    (h : Derives keepCase stratum ts e) : ∀ t ∈ ts, t.kind.isLineEnd = false := by
  induction h with
  | chain _ operators _ ihFirst ihOperands =>
    refine List.forall_mem_append.2 ⟨ihFirst, fun t ht => ?_⟩
    obtain ⟨s, hs, ht⟩ := List.mem_flatMap.1 ht
    rcases List.mem_cons.1 ht with rfl | ht
    · exact isLineEnd_of_mem_operators (operators s hs)
    · exact ihOperands s hs t ht
  | complement ht _ ih => exact List.forall_mem_cons.2 ⟨by rw [ht]; rfl, ih⟩
  | plain _ ih => exact ih
  | number ht | char ht | here ht | label ht => exact List.forall_mem_singleton.2 (by rw [ht]; rfl)
  | parentheses ht _ ht' ih =>
    refine List.forall_mem_cons.2 ⟨by rw [ht]; rfl, List.forall_mem_append.2 ⟨ih, ?_⟩⟩
    exact List.forall_mem_singleton.2 (by rw [ht']; rfl)

/-- **The rule for complements reads their stratum**, given one that reads sums.

**Proof sketch.** Induction on the list. After `NOT` both the rule and the grammar go on with a
complement, and no sum begins with that word. Any other token is left to the rule for sums, and the
grammar has a plain sum there too. -/
lemma reads_complementRule {operand : Rule n}
    (hoperand : Rule.Reads keepCase (.binary .sum) operand) :
    Rule.Reads keepCase .complement (complementRule operand) := by
  intro ts
  induction ts with
  | nil =>
    intro bound e rest
    refine ⟨fun ⟨shorter, _⟩ => absurd shorter (Nat.not_lt_zero _), ?_⟩
    rintro ⟨used, hts, hused, -⟩
    obtain ⟨t, us, rfl, -⟩ := hused.exists_cons
    cases hts
  | cons t ts ih =>
    intro bound e rest
    by_cases hnot : t.kind = .keyword .not
    · constructor
      · rintro ⟨shorter, h⟩
        rcases hread : complementRule operand ts (Nat.le_of_succ_le bound) with
          stuck | ⟨⟨e', after⟩, hshorter⟩
        · simp only [complementRule, hnot, if_true, hread] at h
          cases h
        · simp only [complementRule, hnot, if_true, hread] at h
          cases h
          obtain ⟨used, rfl, hused, hends⟩ := (ih _ _ _).1 ⟨_, hread⟩
          exact ⟨t :: used, rfl, .complement hnot hused, hends⟩
      · rintro ⟨used, hts, hused, hends⟩
        cases hused with
        | complement ht hused =>
          obtain ⟨rfl, rfl⟩ := List.cons.inj hts
          obtain ⟨shorter, hread⟩ := (ih (Nat.le_of_succ_le bound) _ _).2 ⟨_, rfl, hused, hends⟩
          refine ⟨Nat.lt_succ_of_lt shorter, ?_⟩
          simp only [complementRule, hnot, if_true, hread]
        | plain hused =>
          -- a sum does not begin with a complement
          obtain ⟨t', us, rfl, -, hsum⟩ := hused.exists_cons
          obtain ⟨rfl, -⟩ := List.cons.inj hts
          cases hsum hnot
    · have hself : complementRule operand (t :: ts) bound = operand (t :: ts) bound := by
        simp only [complementRule, hnot, if_false]
      rw [hself, hoperand]
      refine exists_congr fun used => and_congr_right fun hts => and_congr_left fun _ => ?_
      refine ⟨.plain, fun hused => ?_⟩
      cases hused with
      | complement ht _ =>
        obtain ⟨rfl, -⟩ := List.cons.inj hts
        exact absurd ht hnot
      | plain hused => exact hused

/-! ## Expressions -/

section Inner

variable {ctx : Context} {inner : (ts : List Token) → ts.length < n → Except Stuck (Prefixed ts)}
  (hinner : ∀ (ts : List Token) (bound : ts.length < n) (e : Expr) (rest : List Token),
    (∃ shorter, inner ts bound = .ok ⟨(e, rest), shorter⟩) ↔
      Begins ctx.keepCase (.binary .disjunction) ts e rest)

include hinner in
/-- **The rule for atoms reads their stratum**, given what reads expressions in parentheses.

**Proof sketch.** What the rule reads is in the stratum by the kind of the first token: a number, a
character, a name or `$` is an atom by itself, an opening parenthesis is followed by what `inner`
reads and by a closing one, and any other token is refused. The other way, each atom of the grammar
names the branch of the rule that reads it; in parentheses, `inner` stops at the closing one since
no expression goes on with it. -/
lemma reads_atomRule : Rule.Reads ctx.keepCase .atom (atomRule ctx inner) := by
  intro ts bound e rest
  constructor
  · rintro ⟨shorter, h⟩
    cases ts with
    | nil => exact absurd shorter (Nat.not_lt_zero _)
    | cons t ts =>
      have hends := ends_atom rest
      cases hkind : t.kind with
      | number value radix =>
        simp only [atomRule, hkind] at h
        cases h
        exact ⟨[t], rfl, .number hkind, hends⟩
      | char c =>
        simp only [atomRule, hkind] at h
        cases h
        exact ⟨[t], rfl, .char hkind, hends⟩
      | identifier name =>
        simp only [atomRule, hkind] at h
        cases h
        exact ⟨[t], rfl, .label hkind, hends⟩
      | punctuation p =>
        cases p with
        | dollar =>
          simp only [atomRule, hkind] at h
          cases h
          exact ⟨[t], rfl, .here hkind, hends⟩
        | lparen =>
          rcases hread : inner ts bound with stuck | ⟨⟨e', _ | ⟨t', after⟩⟩, hshorter⟩
          · simp only [atomRule, hkind, hread] at h
            cases h
          · simp only [atomRule, hkind, hread] at h
            cases h
          · simp only [atomRule, hkind, hread] at h
            split_ifs at h with hclose
            cases h
            obtain ⟨used, rfl, hused, -⟩ := (hinner _ _ _ _).1 ⟨_, hread⟩
            exact ⟨t :: (used ++ [t']), by simp, .parentheses hkind hused hclose, hends⟩
        | _ =>
          simp only [atomRule, hkind] at h
          cases h
      | _ =>
        simp only [atomRule, hkind] at h
        cases h
  · rintro ⟨used, hts, hused, -⟩
    cases hused with
    | number ht | char ht | here ht | label ht =>
      obtain rfl : ts = _ :: rest := hts
      exact ⟨Nat.lt_succ_self _, by simp only [atomRule, ht, Context.labelName]⟩
    | @parentheses t t' inside _ ht hinside ht' =>
      obtain rfl : ts = t :: (inside ++ t' :: rest) := by simpa using hts
      obtain ⟨shorter, hread⟩ := (hinner _ bound _ _).2
        ⟨inside, rfl, hinside, ends_of_rparen ht' rest⟩
      refine ⟨Nat.lt_succ_of_lt (Nat.lt_of_succ_lt shorter), ?_⟩
      simp only [atomRule, ht, hread, ht', if_true]

include hinner in
/-- The rules of all strata together read expressions, given what reads them in parentheses. -/
lemma reads_expressionRule :
    Rule.Reads ctx.keepCase (.binary .disjunction) (expressionRule ctx inner) := by
  have hproduct : Rule.Reads ctx.keepCase (.binary .product) _ :=
    reads_binaryRule (reads_atomRule hinner)
  have hsum : Rule.Reads ctx.keepCase (.binary .sum) _ := reads_binaryRule hproduct
  have hconjunction : Rule.Reads ctx.keepCase (.binary .conjunction) _ :=
    reads_binaryRule (reads_complementRule hsum)
  exact reads_binaryRule hconjunction

end Inner

/-- What is read with a proof that tokens are used up is the expression that the tokens begin with.

**Proof sketch.** Recursion on the number of tokens: what stands in parentheses has fewer. -/
lemma readShorter_ok_iff (ctx : Context) (ts : List Token) (e : Expr) (rest : List Token) :
    (∃ shorter, readShorter ctx ts = .ok ⟨(e, rest), shorter⟩) ↔
      Begins ctx.keepCase (.binary .disjunction) ts e rest := by
  rw [readShorter]
  exact reads_expressionRule (fun us _ e rest => readShorter_ok_iff ctx us e rest) ts
    (Nat.le_refl _) e rest
termination_by ts.length

/-- **An expression is read off the front of a token list** exactly when the list begins with it. -/
lemma read_eq_ok_iff {ctx : Context} {ts : List Token} {e : Expr} {rest : List Token} :
    read ctx ts = .ok (e, rest) ↔ Begins ctx.keepCase (.binary .disjunction) ts e rest := by
  rw [← readShorter_ok_iff, read]
  cases readShorter ctx ts with
  | error stuck => simp
  | ok p =>
    obtain ⟨p, shorter⟩ := p
    simp only [Except.ok.injEq, Subtype.mk.injEq, exists_prop]
    exact ⟨fun h => ⟨by rwa [h] at shorter, h⟩, And.right⟩

/-- An expression that is all there is. -/
lemma begins_nil_iff {stratum : Stratum} {ts : List Token} {e : Expr} :
    Begins keepCase stratum ts e [] ↔ Derives keepCase stratum ts e := by
  simp [Begins, Ends]

/-! ## Positions of a token list -/

/-- The token at a position of a token list; a negative position counts back from the end. -/
def tokenAt? (ts : List Token) (position : Int) : Option Token :=
  (Index.place? ts.length position).bind fun place => ts[place]?

/-- An expression stands in a token list from a position up to another one: the tokens in between
derive it, and the token at the end, if there is one, is no binary operator. -/
def StandsAt (keepCase : Bool) (ts : List Token) (position : Int) (e : Expr) (ending : Int) :
    Prop :=
  ∃ used : List Token, ending = position + used.length ∧
    (∀ (i : Nat) (t : Token), used[i]? = some t → tokenAt? ts (position + i) = some t) ∧
    Derives keepCase (.binary .disjunction) used e ∧
    ∀ t, tokenAt? ts ending = some t → ¬IsOperator t

/-- From a position that is no index, no token is seen. -/
lemma tokenAt?_of_ahead?_eq_none {ts : List Token} {position : Int}
    (h : ahead? ts position = none) : tokenAt? ts position = none := by
  unfold ahead? at h
  split at h
  · cases h
  · rw [tokenAt?, Option.map_eq_none_iff.1 h, Option.bind_none]

/-- A position that is not negative is an index. -/
lemma tokenAt?_natCast (ts : List Token) (k : Nat) : tokenAt? ts k = ts[k]? := by
  unfold tokenAt? Index.place?
  by_cases hk : k < ts.length
  · simp [hk]
  · have hneg : ¬(k : Int) < 0 := by omega
    simp [hk, hneg]

/-- The tokens that are seen from a position on are those at the positions from it on.

**Proof sketch.** From a negative position, the tokens up to the last one have negative positions;
after them come the positions from 0 on. -/
lemma tokenAt?_add {ts ahead : List Token} {position : Int} (h : ahead? ts position = some ahead)
    (i : Nat) : tokenAt? ts (position + i) = ahead[i]? := by
  unfold ahead? at h
  split_ifs at h with hpos
  · obtain ⟨k, rfl⟩ := Int.eq_ofNat_of_zero_le hpos
    cases h
    rw [Int.toNat_natCast, List.getElem?_drop, ← tokenAt?_natCast, Int.natCast_add]
  · obtain ⟨place, hplace, rfl⟩ := Option.map_eq_some_iff.1 h
    have hlt := Index.place?_lt hplace
    obtain rfl : position = (place : Int) - ts.length := by
      unfold Index.place? at hplace
      split_ifs at hplace with hfirst hback
      · omega
      · have := Option.some.inj hplace
        omega
    by_cases hi : i < ts.length - place
    · have hindex : Index.place? ts.length ((place : Int) - ts.length + i) = some (place + i) := by
        unfold Index.place?
        rw [if_neg (by omega), if_pos (by omega), Option.some.injEq]
        omega
      rw [List.getElem?_append_left (by simpa using hi), List.getElem?_drop, tokenAt?, hindex,
        Option.bind_some]
    · have hindex : (place : Int) - ts.length + i = (i - (ts.length - place) : Nat) := by omega
      rw [List.getElem?_append_right (by simp; omega), List.length_drop, hindex, tokenAt?_natCast]

/-- An expression is read from a position exactly when the tokens that are seen from there begin
with it. -/
lemma readAt_eq_ok_iff {ts : List Token} {position : Int} {sourceLine : Option String} {e : Expr}
    {ending : Int} :
    readAt ts position keepCase sourceLine = (.ok e, ending) ↔
      ∃ ahead, ahead? ts position = some ahead ∧
        ∃ rest, Begins keepCase (.binary .disjunction) ahead e rest ∧
          ending = position + (ahead.length - rest.length : Nat) := by
  unfold readAt
  cases hahead : ahead? ts position with
  | none => simp
  | some ahead =>
    simp only [Option.some.injEq, exists_eq_left']
    have hbegins : ∀ e rest, Begins keepCase (.binary .disjunction) ahead e rest ↔
        read ⟨keepCase, endMark unnamedFile ts⟩ ahead = .ok (e, rest) :=
      fun e rest => (@read_eq_ok_iff ⟨keepCase, endMark unnamedFile ts⟩ ahead e rest).symm
    simp only [hbegins]
    cases read ⟨keepCase, endMark unnamedFile ts⟩ ahead with
    | error stuck => simp
    | ok p =>
      obtain ⟨e', rest⟩ := p
      simp [eq_comm]

/-- An expression stands at a position exactly when the tokens that are seen from there begin with
it. -/
lemma standsAt_iff {ts : List Token} {position : Int} {e : Expr} {ending : Int} :
    StandsAt keepCase ts position e ending ↔
      ∃ ahead, ahead? ts position = some ahead ∧
        ∃ rest, Begins keepCase (.binary .disjunction) ahead e rest ∧
          ending = position + (ahead.length - rest.length : Nat) := by
  have hlevels : ∀ level : Level, level ∈ (Stratum.binary .disjunction).levels := by
    intro level
    cases level <;> decide
  constructor
  · rintro ⟨used, rfl, hused, hderives, hnext⟩
    cases hahead : ahead? ts position with
    | none =>
      obtain ⟨t, us, rfl, -⟩ := hderives.exists_cons
      have hfirst := hused 0 t rfl
      rw [Int.natCast_zero, Int.add_zero, tokenAt?_of_ahead?_eq_none hahead] at hfirst
      cases hfirst
    | some ahead =>
      simp only [tokenAt?_add hahead] at hused hnext
      obtain ⟨rest, rfl⟩ : used <+: ahead :=
        List.prefix_iff_getElem?.2 fun i hi => hused i _ (List.getElem?_eq_getElem hi)
      refine ⟨used ++ rest, rfl, rest, ⟨used, rfl, hderives, fun t ht level _ => ?_⟩, by simp⟩
      refine not_isOperator_iff.1 (hnext t ?_) level
      rwa [List.getElem?_append_right (Nat.le_refl _), Nat.sub_self, ← List.head?_eq_getElem?]
  · rintro ⟨ahead, hahead, rest, ⟨used, rfl, hderives, hends⟩, rfl⟩
    have hlength : (used ++ rest).length - rest.length = used.length := by simp
    rw [hlength]
    refine ⟨used, rfl, fun i t ht => ?_, hderives, fun t ht => ?_⟩
    · obtain ⟨hi, -⟩ := List.getElem?_eq_some_iff.1 ht
      rw [tokenAt?_add hahead, List.getElem?_append_left hi, ht]
    · rw [tokenAt?_add hahead, List.getElem?_append_right (Nat.le_refl _), Nat.sub_self,
        ← List.head?_eq_getElem?] at ht
      exact not_isOperator_iff.2 fun level => hends t ht level (hlevels level)

/-- **The reader of expressions accepts exactly the grammar.** From any position of any token list,
an expression is read up to an end exactly when it stands there: the tokens from the position up to
the end derive it, and no binary operator follows. No other expression stands at the position, and
this one has no other end.

**Proof sketch.** Both sides say that the tokens seen from the position begin with the expression
(`readAt_eq_ok_iff`, `standsAt_iff`); for the reader this is `read_eq_ok_iff`, where each rule is
sound and complete for its stratum. Uniqueness follows because reading has one result. -/
theorem readAt_eq_ok_iff_standsAt (ts : List Token) (position : Int) (keepCase : Bool)
    (sourceLine : Option String) :
    (∀ e ending, readAt ts position keepCase sourceLine = (.ok e, ending) ↔
      StandsAt keepCase ts position e ending) ∧
    ∀ e ending e' ending', StandsAt keepCase ts position e ending →
      StandsAt keepCase ts position e' ending' → e' = e ∧ ending' = ending := by
  have hiff : ∀ e ending, readAt ts position keepCase sourceLine = (.ok e, ending) ↔
      StandsAt keepCase ts position e ending :=
    fun e ending => readAt_eq_ok_iff.trans standsAt_iff.symm
  refine ⟨hiff, fun e ending e' ending' h h' => ?_⟩
  have heq := ((hiff e' ending').2 h').symm.trans ((hiff e ending).2 h)
  simpa using heq

/-- Tokens of two expressions with a comma between them. -/
def sampleTokens : List Token :=
  (tokenize "1, NOT x AND 2+3*(y-4) XOR $" "sample.asm").toOption.getD []

/-- The second expression of the sample. -/
def sampleExpr : Expr :=
  let place : Nat → Location := fun column => ⟨"sample.asm", 1, column⟩
  .binary (place 24) .xor
    (.binary (place 10) .and
      (.complement (place 4) (.label (place 8) "X"))
      (.binary (place 15) .add (.literal (place 14) 2)
        (.binary (place 17) .mul (.literal (place 16) 3)
          (.binary (place 20) .sub (.label (place 19) "Y") (.literal (place 21) 4)))))
    (.here (place 28))

/-- The second expression of the sample stands between the comma and the end mark, and no other
expression does. -/
theorem standsAt_sample :
    StandsAt false sampleTokens 2 sampleExpr 16 ∧
      ∀ e ending, StandsAt false sampleTokens 2 e ending → e = sampleExpr ∧ ending = 16 :=
  have hread : readAt sampleTokens 2 false none = (.ok sampleExpr, 16) := by decide +kernel
  have hstands := ((readAt_eq_ok_iff_standsAt sampleTokens 2 false none).1 _ _).1 hread
  ⟨hstands, fun _ _ => (readAt_eq_ok_iff_standsAt sampleTokens 2 false none).2 _ _ _ _ hstands⟩

end Asm8080.Expr
