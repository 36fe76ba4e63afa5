import Mathlib.Data.List.Forall2
import Asm8080.Proofs.Assembly.Renaming
import Asm8080.Proofs.Statement.Grammar

/-!
# Reading tokens that are alike

Two lists of tokens may say the same though they are not the same: names that differ only in case,
where case does not matter, or line ends in other columns. Here the statements are read from both,
side by side. Each reader gives the same result for both lists, but for the source lines that the
statements show, or fails for both with a diagnostic of the same kind near the same place.

## Main definitions

* `Asm8080.Location.Near` — places on one line, and in one column if that is asked for.
* `Asm8080.Failure.Alike` — failures of the same kind at places that are near.
* `Asm8080.Matched` — two computations give related results, or fail alike.
* `Asm8080.Token.Alike` — tokens that a reader takes for the same.
* `Asm8080.Statement.Retexted` — statements that differ in the source line that they show only.

## Main results

* `Asm8080.Expr.matched_read` — reading expressions side by side.
* `Asm8080.Line.matched_read` — reading lines side by side.
* `Asm8080.Statement.matched_readTokens` — reading statements side by side.
-/

set_option autoImplicit false

namespace Asm8080

/-! ## Places and failures -/

/-- Places in one file and on one line, and in one column if `P` holds. -/
structure Location.Near (P : Prop) (l l' : Location) : Prop where
  file : l.file = l'.file
  line : l.line = l'.line
  column : P → l.column = l'.column

/-- A place is near itself. -/
lemma Location.Near.refl {P : Prop} (l : Location) : l.Near P l := ⟨rfl, rfl, fun _ => rfl⟩

/-- Places with the same column asked for are the same. -/
lemma Location.Near.eq {l l' : Location} (h : l.Near True l') : l = l' := by
  cases l
  cases l'
  simp only [Location.mk.injEq]
  exact ⟨h.file, h.line, h.column trivial⟩

/-- Failures are alike: they are diagnostics of the same kind at places that are near, or the same
failure. The source lines that they show may differ. -/
inductive Failure.Alike (P : Prop) : Failure → Failure → Prop
  | refl (f : Failure) : Alike P f f
  | diagnostic {d d' : Diagnostic} (hkind : d.cause.kind = d'.cause.kind)
      (hlocation : Option.Rel (Location.Near P) d.location d'.location) :
      Alike P (.diagnostic d) (.diagnostic d')

/-- Two computations give related results, or fail alike. -/
def Matched (P : Prop) {α β : Type} (R : α → β → Prop) (x : Except Failure α)
    (y : Except Failure β) : Prop :=
  (∃ a b, R a b ∧ x = .ok a ∧ y = .ok b) ∨ ∃ f g, f.Alike P g ∧ x = .error f ∧ y = .error g

namespace Matched

variable {P : Prop} {α β γ δ : Type} {R : α → β → Prop} {S : γ → δ → Prop}

/-- Both give a result. -/
lemma ok {a : α} {b : β} (h : R a b) : Matched P R (.ok a) (.ok b) := .inl ⟨a, b, h, rfl, rfl⟩

/-- Both fail. -/
lemma error {f g : Failure} (h : f.Alike P g) : Matched P R (.error f) (.error g) :=
  .inr ⟨f, g, h, rfl, rfl⟩

/-- Both fail with a diagnostic, at places that are near. -/
lemma diagnostic {cause cause' : Cause} (hkind : cause.kind = cause'.kind) {l l' : Location}
    (h : l.Near P l') (line line' : Option String) :
    Matched P R (.error (.diagnostic ⟨cause, some l, line⟩))
      (.error (.diagnostic ⟨cause', some l', line'⟩)) :=
  .error (.diagnostic hkind (.some h))

/-- Computations in two steps are matched if their steps are. -/
lemma bind {x : Except Failure α} {y : Except Failure β} {p : α → Except Failure γ}
    {q : β → Except Failure δ} (h : Matched P R x y)
    (hpq : ∀ a b, R a b → Matched P S (p a) (q b)) : Matched P S (x >>= p) (y >>= q) := by
  rcases h with ⟨a, b, hab, rfl, rfl⟩ | ⟨f, g, hfg, rfl, rfl⟩
  · exact hpq a b hab
  · exact .error hfg

end Matched

/-! ## Tokens -/

/-- Kinds of tokens that a reader takes for the same: they are, or they are names that differ only
in case, where names do not keep it. -/
def Token.Kind.Alike (keepCase : Bool) (a b : Token.Kind) : Prop :=
  a = b ∨ keepCase = false ∧ ∃ name name', Text.upper name = Text.upper name' ∧
    a = .identifier name ∧ b = .identifier name'

namespace Token.Kind.Alike

variable {keepCase : Bool} {a b : Token.Kind}

/-- A property of kinds that does not depend on the spelling of names. -/
lemma apply_eq (h : a.Alike keepCase b) {α : Type} {f : Token.Kind → α} {x : α}
    (hf : ∀ name, f (.identifier name) = x) : f a = f b := by
  rcases h with rfl | ⟨-, name, name', -, rfl, rfl⟩
  · rfl
  · rw [hf, hf]

/-- No name is a kind of another sort. -/
lemma eq_iff (h : a.Alike keepCase b) {c : Token.Kind} (hc : ∀ name, c ≠ .identifier name) :
    a = c ↔ b = c := by
  rcases h with rfl | ⟨-, name, name', -, rfl, rfl⟩
  · exact Iff.rfl
  · exact iff_of_false (hc name).symm (hc name').symm

end Token.Kind.Alike

/-- Tokens that a reader takes for the same, at places that are near. -/
structure Token.Alike (keepCase : Bool) (P : Prop) (t t' : Token) : Prop where
  kind : t.kind.Alike keepCase t'.kind
  location : t.location.Near P t'.location

namespace Token.Alike

variable {keepCase : Bool} {P : Prop} {t t' : Token}

/-- Tokens at the same place are near. -/
lemma near (h : t.Alike keepCase True t') : t.Alike keepCase P t' :=
  ⟨h.kind, h.location.file, h.location.line, fun _ => h.location.column trivial⟩

/-- The next tokens, or those that end the lines. -/
lemma headD {ending ending' : Token} (hending : ending.Alike keepCase P ending')
    {ts ts' : List Token} (h : List.Forall₂ (Token.Alike keepCase True) ts ts') :
    (ts.headD ending).Alike keepCase P (ts'.headD ending') := by
  cases h with
  | nil => exact hending
  | cons ht _ => exact ht.near

end Token.Alike

/-- The tokens after the next ones. -/
lemma forall₂_tail {α : Type} {R : α → α → Prop} {xs ys : List α} (h : List.Forall₂ R xs ys) :
    List.Forall₂ R xs.tail ys.tail := by
  cases h with
  | nil => exact .nil
  | cons _ h => exact h

/-! ## Expressions -/

namespace Expr

variable {keepCase : Bool} {P : Prop} {n n' : Nat}

/-- The same expression is read twice, and alike tokens are left; or both readings are stuck, near
the same place. -/
def ReadAlike (keepCase : Bool) (P : Prop) {q q' : Expr × List Token → Prop}
    (x : Except Stuck (Subtype q)) (y : Except Stuck (Subtype q')) : Prop :=
  (∃ p p', p.val.1 = p'.val.1 ∧
      List.Forall₂ (Token.Alike keepCase True) p.val.2 p'.val.2 ∧ x = .ok p ∧ y = .ok p') ∨
    ∃ stuck stuck', stuck.token.location.Near P stuck'.token.location ∧
      x = .error stuck ∧ y = .error stuck'

/-- Rules that read alike. -/
def Rule.Alike (keepCase : Bool) (P : Prop) (rule : Rule n) (rule' : Rule n') : Prop :=
  ∀ ts ts' bound bound', List.Forall₂ (Token.Alike keepCase True) ts ts' →
    ReadAlike keepCase P (rule ts bound) (rule' ts' bound')

namespace ReadAlike

variable {q q' : Expr × List Token → Prop}

/-- Both read the same. -/
lemma ok {p : Subtype q} {p' : Subtype q'} (he : p.val.1 = p'.val.1)
    (hrest : List.Forall₂ (Token.Alike keepCase True) p.val.2 p'.val.2) :
    ReadAlike keepCase P (.ok p) (.ok p') :=
  .inl ⟨p, p', he, hrest, rfl, rfl⟩

/-- Both are stuck. -/
lemma error {stuck stuck' : Stuck} (h : stuck.token.location.Near P stuck'.token.location) :
    ReadAlike keepCase P (.error stuck : Except Stuck (Subtype q))
      (.error stuck' : Except Stuck (Subtype q')) :=
  .inr ⟨stuck, stuck', h, rfl, rfl⟩

end ReadAlike

/-- Tokens that are alike stand for the same operator. -/
lemma operator?_eq {a b : Token.Kind} (h : a.Alike keepCase b) (level : Level) :
    level.operator? a = level.operator? b :=
  h.apply_eq fun _ => by cases level <;> rfl

/-- Reading more operands. -/
lemma readAlike_readTail {operand : Rule n} {operand' : Rule n'}
    (hoperand : operand.Alike keepCase P operand') (level : Level) (left : Expr)
    (ts ts' : List Token) (h : List.Forall₂ (Token.Alike keepCase True) ts ts')
    (bound : ts.length ≤ n) (bound' : ts'.length ≤ n') :
    ReadAlike keepCase P (readTail level operand left ts bound)
      (readTail level operand' left ts' bound') := by
  match ts, ts', h, bound, bound' with
  | [], [], .nil, bound, bound' =>
    rw [readTail, readTail]
    exact .ok rfl .nil
  | t :: rest, t' :: rest', .cons ht hrest, bound, bound' =>
    rw [readTail, readTail]
    simp only [operator?_eq ht.kind]
    cases level.operator? t'.kind with
    | none => exact .ok rfl (.cons ht hrest)
    | some op =>
      rcases hoperand _ _ (Nat.le_of_succ_le bound) (Nat.le_of_succ_le bound') hrest with
        ⟨⟨⟨right, after⟩, shorter⟩, ⟨⟨right', after'⟩, shorter'⟩, he, hafter, hx, hy⟩ |
        ⟨stuck, stuck', hstuck, hx, hy⟩ <;> simp only [hx, hy]
      · -- the operator is at the same place in both, so the operands are joined to one expression
        obtain rfl : right = right' := he
        rw [ht.location.eq]
        rcases readAlike_readTail hoperand level (.binary t'.location op left right) _ _ hafter
            (Nat.le_trans (Nat.le_of_lt shorter) (Nat.le_of_succ_le bound))
            (Nat.le_trans (Nat.le_of_lt shorter') (Nat.le_of_succ_le bound')) with
          ⟨p, p', he, hafter, hx, hy⟩ | ⟨stuck, stuck', hstuck, hx, hy⟩ <;> simp only [hx, hy]
        · exact .ok he hafter
        · exact .error hstuck
      · exact .error hstuck
termination_by ts.length
decreasing_by exact Nat.lt_succ_of_lt shorter

/-- Reading operands with operators between them. -/
lemma Rule.Alike.binary {operand : Rule n} {operand' : Rule n'}
    (hoperand : operand.Alike keepCase P operand') (level : Level) :
    (binaryRule level operand).Alike keepCase P (binaryRule level operand') := by
  intro ts ts' bound bound' h
  unfold binaryRule
  rcases hoperand ts ts' bound bound' h with
    ⟨⟨⟨left, rest⟩, shorter⟩, ⟨⟨left', rest'⟩, shorter'⟩, he, hrest, hx, hy⟩ |
    ⟨stuck, stuck', hstuck, hx, hy⟩ <;> simp only [hx, hy]
  · obtain rfl : left = left' := he
    rcases readAlike_readTail hoperand level left _ _ hrest
        (Nat.le_trans (Nat.le_of_lt shorter) bound)
        (Nat.le_trans (Nat.le_of_lt shorter') bound') with
      ⟨p, p', he, hrest, hx, hy⟩ | ⟨stuck, stuck', hstuck, hx, hy⟩ <;> simp only [hx, hy]
    · exact .ok he hrest
    · exact .error hstuck
  · exact .error hstuck

/-- Reading an operand after complements. -/
lemma Rule.Alike.complement {operand : Rule n} {operand' : Rule n'}
    (hoperand : operand.Alike keepCase P operand') :
    (complementRule operand).Alike keepCase P (complementRule operand') := by
  intro ts ts' bound bound' h
  induction h with
  | nil => exact hoperand [] [] bound bound' .nil
  | @cons t t' rest rest' ht hrest ih =>
    unfold complementRule
    simp only [ht.kind.eq_iff (c := .keyword .not) (by simp)]
    by_cases hnot : t'.kind = .keyword .not
    · simp only [hnot, if_true]
      rcases ih (Nat.le_of_succ_le bound) (Nat.le_of_succ_le bound') with
        ⟨⟨⟨e, after⟩, shorter⟩, ⟨⟨e', after'⟩, shorter'⟩, he, hafter, hx, hy⟩ |
        ⟨stuck, stuck', hstuck, hx, hy⟩ <;> simp only [hx, hy]
      · exact .ok (congrArg₂ Expr.complement ht.location.eq he) hafter
      · exact .error hstuck
    · simp only [hnot, if_false]
      exact hoperand _ _ bound bound' (.cons ht hrest)

/-- Reading an atom, if what reads expressions in parentheses reads alike.

**Proof sketch.** Two tokens that are alike have one kind, or they are names that differ in case. In
the first case both lists take the same branch of the rule. A token by itself gives equal atoms, and
a token that begins no atom is blamed in both lists. In parentheses, what `inner` reads is alike,
and so is the token after it, which is a closing parenthesis in both lists or in none. In the second
case both tokens are labels, and their names are folded into one. -/
lemma Rule.Alike.atom {ctx ctx' : Context} (hcase : ctx.keepCase = keepCase)
    (hcase' : ctx'.keepCase = keepCase) (hending : ctx.ending.Alike keepCase P ctx'.ending)
    {inner : (ts : List Token) → ts.length < n → Except Stuck (Prefixed ts)}
    {inner' : (ts : List Token) → ts.length < n' → Except Stuck (Prefixed ts)}
    (hinner : ∀ ts ts' bound bound', List.Forall₂ (Token.Alike keepCase True) ts ts' →
      ReadAlike keepCase P (inner ts bound) (inner' ts' bound')) :
    (atomRule ctx inner).Alike keepCase P (atomRule ctx' inner') := by
  intro ts ts' bound bound' h
  cases h with
  | nil => exact .error hending.location
  | @cons t t' rest rest' ht hrest =>
    have hplace := ht.location.eq
    have hstuck : t.location.Near P t'.location := ht.near.location
    rcases ht.kind with hkind | ⟨hfold, name, name', hname, hkind, hkind'⟩
    · -- the cases are on one token only, since the kinds are equal
      replace hkind : ∀ k, t'.kind = k → t.kind = k := fun k h => hkind.trans h
      cases hkind' : t'.kind with
      | number | char =>
        simp only [atomRule, hkind', hkind _ hkind', hplace]
        exact .ok rfl hrest
      | identifier name =>
        simp only [atomRule, hkind', hkind _ hkind', hplace, Context.labelName, hcase, hcase']
        exact .ok rfl hrest
      | punctuation p =>
        cases p with
        | dollar =>
          simp only [atomRule, hkind', hkind _ hkind', hplace]
          exact .ok rfl hrest
        | lparen =>
          simp only [atomRule, hkind', hkind _ hkind']
          rcases hinner rest rest' bound bound' hrest with
            ⟨⟨⟨e, after⟩, shorter⟩, ⟨⟨e', after'⟩, shorter'⟩, he, hafter, hx, hy⟩ |
            ⟨stuck, stuck', hstuck, hx, hy⟩ <;> simp only [hx, hy]
          · cases hafter with
            | nil => exact .error hending.location
            | @cons close close' after after' hclose hafter =>
              simp only [hclose.kind.eq_iff (c := .punctuation .rparen) (by simp)]
              split
              · exact .ok he hafter
              · exact .error hclose.near.location
          · exact .error hstuck
        | _ =>
          simp only [atomRule, hkind', hkind _ hkind']
          exact .error hstuck
      | _ =>
        simp only [atomRule, hkind', hkind _ hkind']
        exact .error hstuck
    · -- names that differ in case are labels of one name
      have hlabel : ctx.labelName name = ctx'.labelName name' := by
        simp only [Context.labelName, hcase, hcase', hfold, hname, Bool.false_eq_true, if_false]
      simp only [atomRule, hkind', hkind, hplace, hlabel]
      exact .ok rfl hrest

/-- Reading an expression, with a proof that tokens are used up. -/
lemma readAlike_readShorter {ctx ctx' : Context} (hcase : ctx.keepCase = keepCase)
    (hcase' : ctx'.keepCase = keepCase) (hending : ctx.ending.Alike keepCase P ctx'.ending)
    {ts ts' : List Token} (h : List.Forall₂ (Token.Alike keepCase True) ts ts') :
    ReadAlike keepCase P (readShorter ctx ts) (readShorter ctx' ts') := by
  rw [readShorter, readShorter]
  refine Rule.Alike.binary (Rule.Alike.binary (Rule.Alike.complement (Rule.Alike.binary
    (Rule.Alike.binary (Rule.Alike.atom hcase hcase' hending ?_) _) _)) _) _ ts ts' _ _ h
  intro us us' bound bound' hus
  exact readAlike_readShorter hcase hcase' hending hus
termination_by ts.length

/-- **Reading an expression** off tokens that are alike. -/
lemma matched_read (ctx ctx' : Context) (hcase : ctx.keepCase = keepCase)
    (hcase' : ctx'.keepCase = keepCase) (hending : ctx.ending.Alike keepCase P ctx'.ending)
    {ts ts' : List Token} (h : List.Forall₂ (Token.Alike keepCase True) ts ts') :
    (∃ e rest rest', List.Forall₂ (Token.Alike keepCase True) rest rest' ∧
        read ctx ts = .ok (e, rest) ∧ read ctx' ts' = .ok (e, rest')) ∨
      ∃ stuck stuck', stuck.token.location.Near P stuck'.token.location ∧
        read ctx ts = .error stuck ∧ read ctx' ts' = .error stuck' := by
  unfold read
  rcases readAlike_readShorter hcase hcase' hending h with
    ⟨⟨⟨e, rest⟩, _⟩, ⟨⟨e', rest'⟩, _⟩, he, hrest, hx, hy⟩ | ⟨stuck, stuck', hstuck, hx, hy⟩ <;>
    simp only [hx, hy]
  · obtain rfl : e = e' := he
    exact .inl ⟨e, rest, rest', hrest, rfl, rfl⟩
  · exact .inr ⟨stuck, stuck', hstuck, rfl, rfl⟩

end Expr

/-! ## Lines -/

open Statement (Context)

/-- Statements that differ in the source line that they show only. -/
structure Statement.Retexted (s s' : Statement) : Prop where
  location : s.location = s'.location
  action : s.action = s'.action

namespace Line

variable {P : Prop} {ctx ctx' : Context} {ending ending' : Token}

/-- The same item, and tokens after it that are alike. -/
def LeavesAlike (keepCase : Bool) {α : Type} (R : α → α → Prop) (p p' : α × List Token) : Prop :=
  R p.1 p'.1 ∧ List.Forall₂ (Token.Alike keepCase True) p.2 p'.2

/-- A fault at tokens that are near. -/
lemma matched_fault {keepCase : Bool} {t t' : Token} (ht : t.Alike keepCase P t')
    (f f' : GrammarFault) {α β : Type} {R : α → β → Prop} :
    Matched P R (.error (ctx.fault t f)) (.error (ctx'.fault t' f')) := by
  refine .diagnostic ?_ ht.location _ _
  rfl

/-- A fault of an operand at tokens that are near. -/
lemma matched_operandFault {keepCase : Bool} {t t' : Token} (ht : t.Alike keepCase P t')
    (m : Mnemonic) (f f' : OperandFault) {α β : Type} {R : α → β → Prop} :
    Matched P R (.error (ctx.operandFault t m f)) (.error (ctx'.operandFault t' m f')) := by
  refine .diagnostic ?_ ht.location _ _
  rfl

/-- Statements at tokens that are alike. -/
lemma retexted_statement {keepCase : Bool} {t t' : Token} (ht : t.Alike keepCase True t')
    {action action' : Action} (h : action = action') :
    (ctx.statement t action).Retexted (ctx'.statement t' action') :=
  ⟨ht.location.eq, h⟩

section

variable (hctx : ctx.keepCase = ctx'.keepCase) (hending : ending.Alike ctx.keepCase P ending')
  {ts ts' : List Token} (h : List.Forall₂ (Token.Alike ctx.keepCase True) ts ts')

include hctx

/-- Names that differ only in case, where they do not keep it, go by one name. -/
lemma labelName_eq {name name' : String}
    (h : (Token.Kind.identifier name).Alike ctx.keepCase (.identifier name')) :
    ctx.labelName name = ctx'.labelName name' := by
  unfold Context.labelName
  rw [← hctx]
  rcases h with h | ⟨hfold, _, _, hname, ⟨⟩, ⟨⟩⟩
  · cases h
    rfl
  · rw [hfold, if_neg Bool.false_ne_true, if_neg Bool.false_ne_true, hname]

include hending h

/-- Reading an expression. -/
lemma matched_readExpression :
    Matched P (LeavesAlike ctx.keepCase Eq) (readExpression ctx ending ts)
      (readExpression ctx' ending' ts') := by
  have hfirst := hending.headD h
  unfold readExpression
  simp only [hfirst.kind.apply_eq (f := Token.Kind.startsExpression) fun _ => rfl,
    hfirst.kind.apply_eq (f := Token.Kind.isLineEnd) fun _ => rfl]
  split_ifs with hstarts hend
  · rcases Expr.matched_read ⟨ctx.keepCase, ending⟩ ⟨ctx'.keepCase, ending'⟩ rfl hctx.symm hending
        h with
      ⟨e, rest, rest', hrest, hx, hy⟩ | ⟨stuck, stuck', hstuck, hx, hy⟩ <;> simp only [hx, hy]
    · exact .ok ⟨rfl, hrest⟩
    · refine .diagnostic ?_ hstuck _ _
      rfl
  · exact matched_fault hfirst _ _
  · exact matched_fault hfirst _ _

omit hctx hending h in
/-- What does not start with a register is read as an expression. -/
lemma readOperand_of_ne_register (hplain : ∀ r, (ts.headD ending).kind ≠ .register r) (m : Mnemonic)
    (index count : Nat) :
    readOperand ctx ending m index count ts =
      if (ts.headD ending).kind.startsExpression then
        if Encoding.acceptsValue m index then
          readExpression ctx ending ts >>= fun p => .ok (.expression p.1, p.2)
        else .error (ctx.operandFault (ts.headD ending) m (.notExpression index))
      else if (ts.headD ending).kind.isLineEnd then
        .error (ctx.operandFault (ts.headD ending) m (.wrongCount count))
      else .error (ctx.fault (ts.headD ending) (.unexpectedInOperand (ts.headD ending).kind)) := by
  unfold readOperand
  -- the match on the kind is resolved by `hplain`
  simp only
  cases readExpression ctx ending ts <;> rfl

/-- Reading an operand. -/
lemma matched_readOperand (m : Mnemonic) (index count : Nat) :
    Matched P (LeavesAlike ctx.keepCase Eq) (readOperand ctx ending m index count ts)
      (readOperand ctx' ending' m index count ts') := by
  have hfirst := hending.headD h
  by_cases hregister : ∃ r, (ts.headD ending).kind = .register r
  · obtain ⟨r, hr⟩ := hregister
    have hr' := (hfirst.kind.eq_iff (c := .register r) (by simp)).1 hr
    simp only [readOperand, hr, hr']
    split_ifs with haccepts
    · exact .ok ⟨rfl, forall₂_tail h⟩
    · exact matched_operandFault hfirst _ _ _
  have hplain := not_exists.1 hregister
  have hplain' : ∀ r, (ts'.headD ending').kind ≠ .register r := by
    intro r hr'
    exact hplain r ((hfirst.kind.eq_iff (by simp)).2 hr')
  rw [readOperand_of_ne_register hplain, readOperand_of_ne_register hplain',
    hfirst.kind.apply_eq (f := Token.Kind.startsExpression) fun _ => rfl,
    hfirst.kind.apply_eq (f := Token.Kind.isLineEnd) fun _ => rfl]
  split_ifs with hstarts haccepts hend
  · refine (matched_readExpression hctx hending h).bind ?_
    rintro ⟨e, rest⟩ ⟨_, rest'⟩ ⟨rfl, hrest⟩
    exact .ok ⟨rfl, hrest⟩
  · exact matched_operandFault hfirst _ _ _
  · exact matched_operandFault hfirst _ _ _
  · exact matched_fault hfirst _ _

omit hctx in
/-- Reading the comma before an operand. -/
lemma matched_readComma (m : Mnemonic) (index count : Nat) :
    Matched P (List.Forall₂ (Token.Alike ctx.keepCase True)) (readComma ctx ending m index count ts)
      (readComma ctx' ending' m index count ts') := by
  have hfirst := hending.headD h
  unfold readComma
  simp only [hfirst.kind.apply_eq (f := Token.Kind.isLineEnd) fun _ => rfl,
    hfirst.kind.eq_iff (c := .punctuation .comma) (by simp)]
  split_ifs with hzero hend hcomma
  · exact .ok h
  · exact matched_operandFault hfirst _ _ _
  · exact .ok (forall₂_tail h)
  · exact matched_fault hfirst _ _

omit h in
/-- Reading operands. -/
lemma matched_readOperands (m : Mnemonic) (count left : Nat) {ts ts' : List Token}
    (h : List.Forall₂ (Token.Alike ctx.keepCase True) ts ts') :
    Matched P (LeavesAlike ctx.keepCase Eq) (readOperands ctx ending m count left ts)
      (readOperands ctx' ending' m count left ts') := by
  induction left generalizing ts ts' with
  | zero => exact .ok ⟨rfl, h⟩
  | succ left ih =>
    rw [readOperands, readOperands]
    refine (matched_readComma hending h m _ count).bind fun ts ts' h => ?_
    refine (matched_readOperand hctx hending h m _ count).bind ?_
    rintro ⟨operand, ts⟩ ⟨_, ts'⟩ ⟨rfl, h⟩
    refine (ih h).bind ?_
    rintro ⟨operands, ts⟩ ⟨_, ts'⟩ ⟨rfl, h⟩
    exact .ok ⟨rfl, h⟩

/-- Reading a statement that ends with an expression. -/
lemma matched_readExpression_bind {t t' : Token} (ht : t.Alike ctx.keepCase True t')
    {action action' : Expr → Action} (haction : action = action') :
    Matched P (LeavesAlike ctx.keepCase Statement.Retexted)
      (readExpression ctx ending ts >>= fun p => pure (ctx.statement t (action p.1), p.2))
      (readExpression ctx' ending' ts' >>= fun p =>
        pure (ctx'.statement t' (action' p.1), p.2)) := by
  refine (matched_readExpression hctx hending h).bind ?_
  rintro ⟨e, rest⟩ ⟨_, rest'⟩ ⟨rfl, hrest⟩
  exact .ok ⟨retexted_statement ht (congrFun haction _), hrest⟩

/-- Reading an instruction. -/
lemma matched_readInstruction {t t' : Token} (ht : t.Alike ctx.keepCase True t') (m : Mnemonic) :
    Matched P (LeavesAlike ctx.keepCase Statement.Retexted) (readInstruction ctx ending t m ts)
      (readInstruction ctx' ending' t' m ts') := by
  rw [readInstruction, readInstruction]
  refine (matched_readOperands hctx hending m _ _ h).bind ?_
  rintro ⟨operands, rest⟩ ⟨_, rest'⟩ ⟨rfl, hrest⟩
  simp only
  split
  · exact .ok ⟨retexted_statement ht rfl, hrest⟩
  · exact matched_operandFault ht.near _ _ _

/-- Reading a directive with a name in front. -/
lemma matched_readNamed {t t' : Token} (ht : t.Alike ctx.keepCase True t') {name name' : String}
    (hname : ctx.labelName name = ctx'.labelName name') :
    Matched P (LeavesAlike ctx.keepCase Statement.Retexted) (readNamed ctx ending t name ts)
      (readNamed ctx' ending' t' name' ts') := by
  have hfirst := hending.headD h
  unfold readNamed
  simp only [hfirst.kind.apply_eq (f := widthOf?) fun _ => rfl,
    hfirst.kind.apply_eq (f := Token.Kind.isLineEnd) fun _ => rfl,
    hfirst.kind.eq_iff (c := .keyword .equ) (by simp), hname]
  cases widthOf? (ts'.headD ending').kind with
  | some width => exact matched_readExpression_bind hctx hending (forall₂_tail h) ht rfl
  | none =>
    dsimp only
    split_ifs with hequ hend
    · exact matched_readExpression_bind hctx hending (forall₂_tail h) ht rfl
    · exact matched_fault hfirst _ _
    · exact matched_fault ht.near _ _

/-- Reading a statement. -/
lemma matched_readStatement {t t' : Token} (ht : t.Alike ctx.keepCase True t') :
    Matched P (LeavesAlike ctx.keepCase Statement.Retexted) (readStatement ctx ending t ts)
      (readStatement ctx' ending' t' ts') := by
  unfold readStatement
  rcases ht.kind with hkind | ⟨hfold, name, name', hname, hkind, hkind'⟩
  · simp only [hkind]
    split
    · exact matched_readInstruction hctx hending h ht _
    · exact matched_readExpression_bind hctx hending h ht rfl
    · exact matched_readExpression_bind hctx hending h ht rfl
    · exact matched_readExpression_bind hctx hending h ht rfl
    · exact matched_readNamed hctx hending h ht (labelName_eq hctx (.inl rfl))
    · exact matched_fault ht.near _ _
    · exact matched_fault ht.near _ _
  · simp only [hkind, hkind']
    exact matched_readNamed hctx hending h ht
      (labelName_eq hctx (.inr ⟨hfold, name, name', hname, rfl, rfl⟩))

omit hctx hending in
/-- Checking that no token is left. -/
lemma matched_expectEnd : Matched P (fun _ _ => True) (expectEnd ctx ts) (expectEnd ctx' ts') := by
  cases h with
  | nil => exact .ok trivial
  | cons ht _ =>
    unfold expectEnd
    simp only [ht.kind.eq_iff (c := .punctuation .rparen) (by simp)]
    split <;> exact matched_fault ht.near _ _

/-- Reading nothing or one statement. -/
lemma matched_readRest :
    Matched P (List.Forall₂ Statement.Retexted) (readRest ctx ending ts)
      (readRest ctx' ending' ts') := by
  cases h with
  | nil => exact .ok .nil
  | cons ht hrest =>
    refine (matched_readStatement hctx hending hrest ht).bind ?_
    rintro ⟨s, rest⟩ ⟨s', rest'⟩ ⟨hs, hrest⟩
    exact (matched_expectEnd hrest).bind fun _ _ _ => .ok (.cons hs .nil)

end

/-- Lines of tokens that are alike, with ends that are near. -/
structure Alike (keepCase : Bool) (P : Prop) (line line' : Line) : Prop where
  tokens : List.Forall₂ (Token.Alike keepCase True) line.tokens line'.tokens
  ending : line.ending.Alike keepCase P line'.ending

/-- **Reading a line.** -/
lemma matched_read (hctx : ctx.keepCase = ctx'.keepCase) {line line' : Line}
    (h : line.Alike ctx.keepCase P line') :
    Matched P (List.Forall₂ Statement.Retexted) (line.read ctx) (line'.read ctx') := by
  obtain ⟨tokens, ending⟩ := line
  obtain ⟨tokens', ending'⟩ := line'
  obtain ⟨htokens, hending⟩ := h
  have hrest := matched_readRest hctx hending htokens
  unfold read
  cases htokens with
  | nil => exact hrest
  | @cons t t' _ _ ht htokens =>
    cases htokens with
    | nil => exact hrest
    | @cons colon colon' ts ts' hcolon hts =>
      simp only [hcolon.kind.eq_iff (c := .punctuation .colon) (by simp)]
      split
      · rcases ht.kind with hkind | ⟨hfold, name, name', hname, hkind, hkind'⟩
        · simp only [hkind]
          split
          · refine (matched_readRest hctx hending hts).bind fun ss ss' hss => .ok (.cons ?_ hss)
            exact retexted_statement ht (congrArg _ (labelName_eq hctx (.inl rfl)))
          · split
            · exact matched_fault ht.near _ _
            · exact hrest
        · simp only [hkind, hkind']
          refine (matched_readRest hctx hending hts).bind fun ss ss' hss => .ok (.cons ?_ hss)
          exact retexted_statement ht (congrArg _
            (labelName_eq hctx (.inr ⟨hfold, name, name', hname, rfl, rfl⟩)))
      · exact hrest

/-- Reading lines one after another. -/
lemma matched_readAllFrom (hctx : ctx.keepCase = ctx'.keepCase) {lines lines' : List Line}
    (h : List.Forall₂ (Line.Alike ctx.keepCase P) lines lines') {done done' : List Statement}
    (hdone : List.Forall₂ Statement.Retexted done done') :
    Matched P (List.Forall₂ Statement.Retexted) (readAllFrom ctx done lines)
      (readAllFrom ctx' done' lines') := by
  induction h generalizing done done' with
  | nil => exact .ok (List.forall₂_reverse_iff.2 hdone)
  | cons hline _ ih =>
    rw [readAllFrom, readAllFrom]
    refine (matched_read hctx hline).bind fun ss ss' hss => ih ?_
    exact List.rel_append (List.forall₂_reverse_iff.2 hss) hdone

end Line

/-! ## Lists of tokens -/

/-- Tokens of two lists that correspond: they are alike and at the same place, or they are line ends
that are near. -/
def Token.Follows (keepCase : Bool) (P : Prop) (t t' : Token) : Prop :=
  t.Alike keepCase True t' ∨ t.kind = .newline ∧ t.Alike keepCase P t'

/-- Tokens that correspond are near. -/
lemma Token.Follows.near {keepCase : Bool} {P : Prop} {t t' : Token} (h : t.Follows keepCase P t') :
    t.Alike keepCase P t' := by
  rcases h with h | ⟨-, h⟩
  · exact h.near
  · exact h

namespace Line

variable {keepCase : Bool} {P : Prop}

/-- Lists of tokens that correspond have lines that are alike. -/
lemma forall₂_splitFrom {ending ending' : Token} (hending : ending.Alike keepCase P ending')
    {ts ts' : List Token} (h : List.Forall₂ (Token.Follows keepCase P) ts ts')
    {line line' : List Token} (hline : List.Forall₂ (Token.Alike keepCase True) line line') :
    List.Forall₂ (Line.Alike keepCase P) (splitFrom ending line ts)
      (splitFrom ending' line' ts') := by
  induction h generalizing line line' with
  | nil => exact .cons ⟨List.forall₂_reverse_iff.2 hline, hending⟩ .nil
  | @cons t t' ts ts' ht _ ih =>
    have hends : Line.Alike keepCase P ⟨line.reverse, t⟩ ⟨line'.reverse, t'⟩ :=
      ⟨List.forall₂_reverse_iff.2 hline, ht.near⟩
    by_cases hnewline : t.kind = .newline
    · have hnewline' := (ht.near.kind.eq_iff (c := .newline) (by simp)).1 hnewline
      simp only [splitFrom, hnewline, hnewline']
      exact .cons hends (ih .nil)
    by_cases heof : t.kind = .eof
    · have heof' := (ht.near.kind.eq_iff (c := .eof) (by simp)).1 heof
      simp only [splitFrom, heof, heof']
      exact .cons hends .nil
    have hplain : t.kind.isLineEnd = false := by
      cases hkind : t.kind <;> first | rfl | contradiction
    have hplain' : t'.kind.isLineEnd = false := by
      rw [← ht.near.kind.apply_eq (f := Token.Kind.isLineEnd) fun _ => rfl, hplain]
    have hsplit : ∀ (ending t : Token) (line ts : List Token), t.kind.isLineEnd = false →
        splitFrom ending line (t :: ts) = splitFrom ending (t :: line) ts := by
      intro ending t line ts ht
      exact splitFrom_append_of_plain ending (List.forall_mem_singleton.2 ht) line ts
    rw [hsplit _ _ _ _ hplain, hsplit _ _ _ _ hplain']
    exact ih (.cons (ht.resolve_right fun h => hnewline h.1) hline)

end Line

/-- The end marks that are seen after lists of tokens that correspond. -/
lemma Token.Follows.endMark {keepCase : Bool} {P : Prop} {ts ts' : List Token}
    (h : List.Forall₂ (Token.Follows keepCase P) ts ts') (file : String) :
    (Expr.endMark file ts).Alike keepCase P (Expr.endMark file ts') := by
  have hreverse := List.forall₂_reverse_iff.2 h
  unfold Expr.endMark
  rw [List.getLast?_eq_head?_reverse, List.getLast?_eq_head?_reverse]
  generalize ts.reverse = us at hreverse ⊢
  generalize ts'.reverse = us' at hreverse ⊢
  cases hreverse with
  | nil => exact ⟨.inl rfl, .refl _⟩
  | cons ht _ => exact ⟨.inl rfl, ht.near.location⟩

/-- **Reading statements** off lists of tokens that correspond, for any source texts to show. -/
lemma Statement.matched_readTokens {keepCase : Bool} {P : Prop} {ts ts' : List Token}
    (h : List.Forall₂ (Token.Follows keepCase P) ts ts') (file : String)
    (source source' : Option String) :
    Matched P (List.Forall₂ Statement.Retexted) (readTokens ts file source keepCase)
      (readTokens ts' file source' keepCase) := by
  unfold readTokens Line.readAll Line.split
  refine Line.matched_readAllFrom ?_ ?_ .nil
  · rfl
  · exact Line.forall₂_splitFrom (Token.Follows.endMark h file) h .nil

end Asm8080
