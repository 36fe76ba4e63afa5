import Mathlib.Data.Option.Defs
import Asm8080.Proofs.Assembly.Session

/-!
# Names are arbitrary

Labels are only ever compared with one another. If they are renamed throughout a program, and
different names stay different, the program is assembled as before: to the same image, with the same
addresses, and with a symbol table in which the names are renamed and nothing else changes. A
program that cannot be assembled fails in the same way at the same place. What may change are the
names that a diagnostic shows: which of several missing labels is reported first, and which names
are suggested for it, depends on how names are spelled.

## Main definitions

* `Asm8080.Statement.rename`, `Asm8080.SymbolTable.rename` — statements and tables with other names.
* `Asm8080.labelNames` — the names that occur in statements.
* `Asm8080.Failure.SameClass` — failures of the same kind at the same place.
* `Asm8080.Corresponds` — two computations give related results, or fail in the same way.
* `Asm8080.Run.Renamed` — two assemblies that differ only in names.

## Main results

* `Asm8080.Expr.evaluate_rename` — renaming does not change the value of an expression.
* `Asm8080.Layout.step_rename`, `Asm8080.Layout.run_rename` — the first pass over renamed
  statements.
* `Asm8080.Emission.run_rename` — the second pass over renamed statements.
* `Asm8080.Workbench.generate_rename` — a renamed program is assembled as before.
-/

set_option autoImplicit false

namespace Asm8080

/-! ## Renaming -/

section

variable (f : String → String)

/-- An expression with other label names. -/
def Expr.rename : Expr → Expr
  | literal l value => literal l value
  | char l c => char l c
  | label l name => label l (f name)
  | here l => here l
  | complement l operand => complement l operand.rename
  | binary l op left right => binary l op left.rename right.rename

/-- An operand with other label names. -/
def Operand.rename : Operand → Operand
  | register r => register r
  | expression e => expression (e.rename f)

/-- An action with other label names. -/
def Action.rename : Action → Action
  | label name => label (f name)
  | origin e => origin (e.rename f)
  | data name width e => data (name.map f) width (e.rename f)
  | equate name e => equate (f name) (e.rename f)
  | instruction encoding operands => instruction encoding (operands.map (Operand.rename f))

/-- A statement with other label names, at the same place. -/
def Statement.rename (s : Statement) : Statement := { s with action := s.action.rename f }

/-- A symbol with another name. -/
def Symbol.rename (s : Symbol) : Symbol := { s with name := f s.name }

/-- A table with other names, in the same order. -/
def SymbolTable.rename (t : SymbolTable) : SymbolTable := ⟨t.symbols.map (Symbol.rename f)⟩

/-- A layout with other names. -/
def Layout.rename (l : Layout) : Layout := { l with symbols := l.symbols.rename f }

end

/-- The expressions of an action. -/
def Action.expressions : Action → List Expr
  | label _ => []
  | origin e | data _ _ e | equate _ e => [e]
  | instruction _ operands => operands.filterMap Operand.expression?

/-- The names that occur in an action: those that it binds, and the labels of its expressions. -/
def Action.labelNames (a : Action) : List String := a.names ++ a.expressions.flatMap Expr.labels

/-- If the names that occur in an action are in a list, so are the labels of its expressions. -/
lemma Action.labels_of_labelNames {a : Action} {N : List String} (h : ∀ n ∈ a.labelNames, n ∈ N) :
    ∀ e ∈ a.expressions, ∀ n ∈ e.labels, n ∈ N := by
  intro e he n hn
  exact h n (List.mem_append_right _ (List.mem_flatMap.2 ⟨e, he, hn⟩))

/-- The names that occur in statements. -/
def labelNames (ss : List Statement) : List String := ss.flatMap fun s => s.action.labelNames

/-- A name that statements bind occurs in them. -/
lemma mem_labelNames_of_mem_boundNames {ss : List Statement} {n : String}
    (h : n ∈ Layout.boundNames ss) : n ∈ labelNames ss := by
  obtain ⟨s, hs, hn⟩ := List.mem_flatMap.1 h
  exact List.mem_flatMap.2 ⟨s, hs, List.mem_append_left _ hn⟩

/-! ### What renaming leaves as it is -/

namespace SymbolTable

/-- The names of a table with other names. -/
@[simp] lemma names_rename (f : String → String) (t : SymbolTable) :
    (t.rename f).names = t.names.map f := by
  simp [names, rename, Symbol.rename, Function.comp_def]

end SymbolTable

namespace Expr

/-- Renaming leaves the place of an expression. -/
@[simp] lemma location_rename (f : String → String) (e : Expr) :
    (e.rename f).location = e.location := by
  cases e <;> rfl

/-- The labels of an expression with other names. -/
@[simp] lemma labels_rename (f : String → String) (e : Expr) :
    (e.rename f).labels = e.labels.map f := by
  induction e with
  | literal | char | label | here => rfl
  | complement l operand ih => exact ih
  | binary l op left right ihl ihr => simp only [rename, labels, ihl, ihr, List.map_append]

end Expr

/-- What a renamed statement does. -/
@[simp] lemma Statement.action_rename (f : String → String) (s : Statement) :
    (s.rename f).action = s.action.rename f := rfl

namespace Layout

/-- Renaming leaves the current address. -/
@[simp] lemma cursor_rename (f : String → String) (l : Layout) :
    (l.rename f).cursor = l.cursor := rfl

/-- The current address moves as before. -/
lemma advance_rename (f : String → String) (l : Layout) (s : Statement) (size : Nat) :
    (l.rename f).advance (s.rename f) size = l.advance s size := rfl

end Layout

/-- The expression among renamed operands. -/
lemma Operand.expressionOf_rename (f : String → String) (operands : List Operand) :
    expressionOf (operands.map (rename f)) = (expressionOf operands).map (Expr.rename f) := by
  induction operands with
  | nil => rfl
  | cons o operands ih =>
    cases o with
    | register r => exact ih
    | expression e => rfl

/-- The expression among operands is one of the expressions of their instruction. -/
lemma Operand.mem_of_expressionOf {operands : List Operand} {e : Expr}
    (h : expressionOf operands = some e) : e ∈ operands.filterMap expression? := by
  obtain ⟨o, ho, he⟩ := List.exists_of_findSome?_eq_some h
  exact List.mem_filterMap.2 ⟨o, ho, he⟩

/-- A word is reduced to a byte as before. -/
lemma byteOf_rename (f : String → String) (mnemonic text : String) (e : Expr) (value : Nat) :
    byteOf mnemonic text (e.rename f) value = byteOf mnemonic text e value := by
  simp only [byteOf, Expr.location_rename]

/-- The value of an operand is put into the code as before. -/
lemma encodeValue_rename (f : String → String) (text : String) (encoding : Encoding)
    (kind : Immediate) (e : Expr) (value : Nat) :
    encodeValue text encoding kind (e.rename f) value = encodeValue text encoding kind e value := by
  simp only [encodeValue, byteOf_rename, Expr.location_rename]

/-! ## Failures of one class -/

/-- The kinds of causes. -/
inductive Cause.Kind where
  | lex | grammar | operand | duplicateLabel | undefinedLabel | divisionByZero | addressOverflow
deriving DecidableEq

/-- The kind of a cause, without what it says. -/
def Cause.kind : Cause → Cause.Kind
  | lex _ => .lex
  | grammar _ => .grammar
  | operand _ _ _ => .operand
  | duplicateLabel _ _ => .duplicateLabel
  | undefinedLabel _ _ => .undefinedLabel
  | divisionByZero _ => .divisionByZero
  | addressOverflow _ => .addressOverflow

/-- Two failures are of one class: they are diagnostics of the same kind, at the same place and with
the same source line, or they are the same failure. -/
inductive Failure.SameClass : Failure → Failure → Prop
  | refl (g : Failure) : SameClass g g
  | diagnostic {d d' : Diagnostic} (hkind : d.cause.kind = d'.cause.kind)
      (hlocation : d.location = d'.location) (hline : d.sourceLine = d'.sourceLine) :
      SameClass (.diagnostic d) (.diagnostic d')

/-- Two computations give related results, or fail with failures of one class. -/
def Corresponds {α β : Type} (R : α → β → Prop) (x : Except Failure α) (y : Except Failure β) :
    Prop :=
  (∃ a b, R a b ∧ x = .ok a ∧ y = .ok b) ∨ ∃ g g', g.SameClass g' ∧ x = .error g ∧ y = .error g'

namespace Corresponds

variable {α β γ : Type} {R : α → β → Prop}

/-- Both give a result. -/
lemma ok {a : α} {b : β} (h : R a b) : Corresponds R (.ok a) (.ok b) := .inl ⟨a, b, h, rfl, rfl⟩

/-- Both fail. -/
lemma error {g g' : Failure} (h : g.SameClass g') : Corresponds R (.error g) (.error g') :=
  .inr ⟨g, g', h, rfl, rfl⟩

/-- A computation corresponds to itself. -/
lemma refl (x : Except Failure α) : Corresponds Eq x x := by
  cases x with
  | ok a => exact .ok rfl
  | error g => exact .error (.refl g)

/-- Computations that correspond give the same results. -/
lemma eq_ok_iff {x y : Except Failure α} (h : Corresponds Eq x y) {a : α} :
    x = .ok a ↔ y = .ok a := by
  rcases h with ⟨b, _, rfl, rfl, rfl⟩ | ⟨g, g', -, rfl, rfl⟩
  · exact Iff.rfl
  · exact iff_of_false nofun nofun

/-- Computations in two steps correspond if their steps do. -/
lemma bind {x y : Except Failure γ} {p : γ → Except Failure α}
    {q : γ → Except Failure β} (h : Corresponds Eq x y) (hpq : ∀ c, Corresponds R (p c) (q c)) :
    Corresponds R (x >>= p) (y >>= q) := by
  rcases h with ⟨c, _, rfl, rfl, rfl⟩ | ⟨g, g', hg, rfl, rfl⟩
  · exact hpq c
  · exact .error hg

/-- The same for a function of the result. -/
lemma map {x y : Except Failure α} (φ : α → γ) (h : Corresponds Eq x y) :
    Corresponds Eq (φ <$> x) (φ <$> y) := by
  rcases h with ⟨a, _, rfl, rfl, rfl⟩ | ⟨g, g', hg, rfl, rfl⟩
  · exact .ok rfl
  · exact .error hg

end Corresponds

/-- Two passes end alike: in related states, and both without a failure or with failures of one
class. -/
structure EndAlike {α β : Type} (R : α → β → Prop) (r : α × Option Failure)
    (r' : β × Option Failure) : Prop where
  state : R r.1 r'.1
  failure : Option.Rel Failure.SameClass r.2 r'.2

/-- Passes that end alike both go through, or both fail. -/
lemma EndAlike.cases {α β : Type} {R : α → β → Prop} {r : α × Option Failure}
    {r' : β × Option Failure} (h : EndAlike R r r') :
    (∃ a b, R a b ∧ r = (a, none) ∧ r' = (b, none)) ∨
      ∃ a b g g', R a b ∧ g.SameClass g' ∧ r = (a, some g) ∧ r' = (b, some g') := by
  obtain ⟨a, failure⟩ := r
  obtain ⟨b, failure'⟩ := r'
  obtain ⟨hstate, hfailure⟩ := h
  cases hfailure with
  | none => exact .inl ⟨a, b, hstate, rfl, rfl⟩
  | some hg => exact .inr ⟨a, b, _, _, hstate, hg, rfl, rfl⟩

/-! ## Tables and expressions -/

section

-- `f` is one-to-one on the names `N`, among which are all names of the table and the statements
variable {f : String → String} {N : List String}
  (hf : ∀ a ∈ N, ∀ b ∈ N, f a = f b → a = b)

include hf

namespace SymbolTable

variable {t : SymbolTable} {name : String}

/-- The symbol of a name is found under its other name. -/
lemma get?_rename (ht : ∀ n ∈ t.names, n ∈ N) (hname : name ∈ N) :
    (t.rename f).get? (f name) = (t.get? name).map (Symbol.rename f) := by
  have hsame : ∀ s ∈ t.symbols, (f s.name == f name) = (s.name == name) := by
    intro s hs
    have hmem : s.name ∈ N := ht _ (List.mem_map_of_mem hs)
    rw [Bool.eq_iff_iff, beq_iff_eq, beq_iff_eq]
    exact ⟨hf _ hmem _ hname, congrArg f⟩
  unfold get? rename
  rw [List.find?_map, ← List.head?_filter, ← List.head?_filter]
  exact congrArg (fun l => (List.head? l).map (Symbol.rename f)) (List.filter_congr hsame)

/-- A name has the same word under its other name. -/
lemma lookup_rename (ht : ∀ n ∈ t.names, n ∈ N) (hname : name ∈ N) :
    (t.rename f).lookup (f name) = t.lookup name := by
  unfold lookup
  rw [get?_rename hf ht hname, Option.map_map]
  rfl

/-- A name is bound exactly when its other name is. -/
lemma contains_rename (ht : ∀ n ∈ t.names, n ∈ N) (hname : name ∈ N) :
    (t.rename f).contains (f name) = t.contains name := by
  unfold contains
  rw [get?_rename hf ht hname, Option.isSome_map]

/-- A name can be bound exactly when its other name can. -/
lemma define_rename (ht : ∀ n ∈ t.names, n ∈ N) (hname : name ∈ N) (value : Int)
    (location : Option Location) (constant : Bool) (line : Option String) :
    Corresponds (fun t t' => t' = t.rename f) (t.define name value location constant line)
      ((t.rename f).define (f name) value location constant line) := by
  unfold define
  rw [get?_rename hf ht hname]
  cases t.get? name with
  | none => exact .ok (by simp [rename, Symbol.rename])
  | some s => exact .error (.diagnostic rfl rfl rfl)

end SymbolTable

namespace Expr

/-- **Renaming does not change the value of an expression**, nor the place where it fails.

**Proof sketch.** Induction on the expression. A label is bound under its other name exactly when it
is bound, and to the same word; an operation gets the same values. -/
lemma evaluate_rename {t : SymbolTable} (ht : ∀ n ∈ t.names, n ∈ N) (address : Int)
    (line : Option String) {e : Expr} (he : ∀ n ∈ e.labels, n ∈ N) :
    Corresponds Eq (e.evaluate t address line)
      ((e.rename f).evaluate (t.rename f) address line) := by
  induction e with
  | literal | char | here => exact .refl _
  | label l name =>
    have hname : name ∈ N := he name (List.mem_singleton.2 rfl)
    simp only [rename, evaluate, resolve, SymbolTable.lookup_rename hf ht hname]
    cases t.lookup name with
    | some value => exact .refl _
    | none => exact .error (.diagnostic rfl rfl rfl)
  | complement l operand ih => exact (ih he).bind fun _ => .refl _
  | binary l op left right ihl ihr =>
    obtain ⟨hl, hr⟩ := List.forall_mem_append.1 he
    exact (ihl hl).bind fun _ => (ihr hr).bind fun _ => .refl _

end Expr

/-! ## The first pass -/

namespace Layout

variable {l : Layout} {s : Statement}

/-- A name can be bound to the current address exactly when its other name can. -/
lemma bindHere_rename (hl : ∀ n ∈ l.symbols.names, n ∈ N) (s : Statement) {name : String}
    (hname : name ∈ N) :
    Corresponds (fun t t' => t' = t.rename f) (l.bindHere s name)
      ((l.rename f).bindHere (s.rename f) (f name)) := by
  unfold bindHere
  rw [cursor_rename]
  by_cases hcursor : l.cursor ≥ Word.count
  · rw [if_pos hcursor, if_pos hcursor]
    exact .error (.refl _)
  · rw [if_neg hcursor, if_neg hcursor]
    exact SymbolTable.define_rename hf hl hname _ _ _ _

/-- What a directive needs at once has the same value under other names.

**Proof sketch.** If a label is missing, some label is missing under its other name. It need not be
the same one that is reported, since the least missing name is, but the report is of the same kind
at the same place. -/
lemma evaluateNow_rename (hl : ∀ n ∈ l.symbols.names, n ∈ N) (s : Statement)
    (directive : String) {e : Expr} (he : ∀ n ∈ e.labels, n ∈ N) :
    Corresponds Eq (l.evaluateNow s directive e)
      ((l.rename f).evaluateNow (s.rename f) directive (e.rename f)) := by
  have hmissing : ((e.rename f).labelSet.find? fun n => !(l.symbols.rename f).contains n) = none ↔
      (e.labelSet.find? fun n => !l.symbols.contains n) = none := by
    simp only [List.find?_eq_none, mem_labelSet, Expr.labels_rename, List.forall_mem_map]
    refine forall₂_congr fun n hn => ?_
    rw [SymbolTable.contains_rename hf hl (he n hn)]
  unfold evaluateNow
  simp only [Layout.rename, Statement.rename]
  cases hfind : e.labelSet.find? fun n => !l.symbols.contains n with
  | none =>
    rw [hmissing.2 hfind]
    exact Expr.evaluate_rename hf hl _ _ he
  | some n =>
    obtain ⟨n', hfind'⟩ := Option.ne_none_iff_exists'.1 (mt hmissing.1 (by simp [hfind]))
    rw [hfind']
    exact .error (.diagnostic rfl rfl rfl)

/-- **A step over a renamed statement** does the same under other names.

**Proof sketch.** By cases on the action. What it evaluates at once has the same value, and what it
binds is new exactly when its other name is. -/
lemma step_rename (hl : ∀ n ∈ l.symbols.names, n ∈ N) (hs : ∀ n ∈ s.action.labelNames, n ∈ N) :
    EndAlike (fun l l' => l' = l.rename f) (l.step s) ((l.rename f).step (s.rename f)) := by
  have hnames : ∀ n ∈ s.action.names, n ∈ N := fun n hn => hs n (List.mem_append_left _ hn)
  have he := Action.labels_of_labelNames hs
  have hr : ∀ n ∈ l.recorded.symbols.names, n ∈ N := hl
  have hl' : { l.rename f with addresses := (l.rename f).addresses.push (l.rename f).cursor } =
      l.recorded.rename f := rfl
  have hr' : { l with addresses := l.addresses.push l.cursor } = l.recorded := rfl
  unfold step
  simp only [Statement.action_rename]
  rw [hl', hr']
  cases ha : s.action with
  | label name =>
    rw [ha] at hnames
    have hbind := bindHere_rename hf hr s (hnames name (List.mem_singleton.2 rfl))
    simp only [Action.rename]
    rcases hbind with ⟨t, _, rfl, hx, hy⟩ | ⟨g, g', hg, hx, hy⟩ <;> simp only [hx, hy]
    · exact ⟨rfl, .none⟩
    · exact ⟨rfl, .some hg⟩
  | origin e =>
    rw [ha] at he
    have hvalue := evaluateNow_rename hf hr s "ORG" (he e (List.mem_singleton.2 rfl))
    simp only [Action.rename]
    rcases hvalue with ⟨v, _, rfl, hx, hy⟩ | ⟨g, g', hg, hx, hy⟩ <;> simp only [hx, hy]
    · exact ⟨rfl, .none⟩
    · exact ⟨rfl, .some hg⟩
  | equate name e =>
    rw [ha] at hnames he
    have hname : name ∈ N := hnames name (List.mem_singleton.2 rfl)
    have hvalue := evaluateNow_rename hf hr s "EQU" (he e (List.mem_singleton.2 rfl))
    simp only [Action.rename]
    rcases hvalue with ⟨v, _, rfl, hx, hy⟩ | ⟨g, g', hg, hx, hy⟩ <;> simp only [hx, hy]
    · have hdefine : Corresponds (fun t t' => t' = t.rename f)
          (l.symbols.define name v (some s.location) true (some s.text))
          ((l.rename f).symbols.define (f name) v (some (s.rename f).location) true
            (some (s.rename f).text)) :=
        SymbolTable.define_rename hf hl hname _ _ _ _
      rcases hdefine with ⟨t, _, rfl, hx, hy⟩ | ⟨g, g', hg, hx, hy⟩ <;> simp only [hx, hy]
      · exact ⟨rfl, .none⟩
      · exact ⟨rfl, .some hg⟩
    · exact ⟨rfl, .some hg⟩
  | data name width e =>
    rw [ha] at hnames
    have hbind : Corresponds (fun t t' => t' = t.rename f)
        (name.elim (.ok l.symbols) (l.recorded.bindHere s))
        ((name.map f).elim (.ok (l.rename f).symbols)
          ((l.recorded.rename f).bindHere (s.rename f))) := by
      cases name with
      | none => exact .ok rfl
      | some n => exact bindHere_rename hf hr s (hnames n (List.mem_singleton.2 rfl))
    simp only [Action.rename, advance_rename]
    rcases hbind with ⟨t, _, rfl, hx, hy⟩ | ⟨g, g', hg, hx, hy⟩ <;> simp only [hx, hy]
    · cases l.recorded.advance s width.size with
      | ok next => exact ⟨rfl, .none⟩
      | error g => exact ⟨rfl, .some (.refl g)⟩
    · exact ⟨rfl, .some hg⟩
  | instruction encoding operands =>
    simp only [Action.rename, advance_rename]
    cases l.recorded.advance s encoding.size with
    | ok next => exact ⟨rfl, .none⟩
    | error g => exact ⟨rfl, .some (.refl g)⟩

/-- **The first pass over renamed statements** does the same under other names.

**Proof sketch.** Induction on the statements. After a step that succeeds, the names of the table
are those from before and those of the statement, which are all among the names that occur. -/
lemma run_rename {ss : List Statement} (hl : ∀ n ∈ l.symbols.names, n ∈ N)
    (hss : ∀ n ∈ labelNames ss, n ∈ N) :
    EndAlike (fun l l' => l' = l.rename f) (l.run ss)
      ((l.rename f).run (ss.map (Statement.rename f))) := by
  induction ss generalizing l with
  | nil => exact ⟨rfl, .none⟩
  | cons s ss ih =>
    obtain ⟨hs, hss⟩ := List.forall_mem_append.1 hss
    rw [List.map_cons, run, run]
    rcases (step_rename hf hl hs).cases with
      ⟨l₁, _, rfl, hx, hy⟩ | ⟨l₁, _, g, g', rfl, hg, hx, hy⟩ <;> simp only [hx, hy]
    · refine ih ?_ hss
      rw [names_of_step hx]
      exact List.forall_mem_append.2 ⟨hl, fun n hn => hs n (List.mem_append_left _ hn)⟩
    · exact ⟨rfl, .some hg⟩

end Layout

/-! ## The second pass -/

variable {t : SymbolTable}

/-- Renamed data has the same bytes. -/
lemma encodeData_rename (ht : ∀ n ∈ t.names, n ∈ N) (address : Nat) (text : String)
    (width : Width) {e : Expr} (he : ∀ n ∈ e.labels, n ∈ N) :
    Corresponds Eq (encodeData t address text width e)
      (encodeData (t.rename f) address text width (e.rename f)) := by
  refine (Expr.evaluate_rename hf ht address (some text) he).bind fun value => ?_
  rw [byteOf_rename]
  exact .refl _

/-- A renamed instruction has the same bytes. -/
lemma encodeInstruction_rename (ht : ∀ n ∈ t.names, n ∈ N) (address : Nat) (text : String)
    (encoding : Encoding) {operands : List Operand}
    (he : ∀ e ∈ operands.filterMap Operand.expression?, ∀ n ∈ e.labels, n ∈ N) :
    Corresponds Eq (encodeInstruction t address text encoding operands)
      (encodeInstruction (t.rename f) address text encoding
        (operands.map (Operand.rename f))) := by
  unfold encodeInstruction
  rw [Operand.expressionOf_rename]
  cases encoding.immediate? with
  | none => exact .refl _
  | some kind =>
    cases hoperand : Operand.expressionOf operands with
    | none => exact .refl _
    | some e =>
      have hvalue := Expr.evaluate_rename hf ht address (some text)
        (he e (Operand.mem_of_expressionOf hoperand))
      refine hvalue.bind fun value => ?_
      rw [encodeValue_rename]
      exact .refl _

/-- **A renamed statement** has the same code. -/
lemma Statement.encode_rename (ht : ∀ n ∈ t.names, n ∈ N) (address : Nat) {s : Statement}
    (hs : ∀ n ∈ s.action.labelNames, n ∈ N) :
    Corresponds Eq (s.encode t address) ((s.rename f).encode (t.rename f) address) := by
  have he := Action.labels_of_labelNames hs
  unfold encode
  rw [action_rename]
  cases ha : s.action with
  | label | origin | equate => exact .refl _
  | data name width e =>
    rw [ha] at he
    exact (encodeData_rename hf ht address s.text width (he e (List.mem_singleton.2 rfl))).map _
  | instruction encoding operands =>
    rw [ha] at he
    exact (encodeInstruction_rename hf ht address s.text encoding he).map _

namespace Emission

/-- **A step over a renamed statement** emits the same. -/
lemma step_rename (ht : ∀ n ∈ t.names, n ∈ N) (m : Emission) (address : Nat) {s : Statement}
    (hs : ∀ n ∈ s.action.labelNames, n ∈ N) :
    EndAlike Eq (m.step t s address) (m.step (t.rename f) (s.rename f) address) := by
  have hcode := Statement.encode_rename hf ht address hs
  unfold step
  rcases hcode with ⟨code, _, rfl, hx, hy⟩ | ⟨g, g', hg, hx, hy⟩ <;> rw [hx, hy]
  · cases code with
    | none =>
      rw [Statement.action_rename]
      cases s.action <;> exact ⟨rfl, .none⟩
    | some code =>
      dsimp only
      rcases m.image.writeAll address code with g | ⟨image, events⟩
      · exact ⟨rfl, .some (.refl g)⟩
      · exact ⟨rfl, .none⟩
  · exact ⟨rfl, .some hg⟩

/-- **The second pass over renamed statements** emits the same. -/
lemma run_rename (ht : ∀ n ∈ t.names, n ∈ N) {ss : List Statement}
    (hss : ∀ n ∈ labelNames ss, n ∈ N) (addresses : List Nat) (m : Emission) :
    EndAlike Eq (m.run t (ss.zip addresses))
      (m.run (t.rename f) ((ss.map (Statement.rename f)).zip addresses)) := by
  induction ss generalizing addresses m with
  | nil => exact ⟨rfl, .none⟩
  | cons s ss ih =>
    obtain ⟨hs, hss⟩ := List.forall_mem_append.1 hss
    cases addresses with
    | nil => exact ⟨rfl, .none⟩
    | cons address addresses =>
      rw [List.map_cons, List.zip_cons_cons, List.zip_cons_cons, run, run]
      rcases (step_rename hf ht m address hs).cases with
        ⟨m₁, _, rfl, hx, hy⟩ | ⟨m₁, _, g, g', rfl, hg, hx, hy⟩ <;> simp only [hx, hy]
      · exact ih hss addresses m₁
      · exact ⟨rfl, .some hg⟩

end Emission

end

/-! ## A program -/

/-- Two assemblies that differ only in names. They give the same image, or fail with failures of one
class. Either way the addresses are the same, the symbols are the same and in the same order but for
their names, and so are what was emitted and what happened. -/
structure Run.Renamed (f : String → String) (r r' : Run) : Prop where
  outcome : Corresponds Eq r.outcome r'.outcome
  addresses : r'.workbench.addresses = r.workbench.addresses
  symbols : r'.workbench.symbols = r.workbench.symbols.rename f
  image : r'.workbench.image = r.workbench.image
  rows : r'.workbench.rows = r.workbench.rows
  events : r'.events = r.events

namespace Workbench

/-- **A renamed program is assembled as before.**

If the names that occur in statements are renamed, and different names stay different, the assembly
succeeds exactly when it does for the statements themselves, with the same image and the same
addresses. The symbols have the same values and places in the same order, under their other names.
If the assembly fails, it fails in the same way and at the same place.

**Proof sketch.** The first pass gives a layout that differs only in names (`Layout.run_rename`).
Its names all occur in the statements, so that the second pass finds the same words and emits the
same bytes (`Emission.run_rename`). -/
theorem generate_rename (w : Workbench) (ss : List Statement) {f : String → String}
    (hf : ∀ a ∈ labelNames ss, ∀ b ∈ labelNames ss, f a = f b → a = b) :
    Run.Renamed f (w.generate ss) (w.generate (ss.map (Statement.rename f))) := by
  have hlayout : EndAlike (fun l l' => l' = l.rename f) (Layout.ofStatements ss)
      (Layout.ofStatements (ss.map (Statement.rename f))) :=
    Layout.run_rename hf (fun n hn => absurd hn List.not_mem_nil) fun n hn => hn
  unfold generate
  dsimp only
  cases Image.blank? w.settings.fillByte with
  | error g => exact ⟨.error (.refl g), rfl, rfl, rfl, rfl, rfl⟩
  | ok image =>
    rcases hlayout.cases with ⟨l, _, rfl, hx, hy⟩ | ⟨l, _, g, g', rfl, hg, hx, hy⟩ <;>
      simp only [hx, hy]
    · have hnames : ∀ n ∈ l.symbols.names, n ∈ labelNames ss := by
        intro n hn
        rw [Layout.names_of_run hx] at hn
        exact mem_labelNames_of_mem_boundNames hn
      have hsize : (l.rename f).symbols.size = l.symbols.size := List.length_map _
      have hrun : EndAlike Eq (Emission.run l.symbols { image } (ss.zip l.addresses.toList))
          (Emission.run (l.rename f).symbols { image }
            ((ss.map (Statement.rename f)).zip (l.rename f).addresses.toList)) :=
        Emission.run_rename hf hnames (fun n hn => hn) _ _
      rcases hrun.cases with ⟨m, _, rfl, hx, hy⟩ | ⟨m, _, g, g', rfl, hg, hx, hy⟩ <;>
        simp only [hx, hy, hsize]
      · exact ⟨.ok rfl, rfl, rfl, rfl, rfl, rfl⟩
      · exact ⟨.error hg, rfl, rfl, rfl, rfl, rfl⟩
    · exact ⟨.error hg, rfl, rfl, rfl, rfl, rfl⟩

/-- Give each name of `overlapping` to another of its symbols. -/
def exchangeNames : String → String
  | "START" => "SIZE"
  | "SIZE" => "NEXT"
  | "NEXT" => "START"
  | name => name

/-- The program that moves back over its own bytes, with its names exchanged. -/
theorem generate_rename_overlapping :
    let r := padding.generate (overlapping.map (Statement.rename exchangeNames))
    r.outcome = .ok [0xAA, 0xAA, 0xC3, 0xFD, 0x00, 0xAA, 0xAA, 0xAA] ∧
      r.workbench.symbols.names = ["SIZE", "NEXT", "START"] := by
  have hsample : (∀ a ∈ labelNames overlapping, ∀ b ∈ labelNames overlapping,
        exchangeNames a = exchangeNames b → a = b) ∧
      (padding.generate overlapping).outcome =
        .ok [0xAA, 0xAA, 0xC3, 0xFD, 0x00, 0xAA, 0xAA, 0xAA] ∧
      (padding.generate overlapping).workbench.symbols.names = ["START", "SIZE", "NEXT"] := by
    decide +kernel
  obtain ⟨hinjective, hcode, hnames⟩ := hsample
  have hrenamed := generate_rename padding overlapping hinjective
  refine ⟨hrenamed.outcome.eq_ok_iff.1 hcode, ?_⟩
  rw [hrenamed.symbols, SymbolTable.names_rename, hnames]
  rfl

end Workbench

end Asm8080
