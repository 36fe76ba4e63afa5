import Asm8080.Proofs.Statement.Grammar
import Asm8080.Proofs.Token.Joining

/-!
# Programs joined by a line feed

Reading a program is reading its lines, and nothing that is read on one line has an effect on
another. So two texts with a line feed between them are read exactly when each of them is, and the
statements are those of the first text and then those of the second one, as many lines further down
as the first text has.

The proof moves whole derivations of the grammar: a change of places that leaves the kinds of tokens
as they are takes a program to a program.

## Main definitions

* `Asm8080.Statement.relocate` — a statement with every place in it changed.
* `Asm8080.Statement.content` — a statement without its source line.
* `Asm8080.Relocates` — a change of tokens that changes their places only.

## Main results

* `Asm8080.Relocates.expr`, `Asm8080.Relocates.line`, `Asm8080.Relocates.program` — what the grammar
  derives is moved with its tokens.
* `Asm8080.Program.append_iff` — the first lines of a program are a program.
* `Asm8080.Statement.readSource_join` — how texts joined by a line feed are read.
-/

set_option autoImplicit false

namespace Asm8080

open Statement (Context)

/-! ## Changing places -/

/-- A place some lines further down. -/
def Location.down (lines : Nat) (l : Location) : Location := { l with line := l.line + lines }

/-- A place some lines further up, but not above the first. -/
def Location.up (lines : Nat) (l : Location) : Location :=
  { l with line := ((l.line.toNat - lines : Nat) : Int) }

/-- A token some lines further up, but not above the first. -/
def Token.up (lines : Nat) (t : Token) : Token := { t with line := t.line - lines }

/-- Moving up undoes moving down. -/
lemma Token.up_comp_down (lines : Nat) : Token.up lines ∘ Token.down lines = id := by
  funext t
  simp [up, down]

/-- An expression with the place of every node changed. -/
def Expr.relocate (g : Location → Location) : Expr → Expr
  | literal l value => .literal (g l) value
  | char l c => .char (g l) c
  | label l name => .label (g l) name
  | here l => .here (g l)
  | complement l operand => .complement (g l) (operand.relocate g)
  | binary l op left right => .binary (g l) op (left.relocate g) (right.relocate g)

/-- An operand with every place in it changed. -/
def Operand.relocate (g : Location → Location) : Operand → Operand
  | register r => .register r
  | expression e => .expression (e.relocate g)

/-- An action with every place in it changed. -/
def Action.relocate (g : Location → Location) : Action → Action
  | label name => .label name
  | origin e => .origin (e.relocate g)
  | data name width e => .data name width (e.relocate g)
  | equate name e => .equate name (e.relocate g)
  | instruction encoding operands => .instruction encoding (operands.map (Operand.relocate g))

/-- A statement with its place and every place in it changed. -/
def Statement.relocate (g : Location → Location) (s : Statement) : Statement :=
  { s with location := g s.location, action := s.action.relocate g }

/-- Statements stay as they are if no place changes. -/
lemma Statement.map_relocate_id (ss : List Statement) : ss.map (relocate id) = ss := by
  have hexpr : ∀ e : Expr, e.relocate id = e := fun e => by
    induction e <;> simp [Expr.relocate, *]
  have hoperand : Operand.relocate id = id := by
    funext o
    cases o <;> simp [Operand.relocate, hexpr]
  have hstatement : Statement.relocate id = id := by
    funext s
    rcases s with ⟨location, text, _ | _ | _ | _ | _⟩ <;>
      simp [relocate, Action.relocate, hexpr, hoperand]
  rw [hstatement, List.map_id]

/-- A statement without its source line. -/
def Statement.content (s : Statement) : Location × Action := (s.location, s.action)

/-- A change of tokens leaves their kinds as they are and changes their places in a given way. -/
structure Relocates (f : Token → Token) (g : Location → Location) : Prop where
  kind : ∀ t, (f t).kind = t.kind
  location : ∀ t, (f t).location = g t.location

/-- Moving tokens down. -/
lemma relocates_down (lines : Nat) : Relocates (Token.down lines) (Location.down lines) where
  kind _ := rfl
  location t := by simp [Token.down, Token.location, Location.down]

/-- Moving tokens up. -/
lemma relocates_up (lines : Nat) : Relocates (Token.up lines) (Location.up lines) where
  kind _ := rfl
  location t := by simp [Token.up, Token.location, Location.up]

/-- Leaving tokens where they are. -/
lemma relocates_id : Relocates id id where
  kind _ := rfl
  location _ := rfl

/-! ## Moving derivations -/

namespace Relocates

variable {f : Token → Token} {g : Location → Location}

/-- An operator and its right operand, moved. -/
def step (f : Token → Token) (g : Location → Location) (s : Expr.Step) : Expr.Step where
  token := f s.token
  op := s.op
  tokens := s.tokens.map f
  operand := s.operand.relocate g

/-- Operations joined from the left are moved with their operands. -/
lemma foldl_join (h : Relocates f g) (steps : List Expr.Step) (e : Expr) :
    (steps.foldl Expr.Step.join e).relocate g =
      (steps.map (step f g)).foldl Expr.Step.join (e.relocate g) := by
  induction steps generalizing e with
  | nil => rfl
  | cons s steps ih =>
    have hjoin : (Expr.Step.join e s).relocate g = Expr.Step.join (e.relocate g) (step f g s) := by
      simp only [Expr.Step.join, Expr.relocate, step, h.location]
    rw [List.foldl_cons, ih, hjoin, List.map_cons, List.foldl_cons]

/-- **An expression** is moved with its tokens. -/
lemma expr (h : Relocates f g) {keepCase : Bool} {stratum : Expr.Stratum} {ts : List Token}
    {e : Expr} (he : Expr.Derives keepCase stratum ts e) :
    Expr.Derives keepCase stratum (ts.map f) (e.relocate g) := by
  induction he with
  | @chain level ts e steps _ hoperators _ ihfirst ihoperands =>
    have hspans : (ts ++ steps.flatMap Expr.Step.span).map f =
        ts.map f ++ (steps.map (step f g)).flatMap Expr.Step.span := by
      simp [List.map_flatMap, List.flatMap_map, Expr.Step.span, step]
    rw [hspans, h.foldl_join]
    refine .chain ihfirst (fun s hs => ?_) (fun s hs => ?_)
    · obtain ⟨s', hs', rfl⟩ := List.mem_map.1 hs
      rw [step, h.kind]
      exact hoperators s' hs'
    · obtain ⟨s', hs', rfl⟩ := List.mem_map.1 hs
      exact ihoperands s' hs'
  | @complement t ts e ht _ ih =>
    rw [Expr.relocate, ← h.location]
    exact .complement ((h.kind t).trans ht) ih
  | plain _ ih => exact .plain ih
  | @number t value radix ht =>
    rw [Expr.relocate, ← h.location]
    exact .number ((h.kind t).trans ht)
  | @char t c ht =>
    rw [Expr.relocate, ← h.location]
    exact .char ((h.kind t).trans ht)
  | @here t ht =>
    rw [Expr.relocate, ← h.location]
    exact .here ((h.kind t).trans ht)
  | @label t name ht =>
    rw [Expr.relocate, ← h.location]
    exact .label ((h.kind t).trans ht)
  | @parentheses t t' ts e ht _ ht' ih =>
    rw [List.map_cons, List.map_append, List.map_singleton]
    exact .parentheses ((h.kind t).trans ht) ih ((h.kind t').trans ht')

/-- An operand is moved with its tokens. -/
lemma operand (h : Relocates f g) {keepCase : Bool} {ts : List Token} {o : Operand}
    (ho : o.Derives keepCase ts) : (o.relocate g).Derives keepCase (ts.map f) := by
  cases ho with
  | @register t r ht => exact .register ((h.kind t).trans ht)
  | expression he => exact .expression (h.expr he)

/-- Operands after another are moved with their tokens. -/
lemma further (h : Relocates f g) {keepCase : Bool} {ts : List Token} {os : List Operand}
    (hos : Operand.Further keepCase ts os) :
    Operand.Further keepCase (ts.map f) (os.map (Operand.relocate g)) := by
  induction hos with
  | nil => exact .nil
  | @cons comma ts us o os hcomma ho _ ih =>
    rw [List.map_cons, List.map_append]
    exact .cons ((h.kind comma).trans hcomma) (h.operand ho) ih

/-- All operands are moved with their tokens. -/
lemma listed (h : Relocates f g) {keepCase : Bool} {ts : List Token} {os : List Operand}
    (hos : Operand.Listed keepCase ts os) :
    Operand.Listed keepCase (ts.map f) (os.map (Operand.relocate g)) := by
  cases hos with
  | nil => exact .nil
  | cons ho hos =>
    rw [List.map_append]
    exact .cons (h.operand ho) (h.further hos)

/-- Moving operands leaves their form as it is. -/
lemma fills {slots : List Slot} {os : List Operand} (h : List.Forall₂ Operand.Fills slots os) :
    List.Forall₂ Operand.Fills slots (os.map (Operand.relocate g)) := by
  rw [List.forall₂_map_right_iff]
  refine h.imp fun slot o ho => ?_
  cases ho with
  | register => exact .register
  | value => exact .value

variable {ctx : Context}

/-- **A statement** is moved with its tokens, up to the source line that is kept with it. -/
lemma statement (h : Relocates f g) (ctx' : Context) {ts : List Token} {s : Statement}
    (hs : s.Derives ctx ts) (hctx : ctx'.keepCase = ctx.keepCase) :
    ∃ s', Statement.Derives ctx' (ts.map f) s' ∧ s'.content = (s.relocate g).content := by
  have hname : ∀ name, ctx'.labelName name = ctx.labelName name := fun name => by
    rw [Context.labelName, Context.labelName, hctx]
  have hplace : ∀ (t : Token) (action : Action),
      (ctx'.statement (f t) (action.relocate g)).content =
        ((ctx.statement t action).relocate g).content := fun t action => by
    simp only [Context.statement, Statement.content, Statement.relocate, h.location]
  cases hs with
  | @origin t ts e ht he =>
    exact ⟨_, .origin ((h.kind t).trans ht) (hctx ▸ h.expr he), hplace t (.origin e)⟩
  | @data t width ts e ht he =>
    exact ⟨_, .data ((h.kind t).trans ht) (hctx ▸ h.expr he), hplace t (.data none width e)⟩
  | @namedData t directive name width ts e ht hdirective he =>
    refine ⟨_, .namedData ((h.kind t).trans ht) ((h.kind directive).trans hdirective)
      (hctx ▸ h.expr he), ?_⟩
    rw [hname]
    exact hplace t (.data (some (ctx.labelName name)) width e)
  | @equate t directive name ts e ht hdirective he =>
    refine ⟨_, .equate ((h.kind t).trans ht) ((h.kind directive).trans hdirective)
      (hctx ▸ h.expr he), ?_⟩
    rw [hname]
    exact hplace t (.equate (ctx.labelName name) e)
  | @instruction t encoding ts operands ht htable hoperands hcount hform =>
    exact ⟨_, .instruction ((h.kind t).trans ht) htable (hctx ▸ h.listed hoperands)
      (by rw [List.length_map, hcount]) (fills hform), hplace t (.instruction encoding operands)⟩

/-- **A line** is moved with its tokens, up to the source line. -/
lemma line (h : Relocates f g) (ctx' : Context) {ts : List Token} {ss : List Statement}
    (hss : Line.Derives ctx ts ss) (hctx : ctx'.keepCase = ctx.keepCase) :
    ∃ ss', Line.Derives ctx' (ts.map f) ss' ∧
      ss'.map Statement.content = (ss.map (Statement.relocate g)).map Statement.content := by
  have hbody : ∀ {ts : List Token} {ss : List Statement}, Line.Body ctx ts ss →
      ∃ ss', Line.Body ctx' (ts.map f) ss' ∧
        ss'.map Statement.content = (ss.map (Statement.relocate g)).map Statement.content := by
    intro ts ss hss
    cases hss with
    | nil => exact ⟨[], .nil, rfl⟩
    | statement hs =>
      obtain ⟨s', hs', hcontent⟩ := h.statement ctx' hs hctx
      exact ⟨[s'], .statement hs', by simp [hcontent]⟩
  cases hss with
  | unlabelled hss =>
    obtain ⟨ss', hss', hcontent⟩ := hbody hss
    exact ⟨ss', .unlabelled hss', hcontent⟩
  | @labelled t colon name ts ss ht hcolon hss =>
    obtain ⟨ss', hss', hcontent⟩ := hbody hss
    refine ⟨_, .labelled ((h.kind t).trans ht) ((h.kind colon).trans hcolon) hss', ?_⟩
    simp [hcontent, Context.statement, Statement.content, Statement.relocate, Action.relocate,
      h.location, Context.labelName, hctx]

/-- **A program** is moved with its tokens, up to the source lines. -/
lemma program (h : Relocates f g) (ctx' : Context) {ts : List Token} {ss : List Statement}
    (hss : Program ctx ts ss) (hctx : ctx'.keepCase = ctx.keepCase) :
    ∃ ss', Program ctx' (ts.map f) ss' ∧
      ss'.map Statement.content = (ss.map (Statement.relocate g)).map Statement.content := by
  induction hss with
  | @last ts ss mark hline hmark =>
    obtain ⟨ss', hss', hcontent⟩ := h.line ctx' hline hctx
    refine ⟨ss', ?_, hcontent⟩
    rw [List.map_append]
    exact .last hss' ((h.kind mark).trans hmark)
  | @cons ts rest ss ss₂ newline hline hnewline _ ih =>
    obtain ⟨ss', hss', hcontent⟩ := h.line ctx' hline hctx
    obtain ⟨ss₂', hss₂', hcontent₂⟩ := ih
    refine ⟨ss' ++ ss₂', ?_, by simp only [List.map_append, hcontent, hcontent₂]⟩
    rw [List.map_append]
    exact .cons hss' ((h.kind newline).trans hnewline) hss₂'

end Relocates

/-! ## The first lines of a program -/

namespace Program

variable {ctx : Context} {ts rest : List Token} {ss : List Statement}

/-- The first line end of a list of tokens is in one place. -/
lemma append_cons_inj {us us' : List Token} {t t' : Token}
    (hus : ∀ u ∈ us, u.kind.isLineEnd = false) (hus' : ∀ u ∈ us', u.kind.isLineEnd = false)
    (ht : t.kind.isLineEnd = true) (ht' : t'.kind.isLineEnd = true) {ts ts' : List Token}
    (h : us ++ t :: ts = us' ++ t' :: ts') : us = us' ∧ t = t' ∧ ts = ts' := by
  induction us generalizing us' with
  | nil =>
    cases us' with
    | nil => simpa using h
    | cons u' us' =>
      obtain ⟨rfl, -⟩ := List.cons.inj h
      cases ht.symm.trans (hus' _ List.mem_cons_self)
  | cons u us ih =>
    cases us' with
    | nil =>
      obtain ⟨rfl, -⟩ := List.cons.inj h
      cases ht'.symm.trans (hus _ List.mem_cons_self)
    | cons u' us' =>
      obtain ⟨rfl, htail⟩ := List.cons.inj h
      obtain ⟨rfl, rfl, rfl⟩ :=
        ih (List.forall_mem_cons.1 hus).2 (List.forall_mem_cons.1 hus').2 htail
      exact ⟨rfl, rfl, rfl⟩

/-- A program without a line end is one line. -/
lemma last_iff (hts : ∀ t ∈ ts, t.kind.isLineEnd = false) {mark : Token}
    (hmark : mark.kind = .eof) : Program ctx (ts ++ [mark]) ss ↔ Line.Derives ctx ts ss := by
  refine ⟨fun h => ?_, fun h => .last h hmark⟩
  have hend : mark.kind.isLineEnd = true := by rw [hmark]; rfl
  generalize htokens : ts ++ [mark] = tokens at h
  cases h with
  | @last ts' _ mark' hline hmark' =>
    obtain ⟨rfl, -⟩ :=
      append_cons_inj hts hline.isLineEnd_eq_false hend (by rw [hmark']; rfl) htokens
    exact hline
  | @cons ts' rest ss ss' newline hline hnewline hrest =>
    obtain ⟨-, rfl, -⟩ :=
      append_cons_inj hts hline.isLineEnd_eq_false hend (by rw [hnewline]; rfl) htokens
    cases hmark.symm.trans hnewline

/-- A program with a line end is a line and a program. -/
lemma cons_iff (hts : ∀ t ∈ ts, t.kind.isLineEnd = false) {newline : Token}
    (hnewline : newline.kind = .newline) :
    Program ctx (ts ++ newline :: rest) ss ↔
      ∃ ss₁ ss₂, Line.Derives ctx ts ss₁ ∧ Program ctx rest ss₂ ∧ ss = ss₁ ++ ss₂ := by
  constructor
  · intro h
    have hend : newline.kind.isLineEnd = true := by rw [hnewline]; rfl
    generalize htokens : ts ++ newline :: rest = tokens at h
    cases h with
    | @last ts' _ mark hline hmark =>
      obtain ⟨-, rfl, -⟩ :=
        append_cons_inj hts hline.isLineEnd_eq_false hend (by rw [hmark]; rfl) htokens
      cases hmark.symm.trans hnewline
    | @cons ts' rest' ss₁ ss₂ newline' hline hnewline' hrest =>
      obtain ⟨rfl, -, rfl⟩ :=
        append_cons_inj hts hline.isLineEnd_eq_false hend (by rw [hnewline']; rfl) htokens
      exact ⟨ss₁, ss₂, hline, hrest, rfl⟩
  · rintro ⟨ss₁, ss₂, hline, hrest, rfl⟩
    exact .cons hline hnewline hrest

/-- **Tokens before a line end** are those of a program with an end mark in the place of the line
end, and what follows is a program.

**Proof sketch.** Induction on the tokens, where `front` has those of the line that has begun. -/
lemma append_iff {newline mark : Token} (hnewline : newline.kind = .newline)
    (hmark : mark.kind = .eof) (hts : ∀ t ∈ ts, t.kind ≠ .eof) :
    Program ctx (ts ++ newline :: rest) ss ↔
      ∃ ss₁ ss₂, Program ctx (ts ++ [mark]) ss₁ ∧ Program ctx rest ss₂ ∧ ss = ss₁ ++ ss₂ := by
  have hfront : ∀ (ts front : List Token) (ss : List Statement),
      (∀ t ∈ front, t.kind.isLineEnd = false) → (∀ t ∈ ts, t.kind ≠ .eof) →
      (Program ctx (front ++ (ts ++ newline :: rest)) ss ↔
        ∃ ss₁ ss₂, Program ctx (front ++ (ts ++ [mark])) ss₁ ∧ Program ctx rest ss₂ ∧
          ss = ss₁ ++ ss₂) := by
    intro ts
    induction ts with
    | nil =>
      intro front ss hfront _
      simp only [List.nil_append, cons_iff hfront hnewline, last_iff hfront hmark]
    | cons t ts ih =>
      intro front ss hfront hts
      obtain ⟨ht, hts⟩ := List.forall_mem_cons.1 hts
      by_cases hline : t.kind = .newline
      · have hrest := fun ss => ih [] ss (by simp) hts
        simp only [List.nil_append] at hrest
        simp only [List.cons_append, cons_iff hfront hline, hrest]
        constructor
        · rintro ⟨ss₁, _, hss₁, ⟨ss₂, ss₃, hss₂, hss₃, rfl⟩, rfl⟩
          exact ⟨ss₁ ++ ss₂, ss₃, ⟨ss₁, ss₂, hss₁, hss₂, rfl⟩, hss₃, (List.append_assoc ..).symm⟩
        · rintro ⟨_, ss₃, ⟨ss₁, ss₂, hss₁, hss₂, rfl⟩, hss₃, rfl⟩
          exact ⟨ss₁, ss₂ ++ ss₃, hss₁, ⟨ss₂, ss₃, hss₂, hss₃, rfl⟩, List.append_assoc ..⟩
      · have hplain : t.kind.isLineEnd = false := by
          simp only [Token.Kind.isLineEnd]
        have hnext := ih (front ++ [t]) ss
          (List.forall_mem_append.2 ⟨hfront, List.forall_mem_singleton.2 hplain⟩) hts
        simpa only [List.append_assoc, List.cons_append, List.nil_append] using hnext
  exact hfront ts [] ss (by simp) hts

end Program

/-! ## Texts -/

namespace Statement

/-- The statements of a text are those of the program that its tokens are. -/
lemma readSource_eq_ok_iff {source file : String} {keepCase : Bool} {ss : List Statement} :
    readSource source file keepCase = .ok ss ↔
      ∃ fs, Divides source.toList fs [] ∧ Program (Context.ofSource (some source) keepCase)
        (Fragment.tokens file [] fs ++ [tokenAfter file source.toList .eof]) ss := by
  constructor
  · intro h
    obtain ⟨tokens, htokens, hread⟩ := bind_eq_ok_iff.1 h
    have hprogram := (Line.readAll_split_eq_ok_iff (endMarked_of_tokenize htokens) _).1 hread
    obtain ⟨fs, hfs, rfl⟩ := exists_divides_of_tokenize htokens
    exact ⟨fs, hfs, hprogram⟩
  · rintro ⟨fs, hfs, hprogram⟩
    exact bind_eq_ok_iff.2 ⟨_, tokenize_of_divides hfs file,
      Line.readAll_split_of_program hprogram _⟩

variable {s₁ s₂ file : String} {keepCase : Bool}

/-- The characters of texts joined by a line feed. -/
lemma toList_join (s₁ s₂ : String) :
    (s₁ ++ "\n" ++ s₂).toList = s₁.toList ++ '\n' :: s₂.toList := by
  simp [String.toList_append]

/-- If texts joined by a line feed are read, each of them is. -/
lemma exists_readSource_of_join {ss : List Statement}
    (h : readSource (s₁ ++ "\n" ++ s₂) file keepCase = .ok ss) :
    (∃ ss₁, readSource s₁ file keepCase = .ok ss₁) ∧
      ∃ ss₂, readSource s₂ file keepCase = .ok ss₂ := by
  obtain ⟨fs, hfs, hprogram⟩ := readSource_eq_ok_iff.1 h
  rw [toList_join] at hfs hprogram
  obtain ⟨fs₁, fs₂, rfl, hfs₁, hfs₂⟩ := divides_newline_iff.1 hfs
  have hmark : (tokenAfter file s₁.toList .eof).kind = .eof := rfl
  rw [Fragment.tokens_join hfs₁, Program.append_iff rfl hmark (hfs₁.ne_eof file [])] at hprogram
  obtain ⟨ss₁, ss₂, hss₁, hss₂, -⟩ := hprogram
  constructor
  · obtain ⟨ss₁', hss₁', -⟩ :=
      relocates_id.program (Context.ofSource (some s₁) keepCase) hss₁ rfl
    rw [List.map_id] at hss₁'
    exact ⟨ss₁', readSource_eq_ok_iff.2 ⟨fs₁, hfs₁, hss₁'⟩⟩
  · -- on its own the second text is where it was moved down from
    obtain ⟨ss₂', hss₂', -⟩ := (relocates_up (lineAfter s₁.toList)).program
      (Context.ofSource (some s₂) keepCase) hss₂ rfl
    rw [List.map_map, Token.up_comp_down, List.map_id] at hss₂'
    exact ⟨ss₂', readSource_eq_ok_iff.2 ⟨fs₂, hfs₂, hss₂'⟩⟩

/-- If two texts are read, they are read with a line feed between them. -/
lemma exists_readSource_join {ss₁ ss₂ : List Statement}
    (h₁ : readSource s₁ file keepCase = .ok ss₁) (h₂ : readSource s₂ file keepCase = .ok ss₂) :
    ∃ ss, readSource (s₁ ++ "\n" ++ s₂) file keepCase = .ok ss ∧
      ss.map content = ss₁.map content ++
        (ss₂.map (relocate (Location.down (lineAfter s₁.toList)))).map content := by
  obtain ⟨fs₁, hfs₁, hss₁⟩ := readSource_eq_ok_iff.1 h₁
  obtain ⟨fs₂, hfs₂, hss₂⟩ := readSource_eq_ok_iff.1 h₂
  let ctx := Context.ofSource (some (s₁ ++ "\n" ++ s₂)) keepCase
  obtain ⟨ss₁', hss₁', hcontent₁⟩ := relocates_id.program ctx hss₁ rfl
  obtain ⟨ss₂', hss₂', hcontent₂⟩ :=
    (relocates_down (lineAfter s₁.toList)).program ctx hss₂ rfl
  rw [List.map_id] at hss₁'
  refine ⟨ss₁' ++ ss₂', readSource_eq_ok_iff.2
    ⟨fs₁ ++ ⟨['\n'], some .newline⟩ :: fs₂, ?_, ?_⟩, ?_⟩
  · rw [toList_join]
    exact divides_newline_iff.2 ⟨fs₁, fs₂, rfl, hfs₁, hfs₂⟩
  · have hmark : (tokenAfter file s₁.toList .eof).kind = .eof := rfl
    rw [toList_join, Fragment.tokens_join hfs₁,
      Program.append_iff rfl hmark (hfs₁.ne_eof file [])]
    exact ⟨ss₁', ss₂', hss₁', hss₂', rfl⟩
  · rw [List.map_append, hcontent₁, hcontent₂, map_relocate_id]

/-- **Reading is a homomorphism on lines.** Texts joined by a line feed are read exactly when each
of them is. The statements are then, up to the source lines that are kept with them, those of the
first text followed by those of the second one, with every place in them moved down by one line more
than the first text has line feeds.

**Proof sketch.** The lexemes of the joined text are those of the two texts and the line feed
(`divides_newline_iff`), and the tokens of the second text are moved down
(`Fragment.tokens_join`). The lines before a line end are a program of their own
(`Program.append_iff`), and a derivation is moved with its tokens (`Relocates.program`). -/
theorem readSource_join (s₁ s₂ file : String) (keepCase : Bool) :
    ((∃ ss, readSource (s₁ ++ "\n" ++ s₂) file keepCase = .ok ss) ↔
      (∃ ss₁, readSource s₁ file keepCase = .ok ss₁) ∧
        ∃ ss₂, readSource s₂ file keepCase = .ok ss₂) ∧
    ∀ ss ss₁ ss₂, readSource (s₁ ++ "\n" ++ s₂) file keepCase = .ok ss →
      readSource s₁ file keepCase = .ok ss₁ → readSource s₂ file keepCase = .ok ss₂ →
      ss.map content = ss₁.map content ++
        (ss₂.map (relocate (Location.down (1 + s₁.toList.count '\n')))).map content := by
  refine ⟨⟨?_, ?_⟩, fun ss ss₁ ss₂ h h₁ h₂ => ?_⟩
  · rintro ⟨ss, h⟩
    exact exists_readSource_of_join h
  · rintro ⟨⟨ss₁, h₁⟩, ss₂, h₂⟩
    obtain ⟨ss, h, -⟩ := exists_readSource_join h₁ h₂
    exact ⟨ss, h⟩
  · obtain ⟨ss', h', hcontent⟩ := exists_readSource_join h₁ h₂
    cases h.symm.trans h'
    exact hcontent

/-- The lines of the sample before its directive, without the last line feed. -/
def sampleFront : String := "loop: MVI a, 1+2 ; load\n"

/-- The directive of the sample. -/
def sampleBack : String := "size EQU $\n"

/-- The statement of the directive on its own. -/
def sampleEquate : Statement :=
  ⟨⟨"sample.asm", 1, 1⟩, "size EQU $", .equate "SIZE" (.here ⟨"sample.asm", 1, 10⟩)⟩

/-- The directive of the sample is on its third line, and on the first line of its own text. -/
theorem readSource_join_sample :
    readSource (sampleFront ++ "\n" ++ sampleBack) "sample.asm" false = .ok sampleStatements ∧
      readSource sampleFront "sample.asm" false = .ok (sampleStatements.take 2) ∧
      readSource sampleBack "sample.asm" false = .ok [sampleEquate] ∧
      sampleStatements.map content = (sampleStatements.take 2).map content ++
        ([sampleEquate].map (relocate (Location.down 2))).map content := by
  have hjoin : readSource (sampleFront ++ "\n" ++ sampleBack) "sample.asm" false =
      .ok sampleStatements := by decide +kernel
  have hfront : readSource sampleFront "sample.asm" false = .ok (sampleStatements.take 2) := by
    decide +kernel
  have hback : readSource sampleBack "sample.asm" false = .ok [sampleEquate] := by decide +kernel
  have hcount : 1 + sampleFront.toList.count '\n' = 2 := by decide +kernel
  have hcontent := (readSource_join sampleFront sampleBack "sample.asm" false).2 _ _ _ hjoin hfront
    hback
  rw [hcount] at hcontent
  exact ⟨hjoin, hfront, hback, hcontent⟩

end Statement

end Asm8080
