import Mathlib.Data.List.Forall2
import Asm8080.Proofs.Assembly.Session

/-!
# A label and an equate to the current address

A label binds its name to the address at which it stands; `n EQU $` binds `n` to the value of `$`
there. The one checks that the address is in the address space, the other reduces it modulo 65536,
and the table remembers which of the two it was. This module compares a program with a label to the
program with the equate in its place. The two are assembled side by side: what the first pass knows
differs at most in how a name came by its word, and no later statement can tell.

## Main definitions

* `Asm8080.Agree` — two computations that may fail give related results, or both fail.
* `Asm8080.SymbolTable.Alike`, `Asm8080.Layout.Alike` — tables and layouts that differ at most in
  the kind and the places of names.
* `Asm8080.Layout.ReachesTop` — statements after which the address space is used up.
* `Asm8080.Run.Alike` — two assemblies with the same result.

## Main results

* `Asm8080.Layout.step_alike`, `Asm8080.Layout.run_alike` — the first pass keeps layouts alike.
* `Asm8080.Layout.step_label_equate` — the two statements leave layouts that are alike.
* `Asm8080.Workbench.generate_label_equate` — the two programs have the same result, unless the
  statement stands at the end of the address space.
-/

set_option autoImplicit false

namespace Asm8080

variable {P : Prop}

/-! ## Computations that agree -/

/-- Two computations give related results, or both fail. If `P` holds they fail alike. -/
def Agree (P : Prop) {α : Type} (R : α → α → Prop) (x y : Except Failure α) : Prop :=
  (∃ a b, R a b ∧ x = .ok a ∧ y = .ok b) ∨ ∃ f g, (P → f = g) ∧ x = .error f ∧ y = .error g

/-! ## Tables -/

/-- Two symbols have the same name and the same word. If `P` holds they have the same place. -/
structure Symbol.Alike (P : Prop) (a b : Symbol) : Prop where
  name : a.name = b.name
  value : a.value = b.value
  location : P → a.location = b.location

namespace SymbolTable

/-- Two tables bind the same names to the same words in the same order. -/
def Alike (P : Prop) (t t' : SymbolTable) : Prop :=
  List.Forall₂ (Symbol.Alike P) t.symbols t'.symbols

namespace Alike

variable {t t' : SymbolTable}

/-- A table is like itself. -/
lemma refl (t : SymbolTable) : t.Alike P t :=
  List.forall₂_same.2 fun _ _ => ⟨rfl, rfl, fun _ => rfl⟩

/-- Tables that are alike list the same names with the same words. -/
lemma toList_eq (h : t.Alike P t') : t.toList = t'.toList := by
  unfold toList
  refine List.forall₂_eq_eq_eq ▸ List.forall₂_map_left_iff.2 (List.forall₂_map_right_iff.2 ?_)
  exact h.imp fun a b hab => by rw [hab.name, hab.value]

/-- Tables that are alike have the same names. -/
lemma names_eq (h : t.Alike P t') : t.names = t'.names := by
  have := congrArg (List.map Prod.fst) h.toList_eq
  simpa only [toList, names, List.map_map, Function.comp_def] using this

/-- Tables that are alike find symbols that are alike, or none. -/
lemma get? (h : t.Alike P t') (name : String) :
    (∃ a b, Symbol.Alike P a b ∧ t.get? name = some a ∧ t'.get? name = some b) ∨
      t.get? name = none ∧ t'.get? name = none := by
  obtain ⟨xs⟩ := t
  obtain ⟨ys⟩ := t'
  unfold SymbolTable.get?
  replace h : List.Forall₂ (Symbol.Alike P) xs ys := h
  induction h with
  | nil => exact .inr ⟨rfl, rfl⟩
  | @cons a b as bs hab _ ih =>
    simp only [List.find?_cons, ← hab.name]
    split
    · exact .inl ⟨a, b, hab, rfl, rfl⟩
    · exact ih

/-- Tables that are alike give a name the same word. -/
lemma lookup_eq (h : t.Alike P t') (name : String) : t.lookup name = t'.lookup name := by
  unfold lookup
  rcases h.get? name with ⟨a, b, hab, ha, hb⟩ | ⟨ha, hb⟩
  · rw [ha, hb, Option.map_some, Option.map_some, hab.value]
  · rw [ha, hb]

/-- Tables that are alike have the same names bound. -/
lemma contains_eq (h : t.Alike P t') (name : String) : t.contains name = t'.contains name := by
  rw [Bool.eq_iff_iff, contains_iff_mem_names, contains_iff_mem_names, h.names_eq]

/-- A name can be bound in both of two tables that are alike, or in neither. -/
lemma define (h : t.Alike P t') {name : String} {value : Int} {place place' : Option Location}
    {constant constant' : Bool} {line line' : Option String}
    (hplace : P → place = place' ∧ line = line') :
    Agree P (Alike P) (t.define name value place constant line)
      (t'.define name value place' constant' line') := by
  unfold SymbolTable.define
  rcases h.get? name with ⟨a, b, hab, ha, hb⟩ | ⟨ha, hb⟩ <;> rw [ha, hb]
  · refine .inr ⟨_, _, fun hP => ?_, rfl, rfl⟩
    rw [hab.location hP, (hplace hP).1, (hplace hP).2]
  · refine .inl ⟨_, _, List.rel_append h (.cons ?_ .nil), rfl, rfl⟩
    exact ⟨rfl, rfl, fun hP => (hplace hP).1⟩

/-- An expression has the same value in tables that are alike, or the same fault. -/
lemma evaluate_eq (h : t.Alike P t') (address : Int) (line : Option String) (e : Expr) :
    e.evaluate t address line = e.evaluate t' address line := by
  induction e with
  | literal | char | here => rfl
  | label l name =>
    have hsimilar : t.similar name = t'.similar name :=
      congrArg (fun names => (names.filter (resembles name)).take 3) h.names_eq
    simp only [Expr.evaluate, Expr.resolve, h.lookup_eq, hsimilar]
  | complement l operand ih => simp only [Expr.evaluate, ih]
  | binary l op left right ihl ihr => simp only [Expr.evaluate, ihl, ihr]

end Alike

end SymbolTable

/-! ## The first pass -/

/-- Two statements have the same place and the same source line. -/
structure Statement.SamePlace (s s' : Statement) : Prop where
  location : s.location = s'.location
  text : s.text = s'.text

namespace Layout

/-- Two layouts differ at most in the kind and the places of the names that are bound. -/
structure Alike (P : Prop) (l l' : Layout) : Prop where
  cursor : l.cursor = l'.cursor
  addresses : l.addresses = l'.addresses
  symbols : l.symbols.Alike P l'.symbols
  events : l.events = l'.events

/-- What the first pass gives from two layouts: layouts that are alike, and a failure of both or of
neither. If `P` holds it is the same failure. -/
structure AlikeAfter (P : Prop) (r r' : Layout × Option Failure) : Prop where
  layout : r.1.Alike P r'.1
  failed : r.2.isSome = r'.2.isSome
  failure : P → r.2 = r'.2

variable {l l' : Layout} {s : Statement}

/-- A layout is like itself. -/
lemma Alike.refl (l : Layout) : l.Alike P l := ⟨rfl, rfl, .refl _, rfl⟩

namespace AlikeAfter

/-- Both go on. -/
lemma ok (h : l.Alike P l') : AlikeAfter P (l, none) (l', none) := ⟨h, rfl, fun _ => rfl⟩

/-- Both fail. -/
lemma error (h : l.Alike P l') {f g : Failure} (hf : P → f = g) :
    AlikeAfter P (l, some f) (l', some g) := ⟨h, rfl, fun hP => congrArg some (hf hP)⟩

/-- A result is like itself. -/
lemma refl (r : Layout × Option Failure) : AlikeAfter P r r := ⟨.refl _, rfl, fun _ => rfl⟩

end AlikeAfter

/-- Layouts that are alike stay so when the current address is recorded. -/
lemma Alike.recorded (h : l.Alike P l') : l.recorded.Alike P l'.recorded :=
  ⟨h.cursor, by simp only [Layout.recorded, h.addresses, h.cursor], h.symbols, h.events⟩

/-- A name can be bound to the current address of two layouts that are alike, or of neither. -/
lemma Alike.bindHere (h : l.Alike P l') (s : Statement) (name : String) :
    Agree P (SymbolTable.Alike P) (l.bindHere s name) (l'.bindHere s name) := by
  unfold Layout.bindHere
  rw [← h.cursor]
  split
  · exact .inr ⟨_, _, fun _ => rfl, rfl, rfl⟩
  · exact h.symbols.define fun _ => ⟨rfl, rfl⟩

/-- The same for a name that may be missing. -/
lemma Alike.bindHere? (h : l.Alike P l') (s : Statement) (name : Option String) :
    Agree P (SymbolTable.Alike P) (name.elim (.ok l.symbols) (l.bindHere s))
      (name.elim (.ok l'.symbols) (l'.bindHere s)) := by
  cases name with
  | none => exact .inl ⟨_, _, h.symbols, rfl, rfl⟩
  | some name => exact h.bindHere s name

/-- What a directive needs at once is the same in layouts that are alike. -/
lemma Alike.evaluateNow_eq (h : l.Alike P l') (s : Statement) (directive : String) (e : Expr) :
    l.evaluateNow s directive e = l'.evaluateNow s directive e := by
  simp only [evaluateNow, h.symbols.contains_eq, h.symbols.evaluate_eq, h.cursor]

/-- The current address moves alike in layouts that are alike. -/
lemma Alike.advance_eq (h : l.Alike P l') (s : Statement) (size : Nat) :
    l.advance s size = l'.advance s size := by
  simp only [advance, h.cursor]

/-- **A step keeps layouts alike**, and fails in both or in neither.

**Proof sketch.** By cases on the action. What it reads of the layout, the current address and the
words of names, is the same; binding a name fails in both or in neither. -/
lemma step_alike (h : l.Alike P l') (s : Statement) : AlikeAfter P (l.step s) (l'.step s) := by
  have hr : Alike P { l with addresses := l.addresses.push l.cursor }
      { l' with addresses := l'.addresses.push l'.cursor } := h.recorded
  unfold step
  cases s.action with
  | label name =>
    rcases hr.bindHere s name with ⟨t, t', ht, hx, hy⟩ | ⟨f, g, hfg, hx, hy⟩ <;> simp only [hx, hy]
    · exact .ok { hr with symbols := ht }
    · exact .error hr hfg
  | origin e =>
    simp only [hr.evaluateNow_eq]
    cases Layout.evaluateNow { l' with addresses := l'.addresses.push l'.cursor } s "ORG" e with
    | ok value => exact .ok { hr with cursor := rfl, events := by rw [hr.events] }
    | error f => exact .error hr fun _ => rfl
  | equate name e =>
    simp only [hr.evaluateNow_eq]
    cases Layout.evaluateNow { l' with addresses := l'.addresses.push l'.cursor } s "EQU" e with
    | ok value =>
      have hdefine : Agree P (SymbolTable.Alike P)
          (l.symbols.define name value (some s.location) true (some s.text))
          (l'.symbols.define name value (some s.location) true (some s.text)) :=
        h.symbols.define fun _ => ⟨rfl, rfl⟩
      rcases hdefine with ⟨t, t', ht, hx, hy⟩ | ⟨f, g, hfg, hx, hy⟩ <;> simp only [hx, hy]
      · exact .ok { hr with symbols := ht }
      · exact .error hr hfg
    | error f => exact .error hr fun _ => rfl
  | data name width e =>
    simp only [hr.advance_eq]
    rcases hr.bindHere? s name with ⟨t, t', ht, hx, hy⟩ | ⟨f, g, hfg, hx, hy⟩ <;>
      simp only [hx, hy]
    · cases Layout.advance { l' with addresses := l'.addresses.push l'.cursor } s width.size with
      | ok next => exact .ok { hr with cursor := rfl, symbols := ht }
      | error f =>
        refine .error ?_ fun _ => rfl
        exact { hr with symbols := ht }
    · exact .error hr hfg
  | instruction encoding operands =>
    simp only [hr.advance_eq]
    cases Layout.advance { l' with addresses := l'.addresses.push l'.cursor } s encoding.size with
    | ok next => exact .ok { hr with cursor := rfl }
    | error f => exact .error hr fun _ => rfl

/-- Steps that leave layouts alike may be followed by runs that keep them so. -/
lemma run_cons_alike {s s' : Statement} {ss : List Statement}
    (h : AlikeAfter P (l.step s) (l'.step s'))
    (hrun : ∀ l l' : Layout, l.Alike P l' → AlikeAfter P (l.run ss) (l'.run ss)) :
    AlikeAfter P (l.run (s :: ss)) (l'.run (s' :: ss)) := by
  rw [run, run]
  revert h
  rcases l.step s with ⟨l₁, _ | f⟩ <;> rcases l'.step s' with ⟨l₂, _ | g⟩ <;> intro h
  · exact hrun l₁ l₂ h.layout
  · exact absurd h.failed (by simp)
  · exact absurd h.failed (by simp)
  · exact h

/-- **A run keeps layouts alike**, and fails in both or in neither. -/
lemma run_alike (h : l.Alike P l') (ss : List Statement) : AlikeAfter P (l.run ss) (l'.run ss) := by
  induction ss generalizing l l' with
  | nil => exact .ok h
  | cons s ss ih => exact run_cons_alike (step_alike h s) fun _ _ hl => ih hl

/-! ## The two statements -/

variable {s' : Statement} {name : String} {here : Location}

/-- The value of `$` is the current address modulo 65536. -/
lemma evaluateNow_here (l : Layout) (s : Statement) (directive : String) (here : Location) :
    l.evaluateNow s directive (.here here) = .ok (Word.ofInt l.cursor) := by
  simp [evaluateNow, Expr.labelSet, Expr.labels, Expr.evaluate]

/-- **Inside the address space the label and the equate** leave layouts that are alike. -/
lemma step_label_equate (hs : s.action = .label name) (hs' : s'.action = .equate name (.here here))
    (hl : l.cursor < Word.count) : AlikeAfter (s.SamePlace s') (l.step s) (l.step s') := by
  have hr : Alike (s.SamePlace s') { l with addresses := l.addresses.push l.cursor }
      { l with addresses := l.addresses.push l.cursor } := .refl _
  have hdefine : Agree (s.SamePlace s') (SymbolTable.Alike (s.SamePlace s'))
      (l.symbols.define name l.cursor (some s.location) false (some s.text))
      (l.symbols.define name l.cursor (some s'.location) true (some s'.text)) :=
    (SymbolTable.Alike.refl _).define fun h => ⟨congrArg some h.location, congrArg some h.text⟩
  simp only [step, hs, hs', bindHere, if_neg (Nat.not_le.2 hl), evaluateNow_here,
    Word.ofInt_of_lt hl]
  rcases hdefine with ⟨t, t', ht, hx, hy⟩ | ⟨f, g, hfg, hx, hy⟩ <;> simp only [hx, hy]
  · exact .ok { hr with symbols := ht }
  · exact .error hr hfg

/-- A label at the end of the address space is rejected. -/
lemma step_label_top (hs : s.action = .label name) (hl : l.cursor = Word.count) :
    (l.step s).2 =
      some (.diagnostic ⟨.addressOverflow Word.count, some s.location, some s.text⟩) := by
  simp only [step, hs, bindHere, hl, ge_iff_le, Nat.le_refl, if_true]

/-- An equate to the current address at the end of the address space binds its name to 0, unless the
name is bound already. -/
lemma step_equate_top (hs' : s'.action = .equate name (.here here)) (hl : l.cursor = Word.count)
    (hname : name ∉ l.symbols.names) :
    ∃ l', l.step s' = (l', none) ∧ l'.symbols.lookup name = some 0 := by
  refine ⟨_, (step_equate_iff hs').2 ⟨_, evaluateNow_here _ _ _ _, _,
    SymbolTable.define_eq_ok_iff.2 ⟨hname, rfl⟩, rfl⟩, ?_⟩
  refine (SymbolTable.lookup_append_self hname).trans ?_
  simp only [hl]
  rfl

/-- Statements that the first pass accepts, after which the address space is used up. -/
def ReachesTop (ss : List Statement) : Prop :=
  ∃ l, ofStatements ss = (l, none) ∧ l.cursor = Word.count

/-- The first pass leaves the current address in the address space or at its end. -/
lemma cursor_le {ss : List Statement} (h : ofStatements ss = (l, none)) :
    l.cursor ≤ Word.count := by
  have hplacement := Placement.of_layout h
  have hle : ∀ i ≤ ss.length, cursorAt ss i ≤ Word.count := by
    intro i
    induction i with
    | zero => exact fun _ => Nat.zero_le _
    | succ i ih =>
      intro hi
      have hmoves := hplacement.moves i hi
      have hhere := ih (Nat.le_of_succ_le hi)
      cases ha : ss[i].action <;> simp only [ha, Action.Moves] at hmoves
      case origin e =>
        obtain ⟨v, -, hv⟩ := hmoves
        have := v.isLt
        simp only [Word.count]
        omega
      all_goals omega
  have := hle ss.length (Nat.le_refl _)
  rwa [cursorAt, List.take_length, h] at this

/-- **The first pass over the two programs** leaves layouts that are alike, unless the address space
is used up before the label. -/
lemma ofStatements_label_equate (hs : s.action = .label name)
    (hs' : s'.action = .equate name (.here here)) {before : List Statement}
    (hbefore : ¬ReachesTop before) (after : List Statement) :
    AlikeAfter (s.SamePlace s') (ofStatements (before ++ s :: after))
      (ofStatements (before ++ s' :: after)) := by
  rw [ofStatements, ofStatements, run_append, run_append]
  rcases hl : run {} before with ⟨l, _ | f⟩
  · have hlt : l.cursor < Word.count :=
      Nat.lt_of_le_of_ne (cursor_le hl) fun htop => hbefore ⟨l, hl, htop⟩
    exact run_cons_alike (step_label_equate hs hs' hlt) fun _ _ h => run_alike h after
  · exact .refl _

end Layout

/-! ## The second pass -/

/-- The bytes of a statement are the same under tables that are alike. -/
lemma SymbolTable.Alike.encode_eq {t t' : SymbolTable} (h : t.Alike P t') (address : Nat)
    (s : Statement) : s.encode t address = s.encode t' address := by
  simp only [Statement.encode, encodeData, encodeInstruction, h.evaluate_eq]

namespace Emission

/-- A step emits the same under tables that are alike. -/
lemma step_congr {t t' : SymbolTable} (h : t.Alike P t') (m : Emission) (s : Statement)
    (address : Nat) : m.step t s address = m.step t' s address := by
  simp only [step, h.encode_eq]

/-- Statements that emit the same one by one emit the same together. -/
lemma run_congr {t t' : SymbolTable} {ss ss' : List Statement}
    (h : List.Forall₂ (fun s s' => ∀ m a, step t m s a = step t' m s' a) ss ss') (m : Emission)
    (addresses : List Nat) : m.run t (ss.zip addresses) = m.run t' (ss'.zip addresses) := by
  induction h generalizing m addresses with
  | nil => rfl
  | @cons s s' ss ss' hstep _ ih =>
    cases addresses with
    | nil => rfl
    | cons a addresses =>
      simp only [List.zip_cons_cons, run, hstep]
      split
      · exact ih _ _
      · rfl

/-- The label and the equate emit nothing. -/
lemma run_label_equate {t t' : SymbolTable} (h : t.Alike P t') {s s' : Statement} {name : String}
    {e : Expr} (hs : s.action = .label name) (hs' : s'.action = .equate name e)
    (before after : List Statement) (m : Emission) (addresses : List Nat) :
    m.run t ((before ++ s :: after).zip addresses) =
      m.run t' ((before ++ s' :: after).zip addresses) := by
  have hsame : ∀ ss : List Statement,
      List.Forall₂ (fun s s' => ∀ m a, step t m s a = step t' m s' a) ss ss :=
    fun ss => List.forall₂_same.2 fun s _ m a => step_congr h m s a
  refine run_congr (List.rel_append (hsame before) (.cons (fun m a => ?_) (hsame after))) m _
  simp only [step, Statement.encode, hs, hs']

end Emission

/-! ## Both passes -/

/-- Two assemblies give the same image, or both fail: with the same addresses, the same words of
names, the same image and listing, and the same events. If `P` holds they fail alike. -/
structure Run.Alike (P : Prop) (r r' : Run) : Prop where
  code : ∀ code, r.outcome = .ok code ↔ r'.outcome = .ok code
  failure : P → r.outcome = r'.outcome
  addresses : r.workbench.addresses = r'.workbench.addresses
  symbols : r.workbench.symbols.toList = r'.workbench.symbols.toList
  image : r.workbench.image = r'.workbench.image
  rows : r.workbench.rows = r'.workbench.rows
  events : r.events = r'.events

namespace Workbench

/-- Programs whose layouts are alike, and which emit the same, are assembled alike. -/
lemma generate_alike (w : Workbench) {ss ss' : List Statement}
    (hlayout : Layout.AlikeAfter P (Layout.ofStatements ss) (Layout.ofStatements ss'))
    (hrun : ∀ t t' : SymbolTable, t.Alike P t' → ∀ (m : Emission) (addresses : List Nat),
      m.run t (ss.zip addresses) = m.run t' (ss'.zip addresses)) :
    Run.Alike P (w.generate ss) (w.generate ss') := by
  unfold generate
  simp only
  rcases Image.blank? w.settings.fillByte with f | image
  · exact ⟨fun _ => Iff.rfl, fun _ => rfl, rfl, rfl, rfl, rfl, rfl⟩
  · simp only
    revert hlayout
    rcases Layout.ofStatements ss with ⟨l, _ | f⟩ <;>
      rcases Layout.ofStatements ss' with ⟨l', _ | g⟩ <;> intro hlayout
    · obtain ⟨-, haddresses, hsymbols, hevents⟩ := hlayout.layout
      simp only at haddresses hsymbols hevents
      have hsize : l.symbols.size = l'.symbols.size := hsymbols.length_eq
      simp only [hrun _ _ hsymbols, haddresses, hevents, hsize]
      split <;> exact ⟨fun _ => Iff.rfl, fun _ => rfl, rfl, hsymbols.toList_eq, rfl, rfl, rfl⟩
    · exact absurd hlayout.failed (by simp)
    · exact absurd hlayout.failed (by simp)
    · obtain ⟨-, haddresses, hsymbols, hevents⟩ := hlayout.layout
      exact ⟨by simp, fun hP => congrArg Except.error (Option.some.inj (hlayout.failure hP)),
        haddresses, hsymbols.toList_eq, rfl, rfl, congrArg Array.toList hevents⟩

variable {s s' : Statement} {name : String} {here : Location} {before : List Statement}

/-- A program with a label at the end of the address space is rejected. -/
lemma generate_label_top {w : Workbench} (hw : w.settings.fault? = none)
    (hs : s.action = .label name) (hbefore : Layout.ReachesTop before) (after : List Statement) :
    (w.generate (before ++ s :: after)).outcome =
      .error (.diagnostic ⟨.addressOverflow Word.count, some s.location, some s.text⟩) := by
  obtain ⟨l, hl, htop⟩ := hbefore
  obtain ⟨l', hstep⟩ : ∃ l', l.step s = (l', some (.diagnostic
      ⟨.addressOverflow Word.count, some s.location, some s.text⟩)) :=
    ⟨_, Prod.ext rfl (Layout.step_label_top hs htop)⟩
  have hfails : Layout.ofStatements (before ++ s :: after) = (l', some (.diagnostic
      ⟨.addressOverflow Word.count, some s.location, some s.text⟩)) := by
    rw [Layout.ofStatements] at hl ⊢
    rw [Layout.run_append, hl]
    simp only [Layout.run, hstep]
  simp only [generate, Settings.blank?_fillByte hw, hfails]

/-- **A label and an equate to the current address.** Take any program with a label, and put in its
place an equate of the same name to `$`. Unless the address space is used up before that statement,
the two programs are assembled alike: to the same image or to a failure, with the same addresses and
the same words of names; a failure is the same one if the two statements have the same place and
text. Where the address space is used up, the label is rejected, but the equate is accepted if its
name is new, and binds it to 0, to which `$` is reduced there.

**Proof sketch.** Up to the statement the two programs are the same. Inside the address space the
value of `$` is the current address, so both statements bind the name to it
(`Layout.step_label_equate`), and what they leave differs at most in how and where the name was
bound. Every later statement of the first pass keeps that up and fails in both programs or in
neither (`Layout.run_alike`); the second pass reads nothing but the words of names
(`Emission.run_label_equate`). -/
theorem generate_label_equate (w : Workbench) (hs : s.action = .label name)
    (hs' : s'.action = .equate name (.here here)) (before after : List Statement) :
    (¬Layout.ReachesTop before →
      Run.Alike (s.SamePlace s') (w.generate (before ++ s :: after))
        (w.generate (before ++ s' :: after))) ∧
    (Layout.ReachesTop before →
      (w.settings.fault? = none → (w.generate (before ++ s :: after)).outcome =
        .error (.diagnostic ⟨.addressOverflow Word.count, some s.location, some s.text⟩)) ∧
      (name ∉ Layout.boundNames before →
        ∃ l, Layout.ofStatements (before ++ [s']) = (l, none) ∧
          l.symbols.lookup name = some 0)) := by
  refine ⟨fun hbefore => ?_, fun hbefore => ⟨fun hw => generate_label_top hw hs hbefore after, ?_⟩⟩
  · exact generate_alike w (Layout.ofStatements_label_equate hs hs' hbefore after)
      fun t t' ht m addresses => Emission.run_label_equate ht hs hs' before after m addresses
  · intro hname
    obtain ⟨l, hl, htop⟩ := hbefore
    rw [← show l.symbols.names = Layout.boundNames before from Layout.names_of_run hl] at hname
    obtain ⟨l', hstep, hlookup⟩ := Layout.step_equate_top hs' htop hname
    exact ⟨l', Layout.run_append_iff.2 ⟨l, hl, Layout.run_singleton_iff.2 hstep⟩, hlookup⟩

/-- A program that uses up the address space. -/
def fillingTop : List Statement :=
  (Statement.readSource "      ORG 0FFFFH\n      DB 0\n" "top.asm" false).toOption.getD []

/-- A label. -/
def sampleLabel : Statement := ⟨⟨"top.asm", 3, 1⟩, "N", .label "N"⟩

/-- An equate to the current address, in place of the label. -/
def sampleEquate : Statement :=
  { sampleLabel with action := .equate "N" (.here ⟨"top.asm", 3, 7⟩) }

/-- A jump to the name that the label or the equate binds. -/
def jumping : List Statement :=
  (Statement.readSource "      JMP N\n" "top.asm" false).toOption.getD []

/-- The address space is used up after the last byte of it. -/
lemma reachesTop_fillingTop : Layout.ReachesTop fillingTop :=
  ⟨(Layout.ofStatements fillingTop).1, by decide +kernel, by decide +kernel⟩

/-- After the last byte of the address space a label is rejected, and the equate in its place is
accepted and binds the name to 0. -/
theorem label_rejected_equate_accepted :
    sampleLabel.action = .label "N" ∧
      sampleEquate = { sampleLabel with action := .equate "N" (.here ⟨"top.asm", 3, 7⟩) } ∧
      (∀ code, ((fresh {}).generate (fillingTop ++ [sampleLabel])).outcome ≠ .ok code) ∧
      (∃ code, ((fresh {}).generate (fillingTop ++ [sampleEquate])).outcome = .ok code) ∧
      ((fresh {}).generate (fillingTop ++ [sampleEquate])).workbench.symbols.toList =
        [("N", 0)] := by
  have hlabel : ((fresh {}).generate (fillingTop ++ [sampleLabel])).outcome.isOk = false := by
    decide +kernel
  have hequate : ((fresh {}).generate (fillingTop ++ [sampleEquate])).outcome.isOk = true := by
    decide +kernel
  refine ⟨rfl, rfl, fun code hcode => ?_, ?_, by decide +kernel⟩
  · rw [hcode] at hlabel
    contradiction
  · revert hequate
    rcases ((fresh {}).generate (fillingTop ++ [sampleEquate])).outcome with f | code <;> intro h
    · contradiction
    · exact ⟨code, rfl⟩

/-- The label and the equate after a program that ends inside the address space, and after one that
uses it up. -/
theorem generate_sampleLabel_sampleEquate :
    (¬Layout.ReachesTop overlapping ∧
      Run.Alike (sampleLabel.SamePlace sampleEquate)
        (padding.generate (overlapping ++ sampleLabel :: jumping))
        (padding.generate (overlapping ++ sampleEquate :: jumping))) ∧
    Layout.ReachesTop fillingTop ∧
      (padding.generate (fillingTop ++ sampleLabel :: jumping)).outcome =
        .error (.diagnostic ⟨.addressOverflow Word.count, some ⟨"top.asm", 3, 1⟩, some "N"⟩) ∧
      ∃ l, Layout.ofStatements (fillingTop ++ [sampleEquate]) = (l, none) ∧
        l.symbols.lookup "N" = some 0 := by
  have hlow : ¬Layout.ReachesTop overlapping := by
    rintro ⟨l, hl, htop⟩
    have hcursor : (Layout.ofStatements overlapping).1.cursor = 4 := by decide +kernel
    rw [hl, htop] at hcursor
    contradiction
  have hlabel : sampleLabel.action = .label "N" := rfl
  have hequate : sampleEquate.action = .equate "N" (.here ⟨"top.asm", 3, 7⟩) := rfl
  have htop := (generate_label_equate padding hlabel hequate fillingTop jumping).2
    reachesTop_fillingTop
  exact ⟨⟨hlow, (generate_label_equate padding hlabel hequate overlapping jumping).1 hlow⟩,
    reachesTop_fillingTop, htop.1 rfl, htop.2 (by decide +kernel)⟩

end Workbench

end Asm8080
