import Asm8080.Assembly.Layout
import Asm8080.Proofs.Symbol.Table

/-!
# What the first pass fixes

The first pass binds names and moves the current address with a symbol table that is still growing.
This module relates each step of it to a fixed assignment of words to names, which may be taken to
be the final one: as long as the table agrees with the assignment on the names bound so far, a step
succeeds exactly when the statement is resolved under the assignment.

## Main definitions

* `Asm8080.Action.names` — the names that an action binds.
* `Asm8080.Action.eager?` — the expression whose value the first pass needs.
* `Asm8080.Action.Binds`, `Asm8080.Action.Moves` — what an action says about the words of its names
  and about the next address.
* `Asm8080.Action.Resolved` — an action is in keeping with an assignment and the names above it.
* `Asm8080.SymbolTable.Tracks` — a table agrees with an assignment on the names bound so far.

## Main results

* `Asm8080.Layout.step_ok_iff` — a step succeeds exactly on resolved actions.
* `Asm8080.Layout.run_append` — the first pass over two lists of statements.
-/

set_option autoImplicit false

namespace Asm8080

/-! ## What an action says -/

namespace Action

/-- The names that an action binds. -/
def names : Action → List String
  | label name => [name]
  | data (some name) _ _ => [name]
  | equate name _ => [name]
  | data none _ _ | origin _ | instruction _ _ => []

/-- The expression whose value the first pass needs. -/
def eager? : Action → Option Expr
  | origin e | equate _ e => some e
  | label _ | data _ _ _ | instruction _ _ => none

/-- The words that an action at the address `here` gives to its names. -/
def Binds (σ : Assignment) (here : Nat) : Action → Prop
  | label name | data (some name) _ _ =>
    here < Word.count ∧ σ name = some (BitVec.ofNat 16 here)
  | equate name e => ∃ v, e.meaning σ (BitVec.ofNat 16 here) = some v ∧ σ name = some v
  | data none _ _ | origin _ | instruction _ _ => True

/-- The address after an action at the address `here`. What is placed ends within the address
space. -/
def Moves (σ : Assignment) (here next : Nat) : Action → Prop
  | origin e => ∃ v, e.meaning σ (BitVec.ofNat 16 here) = some v ∧ next = v.toNat
  | data _ width _ => next = here + width.size ∧ next ≤ Word.count
  | instruction encoding _ => next = here + encoding.size ∧ next ≤ Word.count
  | label _ | equate _ _ => next = here

/-- An action is in keeping with an assignment, and with the names that are bound above it. -/
structure Resolved (σ : Assignment) (above : List String) (here next : Nat) (a : Action) :
    Prop where
  fresh : ∀ name ∈ a.names, name ∉ above
  declared : ∀ e ∈ a.eager?, ∀ name ∈ e.labels, name ∈ above
  binds : a.Binds σ here
  moves : a.Moves σ here next

end Action

/-! ## Tables that agree with an assignment -/

/-- A table binds exactly the names of `above`, to the words of an assignment. -/
structure SymbolTable.Tracks (σ : Assignment) (above : List String) (t : SymbolTable) : Prop where
  inRange : t.InRange
  mem_names : ∀ name, name ∈ t.names ↔ name ∈ above
  agrees : ∀ name ∈ above, t.assignment name = σ name

namespace SymbolTable.Tracks

variable {σ : Assignment} {above : List String} {t : SymbolTable}

/-- A table that binds no name agrees with every assignment. -/
lemma empty (σ : Assignment) : Tracks σ [] SymbolTable.empty where
  inRange := inRange_empty
  mem_names _ := Iff.rfl
  agrees _ h := absurd h List.not_mem_nil

/-- After a new name is bound, the table still agrees exactly when the new word is the assigned
one. -/
lemma append_iff (h : Tracks σ above t) {s : Symbol} (hs : s.name ∉ above)
    (hlt : s.value < Word.count) :
    Tracks σ (above ++ [s.name]) ⟨t.symbols ++ [s]⟩ ↔
      σ s.name = some (BitVec.ofNat 16 s.value) := by
  have hnew : s.name ∉ t.names := fun hn => hs ((h.mem_names _).1 hn)
  constructor
  · intro h'
    rw [← h'.agrees s.name (by simp), assignment_append_self hnew]
  · intro hσ
    refine ⟨h.inRange.append (by simpa using hlt), fun name => ?_, fun name hn => ?_⟩
    · simp [names_append, h.mem_names]
    · rcases List.mem_append.1 hn with hn | hn
      · rw [assignment_append ((h.mem_names _).2 hn), h.agrees name hn]
      · obtain rfl := List.mem_singleton.1 hn
        rw [assignment_append_self hnew, hσ]

/-- An expression whose labels are all bound has the same meaning in the table and under the
assignment. -/
lemma meaning_eq (h : Tracks σ above t) {e : Expr} (he : ∀ name ∈ e.labels, name ∈ above)
    (here : BitVec 16) : e.meaning t.assignment here = e.meaning σ here :=
  Expr.meaning_congr fun name hn => h.agrees name (he name hn)

end SymbolTable.Tracks

/-! ## One step -/

namespace Layout

open SymbolTable (Tracks)

variable {σ : Assignment} {above : List String} {l l' : Layout} {s : Statement}

/-- A label is listed among the labels of an expression exactly when it occurs in it. -/
lemma mem_labelSet {e : Expr} {name : String} : name ∈ e.labelSet ↔ name ∈ e.labels := by
  simp only [Expr.labelSet, List.mem_mergeSort, List.mem_eraseDups]

/-- **Evaluating at once** succeeds exactly when all labels are bound above and the expression has a
meaning under the assignment. -/
lemma evaluateNow_eq_ok_iff (h : Tracks σ above l.symbols) {directive : String} {e : Expr}
    {value : Nat} :
    l.evaluateNow s directive e = .ok value ↔
      (∀ name ∈ e.labels, name ∈ above) ∧
        ∃ v, e.meaning σ (BitVec.ofNat 16 l.cursor) = some v ∧ v.toNat = value := by
  have hbound : (∀ name ∈ e.labelSet, ¬(!l.symbols.contains name) = true) ↔
      ∀ name ∈ e.labels, name ∈ above := by
    simp [mem_labelSet, SymbolTable.contains_iff_mem_names, h.mem_names]
  unfold evaluateNow
  cases hf : e.labelSet.find? (fun name => !l.symbols.contains name) with
  | some name =>
    have hne : ¬∀ name ∈ e.labels, name ∈ above := by
      rw [← hbound, ← List.find?_eq_none, hf]
      simp
    simp [hne]
  | none =>
    have hall := hbound.1 (List.find?_eq_none.1 hf)
    rw [and_iff_right hall, Expr.evaluate_eq_ok_iff h.inRange, BitVec.ofInt_natCast,
      h.meaning_eq hall]

/-- The current address moves past bytes exactly when they end in the address space. -/
lemma advance_eq_ok_iff {size next : Nat} :
    l.advance s size = .ok next ↔ next = l.cursor + size ∧ next ≤ Word.count := by
  unfold advance
  split_ifs with h
  · simp only [false_iff]
    omega
  · simp only [Except.ok.injEq]
    omega

/-- A name can be bound, and the table goes on to agree with an assignment, exactly when the name is
new and the assignment gives it the word. -/
lemma define_tracks_iff {t : SymbolTable} (h : Tracks σ above t) {name : String} {value : Int}
    {location : Option Location} {constant : Bool} {sourceLine : Option String} :
    (∃ t', t.define name value location constant sourceLine = .ok t' ∧
        Tracks σ (above ++ [name]) t') ↔
      name ∉ above ∧ σ name = some (BitVec.ofInt 16 value) := by
  have hword : BitVec.ofNat 16 (Word.ofInt value) = BitVec.ofInt 16 value := by
    rw [← toNat_ofInt_sixteen, BitVec.ofNat_toNat, BitVec.setWidth_eq]
  simp only [SymbolTable.define_eq_ok_iff, h.mem_names, and_assoc, exists_and_left,
    exists_eq_left]
  refine and_congr_right fun hfresh => ?_
  rw [h.append_iff (s := ⟨name, Word.ofInt value, location, constant⟩) hfresh (Word.ofInt_lt _),
    hword]

/-- A name can be bound to the current address, and the table goes on to agree with an assignment,
exactly when the name is new and the assignment gives it the address. -/
lemma bindHere_tracks_iff (h : Tracks σ above l.symbols) {name : String} :
    (∃ t, l.bindHere s name = .ok t ∧ Tracks σ (above ++ [name]) t) ↔
      name ∉ above ∧ l.cursor < Word.count ∧ σ name = some (BitVec.ofNat 16 l.cursor) := by
  unfold bindHere
  split_ifs with hge
  · simp [Nat.not_lt.2 hge]
  · rw [define_tracks_iff h, BitVec.ofInt_natCast, and_iff_right (Nat.not_le.1 hge)]

/-- A step records the address of its statement, also when it fails. -/
lemma addresses_step (l : Layout) (s : Statement) :
    (l.step s).1.addresses = l.addresses.push l.cursor := by
  unfold step
  cases s.action <;> simp only <;> repeat' split
  all_goals rfl

/-- The layout with the current address recorded for the next statement. -/
def recorded (l : Layout) : Layout := { l with addresses := l.addresses.push l.cursor }

/-- Recording an address binds no name. -/
@[simp] lemma symbols_recorded (l : Layout) : l.recorded.symbols = l.symbols := rfl

/-- What a successful step of a label does. -/
lemma step_label_iff {name : String} (ha : s.action = .label name) :
    l.step s = (l', none) ↔
      ∃ t, l.bindHere s name = .ok t ∧ l' = { l.recorded with symbols := t } := by
  have hb : l.recorded.bindHere s name = l.bindHere s name := rfl
  simp only [recorded] at hb ⊢
  simp only [step, ha, hb]
  cases l.bindHere s name with
  | ok t => simp [eq_comm]
  | error f => simp

/-- What a successful step of an origin does. -/
lemma step_origin_iff {e : Expr} (ha : s.action = .origin e) :
    l.step s = (l', none) ↔
      ∃ value, l.evaluateNow s "ORG" e = .ok value ∧
        l' = { l.recorded with
          cursor := value, events := l.events.push (.origin value s.location.line) } := by
  have hv : l.recorded.evaluateNow s "ORG" e = l.evaluateNow s "ORG" e := rfl
  simp only [recorded] at hv ⊢
  simp only [step, ha, hv]
  cases l.evaluateNow s "ORG" e with
  | ok value => simp [eq_comm]
  | error f => simp

/-- What a successful step of an equate does. -/
lemma step_equate_iff {name : String} {e : Expr} (ha : s.action = .equate name e) :
    l.step s = (l', none) ↔
      ∃ value, l.evaluateNow s "EQU" e = .ok value ∧
        ∃ t, l.symbols.define name value (some s.location) true (some s.text) = .ok t ∧
          l' = { l.recorded with symbols := t } := by
  have hv : l.recorded.evaluateNow s "EQU" e = l.evaluateNow s "EQU" e := rfl
  simp only [recorded] at hv ⊢
  simp only [step, ha, hv]
  cases l.evaluateNow s "EQU" e with
  | ok value =>
    cases hd : l.symbols.define name value (some s.location) true (some s.text) with
    | ok t => simp [hd, eq_comm]
    | error f => simp [hd]
  | error f => simp

/-- What a successful step of a data directive does. -/
lemma step_data_iff {name : Option String} {width : Width} {e : Expr}
    (ha : s.action = .data name width e) :
    l.step s = (l', none) ↔
      ∃ t, name.elim (.ok l.symbols) (l.bindHere s) = .ok t ∧
        ∃ next, l.advance s width.size = .ok next ∧
          l' = { l.recorded with symbols := t, cursor := next } := by
  have hb : name.elim (.ok l.recorded.symbols) (l.recorded.bindHere s) =
      name.elim (.ok l.symbols) (l.bindHere s) := rfl
  have hv : l.recorded.advance s width.size = l.advance s width.size := rfl
  simp only [recorded] at hb hv ⊢
  simp only [step, ha, hb, hv]
  cases name.elim (.ok l.symbols) (l.bindHere s) with
  | ok t =>
    cases l.advance s width.size with
    | ok next => simp [eq_comm]
    | error f => simp
  | error f => simp

/-- What a successful step of an instruction does. -/
lemma step_instruction_iff {encoding : Encoding} {operands : List Operand}
    (ha : s.action = .instruction encoding operands) :
    l.step s = (l', none) ↔
      ∃ next, l.advance s encoding.size = .ok next ∧ l' = { l.recorded with cursor := next } := by
  have hv : l.recorded.advance s encoding.size = l.advance s encoding.size := rfl
  simp only [recorded] at hv ⊢
  simp only [step, ha, hv]
  cases l.advance s encoding.size with
  | ok next => simp [eq_comm]
  | error f => simp

/-- **One step of the first pass.** While the table agrees with an assignment on the names above a
statement, the step succeeds, and the table goes on to agree, exactly when the statement is resolved
under the assignment.

**Proof sketch.** By cases on the action. A bound name is fresh because the table binds exactly the
names above; the word that it gets is the assigned one because the table goes on to agree with the
assignment. An expression that is needed at once has only labels from above, so it means the same in
the table and under the assignment (`evaluateNow_eq_ok_iff`). -/
lemma step_ok_iff (h : Tracks σ above l.symbols) {next : Nat} :
    (∃ l', l.step s = (l', none) ∧ Tracks σ (above ++ s.action.names) l'.symbols ∧
        l'.cursor = next) ↔
      s.action.Resolved σ above l.cursor next := by
  cases ha : s.action with
  | label name =>
    simp only [step_label_iff ha]
    constructor
    · rintro ⟨_, ⟨t, ht, rfl⟩, htracks, rfl⟩
      obtain ⟨hfresh, hbinds⟩ := (bindHere_tracks_iff h).1 ⟨t, ht, htracks⟩
      exact ⟨by simpa [Action.names] using hfresh, by simp [Action.eager?], hbinds, rfl⟩
    · rintro ⟨hfresh, -, hbinds, rfl⟩
      obtain ⟨t, ht, htracks⟩ :=
        (bindHere_tracks_iff h).2 ⟨hfresh name (by simp [Action.names]), hbinds⟩
      exact ⟨_, ⟨t, ht, rfl⟩, htracks, rfl⟩
  | origin e =>
    simp only [step_origin_iff ha, evaluateNow_eq_ok_iff h]
    constructor
    · rintro ⟨_, ⟨value, ⟨hdeclared, v, hv, rfl⟩, rfl⟩, -, rfl⟩
      exact ⟨by simp [Action.names], by simpa [Action.eager?] using hdeclared, trivial, v, hv, rfl⟩
    · rintro ⟨-, hdeclared, -, v, hv, rfl⟩
      refine ⟨_, ⟨_, ⟨hdeclared e rfl, v, hv, rfl⟩, rfl⟩, ?_, rfl⟩
      simpa [Action.names] using h
  | equate name e =>
    simp only [step_equate_iff ha, evaluateNow_eq_ok_iff h]
    constructor
    · rintro ⟨_, ⟨value, ⟨hdeclared, v, hv, rfl⟩, t, ht, rfl⟩, htracks, rfl⟩
      obtain ⟨hfresh, hword⟩ := (define_tracks_iff h).1 ⟨t, ht, htracks⟩
      rw [BitVec.ofInt_natCast, BitVec.ofNat_toNat, BitVec.setWidth_eq] at hword
      exact ⟨by simpa [Action.names] using hfresh, by simpa [Action.eager?] using hdeclared,
        ⟨v, hv, hword⟩, rfl⟩
    · rintro ⟨hfresh, hdeclared, ⟨v, hv, hword⟩, rfl⟩
      obtain ⟨t, ht, htracks⟩ := (define_tracks_iff h).2
        ⟨hfresh name (by simp [Action.names]), by
          rwa [BitVec.ofInt_natCast, BitVec.ofNat_toNat, BitVec.setWidth_eq]⟩
      exact ⟨_, ⟨_, ⟨hdeclared e rfl, v, hv, rfl⟩, t, ht, rfl⟩, htracks, rfl⟩
  | data name width e =>
    simp only [step_data_iff ha, advance_eq_ok_iff]
    cases name with
    | none =>
      constructor
      · rintro ⟨_, ⟨_, -, next, hmoves, rfl⟩, -, rfl⟩
        exact ⟨by simp [Action.names], by simp [Action.eager?], trivial, hmoves⟩
      · rintro ⟨-, -, -, hmoves⟩
        refine ⟨_, ⟨_, rfl, next, hmoves, rfl⟩, ?_, rfl⟩
        simpa [Action.names] using h
    | some name =>
      constructor
      · rintro ⟨_, ⟨t, ht, next, hmoves, rfl⟩, htracks, rfl⟩
        obtain ⟨hfresh, hbinds⟩ := (bindHere_tracks_iff h).1 ⟨t, ht, htracks⟩
        exact ⟨by simpa [Action.names] using hfresh, by simp [Action.eager?], hbinds, hmoves⟩
      · rintro ⟨hfresh, -, hbinds, hmoves⟩
        obtain ⟨t, ht, htracks⟩ :=
          (bindHere_tracks_iff h).2 ⟨hfresh name (by simp [Action.names]), hbinds⟩
        exact ⟨_, ⟨t, ht, next, hmoves, rfl⟩, htracks, rfl⟩
  | instruction encoding operands =>
    simp only [step_instruction_iff ha, advance_eq_ok_iff]
    constructor
    · rintro ⟨_, ⟨next, hmoves, rfl⟩, -, rfl⟩
      exact ⟨by simp [Action.names], by simp [Action.eager?], trivial, hmoves⟩
    · rintro ⟨-, -, -, hmoves⟩
      refine ⟨_, ⟨next, hmoves, rfl⟩, ?_, rfl⟩
      simpa [Action.names] using h

/-! ## The symbols of the table -/

/-- The symbols of new names, each with a word. -/
def Binding (names : List String) (added : List Symbol) : Prop :=
  added.map Symbol.name = names ∧ ∀ s ∈ added, s.value < Word.count

/-- The symbol of a name that is bound to an integer. -/
lemma binding_singleton (name : String) (value : Int) (location : Option Location)
    (constant : Bool) : Binding [name] [⟨name, Word.ofInt value, location, constant⟩] :=
  ⟨rfl, by simpa using Word.ofInt_lt value⟩

/-- Binding a name to the current address appends one symbol. -/
lemma symbols_of_bindHere {name : String} {t : SymbolTable} (h : l.bindHere s name = .ok t) :
    ∃ added, t = ⟨l.symbols.symbols ++ added⟩ ∧ Binding [name] added := by
  unfold bindHere at h
  split at h
  · contradiction
  · exact ⟨_, (SymbolTable.define_eq_ok_iff.1 h).2, binding_singleton _ _ _ _⟩

/-- A successful step appends the symbols of the names that the statement binds. -/
lemma symbols_of_step (h : l.step s = (l', none)) :
    ∃ added, l'.symbols = ⟨l.symbols.symbols ++ added⟩ ∧ Binding s.action.names added := by
  have hnone : l.symbols = ⟨l.symbols.symbols ++ []⟩ := by simp
  have hempty : Binding [] [] := ⟨rfl, by simp⟩
  cases ha : s.action with
  | label name =>
    obtain ⟨t, ht, rfl⟩ := (step_label_iff ha).1 h
    exact symbols_of_bindHere ht
  | origin e =>
    obtain ⟨value, -, rfl⟩ := (step_origin_iff ha).1 h
    exact ⟨[], hnone, hempty⟩
  | equate name e =>
    obtain ⟨value, -, t, ht, rfl⟩ := (step_equate_iff ha).1 h
    exact ⟨_, (SymbolTable.define_eq_ok_iff.1 ht).2, binding_singleton _ _ _ _⟩
  | data name width e =>
    obtain ⟨t, ht, next, -, rfl⟩ := (step_data_iff ha).1 h
    cases name with
    | none =>
      cases ht
      exact ⟨[], hnone, hempty⟩
    | some name => exact symbols_of_bindHere ht
  | instruction encoding operands =>
    obtain ⟨next, -, rfl⟩ := (step_instruction_iff ha).1 h
    exact ⟨[], hnone, hempty⟩

/-- A step keeps the words of the table in range. -/
lemma inRange_of_step (h : l.step s = (l', none)) (hl : l.symbols.InRange) :
    l'.symbols.InRange := by
  obtain ⟨added, hadded, -, hlt⟩ := symbols_of_step h
  rw [hadded]
  exact hl.append hlt

/-- A step appends the names that its statement binds to the names of the table. -/
lemma names_of_step (h : l.step s = (l', none)) :
    l'.symbols.names = l.symbols.names ++ s.action.names := by
  obtain ⟨added, hadded, hnames, -⟩ := symbols_of_step h
  rw [hadded, SymbolTable.names_append, hnames]

/-- A table agrees with an assignment before a step if it does so after it. -/
lemma tracks_of_step (h : l.step s = (l', none)) (ht : Tracks σ l'.symbols.names l'.symbols) :
    Tracks σ l.symbols.names l.symbols := by
  obtain ⟨added, hadded, -⟩ := symbols_of_step h
  rw [hadded] at ht
  refine ⟨ht.inRange.of_append, fun _ => Iff.rfl, fun name hn => ?_⟩
  rw [← ht.agrees name (by rw [SymbolTable.names_append]; exact List.mem_append_left _ hn),
    SymbolTable.assignment_append hn]

/-! ## Runs -/

/-- The first pass over two lists of statements: the second list follows if the first succeeds. -/
lemma run_append (l : Layout) (first second : List Statement) :
    l.run (first ++ second) =
      match l.run first with
      | (l', none) => l'.run second
      | (l', some f) => (l', some f) := by
  induction first generalizing l with
  | nil => rfl
  | cons s first ih =>
    rw [List.cons_append, run, run]
    rcases l.step s with ⟨l₁, _ | f⟩
    · exact ih l₁
    · rfl

/-- The first pass succeeds on two lists of statements exactly when it succeeds on one after the
other. -/
lemma run_append_iff {first second : List Statement} :
    l.run (first ++ second) = (l', none) ↔
      ∃ l₁, l.run first = (l₁, none) ∧ l₁.run second = (l', none) := by
  rw [run_append]
  rcases l.run first with ⟨l₁, _ | f⟩ <;> simp

/-- The first pass succeeds on a list exactly when its first step does and the rest follows. -/
lemma run_cons_iff {ss : List Statement} :
    l.run (s :: ss) = (l', none) ↔ ∃ l₁, l.step s = (l₁, none) ∧ l₁.run ss = (l', none) := by
  rw [run]
  rcases l.step s with ⟨l₁, _ | f⟩ <;> simp

/-- The first pass over one statement is a step. -/
lemma run_singleton_iff : l.run [s] = (l', none) ↔ l.step s = (l', none) := by
  rw [run_cons_iff]
  simp [run]

/-- The names that statements bind, in their order. -/
def boundNames (ss : List Statement) : List String := ss.flatMap fun s => s.action.names

/-- A run keeps the words of the table in range. -/
lemma inRange_of_run {ss : List Statement} (h : l.run ss = (l', none))
    (hl : l.symbols.InRange) : l'.symbols.InRange := by
  induction ss generalizing l with
  | nil =>
    cases h
    exact hl
  | cons s ss ih =>
    obtain ⟨l₁, hs, hr⟩ := run_cons_iff.1 h
    exact ih hr (inRange_of_step hs hl)

/-- A run appends the names that its statements bind to the names of the table. -/
lemma names_of_run {ss : List Statement} (h : l.run ss = (l', none)) :
    l'.symbols.names = l.symbols.names ++ boundNames ss := by
  induction ss generalizing l with
  | nil =>
    cases h
    simp [boundNames]
  | cons s ss ih =>
    obtain ⟨l₁, hs, hr⟩ := run_cons_iff.1 h
    rw [ih hr, names_of_step hs, List.append_assoc]
    rfl

/-- A table agrees with an assignment before a run if it does so after it. -/
lemma tracks_of_run {ss : List Statement} (h : l.run ss = (l', none))
    (ht : Tracks σ l'.symbols.names l'.symbols) : Tracks σ l.symbols.names l.symbols := by
  induction ss generalizing l with
  | nil =>
    cases h
    exact ht
  | cons s ss ih =>
    obtain ⟨l₁, hs, hr⟩ := run_cons_iff.1 h
    exact tracks_of_step hs (ih hr)

end Layout

end Asm8080
