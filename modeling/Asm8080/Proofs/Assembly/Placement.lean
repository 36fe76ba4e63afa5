import Asm8080.Proofs.Assembly.Layout

/-!
# Placements

The declarative side of the first pass: addresses for the statements of a program and words for the
names that it binds, such that every statement is in keeping with them. There is no order of
evaluation in it, and every expression is read under the same assignment. The first pass succeeds
exactly when a program has a placement, and computes the only one.

## Main definitions

* `Asm8080.Placement` — addresses and words that every statement of a program is in keeping with.
* `Asm8080.Layout.cursorAt` — the current address of the first pass before a statement.

## Main results

* `Asm8080.Placement.of_layout` — the first pass computes a placement.
* `Asm8080.Placement.layout` — if there is a placement, the first pass computes it.
-/

set_option autoImplicit false

namespace Asm8080

open Layout (boundNames)
open SymbolTable (Tracks)

/-- Addresses for the statements of a program, and words for exactly the names that it binds. The
names above a statement are those that earlier statements bind. -/
structure Placement (ss : List Statement) (address : Nat → Nat) (σ : Assignment) : Prop where
  start : address 0 = 0
  domain : ∀ name, (σ name).isSome ↔ name ∈ boundNames ss
  once : (boundNames ss).Nodup
  declared : ∀ i (h : i < ss.length), ∀ e ∈ ss[i].action.eager?, ∀ name ∈ e.labels,
    name ∈ boundNames (ss.take i)
  binds : ∀ i (h : i < ss.length), ss[i].action.Binds σ (address i)
  moves : ∀ i (h : i < ss.length), ss[i].action.Moves σ (address i) (address (i + 1))

/-! ## Names and prefixes of a program -/

namespace Layout

/-- The names that two lists of statements bind. -/
lemma boundNames_append (first second : List Statement) :
    boundNames (first ++ second) = boundNames first ++ boundNames second :=
  List.flatMap_append

/-- The names of a prefix with one more statement. -/
lemma boundNames_take_succ {ss : List Statement} {i : Nat} (h : i < ss.length) :
    boundNames (ss.take (i + 1)) = boundNames (ss.take i) ++ ss[i].action.names := by
  rw [List.take_succ_eq_append_getElem h, boundNames_append]
  simp [boundNames]

/-- An action binds a name at most once. -/
lemma nodup_names (a : Action) : a.names.Nodup := by
  rcases a with name | e | ⟨_ | name, width, e⟩ | ⟨name, e⟩ | ⟨encoding, operands⟩ <;>
    simp [Action.names]

/-- The names of a program are distinct exactly when every statement binds names that no earlier one
binds.

**Proof sketch.** From left to right, the names of a prefix and those of the next statement are
disjoint parts of all names. From right to left, induction on the length of a prefix: its names are
distinct, and the next statement adds names that are not among them. -/
lemma nodup_boundNames_iff {ss : List Statement} :
    (boundNames ss).Nodup ↔
      ∀ i (h : i < ss.length), ∀ name ∈ ss[i].action.names, name ∉ boundNames (ss.take i) := by
  constructor
  · intro hnodup i hi name hname habove
    have hsplit : boundNames ss =
        boundNames (ss.take i) ++ (ss[i].action.names ++ boundNames (ss.drop (i + 1))) := by
      rw [← List.append_assoc, ← boundNames_take_succ hi, ← boundNames_append,
        List.take_append_drop]
    rw [hsplit, List.nodup_append] at hnodup
    exact hnodup.2.2 name habove name (List.mem_append_left _ hname) rfl
  · intro hfresh
    have hprefix : ∀ i ≤ ss.length, (boundNames (ss.take i)).Nodup := by
      intro i
      induction i with
      | zero => simp [boundNames]
      | succ i ih =>
        intro hi
        rw [boundNames_take_succ hi, List.nodup_append]
        refine ⟨ih (by omega), nodup_names _, fun a ha b hb hab => ?_⟩
        exact hfresh i hi b hb (hab ▸ ha)
    simpa using hprefix ss.length (Nat.le_refl _)

/-- The current address of the first pass before statement `i` of a program. -/
def cursorAt (ss : List Statement) (i : Nat) : Nat := (ofStatements (ss.take i)).1.cursor

/-- If the first pass succeeds on a program, it does so on every prefix, and then on the rest. -/
lemma exists_prefix {ss : List Statement} {l : Layout} (h : ofStatements ss = (l, none)) (i : Nat) :
    ∃ l₁, ofStatements (ss.take i) = (l₁, none) ∧ l₁.run (ss.drop i) = (l, none) := by
  rw [← List.take_append_drop i ss] at h
  exact run_append_iff.1 h

/-- The layout of a prefix with one more statement comes from that of the prefix in one step. -/
lemma step_of_prefix {ss : List Statement} {i : Nat} (hi : i < ss.length) {l₁ l₂ : Layout}
    (h₁ : ofStatements (ss.take i) = (l₁, none))
    (h₂ : ofStatements (ss.take (i + 1)) = (l₂, none)) : l₁.step ss[i] = (l₂, none) := by
  rw [List.take_succ_eq_append_getElem hi] at h₂
  obtain ⟨l₁', h₁', hstep⟩ := run_append_iff.1 h₂
  obtain rfl : l₁ = l₁' := by
    have := h₁.symm.trans h₁'
    simpa using this
  exact run_singleton_iff.1 hstep

end Layout

/-! ## The first pass computes placements -/

namespace Placement

open Layout

variable {ss : List Statement} {address : Nat → Nat} {σ : Assignment} {l : Layout}

/-- In every prefix of a program on which the first pass succeeds, the table agrees with the final
one. -/
lemma prefix_tracks (h : ofStatements ss = (l, none)) {i : Nat} {l₁ : Layout}
    (h₁ : ofStatements (ss.take i) = (l₁, none)) :
    Tracks l.symbols.assignment (boundNames (ss.take i)) l₁.symbols := by
  obtain ⟨l₁', h₁', hrest⟩ := exists_prefix h i
  obtain rfl : l₁ = l₁' := by
    have := h₁.symm.trans h₁'
    simpa using this
  have hfinal : Tracks l.symbols.assignment l.symbols.names l.symbols :=
    ⟨inRange_of_run h SymbolTable.inRange_empty, fun _ => Iff.rfl, fun _ _ => rfl⟩
  have hnames : l₁.symbols.names = boundNames (ss.take i) := names_of_run h₁
  rw [← hnames]
  exact tracks_of_run hrest hfinal

/-- **The first pass computes a placement**: the recorded addresses and the final table.

**Proof sketch.** In every prefix the table agrees with the final one on the names bound so far
(`prefix_tracks`). So each step, which leads from one prefix to the next, shows that its statement
is resolved under the final assignment (`Layout.step_ok_iff`). -/
lemma of_layout (h : ofStatements ss = (l, none)) :
    Placement ss (cursorAt ss) l.symbols.assignment := by
  have hresolved : ∀ i (hi : i < ss.length), ss[i].action.Resolved l.symbols.assignment
      (boundNames (ss.take i)) (cursorAt ss i) (cursorAt ss (i + 1)) := by
    intro i hi
    obtain ⟨l₁, h₁, -⟩ := exists_prefix h i
    obtain ⟨l₂, h₂, -⟩ := exists_prefix h (i + 1)
    have hc₁ : cursorAt ss i = l₁.cursor := by rw [cursorAt, h₁]
    have hc₂ : cursorAt ss (i + 1) = l₂.cursor := by rw [cursorAt, h₂]
    rw [hc₁, hc₂, ← step_ok_iff (prefix_tracks h h₁)]
    refine ⟨l₂, step_of_prefix hi h₁ h₂, ?_, rfl⟩
    rw [← boundNames_take_succ hi]
    exact prefix_tracks h h₂
  refine ⟨rfl, fun name => ?_, ?_, fun i hi => (hresolved i hi).declared,
    fun i hi => (hresolved i hi).binds, fun i hi => (hresolved i hi).moves⟩
  · rw [SymbolTable.isSome_assignment_iff]
    exact (congrArg (name ∈ ·) (names_of_run h)).to_iff
  · exact nodup_boundNames_iff.2 fun i hi => (hresolved i hi).fresh

/-- **If there is a placement, the first pass computes it.**

**Proof sketch.** Induction on the length of a prefix: while the table agrees with the assignment of
the placement on the names bound so far, the next statement is resolved, so the step succeeds, moves
to the next address of the placement, and leaves a table that agrees (`Layout.step_ok_iff`). -/
lemma layout_take (h : Placement ss address σ) {i : Nat} (hi : i ≤ ss.length) :
    ∃ l, ofStatements (ss.take i) = (l, none) ∧ Tracks σ (boundNames (ss.take i)) l.symbols ∧
      l.cursor = address i ∧ l.addresses.toList = (List.range i).map address := by
  induction i with
  | zero => exact ⟨{}, rfl, Tracks.empty σ, h.start.symm, rfl⟩
  | succ i ih =>
    obtain ⟨l₁, h₁, htracks, hcursor, haddresses⟩ := ih (by omega)
    have hresolved : ss[i].action.Resolved σ (boundNames (ss.take i)) l₁.cursor
        (address (i + 1)) := by
      rw [hcursor]
      exact ⟨nodup_boundNames_iff.1 h.once i hi, h.declared i hi, h.binds i hi, h.moves i hi⟩
    obtain ⟨l₂, hstep, htracks₂, hcursor₂⟩ := (step_ok_iff htracks).2 hresolved
    refine ⟨l₂, ?_, ?_, hcursor₂, ?_⟩
    · rw [List.take_succ_eq_append_getElem hi]
      exact run_append_iff.2 ⟨l₁, h₁, run_singleton_iff.2 hstep⟩
    · rw [boundNames_take_succ hi]
      exact htracks₂
    · have hpush := addresses_step l₁ ss[i]
      rw [hstep] at hpush
      rw [show l₂.addresses = l₁.addresses.push l₁.cursor from hpush, Array.toList_push, haddresses,
        hcursor, List.range_succ, List.map_append, List.map_singleton]

/-- A placement is what the first pass computes: its addresses are recorded, and its words are those
of the final table. -/
lemma layout (h : Placement ss address σ) :
    ∃ l, ofStatements ss = (l, none) ∧ l.symbols.InRange ∧ l.symbols.assignment = σ ∧
      l.addresses.toList = (List.range ss.length).map address := by
  obtain ⟨l, hl, htracks, -, haddresses⟩ := h.layout_take (Nat.le_refl _)
  rw [List.take_length] at hl htracks
  refine ⟨l, hl, htracks.inRange, ?_, haddresses⟩
  funext name
  by_cases hname : name ∈ boundNames ss
  · exact htracks.agrees name hname
  · rw [SymbolTable.assignment_eq_none fun hn => hname ((htracks.mem_names _).1 hn)]
    exact (Option.not_isSome_iff_eq_none.1 fun hs => hname ((h.domain name).1 hs)).symm

end Placement

end Asm8080
