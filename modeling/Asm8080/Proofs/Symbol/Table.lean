import Asm8080.Proofs.Expr.Meaning

/-!
# Binding names in a symbol table

A symbol table grows by one symbol at a time, each with a name that is not bound yet. What it says
about the names that were bound before never changes. These facts are stated for the table that
results from appending symbols, so that they hold along any run that only binds names.

## Main definitions

* `Asm8080.SymbolTable.names` — the bound names in the order in which they were bound.

## Main results

* `Asm8080.SymbolTable.define_eq_ok_iff` — when a name can be bound, and the table that results.
* `Asm8080.SymbolTable.assignment_append` — symbols appended to a table leave the words of its names
  as they are.
-/

set_option autoImplicit false

namespace Asm8080.SymbolTable

variable {t : SymbolTable} {name : String}

/-- The bound names, in the order in which they were bound. -/
def names (t : SymbolTable) : List String := t.symbols.map Symbol.name

/-- A name is found exactly when it is one of the bound names. -/
lemma contains_iff_mem_names : t.contains name = true ↔ name ∈ t.names := by
  simp only [contains, get?, List.find?_isSome, names, List.mem_map, beq_iff_eq]

/-- A name is assigned a word exactly when it is one of the bound names. -/
lemma isSome_assignment_iff : (t.assignment name).isSome = true ↔ name ∈ t.names := by
  rw [isSome_assignment, contains_iff_mem_names]

/-- A name that is not bound is assigned nothing. -/
lemma assignment_eq_none (h : name ∉ t.names) : t.assignment name = none := by
  rw [← Option.not_isSome_iff_eq_none, isSome_assignment_iff]
  exact h

/-! ## Appending symbols -/

/-- The symbol with a name in a table to which symbols were appended. -/
lemma get?_append (xs ys : List Symbol) (name : String) :
    get? ⟨xs ++ ys⟩ name = (get? ⟨xs⟩ name).or (get? ⟨ys⟩ name) :=
  List.find?_append

/-- Symbols appended to a table leave the words of its names as they are. -/
lemma assignment_append {added : List Symbol} (h : name ∈ t.names) :
    assignment ⟨t.symbols ++ added⟩ name = t.assignment name := by
  obtain ⟨s, hs⟩ := Option.isSome_iff_exists.1 (contains_iff_mem_names.2 h)
  simp only [assignment, lookup, get?_append, hs, Option.some_or]

/-- What a symbol that was appended under a new name is bound to. -/
lemma lookup_append_self {s : Symbol} (h : s.name ∉ t.names) :
    lookup ⟨t.symbols ++ [s]⟩ s.name = some s.value := by
  have hn : get? ⟨t.symbols⟩ s.name = none := by
    rw [← Option.not_isSome_iff_eq_none]
    exact fun hs => h (contains_iff_mem_names.1 hs)
  simp only [lookup, get?_append, hn, Option.none_or]
  simp [get?]

/-- The word of a symbol that was appended under a new name. -/
lemma assignment_append_self {s : Symbol} (h : s.name ∉ t.names) :
    assignment ⟨t.symbols ++ [s]⟩ s.name = some (BitVec.ofNat 16 s.value) := by
  rw [assignment, lookup_append_self h, Option.map_some]

/-! ## Binding one name -/

variable {value : Int} {location : Option Location} {constant : Bool} {sourceLine : Option String}

/-- A name can be bound exactly when it is not bound; the symbol then comes last. -/
lemma define_eq_ok_iff {t' : SymbolTable} :
    t.define name value location constant sourceLine = .ok t' ↔
      name ∉ t.names ∧ t' = ⟨t.symbols ++ [⟨name, Word.ofInt value, location, constant⟩]⟩ := by
  rw [← contains_iff_mem_names, contains, define]
  cases t.get? name with
  | none => simp [eq_comm]
  | some s => simp

/-- The names of a table to which a symbol was appended. -/
lemma names_append (t : SymbolTable) (added : List Symbol) :
    names ⟨t.symbols ++ added⟩ = t.names ++ added.map Symbol.name :=
  List.map_append

/-- A table in range stays in range when a word is bound. -/
lemma InRange.append {added : List Symbol} (h : t.InRange)
    (ha : ∀ s ∈ added, s.value < Word.count) : InRange ⟨t.symbols ++ added⟩ := by
  intro s hs
  rcases List.mem_append.1 hs with hs | hs
  · exact h s hs
  · exact ha s hs

/-- A table is in range if it is so with more symbols. -/
lemma InRange.of_append {added : List Symbol} (h : InRange ⟨t.symbols ++ added⟩) : t.InRange :=
  fun s hs => h s (List.mem_append_left _ hs)

end Asm8080.SymbolTable
