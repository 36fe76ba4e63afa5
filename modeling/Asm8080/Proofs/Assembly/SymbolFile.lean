import Asm8080.Proofs.Assembly.Names
import Asm8080.Proofs.Command.SourceFile
import Asm8080.Proofs.Symbol.File
import Asm8080.Proofs.Text.Written

/-!
# The symbol file of a program is read back

A symbol file lists the names of a program in their order, and reading it gives one name to each
value, the first that is listed. What is read is therefore the least name of each value. This rests
on what names a program can have: a name that is blank, begins with the mark of a comment or has
white space inside would not be found again on its line.

## Main definitions

* `Asm8080.SymbolFile.firstNames` — the first name of each value in a list of symbols.
* `Asm8080.SymbolFile.LeastName` — the least name that is bound to a value.
* `Asm8080.SymbolFile.LeastNames` — names for values are the least ones of symbols.

## Main results

* `Asm8080.SymbolFile.readLine_line` — the line of a symbol is read as its value and its name.
* `Asm8080.SymbolFile.read_text` — the symbol file of a table is read as the first name of each
  value.
* `Asm8080.SymbolFile.leastNames_firstNames` — the first names of values in symbols that are sorted
  are the least ones.
* `Asm8080.Workbench.read_symbolFile` — what is read from the symbol file of a program.
-/

set_option autoImplicit false

namespace Asm8080

/-! ## One line -/

namespace Text

/-- Two words with a space between them. -/
lemma words_pair {first second : String} (hfirst : first ≠ "") (hsecond : second ≠ "")
    (hblank : ∀ c ∈ first.toList ++ second.toList, isBlank c = false) :
    words (first ++ " " ++ second) = [first, second] := by
  obtain ⟨hblank₁, hblank₂⟩ := List.forall_mem_append.1 hblank
  rw [String.append_assoc, words_cons hfirst hblank₁ (by decide) isBlank_space,
    words_of_word hsecond hblank₂]

end Text

namespace SymbolFile

/-- Name characters and hexadecimal digits are no white space and no line break. -/
lemma plain_of_isNameChar {c : Char} (h : isNameChar c = true) :
    Text.isBlank c = false ∧ Text.isLineBreak c = false ∧ c ≠ '#' :=
  isNameChar_elim (P := fun c => isNameChar c = true →
    Text.isBlank c = false ∧ Text.isLineBreak c = false ∧ c ≠ '#') (by decide +kernel) h h

/-- The characters of a value are name characters. -/
lemma isNameChar_of_mem_value {value : Nat} :
    ∀ c ∈ (Hex.padded 4 value ++ "H").toList, isNameChar c = true := by
  intro c hc
  rw [String.toList_append, Hex.padded, String.toList_ofList] at hc
  rcases List.mem_append.1 hc with hc | hc
  · exact (Hex.isDigit_of_mem_paddedChars hc).isNameChar
  · obtain rfl := List.mem_singleton.1 hc
    decide

/-- The line of a symbol is its name, a space and its value. -/
lemma line_eq (name : String) (value : Nat) :
    line (name, value) = name ++ " " ++ (Hex.padded 4 value ++ "H") :=
  String.append_assoc

/-- The first character of the line of a symbol is that of its name, and the last one is `H`. -/
lemma ends_line {name : String} (hname : IsName name) (value : Nat) :
    (∃ c, (line (name, value)).toList.head? = some c ∧ isNameChar c = true) ∧
      (line (name, value)).toList.getLast? = some 'H' := by
  obtain ⟨c, tail, hchars, -⟩ := id hname
  refine ⟨⟨c, ?_, hname.isNameChar c (by simp [hchars])⟩, ?_⟩
  · simp [line, hchars]
  · rw [line, String.toList_append]
    exact List.getLast?_concat

/-- **The line of a symbol** is read as its value and its name. -/
lemma readLine_line {name : String} (hname : IsName name) (value : Nat) (file : String)
    (number : Nat) : readLine file number (line (name, value)) = .ok (some (value, name)) := by
  obtain ⟨⟨c, hhead, hc⟩, hlast⟩ := ends_line hname value
  have hstrip : Text.strip (line (name, value)) = line (name, value) := by
    rw [Text.strip, Text.stripChars_eq_self, String.ofList_toList]
    · rw [hhead]
      rintro _ ⟨⟩
      exact (plain_of_isNameChar hc).1
    · rw [hlast]
      rintro _ ⟨⟩
      decide
  have hsilent : ¬(line (name, value) = "" ∨ (line (name, value)).front = '#') := by
    rintro (hempty | hfront)
    · rw [hempty] at hhead
      cases hhead
    · rw [String.front_eq, String.front?_eq, hhead] at hfront
      exact (plain_of_isNameChar hc).2.2 hfront
  have hwords : Text.words (line (name, value)) = [name, Hex.padded 4 value ++ "H"] := by
    rw [line_eq]
    refine Text.words_pair ?_ ?_ ?_
    · rintro rfl
      obtain ⟨c, tail, hchars, -⟩ := hname
      cases hchars
    · intro hempty
      simpa using congrArg String.length hempty
    · exact List.forall_mem_append.2 ⟨fun c hc => (plain_of_isNameChar (hname.isNameChar c hc)).1,
        fun c hc => (plain_of_isNameChar (isNameChar_of_mem_value c hc)).1⟩
  have hdigits : valueDigits? (Hex.padded 4 value ++ "H") = some (Hex.padded 4 value) :=
    valueDigits?_eq_some_iff.2 (.inl rfl)
  have hread : Integer.read 16 (Hex.padded 4 value) = .ok (value : Int) := by
    rw [Hex.padded, Integer.read_hex (Hex.paddedChars_ne_nil 4 value)
      fun c hc => Hex.isDigit_of_mem_paddedChars hc, Hex.valueOf_paddedChars]
  simp only [readLine, hstrip, Bool.or_eq_true, decide_eq_true_eq, hsilent, if_false, hwords,
    hdigits, hread]

/-- The line of a symbol has no line break. -/
lemma isLineBreak_of_mem_line {name : String} (hname : IsName name) (value : Nat) :
    ∀ c ∈ (line (name, value)).toList, Text.isLineBreak c = false := by
  intro c hc
  rw [line_eq, String.toList_append, String.toList_append, List.mem_append, List.mem_append] at hc
  rcases hc with (hc | hc) | hc
  · exact (plain_of_isNameChar (hname.isNameChar c hc)).2.1
  · obtain rfl := List.mem_singleton.1 hc
    decide
  · exact (plain_of_isNameChar (isNameChar_of_mem_value c hc)).2.1

/-! ## All lines -/

/-- The first name of each value in a list of symbols. -/
def firstNames (symbols : List (String × Nat)) : List (Int × String) :=
  symbols.foldl (fun names symbol => addFirst names (symbol.2, symbol.1)) []

/-- The lines of symbols are read one after another. -/
lemma readLines_map_line {symbols : List (String × Nat)} (h : ∀ p ∈ symbols, IsName p.1)
    (file : String) (number : Nat) (names : List (Int × String)) :
    readLines file number names (symbols.map line) =
      .ok (symbols.foldl (fun names symbol => addFirst names (symbol.2, symbol.1)) names) := by
  induction symbols generalizing number names with
  | nil => rfl
  | cons p symbols ih =>
    obtain ⟨hp, hsymbols⟩ := List.forall_mem_cons.1 h
    rw [List.map_cons, readLines, readLine_line hp, List.foldl_cons]
    exact ih hsymbols (number + 1) _

/-- The lines of a symbol file. -/
lemma splitLines_text {t : SymbolTable} (h : ∀ p ∈ t.sorted, IsName p.1) :
    Text.splitLines (text t) = "# Symbol table" :: t.sorted.map line := by
  have hcomment : "# Symbol table".toList.all (fun c => !Text.isLineBreak c) = true := rfl
  refine Text.splitLines_joinLines (List.forall_mem_cons.2
    ⟨fun c hc => by simpa using List.all_eq_true.1 hcomment c hc, ?_⟩)
  refine List.forall_mem_map.2 fun p hp => ?_
  exact isLineBreak_of_mem_line (h p hp) p.2

/-- **The symbol file of a table** is read as the first name of each value. -/
lemma read_text {t : SymbolTable} (h : ∀ p ∈ t.sorted, IsName p.1) (file : String) :
    read file (text t) = .ok (firstNames t.sorted) := by
  have hfront : (Text.strip "# Symbol table").front = '#' := by decide +kernel
  have hcomment : readLine file 1 "# Symbol table" = .ok none := by
    simp only [readLine, hfront, decide_true, Bool.or_true, if_true]
  rw [read, splitLines_text h, readLines, hcomment]
  exact readLines_map_line h file 2 []

/-! ## The first name of a value -/

/-- The least name that is bound to a value. -/
def LeastName (symbols : List (String × Nat)) (value : Nat) (name : String) : Prop :=
  (name, value) ∈ symbols ∧ ∀ other, (other, value) ∈ symbols → name ≤ other

/-- A further symbol with a greater name and a value that has one leaves the least names. -/
lemma leastName_concat_of_named {symbols : List (String × Nat)} {name first : String} {value : Nat}
    (hname : ∀ q ∈ symbols, q.1 < name) (hfirst : (first, value) ∈ symbols) (v : Nat)
    (n : String) : LeastName (symbols ++ [(name, value)]) v n ↔ LeastName symbols v n := by
  constructor
  · rintro ⟨hn, hleast⟩
    rcases List.mem_append.1 hn with hn | hn
    · exact ⟨hn, fun other hother => hleast other (List.mem_append_left _ hother)⟩
    · -- the greater name is not the least, since its value has another one
      obtain ⟨rfl, rfl⟩ := Prod.mk.inj (List.mem_singleton.1 hn)
      have hle := hleast first (List.mem_append_left _ hfirst)
      exact absurd (hname _ hfirst) (String.not_lt.2 hle)
  · rintro ⟨hn, hleast⟩
    refine ⟨List.mem_append_left _ hn, fun other hother => ?_⟩
    rcases List.mem_append.1 hother with hother | hother
    · exact hleast other hother
    · obtain ⟨rfl, -⟩ := Prod.mk.inj (List.mem_singleton.1 hother)
      exact String.not_lt.1 (String.lt_asymm (hname _ hn))

/-- A further symbol with a value that has no name is the least name of that value. -/
lemma leastName_concat_of_unnamed {symbols : List (String × Nat)} {name : String} {value : Nat}
    (hnone : ∀ other, (other, value) ∉ symbols) (v : Nat) (n : String) :
    LeastName (symbols ++ [(name, value)]) v n ↔
      LeastName symbols v n ∨ (v = value ∧ n = name) := by
  constructor
  · rintro ⟨hn, hleast⟩
    rcases List.mem_append.1 hn with hn | hn
    · exact .inl ⟨hn, fun other hother => hleast other (List.mem_append_left _ hother)⟩
    · obtain ⟨rfl, rfl⟩ := Prod.mk.inj (List.mem_singleton.1 hn)
      exact .inr ⟨rfl, rfl⟩
  · rintro (⟨hn, hleast⟩ | ⟨rfl, rfl⟩)
    · refine ⟨List.mem_append_left _ hn, fun other hother => ?_⟩
      rcases List.mem_append.1 hother with hother | hother
      · exact hleast other hother
      · obtain ⟨-, rfl⟩ := Prod.mk.inj (List.mem_singleton.1 hother)
        exact absurd hn (hnone n)
    · refine ⟨List.mem_append_right _ (List.mem_singleton_self _), fun other hother => ?_⟩
      rcases List.mem_append.1 hother with hother | hother
      · exact absurd hother (hnone other)
      · obtain ⟨rfl, -⟩ := Prod.mk.inj (List.mem_singleton.1 hother)
        exact String.le_refl _

/-- **Names for values are the least ones of symbols**, in the order of the symbols: each value has
one name, and it is the least that is bound to it. -/
structure LeastNames (symbols : List (String × Nat)) (names : List (Int × String)) : Prop where
  order : names.Sublist (symbols.map fun p => ((p.2 : Int), p.1))
  once : (names.map Prod.fst).Nodup
  covers : ∀ p ∈ symbols, ∃ name, ((p.2 : Int), name) ∈ names
  mem_iff : ∀ (value : Nat) name, ((value : Int), name) ∈ names ↔ LeastName symbols value name

/-- The entries of such names are values and their least names. -/
lemma LeastNames.mem_entry_iff {symbols : List (String × Nat)} {names : List (Int × String)}
    (h : LeastNames symbols names) {address : Int} {name : String} :
    (address, name) ∈ names ↔
      ∃ value : Nat, address = value ∧ LeastName symbols value name := by
  constructor
  · intro hentry
    obtain ⟨p, -, hp⟩ := List.mem_map.1 (h.order.subset hentry)
    obtain ⟨rfl, rfl⟩ := Prod.mk.inj hp
    exact ⟨p.2, rfl, (h.mem_iff p.2 p.1).1 hentry⟩
  · rintro ⟨value, rfl, hleast⟩
    exact (h.mem_iff value name).2 hleast

/-- Such names are sorted if the symbols are. -/
lemma LeastNames.pairwise {symbols : List (String × Nat)} {names : List (Int × String)}
    (h : LeastNames symbols names) (hsymbols : symbols.Pairwise fun p q => p.1 < q.1) :
    names.Pairwise fun a b => a.2 < b.2 := by
  have hmap : (symbols.map fun p => ((p.2 : Int), p.1)).Pairwise fun a b => a.2 < b.2 :=
    List.pairwise_map.2 hsymbols
  exact hmap.sublist h.order

/-- One more symbol, whose name comes after all others. -/
lemma LeastNames.addFirst {symbols : List (String × Nat)} {names : List (Int × String)}
    (h : LeastNames symbols names) {name : String} {value : Nat}
    (hname : ∀ q ∈ symbols, q.1 < name) :
    LeastNames (symbols ++ [(name, value)]) (addFirst names (value, name)) := by
  by_cases hnamed : ∃ first, ((value : Int), first) ∈ names
  · -- the value has a smaller name, which stays
    obtain ⟨first, hfirst⟩ := hnamed
    have hany : names.any (fun other => other.1 == (value : Int)) = true :=
      List.any_eq_true.2 ⟨_, hfirst, beq_self_eq_true _⟩
    rw [SymbolFile.addFirst, if_pos hany]
    refine ⟨?_, h.once, ?_, fun v n => ?_⟩
    · rw [List.map_append]
      exact h.order.trans (List.sublist_append_left _ _)
    · exact List.forall_mem_append.2 ⟨h.covers, List.forall_mem_singleton.2 ⟨first, hfirst⟩⟩
    · rw [h.mem_iff, leastName_concat_of_named hname ((h.mem_iff value first).1 hfirst).1]
  · -- the value has no name so far
    have hfresh : ∀ entry ∈ names, entry.1 ≠ (value : Int) := by
      rintro ⟨v, n⟩ hn rfl
      exact hnamed ⟨n, hn⟩
    have hany : ¬names.any (fun other => other.1 == (value : Int)) = true := by
      simpa using hnamed
    have hnone : ∀ other, (other, value) ∉ symbols := fun other hother =>
      hnamed (h.covers _ hother)
    rw [SymbolFile.addFirst, if_neg hany]
    refine ⟨?_, ?_, ?_, fun v n => ?_⟩
    · rw [List.map_append]
      exact h.order.append (List.Sublist.refl _)
    · rw [List.map_append, List.nodup_append]
      refine ⟨h.once, List.nodup_singleton _, fun a ha b hb => ?_⟩
      obtain ⟨entry, hentry, rfl⟩ := List.mem_map.1 ha
      rw [List.mem_singleton.1 hb]
      exact hfresh entry hentry
    · refine List.forall_mem_append.2 ⟨fun p hp => ?_, List.forall_mem_singleton.2 ?_⟩
      · obtain ⟨first, hfirst⟩ := h.covers p hp
        exact ⟨first, List.mem_append_left _ hfirst⟩
      · exact ⟨name, List.mem_append_right _ (List.mem_singleton_self _)⟩
    · rw [leastName_concat_of_unnamed hnone, List.mem_append, h.mem_iff, List.mem_singleton]
      simp

/-- **The first name of each value in symbols that are sorted by name** is the least.

**Proof sketch.** Induction on the symbols from the end: the last name comes after all others, so it
is the name of its value only if the value has no other. -/
lemma leastNames_firstNames {symbols : List (String × Nat)}
    (h : symbols.Pairwise fun p q => p.1 < q.1) : LeastNames symbols (firstNames symbols) := by
  induction symbols using List.reverseRecOn with
  | nil => exact ⟨List.Sublist.refl _, List.nodup_nil, by simp, by simp [firstNames, LeastName]⟩
  | append_singleton symbols p ih =>
    obtain ⟨hsymbols, -, hp⟩ := List.pairwise_append.1 h
    rw [firstNames, List.foldl_append]
    exact (ih hsymbols).addFirst fun q hq => hp q hq p (List.mem_singleton_self p)

end SymbolFile

/-! ## Sorted symbols -/

namespace SymbolTable

/-- Sorting moves the entries of a table. -/
lemma sorted_perm (t : SymbolTable) : t.sorted.Perm t.toList :=
  List.mergeSort_perm _ _

/-- **The sorted entries of a table** come in the order of their names, each once. -/
lemma pairwise_sorted {t : SymbolTable} (h : t.names.Nodup) :
    t.sorted.Pairwise fun p q => p.1 < q.1 := by
  have hle : t.sorted.Pairwise fun p q => p.1 ≤ q.1 := by
    refine (List.pairwise_mergeSort ?_ ?_ t.toList).imp fun hpq => of_decide_eq_true hpq
    · intro a b c hab hbc
      exact decide_eq_true (String.le_trans (of_decide_eq_true hab) (of_decide_eq_true hbc))
    · intro a b
      simpa using String.le_total a.1 b.1
  have hne : t.sorted.Pairwise fun p q => p.1 ≠ q.1 := by
    have hnodup : (t.sorted.map Prod.fst).Nodup := by
      rw [(t.sorted_perm.map Prod.fst).nodup_iff, map_fst_toList]
      exact h
    exact List.pairwise_map.1 hnodup
  refine (hle.and hne).imp fun hpq => ?_
  exact String.not_le.1 fun hqp => hpq.2 (String.le_antisymm hpq.1 hqp)

end SymbolTable

/-! ## The file -/

namespace Text

/-- A text without a carriage return has its line ends as they should be. -/
lemma unifyNewlines_eq_self {cs : List Char} (h : '\r' ∉ cs) : unifyNewlines cs = cs := by
  fun_induction unifyNewlines cs with
  | case1 => rfl
  | case2 cs ih | case3 cs hcs ih => exact absurd List.mem_cons_self h
  | case4 c cs hpair hlone ih => rw [ih fun hmem => h (List.mem_cons_of_mem _ hmem)]

end Text

/-- A symbol file has no carriage return. -/
lemma SymbolFile.return_notMem_text {t : SymbolTable} (h : ∀ p ∈ t.sorted, IsName p.1) :
    '\r' ∉ (text t).toList := by
  rw [text, Text.toList_joinLines_cons]
  intro hmem
  obtain ⟨line, hline, hreturn⟩ := List.mem_flatMap.1 hmem
  have hbreak : '\r' ∉ line.toList := by
    intro hc
    rcases List.mem_cons.1 hline with rfl | hline
    · exact absurd hc (by decide)
    · obtain ⟨p, hp, rfl⟩ := List.mem_map.1 hline
      cases isLineBreak_of_mem_line (h p hp) p.2 _ hc
  rcases List.mem_append.1 hreturn with hreturn | hreturn
  · exact hbreak hreturn
  · exact absurd hreturn (by decide)

namespace Workbench

/-- The names in the symbol table of an assembled program are distinct. -/
lemma nodup_names_of_assemble {w : Workbench} {source file : String} {code : List UInt8}
    (h : (w.assemble source file).outcome = .ok code) :
    (w.assemble source file).workbench.symbols.names.Nodup := by
  obtain ⟨ss, -, hcode, hworkbench⟩ := exists_read_of_assemble h
  obtain ⟨l, hl, hsymbols⟩ := exists_layout_of_generate hcode
  rw [hworkbench, hsymbols, Layout.names_of_run hl]
  exact (Placement.of_layout hl).once

/-- **The symbol file of a program is read back.** After a program has been assembled, its symbol
file is read as a map that sends each value in the symbol table to the least name that is bound to
it, with the entries in the order of these names; and so it is if it has been written to a file and
is read from there. The lines of the symbol file are a comment and one line for each symbol, sorted
by name, and each of these lines is read as its value and its name.

**Proof sketch.** The names of a program have the shape of a name (`labelName_of_assemble`), so that
each line is read as it was written (`SymbolFile.readLine_line`). The lines are sorted by name, and
reading them keeps the first name of each value (`SymbolFile.leastNames_firstNames`). -/
theorem read_symbolFile (w : Workbench) (source file : String) (code : List UInt8)
    (h : (w.assemble source file).outcome = .ok code) :
    let after := (w.assemble source file).workbench
    (∃ entries : List (Int × String),
      (∀ path, SymbolFile.read path after.symbolFile = .ok entries) ∧
      (∀ (files files' : FileTree) (path : Path),
        files.write path (Utf8.encode after.symbolFile) = .ok files' →
        ∃ text, files'.readText path = .ok text ∧
          SymbolFile.read path.text text = .ok entries) ∧
      (entries.map Prod.fst).Nodup ∧
      (∀ address name, (address, name) ∈ entries ↔
        ∃ value : Nat, address = value ∧
          SymbolFile.LeastName after.symbols.toList value name) ∧
      entries.Pairwise fun a b => a.2 < b.2) ∧
    (∃ symbols : List (String × Nat), symbols.Perm after.symbols.toList ∧
      (symbols.Pairwise fun p q => p.1 < q.1) ∧
      Text.splitLines after.symbolFile =
        "# Symbol table" :: symbols.map SymbolFile.line) ∧
    ∀ p ∈ after.symbols.toList, ∀ path number,
      SymbolFile.readLine path number (SymbolFile.line p) = .ok (some (p.2, p.1)) := by
  intro after
  have hperm := after.symbols.sorted_perm
  have hnames : ∀ p ∈ after.symbols.toList, IsName p.1 := fun p hp =>
    (labelName_of_assemble h p hp).shape
  have hsorted : ∀ p ∈ after.symbols.sorted, IsName p.1 := fun p hp =>
    hnames p (hperm.mem_iff.1 hp)
  have horder : after.symbols.sorted.Pairwise fun p q => p.1 < q.1 :=
    SymbolTable.pairwise_sorted (nodup_names_of_assemble h)
  have hleast := SymbolFile.leastNames_firstNames horder
  refine ⟨⟨_, SymbolFile.read_text hsorted, ?_, hleast.once, ?_, ?_⟩,
    ⟨_, hperm, horder, SymbolFile.splitLines_text hsorted⟩, fun p hp path number =>
      SymbolFile.readLine_line (hnames p hp) p.2 path number⟩
  · intro files files' path hwrite
    have htext := FileTree.readText_write hwrite
    rw [symbolFile, Text.unifyNewlines_eq_self (SymbolFile.return_notMem_text hsorted),
      String.ofList_toList] at htext
    exact ⟨_, htext, SymbolFile.read_text hsorted path.text⟩
  · intro address name
    rw [hleast.mem_entry_iff]
    simp only [SymbolFile.LeastName, hperm.mem_iff]
  · exact hleast.pairwise horder

/-- A text in which two names have the value 5. -/
def sharingText : String := "zz EQU 5\nStart: NOP\n_ab EQU 5\nlast: NOP\n"

/-- Of the two names with the value 5 the lesser one is read. -/
theorem read_symbolFile_sharingText :
    ∃ code, (padding.assemble sharingText "names.asm").outcome = .ok code ∧
      let after := (padding.assemble sharingText "names.asm").workbench
      after.symbols.toList = [("ZZ", 5), ("START", 0), ("_AB", 5), ("LAST", 1)] ∧
      ∃ entries : List (Int × String),
        (∀ path, SymbolFile.read path after.symbolFile = .ok entries) ∧
        (entries.Pairwise fun a b => a.2 < b.2) ∧ (5, "ZZ") ∈ entries ∧ (5, "_AB") ∉ entries := by
  have hsample : (padding.assemble sharingText "names.asm").outcome =
        .ok [0x00, 0x00, 0xAA, 0xAA, 0xAA, 0xAA, 0xAA, 0xAA] ∧
      (padding.assemble sharingText "names.asm").workbench.symbols.toList =
        [("ZZ", 5), ("START", 0), ("_AB", 5), ("LAST", 1)] := by decide +kernel
  obtain ⟨⟨entries, hread, -, -, hmem, horder⟩, -⟩ :=
    read_symbolFile padding sharingText "names.asm" _ hsample.1
  simp only [hsample.2, SymbolFile.LeastName] at hmem
  refine ⟨_, hsample.1, hsample.2, entries, hread, horder, (hmem _ _).2 ⟨5, rfl, ?_, ?_⟩, ?_⟩
  · decide
  · simp only [List.mem_cons, Prod.mk.injEq, List.not_mem_nil]
    rintro other (⟨rfl, -⟩ | ⟨-, h⟩ | ⟨rfl, -⟩ | ⟨-, h⟩ | h)
    · decide
    · cases h
    · decide
    · cases h
    · cases h
  · intro hkept
    obtain ⟨value, hvalue, -, hleast⟩ := (hmem _ _).1 hkept
    obtain rfl : value = 5 := by omega
    exact absurd (hleast "ZZ" (by decide)) (by decide)

end Workbench

end Asm8080
