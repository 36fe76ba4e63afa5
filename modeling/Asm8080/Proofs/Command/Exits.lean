import Asm8080.Proofs.Assembly.Failures
import Asm8080.Proofs.Assembly.Session
import Asm8080.Proofs.Command.Writes
import Asm8080.Proofs.Symbol.File

/-!
# Commands that end with an internal error

A command ends with code 3 if it fails in a way that it does not foresee. What a user hands to a
command should not lead there: malformed numbers and addresses are invalid arguments, and malformed
programs are errors of the program. There are exceptions, though, and the results here list all of
them, for any command line, environment and files.

The assembler breaks on a number out of range that is too long to be shown, on a literal of the
program with too many digits, and on a path to write that leads through a file or is too long. The
disassembler breaks on a malformed symbol file, on a path to write of that kind, and on an image
whose name is not UTF-8.

## Main definitions

* `Asm8080.Breaks` — a computation that fails with an internal error.
* `Asm8080.FileTree.Stops`, `Asm8080.FileTree.Strays` — writing files comes to an obstructed path,
  or to a text that cannot be encoded.
* `Asm8080.AssembleCommand.Unforeseen`, `Asm8080.DisassembleCommand.Unforeseen` — what the commands
  do not foresee.

## Main results

* `Asm8080.Outcome.exit_eq_internalError_iff` — when carrying out what was prepared breaks.
* `Asm8080.AssembleCommand.breaks_prepare_iff`, `Asm8080.DisassembleCommand.breaks_prepare_iff` —
  when a command breaks before it writes.
* `Asm8080.internalError_iff_unforeseen` — when a command ends with code 3.
-/

set_option autoImplicit false

namespace Asm8080

/-! ## Computations that break -/

/-- A computation that fails with an internal error. -/
def Breaks {α : Type} (x : Except Trouble α) : Prop :=
  ∃ trouble, x = .error trouble ∧ trouble.exit = .internalError

namespace Breaks

variable {α β : Type}

/-- A computation that gives a result does not break. -/
@[simp] lemma ok_iff (a : α) : Breaks (.ok a) ↔ False := by simp [Breaks]

/-- Trouble breaks a computation if it is an internal error. -/
@[simp] lemma error_iff (trouble : Trouble) :
    Breaks (.error trouble : Except Trouble α) ↔ trouble.exit = .internalError := by simp [Breaks]

/-- A computation in two steps breaks if the first step does, or the second after the first. -/
lemma bind_iff {x : Except Trouble α} {f : α → Except Trouble β} :
    Breaks (x >>= f) ↔ Breaks x ∨ ∃ a, x = .ok a ∧ Breaks (f a) := by
  cases x with
  | error trouble => simp [bind, Except.bind]
  | ok a => simp [bind, Except.bind]

/-- A computation breaks exactly when what is made of its result does. -/
lemma map_iff {x : Except Trouble α} {f : α → β} : Breaks (f <$> x) ↔ Breaks x := by
  cases x <;> simp [Functor.map, Except.map]

/-- An option that is given is computed with; without one nothing breaks. -/
lemma elim_iff {x : Option α} {b : β} {f : α → Except Trouble β} :
    Breaks (x.elim (.ok b) f) ↔ ∃ a ∈ x, Breaks (f a) := by
  cases x <;> simp

end Breaks

/-! ## Writing -/

/-- A file that cannot be used is an internal error if it is its path that is at fault. -/
lemma Trouble.exit_file_eq_internalError_iff (fault : FileFault) :
    (Trouble.text (.file fault)).exit = .internalError ↔
      FileTree.isObstacle fault.kind = true := by
  obtain ⟨kind, path⟩ := fault
  cases kind <;> simp [exit, FileTree.isObstacle]

namespace FileTree

variable {t : FileTree}

/-- Writing files comes to a file that has a property when its turn comes. -/
def Meets (t : FileTree) (ws : List Write) (P : FileTree → Write → Prop) : Prop :=
  ∃ front w rest, ws = front ++ w :: rest ∧ (t.perform front).2.2 = none ∧
    P (t.perform front).1 w

/-- Writing files stops at an obstructed path. -/
def Stops (t : FileTree) (ws : List Write) : Prop :=
  t.Meets ws fun t w => t.Obstructed w.path

/-- Writing files stops at contents that cannot be encoded, when their file is open. -/
def Strays (t : FileTree) (ws : List Write) : Prop :=
  t.Meets ws fun t w =>
    (∃ opened, t.write w.path [] = .ok opened) ∧ ∃ fault, w.contents.encoded = .error fault

/-- What writing files comes to is the first of them, or comes after it. -/
lemma meets_cons_iff {w : Write} {ws : List Write} {P : FileTree → Write → Prop} :
    t.Meets (w :: ws) P ↔ P t w ∨ ∃ t', t.store w = .ok t' ∧ t'.Meets ws P := by
  constructor
  · rintro ⟨_ | ⟨w', front⟩, x, rest, hws, hfront, hx⟩
    · obtain ⟨rfl, -⟩ := List.cons.inj hws
      exact .inl hx
    · obtain ⟨rfl, rfl⟩ := List.cons.inj hws
      cases hw : t.store w with
      | error failed =>
        rw [perform_cons_of_error hw] at hfront
        cases hfront
      | ok t' =>
        rw [perform_cons_of_ok hw] at hfront hx
        exact .inr ⟨t', rfl, front, x, rest, rfl, hfront, hx⟩
  · rintro (hw | ⟨t', hw, front, x, rest, rfl, hfront, hx⟩)
    · exact ⟨[], w, ws, rfl, rfl, hw⟩
    · refine ⟨w :: front, x, rest, rfl, ?_⟩
      rw [perform_cons_of_ok hw]
      exact ⟨hfront, hx⟩

/-- There is nothing to come to without files. -/
lemma not_meets_nil (t : FileTree) (P : FileTree → Write → Prop) : ¬t.Meets [] P := by
  rintro ⟨front, w, rest, hws, -⟩
  simp at hws

/-- **Writing files fails** at the first of them that cannot be written. -/
lemma perform_eq_some_iff {ws : List Write} {fault : TextFault} :
    (t.perform ws).2.2 = some fault ↔
      t.Meets ws fun t w => ∃ left, t.store w = .error (left, fault) := by
  induction ws generalizing t with
  | nil => exact iff_of_false (by simp [perform]) (not_meets_nil t _)
  | cons w ws ih =>
    rw [meets_cons_iff]
    cases hw : t.store w with
    | error failed =>
      obtain ⟨left, fault'⟩ := failed
      rw [perform_cons_of_error hw]
      simp
    | ok t' =>
      rw [perform_cons_of_ok hw, ih]
      simp

/-- A file is not written because of an internal error exactly when its path is obstructed, or it
can be opened and its contents cannot be encoded. -/
lemma exists_store_eq_error_iff {w : Write} :
    (∃ left fault, t.store w = .error (left, fault) ∧
      (Trouble.text fault).exit = .internalError) ↔
      t.Obstructed w.path ∨ (∃ opened, t.write w.path [] = .ok opened) ∧
        ∃ fault, w.contents.encoded = .error fault := by
  rw [← @exists_write_eq_error_iff t w.path []]
  constructor
  · rintro ⟨left, fault, hstore, hexit⟩
    rcases store_eq_error_iff.1 hstore with ⟨f, hopen, -, rfl⟩ | ⟨f, hopen, hencoded, -⟩
    · exact .inl ⟨f, hopen, (Trouble.exit_file_eq_internalError_iff f).1 hexit⟩
    · exact .inr ⟨⟨left, hopen⟩, f, hencoded⟩
  · rintro (⟨f, hopen, hobstacle⟩ | ⟨⟨opened, hopen⟩, f, hencoded⟩)
    · exact ⟨t, .file f, store_eq_error_iff.2 (.inl ⟨f, hopen, rfl, rfl⟩),
        (Trouble.exit_file_eq_internalError_iff f).2 hobstacle⟩
    · exact ⟨opened, .unencodable f, store_eq_error_iff.2 (.inr ⟨f, hopen, hencoded, rfl⟩), rfl⟩

/-- Writing files ends with an internal error exactly when it comes to an obstructed path, or to
contents that cannot be encoded. -/
lemma exists_perform_eq_some_iff {ws : List Write} :
    (∃ fault, (t.perform ws).2.2 = some fault ∧ (Trouble.text fault).exit = .internalError) ↔
      t.Stops ws ∨ t.Strays ws := by
  simp only [perform_eq_some_iff]
  constructor
  · rintro ⟨fault, ⟨front, w, rest, hws, hfront, left, hstore⟩, hexit⟩
    rcases exists_store_eq_error_iff.1 ⟨left, fault, hstore, hexit⟩ with hstops | hstrays
    · exact .inl ⟨front, w, rest, hws, hfront, hstops⟩
    · exact .inr ⟨front, w, rest, hws, hfront, hstrays⟩
  · rintro (⟨front, w, rest, hws, hfront, hstops⟩ | ⟨front, w, rest, hws, hfront, hstrays⟩)
    · obtain ⟨left, fault, hstore, hexit⟩ := exists_store_eq_error_iff.2 (.inl hstops)
      exact ⟨fault, ⟨front, w, rest, hws, hfront, left, hstore⟩, hexit⟩
    · obtain ⟨left, fault, hstore, hexit⟩ := exists_store_eq_error_iff.2 (.inr hstrays)
      exact ⟨fault, ⟨front, w, rest, hws, hfront, left, hstore⟩, hexit⟩

end FileTree

/-- **Carrying out what was prepared** ends with an internal error if the preparation did, if
writing comes to an obstructed path or to contents that cannot be encoded, or if the output cannot
be. -/
lemma Outcome.exit_eq_internalError_iff {verbose : Bool} {files : FileTree} {p : Preparation} :
    (ofPreparation verbose files p).exit = .internalError ↔
      Breaks p.result ∨ ∃ plan, p.result = .ok plan ∧
        (files.Stops plan.writes ∨ files.Strays plan.writes ∨
          (files.perform plan.writes).2.2 = none ∧ ¬Glyph.IsText plan.output) := by
  have hplan : ∀ {plan}, p.result = .ok plan →
      ((Breaks p.result ∨ ∃ plan, p.result = .ok plan ∧
        (files.Stops plan.writes ∨ files.Strays plan.writes ∨
          (files.perform plan.writes).2.2 = none ∧ ¬Glyph.IsText plan.output)) ↔
      (∃ fault, (files.perform plan.writes).2.2 = some fault ∧
        (Trouble.text fault).exit = .internalError) ∨
          (files.perform plan.writes).2.2 = none ∧ ¬Glyph.IsText plan.output) := by
    intro plan hresult
    rw [hresult, FileTree.exists_perform_eq_some_iff, or_assoc]
    simp
  cases ends_ofPreparation verbose files p with
  | trouble hresult hexit =>
    rw [hexit, hresult]
    simp
  | fault hresult hstopped hexit =>
    rw [hexit, hplan hresult, hstopped]
    simp
  | output hresult hdone hstray hexit =>
    rw [hexit, hplan hresult]
    exact iff_of_true rfl (.inr ⟨hdone, hstray⟩)
  | success hresult hdone htext hexit =>
    rw [hexit, hplan hresult, hdone]
    simp [htext]

/-! ## Files that are read -/

namespace Arguments

variable {κ : Type}

/-- The positional word of a command line satisfies the condition on it. -/
lemma valid_of_input {a : Arguments κ} {valid : RawText → Bool} {word : RawText}
    (h : a.input valid = .ok word) : valid word = true := by
  unfold input at h
  rcases hwords : a.words with _ | ⟨first, extra⟩
  · simp [hwords] at h
  · simp only [hwords] at h
    split_ifs at h with hvalid
    cases extra with
    | nil =>
      cases h
      exact hvalid
    | cons other more => cases h

variable [BEq κ] [LawfulBEq κ]

/-- The value of an option that is given satisfies the condition on it. -/
lemma valid_of_check {a : Arguments κ} {valid : κ → RawText → Except UsageFault Unit}
    (h : a.check valid = .ok ()) {key : κ} {value : RawText} (hvalue : a.value? key = some value) :
    valid key value = .ok () := by
  have hgiven : (key, value) ∈ a.given := by
    obtain ⟨l₁, l₂, hsplit, -⟩ := List.lookup_eq_some_iff.1 hvalue
    rw [← List.mem_reverse, hsplit]
    simp
  have hkey : key ∈ (a.given.map Prod.fst).eraseDups :=
    List.mem_eraseDups.2 (List.mem_map_of_mem hgiven)
  have hchecked := forM_eq_ok_iff.1 h key hkey
  rwa [hvalue, Option.getD_some] at hchecked

end Arguments

/-- If a file can be read, its bytes encode a text. -/
def FileTree.HoldsText (t : FileTree) (p : Path) : Prop :=
  ∀ bytes, t.read p = .ok bytes → ∃ cs, Utf8.decode bytes = .ok cs

/-- A file that can be read and holds a text can be read as a text. -/
lemma FileTree.HoldsText.exists_readText {t : FileTree} {p : Path} (h : t.HoldsText p)
    {bytes : List UInt8} (hread : t.read p = .ok bytes) : ∃ text, t.readText p = .ok text := by
  obtain ⟨cs, hcs⟩ := h bytes hread
  refine ⟨String.ofList (Text.unifyNewlines cs), ?_⟩
  simp only [readText, hread, textOf, hcs, Except.map, Except.mapError]

/-- A file that is read as a text holds a text. -/
lemma FileTree.holdsText_of_readText {t : FileTree} {p : Path} {text : String}
    (h : t.readText p = .ok text) : t.HoldsText p := by
  intro bytes hread
  cases hcs : Utf8.decode bytes with
  | error fault => simp [readText, hread, textOf, hcs, Except.map, Except.mapError] at h
  | ok cs => exact ⟨cs, rfl⟩

/-! ## Settings in an environment -/

/-- A number in an environment satisfies the condition on it. -/
lemma Environment.valid_of_mem_number? {env : Environment} {name : String}
    {valid : Int → Bool} {n : Int} (h : n ∈ env.number? name valid) : valid n = true := by
  obtain ⟨text, -, hn⟩ := Option.bind_eq_some_iff.1 h
  exact (Option.filter_eq_some_iff.1 hn).2

/-- The settings in an environment are valid. -/
lemma Settings.fault?_ofEnvironment (env : Environment) : (ofEnvironment env).fault? = none := by
  refine fault?_eq_none_iff.2 ⟨?_, fun n hn => ?_⟩
  · unfold ofEnvironment
    cases h : env.number? "I8080_FILL_BYTE" isFillByte with
    | none => simp
    | some n => simpa [isFillByte] using Environment.valid_of_mem_number? h
  · simpa [isImageSize] using Environment.valid_of_mem_number? hn

/-! ## The assembler -/

namespace AssembleCommand

/-- A text denotes a number from 0 to `limit`. -/
def Accepted (limit : Nat) (text : String) : Prop :=
  ∃ value, Integer.readNumber text = .ok value ∧ 0 ≤ value ∧ value ≤ limit

/-- A text denotes a number that is out of range and has too many decimal digits to be shown. -/
def Unshowable (limit : Nat) (text : String) : Prop :=
  ∃ value, Integer.readNumber text = .ok value ∧ ¬(0 ≤ value ∧ value ≤ limit) ∧
    Integer.digitLimit < (toString value.natAbs).length

/-- A number is read exactly when it is in range. -/
lemma readNumber_eq_ok_iff {limit : Nat} {text : String} {value : Int} :
    readNumber limit text = .ok value ↔
      Integer.readNumber text = .ok value ∧ 0 ≤ value ∧ value ≤ limit := by
  unfold readNumber
  cases Integer.readNumber text with
  | error fault => simp
  | ok value' =>
    by_cases hrange : 0 ≤ value' ∧ value' ≤ limit
    · simp only [hrange, and_self, if_true, Except.ok.injEq]
      exact ⟨fun h => ⟨h, h ▸ hrange⟩, And.left⟩
    · simp only [hrange, if_false, Except.ok.injEq]
      constructor
      · intro h
        split at h <;> cases h
      · rintro ⟨rfl, h⟩
        exact absurd h hrange

/-- A number breaks the command exactly when it is out of range and cannot be shown. -/
lemma breaks_readNumber_iff {limit : Nat} {text : String} :
    Breaks (readNumber limit text) ↔ Unshowable limit text := by
  unfold readNumber Unshowable
  cases Integer.readNumber text with
  | error fault => simp [Trouble.exit]
  | ok value =>
    simp only [Except.ok.injEq, exists_eq_left']
    by_cases hrange : 0 ≤ value ∧ value ≤ limit
    · simp [hrange]
    · rw [if_neg hrange, Integer.write]
      by_cases hlong : Integer.digitLimit < (toString value.natAbs).length
      · rw [if_pos hlong]
        exact iff_of_true ⟨_, rfl, rfl⟩ ⟨hrange, hlong⟩
      · rw [if_neg hlong]
        exact iff_of_false (by simp [Trouble.exit]) (fun h => hlong h.2)

variable {o : Options} {env : Environment} {files : FileTree}

/-- The fill byte that the options give, if the number is in range. -/
lemma exists_fillByte_iff {base : Int} :
    (∃ fillByte, o.fill.elim (.ok base) (readNumber 0xFF) = .ok fillByte) ↔
      ∀ text ∈ o.fill, Accepted 0xFF text := by
  cases o.fill <;> simp [readNumber_eq_ok_iff, Accepted]

/-- The image size that the options give, if the number is in range. -/
lemma exists_imageSize_iff {base : Option Int} :
    (∃ imageSize, o.size.elim (.ok base) (fun text => some <$> readNumber 0x10000 text) =
      .ok imageSize) ↔ ∀ text ∈ o.size, Accepted 0x10000 text := by
  cases o.size <;> simp [map_eq_ok_iff, readNumber_eq_ok_iff, Accepted]

/-- The options give settings exactly when their numbers are in range. -/
lemma exists_settings_iff :
    (∃ settings, o.settings env = .ok settings) ↔
      (∀ text ∈ o.fill, Accepted 0xFF text) ∧ ∀ text ∈ o.size, Accepted 0x10000 text := by
  rw [← @exists_fillByte_iff o (Settings.ofEnvironment env).fillByte,
    ← @exists_imageSize_iff o (Settings.ofEnvironment env).imageSize]
  constructor
  · rintro ⟨settings, h⟩
    obtain ⟨fillByte, hfill, h⟩ := bind_eq_ok_iff.1 h
    obtain ⟨imageSize, hsize, -⟩ := bind_eq_ok_iff.1 h
    exact ⟨⟨fillByte, hfill⟩, imageSize, hsize⟩
  · rintro ⟨⟨fillByte, hfill⟩, imageSize, hsize⟩
    exact ⟨_, bind_eq_ok_iff.2 ⟨fillByte, hfill, bind_eq_ok_iff.2 ⟨imageSize, hsize, rfl⟩⟩⟩

/-- The settings that the options give are valid. -/
lemma fault?_of_settings {settings : Settings} (h : o.settings env = .ok settings) :
    settings.fault? = none := by
  have hbase := Settings.fault?_eq_none_iff.1 (Settings.fault?_ofEnvironment env)
  obtain ⟨fillByte, hfill, h⟩ := bind_eq_ok_iff.1 h
  obtain ⟨imageSize, hsize, h⟩ := bind_eq_ok_iff.1 h
  cases h
  refine Settings.fault?_eq_none_iff.2 ⟨?_, ?_⟩
  · rcases elim_eq_ok_iff.1 hfill with ⟨-, rfl⟩ | ⟨text, -, hvalue⟩
    · exact hbase.1
    · exact (readNumber_eq_ok_iff.1 hvalue).2
  · rcases elim_eq_ok_iff.1 hsize with ⟨-, rfl⟩ | ⟨text, -, hvalue⟩
    · exact hbase.2
    · obtain ⟨value, hread, rfl⟩ := map_eq_ok_iff.1 hvalue
      rintro _ ⟨⟩
      exact (readNumber_eq_ok_iff.1 hread).2

/-- The options break the command exactly when the first number out of range cannot be shown. -/
lemma breaks_settings_iff :
    Breaks (o.settings env) ↔ (∃ text ∈ o.fill, Unshowable 0xFF text) ∨
      (∀ text ∈ o.fill, Accepted 0xFF text) ∧ ∃ text ∈ o.size, Unshowable 0x10000 text := by
  have hsize : ∀ (fillByte : Int) (base : Settings),
      Breaks (do
        let imageSize ← o.size.elim (.ok base.imageSize) fun text =>
          some <$> readNumber 0x10000 text
        return (⟨fillByte, imageSize, base.keepCase || o.caseSensitive⟩ : Settings)) ↔
      ∃ text ∈ o.size, Unshowable 0x10000 text := fun fillByte base => by
    rw [Breaks.bind_iff, Breaks.elim_iff]
    simp [Breaks.map_iff, breaks_readNumber_iff, pure, Except.pure]
  unfold Options.settings
  rw [Breaks.bind_iff, Breaks.elim_iff]
  simp only [hsize, breaks_readNumber_iff, exists_and_right, exists_fillByte_iff]

/-- What the assembler does not foresee. -/
inductive Unforeseen (o : Options) (env : Environment) (files : FileTree) : Prop where
  /-- The fill byte is out of range, by too much to be shown. -/
  | fill {text : String} (given : text ∈ o.fill) (large : Unshowable 0xFF text)
  /-- The image size is out of range, by too much to be shown. -/
  | size {text : String} (fill : ∀ text ∈ o.fill, Accepted 0xFF text) (given : text ∈ o.size)
      (large : Unshowable 0x10000 text)
  /-- The first fault of the source text is a decimal literal with too many digits. -/
  | literal {source : String} {count : Nat} (fill : ∀ text ∈ o.fill, Accepted 0xFF text)
      (size : ∀ text ∈ o.size, Accepted 0x10000 text) (read : files.readText o.input = .ok source)
      (long : Overlong source.toList count)
  /-- The path of a file to write is obstructed. -/
  | path {plan : Plan} (prepared : (prepare o env files).result = .ok plan)
      (stops : files.Stops plan.writes)

/-- Assembling a text with valid settings breaks exactly on a literal with too many digits. -/
lemma exists_internalError_iff {settings : Settings} (h : settings.fault? = none)
    (source file : String) :
    (∃ failure, assemble source file settings = .error failure ∧
      (Trouble.assembly failure).exit = .internalError) ↔
      ∃ count, Overlong source.toList count := by
  constructor
  · rintro ⟨failure, hfailure, hexit⟩
    rcases diagnostic_or_tokenize_of_assemble h hfailure with ⟨d, rfl⟩ | htokenize
    · cases hexit
    · rcases diagnostic_or_integer_of_tokenize htokenize with ⟨d, rfl⟩ | ⟨count, rfl⟩
      · cases hexit
      · exact ⟨count, tokenize_eq_tooLongToRead_iff.1 htokenize⟩
  · rintro ⟨count, hlong⟩
    have htokenize := (@tokenize_eq_tooLongToRead_iff source file count).2 hlong
    exact ⟨_, assemble_of_tokenize_eq_error h htokenize, rfl⟩

/-- **The assembler breaks before it writes** exactly when a number cannot be shown or the source
text has a literal with too many digits. -/
lemma breaks_prepare_iff {source : String} (hsource : files.readText o.input = .ok source) :
    Breaks (prepare o env files).result ↔ Breaks (o.settings env) ∨
      (∃ settings, o.settings env = .ok settings) ∧ ∃ count, Overlong source.toList count := by
  unfold prepare
  cases hsettings : o.settings env with
  | error trouble => simp
  | ok settings =>
    -- valid settings make a workbench, so that only the text can be at fault
    have hvalid := fault?_of_settings hsettings
    have hassemble : assemble source o.input.text settings =
        ((Workbench.fresh settings).assemble source o.input.text).outcome := by
      rw [assemble, Workbench.new_eq hvalid]
      rfl
    simp only [Workbench.new_eq hvalid, assembleWith, Workbench.assembleFile, hsource, Except.map,
      ← hassemble, Breaks.ok_iff, false_or, Except.ok.injEq, exists_eq', true_and]
    rw [← exists_internalError_iff hvalid source o.input.text]
    cases assemble source o.input.text settings <;> simp

/-- The source file of an accepted command line can be read. -/
lemma exists_read_of_asks {line : List RawText} (h : Asks line files o) :
    ∃ bytes, files.read o.input = .ok bytes := by
  obtain ⟨a, -, -, ho⟩ := h
  obtain ⟨_, -, ho⟩ := bind_eq_ok_iff.1 ho
  obtain ⟨word, hword, ho⟩ := bind_eq_ok_iff.1 ho
  cases ho
  exact FileTree.exists_read_of_isFile (Arguments.valid_of_input hword)

/-- What the assembler writes can be encoded. -/
lemma not_strays_planOf (w : Workbench) (code : List UInt8) :
    ¬files.Strays (planOf o w code).writes := by
  rintro ⟨front, x, rest, hws, -, -, fault, hfault⟩
  have hx : x ∈ (planOf o w code).writes := by
    rw [hws]
    simp
  simp only [planOf, List.mem_append, Option.mem_toList, Option.map_eq_some_iff,
    List.mem_singleton] at hx
  rcases hx with (⟨p, -, rfl⟩ | ⟨p, -, rfl⟩) | rfl
  · cases (Glyph.encode_ofText _).symm.trans hfault
  · cases (Glyph.encode_ofText _).symm.trans hfault
  · cases hfault

/-- **The assembler ends with an internal error** exactly when it meets what it does not foresee. -/
lemma exit_eq_internalError_iff {line : List RawText} (h : Asks line files o)
    (htext : files.HoldsText o.input) :
    (Outcome.ofPreparation o.verbose files (prepare o env files)).exit = .internalError ↔
      Unforeseen o env files := by
  obtain ⟨bytes, hread⟩ := exists_read_of_asks h
  obtain ⟨source, hsource⟩ := htext.exists_readText hread
  rw [Outcome.exit_eq_internalError_iff, breaks_prepare_iff hsource, breaks_settings_iff,
    exists_settings_iff]
  constructor
  · rintro (((⟨text, hgiven, hlarge⟩ | ⟨hfill, text, hgiven, hlarge⟩) |
      ⟨⟨hfill, hsize⟩, count, hlong⟩) | ⟨plan, hplan, hstops | hstrays | ⟨-, hstray⟩⟩)
    · exact .fill hgiven hlarge
    · exact .size hfill hgiven hlarge
    · exact .literal hfill hsize hsource hlong
    · exact .path hplan hstops
    · obtain ⟨w, code, rfl⟩ := exists_plan hplan
      exact absurd hstrays (not_strays_planOf w code)
    · obtain ⟨w, code, rfl⟩ := exists_plan hplan
      exact absurd (Glyph.isText_ofText "") hstray
  · rintro (⟨hgiven, hlarge⟩ | ⟨hfill, hgiven, hlarge⟩ | ⟨hfill, hsize, hread', hlong⟩ |
      ⟨hplan, hstops⟩)
    · exact .inl (.inl (.inl ⟨_, hgiven, hlarge⟩))
    · exact .inl (.inl (.inr ⟨hfill, _, hgiven, hlarge⟩))
    · cases hsource.symm.trans hread'
      exact .inl (.inr ⟨⟨hfill, hsize⟩, _, hlong⟩)
    · exact .inr ⟨_, hplan, .inl hstops⟩

end AssembleCommand

/-! ## The disassembler -/

namespace DisassembleCommand

variable {o : Options} {env : Environment} {files : FileTree}

/-- What the disassembler does not foresee. -/
inductive Unforeseen (o : Options) (env : Environment) (files : FileTree) : Prop where
  /-- A line of the symbol file is malformed. -/
  | symbols {settings : DisassemblySettings} {data : List UInt8} {path : Path}
      {text line : String} (accepted : o.settings env = .ok settings)
      (read : files.read o.input = .ok data) (fits : settings.start + data.length ≤ 0x10000)
      (given : path ∈ o.symbols) (readSymbols : files.readText path = .ok text)
      (mem : line ∈ Text.splitLines text) (malformed : ¬SymbolFile.IsLine line)
  /-- The path of the file to write is obstructed. -/
  | path {plan : Plan} (prepared : (prepare o env files).result = .ok plan)
      (stops : files.Stops plan.writes)
  /-- The name of the image is not UTF-8, and the file to write can be opened, if there is one. -/
  | name {plan : Plan} (prepared : (prepare o env files).result = .ok plan)
      (stray : ¬o.input.name.IsText)
      (opens : ∀ path ∈ o.output, ∃ opened, files.write path [] = .ok opened)

/-- The options do not break the command. -/
lemma not_breaks_settings : ¬Breaks (o.settings env) := by
  have haddress : ∀ text, ¬Breaks ((Integer.readNumber text).mapError fun _ =>
      Trouble.parameter (.notAddress text)) := fun text => by
    cases Integer.readNumber text <;> simp [Except.mapError, Trouble.exit]
  unfold Options.settings
  simp only [Breaks.bind_iff, Breaks.elim_iff, haddress, and_false, exists_false, false_or]
  rintro ⟨start, -, h⟩
  split at h
  · exact (Breaks.ok_iff _).1 h
  · cases (Breaks.error_iff _).1 h

/-- The settings that the options give start at an address. -/
lemma isAddress_of_settings {settings : DisassemblySettings}
    (h : o.settings env = .ok settings) : isAddress settings.start = true := by
  obtain ⟨start, -, h⟩ := bind_eq_ok_iff.1 h
  split_ifs at h with hstart
  cases h
  exact hstart

/-- From an address on, nothing but a byte that begins no instruction ends a disassembly. -/
lemma not_breaks_disassembleWith {settings : DisassemblySettings}
    (h : isAddress settings.start = true) (data : List UInt8) (d : Disassembler) :
    ¬Breaks (disassembleWith o settings data d).2 := by
  have hstart : 0 ≤ settings.start ∧ settings.start < 0x10000 := by
    simp only [isAddress, Bool.and_eq_true, decide_eq_true_eq] at h
    omega
  unfold disassembleWith Disassembly.text Disassembler.disassemble
  simp only [if_pos hstart]
  cases (d.scan o.count #[] settings.start.toNat false
    (data.take (0x10000 - settings.start.toNat))).2 <;> simp [Trouble.exit]

/-- The symbol file breaks the command exactly when one of its lines is malformed. -/
lemma breaks_disassembler_iff {settings : DisassemblySettings}
    (h : ∀ path ∈ o.symbols, ∃ text, files.readText path = .ok text) :
    Breaks (disassembler o settings files) ↔
      ∃ path ∈ o.symbols, ∃ text, files.readText path = .ok text ∧
        ∃ line ∈ Text.splitLines text, ¬SymbolFile.IsLine line := by
  unfold disassembler
  cases hsymbols : o.symbols with
  | none => simp
  | some path =>
    obtain ⟨text, htext⟩ := h path hsymbols
    have hread := @SymbolFile.exists_read_iff path.text text
    simp only [htext, Option.mem_def, Option.some.injEq, exists_eq_left', Except.ok.injEq]
    cases hnames : SymbolFile.read path.text text with
    | error fault =>
      rw [hnames] at hread
      simpa [Trouble.exit] using hread
    | ok names =>
      rw [hnames] at hread
      simpa using hread

/-- **The disassembler breaks before it writes** exactly when it comes to a symbol file with a
malformed line. -/
lemma breaks_prepare_iff {data : List UInt8} (hdata : files.read o.input = .ok data)
    (hsymbols : ∀ path ∈ o.symbols, ∃ text, files.readText path = .ok text) :
    Breaks (prepare o env files).result ↔
      ∃ settings, o.settings env = .ok settings ∧ settings.start + data.length ≤ 0x10000 ∧
        ∃ path ∈ o.symbols, ∃ text, files.readText path = .ok text ∧
          ∃ line ∈ Text.splitLines text, ¬SymbolFile.IsLine line := by
  unfold prepare
  cases hsettings : o.settings env with
  | error trouble =>
    have hexit := hsettings ▸ @not_breaks_settings o env
    simpa using hexit
  | ok settings =>
    simp only [hdata, Except.ok.injEq, exists_eq_left']
    by_cases hfits : settings.start + data.length ≤ 0x10000
    · rw [if_neg (by omega), ← @breaks_disassembler_iff o files settings hsymbols]
      cases disassembler o settings files with
      | error trouble => simp [hfits]
      | ok d =>
        simpa using not_breaks_disassembleWith (isAddress_of_settings hsettings) data d
    · rw [if_pos (by omega)]
      simp [hfits, Trouble.exit]

/-- The files that an accepted command line names can be read. -/
lemma exists_read_of_asks {line : List RawText} (h : Asks line files o) :
    (∃ bytes, files.read o.input = .ok bytes) ∧
      ∀ path ∈ o.symbols, ∃ bytes, files.read path = .ok bytes := by
  obtain ⟨a, -, -, ho⟩ := h
  obtain ⟨_, hcheck, ho⟩ := bind_eq_ok_iff.1 ho
  obtain ⟨word, hword, ho⟩ := bind_eq_ok_iff.1 ho
  cases ho
  refine ⟨FileTree.exists_read_of_isFile (Arguments.valid_of_input hword), fun path hpath => ?_⟩
  obtain ⟨text, htext, rfl⟩ := Option.map_eq_some_iff.1 hpath
  have hvalid := Arguments.valid_of_check hcheck htext
  simp only [checkValue] at hvalid
  split_ifs at hvalid with hfile
  exact FileTree.exists_read_of_isFile hfile

/-- The text that the command has prepared cannot be written or shown exactly when the name of the
image is not UTF-8, and the file to write can be opened, if there is one. -/
lemma strays_iff {plan : Plan} (hplan : (prepare o env files).result = .ok plan) :
    (files.Strays plan.writes ∨
        (files.perform plan.writes).2.2 = none ∧ ¬Glyph.IsText plan.output) ↔
      ¬o.input.name.IsText ∧ ∀ path ∈ o.output, ∃ opened, files.write path [] = .ok opened := by
  obtain ⟨settings, size, body, rfl⟩ := exists_plan hplan
  have hname := @isText_textOf_iff o settings size body
  cases houtput : o.output with
  | none =>
    have hnone : ¬files.Strays [] := FileTree.not_meets_nil files _
    rw [planOf_of_none houtput]
    simp [hnone, hname, FileTree.perform]
  | some path =>
    have hempty : Glyph.IsText [] := Glyph.isText_ofText ""
    rw [planOf_of_some houtput]
    simp only [hempty, not_true_eq_false, and_false, or_false, Option.mem_def, Option.some.injEq,
      forall_eq']
    rw [FileTree.Strays, FileTree.meets_cons_iff]
    simp only [Contents.encoded, Glyph.exists_encode_eq_error_iff, hname, FileTree.not_meets_nil,
      and_false, exists_false, or_false]
    exact and_comm

/-- **The disassembler ends with an internal error** exactly when it meets what it does not
foresee. -/
lemma exit_eq_internalError_iff {line : List RawText} (h : Asks line files o)
    (htext : ∀ path ∈ o.symbols, files.HoldsText path) :
    (Outcome.ofPreparation o.verbose files (prepare o env files)).exit = .internalError ↔
      Unforeseen o env files := by
  obtain ⟨⟨data, hdata⟩, hread⟩ := exists_read_of_asks h
  have hsymbols : ∀ path ∈ o.symbols, ∃ text, files.readText path = .ok text := fun path hpath => by
    obtain ⟨bytes, hbytes⟩ := hread path hpath
    exact (htext path hpath).exists_readText hbytes
  rw [Outcome.exit_eq_internalError_iff, breaks_prepare_iff hdata hsymbols]
  constructor
  · rintro (⟨settings, haccepted, hfits, path, hgiven, text, hreadText, l, hmem, hmalformed⟩ |
      ⟨plan, hplan, hstops | hstrays⟩)
    · exact .symbols haccepted hdata hfits hgiven hreadText hmem hmalformed
    · exact .path hplan hstops
    · obtain ⟨hstray, hopens⟩ := (strays_iff hplan).1 hstrays
      exact .name hplan hstray hopens
  · rintro (⟨haccepted, hdata', hfits, hgiven, hreadText, hmem, hmalformed⟩ | ⟨hplan, hstops⟩ |
      ⟨hplan, hstray, hopens⟩)
    · cases hdata.symm.trans hdata'
      exact .inl ⟨_, haccepted, hfits, _, hgiven, _, hreadText, _, hmem, hmalformed⟩
    · exact .inr ⟨_, hplan, .inl hstops⟩
    · exact .inr ⟨_, hplan, .inr ((strays_iff hplan).2 ⟨hstray, hopens⟩)⟩

end DisassembleCommand

/-! ## Commands that end with code 3 -/

/-- A condition on what a command line asks for is one on the only thing that it asks for. -/
lemma Arguments.Asks.exists_iff {κ α : Type} {switches : List (Switch κ)}
    {answer : κ → Option String} {options : Arguments κ → Except UsageFault α}
    {line : List RawText} {o : α} (h : Asks switches answer options line o) (P : α → Prop) :
    (∃ o', Asks switches answer options line o' ∧ P o') ↔ P o := by
  constructor
  · rintro ⟨o', ho', hP⟩
    rwa [h.unique ho']
  · exact fun hP => ⟨o, h, hP⟩

/-- **Which commands end with code 3.** For any command line that is accepted, any environment and
any files in which the source file and the symbol file hold text:

* the assembler ends with an internal error exactly when a number that is out of range cannot be
  shown, or the first fault of the source text is a decimal literal with too many digits, or the
  path of a file to write leads through a file or is too long;
* the disassembler does exactly when it comes to a malformed line of the symbol file, or the path of
  the file to write leads through a file or is too long, or the name of the image is not UTF-8 and
  the command gets as far as writing or showing its text.

Otherwise the code is 0, 1 or 2.

**Proof sketch.** A command fails before it writes or while it writes
(`Outcome.exit_eq_internalError_iff`). The files that it reads are there, since the command line was
checked; the settings that it makes are valid, so that assembling fails with a diagnostic or on a
literal, and a disassembly fails with a byte that begins no instruction only. The listing and the
symbol file can be encoded; the text of a disassembly can be if the name in it can. -/
theorem internalError_iff_unforeseen (line : List RawText) (env : Environment) (files : FileTree) :
    (∀ outcome, AssembleCommand.run line env files = .ok outcome →
      (∀ o, AssembleCommand.Asks line files o → files.HoldsText o.input) →
      outcome.exit.code ≤ 3 ∧
      (outcome.exit.code = 3 ↔
        ∃ o, AssembleCommand.Asks line files o ∧ AssembleCommand.Unforeseen o env files)) ∧
    ∀ outcome, DisassembleCommand.run line env files = .ok outcome →
      (∀ o, DisassembleCommand.Asks line files o → ∀ path ∈ o.symbols, files.HoldsText path) →
      outcome.exit.code ≤ 3 ∧
      (outcome.exit.code = 3 ↔
        ∃ o, DisassembleCommand.Asks line files o ∧ DisassembleCommand.Unforeseen o env files) := by
  have hle : ∀ e : Exit, e.code ≤ 3 := fun e => by cases e <;> decide
  have hthree : ∀ e : Exit, e.code = 3 ↔ e = .internalError := fun e =>
    e.code_eq_iff .internalError
  refine ⟨fun outcome h htext => ⟨hle _, ?_⟩, fun outcome h htext => ⟨hle _, ?_⟩⟩
  · rw [hthree]
    rcases AssembleCommand.cases_of_run h with ⟨hexit, hnone⟩ | ⟨o, ho, rfl⟩
    · exact iff_of_false (by simp [hexit]) (by simp [hnone])
    · exact (AssembleCommand.exit_eq_internalError_iff ho (htext o ho)).trans
        (ho.exists_iff (AssembleCommand.Unforeseen · env files)).symm
  · rw [hthree]
    rcases DisassembleCommand.cases_of_run h with ⟨hexit, hnone⟩ | ⟨o, ho, rfl⟩
    · exact iff_of_false (by simp [hexit]) (by simp [hnone])
    · exact (DisassembleCommand.exit_eq_internalError_iff ho (htext o ho)).trans
        (ho.exists_iff (DisassembleCommand.Unforeseen · env files)).symm

/-- A command line for an image in a directory that is a file. -/
def obstructedLine : List RawText := ["rom.asm", "-o", "rom.asm/rom.bin"]

/-- The assembler does not foresee that a file stands where a directory should be. -/
theorem unforeseen_obstructedLine :
    (∀ o, AssembleCommand.Asks obstructedLine sampleFiles o → sampleFiles.HoldsText o.input) ∧
      ∃ o, AssembleCommand.Asks obstructedLine sampleFiles o ∧
        AssembleCommand.Unforeseen o [] sampleFiles := by
  have hasks : AssembleCommand.Asks obstructedLine sampleFiles
      { sampleOptions with output := some ⟨false, ["rom.asm", "rom.bin"]⟩, listing := none,
                           symbols := none } :=
    ⟨⟨[(.output, "rom.asm/rom.bin")], ["rom.asm"]⟩, rfl, rfl, by decide +kernel⟩
  have htext : ∀ o, AssembleCommand.Asks obstructedLine sampleFiles o →
      sampleFiles.HoldsText o.input := by
    intro o ho
    have hread : sampleFiles.readText ⟨false, ["rom.asm"]⟩ = .ok "HLT\n" := by decide +kernel
    rw [← hasks.unique ho]
    exact FileTree.holdsText_of_readText hread
  have hrun : (AssembleCommand.run obstructedLine [] sampleFiles).map (·.exit.code) = .ok 3 := by
    decide +kernel
  refine ⟨htext, ?_⟩
  cases h : AssembleCommand.run obstructedLine [] sampleFiles with
  | error fault =>
    rw [h] at hrun
    cases hrun
  | ok outcome =>
    rw [h] at hrun
    have hiff := (internalError_iff_unforeseen obstructedLine [] sampleFiles).1 outcome h htext
    exact hiff.2.1 (Except.ok.inj hrun)

/-- A directory with an image of one byte and a symbol file with a name that has no value. -/
def valuelessFiles : FileTree :=
  ⟨["work"], [(["work"], .directory), (["work", "rom.bin"], .file [0]),
    (["work", "rom.sym"], .file (Utf8.encode "FOO\n"))]⟩

/-- A command line for a disassembly with the names in a symbol file. -/
def valuelessLine : List RawText := ["rom.bin", "-s", "rom.sym"]

/-- What the sample asks for. -/
def valuelessOptions : DisassembleCommand.Options where
  input := ⟨false, ["rom.bin"]⟩
  output := none
  address := none
  count := none
  symbols := some ⟨false, ["rom.sym"]⟩
  noBytes := false
  strict := false
  verbose := false

/-- A symbol file that holds a text, but a name without a value, ends the disassembler with an
internal error. -/
theorem internalError_valuelessLine :
    (∀ o, DisassembleCommand.Asks valuelessLine valuelessFiles o →
        ∀ path ∈ o.symbols, valuelessFiles.HoldsText path) ∧
      (DisassembleCommand.run valuelessLine [] valuelessFiles).map
          (fun outcome => (outcome.exit.code, outcome.errorOutput)) =
        .ok (3, "Internal error: rom.sym:1: expected 'NAME VALUEH', got 'FOO'\n") := by
  have hasks : DisassembleCommand.Asks valuelessLine valuelessFiles valuelessOptions :=
    ⟨⟨[(.symbols, "rom.sym")], ["rom.bin"]⟩, rfl, rfl, by decide +kernel⟩
  refine ⟨fun o ho path hpath => ?_, by decide +kernel⟩
  have hread : valuelessFiles.readText ⟨false, ["rom.sym"]⟩ = .ok "FOO\n" := by decide +kernel
  rw [← hasks.unique ho] at hpath
  cases hpath
  exact FileTree.holdsText_of_readText hread

end Asm8080
