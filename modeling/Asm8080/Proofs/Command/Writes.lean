import Asm8080.Command.Assemble
import Asm8080.Command.Disassemble
import Asm8080.Proofs.Fallible
import Asm8080.Proofs.Files.Tree

/-!
# What commands write

A command prepares everything that it writes before it writes anything, and it writes its main file
last. So a command that fails before it writes leaves every file as it was, and one that fails while
it writes leaves the main file as it was, unless another of its files is at the same place.

There is one exception. A file is opened before its text is encoded, and the text of a disassembly
holds the name of the image. If that name is not UTF-8, the disassembler fails and leaves an empty
file.

## Main definitions

* `Asm8080.FileTree.SamePlace` — two paths lead to the same place.
* `Asm8080.Outcome.Ends` — how carrying out what was prepared can end.
* `Asm8080.AssembleCommand.Asks`, `Asm8080.DisassembleCommand.Asks` — what a command line asks for,
  if it is accepted and no option answers it.

## Main results

* `Asm8080.FileTree.store_eq_ok_iff`, `Asm8080.FileTree.store_eq_error_iff` — what writing one file
  comes to.
* `Asm8080.FileTree.changesAt_perform` — writing files changes the tree at their places only.
* `Asm8080.Outcome.ends_ofPreparation` — how carrying out what was prepared ends.
* `Asm8080.failed_commands_leave_files` — what commands that fail leave as it was.
-/

set_option autoImplicit false

namespace Asm8080

/-! ## Writing files one after another -/

/-- The bytes that a file is to hold, if they can be encoded. -/
def Contents.encoded : Contents → Except EncodingFault (List UInt8)
  | .bytes bs => .ok bs
  | .text gs => Glyph.encode gs

namespace FileTree

variable {t t' : FileTree}

/-- **A file is written** exactly when its contents can be encoded and the bytes can be written. -/
lemma store_eq_ok_iff {w : Write} :
    t.store w = .ok t' ↔
      ∃ bytes, w.contents.encoded = .ok bytes ∧ t.write w.path bytes = .ok t' := by
  unfold store
  cases w.contents with
  | text text => exact writeText_eq_ok_iff
  | bytes bytes =>
    simp only [Contents.encoded, Except.ok.injEq, exists_eq_left']
    cases t.write w.path bytes <;> simp [Except.mapError]

/-- **A file is not written** exactly when it cannot be opened, which leaves the tree as it was, or
when its contents cannot be encoded, which leaves an empty file. -/
lemma store_eq_error_iff {w : Write} {left : FileTree} {fault : TextFault} :
    t.store w = .error (left, fault) ↔
      (∃ f, t.write w.path [] = .error f ∧ left = t ∧ fault = .file f) ∨
        ∃ f, t.write w.path [] = .ok left ∧ w.contents.encoded = .error f ∧
          fault = .unencodable f := by
  unfold store
  cases w.contents with
  | text text => exact writeText_eq_error_iff
  | bytes bytes =>
    simp only [Contents.encoded, reduceCtorEq, false_and, and_false, exists_false, or_false,
      @write_eq_error_iff t w.path [] bytes]
    cases t.write w.path bytes <;> simp [Except.mapError, eq_comm]

/-- A file that cannot be written ends the writing. -/
lemma perform_cons_of_error {w : Write} {left : FileTree} {fault : TextFault}
    (h : t.store w = .error (left, fault)) (ws : List Write) :
    t.perform (w :: ws) = (left, [], some fault) := by
  simp only [perform, h]

/-- After a file that can be written the others are written. -/
lemma perform_cons_of_ok {w : Write} (h : t.store w = .ok t') (ws : List Write) :
    t.perform (w :: ws) =
      ((t'.perform ws).1, w.event :: (t'.perform ws).2.1, (t'.perform ws).2.2) := by
  simp only [perform, h]

/-- Writing one file changes the tree at its place only. -/
lemma changesAt_store {w : Write} (h : t.store w = .ok t') :
    ChangesAt (fun q => t.placeOf w.path = .ok q) t t' := by
  obtain ⟨bytes, -, hwrite⟩ := store_eq_ok_iff.1 h
  exact changesAt_write hwrite

/-- A file that cannot be written changes the tree at its place, if at all. -/
lemma changesAt_left {w : Write} {left : FileTree} {fault : TextFault}
    (h : t.store w = .error (left, fault)) :
    ChangesAt (fun q => t.placeOf w.path = .ok q) t left := by
  rcases store_eq_error_iff.1 h with ⟨f, -, rfl, -⟩ | ⟨f, hopen, -, -⟩
  · exact .refl _ _
  · exact changesAt_write hopen

/-- **Writing files** changes the tree at their places only. -/
lemma changesAt_perform (t : FileTree) (ws : List Write) :
    ChangesAt (fun q => ∃ w ∈ ws, t.placeOf w.path = .ok q) t (t.perform ws).1 := by
  induction ws generalizing t with
  | nil => exact .refl _ t
  | cons w ws ih =>
    cases hw : t.store w with
    | error failed =>
      obtain ⟨left, fault⟩ := failed
      rw [perform_cons_of_error hw]
      exact (changesAt_left hw).mono fun q hq => ⟨w, by simp, hq⟩
    | ok t' =>
      have hfirst := changesAt_store hw
      rw [perform_cons_of_ok hw]
      refine (hfirst.mono fun q hq => ⟨w, by simp, hq⟩).trans ((ih t').mono ?_)
      rintro q ⟨w', hw', hq⟩
      exact ⟨w', List.mem_cons_of_mem _ hw', hfirst.placeOf_eq_ok_iff.1 hq⟩

/-- If not all files are written, the last one is not, provided that it can be encoded. -/
lemma perform_concat_of_fault {ws : List Write} {w : Write} {bytes : List UInt8}
    (hw : w.contents.encoded = .ok bytes) {fault : TextFault}
    (h : (t.perform (ws ++ [w])).2.2 = some fault) :
    (t.perform (ws ++ [w])).1 = (t.perform ws).1 := by
  induction ws generalizing t with
  | nil =>
    cases hstore : t.store w with
    | error failed =>
      obtain ⟨left, fault⟩ := failed
      rw [List.nil_append, perform_cons_of_error hstore]
      rcases store_eq_error_iff.1 hstore with ⟨f, -, hleft, -⟩ | ⟨f, -, hencoded, -⟩
      · exact hleft
      · cases hw.symm.trans hencoded
    | ok t' =>
      rw [List.nil_append, perform_cons_of_ok hstore] at h
      cases h
  | cons w' ws ih =>
    rw [List.cons_append] at h ⊢
    cases hstore : t.store w' with
    | error failed =>
      obtain ⟨left, fault⟩ := failed
      rw [perform_cons_of_error hstore, perform_cons_of_error hstore]
    | ok t' =>
      rw [perform_cons_of_ok hstore] at h
      rw [perform_cons_of_ok hstore, perform_cons_of_ok hstore, ih h]

/-- If all files are written, the last one is written to the tree that the others leave. -/
lemma perform_concat_of_done {ws : List Write} {w : Write}
    (h : (t.perform (ws ++ [w])).2.2 = none) :
    (t.perform ws).1.store w = .ok (t.perform (ws ++ [w])).1 := by
  induction ws generalizing t with
  | nil =>
    cases hstore : t.store w with
    | error failed =>
      rw [List.nil_append, perform_cons_of_error hstore] at h
      cases h
    | ok t' =>
      rw [List.nil_append, perform_cons_of_ok hstore]
      exact hstore
  | cons w' ws ih =>
    rw [List.cons_append] at h ⊢
    cases hstore : t.store w' with
    | error failed =>
      rw [perform_cons_of_error hstore] at h
      cases h
    | ok t' =>
      rw [perform_cons_of_ok hstore] at h
      rw [perform_cons_of_ok hstore, perform_cons_of_ok hstore]
      exact ih h

/-- Two paths lead to the same place. -/
def SamePlace (t : FileTree) (p p' : Path) : Prop :=
  ∃ place, t.placeOf p = .ok place ∧ t.placeOf p' = .ok place

end FileTree

/-! ## Carrying out what was prepared -/

/-- Trouble is no success. -/
lemma Trouble.exit_ne_success (t : Trouble) : t.exit ≠ .success := by
  unfold exit
  split <;> decide

/-- A file that cannot be written is no error of the program. -/
lemma Trouble.exit_text_ne_buildError (fault : TextFault) :
    (Trouble.text fault).exit ≠ .buildError := by
  cases fault with
  | file fault =>
    obtain ⟨kind, path⟩ := fault
    cases kind <;> simp [exit]
  | encoding fault => simp [exit]
  | unencodable fault => simp [exit]

namespace Outcome

/-- How carrying out what was prepared can end, and what files it leaves. -/
inductive Ends (files : FileTree) (p : Preparation) (e : Exit) (left : FileTree) : Prop where
  /-- There is nothing to carry out. -/
  | trouble {trouble : Trouble} (result : p.result = .error trouble) (exit : e = trouble.exit)
      (unchanged : left = files)
  /-- A file cannot be written. -/
  | fault {plan : Plan} {fault : TextFault} (result : p.result = .ok plan)
      (stopped : (files.perform plan.writes).2.2 = some fault)
      (exit : e = (Trouble.text fault).exit) (written : left = (files.perform plan.writes).1)
  /-- The files are written, but the output cannot be encoded. -/
  | output {plan : Plan} (result : p.result = .ok plan)
      (done : (files.perform plan.writes).2.2 = none) (stray : ¬Glyph.IsText plan.output)
      (exit : e = .internalError) (written : left = (files.perform plan.writes).1)
  /-- The files are written, and the output is shown. -/
  | success {plan : Plan} (result : p.result = .ok plan)
      (done : (files.perform plan.writes).2.2 = none) (text : Glyph.IsText plan.output)
      (exit : e = .success) (written : left = (files.perform plan.writes).1)

variable {verbose : Bool} {files : FileTree} {p : Preparation}

/-- **How carrying out what was prepared ends.** -/
lemma ends_ofPreparation (verbose : Bool) (files : FileTree) (p : Preparation) :
    Ends files p (ofPreparation verbose files p).exit (ofPreparation verbose files p).files := by
  unfold ofPreparation
  cases hresult : p.result with
  | error trouble => exact .trouble hresult rfl rfl
  | ok plan =>
    rcases hperform : files.perform plan.writes with ⟨left, events, _ | fault⟩
    · have hdone : (files.perform plan.writes).2.2 = none := by rw [hperform]
      have hleft : left = (files.perform plan.writes).1 := by rw [hperform]
      have houtput := @Glyph.exists_chars_iff (Text.unstyled plan.output)
      rw [Text.isText_unstyled_iff] at houtput
      cases hchars : Glyph.chars (Text.unstyled plan.output) with
      | error fault =>
        rw [hchars] at houtput
        simp only [hperform, hchars]
        exact .output hresult hdone (by simpa using houtput) rfl hleft
      | ok cs =>
        simp only [hperform, hchars]
        exact .success hresult hdone (houtput.1 ⟨cs, hchars⟩) rfl hleft
    · simp only [hperform]
      exact .fault hresult (by rw [hperform]) rfl (by rw [hperform]; rfl)

/-- An error of the program leaves every file as it was. -/
lemma files_of_buildError (h : (ofPreparation verbose files p).exit = .buildError) :
    (ofPreparation verbose files p).files = files := by
  cases ends_ofPreparation verbose files p with
  | trouble _ _ hunchanged => exact hunchanged
  | fault _ _ hexit => exact absurd (hexit.symm.trans h) (Trouble.exit_text_ne_buildError _)
  | output _ _ _ hexit => cases hexit.symm.trans h
  | success _ _ _ hexit => cases hexit.symm.trans h

/-- Without a plan there is no success. -/
lemma exists_plan_of_success (h : (ofPreparation verbose files p).exit = .success) :
    ∃ plan, p.result = .ok plan ∧ Glyph.IsText plan.output ∧
      (files.perform plan.writes).2.2 = none ∧
      (ofPreparation verbose files p).files = (files.perform plan.writes).1 := by
  cases ends_ofPreparation verbose files p with
  | trouble _ hexit => exact absurd (hexit.symm.trans h) (Trouble.exit_ne_success _)
  | fault _ _ hexit => exact absurd (hexit.symm.trans h) (Trouble.exit_ne_success _)
  | output _ _ _ hexit => cases hexit.symm.trans h
  | success hresult hdone htext _ hwritten => exact ⟨_, hresult, htext, hdone, hwritten⟩

end Outcome

/-! ## Command lines -/

/-- What a command line asks for, if it is accepted and no option answers it. -/
def Arguments.Asks {κ α : Type} (switches : List (Switch κ)) (answer : κ → Option String)
    (options : Arguments κ → Except UsageFault α) (line : List RawText) (o : α) : Prop :=
  ∃ a, Arguments.parse switches line = .ok a ∧ a.answer? answer = none ∧ options a = .ok o

section Asks

variable {κ α : Type} {switches : List (Switch κ)} {answer : κ → Option String}
  {options : Arguments κ → Except UsageFault α} {line : List RawText}

/-- A command line asks for one thing. -/
lemma Arguments.Asks.unique {o o' : α} (h : Asks switches answer options line o)
    (h' : Asks switches answer options line o') : o = o' := by
  obtain ⟨a, hparse, -, ho⟩ := h
  obtain ⟨a', hparse', -, ho'⟩ := h'
  cases hparse.symm.trans hparse'
  exact Except.ok.inj (ho.symm.trans ho')

/-- **A command** answers by itself, or does what the command line asks for. -/
lemma cases_of_dispatch {act : α → Outcome} {files : FileTree} {outcome : Outcome}
    (h : (do
      let a ← Arguments.parse switches line
      if let some text := a.answer? answer then return ⟨.success, text, "", files⟩
      let o ← options a
      return act o) = Except.ok outcome) :
    (outcome.exit = .success ∧ ∀ o, ¬Arguments.Asks switches answer options line o) ∨
      ∃ o, Arguments.Asks switches answer options line o ∧ outcome = act o := by
  obtain ⟨a, hparse, h⟩ := bind_eq_ok_iff.1 h
  cases hanswer : a.answer? answer with
  | some text =>
    rw [hanswer] at h
    cases h
    refine .inl ⟨rfl, ?_⟩
    rintro o ⟨a', hparse', hnone, -⟩
    cases hparse.symm.trans hparse'
    cases hanswer.symm.trans hnone
  | none =>
    rw [hanswer] at h
    obtain ⟨o, ho, h⟩ := bind_eq_ok_iff.1 h
    cases h
    exact .inr ⟨o, ⟨a, hparse, hanswer, ho⟩, rfl⟩

end Asks

namespace AssembleCommand

/-- What a command line asks for, if it is accepted and no option answers it. -/
def Asks (line : List RawText) (files : FileTree) (o : Options) : Prop :=
  Arguments.Asks switches answer (Options.ofArguments files) line o

/-- The command answers by itself, or does what the command line asks for. -/
lemma cases_of_run {line : List RawText} {env : Environment} {files : FileTree} {outcome : Outcome}
    (h : run line env files = .ok outcome) :
    (outcome.exit = .success ∧ ∀ o, ¬Asks line files o) ∨
      ∃ o, Asks line files o ∧
        outcome = Outcome.ofPreparation o.verbose files (prepare o env files) :=
  cases_of_dispatch h

/-- The files that the command writes before the image. -/
def auxiliary (o : Options) (w : Workbench) : List Write :=
  (o.listing.map fun p => ⟨p, .text (Glyph.ofText w.listing), .wroteListing p.text⟩).toList ++
    (o.symbols.map fun p => ⟨p, .text (Glyph.ofText w.symbolFile), .wroteSymbols p.text⟩).toList

/-- The image is written last. -/
lemma writes_planOf (o : Options) (w : Workbench) (code : List UInt8) :
    (planOf o w code).writes =
      auxiliary o w ++ [⟨o.image, .bytes code, .wroteImage code.length o.image.text⟩] := rfl

/-- The other files are the listing and the symbol file. -/
lemma path_of_mem_auxiliary {o : Options} {w : Workbench} {x : Write} (h : x ∈ auxiliary o w) :
    x.path ∈ o.listing ∨ x.path ∈ o.symbols := by
  simp only [auxiliary, List.mem_append, Option.mem_toList, Option.map_eq_some_iff] at h
  rcases h with ⟨p, hp, rfl⟩ | ⟨p, hp, rfl⟩
  · exact .inl hp
  · exact .inr hp

/-- What the command comes to before it writes, step by step. -/
lemma result_prepare (o : Options) (env : Environment) (files : FileTree) :
    (prepare o env files).result = (do
      let settings ← o.settings env
      let w ← (Workbench.new settings).mapError .assembly
      let run ← (w.assembleFile files o.input).mapError .text
      let code ← run.outcome.mapError .assembly
      return planOf o run.workbench code) := by
  simp only [prepare, assembleWith, bind, Except.bind, pure, Except.pure, Except.mapError]
  cases o.settings env with
  | error trouble => rfl
  | ok settings =>
    dsimp only
    cases Workbench.new settings with
    | error failure => rfl
    | ok w =>
      dsimp only
      cases w.assembleFile files o.input with
      | error fault => rfl
      | ok run =>
        dsimp only
        cases run.outcome <;> rfl

/-- What the command writes comes from an assembly. -/
lemma exists_plan {o : Options} {env : Environment} {files : FileTree} {plan : Plan}
    (h : (prepare o env files).result = .ok plan) : ∃ w code, plan = planOf o w code := by
  rw [result_prepare] at h
  obtain ⟨settings, -, h⟩ := bind_eq_ok_iff.1 h
  obtain ⟨w, -, h⟩ := bind_eq_ok_iff.1 h
  obtain ⟨run, -, h⟩ := bind_eq_ok_iff.1 h
  obtain ⟨code, -, h⟩ := bind_eq_ok_iff.1 h
  cases h
  exact ⟨run.workbench, code, rfl⟩

variable {o : Options} {env : Environment} {files : FileTree}

/-- **A failed command leaves the image as it was**, unless another of its files is at that
place. -/
lemma read_image_iff_of_failure
    (h : (Outcome.ofPreparation o.verbose files (prepare o env files)).exit ≠ .success)
    (hplaces : ∀ p, p ∈ o.listing ∨ p ∈ o.symbols → ¬files.SamePlace p o.image)
    (bytes : List UInt8) :
    (Outcome.ofPreparation o.verbose files (prepare o env files)).files.read o.image = .ok bytes ↔
      files.read o.image = .ok bytes := by
  cases Outcome.ends_ofPreparation o.verbose files (prepare o env files) with
  | trouble _ _ hunchanged => rw [hunchanged]
  | fault hresult hstopped _ hwritten =>
    obtain ⟨w, code, rfl⟩ := exists_plan hresult
    rw [writes_planOf] at hstopped hwritten
    rw [hwritten, FileTree.perform_concat_of_fault rfl hstopped]
    refine (files.changesAt_perform (auxiliary o w)).read_eq_ok_iff ?_
    rintro q hq ⟨x, hx, hxq⟩
    exact hplaces x.path (path_of_mem_auxiliary hx) ⟨q, hxq, hq⟩
  | output hresult _ hstray =>
    -- the command shows nothing
    obtain ⟨w, code, rfl⟩ := exists_plan hresult
    exact absurd (Glyph.isText_ofText "") hstray
  | success _ _ _ hexit => exact absurd hexit h

/-- A command that succeeds has written the image of an assembly. -/
lemma exists_image_of_success
    (h : (Outcome.ofPreparation o.verbose files (prepare o env files)).exit = .success) :
    ∃ w code, (prepare o env files).result = .ok (planOf o w code) ∧
      (Outcome.ofPreparation o.verbose files (prepare o env files)).files.read o.image =
        .ok code := by
  obtain ⟨plan, hresult, -, hdone, hwritten⟩ := Outcome.exists_plan_of_success h
  obtain ⟨w, code, rfl⟩ := exists_plan hresult
  refine ⟨w, code, hresult, ?_⟩
  rw [writes_planOf] at hdone hwritten
  obtain ⟨bytes, hbytes, hwrite⟩ :=
    FileTree.store_eq_ok_iff.1 (FileTree.perform_concat_of_done hdone)
  cases hbytes
  rw [hwritten, FileTree.read_write hwrite]

end AssembleCommand

namespace DisassembleCommand

/-- What a command line asks for, if it is accepted and no option answers it. -/
def Asks (line : List RawText) (files : FileTree) (o : Options) : Prop :=
  Arguments.Asks switches answer (Options.ofArguments files) line o

/-- The command answers by itself, or does what the command line asks for. -/
lemma cases_of_run {line : List RawText} {env : Environment} {files : FileTree} {outcome : Outcome}
    (h : run line env files = .ok outcome) :
    (outcome.exit = .success ∧ ∀ o, ¬Asks line files o) ∨
      ∃ o, Asks line files o ∧
        outcome = Outcome.ofPreparation o.verbose files (prepare o env files) :=
  cases_of_dispatch h

/-- What the command comes to before it writes, step by step. -/
lemma result_prepare (o : Options) (env : Environment) (files : FileTree) :
    (prepare o env files).result = (do
      let settings ← o.settings env
      let data ← (files.read o.input).mapError fun fault => .text (.file fault)
      if settings.start + data.length > 0x10000 then
        .error (.parameter (.pastEnd data.length settings.start))
      else do
        let d ← disassembler o settings files
        (disassembleWith o settings data d).2) := by
  simp only [prepare, bind, Except.bind, Except.mapError]
  cases o.settings env with
  | error trouble => rfl
  | ok settings =>
    dsimp only
    cases files.read o.input with
    | error fault => rfl
    | ok data =>
      dsimp only
      split_ifs with hpast
      · rfl
      · cases disassembler o settings files <;> rfl

/-- What the command writes is a text with the name of the image in it. -/
lemma exists_plan {o : Options} {env : Environment} {files : FileTree} {plan : Plan}
    (h : (prepare o env files).result = .ok plan) :
    ∃ settings size body, plan = planOf o (textOf o settings size body) := by
  rw [result_prepare] at h
  obtain ⟨settings, -, h⟩ := bind_eq_ok_iff.1 h
  obtain ⟨data, -, h⟩ := bind_eq_ok_iff.1 h
  split_ifs at h with hpast
  obtain ⟨d, -, h⟩ := bind_eq_ok_iff.1 h
  unfold disassembleWith at h
  cases hbody : (d.disassemble data settings.start o.count).text settings.start
      settings.showBytes with
  | error fault => simp [hbody] at h
  | ok body =>
    simp only [hbody] at h
    cases h
    exact ⟨settings, data.length, body, rfl⟩

variable {o : Options} {env : Environment} {files : FileTree}

/-- The text can be encoded exactly when the name of the image is UTF-8. -/
lemma isText_textOf_iff {settings : DisassemblySettings} {size : Nat} {body : String} :
    Glyph.IsText (textOf o settings size body) ↔ o.input.name.IsText := by
  simp [textOf, RawText.isText_glyphs_iff]

/-- A command that is asked for a file writes that file and shows nothing. -/
lemma planOf_of_some {path : Path} (h : o.output = some path) (text : List Glyph) :
    planOf o text = ⟨[], [⟨path, .text text, .wroteText path.text⟩], []⟩ := by
  simp only [planOf, h]

/-- A command that is not asked for a file writes none and shows the text. -/
lemma planOf_of_none (h : o.output = none) (text : List Glyph) :
    planOf o text = ⟨text, [], []⟩ := by
  simp only [planOf, h]

/-- **A failed command leaves every file as it was**, unless the name of the image is not UTF-8:
then it may leave the file that it was asked for, but empty.

**Proof sketch.** A command writes one file at most. If that file cannot be opened, nothing has
changed; if its text cannot be encoded, that is because of the name. A command that shows its text
writes no file. -/
lemma files_of_failure
    (h : (Outcome.ofPreparation o.verbose files (prepare o env files)).exit ≠ .success) :
    (Outcome.ofPreparation o.verbose files (prepare o env files)).files = files ∨
      (Outcome.ofPreparation o.verbose files (prepare o env files)).exit = .internalError ∧
        ¬o.input.name.IsText ∧ ∃ path ∈ o.output, files.write path [] =
          .ok (Outcome.ofPreparation o.verbose files (prepare o env files)).files := by
  cases Outcome.ends_ofPreparation o.verbose files (prepare o env files) with
  | trouble _ _ hunchanged => exact .inl hunchanged
  | fault hresult hstopped hexit hwritten =>
    obtain ⟨settings, size, body, rfl⟩ := exists_plan hresult
    cases houtput : o.output with
    | none =>
      rw [planOf_of_none houtput] at hstopped
      cases hstopped
    | some path =>
      rw [planOf_of_some houtput] at hstopped hwritten
      cases hstore :
        files.store ⟨path, .text (textOf o settings size body), .wroteText path.text⟩ with
      | ok t =>
        rw [FileTree.perform_cons_of_ok hstore] at hstopped
        cases hstopped
      | error failed =>
        obtain ⟨left, fault⟩ := failed
        rw [FileTree.perform_cons_of_error hstore] at hstopped hwritten
        cases hstopped
        rcases FileTree.store_eq_error_iff.1 hstore with ⟨f, -, rfl, -⟩ | ⟨f, hopen, hencoded, rfl⟩
        · exact .inl hwritten
        · have hstray := Glyph.exists_encode_eq_error_iff.1 ⟨f, hencoded⟩
          rw [isText_textOf_iff] at hstray
          exact .inr ⟨hexit, hstray, path, rfl, by rw [hwritten]; exact hopen⟩
  | output hresult _ hstray _ hwritten =>
    obtain ⟨settings, size, body, rfl⟩ := exists_plan hresult
    cases houtput : o.output with
    | none =>
      rw [planOf_of_none houtput] at hwritten
      exact .inl hwritten
    | some path =>
      rw [planOf_of_some houtput] at hstray
      exact absurd (Glyph.isText_ofText "") hstray
  | success _ _ _ hexit => exact absurd hexit h

/-- A command that has a text with a name that is not UTF-8, and a file to write it to, leaves that
file empty. -/
lemma emptied_of_not_isText {plan : Plan} (hplan : (prepare o env files).result = .ok plan)
    (hname : ¬o.input.name.IsText) {path : Path} (hpath : o.output = some path) {left : FileTree}
    (hopen : files.write path [] = .ok left) :
    (Outcome.ofPreparation o.verbose files (prepare o env files)).exit = .internalError ∧
      (Outcome.ofPreparation o.verbose files (prepare o env files)).files = left := by
  obtain ⟨settings, size, body, rfl⟩ := exists_plan hplan
  obtain ⟨fault, hfault⟩ := Glyph.exists_encode_eq_error_iff.2
    (mt (@isText_textOf_iff o settings size body).1 hname)
  rw [planOf_of_some hpath] at hplan
  have hstore : files.store ⟨path, .text (textOf o settings size body), .wroteText path.text⟩ =
      .error (left, .unencodable fault) :=
    FileTree.store_eq_error_iff.2 (.inr ⟨fault, hopen, hfault, rfl⟩)
  simp only [Outcome.ofPreparation, hplan, FileTree.perform_cons_of_error hstore, Outcome.failed,
    Trouble.exit, and_self]

/-- A command that succeeds and has a file to write has written the text to it. -/
lemma exists_text_of_success {path : Path} (hpath : o.output = some path)
    (h : (Outcome.ofPreparation o.verbose files (prepare o env files)).exit = .success) :
    ∃ text, (prepare o env files).result = .ok (planOf o (Glyph.ofText text)) ∧
      (Outcome.ofPreparation o.verbose files (prepare o env files)).files.read path =
        .ok (Utf8.encode text) := by
  obtain ⟨plan, hresult, -, hdone, hwritten⟩ := Outcome.exists_plan_of_success h
  obtain ⟨settings, size, body, rfl⟩ := exists_plan hresult
  have hwrites : (planOf o (textOf o settings size body)).writes =
      [] ++ [⟨path, .text (textOf o settings size body), .wroteText path.text⟩] := by
    rw [planOf_of_some hpath, List.nil_append]
  rw [hwrites] at hdone hwritten
  obtain ⟨bytes, hbytes, hwrite⟩ :=
    FileTree.store_eq_ok_iff.1 (FileTree.perform_concat_of_done hdone)
  obtain ⟨text, htext, rfl⟩ := Glyph.encode_eq_ok_iff.1 hbytes
  exact ⟨text, by rw [hresult, htext], by rw [hwritten, FileTree.read_write hwrite]⟩

end DisassembleCommand

/-! ## Commands that fail -/

/-- Different ways to end have different codes. -/
lemma Exit.code_eq_iff (e e' : Exit) : e.code = e'.code ↔ e = e' := by
  cases e <;> cases e' <;> decide

/-- **A failed command leaves no output, or an empty file.** For any files, command line and
environment:

* if the assembler ends with code 1, every file is as it was, whatever files it was asked to write;
* if the assembler ends with another code than 0, the file for the image is as it was, provided that
  neither the listing nor the symbol file is at the same place; if it ends with code 0, that file
  holds the image;
* if the disassembler ends with another code than 0, every file is as it was, unless the name of the
  image is not UTF-8 and the code is 3: then the file that it was asked for may be there, but empty;
  if it ends with code 0 and was asked to write a file, that file holds the text;
* if the name of the image is not UTF-8, the disassembler was asked to write a file, and nothing
  goes wrong before that file is open, then it ends with code 3 and leaves the file empty.

**Proof sketch.** What is written is a plan, and without a plan nothing is (`Outcome.Ends`). The
image is the last file of the plan, and its bytes need not be encoded, so that a fault of any file
leaves it unwritten (`FileTree.perform_concat_of_fault`); the files before it change their own
places only (`FileTree.changesAt_perform`). A fault of a file is no error of the program, so code 1
means that there was no plan. The only file of the disassembler is left empty exactly when it could
be opened and the text cannot be encoded (`FileTree.store_eq_error_iff`). -/
theorem failed_commands_leave_files (line : List RawText) (env : Environment) (files : FileTree) :
    (∀ outcome, AssembleCommand.run line env files = .ok outcome →
      (outcome.exit.code = 1 → outcome.files = files) ∧
      ∀ o, AssembleCommand.Asks line files o →
        (outcome.exit.code ≠ 0 →
          (∀ p, p ∈ o.listing ∨ p ∈ o.symbols → ¬files.SamePlace p o.image) →
          ∀ bytes, outcome.files.read o.image = .ok bytes ↔ files.read o.image = .ok bytes) ∧
        (outcome.exit.code = 0 → ∃ w code,
          (AssembleCommand.prepare o env files).result = .ok (AssembleCommand.planOf o w code) ∧
          outcome.files.read o.image = .ok code)) ∧
    ∀ outcome, DisassembleCommand.run line env files = .ok outcome →
      (outcome.exit.code ≠ 0 → outcome.files = files ∨
        outcome.exit.code = 3 ∧ ∃ o, DisassembleCommand.Asks line files o ∧
          ¬o.input.name.IsText ∧ ∃ path ∈ o.output, files.write path [] = .ok outcome.files) ∧
      ∀ o, DisassembleCommand.Asks line files o → ∀ path ∈ o.output,
        (outcome.exit.code = 0 → ∃ text,
          (DisassembleCommand.prepare o env files).result =
            .ok (DisassembleCommand.planOf o (Glyph.ofText text)) ∧
          outcome.files.read path = .ok (Utf8.encode text)) ∧
        (¬o.input.name.IsText →
          ∀ plan, (DisassembleCommand.prepare o env files).result = .ok plan →
          ∀ left, files.write path [] = .ok left →
          outcome.exit.code = 3 ∧ outcome.files = left) := by
  have hzero : ∀ {e : Exit}, e.code = 0 ↔ e = .success := fun {e} => e.code_eq_iff .success
  have hone : ∀ {e : Exit}, e.code = 1 ↔ e = .buildError := fun {e} => e.code_eq_iff .buildError
  have hthree : ∀ {e : Exit}, e.code = 3 ↔ e = .internalError := fun {e} =>
    e.code_eq_iff .internalError
  refine ⟨fun outcome h => ?_, fun outcome h => ?_⟩
  · rcases AssembleCommand.cases_of_run h with ⟨hexit, hnone⟩ | ⟨o, ho, rfl⟩
    · refine ⟨fun hcode => ?_, fun o ho => absurd ho (hnone o)⟩
      rw [hexit] at hcode
      cases hcode
    · refine ⟨fun hcode => Outcome.files_of_buildError (hone.1 hcode), fun o' ho' => ?_⟩
      obtain rfl := ho.unique ho'
      exact ⟨fun hcode => AssembleCommand.read_image_iff_of_failure (mt hzero.2 hcode),
        fun hcode => AssembleCommand.exists_image_of_success (hzero.1 hcode)⟩
  · rcases DisassembleCommand.cases_of_run h with ⟨hexit, hnone⟩ | ⟨o, ho, rfl⟩
    · exact ⟨fun hcode => absurd (hzero.2 hexit) hcode, fun o ho => absurd ho (hnone o)⟩
    · refine ⟨fun hcode => ?_, fun o' ho' path hpath => ?_⟩
      · rcases DisassembleCommand.files_of_failure (mt hzero.2 hcode) with
          hfiles | ⟨hexit, hstray, hempty⟩
        · exact .inl hfiles
        · exact .inr ⟨hthree.2 hexit, o, ho, hstray, hempty⟩
      · obtain rfl := ho.unique ho'
        refine ⟨fun hcode => DisassembleCommand.exists_text_of_success hpath (hzero.1 hcode), ?_⟩
        intro hstray plan hplan left hopen
        obtain ⟨hexit, hfiles⟩ := DisassembleCommand.emptied_of_not_isText hplan hstray hpath hopen
        exact ⟨hthree.2 hexit, hfiles⟩

/-- A directory with a program of one instruction. -/
def sampleFiles : FileTree :=
  ⟨["work"], [(["work"], .directory), (["work", "rom.asm"], .file (Utf8.encode "HLT\n"))]⟩

/-- A command line for a listing and for a symbol file in a directory that does not exist. -/
def sampleLine : List RawText := ["rom.asm", "-l", "rom.lst", "-s", "none/rom.sym"]

/-- What the sample asks for. -/
def sampleOptions : AssembleCommand.Options where
  input := ⟨false, ["rom.asm"]⟩
  output := none
  listing := some ⟨false, ["rom.lst"]⟩
  symbols := some ⟨false, ["none", "rom.sym"]⟩
  fill := none
  size := none
  caseSensitive := false
  verbose := false

/-- The command of the sample writes the listing, fails at the symbol file and writes no image. -/
theorem failed_sample_leaves_image :
    AssembleCommand.Asks sampleLine sampleFiles sampleOptions ∧
      (∀ p, p ∈ sampleOptions.listing ∨ p ∈ sampleOptions.symbols →
        ¬sampleFiles.SamePlace p sampleOptions.image) ∧
      ∃ outcome, AssembleCommand.run sampleLine [] sampleFiles = .ok outcome ∧
        outcome.exit.code = 2 ∧
        outcome.files.entries.map Prod.fst =
          ([["work", "rom.lst"], ["work"], ["work", "rom.asm"]] : List Place) ∧
        ∀ bytes, outcome.files.read sampleOptions.image = .ok bytes ↔
          sampleFiles.read sampleOptions.image = .ok bytes := by
  have hasks : AssembleCommand.Asks sampleLine sampleFiles sampleOptions :=
    ⟨⟨[(.listing, "rom.lst"), (.symbols, "none/rom.sym")], ["rom.asm"]⟩, rfl, rfl,
      by decide +kernel⟩
  have himage : sampleFiles.placeOf sampleOptions.image = .ok ["work", "rom.bin"] := by
    decide +kernel
  have hplaces : ∀ p, p ∈ sampleOptions.listing ∨ p ∈ sampleOptions.symbols →
      ¬sampleFiles.SamePlace p sampleOptions.image := by
    rintro _ (⟨⟨⟩⟩ | ⟨⟨⟩⟩) ⟨place, hplace, hplace'⟩ <;> cases himage.symm.trans hplace' <;>
      revert hplace <;> decide +kernel
  have hrun : (AssembleCommand.run sampleLine [] sampleFiles).map
      (fun outcome => (outcome.exit.code, outcome.files.entries.map Prod.fst)) =
        .ok (2, ([["work", "rom.lst"], ["work"], ["work", "rom.asm"]] : List Place)) := by
    decide +kernel
  refine ⟨hasks, hplaces, ?_⟩
  cases h : AssembleCommand.run sampleLine [] sampleFiles with
  | error fault =>
    rw [h] at hrun
    cases hrun
  | ok outcome =>
    rw [h] at hrun
    obtain ⟨hcode, hentries⟩ := Prod.mk.inj (Except.ok.inj hrun)
    have hfailed := (failed_commands_leave_files sampleLine [] sampleFiles).1 outcome h
    exact ⟨outcome, rfl, hcode, hentries, (hfailed.2 _ hasks).1 (by omega) hplaces⟩

/-- The name of an image with a byte that is part of no character. -/
def strayName : RawText := "rom" ++ (⟨[0xFF]⟩ : RawText) ++ ".bin"

/-- A directory with an image of one byte under such a name, and a source file. -/
def strayFiles : FileTree :=
  ⟨["work"], [(["work"], .directory), (["work", strayName], .file [0]),
    (["work", "out.asm"], .file (Utf8.encode "HLT\n"))]⟩

/-- A command line for a disassembly of the image into the source file. -/
def strayLine : List RawText := [strayName, "-o", "out.asm"]

/-- The disassembler fails with code 3 and leaves the source file empty. -/
theorem failed_sample_empties_file :
    (DisassembleCommand.run strayLine [] strayFiles).map
        (fun outcome => (outcome.exit.code, outcome.errorOutput,
          outcome.files.read ⟨false, ["out.asm"]⟩)) =
      .ok (3, "Internal error: 'utf-8' codec can't encode character '\\udcff' in position 20: " ++
        "surrogates not allowed\n", .ok []) ∧
      strayFiles.read ⟨false, ["out.asm"]⟩ = .ok (Utf8.encode "HLT\n") := by
  decide +kernel

end Asm8080
