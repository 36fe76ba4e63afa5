import Asm8080.Files.Tree
import Asm8080.Proofs.Text.Raw

/-!
# Files that are written and files that are read

Writing a file changes the tree at the place of the file and nowhere else. It makes no directory and
removes none, so that every path leads to the same place afterwards. Writing a text does the same if
the text can be encoded; otherwise it leaves an empty file. A text that names a file names it as a
path too, although a path leaves out the parts of the text that lead nowhere.

## Main definitions

* `Asm8080.FileTree.ChangesAt` — two trees differ only in files, and only at given places.
* `Asm8080.FileTree.Obstructed` — a path leads through a file, or it is too long.

## Main results

* `Asm8080.FileTree.changesAt_write` — writing a file changes the tree at its place only.
* `Asm8080.FileTree.read_write` — a file that was written holds what was written.
* `Asm8080.FileTree.ChangesAt.read_eq_ok_iff` — a file at another place holds what it held.
* `Asm8080.FileTree.writeText_eq_ok_iff`, `Asm8080.FileTree.writeText_eq_error_iff` — what writing a
  text comes to.
* `Asm8080.FileTree.exists_read_of_isFile` — a text that names a file is the path of a file that can
  be read.
* `Asm8080.FileTree.exists_write_eq_error_iff` — when the path of a file to write is obstructed.
-/

set_option autoImplicit false

namespace Asm8080

namespace FileTree

variable {t t' : FileTree}

/-! ## One place -/

/-- Other keys are found where they were when the entries of a key are removed. -/
lemma lookup_filter_ne {place q : Place} (h : q ≠ place) (entries : List (Place × Entry)) :
    (entries.filter fun e => e.1 != place).lookup q = entries.lookup q := by
  induction entries with
  | nil => rfl
  | cons e entries ih =>
    by_cases he : e.1 = place
    · have hq : (q == e.1) = false := by simpa [he] using h
      rw [List.filter_cons_of_neg (by simp [he]), ih, List.lookup_cons, hq]
    · rw [List.filter_cons_of_pos (by simp [he]), List.lookup_cons, List.lookup_cons, ih]

/-- A file that is put at a place is there, and every other place is as it was. -/
lemma entry?_put {place : Place} (hplace : place ≠ []) (bytes : List UInt8) (q : Place) :
    FileTree.entry? (t.put place bytes) q =
      if q = place then some (.file bytes) else t.entry? q := by
  unfold FileTree.entry?
  by_cases hq : q = place
  · simp [put, hq, hplace]
  · simp only [put, hq, if_false, List.lookup_cons, beq_eq_false_iff_ne.2 hq, lookup_filter_ne hq]

/-- A place that is no directory is not the root. -/
lemma ne_nil_of_entry?_ne {place : Place} (h : t.entry? place ≠ some .directory) :
    place ≠ [] := by
  rintro rfl
  exact h rfl

/-! ## Paths -/

/-- A step leads on from a directory only. -/
lemma entry?_of_walk_cons {place q : Place} {step : RawText} {steps : List RawText}
    (h : t.walk place (step :: steps) = .ok q) : t.entry? place = some .directory := by
  cases hplace : t.entry? place with
  | none => simp [walk, hplace] at h
  | some entry =>
    cases entry with
    | file bytes => simp [walk, hplace] at h
    | directory => rfl

/-- Two trees differ only in files, and only at the given places. -/
structure ChangesAt (places : Place → Prop) (t t' : FileTree) : Prop where
  working : t'.working = t.working
  directory : ∀ q, t'.entry? q = some .directory ↔ t.entry? q = some .directory
  entry : ∀ q, ¬places q → t'.entry? q = t.entry? q

namespace ChangesAt

variable {places : Place → Prop}

/-- Nothing changes. -/
lemma refl (places : Place → Prop) (t : FileTree) : ChangesAt places t t :=
  ⟨rfl, fun _ => Iff.rfl, fun _ _ => rfl⟩

/-- Changes one after another. -/
lemma trans {t'' : FileTree} (h : ChangesAt places t t') (h' : ChangesAt places t' t'') :
    ChangesAt places t t'' where
  working := h'.working.trans h.working
  directory q := (h'.directory q).trans (h.directory q)
  entry q hq := (h'.entry q hq).trans (h.entry q hq)

/-- Changes at some places are changes at more places. -/
lemma mono {places' : Place → Prop} (h : ChangesAt places t t') (hle : ∀ q, places q → places' q) :
    ChangesAt places' t t' :=
  ⟨h.working, h.directory, fun q hq => h.entry q fun hq' => hq (hle q hq')⟩

/-- Steps lead to the same place, since they lead through the same directories. -/
lemma walk_eq_ok_iff (h : ChangesAt places t t') {place q : Place} {steps : List RawText} :
    t'.walk place steps = .ok q ↔ t.walk place steps = .ok q := by
  induction steps generalizing place with
  | nil => rfl
  | cons step steps ih =>
    by_cases hplace : t.entry? place = some .directory
    · have hplace' := (h.directory place).2 hplace
      simp only [walk, hplace, hplace']
      split_ifs with hstay hup hname
      · exact ih
      · exact ih
      · exact ih
      · rfl
    · have hplace' := mt (h.directory place).1 hplace
      exact ⟨fun hwalk => absurd (entry?_of_walk_cons hwalk) hplace',
        fun hwalk => absurd (entry?_of_walk_cons hwalk) hplace⟩

/-- A path leads to the same place. -/
lemma placeOf_eq_ok_iff (h : ChangesAt places t t') {p : Path} {q : Place} :
    t'.placeOf p = .ok q ↔ t.placeOf p = .ok q := by
  unfold placeOf startOf
  rw [h.working]
  split
  · exact h.walk_eq_ok_iff
  · rfl

end ChangesAt

/-! ## Reading and writing -/

/-- A file is read exactly when its path leads to it. -/
lemma read_eq_ok_iff {p : Path} {bytes : List UInt8} :
    t.read p = .ok bytes ↔ ∃ place, t.placeOf p = .ok place ∧
      t.entry? place = some (.file bytes) := by
  unfold read
  cases t.placeOf p with
  | error kind => simp
  | ok place =>
    simp only [Except.ok.injEq, exists_eq_left']
    cases t.entry? place with
    | none => simp
    | some entry => cases entry <;> simp

/-- A file is written exactly when its path leads to a place that is no directory. -/
lemma write_eq_ok_iff {p : Path} {bytes : List UInt8} :
    t.write p bytes = .ok t' ↔ ∃ place, t.placeOf p = .ok place ∧
      t.entry? place ≠ some .directory ∧ t' = t.put place bytes := by
  unfold write
  cases t.placeOf p with
  | error kind => simp
  | ok place =>
    simp only [Except.ok.injEq, exists_eq_left']
    cases t.entry? place with
    | none => simp [eq_comm]
    | some entry => cases entry <;> simp [eq_comm]

/-- Whether a file can be written does not depend on what is written, and neither does the fault. -/
lemma write_eq_error_iff {p : Path} {bytes bytes' : List UInt8} {fault : FileFault} :
    t.write p bytes = .error fault ↔ t.write p bytes' = .error fault := by
  unfold write
  cases t.placeOf p with
  | error kind => rfl
  | ok place =>
    dsimp only
    cases t.entry? place with
    | none => simp
    | some entry => cases entry <;> simp

/-- **Writing a file** changes the tree at the place of the file only. -/
lemma changesAt_write {p : Path} {bytes : List UInt8} (h : t.write p bytes = .ok t') :
    ChangesAt (fun q => t.placeOf p = .ok q) t t' := by
  obtain ⟨place, hp, hplace, rfl⟩ := write_eq_ok_iff.1 h
  have hput := entry?_put (t := t) (ne_nil_of_entry?_ne hplace) bytes
  refine ⟨rfl, fun q => ?_, fun q hq => ?_⟩
  · rw [hput]
    by_cases hq : q = place
    · simp [hq, hplace]
    · rw [if_neg hq]
  · have hne : q ≠ place := by
      rintro rfl
      exact hq hp
    rw [hput, if_neg hne]

/-- **A file that was written** holds what was written. -/
lemma read_write {p : Path} {bytes : List UInt8} (h : t.write p bytes = .ok t') :
    t'.read p = .ok bytes := by
  obtain ⟨place, hp, hplace, rfl⟩ := write_eq_ok_iff.1 h
  have hsame := (changesAt_write h).placeOf_eq_ok_iff.2 hp
  refine read_eq_ok_iff.2 ⟨place, hsame, ?_⟩
  rw [entry?_put (ne_nil_of_entry?_ne hplace), if_pos rfl]

/-- Putting a file at a place twice is putting it there once. -/
lemma put_put (place : Place) (bytes bytes' : List UInt8) :
    (t.put place bytes).put place bytes' = t.put place bytes' := by
  simp only [put, List.filter_cons, bne_self_eq_false, Bool.false_eq_true, if_false,
    List.filter_filter, Bool.and_self]

/-- **Writing a file again** is writing it in the first place. -/
lemma write_write {p : Path} {bytes bytes' : List UInt8} (h : t.write p bytes = .ok t') :
    t'.write p bytes' = t.write p bytes' := by
  obtain ⟨place, hp, hplace, rfl⟩ := write_eq_ok_iff.1 h
  have hchanges := changesAt_write h
  have hagain : (t.put place bytes).write p bytes' =
      .ok ((t.put place bytes).put place bytes') :=
    write_eq_ok_iff.2 ⟨place, hchanges.placeOf_eq_ok_iff.2 hp,
      mt (hchanges.directory place).1 hplace, rfl⟩
  have hfirst : t.write p bytes' = .ok (t.put place bytes') :=
    write_eq_ok_iff.2 ⟨place, hp, hplace, rfl⟩
  rw [hagain, hfirst, put_put]

/-- **A file at a place that does not change** holds what it held. -/
lemma ChangesAt.read_eq_ok_iff {places : Place → Prop} (h : ChangesAt places t t') {p : Path}
    (hp : ∀ q, t.placeOf p = .ok q → ¬places q) {bytes : List UInt8} :
    t'.read p = .ok bytes ↔ t.read p = .ok bytes := by
  rw [FileTree.read_eq_ok_iff, FileTree.read_eq_ok_iff]
  refine exists_congr fun q => ?_
  rw [h.placeOf_eq_ok_iff]
  refine and_congr_right fun hq => ?_
  rw [h.entry q (hp q hq)]

/-! ## Writing texts -/

/-- **A text is written** exactly when it can be encoded and its bytes can be written. -/
lemma writeText_eq_ok_iff {p : Path} {text : List Glyph} :
    t.writeText p text = .ok t' ↔
      ∃ bytes, Glyph.encode text = .ok bytes ∧ t.write p bytes = .ok t' := by
  unfold writeText
  cases hopen : t.write p [] with
  | error fault =>
    have hnone : ∀ bytes, t.write p bytes = .error fault := fun _ => write_eq_error_iff.1 hopen
    simp [hnone]
  | ok opened =>
    cases Glyph.encode text with
    | error fault => simp
    | ok bytes =>
      simp only [write_write hopen, Except.ok.injEq, exists_eq_left']
      cases t.write p bytes <;> simp [Except.mapError]

/-- **A text is not written** exactly when its file cannot be opened, which leaves the tree as it
was, or when it cannot be encoded, which leaves an empty file. -/
lemma writeText_eq_error_iff {p : Path} {text : List Glyph} {left : FileTree} {fault : TextFault} :
    t.writeText p text = .error (left, fault) ↔
      (∃ f, t.write p [] = .error f ∧ left = t ∧ fault = .file f) ∨
        ∃ f, t.write p [] = .ok left ∧ Glyph.encode text = .error f ∧ fault = .unencodable f := by
  unfold writeText
  cases hopen : t.write p [] with
  | error f => simp [eq_comm]
  | ok opened =>
    cases hencode : Glyph.encode text with
    | error f => simp [eq_comm]
    | ok bytes =>
      -- a file that could be opened can be written
      obtain ⟨place, hp, hplace, -⟩ := write_eq_ok_iff.1 hopen
      have hwrite : t.write p bytes = .ok (t.put place bytes) :=
        write_eq_ok_iff.2 ⟨place, hp, hplace, rfl⟩
      simp [write_write hopen, hwrite, Except.mapError]

end FileTree

/-! ## Texts and paths -/

namespace Path

/-- The number of bytes of parts with a slash after each. -/
def weight (parts : List RawText) : Nat := parts.foldr (fun part n => part.bytes.length + 1 + n) 0

/-- The bytes of one more part. -/
@[simp] lemma weight_cons (part : RawText) (parts : List RawText) :
    weight (part :: parts) = part.bytes.length + 1 + weight parts := rfl

/-- The parts of a text have the bytes of the text, with a slash more than there are in it. -/
lemma weight_componentsFrom (part bs : List UInt8) :
    weight (componentsFrom part bs) = part.length + bs.length + 1 := by
  induction bs generalizing part with
  | nil => simp [componentsFrom, weight]
  | cons b bs ih =>
    rw [componentsFrom]
    split_ifs with hb
    · rw [weight_cons, ih, List.length_reverse, List.length_nil, List.length_cons]
      omega
    · rw [ih, List.length_cons, List.length_cons]
      omega

/-- Leaving out parts leaves out bytes. -/
lemma weight_filter_le (keep : RawText → Bool) (parts : List RawText) :
    weight (parts.filter keep) ≤ weight parts := by
  induction parts with
  | nil => exact Nat.le_refl _
  | cons part parts ih =>
    rw [List.filter_cons, weight_cons]
    split_ifs with hkeep
    · rw [weight_cons]
      omega
    · omega

/-- Parts with slashes between them have one slash less than with a slash after each. -/
lemma length_intercalate {parts : List RawText} (h : parts ≠ []) :
    (List.intercalate [slash] (parts.map RawText.bytes)).length + 1 = weight parts := by
  induction parts with
  | nil => exact absurd rfl h
  | cons part parts ih =>
    cases parts with
    | nil => simp [List.intercalate, weight]
    | cons next parts =>
      have htail := ih (by simp)
      simp only [List.intercalate, List.map_cons, List.intersperse_cons_cons, List.flatten_cons,
        List.length_append, List.length_singleton, weight_cons] at htail ⊢
      omega

/-- Whether a part of a text is a part of the path that the text names. -/
def keeps (part : RawText) : Bool := part != "" && part != "."

/-- The parts of a path have no more bytes than the text, and a slash at the root besides. -/
lemma weight_parts_le (text : RawText) :
    weight ((components text).filter keeps) + (if startsAtRoot text then 1 else 0) ≤
      text.bytes.length + 1 := by
  have hle := weight_filter_le keeps
  have hweight := weight_componentsFrom [] text.bytes
  split_ifs with hroot
  · obtain ⟨bs, hbs⟩ : ∃ bs, text.bytes = slash :: bs := by
      cases htext : text.bytes with
      | nil => simp [startsAtRoot, htext] at hroot
      | cons b bs =>
        have hb : b = slash := by simpa [startsAtRoot, htext] using hroot
        exact ⟨bs, by rw [hb]⟩
    -- the part before the slash at the root is empty, and so is left out
    have hparts : components text = ⟨[]⟩ :: componentsFrom [] bs := by
      rw [components, hbs]
      rfl
    rw [← components, hparts, weight_cons, List.length_nil] at hweight
    rw [hparts, List.filter_cons_of_neg (by decide)]
    have := hle (componentsFrom [] bs)
    omega
  · have := hle (components text)
    rw [← components, List.length_nil] at hweight
    omega

/-- A path has the bytes of its parts, and a slash at the root. -/
lemma length_raw_le {p : Path} {n : Nat} (hn : 0 < n)
    (h : weight p.parts + (if p.absolute then 1 else 0) ≤ n + 1) : p.raw.bytes.length ≤ n := by
  have hslash : ∀ names : List UInt8,
      (("/" : RawText) ++ (⟨names⟩ : RawText)).bytes = slash :: names := fun _ => rfl
  have hdot : ("." : RawText).bytes.length = 1 := rfl
  by_cases hparts : p.parts = []
  · cases habsolute : p.absolute with
    | true =>
      simp only [raw, habsolute, hparts, if_true, hslash, List.map_nil]
      exact hn
    | false =>
      simp only [raw, habsolute, hparts, Bool.false_eq_true, if_false, List.isEmpty_nil, if_true,
        hdot]
      exact hn
  · have hsize := length_intercalate hparts
    have hempty : p.parts.isEmpty = false := by simpa using hparts
    cases habsolute : p.absolute with
    | true =>
      simp only [habsolute, if_true] at h
      simp only [raw, habsolute, if_true, hslash, List.length_cons]
      omega
    | false =>
      simp only [habsolute, Bool.false_eq_true, if_false] at h
      simp only [raw, habsolute, hempty, Bool.false_eq_true, if_false]
      omega

/-- A path has no more bytes than a text that names it. -/
lemma length_raw_ofText_le {text : RawText} (h : text ≠ "") :
    (ofText text).raw.bytes.length ≤ text.bytes.length := by
  refine length_raw_le (List.length_pos_iff.2 fun hnil => h ?_) (weight_parts_le text)
  cases text
  cases hnil
  rfl

end Path

namespace FileTree

variable {t : FileTree}

/-- Parts that lead nowhere may be left out. -/
lemma walk_filter_keeps {place q : Place} {steps : List RawText}
    (h : t.walk place steps = .ok q) : t.walk place (steps.filter Path.keeps) = .ok q := by
  induction steps generalizing place with
  | nil => exact h
  | cons step steps ih =>
    have hplace := entry?_of_walk_cons h
    by_cases hkeeps : Path.keeps step = true
    · have hstep : ¬(decide (step = "") || decide (step = ".")) = true := by
        simpa [Path.keeps] using hkeeps
      rw [List.filter_cons_of_pos hkeeps]
      simp only [walk, hplace, hstep, Bool.false_eq_true, if_false] at h ⊢
      split_ifs at h ⊢ with hup hname
      · exact ih h
      · exact ih h
    · have hstep : (decide (step = "") || decide (step = ".")) = true := by
        simpa [Path.keeps, or_iff_not_imp_left] using hkeeps
      rw [List.filter_cons_of_neg hkeeps]
      simp only [walk, hplace, hstep, if_true] at h
      exact ih h

/-- A text that names something is not empty and not too long, and its parts lead there. -/
lemma exists_walk_of_find? {text : RawText} {entry : Entry} (h : t.find? text = some entry) :
    text ≠ "" ∧ isPathText text = true ∧
      ∃ place, t.walk (t.startOf (Path.startsAtRoot text)) (Path.components text) = .ok place ∧
        t.entry? place = some entry := by
  unfold find? at h
  split_ifs at h with htext
  simp only [Bool.or_eq_true, decide_eq_true_eq, Bool.not_eq_true', not_or,
    Bool.not_eq_false] at htext
  refine ⟨htext.1, htext.2, ?_⟩
  cases hwalk : t.walk (t.startOf (Path.startsAtRoot text)) (Path.components text) with
  | error kind => simp [hwalk] at h
  | ok place => exact ⟨place, rfl, by simpa [hwalk] using h⟩

/-- **A text that names a file** is the path of a file that can be read. -/
lemma exists_read_of_isFile {text : RawText} (h : t.isFile text = true) :
    ∃ bytes, t.read (Path.ofText text) = .ok bytes := by
  obtain ⟨bytes, hfind⟩ : ∃ bytes, t.find? text = some (.file bytes) := by
    unfold isFile at h
    cases hfind : t.find? text with
    | none => simp [hfind] at h
    | some entry =>
      cases entry with
      | file bytes => exact ⟨bytes, rfl⟩
      | directory => simp [hfind] at h
  obtain ⟨hne, hpath, place, hwalk, hentry⟩ := exists_walk_of_find? hfind
  refine ⟨bytes, read_eq_ok_iff.2 ⟨place, ?_, hentry⟩⟩
  have hsize : isPathText (Path.ofText text).raw = true := by
    have hle := Path.length_raw_ofText_le hne
    have hlt : text.bytes.length < 4096 := of_decide_eq_true hpath
    exact decide_eq_true (by omega)
  rw [placeOf, if_pos hsize]
  exact walk_filter_keeps hwalk

/-! ## Obstructed paths -/

/-- Whether a fault is one of a path that leads through a file or is too long. -/
def isObstacle : FileFault.Kind → Bool
  | .notDirectory | .nameTooLong => true
  | .missing | .isDirectory => false

/-- A path leads through a file, or it or one of its names is too long. -/
def Obstructed (t : FileTree) (p : Path) : Prop :=
  isPathText p.raw = false ∨
    ∃ front name rest place, p.parts = front ++ name :: rest ∧
      t.walk (t.startOf p.absolute) front = .ok place ∧
      ((∃ bytes, t.entry? place = some (.file bytes)) ∨
        t.entry? place = some .directory ∧ isName name = false)

/-- From a directory a name that is not too long leads on. -/
lemma exists_walk_cons {place : Place} (h : t.entry? place = some .directory) {step : RawText}
    (hname : isName step = true) :
    ∃ next, ∀ steps, t.walk place (step :: steps) = t.walk next steps := by
  simp only [walk, h]
  by_cases hstay : (decide (step = "") || decide (step = ".")) = true
  · exact ⟨place, fun steps => if_pos hstay⟩
  · by_cases hup : step = ".."
    · exact ⟨place.dropLast, fun steps => by rw [if_neg hstay, if_pos hup]⟩
    · exact ⟨place ++ [step], fun steps => by rw [if_neg hstay, if_neg hup, if_pos hname]⟩

/-- A name that is too long leads nowhere. -/
lemma walk_cons_of_isName_eq_false {place : Place} (h : t.entry? place = some .directory)
    {step : RawText} (hname : isName step = false) (steps : List RawText) :
    t.walk place (step :: steps) = .error .nameTooLong := by
  have hstep : ∀ short : RawText, isName short = true → step ≠ short := by
    rintro short hshort rfl
    cases hname.symm.trans hshort
  simp only [walk, h, hstep "" (by decide), hstep "." (by decide), hstep ".." (by decide), hname,
    decide_false, Bool.or_self, Bool.false_eq_true, if_false]

/-- **Steps fail at an obstacle** exactly when there is a file or a name that is too long on the
way.

**Proof sketch.** Induction on the steps. From a place where nothing is no step leads on, and the
fault is no obstacle. From a file no step leads on, and it is the obstacle; from a directory, a name
that is too long is. Otherwise the first step leads to a place from where the other steps fail
exactly as all of them do, so that the obstacle is not before the first step
(`exists_walk_cons`). -/
lemma exists_walk_eq_error_iff {place : Place} {steps : List RawText} :
    (∃ kind, t.walk place steps = .error kind ∧ isObstacle kind = true) ↔
      ∃ front name rest here, steps = front ++ name :: rest ∧ t.walk place front = .ok here ∧
        ((∃ bytes, t.entry? here = some (.file bytes)) ∨
          t.entry? here = some .directory ∧ isName name = false) := by
  induction steps generalizing place with
  | nil =>
    constructor
    · rintro ⟨kind, hkind, -⟩
      cases hkind
    · rintro ⟨front, name, rest, here, hsteps, -⟩
      simp at hsteps
  | cons step steps ih =>
    -- the obstacle is at the first step, or the first step leads on and it comes later
    cases hplace : t.entry? place with
    | none =>
      have hwalk : ∀ steps, t.walk place (step :: steps) = .error .missing := fun steps => by
        simp only [walk, hplace]
      rw [hwalk]
      constructor
      · rintro ⟨kind, hkind, hobstacle⟩
        cases hkind
        cases hobstacle
      · rintro ⟨_ | ⟨step', front⟩, name, rest, here, hsteps, hfront, hhere⟩
        · cases hfront
          simp [hplace] at hhere
        · obtain ⟨rfl, -⟩ := List.cons.inj hsteps
          rw [hwalk] at hfront
          cases hfront
    | some entry =>
      cases entry with
      | file bytes =>
        refine iff_of_true ⟨.notDirectory, by simp only [walk, hplace], rfl⟩ ?_
        exact ⟨[], step, steps, place, rfl, rfl, .inl ⟨bytes, hplace⟩⟩
      | directory =>
        cases hname : isName step with
        | false =>
          refine iff_of_true ⟨.nameTooLong, walk_cons_of_isName_eq_false hplace hname steps, rfl⟩ ?_
          exact ⟨[], step, steps, place, rfl, rfl, .inr ⟨hplace, hname⟩⟩
        | true =>
          obtain ⟨next, hnext⟩ := exists_walk_cons hplace hname
          rw [hnext, ih]
          constructor
          · rintro ⟨front, name, rest, here, rfl, hfront, hhere⟩
            exact ⟨step :: front, name, rest, here, rfl, (hnext front).trans hfront, hhere⟩
          · rintro ⟨_ | ⟨step', front⟩, name, rest, here, hsteps, hfront, hhere⟩
            · cases hfront
              obtain ⟨rfl, -⟩ := List.cons.inj hsteps
              simp [hplace, hname] at hhere
            · obtain ⟨rfl, rfl⟩ := List.cons.inj hsteps
              exact ⟨front, name, rest, here, rfl, (hnext front).symm.trans hfront, hhere⟩

/-- The place of a path cannot be found because of an obstacle exactly when the path is
obstructed. -/
lemma exists_placeOf_eq_error_iff {p : Path} :
    (∃ kind, t.placeOf p = .error kind ∧ isObstacle kind = true) ↔ t.Obstructed p := by
  unfold placeOf Obstructed
  rw [← exists_walk_eq_error_iff]
  cases isPathText p.raw with
  | true => simp
  | false => exact iff_of_true ⟨.nameTooLong, rfl, rfl⟩ (.inl rfl)

/-- A file cannot be written because of an obstacle exactly when its path is obstructed. -/
lemma exists_write_eq_error_iff {p : Path} {bytes : List UInt8} :
    (∃ fault, t.write p bytes = .error fault ∧ isObstacle fault.kind = true) ↔ t.Obstructed p := by
  rw [← exists_placeOf_eq_error_iff, write]
  cases t.placeOf p with
  | error kind => simp
  | ok place =>
    dsimp only
    cases t.entry? place with
    | none => simp
    | some entry => cases entry <;> simp [isObstacle]

end FileTree

end Asm8080
