import Asm8080.Proofs.Assembly.Resolution

/-!
# One workbench, many programs

A workbench assembles one program after another, and its settings may change between two programs.
What it keeps of a program is reset at different moments: the statements once a text has been read,
the symbols and the image before the first pass, the addresses and the rows after that. Each program
is nevertheless assembled as on a fresh workbench, and what a program leaves does not depend on what
was there before.

## Main definitions

* `Asm8080.Request` — what is asked of a workbench.
* `Asm8080.Call` — an assembly that is asked of a workbench in some state.
* `Asm8080.Workbench.calls` — the assemblies among requests that are served one after another.
* `Asm8080.Call.AsFresh` — an assembly that takes nothing over from the programs before it.

## Main results

* `Asm8080.Workbench.generate_congr` — assembling statements depends on nothing but the settings.
* `Asm8080.Workbench.asFresh` — one assembly takes nothing over from the programs before it.
* `Asm8080.Workbench.calls_asFresh` — the same for every assembly of a session.
-/

set_option autoImplicit false

namespace Asm8080

/-! ## Sessions -/

/-- What is asked of a workbench. -/
inductive Request where
  /-- To go on under other settings. -/
  | configure (settings : Settings)
  /-- To assemble a source text. -/
  | assemble (source file : String)

/-- The settings that a request brings, if any, are valid. -/
def Request.Valid : Request → Prop
  | configure settings => settings.fault? = none
  | assemble _ _ => True

/-- A source text to be assembled on a workbench in some state. -/
structure Call where
  before : Workbench
  source : String
  file : String

/-- What the assembly gives, and the workbench after it. -/
def Call.run (c : Call) : Run := c.before.assemble c.source c.file

/-- The statements of the source text, under the settings of the workbench. -/
def Call.reading (c : Call) : Except Failure (List Statement) :=
  Statement.readSource c.source c.file c.before.settings.keepCase

namespace Workbench

/-- The workbench after a request. -/
def serve (w : Workbench) : Request → Workbench
  | .configure settings => { w with settings := settings }
  | .assemble source file => (w.assemble source file).workbench

/-- The assembly that a request asks for. -/
def call? (w : Workbench) : Request → Option Call
  | .configure _ => none
  | .assemble source file => some ⟨w, source, file⟩

/-- The assemblies among requests that are served one after another. -/
def calls (w : Workbench) : List Request → List Call
  | [] => []
  | r :: rs => (w.call? r).toList ++ (w.serve r).calls rs

end Workbench

/-- **An assembly takes nothing over from the programs before it.** It gives what a fresh workbench
with the same settings gives. If the text can be read, the workbench is then the fresh one after the
same assembly, in all that it keeps: statements, addresses, symbols, image and rows. If not, the
workbench is as it was before. -/
structure Call.AsFresh (c : Call) : Prop where
  settings : c.run.workbench.settings = c.before.settings
  outcome : c.run.outcome = Asm8080.assemble c.source c.file c.before.settings
  read : ∀ ss, c.reading = .ok ss → ∃ fresh, Workbench.new c.before.settings = .ok fresh ∧
    c.run.workbench = (fresh.assemble c.source c.file).workbench ∧ c.run.workbench.statements = ss
  unread : ∀ f, c.reading = .error f → c.run.workbench = c.before ∧ c.run.outcome = .error f

/-! ## One assembly -/

namespace Workbench

/-- The workbench with given settings that has assembled no program. -/
def fresh (settings : Settings) : Workbench where
  settings := settings
  image := ⟨settings.fill, ∅, 0⟩

/-- Valid settings make a fresh workbench. -/
lemma new_eq {settings : Settings} (h : settings.fault? = none) :
    new settings = .ok (fresh settings) := by
  rw [new, Settings.blank?_fillByte h]
  rfl

/-- **Assembling statements** depends on nothing that a workbench keeps except its settings and the
statements that were read. -/
lemma generate_congr {w w' : Workbench} (hw : w.settings.fault? = none)
    (hsettings : w.settings = w'.settings) (hstatements : w.statements = w'.statements)
    (ss : List Statement) : w.generate ss = w'.generate ss := by
  unfold generate
  simp only [← hsettings, ← hstatements, Settings.blank?_fillByte hw]

/-- Assembling statements changes neither the settings nor the statements that were read. -/
lemma generate_keeps (w : Workbench) (ss : List Statement) :
    (w.generate ss).workbench.settings = w.settings ∧
      (w.generate ss).workbench.statements = w.statements := by
  unfold generate
  simp only
  split
  · exact ⟨rfl, rfl⟩
  · split
    · exact ⟨rfl, rfl⟩
    · split <;> exact ⟨rfl, rfl⟩

/-- A text that can be read is assembled as its statements are. -/
lemma assemble_of_read {w : Workbench} {source file : String} {ss : List Statement}
    (h : Statement.readSource source file w.settings.keepCase = .ok ss) :
    (w.assemble source file).outcome = ({ w with statements := ss }.generate ss).outcome ∧
      (w.assemble source file).workbench = ({ w with statements := ss }.generate ss).workbench := by
  simp only [assemble, h, and_self]

/-- A text that cannot be read leaves the workbench as it was. -/
lemma assemble_of_unread {w : Workbench} {source file : String} {f : Failure}
    (h : Statement.readSource source file w.settings.keepCase = .error f) :
    w.assemble source file = ⟨w, [], .error f⟩ := by
  simp only [assemble, h]

/-- **One assembly** takes nothing over from the programs before it. -/
lemma asFresh {c : Call} (h : c.before.settings.fault? = none) : c.AsFresh := by
  have hnew := new_eq h
  have hfresh : Asm8080.assemble c.source c.file c.before.settings =
      ((fresh c.before.settings).assemble c.source c.file).outcome := by
    rw [Asm8080.assemble, hnew]
    rfl
  cases hread : c.reading with
  | error f =>
    have hrun : c.run = ⟨c.before, [], .error f⟩ := assemble_of_unread hread
    have hrun' := @assemble_of_unread (fresh c.before.settings) c.source c.file f hread
    refine ⟨by rw [hrun], by rw [hrun, hfresh, hrun'], fun ss hss => ?_, fun g hg => ?_⟩
    · cases hread.symm.trans hss
    · cases hread.symm.trans hg
      exact ⟨by rw [hrun], by rw [hrun]⟩
  | ok ss =>
    obtain ⟨houtcome, hworkbench⟩ := assemble_of_read hread
    obtain ⟨houtcome', hworkbench'⟩ :=
      @assemble_of_read (fresh c.before.settings) c.source c.file ss hread
    -- with the statements in place, the two workbenches differ only in what is reset
    have hsame := @generate_congr { c.before with statements := ss }
      { fresh c.before.settings with statements := ss } h rfl rfl ss
    obtain ⟨hsettings, hstatements⟩ := generate_keeps { c.before with statements := ss } ss
    refine ⟨?_, ?_, fun ss' hss' => ⟨_, hnew, ?_, ?_⟩, fun f hf => ?_⟩
    · rw [Call.run, hworkbench, hsettings]
    · rw [Call.run, houtcome, hfresh, houtcome', hsame]
    · rw [Call.run, hworkbench, hworkbench', hsame]
    · cases hread.symm.trans hss'
      rw [Call.run, hworkbench, hstatements]
    · cases hread.symm.trans hf

/-! ## A session -/

/-- One request leaves valid settings. -/
lemma fault?_serve {w : Workbench} (hw : w.settings.fault? = none) {r : Request} (hr : r.Valid) :
    (w.serve r).settings.fault? = none := by
  cases r with
  | configure settings => exact hr
  | assemble source file =>
    have hsettings := (asFresh (c := ⟨w, source, file⟩) hw).settings
    exact (congrArg Settings.fault? hsettings).trans hw

/-- Every assembly of a session finds valid settings. -/
lemma fault?_of_mem_calls {w : Workbench} (hw : w.settings.fault? = none) {rs : List Request}
    (hrs : ∀ r ∈ rs, r.Valid) : ∀ c ∈ w.calls rs, c.before.settings.fault? = none := by
  induction rs generalizing w with
  | nil => exact fun c hc => absurd hc List.not_mem_nil
  | cons r rs ih =>
    obtain ⟨hr, hrs⟩ := List.forall_mem_cons.1 hrs
    refine List.forall_mem_append.2 ⟨fun c hc => ?_, ih (fault?_serve hw hr) hrs⟩
    cases r with
    | configure settings => cases hc
    | assemble source file =>
      rw [List.mem_singleton.1 hc]
      exact hw

/-- **A workbench carries nothing from one program to the next.** A fresh workbench is asked for any
sequence of assemblies, under any valid settings that may change in between. Every assembly gives
the image or the failure that a fresh workbench with the current settings gives. If its text could
be read, the workbench is afterwards as that fresh one is, whether or not the assembly succeeded; if
not, the workbench is as it was.

**Proof sketch.** Assembling resets everything that it does not set (`generate_congr`), so that one
assembly is as on a fresh workbench (`asFresh`). The settings are valid at every assembly, since a
request leaves them valid (`fault?_serve`). -/
theorem calls_asFresh {settings : Settings} (h : settings.fault? = none) {requests : List Request}
    (hrequests : ∀ r ∈ requests, r.Valid) :
    ∃ w, new settings = .ok w ∧ ∀ c ∈ w.calls requests, c.AsFresh :=
  ⟨_, new_eq h, fun _ hc => asFresh (fault?_of_mem_calls h hrequests _ hc)⟩

/-- A session with a program that is assembled, one that cannot be read, one that fails in each pass
and, under other settings, one that is assembled again. -/
def sampleSession : List Request :=
  [.assemble "HERE: DB 1\n" "first.asm", .assemble "DB 'x\n" "unread.asm",
    .assemble "HERE: NOP\nHERE: NOP\n" "twice.asm", .assemble "NOP\nJMP AWAY\n" "away.asm",
    .configure { fillByte := 0xAA, imageSize := some 4 }, .assemble "ORG 1\nHLT\n" "last.asm"]

/-- The programs of the sample session are assembled as on fresh workbenches, two of them to
images. -/
theorem calls_sampleSession :
    ({} : Settings).fault? = none ∧ (∀ r ∈ sampleSession, r.Valid) ∧
      ((fresh {}).calls sampleSession).map (fun c => c.run.outcome.toOption) =
        [some [0x01], none, none, none, some [0xAA, 0x76, 0xAA, 0xAA]] ∧
      ∃ w, new {} = .ok w ∧ ∀ c ∈ w.calls sampleSession, c.AsFresh :=
  have hvalid : ∀ r ∈ sampleSession, r.Valid := by
    simp only [sampleSession, List.forall_mem_cons, Request.Valid, true_and]
    exact ⟨rfl, fun r hr => absurd hr List.not_mem_nil⟩
  ⟨rfl, hvalid, by decide +kernel, calls_asFresh rfl hvalid⟩

end Workbench

end Asm8080
