import Asm8080.Proofs.Assembly.Outline
import Asm8080.Proofs.Statement.Alike

/-!
# Texts that are assembled alike

A statement keeps its source line to show it in the listing and in diagnostics, and for nothing
else. So two texts whose tokens correspond are assembled alike: they have the same image, the same
addresses, the same symbols at the same places, and the same events; or both fail, with diagnostics
of one kind near the same place.

## Main definitions

* `Asm8080.EndMatched` — two passes end in related states, and both go through or fail alike.
* `Asm8080.Run.Agrees` — two assemblies with the same results.

## Main results

* `Asm8080.Emission.run_retexted` — the second pass over statements with other source lines.
* `Asm8080.Workbench.agrees_of_tokenize` — texts whose tokens correspond are assembled alike.
-/

set_option autoImplicit false

namespace Asm8080

variable {P : Prop}

/-! ## Failures -/

/-- Failures that are equal but for the source line are alike. -/
lemma Failure.alike_of_unlined {f g : Failure} (h : f.unlined = g.unlined) : f.Alike P g := by
  cases f with
  | diagnostic d =>
    cases g with
    | diagnostic d' =>
      simp only [unlined, Failure.diagnostic.injEq, Diagnostic.mk.injEq, and_true] at h
      refine .diagnostic (by rw [h.1]) ?_
      rw [h.2]
      cases d'.location with
      | none => exact .none
      | some l => exact .some (.refl l)
    | _ => cases h
  | _ =>
    cases g <;> cases h
    exact .refl _

/-- Two passes end in related states, and both go through, or fail alike. -/
structure EndMatched (P : Prop) {α : Type} (R : α → α → Prop) (r r' : α × Option Failure) :
    Prop where
  state : R r.1 r'.1
  failure : Option.Rel (Failure.Alike P) r.2 r'.2

namespace EndMatched

variable {α : Type} {R : α → α → Prop}

/-- Passes that are equal but for the source line end in the same state. -/
lemma of_unlinedEnd {r r' : α × Option Failure} (h : unlinedEnd r = unlinedEnd r') :
    EndMatched P Eq r r' := by
  rcases cases_of_unlinedEnd_eq h with ⟨a, rfl, rfl⟩ | ⟨a, f, g, hfg, rfl, rfl⟩
  · exact ⟨rfl, .none⟩
  · exact ⟨rfl, .some (Failure.alike_of_unlined hfg)⟩

/-- Passes that end alike both go through, or both fail. -/
lemma cases {r r' : α × Option Failure} (h : EndMatched P R r r') :
    (∃ a b, R a b ∧ r = (a, none) ∧ r' = (b, none)) ∨
      ∃ a b f g, R a b ∧ f.Alike P g ∧ r = (a, some f) ∧ r' = (b, some g) := by
  obtain ⟨a, failure⟩ := r
  obtain ⟨b, failure'⟩ := r'
  obtain ⟨hstate, hfailure⟩ := h
  cases hfailure with
  | none => exact .inl ⟨a, b, hstate, rfl, rfl⟩
  | some hfg => exact .inr ⟨a, b, _, _, hstate, hfg, rfl, rfl⟩

end EndMatched

/-! ## The second pass -/

/-- Statements that differ in their source line only have one outline. -/
lemma Statement.Retexted.sameOutline {s s' : Statement} (h : s.Retexted s') : s.SameOutline s' := by
  refine ⟨h.location, ?_⟩
  rw [← h.action]
  cases s.action with
  | label | origin | instruction => rfl
  | data | equate => exact ⟨rfl, rfl⟩

section

variable (symbols : SymbolTable) (address : Nat) (text text' : String)

/-- The byte of a word does not depend on the source line. -/
lemma byteOf_unlined (mnemonic : String) (e : Expr) (value : Nat) :
    (byteOf mnemonic text e value).mapError Failure.unlined =
      (byteOf mnemonic text' e value).mapError Failure.unlined := by
  unfold byteOf
  split
  · rfl
  · split <;> rfl

/-- Nor do the bytes of a data directive. -/
lemma encodeData_unlined (width : Width) (e : Expr) :
    (encodeData symbols address text width e).mapError Failure.unlined =
      (encodeData symbols address text' width e).mapError Failure.unlined := by
  cases width <;>
    simp only [encodeData, mapError_bind, byteOf_unlined text text',
      Expr.evaluate_unlined symbols address (some text) (some text')]

/-- Nor do the bytes of an instruction. -/
lemma encodeInstruction_unlined (encoding : Encoding) (operands : List Operand) :
    (encodeInstruction symbols address text encoding operands).mapError Failure.unlined =
      (encodeInstruction symbols address text' encoding operands).mapError Failure.unlined := by
  have hvalue : ∀ kind e value,
      (encodeValue text encoding kind e value).mapError Failure.unlined =
        (encodeValue text' encoding kind e value).mapError Failure.unlined := by
    intro kind e value
    cases kind with
    | vector =>
      unfold encodeValue
      dsimp only
      split <;> rfl
    | byte => simp only [encodeValue, mapError_bind, byteOf_unlined text text']
    | word => rfl
  unfold encodeInstruction
  split
  · simp only [mapError_bind, hvalue,
      Expr.evaluate_unlined symbols address (some text) (some text')]
  · rfl

/-- The bytes of a statement do not depend on its source line. -/
lemma Statement.Retexted.encode_unlined {s s' : Statement} (h : s.Retexted s') :
    (s.encode symbols address).mapError Failure.unlined =
      (s'.encode symbols address).mapError Failure.unlined := by
  unfold Statement.encode
  rw [← h.action]
  cases s.action with
  | label | origin | equate => rfl
  | data name width e =>
    simp only [mapError_map, encodeData_unlined symbols address s.text s'.text]
  | instruction encoding operands =>
    simp only [mapError_map, encodeInstruction_unlined symbols address s.text s'.text]

end

namespace Emission

/-- Two second passes have come equally far, but for the source lines in the rows of the listing. -/
structure Agrees (m m' : Emission) : Prop where
  image : m.image = m'.image
  events : m.events = m'.events

variable (symbols : SymbolTable) {m m' : Emission}

/-- **A step** with another source line has the same effect on the image. -/
lemma step_retexted (h : m.Agrees m') {s s' : Statement} (hs : s.Retexted s') (address : Nat) :
    EndMatched P Agrees (m.step symbols s address) (m'.step symbols s' address) := by
  unfold step
  rcases cases_of_mapError_eq (hs.encode_unlined symbols address) with
    ⟨code, hx, hy⟩ | ⟨f, g, hfg, hx, hy⟩ <;> simp only [hx, hy]
  · cases code with
    | none =>
      simp only [hs.action]
      split <;> exact ⟨⟨h.image, h.events⟩, .none⟩
    | some code =>
      simp only [h.image, h.events]
      split
      · exact ⟨h, .some (.refl _)⟩
      · exact ⟨⟨rfl, rfl⟩, .none⟩
  · exact ⟨h, .some (Failure.alike_of_unlined hfg)⟩

/-- **The second pass** over statements with other source lines. -/
lemma run_retexted (h : m.Agrees m') {ss ss' : List Statement}
    (hss : List.Forall₂ Statement.Retexted ss ss') (addresses : List Nat) :
    EndMatched P Agrees (m.run symbols (ss.zip addresses))
      (m'.run symbols (ss'.zip addresses)) := by
  induction hss generalizing m m' addresses with
  | nil => exact ⟨h, .none⟩
  | cons hs _ ih =>
    cases addresses with
    | nil => exact ⟨h, .none⟩
    | cons address addresses =>
      rw [List.zip_cons_cons, List.zip_cons_cons, run, run]
      rcases (step_retexted (P := P) symbols h hs address).cases with
        ⟨a, b, hab, hx, hy⟩ | ⟨a, b, f, g, hab, hfg, hx, hy⟩ <;> simp only [hx, hy]
      · exact ih hab addresses
      · exact ⟨hab, .some hfg⟩

end Emission

/-! ## Assemblies -/

/-- Two assemblies with the same results: the same image and the same events, or failures that are
alike; and a workbench with the same addresses, symbols and bytes. -/
structure Run.Agrees (P : Prop) (r r' : Run) : Prop where
  outcome : Matched P Eq r.outcome r'.outcome
  addresses : r.workbench.addresses = r'.workbench.addresses
  symbols : r.workbench.symbols = r'.workbench.symbols
  image : r.workbench.image = r'.workbench.image
  events : r.events = r'.events

namespace Workbench

/-- Statements with other source lines are assembled alike. -/
lemma agrees_generate (w : Workbench) {ss ss' : List Statement}
    (h : List.Forall₂ Statement.Retexted ss ss') :
    Run.Agrees P ({ w with statements := ss }.generate ss)
      ({ w with statements := ss' }.generate ss') := by
  have hlayout : EndMatched P Eq (Layout.ofStatements ss) (Layout.ofStatements ss') :=
    .of_unlinedEnd (Layout.run_outline (h.imp fun _ _ hs => hs.sameOutline) {})
  unfold generate
  simp only
  cases Image.blank? w.settings.fillByte with
  | error f => exact ⟨.error (.refl _), rfl, rfl, rfl, rfl⟩
  | ok image =>
    rcases hlayout.cases with ⟨l, _, rfl, hx, hy⟩ | ⟨l, _, f, g, rfl, hfg, hx, hy⟩ <;>
      simp only [hx, hy]
    · have hstart : Emission.Agrees { image := image } { image := image } := ⟨rfl, rfl⟩
      rcases (Emission.run_retexted (P := P) l.symbols hstart h l.addresses.toList).cases with
        ⟨m, m', hm, hx, hy⟩ | ⟨m, m', f, g, hm, hfg, hx, hy⟩ <;> simp only [hx, hy]
      · refine ⟨.ok ?_, rfl, rfl, hm.image, ?_⟩
        · simp only [code, hm.image]
        · simp only [hm.image, hm.events]
      · exact ⟨.error hfg, rfl, rfl, hm.image, by simp only [hm.events]⟩
    · exact ⟨.error hfg, rfl, rfl, rfl, rfl⟩

/-- **Texts whose tokens correspond are assembled alike.** -/
lemma agrees_of_tokenize (w : Workbench) {source source' file : String}
    (h : Matched P (List.Forall₂ (Token.Follows w.settings.keepCase P)) (tokenize source file)
      (tokenize source' file)) :
    Run.Agrees P (w.assemble source file) (w.assemble source' file) := by
  have hread : Matched P (List.Forall₂ Statement.Retexted)
      (Statement.readSource source file w.settings.keepCase)
      (Statement.readSource source' file w.settings.keepCase) :=
    h.bind fun ts ts' hts => Statement.matched_readTokens hts file _ _
  unfold assemble
  rcases hread with ⟨ss, ss', hss, hx, hy⟩ | ⟨f, g, hfg, hx, hy⟩ <;> simp only [hx, hy]
  · obtain ⟨houtcome, haddresses, hsymbols, himage, hevents⟩ := agrees_generate (P := P) w hss
    refine ⟨houtcome, haddresses, hsymbols, himage, ?_⟩
    -- the events name the number of statements, which is the same
    simp only [hevents, hss.length_eq]
    rcases houtcome with ⟨code, _, rfl, hx, hy⟩ | ⟨f, g, -, hx, hy⟩ <;> simp only [hx, hy]
  · exact ⟨.error hfg, rfl, rfl, rfl, rfl⟩

end Workbench

end Asm8080
