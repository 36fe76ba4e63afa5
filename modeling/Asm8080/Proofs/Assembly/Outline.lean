import Mathlib.Data.List.Forall2
import Asm8080.Proofs.Assembly.Contents

/-!
# What the first pass sees of a program

The first pass counts bytes. Of data it sees the name and the width, of an instruction the size, and
of neither the values that are placed. So two programs that differ only in what they place have the
same addresses and the same symbols, or the first pass rejects the same statement of both for the
same reason. If both are assembled, every statement emits as many bytes at the same address, and the
images are equally long.

## Main definitions

* `Asm8080.Action.SameOutline`, `Asm8080.Statement.SameOutline` — actions that differ only in the
  values that they place, and statements at one place with such actions.
* `Asm8080.Failure.unlined` — a failure without the source line that it shows.
* `Asm8080.Piece.span` — where a piece of code is, and how long.

## Main results

* `Asm8080.Layout.step_outline`, `Asm8080.Layout.run_outline` — the first pass depends on the
  outlines of statements only.
* `Asm8080.Emission.contains_run` — the addresses that the second pass writes.
* `Asm8080.Workbench.outline_determines_placing` — programs of one outline are placed alike.
-/

set_option autoImplicit false

namespace Asm8080

/-! ## Outlines -/

namespace Action

/-- Actions that differ at most in the values that they place: data of one name and width,
instructions of one size, or the same action. -/
def SameOutline : Action → Action → Prop
  | label name, label name' => name = name'
  | origin e, origin e' => e = e'
  | data name width _, data name' width' _ => name = name' ∧ width = width'
  | equate name e, equate name' e' => name = name' ∧ e = e'
  | instruction encoding _, instruction encoding' _ => encoding.size = encoding'.size
  | _, _ => False

instance : DecidableRel SameOutline := fun a a' => by
  cases a <;> cases a' <;> dsimp only [SameOutline] <;> infer_instance

variable {a a' : Action}

/-- Actions of one outline are equal and place nothing, or data of one name and width, or
instructions of one size. -/
lemma SameOutline.cases (h : a.SameOutline a') :
    (¬a.Places ∧ a = a') ∨
      (∃ name width e e', a = .data name width e ∧ a' = .data name width e') ∨
      ∃ encoding operands encoding' operands', a = .instruction encoding operands ∧
        a' = .instruction encoding' operands' ∧ encoding.size = encoding'.size := by
  cases a <;> cases a' <;> simp only [SameOutline] at h
  case label.label => exact .inl ⟨id, by rw [h]⟩
  case origin.origin => exact .inl ⟨id, by rw [h]⟩
  case equate.equate => exact .inl ⟨id, by rw [h.1, h.2]⟩
  case data.data => exact .inr (.inl ⟨_, _, _, _, by rw [h.1, h.2], rfl⟩)
  case instruction.instruction => exact .inr (.inr ⟨_, _, _, _, rfl, rfl, h⟩)

/-- Actions of one outline place as many bytes. -/
lemma SameOutline.size_eq (h : a.SameOutline a') : a.size = a'.size := by
  rcases h.cases with ⟨-, rfl⟩ | ⟨name, width, e, e', rfl, rfl⟩ |
    ⟨encoding, operands, encoding', operands', rfl, rfl, hsize⟩
  · rfl
  · rfl
  · exact hsize

/-- Actions of one outline both place bytes, or neither does. -/
lemma SameOutline.places_iff (h : a.SameOutline a') : a.Places ↔ a'.Places := by
  rcases h.cases with ⟨-, rfl⟩ | ⟨name, width, e, e', rfl, rfl⟩ |
    ⟨encoding, operands, encoding', operands', rfl, rfl, -⟩ <;> exact Iff.rfl

end Action

/-- Statements at one place that differ at most in the values that they place, and in the source
line that they show. -/
structure Statement.SameOutline (s s' : Statement) : Prop where
  location : s.location = s'.location
  action : s.action.SameOutline s'.action

instance : DecidableRel Statement.SameOutline := fun s s' =>
  decidable_of_iff (s.location = s'.location ∧ s.action.SameOutline s'.action)
    ⟨fun h => ⟨h.1, h.2⟩, fun h => ⟨h.1, h.2⟩⟩

/-! ## Failures but for the source line -/

/-- A failure without the source line that it shows. -/
def Failure.unlined : Failure → Failure
  | .diagnostic d => .diagnostic { d with sourceLine := none }
  | f => f

/-- What a pass gives, without the source line of its failure. -/
def unlinedEnd {α : Type} (r : α × Option Failure) : α × Option Failure :=
  (r.1, r.2.map Failure.unlined)

section

variable {α β : Type}

/-- A computation in two steps, without the source line of its failure. -/
lemma mapError_bind (x : Except Failure α) (f : α → Except Failure β) :
    (x >>= f).mapError Failure.unlined =
      x.mapError Failure.unlined >>= fun a => (f a).mapError Failure.unlined := by
  cases x <;> rfl

/-- The same for a function of the result. -/
lemma mapError_map (x : Except Failure α) (f : α → β) :
    (f <$> x).mapError Failure.unlined = f <$> x.mapError Failure.unlined := by
  cases x <;> rfl

/-- Computations that are equal but for the source line both give the same result, or both fail. -/
lemma cases_of_mapError_eq {x y : Except Failure α}
    (h : x.mapError Failure.unlined = y.mapError Failure.unlined) :
    (∃ a, x = .ok a ∧ y = .ok a) ∨
      ∃ f g, f.unlined = g.unlined ∧ x = .error f ∧ y = .error g := by
  cases x <;> cases y <;> simp only [Except.mapError, Except.ok.injEq, Except.error.injEq,
    reduceCtorEq] at h
  case ok.ok a b => exact .inl ⟨b, by rw [h], rfl⟩
  case error.error f g => exact .inr ⟨f, g, h, rfl, rfl⟩

/-- Passes that fail in the same state, equally but for the source line. -/
lemma unlinedEnd_error {f g : Failure} (h : f.unlined = g.unlined) (a : α) :
    unlinedEnd (a, some f) = unlinedEnd (a, some g) := by
  simp only [unlinedEnd, Option.map_some, h]

/-- Passes that are equal but for the source line both go through, or both fail, in the same
state. -/
lemma cases_of_unlinedEnd_eq {r r' : α × Option Failure} (h : unlinedEnd r = unlinedEnd r') :
    (∃ a, r = (a, none) ∧ r' = (a, none)) ∨
      ∃ a f g, f.unlined = g.unlined ∧ r = (a, some f) ∧ r' = (a, some g) := by
  obtain ⟨a, _ | f⟩ := r <;> obtain ⟨b, _ | g⟩ := r' <;>
    simp only [unlinedEnd, Option.map_none, Option.map_some, Prod.mk.injEq, Option.some.injEq,
      reduceCtorEq, and_false, and_true] at h
  · exact .inl ⟨b, by rw [h], rfl⟩
  · exact .inr ⟨b, f, g, h.2, by rw [h.1], rfl⟩

end

/-- The value of an expression does not depend on the source line. -/
lemma Expr.evaluate_unlined (symbols : SymbolTable) (address : Int) (line line' : Option String)
    (e : Expr) :
    (e.evaluate symbols address line).mapError Failure.unlined =
      (e.evaluate symbols address line').mapError Failure.unlined := by
  induction e with
  | literal | char | here => rfl
  | label l name =>
    simp only [evaluate, resolve]
    cases symbols.lookup name <;> rfl
  | complement l operand ih => simp only [evaluate, mapError_bind, ih]
  | binary l op left right ihl ihr =>
    have happly : ∀ a b, (op.apply l line a b).mapError Failure.unlined =
        (op.apply l line' a b).mapError Failure.unlined := by
      intro a b
      cases op <;> simp only [BinaryOp.apply]
      case div | mod => split <;> rfl
    simp only [evaluate, mapError_bind, ihl, ihr, happly]

/-- Whether a name can be bound does not depend on the source line. -/
lemma SymbolTable.define_unlined (t : SymbolTable) (name : String) (value : Int)
    (location : Option Location) (constant : Bool) (line line' : Option String) :
    (t.define name value location constant line).mapError Failure.unlined =
      (t.define name value location constant line').mapError Failure.unlined := by
  unfold define
  cases t.get? name <;> rfl

/-! ## The first pass -/

namespace Layout

variable {s s' : Statement}

/-- Whether a name can be bound to the current address depends on the place of the statement. -/
lemma bindHere_unlined (l : Layout) (hplace : s.location = s'.location) (name : String) :
    (l.bindHere s name).mapError Failure.unlined =
      (l.bindHere s' name).mapError Failure.unlined := by
  unfold bindHere
  rw [hplace]
  split
  · rfl
  · exact SymbolTable.define_unlined _ _ _ _ _ _ _

/-- The same for a name that may be missing. -/
lemma bindHere?_unlined (l : Layout) (hplace : s.location = s'.location) (name : Option String) :
    (name.elim (.ok l.symbols) (l.bindHere s)).mapError Failure.unlined =
      (name.elim (.ok l.symbols) (l.bindHere s')).mapError Failure.unlined := by
  cases name with
  | none => rfl
  | some name => exact l.bindHere_unlined hplace name

/-- So does moving the current address. -/
lemma advance_unlined (l : Layout) (hplace : s.location = s'.location) (size : Nat) :
    (l.advance s size).mapError Failure.unlined = (l.advance s' size).mapError Failure.unlined := by
  unfold advance
  rw [hplace]
  split <;> rfl

/-- So does what a directive needs at once. -/
lemma evaluateNow_unlined (l : Layout) (hplace : s.location = s'.location) (directive : String)
    (e : Expr) :
    (l.evaluateNow s directive e).mapError Failure.unlined =
      (l.evaluateNow s' directive e).mapError Failure.unlined := by
  unfold evaluateNow
  rw [hplace]
  split
  · rfl
  · exact Expr.evaluate_unlined _ _ _ _ _

/-- **A step depends on the outline of its statement only**, but for the source line that a failure
shows.

**Proof sketch.** Neither data nor an instruction is looked at beyond its outline; a label, an
origin and an equate are the same in both statements. -/
lemma step_outline (l : Layout) (h : s.SameOutline s') :
    unlinedEnd (l.step s) = unlinedEnd (l.step s') := by
  obtain ⟨hplace, houtline⟩ := h
  have hrecorded : { l with addresses := l.addresses.push l.cursor } = l.recorded := rfl
  unfold step
  dsimp only
  rw [hrecorded]
  rcases houtline.cases with ⟨hplaces, heq⟩ | ⟨name, width, e, e', ha, ha'⟩ |
    ⟨encoding, operands, encoding', operands', ha, ha', hsize⟩
  · -- the actions are equal, so only the source lines of failures can differ
    rw [← heq]
    cases ha : s.action with
    | data | instruction =>
      rw [ha] at hplaces
      exact absurd trivial hplaces
    | label name =>
      rcases cases_of_mapError_eq (bindHere_unlined l.recorded hplace name) with
        ⟨t, hx, hy⟩ | ⟨f, g, hfg, hx, hy⟩ <;> simp only [hx, hy]
      exact unlinedEnd_error hfg _
    | origin e =>
      rcases cases_of_mapError_eq (evaluateNow_unlined l.recorded hplace "ORG" e) with
        ⟨v, hx, hy⟩ | ⟨f, g, hfg, hx, hy⟩ <;> simp only [hx, hy, hplace]
      exact unlinedEnd_error hfg _
    | equate name e =>
      rcases cases_of_mapError_eq (evaluateNow_unlined l.recorded hplace "EQU" e) with
        ⟨v, hx, hy⟩ | ⟨f, g, hfg, hx, hy⟩ <;> simp only [hx, hy, hplace]
      · rcases cases_of_mapError_eq (l.symbols.define_unlined name v (some s'.location) true
            (some s.text) (some s'.text)) with
          ⟨t, hx, hy⟩ | ⟨f, g, hfg, hx, hy⟩ <;> simp only [hx, hy]
        exact unlinedEnd_error hfg _
      · exact unlinedEnd_error hfg _
  · -- of data, the step takes the name and the width, which are common to both
    simp only [ha, ha']
    rcases cases_of_mapError_eq (bindHere?_unlined l.recorded hplace name) with
      ⟨t, hx, hy⟩ | ⟨f, g, hfg, hx, hy⟩ <;> simp only [symbols_recorded] at hx hy <;>
      simp only [hx, hy]
    · rcases cases_of_mapError_eq (advance_unlined l.recorded hplace width.size) with
        ⟨next, hx, hy⟩ | ⟨f, g, hfg, hx, hy⟩ <;> simp only [hx, hy]
      exact unlinedEnd_error hfg _
    · exact unlinedEnd_error hfg _
  · simp only [ha, ha', hsize]
    rcases cases_of_mapError_eq (advance_unlined l.recorded hplace encoding'.size) with
      ⟨next, hx, hy⟩ | ⟨f, g, hfg, hx, hy⟩ <;> simp only [hx, hy]
    exact unlinedEnd_error hfg _

/-- **The first pass depends on the outlines of statements only**, but for the source line that a
failure shows.

**Proof sketch.** Induction on the statements. A step leaves the same layout for both, or fails for
both. -/
lemma run_outline {ss ss' : List Statement} (h : List.Forall₂ Statement.SameOutline ss ss')
    (l : Layout) : unlinedEnd (l.run ss) = unlinedEnd (l.run ss') := by
  induction h generalizing l with
  | nil => rfl
  | cons hs _ ih =>
    rw [run, run]
    rcases cases_of_unlinedEnd_eq (l.step_outline hs) with
      ⟨l₁, hx, hy⟩ | ⟨l₁, f, g, hfg, hx, hy⟩ <;> simp only [hx, hy]
    · exact ih l₁
    · exact unlinedEnd_error hfg l₁

end Layout

/-! ## The second pass -/

namespace Piece

/-- Where a piece is, and how many bytes it has. -/
def span (p : Piece) : Nat × Nat := (p.address, p.code.length)

variable {p q : Piece}

/-- Pieces of one span have the same limit. -/
lemma limit_eq_of_span_eq (h : p.span = q.span) : p.limit = q.limit := by
  obtain ⟨haddress, hlength⟩ := Prod.mk.inj h
  simp only [limit, ← List.length_eq_zero_iff, haddress, hlength]

/-- Pieces of the same spans have the same extent. -/
lemma extent_eq_of_spans_eq {ps qs : List Piece} (h : ps.map span = qs.map span) :
    extent ps = extent qs := by
  induction ps generalizing qs with
  | nil => rw [List.map_eq_nil_iff.1 h.symm]
  | cons p ps ih =>
    obtain ⟨q, qs, rfl, hq, hqs⟩ := List.map_eq_cons_iff.1 h.symm
    simp only [extent, List.foldr_cons]
    rw [limit_eq_of_span_eq hq.symm, ← extent, ← extent, ih hqs.symm]

/-- Pieces of the same spans cover the same addresses. -/
lemma exists_covers_iff_of_spans_eq {ps qs : List Piece} (h : ps.map span = qs.map span) (x : Nat) :
    (∃ p ∈ ps, p.Covers x) ↔ ∃ q ∈ qs, q.Covers x := by
  have hspan : ∀ ps : List Piece, (∃ p ∈ ps, p.Covers x) ↔
      ∃ r ∈ ps.map span, r.1 ≤ x ∧ x < r.1 + r.2 := by
    intro ps
    simp only [List.mem_map, exists_exists_and_eq_and]
    rfl
  rw [hspan ps, hspan qs, h]

end Piece

/-- Writing a piece writes the addresses that it covers. -/
lemma Image.contains_writeAll {i i' : Image} {address : Nat} {code : List UInt8}
    {events : List Event} (h : i.writeAll address code = .ok (i', events)) (x : Nat) :
    i'.written.contains x = true ↔
      i.written.contains x = true ∨ Piece.Covers ⟨address, code⟩ x := by
  induction code generalizing i address events with
  | nil =>
    cases h
    simp [Piece.not_covers_of_nil]
  | cons b bs ih =>
    obtain ⟨-, events', hrest⟩ := writeAll_cons_iff.1 ⟨events, h⟩
    have hfirst : (address = x ∨ Piece.Covers ⟨address + 1, bs⟩ x) ↔
        Piece.Covers ⟨address, b :: bs⟩ x := by
      simp only [Piece.Covers, List.length_cons]
      omega
    rw [ih hrest, ← hfirst]
    simp only [Std.TreeMap.contains_insert, Nat.compare_eq_eq, Bool.or_eq_true, beq_iff_eq]
    exact or_assoc.trans or_left_comm

/-- Well-formed statements of one outline that can be encoded emit pieces of one span. -/
lemma Statement.span_piece_eq {s s' : Statement} (h : s.SameOutline s') (hs : s.WellFormed)
    (hs' : s'.WellFormed) {t : SymbolTable} {address : Nat} (hcode : s.Fits t address)
    (hcode' : s'.Fits t address) : (s.piece t address).span = (s'.piece t address).span := by
  by_cases hplaces : s.action.Places
  · have hplaces' := h.action.places_iff.1 hplaces
    obtain ⟨bytes, hbytes, hpiece⟩ := piece_of_places hplaces hcode.1
    obtain ⟨bytes', hbytes', hpiece'⟩ := piece_of_places hplaces' hcode'.1
    rw [hpiece, hpiece', Piece.span, Piece.span, length_encode hs hbytes,
      length_encode hs' hbytes', h.action.size_eq]
  · have hplaces' := mt h.action.places_iff.2 hplaces
    rw [piece_of_not_places hplaces, piece_of_not_places hplaces']

namespace Emission

variable {t : SymbolTable} {m m' : Emission}

/-- A step writes the addresses that the piece of its statement covers. -/
lemma contains_step {s : Statement} {address : Nat} (h : m.step t s address = (m', none))
    (x : Nat) :
    m'.image.written.contains x = true ↔
      m.image.written.contains x = true ∨ (s.piece t address).Covers x := by
  have hnone : ¬Piece.Covers ⟨address, []⟩ x := Piece.not_covers_of_nil rfl x
  unfold step at h
  unfold Statement.piece
  cases henc : s.encode t address with
  | error f => simp [henc] at h
  | ok code =>
    cases code with
    | none =>
      simp only [henc] at h
      cases ha : s.action <;> simp only [ha, Prod.mk.injEq, and_true] at h <;> subst h <;>
        simp only [hnone, or_false]
    | some code =>
      simp only [henc] at h
      cases hw : m.image.writeAll address code with
      | error f => simp [hw] at h
      | ok result =>
        simp only [hw, Prod.mk.injEq, and_true] at h
        subst h
        exact Image.contains_writeAll hw x

/-- **The second pass writes the addresses that the pieces of the statements cover.** -/
lemma contains_run {ps : List (Statement × Nat)} (h : m.run t ps = (m', none)) (x : Nat) :
    m'.image.written.contains x = true ↔
      m.image.written.contains x = true ∨ ∃ p ∈ ps.map fun p => p.1.piece t p.2, p.Covers x := by
  induction ps generalizing m with
  | nil =>
    cases h
    simp
  | cons p ps ih =>
    obtain ⟨s, address⟩ := p
    rw [run] at h
    rcases hs : m.step t s address with ⟨m₁, _ | f⟩
    · rw [hs] at h
      rw [ih h, contains_step hs, List.map_cons, List.exists_mem_cons_iff, or_assoc]
    · simp [hs] at h

/-- **Well-formed statements of the same outlines** that fit at their addresses emit pieces of the
same spans. -/
lemma spans_eq {ss ss' : List Statement} (h : List.Forall₂ Statement.SameOutline ss ss')
    (hss : ∀ s ∈ ss, s.WellFormed) (hss' : ∀ s ∈ ss', s.WellFormed) {addresses : List Nat}
    (hfits : ∀ p ∈ ss.zip addresses, p.1.Fits t p.2)
    (hfits' : ∀ p ∈ ss'.zip addresses, p.1.Fits t p.2) :
    ((ss.zip addresses).map fun p => p.1.piece t p.2).map Piece.span =
      ((ss'.zip addresses).map fun p => p.1.piece t p.2).map Piece.span := by
  induction h generalizing addresses with
  | nil => rfl
  | cons hs _ ih =>
    cases addresses with
    | nil => rfl
    | cons address addresses =>
      obtain ⟨hwell, hss⟩ := List.forall_mem_cons.1 hss
      obtain ⟨hwell', hss'⟩ := List.forall_mem_cons.1 hss'
      rw [List.zip_cons_cons, List.forall_mem_cons] at hfits hfits'
      rw [List.zip_cons_cons, List.zip_cons_cons, List.map_cons, List.map_cons, List.map_cons,
        List.map_cons, ih hss hss' hfits.2 hfits'.2,
        Statement.span_piece_eq hs hwell hwell' hfits.1 hfits'.1]

end Emission

/-! ## Both passes -/

namespace Workbench

/-- A workbench keeps the image of the second pass. -/
lemma image_generate {w : Workbench} {ss : List Statement}
    (hblank : Image.blank? w.settings.fillByte = .ok ⟨w.settings.fill, ∅, 0⟩) {l : Layout}
    (hl : Layout.ofStatements ss = (l, none)) {m : Emission}
    (hm : Emission.run l.symbols { image := ⟨w.settings.fill, ∅, 0⟩ } (placed ss l) = (m, none)) :
    (w.generate ss).workbench.image = m.image := by
  rw [placed] at hm
  simp only [generate, hblank, hl, hm]

/-- **The first pass never looks at the values that are placed.** Take two programs whose statements
correspond: they have the same places, and are equal except that data may have another expression
and an instruction may be another one, with other operands, of the same size. The first pass gives
them the same addresses and the same symbols. If it fails, it fails at the same statement of both,
since this holds of their first `n` statements for every `n`, and for the same cause at the same
place. If both programs are assembled, each statement of the one emits as many bytes at the same
address as that of the other, the same addresses are written, and the images are equally long.

**Proof sketch.** A step of the first pass depends on the outline of its statement
(`Layout.step_outline`), so the whole pass does (`Layout.run_outline`). The code of a statement has
the size by which the first pass moved past it, so corresponding statements emit pieces of one span
(`Emission.spans_eq`), and these determine what is written and where the image ends. -/
theorem outline_determines_placing {ss ss' : List Statement}
    (h : List.Forall₂ Statement.SameOutline ss ss') :
    (∀ n, let r := Layout.ofStatements (ss.take n)
      let r' := Layout.ofStatements (ss'.take n)
      r.1.addresses = r'.1.addresses ∧ r.1.symbols = r'.1.symbols ∧
        r.2.map Failure.unlined = r'.2.map Failure.unlined) ∧
    ∀ (w : Workbench) (code code' : List UInt8),
      (∀ s ∈ ss, s.WellFormed) → (∀ s ∈ ss', s.WellFormed) →
      (w.generate ss).outcome = .ok code → (w.generate ss').outcome = .ok code' →
      let after := (w.generate ss).workbench
      let after' := (w.generate ss').workbench
      (after.pieces ss).map Piece.span = (after'.pieces ss').map Piece.span ∧
        (∀ x, after.image.written.contains x = after'.image.written.contains x) ∧
        code.length = code'.length := by
  constructor
  · intro n r r'
    have hrun : unlinedEnd r = unlinedEnd r' := Layout.run_outline (List.forall₂_take n h) {}
    obtain ⟨hlayout, hfailure⟩ := Prod.mk.inj hrun
    exact ⟨congrArg _ hlayout, congrArg _ hlayout, hfailure⟩
  · intro w code code' hss hss' hcode hcode' after after'
    have hblank := blank?_of_generate hcode
    obtain ⟨l, m, hl, hm, rfl⟩ := (generate_ok_iff_of_blank hblank).1 hcode
    obtain ⟨l', m', hl', hm', rfl⟩ := (generate_ok_iff_of_blank hblank).1 hcode'
    have hlayout : unlinedEnd (Layout.ofStatements ss) = unlinedEnd (Layout.ofStatements ss') :=
      Layout.run_outline h {}
    rw [hl, hl'] at hlayout
    -- with one layout, the pieces of both programs are at the same addresses
    obtain rfl : l = l' := congrArg Prod.fst hlayout
    obtain ⟨haddresses, hsymbols⟩ := workbench_generate_of_blank hblank hl
    obtain ⟨haddresses', hsymbols'⟩ := workbench_generate_of_blank hblank hl'
    have hspans := Emission.spans_eq h hss hss' (Emission.run_ok_iff.1 ⟨m, hm⟩)
      (Emission.run_ok_iff.1 ⟨m', hm'⟩)
    have hholds := Emission.holds_of_run hm (Image.Holds.blank _)
    have hholds' := Emission.holds_of_run hm' (Image.Holds.blank _)
    refine ⟨?_, fun x => ?_, ?_⟩
    · simp only [after, after', pieces, haddresses, haddresses', hsymbols, hsymbols']
      exact hspans
    · simp only [after, after', image_generate hblank hl hm, image_generate hblank hl' hm']
      rw [Bool.eq_iff_iff, Emission.contains_run hm, Emission.contains_run hm']
      exact or_congr_right (Piece.exists_covers_iff_of_spans_eq hspans x)
    · have hextent := Piece.extent_eq_of_spans_eq hspans
      simp only [Image.toBytes, List.length_map, List.length_range, hholds.highWater_eq,
        hholds'.highWater_eq, List.nil_append]
      rw [placed, hextent, placed]

/-- A program whose size is the value of its data. -/
def sized : List Statement :=
  (Statement.readSource "T: JMP T\nN EQU $-T\nV DB N\n" "sized.asm" false).toOption.getD []

/-- The same program with another instruction and other data. -/
def sizedOther : List Statement :=
  (Statement.readSource "T: LXI D,N\nN EQU $-T\nV DB 'x'\n" "sized.asm" false).toOption.getD []

/-- The two programs have one outline, and emit at the same addresses. -/
theorem outline_sized :
    List.Forall₂ Statement.SameOutline sized sizedOther ∧
      (padding.generate sized).outcome = .ok [0xC3, 0x00, 0x00, 0x03, 0xAA, 0xAA, 0xAA, 0xAA] ∧
      (padding.generate sizedOther).outcome =
        .ok [0x11, 0x03, 0x00, 0x78, 0xAA, 0xAA, 0xAA, 0xAA] ∧
      (Layout.ofStatements sized).1.symbols = (Layout.ofStatements sizedOther).1.symbols ∧
      ((padding.generate sized).workbench.pieces sized).map Piece.span =
        ((padding.generate sizedOther).workbench.pieces sizedOther).map Piece.span := by
  have hsample : List.Forall₂ Statement.SameOutline sized sizedOther ∧
      (padding.generate sized).outcome = .ok [0xC3, 0x00, 0x00, 0x03, 0xAA, 0xAA, 0xAA, 0xAA] ∧
      (padding.generate sizedOther).outcome =
        .ok [0x11, 0x03, 0x00, 0x78, 0xAA, 0xAA, 0xAA, 0xAA] := by
    decide +kernel
  obtain ⟨houtline, hcode, hcode'⟩ := hsample
  have hwell : ∀ s ∈ sized, s.WellFormed := Statement.wellFormed_of_mem_readSource
  have hwell' : ∀ s ∈ sizedOther, s.WellFormed := Statement.wellFormed_of_mem_readSource
  obtain ⟨hlayout, hemission⟩ := outline_determines_placing houtline
  have hsymbols := (hlayout sized.length).2.1
  rw [List.take_length, houtline.length_eq, List.take_length] at hsymbols
  exact ⟨houtline, hcode, hcode', hsymbols, (hemission padding _ _ hwell hwell' hcode hcode').1⟩

end Workbench

end Asm8080
