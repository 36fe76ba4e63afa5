import Asm8080.Proofs.Assembly.Bytes
import Asm8080.Proofs.Assembly.Image

/-!
# What the second pass emits

Each statement emits one piece of code at its address, possibly without bytes. The second pass
succeeds exactly when every statement can be encoded and its bytes fit in the address space; whether
it does so for one statement has nothing to do with the others. The image then holds the pieces of
all statements in their order.

## Main definitions

* `Asm8080.Action.Encodable` — the expression of an action has a value that fits.
* `Asm8080.Statement.piece` — what a statement emits, and where.

## Main results

* `Asm8080.Statement.encode_ok_iff` — a statement is encoded exactly when its action is encodable.
* `Asm8080.Emission.run_ok_iff` — when the second pass succeeds.
* `Asm8080.Emission.holds_of_run` — what the image holds afterwards.
-/

set_option autoImplicit false

namespace Asm8080

/-! ## Encoding a statement -/

/-- The expression of an action at the address `here`, if it places one, has a value that its slot
takes. -/
def Action.Encodable (σ : Assignment) (here : Nat) : Action → Prop
  | data _ width e =>
    ∃ v, e.meaning σ (BitVec.ofNat 16 here) = some v ∧ width.immediate.Takes v.toNat
  | instruction encoding operands =>
    ∀ kind ∈ encoding.immediate?, ∀ e ∈ Operand.expressionOf operands,
      ∃ v, e.meaning σ (BitVec.ofNat 16 here) = some v ∧ kind.Takes v.toNat
  | label _ | origin _ | equate _ _ => True

namespace Statement

variable {symbols : SymbolTable} {address : Nat} {s : Statement}

/-- An expression has a value that an immediate takes exactly when it denotes a word that it
takes. -/
lemma exists_value_iff (h : symbols.InRange) (text : String) {e : Expr} {kind : Immediate} :
    (∃ value, e.evaluate symbols address (some text) = .ok value ∧ kind.Takes value) ↔
      ∃ v, e.meaning symbols.assignment (BitVec.ofNat 16 address) = some v ∧
        kind.Takes v.toNat := by
  simp only [Expr.evaluate_eq_ok_iff h, BitVec.ofInt_natCast]
  constructor
  · rintro ⟨_, ⟨v, hv, rfl⟩, htakes⟩
    exact ⟨v, hv, htakes⟩
  · rintro ⟨v, hv, htakes⟩
    exact ⟨_, ⟨v, hv, rfl⟩, htakes⟩

/-- **A statement is encoded** exactly when its action is encodable under the words of the table. -/
lemma encode_ok_iff (h : symbols.InRange) :
    (∃ code, s.encode symbols address = .ok code) ↔
      s.action.Encodable symbols.assignment address := by
  unfold encode
  cases s.action with
  | label | origin | equate => simp [Action.Encodable]
  | data name width e =>
    rw [Action.Encodable, ← exists_value_iff h s.text]
    simp only [map_eq_ok_iff, encodeData_eq_ok_iff]
    constructor
    · rintro ⟨_, _, ⟨value, hvalue, htakes, -⟩, -⟩
      exact ⟨value, hvalue, htakes⟩
    · rintro ⟨value, hvalue, htakes⟩
      exact ⟨_, _, ⟨value, hvalue, htakes, rfl⟩, rfl⟩
  | instruction encoding operands =>
    simp only [map_eq_ok_iff]
    cases hk : encoding.immediate? with
    | none =>
      simp [Action.Encodable, hk, encodeInstruction_of_immediate_eq_none (.inl hk)]
    | some kind =>
      cases he : Operand.expressionOf operands with
      | none =>
        simp [Action.Encodable, he, encodeInstruction_of_immediate_eq_none (.inr he)]
      | some e =>
        simp only [Action.Encodable, hk, he, Option.mem_def, Option.some.injEq, forall_eq',
          ← exists_value_iff h s.text, encodeInstruction_eq_ok_iff hk he]
        constructor
        · rintro ⟨_, _, ⟨value, hvalue, htakes, -⟩, -⟩
          exact ⟨value, hvalue, htakes⟩
        · rintro ⟨value, hvalue, htakes⟩
          exact ⟨_, _, ⟨value, hvalue, htakes, rfl⟩, rfl⟩

/-! ## The size of the code -/

/-- The immediate of an instruction is one of its slots. -/
lemma size_immediate_le {encoding : Encoding} {kind : Immediate}
    (h : encoding.immediate? = some kind) : 1 + kind.size ≤ encoding.size := by
  have hslots : ∀ slots : List Slot, slots.findSome? Slot.immediate? = some kind →
      kind.size ≤ slots.foldr (fun slot n => slot.size + n) 0 := by
    intro slots hfind
    induction slots with
    | nil => exact absurd hfind (by simp)
    | cons slot slots ih =>
      rw [List.foldr_cons]
      cases slot with
      | register r =>
        have := ih hfind
        omega
      | value i =>
        cases hfind
        exact Nat.le_add_right _ _
  have := hslots encoding.slots h
  unfold Encoding.size
  omega

/-- A statement emits no more bytes than its size. -/
lemma length_encode_le {code : List UInt8} (h : s.encode symbols address = .ok (some code)) :
    code.length ≤ s.action.size := by
  unfold encode at h
  cases ha : s.action with
  | label | origin | equate => simp [ha] at h
  | data name width e =>
    simp only [ha, map_eq_ok_iff, encodeData_eq_ok_iff] at h
    obtain ⟨_, ⟨value, -, -, rfl⟩, heq⟩ := h
    cases heq
    simp [Action.size]
  | instruction encoding operands =>
    simp only [ha, map_eq_ok_iff] at h
    obtain ⟨_, henc, heq⟩ := h
    cases heq
    rcases encodeInstruction_cases henc with ⟨-, rfl⟩ | ⟨kind, e, value, hk, -, -, -, rfl⟩
    · exact Nat.le_add_right 1 _
    · have := size_immediate_le hk
      rw [List.length_cons, Immediate.length_bytes]
      simp only [Action.size]
      omega

/-- What a statement emits at its address; no bytes if it places none. -/
def piece (symbols : SymbolTable) (s : Statement) (address : Nat) : Piece :=
  match s.encode symbols address with
  | .ok (some code) => ⟨address, code⟩
  | _ => ⟨address, []⟩

/-- A statement emits at its address. -/
@[simp] lemma address_piece (symbols : SymbolTable) (s : Statement) (address : Nat) :
    (s.piece symbols address).address = address := by
  unfold piece
  split <;> rfl

/-- What a statement emits fits in the address space if it can be encoded at all. -/
def Fits (symbols : SymbolTable) (s : Statement) (address : Nat) : Prop :=
  (∃ code, s.encode symbols address = .ok code) ∧ (s.piece symbols address).limit ≤ Word.count

end Statement

/-! ## The second pass -/

namespace Emission

open Image (Holds)

variable {symbols : SymbolTable} {m m' : Emission} {s : Statement} {address : Nat} {fill : UInt8}
  {qs : List Piece}

/-- The limit of a piece is in the address space exactly when it has no bytes or ends there. -/
lemma limit_le_iff {p : Piece} :
    p.limit ≤ Word.count ↔ p.code = [] ∨ p.address + p.code.length ≤ Word.count := by
  unfold Piece.limit
  split_ifs with h
  · simp [h]
  · simp [h]

/-- **One step of the second pass** succeeds exactly when the statement fits. -/
lemma step_ok_iff : (∃ m', m.step symbols s address = (m', none)) ↔ s.Fits symbols address := by
  unfold step Statement.Fits Statement.piece
  cases henc : s.encode symbols address with
  | error f => simp
  | ok code =>
    cases code with
    | none =>
      cases s.action <;> simp [Piece.limit]
    | some code =>
      rw [limit_le_iff, ← Image.writeAll_ok_iff (i := m.image)]
      cases hw : m.image.writeAll address code with
      | error f => simp [hw]
      | ok result =>
        obtain ⟨image, events⟩ := result
        simp [hw]

/-- After a step the image holds the piece of the statement last. -/
lemma holds_of_step (h : m.step symbols s address = (m', none)) (hm : Holds fill qs m.image) :
    Holds fill (qs ++ [s.piece symbols address]) m'.image := by
  have hnone : m.image.writeAll address [] = .ok (m.image, []) := rfl
  have hnil : Holds fill (qs ++ [⟨address, []⟩]) m.image := hm.writeAll hnone
  unfold step at h
  unfold Statement.piece
  cases henc : s.encode symbols address with
  | error f => simp [henc] at h
  | ok code =>
    cases code with
    | none =>
      simp only [henc] at h
      cases ha : s.action <;> simp only [ha, Prod.mk.injEq, and_true] at h <;> subst h <;>
        exact hnil
    | some code =>
      simp only [henc] at h
      cases hw : m.image.writeAll address code with
      | error f => simp [hw] at h
      | ok result =>
        simp only [hw, Prod.mk.injEq, and_true] at h
        subst h
        exact hm.writeAll hw

/-- **The second pass** succeeds exactly when every statement fits at its address. -/
lemma run_ok_iff {ps : List (Statement × Nat)} :
    (∃ m', m.run symbols ps = (m', none)) ↔ ∀ p ∈ ps, p.1.Fits symbols p.2 := by
  induction ps generalizing m with
  | nil => simp [run]
  | cons p ps ih =>
    obtain ⟨s, address⟩ := p
    rw [List.forall_mem_cons, ← step_ok_iff (m := m), run]
    rcases hs : m.step symbols s address with ⟨m₁, _ | f⟩
    · simp [ih]
    · simp

/-- **After the second pass** the image holds the pieces of all statements in their order. -/
lemma holds_of_run {ps : List (Statement × Nat)} (h : m.run symbols ps = (m', none))
    (hm : Holds fill qs m.image) :
    Holds fill (qs ++ ps.map fun p => p.1.piece symbols p.2) m'.image := by
  induction ps generalizing m qs with
  | nil =>
    cases h
    simpa using hm
  | cons p ps ih =>
    obtain ⟨s, address⟩ := p
    rw [run] at h
    rcases hs : m.step symbols s address with ⟨m₁, _ | f⟩
    · rw [hs] at h
      simpa using ih h (holds_of_step hs hm)
    · simp [hs] at h

end Emission

end Asm8080
