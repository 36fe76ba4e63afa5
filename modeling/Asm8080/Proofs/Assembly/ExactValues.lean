import Mathlib.Data.Int.ModEq
import Asm8080.Proofs.Assembly.Contents

/-!
# Exact values in byte and word slots

Every step of an evaluation is reduced modulo 65536. For expressions of sums, differences and
products this changes nothing but the result: it is the exact integer value, reduced once. So what a
slot accepts can be said of the exact value, whatever comes in between. A slot for a byte takes the
integers from -128 to 255 and those that differ from one of them by a multiple of 65536; a slot for
a word takes them all.

## Main definitions

* `Asm8080.Expr.integer?` — the integer value of an expression, without any reduction.
* `Asm8080.Expr.reduced` — an expression with its literals reduced modulo 65536.
* `Asm8080.Width.mnemonics` — the instructions with a slot of a width.
* `Asm8080.Action.HasSlot` — an action places an expression in a slot of a width.

## Main results

* `Asm8080.Expr.evaluate_of_integer?` — an expression evaluates to its exact value, reduced.
* `Asm8080.Immediate.takes_byte_ofInt_iff` — the integers that a slot for a byte takes.
* `Asm8080.Workbench.generate_exact_value` — what assembling a program makes of an exact value.
-/

set_option autoImplicit false

namespace Asm8080

open Layout (cursorAt)

/-! ## Exact values -/

/-- The operation on integers that an operator stands for, if it is that of a ring. -/
def BinaryOp.ring? : BinaryOp → Option (Int → Int → Int)
  | add => some (· + ·)
  | sub => some (· - ·)
  | mul => some (· * ·)
  | div | mod | shl | shr | and | or | xor => none

namespace Expr

/-- **The exact value** of an expression of sums, differences and products in a statement at the
address `here`, as an integer of any size. -/
def integer? (words : String → Option Nat) (here : Int) : Expr → Option Int
  | literal _ value => some value
  | char _ c => some c.toNat
  | label _ name => (words name).map Int.ofNat
  | .here _ => some here
  | complement _ _ => none
  | binary _ op left right =>
    op.ring?.bind fun f =>
      (left.integer? words here).bind fun a => (right.integer? words here).map (f a)

/-- An expression with its literals reduced modulo 65536, which is all that is kept of them when it
is read. -/
def reduced : Expr → Expr
  | literal l value => .literal l (Word.ofInt value)
  | complement l operand => .complement l operand.reduced
  | binary l op left right => .binary l op left.reduced right.reduced
  | e => e

end Expr

namespace Word

/-- An integer modulo 65536, as an integer. -/
lemma natCast_ofInt (n : Int) : (ofInt n : Int) = n % 0x10000 := by
  unfold ofInt count
  omega

/-- Integers that are congruent modulo 65536 are reduced to the same word. -/
lemma ofInt_congr {a b : Int} (h : a % 0x10000 = b % 0x10000) : ofInt a = ofInt b := by
  apply Int.ofNat_inj.1
  rw [natCast_ofInt, natCast_ofInt, h]

/-- A word is reduced already. -/
lemma ofInt_ofInt (n : Int) : ofInt (ofInt n) = ofInt n :=
  ofInt_of_lt (ofInt_lt n)

/-- The sum of two words is the sum of the integers, reduced. -/
lemma ofInt_add (a b : Int) : ofInt ((ofInt a : Int) + ofInt b) = ofInt (a + b) := by
  refine ofInt_congr ?_
  rw [natCast_ofInt, natCast_ofInt, ← Int.add_emod]

/-- The difference of two words is the difference of the integers, reduced. -/
lemma ofInt_sub (a b : Int) : ofInt ((ofInt a : Int) - ofInt b) = ofInt (a - b) := by
  refine ofInt_congr ?_
  rw [natCast_ofInt, natCast_ofInt, ← Int.sub_emod]

/-- The product of two words is the product of the integers, reduced. -/
lemma ofInt_mul (a b : Int) : ofInt ((ofInt a : Int) * ofInt b) = ofInt (a * b) := by
  refine ofInt_congr ?_
  rw [natCast_ofInt, natCast_ofInt, ← Int.mul_emod]

end Word

/-- An operation on reduced integers gives the exact result, reduced. -/
lemma BinaryOp.apply_ofInt {op : BinaryOp} {f : Int → Int → Int} (h : op.ring? = some f)
    (location : Location) (line : Option String) (a b : Int) :
    op.apply location line (Word.ofInt a) (Word.ofInt b) = .ok (Word.ofInt (f a b)) := by
  cases op with
  | add =>
    cases h
    exact congrArg Except.ok (Word.ofInt_add a b)
  | sub =>
    cases h
    exact congrArg Except.ok (Word.ofInt_sub a b)
  | mul =>
    cases h
    exact congrArg Except.ok (Word.ofInt_mul a b)
  | div | mod | shl | shr | and | or | xor => cases h

namespace Expr

variable {t : SymbolTable} {address : Int} {line : Option String}

/-- **An expression evaluates to its exact value, reduced**, whatever overflows on the way.

**Proof sketch.** Induction on the expression. Reduction is compatible with sums, differences and
products (`BinaryOp.apply_ofInt`), and a label is bound to a word, which is reduced already. -/
lemma evaluate_of_integer? (ht : t.InRange) {e : Expr} {v : Int}
    (h : e.integer? t.lookup address = some v) :
    e.evaluate t address line = .ok (Word.ofInt v) := by
  induction e generalizing v with
  | literal l value =>
    cases h
    rfl
  | char l c =>
    cases h
    rfl
  | label l name =>
    obtain ⟨value, hlookup, rfl⟩ := Option.map_eq_some_iff.1 h
    rw [evaluate, resolve, hlookup]
    exact congrArg Except.ok (Word.ofInt_of_lt (ht.lookup_lt hlookup)).symm
  | here l =>
    cases h
    rfl
  | complement l operand => cases h
  | binary l op left right ihl ihr =>
    obtain ⟨f, hop, h⟩ := Option.bind_eq_some_iff.1 h
    obtain ⟨a, hleft, h⟩ := Option.bind_eq_some_iff.1 h
    obtain ⟨b, hright, rfl⟩ := Option.map_eq_some_iff.1 h
    rw [evaluate, ihl hleft, ihr hright]
    exact BinaryOp.apply_ofInt hop l line a b

/-- Reducing the literals of an expression leaves its value as it is. -/
lemma evaluate_reduced (e : Expr) :
    e.reduced.evaluate t address line = e.evaluate t address line := by
  induction e with
  | literal l value => exact congrArg Except.ok (Word.ofInt_ofInt value)
  | char | label | here => rfl
  | complement l operand ih => rw [reduced, evaluate, evaluate, ih]
  | binary l op left right ihl ihr => rw [reduced, evaluate, evaluate, ihl, ihr]

end Expr

/-! ## Slots -/

/-- The instructions with a slot of a width: the immediate operations on bytes and the ports, and
those that take an address or a 16-bit value. -/
def Width.mnemonics : Width → List Mnemonic
  | byte => [.mvi, .adi, .aci, .sui, .sbi, .ani, .xri, .ori, .cpi, .inPort, .outPort]
  | word => [.lxi, .shld, .lhld, .sta, .lda,
      .jmp, .jnz, .jz, .jnc, .jc, .jpo, .jpe, .jp, .jm,
      .call, .cnz, .cz, .cnc, .cc, .cpo, .cpe, .cp, .cm]

/-- An action places an expression in a slot of a width, after the bytes of `front`; `directive` is
what a diagnostic calls it by. -/
inductive Action.HasSlot (width : Width) : Action → String → List UInt8 → Expr → Prop
  | data {name : Option String} {e : Expr} :
      HasSlot width (.data name width e) width.directive.name [] e
  | instruction {encoding : Encoding} {operands : List Operand} {e : Expr}
      (htable : encoding ∈ Encoding.table) (hmnemonic : encoding.mnemonic ∈ width.mnemonics)
      (he : Operand.expressionOf operands = some e) :
      HasSlot width (.instruction encoding operands) encoding.mnemonic.name [encoding.opcode] e

/-- The instructions with a slot of a width are those with an immediate of the width. -/
lemma Encoding.mnemonic_mem_iff {encoding : Encoding} (h : encoding ∈ table) (width : Width) :
    encoding.mnemonic ∈ width.mnemonics ↔ encoding.immediate? = some width.immediate := by
  have hall : ∀ encoding ∈ table, ∀ width ∈ [Width.byte, Width.word],
      encoding.mnemonic ∈ width.mnemonics ↔ encoding.immediate? = some width.immediate := by
    decide +kernel
  exact hall encoding h width (by cases width <;> decide)

namespace Action.HasSlot

variable {width : Width} {directive : String} {front : List UInt8} {e : Expr} {s : Statement}
  {t : SymbolTable} {address value : Nat}

/-- A value that a slot takes is placed after the bytes in front of it. -/
lemma encode_of_takes (h : s.action.HasSlot width directive front e)
    (hvalue : e.evaluate t address (some s.text) = .ok value)
    (htakes : width.immediate.Takes value) :
    s.encode t address = .ok (some (front ++ width.immediate.bytes value)) := by
  unfold Statement.encode
  generalize s.action = action at h
  cases h with
  | data => exact map_eq_ok_iff.2 ⟨_, encodeData_eq_ok_iff.2 ⟨value, hvalue, htakes, rfl⟩, rfl⟩
  | instruction htable hmnemonic he =>
    have hkind := (Encoding.mnemonic_mem_iff htable width).1 hmnemonic
    refine map_eq_ok_iff.2
      ⟨_, (encodeInstruction_eq_ok_iff hkind he).2 ⟨value, hvalue, htakes, rfl⟩, ?_⟩
    cases width <;> rfl

/-- The failure for a value that is too wide for a byte. -/
def tooWide (s : Statement) (directive : String) (e : Expr) (value : Nat) : Failure :=
  .diagnostic ⟨.operand directive (.tooWide value) [], some e.location, some s.text⟩

/-- A value that a slot for a byte does not take is too wide. -/
lemma encode_of_not_takes (h : s.action.HasSlot .byte directive front e)
    (hvalue : e.evaluate t address (some s.text) = .ok value)
    (htakes : ¬Immediate.byte.Takes value) :
    s.encode t address = .error (tooWide s directive e value) := by
  have hwide : ∀ name, byteOf name s.text e value = .error (tooWide s name e value) := by
    intro name
    rw [Immediate.Takes, not_or] at htakes
    rw [byteOf, if_neg htakes.1, if_neg htakes.2]
    rfl
  unfold Statement.encode
  generalize s.action = action at h
  cases h with
  | data =>
    simp only [encodeData, hvalue, bind, Except.bind, hwide]
    rfl
  | instruction htable hmnemonic he =>
    have hkind := (Encoding.mnemonic_mem_iff htable .byte).1 hmnemonic
    simp only [encodeInstruction, hkind, he, Width.immediate, hvalue, encodeValue, bind,
      Except.bind, hwide]
    rfl

end Action.HasSlot

/-! ## The integers that a slot takes -/

namespace Immediate

/-- A slot for a byte takes an integer, reduced, exactly when it differs by a multiple of 65536 from
one that is a byte, signed or not. -/
lemma takes_byte_ofInt_iff {v : Int} :
    byte.Takes (Word.ofInt v) ↔ ∃ n : Int, -128 ≤ n ∧ n ≤ 255 ∧ v ≡ n [ZMOD 65536] := by
  have hword := Word.natCast_ofInt v
  simp only [Takes, Int.ModEq]
  constructor
  · rintro (hlow | hhigh)
    · exact ⟨v % 65536, by omega, by omega, by omega⟩
    · exact ⟨v % 65536 - 65536, by omega, by omega, by omega⟩
  · rintro ⟨n, hlow, hhigh, hmod⟩
    omega

/-- The byte of an integer, reduced, is that of every integer that differs from it by a multiple of
65536. -/
lemma bytes_byte_ofInt {v n : Int} (h : v ≡ n [ZMOD 65536]) :
    byte.bytes (Word.ofInt v) = [UInt8.ofNat (n % 0x100).toNat] := by
  have hword := Word.natCast_ofInt v
  have hlow : Word.ofInt v % 0x100 = (n % 0x100).toNat := by
    rw [Int.ModEq] at h
    omega
  rw [bytes, ← ofNat_mod_256, hlow]

/-- The bytes of an integer, reduced, low byte first. -/
lemma bytes_word_ofInt (v : Int) :
    word.bytes (Word.ofInt v) =
      [UInt8.ofNat (v % 0x10000 % 0x100).toNat, UInt8.ofNat (v % 0x10000 / 0x100).toNat] := by
  have hword := Word.natCast_ofInt v
  have hlow : Word.ofInt v % 0x100 = (v % 0x10000 % 0x100).toNat := by omega
  have hhigh : Word.ofInt v / 0x100 = (v % 0x10000 / 0x100).toNat := by omega
  rw [bytes, ← ofNat_mod_256, hlow, Nat.shiftRight_eq_div_pow]
  exact congrArg (fun n => [_, UInt8.ofNat n]) hhigh

end Immediate

/-! ## The second pass up to a failure -/

namespace Emission

variable {t : SymbolTable}

/-- The second pass over two lists of statements: the second list follows if the first succeeds. -/
lemma run_append (m : Emission) (first second : List (Statement × Nat)) :
    m.run t (first ++ second) =
      match m.run t first with
      | (m', none) => m'.run t second
      | (m', some f) => (m', some f) := by
  induction first generalizing m with
  | nil => rfl
  | cons p first ih =>
    obtain ⟨s, address⟩ := p
    rw [List.cons_append, run, run]
    rcases m.step t s address with ⟨m₁, _ | f⟩
    · exact ih m₁
    · rfl

/-- The second pass ends with the failure of the first statement that does not fit. -/
lemma exists_run_eq_error {first second : List (Statement × Nat)} {s : Statement} {address : Nat}
    {f : Failure} (hfirst : ∀ p ∈ first, p.1.Fits t p.2) (hs : s.encode t address = .error f)
    (m : Emission) : ∃ m', m.run t (first ++ (s, address) :: second) = (m', some f) := by
  obtain ⟨m', hm'⟩ := (run_ok_iff (m := m)).2 hfirst
  have hstep : m'.step t s address = (m', some f) := by simp only [step, hs]
  exact ⟨m', by simp only [run_append, hm', run, hstep]⟩

end Emission

namespace Workbench

/-- Assembling fails as the second pass does. -/
lemma generate_eq_error_of_emission {w : Workbench} (hw : w.settings.fault? = none)
    {ss : List Statement} {l : Layout} (hl : Layout.ofStatements ss = (l, none)) {m : Emission}
    {f : Failure} (hm : Emission.run l.symbols { image := ⟨w.settings.fill, ∅, 0⟩ } (placed ss l) =
      (m, some f)) : (w.generate ss).outcome = .error f := by
  unfold placed at hm
  simp only [generate, Settings.blank?_fillByte hw, hl, hm]

/-- **A statement that cannot be encoded** is what assembling fails on, if all statements before it
can be. -/
lemma generate_eq_error_of_encode {w : Workbench} (hw : w.settings.fault? = none)
    {ss : List Statement} {l : Layout} (hl : Layout.ofStatements ss = (l, none)) {i : Nat}
    (hi : i < ss.length) {f : Failure} (hf : ss[i].encode l.symbols (cursorAt ss i) = .error f)
    (hbefore : ∀ j (hj : j < i), ∃ code, ss[j].encode l.symbols (cursorAt ss j) = .ok code) :
    (w.generate ss).outcome = .error f := by
  have hsplit : placed ss l = (placed ss l).take i ++ (ss[i], cursorAt ss i) ::
      (placed ss l).drop (i + 1) := by
    have hlength : i < (placed ss l).length := by
      simpa [placed, addresses_of_layout hl] using hi
    have hget : (placed ss l)[i] = (ss[i], cursorAt ss i) := by
      simp [placed, addresses_of_layout hl]
    rw [← hget, List.getElem_cons_drop, List.take_append_drop]
  have hfits : ∀ p ∈ (placed ss l).take i, p.1.Fits l.symbols p.2 := by
    intro p hp
    obtain ⟨j, hj, rfl⟩ := List.mem_iff_getElem.1 hp
    rw [List.length_take] at hj
    have hlt : j < ss.length := by omega
    have hget : ((placed ss l).take i)[j] = (ss[j], cursorAt ss j) := by
      simp [placed, addresses_of_layout hl]
    rw [hget]
    exact ⟨hbefore j (by omega), limit_piece_le l.symbols ((Placement.of_layout hl).moves j hlt)⟩
  obtain ⟨m, hm⟩ : ∃ m, Emission.run l.symbols { image := ⟨w.settings.fill, ∅, 0⟩ } (placed ss l) =
      (m, some f) := by
    rw [hsplit]
    exact Emission.exists_run_eq_error hfits hf _
  exact generate_eq_error_of_emission hw hl hm

/-- **What assembling makes of an exact value.** In a program on which the first pass succeeds, let
a statement place an expression of sums, differences and products in a slot, and let `v` be its
exact value as it was written, over the final words of the labels. A slot for a byte accepts it
exactly when `v` differs from some `n` between -128 and 255 by a multiple of 65536, and then emits
`n` modulo 256; so it emits `v` modulo 256 if `v` is itself in that range. Otherwise the operand is
reported as too wide, and that is how assembling ends if the statements above it can be encoded. A
slot for a word accepts every `v` and emits `v` modulo 65536, low byte first.

**Proof sketch.** The expression evaluates to `v`, reduced once (`Expr.evaluate_of_integer?`). The
words that a byte takes are those of the integers from -128 to 255
(`Immediate.takes_byte_ofInt_iff`). -/
theorem generate_exact_value (w : Workbench) (hw : w.settings.fault? = none) (ss : List Statement)
    (l : Layout) (hl : Layout.ofStatements ss = (l, none)) (i : Nat) (hi : i < ss.length)
    (width : Width) (directive : String) (front : List UInt8) (e : Expr)
    (hslot : ss[i].action.HasSlot width directive front e) (written : Expr)
    (hwritten : written.reduced = e.reduced) (v : Int)
    (hv : written.integer? l.symbols.lookup (cursorAt ss i) = some v) :
    let emitted := ss[i].encode l.symbols (cursorAt ss i)
    (width = .byte →
      (-128 ≤ v → v ≤ 255 → emitted = .ok (some (front ++ [UInt8.ofNat (v % 0x100).toNat]))) ∧
      ((∃ code, emitted = .ok code) ↔ ∃ n : Int, -128 ≤ n ∧ n ≤ 255 ∧ v ≡ n [ZMOD 65536]) ∧
      (∀ n : Int, -128 ≤ n → n ≤ 255 → v ≡ n [ZMOD 65536] →
        emitted = .ok (some (front ++ [UInt8.ofNat (n % 0x100).toNat]))) ∧
      ((¬∃ n : Int, -128 ≤ n ∧ n ≤ 255 ∧ v ≡ n [ZMOD 65536]) →
        ∃ f, f = .diagnostic ⟨.operand directive (.tooWide (Word.ofInt v)) [], some e.location,
            some ss[i].text⟩ ∧ emitted = .error f ∧
          ((∀ j (hj : j < i), ∃ code, ss[j].encode l.symbols (cursorAt ss j) = .ok code) →
            (w.generate ss).outcome = .error f))) ∧
    (width = .word →
      emitted = .ok (some (front ++ [UInt8.ofNat (v % 0x10000 % 0x100).toNat,
        UInt8.ofNat (v % 0x10000 / 0x100).toNat]))) := by
  intro emitted
  have hr : l.symbols.InRange := Layout.inRange_of_run hl SymbolTable.inRange_empty
  have hvalue : e.evaluate l.symbols (cursorAt ss i) (some ss[i].text) = .ok (Word.ofInt v) := by
    rw [← Expr.evaluate_reduced, ← hwritten, Expr.evaluate_reduced]
    exact Expr.evaluate_of_integer? hr hv
  refine ⟨?_, ?_⟩
  · rintro rfl
    have haccepts : ∀ n : Int, -128 ≤ n → n ≤ 255 → v ≡ n [ZMOD 65536] →
        emitted = .ok (some (front ++ [UInt8.ofNat (n % 0x100).toNat])) := by
      intro n hlow hhigh hmod
      rw [← Immediate.bytes_byte_ofInt hmod]
      exact hslot.encode_of_takes hvalue
        (Immediate.takes_byte_ofInt_iff.2 ⟨n, hlow, hhigh, hmod⟩)
    have hrejects : (¬∃ n : Int, -128 ≤ n ∧ n ≤ 255 ∧ v ≡ n [ZMOD 65536]) →
        emitted = .error (Action.HasSlot.tooWide ss[i] directive e (Word.ofInt v)) := fun hnone =>
      hslot.encode_of_not_takes hvalue (mt Immediate.takes_byte_ofInt_iff.1 hnone)
    refine ⟨fun hlow hhigh => haccepts v hlow hhigh rfl, ⟨?_, ?_⟩, haccepts, fun hnone => ?_⟩
    · rintro ⟨code, hcode⟩
      by_contra hnone
      cases hcode.symm.trans (hrejects hnone)
    · rintro ⟨n, hlow, hhigh, hmod⟩
      exact ⟨_, haccepts n hlow hhigh hmod⟩
    · exact ⟨_, rfl, hrejects hnone, generate_eq_error_of_encode hw hl hi (hrejects hnone)⟩
  · rintro rfl
    rw [← Immediate.bytes_word_ofInt]
    exact hslot.encode_of_takes hvalue (Word.ofInt_lt v)

/-- A text with values that overflow on the way: a byte below zero, a word below zero, and a byte
that is too wide. -/
def overflowingText : String :=
  "BASE EQU 40000\n DB 70000-70001\n DW 0-BASE*3\n MVI B,(BASE+$)*33\n"

/-- A place in the text with values that overflow. -/
def overflowingPlace (line column : Int) : Location := ⟨"overflowing.asm", line, column⟩

/-- The difference on the second line, with the literals `m` and `n`. -/
def overflowingByte (m n : Int) : Expr :=
  .binary (overflowingPlace 2 10) .sub (.literal (overflowingPlace 2 5) m)
    (.literal (overflowingPlace 2 11) n)

/-- The product on the third line, below zero. -/
def overflowingWord : Expr :=
  .binary (overflowingPlace 3 6) .sub (.literal (overflowingPlace 3 5) 0)
    (.binary (overflowingPlace 3 11) .mul (.label (overflowingPlace 3 7) "BASE")
      (.literal (overflowingPlace 3 12) 3))

/-- The product on the fourth line. -/
def overflowingWide : Expr :=
  .binary (overflowingPlace 4 16) .mul
    (.binary (overflowingPlace 4 13) .add (.label (overflowingPlace 4 9) "BASE")
      (.here (overflowingPlace 4 14)))
    (.literal (overflowingPlace 4 17) 33)

/-- The statements of the text with values that overflow. -/
def overflowing : List Statement :=
  [⟨overflowingPlace 1 1, "BASE EQU 40000",
      .equate "BASE" (.literal (overflowingPlace 1 10) 40000)⟩,
    ⟨overflowingPlace 2 2, " DB 70000-70001", .data none .byte (overflowingByte 4464 4465)⟩,
    ⟨overflowingPlace 3 2, " DW 0-BASE*3", .data none .word overflowingWord⟩,
    ⟨overflowingPlace 4 2, " MVI B,(BASE+$)*33",
      .instruction ⟨.mvi, [.register .b, .value .byte], 0x06⟩
        [.register .b, .expression overflowingWide]⟩]

/-- The layout of the text with values that overflow. -/
def overflowingLayout : Layout := (Layout.ofStatements overflowing).1

/-- The value -1, whose literals are kept as 4464 and 4465, is emitted as `FFH`; the value -120000
is emitted as `2B40H`; and the value 1320099, which is 9379 modulo 65536, is too wide for a byte. -/
theorem generate_overflowing :
    Statement.readSource overflowingText "overflowing.asm" false = .ok overflowing ∧
      Layout.ofStatements overflowing = (overflowingLayout, none) ∧
      overflowing[1].encode overflowingLayout.symbols (cursorAt overflowing 1) =
        .ok (some [0xFF]) ∧
      overflowing[2].encode overflowingLayout.symbols (cursorAt overflowing 2) =
        .ok (some [0x40, 0x2B]) ∧
      (padding.generate overflowing).outcome = .error (.diagnostic
        ⟨.operand "MVI" (.tooWide 9379) [], some (overflowingPlace 4 16),
          some " MVI B,(BASE+$)*33"⟩) := by
  have hread : Statement.readSource overflowingText "overflowing.asm" false = .ok overflowing := by
    decide +kernel
  have hl : Layout.ofStatements overflowing = (overflowingLayout, none) := by decide +kernel
  have hvalue : ((overflowingByte 70000 70001).integer? overflowingLayout.symbols.lookup
        (cursorAt overflowing 1) = some (-1) ∧
      overflowingWord.integer? overflowingLayout.symbols.lookup (cursorAt overflowing 2) =
        some (-120000)) ∧
      overflowingWide.integer? overflowingLayout.symbols.lookup (cursorAt overflowing 3) =
        some 1320099 := by decide +kernel
  have hbyte := ((generate_exact_value padding rfl overflowing _ hl 1 (by decide) .byte _ _ _
    .data (overflowingByte 70000 70001) rfl (-1) hvalue.1.1).1 rfl).1 (by decide) (by decide)
  have hword := (generate_exact_value padding rfl overflowing _ hl 2 (by decide) .word _ _ _
    .data overflowingWord rfl (-120000) hvalue.1.2).2 rfl
  have hnone : ¬∃ n : Int, -128 ≤ n ∧ n ≤ 255 ∧ 1320099 ≡ n [ZMOD 65536] := by
    rintro ⟨n, hlow, hhigh, hmod⟩
    rw [Int.ModEq] at hmod
    omega
  obtain ⟨f, rfl, -, hfails⟩ := ((generate_exact_value padding rfl overflowing _ hl 3 (by decide)
    .byte _ _ _ (.instruction (by decide) (by decide) rfl) overflowingWide rfl 1320099
    hvalue.2).1 rfl).2.2.2 hnone
  refine ⟨hread, hl, hbyte, hword, hfails fun j hj => ?_⟩
  rcases (by omega : j = 0 ∨ j = 1 ∨ j = 2) with rfl | rfl | rfl
  · exact ⟨none, rfl⟩
  · exact ⟨_, hbyte⟩
  · exact ⟨_, hword⟩

end Workbench

end Asm8080
