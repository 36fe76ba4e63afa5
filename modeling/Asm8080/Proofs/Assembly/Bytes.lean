import Asm8080.Assembly.Emission
import Asm8080.Proofs.Expr.Meaning
import Asm8080.Proofs.Instruction.Table

/-!
# The bytes of a statement

What a statement places is determined by its opcode and the value of its expression. Encoding a
statement succeeds on exactly the values that its immediate takes, with exactly the bytes of the
value.

## Main definitions

* `Asm8080.Width.immediate` — the immediate that a data directive places.

## Main results

* `Asm8080.encodeData_eq_ok_iff`, `Asm8080.encodeInstruction_eq_ok_iff` — when data and instructions
  are encoded, and how.
-/

set_option autoImplicit false

namespace Asm8080

/-- The immediate that a data directive places. -/
def Width.immediate : Width → Immediate
  | byte => .byte
  | word => .word

/-- A data directive is as wide as its immediate. -/
@[simp] lemma Width.size_immediate (width : Width) : width.immediate.size = width.size := by
  cases width <;> rfl

/-! ## Numbers as bytes -/

/-- The low byte of a number, as a number. -/
lemma and_255_eq_mod (n : Nat) : n &&& 0xFF = n % 0x100 :=
  Nat.and_two_pow_sub_one_eq_mod n 8

/-- The byte of a number is that of its low byte. -/
lemma ofNat_mod_256 (n : Nat) : UInt8.ofNat (n % 0x100) = UInt8.ofNat n := by
  apply UInt8.toNat.inj
  rw [UInt8.toNat_ofNat', UInt8.toNat_ofNat', Nat.mod_mod]

variable {symbols : SymbolTable} {address : Nat} {text : String} {e : Expr} {code : List UInt8}

/-- Numbers after bytes are packed exactly when all of them are bytes. -/
lemma packBytes_append_eq_ok_iff (front : List UInt8) (ns : List Nat) (code : List UInt8) :
    packBytes (front.map UInt8.toNat ++ ns) = .ok code ↔
      (∀ n ∈ ns, n < 0x100) ∧ code = front ++ ns.map UInt8.ofNat := by
  have hall : ((front.map UInt8.toNat ++ ns).all fun n => n < 0x100) = true ↔
      ∀ n ∈ ns, n < 0x100 := by
    simp only [List.all_append, List.all_map, Bool.and_eq_true, List.all_eq_true,
      Function.comp_apply, decide_eq_true_eq]
    exact ⟨fun h => h.2, fun h => ⟨fun b _ => b.toNat_lt, h⟩⟩
  have hmap : (front.map UInt8.toNat ++ ns).map UInt8.ofNat = front ++ ns.map UInt8.ofNat := by
    simp [Function.comp_def]
  unfold packBytes
  split_ifs with h
  · rw [hmap, Except.ok.injEq, eq_comm, and_iff_right (hall.1 h)]
  · simp only [mt hall.2 h, false_and]

/-- A word is reduced to a byte exactly when a byte takes it. -/
lemma byteOf_eq_ok_iff {mnemonic : String} {value b : Nat} :
    byteOf mnemonic text e value = .ok b ↔ Immediate.byte.Takes value ∧ b = value % 0x100 := by
  unfold byteOf Immediate.Takes
  split_ifs with hbyte hnegative
  · simp only [Except.ok.injEq, hbyte, true_or, true_and]
    omega
  · simp only [Except.ok.injEq, hnegative, and_255_eq_mod, or_true, true_and, eq_comm]
  · simp only [hbyte, hnegative, or_self, false_and]

/-- A value is packed as a byte after other bytes exactly when a byte takes it. -/
lemma packByte_eq_ok_iff (front : List UInt8) (mnemonic : String) (value : Nat) :
    (byteOf mnemonic text e value >>= fun b => packBytes (front.map UInt8.toNat ++ [b])) =
        .ok code ↔
      Immediate.byte.Takes value ∧ code = front ++ Immediate.byte.bytes value := by
  simp only [bind_eq_ok_iff, byteOf_eq_ok_iff, packBytes_append_eq_ok_iff]
  constructor
  · rintro ⟨b, ⟨htakes, rfl⟩, -, rfl⟩
    rw [List.map_singleton, ofNat_mod_256]
    exact ⟨htakes, rfl⟩
  · rintro ⟨htakes, rfl⟩
    refine ⟨_, ⟨htakes, rfl⟩, ?_, ?_⟩
    · simp only [List.mem_singleton, forall_eq]
      omega
    · rw [List.map_singleton, ofNat_mod_256]
      rfl

/-- A value is packed as a word after other bytes exactly when it is one. -/
lemma packWord_eq_ok_iff (front : List UInt8) (value : Nat) :
    packBytes (front.map UInt8.toNat ++ [value &&& 0xFF, value >>> 8]) = .ok code ↔
      Immediate.word.Takes value ∧ code = front ++ Immediate.word.bytes value := by
  have hbytes : (∀ n ∈ [value &&& 0xFF, value >>> 8], n < 0x100) ↔ Immediate.word.Takes value := by
    rw [and_255_eq_mod, Nat.shiftRight_eq_div_pow]
    simp only [List.mem_cons, List.not_mem_nil, or_false, forall_eq_or_imp, forall_eq,
      Immediate.Takes, Word.count]
    omega
  rw [packBytes_append_eq_ok_iff, hbytes, and_255_eq_mod, List.map_cons, ofNat_mod_256]
  rfl

/-! ## Data and instructions -/

/-- **Data** is encoded exactly when its expression has a value that its width takes. -/
lemma encodeData_eq_ok_iff {width : Width} :
    encodeData symbols address text width e = .ok code ↔
      ∃ value, e.evaluate symbols address (some text) = .ok value ∧
        width.immediate.Takes value ∧ code = width.immediate.bytes value := by
  unfold encodeData
  rw [bind_eq_ok_iff]
  refine exists_congr fun value => and_congr_right fun _ => ?_
  cases width with
  | byte => exact packByte_eq_ok_iff [] "DB" value
  | word => exact packWord_eq_ok_iff [] value

/-- A restart number merged into an opcode, as a number. -/
lemma toNat_atBit3 (opcode : UInt8) {value : Nat} (h : value ≤ 7) :
    (Encoding.atBit3 opcode (UInt8.ofNat value)).toNat = opcode.toNat ||| value <<< 3 := by
  have hshift : ∀ n < 8, (UInt8.ofNat n <<< 3).toNat = n <<< 3 := by decide
  rw [Encoding.atBit3, UInt8.toNat_or, hshift value (by omega)]

/-- A value is encoded in an instruction exactly when the immediate takes it. -/
lemma encodeValue_eq_ok_iff {encoding : Encoding} {kind : Immediate} {value : Nat} :
    encodeValue text encoding kind e value = .ok code ↔
      kind.Takes value ∧ code = kind.merge encoding.opcode value :: kind.bytes value := by
  cases kind with
  | byte => exact packByte_eq_ok_iff [encoding.opcode] encoding.mnemonic.name value
  | word => exact packWord_eq_ok_iff [encoding.opcode] value
  | vector =>
    by_cases h : value ≤ 7
    · have hgt : ¬value > 7 := by omega
      have hpack := packBytes_append_eq_ok_iff
        [Encoding.atBit3 encoding.opcode (UInt8.ofNat value)] [] code
      simp only [encodeValue, hgt, if_false, Immediate.Takes, h, true_and]
      rw [← toNat_atBit3 encoding.opcode h]
      exact hpack.trans (by simp [Immediate.merge, Immediate.bytes])
    · have hgt : value > 7 := by omega
      simp [encodeValue, hgt, Immediate.Takes, h, throw, throwThe, MonadExceptOf.throw]

/-- **An instruction with a value** is encoded exactly when its expression has a value that its
immediate takes. -/
lemma encodeInstruction_eq_ok_iff {encoding : Encoding} {operands : List Operand}
    {kind : Immediate} (hk : encoding.immediate? = some kind)
    (he : Operand.expressionOf operands = some e) :
    encodeInstruction symbols address text encoding operands = .ok code ↔
      ∃ value, e.evaluate symbols address (some text) = .ok value ∧
        kind.Takes value ∧ code = kind.merge encoding.opcode value :: kind.bytes value := by
  rw [encodeInstruction, hk, he]
  simp only [bind_eq_ok_iff, encodeValue_eq_ok_iff]

/-- An instruction without a value is its opcode. -/
lemma encodeInstruction_of_immediate_eq_none {encoding : Encoding} {operands : List Operand}
    (h : encoding.immediate? = none ∨ Operand.expressionOf operands = none) :
    encodeInstruction symbols address text encoding operands = .ok [encoding.opcode] := by
  have hpack : packBytes [encoding.opcode.toNat] = .ok [encoding.opcode] :=
    (packBytes_append_eq_ok_iff [encoding.opcode] [] _).2 ⟨by simp, by simp⟩
  unfold encodeInstruction
  rcases h with h | h
  · rw [h]
    exact hpack
  · rw [h]
    cases encoding.immediate? <;> exact hpack

/-- The code of an instruction is its opcode, with the value of its expression if it has one. -/
lemma encodeInstruction_cases {encoding : Encoding} {operands : List Operand}
    (h : encodeInstruction symbols address text encoding operands = .ok code) :
    ((encoding.immediate? = none ∨ Operand.expressionOf operands = none) ∧
      code = [encoding.opcode]) ∨
    ∃ kind e value, encoding.immediate? = some kind ∧ Operand.expressionOf operands = some e ∧
      e.evaluate symbols address (some text) = .ok value ∧ kind.Takes value ∧
      code = kind.merge encoding.opcode value :: kind.bytes value := by
  cases hk : encoding.immediate? with
  | none =>
    rw [encodeInstruction_of_immediate_eq_none (.inl hk)] at h
    cases h
    exact .inl ⟨.inl rfl, rfl⟩
  | some kind =>
    cases he : Operand.expressionOf operands with
    | none =>
      rw [encodeInstruction_of_immediate_eq_none (.inr he)] at h
      cases h
      exact .inl ⟨.inr rfl, rfl⟩
    | some e =>
      obtain ⟨value, hvalue, htakes, hcode⟩ := (encodeInstruction_eq_ok_iff hk he).1 h
      exact .inr ⟨kind, e, value, rfl, rfl, hvalue, htakes, hcode⟩

/-- **An instruction whose row takes its operands** is encoded exactly when its expression, if it
has one, has a value that the row takes, and then as the code of the row with that value. -/
lemma Encoding.Takes.encodeInstruction_iff {encoding : Encoding} {operands : List Operand}
    (h : encoding.Takes operands) :
    encodeInstruction symbols address text encoding operands = .ok code ↔
      ∃ value, (∀ e ∈ Operand.expressionOf operands,
          e.evaluate symbols address (some text) = .ok value) ∧
        encoding.TakesValue value ∧ code = encoding.code value := by
  have hsome := h.isSome_expressionOf
  unfold TakesValue Encoding.code lead trail
  cases hk : encoding.immediate? with
  | none =>
    rw [hk, Option.isSome_none, Option.isSome_eq_false_iff, Option.isNone_iff_eq_none] at hsome
    simp [hsome, encodeInstruction_of_immediate_eq_none (.inl hk), eq_comm]
  | some kind =>
    rw [hk, Option.isSome_some] at hsome
    obtain ⟨e, he⟩ := Option.isSome_iff_exists.1 hsome
    simp [he, encodeInstruction_eq_ok_iff hk he]

end Asm8080
