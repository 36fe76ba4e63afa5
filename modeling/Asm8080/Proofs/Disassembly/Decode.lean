import Asm8080.Disassembly.Stream
import Asm8080.Proofs.Fallible
import Asm8080.Proofs.Instruction.Table

/-!
# Reading one instruction

The disassembler reads the code of a row with a value as that row and that value, whatever bytes
follow. Conversely, every instruction that it reads is the code of a row with a value, and every
other byte becomes a record of its own.

## Main definitions

* `Asm8080.Encoding.arguments` — the operands of an instruction with a value.
* `Asm8080.Record.Faithful` — the bytes of a record are what its content stands for.

## Main results

* `Asm8080.Disassembler.decodeFront_code` — the code of an instruction is read as that instruction.
* `Asm8080.Disassembler.exists_decodeFront` — what is read is faithful to the bytes.
-/

set_option autoImplicit false

namespace Asm8080

/-- The operand in a slot of an instruction with a value. -/
def Slot.argument (value : Nat) : Slot → Argument
  | register r => .register r
  | .value .byte => .byte (UInt8.ofNat value)
  | .value .word => .word value
  | .value .vector => .vector value

/-- The operands of an instruction with a value. -/
def Encoding.arguments (e : Encoding) (value : Nat) : List Argument :=
  e.slots.map (Slot.argument value)

/-! ## Operands -/

/-- The low and the high byte of a word make up the word. -/
lemma low_or_high {value : Nat} (h : value < Word.count) :
    (UInt8.ofNat value).toNat ||| (UInt8.ofNat (value >>> 8)).toNat <<< 8 = value := by
  have hlow : value % 2 ^ 8 < 2 ^ 8 := Nat.mod_lt _ (by decide)
  have hhigh : (value >>> 8) % 2 ^ 8 = value / 2 ^ 8 := by
    rw [Nat.shiftRight_eq_div_pow]
    exact Nat.mod_eq_of_lt (by simp only [Word.count] at h; omega)
  rw [UInt8.toNat_ofNat', UInt8.toNat_ofNat', hhigh, Nat.or_comm,
    ← Nat.shiftLeft_add_eq_or_of_lt hlow, Nat.shiftLeft_eq]
  omega

/-- The bytes of a word are the two bytes that it is made of. -/
lemma bytes_word (low high : UInt8) :
    Immediate.word.bytes (low.toNat + 0x100 * high.toNat) = [low, high] := by
  have hlow := low.toNat_lt
  have hhigh := high.toNat_lt
  have h₁ : UInt8.ofNat (low.toNat + 0x100 * high.toNat) = low := by
    apply UInt8.toNat.inj
    rw [UInt8.toNat_ofNat']
    omega
  have h₂ : UInt8.ofNat ((low.toNat + 0x100 * high.toNat) >>> 8) = high := by
    apply UInt8.toNat.inj
    rw [UInt8.toNat_ofNat', Nat.shiftRight_eq_div_pow]
    omega
  rw [Immediate.bytes, h₁, h₂]

/-- The operand in the slot of a value is read from the bytes of the value. -/
lemma readArgument?_bytes {kind : Immediate} {value : Nat} (h : kind.Takes value)
    {vector : Option Nat} (hvector : kind = .vector → vector = some value) (rest : List UInt8) :
    readArgument? vector (kind.bytes value ++ rest) (.value kind) =
      some (Slot.argument value (.value kind)) := by
  cases kind with
  | byte => rfl
  | word =>
    simp only [readArgument?, Immediate.bytes, List.cons_append, Slot.argument, low_or_high h]
  | vector => simp [readArgument?, hvector rfl, Slot.argument]

/-- A list is mapped without failure if every member is. -/
lemma mapM_eq_some_map {α β : Type} {f : α → Option β} {g : α → β} {l : List α}
    (h : ∀ a ∈ l, f a = some (g a)) : l.mapM f = some (l.map g) := by
  induction l with
  | nil => rfl
  | cons a l ih =>
    obtain ⟨ha, hl⟩ := List.forall_mem_cons.1 h
    simp [List.mapM_cons, ha, ih hl]

/-- Every member of a list that is mapped without failure is mapped. -/
lemma exists_of_mapM_eq_some {α β : Type} {f : α → Option β} {l : List α} {bs : List β}
    (h : l.mapM f = some bs) {a : α} (ha : a ∈ l) : ∃ b, f a = some b := by
  induction l generalizing bs with
  | nil => exact absurd ha List.not_mem_nil
  | cons x l ih =>
    simp only [List.mapM_cons, Option.bind_eq_bind, Option.bind_eq_some_iff] at h
    obtain ⟨b, hb, bs', hbs', -⟩ := h
    rcases List.mem_cons.1 ha with rfl | ha
    · exact ⟨b, hb⟩
    · exact ih hbs' ha

/-- **The operands of an instruction** are read from the bytes after the opcode. -/
lemma readArguments?_trail {e : Encoding} (h : e ∈ Encoding.table) {value : Nat}
    (hv : e.TakesValue value) (rest : List UInt8) :
    readArguments? e (e.vector? value) (e.trail value ++ rest) = some (e.arguments value) := by
  refine mapM_eq_some_map fun slot hslot => ?_
  cases slot with
  | register r => rfl
  | value kind =>
    have hk := Encoding.immediate?_eq h hslot
    rw [Encoding.trail, hk]
    refine readArgument?_bytes (hv kind hk) (fun hvector => ?_) rest
    rw [Encoding.vector?, if_pos (hvector ▸ hk)]

/-- The values that fit in the bits of an immediate are below its limit. -/
def Immediate.limit : Immediate → Nat
  | byte => 0x100 | word => 0x10000 | vector => 8

/-- An immediate takes the values that fit in its bits. -/
lemma Immediate.takes_of_lt {kind : Immediate} {value : Nat} (h : value < kind.limit) :
    kind.Takes value := by
  cases kind with
  | byte => exact .inl (Nat.le_of_lt_succ h)
  | word => exact h
  | vector => exact Nat.le_of_lt_succ h

/-- Bytes from which the operands of a row can be read begin with the bytes of a value. -/
lemma exists_trail_of_readArguments? {e : Encoding} {op : UInt8} {vector : Option Nat}
    (hop : (op, vector) ∈ e.opcodes) {rest : List UInt8}
    {arguments : List Argument} (hread : readArguments? e vector rest = some arguments) :
    ∃ value rest', (∀ kind ∈ e.immediate?, value < kind.limit) ∧
      op = e.lead value ∧ vector = e.vector? value ∧ rest = e.trail value ++ rest' := by
  obtain ⟨number, hnumber, rfl, rfl⟩ := Encoding.mem_opcodes_iff.1 hop
  unfold Encoding.lead Encoding.vector? Encoding.trail at *
  cases hk : e.immediate? with
  | none => exact ⟨number, rest, by simp, rfl, rfl, rfl⟩
  | some kind =>
    have hslot : Slot.value kind ∈ e.slots := Encoding.value_mem_slots hk
    obtain ⟨argument, hargument⟩ := exists_of_mapM_eq_some hread hslot
    cases kind with
    | byte =>
      cases rest with
      | nil => cases hargument
      | cons b rest =>
        refine ⟨b.toNat, rest, ?_, rfl, rfl, ?_⟩
        · simpa [Immediate.limit] using b.toNat_lt
        · simp [Immediate.bytes]
    | word =>
      rcases rest with _ | ⟨low, _ | ⟨high, rest⟩⟩
      · cases hargument
      · cases hargument
      · have hlow := low.toNat_lt
        have hhigh := high.toNat_lt
        refine ⟨low.toNat + 0x100 * high.toNat, rest, ?_, rfl, rfl, ?_⟩
        · simp only [Option.mem_def, Option.some.injEq, forall_eq', Immediate.limit]
          omega
        · simp only [Option.elim_some, bytes_word, List.cons_append, List.nil_append]
    | vector =>
      refine ⟨number, rest, ?_, rfl, rfl, rfl⟩
      simpa [Immediate.limit] using Nat.lt_succ_of_le (hnumber hk)

/-! ## Records -/

/-- The bytes of a record are what its content stands for: the code of a row with a value, or the
byte that begins no instruction. -/
def Record.Faithful (d : Disassembler) (r : Record) : Prop :=
  match r.content with
  | .instruction e arguments name =>
    ∃ value, e ∈ Encoding.table ∧ (∀ kind ∈ e.immediate?, value < kind.limit) ∧
      arguments = e.arguments value ∧ r.bytes = e.code value ∧ name = d.nameFor arguments
  | .data _ => r.bytes = [r.opcode]

namespace Disassembler

variable {d : Disassembler}

/-- **The code of an instruction is read as that instruction**, whatever bytes follow. -/
lemma decodeFront_code (d : Disassembler) (address : Int) {e : Encoding} (h : e ∈ Encoding.table)
    (hne : e ≠ Encoding.moveMemory) {value : Nat} (hv : e.TakesValue value) (rest : List UInt8) :
    d.decodeFront address (e.lead value) (e.trail value ++ rest) =
      .ok (d.accept address (e.lead value) e (e.arguments value) (e.code value)) := by
  rw [decodeFront, Encoding.decode?_lead h hne hv]
  simp only [readArguments?_trail h hv]
  rw [Encoding.code, List.take_left' (Encoding.length_trail h value)]

/-- A lenient disassembler makes a record of every byte that begins no instruction. -/
lemma refuse_eq (hd : d.strict = false) (address : Int) (byte : UInt8) (problem : Problem) :
    d.refuse address byte problem = .ok ⟨address, byte, .data problem, [byte]⟩ := by
  rw [refuse, hd]
  rfl

/-- **What is read is faithful to the bytes.** A lenient disassembler reads a record from the front
of every data, and what follows the bytes of the record is left. -/
lemma exists_decodeFront (hd : d.strict = false) (address : Int) (byte : UInt8)
    (rest : List UInt8) :
    ∃ r, d.decodeFront address byte rest = .ok r ∧ r.Faithful d ∧ r.address = address ∧
      byte :: rest = r.bytes ++ rest.drop (r.size - 1) := by
  unfold decodeFront
  cases hdecode : Encoding.decode? byte with
  | none => exact ⟨_, refuse_eq hd _ _ _, rfl, rfl, rfl⟩
  | some found =>
    obtain ⟨e, vector⟩ := found
    obtain ⟨htable, hop⟩ := Encoding.decode?_eq_some hdecode
    simp only
    cases hread : readArguments? e vector rest with
    | none => exact ⟨_, refuse_eq hd _ _ _, rfl, rfl, rfl⟩
    | some arguments =>
      obtain ⟨value, rest', hlt, rfl, rfl, rfl⟩ := exists_trail_of_readArguments? hop hread
      have hv : e.TakesValue value := fun kind hk => Immediate.takes_of_lt (hlt kind hk)
      rw [readArguments?_trail htable hv] at hread
      cases hread
      have htake : (e.trail value ++ rest').take (e.size - 1) = e.trail value :=
        List.take_left' (Encoding.length_trail htable value)
      refine ⟨_, rfl, ⟨value, htable, hlt, rfl, ?_, rfl⟩, rfl, ?_⟩
      · simp only [accept, htake, Encoding.code]
      · simp only [accept, Record.size, List.cons_append, List.take_append_drop]

end Disassembler

end Asm8080
