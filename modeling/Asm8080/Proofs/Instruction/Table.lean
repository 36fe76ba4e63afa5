import Mathlib.Data.List.Forall2
import Mathlib.Data.List.Nodup
import Asm8080.Instruction.Encoding
import Asm8080.Number.Word
import Asm8080.Statement.Basic

/-!
# Instructions and their code

A row of the instruction table and a value determine the code of an instruction: the opcode, into
which a restart number is merged, and then the bytes of the value. The table is a finite list of
rows, so what is true of every row is decided by going through them. The facts here are the ones
that assembling and disassembling rely on: a row has at most one value, which determines its size;
it is found again from its mnemonic and operands; and it is found again from its code, unless it is
`MOV M,M`.

## Main definitions

* `Asm8080.Immediate.Takes` — the values that an immediate takes.
* `Asm8080.Immediate.bytes`, `Asm8080.Immediate.merge` — the bytes of a value, and the opcode with a
  restart number merged in.
* `Asm8080.Encoding.TakesValue`, `Asm8080.Encoding.code` — the values that a row takes, and its
  code.
* `Asm8080.Encoding.Takes` — operands have the form of a row.

## Main results

* `Asm8080.Encoding.length_code` — the code of a row has the size of the row.
* `Asm8080.Encoding.decode?_lead` — the first byte of the code determines the row.
* `Asm8080.Encoding.Takes.isSome_expressionOf` — operands hold an expression exactly when the row
  has an immediate.
* `Asm8080.Encoding.select?_eq_some` — a row that is selected takes the operands.
-/

set_option autoImplicit false

namespace Asm8080

/-! ## Values and their bytes -/

namespace Immediate

/-- The values that an immediate takes. A byte takes 0 to 255, and the words that stand for -128 to
-1. -/
def Takes : Immediate → Nat → Prop
  | byte, value => value ≤ 0xFF ∨ 0xFF80 ≤ value
  | word, value => value < Word.count
  | vector, value => value ≤ 7

/-- The bytes of a value after the opcode, low byte first. -/
def bytes : Immediate → Nat → List UInt8
  | byte, value => [UInt8.ofNat value]
  | word, value => [UInt8.ofNat value, UInt8.ofNat (value >>> 8)]
  | vector, _ => []

/-- The opcode with a restart number merged in. -/
def merge (opcode : UInt8) : Immediate → Nat → UInt8
  | byte, _ | word, _ => opcode
  | vector, value => Encoding.atBit3 opcode (UInt8.ofNat value)

/-- A value takes as many bytes as its immediate adds to the opcode. -/
@[simp] lemma length_bytes (kind : Immediate) (value : Nat) :
    (kind.bytes value).length = kind.size := by
  cases kind <;> rfl

end Immediate

namespace Encoding

/-! ## The code of a row -/

/-- A row takes a value if its immediate does. A row without an immediate ignores the value. -/
def TakesValue (e : Encoding) (value : Nat) : Prop := ∀ kind ∈ e.immediate?, kind.Takes value

/-- The first byte of an instruction with a value. -/
def lead (e : Encoding) (value : Nat) : UInt8 :=
  e.immediate?.elim e.opcode fun kind => kind.merge e.opcode value

/-- The bytes after the opcode of an instruction with a value. -/
def trail (e : Encoding) (value : Nat) : List UInt8 :=
  e.immediate?.elim [] fun kind => kind.bytes value

/-- The code of an instruction with a value. -/
def code (e : Encoding) (value : Nat) : List UInt8 := e.lead value :: e.trail value

/-- The size of an instruction is one byte for the opcode, and the bytes of its immediate. -/
lemma size_eq {e : Encoding} (h : e ∈ table) :
    e.size = 1 + e.immediate?.elim 0 Immediate.size := by
  have hall : ∀ e ∈ table, e.size = 1 + e.immediate?.elim 0 Immediate.size := by decide +kernel
  exact hall e h

/-- The bytes after the opcode are as many as the size of the row says. -/
lemma length_trail {e : Encoding} (h : e ∈ table) (value : Nat) :
    (e.trail value).length = e.size - 1 := by
  rw [size_eq h, trail]
  cases e.immediate? with
  | none => rfl
  | some kind => simp

/-- The code of a row has the size of the row. -/
lemma length_code {e : Encoding} (h : e ∈ table) (value : Nat) :
    (e.code value).length = e.size := by
  have hsize := size_eq h
  rw [code, List.length_cons, length_trail h]
  omega

/-- The immediate of a row is that of one of its slots. -/
lemma value_mem_slots {e : Encoding} {kind : Immediate} (h : e.immediate? = some kind) :
    Slot.value kind ∈ e.slots := by
  obtain ⟨slot, hslot, hkind⟩ := List.exists_of_findSome?_eq_some h
  cases slot with
  | register r => cases hkind
  | value i =>
    cases hkind
    exact hslot

/-- Every value of a row is encoded by its immediate. -/
lemma immediate?_eq {e : Encoding} (h : e ∈ table) {kind : Immediate}
    (hslot : Slot.value kind ∈ e.slots) : e.immediate? = some kind := by
  have hall : ∀ e ∈ table, ∀ slot ∈ e.slots,
      slot.immediate? = none ∨ slot.immediate? = e.immediate? := by
    decide +kernel
  rcases hall e h _ hslot with hnone | hsome
  · cases hnone
  · exact hsome.symm

/-! ## The row of an opcode -/

/-- The restart number in the opcode of a row. -/
def vector? (e : Encoding) (value : Nat) : Option Nat :=
  if e.immediate? = some .vector then some value else none

/-- The opcodes of a row are the first bytes of its code, over the restart numbers if it takes one.
-/
lemma mem_opcodes_iff {e : Encoding} {op : UInt8} {vector : Option Nat} :
    (op, vector) ∈ e.opcodes ↔
      ∃ value, (e.immediate? = some .vector → value ≤ 7) ∧
        op = e.lead value ∧ vector = e.vector? value := by
  unfold opcodes vector? lead
  by_cases hk : e.immediate? = some .vector
  · simp only [hk, if_true, List.mem_map, List.mem_range, Prod.mk.injEq, Option.elim_some,
      Immediate.merge, forall_const, Nat.lt_succ_iff, eq_comm]
  · have hlead : ∀ value, (e.immediate?.elim e.opcode fun kind => kind.merge e.opcode value) =
        e.opcode := by
      intro value
      cases hi : e.immediate? with
      | none => rfl
      | some kind =>
        cases kind with
        | byte | word => rfl
        | vector => exact absurd hi hk
    simp only [hk, if_false, List.mem_singleton, Prod.mk.injEq, hlead, false_implies, true_and,
      exists_const]

/-- The first byte of an instruction with a value that its row takes is one of its opcodes. -/
lemma lead_mem_opcodes {e : Encoding} {value : Nat} (hv : e.TakesValue value) :
    (e.lead value, e.vector? value) ∈ e.opcodes :=
  mem_opcodes_iff.2 ⟨value, fun hk => hv .vector hk, rfl, rfl⟩

/-- The row of an opcode is in the table and has the opcode. -/
lemma decode?_eq_some {op : UInt8} {e : Encoding} {vector : Option Nat}
    (h : decode? op = some (e, vector)) : e ∈ table ∧ (op, vector) ∈ e.opcodes := by
  obtain ⟨e', he', h⟩ := List.exists_of_findSome?_eq_some h
  obtain ⟨⟨op', vector'⟩, hfind, heq⟩ := Option.map_eq_some_iff.1 h
  have hop : op' = op := by simpa using List.find?_some hfind
  cases heq
  subst hop
  exact ⟨he', List.mem_of_find?_eq_some hfind⟩

/-- The move from memory to memory, which has the opcode of a halt. -/
def moveMemory : Encoding := ⟨.mov, [.register .m, .register .m], 0x76⟩

/-- The halt instruction. -/
def halt : Encoding := ⟨.hlt, [], 0x76⟩

/-- No opcode is that of the move from memory to memory. -/
lemma ne_moveMemory_of_decode? {op : UInt8} {e : Encoding} {vector : Option Nat}
    (h : decode? op = some (e, vector)) : e ≠ moveMemory := by
  rintro rfl
  have hop : (op, vector) ∈ [(moveMemory.opcode, none)] := (decode?_eq_some h).2
  obtain ⟨rfl, -⟩ := Prod.mk.inj (List.mem_singleton.1 hop)
  have hhalt : decode? moveMemory.opcode = some (halt, none) := by decide +kernel
  rw [hhalt, Option.some.injEq, Prod.mk.injEq] at h
  exact absurd h.1 (by decide)

/-- Numbers as the bits of one number `s`, with one more number; `none` if it is there. -/
def mark (s n : Nat) : Option Nat := if s.testBit n then none else some (s ||| 1 <<< n)

/-- Numbers that can be marked one after another are distinct. -/
lemma nodup_of_mark {ns : List Nat} {s : Nat} (h : (ns.foldlM mark s).isSome) :
    ns.Nodup ∧ ∀ n ∈ ns, s.testBit n = false := by
  induction ns generalizing s with
  | nil => simp
  | cons n ns ih =>
    rw [List.foldlM_cons, mark] at h
    by_cases hn : s.testBit n = true
    · simp [hn] at h
    · rw [if_neg hn] at h
      obtain ⟨hnodup, hset⟩ := ih h
      simp only [Nat.testBit_or, Nat.testBit_shiftLeft, Bool.or_eq_false_iff] at hset
      refine ⟨List.nodup_cons.2 ⟨fun hmem => ?_, hnodup⟩, fun k hk => ?_⟩
      · simpa using (hset n hmem).2
      · rcases List.mem_cons.1 hk with rfl | hk
        · simpa using hn
        · exact (hset k hk).1

/-- The rows other than the move from memory to memory, each with its opcodes. -/
def index : List (Encoding × UInt8 × Option Nat) :=
  (table.filter (· ≠ moveMemory)).flatMap fun e => e.opcodes.map fun o => (e, o)

/-- Rows other than the move from memory to memory have no opcode in common. -/
lemma nodup_index : (index.map fun i => i.2.1.toNat).Nodup := by
  -- marking the opcodes in one number is linear in the table, comparing them is not
  exact (nodup_of_mark (s := 0) (by decide +kernel)).1

/-- **The first byte of an instruction determines its row**, unless that is the move from memory to
memory.

**Proof sketch.** The row is in the table and has the opcode, so some row is found. That row has the
opcode too and is not the move from memory to memory, so it is the same row (`nodup_index`). -/
lemma decode?_lead {e : Encoding} (h : e ∈ table) (hne : e ≠ moveMemory) {value : Nat}
    (hv : e.TakesValue value) : decode? (e.lead value) = some (e, e.vector? value) := by
  have hmem := lead_mem_opcodes hv
  have hindex : ∀ e' vector, e' ∈ table → e' ≠ moveMemory → (e.lead value, vector) ∈ e'.opcodes →
      (e', e.lead value, vector) ∈ index := by
    intro e' vector he' hne' hop
    refine List.mem_flatMap.2 ⟨e', List.mem_filter.2 ⟨he', by simpa using hne'⟩, ?_⟩
    exact List.mem_map.2 ⟨_, hop, rfl⟩
  cases hfound : decode? (e.lead value) with
  | none =>
    have hnone := List.findSome?_eq_none_iff.1 hfound e h
    rw [Option.map_eq_none_iff, List.find?_eq_none] at hnone
    exact absurd (decide_eq_true rfl) (hnone _ hmem)
  | some found =>
    obtain ⟨e', vector⟩ := found
    obtain ⟨he', hop⟩ := decode?_eq_some hfound
    have heq := List.inj_on_of_nodup_map nodup_index
      (hindex e' vector he' (ne_moveMemory_of_decode? hfound) hop) (hindex e _ h hne hmem) rfl
    obtain ⟨rfl, hvector⟩ := Prod.mk.inj heq
    rw [(Prod.mk.inj hvector).2]

/-! ## Operands -/

/-- A member of the second of two corresponding lists corresponds to a member of the first. -/
lemma exists_mem_of_forall₂ {α β : Type} {R : α → β → Prop} {as : List α} {bs : List β}
    (h : List.Forall₂ R as bs) {b : β} (hb : b ∈ bs) : ∃ a ∈ as, R a b := by
  induction h with
  | nil => exact absurd hb List.not_mem_nil
  | @cons a b' as bs hab _ ih =>
    rcases List.mem_cons.1 hb with rfl | hb
    · exact ⟨a, by simp, hab⟩
    · obtain ⟨a', ha', hab'⟩ := ih hb
      exact ⟨a', List.mem_cons_of_mem _ ha', hab'⟩

/-- Operands have the form of a row: each slot takes the operand in its position. -/
def Takes (e : Encoding) (operands : List Operand) : Prop :=
  List.Forall₂ (fun slot o => fits slot o.register? = true) e.slots operands

/-- Operands hold an expression exactly when the row that takes them has an immediate. -/
lemma Takes.isSome_expressionOf {e : Encoding} {operands : List Operand} (h : e.Takes operands) :
    (Operand.expressionOf operands).isSome = e.immediate?.isSome := by
  unfold Takes at h
  unfold Operand.expressionOf immediate?
  generalize e.slots = slots at h ⊢
  induction h with
  | nil => rfl
  | @cons slot o slots operands hfits _ ih =>
    rw [List.findSome?_cons, List.findSome?_cons]
    cases slot with
    | register r =>
      cases o with
      | register r' => exact ih
      | expression x => simp [fits, Operand.register?] at hfits
    | value i =>
      cases o with
      | register r' => simp [fits, Operand.register?] at hfits
      | expression x => rfl

/-- Every slot before another takes a register, so that a value comes last. -/
lemma pairwise_slots {e : Encoding} (h : e ∈ table) :
    e.slots.Pairwise fun slot _ => slot.isRegister = true := by
  have hall : ∀ e ∈ table, e.slots.Pairwise fun slot _ => slot.isRegister = true := by
    decide +kernel
  exact hall e h

/-- Operands that a row takes hold at most one expression, which comes last. -/
lemma Takes.expressionOf_eq {e : Encoding} (h : e ∈ table) {operands : List Operand}
    (ht : e.Takes operands) {x : Expr} (hx : .expression x ∈ operands) :
    Operand.expressionOf operands = some x := by
  have hslots := pairwise_slots h
  unfold Takes at ht
  unfold Operand.expressionOf
  generalize e.slots = slots at ht hslots
  induction ht with
  | nil => exact absurd hx List.not_mem_nil
  | @cons slot o slots operands hfits hrest ih =>
    obtain ⟨hslot, hslots⟩ := List.pairwise_cons.1 hslots
    rcases List.mem_cons.1 hx with rfl | htail
    · rfl
    · cases o with
      | register r => exact ih htail hslots
      | expression y =>
        -- a slot that takes a value is the last one
        cases hrest with
        | nil => exact absurd htail List.not_mem_nil
        | @cons slot' _ _ _ _ _ =>
          have hregister := hslot slot' (by simp)
          cases slot with
          | register r => simp [fits, Operand.register?] at hfits
          | value kind => cases hregister

/-- The row that is selected for operands is a row of the mnemonic and takes them. -/
lemma select?_eq_some {m : Mnemonic} {operands : List Operand} {e : Encoding}
    (h : select? m (operands.map Operand.register?) = some e) :
    e ∈ table ∧ e.mnemonic = m ∧ e.Takes operands := by
  have hmem : e ∈ rows m := List.mem_of_find?_eq_some h
  have hfits := List.find?_some h
  simp only [rows, List.mem_filter, decide_eq_true_eq] at hmem
  simp only [Bool.and_eq_true, decide_eq_true_eq, List.length_map, List.all_eq_true] at hfits
  refine ⟨hmem.1, hmem.2, List.forall₂_iff_zip.2 ⟨hfits.1, fun {slot o} hzip => ?_⟩⟩
  refine hfits.2 (slot, o.register?) ?_
  rw [List.zip_map_right]
  exact List.mem_map.2 ⟨(slot, o), hzip, rfl⟩

/-! ## The row of a mnemonic and operands -/

/-- A number for the operands that a slot takes. -/
def slotKey : Slot → Nat
  | .register r => r.ctorIdx + 1
  | .value _ => 0

/-- A number for the mnemonic of a row and the operands that it takes. -/
def key (e : Encoding) : Nat :=
  (e.slots.map slotKey).foldl (fun n k => 11 * n + k) e.mnemonic.ctorIdx

/-- The operands that a row takes determine its slots, apart from the kinds of their values. -/
lemma Takes.map_slotKey {e : Encoding} {operands : List Operand} (h : e.Takes operands) :
    e.slots.map slotKey = operands.map fun o => o.register?.elim 0 fun r => r.ctorIdx + 1 := by
  unfold Takes at h
  generalize e.slots = slots at h ⊢
  induction h with
  | nil => rfl
  | @cons slot o slots operands hfits _ ih =>
    rw [List.map_cons, List.map_cons, ih]
    congr 1
    cases slot <;> cases o <;> simp_all [fits, Operand.register?, slotKey]

/-- **A row is selected for the operands that it takes.** No other row of the same mnemonic takes
them. -/
lemma Takes.select?_eq {e : Encoding} (h : e ∈ table) {operands : List Operand}
    (ht : e.Takes operands) : select? e.mnemonic (operands.map Operand.register?) = some e := by
  have hnodup : (table.map key).Nodup := (nodup_of_mark (s := 0) (by decide +kernel)).1
  cases hselect : select? e.mnemonic (operands.map Operand.register?) with
  | none =>
    have hrow : e ∈ rows e.mnemonic := List.mem_filter.2 ⟨h, by simp⟩
    have hnone := List.find?_eq_none.1 hselect e hrow
    refine absurd ?_ hnone
    simp only [Bool.and_eq_true, decide_eq_true_eq, List.length_map, List.all_eq_true]
    refine ⟨ht.length_eq, fun p hp => ?_⟩
    rw [List.zip_map_right] at hp
    obtain ⟨⟨slot, o⟩, hzip, rfl⟩ := List.mem_map.1 hp
    exact List.forall₂_zip ht hzip
  | some e' =>
    obtain ⟨h', hmnemonic, ht'⟩ := select?_eq_some hselect
    have hkey : key e' = key e := by rw [key, key, hmnemonic, ht'.map_slotKey, ht.map_slotKey]
    rw [List.inj_on_of_nodup_map hnodup h' h hkey]

/-- The number of operands in every form of a mnemonic. -/
def arity : Mnemonic → Nat
  | .mov | .mvi | .lxi => 2
  | .nop | .rlc | .rrc | .ral | .rar | .daa | .cma | .stc | .cmc | .hlt
  | .rnz | .rz | .ret | .rnc | .rc | .rpo | .rpe | .rp | .rm
  | .xthl | .pchl | .xchg | .sphl | .di | .ei => 0
  | _ => 1

/-- All rows of a mnemonic have the same number of slots. -/
lemma operandCount_eq {e : Encoding} (h : e ∈ table) :
    operandCount e.mnemonic = e.slots.length := by
  have hall : ∀ e ∈ table, e.slots.length = arity e.mnemonic := by decide +kernel
  have hrow : e ∈ rows e.mnemonic := List.mem_filter.2 ⟨h, by simp⟩
  unfold operandCount forms
  cases hrows : rows e.mnemonic with
  | nil =>
    rw [hrows] at hrow
    exact absurd hrow List.not_mem_nil
  | cons e' es =>
    have hfirst : e' ∈ rows e.mnemonic := by simp [hrows]
    obtain ⟨htable, hmnemonic⟩ := List.mem_filter.1 hfirst
    rw [List.map_cons, List.headD_cons, hall e' htable, hall e h, of_decide_eq_true hmnemonic]

/-- A mnemonic takes a register where one of its rows does, and a value likewise. -/
lemma accepts_slot {e : Encoding} (h : e ∈ table) {index : Nat} {slot : Slot}
    (hslot : e.slots[index]? = some slot) :
    if slot.isRegister then acceptsRegister e.mnemonic index = true
    else acceptsValue e.mnemonic index = true := by
  have hform : e.slots ∈ forms e.mnemonic :=
    List.mem_map.2 ⟨e, List.mem_filter.2 ⟨h, by simp⟩, rfl⟩
  split_ifs with hregister
  · exact List.any_eq_true.2 ⟨e.slots, hform, by simp [hslot, hregister]⟩
  · exact List.any_eq_true.2 ⟨e.slots, hform, by simp [hslot, hregister]⟩

end Encoding

end Asm8080
