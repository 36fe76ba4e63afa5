import Mathlib.Data.List.Perm.Subperm
import Mathlib.Logic.Relation
import Asm8080.Proofs.Disassembly.Decode

/-!
# A disassembly divides the data

A lenient disassembler goes through the data from one instruction to the next. An undocumented
opcode takes up one byte, and the next instruction begins after it; an instruction that the data
cuts short is the last one, and each of its bytes is a record of its own. Every byte of the data is
in exactly one record, and a record is an error exactly where the bytes say so.

## Main definitions

* `Asm8080.Encoding.undocumented` — the opcodes that begin no instruction.
* `Asm8080.Disassembly.Boundary` — the offsets at which an instruction is expected.
* `Asm8080.Disassembly.Cut` — an instruction at an offset is longer than the data.
* `Asm8080.Record.StandsAt` — what a record at an offset says about the data.

## Main results

* `Asm8080.readArguments?_isSome_iff` — operands can be read exactly when the data is long enough.
* `Asm8080.Disassembly.Cut.eq_of_boundary` — no instruction is expected after one that is cut short.
* `Asm8080.Disassembler.exists_next_stands`, `Asm8080.Disassembler.exists_scan_stands` — the next
  record, and all records.
* `Asm8080.Disassembler.disassemble_divides` — a lenient disassembly divides the data.
-/

set_option autoImplicit false

namespace Asm8080

/-! ## Opcodes -/

namespace Encoding

/-- The opcodes that begin no instruction. -/
def undocumented : List UInt8 :=
  [0x08, 0x10, 0x18, 0x20, 0x28, 0x30, 0x38, 0xCB, 0xD9, 0xDD, 0xED, 0xFD]

/-- The opcodes of the rows, and then the undocumented ones, as numbers. -/
def allOpcodes : List Nat := (index.map fun i => i.2.1.toNat) ++ undocumented.map UInt8.toNat

/-- Every byte is the opcode of a row, or undocumented: there are as many of these as there are
bytes, and no two are equal. -/
lemma mem_allOpcodes (op : UInt8) : op.toNat ∈ allOpcodes := by
  have hnodup : allOpcodes.Nodup := (nodup_of_mark (s := 0) (by decide +kernel)).1
  have hlength : allOpcodes.length = 256 := by decide +kernel
  have hsubset : allOpcodes ⊆ List.range 256 := by
    refine List.append_subset.2 ⟨fun n hn => ?_, fun n hn => ?_⟩
    · obtain ⟨i, -, rfl⟩ := List.mem_map.1 hn
      exact List.mem_range.2 i.2.1.toNat_lt
    · obtain ⟨op, -, rfl⟩ := List.mem_map.1 hn
      exact List.mem_range.2 op.toNat_lt
  have hperm := (List.subperm_of_subset hnodup hsubset).perm_of_length_le
    (Nat.le_of_eq (List.length_range.trans hlength.symm))
  exact hperm.mem_iff.2 (List.mem_range.2 op.toNat_lt)

/-- **The table has an instruction for every documented opcode**, and for no other. -/
lemma decode?_eq_none_iff {op : UInt8} : decode? op = none ↔ op ∈ undocumented := by
  constructor
  · intro hnone
    rcases List.mem_append.1 (mem_allOpcodes op) with hmem | hmem
    · obtain ⟨⟨e, op', vector⟩, hindex, hop⟩ := List.mem_map.1 hmem
      obtain ⟨e', he', hrow⟩ := List.mem_flatMap.1 hindex
      obtain ⟨o, ho, heq⟩ := List.mem_map.1 hrow
      cases heq
      -- the row of an opcode is found, be it this one or one before it
      have hfind := List.findSome?_eq_none_iff.1 hnone e (List.mem_filter.1 he').1
      rw [Option.map_eq_none_iff, List.find?_eq_none] at hfind
      exact absurd (decide_eq_true (UInt8.toNat.inj hop)) (hfind _ ho)
    · obtain ⟨op', hop', heq⟩ := List.mem_map.1 hmem
      rwa [← UInt8.toNat.inj heq]
  · intro hmem
    have hall : ∀ op ∈ undocumented, decode? op = none := by decide +kernel
    exact hall op hmem

/-- An instruction has one, two or three bytes. -/
lemma size_le {e : Encoding} (h : e ∈ table) : 1 ≤ e.size ∧ e.size ≤ 3 := by
  have hsize : ∀ kind : Immediate, kind.size ≤ 2 := by
    intro kind
    cases kind <;> decide
  rw [size_eq h]
  cases e.immediate? with
  | none => simp
  | some kind =>
    have := hsize kind
    simp only [Option.elim_some]
    omega

end Encoding

/-- The operands of an instruction can be read exactly when the data has all its bytes. -/
lemma readArguments?_isSome_iff {e : Encoding} (h : e ∈ Encoding.table) {op : UInt8}
    {vector : Option Nat} (hop : (op, vector) ∈ e.opcodes) {rest : List UInt8} :
    (readArguments? e vector rest).isSome = true ↔ e.size ≤ rest.length + 1 := by
  constructor
  · intro hread
    obtain ⟨arguments, hread⟩ := Option.isSome_iff_exists.1 hread
    obtain ⟨value, rest', -, -, -, rfl⟩ := exists_trail_of_readArguments? hop hread
    have hlength := Encoding.length_trail h value
    rw [List.length_append]
    omega
  · intro hsize
    rw [Encoding.size_eq h] at hsize
    -- every slot finds its operand, since the data has the bytes of the immediate
    have hslot : ∀ slot ∈ e.slots, ∃ argument, readArgument? vector rest slot = some argument := by
      intro slot hslot
      cases slot with
      | register r => exact ⟨_, rfl⟩
      | value kind =>
        have hkind := Encoding.immediate?_eq h hslot
        simp only [hkind, Option.elim_some] at hsize
        cases kind with
        | byte =>
          match rest, hsize with
          | _ :: _, _ => exact ⟨_, rfl⟩
        | word =>
          match rest, hsize with
          | _ :: _ :: _, _ => exact ⟨_, rfl⟩
        | vector =>
          obtain ⟨value, -, -, rfl⟩ := Encoding.mem_opcodes_iff.1 hop
          exact ⟨.vector value, by simp [readArgument?, Encoding.vector?, hkind]⟩
    have hread : ∀ slot ∈ e.slots, readArgument? vector rest slot =
        some ((readArgument? vector rest slot).getD (.vector 0)) := by
      intro slot hmem
      obtain ⟨argument, hargument⟩ := hslot slot hmem
      rw [hargument, Option.getD_some]
    rw [readArguments?, mapM_eq_some_map hread, Option.isSome_some]

/-! ## Where instructions begin -/

namespace Disassembly

/-- After what begins at one offset, the next instruction is expected at another: after one byte if
that is an undocumented opcode, and after a whole instruction. -/
inductive Follows (data : List UInt8) : Nat → Nat → Prop
  | undocumented {offset : Nat} {byte : UInt8} (hbyte : data[offset]? = some byte)
      (h : byte ∈ Encoding.undocumented) : Follows data offset (offset + 1)
  | instruction {offset : Nat} {byte : UInt8} {e : Encoding} {vector : Option Nat}
      (hbyte : data[offset]? = some byte) (h : Encoding.decode? byte = some (e, vector))
      (hfits : offset + e.size ≤ data.length) : Follows data offset (offset + e.size)

/-- The offsets at which an instruction is expected, from the first one on. -/
def Boundary (data : List UInt8) (offset : Nat) : Prop :=
  Relation.ReflTransGen (Follows data) 0 offset

/-- The instruction that begins at an offset is longer than the data that is left. -/
structure Cut (data : List UInt8) (offset : Nat) : Prop where
  boundary : Boundary data offset
  exceeds : ∃ byte e vector, data[offset]? = some byte ∧
    Encoding.decode? byte = some (e, vector) ∧ data.length < offset + e.size

variable {data : List UInt8} {offset : Nat}

/-- The first byte of an instruction is not undocumented. -/
lemma notMem_undocumented {byte byte' : UInt8} {e : Encoding} {vector : Option Nat}
    (hbyte : data[offset]? = some byte) (hd : Encoding.decode? byte = some (e, vector))
    (hbyte' : data[offset]? = some byte') : byte' ∉ Encoding.undocumented := by
  obtain rfl := Option.some.inj (hbyte.symm.trans hbyte')
  intro hundocumented
  cases (Encoding.decode?_eq_none_iff.2 hundocumented).symm.trans hd

/-- What begins at an offset determines where the next instruction is expected. -/
lemma rightUnique_follows : Relator.RightUnique (Follows data) := by
  intro offset next next' h h'
  cases h with
  | undocumented hbyte hu =>
    cases h' with
    | undocumented => rfl
    | instruction hbyte' hd => exact absurd hu (notMem_undocumented hbyte' hd hbyte)
  | instruction hbyte hd =>
    cases h' with
    | undocumented hbyte' hu => exact absurd hu (notMem_undocumented hbyte hd hbyte')
    | instruction hbyte' hd' =>
      obtain rfl := Option.some.inj (hbyte.symm.trans hbyte')
      cases hd.symm.trans hd'
      rfl

/-- The next instruction is expected further on. -/
lemma Follows.le {next : Nat} (h : Follows data offset next) : offset ≤ next := by
  cases h with
  | undocumented => omega
  | instruction => omega

/-- Boundaries are reached in ascending order. -/
lemma le_of_reaches {next : Nat} (h : Relation.ReflTransGen (Follows data) offset next) :
    offset ≤ next := by
  induction h with
  | refl => exact Nat.le_refl _
  | tail _ hstep ih => exact Nat.le_trans ih hstep.le

namespace Cut

/-- Nothing follows an instruction that is cut short. -/
lemma not_follows (h : Cut data offset) (next : Nat) : ¬Follows data offset next := by
  obtain ⟨byte, e, vector, hbyte, hd, hexceeds⟩ := h.exceeds
  intro hfollows
  cases hfollows with
  | undocumented hbyte' hu => exact notMem_undocumented hbyte hd hbyte' hu
  | instruction hbyte' hd' hfits =>
    obtain rfl := Option.some.inj (hbyte.symm.trans hbyte')
    cases hd.symm.trans hd'
    omega

/-- **No instruction is expected after one that is cut short.**

**Proof sketch.** Of two boundaries one is reached from the other, since what follows an offset is
determined. Nothing is reached from the one that is cut short but itself. -/
lemma eq_of_boundary {cut : Nat} (h : Cut data cut) (hoffset : Boundary data offset)
    (hle : cut ≤ offset) : cut = offset := by
  rcases Relation.ReflTransGen.total_of_right_unique rightUnique_follows h.boundary hoffset with
    hreaches | hreaches
  · rcases Relation.ReflTransGen.cases_head hreaches with heq | ⟨next, hnext, -⟩
    · exact heq
    · exact absurd hnext (h.not_follows next)
  · exact Nat.le_antisymm hle (le_of_reaches hreaches)

/-- At most two bytes are left of an instruction that is cut short. -/
lemma length_le (h : Cut data offset) : data.length ≤ offset + 2 := by
  obtain ⟨byte, e, vector, -, hd, hexceeds⟩ := h.exceeds
  have hsize := (Encoding.size_le (Encoding.decode?_eq_some hd).1).2
  omega

end Cut

end Disassembly

/-! ## Records -/

open Disassembly (Boundary Cut)

/-- **What a record at an offset says about the data**, which stands at the address `start`. -/
structure Record.StandsAt (d : Disassembler) (start : Nat) (data : List UInt8) (offset : Nat)
    (r : Record) : Prop where
  address_eq : r.address = (start + offset : Nat)
  address_le : r.address ≤ 0xFFFF
  bytes_eq : r.bytes = (data.drop offset).take r.size
  opcode_eq : r.bytes.head? = some r.opcode
  size_eq : r.size = r.bytes.length
  size_mem : 1 ≤ r.size ∧ r.size ≤ 3
  /-- It is an error exactly if it is an undocumented opcode where an instruction is expected, or if
  it belongs to the last bytes, at most two, of an instruction that is cut short. -/
  error_iff : r.error?.isSome = true ↔
    (Boundary data offset ∧ r.opcode ∈ Encoding.undocumented) ∨
      ∃ cut, Cut data cut ∧ cut ≤ offset ∧ data.length ≤ cut + 2
  /-- An error places its one byte, and names its address and its byte. -/
  of_error : ∀ error ∈ r.error?, r.size = 1 ∧ r.bytes = [r.opcode] ∧ r.mnemonic = "DB" ∧
    r.operands = [Hex.literal 2 r.opcode.toNat] ∧ error.address = r.address ∧
    error.byte = r.opcode
  /-- Any other record is the instruction of the table that its first byte begins, with the operands
  that its bytes hold. -/
  of_instruction : r.error? = none → ∃ e value, Boundary data offset ∧
    Encoding.decode? r.opcode = some (e, e.vector? value) ∧ r.bytes = e.code value ∧
    r.size = e.size ∧ r.mnemonic = e.mnemonic.name ∧
    r.operands = (e.arguments value).map Argument.text ∧
    r.content = .instruction e (e.arguments value) (d.nameFor (e.arguments value))

/-- The number of bytes of records. -/
def Record.totalSize (rs : List Record) : Nat := rs.foldr (fun r n => r.size + n) 0

namespace Disassembler

variable {d : Disassembler} {data : List UInt8} {start offset : Nat}

/-- What is expected at an offset: the rest of an instruction that is cut short, or the next
instruction. -/
def Awaits (data : List UInt8) (offset : Nat) : Bool → Prop
  | true => ∃ cut, Cut data cut ∧ cut ≤ offset
  | false => Boundary data offset

/-- The data at an offset. -/
lemma getElem?_of_drop {byte : UInt8} {rest : List UInt8} (h : data.drop offset = byte :: rest) :
    data[offset]? = some byte ∧ data.length = offset + (rest.length + 1) := by
  have hhead : (data.drop offset).head? = some byte := by rw [h]; rfl
  have hlength := congrArg List.length h
  rw [List.head?_drop] at hhead
  rw [List.length_drop, List.length_cons] at hlength
  exact ⟨hhead, by omega⟩

/-- A byte that begins no instruction is a record of its own. -/
lemma standsAt_data (hspace : start + data.length ≤ 0x10000) {byte : UInt8} {rest : List UInt8}
    (hdata : data.drop offset = byte :: rest) (problem : Problem)
    (herror : (Boundary data offset ∧ byte ∈ Encoding.undocumented) ∨
      ∃ cut, Cut data cut ∧ cut ≤ offset) :
    Record.StandsAt d start data offset
      ⟨(start + offset : Nat), byte, .data problem, [byte]⟩ where
  address_eq := rfl
  address_le := by
    have hlength := (getElem?_of_drop hdata).2
    simp only
    omega
  bytes_eq := by simp only [hdata, Record.size, List.take_succ_cons, List.take_zero]
  opcode_eq := rfl
  size_eq := rfl
  size_mem := ⟨Nat.le_refl 1, by simp [Record.size]⟩
  error_iff := by
    simp only [Record.error?, Option.isSome_some, true_iff]
    refine herror.imp_right ?_
    rintro ⟨cut, hcut, hle⟩
    exact ⟨cut, hcut, hle, hcut.length_le⟩
  of_error := by
    rintro error ⟨⟩
    exact ⟨rfl, rfl, rfl, rfl, rfl, rfl⟩
  of_instruction h := by cases h

/-- An instruction that the data has in full is a record. -/
lemma standsAt_instruction (hspace : start + data.length ≤ 0x10000)
    (hboundary : Boundary data offset) {e : Encoding} (htable : e ∈ Encoding.table) {value : Nat}
    {rest : List UInt8} (hdecode : Encoding.decode? (e.lead value) = some (e, e.vector? value))
    (hdata : data.drop offset = e.code value ++ rest) :
    (d.accept (start + offset : Nat) (e.lead value) e (e.arguments value)
      (e.code value)).StandsAt d start data offset := by
  have hfront : data.drop offset = e.lead value :: (e.trail value ++ rest) := hdata
  obtain ⟨hbyte, hlength⟩ := getElem?_of_drop hfront
  have hcode := Encoding.length_code htable value
  have htrail := Encoding.length_trail htable value
  have hsize := Encoding.size_le htable
  have hfits : offset + e.size ≤ data.length := by
    rw [hlength, List.length_append]
    omega
  refine ⟨rfl, ?_, ?_, rfl, hcode.symm, hsize, ?_, ?_, fun _ => ?_⟩
  · simp only [accept]
    omega
  · simp only [accept, Record.size, hdata, ← hcode, List.take_left]
  · -- an instruction that is in the data is neither undocumented nor cut short
    simp only [accept, Record.error?, Option.isSome_none, Bool.false_eq_true, false_iff]
    rintro (⟨-, hundocumented⟩ | ⟨cut, hcut, hle, -⟩)
    · exact Disassembly.notMem_undocumented hbyte hdecode hbyte hundocumented
    · obtain rfl := hcut.eq_of_boundary hboundary hle
      exact hcut.not_follows _ (.instruction hbyte hdecode hfits)
  · rintro error ⟨⟩
  · exact ⟨e, value, hboundary, hdecode, rfl, rfl, rfl, rfl, rfl⟩

/-- **The next record** of a lenient disassembly, and what is expected after it.

**Proof sketch.** After an instruction that is cut short, every byte is an error. Otherwise the
opcode is undocumented, or it begins an instruction that the data cuts short, or one that the data
has in full. -/
lemma exists_next_stands (hd : d.strict = false) (hspace : start + data.length ≤ 0x10000)
    {byte : UInt8} {rest : List UInt8} (hdata : data.drop offset = byte :: rest) {cut : Bool}
    (hawaits : Awaits data offset cut) :
    ∃ r : Record, (if cut then d.refuse (start + offset : Nat) byte .operand
        else d.decodeFront (start + offset : Nat) byte rest) = .ok r ∧
      r.StandsAt d start data offset ∧ Awaits data (offset + r.size) (cut || isCut r) := by
  obtain ⟨hbyte, hlength⟩ := getElem?_of_drop hdata
  cases cut with
  | true =>
    obtain ⟨first, hcut, hle⟩ := hawaits
    exact ⟨_, refuse_eq hd _ _ _, standsAt_data hspace hdata _ (.inr ⟨first, hcut, hle⟩),
      first, hcut, Nat.le_add_right_of_le hle⟩
  | false =>
    have hboundary : Boundary data offset := hawaits
    simp only [Bool.false_eq_true, if_false, Bool.false_or]
    unfold decodeFront
    cases hdecode : Encoding.decode? byte with
    | none =>
      have hundocumented := Encoding.decode?_eq_none_iff.1 hdecode
      exact ⟨_, refuse_eq hd _ _ _, standsAt_data hspace hdata _ (.inl ⟨hboundary, hundocumented⟩),
        hboundary.tail (.undocumented hbyte hundocumented)⟩
    | some found =>
      obtain ⟨e, vector⟩ := found
      obtain ⟨htable, hop⟩ := Encoding.decode?_eq_some hdecode
      have hfits : (readArguments? e vector rest).isSome = true ↔ e.size ≤ rest.length + 1 :=
        readArguments?_isSome_iff htable hop
      simp only
      cases hread : readArguments? e vector rest with
      | none =>
        have hlong : rest.length + 1 < e.size := by
          rw [← Nat.not_le, ← hfits, hread]
          exact Bool.false_ne_true
        have hcut : Cut data offset :=
          ⟨hboundary, byte, e, vector, hbyte, hdecode, by omega⟩
        exact ⟨_, refuse_eq hd _ _ _,
          standsAt_data hspace hdata _ (.inr ⟨offset, hcut, Nat.le_refl _⟩),
          offset, hcut, Nat.le_add_right _ _⟩
      | some arguments =>
        have hsize := hfits.1 (by rw [hread]; rfl)
        obtain ⟨value, rest', hlt, rfl, rfl, rfl⟩ := exists_trail_of_readArguments? hop hread
        have hv : e.TakesValue value := fun kind hk => Immediate.takes_of_lt (hlt kind hk)
        rw [readArguments?_trail htable hv] at hread
        cases hread
        rw [List.take_left' (Encoding.length_trail htable value)]
        exact ⟨_, rfl, standsAt_instruction hspace hboundary htable hdecode hdata,
          hboundary.tail (.instruction hbyte hdecode (by omega))⟩

/-- **All records** of a lenient disassembly from an offset on: their bytes are the data, and each
stands at the offset after those before it.

**Proof sketch.** Induction on the length of the data that is left. The next record takes up at
least one byte, and what is expected after it is what the scan expects. -/
lemma exists_scan_stands (hd : d.strict = false) (hspace : start + data.length ≤ 0x10000)
    (offset : Nat) (cut : Bool) (hawaits : Awaits data offset cut) (done : Array Record) :
    ∃ rs, d.scan none done (start + offset) cut (data.drop offset) = (done.toList ++ rs, none) ∧
      rs.flatMap Record.bytes = data.drop offset ∧
      ∀ before r after, rs = before ++ r :: after →
        r.StandsAt d start data (offset + Record.totalSize before) := by
  induction hn : data.length - offset using Nat.strongRecOn generalizing offset cut done with
  | ind n ih =>
    cases hdata : data.drop offset with
    | nil =>
      rw [scan]
      exact ⟨[], by simp, rfl, fun before r after h => by simp at h⟩
    | cons byte rest =>
      obtain ⟨-, hlength⟩ := getElem?_of_drop hdata
      obtain ⟨r, hr, hstands, hnext⟩ := exists_next_stands hd hspace hdata hawaits
      have hsize := hstands.size_mem.1
      have hdrop : rest.drop (r.size - 1) = data.drop (offset + r.size) := by
        rw [← List.drop_drop, hdata, ← List.drop_succ_cons, Nat.sub_add_cancel hsize]
      obtain ⟨rs, hscan, hbytes, hall⟩ :=
        ih _ (by omega) (offset + r.size) (cut || isCut r) hnext (done.push r) rfl
      refine ⟨r :: rs, ?_, ?_, ?_⟩
      · rw [scan]
        simp only [Option.any_none, Bool.false_eq_true, if_false, hr, hdrop, Nat.add_assoc, hscan]
        simp
      · rw [List.flatMap_cons, hbytes, hstands.bytes_eq, hdata, ← List.drop_drop, hdata,
          List.take_append_drop]
      · intro before r' after hsplit
        cases before with
        | nil =>
          obtain ⟨rfl, -⟩ := List.cons.inj hsplit
          exact hstands
        | cons first before =>
          obtain ⟨rfl, htail⟩ := List.cons.inj hsplit
          have hr' := hall before r' after htail
          rwa [Nat.add_assoc] at hr'

/-- **A lenient disassembly divides the data.** From any address on, it has no fault. The bytes of
its records, put together, are the data that is in the address space. Each record stands at the
address after the bytes of those before it and takes up one to three bytes. It is an error exactly
where an undocumented opcode stands in the place of an instruction, or where the data ends within an
instruction; it is then one byte of data, and otherwise the instruction that its first byte begins.

**Proof sketch.** The flag that the scan carries says whether an instruction was cut short
(`Awaits`), so that the next record is what the boundaries of the data call for
(`exists_next_stands`); the records follow one another (`exists_scan_stands`). -/
theorem disassemble_divides (hd : d.strict = false) (data : List UInt8) {start : Nat}
    (hstart : start ≤ 0xFFFF) :
    (d.disassemble data start none).fault = none ∧
      (d.disassemble data start none).records.flatMap Record.bytes = data.take (0x10000 - start) ∧
      ∀ before r after, (d.disassemble data start none).records = before ++ r :: after →
        r.StandsAt d start (data.take (0x10000 - start)) (Record.totalSize before) := by
  have hrange : 0 ≤ (start : Int) ∧ (start : Int) < 0x10000 := by omega
  have hspace : start + (data.take (0x10000 - start)).length ≤ 0x10000 := by
    rw [List.length_take]
    omega
  obtain ⟨rs, hscan, hbytes, hall⟩ :=
    exists_scan_stands hd hspace 0 false Relation.ReflTransGen.refl #[]
  rw [Nat.add_zero, List.drop_zero] at hscan
  unfold disassemble
  simp only [hrange, and_self, if_true, Int.toNat_natCast, hscan]
  refine ⟨rfl, hbytes, fun before r after hsplit => ?_⟩
  rw [← Nat.zero_add (Record.totalSize before)]
  exact hall before r after hsplit

/-- Data with an undocumented opcode, an instruction of two bytes, and one that the end of the
address space cuts short. -/
def sampleData : List UInt8 := [0xCB, 0x3E, 0xCB, 0xC3, 0x08, 0x00]

/-- The sample, up to the end of the address space: an error, an instruction, and two errors. -/
theorem disassemble_sampleData :
    (({} : Disassembler).disassemble sampleData 0xFFFB none).fault = none ∧
      (({} : Disassembler).disassemble sampleData 0xFFFB none).records.flatMap Record.bytes =
        [0xCB, 0x3E, 0xCB, 0xC3, 0x08] ∧
      (({} : Disassembler).disassemble sampleData 0xFFFB none).records.map
        (fun r => (r.address, r.error?.isSome)) =
        [(0xFFFB, true), (0xFFFC, false), (0xFFFE, true), (0xFFFF, true)] := by
  obtain ⟨hfault, hbytes, -⟩ :=
    @disassemble_divides {} rfl sampleData 0xFFFB (by decide)
  exact ⟨hfault, hbytes, by decide +kernel⟩

end Disassembler

end Asm8080
