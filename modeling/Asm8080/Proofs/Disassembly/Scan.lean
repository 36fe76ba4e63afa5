import Asm8080.Proofs.Assembly.Bytes
import Asm8080.Proofs.Disassembly.Decode
import Asm8080.Proofs.Statement.WellFormed

/-!
# Reading all instructions

The disassembler goes through the data record by record. A lenient one always succeeds, and the
bytes of its records are the data, up to the record at which it was told to stop. Data that is the
code of instructions is read as those instructions, with nothing between them; only `MOV M,M` is
read as `HLT`, which has the same code.

## Main definitions

* `Asm8080.Record.Shows` — a record shows an instruction as it is written in the source.

## Main results

* `Asm8080.Disassembler.disassemble_faithful` — a lenient disassembly is faithful to the data.
* `Asm8080.Disassembler.disassemble_encoded` — decoding undoes encoding.
-/

set_option autoImplicit false

namespace Asm8080

namespace Disassembler

variable {d : Disassembler}

/-! ## Arbitrary data -/

/-- The record that comes next in a lenient disassembly. -/
lemma exists_next (hd : d.strict = false) (cut : Bool) (address : Int) (byte : UInt8)
    (rest : List UInt8) :
    ∃ r, (if cut then d.refuse address byte .operand else d.decodeFront address byte rest) = .ok r ∧
      r.Faithful d ∧ byte :: rest = r.bytes ++ rest.drop (r.size - 1) := by
  cases cut with
  | true => exact ⟨_, refuse_eq hd _ _ _, rfl, rfl⟩
  | false =>
    obtain ⟨r, hr, hfaithful, -, hbytes⟩ := exists_decodeFront hd address byte rest
    exact ⟨r, hr, hfaithful, hbytes⟩

/-- **A lenient disassembly** succeeds. Its records are faithful, and their bytes are the data, or
its beginning if there is a limit on the number of records.

**Proof sketch.** Induction on the length of the data: the next record takes at least one byte, and
what is left after its bytes is read in the same way. -/
lemma exists_scan (hd : d.strict = false) (count : Option Int) (data : List UInt8)
    (done : Array Record) (address : Nat) (cut : Bool) :
    ∃ rs, d.scan count done address cut data = (done.toList ++ rs, none) ∧
      (∀ r ∈ rs, r.Faithful d) ∧ rs.flatMap Record.bytes <+: data ∧
      (count = none → rs.flatMap Record.bytes = data) := by
  induction hn : data.length using Nat.strongRecOn generalizing data done address cut with
  | ind n ih =>
    cases data with
    | nil =>
      rw [scan]
      exact ⟨[], by simp, by simp, List.prefix_rfl, fun _ => rfl⟩
    | cons byte rest =>
      rw [scan]
      by_cases hstop : (count.any fun n => n ≤ (done.size : Int)) = true
      · rw [if_pos hstop]
        refine ⟨[], by simp, by simp, List.nil_prefix, ?_⟩
        rintro rfl
        cases hstop
      · rw [if_neg hstop]
        obtain ⟨r, hr, hfaithful, hbytes⟩ := exists_next hd cut address byte rest
        have hlt : (rest.drop (r.size - 1)).length < n := by
          rw [← hn, List.length_cons, List.length_drop]
          omega
        obtain ⟨rs, hscan, hrs, hprefix, hall⟩ := ih _ hlt (rest.drop (r.size - 1)) (done.push r)
          (address + r.size) (cut || isCut r) rfl
        refine ⟨r :: rs, ?_, List.forall_mem_cons.2 ⟨hfaithful, hrs⟩, ?_, fun hcount => ?_⟩
        · simp only [hr, hscan]
          simp
        · rw [List.flatMap_cons, hbytes]
          exact (List.prefix_append_right_inj _).2 hprefix
        · rw [List.flatMap_cons, hall hcount, ← hbytes]

/-- **A lenient disassembly is faithful.** It has no fault, its records are faithful, and their
bytes are the first bytes of the data that is in the address space, all of them if there is no
count. -/
lemma disassemble_faithful (hd : d.strict = false) (data : List UInt8) {start : Nat}
    (hstart : start < 0x10000) (count : Option Int) :
    (d.disassemble data start count).fault = none ∧
      (∀ r ∈ (d.disassemble data start count).records, r.Faithful d) ∧
      (d.disassemble data start count).records.flatMap Record.bytes <+:
        data.take (0x10000 - start) ∧
      (count = none → (d.disassemble data start count).records.flatMap Record.bytes =
        data.take (0x10000 - start)) := by
  have hrange : 0 ≤ (start : Int) ∧ (start : Int) < 0x10000 := by omega
  obtain ⟨rs, hscan, hfaithful⟩ :=
    exists_scan hd count (data.take (0x10000 - start)) #[] start false
  unfold disassemble
  simp only [hrange, and_self, if_true, Int.toNat_natCast, hscan]
  exact ⟨rfl, hfaithful⟩

/-! ## The code of instructions -/

/-- The code of an instruction is one record, and the rest of the data is read after it. -/
lemma scan_code (d : Disassembler) {e : Encoding} (h : e ∈ Encoding.table)
    (hne : e ≠ Encoding.moveMemory) {value : Nat} (hv : e.TakesValue value) (done : Array Record)
    (address : Nat) (rest : List UInt8) :
    d.scan none done address false (e.code value ++ rest) =
      d.scan none (done.push (d.accept address (e.lead value) e (e.arguments value) (e.code value)))
        (address + e.size) false rest := by
  have hdrop : (e.trail value ++ rest).drop (e.size - 1) = rest :=
    List.drop_left' (Encoding.length_trail h value)
  rw [Encoding.code, List.cons_append, scan]
  simp only [Option.any_none, Bool.false_eq_true, if_false, decodeFront_code d address h hne hv]
  simp only [accept, Record.size, isCut, Bool.or_self, hdrop, Encoding.code]

end Disassembler

/-! ## Instructions as they are written -/

/-- A value as the disassembler writes it: a byte and a word in hexadecimal, a restart number in
decimal. -/
def Immediate.shown : Immediate → Nat → String
  | byte, value => Hex.literal 2 ((value % 0x100 : Nat) : Int)
  | word, value => Hex.literal 4 (value : Int)
  | vector, value => toString value

/-- An operand of an instruction is shown as the name of its register, or as the value of its
expression. -/
def Operand.ShownAs (symbols : SymbolTable) (here : Nat) (text : String) (e : Encoding) :
    Operand → String → Prop
  | register r, shown => shown = r.name
  | expression x, shown => ∃ kind value, e.immediate? = some kind ∧
      x.evaluate symbols here (some text) = .ok value ∧ shown = kind.shown value

/-- A record shows an instruction as it is written in the source: the same mnemonic, the same
registers and the value of the expression. The move from memory to memory is shown as a halt. -/
structure Record.Shows (symbols : SymbolTable) (here : Nat) (s : Statement) (e : Encoding)
    (operands : List Operand) (r : Record) : Prop where
  error?_eq : r.error? = none
  size_eq : r.size = e.size
  moveMemory : e = .moveMemory → r.mnemonic = "HLT" ∧ r.operands = []
  mnemonic_eq : e ≠ .moveMemory → r.mnemonic = e.mnemonic.name
  operands_shown : e ≠ .moveMemory →
    List.Forall₂ (Operand.ShownAs symbols here s.text e) operands r.operands

/-- An argument that is a value is written as the value. -/
lemma Slot.text_argument (kind : Immediate) (value : Nat) :
    (Slot.argument value (.value kind)).text = kind.shown value := by
  cases kind with
  | byte => simp only [argument, Argument.text, Immediate.shown, UInt8.toNat_ofNat']
  | word | vector => rfl

/-- The operands of an instruction are shown by the arguments of its row with its value. -/
lemma Encoding.Takes.shown {e : Encoding} (h : e ∈ table) {operands : List Operand}
    (ht : e.Takes operands) {symbols : SymbolTable} {here : Nat} {text : String} {value : Nat}
    (hvalue : ∀ x ∈ Operand.expressionOf operands,
      x.evaluate symbols here (some text) = .ok value) :
    List.Forall₂ (Operand.ShownAs symbols here text e) operands
      ((e.arguments value).map Argument.text) := by
  unfold Encoding.arguments
  rw [List.map_map, List.forall₂_map_right_iff]
  refine (List.forall₂_iff_zip.2 ⟨ht.length_eq, fun {slot o} hzip => ?_⟩).flip
  have hfits : fits slot o.register? = true := List.forall₂_zip ht hzip
  obtain ⟨hslot, ho⟩ := List.of_mem_zip hzip
  cases slot with
  | register r =>
    cases o with
    | register r' =>
      obtain rfl : r = r' := by simpa [fits, Operand.register?] using hfits
      rfl
    | expression x => simp [fits, Operand.register?] at hfits
  | value kind =>
    cases o with
    | register r' => simp [fits, Operand.register?] at hfits
    | expression x =>
      exact ⟨kind, value, immediate?_eq h hslot, hvalue x (ht.expressionOf_eq h ho),
        Slot.text_argument kind value⟩

/-- The record of the code of a row with a value shows the instruction that has the row and the
value. -/
lemma Disassembler.shows_accept (d : Disassembler) (address : Int) {e : Encoding}
    (h : e ∈ Encoding.table) (hne : e ≠ .moveMemory) {operands : List Operand}
    (ht : e.Takes operands) {symbols : SymbolTable} {here : Nat} {s : Statement} {value : Nat}
    (hvalue : ∀ x ∈ Operand.expressionOf operands,
      x.evaluate symbols here (some s.text) = .ok value) :
    (d.accept address (e.lead value) e (e.arguments value) (e.code value)).Shows symbols here s e
      operands where
  error?_eq := rfl
  size_eq := rfl
  moveMemory he := absurd he hne
  mnemonic_eq _ := rfl
  operands_shown _ := ht.shown h hvalue

namespace Disassembler

/-- One instruction of the source is read as one record that shows it. -/
lemma scan_encoded (d : Disassembler) {symbols : SymbolTable} {here : Nat} {s : Statement}
    (hs : s.WellFormed) {e : Encoding} {operands : List Operand}
    (ha : s.action = .instruction e operands) {code : List UInt8}
    (hcode : s.encode symbols here = .ok (some code)) (address : Nat) :
    ∃ r : Record, r.address = address ∧ r.bytes = code ∧ r.Shows symbols here s e operands ∧
      code.length = e.size ∧
      ∀ done rest, d.scan none done address false (code ++ rest) =
        d.scan none (done.push r) (address + code.length) false rest := by
  unfold Statement.WellFormed at hs
  unfold Statement.encode at hcode
  simp only [ha, map_eq_ok_iff] at hs hcode
  obtain ⟨htable, htakes⟩ := hs
  obtain ⟨_, henc, heq⟩ := hcode
  cases heq
  obtain ⟨value, hvalue, hv, rfl⟩ := htakes.encodeInstruction_iff.1 henc
  have hlen := Encoding.length_code htable value
  by_cases hne : e = .moveMemory
  · -- the code is that of a halt, and is read as one
    subst hne
    have hhalt : Encoding.halt ∈ Encoding.table ∧ Encoding.halt ≠ .moveMemory := by decide +kernel
    have hv' : Encoding.halt.TakesValue value := fun kind hk => by cases hk
    refine ⟨d.accept address (Encoding.halt.lead value) .halt (Encoding.halt.arguments value)
      (Encoding.halt.code value), rfl, rfl, ?_, hlen, fun done rest => ?_⟩
    · exact ⟨rfl, rfl, fun _ => ⟨rfl, rfl⟩, fun h => absurd rfl h, fun h => absurd rfl h⟩
    · exact scan_code d hhalt.1 hhalt.2 hv' done address rest
  · refine ⟨d.accept address (e.lead value) e (e.arguments value) (e.code value), rfl, rfl,
      d.shows_accept address htable hne htakes hvalue, hlen, fun done rest => ?_⟩
    rw [hlen]
    exact scan_code d htable hne hv done address rest

/-- The instructions of the source are read as one record each.

**Proof sketch.** Induction on the instructions. The first one is read as one record, and the rest
is read from the address after its code. -/
lemma exists_scan_encoded (d : Disassembler) {symbols : SymbolTable}
    {items : List (Statement × Nat)}
    {codes : List (List UInt8)} (hw : ∀ p ∈ items, p.1.WellFormed)
    (hcodes : List.Forall₂ (fun p code => p.1.action.isInstruction = true ∧
      p.1.encode symbols p.2 = .ok (some code)) items codes)
    (done : Array Record) (address : Nat) :
    ∃ rs, d.scan none done address false codes.flatten = (done.toList ++ rs, none) ∧
      rs.length = items.length ∧
      ∀ i (hi : i < items.length), ∃ r e operands, rs[i]? = some r ∧
        items[i].1.action = .instruction e operands ∧
        r.address = (address + (codes.take i).flatten.length : Nat) ∧ codes[i]? = some r.bytes ∧
        r.Shows symbols items[i].2 items[i].1 e operands := by
  induction hcodes generalizing done address with
  | nil =>
    refine ⟨[], ?_, rfl, fun i hi => absurd hi (Nat.not_lt_zero i)⟩
    rw [List.flatten_nil, scan, List.append_nil]
  | @cons p code items codes hp _ ih =>
    obtain ⟨hwell, hw⟩ := List.forall_mem_cons.1 hw
    obtain ⟨hinstruction, hcode⟩ := hp
    obtain ⟨e, operands, ha⟩ := Action.exists_of_isInstruction hinstruction
    obtain ⟨r, haddress, hbytes, hshows, -, hscan⟩ := scan_encoded d hwell ha hcode address
    obtain ⟨rs, hrs, hlen, hall⟩ := ih hw (done.push r) (address + code.length)
    refine ⟨r :: rs, ?_, by simp [hlen], fun i hi => ?_⟩
    · rw [List.flatten_cons, hscan, hrs]
      simp
    · cases i with
      | zero => exact ⟨r, e, operands, rfl, ha, by simpa using haddress, by simp [hbytes], hshows⟩
      | succ i =>
        obtain ⟨r', e', operands', hr', ha', haddress', hbytes', hshows'⟩ :=
          hall i (Nat.lt_of_succ_lt_succ hi)
        refine ⟨r', e', operands', by simpa using hr', ha', ?_, by simpa using hbytes', hshows'⟩
        rw [haddress', List.take_succ_cons, List.flatten_cons, List.length_append, Nat.add_assoc]

/-- **Decoding undoes encoding.** Let instructions of the source be encoded, each at some address,
with the symbols of some table. The disassembly of their code from any address at which it fits has
exactly one record for each of them, in order. The record stands at the address of the code, has the
code as its bytes, is no error, and shows the instruction as it is written in the source; only the
move from memory to memory is shown as a halt.

**Proof sketch.** The first byte of an instruction determines its row (`Encoding.decode?_lead`),
hence its size, so that the next instruction is read from its own first byte (`scan_code`). -/
theorem disassemble_encoded (d : Disassembler) (symbols : SymbolTable)
    (items : List (Statement × Nat)) (codes : List (List UInt8)) (start : Nat)
    (hw : ∀ p ∈ items, p.1.WellFormed)
    (hcodes : List.Forall₂ (fun p code => p.1.action.isInstruction = true ∧
      p.1.encode symbols p.2 = .ok (some code)) items codes)
    (hstart : start < 0x10000) (hfits : start + codes.flatten.length ≤ 0x10000) :
    (d.disassemble codes.flatten start none).fault = none ∧
      (d.disassemble codes.flatten start none).records.length = items.length ∧
      ∀ i (hi : i < items.length), ∃ r e operands,
        (d.disassemble codes.flatten start none).records[i]? = some r ∧
        items[i].1.action = .instruction e operands ∧
        r.address = (start + (codes.take i).flatten.length : Nat) ∧ codes[i]? = some r.bytes ∧
        r.Shows symbols items[i].2 items[i].1 e operands := by
  obtain ⟨rs, hscan, hlen, hall⟩ := d.exists_scan_encoded hw hcodes #[] start
  have htake : codes.flatten.take (0x10000 - start) = codes.flatten :=
    List.take_of_length_le (by omega)
  have hrange : 0 ≤ (start : Int) ∧ (start : Int) < 0x10000 := by omega
  unfold disassemble
  simp only [hrange, and_self, if_true, Int.toNat_natCast, htake, hscan]
  exact ⟨rfl, hlen, hall⟩

/-- Instructions with each kind of value, at the addresses at which a program has them. -/
def sampleItems : List (Statement × Nat) :=
  let source := "MVI A,0-2\nMOV M,M\nRST 3\nJMP $+0A000H\n"
  ((Statement.readSource source "sample.asm" false).toOption.getD []).zip [0, 2, 3, 4]

/-- The code of the sample is read at the very end of the address space. -/
theorem disassemble_sampleItems :
    (∀ p ∈ sampleItems, p.1.WellFormed) ∧
      (({} : Disassembler).disassemble [0x3E, 0xFE, 0x76, 0xDF, 0xC3, 0x04, 0xA0] 0xFFF9
        none).fault = none ∧
      (({} : Disassembler).disassemble [0x3E, 0xFE, 0x76, 0xDF, 0xC3, 0x04, 0xA0] 0xFFF9
        none).records.length = 4 := by
  have hw : ∀ p ∈ sampleItems, p.1.WellFormed := fun p hp =>
    Statement.wellFormed_of_mem_readSource _ (List.of_mem_zip hp).1
  have hcodes : List.Forall₂ (fun p code => p.1.action.isInstruction = true ∧
      p.1.encode .empty p.2 = .ok (some code)) sampleItems
      [[0x3E, 0xFE], [0x76], [0xDF], [0xC3, 0x04, 0xA0]] := by decide +kernel
  obtain ⟨hfault, hlen, -⟩ := disassemble_encoded {} .empty sampleItems
    [[0x3E, 0xFE], [0x76], [0xDF], [0xC3, 0x04, 0xA0]] 0xFFF9 hw hcodes (by decide) (by decide)
  exact ⟨hw, hfault, hlen.trans (by decide +kernel)⟩

end Disassembler

end Asm8080
