import Asm8080.Proofs.Disassembly.Decode
import Asm8080.Proofs.Statement.Reading
import Asm8080.Proofs.Text.Written
import Asm8080.Proofs.Token.Vocabulary

/-!
# The text of records

The text of a faithful record is read as the tokens of its row and value, or of the byte that begins
no instruction. With address, bytes and remark, these stand in a comment that ends with the line, as
long as no name in it holds a line feed.

## Main results

* `Asm8080.Record.lexes_instruction`, `Asm8080.Record.lexes_data` — the tokens of the text of a
  record.
* `Asm8080.Record.lexes_shown` — a line of a disassembly has the tokens of its record.
-/

set_option autoImplicit false

namespace Asm8080

/-! ## Names -/

/-- The name of a mnemonic is read as the mnemonic. -/
lemma Mnemonic.lexes_name (m : Mnemonic) {rest : List Char} (hends : Lexes.Ends rest) :
    Lexes (m.name.toList ++ rest) [.mnemonic m] rest := by
  have hall : ∀ m ∈ all, Lexes.isWord m.name = true ∧ Token.Kind.ofName m.name = .mnemonic m := by
    decide +kernel
  obtain ⟨hword, hkind⟩ := hall m m.mem_all
  exact hkind ▸ Lexes.name hword hends

/-- The name of a register is read as the register. -/
lemma Register.lexes_name (r : Register) {rest : List Char} (hends : Lexes.Ends rest) :
    Lexes (r.name.toList ++ rest) [.register r] rest := by
  have hword : Lexes.isWord r.name = true ∧ Token.Kind.ofName r.name = .register r := by
    cases r <;> decide +kernel
  exact hword.2 ▸ Lexes.name hword.1 hends

/-- The name of a keyword is read as the keyword. -/
lemma Keyword.lexes_name (k : Keyword) {rest : List Char} (hends : Lexes.Ends rest) :
    Lexes (k.name.toList ++ rest) [.keyword k] rest := by
  have hword : Lexes.isWord k.name = true ∧ Token.Kind.ofName k.name = .keyword k := by
    cases k <;> decide +kernel
  exact hword.2 ▸ Lexes.name hword.1 hends

/-! ## Operands -/

/-- The text of an operand is read as the token in its slot. -/
lemma Slot.lexes_argument {slot : Slot} {value : Nat}
    (hvalue : ∀ kind ∈ slot.immediate?, value < kind.limit) {rest : List Char}
    (hends : Lexes.Ends rest) :
    Lexes ((slot.argument value).text.toList ++ rest) [slot.tokenKind value] rest := by
  cases slot with
  | register r => exact r.lexes_name hends
  | value kind =>
    have hlt : value < kind.limit := hvalue kind rfl
    cases kind with
    | byte =>
      have hpiece := Lexes.hexLiteral 2 value hends
      have hbyte : (UInt8.ofNat value).toNat = value := by
        rw [UInt8.toNat_ofNat']
        exact Nat.mod_eq_of_lt hlt
      rw [Nat.mod_eq_of_lt (Nat.lt_trans hlt (by decide))] at hpiece
      simp only [Slot.argument, Argument.text, hbyte]
      exact hpiece
    | word =>
      have hpiece := Lexes.hexLiteral 4 value hends
      rw [Nat.mod_eq_of_lt (show value < 0x10000 from hlt)] at hpiece
      exact hpiece
    | vector => exact Lexes.decimal (Nat.lt_trans hlt (by decide)) hends

/-- After the first position, the tokens in slots do not depend on the position. -/
lemma Slot.tokenKinds_succ (value i j : Nat) (slots : List Slot) :
    tokenKinds value (i + 1) slots = tokenKinds value (j + 1) slots := by
  induction slots generalizing i j with
  | nil => rfl
  | cons slot slots ih => simp [tokenKinds, ih (i + 1) (j + 1)]

/-- **Operands with commas between them** are read as the tokens in their slots. -/
lemma Slot.lexes_arguments {value : Nat} {slots : List Slot}
    (hvalue : ∀ slot ∈ slots, ∀ kind ∈ slot.immediate?, value < kind.limit) {rest : List Char}
    (hends : Lexes.Ends rest) :
    Lexes
      ((String.intercalate ", " (slots.map fun slot => (slot.argument value).text)).toList ++ rest)
      (tokenKinds value 0 slots) rest := by
  rw [String.toList_intercalate]
  induction slots with
  | nil => exact Lexes.refl rest
  | cons slot slots ih =>
    obtain ⟨hslot, hslots⟩ := List.forall_mem_cons.1 hvalue
    cases slots with
    | nil =>
      have hpiece := lexes_argument hslot hends
      simpa [tokenKinds, List.intercalate] using hpiece
    | cons slot' slots =>
      have hcomma : Lexes.Ends (',' :: ' ' :: (List.intercalate ", ".toList
          (((slot' :: slots).map fun slot => (slot.argument value).text).map String.toList) ++
            rest)) := Lexes.ends_cons rfl _
      have hpieces := (lexes_argument hslot hcomma).append
        ((Lexes.punctuation .comma _).append ((Lexes.separator rfl _).append (ih hslots)))
      simpa [tokenKinds, List.intercalate_cons_cons, tokenKinds_succ value 1 0] using hpieces

/-! ## Records -/

namespace Record

/-- **The text of an instruction** is read as the tokens of its row and value. -/
lemma lexes_instruction {e : Encoding} (h : e ∈ Encoding.table) {value : Nat}
    (hvalue : ∀ kind ∈ e.immediate?, value < kind.limit) {r : Record} {name : Option String}
    (hr : r.content = .instruction e (e.arguments value) name) {rest : List Char}
    (hends : Lexes.Ends rest) :
    Lexes (r.text.toList ++ rest) (.mnemonic e.mnemonic :: Slot.tokenKinds value 0 e.slots)
      rest := by
  have hslots : ∀ slot ∈ e.slots, ∀ kind ∈ slot.immediate?, value < kind.limit := by
    intro slot hslot kind hkind
    cases slot with
    | register r => cases hkind
    | value i =>
      cases hkind
      exact hvalue kind (Encoding.immediate?_eq h hslot)
  have hoperands : r.operands = e.slots.map fun slot => (slot.argument value).text := by
    rw [operands, hr]
    simp [Encoding.arguments]
  have hmnemonic : r.mnemonic = e.mnemonic.name := by rw [mnemonic, hr]
  unfold text
  rw [hoperands, hmnemonic]
  cases hs : e.slots with
  | nil => exact e.mnemonic.lexes_name hends
  | cons slot slots =>
    rw [← hs]
    have hspace : Lexes.Ends (' ' :: ((String.intercalate ", "
        (e.slots.map fun slot => (slot.argument value).text)).toList ++ rest)) :=
      Lexes.ends_cons rfl _
    have hpieces := (e.mnemonic.lexes_name hspace).append
      ((Lexes.separator rfl _).append (Slot.lexes_arguments hslots hends))
    simpa [hs] using hpieces

/-- **The text of a byte** that begins no instruction is read as the tokens of a data directive. -/
lemma lexes_data {r : Record} {problem : Problem} (hr : r.content = .data problem)
    {rest : List Char} (hends : Lexes.Ends rest) :
    Lexes (r.text.toList ++ rest) [.keyword .db, .number r.opcode.toNat .hexadecimal] rest := by
  have hlt := r.opcode.toNat_lt
  have hspace : Lexes.Ends (' ' :: ((Hex.literal 2 r.opcode.toNat).toList ++ rest)) :=
    Lexes.ends_cons rfl _
  have hliteral := Lexes.hexLiteral 2 r.opcode.toNat hends
  rw [Nat.mod_eq_of_lt (by omega)] at hliteral
  have hpieces := (Keyword.db.lexes_name hspace).append
    ((Lexes.separator rfl _).append hliteral)
  unfold text
  rw [operands, mnemonic, hr]
  simpa [String.toList_intercalate, List.intercalate, Keyword.name] using hpieces

end Record

/-! ## Comments -/

namespace OneLine

/-- The wording of a problem with a byte holds no line feed. -/
lemma message (byte : UInt8) (problem : Problem) : OneLine (problem.message byte) := by
  cases problem with
  | undocumented => exact append (by decide) (literal 2 byte.toNat)
  | truncated mnemonic needed available =>
    have hname : ∀ m ∈ Mnemonic.all, OneLine m.name := by decide +kernel
    exact (((((append (by decide) (hname _ mnemonic.mem_all)).append (by decide)).append
      (nat needed)).append (by decide)).append (int available)).append (by decide)
  | operand => exact show OneLine "operand of truncated instruction" by decide

end OneLine

/-! ## Lines of a disassembly -/

namespace Record

/-- The line of a record is its text and a comment. -/
lemma exists_comment {r : Record} (h : OneLine r.comment) :
    ∃ n body, '\n' ∉ body ∧
      r.line.toList = r.text.toList ++ (List.replicate n ' ' ++ ';' :: body) := by
  have hbytes : OneLine (Hex.bytes r.bytes) := by
    refine OneLine.intercalate (by decide) fun s hs => ?_
    obtain ⟨b, -, rfl⟩ := List.mem_map.1 hs
    exact OneLine.padded 2 b.toNat
  have hbody : OneLine (" " ++ Hex.padded 4 r.address ++ ": " ++ Hex.bytes r.bytes) :=
    ((OneLine.append (by decide) (OneLine.padded 4 r.address)).append (by decide)).append hbytes
  unfold line
  set shown :=
    Text.padRight 20 r.text ++ "; " ++ Hex.padded 4 r.address ++ ": " ++ Hex.bytes r.bytes
    with hshown
  have hchars : shown.toList = r.text.toList ++ (List.replicate (20 - r.text.length) ' ' ++
      ';' :: (" " ++ Hex.padded 4 r.address ++ ": " ++ Hex.bytes r.bytes).toList) := by
    simp [hshown, Text.padRight]
  split
  · exact ⟨_, _, hbody, hchars⟩
  · have hremark : OneLine
        (String.ofList (List.replicate (40 - shown.length) ' ') ++ " " ++ r.comment) :=
      ((OneLine.spaces _).append (by decide)).append h
    refine ⟨20 - r.text.length, _, hbody.append hremark, ?_⟩
    simp only
    rw [Text.padRight, String.append_assoc, String.append_assoc, String.toList_append, hchars]
    simp

/-- **A line of a disassembly** has the tokens of the text of its record, and a line end. -/
lemma lexes_shown {r : Record} {ks : List Token.Kind}
    (htext : ∀ rest, Lexes.Ends rest → Lexes (r.text.toList ++ rest) ks rest)
    (hcomment : OneLine r.comment) (showBytes : Bool) (rest : List Char) :
    Lexes (((if showBytes then line else text) r).toList ++ '\n' :: rest) (ks ++ [.newline])
      rest := by
  cases showBytes with
  | false => exact (htext _ (Lexes.ends_cons rfl _)).append (Lexes.newline rest)
  | true =>
    obtain ⟨n, body, hbody, hline⟩ := exists_comment hcomment
    have hends : Lexes.Ends (List.replicate n ' ' ++ ';' :: (body ++ '\n' :: rest)) := by
      cases n with
      | zero => exact Lexes.ends_cons rfl _
      | succ n => exact Lexes.ends_cons rfl _
    have hpieces := (htext _ hends).append
      ((Lexes.spaces n _).append ((Lexes.comment hbody rest).append (Lexes.newline rest)))
    simpa [hline] using hpieces

end Record

end Asm8080
