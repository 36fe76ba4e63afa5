import Asm8080.Proofs.Assembly.Resolution
import Asm8080.Proofs.Statement.WellFormed
import Asm8080.Proofs.Token.Grammar

/-!
# Failures of an assembly

Assembling a text with valid settings gives an image or a failure. The failure is a diagnostic, with
one exception: a decimal literal with more digits than can be converted. Bytes and addresses out of
range do not occur, since values are words, a byte is checked before it is packed, and the first
pass leaves room for all that the second one writes.

## Main definitions

* `Asm8080.Diagnosed` — a computation that fails only with a diagnostic.
* `Asm8080.Overlong` — a text has a decimal literal with too many digits after its first lexemes.
* `Asm8080.LookupsSucceed` — what assembling a text looks up without a check is there.

## Main results

* `Asm8080.Statement.diagnosed_readTokens` — reading statements fails only with a diagnostic.
* `Asm8080.Workbench.diagnosed_generate` — assembling statements fails only with a diagnostic.
* `Asm8080.tokenize_eq_tooLongToRead_iff` — tokenizing stops at a literal with too many digits
  exactly when there is one.
* `Asm8080.assemble_image_or_diagnostic` — what assembling a text can give.
-/

set_option autoImplicit false

namespace Asm8080

/-! ## Computations that fail only with a diagnostic -/

/-- A computation that fails only with a diagnostic. -/
def Diagnosed {α : Type} (x : Except Failure α) : Prop :=
  ∀ f, x = .error f → ∃ d, f = .diagnostic d

namespace Diagnosed

variable {α β : Type}

/-- A computation that gives a result does not fail. -/
lemma ok (a : α) : Diagnosed (.ok a) := fun _ h => by cases h

/-- A computation that is known to give a result does not fail. -/
lemma of_eq_ok {x : Except Failure α} {a : α} (h : x = .ok a) : Diagnosed x := h ▸ ok a

/-- A diagnostic. -/
lemma error (d : Diagnostic) : Diagnosed (.error (.diagnostic d) : Except Failure α) :=
  fun _ h => ⟨d, (Except.error.inj h).symm⟩

/-- A computation in two steps fails only with a diagnostic if both steps do. -/
lemma bind {x : Except Failure α} {f : α → Except Failure β} (hx : Diagnosed x)
    (hf : ∀ a, x = .ok a → Diagnosed (f a)) : Diagnosed (x >>= f) := by
  cases x with
  | error e =>
    rintro _ ⟨⟩
    exact hx e rfl
  | ok a => exact hf a rfl

/-- The image of a result fails where the result does. -/
lemma map {x : Except Failure α} (hx : Diagnosed x) (f : α → β) : Diagnosed (f <$> x) := by
  cases x with
  | error e =>
    rintro _ ⟨⟩
    exact hx e rfl
  | ok a => exact ok _

/-- A failure that is passed on. -/
lemma rethrow {x : Except Failure α} (hx : Diagnosed x) {f : Failure} (h : x = .error f) :
    Diagnosed (.error f : Except Failure β) := by
  rintro _ ⟨⟩
  exact hx f h

end Diagnosed

/-! ## Reading statements -/

namespace Line

open Statement (Context)

variable (ctx : Context) (ending : Token)

/-- Reading an expression. -/
lemma diagnosed_readExpression (ts : List Token) : Diagnosed (readExpression ctx ending ts) := by
  fun_cases readExpression ctx ending ts with
  | case1 => exact .ok _
  | case2 | case3 | case4 => exact .error _

/-- Reading an operand. -/
lemma diagnosed_readOperand (m : Mnemonic) (index count : Nat) (ts : List Token) :
    Diagnosed (readOperand ctx ending m index count ts) := by
  fun_cases readOperand ctx ending m index count ts with
  | case1 | case3 => exact .ok _
  | case4 first haccepts f hread => exact (diagnosed_readExpression ctx ending ts).rethrow hread
  | case2 | case5 | case6 | case7 => exact .error _

/-- Reading operands. -/
lemma diagnosed_readOperands (m : Mnemonic) (count left : Nat) (ts : List Token) :
    Diagnosed (readOperands ctx ending m count left ts) := by
  induction left generalizing ts with
  | zero => exact .ok _
  | succ left ih =>
    have hcomma : ∀ index, Diagnosed (readComma ctx ending m index count ts) := by
      intro index
      fun_cases readComma ctx ending m index count ts with
      | case1 | case3 => exact .ok _
      | case2 | case4 => exact .error _
    rw [readOperands]
    refine (hcomma _).bind fun ts _ => (diagnosed_readOperand ctx ending m _ count ts).bind ?_
    rintro ⟨operand, ts⟩ -
    exact (ih ts).bind fun _ _ => .ok _

/-- Reading an instruction. -/
lemma diagnosed_readInstruction (t : Token) (m : Mnemonic) (ts : List Token) :
    Diagnosed (readInstruction ctx ending t m ts) := by
  rw [readInstruction]
  refine (diagnosed_readOperands ctx ending m _ _ ts).bind ?_
  rintro ⟨operands, rest⟩ -
  simp only
  split
  · exact .ok _
  · exact .error _

/-- Reading a directive with a name in front. -/
lemma diagnosed_readNamed (t : Token) (name : String) (ts : List Token) :
    Diagnosed (readNamed ctx ending t name ts) := by
  fun_cases readNamed ctx ending t name ts with
  | case1 | case2 => exact (diagnosed_readExpression ctx ending _).bind fun _ _ => .ok _
  | case3 | case4 => exact .error _

/-- Reading a statement. -/
lemma diagnosed_readStatement (t : Token) (ts : List Token) :
    Diagnosed (readStatement ctx ending t ts) := by
  unfold readStatement
  split
  · exact diagnosed_readInstruction ctx ending t _ ts
  · exact (diagnosed_readExpression ctx ending ts).bind fun _ _ => .ok _
  · exact (diagnosed_readExpression ctx ending ts).bind fun _ _ => .ok _
  · exact (diagnosed_readExpression ctx ending ts).bind fun _ _ => .ok _
  · exact diagnosed_readNamed ctx ending t _ ts
  · exact .error _
  · exact .error _

/-- Reading what comes after a label. -/
lemma diagnosed_readRest (ts : List Token) : Diagnosed (readRest ctx ending ts) := by
  have hend : ∀ rest, Diagnosed (expectEnd ctx rest) := by
    intro rest
    fun_cases expectEnd ctx rest with
    | case1 => exact .ok _
    | case2 | case3 => exact .error _
  cases ts with
  | nil => exact .ok _
  | cons t ts =>
    refine (diagnosed_readStatement ctx ending t ts).bind ?_
    rintro ⟨s, rest⟩ -
    exact (hend rest).bind fun _ _ => .ok _

/-- Reading a line. -/
lemma diagnosed_read (line : Line) : Diagnosed (line.read ctx) := by
  fun_cases read ctx line with
  | case1 => exact (diagnosed_readRest ctx line.ending _).bind fun _ _ => .ok _
  | case2 => exact .error _
  | case3 | case4 | case5 => exact diagnosed_readRest ctx line.ending _

/-- Reading lines one after another. -/
lemma diagnosed_readAllFrom (done : List Statement) (lines : List Line) :
    Diagnosed (readAllFrom ctx done lines) := by
  induction lines generalizing done with
  | nil => exact .ok _
  | cons line lines ih => exact (diagnosed_read ctx line).bind fun _ _ => ih _

end Line

/-- **Reading statements** fails only with a diagnostic. -/
lemma Statement.diagnosed_readTokens (tokens : List Token) (file : String)
    (source : Option String) (keepCase : Bool) :
    Diagnosed (readTokens tokens file source keepCase) :=
  Line.diagnosed_readAllFrom _ _ _

/-! ## The first pass -/

/-- Applying an operation. -/
lemma BinaryOp.diagnosed_apply (op : BinaryOp) (location : Location) (sourceLine : Option String)
    (left right : Nat) : Diagnosed (op.apply location sourceLine left right) := by
  cases op with
  | div | mod =>
    unfold apply
    simp only
    split
    · exact .error _
    · exact .ok _
  | _ => exact .ok _

/-- Evaluating an expression. -/
lemma Expr.diagnosed_evaluate (symbols : SymbolTable) (address : Int) (sourceLine : Option String)
    (e : Expr) : Diagnosed (e.evaluate symbols address sourceLine) := by
  induction e with
  | literal | char | here => exact .ok _
  | label l name =>
    rw [evaluate, resolve]
    split
    · exact .ok _
    · exact .error _
  | complement l operand ih => exact ih.bind fun _ _ => .ok _
  | binary l op left right ihl ihr =>
    exact ihl.bind fun a _ => ihr.bind fun b _ => op.diagnosed_apply l sourceLine a b

/-- Binding a name. -/
lemma SymbolTable.diagnosed_define (t : SymbolTable) (name : String) (value : Int)
    (location : Option Location) (constant : Bool) (sourceLine : Option String) :
    Diagnosed (t.define name value location constant sourceLine) := by
  unfold define
  split
  · exact .error _
  · exact .ok _

namespace Layout

/-- Binding a name to the next address. -/
lemma diagnosed_bindHere (l : Layout) (s : Statement) (name : String) :
    Diagnosed (l.bindHere s name) := by
  unfold bindHere
  split
  · exact .error _
  · exact l.symbols.diagnosed_define name _ _ _ _

/-- Moving past bytes. -/
lemma diagnosed_advance (l : Layout) (s : Statement) (size : Nat) :
    Diagnosed (l.advance s size) := by
  unfold advance
  split
  · exact .error _
  · exact .ok _

/-- Evaluating an expression that is needed at once. -/
lemma diagnosed_evaluateNow (l : Layout) (s : Statement) (directive : String) (e : Expr) :
    Diagnosed (l.evaluateNow s directive e) := by
  unfold evaluateNow
  split
  · exact .error _
  · exact e.diagnosed_evaluate _ _ _

/-- **One step of the first pass** fails only with a diagnostic. -/
lemma diagnostic_of_step {l l' : Layout} {s : Statement} {f : Failure}
    (h : l.step s = (l', some f)) : ∃ d, f = .diagnostic d := by
  have hf : (l.step s).2 = some f := by rw [h]
  clear h
  revert hf
  fun_cases step l s with
  | case1 | case3 | case5 | case8 | case11 => rintro ⟨⟩
  | case2 l name ha f' hbind =>
    rintro ⟨⟩
    exact diagnosed_bindHere _ s _ _ hbind
  | case4 l e ha f' hvalue =>
    rintro ⟨⟩
    exact diagnosed_evaluateNow _ s _ _ _ hvalue
  | case6 l name e ha value hvalue f' hdefine =>
    rintro ⟨⟩
    exact SymbolTable.diagnosed_define _ _ _ _ _ _ _ hdefine
  | case7 l name e ha f' hvalue =>
    rintro ⟨⟩
    exact diagnosed_evaluateNow _ s _ _ _ hvalue
  | case9 l name width e ha symbols hbind f' hadvance =>
    rintro ⟨⟩
    exact diagnosed_advance _ s _ _ hadvance
  | case10 l name width e ha f' hbind =>
    rintro ⟨⟩
    cases name with
    | none => cases hbind
    | some name => exact diagnosed_bindHere _ s name _ hbind
  | case12 l encoding operands ha f' hadvance =>
    rintro ⟨⟩
    exact diagnosed_advance _ s _ _ hadvance

/-- **The first pass** fails only with a diagnostic. -/
lemma diagnostic_of_run {l l' : Layout} {ss : List Statement} {f : Failure}
    (h : l.run ss = (l', some f)) : ∃ d, f = .diagnostic d := by
  induction ss generalizing l with
  | nil => cases h
  | cons s ss ih =>
    rcases hstep : l.step s with ⟨l₁, _ | f'⟩
    · simp only [run, hstep] at h
      exact ih h
    · simp only [run, hstep] at h
      cases h
      exact diagnostic_of_step hstep

end Layout

/-! ## The second pass -/

section Encode

variable {symbols : SymbolTable} {address : Nat} {text : String} {e : Expr}

/-- Packing a value as a byte after other bytes. -/
lemma diagnosed_packByte (front : List UInt8) (mnemonic : String) (value : Nat) :
    Diagnosed (byteOf mnemonic text e value >>= fun b =>
      packBytes (front.map UInt8.toNat ++ [b])) := by
  have hbyte : Diagnosed (byteOf mnemonic text e value) := by
    unfold byteOf
    split_ifs
    · exact .ok _
    · exact .ok _
    · exact .error _
  refine hbyte.bind fun b hb => .of_eq_ok ((packBytes_append_eq_ok_iff front [b] _).2 ⟨?_, rfl⟩)
  obtain ⟨-, rfl⟩ := byteOf_eq_ok_iff.1 hb
  simp only [List.mem_singleton, forall_eq]
  omega

/-- Packing a word after other bytes. -/
lemma diagnosed_packWord (front : List UInt8) {value : Nat} (h : value < Word.count) :
    Diagnosed (packBytes (front.map UInt8.toNat ++ [value &&& 0xFF, value >>> 8])) :=
  .of_eq_ok ((packWord_eq_ok_iff front value).2 ⟨h, rfl⟩)

/-- The value of an expression is a word. -/
lemma Expr.evaluate_lt (h : symbols.InRange) {address : Int} {sourceLine : Option String}
    {value : Nat} (hvalue : e.evaluate symbols address sourceLine = .ok value) :
    value < Word.count := by
  obtain ⟨v, -, rfl⟩ := (evaluate_eq_ok_iff h).1 hvalue
  exact v.isLt

/-- Encoding data. -/
lemma diagnosed_encodeData (h : symbols.InRange) (width : Width) :
    Diagnosed (encodeData symbols address text width e) := by
  refine (e.diagnosed_evaluate symbols address (some text)).bind fun value hvalue => ?_
  cases width with
  | byte => exact diagnosed_packByte [] "DB" value
  | word => exact diagnosed_packWord [] (Expr.evaluate_lt h hvalue)

/-- Encoding an instruction with a value. -/
lemma diagnosed_encodeValue (encoding : Encoding) (kind : Immediate) {value : Nat}
    (h : value < Word.count) : Diagnosed (encodeValue text encoding kind e value) := by
  cases kind with
  | byte => exact diagnosed_packByte [encoding.opcode] encoding.mnemonic.name value
  | word => exact diagnosed_packWord [encoding.opcode] h
  | vector =>
    by_cases hvector : value ≤ 7
    · exact .of_eq_ok (encodeValue_eq_ok_iff.2 ⟨hvector, rfl⟩)
    · have hgt : value > 7 := by omega
      simp only [encodeValue, hgt, if_true]
      exact .error _

/-- Encoding an instruction. -/
lemma diagnosed_encodeInstruction (h : symbols.InRange) (encoding : Encoding)
    (operands : List Operand) :
    Diagnosed (encodeInstruction symbols address text encoding operands) := by
  unfold encodeInstruction
  split
  · exact (Expr.diagnosed_evaluate symbols address (some text) _).bind fun value hvalue =>
      diagnosed_encodeValue encoding _ (Expr.evaluate_lt h hvalue)
  · exact .of_eq_ok ((packBytes_append_eq_ok_iff [encoding.opcode] [] _).2 ⟨by simp, rfl⟩)

/-- **Encoding a statement** fails only with a diagnostic, if every bound name has a word. -/
lemma Statement.diagnosed_encode (h : symbols.InRange) (s : Statement) (address : Nat) :
    Diagnosed (s.encode symbols address) := by
  unfold encode
  split
  · exact (diagnosed_encodeData h _).map _
  · exact (diagnosed_encodeInstruction h _ _).map _
  all_goals exact .ok _

end Encode

namespace Emission

variable {symbols : SymbolTable}

/-- **One step of the second pass** fails only with a diagnostic, if the bytes of its statement end
in the address space. -/
lemma diagnostic_of_step (hr : symbols.InRange) {m m' : Emission} {s : Statement} {address : Nat}
    (hlimit : (s.piece symbols address).limit ≤ Word.count) {f : Failure}
    (h : m.step symbols s address = (m', some f)) : ∃ d, f = .diagnostic d := by
  cases henc : s.encode symbols address with
  | error g =>
    simp only [step, henc, Prod.mk.injEq, Option.some.injEq] at h
    obtain ⟨-, rfl⟩ := h
    exact Statement.diagnosed_encode hr s address g henc
  | ok code =>
    -- a statement that is encoded and ends in the address space is written
    obtain ⟨m'', hstep⟩ := (step_ok_iff (m := m)).2 ⟨⟨code, henc⟩, hlimit⟩
    rw [hstep] at h
    cases h

/-- **The second pass** fails only with a diagnostic, if all bytes end in the address space. -/
lemma diagnostic_of_run (hr : symbols.InRange) {m m' : Emission} {ps : List (Statement × Nat)}
    (hps : ∀ p ∈ ps, (p.1.piece symbols p.2).limit ≤ Word.count) {f : Failure}
    (h : m.run symbols ps = (m', some f)) : ∃ d, f = .diagnostic d := by
  induction ps generalizing m with
  | nil => cases h
  | cons p ps ih =>
    obtain ⟨hp, hps⟩ := List.forall_mem_cons.1 hps
    rcases hstep : m.step symbols p.1 p.2 with ⟨m₁, _ | f'⟩
    · simp only [run, hstep] at h
      exact ih hps h
    · simp only [run, hstep] at h
      cases h
      exact diagnostic_of_step hr hp hstep

end Emission

/-- **Assembling statements** with valid settings fails only with a diagnostic.

**Proof sketch.** The settings make a blank image. If the first pass succeeds, every bound name has
a word, and the pass has moved past the bytes of each statement within the address space
(`Workbench.limit_piece_le`), so that the second pass can write them. -/
lemma Workbench.diagnosed_generate {w : Workbench} (hw : w.settings.fault? = none)
    (ss : List Statement) : Diagnosed (w.generate ss).outcome := by
  intro f h
  unfold generate at h
  simp only [Settings.blank?_fillByte hw] at h
  rcases hl : Layout.ofStatements ss with ⟨l, _ | g⟩
  · have hr : l.symbols.InRange := Layout.inRange_of_run hl SymbolTable.inRange_empty
    have hlimit : ∀ p ∈ ss.zip l.addresses.toList,
        (p.1.piece l.symbols p.2).limit ≤ Word.count := by
      rw [addresses_of_layout hl]
      exact (forall_zip_range_iff (P := fun s a => (s.piece l.symbols a).limit ≤ Word.count)).2
        fun i hi => limit_piece_le l.symbols ((Placement.of_layout hl).moves i hi)
    simp only [hl] at h
    rcases hm : Emission.run l.symbols { image := ⟨w.settings.fill, ∅, 0⟩ }
      (ss.zip l.addresses.toList) with ⟨m, _ | g⟩
    · simp [hm] at h
    · simp only [hm, Except.error.injEq] at h
      exact h ▸ Emission.diagnostic_of_run hr hlimit hm
  · simp only [hl, Except.error.injEq] at h
    exact h ▸ Layout.diagnostic_of_run hl

/-! ## Literals that are too long -/

/-- After its first lexemes, a text has a decimal literal with more digits than can be converted. -/
def Overlong (cs : List Char) (count : Nat) : Prop :=
  ∃ fs c tail rest values, Divides cs fs (c :: tail ++ rest) ∧ c.isDigit = true ∧
    WordRun tail rest ∧ Lexeme.Written (c :: tail) .decimal values ∧
    Integer.digitLimit < values.length ∧ count = values.length

namespace Lexeme

/-- Only where a digit is can a literal be too long. -/
lemma isDigit_of_read {c : Char} {cs : List Char} {count consumed : Nat}
    (h : read c cs = .error (.tooManyDigits count consumed)) : c.isDigit = true := by
  rcases cases_of_read_error h with ⟨-, hcharacter⟩ | ⟨hdigit, -⟩ | ⟨-, -, -, -, -, hfault⟩
  · revert hcharacter
    fun_cases character cs with
    | _ => rintro ⟨⟩
  · exact hdigit
  · cases hfault

/-- Reading stops at a literal with too many digits exactly when there is one. -/
lemma read_eq_tooManyDigits_iff {c : Char} {cs : List Char} {count : Nat} :
    (∃ consumed, read c cs = .error (.tooManyDigits count consumed)) ↔
      ∃ tail rest values, cs = tail ++ rest ∧ c.isDigit = true ∧ WordRun tail rest ∧
        Written (c :: tail) .decimal values ∧ Integer.digitLimit < values.length ∧
        count = values.length := by
  constructor
  · rintro ⟨consumed, h⟩
    obtain ⟨tail, rest, rfl, htail, hrest⟩ := exists_run isNameChar cs
    have hrun : WordRun tail rest := wordRun_iff.2 ⟨htail, hrest⟩
    have hc := isDigit_of_read h
    rw [read_of_isDigit hc hrun] at h
    rcases hnumber : number (c :: tail) with m | ⟨value, radix⟩
    · simp only [hnumber] at h
      cases h
      obtain ⟨-, values, hwritten, hcount, hlong⟩ := number_eq_tooManyDigits_iff.1 hnumber
      exact ⟨tail, rest, values, rfl, hc, hrun, hwritten, hlong, hcount⟩
    · simp only [hnumber] at h
      cases h
  · rintro ⟨tail, rest, values, rfl, hc, hrun, hwritten, hlong, hcount⟩
    have hnumber := number_eq_tooManyDigits_iff.2 ⟨rfl, values, hwritten, hcount, hlong⟩
    exact ⟨_, by rw [read_of_isDigit hc hrun, hnumber]⟩

end Lexeme

/-- **A text is tokenized up to a literal with too many digits** exactly when it has one. -/
lemma tokenize_eq_tooLongToRead_iff {source file : String} {count : Nat} :
    tokenize source file = .error (.integer (.tooLongToRead count)) ↔
      Overlong source.toList count := by
  constructor
  · intro h
    rcases tokenize_eq_ok_or_error source file with ⟨_, -, hok⟩ | ⟨fs, c, cs, m, hfs, hm, herror⟩
    · cases h.symm.trans hok
    · cases m with
      | fault => cases h.symm.trans herror
      | tooManyDigits count consumed =>
        cases h.symm.trans herror
        obtain ⟨tail, rest, values, rfl, hliteral⟩ :=
          Lexeme.read_eq_tooManyDigits_iff.1 ⟨consumed, hm⟩
        exact ⟨fs, c, tail, rest, values, hfs, hliteral⟩
  · rintro ⟨fs, c, tail, rest, values, hfs, hc, hliteral⟩
    obtain ⟨consumed, hm⟩ :=
      Lexeme.read_eq_tooManyDigits_iff.2 ⟨tail, rest, values, rfl, hc, hliteral⟩
    obtain ⟨-, hsep, hcomment⟩ := Lexes.plain_of_isNameChar (Lexes.isNameChar_of_isDigit hc)
    exact tokenize_of_misread hfs hsep hcomment hm file

/-- Tokenizing fails with a diagnostic, or at a literal with too many digits. -/
lemma diagnostic_or_integer_of_tokenize {source file : String} {f : Failure}
    (h : tokenize source file = .error f) :
    (∃ d, f = .diagnostic d) ∨ ∃ count, f = .integer (.tooLongToRead count) := by
  rcases tokenize_eq_ok_or_error source file with ⟨_, -, hok⟩ | ⟨_, _, _, m, -, -, herror⟩
  · cases h.symm.trans hok
  · cases m <;> cases h.symm.trans herror
    · exact .inl ⟨_, rfl⟩
    · exact .inr ⟨_, rfl⟩

/-! ## What is looked up without a check -/

/-- No digit is a suffix. -/
lemma Radix.notMem_suffixes {c : Char} (h : c.isDigit = true) (radix : Radix) :
    c ∉ radix.suffixes := by
  have hall : (radix.suffixes.all fun c => !c.isDigit) = true := by cases radix <;> rfl
  intro hc
  have hdigit := List.all_eq_true.1 hall c hc
  rw [h] at hdigit
  cases hdigit

/-- A literal has digits besides its suffix. -/
lemma Lexeme.splitRadix_ne_nil {c : Char} (hc : c.isDigit = true) (cs : List Char) :
    (splitRadix (c :: cs)).2 ≠ [] := by
  intro hnil
  obtain ⟨⟨radix, digits⟩, hsplit⟩ : ∃ parts, splitRadix (c :: cs) = parts := ⟨_, rfl⟩
  obtain rfl : digits = [] := by rwa [hsplit] at hnil
  rcases splitRadix_eq_iff.1 hsplit with ⟨c', hsuffix, hliteral⟩ | ⟨-, -, hdigits⟩
  · cases hliteral
    exact Radix.notMem_suffixes hc radix hsuffix
  · cases hdigits

/-- Every mnemonic has a row, and the rows tell its number of operands. -/
lemma Encoding.exists_row (m : Mnemonic) :
    ∃ encoding ∈ rows m, operandCount m = encoding.slots.length := by
  have hall : ∀ m ∈ Mnemonic.all, rows m ≠ [] := by decide +kernel
  obtain ⟨encoding, es, hrows⟩ := List.exists_cons_of_ne_nil (hall m m.mem_all)
  exact ⟨encoding, by simp [hrows], by simp [operandCount, forms, hrows]⟩

/-- What assembling looks up without a check is there: the digits of a literal, the number of
operands of a mnemonic, and the expression of an instruction whose row needs one. -/
structure LookupsSucceed (source file : String) (keepCase : Bool) : Prop where
  digits : ∀ (c : Char) (cs : List Char), c.isDigit = true → (Lexeme.splitRadix (c :: cs)).2 ≠ []
  row : ∀ m : Mnemonic, ∃ encoding ∈ Encoding.rows m,
    Encoding.operandCount m = encoding.slots.length
  expression : ∀ ss, Statement.readSource source file keepCase = .ok ss → ∀ s ∈ ss,
    ∀ encoding operands, s.action = .instruction encoding operands →
      (Operand.expressionOf operands).isSome = encoding.immediate?.isSome

/-- Every text has what is looked up without a check. -/
lemma lookupsSucceed (source file : String) (keepCase : Bool) :
    LookupsSucceed source file keepCase where
  digits _ cs hc := Lexeme.splitRadix_ne_nil hc cs
  row := Encoding.exists_row
  expression ss hread s hs encoding operands haction := by
    have hformed := Statement.wellFormed_of_readSource hread s hs
    rw [Statement.WellFormed, haction] at hformed
    exact hformed.2.isSome_expressionOf

/-! ## Assembling a text -/

/-- A failure of reading a text is a diagnostic, or it is that of tokenizing. -/
lemma diagnostic_or_tokenize_of_readSource {source file : String} {keepCase : Bool} {f : Failure}
    (h : Statement.readSource source file keepCase = .error f) :
    (∃ d, f = .diagnostic d) ∨ tokenize source file = .error f := by
  cases htokens : tokenize source file with
  | error g =>
    rw [Statement.readSource, htokens] at h
    cases h
    exact .inr rfl
  | ok tokens =>
    rw [Statement.readSource, htokens] at h
    exact .inl (Statement.diagnosed_readTokens tokens file (some source) keepCase f h)

/-- **A failure of assembling** a text is a diagnostic, or it is that of tokenizing. -/
lemma diagnostic_or_tokenize_of_assemble {settings : Settings} (h : settings.fault? = none)
    {source file : String} {f : Failure} (hf : assemble source file settings = .error f) :
    (∃ d, f = .diagnostic d) ∨ tokenize source file = .error f := by
  rw [assemble_eq h] at hf
  cases hread : Statement.readSource source file settings.keepCase with
  | error g =>
    rw [hread] at hf
    cases hf
    exact diagnostic_or_tokenize_of_readSource hread
  | ok ss =>
    rw [hread] at hf
    exact .inl (Workbench.diagnosed_generate h ss f hf)

/-- A text that cannot be tokenized is not assembled. -/
lemma assemble_of_tokenize_eq_error {settings : Settings} (h : settings.fault? = none)
    {source file : String} {f : Failure} (hf : tokenize source file = .error f) :
    assemble source file settings = .error f := by
  rw [assemble_eq h, Statement.readSource, hf]
  rfl

/-- **Assembling gives an image or a diagnostic**, with one exception. With valid settings, any text
is assembled to at most 65536 bytes, or a diagnostic says why it is not, or it has a decimal literal
with more digits than can be converted. The last happens exactly when such a literal comes after
lexemes of the language.

**Proof sketch.** Tokenizing fails at a character where no lexeme can be read. Everything after it
fails only with a diagnostic: reading statements (`Statement.diagnosed_readTokens`) and both passes
(`Workbench.diagnosed_generate`). -/
theorem assemble_image_or_diagnostic {settings : Settings} (h : settings.fault? = none)
    (source file : String) :
    ((∃ code, assemble source file settings = .ok code ∧ code.length ≤ 0x10000) ∨
      (∃ d, assemble source file settings = .error (.diagnostic d)) ∨
      ∃ count, assemble source file settings = .error (.integer (.tooLongToRead count))) ∧
    (∀ count, assemble source file settings = .error (.integer (.tooLongToRead count)) ↔
      Overlong source.toList count) ∧
    LookupsSucceed source file settings.keepCase := by
  refine ⟨?_, fun count => ⟨fun hf => ?_, fun hlong => ?_⟩, lookupsSucceed _ _ _⟩
  · cases houtcome : assemble source file settings with
    | ok code => exact .inl ⟨code, rfl, length_of_assemble houtcome⟩
    | error f =>
      rcases diagnostic_or_tokenize_of_assemble h houtcome with ⟨d, rfl⟩ | htokens
      · exact .inr (.inl ⟨d, rfl⟩)
      · rcases diagnostic_or_integer_of_tokenize htokens with ⟨d, rfl⟩ | ⟨count, rfl⟩
        · exact .inr (.inl ⟨d, rfl⟩)
        · exact .inr (.inr ⟨count, rfl⟩)
  · rcases diagnostic_or_tokenize_of_assemble h hf with ⟨d, hd⟩ | htokens
    · cases hd
    · exact tokenize_eq_tooLongToRead_iff.1 htokens
  · exact assemble_of_tokenize_eq_error h (tokenize_eq_tooLongToRead_iff.2 hlong)

/-- Digits without a suffix are written in base 10. -/
lemma Lexeme.exists_written {literal : List Char} (h : ∀ c ∈ literal, c.isDigit = true) :
    ∃ values, Written literal .decimal values ∧ values.length = literal.length := by
  have hvalue : ∀ c ∈ literal, (Radix.decimal.digit? c).isNone = false := fun c hc =>
    isNameChar_elim (P := fun c => c.isDigit = true → (Radix.decimal.digit? c).isNone = false)
      (by decide +kernel) (Lexes.isNameChar_of_isDigit (h c hc)) (h c hc)
  have hdigits := forall₂_isDigit_iff.2 ⟨hvalue, rfl⟩
  refine ⟨_, ⟨literal, .inr ⟨fun c hc => ?_, rfl, rfl⟩, hdigits⟩, hdigits.length_eq.symm⟩
  exact Radix.notMem_suffixes (h c (List.mem_of_getLast? hc))

/-- A byte whose literal consists of more digits than can be converted is not assembled. -/
lemma assemble_of_digits {settings : Settings} (h : settings.fault? = none) (file : String)
    {c : Char} {tail : List Char} (hdigits : ∀ d ∈ c :: tail, d.isDigit = true)
    (hlong : Integer.digitLimit < (c :: tail).length) :
    assemble (String.ofList ("DB ".toList ++ c :: tail)) file settings =
      .error (.integer (.tooLongToRead (c :: tail).length)) := by
  refine assemble_of_tokenize_eq_error h (tokenize_eq_tooLongToRead_iff.2 ?_)
  rw [String.toList_ofList]
  obtain ⟨hc, htail⟩ := List.forall_mem_cons.1 hdigits
  obtain ⟨values, hwritten, hlength⟩ := Lexeme.exists_written hdigits
  have hname : Fragment.IsLexeme ⟨['D', 'B'], some (.keyword .db)⟩ (' ' :: c :: tail) :=
    .name (.inl rfl) ⟨by simp [IsWordChar], by simp [IsWordChar]⟩ (.keyword (by decide +kernel))
  have hspace : Fragment.IsLexeme ⟨[' '], none⟩ (c :: tail) := .separators (by simp) (by simp)
  have hdivides : Divides ("DB ".toList ++ c :: tail)
      [⟨['D', 'B'], some (.keyword .db)⟩, ⟨[' '], none⟩] (c :: tail ++ []) := by
    rw [List.append_nil]
    exact .cons hname (.cons hspace .nil)
  have hrun : WordRun tail [] := ⟨fun d hd => .inr (.inl (htail d hd)), by simp⟩
  exact ⟨_, c, tail, [], values, hdivides, hc, hrun, hwritten, hlength ▸ hlong, hlength.symm⟩

/-- The digits of a literal that is one digit too long: zeros, and a one. -/
def overlongDigits : List Char := List.replicate 4299 '0' ++ ['1']

/-- A byte with a literal of 4301 digits. -/
def overlongText : String := String.ofList ("DB ".toList ++ '0' :: overlongDigits)

/-- A byte with a literal of 4301 digits is not assembled. -/
lemma assemble_overlong :
    assemble overlongText unnamedFile {} =
      .error (.integer (.tooLongToRead ('0' :: overlongDigits).length)) := by
  have hdigits : ∀ d ∈ '0' :: overlongDigits, d.isDigit = true := by
    refine List.forall_mem_cons.2 ⟨rfl, List.forall_mem_append.2 ⟨fun d hd => ?_, by simp⟩⟩
    rw [List.eq_of_mem_replicate hd]
    rfl
  have hlong : Integer.digitLimit < ('0' :: overlongDigits).length := by
    rw [List.length_cons, overlongDigits, List.length_append, List.length_replicate]
    decide
  exact assemble_of_digits rfl unnamedFile hdigits hlong

/-- A literal of 4301 digits has too many. -/
theorem overlong_overlongText :
    ({} : Settings).fault? = none ∧
      Overlong overlongText.toList ('0' :: overlongDigits).length :=
  ⟨rfl, ((assemble_image_or_diagnostic rfl overlongText unnamedFile).2.1 _).1 assemble_overlong⟩

/-- A byte with a literal of 4301 digits gives neither an image nor a diagnostic. -/
theorem assemble_overlongText :
    ({} : Settings).fault? = none ∧
      ¬((∃ code, assemble overlongText unnamedFile {} = .ok code ∧ code.length ≤ 0x10000) ∨
        ∃ d, assemble overlongText unnamedFile {} = .error (.diagnostic d)) := by
  refine ⟨rfl, ?_⟩
  rw [assemble_overlong]
  rintro (⟨code, hcode, -⟩ | ⟨d, hd⟩)
  · cases hcode
  · cases hd

end Asm8080
