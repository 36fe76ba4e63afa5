import Asm8080.Proofs.Assembly.Sequence
import Asm8080.Proofs.Disassembly.Scan
import Asm8080.Proofs.Disassembly.Text

/-!
# Disassembling and assembling again

The text of a lenient disassembly is a program. Each of its lines is read as a statement that has
the bytes of its record as its code, after an origin if the data is not at address 0. So the program
can be assembled, and its image holds the bytes of the records where they were.

## Main results

* `Asm8080.Record.Faithful.exists_reads` — the line of a record is read as a statement with the
  bytes of the record.
* `Asm8080.assemble_disassembly` — the text of a disassembly is assembled to the same bytes.
-/

set_option autoImplicit false

namespace Asm8080

/-! ## Statements of records -/

/-- The value of a literal that is a word is the literal. -/
lemma Expr.evaluate_literal {value : Nat} (h : value < Word.count) (symbols : SymbolTable)
    (address : Int) (text : Option String) (l : Location) :
    Expr.evaluate symbols address text (.literal l (Word.ofInt value)) = .ok value := by
  rw [Expr.evaluate, Word.ofInt_of_lt h, Word.ofInt_of_lt h]

/-- The values that fit in the bits of an immediate are words. -/
lemma Immediate.limit_le (kind : Immediate) : kind.limit ≤ Word.count := by
  cases kind <;> decide

namespace Statement

/-- An instruction with the tokens of a row and a value has the code of that row and value. -/
lemma emits_instruction {e : Encoding} (h : e ∈ Encoding.table) {value : Nat}
    (hvalue : ∀ kind ∈ e.immediate?, value < kind.limit) {s : Statement} {operands : List Operand}
    (ha : s.action = .instruction e operands)
    (hoperands : List.Forall₂ (Slot.Reads value) e.slots operands) : s.Emits (e.code value) := by
  have htakes := Encoding.takes_iff.2 (Line.fills_of_reads hoperands)
  have hevaluate : ∀ x ∈ Operand.expressionOf operands, ∀ symbols address text,
      x.evaluate symbols address text = .ok value := by
    intro x hx symbols address text
    obtain ⟨o, ho, hox⟩ := List.exists_of_findSome?_eq_some hx
    obtain ⟨slot, hslot, hreads⟩ := Encoding.exists_mem_of_forall₂ hoperands ho
    cases slot with
    | register r =>
      obtain rfl : o = .register r := hreads
      cases hox
    | value kind =>
      obtain ⟨l, rfl⟩ := hreads
      cases hox
      have hlt := hvalue kind (Encoding.immediate?_eq h hslot)
      exact Expr.evaluate_literal (Nat.lt_of_lt_of_le hlt kind.limit_le) _ _ _ _
  refine ⟨by rw [ha]; rfl, by rw [ha]; trivial, ?_, fun symbols address => ?_⟩
  · rw [ha, Encoding.length_code h]
    rfl
  · have htakesValue : e.TakesValue value := fun kind hk => Immediate.takes_of_lt (hvalue kind hk)
    rw [encode, ha]
    refine map_eq_ok_iff.2 ⟨e.code value, ?_, rfl⟩
    exact htakes.encodeInstruction_iff.2
      ⟨value, fun x hx => hevaluate x hx _ _ _, htakesValue, rfl⟩

/-- A data directive with a byte has the byte as its code. -/
lemma emits_data {b : UInt8} {s : Statement} {l : Location}
    (ha : s.action = .data none .byte (.literal l (Word.ofInt b.toNat))) : s.Emits [b] := by
  have hlt := b.toNat_lt
  refine ⟨by rw [ha]; rfl, by rw [ha]; trivial, by rw [ha]; rfl, fun symbols address => ?_⟩
  rw [encode, ha]
  refine map_eq_ok_iff.2 ⟨[b], encodeData_eq_ok_iff.2 ⟨b.toNat, ?_, ?_, ?_⟩, rfl⟩
  · exact Expr.evaluate_literal (by simp only [Word.count]; omega) _ _ _ _
  · exact .inl (by omega)
  · simp [Width.immediate, Immediate.bytes]

end Statement

/-! ## Lines of records -/

/-- What is read has every property that follows. -/
lemma Line.Reads.mono {ks : List Token.Kind} {P Q : Statement → Prop} (h : Line.Reads ks P)
    (hPQ : ∀ s, P s → Q s) : Line.Reads ks Q := by
  intro ctx ts hts
  obtain ⟨s, hs, hP⟩ := h ctx ts hts
  exact ⟨s, hs, hPQ s hP⟩

/-- The name for an address among operands is one of the names. -/
lemma Disassembler.oneLine_nameFor {d : Disassembler}
    (hnames : ∀ address name, d.names.lookup address = some name → OneLine name)
    (arguments : List Argument) : OneLine ((d.nameFor arguments).getD "") := by
  cases hname : d.nameFor arguments with
  | none => exact show OneLine "" by decide
  | some name =>
    obtain ⟨argument, -, hargument⟩ := List.exists_of_findSome?_eq_some hname
    cases argument with
    | word value => exact hnames value name hargument
    | register | byte | vector => cases hargument

/-- **The line of a faithful record** is read as a statement with the bytes of the record. -/
lemma Record.Faithful.exists_reads {d : Disassembler} {r : Record} (h : r.Faithful d)
    (hnames : ∀ address name, d.names.lookup address = some name → OneLine name)
    (showBytes : Bool) :
    ∃ ks, (∀ rest,
        Lexes (((if showBytes then Record.line else Record.text) r).toList ++ '\n' :: rest)
          (ks ++ [.newline]) rest) ∧
      Line.Reads ks (Statement.Emits r.bytes) := by
  unfold Faithful at h
  cases hr : r.content with
  | instruction e arguments name =>
    rw [hr] at h
    obtain ⟨value, htable, hvalue, rfl, hbytes, rfl⟩ := h
    have hcomment : OneLine r.comment := by
      rw [comment, hr]
      exact Disassembler.oneLine_nameFor hnames _
    refine ⟨_, lexes_shown (fun rest => lexes_instruction htable hvalue hr) hcomment showBytes, ?_⟩
    refine (Line.reads_instruction htable value).mono ?_
    rintro s ⟨operands, ha, hoperands⟩
    rw [hbytes]
    exact Statement.emits_instruction htable hvalue ha hoperands
  | data problem =>
    rw [hr] at h
    have hcomment : OneLine r.comment := by
      rw [comment, hr]
      exact OneLine.message r.opcode problem
    refine ⟨_, lexes_shown (fun rest => lexes_data hr) hcomment showBytes, ?_⟩
    refine (Line.reads_data _ _).mono ?_
    rintro s ⟨l, ha⟩
    rw [show r.bytes = [r.opcode] from h]
    exact Statement.emits_data ha

/-! ## The whole text -/

/-- Lines are read one after another. -/
lemma lexes_lines {lines : List String} {kss : List (List Token.Kind)}
    (h : List.Forall₂ (fun line ks => ∀ rest,
      Lexes (line.toList ++ '\n' :: rest) (ks ++ [.newline]) rest) lines kss) :
    Lexes (lines.flatMap fun line => line.toList ++ ['\n'])
      (kss.flatMap fun ks => ks ++ [.newline]) [] := by
  induction h with
  | nil => exact Lexes.refl []
  | cons hline _ ih =>
    rw [List.flatMap_cons, List.flatMap_cons, List.append_assoc]
    exact (hline _).append ih

/-- The lines of faithful records are read as statements with the bytes of the records. -/
lemma exists_reads_records {d : Disassembler} {rs : List Record} (hrs : ∀ r ∈ rs, r.Faithful d)
    (hnames : ∀ address name, d.names.lookup address = some name → OneLine name)
    (showBytes : Bool) :
    ∃ kss, List.Forall₂ (fun line ks => ∀ rest,
        Lexes (line.toList ++ '\n' :: rest) (ks ++ [.newline]) rest)
          (rs.map (if showBytes then Record.line else Record.text)) kss ∧
      List.Forall₂ Line.Reads kss (rs.map fun r => Statement.Emits r.bytes) := by
  induction rs with
  | nil => exact ⟨[], .nil, .nil⟩
  | cons r rs ih =>
    obtain ⟨hr, hrs⟩ := List.forall_mem_cons.1 hrs
    obtain ⟨ks, hlexes, hreads⟩ := hr.exists_reads hnames showBytes
    obtain ⟨kss, hlines, hkss⟩ := ih hrs
    exact ⟨ks :: kss, .cons hlexes hlines, .cons hreads hkss⟩

/-- The line of an origin is read as the tokens of one. -/
lemma lexes_origin {start : Nat} (hstart : start < 0x10000) (rest : List Char) :
    Lexes (("ORG " ++ Hex.literal 4 start).toList ++ '\n' :: rest)
      ([.keyword .org, .number start .hexadecimal] ++ [.newline]) rest := by
  have hends : Lexes.Ends ('\n' :: rest) := Lexes.ends_cons rfl rest
  have hliteral := Lexes.hexLiteral 4 start hends
  rw [Nat.mod_eq_of_lt hstart] at hliteral
  have hspace : Lexes.Ends (' ' :: ((Hex.literal 4 start).toList ++ '\n' :: rest)) :=
    Lexes.ends_cons rfl _
  have hpieces := (Keyword.org.lexes_name hspace).append
    ((Lexes.separator rfl _).append (hliteral.append (Lexes.newline rest)))
  simpa [Keyword.name] using hpieces

/-- An origin leads to its address. -/
lemma Layout.exists_origin {s : Statement} {l : Location} {start : Nat}
    (hstart : start < Word.count) (ha : s.action = .origin (.literal l (Word.ofInt start))) :
    ∃ l', Layout.ofStatements [s] = (l', none) ∧ l'.cursor = start := by
  have hnow : ∀ l' : Layout,
      l'.evaluateNow s "ORG" (.literal l (Word.ofInt start)) = .ok start := by
    intro l'
    simp [evaluateNow, Expr.labelSet, Expr.labels, Expr.evaluate_literal hstart]
  simp [ofStatements, run, step, ha, hnow]

/-- **The text of a disassembly is read as a program**: statements that lead to the start address
and place nothing, and statements with the bytes of the records. -/
lemma exists_readSource_text {d : Disassembler} {s : Disassembly} (hfault : s.fault = none)
    (hrs : ∀ r ∈ s.records, r.Faithful d)
    (hnames : ∀ address name, d.names.lookup address = some name → OneLine name) {start : Nat}
    (hstart : start < 0x10000) (showBytes : Bool) (file : String) (keepCase : Bool) :
    ∃ text front body l, s.text start showBytes = .ok text ∧
      Statement.readSource text file keepCase = .ok (front ++ body) ∧
      Layout.ofStatements front = (l, none) ∧ l.cursor = start ∧
      (∀ s ∈ front, ¬s.action.Places) ∧
      List.Forall₂ Statement.Emits (s.records.map Record.bytes) body := by
  obtain ⟨kss, hlines, hkss⟩ := exists_reads_records hrs hnames showBytes
  have hbody : ∀ body, List.Forall₂ (fun P s => P s)
      (s.records.map fun r => Statement.Emits r.bytes) body →
        List.Forall₂ Statement.Emits (s.records.map Record.bytes) body := by
    intro body h
    rw [List.forall₂_map_left_iff] at h ⊢
    exact h
  unfold Disassembly.text Disassembly.lines
  rw [hfault]
  by_cases hzero : start = 0
  · subst hzero
    have hlexes := lexes_lines hlines
    rw [← toList_joinLines] at hlexes
    obtain ⟨body, hread, hP⟩ := Statement.exists_readSource hkss hlexes file keepCase
    exact ⟨_, [], body, {}, rfl, hread, rfl, rfl, fun s hs => absurd hs List.not_mem_nil,
      hbody body hP⟩
  · have hlexes := lexes_lines (.cons (lexes_origin hstart) hlines)
    rw [← toList_joinLines] at hlexes
    obtain ⟨ss, hread, hP⟩ := Statement.exists_readSource
      (.cons (Line.reads_origin start .hexadecimal) hkss) hlexes file keepCase
    obtain ⟨origin, body, ⟨l, ha⟩, hrest, rfl⟩ := List.forall₂_cons_left_iff.1 hP
    obtain ⟨layout, hlayout, hcursor⟩ := Layout.exists_origin hstart ha
    have hstart' : (start : Int) ≠ 0 := by omega
    refine ⟨_, [origin], body, layout, rfl, ?_, hlayout, hcursor, ?_, hbody body hrest⟩
    · rw [if_neg hstart']
      exact hread
    · intro s hs
      obtain rfl := List.mem_singleton.1 hs
      rw [ha]
      exact id

/-! ## Assembling -/

/-- The text of a lenient disassembly is assembled to the bytes of its records. -/
lemma assemble_text {d : Disassembler} (hd : d.strict = false)
    (hnames : ∀ address name, d.names.lookup address = some name → OneLine name)
    (data : List UInt8) {start : Nat} (hstart : start < 0x10000) (count : Option Int)
    (showBytes : Bool) (file : String) {settings : Settings} (hsettings : settings.fault? = none)
    (hsize : settings.imageSize = none) :
    ∃ text, (d.disassemble data start count).text start showBytes = .ok text ∧
      assemble text file settings = .ok (Piece.alone settings.fill
        ⟨start, (d.disassemble data start count).records.flatMap Record.bytes⟩) := by
  obtain ⟨hfault, hrs, hprefix, -⟩ := Disassembler.disassemble_faithful hd data hstart count
  obtain ⟨text, front, body, l, htext, hread, hl, rfl, hfront, hbody⟩ :=
    exists_readSource_text hfault hrs hnames hstart showBytes file settings.keepCase
  have hlength := hprefix.length_le
  rw [List.length_take] at hlength
  rw [List.flatMap_def] at hlength ⊢
  have hfits : l.cursor +
      ((d.disassemble data l.cursor count).records.map Record.bytes).flatten.length ≤
        Word.count := by
    simp only [Word.count]
    omega
  refine ⟨text, htext, ?_⟩
  rw [assemble_eq_generate hsettings hread]
  exact Workbench.generate_sequence hsettings hsize hl hfront hbody hfits

/-- **Assembling undoes disassembling.** The text of a lenient disassembly is a program, with or
without the bytes shown, if no name for an address holds a line feed. Its image holds the bytes of
the records from the start address on, and the fill byte below. Without a count these are all bytes
of the data that the address space holds. In particular, the image of a program is the image of its
disassembly.

**Proof sketch.** Each line is read as a statement with the bytes of its record
(`Record.Faithful.exists_reads`), so that the program is assembled to the bytes of all records
(`assemble_text`). An image is no larger than the address space, so it is disassembled as a whole.
-/
theorem assemble_disassembly (d : Disassembler) (hd : d.strict = false)
    (hnames : ∀ address name, d.names.lookup address = some name → OneLine name)
    (showBytes : Bool) (file : String) :
    (∀ (data : List UInt8) (start : Nat) (count : Option Int), start < 0x10000 →
      ∃ text image, (d.disassemble data start count).text start showBytes = .ok text ∧
        assemble text file {} = .ok image ∧
        image.drop start = (d.disassemble data start count).records.flatMap Record.bytes ∧
        (∀ b ∈ image.take start, b = Settings.fill {}) ∧
        ((d.disassemble data start count).records = [] → image = []) ∧
        (count = none → image.drop start = data.take (0x10000 - start))) ∧
      ∀ (source sourceFile : String) (settings : Settings) (image : List UInt8),
        assemble source sourceFile settings = .ok image →
          ∃ text, (d.disassemble image 0 none).text 0 showBytes = .ok text ∧
            assemble text file {} = .ok image := by
  have hdefault : ({} : Settings).fault? = none := rfl
  constructor
  · intro data start count hstart
    obtain ⟨text, htext, himage⟩ :=
      assemble_text hd hnames data hstart count showBytes file hdefault rfl
    obtain ⟨-, -, -, hall⟩ := Disassembler.disassemble_faithful hd data hstart count
    generalize (d.disassemble data start count).records = rs at himage hall ⊢
    have hdrop := Piece.drop_alone (Settings.fill {}) start (rs.flatMap Record.bytes)
    refine ⟨text, _, htext, himage, hdrop, fun b => Piece.eq_of_mem_take_alone, ?_, ?_⟩
    · rintro rfl
      rfl
    · intro hcount
      exact hdrop.trans (hall hcount)
  · intro source sourceFile settings image h
    have hzero : 0 < 0x10000 := by decide
    have hwhole : image.take (0x10000 - 0) = image := List.take_of_length_le (length_of_assemble h)
    obtain ⟨text, htext, himage⟩ :=
      assemble_text hd hnames image hzero none showBytes file hdefault rfl
    obtain ⟨-, -, -, hall⟩ := Disassembler.disassemble_faithful hd image hzero none
    rw [hall rfl, hwhole, Piece.alone_zero] at himage
    exact ⟨text, htext, himage⟩

/-- A lenient disassembler with a name for an address. -/
def sampleDisassembler : Disassembler := { names := [(0x1234, "START; here")] }

/-- A byte that begins no instruction, a call to a name and a jump cut short are assembled again,
and so is an image with a fill byte of its own. -/
theorem assemble_sampleDisassembly :
    (∀ address name, sampleDisassembler.names.lookup address = some name → OneLine name) ∧
      (∃ text image,
        (sampleDisassembler.disassemble [0x08, 0xCD, 0x34, 0x12, 0xC3, 0x01] 0x100 none).text 0x100
          true = .ok text ∧
        assemble text "sample.asm" {} = .ok image ∧
        image.drop 0x100 = [0x08, 0xCD, 0x34, 0x12, 0xC3, 0x01]) ∧
      assemble "ORG 2\nRST 7\n" "restart.asm" { fillByte := 0xFF } = .ok [0xFF, 0xFF, 0xFF] ∧
      ∃ text, (sampleDisassembler.disassemble [0xFF, 0xFF, 0xFF] 0 none).text 0 true = .ok text ∧
        assemble text "sample.asm" {} = .ok [0xFF, 0xFF, 0xFF] := by
  have hnames : ∀ address name,
      sampleDisassembler.names.lookup address = some name → OneLine name := by
    intro address name h
    obtain ⟨before, after, hsplit, -⟩ := List.lookup_eq_some_iff.1 h
    have hmem : (address, name) ∈ sampleDisassembler.names := by simp [hsplit]
    obtain ⟨-, rfl⟩ := Prod.mk.inj (List.mem_singleton.1 hmem)
    decide
  have himage : assemble "ORG 2\nRST 7\n" "restart.asm" { fillByte := 0xFF } =
      .ok [0xFF, 0xFF, 0xFF] := by decide +kernel
  obtain ⟨hdata, hprogram⟩ := assemble_disassembly sampleDisassembler rfl hnames true "sample.asm"
  obtain ⟨text, image, htext, hassemble, -, -, -, hall⟩ :=
    hdata [0x08, 0xCD, 0x34, 0x12, 0xC3, 0x01] 0x100 none (by decide)
  exact ⟨hnames, ⟨text, image, htext, hassemble, hall rfl⟩, himage, hprogram _ _ _ _ himage⟩

end Asm8080
