import Mathlib.Data.List.Forall2
import Asm8080.Proofs.Assembly.SymbolFile
import Asm8080.Proofs.Disassembly.Partition

/-!
# What a listing tells

A listing is written for a reader, but it tells all that the program contains. Its rows stand for
the statements that place bytes and for the origins, in their order; the address and the bytes stand
in columns of fixed width and can be read back; and writing them one after another into a blank
image gives the image of the program. The symbols follow, sorted by name.

That a row can be taken apart again rests on three facts. An address has four digits, since it is in
the address space. A statement places at most three bytes, so that they do not run over their
column. The source text in a row is a line of the source, so that it holds no line feed.

## Main definitions

* `Asm8080.Image.writePieces` — write pieces of code one after another.
* `Asm8080.Row.Shows`, `Asm8080.Row.Legible` — what a row shows, and that it fits its columns.
* `Asm8080.Listing.addressIn?`, `Asm8080.Listing.codeIn` — the address and the bytes in the columns
  of a line.
* `Asm8080.Listing.symbolIn?` — the symbol in a line.
* `Asm8080.Listing.Describes` — what a line tells of a statement.

## Main results

* `Asm8080.Emission.exists_rows_of_run` — the rows of the second pass, and how they make up the
  image.
* `Asm8080.Listing.columns_rowText` — a row is taken apart at its columns.
* `Asm8080.Listing.feedLines_text` — the lines of a listing.
* `Asm8080.Workbench.rows_of_assemble` — the rows of an assembled text.
* `Asm8080.Workbench.listing_describes_image` — a listing tells what the image contains.
-/

set_option autoImplicit false

namespace Asm8080

open Statement (Context)

/-! ## Pieces written one after another -/

namespace Image

/-- Write pieces of code one after another. -/
def writePieces (i : Image) (ps : List Piece) : Except Failure Image :=
  ps.foldlM (fun i p => Prod.fst <$> i.writeAll p.address p.code) i

/-- One piece is written like its bytes. -/
lemma writePieces_singleton {i i' : Image} {p : Piece} {events : List Event}
    (h : i.writeAll p.address p.code = .ok (i', events)) : i.writePieces [p] = .ok i' := by
  rw [writePieces, List.foldlM_cons, h]
  rfl

/-- More pieces are written into what the first ones left. -/
lemma writePieces_append {i i' : Image} {ps : List Piece} (h : i.writePieces ps = .ok i')
    (qs : List Piece) : i.writePieces (ps ++ qs) = i'.writePieces qs := by
  unfold writePieces at h ⊢
  rw [List.foldlM_append, h]
  rfl

/-- **The bytes of an image up to a size** are its bytes, and fill bytes after them. -/
lemma Holds.toBytes_eq_append {fill : UInt8} {ps : List Piece} {i : Image} (h : Holds fill ps i)
    {least : Option Int} (hleast : (least.getD 0).toNat ≤ Word.count) :
    i.toBytes least = i.toBytes none ++
      List.replicate ((least.getD 0).toNat - (i.toBytes none).length) fill := by
  have hbeyond : ∀ x, i.highWater ≤ x → i.byte x = fill := by
    intro x hx
    have hnone : Piece.byteIn? ps x = none := by
      by_contra hsome
      obtain ⟨b, hb⟩ := Option.ne_none_iff_exists'.1 hsome
      obtain ⟨p, hp, hcovers⟩ := Piece.exists_covers_of_byteIn? hb
      have := Piece.Covers.lt_extent hp hcovers
      rw [← h.highWater_eq] at this
      omega
    rw [h.byte_eq, hnone, Option.getD_none]
  simp only [toBytes, Option.getD_none, Int.toNat_zero, List.length_map, List.length_range]
  set own := min Word.count (max i.highWater 0) with hown
  have hsize : min Word.count (max i.highWater (least.getD 0).toNat) =
      own + ((least.getD 0).toNat - own) := by omega
  rw [hsize, List.range_add, List.map_append, List.map_map]
  congr 1
  refine List.eq_replicate_iff.2 ⟨by simp, List.forall_mem_map.2 fun x hx => ?_⟩
  have := List.mem_range.1 hx
  exact hbeyond (own + x) (by omega)

end Image

/-! ## The rows of the second pass -/

/-- Data, instructions and origins have a row in a listing. -/
def Action.isListed : Action → Bool
  | data _ _ _ | instruction _ _ | origin _ => true
  | label _ | equate _ _ => false

/-- What places bytes has a row. -/
lemma Action.Places.isListed {a : Action} (h : a.Places) : a.isListed = true := by
  cases a with
  | data | instruction | origin => rfl
  | label | equate => exact h.elim

namespace Statement

variable {symbols : SymbolTable} {address : Nat} {s : Statement}

/-- A statement that has code places it. -/
lemma places_of_encode {code : List UInt8} (h : s.encode symbols address = .ok (some code)) :
    s.action.Places := by
  by_contra hn
  rw [encode_of_not_places hn] at h
  cases h

/-- A statement that is encoded without code places none. -/
lemma not_places_of_encode (h : s.encode symbols address = .ok none) : ¬s.action.Places := by
  intro hp
  obtain ⟨bytes, hbytes, -⟩ := piece_of_places hp ⟨none, h⟩
  rw [h] at hbytes
  cases hbytes

/-- A well-formed statement that places bytes places at least one and at most three. -/
lemma size_of_places (hs : s.WellFormed) (hp : s.action.Places) :
    1 ≤ s.action.size ∧ s.action.size ≤ 3 := by
  unfold WellFormed at hs
  cases ha : s.action with
  | label | origin | equate =>
    rw [ha] at hp
    exact hp.elim
  | data name width e => cases width <;> simp [Action.size, Width.size]
  | instruction encoding operands =>
    simp only [ha] at hs
    exact Encoding.size_le hs.1

end Statement

namespace Row

/-- What a row places in the image. -/
def piece? (row : Row) : Option Piece := row.address.map fun address => ⟨address, row.code⟩

/-- **What a row shows** of a statement at an address: its line, and the address and the code of a
statement that places bytes. -/
structure Shows (symbols : SymbolTable) (s : Statement) (address : Nat) (row : Row) : Prop where
  line_eq : row.line = s.location.line
  text_eq : row.text = s.text
  of_places : s.action.Places →
    row.address = some address ∧ s.encode symbols address = .ok (some row.code)
  of_not_places : ¬s.action.Places → row.address = none ∧ row.code = []

/-- **A row fits its columns**: its address has four digits, its bytes are at most three, and its
text is one line. -/
structure Legible (row : Row) : Prop where
  address_lt : ∀ address ∈ row.address, address < 0x10000
  length_code_le : row.code.length ≤ 3
  oneLine : OneLine row.text

/-- The row of a well-formed statement that fits in the address space fits its columns. -/
lemma Shows.legible {symbols : SymbolTable} {s : Statement} {address : Nat} {row : Row}
    (h : Shows symbols s address row) (hs : s.WellFormed) (hfits : s.Fits symbols address)
    (htext : OneLine s.text) : row.Legible := by
  have htext' : OneLine row.text := h.text_eq ▸ htext
  by_cases hp : s.action.Places
  · obtain ⟨haddress, hcode⟩ := h.of_places hp
    have hlen := Statement.length_encode hs hcode
    obtain ⟨hpos, hle⟩ := Statement.size_of_places hs hp
    have hpiece : s.piece symbols address = ⟨address, row.code⟩ := by
      rw [Statement.piece, hcode]
    have hlimit := hfits.2
    rw [hpiece, Emission.limit_le_iff] at hlimit
    refine ⟨?_, by omega, htext'⟩
    rw [haddress]
    rintro _ ⟨⟩
    rcases hlimit with hnil | hend
    · simp only at hnil
      rw [hnil, List.length_nil] at hlen
      omega
    · simp only [Word.count] at hend
      omega
  · obtain ⟨haddress, hcode⟩ := h.of_not_places hp
    exact ⟨by simp [haddress], by simp [hcode], htext'⟩

end Row

namespace Emission

variable {symbols : SymbolTable} {m m' : Emission} {s : Statement} {address : Nat}

/-- **One step of the second pass** adds a row exactly for a statement that is listed, and what the
row places is what the step writes into the image.

**Proof sketch.** A statement with code is data or an instruction; its row has the address and the
code that are written. A statement without code writes nothing. It has a row if it is an origin, and
none if it is a label or an equate. -/
lemma exists_rows_of_step (h : m.step symbols s address = (m', none)) :
    ∃ rows, m'.rows.toList = m.rows.toList ++ rows ∧
      List.Forall₂ (fun p row => Row.Shows symbols p.1 p.2 row)
        ([(s, address)].filter fun p => p.1.action.isListed) rows ∧
      m.image.writePieces (rows.filterMap Row.piece?) = .ok m'.image := by
  unfold step at h
  cases henc : s.encode symbols address with
  | error f => simp [henc] at h
  | ok code =>
    cases code with
    | some code =>
      have hp := Statement.places_of_encode henc
      simp only [henc] at h
      cases hw : m.image.writeAll address code with
      | error f => simp [hw] at h
      | ok result =>
        obtain ⟨image, events⟩ := result
        simp only [hw, Prod.mk.injEq, and_true] at h
        subst h
        refine ⟨[⟨some address, code, s.location.line, s.text⟩], by simp, ?_,
          Image.writePieces_singleton hw⟩
        simp only [List.filter_cons, List.filter_nil, hp.isListed, if_true]
        exact .cons ⟨rfl, rfl, fun _ => ⟨rfl, henc⟩, fun hn => absurd hp hn⟩ .nil
    | none =>
      have hp := Statement.not_places_of_encode henc
      simp only [henc] at h
      cases ha : s.action with
      | data | instruction =>
        rw [ha] at hp
        exact absurd trivial hp
      | origin e =>
        simp only [ha, Prod.mk.injEq, and_true] at h
        subst h
        refine ⟨[⟨none, [], s.location.line, s.text⟩], by simp, ?_, rfl⟩
        have hlisted : s.action.isListed = true := by rw [ha]; rfl
        simp only [List.filter_cons, List.filter_nil, hlisted, if_true]
        exact .cons ⟨rfl, rfl, fun hp' => absurd hp' hp, fun _ => ⟨rfl, rfl⟩⟩ .nil
      | label | equate =>
        simp only [ha, Prod.mk.injEq, and_true] at h
        subst h
        have hlisted : s.action.isListed = false := by rw [ha]; rfl
        refine ⟨[], by simp, ?_, rfl⟩
        simp only [List.filter_cons, List.filter_nil, hlisted]
        exact .nil

/-- **The rows of the second pass** are one for each statement that is listed, in their order, and
writing what they place one after another gives the image. -/
lemma exists_rows_of_run {ps : List (Statement × Nat)} (h : m.run symbols ps = (m', none)) :
    ∃ rows, m'.rows.toList = m.rows.toList ++ rows ∧
      List.Forall₂ (fun p row => Row.Shows symbols p.1 p.2 row)
        (ps.filter fun p => p.1.action.isListed) rows ∧
      m.image.writePieces (rows.filterMap Row.piece?) = .ok m'.image := by
  induction ps generalizing m with
  | nil =>
    cases h
    exact ⟨[], by simp, .nil, rfl⟩
  | cons p ps ih =>
    obtain ⟨s, address⟩ := p
    rw [run] at h
    rcases hs : m.step symbols s address with ⟨m₁, _ | f⟩
    · rw [hs] at h
      obtain ⟨rows₁, hrows₁, hshows₁, hwrite₁⟩ := exists_rows_of_step hs
      obtain ⟨rows₂, hrows₂, hshows₂, hwrite₂⟩ := ih h
      refine ⟨rows₁ ++ rows₂, by rw [hrows₂, hrows₁, List.append_assoc], ?_, ?_⟩
      · rw [← List.singleton_append, List.filter_append]
        exact List.rel_append hshows₁ hshows₂
      · rw [List.filterMap_append, Image.writePieces_append hwrite₁, hwrite₂]
    · simp [hs] at h

end Emission

/-! ## The columns of a row -/

namespace Listing

/-- The address in the first four columns of a line, if they are not blank. -/
def addressIn? (line : List Char) : Option Nat :=
  if (line.take 4).all (· == ' ') then none else some (Hex.valueOf (line.take 4))

/-- The bytes in the eight columns from the seventh on. -/
def codeIn (line : List Char) : List UInt8 :=
  (Text.words (String.ofList ((line.drop 6).take 8))).map fun word =>
    UInt8.ofNat (Hex.valueOf word.toList)

/-- What a line with an address places in the image. -/
def pieceIn? (line : List Char) : Option Piece :=
  (addressIn? line).map fun address => ⟨address, codeIn line⟩

/-- Bytes in hexadecimal take up two columns each, with one between two bytes. -/
lemma length_bytes_le (bs : List UInt8) : (Hex.bytes bs).length ≤ 3 * bs.length - 1 := by
  have hbyte : ∀ b : UInt8, (Hex.byte b).toList.length = 2 := by
    intro b
    rw [Hex.byte, Hex.padded, String.toList_ofList]
    exact Hex.length_paddedChars (by decide) b.toNat_lt
  rw [Hex.bytes, ← String.length_toList, String.toList_intercalate]
  induction bs with
  | nil => rfl
  | cons b bs ih =>
    cases bs with
    | nil => simp [List.intercalate, hbyte]
    | cons b' bs =>
      simp only [List.map_cons, List.intercalate_cons_cons, List.length_append, hbyte,
        List.length_cons] at ih ⊢
      have hspace : " ".toList.length = 1 := rfl
      omega

/-- A byte in hexadecimal is a word. -/
lemma word_byte (b : UInt8) :
    Hex.byte b ≠ "" ∧ ∀ c ∈ (Hex.byte b).toList, Text.isBlank c = false := by
  constructor
  · intro hempty
    refine Hex.paddedChars_ne_nil 2 b.toNat ?_
    rw [← String.toList_ofList (l := Hex.paddedChars 2 b.toNat)]
    exact congrArg String.toList hempty
  · intro c hc
    rw [Hex.byte, Hex.padded, String.toList_ofList] at hc
    exact (SymbolFile.plain_of_isNameChar (Hex.isDigit_of_mem_paddedChars hc).isNameChar).1

/-- **Bytes in hexadecimal are words**, also with blanks after them. -/
lemma words_bytes_append (bs : List UInt8) {blanks : String}
    (hblanks : ∀ c ∈ blanks.toList, Text.isBlank c = true) :
    Text.words (Hex.bytes bs ++ blanks) = bs.map Hex.byte := by
  have hhead : ∀ c ∈ blanks.toList.head?, Text.isBlank c = true := fun c hc =>
    hblanks c (List.mem_of_head? hc)
  induction bs with
  | nil =>
    have hnil : Hex.bytes [] = "" := rfl
    rw [hnil, String.empty_append]
    exact Text.words_of_blank hblanks
  | cons b bs ih =>
    obtain ⟨hne, hword⟩ := word_byte b
    cases bs with
    | nil =>
      have hone : Hex.bytes [b] = Hex.byte b := rfl
      rw [hone, Text.words_append hne hword hhead, Text.words_of_blank hblanks]
      rfl
    | cons b' bs =>
      have hmore : Hex.bytes (b :: b' :: bs) = Hex.byte b ++ (" " ++ Hex.bytes (b' :: bs)) := by
        rw [Hex.bytes, List.map_cons, List.map_cons, String.intercalate_cons_cons,
          String.append_assoc]
        rfl
      rw [hmore, String.append_assoc, String.append_assoc,
        Text.words_cons hne hword (by decide) Text.isBlank_space, ih]
      rfl

/-- The value of a byte in hexadecimal is the byte. -/
lemma ofNat_valueOf_byte (b : UInt8) : UInt8.ofNat (Hex.valueOf (Hex.byte b).toList) = b := by
  rw [Hex.byte, Hex.padded, String.toList_ofList, Hex.valueOf_paddedChars, UInt8.ofNat_toNat]

/-- **A row is taken apart at its columns** into the address, the bytes, and the line of the
source. -/
lemma columns_rowText {row : Row} (h : row.Legible) :
    (rowText row).toList.take 4 = (row.address.elim "    " fun a => Hex.padded 4 a).toList ∧
      ((rowText row).toList.drop 6).take 8 = (Text.padRight 8 (Hex.bytes row.code)).toList ∧
      (rowText row).toList.drop 16 =
        (Text.padLeft 4 (toString row.line) ++ "  " ++ Text.strip row.text).toList := by
  have hfirst : (row.address.elim "    " fun a => Hex.padded 4 a).toList.length = 4 := by
    cases haddress : row.address with
    | none => rfl
    | some address =>
      rw [Option.elim_some, Hex.padded, String.toList_ofList]
      exact Hex.length_paddedChars (by decide) (h.address_lt address haddress)
  have hsecond : (Text.padRight 8 (Hex.bytes row.code)).toList.length = 8 := by
    have hle := length_bytes_le row.code
    have hcode := h.length_code_le
    simp only [Text.padRight, String.toList_append, String.toList_ofList, List.length_append,
      String.length_toList, List.length_replicate]
    omega
  have hrow : (rowText row).toList =
      (row.address.elim "    " fun a => Hex.padded 4 a).toList ++ (' ' :: ' ' ::
        ((Text.padRight 8 (Hex.bytes row.code)).toList ++ (' ' :: ' ' ::
          (Text.padLeft 4 (toString row.line) ++ "  " ++ Text.strip row.text).toList))) := by
    simp [rowText]
  rw [hrow]
  generalize (row.address.elim "    " fun a => Hex.padded 4 a).toList = first at hfirst
  generalize (Text.padRight 8 (Hex.bytes row.code)).toList = second at hsecond
  refine ⟨List.take_left' hfirst, ?_, ?_⟩
  · simp [List.drop_append, List.take_append, hfirst, hsecond]
  · have hfirst' : first.drop 16 = [] := List.drop_eq_nil_of_le (by omega)
    have hsecond' : second.drop 10 = [] := List.drop_eq_nil_of_le (by omega)
    simp [List.drop_append, hfirst, hsecond, hfirst', hsecond']

/-- The address is read back from the line of a row. -/
lemma addressIn?_rowText {row : Row} (h : row.Legible) :
    addressIn? (rowText row).toList = row.address := by
  rw [addressIn?, (columns_rowText h).1]
  cases row.address with
  | none => rfl
  | some address =>
    rw [Option.elim_some, Hex.padded, String.toList_ofList, if_neg, Hex.valueOf_paddedChars]
    -- a digit is no space
    intro hblank
    obtain ⟨c, hc⟩ := List.exists_mem_of_ne_nil _ (Hex.paddedChars_ne_nil 4 address)
    have hdigit := (Hex.isDigit_of_mem_paddedChars hc).isNameChar
    obtain rfl : c = ' ' := by simpa using List.all_eq_true.1 hblank c hc
    cases hdigit

/-- The bytes are read back from the line of a row. -/
lemma codeIn_rowText {row : Row} (h : row.Legible) : codeIn (rowText row).toList = row.code := by
  have hblanks : ∀ c ∈ (String.ofList
      (List.replicate (8 - (Hex.bytes row.code).length) ' ')).toList, Text.isBlank c = true := by
    intro c hc
    rw [String.toList_ofList] at hc
    rw [List.eq_of_mem_replicate hc]
    rfl
  rw [codeIn, (columns_rowText h).2.1, String.ofList_toList, Text.padRight,
    words_bytes_append row.code hblanks, List.map_map]
  exact List.map_id'' ofNat_valueOf_byte row.code

/-- What a row places is read back from its line. -/
lemma pieceIn?_rowText {row : Row} (h : row.Legible) :
    pieceIn? (rowText row).toList = row.piece? := by
  rw [pieceIn?, addressIn?_rowText h, codeIn_rowText h, Row.piece?]

/-- What rows place is read back from their lines. -/
lemma filterMap_pieceIn?_rowText {rows : List Row} (h : ∀ row ∈ rows, row.Legible) :
    (rows.map fun row => (rowText row).toList).filterMap pieceIn? = rows.filterMap Row.piece? := by
  rw [List.filterMap_map]
  refine List.filterMap_congr fun row hrow => ?_
  rw [Function.comp_apply, pieceIn?_rowText (h row hrow)]

/-- **What a line tells of a statement** at an address: the line of the source, and the address and
the code of a statement that places bytes. -/
structure Describes (symbols : SymbolTable) (s : Statement) (address : Nat) (line : List Char) :
    Prop where
  source_eq : line.drop 16 =
    (Text.padLeft 4 (toString (s.location.line : Int)) ++ "  " ++ Text.strip s.text).toList
  of_places : s.action.Places →
    addressIn? line = some address ∧ s.encode symbols address = .ok (some (codeIn line))
  of_not_places : ¬s.action.Places → addressIn? line = none ∧ codeIn line = []

/-- The line of a row tells what the row shows. -/
lemma describes_rowText {symbols : SymbolTable} {s : Statement} {address : Nat} {row : Row}
    (h : Row.Shows symbols s address row) (hrow : row.Legible) :
    Describes symbols s address (rowText row).toList where
  source_eq := by rw [(columns_rowText hrow).2.2, h.line_eq, h.text_eq]
  of_places hp := by
    rw [addressIn?_rowText hrow, codeIn_rowText hrow]
    exact h.of_places hp
  of_not_places hp := by
    rw [addressIn?_rowText hrow, codeIn_rowText hrow]
    exact h.of_not_places hp

/-! ## The lines of a listing -/

/-- The line of a row holds no line feed. -/
lemma oneLine_rowText {row : Row} (h : row.Legible) : OneLine (rowText row) := by
  have haddress : OneLine (row.address.elim "    " fun a => Hex.padded 4 a) := by
    cases row.address with
    | none => decide
    | some address => exact OneLine.padded 4 address
  have hcode : OneLine (Text.padRight 8 (Hex.bytes row.code)) := by
    refine OneLine.append (OneLine.intercalate (by decide) fun s hs => ?_) (OneLine.spaces _)
    obtain ⟨b, -, rfl⟩ := List.mem_map.1 hs
    exact OneLine.padded 2 b.toNat
  have hline : OneLine (Text.padLeft 4 (toString row.line)) :=
    (OneLine.spaces _).append (OneLine.int row.line)
  exact (((((haddress.append (by decide)).append hcode).append (by decide)).append hline).append
    (by decide)).append (Text.oneLine_strip h.oneLine)

/-- The line of a row is not empty. -/
lemma rowText_ne_nil (row : Row) : (rowText row).toList ≠ [] := by
  simp [rowText]

/-- The symbol in a line: its name and its value, with an equals sign between them. -/
def symbolIn? (line : List Char) : Option (String × Nat) :=
  match Text.words (String.ofList line) with
  | [name, "=", value] =>
    (SymbolFile.valueDigits? value).map fun digits => (name, Hex.valueOf digits.toList)
  | _ => none

/-- **A symbol is read back from its line**, also if its name runs over its column. -/
lemma symbolIn?_symbolText {p : String × Nat} (hname : IsName p.1) :
    symbolIn? (symbolText p).toList = some p := by
  obtain ⟨name, value⟩ := p
  have hblank : ∀ c ∈ name.toList, Text.isBlank c = false := fun c hc =>
    (SymbolFile.plain_of_isNameChar (hname.isNameChar c hc)).1
  have hne : name ≠ "" := by
    rintro rfl
    obtain ⟨c, tail, hchars, -⟩ := hname
    cases hchars
  have hspaces : ∀ c ∈ (String.ofList (List.replicate (20 - name.length) ' ') ++ " ").toList,
      Text.isBlank c = true := by
    intro c hc
    rw [String.toList_append, String.toList_ofList] at hc
    rcases List.mem_append.1 hc with hc | hc
    · rw [List.eq_of_mem_replicate hc]
      rfl
    · rw [List.mem_singleton.1 hc]
      rfl
  have htext : symbolText (name, value) =
      name ++ ((String.ofList (List.replicate (20 - name.length) ' ') ++ " ") ++
        ("=" ++ (" " ++ (Hex.padded 4 value ++ "H")))) := by
    simp [symbolText, Text.padRight, ← String.toList_inj]
  have hequals : ∀ c ∈ "=".toList, Text.isBlank c = false := List.forall_mem_singleton.2 rfl
  have hvalue : Hex.padded 4 value ++ "H" ≠ "" := by
    intro hempty
    simpa using congrArg String.length hempty
  have hwords : Text.words (symbolText (name, value)) =
      [name, "=", Hex.padded 4 value ++ "H"] := by
    rw [htext, Text.words_cons hne hblank (by simp [← String.toList_inj]) hspaces,
      Text.words_cons (by decide) hequals (by decide) Text.isBlank_space,
      Text.words_of_word hvalue fun c hc =>
        (SymbolFile.plain_of_isNameChar (SymbolFile.isNameChar_of_mem_value c hc)).1]
  have hdigits : SymbolFile.valueDigits? (Hex.padded 4 value ++ "H") = some (Hex.padded 4 value) :=
    SymbolFile.valueDigits?_eq_some_iff.2 (.inl rfl)
  simp only [symbolIn?, String.ofList_toList, hwords, hdigits, Option.map_some]
  rw [Hex.padded, String.toList_ofList, Hex.valueOf_paddedChars]

/-- Symbols are read back from their lines. -/
lemma map_symbolIn?_symbolText {ps : List (String × Nat)} (h : ∀ p ∈ ps, IsName p.1) :
    (ps.map fun p => (symbolText p).toList).map symbolIn? = ps.map some := by
  rw [List.map_map]
  refine List.map_congr_left fun p hp => ?_
  rw [Function.comp_apply, symbolIn?_symbolText (h p hp)]

/-- The line of a symbol holds no line feed. -/
lemma oneLine_symbolText {p : String × Nat} (hname : IsName p.1) : OneLine (symbolText p) := by
  have hfeed : OneLine p.1 := by
    intro hmem
    cases hname.isNameChar _ hmem
  exact (((hfeed.append (OneLine.spaces _)).append (by decide)).append
    (OneLine.padded 4 p.2)).append (by decide)

/-- A line of equal characters holds no line feed if it is not made of them. -/
lemma oneLine_rule {c : Char} (h : c ≠ '\n') (n : Nat) : OneLine (rule c n) := by
  refine OneLine.ofList fun d hd => ?_
  rw [List.eq_of_mem_replicate hd]
  exact h

/-- The lines above the rows hold no line feed. -/
lemma oneLine_heading : ∀ line ∈ heading, OneLine line := by
  simp only [heading, List.forall_mem_cons]
  exact ⟨by decide, oneLine_rule (by decide) 60, by decide, by decide,
    oneLine_rule (by decide) 60, by simp⟩

/-- **The lines of a listing**: the heading, the rows, an empty line and the heading of the symbols,
and the symbols. -/
lemma feedLines_text {rows : List Row} {symbols : SymbolTable} (hrows : ∀ row ∈ rows, row.Legible)
    (hnames : ∀ p ∈ symbols.sorted, IsName p.1) :
    Text.feedLines (text rows symbols).toList =
      heading.map String.toList ++ (rows.map fun row => (rowText row).toList) ++
        ["", "Symbol Table", rule '-' 30].map String.toList ++
        (symbols.sorted.map fun p => (symbolText p).toList) ++ [[]] := by
  rw [text, Text.feedLines_joinLines]
  · simp only [List.map_append, List.map_map, Function.comp_def]
  · simp [heading]
  · simp only [List.forall_mem_append, List.forall_mem_map]
    refine ⟨⟨⟨oneLine_heading, fun row hrow => oneLine_rowText (hrows row hrow)⟩, ?_⟩,
      fun p hp => oneLine_symbolText (hnames p hp)⟩
    simp only [List.forall_mem_cons]
    exact ⟨by decide, by decide, oneLine_rule (by decide) 30, by simp⟩

end Listing

/-! ## The text of a statement -/

/-- The statements of a program are made at tokens. -/
lemma Program.exists_token {ctx : Context} {ts : List Token} {ss : List Statement}
    (h : Program ctx ts ss) : ∀ s ∈ ss, ∃ t, s = ctx.statement t s.action := by
  refine h.forall_mem (fun hs => ?_) fun t name => ⟨t, rfl⟩
  cases hs <;> exact ⟨_, rfl⟩

/-- **The text of a statement** that is read from a source text holds no line feed. -/
lemma Statement.oneLine_of_readSource {source file : String} {keepCase : Bool}
    {ss : List Statement} (h : readSource source file keepCase = .ok ss) :
    ∀ s ∈ ss, OneLine s.text := by
  intro s hs
  obtain ⟨fs, -, hprogram⟩ := readSource_eq_ok_iff.1 h
  obtain ⟨t, heq⟩ := hprogram.exists_token s hs
  rw [heq]
  simp only [Context.statement]
  cases hline : (Context.ofSource (some source) keepCase).lineText t.line with
  | none => decide
  | some line =>
    rw [Context.lineText] at hline
    split at hline
    · cases hline
    · exact Text.oneLine_of_mem_splitLines (Array.mem_def.1 (Array.mem_of_getElem? hline))

/-! ## The listing of a program -/

namespace Workbench

variable {w : Workbench} {source file : String} {ss : List Statement} {code : List UInt8}

/-- The workbench after a text has been assembled holds its statements and what the two passes over
them left. -/
lemma exists_passes_of_assemble (hw : w.settings.fault? = none)
    (h : (w.assemble source file).outcome = .ok code) :
    ∃ ss l m, Statement.readSource source file w.settings.keepCase = .ok ss ∧
      Layout.ofStatements ss = (l, none) ∧
      Emission.run l.symbols { image := ⟨w.settings.fill, ∅, 0⟩ } (placed ss l) = (m, none) ∧
      code = m.image.toBytes w.settings.imageSize ∧
      (w.assemble source file).workbench = { w with
        statements := ss, addresses := l.addresses, symbols := l.symbols, image := m.image,
        rows := m.rows } := by
  obtain ⟨ss, hread, hgenerate, hworkbench⟩ := exists_read_of_assemble h
  have hsettings : ({ w with statements := ss } : Workbench).settings.fault? = none := hw
  obtain ⟨l, m, hl, hm, hcode⟩ := (generate_ok_iff hsettings).1 hgenerate
  refine ⟨ss, l, m, hread, hl, hm, hcode, hworkbench.trans ?_⟩
  rw [placed] at hm
  simp only [generate, Settings.blank?_fillByte hw, hl, hm]

/-- The rows of the second pass over what is read from a source text show the statements that are
listed, and fit their columns. -/
lemma forall₂_rows_of_readSource {keepCase : Bool}
    (hread : Statement.readSource source file keepCase = .ok ss) {symbols : SymbolTable}
    {addresses : List Nat} {rows : List Row}
    (hfits : ∀ p ∈ ss.zip addresses, p.1.Fits symbols p.2)
    (hshows : List.Forall₂ (fun p row => Row.Shows symbols p.1 p.2 row)
      ((ss.zip addresses).filter fun p => p.1.action.isListed) rows) :
    List.Forall₂ (fun p row => row.Legible ∧ Row.Shows symbols p.1 p.2 row)
      ((ss.zip addresses).filter fun p => p.1.action.isListed) rows := by
  have hlisted : ∀ p ∈ (ss.zip addresses).filter fun p => p.1.action.isListed,
      p.1.WellFormed ∧ p.1.Fits symbols p.2 ∧ OneLine p.1.text := by
    intro p hp
    have hp' := (List.mem_filter.1 hp).1
    have hs : p.1 ∈ ss := (List.of_mem_zip hp').1
    exact ⟨Statement.wellFormed_of_readSource hread _ hs, hfits p hp',
      Statement.oneLine_of_readSource hread _ hs⟩
  refine ((List.forall₂_and_left _ _).2 ⟨hlisted, hshows⟩).imp fun p row hrow => ?_
  obtain ⟨⟨hwell, hfits, htext⟩, hshows⟩ := hrow
  exact ⟨hshows.legible hwell hfits htext, hshows⟩

/-- **The rows of an assembled text** show the statements that are listed, fit their columns, and
make up the image. -/
lemma rows_of_assemble (hw : w.settings.fault? = none)
    (h : (w.assemble source file).outcome = .ok code) :
    let after := (w.assemble source file).workbench
    List.Forall₂ (fun p row => row.Legible ∧ Row.Shows after.symbols p.1 p.2 row)
        ((after.statements.zip after.addresses.toList).filter fun p => p.1.action.isListed)
        after.rows.toList ∧
      Image.writePieces ⟨w.settings.fill, ∅, 0⟩ (after.rows.toList.filterMap Row.piece?) =
        .ok after.image := by
  obtain ⟨ss, l, m, hread, -, hm, -, hafter⟩ := exists_passes_of_assemble hw h
  obtain ⟨rows, hrows, hshows, hwrite⟩ := Emission.exists_rows_of_run hm
  obtain rfl : m.rows.toList = rows := hrows
  simp only [hafter]
  exact ⟨forall₂_rows_of_readSource hread (Emission.run_ok_iff.1 ⟨m, hm⟩) hshows, hwrite⟩

/-- The code of an assembled text is what its image holds, and fill bytes after it. -/
lemma code_eq_append_of_assemble (hw : w.settings.fault? = none)
    (h : (w.assemble source file).outcome = .ok code) :
    let image := (w.assemble source file).workbench.image
    code = image.toBytes none ++ List.replicate
      ((w.settings.imageSize.getD 0).toNat - (image.toBytes none).length) w.settings.fill := by
  obtain ⟨ss, l, m, -, -, hm, hcode, hafter⟩ := exists_passes_of_assemble hw h
  have hholds := Emission.holds_of_run hm (Image.Holds.blank w.settings.fill)
  simp only [hafter]
  exact hcode.trans (hholds.toBytes_eq_append (Settings.imageSize_le hw))

/-- **A listing tells what the image contains.** After a program has been assembled, the lines of
its listing are a heading, then rows, then an empty line and the heading of the symbols, and then
the symbols. No row is empty, so that the first empty line after the heading ends the rows. The rows
are one for each data directive, instruction and origin of the program, in their order: data and
instructions have their address and their code in fixed columns, and origins have none there. If the
code is read from the rows that have an address and written in their order into a blank image, then
this gives the code of the program, apart from the fill bytes that pad it. The symbol lines give
each symbol with its value once, sorted by name.

**Proof sketch.** The second pass adds a row with what it writes into the image, and the rows fit
their columns (`rows_of_assemble`). So they are found among the lines of the listing and can be read
back (`Listing.feedLines_text`, `Listing.columns_rowText`). -/
theorem listing_describes_image (w : Workbench) (hw : w.settings.fault? = none)
    (source file : String) (code : List UInt8) (h : (w.assemble source file).outcome = .ok code) :
    let after := (w.assemble source file).workbench
    Statement.readSource source file w.settings.keepCase = .ok after.statements ∧
    after.addresses.size = after.statements.length ∧ after.code = code ∧
    ∃ rows symbolRows : List (List Char),
      Text.feedLines after.listing.toList =
        Listing.heading.map String.toList ++ rows ++
          ["", "Symbol Table", Listing.rule '-' 30].map String.toList ++ symbolRows ++ [[]] ∧
      (∀ row ∈ rows, row ≠ []) ∧
      List.Forall₂ (fun p row => Listing.Describes after.symbols p.1 p.2 row)
        ((after.statements.zip after.addresses.toList).filter fun p => p.1.action.isListed) rows ∧
      (∃ image, Image.writePieces ⟨w.settings.fill, ∅, 0⟩ (rows.filterMap Listing.pieceIn?) =
          .ok image ∧
        code = image.toBytes none ++ List.replicate
          ((w.settings.imageSize.getD 0).toNat - (image.toBytes none).length) w.settings.fill) ∧
      ∃ symbols : List (String × Nat), symbols.Perm after.symbols.toList ∧
        (symbols.Pairwise fun p q => p.1 < q.1) ∧
        symbolRows.map Listing.symbolIn? = symbols.map some := by
  intro after
  have hperm := after.symbols.sorted_perm
  have hnames : ∀ p ∈ after.symbols.sorted, IsName p.1 := fun p hp =>
    (labelName_of_assemble h p (hperm.mem_iff.1 hp)).shape
  have horder : after.symbols.sorted.Pairwise fun p q => p.1 < q.1 :=
    SymbolTable.pairwise_sorted (nodup_names_of_assemble h)
  obtain ⟨hrows, hwrite⟩ := rows_of_assemble hw h
  have hlegible : ∀ row ∈ after.rows.toList, row.Legible := by
    have hflip := List.Forall₂.flip (R := fun (row : Row) (p : Statement × Nat) =>
      row.Legible ∧ Row.Shows after.symbols p.1 p.2 row) hrows
    exact ((List.forall₂_and_left _ _).1 hflip).1
  obtain ⟨ss, l, m, hread, hl, -, hcode, hafter⟩ := exists_passes_of_assemble hw h
  have hfields : after = _ := hafter
  refine ⟨by rw [hfields]; exact hread, ?_, by rw [hfields]; exact hcode.symm,
    after.rows.toList.map fun row => (Listing.rowText row).toList,
    after.symbols.sorted.map fun p => (Listing.symbolText p).toList,
    Listing.feedLines_text hlegible hnames, ?_, ?_, ⟨after.image, ?_, ?_⟩, _, hperm, horder,
    Listing.map_symbolIn?_symbolText hnames⟩
  · rw [hfields, ← Array.length_toList, addresses_of_layout hl, List.length_map, List.length_range]
  · exact List.forall_mem_map.2 fun row _ => Listing.rowText_ne_nil row
  · rw [List.forall₂_map_right_iff]
    exact hrows.imp fun p row hrow => Listing.describes_rowText hrow.2 hrow.1
  · rw [Listing.filterMap_pieceIn?_rowText hlegible]
    exact hwrite
  · exact code_eq_append_of_assemble hw h

/-- A text with a label on a line of its own, in which an origin moves back over an instruction. -/
def movingBackText : String :=
  "      ORG 2\nSTART:\n      JMP NEXT\nSIZE  EQU $-START\n      ORG SIZE\nNEXT  DB 0-SIZE\n"

/-- The listing of a program that moves back over its own bytes has four rows, of which two have an
address, and these give its image. -/
theorem listing_movingBackText :
    padding.settings.fault? = none ∧
      (padding.assemble movingBackText "back.asm").outcome =
        .ok [0xAA, 0xAA, 0xC3, 0xFD, 0x00, 0xAA, 0xAA, 0xAA] ∧
      let after := (padding.assemble movingBackText "back.asm").workbench
      after.rows.toList.map Listing.rowText =
        ["                   1  ORG 2", "0002  C3 03 00     3  JMP NEXT",
          "                   5  ORG SIZE", "0003  FD           6  NEXT  DB 0-SIZE"] ∧
      ∃ rows symbolRows : List (List Char),
        Text.feedLines after.listing.toList =
          Listing.heading.map String.toList ++ rows ++
            ["", "Symbol Table", Listing.rule '-' 30].map String.toList ++ symbolRows ++ [[]] ∧
        rows.length = 4 ∧
        ∃ image, Image.writePieces ⟨0xAA, ∅, 0⟩ (rows.filterMap Listing.pieceIn?) = .ok image ∧
          [0xAA, 0xAA, 0xC3, 0xFD, 0x00, 0xAA, 0xAA, 0xAA] = image.toBytes none ++
            List.replicate (8 - (image.toBytes none).length) 0xAA := by
  have hsample : (padding.assemble movingBackText "back.asm").outcome =
        .ok [0xAA, 0xAA, 0xC3, 0xFD, 0x00, 0xAA, 0xAA, 0xAA] ∧
      (padding.assemble movingBackText "back.asm").workbench.rows.toList.map Listing.rowText =
        ["                   1  ORG 2", "0002  C3 03 00     3  JMP NEXT",
          "                   5  ORG SIZE", "0003  FD           6  NEXT  DB 0-SIZE"] ∧
      (((padding.assemble movingBackText "back.asm").workbench.statements.zip
        (padding.assemble movingBackText "back.asm").workbench.addresses.toList).filter
          fun p => p.1.action.isListed).length = 4 := by decide +kernel
  obtain ⟨hcode, hrows, hlength⟩ := hsample
  obtain ⟨-, -, -, rows, symbolRows, hlines, -, hdescribes, himage, -⟩ :=
    listing_describes_image padding rfl movingBackText "back.asm" _ hcode
  exact ⟨rfl, hcode, hrows, rows, symbolRows, hlines, hdescribes.length_eq.symm.trans hlength,
    himage⟩

end Workbench

end Asm8080
