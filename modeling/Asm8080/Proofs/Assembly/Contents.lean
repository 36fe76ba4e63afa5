import Asm8080.Proofs.Assembly.Resolution
import Asm8080.Proofs.Statement.WellFormed

/-!
# What the image of a program contains

A program emits one piece of code for each statement that places bytes, of the size by which the
first pass moves past the statement. The pieces may overlap, since an origin may move back; the
image has at each address the byte of the last statement that covers it.

## Main definitions

* `Asm8080.Workbench.pieces` — what the statements of a program emit.

## Main results

* `Asm8080.Statement.length_encode` — the code of a statement has the size of the statement.
* `Asm8080.Workbench.contents_of_generate` — the size and the bytes of the image of a program.
-/

set_option autoImplicit false

namespace Asm8080

open Layout (cursorAt)

/-! ## One statement -/

/-- Data and instructions place bytes. -/
def Action.Places : Action → Prop
  | data _ _ _ | instruction _ _ => True
  | label _ | origin _ | equate _ _ => False

/-- The first pass moves past what is placed by its size, and within the address space. -/
lemma Action.Moves.of_places {σ : Assignment} {here next : Nat} {a : Action} (hp : a.Places)
    (h : a.Moves σ here next) : next = here + a.size ∧ next ≤ Word.count := by
  cases a with
  | label | origin | equate => exact hp.elim
  | data | instruction => exact h

namespace Statement

variable {symbols : SymbolTable} {address : Nat} {s : Statement}

/-- A statement that places bytes and can be encoded emits its code. -/
lemma piece_of_places (hp : s.action.Places) (h : ∃ code, s.encode symbols address = .ok code) :
    ∃ bytes, s.encode symbols address = .ok (some bytes) ∧
      s.piece symbols address = ⟨address, bytes⟩ := by
  obtain ⟨code, h⟩ := h
  have hsome : ∃ bytes, code = some bytes := by
    unfold encode at h
    cases ha : s.action <;> simp only [ha, Action.Places, map_eq_ok_iff] at h hp
    all_goals
      obtain ⟨bytes, -, hbytes⟩ := h
      exact ⟨bytes, hbytes.symm⟩
  obtain ⟨bytes, rfl⟩ := hsome
  exact ⟨bytes, h, by rw [piece, h]⟩

/-- A statement that places no bytes has no code. -/
lemma encode_of_not_places (hp : ¬s.action.Places) : s.encode symbols address = .ok none := by
  unfold encode
  cases ha : s.action <;> simp [ha, Action.Places] at hp ⊢

/-- A statement that places no bytes emits none. -/
lemma piece_of_not_places (hp : ¬s.action.Places) : s.piece symbols address = ⟨address, []⟩ := by
  rw [piece, encode_of_not_places hp]

/-- The code of a well-formed statement has the size of the statement. -/
lemma length_encode {code : List UInt8} (hs : s.WellFormed)
    (h : s.encode symbols address = .ok (some code)) :
    code.length = s.action.size := by
  unfold encode at h
  unfold WellFormed at hs
  cases ha : s.action with
  | label | origin | equate => simp [ha] at h
  | data name width e =>
    simp only [ha, map_eq_ok_iff, encodeData_eq_ok_iff] at h
    obtain ⟨_, ⟨value, -, -, rfl⟩, heq⟩ := h
    cases heq
    simp [Action.size]
  | instruction encoding operands =>
    simp only [ha, map_eq_ok_iff] at h hs
    obtain ⟨_, henc, heq⟩ := h
    cases heq
    obtain ⟨htable, htakes⟩ := hs
    obtain ⟨value, -, -, rfl⟩ := htakes.encodeInstruction_iff.1 henc
    exact Encoding.length_code htable value

end Statement

/-! ## The whole program -/

namespace Workbench

variable {w : Workbench} {ss : List Statement}

/-- What the statements of a program emit, at the addresses and with the symbols of a workbench. -/
def pieces (w : Workbench) (ss : List Statement) : List Piece :=
  (ss.zip w.addresses.toList).map fun p => p.1.piece w.symbols p.2

/-- The pieces of a program that was assembled: one for each statement, at the address of the first
pass. -/
lemma getElem?_pieces (hw : w.settings.fault? = none) {l : Layout}
    (hl : Layout.ofStatements ss = (l, none)) {i : Nat} (hi : i < ss.length) :
    ((w.generate ss).workbench.pieces ss)[i]? = some (ss[i].piece l.symbols (cursorAt ss i)) := by
  obtain ⟨haddresses, hsymbols⟩ := workbench_generate hw hl
  rw [pieces, haddresses, hsymbols, addresses_of_layout hl]
  simp [hi]

/-- The image of a program that was assembled holds its pieces, which are all in the address space.
-/
lemma exists_holds_pieces (hw : w.settings.fault? = none) {code : List UInt8}
    (h : (w.generate ss).outcome = .ok code) :
    ∃ image, Image.Holds w.settings.fill ((w.generate ss).workbench.pieces ss) image ∧
      code = image.toBytes w.settings.imageSize ∧
      Piece.extent ((w.generate ss).workbench.pieces ss) ≤ Word.count := by
  obtain ⟨l, m, hl, hm, hcode⟩ := (generate_ok_iff hw).1 h
  obtain ⟨haddresses, hsymbols⟩ := workbench_generate hw hl
  rw [pieces, haddresses, hsymbols]
  refine ⟨m.image, Emission.holds_of_run hm (Image.Holds.blank _), hcode, Piece.extent_le ?_⟩
  intro p hp
  obtain ⟨⟨s, address⟩, hs, rfl⟩ := List.mem_map.1 hp
  exact (Emission.run_ok_iff.1 ⟨m, hm⟩ _ hs).2

/-- **What the image of a program contains.** Every statement emits one piece of code at its address
in the first pass. Data and instructions emit their code, of exactly the bytes by which the first
pass moves past them, within the address space; other statements emit no bytes. The image ends at
the highest address that is covered, or later if the settings ask for it, and has at each address
the byte of the last statement that covers it, or the fill byte if there is none.

**Proof sketch.** The second pass writes the pieces one after another (`exists_holds_pieces`). The
first pass moves past data and instructions by their size (`Action.Moves.of_places`), and that is
the number of bytes of their code (`Statement.length_encode`). -/
theorem contents_of_generate (w : Workbench) (hw : w.settings.fault? = none) (ss : List Statement)
    (hss : ∀ s ∈ ss, s.WellFormed) (code : List UInt8) (h : (w.generate ss).outcome = .ok code) :
    let after := (w.generate ss).workbench
    let ps := after.pieces ss
    ps.length = ss.length ∧
    (∀ i (hi : i < ss.length), ∃ bytes, ps[i]? = some ⟨cursorAt ss i, bytes⟩ ∧
      (ss[i].action.Places → ss[i].encode after.symbols (cursorAt ss i) = .ok (some bytes) ∧
        bytes.length = ss[i].action.size ∧ cursorAt ss (i + 1) = cursorAt ss i + bytes.length ∧
        cursorAt ss i + bytes.length ≤ 0x10000) ∧
      (¬ss[i].action.Places → bytes = [])) ∧
    (∃ top, code.length = max top (w.settings.imageSize.getD 0).toNat ∧
      (∀ p ∈ ps, ∀ x, p.Covers x → x < top) ∧ (0 < top → ∃ p ∈ ps, p.Covers (top - 1))) ∧
    ∀ x < code.length, code[x]? = some ((Piece.byteIn? ps x).getD w.settings.fill) := by
  intro after ps
  obtain ⟨l, m, hl, hm, -⟩ := (generate_ok_iff hw).1 h
  obtain ⟨haddresses, hsymbols⟩ := workbench_generate hw hl
  obtain ⟨image, hholds, rfl, htop⟩ := exists_holds_pieces hw h
  refine ⟨?_, fun i hi => ?_, ⟨Piece.extent ps, ?_, fun p hp x => Piece.Covers.lt_extent hp,
    Piece.exists_covers_pred_extent⟩, fun x hx => hholds.getElem?_toBytes hx⟩
  · simp only [ps, pieces, after, haddresses, addresses_of_layout hl, List.length_map,
      List.length_zip, List.length_range, Nat.min_self]
  · have hpiece : ps[i]? = some _ := getElem?_pieces hw hl hi
    have hmoves := (Placement.of_layout hl).moves i hi
    by_cases hp : ss[i].action.Places
    · have hr : l.symbols.InRange := Layout.inRange_of_run hl SymbolTable.inRange_empty
      have henc := (Statement.encode_ok_iff hr).2
        ((emission_ok_iff (Placement.of_layout hl) hr (addresses_of_layout hl) _).1 ⟨m, hm⟩ i hi)
      obtain ⟨bytes, hbytes, heq⟩ := Statement.piece_of_places hp henc
      have hlen := Statement.length_encode (hss _ (List.getElem_mem hi)) hbytes
      obtain ⟨hnext, hle⟩ := hmoves.of_places hp
      rw [hnext, ← hlen] at hle
      refine ⟨bytes, by rw [hpiece, heq], fun _ => ⟨?_, hlen, by rw [hnext, hlen], hle⟩,
        fun hn => absurd hp hn⟩
      rw [hsymbols]
      exact hbytes
    · exact ⟨[], by rw [hpiece, Statement.piece_of_not_places hp], fun hp' => absurd hp' hp,
        fun _ => rfl⟩
  · exact hholds.length_toBytes htop (Settings.imageSize_le hw)

/-- Where the program that moves back over its own bytes covers an address twice, the later byte is
in the image. -/
theorem contents_overlapping :
    padding.settings.fault? = none ∧ (∀ s ∈ overlapping, s.WellFormed) ∧
      (padding.generate overlapping).outcome =
        .ok [0xAA, 0xAA, 0xC3, 0xFD, 0x00, 0xAA, 0xAA, 0xAA] ∧
      (Piece.byteIn? ((padding.generate overlapping).workbench.pieces overlapping) 3).getD 0xAA =
        0xFD := by
  have hwell : ∀ s ∈ overlapping, s.WellFormed := Statement.wellFormed_of_mem_readSource
  have hcode : (padding.generate overlapping).outcome =
      .ok [0xAA, 0xAA, 0xC3, 0xFD, 0x00, 0xAA, 0xAA, 0xAA] := by decide +kernel
  obtain ⟨-, -, -, hbytes⟩ := contents_of_generate padding rfl overlapping hwell _ hcode
  exact ⟨rfl, hwell, hcode, (Option.some.inj (hbytes 3 (by decide))).symm⟩

end Workbench

end Asm8080
