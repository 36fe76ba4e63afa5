import Asm8080.Assembly.Workbench
import Asm8080.Proofs.Assembly.Emission
import Asm8080.Proofs.Assembly.Placement

/-!
# Two passes resolve a program

A program means what its statements say about addresses and words, with no order of evaluation: each
name has one word, each statement one address, and every expression is read under the same words.
Assembling a program in two passes, the first of which evaluates expressions while names are still
missing, succeeds exactly when the program has such a meaning, and finds it.

## Main definitions

* `Asm8080.Resolution` — a placement under which every statement can be encoded.

## Main results

* `Asm8080.Workbench.generate_succeeds_iff_resolution` — assembling succeeds exactly on programs
  that have a resolution, and the resolution is the one that the two passes compute.
-/

set_option autoImplicit false

namespace Asm8080

/-- Addresses and words of a program under which every statement can be encoded. -/
structure Resolution (ss : List Statement) (address : Nat → Nat) (σ : Assignment) : Prop
    extends Placement ss address σ where
  encodable : ∀ i (h : i < ss.length), ss[i].action.Encodable σ (address i)

/-! ## Valid settings -/

namespace Settings

/-- Valid settings have a fill byte and an image size in range. -/
lemma fault?_eq_none_iff {settings : Settings} :
    settings.fault? = none ↔
      (0 ≤ settings.fillByte ∧ settings.fillByte ≤ 0xFF) ∧
        ∀ n ∈ settings.imageSize, 0 ≤ n ∧ n ≤ 0x10000 := by
  have hfill : isFillByte settings.fillByte = true ↔
      0 ≤ settings.fillByte ∧ settings.fillByte ≤ 0xFF := by
    simp [isFillByte]
  unfold fault?
  rw [← hfill]
  cases hb : isFillByte settings.fillByte with
  | false => simp
  | true =>
    cases settings.imageSize with
    | none => simp
    | some n => simp [isImageSize]

/-- The fill byte as a byte. -/
def fill (settings : Settings) : UInt8 := UInt8.ofNat settings.fillByte.toNat

/-- A fill byte in range makes a blank image. -/
lemma blank?_of_eq_ok {settings : Settings} {image : Image}
    (h : Image.blank? settings.fillByte = .ok image) :
    Image.blank? settings.fillByte = .ok ⟨settings.fill, ∅, 0⟩ := by
  unfold Image.blank? at h ⊢
  split_ifs at h ⊢ with hfill
  rfl

/-- Valid settings make a blank image. -/
lemma blank?_fillByte {settings : Settings} (h : settings.fault? = none) :
    Image.blank? settings.fillByte = .ok ⟨settings.fill, ∅, 0⟩ := by
  rw [Image.blank?, if_pos (fault?_eq_none_iff.1 h).1]
  rfl

/-- The image size of valid settings is in the address space. -/
lemma imageSize_le {settings : Settings} (h : settings.fault? = none) :
    (settings.imageSize.getD 0).toNat ≤ Word.count := by
  have hsize := (fault?_eq_none_iff.1 h).2
  cases hn : settings.imageSize with
  | none => simp
  | some n =>
    have := hsize n hn
    simp only [Option.getD_some, Word.count]
    omega

end Settings

/-! ## Both passes -/

namespace Workbench

variable {w : Workbench} {ss : List Statement}

/-- A program is assembled only if the fill byte makes a blank image. -/
lemma blank?_of_generate {code : List UInt8} (h : (w.generate ss).outcome = .ok code) :
    Image.blank? w.settings.fillByte = .ok ⟨w.settings.fill, ∅, 0⟩ := by
  cases hblank : Image.blank? w.settings.fillByte with
  | error f =>
    simp only [generate, hblank] at h
    cases h
  | ok image => exact hblank ▸ Settings.blank?_of_eq_ok hblank

/-- The statements of a program with the addresses that the first pass recorded. -/
def placed (ss : List Statement) (l : Layout) : List (Statement × Nat) :=
  ss.zip l.addresses.toList

/-- **Assembling succeeds** exactly when both passes do, if the fill byte makes a blank image. -/
lemma generate_ok_iff_of_blank
    (hblank : Image.blank? w.settings.fillByte = .ok ⟨w.settings.fill, ∅, 0⟩)
    {code : List UInt8} :
    (w.generate ss).outcome = .ok code ↔
      ∃ l m, Layout.ofStatements ss = (l, none) ∧
        Emission.run l.symbols { image := ⟨w.settings.fill, ∅, 0⟩ } (placed ss l) = (m, none) ∧
        code = m.image.toBytes w.settings.imageSize := by
  unfold generate placed
  simp only [hblank]
  rcases Layout.ofStatements ss with ⟨l, _ | f⟩
  · simp only
    rcases hm : Emission.run l.symbols { image := ⟨w.settings.fill, ∅, 0⟩ }
      (ss.zip l.addresses.toList) with ⟨m, _ | f⟩
    · simp [hm, Workbench.code, eq_comm]
    · simp [hm]
  · simp

/-- With valid settings, assembling succeeds exactly when both passes do. -/
lemma generate_ok_iff (hw : w.settings.fault? = none) {code : List UInt8} :
    (w.generate ss).outcome = .ok code ↔
      ∃ l m, Layout.ofStatements ss = (l, none) ∧
        Emission.run l.symbols { image := ⟨w.settings.fill, ∅, 0⟩ } (placed ss l) = (m, none) ∧
        code = m.image.toBytes w.settings.imageSize :=
  generate_ok_iff_of_blank (Settings.blank?_fillByte hw)

/-- The workbench records the addresses and the symbols of the first pass, if the fill byte makes a
blank image. -/
lemma workbench_generate_of_blank
    (hblank : Image.blank? w.settings.fillByte = .ok ⟨w.settings.fill, ∅, 0⟩) {l : Layout}
    (hl : Layout.ofStatements ss = (l, none)) :
    (w.generate ss).workbench.addresses = l.addresses ∧
      (w.generate ss).workbench.symbols = l.symbols := by
  unfold generate
  simp only [hblank, hl]
  split <;> exact ⟨rfl, rfl⟩

/-- With valid settings, the workbench records the addresses and the symbols of the first pass. -/
lemma workbench_generate (hw : w.settings.fault? = none) {l : Layout}
    (hl : Layout.ofStatements ss = (l, none)) :
    (w.generate ss).workbench.addresses = l.addresses ∧
      (w.generate ss).workbench.symbols = l.symbols :=
  workbench_generate_of_blank (Settings.blank?_fillByte hw) hl

/-- A program on which the first pass succeeds is placed at the addresses that it records. -/
lemma addresses_of_layout {l : Layout} (hl : Layout.ofStatements ss = (l, none)) :
    l.addresses.toList = (List.range ss.length).map (Layout.cursorAt ss) := by
  obtain ⟨l', hl', -, -, ha⟩ := (Placement.of_layout hl).layout
  obtain rfl : l = l' := by
    have := hl.symm.trans hl'
    simpa using this
  exact ha

/-- What a statement emits ends in the address space if the first pass moves past it. -/
lemma limit_piece_le {σ : Assignment} {here next : Nat} {s : Statement} (symbols : SymbolTable)
    (h : s.action.Moves σ here next) : (s.piece symbols here).limit ≤ Word.count := by
  unfold Statement.piece
  rcases henc : s.encode symbols here with f | _ | code
  · simp [Piece.limit]
  · simp [Piece.limit]
  · have hlen := Statement.length_encode_le henc
    rw [Emission.limit_le_iff]
    unfold Statement.encode at henc
    -- only data and instructions have code, and the pass moves past those by their size
    cases ha : s.action <;> simp only [ha, reduceCtorEq, Except.ok.injEq] at henc <;>
      simp only [ha, Action.Moves, Action.size] at h hlen <;> exact .inr (by simp only; omega)

/-- A property holds of every statement at its address exactly when it holds of every index. -/
lemma forall_zip_range_iff {P : Statement → Nat → Prop} {address : Nat → Nat} :
    (∀ p ∈ ss.zip ((List.range ss.length).map address), P p.1 p.2) ↔
      ∀ i (h : i < ss.length), P ss[i] (address i) := by
  simp only [List.forall_mem_iff_forall_getElem, List.length_zip, List.length_map,
    List.length_range, Nat.min_self, List.getElem_zip, List.getElem_map, List.getElem_range]

/-- Under a placement the second pass succeeds exactly when every statement can be encoded. -/
lemma emission_ok_iff {address : Nat → Nat} {l : Layout}
    (h : Placement ss address l.symbols.assignment) (hr : l.symbols.InRange)
    (ha : l.addresses.toList = (List.range ss.length).map address) (m : Emission) :
    (∃ m', m.run l.symbols (placed ss l) = (m', none)) ↔
      ∀ i (hi : i < ss.length), ss[i].action.Encodable l.symbols.assignment (address i) := by
  rw [Emission.run_ok_iff, placed, ha,
    forall_zip_range_iff (P := fun s a => s.Fits l.symbols a)]
  refine forall_congr' fun i => forall_congr' fun hi => ?_
  rw [Statement.Fits, Statement.encode_ok_iff hr,
    and_iff_left (limit_piece_le l.symbols (h.moves i hi))]

/-- **Two passes resolve a program.** Assembling statements with valid settings succeeds exactly
when there are addresses and words that resolve them: the first address is 0; each bound name is
bound once; the expressions of origins and equates name only what is bound above them; every
statement moves to the next address, binds its names and can be encoded, where every expression is
read under the final words. The resolution is then unique, and it is what the workbench records.

**Proof sketch.** The first pass succeeds exactly when there is a placement, and computes it
(`Placement.of_layout`, `Placement.layout`). The second pass succeeds exactly when in addition every
statement can be encoded under the words of the final table (`emission_ok_iff`). -/
theorem generate_succeeds_iff_resolution (w : Workbench) (hw : w.settings.fault? = none)
    (ss : List Statement) :
    ((∃ code, (w.generate ss).outcome = .ok code) ↔ ∃ address σ, Resolution ss address σ) ∧
      ∀ address σ, Resolution ss address σ →
        (w.generate ss).workbench.addresses.toList = (List.range ss.length).map address ∧
        ∀ name, (w.generate ss).workbench.symbols.lookup name = (σ name).map BitVec.toNat := by
  refine ⟨⟨?_, ?_⟩, ?_⟩
  · rintro ⟨code, hcode⟩
    obtain ⟨l, m, hl, hm, -⟩ := (generate_ok_iff hw).1 hcode
    have hplacement := Placement.of_layout hl
    have hr : l.symbols.InRange := Layout.inRange_of_run hl SymbolTable.inRange_empty
    exact ⟨_, _, hplacement,
      (emission_ok_iff hplacement hr (addresses_of_layout hl) _).1 ⟨m, hm⟩⟩
  · rintro ⟨address, σ, h⟩
    obtain ⟨l, hl, hr, rfl, ha⟩ := h.layout
    obtain ⟨m, hm⟩ := (emission_ok_iff h.toPlacement hr ha _).2 h.encodable
    exact ⟨_, (generate_ok_iff hw).2 ⟨l, m, hl, hm, rfl⟩⟩
  · intro address σ h
    obtain ⟨l, hl, hr, rfl, ha⟩ := h.layout
    obtain ⟨haddresses, hsymbols⟩ := workbench_generate hw hl
    rw [haddresses, hsymbols]
    exact ⟨ha, fun name => (hr.map_assignment name).symm⟩

/-- A program that refers ahead, names a distance, and moves back over its own bytes. -/
def overlapping : List Statement :=
  (Statement.readSource
    "      ORG 2\nSTART: JMP NEXT\nSIZE  EQU $-START\n      ORG SIZE\nNEXT  DB 0-SIZE\n"
    "overlapping.asm" false).toOption.getD []

/-- A workbench that fills with `AAH` and pads images to eight bytes. -/
def padding : Workbench :=
  { settings := { fillByte := 0xAA, imageSize := some 8 }, image := ⟨0xAA, ∅, 0⟩ }

/-- The program that moves back over its own bytes has a resolution, since it can be assembled. -/
theorem resolution_overlapping :
    padding.settings.fault? = none ∧
      (padding.generate overlapping).outcome =
        .ok [0xAA, 0xAA, 0xC3, 0xFD, 0x00, 0xAA, 0xAA, 0xAA] ∧
      ∃ address σ, Resolution overlapping address σ :=
  have hcode : (padding.generate overlapping).outcome =
      .ok [0xAA, 0xAA, 0xC3, 0xFD, 0x00, 0xAA, 0xAA, 0xAA] := by decide +kernel
  ⟨rfl, hcode, (generate_succeeds_iff_resolution padding rfl overlapping).1.1 ⟨_, hcode⟩⟩

end Workbench

/-! ## Assembling a text -/

/-- **A text is assembled** by reading its statements and assembling them. -/
lemma assemble_eq {settings : Settings} (hsettings : settings.fault? = none)
    (source file : String) :
    assemble source file settings =
      (Statement.readSource source file settings.keepCase >>= fun ss =>
      (Workbench.generate ⟨settings, ss, #[], .empty, ⟨settings.fill, ∅, 0⟩, #[]⟩ ss).outcome) := by
  have hnew : Workbench.new settings =
      .ok { settings := settings, image := ⟨settings.fill, ∅, 0⟩ } := by
    rw [Workbench.new, Settings.blank?_fillByte hsettings]
    rfl
  rw [assemble, hnew]
  change (Workbench.assemble _ source file).outcome = _
  cases hread : Statement.readSource source file settings.keepCase with
  | error f =>
    simp only [Workbench.assemble, hread]
    rfl
  | ok ss =>
    simp only [Workbench.assemble, hread]
    rfl

/-- A source text that can be read is assembled as its statements are. -/
lemma assemble_eq_generate {source file : String} {settings : Settings} {ss : List Statement}
    (hsettings : settings.fault? = none)
    (hread : Statement.readSource source file settings.keepCase = .ok ss) :
    assemble source file settings =
      (Workbench.generate ⟨settings, ss, #[], .empty, ⟨settings.fill, ∅, 0⟩, #[]⟩ ss).outcome := by
  rw [assemble_eq hsettings, hread]
  rfl

/-- The bytes of an image are no more than the address space holds. -/
lemma Workbench.length_code_le (w : Workbench) : w.code.length ≤ 0x10000 := by
  simp only [code, Image.toBytes, List.length_map, List.length_range, Word.count]
  omega

/-- What assembling statements gives is the image of some workbench. -/
lemma Workbench.exists_code_of_generate {w : Workbench} {ss : List Statement} {image : List UInt8}
    (h : (w.generate ss).outcome = .ok image) : ∃ w' : Workbench, w'.code = image := by
  simp only [generate] at h
  split at h
  · cases h
  · split at h
    · cases h
    · split at h
      · cases h
      · exact ⟨_, Except.ok.inj h⟩

/-- The image of a source text is no larger than the address space. -/
lemma length_of_assemble {source file : String} {settings : Settings} {image : List UInt8}
    (h : assemble source file settings = .ok image) : image.length ≤ 0x10000 := by
  obtain ⟨w, -, h⟩ := bind_eq_ok_iff.1 h
  unfold Workbench.assemble at h
  split at h
  · cases h
  · obtain ⟨w', rfl⟩ := Workbench.exists_code_of_generate h
    exact w'.length_code_le

end Asm8080
