import Mathlib.Data.List.Induction
import Asm8080.Proofs.Assembly.Contents

/-!
# Code one after another

A program of instructions and data without names, after at most an origin, is the plainest program
there is: every statement has its code once and for all, and the image is the code of all statements
from the origin on.

## Main definitions

* `Asm8080.Statement.Emits` — a statement binds no name and has the same code everywhere.
* `Asm8080.Piece.sequence` — pieces of code one after another.
* `Asm8080.Piece.alone` — the image of one piece.

## Main results

* `Asm8080.Workbench.generate_sequence` — the image of a program of such statements.
-/

set_option autoImplicit false

namespace Asm8080

/-! ## Pieces one after another -/

namespace Piece

/-- Pieces of code one after another, from an address on. -/
def sequence : Nat → List (List UInt8) → List Piece
  | _, [] => []
  | address, code :: codes => ⟨address, code⟩ :: sequence (address + code.length) codes

/-- One more piece at the end. -/
lemma sequence_concat (address : Nat) (codes : List (List UInt8)) (code : List UInt8) :
    sequence address (codes ++ [code]) =
      sequence address codes ++ [⟨address + codes.flatten.length, code⟩] := by
  induction codes generalizing address with
  | nil => simp [sequence]
  | cons c codes ih => simp [sequence, ih, Nat.add_assoc]

/-- The bytes of two pieces one after another are those of one piece. -/
lemma byteAt?_append (address : Nat) (bs cs : List UInt8) (x : Nat) :
    byteAt? ⟨address, bs ++ cs⟩ x =
      (byteAt? ⟨address + bs.length, cs⟩ x).or (byteAt? ⟨address, bs⟩ x) := by
  unfold byteAt?
  by_cases hx : address ≤ x
  · by_cases hx' : address + bs.length ≤ x
    · have hlen : bs.length ≤ x - address := by omega
      have hsub : x - address - bs.length = x - (address + bs.length) := by omega
      have hnone : bs[x - address]? = none := List.getElem?_eq_none hlen
      simp [hx, hx', List.getElem?_append_right hlen, hsub, hnone]
    · have hlen : x - address < bs.length := by omega
      simp [hx, hx', List.getElem?_append_left hlen]
  · have hx' : ¬address + bs.length ≤ x := by omega
    simp [hx, hx']

/-- The limit of two pieces one after another is that of one piece. -/
lemma limit_append (address : Nat) (bs cs : List UInt8) :
    limit ⟨address, bs ++ cs⟩ = max (limit ⟨address, bs⟩) (limit ⟨address + bs.length, cs⟩) := by
  simp only [limit, List.append_eq_nil_iff, List.length_append]
  by_cases hcs : cs = []
  · by_cases hbs : bs = [] <;> simp [hbs, hcs]
  · have hle : ¬(bs = [] ∧ cs = []) := fun h => hcs h.2
    rw [if_neg hle, if_neg hcs]
    split <;> omega

/-- Pieces one after another have the bytes of one piece. -/
lemma byteIn?_sequence (address : Nat) (codes : List (List UInt8)) (x : Nat) :
    byteIn? (sequence address codes) x = byteAt? ⟨address, codes.flatten⟩ x := by
  induction codes using List.reverseRecOn with
  | nil => simp [sequence, byteIn?, last?, byteAt?]
  | append_singleton codes code ih =>
    rw [sequence_concat, byteIn?_concat, ih, List.flatten_append, byteAt?_append]
    simp

/-- Pieces one after another extend as far as one piece. -/
lemma extent_sequence (address : Nat) (codes : List (List UInt8)) :
    extent (sequence address codes) = limit ⟨address, codes.flatten⟩ := by
  induction codes using List.reverseRecOn with
  | nil => rfl
  | append_singleton codes code ih =>
    rw [sequence_concat, extent_concat, ih, List.flatten_append, limit_append]
    simp

/-- Pieces without bytes before others change nothing. -/
lemma byteIn?_append_of_nil {qs : List Piece} (h : ∀ q ∈ qs, q.code = []) (ps : List Piece)
    (x : Nat) : byteIn? (qs ++ ps) x = byteIn? ps x := by
  rw [byteIn?_append]
  cases hbyte : byteIn? qs x with
  | none => exact Option.or_none
  | some b =>
    obtain ⟨q, hq, hcovers⟩ := exists_covers_of_byteIn? hbyte
    exact absurd hcovers (not_covers_of_nil (h q hq) x)

/-- Pieces without bytes do not extend others. -/
lemma extent_append_of_nil {qs : List Piece} (h : ∀ q ∈ qs, q.code = []) (ps : List Piece) :
    extent (qs ++ ps) = extent ps := by
  have hzero : extent qs ≤ 0 := by
    refine extent_le fun q hq => ?_
    rw [limit, if_pos (h q hq)]
  rw [extent_append, Nat.le_zero.1 hzero, Nat.zero_max]

/-! ## The image of one piece -/

/-- The image of one piece: the fill byte up to its address, and its code. A piece without bytes
leaves the image empty. -/
def alone (fill : UInt8) (p : Piece) : List UInt8 :=
  if p.code = [] then [] else List.replicate p.address fill ++ p.code

/-- The image of a piece has its code from its address on. -/
lemma drop_alone (fill : UInt8) (address : Nat) (code : List UInt8) :
    (alone fill ⟨address, code⟩).drop address = code := by
  unfold alone
  split_ifs with hcode
  · exact List.drop_nil.trans hcode.symm
  · exact List.drop_left' List.length_replicate

/-- The image of a piece has the fill byte below its address. -/
lemma eq_of_mem_take_alone {fill : UInt8} {address : Nat} {code : List UInt8} {b : UInt8}
    (h : b ∈ (alone fill ⟨address, code⟩).take address) : b = fill := by
  unfold alone at h
  split at h
  · simp at h
  · rw [List.take_left' List.length_replicate] at h
    exact List.eq_of_mem_replicate h

/-- The image of a piece at address 0 is its code. -/
lemma alone_zero (fill : UInt8) (code : List UInt8) : alone fill ⟨0, code⟩ = code := by
  unfold alone
  split <;> simp_all

end Piece

/-- The bytes of an image that holds as much as one piece does. -/
lemma Image.Holds.toBytes_eq {fill : UInt8} {ps : List Piece} {i : Image} (h : Holds fill ps i)
    {address : Nat} {code : List UInt8}
    (hbytes : ∀ x, Piece.byteIn? ps x = Piece.byteAt? ⟨address, code⟩ x)
    (hextent : Piece.extent ps = Piece.limit ⟨address, code⟩)
    (hfits : address + code.length ≤ Word.count) :
    i.toBytes none = Piece.alone fill ⟨address, code⟩ := by
  have hlength : (i.toBytes none).length = Piece.limit ⟨address, code⟩ := by
    have hle : Piece.extent ps ≤ Word.count := by
      rw [hextent, Emission.limit_le_iff]
      exact .inr hfits
    rw [h.length_toBytes hle (by simp), hextent]
    simp
  unfold Piece.limit at hlength
  unfold Piece.alone
  split_ifs with hcode
  · rw [if_pos hcode] at hlength
    exact List.length_eq_zero_iff.1 hlength
  · rw [if_neg hcode] at hlength
    refine List.ext_getElem? fun x => ?_
    by_cases hx : x < address + code.length
    · rw [h.getElem?_toBytes (by rw [hlength]; exact hx), hbytes, Piece.byteAt?]
      by_cases hlow : x < address
      · rw [if_neg (by simpa using hlow), List.getElem?_append_left (by simpa using hlow)]
        simp [hlow]
      · have hindex : x - address < code.length := by omega
        rw [if_pos (by simpa using hlow), List.getElem?_append_right (by simpa using hlow)]
        simp [hindex]
    · rw [List.getElem?_eq_none (by rw [hlength]; simpa using hx),
        List.getElem?_eq_none (by simpa using hx)]

/-! ## Statements with a code of their own -/

namespace Statement

/-- A statement binds no name and has the same code under all symbols and at every address. -/
structure Emits (code : List UInt8) (s : Statement) : Prop where
  names_eq : s.action.names = []
  places : s.action.Places
  size_eq : s.action.size = code.length
  encode_eq : ∀ symbols address, s.encode symbols address = .ok (some code)

variable {codes : List (List UInt8)} {ss : List Statement}

/-- What statements emit at addresses one after another. -/
lemma map_piece_eq_sequence (h : List.Forall₂ Emits codes ss) (symbols : SymbolTable)
    (address : Nat) :
    (ss.zip ((Piece.sequence address codes).map Piece.address)).map
      (fun p => p.1.piece symbols p.2) = Piece.sequence address codes := by
  induction h generalizing address with
  | nil => rfl
  | cons hs _ ih =>
    simp only [Piece.sequence, List.map_cons, List.zip_cons_cons, ih]
    rw [piece, hs.encode_eq]

end Statement

namespace Layout

variable {l : Layout}

/-- The first pass moves past a statement with a code of its own. -/
lemma exists_step_emits {code : List UInt8} {s : Statement} (h : s.Emits code)
    (hfits : l.cursor + code.length ≤ Word.count) :
    ∃ l', l.step s = (l', none) ∧ l'.cursor = l.cursor + code.length ∧
      l'.addresses = l.addresses.push l.cursor := by
  have hplaces := h.places
  have hnames := h.names_eq
  have hsize := h.size_eq
  have hle : ¬Word.count < l.cursor + code.length := by omega
  unfold step
  cases ha : s.action with
  | label | origin | equate =>
    rw [ha] at hplaces
    exact hplaces.elim
  | data name width e =>
    rw [ha] at hnames hsize
    cases name with
    | some name => cases hnames
    | none => simp [advance, show width.size = code.length from hsize, hle]
  | instruction encoding operands =>
    rw [ha] at hsize
    simp [advance, show encoding.size = code.length from hsize, hle]

/-- The first pass places statements with codes of their own one after another. -/
lemma exists_run_emits {codes : List (List UInt8)} {ss : List Statement}
    (h : List.Forall₂ Statement.Emits codes ss)
    (hfits : l.cursor + codes.flatten.length ≤ Word.count) :
    ∃ l', l.run ss = (l', none) ∧
      l'.addresses.toList =
        l.addresses.toList ++ (Piece.sequence l.cursor codes).map Piece.address := by
  induction h generalizing l with
  | nil => exact ⟨l, rfl, by simp [Piece.sequence]⟩
  | @cons code s codes ss hs _ ih =>
    rw [List.flatten_cons, List.length_append] at hfits
    obtain ⟨l₁, hstep, hcursor, haddresses⟩ := exists_step_emits (l := l) hs (by omega)
    obtain ⟨l', hrun, haddresses'⟩ := ih (l := l₁) (by rw [hcursor]; omega)
    refine ⟨l', run_cons_iff.2 ⟨l₁, hstep, hrun⟩, ?_⟩
    rw [haddresses', haddresses, hcursor]
    simp [Piece.sequence]

end Layout

/-! ## The whole program -/

namespace Workbench

variable {w : Workbench} {front body : List Statement} {codes : List (List UInt8)} {l l' : Layout}

/-- Statements that place nothing, and statements with codes of their own, can all be encoded. -/
lemma exists_encode (hfront : ∀ s ∈ front, ¬s.action.Places)
    (hbody : List.Forall₂ Statement.Emits codes body) {s : Statement} (hs : s ∈ front ++ body)
    (symbols : SymbolTable) (address : Nat) : ∃ code, s.encode symbols address = .ok code := by
  rcases List.mem_append.1 hs with hs | hs
  · exact ⟨none, Statement.encode_of_not_places (hfront s hs)⟩
  · obtain ⟨code, -, hcode⟩ := Encoding.exists_mem_of_forall₂ hbody hs
    exact ⟨some code, hcode.encode_eq symbols address⟩

/-- The pieces of the program are pieces without bytes, and the codes one after another. -/
lemma exists_pieces_eq (hw : w.settings.fault? = none)
    (hl : Layout.ofStatements front = (l, none))
    (hl' : Layout.ofStatements (front ++ body) = (l', none))
    (haddresses : l'.addresses.toList =
      l.addresses.toList ++ (Piece.sequence l.cursor codes).map Piece.address)
    (hfront : ∀ s ∈ front, ¬s.action.Places)
    (hbody : List.Forall₂ Statement.Emits codes body) :
    ∃ qs : List Piece, (∀ q ∈ qs, q.code = []) ∧
      (w.generate (front ++ body)).workbench.pieces (front ++ body) =
        qs ++ Piece.sequence l.cursor codes := by
  have hlength : front.length = l.addresses.toList.length := by
    rw [addresses_of_layout hl, List.length_map, List.length_range]
  obtain ⟨haddr, hsym⟩ := workbench_generate hw hl'
  refine ⟨(front.zip l.addresses.toList).map fun p => p.1.piece l'.symbols p.2, ?_, ?_⟩
  · intro q hq
    obtain ⟨⟨s, address⟩, hs, rfl⟩ := List.mem_map.1 hq
    rw [Statement.piece_of_not_places (hfront s (List.of_mem_zip hs).1)]
  · rw [pieces, haddr, hsym, haddresses, List.zip_append hlength, List.map_append,
      Statement.map_piece_eq_sequence hbody]

/-- **The image of statements with codes of their own** after statements that place nothing is their
code from the address on to which those lead.

**Proof sketch.** Every statement can be encoded, so the second pass succeeds. The pieces of the
program are pieces without bytes and the codes one after another, so the image has the bytes and the
extent of one piece (`Piece.byteIn?_sequence`, `Piece.extent_sequence`). -/
lemma generate_sequence (hw : w.settings.fault? = none) (hsize : w.settings.imageSize = none)
    (hl : Layout.ofStatements front = (l, none)) (hfront : ∀ s ∈ front, ¬s.action.Places)
    (hbody : List.Forall₂ Statement.Emits codes body)
    (hfits : l.cursor + codes.flatten.length ≤ Word.count) :
    (w.generate (front ++ body)).outcome =
      .ok (Piece.alone w.settings.fill ⟨l.cursor, codes.flatten⟩) := by
  obtain ⟨l', hrun, haddresses⟩ := Layout.exists_run_emits hbody hfits
  have hl' : Layout.ofStatements (front ++ body) = (l', none) :=
    Layout.run_append_iff.2 ⟨l, hl, hrun⟩
  have hr : l'.symbols.InRange := Layout.inRange_of_run hl' SymbolTable.inRange_empty
  obtain ⟨m, hm⟩ := (emission_ok_iff (Placement.of_layout hl') hr (addresses_of_layout hl')
    { image := ⟨w.settings.fill, ∅, 0⟩ }).2 fun i hi =>
      (Statement.encode_ok_iff hr).1 (exists_encode hfront hbody (List.getElem_mem hi) _ _)
  have hcode := (generate_ok_iff hw).2 ⟨l', m, hl', hm, rfl⟩
  obtain ⟨image, hholds, himage, -⟩ := exists_holds_pieces hw hcode
  obtain ⟨qs, hqs, hpieces⟩ := exists_pieces_eq hw hl hl' haddresses hfront hbody
  rw [hcode, himage, hsize]
  rw [hpieces] at hholds
  congr 1
  refine hholds.toBytes_eq (fun x => ?_) ?_ hfits
  · rw [Piece.byteIn?_append_of_nil hqs, Piece.byteIn?_sequence]
  · rw [Piece.extent_append_of_nil hqs, Piece.extent_sequence]

end Workbench

end Asm8080
