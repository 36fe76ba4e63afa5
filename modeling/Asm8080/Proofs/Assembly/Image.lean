import Mathlib.Data.List.Induction
import Asm8080.Assembly.Image
import Asm8080.Proofs.Fallible

/-!
# Writing into an image

Bytes are written at consecutive addresses, one piece of code after another. Where pieces overlap,
the later one stays: the byte at an address is that of the last piece that covers it, or the fill
byte if no piece does. The image extends through the highest address that a piece covers.

## Main definitions

* `Asm8080.Piece` — bytes at an address, and `Asm8080.Piece.Covers` — the addresses that it covers.
* `Asm8080.Image.Holds` — an image holds what pieces wrote into a blank one.

## Main results

* `Asm8080.Image.writeAll_ok_iff` — bytes can be written exactly when they fit in the address space.
* `Asm8080.Image.Holds.writeAll` — what writing one more piece does.
* `Asm8080.Image.Holds.byte_eq` — the last piece that covers an address has its byte there.
-/

set_option autoImplicit false

namespace Asm8080

/-- Bytes that are placed from an address on. -/
structure Piece where
  address : Nat
  code : List UInt8
deriving DecidableEq

namespace Piece

/-- The address after the last byte of a piece; 0 if it has none. -/
def limit (p : Piece) : Nat := if p.code = [] then 0 else p.address + p.code.length

/-- A piece covers an address if it has a byte there. -/
def Covers (p : Piece) (x : Nat) : Prop := p.address ≤ x ∧ x < p.address + p.code.length

/-- Whether a piece covers an address is decided by its ends. -/
instance (p : Piece) (x : Nat) : Decidable (p.Covers x) :=
  inferInstanceAs (Decidable (_ ∧ _))

/-- A piece without bytes covers nothing. -/
lemma not_covers_of_nil {p : Piece} (h : p.code = []) (x : Nat) : ¬p.Covers x := by
  rintro ⟨h₁, h₂⟩
  rw [h, List.length_nil] at h₂
  omega

/-- What a piece covers is below its limit. -/
lemma Covers.lt_limit {p : Piece} {x : Nat} (h : p.Covers x) : x < p.limit := by
  have hne : p.code ≠ [] := fun hnil => not_covers_of_nil hnil x h
  rw [limit, if_neg hne]
  exact h.2

/-- The address below the limit of a piece is covered. -/
lemma covers_pred_limit {p : Piece} (h : 0 < p.limit) : p.Covers (p.limit - 1) := by
  unfold limit at h ⊢
  split_ifs at h ⊢ with hnil
  · omega
  · have hlen := List.length_pos_iff.2 hnil
    exact ⟨by omega, by omega⟩

/-- The byte of a piece at an address. -/
def byteAt? (p : Piece) (x : Nat) : Option UInt8 :=
  if p.address ≤ x then p.code[x - p.address]? else none

/-- A piece has a byte at exactly the addresses that it covers. -/
lemma isSome_byteAt?_iff {p : Piece} {x : Nat} : (p.byteAt? x).isSome ↔ p.Covers x := by
  unfold byteAt? Covers
  split_ifs with h
  · simp only [isSome_getElem?, h, true_and]
    omega
  · simp [h]

/-- The bytes of a piece are its first byte and the bytes of the rest at the next address. -/
lemma byteAt?_cons (address : Nat) (b : UInt8) (bs : List UInt8) (x : Nat) :
    byteAt? ⟨address, b :: bs⟩ x = if address = x then some b else byteAt? ⟨address + 1, bs⟩ x := by
  simp only [byteAt?]
  rcases Nat.lt_trichotomy x address with hx | rfl | hx
  · rw [if_neg (by omega), if_neg (by omega), if_neg (by omega)]
  · rw [if_pos (by omega), if_pos rfl, Nat.sub_self, List.getElem?_cons_zero]
  · obtain ⟨k, rfl⟩ : ∃ k, x = address + 1 + k := ⟨x - (address + 1), by omega⟩
    have hk : address + 1 + k - address = k + 1 := by omega
    have hk' : address + 1 + k - (address + 1) = k := by omega
    rw [if_pos (by omega), if_neg (by omega), if_pos (by omega), hk, hk',
      List.getElem?_cons_succ]

/-- The last of some pieces that covers an address. -/
def last? (ps : List Piece) (x : Nat) : Option Piece := (ps.filter fun p => p.Covers x).getLast?

/-- The byte at an address of the last piece that covers it. -/
def byteIn? (ps : List Piece) (x : Nat) : Option UInt8 := (last? ps x).bind fun p => p.byteAt? x

/-- The greatest limit of some pieces. -/
def extent (ps : List Piece) : Nat := ps.foldr (fun p n => max p.limit n) 0

/-- One more piece hides the earlier ones where it covers an address, and nowhere else. -/
lemma byteIn?_concat (ps : List Piece) (p : Piece) (x : Nat) :
    byteIn? (ps ++ [p]) x = (p.byteAt? x).or (byteIn? ps x) := by
  unfold byteIn? last?
  rw [List.filter_append, List.filter_cons, List.filter_nil]
  by_cases h : p.Covers x
  · obtain ⟨b, hb⟩ := Option.isSome_iff_exists.1 (isSome_byteAt?_iff.2 h)
    simp [h, hb]
  · have hb : p.byteAt? x = none := by
      rw [← Option.not_isSome_iff_eq_none, isSome_byteAt?_iff]
      exact h
    simp [h, hb]

/-- Where the later of two lists of pieces has no byte, that of the earlier one stays. -/
lemma byteIn?_append (ps qs : List Piece) (x : Nat) :
    byteIn? (ps ++ qs) x = (byteIn? qs x).or (byteIn? ps x) := by
  induction qs using List.reverseRecOn with
  | nil => simp [byteIn?, last?]
  | append_singleton qs q ih =>
    rw [← List.append_assoc, byteIn?_concat, byteIn?_concat, ih, Option.or_assoc]

/-- Pieces that have a byte at an address cover it. -/
lemma exists_covers_of_byteIn? {ps : List Piece} {x : Nat} {b : UInt8}
    (h : byteIn? ps x = some b) : ∃ p ∈ ps, p.Covers x := by
  unfold byteIn? last? at h
  obtain ⟨p, hp, -⟩ := Option.bind_eq_some_iff.1 h
  obtain ⟨hmem, hcovers⟩ := List.mem_filter.1 (List.mem_of_getLast? hp)
  exact ⟨p, hmem, of_decide_eq_true hcovers⟩

/-- The extent of two lists of pieces. -/
lemma extent_append (ps qs : List Piece) :
    extent (ps ++ qs) = max (extent ps) (extent qs) := by
  unfold extent
  induction ps with
  | nil => simp
  | cons p ps ih => rw [List.cons_append, List.foldr_cons, ih, List.foldr_cons, Nat.max_assoc]

/-- The extent of pieces with one more piece. -/
lemma extent_concat (ps : List Piece) (p : Piece) :
    extent (ps ++ [p]) = max (extent ps) p.limit := by
  rw [extent_append]
  simp [extent]

/-- A bound of all limits bounds the extent. -/
lemma extent_le {ps : List Piece} {n : Nat} (h : ∀ p ∈ ps, p.limit ≤ n) : extent ps ≤ n := by
  induction ps with
  | nil => exact Nat.zero_le n
  | cons q ps ih =>
    obtain ⟨hq, hps⟩ := List.forall_mem_cons.1 h
    exact Nat.max_le.2 ⟨hq, ih hps⟩

/-- Every covered address is below the extent. -/
lemma Covers.lt_extent {ps : List Piece} {p : Piece} (hp : p ∈ ps) {x : Nat} (h : p.Covers x) :
    x < extent ps := by
  have hx := h.lt_limit
  unfold extent
  induction ps with
  | nil => exact absurd hp List.not_mem_nil
  | cons q ps ih =>
    rw [List.foldr_cons]
    rcases List.mem_cons.1 hp with rfl | hp
    · omega
    · have := ih hp
      omega

/-- The address below the extent is covered. -/
lemma exists_covers_pred_extent {ps : List Piece} (h : 0 < extent ps) :
    ∃ p ∈ ps, p.Covers (extent ps - 1) := by
  induction ps with
  | nil => exact absurd h (by simp [extent])
  | cons q ps ih =>
    have hcons : extent (q :: ps) = max q.limit (extent ps) := rfl
    rcases Nat.le_total (extent ps) q.limit with hle | hle
    · rw [hcons, Nat.max_eq_left hle] at h ⊢
      exact ⟨q, by simp, covers_pred_limit h⟩
    · rw [hcons, Nat.max_eq_right hle] at h ⊢
      obtain ⟨p, hp, hc⟩ := ih h
      exact ⟨p, List.mem_cons_of_mem _ hp, hc⟩

end Piece

namespace Image

variable {i i' : Image}

/-! ## One byte -/

/-- The place of an address in the address space is the address. -/
lemma place?_natCast (address : Nat) :
    place? address = if address < Word.count then some address else none := by
  unfold place? Index.place?
  by_cases h : address < Word.count
  · have hin : 0 ≤ (address : Int) ∧ (address : Int) < Word.count := by omega
    rw [if_pos hin, if_pos h, Int.toNat_natCast]
  · have hout : ¬(0 ≤ (address : Int) ∧ (address : Int) < Word.count) := by omega
    have hneg : ¬(-(Word.count : Int) ≤ address ∧ (address : Int) < 0) := by omega
    rw [if_neg hout, if_neg hneg, if_neg h]

/-- A byte is written at an address exactly when it is in the address space. -/
lemma write_eq_ok_iff {address : Nat} {b : UInt8} :
    i.write address b.toNat = .ok i' ↔
      address < Word.count ∧
        i' = ⟨i.fill, i.written.insert address b, max i.highWater (address + 1)⟩ := by
  have hb : UInt8.ofNat ((b.toNat : Int) % 0x100).toNat = b := by
    have hlt := b.toNat_lt
    rw [Int.emod_eq_of_lt (by omega) (by omega), Int.toNat_natCast, UInt8.ofNat_toNat]
  have ha : ((address : Int) + 1).toNat = address + 1 := by omega
  rw [write, place?_natCast]
  by_cases h : address < Word.count
  · simp only [h, if_true, hb, ha, Except.ok.injEq, true_and, eq_comm]
  · simp only [h, if_false, reduceCtorEq, false_and]

/-- The byte at an address of an image into which one byte was written. -/
lemma byte_insert (i : Image) (address : Nat) (b : UInt8) (highWater x : Nat) :
    byte ⟨i.fill, i.written.insert address b, highWater⟩ x =
      if address = x then b else i.byte x := by
  simp only [byte, Std.TreeMap.getD_insert, Nat.compare_eq_eq]

/-! ## One piece -/

/-- Bytes are written one after another. -/
lemma writeAll_cons_iff {address : Nat} {b : UInt8} {bs : List UInt8} :
    (∃ events, i.writeAll address (b :: bs) = .ok (i', events)) ↔
      address < Word.count ∧ ∃ events, writeAll
        ⟨i.fill, i.written.insert address b, max i.highWater (address + 1)⟩ (address + 1) bs =
          .ok (i', events) := by
  simp only [writeAll, bind_eq_ok_iff, write_eq_ok_iff]
  constructor
  · rintro ⟨events, next, ⟨hlt, rfl⟩, ⟨last, events'⟩, hrest, heq⟩
    cases heq
    exact ⟨hlt, events', hrest⟩
  · rintro ⟨hlt, events, hrest⟩
    exact ⟨_, _, ⟨hlt, rfl⟩, _, hrest, rfl⟩

/-- **Bytes can be written** exactly when they end in the address space. -/
lemma writeAll_ok_iff {address : Nat} {code : List UInt8} :
    (∃ i' events, i.writeAll address code = .ok (i', events)) ↔
      code = [] ∨ address + code.length ≤ Word.count := by
  induction code generalizing i address with
  | nil => simp [writeAll]
  | cons b bs ih =>
    simp only [writeAll_cons_iff, exists_and_left, ih, List.length_cons, reduceCtorEq, false_or]
    constructor
    · rintro ⟨hlt, rfl | hle⟩
      · simp only [List.length_nil]
        omega
      · omega
    · intro h
      exact ⟨by omega, .inr (by omega)⟩

/-- Writing a piece changes the bytes that it covers and no others.

**Proof sketch.** Induction on the bytes. The first byte changes its own address, and the rest is a
piece at the next address. -/
lemma byte_writeAll {address : Nat} {code : List UInt8} {events : List Event}
    (h : i.writeAll address code = .ok (i', events)) :
    i'.fill = i.fill ∧ i'.highWater = max i.highWater (Piece.limit ⟨address, code⟩) ∧
      ∀ x, i'.byte x = (Piece.byteAt? ⟨address, code⟩ x).getD (i.byte x) := by
  induction code generalizing i address events with
  | nil =>
    cases h
    exact ⟨rfl, by simp [Piece.limit], fun x => by simp [Piece.byteAt?]⟩
  | cons b bs ih =>
    obtain ⟨hlt, events', hrest⟩ := writeAll_cons_iff.1 ⟨events, h⟩
    obtain ⟨hfill, hhigh, hbyte⟩ := ih hrest
    refine ⟨hfill, ?_, fun x => ?_⟩
    · rw [hhigh]
      simp only [Piece.limit, reduceCtorEq, if_false, List.length_cons]
      split_ifs with hnil
      · rw [hnil, List.length_nil]
        omega
      · omega
    · rw [hbyte, byte_insert, Piece.byteAt?_cons]
      split_ifs with hx
      · have hnone : Piece.byteAt? ⟨address + 1, bs⟩ x = none := by
          rw [Piece.byteAt?, if_neg (by simp only; omega)]
        rw [hnone, Option.getD_none, Option.getD_some]
      · rfl

/-! ## Pieces written one after another -/

/-- An image holds what pieces wrote, one after another, into a blank image. -/
structure Holds (fill : UInt8) (ps : List Piece) (i : Image) : Prop where
  byte_eq : ∀ x, i.byte x = (Piece.byteIn? ps x).getD fill
  highWater_eq : i.highWater = Piece.extent ps

namespace Holds

variable {fill : UInt8} {ps : List Piece}

/-- A blank image holds nothing. -/
lemma blank (fill : UInt8) : Holds fill [] ⟨fill, ∅, 0⟩ where
  byte_eq x := by simp [byte, Piece.byteIn?, Piece.last?]
  highWater_eq := rfl

/-- After one more piece is written, the image holds that piece last. -/
lemma writeAll (h : Holds fill ps i) {p : Piece} {events : List Event}
    (hw : i.writeAll p.address p.code = .ok (i', events)) : Holds fill (ps ++ [p]) i' := by
  obtain ⟨-, hhigh, hbyte⟩ := byte_writeAll hw
  refine ⟨fun x => ?_, ?_⟩
  · rw [hbyte, h.byte_eq, Piece.byteIn?_concat]
    cases p.byteAt? x <;> rfl
  · rw [hhigh, h.highWater_eq, Piece.extent_concat]

/-- The number of bytes of an image, if the extent and the least size are in the address space. -/
lemma length_toBytes (h : Holds fill ps i) {least : Option Int}
    (hps : Piece.extent ps ≤ Word.count) (hleast : (least.getD 0).toNat ≤ Word.count) :
    (i.toBytes least).length = max (Piece.extent ps) (least.getD 0).toNat := by
  rw [toBytes, List.length_map, List.length_range, h.highWater_eq]
  omega

/-- The bytes of an image are those of the last pieces, and the fill byte where there is none. -/
lemma getElem?_toBytes (h : Holds fill ps i) {least : Option Int} {x : Nat}
    (hx : x < (i.toBytes least).length) :
    (i.toBytes least)[x]? = some ((Piece.byteIn? ps x).getD fill) := by
  rw [toBytes, List.length_map, List.length_range] at hx
  rw [toBytes, List.getElem?_map, List.getElem?_range hx, Option.map_some, h.byte_eq]

end Holds

end Image

end Asm8080
