import Asm8080.Proofs.Assembly.Sequence

/-!
# The order of sections

A section begins with an origin whose value is written out, so that its addresses do not depend on
what stands before it. Two sections may be put in the other order: the first pass finds the same
words for the names, as long as no origin or equate of the one needs a name of the other, and the
second pass writes the same bytes, as long as the two do not write to the same address.

## Main definitions

* `Asm8080.Layout.Route` — the addresses of statements from some current address on.
* `Asm8080.IsSection` — statements that begin with an origin whose value is written out.

## Main results

* `Asm8080.Layout.Route.of_run`, `Asm8080.Layout.Route.run` — the first pass takes a route, and if
  there is one it succeeds.
* `Asm8080.Layout.Route.swap` — the routes of two sections in the other order.
* `Asm8080.Piece.byteIn?_append_comm` — pieces that are apart may be written in any order.
* `Asm8080.Workbench.generate_swap` — two sections in the other order are assembled alike.
-/

set_option autoImplicit false

namespace Asm8080

/-! ## Sections -/

/-- Whether an expression mentions the address of its statement. -/
def Expr.mentionsHere : Expr → Bool
  | here _ => true
  | literal _ _ | char _ _ | label _ _ => false
  | complement _ operand => operand.mentionsHere
  | binary _ _ left right => left.mentionsHere || right.mentionsHere

/-- An expression that does not mention the address of its statement means the same everywhere. -/
lemma Expr.meaning_of_mentionsHere_eq_false {e : Expr} (h : e.mentionsHere = false)
    (σ : Assignment) (here here' : BitVec 16) : e.meaning σ here = e.meaning σ here' := by
  induction e with
  | literal | char | label => rfl
  | here => cases h
  | complement l operand ih => simp only [meaning, ih h]
  | binary l op left right ihl ihr =>
    obtain ⟨hl, hr⟩ := Bool.or_eq_false_iff.1 h
    simp only [meaning, ihl hl, ihr hr]

/-- Whether an action is an origin whose expression has no label and does not mention its own
address. -/
def Action.isFixedOrigin : Action → Bool
  | origin e => e.labels.isEmpty && !e.mentionsHere
  | label _ | data _ _ _ | equate _ _ | instruction _ _ => false

/-- An origin whose value is written out is an origin, and does not mention its own address. -/
lemma Action.exists_of_isFixedOrigin {a : Action} (h : a.isFixedOrigin = true) :
    ∃ e, a = .origin e ∧ e.mentionsHere = false := by
  cases a with
  | origin e =>
    simp only [isFixedOrigin, Bool.and_eq_true, Bool.not_eq_true_eq_eq_false] at h
    exact ⟨e, rfl, h.2⟩
  | label | data | equate | instruction => cases h

/-- Statements that begin with an origin whose value is written out. -/
def IsSection : List Statement → Prop
  | [] => False
  | s :: _ => s.action.isFixedOrigin = true

/-- Whether statements are a section is seen from the first one. -/
instance : DecidablePred IsSection
  | [] => .isFalse id
  | _ :: _ => inferInstanceAs (Decidable (_ = true))

/-- A section has as many addresses after it is entered from elsewhere. -/
lemma IsSection.length_enter {ss : List Statement} (h : IsSection ss) {addresses : List Nat}
    (hlength : ss.length = addresses.length) (here : Nat) :
    ss.length = (here :: addresses.tail).length := by
  cases ss with
  | nil => exact h.elim
  | cons s ss =>
    simp only [List.length_cons, List.length_tail] at hlength ⊢
    omega

/-- An origin whose value is written out moves to the same address from everywhere. -/
lemma Action.Resolved.of_isFixedOrigin {σ : Assignment} {above : List String} {here next : Nat}
    {a : Action} (h : a.Resolved σ above here next) (ha : a.isFixedOrigin = true) (here' : Nat) :
    a.Resolved σ above here' next := by
  obtain ⟨e, rfl, hfixed⟩ := exists_of_isFixedOrigin ha
  obtain ⟨v, hv, hnext⟩ := h.moves
  refine ⟨h.fresh, h.declared, trivial, v, ?_, hnext⟩
  rw [← hv]
  exact Expr.meaning_of_mentionsHere_eq_false hfixed σ _ _

/-! ## Routes of the first pass -/

namespace Layout

open SymbolTable (Tracks)

/-- The addresses of statements from a current address on, below names that are bound above them,
and the address after the last one: every statement is in keeping with an assignment. -/
inductive Route (σ : Assignment) : List String → Nat → List Statement → List Nat → Nat → Prop
  | nil {above : List String} {here : Nat} : Route σ above here [] [] here
  | cons {above : List String} {here middle next : Nat} {s : Statement} {ss : List Statement}
      {addresses : List Nat} (hs : s.action.Resolved σ above here middle)
      (hss : Route σ (above ++ s.action.names) middle ss addresses next) :
      Route σ above here (s :: ss) (here :: addresses) next

namespace Route

variable {σ : Assignment} {above : List String} {here next : Nat} {ss first second : List Statement}
  {addresses : List Nat} {l l' : Layout}

/-- Every statement of a route has an address. -/
lemma length_eq (h : Route σ above here ss addresses next) : ss.length = addresses.length := by
  induction h with
  | nil => rfl
  | cons _ _ ih => simp only [List.length_cons, ih]

/-- The names of a route are new. -/
lemma fresh (h : Route σ above here ss addresses next) :
    ∀ name ∈ boundNames ss, name ∉ above := by
  induction h with
  | nil => exact fun name hname => absurd hname List.not_mem_nil
  | cons hs _ ih =>
    intro name hname
    rcases List.mem_append.1 hname with hname | hname
    · exact hs.fresh name hname
    · exact fun habove => ih name hname (List.mem_append_left _ habove)

/-- **The first pass takes a route**, under every assignment that agrees with its final table.

**Proof sketch.** Induction on the statements. The table agrees with the assignment before each step
since it does so at the end (`tracks_of_run`), so that the step shows its statement resolved
(`step_ok_iff`). -/
lemma of_run (h : l.run ss = (l', none)) (ht : Tracks σ l'.symbols.names l'.symbols) :
    ∃ addresses, Route σ l.symbols.names l.cursor ss addresses l'.cursor ∧
      l'.addresses.toList = l.addresses.toList ++ addresses := by
  induction ss generalizing l with
  | nil =>
    cases h
    exact ⟨[], .nil, by simp⟩
  | cons s ss ih =>
    obtain ⟨l₁, hstep, hrun⟩ := run_cons_iff.1 h
    obtain ⟨addresses, hroute, haddresses⟩ := ih hrun
    have hnames := names_of_step hstep
    have hbefore : Tracks σ l.symbols.names l.symbols := tracks_of_run h ht
    have hafter : Tracks σ (l.symbols.names ++ s.action.names) l₁.symbols := by
      rw [← hnames]
      exact tracks_of_run hrun ht
    have hresolved := (step_ok_iff hbefore).1 ⟨l₁, hstep, hafter, rfl⟩
    have hpush : l₁.addresses = l.addresses.push l.cursor := by
      rw [← addresses_step l s, hstep]
    rw [hnames] at hroute
    exact ⟨l.cursor :: addresses, .cons hresolved hroute, by simp [haddresses, hpush]⟩

/-- **If there is a route, the first pass succeeds** and takes it. -/
lemma run (h : Route σ above here ss addresses next) (ht : Tracks σ above l.symbols)
    (hl : l.cursor = here) :
    ∃ l', l.run ss = (l', none) ∧ Tracks σ (above ++ boundNames ss) l'.symbols ∧
      l'.addresses.toList = l.addresses.toList ++ addresses := by
  induction h generalizing l with
  | nil => exact ⟨l, rfl, by simpa [boundNames] using ht, by simp⟩
  | @cons above here middle next s ss addresses hs _ ih =>
    subst hl
    obtain ⟨l₁, hstep, ht₁, hl₁⟩ := (step_ok_iff ht).2 hs
    obtain ⟨l', hrun, ht', haddresses⟩ := ih ht₁ hl₁
    have hpush : l₁.addresses = l.addresses.push l.cursor := by
      rw [← addresses_step l s, hstep]
    refine ⟨l', run_cons_iff.2 ⟨l₁, hstep, hrun⟩, ?_, by simp [haddresses, hpush]⟩
    rwa [List.append_assoc] at ht'

/-- A route through two lists of statements is a route through the first and then one through the
second. -/
lemma split (h : Route σ above here (first ++ second) addresses next) :
    ∃ as bs middle, addresses = as ++ bs ∧ Route σ above here first as middle ∧
      Route σ (above ++ boundNames first) middle second bs next := by
  induction first generalizing above here addresses with
  | nil => exact ⟨[], addresses, here, rfl, .nil, by simpa [boundNames] using h⟩
  | cons s first ih =>
    cases h with
    | cons hs hrest =>
      obtain ⟨as, bs, middle, rfl, hfirst, hsecond⟩ := ih hrest
      refine ⟨_ :: as, bs, middle, rfl, .cons hs hfirst, ?_⟩
      rwa [List.append_assoc] at hsecond

/-- Routes through two lists of statements, one after the other. -/
lemma append {as bs : List Nat} {middle : Nat} (h : Route σ above here first as middle)
    (h' : Route σ (above ++ boundNames first) middle second bs next) :
    Route σ above here (first ++ second) (as ++ bs) next := by
  induction h with
  | nil => simpa [boundNames] using h'
  | cons hs _ ih =>
    refine .cons hs (ih ?_)
    rwa [List.append_assoc]

/-- A route may be taken below other names, if its own names are new there and the names that its
origins and equates need are there too. -/
lemma under (h : Route σ above here ss addresses next) {above' : List String}
    (hfresh : ∀ name ∈ boundNames ss, name ∉ above')
    (hdeclared : ∀ s ∈ ss, ∀ e ∈ s.action.eager?, ∀ name ∈ e.labels,
      name ∈ above → name ∈ above') :
    Route σ above' here ss addresses next := by
  induction h generalizing above' with
  | nil => exact .nil
  | @cons above here middle next s ss addresses hs hss ih =>
    obtain ⟨hsdeclared, hdeclared⟩ := List.forall_mem_cons.1 hdeclared
    refine .cons ⟨fun name hname => hfresh name (List.mem_append_left _ hname), ?_, hs.binds,
      hs.moves⟩ (ih ?_ ?_)
    · exact fun e he name hname => hsdeclared e he name hname (hs.declared e he name hname)
    · intro name hname habove
      rcases List.mem_append.1 habove with habove | habove
      · exact hfresh name (List.mem_append_right _ hname) habove
      · exact hss.fresh name hname (List.mem_append_right _ habove)
    · intro s' hs' e he name hname habove
      refine List.mem_append.2 ((List.mem_append.1 habove).imp_left fun habove => ?_)
      exact hdeclared s' hs' e he name hname habove

/-- A section may be entered from any address; only the address of its origin changes. -/
lemma enter (h : Route σ above here ss addresses next) (hss : IsSection ss) (here' : Nat) :
    Route σ above here' ss (here' :: addresses.tail) next := by
  cases h with
  | nil => exact hss.elim
  | cons hs hrest => exact .cons (hs.of_isFixedOrigin hss here') hrest

/-- **Two sections in the other order** have the same addresses, except for those of their origins,
if no origin or equate of the second needs a name of the first.

**Proof sketch.** The second section is entered from address 0 with no name above it, and the first
one from where the second ends, below its names; both are independent of where they are entered. -/
lemma swap (h : Route σ [] 0 (first ++ second) addresses next) (hfirst : IsSection first)
    (hsecond : IsSection second)
    (hindependent : ∀ s ∈ second, ∀ e ∈ s.action.eager?, ∀ name ∈ e.labels,
      name ∉ boundNames first) :
    ∃ as bs middle, addresses = as ++ bs ∧ first.length = as.length ∧
      second.length = bs.length ∧
      Route σ [] 0 (second ++ first) (0 :: bs.tail ++ next :: as.tail) middle := by
  obtain ⟨as, bs, middle, rfl, hroute, hroute'⟩ := h.split
  rw [List.nil_append] at hroute'
  have hfront : Route σ [] 0 second (0 :: bs.tail) next := by
    refine (hroute'.under ?_ ?_).enter hsecond 0
    · exact fun name _ => List.not_mem_nil
    · exact fun s hs e he name hname habove => absurd habove (hindependent s hs e he name hname)
  have hback : Route σ (boundNames second) next first (next :: as.tail) middle := by
    refine (hroute.under ?_ ?_).enter hfirst next
    · exact fun name hname hsecond' => hroute'.fresh name hsecond' hname
    · exact fun s hs e he name hname habove => absurd habove List.not_mem_nil
  exact ⟨as, bs, middle, rfl, hroute.length_eq, hroute'.length_eq, hfront.append hback⟩

end Route

end Layout

/-! ## Pieces that are apart -/

namespace Piece

/-- Two lists of pieces cover no address in common. -/
def Apart (ps qs : List Piece) : Prop := ∀ p ∈ ps, ∀ q ∈ qs, ∀ x, p.Covers x → ¬q.Covers x

/-- Pieces are apart if one of any two ends before the other begins. -/
lemma apart_of_ends {ps qs : List Piece}
    (h : ∀ p ∈ ps, ∀ q ∈ qs,
      p.address + p.code.length ≤ q.address ∨ q.address + q.code.length ≤ p.address) :
    Apart ps qs := by
  intro p hp q hq x hx hx'
  have hends := h p hp q hq
  unfold Covers at hx hx'
  omega

/-- **Pieces that are apart** leave the same bytes in either order. -/
lemma byteIn?_append_comm {ps qs : List Piece} (h : Apart ps qs) (x : Nat) :
    byteIn? (ps ++ qs) x = byteIn? (qs ++ ps) x := by
  rw [byteIn?_append, byteIn?_append]
  cases hp : byteIn? ps x with
  | none => simp
  | some b =>
    cases hq : byteIn? qs x with
    | none => simp
    | some c =>
      obtain ⟨p, hmem, hcovers⟩ := exists_covers_of_byteIn? hp
      obtain ⟨q, hmem', hcovers'⟩ := exists_covers_of_byteIn? hq
      exact absurd hcovers' (h p hmem q hmem' x hcovers)

end Piece

/-- Images that hold the same bytes up to the same extent are the same, as bytes. -/
lemma Image.Holds.toBytes_congr {fill : UInt8} {ps qs : List Piece} {i i' : Image}
    (h : Holds fill ps i) (h' : Holds fill qs i')
    (hbytes : ∀ x, Piece.byteIn? ps x = Piece.byteIn? qs x)
    (hextent : Piece.extent ps = Piece.extent qs) (least : Option Int) :
    i.toBytes least = i'.toBytes least := by
  have hbyte : i.byte = i'.byte := funext fun x => by rw [h.byte_eq, h'.byte_eq, hbytes]
  rw [toBytes, toBytes, h.highWater_eq, h'.highWater_eq, hextent, hbyte]

/-! ## Tables that give names the same words -/

namespace SymbolTable

/-- Two tables give names the same words. -/
structure SameWords (t t' : SymbolTable) : Prop where
  inRange : t.InRange
  inRange' : t'.InRange
  assignment_eq : t.assignment = t'.assignment

namespace SameWords

variable {t t' : SymbolTable} {address : Nat}

/-- A name is bound to the same word in both tables, or in neither. -/
lemma lookup_eq (h : t.SameWords t') (name : String) : t.lookup name = t'.lookup name := by
  rw [← h.inRange.map_assignment, ← h.inRange'.map_assignment, h.assignment_eq]

/-- An expression has the same value under both tables. -/
lemma evaluate_eq_ok_iff (h : t.SameWords t') {e : Expr} {line : Option String} {value : Nat} :
    e.evaluate t address line = .ok value ↔ e.evaluate t' address line = .ok value := by
  rw [Expr.evaluate_eq_ok_iff h.inRange, Expr.evaluate_eq_ok_iff h.inRange', h.assignment_eq]

/-- A statement has the same code under both tables. -/
lemma encode_eq_ok_iff (h : t.SameWords t') {s : Statement} {code : Option (List UInt8)} :
    s.encode t address = .ok code ↔ s.encode t' address = .ok code := by
  unfold Statement.encode
  cases s.action with
  | label | origin | equate => exact Iff.rfl
  | data name width e =>
    simp only [map_eq_ok_iff, encodeData_eq_ok_iff, h.evaluate_eq_ok_iff]
  | instruction encoding operands =>
    simp only [map_eq_ok_iff]
    cases hk : encoding.immediate? with
    | none => simp only [encodeInstruction_of_immediate_eq_none (.inl hk)]
    | some kind =>
      cases he : Operand.expressionOf operands with
      | none => simp only [encodeInstruction_of_immediate_eq_none (.inr he)]
      | some e => simp only [encodeInstruction_eq_ok_iff hk he, h.evaluate_eq_ok_iff]

/-- A statement emits the same piece under both tables. -/
lemma piece_eq (h : t.SameWords t') (s : Statement) (address : Nat) :
    s.piece t address = s.piece t' address := by
  unfold Statement.piece
  cases hcode : s.encode t address with
  | ok code => rw [h.encode_eq_ok_iff.1 hcode]
  | error f =>
    cases hcode' : s.encode t' address with
    | ok code => cases hcode.symm.trans (h.encode_eq_ok_iff.2 hcode')
    | error g => rfl

/-- A statement fits under both tables, or under neither. -/
lemma fits_iff (h : t.SameWords t') {s : Statement} : s.Fits t address ↔ s.Fits t' address := by
  simp only [Statement.Fits, h.encode_eq_ok_iff, h.piece_eq]

end SameWords

end SymbolTable

/-- A table that binds the names of another one in agreement with it gives them the same words. -/
lemma SymbolTable.Tracks.sameWords {t t' : SymbolTable} {above : List String}
    (h : Tracks t.assignment above t') (hr : t.InRange)
    (hnames : ∀ name, name ∈ above ↔ name ∈ t.names) : t.SameWords t' := by
  refine ⟨hr, h.inRange, funext fun name => ?_⟩
  by_cases hname : name ∈ above
  · exact (h.agrees name hname).symm
  · rw [SymbolTable.assignment_eq_none fun hn => hname ((hnames name).2 hn),
      SymbolTable.assignment_eq_none fun hn => hname ((h.mem_names name).1 hn)]

/-! ## What sections emit -/

namespace Statement

variable {t : SymbolTable} {ss : List Statement} {addresses : List Nat}

/-- What statements emit at addresses. -/
def pieces (t : SymbolTable) (ss : List Statement) (addresses : List Nat) : List Piece :=
  (ss.zip addresses).map fun p => p.1.piece t p.2

/-- What two lists of statements emit. -/
lemma pieces_append (t : SymbolTable) {first second : List Statement} {as bs : List Nat}
    (h : first.length = as.length) :
    pieces t (first ++ second) (as ++ bs) = pieces t first as ++ pieces t second bs := by
  rw [pieces, List.zip_append h, List.map_append]
  rfl

/-- Every statement with an address has its piece. -/
lemma length_pieces (h : ss.length = addresses.length) : (pieces t ss addresses).length =
    ss.length := by
  rw [pieces, List.length_map, List.length_zip, ← h, Nat.min_self]

/-- The origin at the beginning of a section has no code. -/
lemma encode_of_isFixedOrigin {s : Statement} (h : s.action.isFixedOrigin = true)
    (address : Nat) : s.encode t address = .ok none := by
  obtain ⟨e, he, -⟩ := Action.exists_of_isFixedOrigin h
  rw [encode, he]

/-- From wherever a section is entered, its statements fit. -/
lemma fits_enter (hss : IsSection ss) (here : Nat)
    (h : ∀ p ∈ ss.zip addresses, p.1.Fits t p.2) :
    ∀ p ∈ ss.zip (here :: addresses.tail), p.1.Fits t p.2 := by
  cases ss with
  | nil => exact hss.elim
  | cons s ss =>
    have hs : s.Fits t here := by
      rw [Fits, piece, encode_of_isFixedOrigin hss]
      exact ⟨⟨none, rfl⟩, Nat.zero_le _⟩
    cases addresses with
    | nil => simpa using hs
    | cons a addresses =>
      simp only [List.zip_cons_cons, List.tail_cons, List.forall_mem_cons] at h ⊢
      exact ⟨hs, h.2⟩

/-- From wherever a section is entered, it emits the same bytes. -/
lemma pieces_enter (hss : IsSection ss) (hlength : ss.length = addresses.length) (here : Nat) :
    (∀ x, Piece.byteIn? (pieces t ss (here :: addresses.tail)) x =
        Piece.byteIn? (pieces t ss addresses) x) ∧
      Piece.extent (pieces t ss (here :: addresses.tail)) =
        Piece.extent (pieces t ss addresses) := by
  cases ss with
  | nil => exact hss.elim
  | cons s ss =>
    cases addresses with
    | nil => cases hlength
    | cons a addresses =>
      -- the piece of the origin has no bytes, and the others stay
      have hnil : ∀ address, ∀ q ∈ [s.piece t address], q.code = [] := by
        intro address
        rw [piece, encode_of_isFixedOrigin hss]
        simp
      have hcons : ∀ address, pieces t (s :: ss) (address :: addresses) =
          [s.piece t address] ++ pieces t ss addresses := fun _ => rfl
      rw [List.tail_cons, hcons, hcons]
      refine ⟨fun x => ?_, ?_⟩
      · rw [Piece.byteIn?_append_of_nil (hnil _), Piece.byteIn?_append_of_nil (hnil _)]
      · rw [Piece.extent_append_of_nil (hnil _), Piece.extent_append_of_nil (hnil _)]

end Statement

/-- **The second pass over two sections that are apart** gives the same bytes in either order, from
wherever they are entered, under tables that give names the same words. -/
lemma Emission.exists_run_swap {t t' : SymbolTable} (ht : t.SameWords t')
    {first second : List Statement} (hfirst : IsSection first) (hsecond : IsSection second)
    {as bs : List Nat} (has : first.length = as.length) (hbs : second.length = bs.length)
    (hapart : Piece.Apart (Statement.pieces t first as) (Statement.pieces t second bs))
    {fill : UInt8} {m m' : Emission} (hm : Image.Holds fill [] m.image)
    (h : m.run t ((first ++ second).zip (as ++ bs)) = (m', none)) (here here' : Nat) :
    ∃ m'', m.run t' ((second ++ first).zip (here :: bs.tail ++ here' :: as.tail)) = (m'', none) ∧
      ∀ least, m''.image.toBytes least = m'.image.toBytes least := by
  have has' := hfirst.length_enter has here'
  have hbs' := hsecond.length_enter hbs here
  have hfits : ∀ p ∈ (second ++ first).zip (here :: bs.tail ++ here' :: as.tail),
      p.1.Fits t' p.2 := by
    have hall := run_ok_iff.1 ⟨m', h⟩
    rw [List.zip_append has, List.forall_mem_append] at hall
    rw [List.zip_append hbs', List.forall_mem_append]
    simp only [← ht.fits_iff]
    exact ⟨Statement.fits_enter hsecond here hall.2, Statement.fits_enter hfirst here' hall.1⟩
  obtain ⟨m'', hm''⟩ := (run_ok_iff (m := m)).2 hfits
  have hholds := holds_of_run h hm
  have hholds' := holds_of_run hm'' hm
  have hpieces : ((first ++ second).zip (as ++ bs)).map (fun p => p.1.piece t p.2) =
      Statement.pieces t first as ++ Statement.pieces t second bs := Statement.pieces_append t has
  have hpieces' : ((second ++ first).zip (here :: bs.tail ++ here' :: as.tail)).map
      (fun p => p.1.piece t' p.2) = Statement.pieces t second (here :: bs.tail) ++
        Statement.pieces t first (here' :: as.tail) := by
    simp only [← ht.piece_eq]
    exact Statement.pieces_append t hbs'
  rw [List.nil_append, hpieces] at hholds
  rw [List.nil_append, hpieces'] at hholds'
  obtain ⟨hbytes, hextent⟩ := Statement.pieces_enter (t := t) hfirst has here'
  obtain ⟨hbytes', hextent'⟩ := Statement.pieces_enter (t := t) hsecond hbs here
  refine ⟨m'', hm'', hholds'.toBytes_congr hholds (fun x => ?_) ?_⟩
  · rw [Piece.byteIn?_append_comm hapart, Piece.byteIn?_append, Piece.byteIn?_append, hbytes,
      hbytes']
  · rw [Piece.extent_append, Piece.extent_append, hextent, hextent', Nat.max_comm]

/-! ## Both passes -/

namespace Workbench

open Layout (boundNames Route)
open SymbolTable (Tracks)

/-- **Two sections in the other order are assembled alike.** Let two sections be assembled, one
after the other, where no origin or equate of the second names what the first binds, and where the
two write to no address in common. In the other order they are assembled as well, to the same image,
and every name is bound to the same word or to none as before. That no origin or equate of the first
names what the second binds need not be asked for: such a name would not be bound yet.

**Proof sketch.** The first pass takes a route through both sections, and there is one through them
in the other order that differs only in the addresses of the two origins (`Layout.Route.swap`). So
the first pass succeeds and finds the same words, and the second pass writes the same pieces. Since
those of the two sections are apart, they leave the same image (`Piece.byteIn?_append_comm`). -/
theorem generate_swap (w : Workbench) {first second : List Statement} (hfirst : IsSection first)
    (hsecond : IsSection second)
    (hindependent : ∀ s ∈ second, ∀ e ∈ s.action.eager?, ∀ name ∈ e.labels,
      name ∉ boundNames first)
    {code : List UInt8} (h : (w.generate (first ++ second)).outcome = .ok code)
    (hapart :
      let ps := (w.generate (first ++ second)).workbench.pieces (first ++ second)
      Piece.Apart (ps.take first.length) (ps.drop first.length)) :
    (w.generate (second ++ first)).outcome = .ok code ∧
      ∀ name, (w.generate (second ++ first)).workbench.symbols.lookup name =
        (w.generate (first ++ second)).workbench.symbols.lookup name := by
  have hblank := blank?_of_generate h
  obtain ⟨l, m, hl, hm, rfl⟩ := (generate_ok_iff_of_blank hblank).1 h
  obtain ⟨haddresses, hsymbols⟩ := workbench_generate_of_blank hblank hl
  have hr : l.symbols.InRange := Layout.inRange_of_run hl SymbolTable.inRange_empty
  have htracks : Tracks l.symbols.assignment l.symbols.names l.symbols :=
    ⟨hr, fun _ => Iff.rfl, fun _ _ => rfl⟩
  -- the first pass, in both orders
  obtain ⟨addresses, hroute, hlist⟩ := Route.of_run hl htracks
  obtain ⟨as, bs, middle, rfl, hlength, hlength', hswap⟩ :=
    hroute.swap hfirst hsecond hindependent
  obtain ⟨l', hl', htracks', hlist'⟩ := hswap.run (l := {}) (Tracks.empty _) rfl
  have hsame : l.symbols.SameWords l'.symbols := by
    refine htracks'.sameWords hr fun name => ?_
    have hnames : l.symbols.names = boundNames (first ++ second) := Layout.names_of_run hl
    rw [hnames, List.nil_append, Layout.boundNames_append, Layout.boundNames_append,
      List.mem_append, List.mem_append, or_comm]
  obtain ⟨-, hsymbols'⟩ := workbench_generate_of_blank hblank hl'
  -- the second pass, in both orders
  have hpieces : (w.generate (first ++ second)).workbench.pieces (first ++ second) =
      Statement.pieces l.symbols first as ++ Statement.pieces l.symbols second bs := by
    rw [pieces, haddresses, hsymbols, hlist]
    exact Statement.pieces_append _ hlength
  have hwidth := Statement.length_pieces (t := l.symbols) hlength
  simp only [hpieces, List.take_left' hwidth, List.drop_left' hwidth] at hapart
  rw [placed, hlist] at hm
  obtain ⟨m', hm', hbytes⟩ := Emission.exists_run_swap hsame hfirst hsecond hlength hlength' hapart
    (Image.Holds.blank _) hm 0 l.cursor
  refine ⟨(generate_ok_iff_of_blank hblank).2 ⟨l', m', hl', ?_, (hbytes _).symm⟩, fun name => ?_⟩
  · rw [placed, hlist']
    exact hm'
  · rw [hsymbols, hsymbols', hsame.lookup_eq]

/-- A section that refers ahead to the other one. -/
def mainSection : List Statement :=
  (Statement.readSource "ORG 8\nMAIN DW LOAD\nSIZE EQU $-MAIN\n" "sections.asm"
    false).toOption.getD []

/-- A section that refers back to the other one, and in an equate to its own name. -/
def loadSection : List Statement :=
  (Statement.readSource "ORG 4\nLOAD DB SIZE\nLAST EQU $-LOAD\n" "sections.asm"
    false).toOption.getD []

/-- The two sections in either order. -/
theorem generate_swap_mainSection :
    IsSection mainSection ∧ IsSection loadSection ∧
      (padding.generate (loadSection ++ mainSection)).outcome =
        .ok [0xAA, 0xAA, 0xAA, 0xAA, 0x02, 0xAA, 0xAA, 0xAA, 0x04, 0x00] ∧
      (padding.generate (loadSection ++ mainSection)).workbench.symbols.lookup "SIZE" = some 2 := by
  have hsample : IsSection mainSection ∧ IsSection loadSection ∧
      (∀ s ∈ loadSection, ∀ e ∈ s.action.eager?, ∀ name ∈ e.labels,
        name ∉ boundNames mainSection) ∧
      (padding.generate (mainSection ++ loadSection)).outcome =
        .ok [0xAA, 0xAA, 0xAA, 0xAA, 0x02, 0xAA, 0xAA, 0xAA, 0x04, 0x00] ∧
      (padding.generate (mainSection ++ loadSection)).workbench.symbols.lookup "SIZE" = some 2 ∧
      let after := (padding.generate (mainSection ++ loadSection)).workbench
      let ps := after.pieces (mainSection ++ loadSection)
      ∀ p ∈ ps.take mainSection.length, ∀ q ∈ ps.drop mainSection.length,
        p.address + p.code.length ≤ q.address ∨ q.address + q.code.length ≤ p.address := by
    decide +kernel
  obtain ⟨hmain, hload, hindependent, hcode, hsize, hends⟩ := hsample
  obtain ⟨houtcome, hlookup⟩ :=
    generate_swap padding hmain hload hindependent hcode (Piece.apart_of_ends hends)
  exact ⟨hmain, hload, houtcome, (hlookup "SIZE").trans hsize⟩

end Workbench

end Asm8080
