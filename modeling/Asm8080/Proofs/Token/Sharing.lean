import Mathlib.Data.List.TakeDrop
import Asm8080.Proofs.Token.Positions
import Asm8080.Token.Reader

/-!
# Any use of a tokenizer

The readers of a tokenizer share one position, which a reader moves to the start of the source with
its first token. Readers may be made and advanced in any order. The shared position is then always
one in the source, with its line and its column; every token stands where its lexeme begins, and
every failure points at a character. A reader that no other one interrupts is given what it would be
given if it were alone, whatever was done before it began.

## Main definitions

* `Asm8080.ReaderCall` — what is asked of a tokenizer.
* `Asm8080.SharedTokenizer` — a tokenizer and its readers.
* `Asm8080.SharedTokenizer.run`, `Asm8080.SharedTokenizer.answers` — calls one after another.
* `Asm8080.SharedTokenizer.Exact` — what holds after any calls.

## Main results

* `Asm8080.Tokenizer.InSource.step` — one step keeps the shared position in the source.
* `Asm8080.Tokenizer.remaining_step` — one step takes the first of what is left for a reader.
* `Asm8080.SharedTokenizer.inSource_run` — the shared position stays in the source.
* `Asm8080.SharedTokenizer.answers_alone` — what an uninterrupted reader is given.
* `Asm8080.SharedTokenizer.run_exact` — positions are exact under any use.
-/

set_option autoImplicit false

namespace Asm8080

/-! ## Calls -/

/-- What is asked of a tokenizer. -/
inductive ReaderCall where
  /-- To make one more reader. -/
  | create
  /-- To draw the next token for the reader with the given number. -/
  | advance (i : Nat)
deriving DecidableEq

/-- A tokenizer and its readers, which are numbered in the order in which they were made. -/
structure SharedTokenizer where
  tokenizer : Tokenizer
  readers : List Reader

namespace SharedTokenizer

/-- A tokenizer at the start of its source, without readers. -/
def ofSource (source file : String) : SharedTokenizer := ⟨Tokenizer.ofSource source file, []⟩

/-- What a reader is given when it is advanced, `none` if it is finished. -/
def answer? (s : SharedTokenizer) (i : Nat) : Option (Except Failure Token) :=
  s.readers[i]?.bind fun r => (s.tokenizer.step r).2.2

/-- The tokenizer and its readers after a call. -/
def serve (s : SharedTokenizer) : ReaderCall → SharedTokenizer
  | .create => { s with readers := s.readers ++ [.fresh] }
  | .advance i =>
    match s.readers[i]? with
    | none => s
    | some r => ⟨(s.tokenizer.step r).1, s.readers.set i (s.tokenizer.step r).2.1⟩

/-- The tokenizer and its readers after calls one after another. -/
def run (s : SharedTokenizer) (calls : List ReaderCall) : SharedTokenizer := calls.foldl serve s

/-- What is given to the readers that are advanced by calls one after another. -/
def answers (s : SharedTokenizer) : List ReaderCall → List (Option (Except Failure Token))
  | [] => []
  | .create :: calls => (s.serve .create).answers calls
  | .advance i :: calls => s.answer? i :: (s.serve (.advance i)).answers calls

end SharedTokenizer

/-- The tokens among the answers to readers. -/
def tokensOf (answers : List (Option (Except Failure Token))) : List Token :=
  answers.filterMap fun answer => answer.bind Except.toOption

/-- What reading to the end gives, one after another. -/
def Reading.items (reading : Reading) : List (Except Failure Token) :=
  reading.tokens.map .ok ++ reading.failure.toList.map .error

/-- **Positions are exact** after some calls. The shared position is in the source and has the line
and the column of the place. A token that is given to a reader next stands where its lexeme begins,
which is the next one from the position where the reader goes on; a failure points at a character.
A reader that has not begun and is not interrupted by others is given what the only reader of a
fresh tokenizer is given: all tokens of the source up to the failure if there is one, each after the
one before. To draw all tokens that are left for a reader is to advance it to the end. -/
structure SharedTokenizer.Exact (source file : String) (s : SharedTokenizer) : Prop where
  position : ∃ pos start, s.tokenizer.cursor.IsAt source.toList pos start
  token : ∀ i t, s.answer? i = some (.ok t) → ∃ r pos, s.readers[i]? = some r ∧
    t.DrawnAt source.toList file (s.tokenizer.cursorFor r)
      (s.serve (.advance i)).tokenizer.cursor pos
  failure : ∀ i f, s.answer? i = some (.error f) → f.PointsInto source.toList file
  alone : ∀ i calls, s.readers[i]? = some .fresh →
    (∀ call ∈ calls, call = .create ∨ call = .advance i) →
    s.answers calls = (ofSource source file).answers
        (.create :: List.replicate (calls.count (.advance i)) (.advance 0)) ∧
      s.answers calls = (((Cursor.start source.toList).readAll file).items.map some).takeD
        (calls.count (.advance i)) none ∧
      (tokensOf (s.answers calls)).Pairwise Token.Before
  drained : ∀ i r, s.readers[i]? = some r → ∃ items : List (Except Failure Token),
    s.answers (List.replicate items.length (.advance i)) = items.map some ∧
      s.tokenizer.drain r =
        ((s.run (List.replicate items.length (.advance i))).tokenizer, items.mapM id) ∧
      (s.run (List.replicate items.length (.advance i))).readers[i]? = some .finished

/-! ## One step -/

/-- The state of a reader after it has been given something. -/
def Reader.after : Except Failure Token → Reader
  | .ok t => if t.kind = .eof then .finished else .reading
  | .error _ => .finished

namespace Tokenizer

variable {source : List Char} {file : String} {t : Tokenizer} {r : Reader}

/-- A step of a reader that is not finished draws a token from where the reader goes on. -/
lemma step_of_next {c : Cursor} {answer : Except Failure Token} (hr : r ≠ .finished)
    (h : (t.cursorFor r).next t.file = (c, answer)) :
    t.step r = ({ t with cursor := c }, Reader.after answer, some answer) := by
  cases r with
  | finished => exact absurd rfl hr
  | _ => cases answer <;> simp only [step, h, Reader.after]

/-- A tokenizer of the text `source` whose position is in the text. -/
structure InSource (source : List Char) (file : String) (t : Tokenizer) : Prop where
  source_eq : t.source = source
  file_eq : t.file = file
  cursor_eq : ∃ before rest, source = before ++ rest ∧ t.cursor = .after before rest

/-- A reader goes on from a position in the text. -/
lemma InSource.cursorFor_eq (h : t.InSource source file) (r : Reader) :
    ∃ before rest, source = before ++ rest ∧ t.cursorFor r = .after before rest := by
  cases r with
  | fresh => exact ⟨[], source, rfl, congrArg Cursor.start h.source_eq⟩
  | _ => exact h.cursor_eq

/-- **One step keeps the position in the text.** -/
lemma InSource.step (h : t.InSource source file) (r : Reader) :
    (t.step r).1.InSource source file := by
  by_cases hr : r = .finished
  · rw [hr]
    exact h
  · obtain ⟨before, rest, hsource, hcursor⟩ := h.cursorFor_eq r
    obtain ⟨before', rest', hnext, hafter⟩ := Cursor.exists_next_eq_after t.file before rest
    rw [← hcursor] at hafter
    rw [step_of_next hr rfl]
    exact ⟨h.source_eq, h.file_eq, before', rest', hsource.trans hnext, hafter⟩

/-- What a step gives is drawn from where the reader goes on. -/
lemma next_of_step {answer : Except Failure Token} (h : (t.step r).2.2 = some answer) :
    (t.cursorFor r).next t.file = ((t.step r).1.cursor, answer) := by
  by_cases hr : r = .finished
  · rw [hr] at h
    cases h
  · rw [step_of_next hr rfl] at h ⊢
    exact Prod.ext rfl (Option.some.inj h)

end Tokenizer

/-! ## Reading to the end, step by step -/

namespace Cursor

/-- Tokens that have been read before come first. -/
lemma readAllFrom_eq_append (file : String) (done : List Token) (c : Cursor) :
    readAllFrom file done c =
      ⟨done.reverse ++ (c.readAll file).tokens, (c.readAll file).failure,
        (c.readAll file).cursor⟩ := by
  induction hlength : c.rest.length using Nat.strongRecOn generalizing c done with
  | _ n ih =>
    rw [readAll, readAllFrom_eq, readAllFrom_eq file []]
    cases hrest : c.skipIgnored.rest with
    | nil => simp
    | cons ch cs =>
      simp only
      cases hread : Lexeme.read ch cs with
      | error m => simp
      | ok l =>
        have hpast := length_rest_past c.skipIgnored l (by simp [hrest])
        have hignored := length_rest_skipIgnored c
        have hshorter : (c.skipIgnored.past l).rest.length < n := by omega
        simp only [ih _ hshorter _ _ rfl, List.reverse_cons, List.append_assoc, List.reverse_nil,
          List.nil_append]

/-- What reading to the end gives, from the first token that is drawn on. -/
inductive ReadsOn (file : String) : Cursor × Except Failure Token → Reading → Prop
  | finish {c : Cursor} {t : Token} (ht : t.kind = .eof) : ReadsOn file (c, .ok t) ⟨[t], none, c⟩
  | token {c : Cursor} {t : Token} (ht : t.kind ≠ .eof) :
      ReadsOn file (c, .ok t)
        ⟨t :: (c.readAll file).tokens, (c.readAll file).failure, (c.readAll file).cursor⟩
  | fault {c : Cursor} {f : Failure} : ReadsOn file (c, .error f) ⟨[], some f, c⟩

/-- **Reading to the end is drawing one token after another.** -/
lemma readsOn (file : String) (c : Cursor) : ReadsOn file (c.next file) (c.readAll file) := by
  rw [readAll, readAllFrom_eq, next]
  cases hrest : c.skipIgnored.rest with
  | nil => exact .finish rfl
  | cons ch cs =>
    cases hread : Lexeme.read ch cs with
    | error m =>
      simp only [hread]
      exact .fault
    | ok l =>
      simp only [hread, readAllFrom_eq_append]
      exact .token (Lexeme.isLexeme_of_read hread).ne_eof

end Cursor

namespace Tokenizer

variable {t : Tokenizer} {r : Reader}

/-- What is left for a reader if no other one comes in between. -/
def remaining (t : Tokenizer) (r : Reader) : List (Except Failure Token) :=
  if r = .finished then [] else ((t.cursorFor r).readAll t.file).items

/-- Nothing is left for a reader that is finished. -/
lemma remaining_finished (t : Tokenizer) : t.remaining .finished = [] := if_pos rfl

/-- **One step takes the first of what is left for a reader.** -/
lemma remaining_step (t : Tokenizer) (r : Reader) :
    (t.step r).2.2 = (t.remaining r).head? ∧
      (t.step r).1.remaining (t.step r).2.1 = (t.remaining r).tail := by
  by_cases hr : r = .finished
  · subst hr
    exact ⟨rfl, rfl⟩
  · have hreads := Cursor.readsOn t.file (t.cursorFor r)
    obtain ⟨⟨c, answer⟩, hnext⟩ : ∃ drawn, (t.cursorFor r).next t.file = drawn := ⟨_, rfl⟩
    rw [step_of_next hr hnext, remaining, if_neg hr]
    rw [hnext] at hreads
    generalize (t.cursorFor r).readAll t.file = reading at hreads ⊢
    cases hreads with
    | finish ht => simp [Reading.items, Reader.after, ht, remaining]
    | token ht => simp [Reading.items, Reader.after, ht, remaining, cursorFor]
    | fault => simp [Reading.items, Reader.after, remaining]

/-- Something is left for a reader that is not finished. -/
lemma remaining_ne_nil (hr : r ≠ .finished) : t.remaining r ≠ [] := by
  intro hnil
  have hhead := (t.remaining_step r).1
  rw [step_of_next hr rfl, hnil] at hhead
  cases hhead

/-- To draw all tokens that are left is to go through what is left up to a failure. -/
lemma outcome_drain (t : Tokenizer) (r : Reader) : (t.drain r).2 = (t.remaining r).mapM id := by
  have hok : ∀ ts : List Token,
      (ts.map (Except.ok : Token → Except Failure Token)).mapM id = .ok ts := by
    intro ts
    induction ts with
    | nil => rfl
    | cons t ts ih => rw [List.map_cons, List.mapM_cons, ih]; rfl
  have hitems : ∀ reading : Reading, reading.items.mapM id =
      reading.failure.elim (.ok reading.tokens) .error := by
    intro reading
    rw [Reading.items, List.mapM_append, hok]
    cases reading.failure with
    | none => exact congrArg Except.ok (List.append_nil _)
    | some f => rfl
  cases r with
  | finished => rfl
  | _ =>
    rw [remaining, if_neg (by simp), hitems]
    simp only [drain]
    cases ((t.cursorFor _).readAll t.file).failure <;> rfl

/-- To draw all tokens that are left is to make one step and to draw those that are left then. -/
lemma drain_step (hr : r ≠ .finished) :
    (t.drain r).1 = ((t.step r).1.drain (t.step r).2.1).1 := by
  have hreads := Cursor.readsOn t.file (t.cursorFor r)
  obtain ⟨⟨c, answer⟩, hnext⟩ : ∃ drawn, (t.cursorFor r).next t.file = drawn := ⟨_, rfl⟩
  have hdrain : (t.drain r).1 = { t with cursor := ((t.cursorFor r).readAll t.file).cursor } := by
    cases r with
    | finished => exact absurd rfl hr
    | _ => rfl
  rw [step_of_next hr hnext, hdrain]
  rw [hnext] at hreads
  generalize (t.cursorFor r).readAll t.file = reading at hreads ⊢
  cases hreads with
  | finish ht => simp [Reader.after, ht, drain]
  | token ht => simp [Reader.after, ht, drain, cursorFor]
  | fault => simp [Reader.after, drain]

end Tokenizer

/-- The tokens among the first of some items. -/
lemma tokensOf_takeD (items : List (Except Failure Token)) (n : Nat) :
    tokensOf ((items.map some).takeD n none) = (items.take n).filterMap Except.toOption := by
  induction n generalizing items with
  | zero => rfl
  | succ n ih =>
    have ih := ih items.tail
    rw [List.map_tail, tokensOf] at ih
    rw [List.takeD_succ, tokensOf, List.filterMap_cons, ih]
    cases items with
    | nil => simp
    | cons item items => cases item <;> rfl

/-- The tokens among what reading to the end gives. -/
lemma Reading.filterMap_items (reading : Reading) :
    reading.items.filterMap Except.toOption = reading.tokens := by
  rw [items, List.filterMap_append, List.filterMap_map]
  cases reading.failure <;> simp [Except.toOption, Function.comp_def]

/-! ## Any calls -/

namespace SharedTokenizer

variable {source : List Char} {file : String} {s : SharedTokenizer} {i : Nat} {r : Reader}

/-- One call keeps the shared position in the text. -/
lemma inSource_serve (h : s.tokenizer.InSource source file) (call : ReaderCall) :
    (s.serve call).tokenizer.InSource source file := by
  cases call with
  | create => exact h
  | advance i =>
    cases hr : s.readers[i]? with
    | none =>
      simp only [serve, hr]
      exact h
    | some r =>
      simp only [serve, hr]
      exact h.step r

/-- **The shared position stays in the text** under any calls. -/
lemma inSource_run (source file : String) (calls : List ReaderCall) :
    ((ofSource source file).run calls).tokenizer.InSource source.toList file := by
  have hrun : ∀ s : SharedTokenizer, s.tokenizer.InSource source.toList file →
      (s.run calls).tokenizer.InSource source.toList file := by
    induction calls with
    | nil => exact fun s hs => hs
    | cons call calls ih => exact fun s hs => ih _ (inSource_serve hs call)
  exact hrun _ ⟨rfl, rfl, [], source.toList, rfl, rfl⟩

/-- A reader after one more reader was made. -/
lemma getElem?_serve_create (h : s.readers[i]? = some r) :
    (s.serve .create).readers[i]? = some r := by
  have hlt := (List.getElem?_eq_some_iff.1 h).1
  rw [serve, List.getElem?_append_left hlt, h]

/-- A reader is advanced by one step. -/
lemma serve_advance (h : s.readers[i]? = some r) :
    (s.serve (.advance i)).tokenizer = (s.tokenizer.step r).1 ∧
      (s.serve (.advance i)).readers[i]? = some (s.tokenizer.step r).2.1 := by
  have hlt := (List.getElem?_eq_some_iff.1 h).1
  rw [serve, h]
  exact ⟨rfl, List.getElem?_set_self hlt⟩

/-- What a reader is given is the first of what is left for it. -/
lemma answer?_eq (h : s.readers[i]? = some r) : s.answer? i = (s.tokenizer.remaining r).head? := by
  rw [answer?, h]
  exact (s.tokenizer.remaining_step r).1

/-- What is left for a reader that was advanced. -/
lemma remaining_serve (h : s.readers[i]? = some r) :
    (s.serve (.advance i)).tokenizer.remaining (s.tokenizer.step r).2.1 =
      (s.tokenizer.remaining r).tail := by
  rw [(serve_advance h).1]
  exact (s.tokenizer.remaining_step r).2

/-- **A reader that is not interrupted** is given what is left for it, one after another. -/
lemma answers_alone (h : s.readers[i]? = some r) {calls : List ReaderCall}
    (hcalls : ∀ call ∈ calls, call = .create ∨ call = .advance i) :
    s.answers calls =
      ((s.tokenizer.remaining r).map some).takeD (calls.count (.advance i)) none := by
  induction calls generalizing s r with
  | nil => rfl
  | cons call calls ih =>
    obtain ⟨hcall, hlater⟩ := List.forall_mem_cons.1 hcalls
    rcases hcall with rfl | rfl
    · rw [answers, ih (getElem?_serve_create h) hlater, List.count_cons_of_ne (by simp)]
      rfl
    · rw [answers, ih (serve_advance h).2 hlater, List.count_cons_self, List.takeD_succ,
        answer?_eq h, remaining_serve h, List.map_tail]
      cases s.tokenizer.remaining r <;> rfl

/-- A reader that is advanced until nothing is left for it leaves the position where drawing all
tokens at once does. -/
lemma run_drain (h : s.readers[i]? = some r) :
    (s.run (List.replicate (s.tokenizer.remaining r).length (.advance i))).tokenizer =
        (s.tokenizer.drain r).1 ∧
      (s.run (List.replicate (s.tokenizer.remaining r).length (.advance i))).readers[i]? =
        some .finished := by
  induction hn : (s.tokenizer.remaining r).length generalizing s r with
  | zero =>
    have hr : r = .finished := by
      by_contra hr
      exact Tokenizer.remaining_ne_nil hr (List.length_eq_zero_iff.1 hn)
    subst hr
    exact ⟨rfl, h⟩
  | succ n ih =>
    have hr : r ≠ .finished := by
      rintro rfl
      rw [Tokenizer.remaining_finished] at hn
      cases hn
    obtain ⟨htokenizer, hreader⟩ := serve_advance h
    have hlength : ((s.serve (.advance i)).tokenizer.remaining
        (s.tokenizer.step r).2.1).length = n := by
      rw [remaining_serve h, List.length_tail, hn, Nat.add_sub_cancel]
    rw [Tokenizer.drain_step hr, ← htokenizer]
    exact ih hreader hlength

/-! ## Exactness -/

/-- A token that is given to a reader stands where its lexeme begins. -/
lemma exists_drawnAt_of_answer? (hs : s.tokenizer.InSource source file) {t : Token}
    (h : s.answer? i = some (.ok t)) :
    ∃ r pos, s.readers[i]? = some r ∧ t.DrawnAt source file (s.tokenizer.cursorFor r)
      (s.serve (.advance i)).tokenizer.cursor pos := by
  obtain ⟨r, hr, hstep⟩ := Option.bind_eq_some_iff.1 h
  obtain ⟨before, rest, rfl, hcursor⟩ := hs.cursorFor_eq r
  have hnext := Tokenizer.next_of_step hstep
  rw [hcursor, hs.file_eq] at hnext
  obtain ⟨pos, hpos⟩ := Cursor.exists_drawnAt hnext
  refine ⟨r, pos, hr, ?_⟩
  rwa [hcursor, (serve_advance hr).1]

/-- A failure that is given to a reader points at a character. -/
lemma pointsInto_of_answer? (hs : s.tokenizer.InSource source file) {f : Failure}
    (h : s.answer? i = some (.error f)) : f.PointsInto source file := by
  obtain ⟨r, -, hstep⟩ := Option.bind_eq_some_iff.1 h
  obtain ⟨before, rest, rfl, hcursor⟩ := hs.cursorFor_eq r
  have hnext := Tokenizer.next_of_step hstep
  rw [hcursor, hs.file_eq] at hnext
  exact Cursor.pointsInto_of_next hnext

/-- A reader that begins and is not interrupted is given what the source holds, wherever the shared
position is. -/
lemma answers_fresh (hs : s.tokenizer.InSource source file) (hr : s.readers[i]? = some .fresh)
    {calls : List ReaderCall} (hcalls : ∀ call ∈ calls, call = .create ∨ call = .advance i) :
    s.answers calls = (((Cursor.start source).readAll file).items.map some).takeD
      (calls.count (.advance i)) none := by
  have hremaining : s.tokenizer.remaining .fresh = ((Cursor.start source).readAll file).items := by
    rw [Tokenizer.remaining, if_neg (by simp), Tokenizer.cursorFor, hs.source_eq, hs.file_eq]
  rw [answers_alone hr hcalls, hremaining]

/-- The first tokens among what the source holds come one after another. -/
lemma pairwise_tokensOf (source : List Char) (file : String) (n : Nat) :
    (tokensOf ((((Cursor.start source).readAll file).items.map some).takeD n none)).Pairwise
      Token.Before := by
  have hitems := Reading.filterMap_items ((Cursor.start source).readAll file)
  have hpairwise := Cursor.pairwise_readAll source file
  rw [← hitems] at hpairwise
  rw [tokensOf_takeD]
  exact hpairwise.sublist ((List.take_sublist n _).filterMap _)

/-- To draw all tokens that are left for a reader is to advance it to the end. -/
lemma exists_drained (h : s.readers[i]? = some r) :
    ∃ items : List (Except Failure Token),
      s.answers (List.replicate items.length (.advance i)) = items.map some ∧
        s.tokenizer.drain r =
          ((s.run (List.replicate items.length (.advance i))).tokenizer, items.mapM id) ∧
        (s.run (List.replicate items.length (.advance i))).readers[i]? = some .finished := by
  obtain ⟨htokenizer, hfinished⟩ := run_drain h
  refine ⟨s.tokenizer.remaining r, ?_, ?_, hfinished⟩
  · rw [answers_alone h fun call hcall => .inr (List.eq_of_mem_replicate hcall),
      List.count_replicate_self, List.takeD_eq_take _ (by rw [List.length_map]),
      List.take_of_length_le (by rw [List.length_map])]
  · rw [htokenizer, ← Tokenizer.outcome_drain]

/-- **Positions are exact under any use of a tokenizer.** Readers of one source are made and
advanced in any order. The shared position is then in the source, with its line and column. Every
token is at the first character of its lexeme, the end mark at the end of the source. Every failure
is at a character of the line that is shown for it, but for numbers with too many digits. A reader
that no other one interrupts is given what the only reader of a fresh tokenizer is given, whatever
was done before, and its tokens come one after another.

**Proof sketch.** A step goes from one position of the source to another, whether a token is drawn
or a lexeme is at fault (`Cursor.exists_draws`), so that any calls leave the shared position in the
source (`inSource_run`). What a step gives is then read off the position where the reader goes on. A
reader that begins goes on from the start of the source, and each of its steps takes the first of
what is left for it (`Tokenizer.remaining_step`) as long as no other reader moves the position. -/
theorem run_exact (source file : String) (calls : List ReaderCall) :
    ((ofSource source file).run calls).Exact source file := by
  have hs := inSource_run source file calls
  generalize (ofSource source file).run calls = s at hs
  refine ⟨?_, fun i t h => exists_drawnAt_of_answer? hs h, fun i f h => pointsInto_of_answer? hs h,
    ?_, fun i r h => exists_drained h⟩
  · obtain ⟨before, rest, hsource, hcursor⟩ := hs.cursor_eq
    rw [hsource, hcursor]
    exact ⟨_, _, Cursor.isAt_after before rest⟩
  · intro i calls hr hcalls
    have hanswers := answers_fresh hs hr hcalls
    -- the only reader of a fresh tokenizer is not interrupted either
    have honly : ((ofSource source file).run [.create]).readers[0]? = some .fresh := rfl
    have hfresh := answers_fresh (inSource_run source file [.create]) honly
      fun call (hcall : call ∈ List.replicate (calls.count (.advance i)) (.advance 0)) =>
        .inr (List.eq_of_mem_replicate hcall)
    rw [List.count_replicate_self, ← hanswers] at hfresh
    refine ⟨hfresh.symm, hanswers, ?_⟩
    rw [hanswers]
    exact pairwise_tokensOf source.toList file _

/-- A source with a number at fault on its second line. -/
def faultyText : String := "HLT ; stop\n 19O"

/-- Two readers that move the shared position for each other, up to the fault, and a third one. -/
def interleavedCalls : List ReaderCall :=
  [.create, .create, .advance 0, .advance 1, .advance 1, .advance 0, .create, .advance 1]

/-- The third reader is advanced twice, and one more reader is made in between. -/
def thirdCalls : List ReaderCall := [.advance 2, .create, .advance 2]

/-- The second reader begins at the start of the source again, the first one goes on after it and
comes to the fault, and the second one then is at the end. The third reader is given the tokens from
the start on. -/
theorem exact_interleavedCalls :
    ((ofSource faultyText "f.asm").answers interleavedCalls).map
        (Option.map fun answer => answer.toOption.map fun t => (t.line, t.column)) =
      [some (some (1, 1)), some (some (1, 1)), some (some (1, 11)), some none,
        some (some (2, 5))] ∧
      ((ofSource faultyText "f.asm").run interleavedCalls).readers[2]? = some .fresh ∧
      (∀ call ∈ thirdCalls, call = .create ∨ call = .advance 2) ∧
      ((ofSource faultyText "f.asm").run interleavedCalls).Exact faultyText "f.asm" ∧
      (tokensOf (((ofSource faultyText "f.asm").run interleavedCalls).answers
        thirdCalls)).Pairwise Token.Before := by
  have hfresh : ((ofSource faultyText "f.asm").run interleavedCalls).readers[2]? =
      some .fresh := by decide +kernel
  have halone : ∀ call ∈ thirdCalls, call = .create ∨ call = .advance 2 := by decide
  have hexact := run_exact faultyText "f.asm" interleavedCalls
  exact ⟨by decide +kernel, hfresh, halone, hexact, (hexact.alone 2 _ hfresh halone).2.2⟩

end SharedTokenizer

end Asm8080
