import Asm8080.Proofs.Expr.Grammar

/-!
# The token that is blamed

When no expression can be read, a token is blamed, and reading has come as far as that token. The
tokens before it are the beginning of some expression; with it they are the beginning of none. So
the first token that cannot be part of an expression is the one that is blamed, and nothing is
blamed that a longer list could make good.

Each rule stops in this way at the first token that does not fit. What comes before a part that is
read by another rule only moves the place where that rule stops.

## Main definitions

* `Asm8080.Expr.IsExpression`, `Asm8080.Expr.BeginsExpression` — tokens that form an expression, and
  tokens that more tokens complete to one.
* `Asm8080.Expr.Continues` — tokens begin with operators of a level and their right operands.
* `Asm8080.Expr.StopsAt` — reading stops at the first token that does not fit.

## Main results

* `Asm8080.Expr.Begins.unique` — a list of tokens begins with one expression of a stratum.
* `Asm8080.Expr.StopsAt.prepend` — what stands before a part only moves the place.
* `Asm8080.Expr.stopsAt_read` — reading an expression stops at the first token that does not fit.
* `Asm8080.Expr.readAt_blames_first_misfit` — the same from any position of a token list.
-/

set_option autoImplicit false

namespace Asm8080.Expr

variable {n : Nat} {keepCase : Bool}

/-! ## Expressions and their beginnings -/

/-- Tokens form an expression. -/
def IsExpression (keepCase : Bool) (ts : List Token) : Prop :=
  ∃ e, Derives keepCase (.binary .disjunction) ts e

/-- Tokens are the beginning of an expression: with more tokens they form one. -/
def BeginsExpression (keepCase : Bool) (ts : List Token) : Prop :=
  ∃ more, IsExpression keepCase (ts ++ more)

/-- Each stratum is read by a rule. -/
lemma exists_reads (keepCase : Bool) (stratum : Stratum) (n : Nat) :
    ∃ rule : Rule n, Rule.Reads keepCase stratum rule := by
  let ctx : Context := ⟨keepCase, endMark unnamedFile []⟩
  have hatom : Rule.Reads keepCase .atom (atomRule ctx fun ts (_ : ts.length < n) =>
      readShorter ctx ts) :=
    reads_atomRule fun ts _ e rest => readShorter_ok_iff ctx ts e rest
  have hproduct : Rule.Reads keepCase (.binary .product) _ := reads_binaryRule hatom
  have hsum : Rule.Reads keepCase (.binary .sum) _ := reads_binaryRule hproduct
  have hcomplement := reads_complementRule hsum
  have hconjunction : Rule.Reads keepCase (.binary .conjunction) _ := reads_binaryRule hcomplement
  cases stratum with
  | atom => exact ⟨_, hatom⟩
  | complement => exact ⟨_, hcomplement⟩
  | binary level =>
    cases level with
    | product => exact ⟨_, hproduct⟩
    | sum => exact ⟨_, hsum⟩
    | conjunction => exact ⟨_, hconjunction⟩
    | disjunction => exact ⟨_, reads_binaryRule hconjunction⟩

/-- **A list of tokens begins with one expression of a stratum** at most, since one rule reads it.
-/
lemma Begins.unique {stratum : Stratum} {ts rest rest' : List Token} {e e' : Expr}
    (h : Begins keepCase stratum ts e rest) (h' : Begins keepCase stratum ts e' rest') :
    e = e' ∧ rest = rest' := by
  obtain ⟨rule, hrule⟩ := exists_reads keepCase stratum ts.length
  obtain ⟨shorter, hread⟩ := (hrule ts (Nat.le_refl _) e rest).2 h
  obtain ⟨shorter', hread'⟩ := (hrule ts (Nat.le_refl _) e' rest').2 h'
  cases hread.symm.trans hread'
  exact ⟨rfl, rfl⟩

/-- An expression that is all there is begins the list of its tokens. -/
lemma Derives.begins {stratum : Stratum} {ts : List Token} {e : Expr}
    (h : Derives keepCase stratum ts e) : Begins keepCase stratum ts e [] :=
  begins_nil_iff.2 h

/-! ## Operators and right operands -/

/-- A list of tokens begins with operators of a level and their right operands, after which an
expression of the level ends. -/
def Continues (keepCase : Bool) (level : Level) (ts rest : List Token) : Prop :=
  ∃ steps : List Step, (∀ s ∈ steps, s.Follows keepCase level) ∧
    ts = steps.flatMap Step.span ++ rest ∧ Ends (.binary level) rest

/-- What ends an operand depends on the next token only. -/
lemma Ends.congr {stratum : Stratum} {ts us : List Token} (h : Ends stratum ts)
    (hhead : us.head? = ts.head?) : Ends stratum us := by
  rwa [Ends, hhead]

/-- An expression of a level is an operand and what continues it. -/
lemma begins_binary_iff {level : Level} {ts rest : List Token} :
    (∃ e, Begins keepCase (.binary level) ts e rest) ↔
      ∃ left after, Begins keepCase level.operand ts left after ∧
        Continues keepCase level after rest := by
  constructor
  · rintro ⟨_, used, rfl, hused, hrest⟩
    cases hused with
    | @chain _ first left steps hfirst hops hoperands =>
      have hsteps : ∀ s ∈ steps, s.Follows keepCase level := fun s hs => ⟨hops s hs, hoperands s hs⟩
      exact ⟨left, steps.flatMap Step.span ++ rest,
        ⟨first, List.append_assoc _ _ _, hfirst, ends_operand_of_steps hsteps hrest⟩,
        steps, hsteps, rfl, hrest⟩
  · rintro ⟨left, _, ⟨used, rfl, hused, -⟩, steps, hsteps, rfl, hrest⟩
    exact ⟨_, used ++ steps.flatMap Step.span, (List.append_assoc _ _ _).symm,
      .chain hused (fun s hs => (hsteps s hs).1) (fun s hs => (hsteps s hs).2), hrest⟩

/-- What begins with an operator of a level goes on with an operand of it. -/
lemma continues_cons_iff {level : Level} {t : Token} {op : BinaryOp} {ts rest : List Token}
    (hop : (t.kind, op) ∈ level.operators) :
    Continues keepCase level (t :: ts) rest ↔
      ∃ right after, Begins keepCase level.operand ts right after ∧
        Continues keepCase level after rest := by
  constructor
  · rintro ⟨steps, hsteps, hts, hrest⟩
    cases steps with
    | nil =>
      -- the list would end the expression, but an operator does not
      obtain rfl : t :: ts = rest := hts
      have hnone := (ends_binary_cons.1 hrest).1
      rw [Level.operator?_eq_some_iff.2 hop] at hnone
      cases hnone
    | cons s steps =>
      obtain ⟨hs, hsteps⟩ := List.forall_mem_cons.1 hsteps
      obtain ⟨rfl, rfl⟩ : t = s.token ∧ ts = s.tokens ++ (steps.flatMap Step.span ++ rest) := by
        simpa [Step.span] using hts
      exact ⟨s.operand, _, ⟨s.tokens, rfl, hs.2, ends_operand_of_steps hsteps hrest⟩,
        steps, hsteps, rfl, hrest⟩
  · rintro ⟨right, _, ⟨used, rfl, hused, -⟩, steps, hsteps, rfl, hrest⟩
    have hfirst : Step.Follows keepCase level ⟨t, op, used, right⟩ := ⟨hop, hused⟩
    exact ⟨⟨t, op, used, right⟩ :: steps, List.forall_mem_cons.2 ⟨hfirst, hsteps⟩,
      by simp [Step.span], hrest⟩

/-- What continues an expression of a level begins with a token that ends the operand before it. -/
lemma Continues.ends_operand {level : Level} {ts rest : List Token}
    (h : Continues keepCase level ts rest) : Ends level.operand ts := by
  obtain ⟨steps, hsteps, rfl, hrest⟩ := h
  exact ends_operand_of_steps hsteps hrest

/-- Nothing more is needed after an operand. -/
lemma continues_nil (level : Level) : Continues keepCase level [] [] :=
  ⟨[], by simp, rfl, by simp [Ends]⟩

/-- **An operand ends at one place**: what comes after it is the same however the list is divided,
as long as it begins with a token that ends the operand. -/
lemma Begins.rest_eq {stratum : Stratum} {used ts us rest : List Token} {e e' : Expr}
    (hused : Derives keepCase stratum used e) (hts : Ends stratum ts)
    (h : Begins keepCase stratum (used ++ us) e' rest) (hhead : us.head? = ts.head?) : rest = us :=
  (h.unique ⟨used, rfl, hused, hts.congr hhead⟩).2

/-! ## Where reading stops -/

/-- **Reading stops at the first token that does not fit.** The relation `P` says that a list of
tokens begins with what is to be read, and what is left after it. What was read before the place can
be completed. If a token stands at the place, it is the one that is blamed, and with it nothing
begins that is to be read. -/
def StopsAt (P : List Token → List Token → Prop) (ts : List Token) (stuck : Stuck) : Prop :=
  ∃ used, ts = used ++ stuck.rest ∧ (∃ more, P (used ++ more) []) ∧
    ∀ t after, stuck.rest = t :: after →
      stuck.token = t ∧ ∀ more rest, ¬P (used ++ t :: more) rest

/-- **What stands before a part only moves the place**: if the part can be completed, so can the
whole; and if the whole begins a list, so does the part. -/
lemma StopsAt.prepend {P Q : List Token → List Token → Prop} {ts : List Token} {stuck : Stuck}
    (h : StopsAt P ts stuck) (before : List Token)
    (hcomplete : ∀ us, P us [] → ∃ more, Q (before ++ (us ++ more)) [])
    (hpart : ∀ us rest, us.head? = ts.head? → Q (before ++ us) rest → ∃ rest', P us rest') :
    StopsAt Q (before ++ ts) stuck := by
  obtain ⟨used, rfl, ⟨more, hmore⟩, hblamed⟩ := h
  refine ⟨before ++ used, (List.append_assoc _ _ _).symm, ?_, fun t after hrest => ?_⟩
  · obtain ⟨more', hwhole⟩ := hcomplete _ hmore
    exact ⟨more ++ more', by simpa using hwhole⟩
  · obtain ⟨htoken, hdead⟩ := hblamed t after hrest
    refine ⟨htoken, fun more rest hwhole => ?_⟩
    rw [List.append_assoc] at hwhole
    have hhead : (used ++ t :: more).head? = (used ++ stuck.rest).head? := by
      simp [hrest]
    obtain ⟨rest', hp⟩ := hpart _ rest hhead hwhole
    exact hdead more rest' hp

/-- A rule stops at the first token with which no expression of a stratum begins. -/
def Rule.Stops (keepCase : Bool) (stratum : Stratum) (rule : Rule n) : Prop :=
  ∀ (ts : List Token) (bound : ts.length ≤ n) (stuck : Stuck), rule ts bound = .error stuck →
    StopsAt (fun us rest => ∃ e, Begins keepCase stratum us e rest) ts stuck

section Level

variable {level : Level} {operand : Rule n} (hreads : Rule.Reads keepCase level.operand operand)
  (hstops : Rule.Stops keepCase level.operand operand)

include hreads hstops in
/-- After an operand, reading stops at the first token that does not fit in a right operand.

**Proof sketch.** Induction on the steps that are read. The operand of the first operator stops
there itself; or it is read, and ends at one place (`Begins.rest_eq`), from which the rest goes
on. -/
lemma stopsAt_readTail {left : Expr} {ts : List Token} {bound : ts.length ≤ n} {stuck : Stuck}
    (hts : Ends level.operand ts) (h : readTail level operand left ts bound = .error stuck) :
    StopsAt (Continues keepCase level) ts stuck := by
  fun_induction readTail level operand left ts bound with
  | case1 => cases h
  | case2 => cases h
  | case3 left t ts bound op hop stuck' hright =>
    cases h
    have hop := Level.operator?_eq_some_iff.1 hop
    refine (hstops _ _ _ hright).prepend [t] ?_ ?_
    · rintro us ⟨right, hus⟩
      refine ⟨[], (continues_cons_iff hop).2 ⟨right, [], ?_, continues_nil level⟩⟩
      rwa [List.append_nil]
    · intro us rest _ hwhole
      obtain ⟨right, after, hus, -⟩ := (continues_cons_iff hop).1 hwhole
      exact ⟨after, right, hus⟩
  | case4 left t ts _ op hop right after shorter hright stuck' htail _ ih =>
    cases h
    have hop := Level.operator?_eq_some_iff.1 hop
    obtain ⟨used, rfl, hused, hafter⟩ := (hreads _ _ _ _).1 ⟨shorter, hright⟩
    refine (ih hafter htail).prepend (t :: used) ?_ ?_
    · intro us hus
      refine ⟨[], (continues_cons_iff hop).2 ⟨right, us, ?_, hus⟩⟩
      exact ⟨used, by rw [List.append_nil]; rfl, hused, hus.ends_operand⟩
    · intro us rest hhead hwhole
      obtain ⟨right', after', hus, hcontinues⟩ := (continues_cons_iff hop).1 hwhole
      rw [Begins.rest_eq hused hafter hus hhead] at hcontinues
      exact ⟨rest, hcontinues⟩
  | case5 => cases h

include hreads hstops in
/-- **A binary rule stops at the first token that does not fit**, if the rule for its operands
does. -/
lemma stops_binaryRule : Rule.Stops keepCase (.binary level) (binaryRule level operand) := by
  intro ts bound stuck h
  rcases hleft : operand ts bound with stuck' | ⟨⟨left, after⟩, shorter⟩
  · -- the first operand is at fault: what begins an operand begins a chain of one
    simp only [binaryRule, hleft] at h
    cases h
    refine (hstops ts bound _ hleft).prepend [] ?_ ?_
    · rintro us ⟨left, hus⟩
      refine ⟨[], begins_binary_iff.2 ⟨left, [], ?_, continues_nil level⟩⟩
      rwa [List.append_nil]
    · intro us rest _ hwhole
      obtain ⟨left, after, hus, -⟩ := begins_binary_iff.1 hwhole
      exact ⟨after, left, hus⟩
  · obtain ⟨used, rfl, hused, hafter⟩ := (hreads _ _ _ _).1 ⟨shorter, hleft⟩
    rcases htail : readTail level operand left after
      (Nat.le_trans (Nat.le_of_lt shorter) bound) with stuck' | ⟨p, le⟩
    · simp only [binaryRule, hleft, htail] at h
      cases h
      refine (stopsAt_readTail hreads hstops hafter htail).prepend used ?_ ?_
      · intro us hus
        refine ⟨[], begins_binary_iff.2 ⟨left, us, ?_, hus⟩⟩
        exact ⟨used, by rw [List.append_nil], hused, hus.ends_operand⟩
      · intro us rest hhead hwhole
        obtain ⟨left', after', hus, hcontinues⟩ := begins_binary_iff.1 hwhole
        rw [Begins.rest_eq hused hafter hus hhead] at hcontinues
        exact ⟨rest, hcontinues⟩
    · simp only [binaryRule, hleft, htail] at h
      cases h

end Level

/-! ## Complements -/

/-- After `NOT` comes another complement. -/
lemma begins_not_iff {t : Token} (ht : t.kind = .keyword .not) {ts rest : List Token} :
    (∃ e, Begins keepCase .complement (t :: ts) e rest) ↔
      ∃ e, Begins keepCase .complement ts e rest := by
  constructor
  · rintro ⟨_, used, hts, hused, hends⟩
    cases hused with
    | complement _ hoperand =>
      obtain ⟨rfl, rfl⟩ := List.cons.inj hts
      exact ⟨_, _, rfl, hoperand, hends⟩
    | plain hsum =>
      -- a sum does not begin with a complement
      obtain ⟨t', us, rfl, -, hnot⟩ := hsum.exists_cons
      obtain ⟨rfl, -⟩ := List.cons.inj hts
      cases hnot ht
  · rintro ⟨e, used, rfl, hused, hends⟩
    exact ⟨_, t :: used, rfl, .complement ht hused, hends⟩

/-- A complement that does not begin with `NOT` is a sum. -/
lemma begins_complement_iff {ts rest : List Token}
    (hts : ∀ t ∈ ts.head?, t.kind ≠ .keyword .not) :
    (∃ e, Begins keepCase .complement ts e rest) ↔
      ∃ e, Begins keepCase (.binary .sum) ts e rest := by
  constructor
  · rintro ⟨_, used, rfl, hused, hends⟩
    cases hused with
    | complement ht _ => exact absurd ht (hts _ rfl)
    | plain hsum => exact ⟨_, used, rfl, hsum, hends⟩
  · rintro ⟨e, used, rfl, hused, hends⟩
    exact ⟨e, used, rfl, .plain hused, hends⟩

/-- **The rule for complements stops at the first token that does not fit**, if the one for sums
does. -/
lemma stops_complementRule {operand : Rule n}
    (hstops : Rule.Stops keepCase (.binary .sum) operand) :
    Rule.Stops keepCase .complement (complementRule operand) := by
  -- a rule that is not for complements is asked if the list does not begin with `NOT`
  have hplain : ∀ {ts : List Token} {bound : ts.length ≤ n} {stuck : Stuck},
      (∀ t ∈ ts.head?, t.kind ≠ .keyword .not) → operand ts bound = .error stuck →
        StopsAt (fun us rest => ∃ e, Begins keepCase .complement us e rest) ts stuck := by
    intro ts bound stuck hts h
    refine (hstops ts bound stuck h).prepend [] ?_ ?_
    · rintro us ⟨e, hus⟩
      exact ⟨[], e, us, by simp, .plain (begins_nil_iff.1 hus), by simp [Ends]⟩
    · intro us rest hhead hwhole
      exact ⟨rest, (begins_complement_iff (hhead ▸ hts)).1 hwhole⟩
  intro ts
  induction ts with
  | nil => exact fun bound stuck h => hplain (by simp) h
  | cons t ts ih =>
    intro bound stuck h
    by_cases hnot : t.kind = .keyword .not
    · rcases hread : complementRule operand ts (Nat.le_of_succ_le bound) with stuck' | ⟨p, shorter⟩
      · simp only [complementRule, hnot, if_true, hread] at h
        cases h
        refine (ih _ _ hread).prepend [t] ?_ ?_
        · intro us hus
          exact ⟨[], (begins_not_iff hnot).2 (by rwa [List.append_nil])⟩
        · intro us rest _ hwhole
          exact ⟨rest, (begins_not_iff hnot).1 hwhole⟩
      · simp only [complementRule, hnot, if_true, hread] at h
        cases h
    · simp only [complementRule, hnot, if_false] at h
      exact hplain (by simpa using hnot) h

/-! ## Both together -/

/-- A rule reads the expressions of a stratum, and stops at the first token that does not fit. -/
structure Rule.Exact (keepCase : Bool) (stratum : Stratum) (rule : Rule n) : Prop where
  reads : Rule.Reads keepCase stratum rule
  stops : Rule.Stops keepCase stratum rule

/-- The rule for a level is exact if the one for its operands is. -/
lemma Rule.Exact.binary {level : Level} {operand : Rule n}
    (h : Rule.Exact keepCase level.operand operand) :
    Rule.Exact keepCase (.binary level) (binaryRule level operand) :=
  ⟨reads_binaryRule h.reads, stops_binaryRule h.reads h.stops⟩

/-- The rule for complements is exact if the one for sums is. -/
lemma Rule.Exact.complement {operand : Rule n} (h : Rule.Exact keepCase (.binary .sum) operand) :
    Rule.Exact keepCase .complement (complementRule operand) :=
  ⟨reads_complementRule h.reads, stops_complementRule h.stops⟩

/-! ## Atoms -/

/-- In parentheses stands an expression, and after it the closing one. -/
lemma begins_lparen_iff {t : Token} (ht : t.kind = .punctuation .lparen) {ts rest : List Token} :
    (∃ e, Begins keepCase .atom (t :: ts) e rest) ↔
      ∃ e close, close.kind = .punctuation .rparen ∧
        Begins keepCase (.binary .disjunction) ts e (close :: rest) := by
  constructor
  · rintro ⟨_, used, hts, hused, -⟩
    cases hused with
    | number ht' | char ht' | here ht' | label ht' =>
      obtain ⟨rfl, -⟩ := List.cons.inj hts
      rw [ht] at ht'
      cases ht'
    | @parentheses _ close inside _ _ hinside hclose =>
      obtain ⟨rfl, rfl⟩ : t = _ ∧ ts = inside ++ close :: rest := by simpa using hts
      exact ⟨_, close, hclose, inside, rfl, hinside, ends_of_rparen hclose rest⟩
  · rintro ⟨e, close, hclose, inside, rfl, hinside, -⟩
    exact ⟨e, t :: (inside ++ [close]), by simp, .parentheses ht hinside hclose, ends_atom rest⟩

/-- No atom begins with a token that begins no expression, nor with `NOT`. -/
lemma not_begins_atom {t : Token} (ht : t.kind.startsExpression = false ∨ t.kind = .keyword .not)
    (ts : List Token) {rest : List Token} : ¬∃ e, Begins keepCase .atom (t :: ts) e rest := by
  rintro ⟨e, used, hts, hused, -⟩
  obtain ⟨t', us, rfl, hstarts, hnot⟩ := hused.exists_cons
  obtain ⟨rfl, -⟩ := List.cons.inj hts
  rcases ht with ht | ht
  · rw [ht] at hstarts
    cases hstarts
  · cases hnot ht

/-- A token that stands for `$`. -/
def hereToken : Token := ⟨.punctuation .dollar, unnamedFile, 1, 1⟩

/-- A closing parenthesis. -/
def closingToken : Token := ⟨.punctuation .rparen, unnamedFile, 1, 1⟩

/-- Where an atom is missing, any atom would do. -/
lemma exists_begins_atom : ∃ more, ∃ e, Begins keepCase .atom ([] ++ more) e [] :=
  ⟨[hereToken], _, Derives.begins (.here rfl)⟩

/-- A token that begins no atom is blamed. -/
lemma stopsAt_misfit {t : Token} (ht : t.kind.startsExpression = false ∨ t.kind = .keyword .not)
    (fault : GrammarFault) (ts : List Token) :
    StopsAt (fun us rest => ∃ e, Begins keepCase .atom us e rest) (t :: ts)
      ⟨fault, t, t :: ts⟩ := by
  refine ⟨[], rfl, exists_begins_atom, fun t' after hrest => ?_⟩
  obtain ⟨rfl, rfl⟩ := List.cons.inj hrest
  exact ⟨rfl, fun more rest => not_begins_atom ht more⟩

/-- What follows an expression in parentheses is blamed if it does not close them. -/
lemma stopsAt_unclosed {t token : Token} (ht : t.kind = .punctuation .lparen)
    {ts rest : List Token} {e : Expr} (hts : Begins keepCase (.binary .disjunction) ts e rest)
    (hrest : ∀ close ∈ rest.head?, token = close ∧ close.kind ≠ .punctuation .rparen)
    (fault : GrammarFault) :
    StopsAt (fun us rest => ∃ e, Begins keepCase .atom us e rest) (t :: ts)
      ⟨fault, token, rest⟩ := by
  obtain ⟨inside, rfl, hinside, hends⟩ := hts
  refine ⟨t :: inside, rfl, ⟨[closingToken], (begins_lparen_iff ht).2 ⟨e, closingToken, rfl, ?_⟩⟩,
    fun close after (hclose : rest = close :: after) => ?_⟩
  · exact ⟨inside, rfl, hinside, ends_of_rparen rfl []⟩
  · subst hclose
    obtain ⟨htoken, hopen⟩ := hrest close rfl
    refine ⟨htoken, fun more rest' hwhole => ?_⟩
    obtain ⟨e', close', hclose', hbegins⟩ := (begins_lparen_iff ht).1 hwhole
    -- the expression inside ends before `close`, which would have to close the parentheses
    have hrest : close' :: rest' = close :: more :=
      Begins.rest_eq hinside hends hbegins rfl
    obtain ⟨rfl, -⟩ := List.cons.inj hrest
    exact hopen hclose'

section Inner

variable {ctx : Context} {inner : (ts : List Token) → ts.length < n → Except Stuck (Prefixed ts)}
  (hreads : ∀ (ts : List Token) (bound : ts.length < n) (e : Expr) (rest : List Token),
    (∃ shorter, inner ts bound = .ok ⟨(e, rest), shorter⟩) ↔
      Begins ctx.keepCase (.binary .disjunction) ts e rest)
  (hstops : ∀ (ts : List Token) (bound : ts.length < n) (stuck : Stuck),
    inner ts bound = .error stuck →
      StopsAt (fun us rest => ∃ e, Begins ctx.keepCase (.binary .disjunction) us e rest) ts stuck)

include hreads hstops in
/-- **The rule for atoms stops at the first token that does not fit**, if what reads expressions in
parentheses does.

**Proof sketch.** The cases are those of the rule, by the kind of the first token. Without a first
token nothing is blamed, and atoms exist. A token that begins an atom by itself is never refused,
and one that begins none is blamed at once (`stopsAt_misfit`). After an opening parenthesis there
are three ways to fail. If what `inner` reads is at fault, its blame carries over with the
parenthesis in front. If the list ends after it, or goes on with another token, no closing
parenthesis is found (`stopsAt_unclosed`). -/
lemma stops_atomRule : Rule.Stops ctx.keepCase .atom (atomRule ctx inner) := by
  intro ts bound stuck h
  cases ts with
  | nil =>
    cases h
    exact ⟨[], rfl, exists_begins_atom, fun t after hrest => by cases hrest⟩
  | cons t ts =>
    cases hkind : t.kind with
    | punctuation p =>
      cases p with
      | lparen =>
        rcases hread : inner ts bound with stuck' | ⟨⟨e, _ | ⟨close, after⟩⟩, shorter⟩
        · simp only [atomRule, hkind, hread] at h
          cases h
          refine (hstops ts bound _ hread).prepend [t] ?_ ?_
          · rintro us ⟨e, hus⟩
            refine ⟨[closingToken], (begins_lparen_iff hkind).2 ⟨e, closingToken, rfl, us, rfl, ?_⟩⟩
            exact ⟨begins_nil_iff.1 hus, ends_of_rparen rfl []⟩
          · intro us rest _ hwhole
            obtain ⟨e, close, -, hus⟩ := (begins_lparen_iff hkind).1 hwhole
            exact ⟨close :: rest, e, hus⟩
        · simp only [atomRule, hkind, hread] at h
          cases h
          exact stopsAt_unclosed hkind ((hreads _ _ _ _).1 ⟨shorter, hread⟩) (by simp) _
        · simp only [atomRule, hkind, hread] at h
          split_ifs at h with hclose
          cases h
          exact stopsAt_unclosed hkind ((hreads _ _ _ _).1 ⟨shorter, hread⟩)
            (by simpa using hclose) _
      | dollar =>
        simp only [atomRule, hkind] at h
        cases h
      | _ =>
        simp only [atomRule, hkind] at h
        cases h
        exact stopsAt_misfit (.inl (by rw [hkind]; rfl)) _ ts
    | number | char | identifier =>
      simp only [atomRule, hkind] at h
      cases h
    | keyword k =>
      simp only [atomRule, hkind] at h
      cases h
      refine stopsAt_misfit ?_ _ ts
      cases k with
      | not => exact .inr hkind
      | _ => exact .inl (by rw [hkind]; rfl)
    | _ =>
      simp only [atomRule, hkind] at h
      cases h
      exact stopsAt_misfit (.inl (by rw [hkind]; rfl)) _ ts

include hreads hstops in
/-- The rules of all strata together stop at the first token that does not fit, if what reads
expressions in parentheses does. -/
lemma stops_expressionRule :
    Rule.Stops ctx.keepCase (.binary .disjunction) (expressionRule ctx inner) := by
  have hatom : Rule.Exact ctx.keepCase .atom (atomRule ctx inner) :=
    ⟨reads_atomRule hreads, stops_atomRule hreads hstops⟩
  have hproduct : Rule.Exact ctx.keepCase (.binary .product) _ := hatom.binary
  have hsum : Rule.Exact ctx.keepCase (.binary .sum) _ := hproduct.binary
  have hconjunction : Rule.Exact ctx.keepCase (.binary .conjunction) _ := hsum.complement.binary
  exact hconjunction.binary.stops

end Inner

/-! ## Expressions -/

/-- Reading with a proof that tokens are used up stops at the first token that does not fit.

**Proof sketch.** Recursion on the number of tokens: what stands in parentheses has fewer. -/
lemma stopsAt_readShorter (ctx : Context) (ts : List Token) (stuck : Stuck)
    (h : readShorter ctx ts = .error stuck) :
    StopsAt (fun us rest => ∃ e, Begins ctx.keepCase (.binary .disjunction) us e rest) ts
      stuck := by
  rw [readShorter] at h
  exact stops_expressionRule (fun us _ e rest => readShorter_ok_iff ctx us e rest)
    (fun us _ stuck h => stopsAt_readShorter ctx us stuck h) ts (Nat.le_refl _) stuck h
termination_by ts.length

/-- **Reading an expression stops at the first token that does not fit.** -/
lemma stopsAt_read {ctx : Context} {ts : List Token} {stuck : Stuck}
    (h : read ctx ts = .error stuck) :
    StopsAt (fun us rest => ∃ e, Begins ctx.keepCase (.binary .disjunction) us e rest) ts
      stuck := by
  cases hread : readShorter ctx ts with
  | ok p =>
    simp only [read, hread] at h
    cases h
  | error stuck' =>
    simp only [read, hread] at h
    cases h
    exact stopsAt_readShorter ctx ts stuck hread

/-- Where reading stops, the tokens before the place are the beginning of an expression, and with
the token at the place they are not. If no token stands there, they are no expression. -/
lemma exists_used_of_read {ctx : Context} {ts : List Token} {stuck : Stuck}
    (h : read ctx ts = .error stuck) :
    ∃ used, ts = used ++ stuck.rest ∧ BeginsExpression ctx.keepCase used ∧
      (∀ t ∈ stuck.rest.head?,
        stuck.token = t ∧ ¬BeginsExpression ctx.keepCase (used ++ [t])) ∧
      (stuck.rest = [] → ¬IsExpression ctx.keepCase used) := by
  obtain ⟨used, hts, ⟨more, e, hmore⟩, hblamed⟩ := stopsAt_read h
  refine ⟨used, hts, ⟨more, e, begins_nil_iff.1 hmore⟩, fun t ht => ?_, fun hnil hused => ?_⟩
  · obtain ⟨after, hrest⟩ := List.head?_eq_some_iff.1 ht
    obtain ⟨htoken, hdead⟩ := hblamed t after hrest
    refine ⟨htoken, ?_⟩
    rintro ⟨more, e, hexpression⟩
    rw [List.append_assoc, List.singleton_append] at hexpression
    exact hdead more [] ⟨e, hexpression.begins⟩
  · obtain ⟨e, hused⟩ := hused
    rw [hnil, List.append_nil] at hts
    rw [hts, read_eq_ok_iff.2 hused.begins] at h
    cases h

/-- **The first token that does not fit is blamed.** Let no expression be read from a position of a
token list, and let reading end at the position `ending`. The tokens from the one up to the other,
without the last, are the beginning of some expression. If there is a token at `ending`, then with
it they are the beginning of none, and its place is that of the diagnostic. If the list ends there,
they are no expression.

**Proof sketch.** Every rule stops at the first token with which nothing begins that it could read
(`stops_atomRule`, `stops_complementRule`, `stops_binaryRule`), and so do all of them together
(`exists_used_of_read`). The tokens seen from a position on are those at the positions from it on
(`tokenAt?_add`). -/
theorem readAt_blames_first_misfit {ts : List Token} {position ending : Int} {keepCase : Bool}
    {sourceLine : Option String} {f : Failure}
    (h : readAt ts position keepCase sourceLine = (.error f, ending)) :
    ∃ used : List Token, ending = position + used.length ∧
      (∀ (i : Nat) (t : Token), used[i]? = some t → tokenAt? ts (position + i) = some t) ∧
      BeginsExpression keepCase used ∧
      (∀ t, tokenAt? ts ending = some t → ¬BeginsExpression keepCase (used ++ [t]) ∧
        ∃ fault, f = .diagnostic ⟨.grammar fault, some t.location, sourceLine⟩) ∧
      ((ts.length : Int) ≤ ending → ¬IsExpression keepCase used) := by
  unfold readAt at h
  cases hahead : ahead? ts position with
  | none =>
    simp only [hahead] at h
    cases h
    have hnone := tokenAt?_of_ahead?_eq_none hahead
    refine ⟨[], by simp, by simp, ⟨[hereToken], _, .of_atom (.here rfl)⟩, fun t ht => ?_,
      fun hle => ?_⟩
    · rw [hnone] at ht
      cases ht
    · -- only positions before the first token are refused
      have hpos : 0 ≤ position := by omega
      rw [ahead?, if_pos hpos] at hahead
      cases hahead
  | some ahead =>
    rcases hread : read ⟨keepCase, endMark unnamedFile ts⟩ ahead with stuck | ⟨e, rest⟩
    · simp only [hahead, hread] at h
      cases h
      obtain ⟨used, rfl, hbegins, hblamed, hcomplete⟩ := exists_used_of_read hread
      have hlength : (used ++ stuck.rest).length - stuck.rest.length = used.length := by simp
      have hnext : tokenAt? ts (position + used.length) = stuck.rest.head? := by
        rw [tokenAt?_add hahead, List.getElem?_append_right (Nat.le_refl _), Nat.sub_self,
          List.head?_eq_getElem?]
      rw [hlength]
      refine ⟨used, rfl, fun i t ht => ?_, hbegins, fun t ht => ?_, fun hle => ?_⟩
      · obtain ⟨hi, -⟩ := List.getElem?_eq_some_iff.1 ht
        rw [tokenAt?_add hahead, List.getElem?_append_left hi, ht]
      · obtain ⟨htoken, hmisfit⟩ := hblamed t (hnext ▸ ht)
        exact ⟨hmisfit, stuck.fault, by rw [Stuck.failure, htoken]⟩
      · have hpos : 0 ≤ position + used.length := by omega
        obtain ⟨k, hk⟩ := Int.eq_ofNat_of_zero_le hpos
        rw [hk, tokenAt?_natCast, List.getElem?_eq_none (by omega)] at hnext
        exact hcomplete (List.head?_eq_none_iff.1 hnext.symm)
    · simp only [hahead, hread] at h
      cases h

/-- Tokens from a position of a list on are taken from what is left there. -/
lemma eq_take_of_tokenAt? {ts used : List Token} {k : Nat}
    (h : ∀ (i : Nat) (t : Token), used[i]? = some t → tokenAt? ts ((k : Int) + i) = some t) :
    used = (ts.drop k).take used.length := by
  refine List.prefix_iff_eq_take.1 (List.prefix_iff_getElem?.2 fun i hi => ?_)
  have hi := h i _ (List.getElem?_eq_getElem hi)
  rwa [← Int.natCast_add, tokenAt?_natCast, ← List.getElem?_drop] at hi

/-- Tokens of a product whose right operand is a sum with a complement in it. -/
def misfitTokens : List Token := (tokenize "DB 2*(x + NOT y)" "sample.asm").toOption.getD []

/-- After `+` no complement fits: in the sample `NOT` is blamed, and the tokens before it are the
beginning of an expression. -/
theorem readAt_misfitTokens :
    readAt misfitTokens 1 true none =
        (.error (.diagnostic ⟨.grammar (.expectedValue (.keyword .not)),
          some ⟨"sample.asm", 1, 11⟩, none⟩), 6) ∧
      tokenAt? misfitTokens 6 = some ⟨.keyword .not, "sample.asm", 1, 11⟩ ∧
      BeginsExpression true ((misfitTokens.drop 1).take 5) ∧
      ¬BeginsExpression true ((misfitTokens.drop 1).take 5 ++
        [⟨.keyword .not, "sample.asm", 1, 11⟩]) := by
  have hread : readAt misfitTokens 1 true none =
      (.error (.diagnostic ⟨.grammar (.expectedValue (.keyword .not)),
        some ⟨"sample.asm", 1, 11⟩, none⟩), 6) := by decide +kernel
  have hnot : tokenAt? misfitTokens 6 = some ⟨.keyword .not, "sample.asm", 1, 11⟩ := by
    decide +kernel
  obtain ⟨used, hending, hused, hbegins, hmisfit, -⟩ := readAt_blames_first_misfit hread
  obtain hlength : used.length = 5 := by omega
  obtain rfl := hlength ▸ eq_take_of_tokenAt? (k := 1) hused
  exact ⟨hread, hnot, hbegins, (hmisfit _ hnot).1⟩

end Asm8080.Expr
