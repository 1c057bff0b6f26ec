/-
Module: Quill.Proofs.Parser.Progress
Layer: Proofs
Purpose: Every loop of the parser, and its recursion into nested expressions, comes to an end by itself. One
  round of each is written down as a function of what is entered again. A round makes progress if whatever it
  enters again has fewer words left than the round itself, which is said without looking into it: two
  continuations that agree where fewer words are left give rounds that agree. Then no more rounds are made than
  words are left, and what stands behind the last one is never reached, whatever that is.
Main exports: Parse.SameWithin, Parse.StepsWithin, Parse.Terminates, Parser.Sub.Same, Parse.moreItems_terminates,
  Parser.statementsUntil_terminates, Parser.hashEntries_terminates, Parser.elseClauses_terminates,
  Parser.switchCases_terminates, Parser.extend_terminates, Parser.expression_terminates
-/
import Quill.Proofs.Parser.Settling

namespace Quill

namespace Parse

variable {α β ι : Type} {n k : Nat} {c c' : Cursor}

theorem Room.atEnd (room : Room 1 c) : c.current.lexeme = .endOfText := by
  apply Classical.byContradiction
  intro more
  exact (room.advance more).pos rfl

/-- With room for two words, moving on takes up room even at the end of the text. -/
theorem Room.next (room : Room (n + 2) c) : Room (n + 1) c.advance := by
  by_cases last : c.current.lexeme = .endOfText
  · have isEmpty : c.ahead = [] := by
      have ended := room.1
      simpa [Cursor.words, Ended, last] using ended
    have single : c.words.length ≤ n + 1 := by simp [Cursor.words, isEmpty]
    exact Room.precedes ⟨room.1, single⟩ c.precedes_advance
  · exact room.advance last

/-!
### Computations that agree where few words are left
-/

/-- Two computations do the same wherever at most `n` words are left. -/
def SameWithin (n : Nat) (p p' : Parse α) : Prop :=
  ∀ c, Room n c → p.run c = p'.run c

theorem run_bind_congr {p p' : Parse α} {f f' : α → Parse β} (first : p.run c = p'.run c)
    (next : ∀ a c₁, p.run c = (some a, c₁) → (f a).run c₁ = (f' a).run c₁) :
    (p >>= f).run c = (p' >>= f').run c := by
  show (andThen p f).run c = (andThen p' f').run c
  rcases run : p.run c with ⟨_ | a, c₁⟩
  · simp [andThen, ← first, run]
  · simpa [andThen, ← first, run] using next a c₁ run

theorem precedes_of_run {p : Parse α} {a? : Option α} (run : p.run c = (a?, c')) : c.Precedes c' := by
  have forward := p.forward c
  rwa [run] at forward

theorem advance_of_expectSymbol {s : Symbol} {u : Unit} (run : (expectSymbol s).run c = (some u, c')) :
    c.peek.hasKind (.symbol s) = true ∧ c' = c.advance := by
  change ((if c.peek.hasKind (.symbol s) = true then Parse.advance
    else peek >>= fun found => unexpected found (.symbol s)).run c) = (some u, c') at run
  split at run
  · rename_i isSymbol
    cases run
    exact ⟨isSymbol, rfl⟩
  · cases run

namespace SameWithin

theorem refl (p : Parse α) : SameWithin n p p :=
  fun _ _ => rfl

theorem mono {p p' : Parse α} (same : SameWithin n p p') (le : k ≤ n) : SameWithin k p p' :=
  fun c room => same c (room.mono le)

theorem bind {p p' : Parse α} {f f' : α → Parse β} (first : SameWithin n p p')
    (next : ∀ a, SameWithin n (f a) (f' a)) : SameWithin n (p >>= f) (p' >>= f') := by
  intro c room
  apply run_bind_congr (first c room)
  intro a c₁ run
  exact next a c₁ (room.precedes (precedes_of_run run))

theorem tolerate {p p' : Parse α} (same : SameWithin n p p') :
    SameWithin n (Parse.tolerate p) (Parse.tolerate p') := by
  intro c room
  simp [Parse.tolerate, same c room]

/-- Behind a token fewer words are left. -/
theorem advance {p p' : Parse α} (same : SameWithin (n + 1) p p') :
    SameWithin (n + 2) (Parse.advance >>= fun _ => p) (Parse.advance >>= fun _ => p') :=
  fun c room => same c.advance room.next

/-- So they are behind a token that is not the last one, even if there is room for no more than that. -/
theorem onward {p p' : Parse α} (same : SameWithin n p p') (room : Room (n + 1) c)
    (more : c.current.lexeme ≠ .endOfText) :
    (Parse.advance >>= fun _ => p).run c = (Parse.advance >>= fun _ => p').run c :=
  same c.advance (room.advance more)

/-- So they are behind an expected symbol. -/
theorem behind {p p' : Parse α} (s : Symbol) (same : SameWithin n p p') :
    SameWithin (n + 1) (Parse.expectSymbol s >>= fun _ => p) (Parse.expectSymbol s >>= fun _ => p') := by
  intro c room
  apply run_bind_congr rfl
  intro _ c₁ run
  obtain ⟨isSymbol, rfl⟩ := advance_of_expectSymbol run
  have more := room.current_of_peek (Token.lexeme_ne_of_hasKind isSymbol nofun)
  exact same c.advance (room.advance more)

/-- So they are behind a token that was looked for. -/
theorem ifNext {p p' q q' : Parse α} (kind : Kind) (other : kind ≠ .endOfText) (yes : SameWithin n p p')
    (no : SameWithin (n + 1) q q') :
    SameWithin (n + 1) (do if ← peekIs kind then Parse.advance; p else q)
      (do if ← peekIs kind then Parse.advance; p' else q') := by
  intro c room
  apply run_bind_congr rfl
  intro isNext c₁ run
  cases run
  split
  · rename_i isKind
    exact yes.onward room (room.current_of_peek (Token.lexeme_ne_of_hasKind isKind other))
  · exact no c room

end SameWithin

/-!
### Rounds that make progress
-/

/-- Two ways to make a round, with at most `n` words left, of something that is entered again: where `again`
    and `again'` agree with fewer words left, the rounds agree. So a round has left a word behind before it
    enters again; at the end of the text, where moving on leaves nothing behind, it does not enter again. -/
def StepsWithin (n : Nat) (round round' : (ι → Parse α) → ι → Parse α) : Prop :=
  ∀ ⦃k⦄, k < n → ∀ ⦃again again'⦄, (∀ j, SameWithin k (again j) (again' j)) →
    ∀ i, SameWithin (k + 1) (round again i) (round' again' i)

theorem StepsWithin.mono {round round' : (ι → Parse α) → ι → Parse α} (steps : StepsWithin n round round')
    (le : k ≤ n) : StepsWithin k round round' :=
  fun _ less => steps (Nat.lt_of_lt_of_le less le)

/-- Two bounds are the same, or neither is reached within `n` rounds. -/
def Ample (n bound bound' : Nat) : Prop :=
  bound = bound' ∨ (n ≤ bound ∧ n ≤ bound')

theorem Ample.mono {bound bound' : Nat} (ample : Ample n bound bound') (le : k ≤ n) :
    Ample k bound bound' := by
  unfold Ample at ample ⊢
  omega

/-- As many rounds as there are words left are enough: the induction is on the words, and what stands behind
    the last round counts only if both sides make too few of them. -/
theorem StepsWithin.repeated {round round' : (ι → Parse α) → ι → Parse α} {bottom bottom' : ι → Parse α}
    (steps : StepsWithin n round round') : ∀ {k bound bound'}, k ≤ n →
    (bound = bound' ∧ bottom = bottom') ∨ (k ≤ bound ∧ k ≤ bound') →
    ∀ i, SameWithin k (Nat.repeat round bound bottom i) (Nat.repeat round' bound' bottom' i) := by
  intro k
  induction k with
  | zero => exact fun _ _ _ c room => absurd rfl room.pos
  | succ k inductionHypothesis =>
      intro bound bound' within enough i
      cases bound with
      | zero =>
          obtain ⟨rfl, rfl⟩ | ⟨impossible, _⟩ := enough
          · exact .refl _
          · exact absurd impossible (Nat.not_succ_le_zero k)
      | succ bound =>
          cases bound' with
          | zero => omega
          | succ bound' =>
              have enough' : (bound = bound' ∧ bottom = bottom') ∨ (k ≤ bound ∧ k ≤ bound') := by
                simpa using enough
              exact steps within (inductionHypothesis (Nat.le_of_succ_le within) enough') i

/-- What makes up to `bound` rounds and then drops the construct comes to an end by itself. -/
structure Terminates (cycle : Nat → ι → Parse α) (round : (ι → Parse α) → ι → Parse α) : Prop where
  /-- It does nothing but make rounds. -/
  unrolls : ∀ bound, cycle bound = Nat.repeat round bound fun _ => drop
  /-- What a round enters again has fewer words left, or is not reached. -/
  progresses : ∀ {n again again'}, (∀ j, SameWithin n (again j) (again' j)) →
    ∀ i, SameWithin (n + 1) (round again i) (round again' i)
  /-- With a bound of the number of words left, what stands behind the last round is never run. A report made
      there would show, since no report is taken back. -/
  unspent : ∀ {n bound}, n ≤ bound → ∀ bottom i,
    SameWithin n (cycle bound i) (Nat.repeat round bound bottom i)

theorem unrolls_of {round : (ι → Parse α) → ι → Parse α} (cycle : Nat → ι → Parse α)
    (first : cycle 0 = fun _ => drop) (next : ∀ bound, cycle (bound + 1) = round (cycle bound)) (bound : Nat) :
    cycle bound = Nat.repeat round bound fun _ => drop := by
  induction bound with
  | zero => exact first
  | succ bound inductionHypothesis => rw [next, inductionHypothesis, Nat.repeat]

theorem Terminates.of {cycle : Nat → ι → Parse α} {round : (ι → Parse α) → ι → Parse α}
    (unrolls : ∀ bound, cycle bound = Nat.repeat round bound fun _ => drop)
    (steps : ∀ n, StepsWithin n round round) : Terminates cycle round where
  unrolls := unrolls
  progresses {n} _ _ agree := steps (n + 1) (Nat.lt_succ_self n) agree
  unspent {n bound} enough bottom i := by
    rw [unrolls]
    exact (steps n).repeated (Nat.le_refl n) (.inr ⟨enough, enough⟩) i

/-- Two loops whose rounds agree do the same within bounds that are ample. -/
theorem StepsWithin.cycles {cycle cycle' : Nat → ι → Parse α} {round round' : (ι → Parse α) → ι → Parse α}
    {bound bound' : Nat} (steps : StepsWithin n round round')
    (unrolls : ∀ bound, cycle bound = Nat.repeat round bound fun _ => drop)
    (unrolls' : ∀ bound, cycle' bound = Nat.repeat round' bound fun _ => drop)
    (ample : Ample n bound bound') (i : ι) : SameWithin n (cycle bound i) (cycle' bound' i) := by
  rw [unrolls, unrolls']
  apply steps.repeated (Nat.le_refl n)
  exact ample.imp_left fun same => ⟨same, rfl⟩

/-!
### Lists
-/

/-- A round of `moreItems`. -/
def moreItemsRound (item : Parse α) (again : Unit → Parse (List α)) (_ : Unit) : Parse (List α) := do
  if ← peekIs (.symbol .comma) then
    advance
    advance
    let first ← item
    let rest ← again ()
    return first :: rest
  else
    return []

theorem moreItems_unrolls (item : Parse α) (bound : Nat) :
    (fun _ => moreItems item bound) = Nat.repeat (moreItemsRound item) bound fun _ => drop :=
  unrolls_of (fun bound _ => moreItems item bound) rfl (fun _ => rfl) bound

theorem moreItemsRound_steps {item item' : Parse α} (same : SameWithin n item item') :
    StepsWithin n (moreItemsRound item) (moreItemsRound item') := by
  intro k less again again' agree _
  apply SameWithin.ifNext (.symbol .comma) nofun
  · refine .bind (.refl _) fun _ => ?_
    refine .bind (same.mono (Nat.le_of_lt less)) fun first => ?_
    exact .bind (agree ()) fun rest => .refl _
  · exact .refl _

theorem moreItems_terminates (item : Parse α) :
    Terminates (fun bound _ => moreItems item bound) (moreItemsRound item) :=
  .of (moreItems_unrolls item) fun _ => moreItemsRound_steps (.refl item)

theorem moreItems_same {item item' : Parse α} {rounds rounds' : Nat} (same : SameWithin n item item')
    (ample : Ample n rounds rounds') : SameWithin n (moreItems item rounds) (moreItems item' rounds') :=
  (moreItemsRound_steps same).cycles (moreItems_unrolls item) (moreItems_unrolls item') ample ()

theorem items_same {item item' : Parse α} {rounds rounds' : Nat} (same : SameWithin (n + 1) item item')
    (ample : Ample (n + 1) rounds rounds') (close : Symbol) :
    SameWithin (n + 2) (items item rounds close) (items item' rounds' close) := by
  refine .bind (.refl _) fun isClose => ?_
  cases isClose with
  | true => exact .refl _
  | false =>
      apply SameWithin.advance
      refine .bind same fun first => ?_
      exact .bind (moreItems_same same ample) fun rest => .refl _

end Parse

namespace Parser

open Parse

variable {sub sub' : Sub} {n : Nat}

/-- Two ways to read parts agree on expressions where at most `n` words are left, and neither bounds a list
    there. -/
structure Sub.Same (n : Nat) (sub sub' : Sub) : Prop where
  expression : ∀ level, SameWithin n (sub.expression level) (sub'.expression level)
  rounds : Ample (n + 1) sub.rounds sub'.rounds

theorem Sub.Same.refl (sub : Sub) : sub.Same n sub :=
  ⟨fun _ => .refl _, .inl rfl⟩

/-!
### Statements
-/

theorem binding_same (same : sub.Same n sub') (make : String → Expr → Stmt) :
    SameWithin n (binding sub make) (binding sub' make) := by
  refine .bind (.refl _) fun _ => ?_
  refine .bind (.refl _) fun name => ?_
  refine .bind (.refl _) fun _ => ?_
  refine .bind (.refl _) fun _ => ?_
  exact .bind (same.expression _) fun value => .refl _

theorem returning_same (same : sub.Same n sub') : SameWithin n (returning sub) (returning sub') := by
  refine .bind (.refl _) fun next => ?_
  split
  · exact .refl _
  · refine .bind (.refl _) fun _ => ?_
    exact .bind (same.expression _) fun value => .refl _

theorem expressionStatement_same (same : sub.Same n sub') :
    SameWithin n (expressionStatement sub) (expressionStatement sub') :=
  .bind (same.expression _) fun _ => .refl _

theorem namedStatement_same (same : sub.Same n sub') (name : String) :
    SameWithin n (namedStatement sub name) (namedStatement sub' name) := by
  refine .bind (.refl _) fun next => ?_
  split
  · refine .bind (.refl _) fun _ => ?_
    refine .bind (.refl _) fun _ => ?_
    exact .bind (same.expression _) fun value => .refl _
  · split
    · refine .bind (.refl _) fun _ => ?_
      refine .bind (.refl _) fun _ => ?_
      exact .bind (same.expression _) fun value => .refl _
    · exact .refl _
    · exact expressionStatement_same same
  · exact expressionStatement_same same

theorem simpleStatement_same (same : sub.Same n sub') :
    SameWithin n (simpleStatement sub) (simpleStatement sub') := by
  refine .bind (.refl _) fun token => ?_
  split
  · exact binding_same same _
  · exact binding_same same _
  · exact returning_same same
  · exact namedStatement_same same _
  · exact expressionStatement_same same

theorem statement_same (same : sub.Same n sub') : SameWithin n (statement sub) (statement sub') := by
  refine .bind (.refl _) fun isEmpty => ?_
  cases isEmpty with
  | true => exact .refl _
  | false => exact .bind (.tolerate (simpleStatement_same same)) fun s => .refl _

/-- A round of `statementsUntil`. -/
def statementsUntilRound (sub : Sub) (closes : Kind → Bool) (again : Unit → Parse (List Stmt)) (_ : Unit) :
    Parse (List Stmt) := do
  let token ← current
  if closes token.lexeme.kind then
    return []
  else if token.hasKind .endOfText then
    unexpected token (.symbol .rightCurly)
  else
    let first ← statement sub
    advance
    let rest ← again ()
    return first.toList ++ rest

theorem statementsUntil_unrolls (sub : Sub) (closes : Kind → Bool) (bound : Nat) :
    (fun _ => statementsUntil sub closes bound) =
      Nat.repeat (statementsUntilRound sub closes) bound fun _ => drop :=
  unrolls_of (fun bound _ => statementsUntil sub closes bound) rfl (fun _ => rfl) bound

/-- A statement may stop anywhere behind the token it starts with, the end of the text included, but the next
    round is not entered where this one was. -/
theorem statementsUntilRound_steps (closes : Kind → Bool) (same : sub.Same n sub') :
    StepsWithin n (statementsUntilRound sub closes) (statementsUntilRound sub' closes) := by
  intro k less again again' agree _ c room
  apply run_bind_congr rfl
  intro token c₁ run
  cases run
  split
  · rfl
  · split
    · rfl
    · rename_i notLast
      have more : c.current.lexeme ≠ .endOfText := by
        intro last
        exact notLast (by simp [Token.hasKind, last, Lexeme.kind])
      apply run_bind_congr (statement_same same c (room.mono less))
      intro first c₂ run
      have room₃ : Room k c₂.advance := room.advance_behind more (precedes_of_run run)
      apply run_bind_congr rfl
      intro _ c₃ run
      cases run
      exact run_bind_congr (agree () c₂.advance room₃) fun _ _ _ => rfl

theorem statementsUntil_terminates (sub : Sub) (closes : Kind → Bool) :
    Terminates (fun bound _ => statementsUntil sub closes bound) (statementsUntilRound sub closes) :=
  .of (statementsUntil_unrolls sub closes) fun _ => statementsUntilRound_steps closes (.refl sub)

theorem statementsUntil_same {rounds rounds' : Nat} (same : sub.Same n sub') (closes : Kind → Bool)
    (ample : Ample n rounds rounds') :
    SameWithin n (statementsUntil sub closes rounds) (statementsUntil sub' closes rounds') :=
  (statementsUntilRound_steps closes same).cycles (statementsUntil_unrolls sub closes)
    (statementsUntil_unrolls sub' closes) ample ()

theorem block_same (same : sub.Same n sub') : SameWithin n (block sub) (block sub') := by
  refine .bind (.refl _) fun _ => ?_
  exact statementsUntil_same same _ (same.rounds.mono (Nat.le_succ n))

/-!
### Expressions

Parts are read behind the first token of a construct, so the readers agree with room for one word more than
their parts. That there is room for two lets a token be left behind without asking which one it is.
-/

/-- A round of `hashEntries`. -/
def hashEntriesRound (sub : Sub) (again : Unit → Parse (List (Expr × Expr))) (_ : Unit) :
    Parse (List (Expr × Expr)) := do
  if ← peekIs (.symbol .rightCurly) then
    advance
    return []
  else
    advance
    let key ← sub.expression .lowest
    expectSymbol .colon
    advance
    let value ← sub.expression .lowest
    if !(← peekIs (.symbol .rightCurly)) then
      expectSymbol .comma
    let rest ← again ()
    return (key, value) :: rest

theorem hashEntries_unrolls (sub : Sub) (bound : Nat) :
    (fun _ => hashEntries sub bound) = Nat.repeat (hashEntriesRound sub) bound fun _ => drop :=
  unrolls_of (fun bound _ => hashEntries sub bound) rfl (fun _ => rfl) bound

/-- Nothing here asks whether the text has ended: it is the colon that the next entry stands behind. -/
theorem hashEntriesRound_steps (same : sub.Same (n + 1) sub') :
    StepsWithin (n + 2) (hashEntriesRound sub) (hashEntriesRound sub') := by
  intro k less again again' agree _ c room
  have within : k ≤ n + 1 := Nat.le_of_lt_succ less
  apply run_bind_congr rfl
  intro isClose c₁ run
  cases run
  split
  · rfl
  · have room₁ : Room (k + 1) c.advance := room.precedes c.precedes_advance
    apply run_bind_congr (same.expression _ c.advance (room.mono less).next)
    intro key c₂ run
    have room₂ : Room (k + 1) c₂ := room₁.precedes (precedes_of_run run)
    refine SameWithin.behind .colon ?_ c₂ room₂
    refine .bind (.refl _) fun _ => ?_
    refine .bind ((same.expression _).mono within) fun value => ?_
    refine .bind (.refl _) fun isClose => ?_
    cases isClose with
    | true => exact .bind (agree ()) fun rest => .refl _
    | false => exact .bind (.refl _) fun _ => .bind (agree ()) fun rest => .refl _

theorem hashEntries_terminates (sub : Sub) :
    Terminates (fun bound _ => hashEntries sub bound) (hashEntriesRound sub) :=
  .of (hashEntries_unrolls sub) fun n => (hashEntriesRound_steps (.refl sub)).mono (Nat.le_add_right n 2)

theorem hashEntries_same (same : sub.Same (n + 1) sub') :
    SameWithin (n + 2) (hashEntries sub sub.rounds) (hashEntries sub' sub'.rounds) :=
  (hashEntriesRound_steps same).cycles (hashEntries_unrolls sub) (hashEntries_unrolls sub') same.rounds ()

theorem guardedBlock_same (same : sub.Same (n + 1) sub') :
    SameWithin (n + 2) (guardedBlock sub) (guardedBlock sub') := by
  apply SameWithin.advance
  refine .bind (same.expression _) fun guard => ?_
  refine .bind (.refl _) fun _ => ?_
  exact .bind (block_same same) fun body => .refl _

/-- A round of `elseClauses`. -/
def elseClausesRound (sub : Sub) (again : Unit → Parse (List (Expr × Block) × Option Block)) (_ : Unit) :
    Parse (List (Expr × Block) × Option Block) := do
  if ← peekIs (.keyword .elseWord) then
    advance
    if ← peekIs (.keyword .ifWord) then
      advance
      let clause ← guardedBlock sub
      let (clauses, otherwise) ← again ()
      return (clause :: clauses, otherwise)
    else
      expectSymbol .leftCurly
      let body ← block sub
      return ([], some body)
  else
    return ([], none)

theorem elseClauses_unrolls (sub : Sub) (bound : Nat) :
    (fun _ => elseClauses sub bound) = Nat.repeat (elseClausesRound sub) bound fun _ => drop :=
  unrolls_of (fun bound _ => elseClauses sub bound) rfl (fun _ => rfl) bound

theorem elseClausesRound_steps (same : sub.Same (n + 1) sub') :
    StepsWithin (n + 2) (elseClausesRound sub) (elseClausesRound sub') := by
  intro k less again again' agree _
  have within : k ≤ n + 1 := Nat.le_of_lt_succ less
  apply SameWithin.ifNext (.keyword .elseWord) nofun
  · refine .bind (.refl _) fun isIf => ?_
    cases isIf with
    | true =>
        refine .bind (.refl _) fun _ => ?_
        refine .bind ((guardedBlock_same same).mono (Nat.le_of_lt less)) fun clause => ?_
        exact .bind (agree ()) fun others => .refl _
    | false =>
        refine .bind (.refl _) fun _ => ?_
        exact .bind ((block_same same).mono within) fun body => .refl _
  · exact .refl _

theorem elseClauses_terminates (sub : Sub) :
    Terminates (fun bound _ => elseClauses sub bound) (elseClausesRound sub) :=
  .of (elseClauses_unrolls sub) fun n => (elseClausesRound_steps (.refl sub)).mono (Nat.le_add_right n 2)

theorem conditional_same (same : sub.Same (n + 1) sub') :
    SameWithin (n + 2) (conditional sub) (conditional sub') := by
  have clauses : SameWithin (n + 2) (elseClauses sub sub.rounds) (elseClauses sub' sub'.rounds) :=
    (elseClausesRound_steps same).cycles (elseClauses_unrolls sub) (elseClauses_unrolls sub') same.rounds ()
  refine .bind (guardedBlock_same same) fun clause => ?_
  exact .bind clauses fun others => .refl _

theorem forLoop_same (same : sub.Same (n + 1) sub') :
    SameWithin (n + 2) (forLoop sub) (forLoop sub') := by
  apply SameWithin.behind
  refine .bind (.refl _) fun _ => ?_
  refine .bind (simpleStatement_same same) fun start => ?_
  refine .bind (.refl _) fun _ => ?_
  refine .bind (.refl _) fun _ => ?_
  refine .bind (same.expression _) fun condition => ?_
  refine .bind (.refl _) fun _ => ?_
  refine .bind (.refl _) fun _ => ?_
  refine .bind (simpleStatement_same same) fun step => ?_
  refine .bind (.refl _) fun _ => ?_
  refine .bind (.refl _) fun _ => ?_
  exact .bind (block_same same) fun body => .refl _

theorem caseBody_same (same : sub.Same (n + 1) sub') :
    SameWithin (n + 2) (caseBody sub) (caseBody sub') := by
  apply SameWithin.behind
  refine .bind (.refl _) fun _ => ?_
  exact statementsUntil_same same closesCase (same.rounds.mono (Nat.le_succ _))

/-- A round of `switchCases`. -/
def switchCasesRound (sub : Sub) (again : Unit → Parse (List (Expr × Block) × Option Block)) (_ : Unit) :
    Parse (List (Expr × Block) × Option Block) := do
  let token ← current
  match token.lexeme with
  | .keyword .caseWord =>
    advance
    let value ← sub.expression .lowest
    let body ← caseBody sub
    let (cases, otherwise) ← again ()
    return ((value, body) :: cases, otherwise)
  | .keyword .defaultWord =>
    let body ← caseBody sub
    let closing ← current
    if closing.hasKind (.symbol .rightCurly) then
      return ([], some body)
    else
      unexpected closing (.symbol .rightCurly)
  | .symbol .rightCurly => return ([], none)
  | _ => unexpected token (.keyword .caseWord)

theorem switchCases_unrolls (sub : Sub) (bound : Nat) :
    (fun _ => switchCases sub bound) = Nat.repeat (switchCasesRound sub) bound fun _ => drop :=
  unrolls_of (fun bound _ => switchCases sub bound) rfl (fun _ => rfl) bound

theorem switchCasesRound_steps (same : sub.Same (n + 1) sub') :
    StepsWithin (n + 2) (switchCasesRound sub) (switchCasesRound sub') := by
  intro k less again again' agree _ c room
  have within : k ≤ n + 1 := Nat.le_of_lt_succ less
  apply run_bind_congr rfl
  intro token c₁ run
  cases run
  split
  · rename_i isCase
    refine SameWithin.onward ?_ room (by simp [isCase])
    refine .bind ((same.expression _).mono within) fun value => ?_
    refine .bind ((caseBody_same same).mono (Nat.le_of_lt less)) fun body => ?_
    exact .bind (agree ()) fun others => .refl _
  · exact SameWithin.bind (caseBody_same same) (fun body => .refl _) c (room.mono less)
  · rfl
  · rfl

theorem switchCases_terminates (sub : Sub) :
    Terminates (fun bound _ => switchCases sub bound) (switchCasesRound sub) :=
  .of (switchCases_unrolls sub) fun n => (switchCasesRound_steps (.refl sub)).mono (Nat.le_add_right n 2)

theorem switch_same (same : sub.Same (n + 1) sub') :
    SameWithin (n + 2) (switch sub) (switch sub') := by
  have cases : SameWithin (n + 2) (switchCases sub sub.rounds) (switchCases sub' sub'.rounds) :=
    (switchCasesRound_steps same).cycles (switchCases_unrolls sub) (switchCases_unrolls sub') same.rounds ()
  apply SameWithin.advance
  refine .bind (same.expression _) fun subject => ?_
  refine .bind (.refl _) fun _ => ?_
  refine .bind (.refl _) fun _ => ?_
  exact .bind (cases.mono (Nat.le_succ _)) fun found => .refl _

theorem paramsAndBody_same (same : sub.Same (n + 1) sub') :
    SameWithin (n + 2) (paramsAndBody sub) (paramsAndBody sub') := by
  apply SameWithin.behind
  have params := items_same (SameWithin.refl identifier) (same.rounds.mono (Nat.le_succ _)) .rightParen
  refine .bind (params.mono (Nat.le_succ _)) fun names => ?_
  refine .bind (.refl _) fun _ => ?_
  exact .bind (block_same same) fun body => .refl _

theorem unary_same (same : sub.Same (n + 1) sub') (op : UnaryOp) :
    SameWithin (n + 2) (unary sub op) (unary sub' op) :=
  .advance (.bind (same.expression _) fun _ => .refl _)

theorem parenthesised_same (same : sub.Same (n + 1) sub') :
    SameWithin (n + 2) (parenthesised sub) (parenthesised sub') :=
  .advance (.bind (same.expression _) fun _ => .refl _)

theorem arguments_same (same : sub.Same (n + 1) sub') (close : Symbol) :
    SameWithin (n + 2) (items (sub.expression .lowest) sub.rounds close)
      (items (sub'.expression .lowest) sub'.rounds close) :=
  items_same (same.expression _) (same.rounds.mono (Nat.le_succ _)) close

theorem operand_same (same : sub.Same (n + 1) sub') :
    SameWithin (n + 2) (operand sub) (operand sub') := by
  refine .bind (.refl _) fun token => ?_
  split
  · exact .refl _
  · exact .refl _
  · exact .refl _
  · exact .refl _
  · exact .refl _
  · exact .refl _
  · exact .refl _
  · exact unary_same same .not
  · exact unary_same same .negate
  · exact parenthesised_same same
  · exact .bind (arguments_same same _) fun elements => .refl _
  · exact .bind (hashEntries_same same) fun entries => .refl _
  · exact conditional_same same
  · exact switch_same same
  · exact .bind (guardedBlock_same same) fun clause => .refl _
  · exact forLoop_same same
  · exact .bind (paramsAndBody_same same) fun found => .refl _
  · exact .bind (paramsAndBody_same same) fun found => .refl _
  · exact .refl _
  · exact .refl _

/-- At the end of the text there is no operand, and nothing is read to find that out. -/
theorem operand_atEnd {c : Cursor} (sub : Sub) (last : c.current.lexeme = .endOfText) :
    (operand sub).run c = (none, c.report ⟨c.current.position, .noOperand .endOfText⟩) := by
  obtain ⟨⟨lexeme, position⟩, upcoming, diagnostics⟩ := c
  cases last
  rfl

theorem continuation_same (same : sub.Same (n + 1) sub') (left : Expr) (position : Position) (s : Symbol) :
    SameWithin (n + 2) (continuation sub left position s) (continuation sub' left position s) := by
  unfold continuation
  split
  · exact .bind (arguments_same same _) fun args => .refl _
  · exact .advance (.bind (same.expression _) fun key => .refl _)
  · split
    · exact .refl _
    · exact .advance (.bind (same.expression _) fun right => .refl _)
    · exact .refl _

/-- A round of `extend`. -/
def extendRound (sub : Sub) (level : Level) (again : Expr → Parse Expr) (left : Expr) : Parse Expr := do
  let next ← peek
  if level.looser next.lexeme.level then
    advance
    match next.lexeme with
    | .symbol s =>
      let longer ← continuation sub left next.position s
      again longer
    | _ => drop
  else
    return left

theorem extend_unrolls (sub : Sub) (level : Level) (bound : Nat) :
    extend sub level bound = Nat.repeat (extendRound sub level) bound fun _ => drop :=
  unrolls_of (extend sub level) rfl (fun _ => rfl) bound

theorem extendRound_steps (same : sub.Same (n + 1) sub') (level : Level) :
    StepsWithin (n + 2) (extendRound sub level) (extendRound sub' level) := by
  intro k less again again' agree left c room
  apply run_bind_congr rfl
  intro next c₁ run
  cases run
  split
  · rename_i looser
    obtain ⟨s, isSymbol, _⟩ := Lexeme.symbol_of_looser looser
    have longer := (continuation_same same left c.peek.position s).mono (Nat.le_of_lt less)
    rw [isSymbol]
    exact (longer.bind agree).onward room (room.current_of_peek (by simp [isSymbol]))
  · rfl

theorem extend_terminates (sub : Sub) (level : Level) :
    Terminates (extend sub level) (extendRound sub level) :=
  .of (extend_unrolls sub level) fun n => (extendRound_steps (.refl sub) level).mono (Nat.le_add_right n 2)

/-- A turn of the recursion of `expression`: what is entered again reads the expressions inside. -/
def expressionRound (rounds : Nat) (again : Level → Parse Expr) (level : Level) : Parse Expr := do
  let sub : Sub := ⟨again, rounds⟩
  let left ← operand sub
  extend sub level rounds left

theorem expression_unrolls (rounds depth : Nat) :
    expression rounds depth = Nat.repeat (expressionRound rounds) depth fun _ => drop :=
  unrolls_of (expression rounds) rfl (fun _ => rfl) depth

/-- An expression inside another one stands behind its first token, or behind an operator, so the words run
    out along the recursion too. -/
theorem expressionRound_steps {rounds rounds' : Nat} (ample : Ample n rounds rounds') :
    StepsWithin n (expressionRound rounds) (expressionRound rounds') := by
  intro k less again again' agree level
  cases k with
  | zero =>
      intro c room
      apply run_bind_congr
      · rw [operand_atEnd _ room.atEnd, operand_atEnd _ room.atEnd]
      · intro left c₁ run
        rw [operand_atEnd _ room.atEnd] at run
        cases run
  | succ k =>
      have same : Sub.Same (k + 1) ⟨again, rounds⟩ ⟨again', rounds'⟩ := ⟨agree, ample.mono less⟩
      refine .bind (operand_same same) fun left => ?_
      exact (extendRound_steps same level).cycles (extend_unrolls _ level) (extend_unrolls _ level)
        same.rounds left

theorem expression_terminates (rounds : Nat) : Terminates (expression rounds) (expressionRound rounds) :=
  .of (expression_unrolls rounds) fun _ => expressionRound_steps (.inl rfl)

theorem expression_same {rounds rounds' depth depth' : Nat} (ample : Ample n rounds rounds')
    (ample' : Ample n depth depth') (level : Level) :
    SameWithin n (expression rounds depth level) (expression rounds' depth' level) :=
  (expressionRound_steps ample).cycles (expression_unrolls rounds) (expression_unrolls rounds') ample' level

end Parser

end Quill
