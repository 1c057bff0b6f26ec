/-
Module: Quill.Proofs.Parser.Settling
Layer: Proofs
Purpose: Readers never drop a construct in silence. The bounds on depth and on rounds would do so if they were
  reached, but each level of nesting and each round of a list leaves a token behind, so bounds as large as
  the number of words left are never reached.
Main exports: Parser.Sub.Settles, Parser.simpleStatement_settles, Parser.statementsUntil_settles,
  Parser.operand_settles, Parser.extend_settles, Parser.expression_settles
-/
import Quill.Parser
import Quill.Proofs.Parser.Reading

namespace Quill

theorem Token.lexeme_ne_of_hasKind {t : Token} {k : Kind} (isKind : t.hasKind k = true)
    (other : k ≠ .endOfText) : t.lexeme ≠ .endOfText := by
  intro last
  simp only [Token.hasKind, last, decide_eq_true_eq] at isKind
  exact other isKind.symm

/-- A symbol that is no bracket, step or operator continues nothing. -/
theorem Symbol.level_of_no_operator {s : Symbol} (notParen : s ≠ .leftParen)
    (notBracket : s ≠ .leftBracket) (noStep : s.step? = none) (noBinary : s.binary? = none) :
    s.level = .lowest := by
  cases s <;> first | rfl | contradiction

/-- Only a symbol can bind more tightly than a level, and then not at the lowest level. -/
theorem Lexeme.symbol_of_looser {level : Level} {l : Lexeme} (looser : level.looser l.level = true) :
    ∃ s, l = .symbol s ∧ s.level ≠ .lowest := by
  cases l with
  | symbol s =>
      refine ⟨s, rfl, ?_⟩
      intro lowest
      simp [Level.looser, Lexeme.level, lowest, Level.rank] at looser
  | _ => simp [Level.looser, Lexeme.level, Level.rank] at looser

namespace Parse

variable {α β : Type} {c c' : Cursor} {n : Nat}

theorem Room.reads {p : Parse α} {a : α} (room : Room n c) (reads : p.Reads c a c') : Room n c' :=
  room.precedes reads.precedes

/-- Reading on behind a token that is not the last one takes up room. -/
theorem Room.advances {u : Unit} (room : Room (n + 1) c) (more : c.current.lexeme ≠ .endOfText)
    (reads : Parse.advance.Reads c u c') : Room n c' := by
  rw [reads_advance.1 reads]
  exact room.advance more

/-- An expected symbol takes up room. -/
theorem Room.expects {s : Symbol} {u : Unit} (room : Room (n + 1) c)
    (reads : (expectSymbol s).Reads c u c') : Room n c' := by
  obtain ⟨isSymbol, rfl⟩ := reads_expectSymbol.1 reads
  exact room.advance (room.current_of_peek (Token.lexeme_ne_of_hasKind isSymbol nofun))

/-- An item settles wherever there is room for `n` words. -/
def SettlesWithin (n : Nat) (p : Parse α) : Prop :=
  ∀ c, Room n c → p.Settles c

theorem moreItems_settles {item : Parse α} (rounds : Nat) : ∀ {n c}, SettlesWithin n item →
    n ≤ rounds → Room n c → (moreItems item rounds).Settles c := by
  induction rounds with
  | zero =>
      intro n c _ small room
      exact absurd (Nat.le_zero.1 small) room.pos
  | succ rounds inductionHypothesis =>
      intro n c settles small room
      obtain ⟨k, rfl⟩ := Nat.exists_eq_succ_of_ne_zero room.pos
      refine .bind (.look _ c) fun isComma c₁ looks => ?_
      obtain ⟨isPeek, rfl⟩ := reads_peekIs.1 looks
      cases isComma with
      | false => exact .yield [] c₁
      | true =>
          have more := room.current_of_peek (Token.lexeme_ne_of_hasKind isPeek.symm nofun)
          refine .bind (.advance c₁) fun _ c₂ advances => ?_
          have room₂ := room.advances more advances
          refine .bind (.advance c₂) fun _ c₃ advances' => ?_
          have room₃ := room₂.reads advances'
          refine .bind (settles c₃ (room₃.mono (Nat.le_succ k))) fun first c₄ reads => ?_
          have within : SettlesWithin k item := fun d room' => settles d (room'.mono (Nat.le_succ k))
          refine .bind (inductionHypothesis within (Nat.le_of_succ_le_succ small) (room₃.reads reads)) ?_
          exact fun _ c₅ _ => .yield _ c₅

theorem items_settles {item : Parse α} {rounds : Nat} (close : Symbol) (settles : SettlesWithin n item)
    (small : n ≤ rounds) (room : Room n c.advance) : (items item rounds close).Settles c := by
  refine .bind (.look _ c) fun isClose c₁ looks => ?_
  obtain ⟨_, rfl⟩ := reads_peekIs.1 looks
  cases isClose with
  | true => exact .bind (.advance c₁) fun _ c₂ _ => .yield [] c₂
  | false =>
      refine .bind (.advance c₁) fun _ c₂ advances => ?_
      have room₂ : Room n c₂ := reads_advance.1 advances ▸ room
      refine .bind (settles c₂ room₂) fun first c₃ reads => ?_
      refine .bind (moreItems_settles rounds settles small (room₂.reads reads)) fun rest c₄ _ => ?_
      exact .bind (.expectSymbol close c₄) fun _ c₅ _ => .yield _ c₅

end Parse

namespace Parser

open Parse

variable {sub : Sub} {c c' : Cursor} {n : Nat}

/-- Expressions settle wherever there is room for `n` words, and lists may have that many rounds. -/
structure Sub.Settles (n : Nat) (sub : Sub) : Prop where
  expression : ∀ level, SettlesWithin n (sub.expression level)
  rounds : n < sub.rounds

/-!
### Statements
-/

theorem binding_settles (settles : sub.Settles n) (make : String → Expr → Stmt) (room : Room n c) :
    (binding sub make).Settles c := by
  refine .bind (.expect _ c) fun _ c₁ reads => ?_
  have room₁ := room.reads reads
  refine .bind (.identifier c₁) fun name c₂ reads => ?_
  have room₂ := room₁.reads reads
  refine .bind (.expectSymbol _ c₂) fun _ c₃ reads => ?_
  have room₃ := room₂.reads reads
  refine .bind (.advance c₃) fun _ c₄ reads => ?_
  have room₄ := room₃.reads reads
  exact .bind (settles.expression _ c₄ room₄) fun value c₅ _ => .yield _ c₅

theorem returning_settles (settles : sub.Settles n) (room : Room n c) :
    (returning sub).Settles c := by
  refine .bind (.look _ c) fun next c₁ reads => ?_
  have room₁ := room.reads reads
  split
  · exact .yield _ c₁
  · refine .bind (.advance c₁) fun _ c₂ reads => ?_
    exact .bind (settles.expression _ c₂ (room₁.reads reads)) fun value c₃ _ => .yield _ c₃

theorem assignment_settles (settles : sub.Settles n) (name : String) (room : Room n c) :
    (assignment sub name).Settles c := by
  refine .bind (.advance c) fun _ c₁ reads => ?_
  have room₁ := room.reads reads
  refine .bind (.advance c₁) fun _ c₂ reads => ?_
  exact .bind (settles.expression _ c₂ (room₁.reads reads)) fun value c₃ _ => .yield _ c₃

theorem compoundAssignment_settles (settles : sub.Settles n) (name : String) (op : BinaryOp)
    (room : Room n c) : (compoundAssignment sub name op).Settles c := by
  refine .bind (.advance c) fun _ c₁ reads => ?_
  have room₁ := room.reads reads
  refine .bind (.advance c₁) fun _ c₂ reads => ?_
  exact .bind (settles.expression _ c₂ (room₁.reads reads)) fun value c₃ _ => .yield _ c₃

theorem expressionStatement_settles (settles : sub.Settles n) (room : Room n c) :
    (expressionStatement sub).Settles c :=
  .bind (settles.expression _ c room) fun e c₁ _ => .yield (Stmt.expr e) c₁

theorem namedStatement_settles (settles : sub.Settles n) (name : String) (room : Room n c) :
    (namedStatement sub name).Settles c := by
  refine .bind (.look _ c) fun next c₁ reads => ?_
  have room₁ := room.reads reads
  split
  · exact assignment_settles settles name room₁
  · split
    · exact compoundAssignment_settles settles name _ room₁
    · exact .bind (.advance c₁) fun _ c₂ _ => .yield _ c₂
    · exact expressionStatement_settles settles room₁
  · exact expressionStatement_settles settles room₁

theorem simpleStatement_settles (settles : sub.Settles n) (room : Room n c) :
    (simpleStatement sub).Settles c := by
  refine .bind (.look _ c) fun token c₁ reads => ?_
  have room₁ := room.reads reads
  split
  · exact binding_settles settles _ room₁
  · exact binding_settles settles _ room₁
  · exact returning_settles settles room₁
  · exact namedStatement_settles settles _ room₁
  · exact expressionStatement_settles settles room₁

theorem statement_settles (sub : Sub) (c : Cursor) : (statement sub).Settles c := by
  refine .bind (.look _ c) fun isEmpty c₁ _ => ?_
  cases isEmpty with
  | true => exact .yield none c₁
  | false =>
      refine .bind (.tolerate _ c₁) fun s c₂ _ => ?_
      refine .bind (.look _ c₂) fun isSemicolon c₃ _ => ?_
      cases isSemicolon with
      | true => exact .bind (.advance c₃) fun _ c₄ _ => .yield s c₄
      | false => exact .yield s c₃

/-- The induction is on the rounds: a statement is read from a token that is not the last one, and the
    token behind it is reached before the next round. -/
theorem statementsUntil_settles (closes : Kind → Bool) (rounds : Nat) : ∀ {n c}, n ≤ rounds →
    Room n c → (statementsUntil sub closes rounds).Settles c := by
  induction rounds with
  | zero =>
      intro n c small room
      exact absurd (Nat.le_zero.1 small) room.pos
  | succ rounds inductionHypothesis =>
      intro n c small room
      obtain ⟨k, rfl⟩ := Nat.exists_eq_succ_of_ne_zero room.pos
      refine .bind (.look _ c) fun token c₁ looks => ?_
      obtain ⟨rfl, rfl⟩ := reads_current.1 looks
      split
      · exact .yield [] c₁
      · split
        · exact .unexpected _ _ c₁
        · rename_i notLast
          have more : c₁.current.lexeme ≠ .endOfText := by
            intro last
            exact notLast (by simp [Token.hasKind, last, Lexeme.kind])
          refine .bind (statement_settles sub c₁) fun first c₂ reads => ?_
          refine .bind (.advance c₂) fun _ c₃ advances => ?_
          have room₃ : Room k c₃ := by
            rw [reads_advance.1 advances]
            exact room.advance_behind more reads.precedes
          refine .bind (inductionHypothesis (Nat.le_of_succ_le_succ small) room₃) ?_
          exact fun rest c₄ _ => .yield _ c₄

theorem block_settles (settles : sub.Settles n) (room : Room (n + 1) c) : (block sub).Settles c := by
  apply Settles.bind (.advance c)
  intro _ c₁ reads
  exact statementsUntil_settles _ sub.rounds settles.rounds (room.reads reads)

/-!
### Expressions
-/

/-- The induction is on the rounds: behind each entry stands the closing brace or a comma, so that the
    token before the next entry is never the last one. -/
theorem hashEntries_settles (settles : sub.Settles n) (rounds : Nat) : ∀ {k c}, k ≤ n + 1 → k ≤ rounds →
    Room k c → c.current.lexeme ≠ .endOfText → (hashEntries sub rounds).Settles c := by
  induction rounds with
  | zero =>
      intro k c _ small room
      exact absurd (Nat.le_zero.1 small) room.pos
  | succ rounds inductionHypothesis =>
      intro k c within small room more
      obtain ⟨k, rfl⟩ := Nat.exists_eq_succ_of_ne_zero room.pos
      have within' : k ≤ n := Nat.le_of_succ_le_succ within
      have small' : k ≤ rounds := Nat.le_of_succ_le_succ small
      apply Settles.bind (.look _ c)
      intro isClose c₁ looks
      obtain ⟨_, rfl⟩ := reads_peekIs.1 looks
      cases isClose with
      | true => exact .bind (.advance c₁) fun _ c₂ _ => .yield [] c₂
      | false =>
          apply Settles.bind (.advance c₁)
          intro _ c₂ advances
          have room₂ : Room k c₂ := room.advances more advances
          apply Settles.bind (settles.expression _ c₂ (room₂.mono within'))
          intro key c₃ reads
          have room₃ := room₂.reads reads
          apply Settles.bind (.expectSymbol _ c₃)
          intro _ c₄ expects
          have room₄ := room₃.reads expects
          apply Settles.bind (.advance c₄)
          intro _ c₅ reads
          have room₅ := room₄.reads reads
          apply Settles.bind (settles.expression _ c₅ (room₅.mono within'))
          intro value c₆ reads
          have room₆ := room₅.reads reads
          apply Settles.bind (.look _ c₆)
          intro isClose' c₇ looks'
          obtain ⟨isPeek, rfl⟩ := reads_peekIs.1 looks'
          cases isClose' with
          | true =>
              have more' := room₆.current_of_peek (Token.lexeme_ne_of_hasKind isPeek.symm nofun)
              apply Settles.bind (inductionHypothesis (Nat.le_succ_of_le within') small' room₆ more')
              exact fun rest c₈ _ => .yield _ c₈
          | false =>
              apply Settles.bind (.expectSymbol _ c₇)
              intro _ c₈ expects
              obtain ⟨isComma, rfl⟩ := reads_expectSymbol.1 expects
              have more' := room₆.advance_of_peek (Token.lexeme_ne_of_hasKind isComma nofun)
              apply Settles.bind (inductionHypothesis (Nat.le_succ_of_le within') small' (room₆.reads expects) more')
              exact fun rest c₉ _ => .yield _ c₉

theorem guardedBlock_settles (settles : sub.Settles n) (room : Room (n + 1) c)
    (more : c.current.lexeme ≠ .endOfText) : (guardedBlock sub).Settles c := by
  apply Settles.bind (.advance c)
  intro _ c₁ advances
  have room₁ : Room n c₁ := room.advances more advances
  apply Settles.bind (settles.expression _ c₁ room₁)
  intro guard c₂ reads
  have room₂ := room₁.reads reads
  apply Settles.bind (.expectSymbol _ c₂)
  intro _ c₃ reads
  apply Settles.bind (block_settles settles ((room₂.reads reads).mono (Nat.le_succ n)))
  exact fun body c₄ _ => .yield _ c₄

theorem elseClauses_settles (settles : sub.Settles n) (rounds : Nat) : ∀ {k c}, k ≤ n + 1 → k ≤ rounds →
    Room k c → (elseClauses sub rounds).Settles c := by
  induction rounds with
  | zero =>
      intro k c _ small room
      exact absurd (Nat.le_zero.1 small) room.pos
  | succ rounds inductionHypothesis =>
      intro k c within small room
      obtain ⟨k, rfl⟩ := Nat.exists_eq_succ_of_ne_zero room.pos
      have within' : k ≤ n + 1 := Nat.le_of_succ_le within
      apply Settles.bind (.look _ c)
      intro isElse c₁ looks
      obtain ⟨isPeek, rfl⟩ := reads_peekIs.1 looks
      cases isElse with
      | false => exact .yield _ c₁
      | true =>
          have more := room.current_of_peek (Token.lexeme_ne_of_hasKind isPeek.symm nofun)
          apply Settles.bind (.advance c₁)
          intro _ c₂ advances
          have room₂ : Room k c₂ := room.advances more advances
          apply Settles.bind (.look _ c₂)
          intro isIf c₃ looks'
          obtain ⟨isPeek', rfl⟩ := reads_peekIs.1 looks'
          cases isIf with
          | true =>
              apply Settles.bind (.advance c₃)
              intro _ c₄ reads
              have room₄ := room₂.reads reads
              have more' : c₄.current.lexeme ≠ .endOfText := by
                rw [reads_advance.1 reads]
                exact room₂.advance_of_peek (Token.lexeme_ne_of_hasKind isPeek'.symm nofun)
              apply Settles.bind (guardedBlock_settles settles (room₄.mono within') more')
              intro clause c₅ reads
              have rest := inductionHypothesis within' (Nat.le_of_succ_le_succ small) (room₄.reads reads)
              apply Settles.bind rest
              exact fun others c₆ _ => .yield _ c₆
          | false =>
              apply Settles.bind (.expectSymbol _ c₃)
              intro _ c₄ reads
              apply Settles.bind (block_settles settles ((room₂.reads reads).mono within'))
              exact fun body c₅ _ => .yield _ c₅

theorem conditional_settles (settles : sub.Settles n) (room : Room (n + 1) c)
    (more : c.current.lexeme ≠ .endOfText) : (conditional sub).Settles c := by
  apply Settles.bind (guardedBlock_settles settles room more)
  intro clause c₁ reads
  apply Settles.bind
    (elseClauses_settles settles sub.rounds (Nat.le_refl _) settles.rounds (room.reads reads))
  exact fun others c₂ _ => .yield _ c₂

theorem whileLoop_settles (settles : sub.Settles n) (room : Room (n + 1) c)
    (more : c.current.lexeme ≠ .endOfText) : (whileLoop sub).Settles c := by
  apply Settles.bind (guardedBlock_settles settles room more)
  exact fun clause c₁ _ => .yield _ c₁

theorem forLoop_settles (settles : sub.Settles n) (room : Room (n + 1) c) :
    (forLoop sub).Settles c := by
  apply Settles.bind (.expectSymbol _ c)
  intro _ c₁ expects
  have room₁ : Room n c₁ := room.expects expects
  apply Settles.bind (.advance c₁)
  intro _ c₂ reads
  have room₂ := room₁.reads reads
  apply Settles.bind (simpleStatement_settles settles room₂)
  intro start c₃ reads
  have room₃ := room₂.reads reads
  apply Settles.bind (.expectSymbol _ c₃)
  intro _ c₄ reads
  have room₄ := room₃.reads reads
  apply Settles.bind (.advance c₄)
  intro _ c₅ reads
  have room₅ := room₄.reads reads
  apply Settles.bind (settles.expression _ c₅ room₅)
  intro condition c₆ reads
  have room₆ := room₅.reads reads
  apply Settles.bind (.expectSymbol _ c₆)
  intro _ c₇ reads
  have room₇ := room₆.reads reads
  apply Settles.bind (.advance c₇)
  intro _ c₈ reads
  have room₈ := room₇.reads reads
  apply Settles.bind (simpleStatement_settles settles room₈)
  intro step c₉ reads
  have room₉ := room₈.reads reads
  apply Settles.bind (.expectSymbol _ c₉)
  intro _ c₁₀ reads
  have room₁₀ := room₉.reads reads
  apply Settles.bind (.expectSymbol _ c₁₀)
  intro _ c₁₁ reads
  apply Settles.bind (block_settles settles ((room₁₀.reads reads).mono (Nat.le_succ n)))
  exact fun body c₁₂ _ => .yield _ c₁₂

theorem caseBody_settles (settles : sub.Settles n) (room : Room (n + 1) c) :
    (caseBody sub).Settles c := by
  apply Settles.bind (.expectSymbol _ c)
  intro _ c₁ reads
  have room₁ := room.reads reads
  apply Settles.bind (.advance c₁)
  intro _ c₂ reads
  exact statementsUntil_settles _ sub.rounds settles.rounds (room₁.reads reads)

theorem switchCases_settles (settles : sub.Settles n) (rounds : Nat) : ∀ {k c}, k ≤ n + 1 → k ≤ rounds →
    Room k c → (switchCases sub rounds).Settles c := by
  induction rounds with
  | zero =>
      intro k c _ small room
      exact absurd (Nat.le_zero.1 small) room.pos
  | succ rounds inductionHypothesis =>
      intro k c within small room
      obtain ⟨k, rfl⟩ := Nat.exists_eq_succ_of_ne_zero room.pos
      have within' : k ≤ n := Nat.le_of_succ_le_succ within
      apply Settles.bind (.look _ c)
      intro token c₁ looks
      obtain ⟨rfl, rfl⟩ := reads_current.1 looks
      split
      · rename_i isCase
        apply Settles.bind (.advance c₁)
        intro _ c₂ advances
        have room₂ : Room k c₂ := room.advances (by simp [isCase]) advances
        apply Settles.bind (settles.expression _ c₂ (room₂.mono within'))
        intro value c₃ reads
        have room₃ := room₂.reads reads
        apply Settles.bind (caseBody_settles settles (room₃.mono (Nat.le_succ_of_le within')))
        intro body c₄ reads
        have rest := inductionHypothesis (Nat.le_succ_of_le within') (Nat.le_of_succ_le_succ small)
          (room₃.reads reads)
        apply Settles.bind rest
        exact fun others c₅ _ => .yield _ c₅
      · apply Settles.bind (caseBody_settles settles (room.mono within))
        intro body c₂ reads
        apply Settles.bind (.look _ c₂)
        intro closing c₃ _
        split
        · exact .yield _ c₃
        · exact .unexpected _ _ c₃
      · exact .yield _ c₁
      · exact .unexpected _ _ c₁

theorem switch_settles (settles : sub.Settles n) (room : Room (n + 1) c)
    (more : c.current.lexeme ≠ .endOfText) : (switch sub).Settles c := by
  apply Settles.bind (.advance c)
  intro _ c₁ advances
  have room₁ : Room n c₁ := room.advances more advances
  apply Settles.bind (settles.expression _ c₁ room₁)
  intro subject c₂ reads
  have room₂ := room₁.reads reads
  apply Settles.bind (.expectSymbol _ c₂)
  intro _ c₃ reads
  have room₃ := room₂.reads reads
  apply Settles.bind (.advance c₃)
  intro _ c₄ reads
  have room₄ := room₃.reads reads
  apply Settles.bind
    (switchCases_settles settles sub.rounds (Nat.le_refl _) settles.rounds (room₄.mono (Nat.le_succ n)))
  rintro ⟨cases, otherwise⟩ c₅ _
  by_cases none : cases.isEmpty = true
  · simp only [none, if_true]
    exact .bind (.look _ c₅) fun token c₆ _ => .report _ _ c₆
  · simp only [none, if_false, Bool.false_eq_true]
    exact .yield _ c₅

theorem paramsAndBody_settles (settles : sub.Settles n) (room : Room (n + 1) c) :
    (paramsAndBody sub).Settles c := by
  apply Settles.bind (.expectSymbol _ c)
  intro _ c₁ reads
  have room₁ := room.reads reads
  have params := items_settles .rightParen (fun d _ => Settles.identifier d) settles.rounds
    (room₁.precedes c₁.precedes_advance)
  apply Settles.bind params
  intro names c₂ reads
  have room₂ := room₁.reads reads
  apply Settles.bind (.expectSymbol _ c₂)
  intro _ c₃ reads
  apply Settles.bind (block_settles settles (room₂.reads reads))
  exact fun body c₄ _ => .yield _ c₄

theorem unary_settles (settles : sub.Settles n) (op : UnaryOp) (room : Room (n + 1) c)
    (more : c.current.lexeme ≠ .endOfText) : (unary sub op).Settles c := by
  apply Settles.bind (.advance c)
  intro _ c₁ advances
  apply Settles.bind (settles.expression _ c₁ (room.advances more advances))
  exact fun operand c₂ _ => .yield _ c₂

theorem parenthesised_settles (settles : sub.Settles n) (room : Room (n + 1) c)
    (more : c.current.lexeme ≠ .endOfText) : (parenthesised sub).Settles c := by
  apply Settles.bind (.advance c)
  intro _ c₁ advances
  apply Settles.bind (settles.expression _ c₁ (room.advances more advances))
  intro e c₂ _
  exact .bind (.expectSymbol _ c₂) fun _ c₃ _ => .yield e c₃

/-- Whatever an operand starts with, that token is left behind before a part of it is read. -/
theorem operand_settles (settles : sub.Settles n) (room : Room (n + 1) c) :
    (operand sub).Settles c := by
  have reader := fun level => settles.expression level
  have expressions := fun close (more : c.current.lexeme ≠ .endOfText) =>
    items_settles close (reader .lowest) (Nat.le_of_succ_le settles.rounds) (room.advance more)
  apply Settles.bind (.look _ c)
  intro token c₁ looks
  obtain ⟨rfl, rfl⟩ := reads_current.1 looks
  split
  · exact .yield _ c₁
  · split
    · exact .yield _ c₁
    · exact .report _ _ c₁
  · split
    · exact .yield _ c₁
    · exact .report _ _ c₁
  · exact .yield _ c₁
  · exact .yield _ c₁
  · exact .yield _ c₁
  · exact .yield _ c₁
  all_goals rename_i isFirst
  · exact unary_settles settles .not room (by simp [isFirst])
  · exact unary_settles settles .negate room (by simp [isFirst])
  · exact parenthesised_settles settles room (by simp [isFirst])
  · exact .bind (expressions _ (by simp [isFirst])) fun elements c₂ _ => .yield _ c₂
  · have more : c₁.current.lexeme ≠ .endOfText := by simp [isFirst]
    have entries := hashEntries_settles settles sub.rounds (Nat.le_refl _) settles.rounds room more
    exact .bind entries fun pairs c₂ _ => .yield _ c₂
  · exact conditional_settles settles room (by simp [isFirst])
  · exact switch_settles settles room (by simp [isFirst])
  · exact whileLoop_settles settles room (by simp [isFirst])
  · exact forLoop_settles settles room
  · exact .bind (paramsAndBody_settles settles room) fun found c₂ _ => .yield _ c₂
  · exact .bind (paramsAndBody_settles settles room) fun found c₂ _ => .yield _ c₂
  · exact .report _ _ c₁
  · exact .report _ _ c₁

/-- The current token is the symbol that continues the expression. Only symbols that stand for an operator
    or open a bracket bind more tightly than the lowest level, so nothing is dropped here. -/
theorem continuation_settles (settles : sub.Settles n) (left : Expr) (position : Position) {s : Symbol}
    (tight : s.level ≠ .lowest) (room : Room (n + 1) c) (more : c.current.lexeme ≠ .endOfText) :
    (continuation sub left position s).Settles c := by
  unfold continuation
  split
  · have args := items_settles .rightParen (settles.expression .lowest)
      (Nat.le_of_succ_le settles.rounds) (room.advance more)
    exact .bind args fun found c₁ _ => .yield _ c₁
  · apply Settles.bind (.advance c)
    intro _ c₁ advances
    apply Settles.bind (settles.expression _ c₁ (room.advances more advances))
    intro key c₂ _
    exact .bind (.expectSymbol _ c₂) fun _ c₃ _ => .yield _ c₃
  · split
    · exact .report _ _ c
    · apply Settles.bind (.advance c)
      intro _ c₁ advances
      apply Settles.bind (settles.expression _ c₁ (room.advances more advances))
      exact fun right c₂ _ => .yield _ c₂
    · rename_i notParen notBracket _ _ noStep noBinary
      exact absurd (Symbol.level_of_no_operator notParen notBracket noStep noBinary) tight

/-- The induction is on the rounds: each one leaves a symbol behind. -/
theorem extend_settles (settles : sub.Settles n) (level : Level) (rounds : Nat) : ∀ {k c left},
    k ≤ n + 1 → k ≤ rounds → Room k c → (extend sub level rounds left).Settles c := by
  induction rounds with
  | zero =>
      intro k c left _ small room
      exact absurd (Nat.le_zero.1 small) room.pos
  | succ rounds inductionHypothesis =>
      intro k c left within small room
      obtain ⟨k, rfl⟩ := Nat.exists_eq_succ_of_ne_zero room.pos
      apply Settles.bind (.look _ c)
      intro next c₁ looks
      obtain ⟨rfl, rfl⟩ := reads_peek.1 looks
      split
      · rename_i looser
        have isSymbol : ∃ s, c₁.peek.lexeme = .symbol s ∧ s.level ≠ .lowest :=
          Lexeme.symbol_of_looser looser
        obtain ⟨s, isSymbol, tight⟩ := isSymbol
        have notLast : c₁.peek.lexeme ≠ .endOfText := by simp [isSymbol]
        have more := room.current_of_peek notLast
        apply Settles.bind (.advance c₁)
        intro _ c₂ advances
        have room₂ : Room k c₂ := room.advances more advances
        have more₂ : c₂.current.lexeme ≠ .endOfText := by
          rw [reads_advance.1 advances]
          exact room.advance_of_peek notLast
        rw [isSymbol]
        have within' : k ≤ n + 1 := Nat.le_of_succ_le within
        apply Settles.bind (continuation_settles settles left _ tight (room₂.mono within') more₂)
        intro longer c₃ reads
        exact inductionHypothesis within' (Nat.le_of_succ_le_succ small) (room₂.reads reads)
      · exact .yield _ c₁

/-- Expressions settle if the bounds are as large as the number of words left. -/
theorem expression_settles (rounds depth : Nat) : ∀ {k}, k ≤ depth → k ≤ rounds → ∀ level,
    SettlesWithin k (expression rounds depth level) := by
  induction depth with
  | zero =>
      intro k small _ level c room
      exact absurd (Nat.le_zero.1 small) room.pos
  | succ depth inductionHypothesis =>
      intro k small short level c room
      obtain ⟨n, rfl⟩ := Nat.exists_eq_succ_of_ne_zero room.pos
      have within : n ≤ depth := Nat.le_of_succ_le_succ small
      have settles : Sub.Settles n ⟨expression rounds depth, rounds⟩ :=
        ⟨inductionHypothesis within (Nat.le_of_succ_le short), short⟩
      apply Settles.bind (operand_settles settles room)
      intro left c₁ reads
      exact extend_settles settles level rounds (Nat.le_refl _) short (room.reads reads)

end Parser

end Quill
