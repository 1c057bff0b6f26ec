/-
Module: Quill.Proofs.Parser.Completeness
Layer: Proofs
Purpose: Every phrase of the grammar is read, and as the tree that it derives. The induction is over the
  derivation: each rule is one reader, which finds its parts because they are phrases themselves. An
  expression is not read at once but reached: it is what the loop over operators has read so far when
  the cursor stands before what follows it.
Main exports: Parse.Finds, Parser.Reaches, Phrase.Readable, Derives.readable, Parser.parseTokens_complete
-/
import Quill.Proofs.Grammar.FirstWords
import Quill.Proofs.Parser.Soundness

namespace Quill

namespace Parse

variable {α β : Type} {c : Cursor} {w : Lexeme} {ws : List Lexeme}

/-- Run from `c`, the computation yields `a` without a report, at a cursor of which `goal` holds. -/
def Finds (p : Parse α) (c : Cursor) (a : α) (goal : Cursor → Prop) : Prop :=
  ∃ c', p.Reads c a c' ∧ goal c'

namespace Finds

variable {goal : Cursor → Prop} {b : β}

theorem yield {a : α} (holds : goal c) : (pure a : Parse α).Finds c a goal :=
  ⟨c, reads_pure.2 ⟨rfl, rfl⟩, holds⟩

theorem bind {p : Parse α} {f : α → Parse β} {a : α} {between : Cursor → Prop}
    (first : p.Finds c a between) (next : ∀ c', between c' → (f a).Finds c' b goal) :
    (p >>= f).Finds c b goal := by
  obtain ⟨c₁, reads, holds⟩ := first
  obtain ⟨c₂, reads', holds'⟩ := next c₁ holds
  exact ⟨c₂, reads_bind.2 ⟨a, c₁, reads, reads'⟩, holds'⟩

theorem look {view : Cursor → α} {f : α → Parse β} (next : (f (view c)).Finds c b goal) :
    (look view >>= f).Finds c b goal :=
  bind (a := view c) ⟨c, reads_look.2 ⟨rfl, rfl⟩, rfl⟩ fun _ same => same ▸ next

theorem advance {f : Unit → Parse β} (isAhead : c.ahead = ws) (more : ws ≠ [])
    (next : ∀ c', c'.words = ws → (f ()).Finds c' b goal) : (advance >>= f).Finds c b goal :=
  bind ⟨c.advance, reads_advance.2 rfl, (Cursor.advance_words (isAhead ▸ more)).trans isAhead⟩ next

theorem expect {k : Kind} {f : Unit → Parse β} (isAhead : c.ahead = w :: ws) (isKind : w.kind = k)
    (next : ∀ c', c'.words = w :: ws → (f ()).Finds c' b goal) : (expect k >>= f).Finds c b goal := by
  have isPeek : c.peek.hasKind k = true := by
    simp [Token.hasKind, Cursor.peek_of_ahead isAhead, isKind]
  exact bind ⟨c.advance, reads_expect.2 ⟨isPeek, rfl⟩, (Cursor.advance_of_ahead isAhead).1⟩ next

theorem expectSymbol {s : Symbol} {f : Unit → Parse β} (isAhead : c.ahead = .symbol s :: ws)
    (next : ∀ c', c'.words = .symbol s :: ws → (f ()).Finds c' b goal) :
    (expectSymbol s >>= f).Finds c b goal :=
  expect isAhead rfl next

end Finds

end Parse

theorem Cursor.of_words {c : Cursor} {w : Lexeme} {ws : List Lexeme} (words : c.words = w :: ws) :
    c.current.lexeme = w ∧ c.ahead = ws :=
  List.cons.inj words

/-- What may stand behind an expression may stand behind a tighter one. -/
theorem Level.admits_mono {loose tight next : Level} (le : loose.rank ≤ tight.rank)
    (admits : loose.admits next = true) : tight.admits next = true := by
  simp only [Level.admits, Bool.and_eq_true, decide_eq_true_eq, Bool.not_eq_true', Bool.and_eq_false_imp,
    decide_eq_false_iff_not] at admits ⊢
  obtain ⟨below, notBoth⟩ := admits
  refine ⟨Nat.le_trans below le, ?_⟩
  rintro rfl rfl
  have same : loose = .exponent := by
    cases loose <;> first | rfl | (revert le below; decide)
  exact notBoth same rfl

namespace BinaryOp

variable {level next : Level}

theorem level_rank_le_leftGrade (op : BinaryOp) : op.level.rank ≤ op.leftGrade.rank := by
  cases op <;> simp [level, leftGrade, Level.rank]

theorem leftGrade_admits (op : BinaryOp) : op.leftGrade.admits op.level = true := by
  cases op <;> rfl

theorem looser_of_above_rank_le (op : BinaryOp) (tight : level.above.rank ≤ op.level.rank) :
    level.looser op.level = true := by
  cases op <;> cases level <;> first | rfl | (revert tight; decide)

theorem rightLevel_ne_call (op : BinaryOp) : op.rightLevel ≠ .call := by
  cases op <;> nofun

theorem rightGrade_admits (op : BinaryOp) (admits : op.level.admits next = true) :
    op.rightGrade.admits next = true := by
  cases op <;> cases next <;> first | rfl | (revert admits; decide)

theorem rightLevel_stops (op : BinaryOp) (admits : op.level.admits next = true) :
    op.rightLevel.looser next = false := by
  cases op <;> cases next <;> first | rfl | (revert admits; decide)

end BinaryOp

namespace Parser

open Parse

variable {rounds depth : Nat} {level : Level} {c : Cursor} {e : Expr} {next : Lexeme}
  {ws rest : List Lexeme}

/-- What reads the parts of an expression. -/
def bounded (rounds depth : Nat) : Sub :=
  ⟨expression rounds depth, rounds⟩

/-!
### Reaching an expression
-/

/-- The expression `e` has been read when `rest` lies ahead: whatever the loop makes of it from there on is
    what the reader of expressions yields. -/
def Reaches (rounds depth : Nat) (level : Level) (c : Cursor) (e : Expr) (rest : List Lexeme) : Prop :=
  ∃ r c₁, c₁.ahead = rest ∧ rest.length ≤ r ∧ ∀ found c',
    (extend (bounded rounds depth) level r e).Reads c₁ found c' →
      (expression rounds (depth + 1) level).Reads c found c'

theorem Reaches.operand (finds : (operand (bounded rounds depth)).Finds c e (·.ahead = rest))
    (short : rest.length ≤ rounds) : Reaches rounds depth level c e rest := by
  obtain ⟨c₁, reads, isAhead⟩ := finds
  refine ⟨rounds, c₁, isAhead, short, ?_⟩
  intro found c' reads'
  exact reads_bind.2 ⟨e, c₁, reads, reads'⟩

/-- A symbol that binds more tightly than the level continues an expression that has been reached. -/
theorem Reaches.continued {left : Expr} {s : Symbol} {more : List Lexeme}
    (reached : Reaches rounds depth level c left (.symbol s :: more))
    (looser : level.looser s.level = true) (shorter : rest.length ≤ more.length)
    (finds : ∀ c' position, c'.words = .symbol s :: more →
      (continuation (bounded rounds depth) left position s).Finds c' e (·.ahead = rest)) :
    Reaches rounds depth level c e rest := by
  obtain ⟨r, c₁, isAhead, enough, onward⟩ := reached
  cases r with
  | zero => exact absurd enough (Nat.not_succ_le_zero _)
  | succ r =>
      have isNext : c₁.peek.lexeme = .symbol s := Cursor.peek_of_ahead isAhead
      have words := (Cursor.advance_of_ahead isAhead).1
      obtain ⟨c₂, reads, isAhead₂⟩ := finds c₁.advance c₁.peek.position words
      have enough' : rest.length ≤ r := Nat.le_trans shorter (Nat.le_of_succ_le_succ enough)
      refine ⟨r, c₂, isAhead₂, enough', ?_⟩
      intro found c' reads'
      apply onward
      simp only [extend, reads_bind, reads_peek]
      refine ⟨c₁.peek, c₁, ⟨rfl, rfl⟩, ?_⟩
      have looser' : level.looser (Lexeme.symbol s).level = true := looser
      simp only [isNext, looser', if_true, reads_bind, reads_advance]
      exact ⟨(), _, rfl, e, c₂, reads, reads'⟩

/-- The loop ends before what does not bind more tightly than the level. -/
theorem Reaches.finds (reached : Reaches rounds depth level c e (next :: rest))
    (stops : level.looser next.level = false) :
    (expression rounds (depth + 1) level).Finds c e (·.ahead = next :: rest) := by
  obtain ⟨r, c₁, isAhead, enough, onward⟩ := reached
  cases r with
  | zero => exact absurd enough (Nat.not_succ_le_zero _)
  | succ r =>
      have isNext : c₁.peek.lexeme = next := Cursor.peek_of_ahead isAhead
      refine ⟨c₁, onward e c₁ ?_, isAhead⟩
      simp only [extend, reads_bind, reads_peek]
      refine ⟨c₁.peek, c₁, ⟨rfl, rfl⟩, ?_⟩
      simp [isNext, stops]

/-!
### What each phrase is read as
-/

/-- How the reader of a phrase finds its words: the number of words bounds what it may need, and what
    follows the phrase is nothing that the reader would take in. -/
def Readable : Phrase → List Lexeme → Prop
  | .expression grade e, ws => ∀ {rounds depth level c next rest}, c.words = ws ++ next :: rest →
      ws.length + rest.length < rounds → ws.length ≤ depth + 1 → level ≠ .call →
      level.above.rank ≤ grade.rank → grade.admits next.level = true → next ≠ .keyword .elseWord →
      Reaches rounds depth level c e (next :: rest)
  | .entries pairs, ws => ∀ {rounds depth k c rest}, c.ahead = ws ++ .symbol .rightCurly :: rest →
      ws.length + rest.length < rounds → ws.length ≤ depth → ws.length + rest.length < k →
      (hashEntries (bounded rounds depth) k).Finds c pairs (·.ahead = rest)
  | .block body, ws => ∀ {rounds depth c rest}, c.words = ws ++ rest →
      ws.length + rest.length ≤ rounds → ws.length ≤ depth →
      (block (bounded rounds depth)).Finds c body (·.ahead = rest)
  | .guarded guard body, ws => ∀ {rounds depth c rest}, c.ahead = ws ++ rest →
      ws.length + rest.length ≤ rounds → ws.length ≤ depth →
      (guardedBlock (bounded rounds depth)).Finds c (guard, body) (·.ahead = rest)
  | .elses clauses otherwise, ws => ∀ {rounds depth k c next rest}, c.ahead = ws ++ next :: rest →
      ws.length + rest.length < rounds → ws.length ≤ depth → ws.length + rest.length < k →
      next ≠ .keyword .elseWord →
      (elseClauses (bounded rounds depth) k).Finds c (clauses, otherwise) (·.ahead = next :: rest)
  | .cases cases otherwise, ws => ∀ {rounds depth k c rest},
      c.words = ws ++ .symbol .rightCurly :: rest →
      ws.length + rest.length < rounds → ws.length ≤ depth → ws.length + rest.length < k →
      (switchCases (bounded rounds depth) k).Finds c (cases, otherwise)
        (·.words = .symbol .rightCurly :: rest)
  | .statement next s, ws => ∀ {rounds depth c rest}, c.words = ws ++ next :: rest →
      ws.length + rest.length < rounds → ws.length ≤ depth → next.resumes = false →
      (simpleStatement (bounded rounds depth)).Finds c s (·.ahead = next :: rest)
  | .statements next ss, ws => ∀ {rounds depth k c rest} {closes : Kind → Bool},
      c.words = ws ++ next :: rest → ws.length + rest.length < rounds → ws.length ≤ depth →
      ws.length + rest.length < k → next.resumes = false → closes next.kind = true →
      closes (.symbol .semicolon) = false → (∀ w : Lexeme, w.opens = true → closes w.kind = false) →
      (statementsUntil (bounded rounds depth) closes k).Finds c ss (·.words = next :: rest)
  | .program _, _ => True

/-- An expression is found by a reader whose level stops before what follows. -/
theorem Readable.finds {grade : Level} (readable : Readable (.expression grade e) ws)
    (nonempty : 0 < ws.length) (words : c.words = ws ++ next :: rest)
    (short : ws.length + rest.length < rounds) (deep : ws.length ≤ depth) (notCall : level ≠ .call)
    (tight : level.above.rank ≤ grade.rank) (admits : grade.admits next.level = true)
    (stops : level.looser next.level = false) (noElse : next ≠ .keyword .elseWord) :
    ((bounded rounds depth).expression level).Finds c e (·.ahead = next :: rest) := by
  cases depth with
  | zero => exact absurd deep (Nat.not_le_of_lt nonempty)
  | succ depth =>
      have reached : Reaches rounds depth level c e (next :: rest) :=
        readable words short deep notCall tight admits noElse
      exact reached.finds stops

/-- In most places an expression is read at the lowest level, up to what continues no expression. -/
theorem Readable.lowest (readable : Readable (.expression .logical e) ws) (nonempty : 0 < ws.length)
    (words : c.words = ws ++ next :: rest) (short : ws.length + rest.length < rounds)
    (deep : ws.length ≤ depth) (ends : next.level = .lowest) (noElse : next ≠ .keyword .elseWord) :
    ((bounded rounds depth).expression .lowest).Finds c e (·.ahead = next :: rest) := by
  apply readable.finds nonempty words short deep (by decide) (Nat.le_refl _) _ _ noElse
  · rw [ends]
    rfl
  · rw [ends]
    rfl

/-!
### Statements
-/

section Statements

variable {value : Expr} {name : String}

theorem identifier_finds (isName : c.current.lexeme = .identifier name) :
    identifier.Finds c name (· = c) := by
  apply Finds.look
  simp only [isName]
  exact Finds.yield rfl

theorem binding_finds {make : String → Expr → Stmt} (readable : Readable (.expression .logical value) ws)
    (nonempty : 0 < ws.length)
    (isAhead : c.ahead = .identifier name :: .symbol .assign :: (ws ++ next :: rest))
    (short : ws.length + rest.length < rounds) (deep : ws.length ≤ depth) (ends : next.level = .lowest)
    (noElse : next ≠ .keyword .elseWord) :
    (binding (bounded rounds depth) make).Finds c (make name (value.named name))
      (·.ahead = next :: rest) := by
  apply Finds.expect isAhead rfl
  intro c₁ words₁
  obtain ⟨isName, ahead₁⟩ := Cursor.of_words words₁
  apply Finds.bind (identifier_finds isName)
  rintro _ rfl
  apply Finds.expectSymbol ahead₁
  intro c₂ words₂
  apply Finds.advance (Cursor.of_words words₂).2 (by simp)
  intro c₃ words₃
  apply Finds.bind (readable.lowest nonempty words₃ short deep ends noElse)
  intro c₄ ahead₄
  exact Finds.yield ahead₄

theorem returning_finds (readable : Readable (.expression .logical value) ws)
    (opens : ∃ w more, ws = w :: more ∧ OpensExpression w more) (isAhead : c.ahead = ws ++ next :: rest)
    (short : ws.length + rest.length < rounds) (deep : ws.length ≤ depth) (ends : next.level = .lowest)
    (noElse : next ≠ .keyword .elseWord) :
    (returning (bounded rounds depth)).Finds c (.ret value) (·.ahead = next :: rest) := by
  obtain ⟨w, more, rfl, opens⟩ := opens
  have opens := Lexeme.opens_of_opensExpression opens.opens
  have isNext : c.peek.lexeme = w := Cursor.peek_of_ahead isAhead
  have goesOn : (c.peek.hasKind (.symbol .semicolon) || c.peek.hasKind (.symbol .rightCurly) ||
      c.peek.hasKind .endOfText) = false := by
    have notSemicolon : w ≠ .symbol .semicolon := Lexeme.ne_of_opens opens rfl
    have notBrace : w ≠ .symbol .rightCurly := Lexeme.ne_of_opens opens rfl
    have notEnd : w ≠ .endOfText := Lexeme.ne_of_opens opens rfl
    rw [← Bool.not_eq_true]
    simp [isNext, notSemicolon, notBrace, notEnd]
  apply Finds.look
  simp only [goesOn, Bool.false_eq_true, if_false]
  apply Finds.advance isAhead (by simp)
  intro c₁ words₁
  apply Finds.bind (readable.lowest (Nat.succ_pos _) words₁ short deep ends noElse)
  intro c₂ ahead₂
  exact Finds.yield ahead₂

theorem returning_finds_null (isAhead : c.ahead = next :: rest) (ends : next.endsReturn = true) :
    (returning (bounded rounds depth)).Finds c (.ret .null) (·.ahead = next :: rest) := by
  have isNext : c.peek.lexeme = next := Cursor.peek_of_ahead isAhead
  have stops : (c.peek.hasKind (.symbol .semicolon) || c.peek.hasKind (.symbol .rightCurly) ||
      c.peek.hasKind .endOfText) = true := by
    simpa [Lexeme.endsReturn, isNext, or_assoc] using ends
  apply Finds.look
  simp only [stops, if_true]
  exact Finds.yield isAhead

/-- The value behind the two tokens `name` and `=`, or behind `name` and a compound assignment. -/
theorem assigned_finds (make : Expr → Stmt) {s : Symbol} (readable : Readable (.expression .logical value) ws)
    (nonempty : 0 < ws.length) (isAhead : c.ahead = .symbol s :: (ws ++ next :: rest))
    (short : ws.length + rest.length < rounds) (deep : ws.length ≤ depth) (ends : next.level = .lowest)
    (noElse : next ≠ .keyword .elseWord) :
    (do advance; advance; let value ← (bounded rounds depth).expression .lowest; return make value).Finds c
      (make value) (·.ahead = next :: rest) := by
  apply Finds.advance isAhead (by simp)
  intro c₁ words₁
  apply Finds.advance (Cursor.of_words words₁).2 (by simp)
  intro c₂ words₂
  apply Finds.bind (readable.lowest nonempty words₂ short deep ends noElse)
  intro c₃ ahead₃
  exact Finds.yield ahead₃

theorem expressionStatement_finds (readable : Readable (.expression .logical e) ws) (nonempty : 0 < ws.length)
    (words : c.words = ws ++ next :: rest) (short : ws.length + rest.length < rounds)
    (deep : ws.length ≤ depth) (ends : next.level = .lowest) (noElse : next ≠ .keyword .elseWord) :
    (expressionStatement (bounded rounds depth)).Finds c (.expr e) (·.ahead = next :: rest) := by
  apply Finds.bind (readable.lowest nonempty words short deep ends noElse)
  intro c₁ ahead₁
  exact Finds.yield ahead₁

/-- Behind the name of a statement that is an expression stands nothing that assigns or steps. -/
theorem namedStatement_finds {sub : Sub} {s : Stmt} {goal : Cursor → Prop}
    (assigns : c.peek.lexeme.resumes = false) (found : (expressionStatement sub).Finds c s goal) :
    (namedStatement sub name).Finds c s goal := by
  apply Finds.look
  split
  · rename_i isAssign
    simp [isAssign, Lexeme.resumes] at assigns
  · rename_i s _ isSymbol
    simp only [isSymbol] at assigns
    split
    · rename_i isCompound
      cases s <;> contradiction
    · rename_i isStep
      cases s <;> contradiction
    · exact found
  · exact found

/-- A statement that begins as expressions do is read as one. -/
theorem simpleStatement_finds_expression (readable : Readable (.expression .logical e) ws)
    (opens : ∃ w more, ws = w :: more ∧ OpensExpression w more) (words : c.words = ws ++ next :: rest)
    (short : ws.length + rest.length < rounds) (deep : ws.length ≤ depth) (ends : next.level = .lowest)
    (follows : next.resumes = false) :
    (simpleStatement (bounded rounds depth)).Finds c (.expr e) (·.ahead = next :: rest) := by
  have noElse : next ≠ .keyword .elseWord := by
    rintro rfl
    cases follows
  obtain ⟨w, more, rfl, opens, named⟩ := opens
  have found := expressionStatement_finds readable (Nat.succ_pos _) words short deep ends noElse
  obtain ⟨isFirst, ahead⟩ := Cursor.of_words words
  apply Finds.look
  split
  · rename_i isLet
    rw [isFirst.symm.trans isLet] at opens
    cases opens
  · rename_i isConst
    rw [isFirst.symm.trans isConst] at opens
    cases opens
  · rename_i isReturn
    rw [isFirst.symm.trans isReturn] at opens
    cases opens
  · rename_i name isName
    have isExpression : c.peek.lexeme.resumes = false := by
      rcases named name (isFirst.symm.trans isName) with rfl | ⟨s, others, rfl, tight, noStep⟩
      · rw [Cursor.peek_of_ahead ahead]
        exact follows
      · rw [Cursor.peek_of_ahead ahead]
        cases s <;> first | rfl | contradiction
    exact namedStatement_finds isExpression found
  · exact found

end Statements

/-!
### Sequences of statements
-/

section Sequences

variable {sub : Sub} {s : Stmt} {ss : List Stmt} {closes : Kind → Bool} {goal : Cursor → Prop}

theorem tolerate_finds {α : Type} {p : Parse α} {a : α} (found : p.Finds c a goal) :
    (tolerate p).Finds c (some a) goal := by
  obtain ⟨c', reads, holds⟩ := found
  exact ⟨c', reads_tolerate.2 reads, holds⟩

theorem statement_finds_none (isSemicolon : c.current.lexeme = .symbol .semicolon) :
    (statement sub).Finds c none (·.ahead = c.ahead) := by
  apply Finds.look
  simp only [Token.hasKind_symbol.2 isSemicolon, if_true]
  exact Finds.yield rfl

/-- A statement takes in the semicolon behind it. -/
theorem statement_finds_closed (opens : c.current.lexeme.opens = true)
    (found : (simpleStatement sub).Finds c s (·.ahead = .symbol .semicolon :: rest)) :
    (statement sub).Finds c (some s) (·.ahead = rest) := by
  have notEmpty : c.current.hasKind (.symbol .semicolon) = false := by
    rw [← Bool.not_eq_true, Token.hasKind_symbol]
    exact Lexeme.ne_of_opens opens rfl
  apply Finds.look
  simp only [notEmpty, Bool.false_eq_true, if_false]
  apply Finds.bind (tolerate_finds found)
  intro c₁ ahead₁
  apply Finds.look
  simp only [Token.hasKind_symbol.2 (Cursor.peek_of_ahead ahead₁), if_true]
  apply Finds.advance ahead₁ (by simp)
  intro c₂ words₂
  exact Finds.yield (Cursor.of_words words₂).2

theorem statement_finds_open (opens : c.current.lexeme.opens = true)
    (found : (simpleStatement sub).Finds c s (·.ahead = next :: rest))
    (isOpen : next ≠ .symbol .semicolon) : (statement sub).Finds c (some s) (·.ahead = next :: rest) := by
  have notEmpty : c.current.hasKind (.symbol .semicolon) = false := by
    rw [← Bool.not_eq_true, Token.hasKind_symbol]
    exact Lexeme.ne_of_opens opens rfl
  apply Finds.look
  simp only [notEmpty, Bool.false_eq_true, if_false]
  apply Finds.bind (tolerate_finds found)
  intro c₁ ahead₁
  have notClosed : c₁.peek.hasKind (.symbol .semicolon) = false := by
    rw [← Bool.not_eq_true, Token.hasKind_symbol, Cursor.peek_of_ahead ahead₁]
    exact isOpen
  apply Finds.look
  simp only [notClosed, Bool.false_eq_true, if_false]
  exact Finds.yield ahead₁

theorem statementsUntil_finds_end {k : Nat} (isClosed : closes c.current.lexeme.kind = true) (holds : goal c) :
    (statementsUntil sub closes (k + 1)).Finds c [] goal := by
  apply Finds.look
  simp only [isClosed, if_true]
  exact Finds.yield holds

/-- One round of the loop over statements. -/
theorem statementsUntil_finds_round {k : Nat} (s? : Option Stmt) (isOpen : closes c.current.lexeme.kind = false)
    (more : c.current.lexeme ≠ .endOfText) (first : (statement sub).Finds c s? (·.ahead = ws))
    (nonempty : ws ≠ [])
    (others : ∀ c', c'.words = ws → (statementsUntil sub closes k).Finds c' ss goal) :
    (statementsUntil sub closes (k + 1)).Finds c (s?.toList ++ ss) goal := by
  have notLast : c.current.hasKind .endOfText = false := by
    rw [← Bool.not_eq_true, Token.hasKind_endOfText]
    exact more
  apply Finds.look
  simp only [isOpen, notLast, Bool.false_eq_true, if_false]
  apply Finds.bind first
  intro c₁ ahead₁
  apply Finds.advance ahead₁ nonempty
  intro c₂ words₂
  apply Finds.bind (others c₂ words₂)
  intro c₃ holds
  exact Finds.yield holds

theorem Readable.noStatements (next : Lexeme) : Readable (.statements next []) [] := by
  intro rounds depth k c rest closes words _ _ enough _ isClosed _ _
  cases k with
  | zero => exact absurd enough (Nat.not_lt_zero _)
  | succ k => exact statementsUntil_finds_end ((Cursor.of_words words).1 ▸ isClosed) words

theorem Readable.semicolon (others : Readable (.statements next ss) ws) :
    Readable (.statements next ss) (.symbol .semicolon :: ws) := by
  intro rounds depth k c rest closes words short deep enough follows isClosed noSemicolon opens
  obtain ⟨isSemicolon, ahead⟩ := Cursor.of_words words
  simp only [List.length_cons] at short deep enough
  cases k with
  | zero => exact absurd enough (Nat.not_lt_zero _)
  | succ k =>
      have first : (statement (bounded rounds depth)).Finds c none (·.ahead = c.ahead) :=
        statement_finds_none isSemicolon
      rw [ahead] at first
      apply statementsUntil_finds_round none (isSemicolon ▸ noSemicolon) (by simp [isSemicolon])
        first (by simp)
      intro c₁ words₁
      exact others words₁ (by omega) (by omega) (by omega) follows isClosed noSemicolon opens

theorem Readable.closed {w₁ w₂ : List Lexeme} (begins : ∃ w more, w₁ = w :: more ∧ w.opens = true)
    (first : Readable (.statement (.symbol .semicolon) s) w₁)
    (others : Readable (.statements next ss) w₂) :
    Readable (.statements next (s :: ss)) (w₁ ++ .symbol .semicolon :: w₂) := by
  intro rounds depth k c rest closes words short deep enough follows isClosed noSemicolon opens
  obtain ⟨w, more, rfl, isFirst⟩ := begins
  replace words : c.words = w :: more ++ .symbol .semicolon :: (w₂ ++ next :: rest) := by simp [words]
  simp only [List.length_append, List.length_cons] at short deep enough
  have isCurrent : c.current.lexeme.opens = true := (Cursor.of_words words).1 ▸ isFirst
  cases k with
  | zero => exact absurd enough (Nat.not_lt_zero _)
  | succ k =>
      have found : (simpleStatement (bounded rounds depth)).Finds c s
          (·.ahead = .symbol .semicolon :: (w₂ ++ next :: rest)) := by
        apply first words
        · simp only [List.length_append, List.length_cons]
          omega
        · simp only [List.length_cons]
          omega
        · rfl
      apply statementsUntil_finds_round (some s) (opens _ isCurrent)
        (Lexeme.ne_of_opens isCurrent rfl) (statement_finds_closed isCurrent found) (by simp)
      intro c₁ words₁
      exact others words₁ (by omega) (by omega) (by omega) follows isClosed noSemicolon opens

theorem Readable.unclosed {w₁ w₂ : List Lexeme} (begins : ∃ w more, w₁ = w :: more ∧ w.opens = true)
    (beginsOthers : ∀ w more, w₂ = w :: more → w = .symbol .semicolon ∨ w.opens = true)
    (isOpen : w₂.headD next ≠ .symbol .semicolon)
    (first : Readable (.statement (w₂.headD next) s) w₁) (others : Readable (.statements next ss) w₂) :
    Readable (.statements next (s :: ss)) (w₁ ++ w₂) := by
  intro rounds depth k c rest closes words short deep enough follows isClosed noSemicolon opens
  obtain ⟨w, more, rfl, isFirst⟩ := begins
  rw [List.append_assoc] at words
  simp only [List.length_append, List.length_cons] at short deep enough
  have isCurrent : c.current.lexeme.opens = true := (Cursor.of_words words).1 ▸ isFirst
  obtain ⟨tail, behind, size⟩ : ∃ tail, w₂ ++ next :: rest = w₂.headD next :: tail ∧
      tail.length = w₂.length + rest.length := by
    cases w₂ with
    | nil => exact ⟨rest, rfl, by simp⟩
    | cons v vs => exact ⟨vs ++ next :: rest, rfl, by simp; omega⟩
  have follows' : (w₂.headD next).resumes = false := by
    cases w₂ with
    | nil => exact follows
    | cons v vs =>
        rcases beginsOthers v vs rfl with rfl | isFirst
        · rfl
        · exact Lexeme.resumes_of_opens isFirst
  cases k with
  | zero => exact absurd enough (Nat.not_lt_zero _)
  | succ k =>
      have found : (simpleStatement (bounded rounds depth)).Finds c s
          (·.ahead = w₂.headD next :: tail) := by
        apply first (behind ▸ words)
        · simp only [List.length_cons]
          omega
        · simp only [List.length_cons]
          omega
        · exact follows'
      apply statementsUntil_finds_round (some s) (opens _ isCurrent)
        (Lexeme.ne_of_opens isCurrent rfl) (statement_finds_open isCurrent found isOpen) (by simp)
      intro c₁ words₁
      exact others (words₁.trans behind.symm) (by omega) (by omega) (by omega) follows isClosed noSemicolon
        opens

end Sequences

/-!
### Lists
-/

section Lists

variable {α : Type} {item : Parse α} {close : Symbol} {size : Nat}

/-- An item is found from its words on, before a comma and before the symbol that closes the list, and its
    first word is not that symbol. -/
structure ItemFound (item : Parse α) (close : Symbol) (size : Nat) (one : α × List Lexeme) : Prop where
  begins : ∃ w more, one.2 = w :: more ∧ w ≠ .symbol close
  finds : ∀ {c next rest}, c.words = one.2 ++ next :: rest → next = .symbol .comma ∨ next = .symbol close →
    one.2.length + rest.length < size → item.Finds c one.1 (·.ahead = next :: rest)

/-- The words of the further items of a list. -/
def furtherWords (found : List (α × List Lexeme)) : List Lexeme :=
  (found.map Prod.snd).flatMap fun other => .symbol .comma :: other

theorem furtherWords_cons (one : α × List Lexeme) (others : List (α × List Lexeme)) :
    furtherWords (one :: others) = .symbol .comma :: (one.2 ++ furtherWords others) := by
  simp [furtherWords]

/-- Behind an item stands a comma or what closes the list. -/
theorem furtherWords_next (found : List (α × List Lexeme)) (close : Symbol) (rest : List Lexeme) :
    ∃ next tail, furtherWords found ++ .symbol close :: rest = next :: tail ∧
      (next = .symbol .comma ∨ next = .symbol close) ∧
      tail.length = (furtherWords found).length + rest.length := by
  cases found with
  | nil => exact ⟨_, _, rfl, .inr rfl, by simp [furtherWords]⟩
  | cons one others =>
      rw [furtherWords_cons]
      exact ⟨_, _, rfl, .inl rfl, by simp; omega⟩

theorem moreItems_finds (found : List (α × List Lexeme)) (notComma : close ≠ .comma) :
    ∀ {k c rest}, (∀ one ∈ found, ItemFound item close size one) →
    c.ahead = furtherWords found ++ .symbol close :: rest →
    (furtherWords found).length + rest.length < size → (furtherWords found).length + rest.length < k →
    (moreItems item k).Finds c (found.map Prod.fst) (·.ahead = .symbol close :: rest) := by
  induction found with
  | nil =>
      intro k c rest _ isAhead _ enough
      cases k with
      | zero => exact absurd enough (Nat.not_lt_zero _)
      | succ k =>
          have notNext : c.peek.hasKind (.symbol .comma) = false := by
            rw [← Bool.not_eq_true, Token.hasKind_symbol, Cursor.peek_of_ahead isAhead]
            simp [notComma]
          apply Finds.look
          simp only [notNext, Bool.false_eq_true, if_false]
          exact Finds.yield isAhead
  | cons one others inductionHypothesis =>
      intro k c rest each isAhead short enough
      rw [furtherWords_cons] at isAhead short enough
      simp only [List.cons_append, List.append_assoc, List.length_cons, List.length_append]
        at isAhead short enough
      obtain ⟨next, tail, behind, isNext, length⟩ := furtherWords_next others close rest
      cases k with
      | zero => exact absurd enough (Nat.not_lt_zero _)
      | succ k =>
          apply Finds.look
          simp only [Token.hasKind_symbol.2 (Cursor.peek_of_ahead isAhead), if_true]
          apply Finds.advance isAhead (by simp)
          intro c₁ words₁
          apply Finds.advance (Cursor.of_words words₁).2 (by simp)
          intro c₂ words₂
          rw [behind] at words₂
          apply Finds.bind ((each one List.mem_cons_self).finds words₂ isNext (by omega))
          intro c₃ ahead₃
          rw [← behind] at ahead₃
          have further : (moreItems item k).Finds c₃ (others.map Prod.fst)
              (·.ahead = .symbol close :: rest) := by
            apply inductionHypothesis _ ahead₃ (by omega) (by omega)
            exact fun other member => each other (List.mem_cons_of_mem one member)
          apply Finds.bind further
          intro c₄ ahead₄
          exact Finds.yield ahead₄

theorem items_finds (found : List (α × List Lexeme)) {k : Nat} (notComma : close ≠ .comma)
    (each : ∀ one ∈ found, ItemFound item close size one)
    (isAhead : c.ahead = separated (found.map Prod.snd) ++ .symbol close :: rest)
    (short : (separated (found.map Prod.snd)).length + rest.length < size)
    (enough : (separated (found.map Prod.snd)).length + rest.length < k) :
    (items item k close).Finds c (found.map Prod.fst) (·.ahead = rest) := by
  cases found with
  | nil =>
      apply Finds.look
      simp only [Token.hasKind_symbol.2 (Cursor.peek_of_ahead isAhead), if_true]
      apply Finds.advance isAhead (by simp)
      intro c₁ words₁
      exact Finds.yield (Cursor.of_words words₁).2
  | cons one others =>
      have whole : separated ((one :: others).map Prod.snd) = one.2 ++ furtherWords others := by
        simp [separated, furtherWords]
      rw [whole] at isAhead short enough
      rw [List.append_assoc] at isAhead
      simp only [List.length_append] at short enough
      obtain ⟨next, tail, behind, isNext, length⟩ := furtherWords_next others close rest
      obtain ⟨⟨w, more, isOne, notClose⟩, finds⟩ := each one List.mem_cons_self
      have notNext : c.peek.hasKind (.symbol close) = false := by
        rw [isOne] at isAhead
        rw [← Bool.not_eq_true, Token.hasKind_symbol, Cursor.peek_of_ahead isAhead]
        exact notClose
      apply Finds.look
      simp only [notNext, Bool.false_eq_true, if_false]
      apply Finds.advance isAhead (by simp)
      intro c₁ words₁
      rw [behind] at words₁
      apply Finds.bind (finds words₁ isNext (by omega))
      intro c₂ ahead₂
      rw [← behind] at ahead₂
      apply Finds.bind (moreItems_finds others notComma
        (fun other member => each other (List.mem_cons_of_mem one member)) ahead₂ (by omega) (by omega))
      intro c₃ ahead₃
      apply Finds.expectSymbol ahead₃
      intro c₄ words₄
      exact Finds.yield (Cursor.of_words words₄).2

theorem length_le_separated (found : List (α × List Lexeme)) : ∀ one ∈ found,
    one.2.length ≤ (separated (found.map Prod.snd)).length := by
  intro one member
  cases found with
  | nil => cases member
  | cons first others =>
      simp only [List.map_cons, separated, List.length_append]
      rcases List.mem_cons.1 member with rfl | member
      · exact Nat.le_add_right _ _
      · have isSublist := List.sublist_flatten_of_mem (List.mem_map_of_mem (f := fun other : List Lexeme =>
          Lexeme.symbol .comma :: other) (List.mem_map_of_mem (f := Prod.snd) member))
        have le := isSublist.length_le
        simp only [List.length_cons, ← List.flatMap_def] at le
        omega

/-- Expressions are found as items of a list. -/
theorem expressions_found {found : List (Expr × List Lexeme)} (closes : close = .rightParen ∨ close = .rightBracket)
    (derives : ∀ one ∈ found, Derives (.expression .logical one.1) one.2)
    (readable : ∀ one ∈ found, Readable (.expression .logical one.1) one.2)
    (deep : (separated (found.map Prod.snd)).length ≤ depth) :
    ∀ one ∈ found, ItemFound ((bounded rounds depth).expression .lowest) close rounds one := by
  intro one member
  constructor
  · obtain ⟨w, more, isOne, opens⟩ := (derives one member).opensExpression
    refine ⟨w, more, isOne, ?_⟩
    apply Lexeme.ne_of_opens (Lexeme.opens_of_opensExpression opens.opens)
    rcases closes with rfl | rfl <;> rfl
  · intro c next rest words isNext short
    have deep' := Nat.le_trans (length_le_separated found one member) deep
    apply Readable.lowest (readable one member) (derives one member).length_pos words short deep'
    · rcases isNext with rfl | rfl
      · rfl
      · rcases closes with rfl | rfl <;> rfl
    · rcases isNext with rfl | rfl <;> nofun

end Lists

/-!
### Parts of expressions
-/

section Parts

variable {guard key value : Expr} {body : Block} {clauses : List (Expr × Block)}
  {otherwise : Option Block} {pairs : List (Expr × Expr)} {w₁ w₂ w₃ : List Lexeme}

theorem Readable.block (inner : Readable (.statements (.symbol .rightCurly) body) ws) :
    Readable (.block body) (.symbol .leftCurly :: ws ++ [.symbol .rightCurly]) := by
  intro rounds depth c rest words short deep
  simp only [List.length_append, List.length_cons, List.length_nil] at short deep
  replace words : c.words = .symbol .leftCurly :: (ws ++ .symbol .rightCurly :: rest) := by simp [words]
  apply Finds.advance (Cursor.of_words words).2 (by simp)
  intro c₁ words₁
  have found : (statementsUntil (bounded rounds depth) (· = .symbol .rightCurly) rounds).Finds c₁ body
      (·.words = .symbol .rightCurly :: rest) := by
    apply inner words₁ (by omega) (by omega) (by omega) rfl rfl rfl
    intro w opens
    cases w with
    | symbol s => cases s <;> first | rfl | contradiction
    | _ => rfl
  obtain ⟨c₂, reads, words₂⟩ := found
  exact ⟨c₂, reads, (Cursor.of_words words₂).2⟩

theorem Readable.noEntries : Readable (.entries []) [] := by
  intro rounds depth k c rest isAhead _ _ enough
  cases k with
  | zero => exact absurd enough (Nat.not_lt_zero _)
  | succ k =>
      apply Finds.look
      simp only [Token.hasKind_symbol.2 (Cursor.peek_of_ahead isAhead), if_true]
      apply Finds.advance isAhead (by simp)
      intro c₁ words₁
      exact Finds.yield (Cursor.of_words words₁).2

/-- One round of the loop over the entries of a hash: the entry before what follows it. -/
theorem hashEntries_finds_round {k : Nat} {others : List (Expr × Expr)} {goal : Cursor → Prop}
    (keyDerives : Derives (.expression .logical key) w₁) (keyReadable : Readable (.expression .logical key) w₁)
    (valueDerives : Derives (.expression .logical value) w₂)
    (valueReadable : Readable (.expression .logical value) w₂)
    (isAhead : c.ahead = w₁ ++ .symbol .colon :: (w₂ ++ next :: rest))
    (isNext : next = .symbol .comma ∨ next = .symbol .rightCurly)
    (short : w₁.length + w₂.length + rest.length + 1 < rounds) (deep : w₁.length + w₂.length ≤ depth)
    (further : ∀ c', c'.ahead = next :: rest → (do
      if !(← peekIs (.symbol .rightCurly)) then
        expectSymbol .comma
      let rest ← hashEntries (bounded rounds depth) k
      return (key, value) :: rest : Parse _).Finds c' others goal) :
    (hashEntries (bounded rounds depth) (k + 1)).Finds c others goal := by
  obtain ⟨w, more, isKey, opens⟩ := keyDerives.opensExpression
  have notClose : c.peek.hasKind (.symbol .rightCurly) = false := by
    rw [isKey] at isAhead
    rw [← Bool.not_eq_true, Token.hasKind_symbol, Cursor.peek_of_ahead isAhead]
    exact Lexeme.ne_of_opens (Lexeme.opens_of_opensExpression opens.opens) rfl
  apply Finds.look
  simp only [notClose, Bool.false_eq_true, if_false]
  apply Finds.advance isAhead (by simp)
  intro c₁ words₁
  apply Finds.bind
    (keyReadable.lowest keyDerives.length_pos words₁ (by simp; omega) (by omega) rfl nofun)
  intro c₂ ahead₂
  apply Finds.expectSymbol ahead₂
  intro c₃ words₃
  apply Finds.advance (Cursor.of_words words₃).2 (by simp)
  intro c₄ words₄
  have ends : next.level = .lowest := by rcases isNext with rfl | rfl <;> rfl
  have noElse : next ≠ .keyword .elseWord := by rcases isNext with rfl | rfl <;> nofun
  apply Finds.bind (valueReadable.lowest valueDerives.length_pos words₄ (by omega) (by omega) ends noElse)
  intro c₅ ahead₅
  exact further c₅ ahead₅

theorem Readable.lastEntry (keyDerives : Derives (.expression .logical key) w₁)
    (keyReadable : Readable (.expression .logical key) w₁)
    (valueDerives : Derives (.expression .logical value) w₂)
    (valueReadable : Readable (.expression .logical value) w₂) :
    Readable (.entries [(key, value)]) (w₁ ++ .symbol .colon :: w₂) := by
  intro rounds depth k c rest isAhead short deep enough
  simp only [List.length_append, List.length_cons] at short deep enough
  have nonempty := keyDerives.length_pos
  cases k with
  | zero => exact absurd enough (Nat.not_lt_zero _)
  | succ k =>
      replace isAhead : c.ahead = w₁ ++ .symbol .colon :: (w₂ ++ .symbol .rightCurly :: rest) := by
        simp [isAhead]
      apply hashEntries_finds_round keyDerives keyReadable valueDerives valueReadable isAhead (.inr rfl)
        (by omega) (by omega)
      intro c' ahead'
      apply Finds.look
      simp only [Token.hasKind_symbol.2 (Cursor.peek_of_ahead ahead'), Bool.not_true, Bool.false_eq_true,
        if_false]
      apply Finds.bind (Readable.noEntries ahead' (by simp; omega) (Nat.zero_le _) (by simp; omega))
      intro c'' ahead''
      exact Finds.yield ahead''

theorem Readable.moreEntries (keyDerives : Derives (.expression .logical key) w₁)
    (keyReadable : Readable (.expression .logical key) w₁)
    (valueDerives : Derives (.expression .logical value) w₂)
    (valueReadable : Readable (.expression .logical value) w₂) (others : Readable (.entries pairs) w₃) :
    Readable (.entries ((key, value) :: pairs)) (w₁ ++ .symbol .colon :: w₂ ++ .symbol .comma :: w₃) := by
  intro rounds depth k c rest isAhead short deep enough
  simp only [List.length_append, List.length_cons] at short deep enough
  cases k with
  | zero => exact absurd enough (Nat.not_lt_zero _)
  | succ k =>
      replace isAhead : c.ahead = w₁ ++ .symbol .colon :: (w₂ ++ .symbol .comma ::
          (w₃ ++ .symbol .rightCurly :: rest)) := by simp [isAhead]
      apply hashEntries_finds_round keyDerives keyReadable valueDerives valueReadable isAhead (.inl rfl)
        (by simp; omega) (by omega)
      intro c' ahead'
      have notClose : c'.peek.hasKind (.symbol .rightCurly) = false := by
        rw [← Bool.not_eq_true, Token.hasKind_symbol, Cursor.peek_of_ahead ahead']
        nofun
      apply Finds.look
      simp only [notClose, Bool.not_false, if_true]
      apply Finds.expectSymbol ahead'
      intro c'' words''
      apply Finds.bind (others (Cursor.of_words words'').2 (by omega) (by omega) (by omega))
      intro c₃ ahead₃
      exact Finds.yield ahead₃

theorem Readable.guarded (guardDerives : Derives (.expression .logical guard) w₁)
    (guardReadable : Readable (.expression .logical guard) w₁)
    (begins : ∃ more, w₂ = .symbol .leftCurly :: more) (bodyReadable : Readable (.block body) w₂) :
    Readable (.guarded guard body) (w₁ ++ w₂) := by
  intro rounds depth c rest isAhead short deep
  obtain ⟨more, rfl⟩ := begins
  simp only [List.length_append, List.length_cons] at short deep
  rw [List.append_assoc] at isAhead
  apply Finds.advance isAhead (by simp)
  intro c₁ words₁
  apply Finds.bind
    (guardReadable.lowest guardDerives.length_pos words₁ (by simp; omega) (by omega) rfl nofun)
  intro c₂ ahead₂
  apply Finds.expectSymbol ahead₂
  intro c₃ words₃
  apply Finds.bind (bodyReadable words₃ (by simp; omega) (by simp; omega))
  intro c₄ ahead₄
  exact Finds.yield ahead₄

theorem Readable.noElse : Readable (.elses [] none) [] := by
  intro rounds depth k c next rest isAhead _ _ enough noElse
  cases k with
  | zero => exact absurd enough (Nat.not_lt_zero _)
  | succ k =>
      have notNext : c.peek.hasKind (.keyword .elseWord) = false := by
        rw [← Bool.not_eq_true, Token.hasKind_keyword, Cursor.peek_of_ahead isAhead]
        exact noElse
      apply Finds.look
      simp only [notNext, Bool.false_eq_true, if_false]
      exact Finds.yield isAhead

theorem Readable.elseBlock (begins : ∃ more, ws = .symbol .leftCurly :: more)
    (bodyReadable : Readable (.block body) ws) :
    Readable (.elses [] (some body)) (.keyword .elseWord :: ws) := by
  intro rounds depth k c next rest isAhead short deep enough _
  obtain ⟨more, rfl⟩ := begins
  simp only [List.length_cons] at short deep enough
  cases k with
  | zero => exact absurd enough (Nat.not_lt_zero _)
  | succ k =>
      apply Finds.look
      simp only [Token.hasKind_keyword.2 (Cursor.peek_of_ahead isAhead), if_true]
      apply Finds.advance isAhead (by simp)
      intro c₁ words₁
      have ahead₁ := (Cursor.of_words words₁).2
      have notIf : c₁.peek.hasKind (.keyword .ifWord) = false := by
        rw [← Bool.not_eq_true, Token.hasKind_keyword, Cursor.peek_of_ahead ahead₁]
        nofun
      apply Finds.look
      simp only [notIf, Bool.false_eq_true, if_false]
      apply Finds.expectSymbol ahead₁
      intro c₂ words₂
      apply Finds.bind (bodyReadable words₂ (by simp; omega) (by simp; omega))
      intro c₃ ahead₃
      exact Finds.yield ahead₃

theorem Readable.elseIf (clause : Readable (.guarded guard body) w₁)
    (elses : Readable (.elses clauses otherwise) w₂) :
    Readable (.elses ((guard, body) :: clauses) otherwise)
      (.keyword .elseWord :: .keyword .ifWord :: w₁ ++ w₂) := by
  intro rounds depth k c next rest isAhead short deep enough noElse
  simp only [List.length_cons, List.length_append] at short deep enough
  replace isAhead : c.ahead = .keyword .elseWord :: .keyword .ifWord :: (w₁ ++ (w₂ ++ next :: rest)) := by
    simp [isAhead]
  cases k with
  | zero => exact absurd enough (Nat.not_lt_zero _)
  | succ k =>
      apply Finds.look
      simp only [Token.hasKind_keyword.2 (Cursor.peek_of_ahead isAhead), if_true]
      apply Finds.advance isAhead (by simp)
      intro c₁ words₁
      have ahead₁ := (Cursor.of_words words₁).2
      apply Finds.look
      simp only [Token.hasKind_keyword.2 (Cursor.peek_of_ahead ahead₁), if_true]
      apply Finds.advance ahead₁ (by simp)
      intro c₂ words₂
      apply Finds.bind (clause (Cursor.of_words words₂).2 (by simp; omega) (by omega))
      intro c₃ ahead₃
      apply Finds.bind (elses ahead₃ (by omega) (by omega) (by omega) noElse)
      intro c₄ ahead₄
      exact Finds.yield ahead₄

end Parts

/-!
### Switches and loops
-/

section Switches

variable {value subject condition : Expr} {body : Block} {cases : List (Expr × Block)}
  {otherwise : Option Block} {start step : Stmt} {w₁ w₂ w₃ w₄ : List Lexeme}

theorem caseBody_finds (readable : Readable (.statements next body) ws)
    (isAhead : c.ahead = .symbol .colon :: (ws ++ next :: rest)) (short : ws.length + rest.length < rounds)
    (deep : ws.length ≤ depth) (closes : closesCase next.kind = true) :
    (caseBody (bounded rounds depth)).Finds c body (·.words = next :: rest) := by
  have follows : next.resumes = false := by
    cases next with
    | symbol s => cases s <;> first | rfl | contradiction
    | keyword k => cases k <;> first | rfl | contradiction
    | _ => rfl
  apply Finds.expectSymbol isAhead
  intro c₁ words₁
  apply Finds.advance (Cursor.of_words words₁).2 (by simp)
  intro c₂ words₂
  apply readable words₂ short deep short follows closes rfl
  intro w opens
  cases w with
  | symbol s => cases s <;> first | rfl | contradiction
  | keyword k => cases k <;> first | rfl | contradiction
  | _ => rfl

theorem Readable.noCase : Readable (.cases [] none) [] := by
  intro rounds depth k c rest words _ _ enough
  cases k with
  | zero => exact absurd enough (Nat.not_lt_zero _)
  | succ k =>
      apply Finds.look
      simp only [(Cursor.of_words words).1]
      exact Finds.yield words

theorem Readable.defaultCase (inner : Readable (.statements (.symbol .rightCurly) body) ws) :
    Readable (.cases [] (some body)) (.keyword .defaultWord :: .symbol .colon :: ws) := by
  intro rounds depth k c rest words short deep enough
  simp only [List.length_cons] at short deep enough
  obtain ⟨isDefault, isAhead⟩ := Cursor.of_words words
  cases k with
  | zero => exact absurd enough (Nat.not_lt_zero _)
  | succ k =>
      apply Finds.look
      simp only [isDefault]
      apply Finds.bind (caseBody_finds inner isAhead (by omega) (by omega) rfl)
      intro c₁ words₁
      apply Finds.look
      simp only [Token.hasKind_symbol.2 (Cursor.of_words words₁).1, if_true]
      exact Finds.yield words₁

/-- What follows the statements of a case is the next case or the closing brace. -/
theorem Readable.moreCases (valueDerives : Derives (.expression .logical value) w₁)
    (valueReadable : Readable (.expression .logical value) w₁)
    (bodyReadable : Readable (.statements (w₃.headD (.symbol .rightCurly)) body) w₂)
    (closes : closesCase (w₃.headD (.symbol .rightCurly)).kind = true)
    (others : Readable (.cases cases otherwise) w₃) :
    Readable (.cases ((value, body) :: cases) otherwise)
      (.keyword .caseWord :: w₁ ++ .symbol .colon :: w₂ ++ w₃) := by
  intro rounds depth k c rest words short deep enough
  simp only [List.length_append, List.length_cons] at short deep enough
  obtain ⟨tail, behind, size⟩ : ∃ tail, w₃ ++ .symbol .rightCurly :: rest =
      w₃.headD (.symbol .rightCurly) :: tail ∧ tail.length = w₃.length + rest.length := by
    cases w₃ with
    | nil => exact ⟨rest, rfl, by simp⟩
    | cons v vs => exact ⟨vs ++ .symbol .rightCurly :: rest, rfl, by simp; omega⟩
  replace words : c.words = .keyword .caseWord :: (w₁ ++ .symbol .colon :: (w₂ ++
      w₃.headD (.symbol .rightCurly) :: tail)) := by
    rw [words, ← behind]
    simp
  obtain ⟨isCase, isAhead⟩ := Cursor.of_words words
  cases k with
  | zero => exact absurd enough (Nat.not_lt_zero _)
  | succ k =>
      apply Finds.look
      simp only [isCase]
      apply Finds.advance isAhead (by simp)
      intro c₁ words₁
      apply Finds.bind
        (valueReadable.lowest valueDerives.length_pos words₁ (by simp; omega) (by omega) rfl nofun)
      intro c₂ ahead₂
      apply Finds.bind (caseBody_finds bodyReadable ahead₂ (by omega) (by omega) closes)
      intro c₃ words₃
      rw [← behind] at words₃
      apply Finds.bind (others words₃ (by omega) (by omega) (by omega))
      intro c₄ words₄
      exact Finds.yield words₄

theorem switch_finds {first : Expr × Block} (subjectDerives : Derives (.expression .logical subject) w₁)
    (subjectReadable : Readable (.expression .logical subject) w₁)
    (casesReadable : Readable (.cases (first :: cases) otherwise) w₂)
    (isAhead : c.ahead = w₁ ++ .symbol .leftCurly :: (w₂ ++ .symbol .rightCurly :: rest))
    (short : w₁.length + w₂.length + rest.length + 2 < rounds) (deep : w₁.length + w₂.length ≤ depth) :
    (switch (bounded rounds depth)).Finds c (.switch subject (first :: cases) otherwise)
      (·.ahead = rest) := by
  apply Finds.advance isAhead (by simp)
  intro c₁ words₁
  apply Finds.bind
    (subjectReadable.lowest subjectDerives.length_pos words₁ (by simp; omega) (by omega) rfl nofun)
  intro c₂ ahead₂
  apply Finds.expectSymbol ahead₂
  intro c₃ words₃
  apply Finds.advance (Cursor.of_words words₃).2 (by simp)
  intro c₄ words₄
  have enough : w₂.length + rest.length < (bounded rounds depth).rounds := by
    show _ < rounds
    omega
  apply Finds.bind (casesReadable words₄ (by omega) (by omega) enough)
  intro c₅ words₅
  exact Finds.yield (Cursor.of_words words₅).2

theorem forLoop_finds (startReadable : Readable (.statement (.symbol .semicolon) start) w₁)
    (conditionDerives : Derives (.expression .logical condition) w₂)
    (conditionReadable : Readable (.expression .logical condition) w₂)
    (stepReadable : Readable (.statement (.symbol .rightParen) step) w₃)
    (begins : ∃ more, w₄ = .symbol .leftCurly :: more) (bodyReadable : Readable (.block body) w₄)
    (isAhead : c.ahead = .symbol .leftParen :: (w₁ ++ .symbol .semicolon :: (w₂ ++
      .symbol .semicolon :: (w₃ ++ .symbol .rightParen :: (w₄ ++ rest)))))
    (short : w₁.length + w₂.length + w₃.length + w₄.length + rest.length + 3 < rounds)
    (deep : w₁.length + w₂.length + w₃.length + w₄.length ≤ depth) :
    (forLoop (bounded rounds depth)).Finds c (.forLoop start condition step body) (·.ahead = rest) := by
  obtain ⟨more, rfl⟩ := begins
  apply Finds.expectSymbol isAhead
  intro c₁ words₁
  apply Finds.advance (Cursor.of_words words₁).2 (by simp)
  intro c₂ words₂
  apply Finds.bind (startReadable words₂ (by simp at short ⊢; omega) (by omega) rfl)
  intro c₃ ahead₃
  apply Finds.expectSymbol ahead₃
  intro c₄ words₄
  apply Finds.advance (Cursor.of_words words₄).2 (by simp)
  intro c₅ words₅
  apply Finds.bind (conditionReadable.lowest conditionDerives.length_pos words₅ (by simp at short ⊢; omega)
    (by omega) rfl nofun)
  intro c₆ ahead₆
  apply Finds.expectSymbol ahead₆
  intro c₇ words₇
  apply Finds.advance (Cursor.of_words words₇).2 (by simp)
  intro c₈ words₈
  apply Finds.bind (stepReadable words₈ (by simp at short ⊢; omega) (by omega) rfl)
  intro c₉ ahead₉
  apply Finds.expectSymbol ahead₉
  intro c₁₀ words₁₀
  apply Finds.expectSymbol (Cursor.of_words words₁₀).2
  intro c₁₁ words₁₁
  apply Finds.bind (bodyReadable words₁₁ (by simp at short ⊢; omega) (by omega))
  intro c₁₂ ahead₁₂
  exact Finds.yield ahead₁₂

/-- Names are found as items of a list, each of one word. -/
theorem params_find (params : List String) {k : Nat}
    (isAhead : c.ahead = separatedNames params ++ .symbol .rightParen :: rest)
    (enough : (separatedNames params).length + rest.length < k) :
    (items identifier k .rightParen).Finds c params (·.ahead = rest) := by
  let named : List (String × List Lexeme) := params.map fun name => (name, [.identifier name])
  have names : separatedNames params = separated (named.map Prod.snd) := by
    simp [named, separatedNames, Function.comp_def]
  have same : named.map Prod.fst = params := by simp [named, Function.comp_def]
  have found : ∀ one ∈ named, ItemFound identifier .rightParen k one := by
    intro one member
    obtain ⟨name, _, rfl⟩ := List.mem_map.1 member
    constructor
    · exact ⟨_, _, rfl, (by simp)⟩
    · intro c next rest words _ _
      obtain ⟨isName, isAhead⟩ := Cursor.of_words words
      obtain ⟨c', reads, rfl⟩ := identifier_finds isName
      exact ⟨c', reads, isAhead⟩
  rw [names] at isAhead enough
  have items := items_finds named (by decide) found isAhead enough enough
  rwa [same] at items

/-- The parameters and the body of a function or macro literal. -/
theorem paramsAndBody_finds (params : List String) (begins : ∃ more, ws = .symbol .leftCurly :: more)
    (bodyReadable : Readable (.block body) ws)
    (isAhead : c.ahead = .symbol .leftParen :: (separatedNames params ++ .symbol .rightParen :: (ws ++ rest)))
    (short : (separatedNames params).length + ws.length + rest.length + 1 < rounds)
    (deep : ws.length ≤ depth) :
    (paramsAndBody (bounded rounds depth)).Finds c (params, body) (·.ahead = rest) := by
  obtain ⟨more, rfl⟩ := begins
  apply Finds.expectSymbol isAhead
  intro c₁ words₁
  have enough : (separatedNames params).length + (.symbol .leftCurly :: more ++ rest).length <
      (bounded rounds depth).rounds := by
    show _ < rounds
    simp at short ⊢
    omega
  apply Finds.bind (params_find params (Cursor.of_words words₁).2 enough)
  intro c₂ ahead₂
  apply Finds.expectSymbol ahead₂
  intro c₃ words₃
  apply Finds.bind (bodyReadable words₃ (by omega) deep)
  intro c₄ ahead₄
  exact Finds.yield ahead₄

end Switches

/-!
### Expressions
-/

section Expressions

variable {grade : Level} {left right callee subject key : Expr} {w : Lexeme} {w₁ w₂ : List Lexeme}

/-- A primary expression is an operand, so it is reached as soon as it has been read. -/
theorem Readable.primary (finds : ∀ {rounds depth c next rest}, c.current.lexeme = w →
    c.ahead = ws ++ next :: rest → ws.length + rest.length + 1 < rounds → ws.length ≤ depth →
    next ≠ .keyword .elseWord → (operand (bounded rounds depth)).Finds c e (·.ahead = next :: rest)) :
    Readable (.expression .call e) (w :: ws) := by
  intro rounds depth level c next rest words short deep _ _ _ noElse
  simp only [List.length_cons] at short deep
  obtain ⟨isFirst, isAhead⟩ := Cursor.of_words words
  apply Reaches.operand (finds isFirst isAhead (by omega) (Nat.le_of_succ_le_succ deep) noElse)
  simp
  omega

/-- An expression of one word. -/
theorem Readable.word (yields : ∀ {sub c}, c.current.lexeme = w → (operand sub).Finds c e (· = c)) :
    Readable (.expression .call e) [w] := by
  apply Readable.primary
  intro rounds depth c next rest isFirst isAhead _ _ _
  obtain ⟨c', reads, rfl⟩ := yields isFirst
  exact ⟨c', reads, isAhead⟩

theorem Readable.ident (name : String) : Readable (.expression .call (.ident name)) [.identifier name] := by
  apply Readable.word
  intro sub c isFirst
  apply Finds.look
  simp only [isFirst]
  exact Finds.yield rfl

theorem Readable.integer {digits : String} {n : Int64} (spelled : Decimal.readInteger? digits = some n) :
    Readable (.expression .call (.integer n)) [.integer digits] := by
  apply Readable.word
  intro sub c isFirst
  apply Finds.look
  simp only [isFirst, spelled]
  exact Finds.yield rfl

theorem Readable.float {digits : String} {x : Float} (spelled : Decimal.readFloat? digits = some x) :
    Readable (.expression .call (.float x)) [.decimal digits] := by
  apply Readable.word
  intro sub c isFirst
  apply Finds.look
  simp only [isFirst, spelled]
  exact Finds.yield rfl

theorem Readable.text (content : String) : Readable (.expression .call (.text content)) [.quoted content] := by
  apply Readable.word
  intro sub c isFirst
  apply Finds.look
  simp only [isFirst]
  exact Finds.yield rfl

theorem Readable.trueWord : Readable (.expression .call (.boolean true)) [.keyword .trueWord] := by
  apply Readable.word
  intro sub c isFirst
  apply Finds.look
  simp only [isFirst]
  exact Finds.yield rfl

theorem Readable.falseWord : Readable (.expression .call (.boolean false)) [.keyword .falseWord] := by
  apply Readable.word
  intro sub c isFirst
  apply Finds.look
  simp only [isFirst]
  exact Finds.yield rfl

theorem Readable.null : Readable (.expression .call .null) [.keyword .nullWord] := by
  apply Readable.word
  intro sub c isFirst
  apply Finds.look
  simp only [isFirst]
  exact Finds.yield rfl

theorem Readable.parenthesised (derives : Derives (.expression .logical e) ws)
    (inner : Readable (.expression .logical e) ws) :
    Readable (.expression .call e) (.symbol .leftParen :: ws ++ [.symbol .rightParen]) := by
  rw [List.cons_append]
  apply Readable.primary
  intro rounds depth c next rest isFirst isAhead short deep _
  simp only [List.length_append, List.length_cons, List.length_nil] at short deep
  replace isAhead : c.ahead = ws ++ .symbol .rightParen :: next :: rest := by simp [isAhead]
  apply Finds.look
  simp only [isFirst]
  apply Finds.advance isAhead (by simp)
  intro c₁ words₁
  apply Finds.bind (inner.lowest derives.length_pos words₁ (by simp; omega) (by omega) rfl nofun)
  intro c₂ ahead₂
  apply Finds.expectSymbol ahead₂
  intro c₃ words₃
  exact Finds.yield (Cursor.of_words words₃).2

/-- Expressions with commas between them, up to the symbol that closes the list. -/
theorem expressions_find {found : List (Expr × List Lexeme)} {close : Symbol}
    (closes : close = .rightParen ∨ close = .rightBracket)
    (derives : ∀ one ∈ found, Derives (.expression .logical one.1) one.2)
    (readable : ∀ one ∈ found, Readable (.expression .logical one.1) one.2)
    (isAhead : c.ahead = separated (found.map Prod.snd) ++ .symbol close :: rest)
    (short : (separated (found.map Prod.snd)).length + rest.length < rounds)
    (deep : (separated (found.map Prod.snd)).length ≤ depth) :
    (items ((bounded rounds depth).expression .lowest) (bounded rounds depth).rounds close).Finds c
      (found.map Prod.fst) (·.ahead = rest) := by
  have notComma : close ≠ .comma := by rcases closes with rfl | rfl <;> nofun
  exact items_finds found notComma (expressions_found closes derives readable deep) isAhead short short

theorem Readable.array {items : List (Expr × List Lexeme)}
    (derives : ∀ item ∈ items, Derives (.expression .logical item.1) item.2)
    (readable : ∀ item ∈ items, Readable (.expression .logical item.1) item.2) :
    Readable (.expression .call (.array (items.map Prod.fst)))
      (.symbol .leftBracket :: separated (items.map Prod.snd) ++ [.symbol .rightBracket]) := by
  rw [List.cons_append]
  apply Readable.primary
  intro rounds depth c next rest isFirst isAhead short deep _
  simp only [List.length_append, List.length_cons, List.length_nil] at short deep
  replace isAhead : c.ahead = separated (items.map Prod.snd) ++ .symbol .rightBracket :: next :: rest := by
    simp [isAhead]
  apply Finds.look
  simp only [isFirst]
  apply Finds.bind
    (expressions_find (.inr rfl) derives readable isAhead (by simp; omega) (by omega))
  intro c₁ ahead₁
  exact Finds.yield ahead₁

theorem Readable.hash {pairs : List (Expr × Expr)} (inner : Readable (.entries pairs) ws) :
    Readable (.expression .call (.hash pairs)) (.symbol .leftCurly :: ws ++ [.symbol .rightCurly]) := by
  rw [List.cons_append]
  apply Readable.primary
  intro rounds depth c next rest isFirst isAhead short deep _
  simp only [List.length_append, List.length_cons, List.length_nil] at short deep
  replace isAhead : c.ahead = ws ++ .symbol .rightCurly :: next :: rest := by simp [isAhead]
  have enough : ws.length + (next :: rest).length < (bounded rounds depth).rounds := by
    show _ < rounds
    simp
    omega
  apply Finds.look
  simp only [isFirst]
  apply Finds.bind (inner isAhead enough (by omega) enough)
  intro c₁ ahead₁
  exact Finds.yield ahead₁

theorem Readable.conditional {guard : Expr} {body : Block} {clauses : List (Expr × Block)}
    {otherwise : Option Block} (clause : Readable (.guarded guard body) w₁)
    (elses : Readable (.elses clauses otherwise) w₂) :
    Readable (.expression .call (.conditional ((guard, body) :: clauses) otherwise))
      (.keyword .ifWord :: w₁ ++ w₂) := by
  rw [List.cons_append]
  apply Readable.primary
  intro rounds depth c next rest isFirst isAhead short deep noElse
  simp only [List.length_append] at short deep
  rw [List.append_assoc] at isAhead
  have enough : w₂.length + rest.length < (bounded rounds depth).rounds := by
    show _ < rounds
    omega
  apply Finds.look
  simp only [isFirst]
  apply Finds.bind (clause isAhead (by simp; omega) (by omega))
  intro c₁ ahead₁
  apply Finds.bind (elses ahead₁ enough (by omega) enough noElse)
  intro c₂ ahead₂
  exact Finds.yield ahead₂

theorem Readable.whileLoop {condition : Expr} {body : Block} (clause : Readable (.guarded condition body) ws) :
    Readable (.expression .call (.whileLoop condition body)) (.keyword .whileWord :: ws) := by
  apply Readable.primary
  intro rounds depth c next rest isFirst isAhead short deep _
  apply Finds.look
  simp only [isFirst]
  apply Finds.bind (clause isAhead (by simp; omega) deep)
  intro c₁ ahead₁
  exact Finds.yield ahead₁

theorem Readable.function {params : List String} {body : Block}
    (begins : ∃ more, ws = .symbol .leftCurly :: more) (bodyReadable : Readable (.block body) ws) :
    Readable (.expression .call (.function none params body))
      (.keyword .fnWord :: .symbol .leftParen :: separatedNames params ++ .symbol .rightParen :: ws) := by
  rw [List.cons_append]
  apply Readable.primary
  intro rounds depth c next rest isFirst isAhead short deep _
  simp only [List.length_append, List.length_cons] at short deep
  replace isAhead : c.ahead = .symbol .leftParen :: (separatedNames params ++ .symbol .rightParen ::
      (ws ++ next :: rest)) := by simp [isAhead]
  apply Finds.look
  simp only [isFirst]
  apply Finds.bind (paramsAndBody_finds params begins bodyReadable isAhead (by simp; omega) (by omega))
  intro c₁ ahead₁
  exact Finds.yield ahead₁

theorem Readable.macroLiteral {params : List String} {body : Block}
    (begins : ∃ more, ws = .symbol .leftCurly :: more) (bodyReadable : Readable (.block body) ws) :
    Readable (.expression .call (.macroLiteral params body))
      (.keyword .macroWord :: .symbol .leftParen :: separatedNames params ++ .symbol .rightParen :: ws) := by
  rw [List.cons_append]
  apply Readable.primary
  intro rounds depth c next rest isFirst isAhead short deep _
  simp only [List.length_append, List.length_cons] at short deep
  replace isAhead : c.ahead = .symbol .leftParen :: (separatedNames params ++ .symbol .rightParen ::
      (ws ++ next :: rest)) := by simp [isAhead]
  apply Finds.look
  simp only [isFirst]
  apply Finds.bind (paramsAndBody_finds params begins bodyReadable isAhead (by simp; omega) (by omega))
  intro c₁ ahead₁
  exact Finds.yield ahead₁

theorem Readable.switch {first : Expr × Block} {others : List (Expr × Block)} {otherwise : Option Block}
    (subjectDerives : Derives (.expression .logical subject) w₁)
    (subjectReadable : Readable (.expression .logical subject) w₁)
    (casesReadable : Readable (.cases (first :: others) otherwise) w₂) :
    Readable (.expression .call (.switch subject (first :: others) otherwise))
      (.keyword .switchWord :: w₁ ++ .symbol .leftCurly :: w₂ ++ [.symbol .rightCurly]) := by
  rw [List.append_assoc, List.cons_append]
  apply Readable.primary
  intro rounds depth c next rest isFirst isAhead short deep _
  simp only [List.length_append, List.length_cons, List.length_nil] at short deep
  replace isAhead : c.ahead = w₁ ++ .symbol .leftCurly :: (w₂ ++ .symbol .rightCurly :: next :: rest) := by
    simp [isAhead]
  apply Finds.look
  simp only [isFirst]
  exact switch_finds subjectDerives subjectReadable casesReadable isAhead (by simp; omega) (by omega)

theorem Readable.forLoop {start step : Stmt} {condition : Expr} {body : Block} {w₃ w₄ : List Lexeme}
    (startReadable : Readable (.statement (.symbol .semicolon) start) w₁)
    (conditionDerives : Derives (.expression .logical condition) w₂)
    (conditionReadable : Readable (.expression .logical condition) w₂)
    (stepReadable : Readable (.statement (.symbol .rightParen) step) w₃)
    (begins : ∃ more, w₄ = .symbol .leftCurly :: more) (bodyReadable : Readable (.block body) w₄) :
    Readable (.expression .call (.forLoop start condition step body))
      (.keyword .forWord :: .symbol .leftParen :: w₁ ++ .symbol .semicolon :: w₂ ++
        .symbol .semicolon :: w₃ ++ .symbol .rightParen :: w₄) := by
  rw [List.append_assoc, List.append_assoc, List.cons_append]
  apply Readable.primary
  intro rounds depth c next rest isFirst isAhead short deep _
  simp only [List.length_append, List.length_cons] at short deep
  replace isAhead : c.ahead = .symbol .leftParen :: (w₁ ++ .symbol .semicolon :: (w₂ ++
      .symbol .semicolon :: (w₃ ++ .symbol .rightParen :: (w₄ ++ next :: rest)))) := by simp [isAhead]
  apply Finds.look
  simp only [isFirst]
  exact forLoop_finds startReadable conditionDerives conditionReadable stepReadable begins bodyReadable
    isAhead (by simp; omega) (by omega)

theorem continuation_binary (sub : Sub) (left : Expr) (position : Position) (op : BinaryOp) :
    continuation sub left position op.symbol = (do
      advance
      let right ← sub.expression op.rightLevel
      return .binary op left right) := by
  cases op <;> rfl

/-- Calls and indexing continue whatever has been reached at a level below them. -/
theorem looser_call (notCall : level ≠ .call) : level.looser .call = true := by
  cases level <;> first | rfl | contradiction

theorem call_admits (next : Level) : Level.call.admits next = true := by
  cases next <;> rfl

theorem Readable.call {args : List (Expr × List Lexeme)} (calleeReadable : Readable (.expression .call callee) w₁)
    (derives : ∀ arg ∈ args, Derives (.expression .logical arg.1) arg.2)
    (readable : ∀ arg ∈ args, Readable (.expression .logical arg.1) arg.2) :
    Readable (.expression .call (.call callee (args.map Prod.fst)))
      (w₁ ++ .symbol .leftParen :: separated (args.map Prod.snd) ++ [.symbol .rightParen]) := by
  intro rounds depth level c next rest words short deep notCall tight admits noElse
  simp only [List.length_append, List.length_cons, List.length_nil] at short deep
  replace words : c.words = w₁ ++ .symbol .leftParen :: (separated (args.map Prod.snd) ++
      .symbol .rightParen :: next :: rest) := by simp [words]
  apply Reaches.continued (calleeReadable words (by simp; omega) (by omega) notCall tight (call_admits _) nofun)
    (looser_call notCall) (by simp; omega)
  intro c₁ position words₁
  apply Finds.bind (expressions_find (.inl rfl) derives readable (Cursor.of_words words₁).2
    (by simp; omega) (by omega))
  intro c₂ ahead₂
  exact Finds.yield ahead₂

theorem Readable.index (subjectReadable : Readable (.expression .call subject) w₁)
    (keyDerives : Derives (.expression .logical key) w₂) (keyReadable : Readable (.expression .logical key) w₂) :
    Readable (.expression .call (.index subject key))
      (w₁ ++ .symbol .leftBracket :: w₂ ++ [.symbol .rightBracket]) := by
  intro rounds depth level c next rest words short deep notCall tight admits noElse
  simp only [List.length_append, List.length_cons, List.length_nil] at short deep
  replace words : c.words = w₁ ++ .symbol .leftBracket :: (w₂ ++ .symbol .rightBracket :: next :: rest) := by
    simp [words]
  apply Reaches.continued (subjectReadable words (by simp; omega) (by omega) notCall tight (call_admits _) nofun)
    (looser_call notCall) (by simp; omega)
  intro c₁ position words₁
  apply Finds.advance (Cursor.of_words words₁).2 (by simp)
  intro c₂ words₂
  apply Finds.bind (keyReadable.lowest keyDerives.length_pos words₂ (by simp; omega) (by omega) rfl nofun)
  intro c₃ ahead₃
  apply Finds.expectSymbol ahead₃
  intro c₄ words₄
  exact Finds.yield (Cursor.of_words words₄).2

/-- The operand of a prefix operator is read up to what binds less tightly than calls. -/
theorem Readable.unary (op : UnaryOp) (derives : Derives (.expression .unary e) ws)
    (readable : Readable (.expression .unary e) ws) :
    Readable (.expression .unary (.unary op e)) (.symbol op.symbol :: ws) := by
  intro rounds depth level c next rest words short deep _ _ admits noElse
  simp only [List.length_cons] at short deep
  obtain ⟨isFirst, isAhead⟩ : c.current.lexeme = .symbol op.symbol ∧ c.ahead = ws ++ next :: rest :=
    Cursor.of_words words
  have stops : Level.unary.looser next.level = false := by
    cases isLevel : next.level <;> simp [isLevel, Level.admits, Level.rank, Level.looser] at admits ⊢
  have found : (Parser.unary (bounded rounds depth) op).Finds c (.unary op e) (·.ahead = next :: rest) := by
    apply Finds.advance isAhead (by simp)
    intro c₁ words₁
    apply Finds.bind (readable.finds derives.length_pos words₁ (by omega) (by omega) (by decide)
      (Nat.le_refl _) admits stops noElse)
    intro c₂ ahead₂
    exact Finds.yield ahead₂
  apply Reaches.operand _ (by simp; omega)
  apply Finds.look
  cases op with
  | not =>
      simp only [isFirst, UnaryOp.symbol]
      exact found
  | negate =>
      simp only [isFirst, UnaryOp.symbol]
      exact found

/-- The left operand is reached at the level of the whole; the right operand is found above the level of
    the operator. -/
theorem Readable.binary (op : BinaryOp) (leftDerives : Derives (.expression op.leftGrade left) w₁)
    (leftReadable : Readable (.expression op.leftGrade left) w₁)
    (rightDerives : Derives (.expression op.rightGrade right) w₂)
    (rightReadable : Readable (.expression op.rightGrade right) w₂) :
    Readable (.expression op.level (.binary op left right)) (w₁ ++ .symbol op.symbol :: w₂) := by
  intro rounds depth level c next rest words short deep notCall tight admits noElse
  simp only [List.length_append, List.length_cons] at short deep
  have nonempty := leftDerives.length_pos
  replace words : c.words = w₁ ++ .symbol op.symbol :: (w₂ ++ next :: rest) := by simp [words]
  have symbolLevel : (Lexeme.symbol op.symbol).level = op.level := by cases op <;> rfl
  have reached : Reaches rounds depth level c left (.symbol op.symbol :: (w₂ ++ next :: rest)) := by
    apply leftReadable words (by simp; omega) (by omega) notCall (Nat.le_trans tight op.level_rank_le_leftGrade)
    · rw [symbolLevel]
      exact op.leftGrade_admits
    · nofun
  have looser : level.looser op.symbol.level = true := by
    have symbolLevel' : op.symbol.level = op.level := symbolLevel
    rw [symbolLevel']
    exact op.looser_of_above_rank_le tight
  apply reached.continued looser (by simp)
  intro c₁ position words₁
  rw [continuation_binary]
  apply Finds.advance (Cursor.of_words words₁).2 (by simp)
  intro c₂ words₂
  apply Finds.bind (rightReadable.finds rightDerives.length_pos words₂ (by omega) (by omega)
    op.rightLevel_ne_call (Nat.le_of_eq (congrArg Level.rank op.rightLevel_above))
    (op.rightGrade_admits admits) (op.rightLevel_stops admits) noElse)
  intro c₃ ahead₃
  exact Finds.yield ahead₃

end Expressions

/-!
### Simple statements
-/

section SimpleStatements

variable {value : Expr} {name : String}

theorem ne_else_of_not_resumes (follows : next.resumes = false) : next ≠ .keyword .elseWord := by
  rintro rfl
  cases follows

theorem Readable.bind (derives : Derives (.expression .logical value) ws)
    (readable : Readable (.expression .logical value) ws) (ends : next.level = .lowest) :
    Readable (.statement next (.bind name (value.named name)))
      (.keyword .letWord :: .identifier name :: .symbol .assign :: ws) := by
  intro rounds depth c rest words short deep follows
  simp only [List.length_cons] at short deep
  obtain ⟨isFirst, isAhead⟩ := Cursor.of_words words
  apply Finds.look
  simp only [isFirst]
  exact binding_finds readable derives.length_pos isAhead (by omega) (by omega) ends
    (ne_else_of_not_resumes follows)

theorem Readable.bindConst (derives : Derives (.expression .logical value) ws)
    (readable : Readable (.expression .logical value) ws) (ends : next.level = .lowest) :
    Readable (.statement next (.bindConst name (value.named name)))
      (.keyword .constWord :: .identifier name :: .symbol .assign :: ws) := by
  intro rounds depth c rest words short deep follows
  simp only [List.length_cons] at short deep
  obtain ⟨isFirst, isAhead⟩ := Cursor.of_words words
  apply Finds.look
  simp only [isFirst]
  exact binding_finds readable derives.length_pos isAhead (by omega) (by omega) ends
    (ne_else_of_not_resumes follows)

theorem Readable.assign (derives : Derives (.expression .logical value) ws)
    (readable : Readable (.expression .logical value) ws) (ends : next.level = .lowest) :
    Readable (.statement next (.assign name (value.named name)))
      (.identifier name :: .symbol .assign :: ws) := by
  intro rounds depth c rest words short deep follows
  simp only [List.length_cons] at short deep
  obtain ⟨isFirst, isAhead⟩ := Cursor.of_words words
  apply Finds.look
  simp only [isFirst]
  apply Finds.look
  simp only [Cursor.peek_of_ahead isAhead]
  exact assigned_finds (fun value => .assign name (value.named name)) readable derives.length_pos
    isAhead (by omega) (by omega) ends (ne_else_of_not_resumes follows)

theorem Readable.compound {s : Symbol} {op : BinaryOp} (isCompound : s.compound? = some op)
    (derives : Derives (.expression .logical value) ws) (readable : Readable (.expression .logical value) ws)
    (ends : next.level = .lowest) :
    Readable (.statement next (.assign name (.binary op (.ident name) value)))
      (.identifier name :: .symbol s :: ws) := by
  intro rounds depth c rest words short deep follows
  simp only [List.length_cons] at short deep
  obtain ⟨isFirst, isAhead⟩ := Cursor.of_words words
  have found : (compoundAssignment (bounded rounds depth) name op).Finds c
      (.assign name (.binary op (.ident name) value)) (·.ahead = next :: rest) :=
    assigned_finds (fun value => .assign name (.binary op (.ident name) value)) readable
      derives.length_pos isAhead (by omega) (by omega) ends (ne_else_of_not_resumes follows)
  apply Finds.look
  simp only [isFirst]
  apply Finds.look
  simp only [Cursor.peek_of_ahead isAhead]
  cases s <;> cases isCompound <;> exact found

theorem Readable.step {s : Symbol} {op : BinaryOp} (isStep : s.step? = some op) :
    Readable (.statement next (.assign name (.binary op (.ident name) (.integer 1))))
      [.identifier name, .symbol s] := by
  intro rounds depth c rest words _ _ _
  obtain ⟨isFirst, isAhead⟩ := Cursor.of_words words
  have found : (stepping name op).Finds c (.assign name (.binary op (.ident name) (.integer 1)))
      (·.ahead = next :: rest) := by
    apply Finds.advance isAhead (by simp)
    intro c₁ words₁
    exact Finds.yield (Cursor.of_words words₁).2
  apply Finds.look
  simp only [isFirst]
  apply Finds.look
  simp only [Cursor.peek_of_ahead isAhead]
  cases s <;> cases isStep <;> exact found

theorem Readable.ret (derives : Derives (.expression .logical value) ws)
    (readable : Readable (.expression .logical value) ws) (ends : next.level = .lowest) :
    Readable (.statement next (.ret value)) (.keyword .returnWord :: ws) := by
  intro rounds depth c rest words short deep follows
  simp only [List.length_cons] at short deep
  obtain ⟨isFirst, isAhead⟩ := Cursor.of_words words
  apply Finds.look
  simp only [isFirst]
  exact returning_finds readable derives.opensExpression isAhead (by omega) (by omega) ends
    (ne_else_of_not_resumes follows)

theorem Readable.retNull (ends : next.endsReturn = true) :
    Readable (.statement next (.ret .null)) [.keyword .returnWord] := by
  intro rounds depth c rest words _ _ _
  obtain ⟨isFirst, isAhead⟩ := Cursor.of_words words
  apply Finds.look
  simp only [isFirst]
  exact returning_finds_null isAhead ends

theorem Readable.expr (derives : Derives (.expression .logical e) ws)
    (readable : Readable (.expression .logical e) ws) (ends : next.level = .lowest) :
    Readable (.statement next (.expr e)) ws := by
  intro rounds depth c rest words short deep follows
  exact simpleStatement_finds_expression readable derives.opensExpression words short deep ends follows

end SimpleStatements

/-!
### Every phrase
-/

theorem block_begins {body : Block} (derives : Derives (.block body) ws) :
    ∃ more, ws = .symbol .leftCurly :: more := by
  cases derives with
  | block inner => exact ⟨_, rfl⟩

/-- The cases of a switch begin with the words that close the case before them. -/
theorem cases_begin {cases : List (Expr × Block)} {otherwise : Option Block}
    (derives : Derives (.cases cases otherwise) ws) :
    closesCase (ws.headD (.symbol .rightCurly)).kind = true := by
  cases derives <;> rfl

/-- Every phrase is readable: the induction is over its derivation. -/
theorem readable {phrase : Phrase} (derives : Derives phrase ws) : Readable phrase ws := by
  induction derives with
  | ident name => exact Readable.ident name
  | integer spelled => exact Readable.integer spelled
  | float spelled => exact Readable.float spelled
  | text content => exact Readable.text content
  | trueWord => exact Readable.trueWord
  | falseWord => exact Readable.falseWord
  | null => exact Readable.null
  | parenthesised inner innerReadable => exact Readable.parenthesised inner innerReadable
  | array each eachReadable => exact Readable.array each eachReadable
  | hash _ innerReadable => exact Readable.hash innerReadable
  | conditional _ _ clauseReadable elsesReadable => exact Readable.conditional clauseReadable elsesReadable
  | switch subject _ subjectReadable casesReadable => exact Readable.switch subject subjectReadable casesReadable
  | whileLoop _ clauseReadable => exact Readable.whileLoop clauseReadable
  | forLoop _ condition _ body startReadable conditionReadable stepReadable bodyReadable =>
      exact Readable.forLoop startReadable condition conditionReadable stepReadable (block_begins body) bodyReadable
  | function body bodyReadable => exact Readable.function (block_begins body) bodyReadable
  | macroLiteral body bodyReadable => exact Readable.macroLiteral (block_begins body) bodyReadable
  | call _ each calleeReadable eachReadable => exact Readable.call calleeReadable each eachReadable
  | index _ key subjectReadable keyReadable => exact Readable.index subjectReadable key keyReadable
  | unary op operand operandReadable => exact Readable.unary op operand operandReadable
  | binary op left right leftReadable rightReadable =>
      exact Readable.binary op left leftReadable right rightReadable
  | looser le _ tightReadable =>
      intro rounds depth level c next rest words short deep notCall tight admits noElse
      exact tightReadable words short deep notCall (Nat.le_trans tight le) (Level.admits_mono le admits) noElse
  | noEntries => exact Readable.noEntries
  | lastEntry key value keyReadable valueReadable => exact Readable.lastEntry key keyReadable value valueReadable
  | moreEntries key value _ keyReadable valueReadable others =>
      exact Readable.moreEntries key keyReadable value valueReadable others
  | block _ innerReadable => exact Readable.block innerReadable
  | guarded guard body guardReadable bodyReadable =>
      exact Readable.guarded guard guardReadable (block_begins body) bodyReadable
  | noElse => exact Readable.noElse
  | elseBlock body bodyReadable => exact Readable.elseBlock (block_begins body) bodyReadable
  | elseIf _ _ clauseReadable elsesReadable => exact Readable.elseIf clauseReadable elsesReadable
  | noCase => exact Readable.noCase
  | defaultCase _ innerReadable => exact Readable.defaultCase innerReadable
  | moreCases value _ others valueReadable bodyReadable othersReadable =>
      exact Readable.moreCases value valueReadable bodyReadable (cases_begin others) othersReadable
  | bind name ends value valueReadable => exact Readable.bind value valueReadable ends
  | bindConst name ends value valueReadable => exact Readable.bindConst value valueReadable ends
  | assign name ends value valueReadable => exact Readable.assign value valueReadable ends
  | compound name isCompound ends value valueReadable => exact Readable.compound isCompound value valueReadable ends
  | step name isStep => exact Readable.step isStep
  | ret ends value valueReadable => exact Readable.ret value valueReadable ends
  | retNull ends => exact Readable.retNull ends
  | expr ends derives exprReadable => exact Readable.expr derives exprReadable ends
  | noStatements next => exact Readable.noStatements next
  | semicolon _ othersReadable => exact Readable.semicolon othersReadable
  | closed first _ firstReadable othersReadable =>
      exact Readable.closed first.opensStatement firstReadable othersReadable
  | unclosed isOpen first others firstReadable othersReadable =>
      exact Readable.unclosed first.opensStatement others.begins isOpen firstReadable othersReadable
  | program _ _ => trivial

/-- Words that derive a program are read as that program. -/
theorem parseTokens_complete {tokens : List Token} {p : Program} (ended : Ended (tokens.map Token.lexeme))
    (derives : Derives (.program p) (tokens.map Token.lexeme)) : parseTokens tokens = ⟨p, []⟩ := by
  rw [parseTokens_eq_iff ended]
  have words := ofTokens_words ended
  have size : (tokens.map Token.lexeme).length = tokens.length := List.length_map _
  generalize isWords : tokens.map Token.lexeme = all at derives words size
  cases derives with
  | @program ss ws inner =>
      simp only [List.length_append, List.length_singleton] at size
      have found : (programReader tokens.length).Finds (Cursor.ofTokens tokens) ss
          (·.words = [.endOfText]) := by
        apply readable inner words (by simp; omega) (by omega) (by simp; omega) rfl rfl rfl
        intro w opens
        cases w with
        | endOfText => cases opens
        | _ => rfl
      obtain ⟨c', reads, _⟩ := found
      exact ⟨c', reads⟩

end Parser

end Quill
