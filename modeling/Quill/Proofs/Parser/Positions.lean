/-
Module: Quill.Proofs.Parser.Positions
Layer: Proofs
Purpose: Reading looks at words only. Two cursors agree if they show the same words and have noted the same
  problems, wherever the tokens stand. From cursors that agree, every reader yields the same tree and leads to
  cursors that agree, also where it reports a problem and goes on behind it; so the tree and the problems of a
  text depend on its words alone.
Main exports: Cursor.Agrees, Parse.Blind, Parse.Blind.bind, Parser.expression_blind, parseTokens_of_words
-/
import Quill.Parser
import Quill.Proofs.Parser.Reading

namespace Quill

namespace Cursor

/-- The same words lie ahead and the same problems were noted, at whatever positions. -/
structure Agrees (c c' : Cursor) : Prop where
  words : c.words = c'.words
  problems : c.diagnostics.map Diagnostic.problem = c'.diagnostics.map Diagnostic.problem

namespace Agrees

variable {c c' : Cursor} (agrees : c.Agrees c')

include agrees

theorem current : c.current.lexeme = c'.current.lexeme :=
  (List.cons.inj agrees.words).1

theorem ahead : c.ahead = c'.ahead :=
  (List.cons.inj agrees.words).2

theorem peek : c.peek.lexeme = c'.peek.lexeme := by
  rw [peek_lexeme, peek_lexeme, agrees.ahead, agrees.current]

theorem advance : c.advance.Agrees c'.advance := by
  obtain ⟨token, upcoming, diagnostics⟩ := c
  obtain ⟨token', upcoming', diagnostics'⟩ := c'
  have sameAhead := agrees.ahead
  cases upcoming with
  | nil =>
      cases upcoming' with
      | nil => exact agrees
      | cons next' rest' => cases sameAhead
  | cons next rest =>
      cases upcoming' with
      | nil => cases sameAhead
      | cons next' rest' => exact ⟨sameAhead, agrees.problems⟩

theorem report (p p' : Position) (problem : Problem) :
    (c.report ⟨p, problem⟩).Agrees (c'.report ⟨p', problem⟩) :=
  ⟨agrees.words, congrArg (problem :: ·) agrees.problems⟩

end Agrees

end Cursor

namespace Parse

/-- From cursors that agree, both computations yield the same and lead to cursors that agree. -/
def Blind {α : Type} (p p' : Parse α) : Prop :=
  ∀ ⦃c c' : Cursor⦄, c.Agrees c' → (p.run c).1 = (p'.run c').1 ∧ (p.run c).2.Agrees (p'.run c').2

namespace Blind

variable {α β : Type}

/-!
### Sequencing
-/

theorem pure (a : α) : Blind (Pure.pure a) (Pure.pure a) :=
  fun _ _ agrees => ⟨rfl, agrees⟩

theorem drop : Blind (Parse.drop : Parse α) Parse.drop :=
  fun _ _ agrees => ⟨rfl, agrees⟩

theorem bind {p p' : Parse α} {f f' : α → Parse β} (first : Blind p p') (next : ∀ a, Blind (f a) (f' a)) :
    Blind (p >>= f) (p' >>= f') := by
  intro c c' agrees
  obtain ⟨same, reached⟩ := first agrees
  show ((p.andThen f).run c).1 = ((p'.andThen f').run c').1 ∧
    ((p.andThen f).run c).2.Agrees ((p'.andThen f').run c').2
  rcases run : p.run c with ⟨a?, d⟩
  rcases run' : p'.run c' with ⟨a?', d'⟩
  rw [run, run'] at same reached
  obtain rfl : a? = a?' := same
  cases a? with
  | none => simpa [andThen, run, run'] using reached
  | some a => simpa [andThen, run, run'] using next a reached

theorem ite {b b' : Bool} {p p' q q' : Parse α} (same : b = b') (holds : Blind p p') (fails : Blind q q') :
    Blind (if b then p else q) (if b' then p' else q') := by
  subst same
  cases b with
  | true => exact holds
  | false => exact fails

/-- A token that is looked at shows its lexeme; its position differs. -/
theorem look_bind {view : Cursor → Token} {f f' : Token → Parse β}
    (same : ∀ {c c' : Cursor}, c.Agrees c' → (view c).lexeme = (view c').lexeme)
    (next : ∀ l p p', Blind (f ⟨l, p⟩) (f' ⟨l, p'⟩)) : Blind (look view >>= f) (look view >>= f') := by
  intro c c' agrees
  have follows := next (view c).lexeme (view c).position (view c').position agrees
  rwa [show (⟨(view c).lexeme, (view c').position⟩ : Token) = view c' by rw [same agrees]] at follows

theorem current_bind {f f' : Token → Parse β} (next : ∀ l p p', Blind (f ⟨l, p⟩) (f' ⟨l, p'⟩)) :
    Blind (current >>= f) (current >>= f') :=
  look_bind (fun agrees => agrees.current) next

theorem peek_bind {f f' : Token → Parse β} (next : ∀ l p p', Blind (f ⟨l, p⟩) (f' ⟨l, p'⟩)) :
    Blind (peek >>= f) (peek >>= f') :=
  look_bind (fun agrees => agrees.peek) next

/-!
### Steps
-/

theorem advance : Blind Parse.advance Parse.advance :=
  fun _ _ agrees => ⟨rfl, agrees.advance⟩

theorem report (p p' : Position) (problem : Problem) :
    Blind (Parse.report p problem : Parse α) (Parse.report p' problem) :=
  fun _ _ agrees => ⟨rfl, agrees.report p p' problem⟩

theorem currentIs (k : Kind) : Blind (Parse.currentIs k) (Parse.currentIs k) := by
  intro c c' agrees
  refine ⟨?_, agrees⟩
  simp [Parse.currentIs, look, Token.hasKind, agrees.current]

theorem peekIs (k : Kind) : Blind (Parse.peekIs k) (Parse.peekIs k) := by
  intro c c' agrees
  refine ⟨?_, agrees⟩
  simp [Parse.peekIs, look, Token.hasKind, agrees.peek]

theorem expect (k : Kind) : Blind (Parse.expect k) (Parse.expect k) := by
  refine (peekIs k).bind fun isNext => ?_
  cases isNext with
  | true => exact advance
  | false => exact peek_bind fun l p p' => report p p' _

theorem expectSymbol (s : Symbol) : Blind (Parse.expectSymbol s) (Parse.expectSymbol s) :=
  expect (.symbol s)

theorem tolerate {p p' : Parse α} (blind : Blind p p') : Blind p.tolerate p'.tolerate := by
  intro c c' agrees
  obtain ⟨same, reached⟩ := blind agrees
  exact ⟨congrArg some same, reached⟩

theorem identifier : Blind Parse.identifier Parse.identifier := by
  refine current_bind fun l p p' => ?_
  cases l with
  | identifier name => exact pure name
  | _ => exact report p p' _

/-!
### Lists
-/

theorem moreItems {item : Parse α} (blind : Blind item item) (rounds : Nat) :
    Blind (moreItems item rounds) (moreItems item rounds) := by
  induction rounds with
  | zero => exact drop
  | succ rounds inductionHypothesis =>
      refine (peekIs _).bind fun isComma => ?_
      cases isComma with
      | true =>
          exact advance.bind fun _ => advance.bind fun _ => blind.bind fun first =>
            inductionHypothesis.bind fun rest => pure _
      | false => exact pure []

theorem items {item : Parse α} (blind : Blind item item) (rounds : Nat) (close : Symbol) :
    Blind (items item rounds close) (items item rounds close) := by
  refine (peekIs _).bind fun isEmpty => ?_
  cases isEmpty with
  | true => exact advance.bind fun _ => pure []
  | false =>
      exact advance.bind fun _ => blind.bind fun first => (moreItems blind rounds).bind fun rest =>
        (expectSymbol close).bind fun _ => pure _

end Blind

end Parse

namespace Parser

open Parse

/-!
### Statements
-/

section Readers

variable {sub : Sub} (blind : ∀ level, Blind (sub.expression level) (sub.expression level))

include blind

theorem binding_blind (make : String → Expr → Stmt) : Blind (binding sub make) (binding sub make) :=
  (Blind.expect _).bind fun _ => Blind.identifier.bind fun _ => (Blind.expectSymbol _).bind fun _ =>
    Blind.advance.bind fun _ => (blind _).bind fun _ => .pure _

theorem returning_blind : Blind (returning sub) (returning sub) := by
  refine Blind.peek_bind fun l p p' => .ite rfl (.pure _) ?_
  exact Blind.advance.bind fun _ => (blind _).bind fun _ => .pure _

theorem assignment_blind (name : String) : Blind (assignment sub name) (assignment sub name) :=
  Blind.advance.bind fun _ => Blind.advance.bind fun _ => (blind _).bind fun _ => .pure _

theorem compoundAssignment_blind (name : String) (op : BinaryOp) :
    Blind (compoundAssignment sub name op) (compoundAssignment sub name op) :=
  Blind.advance.bind fun _ => Blind.advance.bind fun _ => (blind _).bind fun _ => .pure _

omit blind in
theorem stepping_blind (name : String) (op : BinaryOp) : Blind (stepping name op) (stepping name op) :=
  Blind.advance.bind fun _ => .pure _

theorem expressionStatement_blind : Blind (expressionStatement sub) (expressionStatement sub) :=
  (blind _).bind fun _ => .pure _

theorem namedStatement_blind (name : String) : Blind (namedStatement sub name) (namedStatement sub name) := by
  refine Blind.peek_bind fun l p p' => ?_
  dsimp only
  split
  · exact assignment_blind blind name
  · split
    · exact compoundAssignment_blind blind name _
    · exact stepping_blind name _
    · exact expressionStatement_blind blind
  · exact expressionStatement_blind blind

theorem simpleStatement_blind : Blind (simpleStatement sub) (simpleStatement sub) := by
  refine Blind.current_bind fun l p p' => ?_
  dsimp only
  split
  · exact binding_blind blind _
  · exact binding_blind blind _
  · exact returning_blind blind
  · exact namedStatement_blind blind _
  · exact expressionStatement_blind blind

theorem statement_blind : Blind (statement sub) (statement sub) := by
  refine (Blind.currentIs _).bind fun isLone => ?_
  cases isLone with
  | true => exact .pure none
  | false =>
      refine (simpleStatement_blind blind).tolerate.bind fun s => (Blind.peekIs _).bind fun isClosed => ?_
      cases isClosed with
      | true => exact Blind.advance.bind fun _ => .pure s
      | false => exact .pure s

theorem statementsUntil_blind (closes : Kind → Bool) (rounds : Nat) :
    Blind (statementsUntil sub closes rounds) (statementsUntil sub closes rounds) := by
  induction rounds with
  | zero => exact .drop
  | succ rounds inductionHypothesis =>
      refine Blind.current_bind fun l p p' => .ite rfl (.pure []) (.ite rfl (.report p p' _) ?_)
      exact (statement_blind blind).bind fun first => Blind.advance.bind fun _ =>
        inductionHypothesis.bind fun rest => .pure _

theorem block_blind : Blind (block sub) (block sub) :=
  Blind.advance.bind fun _ => statementsUntil_blind blind _ _

/-!
### Constructs with blocks
-/

theorem guardedBlock_blind : Blind (guardedBlock sub) (guardedBlock sub) :=
  Blind.advance.bind fun _ => (blind _).bind fun _ => (Blind.expectSymbol _).bind fun _ =>
    (block_blind blind).bind fun _ => .pure _

theorem elseClauses_blind (rounds : Nat) : Blind (elseClauses sub rounds) (elseClauses sub rounds) := by
  induction rounds with
  | zero => exact .drop
  | succ rounds inductionHypothesis =>
      refine (Blind.peekIs _).bind fun isElse => ?_
      cases isElse with
      | false => exact .pure _
      | true =>
          refine Blind.advance.bind fun _ => (Blind.peekIs _).bind fun isIf => ?_
          cases isIf with
          | true =>
              exact Blind.advance.bind fun _ => (guardedBlock_blind blind).bind fun _ =>
                inductionHypothesis.bind fun _ => .pure _
          | false =>
              exact (Blind.expectSymbol _).bind fun _ => (block_blind blind).bind fun _ => .pure _

theorem conditional_blind : Blind (conditional sub) (conditional sub) :=
  (guardedBlock_blind blind).bind fun _ => (elseClauses_blind blind _).bind fun _ => .pure _

theorem whileLoop_blind : Blind (whileLoop sub) (whileLoop sub) :=
  (guardedBlock_blind blind).bind fun _ => .pure _

theorem forLoop_blind : Blind (forLoop sub) (forLoop sub) :=
  (Blind.expectSymbol _).bind fun _ => Blind.advance.bind fun _ =>
    (simpleStatement_blind blind).bind fun _ => (Blind.expectSymbol _).bind fun _ =>
    Blind.advance.bind fun _ => (blind _).bind fun _ => (Blind.expectSymbol _).bind fun _ =>
    Blind.advance.bind fun _ => (simpleStatement_blind blind).bind fun _ =>
    (Blind.expectSymbol _).bind fun _ => (Blind.expectSymbol _).bind fun _ =>
    (block_blind blind).bind fun _ => .pure _

theorem caseBody_blind : Blind (caseBody sub) (caseBody sub) :=
  (Blind.expectSymbol _).bind fun _ => Blind.advance.bind fun _ => statementsUntil_blind blind _ _

theorem switchCases_blind (rounds : Nat) : Blind (switchCases sub rounds) (switchCases sub rounds) := by
  induction rounds with
  | zero => exact .drop
  | succ rounds inductionHypothesis =>
      refine Blind.current_bind fun l p p' => ?_
      dsimp only
      split
      · exact Blind.advance.bind fun _ => (blind _).bind fun _ => (caseBody_blind blind).bind fun _ =>
          inductionHypothesis.bind fun _ => .pure _
      · refine (caseBody_blind blind).bind fun body => Blind.current_bind fun l p p' => ?_
        exact .ite rfl (.pure _) (.report p p' _)
      · exact .pure _
      · exact .report p p' _

theorem switch_blind : Blind (switch sub) (switch sub) := by
  refine Blind.advance.bind fun _ => (blind _).bind fun subject => (Blind.expectSymbol _).bind fun _ => ?_
  refine Blind.advance.bind fun _ => (switchCases_blind blind _).bind fun read => ?_
  dsimp only
  split
  · exact Blind.current_bind fun l p p' => .report p p' _
  · exact .pure _

theorem paramsAndBody_blind : Blind (paramsAndBody sub) (paramsAndBody sub) :=
  (Blind.expectSymbol _).bind fun _ => (Blind.identifier.items _ _).bind fun _ =>
    (Blind.expectSymbol _).bind fun _ => (block_blind blind).bind fun _ => .pure _

/-!
### Expressions
-/

theorem hashEntries_blind (rounds : Nat) : Blind (hashEntries sub rounds) (hashEntries sub rounds) := by
  induction rounds with
  | zero => exact .drop
  | succ rounds inductionHypothesis =>
      refine (Blind.peekIs _).bind fun isClosed => ?_
      cases isClosed with
      | true => exact Blind.advance.bind fun _ => .pure _
      | false =>
          refine Blind.advance.bind fun _ => (blind _).bind fun key => (Blind.expectSymbol _).bind fun _ => ?_
          refine Blind.advance.bind fun _ => (blind _).bind fun value => (Blind.peekIs _).bind fun isLast => ?_
          cases isLast with
          | true => exact inductionHypothesis.bind fun _ => .pure _
          | false => exact (Blind.expectSymbol _).bind fun _ => inductionHypothesis.bind fun _ => .pure _

theorem unary_blind (op : UnaryOp) : Blind (unary sub op) (unary sub op) :=
  Blind.advance.bind fun _ => (blind _).bind fun _ => .pure _

theorem parenthesised_blind : Blind (parenthesised sub) (parenthesised sub) :=
  Blind.advance.bind fun _ => (blind _).bind fun _ => (Blind.expectSymbol _).bind fun _ => .pure _

theorem operand_blind : Blind (operand sub) (operand sub) := by
  refine Blind.current_bind fun l p p' => ?_
  dsimp only
  split
  · exact .pure _
  · split
    · exact .pure _
    · exact .report p p' _
  · split
    · exact .pure _
    · exact .report p p' _
  · exact .pure _
  · exact .pure _
  · exact .pure _
  · exact .pure _
  · exact unary_blind blind _
  · exact unary_blind blind _
  · exact parenthesised_blind blind
  · exact ((blind _).items _ _).bind fun _ => .pure _
  · exact (hashEntries_blind blind _).bind fun _ => .pure _
  · exact conditional_blind blind
  · exact switch_blind blind
  · exact whileLoop_blind blind
  · exact forLoop_blind blind
  · exact (paramsAndBody_blind blind).bind fun _ => .pure _
  · exact (paramsAndBody_blind blind).bind fun _ => .pure _
  · exact .report p p' _
  · exact .report p p' _

theorem continuation_blind (left : Expr) (p p' : Position) (s : Symbol) :
    Blind (continuation sub left p s) (continuation sub left p' s) := by
  unfold continuation
  split
  · exact ((blind _).items _ _).bind fun _ => .pure _
  · exact Blind.advance.bind fun _ => (blind _).bind fun _ => (Blind.expectSymbol _).bind fun _ => .pure _
  · split
    · exact .report p p' _
    · exact Blind.advance.bind fun _ => (blind _).bind fun _ => .pure _
    · exact .drop

theorem extend_blind (level : Level) (rounds : Nat) : ∀ left : Expr,
    Blind (extend sub level rounds left) (extend sub level rounds left) := by
  induction rounds with
  | zero => exact fun _ => .drop
  | succ rounds inductionHypothesis =>
      intro left
      refine Blind.peek_bind fun l p p' => ?_
      dsimp only
      split
      · refine Blind.advance.bind fun _ => ?_
        split
        · exact (continuation_blind blind left p p' _).bind inductionHypothesis
        · exact .drop
      · exact .pure _

end Readers

theorem expression_blind (rounds depth : Nat) : ∀ level,
    Blind (expression rounds depth level) (expression rounds depth level) := by
  induction depth with
  | zero => exact fun _ => .drop
  | succ depth inductionHypothesis =>
      intro level
      exact (operand_blind inductionHypothesis).bind (extend_blind inductionHypothesis level rounds)

end Parser

theorem Cursor.agrees_ofTokens {tokens tokens' : List Token}
    (same : tokens.map Token.lexeme = tokens'.map Token.lexeme) :
    (Cursor.ofTokens tokens).Agrees (Cursor.ofTokens tokens') := by
  cases tokens with
  | nil =>
      cases tokens' with
      | nil => exact ⟨rfl, rfl⟩
      | cons t' ts' => cases same
  | cons t ts =>
      cases tokens' with
      | nil => cases same
      | cons t' ts' => exact ⟨same, rfl⟩

/-- What is read from tokens depends on their lexemes only, apart from the positions of the diagnostics. -/
theorem parseTokens_of_words {tokens tokens' : List Token}
    (same : tokens.map Token.lexeme = tokens'.map Token.lexeme) :
    (parseTokens tokens).program = (parseTokens tokens').program ∧
      (parseTokens tokens).diagnostics.map Diagnostic.problem =
        (parseTokens tokens').diagnostics.map Diagnostic.problem := by
  have sameLength : tokens.length = tokens'.length := by
    simpa using congrArg List.length same
  let sub : Parser.Sub := ⟨Parser.expression (tokens'.length + 1) (tokens'.length + 1), tokens'.length + 1⟩
  have blind : Parse.Blind (Parser.statementsUntil sub (· = .endOfText) (tokens'.length + 1)) _ :=
    Parser.statementsUntil_blind (Parser.expression_blind _ _) _ _
  obtain ⟨sameStatements, agrees⟩ := blind (Cursor.agrees_ofTokens same)
  unfold parseTokens
  rw [sameLength]
  constructor
  · exact congrArg (fun statements? => Program.mk (statements?.getD [])) sameStatements
  · show List.map _ (List.reverse _) = List.map _ (List.reverse _)
    rw [List.map_reverse, List.map_reverse]
    exact congrArg List.reverse agrees.problems

end Quill
