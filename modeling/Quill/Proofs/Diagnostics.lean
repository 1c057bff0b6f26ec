/-
Module: Quill.Proofs.Diagnostics
Layer: Proofs
Purpose: Diagnostics come in the order of the text. Some problems are noted at the current token and some at the one
  behind it. A cursor is in order if the diagnostics were noted along the tokens up to its current one. A reader that
  yields something leaves a cursor in order; one that drops its construct may have noted a problem one token ahead, and
  then the cursor is in order again when it has moved on. Every dropped construct ends in a statement that is left out,
  and the statements that surround it are read on from the next token. The positions of tokens increase as long as the
  counters do not overflow, and then those of the diagnostics do not decrease.
Main exports: Position.AtMost, NotedAlong, Cursor.InOrder, Parse.Orderly, Parse.Recovers, Parser.statement_recovers,
  Parser.expression_orderly, diagnostics_in_order, diagnostics_out_of_order
-/
import Quill.Parser
import Quill.Proofs.Lexer.Tiling

namespace Quill

/-!
### Positions of tokens
-/

namespace Position

/-- The order of reading, with equal positions: by line, then by column. -/
def AtMost (p q : Position) : Prop :=
  p.line < q.line ∨ p.line = q.line ∧ p.column ≤ q.column

theorem AtMost.refl (p : Position) : p.AtMost p :=
  .inr ⟨rfl, UInt32.le_refl _⟩

theorem Before.atMost {p q : Position} (before : p.Before q) : p.AtMost q := by
  unfold Before at before
  unfold AtMost
  grind

end Position

/-- The tokens of a text stand in the order of reading, if the counters do not overflow. -/
theorem Token.scan_increasing {source : String} (fits : Position.Fits source.toList) :
    (Token.scan source).Pairwise fun t u => t.position.Before u.position := by
  obtain ⟨tiles, lastGap, tiling⟩ := Lexer.exists_tiling_of_source source
  have scanned : Token.scan source = (List.range (tiles.length + 1)).map (Lexer.ofSource source).call :=
    tiling.tokens_eq (Nat.lt_succ_self _)
  rw [scanned, List.pairwise_map]
  refine List.pairwise_lt_range.imp_of_mem ?_
  intro i j _ inside earlier
  exact (tiling.exact fits).increasing i j earlier (Nat.le_of_lt_succ (List.mem_range.1 inside))

/-!
### Noting along tokens
-/

/-- The positions are those of some of the tokens, in the order of the tokens; a token may be noted more than once. -/
inductive NotedAlong : List Token → List Position → Prop where
  | none (tokens : List Token) : NotedAlong tokens []
  | here {t : Token} {tokens : List Token} {positions : List Position} (others : NotedAlong (t :: tokens) positions) :
      NotedAlong (t :: tokens) (t.position :: positions)
  | later (t : Token) {tokens : List Token} {positions : List Position} (others : NotedAlong tokens positions) :
      NotedAlong (t :: tokens) positions

namespace NotedAlong

variable {tokens : List Token} {positions : List Position}

theorem append (noted : NotedAlong tokens positions) (more : List Token) : NotedAlong (tokens ++ more) positions := by
  induction noted with
  | none tokens => exact .none _
  | here _ inductionHypothesis => exact .here inductionHypothesis
  | later t _ inductionHypothesis => exact .later t inductionHypothesis

theorem of_mem {t : Token} (member : t ∈ tokens) : NotedAlong tokens [t.position] := by
  induction tokens with
  | nil => cases member
  | cons u tokens inductionHypothesis =>
      rcases List.mem_cons.1 member with rfl | inOthers
      · exact .here (.none _)
      · exact .later u (inductionHypothesis inOthers)

/-- The last token can be noted behind all the others. -/
theorem note_last (noted : NotedAlong tokens positions) {t : Token} (isLast : tokens.getLast? = some t) :
    NotedAlong tokens (positions ++ [t.position]) := by
  induction noted with
  | none tokens => exact of_mem (List.mem_of_getLast? isLast)
  | here _ inductionHypothesis => exact .here (inductionHypothesis isLast)
  | @later u tokens positions others inductionHypothesis =>
      cases tokens with
      | nil =>
          cases others
          exact of_mem (List.mem_of_getLast? isLast)
      | cons v tokens => exact .later u (inductionHypothesis (by rwa [List.getLast?_cons_cons] at isLast))

theorem exists_token (noted : NotedAlong tokens positions) : ∀ p ∈ positions, ∃ t ∈ tokens, t.position = p := by
  induction noted with
  | none tokens => exact fun _ member => nomatch member
  | here _ inductionHypothesis => exact List.forall_mem_cons.2 ⟨⟨_, List.mem_cons_self, rfl⟩, inductionHypothesis⟩
  | later t _ inductionHypothesis =>
      intro p member
      obtain ⟨u, inside, isPosition⟩ := inductionHypothesis p member
      exact ⟨u, List.mem_cons_of_mem t inside, isPosition⟩

/-- Along tokens in the order of reading, positions are noted in that order. -/
theorem pairwise (noted : NotedAlong tokens positions)
    (increasing : tokens.Pairwise fun t u => t.position.Before u.position) : positions.Pairwise Position.AtMost := by
  induction noted with
  | none tokens => exact .nil
  | @here t tokens positions others inductionHypothesis =>
      refine List.pairwise_cons.2 ⟨fun p member => ?_, inductionHypothesis increasing⟩
      obtain ⟨u, inside, rfl⟩ := others.exists_token p member
      rcases List.mem_cons.1 inside with rfl | behind
      · exact .refl _
      · exact (List.rel_of_pairwise_cons increasing behind).atMost
  | later t _ inductionHypothesis => exact inductionHypothesis (List.pairwise_cons.1 increasing).2

end NotedAlong

/-!
### Cursors in order
-/

namespace Cursor

/-- The cursor stands in a text, and the diagnostics so far, latest first, were noted along the tokens up to the
    current one. -/
def InOrder (tokens : List Token) (c : Cursor) : Prop :=
  ∃ passed, tokens = passed ++ c.current :: c.upcoming ∧
    NotedAlong (passed ++ [c.current]) (c.diagnostics.map Diagnostic.position).reverse

theorem advance_current (c : Cursor) : c.advance.current = c.peek := by
  obtain ⟨token, upcoming, diagnostics⟩ := c
  cases upcoming <;> rfl

theorem advance_diagnostics (c : Cursor) : c.advance.diagnostics = c.diagnostics := by
  obtain ⟨token, upcoming, diagnostics⟩ := c
  cases upcoming <;> rfl

theorem advance_report (c : Cursor) (d : Diagnostic) : (c.report d).advance = c.advance.report d := by
  obtain ⟨token, upcoming, diagnostics⟩ := c
  cases upcoming <;> rfl

namespace InOrder

variable {tokens : List Token} {c : Cursor} (inOrder : c.InOrder tokens)

include inOrder

theorem advance : c.advance.InOrder tokens := by
  obtain ⟨token, upcoming, diagnostics⟩ := c
  cases upcoming with
  | nil => exact inOrder
  | cons next rest =>
      obtain ⟨passed, inside, noted⟩ := inOrder
      exact ⟨passed ++ [token], by rw [inside, List.append_assoc]; rfl, noted.append [next]⟩

/-- A problem at the current token comes behind all the others. -/
theorem report (problem : Problem) : (c.report ⟨c.current.position, problem⟩).InOrder tokens := by
  obtain ⟨passed, inside, noted⟩ := inOrder
  refine ⟨passed, inside, ?_⟩
  rw [Cursor.report, List.map_cons, List.reverse_cons]
  exact noted.note_last List.getLast?_concat

/-- A problem at the next token is in order for a cursor that has moved on. -/
theorem report_peek (problem : Problem) : (c.report ⟨c.peek.position, problem⟩).advance.InOrder tokens := by
  rw [advance_report, ← advance_current]
  exact inOrder.advance.report problem

end InOrder

end Cursor

/-!
### Readers that keep the order
-/

namespace Parse

variable {α β : Type}

/-- Run from `c`, a computation that yields something leaves a cursor in order, and one that drops its construct
    leaves a cursor that is in order once it has moved on. -/
def OrderlyFrom (tokens : List Token) (c : Cursor) (p : Parse α) : Prop :=
  c.InOrder tokens →
    match p.run c with
    | (some _, c') => c'.InOrder tokens
    | (none, c') => c'.advance.InOrder tokens

/-- A computation keeps the order wherever it is run. -/
def Orderly (tokens : List Token) (p : Parse α) : Prop :=
  ∀ c, p.OrderlyFrom tokens c

/-- Whatever a computation yields, it leaves a cursor that is in order once it has moved on. -/
def Recovers (tokens : List Token) (p : Parse α) : Prop :=
  ∀ c : Cursor, c.InOrder tokens → (p.run c).2.advance.InOrder tokens

variable {tokens : List Token}

/-!
### Sequencing
-/

namespace OrderlyFrom

variable {c : Cursor}

theorem bind {p : Parse α} {f : α → Parse β} (first : p.OrderlyFrom tokens c) (next : ∀ a, (f a).Orderly tokens) :
    (p >>= f).OrderlyFrom tokens c := by
  intro inOrder
  have reached := first inOrder
  show match (p.andThen f).run c with
    | (some _, c') => c'.InOrder tokens
    | (none, c') => c'.advance.InOrder tokens
  rcases run : p.run c with ⟨_ | a, c'⟩
  · rw [run] at reached
    simpa only [andThen, run] using reached
  · rw [run] at reached
    simpa only [andThen, run] using next a c' reached

theorem advance_bind {p : Parse α} (rest : p.OrderlyFrom tokens c.advance) :
    (Parse.advance >>= fun _ => p).OrderlyFrom tokens c :=
  fun inOrder => rest inOrder.advance

end OrderlyFrom

namespace Orderly

theorem pure (a : α) : Orderly tokens (Pure.pure a) :=
  fun _ inOrder => inOrder

theorem drop : Orderly tokens (Parse.drop : Parse α) :=
  fun _ inOrder => inOrder.advance

theorem look (view : Cursor → α) : (Parse.look view).Orderly tokens :=
  fun _ inOrder => inOrder

theorem bind {p : Parse α} {f : α → Parse β} (first : p.Orderly tokens) (next : ∀ a, (f a).Orderly tokens) :
    (p >>= f).Orderly tokens :=
  fun c => (first c).bind next

/-- What was looked at is still what the cursor shows. -/
theorem look_bind {view : Cursor → α} {f : α → Parse β} (next : ∀ c, (f (view c)).OrderlyFrom tokens c) :
    (Parse.look view >>= f).Orderly tokens :=
  next

theorem ite {b : Bool} {p q : Parse α} (holds : p.Orderly tokens) (fails : q.Orderly tokens) :
    (if b then p else q).Orderly tokens := by
  cases b with
  | true => exact holds
  | false => exact fails

/-!
### Steps
-/

theorem advance : Parse.advance.Orderly tokens :=
  fun _ inOrder => inOrder.advance

/-- A problem is reported at the current token. -/
theorem report {position : Position} {c : Cursor} (here : position = c.current.position) (problem : Problem) :
    (Parse.report position problem : Parse α).OrderlyFrom tokens c := by
  intro inOrder
  subst here
  exact (inOrder.report problem).advance

theorem expect (k : Kind) : (Parse.expect k).Orderly tokens := by
  refine (look _).bind fun isNext => ?_
  cases isNext with
  | true => exact advance
  | false => exact look_bind fun c inOrder => inOrder.report_peek _

theorem expectSymbol (s : Symbol) : (Parse.expectSymbol s).Orderly tokens :=
  expect (.symbol s)

theorem identifier : Parse.identifier.Orderly tokens := by
  refine look_bind fun c => ?_
  split
  · exact pure _ c
  · exact report rfl _

/-!
### Lists
-/

theorem moreItems {item : Parse α} (orderly : item.Orderly tokens) (rounds : Nat) :
    (Parse.moreItems item rounds).Orderly tokens := by
  induction rounds with
  | zero => exact drop
  | succ rounds inductionHypothesis =>
      refine (look _).bind fun isComma => .ite ?_ (pure [])
      exact advance.bind fun _ => advance.bind fun _ => orderly.bind fun _ => inductionHypothesis.bind fun _ => pure _

theorem items {item : Parse α} (orderly : item.Orderly tokens) (rounds : Nat) (close : Symbol) :
    (Parse.items item rounds close).Orderly tokens := by
  refine (look _).bind fun isEmpty => .ite (advance.bind fun _ => pure []) ?_
  exact advance.bind fun _ => orderly.bind fun _ => (moreItems orderly rounds).bind fun _ =>
    (expectSymbol close).bind fun _ => pure _

theorem recovers {p : Parse α} (orderly : p.Orderly tokens) : p.Recovers tokens := by
  intro c inOrder
  have reached := orderly c inOrder
  rcases run : p.run c with ⟨_ | a, c'⟩
  · rw [run] at reached
    exact reached
  · rw [run] at reached
    exact reached.advance

end Orderly

namespace Recovers

theorem tolerate {p : Parse α} (orderly : p.Orderly tokens) : p.tolerate.Recovers tokens :=
  orderly.recovers

theorem look_bind {view : Cursor → α} {f : α → Parse β} (next : ∀ a, (f a).Recovers tokens) :
    (Parse.look view >>= f).Recovers tokens :=
  fun c => next (view c) c

/-- What follows may be read before the order is restored, if it leaves it at that. -/
theorem bind {p : Parse α} {f : α → Parse β} (recovers : p.Recovers tokens)
    (next : ∀ a (c : Cursor), c.advance.InOrder tokens → ((f a).run c).2.advance.InOrder tokens) :
    (p >>= f).Recovers tokens := by
  intro c inOrder
  have restored := recovers c inOrder
  show ((p.andThen f).run c).2.advance.InOrder tokens
  rcases run : p.run c with ⟨_ | a, c'⟩
  · rw [run] at restored
    simpa only [andThen, run] using restored
  · rw [run] at restored
    simpa only [andThen, run] using next a c' restored

/-- Moving on behind something that may have been dropped restores the order. -/
theorem advance_bind {p : Parse α} {f : α → Parse β} (recovers : p.Recovers tokens)
    (next : ∀ a, (f a).Orderly tokens) : (p >>= fun a => Parse.advance >>= fun _ => f a).Orderly tokens := by
  intro c inOrder
  have restored := recovers c inOrder
  show match (p.andThen fun a => Parse.advance.andThen fun _ => f a).run c with
    | (some _, c') => c'.InOrder tokens
    | (none, c') => c'.advance.InOrder tokens
  rcases run : p.run c with ⟨_ | a, c'⟩
  · rw [run] at restored
    simpa only [andThen, run] using restored
  · rw [run] at restored
    simpa only [andThen, run, Parse.advance] using next a c'.advance restored

end Recovers

end Parse

namespace Parser

open Parse

section Readers

variable {tokens : List Token} {sub : Sub} (orderly : ∀ level, (sub.expression level).Orderly tokens)

include orderly

/-!
### Statements
-/

theorem binding_orderly (make : String → Expr → Stmt) : (binding sub make).Orderly tokens :=
  (Orderly.expect _).bind fun _ => Orderly.identifier.bind fun _ => (Orderly.expectSymbol _).bind fun _ =>
    Orderly.advance.bind fun _ => (orderly _).bind fun _ => .pure _

theorem returning_orderly : (returning sub).Orderly tokens :=
  (Orderly.look _).bind fun _ => .ite (.pure _) (Orderly.advance.bind fun _ => (orderly _).bind fun _ => .pure _)

theorem assignment_orderly (name : String) : (assignment sub name).Orderly tokens :=
  Orderly.advance.bind fun _ => Orderly.advance.bind fun _ => (orderly _).bind fun _ => .pure _

theorem compoundAssignment_orderly (name : String) (op : BinaryOp) :
    (compoundAssignment sub name op).Orderly tokens :=
  Orderly.advance.bind fun _ => Orderly.advance.bind fun _ => (orderly _).bind fun _ => .pure _

omit orderly in
theorem stepping_orderly (name : String) (op : BinaryOp) : (stepping name op).Orderly tokens :=
  Orderly.advance.bind fun _ => .pure _

theorem expressionStatement_orderly : (expressionStatement sub).Orderly tokens :=
  (orderly _).bind fun _ => .pure _

theorem namedStatement_orderly (name : String) : (namedStatement sub name).Orderly tokens := by
  refine (Orderly.look _).bind fun next => ?_
  split
  · exact assignment_orderly orderly name
  · split
    · exact compoundAssignment_orderly orderly name _
    · exact stepping_orderly name _
    · exact expressionStatement_orderly orderly
  · exact expressionStatement_orderly orderly

theorem simpleStatement_orderly : (simpleStatement sub).Orderly tokens := by
  refine (Orderly.look _).bind fun token => ?_
  split
  · exact binding_orderly orderly _
  · exact binding_orderly orderly _
  · exact returning_orderly orderly
  · exact namedStatement_orderly orderly _
  · exact expressionStatement_orderly orderly

/-- A statement that is left out may have noted a problem one token ahead. -/
theorem statement_recovers : (statement sub).Recovers tokens := by
  refine Recovers.look_bind fun isLone => ?_
  cases isLone with
  | true => exact (Orderly.pure none).recovers
  | false =>
      refine (Recovers.tolerate (simpleStatement_orderly orderly)).bind fun s c restored => ?_
      change ((if c.peek.hasKind (.symbol .semicolon) = true then Parse.advance >>= fun _ => pure s
        else pure s).run c).2.advance.InOrder tokens
      split
      · exact restored.advance
      · exact restored

theorem statementsUntil_orderly (closes : Kind → Bool) (rounds : Nat) :
    (statementsUntil sub closes rounds).Orderly tokens := by
  induction rounds with
  | zero => exact .drop
  | succ rounds inductionHypothesis =>
      refine Orderly.look_bind fun c => ?_
      split
      · exact Orderly.pure _ c
      · split
        · exact Orderly.report rfl _
        · exact (statement_recovers orderly).advance_bind (fun _ => inductionHypothesis.bind fun _ => .pure _) c

theorem block_orderly : (block sub).Orderly tokens :=
  Orderly.advance.bind fun _ => statementsUntil_orderly orderly _ _

/-!
### Constructs with blocks
-/

theorem guardedBlock_orderly : (guardedBlock sub).Orderly tokens :=
  Orderly.advance.bind fun _ => (orderly _).bind fun _ => (Orderly.expectSymbol _).bind fun _ =>
    (block_orderly orderly).bind fun _ => .pure _

theorem elseClauses_orderly (rounds : Nat) : (elseClauses sub rounds).Orderly tokens := by
  induction rounds with
  | zero => exact .drop
  | succ rounds inductionHypothesis =>
      refine (Orderly.look _).bind fun isElse => .ite ?_ (.pure _)
      refine Orderly.advance.bind fun _ => (Orderly.look _).bind fun isIf => .ite ?_ ?_
      · exact Orderly.advance.bind fun _ => (guardedBlock_orderly orderly).bind fun _ =>
          inductionHypothesis.bind fun _ => .pure _
      · exact (Orderly.expectSymbol _).bind fun _ => (block_orderly orderly).bind fun _ => .pure _

theorem conditional_orderly : (conditional sub).Orderly tokens :=
  (guardedBlock_orderly orderly).bind fun _ => (elseClauses_orderly orderly _).bind fun _ => .pure _

theorem whileLoop_orderly : (whileLoop sub).Orderly tokens :=
  (guardedBlock_orderly orderly).bind fun _ => .pure _

theorem forLoop_orderly : (forLoop sub).Orderly tokens :=
  (Orderly.expectSymbol _).bind fun _ => Orderly.advance.bind fun _ =>
    (simpleStatement_orderly orderly).bind fun _ => (Orderly.expectSymbol _).bind fun _ =>
    Orderly.advance.bind fun _ => (orderly _).bind fun _ => (Orderly.expectSymbol _).bind fun _ =>
    Orderly.advance.bind fun _ => (simpleStatement_orderly orderly).bind fun _ =>
    (Orderly.expectSymbol _).bind fun _ => (Orderly.expectSymbol _).bind fun _ =>
    (block_orderly orderly).bind fun _ => .pure _

theorem caseBody_orderly : (caseBody sub).Orderly tokens :=
  (Orderly.expectSymbol _).bind fun _ => Orderly.advance.bind fun _ => statementsUntil_orderly orderly _ _

theorem switchCases_orderly (rounds : Nat) : (switchCases sub rounds).Orderly tokens := by
  induction rounds with
  | zero => exact .drop
  | succ rounds inductionHypothesis =>
      refine Orderly.look_bind fun c => ?_
      split
      · refine Orderly.bind .advance (fun _ => ?_) c
        exact (orderly _).bind fun _ => (caseBody_orderly orderly).bind fun _ =>
          inductionHypothesis.bind fun _ => .pure _
      · refine (caseBody_orderly orderly).bind (fun body => Orderly.look_bind fun c' => ?_) c
        split
        · exact Orderly.pure _ c'
        · exact Orderly.report rfl _
      · exact Orderly.pure _ c
      · exact Orderly.report rfl _

theorem switch_orderly : (switch sub).Orderly tokens := by
  refine Orderly.advance.bind fun _ => (orderly _).bind fun subject => (Orderly.expectSymbol _).bind fun _ => ?_
  refine Orderly.advance.bind fun _ => (switchCases_orderly orderly _).bind fun read => .ite ?_ (.pure _)
  exact Orderly.look_bind fun c => Orderly.report rfl _

theorem paramsAndBody_orderly : (paramsAndBody sub).Orderly tokens :=
  (Orderly.expectSymbol _).bind fun _ => (Orderly.identifier.items _ _).bind fun _ =>
    (Orderly.expectSymbol _).bind fun _ => (block_orderly orderly).bind fun _ => .pure _

/-!
### Expressions
-/

theorem hashEntries_orderly (rounds : Nat) : (hashEntries sub rounds).Orderly tokens := by
  induction rounds with
  | zero => exact .drop
  | succ rounds inductionHypothesis =>
      refine (Orderly.look _).bind fun isClosed => .ite (Orderly.advance.bind fun _ => .pure _) ?_
      refine Orderly.advance.bind fun _ => (orderly _).bind fun key => (Orderly.expectSymbol _).bind fun _ => ?_
      refine Orderly.advance.bind fun _ => (orderly _).bind fun value => (Orderly.look _).bind fun isLast => ?_
      cases isLast with
      | true => exact inductionHypothesis.bind fun _ => .pure _
      | false => exact (Orderly.expectSymbol _).bind fun _ => inductionHypothesis.bind fun _ => .pure _

theorem unary_orderly (op : UnaryOp) : (unary sub op).Orderly tokens :=
  Orderly.advance.bind fun _ => (orderly _).bind fun _ => .pure _

theorem parenthesised_orderly : (parenthesised sub).Orderly tokens :=
  Orderly.advance.bind fun _ => (orderly _).bind fun _ => (Orderly.expectSymbol _).bind fun _ => .pure _

theorem operand_orderly : (operand sub).Orderly tokens := by
  refine Orderly.look_bind fun c => ?_
  split
  · exact Orderly.pure _ c
  · split
    · exact Orderly.pure _ c
    · exact Orderly.report rfl _
  · split
    · exact Orderly.pure _ c
    · exact Orderly.report rfl _
  · exact Orderly.pure _ c
  · exact Orderly.pure _ c
  · exact Orderly.pure _ c
  · exact Orderly.pure _ c
  · exact unary_orderly orderly _ c
  · exact unary_orderly orderly _ c
  · exact parenthesised_orderly orderly c
  · exact ((orderly _).items _ _).bind (fun _ => .pure _) c
  · exact (hashEntries_orderly orderly _).bind (fun _ => .pure _) c
  · exact conditional_orderly orderly c
  · exact switch_orderly orderly c
  · exact whileLoop_orderly orderly c
  · exact forLoop_orderly orderly c
  · exact (paramsAndBody_orderly orderly).bind (fun _ => .pure _) c
  · exact (paramsAndBody_orderly orderly).bind (fun _ => .pure _) c
  · exact Orderly.report rfl _
  · exact Orderly.report rfl _

/-- The symbol that continues an expression is the current token. -/
theorem continuation_orderly (left : Expr) (s : Symbol) (c : Cursor) :
    (continuation sub left c.current.position s).OrderlyFrom tokens c := by
  unfold continuation
  split
  · exact ((orderly _).items _ _).bind (fun _ => .pure _) c
  · exact Orderly.bind .advance (fun _ => (orderly _).bind fun _ => (Orderly.expectSymbol _).bind fun _ => .pure _) c
  · split
    · exact Orderly.report rfl _
    · exact Orderly.bind .advance (fun _ => (orderly _).bind fun _ => .pure _) c
    · exact Orderly.drop c

theorem extend_orderly (level : Level) (rounds : Nat) : ∀ left : Expr,
    (extend sub level rounds left).Orderly tokens := by
  induction rounds with
  | zero => exact fun _ => .drop
  | succ rounds inductionHypothesis =>
      intro left
      refine Orderly.look_bind fun c => ?_
      split
      · refine .advance_bind ?_
        split
        · rw [← c.advance_current]
          exact (continuation_orderly orderly left _ c.advance).bind inductionHypothesis
        · exact Orderly.drop c.advance
      · exact Orderly.pure _ c

end Readers

theorem expression_orderly {tokens : List Token} (rounds depth : Nat) : ∀ level,
    (expression rounds depth level).Orderly tokens := by
  induction depth with
  | zero => exact fun _ => .drop
  | succ depth inductionHypothesis =>
      intro level
      exact (operand_orderly inductionHypothesis).bind (extend_orderly inductionHypothesis level rounds)

end Parser

/-!
### Main result
-/

theorem Cursor.inOrder_ofTokens {tokens : List Token} (some : tokens ≠ []) :
    (Cursor.ofTokens tokens).InOrder tokens := by
  obtain ⟨t, ts, rfl⟩ := List.exists_cons_of_ne_nil some
  exact ⟨[], rfl, .none _⟩

/-- Whatever the text, its diagnostics are noted along its tokens. -/
theorem parse_notedAlong (source : String) :
    NotedAlong (Token.scan source) ((parse source).diagnostics.map Diagnostic.position) := by
  have nonempty : Token.scan source ≠ [] := by
    intro isEmpty
    exact absurd (Token.scan_ended source) (by rw [isEmpty]; exact id)
  have starts := Cursor.inOrder_ofTokens nonempty
  let bound := (Token.scan source).length + 1
  let sub : Parser.Sub := ⟨Parser.expression bound bound, bound⟩
  have reads : (Parser.statementsUntil sub (· = .endOfText) bound).Orderly (Token.scan source) :=
    Parser.statementsUntil_orderly (Parser.expression_orderly bound bound) _ bound
  let last := ((Parser.statementsUntil sub (· = .endOfText) bound).run (Cursor.ofTokens (Token.scan source))).2
  have isLast : (parse source).diagnostics = last.diagnostics.reverse := rfl
  have ends : last.advance.InOrder (Token.scan source) := reads.recovers _ starts
  obtain ⟨passed, inside, noted⟩ := ends
  rw [Cursor.advance_diagnostics] at noted
  rw [isLast, List.map_reverse, inside, List.append_cons]
  exact noted.append _

/-- The diagnostics of a text are noted along its tokens, of which the end of the text is the last, each at the position
    of a token. In a text in which the counters of lines and columns do not overflow, the positions come in the order
    of reading. -/
theorem diagnostics_in_order (source : String) :
    NotedAlong (Token.scan source) ((parse source).diagnostics.map Diagnostic.position) ∧
      (∀ d ∈ (parse source).diagnostics, ∃ t ∈ Token.scan source, t.position = d.position) ∧
        (Position.Fits source.toList →
          ((parse source).diagnostics.map Diagnostic.position).Pairwise Position.AtMost) := by
  have noted := parse_notedAlong source
  refine ⟨noted, fun d member => ?_, fun fits => noted.pairwise (Token.scan_increasing fits)⟩
  exact noted.exists_token d.position (List.mem_map_of_mem member)

/-- The missing name is noted at the symbol behind `let`, from which reading goes on and which starts no statement;
    the missing brace is noted at the end of the text. -/
theorem diagnostics_in_order_around_let :
    let source := "if (a) \x7b let = 1"
    (parse source).diagnostics.map Diagnostic.position = [⟨1, 13⟩, ⟨1, 13⟩, ⟨1, 16⟩] ∧ Position.Fits source.toList ∧
      ((parse source).diagnostics.map Diagnostic.position).Pairwise Position.AtMost := by
  have fits : Position.Fits "if (a) \x7b let = 1".toList := .of_length_lt (by decide) (by decide)
  exact ⟨by rfl, fits, (diagnostics_in_order _).2.2 fits⟩

/-- Two characters that belong to no token stand behind blanks, each in a column of its own as far as the counters
    tell. -/
theorem Token.scan_illegal_behind_blanks (count : Nat) :
    Token.scan (String.ofList (List.replicate count ' ' ++ ['@', '@'])) =
      [⟨.illegal "@", ⟨1, .ofNat count⟩⟩, ⟨.illegal "@", ⟨1, .ofNat count + 1⟩⟩,
        ⟨.endOfText, ⟨1, .ofNat count + 1 + 1⟩⟩] := by
  have place : Position.behind (List.replicate count ' ') = ⟨1, .ofNat count⟩ := by
    simp [Position.behind, Position.lineBehind, Position.columnBehind, List.count_replicate]
  have skips : Lexer.skipLayout false .start (List.replicate count ' ' ++ ['@', '@']) =
      ⟨['@', '@'], ⟨1, .ofNat count⟩⟩ := by
    rw [Lexer.skipLayout_replicate rfl, Position.after_start, place]
    rfl
  have rounds : (List.replicate count ' ' ++ ['@', '@']).length + 1 = count + 3 := by simp
  have isNext : Lexer.next ⟨List.replicate count ' ' ++ ['@', '@'], .start⟩ =
      (⟨.illegal "@", ⟨1, .ofNat count⟩⟩, ⟨['@'], ⟨1, .ofNat count + 1⟩⟩) := by
    simp only [Lexer.next, skips]
    rfl
  rw [Token.scan, Lexer.ofSource, String.toList_ofList, rounds, Lexer.tokens, isNext]
  rfl

/-- The column of the second problem has overflowed, so that it comes in front of that of the first. -/
theorem diagnostics_out_of_order :
    let source := String.ofList (List.replicate (UInt32.size - 1) ' ' ++ ['@', '@'])
    (parse source).diagnostics.map Diagnostic.position = [⟨1, 4294967295⟩, ⟨1, 0⟩] ∧
      ¬((parse source).diagnostics.map Diagnostic.position).Pairwise Position.AtMost := by
  intro source
  have noted : (parse source).diagnostics.map Diagnostic.position = [⟨1, 4294967295⟩, ⟨1, 0⟩] := by
    rw [parse, Token.scan_illegal_behind_blanks]
    rfl
  refine ⟨noted, ?_⟩
  rw [noted]
  intro ordered
  have atMost : Position.AtMost ⟨1, 4294967295⟩ ⟨1, 0⟩ := List.rel_of_pairwise_cons ordered List.mem_cons_self
  simp [Position.AtMost] at atMost

end Quill
