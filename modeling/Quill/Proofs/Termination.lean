/-
Module: Quill.Proofs.Termination
Layer: Proofs
Purpose: Reading ends on every text, well-formed or not. The loops and the recursion of the parser come to an
  end by themselves, within as many rounds as there are words left; so the bounds that the parser is given do
  not show in what it reads, and a whole text is left only at its end.
Main exports: Parser.Terminating, Parser.statementsUntil_consumes, parse_terminates
-/
import Quill.Proofs.Parsing
import Quill.Proofs.Parser.Progress

namespace Quill

namespace Parse

variable {α β : Type} {c : Cursor} {goal : Cursor → Prop}

/-- Run from `c`, the computation yields something, whatever it reports, at a cursor of which `goal` holds. -/
def Completes (p : Parse α) (c : Cursor) (goal : Cursor → Prop) : Prop :=
  ∃ a c', p.run c = (some a, c') ∧ goal c'

namespace Completes

theorem yield {a : α} (holds : goal c) : Completes (pure a) c goal :=
  ⟨a, c, rfl, holds⟩

theorem look (view : Cursor → α) (c : Cursor) : Completes (look view) c fun _ => True :=
  ⟨view c, c, rfl, trivial⟩

theorem advance (c : Cursor) : Completes Parse.advance c fun _ => True :=
  ⟨(), c.advance, rfl, trivial⟩

theorem tolerate (p : Parse α) (c : Cursor) : Completes (tolerate p) c fun _ => True :=
  ⟨(p.run c).1, (p.run c).2, rfl, trivial⟩

theorem bind {p : Parse α} {f : α → Parse β} {between : Cursor → Prop} (first : Completes p c between)
    (next : ∀ a c', p.run c = (some a, c') → between c' → Completes (f a) c' goal) :
    Completes (p >>= f) c goal := by
  obtain ⟨a, c₁, run, reached⟩ := first
  obtain ⟨b, c₂, run', holds⟩ := next a c₁ run reached
  refine ⟨b, c₂, ?_, holds⟩
  show (andThen p f).run c = _
  simpa [andThen, run] using run'

end Completes

end Parse

namespace Parser

open Parse

/-- Every loop of the parser comes to an end by itself, whatever it reads its parts with, and so does the
    recursion into the expressions inside an expression. -/
structure Terminating : Prop where
  lists : ∀ {α : Type} (item : Parse α),
    Terminates (fun bound _ => moreItems item bound) (moreItemsRound item)
  statements : ∀ sub closes,
    Terminates (fun bound _ => statementsUntil sub closes bound) (statementsUntilRound sub closes)
  entries : ∀ sub, Terminates (fun bound _ => hashEntries sub bound) (hashEntriesRound sub)
  clauses : ∀ sub, Terminates (fun bound _ => elseClauses sub bound) (elseClausesRound sub)
  cases : ∀ sub, Terminates (fun bound _ => switchCases sub bound) (switchCasesRound sub)
  operators : ∀ sub level, Terminates (extend sub level) (extendRound sub level)
  nesting : ∀ rounds, Terminates (expression rounds) (expressionRound rounds)

theorem terminating : Terminating where
  lists := moreItems_terminates
  statements := statementsUntil_terminates
  entries := hashEntries_terminates
  clauses := elseClauses_terminates
  cases := switchCases_terminates
  operators := extend_terminates
  nesting := expression_terminates

/-!
### A whole text
-/

/-- A statement is never dropped, whatever faults it has. -/
theorem statement_completes (sub : Sub) (c : Cursor) : Completes (statement sub) c fun _ => True := by
  apply Completes.bind (.look _ c)
  intro isEmpty c₁ _ _
  cases isEmpty with
  | true => exact .yield trivial
  | false =>
      apply Completes.bind (.tolerate _ c₁)
      intro s c₂ _ _
      apply Completes.bind (.look _ c₂)
      intro isSemicolon c₃ _ _
      cases isSemicolon with
      | true => exact .bind (.advance c₃) fun _ _ _ _ => .yield trivial
      | false => exact .yield trivial

/-- The statements of a whole text are read up to its end and nowhere else; the induction is on the rounds, of
    which each leaves a word behind. -/
theorem statementsUntil_consumes (sub : Sub) (rounds : Nat) : ∀ {n c}, n ≤ rounds → Room n c →
    Completes (statementsUntil sub (· = .endOfText) rounds) c (·.words = [.endOfText]) := by
  induction rounds with
  | zero =>
      intro n c small room
      exact absurd (Nat.le_zero.1 small) room.pos
  | succ rounds inductionHypothesis =>
      intro n c small room
      obtain ⟨k, rfl⟩ := Nat.exists_eq_succ_of_ne_zero room.pos
      apply Completes.bind (.look _ c)
      intro token c₁ run _
      cases run
      split
      · rename_i isLast
        have last : c.current.lexeme = .endOfText := Token.hasKind_endOfText.1 isLast
        have ended := room.1
        exact .yield (by simpa [Cursor.words, Ended, last] using ended)
      · rename_i notLast
        split
        · contradiction
        · have more : c.current.lexeme ≠ .endOfText := fun last => notLast (Token.hasKind_endOfText.2 last)
          apply Completes.bind (statement_completes sub c)
          intro first c₂ run _
          have room₃ : Room k c₂.advance := room.advance_behind more (precedes_of_run run)
          apply Completes.bind (.advance c₂)
          intro _ c₃ run _
          cases run
          apply Completes.bind (inductionHypothesis (Nat.le_of_succ_le_succ small) room₃)
          exact fun rest c₄ _ reached => .yield reached

/-- Bounds above the number of tokens do not show in what is read. -/
theorem readers_same {n rounds rounds' depth depth' : Nat} (more : n < rounds) (more' : n < rounds')
    (deep : n < depth) (deep' : n < depth') (closes : Kind → Bool) :
    SameWithin n (statementsUntil ⟨expression rounds depth, rounds⟩ closes rounds)
      (statementsUntil ⟨expression rounds' depth', rounds'⟩ closes rounds') := by
  have ample : Ample (n + 1) rounds rounds' := .inr ⟨more, more'⟩
  have expressions := expression_same (ample.mono (Nat.le_succ n))
    (.inr ⟨Nat.le_of_lt deep, Nat.le_of_lt deep'⟩)
  exact statementsUntil_same ⟨expressions, ample⟩ closes (ample.mono (Nat.le_succ n))

end Parser

/-- Reading a text comes to an end, whether the text is well-formed or not. Every loop of the parser and the
    recursion into nested expressions does so by itself: a round goes on only with fewer words left, and a
    bound of the number of words left is not reached. Hence any bounds above the number of tokens lead to the
    same statements and diagnostics, and to the one cursor at which only the end of the text is left. -/
theorem parse_terminates (source : String) :
    Parser.Terminating ∧ ∃ last : Cursor, last.words = [.endOfText] ∧
      (parse source).diagnostics = last.diagnostics.reverse ∧
      ∀ rounds depth, (Token.scan source).length < rounds → (Token.scan source).length < depth →
        (Parser.statementsUntil ⟨Parser.expression rounds depth, rounds⟩ (· = .endOfText) rounds).run
          (Cursor.ofTokens (Token.scan source)) = (some (parse source).program.statements, last) := by
  have room := Parser.ofTokens_room (Token.scan_ended source)
  have completes : Parse.Completes (Parser.programReader (Token.scan source).length)
      (Cursor.ofTokens (Token.scan source)) (·.words = [.endOfText]) :=
    Parser.statementsUntil_consumes _ _ (Nat.le_succ _) room
  obtain ⟨statements, last, run, atEnd⟩ := completes
  have parsed : parse source = ⟨⟨statements⟩, last.diagnostics.reverse⟩ := by
    unfold Parser.programReader at run
    simp only [parse, parseTokens, run, Option.getD_some]
  refine ⟨Parser.terminating, last, atEnd, ?_, ?_⟩
  · rw [parsed]
  · intro rounds depth more deep
    rw [parsed, ← run]
    exact Parser.readers_same more (Nat.lt_succ_self _) deep (Nat.lt_succ_self _) _ _ room

end Quill
