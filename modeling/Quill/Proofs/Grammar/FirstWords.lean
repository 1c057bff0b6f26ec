/-
Module: Quill.Proofs.Grammar.FirstWords
Layer: Proofs
Purpose: With what phrases begin. A reader decides by the current token and the one behind it what it
  reads, so completeness needs to know which lexemes can stand first in an expression or a statement, and
  which can follow a name that stands first.
Main exports: Lexeme.opensExpression, Lexeme.opens, Lexeme.resumes, Derives.opensExpression,
  Derives.opensStatement, Derives.length_pos
-/
import Quill.Proofs.Grammar

namespace Quill

namespace Lexeme

/-- The lexemes with which an expression begins. -/
def opensExpression : Lexeme → Bool
  | identifier _ | integer _ | decimal _ | quoted _ => true
  | symbol .bang | symbol .minus | symbol .leftParen | symbol .leftBracket | symbol .leftCurly => true
  | keyword .trueWord | keyword .falseWord | keyword .nullWord => true
  | keyword .ifWord | keyword .switchWord | keyword .whileWord | keyword .forWord => true
  | keyword .fnWord | keyword .macroWord => true
  | _ => false

/-- The lexemes with which a statement begins. -/
def opens : Lexeme → Bool
  | keyword .letWord | keyword .constWord | keyword .returnWord => true
  | l => l.opensExpression

/-- The lexemes that a reader takes in behind what could be a whole statement: they make an assignment of
    a name, or go on with a conditional. -/
def resumes : Lexeme → Bool
  | keyword .elseWord | symbol .assign => true
  | symbol s => s.compound?.isSome || s.step?.isSome
  | _ => false

variable {l : Lexeme}

theorem opens_of_opensExpression (opens : l.opensExpression = true) : l.opens = true := by
  cases l with
  | keyword k => cases k <;> first | rfl | exact opens
  | _ => exact opens

theorem resumes_of_opens (opens : l.opens = true) : l.resumes = false := by
  cases l with
  | keyword k => cases k <;> first | rfl | contradiction
  | symbol s => cases s <;> first | rfl | contradiction
  | _ => rfl

theorem ne_of_opens {other : Lexeme} (opens : l.opens = true) (closed : other.opens = false) :
    l ≠ other := by
  rintro rfl
  simp [opens] at closed

end Lexeme

/-- What stands behind a name at the front of an expression: nothing, an operator or a bracket. -/
def FollowsName (ws : List Lexeme) : Prop :=
  ws = [] ∨ ∃ s rest, ws = .symbol s :: rest ∧ s.level ≠ .lowest ∧ s.step? = none

theorem FollowsName.append {ws : List Lexeme} {s : Symbol} (follows : FollowsName ws)
    (tight : s.level ≠ .lowest) (noStep : s.step? = none) (rest : List Lexeme) :
    FollowsName (ws ++ .symbol s :: rest) := by
  rcases follows with rfl | ⟨s', rest', rfl, tight', noStep'⟩
  · exact .inr ⟨s, rest, rfl, tight, noStep⟩
  · exact .inr ⟨s', rest' ++ .symbol s :: rest, rfl, tight', noStep'⟩

/-- The words of an expression begin as expressions do. -/
structure OpensExpression (w : Lexeme) (ws : List Lexeme) : Prop where
  opens : w.opensExpression = true
  named : ∀ name, w = .identifier name → FollowsName ws

theorem OpensExpression.append {head : List Lexeme} {s : Symbol}
    (begins : ∃ w rest, head = w :: rest ∧ OpensExpression w rest) (tight : s.level ≠ .lowest)
    (noStep : s.step? = none) (more : List Lexeme) :
    ∃ w rest, head ++ .symbol s :: more = w :: rest ∧ OpensExpression w rest := by
  obtain ⟨w, rest, rfl, opens⟩ := begins
  refine ⟨w, rest ++ .symbol s :: more, rfl, opens.opens, ?_⟩
  intro name isName
  exact (opens.named name isName).append tight noStep more

theorem OpensExpression.of_other {w : Lexeme} (ws : List Lexeme) (opens : w.opensExpression = true)
    (other : ∀ name, w ≠ .identifier name) : OpensExpression w ws := by
  constructor
  · exact opens
  · intro name isName
    exact absurd isName (other name)

/-- How the words of a phrase begin, for the phrases whose first word decides how they are read. -/
def Phrase.Begins : Phrase → List Lexeme → Prop
  | .expression _ _, ws => ∃ w rest, ws = w :: rest ∧ OpensExpression w rest
  | .statement _ _, ws => ∃ w rest, ws = w :: rest ∧ w.opens = true
  | .statements _ _, ws => ∀ w rest, ws = w :: rest → w = .symbol .semicolon ∨ w.opens = true
  | _, _ => True

/-- The induction is over the derivation: only operators, calls and indexing begin with another phrase. -/
theorem Derives.begins {phrase : Phrase} {ws : List Lexeme} (derives : Derives phrase ws) :
    phrase.Begins ws := by
  have leaf : ∀ {w : Lexeme} {ws : List Lexeme}, w.opensExpression = true →
      (∀ name, w ≠ .identifier name) → ∃ v rest, w :: ws = v :: rest ∧ OpensExpression v rest := by
    intro w ws opens other
    exact ⟨w, ws, rfl, .of_other ws opens other⟩
  induction derives with
  | ident name => exact ⟨_, _, rfl, rfl, fun _ _ => .inl rfl⟩
  | integer spelled => exact leaf rfl nofun
  | float spelled => exact leaf rfl nofun
  | text content => exact leaf rfl nofun
  | trueWord => exact leaf rfl nofun
  | falseWord => exact leaf rfl nofun
  | null => exact leaf rfl nofun
  | parenthesised inner _ => exact leaf rfl nofun
  | array each _ => exact leaf rfl nofun
  | hash inner _ => exact leaf rfl nofun
  | conditional clause elses _ _ => exact leaf rfl nofun
  | switch subject cases _ _ => exact leaf rfl nofun
  | whileLoop clause _ => exact leaf rfl nofun
  | forLoop start condition step body _ _ _ _ => exact leaf rfl nofun
  | function body _ => exact leaf rfl nofun
  | macroLiteral body _ => exact leaf rfl nofun
  | call callee each inductionHypothesis _ =>
      rw [List.append_assoc]
      exact OpensExpression.append (s := .leftParen) inductionHypothesis nofun rfl _
  | index subject key inductionHypothesis _ =>
      rw [List.append_assoc]
      exact OpensExpression.append (s := .leftBracket) inductionHypothesis nofun rfl _
  | unary op operand _ => cases op <;> exact leaf rfl nofun
  | binary op left right inductionHypothesis _ =>
      have tight : op.symbol.level ≠ .lowest := by cases op <;> nofun
      have noStep : op.symbol.step? = none := by cases op <;> rfl
      exact OpensExpression.append inductionHypothesis tight noStep _
  | looser le derives inductionHypothesis => exact inductionHypothesis
  | bind name ends value _ => exact ⟨_, _, rfl, rfl⟩
  | bindConst name ends value _ => exact ⟨_, _, rfl, rfl⟩
  | assign name ends value _ => exact ⟨_, _, rfl, rfl⟩
  | compound name isCompound ends value _ => exact ⟨_, _, rfl, rfl⟩
  | step name isStep => exact ⟨_, _, rfl, rfl⟩
  | ret ends value _ => exact ⟨_, _, rfl, rfl⟩
  | retNull ends => exact ⟨_, _, rfl, rfl⟩
  | expr ends derives inductionHypothesis =>
      obtain ⟨w, rest, rfl, opens⟩ := inductionHypothesis
      exact ⟨w, rest, rfl, Lexeme.opens_of_opensExpression opens.opens⟩
  | noStatements next => exact nofun
  | semicolon others _ =>
      intro w rest isFirst
      exact .inl (List.cons.inj isFirst).1.symm
  | closed first others inductionHypothesis _ =>
      obtain ⟨v, rest', rfl, opens⟩ := inductionHypothesis
      intro w rest isFirst
      exact .inr ((List.cons.inj isFirst).1 ▸ opens)
  | unclosed isOpen first others inductionHypothesis _ =>
      obtain ⟨v, rest', rfl, opens⟩ := inductionHypothesis
      intro w rest isFirst
      exact .inr ((List.cons.inj isFirst).1 ▸ opens)
  | _ => trivial

namespace Derives

variable {grade : Level} {e : Expr} {s : Stmt} {next : Lexeme} {ws : List Lexeme}

theorem opensExpression (derives : Derives (.expression grade e) ws) :
    ∃ w rest, ws = w :: rest ∧ OpensExpression w rest :=
  derives.begins

theorem opensStatement (derives : Derives (.statement next s) ws) :
    ∃ w rest, ws = w :: rest ∧ w.opens = true :=
  derives.begins

theorem length_pos (derives : Derives (.expression grade e) ws) : 0 < ws.length := by
  obtain ⟨w, rest, rfl, _⟩ := derives.opensExpression
  exact Nat.succ_pos _

end Derives

end Quill
