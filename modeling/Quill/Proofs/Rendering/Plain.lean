/-
Module: Quill.Proofs.Rendering.Plain
Layer: Proofs
Purpose: The trees whose written form leaves nothing open. A floating point number, a switch and a loop that
  starts with an expression are not written as they are read, and an expression that stands as a statement
  has no semicolon, so that a bracket behind it would go on with it.
Main exports: Stmt.isExpression, Stmt.opensBracket, Expr.isPlain, Stmt.isPlain, plainBlock, Program.isPlain
-/
import Quill.Parser
import Quill.Tree.Printer

namespace Quill

/-!
### Plain trees
-/

/-- Whether a statement is an expression, which is written without a semicolon. -/
def Stmt.isExpression : Stmt → Bool
  | .expr _ => true
  | _ => false

/-- Whether a statement's text begins with a bracket, which would go on with an expression before it. -/
def Stmt.opensBracket (s : Stmt) : Bool :=
  s.render.toList.head? = some '(' || s.render.toList.head? = some '['

/-- Whether a statement stays apart from the statement behind it. -/
def Stmt.staysApart (s : Stmt) : List Stmt → Bool
  | [] => true
  | next :: _ => !(s.isExpression && next.opensBracket)

mutual

/-- A plain expression: it has no floating point number, no switch and no loop that starts with an
    expression, and in its blocks no statement runs into the next one. -/
def Expr.isPlain : Expr → Bool
  | .ident _ | .integer _ | .boolean _ | .text _ | .null => true
  | .float _ => false
  | .array items => plainExprs items
  | .hash pairs => plainPairs pairs
  | .unary _ operand => operand.isPlain
  | .binary _ left right => left.isPlain && right.isPlain
  | .conditional clauses otherwise => plainClauses clauses && plainOtherwise otherwise
  | .switch _ _ _ => false
  | .whileLoop condition body => condition.isPlain && plainBlock body
  | .forLoop start condition step body =>
    !start.isExpression && start.isPlain && condition.isPlain && step.isPlain && plainBlock body
  | .function _ _ body => plainBlock body
  | .call callee args => callee.isPlain && plainExprs args
  | .index subject key => subject.isPlain && key.isPlain
  | .macroLiteral _ body => plainBlock body
termination_by structural e => e

/-- A plain statement: its expression is plain. -/
def Stmt.isPlain : Stmt → Bool
  | .bind _ value => value.isPlain
  | .bindConst _ value => value.isPlain
  | .assign _ value => value.isPlain
  | .ret value => value.isPlain
  | .expr e => e.isPlain
termination_by structural s => s

/-- Plain expressions. -/
def plainExprs : List Expr → Bool
  | [] => true
  | e :: es => e.isPlain && plainExprs es
termination_by structural es => es

/-- Entries of plain expressions. -/
def plainPairs : List (Expr × Expr) → Bool
  | [] => true
  | (key, value) :: pairs => key.isPlain && value.isPlain && plainPairs pairs
termination_by structural pairs => pairs

/-- Clauses with plain conditions and blocks. -/
def plainClauses : List (Expr × List Stmt) → Bool
  | [] => true
  | (guard, body) :: clauses => guard.isPlain && plainBlock body && plainClauses clauses
termination_by structural clauses => clauses

/-- A plain block, if there is one. -/
def plainOtherwise : Option (List Stmt) → Bool
  | none => true
  | some body => plainBlock body
termination_by structural body => body

/-- A block of plain statements that stay apart. -/
def plainBlock : List Stmt → Bool
  | [] => true
  | s :: ss => s.isPlain && s.staysApart ss && plainBlock ss
termination_by structural ss => ss

end

/-- A plain program: its statements are plain, and only the last one may be an expression. -/
def Program.isPlain (p : Program) : Bool :=
  p.statements.all Stmt.isPlain && p.statements.dropLast.all (fun s => !s.isExpression)

/-!
### Parts of plain trees
-/

theorem mem_plainExprs {es : List Expr} (plain : plainExprs es = true) : ∀ e ∈ es, e.isPlain = true := by
  induction es with
  | nil => nofun
  | cons e es inductionHypothesis =>
      simp only [plainExprs, Bool.and_eq_true] at plain
      exact List.forall_mem_cons.2 ⟨plain.1, inductionHypothesis plain.2⟩

theorem mem_plainPairs {pairs : List (Expr × Expr)} (plain : plainPairs pairs = true) :
    ∀ pair ∈ pairs, pair.1.isPlain = true ∧ pair.2.isPlain = true := by
  induction pairs with
  | nil => nofun
  | cons pair pairs inductionHypothesis =>
      simp only [plainPairs, Bool.and_eq_true] at plain
      exact List.forall_mem_cons.2 ⟨plain.1, inductionHypothesis plain.2⟩

theorem mem_plainClauses {clauses : List (Expr × Block)} (plain : plainClauses clauses = true) :
    ∀ clause ∈ clauses, clause.1.isPlain = true ∧ plainBlock clause.2 = true := by
  induction clauses with
  | nil => nofun
  | cons clause clauses inductionHypothesis =>
      simp only [plainClauses, Bool.and_eq_true] at plain
      exact List.forall_mem_cons.2 ⟨plain.1, inductionHypothesis plain.2⟩

theorem mem_plainBlock {body : Block} (plain : plainBlock body = true) : ∀ s ∈ body, s.isPlain = true := by
  induction body with
  | nil => nofun
  | cons s ss inductionHypothesis =>
      simp only [plainBlock, Bool.and_eq_true] at plain
      exact List.forall_mem_cons.2 ⟨plain.1.1, inductionHypothesis plain.2⟩

/-!
### Names of functions

The name that a function has from its binding is neither written nor looked at.
-/

theorem Expr.isPlain_named (e : Expr) (name : String) : (e.named name).isPlain = e.isPlain := by
  unfold Expr.named
  split
  · simp only [Expr.isPlain]
  · rfl

theorem Expr.render_named (e : Expr) (name : String) : (e.named name).render = e.render := by
  unfold Expr.named
  split
  · simp only [Expr.render]
  · rfl

end Quill
