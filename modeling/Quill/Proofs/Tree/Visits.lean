/-
Module: Quill.Proofs.Tree.Visits
Layer: Proofs
Purpose: The trees that a traversal visits: the tree itself and, before it, its parts from left to right, parameters
  among them as names. With a tree, the trees below it are visited too.
Main exports: Expr.parts, Stmt.parts, blockParts, Node.visits, Program.visits, Downward, Node.visits_subset
-/
import Quill.Tree

namespace Quill

/-!
### Visits

`parts` are the trees below a tree, each after its own parts, in the order of a traversal.
-/

/-- Parameters are visited as names. -/
def paramParts (params : List String) : List Node :=
  params.map fun param => .expr (.ident param)

mutual

/-- The trees below an expression. -/
def Expr.parts : Expr → List Node
  | .ident _ | .integer _ | .float _ | .boolean _ | .text _ | .null => []
  | .array items => exprParts items
  | .hash pairs => pairParts pairs
  | .unary _ operand => operand.parts ++ [.expr operand]
  | .binary _ left right => left.parts ++ [.expr left] ++ (right.parts ++ [.expr right])
  | .conditional clauses otherwise => clauseParts clauses ++ otherwiseParts otherwise
  | .switch subject cases otherwise =>
    subject.parts ++ [.expr subject] ++ (clauseParts cases ++ otherwiseParts otherwise)
  | .whileLoop condition body => condition.parts ++ [.expr condition] ++ (blockParts body ++ [.block body])
  | .forLoop start condition step body =>
    start.parts ++ [.stmt start] ++ (condition.parts ++ [.expr condition] ++
      (step.parts ++ [.stmt step] ++ (blockParts body ++ [.block body])))
  | .function _ params body => paramParts params ++ (blockParts body ++ [.block body])
  | .call callee args => callee.parts ++ [.expr callee] ++ exprParts args
  | .index subject key => subject.parts ++ [.expr subject] ++ (key.parts ++ [.expr key])
  | .macroLiteral params body => paramParts params ++ (blockParts body ++ [.block body])
termination_by structural e => e

/-- The trees below a statement. Names that are bound or assigned are none. -/
def Stmt.parts : Stmt → List Node
  | .bind _ value => value.parts ++ [.expr value]
  | .bindConst _ value => value.parts ++ [.expr value]
  | .assign _ value => value.parts ++ [.expr value]
  | .ret value => value.parts ++ [.expr value]
  | .expr e => e.parts ++ [.expr e]
termination_by structural s => s

/-- Expressions, each after the trees below it. -/
def exprParts : List Expr → List Node
  | [] => []
  | e :: es => e.parts ++ [.expr e] ++ exprParts es
termination_by structural es => es

/-- The entries of a hash, each key before its value. -/
def pairParts : List (Expr × Expr) → List Node
  | [] => []
  | (key, value) :: ps => key.parts ++ [.expr key] ++ (value.parts ++ [.expr value] ++ pairParts ps)
termination_by structural ps => ps

/-- Guarded blocks, each guard before its block. -/
def clauseParts : List (Expr × List Stmt) → List Node
  | [] => []
  | (guard, body) :: cs => guard.parts ++ [.expr guard] ++ (blockParts body ++ [.block body] ++ clauseParts cs)
termination_by structural cs => cs

/-- A block that may be missing. -/
def otherwiseParts : Option (List Stmt) → List Node
  | none => []
  | some body => blockParts body ++ [.block body]
termination_by structural b => b

/-- The trees below a block. -/
def blockParts : List Stmt → List Node
  | [] => []
  | s :: ss => s.parts ++ [.stmt s] ++ blockParts ss
termination_by structural ss => ss

end

/-- The trees below a tree. -/
def Node.parts : Node → List Node
  | program p => blockParts p.statements
  | block b => blockParts b
  | stmt s => s.parts
  | expr e => e.parts

/-- A tree after the trees below it. -/
def Node.visits (n : Node) : List Node :=
  n.parts ++ [n]

/-- The trees that a traversal of a program visits. -/
def Program.visits (p : Program) : List Node :=
  (Node.program p).visits

/-!
### Parts of parts
-/

/-- With each of the trees, the trees below it are among them. -/
def Downward (ns : List Node) : Prop :=
  ∀ n ∈ ns, ∀ part ∈ n.parts, part ∈ ns

namespace Downward

theorem nil : Downward [] :=
  fun _ member => absurd member List.not_mem_nil

theorem append {ns others : List Node} (first : Downward ns) (second : Downward others) : Downward (ns ++ others) := by
  intro n member part below
  rcases List.mem_append.1 member with left | right
  · exact List.mem_append_left _ (first n left part below)
  · exact List.mem_append_right _ (second n right part below)

theorem visits (n : Node) (below : Downward n.parts) : Downward n.visits := by
  intro other member part isPart
  rcases List.mem_append.1 member with inside | isWhole
  · exact List.mem_append_left _ (below other inside part isPart)
  · rw [List.mem_singleton.1 isWhole] at isPart
    exact List.mem_append_left _ isPart

theorem params (params : List String) : Downward (paramParts params) := by
  intro n member part below
  obtain ⟨param, _, rfl⟩ := List.mem_map.1 member
  cases below

mutual

theorem exprParts : ∀ e : Expr, Downward e.parts
  | .ident _ | .integer _ | .float _ | .boolean _ | .text _ | .null => nil
  | .array items => listParts items
  | .hash pairs => pairParts pairs
  | .unary _ operand => visits (.expr operand) (exprParts operand)
  | .binary _ left right => (visits (.expr left) (exprParts left)).append (visits (.expr right) (exprParts right))
  | .conditional clauses otherwise => (clauseParts clauses).append (otherwiseParts otherwise)
  | .switch subject cases otherwise =>
      (visits (.expr subject) (exprParts subject)).append ((clauseParts cases).append (otherwiseParts otherwise))
  | .whileLoop condition body =>
      (visits (.expr condition) (exprParts condition)).append (visits (.block body) (blockParts body))
  | .forLoop start condition step body =>
      (visits (.stmt start) (stmtParts start)).append ((visits (.expr condition) (exprParts condition)).append
        ((visits (.stmt step) (stmtParts step)).append (visits (.block body) (blockParts body))))
  | .function _ names body => (params names).append (visits (.block body) (blockParts body))
  | .call callee args => (visits (.expr callee) (exprParts callee)).append (listParts args)
  | .index subject key => (visits (.expr subject) (exprParts subject)).append (visits (.expr key) (exprParts key))
  | .macroLiteral names body => (params names).append (visits (.block body) (blockParts body))

theorem stmtParts : ∀ s : Stmt, Downward s.parts
  | .bind _ value => visits (.expr value) (exprParts value)
  | .bindConst _ value => visits (.expr value) (exprParts value)
  | .assign _ value => visits (.expr value) (exprParts value)
  | .ret value => visits (.expr value) (exprParts value)
  | .expr e => visits (.expr e) (exprParts e)

theorem listParts : ∀ es : List Expr, Downward (Quill.exprParts es)
  | [] => nil
  | e :: es => (visits (.expr e) (exprParts e)).append (listParts es)

theorem pairParts : ∀ ps : List (Expr × Expr), Downward (Quill.pairParts ps)
  | [] => nil
  | (key, value) :: ps =>
      (visits (.expr key) (exprParts key)).append ((visits (.expr value) (exprParts value)).append (pairParts ps))

theorem clauseParts : ∀ cs : List (Expr × List Stmt), Downward (Quill.clauseParts cs)
  | [] => nil
  | (guard, body) :: cs =>
      (visits (.expr guard) (exprParts guard)).append ((visits (.block body) (blockParts body)).append (clauseParts cs))

theorem otherwiseParts : ∀ b : Option (List Stmt), Downward (Quill.otherwiseParts b)
  | none => nil
  | some body => visits (.block body) (blockParts body)

theorem blockParts : ∀ ss : List Stmt, Downward (Quill.blockParts ss)
  | [] => nil
  | s :: ss => (visits (.stmt s) (stmtParts s)).append (blockParts ss)

end

end Downward

theorem Node.downward_visits (n : Node) : Downward n.visits := by
  refine Downward.visits n ?_
  cases n with
  | program p => exact Downward.blockParts p.statements
  | block b => exact Downward.blockParts b
  | stmt s => exact Downward.stmtParts s
  | expr e => exact Downward.exprParts e

/-- A traversal that visits a tree visits all that a traversal of that tree visits. -/
theorem Node.visits_subset {n part : Node} (visited : part ∈ n.visits) : part.visits ⊆ n.visits := by
  intro other member
  rcases List.mem_append.1 member with below | isPart
  · exact n.downward_visits part visited other below
  · rwa [List.mem_singleton.1 isPart]

theorem mem_exprParts {e : Expr} {es : List Expr} (member : e ∈ es) : .expr e ∈ exprParts es := by
  induction es with
  | nil => cases member
  | cons first rest inductionHypothesis =>
      rcases List.mem_cons.1 member with rfl | inRest
      · exact List.mem_append_left _ (List.mem_append_right _ List.mem_cons_self)
      · exact List.mem_append_right _ (inductionHypothesis inRest)

theorem Expr.arg_mem_visits {callee arg : Expr} {args : List Expr} (member : arg ∈ args) :
    .expr arg ∈ (Node.expr (.call callee args)).visits :=
  List.mem_append_left _ (List.mem_append_right _ (mem_exprParts member))

end Quill
