/-
Module: Quill.Tree
Layer: Trees
Purpose: The abstract syntax of the language. A program is a list of statements; statements bind, assign,
  return or evaluate expressions; every other construct, loops and conditionals included, is an
  expression. A block is a list of statements between curly braces. `Node` is any of the four kinds of
  tree, which is what a quotation holds and what a traversal hands around.
Main exports: Expr, Stmt, Block, Program, Node, NodeKind, Node.same
-/
import Quill.Operator

namespace Quill

mutual

/-- Expressions. -/
inductive Expr where
  | ident (name : String)
  | integer (value : Int64)
  | float (value : Float)
  | boolean (value : Bool)
  | text (content : String)
  | null
  | array (items : List Expr)
  | hash (pairs : List (Expr × Expr))
  | unary (op : UnaryOp) (operand : Expr)
  | binary (op : BinaryOp) (left right : Expr)
  | conditional (clauses : List (Expr × List Stmt)) (otherwise : Option (List Stmt))
  | switch (subject : Expr) (cases : List (Expr × List Stmt)) (otherwise : Option (List Stmt))
  | whileLoop (condition : Expr) (body : List Stmt)
  | forLoop (start : Stmt) (condition : Expr) (step : Stmt) (body : List Stmt)
  | function (name : Option String) (params : List String) (body : List Stmt)
  | call (callee : Expr) (args : List Expr)
  | index (subject key : Expr)
  | macroLiteral (params : List String) (body : List Stmt)

/-- Statements. `bindConst` makes a name that cannot be bound or assigned again. -/
inductive Stmt where
  | bind (name : String) (value : Expr)
  | bindConst (name : String) (value : Expr)
  | assign (name : String) (value : Expr)
  | ret (value : Expr)
  | expr (e : Expr)

end

/-- The statements between two curly braces. -/
abbrev Block := List Stmt

/-- A whole source text. -/
structure Program where
  statements : List Stmt

/-- The four kinds of tree. -/
inductive NodeKind where
  | program
  | block
  | stmt
  | expr
deriving DecidableEq

/-- A tree of any kind. -/
inductive Node where
  | program (p : Program)
  | block (b : Block)
  | stmt (s : Stmt)
  | expr (e : Expr)

/-- The kind of a tree. -/
def Node.kind : Node → NodeKind
  | program _ => .program
  | block _ => .block
  | stmt _ => .stmt
  | expr _ => .expr

/-!
### Sameness of trees

Two trees are the same when they have the same shape and the same names and literals. Floating point
literals are compared as numbers, so that a tree with a literal that is not a number is not even the
same as itself, and the two zeros are the same.
-/

mutual

/-- Sameness of expressions. -/
def Expr.same : Expr → Expr → Bool
  | .ident a, .ident b => a == b
  | .integer a, .integer b => a == b
  | .float a, .float b => a == b
  | .boolean a, .boolean b => a == b
  | .text a, .text b => a == b
  | .null, .null => true
  | .array as, .array bs => sameExprs as bs
  | .hash as, .hash bs => samePairs as bs
  | .unary op a, .unary op' b => op = op' && a.same b
  | .binary op a b, .binary op' a' b' => op = op' && a.same a' && b.same b'
  | .conditional cs o, .conditional cs' o' => sameClauses cs cs' && sameOptionalBlock o o'
  | .switch s cs o, .switch s' cs' o' =>
    s.same s' && sameClauses cs cs' && sameOptionalBlock o o'
  | .whileLoop c b, .whileLoop c' b' => c.same c' && sameBlock b b'
  | .forLoop i c s b, .forLoop i' c' s' b' =>
    i.same i' && c.same c' && s.same s' && sameBlock b b'
  | .function n ps b, .function n' ps' b' => n == n' && ps == ps' && sameBlock b b'
  | .call f as, .call f' as' => f.same f' && sameExprs as as'
  | .index s k, .index s' k' => s.same s' && k.same k'
  | .macroLiteral ps b, .macroLiteral ps' b' => ps == ps' && sameBlock b b'
  | _, _ => false
termination_by structural e => e

/-- Sameness of statements. -/
def Stmt.same : Stmt → Stmt → Bool
  | .bind n v, .bind n' v' => n == n' && v.same v'
  | .bindConst n v, .bindConst n' v' => n == n' && v.same v'
  | .assign n v, .assign n' v' => n == n' && v.same v'
  | .ret v, .ret v' => v.same v'
  | .expr e, .expr e' => e.same e'
  | _, _ => false
termination_by structural e => e

/-- Sameness of lists of expressions. -/
def sameExprs : List Expr → List Expr → Bool
  | [], [] => true
  | a :: as, b :: bs => a.same b && sameExprs as bs
  | _, _ => false
termination_by structural e => e

/-- Sameness of lists of pairs. -/
def samePairs : List (Expr × Expr) → List (Expr × Expr) → Bool
  | [], [] => true
  | (k, v) :: ps, (k', v') :: ps' => k.same k' && v.same v' && samePairs ps ps'
  | _, _ => false
termination_by structural e => e

/-- Sameness of lists of guarded blocks. -/
def sameClauses : List (Expr × List Stmt) → List (Expr × List Stmt) → Bool
  | [], [] => true
  | (e, b) :: cs, (e', b') :: cs' => e.same e' && sameBlock b b' && sameClauses cs cs'
  | _, _ => false
termination_by structural e => e

/-- Sameness of blocks. -/
def sameBlock : List Stmt → List Stmt → Bool
  | [], [] => true
  | s :: ss, s' :: ss' => s.same s' && sameBlock ss ss'
  | _, _ => false
termination_by structural e => e

/-- Sameness of blocks that may be missing. -/
def sameOptionalBlock : Option (List Stmt) → Option (List Stmt) → Bool
  | none, none => true
  | some b, some b' => sameBlock b b'
  | _, _ => false
termination_by structural e => e

end

/-- Sameness of trees of any kind. -/
def Node.same : Node → Node → Bool
  | program p, program q => sameBlock p.statements q.statements
  | block a, block b => sameBlock a b
  | stmt a, stmt b => a.same b
  | expr a, expr b => a.same b
  | _, _ => false

end Quill
