/-
Module: Quill.Tree.Traversal
Layer: Trees
Purpose: Changing a tree from the leaves up. `Node.transform f` rebuilds every tree from its transformed
  parts and then hands it to `f`, from left to right, in any monad; what `f` returns is not walked again.
  Parts sit in places that accept one kind of tree only (a callee is an expression, a loop's body is a
  block, a parameter is a name). If `f` answers with a tree of another kind, the place keeps what stood
  in it before the walk.
Main exports: Expr.mapParts, Stmt.mapParts, mapBlock, Node.transform, Node.transformInKind,
  Program.transform
-/
import Quill.Tree

namespace Quill

variable {m : Type → Type} [Monad m]

/-!
### Places

`before` is what stands in a place and `parts` computes the same tree with its parts transformed.
-/

/-- Fills a place for an expression. -/
def placeExpr (f : Node → m Node) (before : Expr) (parts : m Expr) : m Expr := do
  let rebuilt ← parts
  match ← f (.expr rebuilt) with
  | .expr after => return after
  | _ => return before

/-- Fills a place for a statement. -/
def placeStmt (f : Node → m Node) (before : Stmt) (parts : m Stmt) : m Stmt := do
  let rebuilt ← parts
  match ← f (.stmt rebuilt) with
  | .stmt after => return after
  | _ => return before

/-- Fills a place for a block. -/
def placeBlock (f : Node → m Node) (before : Block) (parts : m Block) : m Block := do
  let rebuilt ← parts
  match ← f (.block rebuilt) with
  | .block after => return after
  | _ => return before

/-- Fills places for parameters, which are offered as names and accept names only. -/
def placeParams (f : Node → m Node) : List String → m (List String)
  | [] => return []
  | before :: rest => do
    let first ←
      match ← f (.expr (.ident before)) with
      | .expr (.ident after) => pure after
      | _ => pure before
    let others ← placeParams f rest
    return first :: others

/-!
### Parts
-/

mutual

/-- An expression with its parts transformed. -/
def Expr.mapParts (f : Node → m Node) : Expr → m Expr
  | .ident name => return .ident name
  | .integer n => return .integer n
  | .float x => return .float x
  | .boolean b => return .boolean b
  | .text content => return .text content
  | .null => return .null
  | .array items => do
    let items' ← mapExprs f items
    return .array items'
  | .hash pairs => do
    let pairs' ← mapPairs f pairs
    return .hash pairs'
  | .unary op operand => do
    let operand' ← placeExpr f operand (operand.mapParts f)
    return .unary op operand'
  | .binary op left right => do
    let left' ← placeExpr f left (left.mapParts f)
    let right' ← placeExpr f right (right.mapParts f)
    return .binary op left' right'
  | .conditional clauses otherwise => do
    let clauses' ← mapClauses f clauses
    let otherwise' ← mapOtherwise f otherwise
    return .conditional clauses' otherwise'
  | .switch subject cases otherwise => do
    let subject' ← placeExpr f subject (subject.mapParts f)
    let cases' ← mapClauses f cases
    let otherwise' ← mapOtherwise f otherwise
    return .switch subject' cases' otherwise'
  | .whileLoop condition body => do
    let condition' ← placeExpr f condition (condition.mapParts f)
    let body' ← placeBlock f body (mapBlock f body)
    return .whileLoop condition' body'
  | .forLoop start condition step body => do
    let start' ← placeStmt f start (start.mapParts f)
    let condition' ← placeExpr f condition (condition.mapParts f)
    let step' ← placeStmt f step (step.mapParts f)
    let body' ← placeBlock f body (mapBlock f body)
    return .forLoop start' condition' step' body'
  | .function name params body => do
    let params' ← placeParams f params
    let body' ← placeBlock f body (mapBlock f body)
    return .function name params' body'
  | .call callee args => do
    let callee' ← placeExpr f callee (callee.mapParts f)
    let args' ← mapExprs f args
    return .call callee' args'
  | .index subject key => do
    let subject' ← placeExpr f subject (subject.mapParts f)
    let key' ← placeExpr f key (key.mapParts f)
    return .index subject' key'
  | .macroLiteral params body => do
    let params' ← placeParams f params
    let body' ← placeBlock f body (mapBlock f body)
    return .macroLiteral params' body'
termination_by structural e => e

/-- A statement with its value transformed. Names that are bound or assigned are no parts. -/
def Stmt.mapParts (f : Node → m Node) : Stmt → m Stmt
  | .bind name value => do
    let value' ← placeExpr f value (value.mapParts f)
    return .bind name value'
  | .bindConst name value => do
    let value' ← placeExpr f value (value.mapParts f)
    return .bindConst name value'
  | .assign name value => do
    let value' ← placeExpr f value (value.mapParts f)
    return .assign name value'
  | .ret value => do
    let value' ← placeExpr f value (value.mapParts f)
    return .ret value'
  | .expr e => do
    let e' ← placeExpr f e (e.mapParts f)
    return .expr e'
termination_by structural s => s

/-- Transformed expressions, from left to right. -/
def mapExprs (f : Node → m Node) : List Expr → m (List Expr)
  | [] => return []
  | e :: es => do
    let e' ← placeExpr f e (e.mapParts f)
    let es' ← mapExprs f es
    return e' :: es'
termination_by structural es => es

/-- Transformed entries of a hash, each key before its value. -/
def mapPairs (f : Node → m Node) : List (Expr × Expr) → m (List (Expr × Expr))
  | [] => return []
  | (key, value) :: ps => do
    let key' ← placeExpr f key (key.mapParts f)
    let value' ← placeExpr f value (value.mapParts f)
    let ps' ← mapPairs f ps
    return (key', value') :: ps'
termination_by structural ps => ps

/-- Transformed guarded blocks, each guard before its block. -/
def mapClauses (f : Node → m Node) : List (Expr × List Stmt) → m (List (Expr × List Stmt))
  | [] => return []
  | (guard, body) :: cs => do
    let guard' ← placeExpr f guard (guard.mapParts f)
    let body' ← placeBlock f body (mapBlock f body)
    let cs' ← mapClauses f cs
    return (guard', body') :: cs'
termination_by structural cs => cs

/-- A transformed block, if there is one. -/
def mapOtherwise (f : Node → m Node) : Option (List Stmt) → m (Option (List Stmt))
  | none => return none
  | some body => do
    let body' ← placeBlock f body (mapBlock f body)
    return some body'
termination_by structural b => b

/-- A block with its statements transformed. -/
def mapBlock (f : Node → m Node) : List Stmt → m (List Stmt)
  | [] => return []
  | s :: ss => do
    let s' ← placeStmt f s (s.mapParts f)
    let ss' ← mapBlock f ss
    return s' :: ss'
termination_by structural ss => ss

end

/-- A tree with its parts transformed. -/
def Node.mapParts (f : Node → m Node) : Node → m Node
  | program p => do
    let statements ← mapBlock f p.statements
    return .program ⟨statements⟩
  | block b => do
    let b' ← mapBlock f b
    return .block b'
  | stmt s => do
    let s' ← s.mapParts f
    return .stmt s'
  | expr e => do
    let e' ← e.mapParts f
    return .expr e'

/-- A tree transformed from the leaves up; the answer for the whole tree is whatever `f` gives. -/
def Node.transform (f : Node → m Node) (n : Node) : m Node := do
  let rebuilt ← n.mapParts f
  f rebuilt

/-- A tree transformed from the leaves up into a tree of its own kind: an answer of another kind
    leaves the whole tree as it was before the walk. -/
def Node.transformInKind (f : Node → m Node) (n : Node) : m Node := do
  let after ← n.transform f
  return if after.kind = n.kind then after else n

/-- A program transformed from the leaves up; an answer that is no program leaves it as it was. -/
def Program.transform (f : Node → m Node) (p : Program) : m Program := do
  match ← Node.transform f (.program p) with
  | .program after => return after
  | _ => return p

end Quill
